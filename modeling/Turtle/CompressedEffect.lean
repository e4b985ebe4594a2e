import Turtle.Decompressing
import Turtle.Exec.SeqFacts
import Turtle.Memory
import Turtle.Mmu.Data

/-!
# Compressed instructions behave as their expansions

A compressed instruction and the 32-bit instruction that it stands for give records
that differ in their length, in operands that they do not use and in marks that EXEC
does not look at. This file compares what EXEC makes of the two records: only the
address behind the instruction differs.
-/

namespace Turtle

open Rv32 (CInstr Instr)

/-- The register that a record writes, if it writes one other than `x0`. -/
def IdEx.dest (d : IdEx) : Option (BitVec 5) :=
  if d.writesRd && d.rd != 0 then some d.rd else none

/-- The register that an output writes, if it writes one other than `x0`. -/
def ExecOut.dest (o : ExecOut) : Option (BitVec 5) :=
  if o.exWriteRd && o.exRd != 0 then some o.exRd else none

namespace Exec

variable (e : Exec) (i : ExecIn) (d : IdEx)

/-- What `exec_comb` decides on the record `d`. -/
def decisionOn : ExecComb := e.execComb { i with idEx := d }

/-- What `exec_comb` drives on the record `d`. -/
def outputOn : ExecOut := e.execOut { i with idEx := d } (e.decisionOn i d)

end Exec

/-- The instruction goes on behind itself. -/
def FallsThrough (i : ExecIn) (c : ExecComb) : Prop :=
  i.rst = false ∧ c.onTrap = false ∧ c.stall = false ∧ c.branchTaken = false

/-- The instruction is a jump that leaves the address behind itself in its register. The
answer of the DMMU comes first in the choice of the value. -/
def Links (i : ExecIn) (d : IdEx) (c : ExecComb) : Prop :=
  (d.type = .jal ∨ d.type = .jalr) ∧ c.branchTaken = true ∧ i.dmmuRsp.mmuRspAck = false

/-- Two requests to the DMMU that ask for the same access. -/
structure SameRequest (r r' : DmemIn) : Prop where
  reqAck : r.dmemReqAck = r'.dmemReqAck
  kinds : (r.dmemIsLoad, r.dmemIsStore, r.dmemIsAmo) = (r'.dmemIsLoad, r'.dmemIsStore, r'.dmemIsAmo)
  size : r.dmemSize = r'.dmemSize
  amoop : r.dmemAmoop = r'.dmemAmoop
  addr : r.dmemReqAck = true → r.dmemAddr = r'.dmemAddr
  wdata : r.dmemReqAck = true → r.dmemIsStore = true → r.dmemWdata = r'.dmemWdata

/-- The record `d` of a compressed instruction has the effect of the record `d'` of its
expansion: the same decision up to the next pc and the value for the register, the same
register, request and CSRs. The next pc and the value differ exactly where the address
behind the instruction shows. -/
structure SameEffect (e : Exec) (i : ExecIn) (d d' : IdEx) : Prop where
  decision : { e.decisionOn i d with npc := 0, exRdVal := 0 } =
    { e.decisionOn i d' with npc := 0, exRdVal := 0 }
  npc : ¬ FallsThrough i (e.decisionOn i d) → (e.outputOn i d).npc = (e.outputOn i d').npc
  npc_through : FallsThrough i (e.decisionOn i d) →
    (e.outputOn i d).npc = i.exPc + 2 ∧ (e.outputOn i d').npc = i.exPc + 4
  dest : (e.outputOn i d).dest = (e.outputOn i d').dest
  value : (e.outputOn i d).dest ≠ none → ¬ Links i d (e.decisionOn i d) →
    (e.outputOn i d).exRdVal = (e.outputOn i d').exRdVal
  value_link : (e.outputOn i d).dest ≠ none → Links i d (e.decisionOn i d) →
    (e.outputOn i d).exRdVal = d.pc + 2 ∧ (e.outputOn i d').exRdVal = d.pc + 4
  request : SameRequest (e.outputOn i d).exToDmmu (e.outputOn i d').exToDmmu
  next : ∀ mtime, e.execSeq d (e.decisionOn i d) mtime = e.execSeq d' (e.decisionOn i d') mtime

/-! ### Records of the same instruction -/

/-- What the two records share whatever the instruction does. -/
structure Paired (d d' : IdEx) : Prop where
  onTrap : d.onTrap = false ∧ d'.onTrap = false
  flush : d.flush = false ∧ d'.flush = false
  isCompressed : d.isCompressed = true ∧ d'.isCompressed = false
  wfi : d.type ≠ .wfi ∧ d'.type ≠ .wfi
  signed : (d.type = .lb ↔ d'.type = .lb) ∧ (d.type = .lh ↔ d'.type = .lh)
  csrAddr : d.csrAddr < 0x400 ∧ d'.csrAddr < 0x400
  pc : d.pc = d'.pc
  dest : d.dest = d'.dest
  kinds : d.kinds = d'.kinds
  memSize : d.memSize = d'.memSize
  amoType : d.amoType = d'.amoType

/-- Two decisions of the execute stage that agree but for the address behind the
instruction. -/
structure Matches (i : ExecIn) (d d' : IdEx) (c c' : ExecComb) : Prop where
  decision : { c with npc := 0, exRdVal := 0 } = { c' with npc := 0, exRdVal := 0 }
  target : c.branchTaken = true ∨ i.rst = true → c.npc = c'.npc
  through : FallsThrough i c → c.npc = i.exPc + 2 ∧ c'.npc = i.exPc + 4
  value : d.dest ≠ none → ¬ Links i d c → i.dmmuRsp.mmuRspAck = false → c.exRdVal = c'.exRdVal
  value_link : Links i d c → c.exRdVal = d.pc + 2 ∧ c'.exRdVal = d.pc + 4
  quiet : c.csrAccess = false ∧ c.csrMret = false ∧ c.csrSret = false
  addr : c.dmemReqAck = true → (if d.isAtomic then d.rs1Val else d.rs1Val + d.imm) =
    if d'.isAtomic then d'.rs1Val else d'.rs1Val + d'.imm
  wdata : c.dmemReqAck = true → d.isStore = true → d.rs2Val = d'.rs2Val

namespace Exec

variable {e : Exec} {i : ExecIn} {d d' : IdEx} {c c' : ExecComb}

theorem execOut_dest : (e.execOut i c).dest =
    if c.onTrap || c.csrSret || c.csrMret || c.stall then none else i.idEx.dest := by
  unfold ExecOut.dest IdEx.dest execOut
  dsimp only
  cases (c.onTrap || c.csrSret || c.csrMret || c.stall) <;> simp

/-- Records without a counter's address count alike. -/
theorem counterUpdate_congr {a a' lo hi : BitVec 12} {counts : Bool} {s : Exec}
    (h : a ≠ lo ∧ a ≠ hi) (h' : a' ≠ lo ∧ a' ≠ hi) (v v' : BitVec 32) :
    counterUpdate e a v lo hi counts s = counterUpdate e a' v' lo hi counts s := by
  unfold counterUpdate
  rw [if_neg h.1, if_neg h.2, if_neg h'.1, if_neg h'.2]

theorem execSeq_congr {mtime : BitVec 64} (h : d.csrAddr < 0x400) (h' : d'.csrAddr < 0x400)
    (hcommit : e.commit d c = e.commit d' c') (hret : instRet d c = instRet d' c') :
    e.execSeq d c mtime = e.execSeq d' c' mtime := by
  have hne {a : BitVec 12} (ha : a < 0x400#12) (lo hi : BitVec 12) (hlo : 0x400#12 ≤ lo)
      (hhi : 0x400#12 ≤ hi) : a ≠ lo ∧ a ≠ hi := by
    constructor
    · rintro rfl
      exact absurd ha (BitVec.not_lt.mpr hlo)
    · rintro rfl
      exact absurd ha (BitVec.not_lt.mpr hhi)
  have hcycle {a : BitVec 12} (ha : a < 0x400#12) :=
    hne ha Csr.mcycle Csr.mcycleh (by decide) (by decide)
  have hinstret {a : BitVec 12} (ha : a < 0x400#12) :=
    hne ha Csr.minstret Csr.minstreth (by decide) (by decide)
  unfold execSeq
  dsimp only
  rw [hcommit, hret,
    counterUpdate_congr (hinstret h) (hinstret h') _ (e.csrWdata d' d'.csrAddr c'.exRdVal),
    counterUpdate_congr (hcycle h) (hcycle h') _ (e.csrWdata d' d'.csrAddr c'.exRdVal)]

end Exec

namespace Matches

variable {e : Exec} {i : ExecIn} {d d' : IdEx} {c c' : ExecComb} (h : Matches i d d' c c')

include h

theorem onTrap : c.onTrap = c'.onTrap := (congrArg ExecComb.onTrap h.decision :)

theorem cause : c.cause = c'.cause := (congrArg ExecComb.cause h.decision :)

theorem stall : c.stall = c'.stall := (congrArg ExecComb.stall h.decision :)

theorem tval : c.tval = c'.tval := (congrArg ExecComb.tval h.decision :)

theorem epc : c.epc = c'.epc := (congrArg ExecComb.epc h.decision :)

theorem reqAck : c.dmemReqAck = c'.dmemReqAck := (congrArg ExecComb.dmemReqAck h.decision :)

theorem quiet' : c'.csrAccess = false ∧ c'.csrMret = false ∧ c'.csrSret = false := by
  have haccess : c.csrAccess = c'.csrAccess := (congrArg ExecComb.csrAccess h.decision :)
  have hmret : c.csrMret = c'.csrMret := (congrArg ExecComb.csrMret h.decision :)
  have hsret : c.csrSret = c'.csrSret := (congrArg ExecComb.csrSret h.decision :)
  rw [← haccess, ← hmret, ← hsret]
  exact h.quiet

theorem npcOut (hgo : ¬ FallsThrough i c) :
    e.npcOut { i with idEx := d } c = e.npcOut { i with idEx := d' } c' := by
  obtain ⟨-, hmret, hsret⟩ := h.quiet
  obtain ⟨-, hmret', hsret'⟩ := h.quiet'
  unfold Exec.npcOut
  rw [← h.onTrap, ← h.cause, ← h.stall, hmret, hsret, hmret', hsret', if_neg Bool.false_ne_true,
    if_neg Bool.false_ne_true, if_neg Bool.false_ne_true, if_neg Bool.false_ne_true]
  split_ifs with htrap hstall
  · rfl
  · rfl
  · refine h.target ?_
    by_contra hno
    rw [not_or, Bool.not_eq_true, Bool.not_eq_true] at hno
    exact hgo ⟨hno.2, by simpa using htrap, by simpa using hstall, hno.1⟩

theorem npcOut_through (hgo : FallsThrough i c) :
    e.npcOut { i with idEx := d } c = i.exPc + 2 ∧ e.npcOut { i with idEx := d' } c' = i.exPc + 4 := by
  obtain ⟨-, hmret, hsret⟩ := h.quiet
  obtain ⟨-, hmret', hsret'⟩ := h.quiet'
  obtain ⟨hnpc, hnpc'⟩ := h.through hgo
  obtain ⟨-, htrap, hstall, -⟩ := hgo
  unfold Exec.npcOut
  rw [← h.onTrap, ← h.stall, htrap, hstall, hmret, hsret, hmret', hsret']
  exact ⟨hnpc, hnpc'⟩

theorem execOut_dest (hdest : d.dest = d'.dest) :
    (e.execOut { i with idEx := d } c).dest = (e.execOut { i with idEx := d' } c').dest := by
  obtain ⟨-, hmret, hsret⟩ := h.quiet
  obtain ⟨-, hmret', hsret'⟩ := h.quiet'
  rw [Exec.execOut_dest, Exec.execOut_dest, ← h.onTrap, ← h.stall, hmret, hsret, hmret', hsret', hdest]

end Matches

namespace Exec

variable {e : Exec} {i : ExecIn} {d d' : IdEx} {c : ExecComb}

/-- The value that an instruction writes to a register. -/
theorem execOut_exRdVal (hw : (e.execOut i c).dest ≠ none) :
    i.idEx.dest ≠ none ∧ (e.execOut i c).exRdVal = rdValue i c := by
  rw [execOut_dest] at hw
  unfold execOut
  dsimp only
  cases hquiet : (c.onTrap || c.csrSret || c.csrMret || c.stall) with
  | true =>
    rw [hquiet] at hw
    exact absurd rfl hw
  | false =>
    rw [hquiet] at hw
    exact ⟨hw, rfl⟩

/-- Without an answer of the DMMU the value is the one of the decision. -/
theorem rdValue_of_no_ack (h : i.dmmuRsp.mmuRspAck = false) :
    rdValue { i with idEx := d } c = c.exRdVal := by
  unfold rdValue
  dsimp only
  rw [h, if_neg Bool.false_ne_true]

/-- With an answer the value depends on the sign that the instruction asks for. -/
theorem rdValue_of_ack {c' : ExecComb} (h : i.dmmuRsp.mmuRspAck = true)
    (hsigned : (d.type = .lb ↔ d'.type = .lb) ∧ (d.type = .lh ↔ d'.type = .lh)) :
    rdValue { i with idEx := d } c = rdValue { i with idEx := d' } c' := by
  unfold rdValue
  dsimp only
  rw [h, if_pos rfl, if_pos rfl]
  simp only [hsigned.1, hsigned.2]

end Exec

section

variable {e : Exec} {i : ExecIn} {d d' : IdEx}

/-- Records on which the decisions match have the same effect. -/
theorem SameEffect.of_matches (hpair : Paired d d')
    (h : Matches i d d' (e.decisionOn i d) (e.decisionOn i d')) : SameEffect e i d d' := by
  have hdest := h.execOut_dest (e := e) hpair.dest
  constructor
  case decision => exact h.decision
  case npc => exact h.npcOut
  case npc_through => exact h.npcOut_through
  case dest => exact hdest
  case value =>
    intro hw hno
    have hw' : (e.outputOn i d').dest ≠ none := by
      rw [← show (e.outputOn i d).dest = (e.outputOn i d').dest from hdest]
      exact hw
    obtain ⟨hrd, hval⟩ := Exec.execOut_exRdVal hw
    rw [Exec.outputOn, Exec.outputOn, hval, (Exec.execOut_exRdVal hw').2]
    cases hack : i.dmmuRsp.mmuRspAck with
    | true => exact Exec.rdValue_of_ack hack hpair.signed
    | false =>
      rw [Exec.rdValue_of_no_ack hack, Exec.rdValue_of_no_ack hack]
      exact h.value hrd hno hack
  case value_link =>
    intro hw hlink
    have hw' : (e.outputOn i d').dest ≠ none := by
      rw [← show (e.outputOn i d).dest = (e.outputOn i d').dest from hdest]
      exact hw
    rw [Exec.outputOn, Exec.outputOn, (Exec.execOut_exRdVal hw).2, (Exec.execOut_exRdVal hw').2,
      Exec.rdValue_of_no_ack hlink.2.2, Exec.rdValue_of_no_ack hlink.2.2]
    exact h.value_link hlink
  case request =>
    have hload : d.isLoad = d'.isLoad := congrArg Prod.fst hpair.kinds
    have hstore : d.isStore = d'.isStore := congrArg (·.2.1) hpair.kinds
    have hatomic : d.isAtomic = d'.isAtomic := congrArg (·.2.2) hpair.kinds
    constructor
    case reqAck => exact h.reqAck
    case kinds =>
      unfold Exec.outputOn Exec.execOut Exec.mmuReq
      dsimp only
      rw [hload, hstore, hatomic]
    case size => exact hpair.memSize
    case amoop => exact hpair.amoType
    case addr => exact h.addr
    case wdata =>
      intro hack hisStore
      exact h.wdata hack (Bool.and_eq_true_iff.mp hisStore).1
  case next =>
    intro mtime
    obtain ⟨haccess, hmret, hsret⟩ := h.quiet
    obtain ⟨haccess', hmret', hsret'⟩ := h.quiet'
    apply Exec.execSeq_congr hpair.csrAddr.1 hpair.csrAddr.2
    · unfold Exec.commit
      rw [← h.onTrap, ← h.cause, ← h.tval, ← h.epc, haccess, hmret, hsret, haccess', hmret', hsret']
      rfl
    · unfold Exec.instRet
      rw [← h.onTrap, ← h.cause, ← h.stall, beq_eq_false_iff_ne.mpr hpair.wfi.1,
        beq_eq_false_iff_ne.mpr hpair.wfi.2]

/-! ### Decisions that match -/

/-- The same decision for both records. -/
theorem Matches.same {c : ExecComb} (hgo : ¬ FallsThrough i c) (hbranch : c.branchTaken = false)
    (hreq : c.dmemReqAck = false)
    (hquiet : c.csrAccess = false ∧ c.csrMret = false ∧ c.csrSret = false) : Matches i d d' c c where
  decision := rfl
  target _ := rfl
  through h := absurd h hgo
  value _ _ _ := rfl
  value_link h := by
    rw [Links, hbranch] at h
    exact absurd h.2.1 Bool.false_ne_true
  quiet := hquiet
  addr h := by
    rw [hreq] at h
    cases h
  wdata h := by
    rw [hreq] at h
    cases h

/-- The decision on which EXEC starts a record that is `len` bytes long. -/
def decisionStart (i : ExecIn) (len : BitVec 32) : ExecComb :=
  { epc := i.exPc, npc := i.exPc + len }

/-- It is enough to compare what the two records do when they are executed. -/
theorem Matches.of_execType (hpair : Paired d d')
    (h : i.rst = false → Matches i d d' (e.execType { i with idEx := d } (decisionStart i 2))
      (e.execType { i with idEx := d' } (decisionStart i 4))) :
    Matches i d d' (e.decisionOn i d) (e.decisionOn i d') := by
  obtain ⟨htrap, htrap'⟩ := hpair.onTrap
  obtain ⟨hflush, hflush'⟩ := hpair.flush
  obtain ⟨hlen, hlen'⟩ := hpair.isCompressed
  unfold Exec.decisionOn Exec.execComb
  dsimp only
  rw [beq_eq_false_iff_ne.mpr hpair.wfi.1, beq_eq_false_iff_ne.mpr hpair.wfi.2, htrap, htrap',
    hflush, hflush', hlen, hlen', Bool.or_false]
  cases hrst : i.rst with
  | true =>
    rw [if_pos rfl, if_pos rfl]
    refine .same ?_ rfl rfl ⟨rfl, rfl, rfl⟩
    rintro ⟨hno, -⟩
    rw [hrst] at hno
    cases hno
  | false =>
    rw [if_neg Bool.false_ne_true, if_neg Bool.false_ne_true]
    split
    · refine .same ?_ rfl rfl ⟨rfl, rfl, rfl⟩
      rintro ⟨-, hno, -⟩
      cases hno
    · exact h hrst

/-- An instruction that goes on behind itself, traps or stalls. -/
theorem Matches.of_through {r : ExecComb} {v u : BitVec 32} (hrst : i.rst = false)
    (hbranch : r.branchTaken = false)
    (hquiet : r.csrAccess = false ∧ r.csrMret = false ∧ r.csrSret = false)
    (hv : d.dest ≠ none → v = u)
    (haddr : r.dmemReqAck = true → (if d.isAtomic then d.rs1Val else d.rs1Val + d.imm) =
      if d'.isAtomic then d'.rs1Val else d'.rs1Val + d'.imm)
    (hdata : r.dmemReqAck = true → d.isStore = true → d.rs2Val = d'.rs2Val) :
    Matches i d d' { r with npc := i.exPc + 2, exRdVal := v }
      { r with npc := i.exPc + 4, exRdVal := u } where
  decision := rfl
  target h := by
    rw [show _ = false from hbranch, hrst] at h
    exact absurd h (by simp)
  through _ := ⟨rfl, rfl⟩
  value hw _ _ := hv hw
  value_link h := by
    rw [Links, show _ = false from hbranch] at h
    exact absurd h.2.1 Bool.false_ne_true
  quiet := hquiet
  addr := haddr
  wdata := hdata

/-- An instruction that computes a value. -/
theorem Matches.of_value {v u : BitVec 32} (hrst : i.rst = false)
    (hv : d.dest ≠ none → v = u) : Matches i d d' { decisionStart i 2 with exRdVal := v }
      { decisionStart i 4 with exRdVal := u } :=
  of_through (r := decisionStart i 0) hrst rfl ⟨rfl, rfl, rfl⟩ hv (absurd · Bool.false_ne_true)
    (absurd · Bool.false_ne_true)

/-- An instruction that accesses memory. -/
theorem Matches.of_access (hrst : i.rst = false) (hatomic : d.isAtomic = false ∧ d'.isAtomic = false)
    (haddr : d.rs1Val + d.imm = d'.rs1Val + d'.imm)
    (hdata : d.isStore = true → d.rs2Val = d'.rs2Val) :
    Matches i d d'
      { decisionStart i 2 with
        tval := i.dmmuRsp.mmuRspTval, stall := !i.dmmuRsp.mmuRspAck,
        cause := i.dmmuRsp.mmuRspFault.setWidth 32, onTrap := i.dmmuRsp.mmuRspFault != 0,
        dmemReqAck := !i.wbStall }
      { decisionStart i 4 with
        tval := i.dmmuRsp.mmuRspTval, stall := !i.dmmuRsp.mmuRspAck,
        cause := i.dmmuRsp.mmuRspFault.setWidth 32, onTrap := i.dmmuRsp.mmuRspFault != 0,
        dmemReqAck := !i.wbStall } := by
  refine of_through (v := 0) (u := 0) (r := { decisionStart i 0 with
        tval := i.dmmuRsp.mmuRspTval, stall := !i.dmmuRsp.mmuRspAck,
        cause := i.dmmuRsp.mmuRspFault.setWidth 32, onTrap := i.dmmuRsp.mmuRspFault != 0,
        dmemReqAck := !i.wbStall }) hrst rfl ⟨rfl, rfl, rfl⟩ (fun _ => rfl) (fun _ => ?_)
    (fun _ => hdata)
  rw [hatomic.1, hatomic.2]
  exact haddr

/-- An instruction that jumps to the same target for both records. -/
theorem Matches.of_jump {target v u : BitVec 32}
    (hv : ¬ (d.type = .jal ∨ d.type = .jalr) → v = u)
    (hlink : d.type = .jal ∨ d.type = .jalr → v = d.pc + 2 ∧ u = d.pc + 4) :
    Matches i d d' ({ decisionStart i 2 with exRdVal := v }.jump target)
      ({ decisionStart i 4 with exRdVal := u }.jump target) := by
  unfold ExecComb.jump
  dsimp only
  split
  all_goals
    constructor
    case decision => rfl
    case target => exact fun _ => rfl
    case through => exact fun h => absurd h.2.2.2 Bool.false_ne_true.symm
    case value =>
      intro _ hno hack
      exact hv fun htype => hno ⟨htype, rfl, hack⟩
    case value_link => exact fun h => hlink h.1
    case quiet => exact ⟨rfl, rfl, rfl⟩
    case addr => exact (absurd · Bool.false_ne_true)
    case wdata => exact (absurd · Bool.false_ne_true)

theorem Matches.of_branch {taken : Bool} (hrst : i.rst = false) (hpc : d.pc = d'.pc)
    (himm : d.imm = d'.imm) (htype : d.type ≠ .jal ∧ d.type ≠ .jalr) :
    Matches i d d' ((decisionStart i 2).branch d taken) ((decisionStart i 4).branch d' taken) := by
  unfold ExecComb.branch
  rw [← hpc, ← himm]
  cases taken with
  | false => exact of_value hrst fun _ => rfl
  | true => exact of_jump (fun _ => rfl) fun h => absurd h (not_or.mpr htype)

/-! ### The expansions -/

/-- The instructions among which the expansions are. -/
@[simp] def Plain : Instr → Prop
  | .lui _ _ | .jal _ _ | .jalr _ _ _ | .branch _ _ _ _ => True
  | .load _ _ _ _ | .store _ _ _ _ => True
  | .aluImm _ _ _ _ | .shift _ _ _ _ => True
  | .alu op _ _ _ => isMuldiv op = false
  | .system op => op = .ebreak
  | _ => False

theorem plain_expand (c : CInstr) : Plain c.expand := by
  cases c with
  | arith op rd rs2 => cases op <;> rfl
  | mv rd rs2 hrs2 => rfl
  | add rd rs2 hrs2 => rfl
  | ebreak => rfl
  | _ => trivial

/-- The amount of a shift. -/
theorem shamt_toNat (v : BitVec 32) : (v &&& 0x1F).toNat = (v.setWidth 5).toNat := by
  rw [Bits.and_ones_toNat v 0x1F (n := 5) rfl, BitVec.toNat_setWidth]

variable {f : Forward} {pc : BitVec 32} {ins : Instr}

/-- The records of one instruction, compressed or not, are executed alike. -/
theorem Matches.of_decodes (h : Decodes f pc ins d.expanded) (h' : Decodes f pc ins d')
    (hlen : d.isCompressed = true) (hplain : Plain ins) (hrst : i.rst = false) :
    Matches i d d' (e.execType { i with idEx := d } (decisionStart i 2))
      (e.execType { i with idEx := d' } (decisionStart i 4)) := by
  have ht : d.type = instrType ins := h.type
  have ht' : d'.type = instrType ins := h'.type
  have hpc : d.pc = d'.pc := h.pc.trans h'.pc.symm
  have hlen' : d'.isCompressed = false := h'.isCompressed
  have hrs1 : ∀ r ∈ ins.rs1, d.rs1Val = d'.rs1Val := fun r hr =>
    (h.rs1 r hr).2.trans (h'.rs1 r hr).2.symm
  have hrs2 : ∀ r ∈ ins.rs2, d.rs2Val = d'.rs2Val := fun r hr =>
    (h.rs2 r hr).2.trans (h'.rs2 r hr).2.symm
  have himm : ∀ v ∈ ins.imm, d.imm = d'.imm := fun v hv => (h.imm v hv).trans (h'.imm v hv).symm
  have hatomic : d.isAtomic = false ∧ d'.isAtomic = false := by
    have hkinds : d.kinds = accessKinds ins := h.kinds
    have hno : (accessKinds ins).2.2 = false := by
      cases ins <;> first | rfl | exact hplain.elim
    exact ⟨(congrArg (·.2.2) hkinds).trans hno, (congrArg (·.2.2) h'.kinds).trans hno⟩
  unfold Exec.execType
  dsimp only
  rw [ht, ht']
  cases ins with
  | lui rd imm => exact .of_value hrst fun _ => himm _ rfl
  | jal rd offset =>
    unfold Exec.execJump
    dsimp only
    rw [hlen, hlen', ← hpc, himm _ rfl]
    exact .of_jump (fun hno => absurd (.inl ht) hno) fun _ => ⟨rfl, rfl⟩
  | jalr rd rs1 imm =>
    unfold Exec.execJump
    dsimp only
    rw [hlen, hlen', ← hpc, himm _ rfl, hrs1 _ rfl]
    exact .of_jump (fun hno => absurd (.inr ht) hno) fun _ => ⟨rfl, rfl⟩
  | branch op rs1 rs2 offset =>
    have hjump : d.type ≠ .jal ∧ d.type ≠ .jalr := by
      rw [ht]
      cases op <;> simp [branchType]
    rw [hrs1 _ rfl, hrs2 _ rfl]
    cases op <;> exact .of_branch hrst hpc (himm _ rfl) hjump
  | load op rd rs1 imm =>
    have hstore : d.isStore = false := congrArg (·.2.1) h.kinds
    have haddr : d.rs1Val + d.imm = d'.rs1Val + d'.imm := by rw [hrs1 _ rfl, himm _ rfl]
    cases op <;> exact .of_access hrst hatomic haddr (by simp [hstore])
  | store op rs1 rs2 imm =>
    have haddr : d.rs1Val + d.imm = d'.rs1Val + d'.imm := by rw [hrs1 _ rfl, himm _ rfl]
    cases op <;> exact .of_access hrst hatomic haddr fun _ => hrs2 _ rfl
  | aluImm op rd rs1 imm =>
    rw [hrs1 _ rfl, himm _ rfl]
    cases op <;> exact .of_value hrst fun _ => rfl
  | shift op rd rs1 shamt =>
    have hshamt : (d.imm &&& 0x1F).toNat = (d'.imm &&& 0x1F).toNat := by
      rw [shamt_toNat, shamt_toNat, h'.shamt shamt rfl]
      exact congrArg BitVec.toNat (h.shamt shamt rfl)
    rw [hrs1 _ rfl, hshamt]
    cases op <;> exact .of_value hrst fun _ => rfl
  | alu op rd rs1 rs2 =>
    rw [hrs1 _ rfl, hrs2 _ rfl]
    cases op
    all_goals first
      | exact .of_value hrst fun _ => rfl
      | cases hplain
  | system op =>
    obtain rfl : op = .ebreak := hplain
    rw [← hpc]
    exact .of_through (r := (decisionStart i 0).raise .breakpoint d.pc) (v := 0) (u := 0) hrst rfl
      ⟨rfl, rfl, rfl⟩ (fun _ => rfl) (absurd · Bool.false_ne_true) (absurd · Bool.false_ne_true)
  | _ => exact hplain.elim

/-- The register that the record of an instruction writes. -/
theorem Decodes.dest_eq (h : Decodes f pc ins d) : d.dest = ins.rd.filter (· != 0) := by
  have hrd := h.rd
  unfold IdEx.dest
  rw [h.writesRd]
  cases hr : ins.rd with
  | none => rfl
  | some r =>
    rw [hrd r hr]
    simp [Option.filter]

theorem Decoded.csrAddr_lt (h : Decoded d) (hgroup : d.type.group ≠ .csr) : d.csrAddr < 0x400 :=
  BitVec.not_le.mp fun hle => hgroup (h.csr_kind hle)

theorem Paired.of_decodes (h : Decodes f pc ins d.expanded) (h' : Decodes f pc ins d')
    (hlen : d.isCompressed = true) (hplain : Plain ins) (hdec : Decoded d) (hdec' : Decoded d') :
    Paired d d' := by
  have ht : d.type = instrType ins := h.type
  have ht' : d'.type = instrType ins := h'.type
  have hgroup : (instrType ins).group ≠ .csr ∧ instrType ins ≠ .wfi := by
    cases ins with
    | branch op rs1 rs2 offset => cases op <;> simp [branchType, InstrType.group]
    | load op rd rs1 imm => cases op <;> simp [loadType, InstrType.group]
    | store op rs1 rs2 imm => cases op <;> simp [storeType, InstrType.group]
    | aluImm op rd rs1 imm => cases op <;> simp [aluImmType, InstrType.group]
    | shift op rd rs1 shamt => cases op <;> simp [shiftType, InstrType.group]
    | alu op rd rs1 rs2 => cases op <;> simp [aluType, InstrType.group]
    | system op =>
      obtain rfl : op = .ebreak := hplain
      simp [systemType, InstrType.group]
    | lui rd imm => simp [InstrType.group]
    | jal rd offset => simp [InstrType.group]
    | jalr rd rs1 imm => simp [InstrType.group]
    | _ => exact hplain.elim
  have hdest : d.dest = d.expanded.dest := by
    unfold IdEx.dest IdEx.expanded
    simp
  constructor
  case onTrap => exact ⟨h.onTrap, h'.onTrap⟩
  case flush => exact ⟨h.flush, h'.flush⟩
  case isCompressed => exact ⟨hlen, h'.isCompressed⟩
  case wfi =>
    rw [ht, ht']
    exact ⟨hgroup.2, hgroup.2⟩
  case signed =>
    rw [ht, ht']
    exact ⟨Iff.rfl, Iff.rfl⟩
  case csrAddr =>
    constructor
    · exact hdec.csrAddr_lt (by rw [ht]; exact hgroup.1)
    · exact hdec'.csrAddr_lt (by rw [ht']; exact hgroup.1)
  case pc => exact h.pc.trans h'.pc.symm
  case dest => rw [hdest, h.dest_eq, h'.dest_eq]
  case kinds => exact h.kinds.trans h'.kinds.symm
  case memSize => exact BitVec.eq_of_toNat_eq (h.memSize.trans h'.memSize.symm)
  case amoType => exact h.amoType.trans h'.amoType.symm

/-- `C.NOP` has the effect of `ADDI` on `x0`. -/
theorem nop_sameEffect (f : Forward) (pc : BitVec 32) :
    SameEffect e i (decompress f pc (cword (CInstr.addi 0 0).fields))
      (decode f pc (CInstr.addi 0 0).expand.encode) := by
  have h' := decodes_of_encode f pc (i := (CInstr.addi 0 0).expand) rfl
  have hdec' := decode_decoded f pc (CInstr.addi 0 0).expand.encode
  generalize decode f pc _ = d' at h' hdec'
  have ht' : d'.type = .addi := h'.type
  have hgroup' : d'.type.group ≠ .csr := by
    rw [ht']
    decide
  rw [decompress_q1 rfl, decompressQ1_nop]
  have hpair : Paired (withOperands f { decompressStart pc (CInstr.addi 0 0).fields with
      type := .nop, ctype := .cNop, writesRd := false }) d' := by
    constructor
    case onTrap => exact ⟨rfl, h'.onTrap⟩
    case flush => exact ⟨rfl, h'.flush⟩
    case isCompressed => exact ⟨rfl, h'.isCompressed⟩
    case wfi => simp [ht']
    case signed => simp [ht']
    case csrAddr => exact ⟨by simp, hdec'.csrAddr_lt hgroup'⟩
    case pc => exact h'.pc.symm
    case dest => exact h'.dest_eq.symm
    case kinds => exact h'.kinds.symm
    case memSize => exact BitVec.eq_of_toNat_eq h'.memSize.symm
    case amoType => exact h'.amoType.symm
  refine .of_matches hpair (.of_execType hpair fun hrst => ?_)
  unfold Exec.execType
  dsimp only
  rw [ht']
  exact .of_value hrst (absurd rfl)

/-- Every compressed instruction has the effect of its expansion, hints included: the
same register and value, the same branch, request and trap. Only the next pc and the link
lie two bytes behind the pc in place of four. -/
theorem compressed_sameEffect (e : Exec) (i : ExecIn) (f : Forward) (pc : BitVec 32) (c : CInstr) :
    SameEffect e i (decompress f pc (c.encode.setWidth 32)) (decode f pc c.expand.encode) := by
  by_cases hnop : c = .addi 0 0
  · rw [hnop]
    exact nop_sameEffect f pc
  · have h : Decodes f pc c.expand (decompress f pc (cword c.fields)).expanded :=
      decompress_decodes c hnop
    have h' := decodes_of_encode f pc (i := c.expand) rfl
    have hlen := decompress_isCompressed f pc (cword c.fields)
    have hpair := Paired.of_decodes h h' hlen (plain_expand c) (decompress_decoded _ _ _)
      (decode_decoded _ _ _)
    exact .of_matches hpair (.of_execType hpair (.of_decodes h h' hlen (plain_expand c)))

end

/-! ### The data of a load

The request of a load carries the value of a register that the instruction does not name.
Nothing behind EXEC looks at it: the data side only passes it on, and memory reads the
data of stores and atomics alone.
-/

/-- The request without its data. -/
def DmemIn.dataless (r : DmemIn) : DmemIn := { r with dmemWdata := 0 }

/-- The inputs of the data side without the data of the request. -/
def DmmuIn.dataless (i : DmmuIn) : DmmuIn := { i with req := i.req.dataless }

namespace Dmmu

/-- The data side without the data that it passes on. -/
def dataless (s : Dmmu) : Dmmu :=
  { s with dMmuMem := s.dMmuMem.dataless, dmmuToMem := s.dmmuToMem.dataless }

/-- The same of an outcome of the first part of `dmem_req_seq`. -/
def Next.dataless (n : Next) : Next := { n with mmu := n.mmu.dataless }

variable {e : Exec} {s s' : Dmmu} {i i' : DmmuIn}

theorem idleStep_dataless :
    (idleStep e s.dataless i.dataless).dataless = (idleStep e s i).dataless := by
  unfold idleStep
  dsimp only
  simp only [apply_ite Next.dataless]
  rfl

theorem level1Step_dataless :
    (level1Step e s.dataless i.dataless).dataless = (level1Step e s i).dataless := by
  unfold level1Step
  dsimp only
  simp only [apply_ite Next.dataless]
  rfl

theorem level2Step_dataless :
    (level2Step e s.dataless i.dataless).dataless = (level2Step e s i).dataless := by
  unfold level2Step
  dsimp only
  simp only [apply_ite Next.dataless]
  rfl

theorem next_dataless : (next e s.dataless i.dataless).dataless = (next e s i).dataless := by
  unfold next
  simp only [apply_ite Next.dataless, idleStep_dataless, level1Step_dataless,
    level2Step_dataless]
  rfl

/-- The data side does the same whatever data it passes on. -/
theorem dmemReqSeq_dataless :
    (dmemReqSeq e s.dataless i.dataless).1.dataless = (dmemReqSeq e s i).1.dataless ∧
      (dmemReqSeq e s.dataless i.dataless).2 = (dmemReqSeq e s i).2 := by
  have hnext : (next e s.dataless i.dataless).dataless = (next e s i).dataless := next_dataless
  unfold dmemReqSeq
  generalize next e s.dataless i.dataless = n at hnext
  generalize next e s i = n' at hnext
  have hmmu : n.mmu.dataless = n'.mmu.dataless := (congrArg Next.mmu hnext :)
  have hmem : n.mmu.dMmuMem.dataless = n'.mmu.dMmuMem.dataless := (congrArg dMmuMem hmmu :)
  have hfault : n.pageFault = n'.pageFault := (congrArg Next.pageFault hnext :)
  have hmisaligned : misaligned n.mmu.dMmuMem = misaligned n'.mmu.dMmuMem :=
    (congrArg misaligned hmem :)
  have hpmp : pmpFault e n.mmu.dMmuMem = pmpFault e n'.mmu.dMmuMem :=
    (congrArg (pmpFault e) hmem :)
  refine ⟨?_, (congrArg Next.tlb hnext :)⟩
  dsimp only
  rw [hmisaligned, hpmp, hfault]
  unfold dataless at hmmu ⊢
  rw [Dmmu.mk.injEq] at hmmu ⊢
  dsimp only
  rw [apply_ite DmemIn.dataless, apply_ite DmemIn.dataless, hmem]
  simp only [hmmu, and_self]

end Dmmu

namespace SameRequest

variable {r r' : DmemIn}

theorem dataless_eq (h : SameRequest r r') (hreq : r.dmemReqAck = true) :
    r.dataless = r'.dataless := by
  obtain ⟨hload, hstore, hamo⟩ : r.dmemIsLoad = r'.dmemIsLoad ∧
      r.dmemIsStore = r'.dmemIsStore ∧ r.dmemIsAmo = r'.dmemIsAmo := by
    simpa only [Prod.mk.injEq] using h.kinds
  rw [DmemIn.dataless, DmemIn.dataless, DmemIn.mk.injEq]
  exact ⟨h.reqAck, h.addr hreq, rfl, h.size, hload, hstore, hamo, h.amoop⟩

/-- Stores of the same access are the same request. -/
theorem eq_of_store (h : SameRequest r r') (hreq : r.dmemReqAck = true)
    (hstore : r.dmemIsStore = true) : r = r' := by
  have hrest := h.dataless_eq hreq
  have hwdata := h.wdata hreq hstore
  rw [DmemIn.dataless, DmemIn.dataless, DmemIn.mk.injEq] at hrest
  cases r
  cases r'
  rw [DmemIn.mk.injEq]
  exact ⟨hrest.1, hrest.2.1, hwdata, hrest.2.2.2⟩

/-- The data side translates and checks both requests alike. -/
theorem dmemReqSeq {e : Exec} {s : Dmmu} {i : DmmuIn} (h : SameRequest i.req r')
    (hreq : i.req.dmemReqAck = true) :
    (s.dmemReqSeq e i).1.dataless = (s.dmemReqSeq e { i with req := r' }).1.dataless ∧
      (s.dmemReqSeq e i).2 = (s.dmemReqSeq e { i with req := r' }).2 := by
  have hin : i.dataless = DmmuIn.dataless { i with req := r' } :=
    congrArg (fun r => { i with req := r }) (h.dataless_eq hreq)
  obtain ⟨hout, htlb⟩ := Dmmu.dmemReqSeq_dataless (e := e) (s := s) (i := i)
  obtain ⟨hout', htlb'⟩ := Dmmu.dmemReqSeq_dataless (e := e) (s := s) (i := { i with req := r' })
  rw [hin] at hout htlb
  exact ⟨hout.symm.trans hout', htlb.symm.trans htlb'⟩

end SameRequest

namespace Memory

variable {δ : Type} {devices : List (Device δ)} {m : Memory δ} {r r' : DmemIn}

/-- Memory answers without looking at the data. -/
theorem memAccess_of_dataless_eq (h : r.dataless = r'.dataless) :
    memAccess devices m r = memAccess devices m r' :=
  (congrArg (memAccess devices m) h :)

/-- Memory carries out nothing for a load, whatever its data. -/
theorem updateMemory_of_dataless_eq {dout : MemOut} (h : r.dataless = r'.dataless)
    (hstore : r.dmemIsStore = false) (hamo : r.dmemIsAmo = false) :
    updateMemory devices m r dout = updateMemory devices m r' dout := by
  have hstore' : r'.dmemIsStore = false := by
    rw [← hstore]
    exact (congrArg DmemIn.dmemIsStore h.symm :)
  have hamo' : r'.dmemIsAmo = false := by
    rw [← hamo]
    exact (congrArg DmemIn.dmemIsAmo h.symm :)
  rw [updateMemory_of_not_applies (by simp [Applies, hstore, hamo]),
    updateMemory_of_not_applies (by simp [Applies, hstore', hamo'])]

end Memory

end Turtle
