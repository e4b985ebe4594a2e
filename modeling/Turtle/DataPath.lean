import Turtle.Memory
import Turtle.Mmu.Phases
import Turtle.Mmu.Soundness

/-!
# EXEC, the DMMU and memory

The data path of `cpu.hpp`: EXEC shows a request at the falling edge, the DMMU takes
it at the rising edge, memory answers what the DMMU sends in the delta cycles after
the edge, and `dmem_rsp_comb` passes the answer on to EXEC before the next falling
edge. `update_memory` carries out the answered request at the next rising edge. The
fetch side, MEXT, the platform lines, the TLB and the peripherals are free.
-/

namespace Turtle

/-- The state between the answer of the DMMU and the falling edge. `inReset` is the
level of reset at the last rising edge. -/
structure DataPath (δ : Type) where
  core : Core := {}
  dmmu : Dmmu := {}
  exToDmmu : DmemIn := {}
  dout : MemOut := {}
  memory : Memory δ
  inReset : Bool := true

/-- The inputs of one cycle. `late` says that reset, when it is released at the rising
edge, is still seen at the falling edge before; `env` is what the peripherals do by
themselves. -/
structure DataIn (δ : Type) where
  rst : Bool := false
  late : Bool := false
  ifId : IfId := {}
  mextRspAck : Bool := false
  mextResult : BitVec 32 := 0
  platform : Platform := {}
  mtime : BitVec 64 := 0
  tlb : Tlb := {}
  junk : TlbEntry := {}
  iin : ImemIn := {}
  env : δ → δ := id

/-! ### A memory instruction in EXEC -/

namespace IdEx

/-- A load, a store or an atomic that arrived without a trap. -/
def IsAccess (d : IdEx) : Prop :=
  d.flush = false ∧ d.onTrap = false ∧ d.type.group ∈ [.load, .store, .atomic]

instance (d : IdEx) : Decidable d.IsAccess := inferInstanceAs (Decidable (_ ∧ _))

/-- The request of a memory instruction. -/
def request (d : IdEx) : DmemIn :=
  { dmemReqAck := true
    dmemAddr := if d.isAtomic then d.rs1Val else d.rs1Val + d.imm
    dmemWdata := d.rs2Val
    dmemSize := d.memSize
    dmemIsLoad := d.isLoad
    dmemIsStore := d.isStore
    dmemIsAmo := d.isAtomic
    dmemAmoop := d.amoType }

end IdEx

theorem Exec.execType_access {e : Exec} {i : ExecIn} {c : ExecComb}
    (h : i.idEx.type.group ∈ [.load, .store, .atomic]) : e.execType i c =
      { c with tval := i.dmmuRsp.mmuRspTval, stall := !i.dmmuRsp.mmuRspAck,
               cause := i.dmmuRsp.mmuRspFault.setWidth 32,
               onTrap := i.dmmuRsp.mmuRspFault != 0, dmemReqAck := !i.wbStall } := by
  unfold execType
  dsimp only
  cases ht : i.idEx.type
  all_goals first
    | rfl
    | simp [ht, InstrType.group] at h

namespace Core

variable {entry : BitVec 32} {s : Core} {i : CoreIn}

/-- The interrupt gate of `exec_comb`, out of reset. -/
def takesInterrupt (s : Core) (i : CoreIn) : Bool :=
  (!s.wb.wbStall || s.idEx.type == .wfi) && (s.exec.checkInterrupt i.platform).isSome

theorem comb_of_interrupt (hrst : i.rstComb = false) (h : s.takesInterrupt i = true) :
    ∃ cause, s.exec.checkInterrupt i.platform = some cause ∧ s.comb entry i =
      { epc := s.wb.exPc, npc := s.wb.exPc, cause := cause, onTrap := true } := by
  obtain ⟨hgate, hsome⟩ := (Bool.and_eq_true _ _).mp h
  obtain ⟨cause, hcause⟩ := Option.isSome_iff_exists.mp hsome
  refine ⟨cause, hcause, ?_⟩
  simp only [comb, Exec.execComb, execIn, hrst, hgate, hcause, if_true, Bool.false_eq_true,
    if_false]

/-- Without an interrupt to take the gate passes none on. -/
theorem gate_eq_none (h : s.takesInterrupt i = false) :
    (if (!s.wb.wbStall || s.idEx.type == .wfi) = true then
      s.exec.checkInterrupt i.platform else none) = none := by
  split
  · rename_i hgate
    rw [takesInterrupt, hgate, Bool.true_and, Option.isSome_eq_false_iff,
      Option.isNone_iff_eq_none] at h
    exact h
  · rfl

/-- Without an interrupt the instruction in EX is executed. -/
theorem comb_of_instruction (hrst : i.rstComb = false) (hint : s.takesInterrupt i = false)
    (hflush : s.idEx.flush = false) (htrap : s.idEx.onTrap = false) : s.comb entry i =
      s.exec.execType (s.execIn entry i) (Exec.executeStart (s.execIn entry i)) := by
  have hnone := gate_eq_none hint
  rw [comb, Exec.execComb]
  simp only [execIn, hrst, hnone, hflush, htrap, Bool.false_eq_true, if_false]
  rfl

theorem comb_of_access (entry : BitVec 32) (hrst : i.rstComb = false)
    (hint : s.takesInterrupt i = false) (hmem : s.idEx.IsAccess) : s.comb entry i =
      { epc := s.wb.exPc, npc := s.wb.exPc + (if s.idEx.isCompressed then 2 else 4)
        tval := i.dmmuRsp.mmuRspTval, stall := !i.dmmuRsp.mmuRspAck
        cause := i.dmmuRsp.mmuRspFault.setWidth 32
        onTrap := i.dmmuRsp.mmuRspFault != 0, dmemReqAck := !s.wb.wbStall } := by
  obtain ⟨hflush, htrap, hgroup⟩ := hmem
  rw [comb_of_instruction hrst hint hflush htrap]
  exact Exec.execType_access (i := s.execIn entry i) hgroup

/-- The request that EXEC shows out of reset. -/
theorem exToDmmu_eq (hrst : i.rstComb = false) : (s.out entry i).exToDmmu =
    { s.idEx.request with dmemReqAck := (s.comb entry i).dmemReqAck } := by
  simp [out, Exec.execOut, Exec.mmuReq, execIn, IdEx.request, hrst]

/-- Only a memory instruction in its first cycle raises a request. -/
theorem isAccess_of_dmemReqAck (h : (s.comb entry i).dmemReqAck = true) : s.idEx.IsAccess := by
  obtain ⟨-, hflush, htrap, -⟩ :=
    Exec.executed_of_decision (P := fun c => c.dmemReqAck = true) (by simp) h
  exact ⟨hflush, htrap, (Exec.execComb_dmemReqAck h).2.2⟩

theorem takesInterrupt_of_waiting (hmem : s.idEx.IsAccess) (hwaits : s.wb.wbStall = true) :
    s.takesInterrupt i = false := by
  have htype : s.idEx.type ≠ .wfi := by
    intro hwfi
    have hgroup := hmem.2.2
    rw [hwfi] at hgroup
    exact absurd hgroup (by decide)
  simp [takesInterrupt, hwaits, htype]

end Core

namespace DataPath

variable {δ : Type} (devices : List (Device δ)) (entry : BitVec 32)

/-- `dmem_rsp_comb`: what EXEC sees of the DMMU. -/
def dmmuRsp (s : DataPath δ) : MmuRsp := s.dmmu.dmemRspComb s.dout s.exToDmmu

/-- The reset level at the falling edge. -/
def rstComb (s : DataPath δ) (i : DataIn δ) : Bool := i.rst || (s.inReset && i.late)

/-- The inputs of Decode and EXEC. -/
def coreIn (s : DataPath δ) (i : DataIn δ) : CoreIn :=
  { rstComb := s.rstComb i, rst := i.rst, ifId := i.ifId, dmmuRsp := s.dmmuRsp,
    mextRspAck := i.mextRspAck, mextResult := i.mextResult, platform := i.platform,
    mtime := i.mtime, rst_held := fun h => by rw [rstComb, h, Bool.true_or]
    fault_ack := Dmmu.dmemRspComb_fault_ack }

/-- The outputs of EXEC. -/
def out (s : DataPath δ) (i : DataIn δ) : ExecOut := s.core.out entry (s.coreIn i)

/-- The inputs of the data side of the MMU. -/
def dmmuIn (s : DataPath δ) (i : DataIn δ) : DmmuIn :=
  { rst := i.rst, flush := (s.out entry i).flush, req := (s.out entry i).exToDmmu, rsp := s.dout,
    tlb := i.tlb, junk := i.junk }

/-- One clock cycle. `mem_access` runs when the request on its port changes. -/
def step (s : DataPath δ) (i : DataIn δ) : DataPath δ :=
  let dmmu := (Dmmu.dmemReqSeq s.core.exec s.dmmu (s.dmmuIn entry i)).1
  let m := Memory.updateMemory devices { s.memory with dev := i.env s.memory.dev } s.dmmu.dmmuToMem
    s.dout
  let m := (m.instFetch i.iin).2
  let answer := if dmmu.dmmuToMem = s.dmmu.dmmuToMem then (s.dout, m)
    else Memory.memAccess devices m dmmu.dmmuToMem
  { core := s.core.step entry (s.coreIn i), dmmu := dmmu, exToDmmu := (s.out entry i).exToDmmu,
    dout := answer.1, memory := answer.2, inReset := i.rst }

/-- The states right after the first reset cycle of a powered-up machine. -/
def Started (s : DataPath δ) : Prop :=
  ∃ (m : Memory δ) (i : DataIn δ), i.rst = true ∧ s = step devices entry { memory := m } i

/-- The states that a run from reset can visit. -/
def Reachable : DataPath δ → Prop :=
  Clocked.Reachable (step devices entry) (Started devices entry)

variable {devices entry} {s : DataPath δ} {i : DataIn δ}

theorem Reachable.core (h : Reachable devices entry s) : Core.Reachable entry s.core := by
  induction h with
  | start hs =>
    obtain ⟨m, i, hrst, rfl⟩ := hs
    exact .start ⟨coreIn { memory := m } i, hrst, rfl⟩
  | step i _ ih => exact ih.step _

/-! ### The phases of the data path -/

/-- Memory has answered what the DMMU sends. -/
def Answered (devices : List (Device δ)) (s : DataPath δ) : Prop :=
  ∃ m, s.dout = (Memory.memAccess devices m s.dmmu.dmmuToMem).1

/-- No request of EXEC is under way, and none has been under way for the instruction
in EXEC. -/
structure Idle (s : DataPath δ) : Prop where
  quiet : s.dmmu.Quiet
  first : s.core.idEx.IsAccess → s.core.wb.wbStall = false

/-- The request of the instruction in EXEC is under way. -/
structure Busy (s : DataPath δ) : Prop where
  access : s.core.idEx.IsAccess
  waits : s.core.wb.wbStall = true
  running : s.inReset = false
  phase : s.dmmu.Failed ∨ s.dmmu.Loads .level1 ∨ s.dmmu.Loads .level2 ∨
    s.dmmu.Accesses s.core.idEx.request

/-- The invariant of the data path. -/
structure Inv (devices : List (Device δ)) (s : DataPath δ) : Prop where
  answered : s.Answered devices
  reset : s.inReset = true → s.core.idEx = bubble
  phase : s.Idle ∨ s.Busy

theorem Answered.step (h : s.Answered devices) : (step devices entry s i).Answered devices := by
  unfold Answered DataPath.step
  dsimp only
  split
  · rename_i hsame
    obtain ⟨m, hm⟩ := h
    exact ⟨m, by rw [hsame]; exact hm⟩
  · exact ⟨_, rfl⟩

theorem Answered.ack (h : s.Answered devices) :
    s.dout.memRspAck = s.dmmu.dmmuToMem.dmemReqAck := by
  obtain ⟨m, hm⟩ := h
  rw [hm, Memory.memAccess_ack]

theorem Answered.none (h : s.Answered devices) (hnone : s.dmmu.dmmuToMem.dmemReqAck = false) :
    s.dout = {} := by
  obtain ⟨m, hm⟩ := h
  rw [hm, Memory.memAccess_of_no_request hnone]

/-- EXEC sees no answer while the data side is quiet. -/
theorem rsp_of_quiet (h : s.Answered devices) (hquiet : s.dmmu.Quiet) :
    s.dmmuRsp.mmuRspAck = false ∧ s.dmmuRsp.mmuRspFault = 0 := by
  have hdout := h.none hquiet.no_request
  have hnone : ¬ (s.dmmu.Faulty ∨ s.dout.memRspFault ≠ 0) := by
    rw [hdout]
    simp [hquiet.no_fault]
  refine ⟨?_, not_not.mp (mt Dmmu.dmemRspComb_fault_iff.mp hnone)⟩
  have hflags := hquiet.no_fault
  simp only [Dmmu.Faulty, not_or, Bool.not_eq_true] at hflags
  rw [dmmuRsp, Dmmu.dmemRspComb_ack, hdout, hflags.1, hflags.2.1, hflags.2.2]
  simp

/-- A failed check is reported as a fault. -/
theorem rsp_of_failed (h : s.dmmu.Failed) :
    s.dmmuRsp.mmuRspAck = true ∧ s.dmmuRsp.mmuRspFault ≠ 0 := by
  have hfault : s.dmmuRsp.mmuRspFault ≠ 0 := Dmmu.dmemRspComb_fault_iff.mpr (.inl h.fault)
  exact ⟨Dmmu.dmemRspComb_fault_ack hfault, hfault⟩

/-- The entry that a walk waits for has arrived, and EXEC sees nothing of it. -/
theorem rsp_of_loads {level : WalkState} (h : s.Answered devices) (hlevel : level ≠ .access)
    (hloads : s.dmmu.Loads level) : s.dout.memRspAck = true ∧
      s.dmmuRsp.mmuRspAck = false ∧ s.dmmuRsp.mmuRspFault = 0 := by
  obtain ⟨addr, hreq⟩ := hloads.request
  have hack : s.dout.memRspAck = true := by
    rw [h.ack, hreq]
    rfl
  have hok : s.dout.memRspFault = 0 := by
    obtain ⟨m, hm⟩ := h
    rw [hm, hreq]
    exact Memory.memAccess_load_fault rfl rfl
  have hnone : ¬ (s.dmmu.Faulty ∨ s.dout.memRspFault ≠ 0) := by
    rw [hok]
    simp [hloads.no_fault]
  refine ⟨hack, ?_, not_not.mp (mt Dmmu.dmemRspComb_fault_iff.mp hnone)⟩
  have hflags := hloads.no_fault
  simp only [Dmmu.Faulty, not_or, Bool.not_eq_true] at hflags
  rw [dmmuRsp, Dmmu.dmemRspComb_ack, hok, hflags.1, hflags.2.1, hflags.2.2, hloads.dState_eq,
    beq_false_of_ne hlevel]
  simp

/-- The answer to an access reaches EXEC. -/
theorem rsp_of_accesses {req : DmemIn} (h : s.Answered devices) (haccess : s.dmmu.Accesses req) :
    s.dout.memRspAck = true ∧ s.dmmuRsp.mmuRspAck = true ∧
      (s.dmmuRsp.mmuRspFault ≠ 0 ↔ s.dout.memRspFault ≠ 0) ∧
      s.dmmuRsp.mmuRspRdata = s.dout.memRspRdata := by
  obtain ⟨addr, hreq⟩ := haccess.request
  have hack : s.dout.memRspAck = true := by
    rw [h.ack, hreq]
    rfl
  refine ⟨hack, ?_, ?_, Dmmu.dmemRspComb_rdata haccess.no_fault⟩
  · rw [dmmuRsp, Dmmu.dmemRspComb_ack, haccess.dState_eq, hack]
    simp
  · rw [dmmuRsp, Dmmu.dmemRspComb_fault_iff]
    simp [haccess.no_fault]

/-! ### One cycle -/

theorem rstComb_of_running (hrun : s.inReset = false) (hrst : i.rst = false) :
    s.rstComb i = false := by
  simp [rstComb, hrun, hrst]

/-- A cycle of the core that does not stall leaves `wb_stall` down. -/
theorem first_of_no_stall (hrst : i.rst = false)
    (h : (s.core.comb entry (s.coreIn i)).stall = false) :
    (step devices entry s i).core.wb.wbStall = false :=
  (Core.wbStall_step (s := s.core) (i := s.coreIn i) hrst).trans h

/-- A cycle that leaves the data side quiet and does not stall is idle afterwards. -/
theorem idle_of_no_stall (hrst : i.rst = false)
    (h : (s.core.comb entry (s.coreIn i)).stall = false)
    (hquiet : (step devices entry s i).dmmu.Quiet) : (step devices entry s i).Idle :=
  ⟨hquiet, fun _ => first_of_no_stall hrst h⟩

/-- A flush leaves the data side quiet. -/
theorem quiet_of_flush (h : (s.out entry i).flush = true) :
    (step devices entry s i).dmmu.Quiet :=
  Dmmu.dmemReqSeq_quiet (.inr (.inl h))

/-- EXEC in a cycle in which a request is under way. -/
theorem Busy.comb (hb : s.Busy) (entry : BitVec 32) (hrst : i.rst = false) :
    s.core.comb entry (s.coreIn i) =
    { epc := s.core.wb.exPc, npc := s.core.wb.exPc + (if s.core.idEx.isCompressed then 2 else 4)
      tval := s.dmmuRsp.mmuRspTval, stall := !s.dmmuRsp.mmuRspAck
      cause := s.dmmuRsp.mmuRspFault.setWidth 32
      onTrap := s.dmmuRsp.mmuRspFault != 0, dmemReqAck := false } := by
  have hcomb := Core.comb_of_access entry (i := s.coreIn i) (rstComb_of_running hb.running hrst)
    (Core.takesInterrupt_of_waiting hb.access hb.waits) hb.access
  rw [hb.waits] at hcomb
  exact hcomb

/-- The DMMU sees the request of the instruction in EXEC. -/
theorem dmmuIn_req (hrst : s.rstComb i = false) : (s.dmmuIn entry i).req =
    { s.core.idEx.request with dmemReqAck := (s.core.comb entry (s.coreIn i)).dmemReqAck } :=
  Core.exToDmmu_eq hrst

/-- The access of a stalled instruction is the one it asks for. -/
theorem accesses_of_stall (hcomb : s.rstComb i = false)
    (hstall : (s.core.comb entry (s.coreIn i)).stall = true)
    (h : (step devices entry s i).dmmu.Accesses (s.dmmuIn entry i).req) :
    (step devices entry s i).dmmu.Accesses (step devices entry s i).core.idEx.request := by
  have hkeep : (step devices entry s i).core.idEx = s.core.idEx := Core.idEx_of_stall hstall
  obtain ⟨addr, hreq⟩ := h.request
  refine ⟨h.dState_eq, h.no_fault, addr, ?_⟩
  rw [hreq, dmmuIn_req hcomb, hkeep]
  rfl

/-- A stalled memory instruction stays in EXEC, with its request under way. -/
theorem busy_of_stall (hacc : s.core.idEx.IsAccess) (hrst : i.rst = false)
    (hstall : (s.core.comb entry (s.coreIn i)).stall = true)
    (hphase : (step devices entry s i).dmmu.Failed ∨
      (step devices entry s i).dmmu.Loads .level1 ∨ (step devices entry s i).dmmu.Loads .level2 ∨
      (step devices entry s i).dmmu.Accesses (step devices entry s i).core.idEx.request) :
    (step devices entry s i).Busy := by
  have hkeep : (step devices entry s i).core.idEx = s.core.idEx := Core.idEx_of_stall hstall
  exact ⟨by rw [hkeep]; exact hacc, (Core.wbStall_step hrst).trans hstall, hrst, hphase⟩

/-- The first cycle of a memory instruction that no interrupt meets: its request is
taken, and it waits. -/
theorem Idle.request (hs : s.Answered devices) (hi : s.Idle) (hacc : s.core.idEx.IsAccess)
    (hrst : i.rst = false) (hcomb : s.rstComb i = false)
    (hint : s.core.takesInterrupt (s.coreIn i) = false) :
    (s.core.comb entry (s.coreIn i)).stall = true ∧ (s.out entry i).exToDmmu.dmemReqAck = true ∧
      (step devices entry s i).Busy := by
  obtain ⟨hack, hfault⟩ := rsp_of_quiet hs hi.quiet
  have hc := Core.comb_of_access entry (i := s.coreIn i) hcomb hint hacc
  have hstall : (s.core.comb entry (s.coreIn i)).stall = true := by
    rw [hc]
    change (!s.dmmuRsp.mmuRspAck) = true
    rw [hack]
    rfl
  have hreq : (s.core.comb entry (s.coreIn i)).dmemReqAck = true := by
    rw [hc, hi.first hacc]
    rfl
  have hflush : (s.out entry i).flush = false := by
    change ((s.core.comb entry (s.coreIn i)).onTrap || (s.core.comb entry (s.coreIn i)).flush) = _
    rw [hc]
    change (s.dmmuRsp.mmuRspFault != 0 || false) = false
    rw [hfault]
    rfl
  refine ⟨hstall, hreq, busy_of_stall hacc hrst hstall ?_⟩
  rcases Dmmu.dmemReqSeq_request (e := s.core.exec) (i := s.dmmuIn entry i) hrst hflush
    hi.quiet.dState_eq hreq with h | h | h
  · exact .inl h
  · exact .inr (.inl h)
  · exact .inr (.inr (.inr (accesses_of_stall hcomb hstall h)))

/-- A cycle of a walk: the instruction waits, and the walk gets one level further. -/
theorem Busy.walk {level : WalkState} (hb : s.Busy) (entry : BitVec 32)
    (hs : s.Answered devices) (hrst : i.rst = false) (hloads : s.dmmu.Loads level)
    (hlevel : level = .level1 ∨ level = .level2) :
    (s.core.comb entry (s.coreIn i)).stall = true ∧ (step devices entry s i).Busy ∧
      ((step devices entry s i).dmmu.Failed ∨
        (level = .level1 ∧ (step devices entry s i).dmmu.Loads .level2) ∨
        (step devices entry s i).dmmu.Accesses (step devices entry s i).core.idEx.request) := by
  obtain ⟨hmem, hack, hfault⟩ := rsp_of_loads hs (by rcases hlevel with rfl | rfl <;> decide) hloads
  have hcomb := rstComb_of_running hb.running hrst
  have hc := hb.comb entry hrst
  have hstall : (s.core.comb entry (s.coreIn i)).stall = true := by
    rw [hc, hack]
    rfl
  have hflush : (s.out entry i).flush = false := by
    change ((s.core.comb entry (s.coreIn i)).onTrap || (s.core.comb entry (s.coreIn i)).flush) = _
    rw [hc, hfault]
    rfl
  have hnext : (step devices entry s i).dmmu.Failed ∨
      (level = .level1 ∧ (step devices entry s i).dmmu.Loads .level2) ∨
      (step devices entry s i).dmmu.Accesses (step devices entry s i).core.idEx.request := by
    rcases hlevel with rfl | rfl
    · rcases Dmmu.dmemReqSeq_level1 (e := s.core.exec) (i := s.dmmuIn entry i) hrst hflush
        hloads.dState_eq hmem with h | h | h
      · exact .inl h
      · exact .inr (.inl ⟨rfl, h⟩)
      · exact .inr (.inr (accesses_of_stall hcomb hstall h))
    · rcases Dmmu.dmemReqSeq_level2 (e := s.core.exec) (i := s.dmmuIn entry i) hrst hflush
        hloads.dState_eq hmem with h | h
      · exact .inl h
      · exact .inr (.inr (accesses_of_stall hcomb hstall h))
  refine ⟨hstall, ?_, hnext⟩
  refine busy_of_stall hb.access hrst hstall ?_
  rcases hnext with h | ⟨-, h⟩ | h
  · exact .inl h
  · exact .inr (.inr (.inl h))
  · exact .inr (.inr (.inr h))

/-- A failed check ends in a trap. -/
theorem Busy.fail (hb : s.Busy) (hrst : i.rst = false) (hfailed : s.dmmu.Failed) :
    (s.core.comb entry (s.coreIn i)).stall = false ∧
      (s.core.comb entry (s.coreIn i)).onTrap = true ∧ (step devices entry s i).Idle := by
  obtain ⟨hack, hfault⟩ := rsp_of_failed hfailed
  have hc := hb.comb entry hrst
  have hstall : (s.core.comb entry (s.coreIn i)).stall = false := by
    rw [hc, hack]
    rfl
  have htrap : (s.core.comb entry (s.coreIn i)).onTrap = true := by
    rw [hc]
    exact bne_iff_ne.mpr hfault
  refine ⟨hstall, htrap, idle_of_no_stall hrst hstall (quiet_of_flush ?_)⟩
  change ((s.core.comb entry (s.coreIn i)).onTrap || _) = true
  rw [htrap, Bool.true_or]

/-- The answer to an access ends the instruction. -/
theorem Busy.finish {req : DmemIn} (hs : s.Answered devices) (hb : s.Busy) (hrst : i.rst = false)
    (haccess : s.dmmu.Accesses req) :
    (s.core.comb entry (s.coreIn i)).stall = false ∧ (step devices entry s i).Idle := by
  obtain ⟨hmem, hack, -, -⟩ := rsp_of_accesses hs haccess
  have hc := hb.comb entry hrst
  have hstall : (s.core.comb entry (s.coreIn i)).stall = false := by
    rw [hc, hack]
    rfl
  refine ⟨hstall, idle_of_no_stall hrst hstall ?_⟩
  exact Dmmu.dmemReqSeq_quiet (.inr (.inr (.inr ⟨haccess.dState_eq, hmem⟩)))

/-- A cycle without a memory access leaves the data side idle. -/
theorem Idle.other (hi : s.Idle) (hrst : i.rst = false)
    (hother : (s.core.comb entry (s.coreIn i)).dmemReqAck = false)
    (hacc : (s.core.comb entry (s.coreIn i)).stall = true → ¬ s.core.idEx.IsAccess) :
    (step devices entry s i).Idle := by
  have hquiet : (step devices entry s i).dmmu.Quiet :=
    Dmmu.dmemReqSeq_quiet (.inr (.inr (.inl ⟨hi.quiet.dState_eq, hother⟩)))
  refine ⟨hquiet, fun hnew => ?_⟩
  by_cases hstall : (s.core.comb entry (s.coreIn i)).stall = true
  · have hkeep : (step devices entry s i).core.idEx = s.core.idEx := Core.idEx_of_stall hstall
    rw [hkeep] at hnew
    exact absurd hnew (hacc hstall)
  · exact first_of_no_stall hrst (Bool.eq_false_of_not_eq_true hstall)

theorem not_isAccess_bubble : ¬ bubble.IsAccess := by decide

/-- A reset edge leaves the data path idle. -/
theorem idle_of_rst (hrst : i.rst = true) : (step devices entry s i).Idle := by
  have hbubble : (step devices entry s i).core.idEx = bubble := Core.idEx_of_rst entry s.core hrst
  refine ⟨Dmmu.dmemReqSeq_quiet (.inl hrst), fun hacc => ?_⟩
  rw [hbubble] at hacc
  exact absurd hacc not_isAccess_bubble

theorem Inv.phase_step (h : s.Inv devices) :
    (step devices entry s i).Idle ∨ (step devices entry s i).Busy := by
  by_cases hrst : i.rst = true
  · exact .inl (idle_of_rst hrst)
  have hrst : i.rst = false := Bool.eq_false_of_not_eq_true hrst
  rcases h.phase with hi | hb
  · by_cases hlate : s.rstComb i = true
    · have hc : s.core.comb entry (s.coreIn i) = _ := Core.comb_of_rst hlate
      exact .inl (hi.other hrst (by rw [hc]) (by simp [hc]))
    have hcomb : s.rstComb i = false := Bool.eq_false_of_not_eq_true hlate
    by_cases hint : s.core.takesInterrupt (s.coreIn i) = true
    · obtain ⟨cause, -, hc⟩ := Core.comb_of_interrupt (i := s.coreIn i) hcomb hint
      exact .inl (hi.other hrst (by rw [hc]) (by simp [hc]))
    by_cases hacc : s.core.idEx.IsAccess
    · have hint : s.core.takesInterrupt (s.coreIn i) = false := Bool.eq_false_of_not_eq_true hint
      exact .inr (hi.request h.answered hacc hrst hcomb hint).2.2
    · refine .inl (hi.other hrst ?_ fun _ => hacc)
      exact Bool.eq_false_of_not_eq_true (mt Core.isAccess_of_dmemReqAck hacc)
  · rcases hb.phase with hfailed | hloads | hloads | haccess
    · exact .inl (hb.fail hrst hfailed).2.2
    · exact .inr (hb.walk entry h.answered hrst hloads (.inl rfl)).2.1
    · exact .inr (hb.walk entry h.answered hrst hloads (.inr rfl)).2.1
    · exact .inl (hb.finish h.answered hrst haccess).2

theorem Inv.step (h : s.Inv devices) : (step devices entry s i).Inv devices :=
  ⟨h.answered.step, fun hrst => Core.idEx_of_rst entry s.core hrst, h.phase_step⟩

/-- The invariant holds in every run. -/
theorem Reachable.inv (h : Reachable devices entry s) : s.Inv devices := by
  refine Clocked.Reachable.invariant (P := Inv devices) ?_ (fun _ _ => Inv.step) h
  rintro s ⟨m, i, hrst, rfl⟩
  have hstart : Answered devices { memory := m } := ⟨m, rfl⟩
  exact ⟨hstart.step, fun _ => Core.idEx_of_rst entry _ hrst, .inl (idle_of_rst hrst)⟩

/-- A machine with the RAM alone that has just decoded `sw x0, 0(x11)`. -/
def storeAtEntry : DataPath Unit :=
  step [Device.ram] 0x80000000
    (step [Device.ram] 0x80000000
      { memory := { ram := Ram.init 0x80000000, dev := () } } { rst := true })
    { ifId := { ifIdInst := 0x0005a023, ifIdPc := 0x80000000 } }

end DataPath

end Turtle
