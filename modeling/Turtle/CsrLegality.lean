import Turtle.Counters
import Turtle.Forwarding
import Turtle.IllegalTraps

/-!
# Which CSR instructions are legal

A CSR instruction should trap without the privilege that its address asks for, and when it
would write a read-only register. `CSRRS` and `CSRRC` write unless their source is `x0`. The
guard in `exec_comb` asks for the value of the source instead, so it lets a register that
happens to hold zero through.
-/

namespace Turtle

open Rv32 (Instr)

/-- Bits 9 and 8 of a CSR address: the lowest privilege with access. -/
def requiredPriv (addr : BitVec 12) : BitVec 32 := (addr.extractLsb' 8 2).setWidth 32

/-- Bits 11 and 10 of a CSR address mark a read-only register. -/
def ReadOnly (addr : BitVec 12) : Prop := addr.extractLsb' 10 2 = 3

instance (addr : BitVec 12) : Decidable (ReadOnly addr) := inferInstanceAs (Decidable (_ = _))

/-- The instruction attempts to write its CSR. -/
def AttemptsWrite : Instr → Prop
  | .csr .rw _ _ _ => True
  | .csr _ _ rs1 _ => rs1 ≠ 0
  | .csrImm .rw _ _ _ => True
  | .csrImm _ _ uimm _ => uimm ≠ 0
  | _ => False

instance (ins : Instr) : Decidable (AttemptsWrite ins) := by
  unfold AttemptsWrite
  split <;> infer_instance

/-- A `CSRRS` or `CSRRC` from a register other than `x0` that holds zero. -/
def SetsNothing (f : Forward) : Instr → Prop
  | .csr .rw _ _ _ => False
  | .csr _ _ rs1 _ => rs1 ≠ 0 ∧ f.operand rs1 = 0
  | _ => False

instance (f : Forward) (ins : Instr) : Decidable (SetsNothing f ins) := by
  unfold SetsNothing
  split <;> infer_instance

variable {f : Forward} {j : IfId} {ins : Instr} {addr : BitVec 12}

/-! ### Decoding -/

theorem opcode_of_csr (h : ins.csrAddr = some addr) : ins.fields.opcode = 0b1110011 := by
  cases ins with
  | csr op rd rs1 a => rfl
  | csrImm op rd uimm a => rfl
  | _ => cases h

/-- A CSR instruction is latched as its record. -/
theorem latch_csr (hfault : NoFetchFault j) (hinst : j.ifIdInst = ins.encode)
    (haddr : ins.csrAddr = some addr) : Decodes f j.ifIdPc ins (latch f j) := by
  have hdecodes := decodes_of_encode f j.ifIdPc hinst.symm
  have hlow : j.ifIdInst &&& 3 = 3 := by
    have hopcode := getBits_opcode ins.fields
    rw [opcode_of_csr haddr] at hopcode
    have hnat := congrArg BitVec.toNat hopcode
    rw [getBits_toNat _ _ _ (by omega)] at hnat
    change ins.encode.toNat / 2 ^ 0 % 2 ^ 7 = 115 at hnat
    apply BitVec.eq_of_toNat_eq
    rw [hinst, Bits.and_ones_toNat ins.encode 3 (n := 2) rfl]
    change ins.encode.toNat % 2 ^ 2 = 3
    omega
  have hvalid : (decode f j.ifIdPc j.ifIdInst).type ≠ .invalid := by
    rw [hdecodes.type]
    cases ins with
    | csr op rd rs1 a => cases op <;> simp [csrType]
    | csrImm op rd uimm a => cases op <;> simp [csrImmType]
    | _ => cases haddr
  have hlatch : latch f j = { decode f j.ifIdPc j.ifIdInst with flush := false } := by
    unfold latch
    dsimp only
    rw [if_pos hlow, if_neg hfault, if_neg hvalid]
  rw [hlatch]
  exact { hdecodes with flush := rfl }

namespace Exec

variable {e : Exec} {i : ExecIn} {c : ExecComb}

theorem requiredPriv_eq (addr : BitVec 12) :
    ((addr >>> 8) &&& 3).setWidth 32 = requiredPriv addr := by
  have hlt := addr.isLt
  apply BitVec.eq_of_toNat_eq
  rw [requiredPriv, BitVec.toNat_setWidth, BitVec.toNat_setWidth,
    Bits.and_ones_toNat (addr >>> 8) 3 (n := 2) rfl, BitVec.toNat_ushiftRight,
    BitVec.extractLsb'_toNat]

theorem readOnly_iff_le (addr : BitVec 12) : ReadOnly addr ↔ 3072 ≤ addr.toNat := by
  have hlt := addr.isLt
  rw [ReadOnly, ← BitVec.toNat_inj, BitVec.extractLsb'_toNat, Nat.shiftRight_eq_div_pow]
  change addr.toNat / 2 ^ 10 % 2 ^ 2 = 3 ↔ _
  omega

theorem readOnly_iff (addr : BitVec 12) : addr &&& 0xc00 = 0xc00 ↔ ReadOnly addr := by
  have hlt := addr.isLt
  rw [readOnly_iff_le, ← BitVec.toNat_inj, Bits.and_high_toNat addr 0xc00 (n := 10) (by decide)]
  change addr.toNat / 2 ^ 10 * 2 ^ 10 = 3072 ↔ _
  omega

/-- Reads of read-only registers have no conditions of their own. -/
theorem readCsr_of_readOnly (h : ReadOnly i.idEx.csrAddr) :
    (e.readCsr i c).onTrap = c.onTrap := by
  have hhigh := (readOnly_iff_le _).mp h
  have hne (a : BitVec 12) (ha : a.toNat < 3072) : i.idEx.csrAddr ≠ a := by
    rintro rfl
    omega
  unfold readCsr
  dsimp only
  iterate 11 rw [if_neg (hne _ (by decide))]
  split_ifs <;> rfl

/-- Without the privilege for its address a CSR instruction is illegal. -/
theorem execCsr_of_priv_lt {write : Bool} (h : ¬ requiredPriv i.idEx.csrAddr ≤ e.priv) :
    e.execCsr i c write = c.raise .illegalInstr i.idEx.inst := by
  unfold execCsr
  dsimp only
  rw [requiredPriv_eq, if_neg fun hguard => h hguard.1]

/-- With it, the access of a read-only register is refused unless nothing would be written. -/
theorem execCsr_of_readOnly {write : Bool} (hro : ReadOnly i.idEx.csrAddr)
    (hpriv : requiredPriv i.idEx.csrAddr ≤ e.priv) : e.execCsr i c write =
      if write = false ∧ i.idEx.csrVal = 0 then e.readCsr i { c with csrAccess := true }
      else c.raise .illegalInstr i.idEx.inst := by
  unfold execCsr
  dsimp only
  rw [requiredPriv_eq]
  by_cases hquiet : write = false ∧ i.idEx.csrVal = 0
  · rw [if_pos hquiet, if_pos ⟨hpriv, .inr hquiet⟩]
  · rw [if_neg hquiet, if_neg]
    rintro ⟨-, hwritable | hq⟩
    · exact hwritable ((readOnly_iff _).mpr hro)
    · exact hquiet hq

/-- Both forms of a CSR instruction go through the guard. -/
theorem execType_of_csr_eq (h : i.idEx.type.IsCsr) : e.execType i c =
    e.execCsr i c (i.idEx.type == .csrrw || i.idEx.type == .csrrwi) := by
  unfold execType
  dsimp only
  rcases h with ht | ht | ht | ht | ht | ht <;> rw [ht] <;> rfl

end Exec

namespace Core

variable {entry : BitVec 32} {s : Core} {i : CoreIn}

/-- The cycle ends in an illegal-instruction trap. -/
def TrapsIllegal (entry : BitVec 32) (s : Core) (i : CoreIn) : Prop :=
  (s.comb entry i).onTrap = true ∧ (s.comb entry i).cause = ExceptionCause.illegalInstr.code

instance (entry : BitVec 32) (s : Core) (i : CoreIn) : Decidable (TrapsIllegal entry s i) :=
  inferInstanceAs (Decidable (_ ∧ _))

/-- The traps of a CSR instruction on `addr` are right: for want of privilege, and for the
attempt to write a read-only register. -/
structure CsrChecked (entry : BitVec 32) (s : Core) (i : CoreIn) (ins : Instr)
    (addr : BitVec 12) : Prop where
  read_only : requiredPriv addr ≤ s.exec.priv → ReadOnly addr →
    (TrapsIllegal entry s i ↔ AttemptsWrite ins)
  privilege : ¬ requiredPriv addr ≤ s.exec.priv → TrapsIllegal entry s i

/-- `x0` reads as zero in every reachable state. -/
theorem Reachable.operand_zero (h : Reachable entry s) : (s.forward entry i).operand 0 = 0 := by
  have hregs : s.regs 0 = 0 := by
    refine Clocked.Reachable.invariant (P := fun s => s.regs 0 = 0) ?_ ?_ h
    · rintro s ⟨i, -, rfl⟩
      rfl
    · intro s i hs
      exact (guardedWrite_zero ..).trans hs
  have hleft : (s.forward entry i).operand 0 = s.regs 0 := by simp [Forward.operand, forward]
  rw [hleft, hregs]

/-- The guard lets an instruction through that attempts no write, and one that sets nothing. -/
theorem quiet_iff {pc : BitVec 32} {d : IdEx} (hzero : f.operand 0 = 0)
    (haddr : ins.csrAddr = some addr) (hd : Decodes f pc ins d) :
    ((d.type == .csrrw || d.type == .csrrwi) = false ∧ d.csrVal = 0) ↔
      ¬ AttemptsWrite ins ∨ SetsNothing f ins := by
  have htype := hd.type
  have hregister (r : BitVec 5) :
      f.operand r = 0 ↔ ¬ r ≠ 0 ∨ (r ≠ 0 ∧ f.operand r = 0) := by
    by_cases hr : r = 0
    · rw [hr]
      exact iff_of_true hzero (.inl (not_not.mpr rfl))
    · rw [or_iff_right (not_not.mpr hr), and_iff_right hr]
  have himmediate (u : BitVec 5) : u.setWidth 32 = 0#32 ↔ ¬ u ≠ 0 := by
    revert u
    decide
  cases ins with
  | csr op rd rs1 a =>
    have hval : d.csrVal = f.operand rs1 := hd.csrVal _ rfl
    rw [htype, hval]
    cases op with
    | rw => simp [csrType, AttemptsWrite, SetsNothing]
    | rs => exact (and_iff_right (by rfl)).trans (hregister rs1)
    | rc => exact (and_iff_right (by rfl)).trans (hregister rs1)
  | csrImm op rd uimm a =>
    have hval : d.csrVal = uimm.setWidth 32 := hd.csrVal _ rfl
    rw [htype, hval]
    cases op with
    | rw => simp [csrImmType, AttemptsWrite, SetsNothing]
    | rs => exact (and_iff_right (by rfl)).trans ((himmediate uimm).trans (or_iff_left id).symm)
    | rc => exact (and_iff_right (by rfl)).trans ((himmediate uimm).trans (or_iff_left id).symm)
  | _ => cases haddr

theorem SetsNothing.attemptsWrite (h : SetsNothing f ins) : AttemptsWrite ins := by
  cases ins with
  | csr op rd rs1 a =>
    cases op with
    | rw => cases h
    | rs => exact h.1
    | rc => exact h.1
  | _ => cases h

section

variable {pc : BitVec 32} (haddr : ins.csrAddr = some addr) (hd : Decodes f pc ins s.idEx)
  (hrst : i.rstComb = false) (hint : s.takesInterrupt i = false)

include haddr hd hrst hint

/-- The instruction goes through the guard. -/
theorem comb_of_csr : ∃ c, c.onTrap = false ∧ s.comb entry i =
    s.exec.execCsr (s.execIn entry i) c (s.idEx.type == .csrrw || s.idEx.type == .csrrwi) := by
  have hcsr : s.idEx.type.IsCsr := by
    rw [hd.type]
    cases ins with
    | csr op rd rs1 a => cases op <;> simp [csrType, InstrType.IsCsr]
    | csrImm op rd uimm a => cases op <;> simp [csrImmType, InstrType.IsCsr]
    | _ => cases haddr
  exact ⟨_, rfl, (comb_of_instruction hrst hint hd.flush hd.onTrap).trans
    (Exec.execType_of_csr_eq (i := s.execIn entry i) hcsr)⟩

/-- Without the privilege for its address it traps. -/
theorem trapsIllegal_of_priv_lt (hlow : ¬ requiredPriv addr ≤ s.exec.priv) :
    TrapsIllegal entry s i := by
  obtain ⟨c, -, hcomb⟩ : ∃ c, _ ∧ s.comb entry i = _ := comb_of_csr haddr hd hrst hint
  have hname : s.idEx.csrAddr = addr := hd.csrAddr addr haddr
  rw [TrapsIllegal, hcomb, Exec.execCsr_of_priv_lt (i := s.execIn entry i) (hname ▸ hlow)]
  exact ⟨rfl, rfl⟩

/-- With it, an access of a read-only register traps unless no write is attempted or nothing
is set. -/
theorem trapsIllegal_iff_of_readOnly (hzero : f.operand 0 = 0) (hro : ReadOnly addr)
    (hpriv : requiredPriv addr ≤ s.exec.priv) :
    TrapsIllegal entry s i ↔ ¬ (¬ AttemptsWrite ins ∨ SetsNothing f ins) := by
  obtain ⟨c, hc, hcomb⟩ : ∃ c, _ ∧ s.comb entry i = _ := comb_of_csr haddr hd hrst hint
  have hname : s.idEx.csrAddr = addr := hd.csrAddr addr haddr
  have hquiet : ((s.idEx.type == .csrrw || s.idEx.type == .csrrwi) = false ∧
      (s.execIn entry i).idEx.csrVal = 0) ↔ _ := quiet_iff hzero haddr hd
  rw [TrapsIllegal, hcomb, Exec.execCsr_of_readOnly (i := s.execIn entry i) (hname ▸ hro)
    (hname ▸ hpriv), ← hquiet]
  split
  case isTrue hq =>
    rw [Exec.readCsr_of_readOnly (i := s.execIn entry i) (hname ▸ hro)]
    exact iff_of_false (fun h => Bool.false_ne_true (hc.symm.trans h.1)) (not_not.mpr hq)
  case isFalse hq => exact iff_of_true ⟨rfl, rfl⟩ hq

end

/-- The CSR instruction in EX is checked right exactly when it is not a `CSRRS` or `CSRRC` of
a read-only register from a register that holds zero. -/
theorem csrChecked_iff (entry : BitVec 32) (s : Core) (i : CoreIn) (f : Forward) (j : IfId)
    (ins : Instr) (addr : BitVec 12) (hzero : f.operand 0 = 0) (hlatched : s.idEx = latch f j)
    (hfault : NoFetchFault j) (hinst : j.ifIdInst = ins.encode) (haddr : ins.csrAddr = some addr)
    (hrst : i.rstComb = false) (hint : s.takesInterrupt i = false) :
    CsrChecked entry s i ins addr ↔
      ¬ (requiredPriv addr ≤ s.exec.priv ∧ ReadOnly addr ∧ SetsNothing f ins) := by
  have hd : Decodes f j.ifIdPc ins s.idEx := hlatched ▸ latch_csr hfault hinst haddr
  have hreadOnly (hpriv : requiredPriv addr ≤ s.exec.priv) (hro : ReadOnly addr) :
      TrapsIllegal entry s i ↔ ¬ (¬ AttemptsWrite ins ∨ SetsNothing f ins) :=
    trapsIllegal_iff_of_readOnly haddr hd hrst hint hzero hro hpriv
  constructor
  · rintro hchecked ⟨hpriv, hro, hsets⟩
    have htrap := (hchecked.read_only hpriv hro).mpr (SetsNothing.attemptsWrite hsets)
    exact (hreadOnly hpriv hro).mp htrap (.inr hsets)
  · intro hnone
    refine ⟨fun hpriv hro => ?_, trapsIllegal_of_priv_lt haddr hd hrst hint⟩
    have hsets : ¬ SetsNothing f ins := fun h => hnone ⟨hpriv, hro, h⟩
    rw [hreadOnly hpriv hro, or_iff_left hsets, not_not]

/-- A write of `cycle` after reset is illegal. -/
theorem csrChecked_write_cycle :
    let ins : Instr := .csr .rw 0 11 Csr.cycle
    let s := Clocked.run (step 0x80000000) (step 0x80000000 {} { rst := true, rstComb := true })
      [offer 0x80000000 ins.encode]
    TrapsIllegal 0x80000000 s {} ∧ CsrChecked 0x80000000 s {} ins Csr.cycle := by
  intro ins s
  let t := step 0x80000000 {} { rst := true, rstComb := true }
  let j := offer 0x80000000 ins.encode
  have hs : Reachable 0x80000000 t := .start ⟨_, rfl, rfl⟩
  have hlatched : s.idEx = latch (t.forward 0x80000000 j) j.ifId := by decide
  refine ⟨by decide, ?_⟩
  refine (csrChecked_iff 0x80000000 s {} (t.forward 0x80000000 j) j.ifId ins Csr.cycle
    hs.operand_zero hlatched ?_ rfl rfl rfl (by decide)).mpr ?_
  · unfold NoFetchFault
    decide
  · rintro ⟨-, -, hsets⟩
    exact hsets

/-- `csrrs x0, cycle, x5` after reset with `x5` at 0 attempts a write and does not trap. -/
theorem csrrs_zero_accepted :
    let ins : Instr := .csr .rs 0 5 Csr.cycle
    let s := Clocked.run (step 0x80000000) (step 0x80000000 {} { rst := true, rstComb := true })
      [offer 0x80000000 ins.encode]
    Reachable 0x80000000 s ∧ s.idEx.type = .csrrs ∧ AttemptsWrite ins ∧
      requiredPriv Csr.cycle ≤ s.exec.priv ∧ ReadOnly Csr.cycle ∧
      (s.comb 0x80000000 {}).onTrap = false ∧ ¬ CsrChecked 0x80000000 s {} ins Csr.cycle := by
  intro ins s
  have hpriv : requiredPriv Csr.cycle ≤ s.exec.priv := by decide
  have hquiet : (s.comb 0x80000000 {}).onTrap = false := by decide
  refine ⟨Clocked.Reachable.run (.start ⟨_, rfl, rfl⟩) _, by decide, by decide, hpriv,
    by decide, hquiet, fun hchecked => ?_⟩
  have htrap := (hchecked.read_only hpriv (by decide)).mpr (by decide)
  exact Bool.false_ne_true (hquiet.symm.trans htrap.1)

end Core

end Turtle
