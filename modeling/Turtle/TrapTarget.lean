import Turtle.Privilege
import Turtle.Delegation

/-!
# Where traps go

A trap should go to the base of `xtvec`, and an interrupt in vectored mode to its own entry
of the table behind the base. `trap_pc` looks at the lowest bit of `xtvec` only: it takes
the table for exceptions too, and without the table it clears one bit of the two that are
not part of the base.
-/

namespace Turtle

open Bits

namespace Exec

/-- The base in bits 31 to 2 of `xtvec`. -/
def tvecBase (tvec : BitVec 32) : BitVec 32 := tvec &&& ~~~3

/-- `xtvec` is in vectored mode. -/
def Vectored (tvec : BitVec 32) : Prop := tvec &&& 3 = 1

instance (tvec : BitVec 32) : Decidable (Vectored tvec) := inferInstanceAs (Decidable (_ = _))

/-- The cause is that of an interrupt. -/
def IsInterrupt (cause : BitVec 32) : Prop := cause &&& 0x80000000 ≠ 0

instance (cause : BitVec 32) : Decidable (IsInterrupt cause) := inferInstanceAs (Decidable (_ ≠ _))

/-- Where a trap with this cause should go. -/
def trapTarget (tvec cause : BitVec 32) : BitVec 32 :=
  if IsInterrupt cause ∧ Vectored tvec then tvecBase tvec + 4 * (cause &&& 0x7fffffff)
  else tvecBase tvec

/-- The cases in which `trap_pc` gets it right: bit 1 of `xtvec` is clear, and with bit 0 set
the cause is an interrupt; or the entry of the cause is the first one of the table. -/
def RightTarget (tvec cause : BitVec 32) : Prop :=
  if tvec &&& 1 = 0 then tvec &&& 2 = 0
  else (IsInterrupt cause ∧ tvec &&& 2 = 0) ∨ cause &&& 0x3ff = 0

instance (tvec cause : BitVec 32) : Decidable (RightTarget tvec cause) := by
  unfold RightTarget
  infer_instance

/-- A cause whose number has ten bits. -/
def ShortCause (cause : BitVec 32) : Prop := cause &&& 0x7ffffc00 = 0

variable {e : Exec} {i : ExecIn} {c : ExecComb} {tvec cause : BitVec 32}

/-! ### The causes of a trap -/

theorem shortCause_of_lt (h : cause.toNat < 1024) : ShortCause cause := by
  apply BitVec.eq_of_getLsbD_eq
  intro n hn
  rw [BitVec.getLsbD_and, show (0 : BitVec 32).getLsbD n = false from BitVec.getLsbD_zero]
  by_cases hlow : n < 10
  · have hmask : ∀ k < 10, (0x7ffffc00 : BitVec 32).getLsbD k = false := by decide
    rw [hmask n hlow, Bool.and_false]
  · have hpow : 2 ^ 10 ≤ 2 ^ n := Nat.pow_le_pow_right (by omega) (by omega)
    have hbit : cause.getLsbD n = false := Nat.testBit_lt_two_pow (by omega)
    rw [hbit, Bool.false_and]

theorem shortCause_code (x : ExceptionCause) : ShortCause x.code := by
  unfold ShortCause
  cases x <;> decide

/-- The number of an interrupt is that of a bit of `mip`. -/
theorem shortCause_of_checkInterrupt {p : Platform} (h : e.checkInterrupt p = some cause) :
    ShortCause cause := by
  unfold checkInterrupt at h
  split at h
  · cases h
  · rename_i hne
    obtain ⟨-, hlt⟩ := highestPriority_mem hne
    cases h
    unfold ShortCause
    generalize (highestPriority (e.takeable p)).ctz = k at hlt
    have hk : k = BitVec.ofNat 32 k.toNat := by simp
    rw [hk]
    generalize k.toNat = n at hlt
    decide +revert

theorem jump_shortCause (hc : ShortCause c.cause) (target : BitVec 32) :
    ShortCause (c.jump target).cause := by
  unfold ExecComb.jump
  dsimp only
  split
  · exact shortCause_code .instrAddrMisaligned
  · exact hc

theorem branch_shortCause (hc : ShortCause c.cause) (taken : Bool) :
    ShortCause (c.branch i.idEx taken).cause := by
  cases taken with
  | false => exact hc
  | true =>
    rw [ExecComb.branch, if_pos rfl]
    apply jump_shortCause
    exact hc

theorem execJump_shortCause (hc : ShortCause c.cause) (target : BitVec 32) :
    ShortCause (execJump i c target).cause := by
  unfold execJump
  apply jump_shortCause
  exact hc

theorem execCsr_shortCause (hc : ShortCause c.cause) (write : Bool) :
    ShortCause (e.execCsr i c write).cause := by
  rcases e.execCsr_result i c write with ⟨v, f, h⟩ | ⟨a, h⟩
  · rw [h]
    exact hc
  · rw [h]
    exact shortCause_code .illegalInstr

/-- An executed instruction raises a named exception or passes on the code of the DMMU. -/
theorem execType_shortCause (hc : ShortCause c.cause) : ShortCause (e.execType i c).cause := by
  have hzero : ShortCause 0 := shortCause_of_lt (by decide)
  unfold execType
  dsimp only
  cases ht : i.idEx.type
  case jal => exact execJump_shortCause hc _
  case jalr => exact execJump_shortCause hc _
  case beq => exact branch_shortCause hc _
  case bne => exact branch_shortCause hc _
  case blt => exact branch_shortCause hc _
  case bge => exact branch_shortCause hc _
  case bltu => exact branch_shortCause hc _
  case bgeu => exact branch_shortCause hc _
  case csrrw => exact execCsr_shortCause hc _
  case csrrs => exact execCsr_shortCause hc _
  case csrrc => exact execCsr_shortCause hc _
  case csrrwi => exact execCsr_shortCause hc _
  case csrrsi => exact execCsr_shortCause hc _
  case csrrci => exact execCsr_shortCause hc _
  case fenceI => exact hzero
  case sfenceVma =>
    dsimp only
    split
    · exact shortCause_code .illegalInstr
    · exact hzero
  case wfi =>
    dsimp only
    split
    · exact shortCause_code .illegalInstr
    · exact hc
  case sret =>
    dsimp only
    split
    · exact shortCause_code .illegalInstr
    · exact hc
  case ecall =>
    dsimp only
    split_ifs
    · exact shortCause_code .ecallM
    · exact shortCause_code .ecallS
    · exact shortCause_code .ecallU
  case ebreak => exact shortCause_code .breakpoint
  case invalid => exact shortCause_code .illegalInstr
  -- The DMMU reports its faults in eight bits; what is left keeps the cause.
  all_goals first
    | exact hc
    | exact shortCause_of_lt (by
        have hlt := i.dmmuRsp.mmuRspFault.isLt
        dsimp only
        rw [BitVec.toNat_setWidth]
        omega)

/-- Every trap has a short cause. -/
theorem execComb_shortCause (hd : Latched i.idEx) : ShortCause (e.execComb i).cause := by
  have hzero : ShortCause 0 := shortCause_of_lt (by decide)
  rcases execComb_cases e i with ⟨-, h⟩ | ⟨-, cause, hint, h⟩ | ⟨-, -, h⟩ | ⟨-, -, hmark, h⟩ |
    ⟨-, -, -, h⟩
  · rw [h]
    exact hzero
  · rw [h]
    exact shortCause_of_checkInterrupt hint
  · rw [h]
    exact hzero
  · rw [h]
    dsimp only
    rcases hd.trap_cause hmark with hcause | hcause | hcause <;> rw [hcause]
    · exact shortCause_code .illegalInstr
    · exact shortCause_code .instrAccessFault
    · exact shortCause_code .instrPageFault
  · rw [h]
    exact execType_shortCause hzero

/-! ### The address of a handler -/

theorem and_one_eq_zero_iff : tvec &&& 1 = 0 ↔ tvec.toNat % 2 = 0 := by
  rw [← BitVec.toNat_inj, and_ones_toNat tvec 1 (n := 1) rfl]
  rfl

theorem and_two_eq_zero_iff : tvec &&& 2 = 0 ↔ tvec.toNat / 2 % 2 = 0 := by
  have hbit := and_one_shiftLeft_ne_zero_iff (x := tvec) (n := 1)
  rw [show 1#32 <<< 1 = 2 by decide, ← BitVec.testBit_toNat, Nat.testBit_eq_decide_div_mod_eq,
    decide_eq_true_iff, pow_one] at hbit
  refine not_iff_not.mp (hbit.trans ?_)
  omega

theorem vectored_iff : Vectored tvec ↔ tvec.toNat % 4 = 1 := by
  rw [Vectored, ← BitVec.toNat_inj, and_ones_toNat tvec 3 (n := 2) rfl]
  rfl

/-- The two masks of a short cause give the same number. -/
theorem ShortCause.number_eq (h : ShortCause cause) : cause &&& 0x3ff = cause &&& 0x7fffffff := by
  have hsplit : (0x7fffffff : BitVec 32) = 0x7ffffc00 ||| 0x3ff := by decide
  rw [hsplit, BitVec.and_or_distrib_left, h]
  exact (BitVec.zero_or).symm

/-- The entry behind the base is the base itself for the number 0 only. -/
theorem base_add_entry_eq_iff (base : BitVec 32) :
    base + 4 * (cause &&& 0x3ff) = base ↔ cause &&& 0x3ff = 0 := by
  have hlt : (cause &&& 0x3ff).toNat < 1024 := by
    rw [and_ones_toNat cause 0x3ff (n := 10) rfl]
    omega
  rw [add_eq_left, ← BitVec.toNat_inj, BitVec.toNat_mul, ← BitVec.toNat_inj]
  change 4 * _ % 2 ^ 32 = 0 ↔ _ = 0
  omega

/-- The handler address that `trap_pc` computes is the right one exactly in these cases. -/
theorem vector_eq_trapTarget_iff (h : ShortCause cause) :
    vector tvec cause = trapTarget tvec cause ↔ RightTarget tvec cause := by
  have hnum : (cause &&& 0x3ff) &&& 0x3ff = cause &&& 0x3ff := by
    rw [BitVec.and_assoc, BitVec.and_self]
  have hone : tvec &&& 1 = 0 ↔ tvec.toNat % 2 = 0 := and_one_eq_zero_iff
  have htwo : tvec &&& 2 = 0 ↔ tvec.toNat / 2 % 2 = 0 := and_two_eq_zero_iff
  have hvec : Vectored tvec ↔ tvec.toNat % 4 = 1 := vectored_iff
  unfold vector trapTarget RightTarget tvecBase
  rw [hnum, ← h.number_eq]
  by_cases hbit : tvec &&& 1 = 0
  · -- Direct mode: what is left of the two low bits is bit 1.
    have hlow : tvec.toNat % 2 = 0 := hone.mp hbit
    have hdirect : ¬ (IsInterrupt cause ∧ Vectored tvec) := by
      rw [hvec]
      omega
    rw [if_neg (not_not.mpr hbit), if_neg hdirect, if_pos hbit, htwo, ← BitVec.toNat_inj,
      and_not_three_toNat, and_high_toNat tvec (~~~1) (n := 1) (by decide)]
    omega
  · rw [if_pos hbit, if_neg hbit]
    by_cases hint : IsInterrupt cause ∧ Vectored tvec
    · have hbit1 : tvec &&& 2 = 0 := by
        have hmode : tvec.toNat % 4 = 1 := hvec.mp hint.2
        rw [htwo]
        omega
      rw [if_pos hint]
      exact iff_of_true rfl (.inl ⟨hint.1, hbit1⟩)
    · have hno : ¬ (IsInterrupt cause ∧ tvec &&& 2 = 0) := by
        rintro ⟨hflag, hbit1⟩
        rw [htwo] at hbit1
        rw [hone] at hbit
        exact hint ⟨hflag, hvec.mpr (by omega)⟩
      rw [if_neg hint, base_add_entry_eq_iff, or_iff_right hno]

end Exec

namespace Core

/-- The vector register of the mode that a trap has entered. -/
def xtvec (s s' : Core) : BitVec 32 :=
  s.exec.csrRegs (if s'.exec.priv = privS then Csr.stvec else Csr.mtvec)

variable {entry : BitVec 32} {s : Core} {i : CoreIn}

/-- The pc after a trap. -/
theorem exPc_of_trap (htrap : (s.comb entry i).onTrap = true) :
    (step entry s i).wb.exPc =
      Exec.vector (xtvec s (step entry s i)) (s.comb entry i).cause := by
  have hpriv := priv_of_trap htrap
  have hnpc : (s.out entry i).npc = s.exec.trapPc (s.comb entry i).cause := by
    simp [out, Exec.execOut, Exec.npcOut, htrap]
  rw [exPc_step, hnpc, Exec.trapPc, xtvec, hpriv]
  cases s.exec.delegatedToS (s.comb entry i).cause with
  | true => rfl
  | false =>
    rw [if_neg Bool.false_ne_true, if_neg Bool.false_ne_true, if_neg (by decide)]

/-- After a trap the pc is the target that `xtvec` of the entered mode names exactly in the
cases that `RightTarget` lists. -/
theorem trap_target_iff (entry : BitVec 32) (s : Core) (i : CoreIn) (hlatched : Latched s.idEx)
    (htrap : (s.comb entry i).onTrap = true) :
    (step entry s i).wb.exPc =
        Exec.trapTarget (xtvec s (step entry s i)) (s.comb entry i).cause ↔
      Exec.RightTarget (xtvec s (step entry s i)) (s.comb entry i).cause := by
  rw [exPc_of_trap htrap]
  exact Exec.vector_eq_trapTarget_iff (Exec.execComb_shortCause hlatched)

/-- `ECALL` after reset goes to the base of `mtvec`, which is 0. -/
theorem trap_target_of_ecall :
    let s := step 0x80000000 (step 0x80000000 {} { rst := true, rstComb := true })
      (offer 0x80000000 0x00000073)
    (step 0x80000000 s {}).wb.exPc =
      Exec.trapTarget (xtvec s (step 0x80000000 s {})) (s.comb 0x80000000 {}).cause := by
  intro s
  have hs : Reachable 0x80000000 s := .step _ (.start ⟨_, rfl, rfl⟩)
  exact (trap_target_iff 0x80000000 s {} hs.holdsLatched.latched (by decide)).mpr
    (by decide)

/-- A program that puts `mtvec` into vectored mode and calls M-mode. -/
def vectoredEcall : List CoreIn :=
  [offer 0x80000000 0x3050d073,   -- csrrwi x0, mtvec, 1
   offer 0x80000004 0x00000073]   -- ecall

/-- The exception goes to entry 11 of the table. -/
theorem ecall_into_table :
    let s := Clocked.run (step 0x80000000) (step 0x80000000 {} { rst := true, rstComb := true })
      vectoredEcall
    Reachable 0x80000000 s ∧ (s.comb 0x80000000 {}).onTrap = true ∧
      (s.comb 0x80000000 {}).cause = ExceptionCause.ecallM.code ∧
      xtvec s (step 0x80000000 s {}) = 1 ∧ (step 0x80000000 s {}).wb.exPc = 44 ∧
      Exec.trapTarget 1 ExceptionCause.ecallM.code = 0 :=
  ⟨Clocked.Reachable.run (.start ⟨_, rfl, rfl⟩) _, by decide, by decide,
    by decide, by decide, by decide⟩

end Core

end Turtle
