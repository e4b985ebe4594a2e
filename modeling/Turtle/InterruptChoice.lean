import Turtle.Delegation
import Turtle.Lib.Priority

/-!
# Which interrupt is taken

Interrupts for M-mode should come before those delegated to S-mode, and the six standard
ones have an order among themselves. `check_interrupt` merges the takeable interrupts of both
modes before it goes through this order, so a delegated interrupt can come before one that is
not.
-/

namespace Turtle

open Bits Priority

namespace Exec

/-- `MEI`, `MSI`, `MTI`, `SEI`, `SSI`, `STI`. -/
def interruptOrder : List ℕ := [11, 3, 7, 9, 1, 5]

/-- The interrupt is destined for S-mode. -/
def Delegated (e : Exec) (n : ℕ) : Prop := (e.csrRegs Csr.mideleg).getLsbD n = true

instance (e : Exec) (n : ℕ) : Decidable (e.Delegated n) := inferInstanceAs (Decidable (_ = _))

/-- The interrupt is pending and enabled, and its mode takes interrupts. -/
def MayTake (e : Exec) (p : Platform) (n : ℕ) : Prop :=
  (e.getMip p).getLsbD n = true ∧ (e.csrRegs Csr.mie).getLsbD n = true ∧
    if e.Delegated n then
      e.priv < privS ∨ (e.priv = privS ∧ e.csrRegs Csr.mstatus &&& Mstatus.sie ≠ 0)
    else e.priv < privM ∨ e.csrRegs Csr.mstatus &&& Mstatus.mie ≠ 0

instance (e : Exec) (p : Platform) (n : ℕ) : Decidable (e.MayTake p n) := by
  unfold MayTake
  infer_instance

/-- The right choice among the takeable interrupts. -/
structure RightChoice (e : Exec) (p : Platform) (k : ℕ) : Prop where
  takeable : e.MayTake p k
  machine_first : (∃ m, e.MayTake p m ∧ ¬ e.Delegated m) → ¬ e.Delegated k
  in_order : ∀ j, e.MayTake p j → (e.Delegated j ↔ e.Delegated k) →
    rank interruptOrder k ≤ rank interruptOrder j

/-- `check_interrupt` answers when it should, with the right choice. -/
structure SelectsRight (e : Exec) (p : Platform) : Prop where
  some_iff : (e.checkInterrupt p).isSome ↔ ∃ n, e.MayTake p n
  choice : ∀ cause, e.checkInterrupt p = some cause →
    cause &&& 0x80000000 ≠ 0 ∧ e.RightChoice p (causeId cause)

/-- Some takeable interrupt is destined for M-mode, and a delegated one comes before all of
these. -/
def DelegatedFirst (e : Exec) (p : Platform) : Prop :=
  (∃ m, e.MayTake p m ∧ ¬ e.Delegated m) ∧ ∃ d, e.MayTake p d ∧ e.Delegated d ∧
    ∀ m, e.MayTake p m → ¬ e.Delegated m → Before interruptOrder d m

variable {e : Exec} {p : Platform} {x cause : BitVec 32}

/-! ### The choice of the code -/

/-- The chain of tests is a search through the order. -/
theorem highestPriority_eq : highestPriority x =
    match interruptOrder.find? (fun n => x.getLsbD n) with
    | some n => 1#32 <<< n
    | none => x := by
  have hbit (n : ℕ) : x &&& (1#32 <<< n) ≠ 0 ↔ x.getLsbD n = true := and_one_shiftLeft_ne_zero_iff
  unfold highestPriority interruptOrder Mip.meip Mip.msip Mip.mtip Mip.seip Mip.ssip Mip.stip
  simp only [hbit, List.find?_cons, List.find?_nil]
  cases x.getLsbD 11
  case true => rfl
  cases x.getLsbD 3
  case true => rfl
  cases x.getLsbD 7
  case true => rfl
  cases x.getLsbD 9
  case true => rfl
  cases x.getLsbD 1
  case true => rfl
  cases x.getLsbD 5 <;> rfl

/-- The number of the chosen interrupt is first among those of the set bits. -/
theorem isFirst_highestPriority (hx : x ≠ 0) :
    IsFirst interruptOrder (fun n => x.getLsbD n = true) (highestPriority x).ctz.toNat := by
  rw [highestPriority_eq]
  cases hfind : interruptOrder.find? (fun n => x.getLsbD n) with
  | some n =>
    have hfirst := isFirst_of_find? hfind
    have hn : n < 32 := BitVec.lt_of_getLsbD hfirst.1
    rw [ctz_one_shiftLeft hn]
    exact hfirst
  | none =>
    refine isFirst_of_find?_none hfind (BitVec.getLsbD_true_ctz_of_ne_zero hx) fun j hj => ?_
    by_contra hlt
    rw [BitVec.getLsbD_false_of_lt_ctz (not_le.mp hlt)] at hj
    cases hj

/-- The gate of the interrupts for M-mode. -/
theorem machineGate_iff (hpriv : e.priv ≤ privM) :
    ((e.csrRegs Csr.mstatus &&& Mstatus.mie != 0 && e.priv == privM) ||
      decide (e.priv < privM)) = true ↔
    e.priv < privM ∨ e.csrRegs Csr.mstatus &&& Mstatus.mie ≠ 0 := by
  have hlevel : e.priv < privM ∨ e.priv = privM := by
    rcases Nat.lt_or_eq_of_le (BitVec.le_def.mp hpriv) with h | h
    · exact .inl (BitVec.lt_def.mpr h)
    · exact .inr (BitVec.eq_of_toNat_eq h)
  simp only [Bool.or_eq_true, Bool.and_eq_true, bne_iff_ne, beq_iff_eq, decide_eq_true_iff]
  tauto

/-- The gate of the interrupts for S-mode. -/
theorem supervisorGate_iff :
    ((e.priv == privS && e.csrRegs Csr.mstatus &&& Mstatus.sie != 0) ||
      decide (e.priv < privS)) = true ↔
    e.priv < privS ∨ (e.priv = privS ∧ e.csrRegs Csr.mstatus &&& Mstatus.sie ≠ 0) := by
  simp only [Bool.or_eq_true, Bool.and_eq_true, bne_iff_ne, beq_iff_eq, decide_eq_true_iff]
  tauto

theorem getLsbD_gated (b : Bool) (y : BitVec 32) (n : ℕ) :
    (if b then y else 0).getLsbD n = (b && y.getLsbD n) := by
  cases b with
  | false => exact BitVec.getLsbD_zero
  | true => rfl

/-- `check_interrupt` merges the takeable interrupts of both modes. -/
theorem getLsbD_takeable (hpriv : e.priv ≤ privM) (n : ℕ) :
    (e.takeable p).getLsbD n = true ↔ e.MayTake p n := by
  unfold takeable MayTake
  dsimp only
  rw [BitVec.getLsbD_or, getLsbD_gated, getLsbD_gated, Bool.or_eq_true, Bool.and_eq_true,
    Bool.and_eq_true, machineGate_iff hpriv, supervisorGate_iff]
  simp only [BitVec.getLsbD_and, BitVec.getLsbD_not]
  by_cases hdeleg : e.Delegated n
  · have hbit : (e.csrRegs Csr.mideleg).getLsbD n = true := hdeleg
    rw [if_pos hdeleg, hbit]
    simp only [Bool.not_true, Bool.and_false, Bool.false_eq_true, and_false, false_or,
      Bool.and_true, Bool.and_eq_true]
    rw [and_comm, and_assoc]
  · have hbit : (e.csrRegs Csr.mideleg).getLsbD n = false := Bool.eq_false_of_not_eq_true hdeleg
    rw [if_neg hdeleg, hbit]
    simp only [Bool.not_false, Bool.and_true, Bool.and_false, Bool.false_eq_true, and_false,
      or_false, Bool.and_eq_true, decide_eq_true_iff]
    constructor
    · rintro ⟨henabled, ⟨hmip, hmie⟩, -⟩
      exact ⟨hmip, hmie, henabled⟩
    · rintro ⟨hmip, hmie, henabled⟩
      exact ⟨henabled, ⟨hmip, hmie⟩, BitVec.lt_of_getLsbD hmip⟩

/-- An answer of `check_interrupt`. -/
theorem checkInterrupt_isSome_iff : (e.checkInterrupt p).isSome ↔ e.takeable p ≠ 0 := by
  unfold checkInterrupt
  split
  case isTrue h => exact iff_of_false Bool.false_ne_true (not_not.mpr h)
  case isFalse h => exact iff_of_true rfl h

/-- The cause is first among the takeable interrupts of both modes. -/
theorem isFirst_checkInterrupt (hpriv : e.priv ≤ privM) (h : e.checkInterrupt p = some cause) :
    cause &&& 0x80000000 ≠ 0 ∧ IsFirst interruptOrder (e.MayTake p) (causeId cause) := by
  refine ⟨(checkInterrupt_spec h).1, ?_⟩
  have hne : e.takeable p ≠ 0 := checkInterrupt_isSome_iff.mp (by rw [h]; rfl)
  have hfirst := isFirst_highestPriority hne
  rw [← causeId_checkInterrupt h] at hfirst
  simp only [getLsbD_takeable hpriv] at hfirst
  exact hfirst

/-- `check_interrupt` is right exactly when no delegated interrupt comes before all takeable
ones that are destined for M-mode. -/
theorem selectsRight_iff (e : Exec) (p : Platform) (hpriv : e.priv ≤ privM) :
    e.SelectsRight p ↔ ¬ e.DelegatedFirst p := by
  have hsome : (e.checkInterrupt p).isSome ↔ ∃ n, e.MayTake p n := by
    rw [checkInterrupt_isSome_iff, ne_zero_iff_exists_getLsbD]
    exact exists_congr (getLsbD_takeable hpriv)
  have hpreferred {k : ℕ} (hk : IsFirst interruptOrder (e.MayTake p) k) :
      ¬ e.Delegated k ↔ ¬ ∃ d, e.MayTake p d ∧ e.Delegated d ∧
        ∀ m, e.MayTake p m → ¬ e.Delegated m → Before interruptOrder d m := by
    rw [hk.preferred_iff (Q := fun n => ¬ e.Delegated n)]
    simp only [not_not]
  constructor
  · rintro hright ⟨hmachine, hbefore⟩
    obtain ⟨cause, hcause⟩ := Option.isSome_iff_exists.mp (hsome.mpr (hmachine.imp fun _ h => h.1))
    obtain ⟨-, hfirst⟩ := isFirst_checkInterrupt hpriv hcause
    exact (hpreferred hfirst).mp ((hright.choice cause hcause).2.machine_first hmachine) hbefore
  · intro hnone
    refine ⟨hsome, fun cause hcause => ?_⟩
    obtain ⟨hflag, hfirst⟩ := isFirst_checkInterrupt hpriv hcause
    refine ⟨hflag, hfirst.1, fun hmachine => ?_, fun j hj _ => hfirst.rank_le hj⟩
    exact (hpreferred hfirst).mpr fun hbefore => hnone ⟨hmachine, hbefore⟩

/-- The machine timer comes before a delegated software interrupt. -/
theorem selectsRight_mtimer :
    let e : Exec := { ((Exec.init.write Csr.mie 0x82).write Csr.mip 2).write Csr.mideleg 2 with
      priv := privU }
    e.checkInterrupt { mtime := 1 } = some 0x80000007 ∧ e.SelectsRight { mtime := 1 } := by
  intro e
  refine ⟨by decide +kernel, (selectsRight_iff e _ (by decide +kernel)).mpr ?_⟩
  rintro ⟨-, d, -, hdeleg, hbefore⟩
  have hone : ∀ n < 32, e.Delegated n → n = 1 := by decide
  obtain rfl := hone d (BitVec.lt_of_getLsbD hdeleg) hdeleg
  exact absurd (hbefore 7 (by decide) (by decide)) (by decide)

end Exec

namespace Core

/-- A program that delegates the supervisor software interrupt but not the supervisor timer
interrupt, enables both, raises the first and leaves M-mode by `SRET`. -/
def delegateOneInterrupt : List CoreIn :=
  [offer 0x80000000 0x30315073,   -- csrrwi x0, mideleg, 2
   offer 0x80000004 0x02200313,   -- addi x6, x0, 0x22
   offer 0x80000008 0x30431073,   -- csrrw x0, mie, x6
   offer 0x8000000c 0x34415073,   -- csrrwi x0, mip, 2
   offer 0x80000010 0x14159073,   -- csrrw x0, sepc, x11
   offer 0x80000014 0x10200073,   -- sret
   {}]

/-- In the U-mode state that this program reaches the timer goes off: both interrupts may be
taken, the one of the timer is destined for M-mode, and the delegated one is chosen. -/
theorem delegated_interrupt_comes_first :
    let s := Clocked.run (step 0x80000000) (step 0x80000000 {} { rst := true, rstComb := true })
      delegateOneInterrupt
    let p : Platform := { mtime := 1, mtimecmp := 1 }
    Reachable 0x80000000 s ∧ s.exec.priv = privU ∧ s.exec.MayTake p 5 ∧ ¬ s.exec.Delegated 5 ∧
      s.exec.checkInterrupt p = some 0x80000001 ∧ s.exec.Delegated 1 ∧
      ¬ s.exec.SelectsRight p := by
  intro s p
  have hmay : s.exec.MayTake p 5 := by decide
  have hmachine : ¬ s.exec.Delegated 5 := by decide
  have hchosen : s.exec.checkInterrupt p = some 0x80000001 := by decide +kernel
  have hdeleg : s.exec.Delegated 1 := by decide
  refine ⟨Clocked.Reachable.run (.start ⟨_, rfl, rfl⟩) _, by decide, hmay, hmachine,
    hchosen, hdeleg, fun hright => ?_⟩
  have hnot := (hright.choice _ hchosen).2.machine_first ⟨5, hmay, hmachine⟩
  rw [show Exec.causeId 0x80000001 = 1 by decide] at hnot
  exact hnot hdeleg

end Core

end Turtle
