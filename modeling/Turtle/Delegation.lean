import Turtle.Privilege
import Turtle.Lib.Bits

/-!
# Where interrupts are delivered

`check_interrupt` decides whether an interrupt is taken, `trap` and `trap_pc`
decide in which mode. The first enables delegated interrupts below S-mode
whatever `SIE` is; the other two ask for `SIE` at every privilege below M. They
disagree on a delegated interrupt that meets U-mode with `SIE` clear.
-/

namespace Turtle

open Bits

namespace Exec

variable {e : Exec} {p : Platform} {cause : BitVec 32}

/-- The single bit of a mask is where `ctz` finds it. -/
theorem ctz_one_shiftLeft {n : ℕ} (hn : n < 32) : (1#32 <<< n).ctz.toNat = n := by
  have hne : 1#32 <<< n ≠ 0 := by
    intro h
    have hbit := congrArg (·.getLsbD n) h
    simp [hn] at hbit
  have hbit := BitVec.getLsbD_true_ctz_of_ne_zero hne
  simp at hbit
  omega

/-- A mask that meets the takeable interrupts names one of them. -/
theorem mask_mem {x : BitVec 32} {n : ℕ} (hn : n < 32) (h : x &&& (1#32 <<< n) ≠ 0) :
    x.getLsbD (1#32 <<< n).ctz.toNat = true ∧ (1#32 <<< n).ctz.toNat < 32 := by
  rw [ctz_one_shiftLeft hn]
  exact ⟨and_one_shiftLeft_ne_zero_iff.mp h, hn⟩

/-- The interrupt chosen among the takeable ones is one of them. -/
theorem highestPriority_mem {x : BitVec 32} (hx : x ≠ 0) :
    x.getLsbD (highestPriority x).ctz.toNat = true ∧ (highestPriority x).ctz.toNat < 32 := by
  unfold highestPriority
  split_ifs with hmei hmsi hmti hsei hssi hsti
  · exact mask_mem (by omega) hmei
  · exact mask_mem (by omega) hmsi
  · exact mask_mem (by omega) hmti
  · exact mask_mem (by omega) hsei
  · exact mask_mem (by omega) hssi
  · exact mask_mem (by omega) hsti
  · have hlt := BitVec.ctz_lt_iff_ne_zero.mpr hx
    exact ⟨BitVec.getLsbD_true_ctz_of_ne_zero hx, by simpa [BitVec.lt_def] using hlt⟩

/-- The number of a cause, as `trap` and `trap_pc` compute it. -/
def causeId (cause : BitVec 32) : ℕ := (cause &&& 0x3ff).toNat

/-- The number of a taken interrupt. -/
theorem causeId_checkInterrupt (h : e.checkInterrupt p = some cause) :
    causeId cause = (highestPriority (e.takeable p)).ctz.toNat := by
  unfold checkInterrupt at h
  split at h
  · cases h
  · rename_i hne
    obtain ⟨-, hlt⟩ := highestPriority_mem hne
    have hcause : (1#32 <<< 31) ||| (highestPriority (e.takeable p)).ctz = cause := by
      simpa using h
    generalize (highestPriority (e.takeable p)).ctz = k at hlt hcause
    subst hcause
    have hk : k = BitVec.ofNat 32 k.toNat := by simp
    rw [hk]
    generalize k.toNat = n at hlt
    decide +revert

/-- A taken interrupt carries the interrupt flag, and its number is that of a
takeable interrupt. -/
theorem checkInterrupt_spec (h : e.checkInterrupt p = some cause) :
    cause &&& 0x80000000 ≠ 0 ∧ (e.takeable p).getLsbD (causeId cause) = true := by
  rw [causeId_checkInterrupt h]
  unfold checkInterrupt at h
  split at h
  · cases h
  · rename_i hne
    have hcause : (1#32 <<< 31) ||| (highestPriority (e.takeable p)).ctz = cause := by
      simpa using h
    refine ⟨?_, (highestPriority_mem hne).1⟩
    rw [show (0x80000000 : BitVec 32) = 1#32 <<< 31 by decide, and_one_shiftLeft_ne_zero_iff,
      ← hcause, BitVec.getLsbD_or, show (1#32 <<< 31).getLsbD 31 = true by decide, Bool.true_or]

/-- The rule for interrupts: those taken below M-mode with their `mideleg` bit set
go to S-mode. -/
def ShouldDelegate (e : Exec) (cause : BitVec 32) : Prop :=
  e.priv < privM ∧ (e.csrRegs Csr.mideleg).getLsbD (causeId cause) = true

instance (e : Exec) (cause : BitVec 32) : Decidable (e.ShouldDelegate cause) :=
  inferInstanceAs (Decidable (_ ∧ _))

/-- `trap` enters S-mode and `trap_pc` gives the address of its handler. -/
def EntersS (e : Exec) (cause : BitVec 32) : Prop :=
  (∀ tval epc, (e.trap cause tval epc).priv = privS ∧
    (e.trap cause tval epc).csrRegs Csr.scause = cause ∧
    (e.trap cause tval epc).csrRegs Csr.sepc = epc &&& ~~~1 ∧
    (e.trap cause tval epc).csrRegs Csr.stval = tval ∧
    (e.trap cause tval epc).csrRegs Csr.mcause = e.csrRegs Csr.mcause ∧
    (e.trap cause tval epc).csrRegs Csr.mepc = e.csrRegs Csr.mepc ∧
    (e.trap cause tval epc).csrRegs Csr.mtval = e.csrRegs Csr.mtval) ∧
  e.trapPc cause = vector (e.csrRegs Csr.stvec) cause

/-- `trap` enters M-mode and `trap_pc` gives the address of its handler. -/
def EntersM (e : Exec) (cause : BitVec 32) : Prop :=
  (∀ tval epc, (e.trap cause tval epc).priv = privM ∧
    (e.trap cause tval epc).csrRegs Csr.mcause = cause ∧
    (e.trap cause tval epc).csrRegs Csr.mepc = epc &&& ~~~1 ∧
    (e.trap cause tval epc).csrRegs Csr.mtval = tval ∧
    (e.trap cause tval epc).csrRegs Csr.scause = e.csrRegs Csr.scause ∧
    (e.trap cause tval epc).csrRegs Csr.sepc = e.csrRegs Csr.sepc ∧
    (e.trap cause tval epc).csrRegs Csr.stval = e.csrRegs Csr.stval) ∧
  e.trapPc cause = vector (e.csrRegs Csr.mtvec) cause

/-- The interrupt is delivered by the rule. -/
def DeliveredByRule (e : Exec) (cause : BitVec 32) : Prop :=
  if e.ShouldDelegate cause then e.EntersS cause else e.EntersM cause

theorem entersS_of_delegated (h : e.delegatedToS cause = true) : e.EntersS cause := by
  refine ⟨fun tval epc => ?_, by rw [trapPc, if_pos h]⟩
  rw [trap, if_pos h]
  exact ⟨rfl, rfl, rfl, rfl, rfl, rfl, rfl⟩

theorem entersM_of_not_delegated (h : e.delegatedToS cause = false) : e.EntersM cause := by
  refine ⟨fun tval epc => ?_, by rw [trapPc, h]; rfl⟩
  rw [trap, h]
  exact ⟨rfl, rfl, rfl, rfl, rfl, rfl, rfl⟩

/-- A trap enters one mode. -/
theorem not_entersS_and_entersM (hS : e.EntersS cause) (hM : e.EntersM cause) : False := by
  have hpriv := (hS.1 0 0).1.symm.trans (hM.1 0 0).1
  exact absurd hpriv (by decide)

/-- Delivery follows the rule exactly when the delegation test of `trap` and
`trap_pc` does. -/
theorem deliveredByRule_iff :
    e.DeliveredByRule cause ↔ (e.delegatedToS cause = true ↔ e.ShouldDelegate cause) := by
  unfold DeliveredByRule
  by_cases hrule : e.ShouldDelegate cause
  · rw [if_pos hrule]
    constructor
    · intro hS
      refine iff_of_true ?_ hrule
      by_contra h
      exact not_entersS_and_entersM hS (entersM_of_not_delegated (by simpa using h))
    · intro h
      exact entersS_of_delegated (h.mpr hrule)
  · rw [if_neg hrule]
    constructor
    · intro hM
      refine iff_of_false (fun h => ?_) hrule
      exact not_entersS_and_entersM (entersS_of_delegated h) hM
    · intro h
      exact entersM_of_not_delegated (by simpa using mt h.mp hrule)

/-- The delegation test on an interrupt: the rule, and `SIE`. -/
theorem delegatedToS_iff (h : cause &&& 0x80000000 ≠ 0) :
    e.delegatedToS cause = true ↔
      e.ShouldDelegate cause ∧ e.csrRegs Csr.mstatus &&& Mstatus.sie ≠ 0 := by
  unfold delegatedToS ShouldDelegate
  dsimp only
  rw [if_pos h]
  split
  · rename_i hpriv
    rw [shiftRight_and_one]
    change ((if (e.csrRegs Csr.mideleg).getLsbD (causeId cause) = true then (1 : BitVec 32) else 0)
      == 1) = true ↔ _
    cases (e.csrRegs Csr.mideleg).getLsbD (causeId cause) with
    | false => simp
    | true => exact iff_of_true (by simp) ⟨⟨hpriv.1, rfl⟩, hpriv.2⟩
  · rename_i hpriv
    exact iff_of_false (by simp) fun h => hpriv ⟨h.1.1, h.2⟩

/-- A delegated interrupt that is taken below M-mode meets U-mode, or S-mode with
`SIE` set. -/
theorem priv_of_takeable {n : ℕ} (htake : (e.takeable p).getLsbD n = true)
    (hdeleg : (e.csrRegs Csr.mideleg).getLsbD n = true) :
    e.priv = privU ∨ e.csrRegs Csr.mstatus &&& Mstatus.sie ≠ 0 := by
  have hn : n < 32 := BitVec.lt_of_getLsbD htake
  unfold takeable at htake
  dsimp only at htake
  rw [BitVec.getLsbD_or, Bool.or_eq_true] at htake
  rcases htake with hm | hs
  · -- The machine-level half excludes delegated interrupts.
    split at hm
    · simp [hdeleg] at hm
    · simp at hm
  · split at hs
    · rename_i hen
      simp only [Bool.or_eq_true, Bool.and_eq_true, beq_iff_eq, bne_iff_ne, ne_eq,
        decide_eq_true_eq] at hen
      rcases hen with ⟨-, hsie⟩ | hlt
      · exact .inr hsie
      · left
        have hzero : e.priv.toNat < 1 := by simpa [BitVec.lt_def, privS] using hlt
        apply BitVec.eq_of_toNat_eq
        simp [privU]
        omega
    · simp at hs

/-- An interrupt that `check_interrupt` returns is delivered by the rule exactly
when it is not a delegated one that meets U-mode with `SIE` clear. -/
theorem deliveredByRule_iff_not_userMode_sie_clear (e : Exec) (p : Platform) (cause : BitVec 32)
    (h : e.checkInterrupt p = some cause) :
    e.DeliveredByRule cause ↔
      ¬ (e.priv = privU ∧ e.csrRegs Csr.mstatus &&& Mstatus.sie = 0 ∧
        (e.csrRegs Csr.mideleg).getLsbD (causeId cause) = true) := by
  obtain ⟨hflag, htake⟩ := checkInterrupt_spec h
  rw [deliveredByRule_iff, delegatedToS_iff hflag]
  constructor
  · rintro hrule ⟨hpriv, hsie, hdeleg⟩
    have hshould : e.ShouldDelegate cause := ⟨by rw [hpriv]; decide, hdeleg⟩
    exact (hrule.mpr hshould).2 hsie
  · intro hcond
    refine ⟨fun h => h.1, fun hshould => ⟨hshould, ?_⟩⟩
    rcases priv_of_takeable htake hshould.2 with hpriv | hsie
    · exact fun hsie => hcond ⟨hpriv, hsie, hshould.2⟩
    · exact hsie

/-- A delegated software interrupt in U-mode with `SIE` set goes to S-mode. -/
theorem entersS_userMode_sie_set :
    let e : Exec := { (((Exec.init.write Csr.mie 2).write Csr.mip 2).write Csr.mideleg 2).write
      Csr.mstatus Mstatus.sie with priv := privU }
    e.checkInterrupt {} = some 0x80000001 ∧ e.EntersS 0x80000001 := by
  intro e
  have hcause : e.checkInterrupt {} = some 0x80000001 := by decide +kernel
  have hrule := (deliveredByRule_iff_not_userMode_sie_clear e {} _ hcause).mpr (by decide)
  rw [DeliveredByRule, if_pos (by decide)] at hrule
  exact ⟨hcause, hrule⟩

end Exec

namespace Core

/-- A program that delegates, enables and raises the supervisor software
interrupt, and leaves M-mode by `SRET` with `SIE` clear. -/
def delegateSoftwareInterrupt : List CoreIn :=
  [offer 0x80000000 0x30315073,   -- csrrwi x0, mideleg, 2
   offer 0x80000004 0x30415073,   -- csrrwi x0, mie, 2
   offer 0x80000008 0x34415073,   -- csrrwi x0, mip, 2
   offer 0x8000000c 0x14159073,   -- csrrw x0, sepc, x11
   offer 0x80000010 0x10200073,   -- sret
   {}]

/-- In the U-mode state that this program reaches, the delegated interrupt is
taken and delivered to M-mode. -/
theorem delegated_interrupt_enters_machineMode :
    let s := Clocked.run (step 0x80000000) (step 0x80000000 {} { rst := true, rstComb := true })
      delegateSoftwareInterrupt
    Reachable 0x80000000 s ∧ s.exec.checkInterrupt {} = some 0x80000001 ∧
      s.exec.ShouldDelegate 0x80000001 ∧ s.exec.EntersM 0x80000001 ∧
      ¬ s.exec.DeliveredByRule 0x80000001 := by
  intro s
  have hshould : s.exec.ShouldDelegate 0x80000001 := by decide
  have henters : s.exec.EntersM 0x80000001 := Exec.entersM_of_not_delegated (by decide)
  refine ⟨Clocked.Reachable.run (.start ⟨_, rfl, rfl⟩) _, by decide +kernel, hshould, henters, ?_⟩
  intro hrule
  rw [Exec.DeliveredByRule, if_pos hshould] at hrule
  exact Exec.not_entersS_and_entersM hrule henters

end Core

end Turtle
