import Turtle.Isolation

/-!
# What M-mode has set up

Below M-mode no trap, return or CSR instruction takes back what M-mode has set up: the PMP,
the delegations, the trap vector, the controls in `mstatus`, the enables of interrupts that
are kept for M-mode. A trap into M-mode itself writes the three registers that report it.
-/

namespace Turtle

namespace Exec

/-- The registers behind the S-level views. -/
def viewedCsrs : List (BitVec 12) := [Csr.mstatus, Csr.mie, Csr.mip]

/-- The registers in which a trap into M-mode reports itself. -/
def reportCsrs : List (BitVec 12) := [Csr.mcause, Csr.mepc, Csr.mtval]

/-- The bits of `mstatus` that make instructions of S-mode trap. -/
def trapControls : List ℕ := [Mstatus.tvmShift, Mstatus.twShift, Mstatus.tsrShift]

/-- What M-mode has set up in `e` still stands in `e'`. -/
structure SetupKept (e e' : Exec) : Prop where
  pmp_eq : e'.pmp = e.pmp
  csr_eq : ∀ a, MachineCsr a → ¬ IsTimerCsr a → a ∉ viewedCsrs → a ∉ reportCsrs →
    e'.csrRegs a = e.csrRegs a
  control_eq : ∀ n ∈ trapControls,
    (e'.csrRegs Csr.mstatus).getLsbD n = (e.csrRegs Csr.mstatus).getLsbD n
  enable_eq : e'.csrRegs Csr.mie &&& ~~~(e.csrRegs Csr.mideleg) =
    e.csrRegs Csr.mie &&& ~~~(e.csrRegs Csr.mideleg)
  report_eq : e'.priv ≠ privM → ∀ a ∈ reportCsrs, e'.csrRegs a = e.csrRegs a

variable {e e' e'' : Exec} {idEx : IdEx} {m p v : BitVec 32} {n : ℕ} {a : BitVec 12}

/-- The report registers are like the other registers of M-mode, and a trap into S-mode spares
them. -/
theorem machineCsr_of_mem_reportCsrs (h : a ∈ reportCsrs) :
    MachineCsr a ∧ ¬ IsTimerCsr a ∧ a ∉ viewedCsrs ∧ a ∉ trapCsrs true := by
  simp only [reportCsrs, List.mem_cons, List.not_mem_nil, or_false] at h
  rcases h with rfl | rfl | rfl <;> decide

theorem ne_mstatus_of_not_viewed (h : a ∉ viewedCsrs) : a ≠ Csr.mstatus := by
  rintro rfl
  exact h (List.mem_cons_self ..)

theorem SetupKept.refl (e : Exec) : SetupKept e e :=
  ⟨rfl, fun _ _ _ _ _ => rfl, fun _ _ => rfl, rfl, fun _ _ _ => rfl⟩

theorem SetupKept.trans (h : SetupKept e e') (h' : SetupKept e' e'')
    (hbelow : e''.priv ≠ privM → e'.priv ≠ privM) : SetupKept e e'' where
  pmp_eq := h'.pmp_eq.trans h.pmp_eq
  csr_eq a hmachine htimer hview hreport :=
    (h'.csr_eq a hmachine htimer hview hreport).trans (h.csr_eq a hmachine htimer hview hreport)
  control_eq n hn := (h'.control_eq n hn).trans (h.control_eq n hn)
  enable_eq := by
    have hdeleg : e'.csrRegs Csr.mideleg = e.csrRegs Csr.mideleg :=
      h.csr_eq Csr.mideleg (by decide) (by decide) (by decide) (by decide)
    have henable := h'.enable_eq
    rw [hdeleg] at henable
    exact henable.trans h.enable_eq
  report_eq hpriv a ha :=
    (h'.report_eq hpriv a ha).trans (h.report_eq (hbelow hpriv) a ha)

/-- The half of a clock edge that follows writes the timers only. -/
theorem SetupKept.of_commit {mtime : BitVec 64} {c : ExecComb}
    (h : SetupKept e (e.commit idEx c)) : SetupKept e (e.execSeq idEx c mtime) where
  pmp_eq := execSeq_pmp.trans h.pmp_eq
  csr_eq a hmachine htimer hview hreport :=
    (execSeq_csrRegs htimer).trans (h.csr_eq a hmachine htimer hview hreport)
  control_eq n hn := by
    rw [execSeq_csrRegs (by decide)]
    exact h.control_eq n hn
  enable_eq := by
    rw [execSeq_csrRegs (by decide)]
    exact h.enable_eq
  report_eq hpriv a ha := by
    rw [execSeq_csrRegs (machineCsr_of_mem_reportCsrs ha).2.1]
    exact h.report_eq (execSeq_priv ▸ hpriv) a ha

/-! ### Traps -/

theorem getLsbD_trapMstatusS_of_control (hn : n ∈ trapControls) :
    (trapMstatusS m p).getLsbD n = m.getLsbD n := by
  unfold trapMstatusS
  simp only [trapControls, List.mem_cons, List.not_mem_nil, or_false] at hn
  rcases hn with rfl | rfl | rfl <;> split_ifs <;>
    simp [Mstatus.spp, Mstatus.sppShift, Mstatus.sie, Mstatus.spie, Mstatus.sieShift,
      Mstatus.spieShift, Mstatus.tvmShift, Mstatus.twShift, Mstatus.tsrShift]

/-- The privilege that is merged into `MPP` does not reach the controls. -/
theorem getLsbD_trapMstatusM_of_control (hp : p ≤ 3) (hn : n ∈ trapControls) :
    (trapMstatusM m p).getLsbD n = m.getLsbD n := by
  have hhigh (k : ℕ) (hk : 2 ≤ k) (hlt : k < 32) : p[k] = false :=
    (BitVec.getLsbD_eq_getElem hlt).symm.trans (getLsbD_of_le_three hp hk)
  unfold trapMstatusM
  simp only [trapControls, List.mem_cons, List.not_mem_nil, or_false] at hn
  rcases hn with rfl | rfl | rfl <;>
    simp [Mstatus.mie, Mstatus.mpie, Mstatus.mieShift, Mstatus.mpieShift, Mstatus.mppShift,
      Mstatus.tvmShift, Mstatus.twShift, Mstatus.tsrShift, hhigh]

/-- A trap writes a machine-level register only to report itself to M-mode. -/
theorem not_mem_trapCsrs_of_machine (hmachine : MachineCsr a) (hview : a ∉ viewedCsrs)
    {toS : Bool} (hreport : toS = false → a ∉ reportCsrs) : a ∉ trapCsrs toS := by
  have hstatus := ne_mstatus_of_not_viewed hview
  cases toS with
  | true =>
    have hlevel (b : BitVec 12) (hb : ¬ MachineCsr b) : a ≠ b := fun h => hb (h ▸ hmachine)
    simp only [trapCsrs, if_true, List.mem_cons, List.not_mem_nil, or_false, not_or]
    exact ⟨hlevel _ (by decide), hlevel _ (by decide), hlevel _ (by decide), hstatus⟩
  | false =>
    have hother := hreport rfl
    simp only [reportCsrs, List.mem_cons, List.not_mem_nil, or_false, not_or] at hother
    simp only [trapCsrs, Bool.false_eq_true, if_false, List.mem_cons, List.not_mem_nil,
      or_false, not_or]
    exact ⟨hother.1, hother.2.1, hother.2.2, hstatus⟩

theorem setupKept_trap (hle : e.priv ≤ 3) (cause tval epc : BitVec 32) :
    SetupKept e (e.trap cause tval epc) where
  pmp_eq := trap_pmp
  csr_eq a hmachine _ hview hreport :=
    trap_csrRegs_of_not_mem (not_mem_trapCsrs_of_machine hmachine hview fun _ => hreport)
  control_eq n hn := by
    rw [trap_mstatus]
    split
    · exact getLsbD_trapMstatusS_of_control hn
    · exact getLsbD_trapMstatusM_of_control hle hn
  enable_eq := by
    rw [trap_csrRegs_of_not_mem (by cases e.delegatedToS cause <;> decide)]
  report_eq hpriv a ha := by
    -- A trap that ends below M-mode is delegated.
    have hdeleg : e.delegatedToS cause = true := by
      by_contra h
      rw [trap_priv, if_neg h] at hpriv
      exact hpriv rfl
    apply trap_csrRegs_of_not_mem
    rw [hdeleg]
    exact (machineCsr_of_mem_reportCsrs ha).2.2.2

/-! ### Returns and CSR instructions -/

theorem setupKept_returnFromTrap (e : Exec) (mmode : Bool) :
    SetupKept e (e.returnFromTrap mmode) where
  pmp_eq := returnFromTrap_pmp
  csr_eq a _ _ hview _ := returnFromTrap_csrRegs_of_ne (ne_mstatus_of_not_viewed hview)
  control_eq n hn := by
    have hplaces : n < 32 ∧ n ≠ pieShift mmode ∧ n ≠ ieShift mmode ∧
        (ppMask mmode).getLsbD n = false ∧ n ≠ Mstatus.mprvShift := by
      simp only [trapControls, List.mem_cons, List.not_mem_nil, or_false] at hn
      rcases hn with rfl | rfl | rfl <;> cases mmode <;> decide
    obtain ⟨hlt, hpie, hie, hpp, hmprv⟩ := hplaces
    rw [returnFromTrap_mstatus, getLsbD_retMstatus hlt, if_neg hpie, if_neg hie, hpp,
      if_neg Bool.false_ne_true, if_neg hmprv]
  enable_eq := by rw [returnFromTrap_csrRegs_of_ne (by decide)]
  report_eq _ a ha := returnFromTrap_csrRegs_of_ne
    (ne_mstatus_of_not_viewed (machineCsr_of_mem_reportCsrs ha).2.2.1)

/-- Below M-mode the privilege guard keeps a CSR instruction away from the machine-level
addresses. -/
theorem not_machineCsr_below (hle : e.priv ≤ 3) (hbelow : e.priv ≠ privM)
    (hguard : ((a >>> 8) &&& 3).setWidth 32 ≤ e.priv) : ¬ MachineCsr a := by
  intro hmachine
  rw [hmachine] at hguard
  exact hbelow (BitVec.le_antisymm hle hguard)

/-- A name outside M-level reaches a machine-level register that has no view of its own
nowhere, and one with a view within the mask of the view. -/
theorem setupKept_csrWrite (hbelow : e.priv ≠ privM) (haddr : ¬ MachineCsr idEx.csrAddr) :
    SetupKept e (e.csrWrite idEx v) := by
  have hframe (a : BitVec 12) (hmachine : MachineCsr a) (hview : a ∉ viewedCsrs) :
      (e.csrWrite idEx v).csrRegs a = e.csrRegs a := by
    apply csrWrite_csrRegs_of_ne
    apply ne_storage haddr hmachine
    rw [nameOf_eq_self hview]
    rintro rfl
    exact haddr hmachine
  have hstatus : (e.csrWrite idEx v).csrRegs Csr.mstatus &&& ~~~Mstatus.sstatusMask =
      e.csrRegs Csr.mstatus &&& ~~~Mstatus.sstatusMask :=
    view_frame rfl csrWrite_sstatus (ne_storage (b := Csr.mstatus) haddr (by decide))
  refine ⟨csrWrite_pmp_of_priv hbelow, fun a hmachine _ hview _ => hframe a hmachine hview,
    fun n hn => ?_, ?_, fun _ a ha => ?_⟩
  · have hfree : (~~~Mstatus.sstatusMask).getLsbD n = true := by
      revert n
      decide
    have hbit := congrArg (·.getLsbD n) hstatus
    simpa only [BitVec.getLsbD_and, hfree, Bool.and_true] using hbit
  · exact view_frame rfl csrWrite_sie (ne_storage (b := Csr.mie) haddr (by decide))
  · obtain ⟨hmachine, -, hview, -⟩ := machineCsr_of_mem_reportCsrs ha
    exact hframe a hmachine hview

end Exec

namespace Core

variable {entry : BitVec 32} {s : Core} {i : CoreIn}

theorem setupKept_step (hle : s.exec.priv ≤ 3) (hbelow : s.exec.priv ≠ privM) :
    Exec.SetupKept s.exec (step entry s i).exec := by
  apply Exec.SetupKept.of_commit
  rcases commit_cases entry s i with ⟨-, cause, tval, epc, hcommit⟩ | ⟨-, ⟨mmode, hcommit⟩, -⟩ |
    ⟨hexec, hcsr, hcommit⟩ | ⟨-, hcommit⟩ <;> rw [hcommit]
  · exact Exec.setupKept_trap hle cause tval epc
  · exact Exec.setupKept_returnFromTrap s.exec mmode
  · exact Exec.setupKept_csrWrite hbelow
      (Exec.not_machineCsr_below hle hbelow (hexec.csr hcsr).1)
  · exact .refl s.exec

/-- From every reachable state on, whatever the inputs are, what M-mode has set up stands as
long as M-mode is not entered, and up to the end of the cycle that enters it. -/
theorem machine_setup_kept (entry : BitVec 32) (s : Core) (hs : Reachable entry s)
    (is : List CoreIn)
    (hbelow : ∀ p ∈ Clocked.trace (step entry) (fun s _ => s.exec.priv) s is, p ≠ privM) :
    Exec.SetupKept s.exec (Clocked.run (step entry) s is).exec := by
  induction is generalizing s with
  | nil => exact .refl s.exec
  | cons i is ih =>
    obtain ⟨hnow, hrest⟩ := List.forall_mem_cons.mp hbelow
    refine (setupKept_step hs.priv_le hnow).trans (ih _ (hs.step i) hrest) fun hend => ?_
    cases is with
    | nil => exact hend
    | cons j is => exact hrest _ (List.mem_cons_self ..)

/-- A program that leaves M-mode and calls it again has changed nothing of the setup when
M-mode is entered. -/
theorem machine_setup_kept_ecall :
    let s := Clocked.run (step 0x80000000) (step 0x80000000 {} { rst := true, rstComb := true })
      (enterSupervisorMode ++ [offer 0x80100000 0x00000073])
    s.exec.priv = privS ∧ (step 0x80000000 s {}).exec.priv = privM ∧
      Exec.SetupKept s.exec (Clocked.run (step 0x80000000) s [{}]).exec := by
  intro s
  have hs : Reachable 0x80000000 s := Clocked.Reachable.run (.start ⟨_, rfl, rfl⟩) _
  have hpriv : s.exec.priv = privS := by decide
  have hbelow : ∀ p ∈ Clocked.trace (step 0x80000000) (fun s _ => s.exec.priv) s [({} : CoreIn)],
      p ≠ privM := by
    intro p hp
    rw [List.mem_singleton.mp hp]
    change s.exec.priv ≠ privM
    rw [hpriv]
    decide
  have hend : (step 0x80000000 s {}).exec.priv = privM := by decide
  exact ⟨hpriv, hend, machine_setup_kept 0x80000000 s hs [{}] hbelow⟩

end Core

end Turtle
