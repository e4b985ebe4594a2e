import Turtle.CoreFacts

/-!
# Privilege without traps

`WFI`, `SFENCE.VMA`, the CSR instructions and `SRET` under `TSR` check the
privilege of the instruction. `MRET` does not, and `SRET` does not in U-mode, so
both take whatever `MPP` and `SPP` hold. This file says exactly when a cycle
without a trap raises the privilege.
-/

namespace Turtle.Core

/-- The cycle executes an instruction and does not trap. -/
def Executes (entry : BitVec 32) (s : Core) (i : CoreIn) : Prop :=
  i.rstComb = false ∧ s.idEx.flush = false ∧ (s.comb entry i).onTrap = false

instance (entry : BitVec 32) (s : Core) (i : CoreIn) : Decidable (Executes entry s i) :=
  inferInstanceAs (Decidable (_ ∧ _ ∧ _))

/-- The instruction in `ID_EX` is not a trap return to a privilege above the
current one. -/
def ReturnsWithin (s : Core) : Prop :=
  (s.idEx.type = .mret → Exec.mppField (s.exec.csrRegs Csr.mstatus) ≤ s.exec.priv) ∧
  (s.idEx.type = .sret → Exec.sppField (s.exec.csrRegs Csr.mstatus) ≤ s.exec.priv)

variable {entry : BitVec 32} {s : Core} {i : CoreIn}

/-- An executed cycle raises `csr_mret` for `MRET` and for nothing else. -/
theorem Executes.csrMret_iff (h : Executes entry s i) :
    (s.comb entry i).csrMret = true ↔ s.idEx.type = .mret := by
  have hfacts : (s.comb entry i).csrMret = true ↔ _ := comb_facts.csrMret_eq
  constructor
  · intro hret
    exact (hfacts.mp hret).2.2.2.2
  · intro htype
    exact hfacts.mpr ⟨h.2.2, h.1, h.2.1, (comb_of_executed h.1 h.2.2 h.2.1).1, htype⟩

/-- An executed cycle raises `csr_sret` for `SRET` and for nothing else. -/
theorem Executes.csrSret_iff (h : Executes entry s i) :
    (s.comb entry i).csrSret = true ↔ s.idEx.type = .sret := by
  have hfacts : (s.comb entry i).csrSret = true ↔ _ := comb_facts.csrSret_eq
  constructor
  · intro hret
    exact (hfacts.mp hret).2.2.2.2
  · intro htype
    exact hfacts.mpr ⟨h.2.2, h.1, h.2.1, (comb_of_executed h.1 h.2.2 h.2.1).1, htype⟩

/-- The privilege after an executed cycle: that of `MPP` after `MRET`, that of
`SPP` after `SRET`, else the old one. -/
theorem Executes.priv_step (h : Executes entry s i) :
    (step entry s i).exec.priv =
      if s.idEx.type = .mret then Exec.mppField (s.exec.csrRegs Csr.mstatus)
      else if s.idEx.type = .sret then Exec.sppField (s.exec.csrRegs Csr.mstatus)
      else s.exec.priv := by
  have htrap := h.2.2
  rw [Core.priv_step]
  by_cases hmret : s.idEx.type = .mret
  · rw [if_pos hmret, Exec.commit_of_mret htrap (h.csrMret_iff.mpr hmret)]
    rfl
  have hnomret : (s.comb entry i).csrMret = false := by
    simpa using fun hret => hmret (h.csrMret_iff.mp hret)
  rw [if_neg hmret]
  by_cases hsret : s.idEx.type = .sret
  · rw [if_pos hsret, Exec.commit_of_sret htrap (h.csrSret_iff.mpr hsret) hnomret]
    rfl
  · have hnosret : (s.comb entry i).csrSret = false := by
      simpa using fun hret => hsret (h.csrSret_iff.mp hret)
    rw [if_neg hsret, Exec.commit_priv_of_no_return htrap hnomret hnosret]

/-- An executed cycle keeps the privilege from rising exactly when it is no
return above the current privilege. -/
theorem Executes.priv_le_iff (h : Executes entry s i) :
    (step entry s i).exec.priv ≤ s.exec.priv ↔ s.ReturnsWithin := by
  rw [h.priv_step]
  unfold ReturnsWithin
  by_cases hmret : s.idEx.type = .mret
  · simp [hmret]
  · by_cases hsret : s.idEx.type = .sret
    · simp [hsret]
    · simp [hmret, hsret]

/-- Over every run, no executed instruction raises the privilege exactly when
every executed trap return stays within the privilege that executes it. -/
theorem no_escalation_iff_returnsWithin (entry : BitVec 32) (s : Core) (is : List CoreIn) :
    (∀ c ∈ Clocked.trace (step entry) Prod.mk s is, Executes entry c.1 c.2 →
      (step entry c.1 c.2).exec.priv ≤ c.1.exec.priv) ↔
    (∀ c ∈ Clocked.trace (step entry) Prod.mk s is, Executes entry c.1 c.2 →
      c.1.ReturnsWithin) := by
  constructor
  · intro h c hc hexec
    exact hexec.priv_le_iff.mp (h c hc hexec)
  · intro h c hc hexec
    exact hexec.priv_le_iff.mpr (h c hc hexec)

/-- The cycle in which the fetch buffer offers `inst` at `pc`. -/
def offer (pc inst : BitVec 32) : CoreIn := { ifId := { ifIdInst := inst, ifIdPc := pc } }

/-- A program that sets the M-mode handler to `0x80200000`, opens all of memory to
lower privileges, and leaves M-mode for `0x80100000` by `SRET`. -/
def enterUserMode : List CoreIn :=
  [offer 0x80000000 0x802002b7,   -- lui x5, 0x80200
   offer 0x80000004 0x30529073,   -- csrrw x0, mtvec, x5
   offer 0x80000008 0x3b059073,   -- csrrw x0, pmpaddr0, x11
   {},
   offer 0x8000000c 0x3a07d073,   -- csrrwi x0, pmpcfg0, 15
   {},
   offer 0x80000010 0x14159073,   -- csrrw x0, sepc, x11
   offer 0x80000014 0x10200073,   -- sret
   {}]

/-- `MRET` executed in U-mode, on a page that the PMP lets U-mode fetch from,
reaches M-mode: the reset value of `MPP` is still there. -/
theorem mret_in_userMode_escalates :
    let s := Clocked.run (step 0x80000000) (step 0x80000000 {} { rst := true, rstComb := true })
      (enterUserMode ++ [offer 0x80100000 0x30200073])
    Reachable 0x80000000 s ∧ Executes 0x80000000 s {} ∧ s.idEx.type = .mret ∧
      s.wb.exPc = 0x80100000 ∧ s.exec.pmpIcheck 0x80100000 4 4 = true ∧ s.exec.priv = privU ∧
      (step 0x80000000 s {}).exec.priv = privM :=
  ⟨Clocked.Reachable.run (.start ⟨_, rfl, rfl⟩) _, by decide, by decide,
    by decide, by decide, by decide, by decide⟩

end Turtle.Core
