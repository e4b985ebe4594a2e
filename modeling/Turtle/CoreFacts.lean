import Turtle.Core
import Turtle.DecodeFacts
import Turtle.Exec.SeqFacts

/-!
# One cycle of Decode and EXEC

The facts about single cycles that the results about runs share: which cycles
reset, stall, trap or pass a bubble, where `ex_pc` goes, and what the `ID_EX`
register can hold.
-/

namespace Turtle.Core

variable {entry : BitVec 32} {s : Core} {i : CoreIn}

theorem comb_facts : Exec.CombFacts (s.execIn entry i) (s.comb entry i) :=
  Exec.execComb_facts i.fault_ack

theorem comb_of_rst (h : i.rstComb = true) :
    s.comb entry i = { epc := s.wb.exPc, npc := entry } := by
  unfold comb Exec.execComb execIn
  simp only [h, if_true]

theorem npc_of_rst (h : i.rstComb = true) : (s.out entry i).npc = entry := by
  simp [out, Exec.execOut, Exec.npcOut, comb_of_rst h]

/-- `ex_pc` moves to the computed next pc, which is the entry point in a reset. -/
theorem exPc_step : (step entry s i).wb.exPc = (s.out entry i).npc := by
  unfold step writebackSeq
  dsimp only
  split
  · rename_i hrst
    exact (npc_of_rst (i.rst_held hrst)).symm
  · rfl

/-- A bubble that no interrupt meets repeats its pc. -/
theorem comb_of_bubble (hrst : i.rstComb = false) (htrap : (s.comb entry i).onTrap = false)
    (hflush : s.idEx.flush = true) :
    s.comb entry i = { epc := s.wb.exPc, npc := s.wb.exPc } := by
  rcases s.exec.execComb_cases (s.execIn entry i) with ⟨h, -⟩ | ⟨-, cause, -, h⟩ | ⟨-, -, h⟩ |
    ⟨-, h, -⟩ | ⟨-, h, -⟩
  · simp [execIn, hrst] at h
  · simp [comb, h] at htrap
  · exact h
  · simp [execIn, hflush] at h
  · simp [execIn, hflush] at h

/-- A cycle with an instruction in `ID_EX` and neither a reset nor a trap executes
that instruction. -/
theorem comb_of_executed (hrst : i.rstComb = false) (htrap : (s.comb entry i).onTrap = false)
    (hflush : s.idEx.flush = false) :
    s.idEx.onTrap = false ∧ s.comb entry i =
      s.exec.execType (s.execIn entry i) (Exec.executeStart (s.execIn entry i)) := by
  rcases s.exec.execComb_cases (s.execIn entry i) with ⟨h, -⟩ | ⟨-, cause, -, h⟩ | ⟨-, h, -⟩ |
    ⟨-, -, -, h⟩ | ⟨-, -, hmark, h⟩
  · simp [execIn, hrst] at h
  · simp [comb, h] at htrap
  · simp [execIn, hflush] at h
  · simp [comb, h] at htrap
  · exact ⟨hmark, h⟩

/-- A cycle that traps does not stall. -/
theorem stall_of_trap (h : (s.comb entry i).onTrap = true) : (s.comb entry i).stall = false := by
  by_contra hstall
  have hquiet := comb_facts.stall_quiet (by simpa using hstall)
  simp [h] at hquiet

/-! A clock edge leaves EXEC as `commit` does, up to the timers. -/

theorem priv_step : (step entry s i).exec.priv =
    (s.exec.commit s.idEx (s.comb entry i)).priv := Exec.execSeq_priv

theorem pmp_step : (step entry s i).exec.pmp =
    (s.exec.commit s.idEx (s.comb entry i)).pmp := Exec.execSeq_pmp

theorem csrRegs_step {a : BitVec 12} (ha : ¬ Exec.IsTimerCsr a) : (step entry s i).exec.csrRegs a =
    (s.exec.commit s.idEx (s.comb entry i)).csrRegs a := Exec.execSeq_csrRegs ha

/-- The privilege that a trap enters. -/
theorem priv_of_trap (h : (s.comb entry i).onTrap = true) : (step entry s i).exec.priv =
    if s.exec.delegatedToS (s.comb entry i).cause then privS else privM := by
  rw [priv_step, Exec.commit_of_trap h, Exec.trap_priv]

/-- A stalled cycle repeats its pc. -/
theorem npc_of_stall (h : (s.comb entry i).stall = true) : (s.out entry i).npc = s.wb.exPc := by
  obtain ⟨htrap, -, hmret, hsret⟩ := comb_facts.stall_quiet h
  simp [out, Exec.execOut, Exec.npcOut, htrap, hmret, hsret, h, execIn]

/-- A reset edge leaves a bubble in `ID_EX`. -/
theorem idEx_of_rst (entry : BitVec 32) (s : Core) (h : i.rst = true) :
    (step entry s i).idEx = bubble := by
  have hcomb : s.comb entry i = _ := comb_of_rst (i.rst_held h)
  change instDecodeSeq _ _ _ _ _ _ _ = bubble
  simp [instDecodeSeq, out, Exec.execOut, hcomb, h]

theorem wbStall_step (hrst : i.rst = false) :
    (step entry s i).wb.wbStall = (s.comb entry i).stall := by
  change (writebackSeq _ _ _ _).wbStall = _
  simp [writebackSeq, hrst, out, Exec.execOut]

theorem idEx_of_stall (h : (s.comb entry i).stall = true) : (step entry s i).idEx = s.idEx := by
  change instDecodeSeq _ _ _ _ _ _ _ = _
  simp [instDecodeSeq, out, Exec.execOut, h]

/-- `ID_EX` holds a bubble or an instruction that the decode stage latched. -/
def HoldsLatched (s : Core) : Prop := s.idEx = bubble ∨ ∃ f j, s.idEx = latch f j

theorem HoldsLatched.latched (h : HoldsLatched s) : Latched s.idEx := by
  rcases h with h | ⟨f, j, h⟩
  · rw [h]
    exact latched_bubble
  · rw [h]
    exact (latch_latched f j).1

theorem bubble_of_flush (hs : HoldsLatched s) (h : s.idEx.flush = true) : s.idEx = bubble := by
  rcases hs with hbubble | ⟨f, j, hlatch⟩
  · exact hbubble
  · rw [hlatch, latch_flush] at h
    cases h

/-- The edge leaves a record in `ID_EX` that was there or was just latched. -/
theorem HoldsLatched.step (h : HoldsLatched s) : HoldsLatched (step entry s i) := by
  rcases instDecodeSeq_cases i.rst (s.out entry i).stall (s.out entry i).flush (s.out entry i).npc
    (s.forward entry i) i.ifId s.idEx with ⟨-, hkeep⟩ | ⟨-, -, -, -, hlatch⟩ | ⟨-, hbubble⟩
  · rcases h with h | ⟨f, j, h⟩
    · exact .inl (hkeep.trans h)
    · exact .inr ⟨f, j, hkeep.trans h⟩
  · exact .inr ⟨_, _, hlatch⟩
  · exact .inl hbubble

theorem holdsLatched_of_rst (h : i.rst = true) : HoldsLatched (step entry s i) :=
  .inl (idEx_of_rst entry s h)

/-- Every record that waits in `ID_EX` was latched by the decode stage. -/
theorem Reachable.holdsLatched (h : Reachable entry s) : HoldsLatched s := by
  refine Clocked.Reachable.invariant (P := HoldsLatched) ?_ (fun _ _ => HoldsLatched.step) h
  rintro s ⟨i, hrst, rfl⟩
  exact holdsLatched_of_rst hrst

end Turtle.Core
