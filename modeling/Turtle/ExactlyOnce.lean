import Turtle.DataPath

/-!
# Every data access happens once

A memory instruction waits in EXEC while its request goes through the DMMU and
memory, three cycles at most. It ends in an interrupt before the request is sent, in
a fault, or in one final request that memory answers, carries out at the next edge
and never sees again.
-/

namespace Turtle.DataPath

variable {δ : Type} (devices : List (Device δ)) (entry : BitVec 32)

/-- The states of a run, by cycle. -/
def after (s : DataPath δ) (i : ℕ → DataIn δ) : ℕ → DataPath δ
  | 0 => s
  | k + 1 => step devices entry (after s i k) (i k)

/-- The final request of an access is out, and memory accepts it. -/
def FinalRequest (s : DataPath δ) : Prop :=
  s.dmmu.dState = .access ∧ s.dmmu.dmmuToMem.dmemReqAck = true ∧ s.dout.memRspAck = true

/-- `update_memory` carries out a store, an AMO or a reservation in this cycle. -/
def Commits (s : DataPath δ) : Prop := Memory.Applies s.dmmu.dmmuToMem s.dout

/-- The value with which a memory instruction retires. -/
def rdValueOf (type : InstrType) (rdata : BitVec 32) : BitVec 32 :=
  if type = .lb then signExtend rdata 8 else if type = .lh then signExtend rdata 16 else rdata

/-- The ways in which a memory instruction leaves EXEC. -/
inductive Ending
  | interrupt | fault | retire
  deriving DecidableEq

/-- What happens along cycles 0 to `n` in each of them. -/
def EndsAs (s : DataPath δ) (i : ℕ → DataIn δ) (n : ℕ) : Ending → Prop
  | .interrupt => n = 0 ∧ (s.core.comb entry (s.coreIn (i 0))).onTrap = true ∧
      s.core.exec.checkInterrupt (i 0).platform =
        some (s.core.comb entry (s.coreIn (i 0))).cause ∧
      (s.out entry (i 0)).exToDmmu.dmemReqAck = false ∧ ¬ s.FinalRequest ∧ ¬ s.Commits
  | .fault =>
      let t := after devices entry s i
      (∀ k ≤ n, ¬ (t k).Commits) ∧ (t n).dmmuRsp.mmuRspAck = true ∧
        (t n).dmmuRsp.mmuRspFault ≠ 0 ∧
        ((t n).core.comb entry ((t n).coreIn (i n))).onTrap = true ∧
        ((t n).core.comb entry ((t n).coreIn (i n))).cause =
          (t n).dmmuRsp.mmuRspFault.setWidth 32
  | .retire =>
      let t := after devices entry s i
      (∀ k ≤ n, (t k).FinalRequest ↔ k = n) ∧
        (∃ addr, (t n).dmmu.dmmuToMem = { s.core.idEx.request with dmemAddr := addr }) ∧
        (t n).dout.memRspFault = 0 ∧
        (∀ k ≤ n, (t k).Commits ↔ k = n ∧ s.core.idEx.type.group ∈ [.store, .atomic]) ∧
        ((t n).core.comb entry ((t n).coreIn (i n))).onTrap = false ∧
        (t (n + 1)).core.wb.wbWriteRd = s.core.idEx.writesRd ∧
        (t (n + 1)).core.wb.wbRd = s.core.idEx.rd ∧
        (t (n + 1)).core.wb.wbRdVal = rdValueOf s.core.idEx.type (t n).dout.memRspRdata

/-- The instruction in EXEC stays for cycles 0 to `n` and leaves in the given way. Only
the first of them ends in an interrupt. -/
structure Ends (s : DataPath δ) (i : ℕ → DataIn δ) (n : ℕ) (o : Ending) : Prop where
  waits : ∀ k < n, let t := after devices entry s i k
    (t.core.comb entry (t.coreIn (i k))).stall = true ∧
      (after devices entry s i (k + 1)).core.idEx = s.core.idEx
  ends : let t := after devices entry s i n
    (t.core.comb entry (t.coreIn (i n))).stall = false
  interrupts : ∀ k ≤ n, let t := after devices entry s i k
    (t.core.takesInterrupt (t.coreIn (i k)) = true ↔ o = .interrupt)
  outcome : EndsAs devices entry s i n o

variable {devices entry} {s : DataPath δ} {i : ℕ → DataIn δ} {n : ℕ} {o : Ending}

theorem after_succ (k : ℕ) : after devices entry s i (k + 1) =
    after devices entry (step devices entry s (i 0)) (fun j => i (j + 1)) k := by
  induction k with
  | zero => rfl
  | succ k ih =>
    rw [after, ih]
    rfl

/-- A statement about every cycle of a stay follows from its first cycle and the rest. -/
theorem forall_after {P : ℕ → DataPath δ → Prop} (hfirst : P 0 s)
    (hrest : ∀ k ≤ n, P (k + 1)
      (after devices entry (step devices entry s (i 0)) (fun j => i (j + 1)) k)) :
    ∀ k ≤ n + 1, P k (after devices entry s i k) := by
  intro k hk
  cases k with
  | zero => exact hfirst
  | succ k =>
    rw [after_succ]
    exact hrest k (by omega)

/-- A waiting cycle that neither sends the final request nor commits changes nothing in
how the stay ends. -/
theorem EndsAs.cons (hkeep : (step devices entry s (i 0)).core.idEx = s.core.idEx)
    (hfinal : ¬ s.FinalRequest) (hcommit : ¬ s.Commits) (ho : o ≠ .interrupt)
    (h : EndsAs devices entry (step devices entry s (i 0)) (fun j => i (j + 1)) n o) :
    EndsAs devices entry s i (n + 1) o := by
  cases o with
  | interrupt => exact absurd rfl ho
  | fault =>
    obtain ⟨hnone, hrest⟩ := h
    refine ⟨forall_after (P := fun _ t => ¬ t.Commits) hcommit hnone, ?_⟩
    rw [after_succ n]
    exact hrest
  | retire =>
    obtain ⟨honce, haddr, hok, hcommits, hrest⟩ := h
    rw [hkeep] at haddr hcommits hrest
    refine ⟨forall_after (P := fun k t => t.FinalRequest ↔ k = n + 1) ?_ ?_, ?_, ?_,
      forall_after (P := fun k t => t.Commits ↔ k = n + 1 ∧ _) ?_ ?_, ?_⟩
    · exact iff_of_false hfinal (by omega)
    · intro k hk
      rw [honce k hk]
      omega
    · rw [after_succ n]
      exact haddr
    · rw [after_succ n]
      exact hok
    · exact iff_of_false hcommit (by omega)
    · intro k hk
      rw [hcommits k hk]
      exact and_congr_left' (by omega)
    · rw [after_succ n, after_succ (n + 1)]
      exact hrest

/-- A cycle in which the instruction waits comes before the rest of its stay. -/
theorem Ends.cons (hstall : (s.core.comb entry (s.coreIn (i 0))).stall = true)
    (hint : s.core.takesInterrupt (s.coreIn (i 0)) = false) (hfinal : ¬ s.FinalRequest)
    (hcommit : ¬ s.Commits) (ho : o ≠ .interrupt)
    (h : Ends devices entry (step devices entry s (i 0)) (fun j => i (j + 1)) n o) :
    Ends devices entry s i (n + 1) o := by
  have hkeep : (step devices entry s (i 0)).core.idEx = s.core.idEx := Core.idEx_of_stall hstall
  refine ⟨fun k hk => ?_, ?_, ?_, h.outcome.cons hkeep hfinal hcommit ho⟩
  · cases k with
    | zero => exact ⟨hstall, hkeep⟩
    | succ k =>
      rw [after_succ k, after_succ (k + 1)]
      have hwaits := h.waits k (by omega)
      exact ⟨hwaits.1, hwaits.2.trans hkeep⟩
  · rw [after_succ n]
    exact h.ends
  · exact forall_after
      (P := fun k t => t.core.takesInterrupt (t.coreIn (i k)) = true ↔ o = .interrupt)
      (by simp [hint, ho]) h.interrupts

/-! ### The last cycle -/

theorem no_commit_of_no_request (hs : s.Answered devices)
    (h : s.dmmu.dmmuToMem.dmemReqAck = false) : ¬ s.Commits := by
  intro hcommit
  have hack := hcommit.1
  rw [hs.ack, h] at hack
  cases hack

/-- The endings other than an interrupt. -/
def EndsWithin (devices : List (Device δ)) (entry : BitVec 32) (s : DataPath δ)
    (i : ℕ → DataIn δ) (bound : ℕ) : Prop :=
  ∃ n ≤ bound, ∃ o ≠ Ending.interrupt, Ends devices entry s i n o

theorem EndsWithin.mono {bound bound' : ℕ} (h : EndsWithin devices entry s i bound)
    (hle : bound ≤ bound') : EndsWithin devices entry s i bound' := by
  obtain ⟨n, hn, hends⟩ := h
  exact ⟨n, hn.trans hle, hends⟩

theorem Ends.unique {n' : ℕ} {o' : Ending} (h : Ends devices entry s i n o)
    (h' : Ends devices entry s i n' o') : n = n' ∧ o = o' := by
  have hn : n = n' := by
    rcases Nat.lt_trichotomy n n' with hlt | heq | hlt
    · exact absurd ((h'.waits n hlt).1.symm.trans h.ends) (by decide)
    · exact heq
    · exact absurd ((h.waits n' hlt).1.symm.trans h'.ends) (by decide)
  subst hn
  refine ⟨rfl, ?_⟩
  have hint := (h.interrupts n le_rfl).symm.trans (h'.interrupts n le_rfl)
  cases o with
  | interrupt => exact (hint.mp rfl).symm
  | fault =>
    cases o' with
    | interrupt => exact absurd (hint.mpr rfl) (by decide)
    | fault => rfl
    | retire => exact absurd (h.outcome.2.2.2.1.symm.trans h'.outcome.2.2.2.2.1) (by decide)
  | retire =>
    cases o' with
    | interrupt => exact absurd (hint.mpr rfl) (by decide)
    | fault => exact absurd (h'.outcome.2.2.2.1.symm.trans h.outcome.2.2.2.2.1) (by decide)
    | retire => rfl

end Turtle.DataPath
