import Mathlib.Data.List.ReduceOption
import Turtle.Console

/-!
# Breakpoints and stepping

`next_cycle` stops the machine at a breakpoint but keeps the remaining steps, and a stopped
machine runs again as long as steps remain. A breakpoint therefore holds exactly when no step
remains at the stop. A step request that nothing disturbs runs its number of cycles.
-/

namespace Turtle

namespace Session

open Clocked

/-- What lets a call of `next_cycle` start a stopped machine: `force_run` or a new step count. -/
def Resuming (m : Session) : Prop := m.share.forceRun = true ∨ m.share.newStepCycles ≠ 0

/-- Until a call finds one of these, every call returns 0. -/
def StaysStopped (m : Session) : Prop :=
  ∀ es, (∀ c ∈ trace step Prod.mk m es, ¬ Resuming c.1) → ∀ r ∈ returns m es, r = false

/-- The call returns 0 because the machine runs and EX is at the breakpoint. -/
def BreakStop (m : Session) : SessionEvent → Prop
  | .tick pc => m.tb.state = true ∧ m.share.forceStop = false ∧ m.share.breakpoint = true ∧
      m.share.brkPc = pc
  | _ => False

/-- At every stop at a breakpoint along a run the machine stays stopped. -/
def HoldsBreakpoints (m : Session) (es : List SessionEvent) : Prop :=
  ∀ c ∈ trace step Prod.mk m es, c.1.BreakStop c.2 → (c.1.step c.2).StaysStopped

/-- The steps that a call of `next_cycle` starts with. -/
def remaining (m : Session) : ℤ :=
  if m.share.newStepCycles = 0 then m.tb.stepCycles else m.share.newStepCycles.toInt

variable {m : Session} {e : SessionEvent} {es : List SessionEvent}

theorem load_stepCycles (m : Session) : (m.tb.load m.share).stepCycles = m.remaining := by
  have hpos : 0 < m.share.newStepCycles ↔ ¬ m.share.newStepCycles = 0 :=
    BitVec.pos_iff_ne_zero _
  simp only [TbState.load, remaining, hpos, ite_not]

theorem load_printCycles (m : Session) : (m.tb.load m.share).printCycles =
    if m.share.newPrintCycles = 0 then m.tb.printCycles else m.share.newPrintCycles := by
  have hpos : 0 < m.share.newPrintCycles ↔ ¬ m.share.newPrintCycles = 0 :=
    BitVec.pos_iff_ne_zero _
  simp only [TbState.load, hpos, ite_not]

theorem mem_returns {r : Bool} (h : r ∈ returns m es) :
    ∃ c ∈ trace step Prod.mk m es, c.1.result c.2 = some r := by
  have hmem := List.reduceOption_mem_iff.mp h
  rw [← map_trace (fun c : Session × SessionEvent => c.1.result c.2) Prod.mk] at hmem
  exact List.mem_map.mp hmem

/-! ### Breakpoints -/

/-- The machine is stopped and no step remains. -/
structure Halted (m : Session) : Prop where
  state : m.tb.state = false
  stepCycles : m.tb.stepCycles ≤ 0

theorem Halted.nextCycle (h : m.Halted) (hres : ¬ m.Resuming) (pc : BitVec 32) :
    (m.tb.nextCycle m.share pc).state = false ∧ (m.tb.nextCycle m.share pc).stepCycles ≤ 0 := by
  obtain ⟨hrun, hnew⟩ := not_or.mp hres
  have hsteps : (m.tb.load m.share).stepCycles ≤ 0 := by
    rw [load_stepCycles, remaining, if_pos (not_not.mp hnew)]
    exact h.stepCycles
  have hswitch : (m.tb.load m.share).switch m.share pc = m.tb.load m.share := by
    have hstate : (m.tb.load m.share).state = false := h.state
    rw [TbState.switch, if_pos hstate, if_neg hrun, if_neg (not_lt.mpr hsteps)]
  rw [TbState.nextCycle, hswitch]
  refine ⟨h.state, ?_⟩
  rw [TbState.count, if_neg (not_lt.mpr hsteps)]
  exact hsteps

theorem Halted.step (h : m.Halted) (hres : ¬ m.Resuming) (e : SessionEvent) :
    (m.step e).Halted := by
  cases e with
  | command s => exact ⟨h.state, h.stepCycles⟩
  | tick pc => exact ⟨(h.nextCycle hres pc).1, (h.nextCycle hres pc).2⟩
  | uart uartBuf timeirq => exact ⟨h.state, h.stepCycles⟩

theorem Halted.staysStopped (h : m.Halted) : m.StaysStopped := by
  intro es hes r hr
  have hstep : ∀ (m : Session) (e : SessionEvent), m.Halted → ¬ m.Resuming → (m.step e).Halted :=
    fun _ e hm hres => hm.step hres e
  have hrun := (allowed_run hstep h hes).2
  obtain ⟨⟨m', e⟩, hc, hresult⟩ := mem_returns hr
  cases e with
  | tick pc =>
    have hstate := ((hrun _ hc).nextCycle (hes _ hc) pc).1
    exact (Option.some.inj hresult).symm.trans hstate
  | command s => cases hresult
  | uart uartBuf timeirq => cases hresult

/-- The stop takes the requests away and keeps the remaining steps. -/
theorem BreakStop.step (h : m.BreakStop e) :
    (m.step e).tb.state = false ∧ (m.step e).tb.stepCycles = m.remaining ∧
      ¬ (m.step e).Resuming := by
  cases e with
  | command s => exact h.elim
  | uart uartBuf timeirq => exact h.elim
  | tick pc =>
    obtain ⟨hstate, hstop, hbreak, hpc⟩ := h
    have hrunning : ¬ (m.tb.load m.share).state = false := by
      rw [Bool.not_eq_false]
      exact hstate
    have hgo : ¬ m.share.forceStop = true := by rwa [Bool.not_eq_true]
    have hswitch : (m.tb.load m.share).switch m.share pc =
        { m.tb.load m.share with state := false } := by
      rw [TbState.switch, if_neg hrunning, if_neg hgo,
        if_pos ⟨hbreak, hpc⟩]
    have hnext : (m.step (.tick pc)).tb = TbState.count { m.tb.load m.share with state := false } :=
      congrArg TbState.count hswitch
    rw [hnext]
    refine ⟨rfl, ?_, by simp [Resuming, Session.step, SharedState.taken]⟩
    rw [← load_stepCycles]
    simp [TbState.count]

/-- Steps that remain let the machine go on at the next tick. -/
theorem BreakStop.staysStopped_iff (h : m.BreakStop e) :
    (m.step e).StaysStopped ↔ m.remaining ≤ 0 := by
  obtain ⟨hstate, hsteps, hres⟩ := h.step
  constructor
  · intro hstays
    by_contra hpos
    have hload : 0 < ((m.step e).tb.load (m.step e).share).stepCycles := by
      rw [load_stepCycles, remaining, if_pos (not_not.mp (not_or.mp hres).2), hsteps]
      exact not_le.mp hpos
    have hswitch : (((m.step e).tb.load (m.step e).share).switch (m.step e).share 0).state =
        true := by
      have hload' : ((m.step e).tb.load (m.step e).share).state = false := hstate
      rw [TbState.switch, if_pos hload', if_neg (not_or.mp hres).1, if_pos hload]
    have hfalse : ((m.step e).tb.nextCycle (m.step e).share 0).state = false := by
      refine hstays [.tick 0] ?_ _ List.mem_cons_self
      intro c hc
      rwa [List.mem_singleton.mp hc]
    exact Bool.false_ne_true (hfalse.symm.trans hswitch)
  · intro hle
    exact Halted.staysStopped ⟨hstate, hsteps.trans_le hle⟩

/-- Along a run breakpoints hold exactly when no step remains at any stop. -/
theorem holdsBreakpoints_iff (m : Session) (es : List SessionEvent) :
    HoldsBreakpoints m es ↔
      ∀ c ∈ trace step Prod.mk m es, c.1.BreakStop c.2 → c.1.remaining ≤ 0 :=
  forall₂_congr fun _ _ => forall_congr' fun h => h.staysStopped_iff

/-- A breakpoint at 4 with two of three steps left: the machine goes on by itself. -/
theorem breakpoint_not_held : ¬ HoldsBreakpoints {}
    [.command (text ['b', ' ', '4']), .command (text ['s', 't', 'e', 'p', ' ', '3']), .tick 0,
      .tick 4] := by
  intro h
  have hstop := h (run step {} [.command (text ['b', ' ', '4']),
    .command (text ['s', 't', 'e', 'p', ' ', '3']), .tick 0], .tick 4)
    (by simp) ⟨by decide, by decide, by decide, by decide⟩
  have hfalse : true = false := by
    refine hstop [.tick 4] ?_ true (by decide)
    intro c hc
    rw [List.mem_singleton.mp hc]
    simp [Resuming, step, SharedState.taken]
  cases hfalse

/-! ### Steps -/

/-- The machine is stopped, no step remains, and nothing else can change that. -/
structure AwaitsRequest (m : Session) : Prop extends Halted m where
  breakpoint : m.share.breakpoint = false
  forceRun : m.share.forceRun = false
  forceStop : m.share.forceStop = false
  newStepCycles : m.share.newStepCycles = 0
  newPrintCycles : m.share.newPrintCycles = 0

/-- A step request, and a print request given with it when `p` is not zero. -/
def request (m : Session) (n p : BitVec 32) : Session :=
  { m with share := { m.share with newStepCycles := n, newPrintCycles := p } }

/-- No command is given. -/
def Undisturbed (es : List SessionEvent) : Prop := ∀ s, SessionEvent.command s ∉ es

/-- The calls of `next_cycle` along a run. -/
def ticks (es : List SessionEvent) : ℕ := es.countP SessionEvent.isTick

/-- The machine runs `j` more cycles, and `k` more are printed while it does. -/
structure Counting (m : Session) (j k : ℕ) : Prop where
  breakpoint : m.share.breakpoint = false
  forceRun : m.share.forceRun = false
  forceStop : m.share.forceStop = false
  steps : (m.tb.load m.share).stepCycles = j
  prints : (m.tb.load m.share).printCycles.toNat = k

variable {j k : ℕ} {n p : BitVec 32}

theorem toNat_count_printCycles (tb : TbState) :
    tb.count.printCycles.toNat = tb.printCycles.toNat - tb.state.toNat := by
  change (if 0 < tb.printCycles then tb.printCycles - (if tb.state = true then 1 else 0)
    else tb.printCycles).toNat = _
  by_cases h : 0 < tb.printCycles
  · have hone : (1 : BitVec 32) ≤ tb.printCycles := h
    rw [if_pos h]
    cases tb.state
    · exact congrArg BitVec.toNat (BitVec.sub_zero _)
    · exact BitVec.toNat_sub_of_le hone
  · have hzero : tb.printCycles = 0 := BitVec.le_zero_iff.mp (BitVec.not_lt.mp h)
    rw [if_neg h, hzero]
    exact (Nat.zero_sub _).symm

theorem count_stepCycles {tb : TbState} (h : tb.stepCycles = j) :
    tb.count.stepCycles = (j - tb.state.toNat : ℕ) := by
  change (if 0 < tb.stepCycles then tb.stepCycles - (if tb.state = true then 1 else 0)
    else tb.stepCycles) = _
  rw [h]
  cases tb.state
  · simp
  · rw [if_pos rfl, Bool.toNat_true]
    split_ifs <;> omega

/-- The machine runs in this cycle exactly when a cycle is left. -/
theorem Counting.switch (h : m.Counting j k) (pc : BitVec 32) :
    (m.tb.load m.share).switch m.share pc =
      { m.tb.load m.share with state := decide (0 < j) } := by
  obtain ⟨hbreak, hrun, hstop, hsteps, -⟩ := h
  have hleft : 0 < (m.tb.load m.share).stepCycles ↔ 0 < j := by
    rw [hsteps, Int.natCast_pos]
  have hnone : (m.tb.load m.share).stepCycles = 0 ↔ ¬ 0 < j := by
    rw [hsteps, Int.natCast_eq_zero, Nat.not_lt, Nat.le_zero]
  generalize m.tb.load m.share = tb at hleft hnone ⊢
  obtain ⟨state, stepCycles, printCycles⟩ := tb
  cases state with
  | false =>
    rw [TbState.switch, if_pos rfl, hrun, if_neg Bool.false_ne_true]
    by_cases hj : 0 < j
    · rw [if_pos (hleft.mpr hj), decide_eq_true hj]
    · rw [if_neg (mt hleft.mp hj), decide_eq_false hj]
  | true =>
    have hfar : ¬ (m.share.breakpoint = true ∧ m.share.brkPc = pc) := by
      rw [hbreak]
      exact fun h => Bool.false_ne_true h.1
    rw [TbState.switch, if_neg (Ne.symm Bool.false_ne_true), hstop, if_neg Bool.false_ne_true,
      if_neg hfar]
    by_cases hj : 0 < j
    · rw [if_neg (mt hnone.mp (not_not.mpr hj)), decide_eq_true hj]
    · rw [if_pos (hnone.mpr hj), decide_eq_false hj]

theorem Counting.tick (h : m.Counting j k) (pc : BitVec 32) :
    m.result (.tick pc) = some (decide (0 < j)) ∧
      (m.step (.tick pc)).Counting (j - 1) (k - min j 1) := by
  have hload : (m.step (.tick pc)).tb.load (m.step (.tick pc)).share =
      m.tb.nextCycle m.share pc := by
    simp [step, TbState.load, SharedState.taken]
  have hran : (decide (0 < j)).toNat = min j 1 := by
    cases j with
    | zero => rfl
    | succ j => exact (Nat.min_eq_right (Nat.succ_pos j)).symm
  have hone : j - min j 1 = j - 1 := by omega
  have hnext : ∃ tb : TbState, m.tb.nextCycle m.share pc = tb.count ∧
      tb.state = decide (0 < j) ∧ tb.stepCycles = j ∧ tb.printCycles.toNat = k :=
    ⟨_, congrArg TbState.count (h.switch pc), rfl, h.steps, h.prints⟩
  obtain ⟨tb, hnext, hstate, hsteps, hprints⟩ := hnext
  refine ⟨?_, h.breakpoint, rfl, rfl, ?_, ?_⟩
  · rw [result, hnext]
    exact congrArg some hstate
  · rw [hload, hnext, count_stepCycles hsteps, hstate, hran, hone]
  · rw [hload, hnext, toNat_count_printCycles, hstate, hran, hprints]

/-- Typed lines and `plat_update` do not count. -/
theorem Counting.uart (h : m.Counting j k) (uartBuf : List (BitVec 8)) (timeirq : Bool) :
    (m.step (.uart uartBuf timeirq)).Counting j k :=
  ⟨h.breakpoint, h.forceRun, h.forceStop, h.steps, h.prints⟩

theorem Undisturbed.tail (h : Undisturbed (e :: es)) : Undisturbed es :=
  fun s hs => h s (List.mem_cons_of_mem _ hs)

/-- Without commands the cycles that are left run, and no more. -/
theorem Counting.run (h : m.Counting j k) (hes : Undisturbed es) :
    returns m es = List.replicate (min j (ticks es)) true ++
        List.replicate (ticks es - j) false ∧
      (Clocked.run step m es).Counting (j - ticks es) (k - min j (ticks es)) := by
  induction es generalizing m j k with
  | nil => simpa [returns, ticks] using h
  | cons e es ih =>
    cases e with
    | command s => exact absurd List.mem_cons_self (hes s)
    | uart uartBuf timeirq => exact ih (h.uart uartBuf timeirq) hes.tail
    | tick pc =>
      obtain ⟨hresult, hnext⟩ := h.tick pc
      obtain ⟨hreturns, hrun⟩ := ih hnext hes.tail
      have hticks : ticks (.tick pc :: es) = ticks es + 1 := List.countP_cons_of_pos rfl
      have hcons : returns m (.tick pc :: es) =
          decide (0 < j) :: returns (m.step (.tick pc)) es := by
        rw [returns, trace_cons, hresult, List.reduceOption_cons_of_some]
        rfl
      have hfirst : min j (ticks es + 1) = min j 1 + min (j - 1) (ticks es) := by omega
      have hlast : j - (ticks es + 1) = j - 1 - ticks es := by omega
      rw [hcons, hreturns, hticks]
      refine ⟨?_, ?_⟩
      · cases j with
        | zero => simp [List.replicate_succ]
        | succ j => simp [List.replicate_succ]
      · rwa [hfirst, hlast, ← Nat.sub_sub]

/-- The first call takes the print request. -/
theorem newPrintCycles_run (hes : Undisturbed es) (h : 0 < ticks es) :
    (run step m es).share.newPrintCycles = 0 := by
  induction es generalizing m with
  | nil => cases h
  | cons e es ih =>
    cases e with
    | command s => exact absurd List.mem_cons_self (hes s)
    | uart uartBuf timeirq => exact ih hes.tail h
    | tick pc =>
      have htaken : (m.step (.tick pc)).share.newPrintCycles = 0 := rfl
      rw [run_cons]
      refine invariant_run (P := fun m : Session => m.share.newPrintCycles = 0) ?_ htaken
      intro m hm e he
      cases e with
      | command s => exact absurd he (hes.tail s)
      | tick pc => rfl
      | uart uartBuf timeirq => exact hm

/-- A request makes the machine count. -/
theorem AwaitsRequest.request (h : m.AwaitsRequest) {n : ℕ} (hpos : 0 < n) (hlt : n < 2 ^ 31)
    (p : BitVec 32) : (m.request (BitVec.ofNat 32 n) p).Counting n
      (if p = 0 then m.tb.printCycles else p).toNat := by
  have htoNat : (BitVec.ofNat 32 n).toNat = n := Nat.mod_eq_of_lt (by omega)
  have hne : ¬ BitVec.ofNat 32 n = 0 := by
    intro hzero
    rw [hzero] at htoNat
    exact hpos.ne htoNat
  have htoInt : (BitVec.ofNat 32 n).toInt = n := by
    rw [BitVec.toInt_eq_toNat_of_lt (by omega), htoNat]
  refine ⟨h.breakpoint, h.forceRun, h.forceStop, ?_, ?_⟩
  · rw [load_stepCycles]
    exact (if_neg hne).trans htoInt
  · rw [load_printCycles]
    rfl

/-- A request for `n` steps runs exactly `n` cycles, and a print request given with it loses
one for each of them as long as any is left. -/
theorem steps_exactly (m : Session) (hm : m.AwaitsRequest) (n : ℕ) (hpos : 0 < n)
    (hlt : n < 2 ^ 31) (p : BitVec 32) (es : List SessionEvent) (hes : Undisturbed es) :
    returns (m.request (BitVec.ofNat 32 n) p) es =
        List.replicate (min n (ticks es)) true ++ List.replicate (ticks es - n) false ∧
      (p ≠ 0 → n ≤ ticks es →
        (run step (m.request (BitVec.ofNat 32 n) p) es).tb.printCycles.toNat =
          p.toNat - min p.toNat n) := by
  obtain ⟨hreturns, hrun⟩ := (hm.request hpos hlt p).run hes
  refine ⟨hreturns, ?_⟩
  intro hp hn
  have htaken := newPrintCycles_run (m := m.request (BitVec.ofNat 32 n) p) hes (by omega)
  have hprints := hrun.prints
  rw [load_printCycles, if_pos htaken, if_neg hp] at hprints
  rw [hprints]
  omega

/-- Two steps with a print request for five cycles, and three calls. -/
theorem steps_exactly_two :
    returns (({} : Session).request 2 5) [.tick 0, .tick 4, .uart [] false, .tick 8] =
        [true, true, false] ∧
      ((5 : BitVec 32) ≠ 0 → 2 ≤ 3 →
        (run step (({} : Session).request 2 5)
          [.tick 0, .tick 4, .uart [] false, .tick 8]).tb.printCycles.toNat = 3) :=
  steps_exactly {} ⟨⟨rfl, by decide⟩, rfl, rfl, rfl, rfl, rfl⟩ 2 (by decide) (by decide) 5
    [.tick 0, .tick 4, .uart [] false, .tick 8] (by simp [Undisturbed])

end Session

end Turtle
