import Mathlib.Algebra.BigOperators.Group.List.Basic
import Mathlib.Data.List.Induction

/-!
# Clocked machines

A deterministic machine is a step function on states and inputs. A run feeds it a
list of inputs; an observation of every step gives the trace of the run. The
rules below turn facts about one step into facts about whole runs.
-/

namespace Clocked

variable {σ ι ω : Type*} (step : σ → ι → σ)

/-- The state after a list of inputs. -/
def run (s : σ) (is : List ι) : σ := is.foldl step s

/-- The observations made along a run, oldest first. -/
def trace (obs : σ → ι → ω) : σ → List ι → List ω
  | _, [] => []
  | s, i :: is => obs s i :: trace obs (step s i) is

/-- The states that some run from a start state visits. -/
inductive Reachable (start : σ → Prop) : σ → Prop
  | start {s : σ} : start s → Reachable start s
  | step {s : σ} (i : ι) : Reachable start s → Reachable start (step s i)

variable {step}

@[simp] theorem run_nil (s : σ) : run step s [] = s := rfl

@[simp] theorem run_cons (s : σ) (i : ι) (is : List ι) :
    run step s (i :: is) = run step (step s i) is := rfl

@[simp] theorem trace_nil (obs : σ → ι → ω) (s : σ) : trace step obs s [] = [] := rfl

@[simp] theorem trace_cons (obs : σ → ι → ω) (s : σ) (i : ι) (is : List ι) :
    trace step obs s (i :: is) = obs s i :: trace step obs (step s i) is := rfl

theorem run_append (s : σ) (is js : List ι) :
    run step s (is ++ js) = run step (run step s is) js := List.foldl_append ..

/-- What every input of a run preserves holds at its end. -/
theorem invariant_run {P : σ → Prop} {is : List ι}
    (hstep : ∀ s, P s → ∀ i ∈ is, P (step s i)) {s : σ} (hs : P s) : P (run step s is) :=
  List.foldlRecOn is step hs hstep

/-- A feature that every step keeps under an invariant is kept by a run. -/
theorem kept_run {P : σ → Prop} {f : σ → ω} (hstep : ∀ s i, P s → P (step s i))
    (hkeep : ∀ s i, P s → f (step s i) = f s) {s : σ} (hs : P s) (is : List ι) :
    f (run step s is) = f s := by
  have hboth : P (run step s is) ∧ f (run step s is) = f s := by
    refine invariant_run (P := fun t => P t ∧ f t = f s) (fun t ht i _ => ?_) ⟨hs, rfl⟩
    exact ⟨hstep t i ht.1, (hkeep t i ht.1).trans ht.2⟩
  exact hboth.2

theorem length_trace (obs : σ → ι → ω) (s : σ) (is : List ι) :
    (trace step obs s is).length = is.length := by
  induction is generalizing s with
  | nil => rfl
  | cons i is ih => rw [trace_cons, List.length_cons, List.length_cons, ih]

/-- An invariant of the start states that every step preserves holds in every
reachable state. -/
theorem Reachable.invariant {start P : σ → Prop} (hstart : ∀ s, start s → P s)
    (hstep : ∀ s i, P s → P (step s i)) {s : σ} (h : Reachable step start s) : P s := by
  induction h with
  | start hs => exact hstart _ hs
  | step i _ ih => exact hstep _ i ih

/-- A run from a reachable state ends in a reachable state. -/
theorem Reachable.run {start : σ → Prop} {s : σ} (h : Reachable step start s) (is : List ι) :
    Reachable step start (run step s is) :=
  invariant_run (fun _ ht i _ => ht.step i) h

/-- Observations of observations. -/
theorem map_trace {ω' : Type*} (g : ω → ω') (obs : σ → ι → ω) (s : σ) (is : List ι) :
    (trace step obs s is).map g = trace step (fun s i => g (obs s i)) s is := by
  induction is generalizing s with
  | nil => rfl
  | cons i is ih => rw [trace_cons, trace_cons, List.map_cons, ih]

theorem trace_append (obs : σ → ι → ω) (s : σ) (is js : List ι) :
    trace step obs s (is ++ js) = trace step obs s is ++ trace step obs (run step s is) js := by
  induction is generalizing s with
  | nil => rfl
  | cons i is ih => rw [List.cons_append, trace_cons, trace_cons, ih, List.cons_append, run_cons]

/-- When every step keeps a feature of the state or ends in a settled state, every
reachable state ends a run from a settled state along which the feature stayed the
same. -/
theorem Reachable.since {start settled : σ → Prop} {feature : σ → ω}
    (hstart : ∀ s, start s → settled s)
    (hstep : ∀ s i, Reachable step start s →
      feature (step s i) = feature s ∨ settled (step s i)) {s : σ} (h : Reachable step start s) :
    ∃ s₀ is, Reachable step start s₀ ∧ settled s₀ ∧ s = Clocked.run step s₀ is ∧
      ∀ c ∈ trace step (fun t _ => feature t) s₀ is, c = feature s := by
  induction h with
  | start hs => exact ⟨_, [], .start hs, hstart _ hs, rfl, by simp⟩
  | @step s i hs ih =>
    rcases hstep s i hs with hkeep | hsettled
    · obtain ⟨s₀, is, hs₀, hsettled, hrun, hsame⟩ := ih
      refine ⟨s₀, is ++ [i], hs₀, hsettled, ?_, ?_⟩
      · rw [run_append, ← hrun]
        rfl
      · rw [hkeep, trace_append, ← hrun]
        intro c hc
        rcases List.mem_append.mp hc with hc | hc
        · exact hsame c hc
        · exact List.mem_singleton.mp hc
    · exact ⟨_, [], hs.step i, hsettled, rfl, by simp⟩

/-- When every step keeps a register, empties it or writes it, what a run from an
empty register holds at its end was written by one of its steps. -/
theorem exists_write {ρ : Type*} (reg : σ → ρ) (empty : ρ → Prop) (writes : σ → ι → ρ → Prop)
    (hstep : ∀ s i, reg (step s i) = reg s ∨ empty (reg (step s i)) ∨
      writes s i (reg (step s i))) {s₀ : σ} (hs₀ : empty (reg s₀)) (is : List ι)
    (h : ¬ empty (reg (run step s₀ is))) :
    ∃ js k ks, is = js ++ k :: ks ∧ writes (run step s₀ js) k (reg (run step s₀ is)) := by
  induction is using List.reverseRecOn with
  | nil => exact absurd hs₀ h
  | append_singleton is i ih =>
    rw [run_append, run_cons, run_nil] at h ⊢
    rcases hstep (run step s₀ is) i with hkeep | hempty | hwrites
    · rw [hkeep] at h ⊢
      obtain ⟨js, k, ks, rfl, hwrites⟩ := ih h
      exact ⟨js, k, ks ++ [i], by simp, hwrites⟩
    · exact absurd hempty h
    · exact ⟨is, i, [], rfl, hwrites⟩

/-- When every step removes some members of a collection and brings in some, what a run
holds at its end was brought in by one of its steps, and no later step removed it. -/
theorem exists_addition {α : Type*} {M : σ → α → Prop} {adds removes : ι → α → Prop} {x : α}
    (hstep : ∀ s i, M (step s i) x → adds i x ∨ (M s x ∧ ¬ removes i x)) {s₀ : σ}
    (hs₀ : ¬ M s₀ x) (is : List ι) (h : M (run step s₀ is) x) :
    ∃ js k ks, is = js ++ k :: ks ∧ adds k x ∧ ∀ l ∈ ks, ¬ removes l x := by
  induction is using List.reverseRecOn with
  | nil => exact absurd h hs₀
  | append_singleton is i ih =>
    rw [run_append, run_cons, run_nil] at h
    rcases hstep (run step s₀ is) i h with hadds | ⟨hmem, hkeeps⟩
    · exact ⟨is, i, [], rfl, hadds, by simp⟩
    · obtain ⟨js, k, ks, rfl, hadds, hlater⟩ := ih hmem
      refine ⟨js, k, ks ++ [i], by simp, hadds, ?_⟩
      intro l hl
      rcases List.mem_append.mp hl with hl | hl
      · exact hlater l hl
      · rwa [List.mem_singleton.mp hl]

/-- When every step adds its amount to a measure, a run adds the sum of the amounts. -/
theorem run_sum {M : Type*} [AddMonoid M] {f : σ → M} {a : σ → ι → M} {s : σ} {is : List ι}
    (h : ∀ c ∈ trace step Prod.mk s is, f (step c.1 c.2) = f c.1 + a c.1 c.2) :
    f (run step s is) = f s + (trace step a s is).sum := by
  induction is generalizing s with
  | nil => exact (add_zero _).symm
  | cons i is ih =>
    have hfirst : f (step s i) = f s + a s i := h (s, i) List.mem_cons_self
    rw [run_cons, ih fun c hc => h c (List.mem_cons_of_mem _ hc), hfirst, trace_cons, List.sum_cons,
      add_assoc]

theorem sum_trace_const {M : Type*} [AddMonoid M] (m : M) (s : σ) (is : List ι) :
    (trace step (fun _ _ => m) s is).sum = is.length • m := by
  induction is generalizing s with
  | nil => exact (zero_nsmul m).symm
  | cons i is ih => rw [trace_cons, List.sum_cons, ih, List.length_cons, succ_nsmul']

/-- A machine whose register drops every write that an operator finds equal to the value
it holds. -/
def suppress (eq : σ → σ → Bool) (step : σ → ι → σ) (s : σ) (i : ι) : σ :=
  if eq s (step s i) then s else step s i

/-- Nothing is lost where the operator finds only equal values equal. -/
theorem suppress_run {P : σ → Prop} {eq : σ → σ → Bool} (hstep : ∀ s i, P s → P (step s i))
    (hexact : ∀ s i, P s → eq s (step s i) = true → step s i = s) {s : σ} (hs : P s)
    (is : List ι) : run (suppress eq step) s is = run step s is := by
  induction is generalizing s with
  | nil => rfl
  | cons i is ih =>
    have hfirst : suppress eq step s i = step s i := by
      unfold suppress
      split
      case isTrue heq => exact (hexact s i hs heq).symm
      case isFalse => rfl
    rw [run_cons, run_cons, hfirst, ih (hstep s i hs)]

/-- When a step leaves a safe set exactly where it is bad, a run stays in the safe set
exactly when none of its steps is bad. -/
theorem safe_run_iff {P : σ → Prop} {bad : σ → ι → Prop}
    (hstep : ∀ s i, P s → (P (step s i) ↔ ¬ bad s i)) {s : σ} (hs : P s) (is : List ι) :
    (∀ js, js <+: is → P (run step s js)) ↔ ∀ c ∈ trace step Prod.mk s is, ¬ bad c.1 c.2 := by
  induction is generalizing s with
  | nil =>
    refine iff_of_true (fun js hjs => ?_) (by simp)
    rw [List.prefix_nil.mp hjs]
    exact hs
  | cons i is ih =>
    constructor
    · intro h
      have hfirst : P (step s i) := h [i] (by simp)
      have hrest := (ih hfirst).mp fun js hjs => h (i :: js) (List.cons_prefix_cons.mpr ⟨rfl, hjs⟩)
      intro c hc
      rcases List.mem_cons.mp hc with rfl | hc
      · exact (hstep s i hs).mp hfirst
      · exact hrest c hc
    · intro h js hjs
      have hfirst : P (step s i) := (hstep s i hs).mpr (h (s, i) List.mem_cons_self)
      have hrest := (ih hfirst).mpr fun c hc => h c (List.mem_cons_of_mem _ hc)
      rcases List.prefix_cons_iff.mp hjs with rfl | ⟨ks, rfl, hks⟩
      · exact hs
      · exact hrest ks hks

/-- An invariant that the allowed steps preserve holds in every state of a run of
allowed steps. -/
theorem allowed_run {P : σ → Prop} {ok : σ → ι → Prop}
    (hstep : ∀ s i, P s → ok s i → P (step s i)) {s : σ} (hs : P s) {is : List ι}
    (hok : ∀ c ∈ trace step Prod.mk s is, ok c.1 c.2) :
    P (run step s is) ∧ ∀ c ∈ trace step Prod.mk s is, P c.1 := by
  induction is generalizing s with
  | nil => exact ⟨hs, by simp⟩
  | cons i is ih =>
    have hnext : P (step s i) := hstep s i hs (hok (s, i) List.mem_cons_self)
    obtain ⟨hrun, hrest⟩ := ih hnext fun c hc => hok c (List.mem_cons_of_mem _ hc)
    refine ⟨hrun, fun c hc => ?_⟩
    rcases List.mem_cons.mp hc with rfl | hc
    · exact hs
    · exact hrest c hc

/-- When every allowed step leads from related states to related states, runs of allowed steps
stay related, and observations that related states share are the same all along. -/
theorem related_run {A : σ → σ → Prop} {ok : σ → ι → Prop} {obs : σ → ι → ω}
    (hstep : ∀ s t i, A s t → ok s i → A (step s i) (step t i))
    (hobs : ∀ s t i, A s t → obs t i = obs s i) {s t : σ} (h : A s t) {is : List ι}
    (hok : ∀ c ∈ trace step Prod.mk s is, ok c.1 c.2) :
    A (run step s is) (run step t is) ∧ trace step obs t is = trace step obs s is := by
  induction is generalizing s t with
  | nil => exact ⟨h, rfl⟩
  | cons i is ih =>
    have hnext : A (step s i) (step t i) := hstep s t i h (hok (s, i) List.mem_cons_self)
    obtain ⟨hrun, htrace⟩ := ih hnext fun c hc => hok c (List.mem_cons_of_mem _ hc)
    refine ⟨hrun, ?_⟩
    rw [trace_cons, trace_cons, hobs s t i h, htrace]

/-- When every step puts elements into a queue behind it and takes elements out of it in
front, what a run puts in is what it takes out and then what is left. -/
theorem queue_run {α : Type*} {P : σ → Prop} {q : σ → List α} {ins outs : σ → ι → List α}
    (hstep : ∀ s i, P s → P (step s i))
    (hqueue : ∀ s i, P s → q s ++ ins s i = outs s i ++ q (step s i)) {s : σ} (hs : P s)
    (is : List ι) : q s ++ (trace step ins s is).flatten =
      (trace step outs s is).flatten ++ q (run step s is) := by
  induction is generalizing s with
  | nil => exact List.append_nil _
  | cons i is ih =>
    rw [trace_cons, trace_cons, List.flatten_cons, List.flatten_cons, run_cons, ← List.append_assoc,
      hqueue s i hs, List.append_assoc, ih (hstep s i hs), List.append_assoc]

/-- A run of a labelled transition relation, with its labels in order. -/
inductive LabelledRun {α ε : Type*} (R : α → ε → α → Prop) : α → List ε → α → Prop
  | nil (a : α) : LabelledRun R a [] a
  | cons {a b c : α} {l : ε} {ls : List ε} :
      R a l b → LabelledRun R b ls c → LabelledRun R a (l :: ls) c

/-- A run splits where its labels do. -/
theorem LabelledRun.split {α ε : Type*} {R : α → ε → α → Prop} {a c : α} {ls ms : List ε}
    (h : LabelledRun R a (ls ++ ms) c) : ∃ b, LabelledRun R a ls b ∧ LabelledRun R b ms c := by
  induction ls generalizing a with
  | nil => exact ⟨a, .nil a, h⟩
  | cons l ls ih =>
    cases h with
    | cons hstep hrest =>
      obtain ⟨b, hleft, hright⟩ := ih hrest
      exact ⟨b, .cons hstep hleft, hright⟩

/-- Forward simulation: when an invariant of the machine makes every step a step
of `R` between the images of its states, every trace is the labels of a run of `R`. -/
theorem simulation {α : Type*} {R : α → ω → α → Prop} {P : σ → Prop} {abs : σ → α}
    {obs : σ → ι → ω} (hstep : ∀ s i, P s → P (step s i))
    (hsim : ∀ s i, P s → R (abs s) (obs s i) (abs (step s i))) {s : σ} (hs : P s)
    (is : List ι) : LabelledRun R (abs s) (trace step obs s is) (abs (run step s is)) := by
  induction is generalizing s with
  | nil => exact .nil _
  | cons i is ih => exact .cons (hsim s i hs) (ih (hstep s i hs))

/-- Simulation by a relation: when every allowed step from related states is matched by a step
of `R` to related states, the trace of a run of allowed steps is the labels of a run of `R`. -/
theorem simulation_of_relates {α : Type*} {R : α → ω → α → Prop} {A : σ → α → Prop}
    {ok : σ → ι → Prop} {obs : σ → ι → ω}
    (hsim : ∀ s i a, A s a → ok s i → ∃ b, R a (obs s i) b ∧ A (step s i) b) {s : σ} {a : α}
    (h : A s a) {is : List ι} (hok : ∀ c ∈ trace step Prod.mk s is, ok c.1 c.2) :
    ∃ b, LabelledRun R a (trace step obs s is) b ∧ A (run step s is) b := by
  induction is generalizing s a with
  | nil => exact ⟨a, .nil a, h⟩
  | cons i is ih =>
    obtain ⟨b, hstep, hb⟩ := hsim s i a h (hok (s, i) List.mem_cons_self)
    obtain ⟨c, hrun, hc⟩ := ih hb fun d hd => hok d (List.mem_cons_of_mem _ hd)
    exact ⟨c, .cons hstep hrun, hc⟩

end Clocked
