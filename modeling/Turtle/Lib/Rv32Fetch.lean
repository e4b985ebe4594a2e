import Mathlib.Data.Set.Insert
import Turtle.Lib.Rv32Machine

/-!
# RV32 machines that fetch their instructions

A hart fetches before it executes, so what it executes may be older than the memory. It is
not older than the last step behind which everything is fetched anew. Beside the memory
there is the set of the memories since that step, the view, and every halfword that is
executed was in one of them. With code that does not change this is a machine that
executes the program in its memory.
-/

namespace Rv32

/-- The instructions behind which everything is fetched anew. -/
def Instr.Renews : Instr → Prop
  | .fenceI _ _ _ => True
  | .sfenceVma _ _ => True
  | .system .mret => True
  | .system .sret => True
  | _ => False

/-- The word that is executed in a step, if one is. -/
def Label.word {τ : Type*} : Label τ → Option (BitVec 32)
  | .retire w _ _ _ => some w
  | .trap (.unknown w) _ => some w
  | .trap (.raised w _) _ => some w
  | _ => none

/-- A machine with the memories that a fetched halfword may come from. -/
structure Fetcher (μ : Type*) extends Machine μ where
  view : Set μ

/-- A step, the context of the fetches and whether everything is fetched anew behind it. -/
structure FetchLabel (τ κ : Type*) where
  event : Label τ
  ctx : κ
  anew : Bool

/-- The surroundings of a machine that fetches: in a context, a memory holds halfwords at
virtual addresses. -/
structure FetchEnv (μ τ κ : Type*) extends Env μ τ where
  Holds : κ → BitVec 32 → BitVec 16 → μ → Prop

/-- The instruction word at an address of a program. -/
def wordAt (code : BitVec 32 → BitVec 16) (pc : BitVec 32) : BitVec 32 :=
  if code pc &&& 3 = 3 then code (pc + 2) ++ code pc else (code pc).setWidth 32

/-- A step of a machine that executes a program. -/
def Env.Executes {μ τ : Type*} (v : Env μ τ) (code : BitVec 32 → BitVec 16) (m : Machine μ)
    (l : Label τ) (m' : Machine μ) : Prop :=
  v.Step m l m' ∧ ∀ w ∈ l.word, w = wordAt code m.hart.pc

namespace FetchEnv

variable {μ τ κ : Type*} (v : FetchEnv μ τ κ)

/-- A memory of the view holds the halfword. -/
def Sees (view : Set μ) (ctx : κ) (addr : BitVec 32) (half : BitVec 16) : Prop :=
  ∃ m ∈ view, v.Holds ctx addr half m

/-- The words that may have been fetched at an address: the one or two halfwords of an
instruction, each from a memory of its own. -/
inductive Fetches (view : Set μ) (ctx : κ) (pc : BitVec 32) : BitVec 32 → Prop
  | half {low : BitVec 16} (hlow : ¬ low &&& 3 = 3) (h : v.Sees view ctx pc low) :
      Fetches view ctx pc (low.setWidth 32)
  | wide {low high : BitVec 16} (hlow : low &&& 3 = 3) (h : v.Sees view ctx pc low)
      (h' : v.Sees view ctx (pc + 2) high) : Fetches view ctx pc (high ++ low)

/-- The steps behind which everything must be fetched anew. -/
def Renews : Label τ → Prop
  | .wait => False
  | .reset => True
  | .retire w len _ _ => ∃ i, v.Means w i len ∧ i.Renews
  | .trap _ _ => True

/-- The steps. -/
structure FetchStep (f : Fetcher μ) (l : FetchLabel τ κ) (f' : Fetcher μ) : Prop where
  step : v.Step f.toMachine l.event f'.toMachine
  fetches : ∀ w ∈ l.event.word, v.Fetches f.view l.ctx f.hart.pc w
  renews : v.Renews l.event → l.anew = true
  view : f'.view = if l.anew then {f'.mem} else insert f'.mem f.view

variable {v} {f f' : Fetcher μ} {l : FetchLabel τ κ} {view view' : Set μ} {ctx : κ}
  {pc addr w : BitVec 32} {half : BitVec 16}

theorem Sees.mono (h : v.Sees view ctx addr half) (hview : view ⊆ view') :
    v.Sees view' ctx addr half := by
  obtain ⟨m, hm, hholds⟩ := h
  exact ⟨m, hview hm, hholds⟩

theorem Fetches.mono (h : v.Fetches view ctx pc w) (hview : view ⊆ view') :
    v.Fetches view' ctx pc w := by
  cases h with
  | half hlow h => exact .half hlow (h.mono hview)
  | wide hlow h h' => exact .wide hlow (h.mono hview) (h'.mono hview)

/-- Where all memories of the view hold the halfwords of a program, they are fetched. -/
theorem Fetches.eq_wordAt {code : BitVec 32 → BitVec 16} (h : v.Fetches view ctx pc w)
    (hcode : ∀ addr ∈ [pc, pc + 2], ∀ m ∈ view, ∀ half,
      v.Holds ctx addr half m → half = code addr) :
    w = wordAt code pc := by
  have hsees {addr : BitVec 32} {half : BitVec 16} (haddr : addr ∈ [pc, pc + 2])
      (h : v.Sees view ctx addr half) : half = code addr := by
    obtain ⟨m, hm, hholds⟩ := h
    exact hcode addr haddr m hm half hholds
  unfold wordAt
  cases h with
  | half hlow h =>
    have heq := hsees (by simp) h
    rw [heq] at hlow ⊢
    rw [if_neg hlow]
  | wide hlow h h' =>
    have heq := hsees (by simp) h
    have heq' := hsees (by simp) h'
    rw [heq] at hlow ⊢
    rw [if_pos hlow, heq']

/-- What holds of all memories of the view goes on to do so if it holds of the new memory. -/
theorem FetchStep.forall_view {Q : μ → Prop} (h : v.FetchStep f l f') (hview : ∀ m ∈ f.view, Q m)
    (hmem : Q f'.mem) : ∀ m ∈ f'.view, Q m := by
  rw [h.view]
  split
  · exact fun m hm => hm ▸ hmem
  · exact Set.forall_mem_insert.mpr ⟨hmem, hview⟩

end FetchEnv

end Rv32
