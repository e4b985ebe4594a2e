import Mathlib.Data.List.Basic
import Mathlib.Order.Lattice
import Mathlib.Order.Nat

/-!
# Priorities given by a list

A list names some elements of a type from the most to the least urgent; all others come
after them, in their own order. The first element of a set is the one that a search through
the list finds, or the least one when the search finds nothing.
-/

namespace Priority

variable {α : Type*} [LinearOrder α] (order : List α)

/-- The place of an element: its index in the list, or the length of the list. -/
def rank (a : α) : ℕ := order.idxOf a

/-- The element `a` is more urgent than `b`. -/
def Before (a b : α) : Prop := rank order a < rank order b ∨ (rank order a = rank order b ∧ a < b)

instance (a b : α) : Decidable (Before order a b) := inferInstanceAs (Decidable (_ ∨ _ ∧ _))

/-- `k` is the most urgent element for which `P` holds. -/
def IsFirst (P : α → Prop) (k : α) : Prop := P k ∧ ∀ j, P j → ¬ Before order j k

variable {order} {P Q : α → Prop} {p : α → Bool} {a b j k : α}

theorem eq_of_rank_eq (ha : a ∈ order) (h : rank order a = rank order b) : a = b :=
  (List.idxOf_inj ha).mp h

theorem before_of_not_before (hne : a ≠ b) (h : ¬ Before order a b) : Before order b a := by
  obtain ⟨hrank, hlt⟩ := not_or.mp h
  rcases Nat.lt_or_ge (rank order b) (rank order a) with hless | hge
  · exact .inl hless
  · have heq : rank order a = rank order b := le_antisymm hge (not_lt.mp hrank)
    refine .inr ⟨heq.symm, ?_⟩
    exact lt_of_le_of_ne (not_lt.mp fun hab => hlt ⟨heq, hab⟩) hne.symm

theorem IsFirst.rank_le (h : IsFirst order P k) (hj : P j) : rank order k ≤ rank order j :=
  not_lt.mp fun hlt => h.2 j hj (.inl hlt)

/-- What a search through the list finds is first. -/
theorem isFirst_of_find? (h : order.find? p = some k) : IsFirst order (fun a => p a = true) k := by
  obtain ⟨hk, before, after, horder, hbefore⟩ := List.find?_eq_some_iff_append.mp h
  have hmem : k ∈ order := List.mem_of_find?_eq_some h
  have hnot : k ∉ before := by
    intro hin
    have hfalse := hbefore k hin
    rw [hk] at hfalse
    cases hfalse
  have hrank : rank order k = before.length := by
    rw [rank, horder, List.idxOf_append_of_notMem hnot, List.idxOf_cons_self, Nat.add_zero]
  refine ⟨hk, fun j hj hlt => ?_⟩
  rcases hlt with hlt | ⟨heq, hlt⟩
  · have hin : j ∈ before := by
      by_contra hout
      rw [hrank, rank, horder, List.idxOf_append_of_notMem hout] at hlt
      omega
    have hfalse := hbefore j hin
    rw [hj] at hfalse
    cases hfalse
  · exact absurd (eq_of_rank_eq hmem heq.symm) hlt.ne'

/-- When the search finds nothing, the least element is first. -/
theorem isFirst_of_find?_none (h : order.find? p = none) (hk : p k = true)
    (hleast : ∀ j, p j = true → k ≤ j) : IsFirst order (fun a => p a = true) k := by
  have hrank (j : α) (hj : p j = true) : rank order j = order.length := by
    refine List.idxOf_of_notMem fun hmem => ?_
    exact List.find?_eq_none.mp h j hmem hj
  refine ⟨hk, fun j hj hlt => ?_⟩
  rcases hlt with hlt | ⟨-, hlt⟩
  · rw [hrank j hj, hrank k hk] at hlt
    exact lt_irrefl _ hlt
  · exact absurd (hleast j hj) (not_le.mpr hlt)

/-- Where some element is preferred, the first one is preferred exactly when no other one
comes before all preferred ones. -/
theorem IsFirst.preferred_iff (h : IsFirst order P k) :
    Q k ↔ ¬ ∃ d, P d ∧ ¬ Q d ∧ ∀ m, P m → Q m → Before order d m := by
  constructor
  · rintro hk ⟨d, hd, -, hbefore⟩
    exact h.2 d hd (hbefore k h.1 hk)
  · intro hnone
    by_contra hk
    refine hnone ⟨k, h.1, hk, fun m hm hqm => before_of_not_before ?_ (h.2 m hm)⟩
    rintro rfl
    exact hk hqm

end Priority
