import Mathlib.Data.Set.Lattice
import Mathlib.Order.Bounds.Basic

/-!
# Prioritised protection entries

A protection unit holds entries in an order of priority. The first entry that
matches a byte of an access decides about it: the entry has to match the whole
access, and it has to grant the kind of access unless it does not bind the machine
level. Without a match, the machine level alone is permitted.

A checker that tests the two ends of a range, possibly a longer one than the access,
is sound as long as no region splits the access.
-/

namespace Protection

/-- The kinds of accesses. -/
inductive Kind
  | read | write | execute
  deriving DecidableEq, Repr

/-- An entry: the addresses of its region, whether it binds the machine level, and
what it grants. -/
structure Entry (α : Type*) where
  region : Set α
  locked : Prop
  grants : Kind → Prop

variable {ι α : Type*} [LinearOrder ι] {entries : ι → Entry α} {access : Set α} {machine : Prop}
  {k : Kind} {i : ι}

/-- The entry matches a byte of the access. -/
def Entry.Matches (e : Entry α) (access : Set α) : Prop := (access ∩ e.region).Nonempty

/-- The entry that decides: the first one that matches. -/
def Decides (entries : ι → Entry α) (access : Set α) (i : ι) : Prop :=
  (entries i).Matches access ∧ ∀ j < i, ¬ (entries j).Matches access

/-- The verdict of a deciding entry. -/
def Entry.Allows (e : Entry α) (machine : Prop) (k : Kind) (access : Set α) : Prop :=
  access ⊆ e.region ∧ ((machine ∧ ¬ e.locked) ∨ e.grants k)

/-- The access is permitted. -/
def Permits (entries : ι → Entry α) (machine : Prop) (k : Kind) (access : Set α) : Prop :=
  (∀ i, Decides entries access i → (entries i).Allows machine k access) ∧
    ((∀ i, ¬ (entries i).Matches access) → machine)

/-- An access that is permitted for one kind is permitted for every kind that comes
with it. -/
theorem Permits.imp {k' : Kind} (h : Permits entries machine k access)
    (hk : ∀ i, (entries i).grants k → (entries i).grants k') :
    Permits entries machine k' access :=
  ⟨fun i hi => (h.1 i hi).imp_right (Or.imp_right (hk i)), h.2⟩

/-- For a level that every entry binds, an access that is permitted for one kind is permitted
for another one when the entry that decides about it grants that kind too. -/
theorem Permits.kind_iff {k' : Kind} (h : Permits entries machine k access) (hm : ¬ machine) :
    Permits entries machine k' access ↔
      ∀ i, Decides entries access i → (entries i).grants k' := by
  constructor
  · intro h' i hi
    exact (h'.1 i hi).2.resolve_left fun hmachine => hm hmachine.1
  · intro hgrants
    exact ⟨fun i hi => ⟨(h.1 i hi).1, .inr (hgrants i hi)⟩, h.2⟩

theorem Entry.Matches.mono {e : Entry α} {wider : Set α} (h : e.Matches access)
    (hsub : access ⊆ wider) : e.Matches wider :=
  Set.Nonempty.mono (Set.inter_subset_inter_left _ hsub) h

/-- A permitted access stays permitted in a wider one when the entry that decides about the
wider one contains all of it. -/
theorem Permits.wider_iff {wider : Set α} (h : Permits entries machine k access)
    (hsub : access ⊆ wider) (hsome : access.Nonempty) :
    Permits entries machine k wider ↔
      ∀ i, Decides entries wider i → wider ⊆ (entries i).region := by
  constructor
  · intro h' i hi
    exact (h'.1 i hi).1
  · intro hwhole
    refine ⟨fun i hi => ⟨hwhole i hi, ?_⟩, fun hnone => ?_⟩
    · -- The entry contains the access too, and no earlier one touches it.
      have hmatches : (entries i).Matches access := by
        rw [Entry.Matches, Set.inter_eq_left.mpr (hsub.trans (hwhole i hi))]
        exact hsome
      exact (h.1 i ⟨hmatches, fun j hj hmatch => hi.2 j hj (hmatch.mono hsub)⟩).2
    · exact h.2 fun i hmatch => hnone i (hmatch.mono hsub)

/-- A locked entry decides about an address and refuses it, behind locked entries only. -/
def Sealed (entries : ι → Entry α) (a : α) : Prop :=
  ∃ i, Decides entries {a} i ∧ (∀ j ≤ i, (entries j).locked) ∧ ∀ k, ¬ (entries i).grants k

/-- No level has access to a sealed address. -/
theorem Sealed.not_permits {a : α} (h : Sealed entries a) : ¬ Permits entries machine k {a} := by
  obtain ⟨i, hdecides, hlocked, hrefuses⟩ := h
  intro hpermits
  rcases (hpermits.1 i hdecides).2 with ⟨-, hfree⟩ | hgrants
  · exact hfree (hlocked i le_rfl)
  · exact hrefuses k hgrants

/-- What locked entries seal stays sealed while they stay as they are. -/
theorem Sealed.of_kept {entries' : ι → Entry α} {a : α} (h : Sealed entries a)
    (hkept : ∀ i, (∀ j ≤ i, (entries j).locked) → entries' i = entries i) : Sealed entries' a := by
  obtain ⟨i, hdecides, hlocked, hrefuses⟩ := h
  have hsame : ∀ j ≤ i, entries' j = entries j :=
    fun j hj => hkept j fun l hl => hlocked l (hl.trans hj)
  refine ⟨i, ⟨?_, fun j hj => ?_⟩, fun j hj => ?_, ?_⟩
  · rw [hsame i le_rfl]
    exact hdecides.1
  · rw [hsame j hj.le]
    exact hdecides.2 j hj
  · rw [hsame j hj]
    exact hlocked j hj
  · rw [hsame i le_rfl]
    exact hrefuses

section First

variable [WellFoundedLT ι]

/-- Where something holds of an index, it holds of a first one. -/
theorem exists_first {P : ι → Prop} (h : ∃ i, P i) : ∃ i, P i ∧ ∀ j < i, ¬ P j := by
  obtain ⟨i, hi, hmin⟩ := WellFounded.has_min (r := (· < ·)) wellFounded_lt {i | P i} h
  exact ⟨i, hi, fun j hj hP => hmin j hP hj⟩

/-- Every byte of a permitted access is permitted by itself. -/
theorem Permits.byte (h : Permits entries machine k access) {b : α} (hb : b ∈ access) :
    Permits entries machine k {b} := by
  have hmatch {i : ι} (hi : (entries i).Matches {b}) : (entries i).Matches access := by
    obtain ⟨c, hc, hcr⟩ := hi
    exact ⟨c, by rw [Set.mem_singleton_iff.mp hc]; exact hb, hcr⟩
  refine ⟨fun i hi => ?_, fun hnone => h.2 fun i hi => ?_⟩
  · obtain ⟨j, hj⟩ := exists_first (P := fun i => (entries i).Matches access) ⟨i, hmatch hi.1⟩
    have hallows := h.1 j hj
    have hij : i = j := by
      rcases lt_trichotomy i j with hlt | heq | hlt
      · exact absurd (hmatch hi.1) (hj.2 i hlt)
      · exact heq
      · exact absurd ⟨b, rfl, hallows.1 hb⟩ (hi.2 j hlt)
    subst hij
    exact ⟨Set.singleton_subset_iff.mpr (hallows.1 hb), hallows.2⟩
  · obtain ⟨j, hj⟩ := exists_first (P := fun i => (entries i).Matches access) ⟨i, hi⟩
    exact hnone j ⟨b, rfl, (h.1 j hj).1 hb⟩

/-- A scan that tests one byte `b` of the access and some other address for each
entry, skips the entries that do not bind the machine level, and asks the first entry
with a positive test for both tests and the grant. -/
theorem permits_of_scan {b : α} (hb : b ∈ access)
    (hwhole : ∀ i, (entries i).Matches access → access ⊆ (entries i).region) (other : ι → Prop)
    (hfirst : ∀ i, (b ∈ (entries i).region ∨ other i) ∧ (¬ machine ∨ (entries i).locked) →
      (∀ j < i, ¬ ((b ∈ (entries j).region ∨ other j) ∧ (¬ machine ∨ (entries j).locked))) →
      b ∈ (entries i).region ∧ (entries i).grants k)
    (hnone : (∀ i, ¬ ((b ∈ (entries i).region ∨ other i) ∧ (¬ machine ∨ (entries i).locked))) →
      machine) : Permits entries machine k access := by
  refine ⟨fun i hi => ⟨hwhole i hi.1, ?_⟩, fun hno => ?_⟩
  · have hbi : b ∈ (entries i).region := hwhole i hi.1 hb
    by_cases hbind : ¬ machine ∨ (entries i).locked
    · -- the first positive test has `b` in its region, so it is not before `i`
      obtain ⟨j, hj, hmin⟩ := exists_first
        (P := fun j => (b ∈ (entries j).region ∨ other j) ∧ (¬ machine ∨ (entries j).locked))
        ⟨i, .inl hbi, hbind⟩
      obtain ⟨hbj, hgrants⟩ := hfirst j hj hmin
      rcases lt_trichotomy i j with hlt | heq | hlt
      · exact absurd ⟨.inl hbi, hbind⟩ (hmin i hlt)
      · subst heq
        exact .inr hgrants
      · exact absurd ⟨b, hb, hbj⟩ (hi.2 j hlt)
    · rw [not_or, not_not] at hbind
      exact .inl hbind
  · apply hnone
    intro i hi
    obtain ⟨j, hj, hmin⟩ := exists_first
      (P := fun j => (b ∈ (entries j).region ∨ other j) ∧ (¬ machine ∨ (entries j).locked)) ⟨i, hi⟩
    exact hno j ⟨b, hb, (hfirst j hj hmin).1⟩

/-! ### A scan that passes over some of the matching entries -/

section

variable {covers binds grants : ι → Prop}

/-- The first index that covers the access has `P`. -/
def FirstHas (covers P : ι → Prop) : Prop := ∃ i, IsLeast {j | covers j} i ∧ P i

omit [WellFoundedLT ι] in
theorem firstHas_iff {P : ι → Prop} (hi : IsLeast {j | covers j} i) :
    FirstHas covers P ↔ P i := by
  constructor
  · rintro ⟨j, hj, hP⟩
    rwa [hi.unique hj]
  · exact fun hP => ⟨i, hi, hP⟩

theorem exists_isLeast {P : ι → Prop} (h : ∃ i, P i) : ∃ i, IsLeast {j | P j} i := by
  obtain ⟨i, hi, hmin⟩ := exists_first h
  exact ⟨i, hi, fun j hj => not_lt.mp fun hlt => hmin j hlt hj⟩

omit [WellFoundedLT ι] in
theorem decides_iff_isLeast :
    Decides entries access i ↔ IsLeast {j | (entries j).Matches access} i := by
  refine and_congr_right fun _ => ?_
  constructor
  · exact fun h j hj => not_lt.mp fun hlt => h j hlt hj
  · exact fun h j hlt hj => absurd (h hj) (not_le.mpr hlt)

/-- For a level that every entry binds, the first entry that matches decides alone. -/
theorem permits_iff_first (hm : ¬ machine) :
    Permits entries machine k access ↔
      FirstHas (fun j => (entries j).Matches access) fun j =>
        access ⊆ (entries j).region ∧ (entries j).grants k := by
  by_cases hany : ∃ j, (entries j).Matches access
  · obtain ⟨i, hi⟩ := exists_isLeast hany
    have hmatched : ¬ ∀ j, ¬ (entries j).Matches access := not_forall_not.mpr hany
    rw [firstHas_iff hi]
    constructor
    · intro h
      obtain ⟨hwhole, hgrants⟩ := h.1 i (decides_iff_isLeast.mpr hi)
      exact ⟨hwhole, hgrants.resolve_left fun hmachine => hm hmachine.1⟩
    · intro h
      refine ⟨fun j hj => ?_, fun hnone => absurd hnone hmatched⟩
      rw [(decides_iff_isLeast.mp hj).unique hi]
      exact h.imp_right .inr
  · refine iff_of_false (fun h => hm (h.2 (not_exists.mp hany))) ?_
    rintro ⟨i, hi, -⟩
    exact hany ⟨i, hi.1⟩

/-- The rule lets the first covering entry decide, and one that does not bind permits. A scan
that passes over the entries that do not bind agrees with it unless it goes on from such a
first entry to a binding one that refuses. -/
theorem scan_iff_rule_iff :
    (((∀ i, ¬ (covers i ∧ binds i)) ∨ FirstHas (fun i => covers i ∧ binds i) grants) ↔
      ((∀ i, ¬ covers i) ∨ FirstHas covers fun i => ¬ binds i ∨ grants i)) ↔
    ¬ (FirstHas covers (fun i => ¬ binds i) ∧
      FirstHas (fun i => covers i ∧ binds i) fun i => ¬ grants i) := by
  by_cases hcovers : ∃ i, covers i
  · obtain ⟨i, hi⟩ := exists_isLeast hcovers
    have hsome : ¬ ∀ i, ¬ covers i := not_forall_not.mpr hcovers
    rw [firstHas_iff hi, firstHas_iff hi, or_iff_right hsome]
    by_cases hbinds : binds i
    · -- The first covering entry is the first that binds.
      have hfirst : IsLeast {j | covers j ∧ binds j} i := ⟨⟨hi.1, hbinds⟩, fun j hj => hi.2 hj.1⟩
      have hany : ¬ ∀ i, ¬ (covers i ∧ binds i) := not_forall_not.mpr ⟨i, hi.1, hbinds⟩
      rw [firstHas_iff hfirst, or_iff_right hany, or_iff_right (not_not.mpr hbinds)]
      exact iff_of_true Iff.rfl fun h => h.1 hbinds
    · by_cases hany : ∃ j, covers j ∧ binds j
      · obtain ⟨j, hj⟩ := exists_isLeast hany
        have hscan : ¬ ∀ i, ¬ (covers i ∧ binds i) := not_forall_not.mpr hany
        rw [firstHas_iff hj, firstHas_iff hj, or_iff_right hscan]
        simp [hbinds]
      · have hscan : ∀ i, ¬ (covers i ∧ binds i) := not_exists.mp hany
        have hnone : ¬ FirstHas (fun i => covers i ∧ binds i) fun i => ¬ grants i := by
          rintro ⟨j, hj, -⟩
          exact hscan j hj.1
        exact iff_of_true (iff_of_true (.inl hscan) (.inl hbinds)) fun h => hnone h.2
  · have hnone : ∀ i, ¬ covers i := not_exists.mp hcovers
    have hscan : ∀ i, ¬ (covers i ∧ binds i) := fun i h => hnone i h.1
    refine iff_of_true (iff_of_true (.inl hscan) (.inl hnone)) ?_
    rintro ⟨⟨i, hi, -⟩, -⟩
    exact hnone i hi.1

end

end First

end Protection
