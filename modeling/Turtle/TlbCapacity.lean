import Turtle.TlbHistory

/-!
# What a store into the TLB loses

`store` pushes entries down the table up to the first slot that it may reuse, and what
that slot held is lost. It reuses an invalid slot, but also one whose ASID or whose page
number is the one of the store. So a table with invalid slots loses entries, and of the
translations of one address space it holds a single one.
-/

namespace Turtle

namespace Tlb

/-- The test for a slot that a store reuses. -/
def reusable (asid vpn : BitVec 32) (e : TlbEntry) : Bool :=
  e.asid.setWidth 32 == asid || e.vpn.setWidth 32 == vpn || !e.valid

/-- The page number that a store compares, rounded down for a megapage. -/
def storeVpn (isMegapage : Bool) (vpn : BitVec 32) : BitVec 32 :=
  if isMegapage then vpn &&& 0xfffffc00 else vpn

/-- Both entries are for the same ASID and page number. -/
def SameKey (x y : TlbEntry) : Prop := x.asid = y.asid ∧ x.vpn = y.vpn

instance (x y : TlbEntry) : Decidable (SameKey x y) := inferInstanceAs (Decidable (_ ∧ _))

variable {t : Tlb} {x y tmp : TlbEntry} {xs ys : List TlbEntry} {asid vpn pte : BitVec 32}
  {mega : Bool}

/-! ### One store -/

/-- The entries in front of the first reusable slot move down by one, into that slot. -/
theorem storeLoop_append (hxs : ∀ x ∈ xs, reusable asid vpn x = false)
    (hy : reusable asid vpn y = true) :
    storeLoop asid vpn tmp (xs ++ y :: ys) = tmp :: (xs ++ ys) := by
  induction xs generalizing tmp with
  | nil => exact if_pos hy
  | cons x xs ih =>
    have hx : reusable asid vpn x = false := hxs x List.mem_cons_self
    have hstep : storeLoop asid vpn tmp (x :: (xs ++ y :: ys)) =
        tmp :: storeLoop asid vpn x (xs ++ y :: ys) := by
      refine if_neg ?_
      change ¬ reusable asid vpn x = true
      rw [hx]
      exact Bool.false_ne_true
    rw [List.cons_append, hstep, ih fun z hz => hxs z (List.mem_cons_of_mem _ hz)]
    rfl

theorem store_table (hxs : ∀ x ∈ xs, reusable asid (storeVpn mega vpn) x = false)
    (hy : reusable asid (storeVpn mega vpn) y = true) (htable : t.table = xs ++ y :: ys) :
    (t.store asid vpn pte mega).table = entryOf asid vpn pte mega :: (xs ++ ys) := by
  change storeLoop asid (storeVpn mega vpn) (entryOf asid vpn pte mega) t.table = _
  rw [htable, storeLoop_append hxs hy]

/-- A table with a reusable slot has a first one. -/
theorem exists_first_reusable (h : ∃ x ∈ t.table, reusable asid vpn x = true) :
    ∃ xs y ys, t.table = xs ++ y :: ys ∧ (∀ x ∈ xs, reusable asid vpn x = false) ∧
      reusable asid vpn y = true := by
  obtain ⟨y, hfind⟩ := Option.isSome_iff_exists.mp (List.find?_isSome.mpr h)
  obtain ⟨hy, xs, ys, htable, hxs⟩ := List.find?_eq_some_iff_append.mp hfind
  exact ⟨xs, y, ys, htable, fun x hx => by simpa using hxs x hx, hy⟩

/-- The table has an invalid slot, or an entry for the ASID and page number of `new`. -/
def HasRoom (t : Tlb) (new : TlbEntry) : Prop :=
  ∃ x ∈ t.table, x.valid = false ∨ SameKey x new

/-- A store into a table with room loses no other valid entry. -/
def Keeps (t : Tlb) (asid vpn pte : BitVec 32) (mega : Bool) : Prop :=
  let new := entryOf asid vpn pte mega
  t.HasRoom new → ∀ x ∈ t.table, x.valid = true → ¬ SameKey x new →
    x ∈ (t.store asid vpn pte mega).table

/-- What the first reusable slot holds is invalid, is for the ASID and page number of the
store, or is in the table a second time. -/
def VictimSpare (t : Tlb) (asid vpn pte : BitVec 32) (mega : Bool) : Prop :=
  ∀ xs y ys, t.table = xs ++ y :: ys →
    (∀ x ∈ xs, reusable asid (storeVpn mega vpn) x = false) →
    reusable asid (storeVpn mega vpn) y = true →
    y.valid = false ∨ SameKey y (entryOf asid vpn pte mega) ∨ y ∈ xs ++ ys

theorem entryOf_asid_setWidth (h : PageArgs asid vpn) :
    (entryOf asid vpn pte mega).asid.setWidth 32 = asid := by
  have hlt := h.1
  apply BitVec.eq_of_toNat_eq
  rw [BitVec.toNat_setWidth, entryOf_asid h.1]
  omega

theorem reusable_of_room (hargs : PageArgs asid vpn)
    (h : x.valid = false ∨ SameKey x (entryOf asid vpn pte mega)) :
    reusable asid (storeVpn mega vpn) x = true := by
  unfold reusable
  rcases h with hinvalid | ⟨hasid, -⟩
  · simp [hinvalid]
  · rw [hasid, entryOf_asid_setWidth hargs]
    simp

/-- A store into a table with room keeps the other entries exactly when the one that it
overwrites can be spared. -/
theorem keeps_iff (t : Tlb) (hargs : PageArgs asid vpn) :
    t.Keeps asid vpn pte mega ↔
      (t.HasRoom (entryOf asid vpn pte mega) → t.VictimSpare asid vpn pte mega) := by
  constructor
  · intro hkeeps hroom xs y ys htable hxs hy
    by_contra hlost
    rw [not_or, not_or] at hlost
    obtain ⟨hvalid, hother, hgone⟩ := hlost
    have hmem : y ∈ t.table := by
      rw [htable]
      simp
    have hkept := hkeeps hroom y hmem (by simpa using hvalid) hother
    rw [store_table hxs hy htable] at hkept
    rcases List.mem_cons.mp hkept with hnew | hkept
    · exact hother (hnew ▸ ⟨rfl, rfl⟩)
    · exact hgone hkept
  · intro hspare hroom x hmem hvalid hother
    obtain ⟨z, hz, hroomz⟩ := hroom
    obtain ⟨xs, y, ys, htable, hxs, hy⟩ :=
      exists_first_reusable ⟨z, hz, reusable_of_room hargs hroomz⟩
    rw [store_table hxs hy htable]
    rw [htable] at hmem
    apply List.mem_cons_of_mem
    rcases List.mem_append.mp hmem with hfront | htail
    · exact List.mem_append_left _ hfront
    rcases List.mem_cons.mp htail with rfl | htail
    · rcases hspare ⟨z, hz, hroomz⟩ xs x ys htable hxs hy with hinvalid | hsame | hagain
      · rw [hvalid] at hinvalid
        cases hinvalid
      · exact absurd hsame hother
      · exact hagain
    · exact List.mem_append_right _ htail

/-! ### Thirty-two stores -/

/-- A non-global translation of 4 KiB. -/
structure Translation where
  asid : BitVec 32
  vpn : BitVec 32
  pte : BitVec 32
  args : PageArgs asid vpn
  nonGlobal : pte &&& 0x20 ≠ 0x20

namespace Translation

/-- The ASID and the page number. -/
def key (x : Translation) : BitVec 32 × BitVec 32 := (x.asid, x.vpn)

/-- The entry of the translation. -/
def entry (x : Translation) : TlbEntry := entryOf x.asid x.vpn x.pte false

/-- Store the translation. -/
def storeIn (t : Tlb) (x : Translation) : Tlb := t.store x.asid x.vpn x.pte false

end Translation

/-- The table after a list of stores. -/
def storeAll (t : Tlb) (l : List Translation) : Tlb := l.foldl Translation.storeIn t

/-- Every translation of the list is found. -/
def FindsAll (t : Tlb) (l : List Translation) : Prop :=
  ∀ x ∈ l, ∀ junk, (t.find junk x.asid x.vpn).1 = x.entry

variable {l : List Translation} {u v : Translation}

theorem entry_asid_setWidth (u : Translation) : u.entry.asid.setWidth 32 = u.asid :=
  entryOf_asid_setWidth u.args

theorem entry_vpn_setWidth (u : Translation) : u.entry.vpn.setWidth 32 = u.vpn := by
  have hlt := u.args.2
  apply BitVec.eq_of_toNat_eq
  rw [BitVec.toNat_setWidth, Translation.entry, entryOf_vpn hlt, if_neg Bool.false_ne_true]
  omega

/-- An entry tells the ASID and the page number of its translation. -/
theorem key_of_entry (h : u.entry = v.entry) : u.key = v.key := by
  unfold Translation.key
  rw [← entry_asid_setWidth u, ← entry_vpn_setWidth u, h, entry_asid_setWidth, entry_vpn_setWidth]

/-- Translations with different keys have different entries. -/
theorem nodup_entries (h : (l.map Translation.key).Nodup) : (l.map Translation.entry).Nodup :=
  List.pairwise_map.mpr
    ((List.pairwise_map.mp h).imp fun hkeys heq => hkeys (key_of_entry heq))

/-- A store reuses the slot of another translation when one of the two numbers agrees. -/
theorem reusable_entry : reusable u.asid (storeVpn false u.vpn) v.entry = true ↔
    v.asid = u.asid ∨ v.vpn = u.vpn := by
  have hvalid : v.entry.valid = true := rfl
  unfold reusable
  rw [entry_asid_setWidth, entry_vpn_setWidth, hvalid]
  simp [storeVpn]

theorem reusable_of_invalid (h : y.valid = false) : reusable asid vpn y = true := by
  simp [reusable, h]

/-- The stored translation for its own lookup. -/
theorem hits_entry (u : Translation) : hits u.asid u.vpn u.entry = true := by
  rw [hits_iff_page]
  refine ⟨rfl, .inr ?_, ?_, .inr ?_⟩
  · rw [Translation.entry, entryOf_asid u.args.1]
  · rw [Translation.entry, entryOf_vpn u.args.2, if_neg Bool.false_ne_true]
  · rw [Translation.entry, entryOf_vpn u.args.2, if_neg Bool.false_ne_true]

/-- A lookup hits the entry of its own ASID and page number only. -/
theorem key_of_hits (h : hits u.asid u.vpn v.entry = true) : v.key = u.key := by
  obtain ⟨hpage, htag⟩ := hits_entryOf v.args h
  have hvpn : v.vpn = u.vpn := hpage
  unfold Translation.key
  rw [htag.resolve_right v.nonGlobal, hvpn]

/-- The stores of translations with different ASIDs and different page numbers fill the
invalid slots one after the other. -/
theorem storeAll_table (ht : ∀ x ∈ t.table, x.valid = false) (hlen : l.length ≤ t.table.length)
    (hasid : (l.map Translation.asid).Nodup) (hvpn : (l.map Translation.vpn).Nodup) :
    (t.storeAll l).table = l.reverse.map Translation.entry ++ t.table.drop l.length := by
  induction l using List.reverseRecOn with
  | nil => rfl
  | append_singleton l u ih =>
    rw [List.length_append, List.length_singleton] at hlen
    rw [List.map_append, List.nodup_append] at hasid hvpn
    have hslot : t.table.drop l.length = t.table[l.length] :: t.table.drop (l.length + 1) :=
      List.drop_eq_getElem_cons (by omega)
    have hfree : t.table[l.length].valid = false := ht _ (List.getElem_mem _)
    have hbefore := ih (by omega) hasid.1 hvpn.1
    rw [hslot] at hbefore
    have hkept : ∀ x ∈ l.reverse.map Translation.entry,
        reusable u.asid (storeVpn false u.vpn) x = false := by
      intro x hx
      obtain ⟨v, hv, rfl⟩ := List.mem_map.mp hx
      have hmem := List.mem_reverse.mp hv
      rw [← Bool.not_eq_true, reusable_entry, not_or]
      exact ⟨hasid.2.2 _ (List.mem_map_of_mem hmem) _ (by simp),
        hvpn.2.2 _ (List.mem_map_of_mem hmem) _ (by simp)⟩
    rw [storeAll, List.foldl_append]
    refine (store_table hkept (reusable_of_invalid hfree) hbefore).trans ?_
    rw [List.reverse_append, List.length_append]
    rfl

/-- Every entry after a list of stores was there before or is one of theirs. -/
theorem mem_of_mem_storeAll (h : x ∈ (t.storeAll l).table) :
    x ∈ t.table ∨ ∃ u ∈ l, x = u.entry := by
  induction l generalizing t with
  | nil => exact .inl h
  | cons u l ih =>
    rcases ih h with hmem | ⟨v, hv, hx⟩
    · rcases mem_of_mem_storeLoop hmem with hnew | hold
      · exact .inr ⟨u, List.mem_cons_self, hnew⟩
      · exact .inl hold
    · exact .inr ⟨v, List.mem_cons_of_mem _ hv, hx⟩

/-- Translations with different ASIDs and different page numbers are all found. -/
theorem findsAll_of_nodup (ht : ∀ x ∈ t.table, x.valid = false) (hlen : l.length ≤ t.table.length)
    (hkey : (l.map Translation.key).Nodup) (hasid : (l.map Translation.asid).Nodup)
    (hvpn : (l.map Translation.vpn).Nodup) : (t.storeAll l).FindsAll l := by
  intro u hu junk
  have htable := storeAll_table ht hlen hasid hvpn
  have hmem : u.entry ∈ (t.storeAll l).table := by
    rw [htable]
    exact List.mem_append_left _ (List.mem_map_of_mem (List.mem_reverse.mpr hu))
  obtain ⟨hfound, hhits⟩ := find_of_valid (find_valid_of_mem junk hmem (hits_entry u))
  rw [htable] at hfound
  rcases List.mem_append.mp hfound with hstored | hold
  · obtain ⟨v, hv, hentry⟩ := List.mem_map.mp hstored
    rw [← hentry] at hhits ⊢
    have hsame := List.inj_on_of_nodup_map hkey (List.mem_reverse.mp hv) hu (key_of_hits hhits)
    rw [hsame]
  · have hinvalid := ht _ (List.mem_of_mem_drop hold)
    rw [valid_of_hits hhits] at hinvalid
    cases hinvalid

/-- When an ASID or a page number repeats, there is a first store that meets it. -/
theorem exists_first_clash
    (h : ¬ ((l.map Translation.asid).Nodup ∧ (l.map Translation.vpn).Nodup)) :
    ∃ l₁ u l₂, l = l₁ ++ u :: l₂ ∧ (l₁.map Translation.asid).Nodup ∧
      (l₁.map Translation.vpn).Nodup ∧ ∃ v ∈ l₁, v.asid = u.asid ∨ v.vpn = u.vpn := by
  induction l using List.reverseRecOn with
  | nil => simp at h
  | append_singleton l u ih =>
    by_cases hgood : (l.map Translation.asid).Nodup ∧ (l.map Translation.vpn).Nodup
    · refine ⟨l, u, [], rfl, hgood.1, hgood.2, ?_⟩
      by_contra hex
      have hnone : ∀ v ∈ l, v.asid ≠ u.asid ∧ v.vpn ≠ u.vpn := fun v hv =>
        not_or.mp fun hclash => hex ⟨v, hv, hclash⟩
      refine h ⟨?_, ?_⟩
      · rw [List.map_append]
        refine hgood.1.append (List.nodup_singleton _) ?_
        simpa using fun v hv heq => (hnone v hv).1 heq
      · rw [List.map_append]
        refine hgood.2.append (List.nodup_singleton _) ?_
        simpa using fun v hv heq => (hnone v hv).2 heq
    · obtain ⟨l₁, v, l₂, rfl, hclash⟩ := ih hgood
      exact ⟨l₁, v, l₂ ++ [u], by simp, hclash⟩

/-- The store that meets an ASID or a page number again loses a translation for good. -/
theorem exists_lost (ht : ∀ x ∈ t.table, x.valid = false) (hlen : l.length ≤ t.table.length)
    (hkey : (l.map Translation.key).Nodup)
    (h : ¬ ((l.map Translation.asid).Nodup ∧ (l.map Translation.vpn).Nodup)) :
    ∃ v ∈ l, v.entry ∉ (t.storeAll l).table := by
  obtain ⟨l₁, u, l₂, rfl, hasid, hvpn, v, hv, hclash⟩ := exists_first_clash h
  rw [List.length_append] at hlen
  have htable := storeAll_table ht (by omega) hasid hvpn
  -- The victim is the entry of a translation `w` of the first part.
  have hmeets : ∃ x ∈ (⟨l₁.reverse.map Translation.entry⟩ : Tlb).table,
      reusable u.asid (storeVpn false u.vpn) x = true :=
    ⟨v.entry, List.mem_map_of_mem (List.mem_reverse.mpr hv), reusable_entry.mpr hclash⟩
  obtain ⟨xs, y, ys, hsplit, hxs, hy⟩ := exists_first_reusable hmeets
  dsimp only at hsplit
  obtain ⟨w, hw, rfl⟩ : ∃ w ∈ l₁, w.entry = y := by
    have hmem : y ∈ l₁.reverse.map Translation.entry := by
      rw [hsplit]
      simp
    obtain ⟨w, hw, hentry⟩ := List.mem_map.mp hmem
    exact ⟨w, List.mem_reverse.mp hw, hentry⟩
  rw [hsplit, List.append_assoc, List.cons_append] at htable
  have hafter : ((t.storeAll l₁).store u.asid u.vpn u.pte false).table =
      u.entry :: (xs ++ (ys ++ t.table.drop l₁.length)) := store_table hxs hy htable
  rw [List.map_append, List.map_cons, List.nodup_append, List.nodup_cons] at hkey
  obtain ⟨hfirst, ⟨-, -⟩, hapart⟩ := hkey
  have hne (z : Translation) (hz : z ∈ u :: l₂) : w.entry ≠ z.entry := by
    intro heq
    refine hapart _ (List.mem_map_of_mem hw) z.key ?_ (key_of_entry heq)
    rw [← List.map_cons]
    exact List.mem_map_of_mem hz
  have honce : w.entry ∉ xs ++ ys := by
    have hnodup : (l₁.reverse.map Translation.entry).Nodup := by
      rw [List.map_reverse, List.nodup_reverse]
      exact nodup_entries hfirst
    rw [hsplit] at hnodup
    exact (List.nodup_middle.mp hnodup).notMem
  have hrun : t.storeAll (l₁ ++ u :: l₂) =
      ((t.storeAll l₁).store u.asid u.vpn u.pte false).storeAll l₂ := List.foldl_append ..
  refine ⟨w, List.mem_append_left _ hw, fun hmem => ?_⟩
  rw [hrun] at hmem
  rcases mem_of_mem_storeAll hmem with hold | ⟨z, hz, heq⟩
  · rw [hafter, ← List.append_assoc] at hold
    rcases List.mem_cons.mp hold with hnew | hold
    · exact hne u List.mem_cons_self hnew
    rcases List.mem_append.mp hold with hold | hfree
    · exact honce hold
    · have hinvalid := ht _ (List.mem_of_mem_drop hfree)
      cases hinvalid
  · exact hne z (List.mem_cons_of_mem _ hz) heq

theorem valid_flush_all (t : Tlb) : ∀ x ∈ (t.flush 0 0).table, x.valid = false := by
  intro x hx
  obtain ⟨y, -, rfl⟩ := List.mem_map.mp hx
  simp

theorem flush_length (t : Tlb) (asid vpn : BitVec 32) :
    (t.flush asid vpn).table.length = t.table.length :=
  List.length_map ..

theorem storeLoop_length (tmp : TlbEntry) (es : List TlbEntry) :
    (storeLoop asid vpn tmp es).length = es.length := by
  induction es generalizing tmp with
  | nil => rfl
  | cons e es ih =>
    unfold storeLoop
    split
    · rfl
    · rw [List.length_cons, ih, List.length_cons]

theorem find_length (t : Tlb) (junk : TlbEntry) :
    (t.find junk asid vpn).2.table.length = t.table.length := by
  unfold find
  split
  · rfl
  · dsimp only
    split
    · rfl
    · rw [List.length_set, List.length_set]

/-- The table of the constructor keeps its 32 slots. -/
theorem run_length (calls : List TlbCall) : (Clocked.run call {} calls).table.length = 32 := by
  have hstep (t : Tlb) (c : TlbCall) : (t.call c).table.length = t.table.length := by
    cases c with
    | find junk asid vpn => exact find_length t junk
    | store asid vpn pte mega => exact storeLoop_length _ _
    | flush asid vpn => exact flush_length t asid vpn
  exact Clocked.kept_run (P := fun _ => True) (f := fun t => t.table.length)
    (fun _ _ _ => trivial) (fun t c _ => hstep t c) trivial calls

/-- The stores of translations with pairwise different keys after a full flush are all found
exactly when no ASID and no page number repeats. -/
theorem findsAll_iff (hlen : l.length ≤ t.table.length) (hkey : (l.map Translation.key).Nodup) :
    ((t.flush 0 0).storeAll l).FindsAll l ↔
      (l.map Translation.asid).Nodup ∧ (l.map Translation.vpn).Nodup := by
  have ht := valid_flush_all t
  rw [← flush_length t 0 0] at hlen
  constructor
  · intro hfinds
    by_contra hbad
    obtain ⟨v, hv, hlost⟩ := exists_lost ht hlen hkey hbad
    have hfound := hfinds v hv {}
    refine hlost ?_
    rw [← hfound]
    refine (find_of_valid ?_).1
    rw [hfound]
    rfl
  · rintro ⟨hasid, hvpn⟩
    exact findsAll_of_nodup ht hlen hkey hasid hvpn

/-- A store keeps what it need not lose exactly when the entry that it overwrites can be
spared. After any sequence of calls, 32 translations fill the flushed table exactly when no
ASID and no page number repeats. -/
theorem stores_keep_iff (t : Tlb) (asid vpn pte : BitVec 32) (mega : Bool) (calls : List TlbCall)
    (l : List Translation) :
    (PageArgs asid vpn →
      (t.Keeps asid vpn pte mega ↔
        (t.HasRoom (entryOf asid vpn pte mega) → t.VictimSpare asid vpn pte mega))) ∧
    (l.length = 32 → (l.map Translation.key).Nodup →
      ((((Clocked.run call {} calls).flush 0 0).storeAll l).FindsAll l ↔
        (l.map Translation.asid).Nodup ∧ (l.map Translation.vpn).Nodup)) := by
  refine ⟨fun hargs => keeps_iff t hargs, fun hl hkey => ?_⟩
  exact findsAll_iff (by rw [hl, run_length]) hkey

/-- A second page of an address space drops the first one from an otherwise empty table. -/
theorem second_page_drops_first :
    let t : Tlb := Tlb.store {} 1 5 0xcf false
    PageArgs 1 6 ∧ t.HasRoom (entryOf 1 6 0xcf false) ∧
      (t.find {} 1 5).1 = entryOf 1 5 0xcf false ∧
      ((t.store 1 6 0xcf false).find {} 1 5).1.valid = false ∧ ¬ t.Keeps 1 6 0xcf false := by
  intro t
  have hroom : t.HasRoom (entryOf 1 6 0xcf false) :=
    ⟨{}, by decide, .inl rfl⟩
  refine ⟨⟨by decide, by decide⟩, hroom, by decide, by decide, fun hkeeps => ?_⟩
  have hkept := hkeeps hroom (entryOf 1 5 0xcf false) (by decide) rfl (by decide)
  revert hkept
  decide

end Tlb

end Turtle
