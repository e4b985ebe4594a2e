import Turtle.Lib.Clocked
import Turtle.Mmu.Inst

/-!
# Histories of the TLB

The MMU looks addresses up and stores the leaves of its walks, EXEC flushes. The
table after any history of these calls holds only entries that a store of the
history made, and a lookup hits only what the table holds.
-/

namespace Turtle

/-- The tag that the MMU cuts out of `satp` for each of its calls. -/
def tlbTag (satp : BitVec 32) : BitVec 32 := (satp >>> 20) &&& 0x1ff

/-- The ASID field of `satp` in Sv32. -/
def satpAsid (satp : BitVec 32) : BitVec 9 := (satp >>> 22).setWidth 9

/-- A call: a lookup or a store of the MMU for `va` while `satp` is active, or a
flush by EXEC. -/
inductive TlbOp
  | find (junk : TlbEntry) (satp va : BitVec 32)
  | store (satp va pte : BitVec 32) (isMegapage : Bool)
  | flush (asid vpn : BitVec 32)

namespace Tlb

/-- The table after a call. -/
def apply (t : Tlb) : TlbOp → Tlb
  | .find junk satp va => (t.find junk (tlbTag satp) (va >>> 12)).2
  | .store satp va pte isMegapage => t.store (tlbTag satp) (va >>> 12) pte isMegapage
  | .flush asid vpn => t.flush asid vpn

/-- The entry that a store for `va` under `satp` makes. -/
def stored (satp va pte : BitVec 32) (isMegapage : Bool) : TlbEntry :=
  { vpn := (if isMegapage then (va >>> 12) &&& 0xfffffc00 else va >>> 12).setWidth 20
    asid := (tlbTag satp).setWidth 10
    pte := pte
    valid := true
    isMegapage := isMegapage }

variable {t : Tlb} {junk x : TlbEntry} {asid vpn satp va pte : BitVec 32} {mega : Bool}

/-! ### One call -/

/-- A lookup returns the entry it hits, or else a record that is not valid. -/
theorem find_cases (t : Tlb) (junk : TlbEntry) (asid vpn : BitVec 32) :
    ((t.find junk asid vpn).1 ∈ t.table ∧ hits asid vpn (t.find junk asid vpn).1 = true) ∨
    ((∀ x ∈ t.table, hits asid vpn x = false) ∧
      t.find junk asid vpn = ({ junk with valid := false }, t)) := by
  unfold find
  cases hidx : t.table.findIdx? (hits asid vpn) with
  | none =>
    refine .inr ⟨fun x hx => ?_, rfl⟩
    simpa using List.findIdx?_eq_none_iff.mp hidx x hx
  | some i =>
    obtain ⟨hlt, hhit, -⟩ := List.findIdx?_eq_some_iff_getElem.mp hidx
    have hget : t.table.getD i {} = t.table[i] := by simp [List.getD, hlt]
    refine .inl ⟨?_, ?_⟩
    · change t.table.getD i {} ∈ t.table
      rw [hget]
      exact List.getElem_mem hlt
    · change hits asid vpn (t.table.getD i {}) = true
      rw [hget]
      exact hhit

theorem find_of_valid (h : (t.find junk asid vpn).1.valid = true) :
    (t.find junk asid vpn).1 ∈ t.table ∧ hits asid vpn (t.find junk asid vpn).1 = true := by
  rcases find_cases t junk asid vpn with hhit | ⟨-, hmiss⟩
  · exact hhit
  · rw [hmiss] at h
    cases h

theorem find_of_miss (h : ∀ x ∈ t.table, hits asid vpn x = false) :
    t.find junk asid vpn = ({ junk with valid := false }, t) := by
  rcases find_cases t junk asid vpn with ⟨hmem, hhit⟩ | ⟨-, hmiss⟩
  · rw [h _ hmem] at hhit
    cases hhit
  · exact hmiss

theorem valid_of_hits (h : hits asid vpn x = true) : x.valid = true := by
  simp only [hits, Bool.and_eq_true] at h
  exact h.1.1.1

/-- A table that an entry of would answer a lookup does answer it. -/
theorem find_valid_of_mem (junk : TlbEntry) (hmem : x ∈ t.table) (hhit : hits asid vpn x = true) :
    (t.find junk asid vpn).1.valid = true := by
  rcases find_cases t junk asid vpn with ⟨-, h⟩ | ⟨hmiss, -⟩
  · exact valid_of_hits h
  · rw [hmiss x hmem] at hhit
    cases hhit

/-- The swap of a hit brings in nothing new. -/
theorem mem_of_mem_find (h : x ∈ (t.find junk asid vpn).2.table) : x ∈ t.table := by
  unfold find at h
  cases hidx : t.table.findIdx? (hits asid vpn) with
  | none =>
    rw [hidx] at h
    exact h
  | some i =>
    rw [hidx] at h
    obtain ⟨hlt, -, -⟩ := List.findIdx?_eq_some_iff_getElem.mp hidx
    have hget : ∀ j, j < t.table.length → t.table.getD j {} ∈ t.table := by
      intro j hj
      simp [List.getD, hj]
    dsimp only at h
    split_ifs at h
    · exact h
    · rcases List.mem_or_eq_of_mem_set h with h | rfl
      · rcases List.mem_or_eq_of_mem_set h with h | rfl
        · exact h
        · exact hget 0 (by omega)
      · exact hget i hlt

theorem mem_of_mem_storeLoop {tmp : TlbEntry} {es : List TlbEntry}
    (h : x ∈ storeLoop asid vpn tmp es) : x = tmp ∨ x ∈ es := by
  induction es generalizing tmp with
  | nil => cases h
  | cons e es ih =>
    unfold storeLoop at h
    split_ifs at h
    · rcases List.mem_cons.mp h with rfl | h
      · exact .inl rfl
      · exact .inr (List.mem_cons_of_mem _ h)
    · rcases List.mem_cons.mp h with rfl | h
      · exact .inl rfl
      · rcases ih h with rfl | h
        · exact .inr List.mem_cons_self
        · exact .inr (List.mem_cons_of_mem _ h)

/-- A store adds the new entry only. -/
theorem mem_of_mem_store (h : x ∈ (t.store (tlbTag satp) (va >>> 12) pte mega).table) :
    x = stored satp va pte mega ∨ x ∈ t.table := mem_of_mem_storeLoop h

theorem mem_storeLoop_self {tmp : TlbEntry} {es : List TlbEntry} (h : es ≠ []) :
    tmp ∈ storeLoop asid vpn tmp es := by
  obtain ⟨e, es, rfl⟩ := List.exists_cons_of_ne_nil h
  rw [storeLoop]
  split <;> exact List.mem_cons_self

/-- A store puts the new entry in front. -/
theorem mem_store (h : t.table ≠ []) :
    stored satp va pte mega ∈ (t.store (tlbTag satp) (va >>> 12) pte mega).table :=
  mem_storeLoop_self h

/-- The test of `TLB::flush`. -/
def flushes (asid vpn : BitVec 32) (e : TlbEntry) : Bool :=
  (e.asid.setWidth 32 == asid || asid == 0) && (vpn == e.vpn.setWidth 32 || vpn == 0)

/-- The entries that are valid after a flush are the valid ones that it spares. -/
theorem mem_flush_iff (hvalid : x.valid = true) :
    x ∈ (t.flush asid vpn).table ↔ x ∈ t.table ∧ flushes asid vpn x = false := by
  simp only [flush, List.mem_map]
  constructor
  · rintro ⟨y, hy, hxy⟩
    split_ifs at hxy with hflush
    · rw [← hxy] at hvalid
      cases hvalid
    · rw [← hxy]
      exact ⟨hy, Bool.eq_false_of_not_eq_true hflush⟩
  · rintro ⟨hmem, hspared⟩
    refine ⟨x, hmem, if_neg ?_⟩
    change ¬ flushes asid vpn x = true
    rw [hspared]
    exact Bool.false_ne_true

/-! ### Every history -/

/-- The entries that the stores of a history make. -/
def StoredBy (ops : List TlbOp) (x : TlbEntry) : Prop :=
  ∃ satp va pte mega, TlbOp.store satp va pte mega ∈ ops ∧ x = stored satp va pte mega

theorem mem_of_mem_apply (op : TlbOp) (hvalid : x.valid = true)
    (h : x ∈ (t.apply op).table) : x ∈ t.table ∨ StoredBy [op] x := by
  cases op with
  | find junk satp va => exact .inl (mem_of_mem_find h)
  | store satp va pte mega =>
    rcases mem_of_mem_store h with rfl | h
    · exact .inr ⟨satp, va, pte, mega, List.mem_singleton_self _, rfl⟩
    · exact .inl h
  | flush asid vpn => exact .inl ((mem_flush_iff hvalid).mp h).1

theorem StoredBy.mono {ops ws : List TlbOp} (hsub : ops ⊆ ws) (h : StoredBy ops x) :
    StoredBy ws x := by
  obtain ⟨satp, va, pte, mega, hmem, hx⟩ := h
  exact ⟨satp, va, pte, mega, hsub hmem, hx⟩

/-- After a history, a valid entry was there before it or was stored by it. -/
theorem mem_of_mem_run (ops : List TlbOp) (hvalid : x.valid = true)
    (h : x ∈ (Clocked.run apply t ops).table) : x ∈ t.table ∨ StoredBy ops x := by
  induction ops generalizing t with
  | nil => exact .inl h
  | cons op ops ih =>
    rcases ih h with h | h
    · rcases mem_of_mem_apply op hvalid h with h | h
      · exact .inl h
      · exact .inr (h.mono (by simp))
    · exact .inr (h.mono (by simp))

/-- From an empty table, every valid entry was stored. -/
theorem storedBy_of_mem (ops : List TlbOp) (hvalid : x.valid = true)
    (h : x ∈ (Clocked.run apply {} ops).table) : StoredBy ops x := by
  rcases mem_of_mem_run ops hvalid h with h | h
  · rw [List.eq_of_mem_replicate h] at hvalid
    cases hvalid
  · exact h

end Tlb

end Turtle
