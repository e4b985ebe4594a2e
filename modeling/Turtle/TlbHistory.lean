import Turtle.AddressSpaces

/-!
# Lookups are faithful to the history of the TLB

`store` pushes entries down the table and overwrites one of them, and `find` swaps the
entry it hits to the front, so entries move all the time. What a lookup returns is
nevertheless the entry of an earlier store for the page that is looked up, and no flush
since that store matched it. The calls take any arguments here, not only those of the MMU.
-/

namespace Turtle

/-- A call of one of the three methods of `TLB`. -/
inductive TlbCall
  | find (junk : TlbEntry) (asid vpn : BitVec 32)
  | store (asid vpn pte : BitVec 32) (isMegapage : Bool)
  | flush (asid vpn : BitVec 32)

/-- An ASID of nine bits and a page number of twenty. -/
def PageArgs (asid vpn : BitVec 32) : Prop := asid.toNat < 512 ∧ vpn.toNat < 2 ^ 20

/-- The call that the MMU or EXEC makes. -/
def TlbOp.toCall : TlbOp → TlbCall
  | .find junk satp va => .find junk (tlbTag satp) (va >>> 12)
  | .store satp va pte isMegapage => .store (tlbTag satp) (va >>> 12) pte isMegapage
  | .flush asid vpn => .flush asid vpn

/-- The arguments of a lookup or a store are in range. A flush may have any. -/
def TlbCall.InRange : TlbCall → Prop
  | .find _ asid vpn => PageArgs asid vpn
  | .store asid vpn _ _ => PageArgs asid vpn
  | .flush _ _ => True

namespace Tlb

/-- The table after a call. -/
def call (t : Tlb) : TlbCall → Tlb
  | .find junk asid vpn => (t.find junk asid vpn).2
  | .store asid vpn pte isMegapage => t.store asid vpn pte isMegapage
  | .flush asid vpn => t.flush asid vpn

/-- The entry that a store puts in front of the table. -/
def entryOf (asid vpn pte : BitVec 32) (isMegapage : Bool) : TlbEntry :=
  { vpn := (if isMegapage then vpn &&& 0xfffffc00 else vpn).setWidth 20
    asid := asid.setWidth 10
    pte := pte
    valid := true
    isMegapage := isMegapage }

/-- The two page numbers agree as far as the size of the page tells them apart. -/
def SamePage (isMegapage : Bool) (vpn vpn' : BitVec 32) : Prop :=
  if isMegapage then vpn >>> 10 = vpn' >>> 10 else vpn = vpn'

instance (isMegapage : Bool) (vpn vpn' : BitVec 32) : Decidable (SamePage isMegapage vpn vpn') := by
  unfold SamePage
  infer_instance

/-- The entry `x` is a faithful answer to a lookup after `calls`: a store for the page made
it, with the ASID that is looked up or with the `G` bit, and no later flush matches it. -/
def Faithful (calls : List TlbCall) (asid vpn : BitVec 32) (x : TlbEntry) : Prop :=
  ∃ before asid' vpn' pte mega after,
    calls = before ++ .store asid' vpn' pte mega :: after ∧ x = entryOf asid' vpn' pte mega ∧
      SamePage mega vpn' vpn ∧ (asid' = asid ∨ pte &&& 0x20 = 0x20) ∧
      ∀ fasid fvpn, .flush fasid fvpn ∈ after → flushes fasid fvpn x = false

variable {t : Tlb} {junk x : TlbEntry} {asid vpn pte : BitVec 32} {mega : Bool}
  {calls : List TlbCall}

/-! ### The entry of a store -/

theorem entryOf_asid (h : asid.toNat < 512) :
    (entryOf asid vpn pte mega).asid.toNat = asid.toNat := by
  change (asid.setWidth 10).toNat = _
  rw [BitVec.toNat_setWidth, Nat.mod_eq_of_lt (by omega)]

/-- The page number of the entry, rounded down for a megapage. -/
theorem entryOf_vpn (h : vpn.toNat < 2 ^ 20) : (entryOf asid vpn pte mega).vpn.toNat =
    if mega then vpn.toNat / 1024 * 1024 else vpn.toNat := by
  cases mega with
  | false =>
    change (vpn.setWidth 20).toNat = vpn.toNat
    rw [BitVec.toNat_setWidth, Nat.mod_eq_of_lt h]
  | true =>
    change ((vpn &&& 0xfffffc00).setWidth 20).toNat = vpn.toNat / 1024 * 1024
    rw [BitVec.toNat_setWidth, Bits.and_high_toNat _ _ (n := 10) (by decide)]
    omega

/-- A lookup that hits the entry of a store looks for the page of the store, under its ASID
unless the entry is global. -/
theorem hits_entryOf {asid' vpn' : BitVec 32} (hargs : PageArgs asid' vpn')
    (h : hits asid vpn (entryOf asid' vpn' pte mega) = true) :
    SamePage mega vpn' vpn ∧ (asid' = asid ∨ pte &&& 0x20 = 0x20) := by
  rw [hits_iff_page, entryOf_asid hargs.1, entryOf_vpn hargs.2] at h
  obtain ⟨-, htag, hhigh, hlow⟩ := h
  refine ⟨?_, ?_⟩
  · unfold SamePage
    cases mega with
    | false =>
      simp only [Bool.false_eq_true, if_false] at hhigh hlow ⊢
      have hlow : vpn'.toNat % 1024 = vpn.toNat % 1024 := hlow.resolve_left Bool.false_ne_true
      apply BitVec.eq_of_toNat_eq
      omega
    | true =>
      simp only [if_true] at hhigh ⊢
      apply BitVec.eq_of_toNat_eq
      rw [BitVec.toNat_ushiftRight, BitVec.toNat_ushiftRight, Nat.shiftRight_eq_div_pow,
        Nat.shiftRight_eq_div_pow]
      omega
  · rcases htag with hglobal | htag
    · exact .inr hglobal
    · exact .inl (BitVec.eq_of_toNat_eq htag.symm)

/-! ### Every history -/

/-- The call puts the entry `x` into the table. -/
def Adds (c : TlbCall) (x : TlbEntry) : Prop :=
  ∃ asid vpn pte mega, c = .store asid vpn pte mega ∧ x = entryOf asid vpn pte mega

/-- The call is a flush that matches the entry `x`. -/
def Removes (c : TlbCall) (x : TlbEntry) : Prop :=
  ∃ asid vpn, c = .flush asid vpn ∧ flushes asid vpn x = true

/-- What one call does to the valid entries: a lookup moves them, a store adds one and may
lose one, and a flush removes those that it matches. -/
theorem mem_of_mem_call (t : Tlb) (c : TlbCall) (x : TlbEntry)
    (h : x ∈ (t.call c).table ∧ x.valid = true) :
    Adds c x ∨ ((x ∈ t.table ∧ x.valid = true) ∧ ¬ Removes c x) := by
  obtain ⟨hmem, hvalid⟩ := h
  cases c with
  | find junk asid vpn =>
    refine .inr ⟨⟨mem_of_mem_find hmem, hvalid⟩, ?_⟩
    rintro ⟨_, _, hc, -⟩
    cases hc
  | store asid vpn pte mega =>
    rcases mem_of_mem_storeLoop hmem with hnew | hold
    · exact .inl ⟨asid, vpn, pte, mega, rfl, hnew⟩
    · refine .inr ⟨⟨hold, hvalid⟩, ?_⟩
      rintro ⟨_, _, hc, -⟩
      cases hc
  | flush asid vpn =>
    obtain ⟨hold, hspared⟩ := (mem_flush_iff hvalid).mp hmem
    refine .inr ⟨⟨hold, hvalid⟩, ?_⟩
    rintro ⟨_, _, hc, hflush⟩
    cases hc
    rw [hspared] at hflush
    cases hflush

/-- An entry of the table that a lookup hits is a faithful answer. -/
theorem faithful_of_hits (ht : ∀ x ∈ t.table, x.valid = false)
    (hcalls : ∀ c ∈ calls, c.InRange) (hmem : x ∈ (Clocked.run call t calls).table)
    (hhits : hits asid vpn x = true) : Faithful calls asid vpn x := by
  have hnew : ¬ (x ∈ t.table ∧ x.valid = true) := by
    rintro ⟨hold, hvalid⟩
    rw [ht x hold] at hvalid
    cases hvalid
  obtain ⟨before, c, after, rfl, ⟨asid', vpn', pte, mega, rfl, rfl⟩, hafter⟩ :=
    Clocked.exists_addition (M := fun t x => x ∈ t.table ∧ x.valid = true)
      (fun t c => mem_of_mem_call t c x) hnew calls ⟨hmem, valid_of_hits hhits⟩
  have hargs : PageArgs asid' vpn' := hcalls (.store asid' vpn' pte mega) (by simp)
  obtain ⟨hpage, htag⟩ := hits_entryOf hargs hhits
  refine ⟨before, asid', vpn', pte, mega, after, rfl, rfl, hpage, htag, ?_⟩
  intro fasid fvpn hflush
  by_contra hmatch
  exact hafter _ hflush ⟨fasid, fvpn, rfl, by simpa using hmatch⟩

/-- After any sequence of calls on a table without valid entries, a lookup that returns a
valid entry is answered faithfully. -/
theorem find_faithful (t : Tlb) (ht : ∀ x ∈ t.table, x.valid = false) (calls : List TlbCall)
    (hcalls : ∀ c ∈ calls, c.InRange) (junk : TlbEntry) (asid vpn : BitVec 32)
    (h : ((Clocked.run call t calls).find junk asid vpn).1.valid = true) :
    Faithful calls asid vpn ((Clocked.run call t calls).find junk asid vpn).1 := by
  obtain ⟨hmem, hhits⟩ := find_of_valid h
  exact faithful_of_hits ht hcalls hmem hhits

/-- A page that is stored, pushed down by a second store and looked up behind it. -/
theorem find_faithful_pushed_down :
    let calls : List TlbCall := [.store 1 5 0xcf false, .store 2 0x806 0xdf true, .flush 2 5]
    ((Clocked.run call {} calls).find {} 1 5).1 = entryOf 1 5 0xcf false ∧
      Faithful calls 1 5 ((Clocked.run call {} calls).find {} 1 5).1 := by
  intro calls
  refine ⟨by decide, find_faithful {} ?_ calls ?_ {} 1 5 (by decide)⟩
  · intro x hx
    rw [List.eq_of_mem_replicate hx]
  · simp [calls, TlbCall.InRange, PageArgs]

/-- The arguments that the MMU cuts out of `satp` and an address are in range. -/
theorem toCall_inRange (op : TlbOp) : op.toCall.InRange := by
  have hpage (satp va : BitVec 32) : PageArgs (tlbTag satp) (va >>> 12) := by
    have hva := va.isLt
    refine ⟨?_, ?_⟩
    · rw [tlbTag_toNat]
      omega
    · rw [BitVec.toNat_ushiftRight, Nat.shiftRight_eq_div_pow]
      omega
  cases op with
  | find junk satp va => exact hpage satp va
  | store satp va pte mega => exact hpage satp va
  | flush asid vpn => trivial

/-- The histories of the MMU are among the sequences of calls. -/
theorem run_apply_eq_call (t : Tlb) (ops : List TlbOp) :
    Clocked.run apply t ops = Clocked.run call t (ops.map TlbOp.toCall) := by
  induction ops generalizing t with
  | nil => rfl
  | cons op ops ih =>
    rw [Clocked.run_cons, ih, List.map_cons, Clocked.run_cons]
    cases op <;> rfl

/-- Every hit of the MMU is a faithful answer. -/
theorem faithful_of_apply (ops : List TlbOp) (junk : TlbEntry) (satp va : BitVec 32)
    (h : ((Clocked.run apply {} ops).find junk (tlbTag satp) (va >>> 12)).1.valid = true) :
    Faithful (ops.map TlbOp.toCall) (tlbTag satp) (va >>> 12)
      ((Clocked.run apply {} ops).find junk (tlbTag satp) (va >>> 12)).1 := by
  rw [run_apply_eq_call] at h ⊢
  obtain ⟨hmem, hhits⟩ := find_of_valid h
  refine faithful_of_hits (fun x hx => ?_) (fun c hc => ?_) hmem hhits
  · rw [List.eq_of_mem_replicate hx]
  · obtain ⟨op, -, rfl⟩ := List.mem_map.mp hc
    exact toCall_inRange op

end Tlb

end Turtle
