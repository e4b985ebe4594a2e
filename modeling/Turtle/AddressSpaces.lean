import Turtle.Lib.Bits
import Turtle.Mmu.TlbUse

/-!
# Address spaces in the TLB

Entries are tagged with bits 28 to 20 of `satp`, which are the low seven bits of
the ASID and the top two bits of the root page number. Two address spaces are
kept apart exactly when these bits differ, and `SFENCE.VMA` compares its operands
with that tag and with the page number.
-/

namespace Turtle

namespace TlbEntry

/-- The `G` bit is set. -/
def Global (x : TlbEntry) : Prop := x.pte &&& 0x20 = 0x20

/-- The page or megapage of the entry contains `va`. -/
def Covers (x : TlbEntry) (va : BitVec 32) : Prop :=
  x.vpn.toNat / 1024 = va.toNat / 4194304 ∧
    (x.isMegapage = true ∨ x.vpn.toNat % 1024 = va.toNat / 4096 % 1024)

end TlbEntry

namespace Tlb

variable {t : Tlb} {junk x y : TlbEntry} {satp satp₁ satp₂ va pte : BitVec 32} {mega : Bool}
  {ops : List TlbOp}

/-! ### The hit test and the stored entries -/

/-- The hit test in terms of numbers. -/
theorem hits_iff_page {asid vpn : BitVec 32} : hits asid vpn x = true ↔
    x.valid = true ∧ (x.Global ∨ asid.toNat = x.asid.toNat) ∧
      x.vpn.toNat / 1024 = vpn.toNat / 1024 ∧
      (x.isMegapage = true ∨ x.vpn.toNat % 1024 = vpn.toNat % 1024) := by
  have hmask : (x.vpn &&& 0x3ff).toNat = x.vpn.toNat % 1024 := by
    rw [BitVec.toNat_and]
    exact Nat.and_two_pow_sub_one_eq_mod _ 10
  have hmask' : (vpn &&& 0x3ff).toNat = vpn.toNat % 1024 := by
    rw [BitVec.toNat_and]
    exact Nat.and_two_pow_sub_one_eq_mod _ 10
  have hvpn := x.vpn.isLt
  have hasid := x.asid.isLt
  have htag : asid = x.asid.setWidth 32 ↔ asid.toNat = x.asid.toNat := by
    rw [← BitVec.toNat_inj, BitVec.toNat_setWidth, Nat.mod_eq_of_lt (by omega)]
  have hhigh : (x.vpn >>> 10).setWidth 32 = vpn >>> 10 ↔
      x.vpn.toNat / 1024 = vpn.toNat / 1024 := by
    rw [← BitVec.toNat_inj]
    simp only [BitVec.toNat_setWidth, BitVec.toNat_ushiftRight, Nat.shiftRight_eq_div_pow]
    rw [Nat.mod_eq_of_lt (by omega)]
  have hlow : (x.vpn &&& 0x3ff).setWidth 32 = vpn &&& 0x3ff ↔
      x.vpn.toNat % 1024 = vpn.toNat % 1024 := by
    rw [← BitVec.toNat_inj, BitVec.toNat_setWidth, hmask, hmask', Nat.mod_eq_of_lt (by omega)]
  simp only [hits, Bool.and_eq_true, Bool.or_eq_true, beq_iff_eq, htag, hhigh, hlow,
    TlbEntry.Global, and_assoc]

theorem hits_iff : hits (tlbTag satp) (va >>> 12) x = true ↔
    x.valid = true ∧ (x.Global ∨ (tlbTag satp).toNat = x.asid.toNat) ∧ x.Covers va := by
  rw [hits_iff_page, TlbEntry.Covers, BitVec.toNat_ushiftRight, Nat.shiftRight_eq_div_pow,
    Nat.div_div_eq_div_mul]

theorem tlbTag_toNat : (tlbTag satp).toNat = satp.toNat / 1048576 % 512 := by
  rw [tlbTag, BitVec.toNat_and, BitVec.toNat_ushiftRight, Nat.shiftRight_eq_div_pow]
  exact Nat.and_two_pow_sub_one_eq_mod _ 9

theorem satpAsid_toNat : (satpAsid satp).toNat = satp.toNat / 4194304 % 512 := by
  rw [satpAsid, BitVec.toNat_setWidth, BitVec.toNat_ushiftRight, Nat.shiftRight_eq_div_pow]

theorem stored_asid : (stored satp va pte mega).asid.toNat = (tlbTag satp).toNat := by
  have hlt : (tlbTag satp).toNat < 512 := by
    rw [tlbTag_toNat]
    omega
  change ((tlbTag satp).setWidth 10).toNat = _
  rw [BitVec.toNat_setWidth, Nat.mod_eq_of_lt (by omega)]

/-- The page number of a stored entry, rounded down for a megapage. -/
theorem stored_vpn : (stored satp va pte mega).vpn.toNat =
    if mega then va.toNat / 4194304 * 1024 else va.toNat / 4096 := by
  have hlt := va.isLt
  have hshift : (va >>> 12).toNat = va.toNat / 4096 := by
    rw [BitVec.toNat_ushiftRight, Nat.shiftRight_eq_div_pow]
  cases mega with
  | false =>
    change ((va >>> 12).setWidth 20).toNat = va.toNat / 4096
    rw [BitVec.toNat_setWidth, hshift]
    omega
  | true =>
    change ((va >>> 12 &&& 0xfffffc00).setWidth 20).toNat = va.toNat / 4194304 * 1024
    rw [BitVec.toNat_setWidth, Bits.and_high_toNat _ _ (n := 10) (by decide), hshift]
    omega

theorem stored_covers : (stored satp va pte mega).Covers va := by
  unfold TlbEntry.Covers
  rw [stored_vpn]
  cases mega with
  | false => exact ⟨by simp only [Bool.false_eq_true, if_false]; omega, .inr rfl⟩
  | true => exact ⟨by simp only [if_true]; omega, .inl rfl⟩

/-- What every stored entry satisfies: nine tag bits, and an aligned megapage. -/
structure Proper (x : TlbEntry) : Prop where
  asid_lt : x.asid.toNat < 512
  aligned : x.isMegapage = true → x.vpn.toNat % 1024 = 0

theorem StoredBy.proper (h : StoredBy ops x) : Proper x := by
  obtain ⟨satp, va, pte, mega, -, rfl⟩ := h
  constructor
  · rw [stored_asid, tlbTag_toNat]
    omega
  · intro hmega
    rw [stored_vpn, if_pos (show mega = true from hmega)]
    omega

/-- A `satp` under which a tag is used. -/
def satpFor (tag : ℕ) : BitVec 32 := BitVec.ofNat 32 (tag * 1048576)

theorem tlbTag_satpFor {tag : ℕ} (h : tag < 512) : (tlbTag (satpFor tag)).toNat = tag := by
  rw [tlbTag_toNat, satpFor, BitVec.toNat_ofNat]
  omega

/-! ### Separation -/

/-- No history lets a lookup under `satp₂` return a non-global entry that was
stored under `satp₁`. -/
def Separated (satp₁ satp₂ : BitVec 32) : Prop :=
  ∀ (ops : List TlbOp) (junk : TlbEntry) (va : BitVec 32),
    let x := ((Clocked.run apply {} ops).find junk (tlbTag satp₂) (va >>> 12)).1
    x.valid = true → ¬ x.Global →
      ∀ va' pte mega, TlbOp.store satp₁ va' pte mega ∈ ops → x ≠ stored satp₁ va' pte mega

/-- The TLB separates two address spaces exactly when bits 28 to 20 of their
`satp` values differ. -/
theorem separated_iff_tag_ne (satp₁ satp₂ : BitVec 32) :
    Separated satp₁ satp₂ ↔ tlbTag satp₁ ≠ tlbTag satp₂ := by
  constructor
  · -- one walk under `satp₁`, then the lookup of the same page
    intro h htag
    let op : TlbOp := .store satp₁ 0 0xcf false
    have hmem : stored satp₁ 0 0xcf false ∈ (Clocked.run apply {} [op]).table :=
      mem_store (List.replicate_succ_ne_nil)
    have hhit :
        hits (tlbTag satp₂) ((0 : BitVec 32) >>> 12) (stored satp₁ 0 0xcf false) = true := by
      rw [hits_iff]
      exact ⟨rfl, .inr (by rw [stored_asid, htag]), stored_covers⟩
    have hvalid := find_valid_of_mem {} hmem hhit
    obtain ⟨satp, va, pte, mega, hop, heq⟩ :=
      storedBy_of_mem [op] hvalid (find_of_valid hvalid).1
    obtain ⟨rfl, rfl, rfl, rfl⟩ : satp = satp₁ ∧ va = 0 ∧ pte = 0xcf ∧ mega = false := by
      simpa [op] using hop
    refine h [op] {} 0 hvalid ?_ 0 0xcf false (List.mem_singleton_self _) heq
    rw [heq]
    change ¬ (0xcf : BitVec 32) &&& 0x20 = 0x20
    decide
  · intro htag ops junk va x hvalid hglobal va' pte mega hop heq
    have hhit := (hits_iff.mp (find_of_valid hvalid).2).2.1
    rcases hhit with hg | hhit
    · exact hglobal hg
    · refine htag (BitVec.eq_of_toNat_eq ?_)
      have hasid : x.asid.toNat = (tlbTag satp₁).toNat := by rw [heq, stored_asid]
      exact (hhit.trans hasid).symm

/-- Supervisor mode with the given `satp` and no restriction on physical memory. -/
def supervisorWith (satp : BitVec 32) : Exec :=
  { priv := privS
    pmp :=
      { pmpaddr := Function.update (fun _ => 0) 0 0x3fffffff
        pmpconfig := Function.update (fun _ => 0) 0 15
        pmpentryId := Function.update (fun _ => false) 0 true }
    csrRegs := Function.update (fun _ => 0) Csr.satp satp }

/-- The table after a load at `0x10` whose walk finds a pointer to `0x80001000` and
there a page at `0x80002000`. -/
def tableAfterWalk (satp : BitVec 32) : Tlb :=
  let e := supervisorWith satp
  let req : DmemIn := { dmemReqAck := true, dmemAddr := 0x10, dmemIsLoad := true }
  let waiting := { req with dmemReqAck := false }
  let first := Dmmu.dmemReqSeq e {} { req := req }
  let second := Dmmu.dmemReqSeq e first.1
    { req := waiting, rsp := { memRspAck := true, memRspRdata := 0x20000401 }, tlb := first.2 }
  (Dmmu.dmemReqSeq e second.1
    { req := waiting, rsp := { memRspAck := true, memRspRdata := 0x200008cf },
      tlb := second.2 }).2

/-- ASIDs 0 and 128 share a tag: after the walk under ASID 0, the same load under
ASID 128 goes to the page of ASID 0. -/
theorem asid_128_reads_page_of_asid_0 :
    satpAsid 0x80080000 = 0 ∧ satpAsid 0xa0090000 = 128 ∧ ¬ Separated 0x80080000 0xa0090000 ∧
    tableAfterWalk 0x80080000 =
      Clocked.run apply {} [.store 0x80080000 0x10 0x200008cf false] ∧
    (Dmmu.dmemReqSeq (supervisorWith 0xa0090000) {}
      { req := { dmemReqAck := true, dmemAddr := 0x10, dmemIsLoad := true }
        tlb := tableAfterWalk 0x80080000 }).1.dmmuToMem.dmemAddr = 0x80002010 := by
  refine ⟨by decide, by decide, fun h => ?_, by decide, by decide⟩
  have hglobal : ¬ ((Clocked.run apply {} [.store 0x80080000 0x10 0x200008cf false]).find {}
      (tlbTag 0xa0090000) (0x10 >>> 12)).1.Global := by
    unfold TlbEntry.Global
    decide
  exact h [.store 0x80080000 0x10 0x200008cf false] {} 0x10 (by decide) hglobal 0x10 0x200008cf
    false (List.mem_singleton_self _) (by decide)

/-! ### What a fence spares -/

/-- The tag of the entry is used under some `satp` with ASID `a`. -/
def TagOf (a : BitVec 9) (x : TlbEntry) : Prop := x.asid.toNat / 4 = a.toNat % 128

theorem tagOf_of_tag_eq {a : BitVec 9} (hasid : satpAsid satp = a)
    (htag : (tlbTag satp).toNat = x.asid.toNat) : TagOf a x := by
  have ha := congrArg BitVec.toNat hasid
  rw [satpAsid_toNat] at ha
  rw [tlbTag_toNat] at htag
  unfold TagOf
  omega

theorem TagOf.exists_satp {a : BitVec 9} (h : TagOf a x) :
    ∃ satp, satpAsid satp = a ∧ (tlbTag satp).toNat = x.asid.toNat := by
  have ha := a.isLt
  unfold TagOf at h
  refine ⟨BitVec.ofNat 32 (a.toNat * 4194304 + x.asid.toNat % 4 * 1048576), ?_, ?_⟩
  · apply BitVec.eq_of_toNat_eq
    rw [satpAsid_toNat, BitVec.toNat_ofNat]
    omega
  · rw [tlbTag_toNat, BitVec.toNat_ofNat]
    omega

/-- The address operand is compared with a page number, so no entry that contains
the address is ever a match. -/
theorem not_flushes_of_covers (asid : BitVec 32) (hx : Proper x) (hcovers : x.Covers va)
    (hva : va ≠ 0) : flushes asid va x = false := by
  by_contra hflush
  have hflush : flushes asid va x = true := by simpa using hflush
  simp only [flushes, Bool.and_eq_true, Bool.or_eq_true, beq_iff_eq, hva, or_false] at hflush
  have hvpn := x.vpn.isLt
  have heq : va.toNat = x.vpn.toNat := by
    rw [hflush.2, BitVec.toNat_setWidth, Nat.mod_eq_of_lt (by omega)]
  have hne : va.toNat ≠ 0 := fun h => hva (BitVec.eq_of_toNat_eq h)
  obtain ⟨hhigh, hlow⟩ := hcovers
  have hsmall : va.toNat < 1024 := by omega
  have hlow : x.vpn.toNat % 1024 = 0 := by
    rcases hlow with hmega | hlow
    · exact hx.aligned hmega
    · omega
  omega

/-- Without an address operand, the entries of one tag are removed. -/
theorem flushes_zero_iff {a : BitVec 9} (ha : a ≠ 0) :
    flushes (a.setWidth 32) 0 x = true ↔ x.asid.toNat = a.toNat := by
  have hlt := a.isLt
  have hasid := x.asid.isLt
  have hne : ¬ a.setWidth 32 = (0 : BitVec 32) := by
    intro h
    have hnat := congrArg BitVec.toNat h
    rw [BitVec.toNat_setWidth, Nat.mod_eq_of_lt (by omega)] at hnat
    exact ha (BitVec.eq_of_toNat_eq hnat)
  simp only [flushes, Bool.and_eq_true, Bool.or_eq_true, beq_iff_eq, hne, or_false, or_true,
    and_true]
  rw [← BitVec.toNat_inj, BitVec.toNat_setWidth, BitVec.toNat_setWidth,
    Nat.mod_eq_of_lt (by omega), Nat.mod_eq_of_lt (by omega)]

/-! ### Bringing a covered entry to light

A global entry in front of a stale one answers in its place. A lookup moves it to
the front, where a store with its tag replaces it, so some later lookup does
return a stale entry. -/

/-- A lookup that hits leaves a permutation of the table with the hit in front. -/
theorem find_hit_front {asid vpn : BitVec 32} (hvalid : (t.find junk asid vpn).1.valid = true) :
    ∃ es, (t.find junk asid vpn).2.table = (t.find junk asid vpn).1 :: es ∧
      List.Perm ((t.find junk asid vpn).1 :: es) t.table := by
  unfold find at hvalid ⊢
  cases hidx : t.table.findIdx? (hits asid vpn) with
  | none =>
    rw [hidx] at hvalid
    cases hvalid
  | some i =>
    obtain ⟨hlt, -, -⟩ := List.findIdx?_eq_some_iff_getElem.mp hidx
    obtain ⟨a, as, htable⟩ := List.exists_cons_of_length_pos (by omega : 0 < t.table.length)
    dsimp only
    rw [htable] at hlt ⊢
    cases i with
    | zero => exact ⟨as, by rw [if_pos rfl, htable]; rfl, .refl _⟩
    | succ k =>
      have hk : k < as.length := by simpa using hlt
      have hget : (a :: as).getD (k + 1) {} = as[k] := by simp [List.getD, hk]
      rw [if_neg (Nat.succ_ne_zero k), hget]
      refine ⟨as.set k a, rfl, ?_⟩
      have hperm : List.Perm (((a :: as).set (k + 1) a).set 0 as[k]) (a :: as) :=
        List.set_set_perm hlt (Nat.succ_pos _)
      exact hperm

/-- The entry that replaces a global one: another page, under the same tag. -/
def filler (g : TlbEntry) (va : BitVec 32) : TlbEntry :=
  stored (satpFor g.asid.toNat) (va ^^^ 0x1000) 0xcf false

theorem filler_not_hits (g : TlbEntry) (satp va : BitVec 32) :
    hits (tlbTag satp) (va >>> 12) (filler g va) = false := by
  by_contra hhit
  obtain ⟨-, -, -, hlow⟩ := hits_iff.mp (by simpa using hhit)
  have hother : (va ^^^ 0x1000).toNat / 4096 % 1024 ≠ va.toNat / 4096 % 1024 := by
    intro heq
    have hbit : ∀ w : BitVec 32, w.getLsbD 12 = decide (w.toNat / 4096 % 1024 % 2 = 1) := by
      intro w
      rw [BitVec.getLsbD, Nat.testBit_eq_decide_div_mod_eq]
      congr 2
      omega
    have hflip : (va ^^^ 0x1000).getLsbD 12 = !va.getLsbD 12 := by simp
    rw [hbit, hbit, heq] at hflip
    simp at hflip
  rcases hlow with hmega | hlow
  · cases hmega
  · rw [filler, stored_vpn] at hlow
    exact hother hlow

theorem store_filler {g : TlbEntry} {es : List TlbEntry} (va : BitVec 32) (hg : Proper g)
    (htable : t.table = g :: es) :
    (t.apply (.store (satpFor g.asid.toNat) (va ^^^ 0x1000) 0xcf false)).table =
      filler g va :: es := by
  change storeLoop _ _ (filler g va) t.table = _
  have htag : g.asid.setWidth 32 = tlbTag (satpFor g.asid.toNat) := by
    have hlt := g.asid.isLt
    apply BitVec.eq_of_toNat_eq
    rw [tlbTag_satpFor hg.asid_lt, BitVec.toNat_setWidth, Nat.mod_eq_of_lt (by omega)]
  rw [htable, storeLoop, htag]
  simp

/-- A round: the lookup moves its answer to the front, and the store of the filler takes it
out of the table. -/
theorem replace_front {g : TlbEntry} (hproper : ∀ y ∈ t.table, y.valid = true → Proper y)
    (hg : (t.find {} (tlbTag satp) (va >>> 12)).1 = g) (hvalid : g.valid = true) :
    let t' := (t.apply (.find {} satp va)).apply
      (.store (satpFor g.asid.toNat) (va ^^^ 0x1000) 0xcf false)
    (∀ y ∈ t'.table, y.valid = true → Proper y) ∧
      t.table.countP (hits (tlbTag satp) (va >>> 12)) =
        t'.table.countP (hits (tlbTag satp) (va >>> 12)) + 1 ∧
      ∀ y ∈ t.table, y ≠ g → y ∈ t'.table := by
  intro t'
  subst hg
  obtain ⟨hgmem, hghit⟩ := find_of_valid hvalid
  obtain ⟨es, htable, hperm⟩ := find_hit_front hvalid
  have htwo : t'.table = filler _ va :: es := store_filler va (hproper _ hgmem hvalid) htable
  refine ⟨fun y hy hyvalid => ?_, ?_, fun y hy hne => ?_⟩
  · rw [htwo] at hy
    rcases List.mem_cons.mp hy with rfl | hy
    · exact StoredBy.proper ⟨_, _, _, _, List.mem_singleton_self _, rfl⟩
    · exact hproper y (hperm.mem_iff.mp (List.mem_cons_of_mem _ hy)) hyvalid
  · rw [htwo, List.countP_cons_of_neg (by simp [filler_not_hits]), ← hperm.countP_eq,
      List.countP_cons_of_pos hghit]
  · rw [htwo]
    have hmem := (List.mem_cons.mp (hperm.mem_iff.mpr hy)).resolve_left hne
    exact List.mem_cons_of_mem _ hmem

/-- A non-global entry that passes the test of a lookup can be brought to answer it. -/
theorem exists_stale_hit (n : ℕ) (hproper : ∀ y ∈ t.table, y.valid = true → Proper y)
    (hn : t.table.countP (hits (tlbTag satp) (va >>> 12)) = n) (hmem : x ∈ t.table)
    (hglobal : ¬ x.Global) (hhit : hits (tlbTag satp) (va >>> 12) x = true) :
    ∃ ws, let z := ((Clocked.run apply t ws).find {} (tlbTag satp) (va >>> 12)).1
      z.valid = true ∧ ¬ z.Global ∧ ¬ StoredBy ws z := by
  -- each round takes one of the matching entries out of the table
  induction n generalizing t with
  | zero => exact absurd hhit (List.countP_eq_zero.mp hn x hmem)
  | succ n ih =>
    have hvalid := find_valid_of_mem {} hmem hhit
    generalize hg : (t.find {} (tlbTag satp) (va >>> 12)).1 = g at hvalid
    by_cases hgg : g.Global
    · obtain ⟨hproper', hcount, hrest⟩ := replace_front hproper hg hvalid
      have hxg : x ≠ g := by
        rintro rfl
        exact hglobal hgg
      obtain ⟨ws, hz, hzg, hold⟩ := ih hproper' (by omega) (hrest x hmem hxg)
      refine ⟨.find {} satp va :: .store (satpFor g.asid.toNat) (va ^^^ 0x1000) 0xcf false :: ws,
        hz, hzg, ?_⟩
      rintro ⟨satp', va', pte', mega', hop, heq⟩
      rw [Clocked.run_cons, Clocked.run_cons] at heq
      simp only [List.mem_cons, reduceCtorEq, false_or, TlbOp.store.injEq] at hop
      rcases hop with ⟨rfl, rfl, rfl, rfl⟩ | hop
      · -- the answer is not the filler
        have hhits := (find_of_valid hz).2
        rw [heq] at hhits
        exact Bool.false_ne_true ((filler_not_hits g satp va).symm.trans hhits)
      · exact hold ⟨satp', va', pte', mega', hop, heq⟩
    · refine ⟨[], ?_⟩
      rw [Clocked.run_nil, hg]
      exact ⟨hvalid, hgg, fun ⟨_, _, _, _, hop, _⟩ => by cases hop⟩

end Tlb

end Turtle
