import Turtle.PmpRule

/-!
# Which PMP entry decides

The checks test the first and the last byte of an access. On an aligned access of at most a
word both tests say whether the region of an entry contains the access, so the answer is that
of the first such entry. In M-mode the test of the lock bit stands in the same condition, and
the checks go past an unlocked entry to a locked one behind it.
-/

namespace Turtle.Pmp

open Protection Bits

variable {p : Pmp} {i : Fin 64} {addr : BitVec 64} {size : BitVec 8} {priv : BitVec 32} {k : Kind}

/-- A naturally aligned access of a byte, a halfword or a word. -/
def Aligned (addr : BitVec 64) (size : BitVec 8) : Prop :=
  (size = 1 ∨ size = 2 ∨ size = 4) ∧ addr.toNat % size.toNat = 0

instance (addr : BitVec 64) (size : BitVec 8) : Decidable (Aligned addr size) :=
  inferInstanceAs (Decidable (_ ∧ _))

/-- The bytes of an access. -/
def span (addr : BitVec 64) (size : BitVec 8) : Set ℕ :=
  {b | addr.toNat ≤ b ∧ b < addr.toNat + size.toNat}

/-- The region of entry `i` contains the access. -/
def Covers (p : Pmp) (addr : BitVec 64) (size : BitVec 8) (i : Fin 64) : Prop :=
  span addr size ⊆ p.regionOf i

instance (p : Pmp) (i : Fin 64) : Decidable (p.Locked i) := inferInstanceAs (Decidable (_ ≠ _))

/-! ### The tests of the checks -/

/-- The test of the last byte is the test of the first one at another address. -/
theorem region_snd (p : Pmp) (i : Fin 64) (addr : BitVec 64) (size : BitVec 8) :
    (p.region i addr size).2 = (p.region i (addr + size.setWidth 64 - 1) size).1 := by
  unfold region
  dsimp only
  split_ifs <;> rfl

theorem size_toNat (h : Aligned addr size) :
    size.toNat = 1 ∨ size.toNat = 2 ∨ size.toNat = 4 := by
  rcases h.1 with rfl | rfl | rfl <;> decide

/-- The bytes of an aligned access lie in one word. -/
theorem word_of_mem_span (h : Aligned addr size) {b : ℕ} (hb : b ∈ span addr size) :
    b / 4 = addr.toNat / 4 := by
  have haligned := h.2
  obtain ⟨hlow, hhigh⟩ := hb
  rcases size_toNat h with hsize | hsize | hsize <;> rw [hsize] at haligned hhigh <;> omega

/-- The last byte is one of the access: the address computation does not wrap. -/
theorem last_mem_span (h : Aligned addr size) :
    (addr + size.setWidth 64 - 1).toNat ∈ span addr size := by
  have hlt := addr.isLt
  have haligned := h.2
  have hwidth : (size.setWidth 64).toNat = size.toNat := by
    rw [BitVec.toNat_setWidth]
    exact Nat.mod_eq_of_lt (size.isLt.trans (by decide))
  have hlast : (addr + size.setWidth 64 - 1).toNat = addr.toNat + size.toNat - 1 := by
    rw [BitVec.toNat_sub, BitVec.toNat_add, hwidth]
    change (2 ^ 64 - 1 + (addr.toNat + size.toNat) % 2 ^ 64) % 2 ^ 64 = _
    rcases size_toNat h with hsize | hsize | hsize <;> rw [hsize] at haligned ⊢ <;> omega
  have hpos : 0 < size.toNat := by
    rcases size_toNat h with hsize | hsize | hsize <;> omega
  rw [hlast]
  exact ⟨by omega, by omega⟩

/-- A byte of the access is in a region exactly when the region contains the access. -/
theorem mem_regionOf_iff_covers (h : Aligned addr size) {b : ℕ} (hb : b ∈ span addr size) :
    b ∈ p.regionOf i ↔ p.Covers addr size i := by
  constructor
  · intro hmem b' hb'
    refine mem_regionOf_of_word ?_ hmem
    rw [word_of_mem_span h hb, word_of_mem_span h hb']
  · intro hcovers
    exact hcovers hb

/-- On an aligned access both tests say whether the region contains it. -/
theorem region_iff (hnarrow : p.Narrow) (h : Aligned addr size) (i : Fin 64) :
    ((p.region i addr size).1 = true ↔ p.Covers addr size i) ∧
      ((p.region i addr size).2 = true ↔ p.Covers addr size i) := by
  have hfirst : addr.toNat ∈ span addr size := by
    rcases size_toNat h with hsize | hsize | hsize <;> exact ⟨le_rfl, by omega⟩
  rw [region_snd, region_fst_iff hnarrow, region_fst_iff hnarrow,
    mem_regionOf_iff_covers h hfirst, mem_regionOf_iff_covers h (last_mem_span h)]
  exact ⟨Iff.rfl, Iff.rfl⟩

/-- The entries that take part in a check: those that contain the access and, in M-mode, are
locked. -/
def Binds (p : Pmp) (priv : BitVec 32) (i : Fin 64) : Prop := priv ≠ privM ∨ p.Locked i

theorem hit_iff (hnarrow : p.Narrow) (h : Aligned addr size) (i : Fin 64) :
    p.hit addr size priv i = true ↔ p.Covers addr size i ∧ p.Binds priv i := by
  obtain ⟨hfst, hsnd⟩ := region_iff hnarrow h i
  rw [hit, Bool.and_eq_true, Bool.or_eq_true, Bool.or_eq_true, hfst, hsnd, or_self, bne_iff_ne,
    bne_iff_ne]
  rfl

/-- The answer of a check: the first entry that takes part decides, and without one the
machine level alone is permitted. -/
theorem dcheck_iff (hindexed : p.Indexed) (hnarrow : p.Narrow) (h : Aligned addr size) :
    p.dcheck addr (opBit k) size priv = true ↔
      ((∀ i, ¬ (p.Covers addr size i ∧ p.Binds priv i)) ∧ priv = privM) ∨
      FirstHas (fun i => p.Covers addr size i ∧ p.Binds priv i) fun i => (p.entry i).grants k := by
  rw [hindexed.dcheck, checkLoop_eq_find]
  by_cases hany : ∃ i, p.Covers addr size i ∧ p.Binds priv i
  · obtain ⟨i, hi⟩ := exists_isLeast hany
    have hhit : p.hit addr size priv i = true := (hit_iff hnarrow h i).mpr hi.1
    have hbefore (j : Fin 64) (hj : j < i) : p.hit addr size priv j = false := by
      refine Bool.eq_false_of_not_eq_true fun hhit => ?_
      exact absurd (hi.2 ((hit_iff hnarrow h j).mp hhit)) (not_le.mpr hj)
    obtain ⟨hfst, hsnd⟩ := region_iff hnarrow h i
    rw [find?_finRange_of_first hhit hbefore, firstHas_iff hi,
      or_iff_right fun hnone => hnone.1 i hi.1]
    dsimp only
    rw [grants_iff, hfst, hsnd]
    exact and_iff_left ⟨hi.1.1, hi.1.1⟩
  · have hnone : (List.finRange 64).find? (p.hit addr size priv) = none := by
      rw [List.find?_eq_none]
      exact fun i _ hhit => hany ⟨i, (hit_iff hnarrow h i).mp hhit⟩
    have hfirst : ¬ FirstHas (fun i => p.Covers addr size i ∧ p.Binds priv i)
        fun i => (p.entry i).grants k := by
      rintro ⟨i, hi, -⟩
      exact hany ⟨i, hi.1⟩
    rw [hnone, or_iff_left hfirst, and_iff_right (not_exists.mp hany)]
    exact beq_iff_eq

/-! ### S-mode and U-mode -/

theorem ne_privM {priv : BitVec 32} (h : priv = privS ∨ priv = privU) : priv ≠ privM := by
  rcases h with rfl | rfl <;> decide

/-- After every sequence of updates an aligned access from S-mode or U-mode passes both checks
exactly when the first entry whose region contains it grants the operation. -/
theorem check_iff_first_grants (us : List Update) (addr : BitVec 64) (size : BitVec 8)
    (priv : BitVec 32) (k : Kind) (h : Aligned addr size) (hpriv : priv = privS ∨ priv = privU) :
    let p := Clocked.run Pmp.apply {} us
    (p.dcheck addr (opBit k) size priv = true ↔
      FirstHas (p.Covers addr size) fun i => (p.entry i).grants k) ∧
    (p.icheck addr (opBit k) size priv = true ↔
      FirstHas (p.Covers addr size) fun i => (p.entry i).grants k) := by
  intro p
  have hmachine : priv ≠ privM := ne_privM hpriv
  have hbinds : (fun i => p.Covers addr size i ∧ p.Binds priv i) = p.Covers addr size := by
    funext i
    exact propext (and_iff_left (.inl hmachine))
  have hcheck : p.dcheck addr (opBit k) size priv = true ↔
      FirstHas (p.Covers addr size) fun i => (p.entry i).grants k := by
    rw [dcheck_iff (indexed_powerUp.run us) (narrow_powerUp.run us) h, hbinds,
      or_iff_right fun hnone => hmachine hnone.2]
  exact ⟨hcheck, hcheck⟩

/-- There are configuration registers, so a number stands for one. -/
instance instNeZeroConfigs : NeZero 16 := ⟨by decide⟩

/-- Entry 0 opens all of memory for reads, and entry 1 behind it opens it for writes. -/
def readOnlyFirst : List Update :=
  [.addr 0 0xffffffff, .addr 1 0xffffffff, .config 0 0x1b19]

/-- A read from U-mode is granted by the first entry that contains it. -/
theorem check_iff_first_grants_read :
    let p := Clocked.run Pmp.apply {} readOnlyFirst
    FirstHas (p.Covers 0x80000000 4) (fun i => (p.entry i).grants .read) ∧
      ¬ FirstHas (p.Covers 0x80000000 4) fun i => (p.entry i).grants .write := by
  intro p
  have hread := check_iff_first_grants readOnlyFirst 0x80000000 4 privU .read (by decide)
    (.inr rfl)
  have hwrite := check_iff_first_grants readOnlyFirst 0x80000000 4 privU .write (by decide)
    (.inr rfl)
  refine ⟨hread.1.mp (by decide), fun h => ?_⟩
  exact absurd (hwrite.1.mpr h) (by decide)

/-! ### M-mode -/

/-- The rule for M-mode: no entry contains the access, or the first one that does is unlocked
or grants the operation. -/
def MachinePermits (p : Pmp) (addr : BitVec 64) (size : BitVec 8) (k : Kind) : Prop :=
  (∀ i, ¬ p.Covers addr size i) ∨
    FirstHas (p.Covers addr size) fun i => ¬ p.Locked i ∨ (p.entry i).grants k

/-- The first entry that contains the access is unlocked, and the first locked one refuses. -/
def RefusedBehind (p : Pmp) (addr : BitVec 64) (size : BitVec 8) (k : Kind) : Prop :=
  FirstHas (p.Covers addr size) (fun i => ¬ p.Locked i) ∧
    FirstHas (fun i => p.Covers addr size i ∧ p.Locked i) fun i => ¬ (p.entry i).grants k

/-- After every sequence of updates the checks of an aligned M-mode access follow the rule
exactly when no locked entry behind an unlocked first one refuses. -/
theorem machine_check_iff (us : List Update) (addr : BitVec 64) (size : BitVec 8) (k : Kind)
    (h : Aligned addr size) :
    let p := Clocked.run Pmp.apply {} us
    ((p.dcheck addr (opBit k) size privM = true ↔ p.MachinePermits addr size k) ∧
      (p.icheck addr (opBit k) size privM = true ↔ p.MachinePermits addr size k)) ↔
    ¬ p.RefusedBehind addr size k := by
  intro p
  have hbinds : (fun i => p.Covers addr size i ∧ p.Binds privM i) =
      fun i => p.Covers addr size i ∧ p.Locked i := by
    funext i
    exact propext (and_congr_right fun _ => or_iff_right (not_not.mpr rfl))
  have hcheck : p.dcheck addr (opBit k) size privM = true ↔
      (∀ i, ¬ (p.Covers addr size i ∧ p.Locked i)) ∨
      FirstHas (fun i => p.Covers addr size i ∧ p.Locked i) fun i => (p.entry i).grants k := by
    have hall : (∀ i, ¬ (p.Covers addr size i ∧ p.Binds privM i)) ↔
        ∀ i, ¬ (p.Covers addr size i ∧ p.Locked i) :=
      forall_congr' fun i => not_congr (iff_of_eq (congrFun hbinds i))
    rw [dcheck_iff (indexed_powerUp.run us) (narrow_powerUp.run us) h, hall, hbinds,
      and_iff_left rfl]
  change (_ ∧ (p.dcheck addr (opBit k) size privM = true ↔ _)) ↔ _
  rw [and_self, hcheck]
  exact scan_iff_rule_iff

/-- One locked entry that opens all of memory for reads. -/
def lockedReads : List Update := [.addr 0 0xffffffff, .config 0 0x99]

/-- With one entry the checks follow the rule: a write in M-mode is refused. -/
theorem machine_check_iff_one :
    let p := Clocked.run Pmp.apply {} lockedReads
    p.dcheck 0x80000000 2 4 privM = false ∧ ¬ p.MachinePermits 0x80000000 4 .write := by
  intro p
  have hnone : ¬ p.RefusedBehind 0x80000000 4 .write := by
    rintro ⟨⟨i, hi, hunlocked⟩, -⟩
    have hoff : ∀ j, p.pmpconfig j &&& 24 ≠ 0 → p.Locked j := by decide
    refine hunlocked (hoff i fun hmode => ?_)
    have hregion : p.regionOf i = ∅ := if_pos hmode
    have hbyte : 0x80000000 ∈ p.regionOf i := hi.1 ⟨by decide, by decide⟩
    rw [hregion] at hbyte
    exact hbyte
  have hrule := ((machine_check_iff lockedReads 0x80000000 4 .write (by decide)).mpr hnone).1
  have hrefused : p.dcheck 0x80000000 2 4 privM = false := by decide
  refine ⟨hrefused, fun hpermits => ?_⟩
  exact absurd (hrule.mpr hpermits) (Bool.not_eq_true _ ▸ hrefused)

/-- An unlocked entry that opens all of memory in front of a locked one that closes it. -/
def lockedBehind : List Update :=
  [.addr 0 0xffffffff, .addr 1 0xffffffff, .config 0 0x981f]

/-- The checks go past the unlocked entry and refuse a read that it should decide. -/
theorem machine_check_passes_first :
    let p := Clocked.run Pmp.apply {} lockedBehind
    Aligned 0x80000000 4 ∧ p.MachinePermits 0x80000000 4 .read ∧
      p.dcheck 0x80000000 1 4 privM = false ∧ p.icheck 0x80000000 1 4 privM = false := by
  intro p
  have halign : Aligned 0x80000000 4 := by decide
  have hcovers : p.Covers 0x80000000 4 0 :=
    (region_iff (narrow_powerUp.run lockedBehind) halign 0).1.mp (by decide)
  refine ⟨halign, .inr ⟨0, ⟨hcovers, fun j _ => Fin.zero_le j⟩, .inl ?_⟩, by decide,
    by decide⟩
  decide

end Turtle.Pmp
