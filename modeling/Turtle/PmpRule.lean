import Turtle.Lib.Protection
import Turtle.Lib.Bits
import Turtle.PmpLocks
import Mathlib.Data.Nat.Factorization.Basic
import Mathlib.Tactic.Ring

/-!
# The checks implement the protection rule

The entries of `PMP` as prioritised protection entries, with their regions as the
address-matching modes define them. Regions consist of whole words, so none of them
splits an aligned access of at most four bytes, and a positive answer of the checks
permits every byte of such an access.
-/

namespace Turtle.Pmp

open Protection Bits

variable {p : Pmp} {i : Fin 64} {a b : ℕ} {addr : BitVec 32}

/-- A naturally aligned power-of-two region: the address register ends in a zero and
`k` ones, and the region has `2 ^ (k + 3)` bytes. -/
def napot (reg : ℕ) : Set ℕ :=
  {a | ∃ k, reg % 2 ^ (k + 1) = 2 ^ k - 1 ∧ a / 2 ^ (k + 3) = reg / 2 ^ (k + 1)}

theorem below_lt (i : Fin 64) : i.val - 1 < 64 := by omega

/-- The address register below entry `i`, or 0. -/
def below (p : Pmp) (i : Fin 64) : ℕ :=
  if 0 < i.val then (p.pmpaddr ⟨i.val - 1, below_lt i⟩).toNat else 0

/-- The byte addresses of an entry: none, up to the top of a range, one word, or a
power of two. -/
def regionOf (p : Pmp) (i : Fin 64) : Set ℕ :=
  let reg := (p.pmpaddr i).toNat
  if p.pmpconfig i &&& 24 = 0 then ∅
  else if p.pmpconfig i &&& 24 = 8 then {a | 4 * p.below i ≤ a ∧ a < 4 * reg}
  else if p.pmpconfig i &&& 24 = 16 then {a | a / 4 = reg}
  else napot reg

/-- The protection entries. The reserved combination of `W` without `R` is read as
`R` and `W`. -/
def entry (p : Pmp) (i : Fin 64) : Entry ℕ where
  region := p.regionOf i
  locked := p.Locked i
  grants
    | .read => (p.pmpconfig i).getLsbD 0 = true ∨ (p.pmpconfig i).getLsbD 1 = true
    | .write => (p.pmpconfig i).getLsbD 1 = true
    | .execute => (p.pmpconfig i).getLsbD 2 = true

/-- The registers hold what 32-bit writes leave there. -/
def Narrow (p : Pmp) : Prop := ∀ i, (p.pmpaddr i).toNat < 2 ^ 32

theorem Narrow.apply (h : p.Narrow) (u : Update) : (p.apply u).Narrow := by
  intro i
  cases u with
  | config k val =>
    rw [Pmp.apply, updateConfig_pmpaddr]
    exact h i
  | addr k val =>
    change ((p.updateAddr k val).pmpaddr i).toNat < 2 ^ 32
    unfold updateAddr
    split
    · change (Function.update p.pmpaddr k (val.setWidth 64) i).toNat < _
      by_cases hik : i = k
      · rw [hik, Function.update_self, BitVec.toNat_setWidth]
        exact (Nat.mod_le _ _).trans_lt val.isLt
      · rw [Function.update_of_ne hik]
        exact h i
    · exact h i

theorem Narrow.run (h : p.Narrow) (us : List Update) : (Clocked.run Pmp.apply p us).Narrow :=
  Clocked.invariant_run (P := Narrow) (fun _ hq u _ => hq.apply u) h

theorem narrow_powerUp : Narrow {} := fun _ => Nat.two_pow_pos 32

/-! ### Regions -/

/-- Every address register ends in a zero and some number of ones. -/
theorem exists_napot_size {reg : ℕ} (h : reg < 2 ^ 32) :
    ∃ k ≤ 32, reg % 2 ^ (k + 1) = 2 ^ k - 1 := by
  obtain ⟨k, m, ⟨n, rfl⟩, hk⟩ := Nat.exists_eq_two_pow_mul_odd (n := reg + 1) (by omega)
  have hpos : 0 < 2 ^ k := Nat.two_pow_pos k
  have hreg : reg = 2 ^ k - 1 + n * 2 ^ (k + 1) := by
    have hexpand : 2 ^ k * (2 * n + 1) = n * 2 ^ (k + 1) + 2 ^ k := by
      rw [pow_succ]
      ring
    omega
  refine ⟨k, ?_, ?_⟩
  · have hle : 2 ^ k ≤ 2 ^ 32 := by
      have : 2 ^ k ≤ reg + 1 := by rw [hk]; exact Nat.le_mul_of_pos_right _ (by omega)
      omega
    exact (Nat.pow_le_pow_iff_right (by omega)).mp hle
  · rw [hreg, Nat.add_mul_mod_self_right, Nat.mod_eq_of_lt]
    rw [pow_succ]
    omega

theorem napot_size_not_lt {reg k l : ℕ} (hk : reg % 2 ^ (k + 1) = 2 ^ k - 1)
    (hl : reg % 2 ^ (l + 1) = 2 ^ l - 1) : ¬ k < l := by
  intro hlt
  obtain ⟨c, rfl⟩ : ∃ c, l = k + 1 + c := ⟨l - (k + 1), by omega⟩
  have hpos : 0 < 2 ^ k := Nat.two_pow_pos k
  have hdvd : 2 ^ (k + 1) ∣ 2 ^ (k + 1 + c + 1) := pow_dvd_pow 2 (by omega)
  have hmod : reg % 2 ^ (k + 1) = (2 ^ (k + 1 + c) - 1) % 2 ^ (k + 1) := by
    rw [← hl, Nat.mod_mod_of_dvd _ hdvd]
  have hones : 2 ^ (k + 1 + c) - 1 = 2 ^ (k + 1) - 1 + (2 ^ c - 1) * 2 ^ (k + 1) := by
    have hc : 0 < 2 ^ c := Nat.two_pow_pos c
    have hk1 : 0 < 2 ^ (k + 1) := Nat.two_pow_pos _
    rw [Nat.sub_mul, one_mul, pow_add, Nat.mul_comm (2 ^ c)]
    have hle : 2 ^ (k + 1) ≤ 2 ^ (k + 1) * 2 ^ c := Nat.le_mul_of_pos_right _ hc
    omega
  rw [hk, hones, Nat.add_mul_mod_self_right, Nat.mod_eq_of_lt (by omega)] at hmod
  rw [pow_succ] at hmod
  omega

theorem napot_size_unique {reg k l : ℕ} (hk : reg % 2 ^ (k + 1) = 2 ^ k - 1)
    (hl : reg % 2 ^ (l + 1) = 2 ^ l - 1) : k = l :=
  le_antisymm (not_lt.mp (napot_size_not_lt hl hk)) (not_lt.mp (napot_size_not_lt hk hl))

/-- The mask that the checks compute for a power-of-two region clears its offset
bits. -/
theorem getLsbD_napot_mask {reg : BitVec 64} {k : ℕ} (hreg : reg.toNat < 2 ^ 32) (hk : k ≤ 32)
    (h : reg.toNat % 2 ^ (k + 1) = 2 ^ k - 1) (j : ℕ) (hj : j < 64) :
    ((-(((reg + 1) &&& -(reg + 1)) <<< 1)) <<< 2).getLsbD j = decide (k + 3 ≤ j) := by
  have hpos : 0 < 2 ^ k := Nat.two_pow_pos k
  have hnext : (reg + 1).toNat % 2 ^ (k + 1) = 2 ^ k := by
    have hadd : (reg + 1).toNat = reg.toNat + 1 := by
      rw [BitVec.toNat_add]
      exact Nat.mod_eq_of_lt (by change reg.toNat + 1 < _; omega)
    rw [hadd, Nat.add_mod, h, Nat.mod_eq_of_lt (a := 1) (by rw [pow_succ]; omega),
      Nat.sub_add_cancel hpos, Nat.mod_eq_of_lt (by rw [pow_succ]; omega)]
  have hbit : ∀ j, (((reg + 1) &&& -(reg + 1)) <<< 1).getLsbD j = decide (j = k + 1) := by
    intro j
    rw [BitVec.getLsbD_shiftLeft, getLsbD_and_neg hnext]
    by_cases hj0 : j = k + 1
    · subst hj0
      simp
      omega
    · simp [hj0]
      omega
  rw [BitVec.getLsbD_shiftLeft, getLsbD_neg_of_single (by omega) hbit]
  by_cases hle : k + 3 ≤ j
  · simp [hle, hj, show ¬ j < 2 by omega, show k + 1 ≤ j - 2 by omega, show j - 2 < 64 by omega]
  · by_cases hj2 : j < 2
    · simp [hle, hj2]
    · simp [hle, show ¬ k + 1 ≤ j - 2 by omega]

/-- The mask test of the checks is membership in the region. -/
theorem napot_test_iff {reg addr : BitVec 64} (hreg : reg.toNat < 2 ^ 32) :
    addr &&& ((-(((reg + 1) &&& -(reg + 1)) <<< 1)) <<< 2) =
      (reg <<< 2) &&& ((-(((reg + 1) &&& -(reg + 1)) <<< 1)) <<< 2) ↔
    addr.toNat ∈ napot reg.toNat := by
  obtain ⟨k, hk, hsize⟩ := exists_napot_size hreg
  have hmask := getLsbD_napot_mask hreg hk hsize
  have hshift : (reg <<< 2).toNat = 4 * reg.toNat := by
    rw [BitVec.toNat_shiftLeft, Nat.shiftLeft_eq, Nat.mod_eq_of_lt (by omega), Nat.mul_comm]
  have hdiv : 4 * reg.toNat / 2 ^ (k + 3) = reg.toNat / 2 ^ (k + 1) := by
    rw [show 2 ^ (k + 3) = 4 * 2 ^ (k + 1) by ring, Nat.mul_div_mul_left _ _ (by omega)]
  rw [← BitVec.toNat_inj, and_high_toNat _ _ hmask, and_high_toNat _ _ hmask, hshift, hdiv,
    Nat.mul_left_inj (Nat.two_pow_pos _).ne']
  constructor
  · exact fun h => ⟨k, hsize, h⟩
  · rintro ⟨l, hl, h⟩
    rwa [napot_size_unique hl hsize] at h

/-- The test of the first byte is membership in the region. -/
theorem region_fst_iff (h : p.Narrow) (i : Fin 64) (addr : BitVec 64) (size : BitVec 8) :
    (p.region i addr size).1 = true ↔ addr.toNat ∈ p.regionOf i := by
  have hshift (j : Fin 64) : (p.pmpaddr j <<< 2).toNat = 4 * (p.pmpaddr j).toNat := by
    have hj := h j
    rw [BitVec.toNat_shiftLeft, Nat.shiftLeft_eq, Nat.mod_eq_of_lt (by omega), Nat.mul_comm]
  unfold region regionOf
  dsimp only
  by_cases hoff : p.pmpconfig i &&& 24 = 0
  · rw [if_pos hoff, if_pos hoff]
    simp
  rw [if_neg hoff, if_neg hoff]
  by_cases htor : p.pmpconfig i &&& 24 = 8
  · have hbase : (if h : 0 < i.val then p.pmpaddr ⟨i.val - 1, by omega⟩ <<< 2 else 0).toNat =
        4 * p.below i := by
      unfold below
      split
      · exact hshift _
      · rfl
    rw [if_pos htor, if_pos htor, Bool.and_eq_true, decide_eq_true_iff, decide_eq_true_iff,
      BitVec.le_def, BitVec.lt_def, hshift, hbase]
    rfl
  rw [if_neg htor, if_neg htor]
  by_cases hna4 : p.pmpconfig i &&& 24 = 16
  · have hj := h i
    have htop : (p.pmpaddr i <<< 2 + 3).toNat = 4 * (p.pmpaddr i).toNat + 3 := by
      rw [BitVec.toNat_add, hshift]
      exact Nat.mod_eq_of_lt (by change 4 * _ + 3 < _; omega)
    rw [if_pos hna4, if_pos hna4, Bool.and_eq_true, decide_eq_true_iff, decide_eq_true_iff,
      BitVec.le_def, BitVec.le_def, hshift, htop]
    change _ ↔ addr.toNat / 4 = (p.pmpaddr i).toNat
    omega
  · rw [if_neg hna4, if_neg hna4, beq_iff_eq]
    exact napot_test_iff (h i)

/-- Regions consist of whole words. -/
theorem mem_regionOf_of_word (h : a / 4 = b / 4) (ha : a ∈ p.regionOf i) : b ∈ p.regionOf i := by
  unfold regionOf at ha ⊢
  dsimp only at ha ⊢
  split_ifs at ha ⊢ with hoff htor hna4
  · exact ha
  · obtain ⟨hlow, hhigh⟩ := ha
    exact ⟨by omega, by omega⟩
  · exact h.symm.trans ha
  · obtain ⟨k, hsize, hdiv⟩ := ha
    refine ⟨k, hsize, ?_⟩
    have hfour : 2 ^ (k + 3) = 4 * 2 ^ (k + 1) := by ring
    rw [hfour, ← Nat.div_div_eq_div_mul] at hdiv ⊢
    rw [← h, hdiv]

/-! ### The scan -/

/-- The bytes of an access. -/
def bytes (addr : BitVec 32) (size : ℕ) : Set ℕ :=
  {b | addr.toNat ≤ b ∧ b < addr.toNat + size}

/-- An aligned access of at most a word lies in one word. -/
theorem word_of_mem_bytes {size : ℕ} (hsize : size = 1 ∨ size = 2 ∨ size = 4)
    (haligned : addr.toNat % size = 0) (hb : b ∈ bytes addr size) : b / 4 = addr.toNat / 4 := by
  obtain ⟨hlow, hhigh⟩ := hb
  rcases hsize with rfl | rfl | rfl <;> omega

/-- An entry takes part in a check. -/
def hit (p : Pmp) (addr : BitVec 64) (size : BitVec 8) (priv : BitVec 32) (i : Fin 64) : Bool :=
  ((p.region i addr size).1 || (p.region i addr size).2) &&
    (priv != privM || p.pmpconfig i &&& lock != 0)

theorem checkLoop_eq_find (addr : BitVec 64) (op size : BitVec 8) (priv : BitVec 32)
    (is : List (Fin 64)) : p.checkLoop addr op size priv is =
      match is.find? (p.hit addr size priv) with
      | some i => grants (p.pmpconfig i) op (p.region i addr size)
      | none => priv == privM := by
  induction is with
  | nil => rfl
  | cons i is ih =>
    rw [checkLoop, List.find?_cons, ih]
    change (if p.hit addr size priv i = true then _ else _) = _
    cases p.hit addr size priv i <;> rfl

theorem find?_finRange_of_first {n : ℕ} {f : Fin n → Bool} {i : Fin n} (hi : f i = true)
    (hmin : ∀ j < i, f j = false) : (List.finRange n).find? f = some i := by
  rw [List.find?_eq_some_iff_getElem]
  refine ⟨hi, i.val, by simp, by simp, fun j hj => ?_⟩
  simp [hmin ⟨j, by omega⟩ hj]

/-- The operation bits that the checks ask for. -/
def opBit : Kind → BitVec 8
  | .read => 1
  | .write => 2
  | .execute => 4

/-- The verdict grants the operation and asks for both tests. -/
theorem grants_iff {k : Kind} {within : Bool × Bool} :
    grants (p.pmpconfig i) (opBit k) within = true ↔
      (p.entry i).grants k ∧ within.1 = true ∧ within.2 = true := by
  have key : ∀ cfg : BitVec 8,
      ((1 &&& (cfg ||| (if cfg &&& 2 ≠ 0 then 1 else 0)) == 1) = true ↔
        cfg.getLsbD 0 = true ∨ cfg.getLsbD 1 = true) ∧
      ((2 &&& (cfg ||| (if cfg &&& 2 ≠ 0 then 1 else 0)) == 2) = true ↔ cfg.getLsbD 1 = true) ∧
      ((4 &&& (cfg ||| (if cfg &&& 2 ≠ 0 then 1 else 0)) == 4) = true ↔
        cfg.getLsbD 2 = true) := by
    decide
  have hop : (opBit k &&& (p.pmpconfig i ||| (if p.pmpconfig i &&& 2 ≠ 0 then 1 else 0)) ==
      opBit k) = true ↔ (p.entry i).grants k := by
    cases k with
    | read => exact (key _).1
    | write => exact (key _).2.1
    | execute => exact (key _).2.2
  rw [grants, Bool.and_eq_true, Bool.and_eq_true, hop, and_assoc]

/-- A positive answer permits every aligned access that starts at the checked
address, whatever length was checked. -/
theorem permits_of_dcheck {k : Kind} {c : BitVec 8} {priv : BitVec 32} {size : ℕ}
    (hindexed : p.Indexed) (hnarrow : p.Narrow)
    (hsize : size = 1 ∨ size = 2 ∨ size = 4) (haligned : addr.toNat % size = 0)
    (h : p.dcheck (addr.setWidth 64) (opBit k) c priv = true) :
    Permits p.entry (priv = privM) k (bytes addr size) := by
  have haddr : (addr.setWidth 64).toNat = addr.toNat := by
    rw [BitVec.toNat_setWidth]
    exact Nat.mod_eq_of_lt (addr.isLt.trans (by decide))
  have hfirst (i : Fin 64) : (p.region i (addr.setWidth 64) c).1 = true ↔
      addr.toNat ∈ (p.entry i).region := by
    rw [region_fst_iff hnarrow, haddr]
    rfl
  have hhit (i : Fin 64) : p.hit (addr.setWidth 64) c priv i = true ↔
      (addr.toNat ∈ (p.entry i).region ∨ (p.region i (addr.setWidth 64) c).2 = true) ∧
        (¬ priv = privM ∨ (p.entry i).locked) := by
    rw [hit, Bool.and_eq_true, Bool.or_eq_true, Bool.or_eq_true, hfirst, bne_iff_ne, bne_iff_ne]
    rfl
  rw [hindexed.dcheck, checkLoop_eq_find] at h
  refine permits_of_scan (b := addr.toNat) ?_ ?_
    (fun i => (p.region i (addr.setWidth 64) c).2 = true) ?_ ?_
  · exact ⟨le_rfl, by rcases hsize with rfl | rfl | rfl <;> omega⟩
  · rintro i ⟨b, hb, hregion⟩ b' hb'
    refine mem_regionOf_of_word ?_ hregion
    rw [word_of_mem_bytes hsize haligned hb, word_of_mem_bytes hsize haligned hb']
  · intro i hi hmin
    have hnot (j : Fin 64) (hj : j < i) : p.hit (addr.setWidth 64) c priv j = false :=
      Bool.eq_false_of_not_eq_true (mt (hhit j).mp (hmin j hj))
    rw [find?_finRange_of_first ((hhit i).mpr hi) hnot] at h
    obtain ⟨hgrants, hin, -⟩ := grants_iff.mp h
    exact ⟨(hfirst i).mp hin, hgrants⟩
  · intro hnone
    have hnot : (List.finRange 64).find? (p.hit (addr.setWidth 64) c priv) = none := by
      rw [List.find?_eq_none]
      exact fun i _ hi => hnone i ((hhit i).mp hi)
    rw [hnot] at h
    exact beq_iff_eq.mp h

end Turtle.Pmp

namespace Turtle

/-- In every run from reset the PMP address registers hold 32-bit values. -/
theorem Core.Reachable.pmp_narrow {entry : BitVec 32} {s : Core} (h : Core.Reachable entry s) :
    s.exec.pmp.Narrow := by
  obtain ⟨us, hus⟩ := h.pmp_run
  rw [hus]
  exact Pmp.narrow_powerUp.run us

end Turtle
