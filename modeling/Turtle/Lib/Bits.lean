import Mathlib.Data.BitVec

/-!
# Words as bits

Parity of words under the operations of address arithmetic, and the tests and
fields that single-bit masks give.
-/

namespace Bits

variable {w : ℕ}

/-- A word whose lowest bit is clear. -/
def EvenWord (x : BitVec w) : Prop := x.getLsbD 0 = false

instance (x : BitVec w) : Decidable (EvenWord x) := inferInstanceAs (Decidable (_ = _))

theorem evenWord_iff {x : BitVec w} : EvenWord x ↔ x.getLsbD 0 = false := Iff.rfl

theorem EvenWord.toNat_mod_two {x : BitVec w} (h : EvenWord x) : x.toNat % 2 = 0 := by
  rw [evenWord_iff, BitVec.getLsbD, Nat.testBit_zero] at h
  simpa using h

theorem EvenWord.add {x y : BitVec w} (hx : EvenWord x) (hy : EvenWord y) : EvenWord (x + y) := by
  rw [evenWord_iff] at hx hy ⊢
  by_cases hw : 0 < w
  · simp [BitVec.getLsbD_add hw, hx, hy]
  · exact BitVec.getLsbD_of_ge _ 0 (by omega)

theorem EvenWord.neg {x : BitVec w} (hx : EvenWord x) : EvenWord (-x) := by
  rw [evenWord_iff] at hx ⊢
  simp [BitVec.getLsbD_neg, hx]

theorem EvenWord.sub {x y : BitVec w} (hx : EvenWord x) (hy : EvenWord y) : EvenWord (x - y) := by
  rw [BitVec.sub_eq_add_neg]
  exact hx.add hy.neg

theorem EvenWord.or {x y : BitVec w} (hx : EvenWord x) (hy : EvenWord y) : EvenWord (x ||| y) := by
  rw [evenWord_iff] at hx hy ⊢
  simp [hx, hy]

theorem EvenWord.xor {x y : BitVec w} (hx : EvenWord x) (hy : EvenWord y) : EvenWord (x ^^^ y) := by
  rw [evenWord_iff] at hx hy ⊢
  simp [hx, hy]

theorem EvenWord.and_right {x y : BitVec w} (hy : EvenWord y) : EvenWord (x &&& y) := by
  rw [evenWord_iff] at hy ⊢
  simp [hy]

theorem even_shiftLeft {x : BitVec w} {n : ℕ} (hn : 0 < n) : EvenWord (x <<< n) := by
  rw [evenWord_iff]
  simp [hn]

/-- A single-bit mask. -/
theorem and_one_shiftLeft (x : BitVec w) (n : ℕ) :
    x &&& (1#w <<< n) = if x.getLsbD n then 1#w <<< n else 0#w := by
  rw [← BitVec.twoPow_eq, BitVec.and_twoPow]

/-- The test of a single bit: `x & (1 << n)`. -/
theorem and_one_shiftLeft_ne_zero_iff {x : BitVec w} {n : ℕ} :
    x &&& (1#w <<< n) ≠ 0 ↔ x.getLsbD n = true := by
  rw [and_one_shiftLeft]
  split
  · rename_i h
    have hn : n < w := BitVec.lt_of_getLsbD h
    refine iff_of_true (fun hzero => ?_) h
    have hbit := congrArg (·.getLsbD n) hzero
    simp [hn] at hbit
  · rename_i h
    exact iff_of_false (fun hne => hne rfl) h

/-- The selection of a single bit: `(x >> n) & 1`. -/
theorem shiftRight_and_one {x : BitVec 32} {n : ℕ} :
    (x >>> n) &&& 1 = if x.getLsbD n then 1 else 0 := by
  have h := and_one_shiftLeft (x >>> n) 0
  simpa using h

/-- The parity test of the source: `x & 1`. -/
theorem and_one_ne_zero_iff {x : BitVec 32} : x &&& 1 ≠ 0 ↔ ¬ EvenWord x := by
  have h := and_one_shiftLeft_ne_zero_iff (x := x) (n := 0)
  rw [show 1#32 <<< 0 = 1 by decide] at h
  rw [h, evenWord_iff, Bool.not_eq_false]

/-- Clearing the lowest bit leaves an even word as it is. -/
theorem EvenWord.and_not_one {x : BitVec 32} (hx : EvenWord x) : x &&& ~~~1 = x := by
  apply BitVec.eq_of_getLsbD_eq
  intro i hi
  have hone : (1 : BitVec 32).getLsbD i = decide (i = 0) := by
    simp
  rw [BitVec.getLsbD_and, BitVec.getLsbD_not, hone]
  by_cases h0 : i = 0
  · subst h0
    rw [show x.getLsbD 0 = false from hx, Bool.false_and]
  · simp only [hi, h0, decide_true, decide_false, Bool.not_false, Bool.and_true]

theorem even_and_not_one (x : BitVec 32) : EvenWord (x &&& ~~~1) := EvenWord.and_right (by decide)

/-- Clearing the lowest bit twice gives the word back exactly when it is even. -/
theorem and_not_one_twice_eq_iff {x : BitVec 32} : (x &&& ~~~1) &&& ~~~1 = x ↔ EvenWord x := by
  constructor
  · intro h
    rw [← h]
    exact even_and_not_one _
  · intro h
    rw [h.and_not_one, h.and_not_one]

/-- A mask of ones is a remainder. -/
theorem and_ones_toNat (x : BitVec w) {n : ℕ} (m : BitVec w) (hm : m.toNat = 2 ^ n - 1) :
    (x &&& m).toNat = x.toNat % 2 ^ n := by
  rw [BitVec.toNat_and, hm, Nat.and_two_pow_sub_one_eq_mod]

/-- Clearing the `n` lowest bits rounds down to a multiple of `2 ^ n`. -/
theorem and_high_toNat (x m : BitVec w) {n : ℕ}
    (hm : ∀ i < w, m.getLsbD i = decide (n ≤ i)) : (x &&& m).toNat = x.toNat / 2 ^ n * 2 ^ n := by
  have hshift : x &&& m = (x >>> n) <<< n := by
    apply BitVec.eq_of_getLsbD_eq
    intro i hi
    rw [BitVec.getLsbD_and, hm i hi, BitVec.getLsbD_shiftLeft, BitVec.getLsbD_ushiftRight]
    by_cases h : i < n
    · simp [h]
    · have hback : n + (i - n) = i := by omega
      have hle : n ≤ i := by omega
      simp [h, hle, hi, hback]
  have hle : x.toNat / 2 ^ n * 2 ^ n ≤ x.toNat := Nat.div_mul_le_self ..
  have hlt := x.isLt
  rw [hshift, BitVec.toNat_shiftLeft, BitVec.toNat_ushiftRight, Nat.shiftRight_eq_div_pow,
    Nat.shiftLeft_eq, Nat.mod_eq_of_lt (by omega)]

/-- A field that fits into a word, at its place. -/
theorem shiftLeft_toNat {x : BitVec 32} {k len n : ℕ} (hx : x.toNat = n) (hn : n < 2 ^ len)
    (hfit : k + len ≤ 32) : (x <<< k).toNat = n * 2 ^ k := by
  have hpow : 2 ^ len * 2 ^ k ≤ 2 ^ 32 := by
    rw [← Nat.pow_add]
    exact Nat.pow_le_pow_right (by omega) (by omega)
  have hlt : n * 2 ^ k < 2 ^ len * 2 ^ k := Nat.mul_lt_mul_of_pos_right hn (Nat.two_pow_pos k)
  rw [BitVec.toNat_shiftLeft, Nat.shiftLeft_eq, hx, Nat.mod_eq_of_lt (hlt.trans_le hpow)]

/-- A field put into a place where a word is clear. -/
theorem or_shiftLeft_toNat {acc x : BitVec 32} {k len m n : ℕ} (hacc : acc.toNat = m)
    (hx : x.toNat = n) (hn : n < 2 ^ len) (hfit : k + len ≤ 32) (hclear : m / 2 ^ k % 2 ^ len = 0) :
    (acc ||| (x <<< k)).toNat = m + n * 2 ^ k := by
  have hdisjoint : acc &&& (x <<< k) = 0#32 := by
    apply BitVec.eq_of_getLsbD_eq
    intro j hj
    rw [BitVec.getLsbD_and, BitVec.getLsbD_shiftLeft, BitVec.getLsbD_zero, Bool.and_eq_false_iff]
    by_cases hin : k ≤ j ∧ j < k + len
    · left
      have hbit := congrArg (·.testBit (j - k)) hclear
      simp only [Nat.testBit_mod_two_pow, Nat.testBit_div_two_pow, Nat.zero_testBit] at hbit
      rw [Nat.sub_add_cancel hin.1, decide_eq_true (by omega), Bool.true_and, ← hacc] at hbit
      exact hbit
    · right
      by_cases hlo : j < k
      · simp [hlo]
      · have hpow : 2 ^ len ≤ 2 ^ (j - k) := Nat.pow_le_pow_right (by omega) (by omega)
        have hhigh : x.getLsbD (j - k) = false := Nat.testBit_lt_two_pow (by omega)
        rw [hhigh, Bool.and_false]
  rw [← BitVec.add_eq_or_of_and_eq_zero _ _ hdisjoint, BitVec.toNat_add_of_and_eq_zero hdisjoint,
    hacc, shiftLeft_toNat hx hn hfit]

/-- Extending a sign twice is extending it once. -/
theorem signExtend_signExtend {n m k : ℕ} (x : BitVec n) (h : n ≤ m) :
    (x.signExtend m).signExtend k = x.signExtend k := by
  have hmsb : (x.signExtend m).msb = x.msb := by
    rcases h.eq_or_lt with rfl | hlt
    · rw [BitVec.signExtend_eq]
    · rw [BitVec.msb_signExtend, if_neg (by omega), decide_eq_true (by omega), Bool.true_and]
  apply BitVec.eq_of_getLsbD_eq
  intro i hi
  rw [BitVec.getLsbD_signExtend, BitVec.getLsbD_signExtend, BitVec.getLsbD_signExtend, hmsb]
  split_ifs with him hin hin
  · rw [decide_eq_true him, Bool.true_and]
  · rw [decide_eq_true him, Bool.true_and]
  · omega
  · rfl

theorem signExtend_eq_zero {n m : ℕ} (x : BitVec n) (h : n ≤ m) :
    x.signExtend m = 0#m ↔ x = 0#n := by
  constructor
  · intro hzero
    apply BitVec.eq_of_getLsbD_eq
    intro i hi
    have hbit : (x.signExtend m).getLsbD i = (0#m).getLsbD i := congrArg (·.getLsbD i) hzero
    rw [BitVec.getLsbD_signExtend, if_pos hi, decide_eq_true (by omega), Bool.true_and] at hbit
    exact hbit.trans (BitVec.getLsbD_zero.trans BitVec.getLsbD_zero.symm)
  · rintro rfl
    rw [BitVec.signExtend_eq_setWidth_of_msb_false BitVec.msb_zero]
    exact BitVec.setWidth_zero ..

/-- Clear bits below a sign-extended word. -/
theorem signExtend_append_zero {n m k : ℕ} (x : BitVec (n + 1)) :
    x.signExtend m ++ 0#k = (x ++ 0#k).signExtend (m + k) := by
  have hmsb : (x ++ 0#k).msb = x.msb := by
    rw [BitVec.msb_append, if_neg]
    simp
  apply BitVec.eq_of_getLsbD_eq
  intro i hi
  rw [BitVec.getLsbD_signExtend, BitVec.getLsbD_append, BitVec.getLsbD_append, hmsb,
    BitVec.getLsbD_signExtend, decide_eq_true hi, Bool.true_and, BitVec.getLsbD_zero]
  split_ifs with hik hin hin
  · rfl
  · omega
  · rw [decide_eq_true (by omega), Bool.true_and]
  · omega
  · omega
  · rw [decide_eq_true (by omega), Bool.true_and]

/-- Two words side by side. -/
theorem append_toNat {v : ℕ} (hi : BitVec v) (lo : BitVec w) :
    (hi ++ lo).toNat = hi.toNat * 2 ^ w + lo.toNat := by
  rw [BitVec.toNat_append, ← Nat.shiftLeft_add_eq_or_of_lt lo.isLt, Nat.shiftLeft_eq]

theorem toNat_add_one (x : BitVec w) : (x + 1).toNat = (x.toNat + 1) % 2 ^ w := by
  rw [BitVec.toNat_add]
  change (x.toNat + 1 % 2 ^ w) % 2 ^ w = _
  rw [Nat.add_mod_mod]

/-- Counting in two words: the upper one takes the carry out of the lower one. -/
theorem append_add_one {v : ℕ} (hi : BitVec v) (lo : BitVec w) :
    (hi + if lo = -1 then 1 else 0) ++ (lo + 1) = (hi ++ lo) + 1 := by
  have hlt := lo.isLt
  apply BitVec.eq_of_toNat_eq
  rw [toNat_add_one, append_toNat, append_toNat, toNat_add_one]
  split
  case isTrue hmax =>
    have hlo : lo.toNat + 1 = 2 ^ w := by
      have hwrap : (lo + 1).toNat = (-1 + 1 : BitVec w).toNat := by rw [hmax]
      have hpos := Nat.two_pow_pos w
      rw [toNat_add_one, neg_add_cancel] at hwrap
      rcases Nat.lt_or_ge (lo.toNat + 1) (2 ^ w) with h | h
      · rw [Nat.mod_eq_of_lt h] at hwrap
        cases hwrap
      · omega
    rw [toNat_add_one, Nat.add_assoc, hlo, Nat.mod_self, Nat.add_zero, Nat.pow_add,
      ← Nat.succ_mul, Nat.mul_mod_mul_right]
  case isFalse hmax =>
    have hlo : lo.toNat + 1 < 2 ^ w := by
      refine lt_of_le_of_ne hlt fun h => hmax (eq_neg_of_add_eq_zero_left ?_)
      apply BitVec.eq_of_toNat_eq
      rw [toNat_add_one, h, Nat.mod_self]
      rfl
    have hhi : hi.toNat * 2 ^ w + 2 ^ w ≤ 2 ^ (v + w) := by
      rw [Nat.pow_add, ← Nat.succ_mul]
      exact Nat.mul_le_mul_right _ hi.isLt
    rw [add_zero, Nat.mod_eq_of_lt hlo, Nat.mod_eq_of_lt (by omega), Nat.add_assoc]

/-! ### Single bits at their places -/

/-- A word other than zero has a set bit. -/
theorem ne_zero_iff_exists_getLsbD {x : BitVec w} : x ≠ 0 ↔ ∃ n, x.getLsbD n = true := by
  constructor
  · intro hx
    exact ⟨_, BitVec.getLsbD_true_ctz_of_ne_zero hx⟩
  · rintro ⟨n, hn⟩ rfl
    exact Bool.false_ne_true (BitVec.getLsbD_zero.symm.trans hn)

theorem getLsbD_one_shiftLeft (k n : ℕ) (hk : k < w) :
    (1#w <<< k).getLsbD n = decide (n = k) := by
  rw [← BitVec.twoPow_eq, BitVec.getLsbD_twoPow, decide_eq_true hk, Bool.true_and]
  simp [eq_comm]

/-- A bit moved to another place. -/
theorem getLsbD_moved_bit {x : BitVec w} {k l n : ℕ} (hn : n < w) :
    (((x &&& (1#w <<< k)) >>> k) <<< l).getLsbD n = (decide (n = l) && x.getLsbD k) := by
  rw [and_one_shiftLeft]
  split
  case isTrue h =>
    have hk : k < w := BitVec.lt_of_getLsbD h
    rw [BitVec.getLsbD_shiftLeft, BitVec.getLsbD_ushiftRight, getLsbD_one_shiftLeft _ _ hk, h,
      decide_eq_true hn]
    by_cases hnl : n < l
    · simp [hnl, hnl.ne]
    · have hdiff : n - l = 0 ↔ n = l := by omega
      simp [hnl, hdiff]
  case isFalse h =>
    rw [Bool.eq_false_of_not_eq_true h]
    simp

/-- Bit `k` is merged into bit `l` and set. -/
theorem getLsbD_merge_set {x : BitVec w} {k l n : ℕ} (hk : k < w) (hn : n < w) :
    ((x ||| (((x &&& (1#w <<< k)) >>> k) <<< l)) ||| (1#w <<< k)).getLsbD n =
      (x.getLsbD n || (decide (n = l) && x.getLsbD k) || decide (n = k)) := by
  rw [BitVec.getLsbD_or, BitVec.getLsbD_or, getLsbD_moved_bit hn, getLsbD_one_shiftLeft _ _ hk]

/-- The bits of a word whose lowest set bit is bit `k`. -/
theorem getLsbD_of_lowest {x : BitVec w} {k : ℕ} (h : x.toNat % 2 ^ (k + 1) = 2 ^ k) :
    x.getLsbD k = true ∧ ∀ j < k, x.getLsbD j = false := by
  have hbit (j : ℕ) (hj : j ≤ k) : x.getLsbD j = decide (j = k) := by
    have hmod := Nat.testBit_mod_two_pow x.toNat (k + 1) j
    rw [h, Nat.testBit_two_pow, decide_eq_true (show j < k + 1 by omega), Bool.true_and] at hmod
    rw [← BitVec.testBit_toNat, ← hmod]
    simp [eq_comm]
  refine ⟨by rw [hbit k le_rfl]; simp, fun j hj => ?_⟩
  rw [hbit j hj.le]
  simp [hj.ne]

/-- `x & -x` is the lowest set bit of `x`. -/
theorem getLsbD_and_neg {x : BitVec w} {k : ℕ} (h : x.toNat % 2 ^ (k + 1) = 2 ^ k) (j : ℕ) :
    (x &&& -x).getLsbD j = decide (j = k) := by
  obtain ⟨hset, hclear⟩ := getLsbD_of_lowest h
  have hk : k < w := BitVec.lt_of_getLsbD hset
  rw [BitVec.getLsbD_and, BitVec.getLsbD_neg]
  rcases Nat.lt_trichotomy j k with hlt | rfl | hlt
  · simp [hclear j hlt, hlt.ne]
  · have hnone : ¬ ∃ l < j, x.getLsbD l = true := by
      rintro ⟨l, hl, hbit⟩
      simp [hclear l hl] at hbit
    simp [hset, hnone]
  · have hsome : ∃ l < j, x.getLsbD l = true := ⟨k, hlt, hset⟩
    by_cases hj : j < w
    · simp [hsome, hj, hlt.ne']
    · simp [BitVec.getLsbD_of_ge x j (by omega), hlt.ne']

/-- The negation of a word with one set bit has ones from that bit on. -/
theorem getLsbD_neg_of_single {x : BitVec w} {k : ℕ} (hk : k < w)
    (h : ∀ j, x.getLsbD j = decide (j = k)) (j : ℕ) :
    (-x).getLsbD j = (decide (k ≤ j) && decide (j < w)) := by
  rw [BitVec.getLsbD_neg, h]
  have hex : (∃ l < j, x.getLsbD l = true) ↔ k < j := by
    constructor
    · rintro ⟨l, hl, hbit⟩
      rw [h] at hbit
      have := of_decide_eq_true hbit
      omega
    · intro hlt
      exact ⟨k, hlt, by rw [h]; simp⟩
  simp only [hex]
  by_cases hj : j < w
  · rcases Nat.lt_trichotomy j k with hlt | rfl | hlt
    · simp [hlt.ne, Nat.not_le.mpr hlt, Nat.not_lt.mpr hlt.le]
    · simp [hj]
    · simp [hlt.ne', hlt, hlt.le, hj]
  · have hne : j ≠ k := by omega
    simp [hj, hne]

/-- Clearing the two lowest bits rounds down to a multiple of four. -/
theorem and_not_three_toNat (x : BitVec 32) : (x &&& ~~~3).toNat = x.toNat / 4 * 4 :=
  and_high_toNat x (~~~3) (n := 2) (by decide)

/-- An aligned address is its own word. -/
theorem and_not_three_of_aligned {x : BitVec 32} (h : x.toNat % 4 = 0) : x &&& ~~~3 = x := by
  apply BitVec.eq_of_toNat_eq
  rw [and_not_three_toNat]
  omega

/-- The word after the one of an address. -/
theorem toNat_nextWord (x : BitVec 32) :
    ((x &&& ~~~3) + 4).toNat = (x.toNat / 4 * 4 + 4) % 2 ^ 32 := by
  rw [BitVec.toNat_add, and_not_three_toNat]
  rfl

/-- The word of an address ends before the next one begins. -/
theorem ne_nextWord (t : BitVec 32) : t ≠ (t &&& ~~~3) + 4 := by
  intro h
  have hlt := t.isLt
  have hnat := congrArg BitVec.toNat h
  rw [toNat_nextWord] at hnat
  omega

theorem even_nextWord (x : BitVec 32) : EvenWord ((x &&& ~~~3) + 4) := by
  refine EvenWord.add (EvenWord.and_right ?_) ?_ <;> decide

/-- A word address stays one when it moves on by a word. -/
theorem and_not_three_add_four (x : BitVec 32) :
    ((x &&& ~~~3) + 4) &&& ~~~3 = (x &&& ~~~3) + 4 := by
  have hlt := x.isLt
  apply BitVec.eq_of_toNat_eq
  rw [and_not_three_toNat, BitVec.toNat_add, and_not_three_toNat]
  change (x.toNat / 4 * 4 + 4) % 2 ^ 32 / 4 * 4 = (x.toNat / 4 * 4 + 4) % 2 ^ 32
  omega

end Bits
