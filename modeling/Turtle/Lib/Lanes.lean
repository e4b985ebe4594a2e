import Mathlib.Data.BitVec
import Mathlib.Data.List.GetD

/-!
# Lists packed into lanes of a word

A word of `n` bits holds a list of `w`-bit lanes, first lane lowest. Shifting the
word right drops lanes, and merging a shifted word appends them.
-/

namespace Lanes

variable {w n : ℕ}

/-- The word whose lanes are the given list. Lanes beyond the word are lost. -/
def pack (n : ℕ) : List (BitVec w) → BitVec n
  | [] => 0
  | x :: xs => x.setWidth n ||| (pack n xs <<< w)

/-- Every bit of a packed list belongs to one lane. -/
theorem getLsbD_pack (hw : 0 < w) (xs : List (BitVec w)) (j : ℕ) :
    (pack n xs).getLsbD j = (decide (j < n) && (xs.getD (j / w) 0).getLsbD (j % w)) := by
  induction xs generalizing j with
  | nil => simp [pack]
  | cons x xs ih =>
    rw [pack, BitVec.getLsbD_or, BitVec.getLsbD_setWidth, BitVec.getLsbD_shiftLeft, ih]
    by_cases hj : j < w
    · simp [hj, Nat.div_eq_of_lt hj, Nat.mod_eq_of_lt hj]
    · have hdiv : j / w = (j - w) / w + 1 := by
        rw [← Nat.add_div_right _ hw, Nat.sub_add_cancel (by omega)]
      have hmod : (j - w) % w = j % w := (Nat.mod_eq_sub_mod (by omega)).symm
      have hlane : x.getLsbD j = false := BitVec.getLsbD_of_ge x j (by omega)
      rw [hlane, hdiv, hmod, List.getD_cons_succ]
      by_cases hn : j < n
      · have hn' : j - w < n := by omega
        simp [hn, hn', hj]
      · simp [hn]

/-- The bits above the last lane are clear. -/
theorem getLsbD_pack_of_le (hw : 0 < w) {xs : List (BitVec w)} {j : ℕ} (h : w * xs.length ≤ j) :
    (pack n xs).getLsbD j = false := by
  have hlane : xs.length ≤ j / w := (Nat.le_div_iff_mul_le hw).mpr (by rwa [Nat.mul_comm])
  rw [getLsbD_pack hw, List.getD_eq_default _ _ hlane]
  simp

theorem pack_append (hw : 0 < w) (xs ys : List (BitVec w)) :
    pack n (xs ++ ys) = pack n xs ||| (pack n ys <<< (w * xs.length)) := by
  apply BitVec.eq_of_getLsbD_eq
  intro j hj
  rw [BitVec.getLsbD_or, BitVec.getLsbD_shiftLeft, getLsbD_pack hw, getLsbD_pack hw,
    getLsbD_pack hw]
  by_cases hlane : j < w * xs.length
  · have hdiv : j / w < xs.length := (Nat.div_lt_iff_lt_mul hw).mpr (by rwa [Nat.mul_comm])
    rw [List.getD_append _ _ _ _ hdiv]
    simp [hlane]
  · have hle : w * xs.length ≤ j := Nat.le_of_not_lt hlane
    have hdiv : xs.length ≤ j / w := (Nat.le_div_iff_mul_le hw).mpr (by rwa [Nat.mul_comm])
    have hdiv' : (j - w * xs.length) / w = j / w - xs.length := Nat.sub_mul_div _ _ _
    have hmod' : (j - w * xs.length) % w = j % w := Nat.sub_mul_mod hle
    have hj' : j - w * xs.length < n := by omega
    rw [List.getD_append_right _ _ _ _ hdiv, hdiv', hmod', List.getD_eq_default xs _ hdiv]
    simp [hlane, hj, hj']

/-- Shifting right by whole lanes drops them. -/
theorem pack_ushiftRight (hw : 0 < w) {xs : List (BitVec w)} (h : w * xs.length ≤ n) (k : ℕ) :
    pack n xs >>> (w * k) = pack n (xs.drop k) := by
  apply BitVec.eq_of_getLsbD_eq
  intro j hj
  have hdiv : (w * k + j) / w = k + j / w := Nat.mul_add_div hw k j
  have hmod : (w * k + j) % w = j % w := Nat.mul_add_mod w k j
  rw [BitVec.getLsbD_ushiftRight, getLsbD_pack hw, getLsbD_pack hw, hdiv, hmod, List.getD_eq_getElem?_getD,
    List.getD_eq_getElem?_getD, List.getElem?_drop]
  by_cases hin : w * k + j < n
  · simp [hin, hj]
  · have hlen : xs.length ≤ k + j / w := by
      by_contra hlt
      have hlane : w * (k + j / w + 1) ≤ w * xs.length := Nat.mul_le_mul_left w (by omega)
      have hlast : j < w * (j / w + 1) := Nat.lt_mul_div_succ j hw
      have hsum : w * (k + j / w + 1) = w * k + w * (j / w + 1) := by rw [Nat.add_assoc, Nat.mul_add]
      omega
    rw [List.getElem?_eq_none hlen]
    simp [hin]

/-- The lowest lane is the first one. -/
theorem setWidth_pack_cons (hw : 0 < w) (hn : w ≤ n) (x : BitVec w) (xs : List (BitVec w)) :
    (pack n (x :: xs)).setWidth w = x := by
  apply BitVec.eq_of_getLsbD_eq
  intro j hj
  have hj' : j < n := by omega
  rw [BitVec.getLsbD_setWidth, getLsbD_pack hw, Nat.div_eq_of_lt hj, Nat.mod_eq_of_lt hj]
  simp [hj, hj']

/-- Shifting lanes in from below, the last one first, packs them. -/
theorem foldr_shift_eq_pack (xs : List (BitVec w)) :
    xs.foldr (fun x (v : BitVec n) => (v <<< w) ||| x.setWidth n) 0 = pack n xs := by
  induction xs with
  | nil => rfl
  | cons x xs ih => rw [List.foldr_cons, ih, pack, BitVec.or_comm]

/-- A lane of a word. -/
def lane (w : ℕ) (v : BitVec n) (k : ℕ) : BitVec w := (v >>> (w * k)).setWidth w

/-- A word is packed from its lanes. -/
theorem pack_lanes (hw : 0 < w) (v : BitVec n) {k : ℕ} (hk : n ≤ w * k) :
    pack n ((List.range k).map (lane w v)) = v := by
  apply BitVec.eq_of_getLsbD_eq
  intro j hj
  have hlt : j / w < k := (Nat.div_lt_iff_lt_mul hw).mpr (by rw [Nat.mul_comm]; omega)
  have hmod : j % w < w := Nat.mod_lt j hw
  rw [getLsbD_pack hw, List.getD_eq_getElem?_getD, List.getElem?_map,
    List.getElem?_eq_getElem (by simpa using hlt), List.getElem_range, Option.map_some,
    Option.getD_some, lane, BitVec.getLsbD_setWidth, BitVec.getLsbD_ushiftRight, Nat.div_add_mod]
  simp [hj, hmod]

theorem getLsbD_lane (v : BitVec n) (k j : ℕ) :
    (lane w v k).getLsbD j = (decide (j < w) && v.getLsbD (w * k + j)) := by
  rw [lane, BitVec.getLsbD_setWidth, BitVec.getLsbD_ushiftRight]

/-- A lane replaced through a mask. -/
def replace (v : BitVec n) (k : ℕ) (x : BitVec w) : BitVec n :=
  let mask := (BitVec.allOnes w).setWidth n <<< (w * k)
  (v &&& ~~~mask) ||| ((x.setWidth n <<< (w * k)) &&& mask)

/-- Replacing a lane inside the word changes that lane alone. -/
theorem lane_replace (v : BitVec n) {k : ℕ} (x : BitVec w) (hk : w * (k + 1) ≤ n) (j : ℕ) :
    lane w (replace v k x) j = if j = k then x else lane w v j := by
  apply BitVec.eq_of_getLsbD_eq
  intro b hb
  rw [getLsbD_lane]
  simp only [replace, BitVec.getLsbD_or, BitVec.getLsbD_and, BitVec.getLsbD_not,
    BitVec.getLsbD_shiftLeft, BitVec.getLsbD_setWidth, BitVec.getLsbD_allOnes]
  rw [Nat.mul_add, Nat.mul_one] at hk
  rcases Nat.lt_trichotomy j k with hlt | rfl | hgt
  · have hbelow : w * j + b < w * k := by
      have hle : w * (j + 1) ≤ w * k := Nat.mul_le_mul_left w hlt
      rw [Nat.mul_add, Nat.mul_one] at hle
      omega
    have hn : w * j + b < n := by omega
    rw [if_neg hlt.ne, getLsbD_lane]
    simp [hb, hbelow, hn]
  · have hin : w * j + b < n := by omega
    have hoff : w * j + b - w * j = b := by omega
    have hsmall : b < n := by omega
    have hup : ¬ w * j + b < w * j := by omega
    rw [if_pos rfl]
    simp [hb, hin, hoff, hsmall, hup]
  · have habove : w * (k + 1) ≤ w * j := Nat.mul_le_mul_left w hgt
    rw [Nat.mul_add, Nat.mul_one] at habove
    have hfar : ¬ w * j + b - w * k < w := by omega
    rw [if_neg hgt.ne', getLsbD_lane]
    by_cases hn : w * j + b < n
    · simp [hb, hfar, hn]
    · simp [hn, BitVec.getLsbD_of_ge v (w * j + b) (by omega)]

end Lanes
