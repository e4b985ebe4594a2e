import Mathlib.Data.BitVec
import Mathlib.Tactic.Positivity
import Mathlib.Tactic.Ring

/-!
# Multiplication and division of words

The eight operations of the M extension over the integers, for words of any width. A
product has two halves; a quotient is rounded toward zero.
-/

namespace MulDiv

variable {w : ℕ}

/-- The operations. -/
inductive Op
  | mul | mulh | mulhsu | mulhu | div | divu | rem | remu
  deriving DecidableEq, Repr

/-- The low half of an integer of two words. -/
def low (w : ℕ) (x : ℤ) : BitVec w := BitVec.ofInt w x

/-- The high half of an integer of two words. -/
def high (w : ℕ) (x : ℤ) : BitVec w := BitVec.ofInt w (x / 2 ^ w)

/-- The one signed division whose quotient is not a word. -/
def Overflows (a b : BitVec w) : Prop := a = BitVec.intMin w ∧ b = -1

instance (a b : BitVec w) : Decidable (Overflows a b) := inferInstanceAs (Decidable (_ ∧ _))

/-- The result of an operation. -/
def Op.result (op : Op) (a b : BitVec w) : BitVec w :=
  match op with
  | mul => low w (a.toInt * b.toInt)
  | mulh => high w (a.toInt * b.toInt)
  | mulhsu => high w (a.toInt * b.toNat)
  | mulhu => high w (a.toNat * b.toNat)
  | div =>
    if b = 0 then -1 else if Overflows a b then a else BitVec.ofInt w (a.toInt.tdiv b.toInt)
  | divu => if b = 0 then -1 else BitVec.ofNat w (a.toNat / b.toNat)
  | rem => if b = 0 then a else if Overflows a b then 0 else BitVec.ofInt w (a.toInt.tmod b.toInt)
  | remu => if b = 0 then a else BitVec.ofNat w (a.toNat % b.toNat)

/-! ### Products -/

/-- The high half of a double word is its quotient by the size of a word. -/
theorem ushiftRight_ofInt (x : ℤ) :
    ((BitVec.ofInt (w + w) x) >>> w).setWidth w = high w x := by
  have hpos : (0 : ℤ) < 2 ^ w := by positivity
  have hdiv : x % (2 ^ w * 2 ^ w) / 2 ^ w = x / 2 ^ w + 2 ^ w * -(x / (2 ^ w * 2 ^ w)) := by
    rw [Int.emod_def, ← Int.add_mul_ediv_left _ _ hpos.ne']
    congr 1
    ring
  have hmod : x % (2 ^ w * 2 ^ w) / 2 ^ w % 2 ^ w = x / 2 ^ w % 2 ^ w := by
    rw [hdiv, Int.add_mul_emod_self_left]
  obtain ⟨n, hn⟩ := Int.eq_ofNat_of_zero_le
    (Int.emod_nonneg x (mul_pos hpos hpos).ne')
  apply BitVec.eq_of_toNat_eq
  rw [high, BitVec.toNat_setWidth, BitVec.toNat_ushiftRight, BitVec.toNat_ofInt,
    BitVec.toNat_ofInt, Nat.shiftRight_eq_div_pow]
  push_cast
  rw [pow_add, ← hmod, hn, Int.toNat_natCast]
  norm_cast

/-- The shift of a signed double word gives the same half. -/
theorem sshiftRight_ofInt (x : ℤ) :
    ((BitVec.ofInt (w + w) x).sshiftRight w).setWidth w = high w x := by
  rw [← ushiftRight_ofInt]
  apply BitVec.eq_of_getLsbD_eq
  intro n hn
  rw [BitVec.getLsbD_setWidth, BitVec.getLsbD_setWidth, BitVec.getLsbD_sshiftRight,
    BitVec.getLsbD_ushiftRight]
  have hin : ¬ w + w ≤ n := by omega
  have hlow : w + n < w + w := by omega
  simp [hin, hlow]

/-- The low half of a product needs no double word. -/
theorem mul_eq_low (a b : BitVec w) : a * b = low w (a.toInt * b.toInt) := by
  rw [low, BitVec.ofInt_mul, BitVec.ofInt_toInt, BitVec.ofInt_toInt]

/-! Products of words in a wider word, signed and unsigned. -/

theorem setWidth_eq_ofInt {n : ℕ} (a : BitVec w) : a.setWidth n = BitVec.ofInt n a.toNat := by
  rw [BitVec.ofInt_natCast, BitVec.ofNat_toNat]

theorem signExtend_mul_signExtend {n : ℕ} (a b : BitVec w) :
    a.signExtend n * b.signExtend n = BitVec.ofInt n (a.toInt * b.toInt) :=
  (BitVec.ofInt_mul _ _).symm

theorem signExtend_mul_setWidth {n : ℕ} (a b : BitVec w) :
    a.signExtend n * b.setWidth n = BitVec.ofInt n (a.toInt * b.toNat) := by
  rw [setWidth_eq_ofInt, BitVec.ofInt_mul]
  rfl

theorem setWidth_mul_setWidth {n : ℕ} (a b : BitVec w) :
    a.setWidth n * b.setWidth n = BitVec.ofInt n (a.toNat * b.toNat) := by
  rw [setWidth_eq_ofInt, setWidth_eq_ofInt, BitVec.ofInt_mul]

/-! ### Quotients -/

variable {a b : BitVec w}

/-- Without overflow the signed quotient is exact. -/
theorem sdiv_eq_ofInt (h : ¬ Overflows a b) : a.sdiv b = BitVec.ofInt w (a.toInt.tdiv b.toInt) := by
  rw [← BitVec.toInt_sdiv_of_ne_or_ne a b (not_and_or.mp h), BitVec.ofInt_toInt]

theorem srem_eq_ofInt (a b : BitVec w) : a.srem b = BitVec.ofInt w (a.toInt.tmod b.toInt) := by
  rw [← BitVec.toInt_srem, BitVec.ofInt_toInt]

theorem udiv_eq_ofNat (a b : BitVec w) : a / b = BitVec.ofNat w (a.toNat / b.toNat) := by
  rw [← BitVec.toNat_udiv, BitVec.ofNat_toNat, BitVec.setWidth_eq]

theorem umod_eq_ofNat (a b : BitVec w) : a % b = BitVec.ofNat w (a.toNat % b.toNat) := by
  rw [← BitVec.toNat_umod, BitVec.ofNat_toNat, BitVec.setWidth_eq]

/-- Dividend, divisor, quotient and remainder of a signed division. -/
theorem div_mul_add_rem (a b : BitVec w) :
    b * Op.div.result a b + Op.rem.result a b = a := by
  simp only [Op.result]
  by_cases hzero : b = 0
  · rw [if_pos hzero, if_pos hzero, hzero, zero_mul, zero_add]
  rw [if_neg hzero, if_neg hzero]
  by_cases hover : Overflows a b
  · -- The negation of the least word is that word.
    rw [if_pos hover, if_pos hover, hover.1, hover.2, add_zero, neg_one_mul, BitVec.neg_intMin]
  · rw [if_neg hover, if_neg hover]
    calc b * BitVec.ofInt w (a.toInt.tdiv b.toInt) + BitVec.ofInt w (a.toInt.tmod b.toInt)
        = BitVec.ofInt w (b.toInt * a.toInt.tdiv b.toInt + a.toInt.tmod b.toInt) := by
          rw [BitVec.ofInt_add, BitVec.ofInt_mul, BitVec.ofInt_toInt]
      _ = a := by rw [Int.mul_tdiv_add_tmod, BitVec.ofInt_toInt]

/-- Dividend, divisor, quotient and remainder of an unsigned division. -/
theorem divu_mul_add_remu (a b : BitVec w) :
    b * Op.divu.result a b + Op.remu.result a b = a := by
  simp only [Op.result]
  by_cases hzero : b = 0
  · rw [if_pos hzero, if_pos hzero, hzero, zero_mul, zero_add]
  · rw [if_neg hzero, if_neg hzero]
    calc b * BitVec.ofNat w (a.toNat / b.toNat) + BitVec.ofNat w (a.toNat % b.toNat)
        = BitVec.ofNat w (b.toNat * (a.toNat / b.toNat) + a.toNat % b.toNat) := by
          rw [BitVec.ofNat_add, BitVec.ofNat_mul, BitVec.ofNat_toNat, BitVec.setWidth_eq]
      _ = a := by rw [Nat.div_add_mod, BitVec.ofNat_toNat, BitVec.setWidth_eq]

/-- The quotient and the remainder are the ones of the integers, not just modulo the size of a
word. -/
theorem div_toInt (hzero : b ≠ 0) (hover : ¬ Overflows a b) :
    (Op.div.result a b).toInt = a.toInt.tdiv b.toInt ∧
      (Op.rem.result a b).toInt = a.toInt.tmod b.toInt := by
  simp only [Op.result]
  rw [if_neg hzero, if_neg hzero, if_neg hover, if_neg hover, ← sdiv_eq_ofInt hover,
    ← srem_eq_ofInt, BitVec.toInt_srem]
  exact ⟨BitVec.toInt_sdiv_of_ne_or_ne a b (not_and_or.mp hover), rfl⟩

end MulDiv
