import Turtle.Lib.MulDiv
import Turtle.Signals

/-!
# The M extension

`mext.hpp`. MEXT answers a request at the clock edge after it, with the operands that the
`ID_EX` record has at that edge. A division that C++ leaves undefined gives an arbitrary
value here.
-/

namespace Turtle

/-- The output registers of `MEXT`. -/
structure Mext where
  mextRspAck : Bool := false
  mextResult : BitVec 32 := 0
  deriving DecidableEq, Repr

namespace Mext

/-- `INT32_MIN`. -/
def int32Min : BitVec 32 := 0x80000000

section

variable (undef : BitVec 32 → BitVec 32 → BitVec 32)

/-- `(int32_t)a / (int32_t)b`. -/
def signedDiv (a b : BitVec 32) : BitVec 32 :=
  if b = 0 ∨ (a = int32Min ∧ b = -1) then undef a b else a.sdiv b

/-- `(int32_t)a % (int32_t)b`. -/
def signedRem (a b : BitVec 32) : BitVec 32 :=
  if b = 0 ∨ (a = int32Min ∧ b = -1) then undef a b else a.srem b

/-- `(uint32_t)a / (uint32_t)b`. -/
def unsignedDiv (a b : BitVec 32) : BitVec 32 := if b = 0 then undef a b else a / b

/-- `(uint32_t)a % (uint32_t)b`. -/
def unsignedRem (a b : BitVec 32) : BitVec 32 := if b = 0 then undef a b else a % b

/-- `MEXT::mext_seq`. Signed products wrap; a product of an `int64_t` and a `uint64_t` is
unsigned. -/
def mextSeq (mextReqAck : Bool) (idEx : IdEx) : Mext :=
  let a := idEx.rs1Val
  let b := idEx.rs2Val
  let answer (v : BitVec 32) : Mext := { mextRspAck := true, mextResult := v }
  if mextReqAck then
    match idEx.type with
    | .mul => answer (a * b)
    | .mulh => answer (((a.signExtend 64 * b.signExtend 64).sshiftRight 32).setWidth 32)
    | .mulhsu => answer (((a.signExtend 64 * b.setWidth 64) >>> 32).setWidth 32)
    | .mulhu => answer (((a.setWidth 64 * b.setWidth 64) >>> 32).setWidth 32)
    | .div =>
      if b = 0 then answer (-1)
      else if a = int32Min ∧ b = -1 then answer int32Min
      else answer (signedDiv undef a b)
    | .divu => answer (if b = 0 then 0xFFFFFFFF else unsignedDiv undef a b)
    | .rem =>
      if b = 0 then answer a
      else if a = int32Min ∧ b = -1 then answer 0
      else answer (signedRem undef a b)
    | .remu => answer (if b = 0 then a else unsignedRem undef a b)
    | _ => { mextRspAck := false, mextResult := 0 }
  else { mextRspAck := false, mextResult := 0 }

end

/-- The instruction of an operation. -/
def typeOf : MulDiv.Op → InstrType
  | .mul => .mul
  | .mulh => .mulh
  | .mulhsu => .mulhsu
  | .mulhu => .mulhu
  | .div => .div
  | .divu => .divu
  | .rem => .rem
  | .remu => .remu

variable {undef : BitVec 32 → BitVec 32 → BitVec 32} {a b : BitVec 32}

/-- The guards leave no undefined signed division. -/
theorem signedDiv_eq (hzero : b ≠ 0) (hover : ¬ MulDiv.Overflows a b) :
    signedDiv undef a b = a.sdiv b := if_neg (not_or.mpr ⟨hzero, hover⟩)

theorem signedRem_eq (hzero : b ≠ 0) (hover : ¬ MulDiv.Overflows a b) :
    signedRem undef a b = a.srem b := if_neg (not_or.mpr ⟨hzero, hover⟩)

/-- A request is answered with the result of the operation. -/
theorem mextSeq_typeOf (op : MulDiv.Op) (idEx : IdEx) (h : idEx.type = typeOf op) :
    mextSeq undef true idEx = ⟨true, op.result idEx.rs1Val idEx.rs2Val⟩ := by
  unfold mextSeq
  dsimp only
  rw [if_pos rfl, h]
  generalize idEx.rs1Val = a
  generalize idEx.rs2Val = b
  cases op with
  | mul => exact congrArg (Mext.mk true) (MulDiv.mul_eq_low a b)
  | mulh =>
    refine congrArg (Mext.mk true) ?_
    rw [MulDiv.signExtend_mul_signExtend]
    exact MulDiv.sshiftRight_ofInt _
  | mulhsu =>
    refine congrArg (Mext.mk true) ?_
    rw [MulDiv.signExtend_mul_setWidth]
    exact MulDiv.ushiftRight_ofInt _
  | mulhu =>
    refine congrArg (Mext.mk true) ?_
    rw [MulDiv.setWidth_mul_setWidth]
    exact MulDiv.ushiftRight_ofInt _
  | div =>
    simp only [typeOf, MulDiv.Op.result]
    by_cases hzero : b = 0
    · rw [if_pos hzero, if_pos hzero]
    rw [if_neg hzero, if_neg hzero]
    by_cases hover : MulDiv.Overflows a b
    · rw [if_pos (show a = int32Min ∧ b = -1 from hover), if_pos hover, hover.1]
      rfl
    · rw [if_neg (show ¬ (a = int32Min ∧ b = -1) from hover), if_neg hover,
        signedDiv_eq hzero hover, MulDiv.sdiv_eq_ofInt hover]
  | divu =>
    simp only [typeOf, MulDiv.Op.result]
    by_cases hzero : b = 0
    · rw [if_pos hzero, if_pos hzero]
      rfl
    · rw [if_neg hzero, if_neg hzero, unsignedDiv, if_neg hzero, MulDiv.udiv_eq_ofNat]
  | rem =>
    simp only [typeOf, MulDiv.Op.result]
    by_cases hzero : b = 0
    · rw [if_pos hzero, if_pos hzero]
    rw [if_neg hzero, if_neg hzero]
    by_cases hover : MulDiv.Overflows a b
    · rw [if_pos (show a = int32Min ∧ b = -1 from hover), if_pos hover]
    · rw [if_neg (show ¬ (a = int32Min ∧ b = -1) from hover), if_neg hover,
        signedRem_eq hzero hover, MulDiv.srem_eq_ofInt]
  | remu =>
    simp only [typeOf, MulDiv.Op.result]
    by_cases hzero : b = 0
    · rw [if_pos hzero, if_pos hzero]
    · rw [if_neg hzero, if_neg hzero, unsignedRem, if_neg hzero, MulDiv.umod_eq_ofNat]

/-- The results of MEXT for a pair of operands: every operation gives its integer result, and
quotients and remainders belong together. -/
structure Correct (undef : BitVec 32 → BitVec 32 → BitVec 32) (a b : BitVec 32) : Prop where
  result : ∀ (op : MulDiv.Op) (idEx : IdEx),
    mextSeq undef true { idEx with type := typeOf op, rs1Val := a, rs2Val := b } =
      { mextRspAck := true, mextResult := op.result a b }
  signed : b * MulDiv.Op.div.result a b + MulDiv.Op.rem.result a b = a
  unsigned : b * MulDiv.Op.divu.result a b + MulDiv.Op.remu.result a b = a
  towardZero : b ≠ 0 → ¬ MulDiv.Overflows a b →
    (MulDiv.Op.div.result a b).toInt = a.toInt.tdiv b.toInt ∧
      (MulDiv.Op.rem.result a b).toInt = a.toInt.tmod b.toInt

/-- Whatever the undefined divisions give, the results are the ones of the integers for every
pair of operands. -/
theorem mextSeq_correct (undef : BitVec 32 → BitVec 32 → BitVec 32) (a b : BitVec 32) :
    Correct undef a b where
  result op _ := mextSeq_typeOf op _ rfl
  signed := MulDiv.div_mul_add_rem a b
  unsigned := MulDiv.divu_mul_add_remu a b
  towardZero hzero hover := MulDiv.div_toInt hzero hover

-- The high half of -1 times 2 ^ 32 - 1.
example : (mextSeq (fun _ _ => 0) true { type := .mulhsu, rs1Val := -1, rs2Val := -1 }).mextResult =
    0xffffffff := by decide

end Mext

end Turtle
