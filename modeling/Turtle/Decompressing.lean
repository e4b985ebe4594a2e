import Turtle.Decoding
import Turtle.Lib.Rv32c

/-!
# What compressed instructions decompress to

`Decode::decompress` reads fields of a halfword in many overlapping ways and sorts the
bits of its immediates. For the encoding of each compressed instruction this file says
which record comes out.
-/

namespace Turtle

open Rv32 (CFields CInstr toNat_append toNat_slice toNat_of_slice slice_append slice_join slice_slice)

/-! ### Reading the fields of a halfword -/

/-- The halfword as `decompress` gets it. -/
def cword (C : CFields) : BitVec 32 := C.half.setWidth 32

section

variable (C : CFields)

theorem toNat_cword : (cword C).toNat = C.half.toNat := by
  have hlt := C.half.isLt
  rw [cword, BitVec.toNat_setWidth]
  omega

/-- The fields of the word, as numbers. -/
theorem cword_slices : (cword C).toNat / 2 ^ 13 = C.funct3.toNat ∧
    (cword C).toNat / 2 ^ 12 % 2 = C.bit12.toNat ∧
    (cword C).toNat / 2 ^ 7 % 2 ^ 5 = C.mid.toNat ∧
    (cword C).toNat / 2 ^ 2 % 2 ^ 5 = C.low.toNat ∧ (cword C).toNat % 2 ^ 2 = C.op.toNat := by
  rw [toNat_cword]
  exact C.toNat_slices

theorem getBits_op : getBits (cword C) 1 0 = C.op.setWidth 32 := by
  obtain ⟨-, -, -, -, hop⟩ := cword_slices C
  exact getBits_eq (by omega) (by omega)

theorem getBits_cfunct3 : getBits (cword C) 15 13 = C.funct3.setWidth 32 := by
  obtain ⟨hfunct3, -, -, -, -⟩ := cword_slices C
  have hlt := C.funct3.isLt
  exact getBits_eq (by omega) (by omega)

theorem getBits_bit12 : getBits (cword C) 12 12 = C.bit12.setWidth 32 := by
  obtain ⟨-, hbit12, -, -, -⟩ := cword_slices C
  exact getBits_eq (by omega) hbit12

theorem getBits_mid : getBits (cword C) 11 7 = C.mid.setWidth 32 := by
  obtain ⟨-, -, hmid, -, -⟩ := cword_slices C
  exact getBits_eq (by omega) hmid

theorem getBits_low : getBits (cword C) 6 2 = C.low.setWidth 32 := by
  obtain ⟨-, -, -, hlow, -⟩ := cword_slices C
  exact getBits_eq (by omega) hlow

theorem regField_mid : regField (cword C) 11 7 = C.mid := by
  rw [regField, getBits_mid, BitVec.setWidth_setWidth_of_le _ (by omega), BitVec.setWidth_eq]

theorem regField_low : regField (cword C) 6 2 = C.low := by
  rw [regField, getBits_low, BitVec.setWidth_setWidth_of_le _ (by omega), BitVec.setWidth_eq]

/-- The two parts of the middle field. -/
theorem getBits_mid_parts {hi : BitVec 2} {r : BitVec 3} (h : C.mid = hi ++ r) :
    getBits (cword C) 11 10 = hi.setWidth 32 ∧ getBits (cword C) 9 7 = r.setWidth 32 := by
  obtain ⟨-, -, hmid, -, -⟩ := cword_slices C
  have hhi := hi.isLt
  have hr := r.isLt
  rw [h, toNat_append] at hmid
  exact ⟨getBits_eq (by omega) (by omega), getBits_eq (by omega) (by omega)⟩

/-- The two parts of the low field. -/
theorem getBits_low_parts {hi : BitVec 2} {r : BitVec 3} (h : C.low = hi ++ r) :
    getBits (cword C) 6 5 = hi.setWidth 32 ∧ getBits (cword C) 4 2 = r.setWidth 32 := by
  obtain ⟨-, -, -, hlow, -⟩ := cword_slices C
  have hhi := hi.isLt
  have hr := r.isLt
  rw [h, toNat_append] at hlow
  exact ⟨getBits_eq (by omega) (by omega), getBits_eq (by omega) (by omega)⟩

/-- A piece of the bits 12 to 7. -/
theorem upper_piece {i n : ℕ} {x : BitVec (n + 1)}
    (hx : (C.bit12 ++ C.mid).extractLsb' i (n + 1) = x) (h : i + n < 6) :
    (getBits (cword C) (7 + i + n) (7 + i)).toNat = x.toNat := by
  have hassoc : C.funct3 ++ C.bit12 ++ C.mid = C.funct3 ++ (C.bit12 ++ C.mid) :=
    BitVec.append_assoc
  have hslice : C.half.extractLsb' (2 + (5 + i)) (n + 1) = x := by
    rw [CFields.half, slice_append, slice_append, hassoc, ← hx]
    exact BitVec.extractLsb'_append_eq_of_add_le h
  have hnat := toNat_of_slice hslice
  refine getBits_piece _ _ _ _ (by omega) ?_
  rw [toNat_cword, ← hnat, show 7 + i = 2 + (5 + i) by omega, Nat.add_sub_cancel_left]

/-- A piece of the bits 6 to 2. -/
theorem low_piece {i n : ℕ} {x : BitVec (n + 1)} (hx : C.low.extractLsb' i (n + 1) = x)
    (h : i + n < 5) : (getBits (cword C) (2 + i + n) (2 + i)).toNat = x.toNat := by
  have hslice : C.half.extractLsb' (2 + i) (n + 1) = x := by
    rw [CFields.half, slice_append, ← hx]
    exact BitVec.extractLsb'_append_eq_of_add_le h
  have hnat := toNat_of_slice hslice
  refine getBits_piece _ _ _ _ (by omega) ?_
  rw [toNat_cword, ← hnat, Nat.add_sub_cancel_left]

theorem bit12_piece : (getBits (cword C) 12 12).toNat = C.bit12.toNat := by
  obtain ⟨-, hbit12, -, -, -⟩ := cword_slices C
  exact getBits_piece _ _ _ _ (by omega) hbit12

/-- Pieces of an immediate whose five lowest bits are the bits 6 to 2. -/
theorem low_slice {m : ℕ} (imm : BitVec m) (hlow : C.low = imm.extractLsb' 0 5) (i n : ℕ)
    (h : i + n < 5) : (getBits (cword C) (2 + i + n) (2 + i)).toNat =
      (imm.extractLsb' i (n + 1)).toNat := by
  refine low_piece C ?_ h
  rw [hlow, slice_slice imm h, Nat.zero_add]

/-- The two lowest bits of an immediate, in front of a register. -/
theorem low_bit {m : ℕ} {imm : BitVec m} {r : BitVec 3} (hlow : C.low = imm.extractLsb' 0 2 ++ r)
    {i : ℕ} (h : i < 2) :
    (getBits (cword C) (5 + i) (5 + i)).toNat = (imm.extractLsb' i 1).toNat := by
  have hslice : C.low.extractLsb' (3 + i) (0 + 1) = imm.extractLsb' i 1 := by
    rw [hlow, slice_append, slice_slice imm (by omega), Nat.zero_add i]
  have hpiece := low_piece C hslice (by omega)
  rwa [Nat.add_zero, ← Nat.add_assoc] at hpiece

/-- A register of three bits. -/
theorem creg_eq (r : BitVec 3) : (r.setWidth 32 + 8).setWidth 5 = Rv32.creg r := by
  have hr := r.isLt
  apply BitVec.eq_of_toNat_eq
  rw [Rv32.creg, toNat_append, BitVec.toNat_setWidth, BitVec.toNat_add, BitVec.toNat_setWidth]
  change (r.toNat % 2 ^ 32 + 8) % 2 ^ 32 % 2 ^ 5 = 1 * 2 ^ 3 + r.toNat
  omega

theorem cRegField_mid {hi : BitVec 2} {r : BitVec 3} (h : C.mid = hi ++ r) :
    cRegField (cword C) 9 7 = Rv32.creg r := by
  rw [cRegField, (getBits_mid_parts C h).2, creg_eq]

theorem cRegField_low {hi : BitVec 2} {r : BitVec 3} (h : C.low = hi ++ r) :
    cRegField (cword C) 4 2 = Rv32.creg r := by
  rw [cRegField, (getBits_low_parts C h).2, creg_eq]

end

/-! ### Immediates -/

/-- An immediate without sign. -/
theorem eq_signExtend_of_toNat {v : BitVec 32} {imm : BitVec 12} (h : v.toNat = imm.toNat)
    (hsmall : imm.toNat < 2 ^ 11) : v = imm.signExtend 32 := by
  have hmsb : imm.msb = false := by
    rw [BitVec.msb_eq_decide, decide_eq_false_iff_not]
    omega
  apply BitVec.eq_of_toNat_eq
  rw [BitVec.signExtend_eq_setWidth_of_msb_false hmsb, BitVec.toNat_setWidth, h]
  omega

section

variable (funct3 : BitVec 3) (op : BitVec 2)

/-- The immediate of `C.ADDI4SPN`. -/
theorem immAddi4spn_cword (imm : BitVec 8) (rd : BitVec 3) {w : BitVec 32}
    (hw : w = cword ⟨funct3, imm.extractLsb' 7 1, imm.extractLsb' 2 5,
      imm.extractLsb' 0 2 ++ rd, op⟩) :
    (getBits w 12 11 <<< 4) ||| (getBits w 10 7 <<< 6) ||| (getBits w 6 6 <<< 2) |||
      (getBits w 5 5 <<< 3) = (Rv32.immAddi4spn imm).signExtend 32 := by
  have hupper (i n : ℕ) (h : i + n < 6) :
      (getBits w (7 + i + n) (7 + i)).toNat = (imm.extractLsb' (2 + i) (n + 1)).toNat := by
    rw [hw]
    refine upper_piece _ ?_ h
    rw [← slice_join imm 2 5 1]
    exact slice_slice imm h
  have h4 : (getBits w 12 11).toNat = (imm.extractLsb' 6 2).toNat := hupper 4 1 (by decide)
  have h6 : (getBits w 10 7).toNat = (imm.extractLsb' 2 4).toNat := hupper 0 3 (by decide)
  have h2 : (getBits w 6 6).toNat = (imm.extractLsb' 1 1).toNat :=
    hw ▸ low_bit _ rfl (i := 1) (by decide)
  have h3 : (getBits w 5 5).toNat = (imm.extractLsb' 0 1).toNat :=
    hw ▸ low_bit _ rfl (i := 0) (by decide)
  clear hupper
  unfold Rv32.immAddi4spn
  generalize imm.extractLsb' 6 2 = a at h4 ⊢
  generalize imm.extractLsb' 2 4 = b at h6 ⊢
  generalize imm.extractLsb' 1 1 = c at h2 ⊢
  generalize imm.extractLsb' 0 1 = d at h3 ⊢
  have ha := a.isLt
  have hb := b.isLt
  have hc := c.isLt
  have hd := d.isLt
  have hsum := Bits.shiftLeft_toNat (k := 4) h4 ha (by omega)
  have hsum := Bits.or_shiftLeft_toNat (k := 6) hsum h6 hb (by omega) (by omega)
  have hsum := Bits.or_shiftLeft_toNat (k := 2) hsum h2 hc (by omega) (by omega)
  have hsum := Bits.or_shiftLeft_toNat (k := 3) hsum h3 hd (by omega) (by omega)
  refine eq_signExtend_of_toNat (hsum.trans ?_) ?_
  all_goals
    simp only [toNat_append, BitVec.toNat_zero]
    omega

/-- The offset of `C.LW` and `C.SW`. -/
theorem cImmLw_cword (imm : BitVec 5) (r r' : BitVec 3) :
    cImmLw (cword ⟨funct3, imm.extractLsb' 4 1, imm.extractLsb' 2 2 ++ r,
      imm.extractLsb' 0 2 ++ r', op⟩) = (Rv32.immLw imm).signExtend 32 := by
  generalize hC : CFields.mk .. = C
  have h6 : (getBits (cword C) 5 5).toNat = (imm.extractLsb' 0 1).toNat :=
    hC ▸ low_bit _ rfl (i := 0) (by decide)
  have h3 : (getBits (cword C) 12 10).toNat = (imm.extractLsb' 2 3).toNat := by
    have hassoc : imm.extractLsb' 4 1 ++ (imm.extractLsb' 2 2 ++ r) =
        imm.extractLsb' 4 1 ++ imm.extractLsb' 2 2 ++ r := BitVec.append_assoc.symm
    rw [← slice_join imm 2 2 1] at hassoc
    rw [← hC]
    refine upper_piece _ (i := 3) (n := 2) ?_ (by decide)
    rw [hassoc]
    exact BitVec.extractLsb'_append_eq_left
  have h2 : (getBits (cword C) 6 6).toNat = (imm.extractLsb' 1 1).toNat :=
    hC ▸ low_bit _ rfl (i := 1) (by decide)
  unfold cImmLw Rv32.immLw
  generalize imm.extractLsb' 0 1 = a at h6 ⊢
  generalize imm.extractLsb' 2 3 = b at h3 ⊢
  generalize imm.extractLsb' 1 1 = c at h2 ⊢
  have ha := a.isLt
  have hb := b.isLt
  have hc := c.isLt
  have hsum := Bits.shiftLeft_toNat (k := 6) h6 ha (by omega)
  have hsum := Bits.or_shiftLeft_toNat (k := 3) hsum h3 hb (by omega) (by omega)
  have hsum := Bits.or_shiftLeft_toNat (k := 2) hsum h2 hc (by omega) (by omega)
  refine eq_signExtend_of_toNat (hsum.trans ?_) ?_
  all_goals
    simp only [toNat_append, BitVec.toNat_zero]
    omega

/-- The offset of `C.LWSP`. -/
theorem immLwsp_cword (imm : BitVec 6) (rd : BitVec 5) {w : BitVec 32}
    (hw : w = cword ⟨funct3, imm.extractLsb' 5 1, rd, imm.extractLsb' 0 5, op⟩) :
    (getBits w 12 12 <<< 5) ||| (getBits w 6 4 <<< 2) ||| (getBits w 3 2 <<< 6) =
      (Rv32.immLwsp imm).signExtend 32 := by
  have h5 : (getBits w 12 12).toNat = (imm.extractLsb' 5 1).toNat := hw ▸ bit12_piece _
  have h2 : (getBits w 6 4).toNat = (imm.extractLsb' 2 3).toNat :=
    hw ▸ low_slice _ _ rfl 2 2 (by decide)
  have h6 : (getBits w 3 2).toNat = (imm.extractLsb' 0 2).toNat :=
    hw ▸ low_slice _ _ rfl 0 1 (by decide)
  unfold Rv32.immLwsp
  generalize imm.extractLsb' 5 1 = a at h5 ⊢
  generalize imm.extractLsb' 2 3 = b at h2 ⊢
  generalize imm.extractLsb' 0 2 = c at h6 ⊢
  have ha := a.isLt
  have hb := b.isLt
  have hc := c.isLt
  have hsum := Bits.shiftLeft_toNat (k := 5) h5 ha (by omega)
  have hsum := Bits.or_shiftLeft_toNat (k := 2) hsum h2 hb (by omega) (by omega)
  have hsum := Bits.or_shiftLeft_toNat (k := 6) hsum h6 hc (by omega) (by omega)
  refine eq_signExtend_of_toNat (hsum.trans ?_) ?_
  all_goals
    simp only [toNat_append, BitVec.toNat_zero]
    omega

/-- The offset of `C.SWSP`. -/
theorem immSwsp_cword (imm : BitVec 6) (rs2 : BitVec 5) {w : BitVec 32}
    (hw : w = cword ⟨funct3, imm.extractLsb' 5 1, imm.extractLsb' 0 5, rs2, op⟩) :
    (getBits w 12 9 <<< 2) ||| (getBits w 8 7 <<< 6) = (Rv32.immSwsp imm).signExtend 32 := by
  have hupper (i n : ℕ) (h : i + n < 6) :
      (getBits w (7 + i + n) (7 + i)).toNat = (imm.extractLsb' i (n + 1)).toNat := by
    rw [hw]
    refine upper_piece _ ?_ h
    rw [← slice_join imm 0 5 1, slice_slice imm h, Nat.zero_add]
  have h2 : (getBits w 12 9).toNat = (imm.extractLsb' 2 4).toNat := hupper 2 3 (by decide)
  have h6 : (getBits w 8 7).toNat = (imm.extractLsb' 0 2).toNat := hupper 0 1 (by decide)
  clear hupper
  unfold Rv32.immSwsp
  generalize imm.extractLsb' 2 4 = a at h2 ⊢
  generalize imm.extractLsb' 0 2 = b at h6 ⊢
  have ha := a.isLt
  have hb := b.isLt
  have hsum := Bits.shiftLeft_toNat (k := 2) h2 ha (by omega)
  have hsum := Bits.or_shiftLeft_toNat (k := 6) hsum h6 hb (by omega) (by omega)
  refine eq_signExtend_of_toNat (hsum.trans ?_) ?_
  all_goals
    simp only [toNat_append, BitVec.toNat_zero]
    omega

/-- The signed immediate of the CI format. -/
theorem cImm6_cword (imm : BitVec 6) (rd : BitVec 5) :
    cImm6 (cword ⟨funct3, imm.extractLsb' 5 1, rd, imm.extractLsb' 0 5, op⟩) =
      (imm.signExtend 12).signExtend 32 := by
  generalize hC : CFields.mk .. = C
  have h5 : (getBits (cword C) 12 12).toNat = (imm.extractLsb' 5 1).toNat := hC ▸ bit12_piece _
  have h0 : (getBits (cword C) 6 2).toNat = (imm.extractLsb' 0 5).toNat :=
    hC ▸ low_slice _ _ rfl 0 4 (by decide)
  have hpieces := Rv32.toNat_eq_slices (m := 1) (n := 5) imm
  have hhigh := (imm.extractLsb' 5 1).isLt
  have hlow := (imm.extractLsb' 0 5).isLt
  have hsum := Bits.or_shiftLeft_toNat (k := 5) h0 h5 hhigh (by omega) (by omega)
  rw [BitVec.or_comm] at hsum
  rw [Bits.signExtend_signExtend _ (by omega)]
  refine signExtend_of_toNat (n := 5) (hsum.trans ?_) (by omega)
  omega

/-- The immediate of `C.ADDI16SP`. -/
theorem immAddi16sp_cword (imm : BitVec 6) (rd : BitVec 5) {w : BitVec 32}
    (hw : w = cword ⟨funct3, imm.extractLsb' 5 1, rd, imm.extractLsb' 0 5, op⟩) :
    signExtend ((getBits w 12 12 <<< 9) ||| (getBits w 6 6 <<< 4) ||| (getBits w 5 5 <<< 6) |||
      (getBits w 4 3 <<< 7) ||| (getBits w 2 2 <<< 5)) 10 =
        (Rv32.immAddi16sp imm).signExtend 32 := by
  have h9 : (getBits w 12 12).toNat = (imm.extractLsb' 5 1).toNat := hw ▸ bit12_piece _
  have h4 : (getBits w 6 6).toNat = (imm.extractLsb' 4 1).toNat :=
    hw ▸ low_slice _ _ rfl 4 0 (by decide)
  have h6 : (getBits w 5 5).toNat = (imm.extractLsb' 3 1).toNat :=
    hw ▸ low_slice _ _ rfl 3 0 (by decide)
  have h7 : (getBits w 4 3).toNat = (imm.extractLsb' 1 2).toNat :=
    hw ▸ low_slice _ _ rfl 1 1 (by decide)
  have h5 : (getBits w 2 2).toNat = (imm.extractLsb' 0 1).toNat :=
    hw ▸ low_slice _ _ rfl 0 0 (by decide)
  unfold Rv32.immAddi16sp
  rw [Bits.signExtend_signExtend _ (by omega)]
  generalize imm.extractLsb' 5 1 = a at h9 ⊢
  generalize imm.extractLsb' 4 1 = b at h4 ⊢
  generalize imm.extractLsb' 3 1 = c at h6 ⊢
  generalize imm.extractLsb' 1 2 = d at h7 ⊢
  generalize imm.extractLsb' 0 1 = e at h5 ⊢
  have ha := a.isLt
  have hb := b.isLt
  have hc := c.isLt
  have hd := d.isLt
  have he := e.isLt
  have hsum := Bits.shiftLeft_toNat (k := 9) h9 ha (by omega)
  have hsum := Bits.or_shiftLeft_toNat (k := 4) hsum h4 hb (by omega) (by omega)
  have hsum := Bits.or_shiftLeft_toNat (k := 6) hsum h6 hc (by omega) (by omega)
  have hsum := Bits.or_shiftLeft_toNat (k := 7) hsum h7 hd (by omega) (by omega)
  have hsum := Bits.or_shiftLeft_toNat (k := 5) hsum h5 he (by omega) (by omega)
  refine signExtend_of_toNat (n := 9) (hsum.trans ?_) (by omega)
  simp only [toNat_append, BitVec.toNat_zero]
  omega

/-- The immediate of `C.LUI`. -/
theorem immLui_cword (imm : BitVec 6) (rd : BitVec 5) {w : BitVec 32}
    (hw : w = cword ⟨funct3, imm.extractLsb' 5 1, rd, imm.extractLsb' 0 5, op⟩) :
    signExtend ((getBits w 12 12 <<< 17) ||| (getBits w 6 2 <<< 12)) 18 =
      imm.signExtend 20 ++ 0#12 := by
  have h17 : (getBits w 12 12).toNat = (imm.extractLsb' 5 1).toNat := hw ▸ bit12_piece _
  have h12 : (getBits w 6 2).toNat = (imm.extractLsb' 0 5).toNat :=
    hw ▸ low_slice _ _ rfl 0 4 (by decide)
  have hpieces := Rv32.toNat_eq_slices (m := 1) (n := 5) imm
  have hhigh := (imm.extractLsb' 5 1).isLt
  have hlow := (imm.extractLsb' 0 5).isLt
  have hsum := Bits.shiftLeft_toNat (k := 17) h17 hhigh (by omega)
  have hsum := Bits.or_shiftLeft_toNat (k := 12) hsum h12 hlow (by omega) (by omega)
  rw [Bits.signExtend_append_zero (n := 5) imm]
  refine signExtend_of_toNat (n := 17) (hsum.trans ?_) (by omega)
  rw [toNat_append, BitVec.toNat_zero]
  omega

/-- The offset of `C.JAL` and `C.J`. -/
theorem cImmJ_cword (offset : BitVec 11) :
    cImmJ (cword ⟨funct3, offset.extractLsb' 10 1, offset.extractLsb' 5 5,
      offset.extractLsb' 0 5, op⟩) = (Rv32.offsetJ offset ++ 0#1).signExtend 32 := by
  generalize hC : CFields.mk .. = C
  have hupper (i n : ℕ) (h : i + n < 6) : (getBits (cword C) (7 + i + n) (7 + i)).toNat =
      (offset.extractLsb' (5 + i) (n + 1)).toNat := by
    rw [← hC]
    refine upper_piece _ ?_ h
    rw [← slice_join offset 5 5 1]
    exact slice_slice offset h
  have hlow := low_slice C offset (by rw [← hC])
  have h11 : (getBits (cword C) 12 12).toNat = (offset.extractLsb' 10 1).toNat :=
    hupper 5 0 (by decide)
  have h4 : (getBits (cword C) 11 11).toNat = (offset.extractLsb' 9 1).toNat :=
    hupper 4 0 (by decide)
  have h8 : (getBits (cword C) 10 9).toNat = (offset.extractLsb' 7 2).toNat :=
    hupper 2 1 (by decide)
  have h10 : (getBits (cword C) 8 8).toNat = (offset.extractLsb' 6 1).toNat :=
    hupper 1 0 (by decide)
  have h6 : (getBits (cword C) 7 7).toNat = (offset.extractLsb' 5 1).toNat :=
    hupper 0 0 (by decide)
  have h7 : (getBits (cword C) 6 6).toNat = (offset.extractLsb' 4 1).toNat := hlow 4 0 (by decide)
  have h1 : (getBits (cword C) 5 3).toNat = (offset.extractLsb' 1 3).toNat := hlow 1 2 (by decide)
  have h5 : (getBits (cword C) 2 2).toNat = (offset.extractLsb' 0 1).toNat := hlow 0 0 (by decide)
  clear hupper hlow
  unfold cImmJ Rv32.offsetJ
  rw [Bits.signExtend_append_zero (n := 10), Bits.signExtend_signExtend _ (by omega)]
  generalize offset.extractLsb' 10 1 = a at h11 ⊢
  generalize offset.extractLsb' 9 1 = b at h4 ⊢
  generalize offset.extractLsb' 7 2 = c at h8 ⊢
  generalize offset.extractLsb' 6 1 = d at h10 ⊢
  generalize offset.extractLsb' 5 1 = e at h6 ⊢
  generalize offset.extractLsb' 4 1 = g at h7 ⊢
  generalize offset.extractLsb' 1 3 = h at h1 ⊢
  generalize offset.extractLsb' 0 1 = k at h5 ⊢
  have ha := a.isLt
  have hb := b.isLt
  have hc := c.isLt
  have hd := d.isLt
  have he := e.isLt
  have hg := g.isLt
  have hh := h.isLt
  have hk := k.isLt
  have hsum := Bits.shiftLeft_toNat (k := 11) h11 ha (by omega)
  have hsum := Bits.or_shiftLeft_toNat (k := 4) hsum h4 hb (by omega) (by omega)
  have hsum := Bits.or_shiftLeft_toNat (k := 8) hsum h8 hc (by omega) (by omega)
  have hsum := Bits.or_shiftLeft_toNat (k := 10) hsum h10 hd (by omega) (by omega)
  have hsum := Bits.or_shiftLeft_toNat (k := 6) hsum h6 he (by omega) (by omega)
  have hsum := Bits.or_shiftLeft_toNat (k := 7) hsum h7 hg (by omega) (by omega)
  have hsum := Bits.or_shiftLeft_toNat (k := 1) hsum h1 hh (by omega) (by omega)
  have hsum := Bits.or_shiftLeft_toNat (k := 5) hsum h5 hk (by omega) (by omega)
  refine signExtend_of_toNat (n := 11) (hsum.trans ?_) (by omega)
  simp only [toNat_append, BitVec.toNat_zero]
  omega

/-- The offset of `C.BEQZ` and `C.BNEZ`. -/
theorem cImmB_cword (offset : BitVec 8) (rs1 : BitVec 3) :
    cImmB (cword ⟨funct3, offset.extractLsb' 7 1, offset.extractLsb' 5 2 ++ rs1,
      offset.extractLsb' 0 5, op⟩) = (Rv32.offsetB offset ++ 0#1).signExtend 32 := by
  generalize hC : CFields.mk .. = C
  have hlow := low_slice C offset (by rw [← hC])
  have h8 : (getBits (cword C) 12 12).toNat = (offset.extractLsb' 7 1).toNat := hC ▸ bit12_piece _
  have h3 : (getBits (cword C) 11 10).toNat = (offset.extractLsb' 5 2).toNat := by
    have hmid := (getBits_mid_parts C (congrArg CFields.mid hC).symm).1
    rw [hmid, BitVec.toNat_setWidth_of_le (by decide)]
  have h6 : (getBits (cword C) 6 5).toNat = (offset.extractLsb' 3 2).toNat := hlow 3 1 (by decide)
  have h1 : (getBits (cword C) 4 3).toNat = (offset.extractLsb' 1 2).toNat := hlow 1 1 (by decide)
  have h5 : (getBits (cword C) 2 2).toNat = (offset.extractLsb' 0 1).toNat := hlow 0 0 (by decide)
  clear hlow
  unfold cImmB Rv32.offsetB
  rw [Bits.signExtend_append_zero (n := 7), Bits.signExtend_signExtend _ (by omega)]
  generalize offset.extractLsb' 7 1 = a at h8 ⊢
  generalize offset.extractLsb' 5 2 = b at h3 ⊢
  generalize offset.extractLsb' 3 2 = c at h6 ⊢
  generalize offset.extractLsb' 1 2 = d at h1 ⊢
  generalize offset.extractLsb' 0 1 = e at h5 ⊢
  have ha := a.isLt
  have hb := b.isLt
  have hc := c.isLt
  have hd := d.isLt
  have he := e.isLt
  have hsum := Bits.shiftLeft_toNat (k := 8) h8 ha (by omega)
  have hsum := Bits.or_shiftLeft_toNat (k := 3) hsum h3 hb (by omega) (by omega)
  have hsum := Bits.or_shiftLeft_toNat (k := 6) hsum h6 hc (by omega) (by omega)
  have hsum := Bits.or_shiftLeft_toNat (k := 1) hsum h1 hd (by omega) (by omega)
  have hsum := Bits.or_shiftLeft_toNat (k := 5) hsum h5 he (by omega) (by omega)
  refine signExtend_of_toNat (n := 8) (hsum.trans ?_) (by omega)
  simp only [toNat_append, BitVec.toNat_zero]
  omega

end

/-! ### What each compressed instruction decompresses to -/

/-- The record on which the quadrants of `decompress` work. -/
@[simp] def decompressStart (pc : BitVec 32) (C : CFields) : IdEx where
  inst := cword C
  isCompressed := true
  pc := pc

/-- The operands that `decompress` reads at its end. -/
@[simp] def withOperands (f : Forward) (d : IdEx) : IdEx :=
  { d with rs1Val := f.operand d.rs1, rs2Val := f.operand d.rs2 }

section

variable {f : Forward} {pc : BitVec 32} {C : CFields} {d : IdEx}

theorem decompress_q0 (h : C.op = 0b00) : decompress f pc (cword C) =
    withOperands f (decompressQ0 (decompressStart pc C) (cword C)) := by
  unfold decompress
  rw [getBits_op, h]
  rfl

theorem decompress_q1 (h : C.op = 0b01) : decompress f pc (cword C) =
    withOperands f (decompressQ1 (decompressStart pc C) (cword C)) := by
  unfold decompress
  rw [getBits_op, h]
  rfl

theorem decompress_q2 (h : C.op = 0b10) : decompress f pc (cword C) =
    withOperands f (decompressQ2 (decompressStart pc C) (cword C)) := by
  unfold decompress
  rw [getBits_op, h]
  rfl

theorem immAddi4spn_ne_zero {imm : BitVec 8} (himm : imm ≠ 0) :
    (Rv32.immAddi4spn imm).signExtend 32 ≠ 0#32 := by
  rw [Ne, Bits.signExtend_eq_zero _ (by omega)]
  intro hzero
  have hjoin : imm.extractLsb' 6 2 ++ imm.extractLsb' 2 4 ++ imm.extractLsb' 1 1 ++
      imm.extractLsb' 0 1 = imm := by
    rw [← slice_join imm 2 4 2, ← slice_join imm 1 1 6, ← slice_join imm 0 1 7]
    exact BitVec.extractLsb'_eq_self
  have hnat := congrArg BitVec.toNat hzero
  have hnat' := congrArg BitVec.toNat hjoin
  unfold Rv32.immAddi4spn at hnat
  simp only [toNat_append, BitVec.toNat_zero] at hnat hnat'
  refine himm (BitVec.eq_of_toNat_eq ?_)
  change imm.toNat = 0
  omega

theorem immAddi16sp_ne_zero {imm : BitVec 6} (himm : imm ≠ 0) :
    (Rv32.immAddi16sp imm).signExtend 32 ≠ 0#32 := by
  unfold Rv32.immAddi16sp
  rw [Ne, Bits.signExtend_eq_zero _ (by omega), Bits.signExtend_eq_zero _ (by omega)]
  revert imm
  decide

/-- A halfword with a clear or a set bit 12. -/
theorem getBits_bit12_eq_zero : getBits (cword C) 12 12 = 0 ↔ C.bit12 = 0 := by
  have hlt := C.bit12.isLt
  rw [getBits_bit12, ← BitVec.toNat_inj, ← BitVec.toNat_inj, BitVec.toNat_setWidth,
    Nat.mod_eq_of_lt (by omega)]
  rfl

theorem and_bit12_eq_zero : cword C &&& (1#32 <<< 12) = 0 ↔ C.bit12 = 0 := by
  have htest := Bits.and_one_shiftLeft_ne_zero_iff (x := cword C) (n := 12)
  rw [← not_iff_not, ← Ne, htest, ← getBits_bit12_eq_zero, ← BitVec.toNat_inj,
    getBits_toNat _ _ _ (by omega), BitVec.getLsbD, Nat.testBit_eq_decide_div_mod_eq,
    decide_eq_true_iff]
  change _ ↔ ¬ _ = 0
  omega

theorem decompressQ0_addi4spn (rd : BitVec 3) (imm : BitVec 8) (himm : imm ≠ 0) :
    decompressQ0 d (cword (CInstr.addi4spn rd imm himm).fields) =
      { d with type := .addi, ctype := .cAddi4spn, rs1 := 2,
               imm := (Rv32.immAddi4spn imm).signExtend 32, rd := Rv32.creg rd,
               writesRd := true } := by
  unfold decompressQ0
  rw [getBits_cfunct3, cRegField_low _ rfl, CInstr.fields, immAddi4spn_cword _ _ imm rd rfl]
  exact if_neg (immAddi4spn_ne_zero himm)

theorem decompressQ0_lw (rd rs1 : BitVec 3) (imm : BitVec 5) :
    decompressQ0 d (cword (CInstr.lw rd rs1 imm).fields) =
      { d with type := .lw, ctype := .cLw, rs1 := Rv32.creg rs1, rd := Rv32.creg rd,
               imm := (Rv32.immLw imm).signExtend 32, writesRd := true, isLoad := true,
               memSize := 4 } := by
  unfold decompressQ0
  rw [getBits_cfunct3, cRegField_low _ rfl, cRegField_mid _ rfl, CInstr.fields, cImmLw_cword]
  rfl

theorem decompressQ0_sw (rs2 rs1 : BitVec 3) (imm : BitVec 5) :
    decompressQ0 d (cword (CInstr.sw rs2 rs1 imm).fields) =
      { d with type := .sw, ctype := .cSw, rs1 := Rv32.creg rs1, rs2 := Rv32.creg rs2,
               imm := (Rv32.immLw imm).signExtend 32, writesRd := false, isStore := true,
               memSize := 4 } := by
  unfold decompressQ0
  rw [getBits_cfunct3, cRegField_low _ rfl, cRegField_mid _ rfl, CInstr.fields, cImmLw_cword]
  rfl

/-- `C.NOP` is the word 1. -/
theorem cword_addi_eq_one {rd : BitVec 5} {imm : BitVec 6} :
    cword (CInstr.addi rd imm).fields = 1 ↔ rd = 0 ∧ imm = 0 := by
  have hpieces := Rv32.toNat_eq_slices (m := 1) (n := 5) imm
  rw [← BitVec.toNat_inj, ← BitVec.toNat_inj, ← BitVec.toNat_inj, toNat_cword,
    Rv32.CFields.toNat_half]
  simp only [CInstr.fields]
  change 0 * 2 ^ 13 + _ + _ + _ + 1 = 1 ↔ _ = 0 ∧ _ = 0
  omega

theorem decompressQ1_nop : decompressQ1 d (cword (CInstr.addi 0 0).fields) =
    { d with type := .nop, ctype := .cNop, writesRd := false } := by
  unfold decompressQ1
  rw [getBits_cfunct3]
  exact if_pos (cword_addi_eq_one.mpr ⟨rfl, rfl⟩)

theorem decompressQ1_addi (rd : BitVec 5) (imm : BitVec 6) (h : ¬ (rd = 0 ∧ imm = 0)) :
    decompressQ1 d (cword (CInstr.addi rd imm).fields) =
      { d with type := .addi, ctype := .cAddi, rd := rd, rs1 := rd,
               imm := (imm.signExtend 12).signExtend 32, writesRd := true } := by
  unfold decompressQ1
  rw [getBits_cfunct3, regField_mid, ← cImm6_cword]
  exact if_neg (mt cword_addi_eq_one.mp h)

theorem decompressQ1_jal (offset : BitVec 11) :
    decompressQ1 d (cword (CInstr.jal offset).fields) =
      { d with type := .jal, ctype := .cJal, rd := 1, writesRd := true,
               imm := (Rv32.offsetJ offset ++ 0#1).signExtend 32 } := by
  unfold decompressQ1
  rw [getBits_cfunct3, CInstr.fields, cImmJ_cword]
  rfl

theorem decompressQ1_li (rd : BitVec 5) (imm : BitVec 6) :
    decompressQ1 d (cword (CInstr.li rd imm).fields) =
      { d with type := .addi, ctype := .cLi, rd := rd, rs1 := 0,
               imm := (imm.signExtend 12).signExtend 32, writesRd := true } := by
  unfold decompressQ1
  rw [getBits_cfunct3, regField_mid, CInstr.fields, cImm6_cword]
  rfl

theorem decompressQ1_addi16sp (imm : BitVec 6) (himm : imm ≠ 0) :
    decompressQ1 d (cword (CInstr.addi16sp imm himm).fields) =
      { d with type := .addi, ctype := .cAddi16sp, rs1 := 2,
               imm := (Rv32.immAddi16sp imm).signExtend 32, rd := 2, writesRd := true } := by
  unfold decompressQ1
  rw [getBits_cfunct3, regField_mid, CInstr.fields, immAddi16sp_cword _ _ imm 2 rfl]
  exact if_neg (immAddi16sp_ne_zero himm)

theorem decompressQ1_lui (rd : BitVec 5) (imm : BitVec 6) (hrd : rd ≠ 2) (himm : imm ≠ 0) :
    decompressQ1 d (cword (CInstr.lui rd imm hrd himm).fields) =
      { d with type := .lui, ctype := .cLui, rd := rd, rs1 := 0, writesRd := true,
               imm := imm.signExtend 20 ++ 0#12 } := by
  unfold decompressQ1
  rw [getBits_cfunct3, regField_mid, CInstr.fields, immLui_cword _ _ imm rd rfl]
  exact if_neg hrd

theorem decompressQ1_miscAlu (h : C.funct3 = 0b100) :
    decompressQ1 d (cword C) = decompressMiscAlu d (cword C) := by
  unfold decompressQ1
  rw [getBits_cfunct3, h]
  rfl

theorem decompressMiscAlu_srli (rd : BitVec 3) (shamt : BitVec 5) :
    decompressMiscAlu d (cword (CInstr.srli rd shamt).fields) =
      { d with type := .srli, ctype := .cSrli, rd := Rv32.creg rd, rs1 := Rv32.creg rd,
               imm := shamt.setWidth 32, writesRd := true } := by
  unfold decompressMiscAlu
  rw [(getBits_mid_parts _ rfl).1, cRegField_mid _ rfl, getBits_low]
  exact if_neg (not_not.mpr (getBits_bit12_eq_zero.mpr rfl))

theorem decompressMiscAlu_srai (rd : BitVec 3) (shamt : BitVec 5) :
    decompressMiscAlu d (cword (CInstr.srai rd shamt).fields) =
      { d with type := .srai, ctype := .cSrai, rd := Rv32.creg rd, rs1 := Rv32.creg rd,
               imm := shamt.setWidth 32, writesRd := true } := by
  unfold decompressMiscAlu
  rw [(getBits_mid_parts _ rfl).1, cRegField_mid _ rfl, getBits_low]
  exact if_neg (not_not.mpr (getBits_bit12_eq_zero.mpr rfl))

theorem decompressMiscAlu_andi (rd : BitVec 3) (imm : BitVec 6) :
    decompressMiscAlu d (cword (CInstr.andi rd imm).fields) =
      { d with type := .andi, ctype := .cAndi, rd := Rv32.creg rd, rs1 := Rv32.creg rd,
               imm := (imm.signExtend 12).signExtend 32, writesRd := true } := by
  unfold decompressMiscAlu
  rw [(getBits_mid_parts _ rfl).1, cRegField_mid _ rfl, CInstr.fields, cImm6_cword]
  rfl

/-- The `InstrType` that `decompress` notes for an operation on two registers. -/
def carithType : Rv32.CArith → InstrType
  | .sub => .cSub
  | .xor => .cXor
  | .or => .cOr
  | .and => .cAnd

theorem decompressMiscAlu_arith (op : Rv32.CArith) (rd rs2 : BitVec 3) :
    decompressMiscAlu d (cword (CInstr.arith op rd rs2).fields) =
      { d with type := aluType op.alu, ctype := carithType op, rd := Rv32.creg rd,
               rs1 := Rv32.creg rd, rs2 := Rv32.creg rs2, writesRd := true } := by
  unfold decompressMiscAlu decompressCA
  rw [(getBits_mid_parts _ rfl).1, (getBits_low_parts _ rfl).1, cRegField_mid _ rfl,
    cRegField_low _ rfl]
  refine (if_pos (and_bit12_eq_zero.mpr rfl)).trans ?_
  cases op <;> rfl

theorem decompressQ1_j (offset : BitVec 11) :
    decompressQ1 d (cword (CInstr.j offset).fields) =
      { d with type := .jal, ctype := .cJ, rd := 0, rs1 := 0, rs2 := 0, writesRd := false,
               imm := (Rv32.offsetJ offset ++ 0#1).signExtend 32 } := by
  unfold decompressQ1
  rw [getBits_cfunct3, CInstr.fields, cImmJ_cword]
  rfl

theorem decompressQ1_beqz (rs1 : BitVec 3) (offset : BitVec 8) :
    decompressQ1 d (cword (CInstr.beqz rs1 offset).fields) =
      { d with type := .beq, ctype := .cBeqz, rd := 0, writesRd := false, rs1 := Rv32.creg rs1,
               rs2 := 0, imm := (Rv32.offsetB offset ++ 0#1).signExtend 32 } := by
  unfold decompressQ1
  rw [getBits_cfunct3, cRegField_mid _ rfl, CInstr.fields, cImmB_cword]
  rfl

theorem decompressQ1_bnez (rs1 : BitVec 3) (offset : BitVec 8) :
    decompressQ1 d (cword (CInstr.bnez rs1 offset).fields) =
      { d with type := .bne, ctype := .cBnez, rd := 0, writesRd := false, rs1 := Rv32.creg rs1,
               rs2 := 0, imm := (Rv32.offsetB offset ++ 0#1).signExtend 32 } := by
  unfold decompressQ1
  rw [getBits_cfunct3, cRegField_mid _ rfl, CInstr.fields, cImmB_cword]
  rfl

theorem decompressQ2_slli (rd shamt : BitVec 5) :
    decompressQ2 d (cword (CInstr.slli rd shamt).fields) =
      { d with type := .slli, ctype := .cSlli, rd := rd, rs1 := rd, imm := shamt.setWidth 32,
               writesRd := true } := by
  unfold decompressQ2
  rw [getBits_cfunct3, regField_mid, getBits_low]
  exact if_neg fun h => h.1 (getBits_bit12_eq_zero.mpr rfl)

theorem decompressQ2_lwsp (rd : BitVec 5) (imm : BitVec 6) (hrd : rd ≠ 0) :
    decompressQ2 d (cword (CInstr.lwsp rd imm hrd).fields) =
      { d with type := .lw, ctype := .cLwsp, rd := rd, rs1 := 2,
               imm := (Rv32.immLwsp imm).signExtend 32, writesRd := true, isLoad := true,
               memSize := 4 } := by
  unfold decompressQ2
  rw [getBits_cfunct3, regField_mid, CInstr.fields, immLwsp_cword _ _ imm rd rfl]
  exact if_neg hrd

theorem decompressQ2_swsp (rs2 : BitVec 5) (imm : BitVec 6) :
    decompressQ2 d (cword (CInstr.swsp rs2 imm).fields) =
      { d with type := .sw, ctype := .cSwsp, rs1 := 2, rs2 := rs2, writesRd := false,
               imm := (Rv32.immSwsp imm).signExtend 32, isStore := true, memSize := 4 } := by
  unfold decompressQ2
  rw [getBits_cfunct3, regField_low, CInstr.fields, immSwsp_cword _ _ imm rs2 rfl]
  rfl

/-- The instructions of quadrant `10` with `funct3 = 100` are told apart by bit 12 and by
two registers that may be absent. -/
theorem decompressQ2_registers (h : C.funct3 = 0b100) : decompressQ2 d (cword C) =
    if C.bit12 = 0 then
      if C.low = 0 then decompressJr d (cword C) .cJr 0 false
      else { d with type := .add, ctype := .cMv, rd := C.mid, rs1 := 0, rs2 := C.low,
                    writesRd := true }
    else if C.low = 0 then
      if C.mid = 0 then { d with type := .ebreak, ctype := .cEbreak }
      else decompressJr d (cword C) .cJalr 1 true
    else { d with type := .add, ctype := .cAdd, rd := C.mid, rs1 := C.mid, rs2 := C.low,
                  writesRd := true } := by
  unfold decompressQ2
  simp only [getBits_cfunct3, h, regField_mid, regField_low, getBits_bit12_eq_zero]
  rfl

theorem decompressJr_cword (ctype : InstrType) (rd : BitVec 5) (writesRd : Bool)
    (h : C.mid ≠ 0) : decompressJr d (cword C) ctype rd writesRd =
      { d with type := .jalr, ctype := ctype, rd := rd, rs1 := C.mid, imm := 0,
               writesRd := writesRd } := by
  unfold decompressJr
  rw [regField_mid]
  exact if_neg h

theorem decompressQ2_jr (rs1 : BitVec 5) (hrs1 : rs1 ≠ 0) :
    decompressQ2 d (cword (CInstr.jr rs1 hrs1).fields) =
      { d with type := .jalr, ctype := .cJr, rd := 0, rs1 := rs1, imm := 0, writesRd := false } := by
  rw [decompressQ2_registers rfl]
  refine (if_pos rfl).trans ((if_pos rfl).trans ?_)
  exact decompressJr_cword _ _ _ hrs1

theorem decompressQ2_mv (rd rs2 : BitVec 5) (hrs2 : rs2 ≠ 0) :
    decompressQ2 d (cword (CInstr.mv rd rs2 hrs2).fields) =
      { d with type := .add, ctype := .cMv, rd := rd, rs1 := 0, rs2 := rs2, writesRd := true } := by
  rw [decompressQ2_registers rfl]
  exact (if_pos rfl).trans (if_neg hrs2)

theorem decompressQ2_ebreak : decompressQ2 d (cword CInstr.ebreak.fields) =
    { d with type := .ebreak, ctype := .cEbreak } := by
  rw [decompressQ2_registers rfl]
  exact (if_neg (by decide)).trans ((if_pos rfl).trans (if_pos rfl))

theorem decompressQ2_jalr (rs1 : BitVec 5) (hrs1 : rs1 ≠ 0) :
    decompressQ2 d (cword (CInstr.jalr rs1 hrs1).fields) =
      { d with type := .jalr, ctype := .cJalr, rd := 1, rs1 := rs1, imm := 0, writesRd := true } := by
  have hbit : (1#1 : BitVec 1) ≠ 0 := by decide
  rw [decompressQ2_registers rfl]
  refine (if_neg hbit).trans ((if_pos rfl).trans ((if_neg hrs1).trans ?_))
  exact decompressJr_cword _ _ _ hrs1

theorem decompressQ2_add (rd rs2 : BitVec 5) (hrs2 : rs2 ≠ 0) :
    decompressQ2 d (cword (CInstr.add rd rs2 hrs2).fields) =
      { d with type := .add, ctype := .cAdd, rd := rd, rs1 := rd, rs2 := rs2, writesRd := true } := by
  have hbit : (1#1 : BitVec 1) ≠ 0 := by decide
  rw [decompressQ2_registers rfl]
  exact (if_neg hbit).trans (if_neg hrs2)

theorem decompress_isCompressed (f : Forward) (pc inst : BitVec 32) :
    (decompress f pc inst).isCompressed = true := (decompress_word f pc inst).2

/-- The record of a compressed instruction, taken for that of an uncompressed one. -/
def IdEx.expanded (d : IdEx) : IdEx :=
  { d with isCompressed := false, writesRd := d.writesRd && d.rd != 0 }

@[simp] theorem setWidth_shamt (shamt : BitVec 5) : (shamt.setWidth 32).setWidth 5 = shamt := by
  rw [BitVec.setWidth_setWidth_of_le _ (by omega), BitVec.setWidth_eq]

/-- Decompressing is decoding the expansion, except for `C.NOP`. -/
theorem decompress_decodes (c : CInstr) (hnop : c ≠ .addi 0 0) :
    Decodes f pc c.expand (decompress f pc (cword c.fields)).expanded := by
  cases c with
  | addi4spn rd imm himm =>
    rw [decompress_q0 rfl, decompressQ0_addi4spn]
    constructor <;> simp [IdEx.kinds, IdEx.expanded, aluImmType]
  | lw rd rs1 imm =>
    rw [decompress_q0 rfl, decompressQ0_lw]
    constructor <;> simp [IdEx.kinds, IdEx.expanded, loadType, Rv32.Load.size]
  | sw rs2 rs1 imm =>
    rw [decompress_q0 rfl, decompressQ0_sw]
    constructor <;> simp [IdEx.kinds, IdEx.expanded, storeType, Rv32.Store.size]
  | addi rd imm =>
    rw [decompress_q1 rfl, decompressQ1_addi rd imm (by rintro ⟨rfl, rfl⟩; exact hnop rfl)]
    constructor <;> simp [IdEx.kinds, IdEx.expanded, aluImmType]
  | jal offset =>
    rw [decompress_q1 rfl, decompressQ1_jal]
    constructor <;> simp [IdEx.kinds, IdEx.expanded]
  | li rd imm =>
    rw [decompress_q1 rfl, decompressQ1_li]
    constructor <;> simp [IdEx.kinds, IdEx.expanded, aluImmType]
  | addi16sp imm himm =>
    rw [decompress_q1 rfl, decompressQ1_addi16sp]
    constructor <;> simp [IdEx.kinds, IdEx.expanded, aluImmType]
  | lui rd imm hrd himm =>
    rw [decompress_q1 rfl, decompressQ1_lui]
    constructor <;> simp [IdEx.kinds, IdEx.expanded]
  | srli rd shamt =>
    rw [decompress_q1 rfl, decompressQ1_miscAlu rfl, decompressMiscAlu_srli]
    constructor <;> simp [IdEx.kinds, IdEx.expanded, shiftType]
  | srai rd shamt =>
    rw [decompress_q1 rfl, decompressQ1_miscAlu rfl, decompressMiscAlu_srai]
    constructor <;> simp [IdEx.kinds, IdEx.expanded, shiftType]
  | andi rd imm =>
    rw [decompress_q1 rfl, decompressQ1_miscAlu rfl, decompressMiscAlu_andi]
    constructor <;> simp [IdEx.kinds, IdEx.expanded, aluImmType]
  | arith op rd rs2 =>
    rw [decompress_q1 rfl, decompressQ1_miscAlu rfl, decompressMiscAlu_arith]
    constructor <;> simp [IdEx.kinds, IdEx.expanded]
  | j offset =>
    rw [decompress_q1 rfl, decompressQ1_j]
    constructor <;> simp [IdEx.kinds, IdEx.expanded]
  | beqz rs1 offset =>
    rw [decompress_q1 rfl, decompressQ1_beqz]
    constructor <;> simp [IdEx.kinds, IdEx.expanded, branchType]
  | bnez rs1 offset =>
    rw [decompress_q1 rfl, decompressQ1_bnez]
    constructor <;> simp [IdEx.kinds, IdEx.expanded, branchType]
  | slli rd shamt =>
    rw [decompress_q2 rfl, decompressQ2_slli]
    constructor <;> simp [IdEx.kinds, IdEx.expanded, shiftType]
  | lwsp rd imm hrd =>
    rw [decompress_q2 rfl, decompressQ2_lwsp]
    constructor <;> simp [IdEx.kinds, IdEx.expanded, loadType, Rv32.Load.size]
  | jr rs1 hrs1 =>
    rw [decompress_q2 rfl, decompressQ2_jr]
    constructor <;> simp [IdEx.kinds, IdEx.expanded]
  | mv rd rs2 hrs2 =>
    rw [decompress_q2 rfl, decompressQ2_mv]
    constructor <;> simp [IdEx.kinds, IdEx.expanded, aluType]
  | ebreak =>
    rw [decompress_q2 rfl, decompressQ2_ebreak]
    constructor <;> simp [IdEx.kinds, IdEx.expanded, systemType]
  | jalr rs1 hrs1 =>
    rw [decompress_q2 rfl, decompressQ2_jalr]
    constructor <;> simp [IdEx.kinds, IdEx.expanded]
  | add rd rs2 hrs2 =>
    rw [decompress_q2 rfl, decompressQ2_add]
    constructor <;> simp [IdEx.kinds, IdEx.expanded, aluType]
  | swsp rs2 imm =>
    rw [decompress_q2 rfl, decompressQ2_swsp]
    constructor <;> simp [IdEx.kinds, IdEx.expanded, storeType, Rv32.Store.size]

end

end Turtle
