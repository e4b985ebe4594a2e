import Turtle.DecodeFacts
import Turtle.Lib.Clocked

/-!
# The `ID_EX` signal

A signal of SystemC drops a write of a value that its `operator==` finds equal to the one it
holds. The operator of `ID_EX` leaves out `is_compressed` and `ctype`, which follow from the
word of every record that the decoder writes.
-/

namespace Turtle

/-- `ID_EX::operator==`. -/
def IdEx.opEq (d e : IdEx) : Bool :=
  d.type == e.type && d.inst == e.inst &&
  d.rd == e.rd && d.writesRd == e.writesRd &&
  d.rs1 == e.rs1 && d.rs2 == e.rs2 && d.rs1Val == e.rs1Val && d.rs2Val == e.rs2Val &&
  d.imm == e.imm && d.pc == e.pc &&
  d.csrVal == e.csrVal && d.isCsr == e.isCsr && d.csrAddr == e.csrAddr &&
  d.isBranch == e.isBranch && d.isJump == e.isJump && d.isLoad == e.isLoad &&
  d.isStore == e.isStore && d.isMuldiv == e.isMuldiv && d.isSystem == e.isSystem &&
  d.isAtomic == e.isAtomic && d.amoType == e.amoType && d.memSize == e.memSize &&
  d.flush == e.flush && d.getNextInst == e.getNextInst &&
  d.cause == e.cause && d.tval == e.tval && d.onTrap == e.onTrap

/-- The values that `inst_decode_seq` writes to `id_ex_port`. -/
inductive Written : IdEx → Prop
  | bubble : Written bubble
  | latch (f : Forward) (i : IfId) : Written (latch f i)

/-- What `inst_decode_seq` reads at a clock edge. -/
structure DecodeIn where
  rst : Bool
  stall : Bool
  flush : Bool
  npc : BitVec 32
  forward : Forward
  ifId : IfId

/-- `inst_decode_seq` at a clock edge. -/
def decodeEdge (d : IdEx) (i : DecodeIn) : IdEx :=
  instDecodeSeq i.rst i.stall i.flush i.npc i.forward i.ifId d

variable {d e : IdEx} {inst : BitVec 32}

/-! ### What the operator leaves out -/

theorem IdEx.opEq_fields (h : d.opEq e = true) :
    d.type = e.type ∧ d.inst = e.inst ∧ d.flush = e.flush := by
  simp only [opEq, Bool.and_eq_true, beq_iff_eq] at h
  simp only [h, and_self]

/-- Records that the operator finds equal are equal when the fields that it leaves out are. -/
theorem IdEx.eq_of_opEq (h : d.opEq e = true) (hcomp : d.isCompressed = e.isCompressed)
    (hctype : d.ctype = e.ctype) : d = e := by
  cases d
  cases e
  simp only [opEq, Bool.and_eq_true, beq_iff_eq] at h hcomp hctype
  simp only [h, hcomp, hctype]

/-! ### The compressed kind -/

theorem decompressQ0_ctype (h : d.ctype = e.ctype) :
    (decompressQ0 d inst).ctype = (decompressQ0 e inst).ctype := by
  unfold decompressQ0
  split
  · dsimp only
    split_ifs <;> rfl
  · rfl
  · rfl
  · exact h

theorem decompressMiscAlu_ctype (h : d.ctype = e.ctype) :
    (decompressMiscAlu d inst).ctype = (decompressMiscAlu e inst).ctype := by
  unfold decompressMiscAlu decompressCA
  dsimp only
  split <;> first
    | rfl
    | exact h
    | (split <;> first | rfl | exact h | (split <;> first | rfl | exact h))

theorem decompressQ1_ctype (h : d.ctype = e.ctype) :
    (decompressQ1 d inst).ctype = (decompressQ1 e inst).ctype := by
  unfold decompressQ1
  dsimp only
  split <;> first
    | rfl
    | exact h
    | exact decompressMiscAlu_ctype h
    | (split_ifs <;> rfl)

theorem decompressQ2_ctype (h : d.ctype = e.ctype) :
    (decompressQ2 d inst).ctype = (decompressQ2 e inst).ctype := by
  unfold decompressQ2 decompressJr
  dsimp only
  split <;> first
    | rfl
    | exact h
    | (split_ifs <;> rfl)

/-- The compressed kind is a matter of the word. -/
theorem decompress_ctype (f g : Forward) (pc pc' inst : BitVec 32) :
    (decompress f pc inst).ctype = (decompress g pc' inst).ctype := by
  unfold decompress
  dsimp only
  split
  · exact decompressQ0_ctype rfl
  · exact decompressQ1_ctype rfl
  · exact decompressQ2_ctype rfl
  · rfl

/-- The marks that `latch` makes leave the kind and the word of a record alone. -/
theorem latch_marks (f : Forward) (i : IfId) {r : IdEx}
    (hr : (if i.ifIdInst &&& 3 = 3 then decode f i.ifIdPc i.ifIdInst
      else decompress f i.ifIdPc (i.ifIdInst &&& 0x0000ffff)) = r) :
    (latch f i).type = r.type ∧ (latch f i).inst = r.inst ∧
      (latch f i).isCompressed = r.isCompressed ∧ (latch f i).ctype = r.ctype := by
  unfold latch
  dsimp only
  rw [hr]
  split_ifs <;> exact ⟨rfl, rfl, rfl, rfl⟩

/-- The length and the compressed kind of a latched record follow from its word. -/
theorem latch_word (f : Forward) (i : IfId) :
    (latch f i).isCompressed = decide ((latch f i).inst &&& 3 ≠ 3) ∧
      (latch f i).ctype = if (latch f i).inst &&& 3 = 3 then .cNop
        else (decompress {} 0 (latch f i).inst).ctype := by
  by_cases hlen : i.ifIdInst &&& 3 = 3
  · obtain ⟨-, hinst, hcomp, hctype⟩ := latch_marks f i (if_pos hlen)
    obtain ⟨hinst', hcomp', hctype'⟩ := decode_word f i.ifIdPc i.ifIdInst
    rw [hinst, hcomp, hctype, hinst', hcomp', hctype', if_pos hlen]
    exact ⟨(decide_eq_false (not_not.mpr hlen)).symm, rfl⟩
  · obtain ⟨-, hinst, hcomp, hctype⟩ := latch_marks f i (if_neg hlen)
    obtain ⟨hinst', hcomp'⟩ := decompress_word f i.ifIdPc (i.ifIdInst &&& 0x0000ffff)
    have hlow : i.ifIdInst &&& 0x0000ffff &&& 3 = i.ifIdInst &&& 3 := by
      rw [BitVec.and_assoc]
      rfl
    have hlen' : ¬ i.ifIdInst &&& 0x0000ffff &&& 3 = 3 := by rwa [hlow]
    rw [hinst, hcomp, hctype, hinst', hcomp']
    exact ⟨(decide_eq_true hlen').symm, (decompress_ctype ..).trans (if_neg hlen').symm⟩

/-! ### Written values -/

/-- The operator is exact on written values. -/
theorem Written.eq_of_opEq (hd : Written d) (he : Written e) (h : d.opEq e = true) : d = e := by
  obtain ⟨-, hinst, hflush⟩ := IdEx.opEq_fields h
  cases hd with
  | bubble =>
    cases he with
    | bubble => rfl
    | latch g j => cases hflush
  | latch f i =>
    cases he with
    | bubble => cases hflush
    | latch g j =>
      obtain ⟨hcomp, hctype⟩ := latch_word f i
      obtain ⟨hcomp', hctype'⟩ := latch_word g j
      rw [hinst] at hcomp hctype
      exact IdEx.eq_of_opEq h (hcomp.trans hcomp'.symm) (hctype.trans hctype'.symm)

/-- The word 0 is a marked instruction. -/
theorem latch_ne_initial (f : Forward) (i : IfId) : ({} : IdEx).opEq (latch f i) = false := by
  by_contra h
  obtain ⟨htype, hinst, -⟩ := IdEx.opEq_fields (Bool.eq_true_of_not_eq_false h)
  replace hinst : (latch f i).inst = 0 := hinst.symm
  replace htype : (latch f i).type = .nop := htype.symm
  by_cases hlen : i.ifIdInst &&& 3 = 3
  · obtain ⟨-, hinst', -⟩ := latch_marks f i (if_pos hlen)
    rw [hinst', (decode_word f _ _).1] at hinst
    rw [hinst] at hlen
    cases hlen
  · obtain ⟨htype', hinst', -⟩ := latch_marks f i (if_neg hlen)
    rw [hinst', (decompress_word f _ _).1] at hinst
    dsimp only at hinst
    rw [htype', hinst] at htype
    have haddi : (decompress f i.ifIdPc 0).type = .addi := rfl
    rw [haddi] at htype
    cases htype

/-- A signal holds the initial value or one that was written. -/
def Held (d : IdEx) : Prop := d = {} ∨ Written d

theorem decodeEdge_cases (d : IdEx) (i : DecodeIn) :
    decodeEdge d i = d ∨ Written (decodeEdge d i) := by
  unfold decodeEdge
  obtain ⟨-, h⟩ | ⟨-, -, -, -, h⟩ | ⟨-, h⟩ :=
    instDecodeSeq_cases i.rst i.stall i.flush i.npc i.forward i.ifId d
  · exact .inl h
  · exact .inr (h ▸ .latch _ _)
  · exact .inr (h ▸ .bubble)

theorem Held.decodeEdge (h : Held d) (i : DecodeIn) : Held (decodeEdge d i) := by
  rcases decodeEdge_cases d i with hkeep | hwritten
  · rwa [hkeep]
  · exact .inr hwritten

/-- A write that the operator drops would have changed nothing. -/
theorem Held.eq_of_opEq (h : Held d) (i : DecodeIn)
    (heq : d.opEq (Turtle.decodeEdge d i) = true) : Turtle.decodeEdge d i = d := by
  rcases decodeEdge_cases d i with hkeep | hwritten
  · exact hkeep
  · rcases h with rfl | h
    · generalize Turtle.decodeEdge {} i = e at hwritten heq
      cases hwritten with
      | bubble => cases heq
      | latch f j =>
        rw [latch_ne_initial] at heq
        cases heq
    · exact (h.eq_of_opEq hwritten heq).symm

/-- The `ID_EX` signal never drops an update: written values that the operator finds equal are
equal, and over any run the signal that drops writes holds what one without the operator
would hold. -/
theorem idEx_signal_exact :
    (∀ d e : IdEx, Written d → Written e → d.opEq e = true → d = e) ∧
    ∀ is : List DecodeIn, Clocked.run (Clocked.suppress IdEx.opEq decodeEdge) {} is =
      Clocked.run decodeEdge {} is := by
  refine ⟨fun _ _ hd he => hd.eq_of_opEq he, fun is => ?_⟩
  exact Clocked.suppress_run (P := Held) (fun _ i h => h.decodeEdge i)
    (fun _ i h => h.eq_of_opEq i) (.inl rfl) is

-- `C.JAL` and `JAL` to the same target differ in the word.
example (f g : Forward) : (decompress f 0 0x2001).opEq (decode g 0 0x000000ef) = false := rfl

end Turtle
