import Turtle.Decode
import Turtle.Lib.Bits

/-!
# What the decoders can produce

Each arm of the decoders sets the type and the fields that go with it and leaves
the rest of the record alone. `Decoded` collects what later proofs need of a
record without knowing which arm made it.
-/

namespace Turtle

open Bits

/-- A bit field as a number. -/
theorem getBits_toNat (inst : BitVec 32) (hi lo : ℕ) (h : hi - lo < 31) :
    (getBits inst hi lo).toNat = inst.toNat / 2 ^ lo % 2 ^ (hi - lo + 1) := by
  have hlt : 2 ^ (hi - lo + 1) < 2 ^ 32 := Nat.pow_lt_pow_right (by omega) (by omega)
  have hpos : 0 < 2 ^ (hi - lo + 1) := Nat.two_pow_pos _
  have hone : (1#32 <<< (hi - lo + 1)).toNat = 2 ^ (hi - lo + 1) := by
    rw [BitVec.toNat_shiftLeft, BitVec.toNat_ofNat, Nat.shiftLeft_eq]
    simp only [Nat.one_mod_eq_one.mpr (show 2 ^ 32 ≠ 1 by decide), one_mul]
    exact Nat.mod_eq_of_lt hlt
  have hmask : ((1#32 <<< (hi - lo + 1)) - 1).toNat = 2 ^ (hi - lo + 1) - 1 := by
    rw [BitVec.toNat_sub_of_le (by rw [BitVec.le_def, hone]; exact hpos), hone]
    rfl
  unfold getBits
  rw [BitVec.toNat_and, hmask, Nat.and_two_pow_sub_one_eq_mod, BitVec.toNat_ushiftRight,
    Nat.shiftRight_eq_div_pow]

/-- The groups of instruction types that the execute stage treats differently:
jumps and branches relative to the pc, memory accesses by kind, the privileged
instructions, and the CSR instructions together with the invalid encodings. -/
inductive InstrGroup
  | relative | load | store | atomic | system | csr | plain
  deriving DecidableEq

/-- The group of an instruction type. -/
def InstrType.group : InstrType → InstrGroup
  | .jal | .beq | .bne | .blt | .bge | .bltu | .bgeu => .relative
  | .lb | .lh | .lw | .lbu | .lhu => .load
  | .sb | .sh | .sw => .store
  | .lrW | .scW | .amoswapW | .amoaddW | .amoxorW | .amoandW | .amoorW
  | .amominW | .amomaxW | .amominuW | .amomaxuW => .atomic
  | .sfenceVma | .ecall | .ebreak | .wfi | .sret | .mret => .system
  | .csrrw | .csrrs | .csrrc | .csrrwi | .csrrsi | .csrrci | .invalid => .csr
  | _ => .plain

/-- The three request kinds of a record: load, store, atomic. -/
def IdEx.kinds (d : IdEx) : Bool × Bool × Bool := (d.isLoad, d.isStore, d.isAtomic)

/-- What holds of every record the decoders make: relative offsets are even, a CSR
address from `0x400` on comes with a CSR instruction or an invalid one, and a
memory instruction sets exactly one of the request kinds. -/
structure Decoded (d : IdEx) : Prop where
  even_offset : d.type.group = .relative → EvenWord d.imm
  csr_kind : 0x400 ≤ d.csrAddr → d.type.group = .csr
  load_kind : d.type.group = .load → d.kinds = (true, false, false)
  store_kind : d.type.group = .store → d.kinds = (false, true, false)
  atomic_kind : d.type.group = .atomic → d.kinds = (false, false, true)

theorem even_signExtend {v : BitVec 32} {n : ℕ} (hv : EvenWord v) (hn : 2 ≤ n) :
    EvenWord (signExtend v n) :=
  have hmask : EvenWord (1#32 <<< (n - 1)) := even_shiftLeft (by omega)
  (hv.xor hmask).sub hmask

theorem even_immB (inst : BitVec 32) : EvenWord (immB inst) :=
  even_signExtend ((((even_shiftLeft (by omega)).or (even_shiftLeft (by omega))).or
    (even_shiftLeft (by omega))).or (even_shiftLeft (by omega))) (by omega)

theorem even_immJ (inst : BitVec 32) : EvenWord (immJ inst) :=
  even_signExtend ((((even_shiftLeft (by omega)).or (even_shiftLeft (by omega))).or
    (even_shiftLeft (by omega))).or (even_shiftLeft (by omega))) (by omega)

theorem even_cImmJ (inst : BitVec 32) : EvenWord (cImmJ inst) :=
  even_signExtend ((((((((even_shiftLeft (by omega)).or (even_shiftLeft (by omega))).or
    (even_shiftLeft (by omega))).or (even_shiftLeft (by omega))).or
    (even_shiftLeft (by omega))).or (even_shiftLeft (by omega))).or
    (even_shiftLeft (by omega))).or (even_shiftLeft (by omega))) (by omega)

theorem even_cImmB (inst : BitVec 32) : EvenWord (cImmB inst) :=
  even_signExtend (((((even_shiftLeft (by omega)).or (even_shiftLeft (by omega))).or
    (even_shiftLeft (by omega))).or (even_shiftLeft (by omega))).or
    (even_shiftLeft (by omega))) (by omega)

namespace Decoded

variable {d : IdEx}

theorem of_plain (haddr : d.csrAddr = 0) (htype : d.type.group = .plain) : Decoded d :=
  ⟨by simp [htype], by simp [haddr], by simp [htype], by simp [htype], by simp [htype]⟩

theorem of_csr (htype : d.type.group = .csr) : Decoded d :=
  ⟨by simp [htype], fun _ => htype, by simp [htype], by simp [htype], by simp [htype]⟩

theorem of_system (haddr : d.csrAddr < 0x400) (htype : d.type.group = .system) : Decoded d :=
  ⟨by simp [htype], fun h => absurd haddr (BitVec.not_lt.mpr h), by simp [htype], by simp [htype],
    by simp [htype]⟩

theorem of_relative (haddr : d.csrAddr = 0) (htype : d.type.group = .relative)
    (himm : EvenWord d.imm) : Decoded d :=
  ⟨fun _ => himm, by simp [haddr], by simp [htype], by simp [htype], by simp [htype]⟩

theorem of_load (haddr : d.csrAddr = 0) (htype : d.type.group = .load)
    (hkind : d.kinds = (true, false, false)) : Decoded d :=
  ⟨by simp [htype], by simp [haddr], fun _ => hkind, by simp [htype], by simp [htype]⟩

theorem of_store (haddr : d.csrAddr = 0) (htype : d.type.group = .store)
    (hkind : d.kinds = (false, true, false)) : Decoded d :=
  ⟨by simp [htype], by simp [haddr], by simp [htype], fun _ => hkind, by simp [htype]⟩

theorem of_atomic (haddr : d.csrAddr = 0) (htype : d.type.group = .atomic)
    (hkind : d.kinds = (false, false, true)) : Decoded d :=
  ⟨by simp [htype], by simp [haddr], by simp [htype], by simp [htype], fun _ => hkind⟩

end Decoded

/-- A record on which no arm has worked yet. -/
structure Fresh (d : IdEx) : Prop where
  type_eq : d.type = .nop
  csrAddr_eq : d.csrAddr = 0
  kinds_eq : d.kinds = (false, false, false)

section

variable {d : IdEx} (hd : Fresh d) (inst : BitVec 32)

include hd

theorem Fresh.group_eq : d.type.group = .plain := by
  rw [hd.type_eq]
  rfl

theorem Fresh.isLoad_eq : d.isLoad = false := congrArg Prod.fst hd.kinds_eq

theorem Fresh.isStore_eq : d.isStore = false := congrArg (fun k => k.2.1) hd.kinds_eq

theorem Fresh.isAtomic_eq : d.isAtomic = false := congrArg (fun k => k.2.2) hd.kinds_eq

theorem decodeOpImm_decoded : Decoded (decodeOpImm d inst) := by
  unfold decodeOpImm
  dsimp only
  split
  case h_7 =>
    split
    · exact .of_csr rfl
    · exact .of_plain hd.csrAddr_eq rfl
  case h_8 => split <;> exact .of_plain hd.csrAddr_eq rfl
  case h_9 => exact .of_plain hd.csrAddr_eq hd.group_eq
  all_goals exact .of_plain hd.csrAddr_eq rfl

theorem decodeOp_decoded : Decoded (decodeOp d inst) := by
  unfold decodeOp
  dsimp only
  split
  case h_19 => exact .of_plain hd.csrAddr_eq hd.group_eq
  all_goals exact .of_plain hd.csrAddr_eq rfl

theorem decodeLoad_decoded : Decoded (decodeLoad d inst) := by
  have hkind : (true, d.isStore, d.isAtomic) = (true, false, false) := by
    rw [hd.isStore_eq, hd.isAtomic_eq]
  unfold decodeLoad
  dsimp only
  split
  case h_6 => exact .of_plain hd.csrAddr_eq hd.group_eq
  all_goals exact .of_load hd.csrAddr_eq rfl hkind

theorem decodeStore_decoded : Decoded (decodeStore d inst) := by
  have hkind : (d.isLoad, true, d.isAtomic) = (false, true, false) := by
    rw [hd.isLoad_eq, hd.isAtomic_eq]
  unfold decodeStore
  dsimp only
  split
  case h_4 => exact .of_plain hd.csrAddr_eq hd.group_eq
  all_goals exact .of_store hd.csrAddr_eq rfl hkind

theorem decodeBranch_decoded : Decoded (decodeBranch d inst) := by
  unfold decodeBranch
  dsimp only
  split
  case h_7 => exact .of_plain hd.csrAddr_eq hd.group_eq
  all_goals exact .of_relative hd.csrAddr_eq rfl (even_immB inst)

omit hd in
/-- The privileged encodings: their CSR address field lies below `0x400`. -/
theorem decodePrivType_group :
    (decodePrivType inst).group = .csr ∨
      ((decodePrivType inst).group = .system ∧ (getBits inst 31 20).setWidth 12 < 0x400#12) := by
  unfold decodePrivType
  split_ifs with hsfence
  · refine .inr ⟨rfl, ?_⟩
    have hhigh := congrArg BitVec.toNat hsfence
    have hbound := inst.isLt
    rw [getBits_toNat _ _ _ (by omega)] at hhigh
    rw [BitVec.lt_def, BitVec.toNat_setWidth, getBits_toNat _ _ _ (by omega)]
    simp at hhigh ⊢
    omega
  · split
    case h_6 => exact .inl rfl
    all_goals
      rename_i h
      rw [h]
      exact .inr ⟨rfl, by decide⟩

omit hd in
theorem decodeSystem_decoded : Decoded (decodeSystem d inst) := by
  unfold decodeSystem
  dsimp only
  split
  case h_1 =>
    rcases decodePrivType_group inst with h | ⟨h, haddr⟩
    · exact .of_csr h
    · exact .of_system haddr h
  all_goals exact .of_csr rfl

theorem decodeFence_decoded : Decoded (decodeFence d inst) := by
  unfold decodeFence
  dsimp only
  split
  case h_3 => exact .of_csr rfl
  all_goals exact .of_plain hd.csrAddr_eq rfl

theorem decodeAtomic_decoded : Decoded (decodeAtomic d inst) := by
  have hkind : (d.isLoad, d.isStore, true) = (false, false, true) := by
    rw [hd.isLoad_eq, hd.isStore_eq]
  unfold decodeAtomic
  dsimp only
  split
  · exact .of_csr rfl
  · split
    case h_12 => exact .of_csr rfl
    all_goals exact .of_atomic hd.csrAddr_eq rfl hkind

end

/-- Every record made by `decode` satisfies `Decoded`. -/
theorem decode_decoded (f : Forward) (pc inst : BitVec 32) : Decoded (decode f pc inst) := by
  unfold decode
  dsimp only
  split
  case h_1 => exact .of_plain rfl rfl
  case h_2 => exact .of_plain rfl rfl
  case h_3 => exact decodeOpImm_decoded ⟨rfl, rfl, rfl⟩ inst
  case h_4 => exact decodeOp_decoded ⟨rfl, rfl, rfl⟩ inst
  case h_5 => exact decodeLoad_decoded ⟨rfl, rfl, rfl⟩ inst
  case h_6 => exact decodeStore_decoded ⟨rfl, rfl, rfl⟩ inst
  case h_7 => exact .of_relative rfl rfl (even_immJ inst)
  case h_8 => exact .of_plain rfl rfl
  case h_9 => exact decodeBranch_decoded ⟨rfl, rfl, rfl⟩ inst
  case h_10 => exact decodeSystem_decoded inst
  case h_11 => exact decodeFence_decoded ⟨rfl, rfl, rfl⟩ inst
  case h_12 => exact decodeAtomic_decoded ⟨rfl, rfl, rfl⟩ inst
  case h_13 => exact .of_csr rfl

section

variable {d : IdEx} (hd : Fresh d) (inst : BitVec 32)

include hd

theorem decompressQ0_decoded : Decoded (decompressQ0 d inst) := by
  unfold decompressQ0
  dsimp only
  split
  case h_1 => split <;> exact .of_plain hd.csrAddr_eq rfl
  case h_2 =>
    exact .of_load hd.csrAddr_eq rfl (by simp [IdEx.kinds, hd.isStore_eq, hd.isAtomic_eq])
  case h_3 =>
    exact .of_store hd.csrAddr_eq rfl (by simp [IdEx.kinds, hd.isLoad_eq, hd.isAtomic_eq])
  case h_4 => exact .of_csr rfl

theorem decompressMiscAlu_decoded : Decoded (decompressMiscAlu d inst) := by
  unfold decompressMiscAlu
  dsimp only
  split
  case h_3 => exact .of_plain hd.csrAddr_eq rfl
  case h_4 =>
    split
    · split
      case h_5 => exact .of_csr rfl
      all_goals exact .of_plain hd.csrAddr_eq rfl
    · exact .of_csr rfl
  case h_5 => exact .of_csr rfl
  all_goals
    split <;> exact .of_plain hd.csrAddr_eq rfl

theorem decompressQ1_decoded : Decoded (decompressQ1 d inst) := by
  unfold decompressQ1
  dsimp only
  split
  case h_1 => split <;> exact .of_plain hd.csrAddr_eq rfl
  case h_2 => exact .of_relative hd.csrAddr_eq rfl (even_cImmJ inst)
  case h_3 => exact .of_plain hd.csrAddr_eq rfl
  case h_4 => split_ifs <;> exact .of_plain hd.csrAddr_eq rfl
  case h_5 => exact decompressMiscAlu_decoded hd inst
  case h_6 => exact .of_relative hd.csrAddr_eq rfl (even_cImmJ inst)
  case h_7 => exact .of_relative hd.csrAddr_eq rfl (even_cImmB inst)
  case h_8 => exact .of_relative hd.csrAddr_eq rfl (even_cImmB inst)
  case h_9 => exact .of_plain hd.csrAddr_eq hd.group_eq

theorem decompressJr_decoded (ctype : InstrType) (rd : BitVec 5) (writesRd : Bool) :
    Decoded (decompressJr d inst ctype rd writesRd) := by
  unfold decompressJr
  dsimp only
  split <;> exact .of_plain hd.csrAddr_eq rfl

theorem decompressQ2_decoded : Decoded (decompressQ2 d inst) := by
  unfold decompressQ2
  dsimp only
  split
  case h_1 => split <;> exact .of_plain hd.csrAddr_eq rfl
  case h_3 =>
    split <;>
      exact .of_load hd.csrAddr_eq rfl (by simp [IdEx.kinds, IdEx.illegal, hd.isStore_eq, hd.isAtomic_eq])
  case h_5 =>
    split_ifs
    · exact decompressJr_decoded hd inst _ _ _
    · exact .of_plain hd.csrAddr_eq rfl
    · exact .of_system (by simp [hd.csrAddr_eq]) rfl
    · exact decompressJr_decoded hd inst _ _ _
    · exact .of_plain hd.csrAddr_eq rfl
  case h_7 =>
    exact .of_store hd.csrAddr_eq rfl (by simp [IdEx.kinds, hd.isLoad_eq, hd.isAtomic_eq])
  case h_9 => exact .of_plain hd.csrAddr_eq hd.group_eq
  all_goals exact .of_csr rfl

end

/-- Every record made by `decompress` satisfies `Decoded`. -/
theorem decompress_decoded (f : Forward) (pc inst : BitVec 32) :
    Decoded (decompress f pc inst) := by
  unfold decompress
  dsimp only
  split
  case h_1 =>
    have h := decompressQ0_decoded (d := { inst := inst, isCompressed := true, pc := pc })
      ⟨rfl, rfl, rfl⟩ inst
    exact ⟨h.even_offset, h.csr_kind, h.load_kind, h.store_kind, h.atomic_kind⟩
  case h_2 =>
    have h := decompressQ1_decoded (d := { inst := inst, isCompressed := true, pc := pc })
      ⟨rfl, rfl, rfl⟩ inst
    exact ⟨h.even_offset, h.csr_kind, h.load_kind, h.store_kind, h.atomic_kind⟩
  case h_3 =>
    have h := decompressQ2_decoded (d := { inst := inst, isCompressed := true, pc := pc })
      ⟨rfl, rfl, rfl⟩ inst
    exact ⟨h.even_offset, h.csr_kind, h.load_kind, h.store_kind, h.atomic_kind⟩
  case h_4 => exact .of_csr rfl

/-- The part of a record that no arm of `decode` touches. -/
def IdEx.untouched (d : IdEx) : IdEx :=
  { inst := d.inst, rd := d.rd, rs1 := d.rs1, rs2 := d.rs2, rs1Val := d.rs1Val,
    rs2Val := d.rs2Val, pc := d.pc, isCompressed := d.isCompressed, ctype := d.ctype,
    flush := d.flush, onTrap := d.onTrap }

section

variable (d : IdEx) (inst : BitVec 32)

theorem decodeOpImm_untouched : (decodeOpImm d inst).untouched = d.untouched := by
  unfold decodeOpImm
  dsimp only
  split
  case h_7 => split <;> rfl
  case h_8 => split <;> rfl
  all_goals rfl

theorem decodeOp_untouched : (decodeOp d inst).untouched = d.untouched := by
  unfold decodeOp
  dsimp only
  split <;> rfl

theorem decodeLoad_untouched : (decodeLoad d inst).untouched = d.untouched := by
  unfold decodeLoad
  dsimp only
  split <;> rfl

theorem decodeStore_untouched : (decodeStore d inst).untouched = d.untouched := by
  unfold decodeStore
  dsimp only
  split <;> rfl

theorem decodeBranch_untouched : (decodeBranch d inst).untouched = d.untouched := by
  unfold decodeBranch
  dsimp only
  split <;> rfl

theorem decodeSystem_untouched : (decodeSystem d inst).untouched = d.untouched := by
  unfold decodeSystem
  dsimp only
  split <;> rfl

theorem decodeFence_untouched : (decodeFence d inst).untouched = d.untouched := by
  unfold decodeFence
  dsimp only
  split <;> rfl

theorem decodeAtomic_untouched : (decodeAtomic d inst).untouched = d.untouched := by
  unfold decodeAtomic
  dsimp only
  split
  · rfl
  · split <;> rfl

end

/-- What `decode` keeps of the record that it starts from. -/
theorem decode_untouched (f : Forward) (pc inst : BitVec 32) :
    (decode f pc inst).untouched =
      { inst := inst, rd := regField inst 11 7, rs1 := regField inst 19 15,
        rs2 := regField inst 24 20, rs1Val := f.operand (regField inst 19 15),
        rs2Val := f.operand (regField inst 24 20), pc := pc } := by
  unfold decode
  dsimp only
  split
  case h_3 => exact decodeOpImm_untouched _ inst
  case h_4 => exact decodeOp_untouched _ inst
  case h_5 => exact decodeLoad_untouched _ inst
  case h_6 => exact decodeStore_untouched _ inst
  case h_9 => exact decodeBranch_untouched _ inst
  case h_10 => exact decodeSystem_untouched _ inst
  case h_11 => exact decodeFence_untouched _ inst
  case h_12 => exact decodeAtomic_untouched _ inst
  all_goals rfl

theorem decode_pc (f : Forward) (pc inst : BitVec 32) : (decode f pc inst).pc = pc :=
  congrArg IdEx.pc (decode_untouched f pc inst)

theorem decode_onTrap (f : Forward) (pc inst : BitVec 32) : (decode f pc inst).onTrap = false :=
  congrArg IdEx.onTrap (decode_untouched f pc inst)

/-- The record keeps the pc of `d` and is unmarked, or marked as illegal. -/
def Marked (d r : IdEx) : Prop :=
  r.pc = d.pc ∧ (r.onTrap = d.onTrap ∨ r.cause = ExceptionCause.illegalInstr.code)

theorem decompressMiscAlu_marked (d : IdEx) (inst : BitVec 32) :
    Marked d (decompressMiscAlu d inst) := by
  unfold decompressMiscAlu decompressCA
  dsimp only
  split <;> first
    | exact ⟨rfl, .inl rfl⟩
    | exact ⟨rfl, .inr rfl⟩
    | (split <;> first
      | exact ⟨rfl, .inl rfl⟩
      | exact ⟨rfl, .inr rfl⟩
      | (split <;> first | exact ⟨rfl, .inl rfl⟩ | exact ⟨rfl, .inr rfl⟩))

theorem decompress_marked (f : Forward) (pc inst : BitVec 32) :
    Marked { inst := inst, isCompressed := true, pc := pc } (decompress f pc inst) := by
  unfold decompress decompressQ0 decompressQ1 decompressQ2 decompressJr
  dsimp only
  split <;> first
    | exact ⟨rfl, .inl rfl⟩
    | (split <;> first
      | exact ⟨rfl, .inl rfl⟩
      | exact ⟨rfl, .inr rfl⟩
      | exact decompressMiscAlu_marked { inst := inst, isCompressed := true, pc := pc } inst
      | (split_ifs <;> first | exact ⟨rfl, .inl rfl⟩ | exact ⟨rfl, .inr rfl⟩))

theorem decode_word (f : Forward) (pc inst : BitVec 32) :
    (decode f pc inst).inst = inst ∧ (decode f pc inst).isCompressed = false ∧
      (decode f pc inst).ctype = .cNop :=
  have h := decode_untouched f pc inst
  ⟨congrArg IdEx.inst h, congrArg IdEx.isCompressed h, congrArg IdEx.ctype h⟩

/-- The record keeps the word of `d` and its length. -/
def SameWord (d r : IdEx) : Prop := r.inst = d.inst ∧ r.isCompressed = d.isCompressed

theorem decompressMiscAlu_word (d : IdEx) (inst : BitVec 32) :
    SameWord d (decompressMiscAlu d inst) := by
  unfold decompressMiscAlu decompressCA
  dsimp only
  split <;> first
    | exact ⟨rfl, rfl⟩
    | (split <;> first | exact ⟨rfl, rfl⟩ | (split <;> exact ⟨rfl, rfl⟩))

theorem decompress_word (f : Forward) (pc inst : BitVec 32) :
    SameWord { inst := inst, isCompressed := true, pc := pc } (decompress f pc inst) := by
  unfold decompress decompressQ0 decompressQ1 decompressQ2 decompressJr
  dsimp only
  split <;> first
    | exact ⟨rfl, rfl⟩
    | (split <;> first
      | exact ⟨rfl, rfl⟩
      | exact decompressMiscAlu_word { inst := inst, isCompressed := true, pc := pc } inst
      | (split_ifs <;> exact ⟨rfl, rfl⟩))

/-- What holds of every record that waits in the `ID_EX` register: it is decoded,
and a marked trap is an illegal instruction or a fetch fault. -/
structure Latched (d : IdEx) : Prop extends Decoded d where
  trap_cause : d.onTrap = true → d.cause = ExceptionCause.illegalInstr.code ∨
    d.cause = ExceptionCause.instrAccessFault.code ∨ d.cause = ExceptionCause.instrPageFault.code

theorem latched_bubble : Latched bubble := ⟨.of_plain rfl rfl, by simp [bubble]⟩

/-- The decoded record that `latch` starts from. -/
theorem decodeByLength_facts (f : Forward) (i : IfId) :
    ∃ d, (if i.ifIdInst &&& 3 = 3 then decode f i.ifIdPc i.ifIdInst
      else decompress f i.ifIdPc (i.ifIdInst &&& 0x0000ffff)) = d ∧ Decoded d ∧
      d.pc = i.ifIdPc ∧ (d.onTrap = true → d.cause = ExceptionCause.illegalInstr.code) := by
  refine ⟨_, rfl, ?_⟩
  split
  · exact ⟨decode_decoded _ _ _, decode_pc _ _ _, by simp [decode_onTrap]⟩
  · obtain ⟨hpc, hmark⟩ := decompress_marked f i.ifIdPc (i.ifIdInst &&& 0x0000ffff)
    refine ⟨decompress_decoded _ _ _, hpc, fun htrap => ?_⟩
    rcases hmark with h | h
    · rw [h] at htrap
      cases htrap
    · exact h

/-- Every latched instruction satisfies `Latched`, at the pc it was offered at. -/
theorem latch_latched (f : Forward) (i : IfId) :
    Latched (latch f i) ∧ (latch f i).pc = i.ifIdPc := by
  obtain ⟨d, hd, hdec, hpc, hcause⟩ := decodeByLength_facts f i
  unfold latch
  dsimp only
  rw [hd]
  obtain ⟨heven, hcsr, hload, hstore, hatomic⟩ := hdec
  split_ifs with hfault hinvalid
  · exact ⟨⟨⟨heven, hcsr, hload, hstore, hatomic⟩, fun _ => .inr hfault⟩, hpc⟩
  · exact ⟨⟨⟨heven, hcsr, hload, hstore, hatomic⟩, fun _ => .inl rfl⟩, hpc⟩
  · exact ⟨⟨⟨heven, hcsr, hload, hstore, hatomic⟩, fun h => .inl (hcause h)⟩, hpc⟩

/-! ### Sizes -/

/-- A memory instruction accesses one, two or four bytes. -/
def SizedAccess (d : IdEx) : Prop :=
  d.type.group ∈ [.load, .store, .atomic] → d.memSize = 1 ∨ d.memSize = 2 ∨ d.memSize = 4

namespace SizedAccess

variable {d : IdEx}

theorem of_other (g : InstrGroup) (hg : d.type.group = g) (h : g ∉ [.load, .store, .atomic]) :
    SizedAccess d := by
  intro hacc
  rw [hg] at hacc
  exact absurd hacc h

theorem of_plain (h : d.type.group = .plain) : SizedAccess d := .of_other .plain h (by decide)

theorem of_csr (h : d.type.group = .csr) : SizedAccess d := .of_other .csr h (by decide)

theorem of_system (h : d.type.group = .system) : SizedAccess d := .of_other .system h (by decide)

theorem of_relative (h : d.type.group = .relative) : SizedAccess d :=
  .of_other .relative h (by decide)

theorem of_word (h : d.memSize = 4) : SizedAccess d := fun _ => .inr (.inr h)

end SizedAccess

theorem decodeSystem_sized (d : IdEx) (inst : BitVec 32) : SizedAccess (decodeSystem d inst) := by
  unfold decodeSystem
  dsimp only
  split
  case h_1 =>
    rcases decodePrivType_group inst with h | ⟨h, -⟩
    · exact .of_csr h
    · exact .of_system h
  all_goals exact .of_csr rfl

theorem decode_sized (f : Forward) (pc inst : BitVec 32) : SizedAccess (decode f pc inst) := by
  unfold decode decodeOpImm decodeOp decodeLoad decodeStore decodeBranch decodeFence decodeAtomic
  dsimp only
  split <;> first
    | exact .of_plain rfl
    | exact .of_relative rfl
    | exact .of_csr rfl
    | exact decodeSystem_sized _ inst
    | (split <;> first
      | exact .of_plain rfl
      | exact .of_relative rfl
      | exact .of_csr rfl
      | exact fun _ => .inl rfl
      | exact fun _ => .inr (.inl rfl)
      | exact .of_word rfl
      | (split <;> first
        | exact .of_plain rfl
        | exact .of_csr rfl
        | exact .of_word rfl))

theorem decompressMiscAlu_sized (d : IdEx) (inst : BitVec 32) (h : d.type = .nop) :
    SizedAccess (decompressMiscAlu d inst) := by
  have hd : d.type.group = .plain := by rw [h]; rfl
  unfold decompressMiscAlu decompressCA
  dsimp only
  split <;> first
    | exact .of_plain rfl
    | exact .of_csr rfl
    | exact .of_plain hd
    | (split <;> first
      | exact .of_plain rfl
      | exact .of_csr rfl
      | exact .of_plain hd
      | (split <;> first
        | exact .of_plain rfl
        | exact .of_csr rfl))

theorem decompress_sized (f : Forward) (pc inst : BitVec 32) :
    SizedAccess (decompress f pc inst) := by
  unfold decompress decompressQ0 decompressQ1 decompressQ2 decompressJr
  dsimp only
  split <;> first
    | exact .of_csr rfl
    | (split <;> first
      | exact .of_plain rfl
      | exact .of_relative rfl
      | exact .of_csr rfl
      | exact .of_word rfl
      | exact decompressMiscAlu_sized _ inst rfl
      | (split_ifs <;> first
        | exact .of_plain rfl
        | exact .of_system rfl
        | exact .of_csr rfl
        | exact .of_word rfl))

theorem latch_sized (f : Forward) (i : IfId) : SizedAccess (latch f i) := by
  have hdecoded : SizedAccess (if i.ifIdInst &&& 3 = 3 then decode f i.ifIdPc i.ifIdInst
      else decompress f i.ifIdPc (i.ifIdInst &&& 0x0000ffff)) := by
    split
    · exact decode_sized _ _ _
    · exact decompress_sized _ _ _
  unfold latch
  dsimp only
  generalize (if i.ifIdInst &&& 3 = 3 then _ else _) = d at hdecoded
  split_ifs <;> exact hdecoded

theorem latch_flush (f : Forward) (i : IfId) : (latch f i).flush = false := rfl

/-- What the edge leaves in the `ID_EX` register: the old record in a stalled
cycle, else the instruction offered at the next pc, else a bubble. -/
theorem instDecodeSeq_cases (rst stall flush : Bool) (npc : BitVec 32) (f : Forward) (i : IfId)
    (d : IdEx) :
    (stall = true ∧ instDecodeSeq rst stall flush npc f i d = d) ∨
    (stall = false ∧ flush = false ∧ rst = false ∧ npc = i.ifIdPc ∧
      instDecodeSeq rst stall flush npc f i d = latch f i) ∨
    (stall = false ∧ instDecodeSeq rst stall flush npc f i d = bubble) := by
  unfold instDecodeSeq
  split_ifs with hstall hsquash hempty
  · exact .inl ⟨hstall, rfl⟩
  · exact .inr (.inr ⟨by simpa using hstall, rfl⟩)
  · exact .inr (.inr ⟨by simpa using hstall, rfl⟩)
  · simp only [Bool.or_eq_true, bne_iff_ne, ne_eq, not_or, Bool.not_eq_true, not_not] at hsquash
    exact .inr (.inl ⟨by simpa using hstall, hsquash.1.1, hsquash.1.2, hsquash.2, rfl⟩)

end Turtle
