import Turtle.CsrCfg

/-!
# The decode stage

`Decode::decode` and `Decode::decompress` turn a fetched word into an `ID_EX`
record, and `Decode::inst_decode_seq` latches it at the rising clock edge. The
outer `switch` of each decoder is kept; its larger arms are functions of their
own. A funct field that no inner `case` names leaves the default type `NOP`.
-/

namespace Turtle

/-- The operand sources a decoder reads: the result leaving EX, the registered
write-back value and the register file. -/
structure Forward where
  exWriteRd : Bool := false
  exRdVal : BitVec 32 := 0
  exRd : BitVec 5 := 0
  wbWriteRd : Bool := false
  wbRdVal : BitVec 32 := 0
  wbRd : BitVec 5 := 0
  regs : BitVec 5 → BitVec 32 := fun _ => 0

/-- Operand selection: the youngest pending value of a register other than
`x0`, else the register file. -/
def Forward.operand (f : Forward) (rs : BitVec 5) : BitVec 32 :=
  if f.exWriteRd && rs != 0 && rs == f.exRd then f.exRdVal
  else if f.wbWriteRd && rs != 0 && rs == f.wbRd then f.wbRdVal
  else f.regs rs

/-- A five-bit register field of an instruction word. -/
def regField (inst : BitVec 32) (hi lo : ℕ) : BitVec 5 := (getBits inst hi lo).setWidth 5

/-- A three-bit compressed register field, which names `x8` to `x15`. -/
def cRegField (inst : BitVec 32) (hi lo : ℕ) : BitVec 5 := (getBits inst hi lo + 8).setWidth 5

/-- The twelve-bit sign-extended immediate of the I format. -/
def immI (inst : BitVec 32) : BitVec 32 := signExtend (getBits inst 31 20) 12

/-- The immediate of the S format. -/
def immS (inst : BitVec 32) : BitVec 32 :=
  signExtend ((getBits inst 31 25 <<< 5) ||| getBits inst 11 7) 12

/-- The immediate of the B format. -/
def immB (inst : BitVec 32) : BitVec 32 :=
  signExtend ((getBits inst 31 31 <<< 12) ||| (getBits inst 7 7 <<< 11) |||
    (getBits inst 30 25 <<< 5) ||| (getBits inst 11 8 <<< 1)) 13

/-- The immediate of the J format. -/
def immJ (inst : BitVec 32) : BitVec 32 :=
  signExtend ((getBits inst 31 31 <<< 20) ||| (getBits inst 19 12 <<< 12) |||
    (getBits inst 20 20 <<< 11) ||| (getBits inst 30 21 <<< 1)) 21

/-- Opcode `0010011`: ALU operations with an immediate. -/
def decodeOpImm (idEx : IdEx) (inst : BitVec 32) : IdEx :=
  let funct7 := getBits inst 31 25
  let idEx := { idEx with writesRd := idEx.rd != 0, imm := immI inst }
  match getBits inst 14 12 with
  | 0b000#32 => { idEx with type := .addi }
  | 0b010#32 => { idEx with type := .slti }
  | 0b011#32 => { idEx with type := .sltiu }
  | 0b100#32 => { idEx with type := .xori }
  | 0b110#32 => { idEx with type := .ori }
  | 0b111#32 => { idEx with type := .andi }
  | 0b001#32 => { idEx with type := if 31#32 < idEx.imm then .invalid else .slli }
  | 0b101#32 => { idEx with type := if funct7 = 0 then .srli else .srai }
  | _ => idEx

/-- Opcode `0110011`: ALU operations on registers and the M extension. -/
def decodeOp (idEx : IdEx) (inst : BitVec 32) : IdEx :=
  let idEx := { idEx with writesRd := idEx.rd != 0 }
  match (getBits inst 31 25 <<< 3) ||| getBits inst 14 12 with
  | 0b0000000000#32 => { idEx with type := .add }
  | 0b0100000000#32 => { idEx with type := .sub }
  | 0b0000000001#32 => { idEx with type := .sll }
  | 0b0000000010#32 => { idEx with type := .slt }
  | 0b0000000011#32 => { idEx with type := .sltu }
  | 0b0000000100#32 => { idEx with type := .xor }
  | 0b0000000101#32 => { idEx with type := .srl }
  | 0b0100000101#32 => { idEx with type := .sra }
  | 0b0000000110#32 => { idEx with type := .or }
  | 0b0000000111#32 => { idEx with type := .and }
  | 0b0000001000#32 => { idEx with type := .mul, isMuldiv := true }
  | 0b0000001001#32 => { idEx with type := .mulh, isMuldiv := true }
  | 0b0000001010#32 => { idEx with type := .mulhsu, isMuldiv := true }
  | 0b0000001011#32 => { idEx with type := .mulhu, isMuldiv := true }
  | 0b0000001100#32 => { idEx with type := .div, isMuldiv := true }
  | 0b0000001101#32 => { idEx with type := .divu, isMuldiv := true }
  | 0b0000001110#32 => { idEx with type := .rem, isMuldiv := true }
  | 0b0000001111#32 => { idEx with type := .remu, isMuldiv := true }
  | _ => idEx

/-- Opcode `0000011`: loads. -/
def decodeLoad (idEx : IdEx) (inst : BitVec 32) : IdEx :=
  let idEx := { idEx with isLoad := true, writesRd := idEx.rd != 0, imm := immI inst }
  match getBits inst 14 12 with
  | 0b000#32 => { idEx with type := .lb, memSize := 1 }
  | 0b001#32 => { idEx with type := .lh, memSize := 2 }
  | 0b010#32 => { idEx with type := .lw, memSize := 4 }
  | 0b100#32 => { idEx with type := .lbu, memSize := 1 }
  | 0b101#32 => { idEx with type := .lhu, memSize := 2 }
  | _ => idEx

/-- Opcode `0100011`: stores. -/
def decodeStore (idEx : IdEx) (inst : BitVec 32) : IdEx :=
  let idEx := { idEx with isStore := true, imm := immS inst }
  match getBits inst 14 12 with
  | 0b000#32 => { idEx with type := .sb, memSize := 1 }
  | 0b001#32 => { idEx with type := .sh, memSize := 2 }
  | 0b010#32 => { idEx with type := .sw, memSize := 4 }
  | _ => idEx

/-- Opcode `1100011`: conditional branches. -/
def decodeBranch (idEx : IdEx) (inst : BitVec 32) : IdEx :=
  let idEx := { idEx with writesRd := false, isBranch := true, imm := immB inst }
  match getBits inst 14 12 with
  | 0b000#32 => { idEx with type := .beq }
  | 0b001#32 => { idEx with type := .bne }
  | 0b100#32 => { idEx with type := .blt }
  | 0b101#32 => { idEx with type := .bge }
  | 0b110#32 => { idEx with type := .bltu }
  | 0b111#32 => { idEx with type := .bgeu }
  | _ => idEx

/-- The system instructions without a CSR operand (`funct3 = 000`). -/
def decodePrivType (inst : BitVec 32) : InstrType :=
  if getBits inst 31 25 = 0b0001001 then .sfenceVma
  else match getBits inst 31 20 with
    | 0x000#32 => .ecall
    | 0x001#32 => .ebreak
    | 0x105#32 => .wfi
    | 0x102#32 => .sret
    | 0x302#32 => .mret
    | _ => .invalid

/-- The common part of the six CSR instructions. -/
def decodeCsr (idEx : IdEx) (type : InstrType) (csrVal : BitVec 32) : IdEx :=
  { idEx with type := type, isCsr := true, writesRd := idEx.rd != 0, csrVal := csrVal }

/-- Opcode `1110011`: system and CSR instructions. -/
def decodeSystem (idEx : IdEx) (inst : BitVec 32) : IdEx :=
  let idEx := { idEx with isSystem := true, csrAddr := (getBits inst 31 20).setWidth 12 }
  match getBits inst 14 12 with
  | 0b000#32 => { idEx with type := decodePrivType inst }
  | 0b001#32 => decodeCsr idEx .csrrw idEx.rs1Val
  | 0b010#32 => decodeCsr idEx .csrrs idEx.rs1Val
  | 0b011#32 => decodeCsr idEx .csrrc idEx.rs1Val
  | 0b101#32 => decodeCsr idEx .csrrwi (idEx.rs1.setWidth 32)
  | 0b110#32 => decodeCsr idEx .csrrsi (idEx.rs1.setWidth 32)
  | 0b111#32 => decodeCsr idEx .csrrci (idEx.rs1.setWidth 32)
  | _ => { idEx with type := .invalid }

/-- Opcode `0001111`: fences. -/
def decodeFence (idEx : IdEx) (inst : BitVec 32) : IdEx :=
  let idEx := { idEx with isSystem := true }
  match getBits inst 14 12 with
  | 0b000#32 => { idEx with type := .fence }
  | 0b001#32 => { idEx with type := .fenceI }
  | _ => { idEx with type := .invalid }

/-- Opcode `0101111`: atomics. -/
def decodeAtomic (idEx : IdEx) (inst : BitVec 32) : IdEx :=
  let idEx := { idEx with isAtomic := true, writesRd := idEx.rd != 0, memSize := 4 }
  if getBits inst 14 12 ≠ 0b010 then { idEx with type := .invalid }
  else match getBits inst 31 25 >>> 2 with
    | 0b00010#32 => { idEx with type := .lrW, amoType := 0 }
    | 0b00011#32 => { idEx with type := .scW, amoType := 1 }
    | 0b00001#32 => { idEx with type := .amoswapW, amoType := 2 }
    | 0b00000#32 => { idEx with type := .amoaddW, amoType := 3 }
    | 0b00100#32 => { idEx with type := .amoxorW, amoType := 4 }
    | 0b01100#32 => { idEx with type := .amoandW, amoType := 5 }
    | 0b01000#32 => { idEx with type := .amoorW, amoType := 6 }
    | 0b10000#32 => { idEx with type := .amominW, amoType := 7 }
    | 0b10100#32 => { idEx with type := .amomaxW, amoType := 8 }
    | 0b11000#32 => { idEx with type := .amominuW, amoType := 9 }
    | 0b11100#32 => { idEx with type := .amomaxuW, amoType := 10 }
    | _ => { idEx with type := .invalid }

/-- `Decode::decode` on a 32-bit instruction offered at `pc`. -/
def decode (f : Forward) (pc inst : BitVec 32) : IdEx :=
  let rs1 := regField inst 19 15
  let rs2 := regField inst 24 20
  let idEx : IdEx :=
    { inst := inst, rd := regField inst 11 7, rs1 := rs1, rs2 := rs2, isCompressed := false,
      rs1Val := f.operand rs1, rs2Val := f.operand rs2, pc := pc }
  match getBits inst 6 0 with
  | 0b0110111#32 =>
    { idEx with type := .lui, imm := inst &&& 0xFFFFF000, writesRd := idEx.rd != 0 }
  | 0b0010111#32 =>
    { idEx with type := .auipc, imm := inst &&& 0xFFFFF000, writesRd := idEx.rd != 0 }
  | 0b0010011#32 => decodeOpImm idEx inst
  | 0b0110011#32 => decodeOp idEx inst
  | 0b0000011#32 => decodeLoad idEx inst
  | 0b0100011#32 => decodeStore idEx inst
  | 0b1101111#32 =>
    { idEx with type := .jal, isJump := true, writesRd := idEx.rd != 0, imm := immJ inst }
  | 0b1100111#32 =>
    { idEx with type := .jalr, isJump := true, writesRd := idEx.rd != 0, imm := immI inst }
  | 0b1100011#32 => decodeBranch idEx inst
  | 0b1110011#32 => decodeSystem idEx inst
  | 0b0001111#32 => decodeFence idEx inst
  | 0b0101111#32 => decodeAtomic idEx inst
  | _ => { idEx with type := .invalid }

/-- The three assignments by which a decoder marks an illegal encoding. -/
def IdEx.illegal (idEx : IdEx) (inst : BitVec 32) : IdEx :=
  { idEx with onTrap := true, cause := ExceptionCause.illegalInstr.code, tval := inst }

/-- The offset of `C.LW` and `C.SW`. -/
def cImmLw (inst : BitVec 32) : BitVec 32 :=
  (getBits inst 5 5 <<< 6) ||| (getBits inst 12 10 <<< 3) ||| (getBits inst 6 6 <<< 2)

/-- The six-bit signed immediate of the CI format. -/
def cImm6 (inst : BitVec 32) : BitVec 32 :=
  signExtend ((getBits inst 12 12 <<< 5) ||| getBits inst 6 2) 6

/-- The jump offset of `C.JAL` and `C.J`. -/
def cImmJ (inst : BitVec 32) : BitVec 32 :=
  signExtend ((getBits inst 12 12 <<< 11) ||| (getBits inst 11 11 <<< 4) |||
    (getBits inst 10 9 <<< 8) ||| (getBits inst 8 8 <<< 10) ||| (getBits inst 7 7 <<< 6) |||
    (getBits inst 6 6 <<< 7) ||| (getBits inst 5 3 <<< 1) ||| (getBits inst 2 2 <<< 5)) 12

/-- The branch offset of `C.BEQZ` and `C.BNEZ`. -/
def cImmB (inst : BitVec 32) : BitVec 32 :=
  signExtend ((getBits inst 12 12 <<< 8) ||| (getBits inst 11 10 <<< 3) |||
    (getBits inst 6 5 <<< 6) ||| (getBits inst 4 3 <<< 1) ||| (getBits inst 2 2 <<< 5)) 9

/-- Quadrant `00` of the compressed instructions. -/
def decompressQ0 (idEx : IdEx) (inst : BitVec 32) : IdEx :=
  match getBits inst 15 13 with
  | 0b000#32 =>
    let imm := (getBits inst 12 11 <<< 4) ||| (getBits inst 10 7 <<< 6) |||
      (getBits inst 6 6 <<< 2) ||| (getBits inst 5 5 <<< 3)
    let idEx := { idEx with type := .addi, ctype := .cAddi4spn, rs1 := 2, imm := imm,
                            rd := cRegField inst 4 2, writesRd := true }
    if imm = 0 then idEx.illegal inst else idEx
  | 0b010#32 =>
    { idEx with type := .lw, ctype := .cLw, rs1 := cRegField inst 9 7, rd := cRegField inst 4 2,
                imm := cImmLw inst, writesRd := true, isLoad := true, memSize := 4 }
  | 0b110#32 =>
    { idEx with type := .sw, ctype := .cSw, rs1 := cRegField inst 9 7, rs2 := cRegField inst 4 2,
                imm := cImmLw inst, writesRd := false, isStore := true, memSize := 4 }
  | _ => { idEx with type := .invalid }.illegal inst

/-- `C.SUB`, `C.XOR`, `C.OR` and `C.AND`. -/
def decompressCA (idEx : IdEx) (inst : BitVec 32) (type ctype : InstrType) : IdEx :=
  { idEx with type := type, ctype := ctype, rd := cRegField inst 9 7, rs1 := cRegField inst 9 7,
              rs2 := cRegField inst 4 2, writesRd := true }

/-- Shifts and logic of quadrant `01`, `funct3 = 100`. -/
def decompressMiscAlu (idEx : IdEx) (inst : BitVec 32) : IdEx :=
  let shift (type ctype : InstrType) : IdEx :=
    let idEx := { idEx with type := type, ctype := ctype, rd := cRegField inst 9 7,
                            rs1 := cRegField inst 9 7, imm := getBits inst 6 2, writesRd := true }
    if getBits inst 12 12 ≠ 0 then idEx.illegal inst else idEx
  match getBits inst 11 10 with
  | 0b00#32 => shift .srli .cSrli
  | 0b01#32 => shift .srai .cSrai
  | 0b10#32 =>
    { idEx with type := .andi, ctype := .cAndi, rd := cRegField inst 9 7,
                rs1 := cRegField inst 9 7, imm := cImm6 inst, writesRd := true }
  | 0b11#32 =>
    if inst &&& (1#32 <<< 12) = 0 then
      match getBits inst 6 5 with
      | 0b00#32 => decompressCA idEx inst .sub .cSub
      | 0b01#32 => decompressCA idEx inst .xor .cXor
      | 0b10#32 => decompressCA idEx inst .or .cOr
      | 0b11#32 => decompressCA idEx inst .and .cAnd
      | _ => { idEx with type := .invalid }.illegal inst
    else { idEx with type := .invalid }.illegal inst
  | _ => { idEx with type := .invalid }.illegal inst

/-- Quadrant `01` of the compressed instructions. -/
def decompressQ1 (idEx : IdEx) (inst : BitVec 32) : IdEx :=
  let rd := regField inst 11 7
  match getBits inst 15 13 with
  | 0b000#32 =>
    if inst = 1 then { idEx with type := .nop, ctype := .cNop, writesRd := false }
    else { idEx with type := .addi, ctype := .cAddi, rd := rd, rs1 := rd, imm := cImm6 inst,
                     writesRd := true }
  | 0b001#32 =>
    { idEx with type := .jal, ctype := .cJal, rd := 1, writesRd := true, imm := cImmJ inst }
  | 0b010#32 =>
    { idEx with type := .addi, ctype := .cLi, rd := rd, rs1 := 0, imm := cImm6 inst,
                writesRd := true }
  | 0b011#32 =>
    if rd = 2 then
      let imm := signExtend ((getBits inst 12 12 <<< 9) ||| (getBits inst 6 6 <<< 4) |||
        (getBits inst 5 5 <<< 6) ||| (getBits inst 4 3 <<< 7) ||| (getBits inst 2 2 <<< 5)) 10
      let idEx := { idEx with type := .addi, ctype := .cAddi16sp, rs1 := 2, imm := imm, rd := 2,
                              writesRd := true }
      if imm = 0 then idEx.illegal inst else idEx
    else
      { idEx with type := .lui, ctype := .cLui, rd := rd, rs1 := 0, writesRd := true,
                  imm := signExtend ((getBits inst 12 12 <<< 17) |||
                    (getBits inst 6 2 <<< 12)) 18 }
  | 0b100#32 => decompressMiscAlu idEx inst
  | 0b101#32 =>
    { idEx with type := .jal, ctype := .cJ, rd := 0, rs1 := 0, rs2 := 0, writesRd := false,
                imm := cImmJ inst }
  | 0b110#32 =>
    { idEx with type := .beq, ctype := .cBeqz, rd := 0, writesRd := false,
                rs1 := cRegField inst 9 7, rs2 := 0, imm := cImmB inst }
  | 0b111#32 =>
    { idEx with type := .bne, ctype := .cBnez, rd := 0, writesRd := false,
                rs1 := cRegField inst 9 7, rs2 := 0, imm := cImmB inst }
  | _ => idEx

/-- `C.JR` and `C.JALR`, which are illegal on `x0`. -/
def decompressJr (idEx : IdEx) (inst : BitVec 32) (ctype : InstrType) (rd : BitVec 5)
    (writesRd : Bool) : IdEx :=
  let idEx := { idEx with type := .jalr, ctype := ctype, rd := rd, rs1 := regField inst 11 7,
                          imm := 0, writesRd := writesRd }
  if idEx.rs1 = 0 then idEx.illegal inst else idEx

/-- Quadrant `10` of the compressed instructions. The two floating-point stores
are only given the type `INVALID`; the loads are also marked as traps. -/
def decompressQ2 (idEx : IdEx) (inst : BitVec 32) : IdEx :=
  let rd := regField inst 11 7
  let rs2 := regField inst 6 2
  match getBits inst 15 13 with
  | 0b000#32 =>
    let idEx := { idEx with type := .slli, ctype := .cSlli, rd := rd, rs1 := rd,
                            imm := getBits inst 6 2, writesRd := true }
    if getBits inst 12 12 ≠ 0 ∧ rd = 0 then idEx.illegal inst else idEx
  | 0b001#32 => { idEx with type := .invalid }.illegal inst
  | 0b010#32 =>
    let idEx := { idEx with type := .lw, ctype := .cLwsp, rd := rd, rs1 := 2,
                            imm := (getBits inst 12 12 <<< 5) ||| (getBits inst 6 4 <<< 2) |||
                              (getBits inst 3 2 <<< 6),
                            writesRd := true, isLoad := true, memSize := 4 }
    if rd = 0 then idEx.illegal inst else idEx
  | 0b011#32 => { idEx with type := .invalid }.illegal inst
  | 0b100#32 =>
    if getBits inst 12 12 = 0 then
      if rs2 = 0 then decompressJr idEx inst .cJr 0 false
      else { idEx with type := .add, ctype := .cMv, rd := rd, rs1 := 0, rs2 := rs2,
                       writesRd := true }
    else if rs2 = 0 then
      if rd = 0 then { idEx with type := .ebreak, ctype := .cEbreak }
      else decompressJr idEx inst .cJalr 1 true
    else { idEx with type := .add, ctype := .cAdd, rd := rd, rs1 := rd, rs2 := rs2,
                     writesRd := true }
  | 0b101#32 => { idEx with type := .invalid }
  | 0b110#32 =>
    { idEx with type := .sw, ctype := .cSwsp, rs1 := 2, rs2 := rs2, writesRd := false,
                imm := (getBits inst 12 9 <<< 2) ||| (getBits inst 8 7 <<< 6),
                isStore := true, memSize := 4 }
  | 0b111#32 => { idEx with type := .invalid }
  | _ => idEx

/-- `Decode::decompress` on a 16-bit instruction offered at `pc`. -/
def decompress (f : Forward) (pc inst : BitVec 32) : IdEx :=
  let idEx : IdEx := { inst := inst, isCompressed := true, pc := pc }
  let idEx := match getBits inst 1 0 with
    | 0b00#32 => decompressQ0 idEx inst
    | 0b01#32 => decompressQ1 idEx inst
    | 0b10#32 => decompressQ2 idEx inst
    | _ => { idEx with type := .invalid }
  { idEx with rs1Val := f.operand idEx.rs1, rs2Val := f.operand idEx.rs2 }

/-- The instruction that `inst_decode_seq` makes of a FIFO output that is not
flushed: decoded by its length, then marked with a fetch fault or, failing
that, as illegal when its type is `INVALID`. -/
def latch (f : Forward) (i : IfId) : IdEx :=
  let idEx := if i.ifIdInst &&& 3 = 3 then decode f i.ifIdPc i.ifIdInst
    else decompress f i.ifIdPc (i.ifIdInst &&& 0x0000ffff)
  let fault := i.ifIdFault.setWidth 32
  let idEx :=
    if fault = ExceptionCause.instrAccessFault.code ∨
        fault = ExceptionCause.instrPageFault.code then
      { idEx with tval := i.ifIdTval, onTrap := true, cause := fault }
    else if idEx.type = .invalid then
      { idEx with onTrap := true, cause := ExceptionCause.illegalInstr.code, tval := 0 }
    else idEx
  { idEx with flush := false }

/-- The bubble written when nothing is latched. -/
def bubble : IdEx := { flush := true }

/-- `Decode::inst_decode_seq`: the next contents of the `ID_EX` register. A
stalled cycle keeps the old contents, even when `flush` is raised with it. -/
def instDecodeSeq (rst stall flush : Bool) (npc : BitVec 32) (f : Forward) (i : IfId)
    (idEx : IdEx) : IdEx :=
  if stall then idEx
  else if flush || rst || npc != i.ifIdPc then bubble
  else if i.ifIdFlush then bubble
  else latch f i

end Turtle
