import Mathlib.Data.BitVec

/-!
# Instruction kinds and the records carried by the signals

The pipeline of the emulator is a set of clocked processes joined by signals.
This file holds the types of those signals: the instruction enumeration of
`instr_cfg.hpp`, the `ID_EX` record of `decode.hpp` and the memory requests and
responses of `memory.hpp`. Register indices are kept as the five bits that the
instruction word supplies, and `csr_addr` as its twelve bits.
-/

namespace Turtle

/-- `InstrType`: base, system, multiply, atomic and compressed instruction kinds. -/
inductive InstrType
  | lui | auipc
  | addi | slti | sltiu | xori | ori | andi | slli | srli | srai
  | add | sub | sll | slt | sltu | xor | srl | sra | or | and
  | lb | lh | lw | lbu | lhu | sb | sh | sw
  | jal | jalr | beq | bne | blt | bge | bltu | bgeu
  | ecall | ebreak | sret | mret | wfi
  | csrrw | csrrs | csrrc | csrrwi | csrrsi | csrrci
  | fence | fenceI | sfenceVma
  | mul | mulh | mulhsu | mulhu | div | divu | rem | remu
  | lrW | scW | amoswapW | amoaddW | amoxorW | amoandW | amoorW
  | amominW | amomaxW | amominuW | amomaxuW
  | cAddi4spn | cLw | cSw
  | cNop | cAddi | cJal | cLi | cAddi16sp | cLui | cSrli | cSrai | cAndi
  | cSub | cXor | cOr | cAnd | cJ | cBeqz | cBnez
  | cSlli | cLwsp | cJr | cMv | cEbreak | cJalr | cAdd | cSwsp
  | nop | invalid
  deriving DecidableEq, Repr, Inhabited

/-- `ID_EX`: the decoded instruction that waits in front of the execute stage.
The defaults are the initializers of the C++ record. -/
structure IdEx where
  type : InstrType := .nop
  inst : BitVec 32 := 0
  rd : BitVec 5 := 0
  writesRd : Bool := false
  rs1 : BitVec 5 := 0
  rs2 : BitVec 5 := 0
  rs1Val : BitVec 32 := 0
  rs2Val : BitVec 32 := 0
  imm : BitVec 32 := 0
  pc : BitVec 32 := 0
  csrVal : BitVec 32 := 0
  isCsr : Bool := false
  csrAddr : BitVec 12 := 0
  isCompressed : Bool := false
  ctype : InstrType := .cNop
  isBranch : Bool := false
  isJump : Bool := false
  isLoad : Bool := false
  isStore : Bool := false
  isMuldiv : Bool := false
  isSystem : Bool := false
  isAtomic : Bool := false
  amoType : BitVec 8 := 0
  memSize : BitVec 8 := 0
  flush : Bool := false
  getNextInst : Bool := false
  cause : BitVec 32 := 0
  tval : BitVec 32 := 0
  onTrap : Bool := false
  deriving DecidableEq, Repr, Inhabited

/-- `IMEM_IN`: an instruction-side request to memory. -/
structure ImemIn where
  imemReqAck : Bool := false
  imemAddr : BitVec 32 := 0
  deriving DecidableEq, Repr, Inhabited

/-- `DMEM_IN`: a data-side request, from EXEC to the DMMU or from the DMMU to memory. -/
structure DmemIn where
  dmemReqAck : Bool := false
  dmemAddr : BitVec 32 := 0
  dmemWdata : BitVec 32 := 0
  dmemSize : BitVec 8 := 4
  dmemIsLoad : Bool := false
  dmemIsStore : Bool := false
  dmemIsAmo : Bool := false
  dmemAmoop : BitVec 8 := 0
  deriving DecidableEq, Repr, Inhabited

/-- `MEM_OUT`: the answer of memory to either kind of request. -/
structure MemOut where
  memRspAck : Bool := false
  memRspRdata : BitVec 32 := 0
  memRspFault : BitVec 8 := 0
  deriving DecidableEq, Repr, Inhabited

/-- `MMU_RSP`: the answer of the DMMU to EXEC, or of the IMMU to the fetch buffer. -/
structure MmuRsp where
  mmuRspAck : Bool := false
  mmuRspRdata : BitVec 32 := 0
  mmuRspTval : BitVec 32 := 0
  mmuRspFault : BitVec 8 := 0
  deriving DecidableEq, Repr, Inhabited

/-- The registered outputs of the fetch buffer that feed the decoder. -/
structure IfId where
  ifIdInst : BitVec 32 := 0
  ifIdPc : BitVec 32 := 0
  ifIdFault : BitVec 8 := 0
  ifIdTval : BitVec 32 := 0
  ifIdFlush : Bool := false
  deriving DecidableEq, Repr, Inhabited

/-- `get_bits`: the field of `inst` from bit `hi` down to bit `lo`. -/
def getBits (inst : BitVec 32) (hi lo : ℕ) : BitVec 32 :=
  (inst >>> lo) &&& ((1#32 <<< (hi - lo + 1)) - 1)

/-- `sign_extend`: extend the sign bit of a value of `bits` bits to the whole word. -/
def signExtend (val : BitVec 32) (bits : ℕ) : BitVec 32 :=
  let mask := 1#32 <<< (bits - 1)
  (val ^^^ mask) - mask

end Turtle
