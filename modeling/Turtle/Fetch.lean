import Turtle.CsrCfg

/-!
# The fetch buffer

`fetch.hpp`: a 64-bit buffer of halfwords with one mask of page faults and one of
access faults beside it. `get_inst_seq` appends the word that the IMMU offers and
pops the instruction that Decode has seen; `fifo_state_comb` announces half a
clock earlier whether the word will be taken.
-/

namespace Turtle

/-- The members of `FetchInstruction`. -/
@[ext] structure Fifo where
  buffer : BitVec 64 := 0
  bufferPageFault : BitVec 64 := 0
  bufferAccessFault : BitVec 64 := 0
  bufferIdx : BitVec 32 := 0
  bufferAddr : BitVec 32 := 0
  deriving DecidableEq, Repr, Inhabited

/-- The buffer with its registered outputs. -/
structure Fetch where
  fifo : Fifo := {}
  ifId : IfId := {}
  deriving DecidableEq, Repr, Inhabited

/-- The inputs of the fetch buffer in one cycle. -/
structure FetchIn where
  rst : Bool := false
  stall : Bool := false
  flush : Bool := false
  immuFlush : Bool := false
  rsp : MmuRsp := {}
  immuPc : BitVec 32 := 0
  deriving DecidableEq, Repr, Inhabited

namespace Fifo

/-- The low halfword starts an instruction of 32 bits. -/
def isWide (b : Fifo) : Bool := b.buffer &&& 3 == 3

/-- `buffer_addr + (buffer_idx >> 3)`: the address after the last halfword. -/
def endAddr (b : Fifo) : BitVec 32 := b.bufferAddr + (b.bufferIdx >>> 3)

/-- The same operation on the three buffers. -/
def mapBuffers (b : Fifo) (f : BitVec 64 → BitVec 64) : Fifo :=
  { b with
    buffer := f b.buffer
    bufferPageFault := f b.bufferPageFault
    bufferAccessFault := f b.bufferAccessFault }

end Fifo

/-- What the IMMU offers: `input_inst`, `page_fault` and `access_fault`. -/
structure Offer where
  inst : BitVec 64
  pageFault : BitVec 64
  accessFault : BitVec 64

/-- The mask that marks both halfwords of a word. -/
def faultMask (rsp : MmuRsp) (cause : ExceptionCause) : BitVec 64 :=
  if rsp.mmuRspFault = cause.code.setWidth 8 then 0xffffffff else 0

/-- The locals of the branch that receives data. -/
def offerOf (rsp : MmuRsp) : Offer :=
  { inst := rsp.mmuRspRdata.setWidth 64
    pageFault := faultMask rsp .instrPageFault
    accessFault := faultMask rsp .instrAccessFault }

/-- Merge an offer into the three buffers, shifted to the left by `n`. -/
def Fifo.merge (b : Fifo) (o : Offer) (n : BitVec 32) : Fifo :=
  { b with
    buffer := b.buffer ||| (o.inst <<< n.toNat)
    bufferPageFault := b.bufferPageFault ||| (o.pageFault <<< n.toNat)
    bufferAccessFault := b.bufferAccessFault ||| (o.accessFault <<< n.toNat) }

/-- An update of the buffers, with the amounts by which it shifts, whether it
stores the offered word and whether it pops an instruction. -/
structure FifoUpdate where
  fifo : Fifo
  shifts : List (BitVec 32) := []
  stored : Bool := false
  popped : Bool := false

namespace Fetch

/-- A word that does not continue the buffer replaces it. -/
def restart (o : Offer) (inputAddr : BitVec 32) : FifoUpdate :=
  if inputAddr &&& 3 ≠ 0 then
    { fifo := { buffer := o.inst >>> 16, bufferPageFault := o.pageFault >>> 16,
                bufferAccessFault := o.accessFault >>> 16, bufferIdx := 16, bufferAddr := inputAddr },
      shifts := [16], stored := true }
  else
    { fifo := { buffer := o.inst, bufferPageFault := o.pageFault,
                bufferAccessFault := o.accessFault, bufferIdx := 32, bufferAddr := inputAddr },
      stored := true }

/-- Pop an instruction and take the word if there is room. -/
def popAppend (b : Fifo) (o : Offer) : FifoUpdate :=
  if b.isWide then
    let popped := { b with bufferAddr := b.bufferAddr + 4 }.mapBuffers (· >>> 32)
    { fifo := popped.merge o (b.bufferIdx - 32), shifts := [32, b.bufferIdx - 32], stored := true,
      popped := true }
  else
    let popped := { b with bufferAddr := b.bufferAddr + 2 }.mapBuffers (· >>> 16)
    if b.bufferIdx ≤ 48 then
      { fifo := { popped.merge o (b.bufferIdx - 16) with bufferIdx := b.bufferIdx + 16 },
        shifts := [16, b.bufferIdx - 16], stored := true, popped := true }
    else
      { fifo := { popped with bufferIdx := b.bufferIdx - 16 }, shifts := [16], popped := true }

/-- Take the word if there is room. -/
def append (b : Fifo) (o : Offer) : FifoUpdate :=
  if b.bufferIdx ≤ 32 then
    { fifo := { b.merge o b.bufferIdx with bufferIdx := b.bufferIdx + 32 }, shifts := [b.bufferIdx],
      stored := true }
  else { fifo := b }

/-- Pop an instruction. -/
def pop (b : Fifo) : FifoUpdate :=
  if b.isWide then
    { fifo := { b with bufferAddr := b.bufferAddr + 4, bufferIdx := b.bufferIdx - 32 }.mapBuffers
        (· >>> 32), shifts := [32], popped := true }
  else
    { fifo := { b with bufferAddr := b.bufferAddr + 2, bufferIdx := b.bufferIdx - 16 }.mapBuffers
        (· >>> 16), shifts := [16], popped := true }

/-- The first part of `get_inst_seq`. -/
def fifoUpdate (s : Fetch) (i : FetchIn) : FifoUpdate :=
  let b := s.fifo
  if i.rst || i.flush then { fifo := {} }
  else if i.rsp.mmuRspAck && !i.immuFlush then
    let o := offerOf i.rsp
    if i.immuPc ≠ b.endAddr then restart o i.immuPc
    else if !i.stall && !s.ifId.ifIdFlush then popAppend b o
    else append b o
  else if !i.stall && !s.ifId.ifIdFlush then pop b
  else { fifo := b }

/-- The fault report of the second part: the low halfword first, then for a wide
instruction the next one. -/
def faultReport (b : Fifo) : BitVec 8 × BitVec 32 :=
  let access := ExceptionCause.instrAccessFault.code.setWidth 8
  let page := ExceptionCause.instrPageFault.code.setWidth 8
  if b.bufferAccessFault &&& 1 ≠ 0 then (access, b.bufferAddr)
  else if b.bufferPageFault &&& 1 ≠ 0 then (page, b.bufferAddr)
  else if b.isWide then
    if b.bufferAccessFault &&& (1#64 <<< 16) ≠ 0 then (access, b.bufferAddr + 2)
    else if b.bufferPageFault &&& (1#64 <<< 16) ≠ 0 then (page, b.bufferAddr + 2)
    else (0, 0)
  else (0, 0)

/-- The second part of `get_inst_seq`: the outputs, of which a reset or a flush
leaves the fault signals alone. -/
def outputs (rst flush : Bool) (old : IfId) (b : Fifo) : IfId :=
  let out : IfId :=
    if rst || flush then { old with ifIdFlush := true }
    else
      { old with
        ifIdFlush := decide (b.bufferIdx < if b.isWide then 32 else 16)
        ifIdFault := (faultReport b).1
        ifIdTval := (faultReport b).2 }
  { out with ifIdInst := b.buffer.setWidth 32, ifIdPc := b.bufferAddr }

/-- `FetchInstruction::get_inst_seq`. -/
def getInstSeq (s : Fetch) (i : FetchIn) : Fetch :=
  let b := (s.fifoUpdate i).fifo
  { fifo := b, ifId := outputs i.rst i.flush s.ifId b }

/-- `FetchInstruction::fifo_state_comb`: the signal `if_id_accept`. -/
def fifoStateComb (s : Fetch) (i : FetchIn) : Bool :=
  let b := s.fifo
  if i.rsp.mmuRspAck then
    if i.immuPc ≠ b.bufferAddr + (b.bufferIdx >>> 3) then true
    else if !i.stall && !s.ifId.ifIdFlush then
      if b.buffer &&& 3 = 3 then true else decide (b.bufferIdx ≤ 48)
    else decide (b.bufferIdx ≤ 32)
  else false

end Fetch

end Turtle
