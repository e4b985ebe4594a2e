import Turtle.Exec.Seq
import Turtle.Lib.Clocked

/-!
# Decode and EXEC as one clocked machine

A cycle goes from one rising clock edge to the next: `exec_comb` runs at the
falling edge in between, and at the second rising edge every clocked process
samples the same old signal values. The outputs of the fetch buffer, the DMMU
and MEXT and the platform lines are inputs of the cycle.
-/

namespace Turtle

/-- The registered state of Decode, EXEC, write-back and the register file. -/
structure Core where
  exec : Exec := Exec.init
  wb : Writeback := {}
  idEx : IdEx := {}
  regs : BitVec 5 → BitVec 32 := Function.update (fun _ => 0) 0xb 0x80100000
  mextReqAck : Bool := false

/-! The defaults of the inputs below meet their conditions. -/

theorem held_of_released (rstComb : Bool) : false = true → rstComb = true := nofun

theorem held_of_comb (rst : Bool) : rst = true → true = true := fun _ => rfl

theorem ack_of_no_answer :
    ({} : MmuRsp).mmuRspFault ≠ 0 → ({} : MmuRsp).mmuRspAck = true := fun h => absurd rfl h

/-- The inputs of one cycle. `rstComb` is the reset level at the falling edge and
`rst` the one at the rising edge: the testbench releases reset at a rising edge
and never raises it between the two. A fault of the DMMU comes with `ack`. -/
structure CoreIn where
  rstComb : Bool := false
  rst : Bool := false
  ifId : IfId := {}
  dmmuRsp : MmuRsp := {}
  mextRspAck : Bool := false
  mextResult : BitVec 32 := 0
  platform : Platform := {}
  mtime : BitVec 64 := 0
  rst_held : rst = true → rstComb = true := by
    first | exact held_of_released _ | exact held_of_comb _ | decide
  fault_ack : dmmuRsp.mmuRspFault ≠ 0 → dmmuRsp.mmuRspAck = true := by
    first | exact ack_of_no_answer | decide

namespace Core

/-- The inputs of `exec_comb` in a cycle. -/
def execIn (entry : BitVec 32) (s : Core) (i : CoreIn) : ExecIn :=
  { rst := i.rstComb, entry := entry, exPc := s.wb.exPc, wbStall := s.wb.wbStall, idEx := s.idEx,
    dmmuRsp := i.dmmuRsp, mextRspAck := i.mextRspAck, mextResult := i.mextResult,
    platform := i.platform }

/-- The decision of `exec_comb` in a cycle. -/
def comb (entry : BitVec 32) (s : Core) (i : CoreIn) : ExecComb :=
  s.exec.execComb (s.execIn entry i)

/-- The outputs of `exec_comb` in a cycle. -/
def out (entry : BitVec 32) (s : Core) (i : CoreIn) : ExecOut :=
  s.exec.execOut (s.execIn entry i) (s.comb entry i)

/-- The operand sources of the decoder in a cycle. -/
def forward (entry : BitVec 32) (s : Core) (i : CoreIn) : Forward :=
  let o := s.out entry i
  { exWriteRd := o.exWriteRd, exRdVal := o.exRdVal, exRd := o.exRd, wbWriteRd := s.wb.wbWriteRd,
    wbRdVal := s.wb.wbRdVal, wbRd := s.wb.wbRd, regs := s.regs }

/-- `RegFile::write_seq`. -/
def writeSeq (wb : Writeback) (regs : BitVec 5 → BitVec 32) : BitVec 5 → BitVec 32 :=
  if wb.wbWriteRd && wb.wbRd != 0 then Function.update regs wb.wbRd wb.wbRdVal else regs

/-- One clock cycle. -/
def step (entry : BitVec 32) (s : Core) (i : CoreIn) : Core :=
  let c := s.comb entry i
  let o := s.out entry i
  { exec := s.exec.execSeq s.idEx c i.mtime
    wb := writebackSeq i.rst entry s.idEx o
    idEx := instDecodeSeq i.rst o.stall o.flush o.npc (s.forward entry i) i.ifId s.idEx
    regs := writeSeq s.wb s.regs
    mextReqAck := c.mextReq.getD s.mextReqAck }

/-- The states right after the first reset cycle of a powered-up machine. -/
def Started (entry : BitVec 32) (s : Core) : Prop :=
  ∃ i : CoreIn, i.rst = true ∧ s = step entry {} i

/-- The states that a run from reset can visit. -/
def Reachable (entry : BitVec 32) : Core → Prop :=
  Clocked.Reachable (step entry) (Started entry)

end Core

end Turtle
