import Turtle.Exec.Comb

/-!
# The clocked half of the execute stage

`EXEC::exec_seq` and `EXEC::writeback_seq` run at the rising clock edge, on the
decision that `exec_comb` left and on the `ID_EX` record of the same cycle.
-/

namespace Turtle

namespace Exec

/-- The addresses that the `switch` of `exec_seq` names without writing them. -/
def fixedCsr (addr : BitVec 12) : Bool :=
  addr == Csr.mcycle || addr == Csr.mcycleh || addr == Csr.minstret || addr == Csr.minstreth ||
    addr == Csr.misa || addr == Csr.tselect || addr == Csr.tdata1 || addr == Csr.tdata2 ||
    addr == Csr.tdata3 || addr == Csr.mcontext || addr == Csr.mhartid

/-- The hard-wired zero addresses of the `default` arm. The two PMP ranges of the
source are empty: their lower bounds lie above their upper bounds. -/
def hardwiredCsr (addr : BitVec 12) : Bool :=
  (decide (Csr.pmpaddr0 + 16 ≤ addr) && decide (addr < Csr.pmpconfig0 + 16)) ||
    (decide (Csr.pmpaddr0 + 64 ≤ addr) && decide (addr < Csr.pmpaddr0 + 64)) ||
    (decide (Csr.mcycle + 2 < addr) && decide (addr < Csr.mcycle + 32)) ||
    (decide (Csr.mcycleh + 2 < addr) && decide (addr < Csr.mcycleh + 32))

/-- The CSR write of `exec_seq` for an instruction that accessed a register. -/
def csrWrite (e : Exec) (idEx : IdEx) (val : BitVec 32) : Exec :=
  let addr := idEx.csrAddr
  if addr = Csr.sstatus then
    e.write Csr.mstatus (e.csrWdata idEx addr (e.csrRegs Csr.mstatus))
  else if addr = Csr.sie then e.write Csr.mie (e.csrWdata idEx addr (e.csrRegs Csr.mie))
  else if addr = Csr.sip ∨ addr = Csr.mip then
    e.write Csr.mip (e.csrWdata idEx addr (e.csrRegs Csr.mip))
  else if fixedCsr addr then e
  else if isPmpConfig addr && e.priv == 3 then
    { e with pmp := e.pmp.updateConfig (pmpConfigIdx addr) val }
  else if isPmpAddr addr && e.priv == 3 then
    { e with pmp := e.pmp.updateAddr (pmpAddrIdx addr) val }
  else if hardwiredCsr addr then e
  else e.write addr val

/-- The first half of the body of `exec_seq`: trap entry, trap return or CSR write. -/
def commit (e : Exec) (idEx : IdEx) (c : ExecComb) : Exec :=
  if c.onTrap then e.trap c.cause c.tval c.epc
  else if c.csrSret || c.csrMret then e.returnFromTrap c.csrMret
  else if c.csrAccess then e.csrWrite idEx (e.csrWdata idEx idEx.csrAddr c.exRdVal)
  else e

/-- The local `inst_ret`: whether the cycle counts in `minstret`. -/
def instRet (idEx : IdEx) (c : ExecComb) : Bool :=
  if c.onTrap then
    (c.cause == ExceptionCause.ecallM.code || c.cause == ExceptionCause.ecallS.code ||
      c.cause == ExceptionCause.ecallU.code || c.cause == ExceptionCause.breakpoint.code) ||
      (c.cause &&& 0x80000000 != 0 && idEx.type == .wfi)
  else !c.stall

/-- The update of one 64-bit counter, given the registers `old` from before the
edge. An instruction record that carries the address of either half gets `val`
stored there; otherwise the pair counts when `counts` holds. -/
def counterUpdate (old : Exec) (addr : BitVec 12) (val : BitVec 32) (lo hi : BitVec 12)
    (counts : Bool) (e : Exec) : Exec :=
  if addr = lo then e.write lo val
  else if addr = hi then e.write hi val
  else if counts then
    (e.write lo (old.csrRegs lo + 1)).write hi
      (old.csrRegs hi + (if old.csrRegs lo = -1 then 1 else 0))
  else e

/-- Bit 0 of `mcountinhibit` is clear. -/
def cycleEnabled (e : Exec) : Bool := e.csrRegs Csr.mcounterinhibit &&& 1 == 0

/-- Bit 2 of `mcountinhibit` is clear. -/
def instretEnabled (e : Exec) : Bool := e.csrRegs Csr.mcounterinhibit &&& 4 == 0

/-- The body of `EXEC::exec_seq`. The registers are signals: each write takes
effect after the edge, and the last one to a register wins. -/
def execSeq (e : Exec) (idEx : IdEx) (c : ExecComb) (mtime : BitVec 64) : Exec :=
  let val := e.csrWdata idEx idEx.csrAddr c.exRdVal
  let e₁ := e.commit idEx c
  let e₂ := (e₁.write Csr.time (mtime.setWidth 32)).write Csr.timeh ((mtime >>> 32).setWidth 32)
  let e₃ := counterUpdate e idEx.csrAddr val Csr.mcycle Csr.mcycleh e.cycleEnabled e₂
  counterUpdate e idEx.csrAddr val Csr.minstret Csr.minstreth
    (e.instretEnabled && instRet idEx c) e₃

end Exec

/-- The registers written by `EXEC::writeback_seq`. -/
structure Writeback where
  wbStall : Bool := false
  wbWriteRd : Bool := false
  wbRdVal : BitVec 32 := 0
  wbRd : BitVec 5 := 0
  wbPc : BitVec 32 := 0
  wbType : InstrType := .nop
  exPc : BitVec 32 := 0
  deriving DecidableEq, Repr

/-- `EXEC::writeback_seq`. -/
def writebackSeq (rst : Bool) (entry : BitVec 32) (idEx : IdEx) (o : ExecOut) : Writeback :=
  if rst then { exPc := entry }
  else
    { wbStall := o.stall, wbWriteRd := o.exWriteRd, wbRdVal := o.exRdVal, wbRd := o.exRd,
      wbPc := idEx.pc, wbType := idEx.type, exPc := o.npc }

end Turtle
