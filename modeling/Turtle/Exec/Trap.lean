import Turtle.Pmp

/-!
# Privilege, interrupts and traps

The part of `EXEC` that owns the privilege level and the control and status
registers: interrupt selection, trap entry, trap return and the masks of CSR
writes. The registers are signals, so every function here reads the values from
before the clock edge.
-/

namespace Turtle

/-- The members of `EXEC` that survive a clock edge, apart from the write-back
registers: privilege, PMP and the 4096 control and status registers. -/
structure Exec where
  priv : BitVec 32 := privM
  pmp : Pmp := {}
  csrRegs : BitVec 12 → BitVec 32 := fun _ => 0

/-- What `EXEC` reads from the platform devices: the CLINT timer and, when there
is a PLIC, its two interrupt lines for the hart. -/
structure Platform where
  mtime : BitVec 64 := 0
  mtimecmp : BitVec 64 := 0
  plic : Option (BitVec 32 × BitVec 32) := none
  deriving DecidableEq, Repr

/-- `plic && plic->core0_m_irq != 0`. -/
def Platform.mIrq (p : Platform) : Bool := p.plic.elim false fun irq => irq.1 != 0

/-- `plic && plic->core0_s_irq != 0`. -/
def Platform.sIrq (p : Platform) : Bool := p.plic.elim false fun irq => irq.2 != 0

namespace Exec

/-- Write one control and status register. -/
def write (e : Exec) (a : BitVec 12) (v : BitVec 32) : Exec :=
  { e with csrRegs := Function.update e.csrRegs a v }

/-- `EXEC::reset_csr_registers`, run by the constructor over signals that start
at zero. Only `mstatus` and `misa` receive a value other than zero. -/
def resetCsrRegisters (e : Exec) : Exec :=
  ((e.write Csr.mstatus 0x00001800).write Csr.misa
    ((1#32 <<< 30) ||| (1#32 <<< 8) ||| (1#32 <<< 12) ||| (1#32 <<< 20) ||| (1#32 <<< 18) |||
      (1#32 <<< 2) ||| 1))

/-- The state that the constructor of `EXEC` leaves. -/
def init : Exec := resetCsrRegisters {}

/-- The 64-bit supervisor timer compare value. -/
def stimecmp (e : Exec) : BitVec 64 :=
  ((e.csrRegs Csr.stimecmph).setWidth 64 <<< 32) ||| (e.csrRegs Csr.stimecmp).setWidth 64

/-- `EXEC::get_mip`. -/
def getMip (e : Exec) (p : Platform) : BitVec 32 :=
  let mip := e.csrRegs Csr.mip
  let mip := if e.stimecmp < p.mtime then mip ||| Mip.stip else mip
  let mip := if p.mtimecmp < p.mtime then mip ||| Mip.mtip else mip
  let mip := if p.mIrq then mip ||| Mip.meip else mip
  if p.sIrq then mip ||| Mip.seip else mip

/-- The interrupts that may be taken now: the local `final_int` of
`check_interrupt` before the priority choice. -/
def takeable (e : Exec) (p : Platform) : BitVec 32 :=
  let pending := e.getMip p &&& e.csrRegs Csr.mie
  let mideleg := e.csrRegs Csr.mideleg
  let mstatus := e.csrRegs Csr.mstatus
  let sEn := (e.priv == privS && mstatus &&& Mstatus.sie != 0) || decide (e.priv < privS)
  let mEn := (mstatus &&& Mstatus.mie != 0 && e.priv == privM) || decide (e.priv < privM)
  (if mEn then pending &&& ~~~mideleg else 0) ||| (if sEn then pending &&& mideleg else 0)

/-- The priority choice of `check_interrupt` among the takeable interrupts. -/
def highestPriority (finalInt : BitVec 32) : BitVec 32 :=
  if finalInt &&& Mip.meip ≠ 0 then Mip.meip
  else if finalInt &&& Mip.msip ≠ 0 then Mip.msip
  else if finalInt &&& Mip.mtip ≠ 0 then Mip.mtip
  else if finalInt &&& Mip.seip ≠ 0 then Mip.seip
  else if finalInt &&& Mip.ssip ≠ 0 then Mip.ssip
  else if finalInt &&& Mip.stip ≠ 0 then Mip.stip
  else finalInt

/-- `EXEC::check_interrupt`: the cause of the interrupt to take, if any. -/
def checkInterrupt (e : Exec) (p : Platform) : Option (BitVec 32) :=
  if e.takeable p = 0 then none
  else some ((1#32 <<< 31) ||| (highestPriority (e.takeable p)).ctz)

/-- The delegation test that `trap` and `trap_pc` both spell out. -/
def delegatedToS (e : Exec) (cause : BitVec 32) : Bool :=
  let causeId := cause &&& 0x3ff
  if cause &&& 0x80000000 ≠ 0 then
    if e.priv < privM ∧ e.csrRegs Csr.mstatus &&& Mstatus.sie ≠ 0 then
      (e.csrRegs Csr.mideleg >>> causeId.toNat) &&& 1 == 1
    else false
  else if e.priv < privM then (e.csrRegs Csr.medeleg >>> causeId.toNat) &&& 1 == 1
  else false

/-- The handler address that an `xtvec` value gives for a cause. -/
def vector (tvec cause : BitVec 32) : BitVec 32 :=
  if tvec &&& 1 ≠ 0 then (tvec &&& ~~~3) + 4 * ((cause &&& 0x3ff) &&& 0x3ff)
  else tvec &&& ~~~1

/-- `EXEC::trap_pc`. -/
def trapPc (e : Exec) (cause : BitVec 32) : BitVec 32 :=
  if e.delegatedToS cause then vector (e.csrRegs Csr.stvec) cause
  else vector (e.csrRegs Csr.mtvec) cause

/-- The `mstatus` written by a trap into S-mode from privilege `priv`. -/
def trapMstatusS (mstatus priv : BitVec 32) : BitVec 32 :=
  let sie := (mstatus &&& Mstatus.sie) >>> Mstatus.sieShift
  let m := (mstatus &&& ~~~Mstatus.spie) ||| (sie <<< Mstatus.spieShift)
  let m := m &&& ~~~Mstatus.sie
  let sppVal : BitVec 32 := if priv = privS then 1 else 0
  (m &&& ~~~Mstatus.spp) ||| (sppVal <<< Mstatus.sppShift)

/-- The `mstatus` written by a trap into M-mode from privilege `priv`. The `MPP`
field is merged in, not replaced. -/
def trapMstatusM (mstatus priv : BitVec 32) : BitVec 32 :=
  let mie := (mstatus &&& Mstatus.mie) >>> Mstatus.mieShift
  let m := (mstatus &&& ~~~Mstatus.mpie) ||| (mie <<< Mstatus.mpieShift)
  let m := m &&& ~~~Mstatus.mie
  m ||| (priv <<< Mstatus.mppShift)

/-- `EXEC::trap`. -/
def trap (e : Exec) (cause tval epc : BitVec 32) : Exec :=
  let mstatus := e.csrRegs Csr.mstatus
  if e.delegatedToS cause then
    { ((((e.write Csr.scause cause).write Csr.sepc (epc &&& ~~~1)).write Csr.stval tval).write
        Csr.mstatus (trapMstatusS mstatus e.priv)) with priv := privS }
  else
    { ((((e.write Csr.mcause cause).write Csr.mepc (epc &&& ~~~1)).write Csr.mtval tval).write
        Csr.mstatus (trapMstatusM mstatus e.priv)) with priv := privM }

/-- The field `(mstatus & MSTATUS_MPP) >> MSTATUS_MPP_SHIFT`. -/
def mppField (mstatus : BitVec 32) : BitVec 32 := (mstatus &&& Mstatus.mpp) >>> Mstatus.mppShift

/-- The field `(mstatus & MSTATUS_SPP) >> MSTATUS_SPP_SHIFT`. -/
def sppField (mstatus : BitVec 32) : BitVec 32 := (mstatus &&& Mstatus.spp) >>> Mstatus.sppShift

/-- The `mstatus` written by `MRET`. -/
def mretMstatus (mstatus : BitVec 32) : BitVec 32 :=
  let m := if mppField mstatus ≠ privM then mstatus &&& ~~~Mstatus.mprv else mstatus
  let m := m &&& ~~~Mstatus.mpp
  let mpie := (m &&& Mstatus.mpie) >>> Mstatus.mpieShift
  (m ||| (mpie <<< Mstatus.mieShift)) ||| Mstatus.mpie

/-- The `mstatus` written by `SRET`. -/
def sretMstatus (mstatus : BitVec 32) : BitVec 32 :=
  let m := if sppField mstatus ≠ privM then mstatus &&& ~~~Mstatus.mprv else mstatus
  let m := m &&& ~~~Mstatus.spp
  let spie := (m &&& Mstatus.spie) >>> Mstatus.spieShift
  (m ||| (spie <<< Mstatus.sieShift)) ||| Mstatus.spie

/-- `EXEC::return_from_trap`. -/
def returnFromTrap (e : Exec) (mmode : Bool) : Exec :=
  let mstatus := e.csrRegs Csr.mstatus
  if mmode then { e.write Csr.mstatus (mretMstatus mstatus) with priv := mppField mstatus }
  else { e.write Csr.mstatus (sretMstatus mstatus) with priv := sppField mstatus }

/-- `EXEC::pmp_dcheck`. -/
def pmpDcheck (e : Exec) (addr : BitVec 64) (op size : BitVec 8) : Bool :=
  let mstatus := e.csrRegs Csr.mstatus
  if mstatus &&& Mstatus.mprv ≠ 0 then e.pmp.dcheck addr op size (mppField mstatus)
  else e.pmp.dcheck addr op size e.priv

/-- `EXEC::pmp_icheck`. -/
def pmpIcheck (e : Exec) (addr : BitVec 64) (op size : BitVec 8) : Bool :=
  e.pmp.icheck addr op size e.priv

/-- `EXEC::csr_mask`: the writable bits of a register. -/
def csrMask (e : Exec) (addr : BitVec 12) : BitVec 32 :=
  if addr = Csr.mstatus then Mstatus.mask
  else if addr = Csr.mip then Mip.wmask
  else if addr = Csr.sstatus then Mstatus.sstatusMask
  else if addr = Csr.sip then Mip.sipWmask
  else if addr = Csr.sie then e.csrRegs Csr.mideleg
  else if addr = Csr.misa ∨ addr = Csr.tselect ∨ addr = Csr.tdata1 ∨ addr = Csr.tdata2 ∨
      addr = Csr.tdata3 ∨ addr = Csr.mcontext ∨ addr = Csr.mhartid then 0
  else -1

/-- `EXEC::csr_wdata`: the value a CSR instruction writes over `curVal`; any
other instruction gives `curVal` back. -/
def csrWdata (e : Exec) (idEx : IdEx) (addr : BitVec 12) (curVal : BitVec 32) : BitVec 32 :=
  let mask := e.csrMask addr
  match idEx.type with
  | .csrrw | .csrrwi => (curVal &&& ~~~mask) ||| (idEx.csrVal &&& mask)
  | .csrrs | .csrrsi => curVal ||| (idEx.csrVal &&& mask)
  | .csrrc | .csrrci => curVal &&& ~~~(idEx.csrVal &&& mask)
  | _ => curVal

end Exec

end Turtle
