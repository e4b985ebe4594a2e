import Turtle.Memory

/-!
# The peripherals

The UART, the CLINT, the interrupt controller and the device that ends an
architecture test. Every access moves one byte. The characters that the UART and
the test device print are not modelled.
-/

namespace Turtle

/-! ### UART -/

/-- `UART_DEV`. The input buffer is a ring of 128 bytes. -/
structure Uart where
  iir : BitVec 32 := 1
  ier : BitVec 32 := 0
  lcr : BitVec 32 := 0
  uartBufBegin : BitVec 32 := 0
  uartBufEnd : BitVec 32 := 0
  uartBuf : BitVec 32 → BitVec 8 := fun _ => 0
  thri : Bool := false
  dlm : BitVec 32 := 0
  dll : BitVec 32 := 0

namespace Uart

/-- `UART_BASE`. -/
def base : BitVec 32 := 0x10000000

/-- `UART_TOP`. -/
def top : BitVec 32 := 0x10000100

/-- `UART_BUF_SIZE`. -/
def uartBufSize : BitVec 32 := 128

/-- `keyboard_input`: characters that find the buffer full are dropped. -/
def keyboardInput (u : Uart) : List (BitVec 8) → Uart
  | [] => u
  | c :: s =>
    let nxtEnd := if u.uartBufEnd + 1 ≠ uartBufSize then u.uartBufEnd + 1 else 0
    if nxtEnd = u.uartBufBegin then u
    else keyboardInput
      { u with uartBuf := Function.update u.uartBuf u.uartBufEnd c, uartBufEnd := nxtEnd } s

/-- `uart_irq`: the interrupt line, and the identification register it leaves. -/
def uartIrq (u : Uart) : Bool × Uart :=
  if u.uartBufEnd ≠ u.uartBufBegin ∧ u.ier &&& 1 ≠ 0 then (true, { u with iir := 4 })
  else if u.ier &&& 2 ≠ 0 ∧ u.thri = true then (true, { u with iir := 2 })
  else (false, { u with iir := 1 })

/-- `dlab`: bit 7 of the line control register. -/
def dlab (u : Uart) : Bool := (u.lcr >>> 7) &&& 1 != 0

/-- `UART_DEV::read`. -/
def read (addr : BitVec 32) (u : Uart) : BitVec 8 × Uart :=
  let offset := addr - base
  if offset = 0 then
    if u.dlab then (u.dll.setWidth 8, u)
    else if u.uartBufEnd ≠ u.uartBufBegin then
      let val := u.uartBuf u.uartBufBegin
      let u := { u with uartBufBegin := u.uartBufBegin + 1 }
      let u := if uartBufSize ≤ u.uartBufBegin then { u with uartBufBegin := 0 } else u
      (val, u.uartIrq.2)
    else (0, u)
  else if offset = 1 then (if u.dlab then u.dlm.setWidth 8 else u.ier.setWidth 8, u)
  else if offset = 2 then
    let u := u.uartIrq.2
    (u.iir.setWidth 8, { u with thri := false })
  else if offset = 3 then (u.lcr.setWidth 8, u)
  else if offset = 5 then (0x60 ||| (if u.uartBufEnd ≠ u.uartBufBegin then 1 else 0), u)
  else (0, u)

/-- `UART_DEV::write`. -/
def write (addr : BitVec 32) (val : BitVec 8) (u : Uart) : Uart :=
  let offset := addr - base
  if offset = 0 then
    if u.dlab then { u with dll := val.setWidth 32 } else { u with thri := true }.uartIrq.2
  else if offset = 1 then
    if u.dlab then { u with dlm := val.setWidth 32 } else { u with ier := val.setWidth 32 }.uartIrq.2
  else if offset = 3 then { u with lcr := val.setWidth 32 }
  else u

end Uart

/-! ### CLINT -/

/-- `CLINT_DEV`. -/
structure Clint where
  mtime : BitVec 64 := 0
  mtimecmp : BitVec 64 := 0

namespace Clint

/-- `CLINT_BASE`. -/
def base : BitVec 32 := 0x20000000

/-- `CLINT_TOP`. -/
def top : BitVec 32 := 0x20010000

/-- `CLINT_DEV::read`: the bytes of `mtime`. -/
def read (addr : BitVec 32) (c : Clint) : BitVec 8 × Clint :=
  let off := addr - base
  if 0xbff8 ≤ off ∧ off < 0xc000 then
    let shift := (off - 0xbff8) * 8
    ((c.mtime >>> shift.toNat).setWidth 8, c)
  else (0, c)

/-- `CLINT_DEV::write`: the bytes of `mtimecmp`. -/
def write (addr : BitVec 32) (val : BitVec 8) (c : Clint) : Clint :=
  let off := addr - base
  if 0x4000 ≤ off ∧ off < 0x4008 then
    let shift := (off - 0x4000) * 8
    let tmp := val.setWidth 64 <<< shift.toNat
    let mask := 0xff#64 <<< shift.toNat
    { c with mtimecmp := (c.mtimecmp &&& ~~~mask) ||| (tmp &&& mask) }
  else c

end Clint

/-! ### The test device -/

/-- `RVTEST_DEV`, at the address of `tohost`. `stop` is the value with which the test
stopped the simulation. -/
structure RvTest where
  stop : Option (BitVec 8) := none

namespace RvTest

/-- The inherited top of a test device. -/
def top (tohost : BitVec 32) : BitVec 32 := tohost + 4

/-- `RVTEST_DEV::read`. -/
def read (r : RvTest) : BitVec 8 × RvTest := (0, r)

/-- `RVTEST_DEV::write`. -/
def write (tohost addr : BitVec 32) (val : BitVec 8) (r : RvTest) : RvTest :=
  if addr = tohost then { r with stop := some val } else r

end RvTest

/-! ### PLIC -/

/-- The two contexts of hart 0: M-mode and S-mode. -/
inductive PlicCtx
  | m | s
  deriving DecidableEq, Repr

instance {P : PlicCtx → Prop} [DecidablePred P] : Decidable (∀ c, P c) :=
  decidable_of_iff (P .m ∧ P .s)
    ⟨fun h c => match c with | .m => h.1 | .s => h.2, fun h => ⟨h .m, h .s⟩⟩

/-- The registers of a context: `core0_m_*` and `core0_s_*`. -/
structure PlicRegs where
  threshold : BitVec 32 := 0
  clm : BitVec 32 := 0
  irq : BitVec 32 := 0
  cmplt : BitVec 32 := 0
  enable : BitVec 32 := 0
  deriving DecidableEq, Repr

/-- `PLIC_DEV`, with the UART as its only source. -/
structure Plic where
  uartPriority : BitVec 32 := 0
  sourcePending : BitVec 32 := 0
  core0 : PlicCtx → PlicRegs := fun _ => {}
  claimMask : BitVec 32 := 0

namespace Plic

/-- `PLIC_BASE`. -/
def base : BitVec 32 := 0x30000000

/-- `PLIC_TOP`. -/
def top : BitVec 32 := 0x34000000

/-- `CNTXT_0_CLM_CMPLT_THRESHOLD_ADDR` and `CNTXT_1_CLM_CMPLT_THRESHOLD_ADDR`. -/
def thresholdAddr : PlicCtx → BitVec 32
  | .m => base + 0x200000
  | .s => base + 0x201000

/-- `CNTXT_0_CLM_CMPLT_ADDR` and `CNTXT_1_CLM_CMPLT_ADDR`. -/
def clmCmpltAddr : PlicCtx → BitVec 32
  | .m => base + 0x200004
  | .s => base + 0x201004

/-- `UART_PRIORITY_ADDR`. -/
def uartPriorityAddr : BitVec 32 := base + 0x28

/-- `SOURCE_PENDING_ADDR`. -/
def sourcePendingAddr : BitVec 32 := base + 0x1000

/-- `CNTXT_0_ENABLE_ADDR` and `CNTXT_1_ENABLE_ADDR`. -/
def enableAddr : PlicCtx → BitVec 32
  | .m => base + 0x2000
  | .s => base + 0x2080

/-- Replace the registers of one context. -/
def set (p : Plic) (c : PlicCtx) (r : PlicRegs) : Plic :=
  { p with core0 := Function.update p.core0 c r }

@[simp] theorem set_core0_self {p : Plic} {c : PlicCtx} {r : PlicRegs} :
    (p.set c r).core0 c = r := Function.update_self ..

@[simp] theorem set_core0_of_ne {p : Plic} {c d : PlicCtx} {r : PlicRegs} (h : d ≠ c) :
    (p.set c r).core0 d = p.core0 d := Function.update_of_ne h ..

@[simp] theorem set_claimMask {p : Plic} {c : PlicCtx} {r : PlicRegs} :
    (p.set c r).claimMask = p.claimMask := rfl

@[simp] theorem set_sourcePending {p : Plic} {c : PlicCtx} {r : PlicRegs} :
    (p.set c r).sourcePending = p.sourcePending := rfl

@[simp] theorem set_uartPriority {p : Plic} {c : PlicCtx} {r : PlicRegs} :
    (p.set c r).uartPriority = p.uartPriority := rfl

/-- `1 << n`. A shift by the width or more is undefined; `undef` is what it gives. -/
def oneShl (undef : BitVec 32 → BitVec 32) (n : BitVec 32) : BitVec 32 :=
  if n < 32 then 1 <<< n.toNat else undef n

/-- A claim that was completed is over: the first part of `update`. -/
def retire (c : PlicCtx) (p : Plic) : Plic :=
  let r := p.core0 c
  if r.cmplt = r.clm then p.set c { r with clm := 0, irq := 0 } else p

/-- The interrupt line of a context: the second part of `update`. -/
def notify (c : PlicCtx) (p : Plic) : Plic :=
  let r := p.core0 c
  if p.sourcePending &&& (1#32 <<< 10) ≠ 0 ∧ r.enable &&& (1#32 <<< 10) ≠ 0 ∧
      r.threshold < p.uartPriority then p.set c { r with irq := 10 }
  else p.set c { r with irq := r.clm }

/-- Both completion registers are forgotten: the end of `update`. -/
def forget (p : Plic) : Plic :=
  { p with core0 := fun c => { p.core0 c with cmplt := 0 } }

/-- `PLIC_DEV::update`, given the interrupt line of the UART. -/
def update (uartIrq : Bool) (p : Plic) : Plic :=
  let p := (p.retire .m).retire .s
  let p :=
    { p with sourcePending := ((if uartIrq then 1#32 else 0#32) <<< 10) &&& ~~~p.claimMask }
  ((p.notify .m).notify .s).forget

/-- A byte read of a claim register: the context takes what its line shows. -/
def claim (undef : BitVec 32 → BitVec 32) (c : PlicCtx) (p : Plic) : Plic :=
  let r := p.core0 c
  { p with claimMask := p.claimMask ||| oneShl undef r.clm }.set c { r with clm := r.irq }

/-- A byte write to a register: the bits of `mask` are replaced. -/
def merge (old : BitVec 32) (off : ℕ) (val : BitVec 8) : BitVec 32 :=
  (old &&& ~~~(0xff#32 <<< off)) ||| (val.setWidth 32 <<< off)

/-- A byte write to a completion register. -/
def complete (undef : BitVec 32 → BitVec 32) (c : PlicCtx) (off : ℕ) (val : BitVec 8) (p : Plic) :
    Plic :=
  let r := p.core0 c
  { p with claimMask := p.claimMask &&& ~~~(oneShl undef r.cmplt) }.set c
    { r with cmplt := merge r.cmplt off val }

/-- `off`: the distance of a byte from the start of its register, in bits. -/
def offset (addr : BitVec 32) : ℕ := ((addr &&& 3) * 8).toNat

/-- The body of `PLIC_DEV::read`, for the byte at bit `off` of the register at `addr`. -/
def readAt (undef : BitVec 32 → BitVec 32) (addr : BitVec 32) (off : ℕ) (p : Plic) :
    BitVec 8 × Plic :=
  let byte (v : BitVec 32) : BitVec 8 := (v >>> off).setWidth 8
  if addr = thresholdAddr .m then (byte (p.core0 .m).threshold, p)
  else if addr = thresholdAddr .s then (byte (p.core0 .s).threshold, p)
  else if addr = clmCmpltAddr .m then (byte ((p.claim undef .m).core0 .m).clm, p.claim undef .m)
  else if addr = clmCmpltAddr .s then (byte ((p.claim undef .s).core0 .s).clm, p.claim undef .s)
  else if addr = uartPriorityAddr then (byte p.uartPriority, p)
  else if addr = sourcePendingAddr then (byte p.sourcePending, p)
  else if addr = enableAddr .m then (byte (p.core0 .m).enable, p)
  else if addr = enableAddr .s then (byte (p.core0 .s).enable, p)
  else (0, p)

/-- `PLIC_DEV::read`. -/
def read (undef : BitVec 32 → BitVec 32) (addr : BitVec 32) (p : Plic) : BitVec 8 × Plic :=
  p.readAt undef (addr &&& ~~~3) (offset addr)

/-- The body of `PLIC_DEV::write`, for the byte at bit `off` of the register at `addr`. -/
def writeAt (undef : BitVec 32 → BitVec 32) (addr : BitVec 32) (off : ℕ) (val : BitVec 8)
    (p : Plic) : Plic :=
  let m := p.core0 .m
  let s := p.core0 .s
  if addr = thresholdAddr .m then p.set .m { m with threshold := merge m.threshold off val }
  else if addr = thresholdAddr .s then p.set .s { s with threshold := merge s.threshold off val }
  else if addr = clmCmpltAddr .m then p.complete undef .m off val
  else if addr = clmCmpltAddr .s then p.complete undef .s off val
  else if addr = uartPriorityAddr then { p with uartPriority := merge p.uartPriority off val }
  else if addr = sourcePendingAddr then p
  else if addr = enableAddr .m then p.set .m { m with enable := merge m.enable off val }
  else if addr = enableAddr .s then p.set .s { s with enable := merge s.enable off val }
  else p

/-- `PLIC_DEV::write`. -/
def write (undef : BitVec 32 → BitVec 32) (addr : BitVec 32) (val : BitVec 8) (p : Plic) : Plic :=
  p.writeAt undef (addr &&& ~~~3) (offset addr) val

end Plic

end Turtle
