import Turtle.Signals

/-!
# Control and status register constants

Addresses, masks and exception codes of `csr_cfg.hpp`, under the names of the
source. Masks are written as the shifts that the macros use.
-/

namespace Turtle

/-- `RV_PRIV_U_MODE`. -/
def privU : BitVec 32 := 0

/-- `RV_PRIV_S_MODE`. -/
def privS : BitVec 32 := 1

/-- `RV_PRIV_M_MODE`. -/
def privM : BitVec 32 := 3

namespace Mstatus

def sieShift : ℕ := 1
def mieShift : ℕ := 3
def spieShift : ℕ := 5
def mpieShift : ℕ := 7
def sppShift : ℕ := 8
def mppShift : ℕ := 11
def mprvShift : ℕ := 17
def sumShift : ℕ := 18
def mxrShift : ℕ := 19
def tvmShift : ℕ := 20
def twShift : ℕ := 21
def tsrShift : ℕ := 22

def sie : BitVec 32 := 1#32 <<< sieShift
def mie : BitVec 32 := 1#32 <<< mieShift
def spie : BitVec 32 := 1#32 <<< spieShift
def mpie : BitVec 32 := 1#32 <<< mpieShift
def spp : BitVec 32 := 1#32 <<< sppShift
def mpp : BitVec 32 := 3#32 <<< mppShift
def mprv : BitVec 32 := 1#32 <<< mprvShift
def sum : BitVec 32 := 1#32 <<< sumShift
def mxr : BitVec 32 := 1#32 <<< mxrShift
def tvm : BitVec 32 := 1#32 <<< tvmShift
def tw : BitVec 32 := 1#32 <<< twShift
def tsr : BitVec 32 := 1#32 <<< tsrShift
def fs : BitVec 32 := 3#32 <<< 13
def vs : BitVec 32 := 3#32 <<< 9
def xs : BitVec 32 := 3#32 <<< 15
def sd : BitVec 32 := 1#32 <<< 31

/-- `MSTATUS_MASK`: everything but the extension status fields. -/
def mask : BitVec 32 := ~~~(fs ||| vs ||| xs ||| sd)

/-- `SSTATUS_MASK`: the bits of `mstatus` that `sstatus` shows. -/
def sstatusMask : BitVec 32 := sie ||| spie ||| spp ||| sum ||| mxr

end Mstatus

namespace Mip

def ssip : BitVec 32 := 1#32 <<< 1
def msip : BitVec 32 := 1#32 <<< 3
def stip : BitVec 32 := 1#32 <<< 5
def mtip : BitVec 32 := 1#32 <<< 7
def seip : BitVec 32 := 1#32 <<< 9
def meip : BitVec 32 := 1#32 <<< 11

/-- `MIP_WMASK`: the writable bits of `mip`. -/
def wmask : BitVec 32 := ssip ||| seip

/-- `SIP_WMASK`: the writable bits of `sip`. -/
def sipWmask : BitVec 32 := ssip

/-- `MIP_RMASK`, the readable bits, which are those of `MIE_MASK`. -/
def rmask : BitVec 32 := ssip ||| msip ||| stip ||| mtip ||| seip ||| meip

end Mip

/-- `ExceptionCause`: the synchronous exceptions. -/
inductive ExceptionCause
  | instrAddrMisaligned | instrAccessFault | illegalInstr | breakpoint
  | loadAddrMisaligned | loadAccessFault | storeAddrMisaligned | storeAccessFault
  | ecallU | ecallS | ecallM | instrPageFault | loadPageFault | storePageFault
  deriving DecidableEq, Repr

/-- The numeric code that the source assigns to an exception. -/
def ExceptionCause.code : ExceptionCause → BitVec 32
  | .instrAddrMisaligned => 0
  | .instrAccessFault => 1
  | .illegalInstr => 2
  | .breakpoint => 3
  | .loadAddrMisaligned => 4
  | .loadAccessFault => 5
  | .storeAddrMisaligned => 6
  | .storeAccessFault => 7
  | .ecallU => 8
  | .ecallS => 9
  | .ecallM => 11
  | .instrPageFault => 12
  | .loadPageFault => 13
  | .storePageFault => 15

namespace Csr

def mstatus : BitVec 12 := 0x300
def misa : BitVec 12 := 0x301
def medeleg : BitVec 12 := 0x302
def mideleg : BitVec 12 := 0x303
def mie : BitVec 12 := 0x304
def mtvec : BitVec 12 := 0x305
def mcounteren : BitVec 12 := 0x306
def mcounterinhibit : BitVec 12 := 0x320
def mscratch : BitVec 12 := 0x340
def mepc : BitVec 12 := 0x341
def mcause : BitVec 12 := 0x342
def mtval : BitVec 12 := 0x343
def mip : BitVec 12 := 0x344
def tselect : BitVec 12 := 0x7A0
def tdata1 : BitVec 12 := 0x7A1
def tdata2 : BitVec 12 := 0x7A2
def tdata3 : BitVec 12 := 0x7A3
def mcontext : BitVec 12 := 0x7A8
def mhartid : BitVec 12 := 0xF14
def mcycle : BitVec 12 := 0xB00
def minstret : BitVec 12 := 0xB02
def mcycleh : BitVec 12 := 0xB80
def minstreth : BitVec 12 := 0xB82
def pmpconfig0 : BitVec 12 := 0x3A0
def pmpaddr0 : BitVec 12 := 0x3B0
def sstatus : BitVec 12 := 0x100
def sie : BitVec 12 := 0x104
def stvec : BitVec 12 := 0x105
def sscratch : BitVec 12 := 0x140
def sepc : BitVec 12 := 0x141
def scause : BitVec 12 := 0x142
def stval : BitVec 12 := 0x143
def sip : BitVec 12 := 0x144
def stimecmp : BitVec 12 := 0x14D
def stimecmph : BitVec 12 := 0x15D
def satp : BitVec 12 := 0x180
def cycle : BitVec 12 := 0xC00
def time : BitVec 12 := 0xC01
def cycleh : BitVec 12 := 0xC80
def timeh : BitVec 12 := 0xC81

end Csr

end Turtle
