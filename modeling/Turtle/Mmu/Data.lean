import Turtle.Exec.Trap
import Turtle.Tlb

/-!
# The data side of the MMU

`MMU::dmem_req_seq` and `MMU::dmem_rsp_comb`. A request is translated by the TLB
or by a walk over the page tables, checked against PMP and PMA, and forwarded to
memory. The members that start with an underscore are assigned in every cycle, so
they are locals here.
-/

namespace Turtle

/-- `is_pma_valid`: RAM and the three device ranges. -/
def isPmaValid (addr : BitVec 32) : Bool :=
  decide (0x80000000 ≤ addr) || (decide (0x20000000 ≤ addr) && decide (addr < 0x20010000)) ||
    (decide (0x10000000 ≤ addr) && decide (addr < 0x10000100)) ||
    (decide (0x30000000 ≤ addr) && decide (addr < 0x34000000))

namespace Exec

/-- `MXR`. -/
def mxr (e : Exec) : BitVec 32 := (e.csrRegs Csr.mstatus &&& Mstatus.mxr) >>> Mstatus.mxrShift

/-- `MPRV`. -/
def mprv (e : Exec) : BitVec 32 := (e.csrRegs Csr.mstatus &&& Mstatus.mprv) >>> Mstatus.mprvShift

/-- `SUM`. -/
def sum (e : Exec) : BitVec 32 := (e.csrRegs Csr.mstatus &&& Mstatus.sum) >>> Mstatus.sumShift

/-- The value of `d_priv` for a new request: `MPP` under `MPRV`, else the privilege. -/
def dataPriv (e : Exec) : BitVec 8 :=
  (if e.mprv ≠ 0 then mppField (e.csrRegs Csr.mstatus) else e.priv).setWidth 8

end Exec

/-- `SATP_ON`. -/
def satpOn (satp : BitVec 32) : Bool := (satp >>> 31) &&& 1 == 1

/-- `USERBIT`. -/
def userBit (pte : BitVec 32) : BitVec 32 := (pte >>> 4) &&& 1

/-- The values of `d_state` and `i_state`: 0 to 3. -/
inductive WalkState
  | idle | level1 | level2 | access
  deriving DecidableEq, Repr, Inhabited

/-- The data members of `MMU` and the signals it drives on the data side. -/
structure Dmmu where
  dState : WalkState := .idle
  dPageFault : Bool := false
  dPmpFault : Bool := false
  dMisalignedFault : Bool := false
  dPriv : BitVec 8 := 3
  dSatp : BitVec 32 := 0
  dRootPpn : BitVec 32 := 0
  dRootAddr : BitVec 32 := 0
  dVpn1 : BitVec 32 := 0
  dVpn0 : BitVec 32 := 0
  dOffset : BitVec 32 := 0
  dOp : BitVec 32 := 0
  dPte : BitVec 32 := 0
  dPpn : BitVec 32 := 0
  dMmuMem : DmemIn := {}
  dmmuToMem : DmemIn := {}
  deriving DecidableEq, Repr

/-- The inputs of the data side in one cycle. `junk` is what the entry returned by
a TLB miss happens to hold. -/
structure DmmuIn where
  rst : Bool := false
  flush : Bool := false
  req : DmemIn := {}
  rsp : MemOut := {}
  tlb : Tlb := {}
  junk : TlbEntry := {}

namespace Dmmu

/-- The permission formula that the TLB-hit path and both levels of the walk spell
out: a page fault for a leaf entry. -/
def leafFault (e : Exec) (dPriv : BitVec 8) (dOp : BitVec 32) (req : DmemIn) (pte : BitVec 32) :
    Bool :=
  ((1#32 <<< dOp.toNat) &&& pte == 0 && (dOp != 1 || e.mxr == 0 || pte &&& 4 == 0)) ||
    ((req.dmemIsStore || req.dmemIsAmo) && (pte &&& 0x80 == 0 || pte &&& 0x40 == 0)) ||
    (req.dmemIsLoad && pte &&& 0x40 == 0) ||
    (dPriv == 1 && userBit pte != 0 && e.sum == 0) ||
    (dPriv == 0 && userBit pte == 0) ||
    pte &&& 6 == 4

/-- The request itself, sent to `addr`. -/
def forwardTo (req : DmemIn) (addr : BitVec 32) : DmemIn :=
  { req with dmemReqAck := true, dmemAddr := addr }

/-- The load of a page-table entry. -/
def pteLoad (addr : BitVec 32) : DmemIn :=
  { dmemReqAck := true, dmemAddr := addr, dmemWdata := 0, dmemSize := 4, dmemIsLoad := true,
    dmemIsStore := false, dmemIsAmo := false, dmemAmoop := 0 }

/-- The outcome of the first part of `dmem_req_seq`: the members, the local page
fault and the TLB. -/
structure Next where
  mmu : Dmmu
  pageFault : Bool := false
  tlb : Tlb

/-- The end of a request in a page fault. -/
def faulted (s : Dmmu) (tlb : Tlb) : Next :=
  { mmu := { s with dState := .idle, dMmuMem.dmemReqAck := false }, pageFault := true, tlb := tlb }

/-- The branch `rst || flush`. -/
def reset (s : Dmmu) (tlb : Tlb) : Next :=
  { mmu := { s with dState := .idle, dSatp := 0, dRootPpn := 0, dRootAddr := 0, dVpn1 := 0,
                    dVpn0 := 0, dOffset := 0, dOp := 0, dMmuMem.dmemReqAck := false, dPriv := 3 },
    tlb := tlb }

/-- The request is latched: the assignments at the start of the idle state. -/
def latchRequest (e : Exec) (s : Dmmu) (req : DmemIn) : Dmmu :=
  let dSatp := e.csrRegs Csr.satp
  let dRootPpn := dSatp &&& 0x003FFFFF
  { s with
    dSatp := dSatp
    dRootPpn := dRootPpn
    dRootAddr := dRootPpn <<< 12
    dVpn1 := (req.dmemAddr >>> 22) &&& 0x3FF
    dVpn0 := (req.dmemAddr >>> 12) &&& 0x3FF
    dOffset := req.dmemAddr &&& 0xFFF
    dPriv := e.dataPriv
    dOp := if req.dmemIsLoad || (req.dmemIsAmo && req.dmemAmoop == 0) then 1 else 2 }

/-- The idle state: pass the request through, translate it by the TLB, or start a
walk. -/
def idleStep (e : Exec) (s : Dmmu) (i : DmmuIn) : Next :=
  let req := i.req
  if req.dmemReqAck then
    let s := latchRequest e s req
    if satpOn s.dSatp && (e.priv == privS || e.priv == privU || s.dPriv != 3) then
      let found := i.tlb.find i.junk ((s.dSatp >>> 20) &&& 0x1ff) (req.dmemAddr >>> 12)
      let tlbentry := found.1
      let tlb := found.2
      let s := { s with dPte := tlbentry.pte }
      if s.dPte &&& 1 ≠ 0 then
        let s := { s with dPpn := (s.dPte >>> 10) &&& 0xFFFFF }
        if leafFault e s.dPriv s.dOp req s.dPte then faulted s tlb
        else if tlbentry.isMegapage then
          { mmu := { s with dState := .access,
                            dMmuMem := forwardTo req
                              ((s.dPpn <<< 12) + (req.dmemAddr &&& 0x3FFFFF)) },
            tlb := tlb }
        else
          { mmu := { s with dState := .access,
                            dMmuMem := forwardTo req ((s.dPpn <<< 12) + (req.dmemAddr &&& 0xFFF)) },
            tlb := tlb }
      else
        { mmu := { s with dState := .level1, dMmuMem := pteLoad (s.dRootAddr + s.dVpn1 * 4) },
          tlb := tlb }
    else
      { mmu := { s with dState := .access, dMmuMem := forwardTo req req.dmemAddr }, tlb := i.tlb }
  else
    { mmu := { s with dState := .idle, dSatp := 0, dRootPpn := 0, dRootAddr := 0, dVpn1 := 0,
                      dVpn0 := 0, dOffset := 0, dOp := 0, dMmuMem.dmemReqAck := false },
      tlb := i.tlb }

/-- The level-1 entry arrives: a megapage, a pointer or a fault. -/
def level1Step (e : Exec) (s : Dmmu) (i : DmmuIn) : Next :=
  let req := i.req
  let s := { s with dPte := i.rsp.memRspRdata }
  let s := { s with dPpn := (s.dPte >>> 10) &&& 0xFFFFF }
  let daugxwrv := s.dPte &&& 0xFF
  if s.dPte &&& 1 = 0 ∨ (daugxwrv ≠ 1 ∧
      (s.dPpn &&& 0x3FF ≠ 0 ∨ leafFault e s.dPriv s.dOp req s.dPte = true)) then
    faulted s i.tlb
  else if daugxwrv &&& 0xE ≠ 0 then
    { mmu := { s with dState := .access,
                      dMmuMem := forwardTo req
                        ((s.dPpn <<< 12) + (req.dmemAddr &&& 0x3FFFFF)) },
      tlb := i.tlb.store ((s.dSatp >>> 20) &&& 0x1ff) (req.dmemAddr >>> 12) s.dPte true }
  else
    { mmu := { s with dState := .level2, dMmuMem := pteLoad ((s.dPpn <<< 12) + s.dVpn0 * 4) },
      tlb := i.tlb }

/-- The level-2 entry arrives: a page or a fault. -/
def level2Step (e : Exec) (s : Dmmu) (i : DmmuIn) : Next :=
  let req := i.req
  let s := { s with dPte := i.rsp.memRspRdata }
  let s := { s with dPpn := (s.dPte >>> 10) &&& 0xFFFFF }
  if s.dPte &&& 1 = 0 ∨ leafFault e s.dPriv s.dOp req s.dPte = true then faulted s i.tlb
  else
    { mmu := { s with dState := .access, dMmuMem := forwardTo req ((s.dPpn <<< 12) + s.dOffset) },
      tlb := i.tlb.store ((s.dSatp >>> 20) &&& 0x1ff) (req.dmemAddr >>> 12) s.dPte false }

/-- The first part of `dmem_req_seq`, up to the checks of the outgoing request. -/
def next (e : Exec) (s : Dmmu) (i : DmmuIn) : Next :=
  if i.rst || i.flush then reset s i.tlb
  else if s.dState = .idle then idleStep e s i
  else if i.rsp.memRspAck then
    if s.dState = .level1 then level1Step e s i
    else if s.dState = .level2 then level2Step e s i
    else { mmu := { s with dState := .idle, dMmuMem.dmemReqAck := false }, tlb := i.tlb }
  else { mmu := { s with dMmuMem.dmemReqAck := false }, tlb := i.tlb }

section Running

variable {e : Exec} {s : Dmmu} {i : DmmuIn} (hrunning : (i.rst || i.flush) = false)

include hrunning

theorem next_of_idle (hidle : s.dState = .idle) : next e s i = idleStep e s i := by
  rw [next, if_neg (Bool.not_eq_true _ ▸ hrunning), if_pos hidle]

theorem next_of_level1 (hstate : s.dState = .level1) (hack : i.rsp.memRspAck = true) :
    next e s i = level1Step e s i := by
  rw [next, if_neg (Bool.not_eq_true _ ▸ hrunning), if_neg (by simp [hstate]), if_pos hack,
    if_pos hstate]

theorem next_of_level2 (hstate : s.dState = .level2) (hack : i.rsp.memRspAck = true) :
    next e s i = level2Step e s i := by
  rw [next, if_neg (Bool.not_eq_true _ ▸ hrunning), if_neg (by simp [hstate]), if_pos hack,
    if_neg (by simp [hstate]), if_pos hstate]

theorem next_of_waits (hstate : s.dState ≠ .idle) (hquiet : i.rsp.memRspAck = false) :
    next e s i = { mmu := { s with dMmuMem.dmemReqAck := false }, tlb := i.tlb } := by
  rw [next, if_neg (Bool.not_eq_true _ ▸ hrunning), if_neg hstate, if_neg (by simp [hquiet])]

end Running

/-- The alignment check of an outgoing request. -/
def misaligned (req : DmemIn) : Bool :=
  req.dmemReqAck && req.dmemAddr &&& (-(req.dmemSize.setWidth 32)) != req.dmemAddr

/-- The PMP and PMA checks of an outgoing request. -/
def pmpFault (e : Exec) (req : DmemIn) : Bool :=
  req.dmemReqAck &&
    ((!if req.dmemIsStore || req.dmemIsAmo then
        e.pmpDcheck (req.dmemAddr.setWidth 64) 2 req.dmemSize
      else e.pmpDcheck (req.dmemAddr.setWidth 64) 1 4) ||
      !isPmaValid req.dmemAddr)

/-- `MMU::dmem_req_seq`. -/
def dmemReqSeq (e : Exec) (s : Dmmu) (i : DmmuIn) : Dmmu × Tlb :=
  let n := next e s i
  let s := n.mmu
  let misalignedFault := misaligned s.dMmuMem
  let pmpFault := pmpFault e s.dMmuMem
  ({ s with
      dmmuToMem := if pmpFault || n.pageFault || misalignedFault then {} else s.dMmuMem
      dPageFault := n.pageFault
      dPmpFault := pmpFault
      dMisalignedFault := misalignedFault }, n.tlb)

/-- `MMU::dmem_rsp_comb`: the answer to EXEC, given the answer of memory and the
request that EXEC still shows. -/
def dmemRspComb (s : Dmmu) (rsp : MemOut) (req : DmemIn) : MmuRsp :=
  let ack := (s.dState == .access && rsp.memRspAck) || s.dPageFault || s.dPmpFault ||
    s.dMisalignedFault || rsp.memRspFault != 0
  let code (load store : ExceptionCause) : BitVec 8 :=
    (if s.dOp = 1 then load else store).code.setWidth 8
  let r : MmuRsp :=
    if s.dMisalignedFault then
      { mmuRspAck := ack, mmuRspFault := code .loadAddrMisaligned .storeAddrMisaligned }
    else if s.dPageFault then
      { mmuRspAck := ack, mmuRspFault := code .loadPageFault .storePageFault }
    else
      { mmuRspAck := ack, mmuRspRdata := rsp.memRspRdata
        mmuRspFault := if rsp.memRspFault = 0 ∧ s.dPmpFault = false then 0
          else code .loadAccessFault .storeAccessFault }
  if r.mmuRspFault ≠ 0 then { r with mmuRspTval := req.dmemAddr } else r

end Dmmu

end Turtle
