import Turtle.Mmu.Data

/-!
# The instruction side of the MMU

`MMU::imem_rsp_comb` and `MMU::imem_req_seq`. The walker keeps the address it
works on in `immu_pc`, and takes the next one when the fetch buffer accepts the
current word.
-/

namespace Turtle

/-- The instruction members of `MMU` and the signals it registers on that side. -/
structure Immu where
  iState : WalkState := .idle
  iPageFault : Bool := false
  iPmpFault : Bool := false
  iSatp : BitVec 32 := 0
  iRootPpn : BitVec 32 := 0
  iRootAddr : BitVec 32 := 0
  iVpn1 : BitVec 32 := 0
  iVpn0 : BitVec 32 := 0
  iOffset : BitVec 32 := 0
  iPte : BitVec 32 := 0
  iPpn : BitVec 32 := 0
  iMmuMem : ImemIn := {}
  immuToMem : ImemIn := {}
  immuPc : BitVec 32 := 0
  immuFlush : Bool := false
  deriving DecidableEq, Repr

/-- The inputs of the instruction side in one cycle. -/
structure ImmuIn where
  rst : Bool := false
  flush : Bool := false
  fetchPc : BitVec 32 := 0
  ifIdAccept : Bool := false
  rsp : MemOut := {}
  tlb : Tlb := {}
  junk : TlbEntry := {}

namespace Immu

/-- The answer to the fetch buffer, as `MMU::imem_rsp_comb` computes it. -/
def imemRspComb (s : Immu) (rsp : MemOut) : MmuRsp :=
  let ack := ((s.iState == .access || s.immuFlush) && rsp.memRspAck) || s.iPageFault ||
    s.iPmpFault || rsp.memRspFault != 0
  let r : MmuRsp :=
    if s.iPageFault then
      { mmuRspAck := ack, mmuRspFault := ExceptionCause.instrPageFault.code.setWidth 8 }
    else
      { mmuRspAck := ack, mmuRspRdata := rsp.memRspRdata
        mmuRspFault := if rsp.memRspFault = 0 ∧ s.iPmpFault = false then 0 else 1 }
  if r.mmuRspFault ≠ 0 then { r with mmuRspTval := s.immuPc } else r

/-- The signal `immu_ready`, also driven by `imem_rsp_comb`. -/
def immuReady (s : Immu) (rsp : MemOut) : Bool :=
  (s.imemRspComb rsp).mmuRspAck || s.iState == .idle

/-- The permission formula of instruction fetches for a leaf entry. -/
def leafFault (e : Exec) (pte : BitVec 32) : Bool :=
  8 &&& pte == 0 || pte &&& 0x40 == 0 || (e.priv == privS && userBit pte != 0) ||
    (e.priv == privU && userBit pte == 0) || pte &&& 6 == 4

/-- The outcome of the first part of `imem_req_seq`: the members, the local page
fault, whether the request is the fetch itself, and the TLB. -/
structure Next where
  mmu : Immu
  pageFault : Bool := false
  isFetch : Bool := false
  tlb : Tlb

/-- A page fault. The state register keeps its value. -/
def faulted (s : Immu) (tlb : Tlb) : Next :=
  { mmu := { s with iMmuMem.imemReqAck := false }, pageFault := true, tlb := tlb }

/-- The fetch of the word at `addr`. -/
def fetch (s : Immu) (addr : BitVec 32) (tlb : Tlb) : Next :=
  { mmu := { s with iState := .access, iMmuMem := { imemReqAck := true, imemAddr := addr } },
    isFetch := true, tlb := tlb }

/-- The load of a page-table entry. -/
def pteLoad (s : Immu) (state : WalkState) (addr : BitVec 32) (tlb : Tlb) : Next :=
  { mmu := { s with iState := state, iMmuMem := { imemReqAck := true, imemAddr := addr } },
    tlb := tlb }

/-- The branch `rst || flush`. -/
def reset (s : Immu) (tlb : Tlb) : Next :=
  { mmu := { s with iState := .idle, iSatp := 0, iRootPpn := 0, iRootAddr := 0, iVpn1 := 0,
                    iVpn0 := 0, iOffset := 0, iMmuMem.imemReqAck := false },
    tlb := tlb }

/-- The next address is latched. -/
def latchPc (e : Exec) (s : Immu) (pc : BitVec 32) : Immu :=
  let iSatp := e.csrRegs Csr.satp
  let iRootPpn := iSatp &&& 0x003FFFFF
  { s with
    immuPc := pc
    iSatp := iSatp
    iRootPpn := iRootPpn
    iRootAddr := iRootPpn <<< 12
    iVpn1 := (pc >>> 22) &&& 0x3FF
    iVpn0 := (pc >>> 12) &&& 0x3FF
    iOffset := pc &&& 0xFFF }

/-- The ready state: fetch directly, by the TLB, or start a walk. -/
def readyStep (e : Exec) (s : Immu) (i : ImmuIn) : Next :=
  let pc := if i.ifIdAccept then i.fetchPc else s.immuPc
  let s := latchPc e s pc
  if satpOn s.iSatp && (e.priv == privS || e.priv == privU) then
    let found := i.tlb.find i.junk ((s.iSatp >>> 20) &&& 0x1ff) (pc >>> 12)
    let tlbentry := found.1
    let tlb := found.2
    let s : Immu := { s with iPte := tlbentry.pte }
    if s.iPte &&& 1 ≠ 0 then
      let s := { s with iPpn := (s.iPte >>> 10) &&& 0xFFFFF }
      if leafFault e s.iPte then faulted s tlb
      else if tlbentry.isMegapage then fetch s ((s.iPpn <<< 12) + (pc &&& 0x3FFFFC)) tlb
      else fetch s ((s.iPpn <<< 12) + (s.iOffset &&& ~~~3)) tlb
    else pteLoad s .level1 (s.iRootAddr + s.iVpn1 * 4) tlb
  else fetch s (pc &&& ~~~3) i.tlb

/-- The level-1 entry arrives: a megapage, a pointer or a fault. -/
def level1Step (e : Exec) (s : Immu) (i : ImmuIn) : Next :=
  let s := { s with iPte := i.rsp.memRspRdata }
  let s := { s with iPpn := (s.iPte >>> 10) &&& 0xFFFFF }
  let daugxwrv := s.iPte &&& 0xFF
  if s.iPte &&& 1 = 0 ∨ (daugxwrv ≠ 1 ∧ (s.iPpn &&& 0x3FF ≠ 0 ∨ leafFault e s.iPte = true)) then
    faulted s i.tlb
  else if daugxwrv &&& 0xE ≠ 0 then
    fetch s ((s.iPpn <<< 12) + (s.immuPc &&& 0x3FFFFC))
      (i.tlb.store ((s.iSatp >>> 20) &&& 0x1ff) (s.immuPc >>> 12) s.iPte true)
  else pteLoad s .level2 ((s.iPpn <<< 12) + s.iVpn0 * 4) i.tlb

/-- The level-2 entry arrives: a page or a fault. -/
def level2Step (e : Exec) (s : Immu) (i : ImmuIn) : Next :=
  let s := { s with iPte := i.rsp.memRspRdata }
  let s := { s with iPpn := (s.iPte >>> 10) &&& 0xFFFFF }
  if s.iPte &&& 1 = 0 ∨ leafFault e s.iPte = true then faulted s i.tlb
  else
    fetch s ((s.iPpn <<< 12) + (s.iOffset &&& ~~~3))
      (i.tlb.store ((s.iSatp >>> 20) &&& 0x1ff) (s.immuPc >>> 12) s.iPte false)

/-- The first part of `imem_req_seq`, up to the checks of the outgoing request.
The last arm of the response branch leaves the page fault of the previous cycle
in its member. -/
def next (e : Exec) (s : Immu) (i : ImmuIn) : Next :=
  if i.rst || i.flush then reset s i.tlb
  else if s.immuReady i.rsp then readyStep e s i
  else if i.rsp.memRspAck then
    if s.iState = .level1 then level1Step e s i
    else if s.iState = .level2 then level2Step e s i
    else
      { mmu := { s with iState := .idle, iMmuMem.imemReqAck := false },
        pageFault := s.iPageFault, tlb := i.tlb }
  else { mmu := { s with iMmuMem.imemReqAck := false }, tlb := i.tlb }

section Running

variable {e : Exec} {s : Immu} {i : ImmuIn} (hrunning : (i.rst || i.flush) = false)

include hrunning

theorem next_of_ready (hready : s.immuReady i.rsp = true) : next e s i = readyStep e s i := by
  rw [next, if_neg (Bool.not_eq_true _ ▸ hrunning), if_pos hready]

theorem next_of_level1 (hbusy : s.immuReady i.rsp = false) (hstate : s.iState = .level1)
    (hack : i.rsp.memRspAck = true) : next e s i = level1Step e s i := by
  rw [next, if_neg (Bool.not_eq_true _ ▸ hrunning), if_neg (by simp [hbusy]), if_pos hack,
    if_pos hstate]

theorem next_of_level2 (hbusy : s.immuReady i.rsp = false) (hstate : s.iState = .level2)
    (hack : i.rsp.memRspAck = true) : next e s i = level2Step e s i := by
  rw [next, if_neg (Bool.not_eq_true _ ▸ hrunning), if_neg (by simp [hbusy]), if_pos hack,
    if_neg (by simp [hstate]), if_pos hstate]

end Running

/-- The PMP and PMA checks of an outgoing request. -/
def pmpFault (e : Exec) (req : ImemIn) (isFetch : Bool) : Bool :=
  req.imemReqAck &&
    (!e.pmpIcheck (req.imemAddr.setWidth 64) (if isFetch then 4 else 1) 4 ||
      !isPmaValid req.imemAddr)

/-- `MMU::imem_req_seq`. -/
def imemReqSeq (e : Exec) (s : Immu) (i : ImmuIn) : Immu × Tlb :=
  let n := next e s i
  let pmpFault := pmpFault e n.mmu.iMmuMem n.isFetch
  ({ n.mmu with
      immuFlush := if s.immuReady i.rsp then false else if i.flush then true else s.immuFlush
      immuToMem := if pmpFault || n.pageFault then {} else n.mmu.iMmuMem
      iPageFault := n.pageFault
      iPmpFault := pmpFault }, n.tlb)

end Immu

end Turtle
