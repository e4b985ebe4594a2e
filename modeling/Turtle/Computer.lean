import Turtle.FetchContext
import Turtle.FetchedWords
import Turtle.Mmu.FetchOffset

/-!
# The processor with its memory

The front end and the data path of the processor, closed over one memory: memory answers a
fetch in the delta cycles after the edge that sends it, once `update_memory` has carried out
what was under way, and it answers again only when the request on its port changes. The
platform lines, the TLB and the peripherals are free.
-/

namespace Turtle

open Bits

/-- The processor and its memory. `iout` is what memory answers to the fetch side. -/
structure Computer (δ : Type) where
  path : MextPath δ
  front : Frontend := {}
  iout : MemOut := {}

/-- The inputs of one cycle. The data side and the fetch side see the TLB one after the
other. -/
structure ComputerIn (δ : Type) where
  data : DataIn δ := {}
  tlb : Tlb := {}
  junk : TlbEntry := {}

namespace Computer

variable {δ : Type} (undef : BitVec 32 → BitVec 32 → BitVec 32) (devices : List (Device δ))
  (entry : BitVec 32)

/-- The inputs of the data path without a fetch: the fetch buffer shows its instruction. -/
def shownIn (s : Computer δ) (i : ComputerIn δ) : DataIn δ :=
  { i.data with ifId := s.front.fetch.ifId }

/-- The inputs of Decode and EXEC. -/
def coreIn (s : Computer δ) (i : ComputerIn δ) : CoreIn := s.path.coreIn (s.shownIn i)

/-- The outputs of EXEC. -/
def out (s : Computer δ) (i : ComputerIn δ) : ExecOut :=
  s.path.data.core.out entry (s.coreIn i)

/-- The inputs of the front end. -/
def frontIn (s : Computer δ) (i : ComputerIn δ) : FrontendIn :=
  let o := s.out entry i
  { rst := i.data.rst, stall := o.stall, flush := o.flush, branchTaken := o.branchTaken,
    npc := o.npc, exec := s.path.data.core.exec, tlb := i.tlb, junk := i.junk, rsp := s.iout }

/-- What the fetch side sends after the edge. -/
def fetchReq (s : Computer δ) (i : ComputerIn δ) : ImemIn :=
  (s.front.step (s.frontIn entry i)).immu.immuToMem

/-- The inputs of the data path. `inst_fetch` runs when the request on its port changes. -/
def dataIn (s : Computer δ) (i : ComputerIn δ) : DataIn δ :=
  { s.shownIn i with
    iin := if s.fetchReq entry i = s.front.immu.immuToMem then {} else s.fetchReq entry i }

/-- The memory that the edge leaves. -/
def committed (s : Computer δ) (i : ComputerIn δ) : Memory δ :=
  s.path.data.committed devices (s.path.dataIn (s.dataIn entry i))

/-- One clock cycle. -/
def step (s : Computer δ) (i : ComputerIn δ) : Computer δ where
  path := s.path.step undef devices entry (s.dataIn entry i)
  front := s.front.step (s.frontIn entry i)
  iout := if s.fetchReq entry i = s.front.immu.immuToMem then s.iout
    else ((s.committed devices entry i).instFetch (s.fetchReq entry i)).1

/-- The powered-up computer with a memory. The fetch buffer and `fetch_pc` are not
initialized. -/
def PoweredUp (m : Memory δ) (s : Computer δ) : Prop :=
  s.path = { data := { memory := m } } ∧ s.front.Started ∧ s.iout = {}

variable {undef devices entry} {s : Computer δ} {i : ComputerIn δ}

/-! ### The processor -/

/-- The processor alone. -/
def cpu (s : Computer δ) : Cpu := { core := s.path.data.core, front := s.front }

/-- Its inputs. -/
def cpuIn (s : Computer δ) (i : ComputerIn δ) : CpuIn :=
  { core := s.coreIn i, tlb := i.tlb, junk := i.junk, rsp := s.iout }

/-- The computer runs its processor. -/
theorem cpu_step : (step undef devices entry s i).cpu = s.cpu.step entry (s.cpuIn i) := rfl

theorem frontIn_eq : s.frontIn entry i = s.cpu.frontIn entry (s.cpuIn i) := rfl

/-! ### Fetches -/

/-- What a memory holds at a virtual address: at one of its physical addresses. -/
def fetchEnv (entry : BitVec 32) (map : RamMap) : Rv32.FetchEnv FlatRam Bool Bool :=
  { MextPath.env entry map with
    Holds := fun translates addr half f => ∃ pa, Locates translates addr pa ∧ f.half pa = half }

/-- What a cycle is to the machine that fetches. -/
def label (entry : BitVec 32) (s : Computer δ) (i : ComputerIn δ) : Rv32.FetchLabel Bool Bool where
  event := s.path.label entry (s.shownIn i)
  ctx := s.path.data.core.exec.translatesFetch
  anew := (s.coreIn i).rstComb || (s.out entry i).flush

/-- Halfwords may have come from the view in the present context. -/
abbrev Seen (entry : BitVec 32) (map : RamMap) (view : Set FlatRam) (s : Computer δ) :
    BitVec 32 → Half → Prop :=
  Half.Seen (fetchEnv entry map) view s.path.data.core.exec.translatesFetch

/-- What EX holds, unless it could not be fetched. -/
def Fetched (entry : BitVec 32) (map : RamMap) (view : Set FlatRam) (s : Computer δ) : Prop :=
  let d := s.path.data.core.idEx
  d.flush = false → (d.onTrap = true → d.cause = ExceptionCause.illegalInstr.code) →
    (fetchEnv entry map).Fetches view s.path.data.core.exec.translatesFetch
      s.path.data.core.wb.exPc d.inst

/-- The invariant: everything between memory and EX comes from the memories of the view. -/
structure Inv (devices : List (Device δ)) (entry : BitVec 32) (map : RamMap) (view : Set FlatRam)
    (s : Computer δ) : Prop where
  tracks : s.path.Tracks devices entry map
  sound : s.front.Sound
  keeps : s.front.immu.Keeps s.path.data.core.exec
  pending : s.front.immu.immuToMem.imemReqAck = true → s.front.pending = true
  answered : ∃ m : Memory δ, m.ram.flat ∈ view ∧ s.iout = (m.instFetch s.front.immu.immuToMem).1
  queue : ∃ q, s.front.fetch.Represents q ∧ q.Forall (s.Seen entry map view)
  fetched : s.Fetched entry map view
  reset : s.path.data.inReset = true → view = {s.path.machine.mem}

variable {map : RamMap} {view view' : Set FlatRam}

/-- The answers of memory reach the front end. -/
theorem Inv.memRsp (h : s.Inv devices entry map view) :
    s.front.memRsp (s.frontIn entry i) = s.iout := by
  obtain ⟨m, -, hiout⟩ := h.answered
  unfold Frontend.memRsp
  split
  · rfl
  · rename_i hpending
    have hnone : s.front.immu.immuToMem.imemReqAck = false :=
      Bool.eq_false_of_not_eq_true (mt h.pending hpending)
    rw [hiout, Memory.instFetch, hnone]
    rfl

/-- An aligned fetch that memory has answered brings the word of its memory. -/
theorem instFetch_rdata {m : Memory δ} {req : ImemIn} (hack : req.imemReqAck = true)
    (haligned : req.imemAddr.toNat % 4 = 0) :
    (m.instFetch req).1.memRspRdata = m.ram.flat.word req.imemAddr 4 := by
  have heven : (req.imemAddr &&& 1 == 0) = true := by
    rw [beq_iff_eq, ← BitVec.toNat_inj, and_ones_toNat (n := 1) _ 1 rfl]
    change _ = 0
    omega
  rw [Memory.instFetch, if_pos hack, if_pos heven]
  exact Ram.fetch_fst haligned

/-- An answer without a fault is one to a fetch. -/
theorem imemRspComb_clean {u : Immu} {rsp : MemOut}
    (hoffer : ((u.imemRspComb rsp).mmuRspAck && !u.immuFlush) = true)
    (hpage : (u.imemRspComb rsp).mmuRspFault ≠ ExceptionCause.instrPageFault.code.setWidth 8)
    (haccess : (u.imemRspComb rsp).mmuRspFault ≠ ExceptionCause.instrAccessFault.code.setWidth 8) :
    u.iState = .access ∧ rsp.memRspAck = true ∧
      (u.imemRspComb rsp).mmuRspRdata = rsp.memRspRdata := by
  unfold Immu.imemRspComb at hoffer hpage haccess ⊢
  dsimp only at hoffer hpage haccess ⊢
  split_ifs at hoffer hpage haccess ⊢ <;> simp_all [ExceptionCause.code]
  exact hoffer.1.1.resolve_right (by simp [hoffer.2])

/-- What the fetch buffer is offered was in a memory of the view. -/
theorem Inv.offered (h : s.Inv devices entry map view)
    (hoffer : ((s.front.fetchIn (s.frontIn entry i)).rsp.mmuRspAck &&
      !(s.front.fetchIn (s.frontIn entry i)).immuFlush) = true) :
    let j := s.front.fetchIn (s.frontIn entry i)
    s.Seen entry map view (j.immuPc &&& ~~~3) (halvesOf j.rsp.mmuRspRdata j.rsp.mmuRspFault).1 ∧
      s.Seen entry map view ((j.immuPc &&& ~~~3) + 2)
        (halvesOf j.rsp.mmuRspRdata j.rsp.mmuRspFault).2 := by
  intro j
  obtain ⟨m, hm, hiout⟩ := h.answered
  have hrsp : j.rsp = s.front.immu.imemRspComb s.iout := by
    change s.front.immu.imemRspComb (s.front.memRsp (s.frontIn entry i)) = _
    rw [h.memRsp]
  have hpc : j.immuPc = s.front.immu.immuPc := rfl
  change (j.rsp.mmuRspAck && !s.front.immu.immuFlush) = true at hoffer
  rw [hrsp] at hoffer
  rw [hrsp, hpc]
  -- Where the word has no fault, both halfwords are those of the answer of memory.
  have hclean (hpage : (s.front.immu.imemRspComb s.iout).mmuRspFault ≠
        ExceptionCause.instrPageFault.code.setWidth 8)
      (haccess : (s.front.immu.imemRspComb s.iout).mmuRspFault ≠
        ExceptionCause.instrAccessFault.code.setWidth 8) : ∃ pa,
      Locates s.path.data.core.exec.translatesFetch (s.front.immu.immuPc &&& ~~~3) pa ∧
        (s.front.immu.imemRspComb s.iout).mmuRspRdata = m.ram.flat.word pa 4 := by
    obtain ⟨hstate, hack, hdata⟩ := imemRspComb_clean hoffer hpage haccess
    have hreq : s.front.immu.immuToMem.imemReqAck = true := by
      by_contra hnone
      rw [hiout, Memory.instFetch, if_neg hnone] at hack
      cases hack
    have hlocates := h.keeps.accesses hstate hreq
    have haligned := hlocates.aligned (by rw [and_not_three_toNat]; omega)
    refine ⟨_, hlocates, ?_⟩
    rw [hdata, hiout, instFetch_rdata hreq haligned]
  refine ⟨fun hpage haccess => ?_, fun hpage haccess => ?_⟩
  · obtain ⟨pa, hlocates, hdata⟩ := hclean (beq_eq_false_iff_ne.mp hpage)
      (beq_eq_false_iff_ne.mp haccess)
    refine ⟨_, hm, pa, hlocates, ?_⟩
    have hhalf := m.ram.flat.half_of_word pa (k := 0) (by omega)
    rw [← hdata] at hhalf
    exact (BitVec.add_zero pa ▸ hhalf).symm
  · obtain ⟨pa, hlocates, hdata⟩ := hclean (beq_eq_false_iff_ne.mp hpage)
      (beq_eq_false_iff_ne.mp haccess)
    refine ⟨_, hm, pa + 2, hlocates.add 2, ?_⟩
    have hhalf := m.ram.flat.half_of_word pa (k := 2) (by omega)
    rw [← hdata] at hhalf
    exact hhalf.symm

end Computer

end Turtle
