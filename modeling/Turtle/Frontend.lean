import Mathlib.Data.List.ReduceOption
import Turtle.Fetch
import Turtle.Lib.Bits
import Turtle.Lib.Clocked
import Turtle.Mmu.Inst

/-!
# The fetch stream

`PreFetch`, the instruction side of the MMU and the fetch buffer, joined by their
signals. EXEC redirects the stream, and memory answers the outstanding request
after any number of cycles; a reset or a flush cancels it. Between redirects the
words that enter the buffer follow each other in memory.
-/

namespace Turtle

/-- `PreFetch::next_pc_seq`. -/
def nextPcSeq (rst flush branchTaken ifIdAccept : Bool) (npc fetchPc : BitVec 32) : BitVec 32 :=
  if branchTaken || flush || rst then npc
  else if ifIdAccept then (fetchPc &&& ~~~3) + 4
  else fetchPc

/-- The registers of the front end, and whether memory still owes an answer. -/
structure Frontend where
  fetchPc : BitVec 32 := 0
  immu : Immu := {}
  fetch : Fetch := {}
  pending : Bool := false

/-- The inputs of the front end in one cycle: the signals of EXEC, the control
state and the TLB that the IMMU reads, and an answer of memory. -/
structure FrontendIn where
  rst : Bool := false
  stall : Bool := false
  flush : Bool := false
  branchTaken : Bool := false
  npc : BitVec 32 := 0
  exec : Exec := {}
  tlb : Tlb := {}
  junk : TlbEntry := {}
  rsp : MemOut := {}

/-- The stream is sent to another address. -/
def FrontendIn.redirects (i : FrontendIn) : Bool := i.branchTaken || i.flush || i.rst

/-- The update of the buffer takes the offered word exactly when it was announced. -/
theorem Fetch.fifoStateComb_eq_stored {s : Fetch} {i : FetchIn} (hrst : i.rst = false)
    (hflush : i.flush = false) (himmu : i.immuFlush = false) :
    s.fifoStateComb i = (s.fifoUpdate i).stored := by
  unfold fifoStateComb fifoUpdate
  dsimp only
  rw [hrst, hflush, himmu, Bool.or_self, if_neg Bool.false_ne_true, Bool.not_false, Bool.and_true]
  change (if i.rsp.mmuRspAck = true then if i.immuPc ≠ s.fifo.endAddr then _ else _ else _) = _
  by_cases hack : i.rsp.mmuRspAck = true
  · rw [if_pos hack, if_pos hack]
    by_cases hend : i.immuPc = s.fifo.endAddr
    · rw [if_neg (not_not.mpr hend), if_neg (not_not.mpr hend)]
      by_cases hpops : (!i.stall && !s.ifId.ifIdFlush) = true
      · rw [if_pos hpops, if_pos hpops]
        unfold popAppend Fifo.isWide
        by_cases hwide : s.fifo.buffer &&& 3 = 3
        · rw [if_pos hwide, if_pos (beq_iff_eq.mpr hwide)]
        · rw [if_neg hwide, if_neg (mt beq_iff_eq.mp hwide)]
          dsimp only
          split <;> simp_all
      · rw [if_neg hpops, if_neg hpops]
        unfold append
        split <;> simp_all
    · rw [if_pos hend, if_pos hend]
      unfold restart
      split <;> rfl
  · rw [if_neg hack, if_neg hack]
    unfold pop
    split_ifs <;> rfl

namespace Immu

variable {e : Exec} {s : Immu} {i : ImmuIn}

/-- Where `immu_pc` goes: to `fetch_pc` when a ready cycle accepts, else nowhere. -/
theorem imemReqSeq_immuPc (hrst : (i.rst || i.flush) = false) :
    (imemReqSeq e s i).1.immuPc =
      if s.immuReady i.rsp && i.ifIdAccept then i.fetchPc else s.immuPc := by
  change (next e s i).mmu.immuPc = _
  unfold next
  rw [if_neg (by rw [hrst]; decide)]
  by_cases hready : s.immuReady i.rsp = true
  · rw [if_pos hready, hready, Bool.true_and]
    unfold readyStep
    dsimp only
    split_ifs <;> rfl
  · rw [if_neg hready, Bool.eq_false_of_not_eq_true hready, Bool.false_and,
      if_neg Bool.false_ne_true]
    unfold level1Step level2Step
    dsimp only
    split_ifs <;> rfl

end Immu

namespace Frontend

open Bits

/-- The answer of memory: none unless a request is outstanding. -/
def memRsp (s : Frontend) (i : FrontendIn) : MemOut := if s.pending then i.rsp else {}

/-- The inputs of the fetch buffer. -/
def fetchIn (s : Frontend) (i : FrontendIn) : FetchIn :=
  { rst := i.rst, stall := i.stall, flush := i.flush, immuFlush := s.immu.immuFlush,
    rsp := s.immu.imemRspComb (s.memRsp i), immuPc := s.immu.immuPc }

/-- The signal `if_id_accept`. -/
def accepts (s : Frontend) (i : FrontendIn) : Bool := s.fetch.fifoStateComb (s.fetchIn i)

/-- The buffer stores the offered word at the coming edge. -/
def stores (s : Frontend) (i : FrontendIn) : Bool := (s.fetch.fifoUpdate (s.fetchIn i)).stored

/-- The inputs of the IMMU. -/
def immuIn (s : Frontend) (i : FrontendIn) : ImmuIn :=
  { rst := i.rst, flush := i.flush, fetchPc := s.fetchPc, ifIdAccept := s.accepts i,
    rsp := s.memRsp i, tlb := i.tlb, junk := i.junk }

/-- `Memory::inst_fetch`: the answer to the request of the same cycle. -/
def instFetch (ram : BitVec 32 → BitVec 32) (imemIn : ImemIn) : MemOut :=
  if imemIn.imemReqAck then
    if imemIn.imemAddr &&& 1 = 0 then { memRspAck := true, memRspRdata := ram imemIn.imemAddr }
    else { memRspAck := true, memRspFault := 1 }
  else {}

/-- Memory has answered, with data or with a fault. -/
def answered (rsp : MemOut) : Bool := rsp.memRspAck || rsp.memRspFault != 0

/-- One clock cycle. -/
def step (s : Frontend) (i : FrontendIn) : Frontend :=
  let immu := (Immu.imemReqSeq i.exec s.immu (s.immuIn i)).1
  { fetchPc := nextPcSeq i.rst i.flush i.branchTaken (s.accepts i) i.npc s.fetchPc
    immu := immu
    fetch := s.fetch.getInstSeq (s.fetchIn i)
    pending := immu.immuToMem.imemReqAck ||
      (s.pending && !(i.rst || i.flush || answered (s.memRsp i))) }

/-- The states at power-up. The members of the fetch buffer are not initialized. -/
def Started (s : Frontend) : Prop := s.immu = {} ∧ s.pending = false

/-- The states that a run from power-up can visit. -/
def Reachable : Frontend → Prop := Clocked.Reachable step Started

variable {s : Frontend} {i : FrontendIn} {is : List FrontendIn}

/-- A word is accepted only in a ready cycle. -/
theorem ready_of_accepts (h : s.accepts i = true) : s.immu.immuReady (s.memRsp i) = true := by
  have hack : (s.immu.imemRspComb (s.memRsp i)).mmuRspAck = true := by
    unfold accepts Fetch.fifoStateComb at h
    dsimp only at h
    split at h
    · assumption
    · cases h
  rw [Immu.immuReady, hack, Bool.true_or]

/-- While `immu_flush` is set the IMMU is idle, without a fault and without an
outstanding request. -/
def FlushQuiet (s : Frontend) : Prop :=
  s.immu.immuFlush = true → s.immu.iState = .idle ∧ s.immu.iPageFault = false ∧
    s.immu.iPmpFault = false ∧ s.pending = false

/-- The flag lasts for one cycle, which follows the flush that set it. -/
theorem FlushQuiet.step (h : FlushQuiet s) : FlushQuiet (step s i) := by
  intro hset
  have hflag : (if s.immu.immuReady (s.memRsp i) = true then false
      else if i.flush = true then true else s.immu.immuFlush) = true := hset
  have hflush : i.flush = true := by
    by_contra hne
    rw [if_neg hne] at hflag
    split at hflag
    · cases hflag
    · rename_i hready
      exact hready (by rw [Immu.immuReady, (h hflag).1, beq_self_eq_true, Bool.or_true])
  have hnext : Immu.next i.exec s.immu (s.immuIn i) = Immu.reset s.immu i.tlb := by
    refine if_pos ?_
    change (i.rst || i.flush) = true
    rw [hflush, Bool.or_true]
  have himmu : (Frontend.step s i).immu = (Immu.imemReqSeq i.exec s.immu (s.immuIn i)).1 := rfl
  have hpending : (Frontend.step s i).pending =
      ((Immu.imemReqSeq i.exec s.immu (s.immuIn i)).1.immuToMem.imemReqAck ||
        (s.pending && !(i.rst || i.flush || answered (s.memRsp i)))) := rfl
  rw [himmu, hpending, Immu.imemReqSeq, hnext, hflush]
  refine ⟨rfl, rfl, rfl, ?_⟩
  simp [Immu.reset, Immu.pmpFault]

theorem Reachable.flushQuiet (h : Reachable s) : FlushQuiet s := by
  refine Clocked.Reachable.invariant (P := FlushQuiet) ?_ (fun _ _ => FlushQuiet.step) h
  rintro s ⟨himmu, -⟩ hset
  rw [himmu] at hset
  cases hset

theorem rst_of_not_redirects (hi : i.redirects = false) : i.rst = false ∧ i.flush = false := by
  simp only [FrontendIn.redirects, Bool.or_eq_false_iff] at hi
  exact ⟨hi.2, hi.1.2⟩

/-- The memory of the emulator answers at once, so it never answers a request that
is not outstanding. -/
theorem Reachable.memRsp_instFetch (h : Reachable s) {ram : BitVec 32 → BitVec 32}
    (hrsp : i.rsp = instFetch ram s.immu.immuToMem) : s.memRsp i = i.rsp := by
  have hpending : s.immu.immuToMem.imemReqAck = true → s.pending = true := by
    refine Clocked.Reachable.invariant
      (P := fun s => s.immu.immuToMem.imemReqAck = true → s.pending = true) ?_ ?_ h
    · rintro s ⟨himmu, -⟩ hsent
      rw [himmu] at hsent
      cases hsent
    · intro s i _ hsent
      change (Immu.imemReqSeq i.exec s.immu (s.immuIn i)).1.immuToMem.imemReqAck = true at hsent
      change (_ || _) = true
      rw [hsent, Bool.true_or]
  cases hsent : s.immu.immuToMem.imemReqAck with
  | true => exact if_pos (hpending hsent)
  | false =>
    have hnone : i.rsp = {} := by
      rw [hrsp, instFetch, hsent]
      rfl
    rw [memRsp, hnone, ite_self]

/-- Between redirects a word is stored exactly when it is accepted. -/
theorem stores_eq_accepts (hs : FlushQuiet s) (hi : i.redirects = false) :
    s.stores i = s.accepts i := by
  obtain ⟨hrst, hflush⟩ := rst_of_not_redirects hi
  cases himmu : s.immu.immuFlush with
  | false => exact (Fetch.fifoStateComb_eq_stored hrst hflush himmu).symm
  | true =>
    -- Nothing is offered in this cycle, so there is nothing to accept or to drop.
    obtain ⟨hidle, hpage, hpmp, hpending⟩ := hs himmu
    have hrsp : s.memRsp i = {} := if_neg (by rw [hpending]; decide)
    have hack : (s.fetchIn i).rsp.mmuRspAck = false := by
      change (s.immu.imemRspComb (s.memRsp i)).mmuRspAck = false
      rw [hrsp]
      simp [Immu.imemRspComb, hpage, hpmp]
    have hquiet : s.accepts i = false := by
      unfold accepts Fetch.fifoStateComb
      rw [hack]
      rfl
    rw [hquiet]
    unfold stores Fetch.fifoUpdate Fetch.pop
    rw [hack]
    dsimp only
    split_ifs <;> first | rfl | contradiction

/-- How the two address registers move between redirects: both or neither. -/
theorem step_of_not_redirects (hs : FlushQuiet s) (hi : i.redirects = false) :
    (s.stores i = true → (step s i).immu.immuPc = s.fetchPc ∧
      (step s i).fetchPc = (s.fetchPc &&& ~~~3) + 4) ∧
    (s.stores i = false → (step s i).immu.immuPc = s.immu.immuPc ∧
      (step s i).fetchPc = s.fetchPc) := by
  obtain ⟨hrst, hflush⟩ := rst_of_not_redirects hi
  have hpc : (step s i).immu.immuPc =
      if s.immu.immuReady (s.memRsp i) && s.accepts i then s.fetchPc else s.immu.immuPc := by
    refine Immu.imemReqSeq_immuPc ?_
    change (i.rst || i.flush) = false
    rw [hrst, hflush, Bool.or_self]
  have hfetch : (step s i).fetchPc =
      if s.accepts i then (s.fetchPc &&& ~~~3) + 4 else s.fetchPc := by
    change nextPcSeq _ _ _ _ _ _ = _
    unfold nextPcSeq
    exact if_neg (by simpa [FrontendIn.redirects] using hi)
  rw [stores_eq_accepts hs hi]
  constructor
  · intro haccept
    rw [hpc, hfetch, ready_of_accepts haccept, haccept]
    exact ⟨rfl, rfl⟩
  · intro hnot
    rw [hpc, hfetch, hnot, Bool.and_false]
    exact ⟨rfl, rfl⟩

end Frontend

end Turtle
