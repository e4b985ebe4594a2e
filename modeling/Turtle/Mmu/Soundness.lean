import Turtle.CoreFacts
import Turtle.Mmu.DataWalk
import Turtle.Mmu.FetchWalk

/-!
# The page-table walkers implement Sv32

EXEC meets the two assumptions of the closed data side: its requests have one of
the three kinds, and it keeps showing a request while it waits. With them, whatever
either walker forwards to memory is permitted by the reference translation.
-/

namespace Turtle

open Sv32 Sv32.Pte

namespace Exec

variable {e : Exec} {i : ExecIn} {c : ExecComb}

theorem execCsr_dmemReqAck (write : Bool) : (e.execCsr i c write).dmemReqAck = c.dmemReqAck := by
  rcases e.execCsr_result i c write with ⟨v, f, h⟩ | ⟨a, h⟩
  · rw [h]
  · rw [h]
    rfl

theorem jump_dmemReqAck (target : BitVec 32) : (c.jump target).dmemReqAck = c.dmemReqAck := by
  unfold ExecComb.jump
  dsimp only
  split <;> rfl

theorem branch_dmemReqAck (taken : Bool) :
    (c.branch i.idEx taken).dmemReqAck = c.dmemReqAck := by
  cases taken with
  | false => rfl
  | true => exact jump_dmemReqAck _

/-- Only memory instructions raise a request, in the cycle in which they arrive. -/
theorem execType_dmemReqAck : (e.execType i c).dmemReqAck =
    if i.idEx.type.group ∈ [.load, .store, .atomic] then !i.wbStall else c.dmemReqAck := by
  unfold execType
  dsimp only
  cases i.idEx.type
  all_goals first
    | rfl
    | exact execCsr_dmemReqAck _
    | exact jump_dmemReqAck _
    | exact branch_dmemReqAck _
    | (dsimp only; split <;> rfl)

theorem execComb_dmemReqAck (h : (e.execComb i).dmemReqAck = true) :
    i.rst = false ∧ i.wbStall = false ∧ i.idEx.type.group ∈ [.load, .store, .atomic] := by
  obtain ⟨hrst, -, -, hcomb⟩ :=
    executed_of_decision (P := fun c => c.dmemReqAck = true) (by simp) h
  rw [hcomb, execType_dmemReqAck] at h
  split at h
  · exact ⟨hrst, by simpa using h, ‹_›⟩
  · cases h

end Exec

namespace Core

variable {entry : BitVec 32} {s : Core} {i j : CoreIn}

/-- The requests of EXEC have one of the three kinds. -/
theorem Reachable.request_proper (hs : Reachable entry s)
    (h : (s.out entry i).exToDmmu.dmemReqAck = true) : (s.out entry i).exToDmmu.Proper := by
  obtain ⟨hrst, -, hgroup⟩ := Exec.execComb_dmemReqAck h
  have hdecoded := hs.holdsLatched.latched.toDecoded
  have hkinds : ((s.out entry i).exToDmmu.dmemIsLoad, (s.out entry i).exToDmmu.dmemIsStore,
      (s.out entry i).exToDmmu.dmemIsAmo) = s.idEx.kinds := by
    have hrst : i.rstComb = false := hrst
    simp [out, Exec.execOut, Exec.mmuReq, execIn, IdEx.kinds, hrst]
  have hgroup : s.idEx.type.group ∈ [.load, .store, .atomic] := hgroup
  simp only [List.mem_cons, List.not_mem_nil, or_false] at hgroup
  rw [DmemIn.Proper, hkinds]
  rcases hgroup with hgroup | hgroup | hgroup
  · rw [hdecoded.load_kind hgroup]
    decide
  · rw [hdecoded.store_kind hgroup]
    decide
  · rw [hdecoded.atomic_kind hgroup]
    decide

/-- While EXEC stalls, it keeps showing its request without the `ack`. -/
theorem request_of_stall (hstall : (s.out entry i).stall = true) (hi : i.rstComb = false)
    (hj : j.rstComb = false) :
    ((step entry s i).out entry j).exToDmmu =
      { (s.out entry i).exToDmmu with dmemReqAck := false } := by
  have hrst : i.rst = false := by
    by_contra h
    exact Bool.false_ne_true (hi.symm.trans (i.rst_held (by simpa using h)))
  have hkeep : (step entry s i).idEx = s.idEx := idEx_of_stall hstall
  have hwait : (step entry s i).wb.wbStall = true := (wbStall_step hrst).trans hstall
  have hquiet : ((step entry s i).comb entry j).dmemReqAck = false := by
    by_contra h
    have hack : ((step entry s i).comb entry j).dmemReqAck = true := by simpa using h
    have hnot := (Exec.execComb_dmemReqAck hack).2.1
    exact Bool.false_ne_true (hnot.symm.trans hwait)
  simp only [out, Exec.execOut, Exec.mmuReq, execIn, hkeep, hi, hj, hquiet]

end Core

/-- Sv32 soundness of the page-table walkers. For every memory, control state and
translation mode: in every run of the data side from an idle state, an access that
a walk forwards is permitted by the reference translation and goes to the address
it gives, with operation, data and size unchanged; in every run of the instruction
side, so is the fetch of the word at `immu_pc`. -/
theorem walks_sound (e : Exec) (mem : BitVec 32 → BitVec 32) (mode : Mode) :
    (e.dataPriv = (modePriv mode).setWidth 8 →
      ∀ w : DataWalk, w.Idle → ∀ is : List DataWalkIn,
        ∀ c ∈ Clocked.trace (DataWalk.step e mem) Prod.mk w is,
          c.1.Walking → (DataWalk.step e mem c.1 c.2).Forwards →
          DataWalk.Translated e mem mode c.1.req (DataWalk.step e mem c.1 c.2).mmu.dmmuToMem) ∧
    (e.priv = modePriv mode →
      ∀ w : FetchWalk, w.Idle → ∀ is : List FetchWalkIn,
        ∀ c ∈ Clocked.trace (FetchWalk.step e mem) Prod.mk w is,
          FetchWalk.Walking mem c.1 c.2 → (FetchWalk.step e mem c.1 c.2).Forwards →
          FetchWalk.Translated e mem mode c.1.mmu.immuPc
            (FetchWalk.step e mem c.1 c.2).mmu.immuToMem) :=
  ⟨fun hmode _ hw _ => DataWalk.translated_of_forwards hw.inv hmode,
    fun hpriv _ hw _ => FetchWalk.translated_of_forwards hw.inv hpriv⟩

/-- A supervisor with one region of physical memory and a page table at `0x80000000`. -/
def supervisorExec : Exec :=
  { priv := privS
    pmp :=
      { pmpaddr := Function.update (fun _ => 0) 0 0x3fffffff
        pmpconfig := Function.update (fun _ => 0) 0 15
        pmpentryId := Function.update (fun _ => false) 0 true }
    csrRegs := Function.update (fun _ => 0) Csr.satp 0x80080000 }

/-- A table that maps the first page to `0x80002000`, readable, writable and
executable. -/
def onePage (addr : BitVec 32) : BitVec 32 :=
  if addr = 0x80000000 then 0x20000401 else if addr = 0x80001000 then 0x200008cf else 0

/-- A store, with one cycle in which memory does not answer. -/
def storeRun : List DataWalkIn :=
  [{ req := { dmemReqAck := true, dmemAddr := 0x10, dmemIsStore := true } },
    { respond := true }, {}, { respond := true }]

/-- A fetch, with one cycle in which memory does not answer. -/
def fetchRun : List FetchWalkIn :=
  [{ fetchPc := 0x12, ifIdAccept := true }, { respond := true }, {}, { respond := true }]

/-- A store and a fetch whose walks reach the second level. -/
theorem walks_sound_onePage :
    (∃ c ∈ Clocked.trace (DataWalk.step supervisorExec onePage) Prod.mk {} storeRun,
      c.1.Walking ∧ (DataWalk.step supervisorExec onePage c.1 c.2).Forwards ∧
      DataWalk.Translated supervisorExec onePage .supervisor c.1.req
        (DataWalk.step supervisorExec onePage c.1 c.2).mmu.dmmuToMem) ∧
    (∃ c ∈ Clocked.trace (FetchWalk.step supervisorExec onePage) Prod.mk {} fetchRun,
      FetchWalk.Walking onePage c.1 c.2 ∧ (FetchWalk.step supervisorExec onePage c.1 c.2).Forwards ∧
      FetchWalk.Translated supervisorExec onePage .supervisor c.1.mmu.immuPc
        (FetchWalk.step supervisorExec onePage c.1 c.2).mmu.immuToMem) := by
  obtain ⟨hdata, hfetch⟩ := walks_sound supervisorExec onePage .supervisor
  constructor
  · have hwalking := List.mem_of_getElem?
      (l := Clocked.trace (DataWalk.step supervisorExec onePage) Prod.mk {} storeRun) (i := 3) rfl
    refine ⟨_, hwalking, .inr (by decide), ⟨by decide, by decide⟩, ?_⟩
    exact hdata (by decide) {} ⟨rfl, rfl⟩ _ _ hwalking (.inr (by decide))
      ⟨by decide, by decide⟩
  · have hwalking := List.mem_of_getElem?
      (l := Clocked.trace (FetchWalk.step supervisorExec onePage) Prod.mk {} fetchRun) (i := 3) rfl
    refine ⟨_, hwalking, ⟨.inr (by decide), by decide⟩,
      ⟨by decide, by decide⟩, ?_⟩
    exact hfetch (by decide) {} ⟨rfl, rfl⟩ _ _ hwalking
      ⟨.inr (by decide), by decide⟩ ⟨by decide, by decide⟩

end Turtle
