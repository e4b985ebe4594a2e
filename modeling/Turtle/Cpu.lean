import Turtle.FrontendQueue
import Turtle.TrapReturn

/-!
# The processor

`cpu.hpp` joins the front end to Decode and EXEC: EXEC sends `stall`, `flush`,
`branch_taken` and `npc` to the front end, and the fetch buffer shows its
instruction to Decode. The DMMU, MEXT, memory and the platform lines are the
environment. Every run of the processor is a run of the front end to which EXEC
only sends even addresses.
-/

namespace Turtle

open Bits

/-- The registers of the processor. -/
structure Cpu where
  core : Core := {}
  front : Frontend := {}

/-- The inputs of one cycle. The outputs of the fetch buffer stand in for the ones
of `core`. -/
structure CpuIn where
  core : CoreIn := {}
  tlb : Tlb := {}
  junk : TlbEntry := {}
  rsp : MemOut := {}

namespace Cpu

/-- The inputs of Decode and EXEC. -/
def coreIn (s : Cpu) (i : CpuIn) : CoreIn := { i.core with ifId := s.front.fetch.ifId }

/-- The inputs of the front end. -/
def frontIn (entry : BitVec 32) (s : Cpu) (i : CpuIn) : FrontendIn :=
  let o := s.core.out entry (s.coreIn i)
  { rst := i.core.rst, stall := o.stall, flush := o.flush, branchTaken := o.branchTaken,
    npc := o.npc, exec := s.core.exec, tlb := i.tlb, junk := i.junk, rsp := i.rsp }

/-- One clock cycle. -/
def step (entry : BitVec 32) (s : Cpu) (i : CpuIn) : Cpu :=
  { core := s.core.step entry (s.coreIn i), front := s.front.step (s.frontIn entry i) }

/-- The states right after the first reset cycle of a powered-up processor. -/
def Started (entry : BitVec 32) (s : Cpu) : Prop :=
  ∃ (front : Frontend) (i : CpuIn), front.Started ∧ i.core.rst = true ∧
    s = step entry { front := front } i

/-- The states that a run from reset can visit. -/
def Reachable (entry : BitVec 32) : Cpu → Prop :=
  Clocked.Reachable (step entry) (Started entry)

variable {entry : BitVec 32} {s : Cpu} {i : CpuIn}

/-- What EXEC sends to the front end along a run. -/
def frontIns (entry : BitVec 32) : Cpu → List CpuIn → List FrontendIn :=
  Clocked.trace (step entry) (frontIn entry)

theorem front_run (is : List CpuIn) : (Clocked.run (step entry) s is).front =
    Clocked.run Frontend.step s.front (frontIns entry s is) := by
  induction is generalizing s with
  | nil => rfl
  | cons i is ih => exact ih

theorem Reachable.core (h : Reachable entry s) : Core.Reachable entry s.core := by
  induction h with
  | start hs =>
    obtain ⟨front, i, -, hrst, rfl⟩ := hs
    exact .start ⟨coreIn { front := front } i, hrst, rfl⟩
  | step i _ ih => exact ih.step _

/-- EXEC only sends even addresses. -/
theorem frontIn_npc_even (hentry : EvenWord entry) (h : EvenWord s.core.wb.exPc) :
    EvenWord (s.frontIn entry i).npc := by
  have heven := Core.exPc_even_step (i := s.coreIn i) hentry h
  rwa [Core.exPc_step] at heven

/-- The front end of the processor runs as a front end does. -/
theorem Reachable.front_running (h : Reachable entry s) (hentry : EvenWord entry) :
    s.front.Running := by
  induction h with
  | start hs =>
    obtain ⟨front, i, hstarted, hrst, rfl⟩ := hs
    have hpc : EvenWord ({} : Core).wb.exPc := by decide
    exact .start ⟨front, ⟨_, frontIn_npc_even hentry hpc⟩, hstarted, hrst, rfl⟩
  | step i hs ih =>
    have heven := frontIn_npc_even (i := i) hentry (Reachable.core hs |>.exPc_even hentry)
    exact Clocked.Reachable.step (⟨_, heven⟩ : Frontend.EvenIn) ih

theorem front_after (s : Cpu) (i : CpuIn) (js : List CpuIn) (k : CpuIn) :
    (Clocked.run (step entry) s (i :: js ++ [k])).front =
      Frontend.step (Clocked.run Frontend.step s.front
        (s.frontIn entry i :: frontIns entry (step entry s i) js))
        (frontIn entry (Clocked.run (step entry) s (i :: js)) k) := by
  rw [Clocked.run_append, Clocked.run_cons, Clocked.run_nil]
  change Frontend.step (Clocked.run (step entry) s (i :: js)).front _ = _
  rw [front_run]
  rfl

end Cpu

end Turtle
