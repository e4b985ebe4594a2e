import Turtle.CoreFacts

/-!
# Decode and EXEC execute the program in order

A sequential machine has a program counter and a slot for at most one
instruction. It takes an instruction into the slot only at its own program
counter, and an instruction leaves the slot only by retiring, by a trap that
saves its pc, or by a reset. Every run of the two pipeline stages is a run of
this machine.
-/

namespace Turtle

/-- What a cycle does with the slot. A retired instruction comes with its next pc,
a trap with the saved pc and the handler's address. -/
inductive Event
  | reset (dropped : Option IdEx)
  | bubble
  | stall (d : IdEx)
  | retire (d : IdEx) (n : BitVec 32)
  | trap (dropped : Option IdEx) (epc target : BitVec 32)

/-- The instructions that an event takes out of the slot. -/
def Event.leaves : Event → List IdEx
  | .reset dropped => dropped.toList
  | .bubble => []
  | .stall _ => []
  | .retire d _ => [d]
  | .trap dropped _ _ => dropped.toList

/-- The events in which nothing leaves the slot. -/
def Event.Quiet : Event → Prop
  | .bubble => True
  | .stall _ => True
  | _ => False

/-- The event is about the instruction at `pc`: it holds it up, retires it, or
saves its address. -/
def Event.At (pc : BitVec 32) : Event → Prop
  | .reset _ => True
  | .bubble => True
  | .stall d => d.pc = pc
  | .retire d _ => d.pc = pc
  | .trap _ epc _ => epc = pc

/-- A cycle as seen from outside: its event and the instruction latched at its end. -/
structure Cycle where
  event : Event
  latched : Option IdEx

/-- The state of the sequential machine: the address of the first instruction
that has not retired, and the instruction being executed, if any. -/
structure Sequential where
  pc : BitVec 32
  slot : Option IdEx

/-- The slot holds nothing but the instruction at the program counter. -/
def Sequential.Valid (a : Sequential) : Prop := ∀ d ∈ a.slot, d.pc = a.pc

/-- One cycle of the sequential machine. -/
inductive Sequential.Step (entry : BitVec 32) : Sequential → Cycle → Sequential → Prop
  | reset {a : Sequential} {next : Option IdEx} :
      Sequential.Step entry a ⟨.reset a.slot, next⟩ ⟨entry, next⟩
  | bubble {pc : BitVec 32} {next : Option IdEx} :
      Sequential.Step entry ⟨pc, none⟩ ⟨.bubble, next⟩ ⟨pc, next⟩
  | stall {pc : BitVec 32} {d : IdEx} :
      Sequential.Step entry ⟨pc, some d⟩ ⟨.stall d, none⟩ ⟨pc, some d⟩
  | retire {pc n : BitVec 32} {d : IdEx} {next : Option IdEx} :
      Sequential.Step entry ⟨pc, some d⟩ ⟨.retire d n, next⟩ ⟨n, next⟩
  | trap {a : Sequential} {target : BitVec 32} :
      Sequential.Step entry a ⟨.trap a.slot a.pc target, none⟩ ⟨target, none⟩

/-- A step between valid states. -/
def Sequential.ValidStep (entry : BitVec 32) (a : Sequential) (c : Cycle) (b : Sequential) : Prop :=
  a.Valid ∧ Sequential.Step entry a c b ∧ b.Valid

namespace Sequential

open Clocked

variable {entry : BitVec 32} {a b : Sequential}

/-- The event of a step is about the instruction at the program counter. -/
theorem ValidStep.event_at {c : Cycle} (h : ValidStep entry a c b) : c.event.At a.pc := by
  obtain ⟨hvalid, hstep, -⟩ := h
  cases hstep with
  | reset => trivial
  | bubble => trivial
  | stall => exact hvalid _ rfl
  | retire => exact hvalid _ rfl
  | trap => rfl

/-- A retired instruction moves the program counter to its next pc. -/
theorem ValidStep.pc_of_retire {c : Cycle} {d : IdEx} {n : BitVec 32}
    (h : ValidStep entry a c b) (hc : c.event = .retire d n) : b.pc = n := by
  obtain ⟨-, hstep, -⟩ := h
  cases hstep with
  | retire =>
    cases hc
    rfl
  | _ => cases hc

/-- Quiet cycles leave the program counter alone. -/
theorem pc_of_quiet {cs : List Cycle} (h : LabelledRun (ValidStep entry) a cs b)
    (hquiet : ∀ c ∈ cs, c.event.Quiet) : b.pc = a.pc := by
  induction h with
  | nil => rfl
  | cons hstep hrest ih =>
    rw [ih fun c hc => hquiet c (List.mem_cons_of_mem _ hc)]
    have hfirst := hquiet _ List.mem_cons_self
    obtain ⟨-, hstep, -⟩ := hstep
    cases hstep with
    | bubble => rfl
    | stall => rfl
    | _ => exact hfirst.elim

/-- After an instruction retires with next pc `n`, and any number of quiet
cycles, the next event is about the instruction at `n`. -/
theorem event_after_retire {pre mid post : List Cycle} {r c : Cycle} {d : IdEx} {n : BitVec 32}
    (h : LabelledRun (ValidStep entry) a (pre ++ r :: (mid ++ c :: post)) b)
    (hr : r.event = .retire d n) (hquiet : ∀ m ∈ mid, m.event.Quiet) : c.event.At n := by
  obtain ⟨a₁, -, h⟩ := h.split
  cases h with
  | cons hretire hrest =>
    obtain ⟨a₂, hmid, hpost⟩ := hrest.split
    cases hpost with
    | cons hstep _ =>
      have hpc : a₂.pc = n := by
        rw [pc_of_quiet hmid hquiet, hretire.pc_of_retire hr]
      rw [← hpc]
      exact hstep.event_at

/-- Every instruction latched into the slot leaves it once, in the order of
latching, or is still there. -/
theorem latched_eq_leaves {cs : List Cycle} (h : LabelledRun (ValidStep entry) a cs b) :
    a.slot.toList ++ cs.flatMap (fun c => c.latched.toList) =
      cs.flatMap (fun c => c.event.leaves) ++ b.slot.toList := by
  induction h with
  | nil => simp
  | cons hstep hrest ih =>
    obtain ⟨-, hstep, -⟩ := hstep
    cases hstep <;> simp_all [Event.leaves]

end Sequential

namespace Core

/-- The instruction in the slot, if it is not a bubble. -/
def slot (s : Core) : Option IdEx := if s.idEx.flush then none else some s.idEx

/-- The state of the sequential machine that a pipeline state stands for. -/
def sequential (s : Core) : Sequential := ⟨s.wb.exPc, s.slot⟩

/-- The event of a cycle. -/
def event (entry : BitVec 32) (s : Core) (i : CoreIn) : Event :=
  if i.rstComb then .reset s.slot
  else if (s.comb entry i).onTrap then .trap s.slot (s.comb entry i).epc (s.out entry i).npc
  else match s.slot with
    | none => .bubble
    | some d => if (s.out entry i).stall then .stall d else .retire d (s.out entry i).npc

/-- The instruction that `inst_decode_seq` takes from the fetch buffer at the end
of a cycle, if any. -/
def latched (entry : BitVec 32) (s : Core) (i : CoreIn) : Option IdEx :=
  let o := s.out entry i
  if o.stall || o.flush || i.rst || o.npc != i.ifId.ifIdPc || i.ifId.ifIdFlush then none
  else some (latch (s.forward entry i) i.ifId)

/-- The cycle as the sequential machine sees it. -/
def cycle (entry : BitVec 32) (s : Core) (i : CoreIn) : Cycle :=
  ⟨s.event entry i, s.latched entry i⟩

variable {entry : BitVec 32} {s : Core} {i : CoreIn}

/-- A stalled cycle keeps the slot, any other one refills it. -/
theorem slot_step :
    (step entry s i).slot = if (s.out entry i).stall then s.slot else s.latched entry i := by
  unfold step slot latched instDecodeSeq
  dsimp only
  by_cases hstall : (s.out entry i).stall = true
  · simp only [hstall, if_true]
  · split_ifs <;> simp_all [bubble, latch_flush]

/-- An instruction is latched at the next pc, and never in a reset cycle. -/
theorem pc_of_latched {d : IdEx} (h : d ∈ s.latched entry i) :
    d.pc = (s.out entry i).npc ∧ i.rst = false := by
  unfold latched at h
  dsimp only at h
  split_ifs at h with hnone
  · cases h
  · cases h
    simp only [Bool.or_eq_true, bne_iff_ne, ne_eq, not_or, Bool.not_eq_true, not_not] at hnone
    exact ⟨(latch_latched _ _).2.trans hnone.1.2.symm, hnone.1.1.2⟩

/-- Nothing is latched in a cycle that stalls or traps. -/
theorem latched_of_stall (h : (s.comb entry i).stall = true) : s.latched entry i = none := by
  simp [latched, out, Exec.execOut, h]

theorem latched_of_trap (h : (s.comb entry i).onTrap = true) : s.latched entry i = none := by
  simp [latched, out, Exec.execOut, h]

/-- In a valid state the saved pc is the program counter. -/
theorem epc_eq (hvalid : s.sequential.Valid) : (s.comb entry i).epc = s.wb.exPc := by
  have hfacts : Exec.CombFacts (s.execIn entry i) (s.comb entry i) := comb_facts
  rcases hfacts.epc_eq with h | ⟨h, hflush⟩
  · exact h
  · rw [h]
    exact hvalid s.idEx (by simp [sequential, slot, show s.idEx.flush = false from hflush])

/-- The event of a cycle is a step of the sequential machine. -/
theorem sequential_step (hvalid : s.sequential.Valid) :
    Sequential.Step entry s.sequential (s.cycle entry i) (step entry s i).sequential := by
  have hslot : (step entry s i).slot = _ := slot_step
  have hpc : (step entry s i).wb.exPc = _ := exPc_step
  have hstall_eq : (s.out entry i).stall = (s.comb entry i).stall := rfl
  rw [hstall_eq] at hslot
  unfold cycle event sequential
  by_cases hrst : i.rstComb = true
  · -- The reset level at the falling edge alone already sends `ex_pc` to the entry.
    have hnext : (step entry s i).slot = s.latched entry i := by
      simpa [comb_of_rst hrst] using hslot
    rw [if_pos hrst, hpc, npc_of_rst hrst, hnext]
    exact .reset
  rw [if_neg hrst]
  by_cases htrap : (s.comb entry i).onTrap = true
  · have hnext : (step entry s i).slot = none := by
      rw [hslot, stall_of_trap htrap, latched_of_trap htrap, if_neg Bool.false_ne_true]
    rw [if_pos htrap, epc_eq hvalid, latched_of_trap htrap, hnext, hpc]
    exact .trap
  rw [if_neg htrap]
  cases hd : s.slot with
  | none =>
    have hflush : s.idEx.flush = true := by
      by_contra h
      simp [slot, h] at hd
    have hcomb := comb_of_bubble (by simpa using hrst) (by simpa using htrap) hflush
    have hexPc : (step entry s i).wb.exPc = s.wb.exPc := by
      rw [hpc]
      simp [out, Exec.execOut, Exec.npcOut, hcomb]
    have hnext : (step entry s i).slot = s.latched entry i := by
      simpa [hcomb] using hslot
    rw [hexPc, hnext]
    exact .bubble
  | some d =>
    dsimp only
    rw [hstall_eq]
    by_cases hstall : (s.comb entry i).stall = true
    · rw [if_pos hstall, latched_of_stall hstall, hpc, npc_of_stall hstall, hslot, if_pos hstall,
        hd]
      exact .stall
    · rw [if_neg hstall, hpc, hslot, if_neg hstall]
      exact .retire

/-- A cycle keeps the slot at the program counter. -/
theorem valid_step (hvalid : s.sequential.Valid) : (step entry s i).sequential.Valid := by
  intro d hd
  change d ∈ (step entry s i).slot at hd
  change d.pc = (step entry s i).wb.exPc
  rw [exPc_step]
  rw [slot_step] at hd
  by_cases hstall : (s.out entry i).stall = true
  · rw [if_pos hstall] at hd
    rw [npc_of_stall hstall]
    exact hvalid d hd
  · rw [if_neg hstall] at hd
    exact (pc_of_latched hd).1

/-- A reset cycle empties the slot, whatever it held before. -/
theorem valid_of_rst (h : i.rst = true) : (step entry s i).sequential.Valid := by
  intro d hd
  change d ∈ (step entry s i).slot at hd
  have hcomb : s.comb entry i = _ := comb_of_rst (i.rst_held h)
  rw [slot_step, if_neg (by simp [out, Exec.execOut, hcomb])] at hd
  have hnorst := (pc_of_latched hd).2
  simp [h] at hnorst

/-- In every reachable state the slot is at the program counter. -/
theorem Reachable.valid (h : Reachable entry s) : s.sequential.Valid := by
  refine Clocked.Reachable.invariant (P := fun s => s.sequential.Valid) ?_
    (fun _ _ => valid_step) h
  rintro s ⟨i, hrst, rfl⟩
  exact valid_of_rst hrst

/-- Every run from a reachable state is a run of the sequential machine. -/
theorem Reachable.sequential_run (h : Reachable entry s) (is : List CoreIn) :
    Clocked.LabelledRun (Sequential.ValidStep entry) s.sequential
      (Clocked.trace (step entry) (cycle entry) s is)
      (Clocked.run (step entry) s is).sequential :=
  Clocked.simulation (P := fun s => s.sequential.Valid) (fun _ _ => valid_step)
    (fun _ _ hvalid => ⟨hvalid, sequential_step hvalid, valid_step hvalid⟩) h.valid is

/-- Precise program order. In every reachable state an instruction in `ID_EX` is
at `ex_pc`, and `ex_pc` moves only to the computed next pc. Over every run, the cycles
are those of the sequential machine, whose traps save the address of the first
instruction that has not retired; what happens after a retirement with next pc `n`
happens to the instruction at `n`; and each latched instruction leaves the slot once,
in order. -/
theorem precise_program_order (entry : BitVec 32) (s : Core) (hs : Reachable entry s) :
    (s.idEx.flush = false → s.idEx.pc = s.wb.exPc) ∧
    (∀ i, (step entry s i).wb.exPc = (s.out entry i).npc) ∧
    ∀ is : List CoreIn,
      let cycles := Clocked.trace (step entry) (cycle entry) s is
      let last := Clocked.run (step entry) s is
      Clocked.LabelledRun (Sequential.ValidStep entry) s.sequential cycles last.sequential ∧
      (∀ pre r mid c post d n, cycles = pre ++ r :: (mid ++ c :: post) → r.event = .retire d n →
        (∀ m ∈ mid, m.event.Quiet) → c.event.At n) ∧
      s.slot.toList ++ cycles.flatMap (fun c => c.latched.toList) =
        cycles.flatMap (fun c => c.event.leaves) ++ last.slot.toList := by
  refine ⟨fun hflush => ?_, fun i => exPc_step, fun is => ?_⟩
  · exact hs.valid s.idEx (by simp [sequential, slot, hflush])
  · intro cycles last
    have hrun := hs.sequential_run is
    refine ⟨hrun, fun pre r mid c post d n hsplit hr hquiet => ?_,
      Sequential.latched_eq_leaves hrun⟩
    have hrun' : Clocked.LabelledRun (Sequential.ValidStep entry) s.sequential
        (pre ++ r :: (mid ++ c :: post)) last.sequential := hsplit ▸ hrun
    exact Sequential.event_after_retire hrun' hr hquiet

/-- A state with an instruction at the entry point in `ID_EX`. -/
theorem precise_program_order_after_reset :
    let s := step 0x80000000 (step 0x80000000 {} { rst := true, rstComb := true })
      { ifId := { ifIdInst := 0x00000013, ifIdPc := 0x80000000 } }
    s.idEx.flush = false ∧ s.idEx.pc = s.wb.exPc := by
  intro s
  have hs : Reachable 0x80000000 s := .step _ (.start ⟨_, rfl, rfl⟩)
  have hflush : s.idEx.flush = false := by decide
  exact ⟨hflush, (precise_program_order _ s hs).1 hflush⟩

end Core

end Turtle
