import Turtle.Cpu

/-!
# Every pc is even

Relative offsets, masked targets and increments of 2 and 4 keep `ex_pc`, `npc` and
`fetch_pc` even, so that no jump or branch ever meets the trap for a misaligned target.
Nothing of this depends on what the control and status registers hold.
-/

namespace Turtle

open Bits

/-- The target that `JAL`, `JALR` and a taken branch test and go to. -/
def IdEx.jumpTarget (d : IdEx) : Option (BitVec 32) :=
  match d.type with
  | .jal | .beq | .bne | .blt | .bge | .bltu | .bgeu => some (d.pc + d.imm)
  | .jalr => some ((d.rs1Val + d.imm) &&& ~~~1)
  | _ => none

namespace Exec

/-- A cycle that traps with `INSTR_ADDR_MISALIGNED`. -/
def TrapsMisaligned (c : ExecComb) : Prop :=
  c.onTrap = true ∧ c.cause = ExceptionCause.instrAddrMisaligned.code

variable {e : Exec} {i : ExecIn} {c : ExecComb} {target : BitVec 32}

/-- A decision that does not trap, or traps for another reason. -/
theorem not_misaligned_of_trap (h : c.onTrap = false ∨ c.cause ≠ 0) : ¬ TrapsMisaligned c := by
  rintro ⟨htrap, hcause⟩
  rcases h with h | h
  · rw [h] at htrap
    cases htrap
  · exact h hcause

theorem jump_misaligned (hc : c.onTrap = false) (h : TrapsMisaligned (c.jump target)) :
    ¬ EvenWord target := by
  intro heven
  have hbit : ¬ target &&& 1 ≠ 0 := mt and_one_ne_zero_iff.mp (not_not.mpr heven)
  unfold ExecComb.jump at h
  dsimp only at h
  rw [if_neg hbit] at h
  exact not_misaligned_of_trap (.inl hc) h

theorem branch_misaligned {taken : Bool} (hc : c.onTrap = false)
    (h : TrapsMisaligned (c.branch i.idEx taken)) : ¬ EvenWord (i.idEx.pc + i.idEx.imm) := by
  cases taken with
  | false => exact absurd h (not_misaligned_of_trap (.inl hc))
  | true => exact jump_misaligned (c := { c with exRdVal := i.idEx.pc + i.idEx.imm }) hc h

theorem execJump_misaligned (hc : c.onTrap = false) (h : TrapsMisaligned (execJump i c target)) :
    ¬ EvenWord target :=
  jump_misaligned (c := { c with exRdVal := i.idEx.pc + (if i.idEx.isCompressed then 2 else 4) })
    hc h

/-- A fault that the DMMU reports has a code of its own. -/
theorem fault_not_misaligned {fault : BitVec 8} (htrap : c.onTrap = (fault != 0))
    (hcause : c.cause = fault.setWidth 32) : ¬ TrapsMisaligned c := by
  refine not_misaligned_of_trap ?_
  by_cases hfault : fault = 0
  · left
    rw [htrap, hfault]
    rfl
  · right
    rw [hcause]
    intro hzero
    exact hfault (by simpa using congrArg (BitVec.setWidth 8) hzero)

theorem execCsr_not_misaligned {write : Bool} (hc : c.onTrap = false) :
    ¬ TrapsMisaligned (e.execCsr i c write) := by
  rcases e.execCsr_result i c write with ⟨v, f, h⟩ | ⟨a, h⟩
  · rw [h]
    exact not_misaligned_of_trap (.inl hc)
  · have hcode : ExceptionCause.illegalInstr.code ≠ 0 := by decide
    rw [h]
    exact not_misaligned_of_trap (.inr hcode)

/-- An instruction traps with `INSTR_ADDR_MISALIGNED` only at an odd target. -/
theorem execType_misaligned (hc : c.onTrap = false) (h : TrapsMisaligned (e.execType i c)) :
    ∃ t ∈ i.idEx.jumpTarget, ¬ EvenWord t := by
  have hillegal : ExceptionCause.illegalInstr.code ≠ 0 := by decide
  unfold execType at h
  dsimp only at h
  unfold IdEx.jumpTarget
  cases ht : i.idEx.type <;> rw [ht] at h <;> dsimp only at h ⊢
  case jal => exact ⟨_, rfl, execJump_misaligned hc h⟩
  case jalr => exact ⟨_, rfl, execJump_misaligned hc h⟩
  case beq => exact ⟨_, rfl, branch_misaligned hc h⟩
  case bne => exact ⟨_, rfl, branch_misaligned hc h⟩
  case blt => exact ⟨_, rfl, branch_misaligned hc h⟩
  case bge => exact ⟨_, rfl, branch_misaligned hc h⟩
  case bltu => exact ⟨_, rfl, branch_misaligned hc h⟩
  case bgeu => exact ⟨_, rfl, branch_misaligned hc h⟩
  case csrrw => exact absurd h (execCsr_not_misaligned hc)
  case csrrs => exact absurd h (execCsr_not_misaligned hc)
  case csrrc => exact absurd h (execCsr_not_misaligned hc)
  case csrrwi => exact absurd h (execCsr_not_misaligned hc)
  case csrrsi => exact absurd h (execCsr_not_misaligned hc)
  case csrrci => exact absurd h (execCsr_not_misaligned hc)
  case ecall =>
    refine absurd h (not_misaligned_of_trap (.inr ?_))
    dsimp only
    split_ifs <;> decide
  case ebreak =>
    have hbreak : ExceptionCause.breakpoint.code ≠ 0 := by decide
    exact absurd h (not_misaligned_of_trap (.inr hbreak))
  case invalid => exact absurd h (not_misaligned_of_trap (.inr hillegal))
  case sfenceVma =>
    refine absurd h (not_misaligned_of_trap ?_)
    split
    · exact .inr hillegal
    · exact .inl rfl
  case wfi =>
    refine absurd h (not_misaligned_of_trap ?_)
    split
    · exact .inr hillegal
    · exact .inl hc
  case sret =>
    refine absurd h (not_misaligned_of_trap ?_)
    split
    · exact .inr hillegal
    · exact .inl hc
  case fenceI => exact absurd h (not_misaligned_of_trap (.inl rfl))
  -- What is left writes a result, or reports a fault code of the DMMU.
  all_goals first
    | exact absurd h (not_misaligned_of_trap (.inl hc))
    | exact absurd h (fault_not_misaligned rfl rfl)

theorem checkInterrupt_ne_zero {p : Platform} {cause : BitVec 32}
    (h : e.checkInterrupt p = some cause) : cause ≠ 0 := by
  unfold checkInterrupt at h
  split at h
  · cases h
  · cases h
    intro hzero
    have hbit := congrArg (BitVec.getLsbD · 31) hzero
    simp at hbit

/-- A cycle traps with `INSTR_ADDR_MISALIGNED` only at an odd target. -/
theorem execComb_misaligned (hlatched : Latched i.idEx) (h : TrapsMisaligned (e.execComb i)) :
    ∃ t ∈ i.idEx.jumpTarget, ¬ EvenWord t := by
  rcases execComb_cases e i with ⟨-, hcomb⟩ | ⟨-, cause, hint, hcomb⟩ | ⟨-, -, hcomb⟩ |
    ⟨-, -, htrap, hcomb⟩ | ⟨-, -, -, hcomb⟩ <;> rw [hcomb] at h
  · exact absurd h (not_misaligned_of_trap (.inl rfl))
  · exact absurd h (not_misaligned_of_trap (.inr (checkInterrupt_ne_zero hint)))
  · exact absurd h (not_misaligned_of_trap (.inl rfl))
  · refine absurd h (not_misaligned_of_trap (.inr ?_))
    rcases hlatched.trap_cause htrap with hcause | hcause | hcause
    all_goals
      change i.idEx.cause ≠ 0
      rw [hcause]
      decide
  · exact execType_misaligned rfl h

end Exec

/-- A decoded instruction at an even pc goes to even targets only. -/
theorem Decoded.even_jumpTarget {d : IdEx} (h : Decoded d) (hpc : EvenWord d.pc) {t : BitVec 32}
    (ht : t ∈ d.jumpTarget) : EvenWord t := by
  unfold IdEx.jumpTarget at ht
  cases htype : d.type <;> rw [htype] at ht <;> dsimp only at ht
  case jalr =>
    rw [← Option.mem_some.mp ht]
    exact even_and_not_one _
  all_goals first
    | (rw [← Option.mem_some.mp ht]
       exact hpc.add (h.even_offset (by rw [htype]; rfl)))
    | cases ht

namespace Cpu

/-- The processor with other contents in the privilege, PMP and CSR registers of EXEC. -/
def withExec (s : Cpu) (e : Exec) : Cpu := { s with core := { s.core with exec := e } }

/-- One clock cycle before which these registers were given any contents. -/
def stepOver (entry : BitVec 32) (s : Cpu) (c : Exec × CpuIn) : Cpu :=
  step entry (s.withExec c.1) c.2

/-- The states that a run from reset can visit when these registers may change arbitrarily
between its cycles. -/
def FreelyReachable (entry : BitVec 32) : Cpu → Prop :=
  Clocked.Reachable (stepOver entry) (Started entry)

/-- What holds of a cycle of the processor. -/
structure EvenCycle (entry : BitVec 32) (s : Cpu) (i : CpuIn) : Prop where
  exPc : EvenWord s.core.wb.exPc
  npc : EvenWord (s.core.out entry (s.coreIn i)).npc
  fetchPc : EvenWord s.front.fetchPc
  jumpTarget : ∀ t ∈ s.core.idEx.jumpTarget, EvenWord t
  aligned : ¬ Exec.TrapsMisaligned (s.core.comb entry (s.coreIn i))

/-- The pcs that the registers hold are even. -/
structure EvenPcs (s : Cpu) : Prop where
  exPc : EvenWord s.core.wb.exPc
  idExPc : EvenWord s.core.idEx.pc
  latched : s.core.HoldsLatched
  front : s.front.Sound

variable {entry : BitVec 32} {s : Cpu} {i : CpuIn} {e : Exec}

/-- An ordinary run is one in which the registers keep what they hold. -/
theorem Reachable.freely (h : Reachable entry s) : FreelyReachable entry s := by
  induction h with
  | start hs => exact .start hs
  | @step s i _ ih => exact ih.step (s.core.exec, i)

/-- A register that holds an instruction holds the pc to which EXEC went for it. -/
theorem even_idExPc_step (hentry : EvenWord entry) (hpc : EvenWord s.core.wb.exPc)
    (hidEx : EvenWord s.core.idEx.pc) : EvenWord (step entry s i).core.idEx.pc := by
  have hnpc : EvenWord (s.core.out entry (s.coreIn i)).npc := frontIn_npc_even hentry hpc
  change EvenWord (instDecodeSeq i.core.rst (s.core.out entry (s.coreIn i)).stall
    (s.core.out entry (s.coreIn i)).flush (s.core.out entry (s.coreIn i)).npc
    (s.core.forward entry (s.coreIn i)) s.front.fetch.ifId s.core.idEx).pc
  rcases instDecodeSeq_cases i.core.rst (s.core.out entry (s.coreIn i)).stall
    (s.core.out entry (s.coreIn i)).flush (s.core.out entry (s.coreIn i)).npc
    (s.core.forward entry (s.coreIn i)) s.front.fetch.ifId s.core.idEx with
    ⟨-, hkeep⟩ | ⟨-, -, -, hoffered, hlatch⟩ | ⟨-, hbubble⟩
  · rwa [hkeep]
  · rw [hlatch, (latch_latched _ _).2, ← hoffered]
    exact hnpc
  · rw [hbubble]
    decide

theorem EvenPcs.step (h : s.EvenPcs) (hentry : EvenWord entry) : (step entry s i).EvenPcs where
  exPc := Core.exPc_even_step hentry h.exPc
  idExPc := even_idExPc_step hentry h.exPc h.idExPc
  latched := h.latched.step
  front := h.front.step fun _ => frontIn_npc_even hentry h.exPc

theorem EvenPcs.of_started (h : Started entry s) (hentry : EvenWord entry) : s.EvenPcs := by
  have hfront := (Reachable.front_running (.start h) hentry).sound
  have hpc : EvenWord ({} : Core).wb.exPc := by decide
  have hidEx : EvenWord ({} : Core).idEx.pc := by decide
  obtain ⟨front, i, -, hrst, rfl⟩ := h
  exact ⟨Core.exPc_even_step hentry hpc, even_idExPc_step hentry hpc hidEx,
    Core.holdsLatched_of_rst hrst, hfront⟩

theorem FreelyReachable.evenPcs (h : FreelyReachable entry s) (hentry : EvenWord entry) :
    s.EvenPcs :=
  Clocked.Reachable.invariant (P := EvenPcs) (fun _ hs => .of_started hs hentry)
    (fun _ c hs => (EvenPcs.mk hs.exPc hs.idExPc hs.latched hs.front : (withExec _ c.1).EvenPcs)
      |>.step hentry) h

/-- From an even entry point every pc is even in every cycle, whatever the control and status
registers hold, and no jump or branch meets a misaligned target. -/
theorem pc_even (entry : BitVec 32) (hentry : EvenWord entry) (s : Cpu)
    (hs : FreelyReachable entry s) (e : Exec) (i : CpuIn) :
    (s.withExec e).EvenCycle entry i := by
  have hpcs := hs.evenPcs hentry
  have htarget : ∀ t ∈ s.core.idEx.jumpTarget, EvenWord t := fun t ht =>
    hpcs.latched.latched.toDecoded.even_jumpTarget hpcs.idExPc ht
  refine ⟨hpcs.exPc, frontIn_npc_even hentry hpcs.exPc, hpcs.front.even_fetchPc, htarget, ?_⟩
  intro hmis
  obtain ⟨t, ht, hodd⟩ := Exec.execComb_misaligned hpcs.latched.latched hmis
  exact hodd (htarget t ht)

/-- The processor after the first reset cycle, with odd trap vectors and return addresses. -/
theorem pc_even_after_reset :
    ((step 0x80000000 {} { core := { rst := true, rstComb := true } }).withExec
      { csrRegs := fun _ => 3 }).EvenCycle 0x80000000 {} :=
  pc_even 0x80000000 (by decide) _ (.start ⟨{}, _, ⟨rfl, rfl⟩, rfl, rfl⟩) _ _

end Cpu

end Turtle
