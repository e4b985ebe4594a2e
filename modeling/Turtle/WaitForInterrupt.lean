import Turtle.Counters
import Turtle.Delegation
import Turtle.ProgramOrder

/-!
# An interrupt that ends a `WFI`

A `WFI` stalls until an interrupt is pending, and the trap that ends it should save the
address behind it. The interrupt branch of `exec_comb` saves `ex_pc`, which a stalled
instruction does not move, so the handler returns to the `WFI` itself. `inst_ret` on the
other hand counts the interrupted `WFI` as retired.
-/

namespace Turtle

namespace Core

variable {entry : BitVec 32} {s : Core} {i : CoreIn} {is : List CoreIn}

/-- The exception pc of the mode that a trap has entered. -/
def savedEpc (s' : Core) : BitVec 32 :=
  s'.exec.csrRegs (if s'.exec.priv = privS then Csr.sepc else Csr.mepc)

/-- A `WFI` is in EX. -/
def Waits (s : Core) : Prop := s.idEx.flush = false ∧ s.idEx.type = .wfi

instance (s : Core) : Decidable s.Waits := inferInstanceAs (Decidable (_ ∧ _))

/-- The cycles of a `WFI` that stalls and is ended by an interrupt. -/
structure EndsWait (entry : BitVec 32) (s : Core) (is : List CoreIn) (i : CoreIn) : Prop where
  waits : s.Waits
  nonempty : is ≠ []
  stalls : ∀ c ∈ Clocked.trace (step entry) Prod.mk s is, (c.1.comb entry c.2).stall = true
  interrupted : (Clocked.run (step entry) s is).Interrupted i

/-- A trap saves its pc in the registers of the mode that it enters. -/
theorem savedEpc_of_trap (htrap : (s.comb entry i).onTrap = true) :
    savedEpc (step entry s i) = (s.comb entry i).epc &&& ~~~1 := by
  have hedge (a : BitVec 12) (ha : ¬ Exec.IsTimerCsr a) : (step entry s i).exec.csrRegs a =
      (s.exec.trap (s.comb entry i).cause (s.comb entry i).tval (s.comb entry i).epc).csrRegs a := by
    rw [csrRegs_step ha, Exec.commit_of_trap htrap]
  rw [savedEpc, priv_of_trap htrap]
  cases hdeleg : s.exec.delegatedToS (s.comb entry i).cause with
  | true =>
    rw [if_pos rfl, if_pos rfl, hedge _ (by decide)]
    exact ((Exec.entersS_of_delegated hdeleg).1 _ _).2.2.1
  | false =>
    rw [if_neg Bool.false_ne_true, if_neg (by decide), hedge _ (by decide)]
    exact ((Exec.entersM_of_not_delegated hdeleg).1 _ _).2.2.1

/-- Stalled cycles keep the instruction and its pc. -/
theorem held_of_stalls
    (h : ∀ c ∈ Clocked.trace (step entry) Prod.mk s is, (c.1.comb entry c.2).stall = true) :
    (Clocked.run (step entry) s is).idEx = s.idEx ∧
      (Clocked.run (step entry) s is).wb.exPc = s.wb.exPc := by
  induction is generalizing s with
  | nil => exact ⟨rfl, rfl⟩
  | cons j js ih =>
    have hstall : (s.comb entry j).stall = true := h (s, j) List.mem_cons_self
    obtain ⟨hidEx, hexPc⟩ := ih fun c hc => h c (List.mem_cons_of_mem _ hc)
    rw [Clocked.run_cons, hidEx, hexPc]
    exact ⟨idEx_of_stall hstall, exPc_step.trans (npc_of_stall hstall)⟩

/-- The interrupt that ends a `WFI` saves the address of the `WFI`, which counts as retired. -/
theorem EndsWait.trap (h : EndsWait entry s is i) (hs : Reachable entry s) :
    let t := Clocked.run (step entry) s is
    savedEpc (step entry t i) = s.idEx.pc &&& ~~~1 ∧
      Exec.instRet t.idEx (t.comb entry i) = true := by
  intro t
  obtain ⟨hidEx, hexPc⟩ := held_of_stalls h.stalls
  obtain ⟨cause, hcause, hcomb⟩ := @comb_of_interrupt entry t i h.interrupted.1 h.interrupted.2
  have hpc : s.idEx.pc = s.wb.exPc := hs.valid s.idEx (by simp [sequential, slot, h.waits.1])
  have htrap : (t.comb entry i).onTrap = true := by rw [hcomb]
  constructor
  · rw [savedEpc_of_trap htrap, hcomb, hpc, ← hexPc]
  · have hflag : (cause &&& 0x80000000 != 0) = true :=
      bne_iff_ne.mpr (Exec.checkInterrupt_spec hcause).1
    have htype : (t.idEx.type == .wfi) = true := by
      rw [hidEx, h.waits.2]
      rfl
    rw [Exec.instRet, hcomb, if_pos rfl, hflag, htype, Bool.and_self, Bool.or_true]

/-- The address behind an instruction is not the one that an interrupt saves for it. -/
theorem and_not_one_ne_add_four (p : BitVec 32) : p &&& ~~~1 ≠ p + 4 := by
  intro h
  have hlt := p.isLt
  have hnat := congrArg BitVec.toNat h
  rw [Bits.and_high_toNat p (~~~1) (n := 1) (by decide), BitVec.toNat_add] at hnat
  change p.toNat / 2 ^ 1 * 2 ^ 1 = (p.toNat + 4) % 2 ^ 32 at hnat
  omega

/-- In no run does the interrupt that ends a stalled `WFI` save the address behind it. -/
theorem wfi_never_resumes_behind (entry : BitVec 32) (s : Core) (is : List CoreIn) (i : CoreIn)
    (hs : Reachable entry s) (hends : EndsWait entry s is i) :
    savedEpc (step entry (Clocked.run (step entry) s is) i) ≠ s.idEx.pc + 4 := by
  rw [(hends.trap hs).1]
  exact and_not_one_ne_add_four s.idEx.pc

/-- A program that waits for the machine timer with interrupts enabled. -/
def waitForTimer : List CoreIn :=
  [offer 0x80000000 0x08000293,   -- addi x5, x0, 0x80
   offer 0x80000004 0x30429073,   -- csrrw x0, mie, x5
   offer 0x80000008 0x30046073,   -- csrrsi x0, mstatus, 8
   offer 0x8000000c 0x10500073]   -- wfi

/-- The timer goes off after one cycle of waiting. -/
theorem wfi_never_resumes_behind_timer :
    let s := Clocked.run (step 0x80000000) (step 0x80000000 {} { rst := true, rstComb := true })
      waitForTimer
    savedEpc (step 0x80000000 (Clocked.run (step 0x80000000) s [{}])
      { platform := { mtime := 1 } }) ≠ 0x80000010 := by
  intro s
  have hs : Reachable 0x80000000 s := Clocked.Reachable.run (.start ⟨_, rfl, rfl⟩) _
  exact wfi_never_resumes_behind 0x80000000 s [{}] { platform := { mtime := 1 } } hs
    ⟨by decide, by decide, by decide, by decide⟩

/-- The timer goes off after two cycles of waiting: the handler gets the address of the `WFI`,
which counts as retired. -/
theorem wfi_saves_itself :
    let s := Clocked.run (step 0x80000000) (step 0x80000000 {} { rst := true, rstComb := true })
      waitForTimer
    let t := Clocked.run (step 0x80000000) s [{}, {}]
    let i : CoreIn := { platform := { mtime := 1 } }
    Reachable 0x80000000 s ∧ EndsWait 0x80000000 s [{}, {}] i ∧ s.idEx.pc = 0x8000000c ∧
      savedEpc (step 0x80000000 t i) = 0x8000000c ∧
      savedEpc (step 0x80000000 t i) ≠ s.idEx.pc + 4 ∧
      Exec.instRet t.idEx (t.comb 0x80000000 i) = true :=
  ⟨Clocked.Reachable.run (.start ⟨_, rfl, rfl⟩) _,
    ⟨by decide, by decide, by decide, by decide⟩, by decide +kernel,
    by decide +kernel, by decide +kernel, by decide +kernel⟩

end Core

end Turtle
