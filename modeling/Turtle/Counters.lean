import Turtle.Confinement
import Turtle.DataPath

/-!
# The counters over runs

`mcycle` and `minstret` count in two registers each. A cycle makes their normal step unless
the record in `ID_EX` carries the address of one of their halves; what a run adds is then the
number of its cycles, and of those for which `inst_ret` holds. `inst_ret` asks for no stall,
which a bubble never causes.
-/

namespace Turtle

open Bits

namespace Exec

/-- The 64-bit value of a counter. -/
def counter (e : Exec) (lo hi : BitVec 12) : BitVec 64 := e.csrRegs hi ++ e.csrRegs lo

variable {e old new : Exec} {idEx : IdEx} {lo hi : BitVec 12} {v : BitVec 32}

/-- The normal step of a counter adds one to its value, or nothing. -/
theorem Counted.counter_eq {counts : Bool} (h : Counted old new lo hi counts) :
    new.counter lo hi = old.counter lo hi + if counts then 1 else 0 := by
  obtain ⟨hlo, hhi⟩ := h
  unfold counter
  rw [hlo, hhi]
  cases counts with
  | true =>
    simp only [true_and, if_true]
    exact append_add_one _ _
  | false =>
    simp only [Bool.false_eq_true, false_and, if_false]
    rw [add_zero, add_zero, add_zero]

/-- The registers that the counters are kept in. -/
def IsCounterCsr (a : BitVec 12) : Prop :=
  a = Csr.mcycle ∨ a = Csr.mcycleh ∨ a = Csr.minstret ∨ a = Csr.minstreth

instance (a : BitVec 12) : Decidable (IsCounterCsr a) := by
  unfold IsCounterCsr
  infer_instance

/-- The CSR write of `exec_seq` leaves the counters to their own updates. -/
theorem csrWrite_counter {a : BitVec 12} (ha : IsCounterCsr a) :
    (e.csrWrite idEx v).csrRegs a = e.csrRegs a := by
  by_cases haddr : a = storage idEx.csrAddr
  · have hname : idEx.csrAddr = a := by
      unfold storage at haddr
      split_ifs at haddr
      · exact absurd (haddr ▸ ha) (by decide)
      · exact absurd (haddr ▸ ha) (by decide)
      · exact absurd (haddr ▸ ha) (by decide)
      · exact haddr.symm
    unfold csrWrite
    rw [hname]
    rcases ha with rfl | rfl | rfl | rfl <;> rfl
  · exact csrWrite_csrRegs_of_ne haddr

/-- A record that names a counter has its value stored there. -/
theorem counterUpdate_of_named {addr a : BitVec 12} {counts : Bool} (h : addr = lo ∨ addr = hi) :
    (counterUpdate old addr v lo hi counts e).csrRegs a =
      if a = addr then v else e.csrRegs a := by
  have hwrite : counterUpdate old addr v lo hi counts e = e.write addr v := by
    unfold counterUpdate
    by_cases hlo : addr = lo
    · rw [if_pos hlo, hlo]
    · rw [if_neg hlo, if_pos (h.resolve_left hlo), h.resolve_left hlo]
  rw [hwrite]
  split
  case isTrue ha => rw [ha, write_csrRegs_self]
  case isFalse ha => rw [write_csrRegs_of_ne ha]

theorem execSeq_cycle_of_named {c : ExecComb} {mtime : BitVec 64} {a : BitVec 12}
    (h : idEx.csrAddr = Csr.mcycle ∨ idEx.csrAddr = Csr.mcycleh)
    (ha : a = Csr.mcycle ∨ a = Csr.mcycleh) : (e.execSeq idEx c mtime).csrRegs a =
      if a = idEx.csrAddr then e.csrWdata idEx idEx.csrAddr c.exRdVal
      else (e.commit idEx c).csrRegs a := by
  have hother : a ≠ Csr.minstret ∧ a ≠ Csr.minstreth ∧ a ≠ Csr.time ∧ a ≠ Csr.timeh := by
    rcases ha with rfl | rfl <;> decide
  unfold execSeq
  dsimp only
  rw [counterUpdate_csrRegs_of_ne hother.1 hother.2.1, counterUpdate_of_named h,
    write_csrRegs_of_ne hother.2.2.2, write_csrRegs_of_ne hother.2.2.1]

/-- A read of a half of `mcycle` is one of a machine-level counter. -/
theorem readCsr_cycle {i : ExecIn} {c : ExecComb}
    (h : i.idEx.csrAddr = Csr.mcycle ∨ i.idEx.csrAddr = Csr.mcycleh) :
    e.readCsr i c = e.readCounter i c i.idEx.csrAddr 1 := by
  unfold readCsr
  rcases h with h | h <;> rw [h] <;> rfl

theorem readCounter_of_no_trap {i : ExecIn} {c : ExecComb} {a : BitVec 12} {en : BitVec 32}
    (h : (e.readCounter i c a en).onTrap = false) :
    (e.readCounter i c a en).exRdVal = e.csrRegs a := by
  unfold readCounter at h ⊢
  split at h
  case isTrue hpriv => rw [if_pos hpriv]
  case isFalse => cases h

end Exec

namespace Core

variable {entry : BitVec 32} {s : Core} {i : CoreIn} {is : List CoreIn}

/-! ### One cycle -/

/-- No first half of a clock edge writes a counter. -/
theorem commit_counter {a : BitVec 12} (ha : Exec.IsCounterCsr a) :
    (s.exec.commit s.idEx (s.comb entry i)).csrRegs a = s.exec.csrRegs a := by
  rcases commit_cases entry s i with ⟨-, cause, tval, epc, hcommit⟩ | ⟨-, ⟨mmode, hcommit⟩, -⟩ |
    ⟨-, -, hcommit⟩ | ⟨-, hcommit⟩ <;> rw [hcommit]
  · apply Exec.trap_csrRegs_of_not_mem
    apply not_mem_trapCsrs
    exact .inr (.inr ha)
  · have hne : a ≠ Csr.mstatus := by
      rcases ha with rfl | rfl | rfl | rfl <;> decide
    exact Exec.returnFromTrap_csrRegs_of_ne hne
  · exact Exec.csrWrite_counter ha

/-- The record in `ID_EX` carries the address of a half of a counter. -/
def Names (s : Core) (lo hi : BitVec 12) : Prop := s.idEx.csrAddr = lo ∨ s.idEx.csrAddr = hi

instance (s : Core) (lo hi : BitVec 12) : Decidable (s.Names lo hi) :=
  inferInstanceAs (Decidable (_ ∨ _))

/-- A cycle counts in `mcycle` unless the record names it. -/
theorem cycle_step (hnames : ¬ s.Names Csr.mcycle Csr.mcycleh) :
    (step entry s i).exec.counter Csr.mcycle Csr.mcycleh =
      s.exec.counter Csr.mcycle Csr.mcycleh + if s.exec.cycleEnabled then 1 else 0 := by
  obtain ⟨hlo, hhi⟩ := not_or.mp hnames
  apply Exec.Counted.counter_eq
  exact (Exec.execSeq_cycle_counted_iff (commit_counter (by decide))
    (commit_counter (by decide))).mpr ⟨fun h => absurd h hlo, fun h => absurd h hhi⟩

/-- A cycle counts in `minstret` as `inst_ret` says unless the record names it. -/
theorem instret_step (hnames : ¬ s.Names Csr.minstret Csr.minstreth) :
    (step entry s i).exec.counter Csr.minstret Csr.minstreth =
      s.exec.counter Csr.minstret Csr.minstreth +
        if s.exec.instretEnabled && Exec.instRet s.idEx (s.comb entry i) then 1 else 0 := by
  obtain ⟨hlo, hhi⟩ := not_or.mp hnames
  apply Exec.Counted.counter_eq
  exact (Exec.execSeq_instret_counted_iff (commit_counter (by decide))
    (commit_counter (by decide)) _ rfl).mpr ⟨fun h => absurd h hlo, fun h => absurd h hhi⟩

/-- The instruction in `ID_EX` reads a CSR and sets or clears no bit. -/
def PureRead (s : Core) : Prop :=
  s.idEx.type ∈ [.csrrs, .csrrsi, .csrrc, .csrrci] ∧ s.idEx.csrVal = 0

instance (s : Core) : Decidable s.PureRead := inferInstanceAs (Decidable (_ ∧ _))

theorem PureRead.isCsr (h : s.PureRead) : s.idEx.type.IsCsr := by
  have hmem := h.1
  simp only [List.mem_cons, List.not_mem_nil, or_false] at hmem
  rcases hmem with ht | ht | ht | ht <;> rw [ht] <;> decide

/-- A pure read would write back what it has read. -/
theorem PureRead.csrWdata (h : s.PureRead) (a : BitVec 12) (cur : BitVec 32) :
    s.exec.csrWdata s.idEx a cur = cur := by
  obtain ⟨hmem, hval⟩ := h
  simp only [List.mem_cons, List.not_mem_nil, or_false] at hmem
  have hbit (old : Bool) : s.idEx.type.csrBit old false = old := by
    unfold InstrType.csrBit
    rcases hmem with ht | ht | ht | ht <;> rw [ht] <;> simp
  apply BitVec.eq_of_getLsbD_eq
  intro n hn
  rw [Exec.getLsbD_csrWdata hn, hval, show (0 : BitVec 32).getLsbD n = false from
    BitVec.getLsbD_zero, hbit, ite_self]

/-- An executed read of a half of `mcycle` gets its value. -/
theorem Executes.cycle_read (hexec : Executes entry s i) (hcsr : s.idEx.type.IsCsr)
    (hnames : s.Names Csr.mcycle Csr.mcycleh) :
    (s.comb entry i).exRdVal = s.exec.csrRegs s.idEx.csrAddr := by
  have hcomb := (hexec.csr hcsr).2
  have htrap := hexec.2.2
  rw [hcomb, Exec.readCsr_cycle (i := s.execIn entry i) hnames] at htrap
  rw [hcomb, Exec.readCsr_cycle (i := s.execIn entry i) hnames]
  exact Exec.readCounter_of_no_trap htrap

/-- A pure read of `mcycle` costs a tick: the cycle stores what was read instead of
counting. -/
theorem cycle_step_of_read (hexec : Executes entry s i) (hread : s.PureRead)
    (hnames : s.Names Csr.mcycle Csr.mcycleh) :
    (step entry s i).exec.counter Csr.mcycle Csr.mcycleh =
      s.exec.counter Csr.mcycle Csr.mcycleh := by
  have hval : s.exec.csrWdata s.idEx s.idEx.csrAddr (s.comb entry i).exRdVal =
      s.exec.csrRegs s.idEx.csrAddr := by
    rw [hread.csrWdata, hexec.cycle_read hread.isCsr hnames]
  have hkeep {a : BitVec 12} (ha : a = Csr.mcycle ∨ a = Csr.mcycleh) :
      (step entry s i).exec.csrRegs a = s.exec.csrRegs a := by
    have hcounter : Exec.IsCounterCsr a := ha.imp_right .inl
    change (s.exec.execSeq s.idEx (s.comb entry i) i.mtime).csrRegs a = _
    rw [Exec.execSeq_cycle_of_named hnames ha, hval, commit_counter hcounter]
    split
    case isTrue h => rw [h]
    case isFalse => rfl
  unfold Exec.counter
  rw [hkeep (.inl rfl), hkeep (.inr rfl)]

/-- The instruction in EX retires in this cycle. -/
def Retires (entry : BitVec 32) (s : Core) (i : CoreIn) : Prop :=
  Executes entry s i ∧ (s.comb entry i).stall = false

instance (entry : BitVec 32) (s : Core) (i : CoreIn) : Decidable (Retires entry s i) :=
  inferInstanceAs (Decidable (_ ∧ _))

/-- The cycle takes an interrupt. -/
def Interrupted (s : Core) (i : CoreIn) : Prop := i.rstComb = false ∧ s.takesInterrupt i = true

instance (s : Core) (i : CoreIn) : Decidable (s.Interrupted i) :=
  inferInstanceAs (Decidable (_ ∧ _))

theorem instRet_of_retires (h : Retires entry s i) :
    Exec.instRet s.idEx (s.comb entry i) = true := by
  rw [Exec.instRet, h.1.2.2, h.2]
  rfl

theorem instRet_of_stall (h : (s.comb entry i).stall = true) :
    Exec.instRet s.idEx (s.comb entry i) = false := by
  rw [Exec.instRet, (comb_facts.stall_quiet h).1, h]
  rfl

/-- A stalled cycle executes an instruction. -/
theorem executes_of_stall (h : (s.comb entry i).stall = true) : Executes entry s i := by
  obtain ⟨hrst, hflush, -, -⟩ := Exec.executed_of_decision (e := s.exec) (i := s.execIn entry i)
    (P := fun c => c.stall = true) (by simp) h
  exact ⟨hrst, hflush, (comb_facts.stall_quiet h).1⟩

/-- `inst_ret` holds for a bubble unless the cycle takes an interrupt. -/
theorem instRet_of_bubble (hs : HoldsLatched s) (h : s.idEx.flush = true) :
    Exec.instRet s.idEx (s.comb entry i) = false ↔ s.Interrupted i := by
  by_cases hint : s.Interrupted i
  · refine iff_of_true ?_ hint
    obtain ⟨cause, hcause, hcomb⟩ := @comb_of_interrupt entry s i hint.1 hint.2
    have hwfi : s.idEx.type ≠ .wfi := by
      rw [bubble_of_flush hs h]
      decide
    apply instRet_of_cause hwfi
    · rw [hcomb]
    · rw [hcomb]
      exact not_mem_of_checkInterrupt hcause
  · refine iff_of_false ?_ hint
    have hquiet : (s.comb entry i).onTrap = false ∧ (s.comb entry i).stall = false := by
      cases hrst : i.rstComb with
      | true =>
        rw [comb_of_rst hrst]
        exact ⟨rfl, rfl⟩
      | false =>
        have hnone : s.takesInterrupt i = false :=
          Bool.eq_false_of_not_eq_true fun htakes => hint ⟨hrst, htakes⟩
        have hgate := gate_eq_none hnone
        rw [comb, Exec.execComb]
        simp only [execIn, hrst, hgate, h, if_true, Bool.false_eq_true, if_false, and_self]
    rw [Exec.instRet, hquiet.1, hquiet.2]
    simp

/-- An executed record with a CSR address from `0x400` on is one of a CSR instruction. -/
theorem Executes.isCsr (h : Executes entry s i) (hs : HoldsLatched s)
    (haddr : 0x400 ≤ s.idEx.csrAddr) : s.idEx.type.IsCsr := by
  have hgroup := hs.latched.csr_kind haddr
  by_contra hcsr
  have htype : s.idEx.type = .invalid := by
    revert hgroup hcsr
    cases s.idEx.type <;> simp [InstrType.group, InstrType.IsCsr]
  have htrap := h.2.2
  rw [(comb_of_executed h.1 h.2.2 h.2.1).2, Exec.execType] at htrap
  simp [execIn, htype, ExecComb.raise] at htrap

/-- No CSR instruction in EX has the address of a half of `minstret`. -/
def SparesInstret (s : Core) : Prop :=
  s.idEx.type.IsCsr → s.idEx.csrAddr ≠ Csr.minstret ∧ s.idEx.csrAddr ≠ Csr.minstreth

instance (s : Core) : Decidable s.SparesInstret :=
  inferInstanceAs (Decidable (_ → _ ∧ _))

/-- One cycle counts as it should: one for an instruction that retires, nothing for a bubble
and nothing for a stalled instruction. -/
structure CountsRetired (entry : BitVec 32) (s : Core) (i : CoreIn) : Prop where
  retired : Retires entry s i → (step entry s i).exec.counter Csr.minstret Csr.minstreth =
    s.exec.counter Csr.minstret Csr.minstreth + 1
  bubble : s.idEx.flush = true → (step entry s i).exec.counter Csr.minstret Csr.minstreth =
    s.exec.counter Csr.minstret Csr.minstreth
  stalled : (s.comb entry i).stall = true →
    (step entry s i).exec.counter Csr.minstret Csr.minstreth =
      s.exec.counter Csr.minstret Csr.minstreth

/-- Without a write to `minstret` a cycle counts as it should exactly when a bubble is met by
an interrupt. -/
theorem countsRetired_iff (hs : HoldsLatched s) (hen : s.exec.instretEnabled = true)
    (hspares : s.SparesInstret) :
    CountsRetired entry s i ↔ (s.idEx.flush = true → s.Interrupted i) := by
  have hnames (hexec : Executes entry s i) : ¬ s.Names Csr.minstret Csr.minstreth := by
    rintro hnames
    have haddr : 0x400 ≤ s.idEx.csrAddr := by
      rcases hnames with h | h <;> rw [h] <;> decide
    exact not_or.mpr (hspares (hexec.isCsr hs haddr)) hnames
  have hbubble (h : s.idEx.flush = true) : ¬ s.Names Csr.minstret Csr.minstreth := by
    rw [Names, bubble_of_flush hs h]
    decide
  constructor
  · intro hcounts hflush
    have hsame := hcounts.bubble hflush
    rw [instret_step (hbubble hflush), hen, Bool.true_and] at hsame
    rw [← @instRet_of_bubble entry s i hs hflush]
    by_contra hret
    rw [if_pos (by simpa using hret), add_eq_left] at hsame
    exact absurd hsame (by decide)
  · intro hint
    constructor
    case retired =>
      intro hretires
      rw [instret_step (hnames hretires.1), hen, instRet_of_retires hretires, Bool.and_self,
        if_pos rfl]
    case bubble =>
      intro hflush
      rw [instret_step (hbubble hflush), (instRet_of_bubble hs hflush).mpr (hint hflush),
        Bool.and_false, if_neg Bool.false_ne_true, add_zero]
    case stalled =>
      intro hstall
      rw [instret_step (hnames (executes_of_stall hstall)), instRet_of_stall hstall,
        Bool.and_false, if_neg Bool.false_ne_true, add_zero]

/-! ### Runs -/

/-- Every state of a run from a latched record holds one. -/
theorem holdsLatched_run (hs : HoldsLatched s) (is : List CoreIn) :
    ∀ c ∈ Clocked.trace (step entry) Prod.mk s is, HoldsLatched c.1 := by
  induction is generalizing s with
  | nil => simp
  | cons j js ih =>
    intro c hc
    rcases List.mem_cons.mp hc with rfl | hc
    · exact hs
    · exact ih hs.step c hc

/-- In every run in which `mcycle` is enabled and no record names it, it counts the cycles. -/
theorem mcycle_counts_cycles (entry : BitVec 32) (s : Core) (is : List CoreIn)
    (hen : ∀ c ∈ Clocked.trace (step entry) Prod.mk s is, c.1.exec.cycleEnabled = true)
    (hnames : ∀ c ∈ Clocked.trace (step entry) Prod.mk s is,
      ¬ c.1.Names Csr.mcycle Csr.mcycleh) :
    (Clocked.run (step entry) s is).exec.counter Csr.mcycle Csr.mcycleh =
      s.exec.counter Csr.mcycle Csr.mcycleh + BitVec.ofNat 64 is.length := by
  have hstep : ∀ c ∈ Clocked.trace (step entry) Prod.mk s is,
      (step entry c.1 c.2).exec.counter Csr.mcycle Csr.mcycleh =
        c.1.exec.counter Csr.mcycle Csr.mcycleh + 1 := by
    intro c hc
    rw [cycle_step (hnames c hc), hen c hc, if_pos rfl]
  rw [Clocked.run_sum (f := fun s : Core => s.exec.counter Csr.mcycle Csr.mcycleh)
    (a := fun _ _ => 1) hstep, Clocked.sum_trace_const, nsmul_one]
  rfl

/-- Two cycles after reset are counted. -/
theorem mcycle_counts_two_cycles :
    let s := step 0x80000000 {} { rst := true, rstComb := true }
    let is : List CoreIn := [offer 0x80000000 0x00000013, {}]
    (Clocked.run (step 0x80000000) s is).exec.counter Csr.mcycle Csr.mcycleh =
      s.exec.counter Csr.mcycle Csr.mcycleh + 2 := by
  intro s is
  exact mcycle_counts_cycles 0x80000000 s is (by decide) (by decide)

/-- `csrrs x5, mcycle, x0` after reset: the cycle in EX is not counted. -/
theorem mcycle_misses_read :
    let s := Clocked.run (step 0x80000000) (step 0x80000000 {} { rst := true, rstComb := true })
      [offer 0x80000000 0xb00022f3]
    Reachable 0x80000000 s ∧ s.exec.cycleEnabled = true ∧ Executes 0x80000000 s {} ∧
      s.idEx.type = .csrrs ∧ s.idEx.rs1 = 0 ∧
      (step 0x80000000 s {}).exec.counter Csr.mcycle Csr.mcycleh ≠
        s.exec.counter Csr.mcycle Csr.mcycleh + 1 :=
  ⟨Clocked.Reachable.run (.start ⟨_, rfl, rfl⟩) _, by decide, by decide,
    by decide, by decide, by decide⟩

/-- In every run in which `minstret` is enabled and no CSR instruction has its address, the
cycles count as they should exactly when an interrupt meets every bubble. -/
theorem minstret_counts_iff (entry : BitVec 32) (s : Core) (is : List CoreIn)
    (hs : Reachable entry s)
    (hen : ∀ c ∈ Clocked.trace (step entry) Prod.mk s is, c.1.exec.instretEnabled = true)
    (hspares : ∀ c ∈ Clocked.trace (step entry) Prod.mk s is, c.1.SparesInstret) :
    (∀ c ∈ Clocked.trace (step entry) Prod.mk s is, CountsRetired entry c.1 c.2) ↔
      ∀ c ∈ Clocked.trace (step entry) Prod.mk s is,
        c.1.idEx.flush = true → c.1.Interrupted c.2 := by
  have hlatched := @holdsLatched_run entry s hs.holdsLatched is
  refine forall₂_congr fun c hc => ?_
  exact countsRetired_iff (hlatched c hc) (hen c hc) (hspares c hc)

/-- An instruction after reset is counted once. -/
theorem minstret_counts_addi :
    let s := Clocked.run (step 0x80000000) (step 0x80000000 {} { rst := true, rstComb := true })
      [offer 0x80000000 0x00000013]
    ∀ c ∈ Clocked.trace (step 0x80000000) Prod.mk s [{}], CountsRetired 0x80000000 c.1 c.2 := by
  intro s
  have hs : Reachable 0x80000000 s := Clocked.Reachable.run (.start ⟨_, rfl, rfl⟩) _
  exact (minstret_counts_iff 0x80000000 s [{}] hs (by decide) (by decide)).mpr
    (by decide)

/-- The bubble that waits for the first instruction after reset is counted. -/
theorem minstret_counts_bubble :
    let s := step 0x80000000 {} { rst := true, rstComb := true }
    Reachable 0x80000000 s ∧ s.exec.instretEnabled = true ∧ s.SparesInstret ∧
      s.idEx.flush = true ∧ (step 0x80000000 s {}).exec.counter Csr.minstret Csr.minstreth =
        s.exec.counter Csr.minstret Csr.minstreth + 1 ∧ ¬ CountsRetired 0x80000000 s {} := by
  intro s
  refine ⟨.start ⟨_, rfl, rfl⟩, by decide, by decide, by decide,
    by decide, fun hcounts => ?_⟩
  exact absurd (hcounts.bubble (by decide)) (by decide)

/-- When all cycles of a run count as they should and each retires an instruction, passes a
bubble or stalls, the run adds the number of the instructions that it retires. -/
theorem CountsRetired.total (h : ∀ c ∈ Clocked.trace (step entry) Prod.mk s is,
      CountsRetired entry c.1 c.2 ∧
        (Retires entry c.1 c.2 ∨ c.1.idEx.flush = true ∨ (c.1.comb entry c.2).stall = true)) :
    (Clocked.run (step entry) s is).exec.counter Csr.minstret Csr.minstreth =
      s.exec.counter Csr.minstret Csr.minstreth +
        (Clocked.trace (step entry) (fun s i => if Retires entry s i then 1 else 0) s is).sum := by
  refine Clocked.run_sum (f := fun s : Core => s.exec.counter Csr.minstret Csr.minstreth) ?_
  intro c hc
  obtain ⟨hcounts, hkind⟩ := h c hc
  by_cases hretires : Retires entry c.1 c.2
  · rw [if_pos hretires]
    exact hcounts.retired hretires
  · rw [if_neg hretires, add_zero]
    rcases hkind.resolve_left hretires with hflush | hstall
    · exact hcounts.bubble hflush
    · exact hcounts.stalled hstall

end Core

end Turtle
