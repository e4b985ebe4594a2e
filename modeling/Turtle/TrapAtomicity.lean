import Turtle.Privilege

/-!
# What a trapped instruction leaves behind

A trap should write the cause, epc and tval registers of the mode it enters and
`mstatus`, and let the timer and the counters go on as in any cycle. The counter
blocks of `exec_seq` do not ask whether the instruction trapped: a record that
carries the address of a counter has its write carried out all the same.
-/

namespace Turtle

namespace Exec

/-- The registers that trap entry writes. -/
def trapCsrs (toS : Bool) : List (BitVec 12) :=
  if toS then [Csr.scause, Csr.sepc, Csr.stval, Csr.mstatus]
  else [Csr.mcause, Csr.mepc, Csr.mtval, Csr.mstatus]

variable {e old new : Exec} {idEx : IdEx} {i : ExecIn} {c : ExecComb} {a lo hi : BitVec 12}

/-- Trap entry leaves every other register alone. -/
theorem trap_csrRegs_of_not_mem {cause tval epc : BitVec 32}
    (h : a ∉ trapCsrs (e.delegatedToS cause)) :
    (e.trap cause tval epc).csrRegs a = e.csrRegs a := by
  unfold trap
  dsimp only
  cases hd : e.delegatedToS cause with
  | true =>
    simp only [trapCsrs, hd, if_true, List.mem_cons, List.not_mem_nil, or_false, not_or] at h
    obtain ⟨hcause, hepc, htval, hstatus⟩ := h
    change ((((e.write _ _).write _ _).write _ _).write _ _).csrRegs a = _
    simp only [write_csrRegs_of_ne hcause, write_csrRegs_of_ne hepc, write_csrRegs_of_ne htval,
      write_csrRegs_of_ne hstatus]
  | false =>
    simp only [trapCsrs, hd, Bool.false_eq_true, if_false, List.mem_cons, List.not_mem_nil,
      or_false, not_or] at h
    obtain ⟨hcause, hepc, htval, hstatus⟩ := h
    change ((((e.write _ _).write _ _).write _ _).write _ _).csrRegs a = _
    simp only [write_csrRegs_of_ne hcause, write_csrRegs_of_ne hepc, write_csrRegs_of_ne htval,
      write_csrRegs_of_ne hstatus]

/-- The normal step of a 64-bit counter: both halves count, with carry, when
`counts` holds, and stay otherwise. -/
def Counted (old new : Exec) (lo hi : BitVec 12) (counts : Bool) : Prop :=
  new.csrRegs lo = old.csrRegs lo + (if counts then 1 else 0) ∧
  new.csrRegs hi = old.csrRegs hi + (if counts ∧ old.csrRegs lo = -1 then 1 else 0)

/-- When a counter update that may be overridden by the address of the record is
still the normal step. -/
theorem counterUpdate_counted_iff {v : BitVec 32} {counts : Bool} (hne : lo ≠ hi)
    (hlo : e.csrRegs lo = old.csrRegs lo) (hhi : e.csrRegs hi = old.csrRegs hi) :
    Counted old (counterUpdate old a v lo hi counts e) lo hi counts ↔
      (a = lo → v = old.csrRegs lo + (if counts then 1 else 0) ∧
        ¬ (counts = true ∧ old.csrRegs lo = -1)) ∧
      (a = hi → v = old.csrRegs hi ∧ counts = false) := by
  have hsucc (x : BitVec 32) : x ≠ x + 1 := by
    intro h
    have := congrArg (· - x) h
    simp at this
  unfold Counted counterUpdate
  by_cases halo : a = lo
  · subst halo
    simp only [if_true, write_csrRegs_self, write_csrRegs_of_ne hne.symm, hhi, true_implies,
      hne, false_implies, and_true]
    refine and_congr_right fun _ => ?_
    split
    · rename_i hcarry
      exact ⟨fun h => absurd h (hsucc _), fun h => absurd hcarry h⟩
    · rename_i hcarry
      exact ⟨fun _ => hcarry, fun _ => (BitVec.add_zero _).symm⟩
  · by_cases hahi : a = hi
    · subst hahi
      simp only [halo, if_false, if_true, write_csrRegs_self, write_csrRegs_of_ne hne, hlo,
        false_implies, true_implies, true_and]
      cases counts with
      | true => exact ⟨fun h => absurd h.1 (hsucc _), fun h => absurd h.2 (by decide)⟩
      | false => simp
    · simp only [halo, hahi, if_false, false_implies, and_self, iff_true]
      cases counts with
      | true => simp only [if_true, write_csrRegs_self, write_csrRegs_of_ne hne, true_and, and_self]
      | false => simp [hlo, hhi]

section

variable {mtime : BitVec 64}

/-- When an edge that commits nothing to `mcycle` advances it normally. -/
theorem execSeq_cycle_counted_iff
    (hlo : (e.commit idEx c).csrRegs Csr.mcycle = e.csrRegs Csr.mcycle)
    (hhi : (e.commit idEx c).csrRegs Csr.mcycleh = e.csrRegs Csr.mcycleh) :
    Counted e (e.execSeq idEx c mtime) Csr.mcycle Csr.mcycleh e.cycleEnabled ↔
      (idEx.csrAddr = Csr.mcycle →
        e.csrWdata idEx idEx.csrAddr c.exRdVal =
          e.csrRegs Csr.mcycle + (if e.cycleEnabled then 1 else 0) ∧
        ¬ (e.cycleEnabled = true ∧ e.csrRegs Csr.mcycle = -1)) ∧
      (idEx.csrAddr = Csr.mcycleh →
        e.csrWdata idEx idEx.csrAddr c.exRdVal = e.csrRegs Csr.mcycleh ∧
          e.cycleEnabled = false) := by
  have htimed (a : BitVec 12) (htime : a ≠ Csr.time) (htimeh : a ≠ Csr.timeh) :
      (((e.commit idEx c).write Csr.time (mtime.setWidth 32)).write Csr.timeh
        ((mtime >>> 32).setWidth 32)).csrRegs a = (e.commit idEx c).csrRegs a := by
    rw [write_csrRegs_of_ne htimeh, write_csrRegs_of_ne htime]
  rw [← counterUpdate_counted_iff (by decide)
    ((htimed Csr.mcycle (by decide) (by decide)).trans hlo)
    ((htimed Csr.mcycleh (by decide) (by decide)).trans hhi)]
  -- The update of `minstret` comes last and leaves `mcycle` alone.
  have hlast {e' : Exec} {v : BitVec 32} {counts : Bool} (a : BitVec 12)
      (ha : a ≠ Csr.minstret ∧ a ≠ Csr.minstreth) :
      (counterUpdate e idEx.csrAddr v Csr.minstret Csr.minstreth counts e').csrRegs a =
        e'.csrRegs a := counterUpdate_csrRegs_of_ne ha.1 ha.2
  unfold Counted execSeq
  dsimp only
  rw [hlast Csr.mcycle (by decide), hlast Csr.mcycleh (by decide)]

/-- When an edge that commits nothing to `minstret` advances it normally. -/
theorem execSeq_instret_counted_iff
    (hlo : (e.commit idEx c).csrRegs Csr.minstret = e.csrRegs Csr.minstret)
    (hhi : (e.commit idEx c).csrRegs Csr.minstreth = e.csrRegs Csr.minstreth) (counts : Bool)
    (hcounts : (e.instretEnabled && instRet idEx c) = counts) :
    Counted e (e.execSeq idEx c mtime) Csr.minstret Csr.minstreth counts ↔
      (idEx.csrAddr = Csr.minstret →
        e.csrWdata idEx idEx.csrAddr c.exRdVal =
          e.csrRegs Csr.minstret + (if counts then 1 else 0) ∧
        ¬ (counts = true ∧ e.csrRegs Csr.minstret = -1)) ∧
      (idEx.csrAddr = Csr.minstreth →
        e.csrWdata idEx idEx.csrAddr c.exRdVal = e.csrRegs Csr.minstreth ∧ counts = false) := by
  have hkeep {v : BitVec 32} (a : BitVec 12) (htime : a ≠ Csr.time ∧ a ≠ Csr.timeh)
      (hcycle : a ≠ Csr.mcycle ∧ a ≠ Csr.mcycleh) :
      (counterUpdate e idEx.csrAddr v Csr.mcycle Csr.mcycleh e.cycleEnabled
        (((e.commit idEx c).write Csr.time (mtime.setWidth 32)).write Csr.timeh
          ((mtime >>> 32).setWidth 32))).csrRegs a = (e.commit idEx c).csrRegs a := by
    rw [counterUpdate_csrRegs_of_ne hcycle.1 hcycle.2, write_csrRegs_of_ne htime.2,
      write_csrRegs_of_ne htime.1]
  rw [← counterUpdate_counted_iff (by decide)
    ((hkeep Csr.minstret (by decide) (by decide)).trans hlo)
    ((hkeep Csr.minstreth (by decide) (by decide)).trans hhi), ← hcounts]
  rfl

end

/-- A CSR instruction or an invalid one that traps is an illegal instruction and
has read nothing. -/
theorem execType_trap_of_csr (hgroup : i.idEx.type.group = .csr) (hc : c.onTrap = false)
    (htrap : (e.execType i c).onTrap = true) :
    (e.execType i c).cause = ExceptionCause.illegalInstr.code ∧
      (e.execType i c).exRdVal = c.exRdVal := by
  have hcsr (w : Bool) (h : (e.execCsr i c w).onTrap = true) :
      (e.execCsr i c w).cause = ExceptionCause.illegalInstr.code ∧
        (e.execCsr i c w).exRdVal = c.exRdVal := by
    rcases e.execCsr_result i c w with ⟨v, f, hr⟩ | ⟨a, hr⟩
    · rw [hr] at h
      exact absurd h (by simp [hc])
    · rw [hr]
      exact ⟨rfl, rfl⟩
  unfold execType at htrap ⊢
  dsimp only at htrap ⊢
  cases ht : i.idEx.type <;> rw [ht] at htrap hgroup <;> dsimp only at htrap ⊢
  case csrrw => exact hcsr true htrap
  case csrrs => exact hcsr false htrap
  case csrrc => exact hcsr false htrap
  case csrrwi => exact hcsr true htrap
  case csrrsi => exact hcsr false htrap
  case csrrci => exact hcsr false htrap
  case invalid => exact ⟨rfl, rfl⟩
  all_goals cases hgroup

end Exec

namespace Core

/-- A trap that changes no state but its own: the cause, epc and tval registers of
the mode entered and `mstatus`. The counters and the timer make their normal
step, and nothing is passed on to the register file. -/
structure TrapAtomic (entry : BitVec 32) (s : Core) (i : CoreIn) : Prop where
  csr_frame : ∀ a, ¬ Exec.IsTimerCsr a →
    a ∉ Exec.trapCsrs (s.exec.delegatedToS (s.comb entry i).cause) →
    (step entry s i).exec.csrRegs a = s.exec.csrRegs a
  cycle_counted : Exec.Counted s.exec (step entry s i).exec Csr.mcycle Csr.mcycleh
    s.exec.cycleEnabled
  instret_counted : Exec.Counted s.exec (step entry s i).exec Csr.minstret Csr.minstreth
    (s.exec.instretEnabled && Exec.instRet s.idEx (s.comb entry i))
  time_eq : (step entry s i).exec.csrRegs Csr.time = i.mtime.setWidth 32 ∧
    (step entry s i).exec.csrRegs Csr.timeh = (i.mtime >>> 32).setWidth 32
  pmp_eq : (step entry s i).exec.pmp = s.exec.pmp
  regs_eq : ∀ j, (step entry (step entry s i) j).regs = (step entry s i).regs

/-- The record in `ID_EX` does not carry the address of a counter, or the value
that the instruction would write over zero happens to be the counter's next
value. -/
def CountersSpared (s : Core) : Prop :=
  let e := s.exec
  let addr := s.idEx.csrAddr
  let val := e.csrWdata s.idEx addr 0
  (addr = Csr.mcycle → val = e.csrRegs Csr.mcycle + (if e.cycleEnabled then 1 else 0) ∧
    ¬ (e.cycleEnabled = true ∧ e.csrRegs Csr.mcycle = -1)) ∧
  (addr = Csr.mcycleh → val = e.csrRegs Csr.mcycleh ∧ e.cycleEnabled = false) ∧
  (addr = Csr.minstret → val = e.csrRegs Csr.minstret) ∧
  (addr = Csr.minstreth → val = e.csrRegs Csr.minstreth)

instance (s : Core) : Decidable s.CountersSpared := by
  unfold CountersSpared
  infer_instance

variable {entry : BitVec 32} {s : Core} {i : CoreIn}

/-- A cause that `check_interrupt` returns has its highest bit set. -/
theorem checkInterrupt_msb {e : Exec} {p : Platform} {cause : BitVec 32}
    (h : e.checkInterrupt p = some cause) : cause.getLsbD 31 = true := by
  unfold Exec.checkInterrupt at h
  split at h
  · cases h
  · cases h
    rw [BitVec.getLsbD_or, show (1#32 <<< 31).getLsbD 31 = true by decide, Bool.true_or]

/-- An interrupt has none of the causes that count as retired. -/
theorem not_mem_of_checkInterrupt {e : Exec} {p : Platform} {cause : BitVec 32}
    (h : e.checkInterrupt p = some cause) : cause ∉ ([11, 9, 8, 3] : List (BitVec 32)) := by
  have hmsb := checkInterrupt_msb h
  intro hmem
  simp only [List.mem_cons, List.not_mem_nil, or_false] at hmem
  rcases hmem with rfl | rfl | rfl | rfl <;> simp at hmsb

/-- No cause but the four that count, and no interrupt of a `WFI`, retires. -/
theorem instRet_of_cause (hwfi : s.idEx.type ≠ .wfi) (htrap : (s.comb entry i).onTrap = true)
    (h : (s.comb entry i).cause ∉ ([11, 9, 8, 3] : List (BitVec 32))) :
    Exec.instRet s.idEx (s.comb entry i) = false := by
  have htype : (s.idEx.type == .wfi) = false := beq_eq_false_iff_ne.mpr hwfi
  simp only [List.mem_cons, List.not_mem_nil, or_false, not_or] at h
  simpa [Exec.instRet, htrap, htype, ExceptionCause.code, and_assoc] using h

/-- A trapped instruction that carries a CSR address of M-level or above counters
has read nothing, and does not count as retired. -/
theorem trap_of_csrAddr (hd : Latched s.idEx) (haddr : 0x400 ≤ s.idEx.csrAddr)
    (htrap : (s.comb entry i).onTrap = true) :
    (s.comb entry i).exRdVal = 0 ∧ Exec.instRet s.idEx (s.comb entry i) = false := by
  have hgroup := hd.csr_kind haddr
  have hwfi : s.idEx.type ≠ .wfi := by
    intro h
    rw [h] at hgroup
    cases hgroup
  have hret := instRet_of_cause hwfi htrap
  rcases s.exec.execComb_cases (s.execIn entry i) with ⟨-, h⟩ | ⟨-, cause, hcause, h⟩ | ⟨-, -, h⟩ |
    ⟨-, -, hmark, h⟩ | ⟨-, -, -, h⟩
  · simp [comb, h] at htrap
  · have hcomb : (s.comb entry i).cause = cause := by rw [comb, h]
    refine ⟨by rw [comb, h], hret ?_⟩
    rw [hcomb]
    exact not_mem_of_checkInterrupt hcause
  · simp [comb, h] at htrap
  · have hcomb : (s.comb entry i).cause = s.idEx.cause := by rw [comb, h]; rfl
    refine ⟨by rw [comb, h]; rfl, hret ?_⟩
    rw [hcomb]
    rcases hd.trap_cause hmark with hc | hc | hc <;> rw [hc] <;> decide
  · have hexec : (s.exec.execType (s.execIn entry i)
        (Exec.executeStart (s.execIn entry i))).onTrap = true := by
      rw [← h]
      exact htrap
    obtain ⟨hcause, hval⟩ := Exec.execType_trap_of_csr hgroup rfl hexec
    have hcomb : (s.comb entry i).cause = ExceptionCause.illegalInstr.code := by
      rw [comb, h, hcause]
    refine ⟨by rw [comb, h, hval]; rfl, hret ?_⟩
    rw [hcomb]
    decide

/-- The counters and the timer are not registers of trap entry. -/
theorem not_mem_trapCsrs {a : BitVec 12} (h : Exec.IsTimerCsr a) (toS : Bool) :
    a ∉ Exec.trapCsrs toS := by
  rcases h with rfl | rfl | rfl | rfl | rfl | rfl <;> cases toS <;> decide

/-- Trap entry leaves the counters and the timer alone. -/
theorem commit_timer_of_trap {a : BitVec 12} (ha : Exec.IsTimerCsr a)
    (htrap : (s.comb entry i).onTrap = true) :
    (s.exec.commit s.idEx (s.comb entry i)).csrRegs a = s.exec.csrRegs a := by
  rw [Exec.commit_of_trap htrap, Exec.trap_csrRegs_of_not_mem (not_mem_trapCsrs ha _)]

/-- Whatever the state, a trap of a decoded instruction or of an interrupt is atomic
exactly when it spares the counters. -/
theorem trapAtomic_iff_countersSpared (entry : BitVec 32) (s : Core) (i : CoreIn)
    (hs : HoldsLatched s) (htrap : (s.comb entry i).onTrap = true) :
    TrapAtomic entry s i ↔ s.CountersSpared := by
  have hread (haddr : 0x400 ≤ s.idEx.csrAddr) := trap_of_csrAddr hs.latched haddr htrap
  -- A record with the address of a counter read zero and does not retire.
  have hcycle : Exec.Counted s.exec (step entry s i).exec Csr.mcycle Csr.mcycleh
      s.exec.cycleEnabled ↔ _ := Exec.execSeq_cycle_counted_iff
    (commit_timer_of_trap (by decide) htrap) (commit_timer_of_trap (by decide) htrap)
  have hinstret : Exec.Counted s.exec (step entry s i).exec Csr.minstret Csr.minstreth
      (s.exec.instretEnabled && Exec.instRet s.idEx (s.comb entry i)) ↔ _ :=
    Exec.execSeq_instret_counted_iff (commit_timer_of_trap (by decide) htrap)
      (commit_timer_of_trap (by decide) htrap) _ rfl
  have hspared : s.CountersSpared ↔
      Exec.Counted s.exec (step entry s i).exec Csr.mcycle Csr.mcycleh s.exec.cycleEnabled ∧
      Exec.Counted s.exec (step entry s i).exec Csr.minstret Csr.minstreth
        (s.exec.instretEnabled && Exec.instRet s.idEx (s.comb entry i)) := by
    rw [hcycle, hinstret, and_assoc]
    unfold CountersSpared
    refine and_congr (imp_congr_right fun haddr => ?_) (and_congr (imp_congr_right fun haddr => ?_)
      (and_congr (imp_congr_right fun haddr => ?_) (imp_congr_right fun haddr => ?_)))
    all_goals
      obtain ⟨hzero, hret⟩ := hread (by rw [haddr]; decide)
      simp [hzero, hret]
  rw [hspared]
  constructor
  · intro h
    exact ⟨h.cycle_counted, h.instret_counted⟩
  · rintro ⟨hcycle, hinstret⟩
    refine ⟨fun a htimer ha => ?_, hcycle, hinstret, Exec.execSeq_time, ?_, fun j => ?_⟩
    · rw [csrRegs_step htimer, Exec.commit_of_trap htrap, Exec.trap_csrRegs_of_not_mem ha]
    · rw [pmp_step, Exec.commit_of_trap htrap, Exec.trap_pmp]
    · have hquiet : (step entry s i).wb.wbWriteRd = false := by
        unfold step writebackSeq
        dsimp only
        split
        · rfl
        · simp [out, Exec.execOut, htrap]
      change writeSeq (step entry s i).wb _ = _
      simp [writeSeq, hquiet]

/-- An `ECALL` right after reset is atomic. -/
theorem trapAtomic_ecall :
    let s := step 0x80000000 (step 0x80000000 {} { rst := true, rstComb := true })
      (offer 0x80000000 0x00000073)
    (s.comb 0x80000000 {}).onTrap = true ∧ TrapAtomic 0x80000000 s {} := by
  intro s
  have hs : Reachable 0x80000000 s := .step _ (.start ⟨_, rfl, rfl⟩)
  have htrap : (s.comb 0x80000000 {}).onTrap = true := by decide
  exact ⟨htrap, (trapAtomic_iff_countersSpared _ s {} hs.holdsLatched htrap).mpr (by decide)⟩

/-- `csrrw x0, mcycle, x11` in U-mode traps as an illegal instruction and still
sets `mcycle` to the value of `x11`. -/
theorem trapAtomic_fails_in_userMode :
    let s := Clocked.run (step 0x80000000) (step 0x80000000 {} { rst := true, rstComb := true })
      (enterUserMode ++ [offer 0x80100000 0xb0059073])
    Reachable 0x80000000 s ∧ s.exec.priv = privU ∧ (s.comb 0x80000000 {}).onTrap = true ∧
      (s.comb 0x80000000 {}).cause = ExceptionCause.illegalInstr.code ∧
      (step 0x80000000 s {}).exec.csrRegs Csr.mcycle = 0x80100000 ∧
      ¬ TrapAtomic 0x80000000 s {} := by
  refine ⟨Clocked.Reachable.run (.start ⟨_, rfl, rfl⟩) _, by decide, by decide,
    by decide, by decide, fun h => ?_⟩
  have hcount := h.cycle_counted.1
  revert hcount
  decide

end Core

end Turtle
