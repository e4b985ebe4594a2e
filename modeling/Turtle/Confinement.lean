import Turtle.TrapAtomicity
import Turtle.PrivilegeLevels

/-!
# What S-mode CSR instructions reach

The S-level names `sstatus`, `sie` and `sip` are views of machine-level registers.
The masks of the first two confine S-mode to the bits meant for it. The mask of
`sip` is `SSIP` whatever `mideleg` holds, so S-mode can set and clear a software
interrupt that M-mode has kept for itself.
-/

namespace Turtle

open Bits

namespace Exec

/-- Bits 9:8 of the address say that a register belongs to M-mode. -/
def MachineCsr (a : BitVec 12) : Prop := (a >>> 8) &&& 3 = 3

instance (a : BitVec 12) : Decidable (MachineCsr a) := inferInstanceAs (Decidable (_ = _))

/-- The operand of the CSR instruction leaves the `SSIP` bit of `mip` as it is. -/
def SsipKept (e : Exec) (idEx : IdEx) : Prop :=
  let old := (e.csrRegs Csr.mip).getLsbD 1
  let operand := idEx.csrVal.getLsbD 1
  match idEx.type with
  | .csrrw | .csrrwi => operand = old
  | .csrrs | .csrrsi => operand = true → old = true
  | .csrrc | .csrrci => operand = true → old = false
  | _ => True

variable {e : Exec} {idEx : IdEx} {v : BitVec 32}

/-- The privilege guard keeps S-mode away from the machine-level addresses. -/
theorem not_machineCsr_of_guard {a : BitVec 12} (h : ((a >>> 8) &&& 3).setWidth 32 ≤ privS) :
    ¬ MachineCsr a := by
  intro hmachine
  rw [hmachine] at h
  revert h
  decide

/-- The S-level name of a register: its view, if it has one. -/
def nameOf (b : BitVec 12) : BitVec 12 :=
  if b = Csr.mstatus then Csr.sstatus
  else if b = Csr.mie then Csr.sie
  else if b = Csr.mip then Csr.sip
  else b

theorem nameOf_eq_self {b : BitVec 12} (h : b ∉ [Csr.mstatus, Csr.mie, Csr.mip]) :
    nameOf b = b := by
  simp only [List.mem_cons, List.not_mem_nil, or_false, not_or] at h
  unfold nameOf
  rw [if_neg h.1, if_neg h.2.1, if_neg h.2.2]

/-- A name outside M-level reaches a machine-level register only through its view. -/
theorem ne_storage {a b : BitVec 12} (ha : ¬ MachineCsr a) (hb : MachineCsr b)
    (hname : a ≠ nameOf b) : b ≠ storage a := by
  unfold storage
  split_ifs with hsstatus hsie hsip
  · rintro rfl
    exact hname hsstatus
  · rintro rfl
    exact hname hsie
  · rintro rfl
    exact hname hsip
  · rintro rfl
    exact ha hb

/-- A register behind a view changes within the mask of the view. -/
theorem view_frame {a b : BitVec 12} {m : BitVec 32} (hmask : e.csrMask b = m)
    (hwrite : idEx.csrAddr = b →
      (e.csrWrite idEx v).csrRegs a = e.csrWdata idEx idEx.csrAddr (e.csrRegs a))
    (hother : idEx.csrAddr ≠ b → a ≠ storage idEx.csrAddr) :
    (e.csrWrite idEx v).csrRegs a &&& ~~~m = e.csrRegs a &&& ~~~m := by
  by_cases hb : idEx.csrAddr = b
  · rw [hwrite hb, csrWdata_and_not_mask (hb ▸ hmask)]
  · rw [csrWrite_csrRegs_of_ne (hother hb)]

/-- Below M-mode no CSR write reaches the PMP. -/
theorem csrWrite_pmp_of_priv (h : e.priv ≠ 3) : (e.csrWrite idEx v).pmp = e.pmp := by
  have hpriv : (e.priv == 3) = false := beq_eq_false_iff_ne.mpr h
  unfold csrWrite
  simp only [hpriv, Bool.and_false, Bool.false_eq_true, if_false]
  split_ifs <;> rfl

/-- A write to `sip` stays within `mideleg` exactly when `SSIP` is delegated or keeps
its value. -/
theorem csrWdata_sip_iff (hcsr : idEx.type.IsCsr) (m : BitVec 32) :
    e.csrWdata idEx Csr.sip (e.csrRegs Csr.mip) &&& ~~~m = e.csrRegs Csr.mip &&& ~~~m ↔
      m.getLsbD 1 = true ∨ e.SsipKept idEx := by
  have hmask (n : ℕ) (hn : n < 32) : (e.csrMask Csr.sip).getLsbD n = decide (n = 1) := by
    change (1#32 <<< 1).getLsbD n = _
    rw [← BitVec.twoPow_eq, BitVec.getLsbD_twoPow]
    by_cases h : n = 1
    · simp [h]
    · simp [h, Ne.symm h]
  have hkept : idEx.type.csrBit ((e.csrRegs Csr.mip).getLsbD 1) (idEx.csrVal.getLsbD 1) =
      (e.csrRegs Csr.mip).getLsbD 1 ↔ e.SsipKept idEx := by
    unfold InstrType.csrBit SsipKept
    generalize (e.csrRegs Csr.mip).getLsbD 1 = x
    generalize idEx.csrVal.getLsbD 1 = y
    rcases hcsr with ht | ht | ht | ht | ht | ht <;> rw [ht] <;> dsimp only <;> revert x y <;>
      decide
  rw [← hkept]
  constructor
  · intro h
    have hbit := congrArg (·.getLsbD 1) h
    simp only [BitVec.getLsbD_and, BitVec.getLsbD_not] at hbit
    rw [getLsbD_csrWdata (by omega), hmask 1 (by omega)] at hbit
    cases hm : m.getLsbD 1 with
    | true => exact .inl rfl
    | false =>
      rw [hm] at hbit
      exact .inr (by simpa using hbit)
  · intro h
    apply BitVec.eq_of_getLsbD_eq
    intro n hn
    rw [BitVec.getLsbD_and, BitVec.getLsbD_and, getLsbD_csrWdata hn, hmask n hn]
    by_cases hone : n = 1
    · subst hone
      rcases h with hm | hsame
      · rw [BitVec.getLsbD_not, hm, Bool.not_true, Bool.and_false, Bool.and_false, Bool.and_false]
      · rw [decide_eq_true rfl, if_pos rfl, hsame]
    · rw [decide_eq_false hone, if_neg Bool.false_ne_true]

end Exec

namespace Core

/-- The cycle changes no machine-level register and no PMP register, but for the
S-mode bits of `mstatus`, the delegated bits of `mie` and `mip`, and the normal
step of the counters and the timer. -/
structure Confined (entry : BitVec 32) (s : Core) (i : CoreIn) : Prop where
  machine_frame : ∀ a, Exec.MachineCsr a → ¬ Exec.IsTimerCsr a →
    a ∉ [Csr.mstatus, Csr.mie, Csr.mip] → (step entry s i).exec.csrRegs a = s.exec.csrRegs a
  mstatus_frame : (step entry s i).exec.csrRegs Csr.mstatus &&& ~~~Mstatus.sstatusMask =
    s.exec.csrRegs Csr.mstatus &&& ~~~Mstatus.sstatusMask
  mie_frame : (step entry s i).exec.csrRegs Csr.mie &&& ~~~(s.exec.csrRegs Csr.mideleg) =
    s.exec.csrRegs Csr.mie &&& ~~~(s.exec.csrRegs Csr.mideleg)
  mip_frame : (step entry s i).exec.csrRegs Csr.mip &&& ~~~(s.exec.csrRegs Csr.mideleg) =
    s.exec.csrRegs Csr.mip &&& ~~~(s.exec.csrRegs Csr.mideleg)
  cycle_counted : Exec.Counted s.exec (step entry s i).exec Csr.mcycle Csr.mcycleh
    s.exec.cycleEnabled
  instret_counted : Exec.Counted s.exec (step entry s i).exec Csr.minstret Csr.minstreth
    (s.exec.instretEnabled && Exec.instRet s.idEx (s.comb entry i))
  time_eq : (step entry s i).exec.csrRegs Csr.time = i.mtime.setWidth 32 ∧
    (step entry s i).exec.csrRegs Csr.timeh = (i.mtime >>> 32).setWidth 32
  pmp_eq : (step entry s i).exec.pmp = s.exec.pmp

/-- The instruction does not write `sip`, or `SSIP` is delegated, or it stays as it is. -/
def SsipSpared (s : Core) : Prop :=
  s.idEx.csrAddr ≠ Csr.sip ∨ (s.exec.csrRegs Csr.mideleg).getLsbD 1 = true ∨
    s.exec.SsipKept s.idEx

variable {entry : BitVec 32} {s : Core} {i : CoreIn}

/-- The edge of an executed CSR instruction writes the register behind its address. -/
theorem Executes.csr_commit (h : Executes entry s i) (hcsr : s.idEx.type.IsCsr) :
    s.exec.commit s.idEx (s.comb entry i) = s.exec.csrWrite s.idEx
      (s.exec.csrWdata s.idEx s.idEx.csrAddr (s.comb entry i).exRdVal) := by
  rcases commit_cases entry s i with ⟨hexec, -⟩ | ⟨-, -, hother⟩ | ⟨-, -, hcommit⟩ | ⟨hother, -⟩
  · exact absurd h hexec
  · exact absurd hcsr hother
  · exact hcommit
  · exact absurd hcsr (hother h)

/-- A CSR instruction executed in S-mode is confined to the S-level parts of the
state exactly when it spares an undelegated `SSIP`. -/
theorem confined_iff_ssipSpared (entry : BitVec 32) (s : Core) (i : CoreIn)
    (hexec : Executes entry s i) (hcsr : s.idEx.type.IsCsr) (hpriv : s.exec.priv = privS) :
    Confined entry s i ↔ s.SsipSpared := by
  have hguard := (hexec.csr hcsr).1
  rw [hpriv] at hguard
  have haddr : ¬ Exec.MachineCsr s.idEx.csrAddr := Exec.not_machineCsr_of_guard hguard
  have hcommit := hexec.csr_commit hcsr
  have hedge {a : BitVec 12} (ha : ¬ Exec.IsTimerCsr a) :
      (step entry s i).exec.csrRegs a = (s.exec.csrWrite s.idEx
        (s.exec.csrWdata s.idEx s.idEx.csrAddr (s.comb entry i).exRdVal)).csrRegs a := by
    rw [csrRegs_step ha, hcommit]
  have hcounter {a : BitVec 12} (ha : Exec.MachineCsr a) : s.idEx.csrAddr ≠ a := by
    rintro rfl
    exact haddr ha
  -- Machine-level registers other than the three behind the views keep their values.
  have hframe {a : BitVec 12} (ha : Exec.MachineCsr a)
      (hview : a ∉ [Csr.mstatus, Csr.mie, Csr.mip]) :
      (s.exec.commit s.idEx (s.comb entry i)).csrRegs a = s.exec.csrRegs a := by
    have hname : s.idEx.csrAddr ≠ Exec.nameOf a := by
      rw [Exec.nameOf_eq_self hview]
      exact hcounter ha
    rw [hcommit, Exec.csrWrite_csrRegs_of_ne (Exec.ne_storage haddr ha hname)]
  have hmip : (step entry s i).exec.csrRegs Csr.mip &&& ~~~(s.exec.csrRegs Csr.mideleg) =
      s.exec.csrRegs Csr.mip &&& ~~~(s.exec.csrRegs Csr.mideleg) ↔ s.SsipSpared := by
    unfold SsipSpared
    rw [hedge (by decide)]
    by_cases hsip : s.idEx.csrAddr = Csr.sip
    · rw [Exec.csrWrite_sip hsip, hsip, Exec.csrWdata_sip_iff hcsr]
      simp
    · refine iff_of_true ?_ (.inl hsip)
      rw [Exec.csrWrite_csrRegs_of_ne (Exec.ne_storage (b := Csr.mip) haddr (by decide) hsip)]
  constructor
  · intro h
    exact hmip.mp h.mip_frame
  · intro h
    refine ⟨fun a ha htimer hview => ?_, ?_, ?_, hmip.mpr h, ?_, ?_, Exec.execSeq_time, ?_⟩
    · rw [hedge htimer, ← hcommit]
      exact hframe ha hview
    · rw [hedge (by decide)]
      exact Exec.view_frame rfl Exec.csrWrite_sstatus
        (Exec.ne_storage (b := Csr.mstatus) haddr (by decide))
    · rw [hedge (by decide)]
      exact Exec.view_frame rfl Exec.csrWrite_sie
        (Exec.ne_storage (b := Csr.mie) haddr (by decide))
    · exact (Exec.execSeq_cycle_counted_iff (hframe (by decide) (by decide))
        (hframe (by decide) (by decide))).mpr
        ⟨fun h => absurd h (hcounter (by decide)), fun h => absurd h (hcounter (by decide))⟩
    · exact (Exec.execSeq_instret_counted_iff (hframe (by decide) (by decide))
        (hframe (by decide) (by decide)) _ rfl).mpr
        ⟨fun h => absurd h (hcounter (by decide)), fun h => absurd h (hcounter (by decide))⟩
    · rw [pmp_step, hcommit, Exec.csrWrite_pmp_of_priv (by rw [hpriv]; decide)]

/-- A program that opens all of memory to lower privileges and leaves M-mode for
S-mode at `0x80100000`, with nothing delegated. -/
def enterSupervisorMode : List CoreIn :=
  [offer 0x80000000 0x3b059073,   -- csrrw x0, pmpaddr0, x11
   {},
   offer 0x80000004 0x3a07d073,   -- csrrwi x0, pmpcfg0, 15
   {},
   offer 0x80000008 0x10000313,   -- addi x6, x0, 0x100
   offer 0x8000000c 0x30031073,   -- csrrw x0, mstatus, x6
   offer 0x80000010 0x14159073,   -- csrrw x0, sepc, x11
   offer 0x80000014 0x10200073,   -- sret
   {}]

/-- A write to `sscratch` in S-mode is confined. -/
theorem confined_sscratch :
    let s := Clocked.run (step 0x80000000) (step 0x80000000 {} { rst := true, rstComb := true })
      (enterSupervisorMode ++ [offer 0x80100000 0x14059073])
    Executes 0x80000000 s {} ∧ s.idEx.type.IsCsr ∧ s.exec.priv = privS ∧
      Confined 0x80000000 s {} := by
  intro s
  have hexec : Executes 0x80000000 s {} := by decide
  have hcsr : s.idEx.type.IsCsr := by decide
  have hpriv : s.exec.priv = privS := by decide
  have haddr : s.idEx.csrAddr ≠ Csr.sip := by decide
  exact ⟨hexec, hcsr, hpriv, (confined_iff_ssipSpared _ s {} hexec hcsr hpriv).mpr (.inl haddr)⟩

/-- `csrrwi x0, sip, 2` in S-mode, on a page that the PMP lets S-mode fetch from,
makes an undelegated software interrupt pending. -/
theorem sip_write_not_confined :
    let s := Clocked.run (step 0x80000000) (step 0x80000000 {} { rst := true, rstComb := true })
      (enterSupervisorMode ++ [offer 0x80100000 0x14415073])
    Reachable 0x80000000 s ∧ Executes 0x80000000 s {} ∧ s.idEx.type.IsCsr ∧
      s.exec.priv = privS ∧ s.exec.pmpIcheck 0x80100000 4 4 = true ∧
      s.exec.csrRegs Csr.mideleg = 0 ∧ s.exec.csrRegs Csr.mip = 0 ∧
      (step 0x80000000 s {}).exec.csrRegs Csr.mip = Mip.ssip ∧ ¬ Confined 0x80000000 s {} := by
  intro s
  have hold : s.exec.csrRegs Csr.mip = 0 := by decide
  have hnew : (step 0x80000000 s {}).exec.csrRegs Csr.mip = Mip.ssip := by decide
  have hdeleg : s.exec.csrRegs Csr.mideleg = 0 := by decide
  refine ⟨Clocked.Reachable.run (.start ⟨_, rfl, rfl⟩) _, by decide, by decide,
    by decide, by decide, hdeleg, hold, hnew, fun h => ?_⟩
  have hframe := h.mip_frame
  rw [hold, hnew, hdeleg] at hframe
  revert hframe
  decide

end Core

end Turtle
