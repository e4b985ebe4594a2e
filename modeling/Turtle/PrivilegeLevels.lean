import Turtle.TrapReturn
import Turtle.Exec.CsrFacts

/-!
# Architectural privilege levels

The privilege and the `MPP` field of `mstatus` flow into each other through traps,
returns and CSR writes. Traps and returns keep them among U, S and M. The mask of
`mstatus` lets a CSR write put the reserved value 2 into `MPP`, and `MRET` takes
it from there. This file says exactly which runs stay within the three levels.
-/

namespace Turtle

open Bits

namespace Exec

/-- U, S or M. -/
def IsLevel (p : BitVec 32) : Prop := p = privU ∨ p = privS ∨ p = privM

instance (p : BitVec 32) : Decidable (IsLevel p) := inferInstanceAs (Decidable (_ ∨ _ ∨ _))

/-- The privilege and the `MPP` field hold architectural levels. -/
structure Levels (e : Exec) : Prop where
  priv_level : IsLevel e.priv
  mpp_level : IsLevel (mppField (e.csrRegs Csr.mstatus))

/-- The record holds a CSR instruction on `mstatus` whose operand leaves 2 in `MPP`. -/
def ReservesMpp (e : Exec) (idEx : IdEx) : Prop :=
  idEx.csrAddr = Csr.mstatus ∧
    match idEx.type with
    | .csrrw | .csrrwi => mppField idEx.csrVal = 2
    | .csrrs | .csrrsi => mppField (e.csrRegs Csr.mstatus) = 0 ∧ mppField idEx.csrVal = 2
    | .csrrc | .csrrci => mppField (e.csrRegs Csr.mstatus) = 3 ∧ mppField idEx.csrVal = 1
    | _ => False

variable {e : Exec} {idEx : IdEx} {m p : BitVec 32}

/-- The value of the `MPP` field by its two bits. -/
theorem mppField_eq (m : BitVec 32) :
    mppField m = (if m.getLsbD 12 then 2 else 0) ||| (if m.getLsbD 11 then 1 else 0) := by
  apply BitVec.eq_of_getLsbD_eq
  intro i hi
  rw [getLsbD_mppField]
  by_cases h : i < 2
  · obtain rfl | rfl : i = 0 ∨ i = 1 := by omega
    all_goals cases m.getLsbD 11 <;> cases m.getLsbD 12 <;> rfl
  · have htwo : (2 : BitVec 32).getLsbD i = false := getLsbD_of_le_three (by decide) (by omega)
    have hone : (1 : BitVec 32).getLsbD i = false := getLsbD_of_le_three (by decide) (by omega)
    have hzero : (0 : BitVec 32).getLsbD i = false := getLsbD_of_le_three (by decide) (by omega)
    rw [decide_eq_false h, Bool.false_and, BitVec.getLsbD_or]
    split_ifs <;> simp only [htwo, hone, hzero, Bool.or_self]

/-- `MPP` holds a level unless its upper bit stands alone. -/
theorem isLevel_mppField_iff :
    IsLevel (mppField m) ↔ ¬ (m.getLsbD 12 = true ∧ m.getLsbD 11 = false) := by
  rw [mppField_eq]
  cases m.getLsbD 11 <;> cases m.getLsbD 12 <;> decide

theorem isLevel_sppField (m : BitVec 32) : IsLevel (sppField m) := by
  rw [sppField_eq]
  split <;> decide

/-- Entry into M-mode merges two levels into a level. -/
theorem isLevel_or {q : BitVec 32} (hp : IsLevel p) (hq : IsLevel q) : IsLevel (p ||| q) := by
  rcases hp with rfl | rfl | rfl <;> rcases hq with rfl | rfl | rfl <;> decide

theorem IsLevel.le_three (hp : IsLevel p) : p ≤ 3 := by
  rcases hp with rfl | rfl | rfl <;> decide

/-- Words with the same two bits have the same `MPP` field. -/
theorem mppField_congr {m' : BitVec 32} (h11 : m'.getLsbD 11 = m.getLsbD 11)
    (h12 : m'.getLsbD 12 = m.getLsbD 12) : mppField m' = mppField m := by
  rw [mppField_eq, mppField_eq m, h11, h12]

theorem mppField_trapMstatusS : mppField (trapMstatusS m p) = mppField m := by
  apply mppField_congr
  all_goals
    unfold trapMstatusS
    split_ifs <;> simp [Mstatus.spp, Mstatus.sppShift, Mstatus.sie, Mstatus.spie,
      Mstatus.sieShift, Mstatus.spieShift]

theorem mppField_sretMstatus : mppField (sretMstatus m) = mppField m := by
  apply mppField_congr
  all_goals
    unfold sretMstatus
    dsimp only
    split <;> simp [Mstatus.spp, Mstatus.spie, Mstatus.sieShift, Mstatus.spieShift,
      Mstatus.sppShift, Mstatus.mprv, Mstatus.mprvShift]

theorem mppField_mretMstatus : mppField (mretMstatus m) = 0 := by
  have hclear (n : ℕ) (hn : n = 11 ∨ n = 12) : (mretMstatus m).getLsbD n = false := by
    unfold mretMstatus
    dsimp only
    rcases hn with rfl | rfl
    all_goals split <;> simp [Mstatus.mpp, Mstatus.mpie, Mstatus.mieShift, Mstatus.mpieShift,
      Mstatus.mppShift, Mstatus.mprv, Mstatus.mprvShift]
  rw [mppField_eq, hclear 11 (.inl rfl), hclear 12 (.inr rfl)]
  rfl

/-- Trap entry keeps the levels. -/
theorem Levels.trap (h : Levels e) (cause tval epc : BitVec 32) :
    Levels (e.trap cause tval epc) := by
  unfold Exec.trap
  dsimp only
  split
  · refine ⟨.inr (.inl rfl), ?_⟩
    rw [write_csrRegs_self, mppField_trapMstatusS]
    exact h.mpp_level
  · refine ⟨.inr (.inr rfl), ?_⟩
    rw [write_csrRegs_self, mppField_trapMstatusM h.priv_level.le_three]
    exact isLevel_or h.mpp_level h.priv_level

/-- Trap return keeps the levels. -/
theorem Levels.returnFromTrap (h : Levels e) (mmode : Bool) :
    Levels (e.returnFromTrap mmode) := by
  cases mmode with
  | true =>
    refine ⟨h.mpp_level, ?_⟩
    change IsLevel (mppField ((e.write Csr.mstatus (mretMstatus _)).csrRegs Csr.mstatus))
    rw [write_csrRegs_self, mppField_mretMstatus]
    exact .inl rfl
  | false =>
    refine ⟨isLevel_sppField _, ?_⟩
    change IsLevel (mppField ((e.write Csr.mstatus (sretMstatus _)).csrRegs Csr.mstatus))
    rw [write_csrRegs_self, mppField_sretMstatus]
    exact h.mpp_level

/-- A write to `mstatus` by one of the six instructions leaves a level in `MPP`
exactly when it does not put 2 there. -/
theorem isLevel_csrWdata_mstatus_iff (haddr : idEx.csrAddr = Csr.mstatus)
    (hcsr : idEx.type.IsCsr) (h : IsLevel (mppField (e.csrRegs Csr.mstatus))) :
    IsLevel (mppField (e.csrWdata idEx idEx.csrAddr (e.csrRegs Csr.mstatus &&& Mstatus.mask))) ↔
      ¬ e.ReservesMpp idEx := by
  have hbit (n : ℕ) (hn : n = 11 ∨ n = 12) :
      (e.csrWdata idEx idEx.csrAddr (e.csrRegs Csr.mstatus &&& Mstatus.mask)).getLsbD n =
        idEx.type.csrBit ((e.csrRegs Csr.mstatus).getLsbD n) (idEx.csrVal.getLsbD n) := by
    have hmask : Mstatus.mask.getLsbD n = true := by
      rcases hn with rfl | rfl <;> decide
    have hwritable : (e.csrMask Csr.mstatus).getLsbD n = true := hmask
    rw [getLsbD_csrWdata (by omega), haddr, hwritable, if_pos rfl, BitVec.getLsbD_and, hmask,
      Bool.and_true]
  rw [isLevel_mppField_iff] at h
  rw [isLevel_mppField_iff, hbit 11 (.inl rfl), hbit 12 (.inr rfl)]
  unfold ReservesMpp InstrType.csrBit
  rw [and_iff_right haddr, mppField_eq, mppField_eq]
  -- Two bits of the register and two of the operand decide.
  generalize (e.csrRegs Csr.mstatus).getLsbD 11 = x at h ⊢
  generalize (e.csrRegs Csr.mstatus).getLsbD 12 = y at h ⊢
  generalize idEx.csrVal.getLsbD 11 = u
  generalize idEx.csrVal.getLsbD 12 = v
  rcases hcsr with ht | ht | ht | ht | ht | ht <;> rw [ht] <;> dsimp only <;> revert x y u v <;>
    decide

/-- A CSR write keeps the levels unless it puts 2 into `MPP`. -/
theorem Levels.csrWrite_iff (h : Levels e) (hcsr : idEx.type.IsCsr) {v : BitVec 32}
    (hv : idEx.csrAddr = Csr.mstatus →
      v = e.csrWdata idEx idEx.csrAddr (e.csrRegs Csr.mstatus &&& Mstatus.mask)) :
    Levels (e.csrWrite idEx v) ↔ ¬ e.ReservesMpp idEx := by
  have hpriv : IsLevel (e.csrWrite idEx v).priv := by
    rw [csrWrite_priv]
    exact h.priv_level
  by_cases haddr : idEx.csrAddr = Csr.mstatus
  · have hmpp : (e.csrWrite idEx v).csrRegs Csr.mstatus = v := csrWrite_mstatus haddr
    rw [← isLevel_csrWdata_mstatus_iff haddr hcsr h.mpp_level, ← hv haddr]
    constructor
    · intro hl
      exact hmpp ▸ hl.mpp_level
    · intro hl
      exact ⟨hpriv, hmpp.symm ▸ hl⟩
  · refine iff_of_true ⟨hpriv, ?_⟩ (fun hres => haddr hres.1)
    by_cases hview : idEx.csrAddr = Csr.sstatus
    · -- The mask of `sstatus` has no bit of `MPP`.
      have hkeep (n : ℕ) (hn : n = 11 ∨ n = 12) :
          (e.csrWdata idEx idEx.csrAddr (e.csrRegs Csr.mstatus)).getLsbD n =
            (e.csrRegs Csr.mstatus).getLsbD n := by
        have hmask : (e.csrMask Csr.sstatus).getLsbD n = false := by
          change Mstatus.sstatusMask.getLsbD n = false
          rcases hn with rfl | rfl <;> decide
        rw [getLsbD_csrWdata (by omega), hview, hmask, if_neg Bool.false_ne_true]
      rw [csrWrite_sstatus hview, mppField_congr (hkeep 11 (.inl rfl)) (hkeep 12 (.inr rfl))]
      exact h.mpp_level
    · rw [csrWrite_csrRegs_of_ne (mstatus_ne_storage haddr hview)]
      exact h.mpp_level

end Exec

namespace Core

variable {entry : BitVec 32} {s : Core} {i : CoreIn}

/-- An executed CSR instruction passed the guard of its address and performs its access. -/
theorem Executes.csr (h : Executes entry s i) (hcsr : s.idEx.type.IsCsr) :
    ((s.idEx.csrAddr >>> 8) &&& 3).setWidth 32 ≤ s.exec.priv ∧
      s.comb entry i = s.exec.readCsr (s.execIn entry i)
        { Exec.executeStart (s.execIn entry i) with csrAccess := true } := by
  have hcomb := (comb_of_executed h.1 h.2.2 h.2.1).2
  have hcsr : (s.execIn entry i).idEx.type.IsCsr := hcsr
  obtain ⟨write, hwrite⟩ := Exec.execType_of_csr (e := s.exec)
    (c := Exec.executeStart (s.execIn entry i)) hcsr
  rw [hwrite] at hcomb
  have htrap := h.2.2
  rw [hcomb] at htrap
  obtain ⟨hguard, hread⟩ := Exec.execCsr_of_no_trap htrap
  exact ⟨hguard, hcomb.trans hread⟩

/-- What the first half of a clock edge does: trap entry, a trap return, the write
of an executed CSR instruction, or nothing. -/
theorem commit_cases (entry : BitVec 32) (s : Core) (i : CoreIn) :
    (¬ Executes entry s i ∧ ∃ cause tval epc,
      s.exec.commit s.idEx (s.comb entry i) = s.exec.trap cause tval epc) ∨
    (Executes entry s i ∧ (∃ mmode,
      s.exec.commit s.idEx (s.comb entry i) = s.exec.returnFromTrap mmode) ∧
      ¬ s.idEx.type.IsCsr) ∨
    (Executes entry s i ∧ s.idEx.type.IsCsr ∧ s.exec.commit s.idEx (s.comb entry i) =
      s.exec.csrWrite s.idEx
        (s.exec.csrWdata s.idEx s.idEx.csrAddr (s.comb entry i).exRdVal)) ∨
    ((Executes entry s i → ¬ s.idEx.type.IsCsr) ∧
      s.exec.commit s.idEx (s.comb entry i) = s.exec) := by
  by_cases htrap : (s.comb entry i).onTrap = true
  · exact .inl ⟨fun h => by simp [h.2.2] at htrap, _, _, _, Exec.commit_of_trap htrap⟩
  have htrap : (s.comb entry i).onTrap = false := by simpa using htrap
  by_cases hexec : Executes entry s i
  · by_cases hmret : s.idEx.type = .mret
    · exact .inr (.inl ⟨hexec, ⟨true, Exec.commit_of_mret htrap (hexec.csrMret_iff.mpr hmret)⟩,
        by rw [hmret]; decide⟩)
    have hnomret : (s.comb entry i).csrMret = false := by simpa using mt hexec.csrMret_iff.mp hmret
    by_cases hsret : s.idEx.type = .sret
    · exact .inr (.inl ⟨hexec,
        ⟨false, Exec.commit_of_sret htrap (hexec.csrSret_iff.mpr hsret) hnomret⟩,
        by rw [hsret]; decide⟩)
    have hnosret : (s.comb entry i).csrSret = false := by simpa using mt hexec.csrSret_iff.mp hsret
    by_cases hcsr : s.idEx.type.IsCsr
    · have haccess : (s.comb entry i).csrAccess = true := by
        rw [(hexec.csr hcsr).2]
        rcases s.exec.readCsr_result (s.execIn entry i)
          { Exec.executeStart (s.execIn entry i) with csrAccess := true } with ⟨v, f, h⟩ | h
        all_goals rw [h]
        rfl
      refine .inr (.inr (.inl ⟨hexec, hcsr, ?_⟩))
      simp [Exec.commit, htrap, hnomret, hnosret, haccess]
    · have haccess : (s.comb entry i).csrAccess = false := by
        by_contra h
        rw [(comb_of_executed hexec.1 hexec.2.2 hexec.2.1).2, Bool.not_eq_false] at h
        exact hcsr (Exec.execType_csrAccess rfl h).1
      refine .inr (.inr (.inr ⟨fun _ => hcsr, ?_⟩))
      simp [Exec.commit, htrap, hnomret, hnosret, haccess]
  · have hquiet : (s.comb entry i).csrMret = false ∧ (s.comb entry i).csrSret = false ∧
        (s.comb entry i).csrAccess = false := by
      by_contra h
      have hran := Exec.executed_of_decision (e := s.exec) (i := s.execIn entry i)
        (P := fun c => ¬ (c.csrMret = false ∧ c.csrSret = false ∧ c.csrAccess = false))
        (fun _ _ _ _ _ hidle => hidle ⟨rfl, rfl, rfl⟩) h
      exact hexec ⟨hran.1, hran.2.1, htrap⟩
    refine .inr (.inr (.inr ⟨fun h => absurd h hexec, ?_⟩))
    simp [Exec.commit, htrap, hquiet.1, hquiet.2.1, hquiet.2.2]

/-- A cycle keeps the levels unless it executes a CSR write of 2 to `MPP`. -/
theorem levels_step_iff (h : s.exec.Levels) :
    (step entry s i).exec.Levels ↔ ¬ (Executes entry s i ∧ s.exec.ReservesMpp s.idEx) := by
  have hedge : (step entry s i).exec.Levels ↔
      (s.exec.commit s.idEx (s.comb entry i)).Levels := by
    have hsame := Exec.sameContext_execSeq s.exec s.idEx (s.comb entry i) i.mtime
    have hstatus := hsame.2 Csr.mstatus (by decide)
    constructor
    · rintro ⟨hpriv, hmpp⟩
      exact ⟨hsame.1 ▸ hpriv, hstatus ▸ hmpp⟩
    · rintro ⟨hpriv, hmpp⟩
      exact ⟨hsame.1.symm ▸ hpriv, hstatus.symm ▸ hmpp⟩
  have hnot (hcsr : ¬ s.idEx.type.IsCsr) : ¬ s.exec.ReservesMpp s.idEx := by
    rintro ⟨-, hmatch⟩
    revert hcsr hmatch
    cases s.idEx.type <;> simp [InstrType.IsCsr]
  rw [hedge]
  rcases commit_cases entry s i with ⟨hexec, cause, tval, epc, hcommit⟩ |
    ⟨-, ⟨mmode, hcommit⟩, hcsr⟩ | ⟨hexec, hcsr, hcommit⟩ | ⟨hcsr, hcommit⟩
  · rw [hcommit]
    exact iff_of_true (h.trap ..) fun hw => hexec hw.1
  · rw [hcommit]
    exact iff_of_true (h.returnFromTrap mmode) fun hw => hnot hcsr hw.2
  · rw [hcommit, h.csrWrite_iff hcsr, and_iff_right hexec]
    intro haddr
    rw [(hexec.csr hcsr).2, Exec.readCsr_mstatus haddr]
  · rw [hcommit]
    exact iff_of_true h fun hw => hnot (hcsr hw.1) hw.2

/-- The first reset cycle leaves M-mode, with M in `MPP`. -/
theorem levels_of_started (h : Started entry s) : s.exec.Levels := by
  obtain ⟨i, hrst, rfl⟩ := h
  have hcomb : comb entry {} i = _ := comb_of_rst (i.rst_held hrst)
  have hinit : Exec.init.Levels := ⟨by decide, by decide⟩
  refine (levels_step_iff (s := {}) hinit).mpr fun hw => ?_
  have hrun := hw.1.1
  rw [i.rst_held hrst] at hrun
  cases hrun

/-- A run from reset stays within the architectural privilege levels, in `priv` and
in `MPP`, exactly when it executes no CSR write that leaves 2 in `MPP`. -/
theorem levels_iff_no_reserved_write (entry : BitVec 32) (s : Core) (hs : Started entry s)
    (is : List CoreIn) :
    (∀ js, js <+: is → (Clocked.run (step entry) s js).exec.Levels) ↔
      ∀ c ∈ Clocked.trace (step entry) Prod.mk s is,
        ¬ (Executes entry c.1 c.2 ∧ c.1.exec.ReservesMpp c.1.idEx) :=
  Clocked.safe_run_iff (P := fun s : Core => s.exec.Levels) (fun _ _ => levels_step_iff)
    (levels_of_started hs) is

/-- The boot program stays within the levels on its way to U-mode. -/
theorem levels_into_userMode :
    let s := step 0x80000000 {} { rst := true, rstComb := true }
    Started 0x80000000 s ∧
      ∀ js, js <+: enterUserMode → (Clocked.run (step 0x80000000) s js).exec.Levels := by
  intro s
  have hs : Started 0x80000000 s := ⟨_, rfl, rfl⟩
  have haddr : ∀ c ∈ Clocked.trace (step 0x80000000) Prod.mk s enterUserMode,
      c.1.idEx.csrAddr ≠ Csr.mstatus := by decide
  exact ⟨hs, (levels_iff_no_reserved_write _ s hs enterUserMode).mpr
    fun c hc hw => haddr c hc hw.2.1⟩

/-- A program that puts 2 into `MPP` and returns there. -/
def reserveMpp : List CoreIn :=
  [offer 0x80000000 0x000012b7,   -- lui x5, 0x1
   offer 0x80000004 0x30029073,   -- csrrw x0, mstatus, x5
   offer 0x80000008 0x30200073,   -- mret
   {}]

/-- The program runs into privilege 2. -/
theorem mret_to_reserved_level :
    let s := step 0x80000000 {} { rst := true, rstComb := true }
    let t := Clocked.run (step 0x80000000) s reserveMpp
    Reachable 0x80000000 t ∧ t.exec.priv = 2 ∧ ¬ t.exec.Levels := by
  intro s t
  have hpriv : t.exec.priv = 2 := by decide
  refine ⟨Clocked.Reachable.run (.start ⟨_, rfl, rfl⟩) _, hpriv, fun h => ?_⟩
  have hlevel := h.priv_level
  rw [hpriv] at hlevel
  revert hlevel
  decide

end Core

end Turtle
