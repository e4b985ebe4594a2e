import Turtle.Mmu.Protected
import Turtle.StatusStack

/-!
# MPRV below M-mode

The DMMU and the PMP check look at `MPRV` without looking at the current privilege. Trap
entry into S-mode, trap returns and CSR writes keep the bit clear below M-mode, so that both
use the current privilege there, also at the later edges of a page-table walk.
-/

namespace Turtle

open Bits

namespace Exec

/-- The `MPRV` bit is set in M-mode only. -/
def MprvInMachine (e : Exec) : Prop :=
  e.priv ≠ privM → (e.csrRegs Csr.mstatus).getLsbD Mstatus.mprvShift = false

/-- Data accesses are made with the current privilege: by the page permissions and by the
PMP check. -/
structure AccessesAsPriv (e : Exec) : Prop where
  mprv_eq : e.mprv = 0
  dataPriv_eq : e.dataPriv = e.priv.setWidth 8
  pmpDcheck_eq : ∀ addr op size, e.pmpDcheck addr op size = e.pmp.dcheck addr op size e.priv

variable {e : Exec} {idEx : IdEx} {m p : BitVec 32} {mmode : Bool}

theorem getLsbD_trapMstatusS_mprv :
    (trapMstatusS m p).getLsbD Mstatus.mprvShift = m.getLsbD Mstatus.mprvShift := by
  unfold trapMstatusS
  split_ifs <;> simp [Mstatus.spp, Mstatus.sppShift, Mstatus.sie, Mstatus.spie,
    Mstatus.sieShift, Mstatus.spieShift, Mstatus.mprvShift]

/-- A trap is delegated from below M-mode only. -/
theorem priv_of_delegatedToS {cause : BitVec 32} (h : e.delegatedToS cause = true) :
    e.priv ≠ privM := by
  intro hpriv
  have hlt : ¬ e.priv < privM := by
    rw [hpriv]
    decide
  simp [delegatedToS, hlt] at h

theorem MprvInMachine.trap (h : MprvInMachine e) (cause tval epc : BitVec 32) :
    MprvInMachine (e.trap cause tval epc) := by
  intro hpriv
  rw [trap_priv] at hpriv
  rw [trap_mstatus]
  split at hpriv
  case isTrue hdeleg =>
    rw [if_pos hdeleg, getLsbD_trapMstatusS_mprv]
    exact h (priv_of_delegatedToS hdeleg)
  case isFalse => exact absurd rfl hpriv

/-- A return clears the bit unless it enters M-mode. -/
theorem MprvInMachine.returnFromTrap (e : Exec) (mmode : Bool) :
    MprvInMachine (e.returnFromTrap mmode) := by
  intro hpriv
  have hplaces : Mstatus.mprvShift ≠ pieShift mmode ∧ Mstatus.mprvShift ≠ ieShift mmode ∧
      (ppMask mmode).getLsbD Mstatus.mprvShift = false := by
    cases mmode <;> decide
  rw [returnFromTrap_priv] at hpriv
  rw [returnFromTrap_mstatus, getLsbD_retMstatus (by decide), if_neg hplaces.1,
    if_neg hplaces.2.1, hplaces.2.2, if_neg Bool.false_ne_true, if_pos rfl,
    decide_eq_false hpriv, Bool.and_false]

/-- A CSR write reaches the bit in M-mode only: the guard of `mstatus` asks for it, and the
mask of `sstatus` leaves the bit out. -/
theorem MprvInMachine.csrWrite (h : MprvInMachine e) (hle : e.priv ≤ 3)
    (hguard : ((idEx.csrAddr >>> 8) &&& 3).setWidth 32 ≤ e.priv) (v : BitVec 32) :
    MprvInMachine (e.csrWrite idEx v) := by
  intro hpriv
  rw [csrWrite_priv] at hpriv
  have haddr : idEx.csrAddr ≠ Csr.mstatus := by
    intro haddr
    have hthree : (3 : BitVec 32) ≤ e.priv := by
      rw [haddr] at hguard
      exact hguard
    exact hpriv (BitVec.le_antisymm hle hthree)
  by_cases hview : idEx.csrAddr = Csr.sstatus
  · have hmask : (e.csrMask idEx.csrAddr).getLsbD Mstatus.mprvShift = false := by
      rw [hview]
      change Mstatus.sstatusMask.getLsbD Mstatus.mprvShift = false
      decide
    rw [csrWrite_sstatus hview, getLsbD_csrWdata (by decide), hmask, if_neg Bool.false_ne_true]
    exact h hpriv
  · rw [csrWrite_csrRegs_of_ne (mstatus_ne_storage haddr hview)]
    exact h hpriv

/-- With the bit clear both sides use the current privilege. -/
theorem MprvInMachine.accessesAsPriv (h : MprvInMachine e) (hpriv : e.priv ≠ privM) :
    e.AccessesAsPriv := by
  have hclear : e.csrRegs Csr.mstatus &&& Mstatus.mprv = 0 := by
    rw [Mstatus.mprv, and_one_shiftLeft, h hpriv]
    rfl
  have hmprv : e.mprv = 0 := by
    rw [mprv, hclear]
    rfl
  refine ⟨hmprv, ?_, fun addr op size => ?_⟩
  · rw [dataPriv, if_neg (not_not.mpr hmprv)]
  · rw [pmpDcheck_eq, effectivePriv, if_neg (not_not.mpr hclear)]

/-- The privilege that a request latches depends on the privilege and on `mstatus`. -/
theorem SameContext.dataPriv_eq {e' : Exec} (h : SameContext e e') : e'.dataPriv = e.dataPriv := by
  unfold dataPriv mprv
  rw [h.1, h.2 Csr.mstatus (by decide)]

end Exec

namespace Core

variable {entry : BitVec 32} {s : Core} {i : CoreIn}

theorem mprvInMachine_step (h : s.exec.MprvInMachine) (hle : s.exec.priv ≤ 3) :
    (step entry s i).exec.MprvInMachine := by
  have hcommit : (s.exec.commit s.idEx (s.comb entry i)).MprvInMachine := by
    rcases commit_cases entry s i with ⟨-, cause, tval, epc, hcommit⟩ | ⟨-, ⟨mmode, hcommit⟩, -⟩ |
      ⟨hexec, hcsr, hcommit⟩ | ⟨-, hcommit⟩
    · rw [hcommit]
      exact h.trap cause tval epc
    · rw [hcommit]
      exact .returnFromTrap s.exec mmode
    · rw [hcommit]
      exact h.csrWrite hle (hexec.csr hcsr).1 _
    · rwa [hcommit]
  intro hpriv
  rw [priv_step] at hpriv
  rw [csrRegs_step (by decide)]
  exact hcommit hpriv

theorem Reachable.mprvInMachine (h : Reachable entry s) : s.exec.MprvInMachine := by
  have hboth : s.exec.MprvInMachine ∧ s.exec.priv ≤ 3 := by
    refine Clocked.Reachable.invariant (P := fun s => s.exec.MprvInMachine ∧ s.exec.priv ≤ 3) ?_
      (fun _ _ h => ⟨mprvInMachine_step h.1 h.2, priv_step_le h.2⟩) h
    rintro s ⟨i, -, rfl⟩
    have hinit : Exec.init.MprvInMachine := fun hpriv => absurd rfl hpriv
    exact ⟨mprvInMachine_step hinit (by decide), priv_step_le (by decide)⟩
  exact hboth.1

/-- A memory instruction that waits for its answer leaves the context alone. -/
theorem sameContext_of_waits (hmem : s.idEx.IsAccess)
    (hstall : (s.comb entry i).stall = true) : Exec.SameContext s.exec (step entry s i).exec := by
  have hrst : i.rstComb = false := by
    by_contra h
    rw [comb_of_rst (Bool.eq_true_of_not_eq_false h)] at hstall
    cases hstall
  have hint : s.takesInterrupt i = false := by
    by_contra h
    obtain ⟨cause, -, hcomb⟩ := comb_of_interrupt hrst (Bool.eq_true_of_not_eq_false h)
    rw [hcomb] at hstall
    cases hstall
  have hcomb := comb_of_access entry hrst hint hmem
  rw [hcomb] at hstall
  have hack : i.dmmuRsp.mmuRspAck = false := by simpa using hstall
  have hfault : i.dmmuRsp.mmuRspFault = 0 := by
    by_contra h
    rw [i.fault_ack h] at hack
    cases hack
  have hidle : s.exec.commit s.idEx (s.comb entry i) = s.exec := by
    rw [hcomb, hfault]
    rfl
  have hedge := Exec.sameContext_execSeq s.exec s.idEx (s.comb entry i) i.mtime
  rwa [hidle] at hedge

end Core

/-! ### During a walk -/

namespace Dmmu

variable {e : Exec} {s : Dmmu} {i : DmmuIn}

/-- The data side waits for a page-table entry. -/
def InWalk (s : Dmmu) : Prop := s.dState = .level1 ∨ s.dState = .level2

theorem idleStep_dPriv (h : i.req.dmemReqAck = true) :
    (idleStep e s i).mmu.dPriv = e.dataPriv := by
  unfold idleStep
  dsimp only
  rw [if_pos h]
  split
  · split
    · split
      · rfl
      · split <;> rfl
    · rfl
  · rfl

theorem level1Step_dPriv : (level1Step e s i).mmu.dPriv = s.dPriv := by
  unfold level1Step
  dsimp only
  split
  · rfl
  · split <;> rfl

theorem level2Step_not_inWalk : ¬ (level2Step e s i).mmu.InWalk := by
  unfold level2Step InWalk
  dsimp only
  split <;> simp [faulted]

/-- A walk has just latched its privilege, or keeps the one it has. -/
theorem dmemReqSeq_dPriv (h : (dmemReqSeq e s i).1.InWalk) :
    (dmemReqSeq e s i).1.dPriv = e.dataPriv ∨
      (s.InWalk ∧ (dmemReqSeq e s i).1.dPriv = s.dPriv) := by
  change (next e s i).mmu.InWalk at h
  change (next e s i).mmu.dPriv = e.dataPriv ∨ (s.InWalk ∧ (next e s i).mmu.dPriv = s.dPriv)
  by_cases hrunning : (i.rst || i.flush) = true
  · rw [next, if_pos hrunning] at h
    rcases h with h | h <;> cases h
  have hrunning : (i.rst || i.flush) = false := Bool.eq_false_of_not_eq_true hrunning
  by_cases hidle : s.dState = .idle
  · rw [next_of_idle hrunning hidle] at h ⊢
    by_cases hreq : i.req.dmemReqAck = true
    · exact .inl (idleStep_dPriv hreq)
    · rw [idleStep, if_neg hreq] at h
      rcases h with h | h <;> cases h
  by_cases hack : i.rsp.memRspAck = true
  · cases hstate : s.dState with
    | idle => exact absurd hstate hidle
    | level1 =>
      rw [next_of_level1 hrunning hstate hack]
      exact .inr ⟨.inl hstate, level1Step_dPriv⟩
    | level2 =>
      rw [next_of_level2 hrunning hstate hack] at h
      exact absurd h level2Step_not_inWalk
    | access =>
      simp [next, hrunning, hstate, hack, InWalk] at h
  · rw [next_of_waits hrunning hidle (Bool.eq_false_of_not_eq_true hack)] at h ⊢
    exact .inr ⟨h, rfl⟩

end Dmmu

namespace DataPath

variable {δ : Type} {devices : List (Device δ)} {entry : BitVec 32} {s : DataPath δ}
  {i : DataIn δ}

/-- A walk has the privilege that a new request would have. -/
def WalksAsNow (s : DataPath δ) : Prop := s.dmmu.InWalk → s.dmmu.dPriv = s.core.exec.dataPriv

/-- A walk is under way for an instruction that waits. -/
theorem Inv.busy_of_walks (h : s.Inv devices) (hwalks : s.dmmu.InWalk) : s.Busy := by
  rcases h.phase with hidle | hbusy
  · rw [Dmmu.InWalk, hidle.quiet.dState_eq] at hwalks
    rcases hwalks with h | h <;> cases h
  · exact hbusy

theorem WalksAsNow.step (h : s.WalksAsNow) (hinv : s.Inv devices) :
    (step devices entry s i).WalksAsNow := by
  intro hwalks
  have hbusy : (DataPath.step devices entry s i).Busy := hinv.step.busy_of_walks hwalks
  have hrst : i.rst = false := hbusy.running
  have hstall : (s.core.comb entry (s.coreIn i)).stall = true :=
    (Core.wbStall_step (s := s.core) (i := s.coreIn i) hrst).symm.trans hbusy.waits
  have hkeep : (DataPath.step devices entry s i).core.idEx = s.core.idEx :=
    Core.idEx_of_stall hstall
  have hmem : s.core.idEx.IsAccess := hkeep ▸ hbusy.access
  have hctx := Core.sameContext_of_waits (i := s.coreIn i) hmem hstall
  change _ = (s.core.step entry (s.coreIn i)).exec.dataPriv
  rw [hctx.dataPriv_eq]
  rcases Dmmu.dmemReqSeq_dPriv hwalks with hnew | ⟨hold, hkept⟩
  · exact hnew
  · exact hkept.trans (h hold)

theorem Reachable.walksAsNow (h : Reachable devices entry s) : s.WalksAsNow := by
  induction h with
  | start hs =>
    obtain ⟨m, i, hrst, rfl⟩ := hs
    intro hwalks
    have hidle : (DataPath.step devices entry { memory := m } i).Idle := idle_of_rst hrst
    have hquiet := hidle.quiet
    rw [Dmmu.InWalk, hquiet.dState_eq] at hwalks
    rcases hwalks with h | h <;> cases h
  | step i hs ih => exact ih.step (Reachable.inv hs)

end DataPath

/-- In every reachable state below M-mode `MPRV` is clear, so that the page permissions and
the PMP check use the current privilege. Over EXEC, the DMMU and memory this is also the
privilege that a page-table walk has latched. -/
theorem mprv_clear_below_machine (entry : BitVec 32) :
    (∀ s : Core, Core.Reachable entry s → s.exec.priv ≠ privM →
      (s.exec.csrRegs Csr.mstatus).getLsbD Mstatus.mprvShift = false ∧ s.exec.AccessesAsPriv) ∧
    ∀ (δ : Type) (devices : List (Device δ)) (s : DataPath δ),
      DataPath.Reachable devices entry s → s.core.exec.priv ≠ privM →
        (s.core.exec.csrRegs Csr.mstatus).getLsbD Mstatus.mprvShift = false ∧
        s.core.exec.AccessesAsPriv ∧
        (s.dmmu.InWalk → s.dmmu.dPriv = s.core.exec.priv.setWidth 8) := by
  constructor
  · intro s hs hpriv
    exact ⟨hs.mprvInMachine hpriv, hs.mprvInMachine.accessesAsPriv hpriv⟩
  · intro δ devices s hs hpriv
    have hclear : s.core.exec.MprvInMachine := (DataPath.Reachable.core hs).mprvInMachine
    have haccess := hclear.accessesAsPriv hpriv
    exact ⟨hclear hpriv, haccess, fun hwalks =>
      (DataPath.Reachable.walksAsNow hs hwalks).trans haccess.dataPriv_eq⟩

end Turtle
