import Turtle.PrivilegeLevels

/-!
# The status stack

`mstatus` keeps one level of a stack for each mode: `xIE` and `xPIE` hold the interrupt
enable before and since the trap, and `xPP` holds the privilege. A trap return should pop
it. The functions of `EXEC` merge `xPIE` into `xIE` without clearing `xIE` first, so the pop
fails exactly where a handler has enabled interrupts and cleared `xPIE`.
-/

namespace Turtle

open Bits

namespace Exec

/-! The fields of the stack of one mode: M-mode when `mmode` holds, else S-mode. -/

/-- The place of `xIE`. -/
def ieShift (mmode : Bool) : ℕ := if mmode then Mstatus.mieShift else Mstatus.sieShift

/-- The place of `xPIE`. -/
def pieShift (mmode : Bool) : ℕ := if mmode then Mstatus.mpieShift else Mstatus.spieShift

/-- The mask of `xPP`. -/
def ppMask (mmode : Bool) : BitVec 32 := if mmode then Mstatus.mpp else Mstatus.spp

/-- The value of `xPP`. -/
def ppField (mmode : Bool) (mstatus : BitVec 32) : BitVec 32 :=
  if mmode then mppField mstatus else sppField mstatus

/-- `e'` is `e` after the status stack of a mode was popped. -/
structure Pops (mmode : Bool) (e e' : Exec) : Prop where
  ie : (e'.csrRegs Csr.mstatus).getLsbD (ieShift mmode) =
    (e.csrRegs Csr.mstatus).getLsbD (pieShift mmode)
  pie : (e'.csrRegs Csr.mstatus).getLsbD (pieShift mmode) = true
  pp : ppField mmode (e'.csrRegs Csr.mstatus) = 0
  priv : e'.priv = ppField mmode (e.csrRegs Csr.mstatus)
  mprv : (e'.csrRegs Csr.mstatus).getLsbD Mstatus.mprvShift =
    ((e.csrRegs Csr.mstatus).getLsbD Mstatus.mprvShift && decide (e'.priv = privM))
  others : ∀ n < 32, n ≠ ieShift mmode → n ≠ pieShift mmode → (ppMask mmode).getLsbD n = false →
    n ≠ Mstatus.mprvShift →
      (e'.csrRegs Csr.mstatus).getLsbD n = (e.csrRegs Csr.mstatus).getLsbD n

/-- A handler has set `xIE` and cleared `xPIE`. -/
def Reenabled (mmode : Bool) (mstatus : BitVec 32) : Prop :=
  mstatus.getLsbD (ieShift mmode) = true ∧ mstatus.getLsbD (pieShift mmode) = false

instance (mmode : Bool) (mstatus : BitVec 32) : Decidable (Reenabled mmode mstatus) :=
  inferInstanceAs (Decidable (_ ∧ _))

/-- The `mstatus` that a trap return writes. -/
def retMstatus (mmode : Bool) (mstatus : BitVec 32) : BitVec 32 :=
  if mmode then mretMstatus mstatus else sretMstatus mstatus

variable {e : Exec} {mmode : Bool} {m : BitVec 32}

theorem returnFromTrap_eq : e.returnFromTrap mmode =
    { e.write Csr.mstatus (retMstatus mmode (e.csrRegs Csr.mstatus)) with
      priv := ppField mmode (e.csrRegs Csr.mstatus) } := by
  cases mmode <;> rfl

/-- Both returns compute the same function of their fields. -/
theorem retMstatus_eq : retMstatus mmode m =
    let kept := (if ppField mmode m ≠ privM then m &&& ~~~Mstatus.mprv else m) &&& ~~~ppMask mmode
    (kept ||| (((kept &&& (1#32 <<< pieShift mmode)) >>> pieShift mmode) <<< ieShift mmode)) |||
      (1#32 <<< pieShift mmode) := by
  cases mmode <;> rfl

/-- The word before `xPIE` is merged: `xPP` is cleared, and `MPRV` unless M-mode is entered. -/
theorem getLsbD_kept {n : ℕ} (hn : n < 32) :
    ((if ppField mmode m ≠ privM then m &&& ~~~Mstatus.mprv else m) &&&
      ~~~ppMask mmode).getLsbD n =
    (m.getLsbD n && (decide (n ≠ Mstatus.mprvShift) || decide (ppField mmode m = privM)) &&
      !(ppMask mmode).getLsbD n) := by
  rw [BitVec.getLsbD_and, BitVec.getLsbD_not, decide_eq_true hn, Bool.true_and]
  congr 1
  split
  case isTrue hpriv =>
    rw [BitVec.getLsbD_and, BitVec.getLsbD_not, Mstatus.mprv,
      getLsbD_one_shiftLeft _ _ (by decide), decide_eq_true hn, decide_eq_false hpriv]
    simp
  case isFalse hpriv =>
    rw [decide_eq_true (not_not.mp hpriv), Bool.or_true, Bool.and_true]

/-- The bits of the written `mstatus`. -/
theorem getLsbD_retMstatus {n : ℕ} (hn : n < 32) : (retMstatus mmode m).getLsbD n =
    if n = pieShift mmode then true
    else if n = ieShift mmode then m.getLsbD n || m.getLsbD (pieShift mmode)
    else if (ppMask mmode).getLsbD n then false
    else if n = Mstatus.mprvShift then m.getLsbD n && decide (ppField mmode m = privM)
    else m.getLsbD n := by
  have hpie : pieShift mmode < 32 := by cases mmode <;> decide
  have hplaces : (ppMask mmode).getLsbD (pieShift mmode) = false ∧
      (ppMask mmode).getLsbD (ieShift mmode) = false ∧ pieShift mmode ≠ Mstatus.mprvShift ∧
      ieShift mmode ≠ Mstatus.mprvShift := by
    cases mmode <;> decide
  obtain ⟨hpiepp, hiepp, hpiemprv, hiemprv⟩ := hplaces
  rw [retMstatus_eq]
  dsimp only
  rw [getLsbD_merge_set hpie hn, getLsbD_kept hn, getLsbD_kept hpie]
  by_cases hnpie : n = pieShift mmode
  · simp [hnpie]
  by_cases hnie : n = ieShift mmode
  · subst hnie
    simp [hnpie, hpiepp, hiepp, hpiemprv, hiemprv]
  rw [if_neg hnpie, if_neg hnie, decide_eq_false hnie, decide_eq_false hnpie, Bool.false_and,
    Bool.or_false, Bool.or_false]
  cases (ppMask mmode).getLsbD n with
  | true => simp
  | false => by_cases hmprv : n = Mstatus.mprvShift <;> simp [hmprv]

theorem ppField_eq_zero (h : ∀ n < 32, (ppMask mmode).getLsbD n = true → m.getLsbD n = false) :
    ppField mmode m = 0 := by
  cases mmode with
  | true =>
    change mppField m = 0
    rw [mppField_eq, h 11 (by decide) (by decide), h 12 (by decide) (by decide)]
    rfl
  | false =>
    change sppField m = 0
    rw [sppField_eq, h 8 (by decide) (by decide), if_neg Bool.false_ne_true]

section

variable (e mmode)

theorem returnFromTrap_mstatus : (e.returnFromTrap mmode).csrRegs Csr.mstatus =
    retMstatus mmode (e.csrRegs Csr.mstatus) := by
  rw [returnFromTrap_eq]
  change (e.write Csr.mstatus (retMstatus mmode (e.csrRegs Csr.mstatus))).csrRegs Csr.mstatus = _
  exact write_csrRegs_self

theorem returnFromTrap_priv : (e.returnFromTrap mmode).priv =
    ppField mmode (e.csrRegs Csr.mstatus) := by
  rw [returnFromTrap_eq]

end

/-- Popping looks at the privilege and at `mstatus`. -/
theorem pops_congr {e₁ e₂ : Exec} (hpriv : e₁.priv = e₂.priv)
    (hstatus : e₁.csrRegs Csr.mstatus = e₂.csrRegs Csr.mstatus) :
    Pops mmode e e₁ ↔ Pops mmode e e₂ := by
  constructor
  · rintro ⟨hie, hpie, hpp, hp, hmprv, hothers⟩
    rw [hstatus] at hie hpie hpp hmprv hothers
    rw [hpriv] at hp hmprv
    exact ⟨hie, hpie, hpp, hp, hmprv, hothers⟩
  · rintro ⟨hie, hpie, hpp, hp, hmprv, hothers⟩
    rw [← hstatus] at hie hpie hpp hmprv hothers
    rw [← hpriv] at hp hmprv
    exact ⟨hie, hpie, hpp, hp, hmprv, hothers⟩

/-- A trap return pops the stack exactly when the handler has not enabled interrupts with
`xPIE` clear. -/
theorem pops_returnFromTrap_iff :
    Pops mmode e (e.returnFromTrap mmode) ↔ ¬ Reenabled mmode (e.csrRegs Csr.mstatus) := by
  have hplaces : ieShift mmode < 32 ∧ pieShift mmode < 32 ∧ ieShift mmode ≠ pieShift mmode ∧
      (ppMask mmode).getLsbD Mstatus.mprvShift = false ∧ pieShift mmode ≠ Mstatus.mprvShift ∧
      ieShift mmode ≠ Mstatus.mprvShift := by
    cases mmode <;> decide
  obtain ⟨hie, hpie, hne, hpp, hpiemprv, hiemprv⟩ := hplaces
  have hbit (n : ℕ) (hn : n < 32) : ((e.returnFromTrap mmode).csrRegs Csr.mstatus).getLsbD n = _ :=
    returnFromTrap_mstatus e mmode ▸ getLsbD_retMstatus hn
  constructor
  · rintro hpops ⟨hset, hclear⟩
    have h := hpops.ie
    rw [hbit _ hie, if_neg hne, if_pos rfl, hset, hclear] at h
    cases h
  · intro h
    constructor
    case ie =>
      rw [hbit _ hie, if_neg hne, if_pos rfl]
      unfold Reenabled at h
      cases hset : (e.csrRegs Csr.mstatus).getLsbD (ieShift mmode) with
      | false => rw [Bool.false_or]
      | true =>
        rw [hset, eq_self, true_and, Bool.not_eq_false] at h
        rw [h, Bool.or_true]
    case pie => rw [hbit _ hpie, if_pos rfl]
    case pp =>
      refine ppField_eq_zero fun n hn hmask => ?_
      have hplace : n ≠ pieShift mmode ∧ n ≠ ieShift mmode := by
        constructor <;> rintro rfl <;> revert hmask <;> cases mmode <;> decide
      rw [hbit n hn, if_neg hplace.1, if_neg hplace.2, if_pos hmask]
    case priv => exact returnFromTrap_priv e mmode
    case mprv =>
      rw [hbit _ (by decide), if_neg hpiemprv.symm, if_neg hiemprv.symm, hpp,
        if_neg Bool.false_ne_true, if_pos rfl, returnFromTrap_priv]
    case others =>
      intro n hn hnie hnpie hnpp hnmprv
      rw [hbit n hn, if_neg hnpie, if_neg hnie, hnpp, if_neg Bool.false_ne_true, if_neg hnmprv]

end Exec

namespace Core

/-- The trap return of a mode. -/
def retType (mmode : Bool) : InstrType := if mmode then .mret else .sret

variable {entry : BitVec 32} {s : Core} {i : CoreIn} {mmode : Bool}

/-- An executed trap return commits `return_from_trap`. -/
theorem Executes.commit_of_ret (h : Executes entry s i) (htype : s.idEx.type = retType mmode) :
    s.exec.commit s.idEx (s.comb entry i) = s.exec.returnFromTrap mmode := by
  cases mmode with
  | true => exact Exec.commit_of_mret h.2.2 (h.csrMret_iff.mpr htype)
  | false =>
    have hnomret : (s.comb entry i).csrMret = false := by
      refine Bool.eq_false_of_not_eq_true fun hret => ?_
      rw [h.csrMret_iff.mp hret] at htype
      cases htype
    exact Exec.commit_of_sret h.2.2 (h.csrSret_iff.mpr htype) hnomret

/-- An executed trap return pops the status stack of its mode exactly when `xIE` was not set
with `xPIE` clear. -/
theorem xret_pops_iff (entry : BitVec 32) (s : Core) (i : CoreIn) (mmode : Bool)
    (hexec : Executes entry s i) (htype : s.idEx.type = retType mmode) :
    Exec.Pops mmode s.exec (step entry s i).exec ↔
      ¬ Exec.Reenabled mmode (s.exec.csrRegs Csr.mstatus) := by
  have hstatus : (step entry s i).exec.csrRegs Csr.mstatus =
      (s.exec.returnFromTrap mmode).csrRegs Csr.mstatus := by
    rw [csrRegs_step (by decide), hexec.commit_of_ret htype]
  have hpriv : (step entry s i).exec.priv = (s.exec.returnFromTrap mmode).priv := by
    rw [priv_step, hexec.commit_of_ret htype]
  rw [← Exec.pops_returnFromTrap_iff, Exec.pops_congr hpriv hstatus]

/-- The first `MRET` after reset pops the stack: `MPP` holds M and `MIE` is clear. -/
theorem mret_pops_after_reset :
    let s := step 0x80000000 (step 0x80000000 {} { rst := true, rstComb := true })
      (offer 0x80000000 0x30200073)
    Exec.Pops true s.exec (step 0x80000000 s {}).exec := by
  intro s
  exact (xret_pops_iff 0x80000000 s {} true (by decide) (by decide)).mpr
    (by decide)

/-- A handler that sets `MIE` with `MPIE` clear and returns. -/
def enableAndReturn : List CoreIn :=
  [offer 0x80000000 0x30046073,   -- csrrsi x0, mstatus, 8
   offer 0x80000004 0x30200073]   -- mret

/-- `MIE` stays set although `MPIE` was clear. -/
theorem mret_keeps_mie :
    let s := Clocked.run (step 0x80000000) (step 0x80000000 {} { rst := true, rstComb := true })
      enableAndReturn
    Reachable 0x80000000 s ∧ Executes 0x80000000 s {} ∧ s.idEx.type = retType true ∧
      (s.exec.csrRegs Csr.mstatus).getLsbD Mstatus.mpieShift = false ∧
      ((step 0x80000000 s {}).exec.csrRegs Csr.mstatus).getLsbD Mstatus.mieShift = true ∧
      ¬ Exec.Pops true s.exec (step 0x80000000 s {}).exec := by
  intro s
  refine ⟨Clocked.Reachable.run (.start ⟨_, rfl, rfl⟩) _, by decide, by decide,
    by decide, by decide, fun hpops => ?_⟩
  exact absurd hpops.ie (by decide)

end Core

end Turtle
