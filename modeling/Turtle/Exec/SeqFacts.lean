import Turtle.Exec.Seq
import Turtle.Exec.CombFacts

/-!
# What a clock edge leaves alone

Frame facts about `exec_seq`: apart from the timer and counter registers its
effect is the one of `commit`, and each part of `commit` writes only what it
names.
-/

namespace Turtle.Exec

variable {e old : Exec} {idEx : IdEx} {c : ExecComb} {a b lo hi : BitVec 12} {v : BitVec 32}

@[simp] theorem write_priv : (e.write a v).priv = e.priv := rfl

@[simp] theorem write_pmp : (e.write a v).pmp = e.pmp := rfl

@[simp] theorem write_csrRegs_self : (e.write a v).csrRegs a = v := Function.update_self ..

@[simp] theorem write_csrRegs_of_ne (h : b ≠ a) : (e.write a v).csrRegs b = e.csrRegs b :=
  Function.update_of_ne h ..

/-- The registers that `exec_seq` updates in every cycle. -/
def IsTimerCsr (a : BitVec 12) : Prop :=
  a = Csr.time ∨ a = Csr.timeh ∨ a = Csr.mcycle ∨ a = Csr.mcycleh ∨ a = Csr.minstret ∨
    a = Csr.minstreth

instance (a : BitVec 12) : Decidable (IsTimerCsr a) := by
  unfold IsTimerCsr
  infer_instance

@[simp] theorem counterUpdate_priv {counts : Bool} :
    (counterUpdate old a v lo hi counts e).priv = e.priv := by
  unfold counterUpdate
  split_ifs <;> rfl

@[simp] theorem counterUpdate_pmp {counts : Bool} :
    (counterUpdate old a v lo hi counts e).pmp = e.pmp := by
  unfold counterUpdate
  split_ifs <;> rfl

theorem counterUpdate_csrRegs_of_ne {counts : Bool} (hlo : b ≠ lo) (hhi : b ≠ hi) :
    (counterUpdate old a v lo hi counts e).csrRegs b = e.csrRegs b := by
  unfold counterUpdate
  split_ifs <;> simp [hlo, hhi]

@[simp] theorem execSeq_priv {mtime : BitVec 64} :
    (e.execSeq idEx c mtime).priv = (e.commit idEx c).priv := by
  simp [execSeq]

@[simp] theorem execSeq_pmp {mtime : BitVec 64} :
    (e.execSeq idEx c mtime).pmp = (e.commit idEx c).pmp := by
  simp [execSeq]

theorem execSeq_csrRegs {mtime : BitVec 64} (h : ¬ IsTimerCsr b) :
    (e.execSeq idEx c mtime).csrRegs b = (e.commit idEx c).csrRegs b := by
  simp only [IsTimerCsr, not_or] at h
  obtain ⟨htime, htimeh, hcycle, hcycleh, hret, hreth⟩ := h
  unfold execSeq
  dsimp only
  rw [counterUpdate_csrRegs_of_ne hret hreth, counterUpdate_csrRegs_of_ne hcycle hcycleh,
    write_csrRegs_of_ne htimeh, write_csrRegs_of_ne htime]

/-- The timer registers follow the platform timer. -/
theorem execSeq_time {mtime : BitVec 64} :
    (e.execSeq idEx c mtime).csrRegs Csr.time = mtime.setWidth 32 ∧
      (e.execSeq idEx c mtime).csrRegs Csr.timeh = (mtime >>> 32).setWidth 32 := by
  unfold execSeq
  dsimp only
  constructor
  · rw [counterUpdate_csrRegs_of_ne (by decide) (by decide),
      counterUpdate_csrRegs_of_ne (by decide) (by decide), write_csrRegs_of_ne (by decide),
      write_csrRegs_self]
  · rw [counterUpdate_csrRegs_of_ne (by decide) (by decide),
      counterUpdate_csrRegs_of_ne (by decide) (by decide), write_csrRegs_self]

@[simp] theorem csrWrite_priv : (e.csrWrite idEx v).priv = e.priv := by
  unfold csrWrite
  dsimp only
  split_ifs <;> rfl

/-- The privilege that a trap enters. -/
theorem trap_priv {cause tval epc : BitVec 32} :
    (e.trap cause tval epc).priv = if e.delegatedToS cause then privS else privM := by
  unfold trap
  dsimp only
  split <;> rfl

@[simp] theorem trap_pmp {cause tval epc : BitVec 32} : (e.trap cause tval epc).pmp = e.pmp := by
  unfold trap
  dsimp only
  split <;> rfl

theorem trap_mstatus {cause tval epc : BitVec 32} :
    (e.trap cause tval epc).csrRegs Csr.mstatus =
      if e.delegatedToS cause then trapMstatusS (e.csrRegs Csr.mstatus) e.priv
      else trapMstatusM (e.csrRegs Csr.mstatus) e.priv := by
  unfold trap
  dsimp only
  split
  · simp only [write_csrRegs_self]
  · simp only [write_csrRegs_self]

/-- A trap return writes `mstatus` only. -/
theorem returnFromTrap_csrRegs_of_ne {mmode : Bool} (h : a ≠ Csr.mstatus) :
    (e.returnFromTrap mmode).csrRegs a = e.csrRegs a := by
  cases mmode <;> exact write_csrRegs_of_ne h

theorem commit_of_trap (h : c.onTrap = true) :
    e.commit idEx c = e.trap c.cause c.tval c.epc := if_pos h

theorem commit_of_mret (htrap : c.onTrap = false) (h : c.csrMret = true) :
    e.commit idEx c = e.returnFromTrap true := by
  simp [commit, htrap, h]

theorem commit_of_sret (htrap : c.onTrap = false) (h : c.csrSret = true)
    (hmret : c.csrMret = false) : e.commit idEx c = e.returnFromTrap false := by
  simp [commit, htrap, h, hmret]

/-- Without a trap and without a trap return the privilege stays. -/
theorem commit_priv_of_no_return (htrap : c.onTrap = false) (hmret : c.csrMret = false)
    (hsret : c.csrSret = false) : (e.commit idEx c).priv = e.priv := by
  unfold commit
  rw [htrap, hmret, hsret]
  cases c.csrAccess with
  | false => rfl
  | true => exact csrWrite_priv

end Turtle.Exec
