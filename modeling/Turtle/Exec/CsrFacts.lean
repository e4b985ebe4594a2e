import Turtle.Exec.SeqFacts

/-!
# What a CSR instruction reads and writes

A CSR instruction that does not trap passed the privilege guard of its address.
The value it writes is described bit by bit: a bit outside the mask keeps the
value that was read, a bit inside is set, cleared or replaced by the operand.
-/

namespace Turtle

/-- The six CSR instructions. -/
def InstrType.IsCsr (t : InstrType) : Prop :=
  t = .csrrw ∨ t = .csrrwi ∨ t = .csrrs ∨ t = .csrrsi ∨ t = .csrrc ∨ t = .csrrci

instance (t : InstrType) : Decidable t.IsCsr := by
  unfold InstrType.IsCsr
  infer_instance

/-- What a CSR instruction makes of a bit `old` that it may write, with operand bit `v`. -/
def InstrType.csrBit (t : InstrType) (old v : Bool) : Bool :=
  match t with
  | .csrrw | .csrrwi => v
  | .csrrs | .csrrsi => old || v
  | .csrrc | .csrrci => old && !v
  | _ => old

namespace Exec

variable {e : Exec} {i : ExecIn} {c : ExecComb} {idEx : IdEx} {a : BitVec 12} {v cur : BitVec 32}

/-- The bits of the value that `csr_wdata` computes. -/
theorem getLsbD_csrWdata {n : ℕ} (hn : n < 32) :
    (e.csrWdata idEx a cur).getLsbD n =
      if (e.csrMask a).getLsbD n then idEx.type.csrBit (cur.getLsbD n) (idEx.csrVal.getLsbD n)
      else cur.getLsbD n := by
  have hnot (x : BitVec 32) : (~~~x).getLsbD n = !x.getLsbD n := by
    rw [BitVec.getLsbD_not, decide_eq_true hn, Bool.true_and]
  unfold csrWdata InstrType.csrBit
  dsimp only
  cases idEx.type
  all_goals
    simp only [BitVec.getLsbD_or, BitVec.getLsbD_and, hnot]
    cases (e.csrMask a).getLsbD n <;> simp

/-- Outside the mask nothing changes. -/
theorem csrWdata_and_not_mask {m : BitVec 32} (h : e.csrMask a = m) :
    e.csrWdata idEx a cur &&& ~~~m = cur &&& ~~~m := by
  apply BitVec.eq_of_getLsbD_eq
  intro n hn
  rw [BitVec.getLsbD_and, BitVec.getLsbD_and, getLsbD_csrWdata hn, h, BitVec.getLsbD_not,
    decide_eq_true hn, Bool.true_and]
  cases m.getLsbD n with
  | false => rfl
  | true => simp

/-- A CSR access comes from one of the six instructions. -/
theorem execType_csrAccess (hc : c.csrAccess = false) (h : (e.execType i c).csrAccess = true) :
    i.idEx.type.IsCsr ∧ ∃ write, e.execType i c = e.execCsr i c write := by
  have hjump (d : ExecComb) (target : BitVec 32) : (d.jump target).csrAccess = d.csrAccess := by
    unfold ExecComb.jump
    dsimp only
    split <;> rfl
  have hbranch (taken : Bool) : (c.branch i.idEx taken).csrAccess = false := by
    unfold ExecComb.branch
    split
    · rw [hjump]
      exact hc
    · exact hc
  unfold execType at h ⊢
  dsimp only at h ⊢
  cases ht : i.idEx.type <;> rw [ht] at h <;> dsimp only at h ⊢
  case csrrw => exact ⟨by decide, true, rfl⟩
  case csrrwi => exact ⟨by decide, true, rfl⟩
  case csrrs => exact ⟨by decide, false, rfl⟩
  case csrrsi => exact ⟨by decide, false, rfl⟩
  case csrrc => exact ⟨by decide, false, rfl⟩
  case csrrci => exact ⟨by decide, false, rfl⟩
  case jal => simp [execJump, hjump, hc] at h
  case jalr => simp [execJump, hjump, hc] at h
  case beq => simp [hbranch] at h
  case bne => simp [hbranch] at h
  case blt => simp [hbranch] at h
  case bge => simp [hbranch] at h
  case bltu => simp [hbranch] at h
  case bgeu => simp [hbranch] at h
  case sfenceVma => split at h <;> simp [hc] at h
  case wfi => split at h <;> simp [hc] at h
  case sret => split at h <;> simp [hc] at h
  all_goals simp [hc, ExecComb.raise] at h

/-- The six instructions access a CSR. -/
theorem execType_of_csr (h : i.idEx.type.IsCsr) :
    ∃ write, e.execType i c = e.execCsr i c write := by
  unfold execType
  dsimp only
  rcases h with ht | ht | ht | ht | ht | ht
  all_goals
    rw [ht]
    exact ⟨_, rfl⟩

/-- A CSR instruction that does not trap passed the guard and is an access. -/
theorem execCsr_of_no_trap {write : Bool} (h : (e.execCsr i c write).onTrap = false) :
    ((i.idEx.csrAddr >>> 8) &&& 3).setWidth 32 ≤ e.priv ∧
      e.execCsr i c write = e.readCsr i { c with csrAccess := true } := by
  unfold execCsr at h ⊢
  dsimp only at h ⊢
  split at h
  · rename_i hguard
    rw [if_pos hguard]
    exact ⟨hguard.1, rfl⟩
  · cases h

/-- The value that a read of `mstatus` gives. -/
theorem readCsr_mstatus (h : i.idEx.csrAddr = Csr.mstatus) :
    (e.readCsr i c).exRdVal = e.csrRegs Csr.mstatus &&& Mstatus.mask := by
  unfold readCsr
  dsimp only
  rw [if_pos h]

/-- The registers that a CSR write at address `a` reaches: those of S-level names
that are views, else the register itself. -/
def storage (a : BitVec 12) : BitVec 12 :=
  if a = Csr.sstatus then Csr.mstatus
  else if a = Csr.sie then Csr.mie
  else if a = Csr.sip then Csr.mip
  else a

/-- `mstatus` is written through its own address and that of `sstatus`. -/
theorem mstatus_ne_storage {a : BitVec 12} (h : a ≠ Csr.mstatus) (hview : a ≠ Csr.sstatus) :
    Csr.mstatus ≠ storage a := by
  unfold storage
  rw [if_neg hview]
  split_ifs
  · decide
  · decide
  · exact h.symm

/-- A CSR write leaves every register but the one behind its address alone. -/
theorem csrWrite_csrRegs_of_ne {b : BitVec 12} (h : b ≠ storage idEx.csrAddr) :
    (e.csrWrite idEx v).csrRegs b = e.csrRegs b := by
  unfold storage at h
  unfold csrWrite
  dsimp only
  by_cases hsstatus : idEx.csrAddr = Csr.sstatus
  · rw [if_pos hsstatus] at h ⊢
    exact write_csrRegs_of_ne h
  rw [if_neg hsstatus] at h ⊢
  by_cases hsie : idEx.csrAddr = Csr.sie
  · rw [if_pos hsie] at h ⊢
    exact write_csrRegs_of_ne h
  rw [if_neg hsie] at h ⊢
  by_cases hsip : idEx.csrAddr = Csr.sip
  · rw [if_pos hsip] at h
    rw [if_pos (.inl hsip)]
    exact write_csrRegs_of_ne h
  rw [if_neg hsip] at h
  split_ifs with hmip
  · rw [hmip.resolve_left hsip] at h
    exact write_csrRegs_of_ne h
  · rfl
  · rfl
  · rfl
  · rfl
  · exact write_csrRegs_of_ne h

/-- A write to `sstatus` goes to `mstatus`. -/
theorem csrWrite_sstatus (h : idEx.csrAddr = Csr.sstatus) :
    (e.csrWrite idEx v).csrRegs Csr.mstatus =
      e.csrWdata idEx idEx.csrAddr (e.csrRegs Csr.mstatus) := by
  unfold csrWrite
  dsimp only
  rw [if_pos h, write_csrRegs_self]

/-- A write to `sie` goes to `mie`. -/
theorem csrWrite_sie (h : idEx.csrAddr = Csr.sie) :
    (e.csrWrite idEx v).csrRegs Csr.mie = e.csrWdata idEx idEx.csrAddr (e.csrRegs Csr.mie) := by
  unfold csrWrite
  dsimp only
  rw [if_neg (by rw [h]; decide), if_pos h, write_csrRegs_self]

/-- A write to `sip` goes to `mip`. -/
theorem csrWrite_sip (h : idEx.csrAddr = Csr.sip) :
    (e.csrWrite idEx v).csrRegs Csr.mip = e.csrWdata idEx idEx.csrAddr (e.csrRegs Csr.mip) := by
  unfold csrWrite
  dsimp only
  rw [if_neg (by rw [h]; decide), if_neg (by rw [h]; decide), if_pos (.inl h), write_csrRegs_self]

/-- A write to `mstatus` stores the value that was computed from the read. -/
theorem csrWrite_mstatus (h : idEx.csrAddr = Csr.mstatus) :
    (e.csrWrite idEx v).csrRegs Csr.mstatus = v := by
  unfold csrWrite
  dsimp only
  rw [h]
  have hconfig : (isPmpConfig Csr.mstatus && e.priv == 3) = false := by
    rw [show isPmpConfig Csr.mstatus = false by decide, Bool.false_and]
  have haddr : (isPmpAddr Csr.mstatus && e.priv == 3) = false := by
    rw [show isPmpAddr Csr.mstatus = false by decide, Bool.false_and]
  rw [if_neg (by decide), if_neg (by decide), if_neg (by decide), if_neg (by decide), hconfig,
    haddr, if_neg (by decide), if_neg (by decide), if_neg (by decide), write_csrRegs_self]

end Exec

end Turtle
