import Turtle.Privilege
import Turtle.ProgramOrder

/-!
# Trap entry followed by trap return

A trap saves the privilege, the interrupt enable and the pc in `mstatus` and
`xepc`, and the matching `xRET` takes them back. Entry into S-mode replaces the
`SPP` field; entry into M-mode only merges the privilege into `MPP`, so that an
older value there is still seen by `MRET`. This file says exactly when the pair
restores the interrupted context.
-/

namespace Turtle

open Bits

namespace Exec

variable {e : Exec} {m p : BitVec 32}

theorem getLsbD_of_le_three (hp : p ≤ 3) {i : ℕ} (hi : 2 ≤ i) : p.getLsbD i = false := by
  have hlt : p.toNat < 4 := by
    have hle := BitVec.le_def.mp hp
    simp at hle
    omega
  have hpow : 4 ≤ 2 ^ i := Nat.pow_le_pow_right (n := 2) (by omega) hi
  exact Nat.testBit_lt_two_pow (by omega)

/-- The bits of the `MPP` field. -/
theorem getLsbD_mppField (m : BitVec 32) (i : ℕ) :
    (mppField m).getLsbD i = (decide (i < 2) && m.getLsbD (11 + i)) := by
  by_cases h : i < 2
  · obtain rfl | rfl : i = 0 ∨ i = 1 := by omega
    all_goals simp [mppField, Mstatus.mpp, Mstatus.mppShift]
  · have hmask : (3#32 <<< 11).getLsbD (11 + i) = false := by
      rw [BitVec.getLsbD_shiftLeft, getLsbD_of_le_three (by decide) (by omega)]
      simp
    rw [mppField, Mstatus.mpp, Mstatus.mppShift, BitVec.getLsbD_ushiftRight, BitVec.getLsbD_and,
      hmask]
    simp [h]

/-- The `SPP` field is one bit. -/
theorem sppField_eq (m : BitVec 32) : sppField m = if m.getLsbD 8 then 1 else 0 := by
  rw [sppField, Mstatus.spp, Mstatus.sppShift, and_one_shiftLeft]
  split <;> rfl

theorem mppField_le (m : BitVec 32) : mppField m ≤ 3 := by
  have h : mppField m = mppField m &&& 3 := by
    apply BitVec.eq_of_getLsbD_eq
    intro i hi
    rw [BitVec.getLsbD_and, getLsbD_mppField]
    by_cases hlt : i < 2
    · obtain rfl | rfl : i = 0 ∨ i = 1 := by omega
      all_goals simp
    · simp [hlt]
  rw [h, BitVec.le_def, BitVec.toNat_and]
  exact Nat.and_le_right

theorem sppField_le (m : BitVec 32) : sppField m ≤ 3 := by
  rw [sppField_eq]
  split <;> decide

/-- Entry into M-mode leaves the union of the old field and the privilege in `MPP`. -/
theorem mppField_trapMstatusM (hp : p ≤ 3) : mppField (trapMstatusM m p) = mppField m ||| p := by
  apply BitVec.eq_of_getLsbD_eq
  intro i hi
  rw [BitVec.getLsbD_or, getLsbD_mppField, getLsbD_mppField]
  by_cases h : i < 2
  · obtain rfl | rfl : i = 0 ∨ i = 1 := by omega
    all_goals simp [trapMstatusM, Mstatus.mie, Mstatus.mpie, Mstatus.mieShift, Mstatus.mpieShift,
      Mstatus.mppShift]
  · simp [h, getLsbD_of_le_three hp (i := i) (by omega)]

/-- Entry into S-mode leaves in `SPP` whether it came from S-mode. -/
theorem sppField_trapMstatusS : sppField (trapMstatusS m p) = if p = privS then 1 else 0 := by
  rw [sppField_eq]
  unfold trapMstatusS
  split_ifs <;> simp_all [Mstatus.spp, Mstatus.sppShift]

/-- Entry into M-mode and `MRET` bring `MIE` back. -/
theorem mie_of_return : mretMstatus (trapMstatusM m p) &&& Mstatus.mie = m &&& Mstatus.mie := by
  have hret (x : BitVec 32) : (mretMstatus x).getLsbD 3 = (x.getLsbD 3 || x.getLsbD 7) := by
    unfold mretMstatus
    dsimp only
    split <;> simp [Mstatus.mpp, Mstatus.mpie, Mstatus.mieShift, Mstatus.mpieShift,
      Mstatus.mppShift, Mstatus.mprv, Mstatus.mprvShift]
  have hentry : (trapMstatusM m p).getLsbD 3 = false ∧
      (trapMstatusM m p).getLsbD 7 = m.getLsbD 3 := by
    constructor <;> simp [trapMstatusM, Mstatus.mie, Mstatus.mpie, Mstatus.mieShift,
      Mstatus.mpieShift, Mstatus.mppShift]
  rw [Mstatus.mie, Mstatus.mieShift, and_one_shiftLeft, and_one_shiftLeft, hret, hentry.1, hentry.2,
    Bool.false_or]

/-- Entry into S-mode and `SRET` bring `SIE` back. -/
theorem sie_of_return : sretMstatus (trapMstatusS m p) &&& Mstatus.sie = m &&& Mstatus.sie := by
  have hret (x : BitVec 32) : (sretMstatus x).getLsbD 1 = (x.getLsbD 1 || x.getLsbD 5) := by
    unfold sretMstatus
    dsimp only
    split <;> simp [Mstatus.spp, Mstatus.spie, Mstatus.sieShift, Mstatus.spieShift,
      Mstatus.sppShift, Mstatus.mprv, Mstatus.mprvShift]
  have hentry : (trapMstatusS m p).getLsbD 1 = false ∧
      (trapMstatusS m p).getLsbD 5 = m.getLsbD 1 := by
    unfold trapMstatusS
    constructor <;> split_ifs <;> simp [Mstatus.spp, Mstatus.sppShift, Mstatus.sie, Mstatus.spie,
      Mstatus.sieShift, Mstatus.spieShift]
  rw [Mstatus.sie, Mstatus.sieShift, and_one_shiftLeft, and_one_shiftLeft, hret, hentry.1, hentry.2,
    Bool.false_or]

section

variable {i : ExecIn} {c : ExecComb}

theorem jump_npc_even {target : BitVec 32} (htrap : (c.jump target).onTrap = false) :
    EvenWord (c.jump target).npc := by
  unfold ExecComb.jump at htrap ⊢
  dsimp only at htrap ⊢
  split at htrap
  · cases htrap
  · rename_i heven
    rw [if_neg heven]
    rwa [and_one_ne_zero_iff, not_not] at heven

theorem branch_npc_even {taken : Bool} (hc : EvenWord c.npc)
    (htrap : (c.branch i.idEx taken).onTrap = false) : EvenWord (c.branch i.idEx taken).npc := by
  cases taken with
  | false => exact hc
  | true => exact jump_npc_even htrap

theorem execCsr_npc_even {write : Bool} (hc : EvenWord c.npc) :
    EvenWord (e.execCsr i c write).npc := by
  rcases e.execCsr_result i c write with ⟨v, f, h⟩ | ⟨a, h⟩
  · rw [h]
    exact hc
  · rw [h]
    exact hc

/-- An executed instruction that does not trap goes on at an even address: jumps
to odd ones trap. -/
theorem execType_npc_even (hc : EvenWord c.npc) (htrap : (e.execType i c).onTrap = false) :
    EvenWord (e.execType i c).npc := by
  unfold execType at htrap ⊢
  dsimp only at htrap ⊢
  cases ht : i.idEx.type <;> rw [ht] at htrap <;> dsimp only at htrap ⊢
  case jal => exact jump_npc_even htrap
  case jalr => exact jump_npc_even htrap
  case beq => exact branch_npc_even hc htrap
  case bne => exact branch_npc_even hc htrap
  case blt => exact branch_npc_even hc htrap
  case bge => exact branch_npc_even hc htrap
  case bltu => exact branch_npc_even hc htrap
  case bgeu => exact branch_npc_even hc htrap
  case csrrw => exact execCsr_npc_even hc
  case csrrs => exact execCsr_npc_even hc
  case csrrc => exact execCsr_npc_even hc
  case csrrwi => exact execCsr_npc_even hc
  case csrrsi => exact execCsr_npc_even hc
  case csrrci => exact execCsr_npc_even hc
  case sfenceVma => split <;> exact hc
  case wfi => split <;> exact hc
  case sret => split <;> exact hc
  all_goals exact hc

/-- The handlers are at even addresses. -/
theorem trapPc_even (cause : BitVec 32) : EvenWord (e.trapPc cause) := by
  have hvector (tvec : BitVec 32) : EvenWord (vector tvec cause) := by
    unfold vector
    split
    · have hfour (x : BitVec 32) : EvenWord (4 * x) := by
        rw [BitVec.mul_comm, show (4 : BitVec 32) = BitVec.twoPow 32 2 by decide,
          ← BitVec.shiftLeft_eq_mul_twoPow]
        exact even_shiftLeft (by omega)
      exact (EvenWord.and_right (by decide)).add (hfour _)
    · exact even_and_not_one tvec
  unfold trapPc
  split <;> exact hvector _

/-- The next pc is even when the pc and the entry point are. -/
theorem npcOut_even (hentry : EvenWord i.entry) (hpc : EvenWord i.exPc) :
    EvenWord (e.npcOut i (e.execComb i)) := by
  unfold npcOut
  split_ifs with htrap hsret hmret hstall
  · exact trapPc_even _
  · exact even_and_not_one _
  · exact even_and_not_one _
  · exact hpc
  · rcases execComb_cases e i with ⟨-, h⟩ | ⟨-, cause, -, h⟩ | ⟨-, -, h⟩ | ⟨-, -, -, h⟩ |
      ⟨-, -, -, h⟩
    · rw [h]
      exact hentry
    · simp [h] at htrap
    · rw [h]
      exact hpc
    · simp [h] at htrap
    · rw [h] at htrap ⊢
      refine execType_npc_even ?_ (by simpa using htrap)
      refine hpc.add ?_
      split <;> decide

end

/-- Two states agree on the privilege and on every register but the timers. -/
def SameContext (e e' : Exec) : Prop :=
  e'.priv = e.priv ∧ ∀ a, ¬ IsTimerCsr a → e'.csrRegs a = e.csrRegs a

theorem SameContext.trans {e₁ e₂ e₃ : Exec} (h : SameContext e₁ e₂) (h' : SameContext e₂ e₃) :
    SameContext e₁ e₃ :=
  ⟨h'.1.trans h.1, fun a ha => (h'.2 a ha).trans (h.2 a ha)⟩

/-- A clock edge has the effect of `commit`, up to the timers. -/
theorem sameContext_execSeq (e : Exec) (idEx : IdEx) (c : ExecComb) (mtime : BitVec 64) :
    SameContext (e.commit idEx c) (e.execSeq idEx c mtime) :=
  ⟨execSeq_priv, fun _ ha => execSeq_csrRegs ha⟩

end Exec

namespace Core

variable {entry : BitVec 32} {s : Core} {i : CoreIn}

/-- The privilege of a reachable state fits the `MPP` field. -/
theorem priv_step_le (h : s.exec.priv ≤ 3) : (step entry s i).exec.priv ≤ 3 := by
  rw [priv_step]
  unfold Exec.commit
  split_ifs
  · rw [Exec.trap_priv]
    split <;> decide
  · unfold Exec.returnFromTrap
    dsimp only
    split
    · exact Exec.mppField_le _
    · exact Exec.sppField_le _
  · rw [Exec.csrWrite_priv]
    exact h
  · exact h

theorem Reachable.priv_le (h : Reachable entry s) : s.exec.priv ≤ 3 := by
  refine Clocked.Reachable.invariant (P := fun s => s.exec.priv ≤ 3) ?_ (fun _ _ => priv_step_le) h
  rintro s ⟨i, -, rfl⟩
  exact priv_step_le (by decide)

theorem exPc_even_step (hentry : EvenWord entry) (h : EvenWord s.wb.exPc) :
    EvenWord (step entry s i).wb.exPc := by
  rw [exPc_step]
  exact Exec.npcOut_even hentry h

/-- From an even entry point on, every pc is even. -/
theorem Reachable.exPc_even (hs : Reachable entry s) (hentry : EvenWord entry) :
    EvenWord s.wb.exPc := by
  refine Clocked.Reachable.invariant (P := fun s => EvenWord s.wb.exPc) ?_
    (fun _ _ => exPc_even_step hentry) hs
  rintro s ⟨i, -, rfl⟩
  exact exPc_even_step hentry (by decide)

/-- The cycle passes a bubble: no reset, no trap, nothing executed. -/
def PassesBubble (entry : BitVec 32) (s : Core) (i : CoreIn) : Prop :=
  i.rstComb = false ∧ s.idEx.flush = true ∧ (s.comb entry i).onTrap = false

instance (entry : BitVec 32) (s : Core) (i : CoreIn) : Decidable (PassesBubble entry s i) :=
  inferInstanceAs (Decidable (_ ∧ _ ∧ _))

/-- A bubble leaves the context alone. -/
theorem PassesBubble.sameContext (h : PassesBubble entry s i) :
    Exec.SameContext s.exec (step entry s i).exec := by
  have hcomb := comb_of_bubble h.1 h.2.2 h.2.1
  have hcommit : s.exec.commit s.idEx (s.comb entry i) = s.exec := by
    rw [hcomb]
    rfl
  have hedge := Exec.sameContext_execSeq s.exec s.idEx (s.comb entry i) i.mtime
  rwa [hcommit] at hedge

theorem sameContext_of_bubbles {js : List CoreIn}
    (h : ∀ c ∈ Clocked.trace (step entry) Prod.mk s js, PassesBubble entry c.1 c.2) :
    Exec.SameContext s.exec (Clocked.run (step entry) s js).exec := by
  induction js generalizing s with
  | nil => exact ⟨rfl, fun _ _ => rfl⟩
  | cons j js ih =>
    have hfirst := (h (s, j) List.mem_cons_self).sameContext
    exact hfirst.trans (ih fun c hc => h c (List.mem_cons_of_mem _ hc))

/-- The trap of a cycle is taken to S-mode. -/
def entersS (entry : BitVec 32) (s : Core) (i : CoreIn) : Bool :=
  s.exec.delegatedToS (s.comb entry i).cause

/-- A trap, any number of bubbles, and the return that matches the trap. -/
structure TrapThenReturn (entry : BitVec 32) (s : Core) (i : CoreIn) (js : List CoreIn)
    (k : CoreIn) : Prop where
  trap : (s.comb entry i).onTrap = true
  bubbles : ∀ c ∈ Clocked.trace (step entry) Prod.mk (step entry s i) js, PassesBubble entry c.1 c.2
  executes : Executes entry (Clocked.run (step entry) (step entry s i) js) k
  matching : (Clocked.run (step entry) (step entry s i) js).idEx.type =
    if s.entersS entry i then .sret else .mret

/-- The privilege, the interrupt enable of the mode and the pc are those of `s`. -/
def Restored (s t : Core) (toS : Bool) : Prop :=
  t.exec.priv = s.exec.priv ∧
  (t.exec.csrRegs Csr.mstatus &&& (if toS then Mstatus.sie else Mstatus.mie) =
    s.exec.csrRegs Csr.mstatus &&& (if toS then Mstatus.sie else Mstatus.mie)) ∧
  t.wb.exPc = s.wb.exPc

/-- The field that the trap leaves for the return holds the old privilege. -/
def PrivilegeKept (s : Core) (toS : Bool) : Prop :=
  if toS then s.exec.priv ≤ privS
  else Exec.mppField (s.exec.csrRegs Csr.mstatus) ||| s.exec.priv = s.exec.priv

/-- `SPP` can hold the two lower privileges. -/
theorem spp_eq_iff {p : BitVec 32} : (if p = privS then 1 else 0) = p ↔ p ≤ privS := by
  by_cases h : p = privS
  · rw [if_pos h, h]
    decide
  · rw [if_neg h]
    constructor
    · intro h0
      rw [← h0]
      decide
    · intro hle
      have hne : p.toNat ≠ 1 := fun hone => h (BitVec.eq_of_toNat_eq hone)
      have hle' : p.toNat ≤ 1 := BitVec.le_def.mp hle
      apply BitVec.eq_of_toNat_eq
      change 0 = p.toNat
      omega

/-- What an executed `MRET` does. -/
theorem Executes.after_mret (h : Executes entry s i) (htype : s.idEx.type = .mret) :
    (step entry s i).exec.priv = Exec.mppField (s.exec.csrRegs Csr.mstatus) ∧
      (step entry s i).exec.csrRegs Csr.mstatus =
        Exec.mretMstatus (s.exec.csrRegs Csr.mstatus) ∧
      (step entry s i).wb.exPc = s.exec.csrRegs Csr.mepc &&& ~~~1 := by
  have hret := h.csrMret_iff.mpr htype
  have hnosret : (s.comb entry i).csrSret = false := by
    simpa [htype] using mt h.csrSret_iff.mp
  have hedge := Exec.sameContext_execSeq s.exec s.idEx (s.comb entry i) i.mtime
  rw [Exec.commit_of_mret h.2.2 hret] at hedge
  refine ⟨hedge.1, hedge.2 Csr.mstatus (by decide), ?_⟩
  rw [exPc_step]
  simp only [out, Exec.execOut, Exec.npcOut, h.2.2, hnosret, hret, Bool.false_eq_true, if_false,
    if_true]

/-- What an executed `SRET` does. -/
theorem Executes.after_sret (h : Executes entry s i) (htype : s.idEx.type = .sret) :
    (step entry s i).exec.priv = Exec.sppField (s.exec.csrRegs Csr.mstatus) ∧
      (step entry s i).exec.csrRegs Csr.mstatus =
        Exec.sretMstatus (s.exec.csrRegs Csr.mstatus) ∧
      (step entry s i).wb.exPc = s.exec.csrRegs Csr.sepc &&& ~~~1 := by
  have hret := h.csrSret_iff.mpr htype
  have hnomret : (s.comb entry i).csrMret = false := by
    simpa [htype] using mt h.csrMret_iff.mp
  have hedge := Exec.sameContext_execSeq s.exec s.idEx (s.comb entry i) i.mtime
  rw [Exec.commit_of_sret h.2.2 hret hnomret] at hedge
  refine ⟨hedge.1, hedge.2 Csr.mstatus (by decide), ?_⟩
  rw [exPc_step]
  simp only [out, Exec.execOut, Exec.npcOut, h.2.2, hret, Bool.false_eq_true, if_false, if_true]

section

variable {js : List CoreIn} {k : CoreIn}

/-- The context in which the return executes is the one that trap entry made. -/
theorem TrapThenReturn.sameContext (h : TrapThenReturn entry s i js k) :
    Exec.SameContext (s.exec.trap (s.comb entry i).cause (s.comb entry i).tval (s.comb entry i).epc)
      (Clocked.run (step entry) (step entry s i) js).exec := by
  have hedge := Exec.sameContext_execSeq s.exec s.idEx (s.comb entry i) i.mtime
  rw [Exec.commit_of_trap h.trap] at hedge
  exact hedge.trans (sameContext_of_bubbles h.bubbles)

/-- A trap into M-mode and `MRET`: the privilege that comes back is the union of
the interrupted one with the old `MPP`. -/
theorem TrapThenReturn.restored_iff_of_machine (h : TrapThenReturn entry s i js k)
    (hvalid : s.sequential.Valid) (hpriv : s.exec.priv ≤ 3) (hM : s.entersS entry i = false) :
    Restored s (step entry (Clocked.run (step entry) (step entry s i) js) k) false ↔
      EvenWord s.wb.exPc ∧ s.PrivilegeKept false := by
  have htype := h.matching
  have hctx := h.sameContext
  rw [hM, if_neg Bool.false_ne_true] at htype
  rw [Exec.trap, if_neg (by simpa [entersS] using hM)] at hctx
  obtain ⟨hpriv', hstatus', hpc'⟩ := h.executes.after_mret htype
  rw [hctx.2 Csr.mstatus (by decide)] at hpriv' hstatus'
  rw [hctx.2 Csr.mepc (by decide)] at hpc'
  change _ = Exec.mppField (Exec.trapMstatusM (s.exec.csrRegs Csr.mstatus) s.exec.priv) at hpriv'
  change _ = Exec.mretMstatus (Exec.trapMstatusM (s.exec.csrRegs Csr.mstatus) s.exec.priv)
    at hstatus'
  change _ = ((s.comb entry i).epc &&& ~~~1) &&& ~~~1 at hpc'
  rw [Exec.mppField_trapMstatusM hpriv] at hpriv'
  rw [epc_eq hvalid] at hpc'
  unfold Restored PrivilegeKept
  simp only [hpriv', hstatus', hpc', Bool.false_eq_true, if_false, Exec.mie_of_return, true_and,
    and_not_one_twice_eq_iff]
  exact and_comm

/-- A trap into S-mode and `SRET`: the privilege that comes back is S or U. -/
theorem TrapThenReturn.restored_iff_of_supervisor (h : TrapThenReturn entry s i js k)
    (hvalid : s.sequential.Valid) (hS : s.entersS entry i = true) :
    Restored s (step entry (Clocked.run (step entry) (step entry s i) js) k) true ↔
      EvenWord s.wb.exPc ∧ s.PrivilegeKept true := by
  have htype := h.matching
  have hctx := h.sameContext
  rw [hS, if_pos rfl] at htype
  rw [Exec.trap, if_pos (by simpa [entersS] using hS)] at hctx
  obtain ⟨hpriv', hstatus', hpc'⟩ := h.executes.after_sret htype
  rw [hctx.2 Csr.mstatus (by decide)] at hpriv' hstatus'
  rw [hctx.2 Csr.sepc (by decide)] at hpc'
  change _ = Exec.sppField (Exec.trapMstatusS (s.exec.csrRegs Csr.mstatus) s.exec.priv) at hpriv'
  change _ = Exec.sretMstatus (Exec.trapMstatusS (s.exec.csrRegs Csr.mstatus) s.exec.priv)
    at hstatus'
  change _ = ((s.comb entry i).epc &&& ~~~1) &&& ~~~1 at hpc'
  rw [Exec.sppField_trapMstatusS] at hpriv'
  rw [epc_eq hvalid] at hpc'
  unfold Restored PrivilegeKept
  simp only [hpriv', hstatus', hpc', if_true, Exec.sie_of_return, true_and, spp_eq_iff,
    and_not_one_twice_eq_iff]
  exact and_comm

end

/-- Trap entry, bubbles and the matching return restore the privilege, the
interrupt enable and the pc of the interrupted state exactly when the pc was
even (which it always is from an even entry point on) and the saved field holds
the interrupted privilege. -/
theorem trap_return_restores_iff (entry : BitVec 32) (s : Core) (hs : Reachable entry s)
    (i : CoreIn) (js : List CoreIn) (k : CoreIn) (h : TrapThenReturn entry s i js k) :
    (EvenWord entry → EvenWord s.wb.exPc) ∧
    (Restored s (step entry (Clocked.run (step entry) (step entry s i) js) k) (s.entersS entry i) ↔
      EvenWord s.wb.exPc ∧ s.PrivilegeKept (s.entersS entry i)) := by
  refine ⟨fun hentry => hs.exPc_even hentry, ?_⟩
  cases hmode : s.entersS entry i with
  | false => exact h.restored_iff_of_machine hs.valid hs.priv_le hmode
  | true => exact h.restored_iff_of_supervisor hs.valid hmode

/-- `ECALL` in M-mode right after reset, and `MRET` at the handler. -/
theorem ecall_mret_restores_machineMode :
    let s := step 0x80000000 (step 0x80000000 {} { rst := true, rstComb := true })
      (offer 0x80000000 0x00000073)
    TrapThenReturn 0x80000000 s {} [offer 0 0x30200073] {} ∧
      Restored s (step 0x80000000 (Clocked.run (step 0x80000000) (step 0x80000000 s {})
        [offer 0 0x30200073]) {}) false := by
  intro s
  have hs : Reachable 0x80000000 s := .step _ (.start ⟨_, rfl, rfl⟩)
  have h : TrapThenReturn 0x80000000 s {} [offer 0 0x30200073] {} :=
    ⟨by decide, by decide, by decide, by decide⟩
  have hmode : s.entersS 0x80000000 {} = false := by decide
  have hiff := (trap_return_restores_iff _ s hs _ _ _ h).2
  rw [hmode] at hiff
  have hkept : s.PrivilegeKept false := by
    rw [PrivilegeKept, if_neg Bool.false_ne_true]
    decide
  exact ⟨h, hiff.mpr ⟨by decide, hkept⟩⟩

/-- `ECALL` in U-mode, entered by `SRET` from M-mode, and `MRET` at the handler:
`MPP` still holds the M-mode of the reset, and `MRET` returns to it. -/
theorem ecall_mret_from_userMode_returns_to_machineMode :
    let s := Clocked.run (step 0x80000000) (step 0x80000000 {} { rst := true, rstComb := true })
      (enterUserMode ++ [offer 0x80100000 0x00000073])
    let t := step 0x80000000 (Clocked.run (step 0x80000000) (step 0x80000000 s {})
      [offer 0x80200000 0x30200073]) {}
    Reachable 0x80000000 s ∧ TrapThenReturn 0x80000000 s {} [offer 0x80200000 0x30200073] {} ∧
      s.entersS 0x80000000 {} = false ∧ s.exec.priv = privU ∧ t.exec.priv = privM ∧
      ¬ Restored s t (s.entersS 0x80000000 {}) := by
  intro s t
  have hbefore : s.exec.priv = privU := by decide
  have hafter : t.exec.priv = privM := by decide
  refine ⟨Clocked.Reachable.run (.start ⟨_, rfl, rfl⟩) _,
    ⟨by decide, by decide, by decide, by decide⟩,
    by decide, hbefore, hafter, fun h => ?_⟩
  have hsame := h.1
  rw [hbefore, hafter] at hsame
  exact absurd hsame (by decide)

end Core

end Turtle
