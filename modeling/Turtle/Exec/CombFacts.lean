import Turtle.Exec.Comb
import Mathlib.Logic.Basic

/-!
# What a decision of `exec_comb` can be

The proofs about the pipeline never look at the `switch` over instruction types
again: they use the facts below, which say for every cycle how the flags of the
decision depend on each other and where its addresses come from.
-/

namespace Turtle.Exec

/-- The two results of a CSR read that starts from `c`: it sets the value and the
flush request, or it raises an illegal-instruction exception. -/
def ReadResult (i : ExecIn) (c r : ExecComb) : Prop :=
  (∃ v f, r = { c with exRdVal := v, flush := f }) ∨ r = c.raise .illegalInstr i.idEx.inst

theorem readCounter_result (e : Exec) (i : ExecIn) (c : ExecComb) (addr : BitVec 12)
    (en : BitVec 32) : ReadResult i c (e.readCounter i c addr en) :=
  iteInduction (motive := ReadResult i c) (fun _ => .inl ⟨_, c.flush, rfl⟩) (fun _ => .inr rfl)

theorem readCsr_result (e : Exec) (i : ExecIn) (c : ExecComb) :
    ReadResult i c (e.readCsr i c) := by
  have hvalue (v : BitVec 32) : ReadResult i c { c with exRdVal := v } := .inl ⟨v, c.flush, rfl⟩
  unfold readCsr
  dsimp only
  repeat' refine iteInduction (motive := ReadResult i c) (fun _ => ?_) (fun _ => ?_)
  all_goals first
    | exact hvalue _
    | exact e.readCounter_result i c _ _
    | exact .inr rfl
    | exact .inl ⟨_, _, rfl⟩

/-- The two results of a CSR instruction: it reads, or it is an illegal instruction. -/
theorem execCsr_result (e : Exec) (i : ExecIn) (c : ExecComb) (write : Bool) :
    (∃ v f, e.execCsr i c write = { c with csrAccess := true, exRdVal := v, flush := f }) ∨
      ∃ a, e.execCsr i c write = { c with csrAccess := a }.raise .illegalInstr i.idEx.inst := by
  unfold execCsr
  dsimp only
  split
  · rcases e.readCsr_result i { c with csrAccess := true } with h | h
    · exact .inl h
    · exact .inr ⟨true, h⟩
  · exact .inr ⟨c.csrAccess, rfl⟩

/-- The facts about one decision. A stall excludes a trap, a trap return and a
flush; the saved pc is `ex_pc`, except that `ECALL` takes the pc of its own
record; only `MRET` and `SRET` return. -/
structure CombFacts (i : ExecIn) (c : ExecComb) : Prop where
  stall_quiet : c.stall = true →
    c.onTrap = false ∧ c.flush = false ∧ c.csrMret = false ∧ c.csrSret = false
  epc_eq : c.epc = i.exPc ∨ (c.epc = i.idEx.pc ∧ i.idEx.flush = false)
  csrMret_eq : c.csrMret = true ↔ c.onTrap = false ∧ i.rst = false ∧ i.idEx.flush = false ∧
    i.idEx.onTrap = false ∧ i.idEx.type = .mret
  csrSret_eq : c.csrSret = true ↔ c.onTrap = false ∧ i.rst = false ∧ i.idEx.flush = false ∧
    i.idEx.onTrap = false ∧ i.idEx.type = .sret

/-- A decision of an instruction other than `MRET` and `SRET` that sets no return
flag, keeps `ex_pc` as its saved pc and stalls only quietly. -/
theorem CombFacts.of_no_return {i : ExecIn} {c : ExecComb}
    (htype : i.idEx.type ≠ .mret ∧ i.idEx.type ≠ .sret)
    (hret : c.csrMret = false ∧ c.csrSret = false) (hepc : c.epc = i.exPc)
    (hstall : c.stall = true → c.onTrap = false ∧ c.flush = false) : CombFacts i c where
  stall_quiet h := ⟨(hstall h).1, (hstall h).2, hret⟩
  epc_eq := .inl hepc
  csrMret_eq := by simp [hret.1, htype.1]
  csrSret_eq := by simp [hret.2, htype.2]

section

variable {e : Exec} {i : ExecIn} {c : ExecComb}
  (htype : i.idEx.type ≠ .mret ∧ i.idEx.type ≠ .sret)
  (hret : c.csrMret = false ∧ c.csrSret = false) (hepc : c.epc = i.exPc)
  (hstall : c.stall = false)

include htype hret hepc hstall

theorem facts_of_not_stall : CombFacts i c :=
  .of_no_return htype hret hepc (by simp [hstall])

theorem jump_facts (target : BitVec 32) : CombFacts i (c.jump target) := by
  unfold ExecComb.jump
  split
  · exact facts_of_not_stall htype hret hepc rfl
  · exact facts_of_not_stall htype hret hepc hstall

theorem branch_facts (taken : Bool) : CombFacts i (c.branch i.idEx taken) := by
  cases taken with
  | false => exact facts_of_not_stall htype hret hepc hstall
  | true =>
    rw [ExecComb.branch, if_pos rfl]
    apply jump_facts <;> assumption

theorem execJump_facts (target : BitVec 32) : CombFacts i (execJump i c target) := by
  unfold execJump
  apply jump_facts <;> assumption

theorem execCsr_facts (write : Bool) : CombFacts i (e.execCsr i c write) := by
  rcases e.execCsr_result i c write with ⟨v, f, h⟩ | ⟨a, h⟩
  · rw [h]
    exact facts_of_not_stall htype hret hepc hstall
  · rw [h]
    exact facts_of_not_stall htype hret hepc hstall

end

/-- The facts hold for every executed instruction, provided that a DMMU fault
comes with `ack`. -/
theorem execType_facts {e : Exec} {i : ExecIn} {c : ExecComb}
    (hack : i.dmmuRsp.mmuRspFault ≠ 0 → i.dmmuRsp.mmuRspAck = true)
    (hrst : i.rst = false) (hflush : i.idEx.flush = false) (htrap : i.idEx.onTrap = false)
    (hc : c.onTrap = false) (hcflush : c.flush = false) (hstall : c.stall = false)
    (hret : c.csrMret = false ∧ c.csrSret = false) (hepc : c.epc = i.exPc) :
    CombFacts i (e.execType i c) := by
  unfold execType
  dsimp only
  cases ht : i.idEx.type
  case mret =>
    exact ⟨by simp [hstall], .inl hepc, by simp [hc, hrst, hflush, htrap, ht],
      by simp [hret.2, ht]⟩
  case sret =>
    dsimp only
    split
    · exact ⟨by simp [hstall], .inl hepc, by simp [hret.1], by simp [hret.2]⟩
    · exact ⟨by simp [hstall], .inl hepc, by simp [hret.1, ht],
        by simp [hc, hrst, hflush, htrap, ht]⟩
  case ecall =>
    exact ⟨by simp [hstall], .inr ⟨rfl, hflush⟩, by simp [hret.1], by simp [hret.2]⟩
  case wfi =>
    dsimp only
    split
    · exact facts_of_not_stall (by simp [ht]) hret hepc hstall
    · exact .of_no_return (by simp [ht]) hret hepc (fun _ => ⟨hc, hcflush⟩)
  case sfenceVma =>
    dsimp only
    split <;> exact facts_of_not_stall (by simp [ht]) hret hepc hstall
  case jal => exact execJump_facts (by simp [ht]) hret hepc hstall _
  case jalr => exact execJump_facts (by simp [ht]) hret hepc hstall _
  case beq => exact branch_facts (by simp [ht]) hret hepc hstall _
  case bne => exact branch_facts (by simp [ht]) hret hepc hstall _
  case blt => exact branch_facts (by simp [ht]) hret hepc hstall _
  case bge => exact branch_facts (by simp [ht]) hret hepc hstall _
  case bltu => exact branch_facts (by simp [ht]) hret hepc hstall _
  case bgeu => exact branch_facts (by simp [ht]) hret hepc hstall _
  case csrrw => exact execCsr_facts (by simp [ht]) hret hepc hstall _
  case csrrs => exact execCsr_facts (by simp [ht]) hret hepc hstall _
  case csrrc => exact execCsr_facts (by simp [ht]) hret hepc hstall _
  case csrrwi => exact execCsr_facts (by simp [ht]) hret hepc hstall _
  case csrrsi => exact execCsr_facts (by simp [ht]) hret hepc hstall _
  case csrrci => exact execCsr_facts (by simp [ht]) hret hepc hstall _
  -- What is left assigns the result only, or is a request to MEXT or the DMMU,
  -- which stalls without `ack` and traps only with it.
  all_goals first
    | exact facts_of_not_stall (by simp [ht]) hret hepc hstall
    | exact .of_no_return (by simp [ht]) hret hepc (fun _ => ⟨hc, hcflush⟩)
    | exact .of_no_return (by simp [ht]) hret hepc (fun h => ⟨by
        have hnack : i.dmmuRsp.mmuRspAck = false := by simpa using h
        by_contra hne
        have hfault : i.dmmuRsp.mmuRspFault ≠ 0 := by simpa using hne
        simp [hack hfault] at hnack, hcflush⟩)

/-- The record that `exec_comb` hands to the `switch` over instruction types. -/
def executeStart (i : ExecIn) : ExecComb :=
  { epc := i.exPc, npc := i.exPc + (if i.idEx.isCompressed then 2 else 4) }

/-- The five kinds of cycles: reset, interrupt, bubble, trap noted by the decoder,
executed instruction. -/
theorem execComb_cases (e : Exec) (i : ExecIn) :
    (i.rst = true ∧ e.execComb i = { epc := i.exPc, npc := i.entry }) ∨
    (i.rst = false ∧ ∃ cause, e.checkInterrupt i.platform = some cause ∧
      e.execComb i = { epc := i.exPc, npc := i.exPc, cause := cause, onTrap := true }) ∨
    (i.rst = false ∧ i.idEx.flush = true ∧ e.execComb i = { epc := i.exPc, npc := i.exPc }) ∨
    (i.rst = false ∧ i.idEx.flush = false ∧ i.idEx.onTrap = true ∧ e.execComb i =
      { executeStart i with cause := i.idEx.cause, tval := i.idEx.tval, onTrap := true }) ∨
    (i.rst = false ∧ i.idEx.flush = false ∧ i.idEx.onTrap = false ∧
      e.execComb i = e.execType i (executeStart i)) := by
  unfold execComb
  dsimp only
  split
  · exact .inl ⟨‹_›, rfl⟩
  · rename_i hrst
    have hrst : i.rst = false := by simpa using hrst
    split
    · rename_i cause hcause
      have hint : e.checkInterrupt i.platform = some cause := by
        split at hcause
        · exact hcause
        · cases hcause
      exact .inr (.inl ⟨hrst, cause, hint, rfl⟩)
    · split
      · exact .inr (.inr (.inl ⟨hrst, ‹_›, rfl⟩))
      · rename_i hflush
        have hflush : i.idEx.flush = false := by simpa using hflush
        split
        · exact .inr (.inr (.inr (.inl ⟨hrst, hflush, ‹_›, rfl⟩)))
        · rename_i hmark
          exact .inr (.inr (.inr (.inr ⟨hrst, hflush, by simpa using hmark, rfl⟩)))

/-- A cycle without an executed instruction assigns two addresses and the fields of a
trap at most, so whatever else a decision shows is the work of an instruction. -/
theorem executed_of_decision {e : Exec} {i : ExecIn} {P : ExecComb → Prop}
    (hidle : ∀ trap cause tval epc npc,
      ¬ P { onTrap := trap, cause := cause, tval := tval, epc := epc, npc := npc })
    (h : P (e.execComb i)) : i.rst = false ∧ i.idEx.flush = false ∧ i.idEx.onTrap = false ∧
      e.execComb i = e.execType i (executeStart i) := by
  rcases e.execComb_cases i with ⟨-, hcomb⟩ | ⟨-, cause, -, hcomb⟩ | ⟨-, -, hcomb⟩ |
    ⟨-, -, -, hcomb⟩ | hexec
  · rw [hcomb] at h
    exact absurd h (hidle _ _ _ _ _)
  · rw [hcomb] at h
    exact absurd h (hidle _ _ _ _ _)
  · rw [hcomb] at h
    exact absurd h (hidle _ _ _ _ _)
  · rw [hcomb] at h
    exact absurd h (hidle _ _ _ _ _)
  · exact hexec

/-- The facts hold in every cycle. -/
theorem execComb_facts {e : Exec} {i : ExecIn}
    (hack : i.dmmuRsp.mmuRspFault ≠ 0 → i.dmmuRsp.mmuRspAck = true) :
    CombFacts i (e.execComb i) := by
  rcases execComb_cases e i with ⟨hrst, h⟩ | ⟨-, cause, -, h⟩ | ⟨-, hflush, h⟩ | ⟨-, -, -, h⟩ |
    ⟨hrst, hflush, hmark, h⟩
  · rw [h]
    exact ⟨by simp, .inl rfl, by simp [hrst], by simp [hrst]⟩
  · rw [h]
    exact ⟨by simp, .inl rfl, by simp, by simp⟩
  · rw [h]
    exact ⟨by simp, .inl rfl, by simp [hflush], by simp [hflush]⟩
  · rw [h]
    exact ⟨by simp [executeStart], .inl rfl, by simp [executeStart], by simp [executeStart]⟩
  · rw [h]
    exact execType_facts hack hrst hflush hmark rfl rfl rfl ⟨rfl, rfl⟩ rfl

end Turtle.Exec
