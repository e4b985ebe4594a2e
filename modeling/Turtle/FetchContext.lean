import Turtle.BranchTarget
import Turtle.PmpLocks

/-!
# Fetch contexts

Instructions are fetched, translated and checked under the privilege, `satp` and the
PMP registers of the cycle. All of these change at the clock edge of a flush only,
and a flush empties the IMMU, the fetch buffer and `ID_EX` at the same edge. What
EXEC executes was therefore fetched under the context that is in force.
-/

namespace Turtle

/-- The control state that instruction fetches depend on. -/
structure FetchContext where
  priv : BitVec 32
  satp : BitVec 32
  pmp : Pmp

namespace Exec

/-- The context in force. -/
def fetchContext (e : Exec) : FetchContext :=
  { priv := e.priv, satp := e.csrRegs Csr.satp, pmp := e.pmp }

/-- The decision returns from a trap, or accesses `satp` or a PMP register. -/
def Switches (addr : BitVec 12) (c : ExecComb) : Prop :=
  c.csrMret = true ∨ c.csrSret = true ∨
    (c.csrAccess = true ∧ (addr = Csr.satp ∨ isPmpConfig addr = true ∨ isPmpAddr addr = true))

variable {e : Exec} {i : ExecIn} {c : ExecComb} {idEx : IdEx} {v : BitVec 32}

theorem isPmp_range {addr : BitVec 12} (h : isPmpConfig addr = true ∨ isPmpAddr addr = true) :
    928 ≤ addr.toNat ∧ addr.toNat < 1008 := by
  simp only [isPmpConfig, isPmpAddr, Bool.and_eq_true, decide_eq_true_eq, BitVec.le_def,
    BitVec.lt_def] at h
  simp only [Csr.pmpconfig0, Csr.pmpaddr0] at h
  simp at h
  omega

/-- An access to `satp` flushes or traps. -/
theorem readCsr_satp (haddr : i.idEx.csrAddr = Csr.satp)
    (htrap : (e.readCsr i c).onTrap = false) : (e.readCsr i c).flush = true := by
  have hread : e.readCsr i c =
      if privS < e.priv ∨ (e.priv = privS ∧ e.csrRegs Csr.mstatus &&& Mstatus.tvm = 0) then
        { c with exRdVal := e.csrRegs Csr.satp, flush := true }
      else c.raise .illegalInstr i.idEx.inst := by
    unfold readCsr
    dsimp only
    rw [haddr]
    iterate 10 rw [if_neg (by decide)]
    rw [if_pos rfl]
  rw [hread] at htrap ⊢
  split at htrap
  · rw [if_pos ‹_›]
  · cases htrap

/-- An access of M-mode to a PMP register flushes. -/
theorem readCsr_pmp (haddr : isPmpConfig i.idEx.csrAddr = true ∨ isPmpAddr i.idEx.csrAddr = true)
    (hpriv : e.priv = 3) : (e.readCsr i c).flush = true := by
  have hrange := isPmp_range haddr
  have hne (a : BitVec 12) (ha : a.toNat < 928 ∨ 1008 ≤ a.toNat) : i.idEx.csrAddr ≠ a := by
    rintro rfl
    omega
  unfold readCsr
  dsimp only
  iterate 13 rw [if_neg (hne _ (by decide))]
  rcases haddr with haddr | haddr
  · simp [haddr, hpriv]
  · simp [haddr, hpriv]

theorem isPmp_privileged {addr : BitVec 12}
    (h : isPmpConfig addr = true ∨ isPmpAddr addr = true) : (addr >>> 8) &&& 3 = 3 := by
  have hrange := isPmp_range h
  have hshift : addr >>> 8 = 3 := by
    apply BitVec.eq_of_toNat_eq
    rw [BitVec.toNat_ushiftRight, Nat.shiftRight_eq_div_pow]
    change addr.toNat / 256 = 3
    omega
  rw [hshift]
  rfl

/-- A CSR instruction that accesses `satp` or a PMP register flushes, unless it traps. -/
theorem execCsr_flush {write : Bool} (hpriv : e.priv ≤ 3)
    (hret : c.csrMret = false ∧ c.csrSret = false)
    (htrap : (e.execCsr i c write).onTrap = false)
    (h : Switches i.idEx.csrAddr (e.execCsr i c write)) : (e.execCsr i c write).flush = true := by
  unfold execCsr at htrap h ⊢
  dsimp only at htrap h ⊢
  split at htrap
  · rename_i hguard
    rw [if_pos hguard] at h ⊢
    have haddr : i.idEx.csrAddr = Csr.satp ∨ isPmpConfig i.idEx.csrAddr = true ∨
        isPmpAddr i.idEx.csrAddr = true := by
      rcases e.readCsr_result i { c with csrAccess := true } with ⟨v, f, hr⟩ | hr
      · rw [hr] at h
        simpa [Switches, hret] using h
      · rw [hr] at htrap
        cases htrap
    rcases haddr with haddr | haddr
    · exact readCsr_satp haddr htrap
    · have hmachine : (3 : BitVec 32) ≤ e.priv := by
        have hle := hguard.1
        rw [isPmp_privileged haddr] at hle
        exact hle
      exact readCsr_pmp haddr (BitVec.le_antisymm hpriv hmachine)
  · cases htrap

theorem jump_switches {addr : BitVec 12} {target : BitVec 32} :
    Switches addr (c.jump target) ↔ Switches addr c := by
  unfold ExecComb.jump
  dsimp only
  split <;> rfl

theorem branch_switches {addr : BitVec 12} {taken : Bool} :
    Switches addr (c.branch idEx taken) ↔ Switches addr c := by
  cases taken with
  | false => rfl
  | true => exact jump_switches

/-- An executed instruction that switches the context flushes, unless it traps. -/
theorem execType_flush (hpriv : e.priv ≤ 3) (hc : ¬ Switches i.idEx.csrAddr c)
    (hret : c.csrMret = false ∧ c.csrSret = false) (htrap : (e.execType i c).onTrap = false)
    (h : Switches i.idEx.csrAddr (e.execType i c)) : (e.execType i c).flush = true := by
  unfold execType at htrap h ⊢
  dsimp only at htrap h ⊢
  cases htype : i.idEx.type <;> simp only [htype] at htrap h ⊢
  case sret =>
    split at htrap
    · cases htrap
    · rw [if_neg ‹_›]
  case wfi | sfenceVma =>
    split at h <;> exact absurd h hc
  case jal | jalr => exact absurd (jump_switches.mp h) hc
  case beq | bne | blt | bge | bltu | bgeu => exact absurd (branch_switches.mp h) hc
  case csrrw | csrrs | csrrc | csrrwi | csrrsi | csrrci => exact execCsr_flush hpriv hret htrap h
  all_goals exact absurd h hc

/-- A decision that switches the context flushes, unless it traps. -/
theorem execComb_flush (hpriv : e.priv ≤ 3) (htrap : (e.execComb i).onTrap = false)
    (h : Switches i.idEx.csrAddr (e.execComb i)) : (e.execComb i).flush = true := by
  obtain ⟨-, -, -, hcomb⟩ := executed_of_decision (by simp [Switches]) h
  rw [hcomb] at htrap h ⊢
  exact execType_flush hpriv (by simp [Switches, executeStart]) ⟨rfl, rfl⟩ htrap h

/-- A CSR write elsewhere leaves the context alone. -/
theorem csrWrite_fetchContext (hsatp : idEx.csrAddr ≠ Csr.satp)
    (hconfig : isPmpConfig idEx.csrAddr = false) (haddr : isPmpAddr idEx.csrAddr = false) :
    (e.csrWrite idEx v).fetchContext = e.fetchContext := by
  have hwrite {a : BitVec 12} {w : BitVec 32} (ha : Csr.satp ≠ a) :
      (e.write a w).fetchContext = e.fetchContext := by
    simp [fetchContext, ha]
  unfold csrWrite
  dsimp only
  rw [hconfig, haddr, Bool.false_and]
  split_ifs
  all_goals first
    | rfl
    | contradiction
    | exact hwrite (by decide)
    | exact hwrite hsatp.symm

/-- Without a trap and without a switch a clock edge leaves the context alone. -/
theorem execSeq_fetchContext {mtime : BitVec 64} (htrap : c.onTrap = false)
    (h : ¬ Switches idEx.csrAddr c) :
    (e.execSeq idEx c mtime).fetchContext = e.fetchContext := by
  simp only [Switches, not_or, Bool.not_eq_true, not_and] at h
  obtain ⟨hmret, hsret, haccess⟩ := h
  have hcommit : (e.commit idEx c).fetchContext = e.fetchContext := by
    unfold commit
    rw [htrap, hmret, hsret]
    cases hc : c.csrAccess with
    | false => rfl
    | true =>
      obtain ⟨hsatp, hconfig, haddr⟩ := haccess hc
      exact csrWrite_fetchContext hsatp hconfig haddr
  rw [← hcommit]
  simp [fetchContext, execSeq_csrRegs (show ¬ IsTimerCsr Csr.satp by decide)]

end Exec

namespace Immu

/-- The instruction side of the MMU reads nothing else of the control state. -/
theorem imemReqSeq_congr {e e' : Exec} (h : e.fetchContext = e'.fetchContext) (s : Immu)
    (i : ImmuIn) : imemReqSeq e s i = imemReqSeq e' s i := by
  obtain ⟨hpriv, hsatp, hpmp⟩ := FetchContext.mk.inj h
  have hleaf : leafFault e = leafFault e' := by
    funext pte
    unfold leafFault
    rw [hpriv]
  have hfault : pmpFault e = pmpFault e' := by
    funext req isFetch
    unfold pmpFault Exec.pmpIcheck
    rw [hpriv, hpmp]
  have hready : readyStep e s i = readyStep e' s i := by
    unfold readyStep latchPc
    rw [hpriv, hsatp, hleaf]
  have hnext : next e s i = next e' s i := by
    unfold next level1Step level2Step
    rw [hready, hleaf]
  unfold imemReqSeq
  rw [hnext, hfault]

end Immu

/-- The same inputs under another control state. -/
def FrontendIn.under (e : Exec) (i : FrontendIn) : FrontendIn := { i with exec := e }

namespace Frontend

/-- Nothing is in flight: the IMMU is idle, without a fault, a request or an answer to
come, and the fetch buffer is empty and shows nothing. -/
structure Drained (s : Frontend) : Prop where
  idle : s.immu.iState = .idle
  no_pageFault : s.immu.iPageFault = false
  no_pmpFault : s.immu.iPmpFault = false
  no_request : s.immu.immuToMem.imemReqAck = false
  no_answer : s.pending = false
  empty : s.fetch.fifo = {}
  hidden : s.fetch.ifId.ifIdFlush = true

variable {s : Frontend} {i : FrontendIn}

/-- A reset or a flush drains the front end, whatever it was doing. -/
theorem drained_of_flush (h : (i.rst || i.flush) = true) : (step s i).Drained := by
  have hnext : Immu.next i.exec s.immu (s.immuIn i) = Immu.reset s.immu i.tlb := if_pos h
  have hfault : Immu.pmpFault i.exec (Immu.reset s.immu i.tlb).mmu.iMmuMem
      (Immu.reset s.immu i.tlb).isFetch = false := rfl
  have himmu : (step s i).immu = (Immu.imemReqSeq i.exec s.immu (s.immuIn i)).1 := rfl
  have hrequest : (step s i).immu.immuToMem.imemReqAck = false := by
    rw [himmu, Immu.imemReqSeq, hnext, hfault]
    rfl
  have hfifo : (step s i).fetch.fifo = {} := by
    have hupdate : s.fetch.fifoUpdate (s.fetchIn i) = { fifo := {} } := if_pos h
    exact congrArg FifoUpdate.fifo hupdate
  have hhidden : (step s i).fetch.ifId.ifIdFlush = true := by
    change (Fetch.outputs i.rst i.flush _ _).ifIdFlush = true
    unfold Fetch.outputs
    rw [h]
    rfl
  have hanswer : (step s i).pending = false := by
    change ((step s i).immu.immuToMem.imemReqAck ||
      (s.pending && !(i.rst || i.flush || answered (s.memRsp i)))) = false
    rw [hrequest, h]
    simp
  refine ⟨?_, ?_, ?_, hrequest, hanswer, hfifo, hhidden⟩
  all_goals
    rw [himmu, Immu.imemReqSeq, hnext]
    rfl

/-- The front end depends on the control state through the context only. -/
theorem step_under {e : Exec} (h : i.exec.fetchContext = e.fetchContext) :
    step s (i.under e) = step s i := by
  have himmu : Immu.imemReqSeq e s.immu (s.immuIn i) = Immu.imemReqSeq i.exec s.immu (s.immuIn i) :=
    Immu.imemReqSeq_congr h.symm s.immu (s.immuIn i)
  change ({ fetchPc := _, immu := (Immu.imemReqSeq e s.immu (s.immuIn i)).1, fetch := _,
            pending := (Immu.imemReqSeq e s.immu (s.immuIn i)).1.immuToMem.imemReqAck || _ } :
    Frontend) = _
  rw [himmu]
  rfl

/-- A run whose cycles all have the context of `e` is a run under `e`. -/
theorem run_under {e : Exec} {is : List FrontendIn}
    (h : ∀ i ∈ is, i.exec.fetchContext = e.fetchContext) :
    Clocked.run step s (is.map (FrontendIn.under e)) = Clocked.run step s is := by
  induction is generalizing s with
  | nil => rfl
  | cons i is ih =>
    rw [List.map_cons, Clocked.run_cons, Clocked.run_cons, step_under (h i List.mem_cons_self)]
    exact ih fun j hj => h j (List.mem_cons_of_mem i hj)

end Frontend

namespace Core

variable {entry : BitVec 32} {s : Core} {i : CoreIn}

/-- The cycle traps, returns from a trap, or accesses `satp` or a PMP register. -/
def SwitchesContext (entry : BitVec 32) (s : Core) (i : CoreIn) : Prop :=
  (s.comb entry i).onTrap = true ∨ Exec.Switches s.idEx.csrAddr (s.comb entry i)

theorem SwitchesContext.flush (h : SwitchesContext entry s i) (hpriv : s.exec.priv ≤ 3) :
    (s.out entry i).flush = true := by
  change ((s.comb entry i).onTrap || (s.comb entry i).flush) = true
  cases htrap : (s.comb entry i).onTrap with
  | true => rfl
  | false =>
    rcases h with h | h
    · rw [htrap] at h
      cases h
    · exact Exec.execComb_flush hpriv htrap h

/-- Only such a cycle changes the context. -/
theorem fetchContext_step (h : ¬ SwitchesContext entry s i) :
    (step entry s i).exec.fetchContext = s.exec.fetchContext := by
  simp only [SwitchesContext, not_or, Bool.not_eq_true] at h
  exact Exec.execSeq_fetchContext h.1 h.2

/-- A flush leaves a bubble in `ID_EX`. -/
theorem idEx_of_flush (h : (s.out entry i).flush = true) : (step entry s i).idEx = bubble := by
  have hstall : (s.comb entry i).stall = false := by
    by_contra hne
    have hquiet : (s.comb entry i).onTrap = false ∧ (s.comb entry i).flush = false ∧ _ :=
      comb_facts.stall_quiet (by simpa using hne)
    change ((s.comb entry i).onTrap || (s.comb entry i).flush) = true at h
    rw [hquiet.1, hquiet.2.1] at h
    cases h
  change instDecodeSeq i.rst (s.comb entry i).stall (s.out entry i).flush _ _ _ _ = bubble
  simp [instDecodeSeq, hstall, h]

/-- The edge keeps `ID_EX`, leaves a bubble in it, or latches what the fetch buffer
shows. -/
theorem idEx_step_cases (s : Core) (i : CoreIn) :
    (step entry s i).idEx = s.idEx ∨ (step entry s i).idEx.flush = true ∨
      (i.ifId.ifIdFlush = false ∧ (step entry s i).idEx = latch (s.forward entry i) i.ifId) := by
  change instDecodeSeq _ _ _ _ _ _ _ = _ ∨ (instDecodeSeq _ _ _ _ _ _ _).flush = _ ∨
    (_ ∧ instDecodeSeq _ _ _ _ _ _ _ = _)
  unfold instDecodeSeq
  split_ifs with hstall hsquash hempty
  · exact .inl rfl
  · exact .inr (.inl rfl)
  · exact .inr (.inl rfl)
  · exact .inr (.inr ⟨by simpa using hempty, rfl⟩)

end Core

namespace Cpu

variable {entry : BitVec 32} {s : Cpu} {i : CpuIn}

/-- Nothing is in flight between memory and EXEC. -/
structure Drained (s : Cpu) : Prop where
  front : s.front.Drained
  decode : s.core.idEx = bubble

/-- The context in force in every cycle of a run. -/
def contexts (entry : BitVec 32) : Cpu → List CpuIn → List FetchContext :=
  Clocked.trace (step entry) fun s _ => s.core.exec.fetchContext

theorem drained_of_rst (h : i.core.rst = true) : (step entry s i).Drained where
  front := Frontend.drained_of_flush (by
    change (i.core.rst || _) = true
    rw [h, Bool.true_or])
  decode := Core.idEx_of_rst entry s.core h

theorem drained_of_flush (h : (s.core.out entry (s.coreIn i)).flush = true) :
    (step entry s i).Drained where
  front := Frontend.drained_of_flush (by
    change (_ || (s.core.out entry (s.coreIn i)).flush) = true
    rw [h, Bool.or_true])
  decode := Core.idEx_of_flush h

/-- A cycle that switches the context drains the processor. -/
theorem Reachable.drained_of_switch (h : Reachable entry s)
    (hi : s.core.SwitchesContext entry (s.coreIn i)) : (step entry s i).Drained :=
  drained_of_flush (hi.flush h.core.priv_le)

/-- What a run from a drained state left in `ID_EX` was latched along that run. -/
theorem latched_of_drained {s₀ : Cpu} (hs₀ : s₀.Drained) (is : List CpuIn)
    (h : (Clocked.run (step entry) s₀ is).core.idEx.flush = false) :
    ∃ js k ks, is = js ++ k :: ks ∧
      let t := Clocked.run (step entry) s₀ js
      t.front.fetch.ifId.ifIdFlush = false ∧ (Clocked.run (step entry) s₀ is).core.idEx =
        latch (t.core.forward entry (t.coreIn k)) t.front.fetch.ifId :=
  Clocked.exists_write (fun t : Cpu => t.core.idEx) (fun d => d.flush = true)
    (fun t k d => t.front.fetch.ifId.ifIdFlush = false ∧
      d = latch (t.core.forward entry (t.coreIn k)) t.front.fetch.ifId)
    (fun t k => Core.idEx_step_cases t.core (t.coreIn k)) (by rw [hs₀.decode]; rfl) is
    (by simp [h])

/-- The front end at the end of a run of one context is the one of a run under it. -/
theorem front_under {e : Exec} {s₀ : Cpu} {is : List CpuIn}
    (h : ∀ c ∈ contexts entry s₀ is, c = e.fetchContext) :
    (Clocked.run (step entry) s₀ is).front =
      Clocked.run Frontend.step s₀.front ((frontIns entry s₀ is).map (FrontendIn.under e)) := by
  rw [front_run, Frontend.run_under]
  have hmap : (frontIns entry s₀ is).map (fun i => i.exec.fetchContext) = contexts entry s₀ is :=
    Clocked.map_trace _ _ s₀ is
  intro i hi
  apply h
  rw [← hmap]
  exact List.mem_map_of_mem hi

/-- Everything between memory and EXEC was fetched, translated and checked under the
context in force. There was a moment with nothing in flight, and the context has been
the same since then: the front end is the one that cycles under the present control
state lead to from there, and the instruction in `ID_EX` was latched from it. -/
def FetchedInContext (entry : BitVec 32) (s : Cpu) : Prop :=
  ∃ s₀ is, Reachable entry s₀ ∧ s₀.Drained ∧ s = Clocked.run (step entry) s₀ is ∧
    (∀ c ∈ contexts entry s₀ is, c = s.core.exec.fetchContext) ∧
    s.front = Clocked.run Frontend.step s₀.front
      ((frontIns entry s₀ is).map (FrontendIn.under s.core.exec)) ∧
    (s.core.idEx.flush = false → ∃ js k ks, is = js ++ k :: ks ∧
      let t := Clocked.run (step entry) s₀ js
      t.front.fetch.ifId.ifIdFlush = false ∧
      s.core.idEx = latch (t.core.forward entry (t.coreIn k)) t.front.fetch.ifId ∧
      t.front = Clocked.run Frontend.step s₀.front
        ((frontIns entry s₀ js).map (FrontendIn.under s.core.exec)))

/-- Every reachable state ends a run of one context that began with nothing in flight. -/
theorem Reachable.since_drained (h : Reachable entry s) :
    ∃ s₀ is, Reachable entry s₀ ∧ s₀.Drained ∧ s = Clocked.run (step entry) s₀ is ∧
      ∀ c ∈ contexts entry s₀ is, c = s.core.exec.fetchContext := by
  refine Clocked.Reachable.since ?_ ?_ h
  · rintro s ⟨front, i, -, hrst, rfl⟩
    exact drained_of_rst hrst
  · intro s i hs
    by_cases hi : s.core.SwitchesContext entry (s.coreIn i)
    · exact .inr (Reachable.drained_of_switch hs hi)
    · exact .inl (Core.fetchContext_step hi)

/-- Fetch context isolation. In every run, what waits in the IMMU, the fetch buffer and
`ID_EX`, and so whatever EXEC executes, was fetched, translated and checked under the
privilege, `satp` and the PMP registers that are in force; and a trap, a trap return and
an access to `satp` or a PMP register leave nothing in any of them. -/
theorem fetch_context_isolated (entry : BitVec 32) (s : Cpu) (h : Reachable entry s) :
    FetchedInContext entry s ∧
      ∀ i, s.core.SwitchesContext entry (s.coreIn i) → (step entry s i).Drained := by
  obtain ⟨s₀, is, hs₀, hdrained, hrun, hsame⟩ := h.since_drained
  refine ⟨⟨s₀, is, hs₀, hdrained, hrun, hsame, ?_, ?_⟩, fun i => h.drained_of_switch⟩
  · conv_lhs => rw [hrun]
    exact front_under hsame
  · intro hexec
    rw [hrun] at hexec
    obtain ⟨js, k, ks, rfl, hshown, hlatch⟩ := latched_of_drained hdrained is hexec
    rw [← hrun] at hlatch
    refine ⟨js, k, ks, rfl, hshown, hlatch, front_under ?_⟩
    intro c hc
    apply hsame
    rw [contexts, Clocked.trace_append]
    exact List.mem_append_left _ hc

/-- The processor on a memory of `MRET` instructions, `n` cycles after its reset. -/
def mretState (n : ℕ) : Cpu :=
  let s := step 0x80000000 {} { core := { rst := true, rstComb := true } }
  Clocked.run (step 0x80000000) s (ramRun 0x80000000 (fun _ => 0x30200073) n s)

/-- The first of them executes in its own context and leaves the processor drained. -/
theorem mret_fetched_in_context :
    (mretState 4).core.idEx.flush = false ∧ (mretState 4).core.idEx.type = .mret ∧
      FetchedInContext 0x80000000 (mretState 4) ∧
      (step 0x80000000 (mretState 4) {}).Drained := by
  have hreach : Reachable 0x80000000 (mretState 4) :=
    Clocked.Reachable.run (.start ⟨{}, _, ⟨rfl, rfl⟩, rfl, rfl⟩) _
  obtain ⟨hfetched, hdrains⟩ := fetch_context_isolated 0x80000000 _ hreach
  exact ⟨by decide, by decide, hfetched,
    hdrains {} (.inr (.inl (by decide)))⟩

end Cpu

end Turtle
