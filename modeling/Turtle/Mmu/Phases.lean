import Turtle.Mmu.Data

/-!
# The phases of a data request

A request is checked and sent in the cycle in which it arrives or in which its walk
ends. Between two edges the data side is quiet, waits for a page-table entry or for
the access, or has raised a fault.
-/

namespace Turtle

namespace Dmmu

/-- One of the three fault flags is up. -/
def Faulty (s : Dmmu) : Prop :=
  s.dPageFault = true ∨ s.dPmpFault = true ∨ s.dMisalignedFault = true

variable {s : Dmmu} {rsp : MemOut} {req : DmemIn}

/-- A fault is reported with the address that EXEC shows. -/
theorem dmemRspComb_tval (h : (s.dmemRspComb rsp req).mmuRspFault ≠ 0) :
    (s.dmemRspComb rsp req).mmuRspTval = req.dmemAddr := by
  unfold dmemRspComb at h ⊢
  dsimp only at h ⊢
  generalize (if s.dMisalignedFault = true then _ else _ : MmuRsp) = r at h ⊢
  by_cases hr : r.mmuRspFault ≠ 0
  · rw [if_pos hr]
  · rw [if_neg hr] at h
    exact absurd h hr

theorem dmemRspComb_ack : (s.dmemRspComb rsp req).mmuRspAck =
    ((s.dState == .access && rsp.memRspAck) || s.dPageFault || s.dPmpFault ||
      s.dMisalignedFault || rsp.memRspFault != 0) := by
  unfold dmemRspComb
  dsimp only
  split_ifs <;> rfl

theorem dmemRspComb_fault_eq : (s.dmemRspComb rsp req).mmuRspFault =
    if s.dMisalignedFault then (if s.dOp = 1 then ExceptionCause.loadAddrMisaligned.code
      else ExceptionCause.storeAddrMisaligned.code).setWidth 8
    else if s.dPageFault then (if s.dOp = 1 then ExceptionCause.loadPageFault.code
      else ExceptionCause.storePageFault.code).setWidth 8
    else if rsp.memRspFault = 0 ∧ s.dPmpFault = false then 0
    else (if s.dOp = 1 then ExceptionCause.loadAccessFault.code
      else ExceptionCause.storeAccessFault.code).setWidth 8 := by
  unfold dmemRspComb
  dsimp only
  split_ifs <;> rfl

/-- EXEC sees a fault code exactly if a check failed or memory reports a fault. -/
theorem dmemRspComb_fault_iff : (s.dmemRspComb rsp req).mmuRspFault ≠ 0 ↔
    s.Faulty ∨ rsp.memRspFault ≠ 0 := by
  rw [dmemRspComb_fault_eq]
  unfold Faulty
  split_ifs with hmis hop hpage hop hok hop
  · simpa [hmis] using by decide
  · simpa [hmis] using by decide
  · simpa [hpage] using by decide
  · simpa [hpage] using by decide
  · simp [hmis, hpage, hok.1, hok.2]
  · refine iff_of_true (by decide) ?_
    by_contra hnone
    simp only [not_or, not_not, Bool.not_eq_true] at hnone
    exact hok ⟨hnone.2, hnone.1.2.1⟩
  · refine iff_of_true (by decide) ?_
    by_contra hnone
    simp only [not_or, not_not, Bool.not_eq_true] at hnone
    exact hok ⟨hnone.2, hnone.1.2.1⟩

/-- A fault in the answer to EXEC comes with `ack`. -/
theorem dmemRspComb_fault_ack (h : (s.dmemRspComb rsp req).mmuRspFault ≠ 0) :
    (s.dmemRspComb rsp req).mmuRspAck = true := by
  rw [dmemRspComb_ack]
  rcases dmemRspComb_fault_iff.mp h with (hpage | hpmp | hmis) | hrsp
  · simp [hpage]
  · simp [hpmp]
  · simp [hmis]
  · rw [bne_iff_ne.mpr hrsp, Bool.or_true]

theorem dmemRspComb_rdata (h : ¬ s.Faulty) :
    (s.dmemRspComb rsp req).mmuRspRdata = rsp.memRspRdata := by
  simp only [Faulty, not_or, Bool.not_eq_true] at h
  unfold dmemRspComb
  simp only [h.1, h.2.2, Bool.false_eq_true, if_false]
  split_ifs <;> rfl

/-! ### One edge of the data side -/

/-- Nothing is under way. -/
structure Quiet (s : Dmmu) : Prop where
  dState_eq : s.dState = .idle
  no_fault : ¬ s.Faulty
  no_request : s.dmmuToMem.dmemReqAck = false

/-- A request of EXEC failed a check, and nothing went out. -/
structure Failed (s : Dmmu) : Prop where
  fault : s.Faulty
  no_request : s.dmmuToMem = {}

/-- The load of a page-table entry is under way. -/
structure Loads (level : WalkState) (s : Dmmu) : Prop where
  dState_eq : s.dState = level
  no_fault : ¬ s.Faulty
  request : ∃ addr, s.dmmuToMem = pteLoad addr

/-- The access itself is under way. -/
structure Accesses (req : DmemIn) (s : Dmmu) : Prop where
  dState_eq : s.dState = .access
  no_fault : ¬ s.Faulty
  request : ∃ addr, s.dmmuToMem = forwardTo req addr

variable {e : Exec} {i : DmmuIn}

/-- Without a request there is nothing to check. -/
theorem dmemReqSeq_of_no_request (hpage : (next e s i).pageFault = false)
    (hack : (next e s i).mmu.dMmuMem.dmemReqAck = false) :
    ¬ (dmemReqSeq e s i).1.Faulty ∧
      (dmemReqSeq e s i).1.dmmuToMem = (next e s i).mmu.dMmuMem := by
  simp [Faulty, dmemReqSeq, misaligned, pmpFault, hpage, hack]

/-- A request goes out, or a check fails. -/
theorem dmemReqSeq_gate : (dmemReqSeq e s i).1.Failed ∨
    (¬ (dmemReqSeq e s i).1.Faulty ∧
      (dmemReqSeq e s i).1.dmmuToMem = (next e s i).mmu.dMmuMem) := by
  by_cases hfault : (pmpFault e (next e s i).mmu.dMmuMem || (next e s i).pageFault ||
      misaligned (next e s i).mmu.dMmuMem) = true
  · refine .inl ⟨?_, ?_⟩
    · simp only [Bool.or_eq_true] at hfault
      rcases hfault with (hpmp | hpage) | hmis
      · exact .inr (.inl hpmp)
      · exact .inl hpage
      · exact .inr (.inr hmis)
    · simp [dmemReqSeq, hfault]
  · refine .inr ⟨?_, ?_⟩
    · simp only [Bool.or_eq_true, not_or] at hfault
      rintro (hpage | hpmp | hmis)
      · exact hfault.1.2 hpage
      · exact hfault.1.1 hpmp
      · exact hfault.2 hmis
    · simp [dmemReqSeq, hfault]

/-- The kinds of results of the first part, for a request that came in. -/
inductive Outcome (req : DmemIn) (levels : List WalkState) (n : Next) : Prop
  | fault : n.pageFault = true → Outcome req levels n
  | load {level : WalkState} (addr : BitVec 32) : level ∈ levels → n.mmu.dState = level →
      n.mmu.dMmuMem = pteLoad addr → Outcome req levels n
  | access (addr : BitVec 32) : n.mmu.dState = .access → n.mmu.dMmuMem = forwardTo req addr →
      Outcome req levels n

theorem idleStep_outcome (h : i.req.dmemReqAck = true) :
    Outcome i.req [.level1] (idleStep e s i) := by
  unfold idleStep
  dsimp only
  rw [if_pos h]
  split
  · split
    · split
      · exact .fault rfl
      · split
        · exact .access _ rfl rfl
        · exact .access _ rfl rfl
    · exact .load _ List.mem_cons_self rfl rfl
  · exact .access _ rfl rfl

theorem level1Step_outcome : Outcome i.req [.level2] (level1Step e s i) := by
  unfold level1Step
  dsimp only
  split
  · exact .fault rfl
  · split
    · exact .access _ rfl rfl
    · exact .load _ List.mem_cons_self rfl rfl

theorem level2Step_outcome : Outcome i.req [] (level2Step e s i) := by
  unfold level2Step
  dsimp only
  split
  · exact .fault rfl
  · exact .access _ rfl rfl

/-- An outcome after the checks. -/
theorem Outcome.gated {req : DmemIn} {levels : List WalkState}
    (h : Outcome req levels (next e s i)) :
    (dmemReqSeq e s i).1.Failed ∨ (∃ level ∈ levels, (dmemReqSeq e s i).1.Loads level) ∨
      (dmemReqSeq e s i).1.Accesses req := by
  rcases dmemReqSeq_gate (e := e) (s := s) (i := i) with hfailed | ⟨hnone, hsent⟩
  · exact .inl hfailed
  · cases h with
    | fault hpage => exact absurd (.inl hpage) hnone
    | load addr hlevel hstate hmem =>
      exact .inr (.inl ⟨_, hlevel, hstate, hnone, addr, hsent.trans hmem⟩)
    | access addr hstate hmem => exact .inr (.inr ⟨hstate, hnone, addr, hsent.trans hmem⟩)

/-- Reset, a flush, an idle cycle and the end of an access leave the data side
quiet. -/
theorem dmemReqSeq_quiet (h : i.rst = true ∨ i.flush = true ∨
    (s.dState = .idle ∧ i.req.dmemReqAck = false) ∨
    (s.dState = .access ∧ i.rsp.memRspAck = true)) : (dmemReqSeq e s i).1.Quiet := by
  have hnext : (next e s i).pageFault = false ∧ (next e s i).mmu.dState = .idle ∧
      (next e s i).mmu.dMmuMem.dmemReqAck = false := by
    unfold next
    by_cases hreset : (i.rst || i.flush) = true
    · rw [if_pos hreset]
      exact ⟨rfl, rfl, rfl⟩
    · rw [if_neg hreset]
      simp only [Bool.or_eq_true, not_or, Bool.not_eq_true] at hreset
      rcases h with h | h | ⟨hidle, hack⟩ | ⟨hstate, hrsp⟩
      · simp [hreset.1] at h
      · simp [hreset.2] at h
      · rw [if_pos hidle, idleStep, if_neg (by simp [hack])]
        exact ⟨rfl, rfl, rfl⟩
      · rw [if_neg (by simp [hstate]), if_pos hrsp, if_neg (by simp [hstate]),
          if_neg (by simp [hstate])]
        exact ⟨rfl, rfl, rfl⟩
  obtain ⟨hpage, hstate, hack⟩ := hnext
  obtain ⟨hnone, hsent⟩ := dmemReqSeq_of_no_request hpage hack
  exact ⟨hstate, hnone, by rw [hsent, hack]⟩

section Active

variable (hrst : i.rst = false) (hflush : i.flush = false)

include hrst hflush

/-- A request arrives. -/
theorem dmemReqSeq_request (hidle : s.dState = .idle) (hack : i.req.dmemReqAck = true) :
    (dmemReqSeq e s i).1.Failed ∨ (dmemReqSeq e s i).1.Loads .level1 ∨
      (dmemReqSeq e s i).1.Accesses i.req := by
  have hnext : next e s i = idleStep e s i :=
    next_of_idle (Bool.or_eq_false_iff.mpr ⟨hrst, hflush⟩) hidle
  have h := idleStep_outcome (e := e) (s := s) hack
  rw [← hnext] at h
  simpa using h.gated

/-- The level-1 entry arrives. -/
theorem dmemReqSeq_level1 (hstate : s.dState = .level1) (hack : i.rsp.memRspAck = true) :
    (dmemReqSeq e s i).1.Failed ∨ (dmemReqSeq e s i).1.Loads .level2 ∨
      (dmemReqSeq e s i).1.Accesses i.req := by
  have hnext : next e s i = level1Step e s i :=
    next_of_level1 (Bool.or_eq_false_iff.mpr ⟨hrst, hflush⟩) hstate hack
  have h := level1Step_outcome (e := e) (s := s) (i := i)
  rw [← hnext] at h
  simpa using h.gated

/-- The level-2 entry arrives. -/
theorem dmemReqSeq_level2 (hstate : s.dState = .level2) (hack : i.rsp.memRspAck = true) :
    (dmemReqSeq e s i).1.Failed ∨ (dmemReqSeq e s i).1.Accesses i.req := by
  have hnext : next e s i = level2Step e s i :=
    next_of_level2 (Bool.or_eq_false_iff.mpr ⟨hrst, hflush⟩) hstate hack
  have h := level2Step_outcome (e := e) (s := s) (i := i)
  rw [← hnext] at h
  simpa using h.gated

end Active

end Dmmu

end Turtle
