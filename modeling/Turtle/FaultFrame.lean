import Turtle.ExactlyOnce

/-!
# A faulting access leaves memory as it was

Faults come from the checks of the DMMU, before anything goes out, from the walk, and
from memory itself in the phase before `update_memory` runs. Whichever it is, the
commit process has nothing to carry out between the request and the answer, nor at
the edge after it. What the walk reads is not visible in the RAM.
-/

namespace Turtle

namespace Memory

variable {δ α : Type} {devices : List (Device δ)} {m : Memory δ} {f : δ → α}

/-- A fetch changes nothing that an access to the RAM can see. -/
theorem instFetch_sameView (h : m.ram.WellFormed) (iin : ImemIn) :
    m.ram.SameView (m.instFetch iin).2.ram := by
  unfold instFetch
  split_ifs
  · exact h.fetch_sameView _
  · exact h.sameView
  · exact h.sameView

/-- What no device changes by being read. -/
def ReadOnly (devices : List (Device δ)) (f : δ → α) : Prop :=
  ∀ dev ∈ devices, ∀ (m : Memory δ) (addr : BitVec 32), f (dev.read m addr).2.dev = f m.dev

theorem loadByte_readOnly (hf : ReadOnly devices f) (v addr : BitVec 32) :
    f (loadByte devices (v, m) addr).2.dev = f m.dev := by
  unfold loadByte
  generalize v <<< 8 = v
  induction devices generalizing m v with
  | nil => rfl
  | cons dev devs ih =>
    have hrest : ReadOnly devs f := fun d hd => hf d (List.mem_cons_of_mem _ hd)
    rw [List.foldl_cons]
    split_ifs
    · exact (ih hrest _).trans (hf dev List.mem_cons_self m addr)
    · exact ih hrest v

theorem load_readOnly (hf : ReadOnly devices f) (addr v : BitVec 32) (is : List (BitVec 32)) :
    f (is.foldl (fun acc i => loadByte devices acc (addr + i)) (v, m)).2.dev = f m.dev := by
  induction is generalizing m v with
  | nil => rfl
  | cons i is ih =>
    rw [List.foldl_cons]
    exact (ih _).trans (loadByte_readOnly hf v _)

theorem readRam_dev (addr : BitVec 32) (size : BitVec 8) : (m.readRam addr size).2.dev = m.dev := by
  unfold readRam
  generalize (0 : BitVec 32) = v
  induction downFrom size generalizing m v with
  | nil => rfl
  | cons i is ih =>
    rw [List.foldl_cons]
    exact ih (m := { m with ram := (m.ram.read (addr + i)).2 }) _

/-- Answering a request reads the devices and does nothing else to them. -/
theorem memAccess_readOnly (hf : ReadOnly devices f) (din : DmemIn) :
    f (memAccess devices m din).2.dev = f m.dev := by
  unfold memAccess
  split_ifs
  · rfl
  · rfl
  · exact congrArg f (readRam_dev _ _)
  · exact load_readOnly hf _ 0 _
  · rfl
  · rfl
  · rfl

end Memory

namespace DataPath

variable {δ α : Type} {devices : List (Device δ)} {entry : BitVec 32} {s : DataPath δ}
  {f : δ → α}

/-- A cycle in which `update_memory` has nothing to carry out is not visible in the RAM,
and writes no device. -/
theorem step_of_no_commit {j : DataIn δ} (hcommit : ¬ s.Commits) (hwf : s.memory.ram.WellFormed)
    (hf : Memory.ReadOnly devices f) (henv : ∀ d, f (j.env d) = f d) :
    s.memory.ram.SameView (step devices entry s j).memory.ram ∧
      f (step devices entry s j).memory.dev = f s.memory.dev := by
  unfold step
  dsimp only
  rw [Memory.updateMemory_of_not_applies hcommit]
  have hfetch := Memory.instFetch_sameView (m := { s.memory with dev := j.env s.memory.dev }) hwf
    j.iin
  have hdev : f (Memory.instFetch { s.memory with dev := j.env s.memory.dev } j.iin).2.dev =
      f s.memory.dev := by
    refine Eq.trans (congrArg f ?_) (henv s.memory.dev)
    unfold Memory.instFetch
    split_ifs <;> rfl
  split
  · exact ⟨hfetch, hdev⟩
  · exact ⟨hfetch.trans (Memory.memAccess_sameView hfetch.wellFormed),
      (Memory.memAccess_readOnly hf _).trans hdev⟩

/-- A stretch of cycles without a commit. -/
theorem after_of_no_commit {i : ℕ → DataIn δ} {n : ℕ}
    (hcommit : ∀ k ≤ n, ¬ (after devices entry s i k).Commits) (hwf : s.memory.ram.WellFormed)
    (hf : Memory.ReadOnly devices f) (henv : ∀ k ≤ n, ∀ d, f ((i k).env d) = f d) {k : ℕ}
    (hk : k ≤ n + 1) :
    s.memory.ram.SameView (after devices entry s i k).memory.ram ∧
      f (after devices entry s i k).memory.dev = f s.memory.dev := by
  induction k with
  | zero => exact ⟨hwf.sameView, rfl⟩
  | succ k ih =>
    obtain ⟨hview, hdev⟩ := ih (by omega)
    obtain ⟨hview', hdev'⟩ :
        (after devices entry s i k).memory.ram.SameView
          (after devices entry s i (k + 1)).memory.ram ∧
        f (after devices entry s i (k + 1)).memory.dev = f (after devices entry s i k).memory.dev :=
      step_of_no_commit (hcommit k (by omega)) hview.wellFormed hf (henv k (by omega))
    exact ⟨hview.trans hview', hdev'.trans hdev⟩

/-- EXEC makes a request in cycle 0, and the DMMU answers it with a fault in cycle `n`. -/
structure FaultsAt (devices : List (Device δ)) (entry : BitVec 32) (s : DataPath δ)
    (i : ℕ → DataIn δ) (n : ℕ) : Prop where
  request : (s.out entry (i 0)).exToDmmu.dmemReqAck = true
  running : ∀ k < n, (i k).rst = false
  waiting : ∀ k < n, (after devices entry s i k).dmmuRsp.mmuRspAck = false
  answer : (after devices entry s i n).dmmuRsp.mmuRspFault ≠ 0

/-- The request `req` of the instruction `idEx` is on its way, and EXEC still shows it. -/
structure UnderWay (devices : List (Device δ)) (idEx : IdEx) (s : DataPath δ) : Prop where
  answered : s.Answered devices
  busy : s.Busy
  idEx_eq : s.core.idEx = idEx
  shown : s.exToDmmu.dmemAddr = idEx.request.dmemAddr

/-- A waiting cycle keeps the request on its way. -/
theorem UnderWay.step {idEx : IdEx} {j : DataIn δ} (h : UnderWay devices idEx s)
    (hrst : j.rst = false) (hwait : s.dmmuRsp.mmuRspAck = false) :
    UnderWay devices idEx (step devices entry s j) := by
  have hloads : ∃ level, s.dmmu.Loads level ∧ (level = .level1 ∨ level = .level2) := by
    rcases h.busy.phase with hfailed | hloads | hloads | haccess
    · cases hwait.symm.trans (rsp_of_failed hfailed).1
    · exact ⟨_, hloads, .inl rfl⟩
    · exact ⟨_, hloads, .inr rfl⟩
    · cases hwait.symm.trans (rsp_of_accesses h.answered haccess).2.1
  obtain ⟨level, hloads, hlevel⟩ := hloads
  obtain ⟨hstall, hbusy, -⟩ := h.busy.walk entry h.answered hrst hloads hlevel
  have hkeep : (DataPath.step devices entry s j).core.idEx = s.core.idEx :=
    Core.idEx_of_stall hstall
  refine ⟨h.answered.step, hbusy, hkeep.trans h.idEx_eq, ?_⟩
  change (s.out entry j).exToDmmu.dmemAddr = _
  rw [out, Core.exToDmmu_eq (rstComb_of_running h.busy.running hrst), h.idEx_eq]

/-- A request that is under way commits nothing before it is answered, nor when it is
answered with a fault. -/
theorem UnderWay.no_commit {idEx : IdEx} (h : UnderWay devices idEx s)
    (hrsp : s.dmmuRsp.mmuRspAck = false ∨ s.dmmuRsp.mmuRspFault ≠ 0) : ¬ s.Commits := by
  intro hcommit
  have hload {level : WalkState} (hloads : s.dmmu.Loads level) : False := by
    obtain ⟨addr, hreq⟩ := hloads.request
    have hkind := hcommit.2.2
    rw [hreq] at hkind
    exact absurd hkind (by simp [Dmmu.pteLoad])
  rcases h.busy.phase with hfailed | hloads | hloads | haccess
  · exact no_commit_of_no_request h.answered (by rw [hfailed.no_request]) hcommit
  · exact hload hloads
  · exact hload hloads
  · obtain ⟨-, hack, hfault, -⟩ := rsp_of_accesses h.answered haccess
    rcases hrsp with hwait | hfaulty
    · cases hwait.symm.trans hack
    · exact hfault.mp hfaulty hcommit.2.1

section

variable {i : ℕ → DataIn δ} {n : ℕ}

/-- The request is taken in cycle 0, out of an idle data path. -/
theorem FaultsAt.first (h : FaultsAt devices entry s i n) (hs : s.Inv devices) :
    s.Idle ∧ 0 < n ∧ (i 0).rst = false ∧ s.rstComb (i 0) = false ∧ s.core.idEx.IsAccess ∧
      s.core.takesInterrupt (s.coreIn (i 0)) = false := by
  have hreq : (s.core.comb entry (s.coreIn (i 0))).dmemReqAck = true := h.request
  obtain ⟨hrst, -, -, hexec⟩ :=
    Exec.executed_of_decision (P := fun c => c.dmemReqAck = true) (by simp) hreq
  have hrst : s.rstComb (i 0) = false := hrst
  have hacc : s.core.idEx.IsAccess := Core.isAccess_of_dmemReqAck hreq
  have hint : s.core.takesInterrupt (s.coreIn (i 0)) = false := by
    by_contra htakes
    obtain ⟨cause, -, hc⟩ :=
      Core.comb_of_interrupt (i := s.coreIn (i 0)) hrst (Bool.eq_true_of_not_eq_false htakes)
    rw [hc] at hreq
    cases hreq
  have hidle : s.Idle := by
    refine hs.phase.resolve_right fun hb => ?_
    rw [Core.comb_of_access entry hrst hint hacc, hb.waits] at hreq
    cases hreq
  have hn : 0 < n := by
    by_contra hzero
    have hanswer := h.answer
    rw [Nat.eq_zero_of_not_pos hzero] at hanswer
    exact hanswer (rsp_of_quiet hs.answered hidle.quiet).2
  exact ⟨hidle, hn, h.running 0 hn, hrst, hacc, hint⟩

/-- From the second cycle to the answer the request is under way. -/
theorem FaultsAt.underWay (h : FaultsAt devices entry s i n) (hs : s.Inv devices) {k : ℕ}
    (hk : k + 1 ≤ n) : UnderWay devices s.core.idEx (after devices entry s i (k + 1)) := by
  induction k with
  | zero =>
    obtain ⟨hidle, -, hrst, hcomb, hacc, hint⟩ := h.first hs
    obtain ⟨hstall, -, hbusy⟩ := hidle.request hs.answered hacc hrst hcomb hint
    refine ⟨hs.answered.step, hbusy, Core.idEx_of_stall hstall, ?_⟩
    change (s.out entry (i 0)).exToDmmu.dmemAddr = _
    rw [out, Core.exToDmmu_eq hcomb]
  | succ k ih => exact (ih (by omega)).step (h.running _ (by omega)) (h.waiting _ (by omega))

/-- Between a request and its fault `update_memory` carries nothing out. -/
theorem FaultsAt.no_commit (h : FaultsAt devices entry s i n) (hs : s.Inv devices) {k : ℕ}
    (hk : k ≤ n) : ¬ (after devices entry s i k).Commits := by
  cases k with
  | zero => exact no_commit_of_no_request hs.answered (h.first hs).1.quiet.no_request
  | succ k =>
    refine (h.underWay hs hk).no_commit ?_
    rcases Nat.lt_or_eq_of_le hk with hlt | heq
    · exact .inl (h.waiting _ hlt)
    · exact .inr (heq ▸ h.answer)

end

/-- A faulting data access leaves memory as it was. From the request to the answer, and
over the edge after it, at which the commit process could still act: every byte and
every reservation bit of the RAM stays, and so does whatever the peripherals change
neither by themselves nor by being read, such as a log of their writes. The reported
address is the one of the request. -/
theorem fault_leaves_memory (devices : List (Device δ)) (entry : BitVec 32) (s : DataPath δ)
    (i : ℕ → DataIn δ) (n : ℕ) (hs : s.Inv devices) (hwf : s.memory.ram.WellFormed)
    (h : FaultsAt devices entry s i n) :
    (∀ k ≤ n + 1, (after devices entry s i k).memory.ram.byteAt = s.memory.ram.byteAt ∧
      (after devices entry s i k).memory.ram.reservedAt = s.memory.ram.reservedAt) ∧
    (∀ k ≤ n, ¬ (after devices entry s i k).Commits) ∧
    (∀ f : δ → α, Memory.ReadOnly devices f → (∀ k ≤ n, ∀ d, f ((i k).env d) = f d) →
      ∀ k ≤ n + 1, f (after devices entry s i k).memory.dev = f s.memory.dev) ∧
    (after devices entry s i n).dmmuRsp.mmuRspTval = (s.out entry (i 0)).exToDmmu.dmemAddr := by
  have hcommit : ∀ k ≤ n, ¬ (after devices entry s i k).Commits := fun k hk => h.no_commit hs hk
  refine ⟨fun k hk => ?_, hcommit, fun f hf henv k hk => ?_, ?_⟩
  · obtain ⟨hview, -⟩ := after_of_no_commit (f := fun _ : δ => ()) hcommit hwf
      (fun _ _ _ _ => rfl) (fun _ _ _ => rfl) hk
    exact ⟨hview.bytes, hview.reserved⟩
  · exact (after_of_no_commit hcommit hwf hf henv hk).2
  · obtain ⟨-, hn, -, hcomb, -, -⟩ := h.first hs
    obtain ⟨k, rfl⟩ : ∃ k, n = k + 1 := ⟨n - 1, by omega⟩
    have hshown := (h.underWay hs le_rfl).shown
    rw [out, Core.exToDmmu_eq hcomb]
    change _ = s.core.idEx.request.dmemAddr
    rw [← hshown]
    exact Dmmu.dmemRspComb_tval h.answer

/-- A machine with the RAM alone that has just decoded `sw x0, 1(x11)`. -/
def misalignedAtEntry : DataPath Unit :=
  step [Device.ram] 0x80000000
    (step [Device.ram] 0x80000000
      { memory := { ram := Ram.init 0x80000000, dev := () } } { rst := true })
    { ifId := { ifIdInst := 0x0005a0a3, ifIdPc := 0x80000000 } }

theorem fault_leaves_memory_of_misaligned :
    FaultsAt [Device.ram] 0x80000000 misalignedAtEntry (fun _ => {}) 1 ∧
    (∀ k ≤ 2, (after [Device.ram] 0x80000000 misalignedAtEntry (fun _ => {}) k).memory.ram.byteAt =
      misalignedAtEntry.memory.ram.byteAt) ∧
    (after [Device.ram] 0x80000000 misalignedAtEntry (fun _ => {}) 1).dmmuRsp.mmuRspTval =
      0x80100001 := by
  have hs : Reachable [Device.ram] 0x80000000 misalignedAtEntry := .step _ (.start ⟨_, _, rfl, rfl⟩)
  have hwf : misalignedAtEntry.memory.ram.WellFormed := Ram.init_wellFormed _
  have hfault : FaultsAt [Device.ram] 0x80000000 misalignedAtEntry (fun _ => {}) 1 :=
    ⟨by decide, fun _ _ => rfl, by decide, by decide⟩
  have haddr : (misalignedAtEntry.out 0x80000000 {}).exToDmmu.dmemAddr = 0x80100001 := by
    decide
  obtain ⟨hram, -, -, htval⟩ :=
    fault_leaves_memory (α := Unit) [Device.ram] 0x80000000 _ _ 1 hs.inv hwf hfault
  exact ⟨hfault, fun k hk => (hram k hk).1, htval.trans haddr⟩

end DataPath

end Turtle
