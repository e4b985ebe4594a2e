import Turtle.Agreement
import Turtle.Confinement
import Turtle.FetchCoherence
import Turtle.Mprv

/-!
# What the protection keeps apart

A part of memory that the PMP refuses to everyone stays as it is, and nothing that the
computer does depends on it: two computers that differ there only run in lock step. Locked
entries refuse for good, to M-mode as well, and whatever they refuse to the modes below M-mode
is out of reach until M-mode is entered.
-/

namespace Turtle

open Bits Protection

/-! ### Entries that nobody changes -/

namespace Pmp

variable {p : Pmp} {i : Fin 64}

/-- An entry whose predecessors are locked like itself keeps everything. -/
theorem apply_entry (h : ∀ j ≤ i, p.Locked j) (u : Update) : (p.apply u).entry i = p.entry i := by
  have hconfig : (p.apply u).pmpconfig i = p.pmpconfig i := (h i le_rfl).apply_pmpconfig u
  have haddr (j : Fin 64) (hj : j ≤ i) : (p.apply u).pmpaddr j = p.pmpaddr j :=
    apply_pmpaddr_of_not_writable (h j hj).not_writable u
  have hbelow : (p.apply u).below i = p.below i := by
    unfold below
    split
    · rw [haddr _ (Fin.le_def.mpr (Nat.sub_le ..))]
    · rfl
  have hregion : (p.apply u).regionOf i = p.regionOf i := by
    unfold regionOf
    rw [hconfig, haddr i le_rfl, hbelow]
  unfold entry Locked
  rw [hconfig, hregion]

/-- Behind a first range, a second one decides about what lies in it. -/
theorem decides_second {a : ℕ} (hfirst : p.pmpconfig 0 &&& 24 = 8)
    (hsecond : p.pmpconfig 1 &&& 24 = 8) (hlow : 4 * (p.pmpaddr 0).toNat ≤ a)
    (hhigh : a < 4 * (p.pmpaddr 1).toNat) : Decides p.entry {a} 1 := by
  have hbefore : a ∉ p.regionOf 0 := by
    unfold regionOf
    rw [hfirst, if_neg (by decide), if_pos rfl]
    exact fun hin => absurd hin.2 (not_lt.mpr hlow)
  have hin : a ∈ p.regionOf 1 := by
    unfold regionOf
    rw [hsecond, if_neg (by decide), if_pos rfl]
    exact ⟨hlow, hhigh⟩
  refine ⟨⟨a, rfl, hin⟩, fun j hj hmatches => ?_⟩
  obtain ⟨b, hb, hregion⟩ := hmatches
  have hj : j = 0 := by omega
  rw [hj, Set.mem_singleton_iff.mp hb] at hregion
  exact hbefore hregion

/-- A sealed address stays sealed. -/
theorem sealed_apply {a : ℕ} (h : Sealed p.entry a) (u : Update) : Sealed (p.apply u).entry a :=
  h.of_kept fun _ hlocked => apply_entry hlocked u

end Pmp

namespace Core

variable {entry : BitVec 32} {s : Core} {i : CoreIn}

theorem sealed_step {a : ℕ} (h : Sealed s.exec.pmp.entry a) :
    Sealed (step entry s i).exec.pmp.entry a := by
  rcases Exec.execSeq_pmp_cases s.exec s.idEx (s.comb entry i) i.mtime with heq | ⟨u, heq⟩
  · change Sealed (s.exec.execSeq s.idEx (s.comb entry i) i.mtime).pmp.entry a
    rwa [heq]
  · change Sealed (s.exec.execSeq s.idEx (s.comb entry i) i.mtime).pmp.entry a
    rw [heq]
    exact Pmp.sealed_apply h u

/-- Only a CSR instruction in M-mode changes the PMP. -/
theorem pmp_kept (h : s.idEx.type.IsCsr → s.exec.priv ≠ privM) :
    (step entry s i).exec.pmp = s.exec.pmp := by
  rw [pmp_step]
  rcases commit_cases entry s i with ⟨-, cause, tval, epc, hcommit⟩ | ⟨-, ⟨mmode, hcommit⟩, -⟩ |
    ⟨-, hcsr, hcommit⟩ | ⟨-, hcommit⟩
  · rw [hcommit]
    exact Exec.trap_pmp
  · rw [hcommit]
    exact Exec.returnFromTrap_pmp
  · rw [hcommit]
    exact Exec.csrWrite_pmp_of_priv (h hcsr)
  · rw [hcommit]

end Core

/-! ### Requests under way -/

theorem Exec.SameContext.effectivePriv_eq {e e' : Exec} (h : SameContext e e') :
    e'.effectivePriv = e.effectivePriv := by
  unfold effectivePriv
  rw [h.1, h.2 Csr.mstatus (by decide)]

/-- Below M-mode the current privilege counts for data as well. -/
theorem Exec.MprvInMachine.effectivePriv_eq {e : Exec} (h : MprvInMachine e)
    (hpriv : e.priv ≠ privM) : e.effectivePriv = e.priv := by
  have hclear : e.csrRegs Csr.mstatus &&& Mstatus.mprv = 0 := by
    rw [Mstatus.mprv, and_one_shiftLeft, h hpriv]
    rfl
  rw [effectivePriv, if_neg (not_not.mpr hclear)]

theorem IdEx.IsAccess.not_isCsr {d : IdEx} (h : d.IsAccess) : ¬ d.type.IsCsr := by
  intro hcsr
  have hgroup := h.2.2
  rcases hcsr with ht | ht | ht | ht | ht | ht
  all_goals
    rw [ht] at hgroup
    exact absurd hgroup (by decide)

namespace DataPath

variable {δ : Type} {devices : List (Device δ)} {entry : BitVec 32} {s : DataPath δ}
  {i : DataIn δ}

/-- A request under way is protected under the present registers. -/
theorem Reachable.protected_now (hs : Reachable devices entry s)
    (hack : s.dmmu.dmmuToMem.dmemReqAck = true) :
    Protected s.core.exec s.core.exec.effectivePriv s.dmmu.dmmuToMem.kind
      s.dmmu.dmmuToMem.dmemAddr s.dmmu.dmmuToMem.dmemSize.toNat := by
  cases hs with
  | start hs =>
    obtain ⟨m, i, hrst, rfl⟩ := hs
    have hidle : (DataPath.step devices entry { memory := m } i).Idle := idle_of_rst hrst
    cases hidle.quiet.no_request.symm.trans hack
  | @step s i hs =>
    have hs : Reachable devices entry s := hs
    have hbusy : (DataPath.step devices entry s i).Busy := by
      rcases hs.inv.step.phase with hidle | hbusy
      · cases hidle.quiet.no_request.symm.trans hack
      · exact hbusy
    have hstall : (s.core.comb entry (s.coreIn i)).stall = true :=
      (Core.wbStall_step (s := s.core) (i := s.coreIn i) hbusy.running).symm.trans hbusy.waits
    have hkeep : (DataPath.step devices entry s i).core.idEx = s.core.idEx :=
      Core.idEx_of_stall hstall
    have hmem : s.core.idEx.IsAccess := hkeep ▸ hbusy.access
    have hctx : Exec.SameContext s.core.exec (DataPath.step devices entry s i).core.exec :=
      Core.sameContext_of_waits hmem hstall
    have hpmp : (DataPath.step devices entry s i).core.exec.pmp = s.core.exec.pmp :=
      Core.pmp_kept fun hcsr => absurd hcsr hmem.not_isCsr
    have hsent := hs.protected i hack
    refine ⟨hsent.pma, ?_, ?_⟩
    · rw [hctx.effectivePriv_eq, hpmp]
      exact hsent.access
    · rw [hctx.effectivePriv_eq, hpmp]
      exact hsent.byte

end DataPath

/-! ### Walls -/

/-- Every access to an address of the secret is refused, to the data side and to the fetch
side. -/
def Exec.Walled (e : Exec) (secret : Set (BitVec 32)) : Prop :=
  ∀ x ∈ secret, ∀ k, ¬ Permits e.pmp.entry (e.effectivePriv = privM) k {x.toNat} ∧
    ¬ Permits e.pmp.entry (e.priv = privM) k {x.toNat}

/-- Every access to an address of the secret is refused to the modes below M-mode. -/
def Exec.WalledBelow (e : Exec) (secret : Set (BitVec 32)) : Prop :=
  ∀ x ∈ secret, ∀ k, ¬ Permits e.pmp.entry False k {x.toNat}

/-- What is protected lies outside what is refused. -/
theorem Protected.shuns {e : Exec} {priv addr : BitVec 32} {k : Kind} {size : ℕ}
    {secret : Set (BitVec 32)} (h : Protected e priv k addr size)
    (hsize : size = 1 ∨ size = 2 ∨ size = 4) (haligned : addr.toNat % size = 0)
    (hrefused : ∀ x ∈ secret, ¬ Permits e.pmp.entry (priv = privM) k {x.toNat}) :
    Memory.Shuns secret addr size := by
  intro j hj hmem
  have haddr := addr.isLt
  have hbyte : (addr + BitVec.ofNat 32 j).toNat = addr.toNat + j := by
    rw [BitVec.toNat_add, BitVec.toNat_ofNat]
    rcases hsize with rfl | rfl | rfl <;> omega
  refine hrefused _ hmem (h.byte _ ?_)
  rw [hbyte]
  exact ⟨Nat.le_add_right .., Nat.add_lt_add_left hj _⟩

namespace DataPath

variable {δ : Type} {devices : List (Device δ)} {entry : BitVec 32} {s : DataPath δ}
  {i : DataIn δ} {secret : Set (BitVec 32)} {m' : Memory δ}

theorem Reachable.size_cases (hs : Reachable devices entry s)
    (hack : s.dmmu.dmmuToMem.dmemReqAck = true) :
    s.dmmu.dmmuToMem.dmemSize.toNat = 1 ∨ s.dmmu.dmmuToMem.dmemSize.toNat = 2 ∨
      s.dmmu.dmmuToMem.dmemSize.toNat = 4 := by
  rcases hs.request_size hack with h | h | h <;> rw [h] <;> decide

/-- Behind a wall no data request touches the secret. -/
theorem Reachable.shuns (hs : Reachable devices entry s) (hwalled : s.core.exec.Walled secret)
    (i : DataIn δ) (hack : (step devices entry s i).dmmu.dmmuToMem.dmemReqAck = true) :
    Memory.Shuns secret (step devices entry s i).dmmu.dmmuToMem.dmemAddr
      (step devices entry s i).dmmu.dmmuToMem.dmemSize.toNat := by
  have hnext : Reachable devices entry (step devices entry s i) := .step i hs
  have haligned := aligned_of_not_misaligned hack (hnext.request_size hack)
    (Dmmu.dmemReqSeq_checked hack).1
  exact (hs.protected i hack).shuns (hnext.size_cases hack) haligned
    fun x hx => (hwalled x hx _).1

/-- Behind a wall no byte of the secret is written. -/
theorem Reachable.not_writes (hs : Reachable devices entry s)
    (hwalled : s.core.exec.Walled secret) {x : BitVec 32} (hx : x ∈ secret) : ¬ s.Writes x := by
  rintro ⟨hcommit, -, hin⟩
  have hack : s.dmmu.dmmuToMem.dmemReqAck = true := by
    rw [← hs.inv.answered.ack]
    exact hcommit.1
  have hshuns : Memory.Shuns secret s.dmmu.dmmuToMem.dmemAddr s.dmmu.dmmuToMem.dmemSize.toNat :=
    (hs.protected_now hack).shuns (hs.size_cases hack) (hs.aligned hack)
      fun x hx => (hwalled x hx _).1
  refine hshuns _ hin ?_
  rwa [BitVec.ofNat_toNat, BitVec.setWidth_eq, BitVec.add_comm, BitVec.sub_add_cancel]

/-- What memory answers in a cycle to the request behind the edge, and what it is afterwards. -/
def answer (devices : List (Device δ)) (s : DataPath δ) (i : DataIn δ) (req : DmemIn) :
    MemOut × Memory δ :=
  let m := ((s.committed devices i).instFetch i.iin).2
  if req = s.dmmu.dmmuToMem then (s.dout, m) else Memory.memAccess devices m req

/-- The request behind the edge. -/
def nextReq (entry : BitVec 32) (s : DataPath δ) (i : DataIn δ) : DmemIn :=
  (Dmmu.dmemReqSeq s.core.exec s.dmmu (s.dmmuIn entry i)).1.dmmuToMem

/-- Two data paths that differ in the bytes of the secret only. -/
structure AgreesOff (secret : Set (BitVec 32)) (s t : DataPath δ) : Prop where
  memory : s.memory.AgreesOff secret t.memory
  rest : t = { s with memory := t.memory }

variable {t : DataPath δ}

/-- What an edge carries out leaves memories that agree. -/
theorem AgreesOff.committed (h : s.AgreesOff secret t) (i : DataIn δ) :
    (s.committed devices i).AgreesOff secret (t.committed devices i) := by
  have hlines : Memory.AgreesOff secret { s.memory with dev := i.env s.memory.dev }
      { t.memory with dev := i.env t.memory.dev } :=
    ⟨h.memory.ram, congrArg i.env h.memory.dev⟩
  rw [h.rest]
  exact hlines.updateMemory _ _

theorem AgreesOff.answer (h : s.AgreesOff secret t) (i : DataIn δ) (req : DmemIn) :
    (s.answer devices i req).2.AgreesOff secret (t.answer devices i req).2 ∧
      ((req.dmemReqAck = true → Memory.Shuns secret req.dmemAddr req.dmemSize.toNat) →
        (t.answer devices i req).1 = (s.answer devices i req).1) := by
  have hfetched := (@AgreesOff.committed _ devices _ _ _ h i).instFetch_snd i.iin
  have hreq : t.dmmu.dmmuToMem = s.dmmu.dmmuToMem := by rw [h.rest]
  have hdout : t.dout = s.dout := by rw [h.rest]
  unfold DataPath.answer
  dsimp only
  rw [hreq]
  split_ifs
  · exact ⟨hfetched, fun _ => hdout⟩
  · exact hfetched.memAccess req

/-- Data paths that agree stay so when the next request shuns the secret. -/
theorem AgreesOff.step (h : s.AgreesOff secret t)
    (hshuns : (step devices entry s i).dmmu.dmmuToMem.dmemReqAck = true →
      Memory.Shuns secret (step devices entry s i).dmmu.dmmuToMem.dmemAddr
        (step devices entry s i).dmmu.dmmuToMem.dmemSize.toNat) :
    (step devices entry s i).AgreesOff secret (step devices entry t i) := by
  obtain ⟨hagree, hanswer⟩ := @AgreesOff.answer _ devices _ _ _ h i (s.nextReq entry i)
  have hreq : t.nextReq entry i = s.nextReq entry i := by rw [h.rest]; rfl
  have hdout : (DataPath.step devices entry t i).dout = (DataPath.step devices entry s i).dout := by
    change (t.answer devices i (t.nextReq entry i)).1 = _
    rw [hreq]
    exact hanswer hshuns
  refine ⟨?_, ?_⟩
  · change (s.answer devices i (s.nextReq entry i)).2.AgreesOff secret
      (t.answer devices i (t.nextReq entry i)).2
    rwa [hreq]
  · have hlevel (u : DataPath δ) : DataPath.step devices entry u i =
        { core := u.core.step entry (u.coreIn i)
          dmmu := (Dmmu.dmemReqSeq u.core.exec u.dmmu (u.dmmuIn entry i)).1
          exToDmmu := (u.out entry i).exToDmmu, dout := (DataPath.step devices entry u i).dout
          memory := (DataPath.step devices entry u i).memory, inReset := i.rst } := rfl
    rw [hlevel t, hlevel s, hdout, h.rest]
    rfl

end DataPath

/-! ### The fetch side -/

/-- Fetches and loads of page-table entries go to aligned addresses. -/
theorem Immu.imemReqSeq_aligned {e : Exec} {u : Immu} {i : ImmuIn}
    (hack : (imemReqSeq e u i).1.immuToMem.imemReqAck = true) :
    (imemReqSeq e u i).1.immuToMem.imemAddr.toNat % 4 = 0 := by
  have hsent : (imemReqSeq e u i).1.immuToMem = (next e u i).mmu.iMmuMem := by
    unfold imemReqSeq at hack ⊢
    dsimp only at hack ⊢
    split at hack
    · cases hack
    · rename_i hok
      rw [if_neg hok]
  rw [hsent] at hack ⊢
  exact (next_wordRequest hack).1

namespace Computer

variable {δ : Type} {undef : BitVec 32 → BitVec 32 → BitVec 32} {devices : List (Device δ)}
  {entry : BitVec 32} {s t : Computer δ} {i : ComputerIn δ} {secret : Set (BitVec 32)}

/-- Two computers that differ in the bytes of the secret only. -/
structure AgreesOff (secret : Set (BitVec 32)) (s t : Computer δ) : Prop where
  data : s.path.data.AgreesOff secret t.path.data
  rest : t = { s with path := { s.path with data := t.path.data } }

/-- Behind a wall a computer fetches nothing of the secret. -/
theorem fetchReq_shuns (hreach : Core.Reachable entry s.path.data.core)
    (hwalled : s.path.data.core.exec.Walled secret)
    (hack : (s.fetchReq entry i).imemReqAck = true) :
    (s.fetchReq entry i).imemAddr.toNat % 4 = 0 ∧
      Memory.Shuns secret (s.fetchReq entry i).imemAddr 4 := by
  have haligned := Immu.imemReqSeq_aligned hack
  have hprotected := Immu.imemReqSeq_protected hreach.pmp_indexed hreach.pmp_narrow hack
  exact ⟨haligned, hprotected.shuns (.inr (.inr rfl)) haligned fun x hx => (hwalled x hx _).2⟩

/-- Nothing but the memory tells the computers apart. -/
theorem AgreesOff.memory_only (h : s.AgreesOff secret t) : ∃ m, t =
    { s with path := { s.path with data := { s.path.data with memory := m } } } :=
  ⟨t.path.data.memory,
    h.rest.trans (congrArg (fun d => { s with path := { s.path with data := d } }) h.data.rest)⟩

/-- Memory answers fetches the same. -/
theorem AgreesOff.iout_step (h : s.AgreesOff secret t)
    (hreach : Core.Reachable entry s.path.data.core)
    (hwalled : s.path.data.core.exec.Walled secret) :
    (step undef devices entry t i).iout = (step undef devices entry s i).iout := by
  obtain ⟨m, ht⟩ := h.memory_only
  have hin : t.path.dataIn (t.dataIn entry i) = s.path.dataIn (s.dataIn entry i) := by
    rw [ht]
    rfl
  have hreq : t.fetchReq entry i = s.fetchReq entry i := by
    rw [ht]
    rfl
  have hport : t.front.immu.immuToMem = s.front.immu.immuToMem ∧ t.iout = s.iout := by
    rw [ht]
    exact ⟨rfl, rfl⟩
  have hcommitted : (s.committed devices entry i).AgreesOff secret
      (t.committed devices entry i) := by
    change (s.path.data.committed devices (s.path.dataIn (s.dataIn entry i))).AgreesOff secret
      (t.path.data.committed devices (t.path.dataIn (t.dataIn entry i)))
    rw [hin]
    exact h.data.committed _
  change (if t.fetchReq entry i = t.front.immu.immuToMem then t.iout
      else ((t.committed devices entry i).instFetch (t.fetchReq entry i)).1) =
    if s.fetchReq entry i = s.front.immu.immuToMem then s.iout
      else ((s.committed devices entry i).instFetch (s.fetchReq entry i)).1
  rw [hreq, hport.1, hport.2]
  split_ifs
  · rfl
  · exact hcommitted.instFetch_fst fun hack => fetchReq_shuns hreach hwalled hack

/-- Behind a wall, computers that agree outside the secret stay so. -/
theorem AgreesOff.step (h : s.AgreesOff secret t)
    (hreach : DataPath.Reachable devices entry s.path.data)
    (hwalled : s.path.data.core.exec.Walled secret) :
    (step undef devices entry s i).AgreesOff secret (step undef devices entry t i) := by
  have hiout := @iout_step _ undef devices _ _ _ i _ h hreach.core hwalled
  obtain ⟨m, ht⟩ := h.memory_only
  have hin : t.path.dataIn (t.dataIn entry i) = s.path.dataIn (s.dataIn entry i) := by
    rw [ht]
    rfl
  have hdata : (Computer.step undef devices entry s i).path.data.AgreesOff secret
      (Computer.step undef devices entry t i).path.data := by
    change (DataPath.step devices entry s.path.data (s.path.dataIn (s.dataIn entry i))).AgreesOff
      secret (DataPath.step devices entry t.path.data (t.path.dataIn (t.dataIn entry i)))
    rw [hin]
    exact h.data.step fun hack => hreach.shuns hwalled _ hack
  have hmext : (Computer.step undef devices entry t i).path.mext =
      (Computer.step undef devices entry s i).path.mext := by
    rw [ht]
    rfl
  have hfront : (Computer.step undef devices entry t i).front =
      (Computer.step undef devices entry s i).front := by
    rw [ht]
    rfl
  refine ⟨hdata, ?_⟩
  calc Computer.step undef devices entry t i
      = ⟨⟨(Computer.step undef devices entry t i).path.data,
          (Computer.step undef devices entry t i).path.mext⟩,
        (Computer.step undef devices entry t i).front,
        (Computer.step undef devices entry t i).iout⟩ := rfl
    _ = _ := by rw [hmext, hfront, hiout]

/-! ### Whole runs -/

/-- The states right after the first reset cycle of a powered-up computer. -/
def Started (undef : BitVec 32 → BitVec 32 → BitVec 32) (devices : List (Device δ))
    (entry : BitVec 32) (s : Computer δ) : Prop :=
  ∃ (m : Memory δ) (s₀ : Computer δ) (i : ComputerIn δ), m.ram.WellFormed ∧ s₀.PoweredUp m ∧
    i.data.rst = true ∧ s = Computer.step undef devices entry s₀ i

/-- The states that a run from reset can visit. -/
def Reachable (undef : BitVec 32 → BitVec 32 → BitVec 32) (devices : List (Device δ))
    (entry : BitVec 32) : Computer δ → Prop :=
  Clocked.Reachable (Computer.step undef devices entry) (Started undef devices entry)

theorem Reachable.inv (h : Reachable undef devices entry s) (heven : EvenWord entry) :
    ∃ map view, s.Inv devices entry map view := by
  induction h with
  | start hs =>
    obtain ⟨m, s₀, i, hwf, hs₀, hrst, rfl⟩ := hs
    exact ⟨_, _, (inv_of_reset heven hwf hs₀ hrst).1⟩
  | step i _ ih =>
    obtain ⟨map, view, hinv⟩ := ih
    exact ⟨map, _, hinv.step heven⟩

/-- Behind a wall, a cycle keeps the bytes of the secret. -/
theorem Reachable.secret_kept (h : Reachable undef devices entry s) (heven : EvenWord entry)
    (hwalled : s.path.data.core.exec.Walled secret) {x : BitVec 32} (hx : x ∈ secret) :
    (Computer.step undef devices entry s i).path.machine.mem.bytes x =
      s.path.machine.mem.bytes x := by
  obtain ⟨map, view, hinv⟩ := h.inv heven
  exact hinv.tracks.data.bytes_step (hinv.tracks.data.reachable.not_writes hwalled hx)

/-- While the wall stands, the secret stays as it is, and computers that differ in it only run
in lock step. -/
theorem Reachable.isolated_run (h : Reachable undef devices entry s) (heven : EvenWord entry)
    {is : List (ComputerIn δ)} (hwalled : ∀ c ∈ Clocked.trace (Computer.step undef devices entry)
      Prod.mk s is, c.1.path.data.core.exec.Walled secret) :
    (∀ x ∈ secret, (Clocked.run (Computer.step undef devices entry) s is).path.machine.mem.bytes x =
      s.path.machine.mem.bytes x) ∧
    ∀ t, s.AgreesOff secret t →
      (Clocked.run (Computer.step undef devices entry) s is).AgreesOff secret
        (Clocked.run (Computer.step undef devices entry) t is) ∧
      Clocked.trace (Computer.step undef devices entry) (label entry) t is =
        Clocked.trace (Computer.step undef devices entry) (label entry) s is := by
  constructor
  · intro x hx
    have hkept : ∀ (t : Computer δ) (i : ComputerIn δ), (Reachable undef devices entry t ∧
        t.path.machine.mem.bytes x = s.path.machine.mem.bytes x) →
        t.path.data.core.exec.Walled secret →
        Reachable undef devices entry (Computer.step undef devices entry t i) ∧
          (Computer.step undef devices entry t i).path.machine.mem.bytes x =
            s.path.machine.mem.bytes x := by
      rintro t i ⟨ht, hsame⟩ hok
      exact ⟨.step i ht, (ht.secret_kept heven hok hx).trans hsame⟩
    exact (Clocked.allowed_run hkept ⟨h, rfl⟩ hwalled).1.2
  · intro t hagree
    have hstep : ∀ (u v : Computer δ) (i : ComputerIn δ), (Reachable undef devices entry u ∧
        u.AgreesOff secret v) → u.path.data.core.exec.Walled secret →
        Reachable undef devices entry (Computer.step undef devices entry u i) ∧
          (Computer.step undef devices entry u i).AgreesOff secret
            (Computer.step undef devices entry v i) := by
      rintro u v i ⟨hu, huv⟩ hok
      obtain ⟨map, view, hinv⟩ := hu.inv heven
      exact ⟨.step i hu, huv.step hinv.tracks.data.reachable hok⟩
    have hlabel : ∀ (u v : Computer δ) (i : ComputerIn δ), (Reachable undef devices entry u ∧
        u.AgreesOff secret v) → v.label entry i = u.label entry i := by
      rintro u v i ⟨-, huv⟩
      obtain ⟨m, rfl⟩ := huv.memory_only
      rfl
    obtain ⟨⟨-, hrun⟩, htrace⟩ := Clocked.related_run hstep hlabel ⟨h, hagree⟩ hwalled
    exact ⟨hrun, htrace⟩

/-- What locked PMP entries refuse is isolated for good, whatever is executed and in whichever
mode, resets included: it stays as it is, and two computers that differ there only go through
the same cycles. -/
theorem locked_memory_isolated (undef : BitVec 32 → BitVec 32 → BitVec 32)
    (devices : List (Device δ)) (entry : BitVec 32) (heven : EvenWord entry) (s : Computer δ)
    (hs : Reachable undef devices entry s) (secret : Set (BitVec 32))
    (hsealed : ∀ x ∈ secret, Sealed s.path.data.core.exec.pmp.entry x.toNat)
    (is : List (ComputerIn δ)) :
    let step := Computer.step undef devices entry
    (∀ x ∈ secret, (Clocked.run step s is).path.machine.mem.bytes x =
      s.path.machine.mem.bytes x) ∧
    ∀ t, s.AgreesOff secret t →
      (Clocked.run step s is).AgreesOff secret (Clocked.run step t is) ∧
      Clocked.trace step (label entry) t is = Clocked.trace step (label entry) s is := by
  refine hs.isolated_run heven ?_
  have hkept : ∀ t i, (∀ x ∈ secret, Sealed t.path.data.core.exec.pmp.entry x.toNat) → True →
      ∀ x ∈ secret, Sealed (Computer.step undef devices entry t i).path.data.core.exec.pmp.entry
        x.toNat := fun t i ht _ x hx => Core.sealed_step (i := t.coreIn i) (ht x hx)
  intro c hc x hx k
  have hnow := (Clocked.allowed_run hkept hsealed fun _ _ => trivial).2 c hc x hx
  exact ⟨hnow.not_permits, hnow.not_permits⟩

/-- What the PMP refuses to the modes below M-mode is isolated as long as M-mode is not
entered. -/
theorem machine_memory_isolated (undef : BitVec 32 → BitVec 32 → BitVec 32)
    (devices : List (Device δ)) (entry : BitVec 32) (heven : EvenWord entry) (s : Computer δ)
    (hs : Reachable undef devices entry s) (secret : Set (BitVec 32))
    (hrefused : s.path.data.core.exec.WalledBelow secret)
    (is : List (ComputerIn δ)) (hbelow : ∀ c ∈ Clocked.trace (Computer.step undef devices entry)
      Prod.mk s is, c.1.path.data.core.exec.priv ≠ privM) :
    let step := Computer.step undef devices entry
    (∀ x ∈ secret, (Clocked.run step s is).path.machine.mem.bytes x =
      s.path.machine.mem.bytes x) ∧
    ∀ t, s.AgreesOff secret t →
      (Clocked.run step s is).AgreesOff secret (Clocked.run step t is) ∧
      Clocked.trace step (label entry) t is = Clocked.trace step (label entry) s is := by
  refine hs.isolated_run heven ?_
  have hkept : ∀ (t : Computer δ) (i : ComputerIn δ),
      (Reachable undef devices entry t ∧ t.path.data.core.exec.WalledBelow secret) →
      t.path.data.core.exec.priv ≠ privM →
      Reachable undef devices entry (Computer.step undef devices entry t i) ∧
        (Computer.step undef devices entry t i).path.data.core.exec.WalledBelow secret := by
    rintro t i ⟨ht, hrefused⟩ hbelow
    have hpmp : (Computer.step undef devices entry t i).path.data.core.exec.pmp =
        t.path.data.core.exec.pmp := Core.pmp_kept (i := t.coreIn i) fun _ => hbelow
    refine ⟨.step i ht, fun x hx k => ?_⟩
    rw [hpmp]
    exact hrefused x hx k
  intro c hc x hx k
  obtain ⟨hreach, hrefused⟩ := (Clocked.allowed_run hkept ⟨hs, hrefused⟩ hbelow).2 c hc
  have hpriv : (c.1.path.data.core.exec.priv = privM) = False := eq_false (hbelow c hc)
  obtain ⟨map, view, hinv⟩ := hreach.inv heven
  have heffective : c.1.path.data.core.exec.effectivePriv = c.1.path.data.core.exec.priv :=
    hinv.tracks.data.reachable.core.mprvInMachine.effectivePriv_eq (hbelow c hc)
  rw [heffective, hpriv]
  exact ⟨hrefused x hx k, hrefused x hx k⟩

/-- A memory with a program at `0x80000000`. -/
def programMemory (words : List (BitVec 32)) : Memory Unit :=
  { ram := (Ram.init 0x80000000).loadToRam (words.flatMap fun w : BitVec 32 => [w.setWidth 8,
      (w >>> 8).setWidth 8, (w >>> 16).setWidth 8, (w >>> 24).setWidth 8]) 0x80000000, dev := () }

/-- A computer with a program, some cycles after its reset. -/
def afterCycles (words : List (BitVec 32)) (n : ℕ) : Computer Unit :=
  let step := Computer.step (fun _ _ => 0) [Device.ram] 0x80000000
  Clocked.run step (step { path := { data := { memory := programMemory words } } }
    { data := { rst := true } }) (List.replicate n {})

theorem reachable_afterCycles {words : List (BitVec 32)} (hlen : words.length ≤ 2 ^ 20) (n : ℕ) :
    Reachable (fun _ _ => 0) [Device.ram] 0x80000000 (afterCycles words n) := by
  have hwf : (programMemory words).ram.WellFormed := by
    refine (Ram.init_wellFormed _).loadToRam ?_ _
    rw [List.length_flatMap]
    simp only [List.length_cons, List.length_nil, List.map_const', List.sum_replicate]
    rw [smul_eq_mul]
    omega
  exact Clocked.Reachable.run (.start ⟨_, _, _, hwf, ⟨rfl, ⟨rfl, rfl⟩, rfl⟩, rfl, rfl⟩) _

/-- `pmpaddr0` at `0x80001000` and `pmpaddr1` at the end of memory, as two TOR entries of which
the second one grants nothing, both locked, and then a load from `0x80001000`. -/
def lockedProgram : List (BitVec 32) :=
  [0x200002b7, 0x40028293, 0x3b029073, 0xfff00293, 0x3b129073, 0x000092b7, 0x88f28293, 0x3a029073,
    0x800013b7, 0x0003a403]

/-- The same entries unlocked, and then the load in U-mode. -/
def unlockedProgram : List (BitVec 32) :=
  [0x200002b7, 0x40028293, 0x3b029073, 0xfff00293, 0x3b129073, 0x000012b7, 0x80f28293, 0x3a029073,
    0x00000317, 0x01430313, 0x34131073, 0x30001073, 0x30200073, 0x800013b7, 0x0003a403]

/-- The memory behind the first entry. -/
def secretMemory : Set (BitVec 32) := {x | 0x80001000 ≤ x.toNat}

/-- In both programs the second entry decides about the secret. -/
theorem decides_secret {p : Pmp} {x : BitVec 32} (hx : x ∈ secretMemory)
    (hfirst : p.pmpconfig 0 &&& 24 = 8) (hsecond : p.pmpconfig 1 &&& 24 = 8)
    (haddr : p.pmpaddr 0 = 0x20000400 ∧ p.pmpaddr 1 = 0xffffffff) :
    Decides p.entry {x.toNat} 1 := by
  have hlt := x.isLt
  refine Pmp.decides_second hfirst hsecond ?_ ?_
  · rw [haddr.1]
    exact hx
  · rw [haddr.2]
    change x.toNat < 4 * 0xffffffff
    omega

/-- The memory behind the locked entries, while M-mode tries to load from it. -/
theorem locked_memory_isolated_load :
    let s := afterCycles lockedProgram 20
    let is := List.replicate 7 {}
    let step := Computer.step (fun _ _ => 0) [Device.ram] 0x80000000
    (∀ x ∈ secretMemory, (Clocked.run step s is).path.machine.mem.bytes x =
      s.path.machine.mem.bytes x) ∧
    ∀ t, s.AgreesOff secretMemory t →
      (Clocked.run step s is).AgreesOff secretMemory (Clocked.run step t is) ∧
      Clocked.trace step (label 0x80000000) t is = Clocked.trace step (label 0x80000000) s is := by
  intro s is
  have hentries : s.path.data.core.exec.pmp.pmpconfig 0 = 0x8f ∧
      s.path.data.core.exec.pmp.pmpconfig 1 = 0x88 ∧
      s.path.data.core.exec.pmp.pmpaddr 0 = 0x20000400 ∧
      s.path.data.core.exec.pmp.pmpaddr 1 = 0xffffffff := by decide +kernel
  obtain ⟨hfirst, hsecond, haddr⟩ := hentries
  have hsealed : ∀ x ∈ secretMemory, Sealed s.path.data.core.exec.pmp.entry x.toNat := by
    intro x hx
    refine ⟨1, decides_secret hx (by rw [hfirst]; rfl) (by rw [hsecond]; rfl) haddr, ?_, ?_⟩
    · intro j hj
      have hj : j = 0 ∨ j = 1 := by omega
      rcases hj with rfl | rfl
      · change s.path.data.core.exec.pmp.pmpconfig 0 &&& Pmp.lock ≠ 0
        rw [hfirst]
        decide
      · change s.path.data.core.exec.pmp.pmpconfig 1 &&& Pmp.lock ≠ 0
        rw [hsecond]
        decide
    · intro k
      cases k <;> simp [Pmp.entry, hsecond]
  have hreach : Reachable (fun _ _ => 0) [Device.ram] 0x80000000 s :=
    reachable_afterCycles (by decide) 20
  exact locked_memory_isolated (fun _ _ => 0) [Device.ram] 0x80000000 (by decide) s hreach
    secretMemory hsealed is

-- So the load traps, even in M-mode.
example : (afterCycles lockedProgram 27).path.data.core.exec.csrRegs Csr.mcause =
    ExceptionCause.loadAccessFault.code := by decide +kernel

/-- The memory behind the entries, while U-mode tries to load from it. -/
theorem machine_memory_isolated_load :
    let s := afterCycles unlockedProgram 29
    let is := List.replicate 7 {}
    let step := Computer.step (fun _ _ => 0) [Device.ram] 0x80000000
    (∀ x ∈ secretMemory, (Clocked.run step s is).path.machine.mem.bytes x =
      s.path.machine.mem.bytes x) ∧
    ∀ t, s.AgreesOff secretMemory t →
      (Clocked.run step s is).AgreesOff secretMemory (Clocked.run step t is) ∧
      Clocked.trace step (label 0x80000000) t is = Clocked.trace step (label 0x80000000) s is := by
  intro s is
  have hentries : s.path.data.core.exec.pmp.pmpconfig 0 = 0x0f ∧
      s.path.data.core.exec.pmp.pmpconfig 1 = 0x08 ∧
      s.path.data.core.exec.pmp.pmpaddr 0 = 0x20000400 ∧
      s.path.data.core.exec.pmp.pmpaddr 1 = 0xffffffff := by decide +kernel
  obtain ⟨hfirst, hsecond, haddr⟩ := hentries
  have hbelow : ∀ c ∈ Clocked.trace (Computer.step (fun _ _ => 0) [Device.ram] 0x80000000)
      Prod.mk s is, c.1.path.data.core.exec.priv ≠ privM := by decide +kernel
  have hrefused : s.path.data.core.exec.WalledBelow secretMemory := by
    intro x hx k hpermits
    have hdecides : Decides s.path.data.core.exec.pmp.entry {x.toNat} 1 :=
      decides_secret hx (by rw [hfirst]; rfl) (by rw [hsecond]; rfl) haddr
    have hgrants := (hpermits.1 1 hdecides).2.resolve_left fun h => h.1
    cases k <;> simp [Pmp.entry, hsecond] at hgrants
  have hreach : Reachable (fun _ _ => 0) [Device.ram] 0x80000000 s :=
    reachable_afterCycles (by decide) 29
  exact machine_memory_isolated (fun _ _ => 0) [Device.ram] 0x80000000 (by decide) s hreach
    secretMemory hrefused is hbelow

end Computer

end Turtle
