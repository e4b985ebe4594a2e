import Turtle.Lib.Clocked
import Turtle.Mmu.Walk

/-!
# Walks of the data side

The data side closed with EXEC, which shows a request until it is answered, and
with memory. An access that a walk forwards is one that the reference translation
permits, at the address it gives.
-/

namespace Turtle

open Sv32 Sv32.Pte

namespace Dmmu

/-- The members still hold what the idle state latched from the request. -/
structure Holds (e : Exec) (req : DmemIn) (s : Dmmu) : Prop where
  dPriv_eq : s.dPriv = e.dataPriv
  dOp_eq : s.dOp = opOf req
  dVpn0_eq : s.dVpn0 = (req.dmemAddr >>> 12) &&& 0x3FF
  dOffset_eq : s.dOffset = req.dmemAddr &&& 0xFFF

variable {e : Exec} {s : Dmmu} {i : DmmuIn} {mode : Mode}

/-- What the idle state does: nothing or a fault, an access, or the start of a walk. -/
theorem idleStep_spec :
    let n := idleStep e s i
    (n.mmu.dState = .idle ∧ n.mmu.dMmuMem.dmemReqAck = false) ∨ n.mmu.dState = .access ∨
    (n.mmu.dState = .level1 ∧ i.req.dmemReqAck = true ∧ Holds e i.req n.mmu ∧
      n.mmu.dMmuMem = pteLoad ((pteAddr e.root (vpn1 i.req.dmemAddr)).setWidth 32)) := by
  intro n
  have hn : n = idleStep e s i := rfl
  unfold idleStep at hn
  dsimp only at hn
  split at hn
  · rename_i hack
    split at hn
    · split at hn
      · split at hn
        · exact .inl ⟨by rw [hn]; rfl, by rw [hn]; rfl⟩
        · split at hn <;> exact .inr (.inl (by rw [hn]))
      · refine .inr (.inr ⟨by rw [hn], hack, ?_, ?_⟩)
        · rw [hn]
          exact ⟨rfl, rfl, rfl, rfl⟩
        · rw [hn]
          exact congrArg pteLoad (rootAddr_eq _ _)
    · exact .inr (.inl (by rw [hn]))
  · exact .inl ⟨by rw [hn], by rw [hn]⟩

/-- What the arrival of the level-1 entry leads to. -/
theorem level1Step_spec (hreq : i.req.Proper) (hholds : Holds e i.req s)
    (hmode : e.dataPriv = (modePriv mode).setWidth 8) :
    let n := level1Step e s i
    let pte := i.rsp.memRspRdata
    (n.mmu.dState = .idle ∧ n.mmu.dMmuMem.dmemReqAck = false) ∨
    (isLeaf pte = true ∧ permits (e.context mode) i.req.access pte = true ∧ isAligned pte = true ∧
      n.mmu.dState = .access ∧
      n.mmu.dMmuMem = forwardTo i.req ((megapageAddr pte i.req.dmemAddr).setWidth 32)) ∨
    (isPointer pte = true ∧ n.mmu.dState = .level2 ∧ Holds e i.req n.mmu ∧
      n.mmu.dMmuMem = pteLoad ((pteAddr (ppn pte) (vpn0 i.req.dmemAddr)).setWidth 32)) := by
  intro n pte
  have hn : n = level1Step e s i := rfl
  unfold level1Step at hn
  dsimp only at hn
  rw [hholds.dPriv_eq, hholds.dOp_eq, hmode, hholds.dVpn0_eq] at hn
  split at hn
  · exact .inl ⟨by rw [hn]; rfl, by rw [hn]; rfl⟩
  rename_i hok
  rw [not_or, and_one_eq_zero_iff, not_and_or, not_or, not_not, not_not, Bool.not_eq_true,
    Bool.not_eq_false] at hok
  obtain ⟨hv, hok⟩ := hok
  have hsort := leaf_or_pointer (c := e.context mode) (k := i.req.access)
    (hok.imp_right fun h => ⟨(isAligned_iff pte).mpr h.1, permits_of_leafFault hreq hv h.2⟩)
  split at hn
  · obtain ⟨hleaf, hpermits, haligned⟩ := hsort.1 ‹_›
    refine .inr (.inl ⟨hleaf, hpermits, haligned, by rw [hn], ?_⟩)
    rw [hn, ← megapageAddr_eq _ _ haligned]
  · refine .inr (.inr ⟨hsort.2 ‹_›, by rw [hn], ?_, ?_⟩)
    · rw [hn]
      exact ⟨hmode.symm, rfl, rfl, hholds.dOffset_eq⟩
    · rw [hn, ← tableAddr_eq]

/-- What the arrival of the level-2 entry leads to. -/
theorem level2Step_spec (hreq : i.req.Proper) (hholds : Holds e i.req s)
    (hmode : e.dataPriv = (modePriv mode).setWidth 8) :
    let n := level2Step e s i
    let pte := i.rsp.memRspRdata
    (n.mmu.dState = .idle ∧ n.mmu.dMmuMem.dmemReqAck = false) ∨
    (permits (e.context mode) i.req.access pte = true ∧ n.mmu.dState = .access ∧
      n.mmu.dMmuMem = forwardTo i.req ((pageAddr pte i.req.dmemAddr).setWidth 32)) := by
  intro n pte
  have hn : n = level2Step e s i := rfl
  unfold level2Step at hn
  dsimp only at hn
  rw [hholds.dPriv_eq, hholds.dOp_eq, hmode, hholds.dOffset_eq] at hn
  split at hn
  · exact .inl ⟨by rw [hn]; rfl, by rw [hn]; rfl⟩
  · rename_i hok
    rw [not_or, and_one_eq_zero_iff, Bool.not_eq_true, Bool.not_eq_false] at hok
    refine .inr ⟨permits_of_leafFault hreq hok.1 hok.2, by rw [hn], ?_⟩
    rw [hn, ← pageAddr_eq]

end Dmmu

/-- The data side with the request that EXEC keeps showing and the request that
memory has not answered yet. -/
structure DataWalk where
  mmu : Dmmu := {}
  req : DmemIn := {}
  pending : Option (BitVec 32) := none

/-- The inputs of a cycle: a new request, which is taken in the idle state only,
and whether memory responds. A request has one of the three kinds. -/
structure DataWalkIn where
  rst : Bool := false
  flush : Bool := false
  req : DmemIn := {}
  respond : Bool := false
  tlb : Tlb := {}
  junk : TlbEntry := {}
  proper : req.dmemReqAck = true → req.Proper := by decide

namespace DataWalk

/-- The request on the signal `ex_to_dmmu`: EXEC raises `req_ack` in the first
cycle only and keeps the other fields while it waits. -/
def request (w : DataWalk) (i : DataWalkIn) : DmemIn :=
  if w.mmu.dState = .idle then i.req else { w.req with dmemReqAck := false }

/-- The inputs of the data side in a cycle. -/
def dmmuIn (mem : BitVec 32 → BitVec 32) (w : DataWalk) (i : DataWalkIn) : DmmuIn :=
  { rst := i.rst, flush := i.flush, req := w.request i, rsp := answer mem w.pending i.respond,
    tlb := i.tlb, junk := i.junk }

/-- The address of the request that goes out to memory, if one does. -/
def sent (mmu : Dmmu) : Option (BitVec 32) :=
  if mmu.dmmuToMem.dmemReqAck then some mmu.dmmuToMem.dmemAddr else none

/-- One cycle. -/
def step (e : Exec) (mem : BitVec 32 → BitVec 32) (w : DataWalk) (i : DataWalkIn) : DataWalk :=
  let mmu := (Dmmu.dmemReqSeq e w.mmu (w.dmmuIn mem i)).1
  { mmu := mmu
    req := w.request i
    pending := outstanding (sent mmu) (i.rst || i.flush || i.respond) w.pending }

/-- The invariant of a walk: what is latched, and where the outstanding request
reads. -/
structure Inv (e : Exec) (mem : BitVec 32 → BitVec 32) (w : DataWalk) : Prop where
  idle : w.mmu.dState = .idle → w.pending = none
  level1 : w.mmu.dState = .level1 → w.req.Proper ∧ Dmmu.Holds e w.req w.mmu ∧
    ∀ addr ∈ w.pending, addr = (pteAddr e.root (vpn1 w.req.dmemAddr)).setWidth 32
  level2 : w.mmu.dState = .level2 → w.req.Proper ∧ Dmmu.Holds e w.req w.mmu ∧
    isPointer (e.pte₁ mem w.req.dmemAddr) = true ∧
    ∀ addr ∈ w.pending,
      addr = (pteAddr (ppn (e.pte₁ mem w.req.dmemAddr)) (vpn0 w.req.dmemAddr)).setWidth 32

/-- A walk is under way: an entry has been requested and no TLB hit was found. -/
def Walking (w : DataWalk) : Prop := w.mmu.dState = .level1 ∨ w.mmu.dState = .level2

/-- The access itself goes out to memory. -/
def Forwards (w : DataWalk) : Prop :=
  w.mmu.dState = .access ∧ w.mmu.dmmuToMem.dmemReqAck = true

/-- The access on the bus is the one that the reference translation permits, with
operation, data and size unchanged. -/
def Translated (e : Exec) (mem : BitVec 32 → BitVec 32) (mode : Mode) (req : DmemIn)
    (sent : DmemIn) : Prop :=
  ∃ pa, translate (e.context mode) req.access (busRead mem) e.root req.dmemAddr = some pa ∧
    sent = { req with dmemReqAck := true, dmemAddr := pa.setWidth 32 }

variable {e : Exec} {mem : BitVec 32 → BitVec 32} {w : DataWalk} {i : DataWalkIn} {mode : Mode}

/-- The signals after an edge, from the first part of `dmem_req_seq`. -/
theorem step_mmu {n : Dmmu.Next} (h : Dmmu.next e w.mmu (w.dmmuIn mem i) = n) :
    (step e mem w i).mmu.dState = n.mmu.dState ∧
    ((step e mem w i).mmu.dmmuToMem.dmemReqAck = true →
      n.mmu.dMmuMem.dmemReqAck = true ∧ (step e mem w i).mmu.dmmuToMem = n.mmu.dMmuMem) ∧
    ∀ req, Dmmu.Holds e req n.mmu → Dmmu.Holds e req (step e mem w i).mmu := by
  subst h
  refine ⟨rfl, fun hack => ?_, fun _ h => ⟨h.dPriv_eq, h.dOp_eq, h.dVpn0_eq, h.dOffset_eq⟩⟩
  change (if _ then ({} : DmemIn) else _).dmemReqAck = true at hack
  split at hack
  · cases hack
  · rename_i hfault
    exact ⟨hack, if_neg hfault⟩

theorem mem_pending_step {addr : BitVec 32} (h : addr ∈ (step e mem w i).pending) :
    ((step e mem w i).mmu.dmmuToMem.dmemReqAck = true ∧
      addr = (step e mem w i).mmu.dmmuToMem.dmemAddr) ∨
    ((i.rst || i.flush || i.respond) = false ∧ addr ∈ w.pending) := mem_outstanding h

/-- What the edge makes of the invariant, when the state after it is known. -/
theorem inv_of_idle (hstate : (step e mem w i).mmu.dState = .idle)
    (hack : (step e mem w i).mmu.dmmuToMem.dmemReqAck ≠ true)
    (hpending : (i.rst || i.flush || i.respond) = true ∨ w.pending = none) :
    Inv e mem (step e mem w i) := by
  refine ⟨fun _ => ?_, fun h => ?_, fun h => ?_⟩
  · exact outstanding_eq_none (Bool.eq_false_of_not_eq_true hack) hpending
  · rw [hstate] at h
    cases h
  · rw [hstate] at h
    cases h

theorem inv_of_access (hstate : (step e mem w i).mmu.dState = .access) :
    Inv e mem (step e mem w i) := by
  refine ⟨fun h => ?_, fun h => ?_, fun h => ?_⟩ <;>
    · rw [hstate] at h
      cases h

theorem inv_of_level1 (hstate : (step e mem w i).mmu.dState = .level1)
    (hreq : (w.request i).Proper) (hholds : Dmmu.Holds e (w.request i) (step e mem w i).mmu)
    (hpending : ∀ addr ∈ (step e mem w i).pending,
      addr = (pteAddr e.root (vpn1 (w.request i).dmemAddr)).setWidth 32) :
    Inv e mem (step e mem w i) := by
  refine ⟨fun h => ?_, fun _ => ⟨hreq, hholds, hpending⟩, fun h => ?_⟩ <;>
    · rw [hstate] at h
      cases h

theorem inv_of_level2 (hstate : (step e mem w i).mmu.dState = .level2)
    (hreq : (w.request i).Proper) (hholds : Dmmu.Holds e (w.request i) (step e mem w i).mmu)
    (hpointer : isPointer (e.pte₁ mem (w.request i).dmemAddr) = true)
    (hpending : ∀ addr ∈ (step e mem w i).pending, addr =
      (pteAddr (ppn (e.pte₁ mem (w.request i).dmemAddr)) (vpn0 (w.request i).dmemAddr)).setWidth
        32) :
    Inv e mem (step e mem w i) := by
  refine ⟨fun h => ?_, fun h => ?_, fun _ => ⟨hreq, hholds, hpointer, hpending⟩⟩ <;>
    · rw [hstate] at h
      cases h

/-- A reset or a flush ends the walk. -/
theorem next_of_reset (e : Exec) (mem : BitVec 32 → BitVec 32) (w : DataWalk)
    (h : (i.rst || i.flush) = true) :
    Dmmu.next e w.mmu (w.dmmuIn mem i) = Dmmu.reset w.mmu i.tlb := if_pos h

theorem inv_step_of_reset (h : (i.rst || i.flush) = true) : Inv e mem (step e mem w i) := by
  obtain ⟨hstate, hack, -⟩ := step_mmu (next_of_reset e mem w h)
  exact inv_of_idle hstate (fun hne => Bool.false_ne_true (hack hne).1) (.inl (by rw [h, Bool.true_or]))

/-- From the idle state. -/
theorem inv_step_of_idle (hw : Inv e mem w) (hstate : w.mmu.dState = .idle)
    (hopen : (i.rst || i.flush) = false) : Inv e mem (step e mem w i) := by
  have hnext : Dmmu.next e w.mmu (w.dmmuIn mem i) = Dmmu.idleStep e w.mmu (w.dmmuIn mem i) := by
    unfold Dmmu.next
    rw [if_neg (by simpa [dmmuIn] using hopen), if_pos hstate]
  have hrequest : w.request i = i.req := if_pos hstate
  obtain ⟨hstate', hack, hregs⟩ := step_mmu hnext
  rcases Dmmu.idleStep_spec (e := e) (s := w.mmu) (i := w.dmmuIn mem i) with
    ⟨hidle, hquiet⟩ | haccess | ⟨hlevel, hoffer, hholds, hload⟩
  · refine inv_of_idle (hstate'.trans hidle) (fun hne => ?_) (.inr (hw.idle hstate))
    exact Bool.false_ne_true (hquiet.symm.trans (hack hne).1)
  · exact inv_of_access (hstate'.trans haccess)
  · have hproper : (w.request i).Proper := by
      rw [hrequest]
      exact i.proper (hrequest ▸ hoffer)
    refine inv_of_level1 (hstate'.trans hlevel) hproper (hregs _ hholds) fun addr haddr => ?_
    rcases mem_pending_step haddr with ⟨hsent, rfl⟩ | ⟨-, hold⟩
    · rw [(hack hsent).2, hload]
      rfl
    · rw [hw.idle hstate] at hold
      cases hold

/-- In a state other than idle, a cycle without an answer changes nothing. -/
theorem inv_step_of_wait (hw : Inv e mem w) (hstate : w.mmu.dState ≠ .idle)
    (hopen : (i.rst || i.flush) = false)
    (hwait : (answer mem w.pending i.respond).memRspAck = false) :
    Inv e mem (step e mem w i) ∧ (step e mem w i).mmu.dmmuToMem.dmemReqAck ≠ true := by
  have hnext : Dmmu.next e w.mmu (w.dmmuIn mem i) =
      { mmu := { w.mmu with dMmuMem.dmemReqAck := false }, tlb := i.tlb } := by
    unfold Dmmu.next
    rw [if_neg (by simpa [dmmuIn] using hopen), if_neg hstate, if_neg (by simpa [dmmuIn] using hwait)]
    rfl
  obtain ⟨hstate', hack, hregs⟩ := step_mmu hnext
  have hquiet : (step e mem w i).mmu.dmmuToMem.dmemReqAck ≠ true := by
    intro hne
    exact Bool.false_ne_true (hack hne).1
  have hrequest : w.request i = { w.req with dmemReqAck := false } := if_neg hstate
  have hold {addr : BitVec 32} (haddr : addr ∈ (step e mem w i).pending) : addr ∈ w.pending := by
    rcases mem_pending_step haddr with ⟨hsent, -⟩ | ⟨-, h⟩
    · exact absurd hsent hquiet
    · exact h
  have hkeep (h : Dmmu.Holds e w.req w.mmu) : Dmmu.Holds e (w.request i) (step e mem w i).mmu := by
    rw [hrequest]
    exact hregs _ ⟨h.dPriv_eq, h.dOp_eq, h.dVpn0_eq, h.dOffset_eq⟩
  refine ⟨?_, hquiet⟩
  cases hs : w.mmu.dState with
  | idle => exact absurd hs hstate
  | access => exact inv_of_access (hstate'.trans hs)
  | level1 =>
    obtain ⟨hreq, hholds, hpending⟩ := hw.level1 hs
    refine inv_of_level1 (hstate'.trans hs) (by rw [hrequest]; exact hreq) (hkeep hholds) ?_
    intro addr haddr
    rw [hrequest]
    exact hpending addr (hold haddr)
  | level2 =>
    obtain ⟨hreq, hholds, hpointer, hpending⟩ := hw.level2 hs
    refine inv_of_level2 (hstate'.trans hs) (by rw [hrequest]; exact hreq) (hkeep hholds)
      (by rw [hrequest]; exact hpointer) ?_
    intro addr haddr
    rw [hrequest]
    exact hpending addr (hold haddr)

/-- The answer to the level-1 request. -/
theorem step_of_level1 (hw : Inv e mem w) (hmode : e.dataPriv = (modePriv mode).setWidth 8)
    (hstate : w.mmu.dState = .level1) (hopen : (i.rst || i.flush) = false)
    (hanswer : (answer mem w.pending i.respond).memRspAck = true) :
    Inv e mem (step e mem w i) ∧
      (Forwards (step e mem w i) →
        Translated e mem mode w.req (step e mem w i).mmu.dmmuToMem) := by
  obtain ⟨hreq, hholds, hpending⟩ := hw.level1 hstate
  have hrequest : w.request i = { w.req with dmemReqAck := false } := by
    unfold request
    rw [if_neg (by rw [hstate]; decide)]
  have hnext : Dmmu.next e w.mmu (w.dmmuIn mem i) = Dmmu.level1Step e w.mmu (w.dmmuIn mem i) := by
    unfold Dmmu.next
    rw [if_neg (by simpa [dmmuIn] using hopen), if_neg (by rw [hstate]; decide),
      if_pos (by simpa [dmmuIn] using hanswer), if_pos hstate]
  obtain ⟨hstate', hack, hregs⟩ := step_mmu hnext
  obtain ⟨hrespond, addr, haddr, hdata⟩ := answer_ack hanswer
  have hpte : (w.dmmuIn mem i).rsp.memRspRdata = e.pte₁ mem w.req.dmemAddr := by
    change (answer mem w.pending i.respond).memRspRdata = _
    rw [hdata, hpending addr haddr]
    rfl
  have hreq' : (w.dmmuIn mem i).req = { w.req with dmemReqAck := false } := hrequest
  have hspec := Dmmu.level1Step_spec (e := e) (s := w.mmu) (i := w.dmmuIn mem i)
    (by rw [hreq']; exact hreq)
    (by rw [hreq']; exact ⟨hholds.dPriv_eq, hholds.dOp_eq, hholds.dVpn0_eq, hholds.dOffset_eq⟩)
    hmode
  rw [hpte, hreq'] at hspec
  rcases hspec with ⟨hidle, hquiet⟩ | ⟨hleaf, hpermits, haligned, haccess, hforward⟩ |
    ⟨hpointer, hlevel, hholds', hload⟩
  · refine ⟨inv_of_idle (hstate'.trans hidle) (fun hne => ?_) (.inl (by rw [hrespond, Bool.or_true])),
      fun h => ?_⟩
    · exact Bool.false_ne_true (hquiet.symm.trans (hack hne).1)
    · rw [Forwards, hstate', hidle] at h
      cases h.1
  · refine ⟨inv_of_access (hstate'.trans haccess), fun h => ?_⟩
    refine ⟨megapageAddr (e.pte₁ mem w.req.dmemAddr) w.req.dmemAddr,
      translate_megapage hleaf hpermits haligned, ?_⟩
    rw [(hack h.2).2, hforward]
    rfl
  · constructor
    · refine inv_of_level2 (hstate'.trans hlevel) (by rw [hrequest]; exact hreq)
        (by rw [hrequest]; exact hregs _ hholds') (by rw [hrequest]; exact hpointer) ?_
      intro addr' haddr'
      rw [hrequest]
      rcases mem_pending_step haddr' with ⟨hsent, rfl⟩ | ⟨hclosed, -⟩
      · rw [(hack hsent).2, hload]
        rfl
      · simp [hrespond] at hclosed
    · intro h
      rw [Forwards, hstate', hlevel] at h
      cases h.1

/-- The answer to the level-2 request. -/
theorem step_of_level2 (hw : Inv e mem w) (hmode : e.dataPriv = (modePriv mode).setWidth 8)
    (hstate : w.mmu.dState = .level2) (hopen : (i.rst || i.flush) = false)
    (hanswer : (answer mem w.pending i.respond).memRspAck = true) :
    Inv e mem (step e mem w i) ∧
      (Forwards (step e mem w i) →
        Translated e mem mode w.req (step e mem w i).mmu.dmmuToMem) := by
  obtain ⟨hreq, hholds, hpointer, hpending⟩ := hw.level2 hstate
  have hrequest : w.request i = { w.req with dmemReqAck := false } := by
    unfold request
    rw [if_neg (by rw [hstate]; decide)]
  have hnext : Dmmu.next e w.mmu (w.dmmuIn mem i) = Dmmu.level2Step e w.mmu (w.dmmuIn mem i) := by
    unfold Dmmu.next
    rw [if_neg (by simpa [dmmuIn] using hopen), if_neg (by rw [hstate]; decide),
      if_pos (by simpa [dmmuIn] using hanswer), if_neg (by rw [hstate]; decide), if_pos hstate]
  obtain ⟨hstate', hack, -⟩ := step_mmu hnext
  obtain ⟨hrespond, addr, haddr, hdata⟩ := answer_ack hanswer
  have hpte : (w.dmmuIn mem i).rsp.memRspRdata = busRead mem
      (pteAddr (ppn (e.pte₁ mem w.req.dmemAddr)) (vpn0 w.req.dmemAddr)) := by
    change (answer mem w.pending i.respond).memRspRdata = _
    rw [hdata, hpending addr haddr]
    rfl
  have hreq' : (w.dmmuIn mem i).req = { w.req with dmemReqAck := false } := hrequest
  have hspec := Dmmu.level2Step_spec (e := e) (s := w.mmu) (i := w.dmmuIn mem i)
    (by rw [hreq']; exact hreq)
    (by rw [hreq']; exact ⟨hholds.dPriv_eq, hholds.dOp_eq, hholds.dVpn0_eq, hholds.dOffset_eq⟩)
    hmode
  rw [hpte, hreq'] at hspec
  rcases hspec with ⟨hidle, hquiet⟩ | ⟨hpermits, haccess, hforward⟩
  · refine ⟨inv_of_idle (hstate'.trans hidle) (fun hne => ?_) (.inl (by rw [hrespond, Bool.or_true])),
      fun h => ?_⟩
    · exact Bool.false_ne_true (hquiet.symm.trans (hack hne).1)
    · rw [Forwards, hstate', hidle] at h
      cases h.1
  · refine ⟨inv_of_access (hstate'.trans haccess), fun h => ?_⟩
    refine ⟨_, translate_page hpointer rfl hpermits, ?_⟩
    rw [(hack h.2).2, hforward]
    rfl

/-- One cycle keeps the invariant, and what a walk forwards is translated. -/
theorem step_spec (hw : Inv e mem w) (hmode : e.dataPriv = (modePriv mode).setWidth 8) :
    Inv e mem (step e mem w i) ∧
      (Walking w → Forwards (step e mem w i) →
        Translated e mem mode w.req (step e mem w i).mmu.dmmuToMem) := by
  by_cases hopen : (i.rst || i.flush) = true
  · refine ⟨inv_step_of_reset hopen, fun _ h => ?_⟩
    have hstate := (step_mmu (next_of_reset e mem w hopen)).1
    rw [Forwards, hstate] at h
    cases h.1
  have hopen : (i.rst || i.flush) = false := by simpa using hopen
  by_cases hidle : w.mmu.dState = .idle
  · refine ⟨inv_step_of_idle hw hidle hopen, fun h => ?_⟩
    rw [Walking, hidle] at h
    rcases h with h | h <;> cases h
  by_cases hanswer : (answer mem w.pending i.respond).memRspAck = true
  · cases hs : w.mmu.dState with
    | idle => exact absurd hs hidle
    | level1 =>
      obtain ⟨hinv, hforward⟩ := step_of_level1 hw hmode hs hopen hanswer
      exact ⟨hinv, fun _ => hforward⟩
    | level2 =>
      obtain ⟨hinv, hforward⟩ := step_of_level2 hw hmode hs hopen hanswer
      exact ⟨hinv, fun _ => hforward⟩
    | access =>
      have hnext : Dmmu.next e w.mmu (w.dmmuIn mem i) =
          { mmu := { w.mmu with dState := .idle, dMmuMem.dmemReqAck := false }, tlb := i.tlb } := by
        unfold Dmmu.next
        rw [if_neg (by simpa [dmmuIn] using hopen), if_neg hidle,
          if_pos (by simpa [dmmuIn] using hanswer), if_neg (by rw [hs]; decide),
          if_neg (by rw [hs]; decide)]
        rfl
      obtain ⟨hstate', hack, -⟩ := step_mmu hnext
      refine ⟨inv_of_idle hstate' (fun hne => Bool.false_ne_true (hack hne).1)
        (.inl (by rw [(answer_ack hanswer).1, Bool.or_true])), fun h => ?_⟩
      rw [Walking, hs] at h
      rcases h with h | h <;> cases h
  · obtain ⟨hinv, hquiet⟩ := inv_step_of_wait hw hidle hopen (by simpa using hanswer)
    exact ⟨hinv, fun _ h => absurd h.2 hquiet⟩

/-- The idle states from which a run may start: nothing is outstanding. -/
def Idle (w : DataWalk) : Prop := w.mmu.dState = .idle ∧ w.pending = none

theorem Idle.inv (h : Idle w) : Inv e mem w := by
  refine ⟨fun _ => h.2, fun hs => ?_, fun hs => ?_⟩
  · rw [h.1] at hs
    cases hs
  · rw [h.1] at hs
    cases hs

/-- Over every run, what a walk of the data side forwards is translated. -/
theorem translated_of_forwards {is : List DataWalkIn} (hw : Inv e mem w)
    (hmode : e.dataPriv = (modePriv mode).setWidth 8) :
    ∀ c ∈ Clocked.trace (step e mem) Prod.mk w is, Walking c.1 → Forwards (step e mem c.1 c.2) →
      Translated e mem mode c.1.req (step e mem c.1 c.2).mmu.dmmuToMem := by
  induction is generalizing w with
  | nil =>
    intro c hc
    cases hc
  | cons i is ih =>
    obtain ⟨hinv, hforward⟩ := step_spec (i := i) hw hmode
    intro c hc
    rcases List.mem_cons.mp hc with rfl | hc
    · exact hforward
    · exact ih hinv c hc

end DataWalk

end Turtle
