import Turtle.Lib.Clocked
import Turtle.Mmu.Walk

/-!
# Walks of the instruction side

The instruction side closed with memory. The word address that a walk forwards is
the one that the reference translation gives for a permitted fetch.
-/

namespace Turtle

open Sv32 Sv32.Pte

section WordAddress

variable (pc : BitVec 32)

/-- The address of the word that holds `pc`. -/
def wordAddr (pc : BitVec 32) : BitVec 32 := pc &&& ~~~3

theorem getLsbD_wordAddr {j : ℕ} (hj : 2 ≤ j) (hlt : j < 32) :
    (wordAddr pc).getLsbD j = pc.getLsbD j := by
  have hmask : (~~~(3 : BitVec 32)).getLsbD j = true := by
    rw [BitVec.getLsbD_not, show (3 : BitVec 32).getLsbD j = false from
      Nat.testBit_lt_two_pow (Nat.lt_of_lt_of_le (by decide : 3 < 2 ^ 2)
        (Nat.pow_le_pow_right (by omega) hj))]
    simp [hlt]
  rw [wordAddr, BitVec.getLsbD_and, hmask, Bool.and_true]

theorem vpn1_wordAddr : vpn1 (wordAddr pc) = vpn1 pc := by
  apply BitVec.eq_of_getLsbD_eq
  intro j hj
  simp only [vpn1, BitVec.getLsbD_setWidth, BitVec.getLsbD_ushiftRight]
  rw [getLsbD_wordAddr pc (by omega) (by omega)]

theorem vpn0_wordAddr : vpn0 (wordAddr pc) = vpn0 pc := by
  apply BitVec.eq_of_getLsbD_eq
  intro j hj
  simp only [vpn0, BitVec.getLsbD_setWidth, BitVec.getLsbD_ushiftRight]
  rw [getLsbD_wordAddr pc (by omega) (by omega)]

theorem megapageOffset_wordAddr : pc &&& 0x3FFFFC = wordAddr pc &&& 0x3FFFFF := by
  rw [wordAddr, BitVec.and_assoc, show ~~~(3 : BitVec 32) &&& 0x3FFFFF = 0x3FFFFC by decide]

theorem pageOffset_wordAddr : (pc &&& 0xFFF) &&& ~~~3 = wordAddr pc &&& 0xFFF := by
  rw [wordAddr, BitVec.and_assoc, BitVec.and_assoc, BitVec.and_comm 0xFFF]

end WordAddress

namespace Immu

/-- The members still hold what was latched from `immu_pc`. -/
structure Holds (s : Immu) : Prop where
  iVpn0_eq : s.iVpn0 = (s.immuPc >>> 12) &&& 0x3FF
  iOffset_eq : s.iOffset = s.immuPc &&& 0xFFF

variable {e : Exec} {s : Immu} {i : ImmuIn} {mode : Mode}

/-- What the ready state does: a fault, a fetch, or the start of a walk. -/
theorem readyStep_spec :
    let n := readyStep e s i
    (n.pageFault = true ∧ n.mmu.iMmuMem.imemReqAck = false) ∨
    (n.pageFault = false ∧ n.mmu.iState = .access) ∨
    (n.pageFault = false ∧ n.mmu.iState = .level1 ∧ Holds n.mmu ∧
      n.mmu.iMmuMem.imemAddr = (pteAddr e.root (vpn1 n.mmu.immuPc)).setWidth 32) := by
  intro n
  have hn : n = readyStep e s i := rfl
  unfold readyStep at hn
  dsimp only at hn
  generalize (if i.ifIdAccept = true then i.fetchPc else s.immuPc) = pc at hn
  split at hn
  · split at hn
    · split at hn
      · exact .inl ⟨by rw [hn]; rfl, by rw [hn]; rfl⟩
      · split at hn <;> exact .inr (.inl ⟨by rw [hn]; rfl, by rw [hn]; rfl⟩)
    · refine .inr (.inr ⟨by rw [hn]; rfl, by rw [hn]; rfl, ?_, ?_⟩)
      · rw [hn]
        exact ⟨rfl, rfl⟩
      · rw [hn]
        exact rootAddr_eq _ _
  · exact .inr (.inl ⟨by rw [hn]; rfl, by rw [hn]; rfl⟩)

/-- What the arrival of the level-1 entry leads to. -/
theorem level1Step_spec (hholds : Holds s) (hpriv : e.priv = modePriv mode) :
    let n := level1Step e s i
    let pte := i.rsp.memRspRdata
    n.mmu.immuPc = s.immuPc ∧
    ((n.pageFault = true ∧ n.mmu.iMmuMem.imemReqAck = false) ∨
    (isLeaf pte = true ∧ permits (e.context mode) .fetch pte = true ∧ isAligned pte = true ∧
      n.pageFault = false ∧ n.mmu.iState = .access ∧
      n.mmu.iMmuMem = ⟨true, (megapageAddr pte (wordAddr s.immuPc)).setWidth 32⟩) ∨
    (isPointer pte = true ∧ n.pageFault = false ∧ n.mmu.iState = .level2 ∧ Holds n.mmu ∧
      n.mmu.iMmuMem.imemAddr = (pteAddr (ppn pte) (vpn0 s.immuPc)).setWidth 32)) := by
  intro n pte
  have hn : n = level1Step e s i := rfl
  unfold level1Step at hn
  dsimp only at hn
  rw [hholds.iVpn0_eq] at hn
  split at hn
  · exact ⟨by rw [hn]; rfl, .inl ⟨by rw [hn]; rfl, by rw [hn]; rfl⟩⟩
  rename_i hok
  rw [not_or, and_one_eq_zero_iff, not_and_or, not_or, not_not, not_not, Bool.not_eq_true,
    Bool.not_eq_false] at hok
  obtain ⟨hv, hok⟩ := hok
  have hsort := leaf_or_pointer (c := e.context mode) (k := .fetch)
    (hok.imp_right fun h => ⟨(isAligned_iff pte).mpr h.1, permits_of_leafFault hpriv hv h.2⟩)
  split at hn
  · obtain ⟨hleaf, hpermits, haligned⟩ := hsort.1 ‹_›
    refine ⟨by rw [hn]; rfl, .inr (.inl ⟨hleaf, hpermits, haligned, by rw [hn]; rfl,
      by rw [hn]; rfl, ?_⟩)⟩
    rw [hn, ← megapageAddr_eq _ _ haligned, ← megapageOffset_wordAddr]
    rfl
  · refine ⟨by rw [hn]; rfl, .inr (.inr ⟨hsort.2 ‹_›, by rw [hn]; rfl, by rw [hn]; rfl, ?_, ?_⟩)⟩
    · rw [hn]
      exact ⟨rfl, hholds.iOffset_eq⟩
    · rw [hn, ← tableAddr_eq]
      rfl

/-- What the arrival of the level-2 entry leads to. -/
theorem level2Step_spec (hholds : Holds s) (hpriv : e.priv = modePriv mode) :
    let n := level2Step e s i
    let pte := i.rsp.memRspRdata
    n.mmu.immuPc = s.immuPc ∧
    ((n.pageFault = true ∧ n.mmu.iMmuMem.imemReqAck = false) ∨
    (permits (e.context mode) .fetch pte = true ∧ n.pageFault = false ∧ n.mmu.iState = .access ∧
      n.mmu.iMmuMem = ⟨true, (pageAddr pte (wordAddr s.immuPc)).setWidth 32⟩)) := by
  intro n pte
  have hn : n = level2Step e s i := rfl
  unfold level2Step at hn
  dsimp only at hn
  rw [hholds.iOffset_eq] at hn
  split at hn
  · exact ⟨by rw [hn]; rfl, .inl ⟨by rw [hn]; rfl, by rw [hn]; rfl⟩⟩
  · rename_i hok
    rw [not_or, and_one_eq_zero_iff, Bool.not_eq_true, Bool.not_eq_false] at hok
    refine ⟨by rw [hn]; rfl, .inr ⟨permits_of_leafFault hpriv hok.1 hok.2, by rw [hn]; rfl,
      by rw [hn]; rfl, ?_⟩⟩
    rw [hn, ← pageAddr_eq, ← pageOffset_wordAddr]
    rfl

end Immu

/-- The instruction side and the request that memory has not answered yet. -/
structure FetchWalk where
  mmu : Immu := {}
  pending : Option (BitVec 32) := none

/-- The inputs of a cycle. -/
structure FetchWalkIn where
  rst : Bool := false
  flush : Bool := false
  fetchPc : BitVec 32 := 0
  ifIdAccept : Bool := false
  respond : Bool := false
  tlb : Tlb := {}
  junk : TlbEntry := {}

namespace FetchWalk

/-- The inputs of the instruction side in a cycle. -/
def immuIn (mem : BitVec 32 → BitVec 32) (w : FetchWalk) (i : FetchWalkIn) : ImmuIn :=
  { rst := i.rst, flush := i.flush, fetchPc := i.fetchPc, ifIdAccept := i.ifIdAccept,
    rsp := answer mem w.pending i.respond, tlb := i.tlb, junk := i.junk }

/-- The address of the request that goes out to memory, if one does. -/
def sent (mmu : Immu) : Option (BitVec 32) :=
  if mmu.immuToMem.imemReqAck then some mmu.immuToMem.imemAddr else none

/-- One cycle. -/
def step (e : Exec) (mem : BitVec 32 → BitVec 32) (w : FetchWalk) (i : FetchWalkIn) : FetchWalk :=
  let mmu := (Immu.imemReqSeq e w.mmu (w.immuIn mem i)).1
  { mmu := mmu
    pending := outstanding (sent mmu) (i.rst || i.flush || i.respond) w.pending }

/-- The invariant of a walk. A registered fault makes the next cycle a ready one
whatever the state register holds. -/
structure Inv (e : Exec) (mem : BitVec 32 → BitVec 32) (w : FetchWalk) : Prop where
  ready : w.mmu.iState = .idle ∨ w.mmu.iPageFault = true ∨ w.mmu.iPmpFault = true →
    w.pending = none
  level1 : w.mmu.iState = .level1 → w.mmu.iPageFault = false → Immu.Holds w.mmu ∧
    ∀ addr ∈ w.pending, addr = (pteAddr e.root (vpn1 w.mmu.immuPc)).setWidth 32
  level2 : w.mmu.iState = .level2 → w.mmu.iPageFault = false → Immu.Holds w.mmu ∧
    isPointer (e.pte₁ mem w.mmu.immuPc) = true ∧
    ∀ addr ∈ w.pending,
      addr = (pteAddr (ppn (e.pte₁ mem w.mmu.immuPc)) (vpn0 w.mmu.immuPc)).setWidth 32

/-- A walk is under way: an entry has been requested, and the cycle does not take
a new address. -/
def Walking (mem : BitVec 32 → BitVec 32) (w : FetchWalk) (i : FetchWalkIn) : Prop :=
  (w.mmu.iState = .level1 ∨ w.mmu.iState = .level2) ∧
    w.mmu.immuReady (answer mem w.pending i.respond) = false

/-- The fetch itself goes out to memory. -/
def Forwards (w : FetchWalk) : Prop :=
  w.mmu.iState = .access ∧ w.mmu.immuToMem.imemReqAck = true

/-- The address on the bus is the one that the reference translation gives for the
word of the pc. -/
def Translated (e : Exec) (mem : BitVec 32 → BitVec 32) (mode : Mode) (pc : BitVec 32)
    (sent : ImemIn) : Prop :=
  ∃ pa, translate (e.context mode) .fetch (busRead mem) e.root (wordAddr pc) = some pa ∧
    sent = { imemReqAck := true, imemAddr := pa.setWidth 32 }

variable {e : Exec} {mem : BitVec 32 → BitVec 32} {w : FetchWalk} {i : FetchWalkIn} {mode : Mode}

theorem pte₁_wordAddr (pc : BitVec 32) : e.pte₁ mem (wordAddr pc) = e.pte₁ mem pc := by
  unfold Exec.pte₁
  rw [vpn1_wordAddr]

/-- The signals after an edge, from the first part of `imem_req_seq`. -/
theorem step_mmu {n : Immu.Next} (h : Immu.next e w.mmu (w.immuIn mem i) = n) :
    (step e mem w i).mmu.iState = n.mmu.iState ∧
    (step e mem w i).mmu.immuPc = n.mmu.immuPc ∧
    (step e mem w i).mmu.iPageFault = n.pageFault ∧
    ((step e mem w i).mmu.immuToMem.imemReqAck = true →
      n.mmu.iMmuMem.imemReqAck = true ∧ (step e mem w i).mmu.immuToMem = n.mmu.iMmuMem ∧
      (step e mem w i).mmu.iPmpFault = false) ∧
    ((step e mem w i).mmu.iPmpFault = true →
      (step e mem w i).mmu.immuToMem.imemReqAck = false) ∧
    (Immu.Holds n.mmu → Immu.Holds (step e mem w i).mmu) := by
  subst h
  refine ⟨rfl, rfl, rfl, fun hack => ?_, fun hpmp => ?_, fun h => ⟨h.iVpn0_eq, h.iOffset_eq⟩⟩
  · change (if _ then ({} : ImemIn) else _).imemReqAck = true at hack
    split at hack
    · cases hack
    · rename_i hfault
      refine ⟨hack, if_neg hfault, ?_⟩
      rw [Bool.or_eq_true, not_or, Bool.not_eq_true] at hfault
      exact hfault.1
  · change (if _ then ({} : ImemIn) else _).imemReqAck = false
    rw [if_pos (by
      rw [Bool.or_eq_true]
      exact .inl hpmp)]

theorem mem_pending_step {addr : BitVec 32} (h : addr ∈ (step e mem w i).pending) :
    ((step e mem w i).mmu.immuToMem.imemReqAck = true ∧
      addr = (step e mem w i).mmu.immuToMem.imemAddr) ∨
    ((i.rst || i.flush || i.respond) = false ∧ addr ∈ w.pending) := mem_outstanding h

theorem pending_step_eq_none (hack : (step e mem w i).mmu.immuToMem.imemReqAck = false)
    (hclosed : (i.rst || i.flush || i.respond) = true ∨ w.pending = none) :
    (step e mem w i).pending = none := outstanding_eq_none hack hclosed

/-- A ready cycle finds nothing outstanding, or an answer. -/
theorem closed_of_ready (hw : Inv e mem w)
    (hready : w.mmu.immuReady (answer mem w.pending i.respond) = true) :
    (i.rst || i.flush || i.respond) = true ∨ w.pending = none := by
  by_cases hanswer : (answer mem w.pending i.respond).memRspAck = true
  · exact .inl (by rw [(answer_ack hanswer).1, Bool.or_true])
  · have hfault : (answer mem w.pending i.respond).memRspFault = 0 := by
      unfold answer
      split
      · split <;> rfl
      · rfl
    refine .inr (hw.ready ?_)
    have hack : (w.mmu.imemRspComb (answer mem w.pending i.respond)).mmuRspAck =
        (w.mmu.iPageFault || w.mmu.iPmpFault) := by
      unfold Immu.imemRspComb
      dsimp only
      split_ifs <;> simp_all
    rw [Immu.immuReady, hack] at hready
    simp only [Bool.or_eq_true, beq_iff_eq] at hready
    tauto

/-- The invariant after a cycle that ends in a registered page fault. -/
theorem inv_of_pageFault (hfault : (step e mem w i).mmu.iPageFault = true)
    (hpending : (step e mem w i).pending = none) : Inv e mem (step e mem w i) := by
  refine ⟨fun _ => hpending, fun _ h => ?_, fun _ h => ?_⟩ <;>
    · rw [hfault] at h
      cases h

/-- The invariant after a cycle that ends in the access state. -/
theorem inv_of_access (hstate : (step e mem w i).mmu.iState = .access)
    (hfault : (step e mem w i).mmu.iPageFault = false)
    (hpending : (step e mem w i).mmu.iPmpFault = true → (step e mem w i).pending = none) :
    Inv e mem (step e mem w i) := by
  refine ⟨fun h => ?_, fun h => ?_, fun h => ?_⟩
  · rcases h with h | h | h
    · rw [hstate] at h
      cases h
    · rw [hfault] at h
      cases h
    · exact hpending h
  · rw [hstate] at h
    cases h
  · rw [hstate] at h
    cases h

/-- A reset or a flush ends the walk. -/
theorem inv_step_of_reset (e : Exec) (mem : BitVec 32 → BitVec 32) (w : FetchWalk)
    (h : (i.rst || i.flush) = true) :
    Inv e mem (step e mem w i) ∧ (step e mem w i).mmu.iState = .idle := by
  have hnext : Immu.next e w.mmu (w.immuIn mem i) = Immu.reset w.mmu i.tlb := if_pos h
  obtain ⟨hstate, -, -, hack, -, -⟩ := step_mmu hnext
  have hquiet : (step e mem w i).mmu.immuToMem.imemReqAck = false := by
    by_contra hne
    exact Bool.false_ne_true (hack (by simpa using hne)).1
  refine ⟨⟨fun _ => pending_step_eq_none hquiet (.inl (by rw [h, Bool.true_or])), fun hs => ?_,
    fun hs => ?_⟩, hstate⟩
  · rw [hstate] at hs
    cases hs
  · rw [hstate] at hs
    cases hs

/-- A ready cycle. -/
theorem inv_step_of_ready (hw : Inv e mem w) (hopen : (i.rst || i.flush) = false)
    (hready : w.mmu.immuReady (answer mem w.pending i.respond) = true) :
    Inv e mem (step e mem w i) := by
  have hnext : Immu.next e w.mmu (w.immuIn mem i) = Immu.readyStep e w.mmu (w.immuIn mem i) := by
    unfold Immu.next
    rw [if_neg (by simpa [immuIn] using hopen), if_pos (by simpa [immuIn] using hready)]
  have hclosed := closed_of_ready hw hready
  obtain ⟨hstate, hpc, hfault, hack, hpmp, hregs⟩ := step_mmu hnext
  rcases Immu.readyStep_spec (e := e) (s := w.mmu) (i := w.immuIn mem i) with
    ⟨hpage, hquiet⟩ | ⟨hpage, haccess⟩ | ⟨hpage, hlevel, hholds, haddr⟩
  · refine inv_of_pageFault (hfault.trans hpage) (pending_step_eq_none ?_ hclosed)
    by_contra hne
    exact Bool.false_ne_true (hquiet.symm.trans (hack (by simpa using hne)).1)
  · exact inv_of_access (hstate.trans haccess) (hfault.trans hpage)
      fun h => pending_step_eq_none (hpmp h) hclosed
  · refine ⟨fun h => ?_, fun _ _ => ⟨hregs hholds, fun addr hmem => ?_⟩, fun h => ?_⟩
    · rcases h with h | h | h
      · rw [hstate, hlevel] at h
        cases h
      · rw [hfault, hpage] at h
        cases h
      · exact pending_step_eq_none (hpmp h) hclosed
    · rcases mem_pending_step hmem with ⟨hsent, rfl⟩ | ⟨hnotclosed, hold⟩
      · rw [(hack hsent).2.1, haddr, hpc]
      · rcases hclosed with h | h
        · exact absurd (hnotclosed.symm.trans h) Bool.false_ne_true
        · rw [h] at hold
          cases hold
    · rw [hstate, hlevel] at h
      cases h

/-- A cycle that is not ready registers no fault and is not idle; an answer in it
belongs to a walk. -/
theorem of_not_ready (h : w.mmu.immuReady (answer mem w.pending i.respond) = false) :
    w.mmu.iState ≠ .idle ∧ w.mmu.iPageFault = false ∧
      ((answer mem w.pending i.respond).memRspAck = true → w.mmu.iState ≠ .access) := by
  unfold Immu.immuReady Immu.imemRspComb at h
  dsimp only at h
  split_ifs at h <;> simp_all
  intro hack haccess
  exact absurd (hack.symm.trans (h.1 (.inl haccess))) (by decide)

/-- A cycle that is not ready and has no answer changes nothing. -/
theorem inv_step_of_wait (hw : Inv e mem w) (hopen : (i.rst || i.flush) = false)
    (hready : w.mmu.immuReady (answer mem w.pending i.respond) = false)
    (hwait : (answer mem w.pending i.respond).memRspAck = false) :
    Inv e mem (step e mem w i) ∧ (step e mem w i).mmu.immuToMem.imemReqAck = false := by
  have hnext : Immu.next e w.mmu (w.immuIn mem i) =
      { mmu := { w.mmu with iMmuMem.imemReqAck := false }, tlb := i.tlb } := by
    unfold Immu.next
    rw [if_neg (by simpa [immuIn] using hopen), if_neg (by simpa [immuIn] using hready),
      if_neg (by simpa [immuIn] using hwait)]
    rfl
  obtain ⟨hidle, hnofault, -⟩ := of_not_ready hready
  obtain ⟨hstate, hpc, hfault, hack, -, hregs⟩ := step_mmu hnext
  have hquiet : (step e mem w i).mmu.immuToMem.imemReqAck = false := by
    by_contra hne
    exact Bool.false_ne_true (hack (by simpa using hne)).1
  have hnopmp : (step e mem w i).mmu.iPmpFault = false := by
    change Immu.pmpFault e (Immu.next e w.mmu (w.immuIn mem i)).mmu.iMmuMem _ = false
    rw [hnext]
    rfl
  have hold {addr : BitVec 32} (haddr : addr ∈ (step e mem w i).pending) : addr ∈ w.pending := by
    rcases mem_pending_step haddr with ⟨hsent, -⟩ | ⟨-, h⟩
    · exact absurd (hquiet.symm.trans hsent) Bool.false_ne_true
    · exact h
  refine ⟨⟨fun h => ?_, fun hs _ => ?_, fun hs _ => ?_⟩, hquiet⟩
  · rcases h with h | h | h
    · exact absurd (hstate.symm.trans h) hidle
    · rw [hfault] at h
      cases h
    · rw [hnopmp] at h
      cases h
  · obtain ⟨hholds, hpending⟩ := hw.level1 (hstate.symm.trans hs) hnofault
    refine ⟨hregs ⟨hholds.iVpn0_eq, hholds.iOffset_eq⟩, fun addr haddr => ?_⟩
    rw [hpc]
    exact hpending addr (hold haddr)
  · obtain ⟨hholds, hpointer, hpending⟩ := hw.level2 (hstate.symm.trans hs) hnofault
    refine ⟨hregs ⟨hholds.iVpn0_eq, hholds.iOffset_eq⟩, by rw [hpc]; exact hpointer,
      fun addr haddr => ?_⟩
    rw [hpc]
    exact hpending addr (hold haddr)

/-- The answer to the level-1 request. -/
theorem step_of_level1 (hw : Inv e mem w) (hpriv : e.priv = modePriv mode)
    (hs : w.mmu.iState = .level1) (hopen : (i.rst || i.flush) = false)
    (hready : w.mmu.immuReady (answer mem w.pending i.respond) = false)
    (hanswer : (answer mem w.pending i.respond).memRspAck = true) :
    Inv e mem (step e mem w i) ∧
      (Forwards (step e mem w i) →
        Translated e mem mode w.mmu.immuPc (step e mem w i).mmu.immuToMem) := by
  obtain ⟨hholds, hpending⟩ := hw.level1 hs (of_not_ready hready).2.1
  have hnext : Immu.next e w.mmu (w.immuIn mem i) = Immu.level1Step e w.mmu (w.immuIn mem i) := by
    unfold Immu.next
    rw [if_neg (by simpa [immuIn] using hopen), if_neg (by simpa [immuIn] using hready),
      if_pos (by simpa [immuIn] using hanswer), if_pos hs]
  obtain ⟨hstate, hpc, hfault, hack, hpmp, hregs⟩ := step_mmu hnext
  obtain ⟨hrespond, addr, haddr, hdata⟩ := answer_ack hanswer
  have hclosed : (i.rst || i.flush || i.respond) = true ∨ w.pending = none :=
    .inl (by rw [hrespond, Bool.or_true])
  have hpte : (w.immuIn mem i).rsp.memRspRdata = e.pte₁ mem w.mmu.immuPc := by
    change (answer mem w.pending i.respond).memRspRdata = _
    rw [hdata, hpending addr haddr]
    rfl
  have hspec := Immu.level1Step_spec (i := w.immuIn mem i) hholds hpriv
  rw [hpte] at hspec
  obtain ⟨hkeep, ⟨hpage, hquiet⟩ | ⟨hleaf, hpermits, haligned, hpage, haccess, hforward⟩ |
    ⟨hpointer, hpage, hlevel, hholds', hload⟩⟩ := hspec
  · constructor
    · refine inv_of_pageFault (hfault.trans hpage) (pending_step_eq_none ?_ hclosed)
      by_contra hne
      exact Bool.false_ne_true (hquiet.symm.trans (hack (by simpa using hne)).1)
    · intro h
      exact absurd (hquiet.symm.trans (hack h.2).1) Bool.false_ne_true
  · refine ⟨inv_of_access (hstate.trans haccess) (hfault.trans hpage)
      fun h => pending_step_eq_none (hpmp h) hclosed, fun h => ?_⟩
    have hword : e.pte₁ mem (wordAddr w.mmu.immuPc) = e.pte₁ mem w.mmu.immuPc := pte₁_wordAddr _
    rw [← hword] at hleaf hpermits haligned
    refine ⟨_, translate_megapage hleaf hpermits haligned, ?_⟩
    rw [(hack h.2).2.1, hforward, hword]
  · constructor
    · refine ⟨fun h => ?_, fun h => ?_, fun _ _ => ⟨hregs hholds', ?_, fun addr' hmem => ?_⟩⟩
      · rcases h with h | h | h
        · rw [hstate, hlevel] at h
          cases h
        · rw [hfault, hpage] at h
          cases h
        · exact pending_step_eq_none (hpmp h) hclosed
      · rw [hstate, hlevel] at h
        cases h
      · rw [hpc, hkeep]
        exact hpointer
      · rcases mem_pending_step hmem with ⟨hsent, rfl⟩ | ⟨hnotclosed, -⟩
        · rw [(hack hsent).2.1, hload, hpc, hkeep]
        · simp [hrespond] at hnotclosed
    · intro h
      rw [Forwards, hstate, hlevel] at h
      cases h.1

/-- The answer to the level-2 request. -/
theorem step_of_level2 (hw : Inv e mem w) (hpriv : e.priv = modePriv mode)
    (hs : w.mmu.iState = .level2) (hopen : (i.rst || i.flush) = false)
    (hready : w.mmu.immuReady (answer mem w.pending i.respond) = false)
    (hanswer : (answer mem w.pending i.respond).memRspAck = true) :
    Inv e mem (step e mem w i) ∧
      (Forwards (step e mem w i) →
        Translated e mem mode w.mmu.immuPc (step e mem w i).mmu.immuToMem) := by
  obtain ⟨hholds, hpointer, hpending⟩ := hw.level2 hs (of_not_ready hready).2.1
  have hnext : Immu.next e w.mmu (w.immuIn mem i) = Immu.level2Step e w.mmu (w.immuIn mem i) := by
    unfold Immu.next
    rw [if_neg (by simpa [immuIn] using hopen), if_neg (by simpa [immuIn] using hready),
      if_pos (by simpa [immuIn] using hanswer), if_neg (by rw [hs]; decide), if_pos hs]
  obtain ⟨hstate, hpc, hfault, hack, hpmp, -⟩ := step_mmu hnext
  obtain ⟨hrespond, addr, haddr, hdata⟩ := answer_ack hanswer
  have hclosed : (i.rst || i.flush || i.respond) = true ∨ w.pending = none :=
    .inl (by rw [hrespond, Bool.or_true])
  have hpte : (w.immuIn mem i).rsp.memRspRdata = busRead mem
      (pteAddr (ppn (e.pte₁ mem w.mmu.immuPc)) (vpn0 w.mmu.immuPc)) := by
    change (answer mem w.pending i.respond).memRspRdata = _
    rw [hdata, hpending addr haddr]
    rfl
  have hspec := Immu.level2Step_spec (i := w.immuIn mem i) hholds hpriv
  rw [hpte] at hspec
  obtain ⟨-, ⟨hpage, hquiet⟩ | ⟨hpermits, hpage, haccess, hforward⟩⟩ := hspec
  · constructor
    · refine inv_of_pageFault (hfault.trans hpage) (pending_step_eq_none ?_ hclosed)
      by_contra hne
      exact Bool.false_ne_true (hquiet.symm.trans (hack (by simpa using hne)).1)
    · intro h
      exact absurd (hquiet.symm.trans (hack h.2).1) Bool.false_ne_true
  · refine ⟨inv_of_access (hstate.trans haccess) (hfault.trans hpage)
      fun h => pending_step_eq_none (hpmp h) hclosed, fun h => ?_⟩
    have hword : e.pte₁ mem (wordAddr w.mmu.immuPc) = e.pte₁ mem w.mmu.immuPc := pte₁_wordAddr _
    rw [← hword] at hpointer
    rw [← hword, ← vpn0_wordAddr] at hpermits
    refine ⟨_, translate_page hpointer rfl hpermits, ?_⟩
    rw [(hack h.2).2.1, hforward, hword, vpn0_wordAddr]

/-- One cycle keeps the invariant, and what a walk forwards is translated. -/
theorem step_spec (hw : Inv e mem w) (hpriv : e.priv = modePriv mode) :
    Inv e mem (step e mem w i) ∧
      (Walking mem w i → Forwards (step e mem w i) →
        Translated e mem mode w.mmu.immuPc (step e mem w i).mmu.immuToMem) := by
  by_cases hopen : (i.rst || i.flush) = true
  · obtain ⟨hinv, hidle⟩ := inv_step_of_reset e mem w hopen
    refine ⟨hinv, fun _ h => ?_⟩
    rw [Forwards, hidle] at h
    cases h.1
  have hopen : (i.rst || i.flush) = false := by simpa using hopen
  by_cases hready : w.mmu.immuReady (answer mem w.pending i.respond) = true
  · refine ⟨inv_step_of_ready hw hopen hready, fun h => ?_⟩
    exact absurd (h.2.symm.trans hready) Bool.false_ne_true
  have hready : w.mmu.immuReady (answer mem w.pending i.respond) = false := by simpa using hready
  by_cases hanswer : (answer mem w.pending i.respond).memRspAck = true
  · obtain ⟨hidle, -, haccess⟩ := of_not_ready hready
    cases hs : w.mmu.iState with
    | idle => exact absurd hs hidle
    | access => exact absurd hs (haccess hanswer)
    | level1 =>
      obtain ⟨hinv, hforward⟩ := step_of_level1 hw hpriv hs hopen hready hanswer
      exact ⟨hinv, fun _ => hforward⟩
    | level2 =>
      obtain ⟨hinv, hforward⟩ := step_of_level2 hw hpriv hs hopen hready hanswer
      exact ⟨hinv, fun _ => hforward⟩
  · obtain ⟨hinv, hquiet⟩ := inv_step_of_wait hw hopen hready (by simpa using hanswer)
    exact ⟨hinv, fun _ h => absurd (hquiet.symm.trans h.2) Bool.false_ne_true⟩

/-- The idle states from which a run may start: nothing is outstanding. -/
def Idle (w : FetchWalk) : Prop := w.mmu.iState = .idle ∧ w.pending = none

theorem Idle.inv (h : Idle w) : Inv e mem w := by
  refine ⟨fun _ => h.2, fun hs => ?_, fun hs => ?_⟩
  · rw [h.1] at hs
    cases hs
  · rw [h.1] at hs
    cases hs

/-- Over every run, what a walk of the instruction side forwards is translated. -/
theorem translated_of_forwards {is : List FetchWalkIn} (hw : Inv e mem w)
    (hpriv : e.priv = modePriv mode) :
    ∀ c ∈ Clocked.trace (step e mem) Prod.mk w is, Walking mem c.1 c.2 →
      Forwards (step e mem c.1 c.2) →
      Translated e mem mode c.1.mmu.immuPc (step e mem c.1 c.2).mmu.immuToMem := by
  induction is generalizing w with
  | nil =>
    intro c hc
    cases hc
  | cons i is ih =>
    obtain ⟨hinv, hforward⟩ := step_spec (i := i) hw hpriv
    intro c hc
    rcases List.mem_cons.mp hc with rfl | hc
    · exact hforward
    · exact ih hinv c hc

end FetchWalk

end Turtle
