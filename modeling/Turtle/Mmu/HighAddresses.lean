import Mathlib.Order.CompletePartialOrder
import Turtle.Mmu.HitPath
import Turtle.Mmu.Protected
import Turtle.Mmu.Soundness

/-!
# Physical addresses beyond 32 bits

Sv32 page numbers have 22 bits and physical addresses 34. The walkers keep 20 bits of the page
number of an entry and compute every address in 32 bits, before the checks see it. So an address
from `2 ^ 32` on goes to memory at its lower 32 bits, unless the checks happen to refuse those.
This file follows each Sv32 address that a cycle of a walker reaches: the entry of the root
table, the entry that a pointer leads to, and the byte that a leaf names.
-/

namespace Turtle

open Sv32 Sv32.Pte Bits

/-! ### What a walker does with an address -/

/-- What a walker looks for at an address: a page-table entry, or the contents of the page or
the megapage with the number of a leaf entry. -/
inductive Target
  | entry
  | leaf (mega : Bool) (ppn : BitVec 22)
  deriving DecidableEq, Repr

/-- One cycle of a walker that reaches the Sv32 address `pa`. `refused` is the verdict of the
checks on its lower 32 bits, `fault` an access fault at the end of the cycle, and `sent` the
address and the size of the request that memory receives. -/
structure Translation where
  target : Target
  pa : BitVec 34
  refused : Bool
  fault : Prop
  sent : Option (BitVec 32 × ℕ)

namespace Translation

/-- The bytes of the request that memory receives. -/
def accessed (x : Translation) : Set ℕ := {b | ∃ r ∈ x.sent, b ∈ Pmp.bytes r.1 r.2}

/-- No address is truncated: from `2 ^ 32` on there is an access fault and no request, and
leaves of one size with different page numbers give access to different bytes. -/
structure Untruncated (xs : Set Translation) : Prop where
  high : ∀ x ∈ xs, 2 ^ 32 ≤ x.pa.toNat → x.fault ∧ x.sent = none
  apart : ∀ x ∈ xs, ∀ y ∈ xs, ∀ mega ppn ppn', x.target = .leaf mega ppn →
    y.target = .leaf mega ppn' → ppn ≠ ppn' → Disjoint x.accessed y.accessed

/-- The byte `b` lies in the page or the megapage with a number. -/
def InFrame (mega : Bool) (ppn : BitVec 22) (b : ℕ) : Prop :=
  match mega with
  | true => b / 4194304 = ppn.toNat / 1024 ∧ ppn.toNat % 1024 = 0
  | false => b / 4096 = ppn.toNat

/-- What the walkers guarantee: the fault is the verdict of the checks, which keeps the request
back, and a request that goes out is aligned, at the lower 32 bits of an address in its page. -/
structure Gated (x : Translation) : Prop where
  fault_iff : x.fault ↔ x.refused = true
  quiet : x.refused = true → x.sent = none
  sent_eq : ∀ r ∈ x.sent, r.1 = x.pa.setWidth 32 ∧ (r.2 = 1 ∨ r.2 = 2 ∨ r.2 = 4) ∧
    r.1.toNat % r.2 = 0
  frame : ∀ mega ppn, x.target = .leaf mega ppn → InFrame mega ppn x.pa.toNat

variable {x : Translation} {mega : Bool} {ppn ppn' : BitVec 22} {b : ℕ}

/-- Different page numbers name disjoint pages. -/
theorem InFrame.ppn_eq (hb : InFrame mega ppn b) (hc : InFrame mega ppn' b) : ppn = ppn' := by
  apply BitVec.eq_of_toNat_eq
  cases mega with
  | true =>
    obtain ⟨hb, haligned⟩ := hb
    obtain ⟨hc, haligned'⟩ := hc
    omega
  | false => exact hb.symm.trans hc

/-- A request below `2 ^ 32` stays in the page of its address. -/
theorem Gated.inFrame (hx : Gated x) (hlow : x.pa.toNat < 2 ^ 32)
    (ht : x.target = .leaf mega ppn) (hb : b ∈ x.accessed) : InFrame mega ppn b := by
  obtain ⟨⟨addr, size⟩, hsent, hfirst, hlast⟩ := hb
  obtain ⟨haddr, hsize, haligned⟩ := hx.sent_eq _ hsent
  have hframe := hx.frame _ _ ht
  have hpa : x.pa.toNat = addr.toNat := by
    change addr = _ at haddr
    rw [haddr, BitVec.toNat_setWidth, Nat.mod_eq_of_lt hlow]
  rw [hpa] at hframe
  dsimp only at hsize haligned hfirst hlast
  cases mega with
  | true =>
    obtain ⟨hframe, hstart⟩ := hframe
    refine ⟨?_, hstart⟩
    rcases hsize with rfl | rfl | rfl <;> omega
  | false =>
    change addr.toNat / 4096 = ppn.toNat at hframe
    change b / 4096 = ppn.toNat
    rcases hsize with rfl | rfl | rfl <;> omega

/-- Nothing is truncated exactly when every address fits into 32 bits or is refused. -/
theorem untruncated_iff_low_or_refused {xs : Set Translation} (hxs : ∀ x ∈ xs, Gated x) :
    Untruncated xs ↔ ∀ x ∈ xs, x.pa.toNat < 2 ^ 32 ∨ x.refused = true := by
  constructor
  · intro h x hx
    rcases lt_or_ge x.pa.toNat (2 ^ 32) with hlow | hhigh
    · exact .inl hlow
    · exact .inr ((hxs x hx).fault_iff.mp (h.high x hx hhigh).1)
  · intro h
    have hlow {x : Translation} (hx : x ∈ xs) {b : ℕ} (hb : b ∈ x.accessed) :
        x.pa.toNat < 2 ^ 32 := by
      refine (h x hx).resolve_right fun hrefused => ?_
      obtain ⟨r, hr, -⟩ := hb
      rw [(hxs x hx).quiet hrefused] at hr
      cases hr
    refine ⟨fun x hx hhigh => ?_, fun x hx y hy mega ppn ppn' htx hty hne => ?_⟩
    · have hrefused := (h x hx).resolve_left (not_lt.mpr hhigh)
      exact ⟨(hxs x hx).fault_iff.mpr hrefused, (hxs x hx).quiet hrefused⟩
    · rw [Set.disjoint_left]
      intro b hbx hby
      have hframe : InFrame mega ppn b := (hxs x hx).inFrame (hlow hx hbx) htx hbx
      have hframe' : InFrame mega ppn' b := (hxs y hy).inFrame (hlow hy hby) hty hby
      exact hne (hframe.ppn_eq hframe')

end Translation

/-! ### Leaf entries -/

/-- The address of `va` in the page or the megapage of an entry. -/
def leafAddr (x : TlbEntry) (va : BitVec 32) : BitVec 34 :=
  if x.isMegapage then megapageAddr x.pte va else pageAddr x.pte va

/-- The page or the megapage of an entry. -/
def leafTarget (x : TlbEntry) : Target := .leaf x.isMegapage (ppn x.pte)

section Leaf

variable {x : TlbEntry} (haligned : x.isMegapage = true → isAligned x.pte = true)

include haligned

/-- The address of a leaf lies in its page. -/
theorem inFrame_leafAddr (va : BitVec 32) :
    Translation.InFrame x.isMegapage (ppn x.pte) (leafAddr x va).toNat := by
  have hva := Nat.mod_lt va.toNat (show 0 < 4194304 by decide)
  unfold leafAddr
  cases hmega : x.isMegapage with
  | true =>
    have hzero := haligned hmega
    rw [isAligned, beq_iff_eq, ← BitVec.toNat_inj, BitVec.toNat_setWidth] at hzero
    rw [if_pos rfl, megapageAddr_toNat]
    refine ⟨?_, hzero⟩
    rw [ppn_toNat]
    omega
  | false =>
    rw [if_neg Bool.false_ne_true, pageAddr_toNat]
    change _ / 4096 = (ppn x.pte).toNat
    rw [ppn_toNat]
    omega

/-- The data side sends a request to the lower 32 bits. -/
theorem Dmmu.addrIn_eq (req : DmemIn) :
    Dmmu.addrIn x req = (leafAddr x req.dmemAddr).setWidth 32 := by
  unfold Dmmu.addrIn leafAddr
  cases hmega : x.isMegapage with
  | true => exact megapageAddr_eq _ _ (haligned hmega)
  | false => exact pageAddr_eq _ _

/-- The instruction side fetches the word at the lower 32 bits. -/
theorem Immu.addrIn_eq (pc : BitVec 32) :
    Immu.addrIn x pc = (leafAddr x (wordAddr pc)).setWidth 32 := by
  unfold Immu.addrIn leafAddr
  cases hmega : x.isMegapage with
  | true =>
    rw [if_pos rfl, if_pos rfl, megapageOffset_wordAddr]
    exact megapageAddr_eq _ _ (haligned hmega)
  | false =>
    rw [if_neg Bool.false_ne_true, if_neg Bool.false_ne_true, pageOffset_wordAddr]
    exact pageAddr_eq _ _

end Leaf

/-! ### The data side -/

namespace Dmmu

/-- Memory answers the load of an entry, with what the idle state latched still in place. -/
structure Answers (level : WalkState) (e : Exec) (s : Dmmu) (i : DmmuIn) : Prop where
  running : (i.rst || i.flush) = false
  state : s.dState = level
  ack : i.rsp.memRspAck = true
  holds : Holds e i.req s

/-- A leaf entry that the permission formula lets pass. -/
structure Usable (e : Exec) (req : DmemIn) (x : TlbEntry) : Prop where
  valid : x.pte &&& 1 ≠ 0
  aligned : x.isMegapage = true → isAligned x.pte = true
  permitted : leafFault e e.dataPriv (opOf req) req x.pte = false

/-- The entry that memory delivers, as a leaf. -/
def delivered (mega : Bool) (i : DmmuIn) : TlbEntry :=
  { pte := i.rsp.memRspRdata, isMegapage := mega }

/-- The Sv32 address that a cycle of the data side reaches, and what it looks for there. -/
inductive Reaches (e : Exec) (s : Dmmu) (i : DmmuIn) : Target → BitVec 34 → Prop
  | root (h : LooksUp e s i) (hmiss : (lookup e i).1.pte &&& 1 = 0) :
      Reaches e s i .entry (pteAddr e.root (vpn1 i.req.dmemAddr))
  | pointer (h : Answers .level1 e s i) (hpointer : i.rsp.memRspRdata &&& 0xFF = 1) :
      Reaches e s i .entry (pteAddr (ppn i.rsp.memRspRdata) (vpn0 i.req.dmemAddr))
  | hit (h : LooksUp e s i) (hleaf : Usable e i.req (lookup e i).1) :
      Reaches e s i (leafTarget (lookup e i).1) (leafAddr (lookup e i).1 i.req.dmemAddr)
  | megapage (h : Answers .level1 e s i) (hleaf : Usable e i.req (delivered true i)) :
      Reaches e s i (leafTarget (delivered true i)) (leafAddr (delivered true i) i.req.dmemAddr)
  | page (h : Answers .level2 e s i) (hleaf : Usable e i.req (delivered false i)) :
      Reaches e s i (leafTarget (delivered false i)) (leafAddr (delivered false i) i.req.dmemAddr)

/-- The request that looks for a target. -/
def request (req : DmemIn) (t : Target) (addr : BitVec 32) : DmemIn :=
  match t with
  | .entry => pteLoad addr
  | .leaf _ _ => forwardTo req addr

variable {e : Exec} {s : Dmmu} {i : DmmuIn} {t : Target} {pa : BitVec 34}

/-- An entry without permissions is no leaf for any request. -/
theorem perms_of_permitted {dPriv : BitVec 8} {req : DmemIn} {pte : BitVec 32}
    (h : leafFault e dPriv (opOf req) req pte = false) : pte &&& 0xFF &&& 0xE ≠ 0 := by
  rw [and_perms_ne_zero_iff]
  by_contra hnone
  simp only [not_or, Bool.not_eq_true] at hnone
  obtain ⟨hr, hw, -⟩ := hnone
  have hfour : pte &&& 4 = 0 := and_four_eq_zero_iff.mpr hw
  have hop : (1#32 <<< (opOf req).toNat) &&& pte = 0 := by
    unfold opOf
    split
    · exact (BitVec.and_comm _ _).trans (and_two_eq_zero_iff.mpr hr)
    · exact (BitVec.and_comm _ _).trans hfour
  rw [leafFault, hop, hfour] at h
  simp at h

theorem Answers.level1_eq (h : Answers .level1 e s i) : next e s i = level1Step e s i :=
  next_of_level1 h.running h.state h.ack

theorem Answers.level2_eq (h : Answers .level2 e s i) : next e s i = level2Step e s i :=
  next_of_level2 h.running h.state h.ack

/-- The end of a translation by a usable leaf. -/
theorem Usable.next_eq {n : Next} {x : TlbEntry} {req : DmemIn} {dPriv : BitVec 8} {dOp : BitVec 32}
    (hx : Usable e req x) (hends : Ends n (leafFault e dPriv dOp req x.pte) req (addrIn x req))
    (hpriv : dPriv = e.dataPriv) (hop : dOp = opOf req) : n.pageFault = false ∧
      n.mmu.dMmuMem = forwardTo req ((leafAddr x req.dmemAddr).setWidth 32) := by
  rw [hpriv, hop] at hends
  rw [← addrIn_eq hx.aligned]
  exact ⟨hends.pageFault_eq.trans hx.permitted, (hends.access hx.permitted).2⟩

/-- A cycle that reaches an address offers the checks a request at its lower 32 bits. -/
theorem Reaches.next_eq (h : Reaches e s i t pa) :
    (next e s i).pageFault = false ∧
      (next e s i).mmu.dMmuMem = request i.req t (pa.setWidth 32) := by
  cases h with
  | root h hmiss =>
    rw [h.next_eq, h.idleStep_eq, useEntry_of_invalid _ hmiss]
    exact ⟨rfl, congrArg pteLoad (rootAddr_eq _ _)⟩
  | pointer h hpointer =>
    rw [h.level1_eq, level1Step_of_pointer hpointer, h.holds.dVpn0_eq, tableAddr_eq]
    unfold level1Step
    dsimp only
    rw [if_neg (not_or.mpr ⟨pointer_valid hpointer, fun hleaf => hleaf.1 hpointer⟩),
      if_neg (not_not.mpr (pointer_has_no_perms hpointer))]
    exact ⟨rfl, rfl⟩
  | hit h hx =>
    have hends := useEntry_ends (e := e) (i := i) (d := latchRequest e s i.req) (lookup e i).2
      hx.valid
    rw [← h.idleStep_eq, ← h.next_eq] at hends
    exact hx.next_eq hends rfl rfl
  | megapage h hx =>
    have hends : Ends (level1Step e s i) _ _ _ :=
      level1Step_ends_megapage (x := delivered true i) rfl rfl hx.valid
        (perms_of_permitted hx.permitted) ((isAligned_iff _).mp (hx.aligned rfl))
    rw [h.level1_eq]
    exact hx.next_eq hends h.holds.dPriv_eq h.holds.dOp_eq
  | page h hx =>
    have hends : Ends (level2Step e s i) _ _ _ :=
      level2Step_ends (x := delivered false i) rfl rfl hx.valid h.holds.dOffset_eq
    rw [h.level2_eq]
    exact hx.next_eq hends h.holds.dPriv_eq h.holds.dOp_eq

/-- EXEC is answered with an access fault, whatever memory shows. -/
def AccessFaults (s : Dmmu) : Prop :=
  ∀ (rsp : MemOut) (req : DmemIn), (s.dmemRspComb rsp req).mmuRspAck = true ∧
    (s.dmemRspComb rsp req).mmuRspFault = (if s.dOp = 1 then ExceptionCause.loadAccessFault.code
      else ExceptionCause.storeAccessFault.code).setWidth 8

theorem accessFaults_iff : s.AccessFaults ↔
    s.dPageFault = false ∧ s.dMisalignedFault = false ∧ s.dPmpFault = true := by
  constructor
  · intro h
    have hcode := (h {} {}).2
    rw [dmemRspComb_fault_eq] at hcode
    cases hmis : s.dMisalignedFault with
    | true =>
      rw [hmis, if_pos rfl] at hcode
      split at hcode <;> exact absurd hcode (by decide)
    | false =>
      cases hpage : s.dPageFault with
      | true =>
        rw [hmis, hpage, if_neg Bool.false_ne_true, if_pos rfl] at hcode
        split at hcode <;> exact absurd hcode (by decide)
      | false =>
        cases hpmp : s.dPmpFault with
        | true => exact ⟨rfl, rfl, rfl⟩
        | false =>
          rw [hmis, hpage, hpmp, if_neg Bool.false_ne_true, if_neg Bool.false_ne_true,
            if_pos ⟨rfl, rfl⟩] at hcode
          split at hcode <;> exact absurd hcode (by decide)
  · rintro ⟨hpage, hmis, hpmp⟩ rsp req
    refine ⟨by rw [dmemRspComb_ack, hpmp, Bool.or_true, Bool.true_or, Bool.true_or], ?_⟩
    rw [dmemRspComb_fault_eq, hmis, hpage, hpmp, if_neg Bool.false_ne_true,
      if_neg Bool.false_ne_true, if_neg (by simp)]

/-- The cycle of the data side that reaches `pa`. -/
def translation (e : Exec) (s : Dmmu) (i : DmmuIn) (t : Target) (pa : BitVec 34) : Translation :=
  let asked := request i.req t (pa.setWidth 32)
  let d := (dmemReqSeq e s i).1
  { target := t, pa := pa
    refused := pmpFault e asked && !misaligned asked
    fault := d.AccessFaults
    sent := if d.dmmuToMem.dmemReqAck then some (d.dmmuToMem.dmemAddr, d.dmmuToMem.dmemSize.toNat)
      else none }

theorem request_fields {req : DmemIn} {addr : BitVec 32}
    (hsize : req.dmemSize = 1 ∨ req.dmemSize = 2 ∨ req.dmemSize = 4) :
    (request req t addr).dmemReqAck = true ∧ (request req t addr).dmemAddr = addr ∧
      ((request req t addr).dmemSize = 1 ∨ (request req t addr).dmemSize = 2 ∨
        (request req t addr).dmemSize = 4) := by
  cases t with
  | entry => exact ⟨rfl, rfl, .inr (.inr rfl)⟩
  | leaf mega ppn => exact ⟨rfl, rfl, hsize⟩

/-- A leaf that is reached names the page of the address. -/
theorem Reaches.frame (h : Reaches e s i t pa) (mega : Bool) (ppn : BitVec 22)
    (ht : t = .leaf mega ppn) : Translation.InFrame mega ppn pa.toNat := by
  cases h with
  | root => cases ht
  | pointer => cases ht
  | hit _ hleaf =>
    cases ht
    exact inFrame_leafAddr hleaf.aligned _
  | megapage _ hleaf =>
    cases ht
    exact inFrame_leafAddr hleaf.aligned _
  | page _ hleaf =>
    cases ht
    exact inFrame_leafAddr hleaf.aligned _

/-- The data side lets through what the checks pass, at the lower 32 bits. -/
theorem Reaches.gated (h : Reaches e s i t pa)
    (hsize : i.req.dmemSize = 1 ∨ i.req.dmemSize = 2 ∨ i.req.dmemSize = 4) :
    (translation e s i t pa).Gated := by
  obtain ⟨hpage, hasked⟩ := h.next_eq
  let asked := request i.req t (pa.setWidth 32)
  obtain ⟨hack, haddr, hsized⟩ := @request_fields t i.req (pa.setWidth 32) hsize
  have hpmp : (dmemReqSeq e s i).1.dPmpFault = pmpFault e asked := by
    change pmpFault e (next e s i).mmu.dMmuMem = _
    rw [hasked]
  have hmis : (dmemReqSeq e s i).1.dMisalignedFault = misaligned asked := by
    change misaligned (next e s i).mmu.dMmuMem = _
    rw [hasked]
  have hsent : (dmemReqSeq e s i).1.dmmuToMem =
      if pmpFault e asked || misaligned asked then {} else asked := by
    change (if pmpFault e (next e s i).mmu.dMmuMem || (next e s i).pageFault ||
      misaligned (next e s i).mmu.dMmuMem then _ else _) = _
    rw [hasked, hpage, Bool.or_false]
  refine ⟨?_, fun hrefused => ?_, fun r hr => ?_, h.frame⟩
  · change AccessFaults _ ↔ (pmpFault e asked && !misaligned asked) = true
    rw [accessFaults_iff, hpmp, hmis, Bool.and_eq_true, Bool.not_eq_true',
      and_iff_right (show (dmemReqSeq e s i).1.dPageFault = false from hpage), and_comm]
  · change (pmpFault e asked && !misaligned asked) = true at hrefused
    change (if (dmemReqSeq e s i).1.dmmuToMem.dmemReqAck = true then _ else none) = none
    rw [hsent, ((Bool.and_eq_true _ _).mp hrefused).1, Bool.true_or, if_pos rfl]
    rfl
  · change r ∈ (if (dmemReqSeq e s i).1.dmmuToMem.dmemReqAck = true then
      some ((dmemReqSeq e s i).1.dmmuToMem.dmemAddr,
        (dmemReqSeq e s i).1.dmmuToMem.dmemSize.toNat) else none) at hr
    rw [hsent] at hr
    by_cases hbad : (pmpFault e asked || misaligned asked) = true
    · rw [if_pos hbad] at hr
      cases hr
    · rw [if_neg hbad, if_pos hack, Option.mem_some_iff] at hr
      rw [Bool.or_eq_true, not_or, Bool.not_eq_true, Bool.not_eq_true] at hbad
      subst hr
      refine ⟨haddr, ?_, aligned_of_not_misaligned hack hsized hbad.2⟩
      rcases hsized with hs | hs | hs
      · exact .inl (congrArg BitVec.toNat hs)
      · exact .inr (.inl (congrArg BitVec.toNat hs))
      · exact .inr (.inr (congrArg BitVec.toNat hs))

theorem useEntry_refused {d : Dmmu} {x : TlbEntry} {tlb : Tlb} (hv : x.pte &&& 1 ≠ 0)
    (hbad : leafFault e d.dPriv d.dOp i.req x.pte = true) :
    (useEntry e d i.req x tlb).mmu.dMmuMem.dmemReqAck = false := by
  unfold useEntry
  dsimp only
  rw [if_pos hv, if_pos hbad]
  rfl

/-- What the idle state asks for. -/
theorem reaches_of_idleStep (hrunning : (i.rst || i.flush) = false) (hidle : s.dState = .idle)
    (haligned : (lookup e i).1.isMegapage = true → isAligned (lookup e i).1.pte = true)
    (hack : (idleStep e s i).mmu.dMmuMem.dmemReqAck = true) :
    (¬ LooksUp e s i ∧ (idleStep e s i).mmu.dMmuMem = forwardTo i.req i.req.dmemAddr) ∨
      ∃ t pa, Reaches e s i t pa := by
  have hreq : i.req.dmemReqAck = true := by
    by_contra hnone
    rw [idleStep, if_neg hnone] at hack
    cases hack
  by_cases htranslates : (satpOn (e.csrRegs Csr.satp) &&
      (e.priv == privS || e.priv == privU || e.dataPriv != 3)) = true
  · have hlooks : LooksUp e s i := ⟨hrunning, hidle, hreq, htranslates⟩
    right
    by_cases hmiss : (lookup e i).1.pte &&& 1 = 0
    · exact ⟨_, _, .root hlooks hmiss⟩
    · refine ⟨_, _, .hit hlooks ⟨hmiss, haligned, Bool.eq_false_of_not_eq_true fun hbad => ?_⟩⟩
      have hbad' : leafFault e (latchRequest e s i.req).dPriv (latchRequest e s i.req).dOp i.req
          (lookup e i).1.pte = true := hbad
      rw [hlooks.idleStep_eq, useEntry_refused hmiss hbad'] at hack
      cases hack
  · have hbare : idleStep e s i =
        { mmu := { latchRequest e s i.req with dState := .access,
                                               dMmuMem := forwardTo i.req i.req.dmemAddr },
          tlb := i.tlb } := by
      unfold idleStep
      rw [if_pos hreq]
      exact if_neg htranslates
    exact .inl ⟨fun h => htranslates h.translates, by rw [hbare]⟩

/-- What the walk asks for when the level-1 entry arrives. -/
theorem reaches_of_level1Step (h : Answers .level1 e s i)
    (hack : (level1Step e s i).mmu.dMmuMem.dmemReqAck = true) : ∃ t pa, Reaches e s i t pa := by
  unfold level1Step at hack
  dsimp only at hack
  split at hack
  · cases hack
  rename_i hok
  rw [not_or, not_and_or, not_or, not_not, not_not, Bool.not_eq_true] at hok
  obtain ⟨hvalid, hpointer | ⟨hpage, hleaf⟩⟩ := hok
  · exact ⟨_, _, .pointer h hpointer⟩
  · rw [h.holds.dPriv_eq, h.holds.dOp_eq] at hleaf
    exact ⟨_, _, .megapage h ⟨hvalid, fun _ => (isAligned_iff _).mpr hpage, hleaf⟩⟩

/-- What the walk asks for when the level-2 entry arrives. -/
theorem reaches_of_level2Step (h : Answers .level2 e s i)
    (hack : (level2Step e s i).mmu.dMmuMem.dmemReqAck = true) : ∃ t pa, Reaches e s i t pa := by
  unfold level2Step at hack
  dsimp only at hack
  split at hack
  · cases hack
  rename_i hok
  rw [not_or, Bool.not_eq_true] at hok
  obtain ⟨hvalid, hleaf⟩ := hok
  rw [h.holds.dPriv_eq, h.holds.dOp_eq] at hleaf
  exact ⟨_, _, .page h ⟨hvalid, fun hmega => absurd hmega Bool.false_ne_true, hleaf⟩⟩

/-- Nothing else goes out: a request is one that is not translated, or one of these cycles. -/
theorem reaches_of_request (hholds : s.dState ≠ .idle → Holds e i.req s)
    (haligned : (lookup e i).1.isMegapage = true → isAligned (lookup e i).1.pte = true)
    (hack : (next e s i).mmu.dMmuMem.dmemReqAck = true) :
    (¬ LooksUp e s i ∧ (next e s i).mmu.dMmuMem = forwardTo i.req i.req.dmemAddr) ∨
      ∃ t pa, Reaches e s i t pa := by
  unfold next at hack ⊢
  split at hack
  · cases hack
  rename_i hreset
  have hrunning : (i.rst || i.flush) = false := Bool.eq_false_of_not_eq_true hreset
  rw [if_neg hreset]
  split at hack
  · rename_i hidle
    rw [if_pos hidle]
    exact reaches_of_idleStep hrunning hidle haligned hack
  rename_i hbusy
  right
  split at hack
  · rename_i hrsp
    split at hack
    · exact reaches_of_level1Step ⟨hrunning, ‹_›, hrsp, hholds hbusy⟩ hack
    split at hack
    · exact reaches_of_level2Step ⟨hrunning, ‹_›, hrsp, hholds hbusy⟩ hack
    · cases hack
  · cases hack

end Dmmu

/-! ### The instruction side -/

/-- The target is the page of a leaf. -/
def Target.isLeaf : Target → Bool
  | .entry => false
  | .leaf _ _ => true

namespace Immu

/-- Memory answers the load of an entry in a cycle that takes no new address. -/
structure Answers (level : WalkState) (s : Immu) (i : ImmuIn) : Prop where
  running : (i.rst || i.flush) = false
  busy : s.immuReady i.rsp = false
  state : s.iState = level
  ack : i.rsp.memRspAck = true
  holds : Holds s

/-- A leaf entry that the permission formula lets pass. -/
structure Usable (e : Exec) (x : TlbEntry) : Prop where
  valid : x.pte &&& 1 ≠ 0
  aligned : x.isMegapage = true → isAligned x.pte = true
  permitted : leafFault e x.pte = false

/-- The entry that memory delivers, as a leaf. -/
def delivered (mega : Bool) (i : ImmuIn) : TlbEntry :=
  { pte := i.rsp.memRspRdata, isMegapage := mega }

/-- The Sv32 address that a cycle of the instruction side reaches, and what it looks for
there. -/
inductive Reaches (e : Exec) (s : Immu) (i : ImmuIn) : Target → BitVec 34 → Prop
  | root (h : LooksUp e s i) (hmiss : (lookup e s i).1.pte &&& 1 = 0) :
      Reaches e s i .entry (pteAddr e.root (vpn1 (s.lookupPc i)))
  | pointer (h : Answers .level1 s i) (hpointer : i.rsp.memRspRdata &&& 0xFF = 1) :
      Reaches e s i .entry (pteAddr (ppn i.rsp.memRspRdata) (vpn0 s.immuPc))
  | hit (h : LooksUp e s i) (hleaf : Usable e (lookup e s i).1) :
      Reaches e s i (leafTarget (lookup e s i).1)
        (leafAddr (lookup e s i).1 (wordAddr (s.lookupPc i)))
  | megapage (h : Answers .level1 s i) (hleaf : Usable e (delivered true i)) :
      Reaches e s i (leafTarget (delivered true i))
        (leafAddr (delivered true i) (wordAddr s.immuPc))
  | page (h : Answers .level2 s i) (hleaf : Usable e (delivered false i)) :
      Reaches e s i (leafTarget (delivered false i))
        (leafAddr (delivered false i) (wordAddr s.immuPc))

variable {e : Exec} {s : Immu} {i : ImmuIn} {t : Target} {pa : BitVec 34}

/-- An entry without `X` is no leaf for a fetch. -/
theorem perms_of_permitted {pte : BitVec 32} (h : leafFault e pte = false) :
    pte &&& 0xFF &&& 0xE ≠ 0 := by
  rw [and_perms_ne_zero_iff]
  refine .inr (.inr ?_)
  by_contra hx
  have height : pte &&& 8 = 0 := and_eight_eq_zero_iff.mpr (Bool.eq_false_of_not_eq_true hx)
  rw [leafFault, BitVec.and_comm, height] at h
  simp at h

theorem Answers.level1_eq (h : Answers .level1 s i) : next e s i = level1Step e s i :=
  next_of_level1 h.running h.busy h.state h.ack

theorem Answers.level2_eq (h : Answers .level2 s i) : next e s i = level2Step e s i :=
  next_of_level2 h.running h.busy h.state h.ack

/-- A cycle that reaches an address offers the checks a request at its lower 32 bits. -/
theorem Reaches.next_eq (h : Reaches e s i t pa) :
    (next e s i).pageFault = false ∧ (next e s i).isFetch = t.isLeaf ∧
      (next e s i).mmu.iMmuMem = ⟨true, pa.setWidth 32⟩ := by
  have hleaf {n : Next} {x : TlbEntry} {pc : BitVec 32}
      (hends : Ends n (leafFault e x.pte) (addrIn x pc)) (hx : Usable e x) :
      n.pageFault = false ∧ n.isFetch = true ∧
        n.mmu.iMmuMem = ⟨true, (leafAddr x (wordAddr pc)).setWidth 32⟩ := by
    rw [← addrIn_eq hx.aligned]
    exact ⟨hends.pageFault_eq.trans hx.permitted, (hends.access hx.permitted).2⟩
  cases h with
  | root h hmiss =>
    rw [h.next_eq, h.readyStep_eq, useEntry_of_invalid _ hmiss]
    exact ⟨rfl, rfl, congrArg (ImemIn.mk true) (rootAddr_eq _ _)⟩
  | pointer h hpointer =>
    rw [h.level1_eq, level1Step_of_pointer hpointer, h.holds.iVpn0_eq, tableAddr_eq]
    unfold level1Step
    dsimp only
    rw [if_neg (not_or.mpr ⟨pointer_valid hpointer, fun hleaf => hleaf.1 hpointer⟩),
      if_neg (not_not.mpr (pointer_has_no_perms hpointer))]
    exact ⟨rfl, rfl, rfl⟩
  | hit h hx =>
    have hends := useEntry_ends (e := e) (d := latchPc e s (s.lookupPc i)) (lookup e s i).2
      hx.valid rfl
    rw [← h.readyStep_eq, ← h.next_eq] at hends
    exact hleaf hends hx
  | megapage h hx =>
    rw [h.level1_eq]
    refine hleaf (level1Step_ends_megapage rfl rfl hx.valid (perms_of_permitted hx.permitted)
      ((isAligned_iff _).mp (hx.aligned rfl))) hx
  | page h hx =>
    rw [h.level2_eq]
    exact hleaf (level2Step_ends rfl rfl hx.valid h.holds.iOffset_eq) hx

/-- The fetch buffer is answered with an access fault, whatever memory shows. -/
def AccessFaults (s : Immu) : Prop :=
  ∀ rsp : MemOut, (s.imemRspComb rsp).mmuRspAck = true ∧
    (s.imemRspComb rsp).mmuRspFault = ExceptionCause.instrAccessFault.code.setWidth 8

theorem accessFaults_iff : s.AccessFaults ↔ s.iPageFault = false ∧ s.iPmpFault = true := by
  constructor
  · intro h
    have hcode := (h {}).2
    unfold imemRspComb at hcode
    cases hpage : s.iPageFault with
    | true => simp [hpage, ExceptionCause.code] at hcode
    | false =>
      cases hpmp : s.iPmpFault with
      | true => exact ⟨rfl, rfl⟩
      | false => simp [hpage, hpmp, ExceptionCause.code] at hcode
  · rintro ⟨hpage, hpmp⟩ rsp
    simp [imemRspComb, hpage, hpmp, ExceptionCause.code]

/-- The cycle of the instruction side that reaches `pa`. -/
def translation (e : Exec) (s : Immu) (i : ImmuIn) (t : Target) (pa : BitVec 34) : Translation :=
  let d := (imemReqSeq e s i).1
  { target := t, pa := pa
    refused := pmpFault e ⟨true, pa.setWidth 32⟩ t.isLeaf
    fault := d.AccessFaults
    sent := if d.immuToMem.imemReqAck then some (d.immuToMem.imemAddr, 4) else none }

/-- A leaf that is reached names the page of the address. -/
theorem Reaches.frame (h : Reaches e s i t pa) (mega : Bool) (ppn : BitVec 22)
    (ht : t = .leaf mega ppn) : Translation.InFrame mega ppn pa.toNat := by
  cases h with
  | root => cases ht
  | pointer => cases ht
  | hit _ hx =>
    cases ht
    exact inFrame_leafAddr hx.aligned _
  | megapage _ hx =>
    cases ht
    exact inFrame_leafAddr hx.aligned _
  | page _ hx =>
    cases ht
    exact inFrame_leafAddr hx.aligned _

/-- The instruction side lets through what the checks pass, at the lower 32 bits. -/
theorem Reaches.gated (h : Reaches e s i t pa) : (translation e s i t pa).Gated := by
  obtain ⟨hpage, hfetch, hasked⟩ := h.next_eq
  have hword : (pa.setWidth 32).toNat % 4 = 0 := by
    have hrequest := next_wordRequest (e := e) (s := s) (i := i)
    rw [WordRequest, hasked] at hrequest
    exact (hrequest rfl).1
  have hpmp : (imemReqSeq e s i).1.iPmpFault = pmpFault e ⟨true, pa.setWidth 32⟩ t.isLeaf := by
    change pmpFault e (next e s i).mmu.iMmuMem (next e s i).isFetch = _
    rw [hasked, hfetch]
  have hsent : (imemReqSeq e s i).1.immuToMem =
      if pmpFault e ⟨true, pa.setWidth 32⟩ t.isLeaf then {} else ⟨true, pa.setWidth 32⟩ := by
    change (if pmpFault e (next e s i).mmu.iMmuMem (next e s i).isFetch ||
      (next e s i).pageFault then _ else _) = _
    rw [hasked, hfetch, hpage, Bool.or_false]
  refine ⟨?_, fun hrefused => ?_, fun r hr => ?_, h.frame⟩
  · change AccessFaults _ ↔ pmpFault e ⟨true, pa.setWidth 32⟩ t.isLeaf = true
    rw [accessFaults_iff, hpmp,
      and_iff_right (show (imemReqSeq e s i).1.iPageFault = false from hpage)]
  · change (if (imemReqSeq e s i).1.immuToMem.imemReqAck = true then _ else none) = none
    rw [hsent, if_pos (show pmpFault e ⟨true, pa.setWidth 32⟩ t.isLeaf = true from hrefused)]
    rfl
  · change r ∈ (if (imemReqSeq e s i).1.immuToMem.imemReqAck = true then
      some ((imemReqSeq e s i).1.immuToMem.imemAddr, 4) else none) at hr
    rw [hsent] at hr
    by_cases hbad : pmpFault e ⟨true, pa.setWidth 32⟩ t.isLeaf = true
    · rw [if_pos hbad] at hr
      cases hr
    · rw [if_neg hbad, if_pos rfl, Option.mem_some_iff] at hr
      subst hr
      exact ⟨rfl, .inr (.inr rfl), hword⟩

theorem useEntry_refused {d : Immu} {pc : BitVec 32} {x : TlbEntry} {tlb : Tlb}
    (hv : x.pte &&& 1 ≠ 0) (hbad : leafFault e x.pte = true) :
    (useEntry e d pc x tlb).mmu.iMmuMem.imemReqAck = false := by
  unfold useEntry
  dsimp only
  rw [if_pos hv, if_pos hbad]
  rfl

/-- What the ready state asks for. -/
theorem reaches_of_readyStep (hrunning : (i.rst || i.flush) = false)
    (hready : s.immuReady i.rsp = true)
    (haligned : (lookup e s i).1.isMegapage = true → isAligned (lookup e s i).1.pte = true)
    (hack : (readyStep e s i).mmu.iMmuMem.imemReqAck = true) :
    (¬ LooksUp e s i ∧ (readyStep e s i).mmu.iMmuMem = ⟨true, wordAddr (s.lookupPc i)⟩) ∨
      ∃ t pa, Reaches e s i t pa := by
  by_cases htranslates :
      (satpOn (e.csrRegs Csr.satp) && (e.priv == privS || e.priv == privU)) = true
  · have hlooks : LooksUp e s i := ⟨hrunning, hready, htranslates⟩
    right
    by_cases hmiss : (lookup e s i).1.pte &&& 1 = 0
    · exact ⟨_, _, .root hlooks hmiss⟩
    · refine ⟨_, _, .hit hlooks ⟨hmiss, haligned, Bool.eq_false_of_not_eq_true fun hbad => ?_⟩⟩
      rw [hlooks.readyStep_eq, useEntry_refused hmiss hbad] at hack
      cases hack
  · have hbare : readyStep e s i =
        fetch (latchPc e s (s.lookupPc i)) (wordAddr (s.lookupPc i)) i.tlb := by
      unfold readyStep
      exact if_neg htranslates
    exact .inl ⟨fun h => htranslates h.translates, by rw [hbare]; rfl⟩

/-- What the walk asks for when the level-1 entry arrives. -/
theorem reaches_of_level1Step (h : Answers .level1 s i)
    (hack : (level1Step e s i).mmu.iMmuMem.imemReqAck = true) : ∃ t pa, Reaches e s i t pa := by
  unfold level1Step at hack
  dsimp only at hack
  split at hack
  · cases hack
  rename_i hok
  rw [not_or, not_and_or, not_or, not_not, not_not, Bool.not_eq_true] at hok
  obtain ⟨hvalid, hpointer | ⟨hpage, hleaf⟩⟩ := hok
  · exact ⟨_, _, .pointer h hpointer⟩
  · exact ⟨_, _, .megapage h ⟨hvalid, fun _ => (isAligned_iff _).mpr hpage, hleaf⟩⟩

/-- What the walk asks for when the level-2 entry arrives. -/
theorem reaches_of_level2Step (h : Answers .level2 s i)
    (hack : (level2Step e s i).mmu.iMmuMem.imemReqAck = true) : ∃ t pa, Reaches e s i t pa := by
  unfold level2Step at hack
  dsimp only at hack
  split at hack
  · cases hack
  rename_i hok
  rw [not_or, Bool.not_eq_true] at hok
  exact ⟨_, _, .page h ⟨hok.1, fun hmega => absurd hmega Bool.false_ne_true, hok.2⟩⟩

/-- Nothing else goes out: a request is one that is not translated, or one of these cycles. -/
theorem reaches_of_request (hholds : s.iState ≠ .idle → Holds s)
    (haligned : (lookup e s i).1.isMegapage = true → isAligned (lookup e s i).1.pte = true)
    (hack : (next e s i).mmu.iMmuMem.imemReqAck = true) :
    (¬ LooksUp e s i ∧ (next e s i).mmu.iMmuMem = ⟨true, wordAddr (s.lookupPc i)⟩) ∨
      ∃ t pa, Reaches e s i t pa := by
  unfold next at hack ⊢
  split at hack
  · cases hack
  rename_i hreset
  have hrunning : (i.rst || i.flush) = false := Bool.eq_false_of_not_eq_true hreset
  rw [if_neg hreset]
  split at hack
  · rename_i hready
    rw [if_pos hready]
    exact reaches_of_readyStep hrunning hready haligned hack
  rename_i hbusy
  have hbusy : s.immuReady i.rsp = false := Bool.eq_false_of_not_eq_true hbusy
  right
  split at hack
  · rename_i hrsp
    split at hack
    · rename_i hstate
      exact reaches_of_level1Step ⟨hrunning, hbusy, hstate, hrsp, hholds (by simp [hstate])⟩ hack
    split at hack
    · rename_i hstate
      exact reaches_of_level2Step ⟨hrunning, hbusy, hstate, hrsp, hholds (by simp [hstate])⟩ hack
    · cases hack
  · cases hack

end Immu

/-! ### Both sides -/

/-- A cycle of either walker that reaches an address. The registers may differ from cycle to
cycle, and the requests of EXEC have one of the three sizes. -/
inductive WalkCycle : Translation → Prop
  | data {e : Exec} {s : Dmmu} {i : DmmuIn} {t : Target} {pa : BitVec 34}
      (h : Dmmu.Reaches e s i t pa)
      (hsize : i.req.dmemSize = 1 ∨ i.req.dmemSize = 2 ∨ i.req.dmemSize = 4) :
      WalkCycle (Dmmu.translation e s i t pa)
  | fetch {e : Exec} {s : Immu} {i : ImmuIn} {t : Target} {pa : BitVec 34}
      (h : Immu.Reaches e s i t pa) : WalkCycle (Immu.translation e s i t pa)

theorem WalkCycle.gated {x : Translation} (h : WalkCycle x) : x.Gated := by
  cases h with
  | data h hsize => exact h.gated hsize
  | fetch h => exact h.gated

/-- Whatever cycles of the walkers are taken together, over any registers and page tables: no
address is truncated exactly when every one of them is below `2 ^ 32` or the checks refuse its
lower 32 bits. -/
theorem untruncated_iff (xs : Set Translation) (hxs : ∀ x ∈ xs, WalkCycle x) :
    Translation.Untruncated xs ↔ ∀ x ∈ xs, x.pa.toNat < 2 ^ 32 ∨ x.refused = true :=
  Translation.untruncated_iff_low_or_refused fun x hx => (hxs x hx).gated

/-- Page tables that map the first page to the page with a number. -/
def firstPageAt (page addr : BitVec 32) : BitVec 32 :=
  if addr = 0x80000000 then 0x20000401
  else if addr = 0x80001000 then (page <<< 10) ||| 0xcf else 0

theorem proper_of_silent : ({} : DmemIn).dmemReqAck = true → ({} : DmemIn).Proper := by decide

/-- A cycle in which memory answers and EXEC asks for nothing. -/
def answering : DataWalkIn where
  respond := true
  proper := proper_of_silent

/-- The data side when the level-2 entry of a load at `0x10` is about to arrive. -/
def beforeArrival (page : BitVec 32) : DataWalk :=
  Clocked.run (DataWalk.step supervisorExec (firstPageAt page)) {}
    [{ req := { dmemReqAck := true, dmemAddr := 0x10, dmemIsLoad := true } }, answering]

/-- The inputs with that entry. -/
def arrivalIn (page : BitVec 32) : DmmuIn :=
  (beforeArrival page).dmmuIn (firstPageAt page) answering

/-- The cycle in which the entry arrives. -/
def arrival (page : BitVec 32) : Translation :=
  Dmmu.translation supervisorExec (beforeArrival page).mmu (arrivalIn page)
    (leafTarget (Dmmu.delivered false (arrivalIn page)))
    (leafAddr (Dmmu.delivered false (arrivalIn page)) (arrivalIn page).req.dmemAddr)

theorem walkCycle_arrival_low : WalkCycle (arrival 0x80002) :=
  .data (.page ⟨by decide, by decide, by decide,
    ⟨by decide, by decide, by decide, by decide⟩⟩
    ⟨by decide, by decide, by decide⟩) (by decide)

theorem walkCycle_arrival_high : WalkCycle (arrival 0x180002) :=
  .data (.page ⟨by decide, by decide, by decide,
    ⟨by decide, by decide, by decide, by decide⟩⟩
    ⟨by decide, by decide, by decide⟩) (by decide)

/-- A load from the third page of RAM. -/
theorem untruncated_iff_low : Translation.Untruncated {arrival 0x80002} := by
  refine (untruncated_iff _ fun x hx => ?_).mpr fun x hx => ?_
  · rw [Set.mem_singleton_iff.mp hx]
    exact walkCycle_arrival_low
  · rw [Set.mem_singleton_iff.mp hx]
    exact .inl (by decide)

/-- A load from a page `2 ^ 32` bytes further on reads the same word, and a fetch whose root
table lies there reads the table at the start of RAM. -/
theorem high_page_aliases :
    ¬ Translation.Untruncated {arrival 0x180002, arrival 0x80002} ∧
    (WalkCycle (arrival 0x180002) ∧ (arrival 0x180002).target = .leaf false 0x180002 ∧
      (arrival 0x180002).pa = 0x180002010 ∧ (arrival 0x180002).sent = some (0x80002010, 4)) ∧
    (WalkCycle (arrival 0x80002) ∧ (arrival 0x80002).target = .leaf false 0x80002 ∧
      (arrival 0x80002).pa = 0x80002010 ∧ (arrival 0x80002).sent = some (0x80002010, 4)) ∧
    (let e := supervisorExec.write Csr.satp 0x80180000
     let i : ImmuIn := { fetchPc := 0, ifIdAccept := true }
     let x := Immu.translation e {} i .entry (pteAddr e.root (vpn1 (Immu.lookupPc {} i)))
     WalkCycle x ∧ x.pa = 0x180000000 ∧ x.sent = some (0x80000000, 4)) := by
  have hsent : (arrival 0x180002).sent = some (0x80002010, 4) := by decide
  have hfalse : ¬ Translation.Untruncated {arrival 0x180002, arrival 0x80002} := by
    intro h
    have hquiet := (h.high _ (Set.mem_insert _ _) (by decide)).2
    rw [hsent] at hquiet
    cases hquiet
  refine ⟨hfalse, ⟨walkCycle_arrival_high, by decide, by decide, hsent⟩,
    ⟨walkCycle_arrival_low, by decide, by decide, by decide⟩, ?_⟩
  intro e i x
  exact ⟨.fetch (.root ⟨by decide, by decide, by decide⟩ (by decide)),
    by decide, by decide⟩

end Turtle
