import Turtle.AddressSpaces

/-!
# The TLB agrees with the page tables

With one `satp` and page tables that do not change, every entry that the two
walkers store is the leaf that the tables hold for each address of its page.
-/

namespace Turtle

/-- The address of the level-1 entry for `va`, as both walkers compute it. -/
def level1Addr (satp va : BitVec 32) : BitVec 32 :=
  ((satp &&& 0x003FFFFF) <<< 12) + ((va >>> 22) &&& 0x3FF) * 4

/-- The address of the level-2 entry for `va` below the level-1 entry `pte`. -/
def level2Addr (pte va : BitVec 32) : BitVec 32 :=
  (((pte >>> 10) &&& 0xFFFFF) <<< 12) + ((va >>> 12) &&& 0x3FF) * 4

/-- The entry is the leaf that the tables hold for `va`: an aligned leaf at level 1,
or the entry that a pointer at level 1 leads to. -/
def LeafFor (satp : BitVec 32) (mem : BitVec 32 → BitVec 32) (x : TlbEntry) (va : BitVec 32) :
    Prop :=
  let pte₁ := mem (level1Addr satp va)
  x.pte &&& 1 ≠ 0 ∧
    if x.isMegapage then
      x.pte = pte₁ ∧ (pte₁ &&& 0xFF) &&& 0xE ≠ 0 ∧ ((pte₁ >>> 10) &&& 0xFFFFF) &&& 0x3FF = 0
    else pte₁ &&& 0xFF = 1 ∧ x.pte = mem (level2Addr pte₁ va)

/-- Every valid entry is the leaf for each address it contains. -/
def Coherent (satp : BitVec 32) (mem : BitVec 32 → BitVec 32) (t : Tlb) : Prop :=
  ∀ x ∈ t.table, x.valid = true → ∀ va, x.Covers va → LeafFor satp mem x va

variable {satp : BitVec 32} {mem : BitVec 32 → BitVec 32} {t : Tlb} {va va' pte : BitVec 32}

/-! ### Coherence of single calls -/

theorem coherent_empty : Coherent satp mem {} := by
  intro x hx hvalid
  rw [List.eq_of_mem_replicate hx] at hvalid
  cases hvalid

theorem Coherent.find (h : Coherent satp mem t) (junk : TlbEntry) (asid vpn : BitVec 32) :
    Coherent satp mem (t.find junk asid vpn).2 :=
  fun x hx => h x (Tlb.mem_of_mem_find hx)

/-- An address in the page of a stored entry walks as the stored address does. -/
theorem walk_eq_of_covers {mega : Bool} {s : BitVec 32}
    (h : (Tlb.stored s va pte mega).Covers va') :
    va' >>> 22 = va >>> 22 ∧ (mega = false → va' >>> 12 = va >>> 12) := by
  obtain ⟨hhigh, hlow⟩ := h
  rw [Tlb.stored_vpn] at hhigh hlow
  have hshift : ∀ (w : BitVec 32) (n : ℕ), (w >>> n).toNat = w.toNat / 2 ^ n := by
    intro w n
    rw [BitVec.toNat_ushiftRight, Nat.shiftRight_eq_div_pow]
  cases mega with
  | true =>
    refine ⟨BitVec.eq_of_toNat_eq ?_, nofun⟩
    rw [if_pos rfl] at hhigh
    rw [hshift, hshift]
    omega
  | false =>
    have hlow := hlow.resolve_left nofun
    rw [if_neg Bool.false_ne_true] at hhigh hlow
    refine ⟨BitVec.eq_of_toNat_eq ?_, fun _ => BitVec.eq_of_toNat_eq ?_⟩
    · rw [hshift, hshift]
      omega
    · rw [hshift, hshift]
      omega

/-- Storing the leaf of an address keeps the table coherent. -/
theorem Coherent.store {mega : Bool} {s : BitVec 32} (h : Coherent satp mem t)
    (hleaf : LeafFor satp mem (Tlb.stored s va pte mega) va) :
    Coherent satp mem (t.store (tlbTag s) (va >>> 12) pte mega) := by
  intro x hx hvalid va' hcovers
  rcases Tlb.mem_of_mem_store hx with rfl | hx
  · obtain ⟨hhigh, hlow⟩ := walk_eq_of_covers hcovers
    have haddr : level1Addr satp va' = level1Addr satp va := by rw [level1Addr, hhigh]; rfl
    unfold LeafFor at hleaf ⊢
    rw [haddr]
    cases mega with
    | true => exact hleaf
    | false =>
      have haddr' : level2Addr (mem (level1Addr satp va)) va' =
          level2Addr (mem (level1Addr satp va)) va := by
        unfold level2Addr
        rw [hlow rfl]
      dsimp only at hleaf ⊢
      rw [haddr']
      exact hleaf
  · exact h x hx hvalid va' hcovers

/-- The part of an entry that both walkers sort by. -/
theorem perms_clear (h : (pte &&& 0xFF) &&& 0xE = 0) :
    pte &&& 2 = 0 ∧ pte &&& 4 = 0 ∧ pte &&& 8 = 0 := by
  have hpart : ∀ m : BitVec 32, ((0xFF &&& 0xE) &&& m : BitVec 32) = m → pte &&& m = 0 := by
    intro m hm
    rw [BitVec.and_assoc] at h
    rw [← hm, ← BitVec.and_assoc, h]
    exact BitVec.zero_and
  exact ⟨hpart 2 (by decide), hpart 4 (by decide), hpart 8 (by decide)⟩

theorem pointer_has_no_perms (h : pte &&& 0xFF = 1) : (pte &&& 0xFF) &&& 0xE = 0 := by
  rw [h]
  decide

theorem pointer_valid (h : pte &&& 0xFF = 1) : pte &&& 1 ≠ 0 := by
  have hpart : (pte &&& 0xFF) &&& 1 = pte &&& 1 := by rw [BitVec.and_assoc]; rfl
  rw [← hpart, h]
  decide

/-- What a level-1 entry can be when it is no fault: an aligned leaf or a pointer. -/
theorem level1_cases {fault : Bool} (hpointless : (pte &&& 0xFF) &&& 0xE = 0 → fault = true)
    (hok : ¬ (pte &&& 1 = 0 ∨ (pte &&& 0xFF ≠ 1 ∧
      (((pte >>> 10) &&& 0xFFFFF) &&& 0x3FF ≠ 0 ∨ fault = true)))) :
    pte &&& 1 ≠ 0 ∧
    ((pte &&& 0xFF) &&& 0xE ≠ 0 → ((pte >>> 10) &&& 0xFFFFF) &&& 0x3FF = 0) ∧
    ((pte &&& 0xFF) &&& 0xE = 0 → pte &&& 0xFF = 1) := by
  rw [not_or, not_and_or, not_or, not_not, not_not] at hok
  obtain ⟨hv, hkind⟩ := hok
  refine ⟨hv, fun hperms => ?_, fun hperms => ?_⟩
  · rcases hkind with hpointer | hleaf
    · exact absurd (pointer_has_no_perms hpointer) hperms
    · exact hleaf.1
  · rcases hkind with hpointer | hleaf
    · exact hpointer
    · exact absurd (hpointless hperms) hleaf.2

/-! ### The data walker -/

namespace Dmmu

variable {e : Exec} {s : Dmmu} {i : DmmuIn}

/-- The members still hold the address of the request. -/
structure Walks (satp : BitVec 32) (req : DmemIn) (s : Dmmu) : Prop where
  dSatp_eq : s.dSatp = satp
  dOp_eq : s.dOp = 1 ∨ s.dOp = 2
  dVpn0_eq : s.dVpn0 = (req.dmemAddr >>> 12) &&& 0x3FF
  dOffset_eq : s.dOffset = req.dmemAddr &&& 0xFFF

theorem walks_latchRequest (e : Exec) (s : Dmmu) (req : DmemIn) :
    Walks (e.csrRegs Csr.satp) req (latchRequest e s req) := by
  refine ⟨rfl, ?_, rfl, rfl⟩
  unfold latchRequest
  dsimp only
  split
  · exact .inl rfl
  · exact .inr rfl

/-- An entry without permissions is a fault for every request. -/
theorem leafFault_of_no_perms (e : Exec) (p : BitVec 8) {op : BitVec 32} (req : DmemIn)
    (hop : op = 1 ∨ op = 2) (h : (pte &&& 0xFF) &&& 0xE = 0) :
    leafFault e p op req pte = true := by
  obtain ⟨hr, hw, -⟩ := perms_clear h
  have hfirst : ((1#32 <<< op.toNat) &&& pte == 0 &&
      (op != 1 || e.mxr == 0 || pte &&& 4 == 0)) = true := by
    rcases hop with rfl | rfl
    · have hbit : (1#32 <<< (1 : BitVec 32).toNat) &&& pte = 0 := by rw [BitVec.and_comm]; exact hr
      rw [hbit, hw, beq_self_eq_true, Bool.or_true, Bool.and_true]
    · have hbit : (1#32 <<< (2 : BitVec 32).toNat) &&& pte = 0 := by rw [BitVec.and_comm]; exact hw
      rw [hbit]
      rfl
  unfold leafFault
  simp only [hfirst, Bool.true_or]

/-- The outcomes of the level-1 entry, with the store that goes with each. -/
theorem level1Step_cases (hop : s.dOp = 1 ∨ s.dOp = 2) :
    let pte := i.rsp.memRspRdata
    let n := level1Step e s i
    (n.mmu.dState = .idle ∧ n.tlb = i.tlb) ∨
    (n.mmu.dState = .access ∧ pte &&& 1 ≠ 0 ∧ (pte &&& 0xFF) &&& 0xE ≠ 0 ∧
      ((pte >>> 10) &&& 0xFFFFF) &&& 0x3FF = 0 ∧
      n.tlb = i.tlb.store (tlbTag s.dSatp) (i.req.dmemAddr >>> 12) pte true) ∨
    (n.mmu.dState = .level2 ∧ pte &&& 0xFF = 1 ∧ n.tlb = i.tlb ∧
      n.mmu = { s with
        dPte := pte, dPpn := (pte >>> 10) &&& 0xFFFFF, dState := .level2,
        dMmuMem := pteLoad ((((pte >>> 10) &&& 0xFFFFF) <<< 12) + s.dVpn0 * 4) }) := by
  intro pte n
  have hn : n = level1Step e s i := rfl
  unfold level1Step at hn
  dsimp only at hn
  split_ifs at hn with hfault hperms
  · exact .inl ⟨by rw [hn]; rfl, by rw [hn]; rfl⟩
  · obtain ⟨hv, haligned, -⟩ := level1_cases (leafFault_of_no_perms e s.dPriv i.req hop) hfault
    exact .inr (.inl ⟨by rw [hn], hv, hperms, haligned hperms, by rw [hn]; rfl⟩)
  · obtain ⟨-, -, hpointer⟩ := level1_cases (leafFault_of_no_perms e s.dPriv i.req hop) hfault
    exact .inr (.inr ⟨by rw [hn], hpointer (not_not.mp hperms), by rw [hn], by rw [hn]⟩)

/-- The outcomes of the level-2 entry. -/
theorem level2Step_cases (e : Exec) (s : Dmmu) (i : DmmuIn) :
    let pte := i.rsp.memRspRdata
    let n := level2Step e s i
    (n.mmu.dState = .idle ∧ n.tlb = i.tlb) ∨
    (n.mmu.dState = .access ∧ pte &&& 1 ≠ 0 ∧
      n.tlb = i.tlb.store (tlbTag s.dSatp) (i.req.dmemAddr >>> 12) pte false) := by
  intro pte n
  have hn : n = level2Step e s i := rfl
  unfold level2Step at hn
  dsimp only at hn
  split_ifs at hn with hfault
  · exact .inl ⟨by rw [hn]; rfl, by rw [hn]; rfl⟩
  · exact .inr ⟨by rw [hn], (not_or.mp hfault).1, by rw [hn]; rfl⟩

/-- Where a walk for `req` stands: which entry it asked for, and what it found. -/
structure WalkInv (satp : BitVec 32) (mem : BitVec 32 → BitVec 32) (req : DmemIn) (s : Dmmu) :
    Prop where
  level1 : s.dState = .level1 →
    Walks satp req s ∧ s.dMmuMem.dmemAddr = level1Addr satp req.dmemAddr
  level2 : s.dState = .level2 →
    Walks satp req s ∧ mem (level1Addr satp req.dmemAddr) &&& 0xFF = 1 ∧
      s.dMmuMem.dmemAddr = level2Addr (mem (level1Addr satp req.dmemAddr)) req.dmemAddr

/-- A state in which no walk is under way. -/
theorem WalkInv.of_rest {req : DmemIn} (h : s.dState = .idle ∨ s.dState = .access) :
    WalkInv satp mem req s := by
  constructor <;> intro hs <;> rcases h with h | h <;>
    · rw [h] at hs
      cases hs

/-- The idle state starts a walk at the right entry. -/
theorem idleStep_walkInv (hsatp : e.csrRegs Csr.satp = satp) :
    WalkInv satp mem i.req (idleStep e s i).mmu := by
  have hn : idleStep e s i = idleStep e s i := rfl
  conv_rhs at hn => unfold idleStep
  dsimp only at hn
  split_ifs at hn
  · exact .of_rest (.inl (by rw [hn]; rfl))
  · exact .of_rest (.inr (by rw [hn]))
  · exact .of_rest (.inr (by rw [hn]))
  · rw [hn]
    have hwalks := walks_latchRequest e s i.req
    rw [hsatp] at hwalks
    refine ⟨fun _ => ⟨⟨hwalks.1, hwalks.2, hwalks.3, hwalks.4⟩, ?_⟩, nofun⟩
    rw [← hsatp]
    rfl
  · exact .of_rest (.inr (by rw [hn]))
  · exact .of_rest (.inl (by rw [hn]))

/-- Of the request the invariant sees the address alone. -/
theorem WalkInv.of_addr_eq {req req' : DmemIn} (h : WalkInv satp mem req s)
    (haddr : req'.dmemAddr = req.dmemAddr) : WalkInv satp mem req' s := by
  constructor
  · intro hstate
    rw [haddr]
    obtain ⟨hwalks, hentry⟩ := h.level1 hstate
    exact ⟨⟨hwalks.1, hwalks.2, haddr ▸ hwalks.3, haddr ▸ hwalks.4⟩, hentry⟩
  · intro hstate
    rw [haddr]
    obtain ⟨hwalks, hentry⟩ := h.level2 hstate
    exact ⟨⟨hwalks.1, hwalks.2, haddr ▸ hwalks.3, haddr ▸ hwalks.4⟩, hentry⟩

/-- The level-1 entry arrives: an aligned leaf is stored, a pointer is followed. -/
theorem level1Step_coherent (hinv : WalkInv satp mem i.req s) (hone : s.dState = .level1)
    (hrsp : i.rsp.memRspRdata = mem s.dMmuMem.dmemAddr) (hcoh : Coherent satp mem i.tlb) :
    WalkInv satp mem i.req (level1Step e s i).mmu ∧ Coherent satp mem (level1Step e s i).tlb := by
  obtain ⟨hwalks, haddr⟩ := hinv.level1 hone
  have hpte := hrsp
  rw [haddr] at hpte
  rcases level1Step_cases (e := e) (i := i) hwalks.dOp_eq with
    ⟨hstate, htlb⟩ | ⟨hstate, hv, hperms, haligned, htlb⟩ | ⟨hstate, hpointer, htlb, hmmu⟩
  · exact ⟨.of_rest (.inl hstate), htlb ▸ hcoh⟩
  · refine ⟨.of_rest (.inr hstate), htlb ▸ hcoh.store ⟨hv, ?_⟩⟩
    rw [hpte] at hperms haligned
    exact ⟨hpte, hperms, haligned⟩
  · refine ⟨⟨fun h => ?_, fun _ => ?_⟩, htlb ▸ hcoh⟩
    · rw [hstate] at h
      cases h
    · rw [hmmu]
      rw [hpte] at hpointer
      refine ⟨⟨hwalks.1, hwalks.2, hwalks.3, hwalks.4⟩, hpointer, ?_⟩
      change (((i.rsp.memRspRdata >>> 10) &&& 0xFFFFF) <<< 12) + s.dVpn0 * 4 = _
      rw [hwalks.dVpn0_eq, hpte]
      rfl

/-- The level-2 entry arrives: a leaf is stored. -/
theorem level2Step_coherent (hinv : WalkInv satp mem i.req s) (htwo : s.dState = .level2)
    (hrsp : i.rsp.memRspRdata = mem s.dMmuMem.dmemAddr) (hcoh : Coherent satp mem i.tlb) :
    WalkInv satp mem i.req (level2Step e s i).mmu ∧ Coherent satp mem (level2Step e s i).tlb := by
  obtain ⟨hwalks, hpointer, haddr⟩ := hinv.level2 htwo
  have hpte := hrsp
  rw [haddr] at hpte
  rcases level2Step_cases e s i with ⟨hstate, htlb⟩ | ⟨hstate, hv, htlb⟩
  · exact ⟨.of_rest (.inl hstate), htlb ▸ hcoh⟩
  · exact ⟨.of_rest (.inr hstate), htlb ▸ hcoh.store ⟨hv, hpointer, hpte⟩⟩

/-- One edge of the data side keeps its walk and the table in agreement with the
page tables. -/
theorem next_coherent {req : DmemIn} (hinv : WalkInv satp mem req s)
    (hsatp : e.csrRegs Csr.satp = satp) (hreq : s.dState ≠ .idle → i.req.dmemAddr = req.dmemAddr)
    (hrsp : i.rsp.memRspAck = true → i.rsp.memRspRdata = mem s.dMmuMem.dmemAddr)
    (hcoh : Coherent satp mem i.tlb) :
    WalkInv satp mem i.req (next e s i).mmu ∧ Coherent satp mem (next e s i).tlb := by
  unfold next
  split_ifs with hreset hidle hack hone htwo
  · exact ⟨.of_rest (.inl rfl), hcoh⟩
  · refine ⟨idleStep_walkInv hsatp, ?_⟩
    rcases idleStep_tlb e s i with htlb | htlb
    · exact htlb ▸ hcoh
    · exact htlb ▸ hcoh.find _ _ _
  · exact level1Step_coherent (hinv.of_addr_eq (hreq hidle)) hone (hrsp hack) hcoh
  · exact level2Step_coherent (hinv.of_addr_eq (hreq hidle)) htwo (hrsp hack) hcoh
  · exact ⟨.of_rest (.inl rfl), hcoh⟩
  · -- The walk waits for its entry with every member in place.
    have hkeep := hinv.of_addr_eq (hreq hidle)
    refine ⟨⟨fun h => ?_, fun h => ?_⟩, hcoh⟩
    · obtain ⟨hwalks, haddr⟩ := hkeep.level1 h
      exact ⟨⟨hwalks.1, hwalks.2, hwalks.3, hwalks.4⟩, haddr⟩
    · obtain ⟨hwalks, hpointer, haddr⟩ := hkeep.level2 h
      exact ⟨⟨hwalks.1, hwalks.2, hwalks.3, hwalks.4⟩, hpointer, haddr⟩

end Dmmu

/-! ### The instruction walker -/

namespace Immu

variable {e : Exec} {s : Immu} {i : ImmuIn}

/-- The members still hold the address that is fetched. -/
structure Walks (satp : BitVec 32) (s : Immu) : Prop where
  iSatp_eq : s.iSatp = satp
  iVpn0_eq : s.iVpn0 = (s.immuPc >>> 12) &&& 0x3FF
  iOffset_eq : s.iOffset = s.immuPc &&& 0xFFF

theorem leafFault_of_no_perms (e : Exec) (h : (pte &&& 0xFF) &&& 0xE = 0) :
    leafFault e pte = true := by
  have hx : 8 &&& pte = 0 := by
    rw [BitVec.and_comm]
    exact (perms_clear h).2.2
  unfold leafFault
  rw [hx]
  rfl

/-- The outcomes of the level-1 entry, with the store that goes with each. -/
theorem level1Step_cases (e : Exec) (s : Immu) (i : ImmuIn) :
    let pte := i.rsp.memRspRdata
    let n := level1Step e s i
    (n.pageFault = true ∧ n.tlb = i.tlb) ∨
    (n.mmu.iState = .access ∧ pte &&& 1 ≠ 0 ∧ (pte &&& 0xFF) &&& 0xE ≠ 0 ∧
      ((pte >>> 10) &&& 0xFFFFF) &&& 0x3FF = 0 ∧
      n.tlb = i.tlb.store (tlbTag s.iSatp) (s.immuPc >>> 12) pte true) ∨
    (n.mmu.iState = .level2 ∧ pte &&& 0xFF = 1 ∧ n.tlb = i.tlb ∧
      n.mmu = { s with
        iPte := pte, iPpn := (pte >>> 10) &&& 0xFFFFF, iState := .level2,
        iMmuMem := ⟨true, (((pte >>> 10) &&& 0xFFFFF) <<< 12) + s.iVpn0 * 4⟩ }) := by
  intro pte n
  have hn : n = level1Step e s i := rfl
  unfold level1Step at hn
  dsimp only at hn
  split_ifs at hn with hfault hperms
  · exact .inl ⟨by rw [hn]; rfl, by rw [hn]; rfl⟩
  · obtain ⟨hv, haligned, -⟩ := level1_cases (leafFault_of_no_perms e) hfault
    exact .inr (.inl ⟨by rw [hn]; rfl, hv, hperms, haligned hperms, by rw [hn]; rfl⟩)
  · obtain ⟨-, -, hpointer⟩ := level1_cases (leafFault_of_no_perms e) hfault
    exact .inr (.inr ⟨by rw [hn]; rfl, hpointer (not_not.mp hperms), by rw [hn]; rfl,
      by rw [hn]; rfl⟩)

/-- The outcomes of the level-2 entry. -/
theorem level2Step_cases (e : Exec) (s : Immu) (i : ImmuIn) :
    let pte := i.rsp.memRspRdata
    let n := level2Step e s i
    (n.pageFault = true ∧ n.tlb = i.tlb) ∨
    (n.mmu.iState = .access ∧ pte &&& 1 ≠ 0 ∧
      n.tlb = i.tlb.store (tlbTag s.iSatp) (s.immuPc >>> 12) pte false) := by
  intro pte n
  have hn : n = level2Step e s i := rfl
  unfold level2Step at hn
  dsimp only at hn
  split_ifs at hn with hfault
  · exact .inl ⟨by rw [hn]; rfl, by rw [hn]; rfl⟩
  · exact .inr ⟨by rw [hn]; rfl, (not_or.mp hfault).1, by rw [hn]; rfl⟩

/-- Where a walk stands. A page fault leaves the state register behind, but the
next edge takes a new address whatever it holds. -/
structure WalkInv (satp : BitVec 32) (mem : BitVec 32 → BitVec 32) (s : Immu)
    (pageFault : Bool) : Prop where
  level1 : s.iState = .level1 → pageFault = false →
    Walks satp s ∧ s.iMmuMem.imemAddr = level1Addr satp s.immuPc
  level2 : s.iState = .level2 → pageFault = false →
    Walks satp s ∧ mem (level1Addr satp s.immuPc) &&& 0xFF = 1 ∧
      s.iMmuMem.imemAddr = level2Addr (mem (level1Addr satp s.immuPc)) s.immuPc

theorem WalkInv.of_fault : WalkInv satp mem s true := by
  constructor <;> intro _ h <;> cases h

theorem WalkInv.of_rest {pageFault : Bool} (h : s.iState = .idle ∨ s.iState = .access) :
    WalkInv satp mem s pageFault := by
  constructor <;> intro hs <;> rcases h with h | h <;>
    · rw [h] at hs
      cases hs

/-- The ready state starts a walk at the right entry. -/
theorem readyStep_walkInv (hsatp : e.csrRegs Csr.satp = satp) :
    WalkInv satp mem (readyStep e s i).mmu (readyStep e s i).pageFault := by
  have hn : readyStep e s i = readyStep e s i := rfl
  conv_rhs at hn => unfold readyStep
  generalize (if i.ifIdAccept then i.fetchPc else s.immuPc) = pc at hn
  dsimp only at hn
  split_ifs at hn
  · rw [hn]
    exact .of_fault
  · exact .of_rest (.inr (by rw [hn]; rfl))
  · exact .of_rest (.inr (by rw [hn]; rfl))
  · rw [hn]
    refine ⟨fun _ _ => ⟨⟨hsatp, rfl, rfl⟩, ?_⟩, nofun⟩
    rw [← hsatp]
    rfl
  · exact .of_rest (.inr (by rw [hn]; rfl))

/-- A registered page fault makes the next edge a ready one. -/
theorem immuReady_of_pageFault (rsp : MemOut) (h : s.iPageFault = true) :
    s.immuReady rsp = true := by
  have hack : (s.imemRspComb rsp).mmuRspAck = true := by
    unfold imemRspComb
    dsimp only
    rw [h, Bool.or_true, Bool.true_or, Bool.true_or]
    split_ifs <;> rfl
  rw [immuReady, hack, Bool.true_or]

/-- The level-1 entry arrives: an aligned leaf is stored, a pointer is followed. -/
theorem level1Step_coherent (hinv : WalkInv satp mem s false) (hone : s.iState = .level1)
    (hrsp : i.rsp.memRspRdata = mem s.iMmuMem.imemAddr) (hcoh : Coherent satp mem i.tlb) :
    WalkInv satp mem (level1Step e s i).mmu (level1Step e s i).pageFault ∧
      Coherent satp mem (level1Step e s i).tlb := by
  obtain ⟨hwalks, haddr⟩ := hinv.level1 hone rfl
  have hpte := hrsp
  rw [haddr] at hpte
  rcases level1Step_cases e s i with
    ⟨hfault, htlb⟩ | ⟨hstate, hv, hperms, haligned, htlb⟩ | ⟨hstate, hpointer, htlb, hmmu⟩
  · rw [hfault]
    exact ⟨.of_fault, htlb ▸ hcoh⟩
  · refine ⟨.of_rest (.inr hstate), htlb ▸ hcoh.store ⟨hv, ?_⟩⟩
    rw [hpte] at hperms haligned
    exact ⟨hpte, hperms, haligned⟩
  · refine ⟨⟨fun h => ?_, fun _ _ => ?_⟩, htlb ▸ hcoh⟩
    · rw [hstate] at h
      cases h
    · rw [hmmu]
      rw [hpte] at hpointer
      refine ⟨⟨hwalks.1, hwalks.2, hwalks.3⟩, hpointer, ?_⟩
      change (((i.rsp.memRspRdata >>> 10) &&& 0xFFFFF) <<< 12) + s.iVpn0 * 4 = _
      rw [hwalks.iVpn0_eq, hpte]
      rfl

/-- The level-2 entry arrives: a leaf is stored. -/
theorem level2Step_coherent (hinv : WalkInv satp mem s false) (htwo : s.iState = .level2)
    (hrsp : i.rsp.memRspRdata = mem s.iMmuMem.imemAddr) (hcoh : Coherent satp mem i.tlb) :
    WalkInv satp mem (level2Step e s i).mmu (level2Step e s i).pageFault ∧
      Coherent satp mem (level2Step e s i).tlb := by
  obtain ⟨hwalks, hpointer, haddr⟩ := hinv.level2 htwo rfl
  have hpte := hrsp
  rw [haddr] at hpte
  rcases level2Step_cases e s i with ⟨hfault, htlb⟩ | ⟨hstate, hv, htlb⟩
  · rw [hfault]
    exact ⟨.of_fault, htlb ▸ hcoh⟩
  · exact ⟨.of_rest (.inr hstate), htlb ▸ hcoh.store ⟨hv, hpointer, hpte⟩⟩

/-- One edge of the instruction side keeps its walk and the table in agreement with
the page tables. -/
theorem next_coherent (hinv : WalkInv satp mem s s.iPageFault)
    (hsatp : e.csrRegs Csr.satp = satp)
    (hrsp : i.rsp.memRspAck = true → i.rsp.memRspRdata = mem s.iMmuMem.imemAddr)
    (hcoh : Coherent satp mem i.tlb) :
    WalkInv satp mem (next e s i).mmu (next e s i).pageFault ∧
      Coherent satp mem (next e s i).tlb := by
  unfold next
  split_ifs with hreset hready hack hone htwo
  · exact ⟨.of_rest (.inl rfl), hcoh⟩
  · refine ⟨readyStep_walkInv hsatp, ?_⟩
    rcases readyStep_tlb e s i with htlb | htlb
    · exact htlb ▸ hcoh
    · exact htlb ▸ hcoh.find _ _ _
  all_goals
    have hquiet : s.iPageFault = false := by
      by_contra hfault
      exact hready (immuReady_of_pageFault i.rsp (by simpa using hfault))
    rw [hquiet] at hinv
  · exact level1Step_coherent hinv hone (hrsp hack) hcoh
  · exact level2Step_coherent hinv htwo (hrsp hack) hcoh
  · exact ⟨.of_rest (.inl rfl), hcoh⟩
  · -- The walk waits for its entry with every member in place.
    refine ⟨⟨fun h _ => ?_, fun h _ => ?_⟩, hcoh⟩
    · obtain ⟨hwalks, haddr⟩ := hinv.level1 h rfl
      exact ⟨⟨hwalks.1, hwalks.2, hwalks.3⟩, haddr⟩
    · obtain ⟨hwalks, hpointer, haddr⟩ := hinv.level2 h rfl
      exact ⟨⟨hwalks.1, hwalks.2, hwalks.3⟩, hpointer, haddr⟩

end Immu

/-! ### Both walkers on one TLB -/

/-- The answer of memory to the load of a page-table entry. -/
def pteAnswer (mem : BitVec 32 → BitVec 32) (addr : BitVec 32) : MemOut :=
  { memRspAck := true, memRspRdata := mem addr }

/-- The two walkers and the table they share. `req` is the request that EXEC shows. -/
structure Walkers where
  dmmu : Dmmu := {}
  req : DmemIn := {}
  immu : Immu := {}
  tlb : Tlb := {}

/-- An edge of one of the two clocked processes. The processes of a cycle run in
any order, and the privilege and `mstatus` may differ from edge to edge. `respond`
says whether memory answers the load that the walker shows. -/
inductive WalkEvent
  | data (e : Exec) (rst flush : Bool) (req : DmemIn) (respond : Bool) (junk : TlbEntry)
  | inst (e : Exec) (rst flush : Bool) (fetchPc : BitVec 32) (ifIdAccept respond : Bool)
      (junk : TlbEntry)

namespace WalkEvent

/-- The control state at the edge. -/
def exec : WalkEvent → Exec
  | data e .. => e
  | inst e .. => e

end WalkEvent

namespace Walkers

/-- The answer to the load at `addr`, if memory responds. -/
def memRsp (mem : BitVec 32 → BitVec 32) (addr : BitVec 32) (respond : Bool) : MemOut :=
  if respond then pteAnswer mem addr else {}

/-- The state after an edge. EXEC keeps its request until the walker is idle again. -/
def step (mem : BitVec 32 → BitVec 32) (w : Walkers) : WalkEvent → Walkers
  | .data e rst flush req respond junk =>
    let shown := if w.dmmu.dState = .idle then req else { w.req with dmemReqAck := false }
    let r := Dmmu.dmemReqSeq e w.dmmu
      { rst := rst, flush := flush, req := shown, junk := junk, tlb := w.tlb
        rsp := memRsp mem w.dmmu.dMmuMem.dmemAddr respond }
    { w with dmmu := r.1, req := shown, tlb := r.2 }
  | .inst e rst flush fetchPc ifIdAccept respond junk =>
    let r := Immu.imemReqSeq e w.immu
      { rst := rst, flush := flush, fetchPc := fetchPc, ifIdAccept := ifIdAccept, junk := junk
        tlb := w.tlb, rsp := memRsp mem w.immu.iMmuMem.imemAddr respond }
    { w with immu := r.1, tlb := r.2 }

/-- Both walkers are idle and the table is empty. -/
def AtRest (w : Walkers) : Prop :=
  w.dmmu.dState = .idle ∧ w.immu.iState = .idle ∧ w.tlb = {}

/-- Walks under way and table agree with the page tables. -/
structure Inv (satp : BitVec 32) (mem : BitVec 32 → BitVec 32) (w : Walkers) : Prop where
  data : Dmmu.WalkInv satp mem w.req w.dmmu
  inst : Immu.WalkInv satp mem w.immu w.immu.iPageFault
  coherent : Coherent satp mem w.tlb

theorem AtRest.inv {w : Walkers} (h : w.AtRest) : Inv satp mem w := by
  obtain ⟨hd, hi, htlb⟩ := h
  exact ⟨.of_rest (.inl hd), .of_rest (.inl hi), htlb ▸ coherent_empty⟩

theorem memRsp_rdata {addr : BitVec 32} {respond : Bool}
    (h : (memRsp mem addr respond).memRspAck = true) :
    (memRsp mem addr respond).memRspRdata = mem addr := by
  cases respond with
  | true => rfl
  | false => cases h

theorem Inv.step {w : Walkers} (h : Inv satp mem w) {ev : WalkEvent}
    (hsatp : ev.exec.csrRegs Csr.satp = satp) : Inv satp mem (step mem w ev) := by
  cases ev with
  | data e rst flush req respond junk =>
    have hshown : w.dmmu.dState ≠ .idle →
        (if w.dmmu.dState = .idle then req else { w.req with dmemReqAck := false }).dmemAddr =
          w.req.dmemAddr := fun hne => by rw [if_neg hne]
    obtain ⟨hinv, hcoh⟩ := Dmmu.next_coherent
      (i := { rst := rst, flush := flush
              req := if w.dmmu.dState = .idle then req else { w.req with dmemReqAck := false }
              junk := junk, tlb := w.tlb
              rsp := memRsp mem w.dmmu.dMmuMem.dmemAddr respond })
      h.data hsatp hshown memRsp_rdata h.coherent
    refine ⟨⟨fun hs => ?_, fun hs => ?_⟩, h.inst, hcoh⟩
    · obtain ⟨hwalks, haddr⟩ := hinv.level1 hs
      exact ⟨⟨hwalks.1, hwalks.2, hwalks.3, hwalks.4⟩, haddr⟩
    · obtain ⟨hwalks, hpointer, haddr⟩ := hinv.level2 hs
      exact ⟨⟨hwalks.1, hwalks.2, hwalks.3, hwalks.4⟩, hpointer, haddr⟩
  | inst e rst flush fetchPc ifIdAccept respond junk =>
    obtain ⟨hinv, hcoh⟩ := Immu.next_coherent
      (i := { rst := rst, flush := flush, fetchPc := fetchPc, ifIdAccept := ifIdAccept
              junk := junk, tlb := w.tlb, rsp := memRsp mem w.immu.iMmuMem.imemAddr respond })
      h.inst hsatp memRsp_rdata h.coherent
    refine ⟨h.data, ⟨fun hs hf => ?_, fun hs hf => ?_⟩, hcoh⟩
    · obtain ⟨hwalks, haddr⟩ := hinv.level1 hs hf
      exact ⟨⟨hwalks.1, hwalks.2, hwalks.3⟩, haddr⟩
    · obtain ⟨hwalks, hpointer, haddr⟩ := hinv.level2 hs hf
      exact ⟨⟨hwalks.1, hwalks.2, hwalks.3⟩, hpointer, haddr⟩

theorem Inv.run {w : Walkers} (h : Inv satp mem w) (evs : List WalkEvent)
    (hsatp : ∀ ev ∈ evs, ev.exec.csrRegs Csr.satp = satp) :
    Inv satp mem (Clocked.run (Walkers.step mem) w evs) :=
  Clocked.invariant_run (P := Inv satp mem) (fun _ hw ev hev => hw.step (hsatp ev hev)) h

end Walkers

end Turtle
