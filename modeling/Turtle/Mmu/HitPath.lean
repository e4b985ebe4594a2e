import Turtle.Mmu.Coherence

/-!
# The hit path and the walk

The TLB-hit arms of `dmem_req_seq` and `imem_req_seq` spell out the permission
check and the physical address once more. On a table that agrees with the page
tables they decide and address as the walk would.
-/

namespace Turtle

variable {satp : BitVec 32} {mem : BitVec 32 → BitVec 32} {t : Tlb} {va : BitVec 32}

/-! ### The walk that a hit replaces -/

theorem not_hits_empty (asid vpn : BitVec 32) : ∀ x ∈ ({} : Tlb).table,
    Tlb.hits asid vpn x = false := by
  intro x hx
  rw [List.eq_of_mem_replicate hx]
  rfl

namespace Dmmu

/-- The cycle in which memory answers the load that the walker shows. EXEC keeps
showing the request without the `ack`. -/
def answered (mem : BitVec 32 → BitVec 32) (req : DmemIn) (s : Dmmu) : DmmuIn :=
  { req := { req with dmemReqAck := false }, rsp := pteAnswer mem s.dMmuMem.dmemAddr }

/-- The edges of `dmem_req_seq` for a request that finds the TLB empty, with each
entry answered in the cycle after its load. -/
def fullWalk (e : Exec) (mem : BitVec 32 → BitVec 32) (s : Dmmu) (req : DmemIn) : Next :=
  let first := (next e s { req := req }).mmu
  let second := next e first (answered mem req first)
  if second.mmu.dState = .level2 then next e second.mmu (answered mem req second.mmu)
  else second

/-- The end of a translation: a page fault, or the request at its physical address
in the access state. -/
structure Ends (n : Next) (fault : Bool) (req : DmemIn) (addr : BitVec 32) : Prop where
  pageFault_eq : n.pageFault = fault
  access : fault = false → n.mmu.dState = .access ∧ n.mmu.dMmuMem = forwardTo req addr

variable {e : Exec} {s : Dmmu} {i : DmmuIn} {x : TlbEntry}

/-- The members after the first edge of the full walk. -/
def walkStart (e : Exec) (s : Dmmu) (req : DmemIn) : Dmmu :=
  { latchRequest e s req with
    dPte := 0
    dState := .level1
    dMmuMem := pteLoad (level1Addr (e.csrRegs Csr.satp) req.dmemAddr) }

theorem LooksUp.first_eq (h : LooksUp e s i) :
    (next e s { req := i.req }).mmu = walkStart e s i.req := by
  have hlooks : LooksUp e s { req := i.req } := ⟨rfl, h.idle, h.request, h.translates⟩
  have hfind : lookup e { req := i.req } = ({ ({} : TlbEntry) with valid := false }, {}) :=
    Tlb.find_of_miss (not_hits_empty _ _)
  rw [hlooks.next_eq, hlooks.idleStep_eq, hfind]
  exact congrArg Next.mmu (useEntry_of_invalid { ({} : TlbEntry) with valid := false } rfl)

/-- The physical address of a request in the page or megapage of an entry. -/
def addrIn (x : TlbEntry) (req : DmemIn) : BitVec 32 :=
  (((x.pte >>> 10) &&& 0xFFFFF) <<< 12) +
    (req.dmemAddr &&& if x.isMegapage then 0x3FFFFF else 0xFFF)

theorem useEntry_ends {d : Dmmu} (tlb : Tlb) (hv : x.pte &&& 1 ≠ 0) :
    Ends (useEntry e d i.req x tlb) (leafFault e d.dPriv d.dOp i.req x.pte) i.req
      (addrIn x i.req) := by
  unfold useEntry addrIn
  dsimp only
  rw [if_pos hv]
  cases hfault : leafFault e d.dPriv d.dOp i.req x.pte with
  | true => exact ⟨rfl, nofun⟩
  | false =>
    cases x.isMegapage with
    | true => exact ⟨rfl, fun _ => ⟨rfl, rfl⟩⟩
    | false => exact ⟨rfl, fun _ => ⟨rfl, rfl⟩⟩

theorem level1Step_ends_megapage {d : Dmmu} (hmega : x.isMegapage = true)
    (hpte : i.rsp.memRspRdata = x.pte) (hv : x.pte &&& 1 ≠ 0)
    (hperms : (x.pte &&& 0xFF) &&& 0xE ≠ 0)
    (haligned : ((x.pte >>> 10) &&& 0xFFFFF) &&& 0x3FF = 0) :
    Ends (level1Step e d i) (leafFault e d.dPriv d.dOp i.req x.pte) i.req (addrIn x i.req) := by
  have hnot : x.pte &&& 0xFF ≠ 1 := fun h => hperms (pointer_has_no_perms h)
  unfold level1Step addrIn
  dsimp only
  rw [hpte, hmega]
  simp only [hv, haligned, hnot, hperms, ne_eq, not_false_eq_true, not_true_eq_false, false_or,
    true_and, if_true]
  cases hfault : leafFault e d.dPriv d.dOp i.req x.pte with
  | true => exact ⟨rfl, nofun⟩
  | false => exact ⟨rfl, fun _ => ⟨rfl, rfl⟩⟩

theorem level1Step_state_of_leaf {d : Dmmu} (h : (i.rsp.memRspRdata &&& 0xFF) &&& 0xE ≠ 0) :
    (level1Step e d i).mmu.dState ≠ .level2 := by
  unfold level1Step
  dsimp only
  rw [if_pos h]
  split_ifs <;> exact nofun

theorem level1Step_of_pointer {d : Dmmu} (h : i.rsp.memRspRdata &&& 0xFF = 1) :
    (level1Step e d i).mmu = { d with
      dPte := i.rsp.memRspRdata, dPpn := (i.rsp.memRspRdata >>> 10) &&& 0xFFFFF,
      dState := .level2,
      dMmuMem := pteLoad ((((i.rsp.memRspRdata >>> 10) &&& 0xFFFFF) <<< 12) + d.dVpn0 * 4) } := by
  have hv := pointer_valid h
  have hperms := pointer_has_no_perms h
  unfold level1Step
  dsimp only
  rw [if_neg (by simp only [hv, h, ne_eq, not_true_eq_false, false_and, or_self, not_false_eq_true]),
    if_neg (not_not.mpr hperms)]

theorem level2Step_ends {d : Dmmu} (hmega : x.isMegapage = false)
    (hpte : i.rsp.memRspRdata = x.pte) (hv : x.pte &&& 1 ≠ 0)
    (hoffset : d.dOffset = i.req.dmemAddr &&& 0xFFF) :
    Ends (level2Step e d i) (leafFault e d.dPriv d.dOp i.req x.pte) i.req (addrIn x i.req) := by
  unfold level2Step addrIn
  dsimp only
  rw [hpte, hmega, hoffset]
  simp only [hv, false_or]
  cases hfault : leafFault e d.dPriv d.dOp i.req x.pte with
  | true => exact ⟨rfl, nofun⟩
  | false => exact ⟨rfl, fun _ => ⟨rfl, rfl⟩⟩

/-- The end of the full walk when the tables hold `x` for the address. -/
theorem LooksUp.fullWalk_ends (h : LooksUp e s i)
    (hleaf : LeafFor (e.csrRegs Csr.satp) mem x i.req.dmemAddr) :
    Ends (fullWalk e mem s i.req)
      (leafFault e (latchRequest e s i.req).dPriv (latchRequest e s i.req).dOp i.req x.pte)
      i.req (addrIn x i.req) := by
  obtain ⟨hv, hkind⟩ := hleaf
  let d := walkStart e s i.req
  let j := answered mem i.req d
  have hsecond : next e d j = level1Step e d j := rfl
  unfold fullWalk
  dsimp only
  rw [h.first_eq, hsecond]
  cases hmega : x.isMegapage with
  | true =>
    rw [hmega, if_pos rfl] at hkind
    obtain ⟨hpte, hperms, haligned⟩ := hkind
    rw [← hpte] at hperms haligned
    have hends : Ends (level1Step e d j) _ _ _ :=
      level1Step_ends_megapage hmega hpte.symm hv hperms haligned
    have hstate : (level1Step e d j).mmu.dState ≠ .level2 :=
      level1Step_state_of_leaf (by rwa [hpte] at hperms)
    rw [if_neg hstate]
    exact ⟨hends.1, hends.2⟩
  | false =>
    rw [hmega, if_neg Bool.false_ne_true] at hkind
    obtain ⟨hpointer, hpte⟩ := hkind
    have hmmu := level1Step_of_pointer (e := e) (d := d) (i := j) hpointer
    rw [if_pos (by rw [hmmu])]
    let d₂ := (level1Step e d j).mmu
    let j₂ := answered mem i.req d₂
    have hthird : next e d₂ j₂ = level2Step e d₂ j₂ := by
      change next e (level1Step e d j).mmu _ = level2Step e (level1Step e d j).mmu _
      rw [hmmu]
      rfl
    have hread : j₂.rsp.memRspRdata = x.pte := by
      rw [hpte]
      change mem (level1Step e d j).mmu.dMmuMem.dmemAddr = _
      rw [hmmu]
      rfl
    have hends : Ends (level2Step e d₂ j₂) (leafFault e d₂.dPriv d₂.dOp j₂.req x.pte) j₂.req
        (addrIn x j₂.req) := by
      refine level2Step_ends hmega hread hv ?_
      change (level1Step e d j).mmu.dOffset = _
      rw [hmmu]
      rfl
    have hregs : d₂.dPriv = d.dPriv ∧ d₂.dOp = d.dOp := by
      change (level1Step e d j).mmu.dPriv = _ ∧ (level1Step e d j).mmu.dOp = _
      rw [hmmu]
      exact ⟨rfl, rfl⟩
    rw [hregs.1, hregs.2] at hends
    change Ends (next e d₂ j₂) _ _ _
    rw [hthird]
    exact ⟨hends.1, hends.2⟩

end Dmmu

namespace Immu

/-- The cycle in which memory answers the load that the walker shows. -/
def answered (mem : BitVec 32 → BitVec 32) (s : Immu) : ImmuIn :=
  { rsp := pteAnswer mem s.iMmuMem.imemAddr }

/-- The arms of `imem_req_seq` that an address goes through when it finds the TLB
empty. -/
def fullWalk (e : Exec) (mem : BitVec 32 → BitVec 32) (s : Immu) (i : ImmuIn) : Next :=
  let first := (readyStep e s { i with tlb := {}, junk := {} }).mmu
  let second := level1Step e first (answered mem first)
  if second.mmu.iState = .level2 then level2Step e second.mmu (answered mem second.mmu)
  else second

/-- The end of a translation: a page fault, or the fetch at its physical address. -/
structure Ends (n : Next) (fault : Bool) (addr : BitVec 32) : Prop where
  pageFault_eq : n.pageFault = fault
  access : fault = false →
    n.mmu.iState = .access ∧ n.isFetch = true ∧ n.mmu.iMmuMem = ⟨true, addr⟩

variable {e : Exec} {s : Immu} {i : ImmuIn} {x : TlbEntry}

/-- The members after the ready state of the full walk. -/
def walkStart (e : Exec) (s : Immu) (pc : BitVec 32) : Immu :=
  { latchPc e s pc with
    iPte := 0
    iState := .level1
    iMmuMem := ⟨true, level1Addr (e.csrRegs Csr.satp) pc⟩ }

theorem LooksUp.first_eq (h : LooksUp e s i) :
    (readyStep e s { i with tlb := {}, junk := {} }).mmu = walkStart e s (s.lookupPc i) := by
  have hlooks : LooksUp e s { i with tlb := {}, junk := {} } :=
    ⟨h.running, h.ready, h.translates⟩
  have hfind : lookup e s { i with tlb := {}, junk := {} } =
      ({ ({} : TlbEntry) with valid := false }, {}) := Tlb.find_of_miss (not_hits_empty _ _)
  rw [hlooks.readyStep_eq, hfind]
  exact congrArg Next.mmu (useEntry_of_invalid { ({} : TlbEntry) with valid := false } rfl)

/-- The physical address of a word in the page or megapage of an entry. -/
def addrIn (x : TlbEntry) (pc : BitVec 32) : BitVec 32 :=
  (((x.pte >>> 10) &&& 0xFFFFF) <<< 12) +
    (if x.isMegapage then pc &&& 0x3FFFFC else (pc &&& 0xFFF) &&& ~~~3)

theorem useEntry_ends {d : Immu} {pc : BitVec 32} (tlb : Tlb) (hv : x.pte &&& 1 ≠ 0)
    (hoffset : d.iOffset = pc &&& 0xFFF) :
    Ends (useEntry e d pc x tlb) (leafFault e x.pte) (addrIn x pc) := by
  unfold useEntry addrIn
  dsimp only
  rw [if_pos hv, hoffset]
  cases hfault : leafFault e x.pte with
  | true => exact ⟨rfl, nofun⟩
  | false =>
    cases x.isMegapage with
    | true => exact ⟨rfl, fun _ => ⟨rfl, rfl, rfl⟩⟩
    | false => exact ⟨rfl, fun _ => ⟨rfl, rfl, rfl⟩⟩

theorem level1Step_ends_megapage {d : Immu} (hmega : x.isMegapage = true)
    (hpte : i.rsp.memRspRdata = x.pte) (hv : x.pte &&& 1 ≠ 0)
    (hperms : (x.pte &&& 0xFF) &&& 0xE ≠ 0)
    (haligned : ((x.pte >>> 10) &&& 0xFFFFF) &&& 0x3FF = 0) :
    Ends (level1Step e d i) (leafFault e x.pte) (addrIn x d.immuPc) := by
  have hnot : x.pte &&& 0xFF ≠ 1 := fun h => hperms (pointer_has_no_perms h)
  unfold level1Step addrIn
  dsimp only
  rw [hpte, hmega]
  simp only [hv, haligned, hnot, hperms, ne_eq, not_false_eq_true, not_true_eq_false, false_or,
    true_and, if_true]
  cases hfault : leafFault e x.pte with
  | true => exact ⟨rfl, nofun⟩
  | false => exact ⟨rfl, fun _ => ⟨rfl, rfl, rfl⟩⟩

theorem level1Step_state_of_leaf {d : Immu} (hd : d.iState = .level1)
    (h : (i.rsp.memRspRdata &&& 0xFF) &&& 0xE ≠ 0) :
    (level1Step e d i).mmu.iState ≠ .level2 := by
  unfold level1Step
  dsimp only
  rw [if_pos h]
  split_ifs
  · change d.iState ≠ .level2
    rw [hd]
    exact nofun
  · exact nofun

theorem level1Step_of_pointer {d : Immu} (h : i.rsp.memRspRdata &&& 0xFF = 1) :
    (level1Step e d i).mmu = { d with
      iPte := i.rsp.memRspRdata, iPpn := (i.rsp.memRspRdata >>> 10) &&& 0xFFFFF,
      iState := .level2,
      iMmuMem := ⟨true, (((i.rsp.memRspRdata >>> 10) &&& 0xFFFFF) <<< 12) + d.iVpn0 * 4⟩ } := by
  have hv := pointer_valid h
  have hperms := pointer_has_no_perms h
  unfold level1Step
  dsimp only
  rw [if_neg (by simp only [hv, h, ne_eq, not_true_eq_false, false_and, or_self, not_false_eq_true]),
    if_neg (not_not.mpr hperms)]
  rfl

theorem level2Step_ends {d : Immu} (hmega : x.isMegapage = false)
    (hpte : i.rsp.memRspRdata = x.pte) (hv : x.pte &&& 1 ≠ 0)
    (hoffset : d.iOffset = d.immuPc &&& 0xFFF) :
    Ends (level2Step e d i) (leafFault e x.pte) (addrIn x d.immuPc) := by
  unfold level2Step addrIn
  dsimp only
  rw [hpte, hmega, hoffset]
  simp only [hv, false_or]
  cases hfault : leafFault e x.pte with
  | true => exact ⟨rfl, nofun⟩
  | false => exact ⟨rfl, fun _ => ⟨rfl, rfl, rfl⟩⟩

/-- The end of the full walk when the tables hold `x` for the address. -/
theorem LooksUp.fullWalk_ends (h : LooksUp e s i)
    (hleaf : LeafFor (e.csrRegs Csr.satp) mem x (s.lookupPc i)) :
    Ends (fullWalk e mem s i) (leafFault e x.pte) (addrIn x (s.lookupPc i)) := by
  obtain ⟨hv, hkind⟩ := hleaf
  let d := walkStart e s (s.lookupPc i)
  let j := answered mem d
  unfold fullWalk
  dsimp only
  rw [h.first_eq]
  change Ends (if (level1Step e d j).mmu.iState = .level2 then
    level2Step e (level1Step e d j).mmu (answered mem (level1Step e d j).mmu)
    else level1Step e d j) _ _
  cases hmega : x.isMegapage with
  | true =>
    rw [hmega, if_pos rfl] at hkind
    obtain ⟨hpte, hperms, haligned⟩ := hkind
    rw [← hpte] at hperms haligned
    have hstate : (level1Step e d j).mmu.iState ≠ .level2 :=
      level1Step_state_of_leaf rfl (by rwa [hpte] at hperms)
    rw [if_neg hstate]
    exact level1Step_ends_megapage (d := d) hmega hpte.symm hv hperms haligned
  | false =>
    rw [hmega, if_neg Bool.false_ne_true] at hkind
    obtain ⟨hpointer, hpte⟩ := hkind
    have hmmu := level1Step_of_pointer (e := e) (d := d) (i := j) hpointer
    rw [if_pos (by rw [hmmu])]
    have hpc : (level1Step e d j).mmu.immuPc = s.lookupPc i := by
      rw [hmmu]
      rfl
    rw [← hpc]
    refine level2Step_ends hmega ?_ hv ?_
    · rw [hpte]
      change mem (level1Step e d j).mmu.iMmuMem.imemAddr = _
      rw [hmmu]
      rfl
    · rw [hmmu]
      rfl

end Immu

/-! ### Hits after any sequence of walks -/

/-- Two data translations that end alike: the same page-fault decision and, without
a page fault, the same request at the same physical address. -/
def Dmmu.Agree (n m : Dmmu.Next) : Prop :=
  n.pageFault = m.pageFault ∧ (n.pageFault = false →
    n.mmu.dState = .access ∧ m.mmu.dState = .access ∧ n.mmu.dMmuMem = m.mmu.dMmuMem)

/-- Two fetch translations that end alike. -/
def Immu.Agree (n m : Immu.Next) : Prop :=
  n.pageFault = m.pageFault ∧ (n.pageFault = false →
    n.mmu.iState = .access ∧ m.mmu.iState = .access ∧ n.mmu.iMmuMem = m.mmu.iMmuMem)

/-- The entry that a lookup hits is the leaf that the tables hold for the address. -/
theorem Coherent.leaf_of_hit (h : Coherent satp mem t) {junk : TlbEntry}
    (hvalid : (t.find junk (tlbTag satp) (va >>> 12)).1.valid = true) :
    LeafFor satp mem (t.find junk (tlbTag satp) (va >>> 12)).1 va := by
  obtain ⟨hmem, hhit⟩ := Tlb.find_of_valid hvalid
  exact h _ hmem hvalid va (Tlb.hits_iff.mp hhit).2.2

theorem Dmmu.LooksUp.agree {e : Exec} {s : Dmmu} {i : DmmuIn} (h : s.LooksUp e i)
    (hcoh : Coherent (e.csrRegs Csr.satp) mem i.tlb) (hvalid : (lookup e i).1.valid = true) :
    Agree (next e s i) (fullWalk e mem s i.req) := by
  have hleaf : LeafFor _ mem (lookup e i).1 i.req.dmemAddr := hcoh.leaf_of_hit hvalid
  have hwalk := h.fullWalk_ends hleaf
  have hhit := useEntry_ends (e := e) (i := i) (d := latchRequest e s i.req) (lookup e i).2 hleaf.1
  rw [← h.idleStep_eq, ← h.next_eq] at hhit
  refine ⟨hhit.pageFault_eq.trans hwalk.pageFault_eq.symm, fun hfault => ?_⟩
  rw [hhit.pageFault_eq] at hfault
  obtain ⟨hstate, hreq⟩ := hhit.access hfault
  obtain ⟨hstate', hreq'⟩ := hwalk.access hfault
  exact ⟨hstate, hstate', hreq.trans hreq'.symm⟩

theorem Immu.LooksUp.agree {e : Exec} {s : Immu} {i : ImmuIn} (h : s.LooksUp e i)
    (hcoh : Coherent (e.csrRegs Csr.satp) mem i.tlb) (hvalid : (lookup e s i).1.valid = true) :
    Agree (next e s i) (fullWalk e mem s i) := by
  have hleaf : LeafFor _ mem (lookup e s i).1 (s.lookupPc i) := hcoh.leaf_of_hit hvalid
  have hwalk := h.fullWalk_ends hleaf
  have hhit := useEntry_ends (e := e) (d := latchPc e s (s.lookupPc i)) (lookup e s i).2 hleaf.1 rfl
  rw [← h.readyStep_eq, ← h.next_eq] at hhit
  refine ⟨hhit.pageFault_eq.trans hwalk.pageFault_eq.symm, fun hfault => ?_⟩
  rw [hhit.pageFault_eq] at hfault
  obtain ⟨hstate, -, hreq⟩ := hhit.access hfault
  obtain ⟨hstate', -, hreq'⟩ := hwalk.access hfault
  exact ⟨hstate, hstate', hreq.trans hreq'.symm⟩

/-- After every sequence of edges of the two walkers from an empty TLB, under one
`satp` and page tables that do not change: a data request or a fetch that hits the
TLB, at any privilege and `mstatus`, ends as the full walk would. -/
theorem hit_agrees_with_walk (satp : BitVec 32) (mem : BitVec 32 → BitVec 32) (w : Walkers)
    (hw : w.AtRest) (evs : List WalkEvent)
    (hevs : ∀ ev ∈ evs, ev.exec.csrRegs Csr.satp = satp) (e : Exec)
    (hsatp : e.csrRegs Csr.satp = satp) :
    let t := (Clocked.run (Walkers.step mem) w evs).tlb
    (∀ (s : Dmmu) (i : DmmuIn), i.tlb = t → s.LooksUp e i → (Dmmu.lookup e i).1.valid = true →
      Dmmu.Agree (Dmmu.next e s i) (Dmmu.fullWalk e mem s i.req)) ∧
    (∀ (s : Immu) (i : ImmuIn), i.tlb = t → s.LooksUp e i → (Immu.lookup e s i).1.valid = true →
      Immu.Agree (Immu.next e s i) (Immu.fullWalk e mem s i)) := by
  intro t
  have hcoh : Coherent (e.csrRegs Csr.satp) mem t := hsatp ▸ (hw.inv.run evs hevs).coherent
  exact ⟨fun s i htlb hlooks hvalid => hlooks.agree (htlb ▸ hcoh) hvalid,
    fun s i htlb hlooks hvalid => hlooks.agree (htlb ▸ hcoh) hvalid⟩

/-- Page tables that map the first page to `0x80002000`, readable, writable and
executable. -/
def firstPage (addr : BitVec 32) : BitVec 32 :=
  if addr = 0x80000000 then 0x20000401 else if addr = 0x80001000 then 0x200008cf else 0

/-- The walk of a load at `0x10`. -/
def loadWalk : List WalkEvent :=
  let e := Tlb.supervisorWith 0x80080000
  let req : DmemIn := { dmemReqAck := true, dmemAddr := 0x10, dmemIsLoad := true }
  [.data e false false req false {}, .data e false false {} true {}, .data e false false {} true {}]

/-- After that walk a store at `0x20` and a fetch at `0x24` hit, and end as their
walks would. -/
theorem hit_agrees_with_walk_firstPage :
    let e := Tlb.supervisorWith 0x80080000
    let t := (Clocked.run (Walkers.step firstPage) {} loadWalk).tlb
    let i : DmmuIn :=
      { req := { dmemReqAck := true, dmemAddr := 0x20, dmemIsStore := true }, tlb := t }
    let j : ImmuIn := { fetchPc := 0x24, ifIdAccept := true, tlb := t }
    (Dmmu.lookup e i).1.valid = true ∧ (Immu.lookup e {} j).1.valid = true ∧
    Dmmu.Agree (Dmmu.next e {} i) (Dmmu.fullWalk e firstPage {} i.req) ∧
    Immu.Agree (Immu.next e {} j) (Immu.fullWalk e firstPage {} j) ∧
    (Dmmu.next e {} i).mmu.dMmuMem.dmemAddr = 0x80002020 := by
  intro e t i j
  have hd : (Dmmu.lookup e i).1.valid = true := by decide
  have hi : (Immu.lookup e {} j).1.valid = true := by decide
  have hagree := hit_agrees_with_walk 0x80080000 firstPage {} ⟨rfl, rfl, rfl⟩ loadWalk
    (by decide) e (by decide)
  refine ⟨hd, hi, hagree.1 {} i rfl ⟨by decide, by decide, by decide, by decide⟩ hd,
    hagree.2 {} j rfl ⟨by decide, by decide, by decide⟩ hi, by decide⟩

end Turtle
