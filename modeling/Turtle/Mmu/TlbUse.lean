import Turtle.TlbFacts

/-!
# How the MMU uses the TLB

Each clocked process of the MMU makes at most one call per edge, with a tag that
comes from the `satp` of the translation. A lookup reports a miss in the `valid`
field of the entry it returns, and the MMU looks at bit 0 of its `pte` field.
-/

namespace Turtle

namespace Dmmu

variable {e : Exec} {s : Dmmu} {i : DmmuIn}

theorem idleStep_tlb (e : Exec) (s : Dmmu) (i : DmmuIn) :
    (idleStep e s i).tlb = i.tlb ∨
    (idleStep e s i).tlb = i.tlb.apply (.find i.junk (e.csrRegs Csr.satp) i.req.dmemAddr) := by
  unfold idleStep
  dsimp only
  split_ifs
  all_goals first | exact .inr rfl | exact .inl rfl

/-- The call that an edge of the data side makes. -/
theorem dmemReqSeq_tlb (e : Exec) (s : Dmmu) (i : DmmuIn) :
    (dmemReqSeq e s i).2 = i.tlb ∨
    (dmemReqSeq e s i).2 = i.tlb.apply (.find i.junk (e.csrRegs Csr.satp) i.req.dmemAddr) ∨
    ∃ mega, (dmemReqSeq e s i).2 =
      i.tlb.apply (.store s.dSatp i.req.dmemAddr i.rsp.memRspRdata mega) := by
  change (next e s i).tlb = _ ∨ (next e s i).tlb = _ ∨ ∃ mega, (next e s i).tlb = _
  unfold next
  split_ifs
  · exact .inl rfl
  · exact (idleStep_tlb e s i).imp_right .inl
  · unfold level1Step
    dsimp only
    split_ifs
    · exact .inl rfl
    · exact .inr (.inr ⟨true, rfl⟩)
    · exact .inl rfl
  · unfold level2Step
    dsimp only
    split_ifs
    · exact .inl rfl
    · exact .inr (.inr ⟨false, rfl⟩)
  · exact .inl rfl
  · exact .inl rfl

/-- The data side is about to look up the address of a request. -/
structure LooksUp (e : Exec) (s : Dmmu) (i : DmmuIn) : Prop where
  running : (i.rst || i.flush) = false
  idle : s.dState = .idle
  request : i.req.dmemReqAck = true
  translates : (satpOn (e.csrRegs Csr.satp) &&
    (e.priv == privS || e.priv == privU || e.dataPriv != 3)) = true

/-- No valid entry of the table matches the request. -/
def Misses (e : Exec) (i : DmmuIn) : Prop :=
  ∀ x ∈ i.tlb.table,
    Tlb.hits (tlbTag (e.csrRegs Csr.satp)) (i.req.dmemAddr >>> 12) x = false

/-- The edge starts a walk: the level-1 entry is requested and nothing is reported. -/
def StartsWalk (e : Exec) (s : Dmmu) (i : DmmuIn) : Prop :=
  let r := (dmemReqSeq e s i).1
  r.dState = .level1 ∧ r.dPageFault = false ∧
    r.dMmuMem = pteLoad (((e.csrRegs Csr.satp &&& 0x003FFFFF) <<< 12) +
      ((i.req.dmemAddr >>> 22) &&& 0x3FF) * 4)

/-- The part of the idle state that acts on the entry which the lookup returned. -/
def useEntry (e : Exec) (s : Dmmu) (req : DmemIn) (entry : TlbEntry) (tlb : Tlb) : Next :=
  let s := { s with dPte := entry.pte }
  if s.dPte &&& 1 ≠ 0 then
    let s := { s with dPpn := (s.dPte >>> 10) &&& 0xFFFFF }
    if leafFault e s.dPriv s.dOp req s.dPte then faulted s tlb
    else if entry.isMegapage then
      { mmu := { s with dState := .access,
                        dMmuMem := forwardTo req ((s.dPpn <<< 12) + (req.dmemAddr &&& 0x3FFFFF)) },
        tlb := tlb }
    else
      { mmu := { s with dState := .access,
                        dMmuMem := forwardTo req ((s.dPpn <<< 12) + (req.dmemAddr &&& 0xFFF)) },
        tlb := tlb }
  else
    { mmu := { s with dState := .level1, dMmuMem := pteLoad (s.dRootAddr + s.dVpn1 * 4) },
      tlb := tlb }

/-- The lookup of a request that has to be translated. -/
def lookup (e : Exec) (i : DmmuIn) : TlbEntry × Tlb :=
  i.tlb.find i.junk (tlbTag (e.csrRegs Csr.satp)) (i.req.dmemAddr >>> 12)

theorem LooksUp.idleStep_eq (h : LooksUp e s i) :
    idleStep e s i =
      useEntry e (latchRequest e s i.req) i.req (lookup e i).1 (lookup e i).2 := by
  unfold idleStep
  rw [if_pos h.request]
  exact if_pos h.translates

theorem LooksUp.next_eq (h : LooksUp e s i) : next e s i = idleStep e s i :=
  next_of_idle h.running h.idle

/-- An entry with bit 0 clear starts a walk, any other is used. -/
theorem useEntry_of_invalid {d : Dmmu} (entry : TlbEntry) {tlb : Tlb}
    (h : entry.pte &&& 1 = 0) : useEntry e d i.req entry tlb =
      ⟨{ d with dPte := entry.pte, dState := .level1,
                dMmuMem := pteLoad (d.dRootAddr + d.dVpn1 * 4) }, false, tlb⟩ := by
  unfold useEntry
  dsimp only
  rw [if_neg (not_not.mpr h)]

theorem useEntry_of_valid {d : Dmmu} {entry : TlbEntry} {tlb : Tlb}
    (h : entry.pte &&& 1 ≠ 0) : (useEntry e d i.req entry tlb).mmu.dState ≠ .level1 := by
  unfold useEntry
  dsimp only
  rw [if_pos h]
  split_ifs
  · exact nofun
  · exact nofun
  · exact nofun

/-- After a miss the data side walks exactly when bit 0 of the left-over is clear. -/
theorem startsWalk_iff (h : LooksUp e s i) (hmiss : Misses e i) :
    StartsWalk e s i ↔ i.junk.pte &&& 1 = 0 := by
  have hfind : lookup e i = ({ i.junk with valid := false }, i.tlb) := Tlb.find_of_miss hmiss
  have hnext := h.next_eq.trans h.idleStep_eq
  rw [hfind] at hnext
  constructor
  · rintro ⟨hwalk, -, -⟩
    by_contra hbit
    change (next e s i).mmu.dState = .level1 at hwalk
    rw [hnext] at hwalk
    exact useEntry_of_valid hbit hwalk
  · intro hbit
    rw [useEntry_of_invalid { i.junk with valid := false } hbit] at hnext
    refine ⟨?_, ?_, ?_⟩
    · change (next e s i).mmu.dState = .level1
      rw [hnext]
    · change (next e s i).pageFault = false
      rw [hnext]
    · change (next e s i).mmu.dMmuMem = _
      rw [hnext]
      rfl

end Dmmu

namespace Immu

variable {e : Exec} {s : Immu} {i : ImmuIn}

/-- The address that the ready state takes up. -/
def lookupPc (s : Immu) (i : ImmuIn) : BitVec 32 := if i.ifIdAccept then i.fetchPc else s.immuPc

theorem readyStep_tlb (e : Exec) (s : Immu) (i : ImmuIn) :
    (readyStep e s i).tlb = i.tlb ∨
    (readyStep e s i).tlb = i.tlb.apply (.find i.junk (e.csrRegs Csr.satp) (s.lookupPc i)) := by
  unfold readyStep lookupPc
  generalize (if i.ifIdAccept then i.fetchPc else s.immuPc) = pc
  dsimp only
  split_ifs
  all_goals first | exact .inr rfl | exact .inl rfl

/-- The call that an edge of the instruction side makes. -/
theorem imemReqSeq_tlb (e : Exec) (s : Immu) (i : ImmuIn) :
    (imemReqSeq e s i).2 = i.tlb ∨
    (imemReqSeq e s i).2 = i.tlb.apply (.find i.junk (e.csrRegs Csr.satp) (s.lookupPc i)) ∨
    ∃ mega, (imemReqSeq e s i).2 =
      i.tlb.apply (.store s.iSatp s.immuPc i.rsp.memRspRdata mega) := by
  change (next e s i).tlb = _ ∨ (next e s i).tlb = _ ∨ ∃ mega, (next e s i).tlb = _
  unfold next
  split_ifs
  · exact .inl rfl
  · exact (readyStep_tlb e s i).imp_right .inl
  · unfold level1Step
    dsimp only
    split_ifs
    · exact .inl rfl
    · exact .inr (.inr ⟨true, rfl⟩)
    · exact .inl rfl
  · unfold level2Step
    dsimp only
    split_ifs
    · exact .inl rfl
    · exact .inr (.inr ⟨false, rfl⟩)
  · exact .inl rfl
  · exact .inl rfl

/-- The instruction side is about to look up an address. -/
structure LooksUp (e : Exec) (s : Immu) (i : ImmuIn) : Prop where
  running : (i.rst || i.flush) = false
  ready : s.immuReady i.rsp = true
  translates : (satpOn (e.csrRegs Csr.satp) && (e.priv == privS || e.priv == privU)) = true

/-- No valid entry of the table matches the address. -/
def Misses (e : Exec) (s : Immu) (i : ImmuIn) : Prop :=
  ∀ x ∈ i.tlb.table, Tlb.hits (tlbTag (e.csrRegs Csr.satp)) (s.lookupPc i >>> 12) x = false

/-- The edge starts a walk: the level-1 entry is requested and nothing is reported. -/
def StartsWalk (e : Exec) (s : Immu) (i : ImmuIn) : Prop :=
  let r := (imemReqSeq e s i).1
  r.iState = .level1 ∧ r.iPageFault = false ∧
    r.iMmuMem = { imemReqAck := true
                  imemAddr := ((e.csrRegs Csr.satp &&& 0x003FFFFF) <<< 12) +
                    ((s.lookupPc i >>> 22) &&& 0x3FF) * 4 }

/-- The part of the ready state that acts on the entry which the lookup returned. -/
def useEntry (e : Exec) (s : Immu) (pc : BitVec 32) (entry : TlbEntry) (tlb : Tlb) : Next :=
  let s : Immu := { s with iPte := entry.pte }
  if s.iPte &&& 1 ≠ 0 then
    let s := { s with iPpn := (s.iPte >>> 10) &&& 0xFFFFF }
    if leafFault e s.iPte then faulted s tlb
    else if entry.isMegapage then fetch s ((s.iPpn <<< 12) + (pc &&& 0x3FFFFC)) tlb
    else fetch s ((s.iPpn <<< 12) + (s.iOffset &&& ~~~3)) tlb
  else pteLoad s .level1 (s.iRootAddr + s.iVpn1 * 4) tlb

/-- The lookup of the next address. -/
def lookup (e : Exec) (s : Immu) (i : ImmuIn) : TlbEntry × Tlb :=
  i.tlb.find i.junk (tlbTag (e.csrRegs Csr.satp)) (s.lookupPc i >>> 12)

theorem LooksUp.readyStep_eq (h : LooksUp e s i) :
    readyStep e s i = useEntry e (latchPc e s (s.lookupPc i)) (s.lookupPc i)
      (lookup e s i).1 (lookup e s i).2 := by
  unfold readyStep
  exact if_pos h.translates

theorem LooksUp.next_eq (h : LooksUp e s i) : next e s i = readyStep e s i :=
  next_of_ready h.running h.ready

theorem useEntry_of_invalid {d : Immu} {pc : BitVec 32} (entry : TlbEntry) {tlb : Tlb}
    (h : entry.pte &&& 1 = 0) : useEntry e d pc entry tlb =
      pteLoad { d with iPte := entry.pte } .level1 (d.iRootAddr + d.iVpn1 * 4) tlb := by
  unfold useEntry
  dsimp only
  rw [if_neg (not_not.mpr h)]

/-- An entry with bit 0 set is a page fault or an access. The page fault keeps the
state register, hence the first case. -/
theorem useEntry_of_valid (d : Immu) (pc : BitVec 32) (entry : TlbEntry) (tlb : Tlb)
    (h : entry.pte &&& 1 ≠ 0) : (useEntry e d pc entry tlb).pageFault = true ∨
      (useEntry e d pc entry tlb).mmu.iState = .access := by
  unfold useEntry
  dsimp only
  rw [if_pos h]
  split_ifs
  · exact .inl rfl
  · exact .inr rfl
  · exact .inr rfl

/-- After a miss the instruction side walks exactly when bit 0 of the left-over is
clear. -/
theorem startsWalk_iff (h : LooksUp e s i) (hmiss : Misses e s i) :
    StartsWalk e s i ↔ i.junk.pte &&& 1 = 0 := by
  have hfind : lookup e s i = ({ i.junk with valid := false }, i.tlb) := Tlb.find_of_miss hmiss
  have hnext := h.next_eq.trans h.readyStep_eq
  rw [hfind] at hnext
  constructor
  · rintro ⟨hwalk, hquiet, -⟩
    by_contra hbit
    change (next e s i).mmu.iState = .level1 at hwalk
    change (next e s i).pageFault = false at hquiet
    rw [hnext] at hwalk hquiet
    rcases useEntry_of_valid (e := e) (latchPc e s (s.lookupPc i)) (s.lookupPc i)
      { i.junk with valid := false } i.tlb hbit with hfault | haccess
    · rw [hfault] at hquiet
      cases hquiet
    · rw [haccess] at hwalk
      cases hwalk
  · intro hbit
    rw [useEntry_of_invalid { i.junk with valid := false } hbit] at hnext
    refine ⟨?_, ?_, ?_⟩
    · change (next e s i).mmu.iState = .level1
      rw [hnext]
      rfl
    · change (next e s i).pageFault = false
      rw [hnext]
      rfl
    · change (next e s i).mmu.iMmuMem = _
      rw [hnext]
      rfl

end Immu

/-- For every table, request and left-over without a matching valid entry, both
sides start a walk exactly when bit 0 of the left-over `pte` is clear. -/
theorem miss_walks_iff_leftover_clear (e : Exec) :
    (∀ (s : Dmmu) (i : DmmuIn), s.LooksUp e i → Dmmu.Misses e i →
      (s.StartsWalk e i ↔ i.junk.pte &&& 1 = 0)) ∧
    (∀ (s : Immu) (i : ImmuIn), s.LooksUp e i → s.Misses e i →
      (s.StartsWalk e i ↔ i.junk.pte &&& 1 = 0)) :=
  ⟨fun _ _ => Dmmu.startsWalk_iff, fun _ _ => Immu.startsWalk_iff⟩

/-- Supervisor mode with an empty TLB and the left-over `pte` of a writable page: a
load and a fetch at `0x1000` go to `0x80000000` without a walk. -/
theorem leftover_used_as_translation :
    let e : Exec :=
      { priv := privS, csrRegs := Function.update (fun _ => 0) Csr.satp 0x80080000 }
    let junk : TlbEntry := { pte := 0x200000cf }
    let i : DmmuIn :=
      { req := { dmemReqAck := true, dmemAddr := 0x1000, dmemIsLoad := true }, junk := junk }
    let j : ImmuIn := { fetchPc := 0x1000, ifIdAccept := true, junk := junk }
    (Dmmu.LooksUp e {} i ∧ Dmmu.Misses e i ∧ ¬ Dmmu.StartsWalk e {} i ∧
      (Dmmu.dmemReqSeq e {} i).1.dState = .access ∧
      (Dmmu.dmemReqSeq e {} i).1.dMmuMem.dmemAddr = 0x80000000) ∧
    (Immu.LooksUp e {} j ∧ Immu.Misses e {} j ∧ ¬ Immu.StartsWalk e {} j ∧
      (Immu.imemReqSeq e {} j).1.iState = .access ∧
      (Immu.imemReqSeq e {} j).1.iMmuMem.imemAddr = 0x80000000) := by
  intro e junk i j
  have hd : (Dmmu.dmemReqSeq e {} i).1.dState = .access := by decide
  have hi : (Immu.imemReqSeq e {} j).1.iState = .access := by decide
  refine ⟨⟨⟨by decide, by decide, by decide, by decide⟩, ?_, ?_, hd, by decide⟩,
    ⟨by decide, by decide, by decide⟩, ?_, ?_, hi, by decide⟩
  · unfold Dmmu.Misses
    decide
  · rintro ⟨hwalk, -, -⟩
    rw [hd] at hwalk
    cases hwalk
  · unfold Immu.Misses
    decide
  · rintro ⟨hwalk, -, -⟩
    rw [hi] at hwalk
    cases hwalk

end Turtle
