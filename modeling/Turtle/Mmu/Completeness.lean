import Turtle.Mmu.Soundness

/-!
# Which permitted accesses the data side translates

A translation takes one of three paths: a hit in the TLB, a megapage at level 1,
or a pointer and a page. The inputs of a path are the request, the entries that
memory delivers and any number of cycles in which it does not answer. The
permission formula is stricter than Sv32 in three places, and the main result
says exactly which permitted accesses it turns into page faults.
-/

namespace Turtle

open Sv32 Sv32.Pte

theorem v_of_isPointer {pte : BitVec 32} (h : isPointer pte = true) : v pte = true := by
  simp only [isPointer, Bool.and_eq_true] at h
  exact h.1.1.1.1.1.1

theorem v_of_permits {c : Context} {k : Access} {pte : BitVec 32} (h : permits c k pte = true) :
    v pte = true := by
  simp only [permits, isLeaf, Bool.and_eq_true] at h
  exact h.1.1.1.1

/-- A leaf is not mistaken for a pointer. -/
theorem and_byte_ne_one_of_permits {c : Context} {k : Access} {pte : BitVec 32}
    (h : permits c k pte = true) : pte &&& 0xFF ≠ 1 := by
  intro hbyte
  have hpointer := (and_byte_eq_one_iff.mp hbyte).1
  simp only [permits, isLeaf, Bool.and_eq_true, Bool.or_eq_true] at h
  simp only [isPointer, Bool.and_eq_true, Bool.not_eq_true'] at hpointer
  simp [hpointer] at h

/-- A path through `dmem_req_seq`, with the entries met on it. -/
inductive Path
  | hit (entry : TlbEntry)
  | megapage (pte : BitVec 32)
  | page (pte₁ pte₀ : BitVec 32)
  deriving DecidableEq, Repr

namespace Path

/-- The entry that ends the walk. -/
def leaf : Path → BitVec 32
  | hit entry => entry.pte
  | megapage pte => pte
  | page _ pte₀ => pte₀

/-- The Sv32 rules permit the access. -/
def permitted (c : Context) (k : Access) : Path → Bool
  | hit entry => permits c k entry.pte
  | megapage pte => permits c k pte && isAligned pte
  | page pte₁ pte₀ => isPointer pte₁ && permits c k pte₀

/-- A pointer on the path has its `G` bit set. -/
def globalPointer : Path → Bool
  | page pte₁ _ => g pte₁
  | _ => false

end Path

/-- The condition for the formula: a readable leaf for loads and `LR.W`, a dirty
leaf for `LR.W`, and no global pointer. -/
def DmemIn.Translatable (req : DmemIn) (p : Path) : Prop :=
  (req.access = .load → r p.leaf = true) ∧ (req.isLr = true → d p.leaf = true) ∧
    p.globalPointer = false

namespace DmmuIn

/-- The request arrives. -/
def Offers (req : DmemIn) (i : DmmuIn) : Prop :=
  i.rst = false ∧ i.flush = false ∧ i.req = { req with dmemReqAck := true }

/-- Memory does not answer while EXEC keeps showing the request. -/
def Waits (req : DmemIn) (i : DmmuIn) : Prop :=
  i.rst = false ∧ i.flush = false ∧ i.req = { req with dmemReqAck := false } ∧
    i.rsp.memRspAck = false

/-- Memory delivers an entry. -/
def Delivers (req : DmemIn) (pte : BitVec 32) (i : DmmuIn) : Prop :=
  i.rst = false ∧ i.flush = false ∧ i.req = { req with dmemReqAck := false } ∧
    i.rsp.memRspAck = true ∧ i.rsp.memRspRdata = pte

/-- What the TLB returns for the request. -/
def lookup (e : Exec) (req : DmemIn) (i : DmmuIn) : TlbEntry :=
  (i.tlb.find i.junk ((e.csrRegs Csr.satp >>> 20) &&& 0x1ff) (req.dmemAddr >>> 12)).1

end DmmuIn

namespace Dmmu

open DmmuIn

/-- The inputs that take a request along a path. -/
inductive Feeds (e : Exec) (req : DmemIn) : Path → List DmmuIn → Prop
  | hit {i : DmmuIn} {entry : TlbEntry} : Offers req i → i.lookup e req = entry →
      v entry.pte = true → Feeds e req (.hit entry) [i]
  | megapage {i j : DmmuIn} {ws : List DmmuIn} {pte : BitVec 32} : Offers req i →
      v (i.lookup e req).pte = false → (∀ k ∈ ws, Waits req k) → Delivers req pte j →
      Feeds e req (.megapage pte) (i :: (ws ++ [j]))
  | page {i j k : DmmuIn} {ws xs : List DmmuIn} {pte₁ pte₀ : BitVec 32} : Offers req i →
      v (i.lookup e req).pte = false → (∀ k ∈ ws, Waits req k) → Delivers req pte₁ j →
      (∀ k ∈ xs, Waits req k) → Delivers req pte₀ k →
      Feeds e req (.page pte₁ pte₀) (i :: (ws ++ j :: (xs ++ [k])))

/-- The registers after an edge. -/
def step (e : Exec) (s : Dmmu) (i : DmmuIn) : Dmmu := (dmemReqSeq e s i).1

/-- No cycle of a run raises a page fault. -/
def NoPageFault (e : Exec) (s : Dmmu) (is : List DmmuIn) : Prop :=
  ∀ t ∈ Clocked.trace (step e) (step e) s is, t.dPageFault = false

instance (e : Exec) (s : Dmmu) (is : List DmmuIn) : Decidable (NoPageFault e s is) :=
  inferInstanceAs (Decidable (∀ t ∈ _, _))

variable {e : Exec} {s : Dmmu} {i : DmmuIn} {is js : List DmmuIn} {req : DmemIn} {mode : Mode}

theorem noPageFault_cons : NoPageFault e s (i :: is) ↔
    (next e s i).pageFault = false ∧ NoPageFault e (step e s i) is := by
  simp only [NoPageFault, Clocked.trace_cons, List.forall_mem_cons]
  exact Iff.rfl

theorem noPageFault_single : NoPageFault e s [i] ↔ (next e s i).pageFault = false := by
  rw [noPageFault_cons]
  exact and_iff_left fun t ht => absurd ht List.not_mem_nil

theorem noPageFault_append : NoPageFault e s (is ++ js) ↔
    NoPageFault e s is ∧ NoPageFault e (Clocked.run (step e) s is) js := by
  induction is generalizing s with
  | nil => exact ⟨fun h => ⟨fun t ht => absurd ht List.not_mem_nil, h⟩, fun h => h.2⟩
  | cons i is ih => rw [List.cons_append, noPageFault_cons, noPageFault_cons, ih, and_assoc]; rfl

/-- A walk waits for an entry of a level, with the request latched. -/
structure Awaits (e : Exec) (req : DmemIn) (level : WalkState) (s : Dmmu) : Prop where
  dState_eq : s.dState = level
  holds : Holds e req s

theorem next_of_offers (hidle : s.dState = .idle) (h : Offers req i) :
    next e s i = idleStep e s i :=
  next_of_idle (Bool.or_eq_false_iff.mpr ⟨h.1, h.2.1⟩) hidle

/-- Translation is on for every request made with the privilege of a mode. -/
theorem translates (hon : satpOn (e.csrRegs Csr.satp) = true)
    (hmode : e.dataPriv = (modePriv mode).setWidth 8) :
    (satpOn (e.csrRegs Csr.satp) && (e.priv == privS || e.priv == privU || e.dataPriv != 3)) =
      true := by
  have hpriv : (e.dataPriv != 3) = true := by
    rw [hmode]
    cases mode <;> decide
  rw [hon, hpriv, Bool.or_true, Bool.and_true]

/-- The idle state with a request, in terms of the lookup. -/
theorem idleStep_of_offers (hon : satpOn (e.csrRegs Csr.satp) = true)
    (hmode : e.dataPriv = (modePriv mode).setWidth 8) (hoffers : Offers req i) :
    (v (i.lookup e req).pte = true → (idleStep e s i).pageFault =
      leafFault e e.dataPriv (opOf req) req (i.lookup e req).pte) ∧
    (v (i.lookup e req).pte = false → (idleStep e s i).pageFault = false ∧
      (idleStep e s i).mmu.dState = .level1 ∧ Holds e req (idleStep e s i).mmu) := by
  have hack : i.req.dmemReqAck = true := by rw [hoffers.2.2]
  have hlookup : i.lookup e req = i.lookup e i.req := by rw [hoffers.2.2]; rfl
  have hop : opOf req = opOf i.req := by rw [hoffers.2.2]; rfl
  have hholds {t : Dmmu} (h : Holds e i.req t) : Holds e req t := by
    rw [hoffers.2.2] at h
    exact ⟨h.dPriv_eq, h.dOp_eq, h.dVpn0_eq, h.dOffset_eq⟩
  have hformula : leafFault e e.dataPriv (opOf req) req (i.lookup e req).pte =
      leafFault e e.dataPriv (opOf i.req) i.req (i.lookup e i.req).pte := by
    rw [hlookup, hop, hoffers.2.2]
    rfl
  rw [hformula, hlookup]
  obtain ⟨n, hn⟩ : ∃ n, n = idleStep e s i := ⟨_, rfl⟩
  rw [← hn]
  unfold idleStep at hn
  dsimp only at hn
  rw [if_pos hack] at hn
  split at hn
  · split at hn
    · rename_i hvalid
      change (i.lookup e i.req).pte &&& 1 ≠ 0 at hvalid
      rw [Ne, and_one_eq_zero_iff, Bool.not_eq_false] at hvalid
      refine ⟨fun _ => ?_, fun h => absurd (hvalid.symm.trans h) (by decide)⟩
      split at hn
      · rename_i hfault
        rw [hn]
        exact hfault.symm
      · rename_i hfault
        have hpass : n.pageFault = false := by
          split at hn <;> rw [hn]
        rw [hpass]
        exact (Bool.eq_false_of_not_eq_true hfault).symm
    · rename_i hvalid
      change ¬ (i.lookup e i.req).pte &&& 1 ≠ 0 at hvalid
      rw [not_not, and_one_eq_zero_iff] at hvalid
      refine ⟨fun h => absurd (hvalid.symm.trans h) (by decide), fun _ => ?_⟩
      rw [hn]
      exact ⟨rfl, rfl, hholds ⟨rfl, rfl, rfl, rfl⟩⟩
  · rename_i hoff
    exact absurd (translates hon hmode) hoff

theorem awaits_step {level : WalkState} (hstate : (next e s i).mmu.dState = level)
    (hholds : Holds e req (next e s i).mmu) : Awaits e req level (step e s i) :=
  ⟨hstate, hholds.dPriv_eq, hholds.dOp_eq, hholds.dVpn0_eq, hholds.dOffset_eq⟩

/-- A hit is judged by the formula at once. -/
theorem pageFault_of_hit (hidle : s.dState = .idle) (hon : satpOn (e.csrRegs Csr.satp) = true)
    (hmode : e.dataPriv = (modePriv mode).setWidth 8) (hoffers : Offers req i)
    (hv : v (i.lookup e req).pte = true) :
    (next e s i).pageFault = leafFault e e.dataPriv (opOf req) req (i.lookup e req).pte := by
  rw [next_of_offers hidle hoffers]
  exact (idleStep_of_offers hon hmode hoffers).1 hv

/-- A miss starts a walk. -/
theorem awaits_of_miss (hidle : s.dState = .idle) (hon : satpOn (e.csrRegs Csr.satp) = true)
    (hmode : e.dataPriv = (modePriv mode).setWidth 8) (hoffers : Offers req i)
    (hv : v (i.lookup e req).pte = false) :
    (next e s i).pageFault = false ∧ Awaits e req .level1 (step e s i) := by
  obtain ⟨hpass, hstate, hholds⟩ := (idleStep_of_offers (s := s) hon hmode hoffers).2 hv
  rw [← next_of_offers hidle hoffers] at hpass hstate hholds
  exact ⟨hpass, awaits_step hstate hholds⟩

/-- Waiting changes nothing. -/
theorem awaits_of_waits {level : WalkState} {ws : List DmmuIn} (hlevel : level ≠ .idle)
    (hs : Awaits e req level s) (hws : ∀ i ∈ ws, Waits req i) :
    NoPageFault e s ws ∧ Awaits e req level (Clocked.run (step e) s ws) := by
  induction ws generalizing s with
  | nil => exact ⟨fun t ht => absurd ht List.not_mem_nil, hs⟩
  | cons i ws ih =>
    obtain ⟨hrst, hflush, -, hquiet⟩ := hws i List.mem_cons_self
    have hnext : next e s i =
        { mmu := { s with dMmuMem.dmemReqAck := false }, tlb := i.tlb } :=
      next_of_waits (Bool.or_eq_false_iff.mpr ⟨hrst, hflush⟩) (hs.dState_eq ▸ hlevel) hquiet
    have hstep : Awaits e req level (step e s i) := by
      apply awaits_step
      · rw [hnext]
        exact hs.dState_eq
      · rw [hnext]
        exact ⟨hs.holds.dPriv_eq, hs.holds.dOp_eq, hs.holds.dVpn0_eq, hs.holds.dOffset_eq⟩
    obtain ⟨hrest, hend⟩ := ih hstep fun k hk => hws k (List.mem_cons_of_mem _ hk)
    refine ⟨noPageFault_cons.mpr ⟨?_, hrest⟩, hend⟩
    rw [hnext]

/-- The level-1 entry is judged: a pointer with `G` clear is followed, and any
other entry has to be an aligned leaf that passes the formula. -/
theorem level1_of_delivers {pte : BitVec 32} (hs : Awaits e req .level1 s)
    (hdelivers : Delivers req pte i) :
    ((next e s i).pageFault = false ↔ v pte = true ∧ (pte &&& 0xFF = 1 ∨ (isAligned pte = true ∧
      leafFault e e.dataPriv (opOf req) req pte = false))) ∧
    (pte &&& 0xFF = 1 → Awaits e req .level2 (step e s i)) := by
  obtain ⟨hrst, hflush, hreq, hack, hdata⟩ := hdelivers
  have hnext : next e s i = level1Step e s i :=
    next_of_level1 (Bool.or_eq_false_iff.mpr ⟨hrst, hflush⟩) hs.dState_eq hack
  obtain ⟨n, hn⟩ : ∃ n, n = level1Step e s i := ⟨_, rfl⟩
  have hformula : leafFault e s.dPriv s.dOp i.req pte = leafFault e e.dataPriv (opOf req) req pte := by
    rw [hs.holds.dPriv_eq, hs.holds.dOp_eq, hreq]
    rfl
  have hstep : n.mmu.dState = .level2 → Holds e req n.mmu → Awaits e req .level2 (step e s i) := by
    intro hstate hholds
    rw [hn, ← hnext] at hstate hholds
    exact awaits_step hstate hholds
  rw [hnext, ← hn]
  unfold level1Step at hn
  dsimp only at hn
  rw [hdata, hformula] at hn
  have hvalid (h : pte &&& 0xFF = 1) : v pte = true :=
    v_of_isPointer (and_byte_eq_one_iff.mp h).1
  split at hn
  · rename_i hfault
    rw [and_one_eq_zero_iff, Ne, Ne, ← isAligned_iff] at hfault
    have hraised : n.pageFault = true := by rw [hn]; rfl
    rw [hraised]
    refine ⟨⟨fun h => absurd h (by decide), fun h => ?_⟩, fun h => ?_⟩
    · simp_all
    · simp_all
  · rename_i hpass
    rw [and_one_eq_zero_iff, Ne, Ne, ← isAligned_iff] at hpass
    have hraised : n.pageFault = false := by
      split at hn <;> rw [hn]
    refine ⟨⟨fun _ => ?_, fun _ => hraised⟩, fun h => ?_⟩
    · simp only [not_or, not_and_or, not_not, Bool.not_eq_true, Bool.not_eq_false] at hpass
      exact hpass
    · have hperms : ¬ pte &&& 0xFF &&& 0xE ≠ 0 := by
        rw [h]
        decide
      rw [if_neg hperms] at hn
      apply hstep
      · rw [hn]
      · rw [hn]
        exact ⟨hs.holds.dPriv_eq, hs.holds.dOp_eq, hs.holds.dVpn0_eq, hs.holds.dOffset_eq⟩

/-- The level-2 entry is judged by the formula. -/
theorem level2_of_delivers {pte : BitVec 32} (hs : Awaits e req .level2 s)
    (hdelivers : Delivers req pte i) :
    (next e s i).pageFault = false ↔
      v pte = true ∧ leafFault e e.dataPriv (opOf req) req pte = false := by
  obtain ⟨hrst, hflush, hreq, hack, hdata⟩ := hdelivers
  have hnext : next e s i = level2Step e s i :=
    next_of_level2 (Bool.or_eq_false_iff.mpr ⟨hrst, hflush⟩) hs.dState_eq hack
  have hformula : leafFault e s.dPriv s.dOp i.req pte = leafFault e e.dataPriv (opOf req) req pte := by
    rw [hs.holds.dPriv_eq, hs.holds.dOp_eq, hreq]
    rfl
  rw [hnext]
  unfold level2Step
  dsimp only
  rw [hdata, hformula]
  split
  · rename_i hfault
    rw [and_one_eq_zero_iff] at hfault
    refine ⟨fun h => absurd h (by simp [faulted]), fun h => ?_⟩
    simp_all
  · rename_i hpass
    rw [and_one_eq_zero_iff, not_or, Bool.not_eq_false, Bool.not_eq_true] at hpass
    exact ⟨fun _ => hpass, fun _ => rfl⟩

/-- Sv32 completeness of data translation, as far as it goes: a permitted access
runs through without a page fault exactly when it is translatable. -/
theorem noPageFault_iff_translatable {path : Path} (hidle : s.dState = .idle)
    (hon : satpOn (e.csrRegs Csr.satp) = true)
    (hmode : e.dataPriv = (modePriv mode).setWidth 8) (hreq : req.Proper)
    (hfeeds : Feeds e req path is)
    (hpermitted : path.permitted (e.context mode) req.access = true) :
    NoPageFault e s is ↔ req.Translatable path := by
  have hleaf {pte : BitVec 32} (h : permits (e.context mode) req.access pte = true) :
      leafFault e e.dataPriv (opOf req) req pte = false ↔
        (req.access = .load → r pte = true) ∧ (req.isLr = true → d pte = true) := by
    rw [hmode]
    exact leafFault_iff_of_permits hreq h
  cases hfeeds with
  | @hit i entry hoffers hlookup hv =>
    subst hlookup
    rw [noPageFault_single, pageFault_of_hit hidle hon hmode hoffers hv, hleaf hpermitted]
    simp [DmemIn.Translatable, Path.leaf, Path.globalPointer]
  | @megapage i j ws pte hoffers hv hws hdelivers =>
    simp only [Path.permitted, Bool.and_eq_true] at hpermitted
    obtain ⟨hstart, hawaits⟩ := awaits_of_miss hidle hon hmode hoffers hv
    obtain ⟨hwaited, hawaits⟩ := awaits_of_waits (by decide) hawaits hws
    rw [noPageFault_cons, noPageFault_append, noPageFault_single,
      (level1_of_delivers hawaits hdelivers).1, hleaf hpermitted.1]
    have hbyte := and_byte_ne_one_of_permits hpermitted.1
    constructor
    · rintro ⟨-, -, -, h | ⟨-, hr, hd⟩⟩
      · exact absurd h hbyte
      · exact ⟨hr, hd, rfl⟩
    · rintro ⟨hr, hd, -⟩
      exact ⟨hstart, hwaited, v_of_permits hpermitted.1, .inr ⟨hpermitted.2, hr, hd⟩⟩
  | @page i j k ws xs pte₁ pte₀ hoffers hv hws hdelivers₁ hxs hdelivers₀ =>
    simp only [Path.permitted, Bool.and_eq_true] at hpermitted
    obtain ⟨hpointer, hpermits⟩ := hpermitted
    obtain ⟨hstart, hawaits⟩ := awaits_of_miss hidle hon hmode hoffers hv
    obtain ⟨hwaited, hawaits⟩ := awaits_of_waits (by decide) hawaits hws
    obtain ⟨hjudged, hfollow⟩ := level1_of_delivers hawaits hdelivers₁
    rw [noPageFault_cons, noPageFault_append, noPageFault_cons, noPageFault_append,
      noPageFault_single, hjudged]
    -- A pointer is followed only when its byte is 1; as a leaf it is not readable.
    have hunread : leafFault e e.dataPriv (opOf req) req pte₁ ≠ false := by
      rw [hmode, Ne, leafFault_eq_false_iff hreq]
      simp only [isPointer, Bool.and_eq_true, Bool.not_eq_true'] at hpointer
      simp [hpointer]
    have hrest (hbyte : pte₁ &&& 0xFF = 1) := awaits_of_waits (by decide) (hfollow hbyte) hxs
    constructor
    · rintro ⟨-, -, ⟨-, hbyte | ⟨-, h⟩⟩, -, hlast⟩
      · have hend := (level2_of_delivers (hrest hbyte).2 hdelivers₀).mp hlast
        obtain ⟨hr, hd⟩ := (hleaf hpermits).mp hend.2
        exact ⟨hr, hd, (and_byte_eq_one_iff.mp hbyte).2⟩
      · exact absurd h hunread
    · rintro ⟨hr, hd, hg⟩
      have hbyte : pte₁ &&& 0xFF = 1 := and_byte_eq_one_iff.mpr ⟨hpointer, hg⟩
      refine ⟨hstart, hwaited, ⟨v_of_isPointer hpointer, .inl hbyte⟩, (hrest hbyte).1, ?_⟩
      rw [level2_of_delivers (hrest hbyte).2 hdelivers₀]
      exact ⟨v_of_permits hpermits, (hleaf hpermits).mpr ⟨hr, hd⟩⟩

/-- The requests of the examples: an access to address `0x10`. -/
def loadWord : DmemIn := { dmemAddr := 0x10, dmemIsLoad := true }
def storeWord : DmemIn := { dmemAddr := 0x10, dmemIsStore := true }
def loadReserved : DmemIn := { dmemAddr := 0x10, dmemIsAmo := true, dmemAmoop := 0 }

/-- The arrival of a request, with an empty TLB. -/
def offer (req : DmemIn) : DmmuIn := { req := { req with dmemReqAck := true } }

/-- The delivery of an entry. -/
def deliver (req : DmemIn) (pte : BitVec 32) : DmmuIn :=
  { req := { req with dmemReqAck := false }, rsp := { memRspAck := true, memRspRdata := pte } }

/-- A permitted access that a run along a path ends in a page fault. -/
def PermittedButFaults (e : Exec) (req : DmemIn) (path : Path) (is : List DmmuIn) : Prop :=
  Feeds e req path is ∧ path.permitted (e.context .supervisor) req.access = true ∧
    ¬ NoPageFault e {} is

/-- The supervisor with `MXR` set. -/
def mxrExec : Exec := supervisorExec.write Csr.mstatus Mstatus.mxr

/-- A TLB entry for an executable page that is not readable. -/
def executeOnly : TlbEntry := { pte := 0x20000849, valid := true }

theorem offers_offer : Offers req (offer req) := ⟨rfl, rfl, rfl⟩

theorem delivers_deliver (pte : BitVec 32) : Delivers req pte (deliver req pte) :=
  ⟨rfl, rfl, rfl, rfl, rfl⟩

theorem feeds_megapage (pte : BitVec 32) (hmiss : v ((offer req).lookup e req).pte = false) :
    Feeds e req (.megapage pte) (offer req :: ([] ++ [deliver req pte])) :=
  .megapage offers_offer hmiss (by simp) (delivers_deliver pte)

theorem feeds_page (pte₁ pte₀ : BitVec 32) (hmiss : v ((offer req).lookup e req).pte = false) :
    Feeds e req (.page pte₁ pte₀)
      (offer req :: ([] ++ deliver req pte₁ :: ([] ++ [deliver req pte₀]))) :=
  .page offers_offer hmiss (by simp) (delivers_deliver pte₁) (by simp) (delivers_deliver pte₀)

/-- A store through the page table of the example meets no page fault. -/
theorem noPageFault_storeWord :
    NoPageFault supervisorExec {}
      [offer storeWord, deliver storeWord 0x20000401, deliver storeWord 0x200008cf] := by
  have hfeeds : Feeds supervisorExec storeWord _ _ :=
    feeds_page 0x20000401 0x200008cf (by decide)
  have hmode : supervisorExec.dataPriv = (modePriv .supervisor).setWidth 8 := by decide
  exact (noPageFault_iff_translatable rfl (by decide) hmode (by decide) hfeeds
    (by decide)).mpr ⟨by decide, by decide, by decide⟩

/-- Three permitted accesses that end in a page fault: a load from an executable
page under `MXR` with a TLB hit, `LR.W` on a clean megapage, and a store through a
global pointer. -/
theorem permitted_accesses_fault :
    PermittedButFaults mxrExec loadWord (.hit executeOnly)
      [{ offer loadWord with tlb := ⟨executeOnly :: List.replicate 31 {}⟩ }] ∧
    PermittedButFaults supervisorExec loadReserved (.megapage 0x20000043)
      [offer loadReserved, deliver loadReserved 0x20000043] ∧
    PermittedButFaults supervisorExec storeWord (.page 0x20000421 0x200008c7)
      [offer storeWord, deliver storeWord 0x20000421, deliver storeWord 0x200008c7] := by
  refine ⟨⟨.hit ⟨rfl, rfl, rfl⟩ ?_ ?_, ?_, ?_⟩, ⟨feeds_megapage _ ?_, ?_, ?_⟩,
    ⟨feeds_page _ _ ?_, ?_, ?_⟩⟩
  all_goals decide

end Dmmu

end Turtle
