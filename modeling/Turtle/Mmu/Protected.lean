import Turtle.Cpu
import Turtle.DataPath
import Turtle.PmpRule

/-!
# Protection of physical memory

Both sides of the MMU check a request at the edge at which they send it, with the
registers of that edge. Loads are checked as words and `LR_W` as a write, which only
asks for more. So every request that leaves the MMU, the loads of page-table entries
included, is permitted byte by byte at the effective privilege and goes to an address
that exists.
-/

namespace Turtle

open Protection Bits

/-- The privilege that counts for data accesses: `MPP` under `MPRV`. -/
def Exec.effectivePriv (e : Exec) : BitVec 32 :=
  if e.csrRegs Csr.mstatus &&& Mstatus.mprv ≠ 0 then mppField (e.csrRegs Csr.mstatus) else e.priv

/-- What a data request does: stores, `SC_W` and AMOs write, loads and `LR_W` read. -/
def DmemIn.kind (r : DmemIn) : Kind :=
  if r.dmemIsStore || (r.dmemIsAmo && r.dmemAmoop != 0) then .write else .read

/-- An access that the protection rule permits, as a whole and byte by byte, at an
address that exists. -/
structure Protected (e : Exec) (priv : BitVec 32) (k : Kind) (addr : BitVec 32) (size : ℕ) :
    Prop where
  pma : isPmaValid addr = true
  access : Permits e.pmp.entry (priv = privM) k (Pmp.bytes addr size)
  byte : ∀ b ∈ Pmp.bytes addr size, Permits e.pmp.entry (priv = privM) k {b}

theorem Protected.of_permits {e : Exec} {priv addr : BitVec 32} {k : Kind} {size : ℕ}
    (hpma : isPmaValid addr = true)
    (h : Permits e.pmp.entry (priv = privM) k (Pmp.bytes addr size)) :
    Protected e priv k addr size :=
  ⟨hpma, h, fun _ hb => h.byte hb⟩

theorem Exec.pmpDcheck_eq (e : Exec) (addr : BitVec 64) (op size : BitVec 8) :
    e.pmpDcheck addr op size = e.pmp.dcheck addr op size e.effectivePriv := by
  unfold pmpDcheck effectivePriv
  dsimp only
  split <;> rfl

/-! ### The data side -/

namespace Dmmu

variable {e : Exec} {s : Dmmu} {i : DmmuIn}

/-- What is sent has passed the checks. -/
theorem dmemReqSeq_checked (h : (dmemReqSeq e s i).1.dmmuToMem.dmemReqAck = true) :
    misaligned (dmemReqSeq e s i).1.dmmuToMem = false ∧
      pmpFault e (dmemReqSeq e s i).1.dmmuToMem = false := by
  unfold dmemReqSeq at h ⊢
  dsimp only at h ⊢
  split at h
  · cases h
  · rename_i hok
    rw [if_neg hok]
    simp only [Bool.or_eq_true, not_or, Bool.not_eq_true] at hok
    exact ⟨hok.2, hok.1.1⟩

end Dmmu

/-- The alignment check, for the sizes that exist. -/
theorem aligned_of_not_misaligned {r : DmemIn} (hack : r.dmemReqAck = true)
    (hsize : r.dmemSize = 1 ∨ r.dmemSize = 2 ∨ r.dmemSize = 4)
    (h : Dmmu.misaligned r = false) : r.dmemAddr.toNat % r.dmemSize.toNat = 0 := by
  rw [Dmmu.misaligned, hack, Bool.true_and, bne_eq_false_iff_eq] at h
  have hmultiple (n : ℕ)
      (hmask : ∀ i < 32, (-(r.dmemSize.setWidth 32)).getLsbD i = decide (n ≤ i)) :
      r.dmemAddr.toNat % 2 ^ n = 0 := by
    have hround := and_high_toNat r.dmemAddr _ hmask
    rw [h] at hround
    rw [hround]
    exact Nat.mul_mod_left _ _
  rcases hsize with hs | hs | hs
  · rw [hs] at hmultiple ⊢
    exact hmultiple 0 (by decide)
  · rw [hs] at hmultiple ⊢
    exact hmultiple 1 (by decide)
  · rw [hs] at hmultiple ⊢
    exact hmultiple 2 (by decide)

/-- A data request that passes the checks is protected. -/
theorem protected_of_checked {e : Exec} {r : DmemIn} (hindexed : e.pmp.Indexed)
    (hnarrow : e.pmp.Narrow) (hack : r.dmemReqAck = true)
    (hsize : r.dmemSize = 1 ∨ r.dmemSize = 2 ∨ r.dmemSize = 4)
    (haligned : Dmmu.misaligned r = false) (hpmp : Dmmu.pmpFault e r = false) :
    Protected e e.effectivePriv r.kind r.dmemAddr r.dmemSize.toNat := by
  have hal := aligned_of_not_misaligned hack hsize haligned
  have hnat : r.dmemSize.toNat = 1 ∨ r.dmemSize.toNat = 2 ∨ r.dmemSize.toNat = 4 := by
    rcases hsize with hs | hs | hs <;> simp [hs]
  rw [Dmmu.pmpFault, hack, Bool.true_and, Bool.or_eq_false_iff, Bool.not_eq_false',
    Bool.not_eq_false'] at hpmp
  obtain ⟨hcheck, hpma⟩ := hpmp
  refine .of_permits hpma ?_
  by_cases hwrite : (r.dmemIsStore || r.dmemIsAmo) = true
  · rw [if_pos hwrite, Exec.pmpDcheck_eq] at hcheck
    have hpermits : Permits e.pmp.entry (e.effectivePriv = privM) .write _ :=
      Pmp.permits_of_dcheck hindexed hnarrow hnat hal hcheck
    unfold DmemIn.kind
    split
    · exact hpermits
    · exact hpermits.imp fun i hw => .inr hw
  · have hkind : r.kind = .read := by
      simp only [Bool.or_eq_true, not_or, Bool.not_eq_true] at hwrite
      simp [DmemIn.kind, hwrite.1, hwrite.2]
    rw [if_neg hwrite, Exec.pmpDcheck_eq] at hcheck
    rw [hkind]
    exact Pmp.permits_of_dcheck hindexed hnarrow hnat hal hcheck

namespace DataPath

variable {δ : Type} {devices : List (Device δ)} {entry : BitVec 32} {s : DataPath δ}

/-- The requests of the DMMU have one of the three sizes. -/
theorem Reachable.request_size (hs : Reachable devices entry s)
    (hack : s.dmmu.dmmuToMem.dmemReqAck = true) :
    s.dmmu.dmmuToMem.dmemSize = 1 ∨ s.dmmu.dmmuToMem.dmemSize = 2 ∨
      s.dmmu.dmmuToMem.dmemSize = 4 := by
  have hload {level : WalkState} (h : s.dmmu.Loads level) : s.dmmu.dmmuToMem.dmemSize = 4 := by
    obtain ⟨addr, hreq⟩ := h.request
    rw [hreq]
    rfl
  rcases hs.inv.phase with hi | hb
  · rw [hi.quiet.no_request] at hack
    cases hack
  · rcases hb.phase with h | h | h | h
    · rw [h.no_request] at hack
      cases hack
    · exact .inr (.inr (hload h))
    · exact .inr (.inr (hload h))
    · obtain ⟨addr, hreq⟩ := h.request
      rw [hreq]
      rcases hs.core.holdsLatched with hlatched | ⟨f, j, hlatched⟩
      · exact absurd (hlatched ▸ hb.access) not_isAccess_bubble
      · have hsized := latch_sized f j
        rw [← hlatched] at hsized
        exact hsized hb.access.2.2

/-- Whatever the data side sends is protected. -/
theorem Reachable.protected (hs : Reachable devices entry s) (i : DataIn δ)
    (hack : (step devices entry s i).dmmu.dmmuToMem.dmemReqAck = true) :
    let r := (step devices entry s i).dmmu.dmmuToMem
    Protected s.core.exec s.core.exec.effectivePriv r.kind r.dmemAddr r.dmemSize.toNat := by
  have hsize := Reachable.request_size (.step i hs) hack
  obtain ⟨haligned, hpmp⟩ := Dmmu.dmemReqSeq_checked hack
  exact protected_of_checked hs.core.pmp_indexed hs.core.pmp_narrow hack hsize haligned hpmp

end DataPath

/-! ### The instruction side -/

namespace Immu

variable {e : Exec} {s : Immu} {i : ImmuIn}

/-- The requests of the instruction side: a word, which is fetched in the access state
and a page-table entry otherwise. -/
def WordRequest (n : Next) : Prop :=
  n.mmu.iMmuMem.imemReqAck = true →
    n.mmu.iMmuMem.imemAddr.toNat % 4 = 0 ∧ (n.isFetch = true ↔ n.mmu.iState = .access)

theorem wordRequest_fetch {addr : BitVec 32} {tlb : Tlb} (h : addr.toNat % 4 = 0) :
    WordRequest (fetch s addr tlb) := fun _ => ⟨h, iff_of_true rfl rfl⟩

theorem wordRequest_pteLoad {addr : BitVec 32} {tlb : Tlb} {level : WalkState}
    (hlevel : level ≠ .access) (h : addr.toNat % 4 = 0) :
    WordRequest (pteLoad s level addr tlb) :=
  fun _ => ⟨h, iff_of_false Bool.false_ne_true hlevel⟩

theorem wordRequest_of_none {n : Next} (h : n.mmu.iMmuMem.imemReqAck = false) : WordRequest n := by
  intro hack
  rw [h] at hack
  cases hack

theorem aligned_add {x y : BitVec 32} (hx : x.toNat % 4 = 0) (hy : y.toNat % 4 = 0) :
    (x + y).toNat % 4 = 0 := by
  rw [BitVec.toNat_add]
  omega

theorem aligned_shiftLeft (x : BitVec 32) : (x <<< 12).toNat % 4 = 0 := by
  rw [BitVec.toNat_shiftLeft, Nat.shiftLeft_eq]
  omega

theorem aligned_mul_four (x : BitVec 32) : (x * 4).toNat % 4 = 0 := by
  rw [BitVec.toNat_mul]
  change x.toNat * 4 % 2 ^ 32 % 4 = 0
  omega

theorem aligned_and_not_three (x : BitVec 32) : (x &&& ~~~3).toNat % 4 = 0 := by
  rw [and_not_three_toNat]
  omega

theorem aligned_and_mask (x : BitVec 32) : (x &&& 0x3FFFFC).toNat % 4 = 0 := by
  have hsplit : x &&& 0x3FFFFC = (x &&& 0x3FFFFF) &&& ~~~3 := by
    rw [BitVec.and_assoc]
    rfl
  rw [hsplit]
  exact aligned_and_not_three _

theorem readyStep_wordRequest : WordRequest (readyStep e s i) := by
  unfold readyStep
  dsimp only
  generalize (if i.ifIdAccept = true then i.fetchPc else s.immuPc) = pc
  split
  · split
    · split
      · exact wordRequest_of_none rfl
      · split
        · exact wordRequest_fetch (aligned_add (aligned_shiftLeft _) (aligned_and_mask _))
        · exact wordRequest_fetch (aligned_add (aligned_shiftLeft _) (aligned_and_not_three _))
    · exact wordRequest_pteLoad (by decide)
        (aligned_add (aligned_shiftLeft _) (aligned_mul_four _))
  · exact wordRequest_fetch (aligned_and_not_three _)

theorem level1Step_wordRequest : WordRequest (level1Step e s i) := by
  unfold level1Step
  dsimp only
  split
  · exact wordRequest_of_none rfl
  · split
    · exact wordRequest_fetch (aligned_add (aligned_shiftLeft _) (aligned_and_mask _))
    · exact wordRequest_pteLoad (by decide)
        (aligned_add (aligned_shiftLeft _) (aligned_mul_four _))

theorem level2Step_wordRequest : WordRequest (level2Step e s i) := by
  unfold level2Step
  dsimp only
  split
  · exact wordRequest_of_none rfl
  · exact wordRequest_fetch (aligned_add (aligned_shiftLeft _) (aligned_and_not_three _))

theorem next_wordRequest : WordRequest (next e s i) := by
  unfold next
  split_ifs
  · exact wordRequest_of_none rfl
  · exact readyStep_wordRequest
  · exact level1Step_wordRequest
  · exact level2Step_wordRequest
  · exact wordRequest_of_none rfl
  · exact wordRequest_of_none rfl

/-- Whatever the instruction side sends is protected: fetches ask for `X`, page-table
entries for `R`. -/
theorem imemReqSeq_protected (hindexed : e.pmp.Indexed) (hnarrow : e.pmp.Narrow)
    (hack : (imemReqSeq e s i).1.immuToMem.imemReqAck = true) :
    Protected e e.priv (if (imemReqSeq e s i).1.iState = .access then .execute else .read)
      (imemReqSeq e s i).1.immuToMem.imemAddr 4 := by
  have hstate : (imemReqSeq e s i).1.iState = (next e s i).mmu.iState := rfl
  have hsent : (imemReqSeq e s i).1.immuToMem = (next e s i).mmu.iMmuMem ∧
      pmpFault e (next e s i).mmu.iMmuMem (next e s i).isFetch = false := by
    unfold imemReqSeq at hack ⊢
    dsimp only at hack ⊢
    split at hack
    · cases hack
    · rename_i hok
      simp only [Bool.or_eq_true, not_or, Bool.not_eq_true] at hok
      exact ⟨by simp [hok], hok.1⟩
  obtain ⟨hreq, hpmp⟩ := hsent
  rw [hreq] at hack ⊢
  obtain ⟨haligned, hfetch⟩ := next_wordRequest hack
  rw [pmpFault, hack, Bool.true_and, Bool.or_eq_false_iff, Bool.not_eq_false',
    Bool.not_eq_false'] at hpmp
  refine .of_permits hpmp.2 (Pmp.permits_of_dcheck hindexed hnarrow (.inr (.inr rfl)) haligned
    (c := 4) ?_)
  rw [hstate]
  have hcheck : e.pmp.dcheck _ _ _ _ = true := hpmp.1
  by_cases hf : (next e s i).isFetch = true
  · rw [if_pos (hfetch.mp hf)]
    rw [if_pos hf] at hcheck
    exact hcheck
  · rw [if_neg (mt hfetch.mpr hf)]
    rw [if_neg hf] at hcheck
    exact hcheck

end Immu

/-- In every run and every cycle, a request that the data side writes to `dmmu_to_mem`
is protected at the effective privilege, and a request that the instruction side
writes to `immu_to_mem` at the current one. -/
theorem requests_protected (entry : BitVec 32) :
    (∀ (δ : Type) (devices : List (Device δ)) (s : DataPath δ) (i : DataIn δ),
      DataPath.Reachable devices entry s →
      let r := (DataPath.step devices entry s i).dmmu.dmmuToMem
      r.dmemReqAck = true → Protected s.core.exec s.core.exec.effectivePriv r.kind r.dmemAddr
        r.dmemSize.toNat) ∧
    (∀ (s : Cpu) (i : CpuIn), Cpu.Reachable entry s →
      let u := (Cpu.step entry s i).front.immu
      u.immuToMem.imemReqAck = true → Protected s.core.exec s.core.exec.priv
        (if u.iState = .access then .execute else .read) u.immuToMem.imemAddr 4) :=
  ⟨fun _ _ _ i hs hack => hs.protected i hack,
    fun _ _ hs hack => Immu.imemReqSeq_protected hs.core.pmp_indexed hs.core.pmp_narrow hack⟩

/-- A processor one cycle after its reset. -/
def cpuAfterReset : Cpu :=
  Cpu.step 0x80000000 (Cpu.step 0x80000000 {} { core := { rst := true, rstComb := true } }) {}

/-- The first store and the first fetch after reset. -/
theorem requests_protected_after_reset :
    (let r := (DataPath.step [Device.ram] 0x80000000 DataPath.storeAtEntry {}).dmmu.dmmuToMem
     r.dmemReqAck = true ∧ Protected DataPath.storeAtEntry.core.exec
        DataPath.storeAtEntry.core.exec.effectivePriv r.kind r.dmemAddr r.dmemSize.toNat) ∧
    (let u := (Cpu.step 0x80000000 cpuAfterReset {}).front.immu
     u.immuToMem.imemReqAck = true ∧ Protected cpuAfterReset.core.exec
        cpuAfterReset.core.exec.priv (if u.iState = .access then .execute else .read)
        u.immuToMem.imemAddr 4) := by
  have hstore : (DataPath.step [Device.ram] 0x80000000
      DataPath.storeAtEntry {}).dmmu.dmmuToMem.dmemReqAck = true := by decide
  have hfetch : (Cpu.step 0x80000000 cpuAfterReset {}).front.immu.immuToMem.imemReqAck = true := by
    decide
  refine ⟨⟨hstore, ?_⟩, hfetch, ?_⟩
  · exact (requests_protected 0x80000000).1 Unit [Device.ram] DataPath.storeAtEntry {}
      (.step _ (.start ⟨_, _, rfl, rfl⟩)) hstore
  · exact (requests_protected 0x80000000).2 cpuAfterReset {}
      (.step _ (.start ⟨{}, _, ⟨rfl, rfl⟩, rfl, rfl⟩)) hfetch

end Turtle
