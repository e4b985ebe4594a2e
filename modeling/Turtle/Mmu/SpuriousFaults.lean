import Turtle.Mmu.Permission
import Turtle.Mmu.Protected
import Turtle.PmpDecision

/-!
# Access faults of permitted requests

`dmem_req_seq` chooses the operation and the length that it asks `dcheck` about by itself: it
asks for a write of the request's size for stores and all atomics, and for a read of four bytes
from the address for every load. So `LR_W` faults in a region that is only readable, and a load
of a byte or a halfword can fault because of the bytes behind it. Every other request that the
protection rule permits passes.
-/

namespace Turtle

open Protection

namespace Pmp

variable {p : Pmp} {i : Fin 64} {addr : BitVec 32} {n : ℕ}

/-- Up to four bytes lie in the words of the first and of the last one. -/
theorem word_of_mem_short (hn : n ≤ 4) {b : ℕ} (hb : b ∈ bytes addr n) :
    addr.toNat / 4 = b / 4 ∨ (addr.toNat + n - 1) / 4 = b / 4 := by
  obtain ⟨hlow, hhigh⟩ := hb
  omega

/-- A region touches up to four bytes when it has the first or the last one. -/
theorem matches_short_iff (hpos : 0 < n) (hn : n ≤ 4) :
    (p.entry i).Matches (bytes addr n) ↔
      addr.toNat ∈ p.regionOf i ∨ addr.toNat + n - 1 ∈ p.regionOf i := by
  constructor
  · rintro ⟨b, hb, hregion⟩
    refine (word_of_mem_short hn hb).imp (fun hword => ?_) fun hword => ?_
    · exact mem_regionOf_of_word hword.symm hregion
    · exact mem_regionOf_of_word hword.symm hregion
  · rintro (hregion | hregion)
    · exact ⟨_, ⟨le_rfl, by omega⟩, hregion⟩
    · exact ⟨_, ⟨by omega, by omega⟩, hregion⟩

/-- A region contains up to four bytes when it has the first and the last one. -/
theorem short_subset_iff (hpos : 0 < n) (hn : n ≤ 4) :
    bytes addr n ⊆ p.regionOf i ↔
      addr.toNat ∈ p.regionOf i ∧ addr.toNat + n - 1 ∈ p.regionOf i := by
  constructor
  · intro hsub
    exact ⟨hsub ⟨le_rfl, by omega⟩, hsub ⟨by omega, by omega⟩⟩
  · rintro ⟨hfirst, hlast⟩ b hb
    rcases word_of_mem_short hn hb with hword | hword
    · exact mem_regionOf_of_word hword hfirst
    · exact mem_regionOf_of_word hword hlast

/-- Below M-mode `dcheck` is the protection rule for up to four bytes, aligned or not. -/
theorem dcheck_iff_permits {k : Kind} {size : BitVec 8} {priv : BitVec 32}
    (hindexed : p.Indexed) (hnarrow : p.Narrow) (hpos : 0 < size.toNat) (hsize : size.toNat ≤ 4)
    (hpriv : priv ≠ privM) :
    p.dcheck (addr.setWidth 64) (opBit k) size priv = true ↔
      Permits p.entry (priv = privM) k (bytes addr size.toNat) := by
  have haddr : (addr.setWidth 64).toNat = addr.toNat := by
    rw [BitVec.toNat_setWidth]
    exact Nat.mod_eq_of_lt (addr.isLt.trans (by decide))
  have hlast : (addr.setWidth 64 + size.setWidth 64 - 1).toNat = addr.toNat + size.toNat - 1 := by
    have hlt := addr.isLt
    have hwidth : (size.setWidth 64).toNat = size.toNat := by
      rw [BitVec.toNat_setWidth]
      exact Nat.mod_eq_of_lt (size.isLt.trans (by decide))
    rw [BitVec.toNat_sub, BitVec.toNat_add, haddr, hwidth]
    change (2 ^ 64 - 1 + (addr.toNat + size.toNat) % 2 ^ 64) % 2 ^ 64 = _
    omega
  have hfst (j : Fin 64) : (p.region j (addr.setWidth 64) size).1 = true ↔
      addr.toNat ∈ p.regionOf j := by
    rw [region_fst_iff hnarrow, haddr]
  have hsnd (j : Fin 64) : (p.region j (addr.setWidth 64) size).2 = true ↔
      addr.toNat + size.toNat - 1 ∈ p.regionOf j := by
    rw [region_snd, region_fst_iff hnarrow, hlast]
  have hhit (j : Fin 64) : p.hit (addr.setWidth 64) size priv j = true ↔
      (p.entry j).Matches (bytes addr size.toNat) := by
    rw [hit, Bool.and_eq_true, Bool.or_eq_true, Bool.or_eq_true, hfst, hsnd,
      matches_short_iff hpos hsize, bne_iff_ne]
    exact and_iff_left (.inl hpriv)
  rw [hindexed.dcheck, checkLoop_eq_find, permits_iff_first hpriv]
  by_cases hany : ∃ j, (p.entry j).Matches (bytes addr size.toNat)
  · obtain ⟨j, hj⟩ := exists_isLeast hany
    have hbefore (l : Fin 64) (hl : l < j) : p.hit (addr.setWidth 64) size priv l = false := by
      refine Bool.eq_false_of_not_eq_true fun hhit' => ?_
      exact absurd (hj.2 ((hhit l).mp hhit')) (not_le.mpr hl)
    rw [find?_finRange_of_first ((hhit j).mpr hj.1) hbefore, firstHas_iff hj]
    dsimp only
    rw [grants_iff, hfst, hsnd, and_comm]
    exact and_congr_left' (short_subset_iff hpos hsize).symm
  · have hnone : (List.finRange 64).find? (p.hit (addr.setWidth 64) size priv) = none := by
      rw [List.find?_eq_none]
      exact fun j _ hhit' => hany ⟨j, (hhit j).mp hhit'⟩
    rw [hnone]
    refine iff_of_false (fun hmachine => hpriv (beq_iff_eq.mp hmachine)) ?_
    rintro ⟨j, hj, -⟩
    exact hany ⟨j, hj.1⟩

end Pmp

namespace Dmmu

variable {e : Exec} {s : Dmmu} {i : DmmuIn} {addr : BitVec 32}

/-! ### The final access -/

/-- In this cycle the request itself is to go to memory, at the physical address `addr`. -/
structure FinalAccess (e : Exec) (s : Dmmu) (i : DmmuIn) (addr : BitVec 32) : Prop where
  state : (next e s i).mmu.dState = .access
  request : (next e s i).mmu.dMmuMem = forwardTo i.req addr

instance : Decidable (FinalAccess e s i addr) :=
  decidable_of_iff ((next e s i).mmu.dState = .access ∧
    (next e s i).mmu.dMmuMem = forwardTo i.req addr) ⟨fun h => ⟨h.1, h.2⟩, fun h => ⟨h.1, h.2⟩⟩

theorem Outcome.finalAccess {levels : List WalkState} (h : Outcome i.req levels (next e s i))
    (hpage : (next e s i).pageFault = false) (hlevels : .access ∉ levels)
    (hstate : (next e s i).mmu.dState = .access) : ∃ addr, FinalAccess e s i addr := by
  cases h with
  | fault hfault => exact absurd hfault (by rw [hpage]; exact Bool.false_ne_true)
  | load addr hlevel hlevel' _ => exact absurd (hstate.symm.trans hlevel' ▸ hlevel) hlevels
  | access addr _ hmem => exact ⟨addr, hstate, hmem⟩

/-- Whatever goes out in the access state is the request that EXEC shows. -/
theorem exists_finalAccess (hpage : (next e s i).pageFault = false)
    (hstate : (next e s i).mmu.dState = .access)
    (hack : (next e s i).mmu.dMmuMem.dmemReqAck = true) : ∃ addr, FinalAccess e s i addr := by
  by_cases hreset : (i.rst || i.flush) = true
  · rw [next, if_pos hreset] at hack
    cases hack
  have hrunning : (i.rst || i.flush) = false := Bool.eq_false_of_not_eq_true hreset
  by_cases hidle : s.dState = .idle
  · have hnext : next e s i = idleStep e s i := next_of_idle hrunning hidle
    by_cases hreq : i.req.dmemReqAck = true
    · exact (hnext ▸ idleStep_outcome hreq : Outcome i.req _ (next e s i)).finalAccess hpage
        (by decide) hstate
    · rw [hnext, idleStep, if_neg hreq] at hack
      cases hack
  by_cases hrsp : i.rsp.memRspAck = true
  · by_cases hlevel1 : s.dState = .level1
    · have hnext : next e s i = level1Step e s i := next_of_level1 hrunning hlevel1 hrsp
      exact (hnext ▸ level1Step_outcome : Outcome i.req _ (next e s i)).finalAccess hpage
        (by decide) hstate
    by_cases hlevel2 : s.dState = .level2
    · have hnext : next e s i = level2Step e s i := next_of_level2 hrunning hlevel2 hrsp
      exact (hnext ▸ level2Step_outcome : Outcome i.req _ (next e s i)).finalAccess hpage
        (by decide) hstate
    · rw [next, if_neg hreset, if_neg hidle, if_pos hrsp, if_neg hlevel1, if_neg hlevel2] at hack
      cases hack
  · rw [next_of_waits hrunning hidle (Bool.eq_false_of_not_eq_true hrsp)] at hack
    cases hack

end Dmmu

/-! ### The gate -/

namespace DmemIn.Proper

variable {req : DmemIn}

theorem not_load (h : req.Proper) (hwrite : (req.dmemIsStore || req.dmemIsAmo) = true) :
    ¬ req.dmemIsLoad = true := by
  simp only [DmemIn.Proper, List.mem_cons, Prod.mk.injEq, List.not_mem_nil, or_false] at h
  rcases h with ⟨h₁, h₂, h₃⟩ | ⟨h₁, h₂, h₃⟩ | ⟨h₁, h₂, h₃⟩ <;> simp_all

theorem load_of_not_write (h : req.Proper)
    (hwrite : ¬ (req.dmemIsStore || req.dmemIsAmo) = true) : req.dmemIsLoad = true := by
  simp only [DmemIn.Proper, List.mem_cons, Prod.mk.injEq, List.not_mem_nil, or_false] at h
  rcases h with ⟨h₁, h₂, h₃⟩ | ⟨h₁, h₂, h₃⟩ | ⟨h₁, h₂, h₃⟩ <;> simp_all

end DmemIn.Proper

/-- A store or an atomic other than `LR_W` writes. -/
theorem DmemIn.kind_eq_write {req : DmemIn}
    (hwrite : (req.dmemIsStore || req.dmemIsAmo) = true) (hlr : ¬ req.isLr = true) :
    req.kind = .write := by
  rw [DmemIn.isLr, Bool.and_eq_true, beq_iff_eq, not_and] at hlr
  rw [DmemIn.kind, if_pos]
  rw [Bool.or_eq_true] at hwrite ⊢
  refine hwrite.imp_right fun hamo => ?_
  rw [Bool.and_eq_true, bne_iff_ne]
  exact ⟨hamo, hlr hamo⟩

/-- Everything else reads. -/
theorem DmemIn.kind_eq_read {req : DmemIn}
    (hwrite : ¬ (req.dmemIsStore || req.dmemIsAmo) = true) : req.kind = .read := by
  simp only [Bool.or_eq_true, not_or, Bool.not_eq_true] at hwrite
  simp [DmemIn.kind, hwrite.1, hwrite.2]

/-- `LR_W` is an atomic. -/
theorem DmemIn.write_of_isLr {req : DmemIn} (h : req.isLr = true) :
    (req.dmemIsStore || req.dmemIsAmo) = true := by
  rw [DmemIn.isLr, Bool.and_eq_true] at h
  rw [h.1, Bool.or_true]

namespace Dmmu

variable {e : Exec} {s : Dmmu} {i : DmmuIn} {addr : BitVec 32}

section Gate

variable (hindexed : e.pmp.Indexed) (hnarrow : e.pmp.Narrow) (hmachine : e.effectivePriv ≠ privM)

include hindexed hnarrow hmachine

/-- At an address that exists the gate is the protection rule for the operation and the length
that it asks about. -/
theorem gate_iff_permits {k : Kind} {size : BitVec 8} (hpma : isPmaValid addr = true)
    (hpos : 0 < size.toNat) (hsize : size.toNat ≤ 4) :
    (!e.pmpDcheck (addr.setWidth 64) (Pmp.opBit k) size || !isPmaValid addr) = false ↔
      Permits e.pmp.entry (e.effectivePriv = privM) k (Pmp.bytes addr size.toNat) := by
  rw [hpma, Bool.not_true, Bool.or_false, Bool.not_eq_false', Exec.pmpDcheck_eq]
  exact Pmp.dcheck_iff_permits hindexed hnarrow hpos hsize hmachine

/-- A store or an atomic passes when the rule permits a write of its size. -/
theorem pmpFault_write_iff {req : DmemIn} (hack : req.dmemReqAck = true)
    (hwrite : (req.dmemIsStore || req.dmemIsAmo) = true) (hpma : isPmaValid req.dmemAddr = true)
    (hpos : 0 < req.dmemSize.toNat) (hsize : req.dmemSize.toNat ≤ 4) :
    pmpFault e req = false ↔
      Permits e.pmp.entry (e.effectivePriv = privM) .write
        (Pmp.bytes req.dmemAddr req.dmemSize.toNat) := by
  rw [pmpFault, hack, if_pos hwrite, Bool.true_and]
  exact gate_iff_permits hindexed hnarrow hmachine (k := .write) hpma hpos hsize

/-- A load passes when the rule permits a read of four bytes. -/
theorem pmpFault_load_iff {req : DmemIn} (hack : req.dmemReqAck = true)
    (hload : ¬ (req.dmemIsStore || req.dmemIsAmo) = true)
    (hpma : isPmaValid req.dmemAddr = true) :
    pmpFault e req = false ↔
      Permits e.pmp.entry (e.effectivePriv = privM) .read (Pmp.bytes req.dmemAddr 4) := by
  rw [pmpFault, hack, if_neg hload, Bool.true_and]
  exact gate_iff_permits hindexed hnarrow hmachine (k := .read) hpma (by decide) (by decide)

end Gate

/-- The entry that decides about a word also grants writes. -/
def DeciderWrites (p : Pmp) (addr : BitVec 32) (size : ℕ) : Prop :=
  ∀ j, Decides p.entry (Pmp.bytes addr size) j → (p.entry j).grants .write

/-- The entry that decides about the four bytes from an address on contains all of them. -/
def WordUndivided (p : Pmp) (addr : BitVec 32) : Prop :=
  ∀ j, Decides p.entry (Pmp.bytes addr 4) j → Pmp.bytes addr 4 ⊆ (p.entry j).region

section Permitted

variable {req : DmemIn}
  (hpermits : Permits e.pmp.entry (e.effectivePriv = privM) req.kind
    (Pmp.bytes addr req.dmemSize.toNat))
  (hmachine : e.effectivePriv ≠ privM)

include hpermits hmachine

/-- A permitted store or atomic is permitted as a write, unless it is `LR_W` and the deciding
entry grants reads only. -/
theorem permits_write_iff (hwrite : (req.dmemIsStore || req.dmemIsAmo) = true) :
    Permits e.pmp.entry (e.effectivePriv = privM) .write (Pmp.bytes addr req.dmemSize.toNat) ↔
      (req.isLr = true → DeciderWrites e.pmp addr req.dmemSize.toNat) := by
  refine (hpermits.kind_iff hmachine).trans ⟨fun h _ => h, fun h => ?_⟩
  by_cases hlr : req.isLr = true
  · exact h hlr
  · rw [DmemIn.kind_eq_write hwrite hlr] at hpermits
    exact (hpermits.kind_iff hmachine).mp hpermits

omit hmachine in
/-- A permitted load may read four bytes when no entry divides them. -/
theorem permits_word_iff (hwrite : ¬ (req.dmemIsStore || req.dmemIsAmo) = true)
    (hpos : 0 < req.dmemSize.toNat) (hsize : req.dmemSize.toNat ≤ 4) :
    Permits e.pmp.entry (e.effectivePriv = privM) .read (Pmp.bytes addr 4) ↔
      WordUndivided e.pmp addr := by
  rw [DmemIn.kind_eq_read hwrite] at hpermits
  have hword : Pmp.bytes addr req.dmemSize.toNat ⊆ Pmp.bytes addr 4 :=
    fun b hb => ⟨hb.1, hb.2.trans_le (Nat.add_le_add_left hsize _)⟩
  have hsome : (Pmp.bytes addr req.dmemSize.toNat).Nonempty :=
    ⟨addr.toNat, le_rfl, Nat.lt_add_of_pos_right hpos⟩
  exact hpermits.wider_iff hword hsome

end Permitted

/-- For every PMP configuration, a permitted final access from S-mode or U-mode raises no PMP
fault exactly when, for `LR_W`, the deciding entry also grants writes and, for a load, no entry
divides the four bytes from its address on. -/
theorem permitted_passes_iff (us : List Pmp.Update) (e : Exec) (s : Dmmu) (i : DmmuIn)
    (addr : BitVec 32) (hpmp : e.pmp = Clocked.run Pmp.apply {} us)
    (hpriv : e.effectivePriv = privS ∨ e.effectivePriv = privU) (hreq : i.req.Proper)
    (hsize : i.req.dmemSize = 1 ∨ i.req.dmemSize = 2 ∨ i.req.dmemSize = 4)
    (hram : 0x80000000 ≤ addr) (hfinal : FinalAccess e s i addr)
    (hpermits : Permits e.pmp.entry (e.effectivePriv = privM) i.req.kind
      (Pmp.bytes addr i.req.dmemSize.toNat)) :
    (dmemReqSeq e s i).1.dPmpFault = false ↔
      (i.req.isLr = true → DeciderWrites e.pmp addr i.req.dmemSize.toNat) ∧
      (i.req.dmemIsLoad = true → WordUndivided e.pmp addr) := by
  have hindexed : e.pmp.Indexed := hpmp ▸ Pmp.indexed_powerUp.run us
  have hnarrow : e.pmp.Narrow := hpmp ▸ Pmp.narrow_powerUp.run us
  have hmachine : e.effectivePriv ≠ privM := Pmp.ne_privM hpriv
  have hpma : isPmaValid addr = true := by
    rw [isPmaValid, decide_eq_true hram, Bool.true_or, Bool.true_or, Bool.true_or]
  have hfault : (dmemReqSeq e s i).1.dPmpFault = pmpFault e (forwardTo i.req addr) := by
    rw [← hfinal.request]
    rfl
  have hshort : 0 < i.req.dmemSize.toNat ∧ i.req.dmemSize.toNat ≤ 4 := by
    rcases hsize with h | h | h <;> rw [h] <;> decide
  rw [hfault]
  by_cases hwrite : (i.req.dmemIsStore || i.req.dmemIsAmo) = true
  · have hload : ¬ i.req.dmemIsLoad = true := hreq.not_load hwrite
    have hgate : pmpFault e (forwardTo i.req addr) = false ↔ _ :=
      pmpFault_write_iff hindexed hnarrow hmachine rfl hwrite hpma hshort.1 hshort.2
    refine hgate.trans ((permits_write_iff hpermits hmachine hwrite).trans ?_)
    exact ⟨fun h => ⟨h, fun hl => absurd hl hload⟩, fun h => h.1⟩
  · have hload : i.req.dmemIsLoad = true := hreq.load_of_not_write hwrite
    have hgate : pmpFault e (forwardTo i.req addr) = false ↔ _ :=
      pmpFault_load_iff hindexed hnarrow hmachine rfl hwrite hpma
    refine hgate.trans ((permits_word_iff hpermits hwrite hshort.1 hshort.2).trans ?_)
    exact ⟨fun h => ⟨fun hlr => absurd (DmemIn.write_of_isLr hlr) hwrite, fun _ => h⟩,
      fun h => h.2 hload⟩

/-- Everything from the start of RAM to `0x800000ff` may be read and nothing else. -/
def readablePage : List Pmp.Update :=
  [.addr 0 0x20000000, .addr 1 0x20000040, .config 0 0x0900]

/-- U-mode with translation off, and that configuration. -/
def readOnlyExec : Exec where
  priv := privU
  pmp := Clocked.run Pmp.apply {} readablePage

/-- A load of one byte. -/
def byteLoad (addr : BitVec 32) : DmemIn :=
  { dmemReqAck := true, dmemAddr := addr, dmemSize := 1, dmemIsLoad := true }

/-- `LR_W`. -/
def reservedLoad (addr : BitVec 32) : DmemIn :=
  { dmemReqAck := true, dmemAddr := addr, dmemIsAmo := true }

theorem readOnly_permits (addr : BitVec 32) (size : BitVec 8)
    (hpos : 0 < size.toNat) (hsize : size.toNat ≤ 4)
    (h : readOnlyExec.pmp.dcheck (addr.setWidth 64) (Pmp.opBit .read) size privU = true) :
    Permits readOnlyExec.pmp.entry (readOnlyExec.effectivePriv = privM) .read
      (Pmp.bytes addr size.toNat) :=
  (Pmp.dcheck_iff_permits (Pmp.indexed_powerUp.run _) (Pmp.narrow_powerUp.run _) hpos hsize
    (by decide)).mp h

/-- A byte inside the region passes, so the four bytes from it on are not divided. -/
theorem permitted_passes_iff_inside : WordUndivided readOnlyExec.pmp 0x80000001 := by
  have hpermits := readOnly_permits 0x80000001 1 (by decide) (by decide) (by decide)
  have hiff := permitted_passes_iff readablePage readOnlyExec {} { req := byteLoad 0x80000001 }
    0x80000001 rfl (.inr (by decide)) (by decide) (.inl rfl) (by decide) (by decide) hpermits
  exact (hiff.mp (by decide)).2 rfl

/-- A load of the last byte of the region faults, and so does `LR_W` anywhere in it. -/
theorem permitted_faults :
    (FinalAccess readOnlyExec {} { req := byteLoad 0x800000ff } 0x800000ff ∧
      Permits readOnlyExec.pmp.entry (readOnlyExec.effectivePriv = privM) .read
        (Pmp.bytes 0x800000ff 1) ∧
      (dmemReqSeq readOnlyExec {} { req := byteLoad 0x800000ff }).1.dPmpFault = true) ∧
    (FinalAccess readOnlyExec {} { req := reservedLoad 0x80000000 } 0x80000000 ∧
      Permits readOnlyExec.pmp.entry (readOnlyExec.effectivePriv = privM) .read
        (Pmp.bytes 0x80000000 4) ∧
      (dmemReqSeq readOnlyExec {} { req := reservedLoad 0x80000000 }).1.dPmpFault = true) := by
  refine ⟨⟨by decide, ?_, by decide⟩, ⟨by decide, ?_, by decide⟩⟩
  · exact readOnly_permits 0x800000ff 1 (by decide) (by decide) (by decide)
  · exact readOnly_permits 0x80000000 4 (by decide) (by decide) (by decide)

end Dmmu

end Turtle
