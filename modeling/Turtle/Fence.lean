import Turtle.AddressSpaces
import Turtle.Exec.CombFacts

/-!
# SFENCE.VMA

EXEC hands the two register operands to `TLB::flush`: the ASID is compared with
the tag of an entry, and the virtual address with its page number. A fence with an
address therefore spares every translation of that address, and a fence with an
ASID removes the entries whose tag happens to be that number.
-/

namespace Turtle

namespace Exec

variable {e : Exec} {i : ExecIn} {c : ExecComb}

theorem execCsr_tlbFlush (write : Bool) : (e.execCsr i c write).tlbFlush = c.tlbFlush := by
  rcases e.execCsr_result i c write with ⟨v, f, h⟩ | ⟨a, h⟩
  · rw [h]
  · rw [h]
    rfl

theorem jump_tlbFlush (target : BitVec 32) : (c.jump target).tlbFlush = c.tlbFlush := by
  unfold ExecComb.jump
  dsimp only
  split <;> rfl

theorem branch_tlbFlush (taken : Bool) : (c.branch i.idEx taken).tlbFlush = c.tlbFlush := by
  cases taken with
  | false => rfl
  | true => exact jump_tlbFlush _

/-- Only `SFENCE.VMA` flushes the TLB. -/
theorem execType_tlbFlush : (e.execType i c).tlbFlush = c.tlbFlush ∨
    (i.idEx.type = .sfenceVma ∧
      (e.execType i c).tlbFlush = some (i.idEx.rs2Val, i.idEx.rs1Val)) := by
  unfold execType
  dsimp only
  cases i.idEx.type
  all_goals first
    | exact .inl rfl
    | exact .inl (execCsr_tlbFlush _)
    | exact .inl (jump_tlbFlush _)
    | exact .inl (branch_tlbFlush _)
    | (dsimp only; split <;> first | exact .inl rfl | exact .inr ⟨rfl, rfl⟩)

/-- EXEC executes an `SFENCE.VMA` in the cycle. -/
def Fences (e : Exec) (i : ExecIn) : Prop := (e.execComb i).tlbFlush ≠ none

/-- The TLB after the cycle. -/
def fence (e : Exec) (i : ExecIn) (t : Tlb) : Tlb :=
  match (e.execComb i).tlbFlush with
  | some (asid, vpn) => t.flush asid vpn
  | none => t

theorem Fences.operands (h : Fences e i) : i.idEx.type = .sfenceVma ∧
    (e.execComb i).tlbFlush = some (i.idEx.rs2Val, i.idEx.rs1Val) := by
  unfold Fences at h
  obtain ⟨-, -, -, hcomb⟩ := executed_of_decision (P := fun c => c.tlbFlush ≠ none) (by simp) h
  rw [hcomb] at h ⊢
  rcases e.execType_tlbFlush (i := i) (c := executeStart i) with hnone | hsome
  · exact absurd hnone h
  · exact hsome

theorem Fences.fence_eq (h : Fences e i) (t : Tlb) :
    e.fence i t = t.flush i.idEx.rs2Val i.idEx.rs1Val := by
  unfold fence
  rw [h.operands.2]

end Exec

namespace Tlb

variable {t t' : Tlb} {x : TlbEntry} {satp va asid vpn : BitVec 32} {ops : List TlbOp}

/-- No later lookup for the page of `va` returns an entry from before: whatever it
hits was stored after the fence. -/
def PageFenced (t' : Tlb) (va : BitVec 32) : Prop :=
  ∀ (ws : List TlbOp) (junk : TlbEntry) (satp va' : BitVec 32), va' >>> 12 = va >>> 12 →
    let x := ((Clocked.run apply t' ws).find junk (tlbTag satp) (va' >>> 12)).1
    x.valid = true → StoredBy ws x

/-- No later lookup under a `satp` with ASID `a` returns a non-global entry from
before that satisfies `named`. -/
def AsidFenced (t' : Tlb) (a : BitVec 9) (named : TlbEntry → Prop) : Prop :=
  ∀ (ws : List TlbOp) (junk : TlbEntry) (satp va' : BitVec 32), satpAsid satp = a →
    let x := ((Clocked.run apply t' ws).find junk (tlbTag satp) (va' >>> 12)).1
    x.valid = true → ¬ x.Global → named x → StoredBy ws x

theorem covers_of_page_eq {va' : BitVec 32} (h : va' >>> 12 = va >>> 12) (hx : x.Covers va') :
    x.Covers va := by
  have hnat := congrArg BitVec.toNat h
  simp only [BitVec.toNat_ushiftRight, Nat.shiftRight_eq_div_pow] at hnat
  obtain ⟨hhigh, hlow⟩ := hx
  refine ⟨by omega, hlow.imp_right fun hlow => ?_⟩
  rw [hlow, hnat]

/-- The address of the first page of an entry. -/
def firstAddr (x : TlbEntry) : BitVec 32 := BitVec.ofNat 32 (x.vpn.toNat * 4096)

theorem covers_firstAddr (x : TlbEntry) : x.Covers (firstAddr x) := by
  have hvpn := x.vpn.isLt
  have hnat : (firstAddr x).toNat = x.vpn.toNat * 4096 := by
    rw [firstAddr, BitVec.toNat_ofNat]
    omega
  refine ⟨by omega, .inr ?_⟩
  rw [hnat, Nat.mul_div_cancel _ (by omega)]

section

variable (hproper : ∀ y ∈ t.table, y.valid = true → Proper y)

include hproper

/-- A fence that spares every entry that contains `va` takes effect exactly when
there is none. -/
theorem pageFenced_iff (hspare : ∀ y, Proper y → y.Covers va → flushes asid vpn y = false) :
    PageFenced (t.flush asid vpn) va ↔ ∀ y ∈ t.table, y.valid = true → ¬ y.Covers va := by
  constructor
  · intro h y hy hvalid hcovers
    have hymem : y ∈ (t.flush asid vpn).table :=
      (mem_flush_iff hvalid).mpr ⟨hy, hspare y (hproper y hy hvalid) hcovers⟩
    have hhit : hits (tlbTag (satpFor y.asid.toNat)) (va >>> 12) y = true :=
      hits_iff.mpr ⟨hvalid, .inr (tlbTag_satpFor (hproper y hy hvalid).asid_lt), hcovers⟩
    obtain ⟨_, _, _, _, hop, -⟩ := h [] {} _ va rfl (find_valid_of_mem {} hymem hhit)
    cases hop
  · intro h ws junk satp va' hpage z hvalid
    obtain ⟨hmem, hhit⟩ := find_of_valid hvalid
    rcases mem_of_mem_run ws hvalid hmem with hold | hnew
    · refine absurd ?_ (h z ((mem_flush_iff hvalid).mp hold).1 hvalid)
      exact covers_of_page_eq hpage (hits_iff.mp hhit).2.2
    · exact hnew

/-- A fence for an ASID takes effect exactly when it removes every named entry
whose tag is used under that ASID. -/
theorem asidFenced_iff {a : BitVec 9} {named : TlbEntry → Prop}
    (hnamed : ∀ y, named y → ∃ va, y.Covers va ∧ ∀ z : TlbEntry, z.Covers va → named z) :
    AsidFenced (t.flush asid vpn) a named ↔
      ∀ y ∈ t.table, y.valid = true → ¬ y.Global → TagOf a y → named y →
        flushes asid vpn y = true := by
  constructor
  · intro h y hy hvalid hglobal htag hname
    by_contra hspared
    obtain ⟨satp, hasid, htag⟩ := htag.exists_satp
    obtain ⟨va, hcovers, hall⟩ := hnamed y hname
    have hymem : y ∈ (t.flush asid vpn).table :=
      (mem_flush_iff hvalid).mpr ⟨hy, Bool.eq_false_of_not_eq_true hspared⟩
    have hhit : hits (tlbTag satp) (va >>> 12) y = true :=
      hits_iff.mpr ⟨hvalid, .inr htag, hcovers⟩
    have hproper' : ∀ z ∈ (t.flush asid vpn).table, z.valid = true → Proper z :=
      fun z hz hzvalid => hproper z ((mem_flush_iff hzvalid).mp hz).1 hzvalid
    obtain ⟨ws, hz, hzg, hold⟩ := exists_stale_hit _ hproper' rfl hymem hglobal hhit
    exact hold (h ws {} satp va hasid hz hzg (hall _ (hits_iff.mp (find_of_valid hz).2).2.2))
  · intro h ws junk satp va' hasid z hvalid hglobal hname
    obtain ⟨hmem, hhit⟩ := find_of_valid hvalid
    rcases mem_of_mem_run ws hvalid hmem with hold | hnew
    · obtain ⟨hmem', hspared⟩ := (mem_flush_iff hvalid).mp hold
      have htag := ((hits_iff.mp hhit).2.1).resolve_left hglobal
      have hflush := h z hmem' hvalid hglobal (tagOf_of_tag_eq hasid htag) hname
      exact absurd (hspared.symm.trans hflush) Bool.false_ne_true
    · exact hnew

end

/-- For every table that stores, lookups and flushes can build: a fence for an
address has the effect it should exactly when no entry contains the address, or
none that is non-global with a tag of the ASID; a fence for an ASID alone exactly
when the non-global entries with a tag of that ASID have the ASID itself as tag. -/
theorem fence_removes_iff (ops : List TlbOp) (e : Exec) (i : ExecIn) (h : e.Fences i) :
    let t := Clocked.run apply {} ops
    let va := i.idEx.rs1Val
    (i.idEx.rs2Val = 0 → va ≠ 0 →
      (PageFenced (e.fence i t) va ↔ ∀ x ∈ t.table, x.valid = true → ¬ x.Covers va)) ∧
    (∀ a : BitVec 9, a ≠ 0 → i.idEx.rs2Val = a.setWidth 32 → va ≠ 0 →
      (AsidFenced (e.fence i t) a (·.Covers va) ↔
        ∀ x ∈ t.table, x.valid = true → ¬ x.Global → TagOf a x → ¬ x.Covers va)) ∧
    (∀ a : BitVec 9, a ≠ 0 → i.idEx.rs2Val = a.setWidth 32 → va = 0 →
      (AsidFenced (e.fence i t) a (fun _ => True) ↔
        ∀ x ∈ t.table, x.valid = true → ¬ x.Global → TagOf a x → x.asid.toNat = a.toNat)) := by
  intro t va
  have hproper : ∀ y ∈ t.table, y.valid = true → Proper y :=
    fun y hy hvalid => (storedBy_of_mem ops hvalid hy).proper
  rw [h.fence_eq]
  refine ⟨fun _ hva => ?_, fun a _ _ hva => ?_, fun a ha hrs2 hva => ?_⟩
  · exact pageFenced_iff hproper fun y hy hcovers => not_flushes_of_covers _ hy hcovers hva
  · rw [asidFenced_iff hproper fun y hy => ⟨va, hy, fun _ hz => hz⟩]
    refine forall₅_congr fun y hy hvalid _ _ => ?_
    refine imp_congr_right fun hcovers => iff_of_false (fun hflush => ?_) id
    have hspare := not_flushes_of_covers i.idEx.rs2Val (hproper y hy hvalid) hcovers hva
    exact Bool.false_ne_true (hspare.symm.trans hflush)
  · change AsidFenced (t.flush i.idEx.rs2Val va) a _ ↔ _
    rw [hva, hrs2, asidFenced_iff hproper fun y _ => ⟨firstAddr y, covers_firstAddr y,
      fun _ _ => trivial⟩]
    refine forall₅_congr fun y _ _ _ _ => ?_
    rw [flushes_zero_iff ha]
    exact ⟨fun hf => hf trivial, fun hf _ => hf⟩

/-- A cycle that executes `SFENCE.VMA` in machine mode with the given operands. -/
def fenceIn (rs1Val rs2Val : BitVec 32) : ExecIn :=
  { idEx := { type := .sfenceVma, rs1Val := rs1Val, rs2Val := rs2Val } }

/-- A fence for `0x5000` in a table that holds the page at `0x9000` only. -/
theorem fence_removes_absent_page :
    let t := Clocked.run apply {} [.store 0x80080000 0x9000 0x200008cf false]
    ({} : Exec).Fences (fenceIn 0x5000 0) ∧
      PageFenced (({} : Exec).fence (fenceIn 0x5000 0) t) 0x5000 := by
  intro t
  have hfences : ({} : Exec).Fences (fenceIn 0x5000 0) := by
    unfold Exec.Fences
    decide
  have hiff := (fence_removes_iff [.store 0x80080000 0x9000 0x200008cf false] {}
    (fenceIn 0x5000 0) hfences).1 rfl (by decide)
  refine ⟨hfences, hiff.mpr ?_⟩
  unfold TlbEntry.Covers
  decide

/-- The page at `0x5000` survives a fence for that address, and an entry of ASID 1
survives a fence for that ASID. -/
theorem fence_spares_named_entries :
    let e : Exec := {}
    let t₀ := Clocked.run apply {} [.store 0x80080000 0x5000 0x200008cf false]
    let t₁ := Clocked.run apply {} [.store 0x80480000 0x5000 0x200008cf false]
    (e.Fences (fenceIn 0x5000 0) ∧ ¬ PageFenced (e.fence (fenceIn 0x5000 0) t₀) 0x5000) ∧
    (e.Fences (fenceIn 0 1) ∧ satpAsid 0x80480000 = 1 ∧
      ¬ AsidFenced (e.fence (fenceIn 0 1) t₁) 1 (fun _ => True)) := by
  intro e t₀ t₁
  refine ⟨⟨?_, fun h => ?_⟩, ?_, by decide, fun h => ?_⟩
  · unfold Exec.Fences
    decide
  · obtain ⟨_, _, _, _, hop, -⟩ := h [] {} 0x80080000 0x5000 rfl (by decide)
    cases hop
  · unfold Exec.Fences
    decide
  · have hglobal : ¬ ((Clocked.run apply (e.fence (fenceIn 0 1) t₁) []).find {}
        (tlbTag 0x80480000) (0x5000 >>> 12)).1.Global := by
      unfold TlbEntry.Global
      decide
    obtain ⟨_, _, _, _, hop, -⟩ := h [] {} 0x80480000 0x5000 (by decide) (by decide) hglobal
      trivial
    cases hop

end Tlb

end Turtle
