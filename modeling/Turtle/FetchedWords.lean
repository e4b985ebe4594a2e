import Turtle.FetchFidelity
import Turtle.Lib.Rv32Fetch
import Turtle.Machine

/-!
# Where the fetched halfwords come from

What holds of the halfwords that are offered to the fetch buffer holds of those in it. Where
each of them was in some memory, and no fault is reported, the instruction that is shown to
Decode is one that may have been fetched from these memories.
-/

namespace Turtle

open Bits Lanes

namespace FlatRam

/-- The halfword at an address. -/
def half (f : FlatRam) (addr : BitVec 32) : BitVec 16 := f.bytes (addr + 1) ++ f.bytes addr

/-- The halfwords of a word. -/
theorem half_of_word (f : FlatRam) (addr : BitVec 32) {k : ℕ} (hk : k ≤ 2) :
    (f.word addr 4 >>> (8 * k)).setWidth 16 = f.half (addr + BitVec.ofNat 32 k) := by
  have hbyte {n : ℕ} (hn : n < 4) :
      ((List.range 4).map fun i => f.bytes (addr + BitVec.ofNat 32 i)).getD n 0 =
        f.bytes (addr + BitVec.ofNat 32 n) := by
    rw [List.getD_eq_getElem _ _ (by simpa using hn), List.getElem_map, List.getElem_range]
  apply BitVec.eq_of_getLsbD_eq
  intro j hj
  have hnext : addr + BitVec.ofNat 32 k + 1 = addr + BitVec.ofNat 32 (k + 1) := by
    rw [BitVec.add_assoc, BitVec.ofNat_add]
    rfl
  rw [BitVec.getLsbD_setWidth, BitVec.getLsbD_ushiftRight, FlatRam.word, FlatMemory.load,
    getLsbD_pack (by decide), half, BitVec.getLsbD_append, hnext]
  by_cases hlow : j < 8
  · have hdiv : (8 * k + j) / 8 = k := by omega
    have hmod : (8 * k + j) % 8 = j := by omega
    have hlt : 8 * k + j < 32 := by omega
    rw [hdiv, hmod, hbyte (by omega)]
    simp [hj, hlow, hlt]
  · have hdiv : (8 * k + j) / 8 = k + 1 := by omega
    have hmod : (8 * k + j) % 8 = j - 8 := by omega
    have hlt : 8 * k + j < 32 := by omega
    rw [hdiv, hmod, hbyte (by omega)]
    simp [hj, hlow, hlt]

end FlatRam

/-! ### The halfwords of the queue -/

namespace HalfQueue

variable {P P' : BitVec 32 → Half → Prop} {q : HalfQueue} {i : FetchIn} {word : Half × Half}

/-- The members of a list of two. -/
theorem getElem?_pair {α : Type*} {x y h : α} {k : ℕ} (hk : [x, y][k]? = some h) :
    (k = 0 ∧ h = x) ∨ (k = 1 ∧ h = y) := by
  rcases k with _ | _ | k
  · exact .inl ⟨rfl, (Option.some.inj hk).symm⟩
  · exact .inr ⟨rfl, (Option.some.inj hk).symm⟩
  · simp at hk

/-- A property of all halfwords of a queue and their addresses. -/
def Forall (P : BitVec 32 → Half → Prop) (q : HalfQueue) : Prop :=
  ∀ k h, q.halves[k]? = some h → P (q.addr + BitVec.ofNat 32 (2 * k)) h

theorem Forall.imp (h : q.Forall P) (himp : ∀ addr half, P addr half → P' addr half) :
    q.Forall P' := fun k half hk => himp _ _ (h k half hk)

theorem forall_empty : empty.Forall P := by
  intro k h hk
  simp [empty] at hk

theorem Forall.pop (h : q.Forall P) : q.pop.Forall P := by
  unfold HalfQueue.pop
  split
  · intro k half hk
    rw [List.getElem?_drop] at hk
    have hmoved := h _ half hk
    rw [Nat.mul_add, BitVec.ofNat_add, ← BitVec.add_assoc] at hmoved
    exact hmoved
  · exact h

theorem Forall.push (h : q.Forall P) (hlow : P q.endAddr word.1)
    (hhigh : P (q.endAddr + 2) word.2) :
    (q.push word).Forall P := by
  unfold HalfQueue.push
  split
  · intro k half hk
    change P (q.addr + BitVec.ofNat 32 (2 * k)) half
    rcases Nat.lt_or_ge k q.halves.length with hlt | hge
    · rw [List.getElem?_append_left hlt] at hk
      exact h k half hk
    rw [List.getElem?_append_right hge] at hk
    obtain ⟨d, rfl⟩ := Nat.exists_eq_add_of_le hge
    rw [Nat.add_sub_cancel_left] at hk
    have haddr : q.addr + BitVec.ofNat 32 (2 * (q.halves.length + d)) =
        q.endAddr + BitVec.ofNat 32 (2 * d) := by
      rw [endAddr, BitVec.add_assoc, ← BitVec.ofNat_add, Nat.mul_add]
    rw [haddr]
    rcases getElem?_pair hk with ⟨rfl, rfl⟩ | ⟨rfl, rfl⟩
    · rw [BitVec.add_zero]
      exact hlow
    · exact hhigh
  · exact h

theorem forall_start {a : BitVec 32} (heven : EvenWord a) (hlow : P (a &&& ~~~3) word.1)
    (hhigh : P ((a &&& ~~~3) + 2) word.2) : (start a heven word).Forall P := by
  have hmod := heven.toNat_mod_two
  intro k half hk
  change P (a + BitVec.ofNat 32 (2 * k)) half
  unfold start at hk
  dsimp only at hk
  split at hk
  · rename_i haligned
    rw [and_not_three_of_aligned haligned] at hlow hhigh
    rcases getElem?_pair hk with ⟨rfl, rfl⟩ | ⟨rfl, rfl⟩
    · rw [BitVec.add_zero]
      exact hlow
    · exact hhigh
  · rename_i hupper
    have hlt := a.isLt
    have hsame : (a &&& ~~~3) + 2 = a := by
      apply BitVec.eq_of_toNat_eq
      rw [BitVec.toNat_add, and_not_three_toNat]
      change (a.toNat / 4 * 4 + 2) % 2 ^ 32 = _
      omega
    obtain ⟨rfl, hword⟩ : k = 0 ∧ word.2 = half := by
      rw [List.getElem?_singleton] at hk
      split_ifs at hk with hzero
      exact ⟨hzero, Option.some.inj hk⟩
    rw [BitVec.add_zero, ← hsame, ← hword]
    exact hhigh

/-- A cycle keeps what holds of the halfwords that are offered. -/
theorem Forall.step (h : q.Forall P) (heven : EvenWord i.immuPc)
    (hoffer : (i.rsp.mmuRspAck && !i.immuFlush) = true →
      P (i.immuPc &&& ~~~3) (halvesOf i.rsp.mmuRspRdata i.rsp.mmuRspFault).1 ∧
      P ((i.immuPc &&& ~~~3) + 2) (halvesOf i.rsp.mmuRspRdata i.rsp.mmuRspFault).2) :
    (q.step i heven).Forall P := by
  unfold HalfQueue.step
  dsimp only
  split
  · exact forall_empty
  have hstage : (if i.stall then q else q.pop).Forall P := by
    split
    · exact h
    · exact h.pop
  have hend : (if i.stall then q else q.pop).endAddr = q.endAddr := by
    split
    · rfl
    · exact endAddr_pop q
  split
  · rename_i hnew
    obtain ⟨hlow, hhigh⟩ := hoffer hnew.1
    exact forall_start heven hlow hhigh
  split
  · rename_i hnew hoffered
    obtain ⟨hlow, hhigh⟩ := hoffer hoffered
    have hpc : i.immuPc = q.endAddr := by
      by_contra hne
      exact hnew ⟨hoffered, hne⟩
    rw [hpc, and_not_three_of_aligned q.endAddr_aligned] at hlow hhigh
    rw [← hend] at hlow hhigh
    exact hstage.push hlow hhigh
  · exact hstage

end HalfQueue

/-! ### The instruction that is shown -/

/-- Some memory of the view holds the halfword, unless its word could not be fetched. -/
def Half.Seen {μ τ κ : Type*} (v : Rv32.FetchEnv μ τ κ) (view : Set μ) (ctx : κ)
    (addr : BitVec 32) (h : Half) : Prop :=
  h.pageFault = false → h.accessFault = false → v.Sees view ctx addr h.data

namespace Fetch

open HalfQueue

variable {μ τ κ : Type*} {v : Rv32.FetchEnv μ τ κ} {view : Set μ} {ctx : κ} {s : Fetch}
  {q : HalfQueue} {b : Fifo}

/-- A report without a fault finds none in the halfwords of the instruction. -/
theorem clean_of_faultReport
    (h : (faultReport b).1 ≠ ExceptionCause.instrAccessFault.code.setWidth 8 ∧
      (faultReport b).1 ≠ ExceptionCause.instrPageFault.code.setWidth 8) :
    (b.bufferAccessFault &&& 1 = 0 ∧ b.bufferPageFault &&& 1 = 0) ∧
      (b.isWide = true → b.bufferAccessFault &&& (1#64 <<< 16) = 0 ∧
        b.bufferPageFault &&& (1#64 <<< 16) = 0) := by
  obtain ⟨haccess, hpage⟩ := h
  unfold faultReport at haccess hpage
  dsimp only at haccess hpage
  split_ifs at haccess hpage <;> simp_all

/-- The word of a record, from its halfwords. -/
theorem latch_inst_of_halves {f : Forward} {j : IfId} {low : BitVec 16}
    (hlow : j.ifIdInst.setWidth 16 = low) : (latch f j).inst =
      if low &&& 3 = 3 then (j.ifIdInst >>> 16).setWidth 16 ++ low else low.setWidth 32 := by
  have hthree : j.ifIdInst &&& 3 = 3 ↔ low &&& 3 = 3 := by
    rw [← hlow, ← BitVec.toNat_inj, ← BitVec.toNat_inj, and_ones_toNat (n := 2) _ 3 rfl,
      and_ones_toNat (n := 2) _ 3 rfl, BitVec.toNat_setWidth]
    change _ = 3 ↔ _ = 3
    omega
  rw [latch_inst]
  simp only [hthree]
  split_ifs
  · rw [← hlow]
    apply BitVec.eq_of_toNat_eq
    rw [Rv32.toNat_append, BitVec.toNat_setWidth, BitVec.toNat_setWidth, BitVec.toNat_ushiftRight,
      Nat.shiftRight_eq_div_pow]
    have hlt := j.ifIdInst.isLt
    omega
  · rw [← hlow]
    apply BitVec.eq_of_toNat_eq
    rw [and_ones_toNat (n := 16) _ 0x0000ffff rfl, BitVec.toNat_setWidth, BitVec.toNat_setWidth]
    omega

/-- A ready instruction without a fault was in the view. -/
theorem Represents.fetches (hs : Represents s q) (hready : q.ready = true)
    (hq : q.Forall (Half.Seen v view ctx)) (hfault : NoFetchFault s.ifId) (f : Forward) :
    v.Fetches view ctx s.ifId.ifIdPc (latch f s.ifId).inst := by
  have hsize : q.size ≤ q.halves.length := of_decide_eq_true hready
  have hreport : s.ifId.ifIdFault = (faultReport q.encode).1 :=
    congrArg Prod.fst (hs.fault_eq hready)
  have hclean := clean_of_faultReport (b := q.encode) (by
    rw [← hreport]
    constructor
    · intro hcode
      exact hfault (.inl (by rw [hcode]; rfl))
    · intro hcode
      exact hfault (.inr (by rw [hcode]; rfl)))
  obtain ⟨low, hlow⟩ : ∃ low, q.halves[0]? = some low := by
    refine ⟨_, List.getElem?_eq_getElem ?_⟩
    unfold size at hsize
    split at hsize <;> omega
  have hwide : q.isWide = low.isWide := by
    rw [isWide, List.head?_eq_getElem?, hlow]
    rfl
  have hdata : s.ifId.ifIdInst.setWidth 16 = low.data := hs.inst_lane (k := 0) (by decide) hlow
  have hbit (g : Half → Bool) :
      lanes (fun h => faultLane (g h)) q.halves &&& 1 ≠ 0 ↔ g low = true :=
    lanes_and_ne_zero_iff (k := 0) (by decide) hlow
  have hsees : v.Sees view ctx q.addr low.data := by
    have hseen := hq 0 low hlow
    rw [Nat.mul_zero, BitVec.add_zero] at hseen
    exact hseen (Bool.eq_false_of_not_eq_true fun h => (hbit Half.pageFault).mpr h hclean.1.2)
      (Bool.eq_false_of_not_eq_true fun h => (hbit Half.accessFault).mpr h hclean.1.1)
  rw [hs.pc_eq, latch_inst_of_halves hdata]
  split_ifs with hthree
  · have hwide : q.isWide = true := by
      rw [hwide, Half.isWide, hthree]
      rfl
    obtain ⟨high, hhigh⟩ : ∃ high, q.halves[1]? = some high := by
      refine ⟨_, List.getElem?_eq_getElem ?_⟩
      rw [size, if_pos hwide] at hsize
      omega
    have hbit (g : Half → Bool) : lanes (fun h => faultLane (g h)) q.halves &&& (1#64 <<< 16) ≠ 0 ↔
        g high = true := lanes_and_ne_zero_iff (k := 1) (by decide) hhigh
    obtain ⟨haccess, hpage⟩ := hclean.2 (encode_isWide.trans hwide)
    have hdata : (s.ifId.ifIdInst >>> 16).setWidth 16 = high.data :=
      hs.inst_lane (k := 1) (by decide) hhigh
    rw [hdata]
    exact .wide hthree hsees (hq 1 high hhigh
      (Bool.eq_false_of_not_eq_true fun h => (hbit Half.pageFault).mpr h hpage)
      (Bool.eq_false_of_not_eq_true fun h => (hbit Half.accessFault).mpr h haccess))
  · exact .half hthree hsees

end Fetch

end Turtle
