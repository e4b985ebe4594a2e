import Turtle.FetchFidelity

/-!
# Instruction boundaries in the fetch buffer

The buffered halfwords do not say where an instruction begins: the pops walk from
the front by the length of each instruction. This file says which addresses of the
window such a walk lands on, and how pops and appended words move the window.
-/

namespace Turtle

open Bits

/-- A walk over instructions arrives exactly behind the given halfwords, of which
each tells whether it would start an instruction of 32 bits. -/
def lands : List Bool → Bool
  | [] => true
  | [wide] => !wide
  | wide :: next :: rest => if wide then lands rest else lands (next :: rest)

/-- The walk over at least one halfword begins with the instruction at the front. -/
theorem lands_cons (wide : Bool) (rest : List Bool) :
    lands (wide :: rest) = true ↔
      (if wide then 2 else 1) ≤ (wide :: rest).length ∧
        lands ((wide :: rest).drop (if wide then 2 else 1)) = true := by
  cases wide with
  | false =>
    cases rest with
    | nil => simp [lands]
    | cons next rest => simp [lands]
  | true =>
    cases rest with
    | nil => simp [lands]
    | cons next rest => simp [lands]

namespace Fifo

/-- Halfword `k` starts an instruction of 32 bits. -/
def wideAt (b : Fifo) (k : ℕ) : Bool := (b.buffer >>> (16 * k)) &&& 3 == 3

/-- The address lies in the window `[buffer_addr, buffer_addr + buffer_idx / 8)`. -/
def holds (b : Fifo) (t : BitVec 32) : Bool :=
  decide ((t - b.bufferAddr).toNat < (b.bufferIdx >>> 3).toNat)

/-- The walk from the front of the buffer lands on the address, if it is there. -/
def landsOn (b : Fifo) (t : BitVec 32) : Bool :=
  !b.holds t || lands ((List.range ((t - b.bufferAddr).toNat / 2)).map b.wideAt)

end Fifo

namespace HalfQueue

variable {q : HalfQueue} {t : BitVec 32} {k : ℕ}

/-- The halfword at `t` is the one with index `k`. -/
structure HoldsAt (q : HalfQueue) (t : BitVec 32) (k : ℕ) : Prop where
  lt : k < q.halves.length
  eq : t = q.addr + BitVec.ofNat 32 (2 * k)

/-- The walk over the first `k` halfwords ends behind them. -/
def landsBefore (q : HalfQueue) (k : ℕ) : Bool := lands ((q.halves.take k).map Half.isWide)

theorem HoldsAt.toNat_sub (h : q.HoldsAt t k) : (t - q.addr).toNat = 2 * k := by
  have hlen := q.length_le
  have hlt := h.lt
  rw [h.eq, BitVec.add_comm, BitVec.add_sub_cancel, BitVec.toNat_ofNat]
  omega

theorem HoldsAt.unique {n : ℕ} (h : q.HoldsAt t k) (h' : q.HoldsAt t n) : k = n := by
  have hsame := h.toNat_sub.symm.trans h'.toNat_sub
  omega

theorem HoldsAt.eq_zero_iff (h : q.HoldsAt t k) : k = 0 ↔ q.addr = t := by
  have hsub := h.toNat_sub
  constructor
  · rintro rfl
    have := h.eq
    simpa using this.symm
  · rintro rfl
    rw [BitVec.sub_self] at hsub
    change 0 = 2 * k at hsub
    omega

theorem encode_window : (q.encode.bufferIdx >>> 3).toNat = 2 * q.halves.length := by
  rw [BitVec.toNat_ushiftRight, encode_idx_toNat, Nat.shiftRight_eq_div_pow]
  omega

theorem even_addr (q : HalfQueue) : EvenWord q.addr := by
  have h := q.aligned
  rw [evenWord_iff, BitVec.getLsbD, Nat.testBit_zero, decide_eq_false_iff_not]
  omega

/-- The window of the buffer is the range of the halfwords. -/
theorem encode_holds_iff (ht : EvenWord t) : q.encode.holds t = true ↔ ∃ k, q.HoldsAt t k := by
  have hwindow := encode_window (q := q)
  have haddr : q.encode.bufferAddr = q.addr := rfl
  rw [Fifo.holds, decide_eq_true_iff, hwindow, haddr]
  constructor
  · intro h
    have heven := (ht.sub q.even_addr).toNat_mod_two
    refine ⟨(t - q.addr).toNat / 2, by omega, ?_⟩
    rw [show 2 * ((t - q.addr).toNat / 2) = (t - q.addr).toNat by omega, BitVec.ofNat_toNat,
      BitVec.setWidth_eq, BitVec.add_comm, BitVec.sub_add_cancel]
  · rintro ⟨k, h⟩
    have hlt := h.lt
    rw [h.toNat_sub]
    omega

/-- The test on the two lowest bits of a lane reads its halfword. -/
theorem encode_wideAt (hk : k < q.halves.length) :
    q.encode.wideAt k = (q.halves.get ⟨k, hk⟩).isWide := by
  have hlanes : q.encode.buffer >>> (16 * k) = lanes Half.data (q.halves.drop k) :=
    lanes_drop q.length_le k
  rw [Fifo.wideAt, hlanes, List.drop_eq_getElem_cons hk]
  exact lanes_and_three_beq _ _

/-- The walk over the buffer is the walk over the queue. -/
theorem HoldsAt.encode_landsOn (h : q.HoldsAt t k) :
    q.encode.landsOn t = q.landsBefore k := by
  have hin : q.encode.holds t = true := by
    have hlt := h.lt
    have haddr : q.encode.bufferAddr = q.addr := rfl
    rw [Fifo.holds, decide_eq_true_iff, encode_window, haddr, h.toNat_sub]
    omega
  have hoffset : (t - q.encode.bufferAddr).toNat / 2 = k := by
    have hsub : (t - q.encode.bufferAddr).toNat = 2 * k := h.toNat_sub
    omega
  have hflags : (List.range k).map q.encode.wideAt = (q.halves.take k).map Half.isWide := by
    apply List.ext_getElem
    · have hlt := h.lt
      simp only [List.length_map, List.length_range, List.length_take]
      omega
    · intro n hn _
      have hnk : n < k := by simpa using hn
      have hlane := encode_wideAt (Nat.lt_trans hnk h.lt)
      simpa using hlane
  rw [Fifo.landsOn, hin, hoffset, hflags]
  rfl

/-- Landing at `k` is landing after the instruction at the front. -/
theorem landsBefore_iff (h : k < q.halves.length) (hpos : 0 < k) :
    q.landsBefore k = true ↔ q.size ≤ k ∧ q.pop.landsBefore (k - q.size) = true := by
  obtain ⟨n, rfl⟩ : ∃ n, k = n + 1 := ⟨k - 1, by omega⟩
  have hready : q.size ≤ q.halves.length := by
    unfold size
    split <;> omega
  have hpop : q.pop.halves = q.halves.drop q.size := by
    rw [pop, dif_pos hready]
  unfold landsBefore
  rw [hpop, ← List.drop_take, List.map_drop]
  unfold size isWide
  cases hhalves : q.halves with
  | nil =>
    rw [hhalves] at h
    cases h
  | cons x xs =>
    rw [hhalves] at h
    have hlen : (xs.take n).length = n := by
      rw [List.length_take]
      simp only [List.length_cons] at h
      omega
    rw [List.take_succ_cons, List.map_cons, lands_cons, List.length_cons, List.length_map, hlen]
    rfl

theorem HoldsAt.pop (h : q.HoldsAt t k) (hsize : q.size ≤ k) : q.pop.HoldsAt t (k - q.size) := by
  have hlt := h.lt
  have hready : q.size ≤ q.halves.length := by omega
  rw [HalfQueue.pop, dif_pos hready]
  refine ⟨?_, ?_⟩
  · change k - q.size < (q.halves.drop q.size).length
    rw [List.length_drop]
    omega
  · change t = q.addr + BitVec.ofNat 32 (2 * q.size) + BitVec.ofNat 32 (2 * (k - q.size))
    rw [h.eq, BitVec.add_assoc, ← BitVec.ofNat_add, ← Nat.mul_add, Nat.add_sub_cancel' hsize]

/-- Popping brings no address into the queue. -/
theorem HoldsAt.of_pop (h : q.pop.HoldsAt t k) : ∃ n, q.HoldsAt t n := by
  unfold HalfQueue.pop at h
  split at h
  · have hlt : k < (q.halves.drop q.size).length := h.lt
    rw [List.length_drop] at hlt
    refine ⟨q.size + k, by omega, ?_⟩
    rw [h.eq, Nat.mul_add, BitVec.ofNat_add, BitVec.add_assoc]
  · exact ⟨k, h⟩

theorem HoldsAt.push (h : q.HoldsAt t k) (word : Half × Half) :
    (q.push word).HoldsAt t k ∧ (q.push word).landsBefore k = q.landsBefore k := by
  unfold HalfQueue.push
  split
  · have htake : (q.halves ++ [word.1, word.2]).take k = q.halves.take k :=
      List.take_append_of_le_length (Nat.le_of_lt h.lt)
    refine ⟨⟨?_, h.eq⟩, ?_⟩
    · have hlt := h.lt
      change k < (q.halves ++ [word.1, word.2]).length
      rw [List.length_append]
      omega
    · unfold landsBefore
      rw [htake]
  · exact ⟨h, rfl⟩

variable {a : BitVec 32}

/-- A new queue ends behind its word. -/
theorem endAddr_start (heven : EvenWord a) (word : Half × Half) :
    (start a heven word).endAddr = (a &&& ~~~3) + 4 := by
  have hmod := heven.toNat_mod_two
  have hlt := a.isLt
  apply BitVec.eq_of_toNat_eq
  rw [toNat_nextWord]
  unfold start endAddr
  dsimp only
  rw [BitVec.toNat_add, BitVec.toNat_ofNat]
  split
  · change (a.toNat + 4 % 2 ^ 32) % 2 ^ 32 = _
    omega
  · change (a.toNat + 2 % 2 ^ 32) % 2 ^ 32 = _
    omega

theorem endAddr_push (hroom : q.halves.length ≤ 2) (word : Half × Half) :
    (q.push word).endAddr = q.endAddr + 4 := by
  rw [push, dif_pos hroom]
  unfold endAddr
  dsimp only
  rw [List.length_append, Nat.mul_add, BitVec.ofNat_add, ← BitVec.add_assoc]
  rfl

theorem addr_push (word : Half × Half) : (q.push word).addr = q.addr := by
  unfold push
  split <;> rfl

/-- The queue `q'` is `q`, perhaps with a word appended. -/
def Extends (q' q : HalfQueue) : Prop := q' = q ∨ ∃ word, q' = q.push word

theorem Extends.addr_eq {q' : HalfQueue} (h : q'.Extends q) : q'.addr = q.addr := by
  rcases h with h | ⟨word, h⟩
  · rw [h]
  · rw [h, addr_push]

/-- What was in the queue stays where it is. -/
theorem Extends.holdsAt {q' : HalfQueue} {k : ℕ} (h : q'.Extends q) (hk : q.HoldsAt t k) :
    q'.HoldsAt t k ∧ q'.landsBefore k = q.landsBefore k := by
  rcases h with h | ⟨word, h⟩
  · rw [h]
    exact ⟨hk, rfl⟩
  · rw [h]
    exact hk.push word

theorem endAddr_ite_pop (p : Bool) : (if p then q.pop else q).endAddr = q.endAddr := by
  split
  · exact endAddr_pop q
  · rfl

/-- The appended word is there. -/
theorem holdsAt_push (hroom : q.halves.length ≤ 2) (word : Half × Half) (ht : EvenWord t)
    (hword : t &&& ~~~3 = q.endAddr &&& ~~~3) : ∃ k, (q.push word).HoldsAt t k := by
  have halign := q.endAddr_aligned
  have htwo := ht.toNat_mod_two
  have hlt := q.endAddr.isLt
  have hsame := congrArg BitVec.toNat hword
  rw [and_not_three_toNat, and_not_three_toNat] at hsame
  have hlength : (q.push word).halves.length = q.halves.length + 2 := by
    rw [push, dif_pos hroom]
    exact List.length_append
  -- The target is the first or the second halfword of the appended word.
  obtain ⟨d, hd, htarget⟩ : ∃ d, d < 2 ∧ t = q.endAddr + BitVec.ofNat 32 (2 * d) := by
    refine ⟨t.toNat % 4 / 2, by omega, ?_⟩
    apply BitVec.eq_of_toNat_eq
    rw [BitVec.toNat_add, BitVec.toNat_ofNat]
    omega
  refine ⟨q.halves.length + d, by omega, ?_⟩
  rw [addr_push, htarget, endAddr, Nat.mul_add, BitVec.ofNat_add, BitVec.add_assoc]

theorem holdsAt_start (heven : EvenWord a) (word : Half × Half) : (start a heven word).HoldsAt a 0 := by
  refine ⟨?_, ?_⟩
  · unfold start
    dsimp only
    split <;> simp
  · change a = a + 0
    simp

end HalfQueue

end Turtle
