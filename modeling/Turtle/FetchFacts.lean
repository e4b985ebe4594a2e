import Turtle.FetchQueue
import Turtle.Lib.Clocked
import Turtle.Lib.Lanes

/-!
# The fetch buffer implements the queue

The three buffers pack the halfwords of the queue into lanes of 16 bits, and the
fill level counts them. Every branch of `get_inst_seq` is then one of the queue
operations, and `if_id_flush` says that no whole instruction is there.
-/

namespace Turtle

open Bits Lanes

/-- The lane of a fault mask. -/
def faultLane (fault : Bool) : BitVec 16 := if fault then 0xffff else 0

/-- One of the three buffers: a lane for each halfword. -/
def lanes (f : Half → BitVec 16) (halves : List Half) : BitVec 64 := pack 64 (halves.map f)

theorem lanes_drop {f : Half → BitVec 16} {halves : List Half} (h : halves.length ≤ 4) (k : ℕ) :
    lanes f halves >>> (16 * k) = lanes f (halves.drop k) := by
  have hfit : 16 * (halves.map f).length ≤ 64 := by
    rw [List.length_map]
    omega
  rw [lanes, pack_ushiftRight (by decide) hfit, lanes, List.map_drop]

theorem lanes_append (f : Half → BitVec 16) (xs ys : List Half) :
    lanes f (xs ++ ys) = lanes f xs ||| (lanes f ys <<< (16 * xs.length)) := by
  rw [lanes, List.map_append, pack_append (by decide), List.length_map]
  rfl

theorem getLsbD_lanes_of_le {f : Half → BitVec 16} {halves : List Half} {j : ℕ}
    (h : 16 * halves.length ≤ j) : (lanes f halves).getLsbD j = false :=
  getLsbD_pack_of_le (by decide) (by rwa [List.length_map])

/-- The buffers that hold the halfwords from `addr` on. -/
def encodeAt (addr : BitVec 32) (halves : List Half) : Fifo :=
  { buffer := lanes Half.data halves
    bufferPageFault := lanes (fun h => faultLane h.pageFault) halves
    bufferAccessFault := lanes (fun h => faultLane h.accessFault) halves
    bufferIdx := BitVec.ofNat 32 (16 * halves.length)
    bufferAddr := addr }

theorem encodeAt_drop {addr : BitVec 32} {halves : List Half} {k : ℕ} (hlen : halves.length ≤ 4)
    (hk : k ≤ halves.length) :
    { encodeAt addr halves with
      bufferAddr := addr + BitVec.ofNat 32 (2 * k)
      bufferIdx := (encodeAt addr halves).bufferIdx - BitVec.ofNat 32 (16 * k) }.mapBuffers
        (· >>> (16 * k)) = encodeAt (addr + BitVec.ofNat 32 (2 * k)) (halves.drop k) := by
  have hidx : BitVec.ofNat 32 (16 * halves.length) - BitVec.ofNat 32 (16 * k) =
      BitVec.ofNat 32 (16 * (halves.drop k).length) := by
    apply BitVec.eq_of_toNat_eq
    rw [BitVec.toNat_sub, BitVec.toNat_ofNat, BitVec.toNat_ofNat, BitVec.toNat_ofNat,
      List.length_drop]
    omega
  simp only [encodeAt, Fifo.mapBuffers, lanes_drop hlen, hidx]

theorem encodeAt_append {addr : BitVec 32} {halves word : List Half} {o : Offer}
    (hlen : halves.length ≤ 4) (hword : word.length = 2) (hinst : o.inst = lanes Half.data word)
    (hpage : o.pageFault = lanes (fun h => faultLane h.pageFault) word)
    (haccess : o.accessFault = lanes (fun h => faultLane h.accessFault) word) :
    { (encodeAt addr halves).merge o (encodeAt addr halves).bufferIdx with
      bufferIdx := (encodeAt addr halves).bufferIdx + 32 } = encodeAt addr (halves ++ word) := by
  have hidx : BitVec.ofNat 32 (16 * halves.length) + 32 =
      BitVec.ofNat 32 (16 * (halves ++ word).length) := by
    rw [List.length_append, hword, Nat.mul_add, BitVec.ofNat_add]
    rfl
  have hshift : (BitVec.ofNat 32 (16 * halves.length)).toNat = 16 * halves.length := by
    rw [BitVec.toNat_ofNat]
    omega
  simp only [encodeAt, Fifo.merge, hidx, hshift, hinst, hpage, haccess, lanes_append]

/-- The locals of the receiving branch hold the two halfwords of the word. -/
theorem offerOf_eq (rsp : MmuRsp) :
    let word := halvesOf rsp.mmuRspRdata rsp.mmuRspFault
    (offerOf rsp).inst = lanes Half.data [word.1, word.2] ∧
    (offerOf rsp).pageFault = lanes (fun h => faultLane h.pageFault) [word.1, word.2] ∧
    (offerOf rsp).accessFault = lanes (fun h => faultLane h.accessFault) [word.1, word.2] := by
  have hmask (cause : ExceptionCause) : faultMask rsp cause =
      pack 64 [faultLane (rsp.mmuRspFault == cause.code.setWidth 8),
        faultLane (rsp.mmuRspFault == cause.code.setWidth 8)] := by
    unfold faultMask
    by_cases h : rsp.mmuRspFault = cause.code.setWidth 8
    · rw [if_pos h, beq_iff_eq.mpr h]
      decide
    · rw [if_neg h, beq_eq_false_iff_ne.mpr h]
      decide
  refine ⟨?_, hmask _, hmask _⟩
  apply BitVec.eq_of_getLsbD_eq
  intro j hj
  change (rsp.mmuRspRdata.setWidth 64).getLsbD j =
    (pack 64 [rsp.mmuRspRdata.setWidth 16, (rsp.mmuRspRdata >>> 16).setWidth 16]).getLsbD j
  rw [getLsbD_pack (by decide), BitVec.getLsbD_setWidth]
  have hlane : j % 16 < 16 := Nat.mod_lt _ (by decide)
  rcases Nat.lt_or_ge j 16 with h | h
  · have hdiv : j / 16 = 0 := by omega
    have hmod : j % 16 = j := by omega
    rw [hdiv, List.getD_cons_zero, BitVec.getLsbD_setWidth, hmod]
    simp [h]
  · rcases Nat.lt_or_ge j 32 with h' | h'
    · have hdiv : j / 16 = 1 := by omega
      have hmod : 16 + j % 16 = j := by omega
      rw [hdiv, List.getD_cons_succ, List.getD_cons_zero, BitVec.getLsbD_setWidth,
        BitVec.getLsbD_ushiftRight, hmod]
      simp [hlane]
    · have hdiv : 2 ≤ j / 16 := by omega
      rw [BitVec.getLsbD_of_ge _ j h', List.getD_eq_default _ _ hdiv]
      simp

namespace Fetch

variable {b : Fifo} {o : Offer}

theorem append_fifo_of_le (h : b.bufferIdx ≤ 32) : (append b o).fifo =
    { b.merge o b.bufferIdx with bufferIdx := b.bufferIdx + 32 } := by
  rw [append, if_pos h]

theorem append_fifo_of_not_le (h : ¬ b.bufferIdx ≤ 32) : (append b o).fifo = b := by
  rw [append, if_neg h]

end Fetch

namespace HalfQueue

/-- The buffers that hold a queue. -/
def encode (q : HalfQueue) : Fifo := encodeAt q.addr q.halves

variable {q : HalfQueue}

theorem encode_idx_toNat : q.encode.bufferIdx.toNat = 16 * q.halves.length := by
  have h := q.length_le
  change (BitVec.ofNat 32 (16 * q.halves.length)).toNat = _
  rw [BitVec.toNat_ofNat]
  omega

/-- The room for a word, as the fill level tells it. -/
theorem encode_idx_le_iff : q.encode.bufferIdx ≤ 32 ↔ q.halves.length ≤ 2 := by
  rw [BitVec.le_def, encode_idx_toNat]
  change 16 * q.halves.length ≤ 32 ↔ _
  omega

theorem encode_endAddr : q.encode.endAddr = q.endAddr := by
  have h := q.length_le
  have hshift : q.encode.bufferIdx >>> 3 = BitVec.ofNat 32 (2 * q.halves.length) := by
    apply BitVec.eq_of_toNat_eq
    rw [BitVec.toNat_ushiftRight, encode_idx_toNat, BitVec.toNat_ofNat, Nat.shiftRight_eq_div_pow]
    omega
  rw [Fifo.endAddr, hshift]
  rfl

theorem and_three_beq {w : ℕ} (hw : 2 ≤ w) (x : BitVec w) :
    (x &&& 3 == 3) = decide (x.toNat % 4 = 3) := by
  have hthree : (3 : BitVec w).toNat = 3 := by
    change (BitVec.ofNat w 3).toNat = 3
    rw [BitVec.toNat_ofNat]
    exact Nat.mod_eq_of_lt (Nat.lt_of_lt_of_le (by decide : 3 < 2 ^ 2)
      (Nat.pow_le_pow_right (by decide) hw))
  have hand : (x &&& 3).toNat = x.toNat % 4 := and_ones_toNat (n := 2) x 3 hthree
  rw [Bool.eq_iff_iff, beq_iff_eq, ← BitVec.toNat_inj, hand, hthree, decide_eq_true_iff]

/-- The test on the two lowest bits reads the first halfword. -/
theorem lanes_and_three_beq (h : Half) (hs : List Half) :
    (lanes Half.data (h :: hs) &&& 3 == 3) = h.isWide := by
  have hfront : (lanes Half.data (h :: hs)).setWidth 16 = h.data :=
    setWidth_pack_cons (by decide) (by decide) _ _
  have hmod : (lanes Half.data (h :: hs)).toNat % 4 = h.data.toNat % 4 := by
    rw [← hfront, BitVec.toNat_setWidth]
    omega
  rw [and_three_beq (by decide), hmod, Half.isWide, and_three_beq (by decide)]

theorem encode_isWide : q.encode.isWide = q.isWide := by
  change (lanes Half.data q.halves &&& 3 == 3) = _
  rw [isWide]
  cases q.halves with
  | nil => rfl
  | cons h hs => exact lanes_and_three_beq h hs

theorem encode_pop (hready : q.ready = true) : (Fetch.pop q.encode).fifo = q.pop.encode := by
  have hsize : q.size ≤ q.halves.length := of_decide_eq_true hready
  have hpop : q.pop.encode =
      encodeAt (q.addr + BitVec.ofNat 32 (2 * q.size)) (q.halves.drop q.size) := by
    rw [pop, dif_pos hsize]
    rfl
  rw [hpop, ← encodeAt_drop q.length_le hsize]
  unfold Fetch.pop
  rw [encode_isWide]
  unfold size
  split <;> rfl

theorem encode_append (rsp : MmuRsp) : (Fetch.append q.encode (offerOf rsp)).fifo =
    (q.push (halvesOf rsp.mmuRspRdata rsp.mmuRspFault)).encode := by
  obtain ⟨hinst, hpage, haccess⟩ := offerOf_eq rsp
  by_cases h : q.halves.length ≤ 2
  · rw [Fetch.append_fifo_of_le (encode_idx_le_iff.mpr h), push, dif_pos h]
    exact encodeAt_append q.length_le rfl hinst hpage haccess
  · rw [Fetch.append_fifo_of_not_le (mt encode_idx_le_iff.mp h), push, dif_neg h]

/-- Popping and appending in one cycle is popping, then appending. -/
theorem encode_popAppend (hready : q.ready = true) (o : Offer) :
    (Fetch.popAppend q.encode o).fifo = (Fetch.append (Fetch.pop q.encode).fifo o).fifo := by
  have hsize : q.size ≤ q.halves.length := of_decide_eq_true hready
  have hidx := encode_idx_toNat (q := q)
  have hlen := q.length_le
  rw [size, ← encode_isWide] at hsize
  generalize q.encode = b at hsize hidx
  unfold Fetch.popAppend Fetch.pop
  by_cases hwide : b.isWide = true
  · rw [if_pos hwide] at hsize
    have hroom : b.bufferIdx - 32 ≤ 32 := by
      rw [BitVec.le_def, BitVec.toNat_sub, hidx]
      change (2 ^ 32 - 32 + _) % 2 ^ 32 ≤ 32
      omega
    have hback : b.bufferIdx - 32 + 32 = b.bufferIdx := BitVec.sub_add_cancel _ _
    rw [if_pos hwide, if_pos hwide, Fetch.append_fifo_of_le hroom]
    simp only [Fifo.mapBuffers, Fifo.merge, hback]
  · rw [if_neg hwide] at hsize
    have hroom : b.bufferIdx - 16 ≤ 32 ↔ b.bufferIdx ≤ 48 := by
      rw [BitVec.le_def, BitVec.le_def, BitVec.toNat_sub, hidx]
      change (2 ^ 32 - 16 + _) % 2 ^ 32 ≤ 32 ↔ _ ≤ 48
      omega
    have hback : b.bufferIdx - 16 + 32 = b.bufferIdx + 16 := by
      rw [show (32 : BitVec 32) = 16 + 16 by decide, ← BitVec.add_assoc, BitVec.sub_add_cancel]
    rw [if_neg hwide, if_neg hwide]
    by_cases h : b.bufferIdx ≤ 48
    · rw [Fetch.append_fifo_of_le (hroom.mpr h), if_pos h]
      simp only [Fifo.mapBuffers, Fifo.merge, hback]
    · rw [Fetch.append_fifo_of_not_le (mt hroom.mp h), if_neg h]
      rfl

/-- A word that does not continue the queue starts a new one. -/
theorem encode_start (rsp : MmuRsp) {a : BitVec 32} (h : EvenWord a) :
    (Fetch.restart (offerOf rsp) a).fifo =
      (start a h (halvesOf rsp.mmuRspRdata rsp.mmuRspFault)).encode := by
  obtain ⟨hinst, hpage, haccess⟩ := offerOf_eq rsp
  have hlow : a &&& 3 = 0 ↔ a.toNat % 4 = 0 := by
    rw [← BitVec.toNat_inj, and_ones_toNat (n := 2) a 3 (by decide)]
    rfl
  change _ = encodeAt a (if a.toNat % 4 = 0 then _ else _)
  unfold Fetch.restart
  rw [hinst, hpage, haccess]
  by_cases hword : a.toNat % 4 = 0
  · rw [if_neg (not_not.mpr (hlow.mpr hword)), if_pos hword]
    rfl
  · rw [if_pos (mt hlow.mp hword), if_neg hword]
    have hupper (f : Half → BitVec 16) (x y : Half) : lanes f [x, y] >>> 16 = lanes f [y] :=
      lanes_drop (by simp) 1
    simp only [hupper]
    rfl

/-- The fill level that `if_id_flush` is computed from. -/
theorem encode_ready :
    decide (q.encode.bufferIdx < if q.encode.isWide then 32 else 16) = !q.ready := by
  have hidx := encode_idx_toNat (q := q)
  rw [Bool.eq_iff_iff, decide_eq_true_iff, Bool.not_eq_true', ready, decide_eq_false_iff_not, size,
    encode_isWide, BitVec.lt_def, hidx]
  split
  · change 16 * q.halves.length < 32 ↔ _
    omega
  · change 16 * q.halves.length < 16 ↔ _
    omega

end HalfQueue

namespace Fetch

open HalfQueue

/-- The members and the registered outputs show a queue. -/
structure Represents (s : Fetch) (q : HalfQueue) : Prop where
  fifo_eq : s.fifo = q.encode
  flush_eq : s.ifId.ifIdFlush = !q.ready
  inst_eq : s.ifId.ifIdInst = q.encode.buffer.setWidth 32
  pc_eq : s.ifId.ifIdPc = q.addr
  fault_eq : q.ready = true → (s.ifId.ifIdFault, s.ifId.ifIdTval) = faultReport q.encode

variable {s : Fetch} {q : HalfQueue} {i : FetchIn}

theorem fifoUpdate_of_reset (h : (i.rst || i.flush) = true) :
    (s.fifoUpdate i).fifo = empty.encode := by
  rw [fifoUpdate, if_pos h]
  rfl

theorem pop_of_not_ready (h : q.ready = false) : q.pop = q :=
  dif_neg fun hsize => by simp [HalfQueue.ready, hsize] at h

/-- The branches of the update, in terms of the queue. -/
theorem fifoUpdate_branch (hs : Represents s q) (hopen : (i.rst || i.flush) = false) :
    s.fifoUpdate i =
      if (i.rsp.mmuRspAck && !i.immuFlush) = true then
        if i.immuPc ≠ q.endAddr then restart (offerOf i.rsp) i.immuPc
        else if (!i.stall && q.ready) = true then popAppend q.encode (offerOf i.rsp)
        else append q.encode (offerOf i.rsp)
      else if (!i.stall && q.ready) = true then pop q.encode
      else { fifo := q.encode } := by
  unfold fifoUpdate
  dsimp only
  rw [hopen, if_neg Bool.false_ne_true, hs.fifo_eq, hs.flush_eq, encode_endAddr, Bool.not_not]

/-- The step of the queue, with the condition under which the update pops. -/
theorem step_branch (heven : EvenWord i.immuPc) (hopen : (i.rst || i.flush) = false) :
    q.step i heven =
      if (i.rsp.mmuRspAck && !i.immuFlush) = true ∧ i.immuPc ≠ q.endAddr then
        start i.immuPc heven (halvesOf i.rsp.mmuRspRdata i.rsp.mmuRspFault)
      else if (i.rsp.mmuRspAck && !i.immuFlush) = true then
        (if (!i.stall && q.ready) = true then q.pop else q).push
          (halvesOf i.rsp.mmuRspRdata i.rsp.mmuRspFault)
      else if (!i.stall && q.ready) = true then q.pop else q := by
  have hstage : (if i.stall then q else q.pop) =
      if (!i.stall && q.ready) = true then q.pop else q := by
    cases i.stall with
    | true => rfl
    | false =>
      cases hready : q.ready with
      | true => rfl
      | false => exact pop_of_not_ready hready
  unfold step
  dsimp only
  rw [hopen, if_neg Bool.false_ne_true, hstage]

/-- Every branch of the update is a queue operation. -/
theorem fifoUpdate_eq (hs : Represents s q) (heven : EvenWord i.immuPc) :
    (s.fifoUpdate i).fifo = (q.step i heven).encode := by
  by_cases hrst : (i.rst || i.flush) = true
  · rw [fifoUpdate_of_reset hrst, step, if_pos hrst]
  have hopen : (i.rst || i.flush) = false := by simpa using hrst
  rw [fifoUpdate_branch hs hopen, step_branch heven hopen]
  by_cases hoffer : (i.rsp.mmuRspAck && !i.immuFlush) = true
  · by_cases hend : i.immuPc = q.endAddr
    · rw [if_pos hoffer, if_neg (not_not.mpr hend), if_neg (not_and_not_right.mpr fun _ => hend),
        if_pos hoffer]
      by_cases hpops : (!i.stall && q.ready) = true
      · have hready : q.ready = true := (Bool.and_eq_true_iff.mp hpops).2
        rw [if_pos hpops, if_pos hpops, encode_popAppend hready, encode_pop hready]
        exact encode_append _
      · rw [if_neg hpops, if_neg hpops]
        exact encode_append _
    · rw [if_pos hoffer, if_pos hend, if_pos ⟨hoffer, hend⟩]
      exact encode_start _ heven
  · rw [if_neg hoffer, if_neg (mt And.left hoffer), if_neg hoffer]
    by_cases hpops : (!i.stall && q.ready) = true
    · rw [if_pos hpops, if_pos hpops]
      exact encode_pop (Bool.and_eq_true_iff.mp hpops).2
    · rw [if_neg hpops, if_neg hpops]

theorem restart_flags (o : Offer) (a : BitVec 32) :
    (restart o a).stored = true ∧ (restart o a).popped = false := by
  unfold restart
  split <;> exact ⟨rfl, rfl⟩

theorem pop_flags (b : Fifo) : (pop b).stored = false ∧ (pop b).popped = true := by
  unfold pop
  split <;> exact ⟨rfl, rfl⟩

theorem append_flags (o : Offer) : (append q.encode o).stored = decide (q.halves.length ≤ 2) ∧
    (append q.encode o).popped = false := by
  unfold append
  by_cases h : q.halves.length ≤ 2
  · rw [if_pos (encode_idx_le_iff.mpr h)]
    exact ⟨(decide_eq_true h).symm, rfl⟩
  · rw [if_neg (mt encode_idx_le_iff.mp h)]
    exact ⟨(decide_eq_false h).symm, rfl⟩

theorem popAppend_flags (hready : q.ready = true) (o : Offer) :
    (popAppend q.encode o).stored = decide (q.pop.halves.length ≤ 2) ∧
      (popAppend q.encode o).popped = true := by
  have hsize : q.size ≤ q.halves.length := of_decide_eq_true hready
  have hpop : q.pop.halves.length = q.halves.length - q.size := by
    rw [HalfQueue.pop, dif_pos hsize]
    exact List.length_drop
  have hidx := encode_idx_toNat (q := q)
  have hlen := q.length_le
  rw [hpop]
  rw [size, ← encode_isWide] at hsize ⊢
  unfold popAppend
  split
  · rename_i hwide
    rw [if_pos hwide] at hsize
    exact ⟨(decide_eq_true (by omega)).symm, rfl⟩
  · rename_i hwide
    rw [if_neg hwide] at hsize
    have hroom : q.encode.bufferIdx ≤ 48 ↔ q.halves.length - 1 ≤ 2 := by
      rw [BitVec.le_def, hidx]
      change 16 * q.halves.length ≤ 48 ↔ _
      omega
    dsimp only
    by_cases h : q.halves.length - 1 ≤ 2
    · rw [if_pos (hroom.mpr h)]
      exact ⟨(decide_eq_true h).symm, rfl⟩
    · rw [if_neg (mt hroom.mp h)]
      exact ⟨(decide_eq_false h).symm, rfl⟩

/-- A push appends the word or finds no room. -/
theorem push_cases {r : HalfQueue} {word : Half × Half} {a b : BitVec 32} (h : a = b) :
    (decide (r.halves.length ≤ 2) = false ∧ r.push word = r) ∨
      (decide (r.halves.length ≤ 2) = true ∧ a = b ∧ r.halves.length ≤ 2 ∧
        ∃ word', r.push word = r.push word') := by
  by_cases hroom : r.halves.length ≤ 2
  · exact .inr ⟨decide_eq_true hroom, h, hroom, word, rfl⟩
  · exact .inl ⟨decide_eq_false hroom, dif_neg hroom⟩

/-- The kinds of cycles without a reset or a flush: the queue starts anew at the
offered word, or it pops if it may and then appends the word that continues it. -/
theorem fifoUpdate_cases (hs : Represents s q) (heven : EvenWord i.immuPc)
    (hopen : (i.rst || i.flush) = false) :
    ((s.fifoUpdate i).stored = true ∧ (s.fifoUpdate i).popped = false ∧ i.immuPc ≠ q.endAddr ∧
      ∃ word, q.step i heven = start i.immuPc heven word) ∨
    ∃ r, r = (if (s.fifoUpdate i).popped then q.pop else q) ∧
      (s.fifoUpdate i).popped = (!i.stall && q.ready) ∧
      (((s.fifoUpdate i).stored = false ∧ q.step i heven = r) ∨
        ((s.fifoUpdate i).stored = true ∧ i.immuPc = q.endAddr ∧ r.halves.length ≤ 2 ∧
          ∃ word, q.step i heven = r.push word)) := by
  rw [fifoUpdate_branch hs hopen, step_branch heven hopen]
  by_cases hoffer : (i.rsp.mmuRspAck && !i.immuFlush) = true
  · by_cases hend : i.immuPc = q.endAddr
    · rw [if_pos hoffer, if_neg (not_not.mpr hend), if_neg (not_and_not_right.mpr fun _ => hend),
        if_pos hoffer]
      by_cases hpops : (!i.stall && q.ready) = true
      · obtain ⟨hstored, hpopped⟩ :=
          popAppend_flags (Bool.and_eq_true_iff.mp hpops).2 (offerOf i.rsp)
        rw [if_pos hpops, if_pos hpops, hstored, hpopped, hpops]
        exact .inr ⟨q.pop, rfl, rfl, push_cases hend⟩
      · obtain ⟨hstored, hpopped⟩ := append_flags (q := q) (offerOf i.rsp)
        rw [if_neg hpops, if_neg hpops, hstored, hpopped, Bool.eq_false_of_not_eq_true hpops]
        exact .inr ⟨q, rfl, rfl, push_cases hend⟩
    · obtain ⟨hstored, hpopped⟩ := restart_flags (offerOf i.rsp) i.immuPc
      rw [if_pos hoffer, if_pos hend, if_pos ⟨hoffer, hend⟩]
      exact .inl ⟨hstored, hpopped, hend, _, rfl⟩
  · rw [if_neg hoffer, if_neg (mt And.left hoffer), if_neg hoffer]
    by_cases hpops : (!i.stall && q.ready) = true
    · obtain ⟨hstored, hpopped⟩ := pop_flags q.encode
      rw [if_pos hpops, if_pos hpops, hstored, hpopped, hpops]
      exact .inr ⟨q.pop, rfl, rfl, .inl ⟨rfl, rfl⟩⟩
    · rw [if_neg hpops, if_neg hpops, Bool.eq_false_of_not_eq_true hpops]
      exact .inr ⟨q, rfl, rfl, .inl ⟨rfl, rfl⟩⟩

/-- The outputs that the second part computes from a queue. -/
theorem represents_outputs (rst flush : Bool) (old : IfId)
    (h : (rst || flush) = true → q = empty) :
    Represents { fifo := q.encode, ifId := outputs rst flush old q.encode } q := by
  unfold outputs
  dsimp only
  split
  · rename_i hrst
    have hempty : q.ready = false := by rw [h hrst]; rfl
    exact ⟨rfl, by rw [hempty]; rfl, rfl, rfl, fun hready => by rw [hempty] at hready; cases hready⟩
  · exact ⟨rfl, encode_ready, rfl, rfl, fun _ => rfl⟩

/-- One edge follows the queue. -/
theorem Represents.getInstSeq (hs : Represents s q) (heven : EvenWord i.immuPc) :
    Represents (s.getInstSeq i) (q.step i heven) := by
  have hempty : (i.rst || i.flush) = true → q.step i heven = empty := fun h => if_pos h
  have h := represents_outputs i.rst i.flush s.ifId hempty
  rwa [← fifoUpdate_eq hs heven] at h

/-- A reset empties the queue, whatever was there. -/
theorem represents_of_rst (h : i.rst = true) : Represents (s.getInstSeq i) empty := by
  have hrst : (i.rst || i.flush) = true := by rw [h, Bool.true_or]
  have hout := represents_outputs i.rst i.flush s.ifId fun _ => rfl
  rwa [← fifoUpdate_of_reset hrst] at hout

end Fetch

end Turtle
