import Turtle.FetchFacts

/-!
# What the fetch buffer shows to Decode

The responses of the IMMU are a fixed function of the word address. The queue then
holds a window of that memory, and the outputs show the instruction at
`if_id_pc` with the first fault among the halfwords it occupies.
-/

namespace Turtle

open Bits Lanes

/-- What the IMMU answers for a word: its data and its fault. -/
abbrev WordSource := BitVec 32 → BitVec 32 × BitVec 8

namespace WordSource

variable (src : WordSource)

/-- The halfword at an even address. -/
def halfAt (a : BitVec 32) : Half :=
  let answer := src (a &&& ~~~3)
  let word := halvesOf answer.1 answer.2
  if a.getLsbD 1 then word.2 else word.1

/-- The `n` halfwords from `a` on. -/
def window : BitVec 32 → ℕ → List Half
  | _, 0 => []
  | a, n + 1 => src.halfAt a :: window (a + 2) n

/-- The addresses of the halfwords that the instruction at `pc` occupies. -/
def occupied (pc : BitVec 32) : List (BitVec 32) :=
  if (src.halfAt pc).isWide then [pc, pc + 2] else [pc]

/-- The report of the first faulting halfword: the access fault before the page
fault, and its address. -/
def firstFault : List (BitVec 32) → BitVec 8 × BitVec 32
  | [] => (0, 0)
  | a :: as =>
    if (src.halfAt a).accessFault then (ExceptionCause.instrAccessFault.code.setWidth 8, a)
    else if (src.halfAt a).pageFault then (ExceptionCause.instrPageFault.code.setWidth 8, a)
    else firstFault as

variable {src}

@[simp] theorem length_window (a : BitVec 32) (n : ℕ) : (src.window a n).length = n := by
  induction n generalizing a with
  | zero => rfl
  | succ n ih => rw [window, List.length_cons, ih]

theorem add_two_mul_succ (a : BitVec 32) (k : ℕ) :
    a + 2 + BitVec.ofNat 32 (2 * k) = a + BitVec.ofNat 32 (2 * (k + 1)) := by
  rw [Nat.mul_add, BitVec.ofNat_add, BitVec.add_assoc, BitVec.add_comm 2]
  rfl

theorem window_drop (a : BitVec 32) (n k : ℕ) :
    (src.window a n).drop k = src.window (a + BitVec.ofNat 32 (2 * k)) (n - k) := by
  induction k generalizing a n with
  | zero => simp
  | succ k ih =>
    cases n with
    | zero => simp [window]
    | succ n => rw [window, List.drop_succ_cons, ih, add_two_mul_succ, Nat.succ_sub_succ]

theorem window_append (a : BitVec 32) (n m : ℕ) :
    src.window a n ++ src.window (a + BitVec.ofNat 32 (2 * n)) m = src.window a (n + m) := by
  induction n generalizing a with
  | zero => simp [window]
  | succ n ih =>
    rw [Nat.succ_add, window, window, List.cons_append, ← add_two_mul_succ, ih]

/-- The answer for an aligned word gives its two halfwords. -/
theorem halvesOf_aligned {a : BitVec 32} (h : a.toNat % 4 = 0) :
    halvesOf (src (a &&& ~~~3)).1 (src (a &&& ~~~3)).2 = (src.halfAt a, src.halfAt (a + 2)) := by
  have hlt := a.isLt
  have hadd : (a + 2).toNat = a.toNat + 2 := by
    rw [BitVec.toNat_add]
    change (a.toNat + 2) % 2 ^ 32 = _
    omega
  have hsame : (a + 2) &&& ~~~3 = a &&& ~~~3 := by
    apply BitVec.eq_of_toNat_eq
    rw [and_not_three_toNat, and_not_three_toNat, hadd]
    omega
  have hlow : a.getLsbD 1 = false := by
    rw [BitVec.getLsbD, Nat.testBit_eq_decide_div_mod_eq, decide_eq_false_iff_not]
    omega
  have hhigh : (a + 2).getLsbD 1 = true := by
    rw [BitVec.getLsbD, Nat.testBit_eq_decide_div_mod_eq, hadd, decide_eq_true_iff]
    omega
  simp only [halfAt, hsame, hlow, hhigh, Bool.false_eq_true, if_false, if_true]

/-- The upper half is the halfword at an address between word boundaries. -/
theorem halvesOf_upper {a : BitVec 32} (heven : EvenWord a) (h : a.toNat % 4 ≠ 0) :
    (halvesOf (src (a &&& ~~~3)).1 (src (a &&& ~~~3)).2).2 = src.halfAt a := by
  have hmod := heven.toNat_mod_two
  have hhigh : a.getLsbD 1 = true := by
    rw [BitVec.getLsbD, Nat.testBit_eq_decide_div_mod_eq, decide_eq_true_iff]
    omega
  simp only [halfAt, hhigh, if_true]

end WordSource

/-- The response of a cycle, if there is one, is the answer for its word. -/
def FetchIn.Answers (src : WordSource) (i : FetchIn) : Prop :=
  i.rsp.mmuRspAck = true → (i.rsp.mmuRspRdata, i.rsp.mmuRspFault) = src (i.immuPc &&& ~~~3)

instance (src : WordSource) (i : FetchIn) : Decidable (i.Answers src) :=
  inferInstanceAs (Decidable (_ → _))

namespace HalfQueue

open WordSource

/-- The queue holds a window of memory. -/
def Reads (src : WordSource) (q : HalfQueue) : Prop :=
  q.halves = src.window q.addr q.halves.length

variable {src : WordSource} {q : HalfQueue} {i : FetchIn}

theorem endAddr_aligned (q : HalfQueue) : q.endAddr.toNat % 4 = 0 := by
  have h := q.aligned
  have hlen := q.length_le
  rw [endAddr, BitVec.toNat_add, BitVec.toNat_ofNat]
  omega

/-- Popping moves the front only. -/
theorem endAddr_pop (q : HalfQueue) : q.pop.endAddr = q.endAddr := by
  unfold HalfQueue.pop
  split
  · rename_i hsize
    have hlen := q.length_le
    rw [endAddr, endAddr, List.length_drop, BitVec.add_assoc, ← BitVec.ofNat_add, ← Nat.mul_add,
      Nat.add_sub_cancel' hsize]
  · rfl

theorem Reads.pop (h : Reads src q) : Reads src q.pop := by
  unfold HalfQueue.pop
  split
  · change q.halves.drop q.size = src.window _ (q.halves.drop q.size).length
    rw [List.length_drop, ← window_drop, ← h]
  · exact h

theorem Reads.push {word : Half × Half} (h : Reads src q)
    (hword : word = (src.halfAt q.endAddr, src.halfAt (q.endAddr + 2))) :
    Reads src (q.push word) := by
  unfold HalfQueue.push
  split
  · change q.halves ++ [word.1, word.2] = src.window q.addr (q.halves ++ [word.1, word.2]).length
    rw [List.length_append, ← window_append, ← h, hword]
    rfl
  · exact h

theorem reads_start {a : BitVec 32} (heven : EvenWord a) {word : Half × Half}
    (hword : word = halvesOf (src (a &&& ~~~3)).1 (src (a &&& ~~~3)).2) :
    Reads src (start a heven word) := by
  unfold Reads start
  dsimp only
  rw [hword]
  split
  · rename_i haligned
    rw [halvesOf_aligned haligned]
    rfl
  · rename_i hupper
    rw [halvesOf_upper heven hupper]
    rfl

/-- A cycle whose response is the answer for its word keeps the window. -/
theorem Reads.step (h : Reads src q) (heven : EvenWord i.immuPc) (hi : i.Answers src) :
    Reads src (q.step i heven) := by
  unfold HalfQueue.step
  dsimp only
  split
  · rfl
  by_cases hoffer : (i.rsp.mmuRspAck && !i.immuFlush) = true
  · have hanswer := hi (Bool.and_eq_true_iff.mp hoffer).1
    have hdata : i.rsp.mmuRspRdata = (src (i.immuPc &&& ~~~3)).1 := congrArg Prod.fst hanswer
    have hfault : i.rsp.mmuRspFault = (src (i.immuPc &&& ~~~3)).2 := congrArg Prod.snd hanswer
    rw [hdata, hfault]
    split
    · exact reads_start heven rfl
    · rename_i hcont
      have hend : i.immuPc = q.endAddr := by
        by_contra hne
        exact hcont ⟨hoffer, hne⟩
      rw [hend, halvesOf_aligned q.endAddr_aligned]
      split
      · exact h.push rfl
      · exact h.pop.push (by rw [endAddr_pop])
  · rw [if_neg hoffer, if_neg fun hcont => hoffer hcont.1]
    split
    · exact h
    · exact h.pop

theorem Reads.half_at (hq : Reads src q) {k : ℕ} (hk : k < q.halves.length) :
    q.halves[k]? = some (src.halfAt (q.addr + BitVec.ofNat 32 (2 * k))) := by
  obtain ⟨n, hn⟩ : ∃ n, q.halves.length - k = n + 1 := ⟨q.halves.length - k - 1, by omega⟩
  have hdrop : q.halves.drop k = src.window (q.addr + BitVec.ofNat 32 (2 * k)) (n + 1) := by
    rw [← hn, ← window_drop, ← hq]
  have hhead := congrArg (·[0]?) hdrop
  simpa [window] using hhead

end HalfQueue

/-- What Decode is shown: the instruction at `if_id_pc` and its first fault. -/
structure IfId.Shows (src : WordSource) (o : IfId) : Prop where
  low : o.ifIdInst.setWidth 16 = (src.halfAt o.ifIdPc).data
  high : (src.halfAt o.ifIdPc).isWide = true →
    (o.ifIdInst >>> 16).setWidth 16 = (src.halfAt (o.ifIdPc + 2)).data
  fault : (o.ifIdFault, o.ifIdTval) = src.firstFault (src.occupied o.ifIdPc)

/-- The members of the fetch buffer are consistent. -/
structure Fifo.WellFormed (b : Fifo) : Prop where
  idx : b.bufferIdx ∈ [0, 16, 32, 48, 64]
  clear : ∀ j, b.bufferIdx.toNat ≤ j → b.buffer.getLsbD j = false ∧
    b.bufferPageFault.getLsbD j = false ∧ b.bufferAccessFault.getLsbD j = false
  aligned : b.endAddr &&& 3 = 0

namespace Fetch

open WordSource HalfQueue

variable {src : WordSource} {s : Fetch} {q : HalfQueue} {i : FetchIn}

/-- A bit of a lane. -/
theorem getLsbD_lanes {f : Half → BitVec 16} {halves : List Half} {h : Half} {k j : ℕ}
    (hj : j < 16) (hk : k < 4) (hh : halves[k]? = some h) :
    (lanes f halves).getLsbD (16 * k + j) = (f h).getLsbD j := by
  have hdiv : (16 * k + j) / 16 = k := by omega
  have hmod : (16 * k + j) % 16 = j := by omega
  have hlt : 16 * k + j < 64 := by omega
  rw [lanes, getLsbD_pack (by decide), hdiv, hmod, List.getD_eq_getElem?_getD, List.getElem?_map, hh]
  simp [hlt]

theorem faultLane_getLsbD (b : Bool) : (faultLane b).getLsbD 0 = b := by
  cases b <;> rfl

/-- The test of the lowest bit of a lane. -/
theorem lanes_and_ne_zero_iff {g : Half → Bool} {halves : List Half} {h : Half} {k : ℕ} (hk : k < 4)
    (hh : halves[k]? = some h) :
    lanes (fun h => faultLane (g h)) halves &&& (1#64 <<< (16 * k)) ≠ 0 ↔ g h = true := by
  have hbit := getLsbD_lanes (f := fun h => faultLane (g h)) (j := 0) (by decide) hk hh
  rw [Nat.add_zero, faultLane_getLsbD] at hbit
  rw [and_one_shiftLeft_ne_zero_iff, hbit]

/-- The bits that `if_id_inst` takes from lane `k`. -/
theorem Represents.inst_lane (hs : Represents s q) {h : Half} {k : ℕ} (hk : k < 2)
    (hh : q.halves[k]? = some h) : (s.ifId.ifIdInst >>> (16 * k)).setWidth 16 = h.data := by
  apply BitVec.eq_of_getLsbD_eq
  intro j hj
  have hlane := getLsbD_lanes (f := Half.data) hj (by omega : k < 4) hh
  have hlt : 16 * k + j < 32 := by omega
  rw [hs.inst_eq, BitVec.getLsbD_setWidth, BitVec.getLsbD_ushiftRight, BitVec.getLsbD_setWidth,
    ← hlane]
  simp only [hj, hlt, decide_true, Bool.true_and]
  rfl

/-- A whole instruction in the queue is shown as it stands in memory. -/
theorem Represents.shows (hs : Represents s q) (hq : Reads src q) (hready : q.ready = true) :
    s.ifId.Shows src := by
  have hsize : q.size ≤ q.halves.length := of_decide_eq_true hready
  unfold size at hsize
  have hfirst : q.halves[0]? = some (src.halfAt q.addr) := by
    have h := hq.half_at (k := 0) (by split at hsize <;> omega)
    simpa using h
  have hwide : q.isWide = (src.halfAt q.addr).isWide := by
    rw [isWide, List.head?_eq_getElem?, hfirst]
    rfl
  have hsecond (h : (src.halfAt q.addr).isWide = true) :
      q.halves[1]? = some (src.halfAt (q.addr + 2)) := by
    rw [hwide, if_pos h] at hsize
    exact hq.half_at (k := 1) (by omega)
  refine ⟨?_, fun h => ?_, ?_⟩
  · rw [hs.pc_eq]
    exact hs.inst_lane (k := 0) (by decide) hfirst
  · rw [hs.pc_eq] at h ⊢
    exact hs.inst_lane (k := 1) (by decide) (hsecond h)
  · have hlow (g : Half → Bool) : lanes (fun h => faultLane (g h)) q.halves &&& 1 ≠ 0 ↔
        g (src.halfAt q.addr) = true := lanes_and_ne_zero_iff (k := 0) (by decide) hfirst
    rw [hs.fault_eq hready, hs.pc_eq]
    unfold faultReport occupied
    rw [encode_isWide, hwide]
    change (if lanes (fun h => faultLane h.accessFault) q.halves &&& 1 ≠ 0 then _ else
      if lanes (fun h => faultLane h.pageFault) q.halves &&& 1 ≠ 0 then _ else _) = _
    simp only [hlow]
    cases hw : (src.halfAt q.addr).isWide with
    | false => rfl
    | true =>
      have hhigh (g : Half → Bool) : lanes (fun h => faultLane (g h)) q.halves &&& (1#64 <<< 16) ≠ 0 ↔
          g (src.halfAt (q.addr + 2)) = true := lanes_and_ne_zero_iff (k := 1) (by decide) (hsecond hw)
      change (if _ then _ else if _ then _ else
        if lanes (fun h => faultLane h.accessFault) q.halves &&& (1#64 <<< 16) ≠ 0 then _ else
        if lanes (fun h => faultLane h.pageFault) q.halves &&& (1#64 <<< 16) ≠ 0 then _ else _) = _
      simp only [hhigh]
      rfl

/-- The buffers of a queue are consistent. -/
theorem wellFormed_encode (q : HalfQueue) : q.encode.WellFormed := by
  have hlen := q.length_le
  have hidx := encode_idx_toNat (q := q)
  refine ⟨?_, fun j hj => ?_, ?_⟩
  · have hlevels : ∀ n ≤ 4, BitVec.ofNat 32 (16 * n) ∈ [0, 16, 32, 48, 64] := by decide
    exact hlevels _ hlen
  · rw [hidx] at hj
    exact ⟨getLsbD_lanes_of_le hj, getLsbD_lanes_of_le hj, getLsbD_lanes_of_le hj⟩
  · rw [encode_endAddr, ← BitVec.toNat_inj, and_ones_toNat (n := 2) _ _ (by decide)]
    exact q.endAddr_aligned

theorem restart_shifts (o : Offer) (a : BitVec 32) : ∀ n ∈ (restart o a).shifts, n.toNat ≤ 63 := by
  unfold restart
  split <;> simp

theorem append_shifts (b : Fifo) (o : Offer) : ∀ n ∈ (append b o).shifts, n.toNat ≤ 63 := by
  unfold append
  split
  · rename_i h
    intro n hn
    rw [List.mem_singleton.mp hn]
    rw [BitVec.le_def] at h
    exact Nat.le_trans h (by decide)
  · simp

theorem pop_shifts (b : Fifo) : ∀ n ∈ (pop b).shifts, n.toNat ≤ 63 := by
  unfold pop
  split <;> simp

theorem popAppend_shifts (hready : q.ready = true) (o : Offer) :
    ∀ n ∈ (popAppend q.encode o).shifts, n.toNat ≤ 63 := by
  have hsize : q.size ≤ q.halves.length := of_decide_eq_true hready
  have hidx := encode_idx_toNat (q := q)
  have hlen := q.length_le
  rw [size, ← encode_isWide] at hsize
  unfold popAppend
  split
  · rename_i hwide
    rw [if_pos hwide] at hsize
    have hshift : (q.encode.bufferIdx - 32).toNat ≤ 63 := by
      rw [BitVec.toNat_sub, hidx]
      change (2 ^ 32 - 32 + _) % 2 ^ 32 ≤ 63
      omega
    exact List.forall_mem_cons.mpr ⟨by decide, List.forall_mem_singleton.mpr hshift⟩
  · rename_i hwide
    rw [if_neg hwide] at hsize
    have hshift : (q.encode.bufferIdx - 16).toNat ≤ 63 := by
      rw [BitVec.toNat_sub, hidx]
      change (2 ^ 32 - 16 + _) % 2 ^ 32 ≤ 63
      omega
    dsimp only
    split
    · exact List.forall_mem_cons.mpr ⟨by decide, List.forall_mem_singleton.mpr hshift⟩
    · simp

/-- Every shift of an update stays within the word. -/
theorem Represents.shifts_le (hs : Represents s q) (i : FetchIn) :
    ∀ n ∈ (s.fifoUpdate i).shifts, n.toNat ≤ 63 := by
  by_cases hrst : (i.rst || i.flush) = true
  · rw [fifoUpdate, if_pos hrst]
    simp
  rw [fifoUpdate_branch hs (by simpa using hrst)]
  split
  · split
    · exact restart_shifts _ _
    split
    · rename_i hpops
      exact popAppend_shifts (Bool.and_eq_true_iff.mp hpops).2 _
    · exact append_shifts _ _
  split
  · exact pop_shifts _
  · simp

/-- Along a run that starts with a reset, the buffers hold a window of memory. -/
theorem represents_run {is : List FetchIn} (hrst : i.rst = true)
    (hin : ∀ j ∈ is, EvenWord j.immuPc ∧ j.Answers src) :
    ∃ q, Represents (Clocked.run getInstSeq s (i :: is)) q ∧ Reads src q := by
  rw [Clocked.run_cons]
  refine Clocked.invariant_run (P := fun s => ∃ q, Represents s q ∧ Reads src q) ?_
    ⟨_, represents_of_rst hrst, rfl⟩
  rintro s ⟨q, hs, hq⟩ j hj
  obtain ⟨heven, hanswers⟩ := hin j hj
  exact ⟨_, hs.getInstSeq heven, hq.step heven hanswers⟩

/-- Fidelity of the fetch buffer. In every run that starts with a reset and in
which the responses are a fixed function of the word address: whenever an
instruction is offered, it is the one in memory with its first fault; the buffers
stay consistent; and no cycle shifts by more than 63. -/
theorem buffer_faithful (src : WordSource) (s : Fetch) (i : FetchIn) (is : List FetchIn)
    (hrst : i.rst = true) (hin : ∀ j ∈ is, EvenWord j.immuPc ∧ j.Answers src) :
    let t := Clocked.run getInstSeq s (i :: is)
    (t.ifId.ifIdFlush = false → t.ifId.Shows src) ∧ t.fifo.WellFormed ∧
      ∀ j, ∀ n ∈ (t.fifoUpdate j).shifts, n.toNat ≤ 63 := by
  intro t
  obtain ⟨q, hs, hq⟩ := represents_run (s := s) hrst hin
  refine ⟨fun hflush => hs.shows hq ?_, ?_, hs.shifts_le⟩
  · have hready : t.ifId.ifIdFlush = !q.ready := hs.flush_eq
    rw [hflush] at hready
    simpa using hready.symm
  · rw [hs.fifo_eq]
    exact wellFormed_encode q

/-- A source with a jump at `0x80000002` that crosses into a faulting word. -/
def crossingSource : WordSource := fun a =>
  if a = 0x80000000 then (0x006f0001, 0) else if a = 0x80000004 then (0, 12) else (0, 1)

/-- The fetch of that jump: a reset, the word with its first half, the next word. -/
def crossingRun : List FetchIn :=
  [{ immuPc := 0x80000002, rsp := { mmuRspAck := true, mmuRspRdata := 0x006f0001 } },
    { immuPc := 0x80000004, rsp := { mmuRspAck := true, mmuRspFault := 12 } }]

/-- The page fault of the second half is reported at its address. -/
theorem buffer_faithful_crossing :
    (Clocked.run getInstSeq {} ({ rst := true } :: crossingRun)).ifId.Shows crossingSource ∧
      (Clocked.run getInstSeq {} ({ rst := true } :: crossingRun)).ifId.ifIdTval = 0x80000004 := by
  have hin : ∀ j ∈ crossingRun, EvenWord j.immuPc ∧ j.Answers crossingSource := by decide
  exact ⟨(buffer_faithful crossingSource {} { rst := true } crossingRun rfl hin).1 (by decide),
    by decide⟩

end Fetch

end Turtle
