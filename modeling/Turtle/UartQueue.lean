import Turtle.Devices
import Turtle.Lib.Clocked
import Turtle.Lib.Ring

/-!
# The receive queue of the UART

`keyboard_input` moves the end of a ring of 128 bytes and a read of the receive register
its begin, each wrapping in its own way. Over any interleaving of typing and register
accesses the ring is a queue of at most 127 bytes: what is read is what was typed.
-/

namespace Turtle

/-- A call of one of the methods of `UART_DEV`. -/
inductive UartCall
  | keyboardInput (s : List (BitVec 8))
  | uartIrq
  | read (addr : BitVec 32)
  | write (addr : BitVec 32) (val : BitVec 8)

namespace Uart

/-- The state after a call. -/
def call (u : Uart) : UartCall → Uart
  | .keyboardInput s => u.keyboardInput s
  | .uartIrq => u.uartIrq.2
  | .read addr => (u.read addr).2
  | .write addr val => u.write addr val

/-- The bytes that were typed and not read yet. -/
def queue (u : Uart) : List (BitVec 8) :=
  Ring.contents 128 (fun k => u.uartBuf (BitVec.ofNat 32 k)) u.uartBufBegin.toNat
    u.uartBufEnd.toNat

/-- The indices are those of slots. -/
structure InRing (u : Uart) : Prop where
  begin_lt : u.uartBufBegin.toNat < 128
  end_lt : u.uartBufEnd.toNat < 128

/-- A read at `addr` takes a byte out of the receive register. -/
def Receives (u : Uart) (addr : BitVec 32) : Prop :=
  addr = base ∧ u.dlab = false ∧ u.uartBufEnd ≠ u.uartBufBegin

instance (u : Uart) (addr : BitVec 32) : Decidable (u.Receives addr) :=
  inferInstanceAs (Decidable (_ ∧ _))

/-- The bytes that a call puts into the queue: the longest prefix of the input that keeps at
most 127 bytes queued. -/
def accepted (u : Uart) : UartCall → List (BitVec 8)
  | .keyboardInput s => s.take (127 - u.queue.length)
  | _ => []

/-- The bytes that a call returns from the receive register. -/
def delivered (u : Uart) : UartCall → List (BitVec 8)
  | .read addr => if u.Receives addr then [(u.read addr).1] else []
  | _ => []

variable {u v : Uart} {addr : BitVec 32} {val : BitVec 8}

/-! ### The indices -/

/-- Two records with the same ring. -/
structure SameRing (u v : Uart) : Prop where
  buf : v.uartBuf = u.uartBuf
  begin_eq : v.uartBufBegin = u.uartBufBegin
  end_eq : v.uartBufEnd = u.uartBufEnd

theorem SameRing.queue (h : SameRing u v) : v.queue = u.queue := by
  unfold Uart.queue
  rw [h.buf, h.begin_eq, h.end_eq]

theorem SameRing.inRing (h : SameRing u v) (hu : u.InRing) : v.InRing :=
  ⟨by rw [h.begin_eq]; exact hu.begin_lt, by rw [h.end_eq]; exact hu.end_lt⟩

/-- `keyboard_input` compares before it increments. -/
theorem nxtEnd_toNat {i : BitVec 32} (h : i.toNat < 128) :
    (if i + 1 ≠ uartBufSize then i + 1 else 0).toNat = Ring.next 128 i.toNat := by
  have hsucc : (i + 1).toNat = i.toNat + 1 := by
    rw [BitVec.toNat_add]
    change (i.toNat + 1) % 2 ^ 32 = _
    omega
  have hlast : i + 1 = uartBufSize ↔ i.toNat + 1 = 128 := by
    rw [← BitVec.toNat_inj, hsucc]
    rfl
  unfold Ring.next
  split
  case isTrue hne => rw [if_neg (mt hlast.mpr hne), hsucc]
  case isFalse heq => rw [if_pos (hlast.mp (not_not.mp heq))]; rfl

/-- A read increments and then wraps. -/
theorem nxtBegin_toNat {i : BitVec 32} (h : i.toNat < 128) :
    (if uartBufSize ≤ i + 1 then 0 else i + 1).toNat = Ring.next 128 i.toNat := by
  have hsucc : (i + 1).toNat = i.toNat + 1 := by
    rw [BitVec.toNat_add]
    change (i.toNat + 1) % 2 ^ 32 = _
    omega
  have hlast : uartBufSize ≤ i + 1 ↔ 128 ≤ i.toNat + 1 := by
    rw [BitVec.le_def, hsucc]
    rfl
  unfold Ring.next
  split
  case isTrue hle => rw [if_pos (by rw [hlast] at hle; omega)]; rfl
  case isFalse hlt => rw [if_neg (by rw [hlast] at hlt; omega), hsucc]

theorem InRing.queue_eq_nil_iff (h : u.InRing) :
    u.queue = [] ↔ u.uartBufEnd = u.uartBufBegin := by
  rw [queue, Ring.contents_eq_nil_iff h.begin_lt, BitVec.toNat_inj]

theorem InRing.length_queue_lt (h : u.InRing) : u.queue.length < 128 := by
  rw [queue, Ring.length_contents]
  exact Ring.size_lt h.begin_lt h.end_lt

/-! ### Typing -/

/-- A byte stored at the end of a ring with room is appended to the queue. -/
theorem InRing.push (h : u.InRing) (c : BitVec 8) {nxt : BitVec 32}
    (hnxt : nxt.toNat = Ring.next 128 u.uartBufEnd.toNat) (hroom : nxt ≠ u.uartBufBegin) :
    let v := { u with uartBuf := Function.update u.uartBuf u.uartBufEnd c, uartBufEnd := nxt }
    v.InRing ∧ v.queue = u.queue ++ [c] := by
  have hend : nxt.toNat < 128 := by
    rw [hnxt]
    exact Ring.next_lt h.end_lt
  have hne : Ring.next 128 u.uartBufEnd.toNat ≠ u.uartBufBegin.toNat := by
    rw [← hnxt]
    exact mt BitVec.eq_of_toNat_eq hroom
  refine ⟨⟨h.begin_lt, hend⟩, ?_⟩
  unfold queue
  dsimp only
  rw [← Ring.contents_push h.begin_lt h.end_lt hne c, hnxt]
  refine Ring.contents_congr h.begin_lt (Ring.next_lt h.end_lt) fun k hk => ?_
  have hslot : BitVec.ofNat 32 k = u.uartBufEnd ↔ k = u.uartBufEnd.toNat := by
    rw [← BitVec.toNat_inj, BitVec.toNat_ofNat, Nat.mod_eq_of_lt (by omega)]
  rw [Function.update_apply, Function.update_apply]
  exact if_congr hslot rfl rfl

/-- `keyboard_input` appends the longest prefix that fits. -/
theorem InRing.keyboardInput (h : u.InRing) (s : List (BitVec 8)) :
    (u.keyboardInput s).InRing ∧
      (u.keyboardInput s).queue = u.queue ++ s.take (127 - u.queue.length) := by
  induction s generalizing u with
  | nil => exact ⟨h, by simp [Uart.keyboardInput]⟩
  | cons c s ih =>
    have hnxt := nxtEnd_toNat h.end_lt
    have hlt := h.length_queue_lt
    have hfull : Ring.next 128 u.uartBufEnd.toNat = u.uartBufBegin.toNat ↔
        u.queue.length + 1 = 128 := by
      rw [Ring.next_eq_iff h.begin_lt h.end_lt, queue, Ring.length_contents]
    rw [← hnxt, BitVec.toNat_inj] at hfull
    unfold Uart.keyboardInput
    dsimp only
    by_cases hmeets : (if u.uartBufEnd + 1 ≠ uartBufSize then u.uartBufEnd + 1 else 0) =
        u.uartBufBegin
    · have hnone : 127 - u.queue.length = 0 := by
        have hlen := hfull.mp hmeets
        omega
      rw [if_pos hmeets, hnone, List.take_zero, List.append_nil]
      exact ⟨h, rfl⟩
    · obtain ⟨hring, hqueue⟩ := h.push c hnxt hmeets
      obtain ⟨hring', hqueue'⟩ := ih hring
      have hroom : 127 - u.queue.length = 127 - (u.queue ++ [c]).length + 1 := by
        have hlen := mt hfull.mpr hmeets
        rw [List.length_append, List.length_singleton]
        omega
      rw [if_neg hmeets]
      refine ⟨hring', ?_⟩
      rw [hqueue', hqueue, hroom, List.take_succ_cons, List.append_assoc]
      rfl

/-! ### Register accesses -/

theorem sameRing_uartIrq : SameRing u u.uartIrq.2 := by
  unfold uartIrq
  split
  · exact ⟨rfl, rfl, rfl⟩
  · split
    · exact ⟨rfl, rfl, rfl⟩
    · exact ⟨rfl, rfl, rfl⟩

theorem sameRing_write : SameRing u (u.write addr val) := by
  unfold write
  dsimp only
  split_ifs
  · exact ⟨rfl, rfl, rfl⟩
  · have hirq := sameRing_uartIrq (u := { u with thri := true })
    exact ⟨hirq.buf, hirq.begin_eq, hirq.end_eq⟩
  · exact ⟨rfl, rfl, rfl⟩
  · have hirq := sameRing_uartIrq (u := { u with ier := val.setWidth 32 })
    exact ⟨hirq.buf, hirq.begin_eq, hirq.end_eq⟩
  · exact ⟨rfl, rfl, rfl⟩
  · exact ⟨rfl, rfl, rfl⟩

theorem sub_base_eq_zero_iff : addr - base = 0 ↔ addr = base := sub_eq_zero

/-- A read that does not receive leaves the ring as it is. -/
theorem sameRing_read (h : ¬ u.Receives addr) : SameRing u (u.read addr).2 := by
  unfold read
  dsimp only
  by_cases hbase : addr = base
  · rw [if_pos (sub_base_eq_zero_iff.mpr hbase)]
    by_cases hdlab : u.dlab = true
    · rw [if_pos hdlab]
      exact ⟨rfl, rfl, rfl⟩
    · have hempty : ¬ u.uartBufEnd ≠ u.uartBufBegin := fun hne =>
        h ⟨hbase, Bool.eq_false_of_not_eq_true hdlab, hne⟩
      rw [if_neg hdlab, if_neg hempty]
      exact ⟨rfl, rfl, rfl⟩
  · rw [if_neg (mt sub_base_eq_zero_iff.mp hbase)]
    by_cases hiir : addr - base = 2
    · have hirq := sameRing_uartIrq (u := u)
      rw [if_neg (by rw [hiir]; decide), if_pos hiir]
      exact ⟨hirq.buf, hirq.begin_eq, hirq.end_eq⟩
    · rw [if_neg hiir]
      iterate 3
        split
        · exact ⟨rfl, rfl, rfl⟩
      exact ⟨rfl, rfl, rfl⟩

/-- A read that receives takes the oldest byte. -/
theorem InRing.receive (h : u.InRing) (hrecv : u.Receives addr) :
    (u.read addr).2.InRing ∧ u.queue = (u.read addr).1 :: (u.read addr).2.queue := by
  obtain ⟨hbase, hdlab, hne⟩ := hrecv
  have hbegin := nxtBegin_toNat h.begin_lt
  let v : Uart := { u with
    uartBufBegin := if uartBufSize ≤ u.uartBufBegin + 1 then 0 else u.uartBufBegin + 1 }
  have hread : u.read addr = (u.uartBuf u.uartBufBegin, v.uartIrq.2) := by
    unfold read
    dsimp only
    rw [if_pos (sub_base_eq_zero_iff.mpr hbase), hdlab, if_neg Bool.false_ne_true, if_pos hne]
    refine congrArg (fun w : Uart => (u.uartBuf u.uartBufBegin, w.uartIrq.2)) ?_
    split
    case isTrue hwrap => simp only [v, if_pos hwrap]
    case isFalse hwrap => simp only [v, if_neg hwrap]
  have hv : v.InRing := ⟨by rw [hbegin]; exact Ring.next_lt h.begin_lt, h.end_lt⟩
  rw [hread]
  refine ⟨sameRing_uartIrq.inRing hv, ?_⟩
  rw [sameRing_uartIrq.queue, queue, queue,
    Ring.contents_pop h.begin_lt h.end_lt (mt BitVec.eq_of_toNat_eq hne), ← hbegin]
  congr 1
  exact congrArg u.uartBuf (by rw [BitVec.ofNat_toNat, BitVec.setWidth_eq])

/-! ### Every interleaving -/

theorem InRing.call (h : u.InRing) (c : UartCall) : (u.call c).InRing := by
  cases c with
  | keyboardInput s => exact (h.keyboardInput s).1
  | uartIrq => exact sameRing_uartIrq.inRing h
  | read addr =>
    by_cases hrecv : u.Receives addr
    · exact (h.receive hrecv).1
    · exact (sameRing_read hrecv).inRing h
  | write addr val => exact sameRing_write.inRing h

theorem InRing.run (h : u.InRing) (cs : List UartCall) : (Clocked.run Uart.call u cs).InRing :=
  Clocked.invariant_run (P := InRing) (fun _ hv c _ => hv.call c) h

/-- What one call puts in and takes out. -/
theorem InRing.queue_call (h : u.InRing) (c : UartCall) :
    u.queue ++ u.accepted c = u.delivered c ++ (u.call c).queue := by
  cases c with
  | keyboardInput s => exact (h.keyboardInput s).2.symm
  | uartIrq => exact (List.append_nil _).trans sameRing_uartIrq.queue.symm
  | read addr =>
    by_cases hrecv : u.Receives addr
    · have hone : u.delivered (.read addr) = [(u.read addr).1] := if_pos hrecv
      rw [hone]
      exact (List.append_nil _).trans (h.receive hrecv).2
    · have hnone : u.delivered (.read addr) = [] := if_neg hrecv
      rw [hnone]
      exact (List.append_nil _).trans (sameRing_read hrecv).queue.symm
  | write addr val => exact (List.append_nil _).trans sameRing_write.queue.symm

/-- The line status register shows whether a byte is queued. -/
theorem InRing.dataReady (h : u.InRing) :
    (u.read (base + 5)).1.getLsbD 0 = true ↔ u.queue ≠ [] := by
  have hread : (u.read (base + 5)).1 =
      0x60 ||| (if u.uartBufEnd ≠ u.uartBufBegin then 1 else 0) := rfl
  have hqueue : u.queue ≠ [] ↔ u.uartBufEnd ≠ u.uartBufBegin := not_congr h.queue_eq_nil_iff
  rw [hread, hqueue]
  split
  case isTrue hne => exact iff_of_true (by decide) hne
  case isFalse heq => exact iff_of_false (by decide) heq

/-- The ring is a queue of at most 127 bytes. -/
structure IsQueue (u : Uart) : Prop where
  begin_lt : u.uartBufBegin.toNat < 128
  end_lt : u.uartBufEnd.toNat < 128
  length_le : u.queue.length ≤ 127
  typed : ∀ s, (u.keyboardInput s).queue = u.queue ++ s.take (127 - u.queue.length)
  received : ∀ addr, u.Receives addr → u.queue = (u.read addr).1 :: (u.read addr).2.queue
  read_frame : ∀ addr, ¬ u.Receives addr → (u.read addr).2.queue = u.queue
  write_frame : ∀ addr val, (u.write addr val).queue = u.queue
  dataReady : (u.read (base + 5)).1.getLsbD 0 = true ↔ u.queue ≠ []

theorem InRing.isQueue (h : u.InRing) : u.IsQueue where
  begin_lt := h.begin_lt
  end_lt := h.end_lt
  length_le := Nat.le_of_lt_succ h.length_queue_lt
  typed s := (h.keyboardInput s).2
  received _ hrecv := (h.receive hrecv).2
  read_frame _ hrecv := (sameRing_read hrecv).queue
  write_frame _ _ := sameRing_write.queue
  dataReady := h.dataReady

/-- After every interleaving of typing and register accesses the ring is a queue, and the
accepted bytes are those that were delivered, in order, followed by the queued ones. The
constructor leaves the ring uninitialised. -/
theorem uart_is_queue (junk : BitVec 32 → BitVec 8) (cs : List UartCall) :
    let start : Uart := { uartBuf := junk }
    (Clocked.run call start cs).IsQueue ∧
      (Clocked.trace call accepted start cs).flatten =
        (Clocked.trace call delivered start cs).flatten ++ (Clocked.run call start cs).queue := by
  intro start
  have hzero : (0 : BitVec 32).toNat < 128 := by decide
  have hstart : start.InRing := ⟨hzero, hzero⟩
  have hring : (Clocked.run call start cs).InRing := hstart.run cs
  have hempty : start.queue = [] := hstart.queue_eq_nil_iff.mpr rfl
  refine ⟨hring.isQueue, ?_⟩
  have hrun := Clocked.queue_run (P := InRing) (fun _ c h => h.call c)
    (fun _ c h => h.queue_call c) hstart cs
  rwa [hempty, List.nil_append] at hrun

-- Typing, a read while the divisor latch is open, and a read of the receive register.
example :
    let u := Clocked.run call {} [.keyboardInput [0x61, 0x62], .write 0x10000003 0x80,
      .read 0x10000000, .write 0x10000003 0x03]
    u.delivered (.read 0x10000000) = [0x61] ∧ (u.read 0x10000000).2.queue = [0x62] := by
  decide

end Uart

end Turtle
