import Turtle.Fetch
import Turtle.Lib.Bits

/-!
# The fetch buffer as a queue of halfwords

What the buffer is for: a queue of at most four halfwords that lie one after the
other in memory, of which the last one ends at a word boundary. A cycle pops the
instruction at the front, if all of it is there, and then appends the offered
word, if there is room; a word that does not continue the queue replaces it.
-/

namespace Turtle

open Bits

/-- A fetched halfword with the faults of its word. -/
structure Half where
  data : BitVec 16
  pageFault : Bool
  accessFault : Bool
  deriving DecidableEq, Repr

/-- The halfword starts an instruction of 32 bits. -/
def Half.isWide (h : Half) : Bool := h.data &&& 3 == 3

/-- The halfwords of a word, from its data and its fault. -/
def halvesOf (data : BitVec 32) (fault : BitVec 8) : Half × Half :=
  let page := fault == ExceptionCause.instrPageFault.code.setWidth 8
  let access := fault == ExceptionCause.instrAccessFault.code.setWidth 8
  (⟨data.setWidth 16, page, access⟩, ⟨(data >>> 16).setWidth 16, page, access⟩)

/-- A bounded queue of halfwords that ends at a word boundary. -/
structure HalfQueue where
  addr : BitVec 32
  halves : List Half
  length_le : halves.length ≤ 4
  aligned : (addr.toNat + 2 * halves.length) % 4 = 0

namespace HalfQueue

/-- The address after the last halfword. -/
def endAddr (q : HalfQueue) : BitVec 32 := q.addr + BitVec.ofNat 32 (2 * q.halves.length)

/-- The halfword at the front starts an instruction of 32 bits. -/
def isWide (q : HalfQueue) : Bool := q.halves.head?.any Half.isWide

/-- The halfwords that the instruction at the front occupies. -/
def size (q : HalfQueue) : ℕ := if q.isWide then 2 else 1

/-- A whole instruction is there. -/
def ready (q : HalfQueue) : Bool := decide (q.size ≤ q.halves.length)

/-- The queue after a reset or a flush. -/
def empty : HalfQueue := ⟨0, [], by decide, by decide⟩

/-- The queue that starts with the word of `a`, or with its upper half. -/
def start (a : BitVec 32) (h : EvenWord a) (word : Half × Half) : HalfQueue :=
  ⟨a, if a.toNat % 4 = 0 then [word.1, word.2] else [word.2], by split <;> simp, by
    have heven := h.toNat_mod_two
    split <;> simp only [List.length_cons, List.length_nil] <;> omega⟩

/-- Pop the instruction at the front, if all of it is there. -/
def pop (q : HalfQueue) : HalfQueue :=
  if h : q.size ≤ q.halves.length then
    ⟨q.addr + BitVec.ofNat 32 (2 * q.size), q.halves.drop q.size, by
      have := q.length_le
      rw [List.length_drop]
      omega, by
      have hq := q.aligned
      have hlt := q.length_le
      rw [List.length_drop, BitVec.toNat_add, BitVec.toNat_ofNat]
      omega⟩
  else q

/-- Append a word, if there is room. -/
def push (q : HalfQueue) (word : Half × Half) : HalfQueue :=
  if h : q.halves.length ≤ 2 then
    ⟨q.addr, q.halves ++ [word.1, word.2], by
      rw [List.length_append]
      exact Nat.add_le_add_right h 2, by
      have hq := q.aligned
      simp only [List.length_append, List.length_cons, List.length_nil]
      omega⟩
  else q

/-- The effect of a cycle. -/
def step (q : HalfQueue) (i : FetchIn) (heven : EvenWord i.immuPc) : HalfQueue :=
  let offered := i.rsp.mmuRspAck && !i.immuFlush
  let word := halvesOf i.rsp.mmuRspRdata i.rsp.mmuRspFault
  if i.rst || i.flush then empty
  else if offered ∧ i.immuPc ≠ q.endAddr then start i.immuPc heven word
  else
    let q := if i.stall then q else q.pop
    if offered then q.push word else q

end HalfQueue

end Turtle
