import Turtle.Signals

/-!
# The translation lookaside buffer

`tlb.hpp`: one table of 32 entries shared by the data and the instruction side.
`find` moves the entry it hits to the front, and `store` pushes entries back
until it meets one it may replace.
-/

namespace Turtle

/-- `TLB::TLBEntry` with its bit-field widths. -/
structure TlbEntry where
  vpn : BitVec 20 := 0
  asid : BitVec 10 := 0
  pte : BitVec 32 := 0
  valid : Bool := false
  isMegapage : Bool := false
  deriving DecidableEq, Repr, Inhabited

/-- `TLB`: the table, in the order in which it is searched. -/
structure Tlb where
  table : List TlbEntry := List.replicate 32 {}
  deriving DecidableEq, Repr, Inhabited

namespace Tlb

/-- The hit test of `TLB::find`. -/
def hits (asid vpn : BitVec 32) (e : TlbEntry) : Bool :=
  e.valid && (e.pte &&& 0x20 == 0x20 || asid == e.asid.setWidth 32) &&
    ((e.vpn >>> 10).setWidth 32 == vpn >>> 10) &&
    (e.isMegapage || (e.vpn &&& 0x3ff).setWidth 32 == vpn &&& 0x3ff)

/-- `TLB::find`. On a miss the returned entry is the local `tlbe`, of which the
constructor only clears `valid`; `junk` is what its other fields happen to hold. -/
def find (t : Tlb) (junk : TlbEntry) (asid vpn : BitVec 32) : TlbEntry × Tlb :=
  match t.table.findIdx? (hits asid vpn) with
  | none => ({ junk with valid := false }, t)
  | some i =>
    let e := t.table.getD i {}
    (e, if i = 0 then t else ⟨(t.table.set i (t.table.getD 0 {})).set 0 e⟩)

/-- `TLB::flush`. A zero operand matches every entry. -/
def flush (t : Tlb) (asid vpn : BitVec 32) : Tlb :=
  ⟨t.table.map fun e =>
    if (e.asid.setWidth 32 == asid || asid == 0) && (vpn == e.vpn.setWidth 32 || vpn == 0) then
      { e with valid := false }
    else e⟩

/-- The loop of `TLB::store`: put `tmp` in front of the entry it displaces, and
go on with that entry until one may be overwritten. -/
def storeLoop (asid vpn : BitVec 32) : TlbEntry → List TlbEntry → List TlbEntry
  | _, [] => []
  | tmp, e :: es =>
    if e.asid.setWidth 32 == asid || e.vpn.setWidth 32 == vpn || !e.valid then tmp :: es
    else tmp :: storeLoop asid vpn e es

/-- `TLB::store`. -/
def store (t : Tlb) (asid vpn pte : BitVec 32) (isMegapage : Bool) : Tlb :=
  let vpn := if isMegapage then vpn &&& 0xfffffc00 else vpn
  ⟨storeLoop asid vpn
    { vpn := vpn.setWidth 20, asid := asid.setWidth 10, pte := pte, valid := true,
      isMegapage := isMegapage } t.table⟩

end Tlb

end Turtle
