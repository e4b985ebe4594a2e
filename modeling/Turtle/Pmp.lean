import Turtle.CsrCfg

/-!
# Physical memory protection

`pmp.hpp`. The configuration and address registers are signals, so a read inside
`update_config` sees the value from before the call. `pmpentry_id` is the ordered
set of configured entries that the two checks walk through.
-/

namespace Turtle

/-- There are entries, so a number stands for one. -/
instance instNeZeroEntries : NeZero 64 := ⟨by decide⟩

/-- `PMP`: 64 address registers, 64 configuration bytes, and the set of entries
in use. -/
structure Pmp where
  pmpaddr : Fin 64 → BitVec 64 := fun _ => 0
  pmpconfig : Fin 64 → BitVec 8 := fun _ => 0
  pmpentryId : Fin 64 → Bool := fun _ => false

namespace Pmp

/-- `PMPLOCK`. -/
def lock : BitVec 8 := 128

/-- Whether the first and the last byte of an access lie in the region of entry
`i`: the pair `base_in`, `top_in` of the checks. -/
def region (p : Pmp) (i : Fin 64) (addr : BitVec 64) (size : BitVec 8) : Bool × Bool :=
  let last := addr + size.setWidth 64 - 1
  let cfg := p.pmpconfig i
  if cfg &&& 24 = 0 then (false, false)
  else if cfg &&& 24 = 8 then
    let base := if h : 0 < i.val then p.pmpaddr ⟨i.val - 1, by omega⟩ <<< 2 else 0
    let top := p.pmpaddr i <<< 2
    (base ≤ addr && addr < top, base ≤ last && last < top)
  else if cfg &&& 24 = 16 then
    let base := p.pmpaddr i <<< 2
    let top := (p.pmpaddr i <<< 2) + 3
    (base ≤ addr && addr ≤ top, base ≤ last && last ≤ top)
  else
    let next := p.pmpaddr i + 1
    let mask := (-((next &&& -next) <<< 1)) <<< 2
    (addr &&& mask == (p.pmpaddr i <<< 2) &&& mask,
      last &&& mask == (p.pmpaddr i <<< 2) &&& mask)

/-- The verdict of a matching entry: all requested permissions are granted, with
`W` read as `RW`, and the access lies inside the region as a whole. -/
def grants (cfg op : BitVec 8) (within : Bool × Bool) : Bool :=
  op &&& (cfg ||| (if cfg &&& 2 ≠ 0 then 1 else 0)) == op && within.1 && within.2

/-- The loop of `PMP::dcheck` over the entries that remain. -/
def checkLoop (p : Pmp) (addr : BitVec 64) (op size : BitVec 8) (priv : BitVec 32) :
    List (Fin 64) → Bool
  | [] => priv == privM
  | i :: rest =>
    let within := p.region i addr size
    if (within.1 || within.2) && (priv != privM || p.pmpconfig i &&& lock != 0) then
      grants (p.pmpconfig i) op within
    else checkLoop p addr op size priv rest

/-- `PMP::dcheck`: the configured entries in increasing order. -/
def dcheck (p : Pmp) (addr : BitVec 64) (op size : BitVec 8) (priv : BitVec 32) : Bool :=
  p.checkLoop addr op size priv ((List.finRange 64).filter p.pmpentryId)

/-- `PMP::icheck`, whose body is the one of `dcheck`. -/
def icheck (p : Pmp) (addr : BitVec 64) (op size : BitVec 8) (priv : BitVec 32) : Bool :=
  p.dcheck addr op size priv

/-- The guard of both updates: entry `a` is unlocked and its successor is not a
locked TOR entry. -/
def writable (p : Pmp) (a : Fin 64) : Bool :=
  p.pmpconfig a &&& lock == 0 &&
    (if h : a.val = 63 then true
      else p.pmpconfig ⟨a.val + 1, by omega⟩ &&& (lock ||| 0x18) != (lock ||| 0x8))

/-- `PMP::update_addr`. -/
def updateAddr (p : Pmp) (addr : Fin 64) (val : BitVec 32) : Pmp :=
  if p.writable addr then
    { p with pmpaddr := Function.update p.pmpaddr addr (val.setWidth 64) }
  else p

/-- One turn of the loop of `PMP::update_config`: store byte `v` in entry `a`.
`old` holds the signals from before the call. -/
def updateConfigEntry (old : Pmp) (v : BitVec 8) (p : Pmp) (a : Fin 64) : Pmp :=
  if old.writable a then
    let ids := if old.pmpconfig a = 0 ∧ v ≠ 0 then Function.update p.pmpentryId a true
      else p.pmpentryId
    { p with
      pmpconfig := Function.update p.pmpconfig a v
      pmpentryId := if old.pmpconfig a ≠ 0 ∧ v = 0 then Function.update ids a false else ids }
  else p

/-- `PMP::update_config`: the four entries of configuration register `addr`. -/
def updateConfig (p : Pmp) (addr : Fin 16) (val : BitVec 32) : Pmp :=
  (List.finRange 4).foldl (fun q i =>
    updateConfigEntry p ((val >>> (8 * i.val)).setWidth 8) q
      ⟨4 * addr.val + i.val, by omega⟩) p

end Pmp

end Turtle
