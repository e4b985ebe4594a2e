import Mathlib.Data.BitVec

/-!
# Sv32 address translation

The two-level page-table walk of the privileged architecture, with accessed and
dirty bits managed by software. Physical addresses have 34 bits, and memory is a
function from them to words.
-/

namespace Sv32

/-- The privilege that an access is made with. -/
inductive Mode
  | user | supervisor
  deriving DecidableEq, Repr

/-- What an access asks of a page. Load-reserved is a load; store-conditional and
the other atomics are stores. -/
inductive Access
  | fetch | load | store
  deriving DecidableEq, Repr

/-- The status bits that translation depends on. -/
structure Context where
  mode : Mode
  sum : Bool
  mxr : Bool
  deriving DecidableEq, Repr

namespace Pte

def v (pte : BitVec 32) : Bool := pte.getLsbD 0
def r (pte : BitVec 32) : Bool := pte.getLsbD 1
def w (pte : BitVec 32) : Bool := pte.getLsbD 2
def x (pte : BitVec 32) : Bool := pte.getLsbD 3
def u (pte : BitVec 32) : Bool := pte.getLsbD 4
def g (pte : BitVec 32) : Bool := pte.getLsbD 5
def a (pte : BitVec 32) : Bool := pte.getLsbD 6
def d (pte : BitVec 32) : Bool := pte.getLsbD 7

/-- The physical page number of an entry. -/
def ppn (pte : BitVec 32) : BitVec 22 := (pte >>> 10).setWidth 22

/-- A valid entry that ends the walk. -/
def isLeaf (pte : BitVec 32) : Bool := v pte && (r pte || x pte)

/-- A valid entry that points to the next level. Its `G` and `RSW` bits are free. -/
def isPointer (pte : BitVec 32) : Bool :=
  v pte && !r pte && !w pte && !x pte && !u pte && !a pte && !d pte

/-- The low half of the page number is clear, as a megapage needs. -/
def isAligned (pte : BitVec 32) : Bool := (ppn pte).setWidth 10 == 0

end Pte

open Pte

/-- The kind of access is permitted by the `R`, `W`, `X`, `A` and `D` bits. -/
def Access.granted (c : Context) (pte : BitVec 32) : Access → Bool
  | .fetch => x pte && a pte
  | .load => (r pte || (c.mxr && x pte)) && a pte
  | .store => w pte && a pte && d pte

/-- The rule of the `U` bit. Supervisor mode never fetches from a user page. -/
def Mode.granted (c : Context) (k : Access) (pte : BitVec 32) : Mode → Bool
  | .user => u pte
  | .supervisor => !u pte || (c.sum && k != .fetch)

/-- A leaf entry permits the access. -/
def permits (c : Context) (k : Access) (pte : BitVec 32) : Bool :=
  isLeaf pte && (!w pte || r pte) && k.granted c pte && c.mode.granted c k pte

/-- The first part of the virtual page number. -/
def vpn1 (va : BitVec 32) : BitVec 10 := (va >>> 22).setWidth 10

/-- The second part of the virtual page number. -/
def vpn0 (va : BitVec 32) : BitVec 10 := (va >>> 12).setWidth 10

/-- The address of entry `vpn` of the table at page `base`. -/
def pteAddr (base : BitVec 22) (vpn : BitVec 10) : BitVec 34 :=
  base.setWidth 34 * 4096#34 + vpn.setWidth 34 * 4#34

/-- The address of `va` in the page that a leaf names. -/
def pageAddr (pte va : BitVec 32) : BitVec 34 :=
  (ppn pte).setWidth 34 * 4096#34 + (va.setWidth 12).setWidth 34

/-- The address of `va` in the megapage that a leaf names. -/
def megapageAddr (pte va : BitVec 32) : BitVec 34 :=
  ((ppn pte) >>> 10).setWidth 34 * 4194304#34 + (va.setWidth 22).setWidth 34

/-- The translation of `va`: the physical address, when the access is permitted. -/
def translate (c : Context) (k : Access) (read : BitVec 34 → BitVec 32) (root : BitVec 22)
    (va : BitVec 32) : Option (BitVec 34) :=
  let pte₁ := read (pteAddr root (vpn1 va))
  if isLeaf pte₁ then
    if permits c k pte₁ && isAligned pte₁ then some (megapageAddr pte₁ va) else none
  else if isPointer pte₁ then
    let pte₀ := read (pteAddr (ppn pte₁) (vpn0 va))
    if permits c k pte₀ then some (pageAddr pte₀ va) else none
  else none

end Sv32
