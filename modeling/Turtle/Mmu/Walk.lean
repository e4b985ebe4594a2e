import Turtle.Mmu.Permission

/-!
# The memory that the walkers read

Memory answers the outstanding request of a walker with the word at its address,
after any number of cycles, and forgets it on a flush. The bus has 32 address
bits, so memory is read at the Sv32 address modulo `2 ^ 32`. Only fetches at odd
addresses and atomics on devices are answered with a fault, which no load of an
entry is.
-/

namespace Turtle

open Sv32 Sv32.Pte

/-- Memory as seen from a 34-bit physical address. -/
def busRead (mem : BitVec 32 → BitVec 32) (pa : BitVec 34) : BitVec 32 := mem (pa.setWidth 32)

/-- The answer of memory: the word at the outstanding address, when it responds. -/
def answer (mem : BitVec 32 → BitVec 32) (pending : Option (BitVec 32)) (respond : Bool) : MemOut :=
  match pending with
  | some addr => if respond then { memRspAck := true, memRspRdata := mem addr } else {}
  | none => {}

/-- The outstanding request after a cycle: the one just sent, else the old one
unless it was answered or cancelled. -/
def outstanding (sent : Option (BitVec 32)) (closed : Bool) (pending : Option (BitVec 32)) :
    Option (BitVec 32) :=
  sent.or (if closed then none else pending)

section Outstanding

variable {sent closed : Bool} {addr : BitVec 32} {pending : Option (BitVec 32)}

/-- Where an outstanding request comes from. -/
theorem mem_outstanding {a : BitVec 32}
    (h : a ∈ outstanding (if sent then some addr else none) closed pending) :
    (sent = true ∧ a = addr) ∨ (closed = false ∧ a ∈ pending) := by
  unfold outstanding at h
  cases sent with
  | true =>
    cases h
    exact .inl ⟨rfl, rfl⟩
  | false =>
    cases closed with
    | true => cases h
    | false => exact .inr ⟨rfl, h⟩

/-- Nothing is outstanding after a cycle that sends nothing and closes, or had
nothing to close. -/
theorem outstanding_eq_none (hsent : sent = false) (hclosed : closed = true ∨ pending = none) :
    outstanding (if sent then some addr else none) closed pending = none := by
  rcases hclosed with h | h
  · simp [outstanding, hsent, h]
  · simp [outstanding, hsent, h]

end Outstanding

theorem answer_ack {mem : BitVec 32 → BitVec 32} {pending : Option (BitVec 32)} {respond : Bool}
    (h : (answer mem pending respond).memRspAck = true) :
    respond = true ∧ ∃ addr, pending = some addr ∧
      (answer mem pending respond).memRspRdata = mem addr := by
  cases pending with
  | none => cases h
  | some addr =>
    cases respond with
    | false => cases h
    | true => exact ⟨rfl, addr, rfl, rfl⟩

/-- The root of the page tables. -/
def Exec.root (e : Exec) : BitVec 22 := (e.csrRegs Csr.satp).setWidth 22

/-- The level-1 entry that translates an address. -/
def Exec.pte₁ (e : Exec) (mem : BitVec 32 → BitVec 32) (va : BitVec 32) : BitVec 32 :=
  busRead mem (pteAddr e.root (vpn1 va))

section Translate

variable {e : Exec} {mem : BitVec 32 → BitVec 32} {c : Context} {k : Access} {va : BitVec 32}

theorem translate_megapage (hleaf : isLeaf (e.pte₁ mem va) = true)
    (hpermits : permits c k (e.pte₁ mem va) = true) (haligned : isAligned (e.pte₁ mem va) = true) :
    translate c k (busRead mem) e.root va = some (megapageAddr (e.pte₁ mem va) va) := by
  change (if isLeaf (e.pte₁ mem va) = true then _ else _) = _
  rw [if_pos hleaf, if_pos (by
    change (permits c k (e.pte₁ mem va) && isAligned (e.pte₁ mem va)) = true
    rw [hpermits, haligned, Bool.and_self])]
  rfl

theorem translate_page {pte₀ : BitVec 32} (hpointer : isPointer (e.pte₁ mem va) = true)
    (hread : busRead mem (pteAddr (ppn (e.pte₁ mem va)) (vpn0 va)) = pte₀)
    (hpermits : permits c k pte₀ = true) :
    translate c k (busRead mem) e.root va = some (pageAddr pte₀ va) := by
  have hnotleaf : ¬ isLeaf (e.pte₁ mem va) = true := by
    simp only [isPointer, Bool.and_eq_true, Bool.not_eq_true'] at hpointer
    simp [isLeaf, hpointer]
  change (if isLeaf (e.pte₁ mem va) = true then _ else _) = _
  rw [if_neg hnotleaf]
  change (if isPointer (e.pte₁ mem va) = true then
    (if permits c k (busRead mem (pteAddr (ppn (e.pte₁ mem va)) (vpn0 va))) = true then
      some (pageAddr (busRead mem (pteAddr (ppn (e.pte₁ mem va)) (vpn0 va))) va) else none)
    else none) = _
  rw [if_pos hpointer, hread, if_pos hpermits]

end Translate

end Turtle
