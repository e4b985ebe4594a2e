import Turtle.Lib.Clocked
import Turtle.Lib.Rv32Hart

/-!
# RV32 machines

A hart with a memory, as a labelled transition relation. What the words mean, where an
access goes and what it does to the memory are given by the surroundings of the hart. In a
step the hart waits, is reset, retires one instruction or enters a trap handler.
-/

namespace Rv32

/-- Why a hart enters a trap handler: an interrupt, a word that could not be fetched, a word
that means nothing, or an exception of an instruction. -/
inductive Trap
  | interrupt (cause : BitVec 32)
  | fetch (cause : BitVec 32)
  | unknown (w : BitVec 32)
  | raised (w cause : BitVec 32)
  deriving DecidableEq, Repr

/-- What happens in a step. A retired instruction comes with its word, its length, what it
reads outside the hart and the context of its access. -/
inductive Label (τ : Type*)
  | wait
  | reset
  | retire (w len got : BitVec 32) (ctx : τ)
  | trap (t : Trap) (target : BitVec 32)

/-- A hart and its memory. -/
@[ext] structure Machine (μ : Type*) where
  hart : Hart
  mem : μ

/-- What surrounds a hart: where it starts, what its words mean, the physical addresses of a
virtual one in a context, and what an access to a physical address answers and does. -/
structure Env (μ τ : Type*) where
  entry : BitVec 32
  Means : BitVec 32 → Instr → BitVec 32 → Prop
  Reaches : τ → BitVec 32 → BitVec 32 → Prop
  Performs : (pa got : BitVec 32) → μ → μ → Access → Prop

namespace Env

variable {μ τ : Type*} (v : Env μ τ)

/-- What an instruction does to the memory: its access, if it has one, and else nothing. -/
def Uses (ctx : τ) (i : Instr) (r : Regs) (got : BitVec 32) (mem mem' : μ) : Prop :=
  match i.access r with
  | some (va, a) => ∃ pa, v.Reaches ctx va pa ∧ pa.toNat % a.size = 0 ∧ v.Performs pa got mem mem' a
  | none => mem' = mem

/-- A trap that the surroundings give reason for. -/
def Admits : Trap → Prop
  | .interrupt cause => cause.msb = true
  | .fetch cause => cause ∈ [1#32, 12#32]
  | .unknown w => ∀ i len, ¬ v.Means w i len
  | .raised w cause => ∃ i len, v.Means w i len ∧ cause ∈ i.causes

/-- The steps. A reset drops the instruction that it meets, but an access of it that is
under way is still carried out. -/
inductive Step : Machine μ → Label τ → Machine μ → Prop
  | wait {m : Machine μ} : Step m .wait m
  | reset {m : Machine μ} {mem' : μ}
      (h : mem' = m.mem ∨ ∃ pa got a, v.Performs pa got m.mem mem' a) :
      Step m .reset ⟨⟨v.entry, m.hart.regs⟩, mem'⟩
  | retire {m : Machine μ} {w len got : BitVec 32} {ctx : τ} {i : Instr} {mem' : μ}
      (means : v.Means w i len) (calls : ¬ i.Calls)
      (uses : v.Uses ctx i m.hart.regs got m.mem mem') :
      Step m (.retire w len got ctx) ⟨i.exec len m.hart got, mem'⟩
  | trap {m : Machine μ} {t : Trap} {target : BitVec 32} (h : v.Admits t) :
      Step m (.trap t target) ⟨⟨target, m.hart.regs⟩, m.mem⟩

end Env

end Rv32
