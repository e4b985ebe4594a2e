import Turtle.CoreFacts

/-!
# Operand forwarding

A result leaves EX one edge before it is in the write-back register and two
edges before it is in the register file. The operand selection of the decoder
hides this: each operand is read from the sequential register file that takes
every result at the edge at which it leaves EX.
-/

namespace Turtle

/-! ### The operands of a decoded instruction -/

/-- The operands of a record are read from the sources `f`. -/
def OperandsFrom (f : Forward) (d : IdEx) : Prop :=
  d.rs1Val = f.operand d.rs1 ∧ d.rs2Val = f.operand d.rs2

theorem decode_operandsFrom (f : Forward) (pc inst : BitVec 32) :
    OperandsFrom f (decode f pc inst) := by
  have h := decode_untouched f pc inst
  have hrs1 : (decode f pc inst).rs1 = regField inst 19 15 := congrArg IdEx.rs1 h
  have hrs2 : (decode f pc inst).rs2 = regField inst 24 20 := congrArg IdEx.rs2 h
  constructor
  · rw [hrs1]
    exact congrArg IdEx.rs1Val h
  · rw [hrs2]
    exact congrArg IdEx.rs2Val h

theorem decompress_operandsFrom (f : Forward) (pc inst : BitVec 32) :
    OperandsFrom f (decompress f pc inst) := ⟨rfl, rfl⟩

/-- The marks that `inst_decode_seq` adds do not touch the operands. -/
theorem latch_operandsFrom (f : Forward) (i : IfId) : OperandsFrom f (latch f i) := by
  have hdecoded : OperandsFrom f (if i.ifIdInst &&& 3 = 3 then decode f i.ifIdPc i.ifIdInst
      else decompress f i.ifIdPc (i.ifIdInst &&& 0x0000ffff)) := by
    split
    · exact decode_operandsFrom ..
    · exact decompress_operandsFrom ..
  unfold latch
  dsimp only
  generalize (if i.ifIdInst &&& 3 = 3 then decode f i.ifIdPc i.ifIdInst
    else decompress f i.ifIdPc (i.ifIdInst &&& 0x0000ffff)) = d at hdecoded
  split_ifs <;> exact hdecoded

namespace Core

variable {entry : BitVec 32} {s : Core} {i : CoreIn} {A : BitVec 5 → BitVec 32}

/-! ### The sequential register file -/

/-- The update of the sequential file at the edge at which `o` leaves EX. -/
def retire (o : ExecOut) (A : BitVec 5 → BitVec 32) : BitVec 5 → BitVec 32 :=
  if o.exWriteRd && o.exRd != 0 then Function.update A o.exRd o.exRdVal else A

/-- The machine together with the sequential register file. -/
def stepWithFile (entry : BitVec 32) (m : Core × (BitVec 5 → BitVec 32)) (i : CoreIn) :
    Core × (BitVec 5 → BitVec 32) :=
  (step entry m.1 i, retire (m.1.out entry i) m.2)

/-- Power-up, with the initial values of `RegFile` in both files. -/
def powerUp : Core × (BitVec 5 → BitVec 32) := ({}, ({} : Core).regs)

/-- Once released, reset is not raised again. -/
def ResetOnce (is : List CoreIn) : Prop :=
  is.Pairwise fun i j => j.rst = true → i.rst = true

instance (is : List CoreIn) : Decidable (ResetOnce is) :=
  inferInstanceAs (Decidable (is.Pairwise _))

/-- A guarded register write leaves register 0 alone. -/
theorem guardedWrite_zero (w : Bool) (rd : BitVec 5) (v : BitVec 32)
    (A : BitVec 5 → BitVec 32) :
    (if w && rd != 0 then Function.update A rd v else A) 0 = A 0 := by
  split_ifs with hguard
  · simp only [Bool.and_eq_true, bne_iff_ne] at hguard
    exact Function.update_of_ne (Ne.symm hguard.2) ..
  · rfl

theorem retire_zero (o : ExecOut) (A : BitVec 5 → BitVec 32) : retire o A 0 = A 0 :=
  guardedWrite_zero ..

/-- The write-back register and the register file stand for the sequential
file `A`. -/
structure Commits (s : Core) (A : BitVec 5 → BitVec 32) : Prop where
  file : A = writeSeq s.wb s.regs
  zero : A 0 = 0

theorem Commits.regs_zero (h : Commits s A) : s.regs 0 = 0 := by
  have hzero := h.zero
  rw [h.file, writeSeq] at hzero
  exact (guardedWrite_zero ..).symm.trans hzero

/-- The selected operand is the one of the sequential file after the edge. -/
theorem Commits.operand (h : Commits s A) (rs : BitVec 5) :
    (s.forward entry i).operand rs = retire (s.out entry i) A rs := by
  by_cases hrs : rs = 0
  · -- no source may supply register 0, so the left side reads the register file
    subst hrs
    have hleft : (s.forward entry i).operand 0 = s.regs 0 := by simp [Forward.operand, forward]
    rw [hleft, h.regs_zero, retire_zero, h.zero]
  · rw [h.file]
    simp only [Forward.operand, forward, retire, writeSeq]
    grind

/-- One edge: the file takes the write-back value, the write-back register the
result that leaves EX. A reset edge drops that result, so it must find none. -/
theorem Commits.step (h : Commits s A)
    (hrst : i.rst = true → (s.out entry i).exWriteRd = false) :
    Commits (step entry s i) (retire (s.out entry i) A) := by
  refine ⟨?_, (retire_zero _ A).trans h.zero⟩
  have hregs : (Core.step entry s i).regs = A := h.file.symm
  rw [hregs]
  change _ = writeSeq (writebackSeq i.rst entry s.idEx (s.out entry i)) A
  cases hr : i.rst with
  | true => simp [retire, writeSeq, writebackSeq, hrst hr]
  | false => rfl

/-- A bubble, and the record at power-up, write no register. -/
theorem exWriteRd_of_not_writesRd (h : s.idEx.writesRd = false) :
    (s.out entry i).exWriteRd = false := by
  simp [out, Exec.execOut, execIn, h]

/-- Along a run: the two files agree, and as long as reset is held `ID_EX` writes
nothing. -/
theorem commits_run (is : List CoreIn) (hreset : ResetOnce is) :
    let m := Clocked.run (stepWithFile entry) powerUp is
    Commits m.1 m.2 ∧ ((∀ i ∈ is, i.rst = true) → m.1.idEx.writesRd = false) := by
  induction is using List.reverseRecOn with
  | nil => exact ⟨⟨rfl, rfl⟩, fun _ => rfl⟩
  | append_singleton is i ih =>
    obtain ⟨hbefore, -, hlast⟩ := List.pairwise_append.mp hreset
    obtain ⟨hcommits, hquiet⟩ := ih hbefore
    rw [Clocked.run_append]
    refine ⟨hcommits.step fun hr => ?_, fun hall => ?_⟩
    · refine exWriteRd_of_not_writesRd (hquiet fun j hj => ?_)
      exact hlast j hj i (by simp) hr
    · have hr : i.rst = true := hall i (by simp)
      have hbubble := idEx_of_rst entry (Clocked.run (stepWithFile entry) powerUp is).1 hr
      change (Core.step entry _ i).idEx.writesRd = false
      rw [hbubble]
      rfl

/-- Decode latches an instruction at the edge. -/
def Latches (entry : BitVec 32) (s : Core) (i : CoreIn) : Prop :=
  (s.out entry i).stall = false ∧ (s.out entry i).flush = false ∧ i.rst = false ∧
    (s.out entry i).npc = i.ifId.ifIdPc ∧ i.ifId.ifIdFlush = false

theorem Latches.idEx (h : Latches entry s i) :
    (step entry s i).idEx = latch (s.forward entry i) i.ifId := by
  obtain ⟨hstall, hflush, hrst, hnpc, hempty⟩ := h
  change instDecodeSeq _ _ _ _ _ _ _ = _
  simp [instDecodeSeq, hstall, hflush, hrst, hnpc, hempty]

/-- In every run with one reset phase, the operands that Decode latches are those
of the sequential register file, the update of the same edge included, and
register 0 reads 0. -/
theorem operands_sequential (entry : BitVec 32) (is : List CoreIn) (i : CoreIn)
    (hreset : ResetOnce (is ++ [i])) :
    let m := Clocked.run (stepWithFile entry) powerUp is
    let m' := stepWithFile entry m i
    m'.2 0 = 0 ∧ (∀ rs, (m.1.forward entry i).operand rs = m'.2 rs) ∧
    (Latches entry m.1 i →
      m'.1.idEx = latch (m.1.forward entry i) i.ifId ∧
      m'.1.idEx.rs1Val = m'.2 m'.1.idEx.rs1 ∧ m'.1.idEx.rs2Val = m'.2 m'.1.idEx.rs2) := by
  intro m m'
  have hbefore := (List.pairwise_append.mp hreset).1
  have hcommits : Commits m.1 m.2 := (commits_run is hbefore).1
  refine ⟨(retire_zero _ m.2).trans hcommits.zero, fun rs => hcommits.operand rs, fun hlatch => ?_⟩
  have hidEx : m'.1.idEx = latch (m.1.forward entry i) i.ifId := hlatch.idEx
  obtain ⟨h₁, h₂⟩ := latch_operandsFrom (m.1.forward entry i) i.ifId
  rw [hidEx]
  exact ⟨rfl, h₁.trans (hcommits.operand _), h₂.trans (hcommits.operand _)⟩

/-- `ADDI x1, x0, 5` in EX while `ADD x2, x1, x1` is latched: both operands are
forwarded from EX. -/
theorem operands_sequential_addi_add :
    let is : List CoreIn :=
      [{ rstComb := true, rst := true }, { ifId := { ifIdInst := 0x00500093 } }]
    let i : CoreIn := { ifId := { ifIdInst := 0x00108133, ifIdPc := 4 } }
    let m := Clocked.run (stepWithFile 0) powerUp is
    let m' := stepWithFile 0 m i
    ResetOnce (is ++ [i]) ∧ Latches 0 m.1 i ∧ m'.1.idEx.rs1 = 1 ∧ m.1.regs 1 = 0 ∧
      m'.1.idEx.rs1Val = m'.2 m'.1.idEx.rs1 ∧ m'.2 1 = 5 := by
  intro is i m m'
  have hreset : ResetOnce (is ++ [i]) := by decide
  have hlatch : Latches 0 m.1 i := by
    refine ⟨?_, ?_, ?_, ?_, ?_⟩ <;> decide
  have hoperands := (operands_sequential 0 is i hreset).2.2 hlatch
  exact ⟨hreset, hlatch, by decide, by decide, hoperands.2.1, by decide⟩

end Core

end Turtle
