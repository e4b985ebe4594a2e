import Turtle.DataPath
import Turtle.Mext

/-!
# The handshake with MEXT

EXEC raises `mext_req_ack` in the first cycle of a multiplication or division and drops it in
the next one, which it tells apart by `wb_stall`. The signal keeps its level otherwise, so a
reset can leave it up, and a request that is seen then is answered into a bubble. This file
closes the loop between EXEC and MEXT and follows one instruction through its two cycles.
-/

namespace Turtle

open Mext

/-- The data path together with MEXT. -/
structure MextPath (δ : Type) where
  data : DataPath δ
  mext : Mext := {}

/-- MEXT answers the eight instructions and no other. -/
theorem Mext.mextSeq_of_other (undef : BitVec 32 → BitVec 32 → BitVec 32) (req : Bool)
    {idEx : IdEx} (h : ∀ op, idEx.type ≠ typeOf op) : mextSeq undef req idEx = {} := by
  unfold mextSeq
  dsimp only
  split
  · cases htype : idEx.type
    case mul => exact absurd htype (h .mul)
    case mulh => exact absurd htype (h .mulh)
    case mulhsu => exact absurd htype (h .mulhsu)
    case mulhu => exact absurd htype (h .mulhu)
    case div => exact absurd htype (h .div)
    case divu => exact absurd htype (h .divu)
    case rem => exact absurd htype (h .rem)
    case remu => exact absurd htype (h .remu)
    all_goals rfl
  · rfl

/-- EXEC at a multiplication or division. -/
theorem Exec.execType_typeOf {e : Exec} {i : ExecIn} {c : ExecComb} {op : MulDiv.Op}
    (h : i.idEx.type = typeOf op) : e.execType i c =
      { c with mextReq := some (!i.wbStall), stall := !i.mextRspAck, exRdVal := i.mextResult } := by
  unfold execType
  dsimp only
  cases op <;> rw [h] <;> rfl

namespace MextPath

variable {δ : Type} (undef : BitVec 32 → BitVec 32 → BitVec 32) (devices : List (Device δ))
  (entry : BitVec 32)

/-- The inputs of the data path: the answer comes from MEXT. -/
def dataIn (s : MextPath δ) (i : DataIn δ) : DataIn δ :=
  { i with mextRspAck := s.mext.mextRspAck, mextResult := s.mext.mextResult }

/-- The inputs of Decode and EXEC. -/
def coreIn (s : MextPath δ) (i : DataIn δ) : CoreIn := s.data.coreIn (s.dataIn i)

/-- The decision of `exec_comb`. -/
def comb (s : MextPath δ) (i : DataIn δ) : ExecComb := s.data.core.comb entry (s.coreIn i)

/-- One clock cycle. `mext_seq` sees the request of the falling edge before and the record that
the rising edge replaces. -/
def step (s : MextPath δ) (i : DataIn δ) : MextPath δ :=
  let data := DataPath.step devices entry s.data (s.dataIn i)
  { data := data, mext := mextSeq undef data.core.mextReqAck s.data.core.idEx }

/-- The states right after the first reset cycle of a powered-up machine. -/
def Started (s : MextPath δ) : Prop :=
  ∃ (m : Memory δ) (i : DataIn δ), i.rst = true ∧
    s = step undef devices entry { data := { memory := m } } i

/-- The states that a run from reset can visit. -/
def Reachable : MextPath δ → Prop :=
  Clocked.Reachable (step undef devices entry) (Started undef devices entry)

/-- An instruction is in its first cycle in EX: `wb_stall`, the stall of the cycle before, is
down. -/
def First (s : MextPath δ) : Prop :=
  s.data.core.idEx.flush = false ∧ s.data.core.wb.wbStall = false

instance (s : MextPath δ) : Decidable s.First := inferInstanceAs (Decidable (_ ∧ _))

/-- The first cycle of a multiplication or division that neither reset nor an interrupt meets. -/
structure Starts (op : MulDiv.Op) (s : MextPath δ) (i : DataIn δ) : Prop where
  first : s.First
  type : s.data.core.idEx.type = typeOf op
  no_trap : s.data.core.idEx.onTrap = false
  running : i.rst = false
  no_interrupt : s.data.core.takesInterrupt (s.coreIn i) = false

variable {undef devices entry} {s : MextPath δ} {i : DataIn δ} {op : MulDiv.Op}

theorem Reachable.data (h : Reachable undef devices entry s) :
    DataPath.Reachable devices entry s.data := by
  induction h with
  | start hs =>
    obtain ⟨m, i, hrst, rfl⟩ := hs
    exact .start ⟨m, dataIn { data := { memory := m } } i, hrst, rfl⟩
  | step i _ ih => exact ih.step _

theorem comb_facts : Exec.CombFacts (s.data.core.execIn entry (s.coreIn i)) (s.comb entry i) :=
  Core.comb_facts

/-- The record in EX stays there in a stalled cycle. -/
theorem idEx_of_stall (h : (s.comb entry i).stall = true) :
    (step undef devices entry s i).data.core.idEx = s.data.core.idEx := Core.idEx_of_stall h

theorem wbStall_of_rst (hrst : i.rst = true) :
    (step undef devices entry s i).data.core.wb.wbStall = false := by
  change (writebackSeq i.rst _ _ _).wbStall = false
  rw [hrst]
  rfl

theorem wbStall_step (hrst : i.rst = false) :
    (step undef devices entry s i).data.core.wb.wbStall = (s.comb entry i).stall :=
  Core.wbStall_step (i := s.coreIn i) hrst

/-! ### The invariant -/

/-- An instruction in its first cycle meets no answer, and a multiplication or division in a
later one meets its own. -/
structure Inv (s : MextPath δ) : Prop where
  first : s.First → s.mext.mextRspAck = false
  second : ∀ op, s.data.core.idEx.type = typeOf op → s.data.core.wb.wbStall = true →
    s.mext = ⟨true, op.result s.data.core.idEx.rs1Val s.data.core.idEx.rs2Val⟩

/-- The decision in a cycle that executes a multiplication or division. -/
theorem comb_of_typeOf (htype : s.data.core.idEx.type = typeOf op)
    (hcomb : s.comb entry i = s.data.core.exec.execType (s.data.core.execIn entry (s.coreIn i))
      (Exec.executeStart (s.data.core.execIn entry (s.coreIn i)))) :
    (s.comb entry i).mextReq = some (!s.data.core.wb.wbStall) ∧
      (s.comb entry i).stall = !s.mext.mextRspAck ∧
      (s.comb entry i).exRdVal = s.mext.mextResult ∧ (s.comb entry i).onTrap = false ∧
      (s.comb entry i).csrSret = false ∧ (s.comb entry i).csrMret = false := by
  rw [hcomb, Exec.execType_typeOf htype]
  exact ⟨rfl, rfl, rfl, rfl, rfl, rfl⟩

/-- The answer of MEXT at the end of a cycle. -/
theorem mext_step : (step undef devices entry s i).mext =
    mextSeq undef ((s.comb entry i).mextReq.getD s.data.core.mextReqAck) s.data.core.idEx := rfl

/-- A cycle that executes an instruction keeps the invariant. -/
theorem Inv.of_executed (h : s.Inv) (hrst : i.rst = false)
    (hflush : s.data.core.idEx.flush = false)
    (hcomb : s.comb entry i = s.data.core.exec.execType (s.data.core.execIn entry (s.coreIn i))
      (Exec.executeStart (s.data.core.execIn entry (s.coreIn i)))) :
    (step undef devices entry s i).Inv := by
  have hwait : (step undef devices entry s i).data.core.wb.wbStall = _ := wbStall_step hrst
  by_cases hmul : ∃ op, s.data.core.idEx.type = typeOf op
  · obtain ⟨op, htype⟩ := hmul
    obtain ⟨hreq, hstall, -⟩ := comb_of_typeOf htype hcomb
    have hmext : (step undef devices entry s i).mext = _ := mext_step
    rw [hreq, Option.getD_some] at hmext
    cases hfirst : s.data.core.wb.wbStall with
    | false =>
      -- The request goes out, and the instruction waits for the answer to it.
      rw [h.first ⟨hflush, hfirst⟩] at hstall
      rw [hstall] at hwait
      refine ⟨fun hnew => absurd (hwait.symm.trans hnew.2) (by decide), fun op' htype' _ => ?_⟩
      rw [idEx_of_stall hstall] at htype' ⊢
      rw [hmext, hfirst]
      exact mextSeq_typeOf op' _ htype'
    | true =>
      -- The answer is there, and no request follows it.
      have hdone : (step undef devices entry s i).data.core.wb.wbStall = false := by
        rw [hwait, hstall, h.second op htype hfirst]
        rfl
      refine ⟨fun _ => ?_, fun _ _ hnew => absurd (hdone.symm.trans hnew) (by decide)⟩
      rw [hmext, hfirst]
      rfl
  · have hmext : (step undef devices entry s i).mext = {} :=
      mextSeq_of_other undef _ (not_exists.mp hmul)
    refine ⟨fun _ => by rw [hmext], fun op htype hnew => ?_⟩
    rw [hwait] at hnew
    rw [idEx_of_stall hnew] at htype
    exact absurd ⟨op, htype⟩ hmul

/-- A cycle that ends in a bubble in EX, without a stall, keeps the invariant. -/
theorem Inv.of_bubble (hwait : (step undef devices entry s i).data.core.wb.wbStall = false)
    (hbubble : (step undef devices entry s i).data.core.idEx = bubble ∨
      (step undef devices entry s i).mext = {}) : (step undef devices entry s i).Inv := by
  refine ⟨fun hnew => ?_, fun _ _ hnew => absurd (hwait.symm.trans hnew) (by decide)⟩
  rcases hbubble with hbubble | hmext
  · exact absurd (hbubble ▸ hnew.1) (by decide)
  · rw [hmext]

/-- MEXT does not answer a bubble. -/
theorem mext_of_bubble (h : s.data.core.idEx = bubble) :
    (step undef devices entry s i).mext = {} := by
  refine mextSeq_of_other undef _ fun op => ?_
  rw [h]
  cases op <;> decide

/-- A trap leaves a bubble in EX. -/
theorem idEx_of_trap (h : (s.comb entry i).onTrap = true) :
    (step undef devices entry s i).data.core.idEx = bubble := by
  have hstall : (s.comb entry i).stall = false := Core.stall_of_trap h
  change instDecodeSeq _ (s.comb entry i).stall ((s.comb entry i).onTrap || _) _ _ _ _ = bubble
  rw [hstall, h, Bool.true_or]
  rfl

theorem Inv.step (h : s.Inv) (hdata : DataPath.Reachable devices entry s.data) :
    (step undef devices entry s i).Inv := by
  by_cases hrst : i.rst = true
  · have hbubble : (MextPath.step undef devices entry s i).data.core.idEx = bubble :=
      Core.idEx_of_rst entry s.data.core hrst
    exact .of_bubble (wbStall_of_rst hrst) (.inl hbubble)
  have hrst : i.rst = false := Bool.eq_false_of_not_eq_true hrst
  have hquiet (hstall : (s.comb entry i).stall = false) :
      (MextPath.step undef devices entry s i).data.core.wb.wbStall = false :=
    (wbStall_step hrst).trans hstall
  rcases s.data.core.exec.execComb_cases (s.data.core.execIn entry (s.coreIn i)) with
    ⟨hlate, hc⟩ | ⟨-, cause, -, hc⟩ | ⟨-, hflush, hc⟩ | ⟨-, -, -, hc⟩ | ⟨-, hflush, -, hc⟩
  · -- Reset is still seen at the falling edge, over the bubble that it left.
    have hreset : s.data.inReset = true := by
      change s.data.rstComb (s.dataIn i) = true at hlate
      rw [DataPath.rstComb, Bool.or_eq_true, Bool.and_eq_true] at hlate
      exact (hlate.resolve_left fun hnow => absurd (hrst.symm.trans hnow) (by decide)).1
    exact .of_bubble (hquiet (congrArg ExecComb.stall hc))
      (.inr (mext_of_bubble (hdata.inv.reset hreset)))
  · exact .of_bubble (hquiet (congrArg ExecComb.stall hc))
      (.inl (idEx_of_trap (congrArg ExecComb.onTrap hc)))
  · exact .of_bubble (hquiet (congrArg ExecComb.stall hc))
      (.inr (mext_of_bubble (Core.bubble_of_flush hdata.core.holdsLatched hflush)))
  · exact .of_bubble (hquiet (congrArg ExecComb.stall hc))
      (.inl (idEx_of_trap (congrArg ExecComb.onTrap hc)))
  · exact h.of_executed hrst hflush hc

/-- The invariant holds in every run. -/
theorem Reachable.inv (h : Reachable undef devices entry s) : s.Inv := by
  induction h with
  | start hs =>
    obtain ⟨m, i, hrst, rfl⟩ := hs
    exact .of_bubble (wbStall_of_rst hrst) (.inl (Core.idEx_of_rst entry _ hrst))
  | step i hs ih => exact ih.step (Reachable.data hs)

/-! ### Two cycles -/

/-- What happens to a multiplication or division `op` in EX in the cycles with the inputs `i`
and `j`: it waits in the first and retires in the second, with one request between them. -/
structure TwoCycles (undef : BitVec 32 → BitVec 32 → BitVec 32) (devices : List (Device δ))
    (entry : BitVec 32) (op : MulDiv.Op) (s : MextPath δ) (i j : DataIn δ) : Prop where
  waits : (s.comb entry i).stall = true ∧
    (step undef devices entry s i).data.core.idEx = s.data.core.idEx
  requests :
    let t := step undef devices entry s i
    t.data.core.mextReqAck = true ∧ (step undef devices entry t j).data.core.mextReqAck = false
  answered : (step undef devices entry s i).mext =
    ⟨true, op.result s.data.core.idEx.rs1Val s.data.core.idEx.rs2Val⟩
  uninterrupted :
    let t := step undef devices entry s i
    t.data.core.takesInterrupt (t.coreIn j) = false
  ends :
    let t := step undef devices entry s i
    (t.comb entry j).stall = false ∧ (t.comb entry j).onTrap = false
  retires :
    let wb := (step undef devices entry (step undef devices entry s i) j).data.core.wb
    wb.wbWriteRd = s.data.core.idEx.writesRd ∧ wb.wbRd = s.data.core.idEx.rd ∧
      wb.wbRdVal = op.result s.data.core.idEx.rs1Val s.data.core.idEx.rs2Val

/-- The handshake in a state: an instruction that arrives in EX is in its first cycle there, no
answer is up in a first cycle, and a multiplication or division that starts takes two cycles. -/
structure Handshake (undef : BitVec 32 → BitVec 32 → BitVec 32) (devices : List (Device δ))
    (entry : BitVec 32) (s : MextPath δ) : Prop where
  arrives : ∀ i, (s.comb entry i).stall = false →
    (step undef devices entry s i).data.core.idEx.flush = false →
    (step undef devices entry s i).First
  quiet : s.First → s.mext.mextRspAck = false
  stays : ∀ op i j, Starts op s i → j.rst = false → TwoCycles undef devices entry op s i j

/-- An instruction in EX that no interrupt meets is executed. -/
theorem comb_of_instruction (hdata : DataPath.Reachable devices entry s.data)
    (hrst : i.rst = false) (hint : s.data.core.takesInterrupt (s.coreIn i) = false)
    (hflush : s.data.core.idEx.flush = false) (htrap : s.data.core.idEx.onTrap = false) :
    s.comb entry i = s.data.core.exec.execType (s.data.core.execIn entry (s.coreIn i))
      (Exec.executeStart (s.data.core.execIn entry (s.coreIn i))) := by
  refine Core.comb_of_instruction ?_ hint hflush htrap
  refine DataPath.rstComb_of_running (i := s.dataIn i) ?_ hrst
  -- After a reset edge there is a bubble in EX.
  refine Bool.eq_false_of_not_eq_true fun hreset => ?_
  exact absurd (hdata.inv.reset hreset ▸ hflush) (by decide)

/-- The DMMU shows no answer while a multiplication or division is in EX. -/
theorem dmmuRsp_of_typeOf (hdata : DataPath.Reachable devices entry s.data)
    (htype : s.data.core.idEx.type = typeOf op) : s.data.dmmuRsp.mmuRspAck = false := by
  rcases hdata.inv.phase with hidle | hbusy
  · exact (DataPath.rsp_of_quiet hdata.inv.answered hidle.quiet).1
  · have hgroup := hbusy.access.2.2
    rw [htype] at hgroup
    cases op <;> exact absurd hgroup (by decide)

/-- The write-back of a multiplication or division that is executed and does not wait. -/
theorem wb_of_typeOf (hdata : DataPath.Reachable devices entry s.data) (hrst : i.rst = false)
    (htype : s.data.core.idEx.type = typeOf op) (hack : s.mext.mextRspAck = true)
    (hcomb : s.comb entry i = s.data.core.exec.execType (s.data.core.execIn entry (s.coreIn i))
      (Exec.executeStart (s.data.core.execIn entry (s.coreIn i)))) :
    let wb := (step undef devices entry s i).data.core.wb
    wb.wbWriteRd = s.data.core.idEx.writesRd ∧ wb.wbRd = s.data.core.idEx.rd ∧
      wb.wbRdVal = s.mext.mextResult := by
  intro wb
  obtain ⟨-, hstall, hval, htrap, hsret, hmret⟩ := comb_of_typeOf htype hcomb
  rw [hack, Bool.not_true] at hstall
  have hwb : wb = writebackSeq false entry s.data.core.idEx
      (s.data.core.exec.execOut (s.data.core.execIn entry (s.coreIn i)) (s.comb entry i)) := by
    rw [← hrst]
    rfl
  have hout : s.data.core.exec.execOut (s.data.core.execIn entry (s.coreIn i)) (s.comb entry i) =
      { s.data.core.exec.execOut (s.data.core.execIn entry (s.coreIn i)) (s.comb entry i) with
        exWriteRd := s.data.core.idEx.writesRd, exRdVal := s.mext.mextResult } := by
    have hvalue : Exec.rdValue (s.data.core.execIn entry (s.coreIn i)) (s.comb entry i) =
        s.mext.mextResult := by
      unfold Exec.rdValue
      change (if s.data.dmmuRsp.mmuRspAck = true then _ else _) = _
      rw [dmmuRsp_of_typeOf hdata htype]
      exact hval
    simp only [Exec.execOut, htrap, hsret, hmret, hstall, hvalue, Bool.or_false, Bool.not_false,
      Bool.true_and, Bool.false_eq_true, if_false]
    rfl
  rw [hwb, hout]
  exact ⟨rfl, rfl, rfl⟩

/-- A multiplication or division that starts takes two cycles. -/
theorem Starts.twoCycles {j : DataIn δ} (h : Starts op s i)
    (hs : Reachable undef devices entry s) (hj : j.rst = false) :
    TwoCycles undef devices entry op s i j := by
  have hexec : s.comb entry i = _ :=
    comb_of_instruction hs.data h.running h.no_interrupt h.first.1 h.no_trap
  obtain ⟨hreq, hstall, -⟩ := comb_of_typeOf h.type hexec
  rw [hs.inv.first h.first, Bool.not_false] at hstall
  rw [h.first.2, Bool.not_false] at hreq
  let t := step undef devices entry s i
  have ht : Reachable undef devices entry t := .step i hs
  have hkeep : t.data.core.idEx = s.data.core.idEx := idEx_of_stall hstall
  have hwait : t.data.core.wb.wbStall = true := (wbStall_step h.running).trans hstall
  have htype : t.data.core.idEx.type = typeOf op := hkeep ▸ h.type
  have hmext : t.mext =
      ⟨true, op.result s.data.core.idEx.rs1Val s.data.core.idEx.rs2Val⟩ := by
    rw [ht.inv.second op htype hwait, hkeep]
  have hint : t.data.core.takesInterrupt (t.coreIn j) = false := by
    have hwfi : (typeOf op == .wfi) = false := by cases op <;> rfl
    rw [Core.takesInterrupt, hwait, htype, hwfi]
    rfl
  have hcomb : t.comb entry j = _ :=
    comb_of_instruction ht.data hj hint (hkeep ▸ h.first.1) (hkeep ▸ h.no_trap)
  obtain ⟨hreq', hstall', -, htrap', -⟩ := comb_of_typeOf htype hcomb
  rw [hmext, Bool.not_true] at hstall'
  rw [hwait, Bool.not_true] at hreq'
  refine ⟨⟨hstall, hkeep⟩, ⟨?_, ?_⟩, hmext, hint, ⟨hstall', htrap'⟩, ?_⟩
  · change (s.comb entry i).mextReq.getD _ = true
    rw [hreq, Option.getD_some]
  · change (t.comb entry j).mextReq.getD _ = false
    rw [hreq', Option.getD_some]
  · have hwb := @wb_of_typeOf _ undef devices entry t j op ht.data hj htype (by rw [hmext]) hcomb
    rw [hkeep, hmext] at hwb
    exact hwb

/-- In every run from reset the handshake holds, whatever the instructions, the interrupts and
the platform do: no result of MEXT reaches an instruction other than the one that asked. -/
theorem mext_handshake (hs : Reachable undef devices entry s) :
    Handshake undef devices entry s where
  arrives i hstall hflush := by
    refine ⟨hflush, ?_⟩
    by_cases hrst : i.rst = true
    · exact wbStall_of_rst hrst
    · exact (wbStall_step (Bool.eq_false_of_not_eq_true hrst)).trans hstall
  quiet := hs.inv.first
  stays op i j hstarts hj := hstarts.twoCycles hs hj

/-- A machine with the RAM alone that has just decoded `mulhu x5, x11, x11`. -/
def mulhuAtEntry : MextPath Unit :=
  step (fun _ _ => 0) [Device.ram] 0x80000000
    (step (fun _ _ => 0) [Device.ram] 0x80000000
      { data := { memory := { ram := Ram.init 0x80000000, dev := () } } } { rst := true })
    { ifId := { ifIdInst := 0x02b5b2b3, ifIdPc := 0x80000000 } }

/-- The square of the stack pointer that the register file starts with. -/
theorem mext_handshake_mulhu :
    TwoCycles (fun _ _ => 0) [Device.ram] 0x80000000 .mulhu mulhuAtEntry {} {} ∧
      MulDiv.Op.mulhu.result (0x80100000#32) 0x80100000 = 0x40100100 := by
  have hs : Reachable (fun _ _ => 0) [Device.ram] 0x80000000 mulhuAtEntry :=
    .step _ (.start ⟨_, _, rfl, rfl⟩)
  refine ⟨(mext_handshake hs).stays .mulhu {} {} ?_ rfl, by decide⟩
  exact ⟨by decide, by decide, by decide, rfl, by decide⟩

end MextPath

end Turtle
