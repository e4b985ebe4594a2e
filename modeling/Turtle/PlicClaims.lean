import Turtle.Lib.Clocked
import Turtle.PlicAccess

/-!
# Claims of the PLIC

A context claims the UART interrupt by reading its claim register and gives it back
by writing its number. In between nobody else should get it. The claim mask and the
claim fields guarantee this only while the contexts read and write their registers in
an orderly way: a second read of the claim register, a read by the other context
before the lines are updated, and a write whose shift counts pass 10 all break it.
-/

namespace Turtle

open Bits

/-! ### What an update does -/

namespace Plic

variable {p : Plic} {c d : PlicCtx} {irq : Bool}

/-- The claim of a context after the first part of `update`. -/
def openClaim (r : PlicRegs) : BitVec 32 := if r.cmplt = r.clm then 0 else r.clm

/-- The context is to be told of a pending source. -/
def Raised (pending priority : BitVec 32) (r : PlicRegs) : Prop :=
  pending &&& (1#32 <<< 10) ≠ 0 ∧ r.enable &&& (1#32 <<< 10) ≠ 0 ∧ r.threshold < priority

instance (pending priority : BitVec 32) (r : PlicRegs) : Decidable (Raised pending priority r) :=
  inferInstanceAs (Decidable (_ ∧ _ ∧ _))

/-- The registers of a context after the first part of `update`. -/
def retired (r : PlicRegs) : PlicRegs :=
  { r with clm := openClaim r, irq := if r.cmplt = r.clm then 0 else r.irq }

/-- The registers of a context after an update. -/
def updated (pending priority : BitVec 32) (r : PlicRegs) : PlicRegs :=
  { r with
    clm := openClaim r
    irq := if Raised pending priority r then 10 else openClaim r
    cmplt := 0 }

/-- The pending register that an update leaves. -/
def pendingAfter (irq : Bool) (p : Plic) : BitVec 32 :=
  ((if irq then 1#32 else 0#32) <<< 10) &&& ~~~p.claimMask

theorem retire_self : (p.retire c).core0 c = retired (p.core0 c) := by
  unfold retire retired openClaim
  dsimp only
  split
  · exact set_core0_self
  · rfl

theorem retire_other (h : d ≠ c) : (p.retire c).core0 d = p.core0 d := by
  unfold retire
  dsimp only
  split
  · exact set_core0_of_ne h
  · rfl

theorem retire_frame : (p.retire c).claimMask = p.claimMask ∧
    (p.retire c).uartPriority = p.uartPriority := by
  unfold retire
  dsimp only
  split <;> exact ⟨rfl, rfl⟩

theorem notify_self : (p.notify c).core0 c = { p.core0 c with
    irq := if Raised p.sourcePending p.uartPriority (p.core0 c) then 10
      else (p.core0 c).clm } := by
  unfold notify
  dsimp only
  split
  · rename_i h
    have hraised : Raised p.sourcePending p.uartPriority (p.core0 c) := h
    rw [set_core0_self, if_pos hraised]
  · rename_i h
    have hquiet : ¬ Raised p.sourcePending p.uartPriority (p.core0 c) := h
    rw [set_core0_self, if_neg hquiet]

theorem notify_other (h : d ≠ c) : (p.notify c).core0 d = p.core0 d := by
  unfold notify
  dsimp only
  split <;> exact set_core0_of_ne h

theorem notify_frame : (p.notify c).claimMask = p.claimMask ∧
    (p.notify c).uartPriority = p.uartPriority ∧
    (p.notify c).sourcePending = p.sourcePending := by
  unfold notify
  dsimp only
  split <;> exact ⟨rfl, rfl, rfl⟩

/-- What `update` does. -/
theorem update_spec (irq : Bool) (p : Plic) :
    (p.update irq).claimMask = p.claimMask ∧
    (p.update irq).sourcePending = p.pendingAfter irq ∧
    ∀ c, (p.update irq).core0 c = updated (p.pendingAfter irq) p.uartPriority (p.core0 c) := by
  have hmask : ((p.retire .m).retire .s).claimMask = p.claimMask :=
    retire_frame.1.trans retire_frame.1
  have hprio : ((p.retire .m).retire .s).uartPriority = p.uartPriority :=
    retire_frame.2.trans retire_frame.2
  refine ⟨?_, ?_, fun c => ?_⟩
  · exact (notify_frame.1.trans notify_frame.1).trans hmask
  · refine (notify_frame.2.2.trans notify_frame.2.2).trans ?_
    rw [hmask]
    rfl
  · rw [← hprio, pendingAfter, ← hmask]
    unfold update forget
    dsimp only
    cases c with
    | m =>
      rw [notify_other (by decide), notify_self]
      dsimp only
      rw [retire_other (by decide), retire_self]
      rfl
    | s =>
      rw [notify_self, notify_frame.2.1, notify_frame.2.2, notify_other (by decide)]
      dsimp only
      rw [retire_self, retire_other (by decide)]
      rfl

/-! ### Bits of the claim mask -/

variable {undef : BitVec 32 → BitVec 32} {n mask : BitVec 32}

/-- A defined shift has the bit of its count. -/
theorem getLsbD_oneShl (hn : n < 32) : (oneShl undef n).getLsbD 10 = decide (n = 10) := by
  have hlt : n.toNat < 32 := BitVec.lt_def.mp hn
  rw [oneShl, if_pos hn]
  change (1#32 <<< n.toNat).getLsbD 10 = _
  rw [← BitVec.twoPow_eq, BitVec.getLsbD_twoPow]
  have hiff : n.toNat = 10 ↔ n = 10 :=
    ⟨fun h => BitVec.eq_of_toNat_eq h, fun h => by rw [h]; rfl⟩
  simp [hlt, hiff]

/-- Clearing other sources keeps the UART masked. -/
theorem getLsbD_unmask {ids : List (BitVec 32)} (h : ∀ n ∈ ids, n < 32) :
    (unmask undef mask ids).getLsbD 10 = (mask.getLsbD 10 && decide (10 ∉ ids)) := by
  induction ids generalizing mask with
  | nil => simp [unmask]
  | cons n ids ih =>
    have hn : (oneShl undef n).getLsbD 10 = decide (n = 10) :=
      getLsbD_oneShl (h n List.mem_cons_self)
    change (unmask undef (mask &&& ~~~(oneShl undef n)) ids).getLsbD 10 = _
    rw [ih fun x hx => h x (List.mem_cons_of_mem _ hx), BitVec.getLsbD_and, BitVec.getLsbD_not, hn]
    by_cases h10 : n = 10
    · simp [h10]
    · have hmem : 10 ∉ n :: ids ↔ 10 ∉ ids := by
        rw [List.mem_cons, or_iff_right (Ne.symm h10)]
      simp only [decide_eq_false h10, hmem, Bool.not_false, Bool.and_true, Nat.reduceLT,
        decide_true]

/-- While the UART is masked it is not pending. -/
theorem pendingAfter_of_masked (h : p.claimMask.getLsbD 10 = true) (irq : Bool) :
    (p.pendingAfter irq).getLsbD 10 = false := by
  rw [pendingAfter, BitVec.getLsbD_and, BitVec.getLsbD_not, h]
  simp

/-- A source that is not pending raises no line. -/
theorem not_raised {pending priority : BitVec 32} {r : PlicRegs}
    (h : pending.getLsbD 10 = false) : ¬ Raised pending priority r := by
  rintro ⟨hpending, -⟩
  rw [and_one_shiftLeft_ne_zero_iff, h] at hpending
  cases hpending

end Plic

/-! ### Runs of the platform -/

namespace LinuxDev

/-- What can happen around the PLIC: word accesses through memory, byte accesses to the
UART, and the clock tick, which takes what was typed. -/
inductive PlicEvent
  | load (w : WordAddr)
  | store (w : WordAddr) (wdata : BitVec 32)
  | uartRead (addr : BitVec 32)
  | uartWrite (addr : BitVec 32) (val : BitVec 8)
  | update (timeirq : Option (BitVec 64)) (keys : List (BitVec 8))

/-- The peripherals after an event. -/
def step (undef : BitVec 32 → BitVec 32) (d : LinuxDev) : PlicEvent → LinuxDev
  | .load w => { d with plic := (d.plic.readWord undef w.addr).2 }
  | .store w wdata => { d with plic := d.plic.writeWord undef w.addr wdata }
  | .uartRead addr => { d with uart := (d.uart.read addr).2 }
  | .uartWrite addr val => { d with uart := d.uart.write addr val }
  | .update timeirq keys => d.platUpdate timeirq keys

/-- The peripherals, and whether no update has come since a context took its claim. -/
abbrev Watched := LinuxDev × Bool

/-- An event, watched since a claim. -/
def watch (undef : BitVec 32 → BitVec 32) (x : Watched) (e : PlicEvent) : Watched :=
  (x.1.step undef e, match e with | .update _ _ => false | _ => x.2)

/-- What may happen while context `c` holds the interrupt. A claim register is read only
when it holds no claim, and before the first update only when its line shows none. A
completion register is written only with shift counts below 32 other than 10, so not
with the completion of the claim either. -/
def Orderly (c : PlicCtx) (x : Watched) : PlicEvent → Prop
  | .load w => ∀ d, w.addr = Plic.clmCmpltAddr d →
      if x.2 = true ∧ d ≠ c then (x.1.plic.core0 d).irq ≠ 10 else (x.1.plic.core0 d).clm ≠ 10
  | .store w wdata => ∀ d, w.addr = Plic.clmCmpltAddr d →
      ∀ n ∈ Plic.shiftCounts (x.1.plic.core0 d).cmplt wdata, n < 32 ∧ n ≠ 10
  | _ => True

instance (c : PlicCtx) (x : Watched) : (e : PlicEvent) → Decidable (Orderly c x e)
  | .load w => inferInstanceAs (Decidable (∀ d, w.addr = Plic.clmCmpltAddr d →
      if x.2 = true ∧ d ≠ c then (x.1.plic.core0 d).irq ≠ 10 else (x.1.plic.core0 d).clm ≠ 10))
  | .store w wdata =>
    -- the numbers of a list, not all 32-bit numbers, are tried
    haveI (d : PlicCtx) : Decidable (∀ n ∈ Plic.shiftCounts (x.1.plic.core0 d).cmplt wdata,
        n < 32 ∧ n ≠ 10) := List.decidableBAll _ _
    inferInstanceAs (Decidable (∀ d, w.addr = Plic.clmCmpltAddr d →
      ∀ n ∈ Plic.shiftCounts (x.1.plic.core0 d).cmplt wdata, n < 32 ∧ n ≠ 10))
  | .uartRead _ => isTrue trivial
  | .uartWrite _ _ => isTrue trivial
  | .update _ _ => isTrue trivial

/-- No claim is given out, and the source is not pending after an update. -/
def Excludes (undef : BitVec 32 → BitVec 32) (x : Watched) : PlicEvent → Prop
  | .load w => ∀ d, w.addr = Plic.clmCmpltAddr d → (x.1.plic.readWord undef w.addr).1 ≠ 10
  | .update timeirq keys => (x.1.platUpdate timeirq keys).plic.sourcePending.getLsbD 10 = false
  | _ => True

/-- Context `c` holds the interrupt: the source is masked, and the lines show claims. -/
structure Holds (c : PlicCtx) (x : Watched) : Prop where
  masked : x.1.plic.claimMask.getLsbD 10 = true
  taken : x.2 = true → (x.1.plic.core0 c).clm = 10
  shown : x.2 = false → ∀ d, (x.1.plic.core0 d).irq = (x.1.plic.core0 d).clm

variable {undef : BitVec 32 → BitVec 32} {c : PlicCtx} {x : Watched} {d : LinuxDev}

/-- A claim register that was read in an orderly way gave no claim. -/
theorem Holds.irq_ne {b : PlicCtx} (h : Holds c x)
    (hload : if x.2 = true ∧ b ≠ c then (x.1.plic.core0 b).irq ≠ 10
      else (x.1.plic.core0 b).clm ≠ 10) : (x.1.plic.core0 b).irq ≠ 10 := by
  cases hfresh : x.2 with
  | false =>
    rw [if_neg (by simp [hfresh])] at hload
    rw [h.shown hfresh]
    exact hload
  | true =>
    by_cases hb : b = c
    · rw [if_neg (by simp [hb]), hb] at hload
      exact absurd (h.taken hfresh) hload
    · rwa [if_pos ⟨hfresh, hb⟩] at hload

/-- An event that leaves the claims alone. -/
theorem Holds.of_sameClaims (h : Holds c x) {y : Watched}
    (hsame : Plic.SameClaims x.1.plic y.1.plic) (hfresh : y.2 = x.2) : Holds c y where
  masked := by rw [hsame.claimMask]; exact h.masked
  taken hy := by rw [hsame.clm]; exact h.taken (hfresh ▸ hy)
  shown hy b := by rw [hsame.irq, hsame.clm]; exact h.shown (hfresh ▸ hy) b

/-- A claim read by a context that does not hold the interrupt before its next update. -/
theorem Holds.claimWord {b : PlicCtx} (h : Holds c x) (hne : x.2 = true → b ≠ c) :
    Holds c ({ x.1 with plic := x.1.plic.claimWord undef b }, x.2) := by
  refine ⟨?_, fun hfresh => ?_, fun hshown d => ?_⟩
  · change (x.1.plic.claimWord undef b).claimMask.getLsbD 10 = true
    rw [Plic.claimWord, Plic.set_claimMask]
    simp only [BitVec.getLsbD_or, h.masked, Bool.true_or]
  · change ((x.1.plic.claimWord undef b).core0 c).clm = 10
    rw [Plic.claimWord_core0, if_neg (hne hfresh).symm]
    exact h.taken hfresh
  · change ((x.1.plic.claimWord undef b).core0 d).irq = ((x.1.plic.claimWord undef b).core0 d).clm
    rw [Plic.claimWord_core0]
    split_ifs
    · rfl
    · exact h.shown hshown d

/-- A completion write that clears other sources. -/
theorem Holds.completeWord {b : PlicCtx} (h : Holds c x) {wdata : BitVec 32}
    (hcounts : ∀ n ∈ Plic.shiftCounts (x.1.plic.core0 b).cmplt wdata, n < 32 ∧ n ≠ 10) :
    Holds c ({ x.1 with plic := x.1.plic.completeWord undef b wdata }, x.2) := by
  have hclaims (d : PlicCtx) : ((x.1.plic.completeWord undef b wdata).core0 d).clm = _ ∧ _ :=
    Plic.completeWord_claims wdata d
  refine ⟨?_, fun hfresh => (hclaims c).1.trans (h.taken hfresh), fun hshown d => ?_⟩
  · change (x.1.plic.completeWord undef b wdata).claimMask.getLsbD 10 = true
    rw [Plic.completeWord, Plic.set_claimMask]
    dsimp only
    rw [Plic.getLsbD_unmask fun n hn => (hcounts n hn).1, h.masked, Bool.true_and,
      decide_eq_true_iff]
    exact fun hmem => (hcounts 10 hmem).2 rfl
  · exact (hclaims d).2.trans ((h.shown hshown d).trans (hclaims d).1.symm)

/-- An update finds the source masked, and shows the claims on the lines. -/
theorem Holds.platUpdate (h : Holds c x) (timeirq : Option (BitVec 64)) (keys : List (BitVec 8)) :
    (x.1.platUpdate timeirq keys).plic.sourcePending.getLsbD 10 = false ∧
      Holds c (x.1.platUpdate timeirq keys, false) := by
  obtain ⟨hmask, hpending, hregs⟩ :=
    Plic.update_spec (x.1.uart.keyboardInput keys).uartIrq.1 x.1.plic
  have hclear := Plic.pendingAfter_of_masked h.masked (x.1.uart.keyboardInput keys).uartIrq.1
  refine ⟨?_, hmask.symm ▸ h.masked, fun hfresh => (by cases hfresh), fun _ d => ?_⟩
  · change (x.1.plic.update _).sourcePending.getLsbD 10 = false
    rw [hpending]
    exact hclear
  · change ((x.1.plic.update _).core0 d).irq = ((x.1.plic.update _).core0 d).clm
    rw [hregs d, Plic.updated, if_neg (Plic.not_raised hclear)]

/-- An orderly event gives nothing out and leaves the interrupt with its holder. -/
theorem Holds.step {e : PlicEvent} (h : Holds c x) (horderly : Orderly c x e) :
    Excludes undef x e ∧ Holds c (watch undef x e) := by
  cases e with
  | load w =>
    by_cases hclaim : ∃ b, w.addr = Plic.clmCmpltAddr b
    · obtain ⟨b, hb⟩ := hclaim
      have hword : x.1.plic.readWord undef w.addr = _ := Plic.readWord_of_claim hb
      have hheld := horderly b hb
      have hne (hfresh : x.2 = true) : b ≠ c := by
        rintro rfl
        rw [if_neg (by simp)] at hheld
        exact hheld (h.taken hfresh)
      refine ⟨fun d hd => by rw [hword]; exact h.irq_ne hheld, ?_⟩
      unfold watch LinuxDev.step
      dsimp only
      rw [hword]
      exact h.claimWord hne
    · have hother : ∀ b, w.addr ≠ Plic.clmCmpltAddr b := fun b hb => hclaim ⟨b, hb⟩
      refine ⟨fun b hb => absurd hb (hother b), h.of_sameClaims ?_ rfl⟩
      unfold watch LinuxDev.step
      dsimp only
      rw [Plic.readWord_other hother]
      exact .refl x.1.plic
  | store w wdata =>
    refine ⟨trivial, ?_⟩
    by_cases hclaim : ∃ b, w.addr = Plic.clmCmpltAddr b
    · obtain ⟨b, hb⟩ := hclaim
      unfold watch LinuxDev.step
      dsimp only
      rw [Plic.writeWord_of_claim hb]
      exact h.completeWord (horderly b hb)
    · exact h.of_sameClaims (Plic.writeWord_other (fun b hb => hclaim ⟨b, hb⟩) wdata) rfl
  | uartRead addr => exact ⟨trivial, h.of_sameClaims (.refl x.1.plic) rfl⟩
  | uartWrite addr val => exact ⟨trivial, h.of_sameClaims (.refl x.1.plic) rfl⟩
  | update timeirq keys => exact h.platUpdate timeirq keys

/-- A run of orderly events. -/
theorem Holds.run {es : List PlicEvent} (h : Holds c x)
    (horderly : ∀ y ∈ Clocked.trace (watch undef) Prod.mk x es, Orderly c y.1 y.2) :
    ∀ y ∈ Clocked.trace (watch undef) Prod.mk x es, Excludes undef y.1 y.2 := by
  have hstep (y : Watched) (e : PlicEvent) (hy : Holds c y) (he : Orderly c y e) :
      Holds c (watch undef y e) := (hy.step he).2
  obtain ⟨-, hholds⟩ := Clocked.allowed_run hstep h horderly
  exact fun y hy => ((hholds y hy).step (horderly y hy)).1

/-- A claim read that returns 10 gives the interrupt to its context. -/
theorem holds_of_claim (h : (d.plic.readWord undef (Plic.clmCmplt c).addr).1 = 10) :
    Holds c (d.step undef (.load (Plic.clmCmplt c)), true) := by
  have hword : d.plic.readWord undef (Plic.clmCmplt c).addr = _ := Plic.readWord_clmCmplt
  have hirq : (d.plic.core0 c).irq = 10 := by
    rw [hword] at h
    exact h
  have hplic : (d.step undef (.load (Plic.clmCmplt c))).plic = d.plic.claimWord undef c :=
    congrArg Prod.snd hword
  refine ⟨?_, fun _ => ?_, fun hshown => (by cases hshown)⟩
  · change (d.step undef (.load (Plic.clmCmplt c))).plic.claimMask.getLsbD 10 = true
    rw [hplic, Plic.claimWord, Plic.set_claimMask]
    dsimp only
    rw [hirq, BitVec.getLsbD_or, Plic.getLsbD_oneShl (by decide)]
    simp
  · change ((d.step undef (.load (Plic.clmCmplt c))).plic.core0 c).clm = 10
    rw [hplic, Plic.claimWord, Plic.set_core0_self]
    exact hirq

/-- From a claim read that returns 10 on, whatever the state it meets, no claim read of
either context returns 10 and the source is not pending after any update, as long as
every event is orderly. -/
theorem claim_exclusive (undef : BitVec 32 → BitVec 32) (d : LinuxDev) (c : PlicCtx)
    (hclaim : (d.plic.readWord undef (Plic.clmCmplt c).addr).1 = 10) (es : List PlicEvent)
    (horderly : ∀ x ∈ Clocked.trace (watch undef) Prod.mk
      (d.step undef (.load (Plic.clmCmplt c)), true) es, Orderly c x.1 x.2) :
    ∀ x ∈ Clocked.trace (watch undef) Prod.mk (d.step undef (.load (Plic.clmCmplt c)), true) es,
      Excludes undef x.1 x.2 :=
  (holds_of_claim hclaim).run horderly

/-- Software lets M-mode have the interrupts of the UART, and a character is typed. -/
def typed : List PlicEvent :=
  [.uartWrite (Uart.base + 1) 1, .store Plic.uartPriorityWord 1,
   .store (Plic.enableWord .m) 0x400, .update none [0x41]]

/-- M-mode claims; S-mode then reads its claim register and completes another source. -/
theorem claim_exclusive_of_other_context :
    let undef : BitVec 32 → BitVec 32 := fun _ => 0
    let d := Clocked.run (step undef) {} typed
    let es := [.update none [], .load (Plic.clmCmplt .s), .store (Plic.clmCmplt .s) 5,
      .update none [0x42]]
    (d.plic.readWord undef (Plic.clmCmplt .m).addr).1 = 10 ∧
      ∀ x ∈ Clocked.trace (watch undef) Prod.mk (d.step undef (.load (Plic.clmCmplt .m)), true) es,
        Excludes undef x.1 x.2 := by
  intro undef d es
  have hclaim : (d.plic.readWord undef (Plic.clmCmplt .m).addr).1 = 10 := by decide
  exact ⟨hclaim, claim_exclusive undef d .m hclaim es (by decide)⟩

/-- M-mode claims and reads its claim register again after an update: it gets the
interrupt twice. -/
theorem claim_given_twice :
    let undef : BitVec 32 → BitVec 32 := fun _ => 0
    let d := Clocked.run (step undef) {} typed
    let es := [.update none [], .load (Plic.clmCmplt .m)]
    (d.plic.readWord undef (Plic.clmCmplt .m).addr).1 = 10 ∧
      ¬ ∀ x ∈ Clocked.trace (watch undef) Prod.mk (d.step undef (.load (Plic.clmCmplt .m)), true) es,
        Excludes undef x.1 x.2 := by
  intro undef d es
  refine ⟨by decide, fun h => ?_⟩
  have hsecond := h _ (List.mem_cons_of_mem _ List.mem_cons_self) .m rfl
  revert hsecond
  decide

end LinuxDev

end Turtle
