import Turtle.PlicClaims

/-!
# The PLIC keeps going

An interrupt would be lost for good if the claim mask kept its bit with no context left
to complete it. With one word access between two updates this cannot happen: a claim
read masks exactly what its context then holds, and the only completion that ends a
claim also clears the mask.
-/

namespace Turtle

open Bits

/-! ### The interrupt line of the UART -/

namespace Uart

variable {u : Uart}

/-- What asserts the interrupt. -/
theorem uartIrq_iff : u.uartIrq.1 = true ↔
    (u.uartBufEnd ≠ u.uartBufBegin ∧ u.ier &&& 1 ≠ 0) ∨ (u.ier &&& 2 ≠ 0 ∧ u.thri = true) := by
  unfold uartIrq
  split_ifs with hrx htx
  · exact iff_of_true rfl (.inl hrx)
  · exact iff_of_true rfl (.inr htx)
  · exact iff_of_false not_false (not_or.mpr ⟨hrx, htx⟩)

/-- Typing withdraws no interrupt. -/
theorem uartIrq_keyboardInput (keys : List (BitVec 8)) (h : u.uartIrq.1 = true) :
    (u.keyboardInput keys).uartIrq.1 = true := by
  induction keys generalizing u with
  | nil => exact h
  | cons key keys ih =>
    unfold keyboardInput
    dsimp only
    generalize hnxt : (if u.uartBufEnd + 1 ≠ uartBufSize then u.uartBufEnd + 1 else 0) = nxtEnd
    split
    · exact h
    · rename_i hfull
      apply ih
      rw [uartIrq_iff] at h ⊢
      rcases h with ⟨-, hier⟩ | htx
      · exact .inl ⟨hfull, hier⟩
      · exact .inr htx

end Uart

namespace LinuxDev

/-- The peripherals, and whether an update has come since the last word access. -/
abbrev Paced := LinuxDev × Bool

/-- An event, with the word accesses paced by the updates. -/
def pace (undef : BitVec 32 → BitVec 32) (x : Paced) (e : PlicEvent) : Paced :=
  (x.1.step undef e, match e with
    | .load _ => false
    | .store _ _ => false
    | .update _ _ => true
    | _ => x.2)

/-- A word access waits for an update after the one before it, and only numbers below 32
are completed. -/
def InPace (x : Paced) : PlicEvent → Prop
  | .load _ => x.2 = true
  | .store w wdata => x.2 = true ∧ ∀ c, w.addr = Plic.clmCmpltAddr c → wdata < 32
  | _ => True

instance (x : Paced) : (e : PlicEvent) → Decidable (InPace x e)
  | .load _ => inferInstanceAs (Decidable (x.2 = true))
  | .store w wdata =>
    inferInstanceAs (Decidable (x.2 = true ∧ ∀ c, w.addr = Plic.clmCmpltAddr c → wdata < 32))
  | .uartRead _ => isTrue trivial
  | .uartWrite _ _ => isTrue trivial
  | .update _ _ => isTrue trivial

/-- The state between two events. -/
structure Settled (x : Paced) : Prop where
  clm : ∀ c, (x.1.plic.core0 c).clm = 0 ∨ (x.1.plic.core0 c).clm = 10
  irq : ∀ c, (x.1.plic.core0 c).irq = 0 ∨ (x.1.plic.core0 c).irq = 10
  shown : ∀ c, (x.1.plic.core0 c).clm = 10 → (x.1.plic.core0 c).irq = 10
  forgotten : x.2 = true → ∀ c, (x.1.plic.core0 c).cmplt = 0
  completed : ∀ c, (x.1.plic.core0 c).cmplt = 10 → x.1.plic.claimMask.getLsbD 10 = false
  held : x.1.plic.claimMask.getLsbD 10 = true → ∃ c, (x.1.plic.core0 c).clm = 10

variable {undef : BitVec 32 → BitVec 32} {x : Paced} {c : PlicCtx}

/-- An event that leaves claims and completions alone. -/
theorem Settled.of_sameClaims (h : Settled x) {y : Paced}
    (hsame : Plic.SameClaims x.1.plic y.1.plic) (hready : y.2 = true → x.2 = true) : Settled y where
  clm b := by rw [hsame.clm]; exact h.clm b
  irq b := by rw [hsame.irq]; exact h.irq b
  shown b := by rw [hsame.clm, hsame.irq]; exact h.shown b
  forgotten hy b := by rw [hsame.cmplt]; exact h.forgotten (hready hy) b
  completed b := by rw [hsame.cmplt, hsame.claimMask]; exact h.completed b
  held hmask := by
    rw [hsame.claimMask] at hmask
    obtain ⟨b, hb⟩ := h.held hmask
    exact ⟨b, (hsame.clm b).trans hb⟩

/-- The mask after a claim read: the UART is added when the context takes it. -/
theorem Settled.claimMask_claimWord (h : Settled x) :
    (x.1.plic.claimWord undef c).claimMask.getLsbD 10 =
      (x.1.plic.claimMask.getLsbD 10 || decide ((x.1.plic.core0 c).irq = 10)) := by
  have hclm : (x.1.plic.core0 c).clm < 32 := by
    rcases h.clm c with hc | hc <;> rw [hc] <;> decide
  have hirq : (x.1.plic.core0 c).irq < 32 := by
    rcases h.irq c with hc | hc <;> rw [hc] <;> decide
  rw [Plic.claimWord, Plic.set_claimMask, BitVec.getLsbD_or, BitVec.getLsbD_or,
    Plic.getLsbD_oneShl hclm, Plic.getLsbD_oneShl hirq, Bool.or_assoc]
  congr 1
  have hshown := h.shown c
  by_cases hheld : (x.1.plic.core0 c).clm = 10
  · rw [decide_eq_true hheld, decide_eq_true (hshown hheld), Bool.true_or]
  · rw [decide_eq_false hheld, Bool.false_or]

/-- A claim read. -/
theorem Settled.claimWord (h : Settled x) (hready : x.2 = true) :
    Settled ({ x.1 with plic := x.1.plic.claimWord undef c }, false) := by
  have hregs (b : PlicCtx) : (x.1.plic.claimWord undef c).core0 b = _ := Plic.claimWord_core0 b
  have hcmplt (b : PlicCtx) : ((x.1.plic.claimWord undef c).core0 b).cmplt = 0 := by
    rw [hregs]
    split_ifs
    · exact h.forgotten hready c
    · exact h.forgotten hready b
  refine ⟨fun b => ?_, fun b => ?_, fun b => ?_, nofun, fun b hb => ?_, fun hmask => ?_⟩
  · rw [hregs]
    split_ifs
    · exact h.irq c
    · exact h.clm b
  · rw [hregs]
    split_ifs
    · exact h.irq c
    · exact h.irq b
  · rw [hregs]
    split_ifs
    · exact id
    · exact h.shown b
  · rw [hcmplt] at hb
    exact absurd hb (by decide)
  · rw [h.claimMask_claimWord, Bool.or_eq_true, decide_eq_true_eq] at hmask
    rcases hmask with hmask | hirq
    · -- the context that holds the interrupt keeps it
      obtain ⟨b, hb⟩ := h.held hmask
      refine ⟨b, ?_⟩
      rw [hregs]
      split_ifs with hbc
      · exact h.shown c (hbc ▸ hb)
      · exact hb
    · refine ⟨c, ?_⟩
      rw [hregs, if_pos rfl]
      exact hirq

/-- A byte of a number below 32 alone changes a completion register that was empty. -/
theorem shiftCounts_zero {wdata : BitVec 32} (h : wdata < 32) :
    Plic.shiftCounts 0 wdata = [0, wdata, wdata, wdata] := by
  have hlt : wdata.toNat < 32 := BitVec.lt_def.mp h
  have hbits {i : ℕ} (hi : 8 ≤ i) : wdata.getLsbD i = false := by
    have hpow : 2 ^ 5 ≤ 2 ^ i := Nat.pow_le_pow_right (by omega) (by omega)
    exact Nat.testBit_lt_two_pow (by omega)
  have hfirst : Plic.merge 0 0 (wdata.setWidth 8) = wdata := by
    apply BitVec.eq_of_getLsbD_eq
    intro i hi
    rw [Plic.getLsbD_merge _ _ _ hi]
    split_ifs with hin
    · simp [hin.2]
    · rw [hbits (by omega)]
      simp
  have hnext {off : ℕ} (hoff : 8 ≤ off) :
      Plic.merge wdata off ((wdata >>> off).setWidth 8) = wdata := by
    apply BitVec.eq_of_getLsbD_eq
    intro i hi
    rw [Plic.getLsbD_merge _ _ _ hi]
    split_ifs with hin
    · rw [BitVec.getLsbD_setWidth, BitVec.getLsbD_ushiftRight, Nat.add_sub_cancel' hin.1,
        hbits (by omega), Bool.and_false]
    · rfl
  rw [Plic.shiftCounts, hfirst, hnext (by omega), hnext (by omega)]

/-- A completion write: the UART stays masked only when another number is completed. -/
theorem Settled.completeWord (h : Settled x) (hready : x.2 = true) {wdata : BitVec 32}
    (hwdata : wdata < 32) :
    Settled ({ x.1 with plic := x.1.plic.completeWord undef c wdata }, false) := by
  have hclm (b : PlicCtx) : ((x.1.plic.completeWord undef c wdata).core0 b).clm = _ :=
    (Plic.completeWord_claims wdata b).1
  have hirq (b : PlicCtx) : ((x.1.plic.completeWord undef c wdata).core0 b).irq = _ :=
    (Plic.completeWord_claims wdata b).2
  have hmask : (x.1.plic.completeWord undef c wdata).claimMask.getLsbD 10 =
      (x.1.plic.claimMask.getLsbD 10 && decide (10 ∉ [0, wdata, wdata, wdata])) := by
    have hcounts : ∀ n ∈ [0, wdata, wdata, wdata], n < 32 := by
      simpa using hwdata
    rw [Plic.completeWord, Plic.set_claimMask]
    dsimp only
    rw [h.forgotten hready c, shiftCounts_zero hwdata, Plic.getLsbD_unmask hcounts]
  refine ⟨fun b => ?_, fun b => ?_, fun b => ?_, fun hno => absurd hno Bool.false_ne_true,
    fun b hb => ?_, fun hmasked => ?_⟩
  · rw [hclm]
    exact h.clm b
  · rw [hirq]
    exact h.irq b
  · rw [hclm, hirq]
    exact h.shown b
  · rw [Plic.completeWord_core0] at hb
    split_ifs at hb with hbc
    · have hten : wdata = 10 := hb
      rw [hmask, hten]
      simp
    · rw [h.forgotten hready b] at hb
      exact absurd hb (by decide)
  · rw [hmask, Bool.and_eq_true] at hmasked
    obtain ⟨b, hb⟩ := h.held hmasked.1
    exact ⟨b, (hclm b).trans hb⟩

/-- An update. -/
theorem Settled.platUpdate (h : Settled x) (timeirq : Option (BitVec 64)) (keys : List (BitVec 8)) :
    Settled (x.1.platUpdate timeirq keys, true) := by
  obtain ⟨hmask, -, hregs⟩ :=
    Plic.update_spec (x.1.uart.keyboardInput keys).uartIrq.1 x.1.plic
  have hopen (b : PlicCtx) : Plic.openClaim (x.1.plic.core0 b) = 0 ∨
      Plic.openClaim (x.1.plic.core0 b) = 10 := by
    unfold Plic.openClaim
    split_ifs
    · exact .inl rfl
    · exact h.clm b
  refine ⟨fun b => ?_, fun b => ?_, fun b => ?_, fun _ b => ?_, fun b hb => ?_, fun hmasked => ?_⟩
  · change ((x.1.plic.update _).core0 b).clm = 0 ∨ ((x.1.plic.update _).core0 b).clm = 10
    rw [hregs]
    exact hopen b
  · change ((x.1.plic.update _).core0 b).irq = 0 ∨ ((x.1.plic.update _).core0 b).irq = 10
    rw [hregs, Plic.updated]
    dsimp only
    split_ifs
    · exact .inr rfl
    · exact hopen b
  · change ((x.1.plic.update _).core0 b).clm = 10 → ((x.1.plic.update _).core0 b).irq = 10
    rw [hregs, Plic.updated]
    dsimp only
    split_ifs
    · exact fun _ => rfl
    · exact id
  · change ((x.1.plic.update _).core0 b).cmplt = 0
    rw [hregs]
    rfl
  · change ((x.1.plic.update _).core0 b).cmplt = 10 at hb
    rw [hregs] at hb
    exact absurd hb (by decide : (0 : BitVec 32) ≠ 10)
  · change (x.1.plic.update _).claimMask.getLsbD 10 = true at hmasked
    rw [hmask] at hmasked
    obtain ⟨b, hb⟩ := h.held hmasked
    refine ⟨b, ?_⟩
    change ((x.1.plic.update _).core0 b).clm = 10
    rw [hregs, Plic.updated]
    -- its completion would have cleared the mask
    have hcmplt : (x.1.plic.core0 b).cmplt ≠ (x.1.plic.core0 b).clm := by
      intro hcmplt
      rw [h.completed b (hcmplt.trans hb)] at hmasked
      cases hmasked
    exact (if_neg hcmplt).trans hb

/-- Every event in pace keeps the state settled. -/
theorem Settled.step {e : PlicEvent} (h : Settled x) (hpace : InPace x e) :
    Settled (pace undef x e) := by
  cases e with
  | load w =>
    by_cases hclaim : ∃ c, w.addr = Plic.clmCmpltAddr c
    · obtain ⟨c, hc⟩ := hclaim
      have hplic : (x.1.plic.readWord undef w.addr).2 = x.1.plic.claimWord undef c :=
        congrArg Prod.snd (Plic.readWord_of_claim hc)
      unfold pace LinuxDev.step
      dsimp only
      rw [hplic]
      exact h.claimWord hpace
    · have hplic : (x.1.plic.readWord undef w.addr).2 = x.1.plic :=
        Plic.readWord_other fun c hc => hclaim ⟨c, hc⟩
      refine h.of_sameClaims ?_ nofun
      unfold pace LinuxDev.step
      dsimp only
      rw [hplic]
      exact .refl x.1.plic
  | store w wdata =>
    by_cases hclaim : ∃ c, w.addr = Plic.clmCmpltAddr c
    · obtain ⟨c, hc⟩ := hclaim
      unfold pace LinuxDev.step
      dsimp only
      rw [Plic.writeWord_of_claim hc]
      exact h.completeWord hpace.1 (hpace.2 c hc)
    · exact h.of_sameClaims (Plic.writeWord_other (fun c hc => hclaim ⟨c, hc⟩) wdata) nofun
  | uartRead addr => exact h.of_sameClaims (.refl x.1.plic) id
  | uartWrite addr val => exact h.of_sameClaims (.refl x.1.plic) id
  | update timeirq keys => exact h.platUpdate timeirq keys

/-- The peripherals at start. -/
theorem settled_start {d : LinuxDev} (h : d.plic = {}) : Settled (d, true) := by
  refine ⟨fun c => ?_, fun c => ?_, fun c => ?_, fun _ c => ?_, fun c => ?_, ?_⟩
  all_goals
    dsimp only
    rw [h]
  · exact .inl rfl
  · exact .inl rfl
  · exact fun hc => absurd hc (by decide : (0 : BitVec 32) ≠ 10)
  · exact fun hc => absurd hc (by decide : (0 : BitVec 32) ≠ 10)
  · exact fun hmask => absurd hmask (by decide)

/-- When no context holds a claim, an asserted interrupt reaches every context that
enables it. -/
theorem Settled.notifies (h : Settled x) (hfree : ∀ c, (x.1.plic.core0 c).clm = 0)
    (timeirq : Option (BitVec 64)) {keys : List (BitVec 8)}
    (hirq : (x.1.uart.keyboardInput keys).uartIrq.1 = true)
    (henable : (x.1.plic.core0 c).enable.getLsbD 10 = true)
    (hprio : (x.1.plic.core0 c).threshold < x.1.plic.uartPriority) :
    ((x.1.platUpdate timeirq keys).plic.core0 c).irq = 10 := by
  have hunmasked : x.1.plic.claimMask.getLsbD 10 = false := by
    by_contra hmask
    obtain ⟨b, hb⟩ := h.held (by simpa using hmask)
    rw [hfree] at hb
    exact absurd hb (by decide)
  have hraised : Plic.Raised (x.1.plic.pendingAfter true) x.1.plic.uartPriority
      (x.1.plic.core0 c) := by
    refine ⟨?_, ?_, hprio⟩
    · rw [and_one_shiftLeft_ne_zero_iff, Plic.pendingAfter, BitVec.getLsbD_and,
        BitVec.getLsbD_not, hunmasked]
      decide
    · rw [and_one_shiftLeft_ne_zero_iff]
      exact henable
  change ((x.1.plic.update _).core0 c).irq = 10
  rw [hirq, (Plic.update_spec true x.1.plic).2.2 c, Plic.updated]
  exact if_pos hraised

/-- In every state that a paced run of events reaches, the UART is masked only while a
context holds a claim of it. So once no context holds a claim, the next update shows an
asserted interrupt of the UART to every context that enables it above its threshold. -/
theorem plic_never_wedges (undef : BitVec 32 → BitVec 32) (d₀ : LinuxDev) (hstart : d₀.plic = {})
    (es : List PlicEvent)
    (hpace : ∀ x ∈ Clocked.trace (pace undef) Prod.mk (d₀, true) es, InPace x.1 x.2) :
    let d := (Clocked.run (pace undef) (d₀, true) es).1
    (d.plic.claimMask.getLsbD 10 = true → ∃ c, (d.plic.core0 c).clm = 10) ∧
    ∀ timeirq keys c, (∀ b, (d.plic.core0 b).clm = 0) →
      d.uart.uartIrq.1 = true ∨ (d.uart.keyboardInput keys).uartIrq.1 = true →
      (d.plic.core0 c).enable.getLsbD 10 = true →
      (d.plic.core0 c).threshold < d.plic.uartPriority →
      ((d.platUpdate timeirq keys).plic.core0 c).irq = 10 := by
  intro d
  have hstep (x : Paced) (e : PlicEvent) (hx : Settled x) (he : InPace x e) :
      Settled (pace undef x e) := hx.step he
  obtain ⟨hsettled, -⟩ := Clocked.allowed_run hstep (settled_start hstart) hpace
  refine ⟨hsettled.held, fun timeirq keys c hfree hirq henable hprio => ?_⟩
  have hasserted : (d.uart.keyboardInput keys).uartIrq.1 = true :=
    hirq.elim (Uart.uartIrq_keyboardInput keys) id
  exact hsettled.notifies hfree timeirq hasserted henable hprio

/-- M-mode takes the interrupt of a typed character and completes it. -/
def served : List PlicEvent :=
  [.uartWrite (Uart.base + 1) 1, .store Plic.uartPriorityWord 1, .update none [],
   .store (Plic.enableWord .m) 0x400, .update none [0x41], .load (Plic.clmCmplt .m),
   .update none [], .store (Plic.clmCmplt .m) 10, .update none []]

/-- The character was not read, so M-mode is interrupted again. -/
theorem plic_never_wedges_after_served :
    let d := (Clocked.run (pace fun _ => 0) ({}, true) served).1
    ((d.platUpdate none []).plic.core0 .m).irq = 10 :=
  (plic_never_wedges (fun _ => 0) {} rfl served (by decide)).2 none [] .m
    (by decide) (by decide) (by decide) (by decide)

end LinuxDev

end Turtle
