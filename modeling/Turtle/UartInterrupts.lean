import Turtle.UartQueue

/-!
# The transmit-empty interrupt of the UART

A write to the transmit register sets the flag `thri`, `uart_irq` reports it behind receive
data, and a read of IIR clears it. The read does not look at what it reports, so it loses a
transmit-empty condition that it does not show.
-/

namespace Turtle

namespace Uart

/-- The call writes a byte to the transmit register. -/
def Transmits (u : Uart) : UartCall → Prop
  | .write addr _ => addr = base ∧ u.dlab = false
  | _ => False

/-- The call reads IIR. -/
def ReadsIir : UartCall → Prop
  | .read addr => addr = base + 2
  | _ => False

/-- The call reads IIR and is shown the transmit-empty interrupt. -/
def Acknowledges (u : Uart) : UartCall → Prop
  | .read addr => addr = base + 2 ∧ (u.read addr).1 = 2
  | _ => False

instance (u : Uart) (c : UartCall) : Decidable (u.Transmits c) := by
  cases c <;> unfold Transmits <;> infer_instance

instance (c : UartCall) : Decidable (ReadsIir c) := by
  cases c <;> unfold ReadsIir <;> infer_instance

instance (u : Uart) (c : UartCall) : Decidable (u.Acknowledges c) := by
  cases c <;> unfold Acknowledges <;> infer_instance

/-- A UART, and whether a byte was transmitted since the last acknowledgement. -/
abbrev WithPending := Uart × Bool

/-- A call, with what it does to the pending transmit-empty condition. -/
def pendingCall (s : WithPending) (c : UartCall) : WithPending :=
  (s.1.call c, if s.1.Transmits c then true else if s.1.Acknowledges c then false else s.2)

/-- The pending condition is kept: it is reported as soon as it is enabled and no receive data
are before it. -/
structure KeepsTransmit (s : WithPending) : Prop where
  flag : s.2 = true → s.1.thri = true
  reported : s.2 = true → s.1.ier &&& 2 ≠ 0 → s.1.uartBufEnd = s.1.uartBufBegin →
    s.1.uartIrq.1 = true ∧ s.1.uartIrq.2.iir = 2

/-- IIR is read while the condition is pending, and shows something else: enabled receive data,
or nothing because the transmit-empty interrupt is disabled. -/
def LosesTransmit (s : WithPending) (c : UartCall) : Prop :=
  ReadsIir c ∧ s.2 = true ∧
    ((s.1.uartBufEnd ≠ s.1.uartBufBegin ∧ s.1.ier &&& 1 ≠ 0) ∨ s.1.ier &&& 2 = 0)

instance (s : WithPending) (c : UartCall) : Decidable (LosesTransmit s c) :=
  inferInstanceAs (Decidable (_ ∧ _))

variable {u : Uart} {s : WithPending} {c : UartCall} {addr : BitVec 32} {val : BitVec 8}

/-! ### The flag over one call -/

theorem thri_uartIrq : u.uartIrq.2.thri = u.thri := by
  unfold uartIrq
  split
  · rfl
  · split <;> rfl

theorem thri_keyboardInput (s : List (BitVec 8)) : (u.keyboardInput s).thri = u.thri := by
  induction s generalizing u with
  | nil => rfl
  | cons c s ih =>
    unfold keyboardInput
    dsimp only
    generalize (if u.uartBufEnd + 1 ≠ uartBufSize then u.uartBufEnd + 1 else 0) = nxtEnd
    split
    · rfl
    · exact ih

theorem sub_base_eq_iff (k : BitVec 32) : addr - base = k ↔ addr = base + k := by
  rw [sub_eq_iff_eq_add, add_comm]

/-- A read of IIR clears the flag, whatever it shows. -/
theorem thri_read : (u.read addr).2.thri = if addr = base + 2 then false else u.thri := by
  unfold read
  dsimp only
  by_cases hiir : addr - base = 2
  · rw [if_neg (by rw [hiir]; decide), if_neg (by rw [hiir]; decide), if_pos hiir,
      if_pos ((sub_base_eq_iff 2).mp hiir)]
  · rw [if_neg hiir, if_neg (mt (sub_base_eq_iff 2).mpr hiir)]
    split
    · split
      · rfl
      · split
        · rw [thri_uartIrq]
          split <;> rfl
        · rfl
    · split
      · rfl
      · split
        · rfl
        · split <;> rfl

theorem thri_write :
    (u.write addr val).thri = if addr = base ∧ u.dlab = false then true else u.thri := by
  unfold write
  dsimp only
  by_cases hbase : addr = base
  · rw [if_pos (sub_base_eq_zero_iff.mpr hbase)]
    by_cases hdlab : u.dlab = true
    · rw [if_pos hdlab, if_neg (by simp [hdlab])]
    · rw [if_neg hdlab, if_pos ⟨hbase, by simpa using hdlab⟩, thri_uartIrq]
  · have hother : ¬ (addr = base ∧ u.dlab = false) := fun h => hbase h.1
    rw [if_neg (mt sub_base_eq_zero_iff.mp hbase), if_neg hother]
    split
    · split
      · rfl
      · rw [thri_uartIrq]
    · split <;> rfl

/-- What a call does to the flag. -/
theorem thri_call : (u.call c).thri =
    if u.Transmits c then true else if ReadsIir c then false else u.thri := by
  cases c with
  | keyboardInput s => exact thri_keyboardInput s
  | uartIrq => exact thri_uartIrq
  | read addr => exact thri_read
  | write addr val => exact thri_write

/-- What a read of IIR shows while the flag is set. -/
theorem read_iir (hthri : u.thri = true) : (u.read (base + 2)).1 = 2 ↔
    ¬ ((u.uartBufEnd ≠ u.uartBufBegin ∧ u.ier &&& 1 ≠ 0) ∨ u.ier &&& 2 = 0) := by
  have hread : (u.read (base + 2)).1 = u.uartIrq.2.iir.setWidth 8 := rfl
  have hvals : (4 : BitVec 32).setWidth 8 ≠ (2 : BitVec 8) ∧
      (1 : BitVec 32).setWidth 8 ≠ (2 : BitVec 8) := by decide
  rw [hread, uartIrq, not_or]
  by_cases hrx : u.uartBufEnd ≠ u.uartBufBegin ∧ u.ier &&& 1 ≠ 0
  · rw [if_pos hrx]
    exact iff_of_false hvals.1 fun h => h.1 hrx
  · rw [if_neg hrx]
    by_cases htx : u.ier &&& 2 = 0
    · rw [if_neg fun h => h.1 htx]
      exact iff_of_false hvals.2 fun h => h.2 htx
    · rw [if_pos ⟨htx, hthri⟩]
      exact iff_of_true rfl ⟨hrx, htx⟩

theorem keepsTransmit_iff : KeepsTransmit s ↔ (s.2 = true → s.1.thri = true) := by
  constructor
  · exact fun h => h.flag
  · intro h
    refine ⟨h, fun hpending hier hempty => ?_⟩
    rw [uartIrq, if_neg (fun hrx => hrx.1 hempty), if_pos ⟨hier, h hpending⟩]
    exact ⟨rfl, rfl⟩

/-- While the condition is pending, a call that reads IIR acknowledges it or loses it. -/
theorem acknowledges_iff (hthri : s.1.thri = true) (hpending : s.2 = true) :
    s.1.Acknowledges c ↔ ReadsIir c ∧ ¬ LosesTransmit s c := by
  unfold LosesTransmit
  cases c with
  | read addr =>
    have hshown := read_iir hthri
    constructor
    · rintro ⟨rfl, hval⟩
      exact ⟨rfl, fun hloses => hshown.mp hval hloses.2.2⟩
    · rintro ⟨hread, hkeeps⟩
      have haddr : addr = base + 2 := hread
      subst haddr
      exact ⟨rfl, hshown.mpr fun h => hkeeps ⟨rfl, hpending, h⟩⟩
  | keyboardInput s => simp [Acknowledges, ReadsIir]
  | uartIrq => simp [Acknowledges, ReadsIir]
  | write addr val => simp [Acknowledges, ReadsIir]

/-- No call is a write to the transmit register and a read of IIR. -/
theorem not_readsIir_of_transmits (h : u.Transmits c) : ¬ ReadsIir c := by
  cases c with
  | write addr val => exact id
  | keyboardInput s => exact h.elim
  | uartIrq => exact h.elim
  | read addr => exact h.elim

/-- A call loses the condition exactly when it reads IIR and is shown something else. -/
theorem keepsTransmit_call (hs : KeepsTransmit s) :
    KeepsTransmit (pendingCall s c) ↔ ¬ LosesTransmit s c := by
  rw [keepsTransmit_iff]
  unfold pendingCall
  dsimp only
  rw [thri_call]
  by_cases htx : s.1.Transmits c
  · rw [if_pos htx, if_pos htx]
    exact iff_of_true (fun _ => rfl) fun hloses => not_readsIir_of_transmits htx hloses.1
  rw [if_neg htx, if_neg htx]
  by_cases hpending : s.2 = true
  · have hthri : s.1.thri = true := hs.flag hpending
    have hack := acknowledges_iff (c := c) hthri hpending
    by_cases hread : ReadsIir c
    · by_cases hloses : LosesTransmit s c
      · rw [if_pos hread, if_neg fun h => (hack.mp h).2 hloses]
        exact iff_of_false (fun h => absurd (h hpending) Bool.false_ne_true) (not_not.mpr hloses)
      · rw [if_pos (hack.mpr ⟨hread, hloses⟩)]
        exact iff_of_true (fun h => absurd h Bool.false_ne_true) hloses
    · rw [if_neg hread]
      exact iff_of_true (fun _ => hthri) fun hloses => hread hloses.1
  · refine iff_of_true (fun h => ?_) fun hloses => hpending hloses.2.1
    split at h
    · cases h
    · exact absurd h hpending

/-- In every run of calls the transmit-empty condition is kept in all states exactly when no
call reads IIR while the condition is pending and not shown. -/
theorem transmit_kept_iff (u : Uart) (cs : List UartCall) :
    (∀ js, js <+: cs → KeepsTransmit (Clocked.run pendingCall (u, false) js)) ↔
      ∀ c ∈ Clocked.trace pendingCall Prod.mk (u, false) cs, ¬ LosesTransmit c.1 c.2 := by
  have hstart : KeepsTransmit (u, false) :=
    keepsTransmit_iff.mpr fun h => absurd h Bool.false_ne_true
  exact Clocked.safe_run_iff (fun _ _ hs => keepsTransmit_call hs) hstart cs

/-- A byte is transmitted with both interrupts enabled while another one has been received. IIR
shows the received byte. After it is read, nothing reports that the transmitter is empty. -/
theorem iir_read_loses_transmit :
    let cs : List UartCall := [.write 0x10000001 3, .keyboardInput [0x61], .write 0x10000000 0x62,
      .read 0x10000002, .read 0x10000000]
    let u := Clocked.run call {} cs
    (Uart.read 0x10000002 (Clocked.run call {} (cs.take 3))).1 = 4 ∧
      (Clocked.run pendingCall ({}, false) cs).2 = true ∧ u.ier &&& 2 ≠ 0 ∧
      u.uartBufEnd = u.uartBufBegin ∧ u.uartIrq.1 = false ∧
      ¬ KeepsTransmit (Clocked.run pendingCall ({}, false) cs) := by
  intro cs u
  have hpending : (Clocked.run pendingCall ({}, false) cs).2 = true := by decide
  refine ⟨by decide, hpending, by decide, by decide, by decide, fun h => ?_⟩
  exact absurd (h.flag hpending) (by decide)

end Uart

end Turtle
