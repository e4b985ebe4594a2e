import Turtle.Console
import Turtle.UartQueue

/-!
# Typed lines

A line on its way to the UART passes three buffers of 128 bytes: `uart_buf` has room for all
of them, `plat_update` needs one for the terminator of the string, and the ring of the UART
keeps one slot free. The line arrives, cut to 126 characters, exactly when it has no more of
them; a longer one leaves `uart_buf` without a terminator.
-/

namespace Turtle

namespace SharedState

/-- A line for the UART, as `getline` cuts it, without NUL. -/
structure IsTyped (s : List (BitVec 8)) : Prop where
  nonempty : s ≠ []
  notCommand : s.head? ≠ some colon
  noNul : 0 ∉ s
  noNewline : newline ∉ s

/-- `uart_buf` and the queue of the UART are empty. The console looks at the first byte of
`uart_buf` only. -/
structure ReadyForLine (st : SharedState) (d : LinuxDev) : Prop where
  size : st.uartBuf.length = 128
  first : st.uartBuf[0]? = some 0
  ring : d.uart.InRing
  queue : d.uart.queue = []

/-- The console takes a line, and then `plat_update` runs. -/
def lineThenUpdate (st : SharedState) (stimecmp : BitVec 64) (d : LinuxDev)
    (s : List (BitVec 8)) : Option (SharedState × LinuxDev) :=
  (st.consoleLine s).bind fun st => st.platUpdate stimecmp d

/-- All accesses stay inside `uart_buf`, the line is queued, cut to 126 characters and ended
by a newline, and `uart_buf` is zero afterwards. -/
def Delivers (st : SharedState) (stimecmp : BitVec 64) (d : LinuxDev) (s : List (BitVec 8)) :
    Prop :=
  ∃ r, st.lineThenUpdate stimecmp d s = some r ∧
    r.2.uart.queue = s.take 126 ++ [newline] ∧ r.1.uartBuf = List.replicate 128 0

/-- The line has at most 126 characters, counted with an `int`, and behind it `uart_buf` is
zero. -/
def Fits (st : SharedState) (s : List (BitVec 8)) : Prop :=
  (s.length ≤ 126 ∨ s.length % 2 ^ 32 = 126) ∧
    ∀ c ∈ st.uartBuf.drop (min s.length 126 + 1), c = 0

variable {st : SharedState} {d : LinuxDev} {s : List (BitVec 8)} {stimecmp : BitVec 64} {n : ℕ}

/-! ### The console -/

theorem lineLen_cases (s : List (BitVec 8)) :
    (lineLen s = (s.length % 2 ^ 32 : ℕ) ∧ s.length % 2 ^ 32 < 2 ^ 31) ∨
      (lineLen s < 0 ∧ 2 ^ 31 ≤ s.length % 2 ^ 32) := by
  have htoNat : (BitVec.ofNat 32 s.length).toNat = s.length % 2 ^ 32 := BitVec.toNat_ofNat _ _
  have hlt : s.length % 2 ^ 32 < 2 ^ 32 := Nat.mod_lt _ (by decide)
  rw [lineLen, BitVec.toInt_eq_toNat_cond, htoNat]
  split_ifs with hsign
  · exact .inl ⟨rfl, by omega⟩
  · exact .inr ⟨by omega, by omega⟩

theorem consoleLine_typed (h : st.uartBuf[0]? = some 0) (hcolon : s.head? ≠ some colon)
    (hlen : lineLen s ≠ 0) : st.consoleLine s = st.typeLine s := by
  rw [consoleLine, if_neg hlen, if_neg hcolon, h]
  rfl

/-- A line that leaves room for the newline. -/
theorem typeLine_short (hsize : st.uartBuf.length = 128) (hlen : lineLen s = n) (hn : n < 128)
    (hle : n ≤ s.length) :
    st.typeLine s = some { st with
      uartBuf := s.take n ++ newline :: st.uartBuf.drop (n + 1) } := by
  have hchars : (s.take n).length = n := List.length_take_of_le hle
  have hend : ∀ buf, endLine buf n = Buffer.writeAll buf (0 + (s.take n).length) [newline] := by
    intro buf
    rw [endLine, if_neg (by omega), if_pos (Int.natCast_nonneg n), Int.toNat_natCast, hchars,
      Nat.zero_add, Buffer.writeAll]
    exact (Option.bind_fun_some _).symm
  have hcut : (min (n : ℤ) 128).toNat = n := by omega
  have hwhole : Buffer.writeAll st.uartBuf 0 (s.take n ++ [newline]) =
      some (s.take n ++ newline :: st.uartBuf.drop (n + 1)) := by
    have hroom : 0 + (s.take n ++ [newline]).length ≤ st.uartBuf.length := by
      rw [List.length_append, hchars, List.length_singleton]
      omega
    rw [Buffer.writeAll_eq hroom, Buffer.overlay, List.take_zero, List.nil_append,
      List.append_assoc, List.length_append, hchars, Nat.zero_add]
    rfl
  rw [Buffer.writeAll_append] at hwhole
  simp only [typeLine, hlen, hcut, hend, hwhole, Option.map_some]

/-- A line that fills `uart_buf`. -/
theorem typeLine_long (hsize : st.uartBuf.length = 128) (hlen : 128 ≤ lineLen s)
    (hle : lineLen s ≤ s.length) :
    st.typeLine s = some { st with uartBuf := (s.take 128).set 127 newline } := by
  have hchars : (s.take 128).length = 128 := List.length_take_of_le (by omega)
  have hcut : (min (lineLen s) 128).toNat = 128 := by omega
  have hwrite : Buffer.writeAll st.uartBuf 0 (s.take 128) = some (s.take 128) := by
    rw [Buffer.writeAll_eq (by omega), Buffer.overlay, hchars, Nat.zero_add,
      List.drop_of_length_le hsize.le, List.take_zero, List.nil_append, List.append_nil]
  have hend : endLine (s.take 128) (lineLen s) = some ((s.take 128).set 127 newline) := by
    rw [endLine, if_pos hlen, Buffer.write, if_pos (by omega)]
  simp only [typeLine, hcut, hwrite, Option.bind_some, hend, Option.map_some]

/-- The index of the newline is negative. -/
theorem typeLine_negative (hlen : lineLen s < 0) : st.typeLine s = none := by
  have hend : ∀ buf, endLine buf (lineLen s) = none := by
    intro buf
    rw [endLine, if_neg (by omega), if_neg (by omega)]
  simp only [typeLine, hend, Option.bind_fun_none, Option.map_none]

/-! ### `plat_update` -/

theorem platUpdate_none (h : Buffer.strlen 0 st.uartBuf = none) :
    st.platUpdate stimecmp d = none := by
  rw [platUpdate, h]
  rfl

theorem platUpdate_some (h : Buffer.strlen 0 st.uartBuf = some n) :
    st.platUpdate stimecmp d = some
      ({ st with timeirq := false, uartBuf := List.replicate n 0 ++ st.uartBuf.drop n },
        d.platUpdate (if st.timeirq then some stimecmp else none) (st.uartBuf.take n)) := by
  have hfill : Buffer.fillDown 0 st.uartBuf n =
      some (List.replicate n 0 ++ st.uartBuf.drop n) := Buffer.fillDown_eq (Buffer.strlen_lt h).le
  simp only [platUpdate, h, bind, Option.bind_some, hfill]
  rfl

theorem queue_platUpdate (hring : d.uart.InRing) (hqueue : d.uart.queue = [])
    (timeirq : Option (BitVec 64)) (keys : List (BitVec 8)) :
    (d.platUpdate timeirq keys).uart.queue = keys.take 127 := by
  have htyped := (hring.keyboardInput keys).2
  rw [hqueue, List.nil_append] at htyped
  exact Uart.sameRing_uartIrq.queue.trans htyped

/-- What a line left in `uart_buf` is delivered when its string is the line. -/
theorem delivers_iff {st' : SharedState} (h : st.ReadyForLine d)
    (hline : st.consoleLine s = some st') (hsize : st'.uartBuf.length = 128) :
    st.Delivers stimecmp d s ↔ ∃ n, Buffer.strlen 0 st'.uartBuf = some n ∧
      st'.uartBuf.take n = s.take 126 ++ [newline] ∧ ∀ c ∈ st'.uartBuf.drop n, c = 0 := by
  have hzero : ∀ {n}, Buffer.strlen 0 st'.uartBuf = some n →
      (List.replicate n 0 ++ st'.uartBuf.drop n = List.replicate 128 0 ↔
        ∀ c ∈ st'.uartBuf.drop n, c = 0) := by
    intro n hn
    have hlt := Buffer.strlen_lt hn
    have hlen : (List.replicate n 0 ++ st'.uartBuf.drop n).length = 128 := by
      rw [List.length_append, List.length_replicate, List.length_drop]
      omega
    rw [List.eq_replicate_iff, and_iff_right hlen, List.forall_mem_append, and_iff_right]
    exact fun c hc => List.eq_of_mem_replicate hc
  have hkeys : ∀ {n}, Buffer.strlen 0 st'.uartBuf = some n →
      (st'.uartBuf.take n).take 127 = st'.uartBuf.take n := by
    intro n hn
    have hlt := Buffer.strlen_lt hn
    rw [List.take_take, Nat.min_eq_right (by omega)]
  unfold Delivers lineThenUpdate
  rw [hline, Option.bind_some]
  cases hlen : Buffer.strlen 0 st'.uartBuf with
  | none => simp [platUpdate_none hlen]
  | some n =>
    simp only [platUpdate_some hlen, Option.some.injEq, exists_eq_left',
      queue_platUpdate h.ring h.queue, hkeys hlen, hzero hlen]

/-! ### Delivery -/

theorem IsTyped.first_newline (hs : IsTyped s) (n : ℕ) (rest : List (BitVec 8)) :
    Buffer.strlen newline (s.take n ++ newline :: rest) = some (min n s.length) := by
  rw [Buffer.strlen_append fun h => hs.noNewline (List.mem_of_mem_take h), List.length_take]

/-- The string of a buffer that holds a line and then a terminator. -/
theorem IsTyped.strlen_line (hs : IsTyped s) (n : ℕ) (rest : List (BitVec 8)) :
    Buffer.strlen 0 (s.take n ++ [newline] ++ 0 :: rest) =
      some (s.take n ++ [newline]).length := by
  apply Buffer.strlen_append
  intro h
  rcases List.mem_append.mp h with h | h
  · exact hs.noNul (List.mem_of_mem_take h)
  · exact absurd (List.mem_singleton.mp h) (by decide)

/-- Behind a line that leaves room for the newline the rest of `uart_buf` decides. -/
theorem short_line_iff (hs : IsTyped s) (hn : n < 128) (hle : n ≤ s.length)
    {rest : List (BitVec 8)} (hrest : rest.length = 127 - n) :
    (∃ k, Buffer.strlen 0 (s.take n ++ newline :: rest) = some k ∧
      (s.take n ++ newline :: rest).take k = s.take 126 ++ [newline] ∧
        ∀ c ∈ (s.take n ++ newline :: rest).drop k, c = 0) ↔
      n = min s.length 126 ∧ ∀ c ∈ rest, c = 0 := by
  have hline : s.take n ++ newline :: rest = (s.take n ++ [newline]) ++ rest := by simp
  have hlen : (s.take n ++ [newline]).length = n + 1 := by
    rw [List.length_append, List.length_take_of_le hle, List.length_singleton]
  constructor
  · rintro ⟨k, hk, hqueue, hzero⟩
    have hlt := Buffer.strlen_lt hk
    have hwhole : s.take n ++ newline :: rest =
        s.take 126 ++ newline :: (s.take n ++ newline :: rest).drop k := by
      conv_lhs => rw [← List.take_append_drop k (s.take n ++ newline :: rest), hqueue]
      rw [List.append_assoc, List.singleton_append]
    -- both sides have their first newline at the end of the line
    have hfirst : min n s.length = min 126 s.length := by
      have hnewline := hs.first_newline n rest
      rw [hwhole, hs.first_newline] at hnewline
      exact (Option.some.inj hnewline).symm
    have hstop := congrArg List.length hqueue
    rw [List.length_take_of_le hlt.le, List.length_append, List.length_take,
      List.length_singleton] at hstop
    have hend : k = n + 1 := by omega
    refine ⟨by omega, ?_⟩
    rwa [hline, hend, ← hlen, List.drop_left] at hzero
  · rintro ⟨hfit, hzero⟩
    obtain ⟨c, rest, rfl⟩ := List.exists_cons_of_length_pos (l := rest) (by omega)
    obtain rfl : c = 0 := hzero c List.mem_cons_self
    have htake : s.take n = s.take 126 := List.take_eq_take_iff.mpr (by omega)
    rw [hline]
    refine ⟨_, hs.strlen_line n rest, ?_, ?_⟩
    · rw [List.take_left, htake]
    · rwa [List.drop_left]

/-- The console drops a line that has no characters by its count. -/
theorem not_delivers_dropped (h : st.ReadyForLine d) (hlen : lineLen s = 0) :
    ¬ st.Delivers stimecmp d s := by
  have hline : st.consoleLine s = some st := if_pos hlen
  have hnul : Buffer.strlen 0 st.uartBuf = some 0 := by
    have hpos : 0 < st.uartBuf.length := by
      rw [h.size]
      decide
    obtain ⟨c, rest, hbuf⟩ := List.exists_cons_of_length_pos hpos
    have hfirst := h.first
    rw [hbuf, List.getElem?_cons_zero, Option.some.injEq] at hfirst
    rw [hbuf, hfirst]
    exact Buffer.strlen_append List.not_mem_nil rest
  rw [delivers_iff h hline h.size, hnul]
  rintro ⟨n, hn, hqueue, -⟩
  obtain rfl := Option.some.inj hn
  exact List.append_ne_nil_of_right_ne_nil _ (List.cons_ne_nil _ _) hqueue.symm

theorem delivers_short_iff (h : st.ReadyForLine d) (hs : IsTyped s) (hlen : lineLen s = n)
    (hpos : 0 < n) (hn : n < 128) (hle : n ≤ s.length) :
    st.Delivers stimecmp d s ↔
      n = min s.length 126 ∧ ∀ c ∈ st.uartBuf.drop (n + 1), c = 0 := by
  have hrest : (st.uartBuf.drop (n + 1)).length = 127 - n := by
    rw [List.length_drop, h.size]
    omega
  have hsize : (s.take n ++ newline :: st.uartBuf.drop (n + 1)).length = 128 := by
    rw [List.length_append, List.length_take_of_le hle, List.length_cons, hrest]
    omega
  have hline := (consoleLine_typed h.first hs.notCommand (by omega)).trans
    (typeLine_short h.size hlen hn hle)
  rw [delivers_iff h hline hsize, short_line_iff hs hn hle hrest]

/-- A line that fills `uart_buf` leaves no terminator. -/
theorem not_delivers_long (h : st.ReadyForLine d) (hs : IsTyped s) (hlen : 128 ≤ lineLen s)
    (hle : lineLen s ≤ s.length) : ¬ st.Delivers stimecmp d s := by
  have hline := (consoleLine_typed h.first hs.notCommand (by omega)).trans
    (typeLine_long h.size hlen hle)
  have hnul : 0 ∉ (s.take 128).set 127 newline := by
    intro hmem
    rcases List.mem_or_eq_of_mem_set hmem with hmem | hmem
    · exact hs.noNul (List.mem_of_mem_take hmem)
    · exact absurd hmem (by decide)
  rintro ⟨r, hr, -⟩
  rw [lineThenUpdate, hline, Option.bind_some, platUpdate_none (Buffer.strlen_eq_none hnul)] at hr
  cases hr

theorem not_delivers_negative (h : st.ReadyForLine d) (hs : IsTyped s) (hlen : lineLen s < 0) :
    ¬ st.Delivers stimecmp d s := by
  have hline := (consoleLine_typed h.first hs.notCommand (by omega)).trans
    (typeLine_negative hlen)
  rintro ⟨r, hr, -⟩
  rw [lineThenUpdate, hline, Option.bind_none] at hr
  cases hr

/-- A typed line is delivered exactly when it fits. -/
theorem line_delivered_iff (stimecmp : BitVec 64) (h : st.ReadyForLine d) (hs : IsTyped s) :
    st.Delivers stimecmp d s ↔ st.Fits s := by
  have hpos : 0 < s.length := List.length_pos_iff.mpr hs.nonempty
  have hle : s.length % 2 ^ 32 ≤ s.length := Nat.mod_le _ _
  unfold Fits
  rcases lineLen_cases s with ⟨hlen, hlt⟩ | ⟨hlen, hge⟩
  · rcases Nat.eq_zero_or_pos (s.length % 2 ^ 32) with hzero | hsome
    · exact iff_of_false (not_delivers_dropped h (by omega)) fun hfits => by omega
    · by_cases hroom : s.length % 2 ^ 32 < 128
      · have hfit : s.length % 2 ^ 32 = min s.length 126 ↔
            s.length ≤ 126 ∨ s.length % 2 ^ 32 = 126 := by omega
        rw [delivers_short_iff h hs hlen hsome hroom hle, ← hfit]
        exact and_congr_right fun heq => by rw [heq]
      · exact iff_of_false (not_delivers_long h hs (by omega) (by omega)) fun hfits => by omega
  · exact iff_of_false (not_delivers_negative h hs hlen) fun hfits => by omega

/-- The buffers at the start. -/
theorem readyForLine_init : ({} : SharedState).ReadyForLine {} := by
  have hring : ({} : LinuxDev).uart.InRing := ⟨by decide, by decide⟩
  exact ⟨rfl, rfl, hring, hring.queue_eq_nil_iff.mpr rfl⟩

theorem short_line_delivered : ({} : SharedState).Delivers 0 {} (text ['h', 'i']) :=
  (line_delivered_iff 0 readyForLine_init ⟨by decide, by decide, by decide, by decide⟩).mpr
    ⟨by decide, fun _ hc => List.eq_of_mem_replicate (List.mem_of_mem_drop hc)⟩

/-- A line of 127 characters takes the place of the terminator. -/
theorem line_127_not_delivered :
    ({} : SharedState).ReadyForLine {} ∧ IsTyped (List.replicate 127 0x61) ∧
      ¬ ({} : SharedState).Delivers 0 {} (List.replicate 127 0x61) := by
  have hs : IsTyped (List.replicate 127 0x61) :=
    ⟨by decide, by decide, fun h => absurd (List.eq_of_mem_replicate h) (by decide),
      fun h => absurd (List.eq_of_mem_replicate h) (by decide)⟩
  have hlen : lineLen (List.replicate 127 0x61) = (127 : ℕ) := by
    rw [lineLen, List.length_replicate]
    decide
  refine ⟨readyForLine_init, hs, ?_⟩
  rw [delivers_short_iff readyForLine_init hs hlen (by decide) (by decide)
    (List.length_replicate ▸ le_refl 127), List.length_replicate]
  exact fun h => absurd h.1 (by decide)

end SharedState

end Turtle
