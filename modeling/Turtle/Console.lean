import Turtle.Lib.Buffer
import Turtle.Lib.Clocked
import Turtle.Platforms

/-!
# The console and the testbench

`run_ui_console` of `utils.hpp` reads lines in a process of its own and leaves its requests
in a `SharedState`. `tb.hpp` takes them from there: `next_cycle` decides at each tick of the
clock whether the machine runs, and `plat_update` passes typed lines to the UART. What they
print is not modelled. A line that starts with a colon is a command.
-/

namespace Turtle

/-- `SharedState`, which `setup_shared_memory` sets to zero. -/
structure SharedState where
  forceRun : Bool := false
  timeirq : Bool := false
  forceStop : Bool := false
  breakpoint : Bool := false
  start : Bool := false
  brkPc : BitVec 32 := 0
  newStepCycles : BitVec 32 := 0
  newPrintCycles : BitVec 32 := 0
  uartBuf : List (BitVec 8) := List.replicate 128 0
  deriving DecidableEq, Repr

/-! ### Commands -/

/-- The bytes of a text. -/
def text (cs : List Char) : List (BitVec 8) := cs.map fun c => BitVec.ofNat 8 c.toNat

/-- The byte `':'`. -/
def colon : BitVec 8 := 0x3a

/-- The byte `' '`. -/
def space : BitVec 8 := 0x20

/-- The byte `'\n'`. -/
def newline : BitVec 8 := 0x0a

/-- `isspace` in the C locale. -/
def isSpace (c : BitVec 8) : Bool := c == space || (decide (9 ≤ c) && decide (c ≤ 13))

/-- `isdigit`. -/
def isDigit (c : BitVec 8) : Bool := decide (0x30 ≤ c) && decide (c ≤ 0x39)

/-- The number that digits stand for. -/
def digitsVal (ds : List (BitVec 8)) : ℕ := ds.foldl (fun n d => 10 * n + (d - 0x30).toNat) 0

/-- `std::stoull` with base 10; `none` where it throws. A minus sign negates modulo `2 ^ 64`. -/
def stoull (s : List (BitVec 8)) : Option (BitVec 64) :=
  let s := s.dropWhile isSpace
  let neg := s.head? == some 0x2d
  let s := if neg || s.head? == some 0x2b then s.tail else s
  let ds := s.takeWhile isDigit
  if ds = [] ∨ 2 ^ 64 ≤ digitsVal ds then none
  else some (if neg then -(BitVec.ofNat 64 (digitsVal ds)) else BitVec.ofNat 64 (digitsVal ds))

/-- The loop that cuts a command line into words; `tmp` is the word that was begun. -/
def splitCommands (tmp : List (BitVec 8)) : List (BitVec 8) → List (List (BitVec 8))
  | [] => if 0 < tmp.length then [tmp] else []
  | c :: s =>
    if c = space ∨ c = newline then tmp :: splitCommands [] s else splitCommands (tmp ++ [c]) s

namespace SharedState

/-- The commands by name, with their second word as a number. -/
def apply (st : SharedState) (name : List (BitVec 8)) (arg2 : BitVec 64) : SharedState :=
  if name = text ['b'] ∧ 0 < arg2 then { st with breakpoint := true, brkPc := arg2.setWidth 32 }
  else if name = text ['d'] then { st with breakpoint := false }
  else if name = text ['c'] then { st with forceRun := true }
  else if name = text ['p'] ∧ 0 < arg2 then { st with newPrintCycles := arg2.setWidth 32 }
  else if name = text ['s', 't', 'o', 'p'] then { st with forceStop := true }
  else if name = text ['s', 't', 'e', 'p'] ∧ 0 < arg2 then
    { st with newStepCycles := arg2.setWidth 32 }
  else if name = text ['r'] then { st with forceRun := true, start := true }
  else if name = text ['t', 'i', 'm', 'e', 'i', 'r', 'q'] then { st with timeirq := true }
  else st

/-- A command line, without its colon. -/
def command (st : SharedState) (s : List (BitVec 8)) : SharedState :=
  match splitCommands [] s with
  | [] => st
  | [name] => st.apply name 0
  | name :: word :: _ => st.apply name ((stoull word).getD 0)

/-- `int len = s.size()`. -/
def lineLen (s : List (BitVec 8)) : ℤ := (BitVec.ofNat 32 s.length).toInt

/-- The newline that ends a line in `uart_buf`. -/
def endLine (buf : List (BitVec 8)) (len : ℤ) : Option (List (BitVec 8)) :=
  if 128 ≤ len then Buffer.write buf 127 newline
  else if 0 ≤ len then Buffer.write buf len.toNat newline
  else none

/-- A line for the UART: its characters and a newline go to `uart_buf`. -/
def typeLine (st : SharedState) (s : List (BitVec 8)) : Option SharedState :=
  let buf := (Buffer.writeAll st.uartBuf 0 (s.take (min (lineLen s) 128).toNat)).bind fun buf =>
    endLine buf (lineLen s)
  buf.map fun buf => { st with uartBuf := buf }

/-- The body of the loop of `run_ui_console`; `none` is an access outside a buffer. -/
def consoleLine (st : SharedState) (s : List (BitVec 8)) : Option SharedState :=
  if lineLen s = 0 then some st
  else if s.head? = some colon then some (st.command ((s.take (lineLen s).toNat).drop 1))
  else st.uartBuf[0]?.bind fun c => if c = 0 then st.typeLine s else some st

end SharedState

/-! ### The testbench -/

/-- `TB_State`, less the pointer to the shared state. `state` is up while the machine runs. -/
structure TbState where
  state : Bool := false
  stepCycles : ℤ := 0
  printCycles : BitVec 32 := 0
  deriving DecidableEq, Repr

namespace TbState

/-- New step and print counts are taken over. A step count is converted to `int`. -/
def load (tb : TbState) (st : SharedState) : TbState :=
  { tb with
    stepCycles := if 0 < st.newStepCycles then st.newStepCycles.toInt else tb.stepCycles
    printCycles := if 0 < st.newPrintCycles then st.newPrintCycles else tb.printCycles }

/-- The run state: the two branches of `next_cycle`. -/
def switch (tb : TbState) (st : SharedState) (pc : BitVec 32) : TbState :=
  if tb.state = false then
    if st.forceRun then { tb with state := true, stepCycles := -1 }
    else if 0 < tb.stepCycles then { tb with state := true }
    else tb
  else if st.forceStop then { tb with state := false, stepCycles := 0 }
  else if st.breakpoint ∧ st.brkPc = pc then { tb with state := false }
  else if tb.stepCycles = 0 then { tb with state := false }
  else tb

/-- The counters go down with a cycle that runs. -/
def count (tb : TbState) : TbState :=
  { tb with
    printCycles :=
      if 0 < tb.printCycles then tb.printCycles - (if tb.state then 1 else 0) else tb.printCycles
    stepCycles :=
      if 0 < tb.stepCycles then tb.stepCycles - (if tb.state then 1 else 0) else tb.stepCycles }

/-- `next_cycle`, which returns its `state`. -/
def nextCycle (tb : TbState) (st : SharedState) (pc : BitVec 32) : TbState :=
  ((tb.load st).switch st pc).count

end TbState

/-- The requests that `next_cycle` resets. -/
def SharedState.taken (st : SharedState) : SharedState :=
  { st with newStepCycles := 0, newPrintCycles := 0, forceRun := false, forceStop := false }

/-- `plat_update`. `stimecmp` is what the two halves of the register hold; `none` is an access
outside `uart_buf`. -/
def SharedState.platUpdate (stimecmp : BitVec 64) (st : SharedState) (d : LinuxDev) :
    Option (SharedState × LinuxDev) := do
  let len ← Buffer.strlen 0 st.uartBuf
  let d := d.platUpdate (if st.timeirq then some stimecmp else none) (st.uartBuf.take len)
  let buf ← Buffer.fillDown 0 st.uartBuf len
  return ({ st with timeirq := false, uartBuf := buf }, d)

/-! ### Sessions -/

/-- The state that the console and the testbench share, and that of the testbench. -/
structure Session where
  share : SharedState := {}
  tb : TbState := {}
  deriving DecidableEq, Repr

/-- What can happen in a session: a command, without its colon, a tick of the clock while EX
has a pc, and what typed lines and `plat_update` do to the fields that are theirs. -/
inductive SessionEvent
  | command (s : List (BitVec 8))
  | tick (pc : BitVec 32)
  | uart (uartBuf : List (BitVec 8)) (timeirq : Bool)

/-- A call of `next_cycle`. -/
def SessionEvent.isTick : SessionEvent → Bool
  | .tick _ => true
  | _ => false

namespace Session

/-- The session after an event. -/
def step (m : Session) : SessionEvent → Session
  | .command s => { m with share := m.share.command s }
  | .tick pc => { share := m.share.taken, tb := m.tb.nextCycle m.share pc }
  | .uart uartBuf timeirq => { m with share := { m.share with uartBuf, timeirq } }

/-- What a call of `next_cycle` returns. -/
def result (m : Session) : SessionEvent → Option Bool
  | .tick pc => some (m.tb.nextCycle m.share pc).state
  | _ => none

/-- What the calls of `next_cycle` return along a run. -/
def returns (m : Session) (es : List SessionEvent) : List Bool :=
  (Clocked.trace step result m es).reduceOption

/-- A line of the console is an event of the session, as long as it stays inside `uart_buf`. -/
theorem consoleLine_step {m : Session} {s : List (BitVec 8)} {st : SharedState}
    (h : m.share.consoleLine s = some st) :
    ∃ e, m.result e = none ∧ m.step e = { m with share := st } := by
  unfold SharedState.consoleLine at h
  split_ifs at h with hempty hcolon
  · obtain rfl := Option.some.inj h
    exact ⟨.uart m.share.uartBuf m.share.timeirq, rfl, rfl⟩
  · obtain rfl := Option.some.inj h
    exact ⟨.command _, rfl, rfl⟩
  · obtain ⟨c, -, hc⟩ := Option.bind_eq_some_iff.mp h
    split_ifs at hc
    · obtain ⟨buf, -, rfl⟩ := Option.map_eq_some_iff.mp hc
      exact ⟨.uart buf m.share.timeirq, rfl, rfl⟩
    · obtain rfl := Option.some.inj hc
      exact ⟨.uart m.share.uartBuf m.share.timeirq, rfl, rfl⟩

/-- So is `plat_update`. -/
theorem platUpdate_step {m : Session} {stimecmp : BitVec 64} {d : LinuxDev}
    {r : SharedState × LinuxDev} (h : m.share.platUpdate stimecmp d = some r) :
    ∃ e, m.result e = none ∧ m.step e = { m with share := r.1 } := by
  obtain ⟨len, -, hlen⟩ := Option.bind_eq_some_iff.mp h
  obtain ⟨buf, -, hr⟩ := Option.bind_eq_some_iff.mp hlen
  obtain rfl := Option.some.inj hr
  exact ⟨.uart buf false, rfl, rfl⟩

end Session

end Turtle
