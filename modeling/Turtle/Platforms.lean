import Turtle.Devices
import Turtle.Mmu.Data

/-!
# The two platforms

The testbenches give the memory controller its devices. A load reads every device
whose range holds the byte, a store goes to the first of them. On the Linux platform
the ranges are disjoint. On the one for architecture tests the RAM keeps the range of
its constructor, which is everything, so it overlaps the CLINT and the test device.
-/

namespace Turtle

namespace Device

variable {δ : Type}

/-- The devices whose `read` the load loop calls for a byte, in order. -/
def consulted (devices : List (Device δ)) (m : Memory δ) (addr : BitVec 32) : List (Device δ) :=
  devices.filter (·.covers m addr)

/-- Loads and stores of a byte go to one device, the same for both. -/
def RoutedAlike (devices : List (Device δ)) (m : Memory δ) (addr : BitVec 32) : Prop :=
  ∃ dev, consulted devices m addr = [dev] ∧ devices.find? (·.covers m addr) = some dev

variable {devices : List (Device δ)} {m : Memory δ} {addr : BitVec 32}

/-- Reading does not move the range of a device. -/
theorem read_covers (dev dev' : Device δ) (a : BitVec 32) :
    dev'.covers (dev.read m a).2 addr = dev'.covers m addr := by
  cases dev with
  | ram => cases dev' with
    | ram =>
      change (decide ((m.ram.select a).base ≤ addr) && decide (addr ≤ (m.ram.select a).top)) = _
      rw [Ram.select_base, Ram.select_top]
      rfl
    | other p' => rfl
  | other p => cases dev' <;> rfl

/-- One byte of a load reads the consulted devices, in order. -/
theorem loadByte_eq (v : BitVec 32) :
    Memory.loadByte devices (v, m) addr = (consulted devices m addr).foldl (fun acc dev =>
      let r := dev.read acc.2 addr
      (acc.1 ||| r.1.setWidth 32, r.2)) (v <<< 8, m) := by
  unfold Memory.loadByte consulted
  dsimp only
  generalize v <<< 8 = v
  induction devices generalizing m v with
  | nil => rfl
  | cons dev devs ih =>
    rw [List.foldl_cons]
    by_cases h : dev.covers m addr = true
    · have hsame : devs.filter (·.covers (dev.read m addr).2 addr) =
          devs.filter (·.covers m addr) := List.filter_congr fun d _ => read_covers dev d addr
      rw [if_pos h, List.filter_cons_of_pos h, List.foldl_cons, ih, hsame]
    · rw [if_neg h, List.filter_cons_of_neg h, ih]

/-- What a byte routed alike means for the two loops: the load gives what the device
reads, and the store is the write of the device. -/
theorem RoutedAlike.loops (h : RoutedAlike devices m addr) :
    ∃ dev ∈ devices, (∀ v, Memory.loadByte devices (v, m) addr =
      ((v <<< 8) ||| (dev.read m addr).1.setWidth 32, (dev.read m addr).2)) ∧
      ∀ val, Memory.storeByte devices m addr val = dev.write m addr val := by
  obtain ⟨dev, hload, hstore⟩ := h
  refine ⟨dev, List.mem_of_find?_eq_some hstore, fun v => ?_, fun val => ?_⟩
  · rw [loadByte_eq, hload]
    rfl
  · rw [Memory.storeByte, hstore]

/-- A byte is routed alike when a single device holds it. -/
theorem routedAlike_iff : RoutedAlike devices m addr ↔ (consulted devices m addr).length = 1 := by
  constructor
  · rintro ⟨dev, hload, -⟩
    rw [hload]
    rfl
  · intro h
    obtain ⟨dev, hload⟩ := List.length_eq_one_iff.mp h
    refine ⟨dev, hload, ?_⟩
    rw [← List.head?_filter]
    exact congrArg List.head? hload

/-- How many devices a list of ranges consults. -/
theorem length_consulted_cons (dev : Device δ) :
    (consulted (dev :: devices) m addr).length =
      (if dev.covers m addr then 1 else 0) + (consulted devices m addr).length := by
  unfold consulted
  rw [List.filter_cons]
  split
  · rw [List.length_cons]
    omega
  · omega

end Device

/-! ### The Linux platform -/

/-- The peripherals of `Testbench`. -/
structure LinuxDev where
  uart : Uart := {}
  clint : Clint := {}
  plic : Plic := {}

namespace LinuxDev

/-- The UART on the bus. -/
def uartPort : Peripheral LinuxDev where
  base := Uart.base
  top := Uart.top
  read addr d := let r := d.uart.read addr; (r.1, { d with uart := r.2 })
  write addr val d := { d with uart := d.uart.write addr val }

/-- The CLINT on the bus. -/
def clintPort : Peripheral LinuxDev where
  base := Clint.base
  top := Clint.top
  read addr d := let r := d.clint.read addr; (r.1, { d with clint := r.2 })
  write addr val d := { d with clint := d.clint.write addr val }

/-- The PLIC on the bus. -/
def plicPort (undef : BitVec 32 → BitVec 32) : Peripheral LinuxDev where
  base := Plic.base
  top := Plic.top
  read addr d := let r := d.plic.read undef addr; (r.1, { d with plic := r.2 })
  write addr val d := { d with plic := d.plic.write undef addr val }

/-- The list `devices` that the constructor of `Testbench` leaves. -/
def devices (undef : BitVec 32 → BitVec 32) : List (Device LinuxDev) :=
  [.ram, .other uartPort, .other clintPort, .other (plicPort undef)]

/-- The range of the RAM, which the constructor of `Testbench` sets. -/
def InPlace (m : Memory LinuxDev) : Prop := m.ram.base = 0x80000000 ∧ m.ram.top = -1

/-- `plat_update`: `timeirq` is the compare value to which the timer jumps on request,
`keys` what was typed since the last cycle. -/
def platUpdate (timeirq : Option (BitVec 64)) (keys : List (BitVec 8)) (d : LinuxDev) : LinuxDev :=
  let clint := { d.clint with mtime := timeirq.getD (d.clint.mtime + 1) }
  let irq := (d.uart.keyboardInput keys).uartIrq
  { uart := irq.2, clint := clint, plic := d.plic.update irq.1 }

end LinuxDev

/-! ### The platform for architecture tests -/

/-- The peripherals of `Testbench_RVARCHTEST`. -/
structure ArchTestDev where
  rvtest : RvTest := {}
  clint : Clint := {}

namespace ArchTestDev

/-- The test device on the bus. -/
def rvtestPort (tohost : BitVec 32) : Peripheral ArchTestDev where
  base := tohost
  top := RvTest.top tohost
  read _ d := let r := d.rvtest.read; (r.1, { d with rvtest := r.2 })
  write addr val d := { d with rvtest := d.rvtest.write tohost addr val }

/-- The CLINT on the bus. -/
def clintPort : Peripheral ArchTestDev where
  base := Clint.base
  top := Clint.top
  read addr d := let r := d.clint.read addr; (r.1, { d with clint := r.2 })
  write addr val d := { d with clint := d.clint.write addr val }

/-- The list `devices` that the constructor of `Testbench_RVARCHTEST` leaves. -/
def devices (tohost : BitVec 32) : List (Device ArchTestDev) :=
  [.other (rvtestPort tohost), .ram, .other clintPort]

/-- The range of the RAM, which stays the one of its constructor. -/
def InPlace (m : Memory ArchTestDev) : Prop := m.ram.base = 0 ∧ m.ram.top = -1

/-- The registers of the test device. -/
def InTest (tohost addr : BitVec 32) : Prop := tohost ≤ addr ∧ addr ≤ tohost + 4

instance (tohost addr : BitVec 32) : Decidable (InTest tohost addr) :=
  inferInstanceAs (Decidable (_ ∧ _))

/-- The registers of the CLINT. -/
def InClint (addr : BitVec 32) : Prop := Clint.base ≤ addr ∧ addr ≤ Clint.top

instance (addr : BitVec 32) : Decidable (InClint addr) := inferInstanceAs (Decidable (_ ∧ _))

end ArchTestDev

section

variable {addr : BitVec 32}

/-- The valid addresses, as numbers. -/
theorem isPmaValid_iff : isPmaValid addr = true ↔ 0x80000000 ≤ addr.toNat ∨
    (0x20000000 ≤ addr.toNat ∧ addr.toNat < 0x20010000) ∨
    (0x10000000 ≤ addr.toNat ∧ addr.toNat < 0x10000100) ∨
    (0x30000000 ≤ addr.toNat ∧ addr.toNat < 0x34000000) := by
  unfold isPmaValid
  simp [BitVec.le_def, BitVec.lt_def, or_assoc]

/-- A valid byte is in the range of exactly one device of the Linux platform. -/
theorem LinuxDev.length_consulted (undef : BitVec 32 → BitVec 32) {m : Memory LinuxDev}
    (hm : InPlace m) (hvalid : isPmaValid addr = true) :
    (Device.consulted (devices undef) m addr).length = 1 := by
  have hlt := addr.isLt
  rw [isPmaValid_iff] at hvalid
  unfold devices
  simp only [Device.length_consulted_cons, Device.covers, hm.1, hm.2, uartPort, clintPort, plicPort,
    Uart.base, Uart.top, Clint.base, Clint.top, Plic.base, Plic.top, BitVec.le_def,
    Bool.and_eq_true, decide_eq_true_eq]
  change _ + (_ + (_ + (_ + 0))) = 1
  split_ifs <;> simp_all <;> omega

/-- On the platform for architecture tests the RAM holds every byte. -/
theorem ArchTestDev.length_consulted (tohost : BitVec 32) {m : Memory ArchTestDev}
    (hm : InPlace m) : (Device.consulted (devices tohost) m addr).length = 1 ↔
      ¬ InTest tohost addr ∧ ¬ InClint addr := by
  unfold devices
  simp only [Device.length_consulted_cons, Device.covers, hm.1, hm.2, rvtestPort, clintPort,
    RvTest.top, Bool.and_eq_true, decide_eq_true_eq]
  have hall : (0 : BitVec 32) ≤ addr ∧ addr ≤ -1 := by
    have hlt := addr.isLt
    rw [BitVec.le_def, BitVec.le_def]
    change 0 ≤ addr.toNat ∧ addr.toNat ≤ 2 ^ 32 - 1
    omega
  rw [if_pos hall]
  change (if InTest tohost addr then 1 else 0) + (1 + ((if InClint addr then 1 else 0) + 0)) = 1 ↔ _
  split_ifs with htest hclint hclint
  · simp [htest]
  · simp [htest]
  · simp [hclint]
  · simp [htest, hclint]

end

open Device in
/-- On the Linux platform every valid byte is routed alike. On the one for
architecture tests this holds exactly of the valid bytes outside the test device
and the CLINT. -/
theorem routedAlike_on_platforms (undef : BitVec 32 → BitVec 32) (tohost addr : BitVec 32)
    (hvalid : isPmaValid addr = true) :
    (∀ m, LinuxDev.InPlace m → RoutedAlike (LinuxDev.devices undef) m addr) ∧
    (∀ m, ArchTestDev.InPlace m → (RoutedAlike (ArchTestDev.devices tohost) m addr ↔
      ¬ ArchTestDev.InTest tohost addr ∧ ¬ ArchTestDev.InClint addr)) := by
  constructor
  · intro m hm
    exact routedAlike_iff.mpr (LinuxDev.length_consulted undef hm hvalid)
  · intro m hm
    rw [routedAlike_iff]
    exact ArchTestDev.length_consulted tohost hm

/-- The memory of the architecture tests at start. -/
def ArchTestDev.memory : Memory ArchTestDev := { ram := Ram.init 0, dev := {} }

/-- The memory of the Linux platform at start. -/
def LinuxDev.memory : Memory LinuxDev := { ram := Ram.init 0x80000000, dev := {} }

/-- An interrupt register and a byte of the RAM are routed alike on their platforms. -/
theorem routedAlike_of_plic_and_ram :
    isPmaValid 0x30200004 = true ∧ isPmaValid 0x80000000 = true ∧
    Device.RoutedAlike (LinuxDev.devices fun _ => 0) LinuxDev.memory 0x30200004 ∧
    Device.RoutedAlike (ArchTestDev.devices 0x80001000) ArchTestDev.memory 0x80000000 :=
  ⟨by decide, by decide,
    (routedAlike_on_platforms (fun _ => 0) 0x80001000 0x30200004 (by decide)).1 _ ⟨rfl, rfl⟩,
    ((routedAlike_on_platforms (fun _ => 0) 0x80001000 0x80000000 (by decide)).2 _
      ⟨rfl, rfl⟩).mpr (by decide)⟩

/-- On the platform for architecture tests the lowest byte of `mtimecmp` is read from
the RAM and the CLINT together, and a store to it goes to the RAM. -/
theorem clint_not_routedAlike :
    isPmaValid 0x20004000 = true ∧
    ¬ Device.RoutedAlike (ArchTestDev.devices 0x80001000) ArchTestDev.memory 0x20004000 ∧
    (Device.consulted (ArchTestDev.devices 0x80001000) ArchTestDev.memory 0x20004000).length = 2 ∧
    (Memory.storeByte (ArchTestDev.devices 0x80001000) ArchTestDev.memory 0x20004000
      0xff).dev.clint.mtimecmp = 0 := by
  have htwo : (Device.consulted (ArchTestDev.devices 0x80001000) ArchTestDev.memory
      0x20004000).length = 2 := by decide
  refine ⟨by decide, fun h => ?_, htwo, by decide⟩
  rw [Device.routedAlike_iff, htwo] at h
  cases h

end Turtle
