import Turtle.Ram
import Turtle.Signals

/-!
# The memory controller

`Memory` of `memory.hpp`: `mem_access` answers a data request and `update_memory`
carries out its effect at the next clock edge. The controller sees its devices as
a list that holds the RAM and any peripherals; `δ` is the state of the peripherals.
-/

namespace Turtle

/-- `amo_op`. -/
def amoOp (amoop : BitVec 8) (a b : BitVec 32) : BitVec 32 :=
  match amoop with
  | 2#8 => a
  | 3#8 => a + b
  | 4#8 => a ^^^ b
  | 5#8 => a &&& b
  | 6#8 => a ||| b
  | 7#8 => if b.slt a then b else a
  | 8#8 => if a.slt b then b else a
  | 9#8 => if b < a then b else a
  | 10#8 => if a < b then b else a
  | _ => 0

/-- A `Device` other than the RAM, as a view of the peripherals' state. -/
structure Peripheral (δ : Type) where
  base : BitVec 32
  top : BitVec 32
  read : BitVec 32 → δ → BitVec 8 × δ
  write : BitVec 32 → BitVec 8 → δ → δ

/-- An element of `devices`. -/
inductive Device (δ : Type)
  | ram
  | other (p : Peripheral δ)

/-- The state of `Memory`. -/
structure Memory (δ : Type) where
  ram : Ram
  dev : δ

namespace Device

variable {δ : Type}

/-- The test `dev->base <= addr && addr <= dev->top`. -/
def covers (m : Memory δ) (addr : BitVec 32) : Device δ → Bool
  | ram => decide (m.ram.base ≤ addr) && decide (addr ≤ m.ram.top)
  | other p => decide (p.base ≤ addr) && decide (addr ≤ p.top)

/-- `dev->read`. -/
def read (m : Memory δ) (addr : BitVec 32) : Device δ → BitVec 8 × Memory δ
  | ram =>
    let r := m.ram.read addr
    (r.1, { m with ram := r.2 })
  | other p =>
    let r := p.read addr m.dev
    (r.1, { m with dev := r.2 })

/-- `dev->write`. -/
def write (m : Memory δ) (addr : BitVec 32) (val : BitVec 8) : Device δ → Memory δ
  | ram => { m with ram := m.ram.write addr val }
  | other p => { m with dev := p.write addr val m.dev }

end Device

namespace Memory

variable {δ : Type} (devices : List (Device δ))

/-- `Memory::inst_fetch`. -/
def instFetch (m : Memory δ) (iin : ImemIn) : MemOut × Memory δ :=
  if iin.imemReqAck then
    if iin.imemAddr &&& 1 == 0 then
      let r := m.ram.fetch iin.imemAddr
      ({ memRspAck := true, memRspRdata := r.1 }, { m with ram := r.2 })
    else ({ memRspAck := true, memRspFault := 1 }, m)
  else ({}, m)

/-- `device_address`: the request starts or ends in the UART or in the CLINT. -/
def deviceAddress (addr : BitVec 32) (size : BitVec 8) : Bool :=
  let last := addr + size.setWidth 32
  (decide (0x10000000 ≤ addr) && decide (addr < 0x10000100)) ||
    (decide (0x10000000 ≤ last) && decide (last < 0x10000100)) ||
    (decide (0x20000000 ≤ addr) && decide (addr < 0x20010000)) ||
    (decide (0x20000000 ≤ last) && decide (last < 0x20010000))

/-- The indices of the read loops, from the last byte to the first. -/
def downFrom (size : BitVec 8) : List (BitVec 32) :=
  (List.range size.toNat).reverse.map (BitVec.ofNat 32)

/-- The indices of the write loops. -/
def upTo (size : BitVec 8) : List (BitVec 32) := (List.range size.toNat).map (BitVec.ofNat 32)

/-- The loop over `ram.read` that answers `LR_W` and the AMOs. -/
def readRam (m : Memory δ) (addr : BitVec 32) (size : BitVec 8) : BitVec 32 × Memory δ :=
  (downFrom size).foldl (fun acc i =>
    let r := acc.2.ram.read (addr + i)
    ((acc.1 <<< 8) ||| r.1.setWidth 32, { acc.2 with ram := r.2 })) (0, m)

/-- One byte of a load: every device whose range holds the address is read. -/
def loadByte (acc : BitVec 32 × Memory δ) (addr : BitVec 32) : BitVec 32 × Memory δ :=
  devices.foldl (fun acc dev =>
    if dev.covers acc.2 addr then
      let r := dev.read acc.2 addr
      (acc.1 ||| r.1.setWidth 32, r.2)
    else acc) (acc.1 <<< 8, acc.2)

/-- `Memory::mem_access`. -/
def memAccess (m : Memory δ) (din : DmemIn) : MemOut × Memory δ :=
  if din.dmemReqAck then
    if din.dmemIsAmo && din.dmemAddr &&& 3 == 0 then
      if deviceAddress din.dmemAddr din.dmemSize then
        ({ memRspAck := true, memRspRdata := 0, memRspFault := 1 }, m)
      else if din.dmemAmoop = 1 then
        let r := m.ram.amoSc din.dmemAddr
        ({ memRspAck := true, memRspRdata := if r.1 then 1 else 0 }, { m with ram := r.2 })
      else
        let r := m.readRam din.dmemAddr din.dmemSize
        ({ memRspAck := true, memRspRdata := r.1 }, r.2)
    else if din.dmemIsLoad then
      let r := (downFrom din.dmemSize).foldl (fun acc i => loadByte devices acc (din.dmemAddr + i))
        (0, m)
      ({ memRspAck := true, memRspRdata := r.1 }, r.2)
    else if din.dmemIsStore then ({ memRspAck := true }, m)
    else ({ memRspAck := true, memRspFault := 1 }, m)
  else ({}, m)

/-- A write loop: the bytes of `wdata` go to `write`, lowest first. -/
def writeBytes {μ : Type} (write : μ → BitVec 32 → BitVec 8 → μ) (m : μ) (addr : BitVec 32)
    (size : BitVec 8) (wdata : BitVec 32) : μ :=
  ((upTo size).foldl (fun (acc : BitVec 32 × μ) i =>
    (acc.1 >>> 8, write acc.2 (addr + i) (acc.1.setWidth 8))) (wdata, m)).2

/-- One byte of a store: the first device whose range holds the address takes it. -/
def storeByte (m : Memory δ) (addr : BitVec 32) (val : BitVec 8) : Memory δ :=
  match devices.find? (·.covers m addr) with
  | some dev => dev.write m addr val
  | none => m

/-- One cycle of `Memory::update_memory`. -/
def updateMemory (m : Memory δ) (din : DmemIn) (dout : MemOut) : Memory δ :=
  if dout.memRspAck && dout.memRspFault == 0 then
    if din.dmemIsAmo then
      if din.dmemAmoop = 0 then
        { m with
          ram := (upTo din.dmemSize).foldl (fun ram i => ram.amoLr (din.dmemAddr + i)) m.ram }
      else if din.dmemAmoop = 1 then
        if dout.memRspRdata = 0 then
          { m with ram := writeBytes Ram.write m.ram din.dmemAddr din.dmemSize din.dmemWdata }
        else m
      else
        { m with
          ram := writeBytes Ram.write m.ram din.dmemAddr din.dmemSize
            (amoOp din.dmemAmoop din.dmemWdata dout.memRspRdata) }
    else if din.dmemIsStore then
      writeBytes (storeByte devices) m din.dmemAddr din.dmemSize din.dmemWdata
    else m
  else m

/-! ### The write loops -/

/-- The state after the first `k` rounds of a write loop. -/
def afterBytes {μ : Type} (write : μ → BitVec 32 → BitVec 8 → μ) (m : μ) (addr wdata : BitVec 32) :
    ℕ → μ
  | 0 => m
  | k + 1 => write (afterBytes write m addr wdata k) (addr + BitVec.ofNat 32 k)
      ((wdata >>> (8 * k)).setWidth 8)

theorem writeBytes_eq {μ : Type} (write : μ → BitVec 32 → BitVec 8 → μ) (m : μ)
    (addr wdata : BitVec 32) (size : BitVec 8) :
    writeBytes write m addr size wdata = afterBytes write m addr wdata size.toNat := by
  have key (k : ℕ) : ((List.range k).map (BitVec.ofNat 32)).foldl (fun (acc : BitVec 32 × μ) i =>
      (acc.1 >>> 8, write acc.2 (addr + i) (acc.1.setWidth 8))) (wdata, m) =
      (wdata >>> (8 * k), afterBytes write m addr wdata k) := by
    induction k with
    | zero => rfl
    | succ k ih =>
      rw [List.range_succ, List.map_append, List.foldl_append, ih]
      simp only [List.map_cons, List.map_nil, List.foldl_cons, List.foldl_nil, afterBytes]
      rw [← BitVec.shiftRight_add, Nat.mul_succ]
  rw [writeBytes, upTo, key]

/-- The address `addr + k` is the one at distance `k`. -/
theorem eq_add_ofNat_iff {a addr : BitVec 32} {k : ℕ} (hk : k < 2 ^ 32) :
    a = addr + BitVec.ofNat 32 k ↔ (a - addr).toNat = k := by
  have hof : (BitVec.ofNat 32 k).toNat = k := by
    rw [BitVec.toNat_ofNat, Nat.mod_eq_of_lt hk]
  constructor
  · rintro rfl
    rw [add_sub_cancel_left, hof]
  · intro h
    have heq : a - addr = BitVec.ofNat 32 k := BitVec.eq_of_toNat_eq (by rw [h, hof])
    rw [← heq, BitVec.add_comm, BitVec.sub_add_cancel]

section Loops

variable {r : Ram} {a addr wdata : BitVec 32} {k : ℕ}

theorem afterBytes_byteAt (hk : k ≤ 2 ^ 32) :
    (afterBytes Ram.write r addr wdata k).byteAt a = if (a - addr).toNat < k then
      (wdata >>> (8 * (a - addr).toNat)).setWidth 8 else r.byteAt a := by
  induction k with
  | zero => rfl
  | succ k ih =>
    rw [afterBytes, Ram.write_byteAt, ih (by omega)]
    by_cases ha : (a - addr).toNat = k
    · rw [if_pos ((eq_add_ofNat_iff (by omega)).mpr ha), if_pos (by omega), ha]
    · rw [if_neg (fun h => ha ((eq_add_ofNat_iff (by omega)).mp h))]
      exact if_congr (by omega) rfl rfl

theorem afterBytes_wellFormed (h : r.WellFormed) :
    (afterBytes Ram.write r addr wdata k).WellFormed := by
  induction k with
  | zero => exact h
  | succ k ih => exact ih.write _ _

theorem afterBytes_reservedAt (h : r.WellFormed) (hk : k ≤ 2 ^ 32) :
    (afterBytes Ram.write r addr wdata k).reservedAt a =
      if (a - addr).toNat < k then false else r.reservedAt a := by
  induction k with
  | zero => rfl
  | succ k ih =>
    rw [afterBytes, (afterBytes_wellFormed h).write_reservedAt, ih (by omega)]
    by_cases ha : (a - addr).toNat = k
    · rw [if_pos ((eq_add_ofNat_iff (by omega)).mpr ha), if_pos (by omega)]
    · rw [if_neg (fun h => ha ((eq_add_ofNat_iff (by omega)).mp h))]
      exact if_congr (by omega) rfl rfl

theorem afterBytes_base : (afterBytes Ram.write r addr wdata k).base = r.base := by
  induction k with
  | zero => rfl
  | succ k ih => exact Ram.write_base.trans ih

theorem afterBytes_top : (afterBytes Ram.write r addr wdata k).top = r.top := by
  induction k with
  | zero => rfl
  | succ k ih => exact Ram.write_top.trans ih

/-- The loop of `LR_W` reserves the bytes of the word and changes nothing else. -/
theorem reserve_loop (addr : BitVec 32) (h : r.WellFormed) (hk : k ≤ 2 ^ 32) :
    let r' := ((List.range k).map (BitVec.ofNat 32)).foldl (fun ram i => ram.amoLr (addr + i)) r
    r'.WellFormed ∧ r'.byteAt = r.byteAt ∧ r'.base = r.base ∧ r'.top = r.top ∧
      ∀ a, r'.reservedAt a = if (a - addr).toNat < k then true else r.reservedAt a := by
  induction k with
  | zero => exact ⟨h, rfl, rfl, rfl, fun a => rfl⟩
  | succ k ih =>
    obtain ⟨hwf, hbytes, hbase, htop, hres⟩ := ih (by omega)
    rw [List.range_succ, List.map_append, List.foldl_append]
    refine ⟨hwf.amoLr _, Ram.amoLr_byteAt.trans hbytes, Ram.select_base.trans hbase,
      Ram.select_top.trans htop, fun a => ?_⟩
    rw [List.map_cons, List.map_nil, List.foldl_cons, List.foldl_nil, hwf.amoLr_reservedAt, hres]
    by_cases ha : (a - addr).toNat = k
    · rw [if_pos ((eq_add_ofNat_iff (by omega)).mpr ha), if_pos (by omega)]
    · rw [if_neg (fun h => ha ((eq_add_ofNat_iff (by omega)).mp h))]
      exact if_congr (by omega) rfl rfl

end Loops

/-! ### Answering a request -/

variable {devices} {m : Memory δ} {din : DmemIn} {addr : BitVec 32}

theorem read_sameView (h : m.ram.WellFormed) (dev : Device δ) :
    m.ram.SameView (dev.read m addr).2.ram := by
  cases dev with
  | ram => exact h.select_sameView addr
  | other p => exact h.sameView

theorem readRam_sameView (h : m.ram.WellFormed) (size : BitVec 8) :
    m.ram.SameView (m.readRam addr size).2.ram := by
  unfold readRam
  generalize (0 : BitVec 32) = v
  induction downFrom size generalizing m v with
  | nil => exact h.sameView
  | cons i is ih =>
    have hread := h.select_sameView (addr + i)
    exact hread.trans (ih (m := { m with ram := m.ram.select (addr + i) }) hread.wellFormed _)

theorem loadByte_sameView (h : m.ram.WellFormed) (v : BitVec 32) :
    m.ram.SameView (loadByte devices (v, m) addr).2.ram := by
  unfold loadByte
  generalize v <<< 8 = v
  induction devices generalizing m v with
  | nil => exact h.sameView
  | cons dev devs ih =>
    rw [List.foldl_cons]
    split_ifs
    · exact (read_sameView h dev).trans (ih (read_sameView h dev).wellFormed _)
    · exact ih h v

theorem load_sameView (h : m.ram.WellFormed) (v : BitVec 32) (is : List (BitVec 32)) :
    m.ram.SameView (is.foldl (fun acc i => loadByte devices acc (addr + i)) (v, m)).2.ram := by
  induction is generalizing m v with
  | nil => exact h.sameView
  | cons i is ih =>
    have hbyte : m.ram.SameView (loadByte devices (v, m) (addr + i)).2.ram :=
      loadByte_sameView h v
    exact hbyte.trans (ih hbyte.wellFormed _)

/-- Answering a request changes nothing that a later access to the RAM can see. -/
theorem memAccess_sameView (h : m.ram.WellFormed) :
    m.ram.SameView (memAccess devices m din).2.ram := by
  unfold memAccess
  split_ifs
  · exact h.sameView
  · exact h.select_sameView _
  · exact readRam_sameView h _
  · exact load_sameView h 0 _
  · exact h.sameView
  · exact h.sameView
  · exact h.sameView

/-- Every request is answered at once, and nothing else is. -/
theorem memAccess_ack : (memAccess devices m din).1.memRspAck = din.dmemReqAck := by
  unfold memAccess
  split_ifs with hreq <;> simp [hreq]

theorem memAccess_of_no_request (h : din.dmemReqAck = false) :
    memAccess devices m din = ({}, m) := by
  rw [memAccess, if_neg (by simp [h])]

/-- A load is answered without a fault. -/
theorem memAccess_load_fault (hload : din.dmemIsLoad = true) (hamo : din.dmemIsAmo = false) :
    (memAccess devices m din).1.memRspFault = 0 := by
  unfold memAccess
  simp only [hload, hamo, Bool.false_and, Bool.false_eq_true, if_false, if_true]
  split <;> rfl

/-- `update_memory` has something to carry out: a store, an AMO or a reservation. -/
def Applies (din : DmemIn) (dout : MemOut) : Prop :=
  dout.memRspAck = true ∧ dout.memRspFault = 0 ∧ (din.dmemIsStore = true ∨ din.dmemIsAmo = true)

theorem updateMemory_of_not_applies {dout : MemOut} (h : ¬ Applies din dout) :
    updateMemory devices m din dout = m := by
  unfold updateMemory
  split
  · rename_i hok
    rw [Bool.and_eq_true, beq_iff_eq] at hok
    split
    · exact absurd ⟨hok.1, hok.2, .inr ‹_›⟩ h
    · split
      · exact absurd ⟨hok.1, hok.2, .inl ‹_›⟩ h
      · rfl
  · rfl

end Memory

end Turtle
