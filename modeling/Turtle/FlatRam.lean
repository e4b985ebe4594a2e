import Turtle.Decoding
import Turtle.Loader
import Turtle.Platforms
import Turtle.Reservations

/-!
# The RAM is a flat memory

Segments are built on first use and are reached through a data pointer, through an
instruction pointer and, by the loaders, directly. None of this shows: fetches, loads,
stores, atomic accesses and image loads act on one flat memory of bytes that starts
with zeros.
-/

namespace Turtle

/-! ### Segments -/

namespace Ram

variable {r : Ram} {addr : BitVec 32} {k : ℕ}

theorem findSeg_toNat (addr : BitVec 32) :
    (findSeg addr).toNat = addr.toNat / 2 ^ 22 * 2 ^ 22 :=
  Bits.and_high_toNat addr (~~~(size - 1)) (by decide)

/-- Every address lies in its segment. -/
theorem sub_findSeg_lt (addr : BitVec 32) : addr - findSeg addr < size := by
  have hsub := BitVec.toNat_sub addr (findSeg addr)
  have hseg := findSeg_toNat addr
  have hlt := addr.isLt
  rw [BitVec.lt_def]
  change _ < 4194304
  omega

theorem toNat_add_of_aligned (h : addr.toNat % 4 = 0) (hk : k < 4) :
    (addr + BitVec.ofNat 32 k).toNat = addr.toNat + k := by
  have hlt := addr.isLt
  rw [BitVec.toNat_add, BitVec.toNat_ofNat]
  omega

/-- A word lies in one segment. -/
theorem findSeg_add (h : addr.toNat % 4 = 0) (hk : k < 4) :
    findSeg (addr + BitVec.ofNat 32 k) = findSeg addr := by
  apply BitVec.eq_of_toNat_eq
  rw [findSeg_toNat, findSeg_toNat, toNat_add_of_aligned h hk]
  omega

/-- The index with which `read`, `write`, `amo_sc` and `amo_lr` reach into a vector. -/
def dataIndex (r : Ram) (addr : BitVec 32) : BitVec 32 := addr - (r.select addr).dsegBase

/-- The index with which `fetch` reaches into a vector for a byte of a word. -/
def fetchIndex (r : Ram) (addr i : BitVec 32) : BitVec 32 := addr + i - (r.fetch addr).2.isegBase

/-- The index with which the loaders reach into a vector. -/
def loadIndex (acc : BitVec 32 × Ram) (addr : BitVec 32) (val : BitVec 8) : BitVec 32 :=
  addr - (loadByte acc addr val).1

theorem dataIndex_lt (r : Ram) (addr : BitVec 32) : r.dataIndex addr < size := by
  rw [dataIndex, select_dsegBase]
  exact sub_findSeg_lt addr

theorem fetch_isegBase : (r.fetch addr).2.isegBase = findSeg addr := by
  unfold fetch
  dsimp only
  split_ifs with h
  · rfl
  · exact not_not.mp h

theorem fetchIndex_lt (r : Ram) (h : addr.toNat % 4 = 0) (hk : k < 4) :
    r.fetchIndex addr (BitVec.ofNat 32 k) < size := by
  rw [fetchIndex, fetch_isegBase, ← findSeg_add h hk]
  exact sub_findSeg_lt _

theorem loadIndex_lt (acc : BitVec 32 × Ram) (addr : BitVec 32) (val : BitVec 8) :
    loadIndex acc addr val < size := by
  have hbase : (loadByte acc addr val).1 = findSeg addr := by
    unfold loadByte
    dsimp only
    split_ifs with h
    · rfl
    · exact not_not.mp h
  rw [loadIndex, hbase]
  exact sub_findSeg_lt addr

/-- A read returns the byte at the address. -/
theorem read_fst : (r.read addr).1 = r.byteAt addr := by
  have hsel : (r.select addr).byteAt addr = r.byteAt addr := congrFun select_byteAt addr
  rw [← hsel]
  unfold read byteAt dmem
  dsimp only
  rw [select_dsegBase]

/-- A fetch returns the word at the address. -/
theorem fetch_fst (h : addr.toNat % 4 = 0) :
    (r.fetch addr).1 = FlatMemory.load 32 r.byteAt addr 4 := by
  generalize hr' : (if r.isegBase ≠ findSeg addr then
    { r.buildSeg (findSeg addr) with isegBase := findSeg addr } else r) = r'
  have hfetch : (r.fetch addr).1 = [3, 2, 1, 0].foldl (fun (out : BitVec 32) (i : ℕ) =>
      (out <<< 8) ||| ((r'.segTable r'.isegBase).getD (fun _ => 0)
        (addr + BitVec.ofNat 32 i - r'.isegBase)).setWidth 32) 0 := by
    rw [← hr']
    rfl
  have hbase : r'.isegBase = findSeg addr := by
    rw [← hr']
    split_ifs with hne
    · rfl
    · exact not_not.mp hne
  have hbytes : r'.byteAt = r.byteAt := by
    rw [← hr']
    split_ifs
    · exact buildSeg_byteAt _
    · rfl
  have hbyte {i : ℕ} (hi : i < 4) : (r'.segTable r'.isegBase).getD (fun _ => 0)
      (addr + BitVec.ofNat 32 i - r'.isegBase) = r.byteAt (addr + BitVec.ofNat 32 i) := by
    rw [← hbytes, byteAt, hbase, findSeg_add h hi]
  rw [hfetch, FlatMemory.load_eq_foldl]
  change List.foldl _ 0 [3, 2, 1, 0] = List.foldl _ 0 [3, 2, 1, 0]
  simp only [List.foldl_cons, List.foldl_nil]
  rw [hbyte (by omega), hbyte (by omega), hbyte (by omega), hbyte (by omega)]

end Ram

/-! ### Words through the controller -/

namespace Memory

variable {δ : Type} {devices : List (Device δ)} {m : Memory δ} {addr wdata : BitVec 32}

/-- A read loop whose rounds shift in the byte at their address returns the word. -/
theorem readLoop_fst {step : BitVec 32 × Memory δ → BitVec 32 → BitVec 32 × Memory δ}
    {size : BitVec 8} (hwf : m.ram.WellFormed)
    (hstep : ∀ v m', ∀ i < size.toNat, m.ram.SameView m'.ram →
      (step (v, m') (BitVec.ofNat 32 i)).1 =
        (v <<< 8) ||| (m'.ram.byteAt (addr + BitVec.ofNat 32 i)).setWidth 32 ∧
      m'.ram.SameView (step (v, m') (BitVec.ofNat 32 i)).2.ram) :
    ((downFrom size).foldl step (0, m)).1 = FlatMemory.load 32 m.ram.byteAt addr size.toNat := by
  have key (is : List ℕ) (v : BitVec 32) (m' : Memory δ) (his : ∀ i ∈ is, i < size.toNat)
      (hview : m.ram.SameView m'.ram) :
      ((is.map (BitVec.ofNat 32)).foldl step (v, m')).1 = is.foldl (fun (v : BitVec 32) i =>
        (v <<< 8) ||| (m.ram.byteAt (addr + BitVec.ofNat 32 i)).setWidth 32) v := by
    induction is generalizing v m' with
    | nil => rfl
    | cons i is ih =>
      obtain ⟨hbyte, hview'⟩ := hstep v m' i (his i List.mem_cons_self) hview
      rw [hview.bytes] at hbyte
      rw [List.map_cons, List.foldl_cons, List.foldl_cons, ← hbyte]
      exact ih _ _ (fun j hj => his j (List.mem_cons_of_mem _ hj)) (hview.trans hview')
  rw [FlatMemory.load_eq_foldl, downFrom]
  refine key _ 0 m (fun i hi => ?_) hwf.sameView
  rw [List.mem_reverse, List.mem_range] at hi
  exact hi

/-- The read loop over the RAM. -/
theorem readRam_fst (hwf : m.ram.WellFormed) (size : BitVec 8) :
    (m.readRam addr size).1 = FlatMemory.load 32 m.ram.byteAt addr size.toNat := by
  refine readLoop_fst hwf fun v m' i _ hview => ⟨?_, hview.wellFormed.select_sameView _⟩
  rw [← Ram.read_fst]

theorem consulted_congr {m' : Memory δ} (h : m.ram.SameView m'.ram) :
    Device.consulted devices m' addr = Device.consulted devices m addr := by
  unfold Device.consulted
  rw [covers_congr h.base h.top]

/-- A load of bytes that the RAM alone holds. -/
theorem load_fst {size : BitVec 8} (hwf : m.ram.WellFormed)
    (hram : ∀ i < size.toNat, Device.consulted devices m (addr + BitVec.ofNat 32 i) = [.ram]) :
    (memAccess devices m (MemOp.load addr size).request).1 =
      { memRspAck := true, memRspRdata := FlatMemory.load 32 m.ram.byteAt addr size.toNat } := by
  have hloop : ((downFrom size).foldl (fun acc i => loadByte devices acc (addr + i)) (0, m)).1 =
      FlatMemory.load 32 m.ram.byteAt addr size.toNat := by
    refine readLoop_fst hwf fun v m' i hi hview => ?_
    rw [Device.loadByte_eq, consulted_congr hview, hram i hi, ← Ram.read_fst]
    exact ⟨rfl, hview.wellFormed.select_sameView _⟩
  simp only [memAccess, MemOp.request, Bool.false_and, Bool.false_eq_true, if_false, if_true, hloop]

/-- An atomic access other than `SC_W` reads its word. -/
theorem memAccess_readRam {din : DmemIn} (hwf : m.ram.WellFormed) (hreq : din.dmemReqAck = true)
    (hamo : din.dmemIsAmo = true) (hsize : din.dmemSize = 4) (hne : din.dmemAmoop ≠ 1)
    (hal : din.dmemAddr.toNat % 4 = 0) (hdev : deviceAddress din.dmemAddr 4 = false) :
    (memAccess devices m din).1 =
      { memRspAck := true, memRspRdata := FlatMemory.load 32 m.ram.byteAt din.dmemAddr 4 } := by
  have hread : (m.readRam din.dmemAddr 4).1 = FlatMemory.load 32 m.ram.byteAt din.dmemAddr 4 :=
    readRam_fst hwf 4
  simp only [memAccess, hreq, hamo, hsize, hdev, hne, hread, Bool.true_and,
    and_three_of_aligned hal, beq_self_eq_true, if_true, if_false, Bool.false_eq_true]

end Memory

/-- `amo_op` stores what the instruction set says. -/
theorem amoOp_amoType (op : Rv32.Amo) (rs2 old : BitVec 32) :
    amoOp (amoType op) rs2 old = op.result rs2 old := by
  cases op with
  | swap => rfl
  | add => exact BitVec.add_comm rs2 old
  | xor => exact BitVec.xor_comm rs2 old
  | and => exact BitVec.and_comm rs2 old
  | or => exact BitVec.or_comm rs2 old
  | min =>
    change (if old.slt rs2 then old else rs2) = BitVec.ofInt 32 (min old.toInt rs2.toInt)
    split_ifs with h <;> rw [BitVec.slt_iff_toInt_lt] at h
    · rw [min_eq_left h.le, BitVec.ofInt_toInt]
    · rw [min_eq_right (not_lt.mp h), BitVec.ofInt_toInt]
  | max =>
    change (if rs2.slt old then old else rs2) = BitVec.ofInt 32 (max old.toInt rs2.toInt)
    split_ifs with h <;> rw [BitVec.slt_iff_toInt_lt] at h
    · rw [max_eq_left h.le, BitVec.ofInt_toInt]
    · rw [max_eq_right (not_lt.mp h), BitVec.ofInt_toInt]
  | minu =>
    change (if old < rs2 then old else rs2) = BitVec.ofNat 32 (min old.toNat rs2.toNat)
    split_ifs with h <;> rw [BitVec.lt_def] at h
    · rw [min_eq_left h.le, BitVec.ofNat_toNat, BitVec.setWidth_eq]
    · rw [min_eq_right (not_lt.mp h), BitVec.ofNat_toNat, BitVec.setWidth_eq]
  | maxu =>
    change (if rs2 < old then old else rs2) = BitVec.ofNat 32 (max old.toNat rs2.toNat)
    split_ifs with h <;> rw [BitVec.lt_def] at h
    · rw [max_eq_left h.le, BitVec.ofNat_toNat, BitVec.setWidth_eq]
    · rw [max_eq_right (not_lt.mp h), BitVec.ofNat_toNat, BitVec.setWidth_eq]

/-! ### The flat memory -/

/-- What happens to the RAM. Atomic accesses are to words. -/
inductive RamEvent
  | fetch (addr : BitVec 32)
  | load (addr : BitVec 32) (size : BitVec 8)
  | store (addr : BitVec 32) (size : BitVec 8) (wdata : BitVec 32)
  | amo (addr : BitVec 32) (op : Rv32.Amo) (wdata : BitVec 32)
  | lr (addr : BitVec 32)
  | sc (addr wdata : BitVec 32)
  | image (buf : List (BitVec 8)) (offset : BitVec 32)
  | segment (mem : List (BitVec 8)) (vaddr : BitVec 32)

/-- A flat memory, with the bytes that are reserved. -/
structure FlatRam where
  bytes : BitVec 32 → BitVec 8
  reserved : BitVec 32 → Bool

namespace FlatRam

/-- The memory at start: no byte was written. -/
def zero : FlatRam := ⟨fun _ => 0, fun _ => false⟩

/-- The word of `k` bytes at an address. -/
def word (f : FlatRam) (addr : BitVec 32) (k : ℕ) : BitVec 32 := FlatMemory.load 32 f.bytes addr k

/-- The memory after a word of `k` bytes was written, which ends reservations of them. -/
def put (f : FlatRam) (addr : BitVec 32) (k : ℕ) (v : BitVec 32) : FlatRam where
  bytes := FlatMemory.store f.bytes addr k v
  reserved a := if (a - addr).toNat < k then false else f.reserved a

/-- What an event answers. -/
def answer (f : FlatRam) : RamEvent → MemOut
  | .fetch addr => { memRspAck := true, memRspRdata := f.word addr 4 }
  | .load addr size => { memRspAck := true, memRspRdata := f.word addr size.toNat }
  | .store _ _ _ => { memRspAck := true }
  | .amo addr _ _ => { memRspAck := true, memRspRdata := f.word addr 4 }
  | .lr addr => { memRspAck := true, memRspRdata := f.word addr 4 }
  | .sc addr _ => { memRspAck := true, memRspRdata := if f.reserved addr then 0 else 1 }
  | .image _ _ => {}
  | .segment _ _ => {}

/-- The memory after an event. -/
def after (f : FlatRam) : RamEvent → FlatRam
  | .fetch _ => f
  | .load _ _ => f
  | .store addr size wdata => f.put addr size.toNat wdata
  | .amo addr op wdata => f.put addr 4 (op.result wdata (f.word addr 4))
  | .lr addr => { f with reserved := fun a => if (a - addr).toNat < 4 then true else f.reserved a }
  | .sc addr wdata => if f.reserved addr then f.put addr 4 wdata else f
  | .image buf offset => { f with bytes := FlatMemory.write f.bytes offset buf }
  | .segment mem vaddr => { f with bytes := FlatMemory.write f.bytes vaddr mem }

end FlatRam

namespace RamEvent

variable {δ : Type}

/-- Words are aligned, and images do not wrap around. -/
def Aligned : RamEvent → Prop
  | fetch addr => addr.toNat % 4 = 0
  | load addr size => (size = 1 ∨ size = 2 ∨ size = 4) ∧ addr.toNat % size.toNat = 0
  | store addr size _ => (size = 1 ∨ size = 2 ∨ size = 4) ∧ addr.toNat % size.toNat = 0
  | amo addr _ _ => addr.toNat % 4 = 0
  | lr addr => addr.toNat % 4 = 0
  | sc addr _ => addr.toNat % 4 = 0
  | image buf offset => offset.toNat + buf.length ≤ 2 ^ 32
  | segment mem vaddr => vaddr.toNat + mem.length ≤ 2 ^ 32

/-- The event reaches the RAM: a load is of bytes that the RAM alone holds, a store of
bytes that it is the first to hold, and an atomic access is not to a device. -/
def OnRam (devices : List (Device δ)) (m : Memory δ) : RamEvent → Prop
  | load addr size => ∀ i < size.toNat,
      Device.consulted devices m (addr + BitVec.ofNat 32 i) = [.ram]
  | store addr size _ => ∀ i < size.toNat,
      devices.find? (·.covers m (addr + BitVec.ofNat 32 i)) = some .ram
  | amo addr _ _ => Memory.deviceAddress addr 4 = false
  | lr addr => Memory.deviceAddress addr 4 = false
  | sc addr _ => Memory.deviceAddress addr 4 = false
  | _ => True

/-- The event, carried out by the memory controller and the loaders: what it answers,
and the memory that it leaves. -/
def perform (devices : List (Device δ)) (m : Memory δ) : RamEvent → MemOut × Memory δ
  | fetch addr => m.instFetch { imemReqAck := true, imemAddr := addr }
  | load addr size => Memory.transact devices m (MemOp.load addr size).request
  | store addr size wdata => Memory.transact devices m (MemOp.store addr size wdata).request
  | amo addr op wdata => Memory.transact devices m (MemOp.amo addr (amoType op) wdata).request
  | lr addr => Memory.transact devices m (MemOp.lr addr).request
  | sc addr wdata => Memory.transact devices m (MemOp.sc addr wdata).request
  | image buf offset => ({}, { m with ram := m.ram.loadToRam buf offset })
  | segment mem vaddr => ({}, { m with ram := m.ram.loadSegment mem vaddr })

end RamEvent

namespace FlatRam

variable {δ : Type} {devices : List (Device δ)} {m : Memory δ} {f : FlatRam} {e : RamEvent}
  {r : Ram} {addr wdata : BitVec 32}

/-- The flat memory that a state of the RAM stands for. -/
structure Shows (r : Ram) (f : FlatRam) : Prop where
  wellFormed : r.WellFormed
  bytes : r.byteAt = f.bytes
  reserved : r.reservedAt = f.reserved

theorem Shows.word (h : Shows r f) (k : ℕ) :
    FlatMemory.load 32 r.byteAt addr k = f.word addr k := by
  rw [h.bytes, FlatRam.word]

theorem Shows.of_sameView {r' : Ram} (h : Shows r f) (hview : r.SameView r') : Shows r' f :=
  ⟨hview.wellFormed, hview.bytes.trans h.bytes, hview.reserved.trans h.reserved⟩

/-- A write loop over the RAM writes a word of the flat memory. -/
theorem Shows.afterBytes (h : Shows r f) (size : BitVec 8) :
    Shows (Memory.afterBytes Ram.write r addr wdata size.toNat) (f.put addr size.toNat wdata) := by
  have hsize := size.isLt
  refine ⟨Memory.afterBytes_wellFormed h.wellFormed, ?_, ?_⟩
  · funext a
    rw [Memory.afterBytes_byteAt (by omega), h.bytes]
    exact FlatMemory.store_apply wdata |>.symm
  · funext a
    rw [Memory.afterBytes_reservedAt h.wellFormed (by omega), h.reserved]
    rfl

/-- An event acts on the flat memory, and the RAM stays in its place. -/
structure Acts (devices : List (Device δ)) (m : Memory δ) (f : FlatRam) (e : RamEvent) : Prop where
  answer : (e.perform devices m).1 = f.answer e
  shows : Shows (e.perform devices m).2.ram (f.after e)
  base : (e.perform devices m).2.ram.base = m.ram.base
  top : (e.perform devices m).2.ram.top = m.ram.top

theorem Shows.fetch (h : Shows m.ram f) (hal : addr.toNat % 4 = 0) :
    Acts devices m f (.fetch addr) := by
  have heven : addr &&& 1 = 0 := by
    apply BitVec.eq_of_toNat_eq
    rw [Bits.and_ones_toNat (n := 1) addr 1 rfl]
    change addr.toNat % 2 = 0
    omega
  have hfetch : m.instFetch { imemReqAck := true, imemAddr := addr } =
      ({ memRspAck := true, memRspRdata := (m.ram.fetch addr).1 },
        { m with ram := (m.ram.fetch addr).2 }) := by
    simp only [Memory.instFetch, heven, beq_self_eq_true, if_true]
  have hview := h.wellFormed.fetch_sameView addr
  have hword : (m.ram.fetch addr).1 = f.word addr 4 := (Ram.fetch_fst hal).trans (h.word 4)
  constructor
  all_goals
    unfold RamEvent.perform
    dsimp only
    rw [hfetch]
  · rw [hword]
    rfl
  · exact h.of_sameView hview
  · exact hview.base
  · exact hview.top

theorem Shows.load {size : BitVec 8} (h : Shows m.ram f)
    (hon : (RamEvent.load addr size).OnRam devices m) : Acts devices m f (.load addr size) := by
  have hanswer := Memory.load_fst h.wellFormed hon
  have hview : m.ram.SameView
      (Memory.memAccess devices m (MemOp.load addr size).request).2.ram :=
    Memory.memAccess_sameView h.wellFormed
  rw [← Memory.transact_load] at hview
  refine ⟨?_, h.of_sameView hview, hview.base, hview.top⟩
  rw [h.word] at hanswer
  exact hanswer

theorem Shows.store {size : BitVec 8} (h : Shows m.ram f)
    (hon : (RamEvent.store addr size wdata).OnRam devices m) :
    Acts devices m f (.store addr size wdata) := by
  refine ⟨rfl, ?_, ?_, ?_⟩
  all_goals
    unfold RamEvent.perform
    dsimp only
    rw [Memory.transact_store hon]
  · exact h.afterBytes size
  · exact Memory.afterBytes_base
  · exact Memory.afterBytes_top

theorem Shows.amo {op : Rv32.Amo} (h : Shows m.ram f) (hal : addr.toNat % 4 = 0)
    (hdev : Memory.deviceAddress addr 4 = false) : Acts devices m f (.amo addr op wdata) := by
  have hop : (2 ≤ amoType op ∧ amoType op ≤ 10) ∧ amoType op ≠ 1 := by cases op <;> decide
  have hview : m.ram.SameView
      (Memory.memAccess devices m (MemOp.amo addr (amoType op) wdata).request).2.ram :=
    Memory.memAccess_sameView h.wellFormed
  have hanswer : (Memory.memAccess devices m (MemOp.amo addr (amoType op) wdata).request).1 =
      { memRspAck := true, memRspRdata := f.word addr 4 } := by
    rw [← h.word]
    exact Memory.memAccess_readRam h.wellFormed rfl rfl rfl hop.2 hal hdev
  have haligned : (MemOp.amo addr (amoType op) wdata).Aligned := ⟨hop.1, hal⟩
  refine ⟨hanswer, ?_, ?_, ?_⟩
  all_goals
    unfold RamEvent.perform
    dsimp only
    rw [Memory.transact_amo haligned hdev, hanswer, amoOp_amoType]
  · exact (h.of_sameView hview).afterBytes 4
  · exact Memory.afterBytes_base.trans hview.base
  · exact Memory.afterBytes_top.trans hview.top

theorem Shows.lr (h : Shows m.ram f) (hal : addr.toNat % 4 = 0)
    (hdev : Memory.deviceAddress addr 4 = false) : Acts devices m f (.lr addr) := by
  have hview : m.ram.SameView (Memory.memAccess devices m (MemOp.lr addr).request).2.ram :=
    Memory.memAccess_sameView h.wellFormed
  have hanswer : (Memory.memAccess devices m (MemOp.lr addr).request).1 =
      { memRspAck := true, memRspRdata := f.word addr 4 } := by
    rw [← h.word]
    exact Memory.memAccess_readRam h.wellFormed rfl rfl rfl
      (by decide : (0 : BitVec 8) ≠ 1) hal hdev
  obtain ⟨hwf, hbytes, hbase, htop, hres⟩ :=
    Memory.reserve_loop addr (k := 4) hview.wellFormed (by omega)
  refine ⟨hanswer, ?_, ?_, ?_⟩
  all_goals
    unfold RamEvent.perform
    dsimp only
    rw [Memory.transact_lr hal hdev]
  · refine ⟨hwf, (hbytes.trans hview.bytes).trans h.bytes, ?_⟩
    funext a
    rw [hres, hview.reserved, h.reserved]
    rfl
  · exact hbase.trans hview.base
  · exact htop.trans hview.top

theorem Shows.sc (h : Shows m.ram f) (hal : addr.toNat % 4 = 0)
    (hdev : Memory.deviceAddress addr 4 = false) : Acts devices m f (.sc addr wdata) := by
  have hsel := h.wellFormed.select_sameView addr
  have hout : Memory.memAccess devices m (MemOp.sc addr wdata).request = _ :=
    Memory.memAccess_sc devices m hal hdev
  rw [h.wellFormed.amoSc_fst, h.reserved] at hout
  have hanswer : ((RamEvent.sc addr wdata).perform devices m).1 = f.answer (.sc addr wdata) := by
    change (Memory.memAccess devices m (MemOp.sc addr wdata).request).1 = _
    rw [hout, FlatRam.answer]
    cases f.reserved addr <;> rfl
  by_cases hres : f.reserved addr = true
  · have hram : ((RamEvent.sc addr wdata).perform devices m).2.ram = _ :=
      (Memory.transact_sc_reserved h.wellFormed hal hdev (by rw [h.reserved, hres])).2
    refine ⟨hanswer, ?_, ?_, ?_⟩
    all_goals rw [hram]
    · rw [FlatRam.after, if_pos hres]
      exact (h.of_sameView hsel).afterBytes 4
    · exact Memory.afterBytes_base.trans hsel.base
    · exact Memory.afterBytes_top.trans hsel.top
  · have hclear := Bool.eq_false_of_not_eq_true hres
    have hram : ((RamEvent.sc addr wdata).perform devices m).2.ram = _ :=
      (Memory.transact_sc_unreserved h.wellFormed hal hdev (by rw [h.reserved, hclear])).2
    refine ⟨hanswer, ?_, ?_, ?_⟩
    all_goals rw [hram]
    · rw [FlatRam.after, if_neg hres]
      exact h.of_sameView hsel
    · exact hsel.base
    · exact hsel.top

/-- Both loaders. -/
theorem Shows.loadBytes {vals : List (BitVec 8)} (h : Shows r f)
    (hlen : addr.toNat + vals.length ≤ 2 ^ 32) :
    let r' := (Ram.loadBytes (Ram.findSeg addr, r.buildSeg (Ram.findSeg addr)) addr vals).2
    Shows r' { f with bytes := FlatMemory.write f.bytes addr vals } ∧
      r'.base = r.base ∧ r'.top = r.top := by
  have hview := h.wellFormed.buildSeg_sameView (Ram.findSeg addr)
  have hlen' : vals.length ≤ 2 ^ 32 := by omega
  obtain ⟨hpoint, hbytes, hres, hbase, htop⟩ :=
    (h.wellFormed.pointing (Ram.findSeg addr)).loadBytes addr hlen'
  refine ⟨⟨hpoint.wellFormed, ?_, ?_⟩, hbase.trans hview.base, htop.trans hview.top⟩
  · rw [hbytes, hview.bytes, h.bytes]
  · exact (hres.trans hview.reserved).trans h.reserved

/-- Every event acts on the flat memory. -/
theorem Shows.acts (h : Shows m.ram f) (hal : e.Aligned) (hon : e.OnRam devices m) :
    Acts devices m f e := by
  cases e with
  | fetch addr => exact h.fetch hal
  | load addr size => exact h.load hon
  | store addr size wdata => exact h.store hon
  | amo addr op wdata => exact h.amo hal hon
  | lr addr => exact h.lr hal hon
  | sc addr wdata => exact h.sc hal hon
  | image buf offset =>
    obtain ⟨hshows, hbase, htop⟩ := h.loadBytes hal
    rw [← Ram.loadToRam_eq] at hshows hbase htop
    exact ⟨rfl, hshows, hbase, htop⟩
  | segment mem vaddr =>
    obtain ⟨hshows, hbase, htop⟩ := h.loadBytes hal
    rw [← Ram.loadSegment_eq] at hshows hbase htop
    exact ⟨rfl, hshows, hbase, htop⟩

theorem onRam_congr {m' : Memory δ} (hbase : m'.ram.base = m.ram.base)
    (htop : m'.ram.top = m.ram.top) : e.OnRam devices m' ↔ e.OnRam devices m := by
  cases e with
  | load addr size => simp only [RamEvent.OnRam, Device.consulted, Memory.covers_congr hbase htop]
  | store addr size wdata => simp only [RamEvent.OnRam, Memory.covers_congr hbase htop]
  | _ => exact Iff.rfl

/-- A run of events acts on the flat memory. -/
theorem Shows.run (h : Shows m.ram f) {es : List RamEvent}
    (hes : ∀ e ∈ es, e.Aligned ∧ e.OnRam devices m) :
    Clocked.trace (fun m e => (RamEvent.perform devices m e).2)
        (fun m e => (RamEvent.perform devices m e).1) m es =
      Clocked.trace FlatRam.after FlatRam.answer f es ∧
    Shows (Clocked.run (fun m e => (RamEvent.perform devices m e).2) m es).ram
      (Clocked.run FlatRam.after f es) := by
  induction es generalizing m f with
  | nil => exact ⟨rfl, h⟩
  | cons e es ih =>
    obtain ⟨hal, hon⟩ := hes e List.mem_cons_self
    have hacts := h.acts hal hon
    obtain ⟨htrace, hrun⟩ := ih hacts.shows fun e' he' => by
      obtain ⟨hal', hon'⟩ := hes e' (List.mem_cons_of_mem _ he')
      exact ⟨hal', (onRam_congr hacts.base hacts.top).mpr hon'⟩
    exact ⟨congrArg₂ List.cons hacts.answer htrace, hrun⟩

theorem shows_init (base : BitVec 32) : Shows (Ram.init base) zero := by
  refine ⟨Ram.init_wellFormed base, ?_, funext fun a => Ram.init_reservedAt base⟩
  rw [Ram.init, Ram.buildSeg_byteAt]
  rfl

/-- From construction on, any sequence of events that reach the RAM is answered as a flat
memory answers it and leaves its bytes, and whatever the state of the RAM, every index
into a segment vector is below `SIZE`. -/
theorem ram_refines_flat (devices : List (Device δ)) (base : BitVec 32) (dev : δ)
    (es : List RamEvent)
    (hes : ∀ e ∈ es, e.Aligned ∧ e.OnRam devices { ram := Ram.init base, dev := dev }) :
    (Clocked.trace (fun m e => (RamEvent.perform devices m e).2)
        (fun m e => (RamEvent.perform devices m e).1) { ram := Ram.init base, dev := dev } es =
      Clocked.trace after answer zero es ∧
    (Clocked.run (fun m e => (RamEvent.perform devices m e).2)
        { ram := Ram.init base, dev := dev } es).ram.byteAt = (Clocked.run after zero es).bytes) ∧
    (∀ (r : Ram) addr, r.dataIndex addr < Ram.size) ∧
    (∀ (r : Ram) addr k, addr.toNat % 4 = 0 → k < 4 →
      r.fetchIndex addr (BitVec.ofNat 32 k) < Ram.size) ∧
    ∀ acc addr val, Ram.loadIndex acc addr val < Ram.size := by
  obtain ⟨htrace, hshows⟩ := (shows_init base).run hes
  exact ⟨⟨htrace, hshows.bytes⟩, Ram.dataIndex_lt, fun r addr k hal hk => r.fetchIndex_lt hal hk,
    Ram.loadIndex_lt⟩

/-- A RAM with the range of its constructor holds every byte. -/
theorem consulted_ram (dev : δ) :
    Device.consulted [Device.ram] { ram := Ram.init 0, dev := dev } addr = [.ram] := by
  have hcovers : (Device.ram : Device δ).covers { ram := Ram.init 0, dev := dev } addr = true := by
    have hlt := addr.isLt
    simp only [Device.covers, Bool.and_eq_true, decide_eq_true_eq, BitVec.le_def]
    change 0 ≤ addr.toNat ∧ addr.toNat ≤ 2 ^ 32 - 1
    omega
  rw [Device.consulted, List.filter_cons_of_pos hcovers, List.filter_nil]

/-- An image that crosses into a new segment, and accesses to its words. -/
theorem ram_refines_flat_across_segments :
    let es : List RamEvent := [.image [0x11, 0x22, 0x33, 0x44] 0x803ffffe, .fetch 0x80400000,
      .amo 0x80400000 .min 0xffffffff, .load 0x803ffffe 2]
    Clocked.trace (fun m e => (RamEvent.perform [.ram] m e).2)
        (fun m e => (RamEvent.perform [.ram] m e).1) { ram := Ram.init 0, dev := () } es =
      Clocked.trace after answer zero es := by
  refine (ram_refines_flat [.ram] 0 () _ fun e he => ?_).1.1
  simp only [List.mem_cons, List.not_mem_nil, or_false] at he
  rcases he with rfl | rfl | rfl | rfl
  · exact ⟨show 0x803ffffe + 4 ≤ 2 ^ 32 by omega, trivial⟩
  · exact ⟨show 0x80400000 % 4 = 0 by omega, trivial⟩
  · exact ⟨show 0x80400000 % 4 = 0 by omega, show Memory.deviceAddress 0x80400000 4 = false by decide⟩
  · exact ⟨⟨.inr (.inl rfl), by decide⟩, fun i _ => consulted_ram ()⟩

end FlatRam

end Turtle
