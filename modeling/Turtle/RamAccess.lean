import Turtle.CompressedEffect
import Turtle.FlatRam
import Turtle.Lib.Rv32Hart

/-!
# What an access does to the RAM

The accesses of the instruction set, carried out by the memory controller. The answer is
computed in one memory and the effect applied in another one, which differs only in ways
that no access can see. Where other devices are in the way, a load may bring anything of
its width, and a store reaches the bytes that the RAM is the first to hold.
-/

namespace Turtle

open Rv32 (Access)

/-- The kinds of accesses, as `is_load`, `is_store` and `is_amo` have them. -/
def accessFlags : Access → Bool × Bool × Bool
  | .load _ => (true, false, false)
  | .store _ _ => (false, true, false)
  | _ => (false, false, true)

/-- The `amoop` of an access. -/
def accessAmoop : Access → BitVec 8
  | .sc _ => 1
  | .amo op _ => amoType op
  | _ => 0

/-- The data of an access, if it has any. -/
def accessData : Access → Option (BitVec 32)
  | .store _ data => some data
  | .sc data => some data
  | .amo _ data => some data
  | _ => none

/-- The request of an access at a physical address. Nobody looks at the data of a load or
of `LR`. -/
structure Requests (a : Access) (pa : BitVec 32) (r : DmemIn) : Prop where
  reqAck : r.dmemReqAck = true
  addr : r.dmemAddr = pa
  size : r.dmemSize.toNat = a.size
  flags : (r.dmemIsLoad, r.dmemIsStore, r.dmemIsAmo) = accessFlags a
  amoop : r.dmemAmoop = accessAmoop a
  wdata : ∀ data ∈ accessData a, r.dmemWdata = data

/-- The bytes of which the RAM alone is read, and those that it is the first to hold. -/
structure RamMap where
  loads : BitVec 32 → Bool
  stores : BitVec 32 → Bool

/-- The places of the RAM among the devices. -/
def Memory.ramMap {δ : Type} (devices : List (Device δ)) (m : Memory δ) : RamMap where
  loads addr := match Device.consulted devices m addr with
    | [.ram] => true
    | _ => false
  stores addr := match devices.find? (·.covers m addr) with
    | some .ram => true
    | _ => false

/-- The flat memory that a state of the RAM stands for. -/
def Ram.flat (r : Ram) : FlatRam := ⟨r.byteAt, r.reservedAt⟩

namespace FlatRam

/-- The memory after the bytes of a word that lie in `p` were written. -/
def putWhere (f : FlatRam) (p : BitVec 32 → Bool) (addr : BitVec 32) (k : ℕ) (v : BitVec 32) :
    FlatRam where
  bytes a := if (a - addr).toNat < k ∧ p a = true then Lanes.lane 8 v (a - addr).toNat
    else f.bytes a
  reserved a := if (a - addr).toNat < k ∧ p a = true then false else f.reserved a

/-- What an access at a physical address answers and leaves. -/
def Performs (map : RamMap) (pa got : BitVec 32) (f f' : FlatRam) : Access → Prop
  | .load size => f' = f ∧ got.toNat < 2 ^ (8 * size) ∧
      ((∀ k < size, map.loads (pa + BitVec.ofNat 32 k) = true) → got = f.word pa size)
  | .store size data => f' = f.putWhere map.stores pa size data
  | .lr => got = f.word pa 4 ∧ f' = f.after (.lr pa)
  | .sc data => got = (if f.reserved pa then 0 else 1) ∧ f' = f.after (.sc pa data)
  | .amo op data => got = f.word pa 4 ∧ f' = f.after (.amo pa op data)

/-- Bytes outside of an access stay, and all bytes do if it has no data. -/
theorem Performs.bytes_eq {map : RamMap} {pa got x : BitVec 32} {f f' : FlatRam} {a : Access}
    (h : Performs map pa got f f' a)
    (hx : (accessData a).isSome = true → ¬ (x - pa).toNat < a.size) : f'.bytes x = f.bytes x := by
  cases a with
  | load size => rw [h.1]
  | store size data =>
    rw [show f' = _ from h, putWhere]
    exact if_neg fun hin => hx rfl hin.1
  | lr =>
    rw [h.2]
    rfl
  | sc data =>
    rw [h.2, after]
    split_ifs
    · exact (FlatMemory.store_apply _).trans (if_neg (hx rfl))
    · rfl
  | amo op data =>
    rw [h.2, after]
    exact (FlatMemory.store_apply _).trans (if_neg (hx rfl))

end FlatRam

/-- The request of an access with data is one of a store, or of an atomic other than `LR`. -/
theorem Requests.writes {a : Access} {pa : BitVec 32} {r : DmemIn} (h : Requests a pa r)
    (hdata : (accessData a).isSome = true) : r.dmemIsStore = true ∨ r.dmemAmoop ≠ 0 := by
  have hflags : r.dmemIsStore = (accessFlags a).2.1 := congrArg (fun k => k.2.1) h.flags
  rw [hflags, h.amoop]
  cases a with
  | load size => cases hdata
  | store size data => exact .inl rfl
  | lr => cases hdata
  | sc data => exact .inr (by decide : (1 : BitVec 8) ≠ 0)
  | amo op data =>
    have hop : amoType op ≠ 0 := by cases op <;> decide
    exact .inr hop

namespace Memory

variable {δ : Type} {devices : List (Device δ)} {m m' : Memory δ} {addr wdata : BitVec 32}

theorem ramMap_congr (hbase : m'.ram.base = m.ram.base) (htop : m'.ram.top = m.ram.top) :
    ramMap devices m' = ramMap devices m := by
  unfold ramMap Device.consulted
  simp only [covers_congr hbase htop]

theorem consulted_of_loads (h : (ramMap devices m).loads addr = true) :
    Device.consulted devices m addr = [.ram] := by
  unfold ramMap at h
  dsimp only at h
  split at h
  · assumption
  · cases h

/-! ### Loads -/

/-- One byte more makes a word wider by eight bits. -/
theorem shift_or_lt {v x : BitVec 32} {j : ℕ} (hv : v.toNat < 2 ^ (8 * j))
    (hx : x.toNat < 2 ^ (8 * (j + 1))) : ((v <<< 8) ||| x).toNat < 2 ^ (8 * (j + 1)) := by
  rw [BitVec.toNat_or]
  refine Nat.or_lt_two_pow ?_ hx
  rw [BitVec.toNat_shiftLeft, Nat.shiftLeft_eq]
  refine (Nat.mod_le ..).trans_lt ?_
  have hpow : 2 ^ (8 * (j + 1)) = 2 ^ (8 * j) * 2 ^ 8 := by
    rw [← pow_add]
    rfl
  rw [hpow]
  exact Nat.mul_lt_mul_of_pos_right hv (by omega)

theorem loadByte_lt {v : BitVec 32} {j : ℕ} (hv : v.toNat < 2 ^ (8 * j)) :
    (loadByte devices (v, m) addr).1.toNat < 2 ^ (8 * (j + 1)) := by
  have hshift : (v <<< 8).toNat < 2 ^ (8 * (j + 1)) := by
    have hzero := shift_or_lt (x := 0#32) hv (by simp)
    rwa [BitVec.or_zero] at hzero
  unfold loadByte
  dsimp only
  generalize v <<< 8 = v at hshift
  induction devices generalizing m v with
  | nil => exact hshift
  | cons dev devs ih =>
    rw [List.foldl_cons]
    split_ifs
    · refine ih _ ?_
      rw [BitVec.toNat_or]
      refine Nat.or_lt_two_pow hshift ?_
      have hbyte := (dev.read m addr).1.isLt
      rw [BitVec.toNat_setWidth_of_le (by omega)]
      refine hbyte.trans_le (Nat.pow_le_pow_right (by omega) (by omega))
    · exact ih _ hshift

/-- A load brings no more bytes than it asks for. -/
theorem load_lt (is : List (BitVec 32)) {v : BitVec 32} {j : ℕ} (hv : v.toNat < 2 ^ (8 * j)) :
    (is.foldl (fun acc i => loadByte devices acc (addr + i)) (v, m)).1.toNat <
      2 ^ (8 * (j + is.length)) := by
  induction is generalizing m v j with
  | nil => exact hv
  | cons i is ih =>
    have hbyte : (loadByte devices (v, m) (addr + i)).1.toNat < 2 ^ (8 * (j + 1)) := loadByte_lt hv
    rw [List.length_cons, Nat.add_comm is.length 1, ← Nat.add_assoc]
    exact ih hbyte

/-! ### Stores -/

/-- A store writes through to the RAM where the RAM is the first to hold a byte. -/
theorem storeByte_ram (val : BitVec 8) : (storeByte devices m addr val).ram =
    if (ramMap devices m).stores addr = true then m.ram.write addr val else m.ram := by
  unfold storeByte ramMap
  dsimp only
  rcases hfind : devices.find? (·.covers m addr) with _ | ⟨⟨⟩ | p⟩ <;> simp only [hfind]
  · rfl
  · rfl
  · rfl

/-- A write loop over all devices leaves the RAM in its place and writes the bytes that it
is the first to hold. -/
theorem afterBytes_storeByte (hwf : m.ram.WellFormed) {k : ℕ} (hk : k ≤ 2 ^ 32) :
    let r := (afterBytes (storeByte devices) m addr wdata k).ram
    r.WellFormed ∧ r.base = m.ram.base ∧ r.top = m.ram.top ∧
      r.flat = m.ram.flat.putWhere (ramMap devices m).stores addr k wdata := by
  induction k with
  | zero =>
    refine ⟨hwf, rfl, rfl, ?_⟩
    simp [FlatRam.putWhere, afterBytes, Ram.flat]
  | succ k ih =>
    obtain ⟨hwf', hbase, htop, hflat⟩ := ih (by omega)
    have hbytes : (afterBytes (storeByte devices) m addr wdata k).ram.byteAt = _ :=
      congrArg FlatRam.bytes hflat
    have hreserved : (afterBytes (storeByte devices) m addr wdata k).ram.reservedAt = _ :=
      congrArg FlatRam.reserved hflat
    rw [afterBytes, storeByte_ram, ramMap_congr hbase htop]
    have hlast {a : BitVec 32} : a = addr + BitVec.ofNat 32 k ↔ (a - addr).toNat = k :=
      eq_add_ofNat_iff (by omega)
    split_ifs with hstores
    · refine ⟨hwf'.write _ _, Ram.write_base.trans hbase, Ram.write_top.trans htop, ?_⟩
      unfold Ram.flat FlatRam.putWhere
      rw [FlatRam.mk.injEq]
      constructor
      · funext a
        rw [Ram.write_byteAt, hbytes]
        by_cases ha : (a - addr).toNat = k
        · rw [if_pos (hlast.mpr ha), if_pos ⟨by omega, hlast.mpr ha ▸ hstores⟩, ha]
          rfl
        · rw [if_neg (mt hlast.mp ha)]
          exact if_congr (and_congr_left' (by omega)) rfl rfl
      · funext a
        rw [hwf'.write_reservedAt, hreserved]
        by_cases ha : (a - addr).toNat = k
        · rw [if_pos (hlast.mpr ha), if_pos ⟨by omega, hlast.mpr ha ▸ hstores⟩]
        · rw [if_neg (mt hlast.mp ha)]
          exact if_congr (and_congr_left' (by omega)) rfl rfl
    · -- The byte belongs to another device.
      have hsame {a : BitVec 32} : ((a - addr).toNat < k ∧ (ramMap devices m).stores a = true) ↔
          ((a - addr).toNat < k + 1 ∧ (ramMap devices m).stores a = true) := by
        refine and_congr_left fun ha => ?_
        have hne : (a - addr).toNat ≠ k := fun heq => hstores (hlast.mpr heq ▸ ha)
        omega
      refine ⟨hwf', hbase, htop, ?_⟩
      rw [hflat]
      unfold FlatRam.putWhere
      simp only [hsame]

/-! ### The accesses -/

/-- The access as one of those that `MemOp` lists. -/
def opOfAccess (pa : BitVec 32) : Access → MemOp
  | .load size => .load pa (BitVec.ofNat 8 size)
  | .store size data => .store pa (BitVec.ofNat 8 size) data
  | .lr => .lr pa
  | .sc data => .sc pa data
  | .amo op data => .amo pa (amoType op) data

variable {a : Access} {pa : BitVec 32} {req : DmemIn} {m₀ : Memory δ}

/-- The request of an access is determined up to data that nobody looks at. -/
theorem dataless_of_requests (h : Requests a pa req) :
    req.dataless = (opOfAccess pa a).request.dataless := by
  have hsize : req.dmemSize = BitVec.ofNat 8 a.size := by
    apply BitVec.eq_of_toNat_eq
    have hlt := req.dmemSize.isLt
    rw [BitVec.toNat_ofNat, ← h.size, Nat.mod_eq_of_lt hlt]
  have hflags := h.flags
  have hamoop := h.amoop
  unfold DmemIn.dataless
  cases a <;>
    simp_all [accessFlags, accessAmoop, opOfAccess, MemOp.request, h.reqAck, h.addr, Access.size]

theorem eq_of_requests (h : Requests a pa req) {data : BitVec 32}
    (hdata : accessData a = some data) :
    req = (opOfAccess pa a).request := by
  have hrest := dataless_of_requests h
  have hwdata : req.dmemWdata = (opOfAccess pa a).request.dmemWdata := by
    rw [h.wdata data hdata]
    cases a <;> simp_all [accessData, opOfAccess, MemOp.request]
  rw [DmemIn.dataless, DmemIn.dataless, DmemIn.mk.injEq] at hrest
  cases req
  rw [DmemIn.mk.injEq]
  exact ⟨hrest.1, hrest.2.1, hwdata, hrest.2.2.2⟩

/-- A request of an access to a word that is no fault is not to a device. -/
theorem not_device_of_atomic (hamo : req.dmemIsAmo = true) (hack : req.dmemReqAck = true)
    (hsize : req.dmemSize = 4) (hal : req.dmemAddr.toNat % 4 = 0)
    (hok : (memAccess devices m₀ req).1.memRspFault = 0) :
    deviceAddress req.dmemAddr 4 = false := by
  by_contra hdev
  rw [Bool.not_eq_false] at hdev
  simp only [memAccess, hack, hamo, hsize, hdev, Bool.true_and, and_three_of_aligned hal,
    beq_self_eq_true, if_true] at hok
  cases hok

/-- What the controller leaves of the RAM: the range stays, and so does every invariant. -/
structure Performed (devices : List (Device δ)) (m m' : Memory δ) (a : Access)
    (pa got : BitVec 32) : Prop where
  wellFormed : m'.ram.WellFormed
  base : m'.ram.base = m.ram.base
  top : m'.ram.top = m.ram.top
  performs : FlatRam.Performs (ramMap devices m) pa got m.ram.flat m'.ram.flat a

theorem Performed.of_shows {f : FlatRam} {got : BitVec 32} (h : FlatRam.Shows m'.ram f)
    (hbase : m'.ram.base = m.ram.base) (htop : m'.ram.top = m.ram.top)
    (hperforms : FlatRam.Performs (ramMap devices m) pa got m.ram.flat f a) :
    Performed devices m m' a pa got := by
  have hflat : m'.ram.flat = f := by
    rw [Ram.flat, h.bytes, h.reserved]
  exact ⟨h.wellFormed, hbase, htop, hflat ▸ hperforms⟩

section

variable (hview : m₀.ram.SameView m.ram) (hwf : m₀.ram.WellFormed)

include hview

/-- A store is carried out byte by byte. -/
theorem performed_store {size : ℕ} {data : BitVec 32} (h : Requests (.store size data) pa req) :
    Performed devices m (updateMemory devices m req (memAccess devices m₀ req).1)
      (.store size data) pa (memAccess devices m₀ req).1.memRspRdata := by
  have hsize : req.dmemSize.toNat = size := h.size
  have hlt := req.dmemSize.isLt
  have hreq : req = (MemOp.store pa req.dmemSize data).request := by
    have heq := eq_of_requests h rfl
    rwa [opOfAccess, ← hsize, BitVec.ofNat_toNat, BitVec.setWidth_eq] at heq
  have hupdate : updateMemory devices m req (memAccess devices m₀ req).1 =
      afterBytes (storeByte devices) m pa data size := by
    rw [hreq, ← hsize, ← writeBytes_eq]
    rfl
  have hk : size ≤ 2 ^ 32 := by omega
  obtain ⟨hwf', hbase, htop, hflat⟩ :=
    @afterBytes_storeByte _ devices _ pa data hview.wellFormed size hk
  rw [hupdate]
  exact ⟨hwf', hbase, htop, hflat⟩

include hwf

/-- A load answers with what it reads, and nothing is carried out for it. -/
theorem performed_load {size : ℕ} (h : Requests (.load size) pa req) :
    Performed devices m (updateMemory devices m req (memAccess devices m₀ req).1) (.load size) pa
      (memAccess devices m₀ req).1.memRspRdata := by
  have hflags : (req.dmemIsLoad, req.dmemIsStore, req.dmemIsAmo) = (true, false, false) := h.flags
  simp only [Prod.mk.injEq] at hflags
  obtain ⟨hload, hstore, hamo⟩ := hflags
  have hsize : req.dmemSize.toNat = size := h.size
  have hreq : req.dataless = (MemOp.load pa req.dmemSize).request.dataless := by
    have hdata := dataless_of_requests h
    rwa [opOfAccess, ← hsize, BitVec.ofNat_toNat, BitVec.setWidth_eq] at hdata
  rw [updateMemory_of_not_applies (by simp [Applies, hstore, hamo]), memAccess_of_dataless_eq hreq]
  refine ⟨hview.wellFormed, rfl, rfl, rfl, ?_, fun hram => ?_⟩
  · have hlt := @load_lt _ devices m₀ pa (downFrom req.dmemSize) 0 0 (by simp)
    have hlen : (downFrom req.dmemSize).length = size := by simp [downFrom, hsize]
    rw [hlen, Nat.zero_add] at hlt
    simpa [memAccess, MemOp.request] using hlt
  · have hconsulted : ∀ k < req.dmemSize.toNat,
        Device.consulted devices m₀ (pa + BitVec.ofNat 32 k) = [.ram] := by
      intro k hk
      rw [← consulted_congr hview]
      exact consulted_of_loads (hram k (hsize ▸ hk))
    rw [load_fst hwf hconsulted, hsize, ← hview.bytes]
    rfl

/-- The atomic accesses go to the RAM, whatever else is there. -/
theorem performed_atomic (h : Requests a pa req) (hamo : accessFlags a = (false, false, true))
    (hal : pa.toNat % 4 = 0) (hok : (memAccess devices m₀ req).1.memRspFault = 0) :
    Performed devices m (updateMemory devices m req (memAccess devices m₀ req).1) a pa
      (memAccess devices m₀ req).1.memRspRdata := by
  have hshows : FlatRam.Shows m.ram m.ram.flat := ⟨hview.wellFormed, rfl, rfl⟩
  have hisAmo : req.dmemIsAmo = true := by
    have hflags := h.flags
    rw [hamo] at hflags
    exact congrArg (fun k => k.2.2) hflags
  have hsize : req.dmemSize = 4 := by
    have hword : a.size = 4 := by cases a <;> first | rfl | cases hamo
    exact BitVec.eq_of_toNat_eq (h.size.trans hword)
  have hdev : deviceAddress pa 4 = false := by
    have hdev := not_device_of_atomic hisAmo h.reqAck hsize (h.addr ▸ hal) hok
    rwa [h.addr] at hdev
  have hreq := dataless_of_requests h
  cases a with
  | load size => cases hamo
  | store size data => cases hamo
  | lr =>
    have hanswer : (memAccess devices m₀ req).1 =
        { memRspAck := true, memRspRdata := m.ram.flat.word pa 4 } := by
      rw [memAccess_readRam hwf h.reqAck hisAmo hsize (by rw [h.amoop]; decide) (h.addr ▸ hal)
        (h.addr ▸ hdev), h.addr, ← hview.bytes]
      rfl
    obtain ⟨hwf', hbytes, hbase, htop, hres⟩ :=
      reserve_loop pa (k := 4) hview.wellFormed (by omega)
    have hupdate : updateMemory devices m req (memAccess devices m₀ req).1 = { m with
        ram := ((List.range 4).map (BitVec.ofNat 32)).foldl (fun ram i => ram.amoLr (pa + i))
          m.ram } := by
      rw [hanswer]
      simp only [updateMemory, hisAmo, h.amoop, h.addr, hsize]
      rfl
    rw [hupdate, hanswer]
    refine .of_shows ⟨hwf', hbytes, funext hres⟩ hbase htop ⟨rfl, rfl⟩
  | sc data =>
    have heq : req = (MemOp.sc pa data).request := eq_of_requests h rfl
    have hout : memAccess devices m₀ (MemOp.sc pa data).request = _ :=
      memAccess_sc devices m₀ hal hdev
    rw [hwf.amoSc_fst, ← hview.reserved] at hout
    rw [heq, hout]
    cases hres : m.ram.reservedAt pa with
    | true =>
      have hupdate : updateMemory devices m (MemOp.sc pa data).request
          { memRspAck := true, memRspRdata := 0 } =
          { m with ram := afterBytes Ram.write m.ram pa data 4 } :=
        congrArg (fun ram => { m with ram := ram }) (writeBytes_eq Ram.write m.ram pa data 4)
      refine .of_shows (f := m.ram.flat.put pa 4 data) ?_ ?_ ?_ ⟨?_, ?_⟩
      · exact (congrArg (FlatRam.Shows · _) (congrArg Memory.ram hupdate)).mpr (hshows.afterBytes 4)
      · exact (congrArg (·.ram.base) hupdate).trans afterBytes_base
      · exact (congrArg (·.ram.top) hupdate).trans afterBytes_top
      · exact (if_pos hres).symm
      · exact (if_pos hres).symm
    | false =>
      have hclear : ¬ m.ram.reservedAt pa = true := by simp [hres]
      refine .of_shows (f := m.ram.flat) hshows rfl rfl ⟨?_, ?_⟩
      · exact (if_neg hclear).symm
      · exact (if_neg hclear).symm
  | amo op data =>
    have heq : req = (MemOp.amo pa (amoType op) data).request := eq_of_requests h rfl
    have hop : amoType op ≠ 0 ∧ amoType op ≠ 1 := by cases op <;> decide
    have hanswer : (memAccess devices m₀ req).1 =
        { memRspAck := true, memRspRdata := m.ram.flat.word pa 4 } := by
      rw [memAccess_readRam hwf h.reqAck hisAmo hsize (by rw [h.amoop]; exact hop.2) (h.addr ▸ hal)
        (h.addr ▸ hdev), h.addr, ← hview.bytes]
      rfl
    have hupdate : updateMemory devices m req (memAccess devices m₀ req).1 = { m with
        ram := afterBytes Ram.write m.ram pa (op.result data (m.ram.flat.word pa 4)) 4 } := by
      rw [hanswer, ← amoOp_amoType, heq]
      simp only [updateMemory, MemOp.request, hop.1, hop.2, writeBytes_eq]
      rfl
    rw [hupdate, hanswer]
    exact .of_shows (hshows.afterBytes 4) afterBytes_base afterBytes_top ⟨rfl, rfl⟩

/-- Every access that memory answers without a fault is carried out as one. -/
theorem performed (h : Requests a pa req) (hal : pa.toNat % a.size = 0)
    (hok : (memAccess devices m₀ req).1.memRspFault = 0) :
    Performed devices m (updateMemory devices m req (memAccess devices m₀ req).1) a pa
      (memAccess devices m₀ req).1.memRspRdata := by
  cases a with
  | load size => exact performed_load hview hwf h
  | store size data => exact performed_store hview h
  | lr => exact performed_atomic hview hwf h rfl hal hok
  | sc data => exact performed_atomic hview hwf h rfl hal hok
  | amo op data => exact performed_atomic hview hwf h rfl hal hok

end

end Memory

end Turtle
