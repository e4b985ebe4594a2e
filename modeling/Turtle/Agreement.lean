import Turtle.FlatRam
import Mathlib.Data.Set.Basic

/-!
# Memories that agree outside a secret

Two memories that differ in the bytes of a secret only. Every operation leads from such
memories to such memories, whatever it touches, and one that reads no byte of the secret
answers the same.
-/

namespace Turtle

/-- Two states of the RAM that differ in bytes of the secret only. -/
structure Ram.AgreesOff (secret : Set (BitVec 32)) (r r' : Ram) : Prop where
  base : r'.base = r.base
  top : r'.top = r.top
  dsegBase : r'.dsegBase = r.dsegBase
  isegBase : r'.isegBase = r.isegBase
  reservation : r'.reservation = r.reservation
  built : ∀ b, r'.segTable b = none ↔ r.segTable b = none
  bytes : ∀ a ∉ secret, r'.byteAt a = r.byteAt a

namespace Ram.AgreesOff

variable {secret : Set (BitVec 32)} {r r' : Ram} {addr : BitVec 32}

theorem refl (secret : Set (BitVec 32)) (r : Ram) : AgreesOff secret r r :=
  ⟨rfl, rfl, rfl, rfl, rfl, fun _ => Iff.rfl, fun _ _ => rfl⟩

theorem buildSeg (h : AgreesOff secret r r') (b : BitVec 32) :
    AgreesOff secret (r.buildSeg b) (r'.buildSeg b) := by
  have hbytes : ∀ a ∉ secret, (r'.buildSeg b).byteAt a = (r.buildSeg b).byteAt a := by
    intro a ha
    rw [buildSeg_byteAt, buildSeg_byteAt, h.bytes a ha]
  have hbuilt (c : BitVec 32) : (r'.buildSeg b).segTable c = none ↔
      (r.buildSeg b).segTable c = none := by
    rw [← not_iff_not, ← ne_eq, ← ne_eq, buildSeg_segTable, buildSeg_segTable, ne_eq, ne_eq,
      h.built c]
  unfold Ram.buildSeg at hbytes hbuilt ⊢
  simp only [h.built b] at hbytes hbuilt ⊢
  split_ifs at hbytes hbuilt ⊢
  · exact ⟨h.base, h.top, h.dsegBase, h.isegBase,
      congrArg (Function.update · b _) h.reservation, hbuilt, hbytes⟩
  · exact h

theorem select (h : AgreesOff secret r r') (addr : BitVec 32) :
    AgreesOff secret (r.select addr) (r'.select addr) := by
  have hbuild := h.buildSeg (findSeg addr)
  unfold Ram.select
  rw [h.dsegBase]
  split_ifs
  · exact ⟨hbuild.base, hbuild.top, rfl, hbuild.isegBase, hbuild.reservation, hbuild.built,
      hbuild.bytes⟩
  · exact h

theorem fetch_snd (h : AgreesOff secret r r') (addr : BitVec 32) :
    AgreesOff secret (r.fetch addr).2 (r'.fetch addr).2 := by
  have hbuild := h.buildSeg (findSeg addr)
  unfold Ram.fetch
  dsimp only
  rw [h.isegBase]
  split_ifs
  · exact ⟨hbuild.base, hbuild.top, hbuild.dsegBase, rfl, hbuild.reservation, hbuild.built,
      hbuild.bytes⟩
  · exact h

/-- A fetch of a word outside the secret. -/
theorem fetch_fst (h : AgreesOff secret r r') (haligned : addr.toNat % 4 = 0)
    (hshuns : ∀ k < 4, addr + BitVec.ofNat 32 k ∉ secret) :
    (r'.fetch addr).1 = (r.fetch addr).1 := by
  rw [Ram.fetch_fst haligned, Ram.fetch_fst haligned, FlatMemory.load_eq_foldl,
    FlatMemory.load_eq_foldl]
  change List.foldl _ 0 [3, 2, 1, 0] = List.foldl _ 0 [3, 2, 1, 0]
  simp only [List.foldl_cons, List.foldl_nil]
  rw [h.bytes _ (hshuns 3 (by omega)), h.bytes _ (hshuns 2 (by omega)),
    h.bytes _ (hshuns 1 (by omega)), h.bytes _ (hshuns 0 (by omega))]

theorem amoSc_fst (h : AgreesOff secret r r') (addr : BitVec 32) :
    (r'.amoSc addr).1 = (r.amoSc addr).1 := by
  have hselect := h.select addr
  unfold Ram.amoSc Ram.dreserve
  dsimp only
  rw [hselect.dsegBase, hselect.reservation]

theorem setReserve (h : AgreesOff secret r r') (off : BitVec 32) (v : Bool) :
    AgreesOff secret (r.setReserve off v) (r'.setReserve off v) := by
  refine ⟨h.base, h.top, h.dsegBase, h.isegBase, ?_, h.built, h.bytes⟩
  unfold Ram.setReserve Ram.dreserve
  dsimp only
  rw [h.dsegBase, h.reservation]

theorem amoLr (h : AgreesOff secret r r') (addr : BitVec 32) :
    AgreesOff secret (r.amoLr addr) (r'.amoLr addr) := by
  unfold Ram.amoLr
  dsimp only
  rw [(h.select addr).dsegBase]
  exact (h.select addr).setReserve _ _

theorem write (h : AgreesOff secret r r') (addr : BitVec 32) (val : BitVec 8) :
    AgreesOff secret (r.write addr val) (r'.write addr val) := by
  have hselect := h.select addr
  have hbytes : ∀ a ∉ secret, (r'.write addr val).byteAt a = (r.write addr val).byteAt a := by
    intro a ha
    rw [write_byteAt, write_byteAt, h.bytes a ha]
  have hbuilt (b : BitVec 32) : (r'.write addr val).segTable b = none ↔
      (r.write addr val).segTable b = none := by
    unfold Ram.write Ram.setReserve
    dsimp only
    rw [hselect.dsegBase]
    by_cases hb : b = (r.select addr).dsegBase
    · rw [hb, Function.update_self, Function.update_self]
      exact iff_of_false (Option.some_ne_none _) (Option.some_ne_none _)
    · rw [Function.update_of_ne hb, Function.update_of_ne hb]
      exact hselect.built b
  refine ⟨hselect.base, hselect.top, hselect.dsegBase, hselect.isegBase, ?_, hbuilt, hbytes⟩
  unfold Ram.write Ram.setReserve Ram.dreserve
  dsimp only
  rw [hselect.dsegBase, hselect.reservation]

end Ram.AgreesOff

namespace Memory

variable {δ : Type}

/-- Two memories that differ in bytes of the secret only. -/
structure AgreesOff (secret : Set (BitVec 32)) (m m' : Memory δ) : Prop where
  ram : Ram.AgreesOff secret m.ram m'.ram
  dev : m'.dev = m.dev

/-- A request that touches no byte of the secret. -/
def Shuns (secret : Set (BitVec 32)) (addr : BitVec 32) (size : ℕ) : Prop :=
  ∀ k < size, addr + BitVec.ofNat 32 k ∉ secret

variable {devices : List (Device δ)} {secret : Set (BitVec 32)} {m m' : Memory δ}
  {addr : BitVec 32} {din : DmemIn}

namespace AgreesOff

theorem refl (secret : Set (BitVec 32)) (m : Memory δ) : AgreesOff secret m m := ⟨.refl _ _, rfl⟩

theorem covers (h : AgreesOff secret m m') (addr : BitVec 32) (dev : Device δ) :
    dev.covers m' addr = dev.covers m addr := by
  cases dev with
  | ram => rw [Device.covers, Device.covers, h.ram.base, h.ram.top]
  | other p => rfl

/-! ### Fetches -/

theorem instFetch_snd (h : AgreesOff secret m m') (iin : ImemIn) :
    AgreesOff secret (m.instFetch iin).2 (m'.instFetch iin).2 := by
  unfold instFetch
  split_ifs
  · exact ⟨h.ram.fetch_snd _, h.dev⟩
  · exact h
  · exact h

/-- A fetch outside the secret answers the same. -/
theorem instFetch_fst (h : AgreesOff secret m m') {iin : ImemIn}
    (hshuns : iin.imemReqAck = true → iin.imemAddr.toNat % 4 = 0 ∧ Shuns secret iin.imemAddr 4) :
    (m'.instFetch iin).1 = (m.instFetch iin).1 := by
  unfold instFetch
  split_ifs with hack
  · obtain ⟨haligned, hshuns⟩ := hshuns hack
    have hword := h.ram.fetch_fst haligned hshuns
    dsimp only
    rw [hword]
  · rfl
  · rfl

/-! ### Data accesses -/

/-- The read loops hold a word and a memory. The words are the same when all that was read lies
outside the secret, which `P` says. -/
def ReadsAlike (secret : Set (BitVec 32)) (P : Prop) (p p' : BitVec 32 × Memory δ) : Prop :=
  AgreesOff secret p.2 p'.2 ∧ (P → p'.1 = p.1)

variable {P : Prop} {p p' : BitVec 32 × Memory δ}

/-- Reading one byte of a device. -/
theorem read (h : AgreesOff secret m m') (addr : BitVec 32) (dev : Device δ) :
    AgreesOff secret (dev.read m addr).2 (dev.read m' addr).2 ∧
      (addr ∉ secret → (dev.read m' addr).1 = (dev.read m addr).1) := by
  cases dev with
  | ram =>
    refine ⟨⟨h.ram.select addr, h.dev⟩, fun hshuns => ?_⟩
    change (m'.ram.read addr).1 = (m.ram.read addr).1
    rw [Ram.read_fst, Ram.read_fst, h.ram.bytes addr hshuns]
  | other p =>
    exact ⟨⟨h.ram, congrArg (fun d => (p.read addr d).2) h.dev⟩,
      fun _ => congrArg (fun d => (p.read addr d).1) h.dev⟩

theorem loadByte (h : ReadsAlike secret P p p') (hP : P → addr ∉ secret) :
    ReadsAlike secret P (Memory.loadByte devices p addr) (Memory.loadByte devices p' addr) := by
  have hstart : ReadsAlike secret P (p.1 <<< 8, p.2) (p'.1 <<< 8, p'.2) :=
    ⟨h.1, fun hall => by rw [h.2 hall]⟩
  refine List.foldl_rel hstart fun dev _ q q' hq => ?_
  rw [hq.1.covers addr dev]
  split_ifs
  · obtain ⟨hagree, hbyte⟩ := hq.1.read addr dev
    refine ⟨hagree, fun hall => ?_⟩
    dsimp only
    rw [hq.2 hall, hbyte (hP hall)]
  · exact hq

theorem readRam (h : AgreesOff secret m m') (addr : BitVec 32) (size : BitVec 8) :
    ReadsAlike secret (∀ i ∈ downFrom size, addr + i ∉ secret) (m.readRam addr size)
      (m'.readRam addr size) := by
  refine List.foldl_rel ⟨h, fun _ => rfl⟩ fun i hi q q' hq => ?_
  obtain ⟨hagree, hbyte⟩ := hq.1.read (addr + i) .ram
  refine ⟨hagree, fun hall => ?_⟩
  have hbyte : (q'.2.ram.read (addr + i)).1 = (q.2.ram.read (addr + i)).1 := hbyte (hall i hi)
  dsimp only
  rw [hq.2 hall, hbyte]

theorem load (h : AgreesOff secret m m') (addr : BitVec 32) (size : BitVec 8) :
    ReadsAlike secret (∀ i ∈ downFrom size, addr + i ∉ secret)
      ((downFrom size).foldl (fun acc i => Memory.loadByte devices acc (addr + i)) (0, m))
      ((downFrom size).foldl (fun acc i => Memory.loadByte devices acc (addr + i)) (0, m')) :=
  List.foldl_rel ⟨h, fun _ => rfl⟩ fun i hi _ _ hq => loadByte hq fun hall => hall i hi

/-- The bytes that a read loop goes through. -/
theorem shuns_downFrom {size : BitVec 8} (h : Shuns secret addr size.toNat) :
    ∀ i ∈ downFrom size, addr + i ∉ secret := by
  intro i hi
  obtain ⟨k, hk, rfl⟩ := List.mem_map.mp hi
  exact h k (List.mem_range.mp (List.mem_reverse.mp hk))

/-- Answering a request leaves memories that agree, with the same answer where the request
touches no byte of the secret. -/
theorem memAccess (h : AgreesOff secret m m') (din : DmemIn) :
    AgreesOff secret (m.memAccess devices din).2 (m'.memAccess devices din).2 ∧
      ((din.dmemReqAck = true → Shuns secret din.dmemAddr din.dmemSize.toNat) →
        (m'.memAccess devices din).1 = (m.memAccess devices din).1) := by
  unfold Memory.memAccess
  split_ifs with hack hatomic hdev hsc hload hstore
  · exact ⟨h, fun _ => rfl⟩
  · refine ⟨⟨h.ram.select _, h.dev⟩, fun _ => ?_⟩
    have hflag := h.ram.amoSc_fst din.dmemAddr
    dsimp only
    rw [hflag]
  · obtain ⟨hagree, hvalue⟩ := h.readRam din.dmemAddr din.dmemSize
    refine ⟨hagree, fun hshuns => ?_⟩
    have hvalue := hvalue (shuns_downFrom (hshuns hack))
    dsimp only
    rw [hvalue]
  · obtain ⟨hagree, hvalue⟩ := @load _ devices _ _ _ h din.dmemAddr din.dmemSize
    refine ⟨hagree, fun hshuns => ?_⟩
    have hvalue := hvalue (shuns_downFrom (hshuns hack))
    dsimp only
    rw [hvalue]
  · exact ⟨h, fun _ => rfl⟩
  · exact ⟨h, fun _ => rfl⟩
  · exact ⟨h, fun _ => rfl⟩

/-! ### What is carried out -/

theorem storeByte (h : AgreesOff secret m m') (addr : BitVec 32) (val : BitVec 8) :
    AgreesOff secret (Memory.storeByte devices m addr val)
      (Memory.storeByte devices m' addr val) := by
  have hcovers : (fun dev : Device δ => dev.covers m' addr) = fun dev => dev.covers m addr :=
    funext fun dev => h.covers addr dev
  unfold Memory.storeByte
  rw [hcovers]
  split
  · rename_i dev _
    cases dev with
    | ram => exact ⟨h.ram.write addr val, h.dev⟩
    | other p => exact ⟨h.ram, congrArg (p.write addr val) h.dev⟩
  · exact h

/-- A write loop over things that agree. -/
theorem writeBytes {μ : Type} {A : μ → μ → Prop} {write : μ → BitVec 32 → BitVec 8 → μ}
    (hwrite : ∀ x y addr val, A x y → A (write x addr val) (write y addr val)) {x y : μ}
    (h : A x y) (addr : BitVec 32) (size : BitVec 8) (wdata : BitVec 32) :
    A (Memory.writeBytes write x addr size wdata) (Memory.writeBytes write y addr size wdata) := by
  rw [writeBytes_eq, writeBytes_eq]
  induction size.toNat with
  | zero => exact h
  | succ k ih => exact hwrite _ _ _ _ ih

/-- Carrying out an answered request leaves memories that agree. -/
theorem updateMemory (h : AgreesOff secret m m') (din : DmemIn) (dout : MemOut) :
    AgreesOff secret (m.updateMemory devices din dout) (m'.updateMemory devices din dout) := by
  have hram : ∀ (r r' : Ram) addr val, Ram.AgreesOff secret r r' →
      Ram.AgreesOff secret (r.write addr val) (r'.write addr val) :=
    fun _ _ addr val h => h.write addr val
  unfold Memory.updateMemory
  split_ifs
  · exact ⟨List.foldl_rel h.ram fun i _ _ _ hr => hr.amoLr _, h.dev⟩
  · exact ⟨writeBytes hram h.ram _ _ _, h.dev⟩
  · exact h
  · exact ⟨writeBytes hram h.ram _ _ _, h.dev⟩
  · exact writeBytes (fun _ _ addr val h => h.storeByte addr val) h _ _ _
  · exact h
  · exact h

end AgreesOff

end Memory

end Turtle
