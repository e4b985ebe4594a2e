import Turtle.Lib.FlatMemory
import Turtle.Ram

/-!
# Loading images

`load_to_ram` and the loop of `ArchTestMode::init` write an image into the segment
vectors directly. Each keeps the base of a segment and a pointer to its vector, which
it renews when the address leaves the segment.
-/

namespace Turtle

namespace Ram

/-- The common body of the two loops: the base is renewed and a byte is written. -/
def loadByte (acc : BitVec 32 × Ram) (addr : BitVec 32) (val : BitVec 8) : BitVec 32 × Ram :=
  let baseTmp := findSeg addr
  let acc := if acc.1 ≠ baseTmp then (baseTmp, acc.2.buildSeg baseTmp) else acc
  let mem := (acc.2.segTable acc.1).getD fun _ => 0
  (acc.1, { acc.2 with
    segTable := Function.update acc.2.segTable acc.1
      (some (Function.update mem (addr - acc.1) val)) })

/-- `load_to_ram`: `buf` holds the bytes of the file. -/
def loadToRam (r : Ram) (buf : List (BitVec 8)) (offset : BitVec 32) : Ram :=
  let base := findSeg offset
  (buf.foldl (fun (acc : BitVec 32 × BitVec 32 × Ram) val =>
    (acc.1 + 1, loadByte acc.2 acc.1 val)) (offset, base, r.buildSeg base)).2.2

/-- The loop of `ArchTestMode::init` for a segment of the ELF file, with its `mem`. -/
def loadSegment (r : Ram) (mem : List (BitVec 8)) (vaddr : BitVec 32) : Ram :=
  let base := findSeg vaddr
  (mem.zipIdx.foldl (fun acc p => loadByte acc (vaddr + BitVec.ofNat 32 p.2) p.1)
    (base, r.buildSeg base)).2

/-- Both loops: bytes from an address on. -/
def loadBytes (acc : BitVec 32 × Ram) (addr : BitVec 32) : List (BitVec 8) → BitVec 32 × Ram
  | [] => acc
  | val :: vals => loadBytes (loadByte acc addr val) (addr + 1) vals

variable {r : Ram} {acc : BitVec 32 × Ram} {addr : BitVec 32}

theorem loadToRam_eq (buf : List (BitVec 8)) (offset : BitVec 32) : r.loadToRam buf offset =
    (loadBytes (findSeg offset, r.buildSeg (findSeg offset)) offset buf).2 := by
  have key (addr : BitVec 32) (acc : BitVec 32 × Ram) :
      (buf.foldl (fun (acc : BitVec 32 × BitVec 32 × Ram) val =>
        (acc.1 + 1, loadByte acc.2 acc.1 val)) (addr, acc)).2 = loadBytes acc addr buf := by
    induction buf generalizing addr acc with
    | nil => rfl
    | cons val vals ih => exact ih (addr + 1) (loadByte acc addr val)
  exact congrArg Prod.snd (key offset _)

theorem loadSegment_eq (mem : List (BitVec 8)) (vaddr : BitVec 32) : r.loadSegment mem vaddr =
    (loadBytes (findSeg vaddr, r.buildSeg (findSeg vaddr)) vaddr mem).2 := by
  have key (k : ℕ) (acc : BitVec 32 × Ram) :
      (mem.zipIdx k).foldl (fun acc p => loadByte acc (vaddr + BitVec.ofNat 32 p.2) p.1) acc =
        loadBytes acc (vaddr + BitVec.ofNat 32 k) mem := by
    induction mem generalizing k acc with
    | nil => rfl
    | cons val vals ih =>
      have hnext : vaddr + BitVec.ofNat 32 k + 1 = vaddr + BitVec.ofNat 32 (k + 1) := by
        rw [BitVec.add_assoc, BitVec.ofNat_add]
        rfl
      rw [List.zipIdx_cons, List.foldl_cons, ih, loadBytes, hnext]
  have hloop := key 0 (findSeg vaddr, r.buildSeg (findSeg vaddr))
  rw [BitVec.add_zero] at hloop
  exact congrArg Prod.snd hloop

/-- The loops point to the vector of a segment. -/
structure Pointing (acc : BitVec 32 × Ram) : Prop where
  wellFormed : acc.2.WellFormed
  present : acc.2.segTable acc.1 ≠ none

theorem WellFormed.pointing (h : r.WellFormed) (b : BitVec 32) : Pointing (b, r.buildSeg b) :=
  ⟨h.buildSeg b, (buildSeg_segTable b b).mpr (.inl rfl)⟩

/-- A byte that a loop writes. -/
theorem Pointing.loadByte (h : Pointing acc) (addr : BitVec 32) (val : BitVec 8) :
    Pointing (loadByte acc addr val) ∧
    (Ram.loadByte acc addr val).2.byteAt = Function.update acc.2.byteAt addr val ∧
    (Ram.loadByte acc addr val).2.reservedAt = acc.2.reservedAt ∧
    (Ram.loadByte acc addr val).2.base = acc.2.base ∧
    (Ram.loadByte acc addr val).2.top = acc.2.top := by
  obtain ⟨acc', hacc', hpoint, hbase, hbytes, hres, hrange⟩ : ∃ acc' : BitVec 32 × Ram,
      (if acc.1 ≠ findSeg addr then (findSeg addr, acc.2.buildSeg (findSeg addr)) else acc) = acc' ∧
      Pointing acc' ∧ acc'.1 = findSeg addr ∧ acc'.2.byteAt = acc.2.byteAt ∧
      acc'.2.reservedAt = acc.2.reservedAt ∧ acc'.2.base = acc.2.base ∧ acc'.2.top = acc.2.top := by
    refine ⟨_, rfl, ?_⟩
    split_ifs with hne
    · refine ⟨h.wellFormed.pointing _, rfl, buildSeg_byteAt _, h.wellFormed.buildSeg_reservedAt _, ?_⟩
      unfold buildSeg
      split_ifs <;> exact ⟨rfl, rfl⟩
    · exact ⟨h, not_not.mp hne, rfl, rfl, rfl, rfl⟩
  unfold Ram.loadByte
  dsimp only
  rw [hacc']
  refine ⟨⟨⟨fun b => ?_, ?_⟩, ?_⟩, ?_, hres, hrange⟩
  · by_cases hb : b = acc'.1
    · subst hb
      exact iff_of_false (by simp) fun hnone => hpoint.present ((hpoint.wellFormed.paired _).mpr hnone)
    · simpa [hb] using hpoint.wellFormed.paired b
  · by_cases hb : acc'.2.dsegBase = acc'.1
    · simp [hb]
    · simpa [hb] using hpoint.wellFormed.current
  · simp
  · funext a
    rw [← hbytes, hbase, Function.update_apply]
    exact getD_update_current acc'.2.segTable 0 val a addr

/-- The bytes that a loop writes. -/
theorem Pointing.loadBytes (h : Pointing acc) (addr : BitVec 32) {vals : List (BitVec 8)}
    (hlen : vals.length ≤ 2 ^ 32) :
    Pointing (loadBytes acc addr vals) ∧
    (Ram.loadBytes acc addr vals).2.byteAt = FlatMemory.write acc.2.byteAt addr vals ∧
    (Ram.loadBytes acc addr vals).2.reservedAt = acc.2.reservedAt ∧
    (Ram.loadBytes acc addr vals).2.base = acc.2.base ∧
    (Ram.loadBytes acc addr vals).2.top = acc.2.top := by
  induction vals generalizing acc addr with
  | nil => exact ⟨h, rfl, rfl, rfl, rfl⟩
  | cons val vals ih =>
    obtain ⟨hnext, hbytes, hres, hbase, htop⟩ := h.loadByte addr val
    have hlen' : vals.length + 1 ≤ 2 ^ 32 := hlen
    obtain ⟨hlast, hbytes', hres', hbase', htop'⟩ := ih hnext (addr + 1) (by omega)
    refine ⟨hlast, ?_, hres'.trans hres, hbase'.trans hbase, htop'.trans htop⟩
    rw [FlatMemory.write_cons hlen, ← hbytes]
    exact hbytes'

theorem WellFormed.loadToRam (h : r.WellFormed) {buf : List (BitVec 8)} (hlen : buf.length ≤ 2 ^ 32)
    (offset : BitVec 32) : (r.loadToRam buf offset).WellFormed := by
  rw [loadToRam_eq]
  exact ((h.pointing _).loadBytes offset hlen).1.wellFormed

end Ram

end Turtle
