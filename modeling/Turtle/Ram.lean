import Mathlib.Data.BitVec
import Mathlib.Logic.Function.Basic

/-!
# RAM

`RAM` of `memory.hpp`: segments of 4 MiB that are built when first touched, with
one reservation bit per byte. The pointers `dmem`, `dreserve` and `imem` always
point to the segments of `dseg_base` and `iseg_base`, so these stand for them.
-/

namespace Turtle

/-- The bytes of a segment, by offset. -/
abbrev Segment := BitVec 32 → BitVec 8

/-- `RAM`, with the address range that it has as a device. -/
structure Ram where
  base : BitVec 32 := 0
  top : BitVec 32 := -1
  dsegBase : BitVec 32 := 0x80000000
  isegBase : BitVec 32 := 0x80000000
  segTable : BitVec 32 → Option Segment := fun _ => none
  reservation : BitVec 32 → Option (BitVec 32 → Bool) := fun _ => none

namespace Ram

/-- `SIZE`, as both testbenches instantiate it. -/
def size : BitVec 32 := 0x400000

/-- `RAM::build_seg`. -/
def buildSeg (r : Ram) (base : BitVec 32) : Ram :=
  if r.segTable base = none then
    { r with
      segTable := Function.update r.segTable base (some fun _ => 0)
      reservation := Function.update r.reservation base (some fun _ => false) }
  else r

/-- `RAM::find_seg`. -/
def findSeg (addr : BitVec 32) : BitVec 32 := addr &&& ~~~(size - 1)

/-- The constructor. -/
def init (base : BitVec 32) : Ram := ({ base := base } : Ram).buildSeg 0x80000000

/-- The common start of the data accesses: make the segment of `addr` the current
one. -/
def select (r : Ram) (addr : BitVec 32) : Ram :=
  if r.dsegBase ≠ findSeg addr then { r.buildSeg (findSeg addr) with dsegBase := findSeg addr }
  else r

/-- `*dmem`. -/
def dmem (r : Ram) : Segment := (r.segTable r.dsegBase).getD fun _ => 0

/-- `*dreserve`. -/
def dreserve (r : Ram) : BitVec 32 → Bool := (r.reservation r.dsegBase).getD fun _ => false

/-- `RAM::read`. -/
def read (r : Ram) (addr : BitVec 32) : BitVec 8 × Ram :=
  let r := r.select addr
  (r.dmem (addr - r.dsegBase), r)

/-- Set one reservation bit of the current segment. -/
def setReserve (r : Ram) (off : BitVec 32) (v : Bool) : Ram :=
  { r with
    reservation := Function.update r.reservation r.dsegBase
      (some (Function.update r.dreserve off v)) }

/-- `RAM::write`. -/
def write (r : Ram) (addr : BitVec 32) (val : BitVec 8) : Ram :=
  let r := r.select addr
  let off := addr - r.dsegBase
  let r :=
    { r with
      segTable := Function.update r.segTable r.dsegBase (some (Function.update r.dmem off val)) }
  r.setReserve off false

/-- `RAM::fetch`. -/
def fetch (r : Ram) (addr : BitVec 32) : BitVec 32 × Ram :=
  let r := if r.isegBase ≠ findSeg addr then
    { r.buildSeg (findSeg addr) with isegBase := findSeg addr } else r
  let imem := (r.segTable r.isegBase).getD fun _ => 0
  ([3, 2, 1, 0].foldl (fun out (i : ℕ) =>
    (out <<< 8) ||| (imem (addr + BitVec.ofNat 32 i - r.isegBase)).setWidth 32) 0, r)

/-- `RAM::amo_sc`: whether the store-conditional fails. -/
def amoSc (r : Ram) (addr : BitVec 32) : Bool × Ram :=
  let r := r.select addr
  (r.dreserve (addr - r.dsegBase) == false, r)

/-- `RAM::amo_lr`. -/
def amoLr (r : Ram) (addr : BitVec 32) : Ram :=
  let r := r.select addr
  r.setReserve (addr - r.dsegBase) true

/-! ### The flat view -/

/-- The byte at an address: 0 in a segment that was never built. -/
def byteAt (r : Ram) (addr : BitVec 32) : BitVec 8 :=
  (r.segTable (findSeg addr)).getD (fun _ => 0) (addr - findSeg addr)

/-- The reservation bit of an address. -/
def reservedAt (r : Ram) (addr : BitVec 32) : Bool :=
  (r.reservation (findSeg addr)).getD (fun _ => false) (addr - findSeg addr)

variable {r : Ram} {a addr : BitVec 32} {val : BitVec 8}

/-- Both tables hold the same segments, the current one among them. -/
structure WellFormed (r : Ram) : Prop where
  paired : ∀ b, r.segTable b = none ↔ r.reservation b = none
  current : r.segTable r.dsegBase ≠ none

theorem buildSeg_segTable (b c : BitVec 32) : (r.buildSeg b).segTable c ≠ none ↔
    c = b ∨ r.segTable c ≠ none := by
  unfold buildSeg
  split_ifs with hnone
  · by_cases hc : c = b
    · simp [hc]
    · simp [hc]
  · constructor
    · exact .inr
    · rintro (rfl | h)
      · exact hnone
      · exact h

theorem buildSeg_byteAt (b : BitVec 32) : (r.buildSeg b).byteAt = r.byteAt := by
  funext a
  unfold buildSeg byteAt
  split_ifs with hnone
  · by_cases ha : findSeg a = b
    · simp [ha, hnone]
    · simp [ha]
  · rfl

theorem WellFormed.buildSeg_reservedAt (h : r.WellFormed) (b : BitVec 32) :
    (r.buildSeg b).reservedAt = r.reservedAt := by
  funext a
  unfold buildSeg reservedAt
  split_ifs with hnone
  · by_cases ha : findSeg a = b
    · simp [ha, (h.paired b).mp hnone]
    · simp [ha]
  · rfl

theorem WellFormed.buildSeg (h : r.WellFormed) (b : BitVec 32) : (r.buildSeg b).WellFormed := by
  unfold Ram.buildSeg
  split_ifs
  · refine ⟨fun c => ?_, ?_⟩
    · by_cases hc : c = b
      · simp [hc]
      · simpa [hc] using h.paired c
    · by_cases hc : r.dsegBase = b
      · simp [hc]
      · simpa [hc] using h.current
  · exact h

theorem select_dsegBase : (r.select addr).dsegBase = findSeg addr := by
  unfold select
  split_ifs with h
  · rfl
  · exact not_not.mp h

theorem select_byteAt : (r.select addr).byteAt = r.byteAt := by
  unfold select
  split_ifs
  · exact buildSeg_byteAt _
  · rfl

theorem WellFormed.select_reservedAt (h : r.WellFormed) (addr : BitVec 32) :
    (r.select addr).reservedAt = r.reservedAt := by
  unfold select
  split_ifs
  · exact h.buildSeg_reservedAt _
  · rfl

theorem WellFormed.select (h : r.WellFormed) (addr : BitVec 32) : (r.select addr).WellFormed := by
  unfold Ram.select
  split_ifs
  · exact ⟨(h.buildSeg _).paired, (buildSeg_segTable _ _).mpr (.inl rfl)⟩
  · exact h

/-- Two addresses of one segment with the same offset are the same. -/
theorem eq_of_offset_eq (hseg : findSeg a = findSeg addr)
    (hoff : a - findSeg a = addr - findSeg addr) : a = addr := by
  rw [hseg] at hoff
  have h := congrArg (· + findSeg addr) hoff
  simpa using h

/-- An update of the current segment, seen at a flat address. -/
theorem getD_update_current {α : Type*} (f : BitVec 32 → Option (BitVec 32 → α)) (z v : α)
    (a addr : BitVec 32) :
    (Function.update f (findSeg addr) (some (Function.update
        ((f (findSeg addr)).getD fun _ => z) (addr - findSeg addr) v)) (findSeg a)).getD
      (fun _ => z) (a - findSeg a) =
    if a = addr then v else (f (findSeg a)).getD (fun _ => z) (a - findSeg a) := by
  by_cases hseg : findSeg a = findSeg addr
  · rw [hseg, Function.update_self, Option.getD_some, Function.update_apply]
    by_cases ha : a = addr
    · rw [if_pos (by rw [ha]), if_pos ha]
    · rw [if_neg, if_neg ha]
      intro hoff
      exact ha (eq_of_offset_eq hseg (by rw [hseg, hoff]))
  · rw [Function.update_of_ne hseg, if_neg (fun ha => hseg (by rw [ha]))]

/-! ### The operations on the flat view -/

theorem init_wellFormed (base : BitVec 32) : (init base).WellFormed := by
  refine ⟨fun b => ?_, ?_⟩
  · by_cases hb : b = 0x80000000
    · subst hb
      exact iff_of_false (by simp [init, Ram.buildSeg]) (by simp [init, Ram.buildSeg])
    · have hseg : (init base).segTable b = none := Function.update_of_ne hb _ _
      have hres : (init base).reservation b = none := Function.update_of_ne hb _ _
      exact iff_of_true hseg hres
  · simp [init, Ram.buildSeg]

theorem init_reservation (base : BitVec 32) : (init base).reservation =
    Function.update (fun _ => none) 0x80000000 (some fun _ => false) := by
  unfold init buildSeg
  rw [if_pos rfl]

theorem init_reservedAt (base : BitVec 32) : (init base).reservedAt a = false := by
  unfold reservedAt
  by_cases ha : findSeg a = 0x80000000
  · rw [init_reservation, ha, Function.update_self, Option.getD_some]
  · rw [init_reservation, Function.update_of_ne ha, Option.getD_none]

/-- Two states of the RAM that no access can tell apart. -/
structure SameView (r r' : Ram) : Prop where
  wellFormed : r'.WellFormed
  bytes : r'.byteAt = r.byteAt
  reserved : r'.reservedAt = r.reservedAt
  base : r'.base = r.base
  top : r'.top = r.top

theorem SameView.trans {r' r'' : Ram} (h : SameView r r') (h' : SameView r' r'') :
    SameView r r'' :=
  ⟨h'.wellFormed, h'.bytes.trans h.bytes, h'.reserved.trans h.reserved, h'.base.trans h.base,
    h'.top.trans h.top⟩

theorem WellFormed.sameView (h : r.WellFormed) : SameView r r := ⟨h, rfl, rfl, rfl, rfl⟩

theorem select_base : (r.select addr).base = r.base := by
  unfold select buildSeg
  split_ifs <;> rfl

theorem select_top : (r.select addr).top = r.top := by
  unfold select buildSeg
  split_ifs <;> rfl

/-- Building a segment is not visible. -/
theorem WellFormed.buildSeg_sameView (h : r.WellFormed) (b : BitVec 32) :
    SameView r (r.buildSeg b) := by
  refine ⟨h.buildSeg b, buildSeg_byteAt b, h.buildSeg_reservedAt b, ?_, ?_⟩
  all_goals
    unfold Ram.buildSeg
    split_ifs <;> rfl

/-- Selecting a segment is not visible, so neither is a read or the test of a
reservation. -/
theorem WellFormed.select_sameView (h : r.WellFormed) (addr : BitVec 32) :
    SameView r (r.select addr) :=
  ⟨h.select addr, select_byteAt, h.select_reservedAt addr, select_base, select_top⟩

/-- So is a fetch, which has its own current segment. -/
theorem WellFormed.fetch_sameView (h : r.WellFormed) (addr : BitVec 32) :
    SameView r (r.fetch addr).2 := by
  unfold fetch
  dsimp only
  split_ifs
  · have hbuild := h.buildSeg (findSeg addr)
    refine ⟨⟨hbuild.paired, hbuild.current⟩, buildSeg_byteAt _, h.buildSeg_reservedAt _, ?_, ?_⟩
    all_goals
      unfold Ram.buildSeg
      split_ifs <;> rfl
  · exact h.sameView

theorem WellFormed.amoSc_fst (h : r.WellFormed) : (r.amoSc addr).1 = !r.reservedAt addr := by
  change ((r.select addr).dreserve (addr - (r.select addr).dsegBase) == false) = _
  rw [dreserve, select_dsegBase, ← congrFun (h.select_reservedAt addr) addr, beq_false]
  rfl

theorem setReserve_reservedAt (v : Bool) (h : r.dsegBase = findSeg addr) :
    (r.setReserve (addr - r.dsegBase) v).reservedAt a =
      if a = addr then v else r.reservedAt a := by
  unfold reservedAt
  rw [← getD_update_current r.reservation false v a addr]
  unfold setReserve dreserve
  rw [h]

theorem WellFormed.setReserve (h : r.WellFormed) (off : BitVec 32) (v : Bool) :
    (r.setReserve off v).WellFormed := by
  refine ⟨fun b => ?_, h.current⟩
  by_cases hb : b = r.dsegBase
  · subst hb
    exact iff_of_false h.current (by simp [Ram.setReserve])
  · have hres : (r.setReserve off v).reservation b = r.reservation b :=
      Function.update_of_ne hb _ _
    rw [hres]
    exact h.paired b

theorem write_byteAt : (r.write addr val).byteAt a = if a = addr then val else r.byteAt a := by
  rw [← congrFun (select_byteAt (r := r)) a]
  unfold byteAt
  rw [← getD_update_current (r.select addr).segTable 0 val a addr]
  unfold write setReserve dmem
  dsimp only
  rw [select_dsegBase]

theorem WellFormed.write_reservedAt (h : r.WellFormed) :
    (r.write addr val).reservedAt a = if a = addr then false else r.reservedAt a := by
  rw [← congrFun (h.select_reservedAt addr) a]
  exact setReserve_reservedAt false select_dsegBase

theorem WellFormed.write (h : r.WellFormed) (addr : BitVec 32) (val : BitVec 8) :
    (r.write addr val).WellFormed := by
  refine WellFormed.setReserve ⟨fun b => ?_, by simp⟩ _ _
  have hs := h.select addr
  by_cases hb : b = (r.select addr).dsegBase
  · subst hb
    exact iff_of_false (by simp) (fun hnone => hs.current ((hs.paired _).mpr hnone))
  · simpa [hb] using hs.paired b

theorem write_base : (r.write addr val).base = r.base := select_base

theorem write_top : (r.write addr val).top = r.top := select_top

theorem amoLr_byteAt : (r.amoLr addr).byteAt = r.byteAt := select_byteAt

theorem WellFormed.amoLr_reservedAt (h : r.WellFormed) :
    (r.amoLr addr).reservedAt a = if a = addr then true else r.reservedAt a := by
  rw [← congrFun (h.select_reservedAt addr) a]
  exact setReserve_reservedAt true select_dsegBase

theorem WellFormed.amoLr (h : r.WellFormed) (addr : BitVec 32) : (r.amoLr addr).WellFormed :=
  (h.select addr).setReserve _ _

end Ram

end Turtle
