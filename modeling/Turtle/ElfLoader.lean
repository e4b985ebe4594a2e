import Turtle.Lib.Buffer
import Turtle.Lib.Lanes
import Turtle.Loader

/-!
# The ELF loader

`elf_loader32.hpp`: `load_elf32` reads an ELF file into a vector, checks its header and
copies the bytes of each loadable segment into a buffer. Offsets, sizes and counts come from
the file. The segment map that it prints, and its warning about `e_machine`, are not
modelled, and memory is taken to suffice for every buffer.
-/

namespace Turtle

/-- `SegmentInfo`. -/
structure SegmentInfo where
  vaddr : BitVec 32
  memsz : BitVec 32
  flags : BitVec 32
  mem : List (BitVec 8)
  deriving DecidableEq, Repr

/-- `LoadedELF`. -/
structure LoadedElf where
  entry : BitVec 32
  segments : List SegmentInfo
  deriving DecidableEq, Repr

/-- How a load can end without a result. -/
inductive LoadError
  /-- A `std::runtime_error`. -/
  | thrown (what : String)
  /-- An access outside the file or outside a segment buffer. -/
  | outOfBounds
  deriving DecidableEq, Repr

/-- What `read_file_to_vector` finds at a path. -/
inductive FileAt
  | missing
  | unreadable
  | contents (filedata : List (BitVec 8))

namespace Elf

/-- `sizeof(Elf32_Ehdr)`. -/
def ehdrSize : ℕ := 52

/-- `sizeof(Elf32_Phdr)`, by which `phdrs[i]` steps. -/
def phdrSize : ℕ := 32

/-- `PT_LOAD`. -/
def ptLoad : BitVec 32 := 1

/-! ### Accesses -/

/-- The little-endian field of `k` bytes at an offset. -/
def field (n k : ℕ) (filedata : List (BitVec 8)) (off : ℕ) : BitVec n :=
  Lanes.pack n ((filedata.drop off).take k)

/-- A read of a field. -/
def readField (n k : ℕ) (filedata : List (BitVec 8)) (off : ℕ) : Except LoadError (BitVec n) :=
  if off + k ≤ filedata.length then .ok (field n k filedata off) else .error .outOfBounds

/-- A read of an `Elf32_Word`, an `Elf32_Off` or an `Elf32_Addr`. -/
def readWord (filedata : List (BitVec 8)) (off : ℕ) : Except LoadError (BitVec 32) :=
  readField 32 4 filedata off

/-- The outcome of accesses to buffers. -/
def access {α : Type} : Option α → Except LoadError α
  | none => .error .outOfBounds
  | some a => .ok a

/-- `if (c) throw std::runtime_error(what)`. -/
def throwIf (c : Prop) [Decidable c] (what : String) : Except LoadError Unit :=
  if c then .error (.thrown what) else .ok ()

/-- `read_file_to_vector`. -/
def readFileToVector : FileAt → Except LoadError (List (BitVec 8))
  | .missing => .error (.thrown "failed to open ELF file")
  | .unreadable => .error (.thrown "failed to read ELF file contents")
  | .contents filedata => .ok filedata

/-! ### The loader -/

/-- The body of the loop over the program headers, for the header at `ph`. A header that is
not loadable gives `none`. -/
def loadPhdr (filedata : List (BitVec 8)) (ph : ℕ) : Except LoadError (Option SegmentInfo) := do
  let pType ← readWord filedata ph
  if pType ≠ ptLoad then return none
  let mem := List.replicate (← readWord filedata (ph + 20)).toNat 0
  let pOffset ← readWord filedata (ph + 4)
  let pFilesz ← readWord filedata (ph + 16)
  -- The sum has 32 bits, the size of the file has 64.
  throwIf (filedata.length < (pOffset + pFilesz).toNat)
    "segment file size / offset out of range"
  let mem ← access (Buffer.copy filedata pOffset.toNat mem 0 pFilesz.toNat)
  let vaddr ← readWord filedata (ph + 8)
  let memsz ← readWord filedata (ph + 20)
  let flags ← readWord filedata (ph + 24)
  return some { vaddr, memsz, flags, mem }

/-- The loop: `n` headers from the one at `ph` on. -/
def loadPhdrs (filedata : List (BitVec 8)) (ph : ℕ) (segments : List SegmentInfo) :
    ℕ → Except LoadError (List SegmentInfo)
  | 0 => .ok segments
  | n + 1 => do
    let info ← loadPhdr filedata ph
    loadPhdrs filedata (ph + phdrSize) (segments ++ info.toList) n

/-- The checks of `load_elf32`. -/
def checkHeader (filedata : List (BitVec 8)) : Except LoadError Unit := do
  throwIf (filedata.length < ehdrSize) "file too small for ELF header"
  let mag0 ← readField 8 1 filedata 0
  let mag1 ← readField 8 1 filedata 1
  let mag2 ← readField 8 1 filedata 2
  let mag3 ← readField 8 1 filedata 3
  throwIf (mag0 ≠ 0x7f ∨ mag1 ≠ 0x45 ∨ mag2 ≠ 0x4c ∨ mag3 ≠ 0x46) "not an ELF file"
  let eiClass ← readField 8 1 filedata 4
  throwIf (eiClass ≠ 1) "not ELF32"
  let eiData ← readField 8 1 filedata 5
  throwIf (eiData ≠ 1) "not little-endian"
  let ePhoff ← readWord filedata 28
  let ePhnum ← readField 16 2 filedata 44
  throwIf (ePhoff = 0 ∨ ePhnum = 0) "no program headers"

/-- `load_elf32`. -/
def loadElf32 (path : FileAt) : Except LoadError LoadedElf := do
  let filedata ← readFileToVector path
  checkHeader filedata
  let ePhoff ← readWord filedata 28
  let ePhnum ← readField 16 2 filedata 44
  let segments ← loadPhdrs filedata ePhoff.toNat [] ePhnum.toNat
  let entry ← readWord filedata 24
  return { entry, segments }

/-! ### Fields of a file -/

/-- `Elf32_Phdr`, less `p_paddr` and `p_align`. -/
structure Phdr where
  pType : BitVec 32
  pOffset : BitVec 32
  pVaddr : BitVec 32
  pFilesz : BitVec 32
  pMemsz : BitVec 32
  pFlags : BitVec 32
  deriving DecidableEq, Repr

/-- The program header at `ph`. Bytes beyond the file count as zeros. -/
def phdr (filedata : List (BitVec 8)) (ph : ℕ) : Phdr where
  pType := field 32 4 filedata ph
  pOffset := field 32 4 filedata (ph + 4)
  pVaddr := field 32 4 filedata (ph + 8)
  pFilesz := field 32 4 filedata (ph + 16)
  pMemsz := field 32 4 filedata (ph + 20)
  pFlags := field 32 4 filedata (ph + 24)

/-- The file passes the checks on its header. -/
structure HeaderOk (filedata : List (BitVec 8)) : Prop where
  size : ehdrSize ≤ filedata.length
  mag0 : field 8 1 filedata 0 = 0x7f
  mag1 : field 8 1 filedata 1 = 0x45
  mag2 : field 8 1 filedata 2 = 0x4c
  mag3 : field 8 1 filedata 3 = 0x46
  eiClass : field 8 1 filedata 4 = 1
  eiData : field 8 1 filedata 5 = 1
  phoff : field 32 4 filedata 28 ≠ 0
  phnum : field 16 2 filedata 44 ≠ 0

/-- The number of program headers. -/
def phnum (filedata : List (BitVec 8)) : ℕ := (field 16 2 filedata 44).toNat

/-- Where the program header of an index starts. -/
def phdrAt (filedata : List (BitVec 8)) (i : ℕ) : ℕ :=
  (field 32 4 filedata 28).toNat + phdrSize * i

/-- The range check throws at a header. -/
def Rejected (filedata : List (BitVec 8)) (ph : ℕ) : Prop :=
  (phdr filedata ph).pType = ptLoad ∧
    filedata.length < ((phdr filedata ph).pOffset + (phdr filedata ph).pFilesz).toNat

/-- The range check is made at a header and passes. -/
def Accepted (filedata : List (BitVec 8)) (ph : ℕ) : Prop :=
  (phdr filedata ph).pType = ptLoad ∧
    ((phdr filedata ph).pOffset + (phdr filedata ph).pFilesz).toNat ≤ filedata.length

/-- What the loader reads of a header lies in the file, and so do the bytes of an accepted
segment, which are at most as many as its buffer holds. -/
structure Loadable (filedata : List (BitVec 8)) (ph : ℕ) : Prop where
  typeIn : ph + 4 ≤ filedata.length
  sizesIn : (phdr filedata ph).pType = ptLoad → ph + 24 ≤ filedata.length
  flagsIn : Accepted filedata ph → ph + 28 ≤ filedata.length
  bytesIn : Accepted filedata ph →
    (phdr filedata ph).pOffset.toNat + (phdr filedata ph).pFilesz.toNat ≤ filedata.length
  fits : Accepted filedata ph → (phdr filedata ph).pFilesz ≤ (phdr filedata ph).pMemsz

/-- Every header that the loop reaches is loadable. -/
def HeadersLoadable (filedata : List (BitVec 8)) : Prop :=
  HeaderOk filedata → ∀ i < phnum filedata,
    (∀ j < i, ¬ Rejected filedata (phdrAt filedata j)) → Loadable filedata (phdrAt filedata i)

instance (filedata : List (BitVec 8)) (ph : ℕ) : Decidable (Rejected filedata ph) :=
  inferInstanceAs (Decidable (_ ∧ _))

/-- The segment that a header describes: its bytes of the file, and zeros. -/
def segment (filedata : List (BitVec 8)) (ph : ℕ) : SegmentInfo :=
  let h := phdr filedata ph
  { vaddr := h.pVaddr
    memsz := h.pMemsz
    flags := h.pFlags
    mem := (filedata.drop h.pOffset.toNat).take h.pFilesz.toNat ++
      List.replicate (h.pMemsz.toNat - h.pFilesz.toNat) 0 }

/-- A segment is the image of a header: as many bytes as its memory size, the bytes of the
file first and then zeros. -/
structure IsImage (filedata : List (BitVec 8)) (ph : ℕ) (info : SegmentInfo) : Prop where
  vaddr : info.vaddr = (phdr filedata ph).pVaddr
  memsz : info.memsz = (phdr filedata ph).pMemsz
  flags : info.flags = (phdr filedata ph).pFlags
  length : info.mem.length = (phdr filedata ph).pMemsz.toNat
  inFile : (phdr filedata ph).pOffset.toNat + (phdr filedata ph).pFilesz.toNat ≤ filedata.length
  mem : info.mem =
    (filedata.drop (phdr filedata ph).pOffset.toNat).take (phdr filedata ph).pFilesz.toNat ++
      List.replicate ((phdr filedata ph).pMemsz.toNat - (phdr filedata ph).pFilesz.toNat) 0

/-- The loadable headers of a file, in order. -/
def loadHeaders (filedata : List (BitVec 8)) : List ℕ :=
  ((List.range (phnum filedata)).map (phdrAt filedata)).filter fun ph =>
    (phdr filedata ph).pType = ptLoad

/-- A load of the file throws or returns, without an access outside the file or a segment
buffer, and what it returns holds the images of the loadable headers, in order. -/
structure LoadsSafely (filedata : List (BitVec 8)) : Prop where
  inBounds : loadElf32 (.contents filedata) ≠ .error .outOfBounds
  images : ∀ elf, loadElf32 (.contents filedata) = .ok elf →
    List.Forall₂ (IsImage filedata) (loadHeaders filedata) elf.segments

variable {filedata : List (BitVec 8)} {ph off : ℕ}

/-! ### One header -/

theorem readField_of_le {n k : ℕ} (h : off + k ≤ filedata.length) :
    readField n k filedata off = .ok (field n k filedata off) := if_pos h

theorem readWord_of_le (h : off + 4 ≤ filedata.length) :
    readWord filedata off = .ok (field 32 4 filedata off) := readField_of_le h

theorem readWord_of_lt (h : filedata.length < off + 4) :
    readWord filedata off = .error .outOfBounds := if_neg (Nat.not_le_of_lt h)

/-- The loop passes a header that is not loadable. -/
theorem loadPhdr_skip (h : Loadable filedata ph) (htype : (phdr filedata ph).pType ≠ ptLoad) :
    loadPhdr filedata ph = .ok none := by
  unfold loadPhdr
  rw [readWord_of_le h.typeIn]
  exact if_pos htype

/-- The body of the loop for a loadable header whose sizes lie in the file. -/
theorem loadPhdr_load (hin : ph + 24 ≤ filedata.length)
    (htype : (phdr filedata ph).pType = ptLoad) :
    loadPhdr filedata ph =
      if Rejected filedata ph then .error (.thrown "segment file size / offset out of range")
      else (access (Buffer.copy filedata (phdr filedata ph).pOffset.toNat
          (List.replicate (phdr filedata ph).pMemsz.toNat 0) 0
          (phdr filedata ph).pFilesz.toNat)).bind fun mem =>
        (readWord filedata (ph + 24)).bind fun flags =>
          .ok (some ⟨(phdr filedata ph).pVaddr, (phdr filedata ph).pMemsz, flags, mem⟩) := by
  have hload : ¬ field 32 4 filedata ph ≠ ptLoad := not_not.mpr htype
  have hrej : Rejected filedata ph ↔ filedata.length <
      (field 32 4 filedata (ph + 4) + field 32 4 filedata (ph + 16)).toNat :=
    and_iff_right htype
  have hword (off : ℕ) (hoff : off ≤ ph + 20) :
      readWord filedata off = .ok (field 32 4 filedata off) := readWord_of_le (by omega)
  have htypeIn := hword ph (by omega)
  have hoffset := hword (ph + 4) (by omega)
  have hvaddr := hword (ph + 8) (by omega)
  have hfilesz := hword (ph + 16) (by omega)
  have hmemsz := hword (ph + 20) (by omega)
  unfold loadPhdr
  simp only [htypeIn, hoffset, hvaddr, hfilesz, hmemsz, bind, Except.bind, if_neg hload, throwIf]
  by_cases h : Rejected filedata ph
  · rw [if_pos h, if_pos (hrej.mp h)]
  · rw [if_neg h, if_neg (mt hrej.mpr h)]
    rfl

/-- The range check throws. -/
theorem loadPhdr_reject (h : Loadable filedata ph) (hrej : Rejected filedata ph) :
    loadPhdr filedata ph = .error (.thrown "segment file size / offset out of range") := by
  rw [loadPhdr_load (h.sizesIn hrej.1) hrej.1, if_pos hrej]

theorem accepted_iff : Accepted filedata ph ↔
    (phdr filedata ph).pType = ptLoad ∧ ¬ Rejected filedata ph := by
  unfold Accepted Rejected
  constructor
  · rintro ⟨htype, hle⟩
    exact ⟨htype, fun hrej => absurd hrej.2 (Nat.not_lt_of_le hle)⟩
  · rintro ⟨htype, hrej⟩
    exact ⟨htype, Nat.le_of_not_lt fun hlt => hrej ⟨htype, hlt⟩⟩

/-- An accepted segment that is loadable is copied. -/
theorem loadPhdr_accept (h : Loadable filedata ph) (hacc : Accepted filedata ph) :
    loadPhdr filedata ph = .ok (some (segment filedata ph)) := by
  obtain ⟨htype, hrej⟩ := accepted_iff.mp hacc
  have hbytes := h.bytesIn hacc
  have hfits : (phdr filedata ph).pFilesz.toNat ≤ (phdr filedata ph).pMemsz.toNat := h.fits hacc
  have hdst : 0 + (phdr filedata ph).pFilesz.toNat ≤
      (List.replicate (phdr filedata ph).pMemsz.toNat (0 : BitVec 8)).length := by
    rwa [Nat.zero_add, List.length_replicate]
  have hcopy := Buffer.copy_eq hbytes hdst
  have hlen : ((filedata.drop (phdr filedata ph).pOffset.toNat).take
      (phdr filedata ph).pFilesz.toNat).length = (phdr filedata ph).pFilesz.toNat := by
    rw [List.length_take, List.length_drop]
    omega
  rw [loadPhdr_load (h.sizesIn htype) htype, if_neg hrej, hcopy, readWord_of_le (h.flagsIn hacc),
    Buffer.overlay, List.take_zero, List.nil_append, Nat.zero_add, hlen, List.drop_replicate]
  rfl

/-- A copy that does not fit the file and the segment buffer leaves one of them. -/
theorem copy_outOfBounds (hacc : Accepted filedata ph)
    (h : ¬ ((phdr filedata ph).pOffset.toNat + (phdr filedata ph).pFilesz.toNat ≤
      filedata.length ∧ (phdr filedata ph).pFilesz ≤ (phdr filedata ph).pMemsz)) :
    Buffer.copy filedata (phdr filedata ph).pOffset.toNat
      (List.replicate (phdr filedata ph).pMemsz.toNat 0) 0 (phdr filedata ph).pFilesz.toNat =
        none := by
  have hpos : 0 < (phdr filedata ph).pFilesz.toNat := by
    by_contra hzero
    have hnone : (phdr filedata ph).pFilesz = 0#32 :=
      BitVec.eq_of_toNat_eq (by simpa using hzero)
    -- Without bytes to copy the range check is about the offset alone.
    have hoffset : (phdr filedata ph).pOffset.toNat ≤ filedata.length := by
      have hle := hacc.2
      rwa [hnone, BitVec.add_zero] at hle
    rw [hnone] at h
    exact h ⟨hoffset, Nat.zero_le _⟩
  apply Buffer.copy_eq_none hpos
  rw [List.length_replicate]
  rw [BitVec.le_def] at h
  omega

/-- A header that is not loadable makes the loader leave the file or a segment buffer. -/
theorem loadPhdr_outOfBounds (h : ¬ Loadable filedata ph) :
    loadPhdr filedata ph = .error .outOfBounds := by
  by_cases htypeIn : ph + 4 ≤ filedata.length
  · by_cases htype : (phdr filedata ph).pType = ptLoad
    · by_cases hsizes : ph + 24 ≤ filedata.length
      · have hrej : ¬ Rejected filedata ph := fun hrej =>
          h ⟨htypeIn, fun _ => hsizes, fun hacc => absurd hrej (accepted_iff.mp hacc).2,
            fun hacc => absurd hrej (accepted_iff.mp hacc).2,
            fun hacc => absurd hrej (accepted_iff.mp hacc).2⟩
        have hacc : Accepted filedata ph := accepted_iff.mpr ⟨htype, hrej⟩
        rw [loadPhdr_load hsizes htype, if_neg hrej]
        by_cases hcopy : (phdr filedata ph).pOffset.toNat + (phdr filedata ph).pFilesz.toNat ≤
            filedata.length ∧ (phdr filedata ph).pFilesz ≤ (phdr filedata ph).pMemsz
        · have hflags : filedata.length < ph + 24 + 4 := by
            by_contra hle
            exact h ⟨htypeIn, fun _ => hsizes, fun _ => Nat.le_of_not_lt hle, fun _ => hcopy.1,
              fun _ => hcopy.2⟩
          have hfits : (phdr filedata ph).pFilesz.toNat ≤ (phdr filedata ph).pMemsz.toNat :=
            hcopy.2
          rw [Buffer.copy_eq hcopy.1 (by rwa [Nat.zero_add, List.length_replicate]),
            readWord_of_lt hflags]
          rfl
        · rw [copy_outOfBounds hacc hcopy]
          rfl
      · have hload : ¬ field 32 4 filedata ph ≠ ptLoad := not_not.mpr htype
        have hmemsz : filedata.length < ph + 20 + 4 := by omega
        unfold loadPhdr
        simp only [readWord_of_le htypeIn, readWord_of_lt hmemsz, bind, Except.bind, if_neg hload]
    · have hskip : ¬ Accepted filedata ph := fun hacc => htype hacc.1
      exact absurd ⟨htypeIn, fun h => absurd h htype, fun h => absurd h hskip,
        fun h => absurd h hskip, fun h => absurd h hskip⟩ h
  · unfold loadPhdr
    rw [readWord_of_lt (Nat.lt_of_not_le htypeIn)]
    rfl

/-- The segment of an accepted header is its image. -/
theorem Loadable.isImage (h : Loadable filedata ph) (hacc : Accepted filedata ph) :
    IsImage filedata ph (segment filedata ph) := by
  have hbytes := h.bytesIn hacc
  have hfits : (phdr filedata ph).pFilesz.toNat ≤ (phdr filedata ph).pMemsz.toNat := h.fits hacc
  refine ⟨rfl, rfl, rfl, ?_, hbytes, rfl⟩
  rw [segment, List.length_append, List.length_take, List.length_drop, List.length_replicate]
  omega

/-! ### All headers -/

/-- What the body of the loop can do with a header. -/
theorem loadPhdr_cases (filedata : List (BitVec 8)) (ph : ℕ) :
    (¬ Loadable filedata ph ∧ loadPhdr filedata ph = .error .outOfBounds) ∨
    (Loadable filedata ph ∧ Rejected filedata ph ∧
      loadPhdr filedata ph = .error (.thrown "segment file size / offset out of range")) ∨
    (Loadable filedata ph ∧ ¬ Rejected filedata ph ∧ ∃ info : Option SegmentInfo,
      loadPhdr filedata ph = .ok info ∧
      List.Forall₂ (IsImage filedata)
        ([ph].filter fun ph => (phdr filedata ph).pType = ptLoad) info.toList) := by
  by_cases hload : Loadable filedata ph
  · by_cases hrej : Rejected filedata ph
    · exact .inr (.inl ⟨hload, hrej, loadPhdr_reject hload hrej⟩)
    · refine .inr (.inr ⟨hload, hrej, ?_⟩)
      by_cases htype : (phdr filedata ph).pType = ptLoad
      · have hacc : Accepted filedata ph := accepted_iff.mpr ⟨htype, hrej⟩
        refine ⟨_, loadPhdr_accept hload hacc, ?_⟩
        rw [List.filter_cons_of_pos (by simpa using htype), List.filter_nil]
        exact .cons (hload.isImage hacc) .nil
      · refine ⟨_, loadPhdr_skip hload htype, ?_⟩
        rw [List.filter_cons_of_neg (by simpa using htype), List.filter_nil]
        exact .nil
  · exact .inl ⟨hload, loadPhdr_outOfBounds hload⟩

theorem loadPhdrs_error {e : LoadError} {segments : List SegmentInfo} {n : ℕ}
    (h : loadPhdr filedata ph = .error e) :
    loadPhdrs filedata ph segments (n + 1) = .error e := by
  rw [loadPhdrs, h]
  rfl

theorem loadPhdrs_next {info : Option SegmentInfo} {segments : List SegmentInfo} {n : ℕ}
    (h : loadPhdr filedata ph = .ok info) :
    loadPhdrs filedata ph segments (n + 1) =
      loadPhdrs filedata (ph + phdrSize) (segments ++ info.toList) n := by
  rw [loadPhdrs, h]
  rfl

theorem phdrSize_mul_succ (ph i : ℕ) :
    ph + phdrSize * (i + 1) = ph + phdrSize + phdrSize * i := by
  rw [Nat.mul_add, Nat.mul_one, Nat.add_comm (phdrSize * i), Nat.add_assoc]

/-- The first header that is not loadable makes the loop leave a buffer, unless the range
check throws before. -/
theorem loadPhdrs_outOfBounds_iff (segments : List SegmentInfo) (n : ℕ) :
    loadPhdrs filedata ph segments n = .error .outOfBounds ↔
      ∃ i < n, (∀ j < i, ¬ Rejected filedata (ph + phdrSize * j)) ∧
        ¬ Loadable filedata (ph + phdrSize * i) := by
  induction n generalizing ph segments with
  | zero => exact iff_of_false (by simp [loadPhdrs]) (by simp)
  | succ n ih =>
    rw [Nat.exists_lt_succ_left]
    simp only [Nat.forall_lt_succ_left, phdrSize_mul_succ, Nat.mul_zero, Nat.add_zero,
      Nat.not_lt_zero, false_imp_iff, implies_true, true_and]
    obtain ⟨hload, hbody⟩ | ⟨hload, hrej, hbody⟩ | ⟨hload, hrej, info, hbody, -⟩ :=
      loadPhdr_cases filedata ph
    · exact iff_of_true (loadPhdrs_error hbody) (.inl hload)
    · rw [loadPhdrs_error hbody]
      simp [hload, hrej]
    · rw [loadPhdrs_next hbody, ih]
      simp [hload, hrej]

/-- The images that the loop appends. -/
theorem loadPhdrs_images {segments out : List SegmentInfo} {n : ℕ}
    (h : loadPhdrs filedata ph segments n = .ok out) :
    ∃ infos, out = segments ++ infos ∧ List.Forall₂ (IsImage filedata)
      (((List.range n).map (ph + phdrSize * ·)).filter fun ph =>
        (phdr filedata ph).pType = ptLoad) infos := by
  induction n generalizing ph segments with
  | zero =>
    cases h
    exact ⟨[], (List.append_nil _).symm, .nil⟩
  | succ n ih =>
    obtain ⟨-, hbody⟩ | ⟨-, -, hbody⟩ | ⟨-, -, info, hbody, himage⟩ := loadPhdr_cases filedata ph
    · rw [loadPhdrs_error hbody] at h
      cases h
    · rw [loadPhdrs_error hbody] at h
      cases h
    · rw [loadPhdrs_next hbody] at h
      obtain ⟨infos, rfl, himages⟩ := ih h
      refine ⟨info.toList ++ infos, List.append_assoc .., ?_⟩
      have hheaders : (List.range (n + 1)).map (ph + phdrSize * ·) =
          [ph] ++ (List.range n).map (ph + phdrSize + phdrSize * ·) := by
        rw [List.range_succ_eq_map, List.map_cons, List.map_map, List.singleton_append]
        congr 1
        exact List.map_congr_left fun i _ => phdrSize_mul_succ ph i
      rw [hheaders, List.filter_append]
      exact List.rel_append himage himages

/-! ### The whole file -/

/-- The checks of a header that lies in the file. -/
theorem checkHeader_eq (h : ehdrSize ≤ filedata.length) : checkHeader filedata =
    if field 8 1 filedata 0 ≠ 0x7f ∨ field 8 1 filedata 1 ≠ 0x45 ∨
      field 8 1 filedata 2 ≠ 0x4c ∨ field 8 1 filedata 3 ≠ 0x46 then
      .error (.thrown "not an ELF file")
    else if field 8 1 filedata 4 ≠ 1 then .error (.thrown "not ELF32")
    else if field 8 1 filedata 5 ≠ 1 then .error (.thrown "not little-endian")
    else if field 32 4 filedata 28 = 0 ∨ field 16 2 filedata 44 = 0 then
      .error (.thrown "no program headers")
    else .ok () := by
  have hbyte (off : ℕ) (hoff : off < 52) :
      readField 8 1 filedata off = .ok (field 8 1 filedata off) :=
    readField_of_le (Nat.le_trans hoff h)
  have hphoff : readWord filedata 28 = .ok (field 32 4 filedata 28) :=
    readWord_of_le (Nat.le_trans (by decide) h)
  have hphnum : readField 16 2 filedata 44 = .ok (field 16 2 filedata 44) :=
    readField_of_le (Nat.le_trans (by decide) h)
  unfold checkHeader
  simp only [throwIf, if_neg (Nat.not_lt_of_le h), hbyte 0 (by decide), hbyte 1 (by decide),
    hbyte 2 (by decide), hbyte 3 (by decide), hbyte 4 (by decide), hbyte 5 (by decide), hphoff,
    hphnum, bind, Except.bind]
  split_ifs <;> rfl

/-- The checks accept exactly the files with a good header, and throw on the others. -/
theorem checkHeader_cases (filedata : List (BitVec 8)) :
    (HeaderOk filedata ∧ checkHeader filedata = .ok ()) ∨
    (¬ HeaderOk filedata ∧ ∃ what, checkHeader filedata = .error (.thrown what)) := by
  by_cases hsize : ehdrSize ≤ filedata.length
  · rw [checkHeader_eq hsize]
    split_ifs with hmag hclass hdata hph
    · refine .inr ⟨fun h => ?_, _, rfl⟩
      simp [h.mag0, h.mag1, h.mag2, h.mag3] at hmag
    · exact .inr ⟨fun h => hclass h.eiClass, _, rfl⟩
    · exact .inr ⟨fun h => hdata h.eiData, _, rfl⟩
    · exact .inr ⟨fun h => hph.elim h.phoff h.phnum, _, rfl⟩
    · simp only [not_or, not_not] at hmag hclass hdata hph
      exact .inl ⟨⟨hsize, hmag.1, hmag.2.1, hmag.2.2.1, hmag.2.2.2, hclass, hdata, hph.1, hph.2⟩,
        rfl⟩
  · refine .inr ⟨fun h => hsize h.size, "file too small for ELF header", ?_⟩
    unfold checkHeader
    simp only [throwIf, if_pos (Nat.lt_of_not_le hsize)]
    rfl

/-- A file with a good header. -/
theorem loadElf32_of_headerOk (h : HeaderOk filedata) : loadElf32 (.contents filedata) =
    (loadPhdrs filedata (phdrAt filedata 0) [] (phnum filedata)).map fun segments =>
      { entry := field 32 4 filedata 24, segments } := by
  obtain ⟨-, hcheck⟩ | ⟨hnot, -⟩ := checkHeader_cases filedata
  · have hsize : 52 ≤ filedata.length := h.size
    have hphoff : readWord filedata 28 = .ok (field 32 4 filedata 28) :=
      readWord_of_le (Nat.le_trans (by decide) hsize)
    have hphnum : readField 16 2 filedata 44 = .ok (field 16 2 filedata 44) :=
      readField_of_le (Nat.le_trans (by decide) hsize)
    have hentry : readWord filedata 24 = .ok (field 32 4 filedata 24) :=
      readWord_of_le (Nat.le_trans (by decide) hsize)
    have hfirst : phdrAt filedata 0 = (field 32 4 filedata 28).toNat := by
      rw [phdrAt, Nat.mul_zero, Nat.add_zero]
    rw [hfirst, phnum]
    simp only [loadElf32, readFileToVector, hcheck, hphoff, hphnum, hentry, bind, Except.bind]
    cases loadPhdrs filedata (field 32 4 filedata 28).toNat [] (field 16 2 filedata 44).toNat <;>
      rfl
  · exact absurd h hnot

/-- A file that the checks refuse. -/
theorem loadElf32_of_not_headerOk (h : ¬ HeaderOk filedata) :
    ∃ what, loadElf32 (.contents filedata) = .error (.thrown what) := by
  obtain ⟨hok, -⟩ | ⟨-, what, hcheck⟩ := checkHeader_cases filedata
  · exact absurd hok h
  · refine ⟨what, ?_⟩
    simp only [loadElf32, readFileToVector, hcheck, bind, Except.bind]

theorem phdrAt_eq (filedata : List (BitVec 8)) (i : ℕ) :
    phdrAt filedata i = phdrAt filedata 0 + phdrSize * i := by
  rw [phdrAt, phdrAt, Nat.mul_zero, Nat.add_zero]

/-- Which files make the loader leave the file or a segment buffer. -/
theorem loadElf32_outOfBounds_iff :
    loadElf32 (.contents filedata) = .error .outOfBounds ↔ ¬ HeadersLoadable filedata := by
  unfold HeadersLoadable
  by_cases h : HeaderOk filedata
  · have hmap : loadElf32 (.contents filedata) = .error .outOfBounds ↔
        loadPhdrs filedata (phdrAt filedata 0) [] (phnum filedata) = .error .outOfBounds := by
      rw [loadElf32_of_headerOk h]
      cases loadPhdrs filedata (phdrAt filedata 0) [] (phnum filedata) <;> simp [Except.map]
    rw [hmap, loadPhdrs_outOfBounds_iff]
    simp only [← phdrAt_eq, h, true_imp_iff]
    push Not
    rfl
  · obtain ⟨what, hthrow⟩ := loadElf32_of_not_headerOk h
    rw [hthrow]
    simp [h]

/-- When `load_elf32` returns, the segments are the images of the loadable headers. -/
theorem loadElf32_images {elf : LoadedElf} (h : loadElf32 (.contents filedata) = .ok elf) :
    List.Forall₂ (IsImage filedata) (loadHeaders filedata) elf.segments := by
  by_cases hok : HeaderOk filedata
  · rw [loadElf32_of_headerOk hok] at h
    cases hloop : loadPhdrs filedata (phdrAt filedata 0) [] (phnum filedata) with
    | error e =>
      rw [hloop] at h
      cases h
    | ok segments =>
      rw [hloop] at h
      cases h
      obtain ⟨infos, rfl, himages⟩ := loadPhdrs_images hloop
      simp only [← phdrAt_eq] at himages
      exact himages
  · obtain ⟨what, hthrow⟩ := loadElf32_of_not_headerOk hok
    rw [hthrow] at h
    cases h

/-- A file is loaded safely exactly when the headers that the loop reaches are loadable: the
headers and the accepted segments lie in the file, and no segment has more bytes in the file
than in memory. -/
theorem loadElf32_safe_iff (filedata : List (BitVec 8)) :
    LoadsSafely filedata ↔ HeadersLoadable filedata := by
  have hbounds : loadElf32 (.contents filedata) = .error .outOfBounds ↔
      ¬ HeadersLoadable filedata := loadElf32_outOfBounds_iff
  constructor
  · intro h
    exact not_not.mp (mt hbounds.mpr h.inBounds)
  · intro h
    exact ⟨mt hbounds.mp (not_not.mpr h), fun _ => loadElf32_images⟩

/-- The header of an executable with one program header, at byte 52. -/
def sampleEhdr : List (BitVec 8) :=
  [0x7f, 0x45, 0x4c, 0x46, 1, 1, 1, 0, 0, 0, 0, 0, 0, 0, 0, 0,
   2, 0, 0xf3, 0, 1, 0, 0, 0, 0, 0, 0, 0x80, 52, 0, 0, 0, 0, 0, 0, 0, 0, 0, 0, 0,
   52, 0, 32, 0, 1, 0, 0, 0, 0, 0, 0, 0]

/-- A readable segment at `0x80000000`, with the four bytes of each size. -/
def samplePhdr (pOffset pFilesz pMemsz : List (BitVec 8)) : List (BitVec 8) :=
  [1, 0, 0, 0] ++ pOffset ++ [0, 0, 0, 0x80, 0, 0, 0, 0x80] ++ pFilesz ++ pMemsz ++
    [4, 0, 0, 0, 1, 0, 0, 0]

-- The segment takes the magic bytes of the file and two zeros.
example : loadElf32 (.contents (sampleEhdr ++
      samplePhdr [0, 0, 0, 0] [4, 0, 0, 0] [6, 0, 0, 0])) =
    .ok { entry := 0x80000000
          segments := [⟨0x80000000, 6, 4, [0x7f, 0x45, 0x4c, 0x46, 0, 0]⟩] } := by
  decide

/-- A file that ends before its header table, a file whose range check wraps, and a segment
with more bytes in the file than in memory. -/
theorem loadElf32_unsafe :
    ¬ LoadsSafely sampleEhdr ∧
    ¬ LoadsSafely (sampleEhdr ++
      samplePhdr [0xff, 0xff, 0xff, 0xff] [1, 0, 0, 0] [1, 0, 0, 0]) ∧
    ¬ LoadsSafely (sampleEhdr ++ samplePhdr [0, 0, 0, 0] [1, 0, 0, 0] [0, 0, 0, 0]) := by
  refine ⟨fun h => h.inBounds ?_, fun h => h.inBounds ?_, fun h => h.inBounds ?_⟩
  · decide
  · decide
  · decide

/-! ### Into the RAM -/

variable {r : Ram}

/-- The loop of `ArchTestMode::init` over the segments, which takes `memsz` bytes of each. -/
def loadToMemory (r : Ram) (elf : LoadedElf) : Ram :=
  elf.segments.foldl (fun r seg => r.loadSegment (seg.mem.take seg.memsz.toNat) seg.vaddr) r

/-- The segments of a loaded file are written to the RAM whole, one after the other. -/
theorem loadToMemory_byteAt {elf : LoadedElf} (hr : r.WellFormed)
    (h : loadElf32 (.contents filedata) = .ok elf) :
    (loadToMemory r elf).WellFormed ∧ (loadToMemory r elf).byteAt =
      elf.segments.foldl (fun mem seg => FlatMemory.write mem seg.vaddr seg.mem) r.byteAt := by
  have himages := loadElf32_images h
  unfold loadToMemory
  generalize loadHeaders filedata = headers at himages
  generalize elf.segments = segments at himages ⊢
  induction himages generalizing r with
  | nil => exact ⟨hr, rfl⟩
  | @cons ph seg _ _ himage _ ih =>
    have hlen : seg.mem.length = seg.memsz.toNat := himage.length.trans (by rw [himage.memsz])
    have hwhole : seg.mem.take seg.memsz.toNat = seg.mem := by rw [← hlen, List.take_length]
    have hsize : seg.mem.length ≤ 2 ^ 32 := hlen ▸ seg.memsz.isLt.le
    obtain ⟨hpoint, hbytes, -⟩ := (hr.pointing (Ram.findSeg seg.vaddr)).loadBytes seg.vaddr hsize
    obtain ⟨hwf, hrest⟩ := ih (r := r.loadSegment seg.mem seg.vaddr)
      (by rw [Ram.loadSegment_eq]; exact hpoint.wellFormed)
    rw [List.foldl_cons, List.foldl_cons, hwhole]
    refine ⟨hwf, hrest.trans ?_⟩
    rw [Ram.loadSegment_eq, hbytes, Ram.buildSeg_byteAt]

end Elf

end Turtle
