import Turtle.Mmu.Inst
import Turtle.Mmu.PageOffset

/-!
# Where the fetch side looks for a word

The walker keeps the offset of `immu_pc` in the page, so the word that it fetches in the end
has the page offset of the word that it was asked for, or the address itself where nothing
is translated.
-/

namespace Turtle

open Bits

/-- Whether fetches are translated. -/
def Exec.translatesFetch (e : Exec) : Bool :=
  satpOn (e.csrRegs Csr.satp) && (e.priv == privS || e.priv == privU)

/-- Both addresses may be moved by the same amount. -/
theorem Locates.add {translates : Bool} {va pa : BitVec 32} (h : Locates translates va pa)
    (k : BitVec 32) : Locates translates (va + k) (pa + k) := by
  refine ⟨?_, fun hno => by rw [h.2 hno]⟩
  have hmod := h.1
  rw [BitVec.toNat_add, BitVec.toNat_add]
  omega

/-- Physical addresses are as aligned as the virtual ones. -/
theorem Locates.aligned {translates : Bool} {va pa : BitVec 32} (h : Locates translates va pa)
    (hva : va.toNat % 4 = 0) : pa.toNat % 4 = 0 := by
  have hmod := h.1
  omega

namespace Immu

variable {e : Exec} {s : Immu} {i : ImmuIn}

/-- A walk is going on, or has ended in a fault. -/
def InWalk (s : Immu) : Prop := s.iState = .level1 ∨ s.iState = .level2

/-- What the fetch side keeps of the address that it works on. -/
structure Keeps (e : Exec) (s : Immu) : Prop where
  walks : s.InWalk → e.translatesFetch = true ∧ s.iOffset = s.immuPc &&& 0xFFF
  accesses : s.iState = .access → s.immuToMem.imemReqAck = true →
    Locates e.translatesFetch (s.immuPc &&& ~~~3) s.immuToMem.imemAddr

/-- The same, of the first part of `imem_req_seq`. -/
structure Next.Keeps (e : Exec) (n : Next) : Prop where
  walks : n.mmu.InWalk → e.translatesFetch = true ∧ n.mmu.iOffset = n.mmu.immuPc &&& 0xFFF
  accesses : n.mmu.iState = .access → n.mmu.iMmuMem.imemReqAck = true →
    Locates e.translatesFetch (n.mmu.immuPc &&& ~~~3) n.mmu.iMmuMem.imemAddr

/-- The checks of the outgoing request change nothing of it. -/
theorem Next.Keeps.gated (h : (next e s i).Keeps e) : Immu.Keeps e (imemReqSeq e s i).1 := by
  refine ⟨h.walks, fun hstate hack => ?_⟩
  unfold imemReqSeq at hack ⊢
  dsimp only at hack ⊢
  split at hack
  · cases hack
  · rename_i hok
    rw [if_neg hok]
    exact h.accesses hstate hack

theorem not_inWalk_of {state : WalkState} (h : s.iState = state)
    (hne : state ≠ .level1 ∧ state ≠ .level2) : ¬ s.InWalk := by
  rintro (hstate | hstate)
  · exact hne.1 (h.symm.trans hstate)
  · exact hne.2 (h.symm.trans hstate)

theorem keeps_of_idle {n : Next} (h : n.mmu.iState = .idle) : n.Keeps e :=
  ⟨fun hwalk => absurd hwalk (not_inWalk_of h (by decide)),
    fun haccess => by cases h.symm.trans haccess⟩

/-- Without a request only the walk matters. -/
theorem keeps_of_no_request {n : Next} (h : n.mmu.iMmuMem.imemReqAck = false)
    (hwalks : n.mmu.InWalk → e.translatesFetch = true ∧ n.mmu.iOffset = n.mmu.immuPc &&& 0xFFF) :
    n.Keeps e :=
  ⟨hwalks, fun _ hack => by cases h.symm.trans hack⟩

theorem keeps_fetch {addr : BitVec 32} {tlb : Tlb}
    (h : Locates e.translatesFetch (s.immuPc &&& ~~~3) addr) : (fetch s addr tlb).Keeps e := by
  have haccess : (fetch s addr tlb).mmu.iState = .access := rfl
  exact ⟨fun hwalk => absurd hwalk (not_inWalk_of haccess (by decide)), fun _ _ => h⟩

/-- The address in a megapage. -/
theorem locates_megapage (ppn pc : BitVec 32) :
    Locates true (pc &&& ~~~3) ((ppn <<< 12) + (pc &&& 0x3FFFFC)) := by
  have hmask : pc &&& 0x3FFFFC = (pc &&& ~~~3) &&& 0x3FFFFF := by
    rw [BitVec.and_assoc]
    rfl
  rw [hmask]
  exact locates_page (n := 22) rfl (by omega)

/-- The address in a page. -/
theorem locates_offset (ppn pc : BitVec 32) :
    Locates true (pc &&& ~~~3) ((ppn <<< 12) + ((pc &&& 0xFFF) &&& ~~~3)) := by
  have hmask : (pc &&& 0xFFF) &&& ~~~3 = (pc &&& ~~~3) &&& 0xFFF := by
    rw [BitVec.and_assoc, BitVec.and_assoc, BitVec.and_comm 0xFFF]
  rw [hmask]
  exact locates_page (n := 12) rfl (by omega)

theorem readyStep_keeps : (readyStep e s i).Keeps e := by
  unfold readyStep
  dsimp only
  generalize (if i.ifIdAccept then i.fetchPc else s.immuPc) = pc
  split
  · rename_i hon
    have htranslates : e.translatesFetch = true := hon
    split
    · split
      · exact keeps_of_no_request rfl fun _ => ⟨htranslates, rfl⟩
      · split
        · refine keeps_fetch ?_
          rw [htranslates]
          exact locates_megapage _ _
        · refine keeps_fetch ?_
          rw [htranslates]
          exact locates_offset _ _
    · exact ⟨fun _ => ⟨htranslates, rfl⟩, nofun⟩
  · exact keeps_fetch (.refl _ _)

theorem level1Step_keeps (h : Keeps e s) (hstate : s.iState = .level1) :
    (level1Step e s i).Keeps e := by
  obtain ⟨htranslates, hoffset⟩ := h.walks (.inl hstate)
  unfold level1Step
  dsimp only
  split
  · exact keeps_of_no_request rfl fun _ => ⟨htranslates, hoffset⟩
  · split
    · refine keeps_fetch ?_
      rw [htranslates]
      exact locates_megapage _ _
    · exact ⟨fun _ => ⟨htranslates, hoffset⟩, nofun⟩

theorem level2Step_keeps (h : Keeps e s) (hstate : s.iState = .level2) :
    (level2Step e s i).Keeps e := by
  obtain ⟨htranslates, hoffset⟩ := h.walks (.inr hstate)
  unfold level2Step
  dsimp only
  split
  · exact keeps_of_no_request rfl fun _ => ⟨htranslates, hoffset⟩
  · refine keeps_fetch ?_
    change Locates _ (s.immuPc &&& ~~~3) ((_ <<< 12) + (s.iOffset &&& ~~~3))
    rw [htranslates, hoffset]
    exact locates_offset _ _

/-- An edge keeps what the fetch side needs. -/
theorem Keeps.step (h : Keeps e s) : Keeps e (imemReqSeq e s i).1 := by
  refine Next.Keeps.gated ?_
  unfold next
  split
  · exact keeps_of_idle rfl
  split
  · exact readyStep_keeps
  split
  · split
    · rename_i hstate
      exact level1Step_keeps h hstate
    split
    · rename_i hstate
      exact level2Step_keeps h hstate
    · exact keeps_of_idle rfl
  · exact keeps_of_no_request rfl h.walks

theorem Keeps.congr {e' : Exec} (h : Keeps e s)
    (htranslates : e'.translatesFetch = e.translatesFetch) :
    Keeps e' s := by
  refine ⟨?_, ?_⟩
  · rw [htranslates]
    exact h.walks
  · rw [htranslates]
    exact h.accesses

/-- After a reset or a flush nothing is kept. -/
theorem keeps_of_reset {e' : Exec} (h : (i.rst || i.flush) = true) :
    Keeps e' (imemReqSeq e s i).1 := by
  have hidle : (imemReqSeq e s i).1.iState = .idle := by
    change (next e s i).mmu.iState = .idle
    rw [next, if_pos h]
    rfl
  exact ⟨fun hwalk => absurd hwalk (not_inWalk_of hidle (by decide)),
    fun haccess => by cases hidle.symm.trans haccess⟩

end Immu

end Turtle
