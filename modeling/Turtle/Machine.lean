import Turtle.FaultFrame
import Turtle.Lib.Rv32Machine
import Turtle.Meaning
import Turtle.Mmu.PageOffset
import Turtle.RamAccess

/-!
# The processor is an RV32 machine

The pipeline of Decode and EXEC with the data side, MEXT and memory refines the machine of
the instruction set: in every cycle the machine waits, is reset, retires the instruction
that the word in EX means, or enters a trap handler. Its registers are those of the
sequential file, its memory is the RAM, and nothing else changes either.
-/

namespace Turtle

open Rv32 (Access Encodes Hart Instr Label Machine Regs Trap)

/-! ### Words in EX -/

/-- The halfword of a word. -/
theorem setWidth_half (w : BitVec 32) : (w &&& 0x0000ffff).setWidth 16 = w.setWidth 16 := by
  apply BitVec.eq_of_toNat_eq
  rw [BitVec.toNat_setWidth, BitVec.toNat_setWidth, Bits.and_ones_toNat w 0x0000ffff (n := 16) rfl]
  omega

theorem half_and_three (w : BitVec 32) : (w &&& 0x0000ffff) &&& 3 = w &&& 3 := by
  rw [BitVec.and_assoc]
  rfl

/-- What a word means is decided by its halfword, if it does not end in `11`. -/
theorem Means.congr_half {w w' len : BitVec 32} {i : Instr} (hhalf : ¬ w &&& 3 = 3)
    (hlow : w' &&& 3 = w &&& 3) (hsame : w'.setWidth 16 = w.setWidth 16) (h : Means w i len) :
    Means w' i len := by
  cases h with
  | encodes h =>
    cases h with
    | wide hi => exact absurd (hi ▸ encode_and_three i) hhalf
    | compressed hc => exact .encodes (.compressed (hc.trans hsame.symm))
  | word hwide => exact absurd hwide hhalf
  | half _ hover =>
    rw [← hsame] at hover ⊢
    exact .half (hlow ▸ hhalf) hover

/-- The word of a record. -/
theorem latch_inst (f : Forward) (j : IfId) : (latch f j).inst =
    if j.ifIdInst &&& 3 = 3 then j.ifIdInst else j.ifIdInst &&& 0x0000ffff := by
  have hinst : (if j.ifIdInst &&& 3 = 3 then decode f j.ifIdPc j.ifIdInst
      else decompress f j.ifIdPc (j.ifIdInst &&& 0x0000ffff)).inst =
      if j.ifIdInst &&& 3 = 3 then j.ifIdInst else j.ifIdInst &&& 0x0000ffff := by
    split_ifs
    · exact (decode_word f j.ifIdPc j.ifIdInst).1
    · exact (decompress_word f j.ifIdPc _).1
  rw [← hinst]
  unfold latch
  dsimp only
  split_ifs <;> rfl

/-- A record has the meanings of the word that was fetched. -/
theorem means_latch_inst (f : Forward) (j : IfId) {i : Instr} {len : BitVec 32} :
    Means (latch f j).inst i len ↔ Means j.ifIdInst i len := by
  rw [latch_inst]
  split_ifs with hwide
  · rfl
  · have hlow := half_and_three j.ifIdInst
    have hsame := setWidth_half j.ifIdInst
    exact ⟨.congr_half (hlow ▸ hwide) hlow.symm hsame.symm, .congr_half hwide hlow hsame⟩

/-- A fetch fault is latched as a trap. -/
theorem latch_of_fault {f : Forward} {j : IfId} (h : ¬ NoFetchFault j) : (latch f j).onTrap = true ∧
    (latch f j).cause ∈ [1#32, 12#32] := by
  have hfault := not_not.mp h
  unfold latch
  dsimp only
  rw [if_pos hfault]
  refine ⟨rfl, ?_⟩
  rcases hfault with hcode | hcode
  · rw [hcode]
    exact List.mem_cons_self
  · rw [hcode]
    exact List.mem_cons_of_mem _ List.mem_cons_self

/-- Without one only illegal instructions are. -/
theorem cause_of_no_fault {f : Forward} {j : IfId} (h : NoFetchFault j)
    (htrap : (latch f j).onTrap = true) :
    (latch f j).cause = ExceptionCause.illegalInstr.code := by
  obtain ⟨d, hd, -, -, hcause⟩ := decodeByLength_facts f j
  unfold latch at htrap ⊢
  dsimp only at htrap ⊢
  rw [hd, if_neg h] at htrap ⊢
  split_ifs at htrap ⊢
  · rfl
  · exact hcause htrap
namespace Core

variable {entry : BitVec 32} {s : Core} {i : CoreIn}

/-- The sequential register file that a state stands for. -/
def file (s : Core) : BitVec 5 → BitVec 32 := writeSeq s.wb s.regs

theorem file_step (hrst : i.rst = false) :
    (step entry s i).file = retire (s.out entry i) s.file := by
  change writeSeq (writebackSeq i.rst entry s.idEx (s.out entry i)) s.file = _
  rw [hrst]
  rfl

theorem file_of_rst (hrst : i.rst = true) : (step entry s i).file = s.file := by
  change writeSeq (writebackSeq i.rst entry s.idEx (s.out entry i)) s.file = _
  rw [hrst]
  rfl

/-- A cycle that writes no register keeps the file. -/
theorem file_of_no_write (h : (s.out entry i).exWriteRd = false) :
    (step entry s i).file = s.file := by
  by_cases hrst : i.rst = true
  · exact file_of_rst hrst
  · rw [file_step (Bool.eq_false_of_not_eq_true hrst), retire, h]
    rfl

/-- A cycle that traps or stalls writes no register. -/
theorem exWriteRd_of_quiet
    (h : (s.comb entry i).onTrap = true ∨ (s.comb entry i).stall = true) :
    (s.out entry i).exWriteRd = false := by
  rcases h with h | h
  · simp [out, Exec.execOut, h]
  · simp [out, Exec.execOut, h]

theorem npc_of_bubble (h : s.comb entry i = { epc := s.wb.exPc, npc := s.wb.exPc }) :
    (s.out entry i).npc = s.wb.exPc := by
  simp [out, Exec.execOut, Exec.npcOut, h]

/-- Without an interrupt a bubble does nothing. -/
theorem comb_of_flush (hrst : i.rstComb = false) (hint : s.takesInterrupt i = false)
    (hflush : s.idEx.flush = true) :
    s.comb entry i = { epc := s.wb.exPc, npc := s.wb.exPc } := by
  have hnone := gate_eq_none hint
  rw [comb, Exec.execComb]
  simp only [execIn, hrst, hnone, hflush, Bool.false_eq_true, if_false, if_true]

/-- Without an interrupt a record that is marked as a trap ends in it. -/
theorem comb_of_marked (hrst : i.rstComb = false) (hint : s.takesInterrupt i = false)
    (hflush : s.idEx.flush = false) (htrap : s.idEx.onTrap = true) :
    (s.comb entry i).cause = s.idEx.cause := by
  have hnone := gate_eq_none hint
  rw [comb, Exec.execComb]
  simp only [execIn, hrst, hnone, hflush, htrap, Bool.false_eq_true, if_false, if_true]

/-- The slot holds a record that was latched with the operands of the file, at the address
of the next instruction. -/
def HoldsRecord (s : Core) : Prop :=
  s.idEx = bubble ∨ ∃ f j, s.idEx = latch f j ∧ f.operand = s.file ∧ j.ifIdPc = s.wb.exPc

/-- An edge keeps a stalled record, latches an instruction or leaves a bubble. -/
theorem idEx_cases (entry : BitVec 32) (s : Core) (i : CoreIn) : (s.comb entry i).stall = true ∨
    Latches entry s i ∨ (step entry s i).idEx = bubble := by
  by_cases hstall : (s.comb entry i).stall = true
  · exact .inl hstall
  have hstall : (s.out entry i).stall = false := Bool.eq_false_of_not_eq_true hstall
  by_cases hlatch : Latches entry s i
  · exact .inr (.inl hlatch)
  refine .inr (.inr ?_)
  change instDecodeSeq i.rst (s.out entry i).stall (s.out entry i).flush (s.out entry i).npc
    (s.forward entry i) i.ifId s.idEx = bubble
  unfold instDecodeSeq
  rw [hstall, if_neg Bool.false_ne_true]
  split_ifs with hdrop hempty
  · rfl
  · rfl
  · refine absurd ?_ hlatch
    simp only [Bool.or_eq_true, bne_iff_ne, ne_eq, not_or, Bool.not_eq_true, not_not] at hdrop
    exact ⟨hstall, hdrop.1.1, hdrop.1.2, hdrop.2, Bool.eq_false_of_not_eq_true hempty⟩

/-- A stalled cycle keeps the next address. -/
theorem exPc_of_stall (hstall : (s.comb entry i).stall = true) :
    (step entry s i).wb.exPc = s.wb.exPc := exPc_step.trans (npc_of_stall hstall)

/-- A latched instruction lies at the next address. -/
theorem Latches.exPc (h : Latches entry s i) : (step entry s i).wb.exPc = i.ifId.ifIdPc :=
  exPc_step.trans h.2.2.2.1

theorem HoldsRecord.step (h : s.HoldsRecord) (hzero : s.file 0 = 0) :
    (step entry s i).HoldsRecord := by
  have hcommits : Commits s s.file := ⟨rfl, hzero⟩
  rcases idEx_cases entry s i with hstall | hlatch | hbubble
  · have hfile : (Core.step entry s i).file = s.file :=
      file_of_no_write (exWriteRd_of_quiet (.inr hstall))
    unfold HoldsRecord
    rw [idEx_of_stall hstall, hfile, exPc_of_stall hstall]
    exact h
  · refine .inr ⟨_, _, hlatch.idEx, ?_, hlatch.exPc.symm⟩
    rw [file_step hlatch.2.2.1]
    exact funext hcommits.operand
  · exact .inl hbubble

theorem file_zero_step (h : s.file 0 = 0) : (step entry s i).file 0 = 0 := by
  by_cases hrst : i.rst = true
  · rw [file_of_rst hrst, h]
  · rw [file_step (Bool.eq_false_of_not_eq_true hrst), retire_zero, h]

/-- Where the record of an instruction in EX comes from. -/
theorem HoldsRecord.latched (h : s.HoldsRecord) (hflush : s.idEx.flush = false)
    (htrap : s.idEx.onTrap = false) : ∃ f j, s.idEx = latch f j ∧ f.operand = s.file ∧
      j.ifIdPc = s.wb.exPc ∧ NoFetchFault j := by
  rcases h with hbubble | ⟨f, j, hlatch, hfile, hpc⟩
  · rw [hbubble] at hflush
    cases hflush
  refine ⟨f, j, hlatch, hfile, hpc, ?_⟩
  by_contra hfault
  rw [hlatch] at htrap
  cases htrap.symm.trans (latch_of_fault hfault).1

/-- The record of an instruction in EX is one of whatever its word means. -/
theorem HoldsRecord.record_of_means (h : s.HoldsRecord) (hflush : s.idEx.flush = false)
    (htrap : s.idEx.onTrap = false) {instr : Instr} {len : BitVec 32}
    (hmeans : Means s.idEx.inst instr len) : ∃ f,
      RecordOf f s.wb.exPc s.idEx.inst instr s.idEx ∧ f.operand = s.file := by
  obtain ⟨f, j, hlatch, hfile, hpc, hfault⟩ := h.latched hflush htrap
  rw [hlatch] at hmeans
  have hrecord := recordOf_means (f := f) hfault ((means_latch_inst f j).mp hmeans)
  refine ⟨f, ?_, hfile⟩
  rw [hlatch, ← hpc]
  exact ⟨(means_latch_inst f j).mpr hrecord.means, hrecord.plain, hrecord.decodes⟩

/-- It is one of something that its word means. -/
theorem HoldsRecord.record (h : s.HoldsRecord) (hflush : s.idEx.flush = false)
    (htrap : s.idEx.onTrap = false) : ∃ f instr,
      RecordOf f s.wb.exPc s.idEx.inst instr s.idEx ∧ f.operand = s.file := by
  obtain ⟨f, j, hlatch, -, -, hfault⟩ := h.latched hflush htrap
  have hknown : Illegal j.ifIdInst → Overlooks j.ifIdInst := by
    intro hillegal
    by_contra hover
    rw [hlatch] at htrap
    cases htrap.symm.trans ((refused_latch_iff hfault hillegal).mpr hover).1
  obtain ⟨instr, len, hmeans⟩ := exists_means hknown
  rw [← means_latch_inst f j, ← hlatch] at hmeans
  obtain ⟨g, hrecord⟩ := h.record_of_means hflush htrap hmeans
  exact ⟨g, instr, hrecord⟩

/-- A record that is marked as a trap could not be fetched or means nothing. -/
theorem HoldsRecord.marked (h : s.HoldsRecord) (htrap : s.idEx.onTrap = true) :
    s.idEx.cause ∈ [1#32, 12#32] ∨
      (s.idEx.cause = ExceptionCause.illegalInstr.code ∧
        ∀ instr len, ¬ Means s.idEx.inst instr len) := by
  rcases h with hbubble | ⟨f, j, hlatch, -, -⟩
  · rw [hbubble] at htrap
    cases htrap
  rw [hlatch] at htrap ⊢
  by_cases hfault : NoFetchFault j
  · have hrefused : Refused (latch f j) := ⟨htrap, cause_of_no_fault hfault htrap⟩
    refine .inr ⟨hrefused.2, fun instr len => ?_⟩
    rw [means_latch_inst]
    exact (refused_latch_iff_no_meaning hfault).mp hrefused instr len
  · exact .inl (latch_of_fault hfault).2

theorem Reachable.file_zero (h : Reachable entry s) : s.file 0 = 0 := by
  refine Clocked.Reachable.invariant (P := fun s => s.file 0 = 0) ?_ (fun _ _ => file_zero_step) h
  rintro s ⟨i, hrst, rfl⟩
  rw [file_of_rst hrst]
  rfl

/-- In every run the slot holds a record with the operands of the file. -/
theorem Reachable.holdsRecord (h : Reachable entry s) : s.HoldsRecord := by
  induction h with
  | start hs =>
    obtain ⟨i, hrst, rfl⟩ := hs
    exact .inl (idEx_of_rst entry _ hrst)
  | step i hs ih => exact ih.step (Reachable.file_zero hs)

end Core

/-! ### Requests -/

namespace RecordOf

variable {f : Forward} {pc w : BitVec 32} {i : Instr} {d : IdEx} {r : Regs}

/-- A record of a memory instruction is one of an instruction that accesses memory. -/
theorem decodes_of_access (h : RecordOf f pc w i d) (hacc : d.IsAccess) :
    Decodes f pc i d.expanded ∧ accessKinds i ≠ (false, false, false) := by
  have hgroup := hacc.2.2
  rcases h.decodes with hdec | ⟨rd, -, htype, -⟩
  · refine ⟨hdec, fun hnone => ?_⟩
    have htype : d.type = instrType i := hdec.type
    rw [htype] at hgroup
    cases i with
    | aluImm op => cases op <;> simp [aluImmType, InstrType.group] at hgroup
    | shift op => cases op <;> simp [shiftType, InstrType.group] at hgroup
    | alu op => cases op <;> simp [aluType, InstrType.group] at hgroup
    | branch op => cases op <;> simp [branchType, InstrType.group] at hgroup
    | csr op => cases op <;> simp [csrType, InstrType.group] at hgroup
    | csrImm op => cases op <;> simp [csrImmType, InstrType.group] at hgroup
    | system op => cases op <;> simp [systemType, InstrType.group] at hgroup
    | _ => simp_all [InstrType.group]
  · rw [htype] at hgroup
    simp [InstrType.group] at hgroup

/-- A record of any other instruction is one of an instruction that does not. -/
theorem access_of_no_access (h : RecordOf f pc w i d) (hno : ¬ d.IsAccess) :
    i.access r = none := by
  rcases h.decodes with hdec | ⟨rd, rfl, -⟩
  · have htype : d.type = instrType i := hdec.type
    have hkinds : accessKinds i = (false, false, false) := by
      by_contra hkinds
      refine hno ⟨h.plain.2.1, h.plain.1, ?_⟩
      rw [htype]
      exact Exec.group_of_accessKinds hkinds
    cases i <;> first | rfl | simp at hkinds
  · rfl

/-- The faults of a memory instruction have the kind of its request. -/
theorem causes_of_access (h : RecordOf f pc w i d) (hacc : d.IsAccess) :
    i.causes = if Dmmu.opOf d.request = 1 then [4, 5, 13] else [6, 7, 15] := by
  obtain ⟨hdec, hkinds⟩ := h.decodes_of_access hacc
  have hflags : (d.isLoad, d.isStore, d.isAtomic) = accessKinds i := hdec.kinds
  have hamo : d.amoType = amoTypeOf i := hdec.amoType
  unfold Dmmu.opOf IdEx.request
  cases i with
  | load op rd rs1 imm => simp_all [Instr.causes]
  | store op rs1 rs2 imm => simp_all [Instr.causes]
  | lr aqrl rd rs1 => simp_all [Instr.causes]
  | sc aqrl rd rs1 rs2 => simp_all [Instr.causes]
  | amo op aqrl rd rs1 rs2 => cases op <;> simp_all [Instr.causes, amoType]
  | _ => exact absurd rfl hkinds

/-- The request of a memory instruction is the one of its access. -/
theorem requests (h : RecordOf f pc w i d) (hacc : d.IsAccess) (hread : f.operand = r.read) :
    ∃ a, i.access r = some (d.request.dmemAddr, a) ∧
      ∀ pa, Requests a pa (Dmmu.forwardTo d.request pa) := by
  obtain ⟨hdec, hkinds⟩ := h.decodes_of_access hacc
  have hflags : (d.isLoad, d.isStore, d.isAtomic) = accessKinds i := hdec.kinds
  have hamo : d.amoType = amoTypeOf i := hdec.amoType
  have hsize : d.memSize.toNat = i.size := hdec.memSize
  have hrs1 (k) (hk : k ∈ i.rs1) : d.rs1Val = r.read k := hread ▸ (hdec.rs1 k hk).2
  have hrs2 (k) (hk : k ∈ i.rs2) : d.rs2Val = r.read k := hread ▸ (hdec.rs2 k hk).2
  have himm (v) (hv : v ∈ i.imm) : d.imm = v := hdec.imm v hv
  have hmake {va : BitVec 32} {a : Access} (haccess : i.access r = some (va, a))
      (hva : (if d.isAtomic then d.rs1Val else d.rs1Val + d.imm) = va)
      (hshape : i.size = a.size ∧ accessKinds i = accessFlags a ∧ amoTypeOf i = accessAmoop a)
      (hdata : ∀ v ∈ accessData a, d.rs2Val = v) :
      ∃ a, i.access r = some (d.request.dmemAddr, a) ∧
        ∀ pa, Requests a pa (Dmmu.forwardTo d.request pa) := by
    have haddr : some (va, a) = some (d.request.dmemAddr, a) :=
      congrArg (fun addr => some (addr, a)) hva.symm
    refine ⟨a, haccess.trans haddr, fun pa => ⟨rfl, rfl, hsize.trans hshape.1, ?_, ?_, hdata⟩⟩
    · exact hflags.trans hshape.2.1
    · exact hamo.trans hshape.2.2
  cases i with
  | load op rd rs1 imm =>
    have hatomic : d.isAtomic = false := congrArg (fun k => k.2.2) hflags
    refine hmake rfl ?_ ⟨rfl, rfl, rfl⟩ nofun
    rw [hatomic, hrs1 rs1 rfl, himm _ rfl]
    rfl
  | store op rs1 rs2 imm =>
    have hatomic : d.isAtomic = false := congrArg (fun k => k.2.2) hflags
    refine hmake rfl ?_ ⟨rfl, rfl, rfl⟩ fun v hv => (hrs2 rs2 rfl).trans (Option.some.inj hv)
    rw [hatomic, hrs1 rs1 rfl, himm _ rfl]
    rfl
  | lr aqrl rd rs1 =>
    have hatomic : d.isAtomic = true := congrArg (fun k => k.2.2) hflags
    refine hmake rfl ?_ ⟨rfl, rfl, rfl⟩ nofun
    rw [hatomic, hrs1 rs1 rfl, if_pos rfl]
  | sc aqrl rd rs1 rs2 =>
    have hatomic : d.isAtomic = true := congrArg (fun k => k.2.2) hflags
    refine hmake rfl ?_ ⟨rfl, rfl, rfl⟩ fun v hv => (hrs2 rs2 rfl).trans (Option.some.inj hv)
    rw [hatomic, hrs1 rs1 rfl, if_pos rfl]
  | amo op aqrl rd rs1 rs2 =>
    have hatomic : d.isAtomic = true := congrArg (fun k => k.2.2) hflags
    refine hmake rfl ?_ ⟨rfl, rfl, rfl⟩ fun v hv => (hrs2 rs2 rfl).trans (Option.some.inj hv)
    rw [hatomic, hrs1 rs1 rfl, if_pos rfl]
  | _ => exact absurd rfl hkinds

end RecordOf

/-! ### The data path -/

namespace DataPath

variable {δ : Type} {devices : List (Device δ)} {entry : BitVec 32} {s : DataPath δ}
  {i : DataIn δ} {map : RamMap}

/-- Memory has answered what the DMMU sends from a RAM that looks like the present one. -/
def AnsweredHere (devices : List (Device δ)) (s : DataPath δ) : Prop :=
  ∃ m, m.ram.WellFormed ∧ m.ram.SameView s.memory.ram ∧
    s.dout = (Memory.memAccess devices m s.dmmu.dmmuToMem).1

/-- What holds of a data path that has been reset, with the RAM at the places of `map`. -/
structure Tracks (devices : List (Device δ)) (entry : BitVec 32) (map : RamMap)
    (s : DataPath δ) : Prop where
  reachable : Reachable devices entry s
  answered : s.AnsweredHere devices
  ramMap : Memory.ramMap devices s.memory = map

/-- The memory after `update_memory`. -/
def committed (devices : List (Device δ)) (s : DataPath δ) (i : DataIn δ) : Memory δ :=
  Memory.updateMemory devices { s.memory with dev := i.env s.memory.dev } s.dmmu.dmmuToMem s.dout

/-- What comes behind `update_memory` in a cycle is not visible in the RAM. -/
theorem sameView_committed (entry : BitVec 32) (hwf : (s.committed devices i).ram.WellFormed) :
    (s.committed devices i).ram.SameView (step devices entry s i).memory.ram := by
  have hfetch := Memory.instFetch_sameView hwf i.iin
  unfold step
  dsimp only
  split
  · exact hfetch
  · exact hfetch.trans (Memory.memAccess_sameView hfetch.wellFormed)

theorem committed_of_no_commit (h : ¬ s.Commits) :
    (s.committed devices i).ram = s.memory.ram := by
  rw [committed, Memory.updateMemory_of_not_applies h]

/-- What the DMMU sends is aligned. -/
theorem Reachable.aligned (h : Reachable devices entry s)
    (hack : s.dmmu.dmmuToMem.dmemReqAck = true) :
    s.dmmu.dmmuToMem.dmemAddr.toNat % s.dmmu.dmmuToMem.dmemSize.toNat = 0 := by
  refine aligned_of_not_misaligned hack (h.request_size hack) ?_
  cases h with
  | start hs =>
    obtain ⟨m, i, -, rfl⟩ := hs
    exact (Dmmu.dmemReqSeq_checked hack).1
  | step i _ => exact (Dmmu.dmemReqSeq_checked hack).1

/-- A commit is the answer to the access of the instruction in EX. -/
theorem Inv.busy_of_commit (h : s.Inv devices) (hcommit : s.Commits) :
    s.Busy ∧ s.dmmu.Accesses s.core.idEx.request := by
  have hload {level : WalkState} (hloads : s.dmmu.Loads level) : False := by
    obtain ⟨addr, hreq⟩ := hloads.request
    have hkind := hcommit.2.2
    rw [hreq] at hkind
    exact absurd hkind (by simp [Dmmu.pteLoad])
  rcases h.phase with hi | hb
  · exact absurd hcommit (no_commit_of_no_request h.answered hi.quiet.no_request)
  · rcases hb.phase with hfailed | hloads | hloads | haccess
    · exact absurd hcommit (no_commit_of_no_request h.answered (by rw [hfailed.no_request]))
    · exact (hload hloads).elim
    · exact (hload hloads).elim
    · exact ⟨hb, haccess⟩

/-- After a commit nothing is under way. -/
theorem Inv.idle_of_commit (h : s.Inv devices) (hcommit : s.Commits) (entry : BitVec 32)
    (i : DataIn δ) :
    (DataPath.step devices entry s i).Idle := by
  obtain ⟨hb, haccess⟩ := h.busy_of_commit hcommit
  by_cases hrst : i.rst = true
  · exact idle_of_rst hrst
  · exact (hb.finish h.answered (Bool.eq_false_of_not_eq_true hrst) haccess).2

/-- The answer of memory to the access of the instruction `instr` is the one of its access,
and the next edge carries it out. -/
theorem Tracks.performed (h : s.Tracks devices entry map) (hb : s.Busy)
    (haccess : s.dmmu.Accesses s.core.idEx.request) (hok : s.dout.memRspFault = 0)
    {f : Forward} {w : BitVec 32} {instr : Instr}
    (hrecord : RecordOf f s.core.wb.exPc w instr s.core.idEx) (hfile : f.operand = s.core.file) :
    ∃ va a, instr.access (Regs.ofFun s.core.file) = some (va, a) ∧
      Requests a s.dmmu.dmmuToMem.dmemAddr s.dmmu.dmmuToMem ∧
      Locates s.core.exec.translates va s.dmmu.dmmuToMem.dmemAddr ∧
      s.dmmu.dmmuToMem.dmemAddr.toNat % a.size = 0 ∧
      Memory.Performed devices s.memory (s.committed devices i) a s.dmmu.dmmuToMem.dmemAddr
        s.dout.memRspRdata := by
  have hzero : s.core.file 0 = 0 := h.reachable.core.file_zero
  have hread : f.operand = (Regs.ofFun s.core.file).read := hfile.trans (Regs.ofFun_read hzero).symm
  obtain ⟨a, haccesses, hrequests⟩ := hrecord.requests hb.access hread
  obtain ⟨addr, hsent⟩ := haccess.request
  have hack : s.dmmu.dmmuToMem.dmemReqAck = true := by rw [hsent]; rfl
  have hreq : Requests a s.dmmu.dmmuToMem.dmemAddr s.dmmu.dmmuToMem := by
    rw [hsent]
    exact hrequests addr
  have hkeeps := h.reachable.keepsRequest hb
  have haligned : s.dmmu.dmmuToMem.dmemAddr.toNat % a.size = 0 := by
    rw [← hreq.size]
    exact h.reachable.aligned hack
  obtain ⟨m₀, hwf, hview, hdout⟩ := h.answered
  refine ⟨_, a, haccesses, hreq, hkeeps.accesses haccess.dState_eq hack, haligned, ?_⟩
  rw [hdout] at hok
  have hperformed := Memory.performed (m := { s.memory with dev := i.env s.memory.dev }) hview hwf
    hreq haligned hok
  rw [← hdout] at hperformed
  exact ⟨hperformed.wellFormed, hperformed.base, hperformed.top, hperformed.performs⟩

/-- An edge leaves the RAM as it is or carries out the access that is sent. -/
theorem Tracks.commit (h : s.Tracks devices entry map) (i : DataIn δ) :
    (s.committed devices i).ram.WellFormed ∧ (s.committed devices i).ram.base = s.memory.ram.base ∧
      (s.committed devices i).ram.top = s.memory.ram.top ∧
      ((s.committed devices i).ram.flat = s.memory.ram.flat ∨ ∃ got a,
        s.Commits ∧ Requests a s.dmmu.dmmuToMem.dmemAddr s.dmmu.dmmuToMem ∧
        FlatRam.Performs map s.dmmu.dmmuToMem.dmemAddr got s.memory.ram.flat
          (s.committed devices i).ram.flat a) := by
  by_cases hcommit : s.Commits
  · obtain ⟨hb, haccess⟩ := h.reachable.inv.busy_of_commit hcommit
    obtain ⟨f, instr, hrecord, hfile⟩ :=
      h.reachable.core.holdsRecord.record hb.access.1 hb.access.2.1
    obtain ⟨-, a, -, hreq, -, -, hperformed⟩ :=
      @Tracks.performed _ _ _ _ i _ h hb haccess hcommit.2.1 _ _ _ hrecord hfile
    have hperforms := hperformed.performs
    rw [h.ramMap] at hperforms
    exact ⟨hperformed.wellFormed, hperformed.base, hperformed.top,
      .inr ⟨_, a, hcommit, hreq, hperforms⟩⟩
  · obtain ⟨m₀, -, hview, -⟩ := h.answered
    rw [committed_of_no_commit hcommit]
    exact ⟨hview.wellFormed, rfl, rfl, .inl rfl⟩

/-- The flat memory after a cycle is the one after the commit. -/
theorem Tracks.flat_step (h : s.Tracks devices entry map) :
    (step devices entry s i).memory.ram.flat = (s.committed devices i).ram.flat := by
  have hview := sameView_committed entry (h.commit i).1
  rw [Ram.flat, hview.bytes, hview.reserved]
  rfl

instance (s : DataPath δ) : Decidable s.Commits :=
  inferInstanceAs (Decidable (_ = _ ∧ _ = _ ∧ (_ = _ ∨ _ = _)))

/-- The next edge may write a byte. -/
def Writes (s : DataPath δ) (x : BitVec 32) : Prop :=
  s.Commits ∧ (s.dmmu.dmmuToMem.dmemIsStore = true ∨ s.dmmu.dmmuToMem.dmemAmoop ≠ 0) ∧
    (x - s.dmmu.dmmuToMem.dmemAddr).toNat < s.dmmu.dmmuToMem.dmemSize.toNat

/-- A cycle keeps the bytes that it does not write. -/
theorem Tracks.bytes_step (h : s.Tracks devices entry map) {x : BitVec 32} (hx : ¬ s.Writes x) :
    (step devices entry s i).memory.ram.flat.bytes x = s.memory.ram.flat.bytes x := by
  rw [h.flat_step]
  obtain ⟨-, -, -, hsame | ⟨got, a, hcommit, hreq, hperforms⟩⟩ := h.commit i
  · rw [hsame]
  · refine hperforms.bytes_eq fun hdata hin => hx ⟨hcommit, hreq.writes hdata, ?_⟩
    rw [hreq.size]
    exact hin

/-- A new request is answered by the RAM of its cycle, an old one by a RAM that has looked
the same since. -/
theorem AnsweredHere.step (h : s.AnsweredHere devices)
    (hwf : (s.committed devices i).ram.WellFormed)
    (hnew : s.Commits → (DataPath.step devices entry s i).dmmu.dmmuToMem ≠ s.dmmu.dmmuToMem) :
    (DataPath.step devices entry s i).AnsweredHere devices := by
  by_cases hsame : (DataPath.step devices entry s i).dmmu.dmmuToMem = s.dmmu.dmmuToMem
  · obtain ⟨m₀, hwf₀, hview₀, hdout⟩ := h
    have hview := sameView_committed entry hwf
    rw [committed_of_no_commit (mt hnew (not_not.mpr hsame))] at hview
    refine ⟨m₀, hwf₀, hview₀.trans hview, ?_⟩
    rw [hsame, ← hdout]
    exact congrArg Prod.fst (if_pos hsame)
  · have hfetch := Memory.instFetch_sameView hwf i.iin
    have hanswer : (DataPath.step devices entry s i).dout = _ := congrArg Prod.fst (if_neg hsame)
    have hmemory : (DataPath.step devices entry s i).memory = _ :=
      congrArg Prod.snd (if_neg hsame)
    refine ⟨_, hfetch.wellFormed, ?_, hanswer⟩
    rw [hmemory]
    exact Memory.memAccess_sameView hfetch.wellFormed

theorem Tracks.step (h : s.Tracks devices entry map) :
    (step devices entry s i).Tracks devices entry map := by
  obtain ⟨hwf, hbase, htop, -⟩ := h.commit i
  have hview := sameView_committed entry hwf
  refine ⟨h.reachable.step i, h.answered.step hwf fun hcommit hsame => ?_, ?_⟩
  · -- After a commit nothing is sent, so the next request is a new one.
    have hnone := (h.reachable.inv.idle_of_commit hcommit entry i).quiet.no_request
    rw [hsame, ← h.reachable.inv.answered.ack, hcommit.1] at hnone
    cases hnone
  · rw [← h.ramMap]
    exact Memory.ramMap_congr (hview.base.trans hbase) (hview.top.trans htop)

/-- A powered-up machine after its first reset cycle. -/
theorem tracks_of_rst {m : Memory δ} (hwf : m.ram.WellFormed) (hrst : i.rst = true) :
    (DataPath.step devices entry { memory := m } i).Tracks devices entry
      (Memory.ramMap devices m) ∧
      (DataPath.step devices entry { memory := m } i).memory.ram.flat = m.ram.flat := by
  let s : DataPath δ := { memory := m }
  have hcommit : ¬ s.Commits := nofun
  have hcommitted : (s.committed devices i).ram = m.ram := committed_of_no_commit hcommit
  have hview := @sameView_committed _ devices s i entry (hcommitted.symm ▸ hwf)
  rw [hcommitted] at hview
  refine ⟨⟨.start ⟨m, i, hrst, rfl⟩, ?_, Memory.ramMap_congr hview.base hview.top⟩, ?_⟩
  · have hanswered : s.AnsweredHere devices := ⟨m, hwf, hwf.sameView, rfl⟩
    exact hanswered.step (hcommitted.symm ▸ hwf) fun h => absurd h hcommit
  · rw [Ram.flat, hview.bytes, hview.reserved]
    rfl

/-- The levels of reset at the two edges. -/
theorem rst_of_rstComb (h : s.rstComb i = false) : i.rst = false :=
  (Bool.or_eq_false_iff.mp h).1

/-- Reset is seen at a falling edge during a reset, or over the bubble that it left. -/
theorem Inv.bubble_of_rstComb (h : s.Inv devices) (hrst : s.rstComb i = true) :
    i.rst = true ∨ s.core.idEx = bubble := by
  rw [rstComb, Bool.or_eq_true, Bool.and_eq_true] at hrst
  exact hrst.imp_right fun hlate => h.reset hlate.1

/-! What commits nothing. -/

theorem Inv.no_commit_of_other (h : s.Inv devices) (hno : ¬ s.core.idEx.IsAccess) : ¬ s.Commits :=
  fun hcommit => hno (h.busy_of_commit hcommit).1.access

theorem Inv.no_commit_of_stall (h : s.Inv devices) (hrst : i.rst = false)
    (hstall : (s.core.comb entry (s.coreIn i)).stall = true) : ¬ s.Commits := by
  intro hcommit
  obtain ⟨hb, haccess⟩ := h.busy_of_commit hcommit
  cases hstall.symm.trans (hb.finish h.answered hrst haccess).1

theorem Inv.no_commit_of_trap (h : s.Inv devices) (hrst : i.rst = false)
    (htrap : (s.core.comb entry (s.coreIn i)).onTrap = true) : ¬ s.Commits := by
  intro hcommit
  obtain ⟨hb, haccess⟩ := h.busy_of_commit hcommit
  rw [hb.comb entry hrst] at htrap
  exact (rsp_of_accesses h.answered haccess).2.2.1.mp (bne_iff_ne.mp htrap) hcommit.2.1

theorem takesInterrupt_of_no_trap (hcomb : s.rstComb i = false)
    (htrap : (s.core.comb entry (s.coreIn i)).onTrap = false) :
    s.core.takesInterrupt (s.coreIn i) = false := by
  refine Bool.eq_false_of_not_eq_true fun hint => ?_
  obtain ⟨cause, -, hc⟩ := @Core.comb_of_interrupt entry s.core (s.coreIn i) hcomb hint
  rw [hc] at htrap
  cases htrap

/-- A memory instruction retires with the answer to its access. -/
theorem Inv.accesses_of_retire (h : s.Inv devices) (hacc : s.core.idEx.IsAccess)
    (hrst : i.rst = false) (hcomb : s.rstComb i = false)
    (htrap : (s.core.comb entry (s.coreIn i)).onTrap = false)
    (hstall : (s.core.comb entry (s.coreIn i)).stall = false) :
    s.Busy ∧ s.dmmu.Accesses s.core.idEx.request ∧ s.dout.memRspFault = 0 ∧
      s.dmmuRsp.mmuRspAck = true ∧ s.dmmuRsp.mmuRspRdata = s.dout.memRspRdata := by
  have hint := takesInterrupt_of_no_trap hcomb htrap
  have hb : s.Busy := by
    refine h.phase.resolve_left fun hi => ?_
    cases hstall.symm.trans (hi.request h.answered hacc hrst hcomb hint).1
  rcases hb.phase with hfailed | hloads | hloads | haccess
  · have hends := @Busy.fail _ devices entry s i hb hrst hfailed
    cases htrap.symm.trans hends.2.1
  · cases hstall.symm.trans (hb.walk entry h.answered hrst hloads (.inl rfl)).1
  · cases hstall.symm.trans (hb.walk entry h.answered hrst hloads (.inr rfl)).1
  · obtain ⟨-, hack, hfault, hdata⟩ := rsp_of_accesses h.answered haccess
    refine ⟨hb, haccess, ?_, hack, hdata⟩
    rw [hb.comb entry hrst] at htrap
    by_contra hfaulty
    cases htrap.symm.trans (bne_iff_ne.mpr (hfault.mpr hfaulty))

/-- A cycle without a commit keeps the flat memory. -/
theorem Tracks.flat_of_no_commit (h : s.Tracks devices entry map) (hcommit : ¬ s.Commits) :
    (DataPath.step devices entry s i).memory.ram.flat = s.memory.ram.flat := by
  rw [h.flat_step, committed_of_no_commit hcommit]

end DataPath

/-! ### Cycles -/

namespace MextPath

variable {δ : Type}

/-- The machine that a state stands for. -/
def machine (s : MextPath δ) : Machine FlatRam where
  hart := ⟨s.data.core.wb.exPc, Regs.ofFun s.data.core.file⟩
  mem := s.data.memory.ram.flat

/-- Why a cycle traps. -/
def trapOf (entry : BitVec 32) (s : MextPath δ) (i : DataIn δ) : Trap :=
  let d := s.data.core.idEx
  if s.data.core.takesInterrupt (s.coreIn i) then .interrupt (s.comb entry i).cause
  else if d.onTrap then
    if d.cause = ExceptionCause.illegalInstr.code then .unknown d.inst else .fetch d.cause
  else .raised d.inst (s.comb entry i).cause

/-- What a cycle is to the machine. -/
def label (entry : BitVec 32) (s : MextPath δ) (i : DataIn δ) : Label Bool :=
  match s.data.core.event entry (s.coreIn i) with
  | .reset _ => .reset
  | .bubble => .wait
  | .stall _ => .wait
  | .retire d _ => .retire d.inst d.len
      (s.data.core.exec.gotOf (s.data.core.execIn entry (s.coreIn i)) (s.comb entry i))
      s.data.core.exec.translates
  | .trap _ _ target => .trap (s.trapOf entry i) target

/-- The machine that the processor implements: the words mean what the decoders take them
for, the addresses are translated page by page or not at all, and the RAM is at the places
of `map`. -/
def env (entry : BitVec 32) (map : RamMap) : Rv32.Env FlatRam Bool where
  entry := entry
  Means := Turtle.Means
  Reaches := Turtle.Locates
  Performs := FlatRam.Performs map

variable {undef : BitVec 32 → BitVec 32 → BitVec 32} {devices : List (Device δ)}
  {entry : BitVec 32} {map : RamMap} {s : MextPath δ} {i : DataIn δ}

/-- What holds of a reset machine with the RAM at the places of `map`. -/
structure Tracks (devices : List (Device δ)) (entry : BitVec 32) (map : RamMap)
    (s : MextPath δ) : Prop where
  data : s.data.Tracks devices entry map
  inv : s.Inv

theorem Tracks.step (h : s.Tracks devices entry map) :
    (step undef devices entry s i).Tracks devices entry map :=
  ⟨h.data.step, h.inv.step h.data.reachable⟩

theorem machine_eq {pc : BitVec 32} {A : BitVec 5 → BitVec 32} {f : FlatRam}
    (hpc : s.data.core.wb.exPc = pc) (hfile : s.data.core.file = A)
    (hflat : s.data.memory.ram.flat = f) : s.machine = ⟨⟨pc, Regs.ofFun A⟩, f⟩ := by
  rw [machine, hpc, hfile, hflat]

/-- The machine after a cycle that leaves the RAM and the registers alone. -/
theorem machine_of_no_write (h : s.Tracks devices entry map) (hcommit : ¬ s.data.Commits)
    (hwrite : (s.data.core.out entry (s.coreIn i)).exWriteRd = false) :
    (step undef devices entry s i).machine =
      ⟨⟨(s.data.core.out entry (s.coreIn i)).npc, s.machine.hart.regs⟩, s.machine.mem⟩ :=
  machine_eq Core.exPc_step (Core.file_of_no_write hwrite) (h.data.flat_of_no_commit hcommit)

theorem step_reset (h : s.Tracks devices entry map) (hrst : s.data.rstComb (s.dataIn i) = true) :
    (env entry map).Step s.machine .reset (step undef devices entry s i).machine := by
  have hfile : (step undef devices entry s i).data.core.file = s.data.core.file := by
    rcases h.data.reachable.inv.bubble_of_rstComb hrst with hnow | hbubble
    · exact Core.file_of_rst hnow
    · refine Core.file_of_no_write (Core.exWriteRd_of_not_writesRd ?_)
      rw [hbubble]
      rfl
  have hpc : (step undef devices entry s i).data.core.wb.exPc = entry :=
    Core.exPc_step.trans (Core.npc_of_rst hrst)
  rw [machine_eq hpc hfile h.data.flat_step]
  refine .reset ((h.data.commit (s.dataIn i)).2.2.2.imp_right ?_)
  rintro ⟨got, a, -, -, hperforms⟩
  exact ⟨_, got, a, hperforms⟩

/-- A bubble. -/
theorem step_bubble (h : s.Tracks devices entry map) (hrst : s.data.rstComb (s.dataIn i) = false)
    (htrap : (s.comb entry i).onTrap = false) (hflush : s.data.core.idEx.flush = true) :
    (env entry map).Step s.machine .wait (step undef devices entry s i).machine := by
  have hbubble := Core.bubble_of_flush h.data.reachable.core.holdsLatched hflush
  have hcommit : ¬ s.data.Commits := by
    refine h.data.reachable.inv.no_commit_of_other ?_
    rw [hbubble]
    exact DataPath.not_isAccess_bubble
  have hwrite : (s.data.core.out entry (s.coreIn i)).exWriteRd = false := by
    refine Core.exWriteRd_of_not_writesRd ?_
    rw [hbubble]
    rfl
  have hsame : (step undef devices entry s i).machine = _ := machine_of_no_write h hcommit hwrite
  rw [hsame, Core.npc_of_bubble (Core.comb_of_bubble hrst htrap hflush)]
  exact .wait

/-- The instruction in EX waits. -/
theorem step_stall (h : s.Tracks devices entry map) (hrst : s.data.rstComb (s.dataIn i) = false)
    (hstall : (s.comb entry i).stall = true) :
    (env entry map).Step s.machine .wait (step undef devices entry s i).machine := by
  have hcommit : ¬ s.data.Commits :=
    h.data.reachable.inv.no_commit_of_stall (DataPath.rst_of_rstComb hrst) hstall
  have hsame : (step undef devices entry s i).machine = _ :=
    machine_of_no_write h hcommit (Core.exWriteRd_of_quiet (.inr hstall))
  rw [hsame, Core.npc_of_stall hstall]
  exact .wait

theorem checkInterrupt_msb {e : Exec} {p : Platform} {cause : BitVec 32}
    (h : e.checkInterrupt p = some cause) : cause.msb = true := by
  unfold Exec.checkInterrupt at h
  split at h
  · cases h
  · cases h
    simp [BitVec.msb_eq_getLsbD_last]

/-- A trap without an interrupt is one of the instruction in EX. -/
theorem holds_of_trap (hrst : s.data.rstComb (s.dataIn i) = false)
    (htrap : (s.comb entry i).onTrap = true)
    (hint : s.data.core.takesInterrupt (s.coreIn i) = false) : s.data.core.idEx.flush = false := by
  refine Bool.eq_false_of_not_eq_true fun hflush => ?_
  rw [comb, Core.comb_of_flush hrst hint hflush] at htrap
  cases htrap

/-- The trap that a cycle enters has a reason. -/
theorem admits_trapOf (heven : Bits.EvenWord entry) (h : s.Tracks devices entry map)
    (hrst : s.data.rstComb (s.dataIn i) = false) (htrap : (s.comb entry i).onTrap = true) :
    (env entry map).Admits (s.trapOf entry i) := by
  have hcore := h.data.reachable.core
  unfold trapOf
  dsimp only
  split
  · rename_i hint
    obtain ⟨cause, hcause, hc⟩ := @Core.comb_of_interrupt entry s.data.core (s.coreIn i) hrst hint
    change ((s.data.core.comb entry (s.coreIn i)).cause).msb = true
    rw [hc]
    exact checkInterrupt_msb hcause
  rename_i hint
  have hint : s.data.core.takesInterrupt (s.coreIn i) = false := Bool.eq_false_of_not_eq_true hint
  have hflush := holds_of_trap hrst htrap hint
  split
  · rename_i hmarked
    rcases hcore.holdsRecord.marked hmarked with hfetch | ⟨hcode, hnone⟩
    · rw [if_neg]
      · exact hfetch
      · intro hcode
        rw [hcode] at hfetch
        exact absurd hfetch (by decide)
    · rw [if_pos hcode]
      exact hnone
  · rename_i hmarked
    have hmarked : s.data.core.idEx.onTrap = false := Bool.eq_false_of_not_eq_true hmarked
    obtain ⟨f, instr, hrecord, -⟩ := hcore.holdsRecord.record hflush hmarked
    have hexec := @Core.comb_of_instruction entry s.data.core (s.coreIn i) hrst hint hflush hmarked
    have hpc : s.data.core.idEx.pc = s.data.core.wb.exPc :=
      hcore.valid s.data.core.idEx (by simp [Core.sequential, Core.slot, hflush])
    refine ⟨instr, _, hrecord.means, ?_⟩
    refine hrecord.cause_mem (x := s.data.core.execIn entry (s.coreIn i))
      hcore.holdsLatched.latched.toDecoded ?_ ?_ hexec htrap
    · change Bits.EvenWord s.data.core.idEx.pc
      rw [hpc]
      exact hcore.exPc_even heven
    · intro hfault
      have hb : s.data.Busy := by
        refine h.data.reachable.inv.phase.resolve_left fun hi => hfault ?_
        exact (DataPath.rsp_of_quiet h.data.reachable.inv.answered hi.quiet).2
      rw [hrecord.causes_of_access hb.access]
      exact (h.data.reachable.keepsRequest hb).fault_code hfault

/-- A trap. -/
theorem step_trap (heven : Bits.EvenWord entry) (h : s.Tracks devices entry map)
    (hrst : s.data.rstComb (s.dataIn i) = false) (htrap : (s.comb entry i).onTrap = true) :
    (env entry map).Step s.machine
      (.trap (s.trapOf entry i) (s.data.core.out entry (s.coreIn i)).npc)
      (step undef devices entry s i).machine := by
  have hcommit : ¬ s.data.Commits :=
    h.data.reachable.inv.no_commit_of_trap (DataPath.rst_of_rstComb hrst) htrap
  have hnext : (step undef devices entry s i).machine = _ :=
    machine_of_no_write h hcommit (Core.exWriteRd_of_quiet (.inl htrap))
  rw [hnext]
  exact .trap (admits_trapOf heven h hrst htrap)

/-- What EXEC sees of the DMMU and of MEXT in the cycle in which an instruction retires
answers the instruction. -/
theorem answers_of_retire (h : s.Tracks devices entry map)
    (hrst : s.data.rstComb (s.dataIn i) = false) (htrap : (s.comb entry i).onTrap = false)
    (hstall : (s.comb entry i).stall = false) (hflush : s.data.core.idEx.flush = false)
    {f : Forward} {w : BitVec 32} {instr : Instr}
    (hrecord : RecordOf f s.data.core.wb.exPc w instr s.data.core.idEx)
    (hfile : f.operand = s.data.core.file) :
    Exec.Answers (s.data.core.execIn entry (s.coreIn i)) instr := by
  have hnow : i.rst = false := DataPath.rst_of_rstComb hrst
  have hinv := h.data.reachable.inv
  have hacc (hack : s.data.dmmuRsp.mmuRspAck = true) : s.data.core.idEx.IsAccess := by
    rcases hinv.phase with hi | hb
    · cases hack.symm.trans (DataPath.rsp_of_quiet hinv.answered hi.quiet).1
    · exact hb.access
  refine ⟨fun hack => (hrecord.decodes_of_access (hacc hack)).2, ?_, ?_⟩
  · rintro op rd rs1 imm rfl hack
    obtain ⟨hb, haccess, hok, -, hdata⟩ :=
      @DataPath.Inv.accesses_of_retire _ _ entry _ (s.dataIn i) hinv (hacc hack) hnow hrst htrap
        hstall
    obtain ⟨va, a, haccesses, -, -, -, hperformed⟩ :=
      @DataPath.Tracks.performed _ _ _ _ (s.dataIn i) _ h.data hb haccess hok _ _ _ hrecord hfile
    cases haccesses
    change s.data.dmmuRsp.mmuRspRdata.toNat < _
    rw [hdata]
    exact hperformed.performs.2.1
  · intro op htype hack
    cases hwaits : s.data.core.wb.wbStall with
    | false => cases hack.symm.trans (h.inv.first ⟨hflush, hwaits⟩)
    | true => exact congrArg Mext.mextResult (h.inv.second op htype hwaits)

/-- What a retired instruction does to the memory. -/
theorem uses_of_retire (h : s.Tracks devices entry map)
    (hrst : s.data.rstComb (s.dataIn i) = false) (htrap : (s.comb entry i).onTrap = false)
    (hstall : (s.comb entry i).stall = false) {f : Forward} {w : BitVec 32} {instr : Instr}
    (hrecord : RecordOf f s.data.core.wb.exPc w instr s.data.core.idEx)
    (hfile : f.operand = s.data.core.file) :
    (env entry map).Uses s.data.core.exec.translates instr s.machine.hart.regs
      (s.data.core.exec.gotOf (s.data.core.execIn entry (s.coreIn i)) (s.comb entry i))
      s.machine.mem (step undef devices entry s i).machine.mem := by
  have hnow : i.rst = false := DataPath.rst_of_rstComb hrst
  have hinv := h.data.reachable.inv
  have hflat : (step undef devices entry s i).machine.mem =
      (s.data.committed devices (s.dataIn i)).ram.flat := h.data.flat_step
  by_cases hacc : s.data.core.idEx.IsAccess
  · obtain ⟨hb, haccess, hok, hack, hdata⟩ :=
      @DataPath.Inv.accesses_of_retire _ _ entry _ (s.dataIn i) hinv hacc hnow hrst htrap hstall
    obtain ⟨va, a, haccesses, -, hreaches, haligned, hperformed⟩ :=
      @DataPath.Tracks.performed _ _ _ _ (s.dataIn i) _ h.data hb haccess hok _ _ _ hrecord hfile
    have hgot : s.data.core.exec.gotOf (s.data.core.execIn entry (s.coreIn i)) (s.comb entry i) =
        s.data.dout.memRspRdata := by
      have hcomb : s.comb entry i = _ := @DataPath.Busy.comb _ _ (s.dataIn i) hb entry hnow
      rw [← hdata, hcomb]
      exact if_pos hack
    unfold Rv32.Env.Uses
    rw [show instr.access s.machine.hart.regs = some (va, a) from haccesses]
    refine ⟨_, hreaches, haligned, ?_⟩
    rw [hflat, hgot]
    have hperforms := hperformed.performs
    rw [h.data.ramMap] at hperforms
    exact hperforms
  · unfold Rv32.Env.Uses
    rw [hrecord.access_of_no_access hacc]
    exact h.data.flat_of_no_commit (hinv.no_commit_of_other hacc)

/-- A retirement. -/
theorem step_retire (h : s.Tracks devices entry map)
    (hrst : s.data.rstComb (s.dataIn i) = false) (htrap : (s.comb entry i).onTrap = false)
    (hstall : (s.comb entry i).stall = false) (hflush : s.data.core.idEx.flush = false) :
    (env entry map).Step s.machine
      (.retire s.data.core.idEx.inst s.data.core.idEx.len
        (s.data.core.exec.gotOf (s.data.core.execIn entry (s.coreIn i)) (s.comb entry i))
        s.data.core.exec.translates)
      (step undef devices entry s i).machine := by
  have hcore := h.data.reachable.core
  obtain ⟨hmarked, hexec⟩ := @Core.comb_of_executed entry s.data.core (s.coreIn i) hrst htrap hflush
  obtain ⟨f, instr, hrecord, hfile⟩ := hcore.holdsRecord.record hflush hmarked
  have hanswers := answers_of_retire h hrst htrap hstall hflush hrecord hfile
  have hhart := hrecord.exec (x := s.data.core.execIn entry (s.coreIn i)) hfile hcore.file_zero
    hanswers hexec ⟨htrap, hstall⟩
  have hnow : i.rst = false := DataPath.rst_of_rstComb hrst
  have hnext : (step undef devices entry s i).machine = _ :=
    machine_eq Core.exPc_step (Core.file_step hnow) rfl
  have hcalls : ¬ instr.Calls := by
    refine hrecord.not_calls (x := s.data.core.execIn entry (s.coreIn i))
      (e := s.data.core.exec) ?_
    rw [← hexec]
    exact htrap
  rw [hnext]
  change (env entry map).Step s.machine _ ⟨s.data.core.exec.hartAfter
    (s.data.core.execIn entry (s.coreIn i)) (s.comb entry i) s.data.core.file, _⟩
  rw [show s.data.core.exec.hartAfter _ (s.comb entry i) s.data.core.file = _ from hhart]
  exact .retire hrecord.means hcalls (uses_of_retire h hrst htrap hstall hrecord hfile)

/-- The kinds of cycles: a reset, a trap, a bubble, a stall and a retirement. -/
theorem label_cases (entry : BitVec 32) (s : MextPath δ) (i : DataIn δ) :
    (s.data.rstComb (s.dataIn i) = true ∧ s.label entry i = .reset) ∨
    (s.data.rstComb (s.dataIn i) = false ∧ (s.comb entry i).onTrap = true ∧
      s.label entry i = .trap (s.trapOf entry i) (s.data.core.out entry (s.coreIn i)).npc) ∨
    (s.data.rstComb (s.dataIn i) = false ∧ (s.comb entry i).onTrap = false ∧
      ((s.data.core.idEx.flush = true ∧ s.label entry i = .wait) ∨
        (s.data.core.idEx.flush = false ∧ (s.comb entry i).stall = true ∧
          s.label entry i = .wait) ∨
        (s.data.core.idEx.flush = false ∧ (s.comb entry i).stall = false ∧
          s.label entry i = .retire s.data.core.idEx.inst s.data.core.idEx.len
            (s.data.core.exec.gotOf (s.data.core.execIn entry (s.coreIn i)) (s.comb entry i))
            s.data.core.exec.translates))) := by
  unfold label Core.event
  by_cases hrst : (s.coreIn i).rstComb = true
  · rw [if_pos hrst]
    exact .inl ⟨hrst, rfl⟩
  have hnow : s.data.rstComb (s.dataIn i) = false := Bool.eq_false_of_not_eq_true hrst
  rw [if_neg hrst]
  by_cases htrap : (s.data.core.comb entry (s.coreIn i)).onTrap = true
  · rw [if_pos htrap]
    exact .inr (.inl ⟨hnow, htrap, rfl⟩)
  refine .inr (.inr ⟨hnow, Bool.eq_false_of_not_eq_true htrap, ?_⟩)
  rw [if_neg htrap]
  unfold Core.slot
  by_cases hflush : s.data.core.idEx.flush = true
  · rw [if_pos hflush]
    exact .inl ⟨hflush, rfl⟩
  refine .inr ?_
  rw [if_neg hflush]
  dsimp only
  have hflush : s.data.core.idEx.flush = false := Bool.eq_false_of_not_eq_true hflush
  by_cases hstall : (s.data.core.out entry (s.coreIn i)).stall = true
  · rw [if_pos hstall]
    exact .inl ⟨hflush, hstall, rfl⟩
  · rw [if_neg hstall]
    exact .inr ⟨hflush, Bool.eq_false_of_not_eq_true hstall, rfl⟩

/-- Every cycle is a step of the machine. -/
theorem machine_step (heven : Bits.EvenWord entry) (h : s.Tracks devices entry map) :
    (env entry map).Step s.machine (s.label entry i) (step undef devices entry s i).machine := by
  rcases label_cases entry s i with ⟨hrst, hlabel⟩ | ⟨hrst, htrap, hlabel⟩ |
    ⟨hrst, htrap, ⟨hflush, hlabel⟩ | ⟨-, hstall, hlabel⟩ | ⟨hflush, hstall, hlabel⟩⟩
  · rw [hlabel]
    exact step_reset h hrst
  · rw [hlabel]
    exact step_trap heven h hrst htrap
  · rw [hlabel]
    exact step_bubble h hrst htrap hflush
  · rw [hlabel]
    exact step_stall h hrst hstall
  · rw [hlabel]
    exact step_retire h hrst htrap hstall hflush

/-- A powered-up machine after its first reset cycle. -/
theorem tracks_of_rst {m : Memory δ} (hwf : m.ram.WellFormed) (hrst : i.rst = true) :
    (step undef devices entry { data := { memory := m } } i).Tracks devices entry
      (Memory.ramMap devices m) ∧
      (step undef devices entry { data := { memory := m } } i).machine =
        ⟨⟨entry, Regs.ofFun ({} : Core).regs⟩, m.ram.flat⟩ := by
  obtain ⟨htracks, hflat⟩ :=
    @DataPath.tracks_of_rst _ devices entry (dataIn { data := { memory := m } } i) m hwf hrst
  refine ⟨⟨htracks, Reachable.inv (.start ⟨m, i, hrst, rfl⟩)⟩, machine_eq ?_ ?_ hflat⟩
  · exact Core.exPc_step.trans (Core.npc_of_rst (CoreIn.rst_held _ hrst))
  · exact Core.file_of_rst hrst

/-- From reset on, the processor is an RV32 machine. Whatever words the fetch side offers and
whatever the platform, the TLB and the peripherals do: the cycles of every run are steps of
the machine, which starts at the entry with the registers and the RAM as they were. -/
theorem implements_rv32_machine (undef : BitVec 32 → BitVec 32 → BitVec 32)
    (devices : List (Device δ)) (entry : BitVec 32) (heven : Bits.EvenWord entry) (m : Memory δ)
    (hwf : m.ram.WellFormed) (i : DataIn δ) (hrst : i.rst = true) (is : List (DataIn δ)) :
    let s := step undef devices entry { data := { memory := m } } i
    let map := Memory.ramMap devices m
    s.machine = ⟨⟨entry, Regs.ofFun ({} : Core).regs⟩, m.ram.flat⟩ ∧
      Clocked.LabelledRun (env entry map).Step s.machine
        (Clocked.trace (step undef devices entry) (label entry) s is)
        (Clocked.run (step undef devices entry) s is).machine := by
  intro s map
  obtain ⟨hs, hstart⟩ := @tracks_of_rst _ undef devices entry i m hwf hrst
  exact ⟨hstart,
    Clocked.simulation (fun _ _ => Tracks.step) (fun _ _ h => machine_step heven h) hs is⟩

/-- A machine with the RAM alone that retires `MULHU x5, x11, x11` and `SW x5, 0(x11)`. -/
theorem implements_rv32_machine_mulhu_sw :
    let undef := fun _ _ => 0
    let i : DataIn Unit := { rst := true }
    let is : List (DataIn Unit) :=
      [{ ifId := { ifIdInst := 0x02b5b2b3, ifIdPc := 0x80000000 } }, {},
        { ifId := { ifIdInst := 0x0055a023, ifIdPc := 0x80000004 } }, {}, {}, {}]
    let m : Memory Unit := { ram := Ram.init 0x80000000, dev := () }
    let s := step undef [Device.ram] 0x80000000 { data := { memory := m } } i
    let t := Clocked.run (step undef [Device.ram] 0x80000000) s is
    Clocked.LabelledRun (env 0x80000000 (Memory.ramMap [Device.ram] m)).Step s.machine
      (Clocked.trace (step undef [Device.ram] 0x80000000) (label 0x80000000) s is) t.machine ∧
      t.machine.hart.pc = 0x80000008 ∧ t.machine.hart.regs.read 5 = 0x40100100 ∧
      t.machine.mem.bytes 0x80100003 = 0x40 := by
  intro undef i is m s t
  have hrun := implements_rv32_machine undef [Device.ram] 0x80000000 (by decide) m
    (Ram.init_wellFormed _) i rfl is
  exact ⟨hrun.2, by decide, by decide, by decide⟩

end MextPath

end Turtle
