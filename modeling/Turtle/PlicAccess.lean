import Turtle.Lib.Bits
import Turtle.Lib.Lanes
import Turtle.Platforms

/-!
# Word accesses to the PLIC

`Memory` turns a word access into four byte accesses, loads from the highest byte
down and stores from the lowest byte up. Each byte of a claim or completion register
has the side effect of the register. This file says what the four together do, and
that `Memory` does nothing else for a word of the PLIC.
-/

namespace Turtle

open Bits

/-- An address of a word. -/
structure WordAddr where
  addr : BitVec 32
  aligned : addr.toNat % 4 = 0

namespace WordAddr

variable (w : WordAddr) {k : ℕ}

theorem toNat_add (hk : k < 4) : (w.addr + BitVec.ofNat 32 k).toNat = w.addr.toNat + k := by
  have hlt := w.addr.isLt
  have hal := w.aligned
  rw [BitVec.toNat_add, BitVec.toNat_ofNat]
  omega

/-- The register of a byte of the word. -/
theorem and_not_three (hk : k < 4) : (w.addr + BitVec.ofNat 32 k) &&& ~~~3 = w.addr := by
  have hal := w.aligned
  apply BitVec.eq_of_toNat_eq
  rw [and_not_three_toNat, w.toNat_add hk]
  omega

/-- The bit at which a byte of the word starts. -/
theorem offset (hk : k < 4) : Plic.offset (w.addr + BitVec.ofNat 32 k) = 8 * k := by
  have hal := w.aligned
  have hand : ((w.addr + BitVec.ofNat 32 k) &&& 3).toNat = k := by
    rw [and_ones_toNat _ 3 (n := 2) rfl, w.toNat_add hk]
    omega
  rw [Plic.offset, BitVec.toNat_mul, hand]
  change k * 8 % 2 ^ 32 = _
  omega

end WordAddr

namespace Plic

variable (undef : BitVec 32 → BitVec 32)

theorem clmCmpltAddr_aligned (c : PlicCtx) : (clmCmpltAddr c).toNat % 4 = 0 := by
  cases c <;> decide

/-- The claim and completion register of a context. -/
def clmCmplt (c : PlicCtx) : WordAddr := ⟨clmCmpltAddr c, clmCmpltAddr_aligned c⟩

theorem enableAddr_aligned (c : PlicCtx) : (enableAddr c).toNat % 4 = 0 := by
  cases c <;> decide

/-- The enable register of a context. -/
def enableWord (c : PlicCtx) : WordAddr := ⟨enableAddr c, enableAddr_aligned c⟩

theorem uartPriorityAddr_aligned : uartPriorityAddr.toNat % 4 = 0 := by decide

/-- The priority register of the UART. -/
def uartPriorityWord : WordAddr := ⟨uartPriorityAddr, uartPriorityAddr_aligned⟩

/-- A word load: four byte reads, the highest first. -/
def readWord (addr : BitVec 32) (p : Plic) : BitVec 32 × Plic :=
  (Memory.downFrom 4).foldl (fun acc i =>
    let r := acc.2.read undef (addr + i)
    ((acc.1 <<< 8) ||| r.1.setWidth 32, r.2)) (0, p)

/-- A word store: four byte writes, the lowest first. -/
def writeWord (addr wdata : BitVec 32) (p : Plic) : Plic :=
  Memory.writeBytes (fun p addr val => p.write undef addr val) p addr 4 wdata

variable {undef} {p : Plic} {w : WordAddr} {c : PlicCtx}

@[simp] theorem clmCmplt_addr : (clmCmplt c).addr = clmCmpltAddr c := rfl

theorem read_byte {k : ℕ} (hk : k < 4) :
    p.read undef (w.addr + BitVec.ofNat 32 k) = p.readAt undef w.addr (8 * k) := by
  rw [read, w.and_not_three hk, w.offset hk]

theorem write_byte {k : ℕ} (hk : k < 4) (val : BitVec 8) :
    p.write undef (w.addr + BitVec.ofNat 32 k) val = p.writeAt undef w.addr (8 * k) val := by
  rw [write, w.and_not_three hk, w.offset hk]

theorem downFrom_four : Memory.downFrom 4 =
    [BitVec.ofNat 32 3, BitVec.ofNat 32 2, BitVec.ofNat 32 1, BitVec.ofNat 32 0] := by decide

/-- The four reads of a word load. -/
theorem readWord_eq : p.readWord undef w.addr =
    let r₃ := p.readAt undef w.addr 24
    let r₂ := r₃.2.readAt undef w.addr 16
    let r₁ := r₂.2.readAt undef w.addr 8
    let r₀ := r₁.2.readAt undef w.addr 0
    ((((((0#32 <<< 8 ||| r₃.1.setWidth 32) <<< 8) ||| r₂.1.setWidth 32) <<< 8) |||
      r₁.1.setWidth 32) <<< 8 ||| r₀.1.setWidth 32, r₀.2) := by
  unfold readWord
  rw [downFrom_four]
  simp only [List.foldl_cons, List.foldl_nil]
  rw [read_byte (by omega), read_byte (by omega), read_byte (by omega), read_byte (by omega)]
  rfl

/-- The four writes of a word store. -/
theorem writeWord_eq (wdata : BitVec 32) : p.writeWord undef w.addr wdata =
    (((p.writeAt undef w.addr 0 (wdata.setWidth 8)).writeAt undef w.addr 8
      ((wdata >>> 8).setWidth 8)).writeAt undef w.addr 16
      ((wdata >>> 16).setWidth 8)).writeAt undef w.addr 24 ((wdata >>> 24).setWidth 8) := by
  unfold writeWord
  rw [Memory.writeBytes_eq]
  change Memory.afterBytes _ _ _ _ 4 = _
  simp only [Memory.afterBytes]
  rw [write_byte (by omega), write_byte (by omega), write_byte (by omega), write_byte (by omega)]
  rfl

/-- The bytes of a word, put together again. -/
theorem bytes_eq (v : BitVec 32) :
    (((((0#32 <<< 8 ||| ((v >>> 24).setWidth 8).setWidth 32) <<< 8) |||
      ((v >>> 16).setWidth 8).setWidth 32) <<< 8 ||| ((v >>> 8).setWidth 8).setWidth 32) <<< 8) |||
      ((v >>> 0).setWidth 8).setWidth 32 = v := by
  have hpack := Lanes.pack_lanes (w := 8) (by omega) v (k := 4) (by omega)
  rw [← Lanes.foldr_shift_eq_pack] at hpack
  exact hpack

/-- A word load of a register other than the two claim registers changes nothing. -/
theorem readWord_other (h : ∀ c, w.addr ≠ clmCmpltAddr c) :
    (p.readWord undef w.addr).2 = p := by
  have hbyte (p : Plic) (off : ℕ) : (p.readAt undef w.addr off).2 = p := by
    unfold readAt
    dsimp only
    rw [if_neg (h .m), if_neg (h .s)]
    split_ifs <;> rfl
  rw [readWord_eq]
  simp only [hbyte]

/-- The state after a word load of a claim register: the claim that was held and the one
that is taken are masked. -/
def claimWord (undef : BitVec 32 → BitVec 32) (c : PlicCtx) (p : Plic) : Plic :=
  { p with claimMask := p.claimMask ||| oneShl undef (p.core0 c).clm |||
      oneShl undef (p.core0 c).irq }.set c { p.core0 c with clm := (p.core0 c).irq }

theorem claimWord_core0 (d : PlicCtx) : (p.claimWord undef c).core0 d =
    if d = c then { p.core0 c with clm := (p.core0 c).irq } else p.core0 d :=
  Function.update_apply ..

theorem claim_core0 (d : PlicCtx) : (p.claim undef c).core0 d =
    if d = c then { p.core0 c with clm := (p.core0 c).irq } else p.core0 d :=
  Function.update_apply ..

theorem claim_claim : (p.claim undef c).claim undef c = p.claimWord undef c := by
  simp [claim, claimWord, set]

theorem claim_claimWord : (p.claimWord undef c).claim undef c = p.claimWord undef c := by
  simp [claim, claimWord, set, BitVec.or_assoc]

/-- A byte read of a claim register. -/
theorem readAt_clmCmplt (off : ℕ) : p.readAt undef (clmCmplt c).addr off =
    (((p.core0 c).irq >>> off).setWidth 8, p.claim undef c) := by
  have hclm : ((p.claim undef c).core0 c).clm = (p.core0 c).irq := by
    rw [claim_core0, if_pos rfl]
  unfold readAt
  dsimp only
  rw [clmCmplt_addr]
  cases c with
  | m => rw [if_neg (by decide), if_neg (by decide), if_pos rfl, hclm]
  | s => rw [if_neg (by decide), if_neg (by decide), if_neg (by decide), if_pos rfl, hclm]

/-- A word load of a claim register returns what the line of the context shows. -/
theorem readWord_clmCmplt : p.readWord undef (clmCmplt c).addr =
    ((p.core0 c).irq, p.claimWord undef c) := by
  have hirq : ((p.claimWord undef c).core0 c).irq = (p.core0 c).irq := by
    simp [claimWord, set]
  have hirq' : ((p.claim undef c).core0 c).irq = (p.core0 c).irq := by
    rw [claim_core0, if_pos rfl]
  rw [readWord_eq]
  simp only [readAt_clmCmplt, claim_claim, claim_claimWord, hirq, hirq']
  rw [bytes_eq]

theorem readWord_of_claim (h : w.addr = clmCmpltAddr c) : p.readWord undef w.addr =
    ((p.core0 c).irq, p.claimWord undef c) := by
  rw [h, ← clmCmplt_addr, readWord_clmCmplt]

/-- The bits of a merged byte. -/
theorem getLsbD_merge (old : BitVec 32) (off : ℕ) (val : BitVec 8) {i : ℕ} (hi : i < 32) :
    (merge old off val).getLsbD i =
      if off ≤ i ∧ i < off + 8 then val.getLsbD (i - off) else old.getLsbD i := by
  have hbyte : (0xff#32).getLsbD (i - off) = decide (i - off < 8) := by
    have hones := BitVec.getLsbD_setWidth 32 (BitVec.allOnes 8) (i - off)
    rw [BitVec.getLsbD_allOnes] at hones
    have hlt : i - off < 32 := by omega
    simpa [hlt] using hones
  rw [merge, BitVec.getLsbD_or, BitVec.getLsbD_and, BitVec.getLsbD_not, BitVec.getLsbD_shiftLeft,
    BitVec.getLsbD_shiftLeft, hbyte, BitVec.getLsbD_setWidth]
  by_cases hlo : i < off
  · simp [hi, hlo, Nat.not_le.mpr hlo]
  · by_cases hhi : i - off < 8
    · have hin : off ≤ i ∧ i < off + 8 := by omega
      have hwide : i - off < 32 := by omega
      simp [hi, hlo, hhi, hin, hwide]
    · have hout : ¬ (off ≤ i ∧ i < off + 8) := by omega
      have hclear : val.getLsbD (i - off) = false := BitVec.getLsbD_of_ge val _ (by omega)
      simp [hi, hlo, hhi, hout, hclear]

/-- The completion register before each byte of a word store, and so the shift counts
with which the store clears the claim mask. -/
def shiftCounts (old wdata : BitVec 32) : List (BitVec 32) :=
  let first := merge old 0 (wdata.setWidth 8)
  let second := merge first 8 ((wdata >>> 8).setWidth 8)
  let third := merge second 16 ((wdata >>> 16).setWidth 8)
  [old, first, second, third]

/-- The claim mask after the sources with the given numbers were cleared. -/
def unmask (undef : BitVec 32 → BitVec 32) (mask : BitVec 32) (ids : List (BitVec 32)) :
    BitVec 32 :=
  ids.foldl (fun mask n => mask &&& ~~~(oneShl undef n)) mask

/-- The state after a word store to a completion register. -/
def completeWord (undef : BitVec 32 → BitVec 32) (c : PlicCtx) (wdata : BitVec 32) (p : Plic) :
    Plic :=
  let counts := shiftCounts (p.core0 c).cmplt wdata
  { p with claimMask := unmask undef p.claimMask counts }.set c { p.core0 c with cmplt := wdata }

theorem completeWord_core0 (wdata : BitVec 32) (d : PlicCtx) :
    (p.completeWord undef c wdata).core0 d =
      if d = c then { p.core0 c with cmplt := wdata } else p.core0 d :=
  Function.update_apply ..

/-- A completion leaves the claims of both contexts and their lines alone. -/
theorem completeWord_claims (wdata : BitVec 32) (d : PlicCtx) :
    ((p.completeWord undef c wdata).core0 d).clm = (p.core0 d).clm ∧
      ((p.completeWord undef c wdata).core0 d).irq = (p.core0 d).irq := by
  rw [completeWord_core0]
  split_ifs with h
  · rw [h]
    exact ⟨rfl, rfl⟩
  · exact ⟨rfl, rfl⟩

/-- Four merged bytes replace the word. -/
theorem merge_word (old wdata : BitVec 32) :
    merge (merge (merge (merge old 0 (wdata.setWidth 8)) 8 ((wdata >>> 8).setWidth 8)) 16
      ((wdata >>> 16).setWidth 8)) 24 ((wdata >>> 24).setWidth 8) = wdata := by
  apply BitVec.eq_of_getLsbD_eq
  intro i hi
  have hbyte (k : ℕ) (hk : k ≤ i) (hlt : i < k + 8) :
      ((wdata >>> k).setWidth 8).getLsbD (i - k) = wdata.getLsbD i := by
    have hin : i - k < 8 := by omega
    rw [BitVec.getLsbD_setWidth, BitVec.getLsbD_ushiftRight, Nat.add_sub_cancel' hk]
    simp [hin]
  rw [getLsbD_merge _ _ _ hi, getLsbD_merge _ _ _ hi, getLsbD_merge _ _ _ hi,
    getLsbD_merge _ _ _ hi]
  split_ifs with h3 h2 h1 h0
  · exact hbyte 24 h3.1 h3.2
  · exact hbyte 16 h2.1 h2.2
  · exact hbyte 8 h1.1 h1.2
  · exact hbyte 0 h0.1 h0.2
  · omega

/-- A byte write to a completion register. -/
theorem writeAt_clmCmplt (off : ℕ) (val : BitVec 8) :
    p.writeAt undef (clmCmplt c).addr off val = p.complete undef c off val := by
  unfold writeAt
  dsimp only
  rw [clmCmplt_addr]
  cases c with
  | m => rw [if_neg (by decide), if_neg (by decide), if_pos rfl]
  | s => rw [if_neg (by decide), if_neg (by decide), if_neg (by decide), if_pos rfl]

/-- A word store to a completion register. -/
theorem writeWord_clmCmplt (wdata : BitVec 32) :
    p.writeWord undef (clmCmplt c).addr wdata = p.completeWord undef c wdata := by
  rw [writeWord_eq]
  simp only [writeAt_clmCmplt]
  simp [complete, completeWord, shiftCounts, unmask, set, merge_word]

theorem writeWord_of_claim (h : w.addr = clmCmpltAddr c) (wdata : BitVec 32) :
    p.writeWord undef w.addr wdata = p.completeWord undef c wdata := by
  rw [h, ← clmCmplt_addr, writeWord_clmCmplt]

/-- What claims and completions work with. -/
structure SameClaims (p q : Plic) : Prop where
  claimMask : q.claimMask = p.claimMask
  clm : ∀ c, (q.core0 c).clm = (p.core0 c).clm
  irq : ∀ c, (q.core0 c).irq = (p.core0 c).irq
  cmplt : ∀ c, (q.core0 c).cmplt = (p.core0 c).cmplt

theorem SameClaims.refl (p : Plic) : SameClaims p p :=
  ⟨rfl, fun _ => rfl, fun _ => rfl, fun _ => rfl⟩

theorem SameClaims.trans {p q r : Plic} (h : SameClaims p q) (h' : SameClaims q r) :
    SameClaims p r :=
  ⟨h'.claimMask.trans h.claimMask, fun c => (h'.clm c).trans (h.clm c),
    fun c => (h'.irq c).trans (h.irq c), fun c => (h'.cmplt c).trans (h.cmplt c)⟩

/-- A word store to another register leaves the claims alone. -/
theorem writeWord_other (h : ∀ c, w.addr ≠ clmCmpltAddr c) (wdata : BitVec 32) :
    SameClaims p (p.writeWord undef w.addr wdata) := by
  have hset {p : Plic} (d : PlicCtx) (r : PlicRegs) (hclm : r.clm = (p.core0 d).clm)
      (hirq : r.irq = (p.core0 d).irq) (hcmplt : r.cmplt = (p.core0 d).cmplt) :
      SameClaims p (p.set d r) := by
    refine ⟨rfl, fun c => ?_, fun c => ?_, fun c => ?_⟩
    all_goals
      by_cases hc : c = d
      · rw [hc, set_core0_self]
        assumption
      · rw [set_core0_of_ne hc]
  have hbyte (p : Plic) (off : ℕ) (val : BitVec 8) :
      SameClaims p (p.writeAt undef w.addr off val) := by
    unfold writeAt
    dsimp only
    rw [if_neg (h .m), if_neg (h .s)]
    split_ifs
    · exact hset .m _ rfl rfl rfl
    · exact hset .s _ rfl rfl rfl
    · exact ⟨rfl, fun _ => rfl, fun _ => rfl, fun _ => rfl⟩
    · exact ⟨rfl, fun _ => rfl, fun _ => rfl, fun _ => rfl⟩
    · exact hset .m _ rfl rfl rfl
    · exact hset .s _ rfl rfl rfl
    · exact .refl p
  rw [writeWord_eq]
  exact (((hbyte _ _ _).trans (hbyte _ _ _)).trans (hbyte _ _ _)).trans (hbyte _ _ _)

end Plic

namespace LinuxDev

variable {undef : BitVec 32 → BitVec 32} {m : Memory LinuxDev} {addr : BitVec 32}

/-- A byte of the PLIC is in no other range. -/
theorem consulted_plic (hm : InPlace m) (hlo : Plic.base ≤ addr) (hhi : addr ≤ Plic.top) :
    Device.consulted (devices undef) m addr = [.other (plicPort undef)] := by
  rw [BitVec.le_def] at hlo hhi
  have hlo : 0x30000000 ≤ addr.toNat := hlo
  have hhi : addr.toNat ≤ 0x34000000 := hhi
  have hram : (Device.ram : Device LinuxDev).covers m addr = false := by
    have hbase : ¬ m.ram.base ≤ addr := by
      rw [hm.1, BitVec.le_def]
      change ¬ 0x80000000 ≤ addr.toNat
      omega
    simp [Device.covers, hbase]
  have huart : (Device.other uartPort).covers m addr = false := by
    have htop : ¬ addr ≤ Uart.top := by
      rw [BitVec.le_def]
      change ¬ addr.toNat ≤ 0x10000100
      omega
    simp [Device.covers, uartPort, htop]
  have hclint : (Device.other clintPort).covers m addr = false := by
    have htop : ¬ addr ≤ Clint.top := by
      rw [BitVec.le_def]
      change ¬ addr.toNat ≤ 0x20010000
      omega
    simp [Device.covers, clintPort, htop]
  have hplic : (Device.other (plicPort undef)).covers m addr = true := by
    simp only [Device.covers, plicPort, BitVec.le_def, Bool.and_eq_true, decide_eq_true_eq]
    exact ⟨hlo, hhi⟩
  simp [Device.consulted, devices, hram, huart, hclint, hplic]

/-- The state with other PLIC registers. -/
def withPlic (m : Memory LinuxDev) (p : Plic) : Memory LinuxDev :=
  { m with dev := { m.dev with plic := p } }

/-- A word of the PLIC. -/
structure PlicWord extends WordAddr where
  above : Plic.base ≤ addr
  below : addr < Plic.top

theorem PlicWord.byte (w : PlicWord) {k : ℕ} (hk : k < 4) :
    Plic.base ≤ w.addr + BitVec.ofNat 32 k ∧ w.addr + BitVec.ofNat 32 k ≤ Plic.top := by
  have hal := w.aligned
  have habove := w.above
  have hbelow := w.below
  rw [BitVec.le_def, BitVec.le_def, w.toNat_add hk]
  rw [BitVec.le_def] at habove
  rw [BitVec.lt_def] at hbelow
  have hbelow : w.addr.toNat < 0x34000000 := hbelow
  have habove : 0x30000000 ≤ w.addr.toNat := habove
  change 0x30000000 ≤ w.addr.toNat + k ∧ w.addr.toNat + k ≤ 0x34000000
  omega

/-- A word load of the PLIC through `mem_access`. -/
theorem memAccess_plic (hm : InPlace m) (w : PlicWord) {din : DmemIn}
    (hreq : din.dmemReqAck = true) (haddr : din.dmemAddr = w.addr) (hsize : din.dmemSize = 4)
    (hload : din.dmemIsLoad = true) (hamo : din.dmemIsAmo = false) :
    Memory.memAccess (devices undef) m din =
      ({ memRspAck := true, memRspRdata := (m.dev.plic.readWord undef w.addr).1 },
        withPlic m (m.dev.plic.readWord undef w.addr).2) := by
  have hbyte (p : Plic) (v : BitVec 32) (k : ℕ) (hk : k < 4) :
      Memory.loadByte (devices undef) (v, withPlic m p) (w.addr + BitVec.ofNat 32 k) =
        ((v <<< 8) ||| (p.read undef (w.addr + BitVec.ofNat 32 k)).1.setWidth 32,
          withPlic m (p.read undef (w.addr + BitVec.ofNat 32 k)).2) := by
    rw [Device.loadByte_eq, consulted_plic (m := withPlic m p) hm (w.byte hk).1 (w.byte hk).2]
    rfl
  have hloop : (Memory.downFrom 4).foldl
      (fun acc i => Memory.loadByte (devices undef) acc (w.addr + i)) (0, m) =
      ((m.dev.plic.readWord undef w.addr).1, withPlic m (m.dev.plic.readWord undef w.addr).2) := by
    unfold Plic.readWord
    rw [Plic.downFrom_four]
    change List.foldl _ (0, withPlic m m.dev.plic) _ = _
    simp only [List.foldl_cons, List.foldl_nil]
    rw [hbyte _ _ 3 (by omega), hbyte _ _ 2 (by omega), hbyte _ _ 1 (by omega),
      hbyte _ _ 0 (by omega)]
  unfold Memory.memAccess
  simp only [hreq, hamo, hload, haddr, hsize, Bool.false_and, Bool.false_eq_true, if_false, if_true,
    hloop]

/-- A word store to the PLIC through `update_memory`. -/
theorem updateMemory_plic (hm : InPlace m) (w : PlicWord) {din : DmemIn} {dout : MemOut}
    (hack : dout.memRspAck = true) (hok : dout.memRspFault = 0) (haddr : din.dmemAddr = w.addr)
    (hsize : din.dmemSize = 4) (hstore : din.dmemIsStore = true) (hamo : din.dmemIsAmo = false) :
    Memory.updateMemory (devices undef) m din dout =
      withPlic m (m.dev.plic.writeWord undef w.addr din.dmemWdata) := by
  have hbyte (k : ℕ) (hk : k ≤ 4) :
      Memory.afterBytes (Memory.storeByte (devices undef)) m w.addr din.dmemWdata k =
        withPlic m (Memory.afterBytes (fun p addr val => p.write undef addr val) m.dev.plic w.addr
          din.dmemWdata k) := by
    induction k with
    | zero => rfl
    | succ k ih =>
      obtain ⟨hlo, hhi⟩ := w.byte (k := k) (by omega)
      have hfind (p : Plic) : (devices undef).find?
          (·.covers (withPlic m p) (w.addr + BitVec.ofNat 32 k)) =
            some (.other (plicPort undef)) := by
        rw [← List.head?_filter]
        exact congrArg List.head? (consulted_plic (m := withPlic m p) hm hlo hhi)
      rw [Memory.afterBytes, ih (by omega), Memory.storeByte, hfind]
      rfl
  unfold Memory.updateMemory Plic.writeWord
  simp only [hack, hok, hamo, hstore, haddr, hsize, Bool.true_and, beq_self_eq_true, if_true,
    Bool.false_eq_true, if_false, Memory.writeBytes_eq]
  exact hbyte 4 le_rfl

end LinuxDev

end Turtle
