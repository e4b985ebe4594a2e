import Turtle.Memory
import Turtle.Lib.Bits
import Turtle.Lib.Clocked
import Mathlib.Tactic.IntervalCases

/-!
# Reservations

`LR_W` sets one bit for each byte of its word, a write of a byte clears the bit of
that byte, and `SC_W` looks at the bit of its first byte alone. So a reservation
outlives a later `LR_W` or `SC_W` to another word, and a store to one of the other
three bytes. Apart from these, a successful `SC_W` follows its `LR_W`.
-/

namespace Turtle

/-- A data access to memory. -/
inductive MemOp
  | load (addr : BitVec 32) (size : BitVec 8)
  | store (addr : BitVec 32) (size : BitVec 8) (wdata : BitVec 32)
  | amo (addr : BitVec 32) (amoop : BitVec 8) (wdata : BitVec 32)
  | lr (addr : BitVec 32)
  | sc (addr : BitVec 32) (wdata : BitVec 32)
  deriving DecidableEq

namespace MemOp

/-- The request that reaches the controller for the access. -/
def request : MemOp → DmemIn
  | load addr size =>
    { dmemReqAck := true, dmemAddr := addr, dmemSize := size, dmemIsLoad := true }
  | store addr size wdata =>
    { dmemReqAck := true, dmemAddr := addr, dmemWdata := wdata, dmemSize := size,
      dmemIsStore := true }
  | amo addr amoop wdata =>
    { dmemReqAck := true, dmemAddr := addr, dmemWdata := wdata, dmemIsAmo := true,
      dmemAmoop := amoop }
  | lr addr => { dmemReqAck := true, dmemAddr := addr, dmemIsAmo := true, dmemAmoop := 0 }
  | sc addr wdata =>
    { dmemReqAck := true, dmemAddr := addr, dmemWdata := wdata, dmemIsAmo := true,
      dmemAmoop := 1 }

/-- The address is a multiple of the size, and the operation is one that exists. -/
def Aligned : MemOp → Prop
  | load addr size => (size = 1 ∨ size = 2 ∨ size = 4) ∧ addr.toNat % size.toNat = 0
  | store addr size _ => (size = 1 ∨ size = 2 ∨ size = 4) ∧ addr.toNat % size.toNat = 0
  | amo addr amoop _ => (2 ≤ amoop ∧ amoop ≤ 10) ∧ addr.toNat % 4 = 0
  | lr addr => addr.toNat % 4 = 0
  | sc addr _ => addr.toNat % 4 = 0

/-- The access belongs to the RAM: it is the first device for each byte, and no
device range is near. -/
def OnRam {δ : Type} (devices : List (Device δ)) (m : Memory δ) (op : MemOp) : Prop :=
  Memory.deviceAddress op.request.dmemAddr op.request.dmemSize = false ∧
    ∀ i < op.request.dmemSize.toNat, devices.find?
      (·.covers m (op.request.dmemAddr + BitVec.ofNat 32 i)) = some .ram

/-- A store or an AMO that writes a byte of the word at `a`. -/
def WritesWord (a : BitVec 32) : MemOp → Prop
  | store addr size _ => ∃ i < 4, (a + BitVec.ofNat 32 i - addr).toNat < size.toNat
  | amo addr _ _ => ∃ i < 4, (a + BitVec.ofNat 32 i - addr).toNat < 4
  | _ => False

/-- The access ends a reservation of `a`: it writes the byte at `a`, or it is an
`SC_W` to `a`. -/
def Clears (a : BitVec 32) : MemOp → Prop
  | store addr size _ => (a - addr).toNat < size.toNat
  | amo addr _ _ => addr = a
  | sc addr _ => addr = a
  | _ => False

/-- The access leaves a reservation of `a` alone, and may do so: it is no `LR_W`, no
`SC_W` and no store to the word. -/
def Harmless (a : BitVec 32) : MemOp → Prop
  | store addr size _ => ¬ ∃ i < 4, (a + BitVec.ofNat 32 i - addr).toNat < size.toNat
  | lr _ => False
  | sc _ _ => False
  | _ => True

end MemOp

namespace Memory

variable {δ : Type} (devices : List (Device δ))

/-- One access: `mem_access` answers the request, `update_memory` carries it out. -/
def transact (m : Memory δ) (din : DmemIn) : MemOut × Memory δ :=
  let out := memAccess devices m din
  (out.1, updateMemory devices out.2 din out.1)

/-- The memory after a sequence of accesses. -/
def runOps (m : Memory δ) (ops : List MemOp) : Memory δ :=
  Clocked.run (fun m (op : MemOp) => (transact devices m op.request).2) m ops

/-- No byte is reserved, as after `RAM` is constructed and an image is loaded. -/
structure Fresh (m : Memory δ) : Prop where
  wellFormed : m.ram.WellFormed
  clear : ∀ a, m.ram.reservedAt a = false

variable {devices} {m : Memory δ} {a addr wdata : BitVec 32} {op : MemOp}

theorem fresh_init (base : BitVec 32) (dev : δ) : Fresh { ram := Ram.init base, dev := dev } :=
  ⟨Ram.init_wellFormed base, fun _ => Ram.init_reservedAt base⟩

/-! ### The kinds of accesses -/

theorem and_three_of_aligned (h : addr.toNat % 4 = 0) : addr &&& 3 = 0 := by
  apply BitVec.eq_of_toNat_eq
  rw [Bits.and_ones_toNat (n := 2) addr 3 rfl]
  exact h

/-- Two words that share a byte are the same word. -/
theorem sub_lt_four_iff (ha : a.toNat % 4 = 0) (haddr : addr.toNat % 4 = 0) :
    (a - addr).toNat < 4 ↔ addr = a := by
  have hsub := BitVec.toNat_sub a addr
  have hlt := a.isLt
  have hlt' := addr.isLt
  constructor
  · intro h
    apply BitVec.eq_of_toNat_eq
    omega
  · rintro rfl
    rw [BitVec.sub_self]
    decide

theorem covers_congr {m' : Memory δ} (hbase : m'.ram.base = m.ram.base)
    (htop : m'.ram.top = m.ram.top) :
    (fun dev : Device δ => dev.covers m' addr) = (·.covers m addr) := by
  funext dev
  cases dev with
  | ram => simp only [Device.covers, hbase, htop]
  | other p => rfl

/-- A store to the RAM writes through `ram.write` alone. -/
theorem writeBytes_storeByte {size : BitVec 8} (h : ∀ i < size.toNat, devices.find?
      (·.covers m (addr + BitVec.ofNat 32 i)) = some .ram) :
    writeBytes (storeByte devices) m addr size wdata =
      { m with ram := afterBytes Ram.write m.ram addr wdata size.toNat } := by
  rw [writeBytes_eq]
  suffices key : ∀ k ≤ size.toNat, afterBytes (storeByte devices) m addr wdata k =
      { m with ram := afterBytes Ram.write m.ram addr wdata k } from key _ le_rfl
  intro k hk
  induction k with
  | zero => rfl
  | succ k ih =>
    rw [afterBytes, ih (by omega), storeByte, covers_congr (m := m) afterBytes_base afterBytes_top,
      h k hk]
    rfl

theorem transact_load (size : BitVec 8) :
    (transact devices m (MemOp.load addr size).request).2 =
      (memAccess devices m (MemOp.load addr size).request).2 := by
  simp [transact, updateMemory, MemOp.request]

theorem transact_store {size : BitVec 8} (hram : ∀ i < size.toNat, devices.find?
      (·.covers m (addr + BitVec.ofNat 32 i)) = some .ram) :
    (transact devices m (MemOp.store addr size wdata).request).2 =
      { m with ram := afterBytes Ram.write m.ram addr wdata size.toNat } := by
  have hbytes : writeBytes (storeByte devices) m addr size wdata =
      { m with ram := afterBytes Ram.write m.ram addr wdata size.toNat } :=
    writeBytes_storeByte hram
  simp [transact, memAccess, updateMemory, MemOp.request, hbytes]

/-- The answer to an atomic access, apart from the value that an AMO reads. -/
theorem memAccess_atomic (devices : List (Device δ)) (m : Memory δ) (din : DmemIn)
    (hreq : din.dmemReqAck = true) (hamo : din.dmemIsAmo = true) (hal : din.dmemAddr.toNat % 4 = 0)
    (hdev : deviceAddress din.dmemAddr din.dmemSize = false) :
    (memAccess devices m din).1.memRspAck = true ∧ (memAccess devices m din).1.memRspFault = 0 := by
  simp only [memAccess, hreq, hamo, hdev, Bool.true_and, and_three_of_aligned hal, beq_self_eq_true,
    if_true, Bool.false_eq_true, if_false]
  split <;> exact ⟨rfl, rfl⟩

/-- `LR_W` reserves its four bytes. -/
theorem transact_lr (hal : (MemOp.lr addr).Aligned) (hdev : deviceAddress addr 4 = false) :
    (transact devices m (MemOp.lr addr).request).2.ram =
      ((List.range 4).map (BitVec.ofNat 32)).foldl (fun ram i => ram.amoLr (addr + i))
        (memAccess devices m (MemOp.lr addr).request).2.ram := by
  obtain ⟨hack, hfault⟩ := memAccess_atomic devices m (MemOp.lr addr).request rfl rfl hal hdev
  unfold transact updateMemory
  simp only [hack, hfault]
  rfl

/-- An AMO writes its four bytes. -/
theorem transact_amo {amoop : BitVec 8} (hal : (MemOp.amo addr amoop wdata).Aligned)
    (hdev : deviceAddress addr 4 = false) :
    let out := memAccess devices m (MemOp.amo addr amoop wdata).request
    (transact devices m (MemOp.amo addr amoop wdata).request).2.ram =
      afterBytes Ram.write out.2.ram addr (amoOp amoop wdata out.1.memRspRdata) 4 := by
  obtain ⟨hack, hfault⟩ := memAccess_atomic devices m (MemOp.amo addr amoop wdata).request rfl rfl
    hal.2 hdev
  have hne0 : amoop ≠ 0 := by
    rintro rfl
    exact absurd hal.1.1 (by decide)
  have hne1 : amoop ≠ 1 := by
    rintro rfl
    exact absurd hal.1.1 (by decide)
  unfold transact
  generalize memAccess devices m (MemOp.amo addr amoop wdata).request = out at hack hfault ⊢
  simp only [updateMemory, hack, hfault, MemOp.request, hne0, hne1, beq_self_eq_true,
    Bool.true_and, if_true, if_false, writeBytes_eq]
  rfl

theorem memAccess_sc (devices : List (Device δ)) (m : Memory δ)
    (hal : (MemOp.sc addr wdata).Aligned) (hdev : deviceAddress addr 4 = false) :
    memAccess devices m (MemOp.sc addr wdata).request =
      ({ memRspAck := true, memRspRdata := if (m.ram.amoSc addr).1 then 1 else 0 },
        { m with ram := m.ram.select addr }) := by
  simp only [memAccess, MemOp.request, hdev, and_three_of_aligned hal]
  rfl

/-- A reserved `SC_W` returns 0 and writes its four bytes. -/
theorem transact_sc_reserved (hwf : m.ram.WellFormed) (hal : (MemOp.sc addr wdata).Aligned)
    (hdev : deviceAddress addr 4 = false) (hres : m.ram.reservedAt addr = true) :
    (transact devices m (MemOp.sc addr wdata).request).1.memRspRdata = 0 ∧
      (transact devices m (MemOp.sc addr wdata).request).2.ram =
        afterBytes Ram.write (m.ram.select addr) addr wdata 4 := by
  have hfail : (m.ram.amoSc addr).1 = false := by rw [hwf.amoSc_fst, hres, Bool.not_true]
  have hout := memAccess_sc devices m hal hdev
  rw [hfail, if_neg Bool.false_ne_true] at hout
  unfold transact
  rw [hout]
  refine ⟨rfl, ?_⟩
  have hbytes := writeBytes_eq Ram.write (m.ram.select addr) addr wdata 4
  exact hbytes

/-- An `SC_W` without reservation returns 1 and writes nothing. -/
theorem transact_sc_unreserved (hwf : m.ram.WellFormed) (hal : (MemOp.sc addr wdata).Aligned)
    (hdev : deviceAddress addr 4 = false) (hres : m.ram.reservedAt addr = false) :
    (transact devices m (MemOp.sc addr wdata).request).1.memRspRdata = 1 ∧
      (transact devices m (MemOp.sc addr wdata).request).2.ram = m.ram.select addr := by
  have hfail : (m.ram.amoSc addr).1 = true := by rw [hwf.amoSc_fst, hres, Bool.not_false]
  have hout := memAccess_sc devices m hal hdev
  rw [hfail, if_pos rfl] at hout
  unfold transact
  rw [hout]
  exact ⟨rfl, rfl⟩

/-! ### What one access does to a reservation -/

theorem ite_false_eq_true_iff {P : Prop} [Decidable P] {x : Bool} :
    (if P then false else x) = true ↔ x = true ∧ ¬ P := by
  by_cases h : P <;> simp [h]

theorem ite_true_eq_true_iff {P : Prop} [Decidable P] {x : Bool} :
    (if P then true else x) = true ↔ P ∨ x = true := by
  by_cases h : P <;> simp [h]

/-- What an access leaves of the RAM: it is well formed and in place, and the word at
`a` is reserved by `LR_W` to `a` or still from before. -/
structure Leaves (a : BitVec 32) (op : MemOp) (r r' : Ram) : Prop where
  wellFormed : r'.WellFormed
  base : r'.base = r.base
  top : r'.top = r.top
  reserved : r'.reservedAt a = true ↔ op = .lr a ∨ (r.reservedAt a = true ∧ ¬ op.Clears a)

/-- A word written by an AMO or by a successful `SC_W`. -/
theorem Leaves.word {r r' : Ram} (hview : r.SameView r') (ha : a.toNat % 4 = 0)
    (haddr : addr.toNat % 4 = 0) (hlr : op ≠ .lr a) (hclears : op.Clears a ↔ addr = a) :
    Leaves a op r (afterBytes Ram.write r' addr wdata 4) := by
  refine ⟨afterBytes_wellFormed hview.wellFormed, afterBytes_base.trans hview.base,
    afterBytes_top.trans hview.top, ?_⟩
  rw [afterBytes_reservedAt hview.wellFormed (by omega), hview.reserved, ite_false_eq_true_iff,
    sub_lt_four_iff ha haddr, hclears]
  exact ⟨.inr, fun h => h.resolve_left hlr⟩

theorem transact_leaves (hwf : m.ram.WellFormed) (hal : op.Aligned) (hon : op.OnRam devices m)
    (ha : a.toNat % 4 = 0) : Leaves a op m.ram (transact devices m op.request).2.ram := by
  have hview : m.ram.SameView (memAccess devices m op.request).2.ram := memAccess_sameView hwf
  cases op with
  | load addr size =>
    rw [transact_load]
    refine ⟨hview.wellFormed, hview.base, hview.top, ?_⟩
    rw [hview.reserved]
    simp [MemOp.Clears]
  | store addr size wdata =>
    have hram : ∀ i < size.toNat,
        devices.find? (·.covers m (addr + BitVec.ofNat 32 i)) = some .ram := hon.2
    rw [transact_store hram]
    refine ⟨afterBytes_wellFormed hwf, afterBytes_base, afterBytes_top, ?_⟩
    rw [afterBytes_reservedAt hwf (by omega), ite_false_eq_true_iff]
    exact ⟨.inr, fun h => h.resolve_left (by simp)⟩
  | amo addr amoop wdata =>
    rw [transact_amo hal hon.1]
    exact .word hview ha hal.2 (by simp) Iff.rfl
  | lr addr =>
    rw [transact_lr hal hon.1]
    obtain ⟨hwf', -, hbase, htop, hres⟩ := reserve_loop _ (k := 4) hview.wellFormed (by omega)
    refine ⟨hwf', hbase.trans hview.base, htop.trans hview.top, ?_⟩
    rw [hres, hview.reserved, ite_true_eq_true_iff, sub_lt_four_iff ha hal]
    simp [MemOp.Clears]
  | sc addr wdata =>
    have hsel := hwf.select_sameView addr
    by_cases hres : m.ram.reservedAt addr = true
    · rw [(transact_sc_reserved hwf hal hon.1 hres).2]
      exact .word hsel ha hal (by simp) Iff.rfl
    · rw [(transact_sc_unreserved hwf hal hon.1 (Bool.eq_false_of_not_eq_true hres)).2]
      refine ⟨hsel.wellFormed, hsel.base, hsel.top, ?_⟩
      rw [hsel.reserved]
      constructor
      · intro hset
        refine .inr ⟨hset, fun heq => hres ?_⟩
        rw [show addr = a from heq]
        exact hset
      · exact fun h => (h.resolve_left (by simp)).1

/-! ### Histories -/

/-- The last `LR_W` to `a` in a history, with the accesses after it. -/
def LastLr (a : BitVec 32) (h post : List MemOp) : Prop :=
  (∃ pre, h = pre ++ .lr a :: post) ∧ .lr a ∉ post

/-- A reservation of `a` that a history made and did not clear. -/
def Kept (a : BitVec 32) (h : List MemOp) : Prop :=
  ∃ post, LastLr a h post ∧ ∀ op ∈ post, ¬ op.Clears a

theorem kept_append_iff {h : List MemOp} :
    Kept a (h ++ [op]) ↔ op = .lr a ∨ (Kept a h ∧ ¬ op.Clears a) := by
  constructor
  · rintro ⟨post, ⟨⟨pre, heq⟩, hlast⟩, hclear⟩
    rcases List.eq_nil_or_concat post with rfl | ⟨post', op', rfl⟩
    · have hop := (List.append_inj' heq rfl).2
      exact .inl (List.singleton_inj.mp hop)
    · rw [List.concat_eq_append] at heq hlast hclear
      rw [← List.cons_append, ← List.append_assoc] at heq
      obtain ⟨hh, hop⟩ := List.append_inj' heq rfl
      rw [List.singleton_inj.mp hop]
      refine .inr ⟨⟨post', ⟨⟨pre, hh⟩, fun hmem => hlast ?_⟩, fun o ho => hclear o ?_⟩, hclear op' ?_⟩
      · exact List.mem_append_left _ hmem
      · exact List.mem_append_left _ ho
      · exact List.mem_append_right _ (List.mem_singleton_self op')
  · intro h'
    by_cases hop : op = .lr a
    · subst hop
      exact ⟨[], ⟨⟨h, rfl⟩, List.not_mem_nil⟩, fun o ho => absurd ho List.not_mem_nil⟩
    · obtain ⟨⟨post, ⟨⟨pre, rfl⟩, hlast⟩, hclear⟩, hnot⟩ := h'.resolve_left hop
      refine ⟨post ++ [op], ⟨⟨pre, by simp⟩, ?_⟩, ?_⟩
      · simp [hlast, Ne.symm hop]
      · intro o ho
        rcases List.mem_append.mp ho with ho | ho
        · exact hclear o ho
        · rw [List.mem_singleton.mp ho]
          exact hnot

theorem onRam_congr {m' : Memory δ} (hbase : m'.ram.base = m.ram.base)
    (htop : m'.ram.top = m.ram.top) : op.OnRam devices m' ↔ op.OnRam devices m := by
  simp only [MemOp.OnRam, covers_congr hbase htop]

/-- After any history, the word at `a` is reserved exactly if no access after the last
`LR_W` to `a` cleared it. -/
theorem runOps_reservedAt {h : List MemOp} (hm : m.Fresh)
    (hops : ∀ op ∈ h, op.Aligned ∧ op.OnRam devices m) (ha : a.toNat % 4 = 0) :
    (runOps devices m h).ram.WellFormed ∧ (runOps devices m h).ram.base = m.ram.base ∧
      (runOps devices m h).ram.top = m.ram.top ∧
      ((runOps devices m h).ram.reservedAt a = true ↔ Kept a h) := by
  induction h using List.reverseRecOn with
  | nil =>
    refine ⟨hm.wellFormed, rfl, rfl, ?_⟩
    simp [runOps, hm.clear, Kept, LastLr]
  | append_singleton h op ih =>
    obtain ⟨hwf, hbase, htop, hres⟩ := ih fun op' hop' => hops op' (by simp [hop'])
    obtain ⟨hal, hon⟩ := hops op (by simp)
    have hstep := transact_leaves hwf hal ((onRam_congr hbase htop).mpr hon) ha
    have hrun : runOps devices m (h ++ [op]) =
        (transact devices (runOps devices m h) op.request).2 := by
      rw [runOps, Clocked.run_append]
      rfl
    rw [hrun]
    refine ⟨hstep.wellFormed, hstep.base.trans hbase, hstep.top.trans htop, ?_⟩
    rw [hstep.reserved, hres, kept_append_iff]

/-! ### Pairing -/

/-- The `SC_W` wrote its word and returned 0. -/
def ScSucceeds (a wdata : BitVec 32) (t : MemOut × Memory δ) : Prop :=
  t.1.memRspRdata = 0 ∧ ∀ i < 4, t.2.ram.byteAt (a + BitVec.ofNat 32 i) =
    (wdata >>> (8 * i)).setWidth 8

/-- The most recent `LR_W` was to `a`, and neither an `SC_W` nor a write to the word
followed it. -/
def Paired (a : BitVec 32) (h : List MemOp) : Prop :=
  ∃ pre post, h = pre ++ .lr a :: post ∧
    ∀ op ∈ post, (∀ b, op ≠ .lr b) ∧ (∀ b v, op ≠ .sc b v) ∧ ¬ op.WritesWord a

/-- Pairing for one `SC_W` after a history. -/
def Pairs (devices : List (Device δ)) (m : Memory δ) (h : List MemOp) (a wdata : BitVec 32) : Prop :=
  let t := transact devices (runOps devices m h) (MemOp.sc a wdata).request
  (ScSucceeds a wdata t → Paired a h) ∧
    (¬ ScSucceeds a wdata t → t.1.memRspRdata ≠ 0 ∧
      t.2.ram.byteAt = (runOps devices m h).ram.byteAt)

/-- Where no access after the last `LR_W` to `a` clears the reservation, each of them
may leave it. -/
def Sheltered (a : BitVec 32) (h : List MemOp) : Prop :=
  ∀ post, LastLr a h post → (∀ op ∈ post, ¬ op.Clears a) → ∀ op ∈ post, op.Harmless a

/-- `SC_W` succeeds exactly on a kept reservation, and fails cleanly otherwise. -/
theorem pairs_iff_paired_of_kept {h : List MemOp} (hm : m.Fresh)
    (hops : ∀ op ∈ h, op.Aligned ∧ op.OnRam devices m) (hal : (MemOp.sc a wdata).Aligned)
    (hon : (MemOp.sc a wdata).OnRam devices m) :
    Pairs devices m h a wdata ↔ (Kept a h → Paired a h) := by
  obtain ⟨hwf, hbase, htop, hres⟩ := runOps_reservedAt hm hops hal
  have hon' := (onRam_congr hbase htop).mpr hon
  unfold Pairs
  by_cases hkept : Kept a h
  · obtain ⟨hzero, hram⟩ := transact_sc_reserved hwf hal hon'.1 (hres.mpr hkept)
    have hsucceeds : ScSucceeds a wdata
        (transact devices (runOps devices m h) (MemOp.sc a wdata).request) := by
      refine ⟨hzero, fun i hi => ?_⟩
      have hoff : (a + BitVec.ofNat 32 i - a).toNat = i := (eq_add_ofNat_iff (by omega)).mp rfl
      rw [hram, afterBytes_byteAt (by omega), hoff, if_pos hi]
    simp only [hsucceeds, hkept, not_true_eq_false, false_implies, and_true]
  · have hclear := Bool.eq_false_of_not_eq_true (mt hres.mp hkept)
    obtain ⟨hone, hram⟩ := transact_sc_unreserved hwf hal hon'.1 hclear
    have hfails : ¬ ScSucceeds a wdata
        (transact devices (runOps devices m h) (MemOp.sc a wdata).request) := by
      intro hs
      have hzero := hs.1
      rw [hone] at hzero
      exact absurd hzero (by decide)
    refine iff_of_true ⟨fun hs => absurd hs hfails, fun _ => ⟨?_, ?_⟩⟩ fun hk => absurd hk hkept
    · rw [hone]
      decide
    · rw [hram]
      exact (hwf.select_sameView a).bytes

theorem LastLr.unique {h post post' : List MemOp} (hlast : LastLr a h post)
    (hlast' : LastLr a h post') : post = post' := by
  obtain ⟨⟨pre, rfl⟩, hnot⟩ := hlast
  obtain ⟨⟨pre', heq⟩, hnot'⟩ := hlast'
  rcases List.append_eq_append_iff.mp heq with ⟨mid, -, hmid⟩ | ⟨mid, -, hmid⟩
  · cases mid with
    | nil => exact (List.cons.inj hmid).2
    | cons op mid =>
      obtain ⟨-, rfl⟩ := List.cons.inj hmid
      exact absurd (List.mem_append_right mid List.mem_cons_self) hnot
  · cases mid with
    | nil => exact (List.cons.inj hmid).2.symm
    | cons op mid =>
      obtain ⟨-, rfl⟩ := List.cons.inj hmid
      exact absurd (List.mem_append_right mid List.mem_cons_self) hnot'

/-- An AMO to the word is one to its address. -/
theorem clears_of_amo_writesWord {amoop : BitVec 8} (ha : a.toNat % 4 = 0)
    (haddr : addr.toNat % 4 = 0) (h : (MemOp.amo addr amoop wdata).WritesWord a) : addr = a := by
  obtain ⟨i, hi, hlt⟩ := h
  apply (sub_lt_four_iff ha haddr).mp
  have hsub := BitVec.toNat_sub a addr
  have hsum := BitVec.toNat_add (a - addr) (BitVec.ofNat 32 i)
  have hcomm : a - addr + BitVec.ofNat 32 i = a + BitVec.ofNat 32 i - addr :=
    sub_add_eq_add_sub a addr _
  have hof : (BitVec.ofNat 32 i).toNat = i := Nat.mod_eq_of_lt (by omega)
  have hlt' := a.isLt
  have hlt'' := addr.isLt
  rw [hcomm, hof] at hsum
  omega

/-- An `SC_W` is paired with its `LR_W` exactly if the accesses in between are such
that each may leave the reservation, or one of them clears it. -/
theorem sc_pairs_iff_sheltered {h : List MemOp} (hm : m.Fresh)
    (hops : ∀ op ∈ h, op.Aligned ∧ op.OnRam devices m) (hal : (MemOp.sc a wdata).Aligned)
    (hon : (MemOp.sc a wdata).OnRam devices m) :
    Pairs devices m h a wdata ↔ Sheltered a h := by
  rw [pairs_iff_paired_of_kept hm hops hal hon]
  constructor
  · intro hpaired post hlast hclear op hop
    obtain ⟨pre, post', heq, hpost⟩ := hpaired ⟨post, hlast, hclear⟩
    have hlast' : LastLr a h post' := ⟨⟨pre, heq⟩, fun hmem => (hpost _ hmem).1 a rfl⟩
    obtain ⟨hlr, hsc, hwrites⟩ := hpost op (hlast.unique hlast' ▸ hop)
    cases op with
    | load addr size => trivial
    | store addr size wdata => exact hwrites
    | amo addr amoop wdata => trivial
    | lr addr => exact absurd rfl (hlr addr)
    | sc addr wdata => exact absurd rfl (hsc addr wdata)
  · rintro hshelter ⟨post, hlast, hclear⟩
    obtain ⟨⟨pre, heq⟩, hnot⟩ := hlast
    refine ⟨pre, post, heq, fun op hop => ?_⟩
    have hharmless := hshelter post ⟨⟨pre, heq⟩, hnot⟩ hclear op hop
    have hopal := (hops op (by simp [heq, hop])).1
    cases op with
    | load addr size => exact ⟨by simp, by simp, id⟩
    | store addr size wdata => exact ⟨by simp, by simp, hharmless⟩
    | amo addr amoop wdata =>
      exact ⟨by simp, by simp,
        fun hw => hclear _ hop (clears_of_amo_writesWord hal hopal.2 hw)⟩
    | lr addr => exact hharmless.elim
    | sc addr wdata => exact hharmless.elim

/-- A controller with the RAM alone, as it is constructed. -/
def ramOnly : Memory Unit := { ram := Ram.init 0x80000000, dev := () }

theorem onRam_ramOnly {w : BitVec 32} (haddr : op.request.dmemAddr = w)
    (hsize : op.request.dmemSize = 4) (hw : w = 0x80000000 ∨ w = 0x80000004) :
    op.OnRam [Device.ram] ramOnly := by
  unfold MemOp.OnRam
  rw [haddr, hsize]
  rcases hw with rfl | rfl
  · refine ⟨by decide, fun i hi => ?_⟩
    change i < 4 at hi
    interval_cases i <;> rfl
  · refine ⟨by decide, fun i hi => ?_⟩
    change i < 4 at hi
    interval_cases i <;> rfl

theorem sc_pairs_after_lr :
    Pairs [Device.ram] ramOnly [.lr 0x80000000] 0x80000000 7 := by
  have hlr : (MemOp.lr 0x80000000).OnRam [Device.ram] ramOnly :=
    onRam_ramOnly rfl rfl (.inl rfl)
  have hal : (MemOp.sc 0x80000000 7).Aligned := rfl
  refine (sc_pairs_iff_sheltered (fresh_init _ _) ?_ hal
    (onRam_ramOnly rfl rfl (.inl rfl))).mpr ?_
  · intro op hop
    rw [List.mem_singleton.mp hop]
    exact ⟨rfl, hlr⟩
  · intro post hlast _ op hop
    have hnil : LastLr 0x80000000 [.lr 0x80000000] [] := ⟨⟨[], rfl⟩, List.not_mem_nil⟩
    rw [hlast.unique hnil] at hop
    exact absurd hop List.not_mem_nil

/-- The reservation of one word survives an `SC_W` to the next one. -/
theorem sc_unpaired_after_other_sc :
    ¬ Pairs [Device.ram] ramOnly [.lr 0x80000000, .sc 0x80000004 7] 0x80000000 7 := by
  have hops : ∀ op ∈ [MemOp.lr 0x80000000, .sc 0x80000004 7],
      op.Aligned ∧ op.OnRam [Device.ram] ramOnly := by
    intro op hop
    rcases List.mem_cons.mp hop with rfl | hop
    · exact ⟨rfl, onRam_ramOnly rfl rfl (.inl rfl)⟩
    · rw [List.mem_singleton.mp hop]
      exact ⟨rfl, onRam_ramOnly rfl rfl (.inr rfl)⟩
  have hlast : LastLr 0x80000000 [.lr 0x80000000, .sc 0x80000004 7] [.sc 0x80000004 7] :=
    ⟨⟨[], rfl⟩, by decide⟩
  have hkept : Kept 0x80000000 [.lr 0x80000000, .sc 0x80000004 7] := by
    refine ⟨_, hlast, fun op hop => ?_⟩
    rw [List.mem_singleton.mp hop]
    change ¬ (0x80000004 : BitVec 32) = 0x80000000
    decide
  have hal : (MemOp.sc 0x80000000 7).Aligned := rfl
  rw [pairs_iff_paired_of_kept (m := ramOnly) (fresh_init _ _) hops hal
    (onRam_ramOnly rfl rfl (.inl rfl))]
  intro hpaired
  obtain ⟨pre, post, heq, hpost⟩ := hpaired hkept
  have hpost' : LastLr 0x80000000 [.lr 0x80000000, .sc 0x80000004 7] post :=
    ⟨⟨pre, heq⟩, fun hmem => (hpost _ hmem).1 _ rfl⟩
  rw [← hlast.unique hpost'] at hpost
  exact (hpost (.sc 0x80000004 7) List.mem_cons_self).2.1 _ _ rfl

end Memory

end Turtle
