import Turtle.Mmu.Inst
import Turtle.Lib.Bits
import Turtle.Lib.Sv32
import Mathlib.Data.Nat.Bitwise

/-!
# The permission formulas in terms of page-table fields

The walkers test page-table entries by masks and compute addresses by shifts.
Here every mask test becomes a field of the entry, every address the one of the
two-level walk modulo `2 ^ 32`, and the permission formulas become the fields
that an access needs.
-/

namespace Turtle

open Bits Sv32 Sv32.Pte

section Masks

variable {pte : BitVec 32}

/-- A mask of the low byte only looks at the low byte. -/
theorem and_mask_eq_iff (x : BitVec 32) (m v : BitVec 8) :
    x &&& m.setWidth 32 = v.setWidth 32 ↔ x.setWidth 8 &&& m = v := by
  constructor
  · intro h
    have hlow := congrArg (BitVec.setWidth 8) h
    simpa [BitVec.setWidth_and] using hlow
  · intro h
    rw [← h]
    apply BitVec.eq_of_getLsbD_eq
    intro i hi
    by_cases h8 : i < 8
    · simp [hi, h8]
    · simp [h8, BitVec.getLsbD_of_ge m i (by omega)]

theorem getLsbD_low (x : BitVec 32) {i : ℕ} (hi : i < 8) :
    (x.setWidth 8).getLsbD i = x.getLsbD i := by
  simp [hi]

theorem and_one_eq_zero_iff : pte &&& 1 = 0 ↔ v pte = false := by
  rw [show (1 : BitVec 32) = 1#32 <<< 0 by decide]
  simpa [v] using (and_one_shiftLeft_ne_zero_iff (x := pte) (n := 0)).not

theorem and_two_eq_zero_iff : pte &&& 2 = 0 ↔ r pte = false := by
  rw [show (2 : BitVec 32) = 1#32 <<< 1 by decide]
  simpa [r] using (and_one_shiftLeft_ne_zero_iff (x := pte) (n := 1)).not

theorem and_four_eq_zero_iff : pte &&& 4 = 0 ↔ w pte = false := by
  rw [show (4 : BitVec 32) = 1#32 <<< 2 by decide]
  simpa [w] using (and_one_shiftLeft_ne_zero_iff (x := pte) (n := 2)).not

theorem and_eight_eq_zero_iff : pte &&& 8 = 0 ↔ x pte = false := by
  rw [show (8 : BitVec 32) = 1#32 <<< 3 by decide]
  simpa [x] using (and_one_shiftLeft_ne_zero_iff (x := pte) (n := 3)).not

theorem and_accessed_eq_zero_iff : pte &&& 0x40 = 0 ↔ a pte = false := by
  rw [show (0x40 : BitVec 32) = 1#32 <<< 6 by decide]
  simpa [a] using (and_one_shiftLeft_ne_zero_iff (x := pte) (n := 6)).not

theorem and_dirty_eq_zero_iff : pte &&& 0x80 = 0 ↔ d pte = false := by
  rw [show (0x80 : BitVec 32) = 1#32 <<< 7 by decide]
  simpa [d] using (and_one_shiftLeft_ne_zero_iff (x := pte) (n := 7)).not

theorem userBit_eq : userBit pte = if u pte then 1 else 0 := shiftRight_and_one

/-- The masks of the low byte of an entry, bit by bit. -/
theorem byte_masks (b : BitVec 8) :
    (b &&& 6 = 4 ↔ b.getLsbD 2 = true ∧ b.getLsbD 1 = false) ∧
    (b &&& 0xFF = 1 ↔
      (b.getLsbD 0 && !b.getLsbD 1 && !b.getLsbD 2 && !b.getLsbD 3 && !b.getLsbD 4 &&
        !b.getLsbD 6 && !b.getLsbD 7) = true ∧ b.getLsbD 5 = false) ∧
    (b &&& 0xE = 0 ↔ ¬ (b.getLsbD 1 = true ∨ b.getLsbD 2 = true ∨ b.getLsbD 3 = true)) := by
  revert b
  decide +kernel

/-- `(pte & 6) == 4`: writable but not readable. -/
theorem and_six_eq_four_iff : pte &&& 6 = 4 ↔ w pte = true ∧ r pte = false := by
  have h := and_mask_eq_iff pte 6 4
  rw [(byte_masks _).1, getLsbD_low _ (by omega), getLsbD_low _ (by omega)] at h
  exact h

/-- `DAUGXWRV == 1`: a pointer that is not global. -/
theorem and_byte_eq_one_iff : pte &&& 0xFF = 1 ↔ isPointer pte = true ∧ g pte = false := by
  have h := and_mask_eq_iff pte 0xFF 1
  rw [(byte_masks _).2.1] at h
  simpa [getLsbD_low, isPointer, v, r, w, x, u, a, d, g] using h

/-- `(DAUGXWRV & 0xE) != 0`: some permission is granted. -/
theorem and_perms_ne_zero_iff :
    pte &&& 0xFF &&& 0xE ≠ 0 ↔ r pte = true ∨ w pte = true ∨ x pte = true := by
  have h := and_mask_eq_iff pte 0xE 0
  rw [(byte_masks _).2.2, getLsbD_low _ (by omega), getLsbD_low _ (by omega),
    getLsbD_low _ (by omega)] at h
  rw [BitVec.and_assoc, show (0xFF : BitVec 32) &&& 0xE = 0xE by decide]
  exact (not_congr h).trans not_not

end Masks

section Addresses

variable (pte va satp : BitVec 32)

/-- The page number that the walkers keep: its lower twenty bits. -/
theorem dPpn_toNat : ((pte >>> 10) &&& 0xFFFFF).toNat = pte.toNat / 1024 % 1048576 := by
  rw [and_ones_toNat (n := 20) _ _ (by decide), BitVec.toNat_ushiftRight, Nat.shiftRight_eq_div_pow]
  rfl

theorem ppn_toNat : (ppn pte).toNat = pte.toNat / 1024 := by
  have h := pte.isLt
  rw [ppn, BitVec.toNat_setWidth, BitVec.toNat_ushiftRight, Nat.shiftRight_eq_div_pow]
  omega

theorem isAligned_iff : isAligned pte = true ↔ (pte >>> 10 &&& 0xFFFFF) &&& 0x3FF = 0 := by
  rw [isAligned, beq_iff_eq, ← BitVec.toNat_inj, ← BitVec.toNat_inj, BitVec.toNat_setWidth,
    ppn_toNat, and_ones_toNat (n := 10) _ _ (by decide), dPpn_toNat]
  change pte.toNat / 1024 % 1024 = 0 ↔ pte.toNat / 1024 % 1048576 % 1024 = 0
  omega

theorem vpn1_toNat : (vpn1 va).toNat = va.toNat / 4194304 := by
  have h := va.isLt
  rw [vpn1, BitVec.toNat_setWidth, BitVec.toNat_ushiftRight, Nat.shiftRight_eq_div_pow]
  omega

theorem vpn0_toNat : (vpn0 va).toNat = va.toNat / 4096 % 1024 := by
  rw [vpn0, BitVec.toNat_setWidth, BitVec.toNat_ushiftRight, Nat.shiftRight_eq_div_pow]

theorem pteAddr_toNat (base : BitVec 22) (vpn : BitVec 10) :
    (pteAddr base vpn).toNat = base.toNat * 4096 + vpn.toNat * 4 := by
  have hbase := base.isLt
  have hvpn := vpn.isLt
  simp only [pteAddr, BitVec.toNat_add, BitVec.toNat_mul, BitVec.toNat_setWidth,
    BitVec.toNat_ofNat]
  omega

theorem pageAddr_toNat :
    (pageAddr pte va).toNat = pte.toNat / 1024 * 4096 + va.toNat % 4096 := by
  have h := pte.isLt
  simp only [pageAddr, BitVec.toNat_add, BitVec.toNat_mul, BitVec.toNat_setWidth, ppn_toNat,
    BitVec.toNat_ofNat]
  omega

theorem megapageAddr_toNat :
    (megapageAddr pte va).toNat = pte.toNat / 1048576 * 4194304 + va.toNat % 4194304 := by
  have h := pte.isLt
  have hppn : ((ppn pte) >>> 10).toNat = pte.toNat / 1048576 := by
    rw [BitVec.toNat_ushiftRight, ppn_toNat, Nat.shiftRight_eq_div_pow, Nat.div_div_eq_div_mul]
  have hsize : (4194304#34).toNat = 4194304 := by decide
  have hoffset : va.toNat % 2 ^ 22 % 2 ^ 34 = va.toNat % 4194304 := by omega
  have hsum (m n : ℕ) (hm : m < 4096) (hn : n < 4194304) :
      (m % 2 ^ 34 * 4194304 % 2 ^ 34 + n) % 2 ^ 34 = m * 4194304 + n := by omega
  rw [megapageAddr, BitVec.toNat_add, BitVec.toNat_mul, BitVec.toNat_setWidth,
    BitVec.toNat_setWidth, BitVec.toNat_setWidth, hsize, hppn, hoffset]
  exact hsum _ _ (by omega) (by omega)

/-- The level-1 entry is read where the walk of the reference reads it. -/
theorem rootAddr_eq :
    ((satp &&& 0x003FFFFF) <<< 12) + ((va >>> 22) &&& 0x3FF) * 4 =
      (pteAddr (satp.setWidth 22) (vpn1 va)).setWidth 32 := by
  apply BitVec.eq_of_toNat_eq
  have h := va.isLt
  rw [BitVec.toNat_setWidth, pteAddr_toNat, vpn1_toNat]
  simp only [BitVec.toNat_add, BitVec.toNat_mul, BitVec.toNat_shiftLeft, Nat.shiftLeft_eq,
    and_ones_toNat (n := 22) satp 0x003FFFFF (by decide),
    and_ones_toNat (n := 10) (va >>> 22) 0x3FF (by decide), BitVec.toNat_ushiftRight,
    Nat.shiftRight_eq_div_pow, BitVec.toNat_setWidth, show (4 : BitVec 32).toNat = 4 from rfl]
  omega

/-- The level-2 entry is read where the walk of the reference reads it. -/
theorem tableAddr_eq :
    (((pte >>> 10) &&& 0xFFFFF) <<< 12) + ((va >>> 12) &&& 0x3FF) * 4 =
      (pteAddr (ppn pte) (vpn0 va)).setWidth 32 := by
  apply BitVec.eq_of_toNat_eq
  rw [BitVec.toNat_setWidth, pteAddr_toNat, vpn0_toNat, ppn_toNat]
  simp only [BitVec.toNat_add, BitVec.toNat_mul, BitVec.toNat_shiftLeft, Nat.shiftLeft_eq,
    dPpn_toNat, and_ones_toNat (n := 10) (va >>> 12) 0x3FF (by decide), BitVec.toNat_ushiftRight,
    Nat.shiftRight_eq_div_pow, show (4 : BitVec 32).toNat = 4 from rfl]
  omega

/-- The address in a page. -/
theorem pageAddr_eq :
    (((pte >>> 10) &&& 0xFFFFF) <<< 12) + (va &&& 0xFFF) = (pageAddr pte va).setWidth 32 := by
  apply BitVec.eq_of_toNat_eq
  rw [BitVec.toNat_setWidth, pageAddr_toNat]
  simp only [BitVec.toNat_add, BitVec.toNat_shiftLeft, Nat.shiftLeft_eq, dPpn_toNat,
    and_ones_toNat (n := 12) va 0xFFF (by decide)]
  omega

/-- The address in an aligned megapage. -/
theorem megapageAddr_eq (h : isAligned pte = true) :
    (((pte >>> 10) &&& 0xFFFFF) <<< 12) + (va &&& 0x3FFFFF) = (megapageAddr pte va).setWidth 32 := by
  have haligned : pte.toNat / 1024 % 1024 = 0 := by
    rw [isAligned, beq_iff_eq, ← BitVec.toNat_inj, BitVec.toNat_setWidth, ppn_toNat] at h
    exact h
  apply BitVec.eq_of_toNat_eq
  rw [BitVec.toNat_setWidth, megapageAddr_toNat]
  simp only [BitVec.toNat_add, BitVec.toNat_shiftLeft, Nat.shiftLeft_eq, dPpn_toNat,
    and_ones_toNat (n := 22) va 0x3FFFFF (by decide)]
  omega

end Addresses

/-- The two tests by which the walkers sort a level-1 entry agree: an entry that
passed the first one is a leaf or a pointer by the second one. -/
theorem leaf_or_pointer {c : Context} {k : Access} {pte : BitVec 32}
    (h : pte &&& 0xFF = 1 ∨ (isAligned pte = true ∧ permits c k pte = true)) :
    (pte &&& 0xFF &&& 0xE ≠ 0 →
      isLeaf pte = true ∧ permits c k pte = true ∧ isAligned pte = true) ∧
    (¬ pte &&& 0xFF &&& 0xE ≠ 0 → isPointer pte = true) := by
  rw [and_perms_ne_zero_iff]
  rcases h with hbyte | ⟨haligned, hpermits⟩
  · have hpointer := (and_byte_eq_one_iff.mp hbyte).1
    refine ⟨fun hperms => ?_, fun _ => hpointer⟩
    simp only [isPointer, Bool.and_eq_true, Bool.not_eq_true'] at hpointer
    simp [hpointer] at hperms
  · have hleaf : isLeaf pte = true := by
      simp only [permits, Bool.and_eq_true] at hpermits
      exact hpermits.1.1.1
    refine ⟨fun _ => ⟨hleaf, hpermits, haligned⟩, fun hperms => ?_⟩
    simp only [isLeaf, Bool.and_eq_true, Bool.or_eq_true] at hleaf
    rcases hleaf.2 with hr | hx
    · exact absurd (.inl hr) hperms
    · exact absurd (.inr (.inr hx)) hperms

/-- The privilege level of a translation mode. -/
def modePriv : Mode → BitVec 32
  | .user => privU
  | .supervisor => privS

/-- The status bits that a translation in a mode depends on. -/
def Exec.context (e : Exec) (mode : Mode) : Context := ⟨mode, e.sum != 0, e.mxr != 0⟩

namespace DmemIn

/-- A request is a load, a store or an atomic. -/
def Proper (req : DmemIn) : Prop :=
  (req.dmemIsLoad, req.dmemIsStore, req.dmemIsAmo) ∈
    [(true, false, false), (false, true, false), (false, false, true)]

instance (req : DmemIn) : Decidable req.Proper := inferInstanceAs (Decidable (_ ∈ _))

/-- `LR.W`. -/
def isLr (req : DmemIn) : Bool := req.dmemIsAmo && req.dmemAmoop == 0

/-- What a data request asks of a page. -/
def access (req : DmemIn) : Access := if req.dmemIsLoad || req.isLr then .load else .store

end DmemIn

namespace Dmmu

/-- The value of `d_op` for a request. -/
def opOf (req : DmemIn) : BitVec 32 :=
  if req.dmemIsLoad || (req.dmemIsAmo && req.dmemAmoop == 0) then 1 else 2

/-- The two clauses about the `U` bit are the rule of the mode. -/
theorem userClauses_eq {e : Exec} {mode : Mode} {k : Access} {pte : BitVec 32} (hk : k ≠ .fetch) :
    (((modePriv mode).setWidth 8 == (1 : BitVec 8) && userBit pte != 0 && e.sum == 0) ||
      ((modePriv mode).setWidth 8 == (0 : BitVec 8) && userBit pte == 0)) =
      !mode.granted (e.context mode) k pte := by
  have hsum : (e.sum == 0) = !(e.sum != 0) := by cases h : e.sum == 0 <;> simp_all
  have hfetch : (k != .fetch) = true := by simpa using hk
  rw [userBit_eq, hsum]
  cases mode with
  | user => cases hu : u pte <;> simp [modePriv, privU, Mode.granted, hu]
  | supervisor =>
    cases hu : u pte <;> simp [modePriv, privS, Mode.granted, Exec.context, hu, hfetch]

/-- The permission formula of the data side in terms of fields: a readable page
with `A` set, writable for stores, and with `D` set for all but plain loads. -/
theorem leafFault_eq_false_iff {e : Exec} {mode : Mode} {req : DmemIn} {pte : BitVec 32}
    (hreq : req.Proper) :
    leafFault e ((modePriv mode).setWidth 8) (opOf req) req pte = false ↔
      r pte = true ∧ a pte = true ∧ (req.access = .store → w pte = true) ∧
      (req.dmemIsLoad = false → d pte = true) ∧
      mode.granted (e.context mode) req.access pte = true := by
  have hfetch : req.access ≠ .fetch := by
    unfold DmemIn.access
    split <;> simp
  have hr : ((1#32 <<< (1 : BitVec 32).toNat) &&& pte == 0) = !r pte := by
    rw [BitVec.and_comm, Bool.eq_iff_iff]
    simpa using and_two_eq_zero_iff
  have hw : ((1#32 <<< (2 : BitVec 32).toNat) &&& pte == 0) = !w pte := by
    rw [BitVec.and_comm, Bool.eq_iff_iff]
    simpa using and_four_eq_zero_iff
  have hw' : (pte &&& 4 == 0) = !w pte := by
    rw [Bool.eq_iff_iff]
    simpa using and_four_eq_zero_iff
  have hd : (pte &&& 0x80 == 0) = !d pte := by
    rw [Bool.eq_iff_iff]
    simpa using and_dirty_eq_zero_iff
  have ha : (pte &&& 0x40 == 0) = !a pte := by
    rw [Bool.eq_iff_iff]
    simpa using and_accessed_eq_zero_iff
  have hwr : (pte &&& 6 == 4) = (w pte && !r pte) := by
    rw [Bool.eq_iff_iff]
    simpa using and_six_eq_four_iff
  have hkinds := hreq
  simp only [DmemIn.Proper, List.mem_cons, Prod.mk.injEq, List.not_mem_nil, or_false] at hkinds
  unfold leafFault opOf
  rw [Bool.or_assoc _ (_ && _ && _) (_ && _), userClauses_eq hfetch, hd, ha, hwr, hw']
  unfold DmemIn.access DmemIn.isLr
  generalize mode.granted _ _ pte = granted
  rcases hkinds with ⟨h₁, h₂, h₃⟩ | ⟨h₁, h₂, h₃⟩ | ⟨h₁, h₂, h₃⟩ <;> rw [h₁, h₂, h₃]
  · simp only [Bool.true_or, if_true, hr]
    cases r pte <;> cases w pte <;> cases a pte <;> cases granted <;> simp
  · simp only [Bool.false_and, Bool.or_self, Bool.false_eq_true, if_false, hw]
    cases r pte <;> cases w pte <;> cases a pte <;> cases d pte <;> cases granted <;> simp
  · simp only [Bool.true_and, Bool.false_or]
    by_cases hlr : req.dmemAmoop = 0
    · simp only [hlr, beq_self_eq_true, if_true, hr]
      cases r pte <;> cases w pte <;> cases a pte <;> cases d pte <;> cases granted <;> simp
    · simp only [beq_eq_false_iff_ne.mpr hlr, Bool.false_eq_true, if_false, hw]
      cases r pte <;> cases w pte <;> cases a pte <;> cases d pte <;> cases granted <;> simp

/-- Soundness of the formula: a valid entry that does not fault permits the access. -/
theorem permits_of_leafFault {e : Exec} {mode : Mode} {req : DmemIn} {pte : BitVec 32}
    (hreq : req.Proper) (hv : v pte = true)
    (h : leafFault e ((modePriv mode).setWidth 8) (opOf req) req pte = false) :
    permits (e.context mode) req.access pte = true := by
  obtain ⟨hr, ha, hw, hd, hmode⟩ := (leafFault_eq_false_iff hreq).mp h
  have hcontext : (e.context mode).mode = mode := rfl
  have hgranted : req.access.granted (e.context mode) pte = true := by
    cases hk : req.access with
    | fetch =>
      unfold DmemIn.access at hk
      split at hk <;> cases hk
    | load => simp [Access.granted, hr, ha]
    | store =>
      have hload : req.dmemIsLoad = false := by
        by_contra hne
        simp [DmemIn.access, hne] at hk
      simp [Access.granted, hw hk, ha, hd hload]
  simp [permits, isLeaf, hv, hr, hgranted, hcontext, hmode]

/-- What the formula misses: an access that the entry permits passes it exactly
when the page is readable, and dirty for `LR.W`. -/
theorem leafFault_iff_of_permits {e : Exec} {mode : Mode} {req : DmemIn} {pte : BitVec 32}
    (hreq : req.Proper) (h : permits (e.context mode) req.access pte = true) :
    leafFault e ((modePriv mode).setWidth 8) (opOf req) req pte = false ↔
      (req.access = .load → r pte = true) ∧ (req.isLr = true → d pte = true) := by
  rw [leafFault_eq_false_iff hreq]
  have hcontext : (e.context mode).mode = mode := rfl
  simp only [permits, Bool.and_eq_true, hcontext] at h
  obtain ⟨⟨⟨-, hwr⟩, hgranted⟩, hmode⟩ := h
  have hkinds := hreq
  simp only [DmemIn.Proper, List.mem_cons, Prod.mk.injEq, List.not_mem_nil, or_false] at hkinds
  constructor
  · rintro ⟨hr, -, -, hd, -⟩
    refine ⟨fun _ => hr, fun hlr => hd ?_⟩
    rcases hkinds with ⟨h₁, h₂, h₃⟩ | ⟨h₁, h₂, h₃⟩ | ⟨h₁, h₂, h₃⟩
    · simp [DmemIn.isLr, h₃] at hlr
    · exact h₁
    · exact h₁
  · rintro ⟨hr, hd⟩
    cases hk : req.access with
    | fetch =>
      unfold DmemIn.access at hk
      split at hk <;> cases hk
    | load =>
      rw [hk] at hgranted hmode
      simp only [Access.granted, Bool.and_eq_true] at hgranted
      refine ⟨hr hk, hgranted.2, by simp, fun hload => hd ?_, hmode⟩
      simpa [DmemIn.access, hload] using hk
    | store =>
      rw [hk] at hgranted hmode
      simp only [Access.granted, Bool.and_eq_true] at hgranted
      obtain ⟨⟨hw, ha⟩, hd'⟩ := hgranted
      exact ⟨by simpa [hw] using hwr, ha, fun _ => hw, fun _ => hd', hmode⟩

end Dmmu

/-- The permission formula of the instruction side in terms of fields. -/
theorem Immu.leafFault_eq_false_iff {e : Exec} {mode : Mode} {pte : BitVec 32}
    (hpriv : e.priv = modePriv mode) :
    Immu.leafFault e pte = false ↔
      x pte = true ∧ a pte = true ∧ (!w pte || r pte) = true ∧
      mode.granted (e.context mode) .fetch pte = true := by
  have hx : (8 &&& pte == 0) = !x pte := by
    rw [BitVec.and_comm, Bool.eq_iff_iff]
    simpa using and_eight_eq_zero_iff
  have ha : (pte &&& 0x40 == 0) = !a pte := by
    rw [Bool.eq_iff_iff]
    simpa using and_accessed_eq_zero_iff
  have hwr : (pte &&& 6 == 4) = (w pte && !r pte) := by
    rw [Bool.eq_iff_iff]
    simpa using and_six_eq_four_iff
  unfold Immu.leafFault
  rw [hx, ha, hwr, userBit_eq, hpriv]
  cases mode with
  | user =>
    cases x pte <;> cases a pte <;> cases w pte <;> cases r pte <;> cases hu : u pte <;>
      simp [modePriv, privU, privS, Mode.granted, hu]
  | supervisor =>
    cases x pte <;> cases a pte <;> cases w pte <;> cases r pte <;> cases hu : u pte <;>
      simp [modePriv, privU, privS, Mode.granted, hu]

/-- Soundness of the formula for fetches. -/
theorem Immu.permits_of_leafFault {e : Exec} {mode : Mode} {pte : BitVec 32}
    (hpriv : e.priv = modePriv mode) (hv : v pte = true) (h : Immu.leafFault e pte = false) :
    permits (e.context mode) .fetch pte = true := by
  obtain ⟨hx, ha, hwr, hmode⟩ := (Immu.leafFault_eq_false_iff hpriv).mp h
  have hcontext : (e.context mode).mode = mode := rfl
  simp only [permits, isLeaf, hv, hx, hwr, hcontext, hmode, Access.granted, ha, Bool.or_true,
    Bool.and_self]

end Turtle
