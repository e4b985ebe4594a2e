import Turtle.Lib.Lanes
import Turtle.PmpDecision
import Turtle.PmpLocks

/-!
# Writes of the PMP configuration registers

`update_config` has the guard of `update_addr`: besides a locked entry it protects the
one below a locked TOR entry, whose configuration byte nothing locks. This file says what
a write leaves in the four entries, and what a read of the register gives afterwards.
-/

namespace Turtle

namespace Pmp

variable {p : Pmp} {a b : Fin 64} {k : Fin 16} {val : BitVec 32}

/-- Entry `i` of configuration register `k`. -/
def configEntry (k : Fin 16) (i : Fin 4) : Fin 64 := ⟨4 * k.val + i.val, configEntry_lt k i⟩

/-- The byte of entry `i` in a value for a configuration register. -/
theorem byteFor_configEntry (k : Fin 16) (i : Fin 4) (val : BitVec 32) :
    byteFor val (configEntry k i) = Lanes.lane 8 val i.val := by
  have hmod : (4 * k.val + i.val) % 4 = i.val := by omega
  rw [byteFor, configEntry, hmod, Lanes.lane]

/-- The guard of both updates: the entry is unlocked and is not the base of a locked TOR
entry. -/
theorem writable_iff : p.writable a = true ↔ ¬ p.Locked a ∧ ∀ b, ¬ p.LockedBase b a := by
  constructor
  · intro hw
    refine ⟨fun h => ?_, fun b h => ?_⟩
    · rw [h.not_writable] at hw
      cases hw
    · rw [h.not_writable] at hw
      cases hw
  · rintro ⟨hlock, hbase⟩
    rw [writable, Bool.and_eq_true, beq_iff_eq]
    refine ⟨not_not.mp hlock, ?_⟩
    split
    case isTrue => rfl
    case isFalse hlast =>
      rw [bne_iff_ne]
      intro hbits
      refine hbase ⟨a.val + 1, by omega⟩ ⟨?_, ?_, rfl⟩
      · rw [Locked]
        generalize p.pmpconfig _ = c at hbits
        revert c
        decide
      · generalize p.pmpconfig _ = c at hbits
        revert c
        decide

/-- The loop gives an entry its byte when the entry is one of those it visits. -/
theorem foldl_updateConfigEntry (is : List (Fin 4)) (q : Pmp) :
    (is.foldl (fun q i =>
        let a := configEntry k i
        updateConfigEntry p (byteFor val a) q a) q).pmpconfig a =
      if (∃ i ∈ is, configEntry k i = a) ∧ p.writable a then byteFor val a
      else q.pmpconfig a := by
  induction is generalizing q with
  | nil => simp
  | cons i is ih =>
    rw [List.foldl_cons, ih, updateConfigEntry_pmpconfig]
    by_cases hi : configEntry k i = a
    · subst hi
      by_cases hw : p.writable (configEntry k i) = true
      · simp [hw]
      · simp [hw]
    · simp [hi, Ne.symm hi]

/-- What a write of a configuration register leaves in an entry of it. -/
theorem updateConfig_configEntry (i : Fin 4) :
    (p.updateConfig k val).pmpconfig (configEntry k i) =
      if p.writable (configEntry k i) then Lanes.lane 8 val i.val
      else p.pmpconfig (configEntry k i) := by
  have hin : ∃ j ∈ List.finRange 4, configEntry k j = configEntry k i :=
    ⟨i, List.mem_finRange i, rfl⟩
  rw [updateConfig_loop, ← byteFor_configEntry k]
  refine (foldl_updateConfigEntry (List.finRange 4) p).trans ?_
  by_cases hw : p.writable (configEntry k i) = true
  · rw [if_pos ⟨hin, hw⟩, if_pos hw]
  · rw [if_neg (fun h => hw h.2), if_neg hw]

/-- A read of a configuration register composes its four bytes. -/
theorem readPmpConfig_eq (p : Pmp) (k : Fin 16) : Exec.readPmpConfig p k =
    Lanes.pack 32 ((List.finRange 4).map fun i => p.pmpconfig (configEntry k i)) := by
  have hidx (t : ℕ) (ht : t < 4) : Fin.ofNat 64 (4 * k.val + t) = configEntry k ⟨t, ht⟩ := by
    apply Fin.ext
    change (4 * k.val + t) % 64 = 4 * k.val + t
    omega
  rw [← Lanes.foldr_shift_eq_pack, List.foldr_map]
  unfold Exec.readPmpConfig
  simp only [List.foldl_cons, List.foldl_nil]
  rw [hidx 3 (by decide), hidx 2 (by decide), hidx 1 (by decide), hidx 0 (by decide)]
  rfl

/-- A write takes effect on the unlocked entries of its register and on nothing else, and
a read gives the four bytes back in their order. -/
structure TakesEffect (p : Pmp) (k : Fin 16) (val : BitVec 32) : Prop where
  entry : ∀ i, (p.updateConfig k val).pmpconfig (configEntry k i) =
    if p.pmpconfig (configEntry k i) &&& lock = 0 then Lanes.lane 8 val i.val
    else p.pmpconfig (configEntry k i)
  readBack : Exec.readPmpConfig (p.updateConfig k val) k =
    Lanes.pack 32 ((List.finRange 4).map fun i =>
      (p.updateConfig k val).pmpconfig (configEntry k i))

/-- The write gives an unlocked entry below a locked TOR entry another byte than its own. -/
def Shielded (p : Pmp) (k : Fin 16) (val : BitVec 32) : Prop :=
  ∃ i b, p.LockedBase b (configEntry k i) ∧ ¬ p.Locked (configEntry k i) ∧
    Lanes.lane 8 val i.val ≠ p.pmpconfig (configEntry k i)

/-- For every state and every value a write takes effect on exactly the unlocked entries
unless it meets a shielded one. -/
theorem takesEffect_iff (p : Pmp) (k : Fin 16) (val : BitVec 32) :
    p.TakesEffect k val ↔ ¬ p.Shielded k val := by
  constructor
  · rintro ⟨hentry, -⟩ ⟨i, b, hbase, hlock, hne⟩
    have hkeep := hentry i
    rw [updateConfig_configEntry, hbase.not_writable, if_neg Bool.false_ne_true,
      if_pos (not_not.mp hlock)] at hkeep
    exact hne hkeep.symm
  · intro h
    refine ⟨fun i => ?_, readPmpConfig_eq _ k⟩
    rw [updateConfig_configEntry]
    by_cases hlock : p.Locked (configEntry k i)
    · rw [hlock.not_writable, if_neg Bool.false_ne_true, if_neg hlock]
    · rw [if_pos (not_not.mp hlock)]
      by_cases hw : p.writable (configEntry k i) = true
      · rw [if_pos hw]
      · rw [if_neg hw]
        by_contra hne
        refine hw (writable_iff.mpr ⟨hlock, fun b hbase => h ⟨i, b, hbase, hlock, Ne.symm hne⟩⟩)

/-- Entry 1 is a locked TOR entry and entry 0 unlocked: a write of `pmpcfg0` leaves the
byte of entry 0 as it is. -/
theorem config_below_locked_tor :
    let p := Clocked.run apply {} [.config 0 0x8f00]
    p.pmpconfig 0 &&& lock = 0 ∧ (p.updateConfig 0 0x1f).pmpconfig 0 = 0 ∧
      ¬ p.TakesEffect 0 0x1f := by
  intro p
  have hlock : p.pmpconfig 0 &&& lock = 0 := by decide
  have hkeep : (p.updateConfig 0 0x1f).pmpconfig 0 = 0 := by decide
  refine ⟨hlock, hkeep, fun h => ?_⟩
  have hentry := h.entry 0
  rw [show configEntry 0 0 = 0 from rfl, hkeep, if_pos hlock] at hentry
  exact absurd hentry (by decide)

end Pmp

end Turtle
