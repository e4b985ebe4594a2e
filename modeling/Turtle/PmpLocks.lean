import Turtle.CoreFacts
import Turtle.Exec.SeqFacts

/-!
# Locked PMP entries

The registers of `PMP` change through `update_config` and `update_addr` only. A
locked entry keeps its configuration byte and its address for ever, a locked TOR
entry also the address below it, and the set of entries that the checks walk
through is the set of the configured ones.
-/

namespace Turtle

namespace Pmp

/-- A call of one of the two update functions. -/
inductive Update
  | config (addr : Fin 16) (val : BitVec 32)
  | addr (addr : Fin 64) (val : BitVec 32)

/-- The registers after a call. -/
def apply (p : Pmp) : Update → Pmp
  | .config addr val => p.updateConfig addr val
  | .addr addr val => p.updateAddr addr val

variable {p q old : Pmp} {a b : Fin 64} {v : BitVec 8} {val : BitVec 32}

/-! ### What one call does to one entry -/

theorem updateConfigEntry_pmpaddr : (updateConfigEntry old v p a).pmpaddr = p.pmpaddr := by
  unfold updateConfigEntry
  split_ifs <;> rfl

theorem updateConfigEntry_pmpconfig :
    (updateConfigEntry old v p a).pmpconfig b =
      if b = a ∧ old.writable a then v else p.pmpconfig b := by
  unfold updateConfigEntry
  by_cases hw : old.writable a = true
  · rw [if_pos hw]
    simp [Function.update_apply, hw]
  · rw [if_neg hw, if_neg (fun h => hw h.2)]

/-- The byte that `update_config` has for entry `a`. -/
def byteFor (val : BitVec 32) (a : Fin 64) : BitVec 8 := (val >>> (8 * (a.val % 4))).setWidth 8

/-- The set of used entries is the one of the configured entries. -/
def Indexed (p : Pmp) : Prop := ∀ a, p.pmpentryId a = (p.pmpconfig a != 0)

/-- The state inside the loop of `update_config`: the index set is exact and
every byte is the old one or the new one. -/
structure InLoop (old : Pmp) (val : BitVec 32) (p : Pmp) : Prop where
  indexed : p.Indexed
  byte : ∀ a, p.pmpconfig a = old.pmpconfig a ∨ p.pmpconfig a = byteFor val a

/-- The bit of an entry after one turn of the loop. -/
theorem updateConfigEntry_pmpentryId (hw : old.writable a = true) :
    (updateConfigEntry old v p a).pmpentryId a =
      if old.pmpconfig a ≠ 0 ∧ v = 0 then false
      else if old.pmpconfig a = 0 ∧ v ≠ 0 then true else p.pmpentryId a := by
  unfold updateConfigEntry
  rw [if_pos hw]
  dsimp only
  split_ifs <;> simp

theorem updateConfigEntry_pmpentryId_of_ne (h : b ≠ a) :
    (updateConfigEntry old v p a).pmpentryId b = p.pmpentryId b := by
  unfold updateConfigEntry
  dsimp only
  split_ifs <;> simp [Function.update_of_ne h]

theorem updateConfigEntry_of_not_writable (hw : ¬ old.writable a = true) :
    updateConfigEntry old v p a = p := if_neg hw

/-- A turn keeps the index set exact. -/
theorem InLoop.indexed_entry (h : InLoop old val p) (a : Fin 64) :
    (updateConfigEntry old (byteFor val a) p a).Indexed := by
  by_cases hw : old.writable a = true
  · intro b
    rw [updateConfigEntry_pmpconfig]
    by_cases hb : b = a
    · subst hb
      rw [if_pos ⟨rfl, hw⟩, updateConfigEntry_pmpentryId hw]
      -- The bit follows the change from the old byte to the new one.
      by_cases hnew : byteFor val b = 0
      · by_cases hold : old.pmpconfig b = 0
        · have hbyte : p.pmpconfig b = 0 := (h.byte b).elim (·.trans hold) (·.trans hnew)
          rw [if_neg (fun hc => hc.1 hold), if_neg (fun hc => hc.2 hnew), h.indexed b, hbyte, hnew]
        · rw [if_pos ⟨hold, hnew⟩, hnew]
          rfl
      · have hset : (byteFor val b != 0) = true := bne_iff_ne.mpr hnew
        rw [if_neg (fun hc => hnew hc.2), hset]
        by_cases hold : old.pmpconfig b = 0
        · rw [if_pos ⟨hold, hnew⟩]
        · rw [if_neg (fun hc => hold hc.1), h.indexed b, bne_iff_ne]
          exact (h.byte b).elim (·.trans_ne hold) (·.trans_ne hnew)
    · rw [updateConfigEntry_pmpentryId_of_ne hb, if_neg (fun hc => hb hc.1)]
      exact h.indexed b
  · rw [updateConfigEntry_of_not_writable hw]
    exact h.indexed

theorem InLoop.entry (h : InLoop old val p) (a : Fin 64) :
    InLoop old val (updateConfigEntry old (byteFor val a) p a) := by
  refine ⟨h.indexed_entry a, fun b => ?_⟩
  rw [updateConfigEntry_pmpconfig]
  split_ifs with hb
  · exact .inr (by rw [hb.1])
  · exact h.byte b

theorem configEntry_lt (k : Fin 16) (i : Fin 4) : 4 * k.val + i.val < 64 := by omega

/-- The loop of `update_config` in terms of the bytes of its entries. -/
theorem updateConfig_loop (p : Pmp) (k : Fin 16) (val : BitVec 32) : p.updateConfig k val =
    (List.finRange 4).foldl (fun q i =>
      let a : Fin 64 := ⟨4 * k.val + i.val, configEntry_lt k i⟩
      updateConfigEntry p (byteFor val a) q a) p := by
  unfold updateConfig
  congr 1
  funext q i
  have hmod : (4 * k.val + i.val) % 4 = i.val := by omega
  simp only [byteFor, hmod]

/-- What every turn of the loop keeps, the call keeps. -/
theorem updateConfig_induction {P : Pmp → Prop} (k : Fin 16) (hp : P p)
    (hentry : ∀ q a, P q → P (updateConfigEntry p (byteFor val a) q a)) :
    P (p.updateConfig k val) := by
  rw [updateConfig_loop]
  exact List.foldlRecOn _ _ hp fun q hq i _ => hentry q _ hq

theorem updateConfig_pmpaddr (k : Fin 16) (val : BitVec 32) :
    (p.updateConfig k val).pmpaddr = p.pmpaddr :=
  updateConfig_induction (P := fun q => q.pmpaddr = p.pmpaddr) k rfl
    fun _ _ hq => updateConfigEntry_pmpaddr.trans hq

/-- An entry that its old state protects keeps its byte. -/
theorem updateConfig_pmpconfig_of_not_writable (k : Fin 16) (val : BitVec 32)
    (h : p.writable a = false) : (p.updateConfig k val).pmpconfig a = p.pmpconfig a := by
  refine updateConfig_induction (P := fun q => q.pmpconfig a = p.pmpconfig a) k rfl ?_
  intro q c hq
  rw [updateConfigEntry_pmpconfig, if_neg]
  · exact hq
  · rintro ⟨rfl, hw⟩
    rw [h] at hw
    cases hw

theorem Indexed.updateConfig (h : p.Indexed) (k : Fin 16) (val : BitVec 32) :
    (p.updateConfig k val).Indexed := by
  have hstart : InLoop p val p := ⟨h, fun _ => .inl rfl⟩
  have hloop : InLoop p val (p.updateConfig k val) :=
    updateConfig_induction (P := InLoop p val) k hstart fun _ a hq => hq.entry a
  exact hloop.indexed

theorem updateAddr_of_not_writable (h : p.writable a = false) : p.updateAddr a val = p := by
  rw [updateAddr, if_neg (by simp [h])]

theorem updateAddr_pmpaddr_of_ne (h : b ≠ a) :
    (p.updateAddr a val).pmpaddr b = p.pmpaddr b := by
  unfold updateAddr
  split_ifs
  · exact Function.update_of_ne h ..
  · rfl

theorem updateAddr_pmpconfig : (p.updateAddr a val).pmpconfig = p.pmpconfig := by
  unfold updateAddr
  split_ifs <;> rfl

theorem updateAddr_pmpentryId : (p.updateAddr a val).pmpentryId = p.pmpentryId := by
  unfold updateAddr
  split_ifs <;> rfl

/-! ### Locked entries over one call -/

/-- The L bit of entry `i` is set. -/
def Locked (p : Pmp) (i : Fin 64) : Prop := p.pmpconfig i &&& lock ≠ 0

/-- Entry `i` is a locked TOR entry, and `j` the entry whose address is its base. -/
def LockedBase (p : Pmp) (i j : Fin 64) : Prop :=
  p.Locked i ∧ p.pmpconfig i &&& 24 = 8 ∧ j.val + 1 = i.val

theorem Locked.not_writable (h : p.Locked a) : p.writable a = false := by
  have hbit : (p.pmpconfig a &&& lock == 0) = false := beq_eq_false_iff_ne.mpr h
  rw [writable, hbit, Bool.false_and]

/-- The guard spots a locked TOR entry above. -/
theorem LockedBase.not_writable (h : p.LockedBase a b) : p.writable b = false := by
  obtain ⟨hlock, htor, hab⟩ := h
  have hnext : ¬ b.val = 63 := by omega
  have hsucc : (⟨b.val + 1, by omega⟩ : Fin 64) = a := Fin.ext hab
  have hbits : p.pmpconfig a &&& (lock ||| 0x18) = lock ||| 0x8 := by
    simp only [Locked] at hlock
    generalize p.pmpconfig a = c at hlock htor
    revert c
    decide
  have hguard : (p.pmpconfig a &&& (lock ||| 0x18) != (lock ||| 0x8)) = false := by
    rw [hbits]
    rfl
  rw [writable, dif_neg hnext, hsucc, hguard, Bool.and_false]

theorem Locked.apply_pmpconfig (h : p.Locked a) (u : Update) :
    (p.apply u).pmpconfig a = p.pmpconfig a := by
  cases u with
  | config k val => exact updateConfig_pmpconfig_of_not_writable k val h.not_writable
  | addr b val => rw [apply, updateAddr_pmpconfig]

/-- A call leaves the address of a protected entry alone. -/
theorem apply_pmpaddr_of_not_writable (h : p.writable a = false) (u : Update) :
    (p.apply u).pmpaddr a = p.pmpaddr a := by
  cases u with
  | config k val => rw [apply, updateConfig_pmpaddr]
  | addr b val =>
    by_cases hab : a = b
    · subst hab
      rw [apply, updateAddr_of_not_writable h]
    · exact updateAddr_pmpaddr_of_ne hab

theorem Indexed.apply (h : p.Indexed) (u : Update) : (p.apply u).Indexed := by
  cases u with
  | config k val => exact h.updateConfig k val
  | addr b val =>
    intro a
    rw [Pmp.apply, updateAddr_pmpconfig, updateAddr_pmpentryId]
    exact h a

/-! ### Locked entries over every sequence of calls -/

/-- A locked entry stays locked. -/
theorem Locked.apply (h : p.Locked a) (u : Update) : (p.apply u).Locked a := by
  rwa [Locked, h.apply_pmpconfig u]

theorem LockedBase.apply (h : p.LockedBase a b) (u : Update) : (p.apply u).LockedBase a b := by
  rwa [LockedBase, Locked, h.1.apply_pmpconfig u]

theorem Locked.run_pmpconfig (h : p.Locked a) (us : List Update) :
    (Clocked.run Pmp.apply p us).pmpconfig a = p.pmpconfig a :=
  Clocked.kept_run (P := fun q : Pmp => q.Locked a) (f := fun q : Pmp => q.pmpconfig a)
    (fun _ u hq => hq.apply u) (fun _ u hq => hq.apply_pmpconfig u) h us

theorem Locked.run_pmpaddr (h : p.Locked a) (us : List Update) :
    (Clocked.run Pmp.apply p us).pmpaddr a = p.pmpaddr a :=
  Clocked.kept_run (P := fun q : Pmp => q.Locked a) (f := fun q : Pmp => q.pmpaddr a)
    (fun _ u hq => hq.apply u) (fun _ u hq => apply_pmpaddr_of_not_writable hq.not_writable u) h us

theorem LockedBase.run_pmpaddr (h : p.LockedBase a b) (us : List Update) :
    (Clocked.run Pmp.apply p us).pmpaddr b = p.pmpaddr b :=
  Clocked.kept_run (P := fun q : Pmp => q.LockedBase a b) (f := fun q : Pmp => q.pmpaddr b)
    (fun _ u hq => hq.apply u) (fun _ u hq => apply_pmpaddr_of_not_writable hq.not_writable u) h us

theorem Indexed.run (h : p.Indexed) (us : List Update) : (Clocked.run Pmp.apply p us).Indexed :=
  Clocked.invariant_run (P := Indexed) (fun _ hq u _ => hq.apply u) h

theorem indexed_powerUp : Indexed {} := fun _ => rfl

/-! ### The checks see every configured entry -/

/-- An unconfigured entry matches no access. -/
theorem region_of_unconfigured (addr : BitVec 64) (size : BitVec 8) (h : p.pmpconfig a = 0) :
    p.region a addr size = (false, false) := by
  simp [region, h]

/-- Skipping unconfigured entries does not change the verdict of the loop. -/
theorem checkLoop_filter (h : p.Indexed) (addr : BitVec 64) (op size : BitVec 8)
    (priv : BitVec 32) (is : List (Fin 64)) :
    p.checkLoop addr op size priv (is.filter p.pmpentryId) = p.checkLoop addr op size priv is := by
  induction is with
  | nil => rfl
  | cons i is ih =>
    by_cases hi : p.pmpconfig i = 0
    · have hid : p.pmpentryId i = false := by rw [h i, hi]; rfl
      rw [List.filter_cons_of_neg (by simp [hid]), ih, checkLoop,
        region_of_unconfigured addr size hi]
      simp
    · have hid : p.pmpentryId i = true := by rw [h i]; simpa using hi
      rw [List.filter_cons_of_pos hid, checkLoop, checkLoop, ih]

theorem Indexed.dcheck (h : p.Indexed) (addr : BitVec 64) (op size : BitVec 8)
    (priv : BitVec 32) :
    p.dcheck addr op size priv = p.checkLoop addr op size priv (List.finRange 64) :=
  checkLoop_filter h addr op size priv _

/-- After any sequence of calls the index set is exact, so both checks decide as
if they went through all 64 entries. From then on no further sequence of calls
changes the configuration or the address of a locked entry, nor the address
below a locked TOR entry. -/
theorem locks_hold (us ws : List Update) :
    let p := Clocked.run apply {} us
    let q := Clocked.run apply p ws
    (∀ i, p.Locked i → q.pmpconfig i = p.pmpconfig i ∧ q.pmpaddr i = p.pmpaddr i) ∧
    (∀ i j, p.LockedBase i j → q.pmpaddr j = p.pmpaddr j) ∧
    (∀ i, p.pmpentryId i = true ↔ p.pmpconfig i ≠ 0) ∧
    (∀ addr op size priv,
      p.dcheck addr op size priv = p.checkLoop addr op size priv (List.finRange 64) ∧
      p.icheck addr op size priv = p.checkLoop addr op size priv (List.finRange 64)) := by
  intro p q
  have hindexed : p.Indexed := indexed_powerUp.run us
  refine ⟨fun i hi => ⟨hi.run_pmpconfig ws, hi.run_pmpaddr ws⟩, fun i j h => h.run_pmpaddr ws,
    fun i => ?_, fun addr op size priv => ⟨hindexed.dcheck .., hindexed.dcheck ..⟩⟩
  rw [hindexed i]
  simp

-- A locked TOR entry 1 refuses a new byte, a new address and a new base.
example :
    let p := Clocked.run apply {} [.addr 1 0x2000, .config 0 0x8f00]
    let q := Clocked.run apply p [.config 0 0, .addr 1 0, .addr 0 7]
    q.pmpconfig 1 = 0x8f ∧ q.pmpaddr 1 = 0x2000 ∧ q.pmpaddr 0 = 0 := by decide

end Pmp

/-! ### The registers inside EXEC -/

namespace Exec

variable {e : Exec} {idEx : IdEx} {c : ExecComb} {v : BitVec 32}

theorem returnFromTrap_pmp {m : Bool} : (e.returnFromTrap m).pmp = e.pmp := by
  unfold returnFromTrap
  split <;> rfl

theorem csrWrite_pmp (e : Exec) (idEx : IdEx) (v : BitVec 32) :
    (e.csrWrite idEx v).pmp = e.pmp ∨ ∃ u, (e.csrWrite idEx v).pmp = e.pmp.apply u := by
  unfold csrWrite
  dsimp only
  split_ifs
  -- The two PMP ranges come fifth and sixth.
  · exact .inl rfl
  · exact .inl rfl
  · exact .inl rfl
  · exact .inl rfl
  · exact .inr ⟨.config _ _, rfl⟩
  · exact .inr ⟨.addr _ _, rfl⟩
  · exact .inl rfl
  · exact .inl rfl

/-- A clock edge makes at most one call. -/
theorem execSeq_pmp_cases (e : Exec) (idEx : IdEx) (c : ExecComb) (mtime : BitVec 64) :
    (e.execSeq idEx c mtime).pmp = e.pmp ∨
      ∃ u, (e.execSeq idEx c mtime).pmp = e.pmp.apply u := by
  rw [execSeq_pmp]
  unfold commit
  split_ifs
  · exact .inl trap_pmp
  · exact .inl returnFromTrap_pmp
  · exact csrWrite_pmp ..
  · exact .inl rfl

end Exec

/-- In every run from reset the PMP registers are the result of a sequence of
calls from power-up. -/
theorem Core.Reachable.pmp_run {entry : BitVec 32} {s : Core} (h : Core.Reachable entry s) :
    ∃ us, s.exec.pmp = Clocked.run Pmp.apply {} us := by
  have hstep : ∀ (s : Core) (i : CoreIn), (∃ us, s.exec.pmp = Clocked.run Pmp.apply {} us) →
      ∃ us, (Core.step entry s i).exec.pmp = Clocked.run Pmp.apply {} us := by
    rintro s i ⟨us, hus⟩
    rcases Exec.execSeq_pmp_cases s.exec s.idEx (s.comb entry i) i.mtime with heq | ⟨u, heq⟩
    · exact ⟨us, heq.trans hus⟩
    · refine ⟨us ++ [u], heq.trans ?_⟩
      rw [Clocked.run_append, ← hus]
      rfl
  induction h with
  | start hs =>
    obtain ⟨i, -, rfl⟩ := hs
    exact hstep {} i ⟨[], rfl⟩
  | step i _ ih => exact hstep _ i ih

theorem Core.Reachable.pmp_indexed {entry : BitVec 32} {s : Core} (h : Core.Reachable entry s) :
    s.exec.pmp.Indexed := by
  obtain ⟨us, hus⟩ := h.pmp_run
  rw [hus]
  exact Pmp.indexed_powerUp.run us

end Turtle
