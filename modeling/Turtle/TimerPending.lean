import Turtle.Confinement
import Turtle.Devices
import Turtle.Lib.Lanes

/-!
# When the timers become pending

The CLINT receives its compare value byte by byte and EXEC the one of the supervisor
timer in two registers. `get_mip` and the read of `sip` compare the time with them. The
comparison is strict, so a timer is one tick late.
-/

namespace Turtle

/-! ### The compare value of the CLINT -/

namespace Clint

/-- The address of a byte of `mtimecmp`. -/
def cmpAddr (k : ℕ) : BitVec 32 := base + 0x4000 + BitVec.ofNat 32 k

/-- A sequence of byte writes. -/
def writes (c : Clint) (ws : List (BitVec 32 × BitVec 8)) : Clint :=
  ws.foldl (fun c w => c.write w.1 w.2) c

/-- The byte at `a` after a sequence of writes: the last value written there, else `b`. -/
def byteAfter (ws : List (BitVec 32 × BitVec 8)) (a : BitVec 32) (b : BitVec 8) : BitVec 8 :=
  ws.foldl (fun b w => if w.1 = a then w.2 else b) b

/-- The compare value put together from the bytes that were written last. -/
def assembled (c : Clint) (ws : List (BitVec 32 × BitVec 8)) : BitVec 64 :=
  Lanes.pack 64 ((List.range 8).map fun k =>
    byteAfter ws (cmpAddr k) (Lanes.lane 8 c.mtimecmp k))

/-- What EXEC sees of the CLINT, next to the lines of a PLIC. -/
def platform (c : Clint) (plic : Option (BitVec 32 × BitVec 32)) : Platform :=
  { mtime := c.mtime, mtimecmp := c.mtimecmp, plic := plic }

variable {c : Clint}

theorem cmpAddr_inj {j k : ℕ} (hj : j < 8) (hk : k < 8) (h : cmpAddr j = cmpAddr k) : j = k := by
  have hnat := congrArg BitVec.toNat (add_left_cancel h)
  rw [BitVec.toNat_ofNat, BitVec.toNat_ofNat] at hnat
  omega

/-- A write to a byte of `mtimecmp` replaces that byte. -/
theorem write_cmpAddr {k : ℕ} (hk : k < 8) (val : BitVec 8) :
    c.write (cmpAddr k) val = { c with mtimecmp := Lanes.replace c.mtimecmp k val } := by
  have hoff : cmpAddr k - base = BitVec.ofNat 32 (0x4000 + k) := by
    rw [cmpAddr, BitVec.ofNat_add]
    generalize BitVec.ofNat 32 k = x
    change base + 0x4000 + x - base = 0x4000 + x
    rw [BitVec.add_assoc, BitVec.add_comm, BitVec.add_sub_cancel]
  have hin : 0x4000 ≤ cmpAddr k - base ∧ cmpAddr k - base < 0x4008 := by
    rw [hoff, BitVec.le_def, BitVec.lt_def, BitVec.toNat_ofNat]
    change 0x4000 ≤ _ ∧ _ < 0x4008
    omega
  have hshift : ((cmpAddr k - base - 0x4000) * 8).toNat = 8 * k := by
    rw [hoff, BitVec.toNat_mul, BitVec.toNat_sub, BitVec.toNat_ofNat]
    change (2 ^ 32 - 0x4000 + (0x4000 + k) % 2 ^ 32) % 2 ^ 32 * 8 % 2 ^ 32 = 8 * k
    omega
  unfold write
  dsimp only
  rw [if_pos hin, hshift]
  rfl

/-- A write elsewhere leaves the CLINT as it is. -/
theorem write_of_ne {a : BitVec 32} (h : ∀ k < 8, a ≠ cmpAddr k) (val : BitVec 8) :
    c.write a val = c := by
  unfold write
  dsimp only
  split
  case isTrue hin =>
    obtain ⟨hlo, hhi⟩ := hin
    rw [BitVec.le_def] at hlo
    rw [BitVec.lt_def] at hhi
    change 0x4000 ≤ _ at hlo
    change _ < 0x4008 at hhi
    refine absurd ?_ (h ((a - base).toNat - 0x4000) (by omega))
    have hback : BitVec.ofNat 32 ((a - base).toNat - 0x4000) = a - base - 0x4000 := by
      generalize a - base = off at hlo hhi ⊢
      apply BitVec.eq_of_toNat_eq
      rw [BitVec.toNat_ofNat, BitVec.toNat_sub]
      change _ = (2 ^ 32 - 0x4000 + off.toNat) % 2 ^ 32
      omega
    rw [cmpAddr, hback, BitVec.add_assoc, BitVec.add_comm 0x4000, BitVec.sub_add_cancel,
      BitVec.add_comm, BitVec.sub_add_cancel]
  case isFalse => rfl

/-- One write, lane by lane. -/
theorem lane_write (a : BitVec 32) (val : BitVec 8) {k : ℕ} (hk : k < 8) :
    Lanes.lane 8 (c.write a val).mtimecmp k =
      if a = cmpAddr k then val else Lanes.lane 8 c.mtimecmp k := by
  by_cases h : ∃ j < 8, a = cmpAddr j
  · obtain ⟨j, hj, rfl⟩ := h
    rw [write_cmpAddr hj, Lanes.lane_replace _ _ (by omega)]
    by_cases hjk : k = j
    · rw [if_pos hjk, hjk, if_pos rfl]
    · rw [if_neg hjk, if_neg fun heq => hjk (cmpAddr_inj hj hk heq).symm]
  · have hne : ∀ j < 8, a ≠ cmpAddr j := fun j hj heq => h ⟨j, hj, heq⟩
    rw [write_of_ne hne, if_neg (hne k hk)]

theorem lane_writes (ws : List (BitVec 32 × BitVec 8)) {k : ℕ} (hk : k < 8) :
    Lanes.lane 8 (c.writes ws).mtimecmp k =
      byteAfter ws (cmpAddr k) (Lanes.lane 8 c.mtimecmp k) := by
  induction ws generalizing c with
  | nil => rfl
  | cons w ws ih =>
    change Lanes.lane 8 ((c.write w.1 w.2).writes ws).mtimecmp k = _
    rw [ih, lane_write w.1 w.2 hk]
    rfl

/-- Any sequence of byte writes leaves the compare value that they assemble. -/
theorem mtimecmp_writes (ws : List (BitVec 32 × BitVec 8)) :
    (c.writes ws).mtimecmp = c.assembled ws := by
  rw [← Lanes.pack_lanes (w := 8) (by decide) (c.writes ws).mtimecmp (k := 8) (by decide),
    assembled]
  congr 1
  refine List.map_congr_left fun k hk => ?_
  exact lane_writes ws (List.mem_range.mp hk)

theorem mtime_writes (ws : List (BitVec 32 × BitVec 8)) : (c.writes ws).mtime = c.mtime := by
  induction ws generalizing c with
  | nil => rfl
  | cons w ws ih =>
    change ((c.write w.1 w.2).writes ws).mtime = _
    rw [ih]
    unfold write
    dsimp only
    split <;> rfl

end Clint

/-! ### The pending bits -/

namespace Exec

variable {e : Exec} {p : Platform}

/-- The bits that no write stores in `mip`, the timer bits among them. -/
def MipStored (e : Exec) : Prop := ∀ n < 32, Mip.wmask.getLsbD n = false →
  (e.csrRegs Csr.mip).getLsbD n = false

theorem MipStored.returnFromTrap (h : e.MipStored) (mmode : Bool) :
    (e.returnFromTrap mmode).MipStored := by
  intro n hn hmask
  rw [returnFromTrap_csrRegs_of_ne (by decide)]
  exact h n hn hmask

/-- A CSR write reaches `mip` under its own name and as `sip`, through a mask. -/
theorem MipStored.csrWrite (h : e.MipStored) (idEx : IdEx) (v : BitVec 32) :
    (e.csrWrite idEx v).MipStored := by
  intro n hn hmask
  by_cases haddr : idEx.csrAddr = Csr.sip ∨ idEx.csrAddr = Csr.mip
  · have hcsrMask : (e.csrMask idEx.csrAddr).getLsbD n = false := by
      rcases haddr with hsip | hmip
      · rw [hsip]
        change Mip.sipWmask.getLsbD n = false
        rw [Mip.wmask, BitVec.getLsbD_or, Bool.or_eq_false_iff] at hmask
        exact hmask.1
      · rw [hmip]
        exact hmask
    have hother : idEx.csrAddr ≠ Csr.sstatus ∧ idEx.csrAddr ≠ Csr.sie := by
      rcases haddr with h | h <;> rw [h] <;> decide
    unfold Exec.csrWrite
    dsimp only
    rw [if_neg hother.1, if_neg hother.2, if_pos haddr, write_csrRegs_self, getLsbD_csrWdata hn,
      hcsrMask]
    exact h n hn hmask
  · obtain ⟨hsip, hmip⟩ := not_or.mp haddr
    rw [csrWrite_csrRegs_of_ne]
    · exact h n hn hmask
    · unfold storage
      rw [if_neg hsip]
      split_ifs
      · decide
      · decide
      · exact Ne.symm hmip

/-- The compare value of the supervisor timer is the pair of its registers. -/
theorem stimecmp_eq : e.stimecmp = e.csrRegs Csr.stimecmph ++ e.csrRegs Csr.stimecmp := by
  apply BitVec.eq_of_getLsbD_eq
  intro n hn
  unfold stimecmp
  rw [BitVec.getLsbD_append, BitVec.getLsbD_or, BitVec.getLsbD_shiftLeft,
    BitVec.getLsbD_setWidth, BitVec.getLsbD_setWidth]
  by_cases hlow : n < 32
  · simp [hlow, hn]
  · have hup : n - 32 < 64 := by omega
    simp [hlow, hn, hup, BitVec.getLsbD_of_ge (e.csrRegs Csr.stimecmp) n (by omega)]

/-- A bit of a word to which a mask may have been added. -/
theorem getLsbD_or_if (x m : BitVec 32) (c : Prop) [Decidable c] (n : ℕ) :
    (if c then x ||| m else x).getLsbD n = (x.getLsbD n || (decide c && m.getLsbD n)) := by
  by_cases hc : c
  · simp [hc]
  · simp [hc]

theorem getLsbD_getMip (n : ℕ) : (e.getMip p).getLsbD n =
    ((e.csrRegs Csr.mip).getLsbD n || (decide (e.stimecmp < p.mtime) && Mip.stip.getLsbD n) ||
      (decide (p.mtimecmp < p.mtime) && Mip.mtip.getLsbD n) || (p.mIrq && Mip.meip.getLsbD n) ||
      (p.sIrq && Mip.seip.getLsbD n)) := by
  unfold getMip
  dsimp only
  rw [getLsbD_or_if, getLsbD_or_if, getLsbD_or_if, getLsbD_or_if, Bool.decide_eq_true,
    Bool.decide_eq_true]

/-- `STIP` is bit 5 and `MTIP` bit 7. -/
theorem stip_getMip (hmip : e.MipStored) :
    (e.getMip p).getLsbD 5 = true ↔ e.stimecmp < p.mtime := by
  rw [getLsbD_getMip, hmip 5 (by decide) (by decide), show Mip.stip.getLsbD 5 = true by decide,
    show Mip.mtip.getLsbD 5 = false by decide, show Mip.meip.getLsbD 5 = false by decide,
    show Mip.seip.getLsbD 5 = false by decide]
  simp

theorem mtip_getMip (hmip : e.MipStored) :
    (e.getMip p).getLsbD 7 = true ↔ p.mtimecmp < p.mtime := by
  rw [getLsbD_getMip, hmip 7 (by decide) (by decide), show Mip.stip.getLsbD 7 = false by decide,
    show Mip.mtip.getLsbD 7 = true by decide, show Mip.meip.getLsbD 7 = false by decide,
    show Mip.seip.getLsbD 7 = false by decide]
  simp

/-- `STIP` in a read of `sip`, while it is delegated. -/
theorem stip_readCsr {i : ExecIn} {c : ExecComb} (hmip : e.MipStored)
    (haddr : i.idEx.csrAddr = Csr.sip) (hdeleg : (e.csrRegs Csr.mideleg).getLsbD 5 = true) :
    (e.readCsr i c).exRdVal.getLsbD 5 = true ↔ e.stimecmp < i.platform.mtime := by
  have hread : (e.readCsr i c).exRdVal =
      (if i.platform.sIrq then
        (if e.stimecmp < i.platform.mtime then e.csrRegs Csr.mip ||| Mip.stip
          else e.csrRegs Csr.mip) ||| Mip.seip
      else if e.stimecmp < i.platform.mtime then e.csrRegs Csr.mip ||| Mip.stip
        else e.csrRegs Csr.mip) &&& e.csrRegs Csr.mideleg := by
    unfold readCsr
    rw [haddr]
    rfl
  rw [hread, BitVec.getLsbD_and, getLsbD_or_if, getLsbD_or_if, hmip 5 (by decide) (by decide),
    hdeleg, show Mip.stip.getLsbD 5 = true by decide, show Mip.seip.getLsbD 5 = false by decide]
  simp

/-- The timers are pending when the time has reached their compare values. -/
structure PendsOnTime (e : Exec) (p : Platform) (mtimecmp : BitVec 64) : Prop where
  mtip : (e.getMip p).getLsbD 7 = true ↔ mtimecmp ≤ p.mtime
  stip : (e.getMip p).getLsbD 5 = true ↔
    e.csrRegs Csr.stimecmph ++ e.csrRegs Csr.stimecmp ≤ p.mtime
  sip : ∀ (i : ExecIn) (c : ExecComb), i.platform = p → i.idEx.csrAddr = Csr.sip →
    (e.csrRegs Csr.mideleg).getLsbD 5 = true → ((e.readCsr i c).exRdVal.getLsbD 5 = true ↔
      e.csrRegs Csr.stimecmph ++ e.csrRegs Csr.stimecmp ≤ p.mtime)

/-- A strict comparison of words agrees with the weak one away from equality. -/
theorem lt_iff_le_iff_ne (x y : BitVec 64) : (x < y ↔ x ≤ y) ↔ y ≠ x := by
  rw [BitVec.lt_def, BitVec.le_def, ne_eq, ← BitVec.toNat_inj]
  omega

theorem pendsOnTime_iff (hmip : e.MipStored) : e.PendsOnTime p p.mtimecmp ↔
    p.mtime ≠ p.mtimecmp ∧ p.mtime ≠ e.csrRegs Csr.stimecmph ++ e.csrRegs Csr.stimecmp := by
  have hsuper : (e.stimecmp < p.mtime ↔
      e.csrRegs Csr.stimecmph ++ e.csrRegs Csr.stimecmp ≤ p.mtime) ↔
        p.mtime ≠ e.csrRegs Csr.stimecmph ++ e.csrRegs Csr.stimecmp := by
    rw [stimecmp_eq]
    exact lt_iff_le_iff_ne _ _
  constructor
  · rintro ⟨hmtip, hstip, -⟩
    rw [mtip_getMip hmip] at hmtip
    rw [stip_getMip hmip] at hstip
    exact ⟨(lt_iff_le_iff_ne _ _).mp hmtip, hsuper.mp hstip⟩
  · rintro ⟨hmachine, hs⟩
    have hstip := hsuper.mpr hs
    refine ⟨?_, ?_, ?_⟩
    · rw [mtip_getMip hmip]
      exact (lt_iff_le_iff_ne _ _).mpr hmachine
    · rw [stip_getMip hmip]
      exact hstip
    · rintro i c rfl haddr hdeleg
      rw [stip_readCsr hmip haddr hdeleg]
      exact hstip

end Exec

namespace Core

variable {entry : BitVec 32} {s : Core}

/-- No cycle stores a bit outside the write mask of `mip`. -/
theorem mipStored_step (h : s.exec.MipStored) (i : CoreIn) :
    (step entry s i).exec.MipStored := by
  intro n hn hmask
  rw [csrRegs_step (by decide)]
  rcases commit_cases entry s i with ⟨-, cause, tval, epc, hcommit⟩ | ⟨-, ⟨mmode, hcommit⟩, -⟩ |
    ⟨-, -, hcommit⟩ | ⟨-, hcommit⟩ <;> rw [hcommit]
  · rw [Exec.trap_csrRegs_of_not_mem]
    · exact h n hn hmask
    · cases s.exec.delegatedToS cause <;> decide
  · exact h.returnFromTrap mmode n hn hmask
  · exact h.csrWrite _ _ n hn hmask
  · exact h n hn hmask

theorem Reachable.mipStored (h : Reachable entry s) : s.exec.MipStored := by
  have hinit : ({} : Core).exec.MipStored := fun n _ _ => BitVec.getLsbD_zero
  refine Clocked.Reachable.invariant (P := fun s : Core => s.exec.MipStored) ?_
    (fun _ i hs => mipStored_step hs i) h
  rintro s ⟨i, -, rfl⟩
  exact mipStored_step hinit i

/-- In every reachable state, after every sequence of byte writes to the CLINT, the timers
pend on time exactly when the time is neither compare value. -/
theorem timers_pend_iff (entry : BitVec 32) (s : Core) (hs : Reachable entry s) (c : Clint)
    (ws : List (BitVec 32 × BitVec 8)) (plic : Option (BitVec 32 × BitVec 32)) :
    s.exec.PendsOnTime ((c.writes ws).platform plic) (c.assembled ws) ↔
      c.mtime ≠ c.assembled ws ∧
        c.mtime ≠ s.exec.csrRegs Csr.stimecmph ++ s.exec.csrRegs Csr.stimecmp := by
  have hiff := Exec.pendsOnTime_iff (p := (c.writes ws).platform plic) hs.mipStored
  rw [Clint.platform, Clint.mtime_writes, Clint.mtimecmp_writes] at hiff
  rw [Clint.platform, Clint.mtime_writes, Clint.mtimecmp_writes]
  exact hiff

/-- After reset the timers of a CLINT whose compare value was set to 9 pend on time when the
time is 12. -/
theorem timers_pend_after_write :
    (step 0x80000000 {} { rst := true, rstComb := true }).exec.PendsOnTime
      ((Clint.writes { mtime := 12 } [(0x20004000, 9)]).platform none)
      (Clint.assembled { mtime := 12 } [(0x20004000, 9)]) :=
  (timers_pend_iff 0x80000000 _ (.start ⟨_, rfl, rfl⟩) { mtime := 12 } [(0x20004000, 9)] none).mpr
    ⟨by decide, by decide⟩

/-- After reset, when the time has reached the compare value 9, no timer interrupt is
pending. -/
theorem timer_late_at_equality :
    let s := step 0x80000000 {} { rst := true, rstComb := true }
    let c : Clint := { mtime := 9 }
    Reachable 0x80000000 s ∧ c.assembled [(0x20004000, 9)] = c.mtime ∧
      s.exec.getMip ((c.writes [(0x20004000, 9)]).platform none) &&& Mip.mtip = 0 ∧
      ¬ s.exec.PendsOnTime ((c.writes [(0x20004000, 9)]).platform none)
        (c.assembled [(0x20004000, 9)]) := by
  intro s c
  have hreach : Reachable 0x80000000 s := .start ⟨_, rfl, rfl⟩
  refine ⟨hreach, by decide, by decide, fun h => ?_⟩
  have hbit : (s.exec.getMip ((c.writes [(0x20004000, 9)]).platform none)).getLsbD 7 = true :=
    h.mtip.mpr (by decide)
  revert hbit
  decide

end Core

end Turtle
