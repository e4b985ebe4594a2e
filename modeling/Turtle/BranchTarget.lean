import Turtle.Cpu

/-!
# Branch targets in the fetch buffer

A taken branch leaves the buffer as it is. When the word of the target continues
the buffer, it is appended behind halfwords of the old path, and these decide where
the next instructions begin. The target is met exactly when the walk over those
instructions lands on it.
-/

namespace Turtle

open Bits

namespace Frontend

open Fetch HalfQueue

/-- A pop of the coming edge moves `buffer_addr` from below `t` to above `t`, while
`t` lies in the window. -/
def skips (t : BitVec 32) (s : Frontend) (i : FrontendIn) : Bool :=
  let b := s.fetch.fifo
  let update := s.fetch.fifoUpdate (s.fetchIn i)
  update.popped && b.holds t && b.bufferAddr != t &&
    decide ((t - b.bufferAddr).toNat < (update.fifo.bufferAddr - b.bufferAddr).toNat)

/-- Until `t` is offered to Decode, no pop skips it, and once in the window it stays
there, so that `if_id_pc` is never beyond it. -/
def keepsTarget (t : BitVec 32) : Frontend → List FrontendIn → Bool
  | _, [] => true
  | s, i :: is => s.fetch.ifId.ifIdPc == t ||
      (!skips t s i && (!s.fetch.fifo.holds t || (step s i).fetch.fifo.holds t) &&
        keepsTarget t (step s i) is)

variable {s : Frontend} {i : FrontendIn} {q : HalfQueue} {t : BitVec 32}

/-- A pop skips the target exactly when the instruction at the front reaches beyond it. -/
theorem Sound.skips_eq (hs : Sound s) (hq : Represents s.fetch q) {k : ℕ} (hk : q.HoldsAt t k)
    (hpos : 0 < k) (ht : EvenWord t)
    (hpopped : (s.fetch.fifoUpdate (s.fetchIn i)).popped = (!i.stall && q.ready))
    (hext : (hs.next q i).Extends (if !i.stall && q.ready then q.pop else q)) :
    skips t s i = (!i.stall && q.ready && decide (k < q.size)) := by
  have hlt := hk.lt
  have hlen := q.length_le
  have hfifo : s.fetch.fifo.bufferAddr = q.addr := congrArg Fifo.bufferAddr hq.fifo_eq
  have hfifo' : (s.fetch.fifoUpdate (s.fetchIn i)).fifo.bufferAddr = (hs.next q i).addr :=
    congrArg Fifo.bufferAddr (hs.represents_next hq).fifo_eq
  have hholds : s.fetch.fifo.holds t = true := by
    rw [hq.fifo_eq]
    exact (encode_holds_iff ht).mpr ⟨k, hk⟩
  have hbelow : (q.addr != t) = true := by
    rw [bne_iff_ne]
    intro h
    have := hk.eq_zero_iff.mpr h
    omega
  unfold skips
  dsimp only
  rw [hholds, hpopped, hfifo, hfifo', hext.addr_eq, hbelow, hk.toNat_sub, Bool.and_true, Bool.and_true]
  cases hpops : (!i.stall && q.ready) with
  | false => rfl
  | true =>
    have hready : q.size ≤ q.halves.length := of_decide_eq_true (Bool.and_eq_true_iff.mp hpops).2
    have hmoved : (q.pop.addr - q.addr).toNat = 2 * q.size := by
      rw [HalfQueue.pop, dif_pos hready]
      dsimp only
      rw [BitVec.add_comm, BitVec.add_sub_cancel, BitVec.toNat_ofNat]
      omega
    rw [if_pos rfl, hmoved, Bool.true_and, Bool.true_and, decide_eq_decide]
    omega

/-- The word of `t` is in the queue and the walk lands on `t`. Either the word came
from before the redirect, and `t` will start the queue anew, or the stream continues
the queue. -/
def Ahead (t : BitVec 32) (s : Frontend) (q : HalfQueue) : Prop :=
  (s.immu.immuPc = t ∧ q.endAddr = (t &&& ~~~3) + 4 ∧
    ∀ k, q.HoldsAt t k → q.landsBefore k = true) ∨
  (Continues s q ∧ ∃ k, q.HoldsAt t k ∧ q.landsBefore k = true)

/-- A pop of a queue that lands on `t` keeps `t` and lands on it. -/
theorem landsBefore_ite_pop {p : Bool} {k : ℕ} (hk : q.HoldsAt t k)
    (hland : q.landsBefore k = true) (hpos : 0 < k) :
    ∃ n, (if p then q.pop else q).HoldsAt t n ∧ (if p then q.pop else q).landsBefore n = true := by
  cases p with
  | false => exact ⟨k, hk, hland⟩
  | true =>
    obtain ⟨hsize, hrest⟩ := (landsBefore_iff hk.lt hpos).mp hland
    exact ⟨k - q.size, hk.pop hsize, hrest⟩

theorem Ahead.lands {k : ℕ} (h : Ahead t s q) (hk : q.HoldsAt t k) : q.landsBefore k = true := by
  rcases h with ⟨-, -, hwalk⟩ | ⟨-, n, hn, hland⟩
  · exact hwalk k hk
  · rwa [hk.unique hn]

/-- A cycle that starts the queue anew, with `t` still ahead, starts it at `t`. -/
theorem Ahead.holdsAt_start (hs : Sound s) (h : Ahead t s q) (hend : s.immu.immuPc ≠ q.endAddr)
    {word : Half × Half} (hnext : hs.next q i = start s.immu.immuPc hs.even_immuPc word) :
    (hs.next q i).HoldsAt t 0 := by
  have hpc : s.immu.immuPc = t := by
    rcases h with ⟨hpc, -⟩ | ⟨⟨hpc, -⟩, -⟩
    · exact hpc
    · exact absurd hpc hend
  have hholds := HalfQueue.holdsAt_start hs.even_immuPc word
  rwa [← hnext, hpc] at hholds

/-- Before `t` is at the front, a cycle that pops or appends leaves `t` ahead. -/
theorem Ahead.step (hs : Sound s) (hq : Represents s.fetch q) (hi : i.redirects = false)
    (h : Ahead t s q)
    (hkept : ∀ k, q.HoldsAt t k →
      ∃ n, (hs.next q i).HoldsAt t n ∧ (hs.next q i).landsBefore n = true)
    (hcase : (s.stores i = false ∧ hs.next q i = if !i.stall && q.ready then q.pop else q) ∨
      s.immu.immuPc = q.endAddr) : Ahead t (step s i) (hs.next q i) := by
  rcases h with ⟨hpc, hend, -⟩ | ⟨hcont, k, hk, -⟩
  · rcases hcase with ⟨hstores, hnext⟩ | hpc'
    · refine .inl ⟨?_, ?_, ?_⟩
      · rw [((step_of_not_redirects hs.flushQuiet hi).2 hstores).1, hpc]
      · rw [hnext, endAddr_ite_pop, hend]
      · intro n hn
        obtain ⟨k, hk⟩ : ∃ k, q.HoldsAt t k := by
          rw [hnext] at hn
          split at hn
          · exact hn.of_pop
          · exact ⟨n, hn⟩
        obtain ⟨m, hm, hland⟩ := hkept k hk
        rwa [hn.unique hm]
    · exact absurd (hpc.symm.trans (hpc'.trans hend)) (ne_nextWord t)
  · exact .inr ⟨hcont.step hs hq hi, hkept k hk⟩

theorem skips_of_not_popped (h : (s.fetch.fifoUpdate (s.fetchIn i)).popped = false) :
    skips t s i = false := by
  unfold skips
  dsimp only
  rw [h]
  rfl

theorem skips_of_not_holds (h : ¬ s.fetch.fifo.holds t = true) : skips t s i = false := by
  unfold skips
  dsimp only
  rw [Bool.eq_false_of_not_eq_true h, Bool.and_false, Bool.false_and, Bool.false_and]

theorem holds_iff (hq : Represents s.fetch q) (ht : EvenWord t) :
    s.fetch.fifo.holds t = true ↔ ∃ k, q.HoldsAt t k := by
  rw [hq.fifo_eq]
  exact encode_holds_iff ht

/-- One cycle before `t` is at the front: nothing is skipped. -/
theorem Ahead.not_skips (hs : Sound s) (hq : Represents s.fetch q) (hi : i.redirects = false)
    (ht : EvenWord t) (h : Ahead t s q) (hfront : q.addr ≠ t) :
    skips t s i = false ∧
      (s.fetch.fifo.holds t = true → (Frontend.step s i).fetch.fifo.holds t = true) ∧
      ((hs.next q i).addr = t ∨ Ahead t (Frontend.step s i) (hs.next q i)) := by
  have hpos {k : ℕ} (hk : q.HoldsAt t k) : 0 < k :=
    Nat.pos_of_ne_zero fun hzero => hfront (hk.eq_zero_iff.mp hzero)
  have hin := holds_iff hq ht
  have hin' := holds_iff (hs.represents_next hq (i := i)) ht
  rcases hs.next_cases hq hi with
    ⟨-, hpopped, hend, word, hnext⟩ | ⟨r, rfl, hext, hpopped, hcase⟩
  · have hstart := h.holdsAt_start hs hend hnext
    exact ⟨skips_of_not_popped hpopped, fun _ => hin'.mpr ⟨0, hstart⟩,
      .inl (hstart.eq_zero_iff.mp rfl)⟩
  · have hkept (k : ℕ) (hk : q.HoldsAt t k) :
        ∃ n, (hs.next q i).HoldsAt t n ∧ (hs.next q i).landsBefore n = true := by
      obtain ⟨n, hn, hland⟩ := landsBefore_ite_pop (p := !i.stall && q.ready) hk (h.lands hk)
        (hpos hk)
      obtain ⟨hn', hsame⟩ := hext.holdsAt hn
      exact ⟨n, hn', hsame.trans hland⟩
    refine ⟨?_, ?_, .inr (h.step hs hq hi hkept (hcase.imp id fun hstored => hstored.2.1))⟩
    · by_cases hholds : s.fetch.fifo.holds t = true
      · obtain ⟨k, hk⟩ := hin.mp hholds
        obtain ⟨hsize, -⟩ := (landsBefore_iff hk.lt (hpos hk)).mp (h.lands hk)
        rw [hs.skips_eq hq hk (hpos hk) ht hpopped hext, decide_eq_false (Nat.not_lt.mpr hsize),
          Bool.and_false]
      · exact skips_of_not_holds hholds
    · intro hholds
      obtain ⟨k, hk⟩ := hin.mp hholds
      obtain ⟨n, hn, -⟩ := hkept k hk
      exact hin'.mpr ⟨n, hn⟩

theorem keepsTarget_of_front {is : List FrontendIn} (h : s.fetch.ifId.ifIdPc = t) :
    keepsTarget t s is = true := by
  cases is with
  | nil => rfl
  | cons i is =>
    unfold keepsTarget
    rw [beq_iff_eq.mpr h, Bool.true_or]

/-- A target on which the walk lands is kept until it is at the front. -/
theorem Ahead.keepsTarget {is : List FrontendIn} (hs : Sound s) (hq : Represents s.fetch q)
    (his : ∀ j ∈ is, j.redirects = false) (ht : EvenWord t) (h : Ahead t s q) :
    keepsTarget t s is = true := by
  induction is generalizing s q with
  | nil => rfl
  | cons i is ih =>
    by_cases hfront : q.addr = t
    · exact keepsTarget_of_front (hq.pc_eq.trans hfront)
    have hi := his i List.mem_cons_self
    have hq' := hs.represents_next hq (i := i)
    obtain ⟨hskips, hholds, hahead⟩ := h.not_skips hs hq hi ht hfront
    have hrest : Frontend.keepsTarget t (Frontend.step s i) is = true := by
      rcases hahead with haddr | hahead
      · exact keepsTarget_of_front (hq'.pc_eq.trans haddr)
      · exact ih (hs.step_of_not_redirects hi) hq' (fun j hj => his j (List.mem_cons_of_mem _ hj))
          hahead
    unfold Frontend.keepsTarget
    rw [hskips, hrest]
    cases hin : s.fetch.fifo.holds t with
    | false => simp
    | true => simp [hholds hin]

/-- A cycle that neither stalls nor redirects pops before a target that is not at the
front, and nothing but the appended word changes behind it. -/
theorem Continues.pops {k : ℕ} (hs : Sound s) (hq : Represents s.fetch q) (ht : EvenWord t)
    (hi : i.redirects = false) (hstall : i.stall = false) (hcont : Continues s q)
    (hk : q.HoldsAt t k) (hpos : 0 < k) :
    skips t s i = decide (k < q.size) ∧
      (q.size ≤ k → (hs.next q i).HoldsAt t (k - q.size) ∧
        (hs.next q i).landsBefore (k - q.size) = q.pop.landsBefore (k - q.size)) := by
  have hready : q.ready = true := by
    have hlt := hk.lt
    refine decide_eq_true ?_
    unfold size
    split <;> omega
  have hpops : (!i.stall && q.ready) = true := by rw [hstall, hready]; rfl
  rcases hs.next_cases hq hi with ⟨-, -, hend, -⟩ | ⟨r, rfl, hext, hpopped, -⟩
  · exact absurd hcont.1 hend
  constructor
  · rw [hs.skips_eq hq hk hpos ht hpopped hext, hpops, Bool.true_and]
  · intro hsize
    rw [if_pos hpops] at hext
    exact hext.holdsAt (hk.pop hsize)

/-- A target on which the walk does not land is skipped as soon as enough cycles
neither stall nor redirect. -/
theorem keepsTarget_of_not_lands {k : ℕ} {is : List FrontendIn} (hs : Sound s)
    (hq : Represents s.fetch q) (ht : EvenWord t) (hcont : Continues s q) (hk : q.HoldsAt t k)
    (hland : q.landsBefore k = false) (hlen : k ≤ is.length)
    (his : ∀ j ∈ is, j.redirects = false ∧ j.stall = false) : keepsTarget t s is = false := by
  induction is generalizing s q k with
  | nil =>
    have hzero : k = 0 := Nat.le_zero.mp hlen
    rw [hzero] at hland
    cases hland
  | cons i is ih =>
    obtain ⟨hi, hstall⟩ := his i List.mem_cons_self
    have hpos : 0 < k := by
      refine Nat.pos_of_ne_zero ?_
      rintro rfl
      cases hland
    have hfront : (s.fetch.ifId.ifIdPc == t) = false := by
      rw [beq_eq_false_iff_ne, hq.pc_eq]
      intro h
      have := hk.eq_zero_iff.mpr h
      omega
    obtain ⟨hskips, hnext⟩ := hcont.pops hs hq ht hi hstall hk hpos
    unfold keepsTarget
    rw [hfront, hskips]
    by_cases hsize : q.size ≤ k
    · have hshort : ¬ q.pop.landsBefore (k - q.size) = true := fun h => by
        rw [(landsBefore_iff hk.lt hpos).mpr ⟨hsize, h⟩] at hland
        cases hland
      have hpositive : 0 < q.size := by
        unfold size
        split <;> decide
      obtain ⟨hk', hsame⟩ := hnext hsize
      have hrest := ih (hs.step_of_not_redirects hi) (hs.represents_next hq) (hcont.step hs hq hi)
        hk' (by rw [hsame]; exact Bool.eq_false_of_not_eq_true hshort)
        (by rw [List.length_cons] at hlen; omega) fun j hj => his j (List.mem_cons_of_mem _ hj)
      rw [hrest, Bool.and_false, Bool.or_false]
    · rw [decide_eq_true (Nat.lt_of_not_le hsize)]
      rfl

/-- A redirect to an even address, a run without another one, and a cycle that
stores a word of the target. -/
structure TargetStored (s : Frontend) (i : FrontendIn) (js : List FrontendIn) (k : FrontendIn) :
    Prop where
  redirects : i.redirects = true
  even : EvenWord i.npc
  quiet : ∀ j ∈ js, j.redirects = false
  quiet_last : k.redirects = false
  stores : (Clocked.run step s (i :: js)).stores k = true
  word : (Clocked.run step s (i :: js)).immu.immuPc &&& ~~~3 = i.npc &&& ~~~3

variable {js ks : List FrontendIn} {k : FrontendIn}

/-- The state right after the word of the target has been stored. -/
theorem TargetStored.after (h : TargetStored s i js k) (hs : Sound s) :
    ∃ q, Sound (step (Clocked.run step s (i :: js)) k) ∧
      Represents (step (Clocked.run step s (i :: js)) k).fetch q ∧
      (((Clocked.run step s (i :: js)).fetchPc = i.npc ∧
          (step (Clocked.run step s (i :: js)) k).immu.immuPc = i.npc ∧
          q.endAddr = (i.npc &&& ~~~3) + 4) ∨
        (Continues (step (Clocked.run step s (i :: js)) k) q ∧ ∃ n, q.HoldsAt i.npc n)) := by
  have hfirst : Sound (step s i) := hs.step fun _ => h.even
  obtain ⟨q₀, hq₀⟩ := hfirst.represents
  have htarget : (step s i).fetchPc = i.npc := if_pos h.redirects
  obtain ⟨hbefore, q, hq, hfollows⟩ := follows_run hfirst hq₀ h.quiet (.inl htarget)
  exact ⟨hbefore.next q k, hbefore.step_of_not_redirects h.quiet_last, hbefore.represents_next hq,
    hfollows.stored hbefore hq h.quiet_last h.even h.stores h.word⟩

theorem TargetStored.keepsTarget_of_landsOn (h : TargetStored s i js k) (hs : Sound s)
    (hks : ∀ j ∈ ks, j.redirects = false)
    (hlands : (step (Clocked.run step s (i :: js)) k).fetch.fifo.landsOn i.npc = true) :
    keepsTarget i.npc (step (Clocked.run step s (i :: js)) k) ks = true := by
  obtain ⟨q, hsound, hq, hstored⟩ := h.after hs
  have hwalk (n : ℕ) (hn : q.HoldsAt i.npc n) : q.landsBefore n = true := by
    rwa [hq.fifo_eq, hn.encode_landsOn] at hlands
  refine Ahead.keepsTarget hsound hq hks h.even ?_
  rcases hstored with ⟨-, hpc, hend⟩ | ⟨hcont, n, hn⟩
  · exact .inl ⟨hpc, hend, hwalk⟩
  · exact .inr ⟨hcont, n, hn, hwalk n hn⟩

theorem TargetStored.keepsTarget_of_not_landsOn (h : TargetStored s i js k) (hs : Sound s)
    (hpast : (Clocked.run step s (i :: js)).fetchPc ≠ i.npc) (hlen : 3 ≤ ks.length)
    (hks : ∀ j ∈ ks, j.redirects = false ∧ j.stall = false)
    (hlands : (step (Clocked.run step s (i :: js)) k).fetch.fifo.landsOn i.npc = false) :
    keepsTarget i.npc (step (Clocked.run step s (i :: js)) k) ks = false := by
  obtain ⟨q, hsound, hq, hstored⟩ := h.after hs
  rcases hstored with ⟨hnot, -⟩ | ⟨hcont, n, hn⟩
  · exact absurd hnot hpast
  have hshort : n ≤ 3 := by
    have hlt := hn.lt
    have hlen := q.length_le
    omega
  rw [hq.fifo_eq, hn.encode_landsOn] at hlands
  exact keepsTarget_of_not_lands hsound hq h.even hcont hn hlands (Nat.le_trans hshort hlen) hks

end Frontend

namespace Cpu

/-- A taken branch, a run of the processor without another redirect, and a cycle that
stores a word of the target. -/
def BranchStored (entry : BitVec 32) (s : Cpu) (i : CpuIn) (js : List CpuIn) (k : CpuIn) : Prop :=
  (s.frontIn entry i).branchTaken = true ∧
    Frontend.TargetStored s.front (s.frontIn entry i) (frontIns entry (step entry s i) js)
      (frontIn entry (Clocked.run (step entry) s (i :: js)) k)

/-- In every run that goes on without a redirect, the target is kept until Decode is
offered it. -/
def TargetKept (entry : BitVec 32) (s : Cpu) (i : CpuIn) (js : List CpuIn) (k : CpuIn) : Prop :=
  let after := Clocked.run (step entry) s (i :: js ++ [k])
  ∀ ks, (∀ f ∈ frontIns entry after ks, f.redirects = false) →
    Frontend.keepsTarget (s.frontIn entry i).npc after.front (frontIns entry after ks) = true

/-- Branch targets in the fetch buffer. In every reachable state, after every taken
branch to `t`, once a word of `t` has been stored: if the walk over the buffered
halfwords lands on `t`, then `t` is kept until Decode is offered it, whatever happens
until the next redirect; and if it does not, although PreFetch is past `t`, then `t`
is skipped within three cycles that neither stall nor redirect. -/
theorem target_kept_or_skipped (entry : BitVec 32) (hentry : EvenWord entry) (s : Cpu)
    (hs : Reachable entry s) (i : CpuIn) (js : List CpuIn) (k : CpuIn)
    (h : BranchStored entry s i js k) :
    let t := (s.frontIn entry i).npc
    let before := Clocked.run (step entry) s (i :: js)
    let after := Clocked.run (step entry) s (i :: js ++ [k])
    (after.front.fetch.fifo.landsOn t = true → TargetKept entry s i js k) ∧
    (after.front.fetch.fifo.landsOn t = false → before.front.fetchPc ≠ t →
      ∀ ks, 3 ≤ ks.length →
        (∀ f ∈ frontIns entry after ks, f.redirects = false ∧ f.stall = false) →
        Frontend.keepsTarget t after.front (frontIns entry after ks) = false) := by
  have hsound := (hs.front_running hentry).sound
  have hfront : (Clocked.run (step entry) s (i :: js ++ [k])).front = _ := front_after s i js k
  intro t before after
  constructor
  · intro hlands ks hks
    rw [hfront] at hlands ⊢
    exact h.2.keepsTarget_of_landsOn hsound hks hlands
  · intro hlands hpast ks hlen hks
    have hbefore : before.front = Clocked.run Frontend.step s.front (frontIns entry s (i :: js)) :=
      front_run _
    rw [hbefore] at hpast
    rw [hfront] at hlands ⊢
    have hlen' : 3 ≤ (frontIns entry after ks).length := by
      rwa [frontIns, Clocked.length_trace]
    exact h.2.keepsTarget_of_not_landsOn hsound hpast hlen' hks hlands

/-- The inputs of `n` cycles with nothing but an instruction memory. -/
def ramRun (entry : BitVec 32) (ram : BitVec 32 → BitVec 32) : ℕ → Cpu → List CpuIn
  | 0, _ => []
  | n + 1, s =>
    let i : CpuIn := { rsp := Frontend.instFetch ram s.front.immu.immuToMem }
    i :: ramRun entry ram n (step entry s i)

/-- A memory with `jal x0, 16` at `0x80000000`, the given word in front of its target,
and `nop` elsewhere. -/
def jumpRam (word a : BitVec 32) : BitVec 32 :=
  if a = 0x80000000 then 0x0100006f else if a = 0x8000000c then word else 0x00000013

/-- The processor on that memory, `n` cycles after its reset. -/
def jumpState (word : BitVec 32) (n : ℕ) : Cpu :=
  let s := step 0x80000000 {} { core := { rst := true, rstComb := true } }
  Clocked.run (step 0x80000000) s (ramRun 0x80000000 (jumpRam word) n s)

/-- The input of that cycle. -/
def jumpIn (word : BitVec 32) (n : ℕ) : CpuIn :=
  { rsp := Frontend.instFetch (jumpRam word) (jumpState word n).front.immu.immuToMem }

theorem jumpState_reachable (word : BitVec 32) (n : ℕ) :
    Reachable 0x80000000 (jumpState word n) :=
  Clocked.Reachable.run (.start ⟨{}, _, ⟨rfl, rfl⟩, rfl, rfl⟩) _

/-- Two compressed instructions in front of the target lead to it. -/
theorem target_kept_behind_compressed :
    TargetKept 0x80000000 (jumpState 0x00010001 4) (jumpIn 0x00010001 4) [jumpIn 0x00010001 5]
      (jumpIn 0x00010001 6) :=
  (target_kept_or_skipped 0x80000000 (by decide) _ (jumpState_reachable _ 4) _ _ _
    ⟨by decide, by decide, by decide, by decide, by decide,
      by decide, by decide⟩).1 (by decide)

/-- The jump at `0x80000000` goes to `0x80000010`. The word of the target is appended
behind the halfword at `0x8000000e`, which is taken for the first half of an
instruction of 32 bits, and the pop goes on to `0x80000012`. -/
theorem jump_target_skipped :
    ¬ ∀ (s : Cpu), Reachable 0x80000000 s → ∀ (i : CpuIn) (js : List CpuIn) (k : CpuIn),
      BranchStored 0x80000000 s i js k → TargetKept 0x80000000 s i js k := by
  intro h
  have hstored : BranchStored 0x80000000 (jumpState 0x00030001 4) (jumpIn 0x00030001 4)
      [jumpIn 0x00030001 5] (jumpIn 0x00030001 6) :=
    ⟨by decide, by decide, by decide, by decide, by decide,
      by decide, by decide⟩
  have hkept := h _ (jumpState_reachable _ 4) _ _ _ hstored [jumpIn 0x00030001 7]
    (by decide)
  revert hkept
  decide

end Cpu

end Turtle
