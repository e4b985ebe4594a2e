import Turtle.Computer

/-!
# What is executed was in memory

From reset on the computer is an RV32 machine that fetches its instructions. Nothing
that is fetched survives a reset, a trap, a return from a trap, `FENCE.I` or `SFENCE.VMA`, so
every halfword that is executed has been in memory since the last of them. With code that
nobody writes, the computer executes the program in its memory.
-/

namespace Turtle

open Bits
open Rv32 (FetchLabel Fetcher Instr)

/-- Where everything is to be fetched anew, EXEC flushes. -/
theorem RecordOf.flush_of_renews {e : Exec} {x : ExecIn} {c : ExecComb} {f : Forward}
    {w : BitVec 32} {i : Instr} (h : RecordOf f x.exPc w i x.idEx) (hi : i.Renews)
    (hc : c = e.execType x (Exec.executeStart x)) (htrap : c.onTrap = false) :
    c.flush = true := by
  rcases h.decodes with hdec | ⟨rd, rfl, -⟩
  · have ht : x.idEx.type = instrType i := hdec.type
    cases i with
    | fenceI imm rd rs1 => rw [hc, Exec.execType_fenceI ht]
    | sfenceVma rs1 rs2 => rw [hc, Exec.execType_sfenceVma ht (hc ▸ htrap)]
    | system op =>
      cases op with
      | sret => rw [hc, Exec.execType_sret ht (hc ▸ htrap)]
      | mret => rw [hc, Exec.execType_mret ht]
      | _ => exact hi.elim
    | _ => exact hi.elim
  · exact hi.elim

/-- A reset or a flush empties the queue. -/
theorem Fetch.represents_of_drain {s : Fetch} {i : FetchIn} (h : (i.rst || i.flush) = true) :
    Represents (s.getInstSeq i) .empty := by
  have hout := represents_outputs i.rst i.flush s.ifId fun _ => rfl
  rwa [← fifoUpdate_of_reset h] at hout

/-- Only the context decides whether fetches are translated. -/
theorem Exec.translatesFetch_congr {e e' : Exec} (h : e'.fetchContext = e.fetchContext) :
    e'.translatesFetch = e.translatesFetch := by
  obtain ⟨hpriv, hsatp, -⟩ := FetchContext.mk.inj h
  rw [translatesFetch, translatesFetch, hpriv, hsatp]

namespace Computer

variable {δ : Type} {undef : BitVec 32 → BitVec 32 → BitVec 32} {devices : List (Device δ)}
  {entry : BitVec 32} {s : Computer δ} {i : ComputerIn δ} {map : RamMap}
  {view view' : Set FlatRam}

/-! ### Cycles that drop what was fetched -/

/-- The cycle resets the front end or flushes it. -/
def Drains (entry : BitVec 32) (s : Computer δ) (i : ComputerIn δ) : Prop :=
  (i.data.rst || (s.out entry i).flush) = true

theorem Drains.front (h : s.Drains entry i) : (step undef devices entry s i).front.Drained :=
  Frontend.drained_of_flush (i := s.frontIn entry i) h

theorem Drains.idEx (h : s.Drains entry i) :
    (step undef devices entry s i).path.data.core.idEx = bubble := by
  rcases (Bool.or_eq_true _ _).mp h with hrst | hflush
  · exact Core.idEx_of_rst entry s.path.data.core (i := s.coreIn i) hrst
  · exact Core.idEx_of_flush (i := s.coreIn i) hflush

/-- Without a request memory answers nothing. -/
theorem iout_of_no_request (hreq : s.fetchReq entry i = s.front.immu.immuToMem → s.iout = {})
    (hnone : (s.fetchReq entry i).imemReqAck = false) :
    (step undef devices entry s i).iout = {} := by
  change (if _ then _ else _) = _
  split_ifs with hsame
  · exact hreq hsame
  · rw [Memory.instFetch, hnone]
    rfl

/-- After such a cycle nothing comes from anywhere. -/
theorem inv_of_drains (h : s.Drains entry i) {m : Memory δ} (hm : m.ram.flat ∈ view')
    (hreq : s.fetchReq entry i = s.front.immu.immuToMem → s.iout = {})
    (htracks : (step undef devices entry s i).path.Tracks devices entry map)
    (hsound : (step undef devices entry s i).front.Sound)
    (hreset : i.data.rst = true → view' = {(step undef devices entry s i).path.machine.mem}) :
    (step undef devices entry s i).Inv devices entry map view' := by
  have hdrained : (step undef devices entry s i).front.Drained := h.front
  have hnone : (s.fetchReq entry i).imemReqAck = false := hdrained.no_request
  refine ⟨htracks, hsound, Immu.keeps_of_reset (i := s.front.immuIn (s.frontIn entry i)) h,
    fun hsent => ?_, ⟨m, hm, ?_⟩, ?_, ?_, hreset⟩
  · cases hdrained.no_request.symm.trans hsent
  · rw [iout_of_no_request hreq hnone, Memory.instFetch, hdrained.no_request]
    rfl
  · exact ⟨.empty, Fetch.represents_of_drain (i := s.front.fetchIn (s.frontIn entry i)) h,
      HalfQueue.forall_empty⟩
  · intro hflush
    rw [h.idEx] at hflush
    cases hflush

/-! ### Other cycles -/

theorem fetchContext_step (h : s.Inv devices entry map view)
    (hflush : (s.out entry i).flush = false) :
    (step undef devices entry s i).path.data.core.exec.translatesFetch =
      s.path.data.core.exec.translatesFetch := by
  refine Exec.translatesFetch_congr (Core.fetchContext_step (i := s.coreIn i) fun hswitch => ?_)
  cases hflush.symm.trans (hswitch.flush h.tracks.data.reachable.core.priv_le)

/-- What the next record holds was fetched from the view. -/
theorem Inv.fetched_step (h : s.Inv devices entry map view) (hflush : (s.out entry i).flush = false)
    (hview : view ⊆ view') : (step undef devices entry s i).Fetched entry map view' := by
  have hctx := @fetchContext_step _ undef _ _ _ _ _ _ h hflush
  intro hslot hcause
  rw [hctx]
  rcases Core.idEx_cases entry s.path.data.core (s.coreIn i) with hstall | hlatch | hbubble
  · have hidEx : (step undef devices entry s i).path.data.core.idEx = s.path.data.core.idEx :=
      Core.idEx_of_stall hstall
    have hpc : (step undef devices entry s i).path.data.core.wb.exPc = s.path.data.core.wb.exPc :=
      Core.exPc_of_stall hstall
    rw [hidEx] at hslot hcause ⊢
    rw [hpc]
    exact (h.fetched hslot hcause).mono hview
  · have hidEx : (step undef devices entry s i).path.data.core.idEx =
        latch (s.path.data.core.forward entry (s.coreIn i)) s.front.fetch.ifId := hlatch.idEx
    have hpc : (step undef devices entry s i).path.data.core.wb.exPc =
        s.front.fetch.ifId.ifIdPc := hlatch.exPc
    obtain ⟨q, hq, hseen⟩ := h.queue
    have hready : q.ready = true := by
      have hshown : s.front.fetch.ifId.ifIdFlush = false := hlatch.2.2.2.2
      rw [hq.flush_eq] at hshown
      simpa using hshown
    have hfault : NoFetchFault s.front.fetch.ifId := by
      by_contra hfault
      obtain ⟨htrap, hcode⟩ :=
        @latch_of_fault (s.path.data.core.forward entry (s.coreIn i)) _ hfault
      rw [hidEx] at hcause
      rw [hcause htrap] at hcode
      exact absurd hcode (by decide)
    rw [hidEx, hpc]
    exact (hq.fetches hready hseen hfault _).mono hview
  · have hidEx : (step undef devices entry s i).path.data.core.idEx = bubble := hbubble
    rw [hidEx] at hslot
    cases hslot

/-- The answer of memory after the edge. -/
theorem Inv.answered_step (h : s.Inv devices entry map view) (hview : view ⊆ view')
    (hnew : (step undef devices entry s i).path.machine.mem ∈ view') :
    ∃ m : Memory δ, m.ram.flat ∈ view' ∧ (step undef devices entry s i).iout =
      (m.instFetch (step undef devices entry s i).front.immu.immuToMem).1 := by
  by_cases hsame : s.fetchReq entry i = s.front.immu.immuToMem
  · obtain ⟨m, hm, hiout⟩ := h.answered
    refine ⟨m, hview hm, ?_⟩
    have hreq : (step undef devices entry s i).front.immu.immuToMem = s.front.immu.immuToMem :=
      hsame
    rw [hreq, ← hiout]
    exact if_pos hsame
  · have hflat : (step undef devices entry s i).path.machine.mem =
        (s.committed devices entry i).ram.flat := h.tracks.data.flat_step
    exact ⟨_, hflat ▸ hnew, if_neg hsame⟩

/-- A cycle without a reset or a flush keeps the invariant. -/
theorem Inv.step_of_no_drain (h : s.Inv devices entry map view)
    (hsound : (step undef devices entry s i).front.Sound) (hno : ¬ s.Drains entry i)
    (hview : view ⊆ view') (hnew : (step undef devices entry s i).path.machine.mem ∈ view') :
    (step undef devices entry s i).Inv devices entry map view' := by
  obtain ⟨hrst, hflush⟩ := Bool.or_eq_false_iff.mp (Bool.eq_false_of_not_eq_true hno)
  have hctx := @fetchContext_step _ undef _ _ _ _ _ _ h hflush
  obtain ⟨q, hq, hseen⟩ := h.queue
  refine ⟨h.tracks.step, hsound, ?_, fun hsent => ?_, h.answered_step hview hnew,
    ⟨_, hq.getInstSeq h.sound.even_immuPc, ?_⟩, h.fetched_step hflush hview, fun hset => ?_⟩
  · exact (h.keeps.step (i := s.front.immuIn (s.frontIn entry i))).congr hctx
  · exact Bool.or_eq_true_iff.mpr (.inl hsent)
  · have hoffered := HalfQueue.Forall.step (i := s.front.fetchIn (s.frontIn entry i)) hseen
      h.sound.even_immuPc h.offered
    refine hoffered.imp fun addr half hhalf hpage haccess => ?_
    rw [hctx]
    exact (hhalf hpage haccess).mono hview
  · cases hrst.symm.trans hset

/-! ### Every cycle -/

/-- The view after a cycle. -/
def nextView (undef : BitVec 32 → BitVec 32 → BitVec 32) (devices : List (Device δ))
    (entry : BitVec 32) (view : Set FlatRam) (s : Computer δ) (i : ComputerIn δ) : Set FlatRam :=
  let mem := (step undef devices entry s i).path.machine.mem
  if (s.label entry i).anew then {mem} else insert mem view

theorem mem_nextView : (step undef devices entry s i).path.machine.mem ∈
    nextView undef devices entry view s i := by
  unfold nextView
  dsimp only
  split
  · exact Set.mem_singleton _
  · exact Set.mem_insert _ _

/-- The front end goes on to be sound. -/
theorem sound_step (heven : EvenWord entry) (h : s.Inv devices entry map view) :
    (step undef devices entry s i).front.Sound := by
  refine h.sound.step (i := s.frontIn entry i) fun _ => ?_
  exact Cpu.frontIn_npc_even (s := s.cpu) (i := s.cpuIn i) heven
    (h.tracks.data.reachable.core.exPc_even heven)

/-- Only a cycle that drops everything shrinks the view. A reset that is seen late meets a view
of one memory, which the cycle leaves alone. -/
theorem Inv.view_le (h : s.Inv devices entry map view) (hno : ¬ s.Drains entry i) :
    view ⊆ nextView undef devices entry view s i := by
  obtain ⟨hrst, hflush⟩ := Bool.or_eq_false_iff.mp (Bool.eq_false_of_not_eq_true hno)
  unfold nextView
  dsimp only
  split
  · rename_i hanew
    have hanew : ((s.coreIn i).rstComb || (s.out entry i).flush) = true := hanew
    rw [hflush, Bool.or_false] at hanew
    have hlate : s.path.data.inReset = true := by
      have hcomb : (i.data.rst || (s.path.data.inReset && i.data.late)) = true := hanew
      rw [hrst, Bool.false_or] at hcomb
      exact (Bool.and_eq_true_iff.mp hcomb).1
    have hcommit : ¬ s.path.data.Commits := by
      refine h.tracks.data.reachable.inv.no_commit_of_other ?_
      rw [h.tracks.data.reachable.inv.reset hlate]
      exact DataPath.not_isAccess_bubble
    have hsame : (step undef devices entry s i).path.machine.mem = s.path.machine.mem :=
      h.tracks.data.flat_of_no_commit hcommit
    rw [h.reset hlate, hsame]
  · exact Set.subset_insert _ _

/-- Every cycle keeps the invariant. -/
theorem Inv.step (heven : EvenWord entry) (h : s.Inv devices entry map view) :
    (step undef devices entry s i).Inv devices entry map
      (nextView undef devices entry view s i) := by
  by_cases hdrains : s.Drains entry i
  · have hflat : (Computer.step undef devices entry s i).path.machine.mem =
        (s.committed devices entry i).ram.flat := h.tracks.data.flat_step
    refine inv_of_drains hdrains (hflat ▸ mem_nextView) (fun hsame => ?_) h.tracks.step
      (sound_step heven h) fun hrst => ?_
    · obtain ⟨m, -, hiout⟩ := h.answered
      have hdrained := @Drains.front _ undef devices entry s i hdrains
      have hnone : s.front.immu.immuToMem.imemReqAck = false := hsame ▸ hdrained.no_request
      rw [hiout, Memory.instFetch, hnone]
      rfl
    · have hanew : (s.label entry i).anew = true := by
        change ((i.data.rst || _) || _) = true
        rw [hrst, Bool.true_or, Bool.true_or]
      exact if_pos hanew
  · exact h.step_of_no_drain (sound_step heven h) hdrains (h.view_le hdrains) mem_nextView

/-- What is executed in a cycle is what EX holds. -/
theorem inst_of_word {w : BitVec 32} (hw : w ∈ (s.label entry i).event.word) :
    s.path.data.core.idEx.inst = w ∧ s.path.data.core.idEx.flush = false ∧
      (s.path.data.core.idEx.onTrap = true →
        s.path.data.core.idEx.cause = ExceptionCause.illegalInstr.code) := by
  have hlabel : (s.label entry i).event = s.path.label entry (s.shownIn i) := rfl
  rw [hlabel] at hw
  rcases s.path.label_cases entry (s.shownIn i) with ⟨-, hcycle⟩ | ⟨hrst, htrap, hcycle⟩ |
    ⟨hrst, htrap, ⟨-, hcycle⟩ | ⟨-, -, hcycle⟩ | ⟨hflush, -, hcycle⟩⟩
  · rw [hcycle] at hw
    cases hw
  · rw [hcycle] at hw
    unfold MextPath.trapOf at hw
    dsimp only at hw
    split at hw
    · cases hw
    rename_i hint
    have hflush := MextPath.holds_of_trap hrst htrap (Bool.eq_false_of_not_eq_true hint)
    split at hw
    · split at hw
      · rename_i hcode
        exact ⟨Option.some.inj hw, hflush, fun _ => hcode⟩
      · cases hw
    · rename_i hmarked
      exact ⟨Option.some.inj hw, hflush, fun hset => absurd hset hmarked⟩
  · rw [hcycle] at hw
    cases hw
  · rw [hcycle] at hw
    cases hw
  · rw [hcycle] at hw
    have hexecuted := Core.comb_of_executed (i := s.coreIn i) hrst htrap hflush
    exact ⟨Option.some.inj hw, hflush, fun hset => by cases hexecuted.1.symm.trans hset⟩

/-- Where everything must be fetched anew, it is. -/
theorem Inv.renews (h : s.Inv devices entry map view)
    (hrenews : (fetchEnv entry map).Renews (s.label entry i).event) :
    (s.label entry i).anew = true := by
  have hlabel : (s.label entry i).event = s.path.label entry (s.shownIn i) := rfl
  have hanew : (s.label entry i).anew = ((s.coreIn i).rstComb ||
      ((s.path.comb entry (s.shownIn i)).onTrap || (s.path.comb entry (s.shownIn i)).flush)) := rfl
  rw [hlabel] at hrenews
  rw [hanew]
  rcases s.path.label_cases entry (s.shownIn i) with ⟨hrst, -⟩ | ⟨-, htrap, -⟩ |
    ⟨hrst, htrap, ⟨-, hcycle⟩ | ⟨-, -, hcycle⟩ | ⟨hflush, -, hcycle⟩⟩
  · have hrst : (s.coreIn i).rstComb = true := hrst
    rw [hrst, Bool.true_or]
  · rw [htrap, Bool.true_or, Bool.or_true]
  · rw [hcycle] at hrenews
    exact hrenews.elim
  · rw [hcycle] at hrenews
    exact hrenews.elim
  · rw [hcycle] at hrenews
    obtain ⟨instr, hmeans, hinstr⟩ := hrenews
    obtain ⟨hmarked, hexec⟩ := Core.comb_of_executed (i := s.coreIn i) hrst htrap hflush
    obtain ⟨f, hrecord, -⟩ :=
      h.tracks.data.reachable.core.holdsRecord.record_of_means hflush hmarked hmeans
    have hflushes := hrecord.flush_of_renews (x := s.path.data.core.execIn entry (s.coreIn i))
      hinstr hexec htrap
    have hflushes : (s.path.comb entry (s.shownIn i)).flush = true := hflushes
    rw [hflushes, Bool.or_true, Bool.or_true]

/-- Every cycle is a step of the machine that fetches. -/
theorem fetch_step (heven : EvenWord entry) (h : s.Inv devices entry map view) :
    (fetchEnv entry map).FetchStep ⟨s.path.machine, view⟩ (s.label entry i)
      ⟨(step undef devices entry s i).path.machine, nextView undef devices entry view s i⟩ where
  step := MextPath.machine_step (i := s.dataIn entry i) heven h.tracks
  fetches w hw := by
    obtain ⟨hinst, hflush, hcode⟩ := inst_of_word hw
    exact hinst ▸ h.fetched hflush hcode
  renews := h.renews
  view := rfl

/-- The machine that a state stands for, with a view that everything was fetched from. -/
def Relates (devices : List (Device δ)) (entry : BitVec 32) (map : RamMap) (s : Computer δ)
    (f : Fetcher FlatRam) : Prop :=
  f.toMachine = s.path.machine ∧ s.Inv devices entry map f.view

theorem Relates.step {f : Fetcher FlatRam} (heven : EvenWord entry)
    (h : s.Relates devices entry map f) :
    ∃ g, (fetchEnv entry map).FetchStep f (s.label entry i) g ∧
      (Computer.step undef devices entry s i).Relates devices entry map g := by
  obtain ⟨machine, view⟩ := f
  obtain ⟨rfl, hinv⟩ := h
  exact ⟨_, fetch_step heven hinv, rfl, hinv.step heven⟩

/-! ### Whole runs -/

/-- The first reset of a powered-up computer. -/
theorem inv_of_reset {m : Memory δ} (heven : EvenWord entry) (hwf : m.ram.WellFormed)
    (hs : s.PoweredUp m) (hrst : i.data.rst = true) :
    (step undef devices entry s i).Inv devices entry (Memory.ramMap devices m) {m.ram.flat} ∧
      (step undef devices entry s i).path.machine =
        ⟨⟨entry, Rv32.Regs.ofFun ({} : Core).regs⟩, m.ram.flat⟩ := by
  obtain ⟨hpath, hfront, hiout⟩ := hs
  obtain ⟨htracks, hmachine⟩ :=
    @MextPath.tracks_of_rst _ undef devices entry (s.dataIn entry i) m hwf hrst
  rw [← hpath] at htracks hmachine
  have hmem : (step undef devices entry s i).path.machine.mem = m.ram.flat :=
    congrArg Rv32.Machine.mem hmachine
  have heven' : EvenWord (s.frontIn entry i).npc := by
    refine Cpu.frontIn_npc_even (s := s.cpu) (i := s.cpuIn i) heven ?_
    change EvenWord s.path.data.core.wb.exPc
    rw [hpath]
    exact (by decide : EvenWord ({} : Core).wb.exPc)
  have hdrains : s.Drains entry i := Bool.or_eq_true_iff.mpr (.inl hrst)
  refine ⟨inv_of_drains hdrains (Set.mem_singleton m.ram.flat) (fun _ => hiout) htracks ?_
      fun _ => ?_,
    hmachine⟩
  · exact Frontend.sound_of_booted ⟨s.front, ⟨_, heven'⟩, hfront, hrst, rfl⟩
  · rw [hmem]

/-- From reset on, the computer is an RV32 machine that fetches its instructions from memory.
Whatever the platform, the TLB and the peripherals do: every word that is executed was fetched,
halfword by halfword, from the RAM as it was at times since the last reset, trap, trap return,
`FENCE.I` or `SFENCE.VMA`, at the address of the instruction or, where fetches are translated,
at the same offset in some page. -/
theorem implements_fetching_machine (undef : BitVec 32 → BitVec 32 → BitVec 32)
    (devices : List (Device δ)) (entry : BitVec 32) (heven : EvenWord entry) (m : Memory δ)
    (hwf : m.ram.WellFormed) (s₀ : Computer δ) (hs : s₀.PoweredUp m) (i : ComputerIn δ)
    (hrst : i.data.rst = true) (is : List (ComputerIn δ)) :
    let s := step undef devices entry s₀ i
    let map := Memory.ramMap devices m
    ∃ stop : Fetcher FlatRam, Clocked.LabelledRun (fetchEnv entry map).FetchStep
        ⟨⟨⟨entry, Rv32.Regs.ofFun ({} : Core).regs⟩, m.ram.flat⟩, {m.ram.flat}⟩
        (Clocked.trace (step undef devices entry) (label entry) s is) stop ∧
      stop.toMachine = (Clocked.run (step undef devices entry) s is).path.machine := by
  intro s map
  obtain ⟨hinv, hmachine⟩ := @inv_of_reset _ undef devices entry s₀ i m heven hwf hs hrst
  rw [← hmachine]
  obtain ⟨stop, hrun, hstop, -⟩ := @Clocked.simulation_of_relates _ _ _
    (step undef devices entry) _ (fetchEnv entry map).FetchStep (Relates devices entry map)
    (fun _ _ => True) (label entry) (fun _ _ _ h _ => h.step heven) s
    ⟨s.path.machine, {m.ram.flat}⟩ ⟨rfl, hinv⟩ is (fun _ _ => trivial)
  exact ⟨stop, hrun, hstop⟩

/-- `AUIPC x10, 0`, `LW x5, 20(x10)`, `SW x5, 16(x10)`, `FENCE.I` and a jump to itself, with an
`ADDI x6, x0, 7` behind it, which the program stores over the jump. -/
def selfModifying : List (BitVec 8) :=
  [0x17, 0x05, 0x00, 0x00, 0x83, 0x22, 0x45, 0x01, 0x23, 0x28, 0x55, 0x00,
    0x0f, 0x10, 0x00, 0x00, 0x6f, 0x00, 0x00, 0x00, 0x13, 0x03, 0x70, 0x00]

/-- A memory with this program at `0x80000000`. -/
def selfModifyingMemory : Memory Unit :=
  { ram := (Ram.init 0x80000000).loadToRam selfModifying 0x80000000, dev := () }

theorem selfModifyingMemory_wellFormed : selfModifyingMemory.ram.WellFormed :=
  (Ram.init_wellFormed _).loadToRam (by decide) _

/-- The program executes the instruction that it has written. -/
theorem implements_fetching_machine_selfModifying :
    let step := step (fun _ _ => 0) [Device.ram] 0x80000000
    let s := step { path := { data := { memory := selfModifyingMemory } } }
      { data := { rst := true } }
    let map := Memory.ramMap [Device.ram] selfModifyingMemory
    let is := List.replicate 15 {}
    (∃ stop : Fetcher FlatRam, Clocked.LabelledRun (fetchEnv 0x80000000 map).FetchStep
        ⟨⟨⟨0x80000000, Rv32.Regs.ofFun ({} : Core).regs⟩, selfModifyingMemory.ram.flat⟩,
          {selfModifyingMemory.ram.flat}⟩
        (Clocked.trace step (label 0x80000000) s is) stop ∧
      stop.toMachine = (Clocked.run step s is).path.machine) ∧
      (Clocked.run step s is).path.machine.hart.regs.read 6 = 7 := by
  intro step s map is
  refine ⟨implements_fetching_machine _ _ _ (by decide) _ selfModifyingMemory_wellFormed _
    ⟨rfl, ⟨rfl, rfl⟩, rfl⟩ _ rfl is, by decide +kernel⟩

/-- With a program in the memories of a view, what is fetched without translation is the
program. -/
theorem word_of_program {pc w : BitVec 32} {f : FlatRam} {code : Set (BitVec 32)}
    (h : (fetchEnv entry map).Fetches view false pc w)
    (hview : ∀ g ∈ view, ∀ a ∈ code, g.bytes a = f.bytes a)
    (hcode : ∀ k < 4, pc + BitVec.ofNat 32 k ∈ code) : w = Rv32.wordAt f.half pc := by
  refine h.eq_wordAt fun addr haddr g hg half hholds => ?_
  obtain ⟨pa, hlocates, hhalf⟩ := hholds
  have hpa : pa = addr := hlocates.2 rfl
  have hbytes : addr ∈ code ∧ addr + 1 ∈ code := by
    rcases List.mem_pair.mp haddr with rfl | rfl
    · exact ⟨BitVec.add_zero addr ▸ hcode 0 (by omega), hcode 1 (by omega)⟩
    · refine ⟨hcode 2 (by omega), ?_⟩
      rw [BitVec.add_assoc]
      exact hcode 3 (by omega)
  rw [← hhalf, hpa, FlatRam.half, FlatRam.half, hview g hg _ hbytes.1, hview g hg _ hbytes.2]

/-- The cycle writes no byte of `code`, and what it executes lies there and is fetched without
translation. -/
def StaysIn (entry : BitVec 32) (code : Set (BitVec 32)) (s : Computer δ) (i : ComputerIn δ) :
    Prop :=
  (∀ x ∈ code, ¬ s.path.data.Writes x) ∧
    ((s.label entry i).event.word ≠ none → s.path.data.core.exec.translatesFetch = false ∧
      ∀ k < 4, s.path.machine.hart.pc + BitVec.ofNat 32 k ∈ code)

/-- The machine that a state stands for, with the program in the present memory and in all that
were fetched from. -/
def HoldsProgram (devices : List (Device δ)) (entry : BitVec 32) (map : RamMap)
    (code : Set (BitVec 32)) (f : FlatRam) (s : Computer δ) (a : Rv32.Machine FlatRam) : Prop :=
  a = s.path.machine ∧ ∃ view, s.Inv devices entry map view ∧
    ∀ g ∈ insert a.mem view, ∀ x ∈ code, g.bytes x = f.bytes x

theorem HoldsProgram.step {code : Set (BitVec 32)} {f : FlatRam} {a : Rv32.Machine FlatRam}
    (heven : EvenWord entry) (h : s.HoldsProgram devices entry map code f a)
    (hstays : s.StaysIn entry code i) :
    ∃ b, (MextPath.env entry map).Executes f.half a (s.label entry i).event b ∧
      (Computer.step undef devices entry s i).HoldsProgram devices entry map code f b := by
  obtain ⟨rfl, view, hinv, hview⟩ := h
  obtain ⟨hnow, hview⟩ := Set.forall_mem_insert.mp hview
  obtain ⟨hkept, hcode⟩ := hstays
  have hstep := @fetch_step _ undef devices entry s i _ view heven hinv
  have hnext : ∀ x ∈ code,
      (Computer.step undef devices entry s i).path.machine.mem.bytes x = f.bytes x := by
    intro x hx
    have hsame : (Computer.step undef devices entry s i).path.machine.mem.bytes x =
        s.path.machine.mem.bytes x := hinv.tracks.data.bytes_step (hkept x hx)
    rw [hsame, hnow x hx]
  refine ⟨_, ⟨hstep.step, fun w hw => ?_⟩, rfl, _, hinv.step heven,
    Set.forall_mem_insert.mpr ⟨hnext, hstep.forall_view hview hnext⟩⟩
  obtain ⟨hctx, hpc⟩ := hcode (by rw [hw]; exact Option.some_ne_none w)
  have hlabel : (s.label entry i).ctx = false := hctx
  have hfetches := hstep.fetches w hw
  rw [hlabel] at hfetches
  exact word_of_program hfetches hview hpc

/-- Where nobody writes the code and nothing is translated, the computer executes the program
that was in its memory at reset: its cycles are steps of the machine, and every word that is
executed is the one of the program at the pc. -/
theorem executes_program (undef : BitVec 32 → BitVec 32 → BitVec 32)
    (devices : List (Device δ)) (entry : BitVec 32) (heven : EvenWord entry) (m : Memory δ)
    (hwf : m.ram.WellFormed) (s₀ : Computer δ) (hs : s₀.PoweredUp m) (i : ComputerIn δ)
    (hrst : i.data.rst = true) (is : List (ComputerIn δ)) (code : Set (BitVec 32))
    (hstays : ∀ c ∈ Clocked.trace (step undef devices entry) Prod.mk
      (step undef devices entry s₀ i) is, c.1.StaysIn entry code c.2) :
    let s := step undef devices entry s₀ i
    Clocked.LabelledRun ((MextPath.env entry (Memory.ramMap devices m)).Executes m.ram.flat.half)
      ⟨⟨entry, Rv32.Regs.ofFun ({} : Core).regs⟩, m.ram.flat⟩
      (Clocked.trace (step undef devices entry) (fun s i => (s.label entry i).event) s is)
      (Clocked.run (step undef devices entry) s is).path.machine := by
  intro s
  obtain ⟨hinv, hmachine⟩ := @inv_of_reset _ undef devices entry s₀ i m heven hwf hs hrst
  have hprogram : s.HoldsProgram devices entry (Memory.ramMap devices m) code m.ram.flat
      s.path.machine := by
    refine ⟨rfl, {m.ram.flat}, hinv, Set.forall_mem_insert.mpr ⟨fun x _ => ?_, fun g hg x _ => ?_⟩⟩
    · exact congrArg (fun a => a.mem.bytes x) hmachine
    · rw [hg]
  rw [← hmachine]
  obtain ⟨stop, hrun, hstop, -⟩ := @Clocked.simulation_of_relates _ _ _
    (step undef devices entry) _
    ((MextPath.env entry (Memory.ramMap devices m)).Executes m.ram.flat.half)
    (HoldsProgram devices entry (Memory.ramMap devices m) code m.ram.flat)
    (StaysIn entry code) (fun t j => (t.label entry j).event)
    (fun _ _ _ h hstays => h.step heven hstays) s s.path.machine hprogram is hstays
  exact hstop ▸ hrun

/-- The part of the program in front of the jump that it overwrites. -/
theorem executes_program_selfModifying :
    let step := step (fun _ _ => 0) [Device.ram] 0x80000000
    let s := step { path := { data := { memory := selfModifyingMemory } } }
      { data := { rst := true } }
    let map := Memory.ramMap [Device.ram] selfModifyingMemory
    let is := List.replicate 10 {}
    Clocked.LabelledRun
        ((MextPath.env 0x80000000 map).Executes selfModifyingMemory.ram.flat.half)
        ⟨⟨0x80000000, Rv32.Regs.ofFun ({} : Core).regs⟩, selfModifyingMemory.ram.flat⟩
        (Clocked.trace step (fun s i => (s.label 0x80000000 i).event) s is)
        (Clocked.run step s is).path.machine ∧
      (Clocked.run step s is).path.machine.hart.pc = 0x80000010 := by
  intro step s map is
  -- The one store goes to the four bytes behind this part.
  have hbeyond (x : BitVec 32) (hx : x.toNat < 0x80000010) : ¬ (x - 0x80000010#32).toNat < 4 := by
    rw [BitVec.toNat_sub]
    change ¬ (2 ^ 32 - 0x80000010 + x.toNat) % 2 ^ 32 < 4
    omega
  have hinside (pc : BitVec 32) (k : ℕ) (hpc : pc.toNat < 0x8000000d) (hk : k < 4) :
      (pc + BitVec.ofNat 32 k).toNat < 0x80000010 := by
    rw [BitVec.toNat_add, BitVec.toNat_ofNat]
    omega
  have hruns : ∀ c ∈ Clocked.trace step Prod.mk s is,
      (c.1.path.data.Commits → c.1.path.data.dmmu.dmmuToMem.dmemAddr = 0x80000010 ∧
        c.1.path.data.dmmu.dmmuToMem.dmemSize = 4) ∧
      c.1.path.data.core.exec.translatesFetch = false ∧
      ((c.1.label 0x80000000 c.2).event.word ≠ none →
        c.1.path.machine.hart.pc.toNat < 0x8000000d) := by
    decide +kernel
  have hstays : ∀ c ∈ Clocked.trace step Prod.mk s is,
      c.1.StaysIn 0x80000000 {x | x.toNat < 0x80000010} c.2 := by
    intro c hc
    obtain ⟨hwrites, hctx, hpc⟩ := hruns c hc
    refine ⟨?_, fun hword => ⟨hctx, fun k hk => hinside _ k (hpc hword) hk⟩⟩
    rintro x hx ⟨hcommit, -, hin⟩
    obtain ⟨haddr, hsize⟩ := hwrites hcommit
    rw [haddr, hsize] at hin
    exact hbeyond x hx hin
  exact ⟨executes_program _ _ _ (by decide) _ selfModifyingMemory_wellFormed _
    ⟨rfl, ⟨rfl, rfl⟩, rfl⟩ _ rfl is _ hstays, by decide +kernel⟩

end Computer

end Turtle
