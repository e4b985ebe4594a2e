import Turtle.Mprv

/-!
# What the data side keeps of a request

The idle state latches the kind of a request and its offset in the page, and a walk keeps
both. So the fault that is reported has the kind of the request, and what is sent has its
offset, or its address where nothing is translated.
-/

namespace Turtle

open Bits

/-- Whether data requests are translated. -/
def Exec.translates (e : Exec) : Bool :=
  satpOn (e.csrRegs Csr.satp) && (e.priv == privS || e.priv == privU || e.dataPriv != 3)

/-- A physical address at which a virtual one may be found: in a page at the same offset, or
at the same address where nothing is translated. -/
def Locates (translates : Bool) (va pa : BitVec 32) : Prop :=
  pa.toNat % 4096 = va.toNat % 4096 ∧ (translates = false → pa = va)

theorem Locates.refl (translates : Bool) (va : BitVec 32) : Locates translates va va :=
  ⟨rfl, fun _ => rfl⟩

/-- The address in a page, from a page number and an offset that the lower bits give. -/
theorem locates_page {n : ℕ} {va mask ppn : BitVec 32} (hmask : mask.toNat = 2 ^ n - 1)
    (hn : 12 ≤ n ∧ n ≤ 22) : Locates true va ((ppn <<< 12) + (va &&& mask)) := by
  refine ⟨?_, nofun⟩
  have hlow : (va &&& mask).toNat = va.toNat % 2 ^ n := and_ones_toNat va mask hmask
  have hdvd : (4096 : ℕ) ∣ 2 ^ n := pow_dvd_pow 2 hn.1
  have hmod : va.toNat % 2 ^ n % 4096 = va.toNat % 4096 := Nat.mod_mod_of_dvd _ hdvd
  rw [BitVec.toNat_add, BitVec.toNat_shiftLeft, hlow, Nat.shiftLeft_eq]
  omega

/-- The context of a request decides whether it is translated. -/
theorem Exec.SameContext.translates_eq {e e' : Exec} (h : SameContext e e') :
    e'.translates = e.translates := by
  unfold translates
  rw [h.dataPriv_eq, h.1, h.2 Csr.satp (by decide)]

namespace Dmmu

variable {e e' : Exec} {s : Dmmu} {i : DmmuIn} {req req' : DmemIn}

/-- What the data side keeps of a request. -/
structure Keeps (e : Exec) (req : DmemIn) (s : Dmmu) : Prop where
  dOp_eq : s.dOp = opOf req
  walks : s.InWalk → e.translates = true ∧ s.dOffset = req.dmemAddr &&& 0xFFF
  accesses : s.dState = .access → s.dmmuToMem.dmemReqAck = true →
    Locates e.translates req.dmemAddr s.dmmuToMem.dmemAddr

/-- The same, of the first part of `dmem_req_seq`. -/
structure Next.Keeps (e : Exec) (req : DmemIn) (n : Next) : Prop where
  dOp_eq : n.mmu.dOp = opOf req
  walks : n.mmu.InWalk → e.translates = true ∧ n.mmu.dOffset = req.dmemAddr &&& 0xFFF
  accesses : n.mmu.dState = .access → Locates e.translates req.dmemAddr n.mmu.dMmuMem.dmemAddr

theorem Keeps.congr (h : Keeps e req s) (htranslates : e'.translates = e.translates)
    (hop : opOf req' = opOf req) (haddr : req'.dmemAddr = req.dmemAddr) : Keeps e' req' s := by
  refine ⟨h.dOp_eq.trans hop.symm, ?_, ?_⟩
  · rw [htranslates, haddr]
    exact h.walks
  · rw [htranslates, haddr]
    exact h.accesses

/-- The checks of the outgoing request change nothing of it. -/
theorem Next.Keeps.gated (h : (next e s i).Keeps e req) :
    Dmmu.Keeps e req (dmemReqSeq e s i).1 := by
  refine ⟨h.dOp_eq, h.walks, fun hstate hack => ?_⟩
  unfold dmemReqSeq at hack ⊢
  dsimp only at hack ⊢
  split at hack
  · cases hack
  · rename_i hok
    rw [if_neg hok]
    exact h.accesses hstate

theorem not_inWalk_of {state : WalkState} (h : s.dState = state)
    (hne : state ≠ .level1 ∧ state ≠ .level2) : ¬ s.InWalk := by
  rintro (hstate | hstate)
  · exact hne.1 (h.symm.trans hstate)
  · exact hne.2 (h.symm.trans hstate)

/-- A request that ends in a page fault. -/
theorem keeps_faulted {tlb : Tlb} (h : s.dOp = opOf req) : (faulted s tlb).Keeps e req := by
  have hidle : (faulted s tlb).mmu.dState = .idle := rfl
  exact ⟨h, fun hwalk => absurd hwalk (not_inWalk_of hidle (by decide)), nofun⟩

/-- A request that is sent. -/
theorem keeps_access {n : Next} (hop : n.mmu.dOp = opOf req) (hstate : n.mmu.dState = .access)
    (h : Locates e.translates req.dmemAddr n.mmu.dMmuMem.dmemAddr) : n.Keeps e req :=
  ⟨hop, fun hwalk => absurd hwalk (not_inWalk_of hstate (by decide)), fun _ => h⟩

theorem idleStep_keeps (hack : i.req.dmemReqAck = true) : (idleStep e s i).Keeps e i.req := by
  unfold idleStep
  dsimp only
  rw [if_pos hack]
  split
  · rename_i hon
    have htranslates : e.translates = true := hon
    split
    · split
      · exact keeps_faulted rfl
      · split
        · refine keeps_access rfl rfl ?_
          rw [htranslates]
          exact locates_page (n := 22) rfl (by omega)
        · refine keeps_access rfl rfl ?_
          rw [htranslates]
          exact locates_page (n := 12) rfl (by omega)
    · exact ⟨rfl, fun _ => ⟨htranslates, rfl⟩, nofun⟩
  · exact keeps_access rfl rfl (.refl _ _)

theorem level1Step_keeps (h : Keeps e i.req s) (hstate : s.dState = .level1) :
    (level1Step e s i).Keeps e i.req := by
  obtain ⟨htranslates, hoffset⟩ := h.walks (.inl hstate)
  unfold level1Step
  dsimp only
  split
  · exact keeps_faulted h.dOp_eq
  · split
    · refine keeps_access h.dOp_eq rfl ?_
      rw [htranslates]
      exact locates_page (n := 22) rfl (by omega)
    · exact ⟨h.dOp_eq, fun _ => ⟨htranslates, hoffset⟩, nofun⟩

theorem level2Step_keeps (h : Keeps e i.req s) (hstate : s.dState = .level2) :
    (level2Step e s i).Keeps e i.req := by
  obtain ⟨htranslates, hoffset⟩ := h.walks (.inr hstate)
  unfold level2Step
  dsimp only
  split
  · exact keeps_faulted h.dOp_eq
  · refine keeps_access h.dOp_eq rfl ?_
    change Locates _ _ ((_ <<< 12) + s.dOffset)
    rw [htranslates, hoffset]
    exact locates_page (n := 12) rfl (by omega)

/-- The fault that is reported has the kind of the request. -/
theorem Keeps.fault_code {rsp : MemOut} (h : Keeps e req s) {req' : DmemIn}
    (hfault : (s.dmemRspComb rsp req').mmuRspFault ≠ 0) :
    ((s.dmemRspComb rsp req').mmuRspFault.setWidth 32 : BitVec 32) ∈
      if opOf req = 1 then [4#32, 5#32, 13#32] else [6#32, 7#32, 15#32] := by
  rw [dmemRspComb_fault_eq, h.dOp_eq] at hfault ⊢
  split_ifs at hfault ⊢ <;> first
    | exact absurd rfl hfault
    | decide

end Dmmu

namespace DataPath

variable {δ : Type} {devices : List (Device δ)} {entry : BitVec 32} {s : DataPath δ}
  {i : DataIn δ}

/-- While a request is under way the data side keeps what it needs of it. -/
def KeepsRequest (s : DataPath δ) : Prop :=
  s.Busy → s.dmmu.Keeps s.core.exec s.core.idEx.request

theorem Busy.not_quiet (h : s.Busy) : ¬ s.dmmu.Quiet := by
  intro hquiet
  rcases h.phase with hfailed | hloads | hloads | haccess
  · exact hquiet.no_fault hfailed.fault
  · cases hquiet.dState_eq.symm.trans hloads.dState_eq
  · cases hquiet.dState_eq.symm.trans hloads.dState_eq
  · cases hquiet.dState_eq.symm.trans haccess.dState_eq

/-- The first part of `dmem_req_seq` in a cycle after which a request is under way. -/
theorem next_keeps (h : s.KeepsRequest) (hinv : s.Inv devices)
    (hbusy : (step devices entry s i).Busy)
    (hstall : (s.core.comb entry (s.coreIn i)).stall = true) :
    (Dmmu.next s.core.exec s.dmmu (s.dmmuIn entry i)).Keeps s.core.exec
      (s.dmmuIn entry i).req := by
  have hrst : i.rst = false := hbusy.running
  have hflush : (s.dmmuIn entry i).flush = false := by
    refine Bool.eq_false_of_not_eq_true fun hflush => hbusy.not_quiet ?_
    exact Dmmu.dmemReqSeq_quiet (.inr (.inl hflush))
  have hrunning : ((s.dmmuIn entry i).rst || (s.dmmuIn entry i).flush) = false :=
    Bool.or_eq_false_iff.mpr ⟨hrst, hflush⟩
  rcases hinv.phase with hidle | hb
  · rw [Dmmu.next_of_idle hrunning hidle.quiet.dState_eq]
    refine Dmmu.idleStep_keeps ?_
    by_contra hnone
    refine hbusy.not_quiet (Dmmu.dmemReqSeq_quiet (.inr (.inr (.inl ⟨hidle.quiet.dState_eq, ?_⟩))))
    exact Bool.eq_false_of_not_eq_true hnone
  · have hkept : s.dmmu.Keeps s.core.exec (s.dmmuIn entry i).req := by
      rw [dmmuIn_req (rstComb_of_running hb.running hrst)]
      exact (h hb).congr rfl rfl rfl
    rcases hb.phase with hfailed | hloads | hloads | haccess
    · have hends := @Busy.fail δ devices entry s i hb hrst hfailed
      cases hends.1.symm.trans hstall
    · have hack := (rsp_of_loads hinv.answered (by decide) hloads).1
      rw [Dmmu.next_of_level1 hrunning hloads.dState_eq hack]
      exact Dmmu.level1Step_keeps hkept hloads.dState_eq
    · have hack := (rsp_of_loads hinv.answered (by decide) hloads).1
      rw [Dmmu.next_of_level2 hrunning hloads.dState_eq hack]
      exact Dmmu.level2Step_keeps hkept hloads.dState_eq
    · rw [(hb.finish hinv.answered hrst haccess).1] at hstall
      cases hstall

/-- A cycle keeps what the request under way needs. -/
theorem KeepsRequest.step (h : s.KeepsRequest) (hinv : s.Inv devices) :
    (step devices entry s i).KeepsRequest := by
  intro hbusy
  have hrst : i.rst = false := hbusy.running
  have hstall : (s.core.comb entry (s.coreIn i)).stall = true :=
    (Core.wbStall_step (s := s.core) (i := s.coreIn i) hrst).symm.trans hbusy.waits
  have hkeep : (DataPath.step devices entry s i).core.idEx = s.core.idEx :=
    Core.idEx_of_stall hstall
  have hmem : s.core.idEx.IsAccess := hkeep ▸ hbusy.access
  have hctx := Core.sameContext_of_waits (i := s.coreIn i) hmem hstall
  have hcomb : s.rstComb i = false := by
    by_contra hlate
    rw [Core.comb_of_rst (i := s.coreIn i) (Bool.eq_true_of_not_eq_false hlate)] at hstall
    cases hstall
  have hnext := (next_keeps h hinv hbusy hstall).gated
  rw [dmmuIn_req hcomb] at hnext
  rw [hkeep]
  exact hnext.congr hctx.translates_eq rfl rfl

theorem keepsRequest_of_idle (h : s.Idle) : s.KeepsRequest :=
  fun hbusy => absurd h.quiet hbusy.not_quiet

/-- In every run the data side keeps what a request under way needs. -/
theorem Reachable.keepsRequest (h : Reachable devices entry s) : s.KeepsRequest := by
  induction h with
  | start hs =>
    obtain ⟨m, i, hrst, rfl⟩ := hs
    exact keepsRequest_of_idle (idle_of_rst hrst)
  | step i hs ih => exact ih.step (Reachable.inv hs)

end DataPath

end Turtle
