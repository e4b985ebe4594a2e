import Turtle.FetchBoundary
import Turtle.Frontend

/-!
# The fetch stream and the queue

From the first reset on, the fetch buffer of the front end holds a queue, as long
as EXEC asks for even addresses. After a redirect the words of the stream meet this
queue: the held word and the word of the target continue it or start it anew, and
all later words continue it.
-/

namespace Turtle

open Bits

namespace Frontend

open Fetch HalfQueue

/-- An input that EXEC can send: it never asks for an odd address. -/
abbrev EvenIn := { i : FrontendIn // EvenWord i.npc }

/-- The states right after the first reset cycle. -/
def Booted (s : Frontend) : Prop :=
  ∃ (s₀ : Frontend) (i : EvenIn), s₀.Started ∧ i.1.rst = true ∧ s = step s₀ i.1

/-- The states that a run from reset can visit. -/
def Running : Frontend → Prop := Clocked.Reachable (fun s (i : EvenIn) => step s i.1) Booted

variable {s : Frontend} {i : FrontendIn} {q : HalfQueue} {t : BitVec 32}

/-- What every running state satisfies. -/
structure Sound (s : Frontend) : Prop where
  flushQuiet : FlushQuiet s
  even_immuPc : EvenWord s.immu.immuPc
  even_fetchPc : EvenWord s.fetchPc
  represents : ∃ q, Represents s.fetch q

theorem immuPc_of_reset (h : (i.rst || i.flush) = true) :
    (step s i).immu.immuPc = s.immu.immuPc := by
  have hreset : ((s.immuIn i).rst || (s.immuIn i).flush) = true := h
  change (Immu.next i.exec s.immu (s.immuIn i)).mmu.immuPc = _
  rw [Immu.next, if_pos hreset]
  rfl

/-- `immu_pc` moves to `fetch_pc` or stays. -/
theorem immuPc_step : (step s i).immu.immuPc = s.fetchPc ∨ (step s i).immu.immuPc = s.immu.immuPc := by
  by_cases hrst : (i.rst || i.flush) = true
  · exact .inr (immuPc_of_reset hrst)
  · have hpc := Immu.imemReqSeq_immuPc (e := i.exec) (s := s.immu) (i := s.immuIn i)
      (Bool.eq_false_of_not_eq_true hrst)
    change (step s i).immu.immuPc = _ at hpc
    rw [hpc]
    split
    · exact .inl rfl
    · exact .inr rfl

theorem even_fetchPc_step (hs : EvenWord s.fetchPc) (hi : i.redirects = true → EvenWord i.npc) :
    EvenWord (step s i).fetchPc := by
  change EvenWord (nextPcSeq _ _ _ _ _ _)
  unfold nextPcSeq
  split_ifs with hredirects
  · exact hi hredirects
  · exact even_nextWord _
  · exact hs

theorem Sound.step (hs : Sound s) (hi : i.redirects = true → EvenWord i.npc) :
    Sound (step s i) := by
  obtain ⟨q, hq⟩ := hs.represents
  refine ⟨hs.flushQuiet.step, ?_, even_fetchPc_step hs.even_fetchPc hi,
    ⟨_, hq.getInstSeq (i := s.fetchIn i) hs.even_immuPc⟩⟩
  rcases immuPc_step (s := s) (i := i) with h | h
  · rw [h]
    exact hs.even_fetchPc
  · rw [h]
    exact hs.even_immuPc

theorem sound_of_booted (h : Booted s) : Sound s := by
  obtain ⟨s₀, ⟨i, hi⟩, ⟨himmu, -⟩, hrst, rfl⟩ := h
  have hredirects : (i.branchTaken || i.flush || i.rst) = true := by rw [hrst, Bool.or_true]
  refine ⟨?_, ?_, ?_, ⟨_, represents_of_rst (i := s₀.fetchIn i) hrst⟩⟩
  · refine FlushQuiet.step fun hset => ?_
    rw [himmu] at hset
    cases hset
  · have hkept : (Frontend.step s₀ i).immu.immuPc = s₀.immu.immuPc :=
      immuPc_of_reset (by rw [hrst, Bool.true_or])
    rw [hkept, himmu]
    decide
  · have htarget : (Frontend.step s₀ i).fetchPc = i.npc := if_pos hredirects
    rw [htarget]
    exact hi

theorem Running.sound (h : Running s) : Sound s :=
  Clocked.Reachable.invariant (P := Sound) (fun _ => sound_of_booted)
    (fun _ i hs => hs.step fun _ => i.2) h

theorem Sound.step_of_not_redirects (hs : Sound s) (hi : i.redirects = false) :
    Sound (Frontend.step s i) :=
  hs.step fun h => by rw [hi] at h; cases h

/-- The queue after a cycle. -/
def Sound.next (hs : Sound s) (q : HalfQueue) (i : FrontendIn) : HalfQueue :=
  q.step (s.fetchIn i) hs.even_immuPc

theorem Sound.represents_next (hs : Sound s) (hq : Represents s.fetch q) :
    Represents (Frontend.step s i).fetch (hs.next q i) := hq.getInstSeq hs.even_immuPc

/-- The queue after a cycle without a redirect: a new one that starts at `immu_pc`,
or the old one, popped if it may be, to which the word at its end may be appended. -/
theorem Sound.next_cases (hs : Sound s) (hq : Represents s.fetch q) (hi : i.redirects = false) :
    (s.stores i = true ∧ (s.fetch.fifoUpdate (s.fetchIn i)).popped = false ∧
      s.immu.immuPc ≠ q.endAddr ∧ ∃ word, hs.next q i = start s.immu.immuPc hs.even_immuPc word) ∨
    ∃ r, r = (if !i.stall && q.ready then q.pop else q) ∧ (hs.next q i).Extends r ∧
      (s.fetch.fifoUpdate (s.fetchIn i)).popped = (!i.stall && q.ready) ∧
      ((s.stores i = false ∧ hs.next q i = r) ∨
        (s.stores i = true ∧ s.immu.immuPc = q.endAddr ∧ r.halves.length ≤ 2 ∧
          ∃ word, hs.next q i = r.push word)) := by
  obtain ⟨hrst, hflush⟩ := rst_of_not_redirects hi
  have hopen : ((s.fetchIn i).rst || (s.fetchIn i).flush) = false := by
    change (i.rst || i.flush) = false
    rw [hrst, hflush, Bool.or_self]
  rcases fifoUpdate_cases hq (i := s.fetchIn i) hs.even_immuPc hopen with hrestart | ⟨r, hr, hpopped, hcase⟩
  · exact .inl hrestart
  · rw [hpopped] at hr
    refine .inr ⟨r, hr, ?_, hpopped, hcase⟩
    rcases hcase with ⟨-, hnext⟩ | ⟨-, -, -, word, hnext⟩
    · exact .inl hnext
    · exact .inr ⟨word, hnext⟩

/-- A stored word ends the queue, and nothing else moves its end. -/
theorem Sound.endAddr_next (hs : Sound s) (hq : Represents s.fetch q) (hi : i.redirects = false) :
    (hs.next q i).endAddr =
      if s.stores i then (s.immu.immuPc &&& ~~~3) + 4 else q.endAddr := by
  rcases hs.next_cases hq hi with ⟨hstores, -, -, word, hnext⟩ | ⟨r, hr, -, -, hcase⟩
  · rw [hnext, hstores, if_pos rfl]
    exact endAddr_start _ _
  · have hend : r.endAddr = q.endAddr := by
      rw [hr]
      exact endAddr_ite_pop _
    rcases hcase with ⟨hstores, hnext⟩ | ⟨hstores, hpc, hroom, word, hnext⟩
    · rw [hnext, hstores, if_neg Bool.false_ne_true, hend]
    · rw [hnext, hstores, if_pos rfl, endAddr_push hroom, hend, hpc,
        and_not_three_of_aligned q.endAddr_aligned]

/-- The IMMU holds the word that continues the queue. -/
def Continues (s : Frontend) (q : HalfQueue) : Prop :=
  s.immu.immuPc = q.endAddr ∧ s.fetchPc = q.endAddr + 4

/-- The stream after a redirect to `t`: PreFetch holds `t`, or the IMMU does, or the
words after it continue the queue. -/
def Follows (t : BitVec 32) (s : Frontend) (q : HalfQueue) : Prop :=
  s.fetchPc = t ∨ (s.immu.immuPc = t ∧ s.fetchPc = (t &&& ~~~3) + 4) ∨ Continues s q

theorem Continues.step (hs : Sound s) (hq : Represents s.fetch q) (hi : i.redirects = false)
    (h : Continues s q) : Continues (step s i) (hs.next q i) := by
  obtain ⟨hstored, hheld⟩ := step_of_not_redirects hs.flushQuiet hi
  have hend := hs.endAddr_next hq hi
  obtain ⟨hpc, hfetch⟩ := h
  cases hstores : s.stores i with
  | false =>
    obtain ⟨hpc', hfetch'⟩ := hheld hstores
    rw [hstores, if_neg Bool.false_ne_true] at hend
    exact ⟨by rw [hpc', hpc, hend], by rw [hfetch', hfetch, hend]⟩
  | true =>
    obtain ⟨hpc', hfetch'⟩ := hstored hstores
    have hword := and_not_three_of_aligned q.endAddr_aligned
    have hnext := and_not_three_add_four q.endAddr
    rw [hstores, if_pos rfl, hpc, hword] at hend
    rw [hword] at hnext
    exact ⟨by rw [hpc', hfetch, hend], by rw [hfetch', hfetch, hend, hnext]⟩

/-- Once the word of `t` is stored, the stream continues the queue. -/
theorem continues_of_stores (hs : Sound s) (hq : Represents s.fetch q) (hi : i.redirects = false)
    (hstores : s.stores i = true) (hpc : s.immu.immuPc = t)
    (hfetch : s.fetchPc = (t &&& ~~~3) + 4) : Continues (step s i) (hs.next q i) := by
  obtain ⟨hpc', hfetch'⟩ := (step_of_not_redirects hs.flushQuiet hi).1 hstores
  have hend := hs.endAddr_next hq hi
  rw [hstores, if_pos rfl, hpc] at hend
  refine ⟨by rw [hpc', hfetch, hend], ?_⟩
  rw [hfetch', hfetch, hend, and_not_three_add_four]

theorem Follows.step (hs : Sound s) (hq : Represents s.fetch q) (hi : i.redirects = false)
    (h : Follows t s q) : Follows t (step s i) (hs.next q i) := by
  obtain ⟨hstored, hheld⟩ := step_of_not_redirects hs.flushQuiet hi
  cases hstores : s.stores i with
  | false =>
    obtain ⟨hpc', hfetch'⟩ := hheld hstores
    rcases h with h | ⟨hpc, hfetch⟩ | h
    · exact .inl (hfetch'.trans h)
    · exact .inr (.inl ⟨hpc'.trans hpc, hfetch'.trans hfetch⟩)
    · exact .inr (.inr (h.step hs hq hi))
  | true =>
    obtain ⟨hpc', hfetch'⟩ := hstored hstores
    rcases h with h | ⟨hpc, hfetch⟩ | h
    · exact .inr (.inl ⟨hpc'.trans h, by rw [hfetch', h]⟩)
    · exact .inr (.inr (continues_of_stores hs hq hi hstores hpc hfetch))
    · exact .inr (.inr (h.step hs hq hi))

theorem follows_run {js : List FrontendIn} (hs : Sound s) (hq : Represents s.fetch q)
    (hjs : ∀ j ∈ js, j.redirects = false) (h : Follows t s q) :
    Sound (Clocked.run step s js) ∧ ∃ q', Represents (Clocked.run step s js).fetch q' ∧
      Follows t (Clocked.run step s js) q' := by
  refine Clocked.invariant_run
    (P := fun s => Sound s ∧ ∃ q, Represents s.fetch q ∧ Follows t s q) ?_ ⟨hs, q, hq, h⟩
  rintro s ⟨hs, q, hq, h⟩ j hj
  have hquiet := hjs j hj
  exact ⟨hs.step_of_not_redirects hquiet, _, hs.represents_next hq, h.step hs hq hquiet⟩

/-- The queue right after a word of the target has been stored. -/
theorem Follows.stored (hs : Sound s) (hq : Represents s.fetch q) (hi : i.redirects = false)
    (ht : EvenWord t) (h : Follows t s q) (hstores : s.stores i = true)
    (hword : s.immu.immuPc &&& ~~~3 = t &&& ~~~3) :
    (s.fetchPc = t ∧ (Frontend.step s i).immu.immuPc = t ∧
      (hs.next q i).endAddr = (t &&& ~~~3) + 4) ∨
    (Continues (Frontend.step s i) (hs.next q i) ∧ ∃ k, (hs.next q i).HoldsAt t k) := by
  have hend := hs.endAddr_next hq hi
  rw [hstores, if_pos rfl, hword] at hend
  obtain ⟨hpc', -⟩ := (step_of_not_redirects hs.flushQuiet hi).1 hstores
  -- A new queue begins at `immu_pc`; an appended word holds both its halves.
  have hthere : (s.immu.immuPc ≠ q.endAddr → s.immu.immuPc = t) →
      ∃ k, (hs.next q i).HoldsAt t k := by
    intro hpc
    rcases hs.next_cases hq hi with ⟨-, -, hne, word, hnext⟩ | ⟨r, hr, -, -, hcase⟩
    · have hholds := holdsAt_start hs.even_immuPc word
      rw [← hnext, hpc hne] at hholds
      exact ⟨0, hholds⟩
    · rcases hcase with ⟨hnot, -⟩ | ⟨-, hcont, hroom, word, hnext⟩
      · rw [hstores] at hnot
        cases hnot
      · rw [hnext]
        refine holdsAt_push hroom word ht ?_
        rw [hr, endAddr_ite_pop, ← hcont, hword]
  rcases h with h | ⟨hpc, hfetch⟩ | h
  · exact .inl ⟨h, hpc'.trans h, hend⟩
  · exact .inr ⟨continues_of_stores hs hq hi hstores hpc hfetch, hthere fun _ => hpc⟩
  · exact .inr ⟨h.step hs hq hi, hthere fun hne => absurd h.1 hne⟩

end Frontend

end Turtle
