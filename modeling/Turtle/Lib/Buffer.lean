import Mathlib.Data.List.Basic
import Mathlib.Data.List.TakeDrop

/-!
# Checked buffers

A buffer is a list of cells. An access to a cell outside the buffer gives `none`, and a loop
that makes one gives `none` as well. The loops below go over consecutive cells: each succeeds
exactly when all its cells lie inside, and then replaces them by what it was given.
-/

namespace Buffer

variable {α : Type*}

/-- A write to one cell. -/
def write (buf : List α) (k : ℕ) (a : α) : Option (List α) :=
  if k < buf.length then some (buf.set k a) else none

/-- A loop that writes a list from a cell on. -/
def writeAll (buf : List α) (k : ℕ) : List α → Option (List α)
  | [] => some buf
  | a :: as => (write buf k a).bind fun buf => writeAll buf (k + 1) as

/-- A loop that copies cells of one buffer to another, from an index of each on. -/
def copy (src : List α) (i : ℕ) (dst : List α) (k : ℕ) : ℕ → Option (List α)
  | 0 => some dst
  | n + 1 => src[i]?.bind fun a => (write dst k a).bind fun dst => copy src (i + 1) dst (k + 1) n

/-- A loop that writes one value to the first `n` cells, the last of them first. -/
def fillDown (a : α) (buf : List α) : ℕ → Option (List α)
  | 0 => some buf
  | n + 1 => (write buf n a).bind fun buf => fillDown a buf n

/-- The length of the string at the start of a buffer: the search for the terminator. -/
def strlen [BEq α] (nul : α) (buf : List α) : Option ℕ := buf.findIdx? (· == nul)

variable {buf dst src as : List α} {i k n : ℕ} {a : α}

/-- The buffer with the cells from `k` on replaced. -/
def overlay (buf : List α) (k : ℕ) (as : List α) : List α :=
  buf.take k ++ as ++ buf.drop (k + as.length)

@[simp] theorem overlay_nil : overlay buf k [] = buf := by
  rw [overlay, List.append_nil, List.length_nil, Nat.add_zero, List.take_append_drop]

/-- The first cell of an overlay can be written before the others. -/
theorem overlay_cons (h : k < buf.length) :
    overlay buf k (a :: as) = overlay (buf.set k a) (k + 1) as := by
  have htake : (buf.set k a).take (k + 1) = buf.take k ++ [a] := by
    rw [List.take_succ_eq_append_getElem (by rwa [List.length_set]), List.getElem_set_self,
      List.take_set_of_le (Nat.le_refl k)]
  have hdrop : (buf.set k a).drop (k + 1 + as.length) = buf.drop (k + 1 + as.length) :=
    List.drop_set_of_lt (by omega)
  have hindex : k + (a :: as).length = k + 1 + as.length := by
    rw [List.length_cons]
    omega
  rw [overlay, overlay, htake, hdrop, hindex, List.append_assoc (buf.take k) [a],
    List.singleton_append]

/-- A loop of writes that stays inside the buffer. -/
theorem writeAll_eq (h : k + as.length ≤ buf.length) :
    writeAll buf k as = some (overlay buf k as) := by
  induction as generalizing buf k with
  | nil => rw [writeAll, overlay_nil]
  | cons a as ih =>
    rw [List.length_cons] at h
    have hk : k < buf.length := by omega
    have hrest : k + 1 + as.length ≤ (buf.set k a).length := by
      rw [List.length_set]
      omega
    rw [writeAll, write, if_pos hk, Option.bind_some, ih hrest, overlay_cons hk]

/-- A loop of writes can be cut in two. -/
theorem writeAll_append (bs : List α) : writeAll buf k (as ++ bs) =
    (writeAll buf k as).bind fun buf => writeAll buf (k + as.length) bs := by
  induction as generalizing buf k with
  | nil => rfl
  | cons a as ih =>
    rw [List.cons_append, writeAll, writeAll, Option.bind_assoc]
    refine congrArg (Option.bind _) (funext fun buf => ?_)
    rw [ih, List.length_cons, Nat.add_right_comm, Nat.add_assoc]

/-- A copy that stays inside both buffers. -/
theorem copy_eq (hsrc : i + n ≤ src.length) (hdst : k + n ≤ dst.length) :
    copy src i dst k n = some (overlay dst k ((src.drop i).take n)) := by
  induction n generalizing i k dst with
  | zero => rw [copy, List.take_zero, overlay_nil]
  | succ n ih =>
    have hi : i < src.length := by omega
    have hk : k < dst.length := by omega
    have hrest : k + 1 + n ≤ (dst.set k src[i]).length := by
      rw [List.length_set]
      omega
    have hhead : (src.drop i).take (n + 1) = src[i] :: (src.drop (i + 1)).take n := by
      rw [List.drop_eq_getElem_cons hi, List.take_succ_cons]
    rw [copy, List.getElem?_eq_getElem hi, Option.bind_some, write, if_pos hk, Option.bind_some,
      ih (by omega) hrest, hhead, overlay_cons hk]

/-- A copy that goes past the end of one of the buffers. -/
theorem copy_eq_none (hn : 0 < n) (h : src.length < i + n ∨ dst.length < k + n) :
    copy src i dst k n = none := by
  induction n generalizing i k dst with
  | zero => exact absurd hn (Nat.lt_irrefl 0)
  | succ n ih =>
    unfold copy
    by_cases hi : i < src.length
    · rw [List.getElem?_eq_getElem hi, Option.bind_some, write]
      by_cases hk : k < dst.length
      · have hpos : 0 < n := by omega
        rw [if_pos hk, Option.bind_some]
        apply ih hpos
        rw [List.length_set]
        omega
      · rw [if_neg hk, Option.bind_none]
    · rw [List.getElem?_eq_none (Nat.le_of_not_lt hi), Option.bind_none]

theorem fillDown_eq (h : n ≤ buf.length) :
    fillDown a buf n = some (List.replicate n a ++ buf.drop n) := by
  induction n generalizing buf with
  | zero => rfl
  | succ n ih =>
    have hn : n < buf.length := h
    have hrest : n ≤ (buf.set n a).length := by
      rw [List.length_set]
      exact Nat.le_of_lt hn
    have hdrop : (buf.set n a).drop n = a :: buf.drop (n + 1) := by
      rw [List.drop_eq_getElem_cons (by rwa [List.length_set]), List.getElem_set_self,
        List.drop_set_of_lt (Nat.lt_succ_self n)]
    rw [fillDown, write, if_pos hn, Option.bind_some, ih hrest, hdrop, List.replicate_succ',
      List.append_assoc, List.singleton_append]

section Strings

variable [BEq α] {nul : α}

theorem strlen_lt (h : strlen nul buf = some n) : n < buf.length := by
  obtain ⟨hn, -, -⟩ := List.findIdx?_eq_some_iff_getElem.mp h
  exact hn

variable [LawfulBEq α]

/-- A string ends at its first terminator. -/
theorem strlen_append (h : nul ∉ as) (rest : List α) :
    strlen nul (as ++ nul :: rest) = some as.length := by
  induction as with
  | nil =>
    have hfirst : (nul == nul) = true := beq_self_eq_true nul
    rw [List.nil_append, strlen, List.findIdx?_cons, hfirst]
    rfl
  | cons a as ih =>
    have hne : (a == nul) = false := beq_false_of_ne fun heq => h (heq ▸ List.mem_cons_self)
    have htail := ih fun hmem => h (List.mem_cons_of_mem _ hmem)
    unfold strlen at htail ⊢
    rw [List.cons_append, List.findIdx?_cons, hne, htail]
    rfl

/-- The search leaves a buffer that holds no terminator. -/
theorem strlen_eq_none (h : nul ∉ buf) : strlen nul buf = none := by
  rw [strlen, List.findIdx?_eq_none_iff]
  intro a ha
  exact beq_false_of_ne fun heq => h (heq ▸ ha)

end Strings

end Buffer
