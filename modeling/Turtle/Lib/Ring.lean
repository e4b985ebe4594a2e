import Mathlib.Data.List.Basic
import Mathlib.Logic.Function.Basic

/-!
# Ring buffers

A ring of `cap` slots holds a queue between two indices that wrap. The queue is empty when
the indices are equal, so at most `cap - 1` slots are in use. Writing at the end appends to
the queue, and moving the begin drops its first element.
-/

namespace Ring

variable {α : Type*}

/-- The index after `i`. -/
def next (cap i : ℕ) : ℕ := if i + 1 = cap then 0 else i + 1

/-- The slot at distance `k` from the begin. -/
def slot (cap b k : ℕ) : ℕ := if b + k < cap then b + k else b + k - cap

/-- The number of queued elements. -/
def size (cap b e : ℕ) : ℕ := if b ≤ e then e - b else e + cap - b

/-- The queue, oldest element first. -/
def contents (cap : ℕ) (buf : ℕ → α) (b e : ℕ) : List α :=
  (List.range (size cap b e)).map fun k => buf (slot cap b k)

variable {cap b e k : ℕ} {buf buf' : ℕ → α}

/-! ### Indices -/

theorem next_lt (hb : b < cap) : next cap b < cap := by
  unfold next
  split <;> omega

theorem size_lt (hb : b < cap) (he : e < cap) : size cap b e < cap := by
  unfold size
  split <;> omega

theorem size_eq_zero_iff (hb : b < cap) : size cap b e = 0 ↔ e = b := by
  unfold size
  split <;> omega

/-- The end meets the begin when all slots but one are in use. -/
theorem next_eq_iff (hb : b < cap) (he : e < cap) :
    next cap e = b ↔ size cap b e + 1 = cap := by
  unfold next size
  split <;> split <;> omega

theorem size_next_end (hb : b < cap) (hroom : next cap e ≠ b) :
    size cap b (next cap e) = size cap b e + 1 := by
  unfold next size at *
  split at hroom <;> split <;> split <;> split <;> omega

theorem size_next_begin (hb : b < cap) (he : e < cap) (hne : e ≠ b) :
    size cap b e = size cap (next cap b) e + 1 := by
  unfold next size
  split <;> split <;> split <;> omega

theorem slot_lt (hb : b < cap) (hk : k < cap) : slot cap b k < cap := by
  unfold slot
  split <;> omega

/-- The end is the slot behind the queue. -/
theorem slot_size (hb : b < cap) (he : e < cap) : slot cap b (size cap b e) = e := by
  unfold slot size
  split <;> split <;> omega

theorem slot_ne_end (hb : b < cap) (hk : k < size cap b e) :
    slot cap b k ≠ e := by
  unfold slot size at *
  split at hk <;> split <;> omega

theorem slot_next (hk : k + 1 < cap) :
    slot cap (next cap b) k = slot cap b (k + 1) := by
  unfold slot next
  split <;> split <;> split <;> omega

/-! ### The queue -/

theorem length_contents : (contents cap buf b e).length = size cap b e := by
  rw [contents, List.length_map, List.length_range]

theorem contents_eq_nil_iff (hb : b < cap) : contents cap buf b e = [] ↔ e = b := by
  rw [← List.length_eq_zero_iff, length_contents, size_eq_zero_iff hb]

/-- The queue only depends on the slots of the ring. -/
theorem contents_congr (hb : b < cap) (he : e < cap) (h : ∀ k < cap, buf k = buf' k) :
    contents cap buf b e = contents cap buf' b e := by
  have hsize := size_lt hb he
  refine List.map_congr_left fun k hk => ?_
  rw [List.mem_range] at hk
  exact h _ (slot_lt hb (by omega))

/-- Writing at the end appends. -/
theorem contents_push (hb : b < cap) (he : e < cap) (hroom : next cap e ≠ b) (x : α) :
    contents cap (Function.update buf e x) b (next cap e) = contents cap buf b e ++ [x] := by
  rw [contents, size_next_end hb hroom, List.range_succ, List.map_append, List.map_singleton,
    slot_size hb he, Function.update_self]
  congr 1
  refine List.map_congr_left fun k hk => ?_
  exact Function.update_of_ne (slot_ne_end hb (List.mem_range.mp hk)) ..

/-- Moving the begin drops the oldest element. -/
theorem contents_pop (hb : b < cap) (he : e < cap) (hne : e ≠ b) :
    contents cap buf b e = buf b :: contents cap buf (next cap b) e := by
  have hsize := size_lt (next_lt hb) he
  have hlt := size_lt hb he
  have hfirst : slot cap b 0 = b := by
    unfold slot
    split <;> omega
  rw [size_next_begin hb he hne] at hlt
  rw [contents, size_next_begin hb he hne, List.range_succ_eq_map, List.map_cons, List.map_map,
    hfirst]
  congr 1
  refine List.map_congr_left fun k hk => ?_
  rw [List.mem_range] at hk
  exact congrArg buf (slot_next (by omega)).symm

end Ring
