import Turtle.Lib.Lanes

/-!
# Flat memories

A memory that maps every address to a byte. A word is read from its bytes, the
lowest first, and written to them.
-/

namespace FlatMemory

variable {a n : ℕ}

/-- The word of `k` bytes at an address. -/
def load (n : ℕ) (mem : BitVec a → BitVec 8) (addr : BitVec a) (k : ℕ) : BitVec n :=
  Lanes.pack n ((List.range k).map fun i => mem (addr + BitVec.ofNat a i))

/-- The memory with the bytes from an address on replaced. -/
def write (mem : BitVec a → BitVec 8) (addr : BitVec a) (bytes : List (BitVec 8)) :
    BitVec a → BitVec 8 :=
  fun b => bytes.getD (b - addr).toNat (mem b)

/-- The memory with a word of `k` bytes replaced. -/
def store (mem : BitVec a → BitVec 8) (addr : BitVec a) (k : ℕ) (v : BitVec n) :
    BitVec a → BitVec 8 :=
  write mem addr ((List.range k).map (Lanes.lane 8 v))

variable {mem : BitVec a → BitVec 8} {addr b : BitVec a} {k : ℕ}

/-- A word is read by shifting its bytes in, the highest first. -/
theorem load_eq_foldl :
    load n mem addr k = (List.range k).reverse.foldl (fun (v : BitVec n) i =>
      (v <<< 8) ||| (mem (addr + BitVec.ofNat a i)).setWidth n) 0 := by
  rw [load, ← Lanes.foldr_shift_eq_pack, List.foldr_map, List.foldl_reverse]

@[simp] theorem write_nil : write mem addr [] = mem := rfl

/-- Bytes that do not wrap around the address space can be written one by one. -/
theorem write_cons {x : BitVec 8} {xs : List (BitVec 8)} (h : (x :: xs).length ≤ 2 ^ a) :
    write mem addr (x :: xs) = write (Function.update mem addr x) (addr + 1) xs := by
  funext b
  have hlen : xs.length + 1 ≤ 2 ^ a := h
  have hnext : (b - (addr + 1)).toNat = (2 ^ a - 1 % 2 ^ a + (b - addr).toNat) % 2 ^ a := by
    rw [← sub_sub, BitVec.toNat_sub]
    simp
  unfold write
  by_cases hb : b = addr
  · subst hb
    have hbeyond : xs.length ≤ (b - (b + 1)).toNat := by
      rw [hnext, BitVec.sub_self]
      rcases Nat.eq_zero_or_pos a with rfl | ha
      · simp at hlen
        simp [hlen]
      · have hone : 1 % 2 ^ a = 1 := Nat.mod_eq_of_lt (Nat.one_lt_two_pow ha.ne')
        rw [hone, BitVec.toNat_zero, Nat.add_zero, Nat.mod_eq_of_lt (by omega)]
        omega
    rw [BitVec.sub_self, BitVec.toNat_zero, List.getD_cons_zero, List.getD_eq_default _ _ hbeyond,
      Function.update_self]
  · have hpos : (b - addr).toNat ≠ 0 := by
      intro hzero
      have hsub : b - addr = 0 := BitVec.eq_of_toNat_eq hzero
      exact hb (sub_eq_zero.mp hsub)
    have hlt := (b - addr).isLt
    have hone : 1 % 2 ^ a = 1 := Nat.mod_eq_of_lt (by omega)
    have hwrap : 2 ^ a - 1 + (b - addr).toNat = 2 ^ a + ((b - addr).toNat - 1) := by omega
    have hdist : (b - addr).toNat = (b - (addr + 1)).toNat + 1 := by
      rw [hnext, hone, hwrap, Nat.add_mod_left, Nat.mod_eq_of_lt (by omega)]
      omega
    rw [hdist, List.getD_cons_succ, Function.update_of_ne hb]

/-- What a stored word leaves at an address. -/
theorem store_apply (v : BitVec n) : store mem addr k v b =
    if (b - addr).toNat < k then Lanes.lane 8 v (b - addr).toNat else mem b := by
  unfold store write
  split_ifs with hin
  · rw [List.getD_eq_getElem _ _ (by simpa using hin), List.getElem_map, List.getElem_range]
  · rw [List.getD_eq_default _ _ (by simpa using hin)]

end FlatMemory
