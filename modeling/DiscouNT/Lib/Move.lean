import Mathlib.Data.List.Basic
import Mathlib.Data.List.GetD

/-!
# Lib.Move

Arrays with integer indices whose entries are copied one by one: in from another array, or within
the array. A copy within the array keeps what it reads when it goes up to move entries down, and
down to move entries up. `slice` reads a part of an array as a list.
-/

namespace Lib

open List Function

variable {α : Type} {m m' : Int → α} {f : Int → α} {a d s i j : Int} {k n : Nat}

/-- `for (i = 0; i < n; i++) m[d + i] = f[i];` -/
def copyIn (m : Int → α) (d : Int) (f : Int → α) : Nat → Int → α
  | 0 => m
  | n + 1 => update (copyIn m d f n) (d + n) (f n)

/-- `for (i = 0; i < n; i++) m[d + i] = m[s + i];` -/
def moveForward (m : Int → α) (d s : Int) : Nat → Int → α
  | 0 => m
  | n + 1 => update (moveForward m d s n) (d + n) (moveForward m d s n (s + n))

/-- `for (i = n - 1; i >= 0; i--) m[d + i] = m[s + i];` -/
def moveBackward (m : Int → α) (d s : Int) : Nat → Int → α
  | 0 => m
  | n + 1 => moveBackward (update m (d + n) (m (s + n))) d s n

theorem copyIn_apply : copyIn m d f n a = if d ≤ a ∧ a < d + n then f (a - d) else m a := by
  induction n with
  | zero => rw [copyIn, if_neg (by omega)]
  | succ n ih =>
    rw [copyIn, update_apply, ih]
    by_cases ha : a = d + n
    · rw [if_pos ha, if_pos (by omega)]
      congr 1
      omega
    · rw [if_neg ha]
      exact if_congr (by omega) rfl rfl

theorem moveForward_apply (h : d ≤ s) :
    moveForward m d s n a = if d ≤ a ∧ a < d + n then m (s + (a - d)) else m a := by
  induction n generalizing a with
  | zero => rw [moveForward, if_neg (by omega)]
  | succ n ih =>
    rw [moveForward, update_apply]
    by_cases ha : a = d + n
    · -- what is read has not been written yet
      rw [if_pos ha, if_pos (by omega), ih]
      by_cases hin : d ≤ s + n ∧ s + n < d + n
      · omega
      · rw [if_neg hin]
        congr 1
        omega
    · rw [if_neg ha, ih]
      exact if_congr (by omega) rfl rfl

theorem moveBackward_apply (h : s ≤ d) :
    moveBackward m d s n a = if d ≤ a ∧ a < d + n then m (s + (a - d)) else m a := by
  induction n generalizing m with
  | zero => rw [moveBackward, if_neg (by omega)]
  | succ n ih =>
    rw [moveBackward, ih, update_apply, update_apply]
    by_cases ha : a = d + n
    · rw [if_neg (by omega), if_pos ha, if_pos (by omega)]
      congr 1
      omega
    · rw [if_neg ha]
      by_cases hin : d ≤ a ∧ a < d + n
      · rw [if_pos hin, if_neg (by omega), if_pos (by omega)]
      · rw [if_neg hin, if_neg (by omega)]

def slice (m : Int → α) (i : Int) (n : Nat) : List α := (List.range n).map fun k : Nat => m (i + k)

@[simp] theorem length_slice : (slice m i n).length = n := by simp [slice]

@[simp] theorem slice_zero : slice m i 0 = [] := rfl

theorem slice_add : slice m i (k + n) = slice m i k ++ slice m (i + k) n := by
  simp only [slice, range_add, map_append, map_map, comp_def, Int.natCast_add, Int.add_assoc]

theorem slice_congr (h : ∀ k : Nat, k < n → m (i + k) = m' (j + k)) :
    slice m i n = slice m' j n :=
  map_congr_left fun k hk => h k (mem_range.mp hk)

theorem take_slice (h : k ≤ n) : (slice m i n).take k = slice m i k := by
  obtain ⟨l, rfl⟩ := Nat.exists_eq_add_of_le h
  rw [slice_add]
  exact take_left' length_slice

theorem drop_slice (h : k ≤ n) : (slice m i n).drop k = slice m (i + k) (n - k) := by
  obtain ⟨l, rfl⟩ := Nat.exists_eq_add_of_le h
  rw [slice_add, Nat.add_sub_cancel_left]
  exact drop_left' length_slice

theorem slice_getD (l : List α) (b : α) (h : n ≤ l.length) :
    slice (fun i => l.getD i.toNat b) 0 n = l.take n := by
  refine ext_getElem (by simp [h]) fun k hk hk' => ?_
  simp only [length_slice] at hk
  simp only [slice, getElem_map, getElem_range, getElem_take, Int.zero_add, Int.toNat_natCast]
  exact getD_eq_getElem _ _ (by omega)

end Lib
