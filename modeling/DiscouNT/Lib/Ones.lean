import Mathlib.Algebra.BigOperators.Group.List.Basic
import Mathlib.Tactic.Ring

/-!
# Lib.Ones

One's-complement arithmetic on `0 .. M`, where 0 and `M` both stand for zero. A sum of such numbers
is the sum of integers, reduced modulo `M` to the range `1 .. M`, unless everything is 0 (`rep`). So a
sum is recognised by its class modulo `M` and by whether it is 0 (`eq_rep`), and a number and its
complement make `M` (`rep_add_complement`).
-/

namespace Lib
namespace Ones

variable {M a b s r : Nat}

/-- Addition with the carry out of the top added at the bottom. -/
def add (M a b : Nat) : Nat := if a + b ≤ M then a + b else a + b - M

def sum (M : Nat) (l : List Nat) : Nat := l.foldl (add M) 0

/-- The complement of a number, bit by bit where `M` has all bits set. -/
def complement (M a : Nat) : Nat := M - a

def rep (M s : Nat) : Nat := if s = 0 then 0 else (s - 1) % M + 1

theorem rep_zero (M : Nat) : rep M 0 = 0 := rfl

theorem rep_le (hM : 0 < M) (s : Nat) : rep M s ≤ M := by
  rw [rep]
  split
  · omega
  · exact Nat.mod_lt _ hM

theorem rep_eq_zero_iff : rep M s = 0 ↔ s = 0 := by
  rw [rep]
  split
  · simpa
  · exact iff_of_false (by omega) ‹_›

theorem rep_mod (M s : Nat) : rep M s % M = s % M := by
  rw [rep]
  split
  · rename_i hs
    rw [hs]
  · rename_i hs
    rw [Nat.mod_add_mod, Nat.sub_add_cancel (Nat.pos_of_ne_zero hs)]

theorem rep_add_mul (M s : Nat) : rep M s + M * ((s - 1) / M) = s := by
  rw [rep]
  split
  · rename_i hs
    simp [hs]
  · have := Nat.mod_add_div (s - 1) M
    omega

theorem eq_rep (hr : r ≤ M) (hzero : r = 0 ↔ s = 0) (hmod : r % M = s % M) : r = rep M s := by
  by_cases hs : s = 0
  · rw [hzero.mpr hs, hs, rep_zero]
  have hr0 : r ≠ 0 := fun h => hs (hzero.mp h)
  have hM : 0 < M := by omega
  have hrep0 : rep M s ≠ 0 := fun h => hs (rep_eq_zero_iff.mp h)
  have hrep := rep_le hM s
  have hmod' : r % M = rep M s % M := by rw [rep_mod, hmod]
  rcases Nat.lt_or_eq_of_le hr with hlt | rfl
  · rcases Nat.lt_or_eq_of_le hrep with hlt' | heq
    · rwa [Nat.mod_eq_of_lt hlt, Nat.mod_eq_of_lt hlt'] at hmod'
    · rw [heq, Nat.mod_self, Nat.mod_eq_of_lt hlt] at hmod'
      exact absurd hmod' hr0
  · rcases Nat.lt_or_eq_of_le hrep with hlt' | heq
    · rw [Nat.mod_self, Nat.mod_eq_of_lt hlt'] at hmod'
      exact absurd hmod'.symm hrep0
    · exact heq.symm

theorem add_eq_rep (ha : a ≤ M) (hb : b ≤ M) : add M a b = rep M (a + b) := by
  rw [add]
  split
  · rename_i hle
    exact eq_rep hle Iff.rfl rfl
  · refine eq_rep (by omega) ⟨by omega, by omega⟩ ?_
    rw [Nat.mod_eq_sub_mod (show M ≤ a + b by omega)]

theorem rep_rep_add (hM : 0 < M) (s b : Nat) : rep M (rep M s + b) = rep M (s + b) := by
  refine eq_rep (rep_le hM _) ?_ ?_
  · rw [rep_eq_zero_iff, Nat.add_eq_zero_iff, Nat.add_eq_zero_iff, rep_eq_zero_iff]
  · rw [rep_mod, Nat.add_mod, rep_mod, ← Nat.add_mod]

theorem sum_eq_rep (hM : 0 < M) {l : List Nat} (hl : ∀ a ∈ l, a ≤ M) : sum M l = rep M l.sum := by
  have hfold : ∀ {l : List Nat} {s : Nat}, (∀ a ∈ l, a ≤ M) →
      l.foldl (add M) (rep M s) = rep M (s + l.sum) := by
    intro l
    induction l with
    | nil => intro s _; rfl
    | cons a l ih =>
      intro s hl
      rw [List.forall_mem_cons] at hl
      rw [List.foldl_cons, add_eq_rep (rep_le hM s) hl.1, rep_rep_add hM, ih hl.2, List.sum_cons,
        Nat.add_assoc]
  have := hfold (s := 0) hl
  rwa [rep_zero, Nat.zero_add] at this

/-- A sum with the complement of what stands for it is the zero with all bits set. -/
theorem rep_add_complement (hM : 0 < M) (s : Nat) : rep M (s + complement M (rep M s)) = M := by
  have hle := rep_le hM s
  have hself := rep_add_mul M s
  refine (eq_rep (le_refl M) ⟨by omega, ?_⟩ ?_).symm
  · rw [complement]
    omega
  · have hsum : s + complement M (rep M s) = M * ((s - 1) / M + 1) := by
      rw [complement, Nat.mul_add, Nat.mul_one]
      omega
    rw [hsum, Nat.mod_self, Nat.mul_mod_right]

end Ones
end Lib
