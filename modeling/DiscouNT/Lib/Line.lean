import Mathlib.Tactic.LinearCombination
import Mathlib.Tactic.Ring

/-!
# Lib.Line

A line drawn with an error term, by steps of `a` columns in all and `b` rows. A step first looks
whether to move on in the columns, and then, at the error that leaves, whether to move on in the
rows. When the rows are not fewer than the columns, or fewer than half of them, the line ends in its
end (`steep_end`, `shallow_end`); in between it passes above it (`between_end`).
-/

namespace Lib
namespace Line

structure Progress where
  i : Int
  j : Int
  e : Int
deriving DecidableEq, Repr

def start (a b : Int) : Progress := ⟨0, 0, a - b⟩

def moveColumn (b : Int) (s : Progress) : Progress :=
  if 2 * s.e ≥ -b then ⟨s.i + 1, s.j, s.e - b⟩ else s

def moveRow (a : Int) (s : Progress) : Progress :=
  if 2 * s.e ≤ a then ⟨s.i, s.j + 1, s.e + a⟩ else s

def step (a b : Int) (s : Progress) : Progress := moveRow a (moveColumn b s)

def after (a b : Int) (k : Nat) : Progress := (step a b)^[k] (start a b)

@[simp] theorem after_zero (a b : Int) : after a b 0 = start a b := rfl

theorem after_succ (a b : Int) (k : Nat) : after a b (k + 1) = step a b (after a b k) :=
  Function.iterate_succ_apply' _ _ _

theorem step_cases (a b : Int) (s : Progress) :
    (-b ≤ 2 * s.e ∧ 2 * (s.e - b) ≤ a ∧ step a b s = ⟨s.i + 1, s.j + 1, s.e - b + a⟩) ∨
    (-b ≤ 2 * s.e ∧ a < 2 * (s.e - b) ∧ step a b s = ⟨s.i + 1, s.j, s.e - b⟩) ∨
    (2 * s.e < -b ∧ 2 * s.e ≤ a ∧ step a b s = ⟨s.i, s.j + 1, s.e + a⟩) ∨
    (2 * s.e < -b ∧ a < 2 * s.e ∧ step a b s = ⟨s.i, s.j, s.e⟩) := by
  rw [step, moveColumn]
  by_cases hcolumn : 2 * s.e ≥ -b
  · rw [if_pos hcolumn, moveRow]
    by_cases hrow : 2 * (s.e - b) ≤ a
    · rw [if_pos hrow]
      exact .inl ⟨hcolumn, hrow, rfl⟩
    · rw [if_neg hrow]
      exact .inr (.inl ⟨hcolumn, by omega, rfl⟩)
  · rw [if_neg hcolumn, moveRow]
    by_cases hrow : 2 * s.e ≤ a
    · rw [if_pos hrow]
      exact .inr (.inr (.inl ⟨by omega, hrow, rfl⟩))
    · rw [if_neg hrow]
      exact .inr (.inr (.inr ⟨by omega, by omega, rfl⟩))

/-- The error says how far the columns are behind the rows. -/
theorem after_error (a b : Int) (k : Nat) :
    (after a b k).e = a - b - b * (after a b k).i + a * (after a b k).j := by
  induction k with
  | zero =>
    rw [after_zero, start]
    ring
  | succ k ih =>
    rw [after_succ]
    rcases step_cases a b (after a b k) with ⟨-, -, heq⟩ | ⟨-, -, heq⟩ | ⟨-, -, heq⟩ | ⟨-, -, heq⟩
    all_goals
      rw [heq]
      dsimp only
      linear_combination ih

theorem step_moves (a b : Int) (s : Progress) :
    ((step a b s).i = s.i ∨ (step a b s).i = s.i + 1) ∧
      ((step a b s).j = s.j ∨ (step a b s).j = s.j + 1) := by
  rcases step_cases a b s with ⟨-, -, heq⟩ | ⟨-, -, heq⟩ | ⟨-, -, heq⟩ | ⟨-, -, heq⟩
  all_goals
    rw [heq]
    dsimp only
    omega

theorem after_nonneg (a b : Int) (k : Nat) : 0 ≤ (after a b k).i ∧ 0 ≤ (after a b k).j := by
  induction k with
  | zero => exact ⟨Int.le_refl 0, Int.le_refl 0⟩
  | succ k ih =>
    rw [after_succ]
    have hmoves := step_moves a b (after a b k)
    omega

variable {a b : Int}

theorem steep_after (ha : 0 ≤ a) (hab : a ≤ b) (hb : 0 < b) (k : Nat) :
    (after a b k).j = k ∧ 2 * a - 3 * b ≤ 2 * (after a b k).e ∧
      2 * (after a b k).e < 2 * a - b := by
  induction k with
  | zero =>
    rw [after_zero, start]
    refine ⟨rfl, ?_, ?_⟩
    · dsimp only
      omega
    · dsimp only
      omega
  | succ k ih =>
    rw [after_succ]
    rcases step_cases a b (after a b k) with ⟨h1, h2, heq⟩ | ⟨h1, h2, heq⟩ | ⟨h1, h2, heq⟩ |
      ⟨h1, h2, heq⟩
    all_goals
      rw [heq]
      dsimp only
      omega

theorem steep_le (ha : 0 ≤ a) (hab : a ≤ b) (hb : 0 < b) {k : Nat} (hk : (k : Int) ≤ b) :
    (after a b k).i ≤ a := by
  obtain ⟨hj, hlow, -⟩ := steep_after ha hab hb k
  rw [after_error, hj] at hlow
  by_contra hpast
  have hrows : a * k ≤ a * b := Int.mul_le_mul_of_nonneg_left hk ha
  have hcolumns : b * (a + 1) ≤ b * (after a b k).i :=
    Int.mul_le_mul_of_nonneg_left (by omega) (by omega)
  have hexpand : b * (a + 1) = a * b + b := by ring
  omega

theorem steep_end (ha : 0 ≤ a) (hab : a ≤ b) (hb : 0 < b) {k : Nat} (hk : (k : Int) = b) :
    (after a b k).i = a ∧ (after a b k).j = b := by
  obtain ⟨hj, -, hhigh⟩ := steep_after ha hab hb k
  refine ⟨Int.le_antisymm (steep_le ha hab hb (Int.le_of_eq hk)) ?_, hj.trans hk⟩
  rw [after_error, hj, hk] at hhigh
  by_contra hbehind
  have hcolumns : b * (after a b k).i ≤ b * (a - 1) :=
    Int.mul_le_mul_of_nonneg_left (by omega) (by omega)
  have hexpand : b * (a - 1) = a * b - b := by ring
  omega

theorem shallow_after (hb : 0 ≤ b) (hab : 2 * b < a) (k : Nat) :
    (after a b k).i = k ∧ -b ≤ 2 * (after a b k).e ∧ 2 * (after a b k).e ≤ 3 * a ∧
      (0 < k → a < 2 * (after a b k).e ∨ 2 * a - 3 * b ≤ 2 * (after a b k).e) := by
  induction k with
  | zero =>
    rw [after_zero, start]
    refine ⟨rfl, ?_, ?_, fun h => absurd h (Nat.lt_irrefl 0)⟩
    · dsimp only
      omega
    · dsimp only
      omega
  | succ k ih =>
    rw [after_succ]
    rcases step_cases a b (after a b k) with ⟨h1, h2, heq⟩ | ⟨h1, h2, heq⟩ | ⟨h1, h2, heq⟩ |
      ⟨h1, h2, heq⟩
    all_goals
      rw [heq]
      dsimp only
      omega

theorem shallow_le (hb : 0 ≤ b) (hab : 2 * b < a) {k : Nat} (hk : (k : Int) ≤ a) :
    (after a b k).j ≤ b := by
  obtain ⟨hi, -, hhigh, -⟩ := shallow_after hb hab k
  rw [after_error, hi] at hhigh
  by_contra hpast
  have hrows : a * (b + 1) ≤ a * (after a b k).j :=
    Int.mul_le_mul_of_nonneg_left (by omega) (by omega)
  have hexpand : a * (b + 1) = b * a + a := by ring
  have hcolumns : b * k ≤ b * a := Int.mul_le_mul_of_nonneg_left hk hb
  omega

theorem shallow_end (hb : 0 ≤ b) (hab : 2 * b < a) {k : Nat} (hk : (k : Int) = a) :
    (after a b k).i = a ∧ (after a b k).j = b := by
  obtain ⟨hi, -, -, hlow⟩ := shallow_after hb hab k
  refine ⟨hi.trans hk, Int.le_antisymm (shallow_le hb hab (Int.le_of_eq hk)) ?_⟩
  have hlow := hlow (by omega)
  rw [after_error, hi, hk] at hlow
  by_contra hbehind
  have hrows : a * (after a b k).j ≤ a * (b - 1) :=
    Int.mul_le_mul_of_nonneg_left (by omega) (by omega)
  have hexpand : a * (b - 1) = b * a - a := by ring
  omega

/-- Where the line ends in its end it takes the larger number of steps, each in the longer direction. -/
theorem path (ha : 0 ≤ a) (hb : 0 ≤ b) (h : ¬ (b < a ∧ a ≤ 2 * b)) {n : Nat}
    (hn : (n : Int) = max a b) :
    ((after a b n).i = a ∧ (after a b n).j = b) ∧
    (∀ k ≤ n, (after a b k).i ≤ a ∧ (after a b k).j ≤ b) ∧
    ((∀ k ≤ n, (after a b k).i = k) ∨ ∀ k ≤ n, (after a b k).j = k) := by
  by_cases hab : a ≤ b
  · rw [Int.max_eq_right hab] at hn
    rcases eq_or_lt_of_le hb with hzero | hpos
    · obtain rfl : n = 0 := by omega
      obtain rfl : a = 0 := by omega
      subst hzero
      refine ⟨⟨rfl, rfl⟩, fun k hk => ?_, .inl fun k hk => ?_⟩
      all_goals
        obtain rfl := Nat.le_zero.mp hk
        decide
    · refine ⟨steep_end ha hab hpos hn, fun k hk => ?_, .inr fun k _ => (steep_after ha hab hpos k).1⟩
      have hj := (steep_after ha hab hpos k).1
      exact ⟨steep_le ha hab hpos (by omega), by omega⟩
  · rw [Int.max_eq_left (by omega)] at hn
    have hshallow : 2 * b < a := by omega
    refine ⟨shallow_end hb hshallow hn, fun k hk => ?_, .inl fun k _ => (shallow_after hb hshallow k).1⟩
    have hi := (shallow_after hb hshallow k).1
    exact ⟨by omega, shallow_le hb hshallow (by omega)⟩

/-- Every step moves on in the columns, and the rows are ahead from the first step on. -/
theorem between_after (hba : b < a) (hab : a ≤ 2 * b) (k : Nat) :
    (after a b k).i = k ∧ a - b ≤ (after a b k).e ∧ (0 < k → a - b < (after a b k).e) := by
  induction k with
  | zero =>
    rw [after_zero, start]
    exact ⟨rfl, Int.le_refl _, fun h => absurd h (Nat.lt_irrefl 0)⟩
  | succ k ih =>
    rw [after_succ]
    rcases step_cases a b (after a b k) with ⟨h1, h2, heq⟩ | ⟨h1, h2, heq⟩ | ⟨h1, h2, heq⟩ |
      ⟨h1, h2, heq⟩
    all_goals
      rw [heq]
      dsimp only
      omega

theorem between_end (hba : b < a) (hab : a ≤ 2 * b) {k : Nat} (hk : (k : Int) = a) :
    (after a b k).i = a ∧ b < (after a b k).j := by
  obtain ⟨hi, -, hahead⟩ := between_after hba hab k
  refine ⟨hi.trans hk, ?_⟩
  have hahead := hahead (by omega)
  rw [after_error, hi, hk] at hahead
  by_contra hbehind
  have hrows : a * (after a b k).j ≤ a * b := Int.mul_le_mul_of_nonneg_left (by omega) (by omega)
  have hswap : b * a = a * b := Int.mul_comm b a
  omega

end Line
end Lib
