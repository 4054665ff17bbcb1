import Mathlib.Data.List.Basic

/-!
# Lib.Tasks

A stack of tasks over a state: the top task acts on the state and is replaced by the tasks it gives
rise to. It is the explicit form of a recursion whose calls go through callbacks. There are three
rules: one for invariants, one for a measure that makes the stack run empty, and one for a stack
that never does.
-/

namespace Lib

section Tasks

variable {τ σ : Type} (act : τ → σ → List τ × σ)

def advance : List τ × σ → List τ × σ
  | ([], s) => ([], s)
  | (t :: ts, s) => ((act t s).1 ++ ts, (act t s).2)

def drive : Nat → List τ × σ → List τ × σ
  | 0, m => m
  | n + 1, m => drive n (advance act m)

variable {act}

theorem drive_empty (s : σ) : ∀ n, drive act n ([], s) = ([], s) := by
  intro n
  induction n with
  | zero => rfl
  | succ n ih => exact ih

theorem drive_succ (n : Nat) : ∀ m, drive act (n + 1) m = advance act (drive act n m) := by
  induction n with
  | zero => intro m; rfl
  | succ n ih => intro m; rw [drive, ih]; rfl

theorem drive_add (n k : Nat) : ∀ m, drive act (n + k) m = drive act k (drive act n m) := by
  induction n with
  | zero => intro m; rw [Nat.zero_add]; rfl
  | succ n ih => intro m; rw [Nat.succ_add, drive, ih]; rfl

theorem drive_of_empty {m : List τ × σ} {n k : Nat} (h : (drive act n m).1 = []) (hle : n ≤ k) :
    drive act k m = drive act n m := by
  obtain ⟨d, rfl⟩ := Nat.exists_eq_add_of_le hle
  rw [drive_add]
  rcases hd : drive act n m with ⟨ts, s⟩
  rw [hd] at h
  cases h
  exact drive_empty s d

theorem drive_fixed {m : List τ × σ} (h : advance act m = m) : ∀ n, drive act n m = m := by
  intro n
  induction n with
  | zero => rfl
  | succ n ih => rw [drive, h, ih]

/-- What every step preserves, where `Q` holds before the steps that are taken, holds throughout. -/
theorem drive_invariant {P Q : List τ → σ → Prop} {m : List τ × σ}
    (hstep : ∀ t ts s, P (t :: ts) s → Q (t :: ts) s → P ((act t s).1 ++ ts) (act t s).2)
    (hQ : ∀ k, Q (drive act k m).1 (drive act k m).2) (h : P m.1 m.2) :
    ∀ n, P (drive act n m).1 (drive act n m).2 := by
  intro n
  induction n with
  | zero => exact h
  | succ n ih =>
    have hk := hQ n
    rw [drive_succ]
    rcases hd : drive act n m with ⟨ts, s⟩
    rw [hd] at ih hk
    cases ts with
    | nil => exact ih
    | cons t ts => exact hstep t ts s ih hk

/-- A stack runs empty where each of its steps lowers a measure. -/
theorem drive_finishes {P : List τ → σ → Prop} {μ : List τ → σ → Nat} {m : List τ × σ}
    (hP : ∀ k, P (drive act k m).1 (drive act k m).2)
    (hμ : ∀ t ts s, P (t :: ts) s → μ ((act t s).1 ++ ts) (act t s).2 < μ (t :: ts) s) :
    (drive act (μ m.1 m.2) m).1 = [] := by
  have hbound : ∀ n, (drive act n m).1 = [] ∨ μ (drive act n m).1 (drive act n m).2 + n ≤ μ m.1 m.2 := by
    intro n
    induction n with
    | zero => exact .inr (Nat.le_refl _)
    | succ n ih =>
      have hn := hP n
      rw [drive_succ]
      rcases hd : drive act n m with ⟨ts, s⟩
      rw [hd] at ih hn
      cases ts with
      | nil => exact .inl rfl
      | cons t ts =>
        refine .inr ?_
        have hlt := hμ t ts s hn
        rcases ih with ih | ih
        · cases ih
        · simp only [advance] at ih ⊢
          omega
  have hlast := hP (μ m.1 m.2)
  rcases hbound (μ m.1 m.2) with hempty | hle
  · exact hempty
  · rcases hd : drive act (μ m.1 m.2) m with ⟨ts, s⟩
    rw [hd] at hle hlast
    cases ts with
    | nil => rfl
    | cons t ts =>
      have hlt := hμ t ts s hlast
      simp only at hle
      omega

end Tasks

end Lib
