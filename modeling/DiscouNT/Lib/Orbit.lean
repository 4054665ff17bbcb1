import Mathlib.Data.Set.Finite.Basic

/-!
# Lib.Orbit

A walk that moves from a point to the next one, or stops. It stops exactly if it comes to no point
twice, where there are only finitely many points it can come to.
-/

namespace Lib

section Orbit

variable {α : Type*} {next : α → Option α} {x a : α} {i j n : Nat}

/-- Where the walk from `x` is after so many moves, unless it has stopped. -/
def orbit (next : α → Option α) (x : α) : Nat → Option α
  | 0 => some x
  | n + 1 => (orbit next x n).bind next

def Halts (next : α → Option α) (x : α) : Prop := ∃ n, orbit next x n = none

def Visits (next : α → Option α) (x a : α) : Prop := ∃ n, orbit next x n = some a

@[simp]
theorem orbit_zero : orbit next x 0 = some x := rfl

theorem orbit_succ : orbit next x (n + 1) = (orbit next x n).bind next := rfl

theorem orbit_add (hi : orbit next x i = some a) : orbit next x (i + n) = orbit next a n := by
  induction n with
  | zero => exact hi
  | succ n ih => rw [← Nat.add_assoc, orbit_succ, ih, orbit_succ]

theorem orbit_succ' : orbit next x (n + 1) = (next x).bind fun y => orbit next y n := by
  cases hnext : next x with
  | none =>
    induction n with
    | zero => exact hnext
    | succ n ih => rw [orbit_succ, ih]; rfl
  | some y =>
    have hone : orbit next x 1 = some y := hnext
    rw [Nat.add_comm, orbit_add hone]
    rfl

theorem visits_iff : Visits next x a ↔ a = x ∨ ∃ y, next x = some y ∧ Visits next y a := by
  constructor
  · rintro ⟨n, hn⟩
    cases n with
    | zero => exact .inl (Option.some.inj hn).symm
    | succ n =>
      rw [orbit_succ'] at hn
      obtain ⟨y, hy, hrest⟩ := Option.bind_eq_some_iff.mp hn
      exact .inr ⟨y, hy, n, hrest⟩
  · rintro (rfl | ⟨y, hy, n, hn⟩)
    · exact ⟨0, rfl⟩
    · exact ⟨n + 1, by rw [orbit_succ', hy]; exact hn⟩

theorem orbit_none_of_le (hnone : orbit next x i = none) (hle : i ≤ j) :
    orbit next x j = none := by
  induction j, hle using Nat.le_induction with
  | base => exact hnone
  | succ j _ ih => rw [orbit_succ, ih]; rfl

theorem orbit_round (hi : orbit next x i = some a) (hj : orbit next x (i + n) = some a) (m : Nat) :
    orbit next x (i + n * m) = some a := by
  induction m with
  | zero => exact hi
  | succ m ih =>
    have hround := (orbit_add (n := n) hi).symm.trans hj
    rw [Nat.mul_succ, ← Nat.add_assoc, orbit_add ih]
    exact hround

theorem not_halts_of_round (hi : orbit next x i = some a) (hj : orbit next x j = some a)
    (hlt : i < j) : ¬ Halts next x := by
  rintro ⟨m, hm⟩
  obtain ⟨n, rfl⟩ := Nat.exists_eq_add_of_lt hlt
  have hround := orbit_round (n := n + 1) hi hj m
  have hle : m ≤ i + (n + 1) * m :=
    (Nat.le_mul_of_pos_left m n.succ_pos).trans (Nat.le_add_left _ _)
  rw [orbit_none_of_le hm hle] at hround
  cases hround

theorem halts_iff (hfinite : Set.Finite {a | Visits next x a}) :
    Halts next x ↔
      ∀ i j a, orbit next x i = some a → orbit next x j = some a → i = j := by
  constructor
  · intro hhalts i j a hi hj
    rcases Nat.lt_trichotomy i j with hlt | heq | hlt
    · exact absurd hhalts (not_halts_of_round hi hj hlt)
    · exact heq
    · exact absurd hhalts (not_halts_of_round hj hi hlt)
  · intro honce
    by_contra hnever
    have hsome : ∀ n, ∃ a, orbit next x n = some a :=
      fun n => Option.ne_none_iff_exists'.mp fun hnone => hnever ⟨n, hnone⟩
    choose point hpoint using hsome
    have hinj : Function.Injective point := by
      intro i j heq
      exact honce i j (point i) (hpoint i) (heq ▸ hpoint j)
    have hvisits : ∀ n, point n ∈ {a | Visits next x a} := fun n => ⟨n, hpoint n⟩
    exact Set.infinite_of_injective_forall_mem hinj hvisits hfinite

end Orbit

end Lib
