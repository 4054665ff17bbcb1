import Mathlib.Logic.Relation
import Mathlib.Order.Basic

/-!
# Lib.Nesting

Recursion as nested calls. A body is a function of the function it calls, and `nest` closes it to a
given depth, over a function that stands for the calls nested deeper.

`AskedOnly` says which calls a body makes. Programs that call back into their environment are nested
calls too: `exec e c s` runs the call `c` from `s` in the environment `e`, `reacts e r s` is what `e`
does when it is asked `r`, and an environment of depth `n` reacts by a finite sequence of calls in
environments of a smaller depth. The invariants may have an index that each call changes for its own
callbacks.
-/

namespace Lib

section Nest

variable {α β : Type}

/-- The recursion `k` deep, over `deep`. The level that has `i` levels below it runs `body i`. -/
def nest (body : Nat → (α → β) → α → β) (deep : α → β) : Nat → α → β
  | 0 => deep
  | k + 1 => body k (nest body deep k)

/-- What the body returns for `a` depends on a well-behaved function only through the calls that
`Asks a` allows, and is well-behaved. -/
structure AskedOnly (body : Nat → (α → β) → α → β) (Good : (α → β) → Prop)
    (Asks : α → α → Prop) : Prop where
  good : ∀ {k f}, Good f → Good (body k f)
  only : ∀ {k f g a}, Good f → Good g → (∀ a', Asks a a' → f a' = g a') → body k f a = body k g a

variable {body : Nat → (α → β) → α → β} {Good : (α → β) → Prop} {Asks : α → α → Prop}
  {f g : α → β}

theorem AskedOnly.nest_good (h : AskedOnly body Good Asks) (hf : Good f) :
    ∀ k, Good (nest body f k) := by
  intro k
  induction k with
  | zero => exact hf
  | succ k ih => exact h.good ih

/-- Calls are nested no deeper than their rank: what stands for deeper ones makes no difference. -/
theorem AskedOnly.nest_bounded (h : AskedOnly body Good Asks) (hf : Good f)
    (hg : Good g) {rank : α → Nat} (hrank : ∀ {a a'}, Asks a a' → rank a' < rank a) :
    ∀ {k a}, rank a < k → nest body f k a = nest body g k a := by
  intro k
  induction k with
  | zero =>
    intro a hlt
    omega
  | succ k ih =>
    intro a hlt
    apply h.only (h.nest_good hf k) (h.nest_good hg k)
    intro a' hasks
    have hless := hrank hasks
    exact ih (by omega)

/-- An invariant of the calls: functions that agree where it holds make no difference. -/
theorem AskedOnly.nest_guarded (h : AskedOnly body Good Asks) (hf : Good f)
    (hg : Good g) {I : α → Prop} (hinv : ∀ {a a'}, I a → Asks a a' → I a')
    (hagree : ∀ a, I a → f a = g a) :
    ∀ {k a}, I a → nest body f k a = nest body g k a := by
  intro k
  induction k with
  | zero =>
    intro a ha
    exact hagree a ha
  | succ k ih =>
    intro a ha
    apply h.only (h.nest_good hf k) (h.nest_good hg k)
    intro a' hasks
    exact ih (hinv ha hasks)

end Nest

section Reentrant

open Relation

variable {ε κ ρ σ ι : Type}

/-- One call, in an environment that satisfies `P`. -/
def CallsIn (exec : ε → κ → σ → σ) (ok : ε → κ → σ → Prop) (P : ε → Prop) (s s' : σ) : Prop :=
  ∃ e c, P e ∧ ok e c s ∧ s' = exec e c s

/-- An environment whose reactions satisfy `tame` and are sequences of calls, nested `n` deep. -/
def Nested (exec : ε → κ → σ → σ) (reacts : ε → ρ → σ → σ) (ok : ε → κ → σ → Prop)
    (tame : ρ → σ → σ → Prop) : Nat → ε → Prop
  | 0, e => ∀ r s, tame r s (reacts e r s) ∧ reacts e r s = s
  | n + 1, e => ∀ r s, tame r s (reacts e r s) ∧
      ReflTransGen (CallsIn exec ok (Nested exec reacts ok tame n)) s (reacts e r s)

section Keeps

variable {exec : ε → κ → σ → σ} {reacts : ε → ρ → σ → σ} {ok okTop : ε → κ → σ → Prop}
  {tame : ρ → σ → σ → Prop} {J : ι → σ → Prop} {e : ε} {n : Nat} {i : ι} {s s' : σ}

theorem Nested.isTame (he : Nested exec reacts ok tame n e) (r : ρ) (s : σ) :
    tame r s (reacts e r s) := by
  cases n with
  | zero => exact (he r s).1
  | succ n => exact (he r s).1

/-- What calls keep in an environment that keeps it, reactions at any depth keep. -/
theorem Nested.keeps
    (hexec : ∀ e, (∀ r s, tame r s (reacts e r s)) → (∀ i r s, J i s → J i (reacts e r s)) →
      ∀ i c s, ok e c s → J i s → J i (exec e c s))
    (he : Nested exec reacts ok tame n e) (i : ι) (r : ρ) (s : σ) (hs : J i s) :
    J i (reacts e r s) := by
  induction n generalizing e i r s with
  | zero => rw [(he r s).2]; exact hs
  | succ n ih =>
    have hpath := (he r s).2
    generalize reacts e r s = s' at hpath
    induction hpath with
    | refl => exact hs
    | tail _ hstep hmid =>
      obtain ⟨e', c, he', hok, rfl⟩ := hstep
      exact hexec e' he'.isTame (fun i r s => ih he' i r s) i c _ hok hmid

/-- A run of calls keeps what each of them keeps in such an environment. -/
theorem Nested.run_keeps
    (hexec : ∀ e, (∀ r s, tame r s (reacts e r s)) → (∀ i r s, J i s → J i (reacts e r s)) →
      ∀ i c s, ok e c s → J i s → J i (exec e c s))
    (htop : ∀ e, (∀ r s, tame r s (reacts e r s)) → (∀ i r s, J i s → J i (reacts e r s)) →
      ∀ c s, okTop e c s → J i s → J i (exec e c s))
    (hrun : ReflTransGen (CallsIn exec okTop (Nested exec reacts ok tame n)) s s') (hs : J i s) :
    J i s' := by
  induction hrun with
  | refl => exact hs
  | tail _ hstep hmid =>
    obtain ⟨e, c, he, hok, rfl⟩ := hstep
    exact htop e he.isTame (fun i r s => he.keeps hexec i r s) c _ hok hmid

end Keeps

end Reentrant

end Lib
