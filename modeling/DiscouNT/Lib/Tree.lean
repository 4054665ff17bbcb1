import Mathlib.Data.List.Basic

/-!
# Lib.Tree

Directories with named entries, and the way a list of components leads through them. What it means
for a component to name an entry is a parameter. Directories may refer to each other in any way: an
entry may well lead back to a directory above it.
-/

namespace Lib

inductive Node (D F : Type) where
  | directory (d : D)
  | file (f : F)

structure Catalog (N D F : Type) where
  root : D
  entries : D → List (N × Node D F)

section Catalog

variable {N C D F : Type} (t : Catalog N D F) (same : C → N → Prop)

/-- The components lead from a directory to an entry, all but the last through directories. -/
inductive Resolves : D → List C → Node D F → Prop
  | last {d : D} {c : C} {name : N} {x : Node D F} :
      (name, x) ∈ t.entries d → same c name → Resolves d [c] x
  | step {d d' : D} {c : C} {name : N} {cs : List C} {x : Node D F} :
      (name, .directory d') ∈ t.entries d → same c name → Resolves d' cs x → Resolves d (c :: cs) x

variable {t same}

theorem resolves_nil {d : D} {x : Node D F} : ¬ Resolves t same d [] x := by
  intro h
  cases h

/-- The first component names an entry: the last one, or a directory from which the rest leads on. -/
theorem resolves_cons_iff {d : D} {c : C} {cs : List C} {x : Node D F} :
    Resolves t same d (c :: cs) x ↔ ∃ name y, (name, y) ∈ t.entries d ∧ same c name ∧
      (cs = [] ∧ y = x ∨ ∃ d', y = .directory d' ∧ Resolves t same d' cs x) := by
  constructor
  · intro h
    cases h with
    | last hmem hsame => exact ⟨_, _, hmem, hsame, .inl ⟨rfl, rfl⟩⟩
    | step hmem hsame hrest => exact ⟨_, _, hmem, hsame, .inr ⟨_, rfl, hrest⟩⟩
  · rintro ⟨name, y, hmem, hsame, ⟨rfl, rfl⟩ | ⟨d', rfl, hrest⟩⟩
    · exact .last hmem hsame
    · exact .step hmem hsame hrest

end Catalog

end Lib
