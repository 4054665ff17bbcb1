import Mathlib.Data.List.Basic

/-!
# Lib.Radix

Radix trees whose tables lie in a memory. A table has a slot for every index, and what is in a slot
may lead to a table one level down; a path lists the indices from the last one to the first.
-/

namespace Lib
namespace Radix

open Option

variable {T I α : Type} (child : α → Option T)

def tableAt (entry : T → I → α) (root : T) : List I → Option T
  | [] => some root
  | i :: path => (tableAt entry root path).bind fun t => child (entry t i)

/-- Down to depth `d`, no two paths lead to the same table. -/
def Distinct (entry : T → I → α) (root : T) (d : Nat) : Prop :=
  ∀ p q t, p.length ≤ d → q.length ≤ d → tableAt child entry root p = some t →
    tableAt child entry root q = some t → p = q

structure Planted (entry entry' : T → I → α) (t : T) (i : I) (new : T) : Prop where
  slot : child (entry' t i) = some new
  empty : ∀ j, child (entry' new j) = none
  other : ∀ u j, u ≠ new → ¬ (u = t ∧ j = i) → entry' u j = entry u j

section Planted

variable {child} {entry entry' : T → I → α} {root t new : T} {i : I} {d : Nat} {path : List I}

section

variable (h : Planted child entry entry' t i new)
include h

theorem Planted.tableAt_cases (hdistinct : Distinct child entry root d)
    (hnew : ∀ p, p.length ≤ d → tableAt child entry root p ≠ some new)
    (hpath : tableAt child entry root path = some t) (hlength : path.length ≤ d) :
    ∀ q u, q.length ≤ d → tableAt child entry' root q = some u →
      tableAt child entry root q = some u ∨ q = i :: path ∧ u = new := by
  intro q
  induction q with
  | nil => exact fun u _ hu => .inl hu
  | cons j q ih =>
    intro u hq hu
    rw [List.length_cons] at hq
    obtain ⟨v, hv, hchild⟩ := bind_eq_some_iff.mp hu
    rcases ih v (by omega) hv with hold | ⟨-, rfl⟩
    · by_cases hslot : v = t ∧ j = i
      · obtain ⟨rfl, rfl⟩ := hslot
        rw [h.slot] at hchild
        cases hchild
        exact .inr ⟨by rw [hdistinct q path v (by omega) hlength hold hpath], rfl⟩
      · have hvnew : v ≠ new := fun hv => hnew q (by omega) (hv ▸ hold)
        rw [h.other v j hvnew hslot] at hchild
        exact .inl (bind_eq_some_iff.mpr ⟨v, hold, hchild⟩)
    · rw [h.empty j] at hchild
      cases hchild

theorem Planted.tableAt_of (hnew : ∀ p, p.length ≤ d → tableAt child entry root p ≠ some new)
    (hempty : child (entry t i) = none) :
    ∀ q u, q.length ≤ d → tableAt child entry root q = some u →
      tableAt child entry' root q = some u := by
  intro q
  induction q with
  | nil => exact fun u _ hu => hu
  | cons j q ih =>
    intro u hq hu
    rw [List.length_cons] at hq
    obtain ⟨v, hv, hchild⟩ := bind_eq_some_iff.mp hu
    have hvnew : v ≠ new := fun heq => hnew q (by omega) (heq ▸ hv)
    have hslot : ¬ (v = t ∧ j = i) := by
      rintro ⟨rfl, rfl⟩
      rw [hempty] at hchild
      cases hchild
    refine bind_eq_some_iff.mpr ⟨v, ih v (by omega) hv, ?_⟩
    rw [h.other v j hvnew hslot]
    exact hchild

theorem Planted.tableAt_new (hpath : tableAt child entry' root path = some t) :
    tableAt child entry' root (i :: path) = some new :=
  bind_eq_some_iff.mpr ⟨t, hpath, h.slot⟩

theorem Planted.distinct (hdistinct : Distinct child entry root d)
    (hnew : ∀ p, p.length ≤ d → tableAt child entry root p ≠ some new)
    (hpath : tableAt child entry root path = some t) (hlength : path.length ≤ d) :
    Distinct child entry' root d := by
  intro p q u hp hq hup huq
  rcases h.tableAt_cases hdistinct hnew hpath hlength p u hp hup with hup | ⟨rfl, rfl⟩ <;>
    rcases h.tableAt_cases hdistinct hnew hpath hlength q _ hq huq with huq | ⟨rfl, heq⟩
  · exact hdistinct p q u hp hq hup huq
  · exact absurd (heq ▸ hup) (hnew p hp)
  · exact absurd huq (hnew q hq)
  · rfl

end

end Planted

/-- What is in the tables at depth `d` does not matter for the tables down to there. -/
theorem tableAt_eq_of_lowest {entry entry' : T → I → α} {root t : T} {d : Nat} {path : List I}
    (hdistinct : Distinct child entry root d) (hpath : tableAt child entry root path = some t)
    (hlength : path.length = d) (hother : ∀ u j, u ≠ t → entry' u j = entry u j) :
    ∀ q, q.length ≤ d → tableAt child entry' root q = tableAt child entry root q := by
  intro q
  induction q with
  | nil => exact fun _ => rfl
  | cons j q ih =>
    intro hq
    rw [List.length_cons] at hq
    rw [tableAt, tableAt, ih (by omega)]
    cases hv : tableAt child entry root q with
    | none => rfl
    | some v =>
      have hvt : v ≠ t := by
        rintro rfl
        have heq := hdistinct q path v (by omega) (by omega) hv hpath
        rw [heq] at hq
        omega
      simp only [bind_some]
      rw [hother v j hvt]

end Radix
end Lib
