import Mathlib.Data.List.FinRange

/-!
# Lib.Slots

Tables of a fixed number of slots, each free or used, that are searched from the front: the first
slot that satisfies a condition, and what a table whose used entries have distinct keys says about
a key before and after an entry is stored.
-/

namespace Lib

open Function

section First

variable {n : Nat} {p : Fin n → Bool} {i : Fin n}

def firstSlot (p : Fin n → Bool) : Option (Fin n) := (List.finRange n).find? p

theorem firstSlot_some (h : firstSlot p = some i) : p i = true := List.find?_some h

theorem firstSlot_eq_none : firstSlot p = none ↔ ∀ i, p i = false := by
  simp [firstSlot]

theorem firstSlot_eq_some (huniq : ∀ j, p j = true → j = i) : firstSlot p = some i ↔ p i = true := by
  refine ⟨firstSlot_some, fun h => ?_⟩
  rcases hf : firstSlot p with _ | j
  · rw [firstSlot_eq_none.mp hf i] at h
    cases h
  · rw [huniq j (firstSlot_some hf)]

end First

section Table

variable {α κ : Type} [DecidableEq κ] {n : Nat} (used : α → Bool) (key : α → κ)

def findKey (t : Fin n → α) (k : κ) : Option (Fin n) :=
  firstSlot fun i => used (t i) && decide (key (t i) = k)

def place (t : Fin n → α) (k : κ) : Option (Fin n) :=
  (findKey used key t k).or (firstSlot fun i => !used (t i))

/-- Two used slots have different keys. -/
def Distinct (t : Fin n → α) : Prop :=
  ∀ i j, used (t i) = true → used (t j) = true → key (t i) = key (t j) → i = j

variable {used key} {t : Fin n → α} {k k' : κ} {i : Fin n} {a : α}

theorem findKey_some (h : findKey used key t k = some i) : used (t i) = true ∧ key (t i) = k := by
  simpa using firstSlot_some h

theorem findKey_eq_none :
    findKey used key t k = none ↔ ∀ i, used (t i) = true → key (t i) ≠ k := by
  simp [findKey, firstSlot_eq_none]

theorem Distinct.findKey (h : Distinct used key t) :
    findKey used key t k = some i ↔ used (t i) = true ∧ key (t i) = k := by
  refine ⟨findKey_some, fun hi => (firstSlot_eq_some fun j hj => ?_).mpr (by simp [hi])⟩
  simp only [Bool.and_eq_true, decide_eq_true_eq] at hj
  exact h j i hj.1 hi.1 (hj.2.trans hi.2.symm)

theorem place_cases (h : place used key t k = some i) :
    (used (t i) = true ∧ key (t i) = k) ∨
      (used (t i) = false ∧ ∀ j, used (t j) = true → key (t j) ≠ k) := by
  rw [place] at h
  rcases hf : Lib.findKey used key t k with _ | j
  · rw [hf, Option.none_or] at h
    exact .inr ⟨by simpa using firstSlot_some h, findKey_eq_none.mp hf⟩
  · rw [hf, Option.some_or, Option.some.injEq] at h
    rw [← h]
    exact .inl (findKey_some hf)

theorem Distinct.store (h : Distinct used key t) (hi : place used key t k = some i) (ha : key a = k) :
    Distinct used key (update t i a) := by
  have hkey : ∀ j, j ≠ i → used (t j) = true → key (t j) ≠ k := by
    intro j hj hused heq
    rcases place_cases hi with ⟨hui, hki⟩ | ⟨-, hnone⟩
    · exact hj (h j i hused hui (heq.trans hki.symm))
    · exact hnone j hused heq
  intro j l hj hl heq
  rw [update_apply] at hj heq
  rw [update_apply] at hl heq
  split at hj
  · rename_i hji
    split at hl
    · rename_i hli
      rw [hji, hli]
    · rename_i hli
      rw [if_pos hji, if_neg hli, ha] at heq
      exact absurd heq.symm (hkey l hli hl)
  · rename_i hji
    rw [if_neg hji] at heq
    split at hl
    · rename_i hli
      rw [if_pos hli, ha] at heq
      exact absurd heq (hkey j hji hj)
    · rename_i hli
      rw [if_neg hli] at heq
      exact h j l hj hl heq

theorem Distinct.free (h : Distinct used key t) (ha : used a = false) :
    Distinct used key (update t i a) := by
  intro j l hj hl heq
  rw [update_apply] at hj heq
  rw [update_apply] at hl heq
  by_cases hji : j = i
  · rw [if_pos hji, ha] at hj
    cases hj
  · by_cases hli : l = i
    · rw [if_pos hli, ha] at hl
      cases hl
    · rw [if_neg hji] at hj heq
      rw [if_neg hli] at hl heq
      exact h j l hj hl heq

theorem Distinct.findKey_store (h : Distinct used key t) (hi : place used key t k = some i)
    (ha : key a = k) (hu : used a = true) :
    Lib.findKey used key (update t i a) k = some i :=
  (h.store hi ha).findKey.mpr (by simp [ha, hu])

theorem findKey_store_other (hi : used (t i) = true → key (t i) = k) (ha : used a = true → key a = k)
    (hk : k' ≠ k) : Lib.findKey used key (update t i a) k' = Lib.findKey used key t k' := by
  unfold Lib.findKey
  congr 1
  funext j
  rw [update_apply]
  split
  · rename_i hji
    subst hji
    have hold : (used (t j) && decide (key (t j) = k')) = false := by
      by_cases hu : used (t j) = true
      · simp [hi hu, Ne.symm hk]
      · simp [hu]
    have hnew : (used a && decide (key a = k')) = false := by
      by_cases hu : used a = true
      · simp [ha hu, Ne.symm hk]
      · simp [hu]
    rw [hold, hnew]
  · rfl

end Table

end Lib
