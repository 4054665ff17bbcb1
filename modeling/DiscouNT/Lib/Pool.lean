import Mathlib.Data.List.Basic
import Mathlib.Data.List.TakeDrop

/-!
# Lib.Pool

A table of slots that is used as a queue: an element is stored in the first free slot, and one that
is taken out has the slots behind it moved up. Storing and taking keep the order in which elements
lie behind each other, unless a free slot is ahead of an older element.
-/

namespace Lib

open List Option

section Pool

variable {α : Type} (used : α → Bool)

def storeFirst (a : α) : List α → Option (List α)
  | [] => none
  | b :: l => if used b then (storeFirst a l).map (b :: ·) else some (a :: l)

/-- The first slot that satisfies `p`, and the table with the slots behind it moved up and an empty
one at the end. -/
def takeFirst (p : α → Bool) (empty : α) : List α → Option (α × List α)
  | [] => none
  | b :: l => if p b then some (b, l ++ [empty])
    else (takeFirst p empty l).map fun r => (r.1, b :: r.2)

def drain (p : α → Bool) (empty : α) : Nat → List α → List α
  | 0, _ => []
  | n + 1, l =>
    match takeFirst p empty l with
    | none => []
    | some (a, l') => a :: drain p empty n l'

variable {used} {p : α → Bool} {a b empty : α} {l l' : List α}

theorem storeFirst_eq_none : storeFirst used a l = none ↔ ∀ b ∈ l, used b = true := by
  induction l with
  | nil => simp [storeFirst]
  | cons b l ih =>
    by_cases hb : used b = true
    · simp [storeFirst, hb, ih]
    · simp [storeFirst, hb]

theorem storeFirst_some (h : storeFirst used a l = some l') :
    ∃ x b y, l = x ++ b :: y ∧ (∀ c ∈ x, used c = true) ∧ used b = false ∧ l' = x ++ a :: y := by
  induction l generalizing l' with
  | nil => cases h
  | cons b l ih =>
    by_cases hb : used b = true
    · simp only [storeFirst, hb, if_true, map_eq_some_iff] at h
      obtain ⟨l1, h, rfl⟩ := h
      obtain ⟨x, c, y, rfl, hx, hc, rfl⟩ := ih h
      exact ⟨b :: x, c, y, rfl, forall_mem_cons.mpr ⟨hb, hx⟩, hc, rfl⟩
    · have hfree : used b = false := by simpa using hb
      simp only [storeFirst, hfree, Bool.false_eq_true, if_false, some.injEq] at h
      exact ⟨[], b, l, rfl, fun c hc => (nomatch hc), hfree, h.symm⟩

theorem takeFirst_eq_none : takeFirst p empty l = none ↔ ∀ b ∈ l, p b = false := by
  induction l with
  | nil => simp [takeFirst]
  | cons b l ih =>
    by_cases hb : p b = true
    · simp [takeFirst, hb]
    · simp [takeFirst, hb, ih]

theorem takeFirst_some (h : takeFirst p empty l = some (a, l')) :
    ∃ x y, l = x ++ a :: y ∧ (∀ c ∈ x, p c = false) ∧ p a = true ∧ l' = x ++ (y ++ [empty]) := by
  induction l generalizing l' with
  | nil => cases h
  | cons b l ih =>
    by_cases hb : p b = true
    · simp only [takeFirst, hb, if_true, some.injEq, Prod.mk.injEq] at h
      obtain ⟨rfl, rfl⟩ := h
      exact ⟨[], l, rfl, fun c hc => (nomatch hc), hb, rfl⟩
    · have hnot : p b = false := by simpa using hb
      simp only [takeFirst, hnot, Bool.false_eq_true, if_false, map_eq_some_iff] at h
      obtain ⟨⟨c, l1⟩, h, hpair⟩ := h
      cases hpair
      obtain ⟨x, y, rfl, hx, ha, rfl⟩ := ih h
      exact ⟨b :: x, y, rfl, forall_mem_cons.mpr ⟨hnot, hx⟩, ha, rfl⟩

theorem filter_takeFirst (hempty : p empty = false) (h : takeFirst p empty l = some (a, l')) :
    l.filter p = a :: l'.filter p := by
  obtain ⟨x, y, rfl, hx, ha, rfl⟩ := takeFirst_some h
  have hnil : x.filter p = [] := filter_eq_nil_iff.mpr fun c hc => by simp [hx c hc]
  simp [hnil, ha, hempty]

/-- Taking again and again takes out, in their order, the slots that satisfy `p`. -/
theorem drain_eq (hempty : p empty = false) (n : Nat) :
    drain p empty n l = (l.filter p).take n := by
  induction n generalizing l with
  | zero => simp [drain]
  | succ n ih =>
    rw [drain]
    rcases h : takeFirst p empty l with _ | ⟨a, l'⟩
    · have hnil : l.filter p = [] := filter_eq_nil_iff.mpr fun b hb => by
        simp [takeFirst_eq_none.mp h b hb]
      simp [hnil]
    · rw [filter_takeFirst hempty h]
      simp [ih]

theorem pairwise_takeFirst {R : α → α → Prop} (hempty : ∀ c, R c empty)
    (h : takeFirst p empty l = some (a, l')) (hl : l.Pairwise R) : l'.Pairwise R := by
  obtain ⟨x, y, rfl, -, -, rfl⟩ := takeFirst_some h
  rw [← append_assoc]
  refine pairwise_append.mpr ⟨?_, pairwise_singleton R empty, fun c _ d hd => ?_⟩
  · exact hl.sublist ((sublist_cons_self a y).append_left x)
  · rw [mem_singleton.mp hd]
    exact hempty c

/-- It survives storing exactly when it holds between the new element and the slots behind the
first free one. -/
theorem pairwise_storeFirst {R : α → α → Prop} (h : storeFirst used a l = some l')
    (hl : l.Pairwise R) (hnew : ∀ c ∈ l, R c a) :
    l'.Pairwise R ↔ ∀ c ∈ (l.dropWhile used).tail, R a c := by
  obtain ⟨x, b, y, rfl, hx, hb, rfl⟩ := storeFirst_some h
  have hdrop : (x ++ b :: y).dropWhile used = b :: y := by
    rw [dropWhile_append_of_pos hx, dropWhile_cons_of_neg (by simp [hb])]
  rw [hdrop, tail_cons]
  rw [pairwise_append, pairwise_cons] at hl ⊢
  constructor
  · rintro ⟨-, ⟨hy, -⟩, -⟩
    exact hy
  · intro hy
    refine ⟨hl.1, ⟨hy, hl.2.1.2⟩, fun c hc d hd => ?_⟩
    rcases mem_cons.mp hd with rfl | hd
    · exact hnew c (by simp [hc])
    · exact hl.2.2 c hc d (mem_cons_of_mem b hd)

theorem filter_storeFirst (ha : used a = true) (h : storeFirst used a l = some l') :
    (l'.filter used).Perm (a :: l.filter used) := by
  obtain ⟨x, b, y, rfl, -, hb, rfl⟩ := storeFirst_some h
  simp only [filter_append, filter_cons, ha, hb, if_true, Bool.false_eq_true, if_false]
  exact perm_middle

theorem filter_takeFirst_perm {q : α → Bool} (hempty : q empty = false) (ha : q a = true)
    (h : takeFirst p empty l = some (a, l')) : (l.filter q).Perm (a :: l'.filter q) := by
  obtain ⟨x, y, rfl, -, -, rfl⟩ := takeFirst_some h
  simp only [filter_append, filter_cons, ha, hempty, if_true, Bool.false_eq_true, if_false,
    filter_nil, append_nil]
  exact perm_middle

end Pool

end Lib
