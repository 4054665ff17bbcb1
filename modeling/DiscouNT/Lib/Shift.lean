import Mathlib.Data.List.GetD
import Mathlib.Data.List.Perm.Subperm
import Mathlib.Data.List.Nodup

/-!
# Lib.Shift

Arrays whose entries are moved the way C code does it: a loop copies the entries between the old
and the new place by one, and the entry is written into the gap. What the loop leaves is the list
with the entry taken out and put in again (`shiftUp_set`, `shiftDown_set`).
-/

namespace Lib

open List

variable {α : Type} {d a b : α} {l l' : List α} {i j n : Nat}

def copyAt (d : α) (l : List α) (src dst : Nat) : List α := l.set dst (l.getD src d)

/-- The first `n` rounds of `for (j = i; ; j--) l[j] = l[j - 1]`. -/
def shiftUp (d : α) (l : List α) (i : Nat) : Nat → List α
  | 0 => l
  | n + 1 => copyAt d (shiftUp d l i n) (i - (n + 1)) (i - n)

def shiftDown (d : α) (l : List α) (i : Nat) : Nat → List α
  | 0 => l
  | n + 1 => copyAt d (shiftDown d l i n) (i + n + 1) (i + n)

theorem getElem?_copyAt (hsrc : i < l.length) :
    (copyAt d l i j)[n]? = if n = j ∧ j < l.length then l[i]? else l[n]? := by
  rw [copyAt, getElem?_set, getD_eq_getElem _ _ hsrc, getElem?_eq_getElem hsrc]
  by_cases hn : j = n
  · subst hn
    by_cases hj : j < l.length
    · simp [hj]
    · simp [hj]
  · simp [hn, Ne.symm hn]

@[simp] theorem length_copyAt : (copyAt d l i j).length = l.length := by simp [copyAt]

@[simp] theorem length_shiftUp : (shiftUp d l i n).length = l.length := by
  induction n with
  | zero => rfl
  | succ n ih => rw [shiftUp, length_copyAt, ih]

@[simp] theorem length_shiftDown : (shiftDown d l i n).length = l.length := by
  induction n with
  | zero => rfl
  | succ n ih => rw [shiftDown, length_copyAt, ih]

theorem getElem?_shiftUp (hn : n ≤ i) (hi : i < l.length) :
    (shiftUp d l i n)[j]? = if i - n < j ∧ j ≤ i then l[j - 1]? else l[j]? := by
  induction n generalizing j with
  | zero =>
    have hnone : ¬ (i - 0 < j ∧ j ≤ i) := by omega
    rw [if_neg hnone]
    rfl
  | succ n ih =>
    rw [shiftUp, getElem?_copyAt (by simp only [length_shiftUp]; omega), ih (by omega),
      ih (by omega), length_shiftUp]
    by_cases hj : j = i - n
    · subst hj
      rw [if_pos (by omega), if_neg (by omega), if_pos (by omega)]
      congr 1
    · rw [if_neg (by omega)]
      by_cases hin : i - n < j ∧ j ≤ i
      · rw [if_pos hin, if_pos (by omega)]
      · rw [if_neg hin, if_neg (by omega)]

theorem getElem?_shiftDown (hi : i + n < l.length) :
    (shiftDown d l i n)[j]? = if i ≤ j ∧ j < i + n then l[j + 1]? else l[j]? := by
  induction n generalizing j with
  | zero =>
    have hnone : ¬ (i ≤ j ∧ j < i + 0) := by omega
    rw [if_neg hnone]
    rfl
  | succ n ih =>
    rw [shiftDown, getElem?_copyAt (by simp only [length_shiftDown]; omega), ih (by omega),
      ih (by omega), length_shiftDown]
    by_cases hj : j = i + n
    · subst hj
      rw [if_pos (by omega), if_neg (by omega), if_pos (by omega)]
    · rw [if_neg (by omega)]
      by_cases hin : i ≤ j ∧ j < i + n
      · rw [if_pos hin, if_pos (by omega)]
      · rw [if_neg hin, if_neg (by omega)]

theorem shiftUp_set (hj : j ≤ i) (hi : i < l.length) :
    (shiftUp d l i (i - j)).set j a = (l.eraseIdx i).insertIdx j a := by
  apply ext_getElem?
  intro k
  have hlen : (l.eraseIdx i).length = l.length - 1 := length_eraseIdx_of_lt hi
  rw [getElem?_set, getElem?_shiftUp (by omega) hi, length_shiftUp, getElem?_insertIdx]
  rcases Nat.lt_trichotomy k j with hk | rfl | hk
  · rw [if_neg (by omega), if_neg (by omega), if_pos hk, getElem?_eraseIdx, if_pos (by omega)]
  · rw [if_pos rfl, if_pos (by omega), if_neg (by omega), if_pos rfl, if_pos (by omega)]
  · have hjk : ¬ j = k := by omega
    have hkj : ¬ k < j := by omega
    rw [if_neg hjk, if_neg hkj, if_neg (Ne.symm hjk), getElem?_eraseIdx]
    by_cases hki : k ≤ i
    · rw [if_pos (by omega), if_pos (by omega)]
    · rw [if_neg (by omega), if_neg (by omega), Nat.sub_add_cancel (by omega)]

theorem shiftDown_set (hj : i ≤ j) (hi : j < l.length) :
    (shiftDown d l i (j - i)).set j a = (l.eraseIdx i).insertIdx j a := by
  apply ext_getElem?
  intro k
  have hlen : (l.eraseIdx i).length = l.length - 1 := length_eraseIdx_of_lt (by omega)
  rw [getElem?_set, getElem?_shiftDown (by omega), length_shiftDown, getElem?_insertIdx]
  rcases Nat.lt_trichotomy k j with hk | rfl | hk
  · rw [if_neg (by omega), if_pos hk, getElem?_eraseIdx]
    by_cases hki : k < i
    · rw [if_neg (by omega), if_pos hki]
    · rw [if_pos (by omega), if_neg hki]
  · rw [if_pos rfl, if_pos (by omega), if_neg (by omega), if_pos rfl, if_pos (by omega)]
  · rw [if_neg (by omega), if_neg (by omega), if_neg (by omega), if_neg (by omega),
      getElem?_eraseIdx, if_neg (by omega), Nat.sub_add_cancel (by omega)]

theorem shiftUp_subset (hn : n ≤ i) (hi : i < l.length) : shiftUp d l i n ⊆ l := by
  intro x hx
  obtain ⟨j, hj⟩ := mem_iff_getElem?.mp hx
  rw [getElem?_shiftUp hn hi] at hj
  split at hj
  · exact mem_of_getElem? hj
  · exact mem_of_getElem? hj

theorem set_self (hi : l[i]? = some a) : l.set i a = l := by
  obtain ⟨hlt, rfl⟩ := List.getElem?_eq_some_iff.mp hi
  exact set_getElem_self hlt

section Perm

theorem perm_insertIdx_eraseIdx (hi : l[i]? = some a) (hj : j ≤ l.length - 1) :
    ((l.eraseIdx i).insertIdx j a).Perm l := by
  obtain ⟨hlt, rfl⟩ := List.getElem?_eq_some_iff.mp hi
  have hlen : (l.eraseIdx i).length = l.length - 1 := length_eraseIdx_of_lt hlt
  exact (perm_insertIdx _ _ (by omega)).trans (getElem_cons_eraseIdx_perm hlt)

theorem perm_of_subset (hnd : l.Nodup) (hsub : l ⊆ l') (hlen : l'.length ≤ l.length) : l'.Perm l :=
  ((hnd.subperm hsub).perm_of_length_le hlen).symm

theorem not_mem_set (hnd : l.Nodup) (hi : l[i]? = some a) (hab : b ≠ a) : a ∉ l.set i b := by
  intro hmem
  obtain ⟨j, hj⟩ := mem_iff_getElem?.mp hmem
  rw [getElem?_set] at hj
  by_cases hij : i = j
  · subst hij
    obtain ⟨hlt, _⟩ := List.getElem?_eq_some_iff.mp hi
    rw [if_pos rfl, if_pos hlt] at hj
    exact hab (Option.some.inj hj)
  · rw [if_neg hij] at hj
    have hlt := (List.getElem?_eq_some_iff.mp hi).1
    exact hij ((getElem?_inj hlt hnd).mp (hi.trans hj.symm))

end Perm

theorem insertIdx_eq (hn : n ≤ l.length) : l.insertIdx n a = l.take n ++ a :: l.drop n := by
  induction l generalizing n with
  | nil =>
    obtain rfl : n = 0 := by simpa using hn
    rfl
  | cons b l ih =>
    cases n with
    | zero => rfl
    | succ n =>
      rw [insertIdx_succ_cons, ih (Nat.le_of_succ_le_succ hn)]
      rfl

theorem pairwise_insertIdx {r : α → α → Prop} (hl : l.Pairwise r) (hn : n ≤ l.length)
    (hbefore : ∀ b ∈ l.take n, r b a) (hafter : ∀ b ∈ l.drop n, r a b) :
    (l.insertIdx n a).Pairwise r := by
  rw [insertIdx_eq hn]
  rw [← take_append_drop n l, pairwise_append] at hl
  obtain ⟨htake, hdrop, hboth⟩ := hl
  refine pairwise_append.mpr ⟨htake, pairwise_cons.mpr ⟨hafter, hdrop⟩, ?_⟩
  intro b hb c hc
  rcases mem_cons.mp hc with rfl | hc
  · exact hbefore b hb
  · exact hboth b hb c hc

/-- A property that passes on to all later entries holds from its first entry on. -/
theorem of_mem_drop_findIdx {p : α → Bool} (hl : l.Pairwise fun a b => p a = true → p b = true)
    (ha : a ∈ l.drop (l.findIdx p)) : p a = true := by
  induction l with
  | nil => simp at ha
  | cons b l ih =>
    obtain ⟨hb, hl⟩ := pairwise_cons.mp hl
    cases hp : p b with
    | true =>
      rw [findIdx_cons, hp, cond_true, drop_zero] at ha
      rcases mem_cons.mp ha with rfl | ha
      · exact hp
      · exact hb a ha hp
    | false =>
      rw [findIdx_cons, hp, cond_false, drop_succ_cons] at ha
      exact ih hl ha

end Lib
