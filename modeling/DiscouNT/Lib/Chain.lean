import Mathlib.Data.List.Nodup

/-!
# Lib.Chain

Singly linked lists over addresses, with 0 for null, and the cyclic order of a list.

* `Seg next p l q`: from `p` the links `next` go through the addresses `l` and arrive at `q`.
* `Chain next p l`: the whole list that starts at `p`.
* `after l c`: the elements of `l` in cyclic order, strictly after `c`.
-/

namespace Lib

open List Function

section Links

variable {next next' : Nat → Nat} {p q r a : Nat} {l l' : List Nat}

def Seg (next : Nat → Nat) : Nat → List Nat → Nat → Prop
  | p, [], q => p = q
  | p, a :: l, q => p = a ∧ Seg next (next a) l q

theorem Seg.append (h : Seg next p l q) (h' : Seg next q l' r) : Seg next p (l ++ l') r := by
  induction l generalizing p with
  | nil =>
    cases h
    exact h'
  | cons a l ih => exact ⟨h.1, ih h.2⟩

theorem seg_append_iff : Seg next p (l ++ l') r ↔ ∃ q, Seg next p l q ∧ Seg next q l' r := by
  constructor
  · intro h
    induction l generalizing p with
    | nil => exact ⟨p, rfl, h⟩
    | cons a l ih =>
      obtain ⟨q, hq, hr⟩ := ih h.2
      exact ⟨q, ⟨h.1, hq⟩, hr⟩
  · rintro ⟨q, hq, hr⟩
    exact hq.append hr

theorem Seg.congr (h : Seg next p l q) (hn : ∀ a ∈ l, next' a = next a) : Seg next' p l q := by
  induction l generalizing p with
  | nil => exact h
  | cons a l ih =>
    refine ⟨h.1, ?_⟩
    rw [hn a mem_cons_self]
    exact ih h.2 fun b hb => hn b (mem_cons_of_mem _ hb)

/-- The addresses `l`, none of them null, are those of the list that starts at `p`. -/
def Chain (next : Nat → Nat) (p : Nat) (l : List Nat) : Prop := Seg next p l 0 ∧ ∀ a ∈ l, a ≠ 0

theorem Chain.unique (h : Chain next p l) (h' : Chain next p l') : l = l' := by
  induction l generalizing p l' with
  | nil =>
    cases l' with
    | nil => rfl
    | cons a l' =>
      have hp : p = 0 := h.1
      have ha : p = a := h'.1.1
      exact absurd (ha ▸ hp) (h'.2 a mem_cons_self)
  | cons a l ih =>
    cases l' with
    | nil =>
      have hp : p = 0 := h'.1
      have ha : p = a := h.1.1
      exact absurd (ha ▸ hp) (h.2 a mem_cons_self)
    | cons b l' =>
      obtain ⟨rfl, hl⟩ := h.1
      obtain ⟨rfl, hl'⟩ := h'.1
      rw [ih ⟨hl, fun a ha => h.2 a (mem_cons_of_mem _ ha)⟩
        ⟨hl', fun a ha => h'.2 a (mem_cons_of_mem _ ha)⟩]

theorem Chain.drop (h : Chain next p (l ++ a :: l')) : Chain next (next a) l' := by
  obtain ⟨q, _, _, hl'⟩ := seg_append_iff.mp h.1
  exact ⟨hl', fun b hb => h.2 b (mem_append_right _ (mem_cons_of_mem _ hb))⟩

theorem Chain.congr (h : Chain next p l) (hn : ∀ a ∈ l, next' a = next a) : Chain next' p l :=
  ⟨h.1.congr hn, h.2⟩

theorem Chain.nodup (h : Chain next p l) : l.Nodup := by
  induction l generalizing p with
  | nil => exact nodup_nil
  | cons a l ih =>
    have hl : Chain next (next a) l := Chain.drop (p := p) (l := []) h
    refine nodup_cons.mpr ⟨fun hmem => ?_, ih hl⟩
    obtain ⟨l1, l2, rfl⟩ := append_of_mem hmem
    -- what follows the second visit is what follows the first
    have heq := hl.unique hl.drop
    have hlen := congrArg List.length heq
    simp only [length_append, length_cons] at hlen
    omega

theorem Chain.unlink {d : Nat} (h : Chain next p (l ++ a :: d :: l')) :
    Chain (update next a (next d)) p (l ++ a :: l') := by
  have hnd := h.nodup
  obtain ⟨q, hl, rfl, hd, hl'⟩ := seg_append_iff.mp h.1
  have hne : ∀ b, b ∈ l ∨ b ∈ l' → b ≠ q := by
    rintro b (hb | hb) rfl
    · exact (nodup_append.mp hnd).2.2 b hb b mem_cons_self rfl
    · have hq := (nodup_cons.mp (nodup_append.mp hnd).2.1).1
      exact hq (mem_cons_of_mem _ hb)
  refine ⟨seg_append_iff.mpr ⟨q, ?_, rfl, ?_⟩, fun b hb => h.2 b ?_⟩
  · exact hl.congr fun b hb => update_of_ne (hne b (.inl hb)) _ _
  · rw [update_self]
    exact hl'.congr fun b hb => update_of_ne (hne b (.inr hb)) _ _
  · simp only [mem_append, mem_cons] at hb ⊢
    rcases hb with hb | rfl | hb
    · exact .inl hb
    · exact .inr (.inl rfl)
    · exact .inr (.inr (.inr hb))

theorem Chain.append {b : Nat} (h : Chain next p (l ++ [b])) (ha : a ≠ 0) (hnew : a ∉ l ++ [b]) :
    Chain (update (update next a 0) b a) p (l ++ [b] ++ [a]) := by
  have hnd := h.nodup
  obtain ⟨q, hl, rfl, _⟩ := seg_append_iff.mp h.1
  have hqa : a ≠ q := fun he => hnew (he ▸ mem_append_right _ mem_cons_self)
  have hne : ∀ b ∈ l, b ≠ q ∧ b ≠ a := fun b hb =>
    ⟨(nodup_append.mp hnd).2.2 b hb q mem_cons_self,
      fun he => hnew (he ▸ mem_append_left _ hb)⟩
  refine ⟨seg_append_iff.mpr ⟨a, seg_append_iff.mpr ⟨q, ?_, rfl, ?_⟩, rfl, ?_⟩, fun b hb => ?_⟩
  · refine hl.congr fun b hb => ?_
    rw [update_of_ne (hne b hb).1, update_of_ne (hne b hb).2]
  · exact update_self _ _ _
  · change update (update next a 0) q a a = 0
    rw [update_of_ne hqa, update_self]
  · rcases mem_append.mp hb with hb | hb
    · exact h.2 b hb
    · rw [mem_singleton] at hb
      rw [hb]
      exact ha

end Links

section Cyclic

variable {α : Type} [DecidableEq α] {l pre post before rest : List α} {c p t : α}

def after (l : List α) (c : α) : List α :=
  (l.dropWhile fun a => decide (a ≠ c)).tail ++ l.takeWhile fun a => decide (a ≠ c)

theorem after_eq (hc : c ∉ pre) : after (pre ++ c :: post) c = post ++ pre := by
  have hpre : ∀ a ∈ pre, decide (a ≠ c) = true := by
    intro a ha
    simp only [decide_eq_true_eq]
    rintro rfl
    exact hc ha
  rw [after, dropWhile_append_of_pos hpre, takeWhile_append_of_pos hpre]
  simp

omit [DecidableEq α] in
theorem not_mem_before (hl : (pre ++ c :: post).Nodup) : c ∉ pre := fun hmem =>
  (nodup_append.mp hl).2.2 c hmem c mem_cons_self rfl

/-- Seen from an element of the cycle, what was before it comes last, behind the old start. -/
theorem after_rotate (hl : l.Nodup) (hc : c ∈ l) (h : after l c = before ++ p :: rest) :
    after l p = rest ++ c :: before := by
  obtain ⟨pre, post, rfl⟩ := append_of_mem hc
  rw [after_eq (not_mem_before hl)] at h
  rcases append_eq_append_iff.mp h with ⟨as, rfl, rfl⟩ | ⟨bs, rfl, hrest⟩
  · -- `p` lies in front of `c`
    have heq : (as ++ p :: rest) ++ c :: post = as ++ p :: (rest ++ c :: post) := by simp
    rw [heq] at hl ⊢
    rw [after_eq (not_mem_before hl)]
    simp
  · cases bs with
    | nil =>
      rw [nil_append] at hrest
      subst hrest
      have heq : (p :: rest) ++ c :: (before ++ []) = [] ++ p :: (rest ++ c :: before) := by simp
      rw [heq, after_eq not_mem_nil, append_nil]
    | cons b bs =>
      obtain ⟨rfl, rfl⟩ := List.cons.inj hrest
      have heq : pre ++ c :: (before ++ p :: bs) = (pre ++ c :: before) ++ p :: bs := by simp
      rw [heq] at hl ⊢
      rw [after_eq (not_mem_before hl)]
      simp

theorem mem_after (hl : l.Nodup) (hc : c ∈ l) : t ∈ after l c ↔ t ∈ l ∧ t ≠ c := by
  obtain ⟨pre, post, rfl⟩ := append_of_mem hc
  have hcpre := not_mem_before hl
  have hcpost : c ∉ post := (nodup_cons.mp (nodup_append.mp hl).2.1).1
  rw [after_eq hcpre]
  simp only [mem_append, mem_cons]
  constructor
  · rintro (h | h)
    · exact ⟨.inr (.inr h), fun he => hcpost (he ▸ h)⟩
    · exact ⟨.inl h, fun he => hcpre (he ▸ h)⟩
  · rintro ⟨h | rfl | h, hne⟩
    · exact .inr h
    · exact absurd rfl hne
    · exact .inl h

theorem length_after (hl : l.Nodup) (hc : c ∈ l) : (after l c).length + 1 = l.length := by
  obtain ⟨pre, post, rfl⟩ := append_of_mem hc
  rw [after_eq (not_mem_before hl)]
  simp only [length_append, length_cons]
  omega

end Cyclic

end Lib
