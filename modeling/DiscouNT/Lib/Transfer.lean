import Mathlib.Data.List.Induction
import Mathlib.Data.List.Pairwise

/-!
# Lib.Transfer

Cells copied one after the other, where what is read may have been written by then. A list of
transfers with targets of their own does what it would do if all sources were read first, exactly
when every transfer that comes too late reads a cell that already held what it was given
(`run_copies_iff`).

`pairwise_iff_of_sorted` turns a condition on earlier and later elements of a sorted list into one
on the order.
-/

namespace Lib

open List Function

/-- A cell that is written, and the cell or the value it is written from. -/
structure Transfer (κ α : Type) where
  target : κ
  source : κ ⊕ α

namespace Transfer

variable {κ α : Type}

def value (m : κ → α) : κ ⊕ α → α := Sum.elim m id

section Run

variable [DecidableEq κ] {m : κ → α} {t : Transfer κ α} {l : List (Transfer κ α)} {k : κ}

def step (m : κ → α) (t : Transfer κ α) : κ → α := update m t.target (value m t.source)

def run (m : κ → α) (l : List (Transfer κ α)) : κ → α := l.foldl step m

@[simp] theorem run_append_singleton : run m (l ++ [t]) = step (run m l) t := by
  rw [run, run, foldl_append, foldl_cons, foldl_nil]

theorem run_of_not_target (h : ∀ t ∈ l, t.target ≠ k) : run m l k = m k := by
  induction l using List.reverseRecOn with
  | nil => rfl
  | append_singleton l t ih =>
    rw [run_append_singleton, step,
      update_of_ne (h t (mem_append_right _ (mem_singleton_self t))).symm]
    exact ih fun u hu => h u (mem_append_left _ hu)

/-- After transfers that copy, a source has its old value exactly when the transfer that wrote it,
if there is one, changed nothing. -/
theorem value_run_iff (h : ∀ u ∈ l, run m l u.target = value m u.source) (s : κ ⊕ α) :
    value (run m l) s = value m s ↔ ∀ u ∈ l, s = .inl u.target → m u.target = value m u.source := by
  cases s with
  | inr a =>
    constructor
    · intro _ u _ hs
      cases hs
    · exact fun _ => rfl
  | inl k =>
    constructor
    · intro hold u hu hs
      cases hs
      exact hold.symm.trans (h u hu)
    · intro hquiet
      by_cases hk : ∃ u ∈ l, u.target = k
      · obtain ⟨u, hu, rfl⟩ := hk
        exact (h u hu).trans (hquiet u hu rfl).symm
      · exact run_of_not_target fun u hu hut => hk ⟨u, hu, hut⟩

theorem run_copies_iff (hnodup : (l.map target).Nodup) :
    (∀ t ∈ l, run m l t.target = value m t.source) ↔
      l.Pairwise fun u t => t.source = .inl u.target → m u.target = value m u.source := by
  induction l using List.reverseRecOn with
  | nil =>
    constructor
    · exact fun _ => List.Pairwise.nil
    · exact fun _ t ht => (not_mem_nil ht).elim
  | append_singleton l t ih =>
    rw [map_append, nodup_append] at hnodup
    obtain ⟨hl, -, hdisjoint⟩ := hnodup
    have hother : ∀ u ∈ l, u.target ≠ t.target := fun u hu =>
      hdisjoint _ (mem_map_of_mem hu) _ (mem_singleton_self _)
    -- the last transfer leaves the earlier targets as they are
    have hlast : (∀ u ∈ l ++ [t], run m (l ++ [t]) u.target = value m u.source) ↔
        (∀ u ∈ l, run m l u.target = value m u.source) ∧
          value (run m l) t.source = value m t.source := by
      rw [forall_mem_append, forall_mem_singleton, run_append_singleton, step, update_self]
      refine and_congr_left fun _ => forall₂_congr fun u hu => ?_
      rw [update_of_ne (hother u hu)]
    rw [hlast, pairwise_append, ih hl]
    constructor
    · rintro ⟨hpairwise, hvalue⟩
      refine ⟨hpairwise, pairwise_singleton _ _, fun u hu v hv => ?_⟩
      obtain rfl := mem_singleton.mp hv
      exact (value_run_iff ((ih hl).mpr hpairwise) _).mp hvalue u hu
    · rintro ⟨hpairwise, -, hpairs⟩
      refine ⟨hpairwise, (value_run_iff ((ih hl).mpr hpairwise) _).mpr fun u hu => ?_⟩
      exact hpairs u hu t (mem_singleton_self t)

end Run

theorem pairwise_iff_of_sorted {β : Type} {lt R : β → β → Prop} {l : List β}
    (hsorted : l.Pairwise lt) (hasymm : ∀ a b, lt a b → ¬ lt b a) :
    l.Pairwise R ↔ ∀ a ∈ l, ∀ b ∈ l, lt a b → R a b := by
  constructor
  · intro hR
    induction hsorted with
    | nil => exact fun a ha => (not_mem_nil ha).elim
    | @cons c l hc _ ih =>
      obtain ⟨hcR, hlR⟩ := pairwise_cons.mp hR
      intro a ha b hb hlt
      rcases mem_cons.mp ha with rfl | hal
      · rcases mem_cons.mp hb with rfl | hbl
        · exact absurd hlt (hasymm _ _ hlt)
        · exact hcR b hbl
      · rcases mem_cons.mp hb with rfl | hbl
        · exact absurd hlt (hasymm _ _ (hc a hal))
        · exact ih hlR a hal b hbl hlt
  · intro hR
    exact hsorted.imp_of_mem fun ha hb hlt => hR _ ha _ hb hlt

end Transfer
end Lib
