import DiscouNT.Lib.Forests
import DiscouNT.User32.Windows
import Mathlib.Data.Set.Card

/-!
# User32.WindowForest

What `u32_forget_native_window` does in a forest of windows: it returns, and clears the entry of the
window and the entries of all windows below it, each once.
-/

namespace DiscouNT.User32

open Lib List Function

section Forget

variable {s s' s'' : Desktop} {gone gone' : WindowSlot → Prop} {i j w : WindowSlot} {hwnd : Hwnd}

def Alive (s : Desktop) (i : WindowSlot) : Prop := (s.windows i).used = true

def BelowHwnd (s : Desktop) (hwnd : Hwnd) (i : WindowSlot) : Prop :=
  Below (Alive s) (fun i => (s.windows i).hwnd) (fun i => (s.windows i).parent) hwnd i

/-- Handles are unique, and no window is among its own ancestors. -/
structure Rooted (s : Desktop) : Prop where
  distinct : Distinct U32Window.used U32Window.hwnd s.windows
  ranked : Ranked (Alive s) (fun i => (s.windows i).hwnd) (fun i => (s.windows i).parent)

def held (b : Nat) (w : U32Window) : Nat := (w.editText.toList ++ w.listviewData.toList).count b

def tally (s : Desktop) (b : Nat) : Nat := s.freed.count b + ∑ i, held b (s.windows i)

theorem sum_held_update (ws : WindowSlot → U32Window) (i : WindowSlot) (w : U32Window) (b : Nat) :
    (∑ j, held b (update ws i w j)) + held b (ws i) = (∑ j, held b (ws j)) + held b w := by
  have hnew : ∑ j, held b (update ws i w j) =
      held b w + ∑ j ∈ Finset.univ.erase i, held b (ws j) := by
    rw [← Finset.add_sum_erase _ _ (Finset.mem_univ i), update_self]
    congr 1
    refine Finset.sum_congr rfl fun j hj => ?_
    rw [update_of_ne (Finset.ne_of_mem_erase hj)]
  have hold : ∑ j, held b (ws j) = held b (ws i) + ∑ j ∈ Finset.univ.erase i, held b (ws j) :=
    (Finset.add_sum_erase _ _ (Finset.mem_univ i)).symm
  omega

@[simp] theorem held_empty (b : Nat) : held b {} = 0 := rfl

/-- The entries `gone` were cleared, with their buffers freed, and nothing else happened. -/
structure Removed (s s' : Desktop) (gone : WindowSlot → Prop) : Prop where
  clears : ∀ i, gone i → s'.windows i = {}
  kept : ∀ i, ¬ gone i → s'.windows i = s.windows i
  tally : ∀ b, tally s' b = tally s b
  globals : s'.globals = s.globals
  queue : s'.queue = s.queue
  kernelPid : s'.kernelPid = s.kernelPid
  buffers : s'.buffers = s.buffers
  quits : s'.quits = s.quits
  frames : s'.frames = s.frames

theorem Removed.refl (s : Desktop) : Removed s s fun _ => False :=
  ⟨fun _ h => h.elim, fun _ _ => rfl, fun _ => rfl, rfl, rfl, rfl, rfl, rfl, rfl⟩

theorem Removed.congr (h : Removed s s' gone) (hg : ∀ i, gone' i ↔ gone i) : Removed s s' gone' :=
  { h with
    clears := fun i hi => h.clears i ((hg i).mp hi)
    kept := fun i hi => h.kept i fun hgi => hi ((hg i).mpr hgi) }

theorem Removed.trans (h : Removed s s' gone) (h' : Removed s' s'' gone') :
    Removed s s'' fun i => gone i ∨ gone' i where
  clears i hi := by
    by_cases hg : gone' i
    · exact h'.clears i hg
    · rw [h'.kept i hg]
      exact h.clears i (hi.resolve_right hg)
  kept i hi := by
    rw [not_or] at hi
    rw [h'.kept i hi.2, h.kept i hi.1]
  tally b := (h'.tally b).trans (h.tally b)
  globals := h'.globals.trans h.globals
  queue := h'.queue.trans h.queue
  kernelPid := h'.kernelPid.trans h.kernelPid
  buffers := h'.buffers.trans h.buffers
  quits := h'.quits.trans h.quits
  frames := h'.frames.trans h.frames

theorem freeWindow_removed (s : Desktop) (i : WindowSlot) :
    Removed s (freeWindow s i) fun j => j = i where
  clears j hj := by
    rw [hj]
    exact update_self ..
  kept j hj := update_of_ne hj _ _
  tally b := by
    have hsum := sum_held_update s.windows i {} b
    rw [held_empty, held, count_append] at hsum
    simp only [tally, freeWindow, setWindow, count_append]
    omega
  globals := rfl
  queue := rfl
  kernelPid := rfl
  buffers := rfl
  quits := rfl
  frames := rfl

section

variable (h : Removed s s' gone)
include h

theorem Removed.alive_iff : Alive s' i ↔ Alive s i ∧ ¬ gone i := by
  by_cases hg : gone i
  · simp [Alive, h.clears i hg, hg]
  · simp [Alive, h.kept i hg, hg]

theorem Removed.eq_of_alive (hi : Alive s' i) : s'.windows i = s.windows i :=
  h.kept i (h.alive_iff.mp hi).2

theorem Removed.within :
    Within (Alive s) (Alive s') (fun i => (s.windows i).hwnd) (fun i => (s'.windows i).hwnd)
      (fun i => (s.windows i).parent) fun i => (s'.windows i).parent := by
  intro i hi
  simp only [h.eq_of_alive hi, and_self, and_true]
  exact (h.alive_iff.mp hi).1

theorem Removed.below (hb : BelowHwnd s' hwnd i) : BelowHwnd s hwnd i :=
  Below.within h.within hb

theorem Removed.rooted (hr : Rooted s) : Rooted s' := by
  refine ⟨fun i j hi hj heq => ?_, hr.ranked.within h.within⟩
  rw [h.eq_of_alive hi, h.eq_of_alive hj] at heq
  exact hr.distinct i j (h.alive_iff.mp hi).1 (h.alive_iff.mp hj).1 heq

theorem Removed.below_or
    (hdown : ∀ i j, Alive s i → gone j → (s.windows i).parent = (s.windows j).hwnd → gone i)
    (hb : BelowHwnd s hwnd i) : gone i ∨ BelowHwnd s' hwnd i := by
  refine Below.removed (fun i hi hg => ?_) hdown hb
  exact ⟨h.alive_iff.mpr ⟨hi, hg⟩, by rw [h.kept i hg], by rw [h.kept i hg]⟩

end

theorem lookup_some (h : u32LookupWindow s.windows hwnd = some i) :
    Alive s i ∧ (s.windows i).hwnd = hwnd := findKey_some h

def BelowSome (s : Desktop) (hwnd : Hwnd) (l : List WindowSlot) (i : WindowSlot) : Prop :=
  ∃ j ∈ l, Alive s j ∧ (s.windows j).parent = hwnd ∧ BelowHwnd s (s.windows j).hwnd i

theorem belowSome_down (l : List WindowSlot) (i j : WindowSlot) (hi : Alive s i)
    (hj : BelowSome s hwnd l j) (hp : (s.windows i).parent = (s.windows j).hwnd) :
    BelowSome s hwnd l i := by
  obtain ⟨c, hc, hac, hpc, hb⟩ := hj
  exact ⟨c, hc, hac, hpc, .child hi hb hp⟩

noncomputable def subtreeSize (s : Desktop) (hwnd : Hwnd) : Nat :=
  Set.ncard { i | BelowHwnd s hwnd i }

theorem subtreeSize_le (s : Desktop) (hwnd : Hwnd) : subtreeSize s hwnd ≤ maxU32Windows := by
  have hcard := Set.ncard_le_ncard (Set.subset_univ { i | BelowHwnd s hwnd i })
  rwa [Set.ncard_univ, Nat.card_eq_fintype_card, Fintype.card_fin] at hcard

theorem subtreeSize_lt (h : Removed s s' gone) (hr : Rooted s) (hw : Alive s w)
    (hj : Alive s j) (hp : (s.windows j).parent = (s.windows w).hwnd) :
    subtreeSize s' (s.windows j).hwnd < subtreeSize s (s.windows w).hwnd := by
  refine Set.ncard_lt_ncard (Set.ssubset_iff_exists.mpr ⟨fun i hi => ?_, w, ?_, fun hw' => ?_⟩)
  · exact (below_iff_children hr.distinct hw rfl).mpr (.inr ⟨j, hj, hp, h.below hi⟩)
  · exact .self hw rfl
  · exact hr.ranked.not_below hr.distinct hw hj hp (h.below hw')

theorem forget_children {n : Nat} (hr : Rooted s) (hw : Alive s w)
    (ih : ∀ s hwnd, Rooted s → subtreeSize s hwnd < n →
      ∃ s', u32ForgetNativeWindow n hwnd s = some s' ∧ Removed s s' (BelowHwnd s hwnd))
    (hsize : subtreeSize s (s.windows w).hwnd < n + 1) (l : List WindowSlot) :
    ∃ s', l.foldlM (fun s' i =>
        if (s'.windows i).used && decide ((s'.windows i).parent = (s.windows w).hwnd) then
          u32ForgetNativeWindow n (s'.windows i).hwnd s'
        else some s') s = some s' ∧ Removed s s' (BelowSome s (s.windows w).hwnd l) := by
  induction l using List.reverseRecOn with
  | nil => exact ⟨s, rfl, (Removed.refl s).congr fun i => by simp [BelowSome]⟩
  | append_singleton l i ihl =>
    obtain ⟨t, hfold, ht⟩ := ihl
    have hstep : ∀ j, BelowSome s (s.windows w).hwnd (l ++ [i]) j ↔
        BelowSome s (s.windows w).hwnd l j ∨
          (Alive s i ∧ (s.windows i).parent = (s.windows w).hwnd ∧
            BelowHwnd s (s.windows i).hwnd j) := by
      intro j
      simp only [BelowSome, mem_append, mem_singleton]
      constructor
      · rintro ⟨c, hc | rfl, hrest⟩
        · exact .inl ⟨c, hc, hrest⟩
        · exact .inr hrest
      · rintro (⟨c, hc, hrest⟩ | hrest)
        · exact ⟨c, .inl hc, hrest⟩
        · exact ⟨i, .inr rfl, hrest⟩
    rw [foldlM_append, hfold]
    simp only [Option.bind_eq_bind, Option.bind_some, foldlM_cons, foldlM_nil]
    by_cases hchild : Alive t i ∧ (t.windows i).parent = (s.windows w).hwnd
    · obtain ⟨hi, hp⟩ := hchild
      have hkept := ht.eq_of_alive hi
      have his : Alive s i := (ht.alive_iff.mp hi).1
      rw [hkept] at hp
      obtain ⟨s', hs', hrem⟩ := ih t (s.windows i).hwnd (ht.rooted hr)
        (Nat.lt_of_lt_of_le (subtreeSize_lt ht hr hw his hp) (Nat.le_of_lt_succ hsize))
      refine ⟨s', ?_, (ht.trans hrem).congr fun j => ?_⟩
      · have hused : (s.windows i).used = true := his
        simp [hkept, hp, hs', hused]
      · rw [hstep j]
        constructor
        · rintro (hj | ⟨-, -, hb⟩)
          · exact .inl hj
          · exact ht.below_or (fun a b ha hb hab => belowSome_down l a b ha hb hab) hb
        · rintro (hj | hb)
          · exact .inl hj
          · exact .inr ⟨his, hp, ht.below hb⟩
    · refine ⟨t, ?_, ht.congr fun j => ?_⟩
      · have hcond : ¬ ((t.windows i).used && decide ((t.windows i).parent = (s.windows w).hwnd)) = true := by
          simpa [Alive] using hchild
        simp [hcond]
      · rw [hstep j, or_iff_left_iff_imp]
        rintro ⟨his, hp, hb⟩
        have hgone : BelowSome s (s.windows w).hwnd l i := by
          by_contra hnot
          refine hchild ⟨ht.alive_iff.mpr ⟨his, hnot⟩, ?_⟩
          rw [ht.kept i hnot]
          exact hp
        induction hb with
        | @self a ha hk =>
          obtain rfl := hr.distinct a i ha his hk
          exact hgone
        | @child a b ha _ hab ihb => exact belowSome_down l a b ha ihb hab

theorem forget_removed (n : Nat) (s : Desktop) (hwnd : Hwnd) (hr : Rooted s)
    (hsize : subtreeSize s hwnd < n) :
    ∃ s', u32ForgetNativeWindow n hwnd s = some s' ∧ Removed s s' (BelowHwnd s hwnd) := by
  induction n generalizing s hwnd with
  | zero => omega
  | succ n ih =>
    rw [u32ForgetNativeWindow]
    rcases hf : u32LookupWindow s.windows hwnd with _ | w
    · refine ⟨s, rfl, (Removed.refl s).congr fun i => iff_of_false ?_ id⟩
      intro hb
      induction hb with
      | self hi hk => exact findKey_eq_none.mp hf _ hi hk
      | child _ _ _ ih => exact ih
    · obtain ⟨hw, rfl⟩ := lookup_some hf
      obtain ⟨t, hfold, ht⟩ := forget_children hr hw ih hsize (List.finRange maxU32Windows).reverse
      simp only [hfold, Option.map_some]
      refine ⟨_, rfl, (ht.trans (freeWindow_removed t w)).congr fun i => ?_⟩
      have hiff : BelowHwnd s (s.windows w).hwnd i ↔ i = w ∨ ∃ j, Alive s j ∧
          (s.windows j).parent = (s.windows w).hwnd ∧ BelowHwnd s (s.windows j).hwnd i :=
        below_iff_children hr.distinct hw rfl
      rw [hiff, or_comm]
      simp [BelowSome]

end Forget

end DiscouNT.User32
