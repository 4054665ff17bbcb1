import Mathlib.Algebra.BigOperators.Intervals
import Mathlib.Algebra.Order.BigOperators.Group.Finset
import Mathlib.Tactic.Ring

/-!
# Lib.Ranges

Half-open ranges of natural numbers and how often a list of them covers each point. Two lists
tile the same set without overlap when their cover counts agree everywhere and are at most one;
cutting a range in two, joining two adjacent ones and adding a fresh one change the counts in the
obvious way, so a tiling is kept by editing the count and nothing else.
-/

namespace Lib

structure Range where
  base : Nat
  len : Nat
deriving DecidableEq, Repr

namespace Range

def Contains (r : Range) (a : Nat) : Prop := r.base ≤ a ∧ a < r.base + r.len

instance (r : Range) (a : Nat) : Decidable (r.Contains a) :=
  inferInstanceAs (Decidable (r.base ≤ a ∧ a < r.base + r.len))

def Disjoint (r s : Range) : Prop := r.base + r.len ≤ s.base ∨ s.base + s.len ≤ r.base

instance (r s : Range) : Decidable (r.Disjoint s) :=
  inferInstanceAs (Decidable (_ ∨ _))

theorem Disjoint.symm {r s : Range} (h : r.Disjoint s) : s.Disjoint r := Or.symm h

end Range

def cover (rs : List Range) (a : Nat) : Nat := rs.countP fun r => decide (r.Contains a)

def totalLen (rs : List Range) : Nat := (rs.map Range.len).sum

@[simp] theorem cover_nil (a : Nat) : cover [] a = 0 := rfl

theorem cover_cons (r : Range) (rs : List Range) (a : Nat) :
    cover (r :: rs) a = cover rs a + if r.Contains a then 1 else 0 := by
  simp [cover, List.countP_cons]

theorem cover_append (rs ss : List Range) (a : Nat) :
    cover (rs ++ ss) a = cover rs a + cover ss a := by
  simp [cover, List.countP_append]

theorem cover_perm {rs ss : List Range} (h : rs.Perm ss) (a : Nat) : cover rs a = cover ss a :=
  h.countP_eq _

@[simp] theorem totalLen_nil : totalLen [] = 0 := rfl

@[simp] theorem totalLen_cons (r : Range) (rs : List Range) :
    totalLen (r :: rs) = r.len + totalLen rs := by
  simp [totalLen]

@[simp] theorem totalLen_append (rs ss : List Range) :
    totalLen (rs ++ ss) = totalLen rs + totalLen ss := by
  simp [totalLen]

/-- Cutting a range in two (or, read backwards, joining two adjacent ones) keeps every count. -/
theorem cover_split (b x y : Nat) (rs : List Range) (a : Nat) :
    cover (⟨b, x⟩ :: ⟨b + x, y⟩ :: rs) a = cover (⟨b, x + y⟩ :: rs) a := by
  rw [cover_cons, cover_cons, cover_cons]
  have hiff : (⟨b, x + y⟩ : Range).Contains a ↔
      (⟨b, x⟩ : Range).Contains a ∨ (⟨b + x, y⟩ : Range).Contains a := by
    simp only [Range.Contains]; omega
  have hnot : ¬ ((⟨b, x⟩ : Range).Contains a ∧ (⟨b + x, y⟩ : Range).Contains a) := by
    simp only [Range.Contains]; omega
  by_cases h1 : (⟨b, x⟩ : Range).Contains a <;> by_cases h2 : (⟨b + x, y⟩ : Range).Contains a
  · exact absurd ⟨h1, h2⟩ hnot
  all_goals simp [h1, h2, hiff]

theorem cover_pos_iff {rs : List Range} {a : Nat} : 0 < cover rs a ↔ ∃ r ∈ rs, r.Contains a := by
  simp [cover, List.countP_pos_iff]

theorem disjoint_of_cover_le_one {l rs : List Range} {r s : Range}
    (h : ∀ a, cover (l ++ r :: rs) a ≤ 1) (hs : s ∈ l ++ rs) (hr : 0 < r.len) (hs' : 0 < s.len) :
    r.Disjoint s := by
  by_contra hd
  unfold Range.Disjoint at hd
  -- the larger of the two bases lies in both ranges
  have hmem : ∃ a, r.Contains a ∧ s.Contains a := by
    refine ⟨max r.base s.base, ?_, ?_⟩ <;> unfold Range.Contains <;> omega
  obtain ⟨a, har, has⟩ := hmem
  have hpos : 0 < cover (l ++ rs) a := cover_pos_iff.mpr ⟨s, hs, has⟩
  have h1 := h a
  rw [cover_append] at hpos
  rw [cover_append, cover_cons, if_pos har] at h1
  omega

theorem pairwise_disjoint_of_cover_le_one :
    ∀ {rs : List Range}, (∀ a, cover rs a ≤ 1) → (∀ r ∈ rs, 0 < r.len) →
      rs.Pairwise Range.Disjoint := by
  intro rs
  induction rs with
  | nil => intro _ _; exact .nil
  | cons r rs ih =>
    intro h hpos
    refine List.pairwise_cons.mpr ⟨?_, ?_⟩
    · intro s hs
      exact disjoint_of_cover_le_one (l := []) h hs (hpos r (by simp)) (hpos s (by simp [hs]))
    · refine ih (fun a => ?_) fun s hs => hpos s (by simp [hs])
      have := h a
      rw [cover_cons] at this
      omega

theorem cover_eq_zero_of_disjoint {rs : List Range} {r : Range} {a : Nat}
    (h : ∀ s ∈ rs, r.Disjoint s) (ha : r.Contains a) : cover rs a = 0 := by
  by_contra hne
  obtain ⟨s, hs, hsa⟩ := cover_pos_iff.mp (Nat.pos_of_ne_zero hne)
  have := h s hs
  unfold Range.Disjoint at this
  unfold Range.Contains at ha hsa
  omega

theorem cover_cons_le_one {rs : List Range} {r : Range} (h : ∀ a, cover rs a ≤ 1)
    (hd : ∀ s ∈ rs, r.Disjoint s) : ∀ a, cover (r :: rs) a ≤ 1 := by
  intro a
  rw [cover_cons]
  by_cases ha : r.Contains a
  · rw [if_pos ha, cover_eq_zero_of_disjoint hd ha]
  · rw [if_neg ha]; exact h a

theorem sum_contains {lo hi : Nat} {r : Range} (hlo : lo ≤ r.base) (hhi : r.base + r.len ≤ hi) :
    ∑ a ∈ Finset.Ico lo hi, (if r.Contains a then 1 else 0) = r.len := by
  rw [← Finset.card_filter]
  have : Finset.filter (fun a => r.Contains a) (Finset.Ico lo hi) =
      Finset.Ico r.base (r.base + r.len) := by
    ext a
    rw [Finset.mem_filter, Finset.mem_Ico, Finset.mem_Ico]
    unfold Range.Contains
    omega
  rw [this, Nat.card_Ico]
  omega

theorem sum_cover {lo hi : Nat} :
    ∀ {rs : List Range}, (∀ r ∈ rs, lo ≤ r.base ∧ r.base + r.len ≤ hi) →
      ∑ a ∈ Finset.Ico lo hi, cover rs a = totalLen rs := by
  intro rs
  induction rs with
  | nil => intro _; simp
  | cons r rs ih =>
    intro h
    have hr := h r (by simp)
    have hrest := ih fun s hs => h s (by simp [hs])
    simp only [cover_cons, Finset.sum_add_distrib, hrest, sum_contains hr.1 hr.2, totalLen_cons]
    omega

theorem totalLen_le {lo hi : Nat} {rs : List Range} (h : ∀ a, cover rs a ≤ 1)
    (hin : ∀ r ∈ rs, lo ≤ r.base ∧ r.base + r.len ≤ hi) : totalLen rs ≤ hi - lo := by
  rw [← sum_cover hin]
  calc ∑ a ∈ Finset.Ico lo hi, cover rs a ≤ ∑ _a ∈ Finset.Ico lo hi, 1 :=
        Finset.sum_le_sum fun a _ => h a
    _ = hi - lo := by simp

end Lib
