import DiscouNT.Fb.Ttf

/-!
# Fb.TtfLookup

Looking things up in a font stays inside it: the table directory, the character map and the glyph
offsets are read only after a range check that covers them, whatever they hold.
-/

namespace DiscouNT.Fb

open Lib Logged

variable {t : Ttf}

section Reads

variable {a n : Nat}

@[simp] theorem all_byteAt : (byteAt t a).All (Access.Safe n) ↔ a + 1 ≤ n := all_note _ _

@[simp] theorem all_u16At : (u16At t a).All (Access.Safe n) ↔ a + 2 ≤ n := all_note _ _

@[simp] theorem all_s16At : (s16At t a).All (Access.Safe n) ↔ a + 2 ≤ n := all_note _ _

@[simp] theorem all_u32At : (u32At t a).All (Access.Safe n) ↔ a + 4 ≤ n := all_note _ _

@[simp] theorem all_elemAt {α : Type} {array : Nat → α} {i k : Nat} :
    (elemAt array i k).All (Access.Safe n) ↔ i < k :=
  all_note _ _

@[simp] theorem all_divide {d e : Int32} : (divide d e).All (Access.Safe n) ↔ e ≠ 0 :=
  all_note _ _

@[simp] theorem val_byteAt (t : Ttf) (a : Nat) : (byteAt t a).val = t.data a := rfl

@[simp] theorem val_u16At (t : Ttf) (a : Nat) : (u16At t a).val = word16 t.data a := rfl

@[simp] theorem val_s16At (t : Ttf) (a : Nat) : (s16At t a).val = toS16 (word16 t.data a) := rfl

@[simp] theorem val_u32At (t : Ttf) (a : Nat) : (u32At t a).val = word32 t.data a := rfl

@[simp] theorem val_elemAt {α : Type} (array : Nat → α) (i k : Nat) :
    (elemAt array i k).val = array i := rfl

end Reads

theorem rangeOk_iff {off len : Nat} :
    rangeOk t off len = true ↔ off ≤ t.size ∧ off + len ≤ t.size := by
  rw [rangeOk, decide_eq_true_iff]
  omega

theorem table_safe (t : Ttf) (tag : Nat) : (table t tag).All (Access.Safe t.size) := by
  rw [table]
  split
  · exact all_pure 0
  rename_i hsize
  rw [Logged.all_bind, all_u16At]
  refine ⟨by omega, ?_⟩
  split
  · rename_i hrange
    obtain ⟨_, hcount⟩ := rangeOk_iff.mp hrange
    rw [Logged.all_bind]
    refine ⟨Logged.All.search fun i _ hi => ?_, all_pure _⟩
    rw [Logged.all_bind, all_u32At]
    refine ⟨by omega, ?_⟩
    split
    · exact all_pure _
    · simp only [Logged.all_bind, all_u32At, all_pure, and_true]
      omega
  · exact all_pure 0

theorem table_le (t : Ttf) (tag : Nat) : (table t tag).val ≤ t.size := by
  simp only [table, val_ite, val_bind, val_pure]
  split
  · exact Nat.zero_le _
  split
  · generalize hfound : (search _ _ _).val = found
    cases found with
    | none => exact Nat.zero_le _
    | some off =>
      obtain ⟨i, hi⟩ := val_search_eq_some hfound
      simp only [val_ite, val_bind, val_pure] at hi
      split at hi
      · cases hi
      split at hi
      · rename_i hrange
        cases hi
        exact (rangeOk_iff.mp hrange).1
      · cases hi
        exact Nat.zero_le _
  · exact Nat.zero_le _

theorem segment_safe {ch sub segCount j : Nat} (hsub : sub + 16 + segCount * 8 ≤ t.size)
    (hj : j < segCount) : (segment t ch sub segCount j).All (Access.Safe t.size) := by
  rw [segment]
  simp only [Logged.all_bind, all_u16At]
  refine ⟨by omega, by omega, ?_⟩
  split
  · exact all_pure _
  rw [Logged.all_bind, all_u16At]
  refine ⟨by omega, ?_⟩
  split
  · simp only [Logged.all_bind, all_s16At, all_pure, and_true]
    omega
  split
  · rename_i hrange
    rw [Logged.all_bind, all_u16At]
    refine ⟨(rangeOk_iff.mp hrange).2, ?_⟩
    split
    · exact all_pure _
    · simp only [Logged.all_bind, all_s16At, all_pure, and_true]
      omega
  · exact all_pure _

theorem cmapRecord_safe {ch pass i : Nat} (hsize : t.size < 2 ^ 32)
    (hrecord : t.cmap + 4 + i * 8 + 8 ≤ t.size) : (cmapRecord t ch pass i).All (Access.Safe t.size) := by
  rw [cmapRecord]
  simp only [Logged.all_bind, all_u16At, all_u32At]
  refine ⟨by omega, by omega, by omega, ?_⟩
  generalize (u32At t (t.cmap + 4 + i * 8 + 4)).val = off
  split
  · exact all_pure _
  split
  · exact all_pure _
  rename_i hoff
  rw [not_or, not_not, sub32_of_le hsize (by omega), u32_of_lt (by omega), rangeOk_iff] at hoff
  rw [Logged.all_bind, all_u16At]
  refine ⟨by omega, ?_⟩
  split
  · exact all_pure _
  rw [Logged.all_bind, all_u16At]
  refine ⟨by omega, ?_⟩
  rw [u32_of_lt (by omega), sub32_of_le hsize (by omega)]
  split
  · exact all_pure _
  · rename_i hseg
    exact Logged.All.search fun j _ hj => segment_safe (by omega) (by omega)

theorem glyphFor_safe (hsize : t.size < 2 ^ 32) (ch : Nat) : (glyphFor t ch).All (Access.Safe t.size) := by
  rw [glyphFor]
  split
  · exact all_pure _
  split
  · exact all_pure _
  rename_i hcmap
  rw [not_not, rangeOk_iff] at hcmap
  rw [Logged.all_bind, all_u16At]
  refine ⟨by omega, ?_⟩
  split
  · exact all_pure _
  rename_i hrecords
  rw [not_not, u32_of_lt (by omega), rangeOk_iff] at hrecords
  rw [Logged.all_bind]
  refine ⟨Logged.All.search fun pass _ _ => Logged.All.search fun i _ hi => ?_, all_pure _⟩
  exact cmapRecord_safe hsize (by omega)

theorem glyphOffset_safe (t : Ttf) (glyph : Nat) :
    (glyphOffset t glyph).All (Access.Safe t.size) := by
  rw [glyphOffset]
  split
  · exact all_pure _
  by_cases hfmt : t.locaFormat = 0
  · simp only [ne_eq, hfmt, not_true_eq_false, if_false]
    split
    · exact all_pure _
    · rename_i hrange
      rw [not_not, rangeOk_iff] at hrange
      rw [Logged.all_bind, Logged.all_map]
      exact ⟨all_u16At.mpr hrange.2, all_pure _⟩
  · simp only [ne_eq, hfmt, not_false_eq_true, if_true]
    split
    · exact all_pure _
    · rename_i hrange
      rw [not_not, rangeOk_iff] at hrange
      exact (Logged.all_bind _ _).mpr ⟨all_u32At.mpr hrange.2, all_pure _⟩

theorem glyphOffset_le (hsize : t.size < 2 ^ 32) (hglyf : t.glyf ≤ t.size) (glyph : Nat) :
    t.glyf + (glyphOffset t glyph).val ≤ t.size := by
  have hchecked : ∀ off : Nat, t.glyf + (if off ≤ sub32 t.size t.glyf then off else 0) ≤ t.size := by
    intro off
    rw [sub32_of_le hsize hglyf]
    split <;> omega
  have hcase : ∀ (c : Prop) [Decidable c] (x : Logged Access Nat),
      t.glyf + x.val ≤ t.size → t.glyf + (if c then pure 0 else x).val ≤ t.size := by
    intro c _ x hx
    split
    · exact hglyf
    · exact hx
  refine hcase _ _ (hcase _ _ ?_)
  simp only
  split
  · exact hchecked _
  · exact hchecked _

end DiscouNT.Fb
