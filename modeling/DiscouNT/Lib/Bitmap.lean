import Mathlib.Data.Nat.Bitwise
import Mathlib.Data.List.Count

/-!
# Lib.Bitmap

Bits packed eight to a byte, with the mask arithmetic of C, and the number of clear bits below a
limit. Writing a bit changes that bit only, and the clear count by the obvious amount.
-/

namespace Lib
namespace Bitmap

open List

/-- `(uint8_t)(1U << (i & 7))`. -/
def mask (i : Nat) : UInt8 := UInt8.ofNat (2 ^ (i % 8))

def test (b : Nat → UInt8) (i : Nat) : Bool := b (i / 8) &&& mask i != 0

def write (b : Nat → UInt8) (i : Nat) (v : Bool) : Nat → UInt8 := fun k =>
  if k = i / 8 then (if v then b k ||| mask i else b k &&& ~~~ mask i) else b k

def clearBelow (b : Nat → UInt8) (n : Nat) : Nat := (List.range n).countP fun i => !test b i

theorem mask_toNat (i : Nat) : (mask i).toNat = 2 ^ (i % 8) := by
  have h : 2 ^ (i % 8) < 2 ^ 8 := Nat.pow_lt_pow_right (by decide) (Nat.mod_lt i (by decide))
  rw [mask, UInt8.toNat_ofNat']
  exact Nat.mod_eq_of_lt h

theorem test_eq_testBit (b : Nat → UInt8) (i : Nat) :
    test b i = (b (i / 8)).toNat.testBit (i % 8) := by
  have hand : (b (i / 8) &&& mask i).toNat =
      ((b (i / 8)).toNat.testBit (i % 8)).toNat * 2 ^ (i % 8) := by
    rw [UInt8.toNat_and, mask_toNat, Nat.and_two_pow]
  rw [test, bne, Bool.eq_iff_iff]
  simp only [Bool.not_eq_true', beq_eq_false_iff_ne, ne_eq, ← UInt8.toNat_inj, hand]
  cases (b (i / 8)).toNat.testBit (i % 8) <;> simp

theorem testBit_not_mask {i j : Nat} (hj : j < 8) :
    (~~~ mask i).toNat.testBit j = decide (j ≠ i % 8) := by
  have hi : i % 8 < 8 := Nat.mod_lt i (by decide)
  have key : ∀ k < 8, ∀ j < 8, (UInt8.size - 1 - 2 ^ k).testBit j = decide (j ≠ k) := by decide
  rw [UInt8.toNat_not, mask_toNat]
  exact key _ hi j hj

theorem test_write (b : Nat → UInt8) (i j : Nat) (v : Bool) :
    test (write b i v) j = if j = i then v else test b j := by
  have hj8 : j % 8 < 8 := Nat.mod_lt j (by decide)
  rw [test_eq_testBit, test_eq_testBit]
  by_cases hbyte : j / 8 = i / 8
  · have heq : j = i ↔ j % 8 = i % 8 := by omega
    simp only [write, if_pos hbyte]
    cases v with
    | true =>
      rw [if_pos rfl, UInt8.toNat_or, Nat.testBit_or, mask_toNat, Nat.testBit_two_pow]
      by_cases h : j = i
      · simp [h]
      · have : i % 8 ≠ j % 8 := by omega
        simp [h, this]
    | false =>
      rw [if_neg (by simp), UInt8.toNat_and, Nat.testBit_and, testBit_not_mask hj8]
      by_cases h : j = i
      · simp [h]
      · have : j % 8 ≠ i % 8 := by omega
        simp [h, this]
  · have hne : j ≠ i := by rintro rfl; exact hbyte rfl
    simp only [write, if_neg hbyte, if_neg hne]

theorem countP_range_succ (p : Nat → Bool) (n : Nat) :
    (List.range (n + 1)).countP p = (List.range n).countP p + (p n).toNat := by
  rw [range_succ, countP_append, countP_singleton]
  cases p n <;> rfl

theorem clearBelow_congr {b b' : Nat → UInt8} {n : Nat} (h : ∀ i, i < n → test b' i = test b i) :
    clearBelow b' n = clearBelow b n := by
  refine countP_congr fun i hi => ?_
  rw [h i (mem_range.mp hi)]

theorem clearBelow_le (b : Nat → UInt8) (n : Nat) : clearBelow b n ≤ n := by
  have := countP_le_length (p := fun i => !test b i) (l := List.range n)
  rw [length_range] at this
  exact this

theorem clearBelow_pos {b : Nat → UInt8} {n i : Nat} (hi : i < n) (hc : test b i = false) :
    0 < clearBelow b n :=
  countP_pos_iff.mpr ⟨i, mem_range.mpr hi, by rw [hc]; rfl⟩

theorem clearBelow_write (b : Nat → UInt8) (i : Nat) (v : Bool) : ∀ {n : Nat}, i < n →
    clearBelow (write b i v) n + (!test b i).toNat = clearBelow b n + (!v).toNat := by
  intro n
  induction n with
  | zero => intro h; omega
  | succ n ih =>
    intro h
    unfold clearBelow at ih ⊢
    rw [countP_range_succ, countP_range_succ]
    by_cases hin : i = n
    · subst hin
      have hlow : (List.range i).countP (fun j => !test (write b i v) j) =
          (List.range i).countP fun j => !test b j :=
        clearBelow_congr fun j hj => by rw [test_write, if_neg (by omega)]
      rw [hlow, test_write, if_pos rfl]
      omega
    · rw [test_write, if_neg (by omega)]
      have := ih (by omega)
      omega

end Bitmap
end Lib
