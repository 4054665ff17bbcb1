import DiscouNT.Arch
import Mathlib.Tactic.Ring

/-!
# Util.Divide

Division of 64-bit numbers by shifting and subtracting: `util_udivmod64` of `kernel/core/util.c` with
the functions that call it, and `k32_udivmod64` of `dlls/kernel32/kernel32.c`.
-/

namespace DiscouNT.Util

def divPass (num den i : Nat) (s : Nat × Nat) : Nat × Nat :=
  let r := u64 (s.2 <<< 1) ||| (num >>> i &&& 1)
  if r ≥ den then (s.1 ||| 1 <<< i, r - den) else (s.1, r)

def divPasses (num den : Nat) : Nat → Nat × Nat
  | 0 => (0, 0)
  | k + 1 => divPass num den (63 - k) (divPasses num den k)

def utilUdivmod64 (num den : Nat) : Nat × Nat := if den = 0 then (0, 0) else divPasses num den 64

def k32Udivmod64 (num den : Nat) : Nat × Nat := if den = 0 then (0, 0) else divPasses num den 64

def udivdi3 (num den : Nat) : Nat := (utilUdivmod64 num den).1

def umoddi3 (num den : Nat) : Nat := (utilUdivmod64 num den).2

-- conversions to `uint64_t` and `int64_t`, and the negation of an `int64_t`
def toU64 (n : Int) : Nat := (n % 2 ^ 64).toNat
def toS64 (n : Nat) : Int := (n : Int).bmod (2 ^ 64)
def neg64 (n : Int) : Int := (-n).bmod (2 ^ 64)

def magnitude (n : Int) : Nat := toU64 (if n < 0 then neg64 n else n)

def divdi3 (num den : Int) : Int :=
  if den = 0 then 0
  else
    let uq := (utilUdivmod64 (magnitude num) (magnitude den)).1
    if (num < 0) ≠ (den < 0) then neg64 (toS64 uq) else toS64 uq

def moddi3 (num den : Int) : Int :=
  if den = 0 then 0
  else
    let rem := (utilUdivmod64 (magnitude num) (magnitude den)).2
    if num < 0 then neg64 (toS64 rem) else toS64 rem

/-- What holds after `k` passes: the bits of the dividend that were taken, divided. -/
structure Divided (num den k : Nat) (s : Nat × Nat) : Prop where
  eq : num / 2 ^ (64 - k) = s.1 / 2 ^ (64 - k) * den + s.2
  lower : s.1 % 2 ^ (64 - k) = 0
  lt : s.2 < den

section Passes

variable {num den i k a b : Nat} {s : Nat × Nat}

theorem or_low (hb : b < 2 ^ i) : 2 ^ i * a ||| b = 2 ^ i * a + b :=
  (Nat.two_pow_add_eq_or_of_lt hb a).symm

/-- The remainder is below `2^63` before each pass, and the shift takes in a bit. -/
theorem Divided.shift (hd : Divided num den k s) (hnum : num < 2 ^ 64) (hk : k < 64) :
    s.2 < 2 ^ 63 ∧ u64 (s.2 <<< 1) ||| (num >>> (63 - k) &&& 1) =
      2 * s.2 + num / 2 ^ (63 - k) % 2 := by
  have hexp : 64 - k = 63 - k + 1 := by omega
  have hr : s.2 ≤ num / 2 ^ (64 - k) := by
    rw [hd.eq]
    exact Nat.le_add_left _ _
  have htop : num / 2 ^ (64 - k) ≤ num / 2 := by
    rw [hexp, Nat.pow_succ, Nat.mul_comm, ← Nat.div_div_eq_div_mul]
    exact Nat.div_le_self _ _
  have hsmall : s.2 < 2 ^ 63 := by omega
  have hor := @or_low 1 s.2 (num / 2 ^ (63 - k) % 2) (Nat.mod_lt _ (by decide))
  refine ⟨hsmall, ?_⟩
  rw [Nat.shiftLeft_eq, u64, Nat.mod_eq_of_lt (by omega), Nat.shiftRight_eq_div_pow,
    Nat.and_one_is_mod, Nat.mul_comm s.2]
  exact hor

theorem Divided.pass (hd : Divided num den k s) (hnum : num < 2 ^ 64) (hk : k < 64) :
    Divided num den (k + 1) (divPass num den (63 - k) s) := by
  have hexp : 64 - k = 63 - k + 1 := by omega
  have hexp' : 64 - (k + 1) = 63 - k := by omega
  obtain ⟨q, r⟩ := s
  obtain ⟨heq, hlow, hlt⟩ := hd
  rw [divPass, (Divided.shift ⟨heq, hlow, hlt⟩ hnum hk).2]
  rw [hexp] at heq hlow
  generalize 63 - k = i at heq hlow hexp' ⊢
  have hpos : 0 < 2 ^ i := Nat.two_pow_pos i
  -- the bits that were taken, with the next one
  have hbit : num / 2 ^ i = 2 * (num / 2 ^ (i + 1)) + num / 2 ^ i % 2 := by
    rw [Nat.pow_succ, ← Nat.div_div_eq_div_mul]
    omega
  obtain ⟨a, ha⟩ := Nat.dvd_of_mod_eq_zero hlow
  dsimp only at ha heq hlt ⊢
  rw [ha, Nat.mul_div_cancel_left a (Nat.two_pow_pos _)] at heq
  have hq : q = 2 ^ i * (2 * a) := by rw [ha, Nat.pow_succ]; ring
  have hq' : q ||| 1 <<< i = 2 ^ i * (2 * a + 1) := by
    rw [Nat.shiftLeft_eq, Nat.one_mul, ha, or_low (Nat.pow_lt_pow_right (by decide) (by omega)),
      Nat.pow_succ]
    ring
  split
  · rename_i hge
    refine ⟨?_, ?_, ?_⟩
    · rw [hexp', hq', Nat.mul_div_cancel_left _ hpos, hbit, heq]
      have : (2 * a + 1) * den = 2 * (a * den) + den := by ring
      dsimp only
      omega
    · rw [hexp', hq', Nat.mul_mod_right]
    · dsimp only
      omega
  · rename_i hge
    refine ⟨?_, ?_, ?_⟩
    · rw [hexp', hq, Nat.mul_div_cancel_left _ hpos, hbit, heq]
      have : 2 * a * den = 2 * (a * den) := by ring
      dsimp only
      omega
    · rw [hexp', hq, Nat.mul_mod_right]
    · dsimp only
      omega

theorem divided (hnum : num < 2 ^ 64) (hden : den ≠ 0) (hk : k ≤ 64) :
    Divided num den k (divPasses num den k) := by
  induction k with
  | zero =>
    refine ⟨?_, rfl, Nat.pos_of_ne_zero hden⟩
    rw [Nat.div_eq_of_lt hnum]
    simp [divPasses]
  | succ k ih => exact (ih (by omega)).pass hnum (by omega)

theorem divPasses_eq (hnum : num < 2 ^ 64) (hden : den ≠ 0) :
    divPasses num den 64 = (num / den, num % den) := by
  obtain ⟨heq, -, hlt⟩ := divided hnum hden (le_refl 64)
  rw [Nat.sub_self, Nat.pow_zero, Nat.div_one, Nat.div_one] at heq
  obtain ⟨hq, hr⟩ := (Nat.div_mod_unique (Nat.pos_of_ne_zero hden)).mpr
    ⟨by rw [Nat.add_comm, Nat.mul_comm, ← heq], hlt⟩
  exact Prod.ext hq.symm hr.symm

theorem utilUdivmod64_eq (hnum : num < 2 ^ 64) (hden : den ≠ 0) :
    utilUdivmod64 num den = (num / den, num % den) := by
  rw [utilUdivmod64, if_neg hden, divPasses_eq hnum hden]

end Passes

def IsS64 (n : Int) : Prop := -2 ^ 63 ≤ n ∧ n < 2 ^ 63

theorem magnitude_eq {n : Int} (h : IsS64 n) : magnitude n = n.natAbs := by
  obtain ⟨hlo, hhi⟩ := h
  unfold magnitude toU64 neg64
  split
  · have hmod : (-n).bmod (2 ^ 64) % 2 ^ 64 = -n % 2 ^ 64 := Int.bmod_emod
    omega
  · omega

theorem signed_eq (n : Nat) (c : Prop) [Decidable c] :
    (if c then neg64 (toS64 n) else toS64 n) = (if c then -(n : Int) else n).bmod (2 ^ 64) := by
  unfold neg64 toS64
  split
  · exact Int.bmod_neg_bmod
  · rfl

theorem tdiv_eq (num den : Int) : (if (num < 0) ≠ (den < 0) then
    -((num.natAbs / den.natAbs : Nat) : Int) else (num.natAbs / den.natAbs : Nat)) =
      num.tdiv den := by
  have hnat : ∀ n : Nat, ¬ (n : Int) < 0 := fun n => by omega
  cases num <;> cases den <;> simp [Int.tdiv, Int.negSucc_lt_zero, hnat]

theorem tmod_eq (num den : Int) : (if num < 0 then -((num.natAbs % den.natAbs : Nat) : Int) else
    (num.natAbs % den.natAbs : Nat)) = num.tmod den := by
  cases num <;> cases den <;> simp [Int.tmod, Int.negSucc_lt_zero]

variable {num den : Int}

theorem divdi3_eq (hn : IsS64 num) (hd : IsS64 den) (hden : den ≠ 0) :
    divdi3 num den = (num.tdiv den).bmod (2 ^ 64) := by
  have hn' := hn.1
  have hn'' := hn.2
  rw [divdi3, if_neg hden, magnitude_eq hn, magnitude_eq hd,
    utilUdivmod64_eq (by omega) (Int.natAbs_ne_zero.mpr hden)]
  exact (signed_eq _ _).trans (congrArg (fun n => Int.bmod n (2 ^ 64)) (tdiv_eq num den))

theorem moddi3_eq (hn : IsS64 num) (hd : IsS64 den) (hden : den ≠ 0) :
    moddi3 num den = num.tmod den := by
  have hn' := hn.1
  have hn'' := hn.2
  rw [moddi3, if_neg hden, magnitude_eq hn, magnitude_eq hd,
    utilUdivmod64_eq (by omega) (Int.natAbs_ne_zero.mpr hden)]
  refine (signed_eq _ _).trans ?_
  have hle := Nat.mod_le num.natAbs den.natAbs
  have hlt := Nat.mod_lt num.natAbs (Int.natAbs_pos.mpr hden)
  have hd' := hd.1
  have hd'' := hd.2
  rw [← tmod_eq]
  split
  · exact Int.bmod_eq_of_le (by omega) (by omega)
  · exact Int.bmod_eq_of_le (by omega) (by omega)

theorem tdiv_fits (hn : IsS64 num) (hmin : ¬ (num = -2 ^ 63 ∧ den = -1)) : IsS64 (num.tdiv den) := by
  have habs : (num.tdiv den).natAbs = num.natAbs / den.natAbs := Int.natAbs_tdiv num den
  have hle := Nat.div_le_self num.natAbs den.natAbs
  obtain ⟨hlo, hhi⟩ := hn
  refine ⟨by omega, ?_⟩
  by_contra hbig
  -- only the quotient of `INT64_MIN` and a number of magnitude 1 is that large
  have hone : den.natAbs = 1 := by
    by_contra hne
    rcases Nat.eq_zero_or_pos den.natAbs with h0 | hpos
    · rw [h0, Nat.div_zero] at habs
      omega
    · have hhalf : num.natAbs / den.natAbs ≤ num.natAbs / 2 :=
        Nat.div_le_div_left (by omega) (by decide)
      omega
  rcases Int.natAbs_eq den with h | h
  · rw [h, hone, Nat.cast_one, Int.tdiv_one] at hbig
    omega
  · rw [hone, Nat.cast_one] at h
    rw [h, Int.tdiv_neg, Int.tdiv_one] at hbig
    omega

theorem division_exact :
    (∀ num den : Nat, num < 2 ^ 64 → den ≠ 0 →
      utilUdivmod64 num den = (num / den, num % den) ∧
      k32Udivmod64 num den = (num / den, num % den) ∧
      ∀ k < 64, 2 * (divPasses num den k).2 + 1 < 2 ^ 64) ∧
    (∀ num den : Int, IsS64 num → IsS64 den → den ≠ 0 →
      moddi3 num den = num.tmod den ∧
      (¬ (num = -2 ^ 63 ∧ den = -1) → divdi3 num den = num.tdiv den ∧
        num = divdi3 num den * den + moddi3 num den) ∧
      (divdi3 num den * den + moddi3 num den - num) % 2 ^ 64 = 0) := by
  refine ⟨fun num den hnum hden => ⟨utilUdivmod64_eq hnum hden, ?_, fun k hk => ?_⟩,
    fun num den hn hd hden => ⟨moddi3_eq hn hd hden, fun hmin => ?_, ?_⟩⟩
  · rw [k32Udivmod64, if_neg hden, divPasses_eq hnum hden]
  · have hshift := ((divided hnum hden hk.le).shift hnum hk).1
    omega
  · have hq : divdi3 num den = num.tdiv den := by
      have hfits := tdiv_fits hn hmin
      rw [divdi3_eq hn hd hden]
      exact Int.bmod_eq_of_le (by have := hfits.1; omega) (by have := hfits.2; omega)
    rw [hq, moddi3_eq hn hd hden, Int.tdiv_mul_add_tmod]
    exact ⟨rfl, rfl⟩
  · rw [divdi3_eq hn hd hden, moddi3_eq hn hd hden]
    have hmod : (num.tdiv den).bmod (2 ^ 64) % 2 ^ 64 = num.tdiv den % 2 ^ 64 := Int.bmod_emod
    rw [Int.sub_emod, Int.add_emod, Int.mul_emod, hmod, ← Int.mul_emod, ← Int.add_emod,
      Int.tdiv_mul_add_tmod, Int.sub_self, Int.zero_emod]

end DiscouNT.Util
