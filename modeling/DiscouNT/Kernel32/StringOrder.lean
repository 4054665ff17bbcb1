import Mathlib

/-!
# Kernel32.StringOrder

`_wcsicmp`, `lstrcmpiW` and `CompareStringW`. The first two compare in lower case, the third in upper
case, and it ends at the end of either string, so there a string equals all that it begins.
-/

namespace DiscouNT.Kernel32

open List

def lower (c : UInt16) : UInt16 := if c ≥ 65 ∧ c ≤ 90 then c + 32 else c
def upper (c : UInt16) : UInt16 := if c ≥ 97 ∧ c ≤ 122 then c - 32 else c

/-- The loop of `_wcsicmp` and what follows it. The end of a list is the NUL. -/
def wcsicmp : List UInt16 → List UInt16 → Int
  | x :: a, y :: b =>
    if lower x ≠ lower y then if lower x < lower y then -1 else 1 else wcsicmp a b
  | [], [] => 0
  | _ :: _, [] => 1
  | [], _ :: _ => -1

def lstrcmpiW : List UInt16 → List UInt16 → Int
  | x :: a, y :: b =>
    if lower x ≠ lower y then if lower x < lower y then -1 else 1 else lstrcmpiW a b
  | x :: _, [] => if lower x ≠ lower 0 then if lower x < lower 0 then -1 else 1 else 0
  | [], y :: _ => if lower 0 ≠ lower y then if lower 0 < lower y then -1 else 1 else 0
  | [], [] => 0

/-- The loop of `CompareStringW`, on the units up to the counts or the NULs. -/
def compareUnits (ignoreCase : Bool) : List UInt16 → List UInt16 → Int
  | x :: a, y :: b =>
    let x := if ignoreCase then upper x else x
    let y := if ignoreCase then upper y else y
    if x ≠ y then if x < y then 1 else 3
    else if x = 0 then 2 else compareUnits ignoreCase a b
  | _, _ => 2

/-- A string is what is in memory from its start, and at least as much as is read. -/
def counted (s : List UInt16) (n : Int) : List UInt16 :=
  if n < 0 then s.takeWhile (· ≠ 0) else s.take n.toNat

def compareStringW (ignoreCase : Bool) (a : List UInt16) (na : Int) (b : List UInt16) (nb : Int) :
    Int :=
  compareUnits ignoreCase (counted a na) (counted b nb)

def WideString : Type := { s : List UInt16 // 0 ∉ s }

/-! ## The laws -/

def Same (a b : List UInt16) : Prop := a.map lower = b.map lower

/-- `CompareStringW` with `NORM_IGNORECASE` and lengths -1, its result being 0 for equal strings. -/
def compareAll (a b : List UInt16) : Int := compareStringW true a (-1) b (-1) - 2

structure OrderLaws (cmp : List UInt16 → List UInt16 → Int) (a b c : WideString) : Prop where
  antisymm : cmp b.1 a.1 = -cmp a.1 b.1
  trans : cmp a.1 b.1 ≤ 0 → cmp b.1 c.1 ≤ 0 → cmp a.1 c.1 ≤ 0
  equal : cmp a.1 b.1 = 0 ↔ Same a.1 b.1

/-- All are -1, 0 or 1, so that equal signs are equal results. -/
structure Agree (a b : WideString) : Prop where
  lstrcmpi : lstrcmpiW a.1 b.1 = wcsicmp a.1 b.1
  compare : compareAll a.1 b.1 = wcsicmp a.1 b.1

def CountedLaw (a : List UInt16) (na : Int) (b : List UInt16) (nb : Int) : Prop :=
  compareStringW true a na b nb = 2 ↔ Same (counted a na) (counted b nb)

/-- The first units at the same place that differ ignoring case, with no NUL before them. -/
def firstDifference : List UInt16 → List UInt16 → Option (UInt16 × UInt16)
  | x :: a, y :: b =>
    if lower x ≠ lower y then some (x, y) else if x = 0 then none else firstDifference a b
  | _, _ => none

def Straddle (x y : UInt16) : Prop :=
  lower x ≥ 97 ∧ lower x ≤ 122 ∧ y ≥ 91 ∧ y ≤ 96

def Decided (a b : List UInt16) : Prop :=
  Same a b ∨ ∃ x y, firstDifference a b = some (x, y) ∧ ¬ Straddle x y ∧ ¬ Straddle y x

section Units

variable {x y : UInt16}

theorem toNat_lower (x : UInt16) : (lower x).toNat =
    if 65 ≤ x.toNat ∧ x.toNat ≤ 90 then x.toNat + 32 else x.toNat := by
  rw [lower]
  by_cases hx : x ≥ 65 ∧ x ≤ 90
  · have hbounds : 65 ≤ x.toNat ∧ x.toNat ≤ 90 :=
      ⟨UInt16.le_iff_toNat_le.mp hx.1, UInt16.le_iff_toNat_le.mp hx.2⟩
    rw [if_pos hx, if_pos hbounds, UInt16.toNat_add]
    exact Nat.mod_eq_of_lt (by have h32 : (32 : UInt16).toNat = 32 := rfl; omega)
  · rw [if_neg hx, if_neg]
    rintro ⟨hlo, hhi⟩
    exact hx ⟨UInt16.le_iff_toNat_le.mpr hlo, UInt16.le_iff_toNat_le.mpr hhi⟩

theorem toNat_upper (x : UInt16) : (upper x).toNat =
    if 97 ≤ x.toNat ∧ x.toNat ≤ 122 then x.toNat - 32 else x.toNat := by
  rw [upper]
  by_cases hx : x ≥ 97 ∧ x ≤ 122
  · have hbounds : 97 ≤ x.toNat ∧ x.toNat ≤ 122 :=
      ⟨UInt16.le_iff_toNat_le.mp hx.1, UInt16.le_iff_toNat_le.mp hx.2⟩
    rw [if_pos hx, if_pos hbounds]
    exact UInt16.toNat_sub_of_le _ _
      (UInt16.le_iff_toNat_le.mpr (Nat.le_trans (by decide) hbounds.1))
  · rw [if_neg hx, if_neg]
    rintro ⟨hlo, hhi⟩
    exact hx ⟨UInt16.le_iff_toNat_le.mpr hlo, UInt16.le_iff_toNat_le.mpr hhi⟩

theorem lower_eq_iff : lower x = lower y ↔ upper x = upper y := by
  rw [← UInt16.toNat_inj, ← UInt16.toNat_inj, toNat_lower, toNat_lower, toNat_upper, toNat_upper]
  grind

theorem lower_eq_zero : lower x = 0 ↔ x = 0 := by
  rw [← UInt16.toNat_inj, ← UInt16.toNat_inj, toNat_lower]
  have h0 : (0 : UInt16).toNat = 0 := rfl
  grind

theorem lower_lt_iff :
    (upper x < upper y ↔ lower x < lower y) ↔ ¬ Straddle x y ∧ ¬ Straddle y x := by
  have h91 : (91 : UInt16).toNat = 91 := rfl
  have h96 : (96 : UInt16).toNat = 96 := rfl
  have h97 : (97 : UInt16).toNat = 97 := rfl
  have h122 : (122 : UInt16).toNat = 122 := rfl
  simp only [Straddle, ge_iff_le, UInt16.lt_iff_toNat_lt, UInt16.le_iff_toNat_le, toNat_upper,
    toNat_lower]
  grind

end Units

/-! ## The orders -/

section ThreeWay

variable {α : Type} [LinearOrder α]

def threeWay (a b : α) : Int := if a < b then -1 else if b < a then 1 else 0

theorem threeWay_swap (a b : α) : threeWay b a = -threeWay a b := by
  rcases lt_trichotomy a b with h | rfl | h
  · simp [threeWay, h, h.not_gt]
  · simp [threeWay]
  · simp [threeWay, h, h.not_gt]

theorem threeWay_nonpos {a b : α} : threeWay a b ≤ 0 ↔ a ≤ b := by
  rcases lt_trichotomy a b with h | rfl | h
  · simp [threeWay, h, h.le]
  · simp [threeWay]
  · simp [threeWay, h, h.not_gt]

theorem threeWay_eq_zero {a b : α} : threeWay a b = 0 ↔ a = b := by
  rcases lt_trichotomy a b with h | rfl | h
  · simp [threeWay, h, h.ne]
  · simp [threeWay]
  · simp [threeWay, h, h.not_gt, h.ne']

theorem threeWay_cons (x y : α) (a b : List α) : threeWay (x :: a) (y :: b) =
    if x ≠ y then if x < y then -1 else 1 else threeWay a b := by
  rcases lt_trichotomy x y with h | rfl | h
  · simp [threeWay, cons_lt_cons_iff, h, h.ne]
  · simp only [threeWay, cons_lt_cons_iff, lt_irrefl, true_and, false_or, ne_eq, not_true_eq_false,
      if_false]
    congr
  · simp [threeWay, cons_lt_cons_iff, h, h.ne, h.ne', h.not_gt]

end ThreeWay

def key (s : List UInt16) : List Nat := s.map fun x => (lower x).toNat

theorem key_inj {a b : List UInt16} : key a = key b ↔ Same a b := by
  have hinj : Function.Injective UInt16.toNat := fun _ _ => UInt16.toNat_inj.mp
  have hkey : ∀ s : List UInt16, key s = (s.map lower).map UInt16.toNat := fun s => by
    rw [map_map]; rfl
  rw [hkey, hkey, hinj.list_map.eq_iff, Same]

theorem wcsicmp_eq : ∀ a b : List UInt16, wcsicmp a b = threeWay (key a) (key b)
  | [], [] => rfl
  | _ :: _, [] => rfl
  | [], _ :: _ => rfl
  | x :: a, y :: b => by
    rw [wcsicmp, wcsicmp_eq a b]
    refine Eq.trans ?_ (threeWay_cons _ _ (key a) (key b)).symm
    simp only [ne_eq, UInt16.toNat_inj, UInt16.lt_iff_toNat_lt]

theorem lstrcmpiW_eq : ∀ {a b : List UInt16}, 0 ∉ a → 0 ∉ b → lstrcmpiW a b = wcsicmp a b
  | [], [], _, _ => rfl
  | x :: a, [], ha, _ => by
    have hx : lower x ≠ lower 0 := mt lower_eq_zero.mp (ne_of_not_mem_cons ha).symm
    rw [lstrcmpiW, wcsicmp, if_pos hx,
      if_neg (show ¬ lower x < lower 0 from UInt16.not_lt_zero)]
  | [], y :: b, _, hb => by
    have hy : lower y ≠ lower 0 := mt lower_eq_zero.mp (ne_of_not_mem_cons hb).symm
    rw [lstrcmpiW, wcsicmp, if_pos (Ne.symm hy),
      if_pos (show lower 0 < lower y from UInt16.pos_iff_ne_zero.mpr hy)]
  | x :: a, y :: b, ha, hb => by
    rw [lstrcmpiW, wcsicmp, lstrcmpiW_eq (not_mem_of_not_mem_cons ha)
      (not_mem_of_not_mem_cons hb)]

theorem compareUnits_eq : ∀ a b : List UInt16, compareUnits true a b =
    match firstDifference a b with
    | some (x, y) => if upper x < upper y then 1 else 3
    | none => 2
  | [], _ => by rw [compareUnits, firstDifference] <;> simp
  | _ :: _, [] => by rw [compareUnits, firstDifference] <;> simp
  | x :: a, y :: b => by
    rw [compareUnits, firstDifference, compareUnits_eq a b]
    have hzero : upper x = 0 ↔ x = 0 := (lower_eq_iff (y := 0)).symm.trans lower_eq_zero
    simp only [ne_eq, lower_eq_iff, if_true, hzero]
    by_cases heq : upper x = upper y
    · rw [if_neg (not_not_intro heq), if_neg (not_not_intro heq)]
      by_cases h0 : x = 0
      · rw [if_pos h0, if_pos h0]
      · rw [if_neg h0, if_neg h0]
    · rw [if_pos heq, if_pos heq]

theorem compareUnits_swap : ∀ a b : List UInt16, compareUnits true b a = 4 - compareUnits true a b
  | [], [] => rfl
  | [], _ :: _ => rfl
  | _ :: _, [] => rfl
  | x :: a, y :: b => by
    simp only [compareUnits, if_true]
    rw [compareUnits_swap a b]
    by_cases heq : upper x = upper y
    · by_cases h0 : upper y = 0
      · simp [heq, h0]
      · simp [heq, h0]
    · have hflip : upper y < upper x ↔ ¬ upper x < upper y := by
        rw [← UInt16.toNat_inj] at heq
        simp only [UInt16.lt_iff_toNat_lt]
        omega
      by_cases hlt : upper x < upper y
      · simp [heq, Ne.symm heq, hflip, hlt]
      · simp [heq, Ne.symm heq, hflip, hlt]

theorem wcsicmp_of_difference {x y : UInt16} : ∀ {a b : List UInt16},
    firstDifference a b = some (x, y) → wcsicmp a b = if lower x < lower y then -1 else 1
  | [], _, h => by simp [firstDifference] at h
  | _ :: _, [], h => by simp [firstDifference] at h
  | x' :: a, y' :: b, h => by
    rw [firstDifference] at h
    rw [wcsicmp]
    by_cases hne : lower x' ≠ lower y'
    · rw [if_pos hne] at h ⊢
      cases h
      rfl
    · rw [if_neg hne] at h ⊢
      by_cases h0 : x' = 0
      · rw [if_pos h0] at h
        cases h
      · rw [if_neg h0] at h
        exact wcsicmp_of_difference h

theorem wcsicmp_eq_zero {a b : List UInt16} : wcsicmp a b = 0 ↔ Same a b := by
  rw [wcsicmp_eq, threeWay_eq_zero, key_inj]

theorem not_same_of_difference {a b : List UInt16} {x y : UInt16}
    (h : firstDifference a b = some (x, y)) : ¬ Same a b := by
  rw [← wcsicmp_eq_zero, wcsicmp_of_difference h]
  by_cases hlt : lower x < lower y
  · rw [if_pos hlt]; decide
  · rw [if_neg hlt]; decide

theorem compareAll_eq (a b : WideString) : compareAll a.1 b.1 = compareUnits true a.1 b.1 - 2 := by
  have hcounted : ∀ s : WideString, counted s.1 (-1) = s.1 := fun s =>
    takeWhile_eq_self_iff.mpr fun x hx => by
      simp only [decide_eq_true_eq]
      rintro rfl
      exact s.2 hx
  rw [compareAll, compareStringW, hcounted, hcounted]

theorem agree_iff (a b : WideString) : Agree a b ↔ Decided a.1 b.1 := by
  have hcompare : compareAll a.1 b.1 = wcsicmp a.1 b.1 ↔ Decided a.1 b.1 := by
    rw [compareAll_eq, compareUnits_eq, Decided]
    cases hd : firstDifference a.1 b.1 with
    | none =>
      simp only [reduceCtorEq, false_and, exists_false, or_false]
      rw [← wcsicmp_eq_zero]
      omega
    | some d =>
      obtain ⟨x, y⟩ := d
      have hsplit : (∃ x' y', some (x, y) = some (x', y') ∧ ¬ Straddle x' y' ∧ ¬ Straddle y' x') ↔
          (upper x < upper y ↔ lower x < lower y) :=
        ⟨fun ⟨_, _, h, hs⟩ => by cases h; exact lower_lt_iff.mpr hs,
          fun h => ⟨x, y, rfl, lower_lt_iff.mp h⟩⟩
      rw [or_iff_right (not_same_of_difference hd), hsplit, wcsicmp_of_difference hd]
      by_cases hu : upper x < upper y
      · by_cases hl : lower x < lower y
        · simp [hu, hl]
        · simp [hu, hl]
      · by_cases hl : lower x < lower y
        · simp [hu, hl]
        · simp [hu, hl]
  exact ⟨fun h => hcompare.mp h.compare, fun h => ⟨lstrcmpiW_eq a.2 b.2, hcompare.mpr h⟩⟩

theorem wcsicmp_laws (a b c : WideString) : OrderLaws wcsicmp a b c := by
  refine ⟨?_, ?_, wcsicmp_eq_zero⟩
  · rw [wcsicmp_eq, wcsicmp_eq, threeWay_swap]
  · simp only [wcsicmp_eq, threeWay_nonpos]
    exact le_trans

/-- Whatever gives the same results as `_wcsicmp` is an order. -/
theorem OrderLaws.congr {cmp : List UInt16 → List UInt16 → Int} {a b c : WideString}
    (h : OrderLaws wcsicmp a b c) (hab : cmp a.1 b.1 = wcsicmp a.1 b.1)
    (hba : cmp b.1 a.1 = wcsicmp b.1 a.1) (hbc : cmp b.1 c.1 = wcsicmp b.1 c.1)
    (hac : cmp a.1 c.1 = wcsicmp a.1 c.1) : OrderLaws cmp a b c :=
  ⟨by rw [hba, hab, h.antisymm], by rw [hab, hbc, hac]; exact h.trans, by rw [hab]; exact h.equal⟩

theorem string_orders_iff (a b c : WideString) (s t : List UInt16) (n m : Int) :
    (Agree a b ∧ Agree b c ∧ Agree a c ∧ OrderLaws wcsicmp a b c ∧ OrderLaws lstrcmpiW a b c ∧
      OrderLaws compareAll a b c ∧ CountedLaw s n t m) ↔
    Decided a.1 b.1 ∧ Decided b.1 c.1 ∧ Decided a.1 c.1 ∧
      (Same (counted s n) (counted t m) ∨ (firstDifference (counted s n) (counted t m)).isSome) := by
  have hlaws := wcsicmp_laws a b c
  have hlstrcmpi : OrderLaws lstrcmpiW a b c :=
    hlaws.congr (lstrcmpiW_eq a.2 b.2) (lstrcmpiW_eq b.2 a.2) (lstrcmpiW_eq b.2 c.2)
      (lstrcmpiW_eq a.2 c.2)
  have hcounted : CountedLaw s n t m ↔
      Same (counted s n) (counted t m) ∨ (firstDifference (counted s n) (counted t m)).isSome := by
    rw [CountedLaw, compareStringW, compareUnits_eq]
    cases hd : firstDifference (counted s n) (counted t m) with
    | none => simp
    | some d =>
      obtain ⟨x, y⟩ := d
      have hne := not_same_of_difference hd
      by_cases hlt : upper x < upper y
      · simp [hne, hlt]
      · simp [hne, hlt]
  rw [← agree_iff, ← agree_iff, ← agree_iff, hcounted]
  constructor
  · exact fun ⟨hab, hbc, hac, _, _, _, hc⟩ => ⟨hab, hbc, hac, hc⟩
  · rintro ⟨hab, hbc, hac, hc⟩
    refine ⟨hab, hbc, hac, hlaws, hlstrcmpi, hlaws.congr hab.compare ?_ hbc.compare hac.compare, hc⟩
    rw [hlaws.antisymm, ← hab.compare, compareAll_eq, compareAll_eq, compareUnits_swap]
    omega

/-- `CompareStringW` finds `A` and `AB` equal. -/
theorem agree_prefix : ¬ Agree ⟨[65], by decide⟩ ⟨[65, 66], by decide⟩ := fun h =>
  absurd h.compare (by decide)

end DiscouNT.Kernel32
