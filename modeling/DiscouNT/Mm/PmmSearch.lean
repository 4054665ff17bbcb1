import DiscouNT.Mm.PmmInv

/-!
# Mm.PmmSearch

What the two passes of `PmmAllocatePages` find.
-/

namespace DiscouNT.Mm

open Lib List Option

def HasRun (count : Nat) (s : Pmm) (lo hi : Nat) : Prop :=
  ∃ start, lo ≤ start ∧ start + count ≤ hi ∧
    ∀ q, start ≤ q → q < start + count → pmmPageUsed q s = false

section Search

variable {count n page run start lo hi p : Nat} {s s₀ : Pmm} {arch : Arch}

theorem findRun_complete (hle : page - run ≤ p) (hend : p + count ≤ page + n) (hrun : run < count)
    (hclear : ∀ q, p ≤ q → q < p + count → pmmPageUsed q s = false) :
    findRun count s n page run start ≠ none := by
  induction n generalizing page run start with
  | zero => omega
  | succ n ih =>
    rw [findRun]
    cases hu : pmmPageUsed page s with
    | true =>
      -- the run cannot contain this page, and is too long to end before it
      have hafter : page + 1 ≤ p := by
        by_contra hlt
        have hin := hclear page (by omega) (by omega)
        rw [hu] at hin
        cases hin
      exact ih (by omega) (by omega) (by omega)
    | false =>
      simp only [Bool.not_false, if_true]
      split
      · exact some_ne_none _
      · exact ih (by omega) (by omega) (by omega)

theorem findRun_ne_none (hc : 0 < count) :
    findRun count s (hi - lo) lo 0 0 ≠ none ↔ HasRun count s lo hi := by
  constructor
  · intro hfound
    obtain ⟨st, hst⟩ := ne_none_iff_exists'.mp hfound
    obtain ⟨h1, h2, h3⟩ := findRun_spec hc (Nat.zero_le lo) (by omega) (fun q _ _ => by omega) hst
    exact ⟨st, h1, by omega, h3⟩
  · rintro ⟨st, hlo, hhi, hclear⟩
    exact findRun_complete (Nat.sub_le_of_le_add hlo) (by omega) hc hclear

theorem findPages_ne_none (hc : 0 < count) :
    findPages count s ≠ none ↔
      HasRun count s s.searchHint s.pageLimit ∨ HasRun count s 1 s.searchHint := by
  rw [← findRun_ne_none hc, ← findRun_ne_none hc, findPages]
  cases hfirst : findRun count s (s.pageLimit - s.searchHint) s.searchHint 0 0 with
  | some st => simp
  | none => simp

theorem HasRun.count_le (hrun : HasRun count s lo hi) :
    count ≤ Bitmap.clearBelow s.pageBitmap hi := by
  obtain ⟨st, -, hend, hclear⟩ := hrun
  have hall : (List.range' st count).countP (fun i => !Bitmap.test s.pageBitmap i) = count := by
    rw [countP_eq_length.mpr ?_, length_range']
    intro q hq
    obtain ⟨i, hi, rfl⟩ := mem_range'.mp hq
    have hq := hclear (st + 1 * i) (by omega) (by omega)
    simpa [pmmPageUsed] using hq
  have hsub : (List.range' st count).Sublist (List.range hi) := by
    have hsplit : List.range hi =
        List.range' 0 st ++ (List.range' st count ++ List.range' (st + count) (hi - (st + count))) := by
      rw [range_eq_range', range'_append_1]
      have := range'_append_1 (s := 0) (m := st) (n := hi - st)
      rw [Nat.zero_add] at this
      rw [show count + (hi - (st + count)) = hi - st by omega, this]
      congr 1
      omega
    rw [hsplit]
    exact (sublist_append_left _ _).trans (sublist_append_right _ _)
  calc count = (List.range' st count).countP fun i => !Bitmap.test s.pageBitmap i := hall.symm
    _ ≤ Bitmap.clearBelow s.pageBitmap hi := hsub.countP_le

theorem HasRun.below (hi : PmmInv s) (hle : s.searchHint ≤ pmmMaxPages) (hc : 0 < count)
    (hrun : HasRun count s lo s.searchHint) : HasRun count s lo s.pageLimit := by
  obtain ⟨st, hlo, hend, hclear⟩ := hrun
  refine ⟨st, hlo, ?_, hclear⟩
  by_contra hgt
  have hlast := hclear (st + count - 1) (by omega) (by omega)
  rw [hi.above _ (by omega) (by omega)] at hlast
  cases hlast

theorem pmmAllocatePages_ne_zero (hi : PmmInv s) (hpos : 0 < s.searchHint)
    (hle : s.searchHint ≤ pmmMaxPages) (hc : 0 < count) :
    (pmmAllocatePages arch count s).1 ≠ 0 ↔
      HasRun count s s.searchHint s.pageLimit ∨ HasRun count s 1 s.searchHint := by
  rw [← findPages_ne_none hc]
  constructor
  · intro hne hnone
    refine hne ?_
    unfold pmmAllocatePages
    rw [hnone]
    split <;> rfl
  · intro hfound
    have hcount : count ≤ s.freePages := by
      rw [hi.counted]
      rcases (findPages_ne_none hc).mp hfound with hrun | hrun
      · exact hrun.count_le
      · exact (hrun.below hi hle hc).count_le
    obtain ⟨st, hst⟩ := ne_none_iff_exists'.mp hfound
    obtain ⟨hst0, hlimit, -⟩ := findPages_spec hi hc hpos hle hst
    have hmax := hi.limit_le
    unfold pmmAllocatePages
    rw [if_neg (by omega), hst]
    have hp : pageSize = 4096 := rfl
    have hm : pmmMaxPages = 1048576 := rfl
    rw [hp] at *
    show uptr arch (st * 4096) ≠ 0
    rw [uptr_of_lt (by omega)]
    omega

end Search

/-- An allocation succeeds exactly if the pages are there, as long as, when they are, there are some
that do not lie on both sides of the hint. -/
theorem allocates_iff {arch : Arch} {k : KernelImage} {m : BootMemory} {fuel : Nat}
    {info : Option MultibootInfo} {start s₀ s : Pmm} {out : List (Nat × Nat)} {count : UInt32}
    (hinit : pmmInitialize arch k m fuel info start = some s₀) (hr : PmmReach arch s₀ s out)
    (hc : 0 < count) :
    ((pmmAllocatePages arch count.toNat s).1 ≠ 0 ↔ HasRun count.toNat s 1 s.pageLimit) ↔
      (HasRun count.toNat s 1 s.pageLimit →
        HasRun count.toNat s s.searchHint s.pageLimit ∨ HasRun count.toNat s 1 s.searchHint) := by
  have hready := pmmInitialize_ready hinit
  have hb := pmmReach_balance hready.inv hready.hint_pos hready.hint_le hr
  have hc' : 0 < count.toNat := hc
  rw [pmmAllocatePages_ne_zero hb.inv hb.hint_pos hb.hint_le hc']
  constructor
  · intro hiff hrun
    exact hiff.mpr hrun
  · intro hunsplit
    refine ⟨?_, hunsplit⟩
    rintro (⟨st, hlo, hrest⟩ | hrun)
    · exact ⟨st, hb.hint_pos.trans_le hlo, hrest⟩
    · exact hrun.below hb.inv hb.hint_le hc'

theorem allocates_iff_four_pages :
    ∃ s₀, pmmInitialize .x86 tinyKernel emptyBootMemory 0 (some tinyInfo) pmmZero = some s₀ ∧
      ((pmmAllocatePages .x86 4 s₀).1 ≠ 0 ↔ HasRun 4 s₀ 1 s₀.pageLimit) := by
  have hval : ((pmmInitialize .x86 tinyKernel emptyBootMemory 0 (some tinyInfo) pmmZero).map
      fun s => (s.searchHint, s.pageLimit, (List.range 4).map fun i => pmmPageUsed (256 + i) s)) =
      some (256, 260, [false, false, false, false]) := by decide +kernel
  obtain ⟨s₀, h0, hfacts⟩ := map_eq_some_iff.mp hval
  simp only [Prod.mk.injEq] at hfacts
  obtain ⟨hhint, hlimit, hclear⟩ := hfacts
  refine ⟨s₀, h0, (@allocates_iff _ _ _ _ _ _ _ _ _ 4 h0 .init (by decide)).mpr fun _ => .inl ?_⟩
  rw [hhint, hlimit]
  refine ⟨256, le_refl _, le_refl _, fun q h1 h2 => ?_⟩
  have hget := congrArg (fun l => l[q - 256]?) hclear
  have hq : q = 256 ∨ q = 257 ∨ q = 258 ∨ q = 259 := by
    have : (4 : UInt32).toNat = 4 := rfl
    omega
  rcases hq with rfl | rfl | rfl | rfl <;> simpa using hget

/-- The four pages are given out, and two neighbours come back in such an order that the hint is
between them. -/
def splitRun (s₀ : Pmm) : Pmm :=
  let s := (pmmAllocatePages .x86 1 s₀).2
  let s := (pmmAllocatePages .x86 1 s).2
  let s := pmmFreePages 0x100000 1 s
  let s := (pmmAllocatePages .x86 2 s).2
  pmmFreePages 0x101000 1 s

theorem pages_missed :
    ∃ s₀, pmmInitialize .x86 tinyKernel emptyBootMemory 0 (some tinyInfo) pmmZero = some s₀ ∧
      PmmReach .x86 s₀ (splitRun s₀) [(0x102000, 2)] ∧
      HasRun 2 (splitRun s₀) 1 (splitRun s₀).pageLimit ∧
      (pmmAllocatePages .x86 2 (splitRun s₀)).1 = 0 := by
  have hval : ((pmmInitialize .x86 tinyKernel emptyBootMemory 0 (some tinyInfo) pmmZero).map
      fun s => ([(pmmAllocatePages .x86 1 s).1,
        (pmmAllocatePages .x86 1 (pmmAllocatePages .x86 1 s).2).1,
        (pmmAllocatePages .x86 2 (pmmFreePages 0x100000 1
          (pmmAllocatePages .x86 1 (pmmAllocatePages .x86 1 s).2).2)).1,
        (pmmAllocatePages .x86 2 (splitRun s)).1, (splitRun s).pageLimit],
        [pmmPageUsed 256 (splitRun s), pmmPageUsed 257 (splitRun s)])) =
      some ([0x100000, 0x101000, 0x102000, 0, 260], [false, false]) := by decide +kernel
  obtain ⟨s₀, h0, hfacts⟩ := map_eq_some_iff.mp hval
  simp only [Prod.mk.injEq, List.cons.injEq, and_true] at hfacts
  obtain ⟨⟨h1, h2, h3, h4, hlimit⟩, hu, hu'⟩ := hfacts
  refine ⟨s₀, h0, ?_, ⟨256, by decide, by rw [hlimit]; decide, fun q hq hq' => ?_⟩, h4⟩
  · have r1 : PmmReach .x86 s₀ _ [(0x100000, 1)] :=
      @PmmReach.allocated _ _ _ _ _ 1 _ .init (Prod.ext h1 rfl) (by decide)
    have r2 : PmmReach .x86 s₀ _ [(0x101000, 1), (0x100000, 1)] :=
      @PmmReach.allocated _ _ _ _ _ 1 _ r1 (Prod.ext h2 rfl) (by decide)
    have r3 : PmmReach .x86 s₀ _ [(0x101000, 1)] :=
      @PmmReach.freed _ _ _ _ (0x100000, 1) r2 (by decide)
    have r4 : PmmReach .x86 s₀ _ [(0x102000, 2), (0x101000, 1)] :=
      @PmmReach.allocated _ _ _ _ _ 2 _ r3 (Prod.ext h3 rfl) (by decide)
    exact @PmmReach.freed _ _ _ _ (0x101000, 1) r4 (by decide)
  · rcases (show q = 256 ∨ q = 257 by omega) with rfl | rfl
    · exact hu
    · exact hu'

end DiscouNT.Mm
