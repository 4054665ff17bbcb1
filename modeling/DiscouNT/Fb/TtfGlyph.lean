import DiscouNT.Fb.TtfLookup

/-!
# Fb.TtfGlyph

The glyph of a character code: what `glyph_for` returns, and what the character map assigns.
-/

namespace DiscouNT.Fb

open Lib List Option Logged

variable {t : Ttf} {ch sub j : Nat}

section Subtable

variable (t : Ttf) (sub j ch : Nat)

def segCount : Nat := word16 t.data (sub + 6) / 2
def endCode : Nat := word16 t.data (sub + 14 + j * 2)
def startCode : Nat := word16 t.data (sub + 16 + segCount t sub * 2 + j * 2)
def idDelta : Nat := word16 t.data (sub + 16 + segCount t sub * 4 + j * 2)
def idRangeOffset : Nat := word16 t.data (sub + 16 + segCount t sub * 6 + j * 2)

/-- Where the entry of the code in `glyphIdArray` is, which `idRangeOffset` counts from itself. -/
def entryAddr : Nat :=
  sub + 16 + segCount t sub * 6 + j * 2 + idRangeOffset t sub j + (ch - startCode t sub j) * 2

def segmentOf : Option Nat :=
  (List.range (segCount t sub)).find? fun j => startCode t sub j ≤ ch ∧ ch ≤ endCode t sub j

def assigned : Nat :=
  if idRangeOffset t sub j = 0 then (ch + idDelta t sub j) % 65536
  else
    let entry := word16 t.data (entryAddr t sub j ch)
    if entry = 0 then 0 else (entry + idDelta t sub j) % 65536

def trueTypeGlyph : Nat :=
  match segmentOf t sub ch with
  | none => 0
  | some j => if assigned t sub j ch < t.glyphCount then assigned t sub j ch else 0

def isFormat4 : Bool :=
  rangeOk t sub 16 ∧ word16 t.data sub = 4 ∧ segCount t sub ≠ 0 ∧
    16 + segCount t sub * 8 ≤ t.size - sub

def EntriesInside : Prop :=
  ∀ j c, startCode t sub j ≤ c → c ≤ endCode t sub j → j < segCount t sub →
    idRangeOffset t sub j ≠ 0 → entryAddr t sub j c + 2 ≤ t.size

end Subtable

def recordOffset (t : Ttf) (i : Nat) : Nat := word32 t.data (t.cmap + 4 + i * 8 + 4)

def recordSubtable (t : Ttf) (kind i : Nat) : Option Nat :=
  let record := t.cmap + 4 + i * 8
  if passTakes kind (word16 t.data record) (word16 t.data (record + 2)) ∧
    recordOffset t i ≤ t.size - t.cmap ∧ isFormat4 t (t.cmap + recordOffset t i) then
    some (t.cmap + recordOffset t i)
  else none

def subtables (t : Ttf) : List Nat :=
  let records := word16 t.data (t.cmap + 2)
  if t.cmap ≠ 0 ∧ rangeOk t t.cmap 4 ∧ rangeOk t (t.cmap + 4) (records * 8) then
    (List.range 3).flatMap fun kind => (List.range records).filterMap (recordSubtable t kind)
  else []

section Function

variable (t : Ttf) (sub j ch : Nat)

/-- What the delta of the segment is added to, unless the code gets no glyph anyway. -/
def summand : Option Nat :=
  if idRangeOffset t sub j = 0 then some ch
  else
    let pos := u32 (entryAddr t sub j ch)
    if rangeOk t pos 2 ∧ word16 t.data pos ≠ 0 then some (word16 t.data pos) else none

def signedSum (n : Nat) : Int := n + toS16 (idDelta t sub j)

def takenGlyph : Nat :=
  match summand t sub j ch with
  | none => 0
  | some n => if 0 ≤ signedSum t sub j n ∧ signedSum t sub j n < t.glyphCount then
      (signedSum t sub j n).toNat else 0

end Function

theorem segment_val (t : Ttf) (ch sub j : Nat) : (segment t ch sub (segCount t sub) j).val =
    if startCode t sub j ≤ ch ∧ ch ≤ endCode t sub j then some (takenGlyph t sub j ch) else none := by
  have hdeltas : sub + 16 + segCount t sub * 2 + segCount t sub * 2 =
      sub + 16 + segCount t sub * 4 := by omega
  have hranges : sub + 16 + segCount t sub * 4 + segCount t sub * 2 =
      sub + 16 + segCount t sub * 6 := by omega
  rw [segment]
  simp only [hdeltas, hranges, val_bind, val_ite, val_pure]
  simp only [val_u16At, val_s16At]
  change (if ch < startCode t sub j ∨ ch > endCode t sub j then none else
    if idRangeOffset t sub j = 0 then _ else
    if rangeOk t (u32 (entryAddr t sub j ch)) 2 = true then
      if word16 t.data (u32 (entryAddr t sub j ch)) = 0 then _ else _ else _) = _
  by_cases hin : startCode t sub j ≤ ch ∧ ch ≤ endCode t sub j
  · rw [if_neg (by omega), if_pos hin, takenGlyph, summand]
    by_cases hrange : idRangeOffset t sub j = 0
    · rw [if_pos hrange, if_pos hrange]
      rfl
    · rw [if_neg hrange, if_neg hrange]
      simp only
      by_cases hok : rangeOk t (u32 (entryAddr t sub j ch)) 2 = true
      · by_cases hentry : word16 t.data (u32 (entryAddr t sub j ch)) = 0
        · rw [if_pos hok, if_pos hentry, if_neg (show ¬ (_ ∧ word16 _ _ ≠ 0) from
            fun h => h.2 hentry)]
        · rw [if_pos hok, if_neg hentry, if_pos (show rangeOk t _ 2 = true ∧ _ from
            ⟨hok, hentry⟩)]
          rfl
      · rw [if_neg hok, if_neg (show ¬ (rangeOk t _ 2 = true ∧ _) from fun h => hok h.1)]
  · rw [if_pos (by omega), if_neg hin]

theorem segments_val (t : Ttf) (ch sub : Nat) :
    (search (segment t ch sub (segCount t sub)) (segCount t sub) 0).val =
      (segmentOf t sub ch).map fun j => takenGlyph t sub j ch := by
  rw [val_search, ← range_eq_range', segmentOf]
  induction List.range (segCount t sub) with
  | nil => rfl
  | cons j js ih =>
    rw [findSome?_cons, find?_cons, segment_val]
    by_cases hin : startCode t sub j ≤ ch ∧ ch ≤ endCode t sub j
    · rw [if_pos hin, decide_eq_true hin]
      rfl
    · rw [if_neg hin, decide_eq_false hin]
      exact ih

theorem cmapRecord_val (hsize : t.size < 2 ^ 32) (hcmap : t.cmap ≤ t.size) (ch pass i : Nat) :
    (cmapRecord t ch pass i).val = (recordSubtable t pass i).bind fun sub =>
      (segmentOf t sub ch).map fun j => takenGlyph t sub j ch := by
  rw [cmapRecord, recordSubtable]
  simp only [val_bind, val_ite, val_pure]
  change (if ¬ passTakes pass (word16 t.data (t.cmap + 4 + i * 8))
      (word16 t.data (t.cmap + 4 + i * 8 + 2)) = true then none else
    if recordOffset t i > sub32 t.size t.cmap ∨
      ¬ rangeOk t (u32 (t.cmap + recordOffset t i)) 16 = true then none else
    if word16 t.data (t.cmap + recordOffset t i) ≠ 4 then none else
    if segCount t (t.cmap + recordOffset t i) = 0 ∨ 16 + segCount t (t.cmap + recordOffset t i) * 8 >
      sub32 t.size (u32 (t.cmap + recordOffset t i)) then none else
    (search (segment t ch (t.cmap + recordOffset t i) (segCount t (t.cmap + recordOffset t i)))
      (segCount t (t.cmap + recordOffset t i)) 0).val) = _
  generalize recordOffset t i = off
  by_cases htakes : passTakes pass (word16 t.data (t.cmap + 4 + i * 8))
      (word16 t.data (t.cmap + 4 + i * 8 + 2)) = true
  · rw [if_neg (not_not_intro htakes), sub32_of_le hsize hcmap]
    by_cases hoff : off ≤ t.size - t.cmap
    · rw [u32_of_lt (by omega), sub32_of_le hsize (by omega), isFormat4]
      simp only [decide_eq_true_eq]
      by_cases hok : rangeOk t (t.cmap + off) 16 = true
      · rw [if_neg (by rw [not_or]; exact ⟨by omega, not_not_intro hok⟩)]
        by_cases hformat : word16 t.data (t.cmap + off) = 4
        · rw [if_neg (not_not_intro hformat)]
          by_cases hseg : segCount t (t.cmap + off) = 0 ∨
              16 + segCount t (t.cmap + off) * 8 > t.size - (t.cmap + off)
          · rw [if_pos hseg, if_neg (by omega)]
            rfl
          · rw [if_neg hseg, if_pos ⟨htakes, hoff, hok, hformat, by omega, by omega⟩, bind_some]
            exact segments_val t ch (t.cmap + off)
        · rw [if_pos hformat, if_neg fun h => hformat h.2.2.2.1]
          rfl
      · rw [if_pos (.inr hok), if_neg fun h => hok h.2.2.1]
        rfl
    · rw [if_pos (.inl (by omega)), if_neg fun h => hoff h.2.1]
      rfl
  · rw [if_pos htakes, if_neg fun h => htakes h.1]
    rfl

theorem findSome?_flatMap_filterMap {α β γ δ : Type} (f : α → β → Option γ) (g : γ → Option δ)
    (l : List α) (m : List β) : (l.flatMap fun a => m.filterMap (f a)).findSome? g =
      l.findSome? fun a => m.findSome? fun b => (f a b).bind g := by
  rw [← head?_filterMap, filterMap_flatMap, head?_flatMap]
  simp only [filterMap_filterMap, head?_filterMap]

theorem glyphFor_val (hsize : t.size < 2 ^ 32) (ch : Nat) : (glyphFor t ch).val =
    ((subtables t).findSome? fun sub =>
      (segmentOf t sub ch).map fun j => takenGlyph t sub j ch).getD 0 := by
  rw [glyphFor, subtables]
  split
  · rw [if_neg fun h => h.1 ‹_›]
    rfl
  split
  · rw [if_neg fun h => ‹¬ _› h.2.1]
    rfl
  rename_i hnz hok
  rw [not_not, rangeOk_iff] at hok
  simp only [val_bind, val_ite, val_pure]
  change (if ¬ rangeOk t (u32 (t.cmap + 4)) (word16 t.data (t.cmap + 2) * 8) = true then 0 else
    (search _ 3 0).val.getD 0) = _
  rw [u32_of_lt (by omega)]
  by_cases hrecords : rangeOk t (t.cmap + 4) (word16 t.data (t.cmap + 2) * 8) = true
  · rw [if_neg (not_not_intro hrecords), if_pos ⟨hnz, rangeOk_iff.mpr hok, hrecords⟩,
      val_search, findSome?_flatMap_filterMap, ← range_eq_range']
    refine congrArg (fun f => (List.findSome? f (List.range 3)).getD 0) (funext fun pass => ?_)
    rw [val_search, ← range_eq_range']
    exact congrArg (fun f => List.findSome? f _) (funext (cmapRecord_val hsize hok.1 ch pass))
  · rw [if_pos hrecords, if_neg fun h => hrecords h.2.2]
    rfl

/-! ## Where they agree -/

theorem assigned_eq (hsize : t.size < 2 ^ 32)
    (hin : idRangeOffset t sub j ≠ 0 → entryAddr t sub j ch + 2 ≤ t.size) :
    assigned t sub j ch =
      ((summand t sub j ch).map fun n => (n + idDelta t sub j) % 65536).getD 0 := by
  rw [assigned, summand]
  by_cases hrange : idRangeOffset t sub j = 0
  · rw [if_pos hrange, if_pos hrange]
    rfl
  · have hentry := hin hrange
    rw [if_neg hrange, if_neg hrange]
    simp only
    rw [u32_of_lt (by omega)]
    by_cases hzero : word16 t.data (entryAddr t sub j ch) = 0
    · rw [if_pos hzero, if_neg fun h => h.2 hzero]
      rfl
    · rw [if_neg hzero, if_pos ⟨rangeOk_iff.mpr ⟨by omega, hentry⟩, hzero⟩]
      rfl

/-- The signed sum stays between 0 and 65535, or what it is modulo 65536 is no glyph anyway. -/
def SumFits (t : Ttf) (sub j n : Nat) : Prop :=
  (0 ≤ signedSum t sub j n ∧ signedSum t sub j n < 65536) ∨
    (n + idDelta t sub j) % 65536 = 0 ∨ t.glyphCount ≤ (n + idDelta t sub j) % 65536

theorem taken_iff (hcount : t.glyphCount < 65536) (n : Nat) :
    (if 0 ≤ signedSum t sub j n ∧ signedSum t sub j n < t.glyphCount then
      (signedSum t sub j n).toNat else 0) =
      (if (n + idDelta t sub j) % 65536 < t.glyphCount then (n + idDelta t sub j) % 65536 else 0) ↔
    SumFits t sub j n := by
  have hdelta := word16_lt t.data (sub + 16 + segCount t sub * 4 + j * 2)
  rw [SumFits, signedSum]
  change idDelta t sub j < 65536 at hdelta
  generalize idDelta t sub j = d at hdelta ⊢
  have hmod : 0 ≤ (n : Int) + toS16 d ∧ (n : Int) + toS16 d < 65536 →
      (((n + d) % 65536 : Nat) : Int) = n + toS16 d := by
    rw [toS16]
    split <;> omega
  have hout : ¬ (0 ≤ (n : Int) + toS16 d ∧ (n : Int) + toS16 d < 65536) →
      ¬ (0 ≤ (n : Int) + toS16 d ∧ (n : Int) + toS16 d < t.glyphCount) := by omega
  by_cases hfits : 0 ≤ (n : Int) + toS16 d ∧ (n : Int) + toS16 d < 65536
  · have hsum := hmod hfits
    refine iff_of_true ?_ (.inl hfits)
    rw [← hsum]
    simp only [Int.toNat_natCast, Nat.cast_lt, Int.natCast_nonneg, true_and]
  · rw [if_neg (hout hfits), or_iff_right hfits]
    split <;> omega

def Unassigned (t : Ttf) (ch : Nat) (later : List Nat) : Prop :=
  ∀ sub j n, later.find? (fun sub => (segmentOf t sub ch).isSome) = some sub →
    segmentOf t sub ch = some j → summand t sub j ch = some n →
      ¬ (0 < signedSum t sub j n ∧ signedSum t sub j n < t.glyphCount)

theorem findSome?_eq_bind {α β : Type} (f : α → Option β) (l : List α) :
    l.findSome? f = (l.find? fun a => (f a).isSome).bind f := by
  induction l with
  | nil => rfl
  | cons a l ih =>
    rw [findSome?_cons, find?_cons]
    cases h : f a with
    | none => exact ih
    | some b => exact h.symm

theorem unassigned_iff (later : List Nat) : (later.findSome? fun sub =>
      (segmentOf t sub ch).map fun j => takenGlyph t sub j ch).getD 0 = 0 ↔
    Unassigned t ch later := by
  rw [findSome?_eq_bind, Unassigned]
  simp only [isSome_map]
  cases later.find? fun sub => (segmentOf t sub ch).isSome with
  | none => exact iff_of_true rfl nofun
  | some sub =>
    rw [bind_some]
    cases hj : segmentOf t sub ch with
    | none => exact iff_of_true rfl fun _ j _ h hj' => by cases h; rw [hj] at hj'; cases hj'
    | some j =>
      rw [map_some, getD_some, takenGlyph]
      cases hn : summand t sub j ch with
      | none =>
        refine iff_of_true rfl fun _ j' _ h hj' hn' => ?_
        cases h
        cases hj.symm.trans hj'
        cases hn.symm.trans hn'
      | some n =>
        constructor
        · rintro h _ j' n' hsub hj' hn' ⟨hpos, hlt⟩
          cases hsub
          cases hj.symm.trans hj'
          cases hn.symm.trans hn'
          simp only [if_pos (And.intro hpos.le hlt)] at h
          omega
        · intro h
          have hnot := h sub j n rfl hj hn
          simp only
          split <;> omega

theorem glyphFor_assigns_iff (t : Ttf) (c : UInt8) (sub : Nat) (later : List Nat)
    (hsize : t.size < 2 ^ 32) (hcount : t.glyphCount < 65536) (hsub : subtables t = sub :: later)
    (hinside : EntriesInside t sub) :
    (glyphFor t c.toNat).val = trueTypeGlyph t sub c.toNat ↔
      (∀ j n, segmentOf t sub c.toNat = some j → summand t sub j c.toNat = some n →
        SumFits t sub j n) ∧
      (segmentOf t sub c.toNat = none → Unassigned t c.toNat later) := by
  rw [glyphFor_val hsize, hsub, findSome?_cons, trueTypeGlyph]
  cases hj : segmentOf t sub c.toNat with
  | none => exact (unassigned_iff later).trans ⟨fun h => ⟨nofun, fun _ => h⟩, fun h => h.2 rfl⟩
  | some j =>
    have hmem := find?_some hj
    rw [decide_eq_true_iff] at hmem
    have hlt := mem_range.mp (mem_of_find?_eq_some hj)
    have hassigned := assigned_eq hsize (hinside j c.toNat hmem.1 hmem.2 hlt)
    simp only [map_some, getD_some, takenGlyph, hassigned]
    cases hn : summand t sub j c.toNat with
    | none =>
      refine iff_of_true (by simp) ⟨fun j' n h hn' => ?_, nofun⟩
      cases h
      rw [hn] at hn'
      cases hn'
    | some n =>
      refine (taken_iff hcount n).trans
        ⟨fun h => ⟨fun j' n' hj' hn' => ?_, nofun⟩, fun h => h.1 j n rfl hn⟩
      cases hj'
      cases hn.symm.trans hn'
      exact h

def largeFont : Ttf where
  data := ofSegments [(0, [0, 0, 0, 0, 0, 0, 0, 1, 0, 3, 0, 1, 0, 0, 0, 12, 0, 4, 0, 32, 0, 0, 0, 4,
    0, 4, 0, 1, 0, 0, 0, 65, 0xFF, 0xFF, 0, 0, 0, 65, 0xFF, 0xFF, 0x9B, 0xFF, 0, 1, 0, 0, 0, 0])]
  size := 48
  cmap := 4
  glyf := 0
  loca := 0
  head := 0
  hhea := 0
  hmtx := 0
  glyphCount := 50000
  hmetrics := 0
  locaFormat := 0
  unitsPerEm := 0
  ascender := 0
  descender := 0
  ready := true

theorem glyphFor_negative : subtables largeFont = [16] ∧ (glyphFor largeFont 65).val = 0 ∧
    trueTypeGlyph largeFont 16 65 = 40000 := by
  decide +kernel

theorem glyphFor_assigns_iff_large : subtables largeFont = [16] ∧
    ((glyphFor largeFont (65 : UInt8).toNat).val = trueTypeGlyph largeFont 16 (65 : UInt8).toNat ↔
      (∀ j n, segmentOf largeFont 16 (65 : UInt8).toNat = some j →
        summand largeFont 16 j (65 : UInt8).toNat = some n → SumFits largeFont 16 j n) ∧
      (segmentOf largeFont 16 (65 : UInt8).toNat = none →
        Unassigned largeFont (65 : UInt8).toNat [])) := by
  have hsub : subtables largeFont = [16] := by decide +kernel
  refine ⟨hsub, glyphFor_assigns_iff largeFont 65 16 [] (by decide) (by decide) hsub ?_⟩
  intro j c _ _ hj hrange
  have hnone : ∀ j < 2, idRangeOffset largeFont 16 j = 0 := by decide +kernel
  exact absurd (hnone j hj) hrange

end DiscouNT.Fb
