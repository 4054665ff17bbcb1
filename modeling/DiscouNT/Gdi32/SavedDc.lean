import DiscouNT.Gdi32.Dc
import Mathlib.Data.List.Perm.Subperm

/-!
# Gdi32.SavedDc

Saved device contexts. `SaveDC` copies all fields that `RestoreDC` writes but one, the selected font:
no slot ever holds one, so a `RestoreDC` leaves the context without a font. Everything else is as it
was at the matching `SaveDC`, and the levels further out are as they were.
-/

namespace DiscouNT.Gdi32

open List Function

/-- A function that changes attributes; what it draws is left out. -/
inductive Change where
  | setTextColor (color : UInt32)
  | setBkColor (color : UInt32)
  | setBkMode (mode : Int)
  | moveToEx (x y : Int)
  | lineTo (x y : Int)
  | selectObject (w : World) (h : Nat)
  | excludeClipRect (left top right bottom : Int)

def change (dc : GdiDc) : Change → GdiDc
  | .setTextColor color => setTextColor dc color
  | .setBkColor color => setBkColor dc color
  | .setBkMode mode => setBkMode dc mode
  | .moveToEx x y => moveToEx dc x y
  | .lineTo x y => moveToEx dc x y
  | .selectObject w h => selectObject w dc h
  | .excludeClipRect left top right bottom => excludeClipRect dc left top right bottom

inductive DcOp where
  | change (c : Change)
  | save
  | restore

/-- The context, and for each `SaveDC` without a `RestoreDC` yet, innermost first, what it returned
and the attributes at that time. -/
structure Session where
  dc : GdiDc
  levels : List (Nat × Attributes)

/-- `restore` is a `RestoreDC` of what the innermost `SaveDC` returned. -/
def Session.step (s : Session) : DcOp → Session
  | .change c => { s with dc := Gdi32.change s.dc c }
  | .save => ⟨(saveDC s.dc).2, ((saveDC s.dc).1, s.dc.toAttributes) :: s.levels⟩
  | .restore =>
    match s.levels with
    | [] => s
    | (token, _) :: levels => ⟨(restoreDC s.dc token).2, levels⟩

def Session.run (s : Session) (ops : List DcOp) : Session := ops.foldl step s

/-- The pairs are properly nested, at most 8 deep; `depth` of them are open. -/
def WellNested : Nat → List DcOp → Prop
  | _, [] => True
  | depth, .change _ :: ops => WellNested depth ops
  | depth, .save :: ops => depth < 8 ∧ WellNested (depth + 1) ops
  | 0, .restore :: _ => False
  | depth + 1, .restore :: ops => WellNested depth ops

/-- The innermost `RestoreDC` succeeds, brings every attribute back, and leaves the slots of the
other levels as they are. -/
def RestoresLevel (s : Session) : Prop :=
  ∀ token a levels, s.levels = (token, a) :: levels →
    (restoreDC s.dc token).1 = true ∧ (restoreDC s.dc token).2.toAttributes = a ∧
      ∀ l ∈ levels, (restoreDC s.dc token).2.saved (l.1 - 1) = s.dc.saved (l.1 - 1)

def Lawful (dc : GdiDc) (ops : List DcOp) : Prop :=
  ∀ done todo, ops = done ++ .restore :: todo → RestoresLevel (Session.run ⟨dc, []⟩ done)

def SavedWithoutFont (s : Session) : Prop :=
  ∀ token a levels, s.levels = (token, a) :: levels → a.selectedFont = none

def Attributes.savedAs (a : Attributes) : GdiSavedDc := { a with selectedFont := none, used := true }

structure SlotsOk (s : Session) : Prop where
  font : ∀ i, (s.dc.saved i).selectedFont = none
  token : ∀ l ∈ s.levels, 1 ≤ l.1 ∧ l.1 ≤ 8
  slot : ∀ l ∈ s.levels, s.dc.saved (l.1 - 1) = l.2.savedAs
  used : ∀ i < 8, (s.dc.saved i).used = true → i + 1 ∈ s.levels.map Prod.fst
  nodup : (s.levels.map Prod.fst).Nodup

@[simp] theorem change_saved (dc : GdiDc) (c : Change) : (change dc c).saved = dc.saved := by
  cases c with
  | selectObject w h =>
    rw [change, selectObject]
    split
    · rfl
    · rfl
    · rfl
    · split <;> rfl
    · rfl
  | _ => rfl

variable {s : Session}

theorem SlotsOk.free (h : SlotsOk s) (hdepth : s.levels.length < 8) :
    ∃ i, (List.range 8).find? (fun i => ! (s.dc.saved i).used) = some i := by
  rw [← Option.isSome_iff_exists, find?_isSome]
  by_contra hfull
  have hsub : (List.range 8).map (· + 1) ⊆ s.levels.map Prod.fst := by
    intro t ht
    obtain ⟨i, hi, rfl⟩ := mem_map.mp ht
    refine h.used i (mem_range.mp hi) ?_
    by_contra hunused
    exact hfull ⟨i, hi, by simpa using hunused⟩
  have hnodup : ((List.range 8).map (· + 1)).Nodup := by decide
  have hlength := (subperm_of_subset hnodup hsub).length_le
  rw [length_map, length_map, length_range] at hlength
  omega

theorem SlotsOk.saveDC_eq (h : SlotsOk s) (hdepth : s.levels.length < 8) :
    ∃ i < 8, (s.dc.saved i).used = false ∧ saveDC s.dc = (i + 1, { s.dc with
      saved := update s.dc.saved i s.dc.toAttributes.savedAs }) := by
  obtain ⟨i, hi⟩ := h.free hdepth
  have hmem := mem_range.mp (mem_of_find?_eq_some hi)
  have hunused : (s.dc.saved i).used = false := by simpa using find?_some hi
  refine ⟨i, hmem, hunused, ?_⟩
  rw [saveDC, hi]
  simp only [Attributes.savedAs, h.font i]

theorem SlotsOk.save (h : SlotsOk s) (hdepth : s.levels.length < 8) :
    SlotsOk (s.step .save) := by
  obtain ⟨i, hi, hunused, heq⟩ := h.saveDC_eq hdepth
  have hfresh : ∀ l ∈ s.levels, l.1 - 1 ≠ i := by
    intro l hl hne
    have hslot := h.slot l hl
    rw [hne] at hslot
    rw [hslot] at hunused
    cases hunused
  have hnew : i + 1 ∉ s.levels.map Prod.fst := by
    intro hin
    obtain ⟨l, hl, htoken⟩ := mem_map.mp hin
    exact hfresh l hl (by omega)
  rw [Session.step, heq]
  constructor
  · intro j
    dsimp only
    by_cases hj : j = i
    · rw [hj, update_self]
      rfl
    · rw [update_of_ne hj]
      exact h.font j
  · intro l hl
    rcases mem_cons.mp hl with rfl | hl
    · exact ⟨Nat.succ_le_succ (Nat.zero_le i), hi⟩
    · exact h.token l hl
  · intro l hl
    rcases mem_cons.mp hl with rfl | hl
    · exact update_self ..
    · exact (update_of_ne (hfresh l hl) ..).trans (h.slot l hl)
  · intro j hj hused
    by_cases hji : j = i
    · rw [hji]
      exact mem_cons_self ..
    · dsimp only at hused
      refine mem_cons_of_mem _ (h.used j hj ?_)
      rwa [update_of_ne hji] at hused
  · exact nodup_cons.mpr ⟨hnew, h.nodup⟩

theorem SlotsOk.restoreDC_eq {token : Nat} {a : Attributes}
    {levels : List (Nat × Attributes)} (h : SlotsOk s) (hs : s.levels = (token, a) :: levels) :
    restoreDC s.dc token = (true, { s.dc with
      toAttributes := { a with selectedFont := none },
      saved := update s.dc.saved (token - 1) { a.savedAs with used := false } }) := by
  have hin : (token, a) ∈ s.levels := by
    rw [hs]
    exact mem_cons_self ..
  obtain ⟨hpos, hle⟩ := h.token _ hin
  have hslot : s.dc.saved (token - 1) = a.savedAs := h.slot _ hin
  have hindex : ((token : Int) - 1).toNat = token - 1 := by omega
  rw [restoreDC]
  dsimp only
  rw [hindex, hslot, if_neg]
  · rfl
  · rintro (hneg | hbig | hunused)
    · omega
    · omega
    · cases hunused

theorem SlotsOk.restore {token : Nat} {a : Attributes}
    {levels : List (Nat × Attributes)} (h : SlotsOk s) (hs : s.levels = (token, a) :: levels) :
    SlotsOk (s.step .restore) := by
  have hnodup := h.nodup
  have htokens := h.token
  have hslots := h.slot
  have hused := h.used
  rw [hs] at hnodup htokens hslots hused
  obtain ⟨hnew, hrest⟩ := nodup_cons.mp hnodup
  have hpos := (htokens _ (mem_cons_self ..)).1
  have hother : ∀ l ∈ levels, l.1 - 1 ≠ token - 1 := by
    intro l hl heq
    have hl1 := (htokens l (mem_cons_of_mem _ hl)).1
    exact hnew (mem_map.mpr ⟨l, hl, by dsimp only at hpos; omega⟩)
  rw [Session.step, hs]
  dsimp only
  rw [h.restoreDC_eq hs]
  constructor
  · intro j
    dsimp only
    by_cases hj : j = token - 1
    · rw [hj, update_self]
      rfl
    · rw [update_of_ne hj]
      exact h.font j
  · exact fun l hl => htokens l (mem_cons_of_mem _ hl)
  · intro l hl
    exact (update_of_ne (hother l hl) ..).trans (hslots l (mem_cons_of_mem _ hl))
  · intro j hj hj'
    by_cases hjt : j = token - 1
    · dsimp only at hj'
      rw [hjt, update_self] at hj'
      cases hj'
    · dsimp only at hj'
      rw [update_of_ne hjt] at hj'
      rcases mem_cons.mp (hused j hj hj') with heq | hin
      · dsimp only at heq
        omega
      · exact hin
  · exact hrest

theorem SlotsOk.restoresLevel_iff (h : SlotsOk s) :
    RestoresLevel s ↔ SavedWithoutFont s := by
  constructor
  · intro hlaw token a levels hs
    obtain ⟨-, ha, -⟩ := hlaw token a levels hs
    rw [h.restoreDC_eq hs] at ha
    exact (congrArg Attributes.selectedFont ha).symm
  · intro hfont token a levels hs
    have hnofont := hfont token a levels hs
    have hnodup := h.nodup
    have htokens := h.token
    rw [hs] at hnodup htokens
    rw [h.restoreDC_eq hs]
    refine ⟨rfl, ?_, ?_⟩
    · rw [← hnofont]
    · intro l hl
      have hl1 := (htokens l (mem_cons_of_mem _ hl)).1
      have hpos := (htokens _ (mem_cons_self ..)).1
      have hne : l.1 ≠ token := fun heq =>
        (nodup_cons.mp hnodup).1 (mem_map.mpr ⟨l, hl, heq⟩)
      exact update_of_ne (by dsimp only at hpos; omega) ..

theorem SlotsOk.run {ops : List DcOp} : ∀ {s : Session}, SlotsOk s →
    WellNested s.levels.length ops → ∀ done todo, ops = done ++ todo → SlotsOk (s.run done) := by
  induction ops with
  | nil =>
    intro s h _ done todo heq
    obtain ⟨rfl, rfl⟩ := append_eq_nil_iff.mp heq.symm
    exact h
  | cons op ops ih =>
    intro s h hnested done todo heq
    cases done with
    | nil => exact h
    | cons op' done =>
      obtain ⟨rfl, rfl⟩ := List.cons.inj heq
      rw [Session.run, foldl_cons]
      cases op with
      | change c =>
        have hstep : SlotsOk (s.step (.change c)) := by
          refine ⟨?_, h.token, ?_, ?_, h.nodup⟩
          · rw [Session.step, change_saved]
            exact h.font
          · rw [Session.step, change_saved]
            exact h.slot
          · rw [Session.step, change_saved]
            exact h.used
        exact ih hstep hnested done todo rfl
      | save => exact ih (h.save hnested.1) hnested.2 done todo rfl
      | restore =>
        cases hs : s.levels with
        | nil =>
          rw [hs] at hnested
          exact hnested.elim
        | cons l levels =>
          rw [hs] at hnested
          refine ih (h.restore hs) ?_ done todo rfl
          rw [Session.step, hs]
          exact hnested

/-- A `RestoreDC` of what `SaveDC` returned brings back every attribute exactly when no font was
selected at the `SaveDC`, in every properly nested sequence on a new context. -/
theorem saved_contexts_iff {dc : GdiDc} {ops : List DcOp} (hnew : dc.saved = gdiAllocDc.saved)
    (hnested : WellNested 0 ops) : Lawful dc ops ↔
      ∀ done todo, ops = done ++ .restore :: todo → SavedWithoutFont (Session.run ⟨dc, []⟩ done) := by
  have hstart : SlotsOk ⟨dc, []⟩ := by
    refine ⟨?_, fun _ h => (not_mem_nil h).elim, fun _ h => (not_mem_nil h).elim, ?_, nodup_nil⟩
    · rw [hnew]
      exact fun _ => rfl
    · rw [hnew]
      intro _ _ hused
      cases hused
  constructor
  · intro hlaw done todo heq
    exact (hstart.run hnested done _ heq).restoresLevel_iff.mp (hlaw done todo heq)
  · intro hfont done todo heq
    exact (hstart.run hnested done _ heq).restoresLevel_iff.mpr (hfont done todo heq)

def nestedOps : List DcOp :=
  [.save, .change (.setBkMode 1), .save, .change (.moveToEx 3 4), .restore, .restore]

theorem saved_contexts_iff_nested :
    WellNested 0 nestedOps ∧ (Lawful gdiAllocDc nestedOps ↔ ∀ done todo,
      nestedOps = done ++ .restore :: todo → SavedWithoutFont (Session.run ⟨gdiAllocDc, []⟩ done)) :=
  ⟨⟨by decide, by decide, trivial⟩, saved_contexts_iff rfl ⟨by decide, by decide, trivial⟩⟩

/-- A new context has the stock font, and none after `SaveDC` and `RestoreDC`. -/
theorem saved_contexts_font :
    WellNested 0 [.save, .restore] ∧ ¬ Lawful gdiAllocDc [.save, .restore] := by
  refine ⟨⟨by decide, trivial⟩, fun hlaw => ?_⟩
  obtain ⟨-, ha, -⟩ := hlaw [.save] [] rfl _ _ _ rfl
  exact absurd (congrArg Attributes.selectedFont ha) (by decide)

end DiscouNT.Gdi32
