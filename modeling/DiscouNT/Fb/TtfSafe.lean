import Mathlib.Data.List.GetD
import DiscouNT.Fb.TtfOutline

/-!
# Fb.TtfSafe

Rendering a character. Given the outline's points, filling the cells is safe: the crossing test
indexes below the number of points and divides by the difference of two coordinates that are on
different sides of its line, and the em square is never 0. So a character is rendered safely
exactly when the outlines drawn for it fit (`fontSafe_iff`).
-/

namespace DiscouNT.Fb

open Lib Option Logged

variable {t : Ttf} {size : Nat}

theorem sub_ne_zero_of_sides {a b c : Int32} (h : decide (a > c) ≠ decide (b > c)) :
    b - a ≠ 0 := by
  intro hsub
  have hab : b = a := by grind
  exact h (by rw [hab])

theorem insidePass_safe {sx sy : Int32} {curve : Curve} {i : Nat} {s : Nat × Bool}
    (hi : i < curve.count) (hj : s.1 < curve.count) :
    (insidePass sx sy curve i s).All (Access.Safe size) := by
  rw [insidePass]
  simp only [Logged.all_bind, all_elemAt, val_elemAt]
  refine ⟨hi, hj, (all_ite _ _).mpr ⟨fun hsides => ?_, fun _ => all_pure _⟩⟩
  simp only [Logged.all_bind, all_elemAt, val_elemAt, all_divide, all_pure, and_true]
  exact ⟨hi, hj, sub_ne_zero_of_sides hsides⟩

theorem insidePass_fst (sx sy : Int32) (curve : Curve) (i : Nat) (s : Nat × Bool) :
    (insidePass sx sy curve i s).val.1 = i := by
  simp only [insidePass, val_bind, val_ite, val_pure]
  split <;> rfl

theorem inside_safe (sx sy : Int32) (curve : Curve) :
    (inside sx sy curve).All (Access.Safe size) := by
  rw [inside, Logged.all_map, all_fold]
  intro i hi
  refine insidePass_safe hi ?_
  -- the point before: the last one at first, then the one of the pass before
  cases i with
  | zero =>
    change curve.count - 1 < curve.count
    omega
  | succ i =>
    rw [Logged.fold, val_bind, insidePass_fst]
    omega

theorem sampleCell_safe {scale : Scale} (hem : scale.em ≠ 0) (curve : Curve) (sx sy : Nat) :
    (sampleCell scale curve sx sy).All (Access.Safe size) := by
  rw [sampleCell, all_fold]
  intro a _
  rw [all_fold]
  intro b _
  simp only [Logged.all_bind, all_divide, all_pure, and_true]
  exact ⟨hem, hem, inside_safe _ _ curve⟩

theorem coverCurve_safe {scale : Scale} (hem : scale.em ≠ 0) (curve : Curve) (cover : Cover) :
    (coverCurve scale curve cover).All (Access.Safe size) := by
  rw [coverCurve, all_fold]
  intro sx _
  rw [all_fold]
  intro sy _
  rw [Logged.all_bind]
  exact ⟨sampleCell_safe hem curve sx sy, all_pure _⟩

def firstPoint (ends : Nat → Nat) : Nat → Nat
  | 0 => 0
  | c + 1 => (ends c + 1) % 65536

theorem contourPass_first (points : Points) (scale : Scale) (contours : Nat) (ends : Nat → Nat)
    (c : Nat) (s : Contours) :
    (contourPass points scale contours ends c s).val.first = (ends c + 1) % 65536 := by
  simp only [contourPass, val_bind, val_ite, val_pure, val_elemAt]
  split <;> rfl

theorem contourPass_safe_iff {points : Points} {scale : Scale} (hem : scale.em ≠ 0)
    {contours : Nat} {ends : Nat → Nat} {c : Nat} (hc : c < contours) (s : Contours) :
    (contourPass points scale contours ends c s).All (Access.Safe size) ↔
      ContourFits points.points points.flags s.first (ends c) := by
  rw [contourPass]
  simp only [Logged.all_bind, all_elemAt, val_elemAt, flatten_safe_iff]
  constructor
  · exact fun h => h.2.1
  · intro hfits
    refine ⟨hc, hfits, ?_⟩
    split
    · exact all_pure _
    · exact (Logged.all_bind _ _).mpr ⟨coverCurve_safe hem _ _, all_pure _⟩

theorem contours_safe_iff {points : Points} {scale : Scale} (hem : scale.em ≠ 0) (contours : Nat)
    (ends : Nat → Nat) {s : Contours} (hs : s.first = 0) :
    (Logged.fold (contourPass points scale contours ends) s contours).All (Access.Safe size) ↔
      ∀ c < contours, ContourFits points.points points.flags (firstPoint ends c) (ends c) := by
  have hfirst : ∀ c, (Logged.fold (contourPass points scale contours ends) s c).val.first =
      firstPoint ends c := by
    intro c
    cases c with
    | zero => exact hs
    | succ c =>
      rw [Logged.fold, val_bind, contourPass_first]
      rfl
  rw [all_fold]
  refine forall₂_congr fun c hc => ?_
  rw [contourPass_safe_iff hem hc, hfirst]

structure Ttf.WellFormed (t : Ttf) : Prop where
  size : t.size < 2 ^ 32
  glyf : t.glyf ≤ t.size
  unitsPerEm : t.unitsPerEm < 65536

theorem emOf_ne_zero (ht : t.WellFormed) : emOf t ≠ 0 := by
  have := ht.unitsPerEm
  rw [emOf]
  split
  · intro hzero
    have htoInt := congrArg Int32.toInt hzero
    rw [Int32.toInt_ofNat_of_lt (by omega)] at htoInt
    change (t.unitsPerEm : Int) = 0 at htoInt
    omega
  · decide

theorem readScale_safe (t : Ttf) (glyph : Nat) (ymin ymax : Int) :
    (readScale t glyph ymin ymax).All (Access.Safe t.size) := by
  have hwidth : (advanceWidth t glyph).All (Access.Safe t.size) := by
    rw [advanceWidth]
    generalize u32 _ = pos
    split
    · rename_i hpos
      exact all_u16At.mpr (rangeOk_iff.mp hpos.2.2).2
    · exact all_pure 0
  rw [readScale, Logged.all_bind]
  exact ⟨hwidth, all_pure _⟩

theorem readEnds_safe {p contours : Nat} (hp : p + contours * 2 ≤ t.size) :
    (readEnds t p contours).All (Access.Safe t.size) := by
  rw [readEnds, all_fold]
  intro c hc
  rw [Logged.all_bind, all_u16At]
  exact ⟨by omega, all_pure _⟩

theorem outlineHeader_safe (ht : t.WellFormed) (glyph : Nat) :
    (outlineHeader t glyph).All (Access.Safe t.size) := by
  rw [outlineHeader, Logged.all_bind, Logged.all_bind]
  refine ⟨glyphOffset_safe t glyph, glyphOffset_safe t _, ?_⟩
  have hnext := glyphOffset_le ht.size ht.glyf ((glyph + 1) % 65536)
  generalize (glyphOffset t glyph).val = off
  generalize (glyphOffset t ((glyph + 1) % 65536)).val = next at *
  split
  · exact all_pure _
  split
  · exact all_pure _
  simp only
  split
  · exact all_pure _
  rw [Logged.all_bind, all_s16At]
  refine ⟨by omega, ?_⟩
  generalize (s16At t (t.glyf + off)).val = contours
  split
  · exact all_pure _
  rw [Logged.all_bind, all_s16At, Logged.all_bind, all_s16At]
  refine ⟨by omega, by omega, ?_⟩
  split
  · exact all_pure _
  rw [Logged.all_bind, Logged.all_bind, all_elemAt]
  refine ⟨readEnds_safe (by omega), by omega, ?_⟩
  split
  · exact all_pure _
  rw [Logged.all_bind, all_u16At]
  refine ⟨by omega, ?_⟩
  split
  · exact all_pure _
  · exact all_pure _

theorem outlineHeader_limit (ht : t.WellFormed) {glyph : Nat} {o : Outline}
    (ho : (outlineHeader t glyph).val = some o) : o.limit ≤ t.size := by
  have hnext := glyphOffset_le ht.size ht.glyf ((glyph + 1) % 65536)
  simp only [outlineHeader, val_bind, val_ite, val_pure] at ho
  repeat' split at ho
  all_goals cases ho
  exact hnext

def Outline.Fits (t : Ttf) (o : Outline) : Prop :=
  let run := flagRun t.data o.points 0 0 o.start
  let g := fun i => run.flags.getD i 0
  let q := deltaAt g 2 16 run.stop o.points
  CountsFit t o.limit run ∧
    (FlagsComplete o.limit run →
      DeltasFit t o.limit o.points g 2 16 run.stop 0 ∧
        ((∀ j < o.points, ¬ Cut o.limit g 2 16 run.stop j) →
          DeltasFit t o.limit o.points g 4 32 q 0 ∧
            ((∀ j < o.points, ¬ Cut o.limit g 4 32 q j) →
              ∀ c < o.contours, ContourFits o.points g (firstPoint o.ends c) (o.ends c))))

def GlyphFits (t : Ttf) (glyph : Nat) : Prop :=
  ∀ o, (outlineHeader t glyph).val = some o → o.Fits t

theorem contourFits_congr {points : Nat} {g g' : Nat → UInt8} (hg : ∀ i < points, g i = g' i)
    (first last : Nat) : ContourFits points g first last ↔ ContourFits points g' first last := by
  refine imp_congr_right fun hle => and_congr_right fun hlast => not_congr ?_
  rw [hg first (by omega)]

theorem renderSimpleOutline_safe_iff (ht : t.WellFormed) (stack : Stack) (glyph : Nat)
    (cover : Cover) :
    (renderSimpleOutline t stack glyph cover).All (Access.Safe t.size) ↔ GlyphFits t glyph := by
  rw [renderSimpleOutline, all_whenSome]
  refine Iff.trans (and_iff_right (outlineHeader_safe ht glyph)) (forall₂_congr fun o ho => ?_)
  have hlimit := outlineHeader_limit ht ho
  let run := flagRun t.data o.points 0 0 o.start
  let g := fun i => run.flags.getD i 0
  let flags := storeBytes stack.flags 0 run.flags
  have hlength : run.flags.length = o.points := flagRun_length t.data _ _ _ _
  have hflags : ∀ i < o.points, flags i = g i := by
    intro i hi
    have hin : i < run.flags.length := by omega
    have hstored := storeBytes_in (m := stack.flags) (a := 0) hin
    rw [Nat.zero_add] at hstored
    exact hstored.trans (List.getD_eq_getElem _ _ hin).symm
  have hreads : ReadsFlags t o.limit 0 stack.flags run
      (readFlags t o.limit o.points o.points 0 o.start stack.flags) :=
    readFlags_reads hlimit o.points 0 o.start stack.flags (Nat.zero_le _)
      (Nat.le_of_eq (Nat.zero_add _).symm)
  rw [all_whenSome, hreads.all, Outline.Fits]
  refine and_congr_right fun _ => ?_
  by_cases hcomplete : FlagsComplete o.limit run
  case neg =>
    rw [hreads.cut hcomplete]
    exact iff_of_true nofun fun h => absurd h hcomplete
  refine Iff.trans ?_ (imp_iff_right hcomplete).symm
  rw [hreads.complete hcomplete]
  simp only [some.injEq, forall_eq']
  have hx : ReadsDeltas t o.limit o.points g 2 16 run.stop 0
      (readCoordinates t o.limit o.points flags 2 16 o.points 0 run.stop stack.x) :=
    readCoordinates_reads hlimit hflags o.points 0 stack.x (Nat.zero_add _)
  rw [all_whenSome, hx.all]
  refine and_congr_right fun _ => ?_
  by_cases hcut : ∀ j < o.points, ¬ Cut o.limit g 2 16 run.stop j
  case neg =>
    rw [hx.cut fun h => hcut fun j hj => h j (Nat.zero_le j) hj]
    exact iff_of_true nofun fun h => absurd h hcut
  refine Iff.trans ?_ (imp_iff_right hcut).symm
  obtain ⟨xs, hxs⟩ := hx.complete fun j _ hj => hcut j hj
  rw [hxs]
  simp only [some.injEq, forall_eq']
  let q := deltaAt g 2 16 run.stop o.points
  have hy : ReadsDeltas t o.limit o.points g 4 32 q 0
      (readCoordinates t o.limit o.points flags 4 32 o.points 0 q stack.y) :=
    readCoordinates_reads hlimit hflags o.points 0 stack.y (Nat.zero_add _)
  rw [all_whenSome, hy.all]
  refine and_congr_right fun _ => ?_
  by_cases hcut' : ∀ j < o.points, ¬ Cut o.limit g 4 32 q j
  case neg =>
    rw [hy.cut fun h => hcut' fun j hj => h j (Nat.zero_le j) hj]
    exact iff_of_true nofun fun h => absurd h hcut'
  refine Iff.trans ?_ (imp_iff_right hcut').symm
  obtain ⟨ys, hys⟩ := hy.complete fun j _ hj => hcut' j hj
  rw [hys]
  simp only [some.injEq, forall_eq']
  have hem : (readScale t glyph o.ymin o.ymax).val.em ≠ 0 := emOf_ne_zero ht
  rw [Logged.all_bind, Logged.all_bind, contours_safe_iff hem o.contours o.ends rfl]
  constructor
  · rintro ⟨_, hcontours, _⟩ c hc
    exact (contourFits_congr hflags _ _).mp (hcontours c hc)
  · intro hcontours
    exact ⟨readScale_safe t glyph _ _,
      fun c hc => (contourFits_congr hflags _ _).mpr (hcontours c hc), all_pure _⟩

section Components

variable {limit : Nat}

theorem readArgs_safe (hlimit : limit ≤ t.size) (flags p : Nat) :
    (readArgs t limit flags p).All (Access.Safe t.size) := by
  rw [readArgs]
  split
  · split
    · exact all_pure _
    · simp only [Logged.all_bind, all_s16At, all_pure, and_true]
      omega
  · split
    · exact all_pure _
    · simp only [Logged.all_bind, all_byteAt, all_pure, and_true]
      omega

theorem readMatrix_safe (hlimit : limit ≤ t.size) (flags p : Nat) :
    (readMatrix t limit flags p).All (Access.Safe t.size) := by
  rw [readMatrix]
  repeat' split
  all_goals first
    | exact all_pure _
    | (simp only [Logged.all_bind, all_s16At, all_pure, and_true]; omega)

theorem readComponent_safe (hlimit : limit ≤ t.size) (p : Nat) :
    (readComponent t limit p).All (Access.Safe t.size) := by
  rw [readComponent]
  split
  · exact all_pure _
  rw [Logged.all_bind, all_u16At, Logged.all_bind, all_u16At, all_whenSome]
  refine ⟨by omega, by omega, readArgs_safe hlimit _ _, ?_⟩
  rintro ⟨arg1, arg2, p'⟩ _
  simp only
  rw [all_whenSome]
  exact ⟨readMatrix_safe hlimit _ _, fun _ _ => all_pure _⟩

theorem readArgs_le {flags p p' : Nat} {arg1 arg2 : Int}
    (h : (readArgs t limit flags p).val = some (arg1, arg2, p')) : p ≤ p' := by
  simp only [readArgs, val_ite, val_bind, val_pure] at h
  repeat' split at h
  all_goals cases h
  all_goals omega

theorem readMatrix_le {flags p p' : Nat} {m : Int × Int × Int × Int}
    (h : (readMatrix t limit flags p).val = some (m, p')) : p ≤ p' := by
  simp only [readMatrix, val_ite, val_bind, val_pure] at h
  repeat' split at h
  all_goals cases h
  all_goals omega

theorem readComponent_next {p : Nat} {comp : Component}
    (h : (readComponent t limit p).val = some comp) : p + 4 ≤ comp.next ∧ p + 4 ≤ limit := by
  rw [readComponent, val_ite] at h
  split at h
  · cases h
  simp only [val_bind, val_whenSome, bind_eq_some_iff] at h
  obtain ⟨⟨arg1, arg2, p1⟩, hargs, ⟨m, p2⟩, hmatrix, hcomp⟩ := h
  cases hcomp
  have h1 := readArgs_le hargs
  have h2 := readMatrix_le hmatrix
  exact ⟨Nat.le_trans h1 h2, by omega⟩

/-- The glyphs of the components from `p` on, up to the last or the first that is cut off. -/
def componentGlyphs (t : Ttf) (limit : Nat) : Nat → Nat → List Nat
  | 0, _ => []
  | fuel + 1, p =>
    match (readComponent t limit p).val with
    | none => []
    | some comp => comp.glyph :: if comp.more then componentGlyphs t limit fuel comp.next else []

theorem addComponent_safe (ht : t.WellFormed) (comp : Component) (part cover : Cover) :
    (addComponent t comp part cover).All (Access.Safe t.size) := by
  simp only [addComponent, Logged.all_bind, all_divide, all_pure, and_true]
  exact ⟨emOf_ne_zero ht, emOf_ne_zero ht⟩

theorem renderComponents_safe_iff (ht : t.WellFormed) (stack : Stack) (hlimit : limit ≤ t.size) :
    ∀ (fuel p : Nat) (cover : Cover), 0 < fuel → limit < p + fuel →
      ((renderComponents t stack limit fuel p cover).All (Access.Safe t.size) ↔
        ∀ g ∈ componentGlyphs t limit fuel p, GlyphFits t g) := by
  intro fuel
  induction fuel with
  | zero => intro p cover hpos; omega
  | succ fuel ih =>
    intro p cover _ hfuel
    rw [renderComponents, componentGlyphs, all_whenSome]
    refine Iff.trans (and_iff_right (readComponent_safe hlimit p)) ?_
    cases hcomp : (readComponent t limit p).val with
    | none => exact iff_of_true nofun nofun
    | some comp =>
      obtain ⟨hnext, hp⟩ := readComponent_next hcomp
      simp only [some.injEq, forall_eq', List.forall_mem_cons]
      rw [Logged.all_bind, renderSimpleOutline_safe_iff ht]
      refine and_congr_right fun _ => ?_
      rw [Logged.all_bind]
      refine Iff.trans (and_iff_right (addComponent_safe ht comp _ _)) ?_
      by_cases hmore : comp.more = true
      · rw [if_pos hmore, if_pos hmore]
        exact ih comp.next _ (by omega) (by omega)
      · rw [if_neg hmore, if_neg hmore]
        exact iff_of_true (all_pure _) nofun

theorem compositeHeader_safe (ht : t.WellFormed) (glyph : Nat) :
    (compositeHeader t glyph).All (Access.Safe t.size) := by
  rw [compositeHeader, Logged.all_bind, Logged.all_bind]
  refine ⟨glyphOffset_safe t glyph, glyphOffset_safe t _, ?_⟩
  have hnext := glyphOffset_le ht.size ht.glyf ((glyph + 1) % 65536)
  split
  · exact all_pure _
  split
  · exact all_pure _
  split
  · exact all_pure _
  simp only
  split
  · exact all_pure _
  rw [Logged.all_bind, all_s16At]
  refine ⟨by omega, ?_⟩
  split
  · exact all_pure _
  · exact all_pure _

theorem compositeHeader_limit (ht : t.WellFormed) {glyph p : Nat}
    (h : (compositeHeader t glyph).val = some (p, limit)) : limit ≤ t.size := by
  have hnext := glyphOffset_le ht.size ht.glyf ((glyph + 1) % 65536)
  simp only [compositeHeader, val_bind, val_ite, val_pure] at h
  repeat' split at h
  all_goals cases h
  exact hnext

end Components

/-! ## Characters -/

def partsOf (t : Ttf) (glyph : Nat) : List Nat :=
  match (peekContours t glyph).val with
  | none => []
  | some contours =>
    if contours ≥ 0 then [glyph]
    else
      match (compositeHeader t glyph).val with
      | none => []
      | some (p, limit) => componentGlyphs t limit (limit - p + 1) p

def glyphsDrawn (t : Ttf) (c : UInt8) : List Nat :=
  if ¬ t.ready ∨ c < 32 ∨ c > 126 then [] else partsOf t (glyphFor t c.toNat).val

theorem peekContours_safe (ht : t.WellFormed) (glyph : Nat) :
    (peekContours t glyph).All (Access.Safe t.size) := by
  rw [peekContours, Logged.all_bind, Logged.all_bind]
  refine ⟨glyphOffset_safe t glyph, glyphOffset_safe t _, ?_⟩
  have hnext := glyphOffset_le ht.size ht.glyf ((glyph + 1) % 65536)
  split
  · exact all_pure _
  simp only
  split
  · exact all_pure _
  · rw [Logged.all_map, all_s16At]
    omega

theorem renderCompositeOutline_safe_iff (ht : t.WellFormed) (stack : Stack) (glyph : Nat)
    (cover : Cover) :
    (renderCompositeOutline t stack glyph cover).All (Access.Safe t.size) ↔
      ∀ p limit, (compositeHeader t glyph).val = some (p, limit) →
        ∀ g ∈ componentGlyphs t limit (limit - p + 1) p, GlyphFits t g := by
  rw [renderCompositeOutline, all_whenSome]
  refine Iff.trans (and_iff_right (compositeHeader_safe ht glyph)) ?_
  rw [Prod.forall]
  refine forall₂_congr fun p limit => forall_congr' fun hheader => ?_
  exact renderComponents_safe_iff ht stack (compositeHeader_limit ht hheader) _ p cover (by omega)
    (by omega)

theorem render_safe_iff (ht : t.WellFormed) (stack : Stack) (glyph : Nat) :
    (render t stack glyph).All (Access.Safe t.size) ↔ ∀ g ∈ partsOf t glyph, GlyphFits t g := by
  rw [render, partsOf, all_whenSome]
  refine Iff.trans (and_iff_right (peekContours_safe ht glyph)) ?_
  cases (peekContours t glyph).val with
  | none => simp
  | some contours =>
    simp only [some.injEq, forall_eq']
    by_cases hsimple : contours ≥ 0
    · rw [if_pos hsimple, if_pos hsimple, Logged.all_bind, renderSimpleOutline_safe_iff ht]
      simp only [all_pure, and_true, List.forall_mem_singleton]
    · rw [if_neg hsimple, if_neg hsimple, Logged.all_bind, renderCompositeOutline_safe_iff ht]
      simp only [all_pure, and_true]
      cases (compositeHeader t glyph).val with
      | none => simp
      | some header =>
        obtain ⟨p, limit⟩ := header
        simp only [some.injEq, Prod.mk.injEq]
        exact ⟨fun h => h p limit ⟨rfl, rfl⟩, fun h p' limit' heq => by rwa [← heq.1, ← heq.2]⟩

theorem fbTtfGlyph_safe_iff (ht : t.WellFormed) (stack : Stack) (c : UInt8) :
    (fbTtfGlyph t stack c).All (Access.Safe t.size) ↔ ∀ g ∈ glyphsDrawn t c, GlyphFits t g := by
  rw [fbTtfGlyph, glyphsDrawn]
  split
  · exact iff_of_true (all_pure _) nofun
  · rw [Logged.all_bind, render_safe_iff ht]
    exact and_iff_right (glyphFor_safe ht.size _)

theorem fbTtfLoad_wellFormed (data : Mem) (size : UInt32) : (fbTtfLoad data size).WellFormed := by
  rw [fbTtfLoad]
  simp only
  split
  · exact ⟨size.toNat_lt, table_le _ _, Nat.zero_lt_succ _⟩
  · exact ⟨size.toNat_lt, table_le _ _, word16_lt _ _⟩

theorem fbTtfLoad_size (data : Mem) (size : UInt32) : (fbTtfLoad data size).size = size.toNat := by
  rw [fbTtfLoad]
  simp only
  split <;> rfl

/-- A file of `size` bytes looked up and a character of it rendered, whatever the stack holds: only
bytes of the file and initialised elements are read, nothing is divided by 0 and every loop ends. -/
def FontSafe (data : Mem) (size : UInt32) (stack : Stack) (c : UInt8) : Prop :=
  (∀ t : Ttf, t.data = data → t.size = size.toNat → ∀ tag,
    (table t tag).All (Access.Safe size.toNat)) ∧
  (fbTtfGlyph (fbTtfLoad data size) stack c).All (Access.Safe size.toNat)

theorem fontSafe_iff (data : Mem) (size : UInt32) (stack : Stack) (c : UInt8) :
    FontSafe data size stack c ↔
      ∀ g ∈ glyphsDrawn (fbTtfLoad data size) c, GlyphFits (fbTtfLoad data size) g := by
  have hglyph := fbTtfGlyph_safe_iff (fbTtfLoad_wellFormed data size) stack c
  rw [fbTtfLoad_size] at hglyph
  rw [FontSafe, hglyph]
  refine and_iff_right fun t _ hsize tag => ?_
  rw [← hsize]
  exact table_safe t tag

/-- A font of 180 bytes. Its only glyph has two points, and the flag of the second, the last byte of
the file, says that a repeat count follows. -/
def cutFont : Mem := ofSegments [
  (4, [0, 6]),
  (12, [0x68, 0x65, 0x61, 0x64, 0, 0, 0, 0, 0, 0, 0, 108, 0, 0, 0, 52]),
  (28, [0x63, 0x6D, 0x61, 0x70, 0, 0, 0, 0, 0, 0, 0, 108, 0, 0, 0, 52]),
  (44, [0x67, 0x6C, 0x79, 0x66, 0, 0, 0, 0, 0, 0, 0, 164, 0, 0, 0, 16]),
  (60, [0x6C, 0x6F, 0x63, 0x61, 0, 0, 0, 0, 0, 0, 0, 160, 0, 0, 0, 4]),
  (76, [0x68, 0x68, 0x65, 0x61, 0, 0, 0, 0, 0, 0, 0, 108, 0, 0, 0, 52]),
  (92, [0x6D, 0x61, 0x78, 0x70, 0, 0, 0, 0, 0, 0, 0, 108, 0, 0, 0, 52]),
  (112, [0, 1]),
  (162, [0, 8]),
  (164, [0, 1, 0, 0, 0, 0, 0, 0, 0, 0, 0, 1, 0, 0, 0x01, 0x08])]

/-- The count of the last flag is read behind the file. -/
theorem fontSafe_cut :
    ¬ ∀ (data : Mem) (size : UInt32) (stack : Stack) (c : UInt8), FontSafe data size stack c := by
  intro hall
  let stack : Stack := ⟨fun _ => 0, fun _ => 0, fun _ => 0⟩
  have hread : Access.bytes 180 1 ∈ (fbTtfGlyph (fbTtfLoad cutFont 180) stack 65).log := by
    decide +kernel
  exact absurd ((hall cutFont 180 stack 65).2 _ hread) (by decide)

end DiscouNT.Fb
