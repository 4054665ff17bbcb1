import DiscouNT.Fb.Surface

/-!
# Fb.Draw

What the drawing functions touch. `Touches K s s'`: on the way from `s` to `s'` the surfaces
changed only at the cells of `K`, all of which the dirty rectangle now holds. Each primitive
touches the part of its rectangle that is on the screen, and those that look at the clip rectangle
only the part inside it (`Confined`); the composite functions are sequences of these.
-/

namespace DiscouNT.Fb

open Lib Function

variable {s s' s'' : State} {K K' : Set Nat} {x y w h : Int} {k : Nat}

theorem State.width_pos (s : State) : 0 < s.width := (fbModes_size _ s.mode.2).1

def State.screen (s : State) : Set Nat := {k | k / s.width < s.height}

def State.clipped (s : State) : Set Nat :=
  {k | s.clip.enabled = true →
    (s.clip.left ≤ (k % s.width : Nat) ∧ ((k % s.width : Nat) : Int) < s.clip.right) ∧
      s.clip.top ≤ (k / s.width : Nat) ∧ ((k / s.width : Nat) : Int) < s.clip.bottom}

def State.area (s : State) (x y w h : Int) : Set Nat := box s.width ⟨x, w⟩ ⟨y, h⟩ ∩ s.screen

def State.dirtyCells (s : State) : Set Nat :=
  {k | s.dirty.valid = true ∧
    (s.dirty.x1 ≤ (k % s.width : Nat) ∧ ((k % s.width : Nat) : Int) ≤ s.dirty.x2) ∧
      s.dirty.y1 ≤ (k / s.width : Nat) ∧ ((k / s.width : Nat) : Int) ≤ s.dirty.y2}

def State.DirtyInside (s : State) : Prop :=
  s.dirty.valid = true →
    (0 ≤ s.dirty.x1 ∧ s.dirty.x1 ≤ s.dirty.x2 ∧ s.dirty.x2 < s.width) ∧
      0 ≤ s.dirty.y1 ∧ s.dirty.y1 ≤ s.dirty.y2 ∧ s.dirty.y2 < s.height

theorem mem_screen : k ∈ s.screen ↔ k / s.width < s.height := Iff.rfl

theorem mem_area :
    k ∈ s.area x y w h ↔
      (((k % s.width : Nat) : Int) ∈ Span.mk x w ∧ ((k / s.width : Nat) : Int) ∈ Span.mk y h) ∧
        k / s.width < s.height := Iff.rfl

theorem col_lt (s : State) (k : Nat) : k % s.width < s.width := Nat.mod_lt k s.width_pos

theorem cell_eq {x y : Int} (hx : 0 ≤ x) (hx' : x < s.width) (hy : 0 ≤ y) :
    (((y * s.width + x).toNat % s.width : Nat) : Int) = x ∧
      (((y * s.width + x).toNat / s.width : Nat) : Int) = y := by
  obtain ⟨a, rfl⟩ := Int.eq_ofNat_of_zero_le hx
  obtain ⟨b, rfl⟩ := Int.eq_ofNat_of_zero_le hy
  have ha : a < s.width := by omega
  have hnat : ((b : Int) * s.width + a).toNat = b * s.width + a := by
    rw [← Int.natCast_mul, ← Int.natCast_add, Int.toNat_natCast]
  rw [hnat, cell_col ha, cell_row ha]
  exact ⟨rfl, rfl⟩

theorem area_pixel (hx : ¬ (x < 0 ∨ x ≥ s.width ∨ y < 0 ∨ y ≥ s.height)) :
    k ∈ s.area x y 1 1 ↔ k = (y * s.width + x).toNat := by
  obtain ⟨hcol, hrow⟩ := cell_eq (s := s) (x := x) (y := y) (by omega) (by omega) (by omega)
  rw [mem_area, Span.mem_mk, Span.mem_mk]
  constructor
  · intro hk
    have hself := cell_self s.width k
    have hself' := cell_self s.width (y * s.width + x).toNat
    have hcols : k % s.width = (y * s.width + x).toNat % s.width := by omega
    have hrows : k / s.width = (y * s.width + x).toNat / s.width := by omega
    rw [← hself, ← hself', hcols, hrows]
  · rintro rfl
    have hlt : (y * s.width + x).toNat / s.width < s.height := by
      rw [← Int.ofNat_lt, hrow]
      omega
    rw [hcol, hrow]
    exact ⟨by omega, hlt⟩

theorem area_off_screen (hx : x < 0 ∨ x ≥ s.width ∨ y < 0 ∨ y ≥ s.height) :
    s.area x y 1 1 = ∅ := by
  refine Set.eq_empty_of_forall_notMem fun k hk => ?_
  have hcol := col_lt s k
  rw [mem_area, Span.mem_mk, Span.mem_mk] at hk
  generalize k % s.width = col at hk hcol
  generalize k / s.width = row at hk
  omega

theorem area_off_screen_row (hy : y < 0 ∨ y ≥ s.height) : s.area x y w 1 = ∅ := by
  refine Set.eq_empty_of_forall_notMem fun k hk => ?_
  rw [mem_area, Span.mem_mk, Span.mem_mk] at hk
  generalize k / s.width = row at hk
  omega

theorem area_rows : k ∈ s.area x y w h ↔ ∃ row : Nat, row < h.toNat ∧ k ∈ s.area x (y + row) w 1 := by
  simp only [mem_area]
  rw [Span.mem_iff_exists (s := ⟨y, h⟩)]
  constructor
  · rintro ⟨⟨hx, row, hrow, hy⟩, hk⟩
    exact ⟨row, hrow, ⟨hx, hy⟩, hk⟩
  · rintro ⟨row, hrow, ⟨hx, hy⟩, hk⟩
    exact ⟨⟨hx, row, hrow, hy⟩, hk⟩

theorem area_columns :
    k ∈ s.area x y w h ↔ ∃ col : Nat, col < w.toNat ∧ k ∈ s.area (x + col) y 1 h := by
  simp only [mem_area]
  rw [Span.mem_iff_exists (s := ⟨x, w⟩)]
  constructor
  · rintro ⟨⟨⟨col, hcol, hx⟩, hy⟩, hk⟩
    exact ⟨col, hcol, ⟨hx, hy⟩, hk⟩
  · rintro ⟨col, hcol, ⟨hx, hy⟩, hk⟩
    exact ⟨⟨⟨col, hcol, hx⟩, hy⟩, hk⟩

theorem Dirty.extend_of_valid {d : Dirty} (hv : d.valid = true) (x y x2 y2 : Int) :
    d.extend x y x2 y2 = ⟨true, min d.x1 x, min d.y1 y, max d.x2 x2, max d.y2 y2⟩ := by
  obtain ⟨valid, dx1, dy1, dx2, dy2⟩ := d
  obtain rfl : valid = true := hv
  simp only [Dirty.extend, if_true]
  have hx : (if x < dx1 then x else dx1) = min dx1 x := by omega
  have hy : (if y < dy1 then y else dy1) = min dy1 y := by omega
  have hx2 : (if x2 > dx2 then x2 else dx2) = max dx2 x2 := by omega
  have hy2 : (if y2 > dy2 then y2 else dy2) = max dy2 y2 := by omega
  rw [← hx, ← hy, ← hx2, ← hy2]
  by_cases h1 : x < dx1 <;> by_cases h2 : y < dy1 <;> by_cases h3 : x2 > dx2 <;>
    by_cases h4 : y2 > dy2 <;> simp only [h1, h2, h3, h4, if_true, if_false]

theorem Dirty.extend_of_not_valid {d : Dirty} (hv : ¬ d.valid = true) (x y x2 y2 : Int) :
    d.extend x y x2 y2 = ⟨true, x, y, x2, y2⟩ := by
  rw [Dirty.extend, if_neg hv]

theorem fbMarkDirty_cases (s : State) (x y w h : Int) :
    (s.area x y w h = ∅ ∧ fbMarkDirty s x y w h = s) ∨
      ∃ x1 y1 x2 y2 : Int, (0 ≤ x1 ∧ x1 ≤ x2 ∧ x2 < s.width) ∧ (0 ≤ y1 ∧ y1 ≤ y2 ∧ y2 < s.height) ∧
        (∀ k ∈ s.area x y w h,
          (x1 ≤ (k % s.width : Nat) ∧ ((k % s.width : Nat) : Int) ≤ x2) ∧
            y1 ≤ (k / s.width : Nat) ∧ ((k / s.width : Nat) : Int) ≤ y2) ∧
        fbMarkDirty s x y w h = { s with dirty := s.dirty.extend x1 y1 x2 y2 } := by
  let xs := (Span.mk x w).clipLow 0
  let ys := (Span.mk y h).clipLow 0
  have hspan : ∀ k ∈ s.area x y w h,
      ((k % s.width : Nat) : Int) ∈ xs.clipHigh s.width ∧
        ((k / s.width : Nat) : Int) ∈ ys.clipHigh s.height := by
    rintro k ⟨⟨hx, hy⟩, hscreen⟩
    simp only [xs, ys, Span.mem_clipHigh, Span.mem_clipLow]
    exact ⟨⟨⟨hx, Int.natCast_nonneg _⟩, Int.ofNat_lt.mpr (col_lt s k)⟩,
      ⟨hy, Int.natCast_nonneg _⟩, Int.ofNat_lt.mpr hscreen⟩
  have hx0 : 0 ≤ xs.start := Span.start_clipLow ⟨x, w⟩ 0
  have hy0 : 0 ≤ ys.start := Span.start_clipLow ⟨y, h⟩ 0
  have hxend := Span.end_clipHigh xs s.width
  have hyend := Span.end_clipHigh ys s.height
  have hxs := Span.start_clipHigh xs s.width
  have hys := Span.start_clipHigh ys s.height
  by_cases hearly : xs.start ≥ s.width ∨ ys.start ≥ s.height ∨ xs.len ≤ 0 ∨ ys.len ≤ 0
  · refine .inl ⟨Set.eq_empty_of_forall_notMem fun k hk => ?_, by rw [fbMarkDirty, if_pos hearly]⟩
    obtain ⟨hx, hy⟩ := hspan k hk
    rw [Span.mem_clipHigh, Span.mem_def] at hx hy
    omega
  by_cases hlate : (xs.clipHigh s.width).len ≤ 0 ∨ (ys.clipHigh s.height).len ≤ 0
  · refine .inl ⟨Set.eq_empty_of_forall_notMem fun k hk => ?_,
      by rw [fbMarkDirty, if_neg hearly, if_pos hlate]⟩
    obtain ⟨hx, hy⟩ := hspan k hk
    rcases hlate with hlate | hlate
    · exact Span.not_mem_of_len hlate _ hx
    · exact Span.not_mem_of_len hlate _ hy
  refine .inr ⟨(xs.clipHigh s.width).start, (ys.clipHigh s.height).start,
    (xs.clipHigh s.width).start + (xs.clipHigh s.width).len - 1,
    (ys.clipHigh s.height).start + (ys.clipHigh s.height).len - 1, ?_, ?_, fun k hk => ?_,
    by rw [fbMarkDirty, if_neg hearly, if_neg hlate]⟩
  · omega
  · omega
  · obtain ⟨hx, hy⟩ := hspan k hk
    rw [Span.mem_def] at hx hy
    omega

theorem fbMarkDirty_eq (s : State) (x y w h : Int) :
    ∃ d, fbMarkDirty s x y w h = { s with dirty := d } := by
  rcases fbMarkDirty_cases s x y w h with ⟨_, hsame⟩ | ⟨_, _, _, _, _, _, _, heq⟩
  · exact ⟨s.dirty, hsame⟩
  · exact ⟨_, heq⟩

@[simp] theorem fbMarkDirty_surface (s : State) (x y w h : Int) :
    (fbMarkDirty s x y w h).surface = s.surface := by
  obtain ⟨d, hd⟩ := fbMarkDirty_eq s x y w h
  rw [hd]

@[simp] theorem fbMarkDirty_shadow (s : State) (x y w h : Int) :
    (fbMarkDirty s x y w h).shadow = s.shadow := by
  obtain ⟨d, hd⟩ := fbMarkDirty_eq s x y w h
  rw [hd]

theorem mem_dirtyCells_fbMarkDirty (s : State) (x y w h : Int) :
    (∀ k ∈ s.area x y w h, k ∈ (fbMarkDirty s x y w h).dirtyCells) ∧
      ∀ k ∈ s.dirtyCells, k ∈ (fbMarkDirty s x y w h).dirtyCells := by
  rcases fbMarkDirty_cases s x y w h with ⟨hempty, hsame⟩ | ⟨x1, y1, x2, y2, _, _, hin, heq⟩
  · rw [hsame, hempty]
    exact ⟨fun k hk => absurd hk (by simp), fun _ hk => hk⟩
  · rw [heq]
    by_cases hv : s.dirty.valid = true
    · rw [Dirty.extend_of_valid hv]
      constructor
      · intro k hk
        have := hin k hk
        refine ⟨rfl, ⟨?_, ?_⟩, ?_, ?_⟩ <;> simp only [State.width] at * <;> omega
      · rintro k ⟨_, hx, hy⟩
        refine ⟨rfl, ⟨?_, ?_⟩, ?_, ?_⟩ <;> simp only [State.width] at * <;> omega
    · rw [Dirty.extend_of_not_valid hv]
      exact ⟨fun k hk => ⟨rfl, hin k hk⟩, fun k hk => absurd hk.1 hv⟩

theorem dirtyInside_fbMarkDirty (hs : s.DirtyInside) (x y w h : Int) :
    (fbMarkDirty s x y w h).DirtyInside := by
  rcases fbMarkDirty_cases s x y w h with ⟨_, hsame⟩ | ⟨x1, y1, x2, y2, hx, hy, _, heq⟩
  · rwa [hsame]
  · rw [heq]
    intro _
    by_cases hv : s.dirty.valid = true
    · have hin := hs hv
      rw [Dirty.extend_of_valid hv]
      simp only [State.width, State.height] at *
      omega
    · rw [Dirty.extend_of_not_valid hv]
      exact ⟨hx, hy⟩

/-- The surfaces change at most on `K`, all of `K` is marked, and nothing else changes. -/
structure Touches (K : Set Nat) (s s' : State) : Prop where
  frame : s' = { s with surface := s'.surface, shadow := s'.shadow, dirty := s'.dirty }
  surface : ∀ k, k ∉ K → s'.surface k = s.surface k
  shadow : ∀ k, k ∉ K → s'.shadow k = s.shadow k
  marked : ∀ k ∈ K, k ∈ s'.dirtyCells
  kept : ∀ k ∈ s.dirtyCells, k ∈ s'.dirtyCells
  inside : s.DirtyInside → s'.DirtyInside

namespace Touches

theorem refl (s : State) : Touches ∅ s s :=
  ⟨rfl, fun _ _ => rfl, fun _ _ => rfl, fun _ hk => absurd hk (by simp), fun _ hk => hk, id⟩

theorem mode (h : Touches K s s') : s'.mode = s.mode := (congrArg State.mode h.frame :)

theorem clip (h : Touches K s s') : s'.clip = s.clip := (congrArg State.clip h.frame :)

theorem width (h : Touches K s s') : s'.width = s.width := by
  rw [State.width, h.mode]
  rfl

theorem trans (h : Touches K s s') (h' : Touches K' s' s'') : Touches (K ∪ K') s s'' where
  frame := by
    rw [h'.frame, h.frame]
  surface k hk := by
    rw [h'.surface k fun hk' => hk (.inr hk'), h.surface k fun hk' => hk (.inl hk')]
  shadow k hk := by
    rw [h'.shadow k fun hk' => hk (.inr hk'), h.shadow k fun hk' => hk (.inl hk')]
  marked k hk := hk.elim (fun hk => h'.kept k (h.marked k hk)) (h'.marked k)
  kept k hk := h'.kept k (h.kept k hk)
  inside hs := h'.inside (h.inside hs)

theorem mark {surface : Nat → UInt32} {shadow : Nat → UInt8}
    (hsurface : ∀ k, k ∉ K → surface k = s.surface k)
    (hshadow : ∀ k, k ∉ K → shadow k = s.shadow k) (hK : K ⊆ s.area x y w h) :
    Touches K s (fbMarkDirty { s with surface, shadow } x y w h) := by
  obtain ⟨hmarked, hkept⟩ := mem_dirtyCells_fbMarkDirty { s with surface, shadow } x y w h
  have hinside : s.DirtyInside → (fbMarkDirty { s with surface, shadow } x y w h).DirtyInside :=
    fun hs => dirtyInside_fbMarkDirty (s := { s with surface, shadow }) hs x y w h
  obtain ⟨d, hd⟩ := fbMarkDirty_eq { s with surface, shadow } x y w h
  rw [hd] at hmarked hkept hinside ⊢
  exact ⟨rfl, hsurface, hshadow, fun k hk => hmarked k (hK hk), hkept, hinside⟩

end Touches

structure Fills (K : Set Nat) (rgb : UInt32) (index : UInt8) (s s' : State) : Prop where
  touches : Touches K s s'
  surface : Paints K (fun _ => rgb) s.surface s'.surface
  shadow : Paints K (fun _ => index) s.shadow s'.shadow

theorem Fills.refl (rgb : UInt32) (index : UInt8) (s : State) : Fills ∅ rgb index s s :=
  ⟨.refl s, .refl _ _, .refl _ _⟩

theorem Fills.mark {surface : Nat → UInt32} {shadow : Nat → UInt8} {rgb : UInt32} {index : UInt8}
    (hsurface : Paints K (fun _ => rgb) s.surface surface)
    (hshadow : Paints K (fun _ => index) s.shadow shadow) (hK : K ⊆ s.area x y w h) :
    Fills K rgb index s (fbMarkDirty { s with surface, shadow } x y w h) where
  touches := .mark hsurface.off hshadow.off hK
  surface := by rwa [fbMarkDirty_surface]
  shadow := by rwa [fbMarkDirty_shadow]

theorem fbPutPixelRGB_fills (s : State) (x y : Int) (rgb : UInt32) :
    Fills (s.area x y 1 1) rgb (fbRgbToIndex rgb) s (fbPutPixelRGB s x y rgb) := by
  rw [fbPutPixelRGB]
  split
  · rename_i hoff
    rw [area_off_screen hoff]
    exact .refl rgb _ s
  · rename_i hon
    refine .mark (Paints.congr (.update rfl) fun k => ?_) (Paints.congr (.update rfl) fun k => ?_)
      fun _ hk => hk
    · exact (area_pixel hon).symm
    · exact (area_pixel hon).symm

theorem fbPutPixel_cases (s : State) (x y : Int) (color : UInt8) :
    (s.area x y 1 1 ∩ s.clipped = ∅ ∧ fbPutPixel s x y color = s) ∨
      ¬ (x < 0 ∨ x ≥ s.width ∨ y < 0 ∨ y ≥ s.height) ∧
        (∀ k, k ∈ s.area x y 1 1 ∩ s.clipped ↔ k = (y * s.width + x).toNat) ∧
        fbPutPixel s x y color = fbMarkDirty
          { s with
            surface := update s.surface (y * s.width + x).toNat (paletteRgb color)
            shadow := update s.shadow (y * s.width + x).toNat (color &&& 0x0F) } x y 1 1 := by
  rw [fbPutPixel]
  split
  · rename_i hoff
    exact .inl ⟨by rw [area_off_screen hoff, Set.empty_inter], rfl⟩
  rename_i hon
  obtain ⟨hcol, hrow⟩ := cell_eq (s := s) (x := x) (y := y) (by omega) (by omega) (by omega)
  split
  · rename_i hclip
    refine .inl ⟨Set.eq_empty_of_forall_notMem ?_, rfl⟩
    rintro k ⟨hk, hin⟩
    obtain rfl := (area_pixel hon).mp hk
    have := hin hclip.1
    rw [hcol, hrow] at this
    omega
  · rename_i hclip
    refine .inr ⟨hon, fun k => ?_, rfl⟩
    rw [Set.mem_inter_iff, area_pixel hon]
    constructor
    · exact fun hk => hk.1
    · rintro rfl
      refine ⟨rfl, fun he => ?_⟩
      rw [hcol, hrow]
      by_contra hout
      exact hclip ⟨he, by omega⟩

theorem fbPutPixel_fills (s : State) (x y : Int) (color : UInt8) :
    Fills (s.area x y 1 1 ∩ s.clipped) (paletteRgb color) (color &&& 0x0F) s
      (fbPutPixel s x y color) := by
  obtain ⟨hempty, hsame⟩ | ⟨_, hiff, heq⟩ := fbPutPixel_cases s x y color
  · rw [hempty, hsame]
    exact .refl _ _ s
  · rw [heq]
    exact .mark (Paints.congr (.update rfl) fun k => (hiff k).symm)
      (Paints.congr (.update rfl) fun k => (hiff k).symm) Set.inter_subset_left

theorem mem_clipSpan {enabled : Bool} {lo hi size p : Int} {span : Span} :
    p ∈ clipSpan enabled lo hi size span ↔
      (p ∈ span ∧ (enabled = true → lo ≤ p ∧ p < hi)) ∧ 0 ≤ p ∧ p < size := by
  rw [clipSpan, Span.mem_clipHigh, Span.mem_clipLow, and_assoc]
  cases enabled with
  | false => simp
  | true => simp [and_assoc]

theorem clipSpan_inside (enabled : Bool) (lo hi size : Int) (span : Span) :
    let cut := clipSpan enabled lo hi size span
    0 ≤ cut.start ∧ cut.start + cut.len ≤ size := by
  refine ⟨?_, Span.end_clipHigh _ size⟩
  rw [clipSpan, Span.start_clipHigh]
  exact Span.start_clipLow _ 0

theorem box_clipped (s : State) (x y w h : Int) :
    box s.width (clipColumns s x w) (clipRows s y h) = s.area x y w h ∩ s.clipped := by
  ext k
  rw [mem_box, clipColumns, clipRows, mem_clipSpan, mem_clipSpan, Set.mem_inter_iff, mem_area]
  constructor
  · rintro ⟨⟨⟨hx, hcx⟩, _⟩, ⟨hy, hcy⟩, _, hrow⟩
    exact ⟨⟨⟨hx, hy⟩, Int.ofNat_lt.mp hrow⟩, fun he => ⟨hcx he, hcy he⟩⟩
  · rintro ⟨⟨⟨hx, hy⟩, hrow⟩, hc⟩
    exact ⟨⟨⟨hx, fun he => (hc he).1⟩, Int.natCast_nonneg _, Int.ofNat_lt.mpr (col_lt s k)⟩,
      ⟨hy, fun he => (hc he).2⟩, Int.natCast_nonneg _, Int.ofNat_lt.mpr hrow⟩

theorem fillCut_fills {xs ys : Span} (hx : 0 ≤ xs.start ∧ xs.start + xs.len ≤ s.width)
    (hy : 0 ≤ ys.start ∧ ys.start + ys.len ≤ s.height) (rgb : UInt32) (index : UInt8) :
    Fills (box s.width xs ys) rgb index s (fillCut s xs ys rgb index) := by
  rw [fillCut]
  split
  · rename_i hnone
    have hempty : box s.width xs ys = ∅ := by
      refine Set.eq_empty_of_forall_notMem fun k hk => ?_
      rcases hnone with hnone | hnone
      · exact Span.not_mem_of_len hnone _ hk.1
      · exact Span.not_mem_of_len hnone _ hk.2
    rw [hempty]
    exact .refl rgb index s
  · rename_i hsome
    have hbox : box s.width ⟨xs.start.toNat, xs.len.toNat⟩ ⟨ys.start.toNat, ys.len.toNat⟩ =
        box s.width xs ys := by
      rw [Int.toNat_of_nonneg hx.1, Int.toNat_of_nonneg hy.1, Int.toNat_of_nonneg (by omega),
        Int.toNat_of_nonneg (by omega)]
    have hpaint : ∀ {β : Type} (a : Nat → β) (b : β),
        Paints (box s.width xs ys) (fun _ => b) a
          (setRows a (fun row => (ys.start.toNat + row) * s.width + xs.start.toNat)
            xs.len.toNat ys.len.toNat fun _ _ => b) := by
      intro β a b
      rw [← hbox]
      exact setRows_paints (by omega) fun _ _ _ _ => rfl
    have hcover : box s.width xs ys ⊆ s.area xs.start ys.start xs.len ys.len := by
      intro k hk
      have hrow := hk.2
      rw [Span.mem_def] at hrow
      exact ⟨hk, Int.ofNat_lt.mp (by omega)⟩
    exact .mark (hpaint s.surface rgb) (hpaint s.shadow index) hcover

theorem fillWith_fills (s : State) (x y w h : Int) (rgb : UInt32) (index : UInt8) :
    Fills (s.area x y w h ∩ s.clipped) rgb index s (fillWith s x y w h rgb index) := by
  rw [← box_clipped]
  exact fillCut_fills (clipSpan_inside ..) (clipSpan_inside ..) rgb index

theorem fbClearScreen_fills (s : State) (color : UInt8) :
    Fills s.screen (vgaToRgb888.getD (color &&& 0x0F).toNat 0) (color &&& 0x0F) s
      (fbClearScreen s color) := by
  have hscreen : ∀ k, (∃ i < s.width * s.height, k ∈ ({i} : Set Nat)) ↔ k ∈ s.screen := by
    intro k
    rw [mem_screen, Nat.div_lt_iff_lt_mul s.width_pos, Nat.mul_comm s.height]
    constructor
    · rintro ⟨i, hi, rfl⟩
      exact hi
    · exact fun hk => ⟨k, hk, rfl⟩
  have hcover : s.screen ⊆ s.area 0 0 s.width s.height := by
    intro k hk
    have hcol := col_lt s k
    rw [mem_screen] at hk
    rw [mem_area, Span.mem_mk, Span.mem_mk, Int.zero_add, Int.zero_add]
    exact ⟨⟨⟨Int.natCast_nonneg _, Int.ofNat_lt.mpr hcol⟩,
      Int.natCast_nonneg _, Int.ofNat_lt.mpr hk⟩, hk⟩
  rw [fbClearScreen]
  refine .mark ?_ ?_ hcover
  · exact (Paints.fold id (fun _ _ _ => .update rfl) s.surface).congr hscreen
  · exact (Paints.fold id (fun _ _ _ => .update rfl) s.shadow).congr hscreen

/-- The source pixel that goes to cell `k`. -/
def blitWord (s : State) (x y : Int) (src : Nat → UInt32) (srcStride : Int) (k : Nat) : UInt32 :=
  src (((k / s.width : Nat) - y).toNat * srcStride.toNat + ((k % s.width : Nat) - x).toNat)

theorem fbBlitRGB_nothing {src : Option (Nat → UInt32)} {srcStride : Int}
    (hnone : src = none ∨ w ≤ 0 ∨ h ≤ 0 ∨ srcStride < w) :
    fbBlitRGB s x y w h src srcStride = s := by
  cases src with
  | none => rfl
  | some src =>
    rw [fbBlitRGB]
    exact if_pos (hnone.resolve_left nofun)

theorem blitWord_cell (src : Nat → UInt32) (srcStride : Int) {row col : Nat}
    (hx : 0 ≤ x + col) (hx' : x + col < s.width) (hy : 0 ≤ y + row) :
    blitWord s x y src srcStride ((y + row) * s.width + (x + col)).toNat =
      src (row * srcStride.toNat + col) := by
  obtain ⟨hcol, hrow⟩ := cell_eq hx hx' hy
  rw [blitWord, hcol, hrow, show (y + row - y).toNat = row by omega,
    show (x + col - x).toNat = col by omega]

theorem blit_rows_paints {src : Nat → UInt32} {srcStride : Int}
    (hin : x ≥ 0 ∧ y ≥ 0 ∧ x + w ≤ s.width ∧ y + h ≤ s.height) (hw : ¬ (w ≤ 0 ∨ h ≤ 0)) :
    Paints (s.area x y w h) (blitWord s x y src srcStride) s.surface
      (setRows s.surface (fun row => (y.toNat + row) * s.width + x.toNat) w.toNat h.toNat
        fun row col => src (row * srcStride.toNat + col)) := by
  obtain ⟨a, rfl⟩ := Int.eq_ofNat_of_zero_le hin.1
  obtain ⟨b, rfl⟩ := Int.eq_ofNat_of_zero_le hin.2.1
  have hcell : ∀ row < h.toNat, ∀ col < w.toNat,
      blitWord s a b src srcStride ((b + row) * s.width + a + col) =
        src (row * srcStride.toNat + col) := by
    intro row hrow col hcol
    have hindex : (b + row) * s.width + a + col =
        (((b : Int) + row) * s.width + ((a : Int) + col)).toNat := by
      rw [Nat.add_assoc, ← Int.natCast_add, ← Int.natCast_add, ← Int.natCast_mul,
        ← Int.natCast_add, Int.toNat_natCast]
    rw [hindex]
    exact blitWord_cell src srcStride (by omega) (by omega) (by omega)
  refine (setRows_paints (by omega) hcell).congr fun k => ?_
  rw [mem_area, mem_box, Int.toNat_of_nonneg (by omega), Int.toNat_of_nonneg (by omega)]
  constructor
  · intro hk
    have hrow : _ ∧ ((k / s.width : Nat) : Int) < b + h := Span.mem_def.mp hk.2
    exact ⟨hk, Int.ofNat_lt.mp (by omega)⟩
  · exact fun hk => hk.1

theorem blit_pixels_paints {src : Nat → UInt32} {srcStride : Int} :
    Paints (s.area x y w h) (blitWord s x y src srcStride) s.surface
      (h.toNat.fold (fun row _ surface =>
        if y + row < 0 ∨ y + row ≥ s.height then surface
        else w.toNat.fold (fun col _ surface =>
          if x + col < 0 ∨ x + col ≥ s.width then surface
          else update surface ((y + row) * s.width + (x + col)).toNat
            (src (row * srcStride.toNat + col))) surface) s.surface) := by
  have hpixel : ∀ row : Nat, ¬ (y + row < 0 ∨ y + row ≥ s.height) → ∀ col < w.toNat,
      ∀ surface : Nat → UInt32,
        Paints (s.area (x + col) (y + row) 1 1) (blitWord s x y src srcStride) surface
          (if x + col < 0 ∨ x + col ≥ s.width then surface
            else update surface ((y + row) * s.width + (x + col)).toNat
              (src (row * srcStride.toNat + col))) := by
    intro row hrow col hcol surface
    split
    · rw [area_off_screen (by omega)]
      exact .refl _ _
    · rename_i hcolumn
      have hcell : blitWord s x y src srcStride ((y + row) * s.width + (x + col)).toNat =
          src (row * srcStride.toNat + col) :=
        blitWord_cell src srcStride (by omega) (by omega) (by omega)
      exact (Paints.update hcell).congr fun k => (area_pixel (by omega)).symm
  have hrows : ∀ row < h.toNat, ∀ surface : Nat → UInt32,
      Paints (s.area x (y + row) w 1) (blitWord s x y src srcStride) surface
        (if y + row < 0 ∨ y + row ≥ s.height then surface
          else w.toNat.fold (fun col _ surface =>
            if x + col < 0 ∨ x + col ≥ s.width then surface
            else update surface ((y + row) * s.width + (x + col)).toNat
              (src (row * srcStride.toNat + col))) surface) := by
    intro row hrow surface
    split
    · rename_i hoff
      rw [area_off_screen_row hoff]
      exact .refl _ _
    · rename_i hon
      refine (Paints.fold id (hpixel row hon) surface).congr fun k => ?_
      exact area_columns.symm
  exact (Paints.fold id hrows s.surface).congr fun k => area_rows.symm

theorem fbBlitRGB_paints (s : State) (x y : Int) {w h : Int} (src : Nat → UInt32) {srcStride : Int}
    (hsome : ¬ (w ≤ 0 ∨ h ≤ 0 ∨ srcStride < w)) :
    ∃ surface, Paints (s.area x y w h) (blitWord s x y src srcStride) s.surface surface ∧
      fbBlitRGB s x y w h (some src) srcStride = fbMarkDirty { s with surface } x y w h := by
  rw [fbBlitRGB]
  simp only [hsome, if_false]
  split
  · rename_i hin
    exact ⟨_, blit_rows_paints hin (by omega), rfl⟩
  · exact ⟨_, blit_pixels_paints, rfl⟩

theorem fbBlitRGB_touches (s : State) (x y w h : Int) (src : Option (Nat → UInt32))
    (srcStride : Int) :
    ∃ K, K ⊆ s.area x y w h ∧ Touches K s (fbBlitRGB s x y w h src srcStride) := by
  by_cases hnone : src = none ∨ w ≤ 0 ∨ h ≤ 0 ∨ srcStride < w
  · rw [fbBlitRGB_nothing hnone]
    exact ⟨∅, Set.empty_subset _, .refl s⟩
  · rw [not_or] at hnone
    obtain ⟨src, rfl⟩ := Option.ne_none_iff_exists'.mp hnone.1
    obtain ⟨surface, hpaints, heq⟩ := fbBlitRGB_paints s x y src hnone.2
    rw [heq]
    exact ⟨_, fun _ hk => hk, .mark hpaints.off (fun _ _ => rfl) fun _ hk => hk⟩

/-! ## Functions that stay inside the clip rectangle -/

def Confined (s s' : State) : Prop := ∃ K, K ⊆ s.clipped ∧ Touches K s s'

theorem Touches.clipped (h : Touches K s s') : s'.clipped = s.clipped := by
  rw [State.clipped, State.clipped, h.clip, h.width]

namespace Confined

theorem refl (s : State) : Confined s s := ⟨∅, Set.empty_subset _, .refl s⟩

theorem trans (h : Confined s s') (h' : Confined s' s'') : Confined s s'' := by
  obtain ⟨K, hK, ht⟩ := h
  obtain ⟨K', hK', ht'⟩ := h'
  rw [ht.clipped] at hK'
  exact ⟨K ∪ K', Set.union_subset hK hK', ht.trans ht'⟩

theorem fold {n : Nat} {body : Nat → State → State} (hbody : ∀ i s, Confined s (body i s))
    (s : State) : Confined s (n.fold (fun i _ s => body i s) s) := by
  induction n with
  | zero => exact .refl s
  | succ n ih =>
    rw [Nat.fold_succ]
    exact ih.trans (hbody n _)

end Confined

theorem fbPutPixel_confined (s : State) (x y : Int) (color : UInt8) :
    Confined s (fbPutPixel s x y color) :=
  ⟨_, Set.inter_subset_right, (fbPutPixel_fills s x y color).touches⟩

theorem fillWith_confined (s : State) (x y w h : Int) (rgb : UInt32) (index : UInt8) :
    Confined s (fillWith s x y w h rgb index) :=
  ⟨_, Set.inter_subset_right, (fillWith_fills s x y w h rgb index).touches⟩

theorem fbDrawRect_confined (s : State) (x y w h : Int) (color : UInt8) :
    Confined s (fbDrawRect s x y w h color) := by
  rw [fbDrawRect]
  have htop := fillWith_confined s x y w 1
  have hside := fun s : State => fillWith_confined s x y 1 h
  exact (((htop _ _).trans (fillWith_confined _ _ _ _ _ _ _)).trans (hside _ _ _)).trans
    (fillWith_confined _ _ _ _ _ _ _)

theorem fbDrawChar_confined (s : State) (x y : Int) (c fg bg : UInt8) :
    Confined s (fbDrawChar s x y c fg bg) := by
  rw [fbDrawChar]
  refine Confined.fold (fun row s => ?_) s
  exact Confined.fold (fun col s => fbPutPixel_confined s _ _ _) s

theorem drawStringStep_confined (s : State) (x cx cy : Int) (c fg bg : UInt8) :
    Confined s (drawStringStep s x cx cy c fg bg).1 := by
  rw [drawStringStep]
  split
  · exact .refl s
  · simp only
    split
    · exact fbDrawChar_confined s cx cy c fg bg
    · exact fbDrawChar_confined s cx cy c fg bg

theorem drawStringFrom_confined (x : Int) (fg bg : UInt8) (str : List UInt8) :
    ∀ (s : State) (cx cy : Int), Confined s (drawStringFrom x fg bg str s cx cy) := by
  induction str with
  | nil => exact fun s _ _ => .refl s
  | cons c str ih =>
    intro s cx cy
    have hstep := drawStringStep_confined s x cx cy c fg bg
    simp only [drawStringFrom]
    split
    · exact hstep
    · exact hstep.trans (ih _ _ _)

theorem fbDrawString_confined (s : State) (x y : Int) (str : List UInt8) (fg bg : UInt8) :
    Confined s (fbDrawString s x y str fg bg) :=
  drawStringFrom_confined x fg bg _ s x y

/-! ## Sequences of drawing functions -/

inductive Draw where
  | fbPutPixel (x y : Int) (color : UInt8)
  | fbPutPixelRGB (x y : Int) (rgb : UInt32)
  | fbFillRect (x y w h : Int) (color : UInt8)
  | fbFillRectRGB (x y w h : Int) (rgb : UInt32)
  | fbBlitRGB (x y w h : Int) (src : Option (Nat → UInt32)) (srcStride : Int)
  | fbDrawRect (x y w h : Int) (color : UInt8)
  | fbDrawChar (x y : Int) (c fg bg : UInt8)
  | fbDrawString (x y : Int) (str : List UInt8) (fg bg : UInt8)

def draw (s : State) : Draw → State
  | .fbPutPixel x y color => fbPutPixel s x y color
  | .fbPutPixelRGB x y rgb => fbPutPixelRGB s x y rgb
  | .fbFillRect x y w h color => fbFillRect s x y w h color
  | .fbFillRectRGB x y w h rgb => fbFillRectRGB s x y w h rgb
  | .fbBlitRGB x y w h src srcStride => fbBlitRGB s x y w h src srcStride
  | .fbDrawRect x y w h color => fbDrawRect s x y w h color
  | .fbDrawChar x y c fg bg => fbDrawChar s x y c fg bg
  | .fbDrawString x y str fg bg => fbDrawString s x y str fg bg

theorem Confined.touches (h : Confined s s') : ∃ K, Touches K s s' := by
  obtain ⟨K, _, hK⟩ := h
  exact ⟨K, hK⟩

theorem draw_touches (s : State) (op : Draw) : ∃ K, Touches K s (draw s op) := by
  cases op with
  | fbPutPixel x y color => exact (fbPutPixel_confined s x y color).touches
  | fbPutPixelRGB x y rgb => exact ⟨_, (fbPutPixelRGB_fills s x y rgb).touches⟩
  | fbFillRect x y w h color => exact (fillWith_confined s x y w h _ _).touches
  | fbFillRectRGB x y w h rgb => exact (fillWith_confined s x y w h _ _).touches
  | fbBlitRGB x y w h src srcStride =>
    obtain ⟨K, _, hK⟩ := fbBlitRGB_touches s x y w h src srcStride
    exact ⟨K, hK⟩
  | fbDrawRect x y w h color => exact (fbDrawRect_confined s x y w h color).touches
  | fbDrawChar x y c fg bg => exact (fbDrawChar_confined s x y c fg bg).touches
  | fbDrawString x y str fg bg => exact (fbDrawString_confined s x y str fg bg).touches

end DiscouNT.Fb
