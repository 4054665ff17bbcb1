import DiscouNT.Fb.Draw

/-!
# Fb.FillPixels

`FbFillRect` against the plain double loop of `FbPutPixel`. Both paint the part of the rectangle
that is on the screen and inside the clip rectangle, which fixes the two surfaces. The dirty
rectangle is fixed by the same cells: `Grows K d d'` says `d'` is the least rectangle that holds `d`
and the cells of `K`, so marking pixel by pixel and marking once at the end come to the same
(`fbFillRect_eq_fillPixels`).
-/

namespace DiscouNT.Fb

open Lib

variable {s s' s'' : State} {K K' : Set Nat} {x y w h : Int} {n : Nat} {rgb : UInt32}
  {index : UInt8}

/-- `for j in 0..h, for i in 0..w: FbPutPixel(x + i, y + j, color)`. -/
def fillPixels (s : State) (x y w h : Int) (color : UInt8) : State :=
  h.toNat.fold (fun j _ s =>
    w.toNat.fold (fun i _ s => fbPutPixel s (x + i) (y + j) color) s) s

theorem forall_mem_union {P : Nat → Prop} :
    (∀ k ∈ K ∪ K', P k) ↔ (∀ k ∈ K, P k) ∧ ∀ k ∈ K', P k :=
  ⟨fun hall => ⟨fun k hk => hall k (.inl hk), fun k hk => hall k (.inr hk)⟩,
    fun ⟨hK, hK'⟩ k hk => hk.elim (hK k) (hK' k)⟩

/-- `d'` is `d` grown just as far as the cells of `K` require, on a raster `n` wide. A rectangle that
is not valid has no edges to speak of. -/
structure Grows (n : Nat) (K : Set Nat) (d d' : Dirty) : Prop where
  same : K = ∅ → d' = d
  valid : d'.valid = true ↔ d.valid = true ∨ K.Nonempty
  left : ∀ a, (d'.valid = true → a ≤ d'.x1) ↔
    (d.valid = true → a ≤ d.x1) ∧ ∀ k ∈ K, a ≤ ((k % n : Nat) : Int)
  top : ∀ a, (d'.valid = true → a ≤ d'.y1) ↔
    (d.valid = true → a ≤ d.y1) ∧ ∀ k ∈ K, a ≤ ((k / n : Nat) : Int)
  right : ∀ a, (d'.valid = true → d'.x2 ≤ a) ↔
    (d.valid = true → d.x2 ≤ a) ∧ ∀ k ∈ K, ((k % n : Nat) : Int) ≤ a
  bottom : ∀ a, (d'.valid = true → d'.y2 ≤ a) ↔
    (d.valid = true → d.y2 ≤ a) ∧ ∀ k ∈ K, ((k / n : Nat) : Int) ≤ a

namespace Grows

variable {d d' d'' : Dirty}

theorem refl (n : Nat) (d : Dirty) : Grows n ∅ d d := by
  constructor <;> simp

theorem trans (h : Grows n K d d') (h' : Grows n K' d' d'') : Grows n (K ∪ K') d d'' where
  same hnone := by
    obtain ⟨hK, hK'⟩ := Set.union_empty_iff.mp hnone
    rw [h'.same hK', h.same hK]
  valid := by rw [h'.valid, h.valid, Set.union_nonempty, or_assoc]
  left a := by rw [h'.left, h.left, forall_mem_union, and_assoc]
  top a := by rw [h'.top, h.top, forall_mem_union, and_assoc]
  right a := by rw [h'.right, h.right, forall_mem_union, and_assoc]
  bottom a := by rw [h'.bottom, h.bottom, forall_mem_union, and_assoc]

theorem eq (h : Grows n K d d') (h' : Grows n K d d'') : d' = d'' := by
  by_cases hv : d'.valid = true
  · have hv' : d''.valid = true := h'.valid.mpr (h.valid.mp hv)
    have hleft := fun a => (h.left a).trans (h'.left a).symm
    have htop := fun a => (h.top a).trans (h'.top a).symm
    have hright := fun a => (h.right a).trans (h'.right a).symm
    have hbottom := fun a => (h.bottom a).trans (h'.bottom a).symm
    obtain ⟨v', x1', y1', x2', y2'⟩ := d'
    obtain ⟨v'', x1'', y1'', x2'', y2''⟩ := d''
    simp only at hv hv' hleft htop hright hbottom
    simp only [hv, hv', forall_const] at hleft htop hright hbottom ⊢
    have hx1 : x1' = x1'' := le_antisymm ((hleft x1').mp (le_refl _)) ((hleft x1'').mpr (le_refl _))
    have hy1 : y1' = y1'' := le_antisymm ((htop y1').mp (le_refl _)) ((htop y1'').mpr (le_refl _))
    have hx2 : x2' = x2'' :=
      le_antisymm ((hright x2'').mpr (le_refl _)) ((hright x2').mp (le_refl _))
    have hy2 : y2' = y2'' :=
      le_antisymm ((hbottom y2'').mpr (le_refl _)) ((hbottom y2').mp (le_refl _))
    rw [hx1, hy1, hx2, hy2]
  · have hK : K = ∅ := by
      by_contra hne
      exact hv (h.valid.mpr (.inr (Set.nonempty_iff_ne_empty.mpr hne)))
    rw [h.same hK, h'.same hK]

end Grows

theorem box_columns {xs ys : Span} (hx : 0 ≤ xs.start ∧ xs.start + xs.len ≤ n) (hy : 0 ≤ ys.start)
    (hlen : 0 < ys.len) {c : Int} (hc : c ∈ xs) :
    ∃ k ∈ box n xs ys, ((k % n : Nat) : Int) = c := by
  rw [Span.mem_def] at hc
  obtain ⟨col, rfl⟩ := Int.eq_ofNat_of_zero_le (show 0 ≤ c by omega)
  obtain ⟨row, hrow⟩ := Int.eq_ofNat_of_zero_le hy
  have hcol : col < n := by omega
  refine ⟨row * n + col, ⟨?_, ?_⟩, by rw [cell_col hcol]⟩
  · rw [cell_col hcol, Span.mem_def]
    exact hc
  · rw [cell_row hcol, Span.mem_def]
    omega

theorem box_rows {xs ys : Span} (hx : 0 ≤ xs.start ∧ xs.start + xs.len ≤ n) (hy : 0 ≤ ys.start)
    (hlen : 0 < xs.len) {r : Int} (hr : r ∈ ys) :
    ∃ k ∈ box n xs ys, ((k / n : Nat) : Int) = r := by
  rw [Span.mem_def] at hr
  obtain ⟨row, rfl⟩ := Int.eq_ofNat_of_zero_le (show 0 ≤ r by omega)
  obtain ⟨col, hcol⟩ := Int.eq_ofNat_of_zero_le hx.1
  have hlt : col < n := by omega
  refine ⟨row * n + col, ⟨?_, ?_⟩, by rw [cell_row hlt]⟩
  · rw [cell_col hlt, Span.mem_def]
    omega
  · rw [cell_row hlt, Span.mem_def]
    exact hr

theorem box_bounds {xs ys : Span} (hx : 0 ≤ xs.start ∧ xs.start + xs.len ≤ n) (hy : 0 ≤ ys.start)
    (hxs : 0 < xs.len) (hys : 0 < ys.len) (a : Int) :
    ((∀ k ∈ box n xs ys, a ≤ ((k % n : Nat) : Int)) ↔ a ≤ xs.start) ∧
      ((∀ k ∈ box n xs ys, a ≤ ((k / n : Nat) : Int)) ↔ a ≤ ys.start) ∧
      ((∀ k ∈ box n xs ys, ((k % n : Nat) : Int) ≤ a) ↔ xs.start + xs.len - 1 ≤ a) ∧
      ((∀ k ∈ box n xs ys, ((k / n : Nat) : Int) ≤ a) ↔ ys.start + ys.len - 1 ≤ a) := by
  have hin : ∀ k ∈ box n xs ys,
      (xs.start ≤ ((k % n : Nat) : Int) ∧ ((k % n : Nat) : Int) < xs.start + xs.len) ∧
        ys.start ≤ ((k / n : Nat) : Int) ∧ ((k / n : Nat) : Int) < ys.start + ys.len :=
    fun _ hk => hk
  obtain ⟨kl, hkl, hleft⟩ := box_columns hx hy hys (c := xs.start) (by rw [Span.mem_def]; omega)
  obtain ⟨kr, hkr, hright⟩ :=
    box_columns hx hy hys (c := xs.start + xs.len - 1) (by rw [Span.mem_def]; omega)
  obtain ⟨kt, hkt, htop⟩ := box_rows hx hy hxs (r := ys.start) (by rw [Span.mem_def]; omega)
  obtain ⟨kb, hkb, hbottom⟩ :=
    box_rows hx hy hxs (r := ys.start + ys.len - 1) (by rw [Span.mem_def]; omega)
  refine ⟨⟨fun hall => ?_, fun ha k hk => ?_⟩, ⟨fun hall => ?_, fun ha k hk => ?_⟩,
    ⟨fun hall => ?_, fun ha k hk => ?_⟩, ⟨fun hall => ?_, fun ha k hk => ?_⟩⟩
  · exact hleft ▸ hall kl hkl
  · exact ha.trans (hin k hk).1.1
  · exact htop ▸ hall kt hkt
  · exact ha.trans (hin k hk).2.1
  · exact hright ▸ hall kr hkr
  · have := (hin k hk).1.2
    omega
  · exact hbottom ▸ hall kb hkb
  · have := (hin k hk).2.2
    omega

theorem Dirty.extend_grows (d : Dirty) {xs ys : Span}
    (hx : 0 ≤ xs.start ∧ xs.start + xs.len ≤ n) (hy : 0 ≤ ys.start)
    (hxs : 0 < xs.len) (hys : 0 < ys.len) :
    Grows n (box n xs ys) d
      (d.extend xs.start ys.start (xs.start + xs.len - 1) (ys.start + ys.len - 1)) := by
  have hbounds := box_bounds hx hy hxs hys
  obtain ⟨k, hk, _⟩ := box_columns hx hy hys (c := xs.start) (by rw [Span.mem_def]; omega)
  have hne : (box n xs ys).Nonempty := ⟨k, hk⟩
  by_cases hv : d.valid = true
  · rw [Dirty.extend_of_valid hv]
    refine ⟨fun hnone => absurd hnone hne.ne_empty, ?_, fun a => ?_, fun a => ?_, fun a => ?_,
      fun a => ?_⟩
    · exact iff_of_true rfl (.inl hv)
    · rw [(hbounds a).1]
      simp only [hv, forall_const, le_min_iff]
    · rw [(hbounds a).2.1]
      simp only [hv, forall_const, le_min_iff]
    · rw [(hbounds a).2.2.1]
      simp only [hv, forall_const, max_le_iff]
    · rw [(hbounds a).2.2.2]
      simp only [hv, forall_const, max_le_iff]
  · rw [Dirty.extend_of_not_valid hv]
    refine ⟨fun hnone => absurd hnone hne.ne_empty, ?_, fun a => ?_, fun a => ?_, fun a => ?_,
      fun a => ?_⟩
    · exact iff_of_true rfl (.inr hne)
    · rw [(hbounds a).1]
      simp only [hv, forall_const, Bool.false_eq_true, IsEmpty.forall_iff, true_and]
    · rw [(hbounds a).2.1]
      simp only [hv, forall_const, Bool.false_eq_true, IsEmpty.forall_iff, true_and]
    · rw [(hbounds a).2.2.1]
      simp only [hv, forall_const, Bool.false_eq_true, IsEmpty.forall_iff, true_and]
    · rw [(hbounds a).2.2.2]
      simp only [hv, forall_const, Bool.false_eq_true, IsEmpty.forall_iff, true_and]

theorem fbMarkDirty_inside (s : State) (hx : 0 ≤ x ∧ x + w ≤ s.width)
    (hy : 0 ≤ y ∧ y + h ≤ s.height) (hw : 0 < w) (hh : 0 < h) :
    fbMarkDirty s x y w h = { s with dirty := s.dirty.extend x y (x + w - 1) (y + h - 1) } := by
  have hcut : ∀ {a len size : Int}, 0 ≤ a → a + len ≤ size →
      (Span.mk a len).clipLow 0 = ⟨a, len⟩ ∧ (Span.mk a len).clipHigh size = ⟨a, len⟩ := by
    intro a len size hlo hhi
    rw [Span.clipLow, Span.clipHigh, if_neg (by simp only; omega), if_neg (by simp only; omega)]
    exact ⟨rfl, rfl⟩
  obtain ⟨hxl, hxh⟩ := hcut hx.1 hx.2
  obtain ⟨hyl, hyh⟩ := hcut hy.1 hy.2
  simp only [fbMarkDirty, hxl, hyl, hxh, hyh]
  rw [if_neg (by omega), if_neg (by omega)]

/-- A fill that also grows the dirty rectangle by just the cells it paints: all of its effect. -/
structure Exact (K : Set Nat) (rgb : UInt32) (index : UInt8) (s s' : State) : Prop where
  fills : Fills K rgb index s s'
  grows : Grows s.width K s.dirty s'.dirty

namespace Exact

theorem refl (rgb : UInt32) (index : UInt8) (s : State) : Exact ∅ rgb index s s :=
  ⟨.refl rgb index s, .refl _ _⟩

theorem trans (h : Exact K rgb index s s') (h' : Exact K' rgb index s' s'') :
    Exact (K ∪ K') rgb index s s'' where
  fills := ⟨h.fills.touches.trans h'.fills.touches, h.fills.surface.trans h'.fills.surface,
    h.fills.shadow.trans h'.fills.shadow⟩
  grows := h.grows.trans (h.fills.touches.width ▸ h'.grows)

theorem congr (h : Exact K rgb index s s') (hK : ∀ k, k ∈ K ↔ k ∈ K') :
    Exact K' rgb index s s' := by
  have : K = K' := Set.ext hK
  rwa [← this]

theorem fold {body : Nat → State → State} {K : Nat → Set Nat} {count : Nat}
    (hbody : ∀ i < count, ∀ s', s'.mode = s.mode → s'.clip = s.clip →
      Exact (K i) rgb index s' (body i s')) :
    Exact {k | ∃ i < count, k ∈ K i} rgb index s (count.fold (fun i _ s => body i s) s) := by
  induction count with
  | zero =>
    refine (Exact.refl rgb index s).congr fun k => ?_
    simp
  | succ m ih =>
    have hrest := ih fun i hi => hbody i (by omega)
    have hlast := hbody m (by omega) _ hrest.fills.touches.mode hrest.fills.touches.clip
    rw [Nat.fold_succ]
    refine (hrest.trans hlast).congr fun k => ?_
    simp only [Set.mem_union, Set.mem_ofPred_eq, Nat.lt_succ_iff_lt_or_eq]
    constructor
    · rintro (⟨i, hi, hk⟩ | hk)
      · exact ⟨i, .inl hi, hk⟩
      · exact ⟨m, .inr rfl, hk⟩
    · rintro ⟨i, hi | rfl, hk⟩
      · exact .inl ⟨i, hi, hk⟩
      · exact .inr hk

theorem eq (h : Exact K rgb index s s') (h' : Exact K rgb index s s'') : s' = s'' := by
  have hsurface : s'.surface = s''.surface := by
    funext k
    by_cases hk : k ∈ K
    · rw [h.fills.surface.on k hk, h'.fills.surface.on k hk]
    · rw [h.fills.surface.off k hk, h'.fills.surface.off k hk]
  have hshadow : s'.shadow = s''.shadow := by
    funext k
    by_cases hk : k ∈ K
    · rw [h.fills.shadow.on k hk, h'.fills.shadow.on k hk]
    · rw [h.fills.shadow.off k hk, h'.fills.shadow.off k hk]
  rw [h.fills.touches.frame, h'.fills.touches.frame, hsurface, hshadow, h.grows.eq h'.grows]

end Exact

theorem fillCut_grows {xs ys : Span} (hx : 0 ≤ xs.start ∧ xs.start + xs.len ≤ s.width)
    (hy : 0 ≤ ys.start ∧ ys.start + ys.len ≤ s.height) (rgb : UInt32) (index : UInt8) :
    Grows s.width (box s.width xs ys) s.dirty (fillCut s xs ys rgb index).dirty := by
  rw [fillCut]
  split
  · rename_i hnone
    have hempty : box s.width xs ys = ∅ := by
      refine Set.eq_empty_of_forall_notMem fun k hk => ?_
      rcases hnone with hnone | hnone
      · exact Span.not_mem_of_len hnone _ hk.1
      · exact Span.not_mem_of_len hnone _ hk.2
    rw [hempty]
    exact .refl _ _
  · have hmark := fbMarkDirty_inside
      { s with
        surface := setRows s.surface (fun row => (ys.start.toNat + row) * s.width + xs.start.toNat)
          xs.len.toNat ys.len.toNat fun _ _ => rgb
        shadow := setRows s.shadow (fun row => (ys.start.toNat + row) * s.width + xs.start.toNat)
          xs.len.toNat ys.len.toNat fun _ _ => index } hx hy (by omega) (by omega)
    rw [hmark]
    exact Dirty.extend_grows s.dirty hx hy.1 (by omega) (by omega)

theorem fillWith_exact (s : State) (x y w h : Int) (rgb : UInt32) (index : UInt8) :
    Exact (s.area x y w h ∩ s.clipped) rgb index s (fillWith s x y w h rgb index) := by
  refine ⟨fillWith_fills s x y w h rgb index, ?_⟩
  rw [← box_clipped]
  exact fillCut_grows (clipSpan_inside ..) (clipSpan_inside ..) rgb index

theorem fbPutPixel_exact (s : State) (x y : Int) (color : UInt8) :
    Exact (s.area x y 1 1 ∩ s.clipped) (paletteRgb color) (color &&& 0x0F) s
      (fbPutPixel s x y color) := by
  refine ⟨fbPutPixel_fills s x y color, ?_⟩
  obtain ⟨hempty, hsame⟩ | ⟨hon, hiff, heq⟩ := fbPutPixel_cases s x y color
  · rw [hempty, hsame]
    exact .refl _ _
  · have hbox : s.area x y 1 1 ∩ s.clipped = box s.width ⟨x, 1⟩ ⟨y, 1⟩ := by
      ext k
      rw [hiff, ← area_pixel hon, mem_area, mem_box, and_iff_left_iff_imp]
      intro hk
      have hrow := hk.2
      rw [Span.mem_mk] at hrow
      omega
    have hmark := fbMarkDirty_inside
      { s with
        surface := Function.update s.surface (y * s.width + x).toNat (paletteRgb color)
        shadow := Function.update s.shadow (y * s.width + x).toNat (color &&& 0x0F) }
      (x := x) (y := y) (w := 1) (h := 1) (show 0 ≤ x ∧ x + 1 ≤ s.width by omega)
      (show 0 ≤ y ∧ y + 1 ≤ s.height by omega) Int.one_pos Int.one_pos
    have hx : 0 ≤ (Span.mk x 1).start ∧ (Span.mk x 1).start + (Span.mk x 1).len ≤ s.width := by
      simp only
      omega
    have hy : 0 ≤ (Span.mk y 1).start := by
      simp only
      omega
    rw [heq, hmark, hbox]
    exact Dirty.extend_grows s.dirty hx hy Int.one_pos Int.one_pos

/-! ## The loop -/

theorem fillPixels_exact (s : State) (x y w h : Int) (color : UInt8) :
    Exact (s.area x y w h ∩ s.clipped) (paletteRgb color) (color &&& 0x0F) s
      (fillPixels s x y w h color) := by
  have hsame : ∀ {s' : State}, s'.mode = s.mode → s'.clip = s.clip →
      (∀ x y w h, s'.area x y w h = s.area x y w h) ∧ s'.clipped = s.clipped := by
    intro s' hmode hclip
    simp only [State.area, State.screen, State.clipped, State.width, State.height, hmode, hclip,
      implies_true, and_self]
  have hpixel : ∀ (j i : Nat) (s' : State), s'.mode = s.mode → s'.clip = s.clip →
      Exact (s.area (x + i) (y + j) 1 1 ∩ s.clipped) (paletteRgb color) (color &&& 0x0F) s'
        (fbPutPixel s' (x + i) (y + j) color) := by
    intro j i s' hmode hclip
    obtain ⟨harea, hclipped⟩ := hsame hmode hclip
    rw [← harea, ← hclipped]
    exact fbPutPixel_exact s' _ _ color
  have hrow : ∀ (j : Nat) (s' : State), s'.mode = s.mode → s'.clip = s.clip →
      Exact (s.area x (y + j) w 1 ∩ s.clipped) (paletteRgb color) (color &&& 0x0F) s'
        (w.toNat.fold (fun i _ s => fbPutPixel s (x + i) (y + j) color) s') := by
    intro j s' hmode hclip
    refine (Exact.fold fun i _ s'' hm hc =>
      hpixel j i s'' (hm.trans hmode) (hc.trans hclip)).congr fun k => ?_
    rw [Set.mem_inter_iff, area_columns]
    simp only [Set.mem_ofPred_eq, Set.mem_inter_iff, ← exists_and_right, and_assoc]
  refine (Exact.fold fun j _ s' => hrow j s').congr fun k => ?_
  rw [Set.mem_inter_iff, area_rows]
  simp only [Set.mem_ofPred_eq, Set.mem_inter_iff, ← exists_and_right, and_assoc]

end DiscouNT.Fb
