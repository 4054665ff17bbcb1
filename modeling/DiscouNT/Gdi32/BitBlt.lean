import DiscouNT.Gdi32.Dc
import DiscouNT.Lib.Transfer

/-!
# Gdi32.BitBlt

`BitBlt` reads and writes pixel by pixel, row by row from the top and each row from the left. On
bitmaps it is a list of transfers (`bitBlt_eq`), so a copy within one bitmap goes wrong where a
pixel is read after it has been written.
-/

namespace DiscouNT.Gdi32

open Lib List Function Option

def srcCopy : UInt32 := 0x00CC0020
def srcPaint : UInt32 := 0x00EE0086

structure Blit where
  dst : GdiDc
  xDest : Int
  yDest : Int
  w : Int
  h : Int
  src : GdiDc
  xSrc : Int
  ySrc : Int

def bitBltPixel (b : Blit) (rop : UInt32) (w : World) (x y : Int) : World :=
  let srcPixel := gdiGetPixel w b.src (b.xSrc + x) (b.ySrc + y)
  let dstPixel := if b.dst.isScreen then 0 else gdiGetPixel w b.dst (b.xDest + x) (b.yDest + y)
  let out := if rop = srcPaint then srcPixel ||| dstPixel else srcPixel
  gdiPutPixel w b.dst (b.xDest + x) (b.yDest + y) out

def bitBlt (b : Blit) (rop : UInt32) (w : World) : World :=
  (List.range b.h.toNat).foldl (fun w (y : Nat) =>
    (List.range b.w.toNat).foldl (fun w (x : Nat) => bitBltPixel b rop w x y) w) w

/-- A pixel: the handle of its bitmap and its index. -/
abbrev Spot := Nat × Nat

def World.pixel (w : World) (p : Spot) : UInt32 :=
  match w.objects p.1 with
  | some (.bitmap bmp) => bmp.pixels p.2
  | _ => 0

def World.withPixels (w : World) (m : Spot → UInt32) : World :=
  { w with
    objects := fun h =>
      match w.objects h with
      | some (.bitmap bmp) => some (.bitmap { bmp with pixels := fun i => m (h, i) })
      | o => o }

def spotAt (w : World) (dc : GdiDc) (x y : Int) : Option Spot :=
  match dc.selectedBitmap, gdiGetBitmap w dc.selectedBitmap with
  | some h, some bmp => if bmp.Holds x y then some (h, bmp.index x y) else none
  | _, _ => none

def written (w : World) (dc : GdiDc) (x y : Int) : Option Spot :=
  if dc.isScreen = false ∧ dc.clip.Holds x y then spotAt w dc x y else none

/-- What `gdi_get_pixel` reads; it reads 0 outside of the bitmap, and anywhere on a screen. -/
def readFrom (w : World) (dc : GdiDc) (x y : Int) : Spot ⊕ UInt32 :=
  if dc.isScreen then .inr 0
  else
    match spotAt w dc x y with
    | some p => .inl p
    | none => .inr 0

/-- The colour at `x`, `y` of a context, the one on the screen if it is a screen. -/
def colorAt (w : World) (dc : GdiDc) (x y : Int) : UInt32 :=
  if dc.isScreen then
    let o := if dc.hasCustomOrigin then (dc.originX, dc.originY) else gdiGetScreenOrigin w dc.hwnd
    swapRedBlue (Fb.fbGetPixelRGB w.fb (o.1 + x) (o.2 + y))
  else gdiGetPixel w dc x y

namespace Blit

def Covers (b : Blit) (c : Int × Int) : Prop := (0 ≤ c.1 ∧ c.1 < b.w) ∧ 0 ≤ c.2 ∧ c.2 < b.h

def dest (b : Blit) (w : World) (c : Int × Int) : Option Spot :=
  written w b.dst (b.xDest + c.1) (b.yDest + c.2)

def source (b : Blit) (w : World) (c : Int × Int) : Spot ⊕ UInt32 :=
  readFrom w b.src (b.xSrc + c.1) (b.ySrc + c.2)

def sourceColor (b : Blit) (w : World) (c : Int × Int) : UInt32 :=
  colorAt w b.src (b.xSrc + c.1) (b.ySrc + c.2)

end Blit

structure Copied (b : Blit) (w w' : World) : Prop where
  copied : ∀ c, b.Covers c → ∀ p, b.dest w c = some p → w'.pixel p = b.sourceColor w c
  others : ∀ p, (∀ c, b.Covers c → b.dest w c ≠ some p) → w'.pixel p = w.pixel p
  objects : (w'.withPixels w.pixel).objects = w.objects
  fb : b.dst.isScreen = false → w'.fb = w.fb

def Earlier (a c : Int × Int) : Prop := a.2 < c.2 ∨ a.2 = c.2 ∧ a.1 < c.1

/-- A pixel that is written before it is read has the colour it is given already, and a screen that
is read is black. -/
structure Quiet (b : Blit) (w : World) : Prop where
  again : ∀ a c, b.Covers a → b.Covers c → Earlier a c → ∀ p, b.dest w a = some p →
    (b.dest w c).isSome → b.source w c = .inl p → w.pixel p = b.sourceColor w a
  black : b.src.isScreen = true → ∀ c, b.Covers c → (b.dest w c).isSome → b.sourceColor w c = 0

variable {w : World} {p : Spot}

theorem pixel_withPixels {m : Spot → UInt32}
    (h : gdiGetBitmap w (some p.1) ≠ none) : (w.withPixels m).pixel p = m p := by
  rw [gdiGetBitmap, World.object, bind_some] at h
  rw [World.pixel, World.withPixels]
  cases hobject : w.objects p.1 with
  | none =>
    rw [hobject] at h
    exact absurd rfl h
  | some o =>
    rw [hobject] at h
    cases o with
    | bitmap bmp => simp only [hobject]
    | _ => exact absurd rfl h

theorem withPixels_pixel (w : World) : w.withPixels w.pixel = w := by
  have hobjects : (w.withPixels w.pixel).objects = w.objects := by
    funext h
    simp only [World.withPixels, World.pixel]
    split
    · next heq =>
      rw [heq]
    · rfl
  exact congrArg (fun o => { w with objects := o }) hobjects

theorem gdiGetBitmap_withPixels (w : World) (m : Spot → UInt32) (h : Nat) :
    gdiGetBitmap (w.withPixels m) (some h) =
      (gdiGetBitmap w (some h)).map fun bmp => { bmp with pixels := fun i => m (h, i) } := by
  simp only [gdiGetBitmap, World.object, bind_some, World.withPixels]
  cases w.objects h with
  | none => rfl
  | some o => cases o <;> rfl

theorem setBitmap_withPixels {h : Nat} {bmp : GdiBitmap}
    (hbmp : gdiGetBitmap w (some h) = some bmp) (m : Spot → UInt32) (i : Nat) (color : UInt32) :
    (w.withPixels m).setBitmap h
        { bmp with pixels := update (fun i => m (h, i)) i color } =
      w.withPixels (update m (h, i) color) := by
  have hobject : w.objects h = some (.bitmap bmp) := by
    rw [gdiGetBitmap, World.object, bind_some] at hbmp
    split at hbmp
    · next heq =>
      cases hbmp
      exact heq
    · cases hbmp
  simp only [World.setBitmap, World.withPixels, World.mk.injEq, and_true]
  funext h'
  by_cases hh : h' = h
  · rw [hh, update_self, hobject]
    have hpixels : update (fun i => m (h, i)) i color =
        fun j => update m (h, i) color (h, j) := by
      funext j
      simp only [update_apply, Prod.mk.injEq, true_and]
    rw [hpixels]
  · rw [update_of_ne hh]
    have hpixels : ∀ j, update m (h, i) color (h', j) = m (h', j) := fun j =>
      update_of_ne (fun heq => hh (congrArg Prod.fst heq)) _ _
    simp only [hpixels]

variable {y x : Int} {dc : GdiDc}

theorem spotAt_eq_some
    (h : spotAt w dc x y = some p) : ∃ bmp, dc.selectedBitmap = some p.1 ∧
      gdiGetBitmap w (some p.1) = some bmp ∧ bmp.Holds x y ∧ p.2 = bmp.index x y := by
  rw [spotAt] at h
  split at h
  · next hnd bmp hsel hbmp =>
    rw [hsel] at hbmp
    split at h
    · next hholds =>
      cases h
      exact ⟨bmp, hsel, hbmp, hholds, rfl⟩
    · cases h
  · cases h

theorem gdiGetPixel_withPixels (w : World) (m : Spot → UInt32) (dc : GdiDc) (x y : Int) :
    gdiGetPixel (w.withPixels m) dc x y = Transfer.value m (readFrom w dc x y) := by
  rw [gdiGetPixel, readFrom, spotAt]
  split
  · rfl
  · cases dc.selectedBitmap with
    | none => rfl
    | some h =>
      rw [gdiGetBitmap_withPixels]
      cases gdiGetBitmap w (some h) with
      | none => rfl
      | some bmp =>
        by_cases hholds : bmp.Holds x y
        · simp only [map_some, if_pos hholds]
          exact if_neg (not_not_intro hholds)
        · simp only [map_some, if_neg hholds]
          exact if_pos hholds

theorem gdiPutPixel_withPixels (hmemory : dc.isScreen = false) (w : World)
    (m : Spot → UInt32) (x y : Int) (color : UInt32) :
    gdiPutPixel (w.withPixels m) dc x y color = w.withPixels
      (match written w dc x y with
        | some p => update m p color
        | none => m) := by
  rw [gdiPutPixel, written, hmemory]
  by_cases hclip : dc.clip.Holds x y
  · rw [if_neg (not_not_intro hclip), if_neg Bool.false_ne_true, if_pos ⟨rfl, hclip⟩, spotAt]
    cases dc.selectedBitmap with
    | none => rfl
    | some h =>
      rw [gdiGetBitmap_withPixels]
      cases hbmp : gdiGetBitmap w (some h) with
      | none => rfl
      | some bmp =>
        by_cases hholds : bmp.Holds x y
        · simp only [map_some, if_pos hholds]
          refine (if_neg (not_not_intro hholds)).trans ?_
          exact setBitmap_withPixels hbmp m _ color
        · simp only [map_some, if_neg hholds]
          exact if_pos hholds
  · rw [if_pos hclip, if_neg fun h => hclip h.2]

namespace Blit

def cells (b : Blit) : List (Int × Int) :=
  (List.range b.h.toNat).flatMap fun (y : Nat) => (List.range b.w.toNat).map fun (x : Nat) => (x, y)

def transfer (b : Blit) (w : World) (c : Int × Int) : Option (Transfer Spot UInt32) :=
  (b.dest w c).map fun p => ⟨p, b.source w c⟩

def transfers (b : Blit) (w : World) : List (Transfer Spot UInt32) := b.cells.filterMap (b.transfer w)

theorem mem_cells {b : Blit} {c : Int × Int} : c ∈ b.cells ↔ b.Covers c := by
  rw [cells, mem_flatMap, Covers]
  constructor
  · rintro ⟨y, hy, hc⟩
    obtain ⟨x, hx, rfl⟩ := mem_map.mp hc
    rw [mem_range] at hx hy
    dsimp only
    omega
  · obtain ⟨x, y⟩ := c
    dsimp only
    intro hc
    refine ⟨y.toNat, mem_range.mpr (by omega), mem_map.mpr ⟨x.toNat, mem_range.mpr (by omega), ?_⟩⟩
    rw [Int.toNat_of_nonneg hc.1.1, Int.toNat_of_nonneg hc.2.1]

theorem cells_sorted (b : Blit) : b.cells.Pairwise Earlier := by
  rw [cells, pairwise_flatMap]
  constructor
  · intro y _
    refine pairwise_map.mpr (pairwise_lt_range.imp fun hlt => ?_)
    exact .inr ⟨rfl, Int.ofNat_lt.mpr hlt⟩
  · refine pairwise_lt_range.imp fun hlt a ha c hc => ?_
    obtain ⟨_, -, rfl⟩ := mem_map.mp ha
    obtain ⟨_, -, rfl⟩ := mem_map.mp hc
    exact .inl (Int.ofNat_lt.mpr hlt)

theorem mem_transfers {b : Blit} {t : Transfer Spot UInt32} :
    t ∈ b.transfers w ↔ ∃ c, b.Covers c ∧ b.dest w c = some t.target ∧ t.source = b.source w c := by
  rw [transfers, mem_filterMap]
  constructor
  · rintro ⟨c, hc, ht⟩
    rw [transfer, map_eq_some_iff] at ht
    obtain ⟨p, hp, rfl⟩ := ht
    exact ⟨c, mem_cells.mp hc, hp, rfl⟩
  · rintro ⟨c, hc, hp, hsource⟩
    refine ⟨c, mem_cells.mpr hc, ?_⟩
    rw [transfer, hp, map_some, ← hsource]

end Blit

theorem Earlier.asymm (a c : Int × Int) (h : Earlier a c) : ¬ Earlier c a := by
  rw [Earlier] at h ⊢
  omega

theorem GdiBitmap.index_inj {bmp : GdiBitmap} {x' y' : Int} (h : bmp.Holds x y)
    (h' : bmp.Holds x' y') (heq : bmp.index x y = bmp.index x' y') : x = x' ∧ y = y' := by
  rw [GdiBitmap.Holds] at h h'
  have hrow : ∀ {x y : Int}, ¬ (x < 0 ∨ y < 0 ∨ x ≥ bmp.width ∨ y ≥ bmp.height) →
      0 ≤ y * bmp.width + x := fun hin =>
    Int.add_nonneg (Int.mul_nonneg (by omega) (by omega)) (by omega)
  have hsum : x + bmp.width * y = x' + bmp.width * y' := by
    have hnat := congrArg (Int.ofNat) heq
    simp only [GdiBitmap.index, Int.ofNat_eq_natCast, Int.toNat_of_nonneg (hrow h),
      Int.toNat_of_nonneg (hrow h')] at hnat
    rw [Int.mul_comm bmp.width, Int.mul_comm bmp.width]
    omega
  have hx := congrArg (· % bmp.width) hsum
  simp only [Int.add_mul_emod_self_left] at hx
  rw [Int.emod_eq_of_lt (by omega) (by omega), Int.emod_eq_of_lt (by omega) (by omega)] at hx
  refine ⟨hx, ?_⟩
  rw [hx] at hsum
  exact Int.eq_of_mul_eq_mul_left (a := bmp.width) (by omega) (by omega)

theorem written_inj {x' y' : Int}
    (h : written w dc x y = some p) (h' : written w dc x' y' = some p) : x = x' ∧ y = y' := by
  rw [written] at h h'
  split at h
  · split at h'
    · obtain ⟨bmp, -, hbmp, hholds, hindex⟩ := spotAt_eq_some h
      obtain ⟨bmp', -, hbmp', hholds', hindex'⟩ := spotAt_eq_some h'
      obtain rfl := some.inj (hbmp.symm.trans hbmp')
      exact GdiBitmap.index_inj hholds hholds' (hindex.symm.trans hindex')
    · cases h'
  · cases h

theorem Blit.dest_inj {b : Blit} {a c : Int × Int}
    (ha : b.dest w a = some p) (hc : b.dest w c = some p) : a = c := by
  obtain ⟨hx, hy⟩ := written_inj ha hc
  exact Prod.ext (by omega) (by omega)

theorem Blit.transfers_nodup (b : Blit) (w : World) :
    ((b.transfers w).map Transfer.target).Nodup := by
  rw [List.Nodup, pairwise_map, Blit.transfers, pairwise_filterMap]
  refine b.cells_sorted.imp fun {a c} hlt t ht u hu heq => ?_
  rw [Blit.transfer, map_eq_some_iff] at ht hu
  obtain ⟨p, hp, rfl⟩ := ht
  obtain ⟨q, hq, rfl⟩ := hu
  cases heq
  obtain rfl := Blit.dest_inj hp hq
  exact Earlier.asymm _ _ hlt hlt

/-! ## The whole call -/

theorem bitBlt_eq_foldl (b : Blit) (rop : UInt32) (w : World) :
    bitBlt b rop w = b.cells.foldl (fun w c => bitBltPixel b rop w c.1 c.2) w := by
  simp only [Blit.cells, foldl_flatMap, foldl_map, bitBlt]

theorem bitBltPixel_withPixels {b : Blit} (hmemory : b.dst.isScreen = false) (w : World)
    (m : Spot → UInt32) (c : Int × Int) :
    bitBltPixel b srcCopy (w.withPixels m) c.1 c.2 = w.withPixels
      (match b.transfer w c with
        | some t => Transfer.step m t
        | none => m) := by
  have hrop : srcCopy ≠ srcPaint := by decide
  rw [bitBltPixel, if_neg hrop, gdiPutPixel_withPixels hmemory, gdiGetPixel_withPixels, Blit.transfer, Blit.dest]
  cases written w b.dst (b.xDest + c.1) (b.yDest + c.2) <;> rfl

theorem bitBlt_eq {b : Blit} (hmemory : b.dst.isScreen = false) (w : World) :
    bitBlt b srcCopy w = w.withPixels (Transfer.run w.pixel (b.transfers w)) := by
  have hstart := congrArg (bitBlt b srcCopy) (withPixels_pixel w)
  rw [← hstart, bitBlt_eq_foldl, Transfer.run, Blit.transfers, foldl_filterMap]
  refine foldl_hom _ fun m c => (bitBltPixel_withPixels hmemory w m c).trans ?_
  cases b.transfer w c <;> rfl

theorem bitBlt_objects {b : Blit} (hscreen : b.dst.isScreen = true) (rop : UInt32) (w : World) :
    (bitBlt b rop w).objects = w.objects := by
  rw [bitBlt_eq_foldl]
  refine List.foldlRecOn b.cells _ (motive := fun w' : World => w'.objects = w.objects) rfl ?_
  intro w' hw' c _
  rw [← hw', bitBltPixel, gdiPutPixel, hscreen]
  split
  · rfl
  · rfl

theorem Blit.dest_of_screen {b : Blit} (hscreen : b.dst.isScreen = true) (w : World)
    (c : Int × Int) : b.dest w c = none := by
  rw [Blit.dest, written, hscreen]
  exact if_neg fun h => Bool.false_ne_true h.1.symm

theorem Blit.value_source (b : Blit) (w : World) (c : Int × Int) :
    Transfer.value w.pixel (b.source w c) = if b.src.isScreen then 0 else b.sourceColor w c := by
  rw [Blit.source, Blit.sourceColor, colorAt]
  split
  · next hscreen =>
    rw [readFrom, if_pos hscreen]
    rfl
  · rw [← gdiGetPixel_withPixels, withPixels_pixel]

theorem spotAt_bitmap
    (h : written w dc x y = some p) : gdiGetBitmap w (some p.1) ≠ none := by
  rw [written] at h
  split at h
  · obtain ⟨bmp, -, hbmp, -⟩ := spotAt_eq_some h
    rw [hbmp]
    exact some_ne_none bmp
  · cases h

theorem withPixels_withPixels (w : World) (m m' : Spot → UInt32) :
    (w.withPixels m).withPixels m' = w.withPixels m' := by
  simp only [World.withPixels, World.mk.injEq, and_true]
  funext h
  cases w.objects h with
  | none => rfl
  | some o => cases o <;> rfl

theorem pixel_withPixels_congr {m : Spot → UInt32} (h : m p = w.pixel p) :
    (w.withPixels m).pixel p = w.pixel p := by
  by_cases hbmp : gdiGetBitmap w (some p.1) = none
  · rw [World.pixel, World.pixel, World.withPixels]
    rw [gdiGetBitmap, World.object, bind_some] at hbmp
    dsimp only
    split at hbmp
    · cases hbmp
    · next hother =>
      cases hobject : w.objects p.1 with
      | none => rfl
      | some o =>
        cases o with
        | bitmap bmp => exact absurd hobject (hother bmp)
        | _ => rfl
  · rw [pixel_withPixels hbmp, h]

theorem copied_iff {b : Blit} (hmemory : b.dst.isScreen = false) (w : World) :
    Copied b w (bitBlt b srcCopy w) ↔ ∀ c, b.Covers c → ∀ p, b.dest w c = some p →
      Transfer.run w.pixel (b.transfers w) p = b.sourceColor w c := by
  rw [bitBlt_eq hmemory]
  constructor
  · intro h c hc p hp
    rw [← h.copied c hc p hp, pixel_withPixels (spotAt_bitmap hp)]
  · intro h
    refine ⟨fun c hc p hp => ?_, fun p hp => ?_, ?_, fun _ => rfl⟩
    · rw [pixel_withPixels (spotAt_bitmap hp), h c hc p hp]
    · refine pixel_withPixels_congr (Transfer.run_of_not_target fun t ht heq => ?_)
      obtain ⟨c, hc, htarget, -⟩ := Blit.mem_transfers.mp ht
      exact hp c hc (htarget.trans (congrArg some heq))
    · rw [withPixels_withPixels, withPixels_pixel]

theorem pairwise_transfers_iff (b : Blit) (w : World) :
    ((b.transfers w).Pairwise fun u t =>
        t.source = .inl u.target → w.pixel u.target = Transfer.value w.pixel u.source) ↔
      ∀ a c, b.Covers a → b.Covers c → Earlier a c → ∀ p, b.dest w a = some p →
        (b.dest w c).isSome → b.source w c = .inl p →
          w.pixel p = Transfer.value w.pixel (b.source w a) := by
  rw [Blit.transfers, pairwise_filterMap,
    Transfer.pairwise_iff_of_sorted b.cells_sorted Earlier.asymm]
  simp only [Blit.mem_cells, Blit.transfer, map_eq_some_iff]
  constructor
  · intro h a c ha hc hlt p hp hsome hsource
    obtain ⟨q, hq⟩ := isSome_iff_exists.mp hsome
    exact h a ha c hc hlt _ ⟨p, hp, rfl⟩ _ ⟨q, hq, rfl⟩ hsource
  · rintro h a ha c hc hlt _ ⟨p, hp, rfl⟩ _ ⟨q, hq, rfl⟩ hsource
    exact h a c ha hc hlt p hp (isSome_iff_exists.mpr ⟨q, hq⟩) hsource

theorem run_transfers_iff (b : Blit) (w : World) :
    (∀ c, b.Covers c → ∀ p, b.dest w c = some p →
        Transfer.run w.pixel (b.transfers w) p = Transfer.value w.pixel (b.source w c)) ↔
      ∀ a c, b.Covers a → b.Covers c → Earlier a c → ∀ p, b.dest w a = some p →
        (b.dest w c).isSome → b.source w c = .inl p →
          w.pixel p = Transfer.value w.pixel (b.source w a) := by
  rw [← pairwise_transfers_iff, ← Transfer.run_copies_iff (b.transfers_nodup w)]
  constructor
  · intro h t ht
    obtain ⟨c, hc, htarget, hsource⟩ := Blit.mem_transfers.mp ht
    rw [hsource]
    exact h c hc _ htarget
  · intro h c hc p hp
    exact h ⟨p, b.source w c⟩ (Blit.mem_transfers.mpr ⟨c, hc, hp, rfl⟩)

theorem Blit.source_of_screen {b : Blit} (hscreen : b.src.isScreen = true) (w : World)
    (c : Int × Int) : b.source w c = .inr 0 := by
  rw [Blit.source, readFrom, if_pos hscreen]

theorem copied_of_screen {b : Blit} (hdst : b.dst.isScreen = true) (w : World) :
    Copied b w (bitBlt b srcCopy w) := by
  have hnone := Blit.dest_of_screen hdst w
  have hobjects := bitBlt_objects hdst srcCopy w
  refine ⟨fun c _ p hp => ?_, fun p _ => ?_, ?_, fun hmemory => ?_⟩
  · rw [hnone] at hp
    cases hp
  · rw [World.pixel, World.pixel, hobjects]
  · rw [← congrArg World.objects (withPixels_pixel w), World.withPixels, hobjects]
    rfl
  · rw [hdst] at hmemory
    cases hmemory

theorem copied_iff_of_bitmaps {b : Blit} (hdst : b.dst.isScreen = false)
    (hsrc : b.src.isScreen = false) (w : World) :
    Copied b w (bitBlt b srcCopy w) ↔ Quiet b w := by
  have hvalue : ∀ c, Transfer.value w.pixel (b.source w c) = b.sourceColor w c := by
    intro c
    rw [Blit.value_source, hsrc]
    rfl
  rw [copied_iff hdst]
  simp only [← hvalue]
  rw [run_transfers_iff]
  constructor
  · intro h
    refine ⟨?_, fun hscreen => ?_⟩
    · simpa only [← hvalue] using h
    · rw [hsrc] at hscreen
      cases hscreen
  · intro h
    simpa only [← hvalue] using h.again

theorem copied_iff_of_screen {b : Blit} (hdst : b.dst.isScreen = false)
    (hsrc : b.src.isScreen = true) (w : World) :
    Copied b w (bitBlt b srcCopy w) ↔ Quiet b w := by
  have hquiet : ∀ {a c : Int × Int} {p : Spot}, b.source w c = .inl p →
      w.pixel p = Transfer.value w.pixel (b.source w a) := by
    intro a c p hsource
    rw [Blit.source_of_screen hsrc] at hsource
    cases hsource
  have hzero : ∀ c, b.Covers c → ∀ p, b.dest w c = some p →
      Transfer.run w.pixel (b.transfers w) p = 0 := by
    intro c hc p hp
    rw [(run_transfers_iff b w).mpr (fun a c _ _ _ p _ _ => hquiet) c hc p hp,
      Blit.source_of_screen hsrc]
    rfl
  rw [copied_iff hdst]
  constructor
  · intro h
    refine ⟨fun a c _ _ _ p _ _ hsource => ?_, fun _ c hc hsome => ?_⟩
    · rw [Blit.source_of_screen hsrc] at hsource
      cases hsource
    · obtain ⟨p, hp⟩ := isSome_iff_exists.mp hsome
      rw [← h c hc p hp, hzero c hc p hp]
  · intro h c hc p hp
    rw [hzero c hc p hp]
    exact (h.black hsrc c hc (isSome_iff_exists.mpr ⟨p, hp⟩)).symm

theorem bitBlt_copies_iff (b : Blit) (w : World) :
    Copied b w (bitBlt b srcCopy w) ↔ Quiet b w := by
  cases hdst : b.dst.isScreen with
  | true =>
    have hnone := Blit.dest_of_screen hdst w
    refine iff_of_true (copied_of_screen hdst w) ⟨fun a c _ _ _ p hp => ?_, fun _ c _ hsome => ?_⟩
    · rw [hnone] at hp
      cases hp
    · rw [hnone] at hsome
      cases hsome
  | false =>
    cases hsrc : b.src.isScreen with
    | true => exact copied_iff_of_screen hdst hsrc w
    | false => exact copied_iff_of_bitmaps hdst hsrc w

def shiftRight : Blit :=
  let dc := { gdiAllocDc with clip := ⟨0, 0, 3, 1⟩, selectedBitmap := some 5 }
  { dst := dc, xDest := 1, yDest := 0, w := 2, h := 1, src := dc, xSrc := 0, ySrc := 0 }

def threePixels : World :=
  { objects := fun h => if h = 5 then some (.bitmap ⟨3, 1, fun i => i.toUInt32⟩) else none
    fb := Fb.modeSet ⟨false, 0, 0, 0, 0⟩ (fun _ => 0) ⟨⟨800, 600, 32⟩, by decide⟩ (fun _ => 0)
    clientOrigin := fun _ => (0, 0) }

/-- The first pixel ends up in all three. -/
theorem bitBlt_smears : ¬ Copied shiftRight threePixels (bitBlt shiftRight srcCopy threePixels) := by
  intro h
  have hlast := h.copied (1, 0) (by unfold Blit.Covers; decide) (5, 2) (by decide)
  exact absurd hlast (by decide +kernel)

end DiscouNT.Gdi32
