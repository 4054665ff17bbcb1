import DiscouNT.Arch
import DiscouNT.Lib.Picture

/-!
# Gdi32.Bmp

The two decoders of BMP files: that of the wallpaper in `drivers/fb/fb.c` and
`GdiCreateBitmapFromBmp` of `dlls/gdi32/gdi32.c`. Both store the last row of the file first,
whatever the sign of the height, and compute all sizes modulo 2^32.

`int` indices into the buffer are integers: where one overflows, an earlier store was outside the
buffer already.
-/

namespace DiscouNT.Gdi32

open Lib

section Header

variable (data : Mem)

def bmpOffset : Nat := readLE data 10 4
def bmpHeaderSize : Nat := readLE data 14 4
def bmpWidth : Int := (readLE data 18 4 : Int).bmod (2 ^ 32)
def bmpHeight : Int := (readLE data 22 4 : Int).bmod (2 ^ 32)
def bmpBpp : Nat := readLE data 28 2

/-- `row_bytes`; `& ~31u` rounds down to a multiple of 32. -/
def bmpRowBytes : Nat := u32 ((bmpWidth data).toNat * bmpBpp data + 31) / 32 * 32 / 8

def bmpBufferBytes : Nat := 4 * ((bmpWidth data).toNat * (bmpHeight data).natAbs) % 2 ^ 32

/-- Where the decoders find the pixel of column `x` and row `y` of the file. -/
def bmpSource (x y : Nat) : Nat :=
  bmpOffset data + u32 (y * bmpRowBytes data) + x * (bmpBpp data / 8)

end Header

structure Bgr where
  b : UInt8
  g : UInt8
  r : UInt8
deriving DecidableEq, Repr

def Bgr.at (data : Mem) (a : Nat) : Bgr := ⟨data a, data (a + 1), data (a + 2)⟩

/-- `0x00RRGGBB`. The fields of the word are apart, so their `|` is a sum. -/
def Bgr.rgb (c : Bgr) : Nat := c.b.toNat + c.g.toNat * 2 ^ 8 + c.r.toNat * 2 ^ 16

/-- `RGB(r, g, b)`, a `COLORREF`. -/
def Bgr.colorref (c : Bgr) : Nat := c.r.toNat + c.g.toNat * 2 ^ 8 + c.b.toNat * 2 ^ 16

def bmpPixel (colour : Bgr → Nat) (data : Mem) (a : Nat) : Logged PixelAccess Nat := do
  let b ← readByte data a
  let g ← readByte data (a + 1)
  let r ← readByte data (a + 2)
  pure (colour ⟨b, g, r⟩)

/-- The loops over the pixels. For `INT_MIN` the negated height is negative still. -/
def bmpRows (colour : Bgr → Nat) (data : Mem) : Logged PixelAccess (Nat → Option Nat) :=
  let height := (bmpHeight data).natAbs
  fillPixels (fun x y => bmpPixel colour data (bmpSource data x (height - 1 - y)))
    (bmpWidth data).toNat (if bmpHeight data = -2 ^ 31 then 0 else height)

def wallpaperAccepts (data : Mem) (size : Nat) : Bool :=
  54 ≤ size ∧ data 0 = 0x42 ∧ data 1 = 0x4D ∧ 0 < bmpWidth data ∧ bmpHeight data ≠ 0 ∧
    (bmpBpp data = 24 ∨ bmpBpp data = 32) ∧ bmpOffset data < size ∧
    u32 (bmpRowBytes data * (bmpHeight data).natAbs) ≤ size - bmpOffset data

def gdiAccepts (data : Mem) (size : Nat) : Bool :=
  54 ≤ size ∧ data 0 = 0x42 ∧ data 1 = 0x4D ∧ 40 ≤ bmpHeaderSize data ∧ 0 < bmpWidth data ∧
    bmpHeight data ≠ 0 ∧ (bmpBpp data = 24 ∨ bmpBpp data = 32) ∧ bmpOffset data < size ∧
    u32 (bmpRowBytes data * (bmpHeight data).natAbs) ≤ size - bmpOffset data

/-- The wallpaper loader on a file that is no JPEG. `kmalloc` says for which sizes there is
memory. -/
def wallpaperDecode (kmalloc : Nat → Bool) (data : Mem) (size : Nat) :
    Option (Logged PixelAccess (Nat → Option Nat)) :=
  if wallpaperAccepts data size ∧ kmalloc (bmpBufferBytes data) then some (bmpRows Bgr.rgb data)
  else none

/-- `object` says whether there is memory for the `GDIBITMAP`. -/
def gdiCreateBitmapFromBmp (kmalloc : Nat → Bool) (object : Bool) (data : Mem) (size : Nat) :
    Option (Logged PixelAccess (Nat → Option Nat)) :=
  if gdiAccepts data size ∧ object ∧ kmalloc (bmpBufferBytes data) then
    some (bmpRows Bgr.colorref data)
  else none

section Stored

variable (data : Mem)

def bmpPitch : Nat := ((bmpWidth data).toNat * bmpBpp data + 31) / 32 * 4

/-- The row of the file that is row `y` of the picture, counted from the top. -/
def bmpFileRow (y : Nat) : Nat :=
  if 0 < bmpHeight data then (bmpHeight data).natAbs - 1 - y else y

def storedPixel (x y : Nat) : Bgr :=
  .at data (bmpOffset data + bmpFileRow data y * bmpPitch data + x * (bmpBpp data / 8))

def DrawsStored (size : Nat) (colour : Bgr → Nat) (r : Logged PixelAccess (Nat → Option Nat)) :
    Prop :=
  Draws size (bmpBufferBytes data) (bmpWidth data).toNat (bmpHeight data).natAbs
    (fun x y => colour (storedPixel data x y)) r

end Stored

structure BmpLaw (kmalloc : Nat → Bool) (object : Bool) (data : Mem) (size : Nat) : Prop where
  accepts : gdiAccepts data size = true ↔
    wallpaperAccepts data size = true ∧ 40 ≤ bmpHeaderSize data
  wallpaper : ∀ r, wallpaperDecode kmalloc data size = some r → DrawsStored data size Bgr.rgb r
  bitmap : ∀ r, gdiCreateBitmapFromBmp kmalloc object data size = some r →
    DrawsStored data size Bgr.colorref r

def SameUpsideDown (data : Mem) : Prop :=
  ∀ y < (bmpHeight data).natAbs, ∀ x < (bmpWidth data).toNat,
    storedPixel data x ((bmpHeight data).natAbs - 1 - y) = storedPixel data x y

def HoldsPicture (data : Mem) (size : Nat) : Prop :=
  bmpOffset data + ((bmpHeight data).natAbs - 1) * bmpRowBytes data +
      ((bmpWidth data).toNat - 1) * (bmpBpp data / 8) + 3 ≤ size ∧
    ∀ y < (bmpHeight data).natAbs, ∀ x < (bmpWidth data).toNat,
      Bgr.at data (bmpOffset data + ((bmpHeight data).natAbs - 1 - y) * bmpRowBytes data +
        x * (bmpBpp data / 8)) = storedPixel data x y

/-- The buffer's size does not wrap, and the file is stored bottom up or is the same upside down.
Where the size of a row wraps, the picture must stand at the wrong distance as well. -/
def BmpFits (data : Mem) (size : Nat) : Prop :=
  4 * ((bmpWidth data).toNat * (bmpHeight data).natAbs) < 2 ^ 32 ∧
    if (bmpWidth data).toNat * bmpBpp data + 31 < 2 ^ 32 then
      0 < bmpHeight data ∨ SameUpsideDown data
    else HoldsPicture data size

theorem rgb_injective : Function.Injective Bgr.rgb := by
  rintro ⟨b, g, r⟩ ⟨b', g', r'⟩ h
  have hb := b.toNat_lt
  have hb' := b'.toNat_lt
  have hg := g.toNat_lt
  have hg' := g'.toNat_lt
  simp only [Bgr.rgb] at h
  simp only [Bgr.mk.injEq, ← UInt8.toNat_inj]
  omega

variable {data : Mem} {size : Nat} {colour : Bgr → Nat}

theorem bmpRowBytes_le : bmpRowBytes data ≤ bmpPitch data := by
  unfold bmpRowBytes bmpPitch u32
  omega

theorem bmpRowBytes_eq (h : (bmpWidth data).toNat * bmpBpp data + 31 < 2 ^ 32) :
    bmpRowBytes data = bmpPitch data := by
  rw [bmpRowBytes, bmpPitch, u32_of_lt h]
  omega

theorem bmpPitch_le (hbpp : bmpBpp data = 24 ∨ bmpBpp data = 32) :
    (bmpWidth data).toNat * (bmpBpp data / 8) ≤ bmpPitch data ∧
      bmpPitch data ≤ 4 * (bmpWidth data).toNat := by
  rw [bmpPitch]
  rcases hbpp with h | h
  · rw [h]
    omega
  · rw [h]
    omega

theorem rows_fit (hbpp : bmpBpp data = 24 ∨ bmpBpp data = 32)
    (hbuffer : 4 * ((bmpWidth data).toNat * (bmpHeight data).natAbs) < 2 ^ 32) {n : Nat}
    (hn : n ≤ (bmpHeight data).natAbs) : n * bmpRowBytes data < 2 ^ 32 := by
  have hrow := (@bmpRowBytes_le data).trans (bmpPitch_le hbpp).2
  calc n * bmpRowBytes data ≤ (bmpHeight data).natAbs * (4 * (bmpWidth data).toNat) :=
        Nat.mul_le_mul hn hrow
    _ = 4 * ((bmpWidth data).toNat * (bmpHeight data).natAbs) := by ring
    _ < 2 ^ 32 := hbuffer

theorem bmpRows_draws_iff (hcolour : Function.Injective colour)
    (hacc : wallpaperAccepts data size = true) : DrawsStored data size colour (bmpRows colour data) ↔
      4 * ((bmpWidth data).toNat * (bmpHeight data).natAbs) < 2 ^ 32 ∧ HoldsPicture data size := by
  rw [wallpaperAccepts, decide_eq_true_eq] at hacc
  obtain ⟨-, -, -, hw, hh, hbpp, -, -⟩ := hacc
  have hw : 0 < (bmpWidth data).toNat := by omega
  rw [DrawsStored, bmpRows, bmpBufferBytes]
  by_cases hmin : bmpHeight data = -2 ^ 31
  · rw [if_pos hmin, hmin]
    have habs : (-2 ^ 31 : Int).natAbs = 2 ^ 31 := rfl
    rw [habs]
    refine iff_of_false (fun h => ?_) (by omega)
    have hpicture := h.picture 0 hw 0 (by omega)
    cases hpicture
  · rw [if_neg hmin, fillPixels_draws_iff hw]
    refine and_congr_right fun hbuffer => ?_
    have hsource : ∀ y < (bmpHeight data).natAbs, ∀ x, bmpSource data x
        ((bmpHeight data).natAbs - 1 - y) = bmpOffset data +
          ((bmpHeight data).natAbs - 1 - y) * bmpRowBytes data + x * (bmpBpp data / 8) := by
      intro y _ x
      rw [bmpSource, u32_of_lt (rows_fit hbpp hbuffer (by omega))]
    simp only [bmpPixel, Logged.all_bind, all_readByte, Logged.all_pure, and_true, Logged.val_bind,
      Logged.val_pure, val_readByte]
    constructor
    · intro hpixels
      refine ⟨?_, fun y hy x hx => hcolour ?_⟩
      · have hlast := (hpixels 0 (by omega) ((bmpWidth data).toNat - 1) (by omega)).1.2.2
        rw [hsource 0 (by omega)] at hlast
        rw [Nat.sub_zero] at hlast
        omega
      · rw [← hsource y hy]
        exact (hpixels y hy x hx).2
    · rintro ⟨hlast, hsame⟩ y hy x hx
      have hrow := Nat.mul_le_mul_right (bmpRowBytes data)
        (show (bmpHeight data).natAbs - 1 - y ≤ (bmpHeight data).natAbs - 1 by omega)
      have hcol := Nat.mul_le_mul_right (bmpBpp data / 8)
        (show x ≤ (bmpWidth data).toNat - 1 by omega)
      rw [hsource y hy]
      exact ⟨⟨by omega, by omega, by omega⟩, congrArg colour (hsame y hy x hx)⟩

theorem holdsPicture_iff (hacc : wallpaperAccepts data size = true)
    (hbuffer : 4 * ((bmpWidth data).toNat * (bmpHeight data).natAbs) < 2 ^ 32)
    (hrow : (bmpWidth data).toNat * bmpBpp data + 31 < 2 ^ 32) :
    HoldsPicture data size ↔ 0 < bmpHeight data ∨ SameUpsideDown data := by
  rw [wallpaperAccepts, decide_eq_true_eq] at hacc
  obtain ⟨-, -, -, hw, hh, hbpp, hoff, hfile⟩ := hacc
  have hlast : bmpOffset data + ((bmpHeight data).natAbs - 1) * bmpRowBytes data +
      ((bmpWidth data).toNat - 1) * (bmpBpp data / 8) + 3 ≤ size := by
    obtain ⟨k, hk⟩ := Nat.exists_eq_succ_of_ne_zero (Int.natAbs_ne_zero.mpr hh)
    obtain ⟨j, hj⟩ := Nat.exists_eq_succ_of_ne_zero (n := (bmpWidth data).toNat) (by omega)
    have hpitch := (bmpPitch_le hbpp).1
    rw [Nat.mul_comm, u32_of_lt (rows_fit hbpp hbuffer le_rfl), bmpRowBytes_eq hrow, hk,
      Nat.succ_mul] at hfile
    rw [bmpRowBytes_eq hrow, hk, hj, Nat.succ_sub_one, Nat.succ_sub_one]
    rw [hj, Nat.succ_mul] at hpitch
    have hbytes : 3 ≤ bmpBpp data / 8 := by omega
    omega
  rw [HoldsPicture, and_iff_right hlast, bmpRowBytes_eq hrow]
  by_cases hpos : 0 < bmpHeight data
  · refine iff_of_true (fun y _ x _ => ?_) (.inl hpos)
    rw [storedPixel, bmpFileRow, if_pos hpos]
  · rw [or_iff_right hpos, SameUpsideDown]
    simp only [storedPixel, bmpFileRow, if_neg hpos]

theorem drawsStored_iff (hcolour : Function.Injective colour)
    (hacc : wallpaperAccepts data size = true) :
    DrawsStored data size colour (bmpRows colour data) ↔ BmpFits data size := by
  rw [bmpRows_draws_iff hcolour hacc, BmpFits]
  refine and_congr_right fun hbuffer => ?_
  rcases Nat.lt_or_ge ((bmpWidth data).toNat * bmpBpp data + 31) (2 ^ 32) with hrow | hrow
  · rw [if_pos hrow]
    exact holdsPicture_iff hacc hbuffer hrow
  · rw [if_neg (Nat.not_lt.mpr hrow)]

theorem colorref_injective : Function.Injective Bgr.colorref := by
  rintro ⟨b, g, r⟩ ⟨b', g', r'⟩ h
  have hrgb : Bgr.rgb ⟨r, g, b⟩ = Bgr.rgb ⟨r', g', b'⟩ := h
  obtain ⟨rfl, rfl, rfl⟩ := Bgr.mk.inj (rgb_injective hrgb)
  rfl

theorem gdiAccepts_iff : gdiAccepts data size = true ↔
    wallpaperAccepts data size = true ∧ 40 ≤ bmpHeaderSize data := by
  rw [gdiAccepts, wallpaperAccepts, decide_eq_true_eq, decide_eq_true_eq]
  constructor
  · rintro ⟨hsize, hb, hm, hdib, hrest⟩
    exact ⟨⟨hsize, hb, hm, hrest⟩, hdib⟩
  · rintro ⟨⟨hsize, hb, hm, hrest⟩, hdib⟩
    exact ⟨hsize, hb, hm, hdib, hrest⟩

theorem bmpLaw_iff (kmalloc : Nat → Bool) (object : Bool) (data : Mem) (size : Nat) :
    BmpLaw kmalloc object data size ↔
      (wallpaperAccepts data size = true → kmalloc (bmpBufferBytes data) = true →
        BmpFits data size) := by
  constructor
  · intro hlaw hacc hmem
    exact (drawsStored_iff rgb_injective hacc).mp
      (hlaw.wallpaper _ (if_pos ⟨hacc, hmem⟩))
  · intro hfits
    refine ⟨gdiAccepts_iff, fun r hr => ?_, fun r hr => ?_⟩
    · rw [wallpaperDecode, Option.ite_none_right_eq_some] at hr
      obtain ⟨⟨hacc, hmem⟩, hr⟩ := hr
      rw [← Option.some.inj hr]
      exact (drawsStored_iff rgb_injective hacc).mpr (hfits hacc hmem)
    · rw [gdiCreateBitmapFromBmp, Option.ite_none_right_eq_some] at hr
      obtain ⟨⟨hacc, -, hmem⟩, hr⟩ := hr
      have hwallpaper := (gdiAccepts_iff.mp hacc).1
      rw [← Option.some.inj hr]
      exact (drawsStored_iff colorref_injective hwallpaper).mpr (hfits hwallpaper hmem)

def topDown : Mem := ofSegments [(0, [0x42, 0x4D]), (10, [54]), (14, [40]), (18, [1]),
  (22, [0xFE, 0xFF, 0xFF, 0xFF]), (28, [24]), (54, [1, 1, 1, 0, 2, 2, 2, 0])]

/-- Both decoders turn it upside down. -/
theorem bmpLaw_topDown : ¬ BmpLaw (fun _ => true) true topDown 62 := by
  intro hlaw
  have hpicture := (hlaw.wallpaper _ (if_pos (by decide +kernel))).picture 0 (by decide +kernel) 0
    (by decide +kernel)
  revert hpicture
  decide +kernel

end DiscouNT.Gdi32
