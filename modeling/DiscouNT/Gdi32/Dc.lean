import DiscouNT.Fb.Surface

/-!
# Gdi32.Dc

Device contexts of `dlls/gdi32/gdi32.c`: their attributes, what is selected into them, and the pixel
they draw.

* An object is named by a handle, the pointer seen as the object it points to; the five stock
  objects have handles of their own. The null handle is `none`.
* Coordinates are integers of any size. An `int` that overflows is far outside every bitmap before
  and after.
* A brush and a font carry nothing that is read here.
-/

namespace DiscouNT.Gdi32

open Function

def rgb (r g b : UInt8) : UInt32 := r.toUInt32 ||| g.toUInt32 <<< 8 ||| b.toUInt32 <<< 16

structure Rect where
  left : Int
  top : Int
  right : Int
  bottom : Int
deriving DecidableEq, Repr

structure GdiBitmap where
  width : Int
  height : Int
  pixels : Nat → UInt32

inductive GdiObject where
  | brush
  | pen (color : UInt32)
  | bitmap (bmp : GdiBitmap)
  | font

abbrev Hgdiobj := Option Nat

def gStockWhiteBrush : Nat := 0
def gStockLtgrayBrush : Nat := 1
def gStockBlackBrush : Nat := 2
def gStockBlackPen : Nat := 3
def gStockFont : Nat := 4

structure Attributes where
  clip : Rect
  textColor : UInt32
  bkColor : UInt32
  bkMode : Int
  curX : Int
  curY : Int
  selectedPen : Hgdiobj
  selectedBrush : Hgdiobj
  selectedBitmap : Hgdiobj
  selectedFont : Hgdiobj
deriving DecidableEq, Repr

structure GdiSavedDc extends Attributes where
  used : Bool
deriving DecidableEq, Repr

structure GdiDc extends Attributes where
  isScreen : Bool
  hwnd : Nat
  hasCustomOrigin : Bool
  originX : Int
  originY : Int
  saved : Nat → GdiSavedDc

def Attributes.zero : Attributes :=
  { clip := ⟨0, 0, 0, 0⟩, textColor := 0, bkColor := 0, bkMode := 0, curX := 0, curY := 0,
    selectedPen := none, selectedBrush := none, selectedBitmap := none, selectedFont := none }

def bkOpaque : Int := 2

def gdiAllocDc : GdiDc :=
  { Attributes.zero with
    textColor := rgb 0 0 0, bkColor := rgb 192 192 192, bkMode := bkOpaque,
    selectedPen := some gStockBlackPen, selectedBrush := some gStockLtgrayBrush,
    selectedFont := some gStockFont,
    isScreen := false, hwnd := 0, hasCustomOrigin := false, originX := 0, originY := 0,
    saved := fun _ => { Attributes.zero with used := false } }

structure World where
  objects : Nat → Option GdiObject
  fb : Fb.State
  clientOrigin : Nat → Int × Int

namespace World

def object (w : World) (h : Hgdiobj) : Option GdiObject := h.bind w.objects

def setBitmap (w : World) (h : Nat) (bmp : GdiBitmap) : World :=
  { w with objects := update w.objects h (some (.bitmap bmp)) }

end World

def gdiGetBitmap (w : World) (h : Hgdiobj) : Option GdiBitmap :=
  match w.object h with
  | some (.bitmap bmp) => some bmp
  | _ => none

def gdiGetScreenOrigin (w : World) (hwnd : Nat) : Int × Int :=
  if hwnd = 0 then (0, 0) else w.clientOrigin hwnd

/-- A `COLORREF` is `0x00BBGGRR`; the framebuffer stores `0x00RRGGBB`. -/
def swapRedBlue (color : UInt32) : UInt32 :=
  (color &&& (0xFF : UInt32)) <<< 16 ||| (color &&& (0xFF00 : UInt32)) |||
    (color &&& (0xFF0000 : UInt32)) >>> 16

def Rect.Holds (r : Rect) (x y : Int) : Prop := ¬ (x < r.left ∨ y < r.top ∨ x ≥ r.right ∨ y ≥ r.bottom)

instance (r : Rect) (x y : Int) : Decidable (r.Holds x y) := inferInstanceAs (Decidable (¬ _))

def GdiBitmap.Holds (bmp : GdiBitmap) (x y : Int) : Prop :=
  ¬ (x < 0 ∨ y < 0 ∨ x ≥ bmp.width ∨ y ≥ bmp.height)

instance (bmp : GdiBitmap) (x y : Int) : Decidable (bmp.Holds x y) :=
  inferInstanceAs (Decidable (¬ _))

def GdiBitmap.index (bmp : GdiBitmap) (x y : Int) : Nat := (y * bmp.width + x).toNat

def gdiPutPixel (w : World) (dc : GdiDc) (x y : Int) (color : UInt32) : World :=
  if ¬ dc.clip.Holds x y then w
  else if dc.isScreen then
    let o := if dc.hasCustomOrigin then (dc.originX, dc.originY) else gdiGetScreenOrigin w dc.hwnd
    { w with fb := Fb.fbPutPixelRGB w.fb (o.1 + x) (o.2 + y) (swapRedBlue color) }
  else
    match dc.selectedBitmap, gdiGetBitmap w dc.selectedBitmap with
    | some h, some bmp =>
      if ¬ bmp.Holds x y then w
      else w.setBitmap h { bmp with pixels := update bmp.pixels (bmp.index x y) color }
    | _, _ => w

def gdiGetPixel (w : World) (dc : GdiDc) (x y : Int) : UInt32 :=
  if dc.isScreen then 0
  else
    match gdiGetBitmap w dc.selectedBitmap with
    | none => 0
    | some bmp => if ¬ bmp.Holds x y then 0 else bmp.pixels (bmp.index x y)

def selectObject (w : World) (dc : GdiDc) (h : Nat) : GdiDc :=
  match w.objects h with
  | none => dc
  | some (.pen _) => { dc with selectedPen := some h }
  | some .brush => { dc with selectedBrush := some h }
  | some (.bitmap bmp) =>
    if ¬ dc.isScreen ∧ 0 < bmp.width ∧ 0 < bmp.height then
      { dc with selectedBitmap := some h, clip := ⟨0, 0, bmp.width, bmp.height⟩ }
    else { dc with selectedBitmap := some h }
  | some .font => { dc with selectedFont := some h }

def setTextColor (dc : GdiDc) (color : UInt32) : GdiDc := { dc with textColor := color }
def setBkColor (dc : GdiDc) (color : UInt32) : GdiDc := { dc with bkColor := color }
def setBkMode (dc : GdiDc) (mode : Int) : GdiDc := { dc with bkMode := mode }
def moveToEx (dc : GdiDc) (x y : Int) : GdiDc := { dc with curX := x, curY := y }

/-- `ExcludeClipRect`, which makes the rectangle the clip. -/
def excludeClipRect (dc : GdiDc) (left top right bottom : Int) : GdiDc :=
  { dc with clip := ⟨left, top, right, bottom⟩ }

/-- `SaveDC`. The selected font is not among the fields that are copied. -/
def saveDC (dc : GdiDc) : Nat × GdiDc :=
  match (List.range 8).find? fun i => ! (dc.saved i).used with
  | some i =>
    (i + 1, { dc with
      saved := update dc.saved i
        { dc.saved i with
          used := true, clip := dc.clip, textColor := dc.textColor, bkColor := dc.bkColor,
          bkMode := dc.bkMode, curX := dc.curX, curY := dc.curY, selectedPen := dc.selectedPen,
          selectedBrush := dc.selectedBrush, selectedBitmap := dc.selectedBitmap } })
  | none => (0, dc)

def restoreDC (dc : GdiDc) (nSavedDC : Int) : Bool × GdiDc :=
  let i := nSavedDC - 1
  if i < 0 ∨ i ≥ 8 ∨ (dc.saved i.toNat).used = false then (false, dc)
  else
    let s := dc.saved i.toNat
    (true, { dc with
      clip := s.clip, textColor := s.textColor, bkColor := s.bkColor, bkMode := s.bkMode,
      curX := s.curX, curY := s.curY, selectedPen := s.selectedPen,
      selectedBrush := s.selectedBrush, selectedBitmap := s.selectedBitmap,
      selectedFont := s.selectedFont,
      saved := update dc.saved i.toNat { s with used := false } })

end DiscouNT.Gdi32
