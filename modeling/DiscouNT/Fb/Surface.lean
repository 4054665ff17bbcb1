import DiscouNT.Fb.Font
import DiscouNT.Lib.Raster

/-!
# Fb.Surface

The framebuffer of the BGA adapter: a software surface of RGB words with its shadow of palette
indices, the clip rectangle, the dirty rectangle and two scanout pages in video memory.

The state is what a successful `fb_try_bga_mode` leaves behind, so the framebuffer is in use, both
surfaces are allocated and `fb_addr` is set; the VGA branches of the drawing functions are not
part of it. Coordinates are integers: the sums the functions form are taken not to overflow.
-/

namespace DiscouNT.Fb

open Lib Function

structure FbMode where
  width : Nat
  height : Nat
  bpp : Nat
deriving DecidableEq, Repr

def fbModes : List FbMode := [
  ⟨640, 480, 16⟩, ⟨640, 480, 24⟩, ⟨640, 480, 32⟩,
  ⟨800, 600, 16⟩, ⟨800, 600, 24⟩, ⟨800, 600, 32⟩,
  ⟨1024, 768, 16⟩, ⟨1024, 768, 24⟩, ⟨1024, 768, 32⟩,
  ⟨1152, 864, 16⟩, ⟨1152, 864, 24⟩, ⟨1152, 864, 32⟩,
  ⟨1280, 1024, 16⟩, ⟨1280, 1024, 24⟩, ⟨1280, 1024, 32⟩,
  ⟨640, 360, 16⟩, ⟨640, 360, 24⟩, ⟨640, 360, 32⟩,
  ⟨800, 450, 16⟩, ⟨800, 450, 24⟩, ⟨800, 450, 32⟩,
  ⟨960, 540, 16⟩, ⟨960, 540, 24⟩, ⟨960, 540, 32⟩,
  ⟨1280, 720, 16⟩, ⟨1280, 720, 24⟩, ⟨1280, 720, 32⟩,
  ⟨1366, 768, 16⟩, ⟨1366, 768, 24⟩, ⟨1366, 768, 32⟩,
  ⟨1600, 900, 16⟩, ⟨1600, 900, 24⟩, ⟨1600, 900, 32⟩,
  ⟨1920, 1080, 16⟩, ⟨1920, 1080, 24⟩, ⟨1920, 1080, 32⟩]

/-- A mode of the table. `FbInit` and `FbSetResolution` ask for no other. -/
def Mode := { mode : FbMode // mode ∈ fbModes }

theorem fbModes_bpp : ∀ mode ∈ fbModes, mode.bpp = 16 ∨ mode.bpp = 24 ∨ mode.bpp = 32 := by
  decide

theorem fbModes_size : ∀ mode ∈ fbModes, 0 < mode.width ∧ 0 < mode.height := by
  decide

def vgaToRgb888 : List UInt32 := [
  0x000000, 0x0000AA, 0x00AA00, 0x00AAAA,
  0xAA0000, 0xAA00AA, 0xAA5500, 0xAAAAAA,
  0x555555, 0x5555FF, 0x55FF55, 0x55FFFF,
  0xFF5555, 0xFF55FF, 0xFFFF55, 0xFFFFFF]

def paletteRgb (color : UInt8) : UInt32 := vgaToRgb888.getD (color &&& 0x0F).toNat 0

def channel (rgb : UInt32) (shift : UInt32) : Int := ((rgb >>> shift) &&& 0xFF).toNat

def distance (rgb rgb' : UInt32) : Int :=
  let dr := channel rgb 16 - channel rgb' 16
  let dg := channel rgb 8 - channel rgb' 8
  let db := channel rgb 0 - channel rgb' 0
  dr * dr + dg * dg + db * db

def fbRgbToIndex (rgb : UInt32) : UInt8 :=
  ((List.range 16).foldl (fun (best, result) i =>
    let d := distance rgb (vgaToRgb888.getD i 0)
    if d < best then (d, UInt8.ofNat i) else (best, result)) ((0xFFFFFFFF : Int), (0 : UInt8))).2

structure Clip where
  enabled : Bool
  left : Int
  top : Int
  right : Int
  bottom : Int
deriving DecidableEq, Repr

structure Dirty where
  valid : Bool
  x1 : Int
  y1 : Int
  x2 : Int
  y2 : Int
deriving DecidableEq, Repr

/-- Offsets into video memory count from `fb_addr`. -/
structure State where
  mode : Mode
  surface : Nat → UInt32
  shadow : Nat → UInt8
  clip : Clip
  dirty : Dirty
  displayPage : Nat
  pagesInitialized : Bool
  presentAddr : Nat
  yOffset : Nat
  vram : Mem

namespace State

def width (s : State) : Nat := s.mode.1.width
def height (s : State) : Nat := s.mode.1.height
def bpp (s : State) : Nat := s.mode.1.bpp

def depth (s : State) : Nat := s.bpp / 8

def pitch (s : State) : Nat := s.width * s.depth

end State

def fbResetDirty (s : State) : State := { s with dirty := ⟨false, 0, 0, 0, 0⟩ }

def Dirty.extend (d : Dirty) (x y x2 y2 : Int) : Dirty :=
  if d.valid then
    let d := if x < d.x1 then { d with x1 := x } else d
    let d := if y < d.y1 then { d with y1 := y } else d
    let d := if x2 > d.x2 then { d with x2 := x2 } else d
    if y2 > d.y2 then { d with y2 := y2 } else d
  else ⟨true, x, y, x2, y2⟩

def fbMarkDirty (s : State) (x y w h : Int) : State :=
  let xs := (Span.mk x w).clipLow 0
  let ys := (Span.mk y h).clipLow 0
  if xs.start ≥ s.width ∨ ys.start ≥ s.height ∨ xs.len ≤ 0 ∨ ys.len ≤ 0 then s
  else
    let xs := xs.clipHigh s.width
    let ys := ys.clipHigh s.height
    if xs.len ≤ 0 ∨ ys.len ≤ 0 then s
    else
      let x2 := xs.start + xs.len - 1
      let y2 := ys.start + ys.len - 1
      { s with dirty := s.dirty.extend xs.start ys.start x2 y2 }

/-- What the machine answers while a mode is set: the BGA registers read back, the BAR of the
framebuffer and the two blocks for the surfaces, of which the words of one are used unread. -/
structure Bga where
  id : Nat
  lfbPhys : Nat
  xres : Nat
  yres : Nat
  bpp : Nat
  surfaces : Option (Nat → UInt32)

def bgaId0 : Nat := 0xB0C0
def bgaId5 : Nat := 0xB0C5

/-- What `fb_try_bga_mode` assigns. The clip rectangle and video memory are as an earlier mode left
them. -/
def modeSet (clip : Clip) (vram : Mem) (mode : Mode) (surface : Nat → UInt32) : State :=
  { mode, surface, shadow := fun _ => 0, clip, dirty := ⟨false, 0, 0, 0, 0⟩, displayPage := 0,
    pagesInitialized := false, presentAddr := 0, yOffset := 0, vram }

def fbTryBgaMode (bga : Bga) (clip : Clip) (vram : Mem) (mode : Mode) : Option State :=
  if bga.id < bgaId0 ∨ bga.id > bgaId5 then none
  else if bga.lfbPhys < 0x100000 then none
  else if bga.xres ≠ mode.1.width ∨ bga.yres ≠ mode.1.height ∨ bga.bpp % 256 ≠ mode.1.bpp then none
  else
    match bga.surfaces with
    | none => none
    | some surface =>
      let s := modeSet clip vram mode surface
      some (fbMarkDirty (fbResetDirty s) 0 0 s.width s.height)

def fbPutPixelRGB (s : State) (x y : Int) (rgb : UInt32) : State :=
  if x < 0 ∨ x ≥ s.width ∨ y < 0 ∨ y ≥ s.height then s
  else
    let i := (y * s.width + x).toNat
    let surface := update s.surface i rgb
    let shadow := update s.shadow i (fbRgbToIndex rgb)
    fbMarkDirty { s with surface, shadow } x y 1 1

/-- Outside of the screen `FbGetPixel` answers 0, the first entry of the palette. -/
def fbGetPixelRGB (s : State) (x y : Int) : UInt32 :=
  if x ≥ 0 ∧ x < s.width ∧ y ≥ 0 ∧ y < s.height then s.surface (y * s.width + x).toNat
  else paletteRgb 0

/-- The second loop is for a block that sticks out of the screen. -/
def fbBlitRGB (s : State) (x y w h : Int) (src : Option (Nat → UInt32)) (srcStride : Int) : State :=
  match src with
  | none => s
  | some src =>
    if w ≤ 0 ∨ h ≤ 0 ∨ srcStride < w then s
    else if x ≥ 0 ∧ y ≥ 0 ∧ x + w ≤ s.width ∧ y + h ≤ s.height then
      let surface := setRows s.surface (fun row => (y.toNat + row) * s.width + x.toNat)
        w.toNat h.toNat fun row col => src (row * srcStride.toNat + col)
      fbMarkDirty { s with surface } x y w h
    else
      let surface := h.toNat.fold (fun row _ surface =>
        let dy := y + row
        if dy < 0 ∨ dy ≥ s.height then surface
        else w.toNat.fold (fun col _ surface =>
          let dx := x + col
          if dx < 0 ∨ dx ≥ s.width then surface
          else update surface (dy * s.width + dx).toNat
            (src (row * srcStride.toNat + col))) surface) s.surface
      fbMarkDirty { s with surface } x y w h

def fbClearScreen (s : State) (color : UInt8) : State :=
  let count := s.width * s.height
  let indexed := color &&& 0x0F
  let rgb := vgaToRgb888.getD indexed.toNat 0
  let surface := count.fold (fun i _ surface => update surface i rgb) s.surface
  let shadow := count.fold (fun i _ shadow => update shadow i indexed) s.shadow
  fbMarkDirty { s with surface, shadow } 0 0 s.width s.height

def fbPutPixel (s : State) (x y : Int) (color : UInt8) : State :=
  if x < 0 ∨ x ≥ s.width ∨ y < 0 ∨ y ≥ s.height then s
  else if s.clip.enabled ∧
      (x < s.clip.left ∨ x ≥ s.clip.right ∨ y < s.clip.top ∨ y ≥ s.clip.bottom) then s
  else
    let i := (y * s.width + x).toNat
    let surface := update s.surface i (paletteRgb color)
    let shadow := update s.shadow i (color &&& 0x0F)
    fbMarkDirty { s with surface, shadow } x y 1 1

def clipSpan (enabled : Bool) (lo hi size : Int) (span : Span) : Span :=
  let span := if enabled then (span.clipLow lo).clipHigh hi else span
  (span.clipLow 0).clipHigh size

def clipColumns (s : State) (x w : Int) : Span :=
  clipSpan s.clip.enabled s.clip.left s.clip.right s.width ⟨x, w⟩

def clipRows (s : State) (y h : Int) : Span :=
  clipSpan s.clip.enabled s.clip.top s.clip.bottom s.height ⟨y, h⟩

/-- The loops of the two fills, over a rectangle already cut. -/
def fillCut (s : State) (xs ys : Span) (rgb : UInt32) (index : UInt8) : State :=
  if xs.len ≤ 0 ∨ ys.len ≤ 0 then s
  else
    let start := fun row => (ys.start.toNat + row) * s.width + xs.start.toNat
    let surface := setRows s.surface start xs.len.toNat ys.len.toNat fun _ _ => rgb
    let shadow := setRows s.shadow start xs.len.toNat ys.len.toNat fun _ _ => index
    fbMarkDirty { s with surface, shadow } xs.start ys.start xs.len ys.len

def fillWith (s : State) (x y w h : Int) (rgb : UInt32) (index : UInt8) : State :=
  fillCut s (clipColumns s x w) (clipRows s y h) rgb index

def fbFillRect (s : State) (x y w h : Int) (color : UInt8) : State :=
  fillWith s x y w h (paletteRgb color) (color &&& 0x0F)

def fbFillRectRGB (s : State) (x y w h : Int) (rgb : UInt32) : State :=
  fillWith s x y w h rgb (fbRgbToIndex rgb)

def fbSetClipRect (s : State) (x y w h : Int) : State :=
  let left := if x < 0 then 0 else x
  let top := if y < 0 then 0 else y
  let right := if x + w > s.width then (s.width : Int) else x + w
  let bottom := if y + h > s.height then (s.height : Int) else y + h
  let right := if right < left then left else right
  let bottom := if bottom < top then top else bottom
  { s with clip := ⟨true, left, top, right, bottom⟩ }

def fbResetClipRect (s : State) : State := { s with clip := { s.clip with enabled := false } }

def fbDrawRect (s : State) (x y w h : Int) (color : UInt8) : State :=
  let s := fbFillRect s x y w 1 color
  let s := fbFillRect s x (y + h - 1) w 1 color
  let s := fbFillRect s x y 1 h color
  fbFillRect s (x + w - 1) y 1 h color

/-- `fb_use_ttf_glyphs` stays 0, so the glyph is the built-in one. -/
def fbDrawChar (s : State) (x y : Int) (c fg bg : UInt8) : State :=
  let glyph := fbGetFont c
  Nat.fold 8 (fun row _ s =>
    let bits := glyph.getD row 0
    Nat.fold 8 (fun col _ s =>
      fbPutPixel s (x + col) (y + row)
        (if bits &&& (0x80 >>> UInt8.ofNat col) ≠ 0 then fg else bg)) s) s

/-- One pass of `FbDrawString`: a character drawn or a line broken, and the pen after it. -/
def drawStringStep (s : State) (x cx cy : Int) (c fg bg : UInt8) : State × Int × Int :=
  if c = 10 then (s, x, cy + 10)
  else
    let s := fbDrawChar s cx cy c fg bg
    let cx := cx + 8
    if cx + 8 > s.width then (s, x, cy + 10) else (s, cx, cy)

def drawStringFrom (x : Int) (fg bg : UInt8) : List UInt8 → State → Int → Int → State
  | [], s, _, _ => s
  | c :: str, s, cx, cy =>
    let (s, cx, cy) := drawStringStep s x cx cy c fg bg
    if cy + 8 > s.height then s else drawStringFrom x fg bg str s cx cy

/-- The string is what stands before its first NUL. -/
def fbDrawString (s : State) (x y : Int) (str : List UInt8) (fg bg : UInt8) : State :=
  drawStringFrom x fg bg (str.takeWhile (· ≠ 0)) s x y

end DiscouNT.Fb
