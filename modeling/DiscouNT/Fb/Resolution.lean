import DiscouNT.Fb.FillPixels
import DiscouNT.Fb.Present

/-!
# Fb.Resolution

The statics of the driver while modes are set: `FbInit`, `fb_try_bga_mode`, `fb_try_vmware_mode` and
`FbSetResolution` with every exit they have. `State` is what a successful mode set leaves behind;
here the geometry, the flag and the two blocks are variables of their own and need not agree.
-/

namespace DiscouNT.Fb

open Lib

-- a value converted to `int`
def wrapInt (v : Int) : Int := v.bmod (2 ^ 32)

structure Block (α : Type) where
  count : Nat
  cell : Nat → α

def Block.fill {α : Type} (b : Block α) (n : Nat) (a : α) : Block α :=
  { b with cell := fun i => if i < n then a else b.cell i }

structure Globals where
  useFramebuffer : Bool
  width : Int
  height : Int
  bpp : Nat
  pitch : Nat
  addr : Nat
  presentAddr : Nat
  shadow : Option (Block UInt8)
  surface : Option (Block UInt32)
  pageFlip : Bool
  displayPage : Nat
  pagesInitialized : Bool
  dirty : Dirty

/-- What the machine answers while `fb_try_bga_mode` runs: the ID register, the BAR of the
framebuffer, the registers read back, and what the two blocks hold if there is memory for them. -/
structure BgaReply where
  id : UInt16
  lfbPhys : UInt32
  xres : UInt16
  yres : UInt16
  bpp : UInt16
  shadow : Option (Nat → UInt8)
  surface : Option (Nat → UInt32)

/-- The answers of the machine, with the two blocks as one. -/
def BgaReply.bga (a : BgaReply) : Bga :=
  ⟨a.id.toNat, a.lfbPhys.toNat, a.xres.toNat, a.yres.toNat, a.bpp.toNat,
    if a.shadow.isSome then a.surface else none⟩

/-- The same for `fb_try_vmware_mode`, with the BAR found only where there is such a device. -/
structure SvgaReply where
  bar : Option UInt32
  id : UInt32
  width : UInt32
  height : UInt32
  bitsPerPixel : UInt32
  bytesPerLine : UInt32
  fbStart : UInt32
  fbOffset : UInt32
  memStart : UInt32
  memSize : UInt32
  shadow : Option (Nat → UInt8)
  surface : Option (Nat → UInt32)

/-- Where the device says the framebuffer is, or else its BAR. -/
def SvgaReply.startOr (a : SvgaReply) (bar : UInt32) : UInt32 :=
  if a.fbStart = 0 then bar else a.fbStart

namespace Globals

def fbResetDirty (g : Globals) : Globals := { g with dirty := ⟨false, 0, 0, 0, 0⟩ }

def fbMarkDirty (g : Globals) (x y w h : Int) : Globals :=
  let xs := (Span.mk x w).clipLow 0
  let ys := (Span.mk y h).clipLow 0
  if g.useFramebuffer = false then g
  else if xs.start ≥ g.width ∨ ys.start ≥ g.height ∨ xs.len ≤ 0 ∨ ys.len ≤ 0 then g
  else
    let xs := xs.clipHigh g.width
    let ys := ys.clipHigh g.height
    if xs.len ≤ 0 ∨ ys.len ≤ 0 then g
    else
      let x2 := xs.start + xs.len - 1
      let y2 := ys.start + ys.len - 1
      { g with dirty := g.dirty.extend xs.start ys.start x2 y2 }

/-- `(uint32_t)fb_width * (uint32_t)fb_height`. -/
def pixels (g : Globals) : Nat := (g.width * g.height % 2 ^ 32).toNat

/-- Both blocks or none: the old ones are freed first. -/
def fbAllocSurfaces (g : Globals) (pixels : Nat) (shadow : Option (Nat → UInt8))
    (surface : Option (Nat → UInt32)) : Bool × Globals :=
  match shadow, surface with
  | some shadow, some surface =>
    (true, { g with shadow := some ⟨pixels, shadow⟩, surface := some ⟨pixels, surface⟩ })
  | _, _ => (false, { g with shadow := none, surface := none })

def activate (g : Globals) (shadow : Option (Nat → UInt8)) (surface : Option (Nat → UInt32)) :
    Bool × Globals :=
  match g.fbAllocSurfaces g.pixels shadow surface with
  | (false, g) => (false, g)
  | (true, g) =>
    let g := { g with shadow := g.shadow.map fun b => Block.fill b g.pixels 0, useFramebuffer := true }
    (true, g.fbResetDirty.fbMarkDirty 0 0 g.width g.height)

def readBack (g : Globals) (a : BgaReply) : Globals :=
  { g with width := a.xres.toNat, height := a.yres.toNat, bpp := a.bpp.toNat % 256 }

def fbTryBgaMode (g : Globals) (a : BgaReply) (width height bpp : UInt16) : Bool × Globals :=
  if a.id.toNat < bgaId0 ∨ a.id.toNat > bgaId5 then (false, g)
  else if a.lfbPhys < 0x100000 then (false, g)
  else
    let g := g.readBack a
    if g.width ≠ (width.toNat : Int) ∨ g.height ≠ (height.toNat : Int) ∨ g.bpp ≠ bpp.toNat then (false, g)
    else
      let g := { g with
        addr := a.lfbPhys.toNat
        presentAddr := a.lfbPhys.toNat
        pitch := (g.width * (g.bpp / 8)).toNat
        pageFlip := true
        displayPage := 0
        pagesInitialized := false }
      g.activate a.shadow a.surface

def svgaReadBack (g : Globals) (a : SvgaReply) : Globals :=
  { g with
    width := wrapInt a.width.toNat
    height := wrapInt a.height.toNat
    bpp := a.bitsPerPixel.toNat % 256 }

/-- The command FIFO is set up when there is memory for it, and without it the framebuffer is given
up again. -/
def fbTryVmwareMode (g : Globals) (a : SvgaReply) (width height bpp : UInt16) : Bool × Globals :=
  match a.bar with
  | none => (false, g)
  | some bar =>
    if a.id ≠ 0x90000002 ∧ a.id ≠ 0x90000001 then (false, g)
    else
      let g := g.svgaReadBack a
      let fbStart := a.startOr bar
      if g.width ≠ (width.toNat : Int) ∨ g.height ≠ (height.toNat : Int) ∨ (g.bpp ≠ bpp.toNat ∧ g.bpp ≠ 32) ∨
          a.bytesPerLine < a.width * 4 ∨ fbStart < 0x100000 then (false, g)
      else
        let g := { g with addr := (fbStart + a.fbOffset).toNat, pitch := a.bytesPerLine.toNat }
        let svgaActive := a.memStart ≥ 0x100000 ∧ a.memSize ≥ 1024
        match g.activate a.shadow a.surface with
        | (false, g) => (false, g)
        | (true, g) =>
          if svgaActive then (true, g)
          else (false, { g with useFramebuffer := false, shadow := none, surface := none, addr := 0 })

/-- With the framebuffer in use. The scanout pages themselves are in `State`. -/
def fbSwapBuffers (g : Globals) : Globals :=
  if g.useFramebuffer = false ∨ g.surface.isNone ∨ g.dirty.valid = false then g
  else if g.pageFlip then
    let targetPage := g.displayPage ^^^ 1
    let target := g.addr + targetPage * g.height.toNat * g.pitch
    { g with presentAddr := target, pagesInitialized := true, displayPage := targetPage }.fbResetDirty
  else g.fbResetDirty

def fbClearScreen (g : Globals) (color : UInt8) : Globals :=
  match g.shadow, g.surface with
  | some shadow, some surface =>
    if g.useFramebuffer then
      let indexed := color &&& 0x0F
      let rgb := vgaToRgb888.getD indexed.toNat 0
      { g with
        shadow := some (shadow.fill g.pixels indexed)
        surface := some (surface.fill g.pixels rgb) }.fbMarkDirty 0 0 g.width g.height
    else g
  | _, _ => g

def colorBlue : UInt8 := 1

structure Call where
  width : Int
  height : Int
  bpp : Int
  reply : BgaReply

def Call.valid (c : Call) : Bool :=
  !(c.width < 320 || c.height < 200) && !(c.bpp != 16 && c.bpp != 24 && c.bpp != 32) &&
    fbModes.any fun mode =>
      (mode.width : Int) == c.width && (mode.height : Int) == c.height && (mode.bpp : Int) == c.bpp

def toU16 (v : Int) : UInt16 := UInt16.ofNat (v % 2 ^ 16).toNat

def fbSetResolution (g : Globals) (c : Call) : Bool × Globals :=
  if g.useFramebuffer = false then (false, g)
  else if c.valid = false then (false, g)
  else
    match g.fbTryBgaMode c.reply (toU16 c.width) (toU16 c.height) (toU16 c.bpp) with
    | (false, g) => (false, g)
    | (true, g) => (true, (g.fbClearScreen colorBlue).fbSwapBuffers)

/-- The mode sets of `FbInit` in their order, the first that succeeds ending it. -/
def fbInit (g : Globals) (bga bga' : BgaReply) (svga svga' : SvgaReply) : Globals :=
  let g := { g with
    useFramebuffer := false
    addr := 0
    presentAddr := 0
    surface := none
    pitch := 0
    bpp := 0
    pageFlip := false
    displayPage := 0
    pagesInitialized := false
    width := 640
    height := 480 }.fbResetDirty
  match g.fbTryBgaMode bga 800 600 32 with
  | (true, g) => g.fbSwapBuffers
  | (false, g) =>
    match g.fbTryBgaMode bga' 640 480 32 with
    | (true, g) => g.fbSwapBuffers
    | (false, g) =>
      match g.fbTryVmwareMode svga 800 600 32 with
      | (true, g) => g.fbSwapBuffers
      | (false, g) =>
        match g.fbTryVmwareMode svga' 640 480 32 with
        | (true, g) => g.fbSwapBuffers
        | (false, g) => g

end Globals

end DiscouNT.Fb
