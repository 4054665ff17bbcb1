import DiscouNT.Win32k.Window

/-!
# Win32k.Geometry

Rectangles: the client area and the caption of a window, what a point hits, and the changes that
minimising, maximising, restoring and resizing make to the fields of one window.
-/

namespace DiscouNT.Win32k

def windowFrameThickness (w : Window) : Int :=
  if w.style.has wsThickframe then frameThickness
  else if w.style.has (wsCaption ||| wsBorder ||| wsDlgframe) then 1 else 0

def windowClientEdge (w : Window) : Int := if w.exstyle.has wsExClientedge then 2 else 0

def clientTop (w : Window) : Int :=
  if w.minimized then w.height
  else
    windowFrameThickness w + (if w.style.has wsCaption then titlebarHeight else 0) +
      windowClientEdge w

def clientLeft (w : Window) : Int := windowFrameThickness w + windowClientEdge w

def clientRight (w : Window) : Int := w.width - windowFrameThickness w - windowClientEdge w

def clientBottom (w : Window) : Int :=
  if w.minimized then w.height else w.height - windowFrameThickness w - windowClientEdge w

def getCaptionButtonX (w : Window) (indexFromRight : Int) : Int :=
  w.x + w.width - windowFrameThickness w - buttonMargin - buttonSize -
    indexFromRight * (buttonSize + 2)

def overButton (w : Window) (x indexFromRight : Int) : Bool :=
  decide (getCaptionButtonX w indexFromRight ≤ x) &&
    decide (x < getCaptionButtonX w indexFromRight + buttonSize)

def hitCaptionButton (w : Window) (x y : Int) : CaptionHit :=
  if !w.style.has wsCaption || !w.style.has wsSysmenu then .none
  else
    let by' := w.y + windowFrameThickness w + buttonMargin
    if !(decide (by' ≤ y) && decide (y < by' + buttonSize)) then .none
    else if overButton w x 0 then .close
    else if w.style.has wsMaximizebox && overButton w x 1 then .maximize
    else if w.style.has wsMinimizebox &&
        overButton w x (if w.style.has wsMaximizebox then 2 else 1) then .minimize
    else .none

def isInWindow (w : Window) (x y : Int) : Bool :=
  decide (w.x ≤ x) && decide (x < w.x + w.width) && decide (w.y ≤ y) && decide (y < w.y + w.height)

def isMenuPopupWindow (w : Window) : Bool := decide (w.wndClass.className = text "MenuPopup")

def isTitleBar (w : Window) (x y : Int) : Bool :=
  if !w.style.has wsCaption then false
  else
    let frame := windowFrameThickness w
    let tx := w.x + frame
    let ty := w.y + frame
    let tw := w.width - frameThickness * 2
    if !(decide (tx ≤ x) && decide (x < tx + tw) && decide (ty ≤ y) &&
        decide (y < ty + titlebarHeight)) then false
    else if hitCaptionButton w x y ≠ .none then false
    else !(w.style.has wsSysmenu && decide (x < w.x + frame + buttonMargin + iconBoxSize + 2))

def hitResizeEdge (w : Window) (x y : Int) : Edge :=
  let border : Int := 4
  if w.minimized || w.maximized then .none
  else if !w.style.has wsThickframe then .none
  else if !isInWindow w x y then .none
  else
    { left := decide (x < w.x + border)
      right := !decide (x < w.x + border) && decide (w.x + w.width - border ≤ x)
      top := decide (y < w.y + border)
      bottom := !decide (y < w.y + border) && decide (w.y + w.height - border ≤ y) }

def inClient (w : Window) (x y : Int) : Bool :=
  decide (clientLeft w + w.x ≤ x) && decide (x < clientRight w + w.x) &&
    decide (clientTop w + w.y ≤ y) && decide (y < clientBottom w + w.y)

def clientLParam (w : Window) (x y : Int) : Nat :=
  ((x - (w.x + clientLeft w)) % 65536).toNat + 65536 * ((y - (w.y + clientTop w)) % 65536).toNat

def rectsIntersect (x1 y1 w1 h1 x2 y2 w2 h2 : Int) : Bool :=
  decide (x2 < x1 + w1) && decide (x1 < x2 + w2) && decide (y2 < y1 + h1) && decide (y1 < y2 + h2)

structure Rect where
  left : Int
  top : Int
  right : Int
  bottom : Int
deriving DecidableEq, Repr

def clientRect (w : Window) : Rect :=
  ⟨0, 0, clientRight w - clientLeft w, clientBottom w - clientTop w⟩

def clientScreenRect (w : Window) : Rect :=
  ⟨w.x + clientLeft w, w.y + clientTop w, w.x + clientRight w, w.y + clientBottom w⟩

def windowRect (w : Window) : Rect := ⟨w.x, w.y, w.x + w.width, w.y + w.height⟩

def minimizedWindowHeight : Int := 1 + titlebarHeight + 1

def restoreIfNeeded (w : Window) : Window :=
  if w.minimized then
    { w with
      minimized := false
      visible := true
      width := if 0 < w.restoreWidth then w.restoreWidth else w.width
      height := if 0 < w.restoreHeight then w.restoreHeight else w.height
      x := w.restoreX
      y := w.restoreY }
  else w

/-- `layout_minimized_window`, after `slot` minimised windows were counted. -/
def layoutMinimized (env : Env) (slot : Nat) (w : Window) : Window :=
  let x := 8 + slot * (minimizedWidth + 8)
  let y := env.screenHeight - 8 - minimizedWindowHeight
  let columns := ((env.screenWidth - 8).tdiv (minimizedWidth + 8))
  let columns := if columns < 1 then 1 else columns
  let row := (slot : Int).tdiv columns
  let past := decide (env.screenWidth < x + minimizedWidth)
  let y := if past then y - row * (minimizedWindowHeight + 8) else y
  { w with
    width := minimizedWidth
    height := minimizedWindowHeight
    x := if past then 8 + (slot : Int).tmod columns * (minimizedWidth + 8) else x
    y := if y < 0 then 0 else y }

def saveRect (w : Window) : Window :=
  { w with restoreX := w.x, restoreY := w.y, restoreWidth := w.width, restoreHeight := w.height }

def minimizeFields (w : Window) : Window :=
  { saveRect w with minimized := true, visible := true }

def maximize (env : Env) (w : Window) : Window :=
  if w.maximized then w
  else
    { saveRect w with
      x := 0, y := 0, width := env.screenWidth, height := env.screenHeight, maximized := true }

def restore (w : Window) : Window :=
  if w.maximized then
    { w with
      width := if 0 < w.restoreWidth then w.restoreWidth else w.width
      height := if 0 < w.restoreHeight then w.restoreHeight else w.height
      x := w.restoreX
      y := w.restoreY
      maximized := false }
  else w

/-- The rectangle a resize gesture asks for, kept on the screen and not below 96 by 64. -/
def resizedRect (env : Env) (p : Pointer) (x y : Int) : Int × Int × Int × Int :=
  let dx := x - p.resizeStartMouseX
  let dy := y - p.resizeStartMouseY
  let e := p.resizeEdge
  let newX := if e.left then p.resizeStartX + dx else p.resizeStartX
  let newY := if e.top then p.resizeStartY + dy else p.resizeStartY
  let newW := if e.left then p.resizeStartWidth - dx
    else if e.right then p.resizeStartWidth + dx else p.resizeStartWidth
  let newH := if e.top then p.resizeStartHeight - dy
    else if e.bottom then p.resizeStartHeight + dy else p.resizeStartHeight
  let newX := if newW < 96 ∧ e.left = true then newX - (96 - newW) else newX
  let newW := if newW < 96 then 96 else newW
  let newY := if newH < 64 ∧ e.top = true then newY - (64 - newH) else newY
  let newH := if newH < 64 then 64 else newH
  let newW := if newX < 0 ∧ e.left = true then newW + newX else newW
  let newX := if newX < 0 then 0 else newX
  let newH := if newY < 0 ∧ e.top = true then newH + newY else newH
  let newY := if newY < 0 then 0 else newY
  let overX := decide (env.screenWidth < newX + newW)
  let newX' := if overX && !e.right then env.screenWidth - newW else newX
  let newW := if overX && e.right then env.screenWidth - newX else newW
  let overY := decide (env.screenHeight < newY + newH)
  let newY' := if overY && !e.bottom then env.screenHeight - newH else newY
  let newH := if overY && e.bottom then env.screenHeight - newY else newH
  (if newX' < 0 then 0 else newX', if newY' < 0 then 0 else newY',
    if newW < 96 then 96 else newW, if newH < 64 then 64 else newH)

def resizeFields (env : Env) (p : Pointer) (x y : Int) (w : Window) : Window :=
  let r := resizedRect env p x y
  let w' := { w with x := r.1, y := r.2.1, width := r.2.2.1, height := r.2.2.2 }
  if !w.maximized && !w.minimized then saveRect w' else w'

/-- Where a dragged window goes: on the screen as far as it fits. -/
def draggedTo (env : Env) (p : Pointer) (w : Window) (x y : Int) : Int × Int :=
  let newX := x - p.dragOffsetX
  let newY := y - p.dragOffsetY
  let newX := if newX < 0 then 0 else newX
  let newY := if newY < 0 then 0 else newY
  let newX := if env.screenWidth < newX + w.width then env.screenWidth - w.width else newX
  let newY := if env.screenHeight < newY + w.height then env.screenHeight - w.height else newY
  (if newX < 0 then 0 else newX, if newY < 0 then 0 else newY)

def dragFields (x y : Int) (w : Window) : Window :=
  { restore w with restoreX := x, restoreY := y, x, y }

end DiscouNT.Win32k
