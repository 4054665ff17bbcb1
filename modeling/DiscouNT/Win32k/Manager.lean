import DiscouNT.Win32k.Geometry
import DiscouNT.Win32k.Raise

/-!
# Win32k.Manager

The entry points of `win32/w32k/w32k.c`.

A window procedure is a function of the environment on the whole state: it may call any of these
functions again. Drawing is left out, so a loop that only draws takes and gives back references
(`peek`); a loop that also sends `WM_PAINT` reads `window_list[i]` again for the handle it gives
back, as the code does (`entry`).
-/

namespace DiscouNT.Win32k

def State.serialAt (s : State) (hwnd : Handle) : Nat :=
  match s.lookup hwnd with
  | none => 0
  | some o => o.serial

/-- `if (win->wndProc) win->wndProc(hwnd, msg, 0, lParam)`. -/
def send (env : Env) (hwnd : Handle) (wndProc : Option Nat) (msg : Msg) (lParam : Nat) (s : State) :
    State :=
  match wndProc with
  | none => s
  | some proc =>
    env.proc proc ⟨hwnd, msg, lParam⟩ (s.addLog (.sent (s.serialAt hwnd) ⟨hwnd, msg, lParam⟩))

def markActive (hwnd : Handle) (s : State) (h : Handle) : State :=
  match reference h s with
  | (none, s) => s
  | (some _, s) => dereference h (updWin h (fun w => { w with active := decide (h = hwnd) }) s)

def setWindowActive (hwnd : Handle) (s : State) : State :=
  let (refused, s) :=
    if hwnd = invalidHandle then (false, s)
    else
      match peek hwnd s with
      | (none, s) => (true, s)
      | (some candidate, s) => (candidate.desktop, s)
  if refused then s else s.list.foldl (markActive hwnd) { s with activeWindow := hwnd }

def findTopmostVisibleWindow (s : State) : Handle :=
  (s.list.reverse.find? fun h =>
    (peek h s).1.any fun w => w.visible && !w.minimized && !w.desktop).getD invalidHandle

def noteLeak (h : Handle) (s : State) : State :=
  s.alter h fun o => some { o with leaked := o.leaked + 1 }

def findWindowIn (x y : Int) : List Handle → State → Handle × State
  | [], s => (invalidHandle, s)
  | h :: rest, s =>
    match reference h s with
    | (none, s) => findWindowIn x y rest s
    | (some w, s) =>
      if w.visible then
        let s := dereference h s
        if isInWindow w x y then (h, s) else findWindowIn x y rest s
      else findWindowIn x y rest (noteLeak h s)

def findWindowAt (x y : Int) (s : State) : Handle × State := findWindowIn x y s.list.reverse s

/-- `update_cursor_for_point`, without the cursor. -/
def updateCursorForPoint (x y : Int) (s : State) : State :=
  if s.pointer.resizing then s
  else
    let (hwnd, s) := findWindowAt x y s
    if hwnd = invalidHandle then s else (peek hwnd s).2

def hasVisibleMenuPopup (s : State) : Bool :=
  s.list.any fun h => (peek h s).1.any fun w => w.visible && isMenuPopupWindow w

/-- `window_list[i]`, also beyond `window_count`. -/
def ZOrder.entry (z : ZOrder) (i : Nat) : Handle := (z.list ++ z.rest).getD i 0

/-- One round of a painting loop: the window is sent `WM_PAINT` if it passes the test and is not
minimised. -/
def paintOne (env : Env) (test : Pointer → Handle → Window → Bool) (s : State) (i : Nat) : State :=
  match s.list[i]? with
  | none => s
  | some h =>
    match reference h s with
    | (none, s) => s
    | (some w, s) =>
      let s :=
        if w.visible && test s.pointer h w && !w.minimized then send env h w.wndProc .paint 0 s else s
      dereference (s.entry i) s

/-- A painting loop. `window_count` is never more than `MAX_WINDOWS`. -/
def paintPass (env : Env) (test : Pointer → Handle → Window → Bool) (s : State) : State :=
  (List.range maxWindows).foldl (paintOne env test) s

def paintPasses (env : Env) (test : Pointer → Handle → Window → Bool) (s : State) : State :=
  paintPass env (fun p h w => isMenuPopupWindow w && test p h w)
    (paintPass env (fun p h w => !isMenuPopupWindow w && test p h w) s)

def captionPass (s : State) : State := s.list.foldl (fun s h => (peek h s).2) s

def win32kRedrawAll (env : Env) (s : State) : State :=
  if s.redrawInProgress then s
  else
    let s := paintPasses env (fun _ _ _ => true) { s with redrawInProgress := true }
    { captionPass (captionPass s) with redrawInProgress := false }

def beginFastDrag (env : Env) (hwnd : Handle) (s : State) : State :=
  match reference hwnd s with
  | (none, s) => s
  | (some w, s) =>
    let s := if w.minimized then s else send env hwnd w.wndProc .paint 0 s
    dereference hwnd (s.setPointer fun p => { p with dragPixels := env.kmalloc 2 s })

/-- `fast_drag_present`, for the window at the rectangle `r` that was at `(oldX, oldY)`. -/
def fastDragPresent (env : Env) (r : Window) (oldX oldY : Int) (s : State) : State :=
  let left := min oldX r.x
  let top := min oldY r.y
  let right := max (oldX + r.width) (r.x + r.width)
  let bottom := max (oldY + r.height) (r.y + r.height)
  captionPass (paintPasses env (fun p h other =>
    (decide (h = p.dragWindow) || rectsIntersect other.x other.y other.width other.height
      left top (right - left) (bottom - top)) && (decide (h ≠ p.dragWindow) || !p.dragPixels)) s)

def minimizedSlot (hwnd : Handle) (s : State) : Nat :=
  (s.list.filter fun other => decide (other ≠ hwnd) &&
    (peek other s).1.any fun w => w.visible && w.minimized).length

def layoutMinimizedWindow (env : Env) (hwnd : Handle) (s : State) : State :=
  updWin hwnd (layoutMinimized env (minimizedSlot hwnd s)) s

def minimizeWindow (env : Env) (hwnd : Handle) (w : Window) (s : State) : State :=
  if w.minimized then s
  else
    let s := layoutMinimizedWindow env hwnd (updWin hwnd minimizeFields s)
    if s.pointer.dragWindow = hwnd then
      s.setPointer fun p => { p with dragging := false, dragWindow := invalidHandle }
    else s

def freeSlot (s : State) : Option Handle :=
  (List.range maxObjects).find? fun i => (s.objects i).isNone

def createObject (allocated : Bool) (name : Name) (body : Body) (s : State) :
    Option Handle × State :=
  match freeSlot s with
  | none => (none, s)
  | some i =>
    if allocated then
      let o : Object :=
        { name := Ob.storedName name, refs := 1, counted := Nat.one_pos, body, serial := s.created
          destroyed := false, leaked := 0 }
      (some i, { s with objects := Function.update s.objects i (some o), created := s.created + 1 })
    else (none, s)

def findObject (name : Name) (s : State) : Option Handle :=
  (List.range maxObjects).find? fun i =>
    (s.objects i).any fun o => decide (o.body ≠ .other) && decide (o.name = name)

def win32kRegisterClass (env : Env) (className : Name) (style : Flags) (wndProc : Option Nat)
    (s : State) : Handle × State :=
  if env.kmalloc 0 s then
    let serial := s.created
    match createObject (env.kmalloc 1 s) className
      (.wndClass ⟨className.take 63, style, wndProc⟩) s with
    | (none, s) => (invalidHandle, s)
    | (some h, s) => (h, s.addLog (.registered serial className))
  else (invalidHandle, s)

/-- What `(WNDCLASS*)` of a body reads. A `WINDOW` begins with its title where a `WNDCLASS` has its
name. -/
def Body.asClass (env : Env) : Body → Option WndClass
  | .wndClass c => some c
  | .window w => some ⟨w.title, (env.misread w).1, (env.misread w).2⟩
  | .other => none

def referenceClass (env : Env) (h : Handle) (s : State) : Option WndClass × State :=
  match (s.lookup h).bind fun o => o.body.asClass env with
  | none => (none, s)
  | some c => (some c, s.alter h fun o => some o.take)

def insertWindow (desktop : Bool) (hwnd : Handle) (s : State) : State :=
  if s.list.length < maxWindows then
    { s with
      list := if desktop then hwnd :: s.list else s.list ++ [hwnd]
      rest := s.rest.tail }
  else s

def newWindow (wc : WndClass) (title : Name) (x y w h : Int) (style exstyle : Flags)
    (owner : Handle) : Window :=
  let sized := decide (wc.className ≠ text "Desktop") && decide (wc.className ≠ text "Shell_TrayWnd")
  let w := if sized && decide (w < 96) then 96 else w
  let h := if sized && decide (h < 64) then 64 else h
  { title := title.take 63, x, y, width := w, height := h, restoreX := x, restoreY := y
    restoreWidth := w, restoreHeight := h, style, exstyle, visible := style.has wsVisible
    active := false, minimized := false, maximized := false
    desktop := decide (wc.className = text "Desktop"), owner, bigIcon := 0, smallIcon := 0
    wndClass := wc, wndProc := wc.wndProc }

def win32kCreateWindowByClass (env : Env) (hClass : Handle) (title : Name) (x y w h : Int)
    (style exstyle : Flags) (owner : Handle) (s : State) : Handle × State :=
  if hClass = invalidHandle then (invalidHandle, s)
  else
    match referenceClass env hClass s with
    | (none, s) => (invalidHandle, s)
    | (some wc, s) =>
      if env.kmalloc 0 s then
        let win := newWindow wc title x y w h style exstyle owner
        match createObject (env.kmalloc 1 s) title (.window win) s with
        | (none, s) => (invalidHandle, dereference hClass s)
        | (some hwnd, s) =>
          let s := insertWindow win.desktop hwnd s
          let s := if win.desktop then s else raiseWindow env.fuel hwnd s
          let s := send env hwnd win.wndProc .create 0 s
          (hwnd, dereference hClass s)
      else (invalidHandle, dereference hClass s)

def win32kCreateWindowEx (env : Env) (className title : Name) (x y w h : Int)
    (style exstyle : Flags) (owner : Handle) (s : State) : Handle × State :=
  match findObject className s with
  | none => (invalidHandle, s)
  | some hClass =>
    win32kCreateWindowByClass env hClass title x y w h style exstyle owner
      (s.addLog (.classUsed className (s.serialAt hClass)))

/-- The removal of a window from `window_list`. The last entry stays behind. -/
def removeWindow (hwnd : Handle) (s : State) : State :=
  if hwnd ∈ s.list then
    { s with list := s.list.erase hwnd, rest := s.list.getLastD 0 :: s.rest }
  else s

def win32kDestroyWindow (env : Env) (hwnd : Handle) (s : State) : State :=
  match reference hwnd s with
  | (none, s) => s
  | (some w, s) =>
    let s := (removeWindow hwnd s).alter hwnd fun o => some o.markDestroyed
    let s :=
      if s.activeWindow = hwnd then
        let next := findTopmostVisibleWindow s
        setWindowActive next { s with activeWindow := next }
      else s
    let s := send env hwnd w.wndProc .destroy 0 s
    dereference hwnd (dereference hwnd s)

def doCaptionButtonAction (env : Env) (hwnd : Handle) (w : Window) (hit : CaptionHit) (s : State) :
    State :=
  match hit with
  | .none => s
  | .close =>
    let s := send env hwnd w.wndProc .close 0 s
    match peek hwnd s with
    | (none, s) => s
    | (some _, s) => win32kDestroyWindow env hwnd s
  | .maximize =>
    if w.minimized then updWin hwnd (fun w => maximize env (restoreIfNeeded w)) s
    else if w.maximized then updWin hwnd restore s
    else updWin hwnd (maximize env) s
  | .minimize =>
    if w.minimized then setWindowActive hwnd (updWin hwnd restoreIfNeeded s)
    else
      let s := minimizeWindow env hwnd w s
      setWindowActive (findTopmostVisibleWindow s) s

def win32kActivateWindow (env : Env) (hwnd : Handle) (s : State) : State :=
  if hwnd = invalidHandle then s
  else
    match peek hwnd s with
    | (none, s) => s
    | (some w, s) =>
      if w.exstyle.has wsExNoactivate then s
      else if w.desktop && decide (s.activeWindow ≠ invalidHandle) &&
          decide (s.activeWindow ≠ hwnd) then s
      else setWindowActive hwnd (raiseWindow env.fuel hwnd s)

def win32kShowWindow (env : Env) (hwnd : Handle) (s : State) : State :=
  match reference hwnd s with
  | (none, s) => s
  | (some w, s) =>
    let s := updWin hwnd (fun w => { w with minimized := false, visible := true }) s
    dereference hwnd (if w.desktop then win32kRedrawAll env s else s)

def swHide : Int := 0
def swShownormal : Int := 1
def swShowminimized : Int := 2
def swMinimize : Int := 6
def swRestore : Int := 9

def showFields (command : Int) (w : Window) : Window :=
  let w := { w with visible := true }
  if command = swRestore ∨ command = swShownormal then restoreIfNeeded w else w

def win32kSetWindowShowState (env : Env) (hwnd : Handle) (command : Int) (s : State) : State :=
  match reference hwnd s with
  | (none, s) => s
  | (some w, s) =>
    if command = swHide then
      win32kRedrawAll env (dereference hwnd (updWin hwnd (fun w => { w with visible := false }) s))
    else if command = swMinimize ∨ command = swShowminimized then
      let s := updWin hwnd (fun w => { w with visible := true }) s
      let s := dereference hwnd (minimizeWindow env hwnd w s)
      win32kRedrawAll env (setWindowActive (findTopmostVisibleWindow s) s)
    else
      let s := dereference hwnd (updWin hwnd (showFields command) s)
      win32kRedrawAll env (win32kActivateWindow env hwnd s)

def win32kIsWindowMinimized (hwnd : Handle) (s : State) : Bool × State :=
  ((peek hwnd s).1.any fun w => w.minimized, (peek hwnd s).2)

def win32kUpdateWindow (env : Env) (hwnd : Handle) (s : State) : State :=
  match reference hwnd s with
  | (none, s) => s
  | (some w, s) =>
    let topLevel := w.desktop || decide (w.owner = invalidHandle) || decide (w.owner = 0)
    if topLevel && hasVisibleMenuPopup s then win32kRedrawAll env (dereference hwnd s)
    else
      dereference hwnd (if w.minimized then s else send env hwnd w.wndProc .paint 0 s)

/-- `Win32kGetClientRect`, `Win32kGetClientScreenRect` and `Win32kGetWindowRect`, with what they
store through a pointer that is not null. -/
def win32kGetClientRect (hwnd : Handle) (s : State) : Option Rect × State :=
  ((peek hwnd s).1.map clientRect, (peek hwnd s).2)

def win32kGetClientScreenRect (hwnd : Handle) (s : State) : Option Rect × State :=
  ((peek hwnd s).1.map clientScreenRect, (peek hwnd s).2)

def win32kGetWindowRect (hwnd : Handle) (s : State) : Option Rect × State :=
  ((peek hwnd s).1.map windowRect, (peek hwnd s).2)

def win32kSetWindowIcons (hwnd bigIcon smallIcon : Handle) (s : State) : State :=
  match reference hwnd s with
  | (none, s) => s
  | (some _, s) =>
    dereference hwnd (updWin hwnd (fun w =>
      { w with bigIcon, smallIcon := if smallIcon ≠ 0 then smallIcon else bigIcon }) s)

def win32kSetWindowRect (hwnd : Handle) (x y width height : Int) (s : State) : State :=
  match reference hwnd s with
  | (none, s) => s
  | (some _, s) =>
    dereference hwnd (if 0 < width ∧ 0 < height then
      updWin hwnd (fun w =>
        let w' := { w with x, y, width, height }
        if w.maximized then w' else saveRect w') s
    else s)

def swpNosize : Flags := 0x0001
def swpNomove : Flags := 0x0002
def swpNozorder : Flags := 0x0004
def swpNoactivate : Flags := 0x0010
def swpShowwindow : Flags := 0x0040
def swpHidewindow : Flags := 0x0080

/-- `(HANDLE)(intptr_t)-1` and `(HANDLE)(intptr_t)-2`. -/
def hwndTopmost : Handle := 0xFFFFFFFF
def hwndNotopmost : Handle := 0xFFFFFFFE

/-- What `Win32kSetWindowPos` does to the fields before the list is changed. -/
def placeFields (x y width height : Int) (flags : Flags) (w : Window) : Window :=
  let w := if flags.has swpNomove then w else { w with x, y }
  let w :=
    if !flags.has swpNosize && decide (0 < width) && decide (0 < height) then
      let w' := { w with width, height }
      if w.maximized then w' else { w' with restoreWidth := width, restoreHeight := height }
    else w
  let w := if flags.has swpHidewindow then { w with visible := false } else w
  if flags.has swpShowwindow then { w with visible := true } else w

def topmostFields (insertAfter : Handle) (w : Window) : Window :=
  if insertAfter = hwndTopmost then { w with exstyle := w.exstyle ||| wsExTopmost }
  else if insertAfter = hwndNotopmost then { w with exstyle := w.exstyle &&& ~~~wsExTopmost }
  else w

def win32kSetWindowPos (env : Env) (hwnd insertAfter : Handle) (x y width height : Int)
    (flags : Flags) (s : State) : Bool × State :=
  match reference hwnd s with
  | (none, s) => (false, s)
  | (some w, s) =>
    let s := updWin hwnd (placeFields x y width height flags) s
    let s :=
      if !flags.has swpNozorder && decide (insertAfter ≠ invalidHandle) then
        raiseWindow env.fuel hwnd (updWin hwnd (topmostFields insertAfter) s)
      else s
    let s :=
      if !flags.has swpNoactivate && !w.exstyle.has wsExNoactivate then setWindowActive hwnd s
      else s
    (true, win32kRedrawAll env (dereference hwnd s))

def win32kSetColorPreview (env : Env) (s : State) : State := win32kRedrawAll env s

def win32kHandleMouseDown (env : Env) (x y : Int) (button : Nat) (s : State) : State :=
  if button ≠ 1 then s
  else
    let (hwnd, s) := findWindowAt x y s
    if hwnd = invalidHandle then s
    else
      match reference hwnd s with
      | (none, s) => s
      | (some w, s) =>
        let s :=
          if !w.desktop && !w.exstyle.has wsExNoactivate then
            setWindowActive hwnd (raiseWindow env.fuel hwnd s)
          else s
        if hitCaptionButton w x y ≠ .none then
          let s := s.setPointer fun p =>
            { p with
              captionPressHit := hitCaptionButton w x y
              captionPressWin := some (s.serialAt hwnd)
              captionPressHwnd := hwnd }
          win32kRedrawAll env (dereference hwnd s)
        else if hitResizeEdge w x y ≠ .none then
          let s := s.setPointer fun p =>
            { p with
              resizing := true, resizeWindow := hwnd, resizeEdge := hitResizeEdge w x y
              resizeStartMouseX := x, resizeStartMouseY := y, resizeStartX := w.x
              resizeStartY := w.y, resizeStartWidth := w.width, resizeStartHeight := w.height
              resizeSerial := s.serialAt hwnd }
          win32kRedrawAll env (dereference hwnd s)
        else if isTitleBar w x y then
          let s := s.setPointer fun p =>
            { p with
              dragging := true, dragWindow := hwnd, dragOffsetX := x - w.x
              dragOffsetY := y - w.y, dragSerial := s.serialAt hwnd }
          dereference hwnd (beginFastDrag env hwnd s)
        else
          dereference hwnd (if inClient w x y then
            send env hwnd w.wndProc .lButtonDown (clientLParam w x y) s else s)

def sendToPoint (env : Env) (msg : Msg) (x y : Int) (s : State) : State :=
  let (hwnd, s) := findWindowAt x y s
  if hwnd = invalidHandle then s
  else
    match reference hwnd s with
    | (none, s) => s
    | (some w, s) =>
      dereference hwnd (if inClient w x y then
        send env hwnd w.wndProc msg (clientLParam w x y) s else s)

def Pointer.clearCaption (p : Pointer) : Pointer :=
  { p with captionPressHit := .none, captionPressWin := none, captionPressHwnd := invalidHandle }

def Pointer.endDrag (p : Pointer) : Pointer :=
  { p with dragging := false, dragWindow := invalidHandle, dragPixels := false }

def Pointer.endResize (p : Pointer) : Pointer :=
  { p with resizing := false, resizeWindow := invalidHandle, resizeEdge := .none }

def win32kHandleMouseUp (env : Env) (x y : Int) (button : Nat) (s : State) : State :=
  if button ≠ 1 then s
  else if s.pointer.captionPressHwnd ≠ invalidHandle then
    let hw := s.pointer.captionPressHwnd
    let hit := s.pointer.captionPressHit
    let s :=
      match reference hw s with
      | (none, s) => s.setPointer .clearCaption
      | (some w, s) =>
        let s := s.setPointer .clearCaption
        dereference hw (if w.visible && decide (hitCaptionButton w x y = hit) then
          doCaptionButtonAction env hw w hit s else s)
    win32kRedrawAll env s
  else
    let s := if s.pointer.dragging then s.setPointer .endDrag else s
    let s := if s.pointer.resizing then s.setPointer .endResize else s
    updateCursorForPoint x y (sendToPoint env .lButtonUp x y s)

def paintResized (env : Env) (r : Window) (s : State) : State :=
  let p := s.pointer
  let left := min p.resizeStartX r.x
  let top := min p.resizeStartY r.y
  let right := max (p.resizeStartX + p.resizeStartWidth) (r.x + r.width)
  let bottom := max (p.resizeStartY + p.resizeStartHeight) (r.y + r.height)
  captionPass (paintPasses env (fun _ _ other =>
    rectsIntersect other.x other.y other.width other.height left top (right - left)
      (bottom - top)) s)

def win32kHandleMouseMove (env : Env) (x y : Int) (s : State) : State :=
  if s.pointer.resizing && decide (s.pointer.resizeWindow ≠ invalidHandle) then
    match reference s.pointer.resizeWindow s with
    | (none, s) => s.setPointer .endResize
    | (some w, s) =>
      let p := s.pointer
      let s := updWin p.resizeWindow (resizeFields env p x y) s
      let s := paintResized env (resizeFields env p x y w) (updateCursorForPoint x y s)
      dereference s.pointer.resizeWindow s
  else
    let s := updateCursorForPoint x y (sendToPoint env .mouseMove x y s)
    if !s.pointer.dragging || decide (s.pointer.dragWindow = invalidHandle) then s
    else
      match reference s.pointer.dragWindow s with
      | (none, s) => s.setPointer fun p => { p with dragging := false }
      | (some w, s) =>
        let new := draggedTo env s.pointer w x y
        let s :=
          if new.1 ≠ w.x ∨ new.2 ≠ w.y then
            fastDragPresent env (dragFields new.1 new.2 w) w.x w.y
              (updWin s.pointer.dragWindow (dragFields new.1 new.2) s)
          else s
        dereference s.pointer.dragWindow s

/-! ## Calls -/

inductive Call where
  | registerClass (className : Name) (style : Flags) (wndProc : Option Nat)
  | createWindowByClass (hClass : Handle) (title : Name) (x y w h : Int) (style exstyle : Flags)
      (owner : Handle)
  | createWindowEx (className title : Name) (x y w h : Int) (style exstyle : Flags)
      (owner : Handle)
  | destroyWindow (hwnd : Handle)
  | showWindow (hwnd : Handle)
  | setWindowShowState (hwnd : Handle) (command : Int)
  | isWindowMinimized (hwnd : Handle)
  | updateWindow (hwnd : Handle)
  | getClientRect (hwnd : Handle)
  | getClientScreenRect (hwnd : Handle)
  | getWindowRect (hwnd : Handle)
  | activateWindow (hwnd : Handle)
  | setWindowIcons (hwnd bigIcon smallIcon : Handle)
  | setWindowRect (hwnd : Handle) (x y width height : Int)
  | setWindowPos (hwnd insertAfter : Handle) (x y width height : Int) (flags : Flags)
  | handleMouseDown (x y : Int) (button : Nat)
  | handleMouseUp (x y : Int) (button : Nat)
  | handleMouseMove (x y : Int)
  | redrawAll
  | setColorPreview
  /-- Another component creates an object in the free slot, or frees its object there. -/
  | other (slot : Handle)

def otherObject (serial : Nat) : Object :=
  { name := [], refs := 1, counted := Nat.one_pos, body := .other, serial, destroyed := false
    leaked := 0 }

def toggleOther (slot : Handle) (s : State) : State :=
  match s.objects slot with
  | none =>
    { s with
      objects := Function.update s.objects slot (some (otherObject s.created))
      created := s.created + 1 }
  | some o =>
    if o.body = .other then { s with objects := Function.update s.objects slot none } else s

def exec (env : Env) : Call → State → State
  | .registerClass className style wndProc, s =>
    (win32kRegisterClass env className style wndProc s).2
  | .createWindowByClass hClass title x y w h style exstyle owner, s =>
    (win32kCreateWindowByClass env hClass title x y w h style exstyle owner s).2
  | .createWindowEx className title x y w h style exstyle owner, s =>
    (win32kCreateWindowEx env className title x y w h style exstyle owner s).2
  | .destroyWindow hwnd, s => win32kDestroyWindow env hwnd s
  | .showWindow hwnd, s => win32kShowWindow env hwnd s
  | .setWindowShowState hwnd command, s => win32kSetWindowShowState env hwnd command s
  | .isWindowMinimized hwnd, s => (win32kIsWindowMinimized hwnd s).2
  | .updateWindow hwnd, s => win32kUpdateWindow env hwnd s
  | .getClientRect hwnd, s => (win32kGetClientRect hwnd s).2
  | .getClientScreenRect hwnd, s => (win32kGetClientScreenRect hwnd s).2
  | .getWindowRect hwnd, s => (win32kGetWindowRect hwnd s).2
  | .activateWindow hwnd, s => win32kActivateWindow env hwnd s
  | .setWindowIcons hwnd bigIcon smallIcon, s => win32kSetWindowIcons hwnd bigIcon smallIcon s
  | .setWindowRect hwnd x y width height, s => win32kSetWindowRect hwnd x y width height s
  | .setWindowPos hwnd insertAfter x y width height flags, s =>
    (win32kSetWindowPos env hwnd insertAfter x y width height flags s).2
  | .handleMouseDown x y button, s => win32kHandleMouseDown env x y button s
  | .handleMouseUp x y button, s => win32kHandleMouseUp env x y button s
  | .handleMouseMove x y, s => win32kHandleMouseMove env x y s
  | .redrawAll, s => win32kRedrawAll env s
  | .setColorPreview, s => win32kSetColorPreview env s
  | .other slot, s => toggleOther slot s

/-- The statics after `Win32kInit`, whatever objects other components have by then. -/
structure Started (s : State) : Prop where
  objects : ∀ h o, s.objects h = some o → o.body = .other
  list : s.list = []
  stray : s.stray = []
  activeWindow : s.activeWindow = invalidHandle
  redrawInProgress : s.redrawInProgress = false
  pointer : s.pointer = .init
  log : s.log = []

end DiscouNT.Win32k
