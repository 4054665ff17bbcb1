import DiscouNT.Csrss.Session
import DiscouNT.Win32k.Manager

/-!
# Csrss.Input

The input of the session loop of `win32/csrss/csrss.c`: what it does with one state of the mouse and
with one key, the lock screen and the secure attention sequence.

* A mouse event is what `MouseGetState` gives after a byte of the controller, a key event is what
  `KeyboardPollEvent` gives.
* The handlers of applications, the functions found in `user32` and `msgina` and the window
  procedures of applications are functions of the environment: they may do anything to the session.
* `delivered` is no field of the code. It records what was handed to a handler or to `user32`.
* Drawing, the cursor and the serial line are left out.
-/

namespace DiscouNT.Csrss

open Win32k (Message Window)

/-- The fields of `GUI_APP_INSTANCE` that input goes by, with numbers for the handlers. -/
structure InputApp where
  pid : Nat
  window : Handle
  kind : GuiAppKind
  handleKey : Option Nat
  handleMouse : Option Nat
deriving DecidableEq, Repr

inductive SessionState where
  | booting | loggedOn | locked | loggingOff | shuttingDown
deriving DecidableEq, Repr

structure MouseState where
  x : Int
  y : Int
  buttons : UInt8
  wheelDelta : Int8
deriving DecidableEq, Repr

def left (buttons : UInt8) : Bool := buttons &&& 1 != 0

structure KeyboardEvent where
  scancode : UInt8
  ascii : UInt8
  pressed : Bool
  ctrl : Bool
  alt : Bool
  extended : Bool
deriving DecidableEq, Repr

inductive GuiMouse where
  | move | lDown | lUp | wheel
deriving DecidableEq, Repr

inductive Delivery where
  /-- `app->handle_mouse(x, y, buttons, event_type)`. -/
  | mouse (pid : Nat) (x y : Int) (buttons : UInt8) (event : GuiMouse)
  /-- `app->handle_key(scancode, ascii, pressed)`. -/
  | key (pid : Nat) (scancode ascii : UInt8) (pressed : Bool)
  /-- `g_user32_inject_keyboard`, `g_user32_inject_mouse` and `g_user32_post_message`. -/
  | injectedKey (hwnd : Handle) (key : Nat) (pressed : Bool)
  | injectedMouse (hwnd : Handle) (msg wParam lParam : Nat)
  | posted (hwnd : Handle) (msg wParam lParam : Nat)
deriving DecidableEq, Repr

/-- The statics of `csrss.c` that input reads and writes, the locals of the session loop and the
window manager. -/
structure InputState where
  win32k : Win32k.State
  apps : List InputApp
  sessionState : SessionState
  currentGuiPid : Nat
  mouseCapture : Handle
  sessionClass : Handle
  lockWindow : Handle
  logonWindow : Handle
  logonField : Bool
  logonUser : Name
  logonPassword : Name
  running : Bool
  lastX : Int
  lastY : Int
  lastButtons : UInt8
  lastWheel : Int8
  delivered : List Delivery

/-- `csrss_lock_wndproc` and `csrss_logon_wndproc`, as far as the window manager sees them: both draw
and answer nothing but `WM_PAINT` and `WM_DESTROY`. -/
def csrssLockWndproc (m : Message) (w : Win32k.State) : Win32k.State :=
  if m.msg = .paint then (Win32k.peek m.hwnd w).2 else w

def csrssLogonWndproc (m : Message) (w : Win32k.State) : Win32k.State :=
  if m.msg = .paint then (Win32k.peek m.hwnd w).2 else w

/-- What the session loop runs in. `lockProc` and `logonProc` number the procedures of `csrss.c`
itself. -/
structure InputEnv where
  win : Win32k.Env
  lockProc : Nat
  logonProc : Nat
  lockProc_spec : win.proc lockProc = csrssLockWndproc
  logonProc_spec : win.proc logonProc = csrssLogonWndproc
  handleMouse : Nat → Int → Int → UInt8 → GuiMouse → InputState → InputState
  handleKey : Nat → UInt8 → UInt8 → Bool → InputState → InputState
  postMessage : Option (Handle → Nat → Nat → Nat → InputState → InputState)
  findTopLevelWindow : Option (Nat → InputState → Handle)
  injectKeyboard : Option (Handle → Nat → Bool → InputState → InputState)
  injectMouse : Option (Handle → Nat → Nat → Nat → InputState → InputState)
  wlxLoggedOnSas : Option (InputState → InputState)
  wlxDisplaySasNotice : Option (InputState → InputState)

namespace InputState

def deliver (d : Delivery) (s : InputState) : InputState := { s with delivered := d :: s.delivered }

/-- Whether `WM_DESTROY` went to a window of that procedure since `w`. -/
def destroyed (proc : Nat) (w w' : Win32k.State) : Bool :=
  (w'.log.take (w'.log.length - w.log.length)).any fun
    | .sent _ m => decide (m.msg = .destroy) && (w.win m.hwnd).any fun win => win.wndProc == some proc
    | _ => false

/-- A call of the window manager. The procedures of `csrss.c` forget their window when it is
destroyed. -/
def call (env : InputEnv) (f : Win32k.State → Win32k.State) (s : InputState) : InputState :=
  let w := f s.win32k
  { s with
    win32k := w
    lockWindow := if destroyed env.lockProc s.win32k w then invalidHandle else s.lockWindow
    logonWindow := if destroyed env.logonProc s.win32k w then invalidHandle else s.logonWindow }

def activeWindow (s : InputState) : Handle := s.win32k.activeWindow

def mouseTarget (s : InputState) : Handle :=
  if s.mouseCapture ≠ invalidHandle then s.mouseCapture else s.activeWindow

end InputState

open InputState

def csrssFindAppByWindow (hwnd : Handle) (s : InputState) : Option InputApp :=
  s.apps.find? fun app => app.window == hwnd

def csrssTranslateKeyWparam (e : KeyboardEvent) : Nat :=
  if e.scancode = 0x0E then 0x08
  else if e.scancode = 0x0F then 0x09
  else if e.scancode = 0x1C then 0x0D
  else if e.scancode = 0x01 then 0x1B
  else if e.scancode = 0x39 then 0x20
  else e.ascii.toNat

def wmKeydown : Nat := 0x0100
def wmKeyup : Nat := 0x0101
def wmMousemove : Nat := 0x0200
def wmLbuttondown : Nat := 0x0201
def wmLbuttonup : Nat := 0x0202
def wmMousewheel : Nat := 0x020A
def mkLbutton : Nat := 0x0001

def makeLParam (l h : Int) : Nat := (l % 65536).toNat + 65536 * (h % 65536).toNat

def clientLeft (w : Window) : Int := w.x + if w.style.has Win32k.wsCaption then 3 else 2

def clientTop (w : Window) : Int := w.y + if w.style.has Win32k.wsCaption then 21 else 2

def inClientArea (w : Window) (x y : Int) : Bool :=
  decide (clientLeft w ≤ x) && decide (x < w.x + w.width - 3) && decide (clientTop w ≤ y) &&
    decide (y < w.y + w.height - 3)

def csrssPostStandardMessage (env : InputEnv) (hwnd : Handle) (msg wParam lParam : Nat)
    (s : InputState) : InputState :=
  match env.postMessage with
  | none => s
  | some post =>
    if hwnd = invalidHandle then s
    else post hwnd msg wParam lParam (s.deliver (.posted hwnd msg wParam lParam))

def csrssInjectLogonMouse (env : InputEnv) (hwnd : Handle) (msg wParam lParam : Nat)
    (s : InputState) : InputState :=
  match env.injectMouse with
  | none => csrssPostStandardMessage env hwnd msg wParam lParam s
  | some inject => inject hwnd msg wParam lParam (s.deliver (.injectedMouse hwnd msg wParam lParam))

def csrssPostLogonMouse (env : InputEnv) (msg wParam : Nat) (x y : Int) (s : InputState) :
    InputState :=
  if s.sessionState ≠ .booting ∨ env.postMessage.isNone then s
  else
    let hwnd :=
      match env.findTopLevelWindow with
      | some find => find 1 s
      | none => s.activeWindow
    if hwnd = invalidHandle then s
    else
      match Win32k.reference hwnd s.win32k with
      | (none, _) => s
      | (some w, win32k) =>
        let s := { s with win32k }
        let s :=
          if w.minimized then s
          else csrssInjectLogonMouse env hwnd msg wParam
            (makeLParam (x - clientLeft w) (y - clientTop w)) s
        s.call env (Win32k.dereference hwnd)

def callHandleMouse (env : InputEnv) (app : InputApp) (handler : Nat) (x y : Int) (buttons : UInt8)
    (event : GuiMouse) (s : InputState) : InputState :=
  let s := { s with currentGuiPid := app.pid }.deliver (.mouse app.pid x y buttons event)
  { env.handleMouse handler x y buttons event s with currentGuiPid := 0 }

def callHandleKey (env : InputEnv) (app : InputApp) (handler : Nat) (e : KeyboardEvent)
    (s : InputState) : InputState :=
  let s := { s with currentGuiPid := app.pid }.deliver (.key app.pid e.scancode e.ascii e.pressed)
  { env.handleKey handler e.scancode e.ascii e.pressed s with currentGuiPid := 0 }

def InputApp.mouseHandler (app : InputApp) : Option Nat :=
  if app.kind = .custom then app.handleMouse else none

def postUnclaimed (env : InputEnv) (app : Option InputApp) (msg wParam : Nat) (m : MouseState)
    (s : InputState) : InputState :=
  if s.sessionState = .booting ∧ app.isNone then csrssPostLogonMouse env msg wParam m.x m.y s else s

def mouseListener (hwnd : Handle) (s : InputState) : Option (InputApp × Nat) :=
  (csrssFindAppByWindow hwnd s).bind fun app => app.mouseHandler.map fun handler => (app, handler)

def mkButtons (buttons : UInt8) : Nat := if left buttons then mkLbutton else 0

def mouseMoved (env : InputEnv) (m : MouseState) (s : InputState) : InputState :=
  if m.x ≠ s.lastX ∨ m.y ≠ s.lastY then
    let s := s.call env (Win32k.win32kHandleMouseMove env.win m.x m.y)
    let hwnd := s.mouseTarget
    let s : InputState :=
      match mouseListener hwnd s with
      | some (app, handler) =>
        match Win32k.reference hwnd s.win32k with
        | (none, _) => s
        | (some w, win32k) =>
          let s := { s with win32k }
          let s :=
            if w.minimized then s
            else callHandleMouse env app handler (m.x - clientLeft w) (m.y - clientTop w) m.buttons
              .move s
          s.call env (Win32k.dereference hwnd)
      | none =>
        if s.sessionState = .booting then
          csrssPostLogonMouse env wmMousemove (mkButtons m.buttons) m.x m.y s
        else s
    { s with lastX := m.x, lastY := m.y }
  else s

def mouseWheel (env : InputEnv) (m : MouseState) (s : InputState) : InputState :=
  if m.wheelDelta ≠ s.lastWheel then
    let hwnd := s.mouseTarget
    let app := csrssFindAppByWindow hwnd s
    let listener := mouseListener hwnd s
    let wParam := (m.wheelDelta.toInt % 4294967296).toNat
    let s : InputState :=
      match Win32k.reference hwnd s.win32k with
      | (none, _) => postUnclaimed env app wmMousewheel wParam m s
      | (some w, win32k) =>
        let s := { s with win32k }
        let s :=
          match listener with
          | some (app, handler) =>
            if w.minimized then s
            else callHandleMouse env app handler (m.x - clientLeft w) (m.y - clientTop w)
              m.wheelDelta.toUInt8 .wheel s
          | none => s
        (postUnclaimed env app wmMousewheel wParam m s).call env (Win32k.dereference hwnd)
    { s with lastWheel := m.wheelDelta }
  else s

/-- A loop over `g_gui_apps` up to the entry of the window. The body runs with a reference to it. -/
def forApp (env : InputEnv) (hwnd : Handle) (body : InputApp → Window → InputState → InputState)
    (s : InputState) : InputState :=
  match csrssFindAppByWindow hwnd s with
  | none => s
  | some app =>
    match Win32k.reference hwnd s.win32k with
    | (none, _) => s
    | (some w, win32k) =>
      (body app w { s with win32k }).call env (Win32k.dereference hwnd)

def pressTarget (env : InputEnv) (s : InputState) : Handle :=
  match env.findTopLevelWindow with
  | some find => if s.sessionState = .booting then find 1 s else s.activeWindow
  | none => s.activeWindow

def pressApp (env : InputEnv) (m : MouseState) (hwnd : Handle) (app : InputApp) (w : Window)
    (s : InputState) : InputState :=
  if !w.minimized && (decide (s.mouseCapture = hwnd) || inClientArea w m.x m.y) then
    match app.mouseHandler with
    | none => s
    | some handler =>
      { callHandleMouse env app handler (m.x - clientLeft w) (m.y - clientTop w) m.buttons .lDown
          s with mouseCapture := hwnd }
  else s

def mousePressed (env : InputEnv) (m : MouseState) (s : InputState) : InputState :=
  if left m.buttons && !left s.lastButtons then
    let s := s.call env (Win32k.win32kHandleMouseDown env.win m.x m.y 1)
    let hwnd := pressTarget env s
    let s := forApp env hwnd (pressApp env m hwnd) s
    postUnclaimed env (csrssFindAppByWindow hwnd s) wmLbuttondown mkLbutton m s
  else s

def releaseApp (env : InputEnv) (m : MouseState) (hwnd : Handle) (app : InputApp) (w : Window)
    (s : InputState) : InputState :=
  let s :=
    if !w.minimized && inClientArea w m.x m.y then
      match app.mouseHandler with
      | none => s
      | some handler =>
        callHandleMouse env app handler (m.x - clientLeft w) (m.y - clientTop w) m.buttons .lUp s
    else s
  if s.mouseCapture = hwnd then { s with mouseCapture := invalidHandle } else s

def mouseReleased (env : InputEnv) (m : MouseState) (s : InputState) : InputState :=
  if !left m.buttons && left s.lastButtons then
    let s := s.call env (Win32k.win32kHandleMouseUp env.win m.x m.y 1)
    let hwnd := s.mouseTarget
    let s := forApp env hwnd (releaseApp env m hwnd) s
    postUnclaimed env (csrssFindAppByWindow hwnd s) wmLbuttonup 0 m s
  else s

def handleMouseEvent (env : InputEnv) (m : MouseState) (s : InputState) : InputState :=
  let s := mouseReleased env m (mousePressed env m (mouseWheel env m (mouseMoved env m s)))
  { s with lastButtons := m.buttons }

def csrssCompleteLogon (env : InputEnv) (s : InputState) : InputState :=
  if s.sessionState ≠ .booting then s
  else
    let s := { s with sessionState := .loggedOn }
    let s :=
      if s.logonWindow ≠ invalidHandle then
        { s.call env (Win32k.win32kDestroyWindow env.win s.logonWindow) with
          logonWindow := invalidHandle }
      else s
    s.call env (Win32k.win32kRedrawAll env.win)

def editField (f : Name → Name) (s : InputState) : InputState :=
  if s.logonField then { s with logonPassword := f s.logonPassword }
  else { s with logonUser := f s.logonUser }

def csrssHandleLogonKey (env : InputEnv) (e : KeyboardEvent) (s : InputState) : InputState :=
  if !e.pressed then s
  else if e.scancode = 0x0F then
    { s with logonField := !s.logonField }.call env (Win32k.win32kRedrawAll env.win)
  else if e.scancode = 0x1C then csrssCompleteLogon env s
  else
    let s :=
      if e.scancode = 0x0E then editField List.dropLast s
      else if 32 ≤ e.ascii ∧ e.ascii < 127 then
        editField (fun field => if field.length < 31 then field ++ [e.ascii] else field) s
      else s
    s.call env (Win32k.win32kRedrawAll env.win)

def csrssShowLockScreen (env : InputEnv) (s : InputState) : InputState :=
  if s.lockWindow ≠ invalidHandle then s
  else
    let s :=
      if s.sessionClass = invalidHandle then
        { s.call env (fun w => (Win32k.win32kRegisterClass env.win (Win32k.text "CsrssLockScreen") 0
            (some env.lockProc) w).2) with
          sessionClass := (Win32k.win32kRegisterClass env.win (Win32k.text "CsrssLockScreen") 0
            (some env.lockProc) s.win32k).1 }
      else s
    if s.sessionClass = invalidHandle then s
    else
      let create := Win32k.win32kCreateWindowByClass env.win s.sessionClass
        (Win32k.text "Windows Security") 0 0 env.win.fbWidth env.win.fbHeight Win32k.wsVisible 0
        invalidHandle
      let hwnd := (create s.win32k).1
      let s := { s.call env (fun w => (create w).2) with lockWindow := hwnd }
      if hwnd ≠ invalidHandle then
        let s := s.call env (Win32k.win32kActivateWindow env.win hwnd)
        let s := s.call env (Win32k.win32kShowWindow env.win s.lockWindow)
        s.call env (Win32k.win32kRedrawAll env.win)
      else s

def csrssHideLockScreen (env : InputEnv) (s : InputState) : InputState :=
  let s :=
    if s.lockWindow ≠ invalidHandle then
      { s.call env (Win32k.win32kDestroyWindow env.win s.lockWindow) with
        lockWindow := invalidHandle }
    else s
  let s :=
    match s.apps with
    | [] => s
    | app :: _ =>
      if app.window ≠ invalidHandle then
        s.call env (Win32k.win32kActivateWindow env.win app.window)
      else s
  s.call env (Win32k.win32kRedrawAll env.win)

def csrssSessionLock (env : InputEnv) (s : InputState) : InputState :=
  if s.sessionState ≠ .loggedOn then s
  else
    let s := { s with sessionState := .locked }
    let s := (env.wlxLoggedOnSas.getD id) s
    csrssShowLockScreen env ((env.wlxDisplaySasNotice.getD id) s)

def csrssSessionUnlock (env : InputEnv) (s : InputState) : InputState :=
  if s.sessionState ≠ .locked then s
  else csrssHideLockScreen env { s with sessionState := .loggedOn }

def csrssHandleSecureAttention (env : InputEnv) (s : InputState) : InputState :=
  if s.sessionState = .loggedOn then csrssSessionLock env s
  else if s.sessionState = .locked then csrssSessionUnlock env s
  else s

def KeyboardEvent.secureAttention (e : KeyboardEvent) : Bool :=
  e.pressed && e.extended && e.scancode == 0x53 && e.ctrl && e.alt

def sendKey (env : InputEnv) (hwnd : Handle) (e : KeyboardEvent) (s : InputState) : InputState :=
  let key := csrssTranslateKeyWparam e
  match env.injectKeyboard with
  | some inject => inject hwnd key e.pressed (s.deliver (.injectedKey hwnd key e.pressed))
  | none =>
    csrssPostStandardMessage env hwnd (if e.pressed then wmKeydown else wmKeyup) key
      e.scancode.toNat s

def handleKeyEvent (env : InputEnv) (e : KeyboardEvent) (s : InputState) : InputState :=
  if s.sessionState = .booting ∧ s.logonWindow ≠ invalidHandle then csrssHandleLogonKey env e s
  else if e.secureAttention then csrssHandleSecureAttention env s
  else if s.sessionState = .locked then s
  else
    let s := if e.pressed && e.scancode == 0x01 then { s with running := false } else s
    let hwnd := s.activeWindow
    let s :=
      match csrssFindAppByWindow hwnd s with
      | some app =>
        match app.kind, app.handleKey with
        | .custom, some handler => callHandleKey env app handler e s
        | .custom, none => s
        | _, _ => if csrssTranslateKeyWparam e ≠ 0 then sendKey env hwnd e s else s
      | none =>
        if hwnd ≠ invalidHandle ∧ csrssTranslateKeyWparam e ≠ 0 then sendKey env hwnd e s else s
    if e.pressed && decide (hwnd ≠ invalidHandle) then
      s.call env (Win32k.win32kUpdateWindow env.win hwnd)
    else s

/-! ## Runs -/

inductive InputEvent where
  | mouse (m : MouseState)
  | key (e : KeyboardEvent)
deriving DecidableEq, Repr

def handleEvent (env : InputEnv) : InputEvent → InputState → InputState
  | .mouse m, s => handleMouseEvent env m s
  | .key e, s => handleKeyEvent env e s

def handleEvents (env : InputEnv) (events : List InputEvent) (s : InputState) : InputState :=
  events.foldl (fun s e => handleEvent env e s) s

@[simp] theorem handleEvents_cons (env : InputEnv) (e : InputEvent) (events : List InputEvent)
    (s : InputState) :
    handleEvents env (e :: events) s = handleEvents env events (handleEvent env e s) := rfl

end DiscouNT.Csrss
