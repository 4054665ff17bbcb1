import DiscouNT.Ob.Object

/-!
# Win32k.Window

The data of the window manager of `win32/w32k`: classes, windows, the objects that hold them and
the statics of `w32k.c`.

* The object table is the one of `kernel/ob` as far as the window manager uses it. A body stands in
  its object instead of behind a pointer, and a reference count is at least one as long as the
  object exists.
* An object of another component only occupies a slot; its handle is not passed for a window's.
* `serial`, `destroyed`, `leaked` and `created`, the serials of the pointer state and the log are
  no fields of the code. They number the objects, mark the windows that `Win32kDestroyWindow` was
  called for, count the references `find_window_at` does not give back, remember which window a
  gesture began on and record the messages.
* Coordinates are unbounded: the sums of the code are meant to stay in an `int`.
-/

namespace DiscouNT.Win32k

abbrev Handle := Nat
abbrev Name := Ob.Name
abbrev Flags := BitVec 32

def invalidHandle : Handle := Ob.invalidHandle
def maxObjects : Nat := Ob.maxObjects
def maxWindows : Nat := 32

def titlebarHeight : Int := 18
def frameThickness : Int := 2
def buttonSize : Int := 17
def buttonMargin : Int := 1
def iconBoxSize : Int := 14
def minimizedWidth : Int := 180

def wsVisible : Flags := 0x10000000
def wsCaption : Flags := 0x00C00000
def wsSysmenu : Flags := 0x00080000
def wsThickframe : Flags := 0x00040000
def wsMinimizebox : Flags := 0x00020000
def wsMaximizebox : Flags := 0x00010000
def wsBorder : Flags := 0x00800000
def wsDlgframe : Flags := 0x00400000
def wsExTopmost : Flags := 0x00000008
def wsExNoactivate : Flags := 0x08000000
def wsExClientedge : Flags := 0x00000200

def text (s : String) : Name := s.toList.map fun c => UInt8.ofNat c.toNat

def Flags.has (flags mask : Flags) : Bool := flags &&& mask != 0

inductive Msg where
  | create | destroy | close | paint | mouseMove | lButtonDown | lButtonUp
deriving DecidableEq, Repr

structure Message where
  hwnd : Handle
  msg : Msg
  lParam : Nat
deriving DecidableEq, Repr

structure WndClass where
  className : Name
  style : Flags
  wndProc : Option Nat
deriving DecidableEq, Repr

structure Window where
  title : Name
  x : Int
  y : Int
  width : Int
  height : Int
  restoreX : Int
  restoreY : Int
  restoreWidth : Int
  restoreHeight : Int
  style : Flags
  exstyle : Flags
  visible : Bool
  active : Bool
  minimized : Bool
  maximized : Bool
  desktop : Bool
  owner : Handle
  bigIcon : Handle
  smallIcon : Handle
  wndClass : WndClass
  wndProc : Option Nat
deriving DecidableEq, Repr

inductive Body where
  | wndClass (c : WndClass)
  | window (w : Window)
  | other
deriving DecidableEq, Repr

def Body.window? : Body → Option Window
  | .window w => some w
  | _ => none

def Body.mapWindow (f : Window → Window) : Body → Body
  | .window w => .window (f w)
  | b => b

structure Object where
  name : Name
  refs : Nat
  counted : 0 < refs
  body : Body
  serial : Nat
  destroyed : Bool
  leaked : Nat
deriving DecidableEq, Repr

structure Edge where
  left : Bool
  right : Bool
  top : Bool
  bottom : Bool
deriving DecidableEq, Repr

def Edge.none : Edge := ⟨false, false, false, false⟩

inductive CaptionHit where
  | none | minimize | maximize | close
deriving DecidableEq, Repr

/-- The drag, resize and caption state. `captionPressWin` is the serial of the window that the
pointer of the code points to, `dragPixels` whether `drag_pixels` is there; `dragSerial` and `resizeSerial` are those of the windows dragged and
resized. -/
structure Pointer where
  dragging : Bool
  dragWindow : Handle
  dragOffsetX : Int
  dragOffsetY : Int
  dragPixels : Bool
  resizing : Bool
  resizeWindow : Handle
  resizeEdge : Edge
  resizeStartMouseX : Int
  resizeStartMouseY : Int
  resizeStartX : Int
  resizeStartY : Int
  resizeStartWidth : Int
  resizeStartHeight : Int
  captionPressHit : CaptionHit
  captionPressHwnd : Handle
  captionPressWin : Option Nat
  dragSerial : Nat
  resizeSerial : Nat
deriving DecidableEq, Repr

def Pointer.init : Pointer :=
  { dragging := false, dragWindow := invalidHandle, dragOffsetX := 0, dragOffsetY := 0
    dragPixels := false
    resizing := false, resizeWindow := invalidHandle, resizeEdge := .none
    resizeStartMouseX := 0, resizeStartMouseY := 0, resizeStartX := 0, resizeStartY := 0
    resizeStartWidth := 0, resizeStartHeight := 0, captionPressHit := .none
    captionPressHwnd := invalidHandle, captionPressWin := none, dragSerial := 0, resizeSerial := 0 }

inductive Event where
  /-- The procedure of the window with that serial was called. -/
  | sent (serial : Nat) (m : Message)
  /-- `Win32kRegisterClass` made the object with that serial for the name. -/
  | registered (serial : Nat) (name : Name)
  /-- `Win32kCreateWindowEx` was asked for a class and went on with the object of that serial. -/
  | classUsed (name : Name) (serial : Nat)
deriving DecidableEq, Repr

/-- `window_list` up to `window_count`, the entries from there on, and the indices among those that
were written. -/
structure ZOrder where
  list : List Handle
  rest : List Handle
  stray : List Nat
deriving DecidableEq, Repr

/-- The statics of `w32k.c` and the object table. `hung` says that a raise did not come to its
end. -/
structure State extends ZOrder where
  objects : Handle → Option Object
  created : Nat
  hung : Bool
  activeWindow : Handle
  redrawInProgress : Bool
  pointer : Pointer
  log : List Event

/-- What the window manager runs in: the screen, the window procedures, whether a `kmalloc`
succeeds, and how far a loop is followed. `misread` is what the fields after the title of a `WINDOW`
are when it is read as a `WNDCLASS`. -/
structure Env where
  fbWidth : Int
  fbHeight : Int
  proc : Nat → Message → State → State
  kmalloc : Nat → State → Bool
  misread : Window → Flags × Option Nat
  fuel : Nat

def Env.screenWidth (env : Env) : Int := if env.fbWidth ≤ 0 then 640 else env.fbWidth

def Env.screenHeight (env : Env) : Int := if env.fbHeight ≤ 0 then 480 else env.fbHeight

namespace Object

def take (o : Object) : Object := { o with refs := o.refs + 1, counted := by omega }

def release (o : Object) : Option Object :=
  if h : 1 < o.refs then some { o with refs := o.refs - 1, counted := by omega } else none

def leak (o : Object) : Object :=
  { o with refs := o.refs + 1, counted := by omega, leaked := o.leaked + 1 }

def mapWindow (f : Window → Window) (o : Object) : Object := { o with body := o.body.mapWindow f }

def markDestroyed (o : Object) : Object := { o with destroyed := true }

end Object

namespace State

def lookup (s : State) (h : Handle) : Option Object :=
  if h < maxObjects then s.objects h else none

def alter (h : Handle) (g : Object → Option Object) (s : State) : State :=
  if h < maxObjects then { s with objects := Function.update s.objects h ((s.objects h).bind g) }
  else s

def win (s : State) (h : Handle) : Option Window := (s.lookup h).bind fun o => o.body.window?

/-- The window at a handle, unless `Win32kDestroyWindow` was called for it. -/
def Alive (s : State) (h : Handle) : Prop :=
  ∃ o w, s.lookup h = some o ∧ o.body = .window w ∧ o.destroyed = false

def addLog (e : Event) (s : State) : State := { s with log := e :: s.log }

def setPointer (f : Pointer → Pointer) (s : State) : State := { s with pointer := f s.pointer }

end State

def retain (h : Handle) (s : State) : State := s.alter h fun o => some o.take

def reference (h : Handle) (s : State) : Option Window × State :=
  match s.win h with
  | none => (none, s)
  | some w => (some w, retain h s)

def dereference (h : Handle) (s : State) : State := s.alter h Object.release

/-- A write through a `WINDOW*` obtained from `h`. -/
def updWin (h : Handle) (f : Window → Window) (s : State) : State :=
  s.alter h fun o => some (o.mapWindow f)

/-- A reference that is taken, used to read the window and given back. -/
def peek (h : Handle) (s : State) : Option Window × State :=
  match reference h s with
  | (none, s) => (none, s)
  | (some w, s) => (some w, dereference h s)

section Table

variable {s : State} {h k : Handle} {o : Object} {w : Window} {g : Object → Option Object}
  {f : Window → Window}

namespace State

@[simp] theorem lookup_alter :
    (s.alter h g).lookup k = if k = h then (s.lookup h).bind g else s.lookup k := by
  by_cases hk : k = h
  · subst hk
    by_cases hlt : k < maxObjects
    · simp [lookup, alter, hlt]
    · simp [lookup, hlt]
  · by_cases hlt : h < maxObjects
    · simp [lookup, alter, hlt, hk]
    · simp [lookup, alter, hlt, hk]

theorem lookup_alter_self : (s.alter h g).lookup h = (s.lookup h).bind g := by
  rw [lookup_alter, if_pos rfl]

theorem lookup_alter_ne (hk : k ≠ h) : (s.alter h g).lookup k = s.lookup k := by
  rw [lookup_alter, if_neg hk]

theorem alter_alter (g' : Object → Option Object) :
    (s.alter h g).alter h g' = s.alter h fun o => (g o).bind g' := by
  by_cases hlt : h < maxObjects
  · simp [alter, hlt, Option.bind_assoc]
  · simp [alter, hlt]

theorem alter_id (hg : ∀ o, s.lookup h = some o → g o = some o) : s.alter h g = s := by
  by_cases hlt : h < maxObjects
  · have hsame : (s.objects h).bind g = s.objects h := by
      rw [lookup, if_pos hlt] at hg
      cases ho : s.objects h with
      | none => rfl
      | some o => exact hg o ho
    simp [alter, hlt, hsame]
  · simp [alter, hlt]

theorem win_eq_some : s.win h = some w ↔ ∃ o, s.lookup h = some o ∧ o.body = .window w := by
  unfold win
  constructor
  · intro hw
    obtain ⟨o, ho, hb⟩ := Option.bind_eq_some_iff.mp hw
    refine ⟨o, ho, ?_⟩
    cases hbody : o.body <;> rw [hbody, Body.window?] at hb <;> simp_all
  · rintro ⟨o, ho, hb⟩
    simp [ho, hb, Body.window?]

theorem win_of_lookup (ho : s.lookup h = some o) : s.win h = o.body.window? := by
  simp [win, ho]

theorem win_none_of_lookup (ho : s.lookup h = none) : s.win h = none := by
  simp [win, ho]

theorem win_alter_of_body (hg : ∀ o, ∃ o', g o = some o' ∧ o'.body = o.body) :
    (s.alter h g).win k = s.win k := by
  unfold win
  rw [lookup_alter]
  by_cases hk : k = h
  · subst hk
    rw [if_pos rfl]
    cases s.lookup k with
    | none => rfl
    | some o =>
      obtain ⟨o', ho', hb⟩ := hg o
      simp [ho', hb]
  · rw [if_neg hk]

theorem alter_eq : ∃ objects, s.alter h g = { s with objects } := by
  unfold alter
  split
  · exact ⟨_, rfl⟩
  · exact ⟨_, rfl⟩

@[simp] theorem alter_toZOrder : (s.alter h g).toZOrder = s.toZOrder := by
  obtain ⟨objects, he⟩ := alter_eq (s := s) (h := h) (g := g)
  rw [he]

@[simp] theorem alter_created : (s.alter h g).created = s.created := by
  obtain ⟨objects, he⟩ := alter_eq (s := s) (h := h) (g := g)
  rw [he]

@[simp] theorem alter_activeWindow : (s.alter h g).activeWindow = s.activeWindow := by
  obtain ⟨objects, he⟩ := alter_eq (s := s) (h := h) (g := g)
  rw [he]

@[simp] theorem alter_pointer : (s.alter h g).pointer = s.pointer := by
  obtain ⟨objects, he⟩ := alter_eq (s := s) (h := h) (g := g)
  rw [he]

@[simp] theorem alter_log : (s.alter h g).log = s.log := by
  obtain ⟨objects, he⟩ := alter_eq (s := s) (h := h) (g := g)
  rw [he]

end State

@[simp] theorem Object.take_release : o.take.release = some o := by
  have h := o.counted
  simp [Object.take, Object.release, h]

@[simp] theorem retain_toZOrder : (retain h s).toZOrder = s.toZOrder := State.alter_toZOrder
@[simp] theorem retain_pointer : (retain h s).pointer = s.pointer := State.alter_pointer
@[simp] theorem retain_activeWindow : (retain h s).activeWindow = s.activeWindow := State.alter_activeWindow
@[simp] theorem retain_log : (retain h s).log = s.log := State.alter_log

@[simp] theorem dereference_toZOrder : (dereference h s).toZOrder = s.toZOrder := State.alter_toZOrder
@[simp] theorem dereference_pointer : (dereference h s).pointer = s.pointer := State.alter_pointer
@[simp] theorem dereference_activeWindow : (dereference h s).activeWindow = s.activeWindow := State.alter_activeWindow
@[simp] theorem dereference_log : (dereference h s).log = s.log := State.alter_log

@[simp] theorem updWin_toZOrder : (updWin h f s).toZOrder = s.toZOrder := State.alter_toZOrder
@[simp] theorem updWin_pointer : (updWin h f s).pointer = s.pointer := State.alter_pointer
@[simp] theorem updWin_activeWindow : (updWin h f s).activeWindow = s.activeWindow := State.alter_activeWindow
@[simp] theorem updWin_created : (updWin h f s).created = s.created := State.alter_created
@[simp] theorem updWin_log : (updWin h f s).log = s.log := State.alter_log

theorem reference_none (hw : s.win h = none) : reference h s = (none, s) := by
  rw [reference, hw]

theorem reference_some (hw : s.win h = some w) : reference h s = (some w, retain h s) := by
  rw [reference, hw]

@[simp] theorem dereference_retain : dereference h (retain h s) = s := by
  rw [dereference, retain, State.alter_alter]
  exact State.alter_id fun o _ => by simp

@[simp] theorem dereference_updWin_retain :
    dereference h (updWin h f (retain h s)) = updWin h f s := by
  rw [dereference, retain, updWin, State.alter_alter, State.alter_alter, updWin]
  congr 1
  funext o
  have ho := o.counted
  simp [Object.take, Object.release, Object.mapWindow, ho]

@[simp] theorem win_retain : (retain h s).win k = s.win k :=
  State.win_alter_of_body fun _ => ⟨_, rfl, rfl⟩

theorem updWin_of_none (hw : s.win h = none) : updWin h f s = s := by
  refine State.alter_id fun o ho => ?_
  have hb := State.win_of_lookup ho
  rw [hw] at hb
  obtain ⟨name, refs, counted, body, serial, destroyed, leaked⟩ := o
  cases body with
  | window w => cases hb
  | wndClass c => rfl
  | other => rfl

@[simp] theorem peek_eq : peek h s = (s.win h, s) := by
  unfold peek reference
  cases hw : s.win h with
  | none => rfl
  | some w => simp only [dereference_retain]

end Table

/-! ## Concrete desktops -/

/-- A visible window of the class as `Win32kCreateWindow` makes it, 100 by 100 at the origin. -/
def plainWindow (className : Name) (owner : Handle) : Window :=
  { title := [], x := 0, y := 0, width := 100, height := 100, restoreX := 0, restoreY := 0
    restoreWidth := 100, restoreHeight := 100, style := wsVisible, exstyle := 0
    visible := true, active := false, minimized := false, maximized := false
    desktop := decide (className = text "Desktop"), owner, bigIcon := 0, smallIcon := 0
    wndClass := ⟨className, 0, some 0⟩, wndProc := some 0 }

/-- The windows at the handles from 0 on, in this order in `window_list`, and no other object. -/
def desk (windows : List Window) : State :=
  { list := List.range windows.length
    rest := List.replicate (maxWindows - windows.length) 0
    stray := []
    objects := fun h => windows[h]?.map fun w =>
      { name := w.title, refs := 1, counted := Nat.one_pos, body := .window w, serial := h
        destroyed := false, leaked := 0 }
    created := windows.length
    hung := false
    activeWindow := invalidHandle
    redrawInProgress := false
    pointer := .init
    log := [] }

end DiscouNT.Win32k
