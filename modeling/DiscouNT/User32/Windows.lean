import DiscouNT.Lib.Slots
import DiscouNT.User32.Messages

/-!
# User32.Windows

The window table `g_windows` of `dlls/user32/user32.c`: how entries are made, `DestroyWindow`, and
the part of `u32_win32k_callback` that handles `WM_DESTROY`.

* A child window has the address of its entry as its handle, a top-level window the handle of its
  Win32k window; Win32k is an argument of the creation here, and calls back when it destroys a window.
* Win32k calls the callback while `Win32kDestroyWindow` runs, and the callback runs code of the
  application before it forgets the window. `DestroyWindow` of a top-level window is therefore two
  events, with any others between them: the call, which only puts a frame on the stack, and `leave`,
  the end of the innermost of these calls.
* The Win32k window of a top-level entry exists until the callback has forgotten the entry.
* Buffers are numbered; `buffers`, `freed` (newest first) and `quits` are no fields of the code:
  `quits` is the process a `WM_QUIT` went to and the one that owned the window.
-/

namespace DiscouNT.User32

open Lib

abbrev maxU32Windows : Nat := 256

abbrev WindowSlot := Fin maxU32Windows

inductive Hwnd where
  | null
  | native (handle : Nat)
  | child (i : WindowSlot)
  deriving DecidableEq

structure U32Window where
  used : Bool := false
  hwnd : Hwnd := .null
  parent : Hwnd := .null
  owner : Hwnd := .null
  topLevel : Bool := false
  ownerPid : Nat := 0
  listviewData : Option Nat := none
  editText : Option Nat := none
  deriving DecidableEq

inductive Global where
  | focus
  | activeWindow
  | mouseCaptureWindow
  | childDragWindow
  deriving DecidableEq

/-- A destruction that Win32k has not come back from: `win` is the entry that `DestroyWindow` holds
on to, if it was called. -/
structure Frame where
  hwnd : Hwnd
  win : Option WindowSlot
  ownerPid : Nat

structure Desktop where
  windows : WindowSlot → U32Window := fun _ => {}
  globals : Global → Hwnd := fun _ => .null
  queue : Queue := {}
  kernelPid : Nat := 0
  buffers : Nat := 0
  freed : List Nat := []
  quits : List (Nat × Nat) := []
  frames : List Frame := []

def Desktop.pid (s : Desktop) : Nat := u32CurrentProcessId s.kernelPid s.queue

def u32LookupWindow (windows : WindowSlot → U32Window) (hwnd : Hwnd) : Option WindowSlot :=
  findKey U32Window.used U32Window.hwnd windows hwnd

def u32AllocWindow (windows : WindowSlot → U32Window) : Option WindowSlot :=
  firstSlot fun i => !(windows i).used

def u32HasTopLevelWindowForPid (s : Desktop) (pid : Nat) (except : Hwnd) : Bool :=
  (List.finRange maxU32Windows).any fun i =>
    (s.windows i).used && (s.windows i).topLevel && decide ((s.windows i).hwnd ≠ except) &&
      decide ((s.windows i).ownerPid = pid)

def ownerPidFor (s : Desktop) (hwnd : Hwnd) : Nat :=
  match u32LookupWindow s.windows hwnd with
  | some i => (s.windows i).ownerPid
  | none => s.pid

def setWindow (s : Desktop) (i : WindowSlot) (w : U32Window) : Desktop :=
  { s with windows := Function.update s.windows i w }

/-- `CreateWindowExW` with `WS_CHILD`, and the two functions for child controls. -/
def createChild (s : Desktop) (parent : Hwnd) : Desktop :=
  match u32AllocWindow s.windows with
  | none => s
  | some i => setWindow s i
      { used := true, hwnd := .child i, parent := parent, owner := parent, ownerPid := ownerPidFor s parent }

/-- `CreateWindowExW` without `WS_CHILD`, and menu popups; `handle` is what `Win32kCreateWindowEx`
returns. -/
def createTopLevel (s : Desktop) (owner : Hwnd) (handle : Option Nat) : Desktop :=
  match u32AllocWindow s.windows with
  | none => s
  | some i =>
    match handle with
    | none => setWindow s i
        { used := false, owner := owner, topLevel := true, ownerPid := ownerPidFor s owner }
    | some handle => setWindow s i
        { used := true, hwnd := .native handle, owner := owner, topLevel := true
          ownerPid := ownerPidFor s owner }

/-- `u32_ensure_listview`, with memory to be had. -/
def u32EnsureListview (s : Desktop) (hwnd : Hwnd) : Desktop :=
  match u32LookupWindow s.windows hwnd with
  | none => s
  | some i =>
    match (s.windows i).listviewData with
    | some _ => s
    | none =>
      { setWindow s i { s.windows i with listviewData := some s.buffers } with buffers := s.buffers + 1 }

def firstEditBuffer (s : Desktop) (hwnd : Hwnd) : Desktop :=
  match u32LookupWindow s.windows hwnd with
  | none => s
  | some i =>
    match (s.windows i).editText with
    | some _ => s
    | none =>
      { setWindow s i { s.windows i with editText := some s.buffers } with buffers := s.buffers + 1 }

def freeWindow (s : Desktop) (i : WindowSlot) : Desktop :=
  { setWindow s i {} with
    freed := (s.windows i).editText.toList ++ ((s.windows i).listviewData.toList ++ s.freed) }

def u32ForgetNativeWindow : Nat → Hwnd → Desktop → Option Desktop
  | 0, _, _ => none
  | n + 1, hwnd, s =>
    match u32LookupWindow s.windows hwnd with
    | none => some s
    | some win =>
      ((List.finRange maxU32Windows).reverse.foldlM (fun s i =>
        if (s.windows i).used && decide ((s.windows i).parent = hwnd) then
          u32ForgetNativeWindow n (s.windows i).hwnd s
        else some s) s).map fun s => freeWindow s win

def forgetFuel : Nat := maxU32Windows + 1

/-- `DestroyWindow` up to the call of `Win32kDestroyWindow`, or to its end for a child window. -/
def destroyWindow (s : Desktop) (hwnd : Hwnd) : Desktop :=
  match u32LookupWindow s.windows hwnd with
  | none => s
  | some i =>
    if (s.windows i).topLevel then
      { s with frames := { hwnd, win := some i, ownerPid := (s.windows i).ownerPid } :: s.frames }
    else freeWindow s i

def nativeDestroy (s : Desktop) (handle : Nat) : Desktop :=
  match u32LookupWindow s.windows (.native handle) with
  | none => s
  | some i =>
    { s with
      frames := { hwnd := .native handle, win := none, ownerPid := (s.windows i).ownerPid } :: s.frames }

/-- The rest of `DestroyWindow` of a top-level window, once Win32k is back. -/
def destroyTail (time : Nat) (f : Frame) (i : WindowSlot) (s : Desktop) : Desktop :=
  let s := freeWindow s i
  if u32HasTopLevelWindowForPid s f.ownerPid f.hwnd then s
  else
    { s with
      queue := postQuitMessage s.kernelPid
        ((u32LookupWindow s.windows .null).map fun i => (s.windows i).ownerPid) 0 time s.queue
      quits := (s.pid, f.ownerPid) :: s.quits }

/-- The end of the innermost destruction: the callback forgets the window, and `DestroyWindow`
goes on. -/
def leave (time : Nat) (s : Desktop) : Option Desktop :=
  match s.frames with
  | [] => some s
  | f :: frames =>
    (u32ForgetNativeWindow forgetFuel f.hwnd { s with frames := frames }).map fun s =>
      match f.win with
      | none => s
      | some i => destroyTail time f i s

inductive DesktopEvent where
  | createChild (parent : Hwnd)
  | createTopLevel (owner : Hwnd) (handle : Option Nat)
  | listview (hwnd : Hwnd)
  | edit (hwnd : Hwnd)
  | point (g : Global) (hwnd : Hwnd)
  | setProcessId (pid : Nat)
  | destroyWindow (hwnd : Hwnd)
  | nativeDestroy (handle : Nat)
  | leave (time : Nat)

def desktopStep (s : Desktop) : DesktopEvent → Option Desktop
  | .createChild parent => some (createChild s parent)
  | .createTopLevel owner handle => some (createTopLevel s owner handle)
  | .listview hwnd => some (u32EnsureListview s hwnd)
  | .edit hwnd => some (firstEditBuffer s hwnd)
  | .point g hwnd => some { s with globals := Function.update s.globals g hwnd }
  | .setProcessId pid => some { s with queue := user32SetProcessId pid s.queue }
  | .destroyWindow hwnd => some (User32.destroyWindow s hwnd)
  | .nativeDestroy handle => some (User32.nativeDestroy s handle)
  | .leave time => User32.leave time s

def desktopRun (es : List DesktopEvent) : Option Desktop :=
  es.foldl (fun s e => s.bind fun s => desktopStep s e) (some {})

end DiscouNT.User32
