import DiscouNT.Lib.Pool

/-!
# User32.Messages

The message queue of `dlls/user32/user32.c`: the one table `g_messages` that holds the messages of
all processes, with `PostMessageW`, `PostQuitMessage`, the dequeue of `GetMessageW` and
`PeekMessageW`, and `User32SetProcessId`.

* The windows matter for the process that owns them only: `windows` is the `owner_pid` of the window
  that `u32_lookup_window` finds, and may change at any time.
* `GetTickCount` is an argument. `WPARAM` and `LPARAM` are integers of any size; nothing here
  computes with them.
* `serial`, `accepted`, `removed` and `discarded` are no fields of the code.
-/

namespace DiscouNT.User32

open Lib

def maxU32Messages : Nat := 256
def maxU32QuitStates : Nat := 32
def wmQuit : Nat := 0x0012

structure Msg where
  hwnd : Nat := 0
  message : Nat := 0
  wParam : Int := 0
  lParam : Int := 0
  time : Nat := 0
  ptX : Int := 0
  ptY : Int := 0
deriving DecidableEq, Repr

structure U32Message where
  used : Bool := false
  msg : Msg := {}
  ownerPid : Nat := 0
  serial : Nat := 0
deriving DecidableEq, Repr

structure U32QuitState where
  used : Bool := false
  ownerPid : Nat := 0
  exitRequested : Bool := false
  exitCode : Int := 0
deriving DecidableEq, Repr

structure Queue where
  messages : List U32Message := List.replicate maxU32Messages {}
  quitStates : List U32QuitState := List.replicate maxU32QuitStates {}
  user32ProcessId : Nat := 1
  accepted : List U32Message := []
  removed : List (Nat × U32Message) := []
  discarded : List (Nat × U32Message) := []

/-- `u32_current_process_id`; `kernelPid` is what `GetCurrentProcessId` says. -/
def u32CurrentProcessId (kernelPid : Nat) (q : Queue) : Nat :=
  if q.user32ProcessId ≠ 0 then q.user32ProcessId else kernelPid

def u32MessageMatches (hWnd minMsg maxMsg : Nat) (msg : Msg) : Bool :=
  if hWnd ≠ 0 ∧ msg.hwnd ≠ hWnd then false
  else if minMsg ≠ 0 ∨ maxMsg ≠ 0 then
    if msg.message < minMsg then false
    else if maxMsg ≠ 0 ∧ maxMsg < msg.message then false
    else true
  else true

def messageOwner (kernelPid : Nat) (win : Option Nat) (q : Queue) : Nat :=
  match win with
  | some pid => if pid ≠ 0 then pid else u32CurrentProcessId kernelPid q
  | none => u32CurrentProcessId kernelPid q

def u32EnqueueMessage (kernelPid : Nat) (win : Option Nat) (hWnd msg : Nat) (wParam lParam : Int)
    (time : Nat) (q : Queue) : Bool × Queue :=
  let m : U32Message :=
    { used := true
      msg := { hwnd := hWnd, message := msg, wParam, lParam, time, ptX := 0, ptY := 0 }
      ownerPid := messageOwner kernelPid win q
      serial := q.accepted.length }
  match storeFirst U32Message.used m q.messages with
  | some messages => (true, { q with messages, accepted := m :: q.accepted })
  | none => (false, q)

def dequeues (pid hWnd minMsg maxMsg : Nat) (m : U32Message) : Bool :=
  m.used && decide (m.ownerPid = pid) && u32MessageMatches hWnd minMsg maxMsg m.msg

/-- `u32_dequeue_message` for the process `pid`: the entry whose `msg` is stored in `*lpMsg`. -/
def u32DequeueMessage (pid hWnd minMsg maxMsg : Nat) (remove : Bool) (q : Queue) :
    Option U32Message × Queue :=
  match takeFirst (dequeues pid hWnd minMsg maxMsg) {} q.messages with
  | some (m, messages) =>
    if remove then (some m, { q with messages, removed := (pid, m) :: q.removed }) else (some m, q)
  | none => (none, q)

/-- `u32_get_quit_state`: the entry of the process, or (`create`) a new one in the first free slot;
`update` is what the caller does to it. -/
def u32GetQuitState (pid : Nat) (create : Bool) (update : U32QuitState → U32QuitState)
    (states : List U32QuitState) : List U32QuitState :=
  match states.findIdx? fun s => s.used && decide (s.ownerPid = pid) with
  | some i => states.modify i update
  | none =>
    if create then
      (storeFirst U32QuitState.used (update { used := true, ownerPid := pid }) states).getD states
    else states

def postMessageW (kernelPid : Nat) (win : Option Nat) (hWnd msg : Nat) (wParam lParam : Int)
    (time : Nat) (q : Queue) : Bool × Queue :=
  u32EnqueueMessage kernelPid win hWnd msg wParam lParam time q

/-- `PostQuitMessage`; `win` is for the window handle `NULL`. -/
def postQuitMessage (kernelPid : Nat) (win : Option Nat) (exitCode : Int) (time : Nat) (q : Queue) :
    Queue :=
  let pid := u32CurrentProcessId kernelPid q
  let quitStates := u32GetQuitState pid true
    (fun s => { s with exitRequested := true, exitCode }) q.quitStates
  (u32EnqueueMessage kernelPid win 0 wmQuit exitCode 0 time { q with quitStates }).2

def quitsOf (pid : Nat) (m : U32Message) : Bool :=
  m.used && decide (m.ownerPid = pid) && decide (m.msg.message = wmQuit)

def user32SetProcessId (pid : Nat) (q : Queue) : Queue :=
  let newPid := if pid ≠ 0 then pid else 1
  { q with
    user32ProcessId := newPid
    quitStates := u32GetQuitState newPid true
      (fun s => { s with exitRequested := false, exitCode := 0 }) q.quitStates
    messages := q.messages.map fun m => if quitsOf newPid m then { m with used := false } else m
    discarded := (q.messages.filter (quitsOf newPid)).map (fun m => (newPid, m)) ++ q.discarded }

structure State where
  queue : Queue := {}
  windows : Nat → Option Nat := fun _ => none
  kernelPid : Nat := 0

inductive Event where
  | postMessage (hWnd msg : Nat) (wParam lParam : Int) (time : Nat)
  | postQuitMessage (exitCode : Int) (time : Nat)
  | dequeue (hWnd minMsg maxMsg : Nat) (remove : Bool)
  | setProcessId (pid : Nat)
  | other (windows : Nat → Option Nat) (kernelPid : Nat)

def State.pid (s : State) : Nat := u32CurrentProcessId s.kernelPid s.queue

def step (e : Event) (s : State) : State :=
  match e with
  | .postMessage hWnd msg wParam lParam time =>
    { s with queue := (postMessageW s.kernelPid (s.windows hWnd) hWnd msg wParam lParam time
        s.queue).2 }
  | .postQuitMessage exitCode time =>
    { s with queue := User32.postQuitMessage s.kernelPid (s.windows 0) exitCode time s.queue }
  | .dequeue hWnd minMsg maxMsg remove =>
    { s with queue := (u32DequeueMessage s.pid hWnd minMsg maxMsg remove s.queue).2 }
  | .setProcessId pid => { s with queue := user32SetProcessId pid s.queue }
  | .other windows kernelPid => { s with windows, kernelPid }

def run (events : List Event) : State := events.foldl (fun s e => step e s) {}

end DiscouNT.User32
