import DiscouNT.Ob.Object

/-!
# Csrss.Session

Applications in the session of `win32/csrss/csrss.c`: the table `g_gui_apps`, launches, the threads
of applications, retirement and the request that waits for the session loop.

* A step runs from one point where other code can run to the next: a `KeYield`, or a call into an
  image (a `DllMain`, an entry point, a window procedure). Any step may follow any other.
* What depends on other code (whether a file is there, an image loads, a thread can be had, a window
  was found or is gone) is an argument of the step.
* A launch is numbered, an image, a thread and its context are named by their launch. So `launch`
  and `request` in an entry or a slot, and the log, are no fields of the code.
-/

namespace DiscouNT.Csrss

abbrev Name := Ob.Name
abbrev Handle := Nat

def invalidHandle : Handle := Ob.invalidHandle
def maxGuiApps : Nat := 8

inductive GuiAppKind where
  | custom | winMain | wWinMain | wMain | main
deriving DecidableEq, Repr

structure GuiAppInstance where
  pid : Nat
  path : Name
  commandLine : Name
  image : Option Nat
  window : Handle
  thread : Option Nat
  kind : GuiAppKind
  exited : Bool
  exitCode : Int
  launch : Nat
deriving DecidableEq, Repr

inductive ThreadState where
  | created | running | terminated
deriving DecidableEq, Repr

/-- A thread with its `GUI_APP_THREAD_CTX`: `app` is the index of the entry that `ctx->app` points
to, `pid` the process the thread was made for. -/
structure GuiAppThread where
  app : Nat
  kind : GuiAppKind
  commandLine : Name
  state : ThreadState
  pid : Nat
deriving DecidableEq, Repr

structure Request where
  text : Name
deriving DecidableEq, Repr

/-- Where a launch is in `csrss_spawn_gui_instance` and `csrss_load_gui_instance`. -/
inductive Phase where
  | load | resolve | choose | init | createWindow
  | findWindow (tries : Nat)
  | finish
deriving DecidableEq, Repr

/-- A launch in progress: `app` points to the entry with that index. A request is left for the
session loop if the launch fails. -/
structure Spawn where
  app : Nat
  pid : Nat
  phase : Phase
  request : Option Request
deriving DecidableEq, Repr

inductive Event where
  /-- Code that runs for a launch used an entry that a launch had cleared. -/
  | access (launch entry : Nat)
  /-- `csrss_execute_image` accepted a request and left it for the session loop. -/
  | queued (request : Nat) (r : Request)
  /-- The session loop took a request with this path and command line. -/
  | took (request : Nat) (path commandLine : Name)
deriving DecidableEq, Repr

/-- The statics of `csrss.c`, the launches in progress and the threads. -/
structure Session where
  apps : Nat → GuiAppInstance
  appCount : Nat
  nextPid : Nat
  pendingLaunch : Bool
  pendingPath : Name
  pendingCommandLine : Name
  pendingRequest : Nat
  spawns : Nat → Option Spawn
  threads : Nat → Option GuiAppThread
  launches : Nat
  requests : Nat
  log : List Event

namespace Session

def note (e : Event) (s : Session) : Session := { s with log := e :: s.log }

/-- A write through a pointer to the entry with that index. -/
def edit (app : Nat) (f : GuiAppInstance → GuiAppInstance) (s : Session) : Session :=
  { s with apps := Function.update s.apps app (f (s.apps app)) }

/-- Code of the launch `k` uses the entry. -/
def access (k app : Nat) (s : Session) : Session := s.note (.access k (s.apps app).launch)

def setSpawn (k : Nat) (sp : Option Spawn) (s : Session) : Session :=
  { s with spawns := Function.update s.spawns k sp }

def setThread (k : Nat) (t : GuiAppThread) (s : Session) : Session :=
  { s with threads := Function.update s.threads k (some t) }

end Session

def isBlank (c : UInt8) : Bool := decide (c = 0x20) || decide (c = 0x09)

def upper (c : UInt8) : UInt8 := if 0x61 ≤ c ∧ c ≤ 0x7A then c - 32 else c

def uppercaseCopy (src : Name) (maxLen : Nat) : Name := (src.take (maxLen - 1)).map upper

def boundedCopy (src : Name) (maxLen : Nat) : Name := src.take (maxLen - 1)

def isQuote (c : UInt8) : Bool := decide (c = 0x22) || decide (c = 0x27)

/-- The path goes on: up to the quote it began with, or up to a blank. -/
def inPath (quote : Option UInt8) (c : UInt8) : Bool :=
  match quote with
  | some q => decide (c ≠ q)
  | none => !isBlank c

def afterPath (quote : Option UInt8) (text : Name) : Name :=
  (if quote.isSome ∧ text.head? = quote then text.tail else text).dropWhile isBlank

/-- The path in front of a command line, of which no more than `max` bytes are copied, and what
comes after it. -/
def splitCommand (max : Nat) (text : Name) : Name × Name :=
  let text := text.dropWhile isBlank
  let quote := text.head?.filter isQuote
  let text := if quote.isSome then text.tail else text
  let path := (text.takeWhile (inPath quote)).take max
  (path, afterPath quote (text.drop path.length))

namespace Request

def path (r : Request) : Name := uppercaseCopy (splitCommand 255 r.text).1 256

def args (r : Request) : Name := (splitCommand 255 r.text).2

/-- What a caller asks for: the whole path, in capital letters, and the whole command line. -/
def asked (r : Request) : Name × Name :=
  ((splitCommand r.text.length r.text).1.map upper, (splitCommand r.text.length r.text).2)

end Request

def queueRequest (r : Request) (s : Session) : Session :=
  { s with
    pendingLaunch := true
    pendingPath := r.path
    pendingCommandLine := boundedCopy r.args 256
    pendingRequest := s.requests
    requests := s.requests + 1
    log := .queued s.requests r :: s.log }

def spawnFailed (request : Option Request) (s : Session) : Session :=
  match request with
  | none => s
  | some r => queueRequest r s

/-- The part of `CsrssSessionRun` that takes the request. -/
def takePendingLaunch (s : Session) : Session :=
  if s.pendingLaunch then
    { s with pendingLaunch := false }.note
      (.took s.pendingRequest s.pendingPath s.pendingCommandLine)
  else s

def newInstance (path commandLine : Name) (s : Session) : GuiAppInstance :=
  { pid := s.nextPid, path, commandLine := boundedCopy commandLine 256, image := none
    window := invalidHandle, thread := none, kind := .custom, exited := false, exitCode := 0
    launch := s.launches }

def csrssSpawnGuiInstance (path commandLine : Name) (request : Option Request) (s : Session) :
    Session :=
  if maxGuiApps ≤ s.appCount then spawnFailed request s
  else
    { s.edit s.appCount fun _ => newInstance path commandLine s with
      nextPid := u32 (s.nextPid + 1)
      launches := s.launches + 1 }.setSpawn s.launches
      (some { app := s.appCount, pid := s.nextPid, phase := .load, request })

def csrssExecuteImage (path : Name) (s : Session) : Session :=
  if path = [] then s
  else
    let r : Request := ⟨path⟩
    csrssSpawnGuiInstance r.path r.args (some r) s

def proceed (k : Nat) (sp : Spawn) (phase : Phase) (f : GuiAppInstance → GuiAppInstance)
    (s : Session) : Session :=
  ((s.access k sp.app).edit sp.app f).setSpawn k (some { sp with phase })

def abandon (k : Nat) (sp : Spawn) (f : GuiAppInstance → GuiAppInstance) (s : Session) : Session :=
  spawnFailed sp.request (((s.access k sp.app).edit sp.app f).setSpawn k none)

def dropImage (a : GuiAppInstance) : GuiAppInstance := { a with image := none }

/-- Which exports an image has, and whether what it needs can be had. -/
inductive Choice where
  | invalid | custom
  | standard (kind : GuiAppKind) (hasContext hasThread : Bool)
deriving DecidableEq, Repr

/-- `csrss_load_gui_instance` up to the image: whether the file is read and the image loaded. -/
def loadImage (k : Nat) (sp : Spawn) (found loaded : Bool) (s : Session) : Session :=
  if !found then spawnFailed sp.request (s.setSpawn k none)
  else if loaded then proceed k sp .resolve (fun a => { a with image := some k }) s
  else abandon k sp dropImage s

def chooseKind (k : Nat) (sp : Spawn) (c : Choice) (s : Session) : Session :=
  match c with
  | .invalid => abandon k sp dropImage s
  | .custom => proceed k sp .init id s
  | .standard kind hasContext hasThread =>
    if kind = .custom then s
    else if !hasContext then abandon k sp dropImage s
    else if !hasThread then abandon k sp (fun a => dropImage { a with kind, thread := none }) s
    else
      (proceed k sp (.findWindow 0) (fun a => { a with kind, thread := some k }) s).setThread k
        { app := sp.app, kind, commandLine := boundedCopy (s.apps sp.app).commandLine 256
          state := .created, pid := sp.pid }

/-- The rounds that look for the window of the application, with a `KeYield` after each. -/
def findMainWindow (k : Nat) (sp : Spawn) (tries : Nat) (hwnd : Handle) (s : Session) : Session :=
  if tries < 32 ∧ (s.apps sp.app).window = invalidHandle then
    if hwnd ≠ invalidHandle ∧ hwnd ≠ 0 then proceed k sp .finish (fun a => { a with window := hwnd }) s
    else proceed k sp (.findWindow (tries + 1)) (fun a => { a with window := invalidHandle }) s
  else proceed k sp .finish id s

def finishSpawn (k : Nat) (sp : Spawn) (s : Session) : Session :=
  { s.access k sp.app with appCount := s.appCount + 1 }.setSpawn k none

def threadStart (k : Nat) (t : GuiAppThread) (hasStack : Bool) (s : Session) : Session :=
  let s := s.access k t.app
  if hasStack then s.setThread k { t with state := .running }
  else
    (s.edit t.app fun a => { a with exited := true, exitCode := -1 }).setThread k
      { t with state := .terminated }

/-- `csrss_gui_thread_main` after the entry point has returned, and the end of the thread. -/
def threadReturn (k : Nat) (t : GuiAppThread) (code : Int) (s : Session) : Session :=
  ((s.access k t.app).edit t.app fun a => { a with exitCode := code, exited := true }).setThread k
    { t with state := .terminated }

def compact (i : Nat) (s : Session) : Session :=
  let s := s.edit i fun a => { a with image := none, thread := none }
  { s with
    apps := fun j => if i ≤ j ∧ j < s.appCount - 1 then s.apps (j + 1) else s.apps j
    appCount := s.appCount - 1 }

/-- The uses of the entry `i` by code that cares for the application with that thread or image. -/
def accessOf (owner : Option Nat) (i : Nat) (s : Session) : Session :=
  match owner with
  | none => s
  | some k => s.access k i

/-- Whether the pass over entry `i` removes it. `gone` says that the window of a custom application is
gone or that the application wants to exit. -/
def isRemoved (i : Nat) (gone : Bool) (s : Session) : Bool :=
  if (s.apps i).kind = .custom then gone
  else decide (((s.apps i).thread.bind s.threads).map (·.state) = some .terminated)

def retireApp (i : Nat) (gone : Bool) (s : Session) : Session :=
  if i < s.appCount ∧ isRemoved i gone s then
    compact i (accessOf (s.apps i).image i (accessOf (s.apps i).thread i s))
  else s

/-! ## Runs -/

inductive Act where
  /-- The session loop starts the shell. -/
  | spawn (path commandLine : Name)
  | executeImage (path : Name)
  | load (k : Nat) (found loaded : Bool)
  | resolve (k : Nat) (ok : Bool)
  | choose (k : Nat) (c : Choice)
  | init (k : Nat) (ok : Bool)
  | createWindow (k : Nat) (hwnd : Handle)
  | findWindow (k : Nat) (hwnd : Handle)
  | finish (k : Nat)
  | threadStart (k : Nat) (hasStack : Bool)
  | threadReturn (k : Nat) (code : Int)
  /-- `KeTerminateThread`. -/
  | terminate (k : Nat)
  | retire (i : Nat) (gone : Bool)
  | takePending
deriving DecidableEq, Repr

def inPhase (k : Nat) (phase : Phase) (s : Session) (f : Spawn → Session) : Option Session :=
  (s.spawns k).bind fun sp => if sp.phase = phase then some (f sp) else none

/-- A step of the thread of the launch `k`, if it is in that state. -/
def inState (k : Nat) (state : ThreadState) (s : Session) (f : GuiAppThread → Session) :
    Option Session :=
  (s.threads k).bind fun t => if t.state = state then some (f t) else none

/-- A step; `none` says that it is not one that can be taken. -/
def step : Act → Session → Option Session
  | .spawn path commandLine, s => some (csrssSpawnGuiInstance path commandLine none s)
  | .executeImage path, s => some (csrssExecuteImage path s)
  | .load k found loaded, s => inPhase k .load s fun sp => loadImage k sp found loaded s
  | .resolve k ok, s => inPhase k .resolve s fun sp =>
    if ok then proceed k sp .choose id s else abandon k sp dropImage s
  | .choose k c, s => inPhase k .choose s fun sp => chooseKind k sp c s
  | .init k ok, s => inPhase k .init s fun sp =>
    if ok then proceed k sp .createWindow id s else abandon k sp dropImage s
  | .createWindow k hwnd, s => inPhase k .createWindow s fun sp =>
    if hwnd = invalidHandle then abandon k sp (fun a => dropImage { a with window := hwnd }) s
    else proceed k sp .finish (fun a => { a with window := hwnd }) s
  | .findWindow k hwnd, s => (s.spawns k).bind fun sp =>
    match sp.phase with
    | .findWindow tries => some (findMainWindow k sp tries hwnd s)
    | _ => none
  | .finish k, s => inPhase k .finish s fun sp => finishSpawn k sp s
  | .threadStart k hasStack, s => inState k .created s fun t => threadStart k t hasStack s
  | .threadReturn k code, s => inState k .running s fun t => threadReturn k t code s
  | .terminate k, s => (s.threads k).map fun t => s.setThread k { t with state := .terminated }
  | .retire i gone, s => some (retireApp i gone s)
  | .takePending, s => some (takePendingLaunch s)

def start : Session where
  apps := fun _ =>
    { pid := 0, path := [], commandLine := [], image := none, window := 0, thread := none
      kind := .custom, exited := false, exitCode := 0, launch := 0 }
  appCount := 0
  nextPid := 1
  pendingLaunch := false
  pendingPath := []
  pendingCommandLine := []
  pendingRequest := 0
  spawns := fun _ => none
  threads := fun _ => none
  launches := 0
  requests := 0
  log := []

def Step (ok : Act → Session → Prop) (s s' : Session) : Prop :=
  ∃ a, ok a s ∧ step a s = some s'

def runActs : List Act → Session → Option Session
  | [], s => some s
  | a :: acts, s => (step a s).bind (runActs acts)

end DiscouNT.Csrss
