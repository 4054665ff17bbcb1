import DiscouNT.Mm.Heap
import DiscouNT.Ob.Accounts

/-!
# Ke.Sync

Mutexes, events and `KeTerminateThread` of `kernel/core/ke.c`, over the handle table and the bytes of
the object bodies.

* Bodies are blocks of the kernel heap. `kmalloc` takes them from fresh memory, a header in front of
  each payload; freed memory is not given out again.
* A thread is the address of its `THREAD`, and every call below is made by the current thread. It
  runs to its end, except that a wait whose condition does not hold leaves the thread in `waiting`,
  at the `KeYield` of its loop, and `resume` is one more pass of the loop.
* `history` is no variable of the code. It records the returns of the two waits, the calls of
  `KeReleaseMutex` and `KeSetEventHandle`, and the events that were made, newest first.
-/

namespace DiscouNT.Ke

open Lib
open Ob

/-- The delete procedures in the type registry; those of other components do not work on the
bodies and the table here. -/
inductive DeleteProc where
  | keDeleteThreadObject
  | other (n : Nat)
deriving DecidableEq, Repr

inductive WaitKind where
  | mutex
  | event
deriving DecidableEq, Repr

/-- A thread inside `KeWaitMutex` or `KeWaitEvent`, and the object it took a reference to. -/
structure Wait where
  thread : Nat
  kind : WaitKind
  handle : Nat
  body : Nat
deriving DecidableEq, Repr

inductive SyncEvent where
  /-- `KeWaitMutex` returned. -/
  | acquired (thread body : Nat)
  /-- `KeReleaseMutex` was called. -/
  | released (thread body : Nat)
  /-- `KeWaitEvent` returned. -/
  | woken (thread body : Nat)
  /-- `KeSetEventHandle` was called. -/
  | set (body : Nat)
  /-- `KeCreateEvent` made an event. -/
  | eventCreated (body manualReset : Nat)
deriving DecidableEq, Repr

structure Executive where
  ob : ObState DeleteProc
  mem : Mem
  next : Nat
  ticks : Nat
  threadObjectType : Nat
  eventObjectType : Nat
  mutexObjectType : Nat
  waiting : List Wait
  history : List SyncEvent

/-- Whether the `n`-th `kmalloc`, of that size, succeeds. -/
abbrev Allocator := Nat → Nat → Bool

def threadTerminated : Nat := 3

-- `sizeof(OBJECT)` only matters to `kmalloc`
def sizeofObject : Nat := 56
def sizeofEvent : Nat := 8
def sizeofMutex (arch : Arch) : Nat := 2 * arch.ptrBytes

-- the fields of `MUTEX`, `EVENT` and `THREAD`
def mutexOwner (arch : Arch) : Nat := arch.ptrBytes
def eventManualReset : Nat := 4
def threadState : Nat := 4
def threadStack (arch : Arch) : Nat := if arch.ptrBytes = 4 then 12 else 16

namespace Executive

def store (a n v : Nat) (x : Executive) : Executive := { x with mem := writeLE x.mem a n v }

def log (e : SyncEvent) (x : Executive) : Executive := { x with history := e :: x.history }

def kmalloc (arch : Arch) (alloc : Allocator) (size : Nat) (x : Executive) : Nat × Executive :=
  if size ≠ 0 ∧ alloc x.ticks size = true then
    let payload := x.next + Mm.sizeofHeapBlock arch
    (payload, { x with next := payload + (size + 7) / 8 * 8, ticks := x.ticks + 1 })
  else (0, { x with ticks := x.ticks + 1 })

/-- `ObCreateObject`, whose `kmalloc` of the `OBJECT` counts as one call. -/
def createObject (alloc : Allocator) (type : Nat) (name : Option Name) (body size : Nat)
    (x : Executive) : Nat × Executive :=
  let r := obCreateObject (alloc x.ticks sizeofObject) type name body size x.ob
  (r.1, { x with ob := r.2, ticks := x.ticks + 1 })

def reference (handle : Nat) (x : Executive) : Nat × Executive :=
  let r := obReferenceObject handle x.ob
  (r.1, { x with ob := r.2 })

end Executive

def keDeleteThreadObject (arch : Arch) (body : Nat) (x : Executive) : Executive :=
  if readLE x.mem (body + threadStack arch) arch.ptrBytes = 0 then x
  else x.store (body + threadStack arch) arch.ptrBytes 0

def host (arch : Arch) : Host Executive DeleteProc where
  ob := Executive.ob
  setOb ob x := { x with ob }
  delete
    | .keDeleteThreadObject => keDeleteThreadObject arch
    | .other _ => fun _ x => x
  kfree _ x := x

def dereference (arch : Arch) (handle : Nat) (x : Executive) : Executive :=
  obDereferenceObject (host arch) handle x

def keSetEventHandle (arch : Arch) (handle : Nat) (x : Executive) : Executive :=
  let (event, x) := x.reference handle
  if event = 0 then x
  else dereference arch handle ((x.store event 4 1).log (.set event))

def keResetEventHandle (arch : Arch) (handle : Nat) (x : Executive) : Executive :=
  let (event, x) := x.reference handle
  if event = 0 then x
  else dereference arch handle (x.store event 4 0)

/-- `KeWaitEvent` from the test of its loop on; `none` is the `KeYield`. -/
def pollEvent (arch : Arch) (thread handle event : Nat) (x : Executive) : Option Executive :=
  if readLE x.mem event 4 = 0 then none
  else
    let x := if readLE x.mem (event + eventManualReset) 4 = 0 then x.store event 4 0 else x
    some (dereference arch handle (x.log (.woken thread event)))

/-- `KeWaitMutex` from the test of its loop on; `none` is the `KeYield`. -/
def pollMutex (arch : Arch) (thread handle mutex : Nat) (x : Executive) : Option Executive :=
  if readLE x.mem mutex 4 ≠ 0 then none
  else
    let x := (x.store mutex 4 1).store (mutex + mutexOwner arch) arch.ptrBytes thread
    some (dereference arch handle (x.log (.acquired thread mutex)))

def keReleaseMutex (arch : Arch) (thread handle : Nat) (x : Executive) : Executive :=
  let (mutex, x) := x.reference handle
  if mutex = 0 then x
  else
    let x :=
      if readLE x.mem (mutex + mutexOwner arch) arch.ptrBytes = thread then
        (x.store mutex 4 0).store (mutex + mutexOwner arch) arch.ptrBytes 0
      else x
    dereference arch handle (x.log (.released thread mutex))

def poll (arch : Arch) : WaitKind → Nat → Nat → Nat → Executive → Option Executive
  | .mutex => pollMutex arch
  | .event => pollEvent arch

/-- `KeWaitMutex` and `KeWaitEvent`, up to their return or their first `KeYield`. -/
def keWait (arch : Arch) (kind : WaitKind) (thread handle : Nat) (x : Executive) : Executive :=
  let (body, x) := x.reference handle
  if body = 0 then x
  else
    match poll arch kind thread handle body x with
    | none => { x with waiting := ⟨thread, kind, handle, body⟩ :: x.waiting }
    | some x => x

def keWaitMutex (arch : Arch) (thread handle : Nat) (x : Executive) : Executive :=
  keWait arch .mutex thread handle x

def keWaitEvent (arch : Arch) (thread handle : Nat) (x : Executive) : Executive :=
  keWait arch .event thread handle x

def waitOf (x : Executive) (thread : Nat) : Option Wait :=
  x.waiting.find? fun w => decide (w.thread = thread)

def resume (arch : Arch) (thread : Nat) (x : Executive) : Executive :=
  match waitOf x thread with
  | none => x
  | some w =>
    match poll arch w.kind thread w.handle w.body x with
    | none => x
    | some x => { x with waiting := x.waiting.erase w }

def keTerminateThread (arch : Arch) (handle : Nat) (x : Executive) : Executive :=
  let (thread, x) := x.reference handle
  if thread = 0 then x
  else dereference arch handle (x.store (thread + threadState) 4 threadTerminated)

/-- `KeCreateMutex`. It does not check its `kmalloc`, and `memset` on a null pointer does not come
back. -/
def keCreateMutex (arch : Arch) (alloc : Allocator) (x : Executive) : Option (Nat × Executive) :=
  let (mutex, x) := x.kmalloc arch alloc (sizeofMutex arch)
  if mutex = 0 then none
  else
    let x := x.store mutex (sizeofMutex arch) 0
    some (x.createObject alloc x.mutexObjectType (some mutexName) mutex (sizeofMutex arch))
where
  mutexName : Name := [0x4d, 0x75, 0x74, 0x65, 0x78]

def keCreateEvent (arch : Arch) (alloc : Allocator) (manualReset : Nat) (x : Executive) :
    Option (Nat × Executive) :=
  let (event, x) := x.kmalloc arch alloc sizeofEvent
  if event = 0 then none
  else
    let x := (x.store event sizeofEvent 0).store (event + eventManualReset) 4 manualReset
    let x := x.log (.eventCreated event manualReset)
    some (x.createObject alloc x.eventObjectType (some eventName) event sizeofEvent)
where
  eventName : Name := [0x45, 0x76, 0x65, 0x6e, 0x74]

inductive Call where
  | keSetEventHandle
  | keResetEventHandle
  | keWaitEvent
  | keWaitMutex
  | keReleaseMutex
  | keTerminateThread
deriving DecidableEq, Repr

def call (arch : Arch) (thread handle : Nat) : Call → Executive → Executive
  | .keSetEventHandle => keSetEventHandle arch handle
  | .keResetEventHandle => keResetEventHandle arch handle
  | .keWaitEvent => keWaitEvent arch thread handle
  | .keWaitMutex => keWaitMutex arch thread handle
  | .keReleaseMutex => keReleaseMutex arch thread handle
  | .keTerminateThread => keTerminateThread arch handle

inductive Act where
  | obRegisterObjectType (name : Name) (proc : Option Nat)
  /-- `ObCreateObject` by another component, with a body of that size. -/
  | obCreateObject (type : Nat) (name : Option Name) (size : Nat)
  | obReferenceObject (handle : Nat)
  | obDereferenceObject (handle : Nat)
  /-- Other code writes to memory. -/
  | write (mem : Mem)
  | keCreateMutex
  | keCreateEvent (manualReset : Nat)
  | call (thread handle : Nat) (c : Call)
  | resume (thread : Nat)

/-- One step of a thread, from one `KeYield` or call to the next. A thread inside a wait makes no
other calls. -/
def step (arch : Arch) (alloc : Allocator) : Act → Executive → Executive
  | .obRegisterObjectType name proc, x =>
    { x with ob := (obRegisterObjectType name (proc.map .other) x.ob).2 }
  | .obCreateObject type name size, x =>
    let (body, x) := x.kmalloc arch alloc size
    (x.createObject alloc type name body size).2
  | .obReferenceObject handle, x => (x.reference handle).2
  | .obDereferenceObject handle, x => dereference arch handle x
  | .write mem, x => { x with mem }
  | .keCreateMutex, x => ((Ke.keCreateMutex arch alloc x).map Prod.snd).getD x
  | .keCreateEvent manualReset, x => ((Ke.keCreateEvent arch alloc manualReset x).map Prod.snd).getD x
  | .call thread handle c, x =>
    if (waitOf x thread).isSome then x else Ke.call arch thread handle c x
  | .resume thread, x => Ke.resume arch thread x

/-- `ObInit`, the types of `IoInit`, and `KeInit`, with memory as the machine left it. -/
def keBoot (mem : Mem) (heap : Nat) : Executive :=
  let ob := (obRegisterObjectType (typeName "IoDriver") (some (.other 0)) obInit).2
  let ob := (obRegisterObjectType (typeName "IoDevice") (some (.other 1)) ob).2
  let ob := (obRegisterObjectType (typeName "Process") none ob).2
  let thread := obRegisterObjectType (typeName "Thread") (some .keDeleteThreadObject) ob
  let event := obRegisterObjectType (typeName "Event") none thread.2
  let mutex := obRegisterObjectType (typeName "Mutex") none event.2
  { ob := mutex.2, mem, next := heap, ticks := 0, threadObjectType := thread.1,
    eventObjectType := event.1, mutexObjectType := mutex.1, waiting := [], history := [] }
where
  typeName (s : String) : Name := s.toList.map fun c => UInt8.ofNat c.toNat

/-- The states reached from `keBoot` by steps that satisfy `ok` when they are taken. -/
inductive Reachable (arch : Arch) (alloc : Allocator) (ok : Act → Executive → Prop) :
    Executive → Prop where
  | boot (mem : Mem) (heap : Nat) : Reachable arch alloc ok (keBoot mem heap)
  | step {x : Executive} {a : Act} : Reachable arch alloc ok x → ok a x →
      Reachable arch alloc ok (step arch alloc a x)

end DiscouNT.Ke
