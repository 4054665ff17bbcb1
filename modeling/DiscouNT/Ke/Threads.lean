import DiscouNT.Ke.Scheduler
import DiscouNT.Ke.Sync

/-!
# Ke.Threads

The life of threads in `kernel/core/ke.c`: creation, exit, termination and the release of thread
objects, over the run queue, the handle table and the heap.

* The heap is the list of the blocks in use. Which address a `kmalloc` gives is up to an
  `AllocOracle`, which may fail at any time and may give out again what was freed.
* A freed `THREAD` keeps its fields until the block is used again, so a queue that still leads to it
  can be followed.
* Entry points, priorities and saved registers are left out.
* `bootThread` is no variable of the code: the thread `KeAttachCurrentThread` made.
-/

namespace DiscouNT.Ke

open Ob

/-- The address the `n`-th `kmalloc`, of that size, finds; 0 when it finds none. -/
abbrev AllocOracle := Nat → Nat → Nat

structure Kernel where
  sched : Scheduler
  ob : ObState DeleteProc
  blocks : List Nat
  ticks : Nat
  threadCount : Nat
  threadObjectType : Nat
  bootThread : Nat

def sizeofThread (arch : Arch) : Nat := if arch.ptrBytes = 4 then 84 else 160

def defaultStackSize : Nat := 4096

namespace Kernel

def thread (x : Kernel) (t : Nat) : Thread := x.sched.threads t

def setThread (t : Nat) (v : Thread) (x : Kernel) : Kernel :=
  { x with sched := { x.sched with threads := Function.update x.sched.threads t v } }

def granted (alloc : AllocOracle) (size : Nat) (x : Kernel) : Bool :=
  decide (alloc x.ticks size ≠ 0) && decide (alloc x.ticks size ∉ x.blocks)

def kmalloc (alloc : AllocOracle) (size : Nat) (x : Kernel) : Nat × Kernel :=
  if granted alloc size x = true then
    (alloc x.ticks size, { x with blocks := alloc x.ticks size :: x.blocks, ticks := x.ticks + 1 })
  else (0, { x with ticks := x.ticks + 1 })

def kfree (a : Nat) (x : Kernel) : Kernel :=
  if a = 0 then x else { x with blocks := x.blocks.erase a }

/-- `ObCreateObject`; the block of the `OBJECT` itself is not kept track of. -/
def createObject (alloc : AllocOracle) (type : Nat) (name : Option Name) (body size : Nat)
    (x : Kernel) : Nat × Kernel :=
  let r := obCreateObject (granted alloc sizeofObject x) type name body size x.ob
  (r.1, { x with ob := r.2, ticks := x.ticks + 1 })

def reference (handle : Nat) (x : Kernel) : Nat × Kernel :=
  let r := obReferenceObject handle x.ob
  (r.1, { x with ob := r.2 })

def keDeleteThreadObject (body : Nat) (x : Kernel) : Kernel :=
  if (x.thread body).stack = 0 then x
  else (x.kfree (x.thread body).stack).setThread body { x.thread body with stack := 0 }

def host : Host Kernel DeleteProc where
  ob := Kernel.ob
  setOb ob x := { x with ob }
  delete
    | .keDeleteThreadObject => keDeleteThreadObject
    | .other _ => fun _ x => x
  kfree := kfree

def dereference (handle : Nat) (x : Kernel) : Kernel := obDereferenceObject host handle x

def threadName (n : Nat) : Name :=
  ("Thread".toList ++ Nat.toDigits 10 n).map fun c => UInt8.ofNat c.toNat

def keAttachCurrentThread (arch : Arch) (alloc : AllocOracle) (name : Option Name) (x : Kernel) :
    Kernel :=
  let (thread, x) := x.kmalloc alloc (sizeofThread arch)
  if thread = 0 ∨ x.sched.currentThread ≠ 0 then x
  else
    let x := x.setThread thread ⟨0, .running, 0, 0⟩
    let (handle, x) := x.createObject alloc x.threadObjectType (some (name.getD mainThread)) thread
      (sizeofThread arch)
    let x := x.setThread thread { x.thread thread with handle }
    { x with
      sched := { x.sched with currentThread := thread, readyQueue := thread }
      bootThread := thread }
where
  mainThread : Name := "MainThread".toList.map fun c => UInt8.ofNat c.toNat

/-- `KeCreateThread`: the handle, and the kernel after it. The `kmalloc` of the stack is not
checked. -/
def keCreateThread (arch : Arch) (alloc : AllocOracle) (fuel stackSize : Nat) (x : Kernel) :
    Option (Nat × Kernel) :=
  let (thread, x) := x.kmalloc alloc (sizeofThread arch)
  if thread = 0 then some (invalidHandle, x)
  else
    let (stack, x) := x.kmalloc alloc (if stackSize = 0 then defaultStackSize else stackSize)
    let x := x.setThread thread ⟨0, .ready, stack, 0⟩
    match keAppendReadyThread fuel thread x.sched with
    | none => none
    | some sched =>
      let x := { x with sched }
      let n := x.threadCount
      let x := { x with threadCount := u32 (n + 1) }
      let (handle, x) := x.createObject alloc x.threadObjectType (some (threadName n)) thread
        (sizeofThread arch)
      if handle = invalidHandle then
        -- the thread stays in the queue
        some (invalidHandle, (x.kfree (x.thread thread).stack).kfree thread)
      else some (handle, x.setThread thread { x.thread thread with handle })

/-- The end of `KeThreadBootstrap`, once the entry point has returned. -/
def exitThread (x : Kernel) : Kernel :=
  if x.sched.currentThread = 0 then x
  else { x with sched := x.sched.setState x.sched.currentThread .terminated }

def keTerminateThread (handle : Nat) (x : Kernel) : Kernel :=
  let (thread, x) := x.reference handle
  if thread = 0 then x
  else dereference handle { x with sched := x.sched.setState thread .terminated }

def keYield (fuel : Nat) (x : Kernel) : Option Kernel :=
  (keSelectNextThread fuel x.sched).map fun r => { x with sched := r.2 }

/-- The pass of `CsrssRun` over one application with a thread: once that has terminated, the
reference of the application is given back. -/
def csrssRetire (handle : Nat) (x : Kernel) : Kernel :=
  let (thread, x) := x.reference handle
  if thread = 0 then x
  else
    let remove := decide ((x.thread thread).state = .terminated)
    let x := dereference handle x
    if remove = true ∧ handle ≠ invalidHandle then dereference handle x else x

inductive Act where
  | keAttachCurrentThread (name : Option Name)
  | keCreateThread (stackSize : Nat)
  | keYield
  | exitThread
  | keTerminateThread (handle : Nat)
  | csrssRetire (handle : Nat)
  /-- Another component makes an object of its own. -/
  | obCreateObject (type : Nat) (name : Option Name) (size : Nat)
  | obReferenceObject (handle : Nat)
  | obDereferenceObject (handle : Nat)

/-- A step; `none` says that the fuel ran out. -/
def step (arch : Arch) (alloc : AllocOracle) (fuel : Nat) : Act → Kernel → Option Kernel
  | .keAttachCurrentThread name, x => some (Kernel.keAttachCurrentThread arch alloc name x)
  | .keCreateThread stackSize, x =>
    (Kernel.keCreateThread arch alloc fuel stackSize x).map Prod.snd
  | .keYield, x => Kernel.keYield fuel x
  | .exitThread, x => some (Kernel.exitThread x)
  | .keTerminateThread handle, x => some (Kernel.keTerminateThread handle x)
  | .csrssRetire handle, x => some (Kernel.csrssRetire handle x)
  | .obCreateObject type name size, x =>
    let (body, x) := x.kmalloc alloc size
    some (x.createObject alloc type name body size).2
  | .obReferenceObject handle, x => some (x.reference handle).2
  | .obDereferenceObject handle, x => some (dereference handle x)

/-- `ObInit` and the types of `IoInit` and `KeInit`. -/
def boot : Kernel where
  sched :=
    { threads := fun _ => ⟨0, .ready, 0, 0⟩, currentThread := 0, readyQueue := 0,
      schedulerTicks := 0 }
  ob := (keBoot (fun _ => 0) 0).ob
  blocks := []
  ticks := 0
  threadCount := 0
  threadObjectType := (keBoot (fun _ => 0) 0).threadObjectType
  bootThread := 0

/-- The states reached from `boot` by steps that satisfy `ok` when they are taken. -/
inductive Reachable (arch : Arch) (alloc : AllocOracle) (ok : Act → Kernel → Prop) :
    Kernel → Prop where
  | boot : Reachable arch alloc ok boot
  | step {x x' : Kernel} {a : Act} {fuel : Nat} : Reachable arch alloc ok x → ok a x →
      step arch alloc fuel a x = some x' → Reachable arch alloc ok x'

end Kernel

end DiscouNT.Ke
