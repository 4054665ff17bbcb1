import DiscouNT.Arch
import DiscouNT.Lib.Tasks

/-!
# Wdf.Object

Objects of the driver framework, from `compat/wdf/platform/src/wdf_core.c`: drivers, devices,
queues, requests and memory objects in parent and child trees with reference counts.

* Allocated objects are the map `objects` from addresses. An address that is not in it belongs to
  no object: `magic` was cleared before the block was freed, so `wdf_from_handle` refuses it.
* `first_child` and the chain of `next_sibling` are the list `children`, newest child first.
* `wdf_destroy_object` is a stack of tasks, since callbacks may delete further objects while it
  runs. A callback is the list of handles it passes to `WdfObjectDelete`.
* `serial` numbers the objects in the order of their creation, and `held` counts the creation
  reference and the explicit references that have not been released. Both are there for the
  statements only, as is the `log`, newest event first.
-/

namespace DiscouNT.Wdf

open Lib

inductive ObjectType where
  | driver
  | device
  | queue
  | request
  | memory
deriving DecidableEq, Repr

structure Object where
  type : ObjectType
  destroying : Bool := false
  references : Nat := 1
  parent : Option Nat := none
  children : List Nat := []
  cleanup : Bool := false
  destroy : Bool := false
  -- of a driver
  driverUnload : Bool := false
  unloadCalled : Bool := false
  -- of a device
  defaultQueue : Option Nat := none
  -- of a queue
  device : Option Nat := none
  evtDefault : Bool := false
  evtRead : Bool := false
  evtWrite : Bool := false
  evtDeviceControl : Bool := false
  serial : Nat
  held : Nat := 1
deriving DecidableEq, Repr

inductive Evt where
  | default
  | read
  | write
  | deviceControl
deriving DecidableEq, Repr

inductive Event where
  | created (serial : Nat) (parent : Option Nat)
  -- a release took the count to zero; what was held and linked then
  | released (held children : Nat)
  | unload (serial : Nat)
  | cleanup (serial : Nat)
  | destroy (serial : Nat)
  | freed (o : Object)
  | invoked (queue : Nat) (evt : Evt)
  -- memory of an object that had been freed was used as that object
  | stale (address : Nat)
deriving DecidableEq, Repr

structure World where
  objects : Nat → Option Object
  -- the list `wdf_devices`
  devices : List Nat
  created : Nat
  log : List Event

namespace World

def put (w : World) (a : Nat) (o : Option Object) : World :=
  { w with objects := fun b => if b = a then o else w.objects b }

def note (w : World) (e : Event) : World := { w with log := e :: w.log }

@[simp] theorem put_same (w : World) (a : Nat) (o : Option Object) : (w.put a o).objects a = o := by
  simp [put]

theorem put_other (w : World) {a b : Nat} (o : Option Object) (h : b ≠ a) :
    (w.put a o).objects b = w.objects b := by
  simp [put, h]

@[simp] theorem put_devices (w : World) (a : Nat) (o : Option Object) :
    (w.put a o).devices = w.devices := rfl
@[simp] theorem put_created (w : World) (a : Nat) (o : Option Object) :
    (w.put a o).created = w.created := rfl
@[simp] theorem put_log (w : World) (a : Nat) (o : Option Object) : (w.put a o).log = w.log := rfl
@[simp] theorem note_objects (w : World) (e : Event) : (w.note e).objects = w.objects := rfl
@[simp] theorem note_devices (w : World) (e : Event) : (w.note e).devices = w.devices := rfl
@[simp] theorem note_created (w : World) (e : Event) : (w.note e).created = w.created := rfl
@[simp] theorem note_log (w : World) (e : Event) : (w.note e).log = e :: w.log := rfl

end World

def Object.adopt (o : Object) (child : Nat) : Object :=
  { o with children := child :: o.children, references := u32 (o.references + 1) }

def Object.disown (o : Object) (child : Nat) : Object :=
  { o with children := o.children.erase child, references := sub32 o.references 1 }

def wdfLinkChild (parent : Option Nat) (child : Nat) (w : World) : World :=
  match parent with
  | none => w
  | some p =>
    match w.objects p with
    | none => w.note (.stale p)
    | some po => w.put p (some (po.adopt child))

def wdfUnlinkChild (parent : Option Nat) (child : Nat) (w : World) : World :=
  match parent with
  | none => w
  | some p =>
    match w.objects p with
    | none => w.note (.stale p)
    | some po => w.put p (some (po.disown child))

inductive Task where
  -- a call, by `WdfObjectDelete` or from within the framework
  | call (h : Nat)
  | unload (h : Nat)
  | children (h : Nat)
  | cleanup (h : Nat)
  | destroy (h : Nat)
  | finish (h : Nat)
deriving DecidableEq, Repr

/-- The handles each callback of each object passes to `WdfObjectDelete`. -/
structure Callbacks where
  unload : Nat → List Nat
  cleanup : Nat → List Nat
  destroy : Nat → List Nat

def Callbacks.quiet : Callbacks := ⟨fun _ => [], fun _ => [], fun _ => []⟩

def Object.unloads (o : Object) : Bool :=
  decide (o.type = .driver) && !o.unloadCalled && o.driverUnload

def enter (h : Nat) (o : Object) (w : World) : List Task × World :=
  if o.unloads then
    ([.unload h, .children h, .cleanup h, .destroy h, .finish h],
      w.put h (some { o with destroying := true, unloadCalled := true }))
  else
    ([.children h, .cleanup h, .destroy h, .finish h], w.put h (some { o with destroying := true }))

/-- The end of `wdf_destroy_object`: a device leaves `wdf_devices`, then the object leaves its
parent and is freed. -/
def finish (h : Nat) (o : Object) (w : World) : World :=
  let w := if o.type = .device then { w with devices := w.devices.erase h } else w
  let w := wdfUnlinkChild o.parent h w
  (w.put h none).note (.freed o)

/-- One task. A task of an object that is no longer there would be a use after free. -/
def act (cb : Callbacks) : Task → World → List Task × World
  | .call h, w =>
    match w.objects h with
    | none => ([], w)
    | some o => if o.destroying then ([], w) else enter h o w
  | .unload h, w =>
    match w.objects h with
    | none => ([], w.note (.stale h))
    | some o => ((cb.unload h).map .call, w.note (.unload o.serial))
  | .children h, w =>
    match w.objects h with
    | none => ([], w.note (.stale h))
    | some o =>
      match o.children with
      | [] => ([], w)
      | c :: _ =>
        match w.objects c with
        | none => ([], w.note (.stale c))
        | some oc =>
          -- a child that is being destroyed already returns at once and is still linked
          if oc.destroying then ([.children h], w)
          else ((enter c oc w).1 ++ [.children h], (enter c oc w).2)
  | .cleanup h, w =>
    match w.objects h with
    | none => ([], w.note (.stale h))
    | some o =>
      if o.cleanup then ((cb.cleanup h).map .call, w.note (.cleanup o.serial)) else ([], w)
  | .destroy h, w =>
    match w.objects h with
    | none => ([], w.note (.stale h))
    | some o =>
      if o.destroy then ((cb.destroy h).map .call, w.note (.destroy o.serial)) else ([], w)
  | .finish h, w =>
    match w.objects h with
    | none => ([], w.note (.stale h))
    | some o => ([], finish h o w)

def wdfObjectDelete (cb : Callbacks) (h : Nat) (n : Nat) (w : World) : List Task × World :=
  drive (act cb) n ([.call h], w)

/-- A call of `wdf_destroy_object` whose callbacks do not call the framework. The number of tasks
is enough for every object there is. -/
def wdfDestroyObject (h : Nat) (w : World) : World :=
  (wdfObjectDelete .quiet h (6 * w.created + 6) w).2

structure Attributes where
  cleanup : Bool
  destroy : Bool
  parent : Option Nat

structure QueueConfig where
  defaultQueue : Bool
  evtDefault : Bool
  evtRead : Bool
  evtWrite : Bool
  evtDeviceControl : Bool

/-- The object `wdf_new_object` builds, with number `serial`. -/
def Attributes.build (attributes : Option Attributes) (type : ObjectType) (serial : Nat) : Object :=
  match attributes with
  | none => { type, serial }
  | some at' => { type, serial, cleanup := at'.cleanup, destroy := at'.destroy, parent := at'.parent }

/-- `wdf_new_object`, when its blocks can be allocated and the object is put at `a`. -/
def wdfNewObject (a : Nat) (type : ObjectType) (attributes : Option Attributes) (w : World) :
    World :=
  let o := Attributes.build attributes type w.created
  let parent := (o.parent.bind w.objects).map Object.serial
  let w := { w.put a (some o) with created := w.created + 1 }
  wdfLinkChild o.parent a (w.note (.created o.serial parent))

def World.modify (w : World) (a : Nat) (f : Object → Object) : World :=
  match w.objects a with
  | none => w.note (.stale a)
  | some o => w.put a (some (f o))

/-- `wdf_driver_create`. The driver object and `IoCreateDriver` may fail; `EvtDriverUnload` is set
between the two. -/
def wdfDriverCreate (a : Nat) (attributes : Option Attributes) (unload wdm io : Bool) (w : World) :
    World :=
  let w := wdfNewObject a .driver attributes w
  if !wdm then wdfDestroyObject a w
  else
    let w := w.modify a fun o => { o with driverUnload := unload }
    if !io then wdfDestroyObject a w else w

/-- `wdf_device_create`. The device object and `IoCreateDevice` may fail. -/
def wdfDeviceCreate (a : Nat) (attributes : Option Attributes) (wdm io : Bool) (w : World) : World :=
  let w := wdfNewObject a .device attributes w
  if !wdm || !io then wdfDestroyObject a w else { w with devices := a :: w.devices }

/-- What `wdf_queue_create` stores in the new queue at `a` and in its device. -/
def wdfQueueConfigure (a : Nat) (deviceHandle : Nat) (config : Option QueueConfig) (w : World) :
    World :=
  let device := (w.objects deviceHandle).map fun _ => deviceHandle
  let w := w.modify a fun o => { o with device := device }
  match config with
  | none => w
  | some config =>
    let w := w.modify a fun o =>
      { o with evtDefault := config.evtDefault, evtRead := config.evtRead
               evtWrite := config.evtWrite, evtDeviceControl := config.evtDeviceControl }
    match device with
    | none => w
    | some d =>
      if config.defaultQueue then w.modify d fun o => { o with defaultQueue := some a } else w

/-- `wdf_queue_create`. Nothing checks that the handle is that of a device. -/
def wdfQueueCreate (a : Nat) (deviceHandle : Nat) (config : Option QueueConfig)
    (attributes : Option Attributes) (w : World) : World :=
  wdfQueueConfigure a deviceHandle config
    (wdfNewObject a .queue (some (attributes.getD ⟨false, false, some deviceHandle⟩)) w)

def wdfMemoryCreate (a : Nat) (attributes : Option Attributes) (buffer : Bool) (w : World) : World :=
  let w := wdfNewObject a .memory attributes w
  if !buffer then wdfDestroyObject a w else w

def wdfRequestCreate (a : Nat) (attributes : Option Attributes) (w : World) : World :=
  wdfNewObject a .request attributes w

def wdfReference (h : Nat) (w : World) : World :=
  match w.objects h with
  | none => w
  | some o => w.put h (some { o with references := u32 (o.references + 1), held := o.held + 1 })

def wdfDereference (h : Nat) (w : World) : World :=
  match w.objects h with
  | none => w
  | some o =>
    let o := { o with references := sub32 o.references 1, held := o.held - 1 }
    let w := w.put h (some o)
    if o.references = 0 then wdfDestroyObject h (w.note (.released o.held o.children.length)) else w

def Object.evtFor (o : Object) (majorFunction : Nat) : Option Evt :=
  if majorFunction = 2 ∧ o.evtRead = true then some .read
  else if majorFunction = 3 ∧ o.evtWrite = true then some .write
  else if majorFunction = 4 ∧ o.evtDeviceControl = true then some .deviceControl
  else if o.evtDefault = true then some .default
  else none

/-- `wdf_dispatch_wdm` for a device on the list `wdf_devices`, with the request put at `a` if it can
be allocated. -/
def wdfDispatchWdm (d : Nat) (majorFunction : Nat) (a : Option Nat) (w : World) : World :=
  match w.objects d with
  | none => w.note (.stale d)
  | some o =>
    match o.defaultQueue, a with
    | some q, some a =>
      let w := wdfNewObject a .request none w
      let w :=
        match w.objects q with
        | none => w.note (.stale q)
        | some qo =>
          if qo.type = .queue then
            match qo.evtFor majorFunction with
            | none => w
            | some evt => w.note (.invoked q evt)
          else w.note (.stale q)
      wdfDestroyObject a w
    | _, _ => w

/-! ## Runs -/

/-- A call, with what the allocators answer: the address of the object, if there is memory for it,
and whether the other allocations succeed. -/
inductive Op where
  | driverCreate (a : Option Nat) (attributes : Option Attributes) (unload wdm io : Bool)
  | deviceCreate (a : Option Nat) (attributes : Option Attributes) (wdm io : Bool)
  | queueCreate (a : Option Nat) (deviceHandle : Option Nat) (config : Option QueueConfig)
      (attributes : Option Attributes)
  | memoryCreate (a : Option Nat) (attributes : Option Attributes) (buffer : Bool)
  | requestCreate (a : Option Nat) (attributes : Option Attributes)
  | reference (h : Nat)
  | dereference (h : Nat)
  | delete (h : Nat)
  | dispatch (d : Nat) (majorFunction : Nat) (a : Option Nat)

def step : Op → World → World
  | .driverCreate (some a) attributes unload wdm io, w =>
    wdfDriverCreate a attributes unload wdm io w
  | .deviceCreate (some a) attributes wdm io, w => wdfDeviceCreate a attributes wdm io w
  | .queueCreate (some a) (some d) config attributes, w => wdfQueueCreate a d config attributes w
  | .memoryCreate (some a) attributes buffer, w => wdfMemoryCreate a attributes buffer w
  | .requestCreate (some a) attributes, w => wdfRequestCreate a attributes w
  | .reference h, w => wdfReference h w
  | .dereference h, w => wdfDereference h w
  | .delete h, w => wdfDestroyObject h w
  | .dispatch d majorFunction a, w => if d ∈ w.devices then wdfDispatchWdm d majorFunction a w else w
  -- no memory for the object, or a null handle
  | _, w => w

def run (ops : List Op) (w : World) : World := ops.foldl (fun w op => step op w) w

def World.empty : World where
  objects := fun _ => none
  devices := []
  created := 0
  log := []

structure Creation where
  a : Nat
  type : ObjectType
  attributes : Option Attributes

/-- What a call passes to `wdf_new_object`. -/
def Op.creation : Op → Option Creation
  | .driverCreate (some a) attributes _ _ _ => some ⟨a, .driver, attributes⟩
  | .deviceCreate (some a) attributes _ _ => some ⟨a, .device, attributes⟩
  | .queueCreate (some a) (some d) _ attributes =>
    some ⟨a, .queue, some (attributes.getD ⟨false, false, some d⟩)⟩
  | .memoryCreate (some a) attributes _ => some ⟨a, .memory, attributes⟩
  | .requestCreate (some a) attributes => some ⟨a, .request, attributes⟩
  | .dispatch _ _ (some a) => some ⟨a, .request, none⟩
  | _ => none

/-- The allocator hands out free blocks only, and a parent is an object. -/
def Creation.Legal (w : World) (c : Creation) : Prop :=
  w.objects c.a = none ∧ ∀ at' ∈ c.attributes, ∀ p ∈ at'.parent, ∃ o, w.objects p = some o

def Op.Allocates (w : World) (op : Op) : Prop := ∀ c ∈ op.creation, c.Legal w

end DiscouNT.Wdf
