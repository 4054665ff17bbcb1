import DiscouNT.Lib.Chain
import DiscouNT.Ob.Object

/-!
# Io.Device

Drivers and devices of `kernel/io/io.c`, on top of the object manager.

* Drivers, devices and extensions are blocks of `kmalloc`, named by addresses that are not given
  out twice; `live` are those that are not freed. A freed record keeps its contents, and a function
  that reads one sets `fault`, as does a loop that does not end.
* The device list of a driver is followed through `next_device`.
* `ObDereferenceObject` and the delete procedures call each other. The nesting is counted down;
  there are only so many handles whose object can be on its way out.
* `driver->unload` is left out: none of these functions sets it.
* `history` is no variable of the code.
-/

namespace DiscouNT.Io

open Lib Function
open Ob

def ioTypeDriver : Nat := 0x44525652
def ioTypeDevice : Nat := 0x44455643
def ioMaxMajorFunction : Nat := 8

def ioStatusInvalidParameter : Int := -1
def ioStatusNotSupported : Int := -3
def ioStatusDeviceError : Int := -5

/-- The delete procedures in the type registry; `other` are those of other components, which do not
work on drivers, devices or the object table. -/
inductive DeleteProc where
  | ioDeleteDriverBody
  | ioDeleteDeviceBody
  | other (n : Nat)
deriving DecidableEq, Repr

/-- `IO_DRIVER_OBJECT`; a null entry of the two dispatch tables is 0. -/
structure Driver where
  type : Nat
  handle : Nat
  deviceList : Nat
  majorFunction : Nat → Nat
  platformDispatch : Nat → Nat

structure Device where
  type : Nat
  driver : Nat
  deviceExtension : Nat
  nextDevice : Nat
  handle : Nat
deriving DecidableEq, Repr

inductive DeviceEvent where
  /-- `IoCreateDevice` made a device for a driver. -/
  | created (device driver : Nat)
  /-- `IoDeleteDevice` was called for a device. -/
  | removed (device : Nat)
deriving DecidableEq, Repr

structure World where
  ob : ObState DeleteProc
  drivers : Nat → Driver
  devices : Nat → Device
  live : Nat → Bool
  next : Nat
  ticks : Nat
  driverObjectType : Nat
  deviceObjectType : Nat
  currentDriver : Nat
  fault : Bool
  history : List DeviceEvent

/-- Whether the `n`-th `kmalloc`, of that size, succeeds. -/
abbrev Allocator := Nat → Nat → Bool

-- the sizes only matter to `kmalloc`
def sizeofObject : Nat := 56
def sizeofDriver : Nat := 256
def sizeofDevice : Nat := 80

namespace World

def kmalloc (alloc : Allocator) (size : Nat) (w : World) : Nat × World :=
  if alloc w.ticks size then
    (w.next, { w with
      live := update w.live w.next true
      next := w.next + 1
      ticks := w.ticks + 1 })
  else (0, { w with ticks := w.ticks + 1 })

def kfree (a : Nat) (w : World) : World :=
  { w with live := update w.live a false }

def touch (a : Nat) (w : World) : World := if w.live a then w else { w with fault := true }

def setDriver (a : Nat) (d : Driver) (w : World) : World :=
  { w with drivers := update w.drivers a d }

def setDevice (a : Nat) (d : Device) (w : World) : World :=
  { w with devices := update w.devices a d }

def log (e : DeviceEvent) (w : World) : World := { w with history := e :: w.history }

/-- `ObCreateObject`, whose `kmalloc` of the `OBJECT` counts as one call. -/
def createObject (alloc : Allocator) (type : Nat) (name : Option Name) (body size : Nat)
    (w : World) : Nat × World :=
  let r := obCreateObject (alloc w.ticks sizeofObject) type name body size w.ob
  (r.1, { w with ob := r.2, ticks := w.ticks + 1 })

end World

/-- The `while` loop of `IoDeleteDevice`: the link it stops at, `none` for `driver->device_list` and
`some d` for `d->next_device`, and what that holds. -/
def findLink (w : World) (device : Nat) : Nat → Option Nat → Nat → Option (Option Nat × Nat)
  | 0, _, _ => none
  | fuel + 1, link, cur =>
    if cur = 0 ∨ cur = device then some (link, cur)
    else if w.live cur = false then none
    else findLink w device fuel (some cur) (w.devices cur).nextDevice

def setLink (driver : Nat) (link : Option Nat) (v : Nat) (w : World) : World :=
  match link with
  | none => w.setDriver driver { w.drivers driver with deviceList := v }
  | some d => w.setDevice d { w.devices d with nextDevice := v }

def unlinkDevice (driver device : Nat) (w : World) : World :=
  let w := w.touch driver
  match findLink w device (w.next + 1) none (w.drivers driver).deviceList with
  | none => { w with fault := true }
  | some (link, cur) =>
    if cur = device then setLink driver link (w.devices device).nextDevice w else w

def ioDeleteDevice (dereference : Nat → World → World) (device : Nat) (w : World) : World :=
  if device = 0 then w
  else
    let w := w.touch device
    if (w.devices device).type ≠ ioTypeDevice then w
    else
      let w := w.log (.removed device)
      let driver := (w.devices device).driver
      let w := if driver ≠ 0 then unlinkDevice driver device w else w
      dereference (w.devices device).handle w

def drainDevices (deleteDevice : Nat → World → World) (driver : Nat) : Nat → World → World
  | 0, w => { w with fault := true }
  | fuel + 1, w =>
    let device := (w.drivers driver).deviceList
    if device = 0 then w else drainDevices deleteDevice driver fuel (deleteDevice device w)

def ioDeleteDriverBody (deleteDevice : Nat → World → World) (body : Nat) (w : World) : World :=
  drainDevices deleteDevice body (w.next + 1) (w.touch body)

def ioDeleteDeviceBody (body : Nat) (w : World) : World :=
  let w := w.touch body
  let d := w.devices body
  if d.deviceExtension = 0 then w
  else (w.kfree d.deviceExtension).setDevice body { d with deviceExtension := 0 }

def host (dereference : Nat → World → World) : Host World DeleteProc where
  ob := World.ob
  setOb ob w := { w with ob }
  delete
    | .ioDeleteDriverBody => ioDeleteDriverBody (ioDeleteDevice dereference)
    | .ioDeleteDeviceBody => ioDeleteDeviceBody
    | .other _ => fun _ w => w
  kfree := World.kfree

theorem obDereferenceObject_host (dereference : Nat → World → World) (handle : Nat) (w : World) :
    obDereferenceObject (host dereference) handle w =
      match w.ob.lookup handle with
      | none => w
      | some obj =>
        if obj.release.refCount ≠ 0 then { w with ob := w.ob.put handle obj.release }
        else
          let v := deleteBody (host dereference) obj.release
            { w with ob := w.ob.put handle obj.release }
          { v with ob := v.ob.clear handle } := rfl

/-- `ObDereferenceObject`, nested at most `depth` deep. -/
def dereferenceAt : Nat → Nat → World → World
  | 0, _, w => { w with fault := true }
  | depth + 1, handle, w => obDereferenceObject (host (dereferenceAt depth)) handle w

def dereference (handle : Nat) (w : World) : World := dereferenceAt (maxObjects + 1) handle w

/-- `ObInit`, `IoInit` and the types that `KeInit` registers. -/
def boot : World :=
  let r := obRegisterObjectType (name "IoDriver") (some .ioDeleteDriverBody) obInit
  let s := obRegisterObjectType (name "IoDevice") (some .ioDeleteDeviceBody) r.2
  let ob := (obRegisterObjectType (name "Process") none s.2).2
  let ob := (obRegisterObjectType (name "Thread") (some (.other 0)) ob).2
  let ob := (obRegisterObjectType (name "Event") none ob).2
  let ob := (obRegisterObjectType (name "Mutex") none ob).2
  { ob, drivers := fun _ => ⟨0, 0, 0, fun _ => 0, fun _ => 0⟩, devices := fun _ => ⟨0, 0, 0, 0, 0⟩,
    live := fun _ => false, next := 1, ticks := 0, driverObjectType := r.1,
    deviceObjectType := s.1, currentDriver := 0, fault := false, history := [] }
where
  name (s : String) : Name := s.toList.map fun c => UInt8.ofNat c.toNat

def ioCreateDriver (alloc : Allocator) (name : Option Name) (w : World) : Nat × World :=
  if w.driverObjectType = 0 ∨ name = none then (0, w)
  else
    let (driver, w) := w.kmalloc alloc sizeofDriver
    if driver = 0 then (0, w)
    else
      let d : Driver := ⟨ioTypeDriver, 0, 0, fun _ => 0, fun _ => 0⟩
      let (handle, w) :=
        (w.setDriver driver d).createObject alloc w.driverObjectType name driver sizeofDriver
      if handle = invalidHandle then (0, w.kfree driver)
      else (driver, w.setDriver driver { d with handle })

def allocExtension (alloc : Allocator) (size : Nat) (w : World) : Nat × World :=
  if size = 0 then (0, w) else w.kmalloc alloc size

def ioCreateDevice (alloc : Allocator) (driver : Nat) (name : Option Name) (extensionSize : Nat)
    (w : World) : Nat × World :=
  if driver = 0 then (0, w)
  else
    let w := w.touch driver
    if (w.drivers driver).type ≠ ioTypeDriver ∨ name = none ∨ name = some [] then (0, w)
    else if obFindObject name w.deviceObjectType w.ob ≠ invalidHandle then (0, w)
    else
      let (device, w) := w.kmalloc alloc sizeofDevice
      if device = 0 then (0, w)
      else
        let (extension, w) := allocExtension alloc extensionSize w
        if extensionSize ≠ 0 ∧ extension = 0 then (0, w.kfree device)
        else
          let d : Device := ⟨ioTypeDevice, driver, extension, 0, 0⟩
          let (handle, w) :=
            (w.setDevice device d).createObject alloc w.deviceObjectType name device sizeofDevice
          if handle = invalidHandle then
            let w := if extension = 0 then w else w.kfree extension
            (0, w.kfree device)
          else
            let d := { d with handle, nextDevice := (w.drivers driver).deviceList }
            let w := (w.setDevice device d).setDriver driver
              { w.drivers driver with deviceList := device }
            (device, w.log (.created device driver))

def ioGetDevice (name : Option Name) (w : World) : Nat × World :=
  if name = none ∨ w.deviceObjectType = 0 then (0, w)
  else
    let handle := obFindObject name w.deviceObjectType w.ob
    if handle = invalidHandle then (0, w)
    else
      let r := obReferenceObject handle w.ob
      (r.1, { w with ob := r.2 })

def ioDeleteDriver (driver : Nat) (w : World) : World :=
  if driver = 0 then w
  else
    let w := w.touch driver
    if (w.drivers driver).type ≠ ioTypeDriver then w
    else
      let w := if w.currentDriver = driver then { w with currentDriver := 0 } else w
      dereference (w.drivers driver).handle w

structure Request where
  majorFunction : Nat
  status : Int
  information : Nat
deriving DecidableEq, Repr

/-- `IoCallDriver`; `run` is the code of the dispatch routines, by address, and a null request is
`none`. -/
def ioCallDriver (run : Nat → Nat → Request → Int × Request) (device : Nat)
    (request : Option Request) (w : World) : Int × Option Request × World :=
  if device = 0 then (ioStatusInvalidParameter, request, w)
  else
    let w := w.touch device
    let d := w.devices device
    match request with
    | none => (ioStatusInvalidParameter, none, w)
    | some r =>
      if d.type ≠ ioTypeDevice ∨ d.driver = 0 ∨ ioMaxMajorFunction ≤ r.majorFunction then
        (ioStatusInvalidParameter, some r, w)
      else
        let w := w.touch d.driver
        let dispatch := (w.drivers d.driver).majorFunction r.majorFunction
        let platform := (w.drivers d.driver).platformDispatch r.majorFunction
        if dispatch = 0 ∧ platform ≠ 0 then
          let (status, r) := run platform device r
          (status, some { r with status }, w)
        else if dispatch = 0 then
          (ioStatusNotSupported, some { r with status := ioStatusNotSupported, information := 0 }, w)
        else
          let (status, r) :=
            run dispatch device { r with status := ioStatusDeviceError, information := 0 }
          (status, some { r with status }, w)

inductive Op where
  | obRegisterObjectType (name : Name) (proc : Option Nat)
  /-- `ObCreateObject` by another component, with a null body or one from `kmalloc`. -/
  | obCreateObject (type : Nat) (name : Option Name) (null : Bool) (size : Nat)
  | obReferenceObject (handle : Nat)
  | obDereferenceObject (handle : Nat)
  | ioCreateDriver (name : Option Name)
  | ioCreateDevice (driver : Nat) (name : Option Name) (extensionSize : Nat)
  | ioGetDevice (name : Option Name)
  | ioDeleteDevice (device : Nat)
  | ioDeleteDriver (driver : Nat)
deriving DecidableEq, Repr

def step (alloc : Allocator) : Op → World → World
  | .obRegisterObjectType name proc, w =>
    { w with ob := (obRegisterObjectType name (proc.map .other) w.ob).2 }
  | .obCreateObject type name null size, w =>
    let (body, w) := if null then (0, w) else w.kmalloc alloc size
    (w.createObject alloc type name body size).2
  | .obReferenceObject handle, w => { w with ob := (obReferenceObject handle w.ob).2 }
  | .obDereferenceObject handle, w => dereference handle w
  | .ioCreateDriver name, w => (ioCreateDriver alloc name w).2
  | .ioCreateDevice driver name size, w => (ioCreateDevice alloc driver name size w).2
  | .ioGetDevice name, w => (ioGetDevice name w).2
  | .ioDeleteDevice device, w => ioDeleteDevice dereference device w
  | .ioDeleteDriver driver, w => ioDeleteDriver driver w

def run (alloc : Allocator) : List Op → World → World
  | [], w => w
  | op :: ops, w => run alloc ops (step alloc op w)

/-- The states reached from `boot` by calls that satisfy `ok` when they are made. -/
inductive Reachable (alloc : Allocator) (ok : Op → World → Prop) : World → Prop where
  | boot : Reachable alloc ok boot
  | step {w : World} {op : Op} : Reachable alloc ok w → ok op w →
      Reachable alloc ok (step alloc op w)

end DiscouNT.Io
