import DiscouNT.Io.Device
import DiscouNT.Lib.Links

/-!
# Wdf.WdmDevices

The lists a framework device is on, from `compat/wdf/platform/src/wdf_core.c`: `wdf_devices`, and the
list of `DEVICE_OBJECT`s that starts at `DeviceObject` of the driver's `DRIVER_OBJECT`.

* Blocks of `kmalloc` are named by addresses that are not given out twice. A call gives `none` where
  it reads a block that is not allocated, among them that at null.
* `next_global` and `NextDevice` are maps of their own.
* The drivers are there from the start. Deletion is that of a device object alone: the objects below
  it are deleted by calls before, as are those a callback deletes.
* The calls of the I/O manager are those of `Io`; `alloc` is the allocator of both.
-/

namespace DiscouNT.Wdf
namespace Wdm

open Lib Function

structure Driver where
  wdmDriver : Nat
  ioDriver : Nat

structure Device where
  wdmDevice : Nat
  driver : Nat
  ioDevice : Nat
deriving DecidableEq, Repr

structure World where
  io : Io.World
  -- the `wdf_driver` at an address
  drivers : Nat → Driver
  -- the `wdf_device` at an address, and its `next_global`
  devices : Nat → Option Device
  nextGlobal : Nat → Option Nat
  -- `NextDevice` of a `DEVICE_OBJECT`, and `DeviceObject` of a `DRIVER_OBJECT`
  nextDevice : Nat → Option Nat
  deviceObject : Nat → Nat
  wdfDevices : Nat
  wdfDeviceNumber : Nat
  next : Nat

-- the sizes only matter to `kmalloc`
def sizeofWdfDevice : Nat := 112
def sizeofDeviceObject : Nat := 96

namespace World

def kmalloc (alloc : Io.Allocator) (size : Nat) (w : World) : Option Nat × World :=
  let io := { w.io with ticks := w.io.ticks + 1 }
  if alloc w.io.ticks size then (some w.next, { w with io, next := w.next + 1 })
  else (none, { w with io })

def setDevice (d : Nat) (device : Option Device) (w : World) : World :=
  { w with devices := update w.devices d device }

def wdmDriver (driver : Nat) (w : World) : Nat := if driver = 0 then 0 else (w.drivers driver).wdmDriver

def ioDriver (driver : Nat) (w : World) : Nat := if driver = 0 then 0 else (w.drivers driver).ioDriver

end World

def leaveGlobal (d : Nat) (w : World) : Option World :=
  (unlink w.nextGlobal d (w.next + 1) w.wdfDevices).map fun (wdfDevices, nextGlobal) =>
    { w with wdfDevices, nextGlobal }

def deleteIoDevice (device : Device) (w : World) : World :=
  if device.ioDevice = 0 then w
  else { w with io := Io.ioDeleteDevice Io.dereference device.ioDevice w.io }

def leaveDriver (device : Device) (w : World) : Option World :=
  let m := w.wdmDriver device.driver
  if m = 0 then some w
  else
    (unlink w.nextDevice device.wdmDevice (w.next + 1) (w.deviceObject m)).map fun (head, nextDevice) =>
      { w with deviceObject := update w.deviceObject m head, nextDevice }

def freeDevice (d : Nat) (device : Device) (w : World) : World :=
  { w.setDevice d none with
    nextGlobal := update w.nextGlobal d none
    nextDevice :=
      if device.wdmDevice = 0 then w.nextDevice
      else update w.nextDevice device.wdmDevice none }

def wdfDestroyDevice (d : Nat) (device : Device) (w : World) : Option World :=
  (leaveGlobal d w).bind fun w =>
    (leaveDriver device (deleteIoDevice device w)).map (freeDevice d device)

def wdfObjectDelete (d : Nat) (w : World) : Option World :=
  match w.devices d with
  | none => some w
  | some device => wdfDestroyDevice d device w

def makeDevice (d driver : Nat) (w : World) : World :=
  { w.setDevice d (some ⟨0, driver, 0⟩) with nextGlobal := update w.nextGlobal d (some 0) }

def wdfNewDevice (alloc : Io.Allocator) (driver contextSize : Nat) (w : World) :
    Option Nat × World :=
  match w.kmalloc alloc sizeofWdfDevice with
  | (none, w) => (none, w)
  | (some d, w) =>
    let w := makeDevice d driver w
    if contextSize = 0 then (some d, w)
    else
      match w.kmalloc alloc contextSize with
      | (none, w) => (none, freeDevice d ⟨0, driver, 0⟩ w)
      | (some _, w) => (some d, w)

/-- The new `DEVICE_OBJECT` is put in front of the list of its driver. -/
def linkDevice (driver wdm : Nat) (w : World) : World :=
  let m := w.wdmDriver driver
  if m = 0 then { w with nextDevice := update w.nextDevice wdm (some 0) }
  else
    { w with
      nextDevice := update w.nextDevice wdm (some (w.deviceObject m))
      deviceObject := update w.deviceObject m wdm }

def deviceName (n : Nat) : Ob.Name :=
  [87, 100, 102, 68, 101, 118, 105, 99, 101, UInt8.ofNat (48 + n % 10)]

/-- The rest of `wdf_device_create` when the `DEVICE_OBJECT` is linked. -/
def createIoDevice (alloc : Io.Allocator) (driver d wdm : Nat) (w : World) :
    Option (Nat × World) :=
  let r := Io.ioCreateDevice alloc (w.ioDriver driver) (some (deviceName w.wdfDeviceNumber)) 0 w.io
  let w := { w with io := r.2, wdfDeviceNumber := u32 (w.wdfDeviceNumber + 1) }
  if r.1 = 0 then
    let w := { w with nextDevice := update w.nextDevice wdm none }
    (wdfDestroyDevice d ⟨0, driver, 0⟩ w).map fun w => (0, w)
  else
    some (d, { w.setDevice d (some ⟨wdm, driver, r.1⟩) with
      nextGlobal := update w.nextGlobal d (some w.wdfDevices)
      wdfDevices := d })

/-- `wdf_device_create`: the handle, 0 when it fails. `driver` is null when the globals do not name
one. -/
def wdfDeviceCreate (alloc : Io.Allocator) (driver contextSize : Nat) (w : World) :
    Option (Nat × World) :=
  match wdfNewDevice alloc driver contextSize w with
  | (none, w) => some (0, w)
  | (some d, w) =>
    match w.kmalloc alloc sizeofDeviceObject with
    | (none, w) => (wdfDestroyDevice d ⟨0, driver, 0⟩ w).map fun w => (0, w)
    | (some wdm, w) => createIoDevice alloc driver d wdm (linkDevice driver wdm w)

inductive Op where
  | deviceCreate (driver contextSize : Nat)
  | objectDelete (d : Nat)
  /-- A call of another component. -/
  | io (op : Io.Op)

def step (alloc : Io.Allocator) : Op → World → Option World
  | .deviceCreate driver contextSize, w => (wdfDeviceCreate alloc driver contextSize w).map (·.2)
  | .objectDelete d, w => wdfObjectDelete d w
  | .io op, w => some { w with io := Io.step alloc op w.io }

def run (alloc : Io.Allocator) : List Op → World → Option World
  | [], w => some w
  | op :: ops, w => (step alloc op w).bind (run alloc ops)

def World.start (io : Io.World) (drivers : Nat → Driver) : World where
  io := io
  drivers := drivers
  devices := fun _ => none
  nextGlobal := fun _ => none
  nextDevice := fun _ => none
  deviceObject := fun _ => 0
  wdfDevices := 0
  wdfDeviceNumber := 0
  next := 1

structure Exact (w : World) : Prop where
  devices : ∃ l, Lib.Linked w.nextGlobal w.wdfDevices l ∧ ∀ d, d ∈ l ↔ (w.devices d).isSome
  wdm : ∀ m, m ≠ 0 → ∃ l, Lib.Linked w.nextDevice (w.deviceObject m) l ∧
    ∀ x, x ∈ l ↔ ∃ d device, w.devices d = some device ∧ w.wdmDriver device.driver = m ∧
      device.wdmDevice = x

structure SameLists (w w' : World) : Prop where
  wdfDevices : w'.wdfDevices = w.wdfDevices
  deviceObject : w'.deviceObject = w.deviceObject
  devices : ∀ l, Lib.Linked w.nextGlobal w.wdfDevices l → Lib.Linked w'.nextGlobal w'.wdfDevices l
  wdm : ∀ m l, m ≠ 0 → Lib.Linked w.nextDevice (w.deviceObject m) l →
    Lib.Linked w'.nextDevice (w'.deviceObject m) l

/-- Every call returns, the lists are exact whenever one does, and one that fails to create a device
leaves them as they were. -/
def Correct (alloc : Io.Allocator) : List Op → World → Prop
  | [], w => Exact w
  | op :: ops, w => Exact w ∧ ∃ w', step alloc op w = some w' ∧ Correct alloc ops w' ∧
      ∀ driver contextSize, op = .deviceCreate driver contextSize →
        wdfDeviceCreate alloc driver contextSize w = some (0, w') → SameLists w w'

/-- `IoCreateDevice` is given a driver and a name that is not in use, there is memory, and the object
table has room. -/
structure Accepts (alloc : Io.Allocator) (driver : Nat) (name : Ob.Name) (io : Io.World) : Prop where
  given : driver ≠ 0
  type : (io.drivers driver).type = Io.ioTypeDriver
  unused : ∀ k obj, io.ob.lookup k = some obj → ¬ (obj.type = io.deviceObjectType ∧ obj.name = name)
  memory : (io.kmalloc alloc Io.sizeofDevice).1 ≠ 0
  object : alloc (io.ticks + 1) Io.sizeofObject = true
  registered : Ob.obGetObjectType io.ob io.deviceObjectType ≠ none
  slot : Ob.freeSlot io.ob ≠ none

/-- What `wdf_device_create` asks for: memory for the object and its context ... -/
def HasObject (alloc : Io.Allocator) (contextSize : Nat) (w : World) : Prop :=
  alloc w.io.ticks sizeofWdfDevice = true ∧
    (contextSize = 0 ∨ alloc (w.io.ticks + 1) contextSize = true)

def ticksAfter (contextSize : Nat) (w : World) : Nat :=
  w.io.ticks + if contextSize = 0 then 1 else 2

/-- ... and, once it has these, for the `DEVICE_OBJECT` and the device of the I/O manager. It is given
what it asks for, or has nothing to take back. -/
def Served (alloc : Io.Allocator) (driver contextSize : Nat) (w : World) : Prop :=
  w.wdmDriver driver = 0 ∨ ¬ HasObject alloc contextSize w ∨
    (alloc (ticksAfter contextSize w) sizeofDeviceObject = true ∧
      Accepts alloc (w.ioDriver driver) (deviceName w.wdfDeviceNumber)
        { w.io with ticks := ticksAfter contextSize w + 1 })

def Meets (alloc : Io.Allocator) : List Op → World → Prop
  | [], _ => True
  | op :: ops, w =>
    (∀ driver contextSize, op = .deviceCreate driver contextSize → Served alloc driver contextSize w) ∧
      ∀ w', step alloc op w = some w' → Meets alloc ops w'

section Accepted

variable {alloc : Io.Allocator} {driver : Nat} {name : Ob.Name} {io : Io.World}

theorem kmalloc_fst {size : Nat} :
    (io.kmalloc alloc size).1 = if alloc io.ticks size then io.next else 0 := by
  rw [Io.World.kmalloc]
  split <;> rfl

theorem kmalloc_snd {size : Nat} : (io.kmalloc alloc size).2.ob = io.ob ∧
    (io.kmalloc alloc size).2.deviceObjectType = io.deviceObjectType ∧
    (io.kmalloc alloc size).2.ticks = io.ticks + 1 := by
  rw [Io.World.kmalloc]
  split <;> exact ⟨rfl, rfl, rfl⟩

theorem accepts_touch :
    Accepts alloc driver name (io.touch driver) ↔ Accepts alloc driver name io := by
  rw [Io.World.touch]
  split
  · rfl
  · constructor <;> rintro ⟨hgiven, htype, hunused, hmemory, hobject, hregistered, hslot⟩ <;>
      exact ⟨hgiven, htype, hunused, by rw [kmalloc_fst] at hmemory ⊢; exact hmemory, hobject,
        hregistered, hslot⟩

theorem obCreateObject_iff {δ : Type} {allocated : Bool} {type body size : Nat} {name : Option Ob.Name}
    {ob : Ob.ObState δ} : (Ob.obCreateObject allocated type name body size ob).1 ≠ Ob.invalidHandle ↔
      allocated = true ∧ Ob.obGetObjectType ob type ≠ none ∧ Ob.freeSlot ob ≠ none := by
  rw [Ob.obCreateObject]
  rcases htype : Ob.obGetObjectType ob type with _ | t
  · simp
  · rcases hslot : Ob.freeSlot ob with _ | i
    · simp
    · have hi := Ob.lt_invalidHandle (Ob.freeSlot_spec hslot).1
      cases allocated
      · simp
      · simpa using hi

theorem ioCreateDevice_iff (hname : name ≠ []) :
    (Io.ioCreateDevice alloc driver (some name) 0 io).1 ≠ 0 ↔ Accepts alloc driver name io := by
  rw [Io.ioCreateDevice]
  by_cases hgiven : driver = 0
  · rw [if_pos hgiven]
    exact ⟨fun h => absurd rfl h, fun h => absurd hgiven h.given⟩
  rw [if_neg hgiven, ← accepts_touch]
  generalize io.touch driver = io
  dsimp only
  by_cases htype : (io.drivers driver).type = Io.ioTypeDriver
  · rw [if_neg (by simp [htype, hname])]
    by_cases hfind : Ob.obFindObject (some name) io.deviceObjectType io.ob = Ob.invalidHandle
    · rw [if_neg (by simpa using hfind)]
      obtain ⟨hob, htypes, hticks⟩ := @kmalloc_snd alloc io Io.sizeofDevice
      rcases hmemory : io.kmalloc alloc Io.sizeofDevice with ⟨device, w⟩
      rw [hmemory] at hob htypes hticks
      dsimp only at hob htypes hticks ⊢
      by_cases hdevice : device = 0
      · rw [if_pos hdevice]
        refine ⟨fun h => absurd rfl h, fun h => ?_⟩
        have hnull := h.memory
        rw [hmemory] at hnull
        exact absurd hdevice hnull
      · have hobject := @obCreateObject_iff _ (alloc w.ticks Io.sizeofObject) io.deviceObjectType device
          Io.sizeofDevice (some name) io.ob
        rw [hticks] at hobject
        rw [if_neg hdevice, Io.allocExtension, if_pos rfl]
        dsimp only
        rw [if_neg (by simp)]
        simp only [Io.World.createObject, Io.World.setDevice, hob, htypes, hticks]
        split
        · rename_i hfull
          refine ⟨fun h => absurd rfl h, fun h => ?_⟩
          exact absurd hfull (hobject.mpr ⟨h.object, h.registered, h.slot⟩)
        · rename_i hhandle
          refine ⟨fun _ => ?_, fun _ => hdevice⟩
          obtain ⟨hmem, hregistered, hslot⟩ := hobject.mp hhandle
          exact ⟨hgiven, htype, Ob.obFindObject_none.mp hfind, by rw [hmemory]; exact hdevice, hmem,
            hregistered, hslot⟩
    · rw [if_pos hfind]
      exact ⟨fun h => absurd rfl h, fun h => absurd (Ob.obFindObject_none.mpr h.unused) hfind⟩
  · rw [if_pos (.inl htype)]
    exact ⟨fun h => absurd rfl h, fun h => absurd h.type htype⟩

end Accepted

end Wdm
end DiscouNT.Wdf
