import DiscouNT.Io.DeviceRuns
import DiscouNT.Loader.DllFrame

/-!
# Io.DriverLoad

Loading drivers, from `kernel/io/driver.c`.

* The state is the table of loaded drivers together with the loader and the drivers and devices of
  the kernel. The table is a list, the last driver first, as `DriverResolveSymbol` looks at it.
* A `Platform` is the machine of the loader, the allocator, and the code of every `DriverEntry`:
  which calls it makes of the kernel and of the loader and what it returns. What the loader itself
  asks `DriverResolveSymbol` for stays an answer of the machine.
* The functions that `DriverInstall…` takes from an image are not looked at here.
-/

namespace DiscouNT.Io

open Lib
open Ob

structure LoadedDriver where
  path : Name
  image : Nat
deriving DecidableEq, Repr

structure DriverState where
  loadedDrivers : List LoadedDriver
  loader : Loader.World
  io : World

structure EntryRun where
  calls : List Op
  requests : List Loader.Request
  status : Int

structure Platform where
  machine : Loader.Machine
  fuel : Nat
  alloc : Allocator
  /-- The `DriverEntry` at an address, called for a driver object. -/
  entry : (address driver : Nat) → DriverState → EntryRun

/-- The part of `SERVICE_DESCRIPTOR` that a load reads. A path fits the table. -/
structure DriverService where
  name : Name
  imagePath : Option Name
  fits : ∀ path ∈ imagePath, path.length < 64

def maxLoadedDrivers : Nat := 16

def driverProc (arch : Arch) (w : Loader.World) (image : Nat) (func : Name) : Option Nat :=
  (w.image image).bind fun im => Loader.peGetProcAddress arch im (.name func)

/-- The loop of `DriverResolveSymbol`. -/
def driverResolveIn (arch : Arch) (w : Loader.World) (func : Name) : List LoadedDriver → Option Nat
  | [] => some 0
  | d :: drivers =>
    match driverProc arch w d.image func with
    | none => none
    | some addr => if addr ≠ 0 then some addr else driverResolveIn arch w func drivers

def driverResolveSymbol (arch : Arch) (s : DriverState) : Option Name → Option Nat
  | none => some 0
  | some func => driverResolveIn arch s.loader func s.loadedDrivers

section Load

variable (p : Platform)

abbrev Platform.load : Loader.DllLoader := Loader.peLoadDll p.machine p.fuel

def readImage (path : Name) (s : DriverState) : Option Loader.Image × DriverState :=
  match p.machine.cdfsReadFile path s.loader.ticks with
  | none => (none, s)
  | some file =>
    let r := Loader.peLoadImage p.machine.arch (Loader.loaderEnv p.machine p.load) file
      { s.loader with loadingDriver := true }
    (r.image, { s with loader := { r.world with loadingDriver := false } })

def linkImage (im : Loader.Image) (s : DriverState) : Option Nat × DriverState :=
  let image := s.loader.next
  let r := Loader.peResolveImports p.machine p.load p.fuel image (s.loader.addImage im)
  if r.ok = false then (none, { s with loader := r.world.peFreeImage image })
  else if readLE (r.world.mem image) 0 4 ≠ Loader.elfMagic then
    (some image, { s with loader := r.world.relocate image })
  else (some image, { s with loader := r.world })

/-- `driver_load_one` up to the relocations: the image, if there is one. -/
def prepareImage (path : Name) (s : DriverState) : Option Nat × DriverState :=
  match readImage p path s with
  | (none, s) => (none, s)
  | (some im, s) => linkImage p im s

def driverRegisterImage (path : Name) (image : Nat) (s : DriverState) : DriverState :=
  if maxLoadedDrivers ≤ s.loadedDrivers.length then s
  else { s with loadedDrivers := ⟨path, image⟩ :: s.loadedDrivers }

def callEntry (address driver : Nat) (s : DriverState) : Int × DriverState :=
  let r := p.entry address driver s
  (r.status, { s with
    io := run p.alloc r.calls s.io
    loader := r.requests.foldl (fun w q => Loader.serve p.machine p.load q w) s.loader })

def ioSetCurrentDriver (driver : Nat) (s : DriverState) : DriverState :=
  { s with io := { s.io with currentDriver := driver } }

/-- The state in which `driver_call_entry` calls the entry: its address, the new driver object and
the rest. -/
def beforeEntry (name : Name) (image : Nat) (s : DriverState) : Nat × Nat × DriverState :=
  let e := Loader.getProcAddress p.machine image (.name (Loader.ascii "DriverEntry")) s.loader
  let r := ioCreateDriver p.alloc (some name) s.io
  (e.1, r.1, { s with loader := e.2, io := r.2 })

/-- `driver_call_entry`: what it returns and the driver object it made. -/
def driverCallEntry (name : Name) (image : Nat) (s : DriverState) : Int × Nat × DriverState :=
  let (entry, driver, s) := beforeEntry p name image s
  if driver = 0 then (0, 0, s)
  else if entry = 0 then (1, driver, s)
  else
    let r := callEntry p entry driver (ioSetCurrentDriver driver s)
    let s := ioSetCurrentDriver 0 r.2
    if r.1 = 0 then (0, driver, { s with io := ioDeleteDriver driver s.io }) else (r.1, driver, s)

/-- What `driver_load_one` returns, and the image and the driver object that it made. -/
structure LoadResult where
  ok : Bool
  image : Option Nat
  driver : Nat
  state : DriverState

def driverLoadOne (service : DriverService) (s : DriverState) : LoadResult :=
  match service.imagePath with
  | none => ⟨true, none, 0, s⟩
  | some path =>
    match prepareImage p path s with
    | (none, s) => ⟨false, none, 0, s⟩
    | (some image, s) =>
      let r := driverCallEntry p service.name image (driverRegisterImage path image s)
      ⟨decide (r.1 ≠ 0), some image, r.2.1, r.2.2⟩

/-- The states that loads lead to, and in between calls of the kernel and of the loader. -/
inductive Loaded : DriverState → Prop where
  | boot : Loaded ⟨[], {}, boot⟩
  | load {s : DriverState} (service : DriverService) (hs : Loaded s) :
      Loaded (driverLoadOne p service s).state
  | call {s : DriverState} {op : Op} (hs : Loaded s) (hheld : Held op s.io) :
      Loaded { s with io := step p.alloc op s.io }
  | request {s : DriverState} (r : Loader.Request) (hs : Loaded s) :
      Loaded { s with loader := Loader.serve p.machine p.load r s.loader }

end Load

/-- After a failed load every symbol resolves as before, the driver object is gone, and the table has
no image of the load. -/
structure Undone (arch : Arch) (s : DriverState) (r : LoadResult) : Prop where
  symbols : ∀ func, driverResolveSymbol arch r.state func = driverResolveSymbol arch s func
  driver : r.driver ≠ 0 → ¬ LiveDriver r.state.io r.driver
  images : ∀ d ∈ r.state.loadedDrivers, d.image < s.loader.next

def Exported (arch : Arch) (r : LoadResult) : Prop :=
  ∀ image func addr, r.image = some image →
    driverProc arch r.state.loader image func = some addr → addr ≠ 0 →
      driverResolveSymbol arch r.state (some func) = some addr

def Atomic (arch : Arch) (s : DriverState) (r : LoadResult) : Prop :=
  if r.ok = true then Exported arch r else Undone arch s r

section Condition

variable (p : Platform)

/-- `IoCreateDriver` gives no object, or the `DriverEntry` of the image returns 0. -/
def EntryFails (name : Name) (image : Nat) (s : DriverState) : Prop :=
  let (entry, driver, s) := beforeEntry p name image s
  driver = 0 ∨ entry ≠ 0 ∧ (p.entry entry driver (ioSetCurrentDriver driver s)).status = 0

/-- If the image gets to the table, the entry fails only with a full table, and with a full table
the drivers in it have the exports of the image. -/
def Tame (service : DriverService) (s : DriverState) : Prop :=
  ∀ path image s₁, service.imagePath = some path → prepareImage p path s = (some image, s₁) →
    (EntryFails p service.name image (driverRegisterImage path image s₁) →
      maxLoadedDrivers ≤ s.loadedDrivers.length) ∧
    (¬ EntryFails p service.name image (driverRegisterImage path image s₁) →
      maxLoadedDrivers ≤ s.loadedDrivers.length →
        ∀ func addr, driverProc p.machine.arch s₁.loader image func = some addr → addr ≠ 0 →
          driverResolveSymbol p.machine.arch s₁ (some func) = some addr)

def AllHeld (alloc : Allocator) : List Op → World → Prop
  | [], _ => True
  | op :: ops, w => Held op w ∧ AllHeld alloc ops (step alloc op w)

def Sole (w : World) (handle driver : Nat) : Prop :=
  ∃ o, w.ob.lookup handle = some o ∧ o.type = w.driverObjectType ∧ o.body = driver ∧ o.refCount = 1

/-- What the kernel relies on in a `DriverEntry`: it gives back the references it holds, and none of
its driver object but those it took. -/
def Polite : Prop :=
  ∀ address driver handle s, Quiet s.io → driver ≠ 0 → Sole s.io handle driver →
    AllHeld p.alloc (p.entry address driver s).calls s.io ∧
      Sole (run p.alloc (p.entry address driver s).calls s.io) handle driver

end Condition

end DiscouNT.Io
