import DiscouNT.Advapi.Registry

/-!
# Advapi.Services

The service manager of `dlls/advapi32/advapi32.c`: an array of records that `CreateServiceW` appends
to, and the keys it makes for them in the registry.
-/

namespace DiscouNT.Advapi

open Lib

structure ServiceStatus where
  serviceType : UInt32
  currentState : UInt32
  controlsAccepted : UInt32
  win32ExitCode : UInt32
  serviceSpecificExitCode : UInt32
  checkPoint : UInt32
  waitHint : UInt32
deriving DecidableEq, Repr

def serviceStopped : UInt32 := 1
def serviceRunning : UInt32 := 4
def serviceDisabled : UInt32 := 4
def serviceControlStop : UInt32 := 1

structure ServiceRecord where
  name : List UInt16
  status : ServiceStatus
  used : Bool

structure Services where
  records : Fin 32 → ServiceRecord
  count : Nat

def Services.empty : Services := ⟨fun _ => ⟨[], ⟨0, 0, 0, 0, 0, 0, 0⟩, false⟩, 0⟩

/-- The comparison in `find_service`, with `left` units to go; a string ends with a zero. -/
def serviceNameEqual : Nat → List UInt16 → List UInt16 → Bool
  | left + 1, a :: as, b :: bs => if a = b then serviceNameEqual left as bs else false
  | _, as, bs => as.head? = bs.head?

def findService (s : Services) (name : Option (List UInt16)) : Option (Fin 32) :=
  match name with
  | none => none
  | some name =>
    firstSlot fun i => decide (i.val < s.count) && serviceNameEqual 63 (s.records i).name name

def serviceRegistrySetDword (σ : Registry) (key : HKey) (name : List UInt8) (value : UInt32) :
    Option Registry :=
  (regSetValueExW σ key (some (regAsciiToWide name)) 4 (.bytes (dword value))).map (·.2)

def wideBytes (value : List UInt16) : List UInt8 :=
  (value ++ [0]).flatMap fun ch : UInt16 => [ch.toUInt8, (ch >>> 8).toUInt8]

def serviceRegistrySetString (σ : Registry) (key : HKey) (name : List UInt8)
    (value : Option (List UInt16)) : Option Registry :=
  match value with
  | none => some σ
  | some value =>
    (regSetValueExW σ key (some (regAsciiToWide name)) 1 (.bytes (wideBytes value))).map (·.2)

/-- The arguments of `CreateServiceW` that are used. -/
structure ServiceArgs where
  name : Option (List UInt16)
  display : Option (List UInt16)
  type : UInt32
  start : UInt32
  error : UInt32
  binary : Option (List UInt16)
  depend : Option (List UInt16)

def serviceKeyPath (name : List UInt16) : List UInt16 :=
  (regAsciiToWide (text "SYSTEM\\CurrentControlSet\\Services\\") ++ name).take 255

def serviceRegistryStore (σ : Registry) (name : List UInt16) (args : ServiceArgs) :
    Option Registry := do
  match ← regCreateKeyExW σ (.root .localMachine) (some (serviceKeyPath name)) with
  | (⟨.success, some key, _⟩, σ) =>
    let σ ← serviceRegistrySetDword σ key (text "Type") args.type
    let σ ← serviceRegistrySetDword σ key (text "Start") args.start
    let σ ← serviceRegistrySetDword σ key (text "ErrorControl") args.error
    let σ ← serviceRegistrySetString σ key (text "DisplayName") args.display
    let σ ← serviceRegistrySetString σ key (text "ImagePath") args.binary
    if args.depend.isSome then serviceRegistrySetString σ key (text "DependOnService") args.depend
    else some σ
  | (_, σ) => some σ

structure State where
  registry : Registry
  services : Services

def State.initial : State := ⟨.empty, .empty⟩

/-- An `SC_HANDLE` for a service: a record, or null. -/
abbrev ScHandle := Option (Fin 32)

def openServiceW (σ : State) (name : Option (List UInt16)) : ScHandle := findService σ.services name

def ServiceRecord.create (record : ServiceRecord) (name : List UInt16) (args : ServiceArgs) :
    ServiceRecord where
  name := name.take 63
  status := { record.status with
    serviceType := args.type
    currentState := serviceStopped
    win32ExitCode := args.error }
  used := true

def createServiceW (σ : State) (args : ServiceArgs) : Option (ScHandle × State) :=
  match args.name with
  | none => some (none, σ)
  | some name =>
    if h : σ.services.count < 32 then
      if (findService σ.services (some name)).isSome then some (none, σ)
      else
        let i : Fin 32 := ⟨σ.services.count, h⟩
        let record := (σ.services.records i).create name args
        (serviceRegistryStore σ.registry name args).map fun registry =>
          (some i, ⟨registry, ⟨Function.update σ.services.records i record, σ.services.count + 1⟩⟩)
    else some (none, σ)

/-- What `DeleteService`, `StartServiceW` and `ControlService` do to a record that is used. -/
def State.updateService (σ : State) (service : ScHandle) (f : ServiceRecord → ServiceRecord) :
    Bool × State :=
  match service with
  | none => (false, σ)
  | some i =>
    if (σ.services.records i).used then
      (true, { σ with services := { σ.services with
        records := Function.update σ.services.records i (f (σ.services.records i)) } })
    else (false, σ)

def deleteService (σ : State) (service : ScHandle) : Bool × State :=
  σ.updateService service fun record => { record with used := false }

def ServiceRecord.setState (record : ServiceRecord) (state : UInt32) : ServiceRecord :=
  { record with status := { record.status with currentState := state } }

def startServiceW (σ : State) (service : ScHandle) : Bool × State :=
  σ.updateService service (·.setState serviceRunning)

def queryServiceStatus (σ : State) (service : ScHandle) : Option ServiceStatus :=
  match service with
  | none => none
  | some i => if (σ.services.records i).used then some (σ.services.records i).status else none

/-- What is stored at `status` if the call succeeds. -/
def controlService (σ : State) (service : ScHandle) (control : UInt32) :
    Option ServiceStatus × State :=
  let r := σ.updateService service fun record =>
    if control = serviceControlStop then record.setState serviceStopped else record
  (queryServiceStatus r.2 service, r.2)

end DiscouNT.Advapi
