import DiscouNT.Lib.Bytes
import DiscouNT.Lib.Slots

/-!
# Advapi.Registry

The registry of `dlls/advapi32/advapi32.c`: two tables of slots, one for the keys and one for the
values of all keys.

* A string is the list of the units before its final zero; a null pointer is `none`.
* A call gives `none` where the source runs into undefined behaviour: it writes behind a path
  buffer, or reads a `REG_KEY` through a predefined handle.
* Outputs are those of a caller that passes all the optional pointers.
-/

namespace DiscouNT.Advapi

open Lib

def text (s : String) : List UInt8 := s.toList.map fun ch => .ofNat ch.toNat

def separator : UInt8 := 92

def regUpper (ch : UInt8) : UInt8 := if 97 ≤ ch ∧ ch ≤ 122 then ch - 32 else ch

def regAsciiEqual : List UInt8 → List UInt8 → Bool
  | a :: as, b :: bs => if regUpper a ≠ regUpper b then false else regAsciiEqual as bs
  | as, bs => as = [] ∧ bs = []

/-- A unit of a wide string that is no ASCII character becomes a question mark. -/
def narrow (ch : UInt16) : UInt8 := if ch < 128 then ch.toUInt8 else 63

/-- `reg_wide_to_ascii` into a buffer of `limit` bytes; `none` where the string is cut off. -/
def regWideToAscii (src : Option (List UInt16)) (limit : Nat) : Option (List UInt8) :=
  match src with
  | none => some []
  | some src => if src.length < limit then some (src.map narrow) else none

def regAsciiToWide (src : List UInt8) : List UInt16 := src.map (·.toUInt16)

inductive Root where
  | classesRoot
  | currentUser
  | localMachine
  | users
deriving DecidableEq, Repr

inductive HKey where
  | null
  | root (r : Root)
  | key (i : Fin 128)
deriving DecidableEq, Repr

structure RegKey where
  used : Bool
  root : HKey
  path : List UInt8

structure RegValue where
  used : Bool
  key : HKey
  name : List UInt8
  type : UInt32
  size : Nat
  data : Mem

structure Registry where
  keys : Fin 128 → RegKey
  values : Fin 256 → RegValue
  initialized : Bool

def Registry.empty : Registry where
  keys := fun _ => ⟨false, .null, []⟩
  values := fun _ => ⟨false, .null, [], 0, 0, fun _ => 0⟩
  initialized := false

inductive Status where
  | success
  | fileNotFound
  | invalidHandle
  | moreData
  | noMoreItems
  | outOfMemory
  | invalidParameter
deriving DecidableEq, Repr

inductive Disposition where
  | createdNewKey
  | openedExistingKey
deriving DecidableEq, Repr

def regMaxPath : Nat := 256
def regMaxName : Nat := 96
def regMaxData : Nat := 1024

def regRootName : HKey → List UInt8
  | .root .currentUser => text "HKCU"
  | .root .users => text "HKU"
  | .root .classesRoot => text "HKCR"
  | _ => text "HKLM"

def regPathFrom (root : HKey) (subkey : List UInt8) : Option (List UInt8) :=
  let rootName := regRootName root
  if subkey = [] then some rootName
  else if rootName.length + 1 + subkey.length < regMaxPath then
    some (rootName ++ separator :: subkey.map fun ch => if ch = 47 then separator else ch)
  else none

def regFindKey (σ : Registry) (path : List UInt8) : Option (Fin 128) :=
  firstSlot fun i => (σ.keys i).used && regAsciiEqual (σ.keys i).path path

def regMakeKey (σ : Registry) (root : HKey) (path : List UInt8) : Option (Fin 128) × Registry :=
  match regFindKey σ path with
  | some i => (some i, σ)
  | none =>
    match firstSlot fun i => !(σ.keys i).used with
    | some i => (some i, { σ with keys := Function.update σ.keys i ⟨true, root, path⟩ })
    | none => (none, σ)

def regFindValue (σ : Registry) (key : HKey) (name : List UInt8) : Option (Fin 256) :=
  firstSlot fun i =>
    (σ.values i).used && decide ((σ.values i).key = key) && regAsciiEqual (σ.values i).name name

/-- The value with the name, or else a free one that gets it; what is in the slot is kept. -/
def regValueSlot (σ : Registry) (key : HKey) (name : List UInt8) : Option (Fin 256 × RegValue) :=
  match regFindValue σ key name with
  | some i => some (i, σ.values i)
  | none =>
    (firstSlot fun i => !(σ.values i).used).map fun i =>
      (i, { σ.values i with used := true, key := key, name := name })

/-- `lpData` and `cbData`. -/
inductive RegData where
  | null (cbData : Nat)
  | bytes (data : List UInt8)
deriving DecidableEq, Repr

def RegData.size : RegData → Nat
  | .null cbData => cbData
  | .bytes data => data.length

/-- `if (cbData && lpData) memcpy(data, lpData, cbData);` -/
def RegData.copy (d : RegData) (m : Mem) : Mem :=
  match d with
  | .null _ => m
  | .bytes data => storeBytes m 0 data

/-- Type and data of a value are set; `none` when there is no slot for it. -/
def Registry.storeValue (σ : Registry) (key : HKey) (name : List UInt8) (type : UInt32)
    (data : RegData) : Option Registry :=
  (regValueSlot σ key name).map fun (i, value) =>
    let value := { value with type := type, size := data.size, data := data.copy value.data }
    { σ with values := Function.update σ.values i value }

def dword (n : UInt32) : List UInt8 :=
  [n.toUInt8, (n >>> 8).toUInt8, (n >>> 16).toUInt8, (n >>> 24).toUInt8]

def registrySeedValue (key : HKey) (name : List UInt8) (n : UInt32) (σ : Registry) : Registry :=
  (σ.storeValue key name 4 (.bytes (dword n))).getD σ

def registrySeedService (name : List UInt8) (type start : UInt32) (σ : Registry) : Registry :=
  match regMakeKey σ (.root .localMachine)
      (text "HKLM\\SYSTEM\\CurrentControlSet\\Services\\" ++ name) with
  | (none, σ) => σ
  | (some i, σ) =>
    registrySeedValue (.key i) (text "Start") start (registrySeedValue (.key i) (text "Type") type σ)

def seededServices : List (List UInt8 × UInt32) :=
  [(text "Serial", 0), (text "Vga", 1), (text "Keyboard", 1), (text "Framebuffer", 1),
    (text "Mouse", 1), (text "Net", 2), (text "AC97", 1), (text "HDA", 1), (text "ES1371", 1),
    (text "SB16", 1)]

def seededKeys : List (Root × List UInt8) :=
  [(.localMachine, text "HKLM"), (.currentUser, text "HKCU"), (.users, text "HKU"),
    (.classesRoot, text "HKCR"), (.localMachine, text "HKLM\\SYSTEM"),
    (.localMachine, text "HKLM\\SYSTEM\\CurrentControlSet"),
    (.localMachine, text "HKLM\\SYSTEM\\CurrentControlSet\\Services")]

def registryInit (σ : Registry) : Registry :=
  if σ.initialized then σ
  else
    let σ := { σ with initialized := true }
    let σ := seededKeys.foldl (fun σ k => (regMakeKey σ (.root k.1) k.2).2) σ
    seededServices.foldl (fun σ s => registrySeedService s.1 1 s.2 σ) σ

/-- The path that `RegOpenKeyExW` and `RegCreateKeyExW` look for. -/
def Registry.subkeyPath (σ : Registry) (hKey : HKey) (subkey : List UInt8) :
    Option (Except Status (List UInt8)) :=
  match hKey with
  | .key i =>
    if (σ.keys i).used = false then some (.error .invalidHandle)
    else if subkey = [] then some (.ok (σ.keys i).path)
    else if (σ.keys i).path.length + 1 + subkey.length < regMaxPath then
      some (.ok ((σ.keys i).path ++ separator :: subkey))
    else none
  | root =>
    match regPathFrom root subkey with
    | some path => some (.ok path)
    | none => some (.error .invalidParameter)

structure Opened where
  status : Status
  result : Option HKey
  disposition : Option Disposition
deriving DecidableEq, Repr

def Opened.error (status : Status) : Opened := ⟨status, none, none⟩

def regOpenKeyExW (σ : Registry) (hKey : HKey) (lpSubKey : Option (List UInt16)) :
    Option (Opened × Registry) :=
  let σ := registryInit σ
  match regWideToAscii lpSubKey regMaxPath with
  | none => some (.error .invalidParameter, σ)
  | some subkey =>
    (σ.subkeyPath hKey subkey).map fun
      | .error status => (.error status, σ)
      | .ok path =>
        match regFindKey σ path with
        | some i => (⟨.success, some (.key i), none⟩, σ)
        | none => (⟨.fileNotFound, some .null, none⟩, σ)

def regCreateKeyExW (σ : Registry) (hKey : HKey) (lpSubKey : Option (List UInt16)) :
    Option (Opened × Registry) :=
  let σ := registryInit σ
  match regWideToAscii lpSubKey regMaxPath with
  | none => some (.error .invalidParameter, σ)
  | some subkey =>
    (σ.subkeyPath hKey subkey).map fun
      | .error status => (.error status, σ)
      | .ok path =>
        let disposition : Disposition :=
          if (regFindKey σ path).isSome then .openedExistingKey else .createdNewKey
        match regMakeKey σ hKey path with
        | (some i, σ) => (⟨.success, some (.key i), some disposition⟩, σ)
        | (none, σ) => (⟨.outOfMemory, none, some disposition⟩, σ)

def Registry.isUsed (σ : Registry) : HKey → Option Bool
  | .null => some false
  | .root _ => none
  | .key i => some (σ.keys i).used

structure Queried where
  status : Status
  type : Option UInt32
  size : Option Nat
  data : Option (List UInt8)
deriving DecidableEq, Repr

def Queried.error (status : Status) : Queried := ⟨status, none, none, none⟩

/-- `cbData` is what `lpcbData` points to, if it is not null; `buffer` tells whether `lpData` is not
null. -/
def regQueryValueExW (σ : Registry) (hKey : HKey) (lpValueName : Option (List UInt16))
    (buffer : Bool) (cbData : Option Nat) : Option (Queried × Registry) :=
  let σ := registryInit σ
  (σ.isUsed hKey).map fun isUsed =>
    match isUsed, cbData, regWideToAscii lpValueName regMaxName with
    | true, some cbData, some name =>
      match regFindValue σ hKey name with
      | none => (.error .fileNotFound, σ)
      | some i =>
        let value := σ.values i
        if buffer = false then (⟨.success, some value.type, some value.size, none⟩, σ)
        else if cbData < value.size then (⟨.moreData, some value.type, some value.size, none⟩, σ)
        else
          (⟨.success, some value.type, some value.size, some (loadBytes value.data 0 value.size)⟩, σ)
    | _, _, _ => (.error .invalidParameter, σ)

def regSetValueExW (σ : Registry) (hKey : HKey) (lpValueName : Option (List UInt16))
    (type : UInt32) (data : RegData) : Option (Status × Registry) :=
  let σ := registryInit σ
  (σ.isUsed hKey).map fun isUsed =>
    match isUsed, regWideToAscii lpValueName regMaxName with
    | true, some name =>
      if regMaxData < data.size then (.invalidParameter, σ)
      else
        match σ.storeValue hKey name type data with
        | none => (.outOfMemory, σ)
        | some σ => (.success, σ)
    | _, _ => (.invalidParameter, σ)

/-- The name is cut off where it does not fit into `wide`. -/
def regSetValueExA (σ : Registry) (hKey : HKey) (name : Option (List UInt8)) (type : UInt32)
    (data : RegData) : Option (Status × Registry) :=
  match name with
  | none => some (.invalidParameter, σ)
  | some name =>
    regSetValueExW σ hKey (some (regAsciiToWide (name.take (regMaxName - 1)))) type data

def regDeleteValueW (σ : Registry) (hKey : HKey) (valueName : Option (List UInt16)) :
    Status × Registry :=
  match regWideToAscii valueName regMaxName with
  | none => (.invalidParameter, σ)
  | some name =>
    if hKey = .null then (.invalidParameter, σ)
    else
      match regFindValue σ hKey name with
      | none => (.fileNotFound, σ)
      | some i =>
        let value := { σ.values i with used := false }
        (.success, { σ with values := Function.update σ.values i value })

/-! ## Subkeys -/

def regPrefixEqual (a b : List UInt8) (count : Nat) : Bool := a.take count = b.take count

def regHasSeparatorAfter (text : List UInt8) : Bool := separator ∈ text

/-- The filter of `RegQueryInfoKeyW` and `RegEnumKeyExW`. -/
def RegKey.lists (key child : RegKey) : Bool :=
  child.used && decide (child.root = key.root) &&
    regPrefixEqual child.path key.path key.path.length &&
    decide (child.path[key.path.length]? = some separator) &&
    !regHasSeparatorAfter (child.path.drop (key.path.length + 1))

structure KeyInfo where
  subKeys : Nat
  maxSubKeyLen : Nat
  values : Nat
  maxValueNameLen : Nat
  maxValueLen : Nat
deriving DecidableEq, Repr

def Registry.valuesOf (σ : Registry) (hKey : HKey) : List RegValue :=
  ((List.finRange 256).map σ.values).filter fun value => value.used && decide (value.key = hKey)

def regQueryInfoKeyW (σ : Registry) (hKey : HKey) : Option (Except Status KeyInfo) :=
  match hKey with
  | .root _ => none
  | .null => some (.error .invalidHandle)
  | .key k =>
    let key := σ.keys k
    if key.used = false then some (.error .invalidHandle)
    else
      let values := σ.valuesOf hKey
      some (.ok {
        subKeys := (List.finRange 128).countP fun i => key.lists (σ.keys i)
        maxSubKeyLen := 0
        values := values.length
        maxValueNameLen := (values.map (·.name.length)).foldl max 0
        maxValueLen := (values.map (·.size)).foldl max 0 })

structure Enumerated where
  status : Status
  name : Option (List UInt16)
  nameLen : Option Nat
deriving DecidableEq, Repr

def Registry.subkeys (σ : Registry) (k : Fin 128) : List (Fin 128) :=
  (List.finRange 128).filter fun i => (σ.keys k).lists (σ.keys i)

def Registry.childName (σ : Registry) (k i : Fin 128) : List UInt8 :=
  (σ.keys i).path.drop ((σ.keys k).path.length + 1)

def regEnumKeyExW (σ : Registry) (hKey : HKey) (index nameLen : Nat) : Option Enumerated :=
  match hKey with
  | .root _ => none
  | .null => some ⟨.invalidParameter, none, none⟩
  | .key k =>
    if (σ.keys k).used = false then some ⟨.invalidParameter, none, none⟩
    else
      match (σ.subkeys k)[index]? with
      | none => some ⟨.noMoreItems, none, none⟩
      | some i =>
        let child := σ.childName k i
        if nameLen ≤ child.length then some ⟨.moreData, none, some child.length⟩
        else some ⟨.success, some (regAsciiToWide child), some child.length⟩

end DiscouNT.Advapi
