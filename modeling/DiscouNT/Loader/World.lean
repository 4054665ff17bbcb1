import DiscouNT.Loader.Exports

/-!
# Loader.World

The static variables of `kernel/loader/peloader.c` and the images that are loaded, as one state.

* An image is named by a handle, the pointer `image_base` seen as the object it points to. Handles
  are numbered and never given out twice; the address the code computes with is `Image.imageBase`.
* `kmalloc`, the volume, the exports of the kernel and of its drivers and the code of every
  `DllMain` are the `Machine`.
* `history` is no variable of the code. It records what the loader did, newest first.
-/

namespace DiscouNT.Loader

open Lib

/-- `LOADED_DLL`. Its `entry_point` is never read. -/
structure LoadedDll where
  name : Name
  path : Name
  image : Nat
deriving DecidableEq, Repr

/-- What the loader knows at one moment; `live` are the images that are not freed. -/
structure Registry where
  dllList : List LoadedDll
  loadingStack : List Name
  currentLoading : Option Name
  live : Nat → Bool

inductive Event where
  /-- `d` was linked into `dll_list`, for a `PeLoadDll` of `asked`. -/
  | registered (asked : Name) (d : LoadedDll)
  /-- The imports of `d` failed, and `lost` were unlinked from `dll_list` together with `d`. -/
  | rolledBack (d : LoadedDll) (lost : List LoadedDll)
  | attached (d : LoadedDll)
  | loaded (d : LoadedDll)
  /-- A `PeLoadDll` of `name` returned; inside it `nested` were loaded. -/
  | returned (name : Name) (before after : Registry) (result : Option Nat)
      (nested : List LoadedDll)

/-- `hung` is set where the code never comes back: the fuel of a walk or of the recursion ran out,
a freed image was used, or a name overran the buffers. What follows in the model is not the code's
behaviour any more. -/
structure World where
  dllList : List LoadedDll := []
  loadingStack : List Name := []
  currentLoading : Option Name := none
  loadingDriver : Bool := false
  lastError : Name := []
  images : Nat → Option Image := fun _ => none
  next : Nat := 0
  ticks : Nat := 0
  programs : List Nat := []
  hung : Bool := false
  history : List Event := []

/-- What a running program or a `DllMain` asks of the loader. -/
inductive Request where
  | peLoadDll (name : Name)
  | loadLibraryA (name : Name)
  | loadLibraryW (name : List UInt16)
  | peResolveExternalSymbol (func : Name)

structure Machine where
  arch : Arch
  kmalloc : Nat → Nat → Nat
  cdfsReadFile : Name → Nat → Option File
  kernelResolveExport : Name → Nat
  driverResolveSymbol : Name → Nat → Nat
  /-- What the `DllMain` of a DLL does as its `k`-th request, if it does not return before. -/
  dllMain : LoadedDll → Nat → World → Option Request

/-- A `PeLoadDll`. A null result is `none`. -/
abbrev DllLoader := Name → World → Option Nat × World

namespace World

def hang (w : World) : World := { w with hung := true }

def log (w : World) (e : Event) : World := { w with history := e :: w.history }

def image (w : World) (h : Nat) : Option Image := if h < w.next then w.images h else none

def mem (w : World) (h : Nat) : Mem :=
  match w.image h with
  | some im => im.mem
  | none => fun _ => 0

def setMem (w : World) (h : Nat) (mem : Mem) : World :=
  { w with images := fun k => if k = h then (w.images k).map ({ · with mem }) else w.images k }

/-- `*(uint32_t*)(image_base + p) = v`. -/
def store (w : World) (h : Nat) (p v : Nat) : World := w.setMem h (writeLE (w.mem h) p 4 v)

def addImage (w : World) (im : Image) : World :=
  { w with images := fun k => if k = w.next then some im else w.images k, next := w.next + 1 }

def peFreeImage (w : World) (h : Nat) : World :=
  { w with images := fun k => if k = h then none else w.images k }

def registry (w : World) : Registry :=
  { dllList := w.dllList, loadingStack := w.loadingStack, currentLoading := w.currentLoading,
    live := fun h => (w.image h).isSome }

/-- The `PeSet…Error` functions fill `pe_last_error[256]`. -/
def setLastError (w : World) (text : Name) : World := { w with lastError := text.take 255 }

def peClearLastError (w : World) : World := { w with lastError := [] }

def noteError (w : World) (text : Name) : World :=
  if w.lastError = [] then w.setLastError text else w

end World

def importMissingDllError (dll : Name) : Name :=
  ascii "This application failed to start because " ++ dll ++ ascii " was not found."

def importMissingProcError (dll func : Name) : Name :=
  ascii "The procedure entry point " ++ func ++ ascii " could not be located in " ++ dll ++ ascii "."

def elfImportMissingProcError (func : Name) : Name :=
  ascii "The procedure entry point " ++ func ++ ascii " could not be located."

def upperChar (c : UInt8) : UInt8 := if 0x61 ≤ c ∧ c ≤ 0x7A then c - 32 else c

def upper (s : Name) : Name := s.map upperChar

def peNameEqualsIgnoreCase : Name → Name → Bool
  | [], [] => true
  | a :: as, b :: bs => upperChar a == upperChar b && peNameEqualsIgnoreCase as bs
  | _, _ => false

theorem peNameEqualsIgnoreCase_iff :
    ∀ {a b : Name}, peNameEqualsIgnoreCase a b = true ↔ upper a = upper b
  | [], [] => by simp [peNameEqualsIgnoreCase]
  | [], b :: bs => by simp [peNameEqualsIgnoreCase, upper]
  | a :: as, [] => by simp [peNameEqualsIgnoreCase, upper]
  | a :: as, b :: bs => by
    have ih := peNameEqualsIgnoreCase_iff (a := as) (b := bs)
    simp only [upper] at ih
    simp [peNameEqualsIgnoreCase, upper, ih]

def peGetLoadedModuleHandle (dlls : List LoadedDll) (name : Name) : Option Nat :=
  if name = [] then none
  else (dlls.find? fun d => peNameEqualsIgnoreCase d.name name).map (·.image)

/-- `PeGetProcAddress` on the image `h`. -/
def getProcAddress (m : Machine) (h : Nat) (func : ProcRef) (w : World) : Nat × World :=
  match (w.image h).bind fun im => peGetProcAddress m.arch im func with
  | some addr => (addr, w)
  | none => (0, w.hang)

end DiscouNT.Loader
