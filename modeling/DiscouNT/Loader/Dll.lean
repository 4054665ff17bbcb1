import DiscouNT.Loader.Imports

/-!
# Loader.Dll

`PeLoadDll` with everything it calls back into: `PeResolveExternalSymbol`, which the ELF loaders
call, the import walk, and the requests of a `DllMain`, which go through `LoadLibraryA` and
`LoadLibraryW` of `dlls/kernel32/kernel32.c`.

The functions below take the `PeLoadDll` they call as an argument. `peLoadDll` closes the recursion,
with fuel for its depth and for the walks.
-/

namespace DiscouNT.Loader

open Lib

/-- `if (addr) return addr;` and on with the rest. -/
def orNext (r : Nat × World) (rest : World → Nat × World) : Nat × World :=
  if r.1 ≠ 0 then r else rest r.2

/-- `PeFindLoadedDllSymbol`, from an entry of `dll_list` on. -/
def peFindLoadedDllSymbol (m : Machine) (func : Name) : List LoadedDll → World → Nat × World
  | [], w => (0, w)
  | d :: dlls, w =>
    orNext (getProcAddress m d.image (.name func) w) (peFindLoadedDllSymbol m func dlls)

def peFindCoreDllSymbol (m : Machine) (func : Name) : List Name → World → Nat × World
  | [], w => (0, w)
  | core :: cores, w =>
    match peGetLoadedModuleHandle w.dllList core with
    | none => peFindCoreDllSymbol m func cores w
    | some h => orNext (getProcAddress m h (.name func) w) (peFindCoreDllSymbol m func cores)

def coreDlls : List Name :=
  ["NTDLL.DLL", "KERNEL32.DLL", "ADVAPI32.DLL", "GDI32.DLL", "USER32.DLL", "OLE32.DLL",
    "OLEAUT32.DLL", "D3D9.DLL", "DDRAW.DLL", "DSOUND.DLL", "RPCRT4.DLL", "SHELL32.DLL",
    "SHLWAPI.DLL", "COMCTL32.DLL", "COMDLG32.DLL"].map ascii

def loadCoreDlls (load : DllLoader) (outer : Option Name) : List Name → World → World
  | [], w => w
  | core :: cores, w =>
    if outer.any (peNameEqualsIgnoreCase · core) then loadCoreDlls load outer cores w
    else loadCoreDlls load outer cores { (load core w).2 with currentLoading := outer }

def peResolveExternalSymbol (m : Machine) (load : DllLoader) (func : Name) (w : World) :
    Nat × World :=
  if func = [] then (0, w)
  else if w.loadingDriver then
    orNext (m.kernelResolveExport func, w) fun w => (m.driverResolveSymbol func w.ticks, w)
  else
    orNext (m.kernelResolveExport func, w) fun w =>
    orNext (peFindCoreDllSymbol m func coreDlls w) fun w =>
    orNext (m.driverResolveSymbol func w.ticks, w) fun w =>
    orNext (peFindCoreDllSymbol m func coreDlls
      (loadCoreDlls load w.currentLoading coreDlls w)) fun w =>
    orNext (m.driverResolveSymbol func w.ticks, w) fun w =>
    peFindLoadedDllSymbol m func w.dllList w

def World.kmalloc (m : Machine) (size : Nat) (w : World) : Nat × World :=
  (m.kmalloc size w.ticks, { w with ticks := w.ticks + 1 })

def loaderEnv (m : Machine) (load : DllLoader) : Env World where
  kmalloc := World.kmalloc m
  kfree _ w := w
  resolveExternalSymbol := peResolveExternalSymbol m load
  setElfImportMissingProcError func w := w.setLastError (elfImportMissingProcError func)

def k32UppercaseCopy (src : Name) (maxChars : Nat) : Name := upper (src.take (maxChars - 1))

/-- `k32_wide_to_ansi_name`: a character that is 0 as a `char` ends the copy. -/
def k32WideToAnsiName (src : List UInt16) (maxChars : Nat) : Name :=
  ((src.take (maxChars - 1)).map fun c => upperChar c.toUInt8).takeWhile (· ≠ 0)

/-- The loop of `k32_normalize_module_name`: `has_extension` at the end of the name. -/
def k32HasExtension : Name → Nat → Nat → Bool → Bool
  | [], _, _, ext => ext
  | c :: cs, i, base, ext =>
    if c = 0x2F ∨ c = 0x5C then k32HasExtension cs (i + 1) (i + 1) false
    else if c = 0x2E ∧ base < i then k32HasExtension cs (i + 1) base true
    else k32HasExtension cs (i + 1) base ext

def k32NormalizeModuleName (name : Name) (capacity : Nat) : Name :=
  if capacity < 5 then name
  else if k32HasExtension name 0 0 false = false ∧ name.length + 4 < capacity then
    name ++ ascii ".DLL"
  else name

/-- The part `LoadLibraryA` and `LoadLibraryW` share. -/
def loadLibrary (load : DllLoader) (name : Name) (w : World) : Option Nat × World :=
  if name = [] then (none, w)
  else
    let name := k32NormalizeModuleName name 128
    match peGetLoadedModuleHandle w.dllList name with
    | some h => (some h, w)
    | none => load name w

def loadLibraryA (load : DllLoader) (name : Name) (w : World) : Option Nat × World :=
  loadLibrary load (k32UppercaseCopy name 128) w

def loadLibraryW (load : DllLoader) (name : List UInt16) (w : World) : Option Nat × World :=
  loadLibrary load (k32WideToAnsiName name 128) w

def serve (m : Machine) (load : DllLoader) : Request → World → World
  | .peLoadDll name, w => (load name w).2
  | .loadLibraryA name, w => (loadLibraryA load name w).2
  | .loadLibraryW name, w => (loadLibraryW load name w).2
  | .peResolveExternalSymbol func, w => (peResolveExternalSymbol m load func w).2

/-- A `DllMain` from its `k`-th request on. -/
def runDllMain (m : Machine) (load : DllLoader) (d : LoadedDll) : Nat → Nat → World → World
  | 0, _, w => w.hang
  | n + 1, k, w =>
    match m.dllMain d k w with
    | none => w
    | some request => runDllMain m load d n (k + 1) (serve m load request w)

def dllEntry (m : Machine) (h : Nat) (w : World) : Nat × World :=
  match w.image h with
  | none => (0, w.hang)
  | some im =>
    let entry := peGetEntryPoint m.arch im
    if entry = 0 ∧ (im.isElf ∨ readLE im.mem 0 4 = elfMagic) then
      getProcAddress m h (.name (ascii "DllMain")) w
    else (entry, w)

def attach (m : Machine) (load : DllLoader) (steps : Nat) (d : LoadedDll) (w : World) : World :=
  match dllEntry m d.image w with
  | (0, w) => w
  | (_ + 1, w) => runDllMain m load d steps 0 (w.log (.attached d))

def systemDir : Name := ascii "DISCOUNT/SYSTEM32/"
def appsDir : Name := ascii "DISCOUNT/APPS/"

/-- The path and the file `PeLoadDll` finds for a name. -/
def findDllFile (m : Machine) (name : Name) (w : World) : Option (Name × File) :=
  let upperName := upper (name.take 127)
  match m.cdfsReadFile (systemDir ++ upperName) w.ticks with
  | some f => some (systemDir ++ upperName, f)
  | none => (m.cdfsReadFile (appsDir ++ upperName) w.ticks).map fun f => (appsDir ++ upperName, f)

/-- Push on `pe_loading_stack[16][128]`, and `pe_current_loading_dll = dll_name`. -/
def World.enter (w : World) (name : Name) : World :=
  { w with loadingStack := name :: w.loadingStack, currentLoading := some name,
           hung := w.hung || decide (128 ≤ name.length) }

def World.leave (w : World) (previous : Option Name) : World :=
  { w with loadingStack := w.loadingStack.tail, currentLoading := previous }

def sizeofLoadedDll (arch : Arch) : Nat := 192 + 3 * arch.ptrBytes

/-- The new record. A name of 64 bytes or more runs on into `path`, which is copied after it. -/
def newDll (name path : Name) (h : Nat) : LoadedDll :=
  { name := if name.length < 64 then name else name.take 64 ++ path, path, image := h }

def World.register (w : World) (asked : Name) (d : LoadedDll) : World :=
  { w with dllList := d :: w.dllList, hung := w.hung || decide (128 ≤ d.path.length),
           history := .registered asked d :: w.history }

def World.lost (w : World) (d : LoadedDll) (next : List LoadedDll) : List LoadedDll :=
  w.dllList.filter fun e => e ≠ d ∧ e ∉ next

/-- `dll_list = new_dll->next` and `PeFreeImage`, after the imports of `d` failed. -/
def World.rollback (w : World) (d : LoadedDll) (next : List LoadedDll) : World :=
  { w.peFreeImage d.image with
    dllList := next, history := .rolledBack d (w.lost d next) :: w.history }

/-- From the registration of the image `h` on. -/
def initDll (m : Machine) (load : DllLoader) (steps : Nat) (name path : Name) (h : Nat)
    (w : World) : Option Nat × World :=
  let d := newDll name path h
  let r := peResolveImports m load steps h (w.register name d)
  if r.ok then
    (some h, (attach m load steps d (r.world.relocate h)).log (.loaded d))
  else (none, r.world.rollback d w.dllList)

def addDll (m : Machine) (load : DllLoader) (steps : Nat) (name path : Name) (im : Image)
    (w : World) : Option Nat × World :=
  match (w.addImage im).kmalloc m (sizeofLoadedDll m.arch) with
  | (0, w') => (none, w'.peFreeImage w.next)
  | (_ + 1, w') => initDll m load steps name path w.next w'

def loadDllBody (m : Machine) (load : DllLoader) (steps : Nat) (name : Name) (w : World) :
    Option Nat × World :=
  match w.dllList.find? fun d => d.name == name with
  | some d => (some d.image, w)
  | none =>
    if w.loadingStack.any (peNameEqualsIgnoreCase · name) then (none, w)
    else
      match findDllFile m name w with
      | none => (none, w)
      | some (path, file) =>
        if 16 ≤ w.loadingStack.length then (none, w)
        else
          let r := peLoadImage m.arch (loaderEnv m load) file (w.enter name)
          let w' := r.world.leave w.currentLoading
          match r.image with
          | none => (none, w')
          | some im => addDll m load steps name path im w'

def Event.loaded? : Event → Option LoadedDll
  | .loaded d => some d
  | _ => none

def Event.attached? : Event → Option LoadedDll
  | .attached d => some d
  | _ => none

def World.finish (w before : World) (name : Name) (result : Option Nat) : World :=
  w.log (.returned name before.registry w.registry result
    ((w.history.take (w.history.length - before.history.length)).filterMap Event.loaded?))

def peLoadDll (m : Machine) : Nat → DllLoader
  | 0, _, w => (none, w.hang)
  | n + 1, name, w =>
    let r := loadDllBody m (peLoadDll m n) n name w
    (r.1, r.2.finish w name r.1)

inductive Op where
  | request (r : Request)
  | startProgram (file : File) (driver : Bool)
  | exitProgram (h : Nat)

/-- The imports of a new image `im` are resolved, and where they fail it is freed. -/
def initProgram (m : Machine) (load : DllLoader) (steps : Nat) (im : Image) (w : World) : World :=
  let r := peResolveImports m load steps w.next (w.addImage im)
  if r.ok then { r.world.relocate w.next with programs := w.next :: r.world.programs }
  else r.world.peFreeImage w.next

def startProgram (m : Machine) (load : DllLoader) (steps : Nat) (file : File) (driver : Bool)
    (w : World) : World :=
  let r := peLoadImage m.arch (loaderEnv m load) file { w with loadingDriver := driver }
  let w := { r.world with loadingDriver := false }
  match r.image with
  | none => w
  | some im => initProgram m load steps im w

def step (m : Machine) (n : Nat) (w : World) : Op → World
  | .request r => serve m (peLoadDll m n) r w
  | .startProgram file driver => startProgram m (peLoadDll m n) n file driver w
  | .exitProgram h =>
    if h ∈ w.programs then { w.peFreeImage h with programs := w.programs.erase h } else w

def run (m : Machine) (n : Nat) (ops : List Op) : World := ops.foldl (step m n) {}

end DiscouNT.Loader
