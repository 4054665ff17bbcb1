import DiscouNT.Arch
import DiscouNT.Lib.Access
import DiscouNT.Lib.Bytes

/-!
# Loader.Buffer

What the loaders of `kernel/loader/peloader.c` work on: the file in memory, the image they build,
and the services they call.

* Pointers into the file and into the image are offsets from the start of the buffer, and are not
  reduced: an access is inside a buffer when its offset is. Memory behind the file holds arbitrary
  bytes, which a read past the end returns.
* The heap and `PeResolveExternalSymbol` are the `Env`, over a state of any type. The state of the
  whole loader is one such type, and the loader itself one such `Env`.
* Every access to the two buffers is logged in `trace`, reads of strings excepted.
-/

namespace DiscouNT.Loader

open Lib

/-- The bytes of a C string or of a name in it, without the terminator. -/
abbrev Name := List UInt8

def ascii (s : String) : Name := s.toList.map fun c => UInt8.ofNat c.toNat

structure File where
  bytes : Mem
  size : Nat
  size_lt : size < 2 ^ 32

/-- The fields of `PE_RUNTIME_HEADER` that outlive the load, and the image behind it. -/
structure Image where
  imageBase : Nat
  allocationBase : Nat
  imageSize : Nat
  isElf : Bool
  elfClass : Nat
  elfBaseVaddr : Nat
  sourceImage : Nat
  source : File
  mem : Mem

structure Env (σ : Type) where
  kmalloc : Nat → σ → Nat × σ
  kfree : Nat → σ → σ
  resolveExternalSymbol : Name → σ → Nat × σ
  setElfImportMissingProcError : Name → σ → σ

/-- The outcome of a loader: `none` is its null return. -/
structure Result (σ : Type) where
  image : Option Image
  trace : List Access
  world : σ

def Result.after {σ : Type} (t : List Access) (r : Result σ) : Result σ :=
  { r with trace := t ++ r.trace }

@[simp] theorem Result.after_image {σ : Type} (t : List Access) (r : Result σ) :
    (r.after t).image = r.image := rfl

@[simp] theorem Result.after_trace {σ : Type} (t : List Access) (r : Result σ) :
    (r.after t).trace = t ++ r.trace := rfl

def cstringUpTo (m : Mem) : Nat → Nat → Name
  | 0, _ => []
  | n + 1, p => if m p = 0 then [] else m p :: cstringUpTo m n (p + 1)

@[irreducible] def cstring (m : Mem) (p : Nat) : Name := cstringUpTo m (2 ^ 32) p

def strEq (m : Mem) : Nat → Name → Bool
  | p, [] => m p == 0
  | p, c :: cs => m p == c && strEq m (p + 1) cs

def sizeofRuntimeHeader : Arch → Nat
  | .x86 => 160
  | .amd64 => 176
  | .loongarch64 => 176

/-- A pointer converted to `uint64_t`; a 32-bit pointer is sign-extended. -/
def ptrToU64 (arch : Arch) (p : Nat) : Nat :=
  if arch = .x86 ∧ 2 ^ 31 ≤ p then p + (2 ^ 64 - 2 ^ 32) else p

def elfMagic : Nat := 0x464C457F

/-- An environment whose heap hands out memory upwards, and in which nothing is exported. -/
def roomyEnv : Env Nat where
  kmalloc size next := (next, next + size)
  kfree _ next := next
  resolveExternalSymbol _ next := (0, next)
  setElfImportMissingProcError _ next := next

end DiscouNT.Loader
