import DiscouNT.Loader.World

/-!
# Loader.Imports

`PeResolveImports` and `PePerformRelocations`. The import walk reads descriptors and lookup tables
out of the image it writes to, so the tables are read again at every step. Each entry it meets is
reported as a `Visit`.
-/

namespace DiscouNT.Loader

open Lib

/-- One lookup entry on the walk: the slot it belongs to, the entry, the DLL it is looked up in,
what was stored in the slot, and the state around it. -/
structure Visit where
  slot : Nat
  word : Nat
  dll : Option Nat
  stored : Option Nat
  before : World
  after : World

structure Imports where
  missing : Nat
  visits : List Visit
  world : World

def isOrdinal (word : Nat) : Bool := word &&& 0x80000000 != 0

def hintName (m : Mem) (word : Nat) : Name := cstring m ((word &&& 0x7FFFFFFF) + 2)

/-- The body of the lookup loop: whether `missing` goes up, and what is stored in the slot. The
name of the DLL is the string at `name` of the image `h`. -/
def importSlot (m : Machine) (h name : Nat) (dll : Option Nat) (word slot : Nat) (w : World) :
    Bool × Option Nat × World :=
  if isOrdinal word then (false, none, w)
  else
    let func := hintName (w.mem h) word
    match dll with
    | some d =>
      match getProcAddress m d (.name func) w with
      | (0, w) =>
        let w := w.store h slot 0
        (true, some 0, w.noteError (importMissingProcError (cstring (w.mem h) name) func))
      | (addr + 1, w) => (false, some (u32 (addr + 1)), w.store h slot (u32 (addr + 1)))
    | none =>
      let w := w.store h slot 0
      (true, some 0, w.noteError (importMissingDllError (cstring (w.mem h) name)))

def importLookups (m : Machine) (h name : Nat) (dll : Option Nat) :
    Nat → Nat → Nat → World → Imports
  | 0, _, _, w => ⟨0, [], w.hang⟩
  | n + 1, lookup, iat, w =>
    let word := readLE (w.mem h) lookup 4
    if word = 0 then ⟨0, [], w⟩
    else
      let r := importSlot m h name dll word iat w
      let rest := importLookups m h name dll n (lookup + 4) (iat + 4) r.2.2
      ⟨(if r.1 then 1 else 0) + rest.missing, ⟨iat, word, dll, r.2.1, w, r.2.2⟩ :: rest.visits,
        rest.world⟩

def sizeofImportDescriptor : Nat := 20

def importDescriptors (m : Machine) (load : DllLoader) (steps : Nat) (h : Nat) :
    Nat → Nat → World → Imports
  | 0, _, w => ⟨0, [], w.hang⟩
  | n + 1, p, w =>
    let name := readLE (w.mem h) (p + 12) 4
    if name = 0 then ⟨0, [], w⟩
    else
      let r := load (cstring (w.mem h) name) w
      let lookupTable := readLE (r.2.mem h) p 4
      let addressTable := readLE (r.2.mem h) (p + 16) 4
      let lookup := if lookupTable = 0 then addressTable else lookupTable
      let here := importLookups m h name r.1 steps lookup addressTable r.2
      let rest := importDescriptors m load steps h n (p + sizeofImportDescriptor) here.world
      ⟨here.missing + rest.missing, here.visits ++ rest.visits, rest.world⟩

/-- The outcome of `PeResolveImports`: its return value, the entries it met, and the state. -/
structure Resolved where
  ok : Bool
  visits : List Visit
  world : World

def peResolveImports (m : Machine) (load : DllLoader) (steps : Nat) (h : Nat) (w : World) :
    Resolved :=
  let mem := w.mem h
  if readLE mem 0 4 = elfMagic then ⟨true, [], w⟩
  else
    let w := w.peClearLastError
    if numberOfRvaAndSizes mem < 2 then ⟨true, [], w⟩
    else if dataDir mem 2 = 0 then ⟨true, [], w⟩
    else
      let r := importDescriptors m load steps h steps (dataDir mem 2) w
      ⟨r.missing == 0, r.visits, r.world⟩

def relocEntry (delta page p i : Nat) (mem : Mem) : Mem :=
  let entry := readLE mem (p + 8 + 2 * i) 2
  if entry / 4096 = 3 then
    let patch := page + entry % 4096
    writeLE mem patch 4 (u32 (readLE mem patch 4 + delta))
  else mem

/-- The loop over the relocation blocks. A block has a size of at least 1, so `relocSize` rounds
reach the end. -/
def relocBlocks (delta relocEnd : Nat) : Nat → Nat → Mem → Mem
  | 0, _, mem => mem
  | n + 1, p, mem =>
    if p < relocEnd then
      let blockSize := readLE mem (p + 4) 4
      if blockSize = 0 then mem
      else
        relocBlocks delta relocEnd n (p + blockSize)
          (rounds (relocEntry delta (readLE mem p 4) p) (sub32 blockSize 8 / 2) 0 mem)
    else mem

def pePerformRelocations (im : Image) : Mem :=
  let mem := im.mem
  let delta := sub32 (u32 im.imageBase) (readLE mem (peOptional mem + 28) 4)
  if readLE mem 0 4 = elfMagic then mem
  else if delta = 0 then mem
  else if numberOfRvaAndSizes mem ≤ 5 then mem
  else
    let relocRva := dataDir mem 10
    let relocSize := dataDir mem 11
    if relocRva = 0 ∨ relocSize = 0 then mem
    else relocBlocks delta (relocRva + relocSize) relocSize relocRva mem

def World.relocate (w : World) (h : Nat) : World :=
  match w.image h with
  | some im => w.setMem h (pePerformRelocations im)
  | none => w

end DiscouNT.Loader
