import DiscouNT.Arch
import DiscouNT.Lib.Bytes
import DiscouNT.Lib.Ranges

/-!
# Mm.Heap

The kernel heap of `kernel/mm/mm.c` over byte memory. Block headers live in memory, in front of
their payload, and the list is followed through the `next` pointers that are stored there, so a
store that runs out of its payload really overwrites a header.

* Pages come from `VmmAllocatePages`, a `PageSource` here: it may answer as it likes from the
  history of calls, as long as every run it hands out is fresh.
* The three loops (the scans of the list, `MmCoalesce` and the `retry` of `kmalloc`) take fuel;
  `none` says that the fuel ran out. `HeapInv.lean` proves that it never does.
* `copies` records the ranges `memcpy` was called with; the code has no such field.
-/

namespace DiscouNT.Mm

open Lib

def mmAlign : Nat := 8
def mmSplitMin : Nat := 16
def mmHeapGrowPages : Nat := 16
def pmmPageSize : Nat := 4096

/-- One call of `VmmAllocatePages`: the page count asked for, and the address returned. -/
structure VmmCall where
  count : Nat
  result : Nat
deriving DecidableEq, Repr

def VmmCall.run (c : VmmCall) : Range := ⟨c.result, c.count * pmmPageSize⟩

/-- `VmmAllocatePages` as the heap sees it. The answer may depend on every earlier call; it is 0, or
the address of a page-aligned run below 4 GiB that overlaps no run handed out before. -/
structure PageSource where
  answer : List VmmCall → Nat → Nat
  aligned : ∀ calls count, answer calls count % pmmPageSize = 0
  below : ∀ calls count, answer calls count ≠ 0 → answer calls count + count * pmmPageSize ≤ 2 ^ 32
  fresh : ∀ calls count, answer calls count ≠ 0 → ∀ c ∈ calls, c.result ≠ 0 →
    (VmmCall.run ⟨count, answer calls count⟩).Disjoint c.run

structure Copy where
  dst : Nat
  src : Nat
  len : Nat
deriving DecidableEq, Repr

/-- The statics of `mm.c`, memory, and the calls made so far (latest first). -/
structure Heap where
  mem : Mem
  heapHead : Nat
  heapCommitted : Nat
  heapInitialized : Bool
  vmmCalls : List VmmCall
  copies : List Copy

def pageRuns (h : Heap) : List Range :=
  (h.vmmCalls.filter fun c => decide (c.result ≠ 0)).map VmmCall.run

def mmInitialize (mem : Mem) : Heap :=
  { mem, heapHead := 0, heapCommitted := 0, heapInitialized := true, vmmCalls := [], copies := [] }

-- `sizeof(HEAP_BLOCK)`: two `uint32_t` and a pointer
def sizeofHeapBlock (arch : Arch) : Nat := 8 + arch.ptrBytes

def blockSize (m : Mem) (block : Nat) : Nat := readLE m block 4
def blockFree (m : Mem) (block : Nat) : Nat := readLE m (block + 4) 4
def blockNext (arch : Arch) (m : Mem) (block : Nat) : Nat := readLE m (block + 8) arch.ptrBytes

def setSize (m : Mem) (block v : Nat) : Mem := writeLE m block 4 v
def setFree (m : Mem) (block v : Nat) : Mem := writeLE m (block + 4) 4 v
def setNext (arch : Arch) (m : Mem) (block v : Nat) : Mem :=
  writeLE m (block + 8) arch.ptrBytes v

-- `block + 1`, the address of the payload
def blockData (arch : Arch) (block : Nat) : Nat := uptr arch (block + sizeofHeapBlock arch)

/-- Fuel of the list loops; a list of that length does not fit below 4 GiB. -/
def walkFuel : Nat := 2 ^ 32

def mmAlignUp (size : Nat) : Nat :=
  let x := u32 (size + mmAlign - 1)
  x - x % mmAlign

def mmGrowHeap (arch : Arch) (src : PageSource) (required : Nat) (h : Heap) : Nat × Heap :=
  let bytes := u32 (required + sizeofHeapBlock arch)
  let pages := u32 (bytes + pmmPageSize - 1) / pmmPageSize
  let pages := if pages < mmHeapGrowPages then mmHeapGrowPages else pages
  let block := src.answer h.vmmCalls pages
  let h := { h with vmmCalls := ⟨pages, block⟩ :: h.vmmCalls }
  if block = 0 then (0, h)
  else
    let mem := setSize h.mem block (sub32 (u32 (pages * pmmPageSize)) (sizeofHeapBlock arch))
    let mem := setFree mem block 1
    let mem := setNext arch mem block h.heapHead
    (block, { h with
      mem
      heapHead := block
      heapCommitted := u32 (h.heapCommitted + u32 (pages * pmmPageSize)) })

/-- `MmSplitBlock`. The sum in the test is a `size_t`, the sizes stored are `uint32_t`. -/
def mmSplitBlock (arch : Arch) (m : Mem) (block size : Nat) : Mem :=
  if blockSize m block ≤ uptr arch (size + sizeofHeapBlock arch + mmSplitMin) then m
  else
    let remainder := uptr arch (blockData arch block + size)
    let m := setSize m remainder
      (sub32 (sub32 (blockSize m block) size) (sizeofHeapBlock arch))
    let m := setFree m remainder 1
    let m := setNext arch m remainder (blockNext arch m block)
    let m := setSize m block size
    setNext arch m block remainder

def mmCoalesceLoop (arch : Arch) : Nat → Mem → Nat → Option Mem
  | 0, _, _ => none
  | fuel + 1, m, block =>
    if block = 0 ∨ blockNext arch m block = 0 then some m
    else
      let next := blockNext arch m block
      let blockEnd := uptr arch (blockData arch block + blockSize m block)
      if blockFree m block ≠ 0 ∧ blockFree m next ≠ 0 ∧ blockEnd = next then
        let m := setSize m block
          (u32 (blockSize m block + (sizeofHeapBlock arch + blockSize m next)))
        let m := setNext arch m block (blockNext arch m next)
        mmCoalesceLoop arch fuel m block
      else mmCoalesceLoop arch fuel m next

def mmCoalesce (arch : Arch) (h : Heap) : Option Heap :=
  match mmCoalesceLoop arch walkFuel h.mem h.heapHead with
  | none => none
  | some mem => some { h with mem }

/-- `for (block = ...; block; block = block->next) if (p) ...`: the first block on the list that
satisfies `p`, or 0 at its end. -/
def findBlock (arch : Arch) (m : Mem) (p : Nat → Bool) : Nat → Nat → Option Nat
  | 0, _ => none
  | fuel + 1, block =>
    if block = 0 then some 0
    else if p block then some block
    else findBlock arch m p fuel (blockNext arch m block)

def fits (m : Mem) (size block : Nat) : Bool :=
  decide (blockFree m block ≠ 0) && decide (size ≤ blockSize m block)

/-- The test of the scans in `kfree` and `realloc`: `(void *)(block + 1) == pointer`. -/
def holds (arch : Arch) (pointer block : Nat) : Bool := decide (blockData arch block = pointer)

/-- The scan of `kmalloc` and its `goto retry`, for a size already rounded. -/
def kmallocRetry (arch : Arch) (src : PageSource) (size : Nat) : Nat → Heap → Option (Nat × Heap)
  | 0, _ => none
  | fuel + 1, h =>
    match findBlock arch h.mem (fits h.mem size) walkFuel h.heapHead with
    | none => none
    | some 0 =>
      match mmGrowHeap arch src size h with
      | (0, h) => some (0, h)
      | (_ + 1, h) => kmallocRetry arch src size fuel h
    | some (b + 1) =>
      let block := b + 1
      let m := mmSplitBlock arch h.mem block size
      some (blockData arch block, { h with mem := setFree m block 0 })

def kmalloc (arch : Arch) (src : PageSource) (size : Nat) (h : Heap) : Option (Nat × Heap) :=
  if size = 0 ∨ h.heapInitialized = false then some (0, h)
  else kmallocRetry arch src (mmAlignUp size) walkFuel h

def kfree (arch : Arch) (pointer : Nat) (h : Heap) : Option Heap :=
  if pointer = 0 ∨ h.heapInitialized = false then some h
  else
    match findBlock arch h.mem (holds arch pointer) walkFuel h.heapHead with
    | none => none
    | some 0 => some h
    | some (b + 1) => mmCoalesce arch { h with mem := setFree h.mem (b + 1) 1 }

def memcpy (dst src len : Nat) (h : Heap) : Heap :=
  { h with mem := copyFwd h.mem dst src len, copies := ⟨dst, src, len⟩ :: h.copies }

def realloc (arch : Arch) (src : PageSource) (pointer size : Nat) (h : Heap) :
    Option (Nat × Heap) :=
  if pointer = 0 then kmalloc arch src size h
  else if size = 0 then
    match kfree arch pointer h with
    | none => none
    | some h => some (0, h)
  else
    match findBlock arch h.mem (holds arch pointer) walkFuel h.heapHead with
    | none => none
    | some block =>
      if block = 0 ∨ blockFree h.mem block ≠ 0 then some (0, h)
      else if size ≤ blockSize h.mem block then some (pointer, h)
      else
        match kmalloc arch src size h with
        | none => none
        | some (replacement, h) =>
          if replacement = 0 then some (0, h)
          else
            let copySize :=
              if blockSize h.mem block < size then blockSize h.mem block else size
            match kfree arch pointer (memcpy replacement pointer copySize h) with
            | none => none
            | some h => some (replacement, h)

def mmGetHeapTotal (h : Heap) : Nat := h.heapCommitted

inductive HeapOp where
  | kmalloc (size : UInt32)
  | kfree (pointer : Nat)
  | realloc (pointer : Nat) (size : UInt32)
deriving DecidableEq, Repr

def heapStep (arch : Arch) (src : PageSource) : HeapOp → Heap → Option Heap
  | .kmalloc size, h => (kmalloc arch src size.toNat h).map Prod.snd
  | .kfree pointer, h => kfree arch pointer h
  | .realloc pointer size, h => (realloc arch src pointer size.toNat h).map Prod.snd

/-- The states reached from `MmInitialize` by calls that satisfy `ok` when they are made. -/
inductive Reachable (arch : Arch) (src : PageSource) (ok : HeapOp → Heap → Prop) (mem : Mem) :
    Heap → Prop where
  | init : Reachable arch src ok mem (mmInitialize mem)
  | step {h h' : Heap} {op : HeapOp} : Reachable arch src ok mem h → ok op h →
      heapStep arch src op h = some h' → Reachable arch src ok mem h'

end DiscouNT.Mm
