import DiscouNT.Arch
import DiscouNT.Lib.Bitmap
import DiscouNT.Lib.Ranges

/-!
# Mm.Pmm

The physical page allocator of `kernel/mm/pmm.c`: a bitmap with one bit a page (set when used), a
counter of the clear bits, and a search hint.

The multiboot structures are read from memory the allocator does not write (`BootMemory`). The two
walks over the memory map advance by a length read from each entry, modulo `2^32`, and may go round
for ever; they take fuel, and `none` says that it ran out.
-/

namespace DiscouNT.Mm

open Lib

def pmmMaxPages : Nat := 1048576
def pmmBitmapBytes : Nat := pmmMaxPages / 8
def pageSize : Nat := 4096

structure Pmm where
  pageBitmap : Nat → UInt8
  pageLimit : Nat
  managedPages : Nat
  freePages : Nat
  searchHint : Nat

def pmmPageUsed (page : Nat) (s : Pmm) : Bool := Bitmap.test s.pageBitmap page

/-- `PmmSetPage`. The counter is not decremented below zero. -/
def pmmSetPage (page : Nat) (used : Bool) (s : Pmm) : Pmm :=
  if s.pageLimit ≤ page then s
  else
    let wasUsed := pmmPageUsed page s
    { s with
      pageBitmap := Bitmap.write s.pageBitmap page used
      freePages :=
        if wasUsed && !used then u32 (s.freePages + 1)
        else if !wasUsed && used && decide (s.freePages ≠ 0) then s.freePages - 1
        else s.freePages }

def pmmSetPages (used : Bool) : Nat → Nat → Pmm → Pmm
  | 0, _, s => s
  | n + 1, page, s => pmmSetPages used n (page + 1) (pmmSetPage (u32 page) used s)

/-- `PmmMarkRange`: pages marked used are rounded outwards, pages marked free inwards. -/
def pmmMarkRange (base length : Nat) (used : Bool) (s : Pmm) : Pmm :=
  let first := if used then base / pageSize else u64 (base + pageSize - 1) / pageSize
  let last :=
    if used then u64 (base + length + pageSize - 1) / pageSize else u64 (base + length) / pageSize
  let last := if s.pageLimit < last then s.pageLimit else last
  pmmSetPages used (last - first) first s

structure MultibootInfo where
  addr : Nat
  flags : UInt32
  memUpper : UInt32
  modsCount : UInt32
  modsAddr : UInt32
  mmapLength : UInt32
  mmapAddr : UInt32

structure MultibootMmapEntry where
  size : UInt32
  base : UInt64
  length : UInt64
  type : UInt32

structure MultibootModule where
  start : UInt32
  «end» : UInt32

/-- What memory holds at an address, read as a map entry or as a module. -/
structure BootMemory where
  entry : Nat → MultibootMmapEntry
  module : Nat → MultibootModule

/-- `&__kernel_end`, as `linker.ld` places it: the image starts at 1 MiB and ends below 4 GiB. -/
structure KernelImage where
  kernelEnd : Nat
  above : 0x100000 ≤ kernelEnd
  below : kernelEnd + pageSize ≤ 2 ^ 32

def multibootInfoMemory : Nat := 0
def multibootInfoModules : Nat := 3
def multibootInfoMmap : Nat := 6
def multibootMemoryAvailable : UInt32 := 1
def sizeofMultibootInfo : Nat := 116
def sizeofMultibootModule : Nat := 16

def MultibootInfo.has (info : MultibootInfo) (bit : Nat) : Bool := info.flags.toNat.testBit bit

/-- The ranges `PmmReserveBootData` marks used, in order. -/
def bootDataRanges (arch : Arch) (k : KernelImage) (m : BootMemory) :
    Option MultibootInfo → List (Nat × Nat)
  | none => [(0, if arch = .loongarch64 then 0x200000 else k.kernelEnd)]
  | some info =>
    if arch = .loongarch64 then [(0, 0x200000)]
    else
      [(0, k.kernelEnd), (info.addr, sizeofMultibootInfo)] ++
      (if info.has multibootInfoMmap ∧ info.mmapAddr ≠ 0 then
        [(info.mmapAddr.toNat, info.mmapLength.toNat)] else []) ++
      (if info.has multibootInfoModules ∧ info.modsAddr ≠ 0 then
        (info.modsAddr.toNat, uptr arch (info.modsCount.toNat * sizeofMultibootModule)) ::
          ((List.range info.modsCount.toNat).filterMap fun i =>
            let mod := m.module (uptr arch (info.modsAddr.toNat + i * sizeofMultibootModule))
            if mod.start < mod.end then some (mod.start.toNat, mod.end.toNat - mod.start.toNat)
            else none)
      else [])

def pmmReserveBootData (arch : Arch) (k : KernelImage) (m : BootMemory) (info : Option MultibootInfo)
    (s : Pmm) : Pmm :=
  (bootDataRanges arch k m info).foldl (fun s r => pmmMarkRange r.1 r.2 true s) s

/-- `while (offset + sizeof(uint32_t) <= info->mmap_length) { ... }`, doing `f` for each entry. -/
def mmapWalk {σ : Type} (arch : Arch) (m : BootMemory) (info : MultibootInfo)
    (f : MultibootMmapEntry → σ → σ) : Nat → Nat → σ → Option σ
  | 0, _, _ => none
  | fuel + 1, offset, s =>
    if uptr arch (offset + 4) ≤ info.mmapLength.toNat then
      let entry := m.entry (u32 (info.mmapAddr.toNat + offset))
      let s := f entry s
      if entry.size = 0 then some s
      else mmapWalk arch m info f fuel (u32 (offset + (entry.size.toNat + 4))) s
    else some s

def raiseHighest (entry : MultibootMmapEntry) (highest : Nat) : Nat :=
  let stop := u64 (entry.base.toNat + entry.length.toNat)
  if entry.type = multibootMemoryAvailable ∧ highest < stop then stop else highest

def freeAvailable (entry : MultibootMmapEntry) (s : Pmm) : Pmm :=
  if entry.type = multibootMemoryAvailable then
    pmmMarkRange entry.base.toNat entry.length.toNat false s
  else s

def highestAddress (arch : Arch) (m : BootMemory) (fuel : Nat) : Option MultibootInfo → Option Nat
  | none => some (16 * 1024 * 1024)
  | some info =>
    if info.has multibootInfoMmap then mmapWalk arch m info raiseHighest fuel 0 (16 * 1024 * 1024)
    else if info.has multibootInfoMemory then some (0x100000 + info.memUpper.toNat * 1024)
    else some (16 * 1024 * 1024)

def freeMemory (arch : Arch) (m : BootMemory) (fuel : Nat) (highest : Nat) (s : Pmm) :
    Option MultibootInfo → Option Pmm
  | none => some (pmmMarkRange 0x100000 (highest - 0x100000) false s)
  | some info =>
    if info.has multibootInfoMmap then mmapWalk arch m info freeAvailable fuel 0 s
    else some (pmmMarkRange 0x100000 (highest - 0x100000) false s)

/-- `memset(page_bitmap, 0xFF, ...)`, `free_pages = 0` and the new limit. -/
def pmmReset (limit : Nat) (s : Pmm) : Pmm :=
  { s with
    pageBitmap := fun i => if i < pmmBitmapBytes then 0xFF else s.pageBitmap i
    freePages := 0
    pageLimit := limit }

def pmmInitialize (arch : Arch) (k : KernelImage) (m : BootMemory) (fuel : Nat)
    (info : Option MultibootInfo) (s : Pmm) : Option Pmm :=
  if arch = .loongarch64 then
    let highest := 256 * 1024 * 1024
    let s := pmmReset (highest / pageSize) s
    let s := pmmMarkRange 0x100000 (highest - 0x100000) false s
    let s := { s with managedPages := s.freePages }
    let s := pmmReserveBootData arch k m info s
    some { s with searchHint := 0x200000 / pageSize }
  else
    match highestAddress arch m fuel info with
    | none => none
    | some highest =>
      let highest := if 0x100000000 < highest then 0x100000000 else highest
      let limit := u32 (highest / pageSize)
      let limit := if pmmMaxPages < limit then pmmMaxPages else limit
      match freeMemory arch m fuel highest (pmmReset limit s) info with
      | none => none
      | some s =>
        let s := { s with managedPages := s.freePages }
        let s := pmmReserveBootData arch k m info s
        some { s with searchHint := u32 (uptr arch (k.kernelEnd + pageSize - 1) / pageSize) }

/-- The inner loop of `PmmAllocatePages` over `n` pages from `page` on: the start of the first run
of `count` clear pages. -/
def findRun (count : Nat) (s : Pmm) : Nat → Nat → Nat → Nat → Option Nat
  | 0, _, _, _ => none
  | n + 1, page, run, start =>
    if !pmmPageUsed page s then
      let start := if run = 0 then page else start
      if run + 1 = count then some start else findRun count s n (page + 1) (run + 1) start
    else findRun count s n (page + 1) 0 start

/-- The two passes: from the hint to the limit, then from page 1 to the hint. -/
def findPages (count : Nat) (s : Pmm) : Option Nat :=
  match findRun count s (s.pageLimit - s.searchHint) s.searchHint 0 0 with
  | some start => some start
  | none => findRun count s (s.searchHint - 1) 1 0 0

def pmmAllocatePages (arch : Arch) (count : Nat) (s : Pmm) : Nat × Pmm :=
  if count = 0 ∨ s.freePages < count then (0, s)
  else
    match findPages count s with
    | none => (0, s)
    | some start =>
      (uptr arch (start * pageSize),
        { pmmSetPages true count start s with searchHint := u32 (start + count) })

def pmmClearPages (page : Nat) : Nat → Nat → Pmm → Pmm
  | 0, _, s => s
  | n + 1, i, s =>
    if u32 (page + i) < s.pageLimit then
      pmmClearPages page n (i + 1) (pmmSetPage (u32 (page + i)) false s)
    else s

def pmmFreePages (address count : Nat) (s : Pmm) : Pmm :=
  let page := u32 (address / pageSize)
  if address % pageSize ≠ 0 ∨ page = 0 then s
  else
    let s := pmmClearPages page count 0 s
    if page < s.searchHint then { s with searchHint := page } else s

/-- States and outstanding runs (address and page count, latest first) reached from `s₀` by
allocations and by frees of outstanding runs. -/
inductive PmmReach (arch : Arch) (s₀ : Pmm) : Pmm → List (Nat × Nat) → Prop where
  | init : PmmReach arch s₀ s₀ []
  | failed {s s' : Pmm} {out : List (Nat × Nat)} {count : UInt32} : PmmReach arch s₀ s out →
      pmmAllocatePages arch count.toNat s = (0, s') → PmmReach arch s₀ s' out
  | allocated {s s' : Pmm} {out : List (Nat × Nat)} {count : UInt32} {address : Nat} :
      PmmReach arch s₀ s out → pmmAllocatePages arch count.toNat s = (address, s') → address ≠ 0 →
      PmmReach arch s₀ s' ((address, count.toNat) :: out)
  | freed {s : Pmm} {out : List (Nat × Nat)} {r : Nat × Nat} : PmmReach arch s₀ s out → r ∈ out →
      PmmReach arch s₀ (pmmFreePages r.1 r.2 s) (out.erase r)

end DiscouNT.Mm
