import DiscouNT.Mm.PmmInv
import DiscouNT.Lib.Radix

/-!
# Mm.Mmio

`VmmMapMmioRange` of `kernel/mm/vmm.c` and the page tables it writes.

The address space of the kernel is the identity, so a table is written at its physical address. Only
whole entries are read and written: memory is a quadword for every address that is a multiple of 8.
`walk` is what the processor makes of the tables, with pages of all three sizes. It does not look at
permissions, at reserved bits or at whether an address is canonical.
-/

namespace DiscouNT.Mm

open Lib

/-- The physical memory, the register `cr3` and the page allocator. -/
structure Vm where
  mem : Nat → Nat
  cr3 : Nat
  pmm : Pmm

def tableIndex (shift address : Nat) : Fin 512 :=
  ⟨address >>> shift &&& 0x1FF, Nat.lt_succ_of_le Nat.and_le_right⟩

def addressMask : Nat := 0x000FFFFFFFFFF000

namespace Vm

variable (s : Vm)

def entry (table : Nat) (i : Fin 512) : Nat := s.mem (table + 8 * i)

def store (table : Nat) (i : Fin 512) (v : Nat) : Vm :=
  { s with mem := fun a => if a = table + 8 * i then v else s.mem a }

/-- `for (uint32_t i = 0; i < 512; ++i) table[i] = 0;` -/
def zero (table : Nat) : Vm :=
  { s with mem := fun a => if table ≤ a ∧ a < table + 8 * 512 then 0 else s.mem a }

def pml4 : Nat := s.cr3 &&& 0xFFFFFFFFFFFFF000

end Vm

def Present (e : Nat) : Prop := e &&& 1 ≠ 0

instance (e : Nat) : Decidable (Present e) := inferInstanceAs (Decidable (_ ≠ _))

/-- The bit that makes an entry of a page directory, or of the table above it, a page. -/
def IsPage (e : Nat) : Prop := e &&& 0x80 ≠ 0

instance (e : Nat) : Decidable (IsPage e) := inferInstanceAs (Decidable (_ ≠ _))

def inPage (bits e va : Nat) : Nat := e &&& (2 ^ (52 - bits) - 1) * 2 ^ bits ||| va % 2 ^ bits

/-- The translation of an address by the processor. -/
def walk (s : Vm) (va : Nat) : Option Nat :=
  let e := s.entry (s.cr3 &&& addressMask) (tableIndex 39 va)
  if ¬ Present e ∨ IsPage e then none
  else
    let e := s.entry (e &&& addressMask) (tableIndex 30 va)
    if ¬ Present e then none
    else if IsPage e then some (inPage 30 e va)
    else
      let e := s.entry (e &&& addressMask) (tableIndex 21 va)
      if ¬ Present e then none
      else if IsPage e then some (inPage 21 e va)
      else
        let e := s.entry (e &&& addressMask) (tableIndex 12 va)
        if ¬ Present e then none else some (inPage 12 e va)

def pmmAllocatePage (s : Vm) : Nat × Vm :=
  let r := pmmAllocatePages .amd64 1 s.pmm
  (r.1, { s with pmm := r.2 })

/-- The table that an entry points to, which is allocated if the entry is not present; `none` if
there is no page for it. -/
def tableBelow (table : Nat) (i : Fin 512) (s : Vm) : Option Nat × Vm :=
  if s.entry table i &&& 1 = 0 then
    let r := pmmAllocatePage s
    if r.1 = 0 then (none, r.2)
    else (some r.1, (r.2.zero r.1).store table i (r.1 ||| 3))
  else (some (s.entry table i &&& addressMask), s)

def mapStep (address : Nat) (s : Vm) : Bool × Vm :=
  match tableBelow s.pml4 (tableIndex 39 address) s with
  | (none, s) => (false, s)
  | (some pdpt, s) =>
    match tableBelow pdpt (tableIndex 30 address) s with
    | (none, s) => (false, s)
    | (some pd, s) => (true, s.store pd (tableIndex 21 address) (address ||| 0x83))

def mapSteps : Nat → Nat → Vm → Bool × Vm
  | 0, _, s => (true, s)
  | n + 1, address, s =>
    match mapStep address s with
    | (false, s) => (false, s)
    | (true, s) => mapSteps n (u64 (address + 0x200000)) s

def largePageMask : Nat := 0xFFFFFFFFFFE00000

/-- The loop over the large pages of a range: whether it went through. -/
def mapRange (physical length : Nat) (s : Vm) : Bool × Vm :=
  let start := physical &&& largePageMask
  let stop := u64 (physical + length + 0x1FFFFF) &&& largePageMask
  mapSteps ((stop - start) / 0x200000) start s

/-- `VmmMapMmioRange`. The null result of a failure is `none`. -/
def vmmMapMmioRange (arch : Arch) (physical_address : UInt64) (length : UInt32) (s : Vm) :
    Option Nat × Vm :=
  let physical := physical_address.toNat
  if arch = .amd64 then
    let r := mapRange physical length.toNat s
    (if r.1 = true then some physical else none, r.2)
  else if 0x100000000 < u64 (physical + length.toNat) then (none, s)
  else (some (uptr arch physical), s)

def childFrame (e : Nat) : Option Nat :=
  if Present e then some ((e &&& addressMask) / pageSize) else none

def Vm.inFrame (s : Vm) (frame : Nat) (i : Fin 512) : Nat := s.entry (frame * pageSize) i

/-- The frame of the table on a path, from the last index to the first. -/
def Vm.table (s : Vm) : List (Fin 512) → Option Nat :=
  Radix.tableAt childFrame s.inFrame (s.pml4 / pageSize)

def largePage (i j k : Fin 512) : Nat := i * 2 ^ 39 + j * 2 ^ 30 + k * 2 ^ 21

/-- The tables are the three upper levels of a tree on pages that are in use. The entries of the
lowest of them are absent or large pages of the identity. -/
structure WellFormed (s : Vm) : Prop where
  root : s.cr3 < 2 ^ 52
  distinct : Radix.Distinct childFrame s.inFrame (s.pml4 / pageSize) 2
  upper : ∀ path f i, path.length < 2 → s.table path = some f → Present (s.inFrame f i) →
    ¬ IsPage (s.inFrame f i)
  lowest : ∀ i j k f, s.table [j, i] = some f → Present (s.inFrame f k) →
    IsPage (s.inFrame f k) ∧ s.inFrame f k &&& 0x000FFFFFFFE00000 = largePage i j k
  used : ∀ path f, path.length ≤ 2 → s.table path = some f → f < s.pmm.pageLimit →
    pmmPageUsed f s.pmm = true
  bitmap : PmmInv s.pmm
  hint : 0 < s.pmm.searchHint ∧ s.pmm.searchHint ≤ pmmMaxPages

def Keeps (s s' : Vm) : Prop := ∀ va pa, walk s va = some pa → walk s' va = some pa

end DiscouNT.Mm
