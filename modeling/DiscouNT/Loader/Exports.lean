import DiscouNT.Loader.PeImage

/-!
# Loader.Exports

`PeGetProcAddress` and `PeGetEntryPoint` on an image the loaders built. A null result is 0.

The symbol loop of `PeGetELF64ProcAddress` counts in `uint16_t` against a 32-bit count; with more
than 65535 symbols it never ends unless it finds the name. `none` is that case.
-/

namespace DiscouNT.Loader

open Lib

/-- The second argument of `PeGetProcAddress`, which is an ordinal when it is at most `0xffff`. -/
inductive ProcRef where
  | ordinal (n : Nat)
  | name (s : Name)

/-- The four tables the section loop of `PeGetELF64ProcAddress` finds. -/
structure ProcTables where
  symtab : Option Nat := none
  strtab : Option Nat := none
  count : Nat := 0
  staticSymtab : Option Nat := none
  staticStrtab : Option Nat := none
  staticCount : Nat := 0

def elf64ProcSection (m : Mem) (name : Nat) (sh : Elf64Shdr) (t : ProcTables) : ProcTables :=
  if strEq m name (ascii ".dynsym") then
    { t with symtab := some sh.offset, count := u32 (sh.size / sizeofElf64Sym) }
  else if strEq m name (ascii ".dynstr") then { t with strtab := some sh.offset }
  else if strEq m name (ascii ".symtab") then
    { t with staticSymtab := some sh.offset, staticCount := u32 (sh.size / sizeofElf64Sym) }
  else if strEq m name (ascii ".strtab") then { t with staticStrtab := some sh.offset }
  else t

/-- The section loop; the last section of a name wins. -/
def elf64ProcTables (m : Mem) (e : Elf64Header) : ProcTables :=
  let shstr := (elf64Shdr m (e.sh e.shstrndx)).offset
  rounds (fun i => elf64ProcSection m (shstr + (elf64Shdr m (e.sh i)).name) (elf64Shdr m (e.sh i)))
    e.shnum 0 {}

/-- `for (i = 0; i < count; i++)` with `uint16_t i`: the first symbol of that name. -/
def elf64FindSymbol (m : Mem) (symtab strtab count : Nat) (func : Name) :
    Nat → Nat → Option (Option Elf64Sym)
  | 0, _ => none
  | fuel + 1, i =>
    if i < count then
      let sym := elf64Sym m (symtab + sizeofElf64Sym * i)
      if sym.name = 0 ∨ strEq m (strtab + sym.name) func = false then
        elf64FindSymbol m symtab strtab count func fuel ((i + 1) % 65536)
      else some (some sym)
    else some none

def peGetElf64ProcAddress (arch : Arch) (im : Image) (func : Name) : Option Nat :=
  let m := im.source.bytes
  let e := elf64Header m
  let base := im.elfBaseVaddr
  if im.source.size < u64 (e.shoff + e.shnum * e.shentsize) then some 0
  else if e.shnum ≤ e.shstrndx then some 0
  else
    let t := elf64ProcTables m e
    let t :=
      if t.symtab = none ∨ t.strtab = none then
        { t with symtab := t.staticSymtab, strtab := t.staticStrtab, count := t.staticCount }
      else t
    match t.symtab, t.strtab with
    | some symtab, some strtab =>
      -- after 65536 rounds the loop is where it began
      match elf64FindSymbol m symtab strtab t.count func 65537 0 with
      | none => none
      | some none => some 0
      | some (some sym) =>
        if sym.value = 0 then some 0
        else if base ≤ sym.value then some (uptr arch (im.imageBase + (sym.value - base)))
        else some (uptr arch (im.imageBase + sym.value))
    | _, _ => some 0

def elf32ProcSection (m : Mem) (name : Nat) (sh : Elf32Shdr) (t : ProcTables) : ProcTables :=
  let count := sh.size / sizeofElf32Sym
  let t := if strEq m name (ascii ".dynsym") then { t with symtab := some sh.offset, count } else t
  let t := if strEq m name (ascii ".dynstr") then { t with strtab := some sh.offset } else t
  let t :=
    if strEq m name (ascii ".symtab") then
      { t with staticSymtab := some sh.offset, staticCount := count }
    else t
  if strEq m name (ascii ".strtab") then { t with staticStrtab := some sh.offset } else t

def elf32ProcTables (m : Mem) (e : Elf32Header) : ProcTables :=
  let shstr := (elf32Shdr m (e.sh e.shstrndx)).offset
  rounds (fun i => elf32ProcSection m (shstr + (elf32Shdr m (e.sh i)).name) (elf32Shdr m (e.sh i)))
    e.shnum 0 {}

def elf32FindSymbol (m : Mem) (symtab strtab : Nat) (func : Name) : Nat → Nat → Option Elf32Sym
  | 0, _ => none
  | n + 1, i =>
    let sym := elf32Sym m (symtab + sizeofElf32Sym * i)
    if sym.name = 0 ∨ strEq m (strtab + sym.name) func = false then
      elf32FindSymbol m symtab strtab func n (i + 1)
    else some sym

/-- `PeGetELFLoadBase`, for an ELF32 header at the start of `m`. -/
def elf32LoadBaseLoop (m : Mem) (e : Elf32Header) : Nat → Nat → Nat → Nat
  | 0, _, base => base
  | n + 1, i, base =>
    let ph := elf32Phdr m (e.ph i)
    elf32LoadBaseLoop m e n (i + 1)
      (if ph.type = 1 ∧ 0 < ph.memsz ∧ ph.vaddr < base then ph.vaddr else base)

def peGetElfLoadBase (m : Mem) : Nat :=
  let base := elf32LoadBaseLoop m (elf32Header m) (elf32Header m).phnum 0 0xFFFFFFFF
  if base = 0xFFFFFFFF then 0 else base

def elf32Base (im : Image) : Nat :=
  if im.isElf then u32 im.elfBaseVaddr else peGetElfLoadBase im.mem

/-- `PeGetELFProcAddress`. The tables are those of the source, where the image has one. -/
def peGetElfProcAddress (arch : Arch) (im : Image) (func : Name) : Nat :=
  let m := if im.isElf then im.source.bytes else im.mem
  let e := elf32Header m
  let base := elf32Base im
  let t := elf32ProcTables m e
  let t :=
    if (t.symtab = none ∨ t.strtab = none) ∧ t.staticSymtab ≠ none ∧ t.staticStrtab ≠ none then
      { t with symtab := t.staticSymtab, strtab := t.staticStrtab, count := t.staticCount }
    else t
  match t.symtab, t.strtab with
  | some symtab, some strtab =>
    match elf32FindSymbol m symtab strtab func t.count 0 with
    | none => 0
    | some sym =>
      if sym.value ≠ 0 ∧ base ≤ sym.value then uptr arch (im.imageBase + (sym.value - base)) else 0
  | _, _ => 0

/-- `opt` of the PE headers in an image, and the data directory behind it. -/
def peOptional (m : Mem) : Nat := eLfanew m + sizeofFileHeader
def numberOfRvaAndSizes (m : Mem) : Nat := readLE m (peOptional m + 92) 4
def dataDir (m : Mem) (i : Nat) : Nat := readLE m (peOptional m + 96 + 4 * i) 4

/-- The comparison with an export that carries the decorations of stdcall, from `p` on. -/
def decoratedMatch (m : Mem) : Nat → Name → Bool
  | p, [] => m p == 0 || m p == 0x40
  | p, c :: cs => m p != 0 && m p != 0x40 && c == m p && decoratedMatch m (p + 1) cs

/-- The export name at `p` is the function asked for, literally or undecorated. -/
def exportMatches (m : Mem) (p : Nat) (func : Name) : Bool :=
  let exportName := if m p = 0x5F then p + 1 else p
  let requested := if func.head? = some 0x5F then func.tail else func
  strEq m p func || decoratedMatch m exportName requested

/-- The name loop: the address of the first match of `n` exports from export `i` on. -/
def peFindExport (m : Mem) (functions names ordinals : Nat) (func : Name) : Nat → Nat → Option Nat
  | 0, _ => none
  | n + 1, i =>
    if exportMatches m (readLE m (names + 4 * i) 4) func then
      some (readLE m (functions + 4 * readLE m (ordinals + 2 * i) 2) 4)
    else peFindExport m functions names ordinals func n (i + 1)

def peGetPeProcAddress (arch : Arch) (im : Image) (func : ProcRef) : Nat :=
  let m := im.mem
  if numberOfRvaAndSizes m < 1 then 0
  else
    let dir := dataDir m 0
    if dir = 0 then 0
    else
      let base := readLE m (dir + 16) 4
      let functions := readLE m (dir + 28) 4
      match func with
      | .ordinal n =>
        if n < base then 0
        else if readLE m (dir + 20) 4 ≤ n - base ∨ readLE m (functions + 4 * (n - base)) 4 = 0 then 0
        else uptr arch (im.imageBase + readLE m (functions + 4 * (n - base)) 4)
      | .name s =>
        match peFindExport m functions (readLE m (dir + 32) 4) (readLE m (dir + 36) 4) s
          (readLE m (dir + 24) 4) 0 with
        | none => 0
        | some rva => uptr arch (im.imageBase + rva)

def peGetProcAddress (arch : Arch) (im : Image) (func : ProcRef) : Option Nat :=
  match func with
  | .ordinal 0 => some 0
  | .ordinal (n + 1) =>
    if im.isElf ∨ readLE im.mem 0 4 = elfMagic then some 0
    else some (peGetPeProcAddress arch im (.ordinal (n + 1)))
  | .name s =>
    if im.isElf then
      if im.elfClass = 2 then peGetElf64ProcAddress arch im s
      else some (peGetElfProcAddress arch im s)
    else if readLE im.mem 0 4 = elfMagic then some (peGetElfProcAddress arch im s)
    else some (peGetPeProcAddress arch im (.name s))

/-- `PeGetEntryPoint`. The header of a class 1 image is read from the image, not from its source. -/
def peGetEntryPoint (arch : Arch) (im : Image) : Nat :=
  if readLE im.mem 0 4 = elfMagic then
    if im.elfClass = 2 then
      let entry := (elf64Header im.source.bytes).entry
      if entry = 0 then 0
      else if im.elfBaseVaddr ≤ entry then uptr arch (im.imageBase + (entry - im.elfBaseVaddr))
      else if entry < im.imageSize then uptr arch (im.imageBase + entry)
      else 0
    else
      let entry := (elf32Header im.mem).entry
      let base := elf32Base im
      if entry = 0 then 0
      else if base ≠ 0 ∧ base ≤ entry then uptr arch (im.imageBase + (entry - base))
      else if entry < im.imageSize then uptr arch (im.imageBase + entry)
      else 0
  else if eMagic im.mem ≠ 0x5A4D then 0
  else uptr arch (im.imageBase + readLE im.mem (peOptional im.mem + 16) 4)

end DiscouNT.Loader
