import DiscouNT.Loader.Buffer

/-!
# Loader.Elf64

`PeLoadELF64`: the checks of the program headers, the copy of the segments, and the RELA pass. The
nested loops are one definition each; a `none` in their result is an early `return 0`.

A program header counts as read whole. Section headers, symbols and relocation records are logged
field by field, since the code does not check that all of them lie in the file.
-/

namespace DiscouNT.Loader

open Lib

structure Elf64Header where
  machine : Nat
  entry : Nat
  phoff : Nat
  shoff : Nat
  phentsize : Nat
  phnum : Nat
  shentsize : Nat
  shnum : Nat
  shstrndx : Nat

def elf64Header (m : Mem) : Elf64Header :=
  { machine := readLE m 18 2, entry := readLE m 24 8, phoff := readLE m 32 8,
    shoff := readLE m 40 8, phentsize := readLE m 54 2, phnum := readLE m 56 2,
    shentsize := readLE m 58 2, shnum := readLE m 60 2, shstrndx := readLE m 62 2 }

structure Elf64Phdr where
  type : Nat
  offset : Nat
  vaddr : Nat
  filesz : Nat
  memsz : Nat

def elf64Phdr (m : Mem) (p : Nat) : Elf64Phdr :=
  { type := readLE m p 4, offset := readLE m (p + 8) 8, vaddr := readLE m (p + 16) 8,
    filesz := readLE m (p + 32) 8, memsz := readLE m (p + 40) 8 }

structure Elf64Shdr where
  name : Nat
  type : Nat
  offset : Nat
  size : Nat

def elf64Shdr (m : Mem) (p : Nat) : Elf64Shdr :=
  { name := readLE m p 4, type := readLE m (p + 4) 4, offset := readLE m (p + 24) 8,
    size := readLE m (p + 32) 8 }

structure Elf64Sym where
  name : Nat
  value : Nat

def elf64Sym (m : Mem) (p : Nat) : Elf64Sym :=
  { name := readLE m p 4, value := readLE m (p + 8) 8 }

structure Elf64Rela where
  offset : Nat
  info : Nat
  addend : Nat

/-- The addend is signed; it is kept as its residue modulo `2^64`. -/
def elf64Rela (m : Mem) (p : Nat) : Elf64Rela :=
  { offset := readLE m p 8, info := readLE m (p + 8) 8, addend := readLE m (p + 16) 8 }

def sizeofElf64Header : Nat := 64
def sizeofElf64Phdr : Nat := 56
def sizeofElf64Shdr : Nat := 64
def sizeofElf64Sym : Nat := 24
def sizeofElf64Rela : Nat := 24

-- `&ph[i]` and `&sh[i]`
def Elf64Header.ph (e : Elf64Header) (i : Nat) : Nat := e.phoff + sizeofElf64Phdr * i
def Elf64Header.sh (e : Elf64Header) (i : Nat) : Nat := e.shoff + sizeofElf64Shdr * i

def elf64RSym (info : Nat) : Nat := info / 2 ^ 32
def elf64RType (info : Nat) : Nat := info % 2 ^ 32

def elfMachine : Arch → Nat
  | .x86 => 62
  | .amd64 => 62
  | .loongarch64 => 258

def elf64LoadBaseLoop (arch : Arch) (m : Mem) (e : Elf64Header) : Nat → Nat → Nat → Nat
  | 0, _, base => base
  | n + 1, i, base =>
    let ph := elf64Phdr m (e.ph i)
    elf64LoadBaseLoop arch m e n (i + 1)
      (if ph.type = 1 ∧ ph.memsz ≠ 0 ∧ ph.vaddr < base then uptr arch ph.vaddr else base)

def peGetElf64LoadBase (arch : Arch) (m : Mem) : Nat :=
  let e := elf64Header m
  let top := 256 ^ arch.ptrBytes - 1
  let base := elf64LoadBaseLoop arch m e e.phnum 0 top
  if base = top then 0 else base

def elf64MemEnd (arch : Arch) (f : File) (e : Elf64Header) : Nat → Nat → Nat → Option Nat
  | 0, _, memEnd => some memEnd
  | n + 1, i, memEnd =>
    let ph := elf64Phdr f.bytes (e.ph i)
    if ph.type ≠ 1 then elf64MemEnd arch f e n (i + 1) memEnd
    else if f.size < u64 (ph.offset + ph.filesz) ∨ u64 (ph.vaddr + ph.memsz) < ph.vaddr then none
    else
      elf64MemEnd arch f e n (i + 1)
        (if memEnd < u64 (ph.vaddr + ph.memsz) then uptr arch (u64 (ph.vaddr + ph.memsz))
        else memEnd)

def elf64PhdrReads (e : Elf64Header) (n : Nat) : List Access :=
  (List.range n).map fun i => .src (e.ph i) sizeofElf64Phdr

def elf64CopySegments (f : File) (e : Elf64Header) (base span : Nat) :
    Nat → Nat → Mem → Option Mem × List Access
  | 0, _, mem => (some mem, [])
  | n + 1, i, mem =>
    let ph := elf64Phdr f.bytes (e.ph i)
    let read : Access := .src (e.ph i) sizeofElf64Phdr
    if ph.type ≠ 1 ∨ ph.filesz = 0 then
      let r := elf64CopySegments f e base span n (i + 1) mem
      (r.1, read :: r.2)
    else
      let dest := sub64 ph.vaddr base
      if span < u64 (dest + ph.filesz) then (none, [read])
      else
        let r := elf64CopySegments f e base span n (i + 1)
          (blit mem (u32 dest) f.bytes (u32 ph.offset) (u32 ph.filesz))
        (r.1, read :: .src (u32 ph.offset) (u32 ph.filesz) :: .dst (u32 dest) (u32 ph.filesz) :: r.2)

/-- `symsec` and `strtab`, as offsets into the file. -/
structure SymTables where
  symsec : Option Nat
  strtab : Option Nat

/-- The name of section `i`: where it is, or `none` for `""`. -/
def elf64SectionName (f : File) (e : Elf64Header) (i : Nat) : Option Nat × List Access :=
  let shstr := e.sh e.shstrndx
  if e.shstrndx < e.shnum then
    if (elf64Shdr f.bytes shstr).offset < f.size then
      (some ((elf64Shdr f.bytes shstr).offset + (elf64Shdr f.bytes (e.sh i)).name),
        [.src (shstr + 24) 8, .src (e.sh i) 4])
    else (none, [.src (shstr + 24) 8])
  else (none, [])

def nameIs (f : File) (s : Name) : Option Nat → Bool
  | none => false
  | some p => strEq f.bytes p s

def elf64FindTables (f : File) (e : Elf64Header) : Nat → Nat → SymTables → SymTables × List Access
  | 0, _, t => (t, [])
  | n + 1, i, t =>
    let name := elf64SectionName f e i
    let sh := elf64Shdr f.bytes (e.sh i)
    let t := if nameIs f (ascii ".dynsym") name.1 then { t with symsec := some (e.sh i) } else t
    if nameIs f (ascii ".dynstr") name.1 then
      let t := if u64 (sh.offset + sh.size) ≤ f.size then { t with strtab := some sh.offset } else t
      let r := elf64FindTables f e n (i + 1) t
      (r.1, name.2 ++ .src (e.sh i + 24) 8 :: .src (e.sh i + 32) 8 :: r.2)
    else
      let r := elf64FindTables f e n (i + 1) t
      (r.1, name.2 ++ r.2)

structure RelaCtx where
  arch : Arch
  file : File
  base : Nat
  span : Nat
  imageBase : Nat
  syms : Nat
  symcount : Nat
  strtab : Nat

/-- `if (rels[j].offset < base || off + 8 > span) continue;`, for the record at `r`. -/
def RelaCtx.Skips (c : RelaCtx) (r : Nat) : Prop :=
  let rel := elf64Rela c.file.bytes r
  rel.offset < c.base ∨ c.span < u64 (sub64 rel.offset c.base + 8)

instance (c : RelaCtx) (r : Nat) : Decidable (c.Skips r) := inferInstanceAs (Decidable (_ ∨ _))

def relaSym {σ : Type} (c : RelaCtx) (env : Env σ) (si : Nat) (w : σ) :
    Option Nat × List Access × σ :=
  let p := c.syms + sizeofElf64Sym * si
  let sym := elf64Sym c.file.bytes p
  if c.symcount ≤ si then (some 0, [], w)
  else if sym.value ≠ 0 then
    (some (if c.base ≤ sym.value then uptr c.arch (c.imageBase + (sym.value - c.base))
      else uptr c.arch (c.imageBase + sym.value)), [.src (p + 8) 8], w)
  else if sym.name ≠ 0 then
    let name := cstring c.file.bytes (c.strtab + sym.name)
    match env.resolveExternalSymbol name w with
    | (0, w) => (none, [.src (p + 8) 8, .src p 4], env.setElfImportMissingProcError name w)
    | (a + 1, w) => (some (a + 1), [.src (p + 8) 8, .src p 4], w)
  else (some 0, [.src (p + 8) 8, .src p 4], w)

inductive RelaKind where
  | relative
  | abs64
  | abs32
  | slot
  | pc32
deriving DecidableEq, Repr

def relaKindX86 (type : Nat) : Option RelaKind :=
  match type with
  | 8 => some .relative
  | 1 => some .abs64
  | 6 => some .slot
  | 7 => some .slot
  | 2 => some .pc32
  | 10 => some .abs32
  | 11 => some .abs32
  | _ => none

def relaKindLarch (type : Nat) : Option RelaKind :=
  match type with
  | 3 => some .relative
  | 2 => some .abs64
  | 1 => some .abs32
  | 5 => some .slot
  | _ => none

def relaKind : Arch → Nat → Option RelaKind
  | .x86 => relaKindX86
  | .amd64 => relaKindX86
  | .loongarch64 => relaKindLarch

def RelaKind.width : RelaKind → Nat
  | .relative => 8
  | .abs64 => 8
  | .abs32 => 4
  | .slot => 8
  | .pc32 => 4

def RelaKind.readsAddend : RelaKind → Bool
  | .slot => false
  | _ => true

def RelaKind.value (arch : Arch) (imageBase patch sym addend : Nat) : RelaKind → Nat
  | .relative => u64 (ptrToU64 arch imageBase + addend)
  | .abs64 => u64 (sym + addend)
  | .abs32 => u32 (u64 (sym + addend))
  | .slot => sym
  | .pc32 => u32 (sub64 (u64 (sym + addend)) patch)

/-- The accesses of the `switch`, for the record at `r`. -/
def patchAccesses (r off : Nat) : Option RelaKind → List Access
  | none => []
  | some k => (if k.readsAddend then [.src (r + 16) 8] else []) ++ [.dst off k.width]

def relaRecord {σ : Type} (c : RelaCtx) (env : Env σ) (r : Nat) (mem : Mem) (w : σ) :
    Step Mem σ :=
  let rel := elf64Rela c.file.bytes r
  let off := sub64 rel.offset c.base
  if c.Skips r then (some mem, [.src (r + 8) 8, .src r 8], w)
  else
    match relaSym c env (elf64RSym rel.info) w with
    | (none, t, w) => (none, .src (r + 8) 8 :: .src r 8 :: t, w)
    | (some sym, t, w) =>
      let kind := relaKind c.arch (elf64RType rel.info)
      let mem :=
        match kind with
        | none => mem
        | some k =>
          writeLE mem (u32 off) k.width
            (k.value c.arch c.imageBase (c.imageBase + u32 off) sym rel.addend)
      (some mem, .src (r + 8) 8 :: .src r 8 :: (t ++ patchAccesses r (u32 off) kind), w)

def relaRecords {σ : Type} (c : RelaCtx) (env : Env σ) (count r : Nat) (mem : Mem) (w : σ) :
    Step Mem σ :=
  scan (relaRecord c env) sizeofElf64Rela count r mem w

def relaSection {σ : Type} (c : RelaCtx) (env : Env σ) (e : Elf64Header) (i : Nat) (mem : Mem)
    (w : σ) : Step Mem σ :=
  let sh := elf64Shdr c.file.bytes (e.sh i)
  if sh.type ≠ 4 then (some mem, [.src (e.sh i + 4) 4], w)
  else
    let reads : List Access := [.src (e.sh i + 4) 4, .src (e.sh i + 24) 8, .src (e.sh i + 32) 8]
    if c.file.size < u64 (sh.offset + sh.size) then (some mem, reads, w)
    else
      let r := relaRecords c env (u32 (sh.size / sizeofElf64Rela)) sh.offset mem w
      (r.1, reads ++ r.2.1, r.2.2)

def relaSections {σ : Type} (c : RelaCtx) (env : Env σ) (e : Elf64Header) (mem : Mem) (w : σ) :
    Step Mem σ :=
  scan (relaSection c env e) 1 e.shnum 0 mem w

def elf64HasSections (f : File) (e : Elf64Header) : Bool :=
  decide (e.shoff ≠ 0) && decide (u64 (e.shoff + e.shnum * e.shentsize) ≤ f.size)

def relaCtx (arch : Arch) (f : File) (base span imageBase symsec strtab : Nat) : RelaCtx :=
  let sh := elf64Shdr f.bytes symsec
  { arch, file := f, base, span, imageBase, syms := sh.offset,
    symcount := u32 (sh.size / sizeofElf64Sym), strtab }

/-- The relocation half of `PeLoadELF64`. -/
def elf64Relocate {σ : Type} (arch : Arch) (env : Env σ) (f : File) (base span imageBase : Nat)
    (mem : Mem) (w : σ) : Step Mem σ :=
  let e := elf64Header f.bytes
  if elf64HasSections f e then
    let tables := elf64FindTables f e e.shnum 0 ⟨none, none⟩
    match tables.1.symsec, tables.1.strtab with
    | some symsec, some strtab =>
      let r := relaSections (relaCtx arch f base span imageBase symsec strtab) env e mem w
      (r.1, tables.2 ++ .src (symsec + 24) 8 :: .src (symsec + 32) 8 :: r.2.1, r.2.2)
    | _, _ => (some mem, tables.2, w)
  else (some mem, [], w)

/-! ## The loader -/

def elf64Slack : Arch → Nat
  | .loongarch64 => 0xFFFF
  | _ => 0

/-- The image behind the runtime header; on LoongArch it is moved up to a 64 KiB boundary. -/
def elf64ImageBase (arch : Arch) (allocBase : Nat) : Nat :=
  match arch with
  | .loongarch64 => (allocBase + sizeofRuntimeHeader arch + 0xFFFF) / 0x10000 * 0x10000
  | _ => allocBase + sizeofRuntimeHeader arch

/-- The header is for this kernel, and the program headers lie in the file. -/
def elf64HeaderOk (arch : Arch) (f : File) (e : Elf64Header) : Bool :=
  !(decide (e.machine ≠ elfMachine arch) || decide (e.phentsize < sizeofElf64Phdr)) &&
  !(decide (f.size ≤ e.phoff) || decide (f.size < u64 (e.phoff + e.phnum * e.phentsize)))

/-- `span`, or `none` where the program headers are rejected. -/
def elf64Span (arch : Arch) (f : File) (e : Elf64Header) : Option Nat :=
  let base := peGetElf64LoadBase arch f.bytes
  match elf64MemEnd arch f e e.phnum 0 0 with
  | none => none
  | some memEnd =>
    if memEnd ≤ base ∨ 0x10000000 < memEnd - base then none
    else
      let span := memEnd - base
      if 0xFFFFFFFF < span then none
      else if 0xFFFFFFFF - sizeofRuntimeHeader arch - elf64Slack arch < span then none
      else some span

/-- The copy of the file, the segments and the relocations, with both blocks allocated. -/
def elf64Fill {σ : Type} (arch : Arch) (env : Env σ) (f : File) (span allocBase sourceCopy : Nat)
    (w : σ) : Result σ :=
  let e := elf64Header f.bytes
  let base := peGetElf64LoadBase arch f.bytes
  let imageBase := elf64ImageBase arch allocBase
  let start : List Access := [.src 0 f.size, .dst 0 span]
  match elf64CopySegments f e base span e.phnum 0 (fun _ => 0) with
  | (none, t) => ⟨none, start ++ t, env.kfree allocBase (env.kfree sourceCopy w)⟩
  | (some mem, t) =>
    match elf64Relocate arch env f base span imageBase mem w with
    | (none, t', w) => ⟨none, start ++ t ++ t', env.kfree allocBase (env.kfree sourceCopy w)⟩
    | (some mem, t', w) =>
      let image : Image :=
        { imageBase, allocationBase := allocBase, imageSize := span, isElf := true, elfClass := 2,
          elfBaseVaddr := base, sourceImage := sourceCopy, source := f, mem }
      ⟨some image, start ++ t ++ t', w⟩

/-- From the first `kmalloc` on, with the headers accepted. -/
def elf64Build {σ : Type} (arch : Arch) (env : Env σ) (f : File) (span : Nat) (w : σ) : Result σ :=
  match env.kmalloc (sizeofRuntimeHeader arch + span + elf64Slack arch) w with
  | (0, w) => ⟨none, [], w⟩
  | (a + 1, w) =>
    match env.kmalloc f.size w with
    | (0, w) => ⟨none, [], env.kfree (a + 1) w⟩
    | (s + 1, w) => elf64Fill arch env f span (a + 1) (s + 1) w

def peLoadElf64 {σ : Type} (arch : Arch) (env : Env σ) (f : File) (w : σ) : Result σ :=
  let e := elf64Header f.bytes
  let reads := .src 0 sizeofElf64Header :: elf64PhdrReads e e.phnum
  if elf64HeaderOk arch f e then
    match elf64Span arch f e with
    | none => ⟨none, reads, w⟩
    | some span => (elf64Build arch env f span w).after reads
  else ⟨none, reads, w⟩

end DiscouNT.Loader
