import DiscouNT.Loader.Elf64

/-!
# Loader.Elf32

`PeLoadELF` for images of class 1, and `PeLoadELF` itself, which hands images of class 2 on to
`PeLoadELF64`. No table of the file is checked before it is read, so every access is logged field
by field.
-/

namespace DiscouNT.Loader

open Lib

structure Elf32Header where
  identClass : Nat
  machine : Nat
  entry : Nat
  phoff : Nat
  shoff : Nat
  phnum : Nat
  shnum : Nat
  shstrndx : Nat

def elf32Header (m : Mem) : Elf32Header :=
  { identClass := readLE m 4 1, machine := readLE m 18 2, entry := readLE m 24 4,
    phoff := readLE m 28 4, shoff := readLE m 32 4, phnum := readLE m 44 2,
    shnum := readLE m 48 2, shstrndx := readLE m 50 2 }

structure Elf32Phdr where
  type : Nat
  offset : Nat
  vaddr : Nat
  filesz : Nat
  memsz : Nat

def elf32Phdr (m : Mem) (p : Nat) : Elf32Phdr :=
  { type := readLE m p 4, offset := readLE m (p + 4) 4, vaddr := readLE m (p + 8) 4,
    filesz := readLE m (p + 16) 4, memsz := readLE m (p + 20) 4 }

structure Elf32Shdr where
  name : Nat
  type : Nat
  offset : Nat
  size : Nat
  link : Nat
  entsize : Nat

def elf32Shdr (m : Mem) (p : Nat) : Elf32Shdr :=
  { name := readLE m p 4, type := readLE m (p + 4) 4, offset := readLE m (p + 16) 4,
    size := readLE m (p + 20) 4, link := readLE m (p + 24) 4, entsize := readLE m (p + 36) 4 }

structure Elf32Sym where
  name : Nat
  value : Nat

def elf32Sym (m : Mem) (p : Nat) : Elf32Sym :=
  { name := readLE m p 4, value := readLE m (p + 4) 4 }

structure Elf32Rel where
  offset : Nat
  info : Nat

def elf32Rel (m : Mem) (p : Nat) : Elf32Rel :=
  { offset := readLE m p 4, info := readLE m (p + 4) 4 }

def sizeofElf32Header : Nat := 52
def sizeofElf32Phdr : Nat := 32
def sizeofElf32Shdr : Nat := 40
def sizeofElf32Sym : Nat := 16
def sizeofElf32Rel : Nat := 8

-- `&ph[i]` and `&sh[i]`
def Elf32Header.ph (e : Elf32Header) (i : Nat) : Nat := e.phoff + sizeofElf32Phdr * i
def Elf32Header.sh (e : Elf32Header) (i : Nat) : Nat := e.shoff + sizeofElf32Shdr * i

def elf32RSym (info : Nat) : Nat := info / 2 ^ 8
def elf32RType (info : Nat) : Nat := info % 2 ^ 8

structure LoadRange where
  base : Nat
  memEnd : Nat

def elf32Range (m : Mem) (e : Elf32Header) : Nat → Nat → LoadRange → LoadRange × List Access
  | 0, _, r => (r, [])
  | n + 1, i, r =>
    let ph := elf32Phdr m (e.ph i)
    if ph.type = 1 then
      let stop := u32 (ph.vaddr + ph.memsz)
      let rest := elf32Range m e n (i + 1)
        { base := if ph.vaddr < r.base then ph.vaddr else r.base
          memEnd := if r.memEnd < stop then stop else r.memEnd }
      (rest.1, .src (e.ph i) 4 :: .src (e.ph i + 8) 4 :: .src (e.ph i + 20) 4 :: rest.2)
    else
      let rest := elf32Range m e n (i + 1) r
      (rest.1, .src (e.ph i) 4 :: rest.2)

/-- The copy of the segments; one that fails the check is left out. -/
def elf32CopySegments (f : File) (e : Elf32Header) (base imageSize : Nat) :
    Nat → Nat → Mem → Mem × List Access
  | 0, _, mem => (mem, [])
  | n + 1, i, mem =>
    let ph := elf32Phdr f.bytes (e.ph i)
    if ph.type = 1 then
      if 0 < ph.filesz then
        let dest := sub32 ph.vaddr base
        let reads : List Access :=
          [.src (e.ph i) 4, .src (e.ph i + 16) 4, .src (e.ph i + 8) 4, .src (e.ph i + 4) 4]
        if u32 (ph.offset + ph.filesz) ≤ f.size ∧ u32 (dest + ph.filesz) ≤ imageSize then
          let rest := elf32CopySegments f e base imageSize n (i + 1)
            (blit mem dest f.bytes ph.offset ph.filesz)
          (rest.1, reads ++ .src ph.offset ph.filesz :: .dst dest ph.filesz :: rest.2)
        else
          let rest := elf32CopySegments f e base imageSize n (i + 1) mem
          (rest.1, reads ++ rest.2)
      else
        let rest := elf32CopySegments f e base imageSize n (i + 1) mem
        (rest.1, .src (e.ph i) 4 :: .src (e.ph i + 16) 4 :: rest.2)
    else
      let rest := elf32CopySegments f e base imageSize n (i + 1) mem
      (rest.1, .src (e.ph i) 4 :: rest.2)

structure RelCtx where
  file : File
  base : Nat
  imageSize : Nat
  imageBase : Nat
  symtab : Option Nat
  strtab : Option Nat

/-- `if (r_offset < base) continue;` and `if (patch_off + 4 > image_size) continue;`, for the record
at `r`. -/
def RelCtx.Skips (c : RelCtx) (r : Nat) : Prop :=
  let rel := elf32Rel c.file.bytes r
  rel.offset < c.base ∨ c.imageSize < u32 (rel.offset - c.base + 4)

instance (c : RelCtx) (r : Nat) : Decidable (c.Skips r) := inferInstanceAs (Decidable (_ ∨ _))

/-- `sym_value` of symbol `rSym`; `none` when it is external and stays unresolved. -/
def relSymValue {σ : Type} (c : RelCtx) (env : Env σ) (rSym : Nat) (w : σ) :
    Option Nat × List Access × σ :=
  match c.symtab with
  | none => (some 0, [], w)
  | some symtab =>
    if rSym = 0 then (some 0, [], w)
    else
      let p := symtab + sizeofElf32Sym * rSym
      let sym := elf32Sym c.file.bytes p
      let symValue :=
        if c.base ≤ sym.value then u32 (c.imageBase + (sym.value - c.base))
        else if sym.value ≠ 0 then u32 (c.imageBase + sym.value)
        else 0
      match c.strtab with
      | none => (some symValue, [.src (p + 4) 4], w)
      | some strtab =>
        if sym.value ≠ 0 then (some symValue, [.src (p + 4) 4], w)
        else if sym.name = 0 then (some symValue, [.src (p + 4) 4, .src p 4], w)
        else
          let name := cstring c.file.bytes (strtab + sym.name)
          match env.resolveExternalSymbol name w with
          | (0, w) => (none, [.src (p + 4) 4, .src p 4], env.setElfImportMissingProcError name w)
          | (a + 1, w) => (some (u32 (a + 1)), [.src (p + 4) 4, .src p 4], w)

def relPatch (type imageBase patch symValue addend : Nat) : Option Nat :=
  match type with
  | 8 => some (u32 (imageBase + addend))
  | 2 => if symValue ≠ 0 then some (sub32 (u32 (symValue + addend)) (u32 patch)) else none
  | 6 => if symValue ≠ 0 then some symValue else none
  | 7 => if symValue ≠ 0 then some symValue else none
  | 1 => if symValue ≠ 0 then some (u32 (symValue + addend)) else none
  | _ => none

def applyRelPatch (mem : Mem) (off : Nat) : Option Nat → Mem
  | none => mem
  | some v => writeLE mem off 4 v

/-- The body of the innermost loop, for the record at `r`. The word at the patch is read first. -/
def relRecord {σ : Type} (c : RelCtx) (env : Env σ) (r : Nat) (mem : Mem) (w : σ) :
    Step Mem σ :=
  let rel := elf32Rel c.file.bytes r
  let reads : List Access := [.src r 4, .src (r + 4) 4]
  let patchOff := rel.offset - c.base
  if c.Skips r then (some mem, reads, w)
  else
    let addend := readLE mem patchOff 4
    match relSymValue c env (elf32RSym rel.info) w with
    | (none, t, w) => (none, reads ++ .dst patchOff 4 :: t, w)
    | (some symValue, t, w) =>
      let patch := relPatch (elf32RType rel.info) c.imageBase (c.imageBase + patchOff) symValue addend
      (some (applyRelPatch mem patchOff patch), reads ++ .dst patchOff 4 :: t, w)

def relRecords {σ : Type} (c : RelCtx) (env : Env σ) (count r : Nat) (mem : Mem) (w : σ) :
    Step Mem σ :=
  scan (relRecord c env) sizeofElf32Rel count r mem w

/-- `symtab` and `strtab` for the REL section whose header says `link`. -/
def elf32Tables (f : File) (e : Elf32Header) (link : Nat) :
    Option Nat × Option Nat × List Access :=
  if link < e.shnum then
    let symsec := elf32Shdr f.bytes (e.sh link)
    if symsec.entsize = sizeofElf32Sym then
      if symsec.offset < f.size then
        let reads : List Access :=
          [.src (e.sh link + 36) 4, .src (e.sh link + 16) 4, .src (e.sh link + 24) 4]
        if symsec.link < e.shnum then
          let strsec := elf32Shdr f.bytes (e.sh symsec.link)
          (some symsec.offset, if strsec.offset < f.size then some strsec.offset else none,
            reads ++ [.src (e.sh symsec.link + 16) 4])
        else (some symsec.offset, none, reads)
      else (none, none, [.src (e.sh link + 36) 4, .src (e.sh link + 16) 4])
    else (none, none, [.src (e.sh link + 36) 4])
  else (none, none, [])

def relCtx (f : File) (e : Elf32Header) (base imageSize imageBase link : Nat) : RelCtx :=
  let tables := elf32Tables f e link
  { file := f, base, imageSize, imageBase, symtab := tables.1, strtab := tables.2.1 }

def relSection {σ : Type} (f : File) (base imageSize imageBase : Nat) (env : Env σ)
    (e : Elf32Header) (i : Nat) (mem : Mem) (w : σ) : Step Mem σ :=
  let sh := elf32Shdr f.bytes (e.sh i)
  if sh.type = 9 then
    let r := relRecords (relCtx f e base imageSize imageBase sh.link) env
      (sh.size / sizeofElf32Rel) sh.offset mem w
    (r.1, .src (e.sh i) 4 :: .src (e.sh i + 4) 4 :: .src (e.sh i + 16) 4 :: .src (e.sh i + 20) 4 ::
      .src (e.sh i + 24) 4 :: (elf32Tables f e sh.link).2.2 ++ r.2.1, r.2.2)
  else (some mem, [.src (e.sh i) 4, .src (e.sh i + 4) 4], w)

def relSections {σ : Type} (f : File) (base imageSize imageBase : Nat) (env : Env σ)
    (e : Elf32Header) (mem : Mem) (w : σ) : Step Mem σ :=
  scan (relSection f base imageSize imageBase env e) 1 e.shnum 0 mem w

/-- The lowest address and the size of the image, or `none` where the range is rejected. -/
def elf32Span (r : LoadRange) : Option Nat :=
  if r.base = 0xFFFFFFFF ∨ r.memEnd ≤ r.base then none
  else
    let imageSize := r.memEnd - r.base
    if imageSize = 0 ∨ 0x1000000 < imageSize then none else some imageSize

/-- The copy of the file, the segments and the relocations, with both blocks allocated. -/
def elf32Fill {σ : Type} (arch : Arch) (env : Env σ) (f : File)
    (base imageSize allocBase sourceCopy : Nat) (w : σ) : Result σ :=
  let e := elf32Header f.bytes
  let imageBase := allocBase + sizeofRuntimeHeader arch
  let copied := elf32CopySegments f e base imageSize e.phnum 0 (fun _ => 0)
  let t : List Access :=
    .src 0 f.size :: .dst 0 imageSize :: copied.2 ++ [.src (e.sh e.shstrndx + 16) 4]
  match relSections f base imageSize imageBase env e copied.1 w with
  | (none, t', w) => ⟨none, t ++ t', env.kfree allocBase (env.kfree sourceCopy w)⟩
  | (some mem, t', w) =>
    let image : Image :=
      { imageBase, allocationBase := allocBase, imageSize, isElf := true, elfClass := 1,
        elfBaseVaddr := base, sourceImage := sourceCopy, source := f, mem }
    ⟨some image, t ++ t', w⟩

def elf32Build {σ : Type} (arch : Arch) (env : Env σ) (f : File) (base imageSize : Nat) (w : σ) :
    Result σ :=
  match env.kmalloc (sizeofRuntimeHeader arch + imageSize) w with
  | (0, w) => ⟨none, [], w⟩
  | (a + 1, w) =>
    match env.kmalloc f.size w with
    | (0, w) => ⟨none, [], env.kfree (a + 1) w⟩
    | (s + 1, w) => elf32Fill arch env f base imageSize (a + 1) (s + 1) w

/-- `PeLoadELF` after the class was found not to be 2. -/
def peLoadElf32 {σ : Type} (arch : Arch) (env : Env σ) (f : File) (w : σ) : Result σ :=
  let e := elf32Header f.bytes
  let header : Access := .src 0 sizeofElf32Header
  if e.identClass ≠ 1 then ⟨none, [header], w⟩
  else if e.machine ≠ 3 then ⟨none, [header], w⟩
  else
    let range := elf32Range f.bytes e e.phnum 0 ⟨0xFFFFFFFF, 0⟩
    match elf32Span range.1 with
    | none => ⟨none, header :: range.2, w⟩
    | some imageSize =>
      (elf32Build arch env f range.1.base imageSize w).after (header :: range.2)

def peLoadElf {σ : Type} (arch : Arch) (env : Env σ) (f : File) (w : σ) : Result σ :=
  if (elf32Header f.bytes).identClass = 2 then (peLoadElf64 arch env f w).after [.src 4 1]
  else (peLoadElf32 arch env f w).after [.src 4 1]

end DiscouNT.Loader
