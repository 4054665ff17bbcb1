import DiscouNT.Cdfs.Sector
import DiscouNT.Rtl.Path

/-!
# Cdfs.Lookup

Looking up and reading files, `CdfsFindFile` and the ISO half of `CdfsReadFile` in
`drivers/cdfs/cdfs.c`.

* A buffer from `kmalloc` holds what the heap left in it. What lies behind its end is memory too,
  and a read there returns it.
* Every byte of a directory record that is inspected is noted in `touched`, with what had been read
  of its directory.
* A loop is run with a number of rounds, and `none` says that they were not enough.
-/

namespace DiscouNT.Cdfs

open Lib Rtl List

def upper (ch : UInt8) : UInt8 := if 97 ≤ ch ∧ ch ≤ 122 then ch - 32 else ch

def cdfsNameEqual : List UInt8 → List UInt8 → Bool
  | [], [] => true
  | a :: as, b :: bs => if upper a ≠ upper b then false else cdfsNameEqual as bs
  | _, _ => false

def cString (l : List UInt8) : List UInt8 := l.takeWhile (· ≠ 0)

def entryName (buf : Mem) : Nat → Nat → List UInt8
  | 0, _ => []
  | n + 1, p => if buf p = 59 then [] else buf p :: entryName buf n (p + 1)

/-- How many bytes of a name are looked at: the semicolon is one of them. -/
def nameSpan (buf : Mem) : Nat → Nat → Nat
  | 0, _ => 0
  | n + 1, p => if buf p = 59 then 1 else nameSpan buf n (p + 1) + 1

/-- The bytes a lookup compares at most of the record at `off`: `name_len`, but fewer than 255. -/
def nameLength (buf : Mem) (off : Nat) : Nat := min (buf (off + 32)).toNat 254

def recordName (buf : Mem) (off : Nat) : List UInt8 :=
  cString (entryName buf (nameLength buf off) (off + 33))

structure Found where
  lba : Nat
  size : Nat
  isDirectory : Bool
deriving DecidableEq, Repr

def recordFound (buf : Mem) (off : Nat) : Found where
  lba := readLE buf (off + 2) 4
  size := readLE buf (off + 10) 4
  isDirectory := decide ((buf (off + 25)).toNat / 2 % 2 = 1)

def nameOffsets (buf : Mem) (off : Nat) : List Nat :=
  [off, off + 25, off + 32] ++ List.range' (off + 33) (nameSpan buf (nameLength buf off) (off + 33))

def extentOffsets (off : Nat) : List Nat := List.range' (off + 2) 4 ++ List.range' (off + 10) 4

/-- The loop over the records of a directory buffer: the record found, if there is one, and the
offsets that were looked at. -/
def scanRecords (buf : Mem) (limit : Nat) (component : List UInt8) :
    Nat → Nat → Option (Option Found) × List Nat
  | 0, _ => (none, [])
  | rounds + 1, off =>
    if limit ≤ off then (some none, [])
    else if buf off = 0 then
      let rest := scanRecords buf limit component rounds ((off / sectorSize + 1) * sectorSize)
      (rest.1, off :: rest.2)
    else if cdfsNameEqual component (recordName buf off) then
      (some (some (recordFound buf off)), nameOffsets buf off ++ extentOffsets off)
    else
      let rest := scanRecords buf limit component rounds (off + (buf off).toNat)
      (rest.1, nameOffsets buf off ++ rest.2)

/-- `(int)(sectors * CDFS_SECTOR_SIZE)`, as far as the loop is concerned: it is not entered where
the bound is negative. -/
def scanLimit (sectors : Nat) : Nat :=
  if sectors * sectorSize < 2 ^ 31 then sectors * sectorSize else 0

/-- `n` reads into the directory buffer from sector `i` on. A failure is not noticed. -/
def fillDirectory (m : Medium) (lba : Nat) : Nat → Nat → Mem → Volume → List Bool × Mem × Volume
  | 0, _, buf, v => ([], buf, v)
  | n + 1, i, buf, v =>
    let r := cdfsReadSector m (u32 (lba + i)) (i * sectorSize) buf v
    let rest := fillDirectory m lba n (i + 1) r.2.1 r.2.2
    (r.1 :: rest.1, rest.2)

/-- What `kmalloc` answers when it is called for the given time: nothing, or a block with these
bytes. -/
abbrev Allocator := (tick size : Nat) → Option Mem

structure Host where
  volume : Volume
  ticks : Nat

def Host.kmalloc (host : Host) (alloc : Allocator) (size : Nat) : Option Mem × Host :=
  (alloc host.ticks size, { host with ticks := host.ticks + 1 })

/-- A byte of a directory record that was looked at, and the reads its directory came from. -/
structure Touch where
  sectors : Nat
  filled : List Bool
  off : Nat

structure Outcome (α : Type) where
  result : Option (Option α)
  touched : List Touch
  host : Host

/-- `(size + CDFS_SECTOR_SIZE - 1) / CDFS_SECTOR_SIZE` in `uint32_t`. -/
def sectorCount (size : Nat) : Nat := u32 (size + 2047) / sectorSize

/-- The loop of `CdfsFindFile` over the components of the normalized path. -/
def findLoop (m : Medium) (alloc : Allocator) :
    Nat → List UInt8 → Nat → Nat → Host → Outcome (Nat × Nat)
  | 0, _, _, _, host => ⟨none, [], host⟩
  | rounds + 1, cursor, dirLba, dirSize, host =>
    match rtlNextPathComponent cursor 256 with
    | .next component cursor =>
      let sectors := sectorCount dirSize
      match host.kmalloc alloc (sectors * sectorSize) with
      | (none, host) => ⟨some none, [], host⟩
      | (some buf, host) =>
        let filled := fillDirectory m dirLba sectors 0 buf host.volume
        let host := { host with volume := filled.2.2 }
        let scan := scanRecords filled.2.1 (scanLimit sectors) component (scanLimit sectors + 1) 0
        let touched := scan.2.map fun off => ⟨sectors, filled.1, off⟩
        match scan.1 with
        | none => ⟨none, touched, host⟩
        | some none => ⟨some none, touched, host⟩
        | some (some found) =>
          if cursor = [] then ⟨some (some (found.lba, found.size)), touched, host⟩
          else if found.isDirectory then
            let rest := findLoop m alloc rounds cursor found.lba found.size host
            ⟨rest.result, touched ++ rest.touched, rest.host⟩
          else ⟨some none, touched, host⟩
    | _ => ⟨some none, [], host⟩

/-- `CdfsFindFile`. The local `sector` starts as whatever is on the stack. -/
def cdfsFindFile (m : Medium) (alloc : Allocator) (stack : Mem) (path : List UInt8) (host : Host) :
    Outcome (Nat × Nat) :=
  if !host.volume.cdromReady then ⟨some none, [], host⟩
  else
    let r := cdfsReadSector m 16 0 stack host.volume
    let host := { host with volume := r.2.2 }
    if !r.1 then ⟨some none, [], host⟩
    else
      match rtlNormalizePath path 256 with
      | none => ⟨none, [], host⟩
      | some none => ⟨some none, [], host⟩
      | some (some normalized) =>
        findLoop m alloc (normalized.length + 1) normalized (readLE r.2.1 (156 + 2) 4)
          (readLE r.2.1 (156 + 10) 4) host

/-- The loop of `CdfsReadFile` over batches of at most 255 sectors: `some none` when a read fails. -/
def readLoop (m : Medium) (lba sectors : Nat) : Nat → Nat → Mem → Option (Option Mem)
  | rounds, done, buffer =>
    if sectors ≤ done then some (some buffer)
    else
      match rounds with
      | 0 => none
      | rounds + 1 =>
        let batch := min (sectors - done) 255
        let r := m.readSectors (u32 (lba + done)) batch (done * sectorSize) buffer
        if !r.1 then some none else readLoop m lba sectors rounds (done + batch) r.2

/-- `*out_buffer` with the size it was allocated with, and `*out_size`. -/
structure FileBuffer where
  buffer : Mem
  capacity : Nat
  size : Nat

def FileBuffer.bytes (r : FileBuffer) : List UInt8 := (List.range r.size).map r.buffer

theorem FileBuffer.bytes_eq {r : FileBuffer} {l : List UInt8} (hsize : r.size = l.length)
    (hbytes : ∀ i ch, l[i]? = some ch → r.buffer i = ch) : r.bytes = l := by
  apply ext_getElem?
  intro i
  rw [FileBuffer.bytes, getElem?_map]
  by_cases hi : i < l.length
  · rw [getElem?_range (by omega), getElem?_eq_getElem hi]
    exact congrArg some (hbytes i _ (getElem?_eq_getElem hi))
  · rw [getElem?_eq_none (by simpa [hsize] using hi), getElem?_eq_none (by omega)]
    rfl

def allocSize (size : Nat) : Nat :=
  if sectorCount size * sectorSize = 0 then 1 else sectorCount size * sectorSize

/-- `CdfsReadFile` where no FAT32 volume is mounted. -/
def cdfsReadFile (m : Medium) (alloc : Allocator) (stack : Mem) (path : List UInt8) (host : Host) :
    Outcome FileBuffer :=
  let find := cdfsFindFile m alloc stack path host
  match find.result with
  | none => ⟨none, find.touched, find.host⟩
  | some none => ⟨some none, find.touched, find.host⟩
  | some (some (lba, size)) =>
    match find.host.kmalloc alloc (allocSize size) with
    | (none, host) => ⟨some none, find.touched, host⟩
    | (some buffer, host) =>
      let read := readLoop m lba (sectorCount size) (sectorCount size) 0 buffer
      ⟨read.map fun r => r.map fun buffer => ⟨buffer, allocSize size, size⟩, find.touched, host⟩

end DiscouNT.Cdfs
