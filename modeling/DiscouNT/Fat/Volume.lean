import DiscouNT.Cdfs.Lookup

/-!
# Fat.Volume

The FAT32 reader, `drivers/fat32/fat32.c`.

* A `Disk` answers sector reads. The shared sector buffer is not kept: every use of it follows a
  read, and a read that fails ends the lookup or the chain.
* `bytes_per_sector` is 512 in every volume that `Fat32Initialize` mounts.
* A chain of clusters may run in a circle, and then the loop over it does not end. Such a loop is run
  with a number of rounds, and `none` says that they were not enough.
-/

namespace DiscouNT.Fat

open Lib Rtl Cdfs

def bytesPerSector : Nat := 512

structure Disk where
  byte : Nat → UInt8
  readable : (lba : Nat) → Bool

def Disk.sector (m : Disk) (lba : Nat) : Mem := fun k => m.byte (lba * bytesPerSector + k)

def Disk.readSector (m : Disk) (lba : Nat) : Option Mem :=
  if m.readable lba then some (m.sector lba) else none

structure FatVolume where
  fatLba : Nat
  dataLba : Nat
  rootCluster : Nat
  sectorsPerCluster : Nat

def isCluster (cluster : Nat) : Bool := decide (2 ≤ cluster) && decide (cluster < 0x0FFFFFF8)

def nextCluster (m : Disk) (v : FatVolume) (cluster : Nat) : Nat :=
  match m.readSector (u32 (v.fatLba + u32 (cluster * 4) / bytesPerSector)) with
  | none => 0x0FFFFFFF
  | some sector => readLE sector (u32 (cluster * 4) % bytesPerSector) 4 % 2 ^ 28

def clusterLba (v : FatVolume) (cluster : Nat) : Nat :=
  u32 (v.dataLba + (cluster - 2) * v.sectorsPerCluster)

/-- A field of a short name, filled up with blanks. -/
def padded (n : Nat) (name : List UInt8) : List UInt8 :=
  (name.take n) ++ List.replicate (n - name.length) 32

def shortName (component : List UInt8) : List UInt8 :=
  padded 8 ((component.takeWhile (· ≠ dot)).map upper) ++
    padded 3 (((component.dropWhile (· ≠ dot)).drop 1).map upper)

structure DirEntry where
  name : List UInt8
  attributes : UInt8
  cluster : Nat
  size : Nat
deriving DecidableEq, Repr

def DirEntry.isDirectory (e : DirEntry) : Bool := decide (e.attributes &&& 0x10 ≠ 0)

def nameAt (b : Mem) (off : Nat) : List UInt8 := (List.range 11).map fun i => b (off + i)

def entryAt (b : Mem) (off : Nat) : DirEntry where
  name := nameAt b off
  attributes := b (off + 11)
  cluster := readLE b (off + 20) 2 * 65536 + readLE b (off + 26) 2
  size := readLE b (off + 28) 4

def skipped (b : Mem) (off : Nat) : Bool :=
  decide (b off = 0xE5) || decide (b (off + 11) = 0x0F) || decide (b (off + 11) &&& 8 ≠ 0)

/-- How the search of a part of a directory goes on: not at all, with a result, or in the next
part. -/
inductive Scan where
  | ended
  | found (e : DirEntry)
  | more
deriving DecidableEq

def scanSector (b : Mem) (wanted : List UInt8) : Nat → Nat → Scan
  | 0, _ => .more
  | n + 1, off =>
    if b off = 0 then .ended
    else if skipped b off then scanSector b wanted n (off + 32)
    else if nameAt b off = wanted then .found (entryAt b off)
    else scanSector b wanted n (off + 32)

def scanCluster (m : Disk) (first : Nat) (wanted : List UInt8) : Nat → Nat → Scan
  | 0, _ => .more
  | n + 1, s =>
    match m.readSector (u32 (first + s)) with
    | none => .ended
    | some sector =>
      match scanSector sector wanted 16 0 with
      | .more => scanCluster m first wanted n (s + 1)
      | scan => scan

def findEntry (m : Disk) (v : FatVolume) (wanted : List UInt8) : Nat → Nat → Option (Option DirEntry)
  | rounds, cluster =>
    if !isCluster cluster then some none
    else
      match rounds with
      | 0 => none
      | rounds + 1 =>
        match scanCluster m (clusterLba v cluster) wanted v.sectorsPerCluster 0 with
        | .ended => some none
        | .found e => some (some e)
        | .more => findEntry m v wanted rounds (nextCluster m v cluster)

/-- The loop of `Fat32ReadFile` over the components of the path. -/
def walkPath (m : Disk) (v : FatVolume) (rounds : Nat) :
    Nat → List UInt8 → Nat → Option (Option DirEntry)
  | 0, _, _ => none
  | steps + 1, cursor, directory =>
    let component := cursor.takeWhile (!rtlIsPathSeparator ·)
    let next := (cursor.dropWhile (!rtlIsPathSeparator ·)).dropWhile rtlIsPathSeparator
    match findEntry m v (shortName component) rounds directory with
    | none => none
    | some none => some none
    | some (some entry) =>
      if next = [] then some (some entry)
      else if entry.isDirectory then walkPath m v rounds steps next entry.cluster
      else some none

/-- The loop over `n` sectors of a cluster of a file: `none` when one cannot be read. -/
def copyCluster (m : Disk) (first size : Nat) : Nat → Nat → Nat → Mem → Option (Nat × Mem)
  | 0, _, copied, buffer => some (copied, buffer)
  | n + 1, s, copied, buffer =>
    if size ≤ copied then some (copied, buffer)
    else
      match m.readSector (u32 (first + s)) with
      | none => none
      | some sector =>
        let amount := min (size - copied) bytesPerSector
        copyCluster m first size n (s + 1) (copied + amount) (blit buffer copied sector 0 amount)

def copyChain (m : Disk) (v : FatVolume) (size : Nat) :
    Nat → Nat → Nat → Mem → Option (Option (Nat × Mem))
  | rounds, cluster, copied, buffer =>
    if !isCluster cluster || decide (size ≤ copied) then some (some (copied, buffer))
    else
      match rounds with
      | 0 => none
      | rounds + 1 =>
        match copyCluster m (clusterLba v cluster) size v.sectorsPerCluster 0 copied buffer with
        | none => some none
        | some (copied, buffer) =>
          copyChain m v size rounds (nextCluster m v cluster) copied buffer

def readEntry (m : Disk) (v : FatVolume) (alloc : Allocator) (rounds tick : Nat) (entry : DirEntry) :
    Option (Option FileBuffer) :=
  if entry.isDirectory then some none
  else
    let capacity := if entry.size = 0 then 1 else entry.size
    match alloc tick capacity with
    | none => some none
    | some buffer =>
      (copyChain m v entry.size rounds entry.cluster 0 buffer).map fun copy =>
        match copy with
        | none => none
        | some (copied, buffer) =>
          if copied ≠ entry.size then none else some ⟨buffer, capacity, entry.size⟩

def fat32ReadFile (m : Disk) (v : FatVolume) (alloc : Allocator) (rounds : Nat) (path : List UInt8)
    (tick : Nat) : Option (Option FileBuffer) :=
  match alloc tick bytesPerSector with
  | none => some none
  | some _ =>
    match walkPath m v rounds (path.length + 1) (path.dropWhile rtlIsPathSeparator)
        v.rootCluster with
    | none => none
    | some none => some none
    | some (some entry) => readEntry m v alloc rounds (tick + 1) entry

end DiscouNT.Fat
