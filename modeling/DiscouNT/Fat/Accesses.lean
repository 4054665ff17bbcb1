import DiscouNT.Fat.Ends
import DiscouNT.Lib.Logged

/-!
# Fat.Accesses

The buffers that `Fat32ReadFile` touches. The functions below are those of `DiscouNT.Fat.Volume` with a
log of the bytes they read in the sector buffer and write to the buffer of the file.
-/

namespace DiscouNT.Fat

open Lib Rtl Cdfs Logged

inductive BufferAccess where
  | sector (off len : Nat)
  | file (size off len : Nat)
deriving DecidableEq, Repr

def BufferAccess.Inside : BufferAccess → Prop
  | .sector off len => off + len ≤ bytesPerSector
  | .file size off len => off + len ≤ size

def nextClusterL (m : Disk) (v : FatVolume) (cluster : Nat) : Logged BufferAccess Nat :=
  let offset := u32 (cluster * 4) % bytesPerSector
  match m.readSector (u32 (v.fatLba + u32 (cluster * 4) / bytesPerSector)) with
  | none => pure 0x0FFFFFFF
  | some sector => .note (.sector offset 4) (readLE sector offset 4 % 2 ^ 28)

def scanSectorL (b : Mem) (wanted : List UInt8) : Nat → Nat → Logged BufferAccess Scan
  | 0, _ => pure .more
  | n + 1, off => do
    let first ← .note (.sector off 1) (b off)
    if first = 0 then pure .ended
    else
      let skip ← .note (.sector (off + 11) 1) (skipped b off)
      if skip then scanSectorL b wanted n (off + 32)
      else
        let name ← .note (.sector off 11) (nameAt b off)
        if name = wanted then .note (.sector off 32) (.found (entryAt b off))
        else scanSectorL b wanted n (off + 32)

def scanClusterL (m : Disk) (first : Nat) (wanted : List UInt8) :
    Nat → Nat → Logged BufferAccess Scan
  | 0, _ => pure .more
  | n + 1, s =>
    match m.readSector (u32 (first + s)) with
    | none => pure .ended
    | some sector => do
      match ← scanSectorL sector wanted 16 0 with
      | .more => scanClusterL m first wanted n (s + 1)
      | scan => pure scan

def findEntryL (m : Disk) (v : FatVolume) (wanted : List UInt8) :
    Nat → Nat → Logged BufferAccess (Option (Option DirEntry))
  | rounds, cluster =>
    if !isCluster cluster then pure (some none)
    else
      match rounds with
      | 0 => pure none
      | rounds + 1 => do
        match ← scanClusterL m (clusterLba v cluster) wanted v.sectorsPerCluster 0 with
        | .ended => pure (some none)
        | .found e => pure (some (some e))
        | .more => do
          let next ← nextClusterL m v cluster
          findEntryL m v wanted rounds next

def walkPathL (m : Disk) (v : FatVolume) (rounds : Nat) :
    Nat → List UInt8 → Nat → Logged BufferAccess (Option (Option DirEntry))
  | 0, _, _ => pure none
  | steps + 1, cursor, directory => do
    match ← findEntryL m v (shortName (component cursor)) rounds directory with
    | none => pure none
    | some none => pure (some none)
    | some (some entry) =>
      if restOf cursor = [] then pure (some (some entry))
      else if entry.isDirectory then walkPathL m v rounds steps (restOf cursor) entry.cluster
      else pure (some none)

def copyClusterL (m : Disk) (first size : Nat) :
    Nat → Nat → Nat → Mem → Logged BufferAccess (Option (Nat × Mem))
  | 0, _, copied, buffer => pure (some (copied, buffer))
  | n + 1, s, copied, buffer =>
    if size ≤ copied then pure (some (copied, buffer))
    else
      match m.readSector (u32 (first + s)) with
      | none => pure none
      | some sector => do
        let amount := min (size - copied) bytesPerSector
        let amount ← .note (.sector 0 amount) amount
        let buffer ← .note (.file size copied amount) (blit buffer copied sector 0 amount)
        copyClusterL m first size n (s + 1) (copied + amount) buffer

def copyChainL (m : Disk) (v : FatVolume) (size : Nat) :
    Nat → Nat → Nat → Mem → Logged BufferAccess (Option (Option (Nat × Mem)))
  | rounds, cluster, copied, buffer =>
    if !isCluster cluster || decide (size ≤ copied) then pure (some (some (copied, buffer)))
    else
      match rounds with
      | 0 => pure none
      | rounds + 1 => do
        match ← copyClusterL m (clusterLba v cluster) size v.sectorsPerCluster 0 copied buffer with
        | none => pure (some none)
        | some (copied, buffer) => do
          let next ← nextClusterL m v cluster
          copyChainL m v size rounds next copied buffer

def readEntryL (m : Disk) (v : FatVolume) (alloc : Allocator) (rounds tick : Nat)
    (entry : DirEntry) : Logged BufferAccess (Option (Option FileBuffer)) :=
  if entry.isDirectory then pure (some none)
  else
    let capacity := if entry.size = 0 then 1 else entry.size
    match alloc tick capacity with
    | none => pure (some none)
    | some buffer => do
      let copy ← copyChainL m v entry.size rounds entry.cluster 0 buffer
      pure (copy.map fun copy =>
        match copy with
        | none => none
        | some (copied, buffer) =>
          if copied ≠ entry.size then none else some ⟨buffer, capacity, entry.size⟩)

def fat32ReadFileL (m : Disk) (v : FatVolume) (alloc : Allocator) (rounds : Nat)
    (path : List UInt8) (tick : Nat) : Logged BufferAccess (Option (Option FileBuffer)) :=
  match alloc tick bytesPerSector with
  | none => pure (some none)
  | some _ => do
    match ← walkPathL m v rounds (path.length + 1) (path.dropWhile rtlIsPathSeparator)
        v.rootCluster with
    | none => pure none
    | some none => pure (some none)
    | some (some entry) => readEntryL m v alloc rounds (tick + 1) entry

section Values

variable {m : Disk} {v : FatVolume}

@[simp] theorem nextClusterL_val (cluster : Nat) :
    (nextClusterL m v cluster).val = nextCluster m v cluster := by
  simp only [nextClusterL, nextCluster]
  cases m.readSector (u32 (v.fatLba + u32 (cluster * 4) / bytesPerSector)) <;> rfl

@[simp] theorem scanSectorL_val {b : Mem} {wanted : List UInt8} : ∀ {n off : Nat},
    (scanSectorL b wanted n off).val = scanSector b wanted n off := by
  intro n
  induction n with
  | zero => intro off; rfl
  | succ n ih =>
    intro off
    rw [scanSectorL, scanSector, val_bind, val_note]
    by_cases hzero : b off = 0
    · rw [if_pos hzero, if_pos hzero, val_pure]
    rw [if_neg hzero, if_neg hzero, val_bind, val_note]
    by_cases hskip : skipped b off = true
    · rw [if_pos hskip, if_pos hskip, ih]
    rw [if_neg hskip, if_neg hskip, val_bind, val_note]
    by_cases hname : nameAt b off = wanted
    · rw [if_pos hname, if_pos hname, val_note]
    · rw [if_neg hname, if_neg hname, ih]

@[simp] theorem scanClusterL_val {first : Nat} {wanted : List UInt8} : ∀ {n s : Nat},
    (scanClusterL m first wanted n s).val = scanCluster m first wanted n s := by
  intro n
  induction n with
  | zero => intro s; rfl
  | succ n ih =>
    intro s
    rw [scanClusterL, scanCluster]
    cases m.readSector (u32 (first + s)) with
    | none => rfl
    | some sector =>
      simp only [val_bind, scanSectorL_val]
      cases scanSector sector wanted 16 0 with
      | more => exact ih
      | ended => rfl
      | found e => rfl

@[simp] theorem findEntryL_val {wanted : List UInt8} : ∀ {rounds cluster : Nat},
    (findEntryL m v wanted rounds cluster).val = findEntry m v wanted rounds cluster := by
  intro rounds
  induction rounds with
  | zero =>
    intro cluster
    unfold findEntryL findEntry
    cases isCluster cluster <;> rfl
  | succ rounds ih =>
    intro cluster
    rw [findEntryL, findEntry]
    cases isCluster cluster with
    | false => rfl
    | true =>
      simp only [Bool.not_true, Bool.false_eq_true, if_false, val_bind, scanClusterL_val]
      cases scanCluster m (clusterLba v cluster) wanted v.sectorsPerCluster 0 with
      | more => rw [val_bind, nextClusterL_val, ih]
      | ended => rfl
      | found e => rfl

@[simp] theorem walkPathL_val {rounds : Nat} : ∀ {steps : Nat} {cursor : List UInt8}
    {directory : Nat}, (walkPathL m v rounds steps cursor directory).val =
      walkPath m v rounds steps cursor directory := by
  intro steps
  induction steps with
  | zero => intro cursor directory; rfl
  | succ steps ih =>
    intro cursor directory
    rw [walkPathL, walkPath_succ, val_bind, findEntryL_val]
    cases findEntry m v (shortName (component cursor)) rounds directory with
    | none => rfl
    | some found =>
      cases found with
      | none => rfl
      | some entry => simp only [val_ite, val_pure, ih]

@[simp] theorem copyClusterL_val {first size : Nat} : ∀ {n s copied : Nat} {buffer : Mem},
    (copyClusterL m first size n s copied buffer).val = copyCluster m first size n s copied buffer := by
  intro n
  induction n with
  | zero => intro s copied buffer; rfl
  | succ n ih =>
    intro s copied buffer
    rw [copyClusterL, copyCluster]
    by_cases hfull : size ≤ copied
    · rw [if_pos hfull, if_pos hfull, val_pure]
    · rw [if_neg hfull, if_neg hfull]
      cases m.readSector (u32 (first + s)) with
      | none => rfl
      | some sector => simp only [val_bind, val_note, ih]

@[simp] theorem copyChainL_val {size : Nat} : ∀ {rounds cluster copied : Nat} {buffer : Mem},
    (copyChainL m v size rounds cluster copied buffer).val =
      copyChain m v size rounds cluster copied buffer := by
  intro rounds
  induction rounds with
  | zero =>
    intro cluster copied buffer
    unfold copyChainL copyChain
    cases !isCluster cluster || decide (size ≤ copied) <;> rfl
  | succ rounds ih =>
    intro cluster copied buffer
    rw [copyChainL, copyChain]
    cases !isCluster cluster || decide (size ≤ copied) with
    | true => rfl
    | false =>
      simp only [Bool.false_eq_true, if_false, val_bind, copyClusterL_val]
      cases copyCluster m (clusterLba v cluster) size v.sectorsPerCluster 0 copied buffer with
      | none => rfl
      | some r => rw [val_bind, nextClusterL_val, ih]

@[simp] theorem readEntryL_val {alloc : Allocator} {rounds tick : Nat} {entry : DirEntry} :
    (readEntryL m v alloc rounds tick entry).val = readEntry m v alloc rounds tick entry := by
  rw [readEntryL, readEntry]
  by_cases hdirectory : entry.isDirectory = true
  · rw [if_pos hdirectory, if_pos hdirectory, val_pure]
  · rw [if_neg hdirectory, if_neg hdirectory]
    simp only
    cases alloc tick (if entry.size = 0 then 1 else entry.size) with
    | none => rfl
    | some buffer =>
      simp only [val_bind, val_pure, copyChainL_val]
      all_goals
        rcases copyChain m v entry.size rounds entry.cluster 0 buffer with _ | _ | copy <;> rfl

theorem fat32ReadFileL_val {alloc : Allocator} {rounds : Nat} {path : List UInt8} {tick : Nat} :
    (fat32ReadFileL m v alloc rounds path tick).val = fat32ReadFile m v alloc rounds path tick := by
  rw [fat32ReadFileL, fat32ReadFile]
  cases alloc tick bytesPerSector with
  | none => rfl
  | some _ =>
    simp only [val_bind, walkPathL_val]
    cases walkPath m v rounds (path.length + 1) (path.dropWhile rtlIsPathSeparator)
        v.rootCluster with
    | none => rfl
    | some found =>
      cases found with
      | none => rfl
      | some entry => exact readEntryL_val

end Values

section Inside

variable {m : Disk} {v : FatVolume}

theorem nextClusterL_inside (cluster : Nat) : (nextClusterL m v cluster).All BufferAccess.Inside := by
  simp only [nextClusterL]
  cases m.readSector (u32 (v.fatLba + u32 (cluster * 4) / bytesPerSector)) with
  | none => exact all_pure _
  | some sector =>
    have hbytes : bytesPerSector = 512 := rfl
    have haligned : u32 (cluster * 4) % 4 = 0 := by
      rw [u32]
      omega
    refine (all_note _ _).mpr ?_
    change u32 (cluster * 4) % bytesPerSector + 4 ≤ bytesPerSector
    rw [hbytes]
    omega

theorem scanSectorL_inside {b : Mem} {wanted : List UInt8} : ∀ {n off : Nat},
    off + 32 * n ≤ bytesPerSector → (scanSectorL b wanted n off).All BufferAccess.Inside := by
  intro n
  induction n with
  | zero => exact fun _ => all_pure _
  | succ n ih =>
    intro off hle
    have hrest := @ih (off + 32) (by omega)
    have hinside : ∀ k len, k + len ≤ 32 → BufferAccess.Inside (.sector (off + k) len) := by
      intro k len hk
      change off + k + len ≤ bytesPerSector
      omega
    rw [scanSectorL, Logged.all_bind, all_note, val_note, all_ite]
    refine ⟨hinside 0 1 (by decide), fun _ => all_pure _, fun _ => ?_⟩
    rw [Logged.all_bind, all_note, val_note, all_ite]
    refine ⟨hinside 11 1 (by decide), fun _ => hrest, fun _ => ?_⟩
    rw [Logged.all_bind, all_note, val_note, all_ite, all_note]
    exact ⟨hinside 0 11 (by decide), fun _ => hinside 0 32 (by decide), fun _ => hrest⟩

theorem scanClusterL_inside {first : Nat} {wanted : List UInt8} : ∀ {n s : Nat},
    (scanClusterL m first wanted n s).All BufferAccess.Inside := by
  intro n
  induction n with
  | zero => exact all_pure _
  | succ n ih =>
    intro s
    rw [scanClusterL]
    cases m.readSector (u32 (first + s)) with
    | none => exact all_pure _
    | some sector =>
      refine (Logged.all_bind _ _).mpr ⟨scanSectorL_inside (by decide), ?_⟩
      rw [scanSectorL_val]
      cases scanSector sector wanted 16 0 with
      | more => exact ih
      | ended => exact all_pure _
      | found e => exact all_pure _

theorem findEntryL_inside {wanted : List UInt8} : ∀ {rounds cluster : Nat},
    (findEntryL m v wanted rounds cluster).All BufferAccess.Inside := by
  intro rounds
  induction rounds with
  | zero =>
    intro cluster
    unfold findEntryL
    cases isCluster cluster <;> exact all_pure _
  | succ rounds ih =>
    intro cluster
    rw [findEntryL]
    cases isCluster cluster with
    | false => exact all_pure _
    | true =>
      refine (Logged.all_bind _ _).mpr ⟨scanClusterL_inside, ?_⟩
      rw [scanClusterL_val]
      cases scanCluster m (clusterLba v cluster) wanted v.sectorsPerCluster 0 with
      | more => exact (Logged.all_bind _ _).mpr ⟨nextClusterL_inside cluster, ih⟩
      | ended => exact all_pure _
      | found e => exact all_pure _

theorem walkPathL_inside {rounds : Nat} : ∀ {steps : Nat} {cursor : List UInt8}
    {directory : Nat}, (walkPathL m v rounds steps cursor directory).All BufferAccess.Inside := by
  intro steps
  induction steps with
  | zero => exact all_pure _
  | succ steps ih =>
    intro cursor directory
    rw [walkPathL, Logged.all_bind, findEntryL_val]
    refine ⟨findEntryL_inside, ?_⟩
    cases findEntry m v (shortName (component cursor)) rounds directory with
    | none => exact all_pure _
    | some found =>
      cases found with
      | none => exact all_pure _
      | some entry =>
        refine (all_ite _ _).mpr ⟨fun _ => all_pure _, fun _ => ?_⟩
        exact (all_ite _ _).mpr ⟨fun _ => ih, fun _ => all_pure _⟩

theorem copyClusterL_inside {first size : Nat} : ∀ {n s copied : Nat} {buffer : Mem},
    (copyClusterL m first size n s copied buffer).All BufferAccess.Inside := by
  intro n
  induction n with
  | zero => exact all_pure _
  | succ n ih =>
    intro s copied buffer
    rw [copyClusterL, all_ite]
    refine ⟨fun _ => all_pure _, fun hmore => ?_⟩
    cases m.readSector (u32 (first + s)) with
    | none => exact all_pure _
    | some sector =>
      simp only [Logged.all_bind, all_note, val_note]
      refine ⟨?_, ?_, ih⟩
      · change 0 + min (size - copied) bytesPerSector ≤ bytesPerSector
        omega
      · change copied + min (size - copied) bytesPerSector ≤ size
        omega

theorem copyChainL_inside {size : Nat} : ∀ {rounds cluster copied : Nat} {buffer : Mem},
    (copyChainL m v size rounds cluster copied buffer).All BufferAccess.Inside := by
  intro rounds
  induction rounds with
  | zero =>
    intro cluster copied buffer
    unfold copyChainL
    cases !isCluster cluster || decide (size ≤ copied) <;> exact all_pure _
  | succ rounds ih =>
    intro cluster copied buffer
    rw [copyChainL]
    cases !isCluster cluster || decide (size ≤ copied) with
    | true => exact all_pure _
    | false =>
      refine (Logged.all_bind _ _).mpr ⟨copyClusterL_inside, ?_⟩
      rw [copyClusterL_val]
      cases copyCluster m (clusterLba v cluster) size v.sectorsPerCluster 0 copied buffer with
      | none => exact all_pure _
      | some r => exact (Logged.all_bind _ _).mpr ⟨nextClusterL_inside cluster, ih⟩

theorem fat32ReadFileL_inside {alloc : Allocator} {rounds : Nat} {path : List UInt8} {tick : Nat} :
    (fat32ReadFileL m v alloc rounds path tick).All BufferAccess.Inside := by
  rw [fat32ReadFileL]
  cases alloc tick bytesPerSector with
  | none => exact all_pure _
  | some _ =>
    refine (Logged.all_bind _ _).mpr ⟨walkPathL_inside, ?_⟩
    rw [walkPathL_val]
    cases walkPath m v rounds (path.length + 1) (path.dropWhile rtlIsPathSeparator)
        v.rootCluster with
    | none => exact all_pure _
    | some found =>
      cases found with
      | none => exact all_pure _
      | some entry =>
        simp only [readEntryL]
        refine (all_ite _ _).mpr ⟨fun _ => all_pure _, fun _ => ?_⟩
        split
        · exact all_pure _
        · exact (Logged.all_bind _ _).mpr ⟨copyChainL_inside, all_pure _⟩

end Inside

/-! ## The law -/

def Sound (m : Disk) (v : FatVolume) (alloc : Allocator) (path : List UInt8) (tick : Nat) : Prop :=
  (∃ rounds, fat32ReadFile m v alloc rounds path tick ≠ none) ∧
    ∀ rounds, (fat32ReadFileL m v alloc rounds path tick).All BufferAccess.Inside

/-- On every disk that is mounted the reader is sound exactly if the walk along the path comes to no
directory whose search comes to a cluster twice. -/
theorem fat32_read_sound_iff (m : Disk) (alloc : Allocator) (path : List UInt8) (tick : Nat) :
    (∀ v, fat32Initialize m = some v → Sound m v alloc path tick) ↔
      ∀ v, fat32Initialize m = some v → alloc tick bytesPerSector ≠ none →
        ¬ Stuck m v (path.dropWhile rtlIsPathSeparator) v.rootCluster := by
  refine forall₂_congr fun v hmount => ?_
  rw [Sound, fat32ReadFile_ends_iff (fat32Initialize_sectors hmount).1]
  exact and_iff_left fun rounds => fat32ReadFileL_inside

def circularDisk : Disk where
  byte := fun p =>
    if 1024 ≤ p then 0x41
    else ofSegments [(11, [0, 2, 1, 1, 0, 1]), (36, [1, 0, 0, 0]), (44, [2, 0, 0, 0]),
      (512 + 8, [2, 0, 0, 0])] p
  readable := fun _ => true

/-- The lookup of `/b` on it does not end. -/
theorem fat32_read_circles :
    fat32Initialize circularDisk = some ⟨1, 2, 2, 1⟩ ∧
      ¬ Sound circularDisk ⟨1, 2, 2, 1⟩ plenty [47, 98] 0 := by
  refine ⟨by decide +kernel, fun hsound => ?_⟩
  have hstuck : Stuck circularDisk ⟨1, 2, 2, 1⟩ ([47, 98].dropWhile rtlIsPathSeparator) 2 := by
    refine .circle ⟨0, 1, 2, Nat.zero_lt_one, rfl, ?_⟩
    decide +kernel
  have hfree := (fat32ReadFile_ends_iff Nat.zero_lt_one).mp hsound.1 (by simp [plenty])
  exact hfree hstuck

/-! ## Whole files -/

section WholeFiles

variable {D F : Type} {image : FatImage D F} {m : Disk} {tree : Catalog ShortName D F}
  {content : F → List UInt8} {rounds : Nat}

theorem shortName_not_mem_dotNames (component : List UInt8) : shortName component ∉ dotNames := by
  have hhead : (shortName component).head? ≠ some dot := by
    rw [shortName, padded]
    cases hbase : component.takeWhile (· ≠ dot) with
    | nil => simp [List.replicate_succ, dot]
    | cons ch base =>
      have hch : ch ∈ component.takeWhile (· ≠ dot) := by rw [hbase]; exact List.mem_cons_self
      have hne : ch ≠ dot := by simpa using List.mem_takeWhile_imp hch
      simpa [upper_eq_dot] using hne
  intro h
  simp only [dotNames, List.mem_cons, List.not_mem_nil, or_false] at h
  rcases h with h | h <;> exact hhead (by rw [h]; rfl)

def FromTree (image : FatImage D F) (tree : Catalog ShortName D F) (content : F → List UInt8)
    (r : Option (Option DirEntry)) : Prop :=
  r = some none ∨
    ∃ e d n x, r = some (some e) ∧ (n, x) ∈ tree.entries d ∧ EntryFor image content e x

variable (hstored : image.Stored m tree content) (hrounds : ∀ x, (image.chain x).length ≤ rounds)
include hstored hrounds

theorem FatImage.Stored.findEntry_any (d : D) (component : List UInt8) : FromTree image tree content
    (findEntry m image.volume (shortName component) rounds (image.cluster (.directory d))) := by
  rw [hstored.findEntry_eq hrounds]
  cases hscan : scanSlots (shortName component)
      (Fat.slots m (chainSectors image.volume (image.chain (.directory d)))) with
  | ended => exact .inl rfl
  | more => exact .inl rfl
  | found e =>
    obtain ⟨slot, hslot, hname, rfl⟩ := scanSlots_found hscan
    rcases hstored.slots d slot hslot with hdot | ⟨n, x, hentry, -, hfor⟩
    · rw [hname] at hdot
      exact absurd hdot (shortName_not_mem_dotNames component)
    · exact .inr ⟨_, d, n, x, rfl, hentry, hfor⟩

theorem FatImage.Stored.walkPath_any : ∀ {steps : Nat} {cursor : List UInt8} {d : D},
    cursor.length < steps → FromTree image tree content
      (walkPath m image.volume rounds steps cursor (image.cluster (.directory d))) := by
  intro steps
  induction steps with
  | zero => intro cursor d h; omega
  | succ steps ih =>
    intro cursor d hlt
    rw [walkPath_succ]
    rcases hstored.findEntry_any hrounds d (component cursor) with
      hnone | ⟨e, d', n, x, hfind, hentry, hfor⟩
    · rw [hnone]
      exact .inl rfl
    rw [hfind]
    simp only
    by_cases hrest : restOf cursor = []
    · rw [if_pos hrest]
      exact .inr ⟨e, d', n, x, rfl, hentry, hfor⟩
    rw [if_neg hrest]
    by_cases hdirectory : e.isDirectory = true
    · obtain ⟨d', rfl⟩ := hfor.kind.mp hdirectory
      have hlen := length_restOf hrest
      rw [if_pos hdirectory, hfor.cluster]
      exact ih (by omega)
    · rw [if_neg hdirectory]
      exact .inl rfl

end WholeFiles

/-- On a well-formed volume every path, with whatever memory there is, is read safely, and what is
read is all of a file of the tree. -/
theorem fat32_reads_whole_files {D F : Type} {image : FatImage D F} {m : Disk}
    {tree : Catalog ShortName D F} {content : F → List UInt8} {rounds : Nat}
    (hstored : image.Stored m tree content) (hrounds : maxClusters ≤ rounds) (alloc : Allocator)
    (path : List UInt8) (tick : Nat) :
    (fat32ReadFileL m image.volume alloc rounds path tick).All BufferAccess.Inside ∧
      ((fat32ReadFileL m image.volume alloc rounds path tick).val = some none ∨
        ∃ d n f r, (n, .file f) ∈ tree.entries d ∧ r.bytes = content f ∧
          (fat32ReadFileL m image.volume alloc rounds path tick).val = some (some r)) := by
  refine ⟨fat32ReadFileL_inside, ?_⟩
  have hchains : ∀ x, (image.chain x).length ≤ rounds :=
    fun x => Nat.le_trans (hstored.chained x).length_le hrounds
  have hlen : (path.dropWhile rtlIsPathSeparator).length < path.length + 1 :=
    Nat.lt_succ_of_le (List.length_dropWhile_le _ _)
  rw [fat32ReadFileL_val, fat32ReadFile]
  cases alloc tick bytesPerSector with
  | none => exact .inl rfl
  | some _ =>
    rw [hstored.root]
    rcases hstored.walkPath_any hchains (d := tree.root) hlen with
      hwalk | ⟨e, d, n, x, hwalk, hentry, hfor⟩
    · simp only [hwalk]
      exact .inl trivial
    simp only [hwalk]
    cases x with
    | directory d' =>
      rw [readEntry, if_pos (hfor.kind.mpr ⟨d', rfl⟩)]
      exact .inl rfl
    | file f =>
      by_cases hmemory : alloc (tick + 1) (if e.size = 0 then 1 else e.size) = none
      · have hdir : ¬ e.isDirectory = true := fun h => by
          obtain ⟨d, hd⟩ := hfor.kind.mp h
          cases hd
        rw [readEntry, if_neg hdir]
        simp only [hmemory]
        exact .inl trivial
      · obtain ⟨r, hr, hcontent⟩ := hstored.readEntry_file hchains hfor hmemory
        exact .inr ⟨d, n, f, r, hentry, hcontent, hr⟩

/-- A path with a dot component and a long name. -/
theorem fat32_reads_whole_files_any :
    (fat32ReadFileL bootDisk sampleImage.volume plenty maxClusters [46, 47, 97, 98, 99] 0).All
      BufferAccess.Inside :=
  (fat32_reads_whole_files bootDisk_stored (Nat.le_refl _) plenty [46, 47, 97, 98, 99] 0).1

end DiscouNT.Fat
