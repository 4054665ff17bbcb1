import DiscouNT.Cdfs.Backends
import Mathlib.Data.List.Perm.Subperm

/-!
# Fat.Mount

`Fat32Initialize`, and `Fat32ReadFile` on the volume that it mounts. A chain that ends passes through
no cluster twice, so `maxClusters` rounds are enough for every chain of a well-formed volume.
-/

namespace DiscouNT.Fat

open Lib Rtl Cdfs List

deriving instance DecidableEq for FatVolume

def partitionLba (sector : Mem) : Nat :=
  if sector 510 = 0x55 ∧ sector 511 = 0xAA ∧ (sector 0x1C2 = 0x0B ∨ sector 0x1C2 = 0x0C) then
    readLE sector 0x1C6 4
  else 0

def mountBpb (partition : Nat) (bpb : Mem) : Option FatVolume :=
  let sectorsPerCluster := (bpb 13).toNat
  let reserved := readLE bpb 14 2
  let fats := (bpb 16).toNat
  let fat32 := readLE bpb 36 4
  let rootCluster := readLE bpb 44 4
  if readLE bpb 11 2 ≠ bytesPerSector ∨ sectorsPerCluster = 0 ∨ reserved = 0 ∨ fat32 = 0 ∨
      rootCluster = 0 then none
  else
    let fatLba := u32 (partition + reserved)
    some ⟨fatLba, u32 (fatLba + u32 (fats * fat32)), rootCluster, sectorsPerCluster⟩

def fat32Initialize (m : Disk) : Option FatVolume :=
  (m.readSector 0).bind fun sector =>
    (m.readSector (partitionLba sector)).bind fun bpb => mountBpb (partitionLba sector) bpb

def fat32ReadMounted (m : Disk) (alloc : Allocator) (rounds : Nat) (path : List UInt8) (tick : Nat) :
    Option (Option FileBuffer) :=
  match fat32Initialize m with
  | none => some none
  | some v => fat32ReadFile m v alloc rounds path tick

theorem fat32Initialize_sectors {m : Disk} {v : FatVolume} (h : fat32Initialize m = some v) :
    0 < v.sectorsPerCluster ∧ v.sectorsPerCluster < 256 := by
  obtain ⟨sector, -, h⟩ := Option.bind_eq_some_iff.mp h
  obtain ⟨bpb, -, h⟩ := Option.bind_eq_some_iff.mp h
  rw [mountBpb] at h
  split_ifs at h with hbad
  have hbyte := (bpb 13).toNat_lt
  cases h
  simp only [not_or] at hbad
  exact ⟨Nat.pos_of_ne_zero hbad.2.1, hbyte⟩

section Chain

variable {m : Disk} {v : FatVolume}

variable {l : List Nat} {cluster : Nat}

theorem Chain.unique {l' : List Nat} (h : Chain m v cluster l)
    (h' : Chain m v cluster l') : l = l' := by
  induction h generalizing l' with
  | stop hstop =>
    cases h' with
    | stop _ => rfl
    | link hcluster _ => rw [hstop] at hcluster; cases hcluster
  | link hcluster _ ih =>
    cases h' with
    | stop hstop => rw [hstop] at hcluster; cases hcluster
    | link _ hrest => rw [ih hrest]

theorem Chain.of_mem (h : Chain m v cluster l) {x : Nat}
    (hx : x ∈ l) : ∃ l', Chain m v x l' ∧ l'.length ≤ l.length := by
  induction h with
  | stop _ => cases hx
  | @link cluster rest hcluster hrest ih =>
    rcases mem_cons.mp hx with rfl | hx
    · exact ⟨_, .link hcluster hrest, Nat.le_refl _⟩
    · obtain ⟨l', hl', hle⟩ := ih hx
      exact ⟨l', hl', Nat.le_succ_of_le hle⟩

theorem Chain.nodup (h : Chain m v cluster l) : l.Nodup := by
  induction h with
  | stop _ => exact nodup_nil
  | @link cluster rest hcluster hrest ih =>
    refine nodup_cons.mpr ⟨fun hmem => ?_, ih⟩
    obtain ⟨l', hl', hle⟩ := hrest.of_mem hmem
    rw [hl'.unique (.link hcluster hrest), length_cons] at hle
    omega

theorem Chain.isCluster (h : Chain m v cluster l) :
    ∀ x ∈ l, Fat.isCluster x = true := by
  induction h with
  | stop _ => exact fun x hx => by cases hx
  | link hcluster _ ih => exact forall_mem_cons.mpr ⟨hcluster, ih⟩

def maxClusters : Nat := 0x0FFFFFF8

theorem Chain.length_le (h : Chain m v cluster l) :
    l.length ≤ maxClusters := by
  have hsub : l ⊆ List.range maxClusters := by
    intro x hx
    have hcluster := h.isCluster x hx
    rw [Fat.isCluster, Bool.and_eq_true, decide_eq_true_iff, decide_eq_true_iff] at hcluster
    exact mem_range.mpr hcluster.2
  have hle := (subperm_of_subset h.nodup hsub).length_le
  rw [length_range] at hle
  exact hle

end Chain

def clusterBytes (m : Disk) (v : FatVolume) (clusters : List Nat) : List UInt8 :=
  (chainSectors v clusters).flatMap fun lba => (List.range bytesPerSector).map (m.sector lba)

theorem flatMap_sectors_getElem? (m : Disk) : ∀ (sectors : List Nat) (k t : Nat),
    t < bytesPerSector →
      (sectors.flatMap fun lba => (List.range bytesPerSector).map (m.sector lba))[
          k * bytesPerSector + t]? = (sectors[k]?).map fun lba => m.sector lba t := by
  intro sectors
  induction sectors with
  | nil => exact fun k t _ => rfl
  | cons lba sectors ih =>
    intro k t ht
    have hlength : ((List.range bytesPerSector).map (m.sector lba)).length = bytesPerSector := by
      rw [length_map, length_range]
    rw [flatMap_cons]
    cases k with
    | zero =>
      rw [Nat.zero_mul, Nat.zero_add, getElem?_append_left (by omega), getElem?_map,
        getElem?_range ht, getElem?_cons_zero, Option.map_some, Option.map_some]
    | succ k =>
      rw [getElem?_append_right (by rw [hlength, Nat.succ_mul]; omega), hlength,
        show (k + 1) * bytesPerSector + t - bytesPerSector = k * bytesPerSector + t by
          rw [Nat.succ_mul]; omega,
        ih k t ht, getElem?_cons_succ]

section Stored

variable {D F : Type} {image : FatImage D F} {m : Disk} {tree : Catalog ShortName D F}
  {content : F → List UInt8} (hstored : image.Stored m tree content)

include hstored

theorem FatImage.Stored.content_eq (f : F) :
    content f =
      (clusterBytes m image.volume (image.chain (.file f))).take (content f).length := by
  have hbytes : bytesPerSector = 512 := rfl
  apply ext_getElem?
  intro i
  rw [getElem?_take]
  by_cases hi : i < (content f).length
  · rw [if_pos hi]
    have hroom := hstored.room f
    have hsector : i / bytesPerSector < (chainSectors image.volume (image.chain (.file f))).length := by
      rw [hbytes] at hroom ⊢
      omega
    have hsplit : i / bytesPerSector * bytesPerSector + i % bytesPerSector = i :=
      Nat.div_add_mod' i bytesPerSector
    have hmod : i % bytesPerSector < bytesPerSector := Nat.mod_lt _ (by decide)
    have hat := flatMap_sectors_getElem? m (chainSectors image.volume (image.chain (.file f)))
      (i / bytesPerSector) _ hmod
    rw [hsplit, getElem?_eq_getElem hsector] at hat
    have hbyte := hstored.bytes f _ _ _ (getElem?_eq_getElem hsector) hmod
      (content f)[i] (by rw [hsplit]; exact getElem?_eq_getElem hi)
    rw [clusterBytes, hat, getElem?_eq_getElem hi, ← hbyte]
    rfl
  · rw [if_neg hi, getElem?_eq_none (by omega)]

theorem FatImage.Stored.resolves_unique {d : D} {components : List (List UInt8)} {x x' : Node D F}
    (h : Resolves tree Names d components x) (h' : Resolves tree Names d components x') : x = x' := by
  induction components generalizing d with
  | nil => exact absurd h resolves_nil
  | cons c cs ih =>
    obtain ⟨n, y, hmem, hsame, hy⟩ := resolves_cons_iff.mp h
    obtain ⟨n', y', hmem', hsame', hy'⟩ := resolves_cons_iff.mp h'
    cases ShortName.names_unique hsame hsame'
    cases hstored.node_unique hmem hmem'
    rcases hy with ⟨hcs, rfl⟩ | ⟨d', hd', hrest⟩ <;> rcases hy' with ⟨hcs', rfl⟩ | ⟨d'', hd'', hrest'⟩
    · rfl
    · rw [hcs] at hrest'
      exact absurd hrest' resolves_nil
    · rw [hcs'] at hrest
      exact absurd hrest resolves_nil
    · rw [hd'] at hd''
      cases hd''
      exact ih hrest hrest'

variable {alloc : Allocator} {rounds : Nat} {path : List UInt8}

theorem FatImage.Stored.fat32ReadFile_spec (hrounds : maxClusters ≤ rounds)
    (halloc : ∀ tick size, alloc tick size ≠ none)
    (hnames : ∀ c ∈ pathComponents path, ∃ n, Names c n) (tick : Nat) :
    (∃ f r, Resolves tree Names tree.root (pathComponents path) (.file f) ∧
      fat32ReadFile m image.volume alloc rounds path tick = some (some r) ∧ r.bytes = content f) ∨
    (∀ f, ¬ Resolves tree Names tree.root (pathComponents path) (.file f)) ∧
      fat32ReadFile m image.volume alloc rounds path tick = some none := by
  have hchains : ∀ x, (image.chain x).length ≤ rounds :=
    fun x => Nat.le_trans (hstored.chained x).length_le hrounds
  rw [fat32ReadFile]
  cases hsector : alloc tick bytesPerSector with
  | none => exact absurd hsector (halloc tick bytesPerSector)
  | some _ =>
    have hlen : (path.dropWhile rtlIsPathSeparator).length < path.length + 1 :=
      Nat.lt_succ_of_le (length_dropWhile_le _ _)
    have hhead : ∀ ch, (path.dropWhile rtlIsPathSeparator).head? = some ch →
        rtlIsPathSeparator ch = false := by
      intro ch hch
      have hstop := head?_dropWhile_not rtlIsPathSeparator path
      rw [hch] at hstop
      simpa using hstop
    rw [← pathComponents_dropWhile] at hnames ⊢
    rw [hstored.root]
    rcases hstored.walkPath_spec hchains (d := tree.root) hlen hnames hhead with
      ⟨x, e, hresolves, hwalk, hfor⟩ | ⟨hnone, hwalk⟩
    · simp only [hwalk]
      cases x with
      | directory d =>
        -- A directory is not read.
        have hdirectory : e.isDirectory = true := hfor.kind.mpr ⟨d, rfl⟩
        refine .inr ⟨fun f hf => ?_, ?_⟩
        · cases hstored.resolves_unique hresolves hf
        · rw [readEntry, if_pos hdirectory]
      | file f =>
        obtain ⟨r, hr, hcontent⟩ := hstored.readEntry_file hchains hfor (halloc (tick + 1) _)
        exact .inl ⟨f, r, hresolves, hr, hcontent⟩
    · simp only [hwalk]
      exact .inr ⟨fun f => hnone (.file f), trivial⟩

end Stored

/-- On a well-formed volume a path of 8.3 names is read exactly if it leads to a file, and what is
read is the beginning of the clusters of the file. -/
theorem fat32_reads_files {D F : Type} {image : FatImage D F} {m : Disk}
    {tree : Catalog ShortName D F} {content : F → List UInt8} {alloc : Allocator} {rounds : Nat}
    {path : List UInt8} (hmount : fat32Initialize m = some image.volume)
    (hstored : image.Stored m tree content) (hrounds : maxClusters ≤ rounds)
    (halloc : ∀ tick size, alloc tick size ≠ none)
    (hnames : ∀ c ∈ pathComponents path, ∃ n, Names c n) (tick : Nat) :
    (∀ f, Resolves tree Names tree.root (pathComponents path) (.file f) →
      ∃ r, fat32ReadMounted m alloc rounds path tick = some (some r) ∧ r.bytes = content f ∧
        r.bytes = (clusterBytes m image.volume (image.chain (.file f))).take r.size) ∧
    ((∀ f, ¬ Resolves tree Names tree.root (pathComponents path) (.file f)) →
      fat32ReadMounted m alloc rounds path tick = some none) := by
  rw [fat32ReadMounted, hmount]
  simp only
  rcases hstored.fat32ReadFile_spec hrounds halloc hnames tick with
    ⟨f, r, hresolves, hread, hcontent⟩ | ⟨hnone, hread⟩
  · refine ⟨fun f' hf' => ?_, fun hnone => absurd hresolves (hnone f)⟩
    cases hstored.resolves_unique hresolves hf'
    have hsize : r.size = (content f).length := by
      rw [← hcontent, FileBuffer.bytes, length_map, length_range]
    exact ⟨r, hread, hcontent, by rw [hcontent, hsize]; exact hstored.content_eq f⟩
  · exact ⟨fun f hf => absurd hf (hnone f), fun _ => hread⟩

/-! ## A volume that is mounted -/

theorem FatImage.Stored.congr {D F : Type} {image : FatImage D F} {m m' : Disk}
    {tree : Catalog ShortName D F} {content : F → List UInt8} (hstored : image.Stored m tree content)
    (hnext : ∀ cluster, nextCluster m' image.volume cluster = nextCluster m image.volume cluster)
    (hsector : ∀ x, ∀ lba ∈ chainSectors image.volume (image.chain x),
      m'.readable lba = m.readable lba ∧ m'.sector lba = m.sector lba) :
    image.Stored m' tree content := by
  have hchain : ∀ {cluster l}, Chain m image.volume cluster l → Chain m' image.volume cluster l := by
    intro cluster l h
    induction h with
    | stop hstop => exact .stop hstop
    | link hcluster _ ih => exact .link hcluster (by rw [hnext]; exact ih)
  have hslots : ∀ d, image.slots m' d = image.slots m d := by
    intro d
    have hflat : Fat.slots m' (chainSectors image.volume (image.chain (.directory d))) =
        Fat.slots m (chainSectors image.volume (image.chain (.directory d))) := by
      apply flatMap_congr
      intro lba hlba
      rw [(hsector _ lba hlba).2]
    rw [FatImage.slots, FatImage.slots, hflat]
  constructor
  case root => exact hstored.root
  case chained => exact fun x => hchain (hstored.chained x)
  case readable => exact fun x lba h => (hsector x lba h).1.trans (hstored.readable x lba h)
  case slots => exact fun d => by rw [hslots]; exact hstored.slots d
  case entries => exact fun d => by rw [hslots]; exact hstored.entries d
  case distinct => exact hstored.distinct
  case room => exact hstored.room
  case bytes =>
    intro f k lba t hlba ht ch hch
    rw [(hsector _ lba (mem_of_getElem? hlba)).2]
    exact hstored.bytes f k lba t hlba ht ch hch

def bootDisk : Disk where
  byte := fun p =>
    if p < 512 then
      ofSegments [(11, [0, 2, 1, 1, 0, 1]), (36, [1, 0, 0, 0]), (44, [2, 0, 0, 0])] p
    else sampleDisk.byte p
  readable := fun _ => true

theorem bootDisk_sector {lba : Nat} (h : lba ≠ 0) : bootDisk.sector lba = sampleDisk.sector lba := by
  funext k
  have hbytes : bytesPerSector = 512 := rfl
  exact if_neg (by rw [hbytes]; omega)

theorem bootDisk_stored : sampleImage.Stored bootDisk sampleTree sampleContent := by
  refine sampleImage_stored.congr (fun cluster => ?_) ?_
  · have hlba : u32 (sampleImage.volume.fatLba + u32 (cluster * 4) / bytesPerSector) ≠ 0 := by
      have hfat : sampleImage.volume.fatLba = 1 := rfl
      have hbytes : bytesPerSector = 512 := rfl
      have hlt := u32_lt (cluster * 4)
      rw [hfat, hbytes, u32_of_lt (by omega)]
      omega
    simp only [nextCluster, Disk.readSector, bootDisk_sector hlba]
    rfl
  · have hall : ∀ x, ∀ lba ∈ chainSectors sampleImage.volume (sampleImage.chain x), lba ≠ 0 := by
      rintro ((_ | _) | ⟨⟩)
      · exact (by decide +kernel : ∀ lba ∈ chainSectors sampleImage.volume [2], lba ≠ 0)
      · exact (by decide +kernel : ∀ lba ∈ chainSectors sampleImage.volume [4], lba ≠ 0)
      · exact (by decide +kernel : ∀ lba ∈ chainSectors sampleImage.volume [3], lba ≠ 0)
    exact fun x lba h => ⟨rfl, bootDisk_sector (hall x lba h)⟩

theorem fat32_reads_files_a :
    ∃ r, fat32ReadMounted bootDisk plenty maxClusters [92, 97] 0 = some (some r) ∧
      r.bytes = [72, 69, 76, 76, 79] := by
  have hcomponents : pathComponents [92, 97] = [[97]] := by decide +kernel
  have hnames : ∀ c ∈ pathComponents [92, 97], ∃ n, Names c n := by
    rw [hcomponents]
    intro c hc
    rw [mem_singleton] at hc
    exact ⟨nameA, by rw [hc]; decide⟩
  have hmount : fat32Initialize bootDisk = some sampleImage.volume := by decide +kernel
  have halloc : ∀ tick size, plenty tick size ≠ none := fun _ _ => by simp [plenty]
  have hreads := fat32_reads_files hmount bootDisk_stored (Nat.le_refl _) halloc hnames 0
  obtain ⟨r, hread, hcontent, -⟩ := hreads.1 () (by
    rw [hcomponents]
    exact .last (mem_cons_self) (by decide : Names [97] nameA))
  exact ⟨r, hread, hcontent⟩

end DiscouNT.Fat
