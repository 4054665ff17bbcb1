import DiscouNT.Cdfs.Resolve
import DiscouNT.Fat.Image

/-!
# Cdfs.Backends

`CdfsReadFile` serves a file from the disc, or from a FAT32 volume where one is mounted. The two
backends read paths on their own. For a tree with upper-case 8.3 names that both store, and a path
made of such names in any case that does not lead to a directory, they give the same
(`backends_agree`). Dots, trailing dots and directories are told apart (`backends_agree_not`).
-/

namespace DiscouNT.Cdfs

open Lib Rtl Fat List Option

/-- `CdfsReadFile`, with the FAT32 volume that is mounted, if one is. -/
def readFile (fat : Option (Disk × FatVolume)) (m : Medium) (alloc : Allocator) (stack : Mem)
    (rounds : Nat) (path : List UInt8) (host : Host) : Option (Option FileBuffer) :=
  match fat with
  | some (disk, v) => fat32ReadFile disk v alloc rounds path host.ticks
  | none => (cdfsReadFile m alloc stack path host).result

def seen (result : Option (Option FileBuffer)) : Option (Option (List UInt8)) :=
  result.map fun r => r.map FileBuffer.bytes

section Backends

variable {D F : Type}

/-- The disc stores the tree: beside the entries of the tree a directory has one for itself and one
for the directory above it. -/
structure IsoVolume.Stores (iso : IsoVolume D F) (m : Medium) (tree : Catalog ShortName D F)
    (content : F → List UInt8) : Prop where
  stored : iso.Stored m
  readable : iso.Readable m
  root : iso.catalog.root = tree.root
  names : ∀ d, ∀ e ∈ iso.catalog.entries d,
    e.1.name = [0] ∨ e.1.name = [1] ∨ ∃ n, (n, e.2) ∈ tree.entries d ∧ e.1.name = n.text
  entries : ∀ d n x, (n, x) ∈ tree.entries d →
    ∃ version, (⟨n.text, version⟩, x) ∈ iso.catalog.entries d
  size : ∀ f, (iso.extent (.file f)).2 = (content f).length
  bytes : ∀ f i ch, (content f)[i]? = some ch → m.extent (iso.extent (.file f)).1 i = ch
  fits : ∀ f, (iso.extent (.file f)).1 < 2 ^ 32 ∧ (content f).length + 2047 < 2 ^ 32 ∧
    (iso.extent (.file f)).1 + sectorCount (content f).length ≤ 2 ^ 32
  files : ∀ f, AllReadable m (iso.extent (.file f)).1 (iso.extent (.file f)).2

structure Roomy (alloc : Allocator) (iso : IsoVolume D F) (content : F → List UInt8) : Prop where
  directories : iso.Searchable alloc
  sector : ∀ tick, alloc tick bytesPerSector ≠ none
  sectors : ∀ f tick, alloc tick (allocSize (content f).length) ≠ none
  bytes : ∀ f tick, alloc tick (if (content f).length = 0 then 1 else (content f).length) ≠ none

variable {iso : IsoVolume D F} {m : Medium} {tree : Catalog ShortName D F}
  {content : F → List UInt8}

theorem sameName_text_iff {component : List UInt8} {n : ShortName} :
    SameName component n.text ↔ Names component n := by
  rw [SameName, n.text_upper]
  rfl

theorem names_head {component : List UInt8} {n : ShortName} (h : Names component n) {ch : UInt8}
    (hch : nameChar ch = false) : (component.map upper).head? ≠ some ch := by
  rw [h]
  cases hbase : n.base with
  | nil => exact absurd hbase n.base_ne
  | cons first rest =>
    have hne : first ≠ ch := n.char_ne (by rw [hbase]; simp) hch
    simpa [ShortName.text, hbase] using hne

variable (hiso : iso.Stores m tree content)

include hiso

theorem IsoVolume.Stores.resolves_iff {components : List (List UInt8)} {x : Node D F} :
    ∀ {d : D}, (∀ c ∈ components, ∃ n, Names c n) →
      (iso.Resolves d components x ↔ Lib.Resolves tree Names d components x) := by
  induction components with
  | nil =>
    intro d _
    exact ⟨fun h => absurd h resolves_nil, fun h => absurd h resolves_nil⟩
  | cons component components ih =>
    intro d hnames
    rw [forall_mem_cons] at hnames
    obtain ⟨⟨n, hn⟩, hnames⟩ := hnames
    rw [IsoVolume.Resolves, resolves_cons_iff, resolves_cons_iff]
    constructor
    · rintro ⟨i, y, hmem, hsame, hrest⟩
      rcases hiso.names d _ hmem with hself | habove | ⟨n', hmem', htext⟩
      · rw [hself] at hsame
        exact absurd (congrArg List.head? hsame) (names_head hn (by decide))
      · rw [habove] at hsame
        exact absurd (congrArg List.head? hsame) (names_head hn (by decide))
      · rw [htext, sameName_text_iff] at hsame
        refine ⟨n', y, hmem', hsame, hrest.imp_right ?_⟩
        rintro ⟨d', rfl, hresolves⟩
        exact ⟨d', rfl, (ih hnames).mp hresolves⟩
    · rintro ⟨n', y, hmem, hsame, hrest⟩
      obtain ⟨version, hmem'⟩ := hiso.entries d n' y hmem
      refine ⟨_, y, hmem', sameName_text_iff.mpr hsame, hrest.imp_right ?_⟩
      rintro ⟨d', rfl, hresolves⟩
      exact ⟨d', rfl, (ih hnames).mpr hresolves⟩

theorem IsoVolume.Stores.not_resolves_dot {d : D} {x : Node D F} :
    ¬ iso.Resolves d [[dot]] x := by
  rw [IsoVolume.Resolves, resolves_cons_iff]
  rintro ⟨i, y, hmem, hsame, -⟩
  have hdot : i.name.map upper = [dot] := hsame.symm
  rcases hiso.names d _ hmem with hself | habove | ⟨n, -, htext⟩
  · rw [hself] at hdot
    cases hdot
  · rw [habove] at hdot
    cases hdot
  · rw [htext, n.text_upper] at hdot
    have hnames : Names [dot] n := hdot.symm
    exact names_head hnames (by decide) rfl

variable {alloc : Allocator} {stack : Mem} {path normalized : List UInt8} {host : Host}

theorem IsoVolume.Stores.resolves_normalized (hnames : ∀ c ∈ pathComponents path, ∃ n, Names c n)
    (hpath : rtlNormalizePath path 256 = some (some normalized)) (x : Node D F) :
    iso.Resolves iso.catalog.root (pathComponents normalized) x ↔
      Lib.Resolves tree Names tree.root (pathComponents path) x := by
  have hdot : [dot] ∉ pathComponents path := fun h => by
    obtain ⟨n, hn⟩ := hnames _ h
    exact names_head hn (by decide) rfl
  have hdots : [dot, dot] ∉ pathComponents path := fun h => by
    obtain ⟨n, hn⟩ := hnames _ h
    exact names_head hn (by decide) rfl
  rw [hiso.root]
  rcases rtlNormalizePath_components hdot hdots hpath with heq | ⟨hempty, heq⟩
  · rw [heq]
    exact hiso.resolves_iff hnames
  · rw [heq, hempty]
    exact ⟨fun h => absurd h hiso.not_resolves_dot, fun h => absurd h resolves_nil⟩

section Iso

variable (hroomy : Roomy alloc iso content) (hv : host.volume.Active m) (htext : 0 ∉ path)
  (hnames : ∀ c ∈ pathComponents path, ∃ n, Names c n)
  (hpath : rtlNormalizePath path 256 = some (some normalized))

include hroomy hv htext hnames hpath

theorem IsoVolume.Stores.read_file {f : F}
    (hresolves : Lib.Resolves tree Names tree.root (pathComponents path) (.file f)) :
    seen (cdfsReadFile m alloc stack path host).result = some (some (content f)) := by
  have hfind : (cdfsFindFile m alloc stack path host).result =
      some (some ((iso.extent (.file f)).1, (iso.extent (.file f)).2)) :=
    (find_resolves_iff hiso.stored hiso.readable hroomy.directories hv htext hpath _ _).mpr
      ⟨.file f, (hiso.resolves_normalized hnames hpath _).mpr hresolves, rfl⟩
  have hsize := hiso.size f
  obtain ⟨hlba, hround, hend⟩ := hiso.fits f
  have hmemory : alloc (cdfsFindFile m alloc stack path host).host.ticks
      (allocSize (iso.extent (.file f)).2) ≠ none := by
    rw [hsize]
    exact hroomy.sectors f _
  obtain ⟨r, hr⟩ := exists_readFound hmemory (hiso.files f)
  obtain ⟨-, hbytes⟩ := (readFound_holds_iff hlba (by omega)).mpr
    (fun _ _ => by rw [hsize]; exact ⟨hround, hend⟩) r hr
  rw [cdfsReadFile_of_found hfind, hr]
  refine congrArg (fun l => some (some l)) (FileBuffer.bytes_eq ?_ fun i ch hi => ?_)
  · rw [(readFound_cases hr).2.1, hsize]
  · have hlt : i < (iso.extent (.file f)).2 := by
      rw [hsize]
      exact (List.getElem?_eq_some_iff.mp hi).1
    have hbyte := hbytes i hlt
    rw [extentByte] at hbyte
    split at hbyte
    · rw [← some.inj hbyte]
      exact hiso.bytes f i ch hi
    · cases hbyte

theorem IsoVolume.Stores.read_none
    (hnone : ∀ x, ¬ Lib.Resolves tree Names tree.root (pathComponents path) x) :
    seen (cdfsReadFile m alloc stack path host).result = some none := by
  cases hfind : (cdfsFindFile m alloc stack path host).result with
  | none => exact absurd hfind cdfsFindFile_ends
  | some found =>
    cases found with
    | none =>
      rw [cdfsReadFile_of_missing hfind]
      rfl
    | some extent =>
      obtain ⟨x, hresolves, -⟩ := (find_resolves_iff hiso.stored hiso.readable hroomy.directories hv
        htext hpath extent.1 extent.2).mp hfind
      exact absurd ((hiso.resolves_normalized hnames hpath x).mp hresolves) (hnone x)

end Iso

end Backends

section Fat

variable {D F : Type} {image : FatImage D F} {disk : Disk} {tree : Catalog ShortName D F}
  {content : F → List UInt8} {alloc : Allocator} {rounds : Nat} {path : List UInt8}
variable (hfat : image.Stored disk tree content) (hrounds : ∀ x, (image.chain x).length ≤ rounds)
  (hsector : ∀ tick, alloc tick bytesPerSector ≠ none)
  (hbytes : ∀ f tick, alloc tick (if (content f).length = 0 then 1 else (content f).length) ≠ none)
  (hnames : ∀ c ∈ pathComponents path, ∃ n, Names c n)

include hfat hrounds hsector hbytes hnames

theorem fat32ReadFile_seen (tick : Nat)
    (hfile : ∀ d, ¬ Lib.Resolves tree Names tree.root (pathComponents path) (.directory d)) :
    (∃ f, Lib.Resolves tree Names tree.root (pathComponents path) (.file f) ∧
      seen (fat32ReadFile disk image.volume alloc rounds path tick) = some (some (content f))) ∨
    (∀ x, ¬ Lib.Resolves tree Names tree.root (pathComponents path) x) ∧
      seen (fat32ReadFile disk image.volume alloc rounds path tick) = some none := by
  rw [fat32ReadFile]
  cases halloc : alloc tick bytesPerSector with
  | none => exact absurd halloc (hsector tick)
  | some _ =>
    have hlen : (path.dropWhile rtlIsPathSeparator).length < path.length + 1 :=
      Nat.lt_succ_of_le (length_dropWhile_le _ _)
    have hhead : ∀ ch, (path.dropWhile rtlIsPathSeparator).head? = some ch →
        rtlIsPathSeparator ch = false := by
      intro ch hch
      have hstop := head?_dropWhile_not rtlIsPathSeparator path
      rw [hch] at hstop
      simpa using hstop
    rw [← pathComponents_dropWhile] at hnames hfile ⊢
    rw [hfat.root]
    rcases hfat.walkPath_spec hrounds (d := tree.root) hlen hnames hhead with
      ⟨x, e, hresolves, hwalk, hfor⟩ | ⟨hnone, hwalk⟩
    · cases x with
      | directory d => exact absurd hresolves (hfile d)
      | file f =>
        have hmemory : alloc (tick + 1) (if e.size = 0 then 1 else e.size) ≠ none := by
          rw [hfor.size f rfl]
          exact hbytes f _
        obtain ⟨r, hr, hcontent⟩ := hfat.readEntry_file hrounds hfor hmemory
        refine .inl ⟨f, hresolves, ?_⟩
        simp only [hwalk, hr]
        exact congrArg (fun l => some (some l)) hcontent
    · refine .inr ⟨hnone, ?_⟩
      simp only [hwalk]
      rfl

end Fat

/-- For a path of 8.3 names that does not lead to a directory, the file is the same, or there is none,
whether it is served from the disc or from the FAT32 volume. -/
theorem backends_agree {D F : Type} {tree : Catalog ShortName D F} {content : F → List UInt8}
    {iso : IsoVolume D F} {m : Medium} {image : FatImage D F} {disk : Disk} {alloc : Allocator}
    {stack : Mem} {rounds : Nat} {path normalized : List UInt8} {host : Host}
    (hiso : iso.Stores m tree content) (hfat : image.Stored disk tree content)
    (hroomy : Roomy alloc iso content) (hrounds : ∀ x, (image.chain x).length ≤ rounds)
    (hv : host.volume.Active m) (htext : 0 ∉ path)
    (hnames : ∀ c ∈ pathComponents path, ∃ n, Names c n)
    (hpath : rtlNormalizePath path 256 = some (some normalized))
    (hfile : ∀ d, ¬ Lib.Resolves tree Names tree.root (pathComponents path) (.directory d)) :
    seen (readFile none m alloc stack rounds path host) ≠ none ∧
      seen (readFile (some (disk, image.volume)) m alloc stack rounds path host) =
        seen (readFile none m alloc stack rounds path host) := by
  have hdisc : seen (readFile none m alloc stack rounds path host) =
      seen (cdfsReadFile m alloc stack path host).result := rfl
  have hmounted : seen (readFile (some (disk, image.volume)) m alloc stack rounds path host) =
      seen (fat32ReadFile disk image.volume alloc rounds path host.ticks) := rfl
  rw [hdisc, hmounted]
  rcases fat32ReadFile_seen hfat hrounds hroomy.sector hroomy.bytes hnames host.ticks hfile
    with ⟨f, hresolves, hseen⟩ | ⟨hnone, hseen⟩
  · rw [hseen, hiso.read_file hroomy hv htext hnames hpath hresolves]
    exact ⟨by simp, rfl⟩
  · rw [hseen, hiso.read_none hroomy hv htext hnames hpath hnone]
    exact ⟨by simp, rfl⟩

/-! ## A tree in both forms -/

def nameA : ShortName := ⟨[65], [], by decide, by decide, by decide, by decide +kernel⟩
def nameD : ShortName := ⟨[68], [], by decide, by decide, by decide, by decide +kernel⟩

def sampleTree : Catalog ShortName Bool Unit where
  root := false
  entries := fun
    | false => [(nameA, .file ()), (nameD, .directory true)]
    | true => []

def sampleContent : Unit → List UInt8 := fun _ => [72, 69, 76, 76, 79]

def fatSlot (name : List UInt8) (attributes cluster size : UInt8) : List UInt8 :=
  name ++ attributes :: List.replicate 14 0 ++ [cluster, 0, size, 0, 0, 0]

/-- Sector 1 is the table, and each of the three clusters has one sector. -/
def sampleDisk : Disk where
  byte := ofSegments
    [(512 + 8, [255, 255, 255, 15, 255, 255, 255, 15, 255, 255, 255, 15]),
      (1024, fatSlot nameA.field 0x20 3 5 ++ fatSlot nameD.field 0x10 4 0),
      (1536, [72, 69, 76, 76, 79]),
      (2048, fatSlot (dot :: List.replicate 10 32) 0x10 4 0 ++
        fatSlot (dot :: dot :: List.replicate 9 32) 0x10 0 0)]
  readable := fun _ => true

def sampleImage : FatImage Bool Unit where
  volume := ⟨1, 2, 2, 1⟩
  cluster := fun
    | .directory false => 2
    | .file _ => 3
    | .directory true => 4
  chain := fun
    | .directory false => [2]
    | .file _ => [3]
    | .directory true => [4]

theorem sampleImage_stored : sampleImage.Stored sampleDisk sampleTree sampleContent where
  root := rfl
  chained := by
    have hlink : ∀ c ∈ [2, 3, 4], Chain sampleDisk sampleImage.volume c [c] := by
      intro c hc
      have hvalid := (show ∀ c ∈ [2, 3, 4], isCluster c = true ∧
        isCluster (nextCluster sampleDisk sampleImage.volume c) = false by decide +kernel) c hc
      exact .link hvalid.1 (.stop hvalid.2)
    rintro ((_ | _) | _)
    · exact hlink 2 (by decide)
    · exact hlink 4 (by decide)
    · exact hlink 3 (by decide)
  readable := fun _ _ _ => rfl
  slots := by
    have hall : ∀ d, ∀ slot ∈ sampleImage.slots sampleDisk d, nameAt slot 0 ∈ dotNames ∨
        (d = false ∧ nameAt slot 0 = nameA.field ∧ entryAt slot 0 = ⟨nameA.field, 0x20, 3, 5⟩) ∨
        (d = false ∧ nameAt slot 0 = nameD.field ∧ entryAt slot 0 = ⟨nameD.field, 0x10, 4, 0⟩) := by
      decide +kernel
    intro d slot hslot
    rcases hall d slot hslot with hdot | ⟨rfl, hname, hentry⟩ | ⟨rfl, hname, hentry⟩
    · exact .inl hdot
    · refine .inr ⟨nameA, .file (), by simp [sampleTree], hname, ?_⟩
      rw [hentry]
      exact ⟨⟨fun h => absurd h (by decide), fun ⟨_, h⟩ => by cases h⟩, rfl, fun _ _ => rfl⟩
    · refine .inr ⟨nameD, .directory true, by simp [sampleTree], hname, ?_⟩
      rw [hentry]
      exact ⟨⟨fun _ => ⟨true, rfl⟩, fun _ => by decide⟩, rfl, fun _ h => by cases h⟩
  entries := by
    have hall : ∀ d, ∀ e ∈ sampleTree.entries d, ∃ slot ∈ sampleImage.slots sampleDisk d,
        nameAt slot 0 = e.1.field := by
      decide +kernel
    exact fun d n x h => hall d (n, x) h
  distinct := by
    intro d
    cases d <;> simp [sampleTree, nameA, nameD]
  room := by
    rintro ⟨⟩
    decide
  bytes := by
    rintro ⟨⟩ k lba t hlba ht ch hch
    have hlt : k * bytesPerSector + t < 5 := (List.getElem?_eq_some_iff.mp hch).1
    have hk : k = 0 := by
      simp only [bytesPerSector] at hlt
      omega
    subst hk
    have hsector : lba = 3 := by
      rw [show chainSectors sampleImage.volume (sampleImage.chain (.file ())) = [3] by
        decide +kernel] at hlba
      cases hlba
      rfl
    subst hsector
    have hcopy : ∀ t < 5, (sampleContent ())[t]? = some (sampleDisk.sector 3 t) := by
      decide +kernel
    rw [Nat.zero_mul, Nat.zero_add] at hlt hch
    rw [hcopy t hlt] at hch
    exact some.inj hch

theorem sampleVolume_stores : sampleVolume.Stores sampleDisc sampleTree sampleContent where
  stored := sampleVolume_stored
  readable := sampleVolume_readable
  root := rfl
  names := by
    intro d e he
    cases d with
    | false =>
      simp only [sampleVolume, mem_cons, not_mem_nil, or_false] at he
      rcases he with rfl | rfl | rfl | rfl
      · exact .inl rfl
      · exact .inr (.inl rfl)
      · exact .inr (.inr ⟨nameA, by simp [sampleTree], rfl⟩)
      · exact .inr (.inr ⟨nameD, by simp [sampleTree], rfl⟩)
    | true =>
      simp only [sampleVolume, mem_cons, not_mem_nil, or_false] at he
      rcases he with rfl | rfl
      · exact .inl rfl
      · exact .inr (.inl rfl)
  entries := by
    intro d n x h
    cases d with
    | false =>
      simp only [sampleTree, mem_cons, not_mem_nil, or_false, Prod.mk.injEq] at h
      rcases h with ⟨rfl, rfl⟩ | ⟨rfl, rfl⟩
      · exact ⟨some [49], by simp [sampleVolume, nameA, ShortName.text]⟩
      · exact ⟨none, by simp [sampleVolume, nameD, ShortName.text]⟩
    | true => simp [sampleTree] at h
  size := fun _ => rfl
  bytes := by
    rintro ⟨⟩ i ch hi
    have hlt : i < 5 := (List.getElem?_eq_some_iff.mp hi).1
    have hcopy : ∀ i < 5, (sampleContent ())[i]? = some (sampleDisc.extent 18 i) := by
      decide +kernel
    rw [hcopy i hlt] at hi
    exact some.inj hi
  fits := fun ⟨⟩ => by decide
  files := fun _ _ _ => rfl

theorem sample_roomy : Roomy plenty sampleVolume sampleContent where
  directories := sampleVolume_searchable
  sector := fun _ => by simp [plenty]
  sectors := fun _ _ => by simp [plenty]
  bytes := fun _ _ => by simp [plenty]

theorem sample_rounds (x : Node Bool Unit) : (sampleImage.chain x).length ≤ 1 := by
  rcases x with (_ | _) | _
  all_goals exact Nat.le_refl 1

/-- The file is the same under `\a`. -/
theorem backends_agree_a :
    seen (readFile (some (sampleDisk, sampleImage.volume)) sampleDisc plenty (fun _ => 0) 1 [92, 97]
        newHost) =
      seen (readFile none sampleDisc plenty (fun _ => 0) 1 [92, 97] newHost) := by
  have hcomponents : pathComponents [92, 97] = [[97]] := by decide +kernel
  have hnames : ∀ c ∈ pathComponents [92, 97], ∃ n, Names c n := by
    rw [hcomponents]
    intro c hc
    rw [mem_singleton] at hc
    exact ⟨nameA, by rw [hc]; decide⟩
  refine (backends_agree sampleVolume_stores sampleImage_stored sample_roomy sample_rounds
    (newHost_active sampleDisc) (by decide) hnames
    (by decide +kernel : rtlNormalizePath [92, 97] 256 = some (some [47, 97])) ?_).2
  intro d hresolves
  rw [hcomponents, resolves_cons_iff] at hresolves
  obtain ⟨n, y, hmem, hsame, ⟨-, rfl⟩ | ⟨d', -, hrest⟩⟩ := hresolves
  · -- The only directory of the tree has another name.
    simp only [sampleTree, mem_cons, not_mem_nil, or_false, Prod.mk.injEq, reduceCtorEq,
      and_false, false_or] at hmem
    rw [hmem.1] at hsame
    exact absurd hsame (by decide)
  · exact resolves_nil hrest

/-- The disc gives the bytes of the directory `D` under `/D` and the file under `/./A`, the volume
fails for both, and it alone gives the file under `/A.`. -/
theorem backends_agree_not :
    sampleVolume.Stores sampleDisc sampleTree sampleContent ∧
      sampleImage.Stored sampleDisk sampleTree sampleContent ∧
      Roomy plenty sampleVolume sampleContent ∧
      ([[47, 68], [47, 46, 47, 65], [47, 65, 46]].map fun path =>
        ((readFile none sampleDisc plenty (fun _ => 0) 1 path newHost).map isSome,
          (readFile (some (sampleDisk, sampleImage.volume)) sampleDisc plenty (fun _ => 0) 1 path
            newHost).map isSome)) =
        [(some true, some false), (some true, some false), (some false, some true)] := by
  exact ⟨sampleVolume_stores, sampleImage_stored, sample_roomy, by decide +kernel⟩

end DiscouNT.Cdfs
