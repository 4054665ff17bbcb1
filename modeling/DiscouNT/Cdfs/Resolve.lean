import DiscouNT.Cdfs.Contained
import DiscouNT.Cdfs.Iso
import DiscouNT.Lib.Tree

/-!
# Cdfs.Resolve

`CdfsFindFile` on a well-formed disc. `find_resolves_iff`: the lookup succeeds exactly when the
components of the normalized path lead through the directories to an entry, and then it returns the
extent of that entry. Both loops of the lookup are followed by the walk of `Contained` on the disc,
and what is shown here is that this walk is the one in the catalog.
-/

namespace DiscouNT.Cdfs

open Lib Rtl

/-- The directories of a disc, and where on it they and the files are: the first sector and the size
in bytes. The entries for a directory itself and for the one above it are among its entries. -/
structure IsoVolume (D F : Type) where
  catalog : Catalog Identifier D F
  extent : Node D F → Nat × Nat

namespace IsoVolume

variable {D F : Type} (iso : IsoVolume D F)

def sectors (d : D) : Nat := ((iso.extent (.directory d)).2 + 2047) / sectorSize

def found : Node D F → Found
  | .directory d => ⟨(iso.extent (.directory d)).1, (iso.extent (.directory d)).2, true⟩
  | .file f => ⟨(iso.extent (.file f)).1, (iso.extent (.file f)).2, false⟩

structure Stored (m : Medium) : Prop where
  root_lba : readLE (m.byte 16) 158 4 = (iso.extent (.directory iso.catalog.root)).1
  root_size : readLE (m.byte 16) 166 4 = (iso.extent (.directory iso.catalog.root)).2
  holds : ∀ d, Holds (m.directory (iso.extent (.directory d)).1) (iso.sectors d * sectorSize) 0
    ((iso.catalog.entries d).map fun e => (e.1, iso.found e.2))
  valid : ∀ d, ∀ e ∈ iso.catalog.entries d, e.1.Valid
  distinct : ∀ d, (iso.catalog.entries d).Pairwise fun e e' => ¬ SameName e.1.name e'.1.name

structure Readable (m : Medium) : Prop where
  descriptor : SectorReadable m 16
  directories : ∀ d, ∀ k < iso.sectors d, SectorReadable m (u32 ((iso.extent (.directory d)).1 + k))

structure Searchable (alloc : Allocator) : Prop where
  memory : ∀ d tick, alloc tick (iso.sectors d * sectorSize) ≠ none
  small : ∀ d, (iso.extent (.directory d)).2 + 2047 < 2 ^ 31

def Resolves : D → List (List UInt8) → Node D F → Prop :=
  Lib.Resolves iso.catalog fun component i => SameName component i.name

end IsoVolume

structure Stage.At {D F : Type} (s : Stage) (m : Medium) (iso : IsoVolume D F) (d : D) : Prop where
  lba : s.lba = (iso.extent (.directory d)).1
  size : s.size = (iso.extent (.directory d)).2
  active : s.host.volume.Active m
  short : s.cursor.length < 256
  text : 0 ∉ s.cursor

section Search

variable {D F : Type} {iso : IsoVolume D F} {m : Medium} {alloc : Allocator}
variable (hstored : iso.Stored m) (hreadable : iso.Readable m) (hsearch : iso.Searchable alloc)

theorem IsoVolume.found_extent (x : Node D F) :
    ((iso.found x).lba, (iso.found x).size) = iso.extent x := by
  cases x <;> rfl

theorem IsoVolume.found_eq_directory {x : Node D F} (h : (iso.found x).isDirectory = true) :
    ∃ d, x = .directory d := by
  cases x with
  | directory d => exact ⟨d, rfl⟩
  | file f => cases h

include hsearch

variable {s : Stage}

theorem Stage.At.sectors_eq {d : D} (h : s.At m iso d) : s.sectors = iso.sectors d := by
  have hsmall := hsearch.small d
  rw [Stage.sectors, sectorCount, h.size, u32_of_lt (by omega), IsoVolume.sectors]

theorem Stage.At.limit_eq {d : D} (h : s.At m iso d) :
    s.limit = iso.sectors d * sectorSize := by
  have hsmall := hsearch.small d
  have hlt : iso.sectors d * sectorSize < 2 ^ 31 :=
    Nat.lt_of_le_of_lt (Nat.div_mul_le_self _ _) hsmall
  rw [Stage.limit, h.sectors_eq hsearch, scanLimit, if_pos hlt]

variable {component : List UInt8}

theorem Stage.At.looks_iff {d : D} (h : s.At m iso d) {rest : List UInt8} :
    s.Looks alloc component rest ↔ rtlNextPathComponent s.cursor 256 = .next component rest := by
  constructor
  · intro hlooks
    exact hlooks.next
  · intro hnext
    refine ⟨hnext, ?_⟩
    rw [h.sectors_eq hsearch]
    exact hsearch.memory d _

include hstored

theorem Stage.At.entry_iff {d : D} (h : s.At m iso d) {rest : List UInt8}
    (hlooks : s.Looks alloc component rest) {found : Found} :
    s.Entry m component found ↔ ∃ i x, (i, x) ∈ iso.catalog.entries d ∧
      SameName component i.name ∧ found = iso.found x := by
  have hne := (rtlNextPathComponent_next hlooks.next).1
  have htext : 0 ∉ component := fun hz =>
    h.text ((rtlNextPathComponent_subset hlooks.next).1 hz)
  have hvalid : ∀ e ∈ (iso.catalog.entries d).map fun e => (e.1, iso.found e.2), e.1.Valid := by
    rw [List.forall_mem_map]
    exact hstored.valid d
  have hdistinct : ((iso.catalog.entries d).map fun e => (e.1, iso.found e.2)).Pairwise
      fun e e' => ¬ SameName e.1.name e'.1.name := by
    rw [List.pairwise_map]
    exact hstored.distinct d
  rw [Stage.Entry, h.limit_eq hsearch, h.lba,
    (hstored.holds d).finds_iff hvalid hdistinct hne htext]
  constructor
  · rintro ⟨i, hmem, hsame⟩
    obtain ⟨⟨i', x⟩, hentry, heq⟩ := List.mem_map.mp hmem
    cases heq
    exact ⟨i', x, hentry, hsame, rfl⟩
  · rintro ⟨i, x, hmem, hsame, rfl⟩
    exact ⟨i, List.mem_map.mpr ⟨(i, x), hmem, rfl⟩, hsame⟩

include hreadable

theorem Stage.At.recordsFit {d : D} (h : s.At m iso d) : s.RecordsFit m alloc := by
  intro component rest hlooks
  have hfilled : ∀ k < iso.sectors d, (s.reads m).1[k]? = some true := by
    rw [Stage.reads, h.sectors_eq hsearch]
    apply sectorReads_readable _ _ h.active
    intro k hk
    rw [h.lba, Nat.zero_add]
    exact hreadable.directories d k hk
  rw [h.limit_eq hsearch, h.lba]
  exact (hstored.holds d).recordFits rfl hfilled

omit hreadable in
theorem Descends.at {s1 : Stage} {d : D} (h : s.At m iso d) (hstep : Descends m alloc s s1) :
    ∃ component d1 i, (i, .directory d1) ∈ iso.catalog.entries d ∧ SameName component i.name ∧
      pathComponents s.cursor = component :: pathComponents s1.cursor ∧ s1.At m iso d1 := by
  cases hstep with
  | @into component rest found hlooks hentry hne hdir =>
    obtain ⟨i, x, hmem, hsame, rfl⟩ := (h.entry_iff hstored hsearch hlooks).mp hentry
    obtain ⟨d1, rfl⟩ := IsoVolume.found_eq_directory hdir
    have hlt := rest_length_lt hlooks.next
    have hsub := (rtlNextPathComponent_subset hlooks.next).2
    refine ⟨component, d1, i, hmem, hsame, (rtlNextPathComponent_next hlooks.next).2.1, ?_⟩
    exact {
      lba := rfl
      size := rfl
      active := sectorReads_active _ _ h.active
      short := Nat.lt_trans hlt h.short
      text := fun hz => h.text (hsub hz) }

theorem Walks.recordsFit {s' : Stage} (hwalks : Walks m alloc s s') :
    ∀ {d : D}, s.At m iso d → s'.RecordsFit m alloc := by
  induction hwalks using Relation.ReflTransGen.head_induction_on with
  | refl => intro d h; exact h.recordsFit hstored hreadable hsearch
  | head hstep _ ih =>
    intro d h
    obtain ⟨_, _, _, _, _, _, h1⟩ := hstep.at hstored hsearch h
    exact ih h1

omit hreadable in
theorem Walks.resolves {s' : Stage} (hwalks : Walks m alloc s s')
    {found : Found} (hlooks : s'.Looks alloc component []) (hentry : s'.Entry m component found) :
    ∀ {d : D}, s.At m iso d →
      ∃ x, iso.Resolves d (pathComponents s.cursor) x ∧ found = iso.found x := by
  induction hwalks using Relation.ReflTransGen.head_induction_on with
  | refl =>
    intro d h
    obtain ⟨i, x, hmem, hsame, rfl⟩ := (h.entry_iff hstored hsearch hlooks).mp hentry
    refine ⟨x, ?_, rfl⟩
    rw [(rtlNextPathComponent_next hlooks.next).2.1]
    exact .last hmem hsame
  | head hstep _ ih =>
    intro d h
    obtain ⟨_, d1, i, hmem, hsame, hcomponents, h1⟩ := hstep.at hstored hsearch h
    obtain ⟨x, hresolves, rfl⟩ := ih h1
    refine ⟨x, ?_, rfl⟩
    rw [hcomponents]
    exact .step hmem hsame hresolves

omit hstored hreadable in
theorem Stage.At.exists_looks {d : D} (h : s.At m iso d)
    {components : List (List UInt8)} (hcomponents : pathComponents s.cursor = component :: components) :
    ∃ rest, s.Looks alloc component rest ∧ pathComponents rest = components ∧
      (components = [] → rest = []) := by
  cases hnext : rtlNextPathComponent s.cursor 256 with
  | failed => exact absurd hnext (rtlNextPathComponent_ne_failed h.short)
  | finished =>
    rw [rtlNextPathComponent_finished hnext] at hcomponents
    cases hcomponents
  | next component' rest =>
    obtain ⟨-, heq, hend⟩ := rtlNextPathComponent_next hnext
    rw [hcomponents] at heq
    cases heq
    exact ⟨rest, (h.looks_iff hsearch).mpr hnext, rfl, hend⟩

omit hreadable in
theorem IsoVolume.Resolves.walks {d : D} {components : List (List UInt8)} {x : Node D F}
    (hresolves : iso.Resolves d components x) :
    ∀ {s : Stage}, s.At m iso d → pathComponents s.cursor = components →
      ∃ s' component, Walks m alloc s s' ∧ s'.Looks alloc component [] ∧
        s'.Entry m component (iso.found x) := by
  induction hresolves with
  | @last d component i x hmem hsame =>
    intro s h hcomponents
    obtain ⟨rest, hlooks, -, hend⟩ := h.exists_looks hsearch hcomponents
    rw [hend rfl] at hlooks
    exact ⟨s, component, .refl, hlooks,
      (h.entry_iff hstored hsearch hlooks).mpr ⟨i, x, hmem, hsame, rfl⟩⟩
  | @step d d1 component i components x hmem hsame hrest ih =>
    intro s h hcomponents
    obtain ⟨rest, hlooks, hcomponents1, -⟩ := h.exists_looks hsearch hcomponents
    have hentry : s.Entry m component (iso.found (.directory d1)) :=
      (h.entry_iff hstored hsearch hlooks).mpr ⟨i, .directory d1, hmem, hsame, rfl⟩
    have hne : rest ≠ [] := by
      rintro rfl
      rw [← hcomponents1] at hrest
      exact resolves_nil hrest
    have hstep := Descends.into hlooks hentry hne rfl
    obtain ⟨_, d2, _, hmem2, hsame2, _, h1⟩ := hstep.at hstored hsearch h
    have h1' : (⟨rest, (iso.found (.directory d1)).lba, (iso.found (.directory d1)).size,
        s.after m⟩ : Stage).At m iso d1 :=
      ⟨rfl, rfl, h1.active, h1.short, h1.text⟩
    obtain ⟨s', component', hwalks, hfinal⟩ := ih h1' hcomponents1
    exact ⟨s', component', Relation.ReflTransGen.head hstep hwalks, hfinal⟩

end Search

/-- On a well-formed disc a lookup succeeds exactly when the components of the normalized path lead
to an entry, where the directories can be read, fit into memory and are smaller than 2 GiB. -/
theorem find_resolves_iff {D F : Type} {iso : IsoVolume D F} {m : Medium} {alloc : Allocator}
    {stack : Mem} {path normalized : List UInt8} {host : Host} (hstored : iso.Stored m)
    (hreadable : iso.Readable m) (hsearch : iso.Searchable alloc) (hv : host.volume.Active m)
    (htext : 0 ∉ path) (hpath : rtlNormalizePath path 256 = some (some normalized)) (lba size : Nat) :
    (cdfsFindFile m alloc stack path host).result = some (some (lba, size)) ↔
      ∃ x, iso.Resolves iso.catalog.root (pathComponents normalized) x ∧
        iso.extent x = (lba, size) := by
  have hread : (sectorRead m 16 host.volume).1 = true := hreadable.descriptor _ hv
  have hcoherent := hv.reached.coherent
  have hroot : (rootStage m normalized host).At m iso iso.catalog.root := {
    lba := hstored.root_lba
    size := hstored.root_size
    active := hv.sectorRead (by decide)
    short := rtlNormalizePath_length hpath
    text := by
      have hforall := rtlNormalizePath_forall (P := (· ≠ 0)) (by decide) (by decide)
        (fun ch hch hz => htext (hz ▸ hch)) hpath
      exact fun hz => hforall 0 hz rfl }
  have hfind := cdfsFindFile_root alloc stack hcoherent hv.ready hread hpath
  have htold : Told m alloc (rootStage m normalized host) (cdfsFindFile m alloc stack path host) := by
    rw [hfind]
    exact Stage.find_told (Nat.lt_succ_self _) (cdfsReadSector_coherent hcoherent)
  have hleads := htold.leads fun s hwalks => hwalks.recordsFit hstored hreadable hsearch hroot
  constructor
  · intro hres
    obtain ⟨s, component, found, hwalks, hlooks, hentry, rfl, rfl, -⟩ :=
      (hleads lba size _).mp ⟨hres, rfl⟩
    obtain ⟨x, hresolves, rfl⟩ := hwalks.resolves hstored hsearch hlooks hentry hroot
    exact ⟨x, hresolves, (IsoVolume.found_extent x).symm⟩
  · rintro ⟨x, hresolves, hextent⟩
    obtain ⟨s, component, hwalks, hlooks, hentry⟩ := hresolves.walks hstored hsearch hroot rfl
    rw [← IsoVolume.found_extent x] at hextent
    cases hextent
    exact ((hleads _ _ _).mpr ⟨s, component, _, hwalks, hlooks, hentry, rfl, rfl, rfl⟩).1

def isoRecord (lba : UInt8) (size : List UInt8) (flags : UInt8) (name : List UInt8) : List UInt8 :=
  [UInt8.ofNat (33 + name.length), 0, lba, 0, 0, 0, 0, 0, 0, 0] ++ size ++ List.replicate 11 0 ++
    flags :: List.replicate 6 0 ++ UInt8.ofNat name.length :: name

/-- A disc with the file `A;1`, five bytes in sector 18, and an empty directory `D` in sector 19. The
root directory is in sector 17. -/
def sampleSegments : List (Nat × List UInt8) :=
  [(16 * 2048 + 158, [17]), (16 * 2048 + 166, [0, 8]),
    (17 * 2048, isoRecord 17 [0, 8, 0, 0] 2 [0] ++ isoRecord 17 [0, 8, 0, 0] 2 [1] ++
      isoRecord 18 [5, 0, 0, 0] 0 [65, 59, 49] ++ isoRecord 19 [0, 8, 0, 0] 2 [68]),
    (18 * 2048, [72, 69, 76, 76, 79]),
    (19 * 2048, isoRecord 19 [0, 8, 0, 0] 2 [0] ++ isoRecord 17 [0, 8, 0, 0] 2 [1])]

def sampleDisc : Medium where
  byte := fun lba off => ofSegments sampleSegments (lba * 2048 + off)
  readable := fun _ _ => true
  residue := fun _ _ _ buf => buf

def sampleVolume : IsoVolume Bool Unit where
  catalog := {
    root := false
    entries := fun
      | false => [(⟨[0], none⟩, .directory false), (⟨[1], none⟩, .directory false),
          (⟨[65], some [49]⟩, .file ()), (⟨[68], none⟩, .directory true)]
      | true => [(⟨[0], none⟩, .directory true), (⟨[1], none⟩, .directory false)] }
  extent := fun
    | .directory false => (17, 2048)
    | .directory true => (19, 2048)
    | .file _ => (18, 5)

theorem sampleDisc_padding {lba k p : Nat} (hlba : lba < 2 ^ 32)
    (hsegments : ∀ s ∈ sampleSegments, (lba + 1) * 2048 ≤ s.1 ∨ s.1 + s.2.length ≤ lba * 2048 + k)
    (hle : k ≤ p) (hlt : p < 2048) : sampleDisc.directory lba p = 0 := by
  have hsector : lba + p / sectorSize = lba := by simp only [sectorSize]; omega
  have hmod : p % sectorSize = p := Nat.mod_eq_of_lt hlt
  rw [Medium.directory, hsector, hmod, u32_of_lt hlba]
  apply ofSegments_zero
  intro s hs
  have := hsegments s hs
  omega

theorem sampleDisc_name (lba off : Nat) (i : Identifier)
    (h : ∀ k < i.bytes.length, i.bytes[k]? = some (sampleDisc.directory lba (off + 33 + k))) :
    ∀ k ch, i.bytes[k]? = some ch → sampleDisc.directory lba (off + 33 + k) = ch := by
  intro k ch hk
  rw [h k (List.getElem?_eq_some_iff.mp hk).1] at hk
  exact Option.some.inj hk

theorem sampleVolume_holds_root : Holds (sampleDisc.directory 17) (1 * sectorSize) 0
    [(⟨[0], none⟩, ⟨17, 2048, true⟩), (⟨[1], none⟩, ⟨17, 2048, true⟩),
      (⟨[65], some [49]⟩, ⟨18, 5, false⟩), (⟨[68], none⟩, ⟨19, 2048, true⟩)] := by
  have hself : RecordAt (sampleDisc.directory 17) 0 34 ⟨[0], none⟩ ⟨17, 2048, true⟩ :=
    ⟨by decide +kernel, by decide, by decide +kernel, by decide +kernel, by decide +kernel,
      by decide +kernel, sampleDisc_name _ _ _ (by decide +kernel)⟩
  have habove : RecordAt (sampleDisc.directory 17) 34 34 ⟨[1], none⟩ ⟨17, 2048, true⟩ :=
    ⟨by decide +kernel, by decide, by decide +kernel, by decide +kernel, by decide +kernel,
      by decide +kernel, sampleDisc_name _ _ _ (by decide +kernel)⟩
  have hfile : RecordAt (sampleDisc.directory 17) 68 36 ⟨[65], some [49]⟩ ⟨18, 5, false⟩ :=
    ⟨by decide +kernel, by decide, by decide +kernel, by decide +kernel, by decide +kernel,
      by decide +kernel, sampleDisc_name _ _ _ (by decide +kernel)⟩
  have hbelow : RecordAt (sampleDisc.directory 17) 104 34 ⟨[68], none⟩ ⟨19, 2048, true⟩ :=
    ⟨by decide +kernel, by decide, by decide +kernel, by decide +kernel, by decide +kernel,
      by decide +kernel, sampleDisc_name _ _ _ (by decide +kernel)⟩
  refine .record hself (by decide) (.record habove (by decide) (.record hfile (by decide)
    (.record hbelow (by decide) (.padding (by decide) ?_ .done))))
  exact fun p hle hlt => sampleDisc_padding (by decide) (by decide +kernel) hle hlt

theorem sampleVolume_holds_below : Holds (sampleDisc.directory 19) (1 * sectorSize) 0
    [(⟨[0], none⟩, ⟨19, 2048, true⟩), (⟨[1], none⟩, ⟨17, 2048, true⟩)] := by
  have hself : RecordAt (sampleDisc.directory 19) 0 34 ⟨[0], none⟩ ⟨19, 2048, true⟩ :=
    ⟨by decide +kernel, by decide, by decide +kernel, by decide +kernel, by decide +kernel,
      by decide +kernel, sampleDisc_name _ _ _ (by decide +kernel)⟩
  have habove : RecordAt (sampleDisc.directory 19) 34 34 ⟨[1], none⟩ ⟨17, 2048, true⟩ :=
    ⟨by decide +kernel, by decide, by decide +kernel, by decide +kernel, by decide +kernel,
      by decide +kernel, sampleDisc_name _ _ _ (by decide +kernel)⟩
  refine .record hself (by decide) (.record habove (by decide) (.padding (by decide) ?_ .done))
  exact fun p hle hlt => sampleDisc_padding (by decide) (by decide +kernel) hle hlt

theorem sampleVolume_stored : sampleVolume.Stored sampleDisc where
  root_lba := by decide +kernel
  root_size := by decide +kernel
  holds := by
    have hsectors : ∀ d, sampleVolume.sectors d = 1 := by decide
    intro d
    rw [hsectors d]
    cases d with
    | false => exact sampleVolume_holds_root
    | true => exact sampleVolume_holds_below
  valid := by
    have hall : ∀ d, ∀ e ∈ sampleVolume.catalog.entries d, e.1.name.length ≤ 30 ∧ 59 ∉ e.1.name ∧
        (0 ∉ e.1.name ∨ e.1.name = [0]) := by
      intro d
      cases d <;> simp [sampleVolume]
    exact fun d e he => ⟨(hall d e he).1, (hall d e he).2.1, (hall d e he).2.2⟩
  distinct := by
    intro d
    cases d <;> simp [sampleVolume, SameName, upper]

theorem sampleVolume_readable : sampleVolume.Readable sampleDisc where
  descriptor := sectorReadable_of_readable fun _ _ => rfl
  directories := fun _ _ _ => sectorReadable_of_readable fun _ _ => rfl

theorem sampleVolume_searchable : sampleVolume.Searchable plenty where
  memory := fun _ _ => by simp [plenty]
  small := by decide

theorem sampleVolume_resolves :
    sampleVolume.Resolves sampleVolume.catalog.root [[97]] (.file ()) := by
  have hmem : ((⟨[65], some [49]⟩ : Identifier), Node.file ()) ∈
      sampleVolume.catalog.entries sampleVolume.catalog.root := by simp [sampleVolume]
  exact .last hmem (by decide)

theorem newHost_active (m : Medium) : newHost.volume.Active m := ⟨newHost_reached m, rfl, rfl⟩

/-- The file is found under `/a`. -/
theorem find_resolves_iff_a :
    sampleVolume.Stored sampleDisc ∧ sampleVolume.Searchable plenty ∧
      (cdfsFindFile sampleDisc plenty (fun _ => 0) [47, 97] newHost).result =
        some (some (18, 5)) := by
  refine ⟨sampleVolume_stored, sampleVolume_searchable, ?_⟩
  apply (find_resolves_iff sampleVolume_stored sampleVolume_readable sampleVolume_searchable
    (newHost_active sampleDisc) (by decide)
    (by decide +kernel : rtlNormalizePath [47, 97] 256 = some (some [47, 97])) 18 5).mpr
  refine ⟨.file (), ?_, rfl⟩
  have hcomponents : pathComponents [47, 97] = [[97]] := by decide +kernel
  rw [hcomponents]
  exact sampleVolume_resolves

/-- Without memory for the root directory the same lookup fails. -/
theorem find_resolves_iff_full :
    sampleVolume.Stored sampleDisc ∧ sampleVolume.Readable sampleDisc ∧
      newHost.volume.Active sampleDisc ∧
      rtlNormalizePath [47, 97] 256 = some (some [47, 97]) ∧ pathComponents [47, 97] = [[97]] ∧
      sampleVolume.Resolves sampleVolume.catalog.root [[97]] (.file ()) ∧
      (cdfsFindFile sampleDisc (fun _ _ => none) (fun _ => 0) [47, 97] newHost).result =
        some none := by
  exact ⟨sampleVolume_stored, sampleVolume_readable, newHost_active sampleDisc, by decide +kernel,
    by decide +kernel, sampleVolume_resolves, by decide +kernel⟩

end DiscouNT.Cdfs
