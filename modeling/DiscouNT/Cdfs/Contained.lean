import DiscouNT.Cdfs.Fill
import DiscouNT.Cdfs.Scan

/-!
# Cdfs.Contained

What a lookup reads. Nothing on the disc is checked: a record may run over the end of its directory,
a sector that could not be read is searched like the others, and the size of a file is rounded up in
32 bits. `lookup_contained_iff` says for which discs none of this happens: the walk through the
directories on the disc (`Descends`) is followed record by record, independently of the code.
-/

namespace DiscouNT.Cdfs

open Lib Rtl Option Bool

/-- Where a lookup stands: what is left of the path, and the directory to be searched. -/
structure Stage where
  cursor : List UInt8
  lba : Nat
  size : Nat
  host : Host

namespace Stage

variable (m : Medium) (alloc : Allocator) (s : Stage)

def sectors : Nat := sectorCount s.size

def limit : Nat := scanLimit s.sectors

def reads : List Bool × Volume := sectorReads m s.lba s.sectors 0 s.host.volume

def after : Host where
  volume := (s.reads m).2
  ticks := s.host.ticks + 1

structure Looks (component rest : List UInt8) : Prop where
  next : rtlNextPathComponent s.cursor 256 = .next component rest
  memory : alloc s.host.ticks (s.sectors * sectorSize) ≠ none

def Entry (component : List UInt8) (found : Found) : Prop :=
  Finds (m.directory s.lba) s.limit component 0 found

/-- Every record that the search comes to lies, as far as it is looked at, in sectors of the
directory that were read. -/
def RecordsFit : Prop :=
  ∀ component rest, s.Looks alloc component rest →
    ∀ off, Comes (m.directory s.lba) s.limit component 0 off → off < s.limit →
      RecordFits (m.directory s.lba) (s.reads m).1 off

end Stage

section Walk

variable (m : Medium) (alloc : Allocator)

inductive Descends : Stage → Stage → Prop
  | into {s : Stage} {component rest : List UInt8} {found : Found} :
      s.Looks alloc component rest → s.Entry m component found → rest ≠ [] →
      found.isDirectory = true → Descends s ⟨rest, found.lba, found.size, s.after m⟩

def Walks : Stage → Stage → Prop := Relation.ReflTransGen (Descends m alloc)

/-- The path leads from `s` to an entry with this extent, and leaves the driver like this. -/
def Leads (s : Stage) (lba size : Nat) (host : Host) : Prop :=
  ∃ s' component found, Walks m alloc s s' ∧ s'.Looks alloc component [] ∧
    s'.Entry m component found ∧ lba = found.lba ∧ size = found.size ∧ host = s'.after m

def AllReadable (lba size : Nat) : Prop :=
  ∀ k, 255 * k < sectorCount size →
    m.readable (u32 (lba + 255 * k)) (min (sectorCount size - 255 * k) 255) = true

/-- A file that is read can be rounded up to whole sectors in 32 bits, and has no sector beyond the
last one with a 32-bit number. -/
def FileFits (lba size : Nat) (host : Host) : Prop :=
  alloc host.ticks (allocSize size) ≠ none → AllReadable m lba size →
    size + 2047 < 2 ^ 32 ∧ lba + sectorCount size ≤ 2 ^ 32

end Walk

def rootStage (m : Medium) (normalized : List UInt8) (host : Host) : Stage where
  cursor := normalized
  lba := readLE (m.byte 16) (156 + 2) 4
  size := readLE (m.byte 16) (156 + 10) 4
  host := { host with volume := (sectorRead m 16 host.volume).2 }

/-- The condition on the disc, for one path: the records on the way lie in directory sectors that
can be read, and the file at its end, if there is one, fits into 32 bits. -/
def DiscFits (m : Medium) (alloc : Allocator) (path : List UInt8) (host : Host) : Prop :=
  host.volume.cdromReady = true → (sectorRead m 16 host.volume).1 = true →
    ∀ normalized, rtlNormalizePath path 256 = some (some normalized) →
      (∀ s, Walks m alloc (rootStage m normalized host) s → s.RecordsFit m alloc) ∧
      ∀ lba size host', Leads m alloc (rootStage m normalized host) lba size host' →
        FileFits m alloc lba size host'

def Touch.Inside (t : Touch) : Prop :=
  t.off < t.sectors * sectorSize ∧ t.filled[t.off / sectorSize]? = some true

instance (t : Touch) : Decidable t.Inside := inferInstanceAs (Decidable (_ ∧ _))

/-- The bytes of an extent. There is no sector with a number that does not fit into 32 bits. -/
def extentByte (m : Medium) (lba i : Nat) : Option UInt8 :=
  if lba + i / sectorSize < 2 ^ 32 then some (m.extent lba i) else none

/-- Lookup and read end, look at directory bytes that were read only, and a file that is returned
is the extent that was found. -/
structure Contained (m : Medium) (alloc : Allocator) (stack : Mem) (path : List UInt8)
    (host : Host) : Prop where
  find_ends : (cdfsFindFile m alloc stack path host).result ≠ none
  read_ends : (cdfsReadFile m alloc stack path host).result ≠ none
  find_inside : ∀ t ∈ (cdfsFindFile m alloc stack path host).touched, t.Inside
  read_inside : ∀ t ∈ (cdfsReadFile m alloc stack path host).touched, t.Inside
  holds : ∀ r, (cdfsReadFile m alloc stack path host).result = some (some r) →
    r.size ≤ r.capacity ∧ ∃ lba, (cdfsFindFile m alloc stack path host).result =
      some (some (lba, r.size)) ∧ ∀ i < r.size, extentByte m lba i = some (r.buffer i)

section Buffer

variable {buf b : Mem} {filled : List Bool} {limit : Nat} {component : List UInt8}
variable (hagree : ∀ p, filled[p / sectorSize]? = some true → buf p = b p)

include hagree

theorem scanRecords_of_fits
    (hfits : ∀ off, Comes b limit component 0 off → off < limit → RecordFits b filled off) :
    scanRecords buf limit component (limit + 1) 0 = scanRecords b limit component (limit + 1) 0 := by
  apply scanRecords_congr
  intro o ho
  exact hagree o ((scanRecords_filled_iff (by omega)).mpr hfits o ho)

theorem scanRecords_inside_iff :
    (∀ o ∈ (scanRecords buf limit component (limit + 1) 0).2, filled[o / sectorSize]? = some true) ↔
      ∀ off, Comes b limit component 0 off → off < limit → RecordFits b filled off := by
  constructor
  · intro h
    have heq : scanRecords b limit component (limit + 1) 0 =
        scanRecords buf limit component (limit + 1) 0 :=
      scanRecords_congr fun o ho => (hagree o (h o ho)).symm
    rw [← heq] at h
    exact (scanRecords_filled_iff (by omega)).mp h
  · intro h
    rw [scanRecords_of_fits hagree h]
    exact (scanRecords_filled_iff (by omega)).mpr h

end Buffer

def afterScan (m : Medium) (alloc : Allocator) (rounds : Nat) (rest : List UInt8) (host : Host)
    (touched : List Touch) : Option (Option Found) → Outcome (Nat × Nat)
  | none => ⟨none, touched, host⟩
  | some none => ⟨some none, touched, host⟩
  | some (some found) =>
    if rest = [] then ⟨some (some (found.lba, found.size)), touched, host⟩
    else if found.isDirectory then
      let deeper := findLoop m alloc rounds rest found.lba found.size host
      ⟨deeper.result, touched ++ deeper.touched, deeper.host⟩
    else ⟨some none, touched, host⟩

section Find

variable {m : Medium} {alloc : Allocator}

def Stage.find (m : Medium) (alloc : Allocator) (rounds : Nat) (s : Stage) : Outcome (Nat × Nat) :=
  findLoop m alloc rounds s.cursor s.lba s.size s.host

variable (m) in
theorem Stage.find_stop {s : Stage} (rounds : Nat)
    (h : ∀ component rest, ¬ s.Looks alloc component rest) :
    (s.find m alloc (rounds + 1)).result = some none ∧
      (s.find m alloc (rounds + 1)).touched = [] := by
  rw [Stage.find, findLoop]
  cases hnext : rtlNextPathComponent s.cursor 256 with
  | failed => exact ⟨rfl, rfl⟩
  | finished => exact ⟨rfl, rfl⟩
  | next component rest =>
    cases halloc : alloc s.host.ticks (s.sectors * sectorSize) with
    | none =>
      rw [Stage.sectors] at halloc
      simp [Host.kmalloc, halloc]
    | some buf => exact absurd ⟨hnext, by simp [halloc]⟩ (h component rest)

theorem Stage.find_looks {s : Stage} {component rest : List UInt8}
    (h : s.Looks alloc component rest) (hv : s.host.volume.Coherent m) (rounds : Nat) :
    ∃ buf, (∀ p, (s.reads m).1[p / sectorSize]? = some true → buf p = m.directory s.lba p) ∧
      s.find m alloc (rounds + 1) = afterScan m alloc rounds rest (s.after m)
        ((scanRecords buf s.limit component (s.limit + 1) 0).2.map
          fun off => ⟨s.sectors, (s.reads m).1, off⟩)
        (scanRecords buf s.limit component (s.limit + 1) 0).1 := by
  cases halloc : alloc s.host.ticks (s.sectors * sectorSize) with
  | none => exact absurd halloc h.memory
  | some heap =>
    have hreads : (fillDirectory m s.lba s.sectors 0 heap s.host.volume).1 = (s.reads m).1 ∧
        (fillDirectory m s.lba s.sectors 0 heap s.host.volume).2.2 = (s.reads m).2 :=
      fillDirectory_reads s.sectors 0 heap s.host.volume
    refine ⟨(fillDirectory m s.lba s.sectors 0 heap s.host.volume).2.1,
      fun p hp => fillDirectory_eq_directory heap hv hp, ?_⟩
    rw [Stage.find, findLoop, h.next]
    rw [Stage.sectors] at halloc hreads
    simp only [Host.kmalloc, halloc, hreads]
    rfl

theorem findLoop_ends : ∀ {rounds : Nat} {cursor : List UInt8} {lba size : Nat} {host : Host},
    cursor.length < rounds → (findLoop m alloc rounds cursor lba size host).result ≠ none := by
  intro rounds
  induction rounds with
  | zero => intro cursor lba size host h; omega
  | succ rounds ih =>
    intro cursor lba size host h
    rw [findLoop]
    cases hnext : rtlNextPathComponent cursor 256 with
    | failed => simp
    | finished => simp
    | next component rest =>
      have hlt := rest_length_lt hnext
      cases halloc : alloc host.ticks (sectorCount size * sectorSize) with
      | none => simp [Host.kmalloc, halloc]
      | some buf =>
        simp only [Host.kmalloc, halloc]
        generalize fillDirectory m lba (sectorCount size) 0 buf host.volume = filled
        have hscan : (scanRecords filled.2.1 (scanLimit (sectorCount size)) component
            (scanLimit (sectorCount size) + 1) 0).1 ≠ none := scanRecords_ends (by omega)
        split
        · rename_i hnone
          exact absurd hnone hscan
        · simp
        · split
          · simp
          · split
            · exact ih (by omega)
            · simp

theorem Stage.Looks.unique {s : Stage} {component rest component' rest' : List UInt8}
    (h : s.Looks alloc component rest) (h' : s.Looks alloc component' rest') :
    component' = component ∧ rest' = rest := by
  have heq := h'.next
  rw [h.next] at heq
  cases heq
  exact ⟨rfl, rfl⟩

theorem Stage.entry_iff {s : Stage} {component : List UInt8} {found : Found} :
    s.Entry m component found ↔
      (scanRecords (m.directory s.lba) s.limit component (s.limit + 1) 0).1 = some (some found) :=
  (scanRecords_found_iff (by omega)).symm

theorem Stage.Entry.unique {s : Stage} {component : List UInt8} {found found' : Found}
    (h : s.Entry m component found) (h' : s.Entry m component found') : found' = found := by
  rw [Stage.entry_iff] at h h'
  rw [h] at h'
  cases h'
  rfl

theorem Walks.cases_start {s s' : Stage} (h : Walks m alloc s s') :
    s' = s ∨ ∃ s1, Descends m alloc s s1 ∧ Walks m alloc s1 s' := by
  rcases Relation.ReflTransGen.cases_head h with rfl | ⟨s1, hstep, hrest⟩
  · exact .inl rfl
  · exact .inr ⟨s1, hstep, hrest⟩

theorem Walks.eq_of_stop {s s' : Stage} (h : Walks m alloc s s')
    (hstop : ∀ s1, ¬ Descends m alloc s s1) : s' = s := by
  rcases h.cases_start with heq | ⟨s1, hstep, _⟩
  · exact heq
  · exact absurd hstep (hstop s1)

/-- The outcome of a lookup from stage `s` on, told from the disc. -/
structure Told (m : Medium) (alloc : Allocator) (s : Stage) (o : Outcome (Nat × Nat)) : Prop where
  inside : (∀ t ∈ o.touched, t.Inside) ↔ ∀ s', Walks m alloc s s' → s'.RecordsFit m alloc
  leads : (∀ s', Walks m alloc s s' → s'.RecordsFit m alloc) → ∀ lba size host,
    (o.result = some (some (lba, size)) ∧ o.host = host ↔ Leads m alloc s lba size host)

section Told

variable {s : Stage} {o : Outcome (Nat × Nat)}

theorem Told.here (hstop : ∀ s1, ¬ Descends m alloc s s1)
    (hinside : (∀ t ∈ o.touched, t.Inside) ↔ s.RecordsFit m alloc)
    (hleads : s.RecordsFit m alloc → ∀ lba size host,
      (o.result = some (some (lba, size)) ∧ o.host = host ↔ ∃ component found,
        s.Looks alloc component [] ∧ s.Entry m component found ∧ lba = found.lba ∧
          size = found.size ∧ host = s.after m)) : Told m alloc s o := by
  constructor
  · rw [hinside]
    constructor
    · intro hfits s' hwalks
      rw [hwalks.eq_of_stop hstop]
      exact hfits
    · intro hall
      exact hall s .refl
  · intro hall lba size host
    rw [hleads (hall s .refl)]
    constructor
    · rintro ⟨component, found, hlooks, hentry, hrest⟩
      exact ⟨s, component, found, .refl, hlooks, hentry, hrest⟩
    · rintro ⟨s', component, found, hwalks, hrest⟩
      rw [hwalks.eq_of_stop hstop] at hrest
      exact ⟨component, found, hrest⟩

theorem Told.outside {t : Touch} (ht : t ∈ o.touched) (hout : ¬ t.Inside)
    (hfits : ¬ s.RecordsFit m alloc) : Told m alloc s o := by
  constructor
  · constructor
    · intro hall
      exact absurd (hall t ht) hout
    · intro hall
      exact absurd (hall s .refl) hfits
  · intro hall
    exact absurd (hall s .refl) hfits

theorem walks_iff_of_descends {s1 : Stage} (hstep : Descends m alloc s s1) {s' : Stage} :
    Walks m alloc s s' ↔ s' = s ∨ Walks m alloc s1 s' := by
  constructor
  · intro h
    rcases h.cases_start with heq | ⟨s2, hstep', hrest⟩
    · exact .inl heq
    · cases hstep with
      | into hlooks hentry _ _ =>
        cases hstep' with
        | into hlooks' hentry' _ _ =>
          obtain ⟨rfl, rfl⟩ := hlooks.unique hlooks'
          rw [hentry.unique hentry'] at hrest
          exact .inr hrest
  · rintro (rfl | h)
    · exact .refl
    · exact Relation.ReflTransGen.head hstep h

theorem Told.deeper {s1 : Stage} (hstep : Descends m alloc s s1) {touched : List Touch}
    (hinside : ∀ t ∈ touched, t.Inside) (hfits : s.RecordsFit m alloc) (h : Told m alloc s1 o) :
    Told m alloc s ⟨o.result, touched ++ o.touched, o.host⟩ := by
  have hall_iff : (∀ s', Walks m alloc s s' → s'.RecordsFit m alloc) ↔
      ∀ s', Walks m alloc s1 s' → s'.RecordsFit m alloc := by
    constructor
    · intro hall s' hwalks
      exact hall s' ((walks_iff_of_descends hstep).mpr (.inr hwalks))
    · intro hall s' hwalks
      rcases (walks_iff_of_descends hstep).mp hwalks with rfl | hwalks
      · exact hfits
      · exact hall s' hwalks
  constructor
  · simp only [hall_iff, ← h.inside, List.forall_mem_append]
    exact ⟨fun hboth => hboth.2, fun hrest => ⟨hinside, hrest⟩⟩
  · intro hall lba size host
    rw [h.leads (hall_iff.mp hall)]
    constructor
    · rintro ⟨s', component, found, hwalks, hrest⟩
      exact ⟨s', component, found, (walks_iff_of_descends hstep).mpr (.inr hwalks), hrest⟩
    · rintro ⟨s', component, found, hwalks, hlooks, hrest⟩
      rcases (walks_iff_of_descends hstep).mp hwalks with rfl | hwalks
      · -- The path is not at its end where the walk goes on.
        cases hstep with
        | into hlooks' _ hne _ => exact absurd (hlooks'.unique hlooks).2.symm hne
      · exact ⟨s', component, found, hwalks, hlooks, hrest⟩

end Told

theorem Stage.touched_inside_iff {s : Stage} {component rest : List UInt8} {buf : Mem}
    (hlooks : s.Looks alloc component rest)
    (hagree : ∀ p, (s.reads m).1[p / sectorSize]? = some true → buf p = m.directory s.lba p) :
    (∀ t ∈ (scanRecords buf s.limit component (s.limit + 1) 0).2.map
        fun off => (⟨s.sectors, (s.reads m).1, off⟩ : Touch), t.Inside) ↔
      s.RecordsFit m alloc := by
  have hinside : ∀ off, Touch.Inside ⟨s.sectors, (s.reads m).1, off⟩ ↔
      (s.reads m).1[off / sectorSize]? = some true := by
    intro off
    refine ⟨fun h => h.2, fun h => ⟨?_, h⟩⟩
    have hlt := (List.getElem?_eq_some_iff.mp h).1
    rw [Stage.reads, sectorReads_length] at hlt
    exact Nat.lt_mul_of_div_lt hlt (by decide)
  rw [List.forall_mem_map]
  simp only [hinside]
  rw [scanRecords_inside_iff hagree]
  constructor
  · intro h component' rest' hlooks'
    obtain ⟨rfl, rfl⟩ := hlooks.unique hlooks'
    exact h
  · intro h
    exact h component rest hlooks

theorem subset_afterScan (rounds : Nat) (rest : List UInt8) (host : Host) (touched : List Touch)
    (scan : Option (Option Found)) {t : Touch} (ht : t ∈ touched) :
    t ∈ (afterScan m alloc rounds rest host touched scan).touched := by
  unfold afterScan
  repeat' split
  all_goals simp [ht]

theorem Stage.told_of_fits {s : Stage} {component rest : List UInt8} {touched : List Touch}
    {rounds : Nat} (hlooks : s.Looks alloc component rest) (hfits : s.RecordsFit m alloc)
    (hinside : ∀ t ∈ touched, t.Inside)
    (hdeeper : ∀ s1, Descends m alloc s s1 → Told m alloc s1 (s1.find m alloc rounds)) :
    Told m alloc s (afterScan m alloc rounds rest (s.after m) touched
      (scanRecords (m.directory s.lba) s.limit component (s.limit + 1) 0).1) := by
  have hinside_iff : (∀ t ∈ touched, t.Inside) ↔ s.RecordsFit m alloc :=
    ⟨fun _ => hfits, fun _ => hinside⟩
  have hstep_entry : ∀ {s1}, Descends m alloc s s1 →
      ∃ found, s.Entry m component found ∧ rest ≠ [] ∧ found.isDirectory = true := by
    rintro s1 ⟨hlooks', hentry, hne, hdir⟩
    obtain ⟨rfl, rfl⟩ := hlooks.unique hlooks'
    exact ⟨_, hentry, hne, hdir⟩
  cases hscan : (scanRecords (m.directory s.lba) s.limit component (s.limit + 1) 0).1 with
  | none => exact absurd hscan (scanRecords_ends (by omega))
  | some result =>
    cases result with
    | none =>
      have hnone : ∀ found, ¬ s.Entry m component found := by
        intro found hentry
        rw [Stage.entry_iff, hscan] at hentry
        cases hentry
      refine Told.here ?_ hinside_iff ?_
      · intro s1 hstep
        obtain ⟨found, hentry, _⟩ := hstep_entry hstep
        exact hnone found hentry
      · intro _ lba size host
        refine ⟨fun h => (some_ne_none _ (some.inj h.1).symm).elim, ?_⟩
        rintro ⟨component', found, hlooks', hentry, _⟩
        obtain ⟨rfl, _⟩ := hlooks.unique hlooks'
        exact absurd hentry (hnone found)
    | some found =>
      have hentry : s.Entry m component found := Stage.entry_iff.mpr hscan
      by_cases hend : rest = []
      · subst hend
        simp only [afterScan, if_true]
        refine Told.here ?_ hinside_iff ?_
        · intro s1 hstep
          obtain ⟨_, _, hne, _⟩ := hstep_entry hstep
          exact hne rfl
        · intro _ lba size host
          constructor
          · rintro ⟨hres, hhost⟩
            cases hres
            exact ⟨component, found, hlooks, hentry, rfl, rfl, hhost.symm⟩
          · rintro ⟨component', found', hlooks', hentry', rfl, rfl, rfl⟩
            obtain ⟨rfl, _⟩ := hlooks.unique hlooks'
            rw [hentry.unique hentry']
            exact ⟨rfl, rfl⟩
      by_cases hdir : found.isDirectory = true
      · have hstep : Descends m alloc s ⟨rest, found.lba, found.size, s.after m⟩ :=
          .into hlooks hentry hend hdir
        simp only [afterScan, hend, hdir, if_false, if_true]
        exact (hdeeper _ hstep).deeper hstep hinside hfits
      · simp only [afterScan, hend, hdir, if_false, false_eq_true]
        refine Told.here ?_ hinside_iff ?_
        · intro s1 hstep
          obtain ⟨found', hentry', _, hdir'⟩ := hstep_entry hstep
          rw [hentry.unique hentry'] at hdir'
          exact hdir hdir'
        · intro _ lba size host
          refine ⟨fun h => (some_ne_none _ (some.inj h.1).symm).elim, ?_⟩
          rintro ⟨component', found', hlooks', _⟩
          exact absurd (hlooks.unique hlooks').2.symm hend

theorem Stage.find_told : ∀ {rounds : Nat} {s : Stage}, s.cursor.length < rounds →
    s.host.volume.Coherent m → Told m alloc s (s.find m alloc rounds) := by
  intro rounds
  induction rounds with
  | zero => intro s h; omega
  | succ rounds ih =>
    intro s hlt hv
    by_cases hlooks : ∃ component rest, s.Looks alloc component rest
    · obtain ⟨component, rest, hlooks⟩ := hlooks
      obtain ⟨buf, hagree, heq⟩ := Stage.find_looks hlooks hv rounds
      have htouched := Stage.touched_inside_iff hlooks hagree
      rw [heq]
      by_cases hfits : s.RecordsFit m alloc
      · have hscan := scanRecords_of_fits hagree (hfits component rest hlooks)
        rw [hscan] at htouched ⊢
        refine Stage.told_of_fits hlooks hfits (htouched.mpr hfits) ?_
        rintro s1 ⟨hlooks', _, _, _⟩
        exact ih (Nat.lt_of_lt_of_le (rest_length_lt hlooks'.next) (by omega))
          (sectorReads_coherent _ _ hv)
      · rw [← htouched] at hfits
        push Not at hfits
        obtain ⟨t, ht, hout⟩ := hfits
        exact Told.outside (subset_afterScan _ _ _ _ _ ht) hout
          fun hfits => hout (htouched.mpr hfits t ht)
    · push Not at hlooks
      obtain ⟨hres, htouched⟩ := Stage.find_stop m rounds hlooks
      refine Told.here ?_ ?_ ?_
      · rintro s1 ⟨hlooks', _, _, _⟩
        exact hlooks _ _ hlooks'
      · rw [htouched]
        exact ⟨fun _ component rest h => absurd h (hlooks component rest), fun _ t ht => by cases ht⟩
      · intro _ lba size host
        rw [hres]
        refine ⟨fun h => (some_ne_none _ (some.inj h.1).symm).elim, ?_⟩
        rintro ⟨component, found, h, _⟩
        exact absurd h (hlooks component [])

end Find

/-! ## Reading the file -/

section Read

variable {m : Medium} {lba sectors : Nat}

def BatchesReadable (m : Medium) (lba sectors k : Nat) : Prop :=
  ∀ j, k ≤ j → 255 * j < sectors →
    m.readable (u32 (lba + 255 * j)) (min (sectors - 255 * j) 255) = true

theorem readLoop_ends : ∀ {rounds done : Nat} {buffer : Mem}, sectors - done ≤ rounds →
    readLoop m lba sectors rounds done buffer ≠ none := by
  intro rounds
  induction rounds with
  | zero =>
    intro done buffer h
    rw [readLoop, if_pos (by omega)]
    simp
  | succ rounds ih =>
    intro done buffer h
    rw [readLoop]
    by_cases hdone : sectors ≤ done
    · rw [if_pos hdone]; simp
    · rw [if_neg hdone]
      simp only
      split
      · simp
      · exact ih (by omega)

theorem readLoop_some_iff : ∀ {rounds k : Nat} {buffer : Mem}, sectors - 255 * k ≤ rounds →
    ((∃ buffer', readLoop m lba sectors rounds (255 * k) buffer = some (some buffer')) ↔
      BatchesReadable m lba sectors k) := by
  intro rounds
  induction rounds with
  | zero =>
    intro k buffer h
    rw [readLoop, if_pos (by omega)]
    exact ⟨fun _ j hj hlt => by omega, fun _ => ⟨buffer, rfl⟩⟩
  | succ rounds ih =>
    intro k buffer h
    rw [readLoop]
    by_cases hdone : sectors ≤ 255 * k
    · rw [if_pos hdone]
      exact ⟨fun _ j hj hlt => by omega, fun _ => ⟨buffer, rfl⟩⟩
    rw [if_neg hdone]
    simp only [Medium.readSectors]
    by_cases hr : m.readable (u32 (lba + 255 * k)) (min (sectors - 255 * k) 255) = true
    swap
    · simp only [hr, false_eq_true, if_false, Bool.not_false, if_true]
      refine ⟨by simp, fun h => ?_⟩
      exact absurd (h k (Nat.le_refl k) (by omega)) hr
    · simp only [hr, if_true, Bool.not_true, false_eq_true, if_false]
      have hsplit : BatchesReadable m lba sectors k ↔ BatchesReadable m lba sectors (k + 1) := by
        constructor
        · intro h j hj
          exact h j (by omega)
        · intro h j hj hlt
          rcases Nat.eq_or_lt_of_le hj with rfl | hj
          · exact hr
          · exact h j hj hlt
      rw [hsplit]
      by_cases hlast : sectors ≤ 255 * (k + 1)
      · -- The last batch, which may be a short one.
        have hend : sectors ≤ 255 * k + min (sectors - 255 * k) 255 := by omega
        unfold readLoop
        rw [if_pos hend]
        exact ⟨fun _ j hj hlt => by omega, fun _ => ⟨_, rfl⟩⟩
      · rw [show 255 * k + min (sectors - 255 * k) 255 = 255 * (k + 1) by omega]
        exact ih (by omega)

theorem readLoop_extent (hfits : lba + sectors ≤ 2 ^ 32) : ∀ {rounds done : Nat} {buffer : Mem},
    (∀ p < done * sectorSize, buffer p = m.extent lba p) → ∀ {buffer' : Mem},
      readLoop m lba sectors rounds done buffer = some (some buffer') →
        ∀ p < sectors * sectorSize, buffer' p = m.extent lba p := by
  intro rounds
  induction rounds with
  | zero =>
    intro done buffer hprefix buffer' h p hp
    rw [readLoop] at h
    split at h
    · rename_i hdone
      cases h
      exact hprefix p (Nat.lt_of_lt_of_le hp (Nat.mul_le_mul_right _ hdone))
    · cases h
  | succ rounds ih =>
    intro done buffer hprefix buffer' h p hp
    rw [readLoop] at h
    by_cases hdone : sectors ≤ done
    · rw [if_pos hdone] at h
      cases h
      exact hprefix p (Nat.lt_of_lt_of_le hp (Nat.mul_le_mul_right _ hdone))
    rw [if_neg hdone] at h
    have hlba : u32 (lba + done) = lba + done := u32_of_lt (by omega)
    simp only [Medium.readSectors, hlba] at h
    cases hr : m.readable (lba + done) (min (sectors - done) 255) with
    | false => simp [hr] at h
    | true =>
      simp only [hr, if_true, Bool.not_true, false_eq_true, if_false] at h
      refine ih ?_ h p hp
      intro q hq
      simp only [blit]
      rw [Nat.add_mul] at hq
      by_cases hin : done * sectorSize ≤ q
      · rw [if_pos ⟨hin, hq⟩, Nat.zero_add, ← extent_add_sectors,
          show done * sectorSize + (q - done * sectorSize) = q by omega]
      · rw [if_neg (by omega)]
        exact hprefix q (by omega)

theorem allReadable_iff {size : Nat} :
    AllReadable m lba size ↔ BatchesReadable m lba (sectorCount size) 0 := by
  constructor
  · intro h k _ hk
    exact h k hk
  · intro h k hk
    exact h k (Nat.zero_le k) hk

def readFound (m : Medium) (alloc : Allocator) (lba size : Nat) (host : Host) :
    Option (Option FileBuffer) :=
  match alloc host.ticks (allocSize size) with
  | none => some none
  | some buffer =>
    (readLoop m lba (sectorCount size) (sectorCount size) 0 buffer).map fun r =>
      r.map fun buffer => ⟨buffer, allocSize size, size⟩

variable {alloc : Allocator} {size : Nat} {host : Host}

theorem readFound_ends : readFound m alloc lba size host ≠ none := by
  rw [readFound]
  split
  · simp
  · simp only [ne_eq, map_eq_none_iff]
    exact readLoop_ends (by omega)

theorem readFound_cases {r : FileBuffer} (h : readFound m alloc lba size host = some (some r)) :
    r.capacity = allocSize size ∧ r.size = size ∧ ∃ buffer,
      alloc host.ticks (allocSize size) = some buffer ∧
        readLoop m lba (sectorCount size) (sectorCount size) 0 buffer = some (some r.buffer) := by
  rw [readFound] at h
  cases halloc : alloc host.ticks (allocSize size) with
  | none => simp [halloc] at h
  | some buffer =>
    simp only [halloc, map_eq_some_iff] at h
    obtain ⟨read, hread, buffer', hbuffer', rfl⟩ := h
    rw [hbuffer'] at hread
    exact ⟨rfl, rfl, buffer, rfl, hread⟩

theorem exists_readFound (halloc : alloc host.ticks (allocSize size) ≠ none)
    (hreadable : AllReadable m lba size) : ∃ r, readFound m alloc lba size host = some (some r) := by
  rw [readFound]
  cases hbuffer : alloc host.ticks (allocSize size) with
  | none => exact absurd hbuffer halloc
  | some buffer =>
    have hread : ∃ buffer', readLoop m lba (sectorCount size) (sectorCount size) (255 * 0) buffer =
        some (some buffer') := (readLoop_some_iff (Nat.sub_le _ _)).mpr (allReadable_iff.mp hreadable)
    obtain ⟨buffer', hread⟩ := hread
    rw [Nat.mul_zero] at hread
    exact ⟨⟨buffer', allocSize size, size⟩, by simp [hread]⟩

theorem size_le_allocSize_iff (hsize : size < 2 ^ 32) :
    size ≤ allocSize size ↔ size + 2047 < 2 ^ 32 := by
  have hcount : sectorCount size = (size + 2047) % 2 ^ 32 / sectorSize := rfl
  rw [allocSize]
  generalize sectorCount size = n at hcount ⊢
  by_cases hzero : n * sectorSize = 0
  · rw [if_pos hzero]
    simp only [sectorSize] at hcount hzero
    omega
  · rw [if_neg hzero]
    simp only [sectorSize] at hcount ⊢
    omega

theorem readFound_holds_iff (hlba : lba < 2 ^ 32) (hsize : size < 2 ^ 32) :
    (∀ r, readFound m alloc lba size host = some (some r) →
        size ≤ r.capacity ∧ ∀ i < size, extentByte m lba i = some (r.buffer i)) ↔
      FileFits m alloc lba size host := by
  constructor
  · intro h halloc hreadable
    obtain ⟨r, hr⟩ := exists_readFound halloc hreadable
    obtain ⟨hcapacity, hbytes⟩ := h r hr
    rw [(readFound_cases hr).1, size_le_allocSize_iff hsize] at hcapacity
    refine ⟨hcapacity, ?_⟩
    have hcount : sectorCount size = (size + 2047) / sectorSize := by
      rw [sectorCount, u32_of_lt hcapacity]
    by_cases hzero : size = 0
    · rw [hcount, hzero]
      simp only [sectorSize]
      omega
    · -- The last byte is in the last sector, which has a number.
      have hlast := hbytes (size - 1) (by omega)
      rw [extentByte] at hlast
      split at hlast
      · rename_i hlt
        rw [hcount]
        simp only [sectorSize] at hlt ⊢
        omega
      · cases hlast
  · intro h r hr
    obtain ⟨hcapacity, -, buffer, halloc, hread⟩ := readFound_cases hr
    have hreadable : AllReadable m lba size := by
      rw [allReadable_iff]
      exact (readLoop_some_iff (Nat.sub_le _ _)).mp ⟨r.buffer, hread⟩
    obtain ⟨hround, hend⟩ := h (by simp [halloc]) hreadable
    rw [hcapacity, size_le_allocSize_iff hsize]
    refine ⟨hround, fun i hi => ?_⟩
    have hcount : sectorCount size = (size + 2047) / sectorSize := by
      rw [sectorCount, u32_of_lt hround]
    have hextent := readLoop_extent hend (fun p hp => by omega) hread
    rw [hcount] at hend hextent
    rw [extentByte, if_pos (by simp only [sectorSize] at hend ⊢; omega),
      hextent i (by simp only [sectorSize]; omega)]

end Read

/-! ## The whole lookup -/

section Whole

variable {m : Medium} {alloc : Allocator} {stack : Mem} {path : List UInt8} {host : Host}

theorem Leads.lt {s : Stage} {lba size : Nat} {host' : Host}
    (h : Leads m alloc s lba size host') : lba < 2 ^ 32 ∧ size < 2 ^ 32 := by
  obtain ⟨s', component, found, _, _, ⟨off, _, _, _, _, rfl⟩, rfl, rfl, _⟩ := h
  exact ⟨readLE_lt _ 4 _, readLE_lt _ 4 _⟩

variable (alloc stack) in
theorem cdfsFindFile_stop
    (h : ¬ (host.volume.cdromReady = true ∧ (sectorRead m 16 host.volume).1 = true ∧
      ∃ normalized, rtlNormalizePath path 256 = some (some normalized))) :
    (cdfsFindFile m alloc stack path host).result = some none ∧
      (cdfsFindFile m alloc stack path host).touched = [] := by
  rw [cdfsFindFile]
  cases hready : host.volume.cdromReady with
  | false => exact ⟨rfl, rfl⟩
  | true =>
    simp only [cdfsReadSector_fst, cdfsReadSector_volume, Bool.not_true, false_eq_true,
      if_false]
    cases hread : (sectorRead m 16 host.volume).1 with
    | false => exact ⟨rfl, rfl⟩
    | true =>
      simp only [Bool.not_true, false_eq_true, if_false]
      cases hpath : rtlNormalizePath path 256 with
      | none => exact absurd hpath (rtlNormalizePath_ends path 256)
      | some normalized =>
        cases normalized with
        | none => exact ⟨rfl, rfl⟩
        | some normalized => exact absurd ⟨hready, hread, normalized, hpath⟩ h

variable (alloc stack) in
theorem cdfsFindFile_root {normalized : List UInt8} (hv : host.volume.Coherent m)
    (hready : host.volume.cdromReady = true) (hread : (sectorRead m 16 host.volume).1 = true)
    (hpath : rtlNormalizePath path 256 = some (some normalized)) :
    cdfsFindFile m alloc stack path host =
      (rootStage m normalized host).find m alloc (normalized.length + 1) := by
  have hok : (cdfsReadSector m 16 0 stack host.volume).1 = true := by
    rw [cdfsReadSector_fst]
    exact hread
  have hbytes : ∀ k < sectorSize, (cdfsReadSector m 16 0 stack host.volume).2.1 k = m.byte 16 k := by
    intro k hk
    have := cdfsReadSector_ok hv (by decide) hok hk
    rwa [Nat.zero_add] at this
  have hfield : ∀ p, p + 4 ≤ sectorSize →
      readLE (cdfsReadSector m 16 0 stack host.volume).2.1 p 4 = readLE (m.byte 16) p 4 :=
    fun p hp => readLE_congr fun i hi => hbytes _ (by omega)
  rw [cdfsFindFile]
  simp only [hready, hok, hpath, cdfsReadSector_volume, Bool.not_true, false_eq_true, if_false]
  rw [hfield _ (by decide), hfield _ (by decide)]
  rfl

theorem cdfsFindFile_ends : (cdfsFindFile m alloc stack path host).result ≠ none := by
  rw [cdfsFindFile]
  split
  · simp
  · simp only
    split
    · simp
    · split
      · rename_i hpath
        exact absurd hpath (rtlNormalizePath_ends path 256)
      · simp
      · exact findLoop_ends (by omega)

theorem cdfsReadFile_touched :
    (cdfsReadFile m alloc stack path host).touched = (cdfsFindFile m alloc stack path host).touched := by
  rw [cdfsReadFile]
  simp only
  split
  · rfl
  · rfl
  · split <;> rfl

theorem cdfsReadFile_of_found {lba size : Nat}
    (h : (cdfsFindFile m alloc stack path host).result = some (some (lba, size))) :
    (cdfsReadFile m alloc stack path host).result =
      readFound m alloc lba size (cdfsFindFile m alloc stack path host).host := by
  rw [cdfsReadFile, readFound]
  simp only [h, Host.kmalloc]
  cases alloc (cdfsFindFile m alloc stack path host).host.ticks (allocSize size) with
  | none => rfl
  | some buffer => rfl

theorem cdfsReadFile_of_missing (h : (cdfsFindFile m alloc stack path host).result = some none) :
    (cdfsReadFile m alloc stack path host).result = some none := by
  rw [cdfsReadFile]
  simp only [h]

theorem cdfsReadFile_ends : (cdfsReadFile m alloc stack path host).result ≠ none := by
  cases hfind : (cdfsFindFile m alloc stack path host).result with
  | none => exact absurd hfind cdfsFindFile_ends
  | some found =>
    cases found with
    | none => rw [cdfsReadFile_of_missing hfind]; simp
    | some extent => rw [cdfsReadFile_of_found hfind]; exact readFound_ends

/-- A lookup and a read end, look at bytes of the directory that were read and return the extent
that was found, exactly where the disc fits. -/
theorem lookup_contained_iff (hv : host.volume.Reached m) :
    Contained m alloc stack path host ↔ DiscFits m alloc path host := by
  by_cases hstart : host.volume.cdromReady = true ∧ (sectorRead m 16 host.volume).1 = true ∧
      ∃ normalized, rtlNormalizePath path 256 = some (some normalized)
  swap
  · obtain ⟨hres, htouched⟩ := cdfsFindFile_stop alloc stack hstart
    refine ⟨fun _ hready hread normalized hpath =>
      absurd ⟨hready, hread, normalized, hpath⟩ hstart, fun _ => ?_⟩
    refine ⟨cdfsFindFile_ends, cdfsReadFile_ends, ?_, ?_, ?_⟩
    · rw [htouched]
      exact fun t ht => by cases ht
    · rw [cdfsReadFile_touched, htouched]
      exact fun t ht => by cases ht
    · intro r hr
      rw [cdfsReadFile_of_missing hres] at hr
      cases hr
  obtain ⟨hready, hread, normalized, hpath⟩ := hstart
  have hfind := cdfsFindFile_root alloc stack hv.coherent hready hread hpath
  have htold : Told m alloc (rootStage m normalized host)
      (cdfsFindFile m alloc stack path host) := by
    rw [hfind]
    exact Stage.find_told (Nat.lt_succ_self _) (cdfsReadSector_coherent hv.coherent)
  constructor
  · intro h _ _ normalized' hpath'
    rw [hpath] at hpath'
    cases hpath'
    have hfits := htold.inside.mp h.find_inside
    refine ⟨hfits, fun lba size host' hleads => ?_⟩
    obtain ⟨hres, rfl⟩ := (htold.leads hfits lba size host').mpr hleads
    apply (readFound_holds_iff hleads.lt.1 hleads.lt.2).mp
    intro r hr
    rw [← cdfsReadFile_of_found hres] at hr
    obtain ⟨hcapacity, lba', hres', hbytes⟩ := h.holds r hr
    rw [hres] at hres'
    cases hres'
    exact ⟨hcapacity, hbytes⟩
  · intro h
    obtain ⟨hfits, hfile⟩ := h hready hread normalized hpath
    have hinside := htold.inside.mpr hfits
    refine ⟨cdfsFindFile_ends, cdfsReadFile_ends, hinside, ?_, ?_⟩
    · rw [cdfsReadFile_touched]
      exact hinside
    · intro r hr
      cases hres : (cdfsFindFile m alloc stack path host).result with
      | none => exact absurd hres cdfsFindFile_ends
      | some found =>
        cases found with
        | none =>
          rw [cdfsReadFile_of_missing hres] at hr
          cases hr
        | some extent =>
          obtain ⟨lba, size⟩ := extent
          have hleads := (htold.leads hfits lba size _).mp ⟨hres, rfl⟩
          rw [cdfsReadFile_of_found hres] at hr
          obtain ⟨hcapacity, hbytes⟩ :=
            (readFound_holds_iff hleads.lt.1 hleads.lt.2).mpr (hfile lba size _ hleads) r hr
          obtain ⟨-, rfl, -⟩ := readFound_cases hr
          exact ⟨hcapacity, lba, rfl, hbytes⟩

end Whole

/-- A disc whose sectors can all be read, with a root directory of one sector, number 17. -/
def discOf (directory : Nat → UInt8) : Medium where
  byte := fun lba off =>
    if lba = 16 then (if off = 158 then 17 else if off = 167 then 8 else 0)
    else if lba = 17 then directory off
    else 72
  readable := fun _ _ => true
  residue := fun _ _ _ buf => buf

def newHost : Host where
  volume := freshDrive
  ticks := 0

theorem newHost_reached (m : Medium) : newHost.volume.Reached m := ⟨freshDrive, [], rfl, rfl⟩

def plenty : Allocator := fun _ _ => some fun _ => 0

def fileA : Nat → UInt8 := fun off =>
  if off = 0 then 34 else if off = 2 then 18 else if off = 10 then 5 else if off = 32 then 1
  else if off = 33 then 65 else 0

/-- The file `A` is looked up and read as it should be. -/
theorem lookup_contained_iff_file :
    newHost.volume.Reached (discOf fileA) ∧
      Contained (discOf fileA) plenty (fun _ => 0) [65] newHost := by
  refine ⟨newHost_reached _, (lookup_contained_iff (newHost_reached _)).mpr ?_⟩
  intro _ _ normalized hpath
  have hnormalized : normalized = [65] := by
    rw [show rtlNormalizePath [65] 256 = some (some [65]) by decide +kernel] at hpath
    cases hpath
    rfl
  subst hnormalized
  -- The path has one component, so the root directory is the only one that is searched.
  have hlooks : ∀ {component rest},
      (rootStage (discOf fileA) [65] newHost).Looks plenty component rest →
        component = [65] ∧ rest = [] := by
    intro component rest h
    have hnext := h.next
    rw [show rtlNextPathComponent (rootStage (discOf fileA) [65] newHost).cursor 256 =
      .next [65] [] by decide +kernel] at hnext
    cases hnext
    exact ⟨rfl, rfl⟩
  have hstop : ∀ s1, ¬ Descends (discOf fileA) plenty (rootStage (discOf fileA) [65] newHost) s1 := by
    rintro s1 ⟨h, _, hne, _⟩
    exact hne (hlooks h).2
  refine ⟨fun s hwalks component rest h => ?_, ?_⟩
  · rw [hwalks.eq_of_stop hstop] at h ⊢
    rw [(hlooks h).1]
    exact (scanRecords_filled_iff (Nat.lt_succ_self _)).mp (by decide +kernel)
  · rintro lba size host ⟨s, component, found, hwalks, h, hentry, rfl, rfl, rfl⟩
    rw [hwalks.eq_of_stop hstop] at h hentry ⊢
    rw [(hlooks h).1, Stage.entry_iff] at hentry
    rw [show (scanRecords ((discOf fileA).directory (rootStage (discOf fileA) [65] newHost).lba)
      (rootStage (discOf fileA) [65] newHost).limit [65]
      ((rootStage (discOf fileA) [65] newHost).limit + 1) 0).1 = some (some ⟨18, 5, false⟩) by
        decide +kernel] at hentry
    cases hentry
    exact fun _ _ => by decide

def overrun : Nat → UInt8 := fun off => if off % 255 = 0 then 255 else 0

/-- The ninth record is read beyond the end of the directory. -/
theorem lookup_contained_iff_overrun :
    newHost.volume.Reached (discOf overrun) ∧
      ¬ Contained (discOf overrun) plenty (fun _ => 0) [65] newHost := by
  refine ⟨newHost_reached _, fun h => ?_⟩
  exact absurd h.find_inside (by decide +kernel)

end DiscouNT.Cdfs
