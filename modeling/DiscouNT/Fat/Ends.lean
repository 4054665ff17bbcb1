import DiscouNT.Fat.Mount
import DiscouNT.Lib.Orbit

/-!
# Fat.Ends

When `Fat32ReadFile` comes to an end. The loop over the clusters of a file copies at least a byte for
each of them (`copyChain_ends`), whatever the table says. The loop over the clusters of a directory
ends exactly if it comes to no cluster twice (`findEntry_ends_iff`).
-/

namespace DiscouNT.Fat

open Lib Rtl Cdfs List Option

/-- A cluster of a directory that the search goes through: all of its entries are in use or were
once, and none has the name. -/
def Barren (m : Disk) (v : FatVolume) (wanted : List UInt8) (cluster : Nat) : Prop :=
  ∀ lba ∈ sectorsFrom (clusterLba v cluster) v.sectorsPerCluster 0, m.readable lba = true ∧
    ∀ slot ∈ slotsFrom (m.sector lba) 16 0, slot 0 ≠ 0 ∧
      (skipped slot 0 = true ∨ nameAt slot 0 ≠ wanted)

instance (m : Disk) (v : FatVolume) (wanted : List UInt8) (cluster : Nat) :
    Decidable (Barren m v wanted cluster) :=
  inferInstanceAs (Decidable (∀ lba ∈ _, _))

/-- Where the search of a directory goes on after a cluster. -/
def searchNext (m : Disk) (v : FatVolume) (wanted : List UInt8) (cluster : Nat) : Option Nat :=
  if isCluster cluster = true ∧ Barren m v wanted cluster then some (nextCluster m v cluster) else none

def Circles (m : Disk) (v : FatVolume) (wanted : List UInt8) (cluster : Nat) : Prop :=
  ∃ i j a, i < j ∧ orbit (searchNext m v wanted) cluster i = some a ∧
    orbit (searchNext m v wanted) cluster j = some a

def Holds (m : Disk) (v : FatVolume) (wanted : List UInt8) (cluster : Nat) (e : DirEntry) : Prop :=
  ∃ a, Visits (searchNext m v wanted) cluster a ∧ isCluster a = true ∧
    scanCluster m (clusterLba v a) wanted v.sectorsPerCluster 0 = .found e

theorem scanSlots_more_iff {wanted : List UInt8} {l : List Mem} : scanSlots wanted l = .more ↔
    ∀ slot ∈ l, slot 0 ≠ 0 ∧ (skipped slot 0 = true ∨ nameAt slot 0 ≠ wanted) := by
  induction l with
  | nil => exact iff_of_true rfl fun slot h => by cases h
  | cons slot l ih =>
    rw [scanSlots, forall_mem_cons, ← ih]
    by_cases hzero : slot 0 = 0
    · rw [if_pos hzero]
      exact iff_of_false (fun h => by cases h) fun h => h.1.1 hzero
    rw [if_neg hzero]
    by_cases hskip : skipped slot 0 = true
    · rw [if_pos hskip]
      exact ⟨fun h => ⟨⟨hzero, .inl hskip⟩, h⟩, fun h => h.2⟩
    rw [if_neg hskip]
    by_cases hname : nameAt slot 0 = wanted
    · rw [if_pos hname]
      exact iff_of_false (fun h => by cases h) fun h => h.1.2.elim hskip fun hne => hne hname
    · rw [if_neg hname]
      exact ⟨fun h => ⟨⟨hzero, .inr hname⟩, h⟩, fun h => h.2⟩

section Search

variable {m : Disk} {v : FatVolume} {wanted : List UInt8}

theorem scanCluster_more_iff {first : Nat} : ∀ {n s : Nat},
    scanCluster m first wanted n s = .more ↔
      ∀ lba ∈ sectorsFrom first n s, m.readable lba = true ∧
        ∀ slot ∈ slotsFrom (m.sector lba) 16 0, slot 0 ≠ 0 ∧
          (skipped slot 0 = true ∨ nameAt slot 0 ≠ wanted) := by
  intro n
  induction n with
  | zero => exact iff_of_true rfl fun lba h => by cases h
  | succ n ih =>
    intro s
    rw [scanCluster, sectorsFrom, forall_mem_cons, ← ih, ← scanSlots_more_iff, ← scanSector_eq,
      Disk.readSector]
    by_cases hreadable : m.readable (u32 (first + s)) = true
    · rw [if_pos hreadable]
      simp only
      generalize scanSector (m.sector (u32 (first + s))) wanted 16 0 = scan
      cases scan <;> simp [hreadable]
    · rw [if_neg hreadable]
      exact iff_of_false (fun h => by cases h) fun h => hreadable h.1.1

theorem barren_iff {cluster : Nat} : Barren m v wanted cluster ↔
    scanCluster m (clusterLba v cluster) wanted v.sectorsPerCluster 0 = .more :=
  scanCluster_more_iff.symm

theorem searchNext_eq (cluster : Nat) : searchNext m v wanted cluster =
    if isCluster cluster = true ∧
        scanCluster m (clusterLba v cluster) wanted v.sectorsPerCluster 0 = .more then
      some (nextCluster m v cluster) else none :=
  if_congr (and_congr_right fun _ => barren_iff) rfl rfl

theorem findEntry_eq_none_iff : ∀ {rounds cluster : Nat},
    findEntry m v wanted rounds cluster = none ↔
      ∃ a, orbit (searchNext m v wanted) cluster rounds = some a ∧ isCluster a = true := by
  intro rounds
  induction rounds with
  | zero =>
    intro cluster
    unfold findEntry
    cases hcluster : isCluster cluster with
    | false => simp [hcluster]
    | true => simp [hcluster]
  | succ rounds ih =>
    intro cluster
    rw [findEntry, orbit_succ', searchNext_eq]
    cases hcluster : isCluster cluster with
    | false => simp
    | true =>
      cases scanCluster m (clusterLba v cluster) wanted v.sectorsPerCluster 0 with
      | ended => simp
      | found e => simp
      | more => simpa using ih

theorem findEntry_ends_iff_halts {cluster : Nat} :
    (∃ rounds, findEntry m v wanted rounds cluster ≠ none) ↔
      Halts (searchNext m v wanted) cluster := by
  constructor
  · rintro ⟨n, hn⟩
    refine ⟨n + 1, ?_⟩
    rw [orbit_succ, bind_eq_none_iff]
    intro a ha
    rw [searchNext, if_neg fun h => hn (findEntry_eq_none_iff.mpr ⟨a, ha, h.1⟩)]
  · rintro ⟨n, hn⟩
    refine ⟨n, fun hnone => ?_⟩
    obtain ⟨a, ha, -⟩ := findEntry_eq_none_iff.mp hnone
    rw [hn] at ha
    cases ha

theorem nextCluster_lt (cluster : Nat) : nextCluster m v cluster < 2 ^ 28 := by
  rw [nextCluster]
  split
  · decide
  · exact Nat.mod_lt _ (by decide)

theorem visits_finite (cluster : Nat) : Set.Finite {a | Visits (searchNext m v wanted) cluster a} := by
  refine (Set.finite_lt_nat (2 ^ 28 + cluster + 1)).subset ?_
  rintro a ⟨n, hn⟩
  cases n with
  | zero =>
    cases hn
    exact Nat.lt_succ_of_le (Nat.le_add_left _ _)
  | succ n =>
    rw [orbit_succ] at hn
    obtain ⟨b, -, hb⟩ := bind_eq_some_iff.mp hn
    rw [searchNext] at hb
    split_ifs at hb
    cases hb
    exact Nat.lt_of_lt_of_le (nextCluster_lt b) (by omega)

theorem findEntry_ends_iff {cluster : Nat} :
    (∃ rounds, findEntry m v wanted rounds cluster ≠ none) ↔ ¬ Circles m v wanted cluster := by
  rw [findEntry_ends_iff_halts, halts_iff (visits_finite cluster)]
  constructor
  · rintro honce ⟨i, j, a, hlt, hi, hj⟩
    exact Nat.ne_of_lt hlt (honce i j a hi hj)
  · intro h i j a hi hj
    rcases Nat.lt_trichotomy i j with hlt | heq | hlt
    · exact absurd ⟨i, j, a, hlt, hi, hj⟩ h
    · exact heq
    · exact absurd ⟨j, i, a, hlt, hj, hi⟩ h

theorem findEntry_mono {r : Option DirEntry} : ∀ {rounds rounds' cluster : Nat}, rounds ≤ rounds' →
    findEntry m v wanted rounds cluster = some r → findEntry m v wanted rounds' cluster = some r := by
  intro rounds
  induction rounds with
  | zero =>
    intro rounds' cluster _ h
    unfold findEntry at h ⊢
    split at h
    · rename_i hcluster
      rw [if_pos hcluster]
      exact h
    · cases h
  | succ rounds ih =>
    intro rounds' cluster hle h
    obtain ⟨k, rfl⟩ := Nat.exists_eq_succ_of_ne_zero (Nat.ne_of_gt (Nat.lt_of_lt_of_le rounds.succ_pos hle))
    rw [findEntry] at h ⊢
    split at h
    · rename_i hcluster
      rw [if_pos hcluster]
      exact h
    · rename_i hcluster
      rw [if_neg hcluster]
      cases hscan : scanCluster m (clusterLba v cluster) wanted v.sectorsPerCluster 0 with
      | ended => rw [hscan] at h; exact h
      | found e => rw [hscan] at h; exact h
      | more =>
        rw [hscan] at h
        exact ih (Nat.le_of_succ_le_succ hle) h

theorem holds_of_findEntry {e : DirEntry} : ∀ {rounds cluster : Nat},
    findEntry m v wanted rounds cluster = some (some e) → Holds m v wanted cluster e := by
  intro rounds
  induction rounds with
  | zero =>
    intro cluster h
    unfold findEntry at h
    split at h <;> cases h
  | succ rounds ih =>
    intro cluster h
    rw [findEntry] at h
    split at h
    · cases h
    · rename_i hcluster
      have hcluster' : isCluster cluster = true := by simpa using hcluster
      cases hscan : scanCluster m (clusterLba v cluster) wanted v.sectorsPerCluster 0 with
      | ended => rw [hscan] at h; cases h
      | found e' =>
        rw [hscan] at h
        cases h
        exact ⟨cluster, visits_iff.mpr (.inl rfl), hcluster', hscan⟩
      | more =>
        rw [hscan] at h
        obtain ⟨a, hvisits, ha, hfound⟩ := ih h
        exact ⟨a, visits_iff.mpr (.inr ⟨_, if_pos ⟨hcluster', barren_iff.mpr hscan⟩, hvisits⟩), ha,
          hfound⟩

theorem findEntry_of_holds {cluster : Nat} {e : DirEntry} (h : Holds m v wanted cluster e)
    {rounds : Nat} (hends : findEntry m v wanted rounds cluster ≠ none) :
    findEntry m v wanted rounds cluster = some (some e) := by
  obtain ⟨a, ⟨k, hk⟩, ha, hfound⟩ := h
  induction k generalizing cluster rounds with
  | zero =>
    cases hk
    cases rounds with
    | zero => exact absurd (findEntry_eq_none_iff.mpr ⟨_, rfl, ha⟩) hends
    | succ rounds =>
      rw [findEntry, ha, hfound]
      rfl
  | succ k ih =>
    rw [orbit_succ', searchNext_eq] at hk
    obtain ⟨y, hy, hrest⟩ := bind_eq_some_iff.mp hk
    split_ifs at hy with hmore
    cases hy
    cases rounds with
    | zero => exact absurd (findEntry_eq_none_iff.mpr ⟨cluster, rfl, hmore.1⟩) hends
    | succ rounds =>
      have hstep : findEntry m v wanted (rounds + 1) cluster =
          findEntry m v wanted rounds (nextCluster m v cluster) := by
        rw [findEntry, hmore.1, hmore.2]
        rfl
      rw [hstep] at hends ⊢
      exact ih hends hrest

end Search

def component (cursor : List UInt8) : List UInt8 := cursor.takeWhile (!rtlIsPathSeparator ·)

def restOf (cursor : List UInt8) : List UInt8 :=
  (cursor.dropWhile (!rtlIsPathSeparator ·)).dropWhile rtlIsPathSeparator

inductive Stuck (m : Disk) (v : FatVolume) : List UInt8 → Nat → Prop
  | circle {cursor : List UInt8} {directory : Nat} :
      Circles m v (shortName (component cursor)) directory → Stuck m v cursor directory
  | further {cursor : List UInt8} {directory : Nat} {e : DirEntry} :
      Holds m v (shortName (component cursor)) directory e → restOf cursor ≠ [] →
        e.isDirectory = true → Stuck m v (restOf cursor) e.cluster → Stuck m v cursor directory

section Walk

variable {m : Disk} {v : FatVolume}

theorem walkPath_succ (rounds steps : Nat) (cursor : List UInt8) (directory : Nat) :
    walkPath m v rounds (steps + 1) cursor directory =
      match findEntry m v (shortName (component cursor)) rounds directory with
      | none => none
      | some none => some none
      | some (some entry) =>
        if restOf cursor = [] then some (some entry)
        else if entry.isDirectory then walkPath m v rounds steps (restOf cursor) entry.cluster
        else some none := rfl

theorem Stuck.walkPath {cursor : List UInt8} {directory : Nat} (h : Stuck m v cursor directory)
    (rounds steps : Nat) : Fat.walkPath m v rounds steps cursor directory = none := by
  induction h generalizing steps with
  | @circle cursor directory hcircles =>
    cases steps with
    | zero => rfl
    | succ steps =>
      have hnone : findEntry m v (shortName (component cursor)) rounds directory = none := by
        by_contra hends
        exact findEntry_ends_iff.mp ⟨rounds, hends⟩ hcircles
      rw [walkPath_succ, hnone]
  | @further cursor directory e hholds hrest hdirectory _ ih =>
    cases steps with
    | zero => rfl
    | succ steps =>
      rw [walkPath_succ]
      by_cases hends : findEntry m v (shortName (component cursor)) rounds directory = none
      · rw [hends]
      · rw [findEntry_of_holds hholds hends]
        simp only
        rw [if_neg hrest, if_pos hdirectory]
        exact ih steps

theorem walkPath_mono {r : Option DirEntry} {rounds rounds' : Nat} (hle : rounds ≤ rounds') :
    ∀ {steps : Nat} {cursor : List UInt8} {directory : Nat},
      walkPath m v rounds steps cursor directory = some r →
        walkPath m v rounds' steps cursor directory = some r := by
  intro steps
  induction steps with
  | zero => intro cursor directory h; cases h
  | succ steps ih =>
    intro cursor directory h
    rw [walkPath_succ] at h ⊢
    cases hfind : findEntry m v (shortName (component cursor)) rounds directory with
    | none => rw [hfind] at h; cases h
    | some found =>
      rw [hfind] at h
      rw [findEntry_mono hle hfind]
      cases found with
      | none => exact h
      | some entry =>
        simp only at h ⊢
        split_ifs at h ⊢
        · exact h
        · exact ih h
        · exact h

theorem length_restOf {cursor : List UInt8} (h : restOf cursor ≠ []) :
    (restOf cursor).length < cursor.length := by
  have h1 := length_dropWhile_le rtlIsPathSeparator (cursor.dropWhile (!rtlIsPathSeparator ·))
  cases cursor with
  | nil => exact absurd rfl h
  | cons ch cursor =>
    by_cases hch : rtlIsPathSeparator ch = true
    · have h2 := length_dropWhile_le rtlIsPathSeparator cursor
      have heq : restOf (ch :: cursor) = cursor.dropWhile rtlIsPathSeparator := by
        rw [restOf, dropWhile_cons_of_neg (by simp [hch]), dropWhile_cons_of_pos hch]
      rw [heq, length_cons]
      omega
    · have h2 := length_dropWhile_le (!rtlIsPathSeparator ·) cursor
      rw [dropWhile_cons_of_pos (by simpa using hch)] at h1
      have heq : restOf (ch :: cursor) =
          (cursor.dropWhile (!rtlIsPathSeparator ·)).dropWhile rtlIsPathSeparator := by
        rw [restOf, dropWhile_cons_of_pos (by simpa using hch)]
      rw [heq, length_cons]
      omega

theorem walkPath_ends_iff : ∀ {steps : Nat} {cursor : List UInt8} {directory : Nat},
    cursor.length < steps →
      ((∃ rounds, walkPath m v rounds steps cursor directory ≠ none) ↔
        ¬ Stuck m v cursor directory) := by
  intro steps
  induction steps with
  | zero => intro cursor directory h; omega
  | succ steps ih =>
    intro cursor directory hlt
    constructor
    · rintro ⟨rounds, hends⟩ hstuck
      exact hends (hstuck.walkPath rounds _)
    · intro hfree
      obtain ⟨n, hn⟩ := findEntry_ends_iff.mpr fun h => hfree (.circle h)
      obtain ⟨found, hfind⟩ := ne_none_iff_exists'.mp hn
      cases found with
      | none => exact ⟨n, by rw [walkPath_succ, hfind]; exact some_ne_none _⟩
      | some e =>
        by_cases hrest : restOf cursor = []
        · refine ⟨n, ?_⟩
          rw [walkPath_succ, hfind]
          simp [hrest]
        by_cases hdirectory : e.isDirectory = true
        · have hbelow : ¬ Stuck m v (restOf cursor) e.cluster :=
            fun h => hfree (.further (holds_of_findEntry hfind) hrest hdirectory h)
          have hlen := length_restOf hrest
          obtain ⟨k, hk⟩ := (ih (by omega)).mpr hbelow
          obtain ⟨r, hr⟩ := ne_none_iff_exists'.mp hk
          refine ⟨max n k, ?_⟩
          rw [walkPath_succ, findEntry_mono (Nat.le_max_left n k) hfind]
          simp only
          rw [if_neg hrest, if_pos hdirectory, walkPath_mono (Nat.le_max_right n k) hr]
          exact some_ne_none r
        · refine ⟨n, ?_⟩
          rw [walkPath_succ, hfind]
          simp [hrest, hdirectory]

end Walk

/-! ## The copy -/

section Copy

variable {m : Disk} {v : FatVolume} {size : Nat}

theorem copyCluster_progress {first : Nat} : ∀ {n s copied copied' : Nat} {buffer buffer' : Mem},
    copyCluster m first size n s copied buffer = some (copied', buffer') →
      copied ≤ copied' ∧ (0 < n → copied < size → copied < copied') := by
  intro n
  induction n with
  | zero =>
    intro s copied copied' buffer buffer' h
    cases h
    exact ⟨Nat.le_refl _, fun h => absurd h (Nat.lt_irrefl 0)⟩
  | succ n ih =>
    intro s copied copied' buffer buffer' h
    have hbytes : bytesPerSector = 512 := rfl
    rw [copyCluster] at h
    by_cases hfull : size ≤ copied
    · rw [if_pos hfull] at h
      cases h
      exact ⟨Nat.le_refl _, fun _ hlt => by omega⟩
    · rw [if_neg hfull] at h
      cases hread : m.readSector (u32 (first + s)) with
      | none => rw [hread] at h; cases h
      | some sector =>
        rw [hread] at h
        have hrest := (ih h).1
        constructor
        · omega
        · intro _ _
          omega

theorem copyChain_ends (hsectors : 0 < v.sectorsPerCluster) :
    ∀ {rounds cluster copied : Nat} {buffer : Mem}, size ≤ copied + rounds →
      copyChain m v size rounds cluster copied buffer ≠ none := by
  intro rounds
  induction rounds with
  | zero =>
    intro cluster copied buffer hle
    unfold copyChain
    rw [if_pos (by simp; omega)]
    exact some_ne_none _
  | succ rounds ih =>
    intro cluster copied buffer hle
    rw [copyChain]
    split
    · exact some_ne_none _
    · rename_i hgo
      have hlt : copied < size := by
        simp only [Bool.or_eq_true, decide_eq_true_iff, not_or] at hgo
        omega
      split
      · exact some_ne_none _
      · rename_i copied' buffer' hcopy
        have hmore := (copyCluster_progress hcopy).2 hsectors hlt
        exact ih (by omega)

theorem readEntry_ends (hsectors : 0 < v.sectorsPerCluster) {alloc : Allocator} {rounds tick : Nat}
    {entry : DirEntry} (hle : entry.size ≤ rounds) : readEntry m v alloc rounds tick entry ≠ none := by
  have hcopy : ∀ buffer, copyChain m v entry.size rounds entry.cluster 0 buffer ≠ none :=
    fun buffer => copyChain_ends hsectors (by omega)
  rw [readEntry]
  split
  · exact some_ne_none _
  · simp only
    split
    · exact some_ne_none _
    · rw [Ne, map_eq_none_iff]
      exact hcopy _

end Copy

theorem fat32ReadFile_ends_iff {m : Disk} {v : FatVolume} (hsectors : 0 < v.sectorsPerCluster)
    {alloc : Allocator} {path : List UInt8} {tick : Nat} :
    (∃ rounds, fat32ReadFile m v alloc rounds path tick ≠ none) ↔
      (alloc tick bytesPerSector ≠ none →
        ¬ Stuck m v (path.dropWhile rtlIsPathSeparator) v.rootCluster) := by
  have hlen : (path.dropWhile rtlIsPathSeparator).length < path.length + 1 :=
    Nat.lt_succ_of_le (length_dropWhile_le _ _)
  simp only [fat32ReadFile]
  cases halloc : alloc tick bytesPerSector with
  | none => exact iff_of_true ⟨0, some_ne_none _⟩ fun h => absurd rfl h
  | some _ =>
    simp only [ne_eq, reduceCtorEq, not_false_eq_true, forall_const, ← walkPath_ends_iff hlen]
    constructor
    · rintro ⟨rounds, hends⟩
      exact ⟨rounds, fun hnone => hends (by rw [hnone])⟩
    · rintro ⟨n, hn⟩
      obtain ⟨r, hr⟩ := ne_none_iff_exists'.mp hn
      cases r with
      | none => exact ⟨n, by rw [hr]; exact some_ne_none _⟩
      | some e =>
        refine ⟨max n e.size, ?_⟩
        rw [walkPath_mono (Nat.le_max_left n e.size) hr]
        exact readEntry_ends hsectors (Nat.le_max_right n e.size)

end DiscouNT.Fat
