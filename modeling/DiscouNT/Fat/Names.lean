import DiscouNT.Fat.Image
import Mathlib.Data.List.DropRight

/-!
# Fat.Names

Which components of a path are looked up under their own name. `short_name` drops what does not fit
into eight and three characters, and the blanks that fill up a field are not told from blanks of the
name, so an entry can be found for a component that is not its name (`find_entry_faithful_iff`).
-/

namespace DiscouNT.Fat

open Lib Rtl Cdfs List

def stripped (l : List UInt8) : List UInt8 := l.rdropWhile (· = 32)

def dotted (base ext : List UInt8) : List UInt8 := base ++ if ext = [] then [] else dot :: ext

/-- The 8.3 name in the name field of an entry, as it is written. -/
def fieldText (name : List UInt8) : List UInt8 := dotted (stripped (name.take 8)) (stripped (name.drop 8))

theorem stripped_append_replicate (l : List UInt8) (n : Nat) :
    stripped (l ++ List.replicate n 32) = stripped l := by
  induction n with
  | zero => rw [replicate_zero, append_nil]
  | succ n ih =>
    rw [replicate_succ', ← append_assoc, stripped, rdropWhile_concat_pos _ _ _ (by decide)]
    exact ih

theorem stripped_padded (k : Nat) (l : List UInt8) : stripped (padded k l) = stripped (l.take k) :=
  stripped_append_replicate _ _

def FitsField (k : Nat) (l : List UInt8) : Prop := l.length ≤ k ∧ l.getLast? ≠ some 32

instance (k : Nat) (l : List UInt8) : Decidable (FitsField k l) :=
  inferInstanceAs (Decidable (_ ∧ _))

theorem stripped_take_iff {k : Nat} {l : List UInt8} : stripped (l.take k) = l ↔ FitsField k l := by
  have hlast : ∀ l : List UInt8, stripped l = l ↔ l.getLast? ≠ some 32 := by
    intro l
    rw [stripped, rdropWhile_eq_self_iff]
    by_cases hne : l = []
    · simp [hne]
    · simp [getLast?_eq_some_getLast hne, hne]
  constructor
  · intro h
    have hlength : l.length ≤ k := by
      have hle := ( rdropWhile_prefix (p := (· = 32)) (l.take k)).length_le
      rw [show (l.take k).rdropWhile (· = 32) = l from h, length_take] at hle
      omega
    rw [take_of_length_le hlength] at h
    exact ⟨hlength, (hlast l).mp h⟩
  · rintro ⟨hlength, h⟩
    rw [take_of_length_le hlength]
    exact (hlast l).mpr h

theorem upper_eq_iff {ch k : UInt8} (hk : k.toNat < 65 ∨ 122 < k.toNat) : upper ch = k ↔ ch = k := by
  rw [upper]
  split
  · rename_i hch
    have hge : 97 ≤ ch.toNat := UInt8.le_iff_toNat_le.mp hch.1
    have hle : ch.toNat ≤ 122 := UInt8.le_iff_toNat_le.mp hch.2
    have hsub : (ch - 32).toNat = ch.toNat - 32 :=
      UInt8.toNat_sub_of_le ch 32 (UInt8.le_iff_toNat_le.mpr (Nat.le_trans (by decide) hge))
    constructor
    · intro h
      rw [h] at hsub
      omega
    · intro h
      rw [h] at hge hle
      omega
  · rfl

theorem upper_upper (ch : UInt8) : upper (upper ch) = upper ch := by
  by_cases hch : 97 ≤ ch ∧ ch ≤ 122
  · have hge : 97 ≤ ch.toNat := UInt8.le_iff_toNat_le.mp hch.1
    have hle : ch.toNat ≤ 122 := UInt8.le_iff_toNat_le.mp hch.2
    have hsub : (ch - 32).toNat = ch.toNat - 32 :=
      UInt8.toNat_sub_of_le ch 32 (UInt8.le_iff_toNat_le.mpr (Nat.le_trans (by decide) hge))
    have hnot : ¬ (97 ≤ ch - 32 ∧ ch - 32 ≤ 122) := by
      rw [UInt8.le_iff_toNat_le, hsub]
      rintro ⟨h, -⟩
      have h97 : (97 : UInt8).toNat = 97 := rfl
      omega
    rw [upper, upper, if_pos hch, if_neg hnot]
  · rw [upper, upper, if_neg hch, if_neg hch]

def baseOf (c : List UInt8) : List UInt8 := c.takeWhile (· ≠ dot)

def extOf (c : List UInt8) : List UInt8 := (c.dropWhile (· ≠ dot)).drop 1

/-- A component that is an 8.3 name as it is written: without a dot if it has no extension. -/
def Fits (c : List UInt8) : Prop :=
  FitsField 8 (baseOf c) ∧ (dot ∈ c → extOf c ≠ [] ∧ FitsField 3 (extOf c))

instance (c : List UInt8) : Decidable (Fits c) := inferInstanceAs (Decidable (_ ∧ (_ → _)))

theorem fitsField_map {k : Nat} {l : List UInt8} : FitsField k (l.map upper) ↔ FitsField k l := by
  have hlast : (l.map upper).getLast? = some 32 ↔ l.getLast? = some 32 := by
    rw [getLast?_map, Option.map_eq_some_iff]
    simp only [upper_eq_iff (k := 32) (.inl (by decide)), exists_eq_right]
  rw [FitsField, FitsField, length_map, Ne, Ne, hlast]

theorem padded_length_eq (k : Nat) (l : List UInt8) : (padded k l).length = k := by
  rw [padded, length_append, length_take, length_replicate]
  omega

theorem fieldText_shortName (c : List UInt8) : fieldText (shortName c) =
    dotted (stripped (((baseOf c).map upper).take 8)) (stripped (((extOf c).map upper).take 3)) := by
  have hlength := padded_length_eq 8 ((baseOf c).map upper)
  change dotted (stripped ((padded 8 ((baseOf c).map upper) ++ padded 3 ((extOf c).map upper)).take 8))
    (stripped ((padded 8 ((baseOf c).map upper) ++ padded 3 ((extOf c).map upper)).drop 8)) = _
  rw [take_left' hlength, drop_left' hlength, stripped_padded, stripped_padded]

theorem map_upper_eq (c : List UInt8) : c.map upper =
    (baseOf c).map upper ++ if dot ∈ c then dot :: (extOf c).map upper else [] := by
  have hsplit : baseOf c ++ c.dropWhile (· ≠ dot) = c := takeWhile_append_dropWhile
  have hrest : (c.dropWhile (· ≠ dot)).map upper =
      if dot ∈ c then dot :: (extOf c).map upper else [] := by
    by_cases hdot : dot ∈ c
    · rw [if_pos hdot, extOf]
      cases hdrop : c.dropWhile (· ≠ dot) with
      | nil =>
        have hall := dropWhile_eq_nil_iff.mp hdrop dot hdot
        simp at hall
      | cons ch rest =>
        have hhead := head?_dropWhile_not (· ≠ dot) c
        rw [hdrop] at hhead
        have hch : ch = dot := by simpa using hhead
        rw [hch]
        rfl
    · rw [if_neg hdot, dropWhile_eq_nil_iff.mpr]
      · rfl
      · intro ch hch
        simpa using fun heq : ch = dot => hdot (heq ▸ hch)
  rw [← hrest, ← map_append, hsplit]

theorem dot_not_mem_upper {l : List UInt8} (h : dot ∉ l) : dot ∉ l.map upper := by
  intro hmem
  obtain ⟨ch, hch, heq⟩ := mem_map.mp hmem
  rw [upper_eq_dot] at heq
  exact h (heq ▸ hch)

theorem dot_not_mem_baseOf (c : List UInt8) : dot ∉ baseOf c := by
  intro h
  have hne := mem_takeWhile_imp h
  simp at hne

theorem takeWhile_dotted {l rest : List UInt8} (h : dot ∉ l) (hrest : rest = [] ∨ rest.head? = some dot) :
    (l ++ rest).takeWhile (· ≠ dot) = l := by
  rw [takeWhile_append_of_pos]
  · rcases hrest with rfl | hrest
    · simp
    · cases rest with
      | nil => cases hrest
      | cons ch rest =>
        cases hrest
        simp
  · intro ch hch
    simpa using fun heq : ch = dot => h (heq ▸ hch)

theorem mem_of_stripped_take {k : Nat} {l : List UInt8} {ch : UInt8} (h : ch ∈ stripped (l.take k)) :
    ch ∈ l := by
  have hstart : stripped (l.take k) <+: l.take k := rdropWhile_prefix _ _
  exact mem_of_mem_take (hstart.subset h)

theorem dotted_map_upper {base ext : List UInt8} (hbase : ∀ ch ∈ base, upper ch = ch)
    (hext : ∀ ch ∈ ext, upper ch = ch) : (dotted base ext).map upper = dotted base ext := by
  have hall : ∀ ch ∈ dotted base ext, upper ch = ch := by
    intro ch hch
    rw [dotted, mem_append] at hch
    rcases hch with hch | hch
    · exact hbase ch hch
    · split at hch
      · cases hch
      · rcases mem_cons.mp hch with rfl | hch
        · decide
        · exact hext ch hch
  rw [map_congr_left hall, map_id']

theorem sameName_fieldText_iff (c : List UInt8) :
    SameName (fieldText (shortName c)) c ↔ Fits c := by
  have hbase : dot ∉ (baseOf c).map upper := dot_not_mem_upper (dot_not_mem_baseOf c)
  have hupper : ∀ (l : List UInt8) (k : Nat), ∀ ch ∈ stripped ((l.map upper).take k), upper ch = ch := by
    intro l k ch hch
    obtain ⟨ch', -, rfl⟩ := mem_map.mp (mem_of_stripped_take hch)
    exact upper_upper ch'
  rw [SameName, fieldText_shortName, dotted_map_upper (hupper _ 8) (hupper _ 3), map_upper_eq c, Fits]
  have hfits := @stripped_take_iff 8 ((baseOf c).map upper)
  have hfits' := @stripped_take_iff 3 ((extOf c).map upper)
  rw [fitsField_map] at hfits hfits'
  have hsub : dot ∉ stripped (((baseOf c).map upper).take 8) :=
    fun h => hbase (mem_of_stripped_take h)
  generalize stripped (((baseOf c).map upper).take 8) = base at hfits hsub ⊢
  generalize stripped (((extOf c).map upper).take 3) = ext at hfits' ⊢
  have htail : (if ext = [] then [] else dot :: ext) = [] ∨
      (if ext = [] then [] else dot :: ext).head? = some dot := by
    split <;> simp
  have htail' : (if dot ∈ c then dot :: (extOf c).map upper else []) = [] ∨
      (if dot ∈ c then dot :: (extOf c).map upper else []).head? = some dot := by
    split <;> simp
  rw [dotted]
  constructor
  · intro h
    -- The two names have the same part before the first dot, and the same rest.
    have heq : base = (baseOf c).map upper := by
      rw [← takeWhile_dotted hsub htail, h, takeWhile_dotted hbase htail']
    rw [heq, append_cancel_left_eq] at h
    refine ⟨hfits.mp heq, fun hdot => ?_⟩
    rw [if_pos hdot] at h
    by_cases hext : ext = []
    · rw [if_pos hext] at h
      cases h
    · rw [if_neg hext, List.cons.injEq] at h
      refine ⟨fun hnil => hext ?_, hfits'.mp h.2⟩
      rw [h.2, hnil]
      rfl
  · rintro ⟨hfield, hext⟩
    rw [hfits.mpr hfield]
    by_cases hdot : dot ∈ c
    · obtain ⟨hne, hfield'⟩ := hext hdot
      have heq := hfits'.mpr hfield'
      have hne' : ext ≠ [] := fun hnil => hne (map_eq_nil_iff.mp (heq.symm.trans hnil))
      rw [if_pos hdot, if_neg hne', heq]
    · have hnil : extOf c = [] := by
        rw [extOf, dropWhile_eq_nil_iff.mpr, drop_nil]
        intro ch hch
        simpa using fun heq : ch = dot => hdot (heq ▸ hch)
      rw [hnil] at hfits'
      have heq : ext = [] := hfits'.mpr ⟨Nat.zero_le _, by decide⟩
      rw [if_neg hdot, if_pos heq]

theorem scanSector_name {b : Mem} {wanted : List UInt8} {e : DirEntry} : ∀ {n off : Nat},
    scanSector b wanted n off = .found e →
      e.name = wanted ∧ ∃ off, b off ≠ 0xE5 ∧ nameAt b off = wanted := by
  intro n
  induction n with
  | zero => intro off h; cases h
  | succ n ih =>
    intro off h
    rw [scanSector] at h
    split_ifs at h with hzero hskip hname
    · exact ih h
    · cases h
      refine ⟨hname, off, fun hdeleted => hskip ?_, hname⟩
      rw [skipped, hdeleted]
      rfl
    · exact ih h

theorem scanCluster_name {m : Disk} {first : Nat} {wanted : List UInt8} {e : DirEntry} :
    ∀ {n s : Nat}, scanCluster m first wanted n s = .found e →
      e.name = wanted ∧ wanted.head? ≠ some 0xE5 := by
  intro n
  induction n with
  | zero => intro s h; cases h
  | succ n ih =>
    intro s h
    rw [scanCluster] at h
    split at h
    · cases h
    · split at h
      · exact ih h
      · obtain ⟨hname, off, hdeleted, hat⟩ := scanSector_name h
        refine ⟨hname, fun hhead => hdeleted ?_⟩
        rw [← hat] at hhead
        exact Option.some.inj hhead

theorem findEntry_name {m : Disk} {v : FatVolume} {wanted : List UInt8} {e : DirEntry} :
    ∀ {rounds cluster : Nat}, findEntry m v wanted rounds cluster = some (some e) →
      e.name = wanted ∧ wanted.head? ≠ some 0xE5 := by
  intro rounds
  induction rounds with
  | zero =>
    intro cluster h
    unfold findEntry at h
    split at h <;> cases h
  | succ rounds ih =>
    intro cluster h
    rw [findEntry] at h
    split at h
    · cases h
    · split at h
      · cases h
      · rename_i hscan
        cases h
        exact scanCluster_name hscan
      · exact ih h

/-! ## A volume for a name -/

def slotDisk (name : List UInt8) : Disk where
  byte p :=
    let i := p % bytesPerSector
    if i < 11 then name.getD i 0 else if i = 11 then 0x20 else 0
  readable _ := true

theorem slotDisk_sector (name : List UInt8) (lba : Nat) {k : Nat} (hk : k < 12) :
    (slotDisk name).sector lba k = if k < 11 then name.getD k 0 else 0x20 := by
  have hbytes : bytesPerSector = 512 := rfl
  have hmod : (lba * bytesPerSector + k) % bytesPerSector = k := by
    rw [hbytes]
    omega
  simp only [Disk.sector, slotDisk, hmod]
  by_cases hlt : k < 11
  · rw [if_pos hlt, if_pos hlt]
  · rw [if_neg hlt, if_neg hlt, if_pos (by omega)]

theorem scanSector_slotDisk {name : List UInt8} (hlength : name.length = 11)
    (hzero : name.head? ≠ some 0) (hdeleted : name.head? ≠ some 0xE5) (lba : Nat) :
    scanSector ((slotDisk name).sector lba) name 16 0 =
      .found (entryAt ((slotDisk name).sector lba) 0) ∧
      (entryAt ((slotDisk name).sector lba) 0).name = name := by
  have hbyte := fun k hk => @slotDisk_sector name lba k hk
  generalize (slotDisk name).sector lba = b at hbyte ⊢
  have hattributes : b (0 + 11) = 0x20 := hbyte 11 (by decide)
  have hfirst : name.head? = some (b 0) := by
    rw [hbyte 0 (by decide), if_pos (by decide), head?_eq_getElem?, getD_eq_getElem?_getD,
      getElem?_eq_getElem (by omega), Option.getD_some]
  have hname : nameAt b 0 = name := by
    apply ext_getElem
    · rw [nameAt, length_map, length_range, hlength]
    · intro k hk hk'
      rw [hlength] at hk'
      have hat := hbyte k (by omega)
      rw [if_pos hk', getD_eq_getElem?_getD, getElem?_eq_getElem (by omega),
        Option.getD_some] at hat
      simp [nameAt, hat]
  rw [hfirst, Ne, Option.some_inj] at hzero hdeleted
  have hkept : skipped b 0 = false := by
    rw [skipped, hattributes, decide_eq_false hdeleted]
    rfl
  refine ⟨?_, hname⟩
  rw [scanSector, if_neg hzero, hkept, if_neg Bool.false_ne_true, if_pos hname]

theorem findEntry_slotDisk {name : List UInt8} (hlength : name.length = 11)
    (hzero : name.head? ≠ some 0) (hdeleted : name.head? ≠ some 0xE5) :
    ∃ e, findEntry (slotDisk name) ⟨0, 0, 2, 1⟩ name 1 2 = some (some e) ∧ e.name = name := by
  obtain ⟨hscan, hname⟩ := scanSector_slotDisk hlength hzero hdeleted (u32 (clusterLba ⟨0, 0, 2, 1⟩ 2 + 0))
  refine ⟨_, ?_, hname⟩
  have hcluster : scanCluster (slotDisk name) (clusterLba ⟨0, 0, 2, 1⟩ 2) name 1 0 =
      .found (entryAt ((slotDisk name).sector (u32 (clusterLba ⟨0, 0, 2, 1⟩ 2 + 0))) 0) := by
    have hread : ∀ lba, (slotDisk name).readSector lba = some ((slotDisk name).sector lba) :=
      fun _ => rfl
    rw [scanCluster, hread]
    simp only [hscan]
  rw [findEntry, show isCluster 2 = true from rfl, Bool.not_true, if_neg Bool.false_ne_true]
  simp only [hcluster]

theorem shortName_head (c : List UInt8) :
    (shortName c).head? = some (if c.head?.getD dot = dot then 32 else upper (c.head?.getD dot)) := by
  cases c with
  | nil => rfl
  | cons ch c =>
    rw [head?_cons, Option.getD_some, shortName]
    by_cases hch : ch = dot
    · rw [if_pos hch, takeWhile_cons_of_neg (by simpa using hch)]
      rfl
    · rw [if_neg hch, takeWhile_cons_of_pos (by simpa using hch)]
      rfl

theorem shortName_length (c : List UInt8) : (shortName c).length = 11 := by
  rw [shortName, length_append, padded_length_eq, padded_length_eq]

theorem shortName_deleted_iff (c : List UInt8) :
    (shortName c).head? = some 0xE5 ↔ c.head? = some 0xE5 := by
  rw [shortName_head, Option.some_inj]
  cases c with
  | nil => decide
  | cons ch c =>
    rw [head?_cons, Option.getD_some, Option.some_inj]
    by_cases hch : ch = dot
    · rw [if_pos hch, hch]
      decide
    · rw [if_neg hch]
      exact upper_eq_iff (.inr (by decide))

theorem shortName_head_ne_zero {c : List UInt8} (hc : 0 ∉ c) : (shortName c).head? ≠ some 0 := by
  rw [shortName_head, Ne, Option.some_inj]
  cases c with
  | nil => decide
  | cons ch c =>
    rw [head?_cons, Option.getD_some]
    by_cases hch : ch = dot
    · rw [if_pos hch]
      decide
    · rw [if_neg hch, upper_eq_iff (.inl (by decide))]
      exact fun heq => hc (heq ▸ mem_cons_self)

/-- Where every entry that is found for a component is called so: the component fits into the fields
of a short name, or it starts with the mark of a deleted entry. -/
theorem find_entry_faithful_iff {c : List UInt8} (hc : 0 ∉ c) :
    (∀ (m : Disk) (v : FatVolume) (rounds cluster : Nat) (e : DirEntry),
      findEntry m v (shortName c) rounds cluster = some (some e) → SameName (fieldText e.name) c) ↔
      Fits c ∨ c.head? = some 0xE5 := by
  constructor
  · intro h
    by_cases hdeleted : c.head? = some 0xE5
    · exact .inr hdeleted
    · obtain ⟨e, he, hname⟩ := findEntry_slotDisk (shortName_length c) (shortName_head_ne_zero hc)
        (mt (shortName_deleted_iff c).mp hdeleted)
      have hsame := h _ _ _ _ e he
      rw [hname] at hsame
      exact .inl ((sameName_fieldText_iff c).mp hsame)
  · rintro (hfits | hdeleted) m v rounds cluster e he
    · rw [(findEntry_name he).1]
      exact (sameName_fieldText_iff c).mpr hfits
    · exact absurd ((shortName_deleted_iff c).mpr hdeleted) (findEntry_name he).2

/-- What is found for `a` is called `A`. -/
theorem find_entry_faithful_a :
    Fits [97] ∧ ∀ (m : Disk) (v : FatVolume) (rounds cluster : Nat) (e : DirEntry),
      findEntry m v (shortName [97]) rounds cluster = some (some e) →
        SameName (fieldText e.name) [97] :=
  ⟨by decide, (find_entry_faithful_iff (by decide)).mpr (.inl (by decide))⟩

/-- For `longfiles` the entry of `LONGFILE` is found. -/
theorem find_entry_cuts_names :
    let c : List UInt8 := [108, 111, 110, 103, 102, 105, 108, 101, 115]
    ∃ e, findEntry (slotDisk (shortName c)) ⟨0, 0, 2, 1⟩ (shortName c) 1 2 = some (some e) ∧
      ¬ SameName (fieldText e.name) c := by
  intro c
  obtain ⟨e, he, hname⟩ := findEntry_slotDisk (shortName_length c)
    (by decide : (shortName c).head? ≠ some 0) (by decide)
  refine ⟨e, he, ?_⟩
  rw [hname]
  decide

end DiscouNT.Fat
