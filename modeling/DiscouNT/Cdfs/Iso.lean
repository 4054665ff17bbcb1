import DiscouNT.Cdfs.Scan

/-!
# Cdfs.Iso

The layout of an ISO 9660 directory, stated by itself and not after the code: a sequence of records,
none of which crosses the end of a sector, with zero bytes from the last record of a sector to its
end. Searching such a directory finds the entry whose name, without its version and without regard
to case, is the one that is searched for.
-/

namespace DiscouNT.Cdfs

open Lib List

def SameName (a b : List UInt8) : Prop := a.map upper = b.map upper

instance (a b : List UInt8) : Decidable (SameName a b) := inferInstanceAs (Decidable (_ = _))

theorem cdfsNameEqual_iff : ∀ {a b : List UInt8}, cdfsNameEqual a b = true ↔ SameName a b := by
  intro a
  induction a with
  | nil => intro b; cases b <;> simp [cdfsNameEqual, SameName]
  | cons x a ih =>
    intro b
    cases b with
    | nil => simp [cdfsNameEqual, SameName]
    | cons y b =>
      rw [cdfsNameEqual]
      by_cases h : upper x = upper y
      · rw [if_neg (not_not.mpr h), ih]
        simp [SameName, h]
      · rw [if_pos h]
        simp [SameName, h]

theorem upper_ne_zero {ch : UInt8} (h : ch ≠ 0) : upper ch ≠ 0 := by
  rw [upper]
  split
  · rename_i hch
    intro hz
    have hle : 97 ≤ ch.toNat := UInt8.le_iff_toNat_le.mp hch.1
    have hsub : (ch - 32).toNat = ch.toNat - 32 :=
      UInt8.toNat_sub_of_le ch 32 (UInt8.le_iff_toNat_le.mpr (Nat.le_trans (by decide) hle))
    rw [hz] at hsub
    simp at hsub
    omega
  · exact h

/-- The identifier of an entry: its name, and the version behind a semicolon. -/
structure Identifier where
  name : List UInt8
  version : Option (List UInt8)
deriving DecidableEq

def Identifier.bytes (i : Identifier) : List UInt8 :=
  i.name ++ match i.version with
    | none => []
    | some version => 59 :: version

/-- The names that a directory may hold. A single zero byte names the directory itself. -/
structure Identifier.Valid (i : Identifier) : Prop where
  short : i.name.length ≤ 30
  bare : 59 ∉ i.name
  text : 0 ∉ i.name ∨ i.name = [0]

structure RecordAt (b : Mem) (off len : Nat) (i : Identifier) (found : Found) : Prop where
  length : (b off).toNat = len
  room : 33 + i.bytes.length ≤ len
  lba : readLE b (off + 2) 4 = found.lba
  size : readLE b (off + 10) 4 = found.size
  kind : (b (off + 25)).toNat / 2 % 2 = 1 ↔ found.isDirectory = true
  nameLength : (b (off + 32)).toNat = i.bytes.length
  name : ∀ k ch, i.bytes[k]? = some ch → b (off + 33 + k) = ch

/-- From `off` to `limit` there are records with these identifiers, in this order. -/
inductive Holds (b : Mem) (limit : Nat) : Nat → List (Identifier × Found) → Prop
  | done : Holds b limit limit []
  | padding {off : Nat} {es : List (Identifier × Found)} : off < limit →
      (∀ p, off ≤ p → p < (off / sectorSize + 1) * sectorSize → b p = 0) →
      Holds b limit ((off / sectorSize + 1) * sectorSize) es → Holds b limit off es
  | record {off len : Nat} {i : Identifier} {found : Found} {es : List (Identifier × Found)} :
      RecordAt b off len i found → off / sectorSize = (off + len - 1) / sectorSize →
      Holds b limit (off + len) es → Holds b limit off ((i, found) :: es)

section Record

variable {b : Mem} {off len : Nat} {i : Identifier} {found : Found}

theorem entryName_bytes {suffix : List UInt8} (hsuffix : suffix = [] ∨ suffix.head? = some 59) :
    ∀ {name : List UInt8} {p : Nat}, 59 ∉ name →
      (∀ k ch, (name ++ suffix)[k]? = some ch → b (p + k) = ch) →
        entryName b (name ++ suffix).length p = name := by
  intro name
  induction name with
  | nil =>
    intro p _ hbytes
    rcases hsuffix with rfl | hhead
    · rfl
    · cases suffix with
      | nil => cases hhead
      | cons ch suffix =>
        have hch : ch = 59 := by simpa using hhead
        have hp : b p = 59 := by simpa [hch] using hbytes 0 ch (by simp)
        simp [entryName, hp]
  | cons ch name ih =>
    intro p hname hbytes
    have hp : b p = ch := by simpa using hbytes 0 ch (by simp)
    have hch : ch ≠ 59 := fun h => hname (by simp [h])
    have hrest : entryName b (name ++ suffix).length (p + 1) = name := by
      refine ih (fun h => hname (mem_cons_of_mem _ h)) ?_
      intro k ch' hk
      have := hbytes (k + 1) ch' (by simpa using hk)
      rwa [show p + (k + 1) = p + 1 + k by omega] at this
    rw [cons_append, length_cons, entryName, hp, if_neg hch, hrest]

section

variable (h : RecordAt b off len i found)
include h

theorem RecordAt.bytes_length_le : i.bytes.length ≤ 222 := by
  have hlt := (b off).toNat_lt
  have hlen := h.length
  have hroom := h.room
  omega

theorem RecordAt.ne_zero : b off ≠ 0 := by
  intro hz
  have hlen := h.length
  have hroom := h.room
  rw [hz] at hlen
  simp at hlen
  omega

theorem RecordAt.nameLength_eq :
    Cdfs.nameLength b off = i.bytes.length := by
  have hle := h.bytes_length_le
  rw [Cdfs.nameLength, h.nameLength]
  omega

theorem RecordAt.recordName_eq (hi : i.Valid) :
    recordName b off = cString i.name := by
  rw [recordName, h.nameLength_eq, Identifier.bytes]
  congr 1
  refine entryName_bytes ?_ hi.bare h.name
  cases i.version with
  | none => exact .inl rfl
  | some version => exact .inr rfl

theorem RecordAt.recordFound_eq : recordFound b off = found := by
  have hkind : decide ((b (off + 25)).toNat / 2 % 2 = 1) = found.isDirectory := by
    rw [Bool.eq_iff_iff, decide_eq_true_iff]
    exact h.kind
  rw [recordFound, h.lba, h.size, hkind]

theorem RecordAt.matches_iff (hi : i.Valid)
    {component : List UInt8} (hne : component ≠ []) (htext : 0 ∉ component) :
    cdfsNameEqual component (recordName b off) = true ↔ SameName component i.name := by
  rw [h.recordName_eq hi, cdfsNameEqual_iff]
  rcases hi.text with hname | hname
  · have hall : cString i.name = i.name := by
      rw [cString, takeWhile_eq_self_iff]
      intro ch hch
      simpa using fun hz : ch = 0 => hname (hz ▸ hch)
    rw [hall]
  · rw [hname]
    constructor
    · intro hsame
      exact absurd (map_eq_nil_iff.mp hsame) hne
    · intro hsame
      cases component with
      | nil => exact absurd rfl hne
      | cons ch tail =>
        have hch : upper ch = upper 0 := (List.cons.inj hsame).1
        exact absurd hch (upper_ne_zero fun hz => htext (by simp [hz]))

theorem RecordAt.fits
    (hsector : off / sectorSize = (off + len - 1) / sectorSize) {filled : List Bool}
    (hfilled : filled[off / sectorSize]? = some true) : RecordFits b filled off := by
  have hspan := nameSpan_le (b := b) (Cdfs.nameLength b off) (off + 33)
  have hroom := h.room
  rw [h.nameLength_eq] at hspan
  have hlast : (off + lookedAt b off - 1) / sectorSize = off / sectorSize := by
    rw [lookedAt, if_neg h.ne_zero, h.nameLength_eq]
    generalize nameSpan b i.bytes.length (off + 33) = span at hspan
    simp only [sectorSize] at hsector ⊢
    omega
  exact ⟨hfilled, by rw [hlast]; exact hfilled⟩

end

end Record

section Directory

variable {b : Mem} {limit : Nat} {component : List UInt8}

theorem Holds.le {off : Nat} {es : List (Identifier × Found)} (h : Holds b limit off es) :
    off ≤ limit := by
  induction h with
  | done => exact Nat.le_refl _
  | padding hlt _ _ _ => exact Nat.le_of_lt hlt
  | record _ _ _ ih => omega

theorem Holds.recordFits {sectors off : Nat} {es : List (Identifier × Found)} {filled : List Bool}
    (h : Holds b limit off es) (hlimit : limit = sectors * sectorSize)
    (hfilled : ∀ k < sectors, filled[k]? = some true) :
    ∀ off', Comes b limit component off off' → off' < limit → RecordFits b filled off' := by
  have hsector : ∀ p, p < limit → filled[p / sectorSize]? = some true := by
    intro p hp
    apply hfilled
    rw [hlimit] at hp
    exact Nat.div_lt_of_lt_mul (by rwa [Nat.mul_comm] at hp)
  induction h with
  | done =>
    intro off' hcomes hlt
    rw [hcomes.eq_of_stop (not_follows_end (Nat.lt_irrefl _))] at hlt
    exact absurd hlt (Nat.lt_irrefl _)
  | @padding off es hlt hzero _ ih =>
    have hb : b off = 0 := hzero off (Nat.le_refl _) (by simp only [sectorSize]; omega)
    intro off' hcomes hoff'
    rcases hcomes.cases_start with rfl | ⟨next, hstep, hrest⟩
    · refine ⟨hsector _ hoff', ?_⟩
      rw [lookedAt, if_pos hb, Nat.add_sub_cancel]
      exact hsector _ hoff'
    · rw [follows_functional hstep (.pad hlt hb)] at hrest
      exact ih off' hrest hoff'
  | @record off len i found es hrecord hcross hholds ih =>
    intro off' hcomes hoff'
    rcases hcomes.cases_start with rfl | ⟨next, hstep, hrest⟩
    · exact hrecord.fits hcross (hsector _ hoff')
    · have hnext : next = off + len := by
        cases hstep with
        | pad _ hz => exact absurd hz hrecord.ne_zero
        | next _ _ _ => rw [hrecord.length]
      rw [hnext] at hrest
      exact ih off' hrest hoff'

theorem Holds.finds_iff {off : Nat} {es : List (Identifier × Found)} (h : Holds b limit off es)
    (hvalid : ∀ e ∈ es, e.1.Valid) (hdistinct : es.Pairwise fun e e' => ¬ SameName e.1.name e'.1.name)
    (hne : component ≠ []) (htext : 0 ∉ component) {found : Found} :
    Finds b limit component off found ↔ ∃ i, (i, found) ∈ es ∧ SameName component i.name := by
  induction h with
  | done =>
    constructor
    · rintro ⟨off', hcomes, hlt, _⟩
      rw [hcomes.eq_of_stop (not_follows_end (Nat.lt_irrefl _))] at hlt
      exact absurd hlt (Nat.lt_irrefl _)
    · rintro ⟨i, hmem, _⟩
      cases hmem
  | @padding off es hlt hzero _ ih =>
    have hb : b off = 0 := hzero off (Nat.le_refl _) (by simp only [sectorSize]; omega)
    rw [finds_step (.pad hlt hb)]
    exact ih hvalid hdistinct
  | @record off len i found' es hrecord hcross hholds ih =>
    have hlt : off < limit := by
      have hle := hholds.le
      have hroom := hrecord.room
      omega
    have hi := hvalid _ mem_cons_self
    have hmatch := hrecord.matches_iff hi hne htext
    rw [pairwise_cons] at hdistinct
    by_cases hsame : SameName component i.name
    · rw [finds_here hlt hrecord.ne_zero (hmatch.mpr hsame), hrecord.recordFound_eq]
      constructor
      · rintro rfl
        exact ⟨i, mem_cons_self, hsame⟩
      · -- No other entry has the name.
        rintro ⟨i', hmem, hsame'⟩
        rcases mem_cons.mp hmem with heq | hmem
        · cases heq
          rfl
        · exact absurd (hsame.symm.trans hsame') (hdistinct.1 _ hmem)
    · have hdiff : cdfsNameEqual component (recordName b off) = false := by
        rw [Bool.eq_false_iff]
        exact fun h => hsame (hmatch.mp h)
      have hstep := Follows.next hlt hrecord.ne_zero hdiff
      rw [hrecord.length] at hstep
      rw [finds_step hstep, ih (fun e he => hvalid e (mem_cons_of_mem _ he)) hdistinct.2]
      constructor
      · rintro ⟨i', hmem, hsame'⟩
        exact ⟨i', mem_cons_of_mem _ hmem, hsame'⟩
      · rintro ⟨i', hmem, hsame'⟩
        rcases mem_cons.mp hmem with heq | hmem
        · cases heq
          exact absurd hsame' hsame
        · exact ⟨i', hmem, hsame'⟩

end Directory

end DiscouNT.Cdfs
