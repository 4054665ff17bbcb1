import DiscouNT.Cdfs.Lookup

/-!
# Cdfs.Scan

The loop over the records of a directory.

* `scanRecords_congr`: the loop depends on the bytes it looks at and on no others.
* `Follows` and `Finds` say which records the loop comes to and which one it finds, as relations on
  the bytes of a directory.
* `scanRecords_found_iff` and `scanRecords_touched_iff`: what the loop returns and which bytes it
  looks at, in terms of these relations.
-/

namespace DiscouNT.Cdfs

open Lib List

theorem name_congr {buf buf' : Mem} : ∀ (n p : Nat),
    (∀ o ∈ List.range' p (nameSpan buf n p), buf' o = buf o) →
      nameSpan buf' n p = nameSpan buf n p ∧ entryName buf' n p = entryName buf n p := by
  intro n
  induction n with
  | zero => intro p _; exact ⟨rfl, rfl⟩
  | succ n ih =>
    intro p h
    have hp : buf' p = buf p := by
      apply h
      rw [nameSpan]
      split <;> simp
    by_cases hsemi : buf p = 59
    · simp [nameSpan, entryName, hp, hsemi]
    · have hrest := ih (p + 1) fun o ho => h o (by
        rw [nameSpan, if_neg hsemi, range'_succ]
        exact mem_cons_of_mem _ ho)
      simp [nameSpan, entryName, hp, hsemi, hrest]

section Congr

variable {buf buf' : Mem} {off : Nat}

theorem record_congr (h : ∀ o ∈ nameOffsets buf off, buf' o = buf o) :
    buf' off = buf off ∧ nameOffsets buf' off = nameOffsets buf off ∧
      recordName buf' off = recordName buf off := by
  have hlen : nameLength buf' off = nameLength buf off := by
    rw [nameLength, nameLength, h (off + 32) (by simp [nameOffsets])]
  have hname := name_congr (nameLength buf off) (off + 33) fun o ho =>
    h o (mem_append_right _ ho)
  refine ⟨h off (by simp [nameOffsets]), ?_, ?_⟩
  · rw [nameOffsets, nameOffsets, hlen, hname.1]
  · rw [recordName, recordName, hlen, hname.2]

theorem recordFound_congr (h : ∀ o ∈ nameOffsets buf off ++ extentOffsets off, buf' o = buf o) :
    recordFound buf' off = recordFound buf off := by
  have hflags : buf' (off + 25) = buf (off + 25) := h _ (by simp [nameOffsets])
  have hlba : readLE buf' (off + 2) 4 = readLE buf (off + 2) 4 :=
    readLE_congr fun i hi => h _ (by simp [extentOffsets, mem_range']; omega)
  have hsize : readLE buf' (off + 10) 4 = readLE buf (off + 10) 4 :=
    readLE_congr fun i hi => h _ (by simp [extentOffsets, mem_range']; omega)
  rw [recordFound, recordFound, hflags, hlba, hsize]

variable {limit : Nat} {component : List UInt8}

theorem scanRecords_congr : ∀ {rounds off : Nat},
    (∀ o ∈ (scanRecords buf limit component rounds off).2, buf' o = buf o) →
      scanRecords buf' limit component rounds off = scanRecords buf limit component rounds off := by
  intro rounds
  induction rounds with
  | zero => intro off _; rfl
  | succ rounds ih =>
    intro off h
    rw [scanRecords] at h
    rw [scanRecords, scanRecords]
    by_cases hend : limit ≤ off
    · rw [if_pos hend, if_pos hend]
    rw [if_neg hend] at h ⊢
    rw [if_neg hend]
    by_cases hpad : buf off = 0
    · rw [if_pos hpad] at h ⊢
      have hoff : buf' off = buf off := h off (by simp)
      rw [hoff, if_pos hpad, ih fun o ho => h o (mem_cons_of_mem _ ho)]
    rw [if_neg hpad] at h ⊢
    by_cases hname : cdfsNameEqual component (recordName buf off) = true
    · rw [if_pos hname] at h ⊢
      obtain ⟨hoff, hoffsets, hrecord⟩ := record_congr fun o ho => h o (mem_append_left _ ho)
      rw [hoff, if_neg hpad, hrecord, if_pos hname, hoffsets, recordFound_congr h]
    · rw [if_neg hname] at h ⊢
      obtain ⟨hoff, hoffsets, hrecord⟩ := record_congr fun o ho => h o (mem_append_left _ ho)
      rw [hoff, if_neg hpad, hrecord, if_neg hname, hoffsets,
        ih fun o ho => h o (mem_append_right _ ho)]

end Congr

section Records

variable (b : Mem) (limit : Nat) (component : List UInt8)

/-- The step from one record to the next: to the next sector where the rest of a sector is padding,
and over a record with another name. -/
inductive Follows : Nat → Nat → Prop
  | pad {off : Nat} : off < limit → b off = 0 → Follows off ((off / sectorSize + 1) * sectorSize)
  | next {off : Nat} : off < limit → b off ≠ 0 →
      cdfsNameEqual component (recordName b off) = false → Follows off (off + (b off).toNat)

def Comes (start off : Nat) : Prop := Relation.ReflTransGen (Follows b limit component) start off

def Finds (start : Nat) (found : Found) : Prop :=
  ∃ off, Comes b limit component start off ∧ off < limit ∧ b off ≠ 0 ∧
    cdfsNameEqual component (recordName b off) = true ∧ found = recordFound b off

def lookedAt (off : Nat) : Nat :=
  if b off = 0 then 1 else 33 + nameSpan b (nameLength b off) (off + 33)

def RecordFits (filled : List Bool) (off : Nat) : Prop :=
  filled[off / sectorSize]? = some true ∧
    filled[(off + lookedAt b off - 1) / sectorSize]? = some true

end Records

section Relations

variable {b : Mem} {limit : Nat} {component : List UInt8}

theorem follows_functional {off next next' : Nat} (h : Follows b limit component off next)
    (h' : Follows b limit component off next') : next = next' := by
  cases h with
  | pad _ hb =>
    cases h' with
    | pad _ _ => rfl
    | next _ hb' _ => exact absurd hb hb'
  | next _ hb _ =>
    cases h' with
    | pad _ hb' => exact absurd hb' hb
    | next _ _ _ => rfl

theorem follows_lt {off next : Nat} (h : Follows b limit component off next) : off < next := by
  cases h with
  | pad _ _ => simp only [sectorSize]; omega
  | next _ hb _ =>
    have : (b off).toNat ≠ 0 := fun hz => hb (UInt8.toNat_inj.mp hz)
    omega

theorem Comes.cases_start {start off : Nat} (h : Comes b limit component start off) :
    off = start ∨ ∃ next, Follows b limit component start next ∧ Comes b limit component next off := by
  rcases Relation.ReflTransGen.cases_head h with rfl | ⟨next, hstep, hrest⟩
  · exact .inl rfl
  · exact .inr ⟨next, hstep, hrest⟩

theorem Comes.eq_of_stop {start off : Nat} (h : Comes b limit component start off)
    (hstop : ∀ next, ¬ Follows b limit component start next) : off = start := by
  rcases h.cases_start with heq | ⟨next, hstep, _⟩
  · exact heq
  · exact absurd hstep (hstop next)

theorem not_follows_end {off : Nat} (h : ¬ off < limit) (next : Nat) :
    ¬ Follows b limit component off next := by
  intro hstep
  cases hstep with
  | pad hlt _ => exact h hlt
  | next hlt _ _ => exact h hlt

theorem not_follows_match {off : Nat} (hb : b off ≠ 0)
    (hname : cdfsNameEqual component (recordName b off) = true) (next : Nat) :
    ¬ Follows b limit component off next := by
  intro hstep
  cases hstep with
  | pad _ hz => exact hb hz
  | next _ _ hdiff => rw [hname] at hdiff; cases hdiff

theorem finds_step {start next : Nat} {found : Found} (h : Follows b limit component start next) :
    Finds b limit component start found ↔ Finds b limit component next found := by
  constructor
  · rintro ⟨off, hcomes, hoff, hb, hname, rfl⟩
    rcases hcomes.cases_start with rfl | ⟨next', hstep, hrest⟩
    · exact absurd h (not_follows_match hb hname next)
    · rw [follows_functional h hstep]
      exact ⟨off, hrest, hoff, hb, hname, rfl⟩
  · rintro ⟨off, hcomes, hrest⟩
    exact ⟨off, Relation.ReflTransGen.head h hcomes, hrest⟩

theorem finds_here {off : Nat} {found : Found} (hoff : off < limit) (hb : b off ≠ 0)
    (hname : cdfsNameEqual component (recordName b off) = true) :
    Finds b limit component off found ↔ found = recordFound b off := by
  constructor
  · rintro ⟨off', hcomes, _, _, _, rfl⟩
    rw [hcomes.eq_of_stop (not_follows_match hb hname)]
  · rintro rfl
    exact ⟨off, .refl, hoff, hb, hname, rfl⟩

def passedOffsets (b : Mem) (off : Nat) : List Nat :=
  if b off = 0 then [off] else nameOffsets b off

variable (b component) in
theorem follows_or_match {off : Nat} (hoff : off < limit) :
    (∃ next, Follows b limit component off next) ∨
      b off ≠ 0 ∧ cdfsNameEqual component (recordName b off) = true := by
  by_cases hb : b off = 0
  · exact .inl ⟨_, .pad hoff hb⟩
  cases hname : cdfsNameEqual component (recordName b off) with
  | true => exact .inr ⟨hb, rfl⟩
  | false => exact .inl ⟨_, .next hoff hb hname⟩

theorem scanRecords_end {rounds off : Nat} (h : limit ≤ off) :
    scanRecords b limit component (rounds + 1) off = (some none, []) := by
  rw [scanRecords, if_pos h]

theorem scanRecords_follows {rounds off next : Nat} (h : Follows b limit component off next) :
    scanRecords b limit component (rounds + 1) off =
      ((scanRecords b limit component rounds next).1,
        passedOffsets b off ++ (scanRecords b limit component rounds next).2) := by
  cases h with
  | pad hoff hb => rw [scanRecords, if_neg (by omega), if_pos hb, passedOffsets, if_pos hb]; rfl
  | next hoff hb hname =>
    rw [scanRecords, if_neg (by omega), if_neg hb, passedOffsets, if_neg hb, hname]
    rfl

theorem scanRecords_match {rounds off : Nat} (hoff : off < limit) (hb : b off ≠ 0)
    (hname : cdfsNameEqual component (recordName b off) = true) :
    scanRecords b limit component (rounds + 1) off =
      (some (some (recordFound b off)), nameOffsets b off ++ extentOffsets off) := by
  rw [scanRecords, if_neg (by omega), if_neg hb, if_pos hname]

theorem nameSpan_le (n p : Nat) : nameSpan b n p ≤ n := by
  induction n generalizing p with
  | zero => exact Nat.le_refl _
  | succ n ih =>
    rw [nameSpan]
    split
    · omega
    · exact Nat.succ_le_succ (ih _)

theorem lookedAt_bounds (off : Nat) : 0 < lookedAt b off ∧ lookedAt b off ≤ 287 := by
  rw [lookedAt]
  have hspan := nameSpan_le (b := b) (nameLength b off) (off + 33)
  have hlen : nameLength b off ≤ 254 := Nat.min_le_right _ _
  split <;> omega

theorem mem_nameOffsets_bounds {off o : Nat} (hb : b off ≠ 0)
    (h : o ∈ nameOffsets b off ++ extentOffsets off) : off ≤ o ∧ o < off + lookedAt b off := by
  rw [lookedAt, if_neg hb]
  simp only [nameOffsets, extentOffsets, mem_append, mem_cons, mem_range'_1,
    not_mem_nil, or_false] at h
  omega

theorem last_mem_nameOffsets {off : Nat} (hb : b off ≠ 0) :
    off + lookedAt b off - 1 ∈ nameOffsets b off := by
  rw [lookedAt, if_neg hb]
  simp only [nameOffsets, mem_append, mem_cons, mem_range'_1, not_mem_nil, or_false]
  omega

section Filled

variable {filled : List Bool} {off : Nat}

theorem RecordFits.filled_at (h : RecordFits b filled off) {o : Nat} (hle : off ≤ o)
    (hlt : o < off + lookedAt b off) : filled[o / sectorSize]? = some true := by
  have hbounds := lookedAt_bounds (b := b) off
  have hsector : o / sectorSize = off / sectorSize ∨
      o / sectorSize = (off + lookedAt b off - 1) / sectorSize := by
    generalize lookedAt b off = n at hbounds hlt
    simp only [sectorSize]
    omega
  rcases hsector with heq | heq <;> rw [heq]
  · exact h.1
  · exact h.2

theorem passedOffsets_filled_iff :
    (∀ o ∈ passedOffsets b off, filled[o / sectorSize]? = some true) ↔ RecordFits b filled off := by
  constructor
  · intro h
    rw [passedOffsets] at h
    by_cases hb : b off = 0
    · rw [if_pos hb] at h
      have hoff := h off (by simp)
      refine ⟨hoff, ?_⟩
      rwa [lookedAt, if_pos hb, Nat.add_sub_cancel]
    · rw [if_neg hb] at h
      exact ⟨h off (by simp [nameOffsets]), h _ (last_mem_nameOffsets hb)⟩
  · intro h o ho
    rw [passedOffsets] at ho
    by_cases hb : b off = 0
    · rw [if_pos hb, mem_singleton] at ho
      rw [ho]
      exact h.1
    · rw [if_neg hb] at ho
      obtain ⟨hle, hlt⟩ := mem_nameOffsets_bounds hb (mem_append_left _ ho)
      exact h.filled_at hle hlt

theorem matchOffsets_filled_iff (hb : b off ≠ 0) :
    (∀ o ∈ nameOffsets b off ++ extentOffsets off, filled[o / sectorSize]? = some true) ↔
      RecordFits b filled off := by
  constructor
  · intro h
    refine ⟨h off (by simp [nameOffsets]), h _ (mem_append_left _ (last_mem_nameOffsets hb))⟩
  · intro h o ho
    obtain ⟨hle, hlt⟩ := mem_nameOffsets_bounds hb ho
    exact h.filled_at hle hlt

end Filled

/-! ## The whole loop -/

theorem scanRecords_ends : ∀ {rounds off : Nat}, limit - off < rounds →
    (scanRecords b limit component rounds off).1 ≠ none := by
  intro rounds
  induction rounds with
  | zero => intro off h; omega
  | succ rounds ih =>
    intro off h
    by_cases hoff : off < limit
    · rcases follows_or_match b component hoff with
        ⟨next, hnext⟩ | ⟨hb, hname⟩
      · have hlt := follows_lt hnext
        rw [scanRecords_follows hnext]
        exact ih (by omega)
      · rw [scanRecords_match hoff hb hname]
        simp
    · rw [scanRecords_end (by omega)]
      simp

theorem scanRecords_found_iff {found : Found} : ∀ {rounds off : Nat}, limit - off < rounds →
    ((scanRecords b limit component rounds off).1 = some (some found) ↔
      Finds b limit component off found) := by
  intro rounds
  induction rounds with
  | zero => intro off h; omega
  | succ rounds ih =>
    intro off h
    by_cases hoff : off < limit
    · rcases follows_or_match b component hoff with
        ⟨next, hnext⟩ | ⟨hb, hname⟩
      · have hlt := follows_lt hnext
        rw [scanRecords_follows hnext, finds_step hnext]
        exact ih (by omega)
      · rw [scanRecords_match hoff hb hname, finds_here hoff hb hname]
        simp [eq_comm]
    · rw [scanRecords_end (by omega)]
      refine ⟨fun h => by simp at h, ?_⟩
      rintro ⟨off', hcomes, hoff', _⟩
      rw [hcomes.eq_of_stop (not_follows_end hoff)] at hoff'
      exact absurd hoff' hoff

theorem scanRecords_filled_iff {filled : List Bool} : ∀ {rounds off : Nat}, limit - off < rounds →
    ((∀ o ∈ (scanRecords b limit component rounds off).2, filled[o / sectorSize]? = some true) ↔
      ∀ off', Comes b limit component off off' → off' < limit → RecordFits b filled off') := by
  intro rounds
  induction rounds with
  | zero => intro off h; omega
  | succ rounds ih =>
    intro off h
    by_cases hoff : off < limit
    · rcases follows_or_match b component hoff with
        ⟨next, hnext⟩ | ⟨hb, hname⟩
      · have hlt := follows_lt hnext
        rw [scanRecords_follows hnext, forall_mem_append, passedOffsets_filled_iff, ih (by omega)]
        constructor
        · rintro ⟨hfits, hrest⟩ off' hcomes hoff'
          rcases hcomes.cases_start with rfl | ⟨next', hstep, hcomes'⟩
          · exact hfits
          · rw [follows_functional hstep hnext] at hcomes'
            exact hrest off' hcomes' hoff'
        · intro hall
          exact ⟨hall off .refl hoff,
            fun off' hcomes => hall off' (Relation.ReflTransGen.head hnext hcomes)⟩
      · rw [scanRecords_match hoff hb hname, matchOffsets_filled_iff hb]
        constructor
        · intro hfits off' hcomes hoff'
          rw [hcomes.eq_of_stop (not_follows_match hb hname)]
          exact hfits
        · intro hall
          exact hall off .refl hoff
    · rw [scanRecords_end (by omega)]
      refine ⟨fun _ off' hcomes hoff' => ?_, fun _ o ho => by simp at ho⟩
      rw [hcomes.eq_of_stop (not_follows_end hoff)] at hoff'
      exact absurd hoff' hoff

end Relations

end DiscouNT.Cdfs
