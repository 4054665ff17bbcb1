import DiscouNT.Loader.Exports

/-!
# Loader.ExportSearch

The search of `PeGetProcAddress` for a name in the export directory of a PE image. One pass over the
name table takes the first name that is the request, or that is it up to its first `@`, underscores
aside. A decorated spelling that stands before the literal one is therefore taken for it, and an `@`
ends a name wherever it stands.
-/

namespace DiscouNT.Loader

open Lib

/-- `IMAGE_EXPORT_DIRECTORY`, as far as the name loop reads it. -/
structure ExportDirectory where
  functions : Nat
  names : Nat
  ordinals : Nat
  numberOfNames : Nat

/-- The export directory, with no names in it where the image has none. -/
def peExportDirectory (m : Mem) : ExportDirectory :=
  if numberOfRvaAndSizes m < 1 ∨ dataDir m 0 = 0 then ⟨0, 0, 0, 0⟩
  else
    let dir := dataDir m 0
    ⟨readLE m (dir + 28) 4, readLE m (dir + 32) 4, readLE m (dir + 36) 4, readLE m (dir + 24) 4⟩

namespace ExportDirectory

variable (d : ExportDirectory) (m : Mem)

def name (i : Nat) : Nat := readLE m (d.names + 4 * i) 4

def rva (i : Nat) : Nat := readLE m (d.functions + 4 * readLE m (d.ordinals + 2 * i) 2) 4

end ExportDirectory

def dropUnderscore (s : Name) : Name := if s.head? = some 0x5F then s.tail else s

def afterUnderscore (m : Mem) (p : Nat) : Nat := if m p = 0x5F then p + 1 else p

/-- `@N`. -/
def IsSuffix (s : Name) : Prop := ∃ n : Name, n ≠ [] ∧ (∀ c ∈ n, 0x30 ≤ c ∧ c ≤ 0x39) ∧ s = 0x40 :: n

/-- The name at `p` is the request once an underscore on each side and an `@N` suffix of the name
are dropped. -/
def Undecorated (m : Mem) (func : Name) (p : Nat) : Prop :=
  (∃ s, IsSuffix s ∧ strEq m (afterUnderscore m p) (dropUnderscore func ++ s) = true) ∨
    strEq m (afterUnderscore m p) (dropUnderscore func) = true ∧
      ¬ ∃ base s, IsSuffix s ∧ dropUnderscore func = base ++ s

section Directory

variable (arch : Arch) (im : Image) (d : ExportDirectory) (func : Name)

def exportAddress (i : Nat) : Nat := uptr arch (im.imageBase + d.rva im.mem i)

def LiteralAt (i : Nat) : Prop := i < d.numberOfNames ∧ strEq im.mem (d.name im.mem i) func = true

def UndecoratedAt (i : Nat) : Prop := i < d.numberOfNames ∧ Undecorated im.mem func (d.name im.mem i)

/-- What is asked for: the address of an export with the literal name if there is one, else of one
with the name undecorated, else 0. -/
def RightAddress (address : Nat) : Prop :=
  ((∃ i, LiteralAt im d func i) → ∃ i, LiteralAt im d func i ∧ address = exportAddress arch im d i) ∧
    ((∀ i, ¬ LiteralAt im d func i) → (∃ i, UndecoratedAt im d func i) →
      ∃ i, UndecoratedAt im d func i ∧ address = exportAddress arch im d i) ∧
    ((∀ i, ¬ LiteralAt im d func i) → (∀ i, ¬ UndecoratedAt im d func i) → address = 0)

/-- Entry `i` is the first that either test of the loop takes. -/
def FirstTaken (i : Nat) : Prop :=
  i < d.numberOfNames ∧ exportMatches im.mem (d.name im.mem i) func = true ∧
    ∀ j < i, exportMatches im.mem (d.name im.mem j) func = false

structure Unambiguous : Prop where
  /-- Where a name is literally the request, no other export stands before it that would be taken. -/
  literal : ∀ i, FirstTaken im d func i → (∃ j, LiteralAt im d func j) →
    ∃ j, LiteralAt im d func j ∧ exportAddress arch im d j = exportAddress arch im d i
  /-- Where none is, the first export that is taken has the name undecorated, or the address of one
  that has. -/
  decorated : ∀ i, FirstTaken im d func i → (∀ j, ¬ LiteralAt im d func j) →
    (∃ j, UndecoratedAt im d func j ∧ exportAddress arch im d j = exportAddress arch im d i) ∨
      (∀ j, ¬ UndecoratedAt im d func j) ∧ exportAddress arch im d i = 0
  /-- No export that has the name undecorated is passed over, unless its address is 0. -/
  passed : (∀ i, ¬ FirstTaken im d func i) → (∃ j, UndecoratedAt im d func j) →
    ∃ j, UndecoratedAt im d func j ∧ exportAddress arch im d j = 0

end Directory

section Search

variable {arch : Arch} {im : Image} {d : ExportDirectory} {func : Name} {m : Mem} {n i j : Nat}

theorem peFindExport_eq :
    (peFindExport m d.functions d.names d.ordinals func n i = none ∧
      ∀ j, i ≤ j → j < i + n → exportMatches m (d.name m j) func = false) ∨
    ∃ j, i ≤ j ∧ j < i + n ∧ peFindExport m d.functions d.names d.ordinals func n i = some (d.rva m j) ∧
      exportMatches m (d.name m j) func = true ∧
      ∀ k, i ≤ k → k < j → exportMatches m (d.name m k) func = false := by
  induction n generalizing i with
  | zero => exact .inl ⟨rfl, fun j h1 h2 => by omega⟩
  | succ n ih =>
    rw [peFindExport]
    by_cases hi : exportMatches m (readLE m (d.names + 4 * i) 4) func = true
    · rw [if_pos hi]
      exact .inr ⟨i, Nat.le_refl i, by omega, rfl, hi, fun k h1 h2 => by omega⟩
    · rw [if_neg hi]
      rw [Bool.not_eq_true] at hi
      rcases ih (i := i + 1) with ⟨hnone, hno⟩ | ⟨j, h1, h2, hsome, hj, hbefore⟩
      · refine .inl ⟨hnone, fun j hj1 hj2 => ?_⟩
        by_cases he : j = i
        · rw [he]
          exact hi
        · exact hno j (by omega) (by omega)
      · refine .inr ⟨j, by omega, by omega, hsome, hj, fun k hk1 hk2 => ?_⟩
        by_cases he : k = i
        · rw [he]
          exact hi
        · exact hbefore k (by omega) hk2

theorem firstTaken_unique (hi : FirstTaken im d func i) (hj : FirstTaken im d func j) : i = j := by
  rcases Nat.lt_trichotomy i j with hlt | heq | hlt
  · exact absurd hi.2.1 (by rw [hj.2.2 i hlt]; decide)
  · exact heq
  · exact absurd hj.2.1 (by rw [hi.2.2 j hlt]; decide)

theorem exists_firstTaken (hi : i < d.numberOfNames)
    (htaken : exportMatches im.mem (d.name im.mem i) func = true) : ∃ j, FirstTaken im d func j := by
  rcases @peFindExport_eq d func im.mem d.numberOfNames 0 with ⟨-, hno⟩ | ⟨j, -, hj, -, h1, h2⟩
  · rw [hno i (Nat.zero_le i) (by omega)] at htaken
    cases htaken
  · exact ⟨j, by omega, h1, fun k hk => h2 k (Nat.zero_le k) hk⟩

theorem taken_of_literal (hl : LiteralAt im d func i) :
    exportMatches im.mem (d.name im.mem i) func = true := by
  rw [exportMatches, hl.2, Bool.true_or]

theorem peGetPeProcAddress_cases (arch : Arch) (im : Image) (func : Name) :
    let d := peExportDirectory im.mem
    ((∀ i, ¬ FirstTaken im d func i) ∧ peGetPeProcAddress arch im (.name func) = 0) ∨
      ∃ i, FirstTaken im d func i ∧
        peGetPeProcAddress arch im (.name func) = exportAddress arch im d i := by
  unfold peGetPeProcAddress peExportDirectory
  simp only
  by_cases hnum : numberOfRvaAndSizes im.mem < 1
  · rw [if_pos hnum, if_pos (.inl hnum)]
    exact .inl ⟨fun i hi => absurd hi.1 (Nat.not_lt_zero i), rfl⟩
  · by_cases hdir : dataDir im.mem 0 = 0
    · rw [if_neg hnum, if_pos hdir, if_pos (.inr hdir)]
      exact .inl ⟨fun i hi => absurd hi.1 (Nat.not_lt_zero i), rfl⟩
    · rw [if_neg hnum, if_neg hdir, if_neg (not_or.mpr ⟨hnum, hdir⟩)]
      generalize dataDir im.mem 0 = dir
      let d : ExportDirectory := ⟨readLE im.mem (dir + 28) 4, readLE im.mem (dir + 32) 4,
        readLE im.mem (dir + 36) 4, readLE im.mem (dir + 24) 4⟩
      rcases @peFindExport_eq d func im.mem d.numberOfNames 0 with ⟨hnone, hno⟩ | ⟨j, -, hj, hsome, h1, h2⟩
      · refine .inl ⟨fun i hi => ?_, ?_⟩
        · have hfalse := hno i (Nat.zero_le i) (by rw [Nat.zero_add]; exact hi.1)
          rw [hi.2.1] at hfalse
          cases hfalse
        · rw [hnone]
      · rw [Nat.zero_add] at hj
        refine .inr ⟨j, ⟨hj, h1, fun k hk => h2 k (Nat.zero_le k) hk⟩, ?_⟩
        rw [hsome]
        rfl

end Search

/-- An image with the exports `_f@4` and `f`, whose names are at 256 and at 264. The name table has
the one at `p` first, with the function at 0x100. -/
def twoSpellings (p q : Nat) : Image where
  imageBase := 0x10000
  allocationBase := 0x10000
  imageSize := 0x1000
  isElf := false
  elfClass := 0
  elfBaseVaddr := 0
  sourceImage := 0
  source := ⟨fun _ => 0, 0, by decide⟩
  mem :=
    let headers := fun m => writeLE (writeLE (writeLE m 60 4 64) 180 4 1) 184 4 192
    let directory := fun m => writeLE (writeLE (writeLE (writeLE m 216 4 2) 220 4 232) 224 4 240)
      228 4 248
    let tables := fun m => writeLE (writeLE (writeLE m 232 8 0x20000000100) 240 8 (p + q * 2 ^ 32))
      248 4 0x10000
    let names := fun m => writeLE (writeLE m 256 8 0x3440665F) 264 8 0x66
    headers (directory (tables (names fun _ => 0)))

end DiscouNT.Loader
