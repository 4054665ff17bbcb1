import Mathlib.Data.List.Basic

/-!
# Kernel32.CreateFile

Files opened through kernel32. A path that does not start with a separator gets a slash in front,
and loses its last character on the way: the index is one ahead of the text when the text is ended.

`CdfsReadFile` is what it answers for a path at the time of the call, and `granted` whether `kmalloc`
has room for a handle.
-/

namespace DiscouNT.Kernel32

open List

def genericRead : UInt32 := 0x80000000
def genericWrite : UInt32 := 0x40000000

def slash : UInt8 := 47

structure K32FileHandle where
  data : List UInt8
  size : Nat
  pos : Nat
  access : UInt32
deriving DecidableEq, Repr

inductive Opened where
  | handle (fh : K32FileHandle)
  | invalid (lastError : Option Nat)
deriving DecidableEq, Repr

def ansiChar (ch : UInt16) : UInt8 :=
  let ch := if ch = 92 then 47 else ch
  if ch ≥ 1 ∧ ch ≤ 127 then ch.toUInt8 else 63

def k32WideToAnsiPath (src : List UInt16) (maxChars : Nat) : List UInt8 :=
  (src.take (maxChars - 1)).map ansiChar

/-- `while (path[i - 1] && i < 259) { tmp[i] = path[i - 1]; i++; }`, where `tmp` has `i` characters
and `path[i - 1]` is the next one. -/
def copyBehind : List UInt8 → List UInt8 → List UInt8
  | [], tmp => tmp
  | c :: path, tmp => if tmp.length < 259 then copyBehind path (tmp ++ [c]) else tmp

def lookupPath (path : List UInt8) : List UInt8 :=
  if path ≠ [] ∧ path.head? ≠ some slash then
    let tmp := copyBehind path [slash]
    let tmp := tmp.take (tmp.length - 1)
    tmp.take 259
  else path

section Open

variable (cdfsReadFile : List UInt8 → Option (List UInt8)) (granted : Bool)

/-- What `CreateFileW` does with the path it has made. -/
def openPath (path : List UInt8) (access : UInt32) : Opened :=
  if access &&& genericWrite ≠ 0 then .invalid (some 5)
  else
    match cdfsReadFile path with
    | none => .invalid (some 2)
    | some data =>
      if granted then .handle { data, size := data.length, pos := 0, access } else .invalid (some 8)

def createFileW (name : Option (List UInt16)) (access : UInt32) : Opened :=
  match name with
  | none => .invalid (some 2)
  | some name => openPath cdfsReadFile granted (lookupPath (k32WideToAnsiPath name 260)) access

def createFileA (name : Option (List UInt8)) (access : UInt32) : Opened :=
  match name with
  | none => .invalid none
  | some name => createFileW cdfsReadFile granted (some ((name.take 259).map UInt8.toUInt16)) access

def k32OpenLegacyFile (path : Option (List UInt8)) (write : Bool) : Opened :=
  match path with
  | none => .invalid none
  | some path =>
    createFileW cdfsReadFile granted (some ((path.take 259).map UInt8.toUInt16))
      (if write then genericWrite else genericRead)

def openFile (path : Option (List UInt8)) : Opened :=
  k32OpenLegacyFile cdfsReadFile granted path false

def lopen (path : Option (List UInt8)) (readWrite : Int) : Opened :=
  k32OpenLegacyFile cdfsReadFile granted path (readWrite != 0)

/-- The file a name stands for: the name with the characters mapped, behind a slash if it does not
start with a separator. -/
def target (name : List UInt16) : List UInt8 :=
  let path := name.map ansiChar
  if path.head? = some slash then path else slash :: path

def Rooted (name : List UInt16) : Prop := name.head? = some 47 ∨ name.head? = some 92

instance (name : List UInt16) : Decidable (Rooted name) := inferInstanceAs (Decidable (_ ∨ _))

/-- A name and an access: the file the name stands for is opened, under the name as an absolute one as
well, and by every function that passes the name on. -/
structure OpensTarget (name : List UInt16) (access : UInt32) : Prop where
  wide : createFileW cdfsReadFile granted (some name) access =
    openPath cdfsReadFile granted (target name) access
  same : ¬ Rooted name → name.length + 1 < 259 →
    createFileW cdfsReadFile granted (some name) access =
      createFileW cdfsReadFile granted (some (47 :: name)) access
  ansi : ∀ a : List UInt8, a.map UInt8.toUInt16 = name →
    createFileA cdfsReadFile granted (some a) access =
      openPath cdfsReadFile granted (target name) access
  legacy : ∀ (a : List UInt8) (readWrite : Int), a.map UInt8.toUInt16 = name →
    access = (if readWrite ≠ 0 then genericWrite else genericRead) →
      lopen cdfsReadFile granted (some a) readWrite =
        openPath cdfsReadFile granted (target name) access
  file : ∀ a : List UInt8, a.map UInt8.toUInt16 = name → access = genericRead →
    openFile cdfsReadFile granted (some a) = openPath cdfsReadFile granted (target name) access

def shortened (name : List UInt16) : List UInt8 :=
  if name = [] then [] else slash :: (name.map ansiChar).dropLast

/-- The access is refused anyway, the name starts with a separator, or the lost character makes no
difference to what is opened. -/
def Indifferent (name : List UInt16) (access : UInt32) : Prop :=
  access &&& genericWrite ≠ 0 ∨ Rooted name ∨
    cdfsReadFile (shortened name) = cdfsReadFile (target name) ∨
    granted = false ∧ (cdfsReadFile (shortened name)).isSome ∧ (cdfsReadFile (target name)).isSome

variable {cdfsReadFile granted}

theorem openPath_eq_iff {x y : List UInt8} {access : UInt32} :
    openPath cdfsReadFile granted x access = openPath cdfsReadFile granted y access ↔
      access &&& genericWrite ≠ 0 ∨ cdfsReadFile x = cdfsReadFile y ∨
        granted = false ∧ (cdfsReadFile x).isSome ∧ (cdfsReadFile y).isSome := by
  rw [openPath, openPath]
  by_cases hwrite : access &&& genericWrite ≠ 0
  · rw [if_pos hwrite, if_pos hwrite]
    exact iff_of_true rfl (.inl hwrite)
  · rw [if_neg hwrite, if_neg hwrite]
    cases cdfsReadFile x <;> cases cdfsReadFile y <;> cases granted <;> simp [hwrite]
    exact congrArg List.length

theorem copyBehind_eq {path tmp : List UInt8} (h : tmp.length + path.length ≤ 259) :
    copyBehind path tmp = tmp ++ path := by
  induction path generalizing tmp with
  | nil => rw [copyBehind, append_nil]
  | cons c path ih =>
    rw [length_cons] at h
    have hlength : (tmp ++ [c]).length = tmp.length + 1 := length_append
    rw [copyBehind, if_pos (by omega), ih (by omega), append_assoc, singleton_append]

theorem ansiChar_eq_slash (ch : UInt16) : ansiChar ch = slash ↔ ch = 47 ∨ ch = 92 := by
  constructor
  · intro h
    by_cases hback : ch = 92
    · exact .inr hback
    · rw [ansiChar, if_neg hback] at h
      split at h
      · next hrange =>
        have hle : ch.toNat ≤ 127 := UInt16.le_iff_toNat_le.mp hrange.2
        have hnat := congrArg UInt8.toNat h
        rw [UInt16.toNat_toUInt8, Nat.mod_eq_of_lt (by omega)] at hnat
        exact .inl (UInt16.toNat_inj.mp hnat)
      · cases h
  · rintro (rfl | rfl) <;> decide

theorem head_ansi (name : List UInt16) :
    (name.map ansiChar).head? = some slash ↔ Rooted name := by
  cases name with
  | nil => exact iff_of_false nofun (by decide)
  | cons ch name =>
    simp only [map_cons, head?_cons, Option.some.injEq, Rooted, ansiChar_eq_slash]

theorem lookupPath_eq {name : List UInt16} (h : name.length < 259) :
    lookupPath (k32WideToAnsiPath name 260) =
      if Rooted name then target name else shortened name := by
  rw [k32WideToAnsiPath, take_of_length_le (Nat.le_of_lt h), lookupPath, target, shortened]
  by_cases hrooted : Rooted name
  · have hhead := (head_ansi name).mpr hrooted
    rw [if_pos hrooted, if_neg fun hpath => hpath.2 hhead, if_pos hhead]
  · have hhead := mt (head_ansi name).mp hrooted
    rw [if_neg hrooted]
    cases name with
    | nil => rfl
    | cons ch name =>
      rw [if_pos ⟨map_eq_nil_iff.not.mpr (cons_ne_nil _ _), hhead⟩,
        if_neg (cons_ne_nil _ _)]
      have hlength : ([slash] ++ (ch :: name).map ansiChar).length = name.length + 2 := by
        simp
      rw [length_cons] at h
      rw [copyBehind_eq (by rw [← length_append, hlength]; omega)]
      dsimp only
      rw [← dropLast_eq_take, take_of_length_le (by rw [length_dropLast]; omega)]
      exact dropLast_cons_of_ne_nil (map_eq_nil_iff.not.mpr (cons_ne_nil _ _))

theorem wide_iff {name : List UInt16} {access : UInt32} (h : name.length < 259) :
    createFileW cdfsReadFile granted (some name) access =
        openPath cdfsReadFile granted (target name) access ↔
      Indifferent cdfsReadFile granted name access := by
  rw [createFileW, lookupPath_eq h, Indifferent]
  by_cases hrooted : Rooted name
  · rw [if_pos hrooted]
    exact iff_of_true rfl (.inr (.inl hrooted))
  · rw [if_neg hrooted, openPath_eq_iff]
    simp only [hrooted, false_or]

theorem createFileA_eq {a : List UInt8} (h : a.length < 259) (access : UInt32) :
    createFileA cdfsReadFile granted (some a) access =
      createFileW cdfsReadFile granted (some (a.map UInt8.toUInt16)) access := by
  rw [createFileA, take_of_length_le (Nat.le_of_lt h)]

theorem k32OpenLegacyFile_eq {a : List UInt8} (h : a.length < 259) (write : Bool) :
    k32OpenLegacyFile cdfsReadFile granted (some a) write =
      createFileW cdfsReadFile granted (some (a.map UInt8.toUInt16))
        (if write then genericWrite else genericRead) := by
  rw [k32OpenLegacyFile, take_of_length_le (Nat.le_of_lt h)]

theorem createFile_opens_iff {name : List UInt16} (access : UInt32) (h : name.length < 259) :
    OpensTarget cdfsReadFile granted name access ↔
      Indifferent cdfsReadFile granted name access := by
  have hshort : ∀ {a : List UInt8}, a.map UInt8.toUInt16 = name → a.length < 259 := by
    rintro a rfl
    rwa [length_map] at h
  constructor
  · exact fun hopens => (wide_iff h).mp hopens.wide
  · intro hsame
    have hwide := (wide_iff h).mpr hsame
    refine ⟨hwide, fun hrooted hlength => ?_, fun a ha => ?_, fun a readWrite ha haccess => ?_,
      fun a ha haccess => ?_⟩
    · have hslash : target (47 :: name) = target name := by
        rw [target, target, if_neg (mt (head_ansi name).mp hrooted)]
        rfl
      have habsolute := (@wide_iff cdfsReadFile granted (47 :: name) access hlength).mpr
        (.inr (.inl (.inl rfl)))
      rw [hwide, habsolute, hslash]
    · rw [createFileA_eq (hshort ha), ha, hwide]
    · rw [lopen, k32OpenLegacyFile_eq (hshort ha), ha, ← hwide, haccess]
      simp only [bne_iff_ne]
    · rw [openFile, k32OpenLegacyFile_eq (hshort ha), ha, ← hwide, haccess]
      rfl

end Open

def oneFile (path : List UInt8) : Option (List UInt8) := if path = [47, 97] then some [1] else none

theorem createFile_opens_iff_rooted : OpensTarget oneFile true [92, 97] genericRead :=
  (createFile_opens_iff genericRead (by decide)).mpr (.inr (.inl (by decide)))

/-- `a` is not found, and `/a` is. -/
theorem createFile_loses_last :
    createFileW oneFile true (some [97]) genericRead = .invalid (some 2) ∧
      createFileW oneFile true (some [47, 97]) genericRead = .handle ⟨[1], 1, 0, genericRead⟩ ∧
      ¬ OpensTarget oneFile true [97] genericRead :=
  ⟨by decide, by decide, fun h => absurd h.wide (by decide)⟩

end DiscouNT.Kernel32
