import DiscouNT.Advapi.Calls

/-!
# Advapi.Enumerate

Lookup of subkeys against their enumeration. `RegOpenKeyExW` compares whole paths, while
`RegEnumKeyExW` and `RegQueryInfoKeyW` go by the handle a key was created through and by its path as
it is written; `regOpen_enum_agree_iff` says for which keys they find the same names.
-/

namespace DiscouNT.Advapi

open Lib List

def wideUpper (ch : UInt16) : UInt16 := if 97 ≤ ch ∧ ch ≤ 122 then ch - 32 else ch

def wideFold (name : List UInt16) : List UInt16 := name.map wideUpper

def IsSubkeyName (name : List UInt16) : Prop := name ≠ [] ∧ 92 ∉ name

def Opens (σ : Registry) (hKey : HKey) (name : List UInt16) : Prop :=
  ∃ opened σ', regOpenKeyExW σ hKey (some name) = some (opened, σ') ∧ opened.status = .success

/-- `RegEnumKeyExW` delivers these names one after the other, into a buffer for any of them. -/
structure Delivers (σ : Registry) (hKey : HKey) (names : List (List UInt16)) : Prop where
  item : ∀ index name, names[index]? = some name → ∀ nameLen, regMaxPath ≤ nameLen →
    regEnumKeyExW σ hKey index nameLen = some ⟨.success, some name, some name.length⟩
  last : ∀ nameLen, regEnumKeyExW σ hKey names.length nameLen = some ⟨.noMoreItems, none, none⟩

structure AgreeOn (σ : Registry) (hKey : HKey) (names : List (List UInt16)) : Prop where
  delivers : Delivers σ hKey names
  same : ∀ folded, (∃ name, IsSubkeyName name ∧ Opens σ hKey name ∧ wideFold name = folded) ↔
    ∃ name ∈ names, wideFold name = folded
  once : (names.map wideFold).Nodup
  count : ∃ info, regQueryInfoKeyW σ hKey = some (.ok info) ∧ info.subKeys = names.length

def Agree (σ : Registry) (hKey : HKey) : Prop := ∃ names, AgreeOn σ hKey names

/-- The subkeys of the key in slot `k` have the handle that it was created through, and its path as it
is written; none has a question mark in its name, and no key that would be listed has no name. -/
structure Listed (σ : Registry) (k : Fin 128) : Prop where
  used : (σ.keys k).used = true
  subkey : ∀ i name, (σ.keys i).used = true → name ≠ [] → separator ∉ name →
    fold (σ.keys i).path = fold ((σ.keys k).path ++ separator :: name) →
      (σ.keys i).root = (σ.keys k).root ∧ (σ.keys k).path ++ [separator] <+: (σ.keys i).path ∧
        63 ∉ name
  named : ∀ i, (σ.keys i).used = true → (σ.keys i).root = (σ.keys k).root →
    (σ.keys i).path ≠ (σ.keys k).path ++ [separator]

section Convert

variable {ch : UInt8} {unit : UInt16} {a b : List UInt8} {name : List UInt16}

theorem narrow_wide (h : ∀ ch ∈ a, ch < 128) : (regAsciiToWide a).map narrow = a := by
  rw [regAsciiToWide, map_map]
  refine (map_congr_left fun ch hch => ?_).trans (map_id a)
  exact narrow_toUInt16 (h ch hch)

theorem wide_narrow (h : 63 ∉ name.map narrow) : regAsciiToWide (name.map narrow) = name := by
  rw [regAsciiToWide, map_map]
  refine (map_congr_left fun unit hunit => ?_).trans (map_id name)
  exact toUInt16_narrow fun heq => h (mem_map.mpr ⟨unit, hunit, heq⟩)

theorem wideUpper_toUInt16 : wideUpper ch.toUInt16 = (regUpper ch).toUInt16 := by
  have hle : ∀ n : UInt8, (n.toUInt16 ≤ ch.toUInt16 ↔ n ≤ ch) ∧ (ch.toUInt16 ≤ n.toUInt16 ↔ ch ≤ n) := by
    intro n
    simp [UInt16.le_iff_toNat_le, UInt8.le_iff_toNat_le]
  rw [wideUpper, regUpper]
  by_cases h : 97 ≤ ch ∧ ch ≤ 122
  · rw [if_pos ⟨(hle 97).1.mpr h.1, (hle 122).2.mpr h.2⟩, if_pos h]
    refine UInt16.toNat_inj.mp ?_
    have h1 := UInt8.le_iff_toNat_le.mp h.1
    rw [UInt16.toNat_sub_of_le _ _ ?_, UInt8.toNat_toUInt16, UInt8.toNat_toUInt16,
      UInt8.toNat_sub_of_le _ _ ?_]
    · rfl
    · rw [UInt8.le_iff_toNat_le]
      simp at h1 ⊢
      omega
    · rw [UInt16.le_iff_toNat_le, UInt8.toNat_toUInt16]
      simp at h1 ⊢
      omega
  · rw [if_neg (fun hn => h ⟨(hle 97).1.mp hn.1, (hle 122).2.mp hn.2⟩), if_neg h]

theorem wideFold_wide : wideFold (regAsciiToWide a) = regAsciiToWide (fold a) := by
  simp [wideFold, regAsciiToWide, fold, wideUpper_toUInt16]

theorem wide_inj (h : regAsciiToWide a = regAsciiToWide b) : a = b :=
  map_injective_iff.mpr
    (fun x y hxy => UInt8.toNat_inj.mp (by simpa using congrArg UInt16.toNat hxy)) h

theorem wide_lt {unit : UInt16} (h : ∀ ch ∈ a, ch < 128) (hunit : unit ∈ regAsciiToWide a) :
    unit < 128 := by
  obtain ⟨ch, hch, rfl⟩ := mem_map.mp hunit
  have := UInt8.lt_iff_toNat_lt.mp (h ch hch)
  rw [UInt16.lt_iff_toNat_lt, UInt8.toNat_toUInt16]
  simpa using this

end Convert

section Enumeration

variable {σ : Registry} {k i : Fin 128} {name : List UInt8} {names : List (List UInt16)}

theorem regPrefixEqual_iff {a b : List UInt8} : regPrefixEqual a b b.length = true ↔ b <+: a := by
  rw [regPrefixEqual, decide_eq_true_iff, take_length, prefix_iff_eq_take]
  exact ⟨fun h => h.symm, fun h => h.symm⟩

theorem drop_child (path name : List UInt8) :
    (path ++ separator :: name).drop (path.length + 1) = name := by
  rw [← drop_drop, drop_left]
  rfl

theorem lists_iff {key child : RegKey} : key.lists child = true ↔ child.used = true ∧
    child.root = key.root ∧ ∃ name, separator ∉ name ∧ child.path = key.path ++ separator :: name := by
  simp only [RegKey.lists, Bool.and_eq_true, decide_eq_true_eq, regPrefixEqual_iff,
    Bool.not_eq_true', regHasSeparatorAfter, decide_eq_false_iff_not, and_assoc]
  refine and_congr_right fun _ => and_congr_right fun _ => ?_
  constructor
  · rintro ⟨⟨rest, hrest⟩, hsep, hname⟩
    rw [← hrest, getElem?_append_right (Nat.le_refl _), Nat.sub_self] at hsep
    cases rest with
    | nil => cases hsep
    | cons ch name =>
      cases hsep
      refine ⟨name, ?_, hrest.symm⟩
      rwa [← hrest, drop_child] at hname
  · rintro ⟨name, hname, heq⟩
    rw [heq]
    refine ⟨prefix_append _ _, by simp, ?_⟩
    rwa [drop_child]

theorem mem_subkeys : i ∈ σ.subkeys k ↔ (σ.keys i).used = true ∧ (σ.keys i).root = (σ.keys k).root ∧
    ∃ name, separator ∉ name ∧ (σ.keys i).path = (σ.keys k).path ++ separator :: name := by
  rw [← lists_iff]
  simp [Registry.subkeys]

theorem childName_eq (h : (σ.keys i).path = (σ.keys k).path ++ separator :: name) :
    σ.childName k i = name := by
  rw [Registry.childName, h, drop_child]

def Registry.delivered (σ : Registry) (k : Fin 128) : List (List UInt16) :=
  (σ.subkeys k).map fun i => regAsciiToWide (σ.childName k i)

theorem childName_lt (h : σ.Inv) (hi : (σ.keys i).used = true) :
    (σ.childName k i).length < regMaxPath := by
  have := (h.paths i hi).length
  rw [Registry.childName, length_drop]
  omega

theorem delivers_delivered (h : σ.Inv) (hk : (σ.keys k).used = true) :
    Delivers σ (.key k) (σ.delivered k) := by
  refine ⟨fun index name hname nameLen hlen => ?_, fun nameLen => ?_⟩
  · rw [Registry.delivered, getElem?_map, Option.map_eq_some_iff] at hname
    obtain ⟨i, hi, rfl⟩ := hname
    have hused := (mem_subkeys.mp (mem_of_getElem? hi)).1
    have hfit := childName_lt (k := k) h hused
    simp only [regEnumKeyExW, hk, hi]
    rw [if_neg (by simp), if_neg (by omega), regAsciiToWide, length_map]
  · have hnone : (σ.subkeys k)[(σ.delivered k).length]? = none := by
      rw [Registry.delivered, length_map, List.getElem?_eq_none_iff]
    simp only [regEnumKeyExW, hk, hnone]
    rw [if_neg (by simp)]

theorem Delivers.eq {hKey : HKey} {names' : List (List UInt16)} (h : Delivers σ hKey names)
    (h' : Delivers σ hKey names') : names = names' := by
  have hlen : ∀ {l l' : List (List UInt16)}, Delivers σ hKey l → Delivers σ hKey l' →
      l'.length ≤ l.length := by
    intro l l' hl hl'
    by_contra hlt
    have hitem := hl'.item l.length l'[l.length] (getElem?_eq_getElem (by omega)) regMaxPath
      (Nat.le_refl _)
    rw [hl.last regMaxPath] at hitem
    cases hitem
  refine ext_getElem? fun index => ?_
  rcases hi : names[index]? with _ | name
  · rw [List.getElem?_eq_none_iff] at hi
    rw [eq_comm, List.getElem?_eq_none_iff]
    exact (hlen h h').trans hi
  · obtain ⟨hlt, -⟩ := List.getElem?_eq_some_iff.mp hi
    have hlt' : index < names'.length := hlt.trans_le (hlen h' h)
    have hitem := h.item index name hi regMaxPath (Nat.le_refl _)
    have hitem' := h'.item index names'[index] (getElem?_eq_getElem hlt') regMaxPath
      (Nat.le_refl _)
    rw [hitem] at hitem'
    simp only [Option.some.injEq, Enumerated.mk.injEq, true_and] at hitem'
    rw [getElem?_eq_getElem hlt', hitem'.1]

theorem delivered_once (h : σ.Inv) : ((σ.delivered k).map wideFold).Nodup := by
  rw [Registry.delivered, map_map]
  refine List.Nodup.map_on (fun i hi j hj heq => ?_) ((nodup_finRange 128).filter _)
  obtain ⟨hui, -, a, ha, hpi⟩ := mem_subkeys.mp hi
  obtain ⟨huj, -, b, hb, hpj⟩ := mem_subkeys.mp hj
  simp only [Function.comp_apply, wideFold_wide, childName_eq hpi, childName_eq hpj] at heq
  refine h.keys i j hui huj ?_
  rw [RegKey.id, RegKey.id, hpi, hpj, fold_append, fold_append, fold_cons_separator,
    fold_cons_separator, wide_inj heq]

theorem delivered_count (hk : (σ.keys k).used = true) :
    ∃ info, regQueryInfoKeyW σ (.key k) = some (.ok info) ∧
      info.subKeys = (σ.delivered k).length := by
  refine ⟨_, by simp only [regQueryInfoKeyW, hk]; rw [if_neg (by simp)], ?_⟩
  rw [Registry.delivered, length_map, Registry.subkeys, ← countP_eq_length_filter]

end Enumeration

section Lookup

variable {σ : Registry} {k i : Fin 128} {name : List UInt16}

theorem mem_delivered {folded : List UInt16} : (∃ name ∈ σ.delivered k, wideFold name = folded) ↔
    ∃ i name, (σ.keys i).used = true ∧ (σ.keys i).root = (σ.keys k).root ∧ separator ∉ name ∧
      (σ.keys i).path = (σ.keys k).path ++ separator :: name ∧ regAsciiToWide (fold name) = folded := by
  simp only [Registry.delivered, mem_map]
  constructor
  · rintro ⟨_, ⟨i, hi, rfl⟩, hf⟩
    obtain ⟨hused, hroot, a, ha, hpath⟩ := mem_subkeys.mp hi
    rw [wideFold_wide, childName_eq hpath] at hf
    exact ⟨i, a, hused, hroot, ha, hpath, hf⟩
  · rintro ⟨i, a, hused, hroot, ha, hpath, hf⟩
    refine ⟨_, ⟨i, mem_subkeys.mpr ⟨hused, hroot, a, ha, hpath⟩, rfl⟩, ?_⟩
    rw [wideFold_wide, childName_eq hpath, hf]

theorem opens_iff (h : σ.Inv) (hk : (σ.keys k).used = true) (hname : name ≠ []) :
    Opens σ (.key k) name ↔ ∃ i, (σ.keys i).used = true ∧
      fold (σ.keys i).path = fold ((σ.keys k).path ++ separator :: name.map narrow) := by
  have hfind : ∀ {path i}, regFindKey σ path = some i ↔
      (σ.keys i).used = true ∧ fold (σ.keys i).path = fold path := by
    intro path i
    rw [regFindKey_eq]
    exact h.keys.findKey
  have hne : name.map narrow ≠ [] := by simpa using hname
  have hpath : ∀ path, σ.subkeyPath (.key k) (name.map narrow) = some (.ok path) ↔
      (σ.keys k).path.length + 1 + name.length < regMaxPath ∧
        path = (σ.keys k).path ++ separator :: name.map narrow := by
    intro path
    simp only [Registry.subkeyPath, hk, length_map]
    rw [if_neg (by simp), if_neg hne]
    split
    · rename_i hlen
      simp [hlen, eq_comm]
    · rename_i hlen
      simp [hlen]
  simp only [Opens, regOpenKeyExW, h.registryInit_used hk, regWideToAscii]
  constructor
  · rintro ⟨opened, σ', heq, hs⟩
    split at heq
    · cases heq
      cases hs
    · rename_i subkey hsub
      split at hsub
      · cases hsub
        rw [Option.map_eq_some_iff] at heq
        obtain ⟨r, hr, heq⟩ := heq
        rcases r with status | path
        · exfalso
          simp only [Registry.subkeyPath, hk] at hr
          rw [if_neg (by simp), if_neg hne] at hr
          split at hr <;> cases hr
        · obtain ⟨-, rfl⟩ := (hpath path).mp hr
          simp only at heq
          split at heq
          · rename_i i hi
            exact ⟨i, hfind.mp hi⟩
          · cases heq
            cases hs
      · cases hsub
  · rintro ⟨i, hi, hfold⟩
    have hlen : (σ.keys k).path.length + 1 + name.length < regMaxPath := by
      have hpi := (h.paths i hi).length
      have := congrArg List.length hfold
      rw [fold_length, fold_length, length_append, length_cons, length_map] at this
      omega
    refine ⟨⟨.success, some (.key i), none⟩, σ, ?_, rfl⟩
    rw [if_pos (by omega)]
    simp only [(hpath _).mpr ⟨hlen, rfl⟩, Option.map_some, hfind.mpr ⟨hi, hfold⟩]

end Lookup

/-! ## When they agree -/

section Agreement

variable {σ : Registry} {k : Fin 128}

theorem agree_iff (h : σ.Inv) (hk : (σ.keys k).used = true) : Agree σ (.key k) ↔
    ∀ folded, (∃ name, IsSubkeyName name ∧ Opens σ (.key k) name ∧ wideFold name = folded) ↔
      ∃ name ∈ σ.delivered k, wideFold name = folded := by
  constructor
  · rintro ⟨names, hagree⟩
    rw [← hagree.delivers.eq (delivers_delivered h hk)]
    exact hagree.same
  · intro hsame
    exact ⟨σ.delivered k, delivers_delivered h hk, hsame, delivered_once h, delivered_count hk⟩

theorem regUpper_le (ch : UInt8) : regUpper ch ≤ ch := by
  rw [regUpper]
  split
  · rename_i h
    rw [UInt8.le_iff_toNat_le, UInt8.toNat_sub_of_le _ _ (by exact UInt8.le_trans (by decide) h.1)]
    omega
  · exact UInt8.le_refl _

theorem fold_ascii {a : List UInt8} (h : ∀ ch ∈ a, ch < 128) : ∀ ch ∈ fold a, ch < 128 := by
  intro ch hch
  obtain ⟨x, hx, rfl⟩ := mem_map.mp hch
  exact UInt8.lt_of_le_of_lt (regUpper_le x) (h x hx)

/-- A unit outside ASCII that opens the same keys as a question mark. -/
def disguise (unit : UInt16) : UInt16 := if unit = 63 then 200 else unit

theorem narrow_disguise (unit : UInt16) : narrow (disguise unit) = narrow unit := by
  rw [disguise]
  split
  · rename_i h
    rw [h]
    decide
  · rfl

theorem Agree.listed (h : σ.Inv) (hk : (σ.keys k).used = true) (hagree : Agree σ (.key k)) :
    Listed σ k := by
  rw [agree_iff h hk] at hagree
  refine ⟨hk, fun i name hi hne hsep hfold => ?_, fun i hi hroot hpath => ?_⟩
  · -- the name as it is written opens the key
    have hopen : ∀ wide : List UInt16, wide ≠ [] → fold (wide.map narrow) = fold name →
        ∃ j a, (σ.keys j).used = true ∧ (σ.keys j).root = (σ.keys k).root ∧ separator ∉ a ∧
          (σ.keys j).path = (σ.keys k).path ++ separator :: a ∧
          regAsciiToWide (fold a) = wideFold wide := by
      intro wide hwide heq
      refine mem_delivered.mp ((hagree (wideFold wide)).mp ⟨wide, ⟨hwide, ?_⟩, ?_, rfl⟩)
      · rw [← separator_mem_narrow, ← separator_mem_fold, heq, separator_mem_fold]
        exact hsep
      · rw [opens_iff h hk hwide]
        refine ⟨i, hi, ?_⟩
        rw [hfold, fold_append, fold_append, fold_cons_separator, fold_cons_separator, heq]
    have hcut : fold ((σ.keys i).path.drop ((σ.keys k).path.length + 1)) = fold name := by
      have := congrArg (List.drop ((σ.keys k).path.length + 1)) hfold
      rw [fold, fold, ← map_drop, ← map_drop, drop_child] at this
      exact this
    have hascii : ∀ ch ∈ (σ.keys i).path.drop ((σ.keys k).path.length + 1), ch < 128 :=
      fun ch hch => (h.paths i hi).ascii ch (mem_of_mem_drop hch)
    have hwide : (regAsciiToWide ((σ.keys i).path.drop ((σ.keys k).path.length + 1))) ≠ [] := by
      intro hnil
      rw [regAsciiToWide, map_eq_nil_iff] at hnil
      rw [hnil] at hcut
      exact hne (by simpa [fold] using hcut.symm)
    obtain ⟨j, a, hj, hroot, ha, hpath, hname⟩ := hopen _ hwide (by rw [narrow_wide hascii, hcut])
    rw [wideFold_wide] at hname
    have hfa : fold a = fold name := (wide_inj hname).trans hcut
    have hij : i = j := h.keys i j hi hj (by
      rw [RegKey.id, RegKey.id, hfold, hpath, fold_append, fold_append, fold_cons_separator,
        fold_cons_separator, hfa])
    subst hij
    refine ⟨hroot, ⟨a, by rw [hpath, append_assoc]; rfl⟩, fun hq => ?_⟩
    -- a character outside ASCII in place of the question mark opens the key too
    have haa : ∀ ch ∈ a, ch < 128 := fun ch hch =>
      (h.paths i hi).ascii ch (by rw [hpath]; simp [hch])
    have hqa : 63 ∈ a := by
      rw [← mem_fold (by decide), hfa, mem_fold (by decide)]
      exact hq
    obtain ⟨j, b, hj, -, -, hpathb, hb⟩ := hopen ((regAsciiToWide a).map disguise)
      (by rw [regAsciiToWide]; intro hnil; simp at hnil; rw [hnil] at hqa; cases hqa)
      (by
        rw [map_map, show narrow ∘ disguise = narrow from funext narrow_disguise, narrow_wide haa,
          hfa])
    have hmem : (200 : UInt16) ∈ wideFold ((regAsciiToWide a).map disguise) := by
      refine mem_map.mpr ⟨200, mem_map.mpr ⟨63, mem_map.mpr ⟨63, hqa, rfl⟩, ?_⟩, ?_⟩
      · decide
      · decide
    rw [← hb] at hmem
    have hbb : ∀ ch ∈ b, ch < 128 := fun ch hch =>
      (h.paths j hj).ascii ch (by rw [hpathb]; simp [hch])
    exact absurd (wide_lt (fold_ascii hbb) hmem) (by decide)
  · -- an empty name is delivered, but is none that lookup is asked for
    obtain ⟨name, ⟨hne, -⟩, -, hnil⟩ := (hagree []).mpr (mem_delivered.mpr
      ⟨i, [], hi, hroot, not_mem_nil, hpath, rfl⟩)
    exact hne (by simpa [wideFold] using hnil)

theorem Listed.agree (h : σ.Inv) (hl : Listed σ k) : Agree σ (.key k) := by
  rw [agree_iff h hl.used]
  intro folded
  rw [mem_delivered]
  constructor
  · rintro ⟨name, ⟨hne, hsep⟩, hopens, rfl⟩
    obtain ⟨i, hi, hfold⟩ := (opens_iff h hl.used hne).mp hopens
    obtain ⟨hroot, ⟨a, ha⟩, hq⟩ := hl.subkey i _ hi (by simpa using hne)
      (by rw [separator_mem_narrow]; exact hsep) hfold
    have hpath : (σ.keys i).path = (σ.keys k).path ++ separator :: a := by
      rw [← ha, append_assoc]
      rfl
    have hfa : fold a = fold (name.map narrow) := by
      rw [hpath, fold_append, fold_append, fold_cons_separator, fold_cons_separator] at hfold
      exact tail_eq_of_cons_eq (append_cancel_left hfold)
    refine ⟨i, a, hi, hroot, ?_, hpath, ?_⟩
    · rw [← separator_mem_fold, hfa, separator_mem_fold, separator_mem_narrow]
      exact hsep
    · rw [hfa, ← wideFold_wide, wide_narrow hq]
  · rintro ⟨i, a, hi, hroot, ha, hpath, rfl⟩
    have hascii : ∀ ch ∈ a, ch < 128 := fun ch hch =>
      (h.paths i hi).ascii ch (by rw [hpath]; simp [hch])
    have hne : regAsciiToWide a ≠ [] := by
      intro hnil
      rw [regAsciiToWide, map_eq_nil_iff] at hnil
      rw [hnil] at hpath
      exact hl.named i hi hroot hpath
    refine ⟨regAsciiToWide a, ⟨hne, ?_⟩, ?_, wideFold_wide⟩
    · rw [← separator_mem_narrow, narrow_wide hascii]
      exact ha
    · rw [opens_iff h hl.used hne, narrow_wide hascii]
      exact ⟨i, hi, by rw [hpath]⟩

theorem listed_of_paths (hk : (σ.keys k).used = true)
    (hpaths : ∀ i, (σ.keys i).used = true →
      fold ((σ.keys i).path.take ((σ.keys k).path.length + 1)) =
        fold ((σ.keys k).path ++ [separator]) →
      (σ.keys i).root = (σ.keys k).root ∧
        (σ.keys i).path.take ((σ.keys k).path.length + 1) = (σ.keys k).path ++ [separator] ∧
        63 ∉ (σ.keys i).path.drop ((σ.keys k).path.length + 1) ∧
        (σ.keys i).path.drop ((σ.keys k).path.length + 1) ≠ []) : Listed σ k := by
  have hlen : ((σ.keys k).path ++ [separator]).length = (σ.keys k).path.length + 1 := by simp
  refine ⟨hk, fun i name hi _ _ hfold => ?_, fun i hi _ hpath => ?_⟩
  · rw [show (σ.keys k).path ++ separator :: name = ((σ.keys k).path ++ [separator]) ++ name by simp]
      at hfold
    have htake := congrArg (List.take ((σ.keys k).path.length + 1)) hfold
    have hdrop := congrArg (List.drop ((σ.keys k).path.length + 1)) hfold
    rw [fold, fold, ← map_take, ← map_take, take_left' hlen] at htake
    rw [fold, fold, ← map_drop, ← map_drop, drop_left' hlen] at hdrop
    obtain ⟨hroot, hprefix, hq, -⟩ := hpaths i hi htake
    refine ⟨hroot, ?_, fun hmem => hq ?_⟩
    · rw [← hprefix]
      exact take_prefix _ _
    · rw [← mem_fold (by decide)] at hmem ⊢
      rwa [fold, hdrop]
  · refine (hpaths i hi ?_).2.2.2 ?_
    · rw [hpath, take_of_length_le (Nat.le_of_eq hlen)]
    · rw [hpath, drop_eq_nil_of_le (Nat.le_of_eq hlen)]

/-- In a reachable state, lookup and enumeration of a key's subkeys agree exactly when the handle is
that of a key whose subkeys are all listed. -/
theorem regOpen_enum_agree_iff (σ : State) (h : Reachable σ) (hKey : HKey) :
    Agree σ.registry hKey ↔ ∃ k, hKey = .key k ∧ Listed σ.registry k := by
  constructor
  · rintro ⟨names, hagree⟩
    have hlast := hagree.delivers.last regMaxPath
    rcases hKey with _ | r | k
    · cases hlast
    · cases hlast
    · refine ⟨k, rfl, ?_⟩
      by_cases hk : (σ.registry.keys k).used = true
      · exact Agree.listed h.inv hk ⟨names, hagree⟩
      · simp only [regEnumKeyExW] at hlast
        rw [if_pos (by simpa using hk)] at hlast
        cases hlast
  · rintro ⟨k, rfl, hl⟩
    exact hl.agree h.inv

/-- The services that are seeded are found both ways. -/
theorem regOpen_enum_agree_iff_services : ∃ σ, run [.regOpenKeyExW (.root .localMachine) none] .initial =
    some σ ∧ Agree σ.registry (.key 6) := by
  have hsome : (run [.regOpenKeyExW (.root .localMachine) none] .initial).isSome = true := by decide +kernel
  obtain ⟨σ, hσ⟩ := Option.isSome_iff_exists.mp hsome
  refine ⟨σ, hσ, (regOpen_enum_agree_iff σ ⟨_, hσ⟩ (.key 6)).mpr ⟨6, rfl, ?_⟩⟩
  have hcheck : ∀ τ ∈ run [.regOpenKeyExW (.root .localMachine) none] .initial,
      (τ.registry.keys 6).used = true ∧ ∀ i, (τ.registry.keys i).used = true →
        fold ((τ.registry.keys i).path.take ((τ.registry.keys 6).path.length + 1)) =
          fold ((τ.registry.keys 6).path ++ [separator]) →
        (τ.registry.keys i).root = (τ.registry.keys 6).root ∧
          (τ.registry.keys i).path.take ((τ.registry.keys 6).path.length + 1) =
            (τ.registry.keys 6).path ++ [separator] ∧
          63 ∉ (τ.registry.keys i).path.drop ((τ.registry.keys 6).path.length + 1) ∧
          (τ.registry.keys i).path.drop ((τ.registry.keys 6).path.length + 1) ≠ [] := by
    decide +kernel
  exact listed_of_paths (hcheck σ hσ).1 (hcheck σ hσ).2

def nested : List Call :=
  [.regCreateKeyExW (.root .localMachine) (some (regAsciiToWide (text "A"))),
    .regCreateKeyExW (.key 17) (some (regAsciiToWide (text "B")))]

/-- The subkey is opened, but not listed. -/
theorem regOpen_enum_agree_iff_nested :
    ∃ σ, run nested .initial = some σ ∧ (σ.registry.keys 17).used = true ∧
      ¬ Agree σ.registry (.key 17) := by
  have hsome : (run nested .initial).isSome = true := by decide +kernel
  have hkeys : ∀ τ ∈ run nested .initial, (τ.registry.keys 17).used = true ∧
      (τ.registry.keys 18).used = true ∧ (τ.registry.keys 17).root = .root .localMachine ∧
      (τ.registry.keys 18).root = .key 17 ∧ (τ.registry.keys 17).path = text "HKLM\\A" ∧
      (τ.registry.keys 18).path = text "HKLM\\A\\B" := by decide +kernel
  obtain ⟨σ, hσ⟩ := Option.isSome_iff_exists.mp hsome
  obtain ⟨h17, h18, hr17, hr18, hp17, hp18⟩ := hkeys σ hσ
  refine ⟨σ, hσ, h17, fun hagree => ?_⟩
  have hl := Agree.listed (run_inv hσ inv_empty) h17 hagree
  have hroot := (hl.subkey 18 (text "B") h18 (by decide +kernel) (by decide +kernel)
    (by rw [hp17, hp18]; decide +kernel)).1
  rw [hr17, hr18] at hroot
  cases hroot

end Agreement

end DiscouNT.Advapi
