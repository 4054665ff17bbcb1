import DiscouNT.Advapi.Registry

/-!
# Advapi.RegistryInv

What the registry functions do to the two tables, and what always holds of them.
-/

namespace DiscouNT.Advapi

open Lib List Function Option

/-- What `reg_ascii_equal` compares. -/
def fold (name : List UInt8) : List UInt8 := name.map regUpper

theorem regAsciiEqual_iff : ∀ {a b : List UInt8}, regAsciiEqual a b = true ↔ fold a = fold b := by
  intro a
  induction a with
  | nil => intro b; cases b <;> simp [regAsciiEqual, fold]
  | cons x a ih =>
    intro b
    cases b with
    | nil => simp [regAsciiEqual, fold]
    | cons y b =>
      rw [regAsciiEqual]
      by_cases h : regUpper x = regUpper y
      · simpa [h, fold] using ih
      · simp [h, fold]

theorem regAsciiEqual_eq (a b : List UInt8) : regAsciiEqual a b = decide (fold a = fold b) := by
  rw [Bool.eq_iff_iff, regAsciiEqual_iff, decide_eq_true_iff]

theorem fold_length (name : List UInt8) : (fold name).length = name.length := by
  simp [fold]

theorem fold_append (a b : List UInt8) : fold (a ++ b) = fold a ++ fold b := by
  simp [fold]

theorem regUpper_eq_iff {ch c : UInt8} (hc : c < 65 ∨ 90 < c ∧ c < 97) : regUpper ch = c ↔ ch = c := by
  rw [regUpper]
  split
  · rename_i h
    have h1 := UInt8.le_iff_toNat_le.mp h.1
    have h2 := UInt8.le_iff_toNat_le.mp h.2
    have hsub : (ch - 32).toNat = ch.toNat - 32 :=
      UInt8.toNat_sub_of_le _ _ (by exact UInt8.le_trans (by decide) h.1)
    simp only [UInt8.lt_iff_toNat_lt] at hc
    simp at hc h1 h2
    constructor
    · intro heq
      rw [← heq] at hc
      omega
    · intro heq
      rw [← heq] at hc
      omega
  · rfl

theorem mem_fold {a : List UInt8} {c : UInt8} (hc : c < 65 ∨ 90 < c ∧ c < 97) :
    c ∈ fold a ↔ c ∈ a := by
  simp [fold, regUpper_eq_iff hc]

theorem fold_cons_separator (name : List UInt8) :
    fold (separator :: name) = separator :: fold name := rfl

theorem separator_mem_fold {name : List UInt8} : separator ∈ fold name ↔ separator ∈ name :=
  mem_fold (by decide)

section Narrow

variable {ch : UInt8} {unit : UInt16} {name : List UInt16}

theorem narrow_toUInt16 (h : ch < 128) : narrow ch.toUInt16 = ch := by
  have hlt : ch.toUInt16 < 128 := by
    rw [UInt8.lt_iff_toNat_lt] at h
    rw [UInt16.lt_iff_toNat_lt, UInt8.toNat_toUInt16]
    simpa using h
  rw [narrow, if_pos hlt]
  simp

theorem toUInt16_narrow (h : narrow unit ≠ 63) : (narrow unit).toUInt16 = unit := by
  rw [narrow] at h ⊢
  split at h
  · rename_i hlt
    rw [if_pos hlt]
    refine UInt16.toNat_inj.mp ?_
    rw [UInt8.toNat_toUInt16, UInt16.toNat_toUInt8]
    rw [UInt16.lt_iff_toNat_lt] at hlt
    simp at hlt
    omega
  · exact absurd rfl h

theorem narrow_eq_separator : narrow unit = separator ↔ unit = 92 := by
  constructor
  · intro h
    have hback := toUInt16_narrow (show narrow unit ≠ 63 by rw [h]; decide)
    rw [← hback, h]
    rfl
  · rintro rfl
    rfl

theorem separator_mem_narrow : separator ∈ name.map narrow ↔ 92 ∈ name := by
  simp [narrow_eq_separator]

end Narrow

theorem regWideToAscii_some {src : List UInt16} {limit : Nat} {name : List UInt8}
    (h : regWideToAscii (some src) limit = some name) : src.length < limit ∧ name = src.map narrow := by
  simp only [regWideToAscii] at h
  split at h
  · rename_i hlen
    cases h
    exact ⟨hlen, rfl⟩
  · cases h

/-- A string that has been converted fits and is ASCII. -/
structure Ascii (limit : Nat) (name : List UInt8) : Prop where
  length : name.length < limit
  ascii : ∀ ch ∈ name, ch < 128

theorem narrow_lt (ch : UInt16) : narrow ch < 128 := by
  rw [narrow]
  split
  · rename_i h
    rw [UInt8.lt_iff_toNat_lt, UInt16.toNat_toUInt8]
    rw [UInt16.lt_iff_toNat_lt] at h
    simp at h ⊢
    omega
  · decide

theorem regWideToAscii_ascii {src : Option (List UInt16)} {limit : Nat} {name : List UInt8}
    (hlimit : 0 < limit) (h : regWideToAscii src limit = some name) : Ascii limit name := by
  cases src with
  | none =>
    cases h
    exact ⟨hlimit, by simp⟩
  | some src =>
    obtain ⟨hlen, rfl⟩ := regWideToAscii_some h
    refine ⟨by simpa using hlen, fun ch hch => ?_⟩
    obtain ⟨unit, -, rfl⟩ := mem_map.mp hch
    exact narrow_lt unit

def RegKey.id (key : RegKey) : List UInt8 := fold key.path

def RegValue.id (value : RegValue) : HKey × List UInt8 := (value.key, fold value.name)

section Tables

variable (σ : Registry) (path name : List UInt8) (key : HKey)

theorem regFindKey_eq : regFindKey σ path = findKey RegKey.used RegKey.id σ.keys (fold path) := by
  unfold regFindKey findKey
  congr 1
  funext i
  rw [Bool.eq_iff_iff, Bool.and_eq_true, Bool.and_eq_true, regAsciiEqual_iff, decide_eq_true_iff]
  rfl

theorem regFindValue_eq : regFindValue σ key name =
    findKey RegValue.used RegValue.id σ.values (key, fold name) := by
  unfold regFindValue findKey
  congr 1
  funext i
  rw [regAsciiEqual_eq, Bool.eq_iff_iff]
  simp [RegValue.id, and_assoc]

theorem regMakeKey_cases (root : HKey) :
    (∃ i, regFindKey σ path = some i ∧ regMakeKey σ root path = (some i, σ)) ∨
    (∃ i, regFindKey σ path = none ∧ place RegKey.used RegKey.id σ.keys (fold path) = some i ∧
      (σ.keys i).used = false ∧
      regMakeKey σ root path = (some i, { σ with keys := update σ.keys i ⟨true, root, path⟩ })) ∨
    (regFindKey σ path = none ∧ (∀ i, (σ.keys i).used = true) ∧ regMakeKey σ root path = (none, σ)) := by
  rcases hf : regFindKey σ path with _ | i
  · right
    rcases hfree : firstSlot fun i => !(σ.keys i).used with _ | i
    · right
      refine ⟨rfl, fun i => by simpa using firstSlot_eq_none.mp hfree i, ?_⟩
      simp only [regMakeKey, hf, hfree]
    · left
      refine ⟨i, rfl, ?_, by simpa using firstSlot_some hfree, by simp only [regMakeKey, hf, hfree]⟩
      rw [place, ← regFindKey_eq, hf, none_or, hfree]
  · left
    exact ⟨i, rfl, by simp only [regMakeKey, hf]⟩

theorem storeValue_cases (type : UInt32) (data : RegData) :
    (∃ i value, place RegValue.used RegValue.id σ.values (key, fold name) = some i ∧
      value.used = true ∧ value.id = (key, fold name) ∧ value.type = type ∧ value.size = data.size ∧
      (∃ old, value.data = data.copy old) ∧
      σ.storeValue key name type data = some { σ with values := update σ.values i value }) ∨
    (regFindValue σ key name = none ∧ (∀ i, (σ.values i).used = true) ∧
      σ.storeValue key name type data = none) := by
  rcases hf : regFindValue σ key name with _ | i
  · rcases hfree : firstSlot fun i => !(σ.values i).used with _ | i
    · right
      refine ⟨rfl, fun i => by simpa using firstSlot_eq_none.mp hfree i, ?_⟩
      simp only [Registry.storeValue, regValueSlot, hf, hfree, map_none]
    · left
      refine ⟨i, ⟨true, key, name, type, data.size, data.copy (σ.values i).data⟩, ?_, ?_, ?_, ?_, ?_,
        ⟨_, rfl⟩, by simp only [Registry.storeValue, regValueSlot, hf, hfree, map_some]⟩
      · rw [place, ← regFindValue_eq, hf, none_or, hfree]
      · rfl
      · rfl
      · rfl
      · rfl
  · left
    have hfound := findKey_some ((regFindValue_eq σ name key).symm.trans hf)
    refine ⟨i, { σ.values i with type := type, size := data.size, data := data.copy (σ.values i).data },
      ?_, ?_, ?_, ?_, ?_, ⟨_, rfl⟩, by
        simp only [Registry.storeValue, regValueSlot, hf, map_some]⟩
    · rw [place, ← regFindValue_eq, hf, some_or]
    · exact hfound.1
    · exact hfound.2
    · rfl
    · rfl

end Tables

/-- The tables of a registry that has been used through its functions. -/
structure Registry.Inv (σ : Registry) : Prop where
  keys : Distinct RegKey.used RegKey.id σ.keys
  paths : ∀ i, (σ.keys i).used = true → Ascii regMaxPath (σ.keys i).path
  values : Distinct RegValue.used RegValue.id σ.values
  fresh : σ.initialized = false → (∀ i, (σ.keys i).used = false) ∧ ∀ i, (σ.values i).used = false

section Inv

variable {σ σ' : Registry} {path name : List UInt8} {root key : HKey} {type : UInt32} {data : RegData}

theorem inv_empty : Registry.empty.Inv where
  keys := by
    intro i j h
    cases h
  paths := by
    intro i h
    cases h
  values := by
    intro i j h
    cases h
  fresh _ := ⟨fun _ => rfl, fun _ => rfl⟩

variable (root) in
theorem Registry.Inv.makeKey (h : σ.Inv) (hinit : σ.initialized = true) (hpath : Ascii regMaxPath path) :
    (regMakeKey σ root path).2.Inv := by
  rcases regMakeKey_cases σ path root with ⟨i, -, heq⟩ | ⟨i, -, hplace, -, heq⟩ | ⟨-, -, heq⟩
  · rw [heq]
    exact h
  · rw [heq]
    refine ⟨h.keys.store hplace rfl, fun j hj => ?_, h.values, fun hno => ?_⟩
    · simp only [update_apply] at hj ⊢
      split
      · exact hpath
      · rename_i hji
        rw [if_neg hji] at hj
        exact h.paths j hj
    · rw [hinit] at hno
      cases hno
  · rw [heq]
    exact h

theorem makeKey_initialized (σ : Registry) (root : HKey) (path : List UInt8) :
    (regMakeKey σ root path).2.initialized = σ.initialized := by
  rcases regMakeKey_cases σ path root with ⟨i, -, heq⟩ | ⟨i, -, -, -, heq⟩ | ⟨-, -, heq⟩ <;> rw [heq]

theorem Registry.Inv.storeValue (h : σ.Inv) (hinit : σ.initialized = true)
    (hs : σ.storeValue key name type data = some σ') : σ'.Inv := by
  rcases storeValue_cases σ name key type data with ⟨i, value, hplace, -, hid, -, -, -, heq⟩ | ⟨-, -, heq⟩
  · rw [heq, some.injEq] at hs
    rw [← hs]
    refine ⟨h.keys, h.paths, h.values.store hplace hid, fun hno => ?_⟩
    rw [hinit] at hno
    cases hno
  · rw [heq] at hs
    cases hs

theorem storeValue_keys (hs : σ.storeValue key name type data = some σ') :
    σ'.keys = σ.keys ∧ σ'.initialized = σ.initialized := by
  rw [Registry.storeValue, map_eq_some_iff] at hs
  obtain ⟨r, -, rfl⟩ := hs
  exact ⟨rfl, rfl⟩

variable (key name) in
theorem Registry.Inv.seedValue (n : UInt32) (h : σ.Inv) (hinit : σ.initialized = true) :
    (registrySeedValue key name n σ).Inv ∧ (registrySeedValue key name n σ).initialized = true := by
  rw [registrySeedValue]
  rcases hs : σ.storeValue key name 4 (.bytes (dword n)) with _ | σ'
  · exact ⟨h, hinit⟩
  · exact ⟨h.storeValue hinit hs, (storeValue_keys hs).2.trans hinit⟩

theorem Registry.Inv.seedService {start : UInt32} (h : σ.Inv) (hinit : σ.initialized = true)
    (hname : Ascii regMaxPath (text "HKLM\\SYSTEM\\CurrentControlSet\\Services\\" ++ name)) :
    (registrySeedService name type start σ).Inv ∧
      (registrySeedService name type start σ).initialized = true := by
  have hmake := h.makeKey (.root .localMachine) hinit hname
  have hmade := makeKey_initialized σ (.root .localMachine)
    (text "HKLM\\SYSTEM\\CurrentControlSet\\Services\\" ++ name)
  rw [registrySeedService]
  rcases hr : regMakeKey σ (.root .localMachine)
    (text "HKLM\\SYSTEM\\CurrentControlSet\\Services\\" ++ name) with ⟨i, σ'⟩
  rw [hr] at hmake hmade
  cases i with
  | none => exact ⟨hmake, hmade.trans hinit⟩
  | some i =>
    obtain ⟨htype, hinit'⟩ := hmake.seedValue (text "Type") (.key i) type (hmade.trans hinit)
    exact htype.seedValue _ _ _ hinit'

instance (limit : Nat) (name : List UInt8) : Decidable (Ascii limit name) :=
  letI := name.decidableBAll (· < 128)
  decidable_of_iff (name.length < limit ∧ ∀ ch ∈ name, ch < 128)
    ⟨fun h => ⟨h.1, h.2⟩, fun h => ⟨h.1, h.2⟩⟩

theorem seededKeys_ascii : ∀ k ∈ seededKeys, Ascii regMaxPath k.2 := by decide +kernel

theorem seededServices_ascii : ∀ s ∈ seededServices,
    Ascii regMaxPath (text "HKLM\\SYSTEM\\CurrentControlSet\\Services\\" ++ s.1) := by decide +kernel

theorem foldl_keeps {α β : Type} {P : β → Prop} {f : β → α → β} :
    ∀ {l : List α} {b : β}, (∀ b a, a ∈ l → P b → P (f b a)) → P b → P (l.foldl f b) := by
  intro l
  induction l with
  | nil => intro b _ h; exact h
  | cons a l ih =>
    intro b hf h
    exact ih (fun b a ha => hf b a (mem_cons_of_mem _ ha)) (hf b a mem_cons_self h)

theorem Registry.Inv.registryInit (h : σ.Inv) :
    (registryInit σ).Inv ∧ (registryInit σ).initialized = true := by
  rw [Advapi.registryInit]
  split
  · rename_i hinit
    exact ⟨h, hinit⟩
  · rename_i hinit
    obtain ⟨hkeys, hvalues⟩ := h.fresh (by simpa using hinit)
    refine foldl_keeps (P := fun σ : Registry => σ.Inv ∧ σ.initialized = true) (fun σ s hs hσ => ?_)
      (foldl_keeps (P := fun σ : Registry => σ.Inv ∧ σ.initialized = true) (fun σ k hk hσ => ?_)
        ⟨⟨h.keys, h.paths, h.values, nofun⟩, rfl⟩)
    · exact hσ.1.seedService hσ.2 (seededServices_ascii s hs)
    · exact ⟨hσ.1.makeKey _ hσ.2 (seededKeys_ascii k hk), (makeKey_initialized _ _ _).trans hσ.2⟩

theorem registryInit_of_initialized (h : σ.initialized = true) : registryInit σ = σ := by
  rw [Advapi.registryInit, if_pos h]

theorem registryInit_idem (h : σ.Inv) : registryInit (registryInit σ) = registryInit σ :=
  registryInit_of_initialized h.registryInit.2

theorem Registry.Inv.registryInit_used (h : σ.Inv) {i : Fin 128} (hi : (σ.keys i).used = true) :
    Advapi.registryInit σ = σ := by
  refine registryInit_of_initialized ?_
  by_contra hno
  rw [(h.fresh (by simpa using hno)).1 i] at hi
  cases hi

end Inv

/-! ## The functions keep the invariant -/

section Functions

variable {σ σ' : Registry} {hKey : HKey} {sub name : Option (List UInt16)} {subkey path : List UInt8}
  {opened : Opened} {queried : Queried} {status : Status} {type : UInt32} {data : RegData}

theorem subkeyPath_ascii (h : σ.Inv) (hsub : Ascii regMaxPath subkey)
    (hp : σ.subkeyPath hKey subkey = some (.ok path)) : Ascii regMaxPath path := by
  have hroot : ∀ r, Ascii regMaxPath (regRootName r) := by
    intro r
    rcases r with _ | r | i
    · exact (by decide +kernel : Ascii regMaxPath (text "HKLM"))
    · cases r <;> exact (by decide +kernel)
    · exact (by decide +kernel : Ascii regMaxPath (text "HKLM"))
  have hfrom : ∀ {r}, regPathFrom r subkey = some path → Ascii regMaxPath path := by
    intro r hr
    simp only [regPathFrom] at hr
    split at hr
    · cases hr
      exact hroot r
    · split at hr
      · rename_i hlen
        cases hr
        refine ⟨by simpa [Nat.add_assoc, Nat.add_comm 1] using hlen, fun ch hch => ?_⟩
        rcases mem_append.mp hch with hch | hch
        · exact (hroot r).ascii ch hch
        · rcases mem_cons.mp hch with rfl | hch
          · decide
          · obtain ⟨ch', hch', rfl⟩ := mem_map.mp hch
            split
            · decide
            · exact hsub.ascii ch' hch'
      · cases hr
  rcases hKey with _ | r | i
  · simp only [Registry.subkeyPath] at hp
    split at hp
    · rename_i hr
      cases hp
      exact hfrom hr
    · cases hp
  · simp only [Registry.subkeyPath] at hp
    split at hp
    · rename_i hr
      cases hp
      exact hfrom hr
    · cases hp
  · simp only [Registry.subkeyPath] at hp
    split at hp
    · cases hp
    · rename_i hused
      have hi := h.paths i (by simpa using hused)
      split at hp
      · cases hp
        exact hi
      · split at hp
        · rename_i hlen
          cases hp
          refine ⟨by simpa [Nat.add_assoc, Nat.add_comm 1] using hlen, fun ch hch => ?_⟩
          rcases mem_append.mp hch with hch | hch
          · exact hi.ascii ch hch
          · rcases mem_cons.mp hch with rfl | hch
            · decide
            · exact hsub.ascii ch hch
        · cases hp

theorem regOpenKeyExW_registry (h : regOpenKeyExW σ hKey sub = some (opened, σ')) :
    σ' = registryInit σ := by
  simp only [regOpenKeyExW] at h
  split at h
  · cases h
    rfl
  · rw [map_eq_some_iff] at h
    obtain ⟨r, -, h⟩ := h
    rcases r with status | path
    · cases h
      rfl
    · simp only at h
      split at h <;> cases h <;> rfl

theorem Registry.Inv.regCreateKeyExW (h : σ.Inv) (hc : regCreateKeyExW σ hKey sub = some (opened, σ')) :
    σ'.Inv := by
  have hinit := h.registryInit
  simp only [Advapi.regCreateKeyExW] at hc
  split at hc
  · cases hc
    exact hinit.1
  · rename_i subkey hsub
    rw [map_eq_some_iff] at hc
    obtain ⟨r, hr, hc⟩ := hc
    rcases r with status | path
    · cases hc
      exact hinit.1
    · have hpath := subkeyPath_ascii hinit.1 (regWideToAscii_ascii (by decide) hsub) hr
      have hmake := hinit.1.makeKey hKey hinit.2 hpath
      simp only at hc
      split at hc
      · rename_i i σ'' heq
        cases hc
        rw [heq] at hmake
        exact hmake
      · rename_i σ'' heq
        cases hc
        rw [heq] at hmake
        exact hmake

theorem regQueryValueExW_registry {buffer : Bool} {cbData : Option Nat}
    (h : regQueryValueExW σ hKey name buffer cbData = some (queried, σ')) : σ' = registryInit σ := by
  simp only [regQueryValueExW, map_eq_some_iff] at h
  obtain ⟨isUsed, -, h⟩ := h
  split at h
  · split at h
    · cases h
      rfl
    · split_ifs at h <;> cases h <;> rfl
  · cases h
    rfl

theorem regSetValueExW_cases (h : regSetValueExW σ hKey name type data = some (status, σ')) :
    (status = .success ∧ (registryInit σ).isUsed hKey = some true ∧ data.size ≤ regMaxData ∧
      ∃ ascii, regWideToAscii name regMaxName = some ascii ∧
        (registryInit σ).storeValue hKey ascii type data = some σ') ∨
    (status ≠ .success ∧ σ' = registryInit σ) := by
  simp only [regSetValueExW, map_eq_some_iff] at h
  obtain ⟨isUsed, hused, h⟩ := h
  split at h
  · rename_i ascii hascii
    split at h
    · cases h
      exact .inr ⟨nofun, rfl⟩
    · rename_i hsize
      split at h
      · cases h
        exact .inr ⟨nofun, rfl⟩
      · rename_i σ'' hs
        cases h
        exact .inl ⟨rfl, hused, by omega, ascii, hascii, hs⟩
  · cases h
    exact .inr ⟨nofun, rfl⟩

theorem Registry.Inv.regSetValueExW (h : σ.Inv)
    (hs : regSetValueExW σ hKey name type data = some (status, σ')) : σ'.Inv := by
  rcases regSetValueExW_cases hs with ⟨-, -, -, ascii, -, hstore⟩ | ⟨-, rfl⟩
  · exact h.registryInit.1.storeValue h.registryInit.2 hstore
  · exact h.registryInit.1

theorem regSetValueExA_cases {ansi : Option (List UInt8)}
    (h : regSetValueExA σ hKey ansi type data = some (status, σ')) :
    (∃ wide, ansi.map (fun l => regAsciiToWide (l.take (regMaxName - 1))) = some wide ∧
      regSetValueExW σ hKey (some wide) type data = some (status, σ')) ∨
    (status = .invalidParameter ∧ σ' = σ) := by
  cases ansi with
  | none =>
    cases h
    exact .inr ⟨rfl, rfl⟩
  | some ansi => exact .inl ⟨_, rfl, h⟩

theorem Registry.Inv.regSetValueExA {ansi : Option (List UInt8)} (h : σ.Inv)
    (hs : regSetValueExA σ hKey ansi type data = some (status, σ')) : σ'.Inv := by
  rcases regSetValueExA_cases hs with ⟨wide, -, hw⟩ | ⟨-, rfl⟩
  · exact h.regSetValueExW hw
  · exact h

theorem regDeleteValueW_cases (σ : Registry) (hKey : HKey) (name : Option (List UInt16)) :
    (∃ ascii i, regWideToAscii name regMaxName = some ascii ∧ regFindValue σ hKey ascii = some i ∧
      regDeleteValueW σ hKey name = (.success, { σ with
        values := update σ.values i { σ.values i with used := false } })) ∨
    ((regDeleteValueW σ hKey name).1 ≠ .success ∧ (regDeleteValueW σ hKey name).2 = σ) := by
  simp only [regDeleteValueW]
  rcases regWideToAscii name regMaxName with _ | ascii
  · exact .inr ⟨nofun, rfl⟩
  · by_cases hnull : hKey = .null
    · simp only [if_pos hnull]
      exact .inr ⟨nofun, trivial⟩
    · simp only [if_neg hnull]
      rcases hf : regFindValue σ hKey ascii with _ | i
      · exact .inr ⟨nofun, rfl⟩
      · exact .inl ⟨ascii, i, rfl, hf, rfl⟩

theorem Registry.Inv.regDeleteValueW (h : σ.Inv) : (regDeleteValueW σ hKey name).2.Inv := by
  rcases regDeleteValueW_cases σ hKey name with ⟨ascii, i, -, hf, heq⟩ | ⟨-, heq⟩
  · rw [heq]
    refine ⟨h.keys, h.paths, h.values.free rfl, fun hno => ⟨(h.fresh hno).1, fun j => ?_⟩⟩
    simp only [update_apply]
    split
    · rfl
    · exact (h.fresh hno).2 j
  · rw [heq]
    exact h

end Functions

end DiscouNT.Advapi
