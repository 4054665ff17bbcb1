import DiscouNT.Advapi.Enumerate

/-!
# Advapi.Sizes

Enumeration with buffers of the sizes that `RegQueryInfoKeyW` reports. They are large enough for the
values; for the subkeys the length 0 is reported, whatever their names are.
-/

namespace DiscouNT.Advapi

open Lib List

structure EnumeratedValue where
  status : Status
  name : Option (List UInt16)
  nameLen : Option Nat
  type : Option UInt32
  dataLen : Option Nat
  data : Option (List UInt8)
deriving DecidableEq, Repr

def EnumeratedValue.error (status : Status) : EnumeratedValue := ⟨status, none, none, none, none, none⟩

/-- `nameLen` and `dataLen` are the sizes of the buffers; `buffer` tells whether `data` is not null. -/
def regEnumValueW (σ : Registry) (hKey : HKey) (index nameLen : Nat) (buffer : Bool) (dataLen : Nat) :
    Option EnumeratedValue :=
  (σ.isUsed hKey).map fun
    | false => .error .invalidParameter
    | true =>
      match (σ.valuesOf hKey)[index]? with
      | none => .error .noMoreItems
      | some value =>
        let needed := value.name.length
        let name := regAsciiToWide value.name
        if nameLen ≤ needed then ⟨.moreData, none, some needed, none, none, none⟩
        else if buffer = false then
          ⟨.success, some name, some needed, some value.type, some value.size, none⟩
        else if dataLen < value.size then
          ⟨.moreData, some name, some needed, some value.type, some value.size, none⟩
        else
          ⟨.success, some name, some needed, some value.type, some value.size,
            some (loadBytes value.data 0 value.size)⟩

def DeliversEach {n : Nat} {β : Type} (call : Nat → Option β) (P : Fin n → Prop)
    (Item : Fin n → β → Prop) (last : β) : Prop :=
  ∃ slots : List (Fin n), slots.Nodup ∧ (∀ i, i ∈ slots ↔ P i) ∧
    (∀ index i, slots[index]? = some i → ∃ item, call index = some item ∧ Item i item) ∧
    ∀ index, slots.length ≤ index → call index = some last

/-- The key in slot `i` is the subkey of that in slot `k` with the name. -/
structure Registry.HasSubkey (σ : Registry) (k i : Fin 128) (name : List UInt8) : Prop where
  used : (σ.keys i).used = true
  root : (σ.keys i).root = (σ.keys k).root
  path : (σ.keys i).path = (σ.keys k).path ++ separator :: name
  plain : separator ∉ name

def EnumeratesKeys (σ : Registry) (k : Fin 128) (nameLen : Nat) : Prop :=
  DeliversEach (fun index => regEnumKeyExW σ (.key k) index nameLen)
    (fun i => ∃ name, σ.HasSubkey k i name)
    (fun i item => ∃ name, σ.HasSubkey k i name ∧
      item = ⟨.success, some (regAsciiToWide name), some name.length⟩)
    ⟨.noMoreItems, none, none⟩

def EnumeratesValues (σ : Registry) (k : Fin 128) (nameLen dataLen : Nat) : Prop :=
  DeliversEach (fun index => regEnumValueW σ (.key k) index nameLen true dataLen)
    (fun i => (σ.values i).used = true ∧ (σ.values i).key = .key k)
    (fun i item => item = ⟨.success, some (regAsciiToWide (σ.values i).name),
      some (σ.values i).name.length, some (σ.values i).type, some (σ.values i).size,
      some (loadBytes (σ.values i).data 0 (σ.values i).size)⟩)
    (.error .noMoreItems)

/-- What `RegQueryInfoKeyW` reports of a key is enough for its subkeys and its values. -/
def SizesSuffice (σ : Registry) (hKey : HKey) : Prop :=
  ∀ k info, hKey = .key k → regQueryInfoKeyW σ hKey = some (.ok info) →
    EnumeratesKeys σ k (info.maxSubKeyLen + 1) ∧
      EnumeratesValues σ k (info.maxValueNameLen + 1) info.maxValueLen

section Subkeys

variable {σ : Registry} {k i : Fin 128} {nameLen : Nat}

theorem mem_subkeys_iff : i ∈ σ.subkeys k ↔ ∃ name, σ.HasSubkey k i name := by
  rw [mem_subkeys]
  constructor
  · rintro ⟨hused, hroot, name, hplain, hpath⟩
    exact ⟨name, hused, hroot, hpath, hplain⟩
  · rintro ⟨name, h⟩
    exact ⟨h.used, h.root, name, h.plain, h.path⟩

theorem regEnumKeyExW_subkey {index : Nat} {name : List UInt8} (hk : (σ.keys k).used = true)
    (hi : (σ.subkeys k)[index]? = some i) (h : σ.HasSubkey k i name) :
    regEnumKeyExW σ (.key k) index nameLen = some (if nameLen ≤ name.length
      then ⟨.moreData, none, some name.length⟩
      else ⟨.success, some (regAsciiToWide name), some name.length⟩) := by
  simp only [regEnumKeyExW, hk, hi, childName_eq h.path]
  rw [if_neg (by simp)]
  split <;> rfl

theorem regEnumKeyExW_last {index : Nat} (hk : (σ.keys k).used = true)
    (hi : (σ.subkeys k).length ≤ index) :
    regEnumKeyExW σ (.key k) index nameLen = some ⟨.noMoreItems, none, none⟩ := by
  simp only [regEnumKeyExW, hk, getElem?_eq_none hi]
  rw [if_neg (by simp)]

theorem enumeratesKeys_iff (hk : (σ.keys k).used = true) :
    EnumeratesKeys σ k nameLen ↔ ∀ i name, σ.HasSubkey k i name → name.length < nameLen := by
  constructor
  · rintro ⟨slots, hnodup, hmem, hitem, hlast⟩ i name hi
    -- its place in the order of the slots is behind none of the items
    obtain ⟨index, hindex⟩ := mem_iff_getElem?.mp (mem_subkeys_iff.mpr ⟨name, hi⟩)
    have hcall := @regEnumKeyExW_subkey σ k i nameLen index name hk hindex hi
    by_contra hlong
    rw [if_pos (not_lt.mp hlong)] at hcall
    rcases hj : slots[index]? with _ | j
    · have hend := hcall.symm.trans (hlast index (List.getElem?_eq_none_iff.mp hj))
      cases hend
    · obtain ⟨item, hsome, other, -, rfl⟩ := hitem index j hj
      cases hcall.symm.trans hsome
  · intro hlen
    refine ⟨σ.subkeys k, (nodup_finRange 128).filter _, fun i => mem_subkeys_iff,
      fun index i hi => ?_, fun index hindex => regEnumKeyExW_last hk hindex⟩
    obtain ⟨name, hname⟩ := mem_subkeys_iff.mp (mem_of_getElem? hi)
    refine ⟨_, regEnumKeyExW_subkey hk hi hname, name, hname, ?_⟩
    rw [if_neg (not_le.mpr (hlen i name hname))]

end Subkeys

section Values

variable {σ : Registry} {k : Fin 128}

theorem le_foldl_max {l : List Nat} {a x : Nat} (h : x ≤ a ∨ x ∈ l) : x ≤ l.foldl max a := by
  induction l generalizing a with
  | nil =>
    rcases h with h | h
    · exact h
    · cases h
  | cons y l ih =>
    rw [foldl_cons]
    refine ih ?_
    rcases h with h | h
    · exact .inl (h.trans (Nat.le_max_left a y))
    · rcases mem_cons.mp h with rfl | h
      · exact .inl (Nat.le_max_right a x)
      · exact .inr h

def Registry.valueSlots (σ : Registry) (hKey : HKey) : List (Fin 256) :=
  (List.finRange 256).filter fun i => (σ.values i).used && decide ((σ.values i).key = hKey)

theorem valuesOf_eq {hKey : HKey} : σ.valuesOf hKey = (σ.valueSlots hKey).map σ.values := by
  rw [Registry.valuesOf, Registry.valueSlots, filter_map]
  rfl

theorem mem_valueSlots {hKey : HKey} {i : Fin 256} :
    i ∈ σ.valueSlots hKey ↔ (σ.values i).used = true ∧ (σ.values i).key = hKey := by
  simp [Registry.valueSlots]

theorem regQueryInfoKeyW_bounds {info : KeyInfo} {i : Fin 256}
    (h : regQueryInfoKeyW σ (.key k) = some (.ok info)) (hi : i ∈ σ.valueSlots (.key k)) :
    (σ.values i).name.length ≤ info.maxValueNameLen ∧ (σ.values i).size ≤ info.maxValueLen := by
  have hvalue : σ.values i ∈ σ.valuesOf (.key k) := by
    rw [valuesOf_eq]
    exact mem_map_of_mem hi
  simp only [regQueryInfoKeyW] at h
  split at h
  · cases h
  · cases h
    exact ⟨le_foldl_max (.inr (mem_map_of_mem (f := (·.name.length)) hvalue)),
      le_foldl_max (.inr (mem_map_of_mem (f := (·.size)) hvalue))⟩

theorem regQueryInfoKeyW_used {info : KeyInfo} (h : regQueryInfoKeyW σ (.key k) = some (.ok info)) :
    (σ.keys k).used = true ∧ info.maxSubKeyLen = 0 := by
  simp only [regQueryInfoKeyW] at h
  split at h
  · cases h
  · rename_i hused
    cases h
    exact ⟨by simpa using hused, rfl⟩

theorem values_suffice {info : KeyInfo} (h : regQueryInfoKeyW σ (.key k) = some (.ok info)) :
    EnumeratesValues σ k (info.maxValueNameLen + 1) info.maxValueLen := by
  have hused := (regQueryInfoKeyW_used h).1
  refine ⟨σ.valueSlots (.key k), (nodup_finRange 256).filter _, fun i => mem_valueSlots,
    fun index i hi => ⟨_, ?_, rfl⟩, fun index hindex => ?_⟩
  · obtain ⟨hname, hsize⟩ := regQueryInfoKeyW_bounds h (mem_of_getElem? hi)
    simp only [regEnumValueW, Registry.isUsed, hused, Option.map_some, valuesOf_eq,
      getElem?_map, hi]
    rw [if_neg (by omega), if_neg (by simp), if_neg (by omega)]
  · simp only [regEnumValueW, Registry.isUsed, hused, Option.map_some, valuesOf_eq,
      getElem?_map, getElem?_eq_none hindex, Option.map_none]

end Values

/-- The reported sizes suffice exactly for a key none of whose subkeys has a name. -/
theorem regQueryInfo_sizes_iff (σ : Registry) (hKey : HKey) :
    SizesSuffice σ hKey ↔ ∀ k i name, hKey = .key k → (σ.keys k).used = true →
      σ.HasSubkey k i name → name = [] := by
  constructor
  · rintro h k i name rfl hk hname
    obtain ⟨info, hinfo, -⟩ := delivered_count hk
    have hkeys := (h k info rfl hinfo).1
    rw [(regQueryInfoKeyW_used hinfo).2, enumeratesKeys_iff hk] at hkeys
    exact length_eq_zero_iff.mp (Nat.lt_one_iff.mp (hkeys i name hname))
  · rintro h k info rfl hinfo
    obtain ⟨hk, hzero⟩ := regQueryInfoKeyW_used hinfo
    refine ⟨(enumeratesKeys_iff hk).mpr fun i name hname => ?_, values_suffice hinfo⟩
    rw [h k i name rfl hk hname, hzero]
    exact Nat.zero_lt_one

/-- `HKEY_LOCAL_MACHINE` has the subkey `SYSTEM` as soon as the registry has been set up. -/
theorem regQueryInfo_sizes_system : ∃ σ, Reachable σ ∧ ¬ SizesSuffice σ.registry (.key 0) := by
  have hsome : (run [.regOpenKeyExW (.root .localMachine) none] .initial).isSome = true := by
    decide +kernel
  obtain ⟨σ, hσ⟩ := Option.isSome_iff_exists.mp hsome
  have hcheck : ∀ τ ∈ run [.regOpenKeyExW (.root .localMachine) none] .initial,
      (τ.registry.keys 0).used = true ∧
        ((τ.registry.keys 4).used = true ∧
          (τ.registry.keys 4).root = (τ.registry.keys 0).root ∧
          (τ.registry.keys 4).path = (τ.registry.keys 0).path ++ separator :: text "SYSTEM") ∧
        separator ∉ text "SYSTEM" ∧ text "SYSTEM" ≠ [] := by
    decide +kernel
  obtain ⟨h0, ⟨h4, hroot, hpath⟩, hplain, hne⟩ := hcheck σ hσ
  refine ⟨σ, ⟨_, hσ⟩, fun h => ?_⟩
  obtain ⟨info, hinfo, -⟩ := delivered_count h0
  have hkeys := (h 0 info rfl hinfo).1
  rw [(regQueryInfoKeyW_used hinfo).2, enumeratesKeys_iff h0] at hkeys
  have hlen := hkeys 4 _ ⟨h4, hroot, hpath, hplain⟩
  exact hne (length_eq_zero_iff.mp (Nat.lt_one_iff.mp hlen))

end DiscouNT.Advapi
