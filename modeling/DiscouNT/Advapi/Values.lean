import DiscouNT.Advapi.Calls

/-!
# Advapi.Values

The values of all keys as one partial map, from a key and a name to a type and the bytes. Setting
and deleting a value update the map at one place, and `RegQueryValueExW` reads it; two names are the
same place when they are the same after their conversion to ASCII, up to case.
-/

namespace DiscouNT.Advapi

open Lib

/-- Where a value is stored: its key, and its name after conversion and up to case. -/
abbrev ValueId := HKey × List UInt8

section Map

variable {ρ ρ' : Registry} {hKey : HKey} {name : List UInt8} {id : ValueId} {type : UInt32}
  {data : RegData} {i : Fin 256}

def RegValue.content (value : RegValue) : UInt32 × List UInt8 :=
  (value.type, loadBytes value.data 0 value.size)

def Registry.lookup (ρ : Registry) (id : ValueId) : Option (UInt32 × List UInt8) :=
  (findKey RegValue.used RegValue.id ρ.values id).map fun i => (ρ.values i).content

theorem lookup_update {values : Fin 256 → RegValue} {value : RegValue}
    (hold : (values i).used = true → (values i).id = id)
    (hnew : value.used = true → value.id = id) {id' : ValueId} (hne : id' ≠ id) :
    (findKey RegValue.used RegValue.id (Function.update values i value) id').map
        (fun j => (Function.update values i value j).content) =
      (findKey RegValue.used RegValue.id values id').map fun j => (values j).content := by
  rw [findKey_store_other hold hnew hne]
  rcases hf : findKey RegValue.used RegValue.id values id' with _ | j
  · rfl
  · have hj := findKey_some hf
    have hji : j ≠ i := by
      rintro rfl
      exact hne (hj.2.symm.trans (hold hj.1))
    simp only [Option.map_some, Function.update_of_ne hji]

theorem Registry.Inv.lookup_store (h : ρ.Inv) (hs : ρ.storeValue hKey name type data = some ρ') :
    ∃ bytes, bytes.length = data.size ∧ (∀ l, data = .bytes l → bytes = l) ∧
      ρ'.lookup = Function.update ρ.lookup (hKey, fold name) (some (type, bytes)) := by
  rcases storeValue_cases ρ name hKey type data with
    ⟨i, value, hplace, hused, hid, htype, hsize, ⟨old, hdata⟩, heq⟩ | ⟨-, -, heq⟩
  · rw [heq, Option.some.injEq] at hs
    refine ⟨loadBytes value.data 0 value.size, by rw [loadBytes_length, hsize], ?_, ?_⟩
    · rintro l rfl
      rw [hdata, hsize]
      exact loadBytes_storeBytes_same old 0 l
    · rw [← hs]
      funext id
      rw [Function.update_apply]
      split
      · rename_i hid'
        subst hid'
        simp only [Registry.lookup, h.values.findKey_store hplace hid hused, Option.map_some,
          Function.update_self, RegValue.content, htype]
      · rename_i hne
        refine lookup_update (fun hu => ?_) (fun _ => hid) hne
        rcases place_cases hplace with ⟨-, hkey⟩ | ⟨hfree, -⟩
        · exact hkey
        · rw [hfree] at hu
          cases hu
  · rw [heq] at hs
    cases hs

theorem Registry.Inv.lookup_delete (h : ρ.Inv) (hi : regFindValue ρ hKey name = some i) :
    Registry.lookup { ρ with
      values := Function.update ρ.values i { ρ.values i with used := false } } =
      Function.update ρ.lookup (hKey, fold name) none := by
  have hfound := findKey_some ((regFindValue_eq ρ name hKey).symm.trans hi)
  funext id
  rw [Function.update_apply]
  split
  · rename_i hid
    subst hid
    rw [Registry.lookup, Option.map_eq_none_iff, findKey_eq_none]
    intro j hj
    simp only [Function.update_apply] at hj ⊢
    split at hj
    · cases hj
    · rename_i hji
      rw [if_neg hji]
      exact fun heq => hji (h.values j i hj hfound.1 (heq.trans hfound.2.symm))
  · rename_i hne
    exact lookup_update (fun _ => hfound.2) (fun hu => by cases hu) hne

end Map

section Query

variable {ρ ρ' : Registry} {hKey : HKey} {name : Option (List UInt16)}

def answer (value : UInt32 × List UInt8) (buffer : Bool) (cbData : Nat) : Queried :=
  if buffer = false then ⟨.success, some value.1, some value.2.length, none⟩
  else if cbData < value.2.length then ⟨.moreData, some value.1, some value.2.length, none⟩
  else ⟨.success, some value.1, some value.2.length, some value.2⟩

def query (ρ : Registry) (hKey : HKey) (name : Option (List UInt16)) (buffer : Bool)
    (cbData : Option Nat) : Option Queried :=
  (regQueryValueExW ρ hKey name buffer cbData).map (·.1)

theorem query_eq (ρ : Registry) (hKey : HKey) (name : Option (List UInt16)) (buffer : Bool)
    (cbData : Option Nat) : query ρ hKey name buffer cbData =
      ((registryInit ρ).isUsed hKey).map fun isUsed =>
        match isUsed, cbData, regWideToAscii name regMaxName with
        | true, some cbData, some name =>
          match (registryInit ρ).lookup (hKey, fold name) with
          | none => .error .fileNotFound
          | some value => answer value buffer cbData
        | _, _, _ => .error .invalidParameter := by
  simp only [query, regQueryValueExW, Option.map_map]
  congr 1
  funext isUsed
  simp only [Function.comp_apply]
  rcases isUsed with _ | _ <;> rcases cbData with _ | cbData <;>
    rcases regWideToAscii name regMaxName with _ | name <;> try rfl
  simp only [Registry.lookup, ← regFindValue_eq]
  rcases regFindValue (registryInit ρ) hKey name with _ | i
  · rfl
  · simp only [Option.map_some, answer, RegValue.content, loadBytes_length]
    split_ifs <;> rfl

theorem query_congr (hused : (registryInit ρ).isUsed hKey = (registryInit ρ').isUsed hKey)
    (hmap : ∀ ascii, regWideToAscii name regMaxName = some ascii →
      (registryInit ρ).lookup (hKey, fold ascii) = (registryInit ρ').lookup (hKey, fold ascii))
    (buffer : Bool) (cbData : Option Nat) :
    query ρ hKey name buffer cbData = query ρ' hKey name buffer cbData := by
  rw [query_eq, query_eq, hused]
  congr 1
  funext isUsed
  rcases isUsed with _ | _ <;> rcases cbData with _ | cbData <;>
    rcases hname : regWideToAscii name regMaxName with _ | ascii <;> try rfl
  simp only [hmap ascii hname]

end Query

def valueId (hKey : HKey) (name : Option (List UInt16)) : Option ValueId :=
  (regWideToAscii name regMaxName).map fun ascii => (hKey, fold ascii)

def Call.target : Call → Option ValueId
  | .regSetValueExW hKey name _ _ => valueId hKey name
  | .regSetValueExA hKey name _ _ => name.bind fun name => valueId hKey (some (regAsciiToWide name))
  | .regDeleteValueW hKey name => valueId hKey name
  | _ => none

def Call.content : Call → Option (UInt32 × List UInt8)
  | .regSetValueExW _ _ type (.bytes data) => some (type, data)
  | .regSetValueExA _ _ type (.bytes data) => some (type, data)
  | _ => none

def statusOf (σ : State) : Call → Option Status
  | .regSetValueExW hKey name type data => (regSetValueExW σ.registry hKey name type data).map (·.1)
  | .regSetValueExA hKey name type data => (regSetValueExA σ.registry hKey name type data).map (·.1)
  | .regDeleteValueW hKey name => some (regDeleteValueW σ.registry hKey name).1
  | .regQueryValueExW hKey name buffer cbData =>
    (regQueryValueExW σ.registry hKey name buffer cbData).map (·.1.status)
  | _ => none

/-- The calls other than `CreateServiceW`, with names that `RegSetValueExA` does not cut off. -/
def Call.OnValues : Call → Prop
  | .regSetValueExA _ name _ _ => ∀ l, name = some l → l.length < regMaxName
  | .createServiceW _ => False
  | _ => True

section Effects

variable {σ σ' : State} {ρ ρ' : Registry} {call : Call} {hKey : HKey} {name : Option (List UInt16)}
  {type : UInt32} {data : RegData} {status : Status} {id : ValueId}

theorem regSetValueExW_map (h : ρ.Inv)
    (hs : regSetValueExW ρ hKey name type data = some (status, ρ')) :
    (status ≠ .success ∧ ρ' = registryInit ρ) ∨
      (status = .success ∧ ρ'.keys = (registryInit ρ).keys ∧ registryInit ρ' = ρ' ∧
        (registryInit ρ).isUsed hKey = some true ∧
        ∃ id bytes, valueId hKey name = some id ∧ id.1 = hKey ∧ (∀ l, data = .bytes l → bytes = l) ∧
          ρ'.lookup = Function.update (registryInit ρ).lookup id (some (type, bytes))) := by
  rcases regSetValueExW_cases hs with ⟨rfl, hused, -, ascii, hname, hstore⟩ | h
  · obtain ⟨hinv, hinit⟩ := h.registryInit
    obtain ⟨bytes, -, hbytes, hmap⟩ := hinv.lookup_store hstore
    obtain ⟨hkeys, hinit'⟩ := storeValue_keys hstore
    refine .inr ⟨rfl, hkeys, registryInit_of_initialized (hinit'.trans hinit), hused,
      (hKey, fold ascii), bytes, ?_, rfl, hbytes, hmap⟩
    rw [valueId, hname]
    rfl
  · exact .inl h

theorem regSetValueExA_eq {ansi : List UInt8} (hlen : ansi.length < regMaxName) :
    regSetValueExA ρ hKey (some ansi) type data =
      regSetValueExW ρ hKey (some (regAsciiToWide ansi)) type data := by
  rw [regSetValueExA, List.take_of_length_le (by rw [regMaxName] at hlen ⊢; omega)]

theorem regDeleteValueW_map (h : ρ.Inv) (hKey : HKey) (name : Option (List UInt16)) :
    ((regDeleteValueW ρ hKey name).1 ≠ .success ∧ (regDeleteValueW ρ hKey name).2 = ρ) ∨
      ((regDeleteValueW ρ hKey name).1 = .success ∧ registryInit ρ = ρ ∧
        (regDeleteValueW ρ hKey name).2.keys = ρ.keys ∧
        registryInit (regDeleteValueW ρ hKey name).2 = (regDeleteValueW ρ hKey name).2 ∧
        ∃ id, valueId hKey name = some id ∧
          (regDeleteValueW ρ hKey name).2.lookup = Function.update ρ.lookup id none) := by
  rcases regDeleteValueW_cases ρ hKey name with ⟨ascii, i, hname, hi, heq⟩ | hfail
  · have hinit : ρ.initialized = true := by
      by_contra hno
      have hfree := (h.fresh (by simpa using hno)).2 i
      rw [(findKey_some ((regFindValue_eq ρ ascii hKey).symm.trans hi)).1] at hfree
      cases hfree
    rw [heq]
    refine .inr ⟨rfl, registryInit_of_initialized hinit, rfl, registryInit_of_initialized hinit,
      (hKey, fold ascii), ?_, h.lookup_delete hi⟩
    rw [valueId, hname]
    rfl
  · exact .inl hfail

structure Writes (ρ ρ' : Registry) (id : ValueId) (content : Option (UInt32 × List UInt8)) : Prop where
  keys : ρ'.keys = (registryInit ρ).keys
  init : registryInit ρ' = ρ'
  map : ρ'.lookup = Function.update (registryInit ρ).lookup id content

theorem call_effect (h : σ.registry.Inv) (hcall : call.OnValues) (hs : step σ call = some σ')
    (hstatus : statusOf σ call = some status) :
    ((σ'.registry = σ.registry ∨ σ'.registry = registryInit σ.registry) ∧
        (status = .success → call.target = none)) ∨
      (status = .success ∧ ∃ id content, call.target = some id ∧
        (∀ value, call.content = some value → content = some value ∧
          (registryInit σ.registry).isUsed id.1 = some true) ∧
        Writes σ.registry σ'.registry id content) := by
  have hset : ∀ {hKey name type data r}, regSetValueExW σ.registry hKey name type data = some r →
      (r.2 = registryInit σ.registry ∧ r.1 ≠ .success) ∨
      (r.1 = .success ∧ ∃ id content, valueId hKey name = some id ∧
        (∀ l, data = .bytes l → content = some (type, l) ∧
          (registryInit σ.registry).isUsed id.1 = some true) ∧ Writes σ.registry r.2 id content) := by
    intro hKey name type data r hr
    rcases regSetValueExW_map h hr with ⟨hfail, heq⟩ | ⟨hok, hkeys, hinit, hused, id, bytes, hid, hkey, hb, hmap⟩
    · exact .inl ⟨heq, hfail⟩
    · refine .inr ⟨hok, id, some (type, bytes), hid, fun l hl => ⟨by rw [hb l hl], ?_⟩, hkeys, hinit, hmap⟩
      rw [hkey]
      exact hused
  cases call with
  | regSetValueExW hKey name type data =>
    simp only [step, Option.map_eq_some_iff] at hs
    obtain ⟨r, hr, rfl⟩ := hs
    simp only [statusOf, hr, Option.map_some, Option.some.injEq] at hstatus
    subst hstatus
    rcases hset hr with ⟨heq, hfail⟩ | ⟨hok, id, content, hid, hcontent, hw⟩
    · exact .inl ⟨.inr heq, fun hok => absurd hok hfail⟩
    · refine .inr ⟨hok, id, content, hid, fun value hv => ?_, hw⟩
      cases data with
      | null cbData => cases hv
      | bytes l =>
        cases hv
        exact hcontent l rfl
  | regSetValueExA hKey ansi type data =>
    simp only [step, Option.map_eq_some_iff] at hs
    obtain ⟨r, hr, rfl⟩ := hs
    simp only [statusOf, hr, Option.map_some, Option.some.injEq] at hstatus
    subst hstatus
    cases ansi with
    | none =>
      cases hr
      exact .inl ⟨.inl rfl, fun hok => by cases hok⟩
    | some ansi =>
      rw [regSetValueExA_eq (hcall ansi rfl)] at hr
      rcases hset hr with ⟨heq, hfail⟩ | ⟨hok, id, content, hid, hcontent, hw⟩
      · exact .inl ⟨.inr heq, fun hok => absurd hok hfail⟩
      · refine .inr ⟨hok, id, content, hid, fun value hv => ?_, hw⟩
        cases data with
        | null cbData => cases hv
        | bytes l =>
          cases hv
          exact hcontent l rfl
  | regDeleteValueW hKey name =>
    cases hs
    cases hstatus
    rcases regDeleteValueW_map h hKey name with ⟨hfail, heq⟩ | ⟨hok, hinit, hkeys, hinit', id, hid, hmap⟩
    · exact .inl ⟨.inl heq, fun hok => absurd hok hfail⟩
    · refine .inr ⟨hok, id, none, hid, (fun _ h => by cases h), ⟨?_, hinit', ?_⟩⟩
      · rw [hinit, hkeys]
      · rw [hinit, hmap]
  | regQueryValueExW hKey name buffer cbData =>
    simp only [step, Option.map_eq_some_iff] at hs
    obtain ⟨r, hr, rfl⟩ := hs
    exact .inl ⟨.inr (regQueryValueExW_registry hr), fun _ => rfl⟩
  | _ => cases hstatus

theorem query_init (h : registryInit ρ' = registryInit ρ) (hKey : HKey) (name : Option (List UInt16))
    (buffer : Bool) (cbData : Option Nat) :
    query ρ' hKey name buffer cbData = query ρ hKey name buffer cbData := by
  rw [query_eq, query_eq, h]

theorem Writes.query {content : Option (UInt32 × List UInt8)} (h : Writes ρ ρ' id content)
    (hne : valueId hKey name ≠ some id) (buffer : Bool) (cbData : Option Nat) :
    query ρ' hKey name buffer cbData = query ρ hKey name buffer cbData := by
  refine query_congr ?_ (fun ascii hascii => ?_) buffer cbData
  · rw [h.init]
    cases hKey <;> simp [Registry.isUsed, h.keys]
  · rw [h.init, h.map, Function.update_of_ne]
    intro heq
    refine hne ?_
    rw [valueId, hascii, ← heq]
    rfl

structure Holds (ρ : Registry) (id : ValueId) (value : UInt32 × List UInt8) : Prop where
  init : registryInit ρ = ρ
  used : ρ.isUsed id.1 = some true
  map : ρ.lookup id = some value

theorem Holds.query {value : UInt32 × List UInt8} (h : Holds ρ id value)
    (hid : valueId hKey name = some id) (buffer : Bool) (cbData : Nat) :
    query ρ hKey name buffer (some cbData) = some (answer value buffer cbData) := by
  rw [valueId, Option.map_eq_some_iff] at hid
  obtain ⟨ascii, hascii, rfl⟩ := hid
  rw [query_eq, h.init, h.used, hascii]
  simp only [Option.map_some, h.map]

theorem regCreateKeyExW_keeps {opened : Opened} {sub : Option (List UInt16)}
    (hc : regCreateKeyExW ρ hKey sub = some (opened, ρ')) :
    ρ'.values = (registryInit ρ).values ∧ ρ'.initialized = (registryInit ρ).initialized ∧
      ∀ i, ((registryInit ρ).keys i).used = true → (ρ'.keys i).used = true := by
  simp only [regCreateKeyExW] at hc
  split at hc
  · cases hc
    exact ⟨rfl, rfl, fun _ h => h⟩
  · rw [Option.map_eq_some_iff] at hc
    obtain ⟨r, -, hc⟩ := hc
    rcases r with status | path
    · cases hc
      exact ⟨rfl, rfl, fun _ h => h⟩
    · have hmake : (regMakeKey (registryInit ρ) hKey path).2.values = (registryInit ρ).values ∧
          (regMakeKey (registryInit ρ) hKey path).2.initialized = (registryInit ρ).initialized ∧
          ∀ i, ((registryInit ρ).keys i).used = true →
            ((regMakeKey (registryInit ρ) hKey path).2.keys i).used = true := by
        rcases regMakeKey_cases (registryInit ρ) path hKey with
          ⟨i, -, heq⟩ | ⟨i, -, -, -, heq⟩ | ⟨-, -, heq⟩
        · rw [heq]
          exact ⟨rfl, rfl, fun _ h => h⟩
        · rw [heq]
          refine ⟨rfl, rfl, fun j hj => ?_⟩
          simp only [Function.update_apply]
          split
          · rfl
          · exact hj
        · rw [heq]
          exact ⟨rfl, rfl, fun _ h => h⟩
      simp only at hc
      split at hc
      · rename_i i ρ'' heq
        cases hc
        rw [heq] at hmake
        exact hmake
      · rename_i ρ'' heq
        cases hc
        rw [heq] at hmake
        exact hmake

theorem Holds.step {value : UInt32 × List UInt8} (h : Holds σ.registry id value)
    (hinv : σ.registry.Inv) (hcall : call.OnValues) (hne : call.target ≠ some id)
    (hs : step σ call = some σ') : Holds σ'.registry id value := by
  by_cases hstatus : ∃ status, statusOf σ call = some status
  · obtain ⟨status, hstatus⟩ := hstatus
    rcases call_effect hinv hcall hs hstatus with ⟨heq, -⟩ | ⟨-, id', content, htarget, -, hw⟩
    · rw [h.init, or_self] at heq
      rw [heq]
      exact h
    · have hne' : id ≠ id' := fun heq => hne (by rw [htarget, heq])
      refine ⟨hw.init, ?_, ?_⟩
      · have hused := h.used
        rw [← h.init] at hused
        revert hused
        cases id.1 <;> simp [Registry.isUsed, hw.keys]
      · rw [hw.map, Function.update_of_ne hne', h.init, h.map]
  · have hsame : σ'.registry = σ.registry → Holds σ'.registry id value := by
      intro heq
      rw [heq]
      exact h
    cases call with
    | regOpenKeyExW hKey sub =>
      simp only [Advapi.step, Option.map_eq_some_iff] at hs
      obtain ⟨r, hr, rfl⟩ := hs
      exact hsame ((regOpenKeyExW_registry hr).trans h.init)
    | regCreateKeyExW hKey sub =>
      simp only [Advapi.step, Option.map_eq_some_iff] at hs
      obtain ⟨r, hr, rfl⟩ := hs
      obtain ⟨hvalues, hinit, hkeys⟩ := regCreateKeyExW_keeps hr
      have hinit' := hinv.registryInit.2
      rw [h.init] at hvalues hkeys
      refine ⟨registryInit_of_initialized (hinit.trans hinit'), ?_, ?_⟩
      · have hused := h.used
        revert hused
        cases id.1 with
        | key i => simpa [Registry.isUsed] using hkeys i
        | _ => simp [Registry.isUsed]
      · rw [← h.map, Registry.lookup, Registry.lookup, hvalues]
    | regSetValueExW hKey name type data =>
      simp only [Advapi.step, Option.map_eq_some_iff] at hs
      obtain ⟨r, hr, rfl⟩ := hs
      exact absurd ⟨r.1, by simp only [statusOf, hr, Option.map_some]⟩ hstatus
    | regSetValueExA hKey name type data =>
      simp only [Advapi.step, Option.map_eq_some_iff] at hs
      obtain ⟨r, hr, rfl⟩ := hs
      exact absurd ⟨r.1, by simp only [statusOf, hr, Option.map_some]⟩ hstatus
    | regDeleteValueW hKey name => exact absurd ⟨_, rfl⟩ hstatus
    | regQueryValueExW hKey name buffer cbData =>
      simp only [Advapi.step, Option.map_eq_some_iff] at hs
      obtain ⟨r, hr, rfl⟩ := hs
      exact absurd ⟨r.1.status, by simp only [statusOf, hr, Option.map_some]⟩ hstatus
    | openServiceW name =>
      cases hs
      exact h
    | createServiceW args => exact hcall.elim
    | deleteService service =>
      cases hs
      exact hsame updateService_registry
    | startServiceW service =>
      cases hs
      exact hsame updateService_registry
    | controlService service control =>
      cases hs
      exact hsame updateService_registry
    | queryServiceStatus service =>
      cases hs
      exact h

theorem Holds.run {value : UInt32 × List UInt8} : ∀ {calls : List Call} {σ σ' : State},
    Holds σ.registry id value → σ.registry.Inv →
      (∀ call ∈ calls, call.OnValues ∧ call.target ≠ some id) → run calls σ = some σ' →
      Holds σ'.registry id value := by
  intro calls
  induction calls with
  | nil =>
    intro σ σ' h _ _ hrun
    cases hrun
    exact h
  | cons call calls ih =>
    intro σ σ' h hinv hcalls hrun
    obtain ⟨mid, hs, hrun⟩ := run_cons hrun
    obtain ⟨hcall, hne⟩ := hcalls call List.mem_cons_self
    exact ih (h.step hinv hcall hne hs) (step_inv hs hinv)
      (fun call hcall => hcalls call (List.mem_cons_of_mem _ hcall)) hrun

/-! ## The laws of the value store -/

structure ValueLaws (σ σ' : State) (call : Call) (status : Status) : Prop where
  /-- no key has two values with one name -/
  unique : Distinct RegValue.used RegValue.id σ'.registry.values
  /-- what has been set is what a query for the name finds, until it is set or deleted again -/
  set : ∀ value id, call.content = some value → call.target = some id → status = .success →
    ∀ calls σ'', run calls σ' = some σ'' →
      (∀ call ∈ calls, call.OnValues ∧ call.target ≠ some id) →
      ∀ hKey name, valueId hKey name = some id → ∀ buffer cbData,
        query σ''.registry hKey name buffer (some cbData) = some (answer value buffer cbData)
  /-- other keys and names are not affected -/
  other : ∀ hKey name, (∀ id, call.target = some id → valueId hKey name ≠ some id) →
    ∀ buffer cbData, query σ'.registry hKey name buffer cbData = query σ.registry hKey name buffer cbData
  /-- a call that fails affects nothing -/
  failed : status ≠ .success → ∀ hKey name buffer cbData,
    query σ'.registry hKey name buffer cbData = query σ.registry hKey name buffer cbData

theorem value_store (σ σ' : State) (call : Call) (status : Status) (h : Reachable σ)
    (hcall : call.OnValues) (hs : step σ call = some σ') (hstatus : statusOf σ call = some status) :
    ValueLaws σ σ' call status := by
  have hinv' := step_inv hs h.inv
  refine ⟨hinv'.values, ?_, ?_, ?_⟩
  · intro value id hcontent htarget hok calls σ'' hrun hcalls hKey name hid buffer cbData
    rcases call_effect h.inv hcall hs hstatus with ⟨-, hno⟩ | ⟨-, id', content, htarget', hset, hw⟩
    · rw [hno hok] at htarget
      cases htarget
    · rw [htarget] at htarget'
      cases htarget'
      obtain ⟨rfl, hused⟩ := hset value hcontent
      have hholds : Holds σ'.registry id value := by
        refine ⟨hw.init, ?_, by rw [hw.map, Function.update_self]⟩
        revert hused
        cases id.1 <;> simp [Registry.isUsed, hw.keys]
      exact (hholds.run hinv' hcalls hrun).query hid buffer cbData
  · intro hKey name hne buffer cbData
    rcases call_effect h.inv hcall hs hstatus with ⟨heq, -⟩ | ⟨-, id, content, htarget, -, hw⟩
    · refine query_init ?_ hKey name buffer cbData
      rcases heq with heq | heq <;> rw [heq]
      exact registryInit_idem h.inv
    · exact hw.query (hne id htarget) buffer cbData
  · intro hfail hKey name buffer cbData
    rcases call_effect h.inv hcall hs hstatus with ⟨heq, -⟩ | ⟨hok, -⟩
    · refine query_init ?_ hKey name buffer cbData
      rcases heq with heq | heq <;> rw [heq]
      exact registryInit_idem h.inv
    · exact absurd hok hfail

def setSystem (name : List UInt16) (data : List UInt8) : Call :=
  .regSetValueExW (.key ⟨4, by decide⟩) (some name) 3 (.bytes data)

theorem value_store_system : ∃ σ σ', run [setSystem [86] [1, 2]] .initial = some σ ∧
    step σ (setSystem [118] [3]) = some σ' ∧ ValueLaws σ σ' (setSystem [118] [3]) .success := by
  have hsome : (run [setSystem [86] [1, 2]] .initial).isSome = true := by decide +kernel
  have hcheck : ∀ τ ∈ run [setSystem [86] [1, 2]] .initial, (step τ (setSystem [118] [3])).isSome = true ∧
      statusOf τ (setSystem [118] [3]) = some .success := by decide +kernel
  obtain ⟨σ, hσ⟩ := Option.isSome_iff_exists.mp hsome
  obtain ⟨hstep, hstatus⟩ := hcheck σ hσ
  obtain ⟨σ', hσ'⟩ := Option.isSome_iff_exists.mp hstep
  exact ⟨σ, σ', hσ, hσ', value_store σ σ' _ _ ⟨_, hσ⟩ trivial hσ' hstatus⟩

/-- Two names outside ASCII are one. -/
theorem value_store_accents : ∃ σ σ', run [setSystem [0xE9] [1]] .initial = some σ ∧
    step σ (setSystem [0xE8] [2]) = some σ' ∧
    query σ.registry (.key 4) (some [0xE9]) true (some 16) = some (answer (3, [1]) true 16) ∧
    query σ'.registry (.key 4) (some [0xE9]) true (some 16) = some (answer (3, [2]) true 16) := by
  have hsome : (run [setSystem [0xE9] [1]] .initial).isSome = true := by decide +kernel
  have hcheck : ∀ τ ∈ run [setSystem [0xE9] [1]] .initial,
      query τ.registry (.key 4) (some [0xE9]) true (some 16) = some (answer (3, [1]) true 16) ∧
      (step τ (setSystem [0xE8] [2])).isSome = true ∧ ∀ τ' ∈ step τ (setSystem [0xE8] [2]),
        query τ'.registry (.key 4) (some [0xE9]) true (some 16) = some (answer (3, [2]) true 16) := by
    decide +kernel
  obtain ⟨σ, hσ⟩ := Option.isSome_iff_exists.mp hsome
  obtain ⟨hquery, hstep, hquery'⟩ := hcheck σ hσ
  obtain ⟨σ', hσ'⟩ := Option.isSome_iff_exists.mp hstep
  exact ⟨σ, σ', hσ, hσ', hquery, hquery' σ' hσ'⟩

end Effects

end DiscouNT.Advapi
