import DiscouNT.Advapi.Calls

/-!
# Advapi.Paths

Opening and creating keys relative to a handle against the same through a predefined key. The two
branches of `RegOpenKeyExW` and `RegCreateKeyExW` build their paths by different code;
`path_composition_iff` says for which strings they agree in every registry.
-/

namespace DiscouNT.Advapi

open Lib List

def outcome (r : Opened × Registry) : Status × Option Disposition × Option (HKey × List UInt8) :=
  (r.1.status, r.1.disposition, r.1.result.map fun hKey =>
    (hKey, match hKey with
      | .key i => fold (r.2.keys i).path
      | _ => []))

/-- `a\s` -/
def joined (a s : List UInt16) : List UInt16 := a ++ 92 :: s

/-- The path that `a\s` stands for under a predefined key does not fit. -/
def TooLong (r : Root) (a s : List UInt16) : Prop :=
  regMaxPath ≤ (regRootName (.root r)).length + 1 + (joined a s).length

/-- Opening or creating `s` relative to the key of `a` is opening or creating `a\s`, and a path that
does not fit is refused. -/
structure Composes (σ : Registry) (r : Root) (hKey : HKey) (a s : List UInt16) : Prop where
  opened : (regOpenKeyExW σ hKey (some s)).map outcome =
    (regOpenKeyExW σ (.root r) (some (joined a s))).map outcome
  created : (regCreateKeyExW σ hKey (some s)).map outcome =
    (regCreateKeyExW σ (.root r) (some (joined a s))).map outcome
  refused : TooLong r a s →
    (regOpenKeyExW σ hKey (some s)).map (fun o => o.1.status) = some .invalidParameter ∧
      (regCreateKeyExW σ hKey (some s)).map (fun o => o.1.status) = some .invalidParameter

def CompositionLaw (σ : Registry) (r : Root) (a s : List UInt16) : Prop :=
  ∀ hKey disposition σ',
    regOpenKeyExW σ (.root r) (some a) = some (⟨.success, some hKey, disposition⟩, σ') →
      Composes σ' r hKey a s

/-- No key can be at `a`, or `s` does not even fit on its own, or both are not empty, `s` is written
without slashes, and the path fits. -/
def Composable (r : Root) (a s : List UInt16) : Prop :=
  regMaxPath ≤ (regRootName (.root r)).length + 1 + a.length ∨ regMaxPath ≤ s.length ∨
    (a ≠ [] ∧ s ≠ [] ∧ 47 ∉ s ∧ ¬ TooLong r a s)

section Outcomes

variable {σ σ' : Registry} {hKey : HKey} {sub : Option (List UInt16)} {subkey path : List UInt8}

def Registry.found (σ : Registry) (id : List UInt8) :
    Status × Option Disposition × Option (HKey × List UInt8) :=
  match findKey RegKey.used RegKey.id σ.keys id with
  | some i => (.success, none, some (.key i, id))
  | none => (.fileNotFound, none, some (.null, []))

def Registry.made (σ : Registry) (id : List UInt8) :
    Status × Option Disposition × Option (HKey × List UInt8) :=
  let disposition : Disposition :=
    if (findKey RegKey.used RegKey.id σ.keys id).isSome then .openedExistingKey else .createdNewKey
  match place RegKey.used RegKey.id σ.keys id with
  | some i => (.success, some disposition, some (.key i, id))
  | none => (.outOfMemory, some disposition, none)

theorem regOpenKeyExW_outcome (hinit : registryInit σ = σ)
    (hsub : regWideToAscii sub regMaxPath = some subkey)
    (hpath : σ.subkeyPath hKey subkey = some (.ok path)) :
    (regOpenKeyExW σ hKey sub).map outcome = some (σ.found (fold path)) := by
  simp only [regOpenKeyExW, hinit, hsub, hpath, Option.map_some, Registry.found, ← regFindKey_eq]
  rcases hf : regFindKey σ path with _ | i
  · rfl
  · have hid := (findKey_some ((regFindKey_eq σ path).symm.trans hf)).2
    simp only [outcome, Option.map_some]
    rw [← hid]
    rfl

theorem regCreateKeyExW_outcome (hinit : registryInit σ = σ)
    (hsub : regWideToAscii sub regMaxPath = some subkey)
    (hpath : σ.subkeyPath hKey subkey = some (.ok path)) :
    (regCreateKeyExW σ hKey sub).map outcome = some (σ.made (fold path)) := by
  simp only [regCreateKeyExW, hinit, hsub, hpath, Option.map_some, Registry.made, ← regFindKey_eq]
  rcases regMakeKey_cases σ path hKey with ⟨i, hf, heq⟩ | ⟨i, hf, hplace, -, heq⟩ | ⟨hf, hfull, heq⟩
  · have hid := (findKey_some ((regFindKey_eq σ path).symm.trans hf)).2
    have hplace : place RegKey.used RegKey.id σ.keys (fold path) = some i := by
      rw [place, ← regFindKey_eq, hf, Option.some_or]
    simp only [heq, hf, hplace, outcome, Option.map_some]
    rw [← hid]
    rfl
  · simp only [heq, hf, hplace, outcome, Option.map_some, Function.update_self]
  · have hplace : place RegKey.used RegKey.id σ.keys (fold path) = none := by
      rw [place, ← regFindKey_eq, hf, Option.none_or, firstSlot_eq_none]
      intro i
      simp [hfull i]
    simp only [heq, hf, hplace, outcome, Option.map_none]

variable (σ hKey sub) in
theorem regKey_refused
    (h : ∀ subkey, regWideToAscii sub regMaxPath = some subkey →
      (registryInit σ).subkeyPath hKey subkey = some (.error .invalidParameter)) :
    (regOpenKeyExW σ hKey sub).map outcome = some (.invalidParameter, none, none) ∧
      (regCreateKeyExW σ hKey sub).map outcome = some (.invalidParameter, none, none) := by
  simp only [regOpenKeyExW, regCreateKeyExW]
  rcases hsub : regWideToAscii sub regMaxPath with _ | subkey
  · exact ⟨rfl, rfl⟩
  · simp only [h subkey hsub]
    exact ⟨rfl, rfl⟩

variable {disposition : Option Disposition}

theorem status_of_outcome {r : Option (Opened × Registry)} {status : Status} {key : Option (HKey × List UInt8)}
    (h : r.map outcome = some (status, disposition, key)) :
    r.map (fun o => o.1.status) = some status := by
  obtain ⟨o, rfl, heq⟩ := Option.map_eq_some_iff.mp h
  rw [Option.map_some, ← show (outcome o).1 = o.1.status from rfl, heq]

variable {id : List UInt8}

theorem opened_of_outcome {r : Option (Opened × Registry)} (h : r.map outcome = some (.success, disposition, some (hKey, id))) :
    ∃ σ', r = some (⟨.success, some hKey, disposition⟩, σ') := by
  obtain ⟨⟨⟨status, result, disposition'⟩, σ'⟩, rfl, heq⟩ := Option.map_eq_some_iff.mp h
  simp only [outcome, Prod.mk.injEq, Option.map_eq_some_iff] at heq
  obtain ⟨rfl, rfl, k, rfl, hk⟩ := heq
  rw [hk.1]
  exact ⟨σ', rfl⟩

theorem found_success {id' : List UInt8}
    (h : σ.found id = (.success, disposition, some (hKey, id'))) :
    ∃ i, hKey = .key i ∧ (σ.keys i).used = true ∧ fold (σ.keys i).path = id := by
  rw [Registry.found] at h
  split at h
  · rename_i i hi
    cases h
    exact ⟨i, rfl, findKey_some hi⟩
  · cases h

theorem made_inj {id' : List UInt8} {j : Fin 128} (hj : (σ.keys j).used = false)
    (h : σ.made id = σ.made id') : id = id' := by
  have hroom : ∀ id, ∃ i, place RegKey.used RegKey.id σ.keys id = some i := by
    intro id
    rw [place]
    rcases findKey RegKey.used RegKey.id σ.keys id with _ | i
    · rw [Option.none_or]
      rcases hf : firstSlot fun i => !(σ.keys i).used with _ | i
      · have := firstSlot_eq_none.mp hf j
        simp [hj] at this
      · exact ⟨i, rfl⟩
    · exact ⟨i, rfl⟩
  obtain ⟨i, hi⟩ := hroom id
  obtain ⟨i', hi'⟩ := hroom id'
  simp only [Registry.made, hi, hi', Prod.mk.injEq, Option.some.injEq] at h
  exact h.2.2.2

theorem made_status : (σ.made id).1 ≠ .invalidParameter := by
  rw [Registry.made]
  split <;> simp

end Outcomes

section Branches

variable {σ : Registry} {r : Root} {i : Fin 128} {subkey : List UInt8}

def rootPath (r : Root) (subkey : List UInt8) : List UInt8 :=
  if subkey = [] then regRootName (.root r)
  else regRootName (.root r) ++ separator :: subkey.map fun ch => if ch = 47 then separator else ch

theorem regRootName_length (r : Root) : (regRootName (.root r)).length ≤ 4 := by
  cases r <;> decide

variable (σ r subkey) in
theorem subkeyPath_root (h : (regRootName (.root r)).length + 1 + subkey.length < regMaxPath) :
    σ.subkeyPath (.root r) subkey = some (.ok (rootPath r subkey)) := by
  have hfrom : regPathFrom (.root r) subkey = some (rootPath r subkey) := by
    simp only [regPathFrom, rootPath]
    split
    · rfl
    · rfl
  simp only [Registry.subkeyPath, hfrom]

theorem subkeyPath_root_long (h : regMaxPath ≤ (regRootName (.root r)).length + 1 + subkey.length) :
    σ.subkeyPath (.root r) subkey = some (.error .invalidParameter) := by
  have hne : subkey ≠ [] := by
    intro hnil
    have := regRootName_length r
    rw [hnil, regMaxPath] at h
    simp at h
    omega
  simp only [Registry.subkeyPath, regPathFrom]
  rw [if_neg hne, if_neg (by omega)]

theorem subkeyPath_nil (hi : (σ.keys i).used = true) :
    σ.subkeyPath (.key i) [] = some (.ok (σ.keys i).path) := by
  simp [Registry.subkeyPath, hi]

theorem subkeyPath_key (hi : (σ.keys i).used = true) (hne : subkey ≠ []) :
    σ.subkeyPath (.key i) subkey =
      if (σ.keys i).path.length + 1 + subkey.length < regMaxPath then
        some (.ok ((σ.keys i).path ++ separator :: subkey))
      else none := by
  simp [Registry.subkeyPath, hi, hne]

theorem rootPath_length (hne : subkey ≠ []) :
    (rootPath r subkey).length = (regRootName (.root r)).length + 1 + subkey.length := by
  rw [rootPath, if_neg hne]
  simp
  omega

theorem slash_not_mem_rootPath : 47 ∉ rootPath r subkey := by
  have hroot : 47 ∉ regRootName (.root r) := by cases r <;> decide +kernel
  rw [rootPath]
  split
  · exact hroot
  · rw [mem_append, mem_cons, mem_map]
    rintro (h | h | ⟨ch, -, h⟩)
    · exact hroot h
    · exact absurd h (by decide)
    · split at h
      · exact absurd h (by decide)
      · rename_i hch
        exact hch h

theorem rootPath_joined {a s : List UInt8} (ha : a ≠ []) (hs : 47 ∉ s) :
    rootPath r (a ++ separator :: s) = rootPath r a ++ separator :: s := by
  rw [rootPath, rootPath, if_neg (by simp), if_neg ha, map_append, map_cons,
    if_neg (by decide), append_assoc, cons_append]
  congr 4
  refine (map_congr_left fun ch hch => ?_).trans (map_id s)
  have hne : ch ≠ 47 := fun h => hs (by rwa [h] at hch)
  rw [if_neg hne, id]

end Branches

/-! ## When the law holds -/

section Law

variable {σ σ' : Registry} {r : Root} {hKey : HKey} {a s : List UInt16} {i j : Fin 128}

theorem regWideToAscii_eq (h : s.length < regMaxPath) :
    regWideToAscii (some s) regMaxPath = some (s.map narrow) := by
  simp [regWideToAscii, h]

theorem regWideToAscii_long (h : regMaxPath ≤ s.length) : regWideToAscii (some s) regMaxPath = none := by
  simp only [regWideToAscii]
  rw [if_neg (by omega)]

theorem regOpenKeyExW_root (h : σ.Inv) {disposition : Option Disposition}
    (ho : regOpenKeyExW σ (.root r) (some a) = some (⟨.success, some hKey, disposition⟩, σ')) :
    (regRootName (.root r)).length + 1 + a.length < regMaxPath ∧
      ∃ i, hKey = .key i ∧ (σ'.keys i).used = true ∧
        fold (σ'.keys i).path = fold (rootPath r (a.map narrow)) := by
  have hσ' : σ' = registryInit σ := regOpenKeyExW_registry ho
  have hstart : regOpenKeyExW σ' (.root r) (some a) = regOpenKeyExW σ (.root r) (some a) := by
    rw [hσ']
    simp only [regOpenKeyExW, registryInit_idem h]
  have hfits : (regRootName (.root r)).length + 1 + a.length < regMaxPath := by
    by_contra hlong
    have hrefused := (regKey_refused σ (.root r) (some a) fun subkey hsub => by
      obtain ⟨-, rfl⟩ := regWideToAscii_some hsub
      exact subkeyPath_root_long (by rw [length_map]; omega)).1
    have hstatus := status_of_outcome hrefused
    rw [ho] at hstatus
    cases hstatus
  refine ⟨hfits, ?_⟩
  have hout := regOpenKeyExW_outcome (σ := σ') (by rw [hσ', registryInit_idem h])
    (regWideToAscii_eq (by omega)) (subkeyPath_root σ' r (a.map narrow)
      (by rw [length_map]; exact hfits))
  rw [hstart, ho, Option.map_some, Option.some.injEq] at hout
  exact found_success hout.symm

theorem joined_refused (h : TooLong r a s) :
    (regOpenKeyExW σ (.root r) (some (joined a s))).map outcome = some (.invalidParameter, none, none) ∧
      (regCreateKeyExW σ (.root r) (some (joined a s))).map outcome =
        some (.invalidParameter, none, none) := by
  refine regKey_refused σ (.root r) (some (joined a s)) fun subkey hsub => ?_
  obtain ⟨-, rfl⟩ := regWideToAscii_some hsub
  exact subkeyPath_root_long (by rw [length_map]; exact h)

theorem joined_length : (joined a s).length = a.length + 1 + s.length := by
  simp [joined]
  omega

theorem map_narrow_joined : (joined a s).map narrow = a.map narrow ++ separator :: s.map narrow := by
  simp [joined]
  rfl

theorem composes_of_fits (hinit : registryInit σ = σ) (hi : (σ.keys i).used = true)
    (hpath : fold (σ.keys i).path = fold (rootPath r (a.map narrow))) (ha : a ≠ []) (hs : s ≠ [])
    (hslash : 47 ∉ s) (hfits : ¬ TooLong r a s) : Composes σ r (.key i) a s := by
  rw [TooLong, joined_length] at hfits
  have ha' : a.map narrow ≠ [] := by simpa using ha
  have hs' : s.map narrow ≠ [] := by simpa using hs
  have hslash' : 47 ∉ s.map narrow := by
    rw [mem_map]
    rintro ⟨unit, hunit, h⟩
    refine hslash ?_
    have : unit = 47 := by
      have hback := toUInt16_narrow (show narrow unit ≠ 63 by rw [h]; decide)
      rw [← hback, h]
      rfl
    rwa [← this]
  have hlen : (σ.keys i).path.length = (regRootName (.root r)).length + 1 + a.length := by
    rw [← fold_length, hpath, fold_length, rootPath_length ha', length_map]
  have hkey := (subkeyPath_key hi hs').trans
    (if_pos (by rw [hlen, length_map]; omega))
  have hroot := subkeyPath_root σ r ((joined a s).map narrow)
    (by rw [length_map, joined_length]; omega)
  rw [map_narrow_joined, rootPath_joined ha' hslash', ← map_narrow_joined] at hroot
  have hsame : fold ((σ.keys i).path ++ separator :: s.map narrow) =
      fold (rootPath r (a.map narrow) ++ separator :: s.map narrow) := by
    rw [fold_append, fold_append, hpath]
  have hsub := regWideToAscii_eq (s := s) (by omega)
  have hsubj := regWideToAscii_eq (s := joined a s) (by rw [joined_length]; omega)
  refine ⟨?_, ?_, fun hlong => ?_⟩
  · rw [regOpenKeyExW_outcome hinit hsub hkey, regOpenKeyExW_outcome hinit hsubj hroot, hsame]
  · rw [regCreateKeyExW_outcome hinit hsub hkey, regCreateKeyExW_outcome hinit hsubj hroot, hsame]
  · rw [TooLong, joined_length] at hlong
    omega

theorem Composable.law (h : σ.Inv) (hc : Composable r a s) : CompositionLaw σ r a s := by
  intro hKey disposition σ' ho
  obtain ⟨hfits, i, rfl, hi, hpath⟩ := regOpenKeyExW_root h ho
  rcases hc with hlong | hlong | ⟨ha, hs, hslash, hfits⟩
  · omega
  · -- `s` is cut off by the conversion, and so is `a\s`
    have hrefused := regKey_refused σ' (.key i) (some s) fun subkey hsub => by
      rw [regWideToAscii_long hlong] at hsub
      cases hsub
    have hjoined := joined_refused (σ := σ') (r := r) (a := a) (s := s)
      (by rw [TooLong, joined_length]; omega)
    exact ⟨by rw [hrefused.1, hjoined.1], by rw [hrefused.2, hjoined.2],
      fun _ => ⟨status_of_outcome hrefused.1, status_of_outcome hrefused.2⟩⟩
  · refine composes_of_fits ?_ hi hpath ha hs hslash hfits
    rw [regOpenKeyExW_registry ho]
    exact registryInit_idem h

variable (r a) in
theorem exists_key (h : (regRootName (.root r)).length + 1 + a.length < regMaxPath) :
    ∃ σ hKey disposition σ', Reachable σ ∧
      regOpenKeyExW σ.registry (.root r) (some a) = some (⟨.success, some hKey, disposition⟩, σ') ∧
        ∃ j, (σ'.keys j).used = false := by
  have hfree : ((registryInit .empty).keys 17).used = false ∧
      ((registryInit .empty).keys 18).used = false := by decide +kernel
  obtain ⟨hinv, hinit⟩ := inv_empty.registryInit
  obtain ⟨τ, hτ⟩ : ∃ τ, registryInit .empty = τ := ⟨_, rfl⟩
  rw [hτ] at hfree hinv hinit
  have hsub := regWideToAscii_eq (s := a) (by omega)
  have hpath : ∀ ρ : Registry, ρ.subkeyPath (.root r) (a.map narrow) =
      some (.ok (rootPath r (a.map narrow))) :=
    fun ρ => subkeyPath_root ρ r _ (by rw [length_map]; exact h)
  generalize hp : rootPath r (a.map narrow) = path at hpath
  obtain ⟨ρ, hρ⟩ : ∃ ρ, (regMakeKey τ (.root r) path).2 = ρ := ⟨_, rfl⟩
  have hreach : Reachable ⟨ρ, .empty⟩ := by
    have hstep : step .initial (.regCreateKeyExW (.root r) (some a)) = some ⟨ρ, .empty⟩ := by
      simp only [step, regCreateKeyExW, State.initial, hτ, hsub, hpath, Option.map_some]
      rw [← hρ]
      rcases regMakeKey τ (.root r) path with ⟨_ | i, ρ⟩ <;> rfl
    exact Reachable.initial.step hstep
  obtain ⟨i, j, hfind, hj⟩ : ∃ i j, findKey RegKey.used RegKey.id ρ.keys (fold path) = some i ∧
      (ρ.keys j).used = false := by
    rw [← hρ]
    rcases regMakeKey_cases τ path (.root r) with
      ⟨i, hf, heq⟩ | ⟨i, -, hplace, -, heq⟩ | ⟨-, hfull, -⟩
    · rw [heq]
      exact ⟨i, 17, (regFindKey_eq _ _).symm.trans hf, hfree.1⟩
    · rw [heq]
      by_cases hi : i = 17
      · refine ⟨i, 18, hinv.keys.findKey_store hplace rfl rfl, ?_⟩
        rw [hi]
        exact hfree.2
      · refine ⟨i, 17, hinv.keys.findKey_store hplace rfl rfl, ?_⟩
        simp only [Function.update_apply]
        rw [if_neg (Ne.symm hi)]
        exact hfree.1
    · rw [hfull 17] at hfree
      cases hfree.1
  have hρinit : registryInit ρ = ρ := by
    refine registryInit_of_initialized ?_
    rw [← hρ, makeKey_initialized, hinit]
  have hout := regOpenKeyExW_outcome hρinit hsub (hpath _)
  rw [Registry.found, hfind] at hout
  obtain ⟨σ', ho⟩ := opened_of_outcome hout
  refine ⟨⟨ρ, .empty⟩, _, _, _, hreach, ho, j, ?_⟩
  rw [show σ' = _ from regOpenKeyExW_registry ho, hρinit]
  exact hj

theorem not_composes (hinit : registryInit σ = σ) (hi : (σ.keys i).used = true)
    (hpath : fold (σ.keys i).path = fold (rootPath r (a.map narrow)))
    (hfits : (regRootName (.root r)).length + 1 + a.length < regMaxPath) (hs : s.length < regMaxPath)
    (hj : (σ.keys j).used = false) (hc : ¬ Composable r a s) : ¬ Composes σ r (.key i) a s := by
  intro h
  have hsub := regWideToAscii_eq hs
  have hcreated := h.created
  by_cases hlong : TooLong r a s
  · -- the one branch refuses, the other one does not
    rw [(joined_refused hlong).2] at hcreated
    have hmade : ∀ path, σ.subkeyPath (.key i) (s.map narrow) ≠ some (.ok path) := by
      intro path hok
      rw [regCreateKeyExW_outcome hinit hsub hok, Option.some.injEq] at hcreated
      exact made_status (by rw [hcreated])
    by_cases hnil : s = []
    · subst hnil
      exact hmade _ (subkeyPath_nil hi)
    · have hkey := subkeyPath_key (σ := σ) hi (show s.map narrow ≠ [] by simpa using hnil)
      split at hkey
      · exact hmade _ hkey
      · simp only [regCreateKeyExW, hinit, hsub, hkey, Option.map_none] at hcreated
        cases hcreated
  · have hlong' := hlong
    rw [TooLong, joined_length] at hlong'
    have hroot := subkeyPath_root σ r ((joined a s).map narrow)
      (by rw [length_map, joined_length]; omega)
    have hsubj := regWideToAscii_eq (s := joined a s) (by rw [joined_length]; omega)
    rw [regCreateKeyExW_outcome hinit hsubj hroot] at hcreated
    have hjoined : (rootPath r ((joined a s).map narrow)).length =
        (regRootName (.root r)).length + 1 + (a.length + 1 + s.length) := by
      rw [rootPath_length (by simp [joined]), length_map, joined_length]
    have hlen : (σ.keys i).path.length = (rootPath r (a.map narrow)).length := by
      rw [← fold_length, hpath, fold_length]
    have hnil : a = [] → (rootPath r (a.map narrow)).length = (regRootName (.root r)).length := by
      rintro rfl
      rfl
    have hcons : a ≠ [] → (rootPath r (a.map narrow)).length =
        (regRootName (.root r)).length + 1 + a.length := by
      intro ha
      rw [rootPath_length (by simpa using ha), length_map]
    by_cases hs' : s = []
    · subst hs'
      rw [regCreateKeyExW_outcome hinit hsub (subkeyPath_nil hi), Option.some.injEq] at hcreated
      have := congrArg List.length (made_inj hj hcreated)
      rw [fold_length, fold_length, hjoined, hlen] at this
      by_cases ha : a = []
      · rw [hnil ha] at this
        omega
      · rw [hcons ha] at this
        omega
    · have hkey := subkeyPath_key (σ := σ) hi (show s.map narrow ≠ [] by simpa using hs')
      have hfit : (σ.keys i).path.length + 1 + (s.map narrow).length < regMaxPath := by
        rw [hlen, length_map]
        by_cases ha : a = []
        · rw [hnil ha]
          omega
        · rw [hcons ha]
          omega
      rw [if_pos hfit] at hkey
      rw [regCreateKeyExW_outcome hinit hsub hkey, Option.some.injEq] at hcreated
      have hsame := made_inj hj hcreated
      have ha : a ≠ [] := by
        intro ha
        have := congrArg List.length hsame
        rw [fold_length, fold_length, hjoined, length_append, length_cons, length_map,
          hlen, hnil ha] at this
        omega
      refine hc (.inr (.inr ⟨ha, hs', fun hslash => ?_, hlong⟩))
      have hmem : 47 ∈ fold ((σ.keys i).path ++ separator :: s.map narrow) := by
        rw [mem_fold (by decide)]
        exact mem_append_right _ (mem_cons_of_mem _ (mem_map.mpr ⟨47, hslash, by decide⟩))
      rw [hsame, mem_fold (by decide)] at hmem
      exact slash_not_mem_rootPath hmem

/-- The law holds in every registry exactly for these strings. -/
theorem path_composition_iff (r : Root) (a s : List UInt16) :
    (∀ σ, Reachable σ → CompositionLaw σ.registry r a s) ↔ Composable r a s := by
  constructor
  · intro h
    by_contra hc
    have hfits : (regRootName (.root r)).length + 1 + a.length < regMaxPath := by
      by_contra hlong
      exact hc (.inl (by omega))
    have hs : s.length < regMaxPath := by
      by_contra hlong
      exact hc (.inr (.inl (by omega)))
    obtain ⟨σ, hKey, disposition, σ', hreach, ho, j, hj⟩ := exists_key r a hfits
    obtain ⟨-, i, rfl, hi, hpath⟩ := regOpenKeyExW_root hreach.inv ho
    have hinit : registryInit σ' = σ' := by
      rw [regOpenKeyExW_registry ho]
      exact registryInit_idem hreach.inv
    exact not_composes hinit hi hpath hfits hs hj hc (h σ hreach _ _ _ ho)
  · intro hc σ hreach
    exact hc.law hreach.inv

/-- A slash in what is relative to a handle is no separator. -/
theorem path_composition_iff_slash : ¬ ∀ σ, Reachable σ → CompositionLaw σ.registry .localMachine
    (regAsciiToWide (text "SYSTEM")) (regAsciiToWide (text "A/B")) := by
  intro h
  obtain ⟨σ, hKey, disposition, σ', hreach, ho, j, hj⟩ := exists_key .localMachine
    (regAsciiToWide (text "SYSTEM")) (by decide +kernel)
  obtain ⟨hfits, i, rfl, hi, hpath⟩ := regOpenKeyExW_root hreach.inv ho
  have hinit : registryInit σ' = σ' := by
    rw [regOpenKeyExW_registry ho]
    exact registryInit_idem hreach.inv
  refine not_composes hinit hi hpath hfits (by decide +kernel) hj ?_ (h σ hreach _ _ _ ho)
  rintro (h | h | ⟨-, -, h, -⟩)
  · exact absurd h (by decide +kernel)
  · exact absurd h (by decide +kernel)
  · exact absurd h (by decide +kernel)

end Law

end DiscouNT.Advapi
