import DiscouNT.Advapi.RegistryInv
import DiscouNT.Advapi.Services

/-!
# Advapi.Calls

Sequences of calls into the library: the functions that change a table, in any order and with any
arguments.
-/

namespace DiscouNT.Advapi

open Lib Option

inductive Call where
  | regOpenKeyExW (hKey : HKey) (lpSubKey : Option (List UInt16))
  | regCreateKeyExW (hKey : HKey) (lpSubKey : Option (List UInt16))
  | regQueryValueExW (hKey : HKey) (lpValueName : Option (List UInt16)) (buffer : Bool)
      (cbData : Option Nat)
  | regSetValueExW (hKey : HKey) (lpValueName : Option (List UInt16)) (type : UInt32) (data : RegData)
  | regSetValueExA (hKey : HKey) (name : Option (List UInt8)) (type : UInt32) (data : RegData)
  | regDeleteValueW (hKey : HKey) (valueName : Option (List UInt16))
  | openServiceW (name : Option (List UInt16))
  | createServiceW (args : ServiceArgs)
  | deleteService (service : ScHandle)
  | startServiceW (service : ScHandle)
  | controlService (service : ScHandle) (control : UInt32)
  | queryServiceStatus (service : ScHandle)

/-- The effect of a call; `none` where it is undefined. -/
def step (σ : State) : Call → Option State
  | .regOpenKeyExW hKey lpSubKey =>
    (regOpenKeyExW σ.registry hKey lpSubKey).map fun r => { σ with registry := r.2 }
  | .regCreateKeyExW hKey lpSubKey =>
    (regCreateKeyExW σ.registry hKey lpSubKey).map fun r => { σ with registry := r.2 }
  | .regQueryValueExW hKey lpValueName buffer cbData =>
    (regQueryValueExW σ.registry hKey lpValueName buffer cbData).map fun r => { σ with registry := r.2 }
  | .regSetValueExW hKey lpValueName type data =>
    (regSetValueExW σ.registry hKey lpValueName type data).map fun r => { σ with registry := r.2 }
  | .regSetValueExA hKey name type data =>
    (regSetValueExA σ.registry hKey name type data).map fun r => { σ with registry := r.2 }
  | .regDeleteValueW hKey valueName =>
    some { σ with registry := (regDeleteValueW σ.registry hKey valueName).2 }
  | .openServiceW _ => some σ
  | .createServiceW args => (createServiceW σ args).map (·.2)
  | .deleteService service => some (deleteService σ service).2
  | .startServiceW service => some (startServiceW σ service).2
  | .controlService service control => some (controlService σ service control).2
  | .queryServiceStatus _ => some σ

def run : List Call → State → Option State
  | [], σ => some σ
  | call :: calls, σ => (step σ call).bind (run calls)

def Reachable (σ : State) : Prop := ∃ calls, run calls .initial = some σ

section Runs

variable {σ σ' : State} {call : Call} {calls calls' : List Call} {P : State → Prop}

theorem run_append : run (calls ++ calls') σ = (run calls σ).bind (run calls') := by
  induction calls generalizing σ with
  | nil => rfl
  | cons call calls ih =>
    rw [List.cons_append, run, run, bind_assoc]
    congr 1
    funext σ'
    exact ih

theorem run_cons (h : run (call :: calls) σ = some σ') :
    ∃ mid, step σ call = some mid ∧ run calls mid = some σ' := by
  rw [run, bind_eq_some_iff] at h
  exact h

theorem Reachable.initial : Reachable .initial := ⟨[], rfl⟩

theorem Reachable.step (h : Reachable σ) (hs : step σ call = some σ') : Reachable σ' := by
  obtain ⟨calls, hrun⟩ := h
  refine ⟨calls ++ [call], ?_⟩
  rw [run_append, hrun, bind_some, run, hs]
  rfl

theorem run_keeps (hstep : ∀ {σ σ' call}, step σ call = some σ' → P σ → P σ') :
    ∀ {calls σ σ'}, run calls σ = some σ' → P σ → P σ' := by
  intro calls
  induction calls with
  | nil =>
    intro σ σ' h hσ
    cases h
    exact hσ
  | cons call calls ih =>
    intro σ σ' h hσ
    obtain ⟨mid, hs, hrun⟩ := run_cons h
    exact ih hrun (hstep hs hσ)

theorem Registry.Inv.storeService {ρ ρ' : Registry} {name : List UInt16} {args : ServiceArgs}
    (h : ρ.Inv) (hs : serviceRegistryStore ρ name args = some ρ') : ρ'.Inv := by
  have hdword : ∀ {ρ ρ' key name value}, serviceRegistrySetDword ρ key name value = some ρ' →
      ρ.Inv → ρ'.Inv := by
    intro ρ ρ' key name value hd h
    rw [serviceRegistrySetDword, map_eq_some_iff] at hd
    obtain ⟨⟨status, ρ''⟩, hset, rfl⟩ := hd
    exact h.regSetValueExW hset
  have hstring : ∀ {ρ ρ' key name value}, serviceRegistrySetString ρ key name value = some ρ' →
      ρ.Inv → ρ'.Inv := by
    intro ρ ρ' key name value hd h
    cases value with
    | none =>
      cases hd
      exact h
    | some value =>
      simp only [serviceRegistrySetString, map_eq_some_iff] at hd
      obtain ⟨⟨status, ρ''⟩, hset, rfl⟩ := hd
      exact h.regSetValueExW hset
  simp only [serviceRegistryStore, bind_eq_bind, bind_eq_some_iff] at hs
  obtain ⟨⟨opened, ρ0⟩, hcreate, hs⟩ := hs
  have h0 := h.regCreateKeyExW hcreate
  split at hs
  · rename_i heq
    cases heq
    simp only [bind_eq_some_iff] at hs
    obtain ⟨ρ1, h1, ρ2, h2, ρ3, h3, ρ4, h4, ρ5, h5, hs⟩ := hs
    have hlast := hstring h5 (hstring h4 (hdword h3 (hdword h2 (hdword h1 h0))))
    split at hs
    · exact hstring hs hlast
    · cases hs
      exact hlast
  · rename_i heq
    cases heq
    cases hs
    exact h0

theorem updateService_registry {service : ScHandle} {f : ServiceRecord → ServiceRecord} :
    (σ.updateService service f).2.registry = σ.registry := by
  cases service with
  | none => rfl
  | some i =>
    simp only [State.updateService]
    split <;> rfl

theorem step_inv (hs : step σ call = some σ') (h : σ.registry.Inv) : σ'.registry.Inv := by
  cases call with
  | regOpenKeyExW hKey lpSubKey =>
    simp only [step, map_eq_some_iff] at hs
    obtain ⟨r, hr, rfl⟩ := hs
    rw [show r.2 = registryInit σ.registry from regOpenKeyExW_registry hr]
    exact h.registryInit.1
  | regCreateKeyExW hKey lpSubKey =>
    simp only [step, map_eq_some_iff] at hs
    obtain ⟨r, hr, rfl⟩ := hs
    exact h.regCreateKeyExW hr
  | regQueryValueExW hKey lpValueName buffer cbData =>
    simp only [step, map_eq_some_iff] at hs
    obtain ⟨r, hr, rfl⟩ := hs
    rw [show r.2 = registryInit σ.registry from regQueryValueExW_registry hr]
    exact h.registryInit.1
  | regSetValueExW hKey lpValueName type data =>
    simp only [step, map_eq_some_iff] at hs
    obtain ⟨r, hr, rfl⟩ := hs
    exact h.regSetValueExW hr
  | regSetValueExA hKey name type data =>
    simp only [step, map_eq_some_iff] at hs
    obtain ⟨r, hr, rfl⟩ := hs
    exact h.regSetValueExA hr
  | regDeleteValueW hKey valueName =>
    cases hs
    exact h.regDeleteValueW
  | openServiceW name =>
    cases hs
    exact h
  | createServiceW args =>
    simp only [step, map_eq_some_iff] at hs
    obtain ⟨r, hr, rfl⟩ := hs
    simp only [createServiceW] at hr
    split at hr
    · cases hr
      exact h
    · split at hr
      · split at hr
        · cases hr
          exact h
        · rw [map_eq_some_iff] at hr
          obtain ⟨ρ, hρ, rfl⟩ := hr
          exact h.storeService hρ
      · cases hr
        exact h
  | deleteService service =>
    cases hs
    rw [deleteService, updateService_registry]
    exact h
  | startServiceW service =>
    cases hs
    rw [startServiceW, updateService_registry]
    exact h
  | controlService service control =>
    cases hs
    rw [controlService, updateService_registry]
    exact h
  | queryServiceStatus service =>
    cases hs
    exact h

theorem run_inv (hrun : run calls σ = some σ') (h : σ.registry.Inv) : σ'.registry.Inv :=
  run_keeps (P := fun σ => σ.registry.Inv) step_inv hrun h

theorem Reachable.inv (h : Reachable σ) : σ.registry.Inv := by
  obtain ⟨calls, hrun⟩ := h
  exact run_inv hrun inv_empty

end Runs

end DiscouNT.Advapi
