import DiscouNT.Arch
import Mathlib.Algebra.Order.Ring.Nat
import Mathlib.Data.Finset.Card

/-!
# Ob.Object

The object manager of `kernel/ob/object.c`: the registry of object types and the table of 256
handles with its reference counts.

* A name is the bytes of a C string in front of the NUL.
* A body is an address, 0 for null. What it points to, the delete procedures and `kfree` belong to
  the components that create objects; `ObDereferenceObject` reaches them through a `Host`.
* `serial`, `taken`, `released` and `history` are no fields of the code. They number the objects,
  count the references and record which objects were created and deleted, newest first.
-/

namespace DiscouNT.Ob

open List

def maxObjects : Nat := 256
def maxObjectTypes : Nat := 32
def maxNameLen : Nat := 32
def invalidHandle : Nat := 0xFFFFFFFF

abbrev Name := List UInt8

def storedName (name : Name) : Name := name.take (maxNameLen - 1)

structure ObjectTypeInfo (δ : Type) where
  name : Name
  deleteProc : Option δ
deriving DecidableEq, Repr

structure Object where
  name : Name
  type : Nat
  refCount : Nat
  body : Nat
  bodySize : Nat
  serial : Nat
  taken : Nat
  released : Nat
deriving DecidableEq, Repr

inductive Event where
  /-- `ObCreateObject` put an object of that type and body at a handle. -/
  | created (serial handle type body : Nat)
  /-- The delete procedure of the object's type was called. -/
  | deleted (serial : Nat)
deriving DecidableEq, Repr

/-- The statics of `object.c`. `objectTypes` are the registered types, entry 0 among them, so its
length is `object_type_count`. -/
structure ObState (δ : Type) where
  objects : Nat → Option Object
  count : Nat
  objectTypes : List (ObjectTypeInfo δ)
  serial : Nat
  history : List Event

namespace ObState

variable {δ : Type}

/-- `global_table.objects[handle]`, where `handle` has been checked. -/
def lookup (ob : ObState δ) (handle : Nat) : Option Object :=
  if handle < maxObjects then ob.objects handle else none

def put (ob : ObState δ) (handle : Nat) (obj : Object) : ObState δ :=
  { ob with objects := Function.update ob.objects handle (some obj) }

/-- `global_table.objects[handle] = 0; global_table.count--`. -/
def clear (ob : ObState δ) (handle : Nat) : ObState δ :=
  { ob with objects := Function.update ob.objects handle none, count := sub32 ob.count 1 }

def log (ob : ObState δ) (e : Event) : ObState δ := { ob with history := e :: ob.history }

def occupied (ob : ObState δ) : Nat :=
  ((Finset.range maxObjects).filter fun h => (ob.objects h).isSome).card

end ObState

variable {δ ω : Type}

/-- `ObInit`: type zero is always invalid. -/
def obInit : ObState δ :=
  { objects := fun _ => none, count := 0, objectTypes := [⟨[], none⟩], serial := 0, history := [] }

def typeIndex (ob : ObState δ) (name : Name) : Option Nat :=
  (ob.objectTypes.tail.findIdx? fun t => decide (t.name = name)).map (· + 1)

/-- `ObRegisterObjectType`; a null name is the empty one. -/
def obRegisterObjectType (name : Name) (deleteProc : Option δ) (ob : ObState δ) :
    Nat × ObState δ :=
  if name = [] then (0, ob)
  else
    match typeIndex ob name with
    | some i => (i, ob)
    | none =>
      if maxObjectTypes ≤ ob.objectTypes.length then (0, ob)
      else (ob.objectTypes.length,
        { ob with objectTypes := ob.objectTypes ++ [⟨storedName name, deleteProc⟩] })

def obGetObjectType (ob : ObState δ) (type : Nat) : Option (ObjectTypeInfo δ) :=
  if type = 0 then none else ob.objectTypes[type]?

def freeSlot (ob : ObState δ) : Option Nat :=
  (List.range maxObjects).find? fun i => (ob.objects i).isNone

/-- `ObCreateObject`; `allocated` says whether its `kmalloc` succeeds. -/
def obCreateObject (allocated : Bool) (type : Nat) (name : Option Name) (body bodySize : Nat)
    (ob : ObState δ) : Nat × ObState δ :=
  match obGetObjectType ob type with
  | none => (invalidHandle, ob)
  | some _ =>
    match freeSlot ob with
    | none => (invalidHandle, ob)
    | some i =>
      if allocated = false then (invalidHandle, ob)
      else
        let obj : Object :=
          { name := storedName (name.getD []), type, refCount := 1, body, bodySize,
            serial := ob.serial, taken := 0, released := 0 }
        (i, { ob.put i obj with
          count := u32 (ob.count + 1)
          serial := ob.serial + 1
          history := .created ob.serial i type body :: ob.history })

def Object.take (obj : Object) : Object :=
  { obj with refCount := u32 (obj.refCount + 1), taken := obj.taken + 1 }

def Object.release (obj : Object) : Object :=
  { obj with refCount := sub32 obj.refCount 1, released := obj.released + 1 }

def obReferenceObject (handle : Nat) (ob : ObState δ) : Nat × ObState δ :=
  match ob.lookup handle with
  | none => (0, ob)
  | some obj => (obj.body, ob.put handle obj.take)

def obFindObject (name : Option Name) (type : Nat) (ob : ObState δ) : Nat :=
  match name with
  | none => invalidHandle
  | some name =>
    ((List.range maxObjects).find? fun i =>
      match ob.objects i with
      | none => false
      | some obj => decide (obj.type = type) && decide (obj.name = name)).getD invalidHandle

/-- Where the object table lives, and what happens to the body of an object that goes away. -/
structure Host (ω δ : Type) where
  ob : ω → ObState δ
  setOb : ObState δ → ω → ω
  /-- Run a delete procedure on a body. -/
  delete : δ → Nat → ω → ω
  kfree : Nat → ω → ω

/-- The procedure `ObDereferenceObject` runs for a body of that type. -/
def deleteProcOf (ob : ObState δ) (type : Nat) : Option δ :=
  (obGetObjectType ob type).bind fun t => t.deleteProc

/-- The call of the delete procedure in `ObDereferenceObject`, with its guards, and the `kfree` of
the body. -/
def deleteBody (m : Host ω δ) (obj : Object) (w : ω) : ω :=
  if obj.body = 0 then w
  else
    let w :=
      match deleteProcOf (m.ob w) obj.type with
      | none => w
      | some proc => m.delete proc obj.body (m.setOb ((m.ob w).log (.deleted obj.serial)) w)
    m.kfree obj.body w

def obDereferenceObject (m : Host ω δ) (handle : Nat) (w : ω) : ω :=
  match (m.ob w).lookup handle with
  | none => w
  | some obj =>
    let obj := obj.release
    let w := m.setOb ((m.ob w).put handle obj) w
    if obj.refCount ≠ 0 then w
    else
      let w := deleteBody m obj w
      m.setOb ((m.ob w).clear handle) w

/-! ## The table -/

-- not by `rfl` alone, which would compare the reference counts first
@[simp] theorem Object.release_name (o : Object) : o.release.name = o.name := by
  cases o
  rfl

@[simp] theorem Object.release_type (o : Object) : o.release.type = o.type := by
  cases o
  rfl

@[simp] theorem Object.release_body (o : Object) : o.release.body = o.body := by
  cases o
  rfl

@[simp] theorem Object.release_serial (o : Object) : o.release.serial = o.serial := by
  cases o
  rfl

section Table

variable {ob : ObState δ} {h k : Nat} {obj : Object}

namespace ObState

theorem lt_of_lookup (hl : ob.lookup h = some obj) : h < maxObjects := by
  unfold lookup at hl
  split at hl
  · assumption
  · cases hl

theorem objects_of_lookup (hl : ob.lookup h = some obj) : ob.objects h = some obj := by
  rw [lookup, if_pos (lt_of_lookup hl)] at hl
  exact hl

theorem lookup_put (hh : h < maxObjects) :
    (ob.put h obj).lookup k = if k = h then some obj else ob.lookup k := by
  by_cases hk : k = h
  · subst hk
    simp [lookup, put, hh]
  · simp [lookup, put, hk]

theorem lookup_clear : (ob.clear h).lookup k = if k = h then none else ob.lookup k := by
  by_cases hk : k = h
  · subst hk
    simp [lookup, clear]
  · simp [lookup, clear, hk]

@[simp] theorem put_objectTypes : (ob.put h obj).objectTypes = ob.objectTypes := rfl

@[simp] theorem put_history : (ob.put h obj).history = ob.history := rfl

theorem occupied_put_of_some (hl : ob.objects h ≠ none) :
    (ob.put h obj).occupied = ob.occupied := by
  unfold occupied
  congr 1
  refine Finset.filter_congr fun k _ => ?_
  by_cases hk : k = h
  · subst hk
    simp [put, Option.isSome_iff_ne_none, hl]
  · simp [put, hk]

theorem occupied_put_of_none (hh : h < maxObjects) (hl : ob.objects h = none) :
    (ob.put h obj).occupied = ob.occupied + 1 := by
  unfold occupied
  have hset : (Finset.range maxObjects).filter (fun k => ((ob.put h obj).objects k).isSome) =
      insert h ((Finset.range maxObjects).filter fun k => (ob.objects k).isSome) := by
    ext k
    simp only [Finset.mem_filter, Finset.mem_insert, Finset.mem_range]
    by_cases hk : k = h
    · subst hk
      simp [put, hh]
    · simp [put, hk]
  rw [hset, Finset.card_insert_of_notMem]
  simp [hl]

theorem occupied_clear (hh : h < maxObjects) (hl : ob.objects h ≠ none) :
    (ob.clear h).occupied + 1 = ob.occupied := by
  unfold occupied
  have hset : (Finset.range maxObjects).filter (fun k => (ob.objects k).isSome) =
      insert h ((Finset.range maxObjects).filter fun k => ((ob.clear h).objects k).isSome) := by
    ext k
    simp only [Finset.mem_filter, Finset.mem_insert, Finset.mem_range]
    by_cases hk : k = h
    · subst hk
      simp [hh, Option.isSome_iff_ne_none, hl]
    · simp [clear, hk]
  rw [hset, Finset.card_insert_of_notMem]
  simp only [Finset.mem_filter]
  simp [clear]

theorem occupied_le : ob.occupied ≤ maxObjects := by
  refine le_trans (Finset.card_filter_le _ _) ?_
  simp

end ObState

theorem register_lookup (name : Name) (proc : Option δ) :
    (obRegisterObjectType name proc ob).2.lookup k = ob.lookup k := by
  unfold obRegisterObjectType
  split
  · rfl
  · split
    · rfl
    · split <;> rfl

theorem freeSlot_spec {i : Nat} (hs : freeSlot ob = some i) :
    i < maxObjects ∧ ob.objects i = none := by
  have hmem := mem_of_find?_eq_some hs
  have hnone := find?_some hs
  exact ⟨mem_range.mp hmem, by simpa using hnone⟩

theorem obCreateObject_cases (allocated : Bool) (type : Nat) (name : Option Name)
    (body bodySize : Nat) (ob : ObState δ) :
    obCreateObject allocated type name body bodySize ob = (invalidHandle, ob) ∨
    ∃ i, i < maxObjects ∧ ob.objects i = none ∧ obGetObjectType ob type ≠ none ∧
      obCreateObject allocated type name body bodySize ob =
        (i, { ob.put i ⟨storedName (name.getD []), type, 1, body, bodySize, ob.serial, 0, 0⟩ with
          count := u32 (ob.count + 1)
          serial := ob.serial + 1
          history := .created ob.serial i type body :: ob.history }) := by
  unfold obCreateObject
  cases htype : obGetObjectType ob type with
  | none => exact .inl rfl
  | some t =>
    cases hfree : freeSlot ob with
    | none => exact .inl rfl
    | some i =>
      cases allocated with
      | false => exact .inl rfl
      | true =>
        obtain ⟨hi, hnone⟩ := freeSlot_spec hfree
        exact .inr ⟨i, hi, hnone, by simp, rfl⟩

theorem lt_invalidHandle (hh : h < maxObjects) : h ≠ invalidHandle := by
  unfold maxObjects at hh
  unfold invalidHandle
  omega

theorem obFindObject_spec {name : Name} {type : Nat} (hf : obFindObject (some name) type ob = h)
    (hne : h ≠ invalidHandle) :
    ∃ obj, ob.lookup h = some obj ∧ obj.type = type ∧ obj.name = name := by
  unfold obFindObject at hf
  dsimp only at hf
  generalize hfind : (List.range maxObjects).find? (fun i =>
    match ob.objects i with
    | none => false
    | some obj => decide (obj.type = type) && decide (obj.name = name)) = found at hf
  cases found with
  | none => exact absurd hf.symm hne
  | some i =>
    obtain rfl : i = h := hf
    have hlt := mem_range.mp (mem_of_find?_eq_some hfind)
    have hp := find?_some hfind
    cases hobj : ob.objects i with
    | none =>
      rw [hobj] at hp
      cases hp
    | some obj =>
      rw [hobj] at hp
      simp only [Bool.and_eq_true, decide_eq_true_eq] at hp
      exact ⟨obj, by rw [ObState.lookup, if_pos hlt, hobj], hp.1, hp.2⟩

theorem obFindObject_none {name : Name} {type : Nat} :
    obFindObject (some name) type ob = invalidHandle ↔
      ∀ k obj, ob.lookup k = some obj → ¬ (obj.type = type ∧ obj.name = name) := by
  unfold obFindObject
  dsimp only
  generalize hfind : (List.range maxObjects).find? (fun i =>
    match ob.objects i with
    | none => false
    | some obj => decide (obj.type = type) && decide (obj.name = name)) = found
  cases found with
  | none =>
    refine ⟨fun _ k obj hk hp => ?_, fun _ => rfl⟩
    have hno := find?_eq_none.mp hfind k (mem_range.mpr (ObState.lt_of_lookup hk))
    rw [ObState.objects_of_lookup hk] at hno
    simp [hp.1, hp.2] at hno
  | some i =>
    have hlt := mem_range.mp (mem_of_find?_eq_some hfind)
    refine ⟨fun h => absurd h (lt_invalidHandle hlt), fun hno => ?_⟩
    have hp := find?_some hfind
    cases hobj : ob.objects i with
    | none =>
      rw [hobj] at hp
      cases hp
    | some obj =>
      rw [hobj] at hp
      simp only [Bool.and_eq_true, decide_eq_true_eq] at hp
      exact absurd hp (hno i obj (by rw [ObState.lookup, if_pos hlt, hobj]))

theorem obFindObject_le {name : Name} {type : Nat} (hl : ob.lookup h = some obj)
    (hp : obj.type = type ∧ obj.name = name) : obFindObject (some name) type ob ≤ h := by
  unfold obFindObject
  dsimp only
  generalize hfind : (List.range maxObjects).find? (fun i =>
    match ob.objects i with
    | none => false
    | some obj => decide (obj.type = type) && decide (obj.name = name)) = found
  cases found with
  | none =>
    have hno := find?_eq_none.mp hfind h (mem_range.mpr (ObState.lt_of_lookup hl))
    rw [ObState.objects_of_lookup hl] at hno
    simp [hp.1, hp.2] at hno
  | some i =>
    obtain ⟨_, before, after, hsplit, hbefore⟩ := find?_eq_some_iff_append.mp hfind
    by_contra hlt
    have hlt : h < i := by simpa using hlt
    have hmem : h ∈ before := by
      have hsorted : (before ++ i :: after).Pairwise (· < ·) := hsplit ▸ pairwise_lt_range
      have hh : h ∈ before ++ i :: after := hsplit ▸ mem_range.mpr (ObState.lt_of_lookup hl)
      rcases mem_append.mp hh with hb | hb
      · exact hb
      · rcases mem_cons.mp hb with rfl | hb
        · omega
        · have := rel_of_pairwise_cons (pairwise_append.mp hsorted).2.1 hb
          omega
    have hno := hbefore h hmem
    rw [ObState.objects_of_lookup hl] at hno
    simp [hp.1, hp.2] at hno

end Table

end DiscouNT.Ob
