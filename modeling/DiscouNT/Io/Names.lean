import DiscouNT.Io.Device

/-!
# Io.Names

Names in the object manager. The stored copy of a name is cut to 31 bytes while every lookup
compares the whole name that is asked for, so a name is an identity exactly when it fits.

`Keeps` is the frame of all calls: whatever they delete, an object that is still there has kept its
name, type, body and number. It needs no invariant, so it holds after any misuse as well.
-/

namespace DiscouNT.Io

open Lib List
open Ob

structure SameObject (o o' : Object) : Prop where
  name : o'.name = o.name
  type : o'.type = o.type
  body : o'.body = o.body
  serial : o'.serial = o.serial

theorem SameObject.refl (o : Object) : SameObject o o := ⟨rfl, rfl, rfl, rfl⟩

variable {o : Object}

theorem SameObject.trans {o' o'' : Object} (h : SameObject o o') (h' : SameObject o' o'') :
    SameObject o o'' :=
  ⟨h'.name.trans h.name, h'.type.trans h.type, h'.body.trans h.body, h'.serial.trans h.serial⟩

theorem sameObject_release (o : Object) : SameObject o o.release :=
  ⟨o.release_name, o.release_type, o.release_body, o.release_serial⟩

theorem sameObject_take (o : Object) : SameObject o o.take := ⟨rfl, rfl, rfl, rfl⟩

/-- Objects may disappear from `w` to `w'`, and nothing else happens to the registry and to what the
table says about an object. -/
structure Keeps (w w' : World) : Prop where
  types : w'.ob.objectTypes = w.ob.objectTypes
  serial : w'.ob.serial = w.ob.serial
  driverType : w'.driverObjectType = w.driverObjectType
  deviceType : w'.deviceObjectType = w.deviceObjectType
  objects : ∀ h o', w'.ob.lookup h = some o' → ∃ o, w.ob.lookup h = some o ∧ SameObject o o'

variable {w' : World}

theorem Keeps.of_ob {w : World} (hob : w'.ob = w.ob) (ht : w'.driverObjectType = w.driverObjectType)
    (hd : w'.deviceObjectType = w.deviceObjectType) : Keeps w w' :=
  ⟨by rw [hob], by rw [hob], ht, hd, fun h o' ho => ⟨o', hob ▸ ho, .refl o'⟩⟩

theorem Keeps.refl (w : World) : Keeps w w := .of_ob rfl rfl rfl

theorem Keeps.trans {w w'' : World} (h : Keeps w w') (h' : Keeps w' w'') : Keeps w w'' := by
  refine ⟨h'.types.trans h.types, h'.serial.trans h.serial, h'.driverType.trans h.driverType,
    h'.deviceType.trans h.deviceType, fun k o'' hk => ?_⟩
  obtain ⟨o', ho', hs'⟩ := h'.objects k o'' hk
  obtain ⟨o, ho, hs⟩ := h.objects k o' ho'
  exact ⟨o, ho, hs.trans hs'⟩

section Frames

variable (w : World) (a : Nat)

@[simp] theorem touch_ob : (w.touch a).ob = w.ob := by
  unfold World.touch
  split <;> rfl

@[simp] theorem touch_driverObjectType :
    (w.touch a).driverObjectType = w.driverObjectType := by
  unfold World.touch
  split <;> rfl

@[simp] theorem touch_deviceObjectType :
    (w.touch a).deviceObjectType = w.deviceObjectType := by
  unfold World.touch
  split <;> rfl

@[simp] theorem kfree_ob : (w.kfree a).ob = w.ob := rfl

@[simp] theorem kfree_driverObjectType : (w.kfree a).driverObjectType = w.driverObjectType := rfl

@[simp] theorem kfree_deviceObjectType : (w.kfree a).deviceObjectType = w.deviceObjectType := rfl

@[simp] theorem setDriver_ob (d : Driver) : (w.setDriver a d).ob = w.ob := rfl

@[simp] theorem setDriver_driverObjectType (d : Driver) :
    (w.setDriver a d).driverObjectType = w.driverObjectType := rfl

@[simp] theorem setDriver_deviceObjectType (d : Driver) :
    (w.setDriver a d).deviceObjectType = w.deviceObjectType := rfl

@[simp] theorem setDevice_ob (d : Device) : (w.setDevice a d).ob = w.ob := rfl

@[simp] theorem setDevice_driverObjectType (d : Device) :
    (w.setDevice a d).driverObjectType = w.driverObjectType := rfl

@[simp] theorem setDevice_deviceObjectType (d : Device) :
    (w.setDevice a d).deviceObjectType = w.deviceObjectType := rfl

@[simp] theorem log_ob (e : DeviceEvent) : (w.log e).ob = w.ob := rfl

@[simp] theorem log_driverObjectType (e : DeviceEvent) :
    (w.log e).driverObjectType = w.driverObjectType := rfl

@[simp] theorem log_deviceObjectType (e : DeviceEvent) :
    (w.log e).deviceObjectType = w.deviceObjectType := rfl

theorem keeps_touch : Keeps w (w.touch a) :=
  .of_ob (touch_ob w a) (touch_driverObjectType w a) (touch_deviceObjectType w a)

theorem keeps_kfree : Keeps w (w.kfree a) := .of_ob rfl rfl rfl

theorem keeps_setDevice (d : Device) : Keeps w (w.setDevice a d) := .of_ob rfl rfl rfl

theorem keeps_setDriver (d : Driver) : Keeps w (w.setDriver a d) := .of_ob rfl rfl rfl

theorem keeps_setLink (link : Option Nat) (v : Nat) : Keeps w (setLink a link v w) := by
  cases link with
  | none => exact keeps_setDriver w a _
  | some d => exact keeps_setDevice w d _

theorem keeps_unlinkDevice (driver : Nat) : Keeps w (unlinkDevice driver a w) := by
  unfold unlinkDevice
  dsimp only
  generalize findLink (w.touch driver) a ((w.touch driver).next + 1) none
    ((w.touch driver).drivers driver).deviceList = found
  cases found with
  | none => exact (keeps_touch w driver).trans (.of_ob rfl rfl rfl)
  | some x =>
    dsimp only
    split
    · exact (keeps_touch w driver).trans (keeps_setLink _ _ _ _)
    · exact keeps_touch w driver

theorem keeps_ioDeleteDeviceBody : Keeps w (ioDeleteDeviceBody a w) := by
  unfold ioDeleteDeviceBody
  dsimp only
  split
  · exact keeps_touch w a
  · exact (keeps_touch w a).trans (.of_ob rfl rfl rfl)

end Frames

section Deleting

variable {dereference : Nat → World → World}

theorem keeps_ioDeleteDevice (hd : ∀ h w, Keeps w (dereference h w)) (device : Nat) (w : World) :
    Keeps w (ioDeleteDevice dereference device w) := by
  unfold ioDeleteDevice
  split
  · exact .refl w
  · dsimp only
    split
    · exact keeps_touch w device
    · have hlog : Keeps w ((w.touch device).log (.removed device)) :=
        (keeps_touch w device).trans (.of_ob rfl rfl rfl)
      refine (hlog.trans ?_).trans (hd _ _)
      split
      · exact keeps_unlinkDevice _ _ _
      · exact .refl _

theorem keeps_drainDevices {deleteDevice : Nat → World → World}
    (hd : ∀ d w, Keeps w (deleteDevice d w)) (driver fuel : Nat) (w : World) :
    Keeps w (drainDevices deleteDevice driver fuel w) := by
  induction fuel generalizing w with
  | zero => exact .of_ob rfl rfl rfl
  | succ fuel ih =>
    unfold drainDevices
    dsimp only
    split
    · exact .refl w
    · exact (hd _ w).trans (ih _)

theorem keeps_delete (hd : ∀ h w, Keeps w (dereference h w)) (proc : DeleteProc) (body : Nat)
    (w : World) : Keeps w ((host dereference).delete proc body w) := by
  cases proc with
  | ioDeleteDriverBody =>
    exact (keeps_touch w body).trans
      (keeps_drainDevices (keeps_ioDeleteDevice hd) body _ _)
  | ioDeleteDeviceBody => exact keeps_ioDeleteDeviceBody w body
  | other n => exact .refl w

theorem keeps_deleteBody (hd : ∀ h w, Keeps w (dereference h w)) (obj : Object) (w : World) :
    Keeps w (deleteBody (host dereference) obj w) := by
  unfold deleteBody
  split
  · exact .refl w
  · dsimp only
    refine Keeps.trans ?_ (keeps_kfree _ obj.body)
    split
    · exact .refl w
    · rename_i proc hproc
      refine Keeps.trans ?_ (keeps_delete hd proc obj.body _)
      exact ⟨rfl, rfl, rfl, rfl, fun h o ho => ⟨o, ho, .refl o⟩⟩

theorem keeps_obDereferenceObject (hd : ∀ h w, Keeps w (dereference h w)) (handle : Nat)
    (w : World) : Keeps w (obDereferenceObject (host dereference) handle w) := by
  rw [obDereferenceObject_host]
  cases hl : w.ob.lookup handle with
  | none => exact .refl w
  | some obj =>
    have hlt := ObState.lt_of_lookup hl
    have hput : Keeps w { w with ob := w.ob.put handle obj.release } := by
      refine ⟨rfl, rfl, rfl, rfl, fun k o' hk => ?_⟩
      rw [ObState.lookup_put hlt] at hk
      split at hk
      · rename_i hkh
        subst hkh
        cases hk
        exact ⟨obj, hl, sameObject_release obj⟩
      · exact ⟨o', hk, .refl o'⟩
    dsimp only
    split
    · exact hput
    · have hdel := keeps_deleteBody hd obj.release { w with ob := w.ob.put handle obj.release }
      generalize deleteBody (host dereference) obj.release
        { w with ob := w.ob.put handle obj.release } = v at hdel ⊢
      refine (hput.trans hdel).trans ⟨rfl, rfl, rfl, rfl, fun k o' hk => ?_⟩
      rw [ObState.lookup_clear] at hk
      split at hk
      · cases hk
      · exact ⟨o', hk, .refl o'⟩

end Deleting

theorem keeps_dereferenceAt (depth handle : Nat) (w : World) :
    Keeps w (dereferenceAt depth handle w) := by
  induction depth generalizing handle w with
  | zero => exact .of_ob rfl rfl rfl
  | succ depth ih => exact keeps_obDereferenceObject ih handle w

theorem keeps_ioDeleteDriver (driver : Nat) (w : World) : Keeps w (ioDeleteDriver driver w) := by
  unfold ioDeleteDriver
  split
  · exact .refl w
  · dsimp only
    split
    · exact keeps_touch w driver
    · refine (keeps_touch w driver).trans (Keeps.trans ?_ (keeps_dereferenceAt _ _ _))
      split
      · exact .of_ob rfl rfl rfl
      · exact .refl _

section Creating

variable (alloc : Allocator)

@[simp] theorem kmalloc_ob (size : Nat) (w : World) : (w.kmalloc alloc size).2.ob = w.ob := by
  unfold World.kmalloc
  split <;> rfl

@[simp] theorem kmalloc_driverObjectType (size : Nat) (w : World) :
    (w.kmalloc alloc size).2.driverObjectType = w.driverObjectType := by
  unfold World.kmalloc
  split <;> rfl

@[simp] theorem kmalloc_deviceObjectType (size : Nat) (w : World) :
    (w.kmalloc alloc size).2.deviceObjectType = w.deviceObjectType := by
  unfold World.kmalloc
  split <;> rfl

@[simp] theorem createObject_driverObjectType (type : Nat) (name : Option Name) (body size : Nat)
    (w : World) :
    (w.createObject alloc type name body size).2.driverObjectType = w.driverObjectType := rfl

@[simp] theorem createObject_deviceObjectType (type : Nat) (name : Option Name) (body size : Nat)
    (w : World) :
    (w.createObject alloc type name body size).2.deviceObjectType = w.deviceObjectType := rfl

@[simp] theorem createObject_ob (type : Nat) (name : Option Name) (body size : Nat) (w : World) :
    (w.createObject alloc type name body size).2.ob =
      (obCreateObject (alloc w.ticks sizeofObject) type name body size w.ob).2 := rfl

@[simp] theorem allocExtension_ob (size : Nat) (w : World) :
    (allocExtension alloc size w).2.ob = w.ob := by
  unfold allocExtension
  split
  · rfl
  · exact kmalloc_ob alloc size w

@[simp] theorem allocExtension_driverObjectType (size : Nat) (w : World) :
    (allocExtension alloc size w).2.driverObjectType = w.driverObjectType := by
  unfold allocExtension
  split
  · rfl
  · exact kmalloc_driverObjectType alloc size w

@[simp] theorem allocExtension_deviceObjectType (size : Nat) (w : World) :
    (allocExtension alloc size w).2.deviceObjectType = w.deviceObjectType := by
  unfold allocExtension
  split
  · rfl
  · exact kmalloc_deviceObjectType alloc size w

structure Creates (type : Nat) (name : Option Name) (w w' : World) : Prop where
  driverType : w'.driverObjectType = w.driverObjectType
  deviceType : w'.deviceObjectType = w.deviceObjectType
  table : w'.ob = w.ob ∨ ∃ allocated body size,
    w'.ob = (obCreateObject allocated type name body size w.ob).2

theorem Creates.of_ob {type : Nat} {name : Option Name} {w : World} (hob : w'.ob = w.ob)
    (ht : w'.driverObjectType = w.driverObjectType)
    (hd : w'.deviceObjectType = w.deviceObjectType) : Creates type name w w' :=
  ⟨ht, hd, .inl hob⟩

theorem creates_ioCreateDriver (name : Option Name) (w : World) :
    Creates w.driverObjectType name w (ioCreateDriver alloc name w).2 := by
  unfold ioCreateDriver
  split
  · exact .of_ob rfl rfl rfl
  · dsimp only
    split
    · exact .of_ob (by simp) (by simp) (by simp)
    · split
      · exact ⟨by simp, by simp, .inr ⟨_, _, _, by simp; rfl⟩⟩
      · exact ⟨by simp, by simp, .inr ⟨_, _, _, by simp; rfl⟩⟩

theorem creates_ioCreateDevice (driver : Nat) (name : Option Name) (size : Nat) (w : World) :
    Creates w.deviceObjectType name w (ioCreateDevice alloc driver name size w).2 ∧
      ((ioCreateDevice alloc driver name size w).2.ob ≠ w.ob →
        obFindObject name w.deviceObjectType w.ob = invalidHandle ∧ name ≠ none) := by
  unfold ioCreateDevice
  split
  · exact ⟨.of_ob rfl rfl rfl, fun h => absurd rfl h⟩
  · dsimp only
    split
    · exact ⟨.of_ob (by simp) (by simp) (by simp), fun h => absurd (by simp) h⟩
    · rename_i hargs
      split
      · exact ⟨.of_ob (by simp) (by simp) (by simp), fun h => absurd (by simp) h⟩
      · rename_i hfind
        simp only [touch_ob, touch_deviceObjectType, ne_eq, not_not] at hfind
        have hname : name ≠ none := fun h => hargs (.inr (.inl h))
        refine ⟨?_, fun _ => ⟨hfind, hname⟩⟩
        split
        · exact .of_ob (by simp) (by simp) (by simp)
        · split
          · exact .of_ob (by simp) (by simp) (by simp)
          · split
            · split
              · exact ⟨by simp, by simp, .inr ⟨_, _, _, by simp; rfl⟩⟩
              · exact ⟨by simp, by simp, .inr ⟨_, _, _, by simp; rfl⟩⟩
            · exact ⟨by simp, by simp, .inr ⟨_, _, _, by simp; rfl⟩⟩

end Creating

/-- What any call does to the registry and to the identity of the objects: types are only added, as
long as there is room, and an object that was not there before has a new number. -/
structure Evolves (w w' : World) : Prop where
  types : w.ob.objectTypes <+: w'.ob.objectTypes
  full : maxObjectTypes ≤ w.ob.objectTypes.length → w'.ob.objectTypes = w.ob.objectTypes
  serial : w.ob.serial ≤ w'.ob.serial
  objects : ∀ h o', w'.ob.lookup h = some o' →
    (∃ o, w.ob.lookup h = some o ∧ SameObject o o') ∨ w.ob.serial ≤ o'.serial

theorem Keeps.evolves {w : World} (h : Keeps w w') : Evolves w w' :=
  ⟨by rw [h.types], fun _ => h.types, h.serial.ge, fun k o hk => .inl (h.objects k o hk)⟩

theorem Evolves.trans {w w'' : World} (h : Evolves w w') (h' : Evolves w' w'') :
    Evolves w w'' := by
  refine ⟨h.types.trans h'.types, fun hf => ?_, h.serial.trans h'.serial, fun k o'' hk => ?_⟩
  · have hw' := h.full hf
    rw [h'.full (by rw [hw']; exact hf), hw']
  · rcases h'.objects k o'' hk with ⟨o', ho', hs'⟩ | hnew
    · rcases h.objects k o' ho' with ⟨o, ho, hs⟩ | hnew
      · exact .inl ⟨o, ho, hs.trans hs'⟩
      · right
        rw [hs'.serial]
        exact hnew
    · exact .inr (h.serial.trans hnew)

theorem Creates.evolves {type : Nat} {name : Option Name} {w : World}
    (h : Creates type name w w') : Evolves w w' := by
  rcases h.table with hob | ⟨allocated, body, size, hob⟩
  · exact (Keeps.of_ob hob h.driverType h.deviceType).evolves
  · rcases obCreateObject_cases allocated type name body size w.ob with hno | ⟨i, hi, hfree, _, hyes⟩
    · rw [hno] at hob
      exact (Keeps.of_ob hob h.driverType h.deviceType).evolves
    · rw [hyes] at hob
      refine ⟨by rw [hob]; exact prefix_rfl, fun _ => by rw [hob]; rfl,
        by rw [hob]; exact Nat.le_succ _, fun k o hk => ?_⟩
      rw [hob] at hk
      have hk' := hk
      change (w.ob.put i _).lookup k = some o at hk'
      rw [ObState.lookup_put hi] at hk'
      split at hk'
      · cases hk'
        exact .inr le_rfl
      · exact .inl ⟨o, hk', .refl o⟩

theorem evolves_register (name : Name) (proc : Option DeleteProc) (w : World) :
    Evolves w { w with ob := (obRegisterObjectType name proc w.ob).2 } := by
  unfold obRegisterObjectType
  split
  · exact (Keeps.refl w).evolves
  · split
    · exact (Keeps.refl w).evolves
    · split
      · exact (Keeps.refl w).evolves
      · rename_i hroom
        exact ⟨prefix_append _ _, fun hf => absurd hf hroom, le_rfl,
          fun k o hk => .inl ⟨o, hk, .refl o⟩⟩

theorem keeps_reference (handle : Nat) (w : World) :
    Keeps w { w with ob := (obReferenceObject handle w.ob).2 } := by
  unfold obReferenceObject
  cases hl : w.ob.lookup handle with
  | none => exact .refl w
  | some obj =>
    refine ⟨rfl, rfl, rfl, rfl, fun k o' hk => ?_⟩
    dsimp only at hk
    rw [ObState.lookup_put (ObState.lt_of_lookup hl)] at hk
    split at hk
    · rename_i hkh
      subst hkh
      cases hk
      exact ⟨obj, hl, sameObject_take obj⟩
    · exact ⟨o', hk, .refl o'⟩

theorem keeps_ioGetDevice (name : Option Name) (w : World) :
    Keeps w (ioGetDevice name w).2 := by
  unfold ioGetDevice
  split
  · exact .refl w
  · dsimp only
    split
    · exact .refl w
    · exact keeps_reference _ w

theorem creates_step_create (alloc : Allocator) (type : Nat) (name : Option Name) (null : Bool)
    (size : Nat) (w : World) :
    Creates type name w (step alloc (.obCreateObject type name null size) w) := by
  cases null with
  | true => exact ⟨rfl, rfl, .inr ⟨_, _, _, rfl⟩⟩
  | false =>
    exact ⟨by simp [step], by simp [step], .inr ⟨_, _, _, by simp [step]; rfl⟩⟩

theorem evolves_step (alloc : Allocator) (op : Op) (w : World) : Evolves w (step alloc op w) := by
  cases op with
  | obRegisterObjectType name proc => exact evolves_register name _ w
  | obCreateObject type name null size =>
    exact (creates_step_create alloc type name null size w).evolves
  | obReferenceObject handle => exact (keeps_reference handle w).evolves
  | obDereferenceObject handle => exact (keeps_dereferenceAt _ handle w).evolves
  | ioCreateDriver name => exact (creates_ioCreateDriver alloc name w).evolves
  | ioCreateDevice driver name size =>
    exact (creates_ioCreateDevice alloc driver name size w).1.evolves
  | ioGetDevice name => exact (keeps_ioGetDevice name w).evolves
  | ioDeleteDevice device =>
    exact (keeps_ioDeleteDevice (keeps_dereferenceAt _) device w).evolves
  | ioDeleteDriver driver => exact (keeps_ioDeleteDriver driver w).evolves

theorem evolves_run (alloc : Allocator) (ops : List Op) (w : World) :
    Evolves w (run alloc ops w) := by
  induction ops generalizing w with
  | nil => exact (Keeps.refl w).evolves
  | cons op ops ih => exact (evolves_step alloc op w).trans (ih _)

/-! ## The registry of types -/

structure RegistryOk (ob : ObState DeleteProc) : Prop where
  nonempty : ob.objectTypes ≠ []
  short : ∀ t ∈ ob.objectTypes, t.name.length < maxNameLen

theorem storedName_length (name : Name) : (storedName name).length < maxNameLen := by
  unfold storedName
  have hle := length_take_le (maxNameLen - 1) name
  have hpos : maxNameLen = 32 := rfl
  omega

theorem storedName_of_lt {name : Name} (h : name.length < maxNameLen) : storedName name = name := by
  unfold storedName
  exact take_of_length_le (by omega)

variable {ob : ObState DeleteProc}

theorem registryOk_register (h : RegistryOk ob) (name : Name)
    (proc : Option DeleteProc) : RegistryOk (obRegisterObjectType name proc ob).2 := by
  unfold obRegisterObjectType
  split
  · exact h
  · split
    · exact h
    · split
      · exact h
      · refine ⟨by simp, fun t ht => ?_⟩
        rcases mem_append.mp ht with ht | ht
        · exact h.short t ht
        · rw [mem_singleton.mp ht]
          exact storedName_length name

theorem registryOk_of_types {ob' : ObState DeleteProc} (h : RegistryOk ob)
    (heq : ob'.objectTypes = ob.objectTypes) : RegistryOk ob' :=
  ⟨heq ▸ h.nonempty, heq ▸ h.short⟩

theorem Creates.types {type : Nat} {name : Option Name} {w : World}
    (h : Creates type name w w') : w'.ob.objectTypes = w.ob.objectTypes := by
  rcases h.table with hob | ⟨allocated, body, size, hob⟩
  · rw [hob]
  · rcases obCreateObject_cases allocated type name body size w.ob with hno | ⟨i, _, _, _, hyes⟩
    · rw [hob, hno]
    · rw [hob, hyes]
      rfl

theorem registryOk_step {alloc : Allocator} {w : World} (h : RegistryOk w.ob) (op : Op) :
    RegistryOk (step alloc op w).ob := by
  cases op with
  | obRegisterObjectType name proc => exact registryOk_register h name _
  | obCreateObject type name null size =>
    exact registryOk_of_types h (creates_step_create alloc type name null size w).types
  | obReferenceObject handle => exact registryOk_of_types h (keeps_reference handle w).types
  | obDereferenceObject handle =>
    exact registryOk_of_types h (keeps_dereferenceAt _ handle w).types
  | ioCreateDriver name => exact registryOk_of_types h (creates_ioCreateDriver alloc name w).types
  | ioCreateDevice driver name size =>
    exact registryOk_of_types h (creates_ioCreateDevice alloc driver name size w).1.types
  | ioGetDevice name => exact registryOk_of_types h (keeps_ioGetDevice name w).types
  | ioDeleteDevice device =>
    exact registryOk_of_types h (keeps_ioDeleteDevice (keeps_dereferenceAt _) device w).types
  | ioDeleteDriver driver => exact registryOk_of_types h (keeps_ioDeleteDriver driver w).types

theorem registryOk_boot : RegistryOk boot.ob := by
  have hinit : RegistryOk (obInit : ObState DeleteProc) := by
    refine ⟨by simp [obInit], fun t ht => ?_⟩
    rw [mem_singleton.mp ht]
    decide
  exact registryOk_register (registryOk_register (registryOk_register (registryOk_register
    (registryOk_register (registryOk_register hinit _ _) _ _) _ _) _ _) _ _) _ _

theorem Reachable.registryOk {alloc : Allocator} {ok : Op → World → Prop} {w : World}
    (h : Reachable alloc ok w) : RegistryOk w.ob := by
  induction h with
  | boot => exact registryOk_boot
  | step _ _ ih => exact registryOk_step ih _

theorem registryOk_run {alloc : Allocator} {w : World} (h : RegistryOk w.ob) (ops : List Op) :
    RegistryOk (run alloc ops w).ob := by
  induction ops generalizing w with
  | nil => exact h
  | cons op ops ih => exact ih (registryOk_step h op)

theorem typeIndex_stable {ob' : ObState DeleteProc} {name : Name} {i : Nat}
    (hne : ob.objectTypes ≠ []) (hpre : ob.objectTypes <+: ob'.objectTypes)
    (h : typeIndex ob name = some i) : typeIndex ob' name = some i := by
  obtain ⟨more, hmore⟩ := hpre
  unfold typeIndex at h ⊢
  rw [← hmore, tail_append_of_ne_nil hne, findIdx?_append]
  cases hf : List.findIdx? (fun t => decide (t.name = name)) ob.objectTypes.tail with
  | none =>
    rw [hf] at h
    cases h
  | some j =>
    rw [hf] at h
    simpa using h

theorem typeIndex_none_of_long (h : RegistryOk ob) {name : Name}
    (hlong : ¬ name.length < maxNameLen) : typeIndex ob name = none := by
  unfold typeIndex
  rw [Option.map_eq_none_iff, findIdx?_eq_none_iff]
  intro t ht
  simp only [decide_eq_false_iff_not]
  rintro rfl
  exact hlong (h.short t (mem_of_mem_tail ht))

theorem short_of_typeIndex (h : RegistryOk ob) {name : Name} {i : Nat}
    (hi : typeIndex ob name = some i) : name.length < maxNameLen := by
  by_contra hlong
  rw [typeIndex_none_of_long h hlong] at hi
  cases hi

theorem typeIndex_append (h : RegistryOk ob) {name : Name}
    (hshort : name.length < maxNameLen) (hnone : typeIndex ob name = none)
    (proc : Option DeleteProc) :
    typeIndex { ob with objectTypes := ob.objectTypes ++ [⟨storedName name, proc⟩] } name =
      some ob.objectTypes.length := by
  unfold typeIndex at hnone ⊢
  rw [Option.map_eq_none_iff] at hnone
  dsimp only
  rw [tail_append_of_ne_nil h.nonempty, findIdx?_append, hnone, storedName_of_lt hshort]
  have hpos := length_pos_iff.mpr h.nonempty
  have hlen : ob.objectTypes.length - 1 + 1 = ob.objectTypes.length := by omega
  simpa using hlen

/-- Registering a name twice, with anything in between, gives the same index exactly when the name
fits or the registry was already full. -/
theorem register_twice (alloc : Allocator) {w : World} (h : RegistryOk w.ob) (ops : List Op)
    (name : Name) (proc proc' : Option DeleteProc) :
    (obRegisterObjectType name proc'
      (run alloc ops { w with ob := (obRegisterObjectType name proc w.ob).2 }).ob).1 =
        (obRegisterObjectType name proc w.ob).1 ↔
      name.length < maxNameLen ∨ maxObjectTypes ≤ w.ob.objectTypes.length := by
  have h1 := registryOk_register h name proc
  have hev := evolves_run alloc ops { w with ob := (obRegisterObjectType name proc w.ob).2 }
  have h2 : RegistryOk
      (run alloc ops { w with ob := (obRegisterObjectType name proc w.ob).2 }).ob :=
    registryOk_run (w := { w with ob := (obRegisterObjectType name proc w.ob).2 }) h1 ops
  generalize run alloc ops { w with ob := (obRegisterObjectType name proc w.ob).2 } = w2
    at hev h2
  have htypes := hev.types
  have hfull := hev.full
  dsimp only at htypes hfull
  by_cases hnil : name = []
  · subst hnil
    simp [obRegisterObjectType, maxNameLen]
  simp only [obRegisterObjectType, if_neg hnil] at htypes hfull ⊢
  cases hi : typeIndex w.ob name with
  | some i =>
    simp only [hi] at htypes hfull ⊢
    simp [typeIndex_stable h.nonempty htypes hi, short_of_typeIndex h hi]
  | none =>
    simp only [hi] at htypes hfull ⊢
    by_cases hroom : maxObjectTypes ≤ w.ob.objectTypes.length
    · simp only [if_pos hroom] at htypes hfull ⊢
      have heq := hfull hroom
      have hnone : typeIndex w2.ob name = none := by
        unfold typeIndex at hi ⊢
        rw [heq]
        exact hi
      simp [hnone, heq, hroom]
    · simp only [if_neg hroom] at htypes hfull ⊢
      by_cases hshort : name.length < maxNameLen
      · have hfound := typeIndex_append h hshort hi proc
        have hlater := typeIndex_stable (by simp) htypes hfound
        simp [hlater, hshort]
      · have hnone := typeIndex_none_of_long h2 hshort
        have hlen := htypes.length_le
        have hpos := length_pos_iff.mpr h.nonempty
        simp only [length_append, length_singleton] at hlen
        simp only [hnone, hshort, hroom, or_self, iff_false]
        split
        · dsimp only
          omega
        · dsimp only
          omega

/-! ## Objects and devices -/

theorem obFindObject_first {name : Name} {type h : Nat}
    (hl : ob.lookup h = some o) (htype : o.type = type) (hname : o.name = name)
    (hfirst : ∀ k < h, ∀ o', ob.lookup k = some o' → ¬ (o'.type = type ∧ o'.name = name)) :
    obFindObject (some name) type ob = h := by
  have hlt := ObState.lt_of_lookup hl
  by_contra hne
  have hvalid : obFindObject (some name) type ob ≠ invalidHandle := by
    intro hinv
    exact obFindObject_none.mp hinv h o hl ⟨htype, hname⟩
  obtain ⟨o', ho', ht', hn'⟩ := obFindObject_spec rfl hvalid
  -- the search stops at the first match, so it cannot have gone past `h`
  have hle : obFindObject (some name) type ob ≤ h := obFindObject_le hl ⟨htype, hname⟩
  exact hfirst _ (by omega) o' ho' ⟨ht', hn'⟩

/-- The object `ObCreateObject` makes for `s` is found under `s`, as long as no earlier slot holds
that name and type, exactly when `s` fits. -/
theorem create_find (alloc : Allocator) (w : World) (ops : List Op) (allocated : Bool)
    (type : Nat) (s : Name) (body size : Nat) {h : Nat} {ob1 : ObState DeleteProc}
    (hcreate : obCreateObject allocated type (some s) body size w.ob = (h, ob1))
    (hh : h ≠ invalidHandle) (hl : (run alloc ops { w with ob := ob1 }).ob.lookup h = some o)
    (hserial : o.serial = w.ob.serial)
    (hfirst : ∀ k < h, ∀ o', (run alloc ops { w with ob := ob1 }).ob.lookup k = some o' →
      ¬ (o'.type = type ∧ o'.name = s)) :
    obFindObject (some s) type (run alloc ops { w with ob := ob1 }).ob = h ↔
      s.length < maxNameLen := by
  have hev := evolves_run alloc ops { w with ob := ob1 }
  generalize run alloc ops { w with ob := ob1 } = w2 at hl hfirst hev ⊢
  rcases obCreateObject_cases allocated type (some s) body size w.ob with hno | ⟨i, hi, _, _, hyes⟩
  · rw [hno] at hcreate
    cases hcreate
    exact absurd rfl hh
  · rw [hyes] at hcreate
    cases hcreate
    have hsame : o.name = storedName s ∧ o.type = type := by
      rcases hev.objects h o hl with ⟨o1, ho1, hs⟩ | hnew
      · change (w.ob.put h _).lookup h = some o1 at ho1
        rw [ObState.lookup_put hi, if_pos rfl] at ho1
        cases ho1
        exact ⟨hs.name, hs.type⟩
      · change w.ob.serial + 1 ≤ o.serial at hnew
        omega
    constructor
    · intro hfound
      by_contra hlong
      obtain ⟨o', ho', _, hn'⟩ := obFindObject_spec hfound hh
      rw [hl] at ho'
      cases ho'
      rw [hsame.1] at hn'
      exact hlong (hn' ▸ storedName_length s)
    · intro hshort
      exact obFindObject_first hl hsame.2 (hsame.1.trans (storedName_of_lt hshort)) hfirst

/-- A call that makes no device whose name does not fit, and no device behind `IoCreateDevice`. -/
def ShortNames : Op → World → Prop
  | .ioCreateDevice _ name _, _ => ∀ s, name = some s → s.length < maxNameLen
  | .obCreateObject type _ _ _, w => type ≠ w.deviceObjectType
  | _, _ => True

structure DistinctDevices (w : World) : Prop where
  types : w.driverObjectType ≠ w.deviceObjectType
  distinct : ∀ h k o o', w.ob.lookup h = some o → w.ob.lookup k = some o' →
    o.type = w.deviceObjectType → o'.type = w.deviceObjectType → o.name = o'.name → h = k

theorem DistinctDevices.keeps {w : World} (h : DistinctDevices w) (hk : Keeps w w') :
    DistinctDevices w' := by
  refine ⟨by rw [hk.driverType, hk.deviceType]; exact h.types, fun a b o o' ha hb hto hto' hn => ?_⟩
  obtain ⟨p, hp, hs⟩ := hk.objects a o ha
  obtain ⟨q, hq, hs'⟩ := hk.objects b o' hb
  refine h.distinct a b p q hp hq ?_ ?_ ?_
  · rw [← hs.type, hto, hk.deviceType]
  · rw [← hs'.type, hto', hk.deviceType]
  · rw [← hs.name, ← hs'.name, hn]

theorem DistinctDevices.creates {type : Nat} {name : Option Name} {w : World}
    (h : DistinctDevices w) (hc : Creates type name w w')
    (hnew : w'.ob ≠ w.ob → type = w.deviceObjectType → ∃ s, name = some s ∧
      s.length < maxNameLen ∧ obFindObject name type w.ob = invalidHandle) :
    DistinctDevices w' := by
  by_cases heq : w'.ob = w.ob
  · exact h.keeps (.of_ob heq hc.driverType hc.deviceType)
  obtain ⟨allocated, body, size, hob⟩ := hc.table.resolve_left heq
  rcases obCreateObject_cases allocated type name body size w.ob with hno | ⟨i, hi, hfree, _, hyes⟩
  · rw [hno] at hob
    exact absurd hob heq
  rw [hyes] at hob
  have hlook : ∀ k, w'.ob.lookup k = if k = i
      then some ⟨storedName (name.getD []), type, 1, body, size, w.ob.serial, 0, 0⟩
      else w.ob.lookup k := by
    intro k
    rw [hob]
    exact ObState.lookup_put hi
  -- the new object against one that was there
  have hclash : ∀ k o', w.ob.lookup k = some o' → type = w.deviceObjectType →
      o'.type = w.deviceObjectType → storedName (name.getD []) ≠ o'.name := by
    intro k o' ho' ht ht' hn
    obtain ⟨s, rfl, hshort, hfind⟩ := hnew heq ht
    refine obFindObject_none.mp hfind k o' ho' ⟨ht'.trans ht.symm, ?_⟩
    rw [← hn]
    exact storedName_of_lt hshort
  refine ⟨by rw [hc.driverType, hc.deviceType]; exact h.types, fun a b o o' ha hb hto hto' hn => ?_⟩
  rw [hc.deviceType] at hto hto'
  rw [hlook] at ha hb
  split at ha
  · split at hb
    · omega
    · cases ha
      exact absurd hn (hclash b o' hb hto hto')
  · split at hb
    · cases hb
      exact absurd hn.symm (hclash a o ha hto' hto)
    · exact h.distinct a b o o' ha hb hto hto' hn

theorem distinctDevices_step {alloc : Allocator} {w : World} {op : Op} (h : DistinctDevices w)
    (hok : ShortNames op w) : DistinctDevices (step alloc op w) := by
  cases op with
  | obRegisterObjectType name proc =>
    refine ⟨h.types, fun a b o o' ha hb => ?_⟩
    change (obRegisterObjectType name (proc.map .other) w.ob).2.lookup a = some o at ha
    change (obRegisterObjectType name (proc.map .other) w.ob).2.lookup b = some o' at hb
    rw [register_lookup] at ha hb
    exact h.distinct a b o o' ha hb
  | obCreateObject type name null size =>
    exact h.creates (creates_step_create alloc type name null size w) fun _ ht => absurd ht hok
  | obReferenceObject handle => exact h.keeps (keeps_reference handle w)
  | obDereferenceObject handle => exact h.keeps (keeps_dereferenceAt _ handle w)
  | ioCreateDriver name =>
    exact h.creates (creates_ioCreateDriver alloc name w) fun _ ht => absurd ht h.types
  | ioCreateDevice driver name size =>
    obtain ⟨hc, hnew⟩ := creates_ioCreateDevice alloc driver name size w
    refine h.creates hc fun hne _ => ?_
    obtain ⟨hfind, hname⟩ := hnew hne
    obtain ⟨s, rfl⟩ := Option.ne_none_iff_exists'.mp hname
    exact ⟨s, rfl, hok s rfl, hfind⟩
  | ioGetDevice name => exact h.keeps (keeps_ioGetDevice name w)
  | ioDeleteDevice device =>
    exact h.keeps (keeps_ioDeleteDevice (keeps_dereferenceAt _) device w)
  | ioDeleteDriver driver => exact h.keeps (keeps_ioDeleteDriver driver w)

theorem boot_lookup (h : Nat) : boot.ob.lookup h = none := by
  simp only [boot, register_lookup]
  unfold ObState.lookup obInit
  split <;> rfl

theorem Reachable.distinctDevices {alloc : Allocator} {w : World}
    (h : Reachable alloc ShortNames w) : DistinctDevices w := by
  induction h with
  | boot =>
    refine ⟨by decide, fun a b o o' ha => ?_⟩
    rw [boot_lookup] at ha
    cases ha
  | step _ hok ih => exact distinctDevices_step ih hok

/-- Registering a type by name is idempotent exactly when the name fits into 31 bytes (or the
registry was full before), an object is found under its name exactly when that fits, and so do the
names of live devices identify them. -/
theorem names_identify (alloc : Allocator) :
    (∀ w, Reachable alloc (fun _ _ => True) w → ∀ ops name proc proc',
      (obRegisterObjectType name proc'
        (run alloc ops { w with ob := (obRegisterObjectType name proc w.ob).2 }).ob).1 =
          (obRegisterObjectType name proc w.ob).1 ↔
        name.length < maxNameLen ∨ maxObjectTypes ≤ w.ob.objectTypes.length) ∧
    (∀ (w : World) (ops : List Op) (allocated : Bool) (type : Nat) (s : Name)
      (body size h : Nat) (ob1 : ObState DeleteProc),
      obCreateObject allocated type (some s) body size w.ob = (h, ob1) → h ≠ invalidHandle →
      ∀ o, (run alloc ops { w with ob := ob1 }).ob.lookup h = some o →
        o.serial = w.ob.serial →
        (∀ k < h, ∀ o', (run alloc ops { w with ob := ob1 }).ob.lookup k = some o' →
          ¬ (o'.type = type ∧ o'.name = s)) →
        (obFindObject (some s) type (run alloc ops { w with ob := ob1 }).ob = h ↔
          s.length < maxNameLen)) ∧
    (∀ w, Reachable alloc ShortNames w → ∀ h k o o', w.ob.lookup h = some o →
      w.ob.lookup k = some o' → o.type = w.deviceObjectType → o'.type = w.deviceObjectType →
      o.name = o'.name → h = k) := by
  refine ⟨fun w hw ops name proc proc' => ?_, fun w ops allocated type s body size h ob1 hc hh o
    hl hs hfirst => ?_, fun w hw => hw.distinctDevices.distinct⟩
  · exact register_twice alloc hw.registryOk ops name proc proc'
  · exact create_find alloc w ops allocated type s body size hc hh hl hs hfirst

def longName : Name := List.replicate 32 0x41

/-- The calls behind a name that does not fit: the second registration gives another index, the
object is not found, and a second device takes the same name. -/
theorem names_identify_long :
    (obRegisterObjectType longName none (obRegisterObjectType longName none boot.ob).2).1 ≠
      (obRegisterObjectType longName none boot.ob).1 ∧
    (∃ ob1, obCreateObject true 3 (some longName) 1 8 boot.ob = (0, ob1) ∧
      obFindObject (some longName) 3 ob1 = invalidHandle) ∧
    (∃ o o', (run (fun _ _ => true) [.ioCreateDriver (some [0x44]),
        .ioCreateDevice 1 (some longName) 0, .ioCreateDevice 1 (some longName) 0] boot).ob.lookup 1
          = some o ∧
      (run (fun _ _ => true) [.ioCreateDriver (some [0x44]),
        .ioCreateDevice 1 (some longName) 0, .ioCreateDevice 1 (some longName) 0] boot).ob.lookup 2
          = some o' ∧ o.type = o'.type ∧ o.name = o'.name) := by
  refine ⟨by decide +kernel, ⟨_, rfl, by decide +kernel⟩, ?_⟩
  refine ⟨⟨storedName longName, 2, 1, 2, sizeofDevice, 1, 0, 0⟩,
    ⟨storedName longName, 2, 1, 3, sizeofDevice, 2, 0, 0⟩, ?_, ?_, rfl, rfl⟩
  · decide +kernel
  · decide +kernel

/-- A name that fits, at the three places. -/
theorem names_identify_disk :
    (obRegisterObjectType [0x44] none (obRegisterObjectType [0x44] none boot.ob).2).1 =
      (obRegisterObjectType [0x44] none boot.ob).1 ∧
    obFindObject (some [0x44]) 3 (obCreateObject true 3 (some [0x44]) 1 8 boot.ob).2 = 0 ∧
    (∀ h k o o',
      (run (fun _ _ => true) [.ioCreateDriver (some [0x44]), .ioCreateDevice 1 (some [0x44]) 0]
        boot).ob.lookup h = some o →
      (run (fun _ _ => true) [.ioCreateDriver (some [0x44]), .ioCreateDevice 1 (some [0x44]) 0]
        boot).ob.lookup k = some o' →
      o.type = 2 → o'.type = 2 → o.name = o'.name → h = k) := by
  obtain ⟨htypes, hobjects, hdevices⟩ := names_identify (fun _ _ => true)
  refine ⟨(htypes boot .boot [] [0x44] none none).mpr (.inl (by decide)), ?_, ?_⟩
  · have hlook : (obCreateObject true 3 (some [0x44]) 1 8 boot.ob).2.lookup 0 =
        some ⟨[0x44], 3, 1, 1, 8, 0, 0, 0⟩ := by decide +kernel
    exact (hobjects boot [] true 3 [0x44] 1 8 0 _ rfl (by decide) _ hlook rfl
      (fun k hk => absurd hk (Nat.not_lt_zero k))).mpr (by decide)
  · have hdriver : Reachable (fun _ _ => true) ShortNames
        (step (fun _ _ => true) (.ioCreateDriver (some [0x44])) boot) := .step .boot trivial
    have hok : ShortNames (.ioCreateDevice 1 (some [0x44]) 0)
        (step (fun _ _ => true) (.ioCreateDriver (some [0x44])) boot) := by
      intro s hs
      cases hs
      decide
    exact hdevices _ (.step hdriver hok)

end DiscouNT.Io
