import DiscouNT.Io.DeviceCreate
import Mathlib.Tactic.IntervalCases

/-!
# Io.DeviceRuns

Whole runs of the object manager and `io.c`.

* `Held` says that the calls release what their caller holds. The reference a device is created
  with belongs to the list of its driver: `IoDeleteDevice` or the deletion of the driver gives it
  back, and not `ObDereferenceObject`.
* `object_books`: whatever the calls and their order, the books of the object manager are right.
-/

namespace DiscouNT.Io

open Lib List Option
open Ob

def LiveDriver (w : World) (a : Nat) : Prop := ∃ h, slot w h = some (w.driverObjectType, a)

def LiveDevice (w : World) (d : Nat) : Prop := ∃ h, slot w h = some (w.deviceObjectType, d)

/-- The call has valid arguments and releases only what its caller holds, and the count of an object
stays below 2^32. -/
def Held (op : Op) (w : World) : Prop :=
  match op with
  | .obRegisterObjectType _ _ => True
  | .obCreateObject type _ null _ =>
    null = false → type ≠ w.driverObjectType ∧ type ≠ w.deviceObjectType
  | .obReferenceObject handle => ∀ o, w.ob.lookup handle = some o → o.refCount + 1 < 2 ^ 32
  | .obDereferenceObject handle =>
    ∀ o, w.ob.lookup handle = some o → o.refCount = 1 → ¬ Listed w o.body
  | .ioCreateDriver _ => True
  | .ioCreateDevice driver _ _ => driver = 0 ∨ LiveDriver w driver
  | .ioGetDevice name => ∀ o, w.ob.lookup (obFindObject name w.deviceObjectType w.ob) = some o →
    o.refCount + 1 < 2 ^ 32
  | .ioDeleteDevice device =>
    device = 0 ∨ LiveDevice w device ∧ LiveDriver w (w.devices device).driver
  | .ioDeleteDriver driver => driver = 0 ∨ LiveDriver w driver

section Calls

variable {w : World}

theorem quiet_boot : Quiet boot := by
  have hslot : ∀ k, slot boot k = none := fun k => slot_eq_none.mpr (boot_lookup k)
  have hproc : ∀ t, deleteProcOf boot.ob t =
      if t = 1 then some .ioDeleteDriverBody else if t = 2 then some .ioDeleteDeviceBody
      else if t = 4 then some (.other 0) else none := by
    intro t
    have hlen : boot.ob.objectTypes.length = 7 := by decide +kernel
    by_cases ht : t < 7
    · interval_cases t <;> decide +kernel
    · have hnone : boot.ob.objectTypes[t]? = none := getElem?_eq_none (by omega)
      rw [deleteProcOf, obGetObjectType, hnone, if_neg (by omega), if_neg (by omega),
        if_neg (by omega), if_neg (by omega)]
      rfl
  have hdriver : boot.driverObjectType = 1 := by decide +kernel
  have hdevice : boot.deviceObjectType = 2 := by decide +kernel
  refine ⟨?_, ⟨Nat.one_pos, by rw [hdriver, hdevice]; decide, fun t => ?_, fun t => ?_,
    fun k t b hk => ?_, fun k k' t t' b hk => ?_, fun k a hk => ?_, fun k d hk => ?_,
    fun k d hk => ?_⟩, rfl, fun _ h => h.elim⟩
  · exact (((((accounted_init.register _ _).register _ _).register _ _).register _ _).register
      _ _).register _ _
  · rw [hproc, hdriver]
    grind
  · rw [hproc, hdevice]
    grind
  all_goals
    rw [hslot] at hk
    cases hk

theorem Prepared.survives {w' : World} (hp : Prepared w w') : Survives w w' :=
  .of_lookup fun k => by rw [hp.ob]

theorem ioGetDevice_table (name : Option Name) (w : World) :
    (ioGetDevice name w).2 = w ∨ (ioGetDevice name w).2 =
      { w with ob := (obReferenceObject (obFindObject name w.deviceObjectType w.ob) w.ob).2 } := by
  unfold ioGetDevice
  split
  · exact .inl rfl
  · dsimp only
    split
    · exact .inl rfl
    · exact .inr rfl

theorem survives_reference (h : Nat) (w : World) :
    Survives w { w with ob := (obReferenceObject h w.ob).2 } := by
  unfold obReferenceObject
  cases ho : w.ob.lookup h with
  | none => exact .of_lookup fun _ => rfl
  | some o => exact .of_put ho rfl (sameObject_take o)

theorem Quiet.forget (hinv : Quiet w) (n : Nat) : Quiet { w with currentDriver := n } :=
  hinv.prepared ⟨rfl, rfl, rfl, rfl, rfl, le_rfl, fun _ _ => rfl, fun _ _ => rfl, fun _ _ => rfl⟩

theorem ioDeleteDriver_eq {h a : Nat} (hinv : Quiet w)
    (hh : slot w h = some (w.driverObjectType, a)) (ha : a ≠ 0) :
    ioDeleteDriver a w =
      dereference h { w with currentDriver := if w.currentDriver = a then 0 else w.currentDriver } := by
  obtain ⟨htype, hhandle, _⟩ := hinv.wired.driver h a hh ha
  unfold ioDeleteDriver
  rw [if_neg ha, touch_of_live ((hinv.wired.bodies h _ a hh).2 ha)]
  dsimp only
  rw [if_neg (by simp [htype])]
  split
  · rename_i hcur
    exact congrArg (dereference · _) hhandle
  · exact congrArg (dereference · _) hhandle

theorem Quiet.step (alloc : Allocator) (op : Op) (hinv : Quiet w) (hok : Held op w) :
    Quiet (Io.step alloc op w) ∧ Survives w (Io.step alloc op w) := by
  cases op with
  | obRegisterObjectType name proc =>
    exact ⟨register_spec name proc hinv, .of_lookup fun k => register_lookup name _⟩
  | obCreateObject type name null size => exact obCreateObject_spec alloc type name null size hinv hok
  | obReferenceObject handle =>
    exact ⟨(reference_spec hinv hok).1, survives_reference handle w⟩
  | obDereferenceObject handle => exact hinv.dereference hok
  | ioCreateDriver name =>
    obtain ⟨hinv', _, hp | ⟨i, hadd, _, hother, _⟩⟩ := ioCreateDriver_spec alloc name hinv
    · exact ⟨hinv', hp.survives⟩
    · exact ⟨hinv', .of_free (slot_eq_none.mp hadd.free) hother⟩
  | ioCreateDevice driver name size =>
    rcases hok with rfl | ⟨h, hh⟩
    · exact ⟨hinv, .of_lookup fun _ => rfl⟩
    · obtain ⟨hinv', hp | ⟨i, hnew⟩⟩ := ioCreateDevice_spec alloc name size hinv hh
      · exact ⟨hinv', hp.survives⟩
      · exact ⟨hinv', .of_free (slot_eq_none.mp hnew.added.free) hnew.other⟩
  | ioGetDevice name =>
    change Quiet (Io.ioGetDevice name w).2 ∧ Survives w (Io.ioGetDevice name w).2
    rcases ioGetDevice_table name w with heq | heq
    · rw [heq]
      exact ⟨hinv, .of_lookup fun _ => rfl⟩
    · rw [heq]
      exact ⟨(reference_spec hinv hok).1, survives_reference _ w⟩
  | ioDeleteDevice device =>
    rcases hok with rfl | ⟨⟨h, hh⟩, k, hk⟩
    · exact ⟨hinv, .of_lookup fun _ => rfl⟩
    · by_cases hd : device = 0
      · subst hd
        exact ⟨hinv, .of_lookup fun _ => rfl⟩
      · have ha := (hinv.wired.device h device hh hd).2.2
        obtain ⟨_, _, l, hl⟩ := hinv.wired.driver k _ hk ha
        change Quiet (Io.ioDeleteDevice Io.dereference device w) ∧
          Survives w (Io.ioDeleteDevice Io.dereference device w)
        rw [dereference_eq]
        obtain ⟨hinv', hrem, _⟩ := ioDeleteDevice_spec
          (obDereferenceObject (host (dereferenceAt (maxObjects - 1)))) hinv hh hd rfl hk hl
        exact ⟨hinv', hrem.stays⟩
  | ioDeleteDriver driver =>
    rcases hok with rfl | ⟨h, hh⟩
    · exact ⟨hinv, .of_lookup fun _ => rfl⟩
    · by_cases ha : driver = 0
      · subst ha
        exact ⟨hinv, .of_lookup fun _ => rfl⟩
      · change Quiet (Io.ioDeleteDriver driver w) ∧ Survives w (Io.ioDeleteDriver driver w)
        rw [ioDeleteDriver_eq hinv hh ha]
        refine (hinv.forget _).dereference fun o ho _ hlisted => ?_
        obtain ⟨a, l, hl, hmem⟩ := hlisted
        -- the object at `h` is a driver, and lists hold devices
        have hh' : slot w h = some (o.type, o.body) := slot_of_lookup ho
        have htype : o.type = w.driverObjectType := by
          rw [hh, some.injEq, Prod.mk.injEq] at hh'
          exact hh'.1.symm
        exact hinv.wired.not_listed hh' (htype ▸ hinv.wired.typesNe) ⟨hl.chain, hl.owned⟩ hmem

theorem Reachable.quiet {alloc : Allocator} (hr : Reachable alloc Held w) : Quiet w := by
  induction hr with
  | boot => exact quiet_boot
  | @step v op hr hok ih => exact (ih.step alloc op hok).1

end Calls

/-! ## The books -/

/-- After any calls that release what is held: no freed record was read, each count is one plus the
references that are out, the delete procedure has run exactly once for what is gone, and the next
call takes nothing away that has a second reference. -/
theorem object_books (alloc : Allocator) {w : World} (hr : Reachable alloc Held w) :
    w.fault = false ∧ w.ob.count = w.ob.occupied ∧
    (∀ h o, w.ob.lookup h = some o → 0 < o.refCount ∧ o.refCount + o.released = 1 + o.taken ∧
      .created o.serial h o.type o.body ∈ w.ob.history ∧
      w.ob.history.count (.deleted o.serial) = 0) ∧
    (∀ s h t b, .created s h t b ∈ w.ob.history →
      (∃ o, w.ob.lookup h = some o ∧ o.serial = s ∧ o.type = t ∧ o.body = b) ∨
      w.ob.history.count (.deleted s) =
        if b ≠ 0 ∧ deleteProcOf w.ob t ≠ none then 1 else 0) ∧
    ∀ op, Held op w → ∀ h o, w.ob.lookup h = some o → 2 ≤ o.refCount →
      ∃ o', (step alloc op w).ob.lookup h = some o' ∧ SameObject o o' := by
  have hinv := hr.quiet
  refine ⟨hinv.sane, hinv.books.count, fun h o ho => ?_, fun s h t b hc => ?_, fun op hok =>
    (hinv.step alloc op hok).2⟩
  · have hpos : o.refCount ≠ 0 := fun h0 => (hinv.books.alive h o ho).mp h0
    exact ⟨Nat.pos_of_ne_zero hpos, (hinv.books.refs h o ho).1, hinv.books.created h o ho,
      hinv.books.kept h o ho not_false⟩
  · rcases hinv.books.gone s h t b hc with ⟨o, ho, rfl⟩ | hgone
    · obtain ⟨_, rfl, rfl⟩ := hinv.books.once _ _ _ _ _ _ _ hc (hinv.books.created h o ho)
      exact .inl ⟨o, ho, rfl, rfl, rfl⟩
    · exact .inr hgone

def nestedDelete : List Op :=
  [.ioCreateDriver (some [0x44]), .ioCreateDevice 1 (some [0x45]) 8, .ioDeleteDriver 1]

theorem object_books_nested :
    (run (fun _ _ => true) nestedDelete boot).fault = false ∧
    (run (fun _ _ => true) nestedDelete boot).ob.count = 0 ∧
    (run (fun _ _ => true) nestedDelete boot).ob.history.count (.deleted 0) = 1 ∧
    (run (fun _ _ => true) nestedDelete boot).ob.history.count (.deleted 1) = 1 := by
  have h1 : Reachable (fun _ _ => true) Held
      (step (fun _ _ => true) (.ioCreateDriver (some [0x44])) boot) := .step .boot trivial
  have hk1 : Held (.ioCreateDevice 1 (some [0x45]) 8)
      (step (fun _ _ => true) (.ioCreateDriver (some [0x44])) boot) :=
    .inr ⟨0, by decide +kernel⟩
  have hk2 : Held (.ioDeleteDriver 1) (step (fun _ _ => true) (.ioCreateDevice 1 (some [0x45]) 8)
      (step (fun _ _ => true) (.ioCreateDriver (some [0x44])) boot)) :=
    .inr ⟨0, by decide +kernel⟩
  have hr : Reachable (fun _ _ => true) Held (run (fun _ _ => true) nestedDelete boot) :=
    .step (.step h1 hk1) hk2
  obtain ⟨hfault, hcount, _, hgone, _⟩ := object_books (fun _ _ => true) hr
  have hnone : ∀ k o, k < 2 →
      (run (fun _ _ => true) nestedDelete boot).ob.lookup k ≠ some o := by
    intro k o hk
    interval_cases k <;> exact fun ho => absurd (ho.symm.trans (by decide +kernel :
      (run (fun _ _ => true) nestedDelete boot).ob.lookup _ = none)) (by simp)
  refine ⟨hfault, hcount.trans (by decide +kernel), ?_, ?_⟩
  · rcases hgone 0 0 1 1 (by decide +kernel) with ⟨o, ho, _⟩ | h
    · exact absurd ho (hnone 0 o (by decide))
    · exact h.trans (by decide +kernel)
  · rcases hgone 1 1 2 2 (by decide +kernel) with ⟨o, ho, _⟩ | h
    · exact absurd ho (hnone 1 o (by decide))
    · exact h.trans (by decide +kernel)

/-- An object without a body, of a type that has a delete procedure, is created and released: the
procedure does not run. -/
theorem object_books_null :
    let ops : List Op := [.obCreateObject 4 none true 0, .obDereferenceObject 0]
    let w := run (fun _ _ => true) ops boot
    Held (.obCreateObject 4 none true 0) boot ∧
    Held (.obDereferenceObject 0) (step (fun _ _ => true) (.obCreateObject 4 none true 0) boot) ∧
    .created 0 0 4 0 ∈ w.ob.history ∧ w.ob.lookup 0 = none ∧ deleteProcOf w.ob 4 ≠ none ∧
    w.ob.history.count (.deleted 0) = 0 := by
  refine ⟨fun h => absurd h (by decide), fun o ho _ hlisted => ?_, by decide +kernel,
    by decide +kernel, by decide +kernel, by decide +kernel⟩
  obtain ⟨a, l, hl, hmem⟩ := hlisted
  have hlook : (step (fun _ _ => true) (.obCreateObject 4 none true 0) boot).ob.lookup 0 =
      some ⟨[], 4, 1, 0, 0, 0, 0, 0⟩ := by decide +kernel
  cases ho.symm.trans hlook
  exact hl.chain.2 0 hmem rfl

/-! ## Devices and their drivers -/

def NoneOpen (w : World) (a : Nat) : Prop :=
  ∀ h o, w.ob.lookup h = some o → o.type = w.deviceObjectType → (w.devices o.body).driver = a →
    o.refCount = 1 ∧ Listed w o.body

/-- The calls on drivers and devices, where a driver is deleted only when none of its devices is
open. `ObDereferenceObject` gives back what `IoGetDevice` took. -/
def Closed (op : Op) (w : World) : Prop :=
  match op with
  | .ioCreateDriver _ => True
  | .ioCreateDevice driver _ _ => driver = 0 ∨ LiveDriver w driver
  | .ioGetDevice name => ∀ o, w.ob.lookup (obFindObject name w.deviceObjectType w.ob) = some o →
    o.refCount + 1 < 2 ^ 32
  | .obDereferenceObject handle => ∀ o, w.ob.lookup handle = some o →
    o.type = w.deviceObjectType ∧ (o.refCount = 1 → ¬ Listed w o.body)
  | .ioDeleteDevice device => device = 0 ∨ LiveDevice w device
  | .ioDeleteDriver driver => driver = 0 ∨ LiveDriver w driver ∧ NoneOpen w driver
  | .obRegisterObjectType _ _ => False
  | .obCreateObject _ _ _ _ => False
  | .obReferenceObject _ => False

/-- The driver of a device is there, and its list is what was created for it and not removed. -/
structure Tied (w : World) : Prop where
  bodies : ∀ h t b, slot w h = some (t, b) → b ≠ 0
  owner : ∀ h d, slot w h = some (w.deviceObjectType, d) → LiveDriver w (w.devices d).driver
  listed : ∀ h a l, slot w h = some (w.driverObjectType, a) → Listing w a l →
    ∀ d, d ∈ l ↔ .created d a ∈ w.history ∧ .removed d ∉ w.history
  created : ∀ d a, .created d a ∈ w.history → d < w.next ∧ a < w.next
  removed : ∀ d, .removed d ∈ w.history → d < w.next

section Tied

variable {w w' : World}

theorem tied_boot : Tied boot := by
  have hslot : ∀ k, slot boot k = none := fun k => slot_eq_none.mpr (boot_lookup k)
  have hhist : boot.history = [] := rfl
  refine ⟨fun h t b hh => ?_, fun h d hh => ?_, fun h a l hh => ?_, ?_, ?_⟩
  · simp [hslot] at hh
  · simp [hslot] at hh
  · simp [hslot] at hh
  · simp [hhist]
  · simp [hhist]

theorem Tied.congr (ht : Tied w) (hslot : ∀ k, slot w' k = slot w k)
    (hdriver : w'.driverObjectType = w.driverObjectType)
    (hdevice : w'.deviceObjectType = w.deviceObjectType) (hdrivers : w'.drivers = w.drivers)
    (hdevices : w'.devices = w.devices) (hnext : w'.next = w.next)
    (hhist : w'.history = w.history) : Tied w' := by
  have hlist : ∀ a l, Listing w' a l → Listing w a l := by
    intro a l hl
    refine ⟨?_, fun x hx => ?_⟩
    · have hc := hl.chain
      unfold nextDevice at hc ⊢
      rw [hdrivers, hdevices] at hc
      exact hc
    · obtain ⟨hd, k, hk⟩ := hl.owned x hx
      rw [hdevices] at hd
      rw [hslot, hdevice] at hk
      exact ⟨hd, k, hk⟩
  refine ⟨fun h t b hh => ?_, fun h d hh => ?_, fun h a l hh hl => ?_, ?_, ?_⟩
  · rw [hslot] at hh
    exact ht.bodies h t b hh
  · rw [hslot, hdevice] at hh
    obtain ⟨k, hk⟩ := ht.owner h d hh
    refine ⟨k, ?_⟩
    rw [hslot, hdriver, hdevices]
    exact hk
  · rw [hslot, hdriver] at hh
    rw [hhist]
    exact ht.listed h a l hh (hlist a l hl)
  · rw [hhist, hnext]
    exact ht.created
  · rw [hhist, hnext]
    exact ht.removed

theorem Tied.prepared (hw : Wired w) (ht : Tied w) (hp : Prepared w w') : Tied w' := by
  have hslot := hp.slot
  refine ⟨fun h t b hh => ?_, fun h d hh => ?_, fun h a l hh hl => ?_, fun d a hc => ?_,
    fun d hc => ?_⟩
  · rw [hslot] at hh
    exact ht.bodies h t b hh
  · rw [hslot, hp.deviceType] at hh
    obtain ⟨k, hk⟩ := ht.owner h d hh
    refine ⟨k, ?_⟩
    rw [hslot, hp.driverType, hp.devices d (hw.bodies h _ d hh).1]
    exact hk
  · rw [hslot, hp.driverType] at hh
    obtain ⟨_, _, l', hl'⟩ := hw.driver h a hh (ht.bodies h _ a hh)
    rw [hl.unique (hp.listing hw (hw.bodies h _ a hh).1 hl'), hp.history]
    exact ht.listed h a l' hh hl'
  · rw [hp.history] at hc
    obtain ⟨h1, h2⟩ := ht.created d a hc
    exact ⟨lt_of_lt_of_le h1 hp.next, lt_of_lt_of_le h2 hp.next⟩
  · rw [hp.history] at hc
    exact lt_of_lt_of_le (ht.removed d hc) hp.next

theorem Tied.newDriver {i : Nat} (hw : Wired w) (ht : Tied w)
    (hadd : Added i w.driverObjectType w.next w w') (hnew : Listing w' w.next [])
    (hdrivers : ∀ x, x < w.next → w'.drivers x = w.drivers x) (hhist : w'.history = w.history) :
    Tied w' := by
  refine ⟨fun h t b hh => ?_, fun h d hh => ?_, fun h a l hh hl => ?_, fun d a hc => ?_,
    fun d hc => ?_⟩
  · rcases hadd.slot_cases hh with ⟨_, heq⟩ | hh
    · cases heq
      exact Nat.pos_iff_ne_zero.mp hw.start
    · exact ht.bodies h t b hh
  · rw [hadd.deviceType] at hh
    rcases hadd.slot_cases hh with ⟨_, heq⟩ | hh
    · rw [Prod.mk.injEq] at heq
      exact absurd heq.1.symm hw.typesNe
    · obtain ⟨k, hk⟩ := ht.owner h d hh
      refine ⟨k, ?_⟩
      rw [hadd.driverType, hadd.devices d (hw.bodies h _ d hh).1]
      exact hadd.slot_old hk
  · rw [hadd.driverType] at hh
    rw [hhist]
    rcases hadd.slot_cases hh with ⟨_, heq⟩ | hh
    · rw [Prod.mk.injEq] at heq
      obtain ⟨_, rfl⟩ := heq
      rw [hl.unique hnew]
      intro d
      refine ⟨fun hd => absurd hd (by simp), fun hd => ?_⟩
      exact absurd (ht.created d _ hd.1).2 (lt_irrefl _)
    · have halt := (hw.bodies h _ a hh).1
      obtain ⟨_, _, l', hl'⟩ := hw.driver h a hh (ht.bodies h _ a hh)
      rw [hl.unique (hadd.listing hw (by rw [hdrivers a halt]) hl')]
      exact ht.listed h a l' hh hl'
  · rw [hhist] at hc
    obtain ⟨h1, h2⟩ := ht.created d a hc
    exact ⟨lt_of_lt_of_le h1 hadd.next, lt_of_lt_of_le h2 hadd.next⟩
  · rw [hhist] at hc
    exact lt_of_lt_of_le (ht.removed d hc) hadd.next

theorem Tied.newDevice {a i k : Nat} (hw : Wired w) (ht : Tied w)
    (hk : slot w k = some (w.driverObjectType, a)) (hnew : NewDevice a i w w') : Tied w' := by
  have hadd := hnew.added
  have hfresh := hadd.fresh (Nat.pos_iff_ne_zero.mp hw.start)
  have halt := (hw.bodies k _ a hk).1
  refine ⟨fun h t b hh => ?_, fun h d hh => ?_, fun h b l hh hl => ?_, fun d b hc => ?_,
    fun d hc => ?_⟩
  · rcases hadd.slot_cases hh with ⟨_, heq⟩ | hh
    · cases heq
      exact Nat.pos_iff_ne_zero.mp hw.start
    · exact ht.bodies h t b hh
  · rw [hadd.deviceType] at hh
    rcases hadd.slot_cases hh with ⟨_, heq⟩ | hh
    · rw [Prod.mk.injEq] at heq
      obtain ⟨_, rfl⟩ := heq
      refine ⟨k, ?_⟩
      rw [hnew.owner, hadd.driverType]
      exact hadd.slot_old hk
    · obtain ⟨j, hj⟩ := ht.owner h d hh
      refine ⟨j, ?_⟩
      rw [hadd.driverType, hadd.devices d (hw.bodies h _ d hh).1]
      exact hadd.slot_old hj
  · rw [hadd.driverType] at hh
    rw [hnew.history]
    have hh : slot w h = some (w.driverObjectType, b) := by
      rcases hadd.slot_cases hh with ⟨_, heq⟩ | hh
      · rw [Prod.mk.injEq] at heq
        exact absurd heq.1 hw.typesNe
      · exact hh
    have hblt := (hw.bodies h _ b hh).1
    obtain ⟨_, _, l', hl'⟩ := hw.driver h b hh (ht.bodies h _ b hh)
    have hold := ht.listed h b l' hh hl'
    have hnot : .removed w.next ∉ w.history := fun hr => absurd (ht.removed _ hr) (lt_irrefl _)
    by_cases hba : b = a
    · subst hba
      rw [hl.unique (hnew.listing l' hl')]
      intro d
      by_cases hd : d = w.next
      · subst hd
        simp [hnot]
      · simp [hold d, hd]
    · rw [hl.unique (hnew.lists b l' hblt hba hl')]
      intro d
      simp [hold d, hba]
  · rw [hnew.history] at hc
    rcases mem_cons.mp hc with heq | hc
    · cases heq
      exact ⟨hfresh.2.1, lt_of_lt_of_le halt hadd.next⟩
    · obtain ⟨h1, h2⟩ := ht.created d b hc
      exact ⟨lt_of_lt_of_le h1 hadd.next, lt_of_lt_of_le h2 hadd.next⟩
  · rw [hnew.history] at hc
    rcases mem_cons.mp hc with heq | hc
    · cases heq
    · exact lt_of_lt_of_le (ht.removed d hc) hadd.next

theorem Removal.slot_of {a : Nat} {l : List Nat} (hrem : Removal a l w w') {k : Nat} {x : Nat × Nat}
    (hk : Io.slot w' k = some x) : Io.slot w k = some x := by
  rcases hrem.slot k with hs | hs
  · exact hs.symm.trans hk
  · rw [hs] at hk
    cases hk

theorem Removal.driver {a b : Nat} {l : List Nat} (hw : Wired w) (hrem : Removal a l w w') {k : Nat}
    (hk : Io.slot w k = some (w.driverObjectType, b)) :
    Io.slot w' k = some (w'.driverObjectType, b) := by
  rw [hrem.driverType, slot_congr (hrem.lookup k fun x _ hx => ?_)]
  · exact hk
  · rw [hk, some.injEq, Prod.mk.injEq] at hx
    exact hw.typesNe hx.1

theorem Tied.removal {a k : Nat} {l gone left : List Nat} (hw : Wired w) (ht : Tied w)
    (hrem : Removal a gone w w') (hl : Listing w a l) (hleft : Listing w' a left)
    (hsplit : ∀ d, d ∈ left ↔ d ∈ l ∧ d ∉ gone)
    (howned : ∀ d ∈ gone, (w.devices d).driver = a ∧ LiveDevice w d)
    (hk : slot w k = some (w.driverObjectType, a)) : Tied w' := by
  refine ⟨fun h t b hh => ht.bodies h t b (hrem.slot_of hh), fun h d hh => ?_,
    fun h b l1 hh hl1 => ?_, fun d b hc => ?_, fun d hc => ?_⟩
  · rw [hrem.deviceType] at hh
    have hd0 := ht.bodies h _ d (hrem.slot_of hh)
    obtain ⟨j, hj⟩ := ht.owner h d (hrem.slot_of hh)
    rw [hrem.devices h d hh hd0]
    exact ⟨j, hrem.driver hw hj⟩
  · rw [hrem.driverType] at hh
    have hh := hrem.slot_of hh
    have hold := ht.listed h b
    intro d
    rw [hrem.history, hrem.history]
    by_cases hba : b = a
    · subst hba
      rw [hl1.unique hleft, hsplit, ht.listed h b l hh hl]
      simp [and_assoc]
    · obtain ⟨_, _, l', hl'⟩ := hw.driver h b hh (ht.bodies h _ b hh)
      rw [hl1.unique (hrem.lists b l' hba hl'), ht.listed h b l' hh hl']
      -- what was removed belongs to `a`
      have hother : .created d b ∈ w.history → .removed d ∉ w.history → d ∉ gone := by
        intro hc hr hd
        have hmem := (ht.listed h b l' hh hl' d).mpr ⟨hc, hr⟩
        exact hba ((hl'.owned d hmem).1.symm.trans (howned d hd).1)
      simp only [reduceCtorEq, and_false, exists_false, or_false, DeviceEvent.removed.injEq, not_or]
      constructor
      · rintro ⟨hc, hr⟩
        refine ⟨hc, hr, ?_⟩
        rintro ⟨x, hx, rfl⟩
        exact hother hc hr hx
      · rintro ⟨hc, hr, _⟩
        exact ⟨hc, hr⟩
  · rw [hrem.history] at hc
    rw [hrem.next]
    rcases hc with hc | ⟨_, _, heq⟩
    · exact ht.created d b hc
    · cases heq
  · rw [hrem.history] at hc
    rw [hrem.next]
    rcases hc with hc | ⟨x, hx, heq⟩
    · exact ht.removed d hc
    · cases heq
      obtain ⟨j, hj⟩ := (howned d hx).2
      exact (hw.bodies j _ d hj).1

theorem Tied.dropped {h : Nat} (hw : Wired w) (ht : Tied w) (hd : Dropped h w w')
    (hhist : w'.history = w.history)
    (hlists : ∀ a l, Listing w a l → ∀ x t, slot w h = some (t, x) → x ∉ l)
    (howner : ∀ k d, k ≠ h → slot w k = some (w.deviceObjectType, d) →
      slot w h ≠ some (w.driverObjectType, (w.devices d).driver)) : Tied w' := by
  refine ⟨fun k t b hk => ht.bodies k t b (hd.slot_of hk).2, fun k d hk => ?_,
    fun k a l hk hl => ?_, ?_, ?_⟩
  · obtain ⟨hkh, hk⟩ := hd.slot_of hk
    rw [hd.deviceType] at hk
    obtain ⟨j, hj⟩ := ht.owner k d hk
    have hjh : j ≠ h := by
      rintro rfl
      exact howner k d hkh hk hj
    refine ⟨j, ?_⟩
    rw [hd.slot, if_neg hjh, hd.driverType, hd.devices k d hkh hk (ht.bodies k _ d hk)]
    exact hj
  · obtain ⟨_, hk⟩ := hd.slot_of hk
    rw [hd.driverType] at hk
    obtain ⟨_, _, l', hl'⟩ := hw.driver k a hk (ht.bodies k _ a hk)
    rw [hl.unique (hd.listing hl' (hlists a l' hl')), hhist]
    exact ht.listed k a l' hk hl'
  · rw [hhist, hd.next]
    exact ht.created
  · rw [hhist, hd.next]
    exact ht.removed

theorem Tied.dereference {h : Nat} (hinv : Quiet w) (ht : Tied w)
    (hheld : ∀ o, w.ob.lookup h = some o →
      o.type = w.deviceObjectType ∧ (o.refCount = 1 → ¬ Listed w o.body)) :
    Tied (Io.dereference h w) := by
  rw [dereference_eq]
  generalize dereferenceAt (maxObjects - 1) = inner
  cases ho : w.ob.lookup h with
  | none =>
    rw [obDereferenceObject_host, ho]
    exact ht
  | some o =>
    obtain ⟨htype, hfree⟩ := hheld o ho
    have hpos : o.refCount ≠ 0 := fun h0 => (hinv.books.alive h o ho).mp h0
    by_cases hmore : 2 ≤ o.refCount
    · obtain ⟨heq, _, hslot⟩ :=
        hinv.release_more (obDereferenceObject (host inner)) ho not_false hmore
      rw [heq]
      exact ht.congr hslot rfl rfl rfl rfl rfl rfl
    · have hlast : o.refCount = 1 := by omega
      have hunlisted : ∀ a l, Listing w a l → o.body ∉ l :=
        fun a l hl hmem => hfree hlast ⟨a, l, hl, hmem⟩
      obtain ⟨_, hdrop, hhist, _⟩ := hinv.release_plain (obDereferenceObject (host inner)) ho
        not_false hlast (fun hd => absurd (hd.symm.trans htype) hinv.wired.typesNe) hunlisted
      refine ht.dropped hinv.wired hdrop hhist (fun a l hl x t hx => ?_) fun k d _ _ hx => ?_
      · rw [slot_of_lookup ho, some.injEq, Prod.mk.injEq] at hx
        rw [← hx.2]
        exact hunlisted a l hl
      · rw [slot_of_lookup ho, some.injEq, Prod.mk.injEq] at hx
        exact hinv.wired.typesNe (hx.1.symm.trans htype)

theorem Tied.deleteDriver {h a : Nat} (hinv : Quiet w) (ht : Tied w)
    (hh : slot w h = some (w.driverObjectType, a)) (hclosed : NoneOpen w a) :
    Tied (Io.dereference h w) := by
  rw [dereference_eq]
  generalize dereferenceAt (maxObjects - 1) = inner
  obtain ⟨o, ho, htype, hbody⟩ := lookup_of_slot hh
  have ha := ht.bodies h _ a hh
  have hpos : o.refCount ≠ 0 := fun h0 => (hinv.books.alive h o ho).mp h0
  by_cases hmore : 2 ≤ o.refCount
  · obtain ⟨heq, _, hslot⟩ :=
      hinv.release_more (obDereferenceObject (host inner)) ho not_false hmore
    rw [heq]
    exact ht.congr hslot rfl rfl rfl rfl rfl rfl
  have hlast : o.refCount = 1 := by omega
  obtain ⟨_, _, l, hl⟩ := hinv.wired.driver h a hh ha
  obtain ⟨_, u, hwu, hempty, hrem, hdrop, hhist, _⟩ :=
    hinv.release_driver inner ho not_false hlast htype hbody ha hl
  generalize obDereferenceObject (host (obDereferenceObject (host inner))) h w = w' at hdrop hhist ⊢
  have hslot := slot_releasedLast ho
  have hwv := (hinv.releasedLast ho not_false hlast).2
  have htv : Tied (releasedLast w h o) := ht.congr hslot rfl rfl rfl rfl rfl rfl
  have hhv : slot (releasedLast w h o) h = some ((releasedLast w h o).driverObjectType, a) :=
    (hslot h).trans hh
  have htu : Tied u := by
    refine htv.removal hwv hrem ((listing_releasedLast ho).mpr hl) hempty (by simp)
      (fun d hd => ?_) hhv
    obtain ⟨howner, k, hk⟩ := hl.owned d hd
    exact ⟨howner, k, (hslot k).trans hk⟩
  have hhu := hrem.driver hwv hhv
  refine htu.dropped hwu hdrop hhist (fun b l' hl' x t hx => ?_) fun k d hkh hk hx => ?_
  · rw [hhu] at hx
    cases hx
    exact hwu.not_listed hhu hwu.typesNe hl'
  · -- a device of `a` was on its list with one reference, so it is gone by now
    rw [hhu, some.injEq, Prod.mk.injEq] at hx
    rw [hrem.deviceType] at hk
    have hkv := hrem.slot_of hk
    have hdriver : (w.devices d).driver = a :=
      (hrem.devices k d hk (htv.bodies k _ d hkv)).symm.trans hx.2.symm
    obtain ⟨p, hp, hptype, hpbody⟩ := lookup_of_slot hkv
    have hpw : w.ob.lookup k = some p := by
      rw [lookup_releasedLast ho, if_neg hkh] at hp
      exact hp
    obtain ⟨hone, b, l', hl', hmem⟩ := hclosed k p hpw hptype (by rw [hpbody]; exact hdriver)
    rw [hpbody] at hmem
    have hba : b = a := (hl'.owned d hmem).1.symm.trans hdriver
    subst hba
    rw [hl'.unique hl] at hmem
    have hnone := hrem.gone k p hp hptype (by rw [hpbody]; exact hmem) hone
    rw [slot_eq_none.mpr hnone] at hk
    cases hk

theorem Closed.held {op : Op} (ht : Tied w) (hok : Closed op w) : Held op w := by
  cases op with
  | ioDeleteDevice device =>
    rcases hok with rfl | ⟨h, hh⟩
    · exact .inl rfl
    · exact .inr ⟨⟨h, hh⟩, ht.owner h device hh⟩
  | ioDeleteDriver driver =>
    rcases hok with rfl | hok
    · exact .inl rfl
    · exact .inr hok.1
  | obDereferenceObject handle => exact fun o ho => (hok o ho).2
  | ioCreateDriver name => trivial
  | ioCreateDevice driver name size => exact hok
  | ioGetDevice name => exact hok
  | obRegisterObjectType name proc => trivial
  | obCreateObject type name null size => exact hok.elim
  | obReferenceObject handle => exact hok.elim

theorem Tied.step (alloc : Allocator) {op : Op} (hinv : Quiet w) (ht : Tied w)
    (hok : Closed op w) : Tied (Io.step alloc op w) := by
  cases op with
  | ioCreateDriver name =>
    obtain ⟨_, hhist, hp | ⟨i, hadd, hnew, _, _, hdrivers⟩⟩ := ioCreateDriver_spec alloc name hinv
    · exact ht.prepared hinv.wired hp
    · exact ht.newDriver hinv.wired hadd hnew hdrivers hhist
  | ioCreateDevice driver name size =>
    rcases hok with rfl | ⟨k, hk⟩
    · exact ht
    · obtain ⟨_, hp | ⟨i, hnew⟩⟩ := ioCreateDevice_spec alloc name size hinv hk
      · exact ht.prepared hinv.wired hp
      · exact ht.newDevice hinv.wired hk hnew
  | ioGetDevice name =>
    change Tied (Io.ioGetDevice name w).2
    rcases ioGetDevice_table name w with heq | heq
    · rw [heq]
      exact ht
    · rw [heq]
      exact ht.congr (reference_spec hinv hok).2 rfl rfl rfl rfl rfl rfl
  | obDereferenceObject handle => exact ht.dereference hinv hok
  | ioDeleteDevice device =>
    rcases hok with rfl | ⟨h, hh⟩
    · exact ht
    · have hd := ht.bodies h _ device hh
      obtain ⟨k, hk⟩ := ht.owner h device hh
      obtain ⟨_, _, l, hl⟩ := hinv.wired.driver k _ hk (ht.bodies k _ _ hk)
      change Tied (Io.ioDeleteDevice Io.dereference device w)
      rw [dereference_eq]
      obtain ⟨_, hrem, hleft⟩ := ioDeleteDevice_spec
        (obDereferenceObject (host (dereferenceAt (maxObjects - 1)))) hinv hh hd rfl hk hl
      refine ht.removal hinv.wired hrem hl hleft (fun x => ?_) (fun x hx => ?_) hk
      · rw [hl.chain.nodup.mem_erase_iff, mem_singleton, and_comm]
      · rw [mem_singleton] at hx
        subst hx
        exact ⟨rfl, h, hh⟩
  | ioDeleteDriver driver =>
    rcases hok with rfl | ⟨⟨h, hh⟩, hclosed⟩
    · exact ht
    · change Tied (Io.ioDeleteDriver driver w)
      rw [ioDeleteDriver_eq hinv hh (ht.bodies h _ driver hh)]
      refine Tied.deleteDriver (hinv.forget _) (ht.congr (fun _ => rfl) rfl rfl rfl rfl rfl rfl) hh
        fun k o hk htype howner => ?_
      obtain ⟨hone, a, l, hl, hmem⟩ := hclosed k o hk htype howner
      exact ⟨hone, a, l, ⟨hl.chain, hl.owned⟩, hmem⟩
  | obRegisterObjectType name proc => exact hok.elim
  | obCreateObject type name null size => exact hok.elim
  | obReferenceObject handle => exact hok.elim

theorem Reachable.tied {alloc : Allocator} (hr : Reachable alloc Closed w) : Quiet w ∧ Tied w := by
  induction hr with
  | boot => exact ⟨quiet_boot, tied_boot⟩
  | @step v op _ hok ih =>
    exact ⟨(ih.1.step alloc op (hok.held ih.2)).1, ih.2.step alloc ih.1 hok⟩

end Tied

theorem ioCallDriver_fault {w : World} (dispatch : Nat → Nat → Request → Int × Request)
    {device : Nat} (hd : w.live device = true) (ha : w.live (w.devices device).driver = true)
    (request : Option Request) :
    (ioCallDriver dispatch device request w).2.2 = w := by
  unfold ioCallDriver
  split
  · rfl
  · rw [touch_of_live hd]
    cases request with
    | none => rfl
    | some r =>
      dsimp only
      split
      · rfl
      · rw [touch_of_live ha]
        split
        · rfl
        · split <;> rfl

/-- As long as a driver is deleted only when none of its devices is open, a live device's driver is
live, the lists are exact, and `IoCallDriver` on a live device reads nothing that is freed. -/
theorem device_driver_live (alloc : Allocator) {w : World} (hr : Reachable alloc Closed w) :
    (∀ h d, slot w h = some (w.deviceObjectType, d) → LiveDriver w (w.devices d).driver) ∧
    (∀ h a, slot w h = some (w.driverObjectType, a) → ∃ l, Listing w a l ∧ l.Nodup ∧
      ∀ d, d ∈ l ↔ .created d a ∈ w.history ∧ .removed d ∉ w.history) ∧
    ∀ dispatch h d request, slot w h = some (w.deviceObjectType, d) →
      (ioCallDriver dispatch d request w).2.2.fault = false := by
  obtain ⟨hinv, ht⟩ := hr.tied
  refine ⟨ht.owner, fun h a hh => ?_, fun dispatch h d request hh => ?_⟩
  · obtain ⟨_, _, l, hl⟩ := hinv.wired.driver h a hh (ht.bodies h _ a hh)
    exact ⟨l, hl, hl.chain.nodup, ht.listed h a l hh hl⟩
  · obtain ⟨k, hk⟩ := ht.owner h d hh
    rw [ioCallDriver_fault dispatch ((hinv.wired.bodies h _ d hh).2 (ht.bodies h _ d hh))
      ((hinv.wired.bodies k _ _ hk).2 (ht.bodies k _ _ hk))]
    exact hinv.sane

def oneDevice : List Op := [.ioCreateDriver (some [0x44]), .ioCreateDevice 1 (some [0x45]) 0]

theorem device_driver_live_one :
    LiveDriver (run (fun _ _ => true) oneDevice boot) 1 ∧
    (ioCallDriver (fun _ _ r => (0, r)) 2 (some ⟨0, 0, 0⟩)
      (run (fun _ _ => true) oneDevice boot)).2.2.fault = false := by
  have h1 : Reachable (fun _ _ => true) Closed
      (step (fun _ _ => true) (.ioCreateDriver (some [0x44])) boot) := .step .boot trivial
  have hok : Closed (.ioCreateDevice 1 (some [0x45]) 0)
      (step (fun _ _ => true) (.ioCreateDriver (some [0x44])) boot) :=
    .inr ⟨0, by decide +kernel⟩
  have hr : Reachable (fun _ _ => true) Closed (run (fun _ _ => true) oneDevice boot) :=
    .step h1 hok
  obtain ⟨howner, _, hcall⟩ := device_driver_live (fun _ _ => true) hr
  have hslot : slot (run (fun _ _ => true) oneDevice boot) 1 =
      some ((run (fun _ _ => true) oneDevice boot).deviceObjectType, 2) := by decide +kernel
  have hdriver : ((run (fun _ _ => true) oneDevice boot).devices 2).driver = 1 := by
    decide +kernel
  exact ⟨hdriver ▸ howner 1 2 hslot, hcall _ 1 2 _ hslot⟩

/-- The device is opened, and the driver deleted: the device lives on with the address of a freed
driver, which `IoCallDriver` reads. -/
theorem device_driver_live_open :
    let w := run (fun _ _ => true) (oneDevice ++ [.ioGetDevice (some [0x45]), .ioDeleteDriver 1]) boot
    slot w 1 = some (w.deviceObjectType, 2) ∧ (w.devices 2).driver = 1 ∧ w.live 1 = false ∧
    w.fault = false ∧
    (ioCallDriver (fun _ _ r => (0, r)) 2 (some ⟨0, 0, 0⟩) w).2.2.fault = true := by
  refine ⟨by decide +kernel, by decide +kernel, by decide +kernel, by decide +kernel,
    by decide +kernel⟩

end DiscouNT.Io
