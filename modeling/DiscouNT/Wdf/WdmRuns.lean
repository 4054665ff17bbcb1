import DiscouNT.Wdf.WdmDevices

/-!
# Wdf.WdmRuns

Histories of creations and deletions of framework devices. The lists are exact as long as every
creation that gets its object also gets its device (`wdf_lists_iff`); the way back from a creation
that fails later reads through the null pointer it has just stored.
-/

namespace DiscouNT.Wdf
namespace Wdm

open Lib List Function Option

/-- The lists contain the devices of the table `S`, whose `DEVICE_OBJECT`s are different. -/
structure Inv (S : Nat → Option Device) (w : World) : Prop where
  start : w.next ≠ 0
  null : w.nextDevice 0 = none
  devices : ∃ l, Lib.Linked w.nextGlobal w.wdfDevices l ∧ ∀ d, d ∈ l ↔ (S d).isSome
  wdm : ∀ m, m ≠ 0 → ∃ l, Lib.Linked w.nextDevice (w.deviceObject m) l ∧
    ∀ x, x ∈ l ↔ ∃ d device, S d = some device ∧ w.wdmDriver device.driver = m ∧
      device.wdmDevice = x
  bound : ∀ d device, S d = some device →
    d < w.next ∧ device.wdmDevice ≠ 0 ∧ device.wdmDevice < w.next
  apart : ∀ d d' device device', S d = some device → S d' = some device' →
    device.wdmDevice = device'.wdmDevice → d = d'

/-- From `w` to `w'` no link was changed but those of new blocks. -/
structure Frame (w w' : World) : Prop where
  next : w.next ≤ w'.next
  wdfDevices : w'.wdfDevices = w.wdfDevices
  deviceObject : w'.deviceObject = w.deviceObject
  drivers : w'.drivers = w.drivers
  nextGlobal : ∀ a, a < w.next → w'.nextGlobal a = w.nextGlobal a
  nextDevice : ∀ a, a < w.next → w'.nextDevice a = w.nextDevice a

section Invariant

variable {S : Nat → Option Device} {w w' w'' : World} {d m : Nat} {l : List Nat}

theorem Inv.exact (h : Inv w.devices w) : Exact w := ⟨h.devices, h.wdm⟩

theorem Inv.fresh (h : Inv S w) {a : Nat} (ha : w.next ≤ a) : S a = none := by
  rcases hS : S a with _ | device
  · rfl
  · have := (h.bound a device hS).1
    omega

theorem Inv.global_lt (h : Inv S w) (hl : ∀ d, d ∈ l ↔ (S d).isSome) : ∀ d ∈ l, d < w.next := by
  intro d hd
  obtain ⟨device, hS⟩ := isSome_iff_exists.mp ((hl d).mp hd)
  exact (h.bound d device hS).1

theorem Inv.wdm_lt (h : Inv S w) (hl : ∀ x, x ∈ l ↔ ∃ d device, S d = some device ∧
    w.wdmDriver device.driver = m ∧ device.wdmDevice = x) : ∀ x ∈ l, x < w.next := by
  intro x hx
  obtain ⟨d, device, hS, -, rfl⟩ := (hl x).mp hx
  exact (h.bound d device hS).2.2

theorem length_lt {n : Nat} (hl : ∀ x ∈ l, x < n) (hnd : l.Nodup) : l.length < n + 1 := by
  have hsub : l ⊆ List.range n := fun x hx => mem_range.mpr (hl x hx)
  have hle := (hnd.subperm hsub).length_le
  rw [length_range] at hle
  omega

theorem Frame.wdmDriver (h : Frame w w') (driver : Nat) : w'.wdmDriver driver = w.wdmDriver driver := by
  rw [World.wdmDriver, World.wdmDriver, h.drivers]

theorem Frame.inv (h : Frame w w') (hinv : Inv S w) : Inv S w' := by
  refine ⟨?_, ?_, ?_, fun m hm => ?_, fun d device hS => ?_, hinv.apart⟩
  · exact Nat.pos_iff_ne_zero.mp ((Nat.pos_of_ne_zero hinv.start).trans_le h.next)
  · rw [h.nextDevice 0 (Nat.pos_of_ne_zero hinv.start)]
    exact hinv.null
  · obtain ⟨l, hlinked, hmem⟩ := hinv.devices
    rw [h.wdfDevices]
    exact ⟨l, hlinked.congr fun a ha => h.nextGlobal a (hinv.global_lt hmem a ha), hmem⟩
  · obtain ⟨l, hlinked, hmem⟩ := hinv.wdm m hm
    refine ⟨l, ?_, fun x => ?_⟩
    · rw [h.deviceObject]
      exact hlinked.congr fun a ha => h.nextDevice a (hinv.wdm_lt hmem a ha)
    · rw [hmem]
      simp only [h.wdmDriver]
  · obtain ⟨hd, hne, hlt⟩ := hinv.bound d device hS
    exact ⟨hd.trans_le h.next, hne, hlt.trans_le h.next⟩

theorem Frame.sameLists (h : Frame w w') (hinv : Inv S w) : SameLists w w' := by
  refine ⟨h.wdfDevices, h.deviceObject, fun l hl => ?_, fun m l hm hl => ?_⟩
  · obtain ⟨l', hlinked, hmem⟩ := hinv.devices
    obtain rfl := hl.unique hlinked
    rw [h.wdfDevices]
    exact hl.congr fun a ha => h.nextGlobal a (hinv.global_lt hmem a ha)
  · obtain ⟨l', hlinked, hmem⟩ := hinv.wdm m hm
    obtain rfl := hl.unique hlinked
    rw [h.deviceObject]
    exact hl.congr fun a ha => h.nextDevice a (hinv.wdm_lt hmem a ha)

end Invariant

section Destruction

variable {S : Nat → Option Device} {w w' : World} {d driver : Nat} {device : Device}

theorem leaveGlobal_pending (hinv : Inv S w) (hd : d ≠ 0) (hS : S d = none) :
    leaveGlobal d w = some w := by
  obtain ⟨l, hlinked, hmem⟩ := hinv.devices
  have hnot : d ∉ l := by
    rw [hmem, hS]
    exact Bool.false_ne_true
  rw [leaveGlobal, hlinked.unlink_of_not_mem hd hnot (length_lt (hinv.global_lt hmem) hlinked.nodup)]
  rfl

theorem leaveDriver_none (hdriver : w.wdmDriver device.driver = 0) :
    leaveDriver device w = some w := by
  rw [leaveDriver]
  exact if_pos hdriver

theorem wdfDestroyDevice_pending (hinv : Inv S w) (hd : d ≠ 0) (hS : S d = none)
    (hdriver : w.wdmDriver driver = 0) :
    wdfDestroyDevice d ⟨0, driver, 0⟩ w = some (freeDevice d ⟨0, driver, 0⟩ w) := by
  rw [wdfDestroyDevice, leaveGlobal_pending hinv hd hS, bind_some, deleteIoDevice, if_pos rfl,
    leaveDriver_none hdriver]
  rfl

theorem leaveDriver_null (hnull : w.nextDevice 0 = none) (hdriver : w.wdmDriver driver ≠ 0) :
    leaveDriver ⟨0, driver, 0⟩ w = none := by
  rw [leaveDriver]
  dsimp only
  rw [if_neg hdriver, unlink_null hnull]
  rfl

theorem wdfDestroyDevice_null (hnull : w.nextDevice 0 = none) (hdriver : w.wdmDriver driver ≠ 0) :
    wdfDestroyDevice d ⟨0, driver, 0⟩ w = none := by
  rw [wdfDestroyDevice, bind_eq_none_iff]
  intro w' hw'
  rw [leaveGlobal, map_eq_some_iff] at hw'
  obtain ⟨⟨head, nextGlobal⟩, -, rfl⟩ := hw'
  have hleave : leaveDriver ⟨0, driver, 0⟩ { w with wdfDevices := head, nextGlobal } = none :=
    leaveDriver_null hnull hdriver
  rw [deleteIoDevice, if_pos rfl]
  exact congrArg (Option.map _) hleave

theorem leaveDriver_listed (hinv : Inv w.devices w) (hd : w.devices d = some device)
    (hnext : w'.next = w.next) (hdrivers : w'.drivers = w.drivers)
    (hnextDevice : w'.nextDevice = w.nextDevice) (hobject : w'.deviceObject = w.deviceObject) :
    ∃ deviceObject nextDevice, leaveDriver device w' = some { w' with deviceObject, nextDevice } ∧
      nextDevice 0 = none ∧ ∀ m, m ≠ 0 → ∃ l, Lib.Linked nextDevice (deviceObject m) l ∧
        ∀ x, x ∈ l ↔ (∃ e other, w.devices e = some other ∧ w.wdmDriver other.driver = m ∧
          other.wdmDevice = x) ∧ x ≠ device.wdmDevice := by
  have hwdm : ∀ driver, w'.wdmDriver driver = w.wdmDriver driver := by
    intro driver
    rw [World.wdmDriver, World.wdmDriver, hdrivers]
  -- on the list of another driver there is another `DEVICE_OBJECT`
  have hother : ∀ m e other, m ≠ w.wdmDriver device.driver → w.devices e = some other →
      w.wdmDriver other.driver = m → other.wdmDevice ≠ device.wdmDevice := by
    rintro m e other hm hS rfl heq
    obtain rfl := hinv.apart e d other device hS hd heq
    rw [hd] at hS
    cases hS
    exact hm rfl
  by_cases hm : w.wdmDriver device.driver = 0
  · refine ⟨w.deviceObject, w.nextDevice, ?_, hinv.null, fun m hm' => ?_⟩
    · rw [leaveDriver_none ((hwdm _).trans hm), ← hobject, ← hnextDevice]
    · obtain ⟨l, hlinked, hmem⟩ := hinv.wdm m hm'
      refine ⟨l, hlinked, fun x => ?_⟩
      rw [hmem]
      refine ⟨fun h => ⟨h, ?_⟩, fun h => h.1⟩
      obtain ⟨e, other, hS, hdriver, rfl⟩ := h
      exact hother m e other (by rw [hm]; exact hm') hS hdriver
  · obtain ⟨l, hlinked, hmem⟩ := hinv.wdm _ hm
    have hl : device.wdmDevice ∈ l := (hmem _).mpr ⟨d, device, hd, rfl, rfl⟩
    obtain ⟨head, nextDevice, hunlink, hlinked', hsome, hsame⟩ := hlinked.unlink hl
      (length_lt (hinv.wdm_lt hmem) hlinked.nodup)
    refine ⟨update w.deviceObject (w.wdmDriver device.driver) head, nextDevice, ?_, ?_,
      fun m hm' => ?_⟩
    · rw [leaveDriver]
      dsimp only
      rw [hwdm, if_neg hm, hnextDevice, hobject, hnext, hunlink]
      rfl
    · rw [← not_isSome_iff_eq_none, hsome, hinv.null]
      exact Bool.false_ne_true
    · by_cases hmm : m = w.wdmDriver device.driver
      · subst hmm
        refine ⟨l.erase device.wdmDevice, ?_, fun x => ?_⟩
        · rw [update_self]
          exact hlinked'
        · rw [hlinked.nodup.mem_erase_iff, hmem, and_comm]
      · obtain ⟨l', hlinked'', hmem'⟩ := hinv.wdm m hm'
        have hapart : ∀ x, x ∈ l' → x ≠ device.wdmDevice ∧ x ∉ l := by
          intro x hx
          obtain ⟨e, other, hS, hdriver, rfl⟩ := (hmem' x).mp hx
          refine ⟨hother m e other hmm hS hdriver, fun hxl => hmm ?_⟩
          obtain ⟨e', other', hS', hdriver', heq⟩ := (hmem _).mp hxl
          obtain rfl := hinv.apart e' e other' other hS' hS heq
          rw [hS] at hS'
          cases hS'
          rw [← hdriver, hdriver']
        refine ⟨l', ?_, fun x => ?_⟩
        · rw [update_of_ne hmm]
          exact hlinked''.congr fun a ha => hsame a (hapart a ha).2
        · rw [← hmem']
          exact ⟨fun h => ⟨h, (hapart x h).1⟩, fun h => h.1⟩

theorem wdfDestroyDevice_listed (hinv : Inv w.devices w) (hd : w.devices d = some device) :
    ∃ w', wdfDestroyDevice d device w = some w' ∧ Inv w'.devices w' := by
  obtain ⟨l, hlinked, hmem⟩ := hinv.devices
  have hdl : d ∈ l := by
    rw [hmem, hd]
    rfl
  obtain ⟨head, nextGlobal, hunlink, hlinked', -, -⟩ := hlinked.unlink hdl
    (length_lt (hinv.global_lt hmem) hlinked.nodup)
  have hglobal : leaveGlobal d w = some { w with wdfDevices := head, nextGlobal } := by
    rw [leaveGlobal, hunlink]
    rfl
  have hio : ∃ io, deleteIoDevice device { w with wdfDevices := head, nextGlobal } =
      { w with wdfDevices := head, nextGlobal, io } := by
    rw [deleteIoDevice]
    split
    · exact ⟨_, rfl⟩
    · exact ⟨_, rfl⟩
  obtain ⟨io, hio⟩ := hio
  obtain ⟨deviceObject, nextDevice, hleave, hnull, hwdm⟩ := @leaveDriver_listed w
    { w with wdfDevices := head, nextGlobal, io } d device hinv hd rfl rfl rfl rfl
  obtain ⟨-, hne, -⟩ := hinv.bound d device hd
  refine ⟨_, by rw [wdfDestroyDevice, hglobal, bind_some, hio, hleave, map_some], ?_⟩
  have hkept : ∀ e other, update w.devices d none e = some other →
      e ≠ d ∧ w.devices e = some other := by
    intro e other he
    by_cases hed : e = d
    · rw [hed, update_self] at he
      cases he
    · rw [update_of_ne hed] at he
      exact ⟨hed, he⟩
  refine ⟨hinv.start, ?_, ⟨l.erase d, ?_, fun e => ?_⟩, fun m hm => ?_, fun e other he => ?_,
    fun e e' other other' he he' => ?_⟩
  · simp only [freeDevice, World.setDevice]
    rw [if_neg hne, update_of_ne hne.symm]
    exact hnull
  · refine hlinked'.congr fun a ha => ?_
    simp only [freeDevice, World.setDevice]
    rw [update_of_ne (hlinked.nodup.mem_erase_iff.mp ha).1]
  · simp only [freeDevice, World.setDevice]
    rw [hlinked.nodup.mem_erase_iff, hmem]
    by_cases hed : e = d
    · simp [hed]
    · simp [hed]
  · obtain ⟨l', hl', hmem'⟩ := hwdm m hm
    refine ⟨l', hl'.congr fun a ha => ?_, fun x => ?_⟩
    · simp only [freeDevice, World.setDevice]
      rw [if_neg hne, update_of_ne ((hmem' a).mp ha).2]
    · simp only [freeDevice, World.setDevice]
      rw [hmem']
      constructor
      · rintro ⟨⟨e, other, hS, hdriver, rfl⟩, hx⟩
        refine ⟨e, other, ?_, hdriver, rfl⟩
        rw [update_of_ne ?_]
        · exact hS
        · rintro rfl
          rw [hd] at hS
          cases hS
          exact hx rfl
      · rintro ⟨e, other, hS, hdriver, rfl⟩
        obtain ⟨hed, hS⟩ := hkept e other hS
        exact ⟨⟨e, other, hS, hdriver, rfl⟩, fun heq => hed (hinv.apart e d other device hS hd heq)⟩
  · exact hinv.bound e other (hkept e other he).2
  · exact hinv.apart e e' other other' (hkept e other he).2 (hkept e' other' he').2

end Destruction

/-! ## Creation -/

section Creation

variable {alloc : Io.Allocator} {w w' : World} {d driver contextSize : Nat}

theorem kmalloc_cases (alloc : Io.Allocator) (size : Nat) (w : World) :
    (alloc w.io.ticks size = true ∧ w.kmalloc alloc size =
      (some w.next, { w with io := { w.io with ticks := w.io.ticks + 1 }, next := w.next + 1 })) ∨
    (alloc w.io.ticks size = false ∧
      w.kmalloc alloc size = (none, { w with io := { w.io with ticks := w.io.ticks + 1 } })) := by
  rw [World.kmalloc]
  rcases h : alloc w.io.ticks size with _ | _
  · exact .inr ⟨rfl, rfl⟩
  · exact .inl ⟨rfl, rfl⟩

structure Made (alloc : Io.Allocator) (driver contextSize : Nat) (w w' : World) : Prop where
  frame : Frame w w'
  next : w.next < w'.next
  devices : w'.devices = update w.devices w.next (some ⟨0, driver, 0⟩)
  io : w'.io = { w.io with ticks := ticksAfter contextSize w }
  number : w'.wdfDeviceNumber = w.wdfDeviceNumber

theorem frame_makeDevice (driver : Nat) (io : Io.World) (n : Nat) (hn : w.next ≤ n) :
    Frame w (makeDevice w.next driver { w with io, next := n }) := by
  refine ⟨hn, rfl, rfl, rfl, fun a ha => ?_, fun _ _ => rfl⟩
  exact update_of_ne (Nat.ne_of_lt ha) _ _

theorem wdfNewDevice_cases (hinv : Inv w.devices w) :
    (HasObject alloc contextSize w ∧ ∃ w', wdfNewDevice alloc driver contextSize w = (some w.next, w') ∧
      Made alloc driver contextSize w w') ∨
    (¬ HasObject alloc contextSize w ∧ ∃ w', wdfNewDevice alloc driver contextSize w = (none, w') ∧
      Frame w w' ∧ w'.devices = w.devices) := by
  rw [wdfNewDevice]
  rcases kmalloc_cases alloc sizeofWdfDevice w with ⟨hobject, hk⟩ | ⟨hobject, hk⟩
  · rw [hk]
    dsimp only
    have hframe := @frame_makeDevice w driver { w.io with ticks := w.io.ticks + 1 } (w.next + 1)
      (Nat.le_succ _)
    by_cases hcontext : contextSize = 0
    · rw [if_pos hcontext]
      refine .inl ⟨⟨hobject, .inl hcontext⟩, _, rfl, hframe, Nat.lt_succ_self _, rfl, ?_, rfl⟩
      rw [ticksAfter, if_pos hcontext]
      rfl
    · rw [if_neg hcontext]
      rcases kmalloc_cases alloc contextSize (makeDevice w.next driver
        { w with io := { w.io with ticks := w.io.ticks + 1 }, next := w.next + 1 }) with
        ⟨hc, hk'⟩ | ⟨hc, hk'⟩
      · rw [hk']
        refine .inl ⟨⟨hobject, .inr hc⟩, _, rfl, ?_, ?_, rfl, ?_, rfl⟩
        · exact ⟨hframe.next.trans (Nat.le_succ _), rfl, rfl, rfl, hframe.nextGlobal, hframe.nextDevice⟩
        · exact Nat.lt_succ_of_lt (Nat.lt_succ_self _)
        · rw [ticksAfter, if_neg hcontext]
          rfl
      · rw [hk']
        refine .inr ⟨?_, _, rfl, ?_, ?_⟩
        · rintro ⟨-, h | h⟩
          · exact hcontext h
          · exact Bool.false_ne_true (hc.symm.trans h)
        · refine ⟨hframe.next, rfl, rfl, rfl, fun a ha => ?_, fun _ _ => rfl⟩
          refine (update_of_ne (Nat.ne_of_lt ha) _ _).trans (hframe.nextGlobal a ha)
        · change update (update w.devices w.next _) w.next none = w.devices
          rw [update_idem, ← hinv.fresh (Nat.le_refl w.next), update_eq_self]
  · rw [hk]
    refine .inr ⟨fun h => Bool.false_ne_true (hobject.symm.trans h.1), _, rfl, ?_, rfl⟩
    exact ⟨Nat.le_refl _, rfl, rfl, rfl, fun _ _ => rfl, fun _ _ => rfl⟩

variable {v : World}

theorem destroy_made {x : Device} (hinv : Inv w.devices w) (hframe : Frame w v)
    (hdevices : v.devices = update w.devices w.next (some x)) (hdriver : w.wdmDriver driver = 0) :
    ∃ w', wdfDestroyDevice w.next ⟨0, driver, 0⟩ v = some w' ∧ Frame w w' ∧
      w'.devices = w.devices := by
  refine ⟨_, wdfDestroyDevice_pending (hframe.inv hinv) hinv.start (hinv.fresh (Nat.le_refl _))
    ((hframe.wdmDriver driver).trans hdriver), ⟨hframe.next, hframe.wdfDevices, hframe.deviceObject,
    hframe.drivers, fun a ha => ?_, hframe.nextDevice⟩, ?_⟩
  · exact (update_of_ne (Nat.ne_of_lt ha) _ _).trans (hframe.nextGlobal a ha)
  · change update v.devices w.next none = w.devices
    rw [hdevices, update_idem, ← hinv.fresh (Nat.le_refl w.next), update_eq_self]

structure Ready (driver contextSize wdm : Nat) (w v : World) : Prop where
  frame : Frame w v
  above : w.next < wdm
  below : wdm < v.next
  devices : v.devices = update w.devices w.next (some ⟨0, driver, 0⟩)
  io : v.io = { w.io with ticks := ticksAfter contextSize w + 1 }
  number : v.wdfDeviceNumber = w.wdfDeviceNumber

variable {wdm : Nat}

theorem linkDevice_none (h : w.wdmDriver driver = 0) :
    linkDevice driver wdm w = { w with nextDevice := update w.nextDevice wdm (some 0) } :=
  if_pos h

theorem linkDevice_some (h : w.wdmDriver driver ≠ 0) : linkDevice driver wdm w =
    { w with
      nextDevice := update w.nextDevice wdm (some (w.deviceObject (w.wdmDriver driver)))
      deviceObject := update w.deviceObject (w.wdmDriver driver) wdm } :=
  if_neg h

theorem Ready.ioCreateDevice_iff (h : Ready driver contextSize wdm w v) :
    (Io.ioCreateDevice alloc ((linkDevice driver wdm v).ioDriver driver)
        (some (deviceName (linkDevice driver wdm v).wdfDeviceNumber)) 0 (linkDevice driver wdm v).io).1 ≠
      0 ↔ Accepts alloc (w.ioDriver driver) (deviceName w.wdfDeviceNumber)
        { w.io with ticks := ticksAfter contextSize w + 1 } := by
  have hlink : (linkDevice driver wdm v).ioDriver driver = w.ioDriver driver ∧
      (linkDevice driver wdm v).wdfDeviceNumber = w.wdfDeviceNumber ∧
      (linkDevice driver wdm v).io = { w.io with ticks := ticksAfter contextSize w + 1 } := by
    have hdriver : v.ioDriver driver = w.ioDriver driver := by
      rw [World.ioDriver, World.ioDriver, h.frame.drivers]
    by_cases hm : v.wdmDriver driver = 0
    · rw [linkDevice_none hm]
      exact ⟨hdriver, h.number, h.io⟩
    · rw [linkDevice_some hm]
      exact ⟨hdriver, h.number, h.io⟩
  rw [hlink.1, hlink.2.1, hlink.2.2]
  exact Wdm.ioCreateDevice_iff (cons_ne_nil _ _)

theorem Ready.dropped (h : Ready driver contextSize wdm w v)
    (hm : w.wdmDriver driver = 0) (io : Io.World) (n : Nat) :
    Frame w { linkDevice driver wdm v with
      io, wdfDeviceNumber := n
      nextDevice := update (linkDevice driver wdm v).nextDevice wdm none } := by
  rw [linkDevice_none ((h.frame.wdmDriver driver).trans hm)]
  refine ⟨h.frame.next, h.frame.wdfDevices, h.frame.deviceObject, h.frame.drivers,
    h.frame.nextGlobal, fun a ha => ?_⟩
  have hne : a ≠ wdm := Nat.ne_of_lt (ha.trans h.above)
  refine Eq.trans ?_ (h.frame.nextDevice a ha)
  dsimp only
  rw [update_of_ne hne, update_of_ne hne]

theorem linkDevice_devices : (linkDevice driver wdm v).devices = v.devices := by
  rw [linkDevice]
  split <;> rfl

theorem linkDevice_nextDevice {a : Nat} (ha : a ≠ wdm) :
    (linkDevice driver wdm v).nextDevice a = v.nextDevice a := by
  rw [linkDevice]
  split <;> exact update_of_ne ha _ _

theorem linkDevice_drivers : (linkDevice driver wdm v).drivers = v.drivers := by
  rw [linkDevice]
  split <;> rfl

theorem createIoDevice_alone (hinv : Inv w.devices w)
    (h : Ready driver contextSize wdm w v) (hm : w.wdmDriver driver = 0)
    (hio : ¬ Accepts alloc (w.ioDriver driver) (deviceName w.wdfDeviceNumber)
      { w.io with ticks := ticksAfter contextSize w + 1 }) :
    ∃ w', createIoDevice alloc driver w.next wdm (linkDevice driver wdm v) = some (0, w') ∧
      Frame w w' ∧ w'.devices = w.devices := by
  have hzero := not_not.mp (mt (@Ready.ioCreateDevice_iff alloc _ _ _ _ _ h).mp hio)
  rw [createIoDevice]
  dsimp only
  rw [if_pos hzero]
  obtain ⟨w', hdestroy, hframe, hdevices⟩ := destroy_made hinv (h.dropped hm _ _)
    (linkDevice_devices.trans h.devices) hm
  exact ⟨w', congrArg (Option.map _) hdestroy, hframe, hdevices⟩

theorem createIoDevice_refused (hinv : Inv w.devices w)
    (h : Ready driver contextSize wdm w v) (hm : w.wdmDriver driver ≠ 0)
    (hio : ¬ Accepts alloc (w.ioDriver driver) (deviceName w.wdfDeviceNumber)
      { w.io with ticks := ticksAfter contextSize w + 1 }) :
    createIoDevice alloc driver w.next wdm (linkDevice driver wdm v) = none := by
  have hzero := not_not.mp (mt (@Ready.ioCreateDevice_iff alloc _ _ _ _ _ h).mp hio)
  have hwdm : wdm ≠ 0 := Nat.ne_of_gt ((Nat.zero_le _).trans_lt h.above)
  rw [createIoDevice]
  dsimp only
  rw [if_pos hzero]
  refine congrArg (Option.map _) (wdfDestroyDevice_null ?_ ?_)
  · dsimp only
    rw [update_of_ne hwdm.symm, linkDevice_nextDevice hwdm.symm,
      h.frame.nextDevice 0 (Nat.pos_of_ne_zero hinv.start)]
    exact hinv.null
  · rw [World.wdmDriver]
    dsimp only
    rw [linkDevice_drivers, h.frame.drivers]
    exact hm

theorem Ready.linked {m : Nat} (h : Ready driver contextSize wdm w v) (hm : m ≠ 0) {l : List Nat}
    (hl : Lib.Linked w.nextDevice (w.deviceObject m) l) (hlt : ∀ x ∈ l, x < w.next) :
    Lib.Linked (linkDevice driver wdm v).nextDevice ((linkDevice driver wdm v).deviceObject m)
      (if w.wdmDriver driver = m then wdm :: l else l) := by
  have hv : Lib.Linked v.nextDevice (v.deviceObject m) l := by
    rw [h.frame.deviceObject]
    exact hl.congr fun a ha => h.frame.nextDevice a (hlt a ha)
  have hnot : wdm ∉ l := fun hmem => absurd (hlt wdm hmem) (by have := h.above; omega)
  have hwdm : wdm ≠ 0 := Nat.ne_of_gt ((Nat.zero_le _).trans_lt h.above)
  have hdriver := h.frame.wdmDriver driver
  split
  · rename_i hmm
    subst hmm
    rw [linkDevice_some (by rw [hdriver]; exact hm), hdriver]
    dsimp only
    rw [update_self]
    exact hv.push hwdm hnot
  · rename_i hmm
    have hobject : (linkDevice driver wdm v).deviceObject m = v.deviceObject m := by
      by_cases hz : v.wdmDriver driver = 0
      · rw [linkDevice_none hz]
      · rw [linkDevice_some hz]
        exact update_of_ne (by rw [hdriver]; exact Ne.symm hmm) _ _
    rw [hobject]
    refine hv.congr fun a ha => linkDevice_nextDevice ?_
    rintro rfl
    exact hnot ha

theorem Ready.inv (hinv : Inv w.devices w)
    (h : Ready driver contextSize wdm w v) (io : Io.World) (n ioDevice : Nat)
    (devices : Nat → Option Device)
    (hdevices : devices = update w.devices w.next (some ⟨wdm, driver, ioDevice⟩)) :
    Inv devices { linkDevice driver wdm v with
      io, wdfDeviceNumber := n, devices
      nextGlobal := update v.nextGlobal w.next (some v.wdfDevices)
      wdfDevices := w.next } := by
  have hwdm : wdm ≠ 0 := Nat.ne_of_gt ((Nat.zero_le _).trans_lt h.above)
  have hnext : (linkDevice driver wdm v).next = v.next := by
    rw [linkDevice]
    split <;> rfl
  have hnew : ∀ e other, devices e = some other ↔
      (e = w.next ∧ other = ⟨wdm, driver, ioDevice⟩) ∨ w.devices e = some other := by
    intro e other
    rw [hdevices]
    by_cases he : e = w.next
    · subst he
      rw [update_self, hinv.fresh (Nat.le_refl _)]
      simp [eq_comm]
    · rw [update_of_ne he]
      simp [he]
  have hdriver : ∀ driver', (linkDevice driver wdm v).wdmDriver driver' = w.wdmDriver driver' := by
    intro driver'
    rw [World.wdmDriver, World.wdmDriver, linkDevice_drivers, h.frame.drivers]
  refine ⟨?_, ?_, ?_, fun m hm => ?_, fun e other he => ?_, fun e e' other other' he he' heq => ?_⟩
  · dsimp only
    rw [hnext]
    exact Nat.ne_of_gt ((Nat.zero_le _).trans_lt h.below)
  · dsimp only
    rw [linkDevice_nextDevice hwdm.symm, h.frame.nextDevice 0 (Nat.pos_of_ne_zero hinv.start)]
    exact hinv.null
  · obtain ⟨l, hlinked, hmem⟩ := hinv.devices
    have hlt := hinv.global_lt hmem
    have hv : Lib.Linked v.nextGlobal v.wdfDevices l := by
      rw [h.frame.wdfDevices]
      exact hlinked.congr fun a ha => h.frame.nextGlobal a (hlt a ha)
    refine ⟨w.next :: l, hv.push hinv.start fun hin => Nat.lt_irrefl _ (hlt _ hin), fun e => ?_⟩
    rw [mem_cons, hmem, isSome_iff_exists, isSome_iff_exists]
    simp only [hnew]
    constructor
    · rintro (he | ⟨other, he⟩)
      · exact ⟨_, .inl ⟨he, rfl⟩⟩
      · exact ⟨other, .inr he⟩
    · rintro ⟨other, ⟨he, -⟩ | he⟩
      · exact .inl he
      · exact .inr ⟨other, he⟩
  · obtain ⟨l, hlinked, hmem⟩ := hinv.wdm m hm
    refine ⟨_, h.linked hm hlinked (hinv.wdm_lt hmem), fun x => ?_⟩
    change _ ↔ ∃ e other, devices e = some other ∧
      (linkDevice driver wdm v).wdmDriver other.driver = m ∧ other.wdmDevice = x
    simp only [hdriver, hnew]
    have hrest : x ∈ l ↔ ∃ e other, w.devices e = some other ∧ w.wdmDriver other.driver = m ∧
        other.wdmDevice = x := hmem x
    split
    · rename_i hmm
      rw [mem_cons, hrest]
      constructor
      · rintro (rfl | ⟨e, other, he, hd, hx⟩)
        · exact ⟨w.next, _, .inl ⟨rfl, rfl⟩, hmm, rfl⟩
        · exact ⟨e, other, .inr he, hd, hx⟩
      · rintro ⟨e, other, ⟨rfl, rfl⟩ | he, hd, hx⟩
        · exact .inl hx.symm
        · exact .inr ⟨e, other, he, hd, hx⟩
    · rename_i hmm
      rw [hrest]
      constructor
      · rintro ⟨e, other, he, hd, hx⟩
        exact ⟨e, other, .inr he, hd, hx⟩
      · rintro ⟨e, other, ⟨rfl, rfl⟩ | he, hd, hx⟩
        · exact absurd hd hmm
        · exact ⟨e, other, he, hd, hx⟩
  · dsimp only
    rw [hnext]
    have hbelow := h.below
    have habove := h.above
    rcases (hnew e other).mp he with ⟨rfl, rfl⟩ | he
    · exact ⟨habove.trans hbelow, hwdm, hbelow⟩
    · obtain ⟨hd, hne, hlt⟩ := hinv.bound e other he
      exact ⟨hd.trans (habove.trans hbelow), hne, hlt.trans (habove.trans hbelow)⟩
  · have habove := h.above
    have hother : ∀ e other, w.devices e = some other → other.wdmDevice ≠ wdm := by
      intro e other he
      have := (hinv.bound e other he).2.2
      omega
    rcases (hnew e other).mp he with ⟨rfl, rfl⟩ | he <;>
      rcases (hnew e' other').mp he' with ⟨rfl, rfl⟩ | he'
    · rfl
    · exact absurd heq.symm (hother e' other' he')
    · exact absurd heq (hother e other he)
    · exact hinv.apart e e' other other' he he' heq

theorem createIoDevice_accepted (hinv : Inv w.devices w) (h : Ready driver contextSize wdm w v)
    (hio : Accepts alloc (w.ioDriver driver) (deviceName w.wdfDeviceNumber)
      { w.io with ticks := ticksAfter contextSize w + 1 }) :
    ∃ w', createIoDevice alloc driver w.next wdm (linkDevice driver wdm v) = some (w.next, w') ∧
      Inv w'.devices w' := by
  have hne := (@Ready.ioCreateDevice_iff alloc _ _ _ _ _ h).mpr hio
  rw [createIoDevice]
  dsimp only
  generalize Io.ioCreateDevice alloc ((linkDevice driver wdm v).ioDriver driver)
    (some (deviceName (linkDevice driver wdm v).wdfDeviceNumber)) 0 (linkDevice driver wdm v).io = r
    at hne ⊢
  rw [if_neg hne]
  refine ⟨_, rfl, ?_⟩
  have hglobal : (linkDevice driver wdm v).nextGlobal = v.nextGlobal ∧
      (linkDevice driver wdm v).wdfDevices = v.wdfDevices := by
    rw [linkDevice]
    split <;> exact ⟨rfl, rfl⟩
  simp only [World.setDevice, hglobal.1, hglobal.2]
  refine h.inv hinv r.2 _ r.1 _ ?_
  rw [linkDevice_devices, h.devices, update_idem]

theorem Made.kmalloc (h : Made alloc driver contextSize w v) :
    (alloc (ticksAfter contextSize w) sizeofDeviceObject = true ∧ ∃ v',
      v.kmalloc alloc sizeofDeviceObject = (some v.next, v') ∧ Ready driver contextSize v.next w v') ∨
    (alloc (ticksAfter contextSize w) sizeofDeviceObject = false ∧ ∃ v',
      v.kmalloc alloc sizeofDeviceObject = (none, v') ∧ Frame w v' ∧ v'.devices = v.devices) := by
  have hticks : v.io.ticks = ticksAfter contextSize w := by rw [h.io]
  rcases kmalloc_cases alloc sizeofDeviceObject v with ⟨ha, hk⟩ | ⟨ha, hk⟩ <;> rw [hticks] at ha hk
  · refine .inl ⟨ha, _, hk, ?_, h.next, Nat.lt_succ_self _, h.devices, ?_, h.number⟩
    · exact ⟨h.frame.next.trans (Nat.le_succ _), h.frame.wdfDevices, h.frame.deviceObject,
        h.frame.drivers, h.frame.nextGlobal, h.frame.nextDevice⟩
    · rw [h.io]
  · refine .inr ⟨ha, _, hk, ?_, rfl⟩
    exact ⟨h.frame.next, h.frame.wdfDevices, h.frame.deviceObject, h.frame.drivers,
      h.frame.nextGlobal, h.frame.nextDevice⟩

theorem wdfDeviceCreate_served (hinv : Inv w.devices w) (hs : Served alloc driver contextSize w) :
    ∃ handle w', wdfDeviceCreate alloc driver contextSize w = some (handle, w') ∧
      Inv w'.devices w' ∧ (handle = 0 → SameLists w w') := by
  have hfailed : ∀ w', Frame w w' → w'.devices = w.devices →
      Inv w'.devices w' ∧ (0 = 0 → SameLists w w') := fun w' hframe hdevices =>
    ⟨by rw [hdevices]; exact hframe.inv hinv, fun _ => hframe.sameLists hinv⟩
  rw [wdfDeviceCreate]
  rcases @wdfNewDevice_cases alloc w driver contextSize hinv with
    ⟨hobject, v, hv, hmade⟩ | ⟨-, v, hv, hframe, hdevices⟩
  · rw [hv]
    dsimp only
    rcases hmade.kmalloc with ⟨hwdm, v', hk, hready⟩ | ⟨hwdm, v', hk, hframe, hdevices⟩
    · rw [hk]
      dsimp only
      by_cases hio : Accepts alloc (w.ioDriver driver) (deviceName w.wdfDeviceNumber)
          { w.io with ticks := ticksAfter contextSize w + 1 }
      · obtain ⟨w', hcreate, hinv'⟩ := createIoDevice_accepted hinv hready hio
        exact ⟨_, w', hcreate, hinv', fun h => absurd h hinv.start⟩
      · have hdriver : w.wdmDriver driver = 0 := by
          rcases hs with h | h | h
          · exact h
          · exact absurd hobject h
          · exact absurd h.2 hio
        obtain ⟨w', hcreate, hframe, hdevices⟩ := createIoDevice_alone hinv hready hdriver hio
        exact ⟨0, w', hcreate, hfailed w' hframe hdevices⟩
    · rw [hk]
      have hdriver : w.wdmDriver driver = 0 := by
        rcases hs with h | h | h
        · exact h
        · exact absurd hobject h
        · exact absurd (hwdm.symm.trans h.1) Bool.false_ne_true
      obtain ⟨w', hdestroy, hframe', hdevices'⟩ := destroy_made hinv hframe
        (hdevices.trans hmade.devices) hdriver
      exact ⟨0, w', congrArg (Option.map _) hdestroy, hfailed w' hframe' hdevices'⟩
  · rw [hv]
    exact ⟨0, v, rfl, hfailed v hframe hdevices⟩

theorem wdfDeviceCreate_refused (hinv : Inv w.devices w) (hs : ¬ Served alloc driver contextSize w) :
    wdfDeviceCreate alloc driver contextSize w = none := by
  simp only [Served, not_or, not_not] at hs
  obtain ⟨hdriver, hobject, hrest⟩ := hs
  rw [wdfDeviceCreate]
  rcases @wdfNewDevice_cases alloc w driver contextSize hinv with
    ⟨-, v, hv, hmade⟩ | ⟨hno, -⟩
  · rw [hv]
    dsimp only
    rcases hmade.kmalloc with ⟨hwdm, v', hk, hready⟩ | ⟨-, v', hk, hframe, -⟩
    · rw [hk]
      exact createIoDevice_refused hinv hready hdriver fun hio => hrest ⟨hwdm, hio⟩
    · rw [hk]
      refine congrArg (Option.map _) (wdfDestroyDevice_null ?_ ?_)
      · rw [hframe.nextDevice 0 (Nat.pos_of_ne_zero hinv.start)]
        exact hinv.null
      · rw [hframe.wdmDriver]
        exact hdriver
  · exact absurd hobject hno

end Creation

/-! ## Runs -/

section Runs

variable {alloc : Io.Allocator} {w w' : World} {op : Op} {ops : List Op}

theorem inv_start (io : Io.World) (drivers : Nat → Driver) :
    Inv (World.start io drivers).devices (World.start io drivers) := by
  have hnone : ∀ {d device}, (World.start io drivers).devices d = some device → False := by
    intro d device h
    cases h
  refine ⟨Nat.one_ne_zero, rfl, ⟨[], linked_nil, fun d => ?_⟩, fun m _ => ⟨[], linked_nil, fun x => ?_⟩,
    fun d device h => (hnone h).elim, fun d _ device _ h _ _ => (hnone h).elim⟩
  · exact ⟨fun h => absurd h not_mem_nil, fun h => absurd h Bool.false_ne_true⟩
  · exact ⟨fun h => absurd h not_mem_nil, fun ⟨_, _, h, _⟩ => (hnone h).elim⟩

theorem step_spec (hinv : Inv w.devices w)
    (hs : ∀ driver contextSize, op = .deviceCreate driver contextSize →
      Served alloc driver contextSize w) :
    ∃ w', step alloc op w = some w' ∧ Inv w'.devices w' ∧
      ∀ driver contextSize, op = .deviceCreate driver contextSize →
        wdfDeviceCreate alloc driver contextSize w = some (0, w') → SameLists w w' := by
  cases op with
  | deviceCreate driver contextSize =>
    obtain ⟨handle, w', hcreate, hinv', hsame⟩ := wdfDeviceCreate_served hinv (hs _ _ rfl)
    refine ⟨w', by rw [step, hcreate]; rfl, hinv', fun driver' contextSize' hop hzero => ?_⟩
    cases hop
    rw [hcreate] at hzero
    cases hzero
    exact hsame rfl
  | objectDelete d =>
    rw [step, wdfObjectDelete]
    rcases hd : w.devices d with _ | device
    · exact ⟨w, rfl, hinv, fun _ _ h => by cases h⟩
    · obtain ⟨w', hdestroy, hinv'⟩ := wdfDestroyDevice_listed hinv hd
      exact ⟨w', hdestroy, hinv', fun _ _ h => by cases h⟩
  | io op =>
    refine ⟨_, rfl, ?_, fun _ _ h => by cases h⟩
    exact ⟨hinv.start, hinv.null, hinv.devices, hinv.wdm, hinv.bound, hinv.apart⟩

theorem correct_iff (hinv : Inv w.devices w) : Correct alloc ops w ↔ Meets alloc ops w := by
  induction ops generalizing w with
  | nil => exact ⟨fun _ => trivial, fun _ => hinv.exact⟩
  | cons op ops ih =>
    constructor
    · rintro ⟨-, w', hstep, hrest, -⟩
      have hs : ∀ driver contextSize, op = .deviceCreate driver contextSize →
          Served alloc driver contextSize w := by
        rintro driver contextSize rfl
        by_contra hno
        rw [step, wdfDeviceCreate_refused hinv hno] at hstep
        cases hstep
      refine ⟨hs, fun w'' hstep' => ?_⟩
      obtain ⟨v, hv, hinv', -⟩ := step_spec hinv hs
      rw [hstep] at hstep' hv
      cases hstep'
      cases hv
      exact (ih hinv').mp hrest
    · rintro ⟨hs, hrest⟩
      obtain ⟨w', hstep, hinv', hsame⟩ := step_spec hinv hs
      exact ⟨hinv.exact, w', hstep, (ih hinv').mpr (hrest w' hstep), hsame⟩

/-- In a history of creations and deletions, from any state of the I/O manager, the lists are right
all the time exactly when every creation is served. -/
theorem wdf_lists_iff (alloc : Io.Allocator) (io : Io.World) (drivers : Nat → Driver) (ops : List Op) :
    Correct alloc ops (World.start io drivers) ↔ Meets alloc ops (World.start io drivers) :=
  correct_iff (inv_start io drivers)

theorem Correct.run (h : Correct alloc ops w) : (run alloc ops w).isSome = true := by
  induction ops generalizing w with
  | nil => rfl
  | cons op ops ih =>
    obtain ⟨-, w', hstep, hrest, -⟩ := h
    rw [Wdm.run, hstep, bind_some]
    exact ih hrest

/-- The eleventh device of a driver gets the name of the first, which is still there. -/
theorem wdf_lists_eleven :
    ¬ Correct (fun _ _ => true) (List.replicate 11 (.deviceCreate 1 0))
      (World.start (Io.ioCreateDriver (fun _ _ => true) (some [87]) Io.boot).2 fun _ => ⟨1, 1⟩) := by
  intro h
  have hrun := h.run
  revert hrun
  decide +kernel

end Runs

end Wdm
end DiscouNT.Wdf
