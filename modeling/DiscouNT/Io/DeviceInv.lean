import DiscouNT.Io.Names
import DiscouNT.Ob.Accounts

/-!
# Io.DeviceInv

The invariant of drivers, devices and their objects, and what each call does to it.

* `Wired` ties the records to the table: a driver or device object has its record, the record has
  the handle, and the device list of a driver holds live devices of that driver.
* `IoInv dying` adds the books of the object manager (`Accounted`) and that nothing freed was read.
  While a driver is deleted its handle is `dying`, and `IoDeleteDevice` runs in between.
-/

namespace DiscouNT.Io

open Lib List Function
open Ob

def slot (w : World) (h : Nat) : Option (Nat × Nat) :=
  (w.ob.lookup h).map fun o => (o.type, o.body)

theorem slot_of_lookup {w : World} {h : Nat} {o : Object} (hl : w.ob.lookup h = some o) :
    slot w h = some (o.type, o.body) := by
  rw [slot, hl]
  rfl

variable {b t : Nat}

theorem lookup_of_slot {w : World} {h : Nat} (hs : slot w h = some (t, b)) :
    ∃ o, w.ob.lookup h = some o ∧ o.type = t ∧ o.body = b := by
  obtain ⟨o, ho, heq⟩ := Option.map_eq_some_iff.mp hs
  cases heq
  exact ⟨o, ho, rfl, rfl⟩

def nextDevice (w : World) (d : Nat) : Nat := (w.devices d).nextDevice

structure Listing (w : World) (a : Nat) (l : List Nat) : Prop where
  chain : Chain (nextDevice w) (w.drivers a).deviceList l
  owned : ∀ d ∈ l, (w.devices d).driver = a ∧ ∃ h, slot w h = some (w.deviceObjectType, d)

structure Wired (w : World) : Prop where
  start : 0 < w.next
  typesNe : w.driverObjectType ≠ w.deviceObjectType
  driverProc : ∀ t, deleteProcOf w.ob t = some .ioDeleteDriverBody ↔ t = w.driverObjectType
  deviceProc : ∀ t, deleteProcOf w.ob t = some .ioDeleteDeviceBody ↔ t = w.deviceObjectType
  bodies : ∀ h t b, slot w h = some (t, b) → b < w.next ∧ (b ≠ 0 → w.live b = true)
  apart : ∀ h k t t' b, slot w h = some (t, b) → slot w k = some (t', b) → b ≠ 0 → h = k
  driver : ∀ h a, slot w h = some (w.driverObjectType, a) → a ≠ 0 →
    (w.drivers a).type = ioTypeDriver ∧ (w.drivers a).handle = h ∧ ∃ l, Listing w a l
  device : ∀ h d, slot w h = some (w.deviceObjectType, d) → d ≠ 0 →
    (w.devices d).type = ioTypeDevice ∧ (w.devices d).handle = h ∧ (w.devices d).driver ≠ 0
  extension : ∀ h d, slot w h = some (w.deviceObjectType, d) → d ≠ 0 →
    (w.devices d).deviceExtension < w.next ∧ ∀ k t b, slot w k = some (t, b) → b ≠ 0 →
      b ≠ (w.devices d).deviceExtension

structure IoInv (dying : Nat → Prop) (w : World) : Prop where
  books : Accounted dying w.ob
  wired : Wired w
  sane : w.fault = false
  leaving : ∀ h, dying h → ∃ a, a ≠ 0 ∧ slot w h = some (w.driverObjectType, a)

section Unlinking

variable {w : World} {a d h : Nat} {l : List Nat}

def lastLink : Option Nat → List Nat → Option Nat
  | link, [] => link
  | _, x :: pre => lastLink (some x) pre

theorem lastLink_append (link : Option Nat) (pre : List Nat) (x : Nat) :
    lastLink link (pre ++ [x]) = some x := by
  induction pre generalizing link with
  | nil => rfl
  | cons y pre ih => exact ih (some y)

theorem findLink_spec {pre : List Nat} {stop cur fuel : Nat} {link : Option Nat}
    (hseg : Seg (nextDevice w) cur pre stop) (hpre : ∀ x ∈ pre, x ≠ 0 ∧ x ≠ d ∧ w.live x = true)
    (hstop : stop = 0 ∨ stop = d) (hfuel : pre.length < fuel) :
    findLink w d fuel link cur = some (lastLink link pre, stop) := by
  induction pre generalizing cur fuel link with
  | nil =>
    obtain ⟨fuel, rfl⟩ : ∃ f, fuel = f + 1 := ⟨fuel - 1, by omega⟩
    obtain rfl : cur = stop := hseg
    rw [findLink, if_pos hstop]
    rfl
  | cons x pre ih =>
    obtain ⟨fuel, rfl⟩ : ∃ f, fuel = f + 1 := ⟨fuel - 1, by omega⟩
    obtain ⟨rfl, hseg⟩ := hseg
    obtain ⟨hx0, hxd, hxl⟩ := hpre cur mem_cons_self
    simp only [length_cons] at hfuel
    rw [findLink, if_neg (by rintro (h | h); exacts [hx0 h, hxd h]), if_neg (by simp [hxl])]
    exact ih hseg (fun y hy => hpre y (mem_cons_of_mem _ hy)) (by omega)

/-- From `w` to `w'` only links between devices were changed. -/
structure Relinked (w w' : World) : Prop where
  ob : w'.ob = w.ob
  live : w'.live = w.live
  next : w'.next = w.next
  driverType : w'.driverObjectType = w.driverObjectType
  deviceType : w'.deviceObjectType = w.deviceObjectType
  fault : w'.fault = w.fault
  history : w'.history = w.history
  driver : ∀ b, (w'.drivers b).type = (w.drivers b).type ∧
    (w'.drivers b).handle = (w.drivers b).handle
  device : ∀ x, (w'.devices x).type = (w.devices x).type ∧
    (w'.devices x).handle = (w.devices x).handle ∧
    (w'.devices x).driver = (w.devices x).driver ∧
    (w'.devices x).deviceExtension = (w.devices x).deviceExtension

theorem Relinked.refl (w : World) : Relinked w w :=
  ⟨rfl, rfl, rfl, rfl, rfl, rfl, rfl, fun _ => ⟨rfl, rfl⟩, fun _ => ⟨rfl, rfl, rfl, rfl⟩⟩

theorem relinked_setLink (a v : Nat) (link : Option Nat) (w : World) :
    Relinked w (setLink a link v w) := by
  cases link with
  | none =>
    refine ⟨rfl, rfl, rfl, rfl, rfl, rfl, rfl, fun b => ?_, fun _ => ⟨rfl, rfl, rfl, rfl⟩⟩
    by_cases hb : b = a
    · subst hb
      simp [setLink, World.setDriver]
    · simp [setLink, World.setDriver, hb]
  | some x =>
    refine ⟨rfl, rfl, rfl, rfl, rfl, rfl, rfl, fun _ => ⟨rfl, rfl⟩, fun y => ?_⟩
    by_cases hy : y = x
    · subst hy
      simp [setLink, World.setDevice]
    · simp [setLink, World.setDevice, hy]

theorem Relinked.slot {w w' : World} (h : Relinked w w') (k : Nat) : slot w' k = slot w k := by
  unfold Io.slot
  rw [h.ob]

theorem Relinked.owned {w w' : World} (h : Relinked w w') {l l' : List Nat}
    (hl : Listing w b l) (hsub : ∀ x ∈ l', x ∈ l) :
    ∀ x ∈ l', (w'.devices x).driver = b ∧ ∃ k, Io.slot w' k = some (w'.deviceObjectType, x) := by
  intro x hx
  obtain ⟨hd, k, hk⟩ := hl.owned x (hsub x hx)
  exact ⟨(h.device x).2.2.1.trans hd, k, by rw [h.slot, h.deviceType]; exact hk⟩

theorem Listing.live (hw : Wired w) (hl : Listing w a l) {x : Nat} (hx : x ∈ l) :
    x ≠ 0 ∧ x < w.next ∧ w.live x = true := by
  obtain ⟨_, k, hk⟩ := hl.owned x hx
  have hx0 := hl.chain.2 x hx
  obtain ⟨hlt, hlive⟩ := hw.bodies k _ x hk
  exact ⟨hx0, hlt, hlive hx0⟩

theorem Listing.length_le (hw : Wired w) (hl : Listing w a l) : l.length ≤ w.next := by
  have hsub : l ⊆ List.range w.next := fun x hx => mem_range.mpr (hl.live hw hx).2.1
  have hle := (hl.chain.nodup.subperm hsub).length_le
  simpa using hle

theorem Listing.unique {l' : List Nat} (hl : Listing w a l) (hl' : Listing w a l') : l = l' :=
  hl.chain.unique hl'.chain

theorem nextDevice_setLink (x v : Nat) :
    nextDevice (setLink a (some x) v w) = update (nextDevice w) x v := by
  funext y
  by_cases hy : y = x
  · subst hy
    simp [nextDevice, setLink, World.setDevice]
  · simp [nextDevice, setLink, World.setDevice, hy]

theorem touch_of_live (hl : w.live a = true) : w.touch a = w := by
  rw [World.touch, if_pos hl]

theorem unlinkDevice_spec (hw : Wired w) (hlive : w.live a = true) (hl : Listing w a l)
    (hd : d ≠ 0) :
    Relinked w (unlinkDevice a d w) ∧ Listing (unlinkDevice a d w) a (l.erase d) ∧
      ∀ b l', b ≠ a → Listing w b l' → Listing (unlinkDevice a d w) b l' := by
  have hfuel := hl.length_le hw
  simp only [unlinkDevice, touch_of_live hlive]
  by_cases hmem : d ∈ l
  · obtain ⟨pre, post, rfl⟩ := append_of_mem hmem
    have hdpre : d ∉ pre := not_mem_before hl.chain.nodup
    obtain ⟨q, hseg, rfl, hpost⟩ := seg_append_iff.mp hl.chain.1
    have herase : (pre ++ q :: post).erase q = pre ++ post := by
      rw [erase_append_right _ hdpre, erase_cons_head]
    simp only [length_append, length_cons] at hfuel
    have hfind : findLink w q (w.next + 1) none (w.drivers a).deviceList =
        some (lastLink none pre, q) := by
      refine findLink_spec hseg (fun x hx => ?_) (.inr rfl) (by omega)
      refine ⟨hl.chain.2 x (mem_append_left _ hx), ?_, (hl.live hw (mem_append_left _ hx)).2.2⟩
      rintro rfl
      exact hdpre hx
    rw [hfind, herase]
    dsimp only
    rw [if_pos rfl]
    have hrel := relinked_setLink a (w.devices q).nextDevice (lastLink none pre) w
    have hsub : ∀ x ∈ pre ++ post, x ∈ pre ++ q :: post := by
      intro x hx
      rcases mem_append.mp hx with hx | hx
      · exact mem_append_left _ hx
      · exact mem_append_right _ (mem_cons_of_mem _ hx)
    refine ⟨hrel, ⟨?_, hrel.owned hl hsub⟩, fun b l' hb hl' =>
      ⟨?_, hrel.owned hl' fun x hx => hx⟩⟩
    · -- the new list, by the link that was redirected
      rcases eq_nil_or_concat pre with rfl | ⟨pre', x, rfl⟩
      · have hhead : ((setLink a (lastLink none []) (w.devices q).nextDevice w).drivers
            a).deviceList = nextDevice w q := by
          simp [lastLink, setLink, World.setDriver, nextDevice]
        rw [hhead]
        exact hl.chain.drop
      · rw [concat_eq_append, lastLink_append] at hrel ⊢
        have hch := hl.chain
        rw [concat_eq_append, append_assoc, singleton_append] at hch
        have hun := hch.unlink
        rw [nextDevice_setLink, append_assoc, singleton_append]
        exact hun
    · rcases eq_nil_or_concat pre with rfl | ⟨pre', x, rfl⟩
      · have hdrv : ((setLink a (lastLink none []) (w.devices q).nextDevice w).drivers b) =
            w.drivers b := by
          simp [lastLink, setLink, World.setDriver, hb]
        rw [hdrv]
        exact hl'.chain
      · rw [concat_eq_append, lastLink_append, nextDevice_setLink]
        refine hl'.chain.congr fun y hy => update_of_ne ?_ _ _
        -- `x` belongs to `a`, so it is on no other list
        rintro rfl
        have hya := (hl.owned y (by simp)).1
        exact hb ((hl'.owned y hy).1.symm.trans hya)
  · have hfind : findLink w d (w.next + 1) none (w.drivers a).deviceList =
        some (lastLink none l, 0) := by
      refine findLink_spec hl.chain.1 (fun x hx => ⟨hl.chain.2 x hx, ?_, (hl.live hw hx).2.2⟩)
        (.inl rfl) (by omega)
      rintro rfl
      exact hmem hx
    rw [hfind]
    dsimp only
    rw [if_neg (Ne.symm hd), erase_of_not_mem hmem]
    exact ⟨.refl w, hl, fun _ _ _ hl' => hl'⟩

end Unlinking

section Frames

variable {w w' : World} {a d h : Nat} {l : List Nat}

theorem deleteProcOf_congr (htypes : w'.ob.objectTypes = w.ob.objectTypes) (t : Nat) :
    deleteProcOf w'.ob t = deleteProcOf w.ob t := by
  unfold deleteProcOf obGetObjectType
  rw [htypes]

theorem Wired.relinked (hw : Wired w) (hr : Relinked w w')
    (hlists : ∀ k b, slot w k = some (w.driverObjectType, b) → b ≠ 0 → ∃ l, Listing w' b l) :
    Wired w' := by
  have hslot := hr.slot
  have hproc : ∀ t, deleteProcOf w'.ob t = deleteProcOf w.ob t := deleteProcOf_congr (by rw [hr.ob])
  constructor
  · rw [hr.next]
    exact hw.start
  · rw [hr.driverType, hr.deviceType]
    exact hw.typesNe
  · intro t
    rw [hproc, hr.driverType]
    exact hw.driverProc t
  · intro t
    rw [hproc, hr.deviceType]
    exact hw.deviceProc t
  · intro k t b hk
    rw [hslot] at hk
    rw [hr.next, hr.live]
    exact hw.bodies k t b hk
  · intro k k' t t' b hk hk'
    rw [hslot] at hk hk'
    exact hw.apart k k' t t' b hk hk'
  · intro k b hk hb
    rw [hslot, hr.driverType] at hk
    obtain ⟨htype, hhandle, _⟩ := hw.driver k b hk hb
    exact ⟨(hr.driver b).1.trans htype, (hr.driver b).2.trans hhandle, hlists k b hk hb⟩
  · intro k x hk hx
    rw [hslot, hr.deviceType] at hk
    obtain ⟨htype, hhandle, hdrv⟩ := hw.device k x hk hx
    obtain ⟨e1, e2, e3, _⟩ := hr.device x
    exact ⟨e1.trans htype, e2.trans hhandle, e3.symm ▸ hdrv⟩
  · intro k x hk hx
    rw [hslot, hr.deviceType] at hk
    obtain ⟨hlt, hne⟩ := hw.extension k x hk hx
    obtain ⟨_, _, _, e4⟩ := hr.device x
    rw [e4, hr.next]
    refine ⟨hlt, fun k' t b hk' => ?_⟩
    rw [hslot] at hk'
    exact hne k' t b hk'

structure Dropped (h : Nat) (w w' : World) : Prop where
  slot : ∀ k, Io.slot w' k = if k = h then none else Io.slot w k
  types : w'.ob.objectTypes = w.ob.objectTypes
  next : w'.next = w.next
  driverType : w'.driverObjectType = w.driverObjectType
  deviceType : w'.deviceObjectType = w.deviceObjectType
  live : ∀ k t b, k ≠ h → Io.slot w k = some (t, b) → b ≠ 0 → w'.live b = w.live b
  drivers : w'.drivers = w.drivers
  devices : ∀ k d, k ≠ h → Io.slot w k = some (w.deviceObjectType, d) → d ≠ 0 →
    w'.devices d = w.devices d

theorem Dropped.slot_of (hd : Dropped h w w') {k : Nat} (hk : Io.slot w' k = some (t, b)) :
    k ≠ h ∧ Io.slot w k = some (t, b) := by
  rw [hd.slot] at hk
  split at hk
  · cases hk
  · exact ⟨by assumption, hk⟩

theorem Dropped.listing (hd : Dropped h w w') (hl : Listing w b l)
    (hnot : ∀ x t, Io.slot w h = some (t, x) → x ∉ l) : Listing w' b l := by
  have hkeep : ∀ x ∈ l, w'.devices x = w.devices x ∧
      ∃ k, k ≠ h ∧ Io.slot w k = some (w.deviceObjectType, x) := by
    intro x hx
    obtain ⟨_, k, hk⟩ := hl.owned x hx
    have hkh : k ≠ h := by
      rintro rfl
      exact hnot x _ hk hx
    exact ⟨hd.devices k x hkh hk (hl.chain.2 x hx), k, hkh, hk⟩
  refine ⟨?_, fun x hx => ?_⟩
  · rw [hd.drivers]
    refine hl.chain.congr fun x hx => ?_
    unfold nextDevice
    rw [(hkeep x hx).1]
  · obtain ⟨heq, k, hkh, hk⟩ := hkeep x hx
    refine ⟨by rw [heq]; exact (hl.owned x hx).1, k, ?_⟩
    rw [hd.slot, if_neg hkh, hd.deviceType]
    exact hk

theorem Dropped.wired (hw : Wired w) (hd : Dropped h w w')
    (hnot : ∀ k b l, Io.slot w k = some (w.driverObjectType, b) → Listing w b l →
      ∀ x t, Io.slot w h = some (t, x) → x ∉ l) : Wired w' := by
  have hproc := deleteProcOf_congr hd.types
  constructor
  · rw [hd.next]
    exact hw.start
  · rw [hd.driverType, hd.deviceType]
    exact hw.typesNe
  · intro t
    rw [hproc, hd.driverType]
    exact hw.driverProc t
  · intro t
    rw [hproc, hd.deviceType]
    exact hw.deviceProc t
  · intro k t b hk
    obtain ⟨hkh, hk⟩ := hd.slot_of hk
    obtain ⟨hlt, hlive⟩ := hw.bodies k t b hk
    exact ⟨by rw [hd.next]; exact hlt, fun hb => by rw [hd.live k t b hkh hk hb]; exact hlive hb⟩
  · intro k k' t t' b hk hk'
    exact hw.apart k k' t t' b (hd.slot_of hk).2 (hd.slot_of hk').2
  · intro k b hk hb
    obtain ⟨hkh, hk⟩ := hd.slot_of hk
    rw [hd.driverType] at hk
    obtain ⟨htype, hhandle, l, hl⟩ := hw.driver k b hk hb
    rw [hd.drivers]
    exact ⟨htype, hhandle, l, hd.listing hl (hnot k b l hk hl)⟩
  · intro k x hk hx
    obtain ⟨hkh, hk⟩ := hd.slot_of hk
    rw [hd.deviceType] at hk
    rw [hd.devices k x hkh hk hx]
    exact hw.device k x hk hx
  · intro k x hk hx
    obtain ⟨hkh, hk⟩ := hd.slot_of hk
    rw [hd.deviceType] at hk
    rw [hd.devices k x hkh hk hx, hd.next]
    obtain ⟨hlt, hne⟩ := hw.extension k x hk hx
    exact ⟨hlt, fun k' t b hk' => hne k' t b (hd.slot_of hk').2⟩

theorem Wired.not_listed (hw : Wired w) {x : Nat} (hh : slot w h = some (t, x))
    (ht : t ≠ w.deviceObjectType) (hl : Listing w b l) : x ∉ l := by
  intro hx
  obtain ⟨_, k, hk⟩ := hl.owned x hx
  have hkh := hw.apart k h _ _ x hk hh (hl.chain.2 x hx)
  subst hkh
  rw [hk] at hh
  cases hh
  exact ht rfl

theorem Wired.of_slots (hw : Wired w) {ob' : ObState DeleteProc}
    (hslot : ∀ k, (ob'.lookup k).map (fun o => (o.type, o.body)) = slot w k)
    (htypes : ob'.objectTypes = w.ob.objectTypes) : Wired { w with ob := ob' } := by
  have hs : ∀ k, slot { w with ob := ob' } k = slot w k := hslot
  have hproc : ∀ t, deleteProcOf ob' t = deleteProcOf w.ob t := by
    intro t
    unfold deleteProcOf obGetObjectType
    rw [htypes]
  have hlist : ∀ b l, Listing w b l → Listing { w with ob := ob' } b l := fun b l hl =>
    ⟨hl.chain, fun x hx => ⟨(hl.owned x hx).1, by simp only [hs]; exact (hl.owned x hx).2⟩⟩
  refine ⟨hw.start, hw.typesNe, fun t => ?_, fun t => ?_, fun k t b => ?_, fun k k' t t' b => ?_,
    fun k b => ?_, fun k x => ?_, fun k x => ?_⟩
  · rw [hproc]
    exact hw.driverProc t
  · rw [hproc]
    exact hw.deviceProc t
  · rw [hs]
    exact hw.bodies k t b
  · rw [hs, hs]
    exact hw.apart k k' t t' b
  · rw [hs]
    intro hk hb
    obtain ⟨htype, hhandle, l, hl⟩ := hw.driver k b hk hb
    exact ⟨htype, hhandle, l, hlist b l hl⟩
  · rw [hs]
    exact hw.device k x
  · rw [hs]
    simp only [hs]
    exact hw.extension k x

end Frames

/-! ## Releasing -/

section Releasing

variable {w : World} {dying : Nat → Prop} {h : Nat} {o : Object}

theorem slot_put {o' : Object} (hl : w.ob.lookup h = some o) (htype : o'.type = o.type)
    (hbody : o'.body = o.body) (k : Nat) :
    ((w.ob.put h o').lookup k).map (fun o => (o.type, o.body)) = slot w k := by
  rw [ObState.lookup_put (ObState.lt_of_lookup hl)]
  split
  · rename_i hk
    subst hk
    rw [slot_of_lookup hl]
    simp [htype, hbody]
  · rfl

theorem IoInv.not_dying (hinv : IoInv dying w) (hh : slot w h = some (t, b))
    (ht : t ≠ w.driverObjectType) : ¬ dying h := by
  intro hd
  obtain ⟨a, _, ha⟩ := hinv.leaving h hd
  rw [hh] at ha
  cases ha
  exact ht rfl

theorem IoInv.release_more (hinv : IoInv dying w) (inner : Nat → World → World)
    (hl : w.ob.lookup h = some o) (hnot : ¬ dying h) (hmore : 2 ≤ o.refCount) :
    obDereferenceObject (host inner) h w = { w with ob := w.ob.put h o.release } ∧
      IoInv dying { w with ob := w.ob.put h o.release } ∧
      ∀ k, slot { w with ob := w.ob.put h o.release } k = slot w k := by
  have hslot := slot_put hl o.release_type o.release_body
  have hcount := Object.release_refCount (by omega) (hinv.books.refs h o hl).2
  refine ⟨?_, ⟨hinv.books.release hl hnot hmore, hinv.wired.of_slots hslot rfl, hinv.sane,
    fun k hk => ?_⟩, hslot⟩
  · rw [obDereferenceObject_host, hl]
    dsimp only
    rw [if_pos (by omega)]
  · obtain ⟨a, ha, hs⟩ := hinv.leaving k hk
    exact ⟨a, ha, (hslot k).trans hs⟩

/-- The table after the last reference of `o`, at the handle `h`, was given back. -/
def releasedLast (w : World) (h : Nat) (o : Object) : World :=
  { w with ob := noteDelete (w.ob.put h o.release) o.release }

theorem lookup_releasedLast (hl : w.ob.lookup h = some o) (k : Nat) :
    (releasedLast w h o).ob.lookup k = if k = h then some o.release else w.ob.lookup k := by
  unfold releasedLast
  dsimp only
  rw [noteDelete_lookup, ObState.lookup_put (ObState.lt_of_lookup hl)]

theorem slot_releasedLast (hl : w.ob.lookup h = some o) (k : Nat) :
    slot (releasedLast w h o) k = slot w k := by
  unfold slot releasedLast
  dsimp only
  rw [noteDelete_lookup]
  exact slot_put hl o.release_type o.release_body k

theorem dereference_last (inner : Nat → World → World) (hacc : Accounted dying w.ob)
    (hl : w.ob.lookup h = some o) (hlast : o.refCount = 1) :
    obDereferenceObject (host inner) h w =
      let v := if o.body = 0 then releasedLast w h o
        else World.kfree o.body (match deleteProcOf w.ob o.type with
          | none => releasedLast w h o
          | some proc => (host inner).delete proc o.body (releasedLast w h o))
      { v with ob := v.ob.clear h } := by
  have hzero : o.release.refCount = 0 := by
    rw [Object.release_refCount (by omega) (hacc.refs h o hl).2, hlast]
  have hproc : deleteProcOf (w.ob.put h o.release) o.type = deleteProcOf w.ob o.type := by
    unfold deleteProcOf obGetObjectType
    rfl
  rw [obDereferenceObject_host, hl]
  dsimp only
  rw [if_neg (by simp [hzero])]
  have hdel : deleteBody (host inner) o.release { w with ob := w.ob.put h o.release } =
      if o.body = 0 then releasedLast w h o
        else World.kfree o.body (match deleteProcOf w.ob o.type with
          | none => releasedLast w h o
          | some proc => (host inner).delete proc o.body (releasedLast w h o)) := by
    unfold deleteBody releasedLast noteDelete
    simp only [Object.release_body, Object.release_type, Object.release_serial]
    by_cases hb : o.body = 0
    · simp [hb]
    · have hhost : deleteProcOf ((host inner).ob { w with ob := w.ob.put h o.release }) o.type =
          deleteProcOf w.ob o.type := hproc
      rw [if_neg hb, if_neg hb, hhost]
      cases hp : deleteProcOf w.ob o.type with
      | none =>
        simp only [hproc, hp, ne_eq, not_true_eq_false, and_false, if_false]
        rfl
      | some proc =>
        simp only [hproc, hp, ne_eq, hb, not_false_eq_true, reduceCtorEq, and_self, if_true]
        rfl
  rw [hdel]

theorem IoInv.releasedLast (hinv : IoInv dying w) (hl : w.ob.lookup h = some o)
    (hnot : ¬ dying h) (hlast : o.refCount = 1) :
    Accounted (fun k => k = h ∨ dying k) (releasedLast w h o).ob ∧
      Wired (Io.releasedLast w h o) := by
  refine ⟨hinv.books.startDelete hl hnot hlast, ?_⟩
  exact hinv.wired.of_slots (slot_releasedLast hl) (by simp)

theorem listing_releasedLast (hl : w.ob.lookup h = some o) {a : Nat} {l : List Nat} :
    Listing (Io.releasedLast w h o) a l ↔ Listing w a l := by
  have hslot := slot_releasedLast hl
  constructor
  · rintro ⟨hc, ho⟩
    refine ⟨hc, fun d hd => ⟨(ho d hd).1, ?_⟩⟩
    obtain ⟨k, hk⟩ := (ho d hd).2
    exact ⟨k, (hslot k).symm.trans hk⟩
  · rintro ⟨hc, ho⟩
    refine ⟨hc, fun d hd => ⟨(ho d hd).1, ?_⟩⟩
    obtain ⟨k, hk⟩ := (ho d hd).2
    exact ⟨k, (hslot k).trans hk⟩

variable {v : World}

theorem IoInv.dropped {v' : World}
    (hbooks : Accounted (fun k => k = h ∨ dying k) v.ob) (hwired : Wired v)
    (hleaving : ∀ k, dying k → ∃ a, a ≠ 0 ∧ slot v k = some (v.driverObjectType, a))
    (hnot : ¬ dying h) (hh : slot v h = some (t, b)) (hob : v'.ob = v.ob.clear h)
    (hd : Dropped h v v') (hsane : v'.fault = false)
    (hunlisted : ∀ a l, Listing v a l → b ∉ l) : IoInv dying v' := by
  obtain ⟨p, hp, _, _⟩ := lookup_of_slot hh
  refine ⟨?_, hd.wired hwired fun k a l _ hl x t' hx => ?_, hsane, fun k hk => ?_⟩
  · rw [hob]
    refine (hbooks.clear hp (.inl rfl)).congr fun k => ⟨fun hk => hk.2.resolve_left hk.1, fun hk => ?_⟩
    refine ⟨?_, .inr hk⟩
    rintro rfl
    exact hnot hk
  · rw [hh] at hx
    cases hx
    exact hunlisted a l hl
  · obtain ⟨a, ha, hs⟩ := hleaving k hk
    have hkh : k ≠ h := by
      rintro rfl
      exact hnot hk
    exact ⟨a, ha, by rw [hd.slot, if_neg hkh, hd.driverType]; exact hs⟩

theorem dropped_of_clear {v' : World} (hob : v'.ob = v.ob.clear h) (hnext : v'.next = v.next)
    (hdriver : v'.driverObjectType = v.driverObjectType)
    (hdevice : v'.deviceObjectType = v.deviceObjectType) (hdrivers : v'.drivers = v.drivers)
    (hlive : ∀ k t b, k ≠ h → slot v k = some (t, b) → b ≠ 0 → v'.live b = v.live b)
    (hdevices : ∀ k d, k ≠ h → slot v k = some (v.deviceObjectType, d) → d ≠ 0 →
      v'.devices d = v.devices d) : Dropped h v v' := by
  refine ⟨fun k => ?_, by rw [hob]; rfl, hnext, hdriver, hdevice, hlive, hdrivers, hdevices⟩
  unfold slot
  rw [hob, ObState.lookup_clear]
  split <;> rfl

theorem dropped_device {d : Nat} (hwired : Wired v)
    (hh : slot v h = some (v.deviceObjectType, d)) (hd0 : d ≠ 0) :
    let u := World.kfree d (ioDeleteDeviceBody d v)
    Dropped h v { u with ob := u.ob.clear h } ∧ u.ob = v.ob ∧ u.fault = v.fault ∧
      u.history = v.history := by
  have htouch : v.touch d = v := touch_of_live ((hwired.bodies h _ d hh).2 hd0)
  have happart : ∀ k t b, k ≠ h → slot v k = some (t, b) → b ≠ 0 → b ≠ d := by
    rintro k t b hkh hk hb rfl
    exact hkh (hwired.apart k h t _ b hk hh hb)
  unfold ioDeleteDeviceBody
  rw [htouch]
  by_cases hext : (v.devices d).deviceExtension = 0
  · simp only [hext, if_true]
    refine ⟨dropped_of_clear rfl rfl rfl rfl rfl (fun k t b hkh hk hb => ?_) fun _ _ _ _ _ => rfl,
      rfl, rfl, rfl⟩
    exact update_of_ne (happart k t b hkh hk hb) _ _
  · simp only [hext, if_false]
    refine ⟨dropped_of_clear rfl rfl rfl rfl rfl (fun k t b hkh hk hb => ?_)
      fun k x hkh hk hx => ?_, rfl, rfl, rfl⟩
    · have hne := (hwired.extension h d hh hd0).2 k t b hk hb
      exact (update_of_ne (happart k t b hkh hk hb) _ _).trans
        (update_of_ne hne _ _)
    · exact update_of_ne (happart k _ x hkh hk hx) _ _

theorem dropped_body (hwired : Wired v) (hh : slot v h = some (t, b)) (hb0 : b ≠ 0) :
    Dropped h v { World.kfree b v with ob := (World.kfree b v).ob.clear h } := by
  refine dropped_of_clear rfl rfl rfl rfl rfl (fun k t' b' hkh hk hb => ?_) fun _ _ _ _ _ => rfl
  refine update_of_ne ?_ _ _
  rintro rfl
  exact hkh (hwired.apart k h t' t b' hk hh hb)

theorem IoInv.release_plain (hinv : IoInv dying w) (inner : Nat → World → World)
    (hl : w.ob.lookup h = some o) (hnot : ¬ dying h) (hlast : o.refCount = 1)
    (hplain : o.type = w.driverObjectType → o.body = 0)
    (hunlisted : ∀ a l, Listing w a l → o.body ∉ l) :
    IoInv dying (obDereferenceObject (host inner) h w) ∧
      Dropped h w (obDereferenceObject (host inner) h w) ∧
      (obDereferenceObject (host inner) h w).history = w.history ∧
      ∀ k, k ≠ h → (obDereferenceObject (host inner) h w).ob.lookup k = w.ob.lookup k := by
  obtain ⟨hbooks, hwired⟩ := hinv.releasedLast hl hnot hlast
  have hslot := slot_releasedLast hl
  have hlook : ∀ k, k ≠ h → ((Io.releasedLast w h o).ob.clear h).lookup k = w.ob.lookup k := by
    intro k hk
    rw [ObState.lookup_clear, if_neg hk, lookup_releasedLast hl, if_neg hk]
  have hh : slot (Io.releasedLast w h o) h = some (o.type, o.body) :=
    (hslot h).trans (slot_of_lookup hl)
  have hfrom : ∀ v', Dropped h (Io.releasedLast w h o) v' → Dropped h w v' := by
    intro v' hd
    refine ⟨fun k => ?_, hd.types.trans ?_, hd.next, hd.driverType, hd.deviceType,
      fun k t b hkh hk => ?_, hd.drivers, fun k x hkh hk => ?_⟩
    · rw [hd.slot, hslot]
    · simp [Io.releasedLast]
    · exact hd.live k t b hkh ((hslot k).trans hk)
    · exact hd.devices k x hkh ((hslot k).trans hk)
  have hfinish : ∀ v', v'.ob = (Io.releasedLast w h o).ob.clear h →
      Dropped h (Io.releasedLast w h o) v' → v'.fault = w.fault → v'.history = w.history →
      IoInv dying v' ∧ Dropped h w v' ∧ v'.history = w.history ∧
        ∀ k, k ≠ h → v'.ob.lookup k = w.ob.lookup k := by
    intro v' hob hd hfault hhist
    refine ⟨IoInv.dropped hbooks hwired (fun k hk => ?_) hnot hh hob hd
      (hfault.trans hinv.sane) fun a l hal => ?_, hfrom v' hd, hhist, fun k hk => ?_⟩
    · obtain ⟨a, ha, hs⟩ := hinv.leaving k hk
      exact ⟨a, ha, (hslot k).trans hs⟩
    · exact hunlisted a l ((listing_releasedLast hl).mp hal)
    · rw [hob]
      exact hlook k hk
  rw [dereference_last inner hinv.books hl hlast]
  by_cases hb : o.body = 0
  · simp only [hb, if_true]
    exact hfinish _ rfl (dropped_of_clear rfl rfl rfl rfl rfl (fun _ _ _ _ _ _ => rfl)
      fun _ _ _ _ _ => rfl) rfl rfl
  · simp only [hb, if_false]
    cases hproc : deleteProcOf w.ob o.type with
    | none => exact hfinish _ rfl (dropped_body hwired hh hb) rfl rfl
    | some proc =>
      cases proc with
      | ioDeleteDriverBody => exact absurd (hplain ((hinv.wired.driverProc _).mp hproc)) hb
      | ioDeleteDeviceBody =>
        have htype := (hinv.wired.deviceProc _).mp hproc
        rw [htype] at hh
        obtain ⟨hd, hob, hfault, hhist⟩ := dropped_device hwired hh hb
        exact hfinish _ (congrArg (ObState.clear · h) hob) hd hfault hhist
      | other n => exact hfinish _ rfl (dropped_body hwired hh hb) rfl rfl

end Releasing

end DiscouNT.Io
