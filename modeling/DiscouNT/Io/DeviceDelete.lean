import DiscouNT.Io.DeviceInv

/-!
# Io.DeviceDelete

Deleting devices and drivers keeps the invariant.

`IoDeleteDevice` takes a device off its list and gives one reference back. `IoDeleteDriverBody` does
so for every device of a driver, inside the `ObDereferenceObject` of the driver's own handle. What
that leaves of everything else is `Removal`, which composes along the list.
-/

namespace DiscouNT.Io

open Lib List
open Ob

/-- The devices `l` of the driver `a` were removed: their objects may be gone, and are when nobody
else held them. -/
structure Removal (a : Nat) (l : List Nat) (w w' : World) : Prop where
  lookup : ∀ k, (∀ d ∈ l, slot w k ≠ some (w.deviceObjectType, d)) → w'.ob.lookup k = w.ob.lookup k
  slot : ∀ k, Io.slot w' k = Io.slot w k ∨ Io.slot w' k = none
  gone : ∀ k o, w.ob.lookup k = some o → o.type = w.deviceObjectType → o.body ∈ l →
    o.refCount = 1 → w'.ob.lookup k = none
  stays : ∀ k o, w.ob.lookup k = some o → 2 ≤ o.refCount →
    ∃ o', w'.ob.lookup k = some o' ∧ SameObject o o'
  lists : ∀ b l', b ≠ a → Listing w b l' → Listing w' b l'
  devices : ∀ k d, Io.slot w' k = some (w.deviceObjectType, d) → d ≠ 0 →
    (w'.devices d).driver = (w.devices d).driver
  driverType : w'.driverObjectType = w.driverObjectType
  deviceType : w'.deviceObjectType = w.deviceObjectType
  next : w'.next = w.next
  history : ∀ e, e ∈ w'.history ↔ e ∈ w.history ∨ ∃ d ∈ l, e = .removed d

theorem slot_congr {w w' : World} {k : Nat} (h : w'.ob.lookup k = w.ob.lookup k) :
    slot w' k = slot w k := by
  unfold slot
  rw [h]

theorem slot_eq_none {w : World} {k : Nat} : slot w k = none ↔ w.ob.lookup k = none := by
  unfold slot
  simp

theorem Removal.refl (a : Nat) (w : World) : Removal a [] w w where
  lookup _ _ := rfl
  slot _ := .inl rfl
  gone _ _ _ _ h := by simp at h
  stays _ o h _ := ⟨o, h, .refl o⟩
  lists _ _ _ h := h
  devices _ _ _ _ := rfl
  driverType := rfl
  deviceType := rfl
  next := rfl
  history e := by simp

theorem Removal.cons {a d : Nat} {l : List Nat} {w w' w'' : World} (hd : d ∉ l)
    (h : Removal a [d] w w') (h' : Removal a l w' w'') : Removal a (d :: l) w w'' := by
  have hback : ∀ k t b, Io.slot w'' k = some (t, b) → Io.slot w' k = some (t, b) := by
    intro k t b hk
    rcases h'.slot k with hs | hs
    · exact hs.symm.trans hk
    · rw [hs] at hk
      cases hk
  have hfirst : ∀ k, Io.slot w k ≠ some (w.deviceObjectType, d) →
      w'.ob.lookup k = w.ob.lookup k := fun k hk => h.lookup k (by simpa using hk)
  refine ⟨fun k hk => ?_, fun k => ?_, fun k o hk ht hb hr => ?_, fun k o hk hr => ?_,
    fun b l' hb hl => h'.lists b l' hb (h.lists b l' hb hl), fun k x hk hx => ?_,
    h'.driverType.trans h.driverType, h'.deviceType.trans h.deviceType, h'.next.trans h.next,
    fun e => ?_⟩
  · have hd := hfirst k (hk d mem_cons_self)
    refine (h'.lookup k fun x hx => ?_).trans hd
    rw [slot_congr hd, h.deviceType]
    exact hk x (mem_cons_of_mem _ hx)
  · rcases h'.slot k with hs | hs
    · rw [hs]
      exact h.slot k
    · exact .inr hs
  · by_cases hbd : o.body = d
    · have hnone := h.gone k o hk ht (by simp [hbd]) hr
      refine (h'.lookup k fun x _ hx => ?_).trans hnone
      rw [slot_eq_none.mpr hnone] at hx
      cases hx
    · have hsame := hfirst k fun hs => by
        rw [slot_of_lookup hk, Option.some.injEq, Prod.mk.injEq] at hs
        exact hbd hs.2
      exact h'.gone k o (hsame.trans hk) (ht.trans h.deviceType.symm)
        ((mem_cons.mp hb).resolve_left hbd) hr
  · by_cases hs : Io.slot w k = some (w.deviceObjectType, d)
    · -- one reference is gone, and the rest of the list does not come back to it
      obtain ⟨o', ho', hsame⟩ := h.stays k o hk hr
      have hs' : Io.slot w' k = Io.slot w k := by
        rw [slot_of_lookup ho', slot_of_lookup hk, hsame.type, hsame.body]
      refine ⟨o', (h'.lookup k fun x hx hsx => ?_).trans ho', hsame⟩
      rw [hs', hs, Option.some.injEq, Prod.mk.injEq] at hsx
      exact hd (hsx.2 ▸ hx)
    · exact h'.stays k o ((hfirst k hs).trans hk) hr
  · have hk' := hback k _ x hk
    rw [h'.devices k x (by rw [h.deviceType]; exact hk) hx]
    exact h.devices k x hk' hx
  · rw [h'.history, h.history]
    simp only [mem_cons, not_mem_nil, or_false, exists_eq_left, exists_eq_or_imp]
    rw [or_assoc]

section Deleting

variable {w : World} {dying : Nat → Prop} {a d h k : Nat} {l : List Nat}
  (inner : Nat → World → World)

theorem IoInv.log (hinv : IoInv dying w) (e : DeviceEvent) : IoInv dying (w.log e) :=
  ⟨hinv.books, ⟨hinv.wired.start, hinv.wired.typesNe, hinv.wired.driverProc, hinv.wired.deviceProc,
    hinv.wired.bodies, hinv.wired.apart, fun k b hk hb => by
      obtain ⟨ht, hh, l, hl⟩ := hinv.wired.driver k b hk hb
      exact ⟨ht, hh, l, hl.chain, hl.owned⟩, hinv.wired.device, hinv.wired.extension⟩,
    hinv.sane, hinv.leaving⟩

theorem IoInv.unlink (hinv : IoInv dying w) (hh : slot w h = some (w.deviceObjectType, d))
    (hd0 : d ≠ 0) (ha : (w.devices d).driver = a) (hk : slot w k = some (w.driverObjectType, a))
    (hl : Listing w a l) :
    ∃ v, ioDeleteDevice (obDereferenceObject (host inner)) d w =
        obDereferenceObject (host inner) h v ∧
      IoInv dying v ∧ Relinked (w.log (.removed d)) v ∧ Listing v a (l.erase d) ∧
      ∀ b l', b ≠ a → Listing w b l' → Listing v b l' := by
  have hinv' := hinv.log (.removed d)
  obtain ⟨htype, hhandle, hdrv⟩ := hinv.wired.device h d hh hd0
  have ha0 : a ≠ 0 := ha ▸ hdrv
  have hlive := (hinv.wired.bodies k _ a hk).2 ha0
  obtain ⟨hrel, hlist, hothers⟩ :=
    unlinkDevice_spec hinv'.wired hlive (l := l) ⟨hl.chain, hl.owned⟩ hd0
  refine ⟨unlinkDevice a d (w.log (.removed d)), ?_, ⟨?_, ?_, ?_, fun j hj => ?_⟩, hrel, hlist,
    fun b l' hb hl' => hothers b l' hb ⟨hl'.chain, hl'.owned⟩⟩
  · unfold ioDeleteDevice
    rw [if_neg hd0, touch_of_live ((hinv.wired.bodies h _ d hh).2 hd0)]
    dsimp only
    rw [if_neg (by simp [htype])]
    have hdriver : ((w.log (.removed d)).devices d).driver = a := ha
    rw [hdriver, if_pos ha0, (hrel.device d).2.1]
    have hhandle' : ((w.log (.removed d)).devices d).handle = h := hhandle
    rw [hhandle']
  · rw [hrel.ob]
    exact hinv'.books
  · refine hinv'.wired.relinked hrel fun j b hj hb => ?_
    by_cases hba : b = a
    · exact ⟨l.erase d, hba ▸ hlist⟩
    · obtain ⟨_, _, l', hl'⟩ := hinv'.wired.driver j b hj hb
      exact ⟨l', hothers b l' hba hl'⟩
  · rw [hrel.fault]
    exact hinv'.sane
  · obtain ⟨b, hb, hs⟩ := hinv'.leaving j hj
    exact ⟨b, hb, by rw [hrel.slot, hrel.driverType]; exact hs⟩

theorem ioDeleteDevice_spec (hinv : IoInv dying w)
    (hh : slot w h = some (w.deviceObjectType, d)) (hd0 : d ≠ 0)
    (ha : (w.devices d).driver = a) (hk : slot w k = some (w.driverObjectType, a))
    (hl : Listing w a l) :
    IoInv dying (ioDeleteDevice (obDereferenceObject (host inner)) d w) ∧
      Removal a [d] w (ioDeleteDevice (obDereferenceObject (host inner)) d w) ∧
      Listing (ioDeleteDevice (obDereferenceObject (host inner)) d w) a (l.erase d) := by
  obtain ⟨v, heq, hv, hrel, hlist, hothers⟩ := hinv.unlink inner hh hd0 ha hk hl
  rw [heq]
  have hslot : ∀ j, slot v j = slot w j := hrel.slot
  have hdev : v.deviceObjectType = w.deviceObjectType := hrel.deviceType
  have hhv : slot v h = some (v.deviceObjectType, d) := by rw [hslot, hdev]; exact hh
  obtain ⟨o, ho, htype, hbody⟩ := lookup_of_slot hhv
  have hnot : ¬ dying h := hv.not_dying hhv hv.wired.typesNe.symm
  have hpos : o.refCount ≠ 0 := fun h0 => hnot ((hv.books.alive h o ho).mp h0)
  have howner : (v.devices d).driver = a := ((hrel.device d).2.2.1).trans ha
  have hlook : ∀ j, v.ob.lookup j = w.ob.lookup j := fun j => by rw [hrel.ob]; rfl
  have hhist : v.history = .removed d :: w.history := hrel.history
  -- `d` is on no list any more
  have hunlisted : ∀ b l', Listing v b l' → d ∉ l' := by
    intro b l' hl' hmem
    have hba : b = a := (hl'.owned d hmem).1.symm.trans howner
    subst hba
    rw [hl'.unique hlist] at hmem
    exact (hl.chain.nodup.mem_erase_iff.mp hmem).1 rfl
  by_cases hmore : 2 ≤ o.refCount
  · obtain ⟨hderef, hinv', hslot'⟩ := hv.release_more inner ho hnot hmore
    rw [hderef]
    have hlisting : ∀ b l', Listing v b l' → Listing { v with ob := v.ob.put h o.release } b l' :=
      fun b l' hl' => ⟨hl'.chain, fun x hx => ⟨(hl'.owned x hx).1, by
        obtain ⟨j, hj⟩ := (hl'.owned x hx).2
        exact ⟨j, (hslot' j).trans hj⟩⟩⟩
    have hput : ∀ j, j ≠ h → (v.ob.put h o.release).lookup j = w.ob.lookup j := by
      intro j hjh
      rw [ObState.lookup_put (ObState.lt_of_lookup ho), if_neg hjh]
      exact hlook j
    refine ⟨hinv', ⟨fun j hj => ?_, fun j => .inl ((hslot' j).trans (hslot j)), ?_,
      fun j p hj _ => ?_, fun b l' hb hl' => hlisting b l' (hothers b l' hb hl'),
      fun _ x _ _ => (hrel.device x).2.2.1, hrel.driverType, hdev, hrel.next, fun e => ?_⟩,
      hlisting a _ hlist⟩
    · refine hput j ?_
      rintro rfl
      exact hj d (by simp) hh
    · intro j p hj hpt hpb hpr
      exfalso
      rw [mem_singleton] at hpb
      have hjs : slot w j = some (w.deviceObjectType, d) := by
        rw [slot_of_lookup hj, hpt, hpb]
      have hjh : j = h := hinv.wired.apart j h _ _ d hjs hh hd0
      subst hjh
      rw [← hlook, ho] at hj
      cases hj
      omega
    · by_cases hjh : j = h
      · subst hjh
        rw [← hlook, ho] at hj
        cases hj
        exact ⟨o.release, (ObState.lookup_put (ObState.lt_of_lookup ho)).trans (if_pos rfl),
          sameObject_release o⟩
      · exact ⟨p, (hput j hjh).trans hj, .refl p⟩
    · change e ∈ v.history ↔ _
      rw [hhist]
      simp [or_comm]
  · have hlast : o.refCount = 1 := by omega
    obtain ⟨hinv', hdrop, hhist', hlook'⟩ := hv.release_plain inner ho hnot hlast
      (fun ht => absurd (htype.symm.trans ht).symm hv.wired.typesNe)
      (by rw [hbody]; exact hunlisted)
    have hlisting : ∀ b l', Listing v b l' →
        Listing (obDereferenceObject (host inner) h v) b l' := by
      intro b l' hl'
      refine hdrop.listing hl' fun x t hx => ?_
      rw [hhv] at hx
      cases hx
      exact hunlisted b l' hl'
    refine ⟨hinv', ⟨fun j hj => ?_, fun j => ?_, ?_, fun j p hj hp => ?_,
      fun b l' hb hl' => hlisting b l' (hothers b l' hb hl'), fun j x hj hx => ?_,
      hdrop.driverType.trans hrel.driverType, hdrop.deviceType.trans hdev,
      hdrop.next.trans hrel.next, fun e => ?_⟩, hlisting a _ hlist⟩
    · have hjh : j ≠ h := by
        rintro rfl
        exact hj d (by simp) hh
      exact (hlook' j hjh).trans (hlook j)
    · rw [hdrop.slot, hslot]
      split
      · exact .inr rfl
      · exact .inl rfl
    · intro j p hj hpt hpb _
      rw [mem_singleton] at hpb
      have hjs : slot w j = some (w.deviceObjectType, d) := by
        rw [slot_of_lookup hj, hpt, hpb]
      have hjh : j = h := hinv.wired.apart j h _ _ d hjs hh hd0
      rw [← slot_eq_none, hdrop.slot, if_pos hjh]
    · have hjh : j ≠ h := by
        rintro rfl
        rw [← hlook, ho] at hj
        cases hj
        omega
      exact ⟨p, ((hlook' j hjh).trans (hlook j)).trans hj, .refl p⟩
    · obtain ⟨hjh, hj⟩ := hdrop.slot_of hj
      rw [hdrop.devices j x hjh (by rw [hj, hdev]) hx]
      exact (hrel.device x).2.2.1
    · rw [hhist', hhist]
      simp [or_comm]

theorem drainDevices_spec (fuel : Nat) (hinv : IoInv dying w)
    (hk : slot w k = some (w.driverObjectType, a)) (hl : Listing w a l) (hfuel : l.length < fuel) :
    let w' := drainDevices (ioDeleteDevice (obDereferenceObject (host inner))) a fuel w
    IoInv dying w' ∧ Removal a l w w' ∧ Listing w' a [] := by
  induction l generalizing w fuel with
  | nil =>
    obtain ⟨fuel, rfl⟩ : ∃ f, fuel = f + 1 := ⟨fuel - 1, by omega⟩
    have hend : (w.drivers a).deviceList = 0 := hl.chain.1
    unfold drainDevices
    dsimp only
    rw [if_pos hend]
    exact ⟨hinv, .refl a w, hl⟩
  | cons d l ih =>
    obtain ⟨fuel, rfl⟩ : ∃ f, fuel = f + 1 := ⟨fuel - 1, by omega⟩
    have hhead : (w.drivers a).deviceList = d := hl.chain.1.1
    have hd0 : d ≠ 0 := hl.chain.2 d mem_cons_self
    obtain ⟨howner, h, hh⟩ := hl.owned d mem_cons_self
    obtain ⟨hinv', hrem, hl'⟩ := ioDeleteDevice_spec inner hinv hh hd0 howner hk hl
    rw [erase_cons_head] at hl'
    unfold drainDevices
    dsimp only
    rw [hhead, if_neg hd0]
    -- the driver is still at its handle
    have hk' : slot (ioDeleteDevice (obDereferenceObject (host inner)) d w) k =
        some ((ioDeleteDevice (obDereferenceObject (host inner)) d w).driverObjectType, a) := by
      rw [hrem.driverType, slot_congr (hrem.lookup k fun x _ hx => ?_)]
      · exact hk
      · rw [hk, Option.some.injEq, Prod.mk.injEq] at hx
        exact hinv.wired.typesNe hx.1
    simp only [length_cons] at hfuel
    obtain ⟨h1, h2, h3⟩ := ih fuel hinv' hk' hl' (by omega)
    exact ⟨h1, .cons (nodup_cons.mp hl.chain.nodup).1 hrem h2, h3⟩

theorem IoInv.release_driver {o : Object} (hinv : IoInv dying w) (ho : w.ob.lookup h = some o)
    (hnot : ¬ dying h) (hlast : o.refCount = 1) (htype : o.type = w.driverObjectType)
    (hbody : o.body = a) (ha : a ≠ 0) (hl : Listing w a l) :
    let w' := obDereferenceObject (host (obDereferenceObject (host inner))) h w
    IoInv dying w' ∧ ∃ u, Wired u ∧ Listing u a [] ∧ Removal a l (Io.releasedLast w h o) u ∧
      Dropped h u w' ∧ w'.history = u.history ∧ ∀ j, j ≠ h → w'.ob.lookup j = u.ob.lookup j := by
  obtain ⟨hbooks, hwired⟩ := hinv.releasedLast ho hnot hlast
  have hslot := slot_releasedLast ho
  have hh : slot (Io.releasedLast w h o) h = some (w.driverObjectType, a) := by
    rw [hslot, slot_of_lookup ho, htype, hbody]
  have hrel : IoInv (fun j => j = h ∨ dying j) (Io.releasedLast w h o) := by
    refine ⟨hbooks, hwired, hinv.sane, fun j hj => ?_⟩
    rcases hj with rfl | hj
    · exact ⟨a, ha, hh⟩
    · obtain ⟨b, hb, hs⟩ := hinv.leaving j hj
      exact ⟨b, hb, (hslot j).trans hs⟩
  have hl' : Listing (Io.releasedLast w h o) a l := (listing_releasedLast ho).mpr hl
  have hlive := (hwired.bodies h _ a hh).2 ha
  obtain ⟨hinv', hrem, hempty⟩ := drainDevices_spec inner ((Io.releasedLast w h o).next + 1) hrel hh hl'
    (Nat.lt_succ_of_le (hl'.length_le hwired))
  rw [dereference_last _ hinv.books ho hlast, hbody, if_neg ha, (hinv.wired.driverProc _).mpr htype]
  have hdelete : (host (obDereferenceObject (host inner))).delete .ioDeleteDriverBody a
      (Io.releasedLast w h o) = drainDevices
        (ioDeleteDevice (obDereferenceObject (host inner))) a ((Io.releasedLast w h o).next + 1)
        (Io.releasedLast w h o) := by
    have htouch := touch_of_live hlive
    change ioDeleteDriverBody _ a (Io.releasedLast w h o) = _
    unfold ioDeleteDriverBody
    rw [htouch]
  dsimp only
  rw [hdelete]
  generalize drainDevices (ioDeleteDevice (obDereferenceObject (host inner))) a
    ((Io.releasedLast w h o).next + 1) (Io.releasedLast w h o) = u at hinv' hrem hempty ⊢
  have hhu : slot u h = some (u.driverObjectType, a) := by
    rw [hrem.driverType, slot_congr (hrem.lookup h fun x _ hx => ?_)]
    · exact hh
    · rw [hh, Option.some.injEq, Prod.mk.injEq] at hx
      exact hinv.wired.typesNe hx.1
  have hdrop := dropped_body hinv'.wired hhu ha
  refine ⟨IoInv.dropped hinv'.books hinv'.wired (fun j hj => hinv'.leaving j (.inr hj)) hnot hhu rfl
    hdrop hinv'.sane fun b l' hl' => hinv'.wired.not_listed hhu hinv'.wired.typesNe hl', u,
    hinv'.wired, hempty, hrem, hdrop, rfl, fun j hj => ?_⟩
  change (u.ob.clear h).lookup j = _
  rw [ObState.lookup_clear, if_neg hj]

end Deleting

/-! ## `ObDereferenceObject` -/

section Dereference

variable {w : World} {h : Nat} {o : Object}

theorem dereferenceAt_succ (depth : Nat) :
    dereferenceAt (depth + 1) = obDereferenceObject (host (dereferenceAt depth)) := rfl

theorem dereference_eq : dereference =
    obDereferenceObject (host (obDereferenceObject (host (dereferenceAt (maxObjects - 1))))) := by
  funext handle w
  unfold dereference
  rw [dereferenceAt_succ]
  congr 2

def Listed (w : World) (d : Nat) : Prop :=
  ∃ a l, Listing w a l ∧ d ∈ l

abbrev Quiet (w : World) : Prop := IoInv (fun _ => False) w

def Survives (w w' : World) : Prop :=
  ∀ k o, w.ob.lookup k = some o → 2 ≤ o.refCount → ∃ o', w'.ob.lookup k = some o' ∧ SameObject o o'

theorem Survives.of_lookup {w w' : World} (h : ∀ k, w'.ob.lookup k = w.ob.lookup k) :
    Survives w w' :=
  fun k o hk _ => ⟨o, (h k).trans hk, .refl o⟩

theorem Survives.of_put {ob' : ObState DeleteProc} {o' : Object} (ho : w.ob.lookup h = some o)
    (hput : ob' = w.ob.put h o') (hsame : SameObject o o') : Survives w { w with ob := ob' } := by
  intro k p hk _
  by_cases hkh : k = h
  · subst hkh
    rw [ho] at hk
    cases hk
    exact ⟨o', by rw [hput, ObState.lookup_put (ObState.lt_of_lookup ho), if_pos rfl], hsame⟩
  · refine ⟨p, ?_, .refl p⟩
    rw [hput, ObState.lookup_put (ObState.lt_of_lookup ho), if_neg hkh]
    exact hk

theorem Quiet.dereference (hinv : Quiet w)
    (hheld : ∀ o, w.ob.lookup h = some o → o.refCount = 1 → ¬ Listed w o.body) :
    Quiet (Io.dereference h w) ∧ Survives w (Io.dereference h w) := by
  rw [dereference_eq]
  generalize dereferenceAt (maxObjects - 1) = inner
  cases ho : w.ob.lookup h with
  | none =>
    rw [obDereferenceObject_host, ho]
    exact ⟨hinv, .of_lookup fun _ => rfl⟩
  | some o =>
    have hpos : o.refCount ≠ 0 := fun h0 => (hinv.books.alive h o ho).mp h0
    by_cases hmore : 2 ≤ o.refCount
    · obtain ⟨heq, hinv', _⟩ :=
        hinv.release_more (obDereferenceObject (host inner)) ho not_false hmore
      rw [heq]
      exact ⟨hinv', .of_put ho rfl (sameObject_release o)⟩
    · have hlast : o.refCount = 1 := by omega
      -- only the object at `h` had no second reference
      have hne : ∀ k p, w.ob.lookup k = some p → 2 ≤ p.refCount → k ≠ h := by
        rintro k p hk hp rfl
        rw [ho] at hk
        cases hk
        exact hmore hp
      by_cases hdriver : o.type = w.driverObjectType ∧ o.body ≠ 0
      · obtain ⟨htype, hbody⟩ := hdriver
        have hs := slot_of_lookup ho
        rw [htype] at hs
        obtain ⟨_, _, l, hl⟩ := hinv.wired.driver h o.body hs hbody
        obtain ⟨hinv', u, _, _, hrem, _, _, hlook⟩ :=
          hinv.release_driver inner ho not_false hlast htype rfl hbody hl
        refine ⟨hinv', fun k p hk hp => ?_⟩
        have hkh := hne k p hk hp
        have hk' : (releasedLast w h o).ob.lookup k = some p := by
          rw [lookup_releasedLast ho, if_neg hkh]
          exact hk
        obtain ⟨p', hp', hsame⟩ := hrem.stays k p hk' hp
        exact ⟨p', (hlook k hkh).trans hp', hsame⟩
      · obtain ⟨hinv', _, _, hlook⟩ := hinv.release_plain (obDereferenceObject (host inner)) ho
          not_false hlast (fun ht => by_contra fun hb => hdriver ⟨ht, hb⟩)
          fun a l hl hmem => hheld o ho hlast ⟨a, l, hl, hmem⟩
        exact ⟨hinv', fun k p hk hp => ⟨p, (hlook k (hne k p hk hp)).trans hk, .refl p⟩⟩

end Dereference

end DiscouNT.Io
