import DiscouNT.Io.DeviceDelete

/-!
# Io.DeviceCreate

Creating drivers, devices and other objects keeps the invariant.

A call that fails has only written memory it allocated itself (`Prepared`). One that succeeds has
also put an object into a free slot (`Added`), whose body is memory that was not in use before.
-/

namespace DiscouNT.Io

open Lib List Function
open Ob

/-- From `w` to `w'` only memory that was new was written. -/
structure Prepared (w w' : World) : Prop where
  ob : w'.ob = w.ob
  driverType : w'.driverObjectType = w.driverObjectType
  deviceType : w'.deviceObjectType = w.deviceObjectType
  fault : w'.fault = w.fault
  history : w'.history = w.history
  next : w.next ≤ w'.next
  live : ∀ b, b < w.next → w'.live b = w.live b
  drivers : ∀ b, b < w.next → w'.drivers b = w.drivers b
  devices : ∀ b, b < w.next → w'.devices b = w.devices b

structure Added (i t b : Nat) (w w' : World) : Prop where
  free : slot w i = none
  slot : ∀ k, Io.slot w' k = if k = i then some (t, b) else Io.slot w k
  types : w'.ob.objectTypes = w.ob.objectTypes
  driverType : w'.driverObjectType = w.driverObjectType
  deviceType : w'.deviceObjectType = w.deviceObjectType
  next : w.next ≤ w'.next
  live : ∀ x, x < w.next → w'.live x = w.live x
  fresh : b ≠ 0 → w.next ≤ b ∧ b < w'.next ∧ w'.live b = true
  drivers : ∀ x, x < w.next → (w'.drivers x).type = (w.drivers x).type ∧
    (w'.drivers x).handle = (w.drivers x).handle
  devices : ∀ x, x < w.next → w'.devices x = w.devices x

section Frames

variable {w w' w'' : World} {a i t b : Nat} {l : List Nat}

theorem Prepared.refl (w : World) : Prepared w w :=
  ⟨rfl, rfl, rfl, rfl, rfl, le_rfl, fun _ _ => rfl, fun _ _ => rfl, fun _ _ => rfl⟩

section

variable (hp : Prepared w w')
include hp

theorem Prepared.kfree (hb : w.next ≤ b) : Prepared w (w'.kfree b) := by
  refine ⟨hp.ob, hp.driverType, hp.deviceType, hp.fault, hp.history, hp.next, fun x hx => ?_,
    hp.drivers, hp.devices⟩
  have hne : x ≠ b := by omega
  exact (update_of_ne hne _ _).trans (hp.live x hx)

theorem Prepared.setDriver (hb : w.next ≤ b) (d : Driver) :
    Prepared w (w'.setDriver b d) := by
  refine ⟨hp.ob, hp.driverType, hp.deviceType, hp.fault, hp.history, hp.next, hp.live,
    fun x hx => ?_, hp.devices⟩
  have hne : x ≠ b := by omega
  exact (update_of_ne hne _ _).trans (hp.drivers x hx)

theorem Prepared.setDevice (hb : w.next ≤ b) (d : Device) :
    Prepared w (w'.setDevice b d) := by
  refine ⟨hp.ob, hp.driverType, hp.deviceType, hp.fault, hp.history, hp.next, hp.live, hp.drivers,
    fun x hx => ?_⟩
  have hne : x ≠ b := by omega
  exact (update_of_ne hne _ _).trans (hp.devices x hx)

theorem Prepared.ticks (n : Nat) : Prepared w { w' with ticks := n } :=
  ⟨hp.ob, hp.driverType, hp.deviceType, hp.fault, hp.history, hp.next, hp.live, hp.drivers,
    hp.devices⟩

theorem Prepared.alloc (n : Nat) : Prepared w { w' with
    live := update w'.live w'.next true
    next := w'.next + 1
    ticks := n } := by
  refine ⟨hp.ob, hp.driverType, hp.deviceType, hp.fault, hp.history,
    hp.next.trans (Nat.le_succ _), fun x hx => ?_, hp.drivers, hp.devices⟩
  have hne : x ≠ w'.next := (lt_of_lt_of_le hx hp.next).ne
  exact (update_of_ne hne _ _).trans (hp.live x hx)

theorem Prepared.slot (k : Nat) : Io.slot w' k = Io.slot w k :=
  slot_congr (by rw [hp.ob])

end

theorem Prepared.listing (hw : Wired w) (hp : Prepared w w') (ha : a < w.next)
    (hl : Listing w a l) : Listing w' a l := by
  refine ⟨?_, fun x hx => ?_⟩
  · rw [hp.drivers a ha]
    refine hl.chain.congr fun x hx => ?_
    unfold nextDevice
    rw [hp.devices x (hl.live hw hx).2.1]
  · obtain ⟨hd, k, hk⟩ := hl.owned x hx
    refine ⟨by rw [hp.devices x (hl.live hw hx).2.1]; exact hd, k, ?_⟩
    rw [hp.slot, hp.deviceType]
    exact hk

theorem Prepared.wired (hw : Wired w) (hp : Prepared w w') : Wired w' := by
  have hslot := hp.slot
  have hproc := deleteProcOf_congr (show w'.ob.objectTypes = w.ob.objectTypes by rw [hp.ob])
  have hbound := hp.next
  refine ⟨lt_of_lt_of_le hw.start hbound, ?_, fun t => ?_, fun t => ?_, fun k t b hk => ?_,
    fun k k' t t' b hk hk' => ?_, fun k b hk hb => ?_, fun k x hk hx => ?_, fun k x hk hx => ?_⟩
  · rw [hp.driverType, hp.deviceType]
    exact hw.typesNe
  · rw [hproc, hp.driverType]
    exact hw.driverProc t
  · rw [hproc, hp.deviceType]
    exact hw.deviceProc t
  · rw [hslot] at hk
    obtain ⟨hlt, hlive⟩ := hw.bodies k t b hk
    exact ⟨lt_of_lt_of_le hlt hbound, fun hb => by rw [hp.live b hlt]; exact hlive hb⟩
  · rw [hslot] at hk hk'
    exact hw.apart k k' t t' b hk hk'
  · rw [hslot, hp.driverType] at hk
    obtain ⟨htype, hhandle, l, hl⟩ := hw.driver k b hk hb
    have hlt := (hw.bodies k _ b hk).1
    rw [hp.drivers b hlt]
    exact ⟨htype, hhandle, l, hp.listing hw hlt hl⟩
  · rw [hslot, hp.deviceType] at hk
    rw [hp.devices x (hw.bodies k _ x hk).1]
    exact hw.device k x hk hx
  · rw [hslot, hp.deviceType] at hk
    rw [hp.devices x (hw.bodies k _ x hk).1]
    obtain ⟨hlt, hne⟩ := hw.extension k x hk hx
    refine ⟨lt_of_lt_of_le hlt hbound, fun k' t b hk' => ?_⟩
    rw [hslot] at hk'
    exact hne k' t b hk'

theorem Quiet.prepared (hinv : Quiet w) (hp : Prepared w w') : Quiet w' :=
  ⟨by rw [hp.ob]; exact hinv.books, hp.wired hinv.wired, hp.fault.trans hinv.sane,
    fun _ hk => hk.elim⟩

theorem Added.slot_old (hadd : Added i t b w w') {k : Nat} {x : Nat × Nat}
    (hk : Io.slot w k = some x) : Io.slot w' k = some x := by
  have hki : k ≠ i := by
    rintro rfl
    rw [hadd.free] at hk
    cases hk
  rw [hadd.slot, if_neg hki]
  exact hk

theorem Added.slot_cases (hadd : Added i t b w w') {k : Nat} {x : Nat × Nat}
    (hk : Io.slot w' k = some x) : (k = i ∧ x = (t, b)) ∨ Io.slot w k = some x := by
  rw [hadd.slot] at hk
  split at hk
  · exact .inl ⟨by assumption, (Option.some.inj hk).symm⟩
  · exact .inr hk

theorem Added.listing (hw : Wired w) (hadd : Added i t b w w')
    (hhead : (w'.drivers a).deviceList = (w.drivers a).deviceList) (hl : Listing w a l) :
    Listing w' a l := by
  refine ⟨?_, fun x hx => ?_⟩
  · rw [hhead]
    refine hl.chain.congr fun x hx => ?_
    unfold nextDevice
    rw [hadd.devices x (hl.live hw hx).2.1]
  · obtain ⟨hd, k, hk⟩ := hl.owned x hx
    rw [hadd.devices x (hl.live hw hx).2.1, hadd.deviceType]
    exact ⟨hd, k, hadd.slot_old hk⟩

theorem Added.wired (hw : Wired w) (hadd : Added i t b w w')
    (hlists : ∀ k c, Io.slot w k = some (w.driverObjectType, c) → c ≠ 0 → ∃ l, Listing w' c l)
    (hdriver : t = w.driverObjectType → b ≠ 0 → (w'.drivers b).type = ioTypeDriver ∧
      (w'.drivers b).handle = i ∧ ∃ l, Listing w' b l)
    (hdevice : t = w.deviceObjectType → b ≠ 0 → (w'.devices b).type = ioTypeDevice ∧
      (w'.devices b).handle = i ∧ (w'.devices b).driver ≠ 0)
    (hextension : t = w.deviceObjectType → b ≠ 0 → (w'.devices b).deviceExtension < w'.next ∧
      ((w'.devices b).deviceExtension = 0 ∨ w.next ≤ (w'.devices b).deviceExtension ∧
        (w'.devices b).deviceExtension ≠ b)) : Wired w' := by
  have hproc := deleteProcOf_congr hadd.types
  have hbound := hadd.next
  refine ⟨lt_of_lt_of_le hw.start hbound, ?_, fun t' => ?_, fun t' => ?_, fun k t' x hk => ?_,
    fun k k' t' t'' x hk hk' hx => ?_, fun k x hk hx => ?_, fun k x hk hx => ?_,
    fun k x hk hx => ?_⟩
  · rw [hadd.driverType, hadd.deviceType]
    exact hw.typesNe
  · rw [hproc, hadd.driverType]
    exact hw.driverProc t'
  · rw [hproc, hadd.deviceType]
    exact hw.deviceProc t'
  · rcases hadd.slot_cases hk with ⟨_, heq⟩ | hk
    · cases heq
      by_cases hb : b = 0
      · subst hb
        exact ⟨lt_of_lt_of_le hw.start hbound, fun h => absurd rfl h⟩
      · exact ⟨(hadd.fresh hb).2.1, fun _ => (hadd.fresh hb).2.2⟩
    · obtain ⟨hlt, hlive⟩ := hw.bodies k t' x hk
      exact ⟨lt_of_lt_of_le hlt hbound, fun hx => by rw [hadd.live x hlt]; exact hlive hx⟩
  · -- the body of the new object is nobody else's
    have hnew : ∀ j u, x = b → Io.slot w j ≠ some (u, x) := by
      rintro j u rfl hj
      exact absurd (hw.bodies j u x hj).1 (not_lt.mpr (hadd.fresh hx).1)
    rcases hadd.slot_cases hk with ⟨rfl, heq⟩ | hk
    · cases heq
      rcases hadd.slot_cases hk' with ⟨rfl, _⟩ | hk'
      · rfl
      · exact absurd hk' (hnew k' t'' rfl)
    · rcases hadd.slot_cases hk' with ⟨rfl, heq⟩ | hk'
      · cases heq
        exact absurd hk (hnew k t' rfl)
      · exact hw.apart k k' t' t'' x hk hk' hx
  · rw [hadd.driverType] at hk
    rcases hadd.slot_cases hk with ⟨rfl, heq⟩ | hk
    · rw [Prod.mk.injEq] at heq
      obtain ⟨ht, rfl⟩ := heq
      exact hdriver ht.symm hx
    · obtain ⟨htype, hhandle, _⟩ := hw.driver k x hk hx
      obtain ⟨e1, e2⟩ := hadd.drivers x (hw.bodies k _ x hk).1
      exact ⟨e1.trans htype, e2.trans hhandle, hlists k x hk hx⟩
  · rw [hadd.deviceType] at hk
    rcases hadd.slot_cases hk with ⟨rfl, heq⟩ | hk
    · rw [Prod.mk.injEq] at heq
      obtain ⟨ht, rfl⟩ := heq
      exact hdevice ht.symm hx
    · rw [hadd.devices x (hw.bodies k _ x hk).1]
      exact hw.device k x hk hx
  · rw [hadd.deviceType] at hk
    rcases hadd.slot_cases hk with ⟨rfl, heq⟩ | hk
    · rw [Prod.mk.injEq] at heq
      obtain ⟨ht, rfl⟩ := heq
      obtain ⟨hlt, hzero | ⟨hge, hne⟩⟩ := hextension ht.symm hx
      · exact ⟨hlt, fun k' t' c _ hc => by rw [hzero]; exact hc⟩
      · refine ⟨hlt, fun k' t' c hk' _ hc => ?_⟩
        rcases hadd.slot_cases hk' with ⟨_, heq⟩ | hk'
        · cases heq
          exact hne hc.symm
        · have := (hw.bodies k' t' c hk').1
          omega
    · rw [hadd.devices x (hw.bodies k _ x hk).1]
      obtain ⟨hlt, hne⟩ := hw.extension k x hk hx
      refine ⟨lt_of_lt_of_le hlt hbound, fun k' t' c hk' hc hext => ?_⟩
      rcases hadd.slot_cases hk' with ⟨_, heq⟩ | hk'
      · cases heq
        have := (hadd.fresh hc).1
        omega
      · exact hne k' t' c hk' hc hext

end Frames

/-! ## Allocation -/

section Allocation

variable {alloc : Allocator} {w : World}

theorem kmalloc_cases (alloc : Allocator) (size : Nat) (w : World) :
    w.kmalloc alloc size = (0, { w with ticks := w.ticks + 1 }) ∨
    w.kmalloc alloc size = (w.next, { w with
      live := update w.live w.next true
      next := w.next + 1
      ticks := w.ticks + 1 }) := by
  unfold World.kmalloc
  split
  · exact .inr rfl
  · exact .inl rfl

theorem createObject_cases (alloc : Allocator) (t : Nat) (name : Option Name) (b size : Nat)
    (w : World) :
    w.createObject alloc t name b size = (invalidHandle, { w with ticks := w.ticks + 1 }) ∨
    ∃ i ob', w.createObject alloc t name b size = (i, { w with ob := ob', ticks := w.ticks + 1 }) ∧
      i ≠ invalidHandle ∧ w.ob.lookup i = none ∧
      (∀ k, k ≠ i → ob'.lookup k = w.ob.lookup k) ∧
      (∃ o, ob'.lookup i = some o ∧ o.type = t ∧ o.body = b ∧ o.refCount = 1) ∧
      ob'.objectTypes = w.ob.objectTypes ∧
      (Accounted (fun _ => False) w.ob → Accounted (fun _ => False) ob') := by
  have hcreate : w.createObject alloc t name b size =
      ((obCreateObject (alloc w.ticks sizeofObject) t name b size w.ob).1, { w with
        ob := (obCreateObject (alloc w.ticks sizeofObject) t name b size w.ob).2
        ticks := w.ticks + 1 }) := rfl
  have hbooks : Accounted (fun _ => False) w.ob →
      Accounted (fun _ => False) (obCreateObject (alloc w.ticks sizeofObject) t name b size w.ob).2 :=
    fun hacc => hacc.create (fun _ _ h => h) _ _ _ _ _
  rw [hcreate]
  rcases obCreateObject_cases (alloc w.ticks sizeofObject) t name b size w.ob with
    hno | ⟨i, hi, hfree, _, hyes⟩
  · left
    rw [hno]
  · right
    refine ⟨i, _, by rw [hyes], lt_invalidHandle hi, ?_, fun k hk => ?_, ?_, ?_, hbooks⟩
    · rw [ObState.lookup, if_pos hi]
      exact hfree
    · rw [hyes]
      exact (ObState.lookup_put hi).trans (if_neg hk)
    · rw [hyes]
      exact ⟨_, (ObState.lookup_put hi).trans (if_pos rfl), rfl, rfl, rfl⟩
    · rw [hyes]
      rfl

theorem slot_created {ob' : ObState DeleteProc} {w w' : World} {i t b : Nat} (hob : w'.ob = ob')
    (hother : ∀ k, k ≠ i → ob'.lookup k = w.ob.lookup k)
    (hnew : ∃ o, ob'.lookup i = some o ∧ o.type = t ∧ o.body = b ∧ o.refCount = 1) (k : Nat) :
    slot w' k = if k = i then some (t, b) else slot w k := by
  by_cases hk : k = i
  · subst hk
    obtain ⟨o, ho, rfl, rfl, _⟩ := hnew
    rw [if_pos rfl]
    exact slot_of_lookup (by rw [hob]; exact ho)
  · rw [if_neg hk]
    exact slot_congr (by rw [hob]; exact hother k hk)

end Allocation

/-! ## The creating calls -/

section Creating

variable {alloc : Allocator} {w : World} {a k : Nat} {l : List Nat}

theorem ioCreateDriver_spec (alloc : Allocator) (name : Option Name) (hinv : Quiet w) :
    let w' := (ioCreateDriver alloc name w).2
    Quiet w' ∧ w'.history = w.history ∧ (Prepared w w' ∨
      ∃ i, Added i w.driverObjectType w.next w w' ∧ Listing w' w.next [] ∧
        (∀ k, k ≠ i → w'.ob.lookup k = w.ob.lookup k) ∧
        (∀ o, w'.ob.lookup i = some o → o.refCount = 1) ∧
        ∀ x, x < w.next → w'.drivers x = w.drivers x) := by
  have hfail : ∀ w', Prepared w w' → Quiet w' ∧ w'.history = w.history ∧ (Prepared w w' ∨
      ∃ i, Added i w.driverObjectType w.next w w' ∧ Listing w' w.next [] ∧
        (∀ k, k ≠ i → w'.ob.lookup k = w.ob.lookup k) ∧
        (∀ o, w'.ob.lookup i = some o → o.refCount = 1) ∧
        ∀ x, x < w.next → w'.drivers x = w.drivers x) :=
    fun w' hp => ⟨hinv.prepared hp, hp.history, .inl hp⟩
  have hnext : w.next ≠ 0 := Nat.pos_iff_ne_zero.mp hinv.wired.start
  have hold : ∀ {x}, x < w.next → x ≠ w.next := fun hx => by omega
  unfold ioCreateDriver
  split
  · exact hfail w (.refl w)
  · rcases kmalloc_cases alloc sizeofDriver w with hm | hm
    · rw [hm]
      exact hfail _ ((Prepared.refl w).ticks _)
    rw [hm]
    dsimp only
    rw [if_neg hnext]
    generalize hv : World.setDriver w.next ⟨ioTypeDriver, 0, 0, fun _ => 0, fun _ => 0⟩ { w with
      live := update w.live w.next true
      next := w.next + 1
      ticks := w.ticks + 1 } = v
    have hvob : v.ob = w.ob := by rw [← hv]; rfl
    rcases createObject_cases alloc w.driverObjectType name w.next sizeofDriver v with
      hc | ⟨i, ob', hc, hi, hfree, hother, hnew, htypes, hbooks⟩
    · rw [hc]
      dsimp only
      rw [if_pos rfl]
      have hprep : Prepared w v := hv ▸ ((Prepared.refl w).alloc _).setDriver le_rfl _
      exact hfail _ ((hprep.ticks _).kfree le_rfl)
    · rw [hc]
      dsimp only
      rw [if_neg hi]
      rw [hvob] at hfree hother htypes hbooks
      subst hv
      have hslot : ∀ w', w'.ob = ob' → ∀ k, slot w' k = if k = i then
          some (w.driverObjectType, w.next) else slot w k :=
        fun w' hob => slot_created hob hother hnew
      generalize hw' : World.setDriver w.next _ _ = w'
      have hadd : Added i w.driverObjectType w.next w w' := by
        subst hw'
        exact ⟨slot_eq_none.mpr hfree, hslot _ rfl, htypes, rfl, rfl, Nat.le_succ _,
          fun x hx => update_of_ne (hold hx) _ _,
          fun _ => ⟨le_rfl, Nat.lt_succ_self _, update_self _ _ _⟩,
          fun x hx => by simp [World.setDriver, hold hx], fun _ _ => rfl⟩
      have hdrivers : ∀ x, x < w.next → w'.drivers x = w.drivers x := by
        subst hw'
        intro x hx
        exact (update_of_ne (hold hx) _ _).trans (update_of_ne (hold hx) _ _)
      have hrecord : w'.drivers w.next = ⟨ioTypeDriver, i, 0, fun _ => 0, fun _ => 0⟩ := by
        subst hw'
        exact update_self _ _ _
      have hlisting : Listing w' w.next [] := ⟨⟨by rw [hrecord]; rfl, by simp⟩, by simp⟩
      have hob : w'.ob = ob' := by
        subst hw'
        rfl
      have hfault : w'.fault = w.fault := by
        subst hw'
        rfl
      have hhist : w'.history = w.history := by
        subst hw'
        rfl
      refine ⟨⟨by rw [hob]; exact hbooks hinv.books, ?_, hfault.trans hinv.sane,
        fun _ h => h.elim⟩, hhist, .inr ⟨i, hadd, hlisting, fun k hk => ?_, fun o ho => ?_,
        hdrivers⟩⟩
      · refine hadd.wired hinv.wired (fun k c hk hc => ?_) (fun _ _ => ?_)
          (fun ht => absurd ht hinv.wired.typesNe) fun ht => absurd ht hinv.wired.typesNe
        · obtain ⟨_, _, l, hl⟩ := hinv.wired.driver k c hk hc
          refine ⟨l, hadd.listing hinv.wired ?_ hl⟩
          rw [hdrivers c (hinv.wired.bodies k _ c hk).1]
        · rw [hrecord]
          exact ⟨rfl, rfl, [], hlisting⟩
      · rw [hob]
        exact hother k hk
      · rw [hob] at ho
        obtain ⟨o', ho', _, _, hr⟩ := hnew
        rw [ho] at ho'
        cases ho'
        exact hr

theorem allocExtension_cases (alloc : Allocator) (size : Nat) (v : World) :
    ∃ e v', allocExtension alloc size v = (e, v') ∧ (∀ w, Prepared w v → Prepared w v') ∧
      v'.drivers = v.drivers ∧ v'.devices = v.devices ∧ v.next ≤ v'.next ∧
      (∀ x, x < v.next → v'.live x = v.live x) ∧ (e = 0 ∨ v.next ≤ e ∧ e < v'.next) := by
  unfold allocExtension
  split
  · exact ⟨0, v, rfl, fun _ h => h, rfl, rfl, le_rfl, fun _ _ => rfl, .inl rfl⟩
  · rcases kmalloc_cases alloc size v with hm | hm
    · exact ⟨_, _, hm, fun _ h => h.ticks _, rfl, rfl, le_rfl, fun _ _ => rfl, .inl rfl⟩
    · exact ⟨_, _, hm, fun _ h => h.alloc _, rfl, rfl, Nat.le_succ _,
        fun x hx => update_of_ne (by omega) _ _, .inr ⟨le_rfl, Nat.lt_succ_self _⟩⟩

structure NewDevice (a i : Nat) (w w' : World) : Prop where
  added : Added i w.deviceObjectType w.next w w'
  other : ∀ k, k ≠ i → w'.ob.lookup k = w.ob.lookup k
  refs : ∀ o, w'.ob.lookup i = some o → o.refCount = 1
  owner : (w'.devices w.next).driver = a
  listing : ∀ l, Listing w a l → Listing w' a (w.next :: l)
  lists : ∀ b l, b < w.next → b ≠ a → Listing w b l → Listing w' b l
  history : w'.history = .created w.next a :: w.history

theorem ioCreateDevice_spec (alloc : Allocator) (name : Option Name) (size : Nat) (hinv : Quiet w)
    (hk : slot w k = some (w.driverObjectType, a)) :
    let w' := (ioCreateDevice alloc a name size w).2
    Quiet w' ∧ (Prepared w w' ∨ ∃ i, NewDevice a i w w') := by
  have hfail : ∀ w', Prepared w w' → Quiet w' ∧ (Prepared w w' ∨ ∃ i, NewDevice a i w w') :=
    fun w' hp => ⟨hinv.prepared hp, .inl hp⟩
  have hnext : w.next ≠ 0 := Nat.pos_iff_ne_zero.mp hinv.wired.start
  unfold ioCreateDevice
  split
  · exact hfail w (.refl w)
  rename_i ha
  obtain ⟨halt, halive⟩ := hinv.wired.bodies k _ a hk
  rw [touch_of_live (halive ha)]
  dsimp only
  split
  · exact hfail w (.refl w)
  split
  · exact hfail w (.refl w)
  rcases kmalloc_cases alloc sizeofDevice w with hm | hm
  · rw [hm]
    exact hfail _ ((Prepared.refl w).ticks _)
  rw [hm]
  dsimp only
  rw [if_neg hnext]
  generalize hu : ({ w with
    live := update w.live w.next true
    next := w.next + 1
    ticks := w.ticks + 1 } : World) = u
  have hprepu : Prepared w u := hu ▸ (Prepared.refl w).alloc _
  have hunext : u.next = w.next + 1 := by rw [← hu]
  have hulive : u.live w.next = true := by
    rw [← hu]
    exact update_self _ _ _
  obtain ⟨e, v, he, hkeep, hdrivers, _, hvnext, hvlive, hfresh⟩ := allocExtension_cases alloc size u
  have hprep := hkeep w hprepu
  rw [he]
  dsimp only
  split
  · exact hfail _ (hprep.kfree le_rfl)
  have hprepd := hprep.setDevice le_rfl ⟨ioTypeDevice, a, e, 0, 0⟩
  rw [hprep.deviceType]
  rcases createObject_cases alloc w.deviceObjectType name w.next sizeofDevice
    (World.setDevice w.next ⟨ioTypeDevice, a, e, 0, 0⟩ v) with
    hc | ⟨i, ob', hc, hi, hfree, hother, hnew, htypes, hbooks⟩
  · rw [hc]
    dsimp only
    rw [if_pos rfl]
    have hge : e ≠ 0 → w.next ≤ e := fun h0 => by
      have := hfresh.resolve_left h0
      omega
    split
    · exact hfail _ ((hprepd.ticks _).kfree le_rfl)
    · rename_i h0
      exact hfail _ (((hprepd.ticks _).kfree (hge h0)).kfree le_rfl)
  · rw [hc]
    dsimp only
    rw [if_neg hi]
    rw [hprepd.ob] at hfree hother htypes hbooks
    have hva : v.drivers a = w.drivers a := hprep.drivers a halt
    generalize hw' : World.log _ _ = w'
    have hob : w'.ob = ob' := by
      subst hw'
      rfl
    have hfault : w'.fault = w.fault := by
      subst hw'
      exact hprep.fault
    have hhist : w'.history = .created w.next a :: w.history := by
      subst hw'
      exact congrArg _ hprep.history
    have hdrv : w'.drivers = update v.drivers a
        { v.drivers a with deviceList := w.next } := by
      subst hw'
      rfl
    have hdev : w'.devices w.next =
        ⟨ioTypeDevice, a, e, (w.drivers a).deviceList, i⟩ := by
      rw [← hva]
      subst hw'
      exact update_self _ _ _
    have hrecord : ∀ x, x < w.next → w'.devices x = w.devices x := by
      intro x hx
      subst hw'
      exact (update_of_ne hx.ne _ _).trans (hprepd.devices x hx)
    have hother' : ∀ b, b ≠ a → w'.drivers b = v.drivers b := by
      intro b hb
      rw [hdrv]
      exact update_of_ne hb _ _
    have hheadA : (w'.drivers a).deviceList = w.next := by
      rw [hdrv, update_self]
    have hadd : Added i w.deviceObjectType w.next w w' := by
      refine ⟨slot_eq_none.mpr hfree, slot_created hob hother hnew, by rw [hob]; exact htypes, ?_, ?_,
        ?_, fun x hx => ?_, fun _ => ?_, fun x hx => ?_, hrecord⟩
      · subst hw'
        exact hprep.driverType
      · subst hw'
        exact hprep.deviceType
      · subst hw'
        exact hprep.next
      · subst hw'
        exact hprep.live x hx
      · subst hw'
        exact ⟨le_rfl, lt_of_lt_of_le (by omega) hvnext, (hvlive w.next (by omega)).trans hulive⟩
      · by_cases hxa : x = a
        · subst hxa
          rw [hdrv, update_self, hva]
          exact ⟨rfl, rfl⟩
        · rw [hother' x hxa, hprep.drivers x hx]
          exact ⟨rfl, rfl⟩
    have hlisting : ∀ l, Listing w a l → Listing w' a (w.next :: l) := by
      intro l hl
      have hnextd : nextDevice w' w.next = (w.drivers a).deviceList := by
        unfold nextDevice
        rw [hdev]
      refine ⟨⟨⟨hheadA, ?_⟩, fun x hx => ?_⟩, fun x hx => ?_⟩
      · rw [hnextd]
        refine hl.chain.1.congr fun x hx => ?_
        unfold nextDevice
        rw [hrecord x (hl.live hinv.wired hx).2.1]
      · rcases mem_cons.mp hx with rfl | hx
        · exact hnext
        · exact hl.chain.2 x hx
      · rcases mem_cons.mp hx with rfl | hx
        · refine ⟨by rw [hdev], i, ?_⟩
          rw [hadd.slot, if_pos rfl, hadd.deviceType]
        · obtain ⟨hd, j, hj⟩ := hl.owned x hx
          rw [hrecord x (hl.live hinv.wired hx).2.1, hadd.deviceType]
          exact ⟨hd, j, hadd.slot_old hj⟩
    have hlists : ∀ b l, b < w.next → b ≠ a → Listing w b l → Listing w' b l := by
      intro b l hblt hb hl
      refine hadd.listing hinv.wired ?_ hl
      rw [hother' b hb, hprep.drivers b hblt]
    refine ⟨⟨by rw [hob]; exact hbooks hinv.books, ?_, hfault.trans hinv.sane, fun _ h => h.elim⟩,
      .inr ⟨i, hadd, fun j hj => by rw [hob]; exact hother j hj, fun o ho => ?_, by rw [hdev],
        hlisting, hlists, hhist⟩⟩
    · refine hadd.wired hinv.wired (fun j c hj hc => ?_)
        (fun ht => absurd ht.symm hinv.wired.typesNe) (fun _ _ => by rw [hdev]; exact ⟨rfl, rfl, ha⟩)
        fun _ _ => ?_
      · obtain ⟨_, _, l, hl⟩ := hinv.wired.driver j c hj hc
        by_cases hca : c = a
        · exact ⟨_, hca ▸ hlisting l (hca ▸ hl)⟩
        · exact ⟨l, hlists c l (hinv.wired.bodies j _ c hj).1 hca hl⟩
      · have hnextw : w'.next = v.next := by
          subst hw'
          rfl
        rw [hdev, hnextw]
        dsimp only
        rcases hfresh with rfl | ⟨hge, hlt⟩
        · exact ⟨by omega, .inl rfl⟩
        · exact ⟨hlt, .inr ⟨by omega, by omega⟩⟩
    · rw [hob] at ho
      obtain ⟨o', ho', _, _, hr⟩ := hnew
      rw [ho] at ho'
      cases ho'
      exact hr

theorem Survives.of_free {w w' : World} {i : Nat} (hfree : w.ob.lookup i = none)
    (hother : ∀ k, k ≠ i → w'.ob.lookup k = w.ob.lookup k) : Survives w w' := by
  intro k o hk _
  have hki : k ≠ i := by
    rintro rfl
    rw [hfree] at hk
    cases hk
  exact ⟨o, (hother k hki).trans hk, .refl o⟩

theorem obCreateObject_spec (alloc : Allocator) (t : Nat) (name : Option Name) (null : Bool)
    (size : Nat) (hinv : Quiet w)
    (ht : null = false → t ≠ w.driverObjectType ∧ t ≠ w.deviceObjectType) :
    Quiet (step alloc (.obCreateObject t name null size) w) ∧
      Survives w (step alloc (.obCreateObject t name null size) w) := by
  obtain ⟨b, u, hu, hprep, hb⟩ : ∃ b u, (if null then (0, w) else w.kmalloc alloc size) = (b, u) ∧
      Prepared w u ∧ (b ≠ 0 → null = false ∧ w.next ≤ b ∧ b < u.next ∧ u.live b = true) := by
    cases null with
    | true => exact ⟨0, w, rfl, .refl w, fun h => absurd rfl h⟩
    | false =>
      rcases kmalloc_cases alloc size w with hm | hm
      · exact ⟨_, _, hm, (Prepared.refl w).ticks _, fun h => absurd rfl h⟩
      · exact ⟨_, _, hm, (Prepared.refl w).alloc _, fun _ => ⟨rfl, le_rfl, Nat.lt_succ_self _,
          update_self _ _ _⟩⟩
  unfold step
  dsimp only
  rw [hu]
  dsimp only
  rcases createObject_cases alloc t name b size u with
    hc | ⟨i, ob', hc, hi, hfree, hother, hnew, htypes, hbooks⟩
  · rw [hc]
    exact ⟨hinv.prepared (hprep.ticks _), .of_lookup fun k => by rw [(hprep.ticks _).ob]⟩
  rw [hc]
  rw [hprep.ob] at hfree hother htypes hbooks
  have hadd : Added i t b w { u with ob := ob', ticks := u.ticks + 1 } :=
    ⟨slot_eq_none.mpr hfree, slot_created rfl hother hnew, htypes, hprep.driverType,
      hprep.deviceType, hprep.next, hprep.live, fun h0 => (hb h0).2,
      fun x hx => by rw [hprep.drivers x hx]; exact ⟨rfl, rfl⟩, hprep.devices⟩
  refine ⟨⟨hbooks hinv.books, hadd.wired hinv.wired (fun j c hj hc => ?_)
    (fun h h0 => absurd h (ht (hb h0).1).1) (fun h h0 => absurd h (ht (hb h0).1).2)
    (fun h h0 => absurd h (ht (hb h0).1).2), hprep.fault.trans hinv.sane, fun _ h => h.elim⟩,
    .of_free hfree hother⟩
  obtain ⟨_, _, l, hl⟩ := hinv.wired.driver j c hj hc
  refine ⟨l, hadd.listing hinv.wired ?_ hl⟩
  rw [hprep.drivers c (hinv.wired.bodies j _ c hj).1]

theorem register_spec (name : Name) (proc : Option Nat) (hinv : Quiet w) :
    Quiet { w with ob := (obRegisterObjectType name (proc.map .other) w.ob).2 } := by
  refine ⟨hinv.books.register name _, ?_, hinv.sane, fun _ h => h.elim⟩
  have hlook : ∀ j, (obRegisterObjectType name (proc.map .other) w.ob).2.lookup j =
      w.ob.lookup j := fun j => register_lookup name _
  have hprocs : ∀ t p, (∀ n, p ≠ .other n) →
      (deleteProcOf (obRegisterObjectType name (proc.map .other) w.ob).2 t = some p ↔
        deleteProcOf w.ob t = some p) := by
    intro t p hp
    unfold obRegisterObjectType
    split
    · rfl
    · split
      · rfl
      · split
        · rfl
        · unfold deleteProcOf obGetObjectType
          by_cases h0 : t = 0
          · simp [h0]
          · simp only [h0, if_false]
            rw [getElem?_append]
            split
            · rfl
            · rename_i hlt
              have hnone : w.ob.objectTypes[t]? = none := getElem?_eq_none (by omega)
              rw [hnone]
              rcases Nat.eq_zero_or_pos (t - w.ob.objectTypes.length) with hz | hpos
              · rw [hz]
                cases proc with
                | none => simp
                | some n => simpa using fun h => hp n h.symm
              · have hend : ([⟨storedName name, proc.map .other⟩] :
                    List (ObjectTypeInfo DeleteProc))[t - w.ob.objectTypes.length]? = none :=
                  getElem?_eq_none hpos
                rw [hend]
  generalize (obRegisterObjectType name (proc.map .other) w.ob).2 = ob' at hlook hprocs ⊢
  have hs : ∀ j, slot { w with ob := ob' } j = slot w j := fun j => slot_congr (hlook j)
  have hlist : ∀ b l, Listing w b l → Listing { w with ob := ob' } b l := fun b l hl =>
    ⟨hl.chain, fun x hx => ⟨(hl.owned x hx).1, by simp only [hs]; exact (hl.owned x hx).2⟩⟩
  refine ⟨hinv.wired.start, hinv.wired.typesNe, fun t => ?_, fun t => ?_, fun j t b => ?_,
    fun j j' t t' b => ?_, fun j b => ?_, fun j x => ?_, fun j x => ?_⟩
  · rw [hprocs t _ (by simp)]
    exact hinv.wired.driverProc t
  · rw [hprocs t _ (by simp)]
    exact hinv.wired.deviceProc t
  · rw [hs]
    exact hinv.wired.bodies j t b
  · rw [hs, hs]
    exact hinv.wired.apart j j' t t' b
  · rw [hs]
    intro hj hb
    obtain ⟨htype, hhandle, l, hl⟩ := hinv.wired.driver j b hj hb
    exact ⟨htype, hhandle, l, hlist b l hl⟩
  · rw [hs]
    exact hinv.wired.device j x
  · rw [hs]
    simp only [hs]
    exact hinv.wired.extension j x

theorem reference_spec {h : Nat} (hinv : Quiet w)
    (hroom : ∀ o, w.ob.lookup h = some o → o.refCount + 1 < 2 ^ 32) :
    Quiet { w with ob := (obReferenceObject h w.ob).2 } ∧
      ∀ j, slot { w with ob := (obReferenceObject h w.ob).2 } j = slot w j := by
  unfold obReferenceObject
  cases ho : w.ob.lookup h with
  | none => exact ⟨hinv, fun _ => rfl⟩
  | some o =>
    have hslot : ∀ j, ((w.ob.put h o.take).lookup j).map (fun o => (o.type, o.body)) = slot w j :=
      slot_put ho rfl rfl
    exact ⟨⟨hinv.books.take ho not_false (hroom o ho), hinv.wired.of_slots hslot rfl, hinv.sane,
      fun _ h => h.elim⟩, hslot⟩

end Creating

end DiscouNT.Io
