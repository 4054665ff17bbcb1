import DiscouNT.Ke.SyncFrame

/-!
# Ke.SyncRuns

Runs of threads over mutexes and events: what is recorded of them, and who holds references.

* `Proper` are the steps of threads that use the handles of `KeCreateMutex` and `KeCreateEvent` for
  what they are, and of other code that leaves these bodies alone. A handle may be closed at any
  time by the holder of the reference it was created with.
* `Seated` says who holds which reference: a thread that waits keeps its object in the table.
-/

namespace DiscouNT.Ke

open Lib List Option
open Ob

def SyncEvent.body : SyncEvent → Nat
  | .acquired _ b => b
  | .released _ b => b
  | .woken _ b => b
  | .set b => b
  | .eventCreated b _ => b

/-- The thread whose `KeWaitMutex` returned last and that has not called `KeReleaseMutex` since. -/
def holder (b : Nat) : List SyncEvent → Option Nat
  | [] => none
  | .acquired t b' :: l => if b' = b then some t else holder b l
  | .released t b' :: l => if b' = b ∧ holder b l = some t then none else holder b l
  | .woken _ _ :: l => holder b l
  | .set _ :: l => holder b l
  | .eventCreated _ _ :: l => holder b l

/-- `KeWaitMutex` returned only while nobody held the mutex. -/
def Orderly (b : Nat) : List SyncEvent → Prop
  | [] => True
  | e :: l => Orderly b l ∧ ∀ t, e = .acquired t b → holder b l = none

def wokenCount (b : Nat) (l : List SyncEvent) : Nat :=
  l.countP fun e => match e with
    | .woken _ b' => decide (b' = b)
    | _ => false

def setCount (b : Nat) (l : List SyncEvent) : Nat := l.count (.set b)

section Histories

variable {b t : Nat} {e : SyncEvent} {l : List SyncEvent}

theorem holder_other (he : e.body ≠ b) : holder b (e :: l) = holder b l := by
  cases e with
  | acquired t b' => exact if_neg he
  | released t b' => exact if_neg fun h => he h.1
  | woken t b' => rfl
  | set b' => rfl
  | eventCreated b' n => rfl

theorem orderly_other (he : e.body ≠ b) (h : Orderly b l) : Orderly b (e :: l) := by
  refine ⟨h, fun t heq => ?_⟩
  subst heq
  exact absurd rfl he

theorem wokenCount_other (he : e.body ≠ b) : wokenCount b (e :: l) = wokenCount b l := by
  unfold wokenCount
  rw [countP_cons_of_neg]
  cases e with
  | woken t b' => simpa [SyncEvent.body] using he
  | acquired t b' => simp
  | released t b' => simp
  | set b' => simp
  | eventCreated b' n => simp

theorem setCount_other (he : e.body ≠ b) : setCount b (e :: l) = setCount b l := by
  unfold setCount
  refine count_cons_of_ne ?_
  rintro rfl
  exact he rfl

theorem holder_of_acquired {mid old : List SyncEvent}
    (ho : Orderly b (mid ++ .acquired t b :: old)) (hmid : .released t b ∉ mid) :
    holder b (mid ++ .acquired t b :: old) = some t := by
  induction mid with
  | nil => exact if_pos rfl
  | cons e mid ih =>
    have ih := ih ho.1 fun h => hmid (mem_cons_of_mem _ h)
    by_cases he : e.body = b
    · cases e with
      | acquired t' b' =>
        -- nobody else can have got it in between
        obtain rfl : b' = b := he
        have hnone : holder b' (mid ++ .acquired t b' :: old) = none := ho.2 t' rfl
        rw [ih] at hnone
        cases hnone
      | released t' b' =>
        obtain rfl : b' = b := he
        have hne : t' ≠ t := by
          rintro rfl
          exact hmid mem_cons_self
        refine (if_neg fun h => ?_).trans ih
        exact hne (some.inj (h.2.symm.trans ih))
      | woken t' b' => exact ih
      | set b' => exact ih
      | eventCreated b' n => exact ih
    · exact (holder_other he).trans ih

theorem released_between {t' : Nat} {new mid old : List SyncEvent}
    (ho : Orderly b (new ++ .acquired t' b :: (mid ++ .acquired t b :: old))) :
    .released t b ∈ mid := by
  by_contra hmid
  have hsuffix : Orderly b (.acquired t' b :: (mid ++ .acquired t b :: old)) := by
    induction new with
    | nil => exact ho
    | cons e new ih => exact ih ho.1
  have hnone := hsuffix.2 t' rfl
  rw [holder_of_acquired hsuffix.1 hmid] at hnone
  cases hnone

end Histories

/-! ## Threads and references -/

def ThreadAddress (t : Nat) : Prop := t ≠ 0 ∧ t % 8 = 0 ∧ t < 2 ^ 32

def IsSync (x : Executive) (o : Object) : Prop :=
  o.type = x.mutexObjectType ∨ o.type = x.eventObjectType

def waiters (x : Executive) (h : Nat) : Nat := x.waiting.countP fun w => decide (w.handle = h)

/-- The steps of threads that use their handles for what they are, and of other code that has no
business with mutexes and events. `ObDereferenceObject` closes a handle: it gives back a reference
that is not one of a waiting thread. -/
def Proper (a : Act) (x : Executive) : Prop :=
  match a with
  | .obRegisterObjectType _ _ => True
  | .obCreateObject type _ _ => type ≠ x.mutexObjectType ∧ type ≠ x.eventObjectType
  | .obReferenceObject h => ∀ o, x.ob.lookup h = some o → ¬ IsSync x o ∧ o.refCount + 1 < 2 ^ 32
  | .obDereferenceObject h => ∀ o, x.ob.lookup h = some o → IsSync x o → waiters x h < o.refCount
  | .write mem => ∀ k o, x.ob.lookup k = some o → IsSync x o →
    ∀ i, i < o.bodySize → mem (o.body + i) = x.mem (o.body + i)
  | .keCreateMutex => True
  | .keCreateEvent _ => True
  | .call t h c => ThreadAddress t ∧ ∃ o, x.ob.lookup h = some o ∧ o.type = c.type x ∧
    (c = .keTerminateThread → o.refCount + 1 < 2 ^ 32)
  | .resume _ => True

structure Seated (arch : Arch) (x : Executive) : Prop where
  placed : Placed arch x
  typesNe : x.mutexObjectType ≠ x.eventObjectType ∧ x.threadObjectType ≠ x.mutexObjectType ∧
    x.threadObjectType ≠ x.eventObjectType
  threads : (x.waiting.map Wait.thread).Nodup ∧ ∀ w ∈ x.waiting, ThreadAddress w.thread
  mutexes : ∀ k o, x.ob.lookup k = some o → o.type = x.mutexObjectType →
    o.body ≠ 0 ∧ o.bodySize = sizeofMutex arch
  events : ∀ k o, x.ob.lookup k = some o → o.type = x.eventObjectType →
    o.body ≠ 0 ∧ o.bodySize = sizeofEvent
  waits : ∀ w ∈ x.waiting, ∃ o, x.ob.lookup w.handle = some o ∧ o.body = w.body ∧
    o.type = w.kind.call.type x
  counts : ∀ k o, x.ob.lookup k = some o → IsSync x o →
    waiters x k ≤ o.refCount ∧ o.refCount ≤ waiters x k + 1

section Seats

variable {x x' : Executive} {arch : Arch} {h t : Nat} {o : Object}

theorem waiting_length (hnodup : (x.waiting.map Wait.thread).Nodup)
    (haddr : ∀ w ∈ x.waiting, ThreadAddress w.thread) : x.waiting.length ≤ 2 ^ 29 := by
  have hinj : ((x.waiting.map Wait.thread).map (· / 8)).Nodup := by
    refine hnodup.map_on fun s hs u hu heq => ?_
    obtain ⟨v, hv, rfl⟩ := mem_map.mp hs
    obtain ⟨v', hv', rfl⟩ := mem_map.mp hu
    have h1 := (haddr v hv).2.1
    have h2 := (haddr v' hv').2.1
    omega
  have hsub : (x.waiting.map Wait.thread).map (· / 8) ⊆ List.range (2 ^ 29) := by
    intro n hn
    obtain ⟨s, hs, rfl⟩ := mem_map.mp hn
    obtain ⟨v, hv, rfl⟩ := mem_map.mp hs
    have h3 := (haddr v hv).2.2
    rw [mem_range]
    omega
  have hle := (hinj.subperm hsub).length_le
  simpa using hle

theorem waiters_le (x : Executive) (h : Nat) : waiters x h ≤ x.waiting.length :=
  countP_le_length

theorem Seated.room (hs : Seated arch x) (hl : x.ob.lookup h = some o) (hsync : IsSync x o) :
    o.refCount + 1 < 2 ^ 32 := by
  have h1 := (hs.counts h o hl hsync).2
  have h2 := waiters_le x h
  have h3 := waiting_length hs.threads.1 hs.threads.2
  omega

theorem Seated.congr (hs : Seated arch x) (hp : Placed arch x')
    (hview : ∀ k, (x'.ob.lookup k).map view = (x.ob.lookup k).map view)
    (hwait : x'.waiting = x.waiting) (ht : x'.threadObjectType = x.threadObjectType)
    (he : x'.eventObjectType = x.eventObjectType) (hm : x'.mutexObjectType = x.mutexObjectType) :
    Seated arch x' := by
  have hback : ∀ k o', x'.ob.lookup k = some o' → ∃ o, x.ob.lookup k = some o ∧ o.type = o'.type ∧
      o.refCount = o'.refCount ∧ o.body = o'.body ∧ o.bodySize = o'.bodySize := by
    intro k o' hk
    have hv := hview k
    rw [hk, map_some, eq_comm, map_eq_some_iff] at hv
    obtain ⟨o, ho, heq⟩ := hv
    simp only [view, Prod.mk.injEq] at heq
    exact ⟨o, ho, heq.1, heq.2.1, heq.2.2.1, heq.2.2.2.1⟩
  have htype : ∀ c : Call, c.type x' = c.type x := by
    intro c
    cases c <;> simp only [Call.type, ht, he, hm]
  have hcount : ∀ k, waiters x' k = waiters x k := fun k => by rw [waiters, hwait, waiters]
  refine ⟨hp, by rw [ht, he, hm]; exact hs.typesNe, by rw [hwait]; exact hs.threads,
    fun k o' hk hty => ?_, fun k o' hk hty => ?_, fun w hw => ?_, fun k o' hk hsync => ?_⟩
  · obtain ⟨o, ho, h1, _, h3, h4⟩ := hback k o' hk
    rw [← h3, ← h4]
    exact hs.mutexes k o ho (h1.trans (hty.trans hm))
  · obtain ⟨o, ho, h1, _, h3, h4⟩ := hback k o' hk
    rw [← h3, ← h4]
    exact hs.events k o ho (h1.trans (hty.trans he))
  · rw [hwait] at hw
    obtain ⟨o, ho, hbody, hty⟩ := hs.waits w hw
    have hv := hview w.handle
    rw [ho, map_some, map_eq_some_iff] at hv
    obtain ⟨o', ho', heq⟩ := hv
    simp only [view, Prod.mk.injEq] at heq
    exact ⟨o', ho', heq.2.2.1.trans hbody, by rw [htype]; exact heq.1.trans hty⟩
  · obtain ⟨o, ho, h1, h2, _, _⟩ := hback k o' hk
    rw [hcount, ← h2]
    refine hs.counts k o ho ?_
    unfold IsSync at hsync ⊢
    rw [h1, ← hm, ← he]
    exact hsync

theorem Ends.seated {m : Mem} {new : List SyncEvent} (hs : Seated arch x) (he : Ends m new x x') :
    Seated arch x' :=
  hs.congr (he.placed hs.placed) he.view he.waiting he.threadType he.eventType he.mutexType

theorem isSync_of_wait {w : Wait} (hty : o.type = w.kind.call.type x) : IsSync x o := by
  cases hk : w.kind with
  | mutex =>
    rw [hk] at hty
    exact .inl hty
  | event =>
    rw [hk] at hty
    exact .inr hty

theorem Seated.waiters_zero (hs : Seated arch x)
    (hno : ∀ o, x.ob.lookup h = some o → ¬ IsSync x o) : waiters x h = 0 := by
  unfold waiters
  rw [countP_eq_zero]
  intro w hw heq
  obtain ⟨o, ho, _, hty⟩ := hs.waits w hw
  rw [decide_eq_true_eq] at heq
  exact hno o (heq ▸ ho) (isSync_of_wait hty)

theorem Seated.change (hs : Seated arch x) (hp : Placed arch x')
    (htypes : x'.threadObjectType = x.threadObjectType ∧ x'.eventObjectType = x.eventObjectType ∧
      x'.mutexObjectType = x.mutexObjectType)
    (hlook : ∀ k o', x'.ob.lookup k = some o' → ∃ o, x.ob.lookup k = some o ∧ o'.type = o.type ∧
      o'.body = o.body ∧ o'.bodySize = o.bodySize)
    (hthreads : (x'.waiting.map Wait.thread).Nodup ∧ ∀ w ∈ x'.waiting, ThreadAddress w.thread)
    (hwaits : ∀ w ∈ x'.waiting, ∃ o, x'.ob.lookup w.handle = some o ∧ o.body = w.body ∧
      o.type = w.kind.call.type x)
    (hcounts : ∀ k o', x'.ob.lookup k = some o' → IsSync x o' →
      waiters x' k ≤ o'.refCount ∧ o'.refCount ≤ waiters x' k + 1) : Seated arch x' := by
  obtain ⟨ht, he, hm⟩ := htypes
  refine ⟨hp, by rw [ht, he, hm]; exact hs.typesNe, hthreads, fun k o' hk hty => ?_,
    fun k o' hk hty => ?_, fun w hw => ?_, fun k o' hk hsync => hcounts k o' hk ?_⟩
  · obtain ⟨o, ho, h1, h2, h3⟩ := hlook k o' hk
    rw [h2, h3]
    exact hs.mutexes k o ho (h1.symm.trans (hty.trans hm))
  · obtain ⟨o, ho, h1, h2, h3⟩ := hlook k o' hk
    rw [h2, h3]
    exact hs.events k o ho (h1.symm.trans (hty.trans he))
  · obtain ⟨o, ho, hbody, hty⟩ := hwaits w hw
    refine ⟨o, ho, hbody, hty.trans ?_⟩
    cases w.kind <;> simp only [WaitKind.call, Call.type, he, hm]
  · unfold IsSync at hsync ⊢
    rw [← hm, ← he]
    exact hsync

theorem waitOf_none (hw : waitOf x t = none) : t ∉ x.waiting.map Wait.thread := by
  intro hmem
  obtain ⟨w, hw', rfl⟩ := mem_map.mp hmem
  have hno := find?_eq_none.mp hw w hw'
  simp at hno

theorem Seated.block {kind : WaitKind} (hs : Seated arch x) (hl : x.ob.lookup h = some o)
    (hty : o.type = kind.call.type x) (hb : o.body ≠ 0) (ht : ThreadAddress t)
    (hw : waitOf x t = none) :
    Seated arch { x with
      ob := x.ob.put h o.take
      waiting := ⟨t, kind, h, o.body⟩ :: x.waiting } := by
  have hsync : IsSync x o := isSync_of_wait (w := ⟨t, kind, h, o.body⟩) hty
  have hroom := hs.room hl hsync
  have hh := ObState.lt_of_lookup hl
  have hput : ∀ k, (x.ob.put h o.take).lookup k = if k = h then some o.take else x.ob.lookup k :=
    fun k => ObState.lookup_put hh
  refine hs.change (hs.placed.take hl hroom fun w hw => ?_) ⟨rfl, rfl, rfl⟩ (fun k o' hk => ?_)
    ⟨?_, fun w hw => ?_⟩ (fun w hw => ?_) fun k o' hk hs' => ?_
  · rcases mem_cons.mp hw with rfl | hw
    · exact .inr ⟨o, hl, rfl, hb⟩
    · exact .inl hw
  · dsimp only at hk
    rw [hput] at hk
    split at hk
    · rename_i hkh
      cases hk
      exact ⟨o, hkh ▸ hl, rfl, rfl, rfl⟩
    · exact ⟨o', hk, rfl, rfl, rfl⟩
  · exact nodup_cons.mpr ⟨waitOf_none hw, hs.threads.1⟩
  · rcases mem_cons.mp hw with rfl | hw
    · exact ht
    · exact hs.threads.2 w hw
  · dsimp only
    rcases mem_cons.mp hw with rfl | hw
    · exact ⟨o.take, (hput h).trans (if_pos rfl), rfl, hty⟩
    · obtain ⟨p, hp, hbody, hpty⟩ := hs.waits w hw
      by_cases hwh : w.handle = h
      · rw [hwh, hl] at hp
        cases hp
        exact ⟨o.take, (hput _).trans (if_pos hwh), hbody, hpty⟩
      · exact ⟨p, ((hput _).trans (if_neg hwh)).trans hp, hbody, hpty⟩
  · dsimp only at hk
    rw [hput] at hk
    unfold waiters
    split at hk
    · rename_i hkh
      subst hkh
      cases hk
      obtain ⟨h1, h2⟩ := hs.counts k o hl hsync
      rw [countP_cons_of_pos (by simp), Object.take_refCount hroom]
      unfold waiters at h1 h2
      omega
    · rename_i hkh
      rw [countP_cons_of_neg (by simpa using Ne.symm hkh)]
      exact hs.counts k o' hk hs'

theorem Seated.release (hs : Seated arch x) (hp : Placed arch x')
    (htypes : x'.threadObjectType = x.threadObjectType ∧ x'.eventObjectType = x.eventObjectType ∧
      x'.mutexObjectType = x.mutexObjectType)
    (hl : x.ob.lookup h = some o)
    (hlook : ∀ k, x'.ob.lookup k = if k = h then
      (if o.refCount = 1 then none else some o.release) else x.ob.lookup k)
    (hsub : x'.waiting.Sublist x.waiting) (hother : ∀ k, k ≠ h → waiters x' k = waiters x k)
    (hhere : IsSync x o → waiters x' h + 1 ≤ o.refCount ∧ o.refCount ≤ waiters x' h + 2) :
    Seated arch x' := by
  obtain ⟨hpos, hlt⟩ := hs.placed.refs h o hl
  have hcount := Object.release_refCount (o := o) (by omega) hlt
  refine hs.change hp htypes (fun k o' hk => ?_) ⟨hs.threads.1.sublist (hsub.map _), fun w hw =>
    hs.threads.2 w (hsub.subset hw)⟩ (fun w hw => ?_) fun k o' hk hsync => ?_
  · rw [hlook] at hk
    split at hk
    · rename_i hkh
      split at hk
      · cases hk
      · cases hk
        exact ⟨o, hkh ▸ hl, o.release_type, o.release_body, Object.release_bodySize o⟩
    · exact ⟨o', hk, rfl, rfl, rfl⟩
  · obtain ⟨p, hpl, hbody, hty⟩ := hs.waits w (hsub.subset hw)
    rw [hlook]
    by_cases hwh : w.handle = h
    · rw [hwh, hl] at hpl
      cases hpl
      -- a thread that still waits has a reference of its own
      have hone : 0 < waiters x' h := countP_pos_iff.mpr ⟨w, hw, by simpa using hwh⟩
      have h1 := (hhere (isSync_of_wait hty)).1
      rw [if_pos hwh, if_neg (by omega)]
      exact ⟨o.release, rfl, o.release_body.trans hbody, o.release_type.trans hty⟩
    · rw [if_neg hwh]
      exact ⟨p, hpl, hbody, hty⟩
  · rw [hlook] at hk
    split at hk
    · rename_i hkh
      subst hkh
      split at hk
      · cases hk
      · cases hk
        have hsync' : IsSync x o := by
          unfold IsSync at hsync ⊢
          rw [Object.release_type] at hsync
          exact hsync
        have h1 := hhere hsync'
        rw [hcount]
        omega
    · rename_i hkh
      rw [hother k hkh]
      exact hs.counts k o' hk hsync

theorem dereference_table (arch : Arch) (hl : x.ob.lookup h = some o) (hpos : o.refCount ≠ 0)
    (hlt : o.refCount < 2 ^ 32) (k : Nat) :
    (dereference arch h x).ob.lookup k = if k = h then
      (if o.refCount = 1 then none else some o.release) else x.ob.lookup k := by
  have hcount := Object.release_refCount (o := o) (by omega) hlt
  by_cases hone : o.refCount = 1
  · obtain ⟨m, ob', heq, hlook, _⟩ := dereference_last arch hl (by omega)
    rw [heq, if_pos hone]
    exact hlook k
  · rw [dereference_more arch hl (by omega), if_neg hone]
    exact ObState.lookup_put (ObState.lt_of_lookup hl)

theorem Seated.close (hs : Seated arch x)
    (hok : ∀ o, x.ob.lookup h = some o → IsSync x o → waiters x h < o.refCount) :
    Seated arch (dereference arch h x) := by
  cases hl : x.ob.lookup h with
  | none =>
    rw [dereference_none arch hl]
    exact hs
  | some o =>
    obtain ⟨hpos, hlt⟩ := hs.placed.refs h o hl
    obtain ⟨_, hwait, _, htypes⟩ := dereference_fields arch h x
    have hsame : ∀ k, waiters (dereference arch h x) k = waiters x k := fun k => by
      rw [waiters, hwait, waiters]
    refine hs.release (hs.placed.dereference h) htypes hl (dereference_table arch hl hpos hlt)
      (by rw [hwait]) (fun k _ => hsame k) fun hsync => ?_
    have h1 := hok o hl hsync
    have h2 := (hs.counts h o hl hsync).2
    rw [hsame]
    omega

theorem Seated.wake {w : Wait} {y : Executive} (hs : Seated arch x) (hw : w ∈ x.waiting)
    (hy : y.ob = x.ob) (hywait : y.waiting = x.waiting) (hp : Placed arch y)
    (htypes : y.threadObjectType = x.threadObjectType ∧ y.eventObjectType = x.eventObjectType ∧
      y.mutexObjectType = x.mutexObjectType) :
    Seated arch { dereference arch w.handle y with
      waiting := (dereference arch w.handle y).waiting.erase w } := by
  obtain ⟨o, hl, _, hty⟩ := hs.waits w hw
  obtain ⟨hpos, hlt⟩ := hs.placed.refs w.handle o hl
  have hly : y.ob.lookup w.handle = some o := by rw [hy]; exact hl
  obtain ⟨_, hwait, _, h1, h2, h3⟩ := dereference_fields arch w.handle y
  have hd := hp.dereference w.handle
  have hcounts := hs.counts w.handle o hl (isSync_of_wait hty)
  have hperm : x.waiting.Perm (w :: x.waiting.erase w) := perm_cons_erase hw
  rw [hwait, hywait]
  refine hs.release ⟨hd.refs, hd.inside, hd.apart, fun v hv => hd.waits v ?_⟩
    ⟨h1.trans htypes.1, h2.trans htypes.2.1, h3.trans htypes.2.2⟩ hl (fun k => ?_)
    erase_sublist (fun k hk => ?_) fun _ => ?_
  · rw [hwait, hywait]
    exact mem_of_mem_erase hv
  · have htable := dereference_table arch hly hpos hlt k
    rw [hy] at htable
    exact htable
  · unfold waiters
    rw [hperm.countP_eq, countP_cons_of_neg (by simpa using Ne.symm hk)]
  · unfold waiters at hcounts ⊢
    rw [hperm.countP_eq, countP_cons_of_pos (by simp)] at hcounts
    dsimp only
    omega

theorem Seated.take (hs : Seated arch x) (hl : x.ob.lookup h = some o) (hno : ¬ IsSync x o)
    (hroom : o.refCount + 1 < 2 ^ 32) : Seated arch { x with ob := x.ob.put h o.take } := by
  have hput : ∀ k, (x.ob.put h o.take).lookup k = if k = h then some o.take else x.ob.lookup k :=
    fun k => ObState.lookup_put (ObState.lt_of_lookup hl)
  refine hs.change (hs.placed.take hl hroom fun w hw => .inl hw) ⟨rfl, rfl, rfl⟩
    (fun k o' hk => ?_) hs.threads (fun w hw => ?_) fun k o' hk hsync => ?_
  · dsimp only at hk
    rw [hput] at hk
    split at hk
    · rename_i hkh
      cases hk
      exact ⟨o, hkh ▸ hl, rfl, rfl, rfl⟩
    · exact ⟨o', hk, rfl, rfl, rfl⟩
  · obtain ⟨p, hp, hbody, hty⟩ := hs.waits w hw
    have hwh : w.handle ≠ h := by
      intro heq
      rw [heq, hl] at hp
      cases hp
      exact hno (isSync_of_wait hty)
    exact ⟨p, ((hput _).trans (if_neg hwh)).trans hp, hbody, hty⟩
  · dsimp only at hk
    rw [hput] at hk
    split at hk
    · cases hk
      exact absurd hsync hno
    · exact hs.counts k o' hk hsync

theorem Seated.add {i : Nat} (hs : Seated arch x) (hp : Placed arch x')
    (htypes : x'.threadObjectType = x.threadObjectType ∧ x'.eventObjectType = x.eventObjectType ∧
      x'.mutexObjectType = x.mutexObjectType) (hwait : x'.waiting = x.waiting)
    (hfree : x.ob.lookup i = none) (hother : ∀ k, k ≠ i → x'.ob.lookup k = x.ob.lookup k)
    (hnew : ∀ o, x'.ob.lookup i = some o → o.refCount = 1 ∧
      (o.type = x.mutexObjectType → o.body ≠ 0 ∧ o.bodySize = sizeofMutex arch) ∧
      (o.type = x.eventObjectType → o.body ≠ 0 ∧ o.bodySize = sizeofEvent)) : Seated arch x' := by
  obtain ⟨ht, he, hm⟩ := htypes
  have hzero : waiters x i = 0 := hs.waiters_zero fun o ho => by
    rw [hfree] at ho
    cases ho
  have hsame : ∀ k, waiters x' k = waiters x k := fun k => by rw [waiters, hwait, waiters]
  have hcase : ∀ k o, x'.ob.lookup k = some o → k = i ∨ x.ob.lookup k = some o := by
    intro k o hk
    by_cases hki : k = i
    · exact .inl hki
    · rw [hother k hki] at hk
      exact .inr hk
  refine ⟨hp, by rw [ht, he, hm]; exact hs.typesNe, by rw [hwait]; exact hs.threads,
    fun k o hk hty => ?_, fun k o hk hty => ?_, fun w hw => ?_, fun k o hk hsync => ?_⟩
  · rcases hcase k o hk with rfl | hk'
    · exact (hnew o hk).2.1 (hty.trans hm)
    · exact hs.mutexes k o hk' (hty.trans hm)
  · rcases hcase k o hk with rfl | hk'
    · exact (hnew o hk).2.2 (hty.trans he)
    · exact hs.events k o hk' (hty.trans he)
  · rw [hwait] at hw
    obtain ⟨o, ho, hbody, hty⟩ := hs.waits w hw
    have hwi : w.handle ≠ i := by
      intro heq
      rw [heq, hfree] at ho
      cases ho
    refine ⟨o, (hother _ hwi).trans ho, hbody, hty.trans ?_⟩
    cases w.kind <;> simp only [WaitKind.call, Call.type, he, hm]
  · rw [hsame]
    rcases hcase k o hk with rfl | hk'
    · rw [hzero, (hnew o hk).1]
      omega
    · refine hs.counts k o hk' ?_
      unfold IsSync at hsync ⊢
      rw [← hm, ← he]
      exact hsync

end Seats

end DiscouNT.Ke
