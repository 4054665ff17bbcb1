import DiscouNT.Ke.Sync

/-!
# Ke.SyncFrame

What the calls on mutexes, events and threads write, and where.

None of them looks at the type of the object that `ObReferenceObject` gives them, so each writes its
fields into whatever body the handle leads to. Bodies lie apart from each other (`Placed`), so that
body is the only one that changes.
-/

namespace DiscouNT.Ke

open Lib
open Ob

section Table

variable {x : Executive} {h : Nat} {o : Object}

theorem take_release_refCount (hlt : o.refCount < 2 ^ 32) :
    o.take.release.refCount = o.refCount := by
  cases o
  simp only [Object.take, Object.release, u32, sub32] at hlt ⊢
  omega

def view (o : Object) : Nat × Nat × Nat × Nat × Nat :=
  (o.type, o.refCount, o.body, o.bodySize, o.serial)

theorem reference_none (hl : x.ob.lookup h = none) : x.reference h = (0, x) := by
  unfold Executive.reference obReferenceObject
  rw [hl]

theorem reference_some (hl : x.ob.lookup h = some o) :
    x.reference h = (o.body, { x with ob := x.ob.put h o.take }) := by
  unfold Executive.reference obReferenceObject
  rw [hl]

theorem dereference_none (arch : Arch) (hl : x.ob.lookup h = none) : dereference arch h x = x := by
  unfold dereference obDereferenceObject
  have hl' : ((host arch).ob x).lookup h = none := hl
  rw [hl']

theorem dereference_more (arch : Arch) (hl : x.ob.lookup h = some o)
    (hmore : o.release.refCount ≠ 0) :
    dereference arch h x = { x with ob := x.ob.put h o.release } := by
  unfold dereference obDereferenceObject
  have hl' : ((host arch).ob x).lookup h = some o := hl
  rw [hl']
  dsimp only
  rw [if_pos hmore]
  rfl

theorem keDeleteThreadObject_cases (arch : Arch) (body : Nat) (x : Executive) :
    keDeleteThreadObject arch body x = x ∨ ∃ m, keDeleteThreadObject arch body x = { x with mem := m } ∧
      ∀ p, p < body ∨ body + 8 + Mm.sizeofHeapBlock arch ≤ p → m p = x.mem p := by
  unfold keDeleteThreadObject
  split
  · exact .inl rfl
  · refine .inr ⟨_, rfl, fun p hp => writeLE_out ?_⟩
    have hstack : threadStack arch + arch.ptrBytes ≤ 8 + Mm.sizeofHeapBlock arch := by
      cases arch <;> decide
    omega

theorem dereference_last (arch : Arch) (hl : x.ob.lookup h = some o)
    (hlast : o.release.refCount = 0) :
    ∃ m ob', dereference arch h x = { x with mem := m, ob := ob' } ∧
      (∀ k, ob'.lookup k = if k = h then none else x.ob.lookup k) ∧
      (m = x.mem ∨ o.body ≠ 0 ∧
        ∀ p, p < o.body ∨ o.body + 8 + Mm.sizeofHeapBlock arch ≤ p → m p = x.mem p) := by
  have hput : ∀ k, ((x.ob.put h o.release).clear h).lookup k =
      if k = h then none else x.ob.lookup k := by
    intro k
    rw [ObState.lookup_clear, ObState.lookup_put (ObState.lt_of_lookup hl)]
    split <;> rfl
  unfold dereference obDereferenceObject
  have hl' : ((host arch).ob x).lookup h = some o := hl
  rw [hl']
  dsimp only
  rw [if_neg (by simp [hlast])]
  unfold deleteBody
  rw [Object.release_body]
  split
  · exact ⟨x.mem, _, rfl, hput, .inl rfl⟩
  · rename_i hb
    dsimp only
    split
    · exact ⟨x.mem, _, rfl, hput, .inl rfl⟩
    · rename_i proc _
      cases proc with
      | other n => exact ⟨x.mem, _, rfl, hput, .inl rfl⟩
      | keDeleteThreadObject =>
        change ∃ m ob', (host arch).setOb (((host arch).ob (keDeleteThreadObject arch o.body
          _)).clear h) (keDeleteThreadObject arch o.body _) = _ ∧ _
        rcases keDeleteThreadObject_cases arch o.body ((host arch).setOb (((host arch).ob
          ((host arch).setOb (((host arch).ob x).put h o.release) x)).log
            (.deleted o.release.serial)) ((host arch).setOb (((host arch).ob x).put h o.release) x))
          with heq | ⟨m, heq, hm⟩
        · rw [heq]
          exact ⟨x.mem, _, rfl, hput, .inl rfl⟩
        · rw [heq]
          exact ⟨m, _, rfl, hput, .inr ⟨hb, hm⟩⟩

theorem dereference_lookup (arch : Arch) (x : Executive) (h k : Nat) {o' : Object}
    (hk : (dereference arch h x).ob.lookup k = some o') :
    ∃ o, x.ob.lookup k = some o ∧
      (k ≠ h ∧ o' = o ∨ k = h ∧ o' = o.release ∧ o.release.refCount ≠ 0) := by
  cases hl : x.ob.lookup h with
  | none =>
    rw [dereference_none arch hl] at hk
    refine ⟨o', hk, .inl ⟨?_, rfl⟩⟩
    rintro rfl
    rw [hl] at hk
    cases hk
  | some o =>
    by_cases hlast : o.release.refCount = 0
    · obtain ⟨m, ob', heq, hlook, _⟩ := dereference_last arch hl hlast
      rw [heq] at hk
      dsimp only at hk
      rw [hlook] at hk
      split at hk
      · cases hk
      · exact ⟨o', hk, .inl ⟨by assumption, rfl⟩⟩
    · rw [dereference_more arch hl hlast] at hk
      dsimp only at hk
      rw [ObState.lookup_put (ObState.lt_of_lookup hl)] at hk
      split at hk
      · rename_i hkh
        cases hk
        exact ⟨o, hkh ▸ hl, .inr ⟨hkh, rfl, hlast⟩⟩
      · exact ⟨o', hk, .inl ⟨by assumption, rfl⟩⟩

theorem dereference_fields (arch : Arch) (h : Nat) (x : Executive) :
    (dereference arch h x).next = x.next ∧ (dereference arch h x).waiting = x.waiting ∧
      (dereference arch h x).history = x.history ∧
      (dereference arch h x).threadObjectType = x.threadObjectType ∧
      (dereference arch h x).eventObjectType = x.eventObjectType ∧
      (dereference arch h x).mutexObjectType = x.mutexObjectType := by
  cases hl : x.ob.lookup h with
  | none =>
    rw [dereference_none arch hl]
    exact ⟨rfl, rfl, rfl, rfl, rfl, rfl⟩
  | some o =>
    by_cases hlast : o.release.refCount = 0
    · obtain ⟨m, ob', heq, _⟩ := dereference_last arch hl hlast
      rw [heq]
      exact ⟨rfl, rfl, rfl, rfl, rfl, rfl⟩
    · rw [dereference_more arch hl hlast]
      exact ⟨rfl, rfl, rfl, rfl, rfl, rfl⟩

theorem dereference_bounce (arch : Arch) {y : Executive} (hl : x.ob.lookup h = some o)
    (hpos : o.refCount ≠ 0) (hlt : o.refCount < 2 ^ 32) (hy : y.ob = x.ob.put h o.take) :
    dereference arch h y = { y with ob := y.ob.put h o.take.release } ∧
      ∀ k, ((y.ob.put h o.take.release).lookup k).map view = (x.ob.lookup k).map view := by
  have hh := ObState.lt_of_lookup hl
  have hly : y.ob.lookup h = some o.take := by
    rw [hy, ObState.lookup_put hh, if_pos rfl]
  have hcount := take_release_refCount hlt
  refine ⟨dereference_more arch hly (by rw [hcount]; exact hpos), fun k => ?_⟩
  rw [ObState.lookup_put hh, hy]
  by_cases hk : k = h
  · subst hk
    rw [if_pos rfl, hl]
    simp only [Option.map_some, view, Object.release_type, Object.release_body,
      Object.release_serial, hcount]
    cases o
    rfl
  · rw [if_neg hk, ObState.lookup_put hh, if_neg hk]

end Table

/-! ## What a call writes -/

/-- What a call writes, on its way to the end or to its `KeYield`, if `body` is the body it works
on. -/
def effect (arch : Arch) (thread : Nat) (c : Call) (body : Nat) (m : Mem) : Mem :=
  match c with
  | .keSetEventHandle => writeLE m body 4 1
  | .keResetEventHandle => writeLE m body 4 0
  | .keWaitEvent =>
    if readLE m body 4 ≠ 0 ∧ readLE m (body + eventManualReset) 4 = 0 then writeLE m body 4 0 else m
  | .keWaitMutex =>
    if readLE m body 4 = 0 then
      writeLE (writeLE m body 4 1) (body + mutexOwner arch) arch.ptrBytes thread
    else m
  | .keReleaseMutex =>
    if readLE m (body + mutexOwner arch) arch.ptrBytes = thread then
      writeLE (writeLE m body 4 0) (body + mutexOwner arch) arch.ptrBytes 0
    else m
  | .keTerminateThread => writeLE m (body + threadState) 4 threadTerminated

def recorded (thread : Nat) (c : Call) (body : Nat) : List SyncEvent :=
  match c with
  | .keSetEventHandle => [.set body]
  | .keWaitEvent => [.woken thread body]
  | .keWaitMutex => [.acquired thread body]
  | .keReleaseMutex => [.released thread body]
  | .keResetEventHandle => []
  | .keTerminateThread => []

def WaitKind.call : WaitKind → Call
  | .mutex => .keWaitMutex
  | .event => .keWaitEvent

def Blocked (kind : WaitKind) (body : Nat) (m : Mem) : Prop :=
  match kind with
  | .mutex => readLE m body 4 ≠ 0
  | .event => readLE m body 4 = 0

/-- A call came to its end: the table is as before, memory is `m`, and `new` was recorded. -/
structure Ends (m : Mem) (new : List SyncEvent) (x x' : Executive) : Prop where
  mem : x'.mem = m
  view : ∀ k, (x'.ob.lookup k).map Ke.view = (x.ob.lookup k).map Ke.view
  registry : x'.ob.objectTypes = x.ob.objectTypes
  next : x'.next = x.next
  waiting : x'.waiting = x.waiting
  history : x'.history = new ++ x.history
  threadType : x'.threadObjectType = x.threadObjectType
  eventType : x'.eventObjectType = x.eventObjectType
  mutexType : x'.mutexObjectType = x.mutexObjectType

section Calls

variable {x : Executive} {h t : Nat} {o : Object} {arch : Arch}

theorem Ends.of_bounce {y : Executive} {m : Mem} {new : List SyncEvent}
    (hl : x.ob.lookup h = some o) (hpos : o.refCount ≠ 0) (hlt : o.refCount < 2 ^ 32)
    (hy : y = { x with ob := x.ob.put h o.take, mem := m, history := new ++ x.history }) :
    Ends m new x (dereference arch h y) := by
  have hob : y.ob = x.ob.put h o.take := by rw [hy]
  obtain ⟨heq, hview⟩ := dereference_bounce arch hl hpos hlt hob
  rw [heq]
  subst hy
  exact ⟨rfl, hview, rfl, rfl, rfl, rfl, rfl, rfl, rfl⟩

theorem poll_blocked {kind : WaitKind} {b : Nat} (hb : Blocked kind b x.mem) :
    poll arch kind t h b x = none := by
  cases kind with
  | mutex =>
    have hlocked : readLE x.mem b 4 ≠ 0 := hb
    change pollMutex arch t h b x = none
    rw [pollMutex, if_pos hlocked]
  | event =>
    have hunset : readLE x.mem b 4 = 0 := hb
    change pollEvent arch t h b x = none
    rw [pollEvent, if_pos hunset]

theorem poll_free {kind : WaitKind} {b : Nat} (hb : ¬ Blocked kind b x.mem) :
    poll arch kind t h b x = some (dereference arch h { x with
      mem := effect arch t kind.call b x.mem
      history := recorded t kind.call b ++ x.history }) := by
  cases kind with
  | mutex =>
    have hfree : readLE x.mem b 4 = 0 := not_not.mp hb
    change pollMutex arch t h b x = _
    rw [pollMutex, if_neg (by simp [hfree])]
    simp only [WaitKind.call, effect, recorded, hfree, if_true]
    rfl
  | event =>
    have hfree : readLE x.mem b 4 ≠ 0 := hb
    change pollEvent arch t h b x = _
    rw [pollEvent, if_neg hfree]
    simp only [WaitKind.call, effect, recorded, ne_eq, hfree, not_false_eq_true, true_and]
    split <;> rfl

theorem keWait_blocked {kind : WaitKind} (hl : x.ob.lookup h = some o) (hb : o.body ≠ 0)
    (hblocked : Blocked kind o.body x.mem) :
    keWait arch kind t h x = { x with
      ob := x.ob.put h o.take
      waiting := ⟨t, kind, h, o.body⟩ :: x.waiting } := by
  unfold keWait
  rw [reference_some hl]
  dsimp only
  have hpoll : poll arch kind t h o.body { x with ob := x.ob.put h o.take } = none :=
    poll_blocked hblocked
  rw [if_neg hb, hpoll]

theorem keWait_free {kind : WaitKind} (hl : x.ob.lookup h = some o) (hb : o.body ≠ 0)
    (hpos : o.refCount ≠ 0) (hlt : o.refCount < 2 ^ 32) (hfree : ¬ Blocked kind o.body x.mem) :
    Ends (effect arch t kind.call o.body x.mem) (recorded t kind.call o.body) x
      (keWait arch kind t h x) := by
  unfold keWait
  rw [reference_some hl]
  dsimp only
  have hpoll : poll arch kind t h o.body { x with ob := x.ob.put h o.take } =
      some (dereference arch h { x with
        ob := x.ob.put h o.take
        mem := effect arch t kind.call o.body x.mem
        history := recorded t kind.call o.body ++ x.history }) := poll_free hfree
  rw [if_neg hb, hpoll]
  exact .of_bounce hl hpos hlt rfl

theorem call_spec (c : Call) (hl : x.ob.lookup h = some o) (hb : o.body ≠ 0)
    (hpos : o.refCount ≠ 0) (hlt : o.refCount < 2 ^ 32) :
    Ends (effect arch t c o.body x.mem) (recorded t c o.body) x (call arch t h c x) ∨
    ∃ kind, c = kind.call ∧ Blocked kind o.body x.mem ∧
      call arch t h c x = { x with
        ob := x.ob.put h o.take
        waiting := ⟨t, kind, h, o.body⟩ :: x.waiting } := by
  cases c with
  | keSetEventHandle =>
    left
    change Ends _ _ x (keSetEventHandle arch h x)
    unfold keSetEventHandle
    rw [reference_some hl]
    dsimp only
    rw [if_neg hb]
    exact .of_bounce hl hpos hlt rfl
  | keResetEventHandle =>
    left
    change Ends _ _ x (keResetEventHandle arch h x)
    unfold keResetEventHandle
    rw [reference_some hl]
    dsimp only
    rw [if_neg hb]
    exact .of_bounce hl hpos hlt rfl
  | keTerminateThread =>
    left
    change Ends _ _ x (keTerminateThread arch h x)
    unfold keTerminateThread
    rw [reference_some hl]
    dsimp only
    rw [if_neg hb]
    exact .of_bounce hl hpos hlt rfl
  | keReleaseMutex =>
    left
    change Ends _ _ x (keReleaseMutex arch t h x)
    unfold keReleaseMutex
    rw [reference_some hl]
    dsimp only
    rw [if_neg hb]
    by_cases howner : readLE x.mem (o.body + mutexOwner arch) arch.ptrBytes = t
    · simp only [effect, howner, if_true]
      exact .of_bounce hl hpos hlt rfl
    · simp only [effect, howner, if_false]
      exact .of_bounce hl hpos hlt rfl
  | keWaitMutex =>
    by_cases hblocked : Blocked .mutex o.body x.mem
    · exact .inr ⟨.mutex, rfl, hblocked, keWait_blocked hl hb hblocked⟩
    · exact .inl (keWait_free hl hb hpos hlt hblocked)
  | keWaitEvent =>
    by_cases hblocked : Blocked .event o.body x.mem
    · exact .inr ⟨.event, rfl, hblocked, keWait_blocked hl hb hblocked⟩
    · exact .inl (keWait_free hl hb hpos hlt hblocked)

theorem call_none (c : Call) (hl : x.ob.lookup h = none) : call arch t h c x = x := by
  cases c <;>
    simp only [call, keSetEventHandle, keResetEventHandle, keWaitEvent, keWaitMutex, keWait,
      keReleaseMutex, keTerminateThread, reference_none hl, if_true]

theorem call_null (c : Call) (hl : x.ob.lookup h = some o) (hb : o.body = 0) :
    call arch t h c x = { x with ob := x.ob.put h o.take } := by
  cases c <;>
    simp only [call, keSetEventHandle, keResetEventHandle, keWaitEvent, keWaitMutex, keWait,
      keReleaseMutex, keTerminateThread, reference_some hl, hb, if_true]

end Calls

/-! ## Where bodies lie -/

/-- The block at `b`, of `n` bytes and at least 8, ends in front of the header of the block at
`b'`. -/
def Clear (arch : Arch) (b n b' : Nat) : Prop :=
  b + 8 + Mm.sizeofHeapBlock arch ≤ b' ∧ b + n + Mm.sizeofHeapBlock arch ≤ b'

/-- Live objects have references and blocks of their own, and a thread that waits still has the
block it found, or nobody has it. -/
structure Placed (arch : Arch) (x : Executive) : Prop where
  refs : ∀ k o, x.ob.lookup k = some o → o.refCount ≠ 0 ∧ o.refCount < 2 ^ 32
  inside : ∀ k o, x.ob.lookup k = some o → o.body ≠ 0 →
    0 < o.bodySize ∧ o.body + 8 ≤ x.next ∧ o.body + o.bodySize ≤ x.next
  apart : ∀ k k' o o', x.ob.lookup k = some o → x.ob.lookup k' = some o' → k ≠ k' →
    o.body ≠ 0 → o'.body ≠ 0 →
    Clear arch o.body o.bodySize o'.body ∨ Clear arch o'.body o'.bodySize o.body
  waits : ∀ w ∈ x.waiting, w.body ≠ 0 ∧ w.body + 8 ≤ x.next ∧
    ∀ k o, x.ob.lookup k = some o → o.body ≠ 0 → k = w.handle ∧ o.body = w.body ∨
      Clear arch w.body 8 o.body ∨ Clear arch o.body o.bodySize w.body

/-- The calls that take a reference find room for it: fewer than 2^32 references to one object. -/
def Roomy (a : Act) (x : Executive) : Prop :=
  match a with
  | .obReferenceObject handle => ∀ o, x.ob.lookup handle = some o → o.refCount + 1 < 2 ^ 32
  | .call _ handle _ => ∀ o, x.ob.lookup handle = some o → o.refCount + 1 < 2 ^ 32
  | _ => True

section Placing

variable {x x' : Executive} {arch : Arch} {h t : Nat} {o : Object}

theorem Placed.shrink (hp : Placed arch x)
    (hlook : ∀ k o', x'.ob.lookup k = some o' → (o'.refCount ≠ 0 ∧ o'.refCount < 2 ^ 32) ∧
      ∃ o, x.ob.lookup k = some o ∧ o'.body = o.body ∧ o'.bodySize = o.bodySize)
    (hnext : x.next ≤ x'.next)
    (hwait : ∀ w ∈ x'.waiting, w ∈ x.waiting ∨
      ∃ o, x.ob.lookup w.handle = some o ∧ o.body = w.body ∧ w.body ≠ 0) : Placed arch x' := by
  refine ⟨fun k o' hk => (hlook k o' hk).1, fun k o' hk hb => ?_,
    fun k k' o' p' hk hk' hne hb hb' => ?_, fun w hw => ?_⟩
  · obtain ⟨_, o, ho, hbody, hsize⟩ := hlook k o' hk
    rw [hbody] at hb
    obtain ⟨h1, h2, h3⟩ := hp.inside k o ho hb
    rw [hbody, hsize]
    exact ⟨h1, h2.trans hnext, h3.trans hnext⟩
  · obtain ⟨_, o, ho, hbody, hsize⟩ := hlook k o' hk
    obtain ⟨_, p, hpl, hpbody, hpsize⟩ := hlook k' p' hk'
    rw [hbody, hsize, hpbody, hpsize]
    exact hp.apart k k' o p ho hpl hne (hbody ▸ hb) (hpbody ▸ hb')
  · rcases hwait w hw with hw | ⟨o, ho, hbody, hb⟩
    · obtain ⟨hb, hle, hothers⟩ := hp.waits w hw
      refine ⟨hb, hle.trans hnext, fun k p' hk hb' => ?_⟩
      obtain ⟨_, p, hpl, hpbody, hpsize⟩ := hlook k p' hk
      rw [hpbody, hpsize]
      exact hothers k p hpl (hpbody ▸ hb')
    · refine ⟨hb, ?_, fun k p' hk hb' => ?_⟩
      · rw [← hbody] at hb ⊢
        exact (hp.inside w.handle o ho hb).2.1.trans hnext
      · obtain ⟨_, p, hpl, hpbody, hpsize⟩ := hlook k p' hk
        rw [hpbody, hpsize]
        by_cases hk : k = w.handle
        · subst hk
          rw [ho] at hpl
          cases hpl
          exact .inl ⟨rfl, hbody⟩
        · right
          have hb0 : o.body ≠ 0 := hbody ▸ hb
          rw [← hbody]
          rcases hp.apart w.handle k o p ho hpl (Ne.symm hk) hb0 (hpbody ▸ hb') with hc | hc
          · exact .inl ⟨hc.1, hc.1⟩
          · exact .inr hc

theorem Placed.add {i : Nat} (hp : Placed arch x)
    (hother : ∀ k, k ≠ i → x'.ob.lookup k = x.ob.lookup k)
    (hnew : ∀ o, x'.ob.lookup i = some o → o.refCount = 1 ∧ (o.body ≠ 0 → 0 < o.bodySize ∧
      x.next + Mm.sizeofHeapBlock arch ≤ o.body ∧ o.body + 8 ≤ x'.next ∧
      o.body + o.bodySize ≤ x'.next))
    (hnext : x.next ≤ x'.next) (hwait : x'.waiting = x.waiting) : Placed arch x' := by
  -- whatever there was before ends in front of the new block
  have hbelow : ∀ k p o, x.ob.lookup k = some p → p.body ≠ 0 → x'.ob.lookup i = some o →
      o.body ≠ 0 → Clear arch p.body p.bodySize o.body := by
    intro k p o hk hb ho hb'
    obtain ⟨_, h2, h3⟩ := hp.inside k p hk hb
    have h4 := ((hnew o ho).2 hb').2.1
    unfold Clear
    omega
  refine ⟨fun k o hk => ?_, fun k o hk hb => ?_, fun k k' o p hk hk' hne hb hb' => ?_,
    fun w hw => ?_⟩
  · by_cases hki : k = i
    · subst hki
      rw [(hnew o hk).1]
      exact ⟨one_ne_zero, by decide⟩
    · rw [hother k hki] at hk
      exact hp.refs k o hk
  · by_cases hki : k = i
    · subst hki
      obtain ⟨h1, _, h2, h3⟩ := (hnew o hk).2 hb
      exact ⟨h1, h2, h3⟩
    · rw [hother k hki] at hk
      obtain ⟨h1, h2, h3⟩ := hp.inside k o hk hb
      exact ⟨h1, h2.trans hnext, h3.trans hnext⟩
  · by_cases hki : k = i
    · subst hki
      rw [hother k' (Ne.symm hne)] at hk'
      exact .inr (hbelow k' p o hk' hb' hk hb)
    · rw [hother k hki] at hk
      by_cases hki' : k' = i
      · subst hki'
        exact .inl (hbelow k o p hk hb hk' hb')
      · rw [hother k' hki'] at hk'
        exact hp.apart k k' o p hk hk' hne hb hb'
  · rw [hwait] at hw
    obtain ⟨hb, hle, hothers⟩ := hp.waits w hw
    refine ⟨hb, hle.trans hnext, fun k o hk hb' => ?_⟩
    by_cases hki : k = i
    · subst hki
      have h4 := ((hnew o hk).2 hb').2.1
      right
      left
      unfold Clear
      omega
    · rw [hother k hki] at hk
      exact hothers k o hk hb'

theorem take_refs (hroom : o.refCount + 1 < 2 ^ 32) :
    o.take.refCount ≠ 0 ∧ o.take.refCount < 2 ^ 32 := by
  rw [Object.take_refCount hroom]
  omega

theorem release_refCount_lt (o : Object) : o.release.refCount < 2 ^ 32 := by
  cases o
  exact Nat.mod_lt _ (by decide)

theorem Placed.take (hp : Placed arch x) (hl : x.ob.lookup h = some o)
    (hroom : o.refCount + 1 < 2 ^ 32) {waiting : List Wait}
    (hwait : ∀ w ∈ waiting, w ∈ x.waiting ∨
      ∃ o, x.ob.lookup w.handle = some o ∧ o.body = w.body ∧ w.body ≠ 0) :
    Placed arch { x with ob := x.ob.put h o.take, waiting } := by
  refine hp.shrink (fun k o' hk => ?_) le_rfl hwait
  dsimp only at hk
  rw [ObState.lookup_put (ObState.lt_of_lookup hl)] at hk
  split at hk
  · rename_i hkh
    cases hk
    exact ⟨take_refs hroom, o, hkh ▸ hl, rfl, rfl⟩
  · exact ⟨hp.refs k o' hk, o', hk, rfl, rfl⟩

theorem Object.release_bodySize (o : Object) : o.release.bodySize = o.bodySize := by
  cases o
  rfl

theorem Placed.dereference (hp : Placed arch x) (h : Nat) : Placed arch (dereference arch h x) := by
  obtain ⟨hnext, hwait, _⟩ := dereference_fields arch h x
  refine hp.shrink (fun k o' hk => ?_) hnext.ge fun w hw => .inl (hwait ▸ hw)
  obtain ⟨o, ho, ⟨_, rfl⟩ | ⟨_, rfl, hne⟩⟩ := dereference_lookup arch x h k hk
  · exact ⟨hp.refs k o' ho, o', ho, rfl, rfl⟩
  · exact ⟨⟨hne, release_refCount_lt o⟩, o, ho, o.release_body, Object.release_bodySize o⟩

theorem Ends.placed {m : Mem} {new : List SyncEvent} (hp : Placed arch x) (he : Ends m new x x') :
    Placed arch x' := by
  refine hp.shrink (fun k o' hk => ?_) he.next.ge fun w hw => .inl (he.waiting ▸ hw)
  have hview := he.view k
  rw [hk, Option.map_some, eq_comm, Option.map_eq_some_iff] at hview
  obtain ⟨o, ho, heq⟩ := hview
  simp only [Ke.view, Prod.mk.injEq] at heq
  obtain ⟨_, hr, hb, hs, _⟩ := heq
  exact ⟨hr ▸ hp.refs k o ho, o, ho, hb.symm, hs.symm⟩

theorem Placed.call (c : Call) (hp : Placed arch x)
    (hroom : ∀ o, x.ob.lookup h = some o → o.refCount + 1 < 2 ^ 32) :
    Placed arch (call arch t h c x) := by
  cases hl : x.ob.lookup h with
  | none =>
    rw [call_none c hl]
    exact hp
  | some o =>
    obtain ⟨hpos, hlt⟩ := hp.refs h o hl
    by_cases hb : o.body = 0
    · rw [call_null c hl hb]
      exact hp.take hl (hroom o hl) fun w hw => .inl hw
    · rcases call_spec (t := t) c hl hb hpos hlt with he | ⟨kind, _, _, heq⟩
      · exact he.placed hp
      · rw [heq]
        refine hp.take hl (hroom o hl) fun w hw => ?_
        rcases List.mem_cons.mp hw with rfl | hw
        · exact .inr ⟨o, hl, rfl, hb⟩
        · exact .inl hw

theorem Placed.resume (hp : Placed arch x) (t : Nat) : Placed arch (resume arch t x) := by
  unfold Ke.resume
  split
  · exact hp
  · rename_i w hw
    split
    · exact hp
    · rename_i y hy
      by_cases hb : Blocked w.kind w.body x.mem
      · rw [poll_blocked hb] at hy
        cases hy
      · rw [poll_free hb] at hy
        cases hy
        have hp' : Placed arch { x with
            mem := effect arch t w.kind.call w.body x.mem
            history := recorded t w.kind.call w.body ++ x.history } :=
          ⟨hp.refs, hp.inside, hp.apart, hp.waits⟩
        have hd := hp'.dereference w.handle
        exact ⟨hd.refs, hd.inside, hd.apart, fun v hv => hd.waits v (List.mem_of_mem_erase hv)⟩

theorem kmalloc_cases (arch : Arch) (alloc : Allocator) (size : Nat) (x : Executive) :
    x.kmalloc arch alloc size = (0, { x with ticks := x.ticks + 1 }) ∨
    size ≠ 0 ∧ x.kmalloc arch alloc size = (x.next + Mm.sizeofHeapBlock arch, { x with
      next := x.next + Mm.sizeofHeapBlock arch + (size + 7) / 8 * 8
      ticks := x.ticks + 1 }) := by
  unfold Executive.kmalloc
  split
  · rename_i hc
    exact .inr ⟨hc.1, rfl⟩
  · exact .inl rfl

theorem createObject_cases (alloc : Allocator) (type : Nat) (name : Option Name) (b size : Nat)
    (x : Executive) :
    x.createObject alloc type name b size = (invalidHandle, { x with ticks := x.ticks + 1 }) ∨
    ∃ i ob' o, x.createObject alloc type name b size =
        (i, { x with ob := ob', ticks := x.ticks + 1 }) ∧ x.ob.lookup i = none ∧
      ob'.lookup i = some o ∧ o.type = type ∧ o.refCount = 1 ∧ o.body = b ∧ o.bodySize = size ∧
      (∀ k, k ≠ i → ob'.lookup k = x.ob.lookup k) ∧ ob'.objectTypes = x.ob.objectTypes := by
  have hcreate : x.createObject alloc type name b size =
      ((obCreateObject (alloc x.ticks sizeofObject) type name b size x.ob).1, { x with
        ob := (obCreateObject (alloc x.ticks sizeofObject) type name b size x.ob).2
        ticks := x.ticks + 1 }) := rfl
  rw [hcreate]
  rcases obCreateObject_cases (alloc x.ticks sizeofObject) type name b size x.ob with
    hno | ⟨i, hi, hfree, _, hyes⟩
  · left
    rw [hno]
  · right
    rw [hyes]
    refine ⟨i, _, _, rfl, ?_, (ObState.lookup_put hi).trans (if_pos rfl), rfl, rfl, rfl, rfl,
      fun k hk => (ObState.lookup_put hi).trans (if_neg hk), rfl⟩
    rw [ObState.lookup, if_pos hi]
    exact hfree

theorem Placed.create {y : Executive} {b size : Nat} (hp : Placed arch x) (hob : y.ob = x.ob)
    (hnext : x.next ≤ y.next) (hwait : y.waiting = x.waiting)
    (hb : b ≠ 0 → size ≠ 0 ∧ b = x.next + Mm.sizeofHeapBlock arch ∧
      y.next = b + (size + 7) / 8 * 8) (alloc : Allocator) (type : Nat) (name : Option Name) :
    Placed arch (y.createObject alloc type name b size).2 := by
  rcases createObject_cases alloc type name b size y with
    heq | ⟨i, ob', o, heq, _, ho, _, hr, hbody, hsize, hother, _⟩
  · rw [heq]
    refine hp.shrink (fun k o hk => ?_) hnext fun w hw => .inl (hwait ▸ hw)
    have hk' : x.ob.lookup k = some o := hob ▸ hk
    exact ⟨hp.refs k o hk', o, hk', rfl, rfl⟩
  · rw [heq]
    refine hp.add (i := i) (fun k hk => ?_) (fun p hk => ?_) hnext hwait
    · rw [← hob]
      exact hother k hk
    · rw [ho] at hk
      cases hk
      refine ⟨hr, fun h0 => ?_⟩
      rw [hbody] at h0 ⊢
      rw [hsize]
      obtain ⟨hs, hb1, hb2⟩ := hb h0
      dsimp only
      omega

theorem Placed.step (alloc : Allocator) {a : Act} (hp : Placed arch x) (hok : Roomy a x) :
    Placed arch (step arch alloc a x) := by
  cases a with
  | obRegisterObjectType name proc =>
    refine hp.shrink (fun k o hk => ?_) le_rfl fun w hw => .inl hw
    have hk' : x.ob.lookup k = some o := (register_lookup name _).symm.trans hk
    exact ⟨hp.refs k o hk', o, hk', rfl, rfl⟩
  | obCreateObject type name size =>
    change Placed arch (Executive.createObject alloc type name (x.kmalloc arch alloc size).1 size
      (x.kmalloc arch alloc size).2).2
    rcases kmalloc_cases arch alloc size x with hm | ⟨hs, hm⟩
    · rw [hm]
      refine hp.create ?_ ?_ ?_ ?_ alloc type name
      · rfl
      · exact le_rfl
      · rfl
      · exact fun h => absurd rfl h
    · rw [hm]
      refine hp.create ?_ ?_ ?_ ?_ alloc type name
      · rfl
      · dsimp only
        omega
      · rfl
      · exact fun _ => ⟨hs, rfl, rfl⟩
  | obReferenceObject handle =>
    change Placed arch (x.reference handle).2
    cases hl : x.ob.lookup handle with
    | none =>
      rw [reference_none hl]
      exact hp
    | some o =>
      rw [reference_some hl]
      exact hp.take hl (hok o hl) fun w hw => .inl hw
  | obDereferenceObject handle => exact hp.dereference handle
  | write mem => exact ⟨hp.refs, hp.inside, hp.apart, hp.waits⟩
  | keCreateMutex =>
    change Placed arch (((keCreateMutex arch alloc x).map Prod.snd).getD x)
    unfold keCreateMutex
    rcases kmalloc_cases arch alloc (sizeofMutex arch) x with hm | ⟨hs, hm⟩
    · rw [hm]
      exact hp
    · rw [hm]
      dsimp only
      split
      · exact hp
      · refine hp.create ?_ ?_ ?_ ?_ alloc _ _
        · rfl
        · simp only [Executive.store]
          omega
        · rfl
        · exact fun _ => ⟨hs, rfl, rfl⟩
  | keCreateEvent manualReset =>
    change Placed arch (((keCreateEvent arch alloc manualReset x).map Prod.snd).getD x)
    unfold keCreateEvent
    rcases kmalloc_cases arch alloc sizeofEvent x with hm | ⟨hs, hm⟩
    · rw [hm]
      exact hp
    · rw [hm]
      dsimp only
      split
      · exact hp
      · refine hp.create ?_ ?_ ?_ ?_ alloc _ _
        · rfl
        · simp only [Executive.store, Executive.log]
          omega
        · rfl
        · exact fun _ => ⟨hs, rfl, rfl⟩
  | call thread handle c =>
    change Placed arch (if (waitOf x thread).isSome then x else Ke.call arch thread handle c x)
    split
    · exact hp
    · exact hp.call c hok
  | resume thread => exact hp.resume thread

theorem keBoot_lookup (mem : Mem) (heap k : Nat) : (keBoot mem heap).ob.lookup k = none := by
  simp only [keBoot, register_lookup]
  unfold ObState.lookup obInit
  split <;> rfl

theorem Reachable.placed {alloc : Allocator} (hr : Reachable arch alloc Roomy x) :
    Placed arch x := by
  induction hr with
  | boot mem heap =>
    refine ⟨fun k o hk => ?_, fun k o hk => ?_, fun k k' o o' hk => ?_, fun w hw => ?_⟩
    · rw [keBoot_lookup] at hk
      cases hk
    · rw [keBoot_lookup] at hk
      cases hk
    · rw [keBoot_lookup] at hk
      cases hk
    · exact absurd hw (List.not_mem_nil)
  | step _ hok ih => exact ih.step alloc hok

end Placing

/-! ## Type safety -/

def Call.type (x : Executive) : Call → Nat
  | .keSetEventHandle => x.eventObjectType
  | .keResetEventHandle => x.eventObjectType
  | .keWaitEvent => x.eventObjectType
  | .keWaitMutex => x.mutexObjectType
  | .keReleaseMutex => x.mutexObjectType
  | .keTerminateThread => x.threadObjectType

/-- From `x` to `x'` no byte changed in the body of an object that is still there and is not of that
type. -/
def Untouched (type : Nat) (x x' : Executive) : Prop :=
  ∀ k o, x.ob.lookup k = some o → x'.ob.lookup k ≠ none → o.type ≠ type → o.body ≠ 0 →
    ∀ i, i < o.bodySize → x'.mem (o.body + i) = x.mem (o.body + i)

def Stored (m : Mem) (o : Object) (offset n v : Nat) : Prop :=
  ∀ i, offset ≤ i → i < offset + n → i < o.bodySize →
    m (o.body + i) = UInt8.ofNat (v / 256 ^ (i - offset))

/-- What the call would store in this body is what is there. -/
def Harmless (arch : Arch) (thread : Nat) (c : Call) (o : Object) (m : Mem) : Prop :=
  match c with
  | .keSetEventHandle => Stored m o 0 4 1
  | .keResetEventHandle => Stored m o 0 4 0
  | .keWaitEvent => readLE m o.body 4 = 0 ∨ readLE m (o.body + eventManualReset) 4 ≠ 0 ∨
    Stored m o 0 4 0
  | .keWaitMutex => readLE m o.body 4 ≠ 0
  | .keReleaseMutex => readLE m (o.body + mutexOwner arch) arch.ptrBytes ≠ thread ∨
    Stored m o 0 4 0 ∧ Stored m o (mutexOwner arch) arch.ptrBytes 0
  | .keTerminateThread => Stored m o threadState 4 threadTerminated

section Safety

variable {x x' : Executive} {arch : Arch} {h t : Nat} {o : Object} {m : Mem}

theorem effect_out (c : Call) {b p : Nat} (hp : p < b ∨ b + 8 + Mm.sizeofHeapBlock arch ≤ p) :
    effect arch t c b m p = m p := by
  have hptr : arch.ptrBytes ≤ 8 := by cases arch <;> decide
  have hheader : Mm.sizeofHeapBlock arch = 8 + arch.ptrBytes := rfl
  have howner : mutexOwner arch = arch.ptrBytes := rfl
  have hstate : threadState = 4 := rfl
  cases c with
  | keSetEventHandle => exact writeLE_out (by omega)
  | keResetEventHandle => exact writeLE_out (by omega)
  | keTerminateThread => exact writeLE_out (by omega)
  | keWaitEvent =>
    unfold effect
    dsimp only
    split
    · exact writeLE_out (by omega)
    · rfl
  | keWaitMutex =>
    unfold effect
    dsimp only
    split
    · exact (writeLE_out (by omega)).trans (writeLE_out (by omega))
    · rfl
  | keReleaseMutex =>
    unfold effect
    dsimp only
    split
    · exact (writeLE_out (by omega)).trans (writeLE_out (by omega))
    · rfl

theorem writeLE_stored (offset n v : Nat) :
    (∀ i, i < o.bodySize → writeLE m (o.body + offset) n v (o.body + i) = m (o.body + i)) ↔
      Stored m o offset n v := by
  constructor
  · intro hsame i hlo hhi hi
    rw [← hsame i hi, writeLE, if_pos (by omega)]
    congr 3
    omega
  · intro hst i hi
    by_cases hin : offset ≤ i ∧ i < offset + n
    · rw [hst i hin.1 hin.2 hi, writeLE, if_pos (by omega)]
      congr 3
      omega
    · exact writeLE_out (by omega)

theorem writeLE_stored_two (off off' n n' v v' : Nat) (hapart : off + n ≤ off') :
    (∀ i, i < o.bodySize → writeLE (writeLE m (o.body + off) n v) (o.body + off') n' v'
        (o.body + i) = m (o.body + i)) ↔ Stored m o off n v ∧ Stored m o off' n' v' := by
  rw [← writeLE_stored, ← writeLE_stored]
  constructor
  · intro hsame
    refine ⟨fun i hi => ?_, fun i hi => ?_⟩
    · by_cases hin : i < off + n
      · rw [← hsame i hi]
        exact (writeLE_out (by omega)).symm
      · exact writeLE_out (by omega)
    · by_cases hin : off' ≤ i
      · rw [← hsame i hi]
        by_cases hend : i < off' + n'
        · simp only [writeLE]
          rw [if_pos (by omega), if_pos (by omega)]
        · rw [writeLE_out (by omega), writeLE_out (by omega), writeLE_out (by omega)]
      · exact writeLE_out (by omega)
  · rintro ⟨h1, h2⟩ i hi
    by_cases hin : off' ≤ i ∧ i < off' + n'
    · rw [← h2 i hi]
      simp only [writeLE]
      rw [if_pos (by omega), if_pos (by omega)]
    · rw [writeLE_out (by omega)]
      exact h1 i hi

theorem effect_harmless (c : Call) (hsize : 0 < o.bodySize) :
    (∀ i, i < o.bodySize → effect arch t c o.body m (o.body + i) = m (o.body + i)) ↔
      Harmless arch t c o m := by
  have hptr : 4 ≤ arch.ptrBytes := by cases arch <;> decide
  have howner : mutexOwner arch = arch.ptrBytes := rfl
  cases c with
  | keSetEventHandle => exact writeLE_stored 0 4 1
  | keResetEventHandle => exact writeLE_stored 0 4 0
  | keTerminateThread => exact writeLE_stored threadState 4 threadTerminated
  | keWaitEvent =>
    unfold effect Harmless
    dsimp only
    split
    · rename_i hc
      rw [or_iff_right hc.1, or_iff_right (not_not.mpr hc.2)]
      exact writeLE_stored 0 4 0
    · rename_i hc
      refine ⟨fun _ => ?_, fun _ _ _ => rfl⟩
      by_cases h0 : readLE m o.body 4 = 0
      · exact .inl h0
      · exact .inr (.inl fun h1 => hc ⟨h0, h1⟩)
  | keWaitMutex =>
    unfold effect Harmless
    dsimp only
    split
    · -- the first byte is 0 and becomes 1
      rename_i hfree
      refine ⟨fun hsame => ?_, fun hlocked => absurd hfree hlocked⟩
      have hbyte := hsame 0 hsize
      rw [writeLE_out (by omega), Nat.add_zero, writeLE, if_pos (by omega)] at hbyte
      have hzero : (m o.body).toNat = 0 := by
        simp only [readLE] at hfree
        omega
      rw [← hbyte] at hzero
      simp at hzero
    · rename_i hlocked
      exact ⟨fun _ => hlocked, fun _ _ _ => rfl⟩
  | keReleaseMutex =>
    unfold effect Harmless
    dsimp only
    split
    · rename_i hown
      rw [or_iff_right (not_not.mpr hown)]
      exact writeLE_stored_two 0 (mutexOwner arch) 4 arch.ptrBytes 0 0 (by omega)
    · rename_i hown
      exact ⟨fun _ => .inl hown, fun _ _ _ => rfl⟩

theorem clear_out {b n i : Nat} {p : Object}
    (hc : Clear arch b n p.body ∨ Clear arch p.body p.bodySize b) (hi : i < p.bodySize) :
    p.body + i < b ∨ b + 8 + Mm.sizeofHeapBlock arch ≤ p.body + i := by
  unfold Clear at hc
  omega

theorem untouched_iff {type b : Nat} (hp : Placed arch x) (hl : x.ob.lookup h = some o)
    (hb : o.body = b) (hb0 : b ≠ 0) (hstays : x'.ob.lookup h ≠ none)
    (hout : ∀ p, p < b ∨ b + 8 + Mm.sizeofHeapBlock arch ≤ p → x'.mem p = x.mem p) :
    Untouched type x x' ↔ o.type = type ∨
      ∀ i, i < o.bodySize → x'.mem (b + i) = x.mem (b + i) := by
  subst hb
  constructor
  · intro hun
    by_cases htype : o.type = type
    · exact .inl htype
    · exact .inr (hun h o hl hstays htype hb0)
  · intro hsame k p hk hk' htype hpb i hi
    by_cases hkh : k = h
    · subst hkh
      rw [hl] at hk
      cases hk
      exact hsame.resolve_left htype i hi
    · exact hout _ (clear_out (hp.apart h k o p hl hk (Ne.symm hkh) hb0 hpb) hi)

theorem untouched_of_mem {type : Nat} (hmem : x'.mem = x.mem) : Untouched type x x' :=
  fun _ _ _ _ _ _ i _ => by rw [hmem]

theorem call_untouched (hp : Placed arch x) (t h : Nat) (c : Call) :
    Untouched (c.type x) x (call arch t h c x) ↔
      ∀ o, x.ob.lookup h = some o → o.body ≠ 0 →
        o.type = c.type x ∨ Harmless arch t c o x.mem := by
  cases hl : x.ob.lookup h with
  | none =>
    rw [call_none c hl]
    exact ⟨fun _ o ho => (by cases ho), fun _ => untouched_of_mem rfl⟩
  | some o =>
    obtain ⟨hpos, hlt⟩ := hp.refs h o hl
    by_cases hb : o.body = 0
    · rw [call_null c hl hb]
      refine ⟨fun _ p hp' hpb => ?_, fun _ => untouched_of_mem rfl⟩
      cases hp'
      exact absurd hb hpb
    · have hsize := (hp.inside h o hl hb).1
      have hmem : (call arch t h c x).mem = effect arch t c o.body x.mem ∧
          (call arch t h c x).ob.lookup h ≠ none := by
        rcases call_spec (t := t) c hl hb hpos hlt with he | ⟨kind, rfl, hblocked, heq⟩
        · refine ⟨he.mem, fun hnone => ?_⟩
          have hview := he.view h
          rw [hnone, hl] at hview
          cases hview
        · rw [heq]
          refine ⟨?_, ?_⟩
          · cases kind with
            | mutex => exact (if_neg hblocked).symm
            | event => exact (if_neg fun hc => hc.1 hblocked).symm
          · dsimp only
            rw [ObState.lookup_put (ObState.lt_of_lookup hl), if_pos rfl]
            simp
      rw [untouched_iff hp hl rfl hb hmem.2 fun p hpo => by rw [hmem.1]; exact effect_out c hpo,
        hmem.1, effect_harmless c hsize]
      exact ⟨fun hor p hp' _ => by cases hp'; exact hor, fun hall => hall o rfl hb⟩

theorem harmless_of_blocked {kind : WaitKind} (hb : Blocked kind o.body m) :
    Harmless arch t kind.call o m := by
  cases kind with
  | mutex => exact hb
  | event => exact .inl hb

theorem resume_untouched {w : Wait} (hp : Placed arch x) (hw : waitOf x t = some w) :
    Untouched (w.kind.call.type x) x (resume arch t x) ↔
      ∀ o, x.ob.lookup w.handle = some o → o.body = w.body → o.type = w.kind.call.type x ∨
        o.refCount = 1 ∨ Harmless arch t w.kind.call o x.mem := by
  have hmem : w ∈ x.waiting := List.mem_of_find?_eq_some hw
  obtain ⟨hb0, _, hothers⟩ := hp.waits w hmem
  unfold resume
  rw [hw]
  dsimp only
  by_cases hblocked : Blocked w.kind w.body x.mem
  · rw [poll_blocked hblocked]
    refine ⟨fun _ o _ hbody => .inr (.inr (harmless_of_blocked (hbody ▸ hblocked))), fun _ =>
      untouched_of_mem rfl⟩
  · rw [poll_free hblocked]
    dsimp only
    generalize hm : effect arch t w.kind.call w.body x.mem = m
    have hout : ∀ p, p < w.body ∨ w.body + 8 + Mm.sizeofHeapBlock arch ≤ p → m p = x.mem p :=
      fun p hpo => by rw [← hm]; exact effect_out _ hpo
    generalize hy : ({ x with mem := m, history := recorded t w.kind.call w.body ++ x.history } :
      Executive) = y
    have hyob : y.ob = x.ob := by rw [← hy]
    have hymem : y.mem = m := by rw [← hy]
    -- the other bodies are clear of this one
    have helse : ∀ k p, x.ob.lookup k = some p → p.body ≠ 0 → (k ≠ w.handle ∨ p.body ≠ w.body) →
        ∀ i, i < p.bodySize → m (p.body + i) = x.mem (p.body + i) := by
      intro k p hk hpb hne i hi
      refine hout _ (clear_out ((hothers k p hk hpb).resolve_left fun heq => ?_) hi)
      exact hne.elim (fun hne => hne heq.1) fun hne => hne heq.2
    cases hl : x.ob.lookup w.handle with
    | none =>
      rw [dereference_none arch (by rw [hyob]; exact hl)]
      refine ⟨fun _ o ho => (by cases ho), fun _ k p hk _ _ hpb i hi => ?_⟩
      rw [hymem]
      refine helse k p hk hpb (.inl ?_) i hi
      rintro rfl
      rw [hl] at hk
      cases hk
    | some o =>
      obtain ⟨hpos, hlt⟩ := hp.refs w.handle o hl
      have hly : y.ob.lookup w.handle = some o := by rw [hyob]; exact hl
      have hcount := Object.release_refCount (o := o) (by omega) hlt
      by_cases hlast : o.refCount = 1
      · obtain ⟨m', ob', heq, hlook, hm'⟩ := dereference_last arch hly (by omega)
        rw [heq]
        refine ⟨fun _ p hp' _ => .inr (.inl (by cases hp'; exact hlast)), fun _ k p hk hk' _ hpb i
          hi => ?_⟩
        have hkh : k ≠ w.handle := by
          rintro rfl
          exact hk' ((hlook _).trans (if_pos rfl))
        have hkeep : m' (p.body + i) = y.mem (p.body + i) := by
          rcases hm' with hm' | ⟨hob0, hm'⟩
          · rw [hm']
          · exact hm' _ (clear_out (hp.apart w.handle k o p hl hk (Ne.symm hkh) hob0 hpb) hi)
        rw [hymem] at hkeep
        exact hkeep.trans (helse k p hk hpb (.inl hkh) i hi)
      · rw [dereference_more arch hly (by omega)]
        by_cases hbody : o.body = w.body
        · have hsize := (hp.inside w.handle o hl (hbody ▸ hb0)).1
          have hstays : (y.ob.put w.handle o.release).lookup w.handle ≠ none := by
            rw [ObState.lookup_put (ObState.lt_of_lookup hl), if_pos rfl]
            simp
          refine (untouched_iff hp hl hbody hb0 hstays fun p hpo => ?_).trans ?_
          · change y.mem p = _
            rw [hymem]
            exact hout p hpo
          · change _ ∨ (∀ i, i < o.bodySize → y.mem (w.body + i) = x.mem (w.body + i)) ↔ _
            rw [hymem, ← hm, ← hbody, effect_harmless _ hsize]
            refine ⟨fun hor p hp' _ => ?_, fun hall => ?_⟩
            · cases hp'
              exact hor.imp_right .inr
            · exact (hall o rfl rfl).imp_right fun hor => hor.resolve_left hlast
        · refine ⟨fun _ p hp' hpb => absurd hpb (by cases hp'; exact hbody),
            fun _ k p hk _ _ hpb i hi => ?_⟩
          change y.mem (p.body + i) = _
          rw [hymem]
          refine helse k p hk hpb ?_ i hi
          by_cases hkh : k = w.handle
          · subst hkh
            rw [hl] at hk
            cases hk
            exact .inr hbody
          · exact .inl hkh

end Safety

/-- A call changes no byte of a body of another type exactly when the handle leads to nothing, to a
null body, to the right type, or to a body in which the bytes it stores are already there. After the
`KeYield` of a wait it is the object it took its reference to that counts, unless that was the last
one. -/
theorem call_untouched_iff (arch : Arch) (alloc : Allocator) {x : Executive}
    (hr : Reachable arch alloc Roomy x) :
    (∀ t h c, Untouched (c.type x) x (call arch t h c x) ↔
      ∀ o, x.ob.lookup h = some o → o.body ≠ 0 → o.type = c.type x ∨ Harmless arch t c o x.mem) ∧
    (∀ t w, waitOf x t = some w → (Untouched (w.kind.call.type x) x (resume arch t x) ↔
      ∀ o, x.ob.lookup w.handle = some o → o.body = w.body → o.type = w.kind.call.type x ∨
        o.refCount = 1 ∨ Harmless arch t w.kind.call o x.mem)) :=
  ⟨fun t h c => call_untouched hr.placed t h c, fun _ _ hw => resume_untouched hr.placed hw⟩

theorem call_untouched_iff_event :
    Untouched 5 (step .amd64 (fun _ _ => true) (.keCreateEvent 0) (keBoot (fun _ => 0) 4096))
      (call .amd64 8 0 .keSetEventHandle
        (step .amd64 (fun _ _ => true) (.keCreateEvent 0) (keBoot (fun _ => 0) 4096))) := by
  have hr : Reachable .amd64 (fun _ _ => true) Roomy
      (step .amd64 (fun _ _ => true) (.keCreateEvent 0) (keBoot (fun _ => 0) 4096)) :=
    .step (.boot _ _) trivial
  have hlook : (step .amd64 (fun _ _ => true) (.keCreateEvent 0)
      (keBoot (fun _ => 0) 4096)).ob.lookup 0 =
        some ⟨keCreateEvent.eventName, 5, 1, 4112, 8, 0, 0, 0⟩ := by decide +kernel
  refine ((call_untouched_iff .amd64 (fun _ _ => true) hr).1 8 0 .keSetEventHandle).mpr
    fun o ho _ => .inl ?_
  cases ho.symm.trans hlook
  decide +kernel

/-- A mutex, and `KeSetEventHandle` on its handle: the mutex is locked, by nobody. -/
theorem call_untouched_iff_mutex :
    ¬ Untouched 5 (step .amd64 (fun _ _ => true) .keCreateMutex (keBoot (fun _ => 0) 4096))
      (call .amd64 8 0 .keSetEventHandle
        (step .amd64 (fun _ _ => true) .keCreateMutex (keBoot (fun _ => 0) 4096))) := by
  have hlook : (step .amd64 (fun _ _ => true) .keCreateMutex
      (keBoot (fun _ => 0) 4096)).ob.lookup 0 =
        some ⟨keCreateMutex.mutexName, 6, 1, 4112, 16, 0, 0, 0⟩ := by decide +kernel
  intro hun
  have hbyte := hun 0 _ hlook (by decide +kernel) (by decide) (by decide) 0 (by decide)
  revert hbyte
  decide +kernel

end DiscouNT.Ke
