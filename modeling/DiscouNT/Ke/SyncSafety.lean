import DiscouNT.Ke.SyncRuns

/-!
# Ke.SyncSafety

Mutual exclusion and auto-reset events, over every schedule.

`Content` ties the bytes of mutexes and events to the recorded history: `locked` and `owner` say who
holds a mutex, and a signaled auto-reset event has been set once more than it was waited for. No
thread gets between the test of a flag and its update, so each step keeps it.
-/

namespace DiscouNT.Ke

open Lib List
open Ob

def MutexOk (arch : Arch) (m : Mem) (b : Nat) (l : List SyncEvent) : Prop :=
  match holder b l with
  | none => readLE m b 4 = 0 ∧ readLE m (b + mutexOwner arch) arch.ptrBytes = 0
  | some t => readLE m b 4 = 1 ∧ readLE m (b + mutexOwner arch) arch.ptrBytes = t ∧ ThreadAddress t

/-- An auto-reset event that is signaled has been set once more than waited for. -/
def EventOk (m : Mem) (b : Nat) (l : List SyncEvent) : Prop :=
  readLE m (b + eventManualReset) 4 = 0 →
    wokenCount b l + (if readLE m b 4 = 0 then 0 else 1) ≤ setCount b l

structure Content (arch : Arch) (x : Executive) : Prop where
  mutexes : ∀ k o, x.ob.lookup k = some o → o.type = x.mutexObjectType →
    MutexOk arch x.mem o.body x.history
  events : ∀ k o, x.ob.lookup k = some o → o.type = x.eventObjectType →
    EventOk x.mem o.body x.history
  manual : ∀ k o n, x.ob.lookup k = some o → o.type = x.eventObjectType →
    .eventCreated o.body n ∈ x.history → readLE x.mem (o.body + eventManualReset) 4 = u32 n
  orderly : ∀ b, Orderly b x.history
  bounded : ∀ e ∈ x.history, e.body < x.next
  counted : ∀ b n, .eventCreated b n ∈ x.history → u32 n = 0 →
    wokenCount b x.history ≤ setCount b x.history

section Contents

variable {x x' : Executive} {arch : Arch} {h t b : Nat} {o : Object} {m m' : Mem}
  {l new : List SyncEvent}

theorem holder_append (hnew : ∀ e ∈ new, e.body ≠ b) : holder b (new ++ l) = holder b l := by
  induction new with
  | nil => rfl
  | cons e new ih =>
    exact (holder_other (hnew e mem_cons_self)).trans
      (ih fun e' he => hnew e' (mem_cons_of_mem _ he))

theorem orderly_append (hnew : ∀ e ∈ new, e.body ≠ b) (ho : Orderly b l) : Orderly b (new ++ l) := by
  induction new with
  | nil => exact ho
  | cons e new ih =>
    exact orderly_other (hnew e mem_cons_self)
      (ih fun e' he => hnew e' (mem_cons_of_mem _ he))

theorem counts_append (hnew : ∀ e ∈ new, e.body ≠ b) :
    wokenCount b (new ++ l) = wokenCount b l ∧ setCount b (new ++ l) = setCount b l := by
  induction new with
  | nil => exact ⟨rfl, rfl⟩
  | cons e new ih =>
    have he := hnew e mem_cons_self
    obtain ⟨h1, h2⟩ := ih fun e' he => hnew e' (mem_cons_of_mem _ he)
    exact ⟨(wokenCount_other he).trans h1, (setCount_other he).trans h2⟩

theorem MutexOk.congr (hok : MutexOk arch m b l)
    (hmem : ∀ i, i < sizeofMutex arch → m' (b + i) = m (b + i)) (hnew : ∀ e ∈ new, e.body ≠ b) :
    MutexOk arch m' b (new ++ l) := by
  have hptr : 4 ≤ arch.ptrBytes := by cases arch <;> decide
  have hsize : sizeofMutex arch = 2 * arch.ptrBytes := rfl
  have howner : mutexOwner arch = arch.ptrBytes := rfl
  have hlocked : readLE m' b 4 = readLE m b 4 := readLE_congr fun i hi => hmem i (by omega)
  have hown : readLE m' (b + mutexOwner arch) arch.ptrBytes =
      readLE m (b + mutexOwner arch) arch.ptrBytes := by
    refine readLE_congr fun i hi => ?_
    rw [Nat.add_assoc]
    exact hmem (mutexOwner arch + i) (by omega)
  unfold MutexOk
  rw [holder_append hnew, hlocked, hown]
  exact hok

theorem event_readLE (hmem : ∀ i, i < sizeofEvent → m' (b + i) = m (b + i)) :
    readLE m' b 4 = readLE m b 4 ∧
      readLE m' (b + eventManualReset) 4 = readLE m (b + eventManualReset) 4 := by
  have hsize : sizeofEvent = 8 := rfl
  have hoff : eventManualReset = 4 := rfl
  refine ⟨readLE_congr fun i hi => hmem i (by omega), readLE_congr fun i hi => ?_⟩
  rw [Nat.add_assoc]
  exact hmem (eventManualReset + i) (by omega)

theorem EventOk.congr (hok : EventOk m b l)
    (hmem : ∀ i, i < sizeofEvent → m' (b + i) = m (b + i)) (hnew : ∀ e ∈ new, e.body ≠ b) :
    EventOk m' b (new ++ l) := by
  obtain ⟨h1, h2⟩ := event_readLE hmem
  obtain ⟨h3, h4⟩ := counts_append (l := l) hnew
  unfold EventOk
  rw [h1, h2, h3, h4]
  exact hok

theorem Content.change (hs : Seated arch x) (hc : Content arch x)
    (htypes : x'.eventObjectType = x.eventObjectType ∧ x'.mutexObjectType = x.mutexObjectType)
    (hnext : x.next ≤ x'.next) (hhist : x'.history = new ++ x.history)
    (hnew : ∀ e ∈ new, e.body = b ∧ b < x'.next ∧ ∀ n, e ≠ .eventCreated b n)
    (hlook : ∀ k o', x'.ob.lookup k = some o' → IsSync x o' →
      ∃ o, x.ob.lookup k = some o ∧ o'.type = o.type ∧ o'.body = o.body)
    (hmem : ∀ k o o', x'.ob.lookup k = some o' → x.ob.lookup k = some o → IsSync x o →
      o.body ≠ b → ∀ i, i < o.bodySize → x'.mem (o.body + i) = x.mem (o.body + i))
    (hmutex : ∀ k o, x'.ob.lookup k = some o → o.type = x.mutexObjectType → o.body = b →
      MutexOk arch x'.mem b x'.history)
    (hevent : ∀ k o, x'.ob.lookup k = some o → o.type = x.eventObjectType → o.body = b →
      EventOk x'.mem b x'.history ∧ ∀ n, .eventCreated b n ∈ x.history →
        readLE x'.mem (b + eventManualReset) 4 = u32 n)
    (horder : Orderly b x'.history)
    (hcounted : ∀ n, .eventCreated b n ∈ x.history → u32 n = 0 →
      wokenCount b x'.history ≤ setCount b x'.history) : Content arch x' := by
  obtain ⟨he, hm⟩ := htypes
  have hbody : ∀ c, c ≠ b → ∀ e ∈ new, e.body ≠ c := fun c hne e hmem heq =>
    hne (heq.symm.trans (hnew e hmem).1)
  have hcreated : ∀ c n, .eventCreated c n ∈ x'.history → .eventCreated c n ∈ x.history := by
    intro c n hin
    rw [hhist] at hin
    rcases mem_append.mp hin with hin | hin
    · obtain ⟨h1, _, h3⟩ := hnew _ hin
      obtain rfl : c = b := h1
      exact absurd rfl (h3 n)
    · exact hin
  refine ⟨fun k o' hk hty => ?_, fun k o' hk hty => ?_, fun k o' n hk hty hin => ?_, fun c => ?_,
    fun e hin => ?_, fun c n hin hz => ?_⟩
  · rw [hm] at hty
    by_cases hb : o'.body = b
    · rw [hb]
      exact hmutex k o' hk hty hb
    · obtain ⟨o, ho, h1, h2⟩ := hlook k o' hk (.inl hty)
      have hty' : o.type = x.mutexObjectType := h1.symm.trans hty
      rw [h2] at hb ⊢
      rw [hhist]
      refine (hc.mutexes k o ho hty').congr (fun i hi => ?_) (hbody _ hb)
      exact hmem k o o' hk ho (.inl hty') hb i (by rw [(hs.mutexes k o ho hty').2]; exact hi)
  · rw [he] at hty
    by_cases hb : o'.body = b
    · rw [hb]
      exact (hevent k o' hk hty hb).1
    · obtain ⟨o, ho, h1, h2⟩ := hlook k o' hk (.inr hty)
      have hty' : o.type = x.eventObjectType := h1.symm.trans hty
      rw [h2] at hb ⊢
      rw [hhist]
      refine (hc.events k o ho hty').congr (fun i hi => ?_) (hbody _ hb)
      exact hmem k o o' hk ho (.inr hty') hb i (by rw [(hs.events k o ho hty').2]; exact hi)
  · rw [he] at hty
    have hin := hcreated _ n hin
    by_cases hb : o'.body = b
    · rw [hb] at hin ⊢
      exact (hevent k o' hk hty hb).2 n hin
    · obtain ⟨o, ho, h1, h2⟩ := hlook k o' hk (.inr hty)
      have hty' : o.type = x.eventObjectType := h1.symm.trans hty
      rw [h2] at hb hin ⊢
      have hkeep : ∀ i, i < sizeofEvent → x'.mem (o.body + i) = x.mem (o.body + i) := fun i hi =>
        hmem k o o' hk ho (.inr hty') hb i (by rw [(hs.events k o ho hty').2]; exact hi)
      rw [(event_readLE hkeep).2]
      exact hc.manual k o n ho hty' hin
  · by_cases hb : c = b
    · rw [hb]
      exact horder
    · rw [hhist]
      exact orderly_append (hbody c hb) (hc.orderly c)
  · rw [hhist] at hin
    rcases mem_append.mp hin with hin | hin
    · obtain ⟨h1, h2, _⟩ := hnew e hin
      rw [h1]
      exact h2
    · exact lt_of_lt_of_le (hc.bounded e hin) hnext
  · have hin := hcreated c n hin
    by_cases hb : c = b
    · subst hb
      exact hcounted n hin hz
    · obtain ⟨h3, h4⟩ := counts_append (l := x.history) (hbody c hb)
      rw [hhist, h3, h4]
      exact hc.counted c n hin hz

theorem Content.keep (hs : Seated arch x) (hc : Content arch x)
    (htypes : x'.eventObjectType = x.eventObjectType ∧ x'.mutexObjectType = x.mutexObjectType)
    (hnext : x.next ≤ x'.next) (hhist : x'.history = x.history)
    (hlook : ∀ k o', x'.ob.lookup k = some o' → IsSync x o' →
      ∃ o, x.ob.lookup k = some o ∧ o'.type = o.type ∧ o'.body = o.body)
    (hmem : ∀ k o o', x'.ob.lookup k = some o' → x.ob.lookup k = some o → IsSync x o →
      ∀ i, i < o.bodySize → x'.mem (o.body + i) = x.mem (o.body + i)) : Content arch x' := by
  have hnull : ∀ k o', x'.ob.lookup k = some o' → IsSync x o' → o'.body ≠ 0 := by
    intro k o' hk hsync
    obtain ⟨o, ho, h1, h2⟩ := hlook k o' hk hsync
    rw [h2]
    rcases hsync with hty | hty
    · exact (hs.mutexes k o ho (h1.symm.trans hty)).1
    · exact (hs.events k o ho (h1.symm.trans hty)).1
  have hnone : x'.history = [] ++ x.history := hhist
  refine hc.change (b := 0) hs htypes hnext hnone (by simp) hlook
    (fun k o o' hk ho hsync _ => hmem k o o' hk ho hsync)
    (fun k o hk hty hb => absurd hb (hnull k o hk (.inl hty)))
    (fun k o hk hty hb => absurd hb (hnull k o hk (.inr hty))) ?_ fun n hin hz => ?_
  · rw [hhist]
    exact hc.orderly 0
  · rw [hhist]
    exact hc.counted 0 n hin hz

theorem MutexOk.holder_none (hok : MutexOk arch m b l) (hfree : readLE m b 4 = 0) :
    holder b l = none := by
  unfold MutexOk at hok
  split at hok
  · assumption
  · rw [hok.1] at hfree
    cases hfree

theorem MutexOk.owner_iff (hok : MutexOk arch m b l) (ht : t ≠ 0) :
    readLE m (b + mutexOwner arch) arch.ptrBytes = t ↔ holder b l = some t := by
  unfold MutexOk at hok
  split at hok
  · rename_i hnone
    rw [hok.2, hnone]
    exact ⟨fun h0 => absurd h0.symm ht, fun h => by cases h⟩
  · rename_i t' hsome
    rw [hok.2.1, hsome, Option.some.injEq]

theorem MutexOk.acquire (hfree : readLE m b 4 = 0) (ht : ThreadAddress t) :
    MutexOk arch (effect arch t .keWaitMutex b m) b (.acquired t b :: l) := by
  have hptr : 4 ≤ arch.ptrBytes := by cases arch <;> decide
  have howner : mutexOwner arch = arch.ptrBytes := rfl
  have hholder : holder b (.acquired t b :: l) = some t := if_pos rfl
  unfold MutexOk
  rw [hholder]
  simp only [effect, hfree, if_true]
  refine ⟨?_, ?_, ht⟩
  · rw [readLE_writeLE_other (by omega), readLE_writeLE_same]
    rfl
  · rw [readLE_writeLE_same]
    exact Nat.mod_eq_of_lt (lt_of_lt_of_le ht.2.2 (le_pow_ptrBytes arch))

theorem MutexOk.release (hok : MutexOk arch m b l) (ht : t ≠ 0) :
    MutexOk arch (effect arch t .keReleaseMutex b m) b (.released t b :: l) := by
  have hptr : 4 ≤ arch.ptrBytes := by cases arch <;> decide
  have howner : mutexOwner arch = arch.ptrBytes := rfl
  have hiff := hok.owner_iff ht
  by_cases hown : readLE m (b + mutexOwner arch) arch.ptrBytes = t
  · have hholder : holder b (.released t b :: l) = none := if_pos ⟨rfl, hiff.mp hown⟩
    unfold MutexOk
    rw [hholder]
    simp only [effect, hown, if_true]
    refine ⟨?_, ?_⟩
    · rw [readLE_writeLE_other (by omega), readLE_writeLE_same]
      rfl
    · rw [readLE_writeLE_same]
      exact Nat.zero_mod _
  · -- somebody else's call changes nothing
    have hholder : holder b (.released t b :: l) = holder b l := if_neg fun h => hown (hiff.mpr h.2)
    unfold MutexOk
    rw [hholder]
    simp only [effect, hown, if_false]
    exact hok

/-! ## One call on an event -/

theorem wokenCount_woken : wokenCount b (.woken t b :: l) = wokenCount b l + 1 := by
  unfold wokenCount
  rw [countP_cons_of_pos (by simp)]

theorem setCount_set : setCount b (.set b :: l) = setCount b l + 1 := by
  unfold setCount
  rw [count_cons_self]

theorem wokenCount_set {c : Nat} : wokenCount b (.set c :: l) = wokenCount b l := by
  unfold wokenCount
  rw [countP_cons_of_neg (by simp)]

theorem setCount_woken {c : Nat} : setCount b (.woken t c :: l) = setCount b l := by
  unfold setCount
  exact count_cons_of_ne (by simp)

theorem EventOk.le (hok : EventOk m b l) (hauto : readLE m (b + eventManualReset) 4 = 0) :
    wokenCount b l ≤ setCount b l := by
  have := hok hauto
  omega

theorem manualReset_kept (arch : Arch) (t : Nat) (c : Call)
    (hc : c = .keSetEventHandle ∨ c = .keResetEventHandle ∨ c = .keWaitEvent) :
    readLE (effect arch t c b m) (b + eventManualReset) 4 =
      readLE m (b + eventManualReset) 4 := by
  have hstore : ∀ v, readLE (writeLE m b 4 v) (b + eventManualReset) 4 =
      readLE m (b + eventManualReset) 4 := fun v => readLE_writeLE_other (by simp [eventManualReset])
  rcases hc with rfl | rfl | rfl
  · exact hstore 1
  · exact hstore 0
  · simp only [effect]
    split
    · exact hstore 0
    · rfl

theorem EventOk.set (arch : Arch) (t : Nat) (hok : EventOk m b l) :
    EventOk (effect arch t .keSetEventHandle b m) b (.set b :: l) := by
  have hset : readLE (effect arch t .keSetEventHandle b m) b 4 = 1 := readLE_writeLE_same m b 4 1
  intro hauto
  rw [manualReset_kept arch t _ (.inl rfl)] at hauto
  have hle := hok.le hauto
  rw [wokenCount_set, setCount_set, if_neg (by rw [hset]; exact one_ne_zero)]
  omega

theorem EventOk.reset (arch : Arch) (t : Nat) (hok : EventOk m b l) :
    EventOk (effect arch t .keResetEventHandle b m) b l := by
  have hreset : readLE (effect arch t .keResetEventHandle b m) b 4 = 0 :=
    readLE_writeLE_same m b 4 0
  intro hauto
  rw [manualReset_kept arch t _ (.inr (.inl rfl))] at hauto
  rw [if_pos hreset]
  exact hok.le hauto

theorem EventOk.wait (arch : Arch) (t : Nat) (hok : EventOk m b l)
    (hsignaled : readLE m b 4 ≠ 0) : EventOk (effect arch t .keWaitEvent b m) b (.woken t b :: l) := by
  intro hauto
  rw [manualReset_kept arch t _ (.inr (.inr rfl))] at hauto
  have hle := hok hauto
  rw [if_neg hsignaled] at hle
  have hused : readLE (effect arch t .keWaitEvent b m) b 4 = 0 := by
    simp only [effect, ne_eq, hsignaled, not_false_eq_true, hauto, and_self, if_true]
    exact readLE_writeLE_same m b 4 0
  rw [wokenCount_woken, setCount_woken, if_pos hused]
  exact hle

/-! ## Steps -/

theorem Placed.body_inj {p : Object} {k : Nat} (hp : Placed arch x) (hl : x.ob.lookup h = some o)
    (hk : x.ob.lookup k = some p) (hb : o.body ≠ 0) (heq : p.body = o.body) : k = h := by
  by_contra hne
  rcases hp.apart h k o p hl hk (Ne.symm hne) hb (by rw [heq]; exact hb) with hc | hc
  · unfold Clear at hc
    omega
  · unfold Clear at hc
    omega

theorem Content.effect (hs : Seated arch x) (hc : Content arch x) (c : Call)
    (hl : x.ob.lookup h = some o) (hty : o.type = c.type x) (hb : o.body ≠ 0) (ht : ThreadAddress t)
    (hfree : ∀ kind : WaitKind, c = kind.call → ¬ Blocked kind o.body x.mem) :
    Content arch { x with
      mem := Ke.effect arch t c o.body x.mem
      history := recorded t c o.body ++ x.history } := by
  obtain ⟨hme, htm, hte⟩ := hs.typesNe
  have hnext := hs.placed.inside h o hl hb
  -- the only object with this body is the one the call is made for
  have hself : ∀ k p, x.ob.lookup k = some p → p.body = o.body → p.type = c.type x := by
    intro k p hk heq
    have hkh := hs.placed.body_inj hl hk hb heq
    subst hkh
    rw [hl] at hk
    cases hk
    exact hty
  refine hc.change hs ⟨rfl, rfl⟩ le_rfl rfl (b := o.body) (fun e he => ?_)
    (fun k p hk _ => ⟨p, hk, rfl, rfl⟩) (fun k p _ _ hk hsync hne i hi => ?_)
    (fun k p hk hpty hpb => ?_) (fun k p hk hpty hpb => ?_) ?_ (fun n hin hz => ?_)
  · refine ⟨?_, by dsimp only; omega, fun n => ?_⟩
    · cases c <;> simp_all [recorded, SyncEvent.body]
    · cases c <;> simp_all [recorded]
  · have hkh : h ≠ k := by
      rintro rfl
      rw [hl] at hk
      cases hk
      exact hne rfl
    have hpb : p.body ≠ 0 := by
      rcases hsync with hpty | hpty
      · exact (hs.mutexes k p hk hpty).1
      · exact (hs.events k p hk hpty).1
    exact effect_out c (clear_out (hs.placed.apart h k o p hl hk hkh hb hpb) hi)
  · -- a mutex
    have hcty := (hself k p hk hpb).symm.trans hpty
    have hok := hc.mutexes k p hk hpty
    rw [hpb] at hok
    cases c with
    | keWaitMutex => exact MutexOk.acquire (not_not.mp (hfree .mutex rfl)) ht
    | keReleaseMutex => exact hok.release ht.1
    | keSetEventHandle => exact absurd hcty.symm hme
    | keResetEventHandle => exact absurd hcty.symm hme
    | keWaitEvent => exact absurd hcty.symm hme
    | keTerminateThread => exact absurd hcty htm
  · -- an event
    have hcty := (hself k p hk hpb).symm.trans hpty
    have hok := hc.events k p hk hpty
    have hman : ∀ n, .eventCreated o.body n ∈ x.history →
        readLE x.mem (o.body + eventManualReset) 4 = u32 n := by
      rw [← hpb]
      exact fun n => hc.manual k p n hk hpty
    rw [hpb] at hok
    cases c with
    | keSetEventHandle =>
      exact ⟨hok.set arch t, fun n hin => (manualReset_kept arch t _ (.inl rfl)).trans (hman n hin)⟩
    | keResetEventHandle =>
      exact ⟨hok.reset arch t, fun n hin => (manualReset_kept arch t _ (.inr (.inl rfl))).trans (hman n hin)⟩
    | keWaitEvent =>
      exact ⟨hok.wait arch t (hfree .event rfl), fun n hin =>
        (manualReset_kept arch t _ (.inr (.inr rfl))).trans (hman n hin)⟩
    | keWaitMutex => exact absurd hcty hme
    | keReleaseMutex => exact absurd hcty hme
    | keTerminateThread => exact absurd hcty hte
  · have ho := hc.orderly o.body
    cases c with
    | keWaitMutex =>
      have hok := hc.mutexes h o hl hty
      exact ⟨ho, fun _ _ => hok.holder_none (not_not.mp (hfree .mutex rfl))⟩
    | keReleaseMutex => exact ⟨ho, fun _ heq => by cases heq⟩
    | keSetEventHandle => exact ⟨ho, fun _ heq => by cases heq⟩
    | keWaitEvent => exact ⟨ho, fun _ heq => by cases heq⟩
    | keResetEventHandle => exact ho
    | keTerminateThread => exact ho
  · have hle := hc.counted o.body n hin hz
    cases c with
    | keSetEventHandle =>
      change wokenCount o.body (.set o.body :: x.history) ≤ setCount o.body (.set o.body :: x.history)
      rw [wokenCount_set, setCount_set]
      omega
    | keWaitEvent =>
      -- the event is auto-reset and signaled, so it was set once more
      have hauto := (hc.manual h o n hl hty hin).trans hz
      have hok := hc.events h o hl hty hauto
      have hsignaled : readLE x.mem o.body 4 ≠ 0 := hfree .event rfl
      rw [if_neg hsignaled] at hok
      change wokenCount o.body (.woken t o.body :: x.history) ≤
        setCount o.body (.woken t o.body :: x.history)
      rw [wokenCount_woken, setCount_woken]
      exact hok
    | keWaitMutex =>
      refine hle.trans' (le_of_eq ?_) |>.trans (le_of_eq ?_)
      · exact countP_cons_of_neg (by simp)
      · exact (count_cons_of_ne (by simp)).symm
    | keReleaseMutex =>
      refine hle.trans' (le_of_eq ?_) |>.trans (le_of_eq ?_)
      · exact countP_cons_of_neg (by simp)
      · exact (count_cons_of_ne (by simp)).symm
    | keResetEventHandle => exact hle
    | keTerminateThread => exact hle

theorem Content.dereference (hs : Seated arch x) (hc : Content arch x) (h : Nat) :
    Content arch (dereference arch h x) := by
  obtain ⟨hnext, _, hhist, _, he, hm⟩ := dereference_fields arch h x
  refine hc.keep hs ⟨he, hm⟩ hnext.ge hhist (fun k o' hk _ => ?_) fun k o o' hk ho hsync i hi => ?_
  · obtain ⟨o, ho, ⟨_, rfl⟩ | ⟨_, rfl, _⟩⟩ := dereference_lookup arch x h k hk
    · exact ⟨o', ho, rfl, rfl⟩
    · exact ⟨o, ho, o.release_type, o.release_body⟩
  · cases hl : x.ob.lookup h with
    | none => rw [dereference_none arch hl]
    | some p =>
      by_cases hlast : p.release.refCount = 0
      · obtain ⟨m, ob', heq, hlook, hmem⟩ := dereference_last arch hl hlast
        rw [heq] at hk ⊢
        have hkh : k ≠ h := by
          rintro rfl
          have hgone := hlook k
          rw [if_pos rfl] at hgone
          exact absurd (hk.symm.trans hgone) (by simp)
        rcases hmem with hmem | ⟨hpb, hmem⟩
        · dsimp only
          rw [hmem]
        · have hob : o.body ≠ 0 := by
            rcases hsync with hty | hty
            · exact (hs.mutexes k o ho hty).1
            · exact (hs.events k o ho hty).1
          exact hmem _ (clear_out (hs.placed.apart h k p o hl ho (Ne.symm hkh) hpb hob) hi)
      · rw [dereference_more arch hl hlast]

theorem fresh_history (hfresh : ∀ e ∈ l, e.body ≠ b) :
    holder b l = none ∧ wokenCount b l = 0 ∧ setCount b l = 0 := by
  have h1 : holder b (l ++ []) = holder b [] := holder_append hfresh
  obtain ⟨h2, h3⟩ := counts_append (l := []) hfresh
  rw [append_nil] at h1 h2 h3
  exact ⟨h1, h2, h3⟩

theorem eventCreated_history (c n : Nat) :
    holder b (.eventCreated c n :: l) = holder b l ∧
    wokenCount b (.eventCreated c n :: l) = wokenCount b l ∧
    setCount b (.eventCreated c n :: l) = setCount b l ∧
    (Orderly b l → Orderly b (.eventCreated c n :: l)) := by
  refine ⟨rfl, ?_, ?_, fun ho => ⟨ho, fun _ heq => by cases heq⟩⟩
  · unfold wokenCount
    exact countP_cons_of_neg (by simp)
  · unfold setCount
    exact count_cons_of_ne (by simp)

theorem Content.grow (hs : Seated arch x) (hc : Content arch x)
    (htypes : x'.eventObjectType = x.eventObjectType ∧ x'.mutexObjectType = x.mutexObjectType)
    (hnext : x.next ≤ x'.next)
    (hhist : x'.history = x.history ∨ ∃ b n, x.next ≤ b ∧ b < x'.next ∧
      x'.history = .eventCreated b n :: x.history)
    (hmem : ∀ p, p < x.next → x'.mem p = x.mem p)
    (hlook : ∀ k o, x'.ob.lookup k = some o → IsSync x o →
      x.ob.lookup k = some o ∨ x.next ≤ o.body ∧
      (o.type = x.mutexObjectType → readLE x'.mem o.body 4 = 0 ∧
        readLE x'.mem (o.body + mutexOwner arch) arch.ptrBytes = 0) ∧
      (o.type = x.eventObjectType → readLE x'.mem o.body 4 = 0 ∧
        ∀ n, .eventCreated o.body n ∈ x'.history →
          readLE x'.mem (o.body + eventManualReset) 4 = u32 n)) : Content arch x' := by
  obtain ⟨he, hm⟩ := htypes
  have hsame : ∀ b, holder b x'.history = holder b x.history ∧
      wokenCount b x'.history = wokenCount b x.history ∧
      setCount b x'.history = setCount b x.history ∧ Orderly b x'.history := by
    intro b
    rcases hhist with heq | ⟨c, n, _, _, heq⟩
    · rw [heq]
      exact ⟨rfl, rfl, rfl, hc.orderly b⟩
    · rw [heq]
      obtain ⟨h1, h2, h3, h4⟩ := eventCreated_history (b := b) (l := x.history) c n
      exact ⟨h1, h2, h3, h4 (hc.orderly b)⟩
  have hfresh : ∀ b, x.next ≤ b → ∀ e ∈ x.history, e.body ≠ b := by
    rintro b hb e hin rfl
    exact absurd (hc.bounded e hin) (not_lt.mpr hb)
  have hcreated : ∀ b n, .eventCreated b n ∈ x'.history →
      .eventCreated b n ∈ x.history ∨ x.next ≤ b := by
    intro b n hin
    rcases hhist with heq | ⟨c, n', hge, _, heq⟩
    · rw [heq] at hin
      exact .inl hin
    · rw [heq] at hin
      rcases mem_cons.mp hin with hcase | hin
      · cases hcase
        exact .inr hge
      · exact .inl hin
  -- old bodies are below the new ones
  have hold : ∀ k o, x.ob.lookup k = some o → o.body ≠ 0 → o.body < x.next ∧
      ∀ i, i < o.bodySize → x'.mem (o.body + i) = x.mem (o.body + i) := by
    intro k o hk hb
    obtain ⟨h1, h2, h3⟩ := hs.placed.inside k o hk hb
    exact ⟨by omega, fun i hi => hmem _ (by omega)⟩
  refine ⟨fun k o hk hty => ?_, fun k o hk hty => ?_, fun k o n hk hty hin => ?_,
    fun b => (hsame b).2.2.2, fun e hin => ?_, fun b n hin hz => ?_⟩
  · rw [hm] at hty
    rcases hlook k o hk (.inl hty) with hk | ⟨hge, hnew, _⟩
    · obtain ⟨hb, hsize⟩ := hs.mutexes k o hk hty
      have hok : MutexOk arch x'.mem o.body ([] ++ x.history) :=
        (hc.mutexes k o hk hty).congr (fun i hi =>
          (hold k o hk hb).2 i (by rw [hsize]; exact hi)) (by simp)
      unfold MutexOk at hok ⊢
      rw [(hsame o.body).1]
      exact hok
    · have hnone := (fresh_history (hfresh o.body hge)).1
      unfold MutexOk
      rw [(hsame o.body).1, hnone]
      exact hnew hty
  · rw [he] at hty
    rcases hlook k o hk (.inr hty) with hk | ⟨hge, _, hnew⟩
    · obtain ⟨hb, hsize⟩ := hs.events k o hk hty
      have hok : EventOk x'.mem o.body ([] ++ x.history) :=
        (hc.events k o hk hty).congr (fun i hi =>
          (hold k o hk hb).2 i (by rw [hsize]; exact hi)) (by simp)
      unfold EventOk at hok ⊢
      rw [(hsame o.body).2.1, (hsame o.body).2.2.1]
      exact hok
    · intro _
      obtain ⟨_, h2, h3⟩ := fresh_history (hfresh o.body hge)
      rw [(hsame o.body).2.1, (hsame o.body).2.2.1, h2, h3, if_pos (hnew hty).1]
  · rw [he] at hty
    rcases hlook k o hk (.inr hty) with hk | ⟨hge, _, hnew⟩
    · obtain ⟨hb, hsize⟩ := hs.events k o hk hty
      obtain ⟨hlt, hkeep⟩ := hold k o hk hb
      rw [(event_readLE fun i hi => hkeep i (by rw [hsize]; exact hi)).2]
      exact hc.manual k o n hk hty ((hcreated _ n hin).resolve_right (not_le.mpr hlt))
    · exact (hnew hty).2 n hin
  · rcases hhist with heq | ⟨c, n', _, hlt, heq⟩
    · rw [heq] at hin
      exact lt_of_lt_of_le (hc.bounded e hin) hnext
    · rw [heq] at hin
      rcases mem_cons.mp hin with rfl | hin
      · exact hlt
      · exact lt_of_lt_of_le (hc.bounded e hin) hnext
  · rw [(hsame b).2.1, (hsame b).2.2.1]
    rcases hcreated b n hin with hin | hge
    · exact hc.counted b n hin hz
    · rw [(fresh_history (hfresh b hge)).2.1]
      exact Nat.zero_le _

end Contents

/-! ## Runs -/

section Runs

variable {x x' : Executive} {arch : Arch} {alloc : Allocator} {h t : Nat} {o : Object}

structure SyncSafe (arch : Arch) (x : Executive) : Prop where
  seated : Seated arch x
  content : Content arch x

theorem Ends.safe {c : Call} (hsafe : SyncSafe arch x) (hl : x.ob.lookup h = some o)
    (hty : o.type = c.type x) (hb : o.body ≠ 0) (ht : ThreadAddress t)
    (hfree : ∀ kind : WaitKind, c = kind.call → ¬ Blocked kind o.body x.mem)
    (he : Ends (effect arch t c o.body x.mem) (recorded t c o.body) x x') : SyncSafe arch x' := by
  refine ⟨he.seated hsafe.seated, ?_⟩
  have hmid := hsafe.content.effect hsafe.seated c hl hty hb ht hfree
  have hseat : Seated arch { x with
      mem := effect arch t c o.body x.mem
      history := recorded t c o.body ++ x.history } :=
    hsafe.seated.congr ⟨hsafe.seated.placed.refs, hsafe.seated.placed.inside,
      hsafe.seated.placed.apart, hsafe.seated.placed.waits⟩ (fun _ => rfl) rfl rfl rfl rfl
  refine hmid.keep hseat ⟨he.eventType, he.mutexType⟩ he.next.ge he.history (fun k o' hk _ => ?_)
    fun k p p' _ _ _ i _ => by rw [he.mem]
  have hview := he.view k
  rw [hk, Option.map_some, eq_comm, Option.map_eq_some_iff] at hview
  obtain ⟨p, hp, heq⟩ := hview
  simp only [Ke.view, Prod.mk.injEq] at heq
  exact ⟨p, hp, heq.1.symm, heq.2.2.1.symm⟩

theorem SyncSafe.call {c : Call} (hsafe : SyncSafe arch x) (hw : waitOf x t = none)
    (ht : ThreadAddress t) (hl : x.ob.lookup h = some o) (hty : o.type = c.type x)
    (hroom : c = .keTerminateThread → o.refCount + 1 < 2 ^ 32) :
    SyncSafe arch (call arch t h c x) := by
  obtain ⟨hpos, hlt⟩ := hsafe.seated.placed.refs h o hl
  by_cases hb : o.body = 0
  · -- only a thread can be without a body
    have hno : ¬ IsSync x o := by
      rintro (hm | he)
      · exact (hsafe.seated.mutexes h o hl hm).1 hb
      · exact (hsafe.seated.events h o hl he).1 hb
    have hterm : c = .keTerminateThread := by
      cases c with
      | keTerminateThread => rfl
      | keSetEventHandle => exact absurd (.inr hty) hno
      | keResetEventHandle => exact absurd (.inr hty) hno
      | keWaitEvent => exact absurd (.inr hty) hno
      | keWaitMutex => exact absurd (.inl hty) hno
      | keReleaseMutex => exact absurd (.inl hty) hno
    rw [call_null c hl hb]
    refine ⟨hsafe.seated.take hl hno (hroom hterm), ?_⟩
    refine hsafe.content.keep hsafe.seated ⟨rfl, rfl⟩ le_rfl rfl (fun k o' hk hsync => ?_)
      fun _ _ _ _ _ _ _ _ => rfl
    dsimp only at hk
    rw [ObState.lookup_put (ObState.lt_of_lookup hl)] at hk
    split at hk
    · cases hk
      exact absurd hsync hno
    · exact ⟨o', hk, rfl, rfl⟩
  · by_cases hblocked : ∃ kind : WaitKind, c = kind.call ∧ Blocked kind o.body x.mem
    · obtain ⟨kind, rfl, hblocked⟩ := hblocked
      have heq : Ke.call arch t h kind.call x = { x with
          ob := x.ob.put h o.take
          waiting := ⟨t, kind, h, o.body⟩ :: x.waiting } := by
        cases kind with
        | mutex => exact keWait_blocked hl hb hblocked
        | event => exact keWait_blocked hl hb hblocked
      rw [heq]
      refine ⟨hsafe.seated.block hl hty hb ht hw, ?_⟩
      refine hsafe.content.keep hsafe.seated ⟨rfl, rfl⟩ le_rfl rfl (fun k o' hk _ => ?_)
        fun _ _ _ _ _ _ _ _ => rfl
      dsimp only at hk
      rw [ObState.lookup_put (ObState.lt_of_lookup hl)] at hk
      split at hk
      · rename_i hkh
        cases hk
        exact ⟨o, hkh ▸ hl, rfl, rfl⟩
      · exact ⟨o', hk, rfl, rfl⟩
    · have hfree : ∀ kind : WaitKind, c = kind.call → ¬ Blocked kind o.body x.mem :=
        fun kind hc hbl => hblocked ⟨kind, hc, hbl⟩
      rcases call_spec (t := t) c hl hb hpos hlt with he | ⟨kind, hc, hbl, _⟩
      · exact he.safe hsafe hl hty hb ht hfree
      · exact absurd hbl (hfree kind hc)

theorem SyncSafe.resume (hsafe : SyncSafe arch x) (t : Nat) : SyncSafe arch (resume arch t x) := by
  unfold Ke.resume
  cases hw : waitOf x t with
  | none => exact hsafe
  | some w =>
    have hmem : w ∈ x.waiting := mem_of_find?_eq_some hw
    have hthread : w.thread = t := by
      have hfound := find?_some hw
      simpa using hfound
    obtain ⟨o, hl, hbody, hty⟩ := hsafe.seated.waits w hmem
    have hb : o.body ≠ 0 := by
      rcases isSync_of_wait hty with hm | he
      · exact (hsafe.seated.mutexes _ o hl hm).1
      · exact (hsafe.seated.events _ o hl he).1
    have ht : ThreadAddress t := hthread ▸ hsafe.seated.threads.2 w hmem
    dsimp only
    by_cases hblocked : Blocked w.kind w.body x.mem
    · rw [poll_blocked hblocked]
      exact hsafe
    · rw [poll_free hblocked]
      dsimp only
      have hfree : ∀ kind : WaitKind, w.kind.call = kind.call → ¬ Blocked kind o.body x.mem := by
        intro kind heq
        have hkind : w.kind = kind := by
          revert heq
          cases w.kind <;> cases kind <;> simp [WaitKind.call]
        rw [hbody, ← hkind]
        exact hblocked
      have hmid := hsafe.content.effect hsafe.seated w.kind.call hl hty hb ht hfree
      rw [hbody] at hmid
      have hplaced : Placed arch { x with
          mem := effect arch t w.kind.call w.body x.mem
          history := recorded t w.kind.call w.body ++ x.history } :=
        ⟨hsafe.seated.placed.refs, hsafe.seated.placed.inside, hsafe.seated.placed.apart,
          hsafe.seated.placed.waits⟩
      have hseat := hsafe.seated.congr hplaced (fun _ => rfl) rfl rfl rfl rfl
      refine ⟨hsafe.seated.wake hmem rfl rfl hplaced ⟨rfl, rfl, rfl⟩, ?_⟩
      have hdone := hmid.dereference hseat w.handle
      exact ⟨hdone.mutexes, hdone.events, hdone.manual, hdone.orderly, hdone.bounded, hdone.counted⟩

theorem SyncSafe.create {y : Executive} {b size : Nat} (hsafe : SyncSafe arch x)
    (hob : y.ob = x.ob) (htypes : y.threadObjectType = x.threadObjectType ∧
      y.eventObjectType = x.eventObjectType ∧ y.mutexObjectType = x.mutexObjectType)
    (hwait : y.waiting = x.waiting) (hnext : x.next ≤ y.next)
    (hhist : y.history = x.history ∨ ∃ b n, x.next ≤ b ∧ b < y.next ∧
      y.history = .eventCreated b n :: x.history)
    (hmem : ∀ p, p < x.next → y.mem p = x.mem p)
    (hb : b ≠ 0 → size ≠ 0 ∧ b = x.next + Mm.sizeofHeapBlock arch ∧
      y.next = b + (size + 7) / 8 * 8) (alloc : Allocator) (type : Nat) (name : Option Name)
    (hmutex : type = x.mutexObjectType → b ≠ 0 ∧ size = sizeofMutex arch ∧
      readLE y.mem b 4 = 0 ∧ readLE y.mem (b + mutexOwner arch) arch.ptrBytes = 0)
    (hevent : type = x.eventObjectType → b ≠ 0 ∧ size = sizeofEvent ∧ readLE y.mem b 4 = 0 ∧
      ∀ n, .eventCreated b n ∈ y.history → readLE y.mem (b + eventManualReset) 4 = u32 n) :
    SyncSafe arch (y.createObject alloc type name b size).2 := by
  have hp := hsafe.seated.placed.create hob hnext hwait hb alloc type name
  rcases createObject_cases alloc type name b size y with
    heq | ⟨i, ob', o, heq, hfree, ho, hty, hr, hbody, hsize, hother, _⟩
  · rw [heq] at hp ⊢
    refine ⟨hsafe.seated.congr hp (fun k => by dsimp only; rw [hob]) hwait htypes.1 htypes.2.1
      htypes.2.2, hsafe.content.grow hsafe.seated htypes.2 hnext hhist hmem fun k p hk _ => .inl ?_⟩
    rw [← hob]
    exact hk
  · rw [heq] at hp ⊢
    rw [hob] at hfree hother
    refine ⟨hsafe.seated.add hp htypes hwait hfree hother fun p hp' => ?_,
      hsafe.content.grow hsafe.seated htypes.2 hnext hhist hmem fun k p hk hsync => ?_⟩
    · cases hp'.symm.trans ho
      refine ⟨hr, fun hm => ?_, fun he => ?_⟩
      · obtain ⟨h1, h2, _⟩ := hmutex (hty.symm.trans hm)
        exact ⟨by rw [hbody]; exact h1, hsize.trans h2⟩
      · obtain ⟨h1, h2, _⟩ := hevent (hty.symm.trans he)
        exact ⟨by rw [hbody]; exact h1, hsize.trans h2⟩
    · by_cases hki : k = i
      · subst hki
        have hpo : p = o := Option.some.inj ((show ob'.lookup k = some p from hk).symm.trans ho)
        subst hpo
        right
        have hb0 : b ≠ 0 := by
          rcases hsync with hm | he
          · exact (hmutex (hty.symm.trans hm)).1
          · exact (hevent (hty.symm.trans he)).1
        have hge := (hb hb0).2.1
        rw [hbody]
        exact ⟨by omega, fun hm => (hmutex (hty.symm.trans hm)).2.2,
          fun he => (hevent (hty.symm.trans he)).2.2⟩
      · left
        exact (hother k hki).symm.trans hk

theorem readLE_memset {m : Mem} {b n off k : Nat} (hin : off + k ≤ n) :
    readLE (writeLE m b n 0) (b + off) k = 0 := by
  have hread : readLE (writeLE m b n 0) (b + off) k = 0 % 256 ^ k := by
    refine readLE_digits fun i hi => ?_
    rw [Nat.add_assoc, writeLE_in (by omega), Nat.zero_div, Nat.zero_div]
  exact hread.trans (Nat.zero_mod _)

theorem SyncSafe.createMutex (hsafe : SyncSafe arch x) (alloc : Allocator) :
    SyncSafe arch (((keCreateMutex arch alloc x).map Prod.snd).getD x) := by
  have hptr : 4 ≤ arch.ptrBytes := by cases arch <;> decide
  have hsize : sizeofMutex arch = 2 * arch.ptrBytes := rfl
  have howner : mutexOwner arch = arch.ptrBytes := rfl
  unfold keCreateMutex
  rcases kmalloc_cases arch alloc (sizeofMutex arch) x with hm | ⟨hs, hm⟩
  · rw [hm]
    exact hsafe
  rw [hm]
  dsimp only
  split
  · exact hsafe
  · rename_i hb
    refine hsafe.create ?_ ?_ ?_ ?_ ?_ (fun p hp => ?_) ?_ alloc _ _
      (fun _ => ⟨hb, rfl, ?_, ?_⟩) fun he => ?_
    · rfl
    · exact ⟨rfl, rfl, rfl⟩
    · rfl
    · simp only [Executive.store]
      omega
    · exact .inl rfl
    · exact writeLE_out (by omega)
    · exact fun _ => ⟨hs, rfl, rfl⟩
    · have hzero := readLE_memset (m := x.mem) (b := x.next + Mm.sizeofHeapBlock arch)
        (n := sizeofMutex arch) (k := 4) (show 0 + 4 ≤ sizeofMutex arch by omega)
      exact hzero
    · exact readLE_memset (by omega)
    · exact absurd he hsafe.seated.typesNe.1

theorem SyncSafe.createEvent (hsafe : SyncSafe arch x) (alloc : Allocator) (manualReset : Nat) :
    SyncSafe arch (((keCreateEvent arch alloc manualReset x).map Prod.snd).getD x) := by
  have hoff : eventManualReset = 4 := rfl
  have hsize : sizeofEvent = 8 := rfl
  unfold keCreateEvent
  rcases kmalloc_cases arch alloc sizeofEvent x with hm | ⟨hs, hm⟩
  · rw [hm]
    exact hsafe
  rw [hm]
  dsimp only
  split
  · exact hsafe
  · rename_i hb
    refine hsafe.create ?_ ?_ ?_ ?_ ?_ (fun p hp => ?_) ?_ alloc _ _
      (fun hmx => ?_) fun _ => ⟨hb, rfl, ?_, fun n hin => ?_⟩
    · rfl
    · exact ⟨rfl, rfl, rfl⟩
    · rfl
    · simp only [Executive.store, Executive.log]
      omega
    · refine .inr ⟨x.next + Mm.sizeofHeapBlock arch, manualReset, by omega, ?_, rfl⟩
      simp only [Executive.store, Executive.log]
      omega
    · exact (writeLE_out (by omega)).trans (writeLE_out (by omega))
    · exact fun _ => ⟨hs, rfl, rfl⟩
    · exact absurd hmx.symm hsafe.seated.typesNe.1
    · have hzero := readLE_memset (m := x.mem) (b := x.next + Mm.sizeofHeapBlock arch)
        (n := sizeofEvent) (k := 4) (show 0 + 4 ≤ sizeofEvent by omega)
      refine (readLE_writeLE_other ?_).trans hzero
      omega
    · -- this is the first event with that body
      have hn : n = manualReset := by
        rcases mem_cons.mp hin with heq | hin
        · cases heq
          rfl
        · have hlt := hsafe.content.bounded _ hin
          simp only [SyncEvent.body] at hlt
          omega
      rw [hn]
      exact readLE_writeLE_same _ _ _ _

theorem SyncSafe.step {a : Act} (hsafe : SyncSafe arch x) (hok : Proper a x) :
    SyncSafe arch (step arch alloc a x) := by
  cases a with
  | obRegisterObjectType name proc =>
    have hlook : ∀ k, (obRegisterObjectType name (proc.map .other) x.ob).2.lookup k =
        x.ob.lookup k := fun k => register_lookup name _
    have hp : Placed arch { x with ob := (obRegisterObjectType name (proc.map .other) x.ob).2 } :=
      Placed.step alloc (a := .obRegisterObjectType name proc) hsafe.seated.placed trivial
    exact ⟨hsafe.seated.congr hp (fun k => congrArg (Option.map view) (hlook k)) rfl rfl rfl rfl,
      hsafe.content.keep hsafe.seated ⟨rfl, rfl⟩ le_rfl rfl
        (fun k o hk _ => ⟨o, (hlook k).symm.trans hk, rfl, rfl⟩) fun _ _ _ _ _ _ _ _ => rfl⟩
  | obCreateObject type name size =>
    change SyncSafe arch (Executive.createObject alloc type name (x.kmalloc arch alloc size).1 size
      (x.kmalloc arch alloc size).2).2
    rcases kmalloc_cases arch alloc size x with hm | ⟨hs, hm⟩
    · rw [hm]
      refine hsafe.create ?_ ?_ ?_ ?_ ?_ ?_ ?_ alloc type name (fun h => absurd h hok.1)
        fun h => absurd h hok.2
      · rfl
      · exact ⟨rfl, rfl, rfl⟩
      · rfl
      · exact le_rfl
      · exact .inl rfl
      · exact fun _ _ => rfl
      · exact fun h => absurd rfl h
    · rw [hm]
      refine hsafe.create ?_ ?_ ?_ ?_ ?_ ?_ ?_ alloc type name (fun h => absurd h hok.1)
        fun h => absurd h hok.2
      · rfl
      · exact ⟨rfl, rfl, rfl⟩
      · rfl
      · dsimp only
        omega
      · exact .inl rfl
      · exact fun _ _ => rfl
      · exact fun _ => ⟨hs, rfl, rfl⟩
  | obReferenceObject handle =>
    change SyncSafe arch (x.reference handle).2
    cases hl : x.ob.lookup handle with
    | none =>
      rw [reference_none hl]
      exact hsafe
    | some o =>
      rw [reference_some hl]
      obtain ⟨hno, hroom⟩ := hok o hl
      refine ⟨hsafe.seated.take hl hno hroom, hsafe.content.keep hsafe.seated ⟨rfl, rfl⟩ le_rfl rfl
        (fun k o' hk hsync => ?_) fun _ _ _ _ _ _ _ _ => rfl⟩
      dsimp only at hk
      rw [ObState.lookup_put (ObState.lt_of_lookup hl)] at hk
      split at hk
      · cases hk
        exact absurd hsync hno
      · exact ⟨o', hk, rfl, rfl⟩
  | obDereferenceObject handle =>
    exact ⟨hsafe.seated.close hok, hsafe.content.dereference hsafe.seated handle⟩
  | write mem =>
    have hp := hsafe.seated.placed
    exact ⟨hsafe.seated.congr ⟨hp.refs, hp.inside, hp.apart, hp.waits⟩ (fun _ => rfl) rfl rfl rfl
      rfl, hsafe.content.keep hsafe.seated ⟨rfl, rfl⟩ le_rfl rfl
        (fun k o hk _ => ⟨o, hk, rfl, rfl⟩) fun k o _ _ ho hsync => hok k o ho hsync⟩
  | keCreateMutex => exact hsafe.createMutex alloc
  | keCreateEvent manualReset => exact hsafe.createEvent alloc manualReset
  | call thread handle c =>
    obtain ⟨ht, o, hl, hty, hroom⟩ := hok
    change SyncSafe arch (if (waitOf x thread).isSome then x else Ke.call arch thread handle c x)
    split
    · exact hsafe
    · rename_i hw
      exact hsafe.call (by simpa using hw) ht hl hty hroom
  | resume thread => exact hsafe.resume thread

theorem syncSafe_boot (mem : Mem) (heap : Nat) : SyncSafe arch (keBoot mem heap) := by
  have hlook := keBoot_lookup mem heap
  have hp : Placed arch (keBoot mem heap) :=
    Reachable.placed (.boot mem heap : Reachable arch (fun _ _ => true) Roomy (keBoot mem heap))
  have hwait : (keBoot mem heap).waiting = [] := rfl
  have hhist : (keBoot mem heap).history = [] := rfl
  have htypes : (keBoot mem heap).mutexObjectType = 6 ∧ (keBoot mem heap).eventObjectType = 5 ∧
      (keBoot mem heap).threadObjectType = 4 := by
    change (keBoot (fun _ => 0) 0).mutexObjectType = 6 ∧ (keBoot (fun _ => 0) 0).eventObjectType = 5 ∧
      (keBoot (fun _ => 0) 0).threadObjectType = 4
    decide +kernel
  refine ⟨⟨hp, ?_, ?_, ?_, ?_, ?_, ?_⟩, ⟨?_, ?_, ?_, ?_, ?_, ?_⟩⟩
  · rw [htypes.1, htypes.2.1, htypes.2.2]
    decide
  · rw [hwait]
    simp
  · simp [hlook]
  · simp [hlook]
  · rw [hwait]
    simp
  · simp [hlook]
  · simp [hlook]
  · simp [hlook]
  · simp [hlook]
  · rw [hhist]
    exact fun _ => trivial
  · rw [hhist]
    simp
  · rw [hhist]
    simp

theorem Reachable.syncSafe (hr : Reachable arch alloc Proper x) : SyncSafe arch x := by
  induction hr with
  | boot mem heap => exact syncSafe_boot mem heap
  | step _ hok ih => exact ih.step hok

theorem SyncSafe.release_other (hsafe : SyncSafe arch x) (ht : ThreadAddress t)
    (hl : x.ob.lookup h = some o) (hty : o.type = x.mutexObjectType)
    (hother : holder o.body x.history ≠ some t) :
    Ends x.mem [.released t o.body] x (keReleaseMutex arch t h x) := by
  obtain ⟨hpos, hlt⟩ := hsafe.seated.placed.refs h o hl
  have hb := (hsafe.seated.mutexes h o hl hty).1
  have howner := (hsafe.content.mutexes h o hl hty).owner_iff ht.1
  have hmem : effect arch t .keReleaseMutex o.body x.mem = x.mem :=
    if_neg fun h => hother (howner.mp h)
  rcases call_spec (t := t) .keReleaseMutex hl hb hpos hlt with he | ⟨kind, hc, _⟩
  · rw [hmem] at he
    exact he
  · cases kind with
    | mutex => cases hc
    | event => cases hc

end Runs

/-- In every run of threads over the handles of `KeCreateMutex` and `KeCreateEvent`: mutual
exclusion, no effect of a release by another thread, and an auto-reset event was not waited for more
often than it was set. -/
theorem sync_safe (arch : Arch) (alloc : Allocator) {x : Executive}
    (hr : Reachable arch alloc Proper x) :
    (∀ t t' b new mid old,
      x.history = new ++ .acquired t' b :: (mid ++ .acquired t b :: old) → .released t b ∈ mid) ∧
    (∀ t h o, ThreadAddress t → x.ob.lookup h = some o → o.type = x.mutexObjectType →
      holder o.body x.history ≠ some t →
      (keReleaseMutex arch t h x).mem = x.mem ∧
      (∀ k, ((keReleaseMutex arch t h x).ob.lookup k).map view = (x.ob.lookup k).map view) ∧
      (keReleaseMutex arch t h x).waiting = x.waiting ∧
      ∀ b, holder b (keReleaseMutex arch t h x).history = holder b x.history) ∧
    ∀ b, .eventCreated b 0 ∈ x.history → wokenCount b x.history ≤ setCount b x.history := by
  have hsafe := hr.syncSafe
  refine ⟨fun t t' b new mid old heq => ?_, fun t h o ht hl hty hother => ?_, fun b hin => ?_⟩
  · have horderly := hsafe.content.orderly b
    rw [heq] at horderly
    exact released_between horderly
  · have he := hsafe.release_other ht hl hty hother
    refine ⟨he.mem, he.view, he.waiting, fun b => ?_⟩
    rw [he.history]
    refine if_neg fun hb => hother ?_
    rw [hb.1]
    exact hb.2
  · exact hsafe.content.counted b 0 hin rfl

/-- Two threads and a mutex: the second waits, its own release does nothing, and it gets the mutex
after the first released it. -/
theorem sync_safe_two :
    let step := step .amd64 (fun _ _ => true)
    let x1 := step .keCreateMutex (keBoot (fun _ => 0) 4096)
    let x2 := step (.call 8 0 .keWaitMutex) x1
    let x3 := step (.call 16 0 .keWaitMutex) x2
    let x4 := step (.call 8 0 .keReleaseMutex) x3
    let x5 := step (.resume 16) x4
    x3.waiting = [⟨16, .mutex, 0, 4112⟩] ∧ (keReleaseMutex .amd64 16 0 x3).mem = x3.mem ∧
    x5.history = [.acquired 16 4112, .released 8 4112, .acquired 8 4112] ∧
    SyncEvent.released 8 4112 ∈ [SyncEvent.released 8 4112] := by
  intro step x1 x2 x3 x4 x5
  let mutex (refCount taken released : Nat) : Object :=
    ⟨keCreateMutex.mutexName, 6, refCount, 4112, 16, 0, taken, released⟩
  have hlook : x1.ob.lookup 0 = some (mutex 1 0 0) ∧ x2.ob.lookup 0 = some (mutex 1 1 1) ∧
      x3.ob.lookup 0 = some (mutex 2 2 1) := by decide +kernel
  have htype : x1.mutexObjectType = 6 ∧ x2.mutexObjectType = 6 ∧ x3.mutexObjectType = 6 := by
    decide +kernel
  have hholder : holder 4112 x3.history ≠ some 16 := by decide +kernel
  have hwaiting : x3.waiting = [⟨16, .mutex, 0, 4112⟩] := by decide +kernel
  have hhist : x5.history = [.acquired 16 4112, .released 8 4112, .acquired 8 4112] := by
    decide +kernel
  have haddr : ThreadAddress 8 ∧ ThreadAddress 16 :=
    ⟨⟨by decide, by decide, by decide⟩, ⟨by decide, by decide, by decide⟩⟩
  have hr1 : Reachable .amd64 (fun _ _ => true) Proper x1 := .step (.boot _ _) trivial
  have hr2 : Reachable .amd64 (fun _ _ => true) Proper x2 :=
    .step hr1 ⟨haddr.1, _, hlook.1, htype.1.symm, fun h => by cases h⟩
  have hr3 : Reachable .amd64 (fun _ _ => true) Proper x3 :=
    .step hr2 ⟨haddr.2, _, hlook.2.1, htype.2.1.symm, fun h => by cases h⟩
  have hr4 : Reachable .amd64 (fun _ _ => true) Proper x4 :=
    .step hr3 ⟨haddr.1, _, hlook.2.2, htype.2.2.symm, fun h => by cases h⟩
  have hr5 : Reachable .amd64 (fun _ _ => true) Proper x5 := .step hr4 trivial
  have hrelease := (sync_safe .amd64 _ hr3).2.1 16 0 _ haddr.2 hlook.2.2 htype.2.2.symm hholder
  have hbetween := (sync_safe .amd64 _ hr5).1 8 16 4112 [] [.released 8 4112] [] hhist
  exact ⟨hwaiting, hrelease.1, hhist, hbetween⟩

end DiscouNT.Ke
