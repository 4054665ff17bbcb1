import DiscouNT.Io.Transport
import Mathlib.Data.List.Induction

/-!
# Io.TransportRuns

Requests over every run of the transport: each is delivered exactly once.

* `Lawful` says of a history which call may succeed after which: it is about histories alone.
* `Kept` ties the slots to the history. Each call either changes nothing but memory or moves one
  slot on (`Moves`), and keeps it.
* `transport_exactly_once` reads the result off a lawful history, token by token.
-/

namespace DiscouNT.Wudf

open Lib List

def Completed (s : Nat) (l : List Event) : Prop :=
  ∃ e ep token status information, .completed s e ep token status information ∈ l

def Reaped (s : Nat) (l : List Event) : Prop :=
  ∃ e ep token status information, .reaped s e ep token status information ∈ l

def isSubmission (e ep : Nat) : Event → Bool
  | .submitted _ e' ep' _ _ => decide (e' = e) && decide (ep' = ep)
  | _ => false

def submissions (e ep : Nat) (l : List Event) : Nat := l.countP (isSubmission e ep)

def Rule (old : List Event) : Event → Prop
  | .submitted s e ep i p =>
    (∀ s' e' ep' i' p', .submitted s' e' ep' i' p' ∈ old → s' < s) ∧
    p.token = u32 (1 + submissions e ep old) ∧
    ∀ s' p', .submitted s' e ep i p' ∈ old → Reaped s' old
  | .polled s e ep p => (∃ i, .submitted s e ep i p ∈ old) ∧ ¬ Completed s old
  | .completed s e ep token _ _ =>
    (∃ i p, .submitted s e ep i p ∈ old ∧ p.token = token) ∧ ¬ Completed s old
  | .reaped s e ep token status information =>
    .completed s e ep token status information ∈ old ∧ ¬ Reaped s old

def Lawful : List Event → Prop
  | [] => True
  | ev :: old => Lawful old ∧ Rule old ev

section Histories

variable {e ep s s' i i' token status information : Nat} {p p' : Packet} {ev : Event}
  {l old new : List Event}

theorem Lawful.drop (h : Lawful (new ++ l)) : Lawful l := by
  induction new with
  | nil => exact h
  | cons ev new ih => exact ih h.1

theorem Lawful.rule (h : Lawful (new ++ ev :: old)) : Rule old ev := (Lawful.drop h).2

theorem submissions_append (new l : List Event) :
    submissions e ep (new ++ l) = submissions e ep new + submissions e ep l :=
  countP_append

theorem submissions_self : submissions e ep (.submitted s e ep i p :: l) = submissions e ep l + 1 :=
  countP_cons_of_pos (by simp [isSubmission])

/-- Two accepted submissions of one registration: the later one has the larger number, and another
token unless the counter went round. -/
theorem Lawful.token_ne {mid : List Event}
    (h : Lawful (new ++ .submitted s e ep i p :: (mid ++ .submitted s' e ep i' p' :: old)))
    (hfew : submissions e ep (new ++ .submitted s e ep i p ::
      (mid ++ .submitted s' e ep i' p' :: old)) < 2 ^ 32 - 1) : p.token ≠ p'.token := by
  have hlate := h.rule.2.1
  have hearly : p'.token = u32 (1 + submissions e ep old) := by
    have hdrop := (Lawful.drop h).1
    exact hdrop.rule.2.1
  rw [submissions_append, submissions_self, submissions_append, submissions_self] at hfew
  rw [submissions_append, submissions_self] at hlate
  rw [hlate, hearly, u32_of_lt (by omega), u32_of_lt (by omega)]
  omega

theorem Lawful.token_inj (h : Lawful l) (hfew : submissions e ep l < 2 ^ 32 - 1)
    (h1 : .submitted s e ep i p ∈ l) (h2 : .submitted s' e ep i' p' ∈ l)
    (htoken : p.token = p'.token) : s = s' := by
  obtain ⟨new, old, rfl⟩ := append_of_mem h1
  rcases mem_append.mp h2 with h2 | h2
  · -- the second one came later
    obtain ⟨new', mid, rfl⟩ := append_of_mem h2
    rw [append_assoc, cons_append] at h hfew
    exact absurd htoken.symm (h.token_ne hfew)
  · rcases mem_cons.mp h2 with h2 | h2
    · cases h2
      rfl
    · obtain ⟨mid, old', rfl⟩ := append_of_mem h2
      exact absurd htoken (h.token_ne hfew)

theorem Lawful.of_completed (h : Lawful l) (hin : .completed s e ep token status information ∈ l) :
    ∃ i p, .submitted s e ep i p ∈ l ∧ p.token = token := by
  obtain ⟨new, old, rfl⟩ := append_of_mem hin
  obtain ⟨i, p, hsub, htoken⟩ := h.rule.1
  exact ⟨i, p, mem_append_right _ (mem_cons_of_mem _ hsub), htoken⟩

theorem Lawful.of_reaped (h : Lawful l) (hin : .reaped s e ep token status information ∈ l) :
    .completed s e ep token status information ∈ l := by
  obtain ⟨new, old, rfl⟩ := append_of_mem hin
  exact mem_append_right _ (mem_cons_of_mem _ h.rule.1)

end Histories

/-! ## What a call does -/

/-- Every call changes nothing but memory, or takes one of these steps. The endpoint is given by its
index, which is its number less one. -/
inductive Moves (x x' : Transport) : Prop where
  | same : x'.endpoints = x.endpoints → x'.serial = x.serial → x'.history = x.history → Moves x x'
  | register (n : Nat) (q : Endpoint) : n < maxEndpoints → q.used = true → q.nextToken = 1 →
      q.epoch = (x.endpoints n).epoch + 1 →
      (∀ i < queueDepth, (q.slots i).ready = false ∧ (q.slots i).completed = false) →
      x'.endpoints = Function.update x.endpoints n q → x'.serial = x.serial →
      x'.history = x.history → Moves x x'
  | unregister (n : Nat) :
      x'.endpoints = Function.update x.endpoints n { x.endpoints n with used := false } →
      x'.serial = x.serial → x'.history = x.history → Moves x x'
  | submit (n i : Nat) (v : Slot) : n < maxEndpoints → (x.endpoints n).used = true →
      (x.endpoints n).findSlot isFree = some i → v.packet.token = (x.endpoints n).nextToken →
      v.ready = true → v.completed = false → v.serial = x.serial →
      v.epoch = (x.endpoints n).epoch →
      x'.endpoints = Function.update x.endpoints n { (x.endpoints n).setSlot i v with
        nextToken := u32 ((x.endpoints n).nextToken + 1) } → x'.serial = x.serial + 1 →
      x'.history =
        .submitted x.serial (n + 1) (x.endpoints n).epoch i v.packet :: x.history → Moves x x'
  | poll (n i : Nat) (s : Slot) : n < maxEndpoints → (x.endpoints n).used = true →
      (x.endpoints n).findSlot Slot.ready = some i → (x.endpoints n).slots i = s →
      x'.endpoints = x.endpoints → x'.serial = x.serial →
      x'.history = .polled s.serial (n + 1) s.epoch s.packet :: x.history → Moves x x'
  | complete (n i token status information : Nat) (s v : Slot) : n < maxEndpoints →
      (x.endpoints n).used = true →
      ((x.endpoints n).findSlot fun s => s.ready && decide (s.packet.token = token)) = some i →
      (x.endpoints n).slots i = s →
      v.packet = s.packet → v.serial = s.serial → v.epoch = s.epoch → v.ready = false →
      v.completed = true → v.completionStatus = status → v.completionInformation = information →
      x'.endpoints = Function.update x.endpoints n ((x.endpoints n).setSlot i v) →
      x'.serial = x.serial →
      x'.history = .completed s.serial (n + 1) s.epoch token status information :: x.history →
      Moves x x'
  | reap (n i token : Nat) (s : Slot) : n < maxEndpoints → (x.endpoints n).used = true →
      ((x.endpoints n).findSlot fun s => s.completed && decide (s.packet.token = token)) = some i →
      (x.endpoints n).slots i = s →
      x'.endpoints =
        Function.update x.endpoints n ((x.endpoints n).setSlot i { s with completed := false }) →
      x'.serial = x.serial →
      x'.history = .reaped s.serial (n + 1) s.epoch token s.completionStatus
        s.completionInformation :: x.history → Moves x x'

section Calls

variable {x : Transport} {endpoint : Nat} {q : Endpoint}

theorem queue_spec (h : x.queue endpoint = some q) :
    ∃ n, n < maxEndpoints ∧ endpoint = n + 1 ∧ q = x.endpoints n ∧ q.used = true := by
  unfold Transport.queue at h
  split at h
  · cases h
  · rename_i hrange
    split at h
    · cases h
    · rename_i hused
      cases h
      refine ⟨endpoint - 1, ?_, ?_, rfl, by simpa using hused⟩
      · omega
      · omega

theorem queue_of_used {n : Nat} (hn : n < maxEndpoints) (hused : (x.endpoints n).used = true) :
    x.queue (n + 1) = some (x.endpoints n) := by
  unfold Transport.queue
  rw [if_neg (by omega), Nat.add_sub_cancel, if_neg (by simp [hused])]

theorem findSlot_spec {p : Slot → Bool} {i : Nat} (h : q.findSlot p = some i) :
    i < queueDepth ∧ p (q.slots i) = true ∧ ∀ j < i, p (q.slots j) = false := by
  unfold Endpoint.findSlot at h
  obtain ⟨hp, hi, hall⟩ := find?_range_eq_some.mp h
  exact ⟨mem_range.mp hi, hp, fun j hj => by simpa using hall j hj⟩

theorem findSlot_none {p : Slot → Bool} (h : q.findSlot p = none) {i : Nat} (hi : i < queueDepth) :
    p (q.slots i) = false := by
  have := find?_eq_none.mp h i (mem_range.mpr hi)
  simpa using this

theorem register_moves (x : Transport) : Moves x (wudfTransportRegisterEndpoint x).2 := by
  unfold wudfTransportRegisterEndpoint
  split
  · exact .same rfl rfl rfl
  · rename_i i hfind
    have hi := mem_range.mp (mem_of_find?_eq_some hfind)
    refine .register i _ hi ?_ ?_ ?_ (fun k hk => ?_) rfl rfl rfl
    · rfl
    · rfl
    · rfl
    · dsimp only
      rw [if_pos hk]
      exact ⟨rfl, rfl⟩

theorem submit_moves (endpoint majorFunction ioctlCode data inputLength outputLength token : Nat)
    (x : Transport) :
    Moves x (wudfTransportSubmit endpoint majorFunction ioctlCode data inputLength outputLength
      token x).2 := by
  unfold wudfTransportSubmit
  split
  · exact .same rfl rfl rfl
  · split
    · exact .same rfl rfl rfl
    · rename_i q hq
      obtain ⟨n, hn, rfl, rfl, hused⟩ := queue_spec hq
      split
      · exact .same rfl rfl rfl
      · rename_i i hfind
        have hfree := (findSlot_spec hfind).2.1
        simp only [isFree, Bool.and_eq_true, Bool.not_eq_true'] at hfree
        refine .submit n i _ hn hused hfind ?_ ?_ ?_ ?_ ?_ rfl rfl rfl
        · rfl
        · rfl
        · exact hfree.2
        · rfl
        · rfl

theorem poll_moves (endpoint packet : Nat) (x : Transport) :
    Moves x (wudfTransportPoll endpoint packet x).2 := by
  unfold wudfTransportPoll
  split
  · exact .same rfl rfl rfl
  · split
    · exact .same rfl rfl rfl
    · rename_i q hq
      obtain ⟨n, hn, rfl, rfl, hused⟩ := queue_spec hq
      split
      · exact .same rfl rfl rfl
      · rename_i i hfind
        exact .poll n i _ hn hused hfind rfl rfl rfl rfl

theorem complete_moves (endpoint token status information data dataLength : Nat) (x : Transport) :
    Moves x (wudfTransportComplete endpoint token status information data dataLength x).2 := by
  unfold wudfTransportComplete
  split
  · exact .same rfl rfl rfl
  · rename_i q hq
    obtain ⟨n, hn, rfl, rfl, hused⟩ := queue_spec hq
    split
    · exact .same rfl rfl rfl
    · rename_i i hfind
      refine .complete n i token status information _ _ hn hused hfind rfl ?_ ?_ ?_ ?_ ?_ ?_ ?_ rfl
        rfl rfl
      · rfl
      · rfl
      · rfl
      · rfl
      · rfl
      · rfl
      · rfl

theorem getCompletion_moves (endpoint token status information : Nat) (x : Transport) :
    Moves x (wudfTransportGetCompletion endpoint token status information x).2 := by
  unfold wudfTransportGetCompletion
  split
  · exact .same rfl rfl rfl
  · rename_i q hq
    obtain ⟨n, hn, rfl, rfl, hused⟩ := queue_spec hq
    split
    · exact .same rfl rfl rfl
    · rename_i i hfind
      exact .reap n i token _ hn hused hfind rfl rfl rfl rfl

theorem step_moves (a : Act) (x : Transport) : Moves x (step a x) := by
  cases a with
  | register => exact register_moves x
  | unregister endpoint =>
    change Moves x (wudfTransportUnregisterEndpoint endpoint x).2
    unfold wudfTransportUnregisterEndpoint
    split
    · exact .same rfl rfl rfl
    · rename_i q hq
      obtain ⟨n, _, rfl, rfl, _⟩ := queue_spec hq
      exact .unregister n rfl rfl rfl
  | submit endpoint majorFunction ioctlCode data inputLength outputLength token =>
    exact submit_moves endpoint majorFunction ioctlCode data inputLength outputLength token x
  | poll endpoint packet => exact poll_moves endpoint packet x
  | complete endpoint token status information data dataLength =>
    exact complete_moves endpoint token status information data dataLength x
  | getCompletion endpoint token status information =>
    exact getCompletion_moves endpoint token status information x
  | write mem => exact .same rfl rfl rfl

end Calls

/-! ## Slots and history -/

/-- A packet of the slot is under way: submitted, or completed and not yet fetched. -/
def Slot.busy (s : Slot) : Prop := s.ready = true ∨ s.completed = true

structure SlotOk (n i ep : Nat) (s : Slot) (l : List Event) : Prop where
  busy : s.busy → s.epoch = ep ∧ .submitted s.serial (n + 1) ep i s.packet ∈ l ∧ ¬ Reaped s.serial l
  ready : s.ready = true → s.completed = false ∧ ¬ Completed s.serial l
  completed : s.completed = true → .completed s.serial (n + 1) ep s.packet.token s.completionStatus
    s.completionInformation ∈ l

structure Kept (x : Transport) : Prop where
  lawful : Lawful x.history
  serials : ∀ s e ep i p, .submitted s e ep i p ∈ x.history → s < x.serial
  epochs : ∀ s e ep i p, .submitted s e ep i p ∈ x.history →
    1 ≤ e ∧ ep ≤ (x.endpoints (e - 1)).epoch
  tokens : ∀ n, (x.endpoints n).used = true →
    (x.endpoints n).nextToken = u32 (1 + submissions (n + 1) (x.endpoints n).epoch x.history)
  slots : ∀ n i, i < queueDepth →
    SlotOk n i (x.endpoints n).epoch ((x.endpoints n).slots i) x.history
  held : ∀ s n i p, .submitted s (n + 1) (x.endpoints n).epoch i p ∈ x.history →
    Reaped s x.history ∨
      i < queueDepth ∧ ((x.endpoints n).slots i).serial = s ∧ ((x.endpoints n).slots i).busy

theorem kept_boot (mem : Mem) : Kept (boot mem) where
  lawful := trivial
  serials := by simp [boot]
  epochs := by simp [boot]
  tokens := by simp [boot]
  slots := fun n i _ => ⟨by simp [boot, Slot.busy], by simp [boot], by simp [boot]⟩
  held := by simp [boot]

section Steps

variable {x x' : Transport} {n i ep : Nat} {s : Slot} {ev : Event} {l : List Event}

theorem Lawful.serial_inj {s e e' ep ep' i i' : Nat} {p p' : Packet} (h : Lawful l)
    (h1 : .submitted s e ep i p ∈ l) (h2 : .submitted s e' ep' i' p' ∈ l) :
    e = e' ∧ ep = ep' ∧ i = i' ∧ p = p' := by
  induction l with
  | nil => cases h1
  | cons ev l ih =>
    rcases mem_cons.mp h1 with rfl | hin1
    · rcases mem_cons.mp h2 with heq | hin2
      · cases heq
        exact ⟨rfl, rfl, rfl, rfl⟩
      · exact absurd (h.2.1 s e' ep' i' p' hin2) (Nat.lt_irrefl s)
    · rcases mem_cons.mp h2 with rfl | hin2
      · exact absurd (h.2.1 s e ep i p hin1) (Nat.lt_irrefl s)
      · exact ih h.1 hin1 hin2

theorem SlotOk.cons (h : SlotOk n i ep s l)
    (hno : s.busy → ¬ Completed s.serial [ev] ∧ ¬ Reaped s.serial [ev]) :
    SlotOk n i ep s (ev :: l) := by
  refine ⟨fun hb => ?_, fun hr => ?_, fun hc => mem_cons_of_mem _ (h.completed hc)⟩
  · obtain ⟨hep, hsub, hreap⟩ := h.busy hb
    refine ⟨hep, mem_cons_of_mem _ hsub, ?_⟩
    rintro ⟨e, ep, token, status, information, hin⟩
    rcases mem_cons.mp hin with heq | hin
    · exact (hno hb).2 ⟨e, ep, token, status, information, heq ▸ mem_cons_self⟩
    · exact hreap ⟨e, ep, token, status, information, hin⟩
  · obtain ⟨hcf, hcomp⟩ := h.ready hr
    refine ⟨hcf, ?_⟩
    rintro ⟨e, ep, token, status, information, hin⟩
    rcases mem_cons.mp hin with heq | hin
    · exact (hno (.inl hr)).1 ⟨e, ep, token, status, information, heq ▸ mem_cons_self⟩
    · exact hcomp ⟨e, ep, token, status, information, hin⟩

theorem Kept.serial_lt_of_completed (hk : Kept x) {t : Nat} (hc : Completed t x.history) :
    t < x.serial := by
  obtain ⟨e, ep, token, status, information, hin⟩ := hc
  obtain ⟨i, p, hsub, _⟩ := hk.lawful.of_completed hin
  exact hk.serials t e ep i p hsub

theorem Kept.serial_lt_of_reaped (hk : Kept x) {t : Nat} (hr : Reaped t x.history) :
    t < x.serial := by
  obtain ⟨e, ep, token, status, information, hin⟩ := hr
  exact hk.serial_lt_of_completed ⟨e, ep, token, status, information, hk.lawful.of_reaped hin⟩

theorem Kept.slot_inj (hk : Kept x) {n' i' : Nat} (hi : i < queueDepth) (hi' : i' < queueDepth)
    (hb : ((x.endpoints n).slots i).busy) (hb' : ((x.endpoints n').slots i').busy)
    (hserial : ((x.endpoints n').slots i').serial = ((x.endpoints n).slots i).serial) :
    n' = n ∧ i' = i := by
  obtain ⟨_, hsub, _⟩ := (hk.slots n i hi).busy hb
  obtain ⟨_, hsub', _⟩ := (hk.slots n' i' hi').busy hb'
  rw [hserial] at hsub'
  obtain ⟨he, _, hi, _⟩ := hk.lawful.serial_inj hsub' hsub
  exact ⟨by omega, hi⟩

theorem submissions_zero (h : ∀ s i p, .submitted s (n + 1) ep i p ∉ l) :
    submissions (n + 1) ep l = 0 := by
  refine countP_eq_zero.mpr fun ev hev => ?_
  cases ev with
  | submitted s e ep' i p =>
    simp only [isSubmission, Bool.and_eq_true, decide_eq_true_eq]
    rintro ⟨rfl, rfl⟩
    exact h s i p hev
  | polled s e ep' p => simp [isSubmission]
  | completed s e ep' token status information => simp [isSubmission]
  | reaped s e ep' token status information => simp [isSubmission]

theorem Kept.register {q : Endpoint} (hk : Kept x) (htoken : q.nextToken = 1)
    (hepoch : q.epoch = (x.endpoints n).epoch + 1)
    (hclear : ∀ i < queueDepth, (q.slots i).ready = false ∧ (q.slots i).completed = false)
    (he : x'.endpoints = Function.update x.endpoints n q) (hs : x'.serial = x.serial)
    (hh : x'.history = x.history) : Kept x' := by
  have hself : x'.endpoints n = q := by rw [he, Function.update_self]
  have hother : ∀ m, m ≠ n → x'.endpoints m = x.endpoints m := fun m hm => by
    rw [he, Function.update_of_ne hm]
  -- nothing was submitted under the new registration yet
  have hnone : ∀ s i p, .submitted s (n + 1) ((x.endpoints n).epoch + 1) i p ∉ x.history := by
    intro s i p hin
    have := (hk.epochs s _ _ i p hin).2
    rw [Nat.add_sub_cancel] at this
    omega
  refine ⟨hh ▸ hk.lawful, by rw [hh, hs]; exact hk.serials, ?_, fun m hm => ?_, fun m i hi => ?_,
    fun s m i p hin => ?_⟩
  · intro s e ep i p hin
    rw [hh] at hin
    obtain ⟨h1, h2⟩ := hk.epochs s e ep i p hin
    refine ⟨h1, ?_⟩
    by_cases hen : e - 1 = n
    · rw [hen] at h2 ⊢
      rw [hself, hepoch]
      omega
    · rw [hother _ hen]
      exact h2
  · by_cases hmn : m = n
    · subst hmn
      rw [hself, htoken, hepoch, hh, submissions_zero hnone]
      rfl
    · rw [hother m hmn] at hm ⊢
      rw [hh]
      exact hk.tokens m hm
  · by_cases hmn : m = n
    · subst hmn
      obtain ⟨hr, hc⟩ := hclear i hi
      rw [hself]
      refine ⟨fun hb => ?_, fun h => ?_, fun h => ?_⟩
      · rcases hb with h | h
        · rw [hr] at h
          cases h
        · rw [hc] at h
          cases h
      · rw [hr] at h
        cases h
      · rw [hc] at h
        cases h
    · rw [hother m hmn, hh]
      exact hk.slots m i hi
  · by_cases hmn : m = n
    · subst hmn
      rw [hself, hepoch, hh] at hin
      exact absurd hin (hnone s i p)
    · rw [hother m hmn] at hin ⊢
      rw [hh] at hin ⊢
      exact hk.held s m i p hin

theorem Kept.update {v : Slot} {q : Endpoint} (hk : Kept x) (hrule : Rule x.history ev)
    (he : x'.endpoints = Function.update x.endpoints n q) (hh : x'.history = ev :: x.history)
    (hslots : q.slots = Function.update (x.endpoints n).slots i v)
    (hepoch : q.epoch = (x.endpoints n).epoch)
    (hserials : ∀ s e ep i p, .submitted s e ep i p ∈ ev :: x.history →
      s < x'.serial ∧ 1 ≤ e ∧ ep ≤ (x.endpoints (e - 1)).epoch)
    (htokens : ∀ m, (x'.endpoints m).used = true → (x'.endpoints m).nextToken =
      u32 (1 + submissions (m + 1) (x'.endpoints m).epoch (ev :: x.history)))
    (hv : SlotOk n i (x.endpoints n).epoch v (ev :: x.history))
    (hno : ∀ m j, j < queueDepth → ¬ (m = n ∧ j = i) → ((x.endpoints m).slots j).busy →
      ¬ Completed ((x.endpoints m).slots j).serial [ev] ∧
      ¬ Reaped ((x.endpoints m).slots j).serial [ev])
    (hheld : ∀ s m j p, .submitted s (m + 1) (x.endpoints m).epoch j p ∈ ev :: x.history →
      Reaped s (ev :: x.history) ∨ m = n ∧ j = i ∧ i < queueDepth ∧ v.serial = s ∧ v.busy ∨
      ¬ (m = n ∧ j = i) ∧ j < queueDepth ∧ ((x.endpoints m).slots j).serial = s ∧
        ((x.endpoints m).slots j).busy) : Kept x' := by
  have hself : x'.endpoints n = q := by rw [he, Function.update_self]
  have hother : ∀ m, m ≠ n → x'.endpoints m = x.endpoints m := fun m hm => by
    rw [he, Function.update_of_ne hm]
  have hep : ∀ m, (x'.endpoints m).epoch = (x.endpoints m).epoch := by
    intro m
    by_cases hmn : m = n
    · subst hmn
      rw [hself, hepoch]
    · rw [hother m hmn]
  have hslot : (x'.endpoints n).slots i = v := by rw [hself, hslots, Function.update_self]
  have hslot' : ∀ m j, ¬ (m = n ∧ j = i) →
      (x'.endpoints m).slots j = (x.endpoints m).slots j := by
    intro m j hne
    by_cases hmn : m = n
    · subst hmn
      rw [hself, hslots, Function.update_of_ne fun h => hne ⟨rfl, h⟩]
    · rw [hother m hmn]
  refine ⟨?_, fun s e ep i p hin => ?_, fun s e ep i p hin => ?_, fun m hm => ?_,
    fun m j hj => ?_, fun s m j p hin => ?_⟩
  · rw [hh]
    exact ⟨hk.lawful, hrule⟩
  · rw [hh] at hin
    exact (hserials s e ep i p hin).1
  · rw [hh] at hin
    rw [hep]
    exact (hserials s e ep i p hin).2
  · rw [hh]
    exact htokens m hm
  · rw [hep, hh]
    by_cases hmj : m = n ∧ j = i
    · obtain ⟨rfl, rfl⟩ := hmj
      rw [hslot]
      exact hv
    · rw [hslot' m j hmj]
      exact (hk.slots m j hj).cons (hno m j hj hmj)
  · rw [hep, hh] at hin
    rw [hh]
    rcases hheld s m j p hin with hr | ⟨rfl, rfl, hi, hs, hb⟩ | ⟨hmj, hj, hs, hb⟩
    · exact .inl hr
    · rw [hslot]
      exact .inr ⟨hi, hs, hb⟩
    · rw [hslot' m j hmj]
      exact .inr ⟨hj, hs, hb⟩

theorem Kept.held_cases (hk : Kept x) {t m j : Nat} {p : Packet}
    (hin : .submitted t (m + 1) (x.endpoints m).epoch j p ∈ x.history) :
    Reaped t (ev :: x.history) ∨
      j < queueDepth ∧ ((x.endpoints m).slots j).serial = t ∧ ((x.endpoints m).slots j).busy :=
  (hk.held t m j p hin).imp_left fun ⟨e, ep, token, status, information, h⟩ =>
    ⟨e, ep, token, status, information, mem_cons_of_mem _ h⟩

theorem not_busy (hr : s.ready = false) (hc : s.completed = false) : ¬ s.busy := by
  rintro (h | h)
  · rw [hr] at h
    cases h
  · rw [hc] at h
    cases h

theorem Kept.submit {v : Slot} (hk : Kept x) (hused : (x.endpoints n).used = true)
    (hfind : (x.endpoints n).findSlot isFree = some i)
    (htoken : v.packet.token = (x.endpoints n).nextToken) (hready : v.ready = true)
    (hcompleted : v.completed = false) (hserial : v.serial = x.serial)
    (hepoch : v.epoch = (x.endpoints n).epoch)
    (he : x'.endpoints = Function.update x.endpoints n { (x.endpoints n).setSlot i v with
      nextToken := u32 ((x.endpoints n).nextToken + 1) }) (hs : x'.serial = x.serial + 1)
    (hh : x'.history =
      .submitted x.serial (n + 1) (x.endpoints n).epoch i v.packet :: x.history) : Kept x' := by
  obtain ⟨hi, hfree, _⟩ := findSlot_spec hfind
  simp only [isFree, Bool.and_eq_true, Bool.not_eq_true'] at hfree
  have hidle := not_busy hfree.1 hfree.2
  have hcount := hk.tokens n hused
  have hnew : ¬ Reaped x.serial x.history ∧ ¬ Completed x.serial x.history :=
    ⟨fun h => Nat.lt_irrefl _ (hk.serial_lt_of_reaped h),
      fun h => Nat.lt_irrefl _ (hk.serial_lt_of_completed h)⟩
  have hrule : Rule x.history
      (.submitted x.serial (n + 1) (x.endpoints n).epoch i v.packet) := by
    refine ⟨hk.serials, htoken.trans hcount, fun s' p' hin => ?_⟩
    rcases hk.held s' n i p' hin with hr | ⟨_, _, hb⟩
    · exact hr
    · exact absurd hb hidle
  refine hk.update (v := v) hrule he hh rfl rfl ?_ ?_
    ⟨fun _ => ⟨hepoch, ?_, ?_⟩, fun _ => ⟨hcompleted, ?_⟩, fun h => ?_⟩ ?_ ?_
  · intro s' e' ep' i' p' hin
    rcases mem_cons.mp hin with heq | hin
    · cases heq
      rw [Nat.add_sub_cancel, hs]
      exact ⟨by omega, by omega, le_rfl⟩
    · have hlt := hk.serials s' e' ep' i' p' hin
      exact ⟨by omega, hk.epochs s' e' ep' i' p' hin⟩
  · intro m hm
    by_cases hmn : m = n
    · subst hmn
      rw [he, Function.update_self]
      change u32 ((x.endpoints m).nextToken + 1) = u32 (1 + submissions (m + 1)
        (x.endpoints m).epoch _)
      rw [submissions_self, hcount]
      unfold u32
      omega
    · rw [he, Function.update_of_ne hmn] at hm ⊢
      have hskip : submissions (m + 1) (x.endpoints m).epoch
          (.submitted x.serial (n + 1) (x.endpoints n).epoch i v.packet :: x.history) =
          submissions (m + 1) (x.endpoints m).epoch x.history := by
        refine countP_cons_of_neg ?_
        simp only [isSubmission, Bool.and_eq_true, decide_eq_true_eq]
        omega
      rw [hskip]
      exact hk.tokens m hm
  · rw [hserial]
    exact mem_cons_self
  · rw [hserial]
    rintro ⟨e, ep, token, status, information, hin⟩
    exact hnew.1 ⟨e, ep, token, status, information, (mem_cons.mp hin).resolve_left (by simp)⟩
  · rw [hserial]
    rintro ⟨e, ep, token, status, information, hin⟩
    exact hnew.2 ⟨e, ep, token, status, information, (mem_cons.mp hin).resolve_left (by simp)⟩
  · rw [hcompleted] at h
    cases h
  · intro m j _ _ _
    exact ⟨by simp [Completed], by simp [Reaped]⟩
  · intro s' m j p hin
    rcases mem_cons.mp hin with heq | hin
    · cases heq
      exact .inr (.inl ⟨rfl, rfl, hi, hserial, .inl hready⟩)
    · rcases hk.held_cases hin with hr | ⟨hj, hs', hb⟩
      · exact .inl hr
      · refine .inr (.inr ⟨?_, hj, hs', hb⟩)
        rintro ⟨rfl, rfl⟩
        exact hidle hb

theorem submissions_skip {e : Nat} (hev : isSubmission e ep ev = false) :
    submissions e ep (ev :: l) = submissions e ep l :=
  countP_cons_of_neg (by simp [hev])

theorem Kept.tokens_keep {v : Slot} (hk : Kept x) (hev : ∀ e ep, isSubmission e ep ev = false)
    (he : x'.endpoints = Function.update x.endpoints n ((x.endpoints n).setSlot i v)) (m : Nat)
    (hm : (x'.endpoints m).used = true) : (x'.endpoints m).nextToken =
      u32 (1 + submissions (m + 1) (x'.endpoints m).epoch (ev :: x.history)) := by
  rw [submissions_skip (hev _ _)]
  by_cases hmn : m = n
  · subst hmn
    rw [he, Function.update_self] at hm ⊢
    exact hk.tokens m hm
  · rw [he, Function.update_of_ne hmn] at hm ⊢
    exact hk.tokens m hm

theorem Kept.complete {v : Slot} {token : Nat} (hk : Kept x)
    (hfind : ((x.endpoints n).findSlot fun s => s.ready && decide (s.packet.token = token)) = some i)
    (hslot : (x.endpoints n).slots i = s) (hpacket : v.packet = s.packet)
    (hserial : v.serial = s.serial) (hepoch : v.epoch = s.epoch) (hready : v.ready = false)
    (hcompleted : v.completed = true)
    (he : x'.endpoints = Function.update x.endpoints n ((x.endpoints n).setSlot i v))
    (hs : x'.serial = x.serial)
    (hh : x'.history = .completed s.serial (n + 1) s.epoch token v.completionStatus
      v.completionInformation :: x.history) : Kept x' := by
  obtain ⟨hi, hfound, _⟩ := findSlot_spec hfind
  rw [hslot, Bool.and_eq_true, decide_eq_true_eq] at hfound
  obtain ⟨hr, htoken⟩ := hfound
  have hok := hk.slots n i hi
  rw [hslot] at hok
  obtain ⟨hep, hsub, hreap⟩ := hok.busy (.inl hr)
  have hcomp := (hok.ready hr).2
  rw [hep] at hh
  have hrule : Rule x.history (.completed s.serial (n + 1) (x.endpoints n).epoch token
      v.completionStatus v.completionInformation) := ⟨⟨i, s.packet, hsub, htoken⟩, hcomp⟩
  refine hk.update (v := v) hrule he hh rfl rfl ?_ (hk.tokens_keep (fun _ _ => rfl) he)
    ⟨fun _ => ⟨hepoch.trans hep, ?_, ?_⟩, fun h => ?_, fun _ => ?_⟩ ?_ ?_
  · intro s' e' ep' i' p' hin
    have hin := (mem_cons.mp hin).resolve_left (by simp)
    rw [hs]
    exact ⟨hk.serials s' e' ep' i' p' hin, hk.epochs s' e' ep' i' p' hin⟩
  · rw [hserial, hpacket]
    exact mem_cons_of_mem _ hsub
  · rw [hserial]
    rintro ⟨e, ep, token, status, information, hin⟩
    exact hreap ⟨e, ep, token, status, information, (mem_cons.mp hin).resolve_left (by simp)⟩
  · rw [hready] at h
    cases h
  · rw [hserial, hpacket, htoken]
    exact mem_cons_self
  · intro m j hj hmj hb
    refine ⟨?_, by simp [Reaped]⟩
    rintro ⟨e, ep, token, status, information, hin⟩
    rw [mem_singleton] at hin
    injection hin with hserial'
    refine hmj (hk.slot_inj hi hj (hslot ▸ .inl hr) hb ?_)
    rw [hserial', hslot]
  · intro s' m j p hin
    have hin := (mem_cons.mp hin).resolve_left (by simp)
    rcases hk.held_cases hin with hr | ⟨hj, hs', hb⟩
    · exact .inl hr
    · by_cases hmj : m = n ∧ j = i
      · obtain ⟨rfl, rfl⟩ := hmj
        refine .inr (.inl ⟨rfl, rfl, hi, ?_, .inr hcompleted⟩)
        rw [hserial, ← hslot]
        exact hs'
      · exact .inr (.inr ⟨hmj, hj, hs', hb⟩)

theorem Kept.reap {token : Nat} (hk : Kept x)
    (hfind : ((x.endpoints n).findSlot fun s => s.completed && decide (s.packet.token = token)) =
      some i)
    (hslot : (x.endpoints n).slots i = s)
    (he : x'.endpoints =
      Function.update x.endpoints n ((x.endpoints n).setSlot i { s with completed := false }))
    (hs : x'.serial = x.serial)
    (hh : x'.history = .reaped s.serial (n + 1) s.epoch token s.completionStatus
      s.completionInformation :: x.history) : Kept x' := by
  obtain ⟨hi, hfound, _⟩ := findSlot_spec hfind
  rw [hslot, Bool.and_eq_true, decide_eq_true_eq] at hfound
  obtain ⟨hc, htoken⟩ := hfound
  have hok := hk.slots n i hi
  rw [hslot] at hok
  obtain ⟨hep, hsub, hreap⟩ := hok.busy (.inr hc)
  have hcomp := hok.completed hc
  rw [htoken] at hcomp
  have hready : s.ready = false := by
    by_contra h
    rw [Bool.not_eq_false] at h
    rw [(hok.ready h).1] at hc
    cases hc
  rw [hep] at hh
  have hidle : ¬ Slot.busy { s with completed := false } := not_busy hready rfl
  have hrule : Rule x.history (.reaped s.serial (n + 1) (x.endpoints n).epoch token
      s.completionStatus s.completionInformation) := ⟨hcomp, hreap⟩
  refine hk.update (v := { s with completed := false }) hrule he hh rfl rfl ?_
    (hk.tokens_keep (fun _ _ => rfl) he)
    ⟨fun h => absurd h hidle, fun h => absurd (.inl h) hidle, fun h => absurd (.inr h) hidle⟩ ?_ ?_
  · intro s' e' ep' i' p' hin
    have hin := (mem_cons.mp hin).resolve_left (by simp)
    rw [hs]
    exact ⟨hk.serials s' e' ep' i' p' hin, hk.epochs s' e' ep' i' p' hin⟩
  · intro m j hj hmj hb
    refine ⟨by simp [Completed], ?_⟩
    rintro ⟨e, ep, token, status, information, hin⟩
    rw [mem_singleton] at hin
    injection hin with hserial'
    refine hmj (hk.slot_inj hi hj (hslot ▸ .inr hc) hb ?_)
    rw [hserial', hslot]
  · intro s' m j p hin
    have hin := (mem_cons.mp hin).resolve_left (by simp)
    rcases hk.held_cases hin with hr | ⟨hj, hs', hb⟩
    · exact .inl hr
    · by_cases hmj : m = n ∧ j = i
      · obtain ⟨rfl, rfl⟩ := hmj
        rw [hslot] at hs'
        rw [← hs']
        exact .inl ⟨_, _, _, _, _, mem_cons_self⟩
      · exact .inr (.inr ⟨hmj, hj, hs', hb⟩)

theorem Kept.poll (hk : Kept x) (hfind : (x.endpoints n).findSlot Slot.ready = some i)
    (hslot : (x.endpoints n).slots i = s) (he : x'.endpoints = x.endpoints)
    (hs : x'.serial = x.serial)
    (hh : x'.history = .polled s.serial (n + 1) s.epoch s.packet :: x.history) : Kept x' := by
  obtain ⟨hi, hr, _⟩ := findSlot_spec hfind
  have hok := hk.slots n i hi
  rw [hslot] at hok hr
  obtain ⟨hep, hsub, _⟩ := hok.busy (.inl hr)
  rw [hep] at hh
  have hrule : Rule x.history (.polled s.serial (n + 1) (x.endpoints n).epoch s.packet) :=
    ⟨⟨i, hsub⟩, (hok.ready hr).2⟩
  have hno : ∀ t, ¬ Completed t [.polled s.serial (n + 1) (x.endpoints n).epoch s.packet] ∧
      ¬ Reaped t [.polled s.serial (n + 1) (x.endpoints n).epoch s.packet] := fun t =>
    ⟨by simp [Completed], by simp [Reaped]⟩
  refine ⟨?_, fun s' e' ep' i' p' hin => ?_, fun s' e' ep' i' p' hin => ?_, fun m hm => ?_,
    fun m j hj => ?_, fun s' m j p hin => ?_⟩
  · rw [hh]
    exact ⟨hk.lawful, hrule⟩
  · rw [hh] at hin
    rw [hs]
    exact hk.serials s' e' ep' i' p' ((mem_cons.mp hin).resolve_left (by simp))
  · rw [hh] at hin
    rw [he]
    exact hk.epochs s' e' ep' i' p' ((mem_cons.mp hin).resolve_left (by simp))
  · rw [he] at hm ⊢
    have hskip : submissions (m + 1) (x.endpoints m).epoch
        (.polled s.serial (n + 1) (x.endpoints n).epoch s.packet :: x.history) =
        submissions (m + 1) (x.endpoints m).epoch x.history := submissions_skip rfl
    rw [hh, hskip]
    exact hk.tokens m hm
  · rw [he, hh]
    exact (hk.slots m j hj).cons fun _ => hno _
  · rw [hh] at hin
    rw [he] at hin ⊢
    rw [hh]
    exact hk.held_cases ((mem_cons.mp hin).resolve_left (by simp))

theorem Kept.moves (hk : Kept x) (hm : Moves x x') : Kept x' := by
  cases hm with
  | same he hs hh =>
    exact ⟨hh ▸ hk.lawful, by rw [hh, hs]; exact hk.serials, by rw [hh, he]; exact hk.epochs,
      by rw [hh, he]; exact hk.tokens, by rw [hh, he]; exact hk.slots,
      by rw [hh, he]; exact hk.held⟩
  | register n q _ _ htoken hepoch hclear he hs hh =>
    exact hk.register htoken hepoch hclear he hs hh
  | unregister n he hs hh =>
    have hep : ∀ m, (x'.endpoints m).epoch = (x.endpoints m).epoch ∧
        (x'.endpoints m).slots = (x.endpoints m).slots ∧
        (x'.endpoints m).nextToken = (x.endpoints m).nextToken ∧
        ((x'.endpoints m).used = true → (x.endpoints m).used = true) := by
      intro m
      rw [he]
      by_cases hmn : m = n
      · subst hmn
        rw [Function.update_self]
        exact ⟨rfl, rfl, rfl, fun h => by cases h⟩
      · rw [Function.update_of_ne hmn]
        exact ⟨rfl, rfl, rfl, id⟩
    refine ⟨hh ▸ hk.lawful, by rw [hh, hs]; exact hk.serials, fun s e ep i p hin => ?_,
      fun m hm => ?_, fun m i hi => ?_, fun s m i p hin => ?_⟩
    · rw [(hep _).1]
      exact hk.epochs s e ep i p (hh ▸ hin)
    · rw [(hep m).1, (hep m).2.2.1, hh]
      exact hk.tokens m ((hep m).2.2.2 hm)
    · rw [(hep m).1, (hep m).2.1, hh]
      exact hk.slots m i hi
    · rw [(hep m).1, hh] at hin
      rw [(hep m).2.1, hh]
      exact hk.held s m i p hin
  | submit n i v _ hused hfind htoken hready hcompleted hserial hepoch he hs hh =>
    exact hk.submit hused hfind htoken hready hcompleted hserial hepoch he hs hh
  | poll n i s _ _ hfind hslot he hs hh => exact hk.poll hfind hslot he hs hh
  | complete n i token status information s v _ _ hfind hslot hp hserial hepoch hr hc hst hin he hs
      hh =>
    subst hst hin
    exact hk.complete hfind hslot hp hserial hepoch hr hc he hs hh
  | reap n i token s _ _ hfind hslot he hs hh => exact hk.reap hfind hslot he hs hh

theorem kept_run (mem : Mem) (acts : List Act) : Kept (run mem acts) := by
  unfold run
  induction acts using List.reverseRecOn with
  | nil => exact kept_boot mem
  | append_singleton acts a ih =>
    rw [foldl_append]
    exact ih.moves (step_moves a _)

end Steps

/-! ## Exactly once -/

section Delivery

variable {e ep s s' i i' token status information : Nat} {p p' : Packet}
  {l new mid old : List Event}

theorem Lawful.completed_once (h : Lawful (new ++ .completed s e ep token status information :: old))
    (hfew : submissions e ep (new ++ .completed s e ep token status information :: old) <
      2 ^ 32 - 1) :
    (∃ s' i p, .submitted s' e ep i p ∈ old ∧ p.token = token) ∧
      ∀ s' status' information', .completed s' e ep token status' information' ∉ old := by
  obtain ⟨⟨i, p, hsub, htoken⟩, hno⟩ := h.rule
  refine ⟨⟨s, i, p, hsub, htoken⟩, fun s' status' information' hin => ?_⟩
  have hold : Lawful old := (Lawful.drop h).1
  obtain ⟨i', p', hsub', htoken'⟩ := hold.of_completed hin
  have hbound : submissions e ep old < 2 ^ 32 - 1 := by
    rw [submissions_append, submissions_skip rfl] at hfew
    omega
  have heq := hold.token_inj hbound hsub hsub' (htoken.trans htoken'.symm)
  exact hno ⟨e, ep, token, status', information', heq ▸ hin⟩

theorem Lawful.reaped_once (h : Lawful (new ++ .reaped s e ep token status information :: old))
    (hfew : submissions e ep (new ++ .reaped s e ep token status information :: old) <
      2 ^ 32 - 1) :
    .completed s e ep token status information ∈ old ∧
      ∀ s' status' information', .reaped s' e ep token status' information' ∉ old := by
  obtain ⟨hcomp, hno⟩ := h.rule
  refine ⟨hcomp, fun s' status' information' hin => ?_⟩
  have hold : Lawful old := (Lawful.drop h).1
  obtain ⟨i, p, hsub, htoken⟩ := hold.of_completed hcomp
  obtain ⟨i', p', hsub', htoken'⟩ := hold.of_completed (hold.of_reaped hin)
  have hbound : submissions e ep old < 2 ^ 32 - 1 := by
    rw [submissions_append, submissions_skip rfl] at hfew
    omega
  have heq := hold.token_inj hbound hsub hsub' (htoken.trans htoken'.symm)
  exact hno ⟨e, ep, token, status', information', heq ▸ hin⟩

theorem Lawful.polled_outstanding (h : Lawful (new ++ .polled s e ep p :: old))
    (hfew : submissions e ep (new ++ .polled s e ep p :: old) < 2 ^ 32 - 1) :
    (∃ i, .submitted s e ep i p ∈ old) ∧
      ∀ s' status information, .completed s' e ep p.token status information ∉ old := by
  obtain ⟨⟨i, hsub⟩, hno⟩ := h.rule
  refine ⟨⟨i, hsub⟩, fun s' status information hin => ?_⟩
  have hold : Lawful old := (Lawful.drop h).1
  obtain ⟨i', p', hsub', htoken'⟩ := hold.of_completed hin
  have hbound : submissions e ep old < 2 ^ 32 - 1 := by
    rw [submissions_append, submissions_skip rfl] at hfew
    omega
  have heq := hold.token_inj hbound hsub hsub' htoken'.symm
  exact hno ⟨e, ep, p.token, status, information, heq ▸ hin⟩

theorem Lawful.reaped_token (h : Lawful l) (hsub : .submitted s e ep i p ∈ l) (hr : Reaped s l) :
    ∃ status information, .reaped s e ep p.token status information ∈ l := by
  obtain ⟨e', ep', token, status, information, hin⟩ := hr
  obtain ⟨i', p', hsub', htoken⟩ := h.of_completed (h.of_reaped hin)
  obtain ⟨rfl, rfl, _, rfl⟩ := h.serial_inj hsub hsub'
  exact ⟨status, information, htoken ▸ hin⟩

theorem Lawful.slot_reused
    (h : Lawful (new ++ .submitted s e ep i p :: (mid ++ .submitted s' e ep i p' :: old))) :
    ∃ status information, .reaped s' e ep p'.token status information ∈ mid := by
  have hmid : Lawful (mid ++ .submitted s' e ep i p' :: old) := (Lawful.drop h).1
  have hin : Event.submitted s' e ep i p' ∈ mid ++ .submitted s' e ep i p' :: old := by simp
  obtain ⟨status, information, hr⟩ := hmid.reaped_token hin (h.rule.2.2 s' p' hin)
  refine ⟨status, information, ?_⟩
  rcases mem_append.mp hr with hr | hr
  · exact hr
  · -- it cannot have been fetched before it was submitted
    have hold : Lawful (.submitted s' e ep i p' :: old) := Lawful.drop hmid
    have hr := (mem_cons.mp hr).resolve_left (by simp)
    obtain ⟨i', q, hsub, _⟩ := hold.1.of_completed (hold.1.of_reaped hr)
    exact absurd (hold.2.1 s' e ep i' q hsub) (Nat.lt_irrefl s')

end Delivery

end DiscouNT.Wudf
