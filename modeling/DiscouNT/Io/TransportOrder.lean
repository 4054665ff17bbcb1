import DiscouNT.Io.TransportRuns
import DiscouNT.Lib.History

/-!
# Io.TransportOrder

In which order packets are served, and what becomes of calls that carry an old token.
-/

namespace DiscouNT.Wudf

open Lib List Function

def Outstanding (x : Transport) (n s : Nat) : Prop :=
  (∃ i p, .submitted s (n + 1) (x.endpoints n).epoch i p ∈ x.history) ∧ ¬ Completed s x.history

def PollsFirst (n : Nat) (x : Transport) : Prop :=
  (x.endpoints n).used = true → (∃ s, Outstanding x n s) → ∀ packet, packet ≠ 0 →
    ∃ s p, (wudfTransportPoll (n + 1) packet x).1 = some p ∧
      (wudfTransportPoll (n + 1) packet x).2.history =
        .polled s (n + 1) (x.endpoints n).epoch p :: x.history ∧
      Outstanding x n s ∧ ∀ s', Outstanding x n s' → s ≤ s'

def serve (n packet : Nat) (x : Transport) : Transport :=
  match wudfTransportPoll (n + 1) packet x with
  | (none, x) => x
  | (some p, x) => (wudfTransportComplete (n + 1) p.token 0 0 0 0 x).2

/-- From here on a host that polls and completes serves what is outstanding in the order of
submission. -/
def ServesInOrder (n : Nat) (x : Transport) : Prop :=
  ∀ packet, packet ≠ 0 → ∀ k, PollsFirst n ((serve n packet)^[k] x)

/-- The slots of the outstanding packets are in the order of submission. -/
def Sorted (n : Nat) (x : Transport) : Prop :=
  ∀ i j, i < j → j < queueDepth → ((x.endpoints n).slots i).ready = true →
    ((x.endpoints n).slots j).ready = true →
    ((x.endpoints n).slots i).serial < ((x.endpoints n).slots j).serial

section Order

variable {x x' : Transport} {n i s : Nat}

theorem Kept.outstanding_iff (hk : Kept x) :
    Outstanding x n s ↔ ∃ i < queueDepth, ((x.endpoints n).slots i).ready = true ∧
      ((x.endpoints n).slots i).serial = s := by
  constructor
  · rintro ⟨⟨i, p, hin⟩, hno⟩
    rcases hk.held s n i p hin with ⟨e, ep, token, status, information, hr⟩ | ⟨hi, hs, hb⟩
    · exact absurd ⟨e, ep, token, status, information, hk.lawful.of_reaped hr⟩ hno
    · refine ⟨i, hi, hb.resolve_right fun hc => hno ?_, hs⟩
      have hin := (hk.slots n i hi).completed hc
      rw [hs] at hin
      exact ⟨_, _, _, _, _, hin⟩
  · rintro ⟨i, hi, hr, rfl⟩
    obtain ⟨_, hsub, _⟩ := (hk.slots n i hi).busy (.inl hr)
    exact ⟨⟨i, _, hsub⟩, ((hk.slots n i hi).ready hr).2⟩

variable {packet : Nat}

theorem poll_found (hn : n < maxEndpoints) (hused : (x.endpoints n).used = true)
    (hpacket : packet ≠ 0) (hfind : (x.endpoints n).findSlot Slot.ready = some i) :
    wudfTransportPoll (n + 1) packet x = (some ((x.endpoints n).slots i).packet,
      { x with
        history := .polled ((x.endpoints n).slots i).serial (n + 1) ((x.endpoints n).slots i).epoch
          ((x.endpoints n).slots i).packet :: x.history
        mem := storePacket x.mem packet ((x.endpoints n).slots i).packet }) := by
  unfold wudfTransportPoll
  rw [if_neg hpacket, queue_of_used hn hused]
  dsimp only
  rw [hfind]
  rfl

theorem Kept.pollsFirst_iff (hk : Kept x) (hn : n < maxEndpoints) :
    PollsFirst n x ↔ ((x.endpoints n).used = true →
      ∀ i, (x.endpoints n).findSlot Slot.ready = some i → ∀ j < queueDepth,
        ((x.endpoints n).slots j).ready = true →
        ((x.endpoints n).slots i).serial ≤ ((x.endpoints n).slots j).serial) := by
  constructor
  · intro hp hused i hfind j hj hr
    obtain ⟨hi, hri, _⟩ := findSlot_spec hfind
    have hpacket : (1 : Nat) ≠ 0 := by decide
    obtain ⟨s, p, _, hhist, _, hmin⟩ :=
      hp hused ⟨_, hk.outstanding_iff.mpr ⟨i, hi, hri, rfl⟩⟩ 1 hpacket
    rw [poll_found hn hused hpacket hfind] at hhist
    injection hhist with hev
    injection hev with hs
    rw [hs]
    exact hmin _ (hk.outstanding_iff.mpr ⟨j, hj, hr, rfl⟩)
  · intro h hused ⟨s, hs⟩ packet hpacket
    obtain ⟨j, hj, hr, _⟩ := hk.outstanding_iff.mp hs
    cases hfind : (x.endpoints n).findSlot Slot.ready with
    | none =>
      rw [findSlot_none hfind hj] at hr
      cases hr
    | some i =>
      obtain ⟨hi, hri, _⟩ := findSlot_spec hfind
      obtain ⟨hep, _, _⟩ := (hk.slots n i hi).busy (.inl hri)
      refine ⟨((x.endpoints n).slots i).serial, ((x.endpoints n).slots i).packet, ?_, ?_, ?_, ?_⟩
      · rw [poll_found hn hused hpacket hfind]
      · rw [poll_found hn hused hpacket hfind, hep]
      · exact hk.outstanding_iff.mpr ⟨i, hi, hri, rfl⟩
      · intro s' hs'
        obtain ⟨j, hj, hr, rfl⟩ := hk.outstanding_iff.mp hs'
        exact h hused i hfind j hj hr

theorem serve_found (hn : n < maxEndpoints) (hused : (x.endpoints n).used = true)
    (hpacket : packet ≠ 0) (hfind : (x.endpoints n).findSlot Slot.ready = some i) :
    ((serve n packet x).endpoints n).used = true ∧
    (((serve n packet x).endpoints n).slots i).ready = false ∧
    ∀ j, j ≠ i → ((serve n packet x).endpoints n).slots j = (x.endpoints n).slots j := by
  obtain ⟨hi, hri, hbelow⟩ := findSlot_spec hfind
  unfold serve
  rw [poll_found hn hused hpacket hfind]
  dsimp only
  unfold wudfTransportComplete
  have hqueue : Transport.queue { x with
      history := .polled ((x.endpoints n).slots i).serial (n + 1) ((x.endpoints n).slots i).epoch
        ((x.endpoints n).slots i).packet :: x.history
      mem := storePacket x.mem packet ((x.endpoints n).slots i).packet } (n + 1) =
        some (x.endpoints n) := queue_of_used hn hused
  -- the packet polled is the first one with its token
  have hslot : ((x.endpoints n).findSlot fun s =>
      s.ready && decide (s.packet.token = ((x.endpoints n).slots i).packet.token)) = some i := by
    refine find?_range_eq_some.mpr ⟨?_, mem_range.mpr hi, fun j hj => ?_⟩
    · simp [hri]
    · simp [hbelow j hj]
  rw [hqueue]
  dsimp only
  rw [hslot]
  simp only [Transport.log, Transport.setQueue, Nat.add_sub_cancel, update_self, Endpoint.setSlot]
  refine ⟨hused, trivial, fun j hj => ?_⟩
  rw [update_of_ne hj]

theorem serve_none (hfind : (x.endpoints n).findSlot Slot.ready = none)
    (hn : n < maxEndpoints) (hused : (x.endpoints n).used = true) : serve n packet x = x := by
  unfold serve wudfTransportPoll
  rw [queue_of_used hn hused]
  dsimp only
  rw [hfind]
  by_cases hpacket : packet = 0
  · rw [if_pos hpacket]
  · rw [if_neg hpacket]

theorem serve_unused (hused : (x.endpoints n).used = false) :
    serve n packet x = x := by
  have hqueue : x.queue (n + 1) = none := by
    unfold Transport.queue
    split
    · rfl
    · rw [Nat.add_sub_cancel, if_pos hused]
  unfold serve wudfTransportPoll
  rw [hqueue]
  by_cases hpacket : packet = 0
  · rw [if_pos hpacket]
  · rw [if_neg hpacket]

theorem Kept.serve (hk : Kept x) (n packet : Nat) : Kept (serve n packet x) := by
  unfold Wudf.serve
  have hpoll := hk.moves (poll_moves (n + 1) packet x)
  split
  · rename_i y heq
    rw [heq] at hpoll
    exact hpoll
  · rename_i p y heq
    rw [heq] at hpoll
    exact hpoll.moves (complete_moves _ _ _ _ _ _ y)

theorem Sorted.serve (hs : Sorted n x) (hn : n < maxEndpoints)
    (hused : (x.endpoints n).used = true) (hpacket : packet ≠ 0) :
    Sorted n (Wudf.serve n packet x) ∧ ((Wudf.serve n packet x).endpoints n).used = true := by
  cases hfind : (x.endpoints n).findSlot Slot.ready with
  | none =>
    rw [serve_none hfind hn hused]
    exact ⟨hs, hused⟩
  | some k =>
    obtain ⟨hused', hk, hother⟩ := serve_found hn hused hpacket hfind
    refine ⟨fun i j hij hj hi hr => ?_, hused'⟩
    have hik : i ≠ k := by
      rintro rfl
      rw [hk] at hi
      cases hi
    have hjk : j ≠ k := by
      rintro rfl
      rw [hk] at hr
      cases hr
    rw [hother i hik] at hi ⊢
    rw [hother j hjk] at hr ⊢
    exact hs i j hij hj hi hr

theorem Sorted.pollsFirst (hs : Sorted n x) (hk : Kept x) (hn : n < maxEndpoints) :
    PollsFirst n x := by
  refine (hk.pollsFirst_iff hn).mpr fun _ i hfind j hj hr => ?_
  obtain ⟨_, hri, hbelow⟩ := findSlot_spec hfind
  rcases Nat.lt_trichotomy i j with hij | rfl | hji
  · exact Nat.le_of_lt (hs i j hij hj hri hr)
  · exact le_rfl
  · rw [hbelow j hji] at hr
    cases hr

theorem Sorted.servesInOrder (hs : Sorted n x) (hk : Kept x) (hn : n < maxEndpoints)
    (hused : (x.endpoints n).used = true) : ServesInOrder n x := by
  intro packet hpacket k
  induction k generalizing x with
  | zero => exact hs.pollsFirst hk hn
  | succ k ih =>
    obtain ⟨hs', hused'⟩ := hs.serve hn hused hpacket
    exact ih hs' (hk.serve n packet) hused'

variable {j : Nat}

theorem not_pollsFirst {i d : Nat} (hpacket : packet ≠ 0) (hk : Kept x) (hn : n < maxEndpoints)
    (hused : (x.endpoints n).used = true) (hij : i < j) (hj : j < queueDepth)
    (hri : ((x.endpoints n).slots i).ready = true) (hrj : ((x.endpoints n).slots j).ready = true)
    (hserial : ((x.endpoints n).slots j).serial < ((x.endpoints n).slots i).serial)
    (hd : ∀ k, (x.endpoints n).findSlot Slot.ready = some k → i ≤ k + d) :
    ¬ ∀ k, PollsFirst n ((serve n packet)^[k] x) := by
  induction d generalizing x with
  | zero =>
    intro ho
    have hfirst := (hk.pollsFirst_iff hn).mp (ho 0) hused
    cases hfind : (x.endpoints n).findSlot Slot.ready with
    | none =>
      rw [findSlot_none hfind hj] at hrj
      cases hrj
    | some k =>
      obtain ⟨_, _, hbelow⟩ := findSlot_spec hfind
      have hki : k = i := by
        refine Nat.le_antisymm (Nat.le_of_not_lt fun hlt => ?_) (by simpa using hd k hfind)
        rw [hbelow i hlt] at hri
        cases hri
      subst hki
      exact absurd (hfirst k hfind j hj hrj) (Nat.not_le_of_lt hserial)
  | succ d ih =>
    intro ho
    have hfirst := (hk.pollsFirst_iff hn).mp (ho 0) hused
    cases hfind : (x.endpoints n).findSlot Slot.ready with
    | none =>
      rw [findSlot_none hfind hj] at hrj
      cases hrj
    | some k =>
      obtain ⟨_, _, hbelow⟩ := findSlot_spec hfind
      have hki : k ≠ i := by
        rintro rfl
        exact absurd (hfirst k hfind j hj hrj) (Nat.not_le_of_lt hserial)
      have hklt : k < i := by
        refine Nat.lt_of_le_of_ne (Nat.le_of_not_lt fun hlt => ?_) hki
        rw [hbelow i hlt] at hri
        cases hri
      obtain ⟨hused', hcleared, hother⟩ := serve_found hn hused hpacket hfind
      refine ih (hk.serve n packet) hused' ?_ ?_ ?_ (fun m hm => ?_) fun m => ho (m + 1)
      · rw [hother i (by omega)]
        exact hri
      · rw [hother j (by omega)]
        exact hrj
      · rw [hother i (by omega), hother j (by omega)]
        exact hserial
      · -- the lowest ready slot moved up
        obtain ⟨_, hrm, _⟩ := findSlot_spec hm
        have hmk : m ≠ k := by
          rintro rfl
          rw [hcleared] at hrm
          cases hrm
        rw [hother m hmk] at hrm
        have hle : k ≤ m := Nat.le_of_not_lt fun hlt => by
          rw [hbelow m hlt] at hrm
          cases hrm
        have := hd k hfind
        omega

theorem Kept.servesInOrder_iff (hk : Kept x) (hn : n < maxEndpoints) :
    ServesInOrder n x ↔ ((x.endpoints n).used = true → Sorted n x) := by
  constructor
  · intro ho hused i j hij hj hri hrj
    have hi : i < queueDepth := hij.trans hj
    have hne : ((x.endpoints n).slots i).serial ≠ ((x.endpoints n).slots j).serial := by
      intro heq
      have := (hk.slot_inj hi hj (.inl hri) (.inl hrj) heq.symm).2
      omega
    refine Nat.lt_of_le_of_ne (Nat.le_of_not_lt fun hlt => ?_) hne
    exact not_pollsFirst one_ne_zero hk hn hused hij hj hri hrj hlt
      (fun k _ => Nat.le_add_left i k) (ho 1 one_ne_zero)
  · intro hs
    by_cases hused : (x.endpoints n).used = true
    · exact (hs hused).servesInOrder hk hn hused
    · -- an endpoint that is not registered has nothing to serve
      intro packet _ k
      have hsame : (Wudf.serve n packet)^[k] x = x :=
        iterate_fixed (serve_unused (by simpa using hused)) k
      rw [hsame]
      exact fun h => absurd h hused

/-! ## Which runs serve in order -/

/-- The endpoint and the slot that a submission takes, if it is accepted. -/
def takes (a : Act) (x : Transport) : Option (Nat × Nat) :=
  match a with
  | .submit endpoint _ _ data _ _ token =>
    if data = 0 ∨ token = 0 then none
    else (x.queue endpoint).bind fun q => (q.findSlot isFree).map fun i => (endpoint - 1, i)
  | _ => none

/-- No outstanding packet of the endpoint is above the slot that is taken. -/
def TakesTop (n : Nat) (a : Act) (x : Transport) : Prop :=
  ∀ i, takes a x = some (n, i) → ∀ j < queueDepth, ((x.endpoints n).slots j).ready = true → j < i

theorem update_ready {v : Slot} {q : Endpoint} {m k : Nat}
    (he : x'.endpoints = update x.endpoints m q) (hq : q.slots = update (x.endpoints m).slots k v)
    (hr : ((x'.endpoints n).slots j).ready = true) :
    n = m ∧ j = k ∧ (x'.endpoints n).slots j = v ∨
    (x'.endpoints n).slots j = (x.endpoints n).slots j ∧ ((x.endpoints n).slots j).ready = true := by
  by_cases hnm : n = m
  · subst hnm
    by_cases hjk : j = k
    · subst hjk
      left
      rw [he, update_self, hq, update_self]
      exact ⟨rfl, rfl, rfl⟩
    · right
      rw [he, update_self, hq, update_of_ne hjk] at hr ⊢
      exact ⟨rfl, hr⟩
  · right
    rw [he, update_of_ne hnm] at hr ⊢
    exact ⟨rfl, hr⟩

theorem moves_ready (hm : Moves x x') (hj : j < queueDepth)
    (hr : ((x'.endpoints n).slots j).ready = true) :
    x'.serial = x.serial + 1 ∨ ((x.endpoints n).slots j).ready = true ∧
      ((x'.endpoints n).slots j).serial = ((x.endpoints n).slots j).serial := by
  cases hm with
  | same he =>
    rw [he] at hr ⊢
    exact .inr ⟨hr, rfl⟩
  | register m q _ _ _ _ hclear he =>
    right
    by_cases hnm : n = m
    · subst hnm
      rw [he, update_self, (hclear j hj).1] at hr
      cases hr
    · rw [he, update_of_ne hnm] at hr ⊢
      exact ⟨hr, rfl⟩
  | unregister m he =>
    right
    by_cases hnm : n = m
    · subst hnm
      rw [he, update_self] at hr ⊢
      exact ⟨hr, rfl⟩
    · rw [he, update_of_ne hnm] at hr ⊢
      exact ⟨hr, rfl⟩
  | submit m k v _ _ _ _ _ _ _ _ _ hs => exact .inl hs
  | poll m k s _ _ _ _ he =>
    rw [he] at hr ⊢
    exact .inr ⟨hr, rfl⟩
  | complete m k token status information s v _ _ _ _ _ _ _ hv _ _ _ he =>
    right
    rcases update_ready he rfl hr with ⟨_, _, heq⟩ | ⟨heq, hold⟩
    · rw [heq, hv] at hr
      cases hr
    · exact ⟨hold, congrArg Slot.serial heq⟩
  | reap m k token s _ _ _ hslot he =>
    right
    rcases update_ready he rfl hr with ⟨rfl, rfl, heq⟩ | ⟨heq, hold⟩
    · rw [heq] at hr ⊢
      rw [hslot]
      exact ⟨hr, rfl⟩
    · exact ⟨hold, congrArg Slot.serial heq⟩

theorem submit_takes (endpoint majorFunction ioctlCode data inputLength outputLength token : Nat)
    (x : Transport) :
    takes (.submit endpoint majorFunction ioctlCode data inputLength outputLength token) x = none ∧
      step (.submit endpoint majorFunction ioctlCode data inputLength outputLength token) x = x ∨
    ∃ m i v q, takes (.submit endpoint majorFunction ioctlCode data inputLength outputLength token)
        x = some (m, i) ∧ (x.endpoints m).findSlot isFree = some i ∧ v.serial = x.serial ∧
      v.ready = true ∧ q.used = true ∧
      q.slots = update (x.endpoints m).slots i v ∧
      (step (.submit endpoint majorFunction ioctlCode data inputLength outputLength token)
        x).endpoints = update x.endpoints m q := by
  simp only [takes, step, wudfTransportSubmit]
  by_cases hnull : data = 0 ∨ token = 0
  · rw [if_pos hnull, if_pos hnull]
    exact .inl ⟨rfl, rfl⟩
  · rw [if_neg hnull, if_neg hnull]
    cases hq : x.queue endpoint with
    | none => exact .inl ⟨rfl, rfl⟩
    | some q =>
      obtain ⟨m, _, rfl, rfl, hused⟩ := queue_spec hq
      cases hfind : (x.endpoints m).findSlot isFree with
      | none =>
        left
        simp [hfind]
      | some i =>
        right
        simp only [Option.bind_some, hfind, Option.map_some, Nat.add_sub_cancel]
        refine ⟨m, i, _, _, rfl, hfind, ?_, ?_, ?_, rfl, rfl⟩
        · rfl
        · rfl
        · exact hused

variable {a : Act}

theorem step_serial (ha : ∀ endpoint majorFunction ioctlCode data inputLength outputLength
    token, a ≠ .submit endpoint majorFunction ioctlCode data inputLength outputLength token) :
    takes a x = none ∧ (step a x).serial = x.serial := by
  cases a with
  | submit endpoint majorFunction ioctlCode data inputLength outputLength token =>
    exact absurd rfl (ha endpoint majorFunction ioctlCode data inputLength outputLength token)
  | register =>
    refine ⟨rfl, ?_⟩
    simp only [step, wudfTransportRegisterEndpoint]
    split <;> rfl
  | unregister endpoint =>
    refine ⟨rfl, ?_⟩
    simp only [step, wudfTransportUnregisterEndpoint]
    split <;> rfl
  | poll endpoint packet =>
    refine ⟨rfl, ?_⟩
    simp only [step, wudfTransportPoll]
    split
    · rfl
    · split
      · rfl
      · split <;> rfl
  | complete endpoint token status information data dataLength =>
    refine ⟨rfl, ?_⟩
    simp only [step, wudfTransportComplete]
    split
    · rfl
    · split <;> rfl
  | getCompletion endpoint token status information =>
    refine ⟨rfl, ?_⟩
    simp only [step, wudfTransportGetCompletion]
    split
    · rfl
    · split <;> rfl
  | write mem => exact ⟨rfl, rfl⟩

theorem step_ready (hj : j < queueDepth) (hr : (((step a x).endpoints n).slots j).ready = true) :
    takes a x = some (n, j) ∧ (((step a x).endpoints n).slots j).serial = x.serial ∨
    ((x.endpoints n).slots j).ready = true ∧
      (((step a x).endpoints n).slots j).serial = ((x.endpoints n).slots j).serial := by
  by_cases ha : ∃ endpoint majorFunction ioctlCode data inputLength outputLength token,
      a = .submit endpoint majorFunction ioctlCode data inputLength outputLength token
  · obtain ⟨endpoint, majorFunction, ioctlCode, data, inputLength, outputLength, token, rfl⟩ := ha
    rcases submit_takes endpoint majorFunction ioctlCode data inputLength outputLength token x with
      ⟨_, heq⟩ | ⟨m, i, v, q, htakes, _, hserial, _, _, hslots, he⟩
    · rw [heq] at hr ⊢
      exact .inr ⟨hr, rfl⟩
    · rcases update_ready he hslots hr with ⟨rfl, rfl, heq⟩ | ⟨heq, hold⟩
      · rw [heq]
        exact .inl ⟨htakes, hserial⟩
      · exact .inr ⟨hold, congrArg Slot.serial heq⟩
  · push Not at ha
    right
    have hs := (step_serial ha (x := x)).2
    exact (moves_ready (step_moves a x) hj hr).resolve_left (by omega)

theorem step_takes (ht : takes a x = some (n, i)) :
    i < queueDepth ∧ ((x.endpoints n).slots i).ready = false ∧
      ((step a x).endpoints n).used = true ∧
      (((step a x).endpoints n).slots i).ready = true ∧
      (((step a x).endpoints n).slots i).serial = x.serial ∧
      ∀ j, j ≠ i → ((step a x).endpoints n).slots j = (x.endpoints n).slots j := by
  by_cases ha : ∃ endpoint majorFunction ioctlCode data inputLength outputLength token,
      a = .submit endpoint majorFunction ioctlCode data inputLength outputLength token
  · obtain ⟨endpoint, majorFunction, ioctlCode, data, inputLength, outputLength, token, rfl⟩ := ha
    rcases submit_takes endpoint majorFunction ioctlCode data inputLength outputLength token x with
      ⟨hnone, _⟩ | ⟨m, k, v, q, htakes, hfind, hserial, hready, hused, hslots, he⟩
    · rw [hnone] at ht
      cases ht
    · rw [htakes] at ht
      cases ht
      obtain ⟨hi, hfree, _⟩ := findSlot_spec hfind
      simp only [isFree, Bool.and_eq_true, Bool.not_eq_true'] at hfree
      rw [he, update_self, hslots, update_self]
      exact ⟨hi, hfree.1, hused, hready, hserial, fun j hj => update_of_ne hj _ _⟩
  · push Not at ha
    rw [(step_serial ha (x := x)).1] at ht
    cases ht

theorem Sorted.step (hs : Sorted n x) (hk : Kept x) (htop : TakesTop n a x) :
    Sorted n (Wudf.step a x) := by
  intro i j hij hj hri hrj
  have hi : i < queueDepth := hij.trans hj
  have hlt : ∀ k < queueDepth, ((x.endpoints n).slots k).ready = true →
      ((x.endpoints n).slots k).serial < x.serial := fun k hk' hr =>
    hk.serials _ _ _ _ _ ((hk.slots n k hk').busy (.inl hr)).2.1
  rcases step_ready hi hri with ⟨hti, hsi⟩ | ⟨hoi, hsi⟩
  · rcases step_ready hj hrj with ⟨htj, _⟩ | ⟨hoj, _⟩
    · rw [hti] at htj
      cases htj
      omega
    · have := htop i hti j hj hoj
      omega
  · rcases step_ready hj hrj with ⟨_, hsj⟩ | ⟨hoj, hsj⟩
    · rw [hsi, hsj]
      exact hlt i hi hoi
    · rw [hsi, hsj]
      exact hs i j hij hj hoi hoj

end Order

/-- For every run and every endpoint: a host that polls and completes serves in the order of
submission, from each state of the run on, exactly if no submission of the run takes a slot below an
outstanding packet. -/
theorem serves_in_order_iff (mem : Mem) (acts : List Act) (n : Nat) (hn : n < maxEndpoints) :
    (∀ pre post, acts = pre ++ post → ServesInOrder n (run mem pre)) ↔
      ∀ pre a post, acts = pre ++ a :: post → TakesTop n a (run mem pre) := by
  have hnext : ∀ pre a, run mem (pre ++ [a]) = step a (run mem pre) := fun pre a =>
    foldl_append
  constructor
  · intro ho pre a post hacts i ht j hj hr
    obtain ⟨hi, hfree, hused, hready, hserial, hother⟩ := step_takes ht
    by_contra hji
    have hij : i < j := by
      refine Nat.lt_of_le_of_ne (Nat.le_of_not_lt hji) ?_
      rintro rfl
      rw [hfree] at hr
      cases hr
    -- after this submission the newest packet is in front of an older one
    have hk := kept_run mem pre
    have horder := ho (pre ++ [a]) post (by rw [hacts, append_assoc]; rfl)
    have hsorted := ((kept_run mem (pre ++ [a])).servesInOrder_iff hn).mp horder
    rw [hnext] at hsorted
    have hlt := hsorted hused i j hij hj hready (by rw [hother j (by omega)]; exact hr)
    rw [hserial, hother j (by omega)] at hlt
    have hold := hk.serials _ _ _ _ _ ((hk.slots n j hj).busy (.inl hr)).2.1
    omega
  · intro htop pre post hacts
    have hsorted : ∀ pre post, acts = pre ++ post → Sorted n (run mem pre) := by
      intro pre
      induction pre using List.reverseRecOn with
      | nil =>
        intro _ _ i j _ _ hri
        cases hri
      | append_singleton pre a ih =>
        intro post hacts
        rw [append_assoc] at hacts
        rw [hnext]
        exact (ih (a :: post) hacts).step (kept_run mem pre) (htop pre a post hacts)
    exact ((kept_run mem pre).servesInOrder_iff hn).mpr fun _ => hsorted pre post hacts

/-- Two requests, one behind the other. -/
theorem serves_in_order_iff_two :
    ServesInOrder 0 (run (fun _ => 0) [.register, .submit 1 4 9 64 0 0 128,
      .submit 1 4 9 64 0 0 128]) := by
  refine (serves_in_order_iff (fun _ => 0) [.register, .submit 1 4 9 64 0 0 128,
    .submit 1 4 9 64 0 0 128] 0 (by decide)).mpr ?_ _ [] (append_nil _).symm
  have hsecond : takes (.submit 1 4 9 64 0 0 128)
      (run (fun _ => 0) [.register, .submit 1 4 9 64 0 0 128]) = some (0, 1) := by decide +kernel
  have hready : (∀ j < queueDepth, (((run (fun _ => 0) [.register]).endpoints 0).slots j).ready =
      false) ∧ ∀ j < queueDepth, (((run (fun _ => 0) [.register,
        .submit 1 4 9 64 0 0 128]).endpoints 0).slots j).ready = true → j < 1 := by
    decide +kernel
  intro pre a post hacts i ht j hj hr
  rcases pre with _ | ⟨_, _ | ⟨_, _ | ⟨_, pre⟩⟩⟩
  · cases hacts
    cases ht
  · cases hacts
    rw [hready.1 j hj] at hr
    cases hr
  · cases hacts
    rw [hsecond] at ht
    cases ht
    exact hready.2 j hj hr
  · have hlen := congrArg List.length hacts
    simp at hlen

/-- The first of two requests is fetched and its slot taken by a third, which is then polled before
the second. -/
theorem serves_in_order_iff_reused :
    let x := run (fun _ => 0) [.register, .submit 1 4 9 64 0 0 128, .submit 1 4 9 64 0 0 128,
      .complete 1 1 0 0 0 0, .getCompletion 1 1 0 0, .submit 1 4 9 64 0 0 128]
    (x.endpoints 0).used = true ∧ Outstanding x 0 1 ∧
      (wudfTransportPoll 1 256 x).1.map Packet.token = some 3 ∧ ¬ PollsFirst 0 x := by
  intro x
  have hk : Kept x := kept_run _ _
  have hslots : ((x.endpoints 0).slots 0).serial = 2 ∧ ((x.endpoints 0).slots 1).serial = 1 ∧
      ((x.endpoints 0).slots 1).ready = true ∧
      (x.endpoints 0).findSlot Slot.ready = some 0 := by decide +kernel
  have hused : (x.endpoints 0).used = true := by decide +kernel
  refine ⟨hused, ?_, by decide +kernel, fun hp => ?_⟩
  · exact hk.outstanding_iff.mpr ⟨1, by decide, hslots.2.2.1, hslots.2.1⟩
  · have hle := (hk.pollsFirst_iff (by decide)).mp hp hused 0 hslots.2.2.2 1 (by decide)
      hslots.2.2.1
    rw [hslots.1, hslots.2.1] at hle
    exact absurd hle (by decide)

/-! ## Tokens of earlier registrations -/

def OldToken (l : List Event) (e ep token : Nat) : Prop :=
  ∃ s ep' i p, ep' < ep ∧ .submitted s e ep' i p ∈ l ∧ p.token = token

/-- A call with an old token succeeded on a packet of a later registration. -/
def Collides (old : List Event) : Event → Prop
  | .completed _ e ep token _ _ => OldToken old e ep token
  | .reaped _ e ep token _ _ => OldToken old e ep token
  | .submitted .. => False
  | .polled .. => False

def carries : Act → Option (Nat × Nat)
  | .complete endpoint token _ _ _ _ => some (endpoint, token)
  | .getCompletion endpoint token _ _ => some (endpoint, token)
  | _ => none

/-- The packets of the present registration that a call can find. -/
def Findable (a : Act) (s : Nat) (l : List Event) : Prop :=
  match a with
  | .complete .. => ¬ Completed s l
  | .getCompletion .. => Completed s l ∧ ¬ Reaped s l
  | _ => False

/-- If the call carries an old token, the present registration has no packet of that token that the
call could find. -/
def NoTwin (a : Act) (x : Transport) : Prop :=
  ∀ e token, carries a = some (e, token) → x.queue e ≠ none →
    OldToken x.history e (x.endpoints (e - 1)).epoch token →
    ∀ s i p, .submitted s e (x.endpoints (e - 1)).epoch i p ∈ x.history → p.token = token →
      ¬ Findable a s x.history

section Old

variable {x : Transport}

theorem complete_cases (hk : Kept x) (e token status information data dataLength : Nat) :
    step (.complete e token status information data dataLength) x = x ∧
      (x.queue e ≠ none → ∀ s i p, .submitted s e (x.endpoints (e - 1)).epoch i p ∈ x.history →
        p.token = token → Completed s x.history) ∨
    ∃ s i p, x.queue e ≠ none ∧ .submitted s e (x.endpoints (e - 1)).epoch i p ∈ x.history ∧
      p.token = token ∧ ¬ Completed s x.history ∧
      (step (.complete e token status information data dataLength) x).history =
        .completed s e (x.endpoints (e - 1)).epoch token status information :: x.history := by
  simp only [step, wudfTransportComplete]
  cases hq : x.queue e with
  | none => exact .inl ⟨rfl, fun h => absurd rfl h⟩
  | some q =>
    obtain ⟨n, _, rfl, rfl, _⟩ := queue_spec hq
    rw [Nat.add_sub_cancel]
    dsimp only
    cases hfind : (x.endpoints n).findSlot fun s =>
        s.ready && decide (s.packet.token = token) with
    | none =>
      refine .inl ⟨rfl, fun _ s i p hin htoken => ?_⟩
      by_contra hno
      obtain ⟨j, hj, hr, hs⟩ := hk.outstanding_iff.mp ⟨⟨i, p, hin⟩, hno⟩
      obtain ⟨_, hsub, _⟩ := (hk.slots n j hj).busy (.inl hr)
      rw [hs] at hsub
      have hp := (hk.lawful.serial_inj hsub hin).2.2.2
      have hfalse := findSlot_none hfind hj
      simp [hr, hp, htoken] at hfalse
    | some i =>
      obtain ⟨hi, hfound, _⟩ := findSlot_spec hfind
      rw [Bool.and_eq_true, decide_eq_true_eq] at hfound
      obtain ⟨hep, hsub, _⟩ := (hk.slots n i hi).busy (.inl hfound.1)
      refine .inr ⟨_, i, _, by simp, hsub, hfound.2, ((hk.slots n i hi).ready hfound.1).2, ?_⟩
      rw [← hep]
      rfl

theorem getCompletion_cases (hk : Kept x) (e token status information : Nat) :
    step (.getCompletion e token status information) x = x ∧
      (x.queue e ≠ none → ∀ s i p, .submitted s e (x.endpoints (e - 1)).epoch i p ∈ x.history →
        p.token = token → Completed s x.history → Reaped s x.history) ∨
    ∃ s i p st inf, x.queue e ≠ none ∧
      .submitted s e (x.endpoints (e - 1)).epoch i p ∈ x.history ∧ p.token = token ∧
      Completed s x.history ∧ ¬ Reaped s x.history ∧
      (step (.getCompletion e token status information) x).history =
        .reaped s e (x.endpoints (e - 1)).epoch token st inf :: x.history := by
  simp only [step, wudfTransportGetCompletion]
  cases hq : x.queue e with
  | none => exact .inl ⟨rfl, fun h => absurd rfl h⟩
  | some q =>
    obtain ⟨n, _, rfl, rfl, _⟩ := queue_spec hq
    rw [Nat.add_sub_cancel]
    dsimp only
    cases hfind : (x.endpoints n).findSlot fun s =>
        s.completed && decide (s.packet.token = token) with
    | none =>
      refine .inl ⟨rfl, fun _ s i p hin htoken hcomp => ?_⟩
      refine (hk.held s n i p hin).resolve_right ?_
      rintro ⟨hi, hs, hb⟩
      obtain ⟨_, hsub, _⟩ := (hk.slots n i hi).busy hb
      rw [hs] at hsub
      have hp := (hk.lawful.serial_inj hsub hin).2.2.2
      rcases hb with hr | hc
      · have hno := ((hk.slots n i hi).ready hr).2
        rw [hs] at hno
        exact hno hcomp
      · have hfalse := findSlot_none hfind hi
        simp [hc, hp, htoken] at hfalse
    | some i =>
      obtain ⟨hi, hfound, _⟩ := findSlot_spec hfind
      rw [Bool.and_eq_true, decide_eq_true_eq] at hfound
      obtain ⟨hep, hsub, hreap⟩ := (hk.slots n i hi).busy (.inr hfound.1)
      have hcomp := (hk.slots n i hi).completed hfound.1
      refine .inr ⟨_, i, _, ((x.endpoints n).slots i).completionStatus,
        ((x.endpoints n).slots i).completionInformation, by simp, hsub, hfound.2,
        ⟨_, _, _, _, _, hcomp⟩, hreap, ?_⟩
      rw [← hep]
      rfl

theorem other_history {a : Act} (ha : carries a = none) :
    (step a x).history = x.history ∨
      ∃ ev, (step a x).history = ev :: x.history ∧ ∀ old, ¬ Collides old ev := by
  cases a with
  | register =>
    left
    simp only [step, wudfTransportRegisterEndpoint]
    split <;> rfl
  | unregister endpoint =>
    left
    simp only [step, wudfTransportUnregisterEndpoint]
    split <;> rfl
  | submit endpoint majorFunction ioctlCode data inputLength outputLength token =>
    simp only [step, wudfTransportSubmit]
    split
    · exact .inl rfl
    · split
      · exact .inl rfl
      · split
        · exact .inl rfl
        · exact .inr ⟨_, rfl, fun _ h => h⟩
  | poll endpoint packet =>
    simp only [step, wudfTransportPoll]
    split
    · exact .inl rfl
    · split
      · exact .inl rfl
      · split
        · exact .inl rfl
        · exact .inr ⟨_, rfl, fun _ h => h⟩
  | complete endpoint token status information data dataLength => cases ha
  | getCompletion endpoint token status information => cases ha
  | write mem => exact .inl rfl

theorem step_history (hk : Kept x) (a : Act) :
    ((step a x).history = x.history ∧ NoTwin a x) ∨
      ∃ ev, (step a x).history = ev :: x.history ∧ (Collides x.history ev ↔ ¬ NoTwin a x) := by
  cases hc : carries a with
  | none =>
    have htwin : NoTwin a x := by
      intro e token h
      rw [hc] at h
      cases h
    rcases other_history (x := x) hc with h | ⟨ev, h, hno⟩
    · exact .inl ⟨h, htwin⟩
    · exact .inr ⟨ev, h, ⟨fun h => absurd h (hno _), fun h => absurd htwin h⟩⟩
  | some pair =>
    cases a with
    | complete e token status information data dataLength =>
      rcases complete_cases hk e token status information data dataLength with
        ⟨heq, hnone⟩ | ⟨s, i, p, hq, hsub, htoken, hno, hhist⟩
      · left
        rw [heq]
        refine ⟨rfl, ?_⟩
        rintro e' token' hcarries hq _ s i p hin htoken hfind
        cases hcarries
        exact hfind (hnone hq s i p hin htoken)
      · refine .inr ⟨_, hhist, fun hold htwin => ?_, fun htwin => ?_⟩
        · exact htwin e token rfl hq hold s i p hsub htoken hno
        · by_contra hold
          refine htwin ?_
          rintro e' token' hcarries _ hold'
          cases hcarries
          exact absurd hold' hold
    | getCompletion e token status information =>
      rcases getCompletion_cases hk e token status information with
        ⟨heq, hnone⟩ | ⟨s, i, p, st, inf, hq, hsub, htoken, hcomp, hreap, hhist⟩
      · left
        rw [heq]
        refine ⟨rfl, ?_⟩
        rintro e' token' hcarries hq _ s i p hin htoken hfind
        cases hcarries
        exact hfind.2 (hnone hq s i p hin htoken hfind.1)
      · refine .inr ⟨_, hhist, fun hold htwin => ?_, fun htwin => ?_⟩
        · exact htwin e token rfl hq hold s i p hsub htoken ⟨hcomp, hreap⟩
        · by_contra hold
          refine htwin ?_
          rintro e' token' hcarries _ hold'
          cases hcarries
          exact absurd hold' hold
    | register => cases hc
    | unregister endpoint => cases hc
    | submit endpoint majorFunction ioctlCode data inputLength outputLength token => cases hc
    | poll endpoint packet => cases hc
    | write mem => cases hc

theorem old_call_idle (hk : Kept x) {a : Act} {e token : Nat} (hc : carries a = some (e, token))
    (hold : OldToken x.history e (x.endpoints (e - 1)).epoch token) (htwin : NoTwin a x) :
    step a x = x := by
  cases a with
  | complete e' token' status information data dataLength =>
    cases hc
    rcases complete_cases hk e token status information data dataLength with
      ⟨heq, _⟩ | ⟨s, i, p, hq, hsub, htoken, hno, _⟩
    · exact heq
    · exact absurd hno (htwin e token rfl hq hold s i p hsub htoken)
  | getCompletion e' token' status information =>
    cases hc
    rcases getCompletion_cases hk e token status information with
      ⟨heq, _⟩ | ⟨s, i, p, st, inf, hq, hsub, htoken, hcomp, hreap, _⟩
    · exact heq
    · exact absurd ⟨hcomp, hreap⟩ (htwin e token rfl hq hold s i p hsub htoken)
  | register => cases hc
  | unregister endpoint => cases hc
  | submit endpoint majorFunction ioctlCode data inputLength outputLength token => cases hc
  | poll endpoint packet => cases hc
  | write mem => cases hc

end Old

/-- For every run: no call with the pair of a packet of an earlier registration succeeded on a
packet of a later one, exactly if each such call was made while the present registration had no
packet of that token that it could find. -/
theorem old_token_harmless_iff (mem : Mem) (acts : List Act) :
    ((∀ new ev old, (run mem acts).history = new ++ ev :: old → ¬ Collides old ev) ↔
      ∀ pre a post, acts = pre ++ a :: post → NoTwin a (run mem pre)) ∧
    ∀ a e token, carries a = some (e, token) →
      OldToken (run mem acts).history e ((run mem acts).endpoints (e - 1)).epoch token →
      NoTwin a (run mem acts) → step a (run mem acts) = run mem acts := by
  refine ⟨?_, fun a e token hc hold htwin => old_call_idle (kept_run mem acts) hc hold htwin⟩
  induction acts using List.reverseRecOn with
  | nil =>
    refine ⟨fun _ pre a post h => ?_, fun _ new ev old h => ?_⟩
    · have := congrArg List.length h
      simp at this
    · have := congrArg List.length h
      simp [run, boot] at this
  | append_singleton acts a ih =>
    have hnext : run mem (acts ++ [a]) = step a (run mem acts) := foldl_append
    have hconcat := forall_split_concat (l := acts) (a := a)
      (P := fun pre b => NoTwin b (run mem pre))
    rw [hconcat, ← ih, hnext]
    rcases step_history (kept_run mem acts) a with ⟨hh, htwin⟩ | ⟨ev, hh, hiff⟩
    · rw [hh]
      exact ⟨fun h => ⟨h, htwin⟩, fun h => h.1⟩
    · have hcons := forall_split_cons (l := (run mem acts).history) (a := ev)
        (P := fun old b => ¬ Collides old b)
      rw [hh, hcons, hiff, not_not]

/-- The endpoint is registered again, and the new request has the token of the old one: the late
reply to the old request completes it. -/
theorem old_token_harmless_iff_late :
    let acts : List Act := [.register, .submit 1 4 9 64 0 0 128, .unregister 1, .register,
      .submit 1 4 9 64 0 0 128]
    let x := run (fun _ => 0) acts
    OldToken x.history 1 (x.endpoints 0).epoch 1 ∧
    (wudfTransportComplete 1 1 0 0 0 0 x).1 = true ∧
    ∃ new ev old, (step (.complete 1 1 0 0 0 0) x).history = new ++ ev :: old ∧
      Collides old ev := by
  intro acts x
  have hk : Kept x := kept_run _ _
  have hfirst : (x.history.any fun ev => match ev with
      | .submitted _ e ep _ p => e == 1 && ep == 1 && p.token == 1
      | .reaped .. | _ => false) = true := by decide +kernel
  have hepoch : (x.endpoints 0).epoch = 2 := by decide +kernel
  have hold : OldToken x.history 1 (x.endpoints 0).epoch 1 := by
    obtain ⟨ev, hin, hev⟩ := any_eq_true.mp hfirst
    cases ev with
    | submitted s e ep i p =>
      simp only [Bool.and_eq_true, beq_iff_eq] at hev
      obtain ⟨⟨rfl, rfl⟩, htoken⟩ := hev
      exact ⟨s, 1, i, p, by omega, hin, htoken⟩
    | polled s e ep p => cases hev
    | completed s e ep token status information => cases hev
    | reaped s e ep token status information => cases hev
  have hdone : (wudfTransportComplete 1 1 0 0 0 0 x).1 = true := by decide +kernel
  refine ⟨hold, hdone, ?_⟩
  rcases complete_cases hk 1 1 0 0 0 0 with ⟨heq, _⟩ | ⟨s, i, p, _, _, _, _, hhist⟩
  · -- the history grew
    have hlen : (step (.complete 1 1 0 0 0 0) x).history.length = 3 ∧ x.history.length = 2 := by
      decide +kernel
    rw [heq] at hlen
    omega
  · exact ⟨[], _, _, hhist, hold⟩

end DiscouNT.Wudf
