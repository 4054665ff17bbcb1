import DiscouNT.User32.Messages
import Mathlib.Data.List.Induction
import Mathlib.Data.List.Nodup
import Mathlib.Data.List.TakeWhile

/-!
# User32.Delivery

Whole runs of the message queue. Every message that was accepted is in the table, was dequeued by
the process it is for, or was a `WM_QUIT` that `User32SetProcessId` threw away, and only one of these
(`Accounted`).

A dequeue moves the entries behind it up; `User32SetProcessId` leaves a hole, and the next message
is stored there, ahead of older ones. `messages_in_order` says that the order is lost in just this
way.
-/

namespace DiscouNT.User32

open Lib List

/-- What becomes of the messages that were accepted. -/
structure Accounted (q : Queue) : Prop where
  distinct : (q.accepted.map U32Message.serial).Nodup
  once : (q.messages.filter U32Message.used ++
    (q.removed.map Prod.snd ++ q.discarded.map Prod.snd)).Perm q.accepted
  removed_by_owner : ∀ r ∈ q.removed, r.2.ownerPid = r.1
  discarded_quit : ∀ d ∈ q.discarded, d.2.ownerPid = d.1 ∧ d.2.msg.message = wmQuit

def Outstanding (q : Queue) (m : U32Message) : Prop :=
  m ∈ q.accepted ∧ m ∉ q.removed.map Prod.snd ∧ m ∉ q.discarded.map Prod.snd

def received (pid hWnd minMsg maxMsg : Nat) : Nat → Queue → List U32Message
  | 0, _ => []
  | n + 1, q =>
    match u32DequeueMessage pid hWnd minMsg maxMsg true q with
    | (none, _) => []
    | (some m, q) => m :: received pid hWnd minMsg maxMsg n q

/-- Whichever process is the current one and whatever it asks for, it gets the earliest message
there is, and as it goes on the messages come in the order in which they were accepted. -/
structure Delivers (q : Queue) : Prop where
  earliest : ∀ pid hWnd minMsg maxMsg remove m,
    (u32DequeueMessage pid hWnd minMsg maxMsg remove q).1 = some m →
      Outstanding q m ∧ m.ownerPid = pid ∧ u32MessageMatches hWnd minMsg maxMsg m.msg = true ∧
        ∀ m', Outstanding q m' → m'.ownerPid = pid →
          u32MessageMatches hWnd minMsg maxMsg m'.msg = true → m.serial ≤ m'.serial
  nothing : ∀ pid hWnd minMsg maxMsg remove,
    (u32DequeueMessage pid hWnd minMsg maxMsg remove q).1 = none →
      ∀ m, Outstanding q m → m.ownerPid = pid → u32MessageMatches hWnd minMsg maxMsg m.msg = false
  order : ∀ pid hWnd minMsg maxMsg n,
    (received pid hWnd minMsg maxMsg n q).Pairwise fun a b => a.serial < b.serial

/-- No message for the process is behind the first free slot. -/
def NothingBehind (pid : Nat) (q : Queue) : Prop :=
  ∀ m ∈ (q.messages.dropWhile U32Message.used).tail, m.used = true → m.ownerPid ≠ pid

def Orderly (e : Event) (s : State) : Prop :=
  match e with
  | .postMessage hWnd _ _ _ _ =>
    NothingBehind (messageOwner s.kernelPid (s.windows hWnd) s.queue) s.queue
  | .postQuitMessage _ _ => NothingBehind (messageOwner s.kernelPid (s.windows 0) s.queue) s.queue
  | _ => True

section Steps

variable {q : Queue} {pid hWnd minMsg maxMsg : Nat} {m : U32Message}

structure Ledger (q : Queue) : Prop extends Accounted q where
  serial_lt : ∀ m ∈ q.accepted, m.serial < q.accepted.length

def InOrder (q : Queue) : Prop :=
  q.messages.Pairwise fun a b =>
    a.used = true → b.used = true → a.ownerPid = b.ownerPid → a.serial < b.serial

theorem Ledger.quitStates (h : Ledger q) (quitStates : List U32QuitState) :
    Ledger { q with quitStates } :=
  ⟨⟨h.distinct, h.once, h.removed_by_owner, h.discarded_quit⟩, h.serial_lt⟩

theorem Ledger.accepted_of_held (h : Ledger q) (hm : m ∈ q.messages) (hused : m.used = true) :
    m ∈ q.accepted :=
  h.once.mem_iff.mp (mem_append_left _ (mem_filter.mpr ⟨hm, hused⟩))

theorem enqueue_ledger (h : Ledger q) (kernelPid : Nat) (win : Option Nat) (hWnd msg : Nat)
    (wParam lParam : Int) (time : Nat) :
    Ledger (u32EnqueueMessage kernelPid win hWnd msg wParam lParam time q).2 := by
  unfold u32EnqueueMessage
  simp only
  generalize hm : (⟨true, ⟨hWnd, msg, wParam, lParam, time, 0, 0⟩, messageOwner kernelPid win q,
    q.accepted.length⟩ : U32Message) = m
  have hused : m.used = true := by rw [← hm]
  have hserial : m.serial = q.accepted.length := by rw [← hm]
  rcases hstore : storeFirst U32Message.used m q.messages with _ | messages
  · exact h
  refine ⟨⟨?_, ?_, h.removed_by_owner, h.discarded_quit⟩, ?_⟩
  · refine nodup_cons.mpr ⟨fun hin => ?_, h.distinct⟩
    obtain ⟨m', hm', heq⟩ := mem_map.mp hin
    have := h.serial_lt m' hm'
    omega
  · exact ((filter_storeFirst hused hstore).append_right _).trans (h.once.cons m)
  · intro m' hm'
    rw [length_cons]
    rcases mem_cons.mp hm' with rfl | hm'
    · omega
    · have := h.serial_lt m' hm'
      omega

theorem dequeue_ledger (h : Ledger q) (pid hWnd minMsg maxMsg : Nat) (remove : Bool) :
    Ledger (u32DequeueMessage pid hWnd minMsg maxMsg remove q).2 := by
  unfold u32DequeueMessage
  rcases htake : takeFirst (dequeues pid hWnd minMsg maxMsg) {} q.messages with _ | ⟨m, messages⟩
  · exact h
  cases remove with
  | false => exact h
  | true =>
    obtain ⟨x, y, -, -, hmatch, -⟩ := takeFirst_some htake
    simp only [dequeues, Bool.and_eq_true, decide_eq_true_eq] at hmatch
    refine ⟨⟨h.distinct, ?_, ?_, h.discarded_quit⟩, h.serial_lt⟩
    · have hperm := filter_takeFirst_perm (q := U32Message.used) rfl hmatch.1.1 htake
      refine List.Perm.trans ?_ h.once
      exact (perm_middle.trans (hperm.symm.append_right _ : _))
    · intro r hr
      rcases mem_cons.mp hr with rfl | hr
      · exact hmatch.1.2
      · exact h.removed_by_owner r hr

theorem filter_clear (p : U32Message → Bool) (hp : ∀ m, p m = true → m.used = true)
    (l : List U32Message) :
    ((l.map fun m => if p m then { m with used := false } else m).filter U32Message.used ++
      l.filter p).Perm (l.filter U32Message.used) := by
  induction l with
  | nil => simp
  | cons m l ih =>
    by_cases hm : p m = true
    · simp only [map_cons, hm, if_true, filter_cons, hp m hm, Bool.false_eq_true, if_false]
      exact perm_middle.trans (ih.cons m)
    · by_cases hused : m.used = true
      · simpa [hm, hused] using ih
      · simpa [hm, hused] using ih

theorem setProcessId_ledger (h : Ledger q) (pid : Nat) : Ledger (user32SetProcessId pid q) := by
  refine ⟨⟨h.distinct, ?_, h.removed_by_owner, ?_⟩, h.serial_lt⟩
  · simp only [user32SetProcessId, map_append, map_map, Function.comp_def, map_id']
    generalize (if pid ≠ 0 then pid else 1) = newPid
    have hclear := filter_clear (quitsOf newPid) (fun m hm => by
      simp only [quitsOf, Bool.and_eq_true] at hm
      exact hm.1.1) q.messages
    refine List.Perm.trans ?_ (List.Perm.trans (hclear.append_right _) h.once)
    rw [append_assoc]
    refine List.Perm.append_left _ ?_
    rw [← append_assoc, ← append_assoc]
    exact perm_append_comm.append_right _
  · intro d hd
    rcases mem_append.mp hd with hd | hd
    · obtain ⟨m, hm, rfl⟩ := mem_map.mp hd
      have := (mem_filter.mp hm).2
      simp only [quitsOf, Bool.and_eq_true, decide_eq_true_eq] at this
      exact ⟨this.1.2, this.2⟩
    · exact h.discarded_quit d hd

theorem step_ledger {s : State} (h : Ledger s.queue) (e : Event) : Ledger (step e s).queue := by
  cases e with
  | postMessage hWnd msg wParam lParam time => exact enqueue_ledger h ..
  | postQuitMessage exitCode time => exact enqueue_ledger (h.quitStates _) ..
  | dequeue hWnd minMsg maxMsg remove => exact dequeue_ledger h ..
  | setProcessId pid => exact setProcessId_ledger h pid
  | other windows kernelPid => exact h

theorem initial_ledger : Ledger ({} : Queue) := by
  have hempty : (List.replicate maxU32Messages ({} : U32Message)).filter U32Message.used = [] :=
    filter_eq_nil_iff.mpr fun m hm => by simp [eq_of_mem_replicate hm]
  refine ⟨⟨nodup_nil, ?_, fun r hr => (nomatch hr), fun d hd => (nomatch hd)⟩,
    fun m hm => (nomatch hm)⟩
  simp [hempty]

theorem enqueue_inOrder (h : Ledger q) (ho : InOrder q) (kernelPid : Nat) (win : Option Nat)
    (hWnd msg : Nat) (wParam lParam : Int) (time : Nat) :
    InOrder (u32EnqueueMessage kernelPid win hWnd msg wParam lParam time q).2 ↔
      NothingBehind (messageOwner kernelPid win q) q := by
  unfold u32EnqueueMessage
  simp only
  rcases hstore : storeFirst U32Message.used _ q.messages with _ | messages
  · -- the table is full
    refine iff_of_true ho fun m hm => ?_
    have hfull := storeFirst_eq_none.mp hstore
    have hnil : q.messages.dropWhile U32Message.used = [] := dropWhile_eq_nil_iff.mpr hfull
    rw [hnil] at hm
    cases hm
  · have hbehind : ∀ m ∈ (q.messages.dropWhile U32Message.used).tail, m ∈ q.messages := fun m hm =>
      (dropWhile_suffix _).mem (mem_of_mem_tail hm)
    refine (pairwise_storeFirst hstore ho fun c hc hused _ _ => ?_).trans ?_
    · exact h.serial_lt c (h.accepted_of_held hc hused)
    · refine forall₂_congr fun m hm => ?_
      constructor
      · intro hlt hused heq
        have := hlt rfl hused heq.symm
        have := h.serial_lt m (h.accepted_of_held (hbehind m hm) hused)
        simp only at *
        omega
      · intro hne _ hused heq
        exact absurd heq.symm (hne hused)

theorem dequeue_inOrder (ho : InOrder q) (pid hWnd minMsg maxMsg : Nat) (remove : Bool) :
    InOrder (u32DequeueMessage pid hWnd minMsg maxMsg remove q).2 := by
  unfold u32DequeueMessage
  rcases htake : takeFirst (dequeues pid hWnd minMsg maxMsg) {} q.messages with _ | ⟨m, messages⟩
  · exact ho
  cases remove with
  | false => exact ho
  | true => exact pairwise_takeFirst (fun c _ hempty => absurd hempty Bool.false_ne_true) htake ho

theorem setProcessId_inOrder (ho : InOrder q) (pid : Nat) : InOrder (user32SetProcessId pid q) := by
  refine pairwise_map.mpr (ho.imp fun {a b} hab => ?_)
  generalize (if pid ≠ 0 then pid else 1) = newPid
  by_cases ha : quitsOf newPid a = true
  · simp [ha]
  · by_cases hb : quitsOf newPid b = true
    · simp [hb]
    · simpa [ha, hb] using hab

theorem step_inOrder {s : State} (h : Ledger s.queue) (ho : InOrder s.queue) (e : Event) :
    InOrder (step e s).queue ↔ Orderly e s := by
  cases e with
  | postMessage hWnd msg wParam lParam time => exact enqueue_inOrder h ho ..
  | postQuitMessage exitCode time =>
    have hq := h.quitStates (u32GetQuitState (u32CurrentProcessId s.kernelPid s.queue) true
      (fun state => { state with exitRequested := true, exitCode }) s.queue.quitStates)
    exact enqueue_inOrder hq ho s.kernelPid (s.windows 0) 0 wmQuit exitCode 0 time
  | dequeue hWnd minMsg maxMsg remove => exact iff_of_true (dequeue_inOrder ho ..) trivial
  | setProcessId pid => exact iff_of_true (setProcessId_inOrder ho pid) trivial
  | other windows kernelPid => exact iff_of_true ho trivial

theorem received_eq (pid hWnd minMsg maxMsg n : Nat) (q : Queue) :
    received pid hWnd minMsg maxMsg n q =
      (q.messages.filter (dequeues pid hWnd minMsg maxMsg)).take n := by
  rw [← @drain_eq _ (dequeues pid hWnd minMsg maxMsg) {} _ rfl]
  induction n generalizing q with
  | zero => rfl
  | succ n ih =>
    rw [received, drain, u32DequeueMessage]
    rcases takeFirst (dequeues pid hWnd minMsg maxMsg) {} q.messages with _ | ⟨m, messages⟩
    · rfl
    · exact congrArg (m :: ·) (ih _)

theorem Ledger.outstanding_iff (h : Ledger q) :
    Outstanding q m ↔ m ∈ q.messages ∧ m.used = true := by
  have hnodup : (q.messages.filter U32Message.used ++
      (q.removed.map Prod.snd ++ q.discarded.map Prod.snd)).Nodup :=
    h.once.nodup_iff.mpr (List.Nodup.of_map _ h.distinct)
  have hmem := h.once.mem_iff (a := m)
  rw [mem_append, mem_append, mem_filter] at hmem
  constructor
  · rintro ⟨haccepted, hremoved, hdiscarded⟩
    exact (hmem.mpr haccepted).resolve_right (not_or.mpr ⟨hremoved, hdiscarded⟩)
  · intro hheld
    have hnot : m ∉ q.removed.map Prod.snd ++ q.discarded.map Prod.snd := fun hin =>
      (disjoint_of_nodup_append hnodup) (mem_filter.mpr hheld) hin
    rw [mem_append, not_or] at hnot
    exact ⟨hmem.mp (.inl hheld), hnot⟩

theorem dequeue_fst (pid hWnd minMsg maxMsg : Nat) (remove : Bool) (q : Queue) :
    (u32DequeueMessage pid hWnd minMsg maxMsg remove q).1 =
      (takeFirst (dequeues pid hWnd minMsg maxMsg) {} q.messages).map Prod.fst := by
  rw [u32DequeueMessage]
  rcases takeFirst (dequeues pid hWnd minMsg maxMsg) {} q.messages with _ | ⟨m, messages⟩
  · rfl
  · cases remove <;> rfl

theorem dequeues_iff : dequeues pid hWnd minMsg maxMsg m = true ↔
    m.used = true ∧ m.ownerPid = pid ∧ u32MessageMatches hWnd minMsg maxMsg m.msg = true := by
  simp [dequeues, and_assoc]

theorem InOrder.matching (ho : InOrder q) (pid hWnd minMsg maxMsg : Nat) :
    q.messages.Pairwise fun a b => dequeues pid hWnd minMsg maxMsg a = true →
      dequeues pid hWnd minMsg maxMsg b = true → a.serial < b.serial :=
  ho.imp fun {a b} hab ha hb => by
    rw [dequeues_iff] at ha hb
    exact hab ha.1 hb.1 (ha.2.1.trans hb.2.1.symm)

theorem delivers_of_inOrder (h : Ledger q) (ho : InOrder q) : Delivers q := by
  refine ⟨fun pid hWnd minMsg maxMsg remove m hm => ?_, fun pid hWnd minMsg maxMsg remove hnone m hm
    hpid => ?_, fun pid hWnd minMsg maxMsg n => ?_⟩
  · rw [dequeue_fst] at hm
    obtain ⟨⟨m1, messages⟩, htake, rfl⟩ := Option.map_eq_some_iff.mp hm
    obtain ⟨x, y, hsplit, hx, hmatch, -⟩ := takeFirst_some htake
    have hmem : m1 ∈ q.messages := by simp [hsplit]
    obtain ⟨hused, hpid, hmatches⟩ := dequeues_iff.mp hmatch
    refine ⟨h.outstanding_iff.mpr ⟨hmem, hused⟩, hpid, hmatches, fun m' hm' hpid' hmatches' => ?_⟩
    obtain ⟨hmem', hused'⟩ := h.outstanding_iff.mp hm'
    have hmatch' := dequeues_iff.mpr ⟨hused', hpid', hmatches'⟩
    have hpairs := ho.matching pid hWnd minMsg maxMsg
    rw [hsplit] at hmem' hpairs
    rcases mem_append.mp hmem' with hin | hin
    · rw [hx m' hin] at hmatch'
      cases hmatch'
    · rcases mem_cons.mp hin with rfl | hin
      · exact le_rfl
      · have hbehind := (pairwise_cons.mp (pairwise_append.mp hpairs).2.1).1 m' hin
        exact (hbehind hmatch hmatch').le
  · rw [dequeue_fst, Option.map_eq_none_iff, takeFirst_eq_none] at hnone
    obtain ⟨hmem, hused⟩ := h.outstanding_iff.mp hm
    have hnot := hnone m hmem
    simpa [dequeues, hused, hpid] using hnot
  · rw [received_eq]
    exact (pairwise_filter.mpr (ho.matching pid hWnd minMsg maxMsg)).sublist
      (take_sublist n _)

theorem inOrder_of_delivers (hd : Delivers q) : InOrder q := by
  have hpairs : ∀ pid, q.messages.Pairwise fun a b => dequeues pid 0 0 0 a = true →
      dequeues pid 0 0 0 b = true → a.serial < b.serial := fun pid => by
    have horder := hd.order pid 0 0 0 q.messages.length
    rw [received_eq, take_of_length_le (length_filter_le _ _)] at horder
    exact pairwise_filter.mp horder
  have hall : ∀ m, m.used = true → dequeues m.ownerPid 0 0 0 m = true := fun m hused =>
    dequeues_iff.mpr ⟨hused, rfl, by simp [u32MessageMatches]⟩
  refine pairwise_iff_getElem.mpr fun i j hi hj hij hused hused' heq => ?_
  refine pairwise_iff_getElem.mp (hpairs q.messages[i].ownerPid) i j hi hj hij
    (hall _ hused) ?_
  rw [heq]
  exact hall _ hused'

end Steps

/-! ## Runs -/

theorem run_append (es : List Event) (e : Event) : run (es ++ [e]) = step e (run es) := by
  simp [run]

theorem run_ledger (events : List Event) : Ledger (run events).queue := by
  induction events using List.reverseRecOn with
  | nil => exact initial_ledger
  | append_singleton es e ih =>
    rw [run_append]
    exact step_ledger ih e

theorem initial_inOrder : InOrder ({} : Queue) :=
  pairwise_of_forall_mem_list fun a ha b _ hused => by
    rw [eq_of_mem_replicate ha] at hused
    cases hused

theorem run_inOrder (events : List Event) :
    (∀ es, es <+: events → InOrder (run es).queue) ↔
      ∀ es e, es ++ [e] <+: events → Orderly e (run es) := by
  constructor
  · intro hall es e hpre
    have hbefore := hall es ((prefix_append es [e]).trans hpre)
    have hafter := hall (es ++ [e]) hpre
    rw [run_append] at hafter
    exact (step_inOrder (run_ledger es) hbefore e).mp hafter
  · intro horderly es
    induction es using List.reverseRecOn with
    | nil => exact fun _ => initial_inOrder
    | append_singleton es e ih =>
      intro hpre
      have hbefore := ih ((prefix_append es [e]).trans hpre)
      rw [run_append]
      exact (step_inOrder (run_ledger es) hbefore e).mpr (horderly es e hpre)

/-- In every run each accepted message is accounted for, and messages are delivered in order after
each event just if none was stored in a hole ahead of an older message of its process. -/
theorem messages_in_order (events : List Event) :
    (∀ es, es <+: events → Accounted (run es).queue) ∧
      ((∀ es, es <+: events → Delivers (run es).queue) ↔
        ∀ es e, es ++ [e] <+: events → Orderly e (run es)) := by
  refine ⟨fun es _ => (run_ledger es).toAccounted, Iff.trans ?_ (run_inOrder events)⟩
  exact forall₂_congr fun es _ => ⟨inOrder_of_delivers, delivers_of_inOrder (run_ledger es)⟩

/-- A process posts `WM_QUIT` and a message, is made the current process again, and posts another
one: that is what it gets first. -/
def holeFilled : List Event :=
  [.postQuitMessage 0 0, .postMessage 0 0x8000 0 0 1, .setProcessId 1, .postMessage 0 0x8001 0 0 2]

theorem later_message_first : ¬ ∀ events, Delivers (run events).queue := by
  intro hall
  have hfirst : (u32DequeueMessage 1 0 0 0 true (run holeFilled).queue).1.map U32Message.serial =
      some 2 := by decide +kernel
  obtain ⟨m, hm, hserial⟩ := Option.map_eq_some_iff.mp hfirst
  obtain ⟨-, -, -, hle⟩ := (hall holeFilled).earliest 1 0 0 0 true m hm
  have holder : (run holeFilled).queue.messages[1]?.map (fun m => (m.used, m.serial, m.ownerPid)) =
      some (true, 1, 1) := by decide +kernel
  obtain ⟨m', hm', hfields⟩ := Option.map_eq_some_iff.mp holder
  simp only [Prod.mk.injEq] at hfields
  obtain ⟨hused, hserial', hpid⟩ := hfields
  have hout := (run_ledger holeFilled).outstanding_iff.mpr ⟨mem_of_getElem? hm', hused⟩
  have := hle m' hout hpid (by simp [u32MessageMatches])
  omega

end DiscouNT.User32
