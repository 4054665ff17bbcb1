import DiscouNT.Win32k.Activation

/-!
# Win32k.Destruction

What is left of a window after `Win32kDestroyWindow`: the gestures of the mouse that began on it, and
the messages and references of the calls that are under way.

`Win32kDestroyWindow` clears none of `drag_window`, `resize_window` and the caption state, so a
gesture on a destroyed window goes on with the next window that gets its handle. It does not
ask whether the window was destroyed before either: a close button whose window destroys itself on
`WM_CLOSE` sends a second `WM_DESTROY` and gives back a reference that is not its own.
-/

namespace DiscouNT.Win32k

open Lib

def gestureRules : Rules := ⟨False, False, True, False⟩

def messageRules : Rules := ⟨False, False, False, True⟩

/-- The procedure of the window with that serial is sent `WM_DESTROY`. -/
def Event.isDestroy (n : Nat) : Event → Bool
  | .sent k m => decide (k = n) && decide (m.msg = .destroy)
  | _ => false

/-- Between calls: a window was sent `WM_DESTROY` at most once and nothing after it, and it has the
reference of its creation until then, and besides it only those that were leaked. -/
structure Farewell (s : State) : Prop where
  once : ∀ n, s.log.countP (Event.isDestroy n) ≤ 1
  last : Silent s.log
  released : ∀ h c, s.core h = some c → c.kind = .window →
    c.refs = (if c.destroyed then 0 else 1) + c.leaked

section Law

variable {env : Env} {s s' t : State} {h k : Handle} {w v : Window} {c : Call} {n : Nat}

/-- In every run that raises only windows with their popups in a chain and destroys no window that
the mouse has hold of, what it has hold of is the window it took hold of, and that was not
destroyed. -/
theorem gestures_kept (hs : Started s) (hrun : Run gestureRules n s s') : Gesture s' :=
  (run_sound hrun (started_sound hs)).gesture trivial

theorem isDestroy_spec {e : Event} (he : e.isDestroy n = true) :
    ∃ m, e = .sent n m ∧ m.msg = .destroy := by
  cases e with
  | sent k m =>
    rw [Event.isDestroy, Bool.and_eq_true, decide_eq_true_eq, decide_eq_true_eq] at he
    exact ⟨m, by rw [he.1], he.2⟩
  | registered => cases he
  | classUsed => cases he

theorem Silent.once {log : List Event} (hl : Silent log) (n : Nat) :
    log.countP (Event.isDestroy n) ≤ 1 := by
  induction log with
  | nil => exact Nat.zero_le 1
  | cons e log ih =>
    obtain ⟨he, hrest⟩ := List.pairwise_cons.mp hl
    cases hd : e.isDestroy n with
    | false =>
      rw [List.countP_cons_of_neg (by simp [hd])]
      exact ih hrest
    | true =>
      obtain ⟨m, rfl, hm⟩ := isDestroy_spec hd
      have hnone : log.countP (Event.isDestroy n) = 0 := by
        refine List.countP_eq_zero.mpr fun e' he' hd' => ?_
        obtain ⟨m', rfl, hm'⟩ := isDestroy_spec hd'
        exact he _ he' n m' m rfl hm' rfl
      rw [List.countP_cons_of_pos hd, hnone]

/-- In every run that destroys no window twice, and neither updates nor closes one that was
destroyed, each window takes its leave as it should. -/
theorem farewell_kept (hs : Started s) (hrun : Run messageRules n s s') : Farewell s' := by
  have hm := (run_sound hrun (started_sound hs)).messages trivial
  refine ⟨hm.silent.once, hm.silent, fun h c hc hk => ?_⟩
  simpa [Hold.none] using hm.exact h c hc hk

def gentle (s : State) : Call → Bool
  | .destroyWindow h => decide (s.pointer.dragWindow ≠ h) && decide (s.pointer.resizeWindow ≠ h) &&
    decide (s.pointer.captionPressHwnd ≠ h)
  | .handleMouseUp _ _ _ => decide (s.pointer.captionPressHwnd = invalidHandle)
  | _ => true

theorem gentle_spec (hc : gentle s c = true) (hd : Destroys env c s h t) :
    t = s ∧ ¬ Gripped s h := by
  cases hd with
  | call =>
    simp only [gentle, Bool.and_eq_true, decide_eq_true_eq] at hc
    exact ⟨rfl, fun hg => by
      rcases hg with hg | hg | hg
      · exact hc.1.1 hg
      · exact hc.1.2 hg
      · exact hc.2 hg⟩
  | close hclose => exact absurd (of_decide_eq_true hc) hclose.2.1

theorem proper_gentle (hfuel : enough ≤ env.fuel) (hs : settled s = true) (hc : c.plain = true)
    (hg : gentle s c = true) : Proper gestureRules env c s where
  fuel := hfuel
  raise := fun _ _ _ hr => orderly_plain (settled_spec hs).1 hc hr
  create := False.elim
  activate := False.elim
  destroy := fun _ h t hd => by
    obtain ⟨rfl, hfree⟩ := gentle_spec hg hd
    exact hfree
  address := False.elim
  once := False.elim

theorem proper_once (hfuel : enough ≤ env.fuel) (hs : settled s = true) (hc : c.plain = true)
    (hg : gentle s c = true) : Proper messageRules env c s where
  fuel := hfuel
  raise := fun _ _ _ hr => orderly_plain (settled_spec hs).1 hc hr
  create := False.elim
  activate := False.elim
  destroy := False.elim
  address := fun _ h _ => (settled_spec hs).2 h
  once := fun _ h t hd => by
    obtain ⟨rfl, -⟩ := gentle_spec hg hd
    exact (settled_spec hs).2 h

end Law

def dragCalls : List Call :=
  [.registerClass (text "Main") 0 (some 0),
    .createWindowEx (text "Main") (text "App") 0 0 100 100 (wsVisible ||| wsCaption) 0 invalidHandle,
    .handleMouseDown 50 10 1, .handleMouseMove 60 20, .handleMouseUp 60 20 1, .destroyWindow 1]

theorem gestures_kept_drag : Gesture (runAll calm dragCalls boot) :=
  gestures_kept boot_started (run_of_passes (calm_procedures gestureRules)
    (fun _ _ htest => by
      rw [Bool.and_eq_true, Bool.and_eq_true] at htest
      exact proper_gentle (Nat.le_refl _) htest.1.1 htest.1.2 htest.2)
    (show passes (fun s c => settled s && c.plain && gentle s c) calm dragCalls boot = true by
      decide +kernel))

theorem farewell_kept_drag : Farewell (runAll calm dragCalls boot) :=
  farewell_kept boot_started (run_of_passes (calm_procedures messageRules)
    (fun _ _ htest => by
      rw [Bool.and_eq_true, Bool.and_eq_true] at htest
      exact proper_once (Nat.le_refl _) htest.1.1 htest.1.2 htest.2)
    (show passes (fun s c => settled s && c.plain && gentle s c) calm dragCalls boot = true by
      decide +kernel))

/-- A window that is destroyed in the middle of a drag, and another one that gets its handle. -/
def interruptedDrag : List Call :=
  [.registerClass (text "Main") 0 none,
    .createWindowEx (text "Main") (text "First") 0 0 100 100 (wsVisible ||| wsCaption) 0
      invalidHandle,
    .handleMouseDown 50 10 1, .destroyWindow 1,
    .createWindowEx (text "Main") (text "Second") 200 200 100 100 wsVisible 0 invalidHandle]

/-- The next move of the mouse moves the second window. -/
theorem gesture_survives : Started boot ∧
    (runAll calm interruptedDrag boot).pointer.dragWindow = 1 ∧
    (runAll calm interruptedDrag boot).pointer.dragSerial ≠
      (runAll calm interruptedDrag boot).serialAt 1 ∧
    ((runAll calm interruptedDrag boot).win 1).map (fun w => (w.x, w.y)) = some (200, 200) ∧
    ((exec calm (.handleMouseMove 150 110) (runAll calm interruptedDrag boot)).win 1).map
      (fun w => (w.x, w.y)) = some (100, 100) ∧
    ¬ Gesture (runAll calm interruptedDrag boot) := by
  have hdrag : (runAll calm interruptedDrag boot).pointer.dragWindow = 1 := by decide +kernel
  have hserial : (runAll calm interruptedDrag boot).pointer.dragSerial ≠
      (runAll calm interruptedDrag boot).serialAt 1 := by decide +kernel
  refine ⟨boot_started, hdrag, hserial, by decide +kernel, by decide +kernel, fun hlaw => ?_⟩
  rcases hlaw.drag with hinv | ⟨c, hc, -, -, hn⟩
  · rw [hdrag] at hinv
    exact absurd hinv (by decide)
  · rw [hdrag] at hc
    exact hserial (hn.symm.trans (State.serialAt_of_core hc).symm)

def closer : Env :=
  { calm with proc := fun _ m s =>
      if m.msg = .close then exec calm (.destroyWindow m.hwnd) s else s }

theorem closer_nested :
    Nested exec reacts (fun _ _ _ => True) (fun _ _ _ => True) 1 closer := by
  refine fun r s => ⟨trivial, ?_⟩
  unfold reacts closer
  simp only
  split
  · exact .single ⟨calm, .destroyWindow r.2.hwnd, fun _ _ => ⟨trivial, rfl⟩, trivial, rfl⟩
  · exact .refl

def closeClick : List Call :=
  [.registerClass (text "Main") 0 (some 0),
    .createWindowEx (text "Main") (text "App") 0 0 100 100 (wsVisible ||| wsCaption ||| wsSysmenu) 0
      invalidHandle,
    .handleMouseDown 85 5 1, .handleMouseUp 85 5 1]

/-- Its procedure is sent `WM_DESTROY` twice. -/
theorem destroyed_twice : Started boot ∧
    Nested exec reacts (fun _ _ _ => True) (fun _ _ _ => True) 1 closer ∧
    (runAll closer closeClick boot).log.countP (Event.isDestroy 1) = 2 ∧
    ¬ Farewell (runAll closer closeClick boot) := by
  have htwo : (runAll closer closeClick boot).log.countP (Event.isDestroy 1) = 2 := by
    decide +kernel
  refine ⟨boot_started, closer_nested, htwo, fun hlaw => ?_⟩
  have hone := hlaw.once 1
  omega

end DiscouNT.Win32k
