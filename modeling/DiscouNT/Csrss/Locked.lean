import DiscouNT.Csrss.Input
import DiscouNT.Win32k.Hover

/-!
# Csrss.Locked

Input while the session is locked. A key is dropped unless it is the secure attention sequence. The
mouse goes the way it always goes, so what keeps it from the applications is the state it meets: no
gesture under way, nothing but the lock window under the pointer, and no application that listens
behind the captured or the active window.
-/

namespace DiscouNT.Csrss

open Win32k (Undisturbed InputTo restsOnMove restsOnPress restsOnRelease activeAfterPress)
open List
open InputState

/-- No application was handed an input event, no message was sent but to the lock window, and no
window but the lock window became active. No window changed otherwise. -/
structure Isolated (s s' : InputState) : Prop where
  sessionState : s'.sessionState = s.sessionState
  lockWindow : s'.lockWindow = s.lockWindow
  delivered : s'.delivered = s.delivered
  win32k : Win32k.Apart s.lockWindow s.win32k s'.win32k

theorem Isolated.refl (s : InputState) : Isolated s s :=
  ⟨rfl, rfl, rfl, (Undisturbed.refl s.win32k).apart⟩

theorem Isolated.trans {s s' s'' : InputState} (h1 : Isolated s s') (h2 : Isolated s' s'') :
    Isolated s s'' where
  sessionState := h2.sessionState.trans h1.sessionState
  lockWindow := h2.lockWindow.trans h1.lockWindow
  delivered := h2.delivered.trans h1.delivered
  win32k := h1.win32k.trans (h1.lockWindow ▸ h2.win32k)

def own (env : InputEnv) (p : Nat) : Bool := p == env.lockProc || p == env.logonProc

/-- The loop finds an application with a mouse handler for the window, which is not minimised and
passes the test. -/
def reached (hwnd : Handle) (test : Win32k.Window → Bool) (s : InputState) : Bool :=
  (csrssFindAppByWindow hwnd s).any (fun app => app.mouseHandler.isSome) &&
    (s.win32k.win hwnd).any fun w => !w.minimized && test w

def sealedMove (env : InputEnv) (m : MouseState) (s : InputState) : Bool :=
  restsOnMove (own env) s.lockWindow m.x m.y s.win32k && !reached s.mouseTarget (fun _ => true) s

def sealedWheel (s : InputState) : Bool := !reached s.mouseTarget (fun _ => true) s

def sealedPress (env : InputEnv) (m : MouseState) (s : InputState) : Bool :=
  restsOnPress (own env) s.lockWindow m.x m.y s.win32k &&
    !reached (activeAfterPress m.x m.y s.win32k) (fun w =>
      decide (s.mouseCapture = activeAfterPress m.x m.y s.win32k) || inClientArea w m.x m.y) s

def sealedRelease (env : InputEnv) (m : MouseState) (s : InputState) : Bool :=
  restsOnRelease (own env) s.lockWindow m.x m.y s.win32k &&
    !reached s.mouseTarget (fun w => inClientArea w m.x m.y) s

def sealedMouse (env : InputEnv) (m : MouseState) (s : InputState) : Bool :=
  (!decide (m.x ≠ s.lastX ∨ m.y ≠ s.lastY) || sealedMove env m s) &&
    (decide (m.wheelDelta = s.lastWheel) || sealedWheel s) &&
    (!(left m.buttons && !left s.lastButtons) || sealedPress env m s) &&
    (!(!left m.buttons && left s.lastButtons) || sealedRelease env m s)

def sealedRun (env : InputEnv) : List InputEvent → InputState → Bool
  | [], _ => true
  | .mouse m :: events, s => sealedMouse env m s && sealedRun env events (handleMouseEvent env m s)
  | .key e :: events, s => sealedRun env events (handleKeyEvent env e s)

section Calls

variable {env : InputEnv} {s : InputState} {w w' : Win32k.State} {only hwnd : Handle}
  {f : Win32k.State → Win32k.State}

theorem own_silent (p : Nat) (hp : own env p = true) (m : Win32k.Message) (w : Win32k.State) :
    env.win.proc p m w = w := by
  rw [own, Bool.or_eq_true, beq_iff_eq, beq_iff_eq] at hp
  rcases hp with rfl | rfl
  · rw [env.lockProc_spec, csrssLockWndproc, Win32k.peek_eq, ite_self]
  · rw [env.logonProc_spec, csrssLogonWndproc, Win32k.peek_eq, ite_self]

theorem destroyed_of_input (p : Nat)
    (hm : ∃ new, w'.log = new ++ w.log ∧ ∀ e ∈ new, InputTo only e) : destroyed p w w' = false := by
  obtain ⟨new, he, hnew⟩ := hm
  have htake : w'.log.take (w'.log.length - w.log.length) = new := by
    rw [he, length_append, Nat.add_sub_cancel, take_left]
  rw [destroyed, htake, any_eq_false]
  intro e hmem
  obtain ⟨n, m, rfl, -, hi⟩ := hnew e hmem
  have hne : m.msg ≠ .destroy := by
    intro hd
    rw [hd] at hi
    cases hi
  simp [hne]

theorem call_eq (hm : ∃ new, (f s.win32k).log = new ++ s.win32k.log ∧ ∀ e ∈ new, InputTo only e) :
    s.call env f = { s with win32k := f s.win32k } := by
  simp only [call, destroyed_of_input _ hm, Bool.false_eq_true, if_false]

theorem call_dereference_retain :
    { s with win32k := Win32k.retain hwnd s.win32k }.call env (Win32k.dereference hwnd) = s := by
  rw [@call_eq _ _ 0 _ ⟨[], ?_, fun _ he => by cases he⟩]
  · simp only [Win32k.dereference_retain]
  · simp only [Win32k.dereference_retain, Win32k.retain_log, nil_append]

end Calls

section Mouse

variable {env : InputEnv} {m : MouseState} {s : InputState} {hwnd : Handle}
  {test : Win32k.Window → Bool}

theorem postUnclaimed_booted (hbooted : s.sessionState ≠ .booting) (app : Option InputApp)
    (msg wParam : Nat) : postUnclaimed env app msg wParam m s = s :=
  if_neg fun hboot => hbooted hboot.1

variable {app : InputApp} {handler : Nat}

theorem mouseListener_eq_some :
    mouseListener hwnd s = some (app, handler) ↔
      csrssFindAppByWindow hwnd s = some app ∧ app.mouseHandler = some handler := by
  unfold mouseListener
  cases hfind : csrssFindAppByWindow hwnd s with
  | none => simp
  | some found =>
    rw [Option.bind_some, Option.map_eq_some_iff]
    constructor
    · rintro ⟨handler, hh, he⟩
      cases he
      exact ⟨rfl, hh⟩
    · rintro ⟨he, hh⟩
      cases he
      exact ⟨handler, hh, rfl⟩

theorem unreached (hr : reached hwnd test s = false)
    {w : Win32k.Window} (happ : csrssFindAppByWindow hwnd s = some app)
    (hh : app.mouseHandler = some handler) (hw : s.win32k.win hwnd = some w) :
    (!w.minimized && test w) = false := by
  rw [reached, happ, hw, Option.any_some, Option.any_some, hh, Option.isSome_some,
    Bool.true_and] at hr
  exact hr

theorem minimized_of_unreached (hr : reached hwnd (fun _ => true) s = false) {w : Win32k.Window} (hl : mouseListener hwnd s = some (app, handler))
    (hw : s.win32k.win hwnd = some w) : w.minimized = true := by
  obtain ⟨happ, hh⟩ := mouseListener_eq_some.mp hl
  simpa using unreached hr happ hh hw

theorem mouseMoved_sealed (hbooted : s.sessionState ≠ .booting)
    (hmoved : m.x ≠ s.lastX ∨ m.y ≠ s.lastY) (hs : sealedMove env m s = true) :
    mouseMoved env m s =
      { s with
        win32k := Win32k.win32kHandleMouseMove env.win m.x m.y s.win32k
        lastX := m.x
        lastY := m.y } := by
  rw [sealedMove, Bool.and_eq_true, Bool.not_eq_true'] at hs
  obtain ⟨hrest, hr⟩ := hs
  have hu := Win32k.undisturbed_mouseMove own_silent hrest
  rw [mouseMoved, if_pos hmoved, call_eq hu.messages]
  generalize Win32k.win32kHandleMouseMove env.win m.x m.y s.win32k = w' at hu ⊢
  have htarget : InputState.mouseTarget { s with win32k := w' } = s.mouseTarget := by
    simp only [mouseTarget, activeWindow, hu.active]
  have hlistener : mouseListener s.mouseTarget { s with win32k := w' } =
      mouseListener s.mouseTarget s := rfl
  simp only [htarget, hlistener]
  cases hl : mouseListener s.mouseTarget s with
  | none => simp only [hbooted, if_false]
  | some found =>
    obtain ⟨app, handler⟩ := found
    simp only
    cases hw : w'.win s.mouseTarget with
    | none => rw [Win32k.reference_none hw]
    | some w =>
      rw [Win32k.reference_some hw]
      have hmin := minimized_of_unreached hr hl ((hu.windows _).symm.trans hw)
      simp only [hmin, if_true]
      have hback := @call_dereference_retain env { s with win32k := w' } s.mouseTarget
      simp only at hback
      rw [hback]

theorem mouseWheel_sealed (hbooted : s.sessionState ≠ .booting)
    (hturned : m.wheelDelta ≠ s.lastWheel) (hs : sealedWheel s = true) :
    mouseWheel env m s = { s with lastWheel := m.wheelDelta } := by
  rw [sealedWheel, Bool.not_eq_true'] at hs
  rw [mouseWheel, if_pos hturned]
  cases hw : s.win32k.win s.mouseTarget with
  | none =>
    simp only [Win32k.reference_none hw]
    rw [postUnclaimed_booted hbooted]
  | some w =>
    simp only [Win32k.reference_some hw]
    cases hl : mouseListener s.mouseTarget s with
    | none =>
      simp only
      rw [postUnclaimed_booted, call_dereference_retain]
      exact hbooted
    | some found =>
      obtain ⟨app, handler⟩ := found
      simp only [minimized_of_unreached hs hl hw, if_true]
      rw [postUnclaimed_booted, call_dereference_retain]
      exact hbooted

theorem same_area {w w' : Win32k.Window} (he : w'.unmarked = w.unmarked) (x y : Int) :
    w'.minimized = w.minimized ∧ inClientArea w' x y = inClientArea w x y := by
  have hmin : w'.unmarked.minimized = w.unmarked.minimized := by rw [he]
  have harea : inClientArea w'.unmarked x y = inClientArea w.unmarked x y := by rw [he]
  exact ⟨hmin, harea⟩

theorem pressTarget_booted (hbooted : s.sessionState ≠ .booting) :
    pressTarget env s = s.activeWindow := by
  unfold pressTarget
  split
  · rw [if_neg hbooted]
  · rfl

theorem forApp_sealed {body : InputApp → Win32k.Window → InputState → InputState}
    (hbody : ∀ app w, csrssFindAppByWindow hwnd s = some app → s.win32k.win hwnd = some w →
      ∀ win32k, ∃ c, body app w { s with win32k } = { s with win32k, mouseCapture := c }) :
    ∃ c, forApp env hwnd body s = { s with mouseCapture := c } := by
  unfold forApp
  cases happ : csrssFindAppByWindow hwnd s with
  | none => exact ⟨s.mouseCapture, rfl⟩
  | some app =>
    simp only
    cases hw : s.win32k.win hwnd with
    | none =>
      rw [Win32k.reference_none hw]
      exact ⟨s.mouseCapture, rfl⟩
    | some w =>
      rw [Win32k.reference_some hw]
      obtain ⟨c, hc⟩ := hbody app w happ hw (Win32k.retain hwnd s.win32k)
      refine ⟨c, ?_⟩
      simp only [hc]
      exact call_dereference_retain (s := { s with mouseCapture := c })

theorem pressApp_unreached {w : Win32k.Window}
    (hno : ∀ handler, app.mouseHandler = some handler →
      (!w.minimized && (decide (s.mouseCapture = hwnd) || inClientArea w m.x m.y)) = false) :
    pressApp env m hwnd app w s = s := by
  unfold pressApp
  split
  · rename_i htest
    cases hh : app.mouseHandler with
    | none => rfl
    | some handler =>
      rw [hno handler hh] at htest
      cases htest
  · rfl

theorem releaseApp_unreached {w : Win32k.Window}
    (hno : ∀ handler, app.mouseHandler = some handler →
      (!w.minimized && inClientArea w m.x m.y) = false) :
    ∃ c, releaseApp env m hwnd app w s = { s with mouseCapture := c } := by
  have hkeep : ∃ c, (if s.mouseCapture = hwnd then { s with mouseCapture := invalidHandle } else s) =
      { s with mouseCapture := c } := by
    split
    · exact ⟨invalidHandle, rfl⟩
    · exact ⟨s.mouseCapture, rfl⟩
  unfold releaseApp
  cases hh : app.mouseHandler with
  | none =>
    simp only [ite_self]
    exact hkeep
  | some handler =>
    simp only [hno handler hh, Bool.false_eq_true, if_false]
    exact hkeep

section

variable (hbooted : s.sessionState ≠ .booting)
include hbooted

theorem mousePressed_sealed
    (hpressed : (left m.buttons && !left s.lastButtons) = true) (hs : sealedPress env m s = true) :
    ∃ c, mousePressed env m s =
      { s with
        win32k := Win32k.win32kHandleMouseDown env.win m.x m.y 1 s.win32k
        mouseCapture := c } := by
  rw [sealedPress, Bool.and_eq_true, Bool.not_eq_true'] at hs
  obtain ⟨hrest, hr⟩ := hs
  obtain ⟨hapart, hactive⟩ := Win32k.apart_mouseDown own_silent hrest
  rw [mousePressed, if_pos hpressed, call_eq hapart.messages]
  generalize Win32k.win32kHandleMouseDown env.win m.x m.y 1 s.win32k = w' at hapart hactive ⊢
  have htarget : pressTarget env { s with win32k := w' } = activeAfterPress m.x m.y s.win32k :=
    (pressTarget_booted (s := { s with win32k := w' }) hbooted).trans hactive
  simp only [htarget]
  generalize activeAfterPress m.x m.y s.win32k = hwnd at hr ⊢
  obtain ⟨c, hc⟩ := @forApp_sealed env { s with win32k := w' } hwnd
    (pressApp env m hwnd) fun app w happ hw win32k => by
      refine ⟨s.mouseCapture, pressApp_unreached fun handler hh => ?_⟩
      have hwin := hapart.windows hwnd
      rw [hw, Option.map_some] at hwin
      obtain ⟨v, hv, hsame⟩ := Option.map_eq_some_iff.mp hwin.symm
      obtain ⟨hmin, harea⟩ := same_area hsame m.x m.y
      rw [← hmin, ← harea]
      exact unreached hr happ hh hv
  refine ⟨c, ?_⟩
  rw [hc, postUnclaimed_booted]
  exact hbooted

theorem mouseReleased_sealed (hreleased : (!left m.buttons && left s.lastButtons) = true)
    (hs : sealedRelease env m s = true) :
    ∃ c, mouseReleased env m s =
      { s with
        win32k := Win32k.win32kHandleMouseUp env.win m.x m.y 1 s.win32k
        mouseCapture := c } := by
  rw [sealedRelease, Bool.and_eq_true, Bool.not_eq_true'] at hs
  obtain ⟨hrest, hr⟩ := hs
  have hu := Win32k.undisturbed_mouseUp own_silent hrest
  rw [mouseReleased, if_pos hreleased, call_eq hu.messages]
  generalize Win32k.win32kHandleMouseUp env.win m.x m.y 1 s.win32k = w' at hu ⊢
  have htarget : InputState.mouseTarget { s with win32k := w' } = s.mouseTarget := by
    simp only [mouseTarget, activeWindow, hu.active]
  simp only [htarget]
  obtain ⟨c, hc⟩ := @forApp_sealed env { s with win32k := w' } s.mouseTarget
    (releaseApp env m s.mouseTarget) fun app w happ hw win32k => by
      refine releaseApp_unreached fun handler hh => ?_
      exact unreached hr happ hh ((hu.windows _).symm.trans hw)
  refine ⟨c, ?_⟩
  rw [hc, postUnclaimed_booted]
  exact hbooted

theorem moved_passed (hs : (!decide (m.x ≠ s.lastX ∨ m.y ≠ s.lastY) || sealedMove env m s) = true) :
    ∃ w' x y, Undisturbed s.lockWindow s.win32k w' ∧
      mouseMoved env m s = { s with win32k := w', lastX := x, lastY := y } := by
  by_cases hmoved : m.x ≠ s.lastX ∨ m.y ≠ s.lastY
  · have hsealed : sealedMove env m s = true := by simpa [hmoved] using hs
    have hrest := hsealed
    rw [sealedMove, Bool.and_eq_true] at hrest
    exact ⟨_, _, _, Win32k.undisturbed_mouseMove own_silent hrest.1,
      mouseMoved_sealed hbooted hmoved hsealed⟩
  · exact ⟨s.win32k, s.lastX, s.lastY, .refl _, if_neg hmoved⟩

theorem wheel_passed (hs : (decide (m.wheelDelta = s.lastWheel) || sealedWheel s) = true) :
    ∃ z, mouseWheel env m s = { s with lastWheel := z } := by
  by_cases hstill : m.wheelDelta = s.lastWheel
  · exact ⟨s.lastWheel, if_neg (not_not_intro hstill)⟩
  · have hsealed : sealedWheel s = true := by simpa [hstill] using hs
    exact ⟨_, mouseWheel_sealed hbooted hstill hsealed⟩

end

theorem reached_congr {w' : Win32k.State} (hw : ∀ h, w'.win h = s.win32k.win h) (x y : Int)
    (z : Int8) :
    reached hwnd test { s with win32k := w', lastX := x, lastY := y, lastWheel := z } =
      reached hwnd test s := by
  simp only [reached, hw]
  rfl

theorem sealed_congr {w' : Win32k.State} (hu : Undisturbed s.lockWindow s.win32k w') (x y : Int)
    (z : Int8) :
    let s' : InputState := { s with win32k := w', lastX := x, lastY := y, lastWheel := z }
    sealedWheel s' = sealedWheel s ∧ sealedPress env m s' = sealedPress env m s ∧
      sealedRelease env m s' = sealedRelease env m s := by
  have htarget : InputState.mouseTarget
      { s with win32k := w', lastX := x, lastY := y, lastWheel := z } = s.mouseTarget := by
    simp only [mouseTarget, activeWindow, hu.active]
  refine ⟨?_, ?_, ?_⟩
  · rw [sealedWheel, sealedWheel, htarget, reached_congr hu.windows]
  · simp only [sealedPress, hu.restsOnPress_eq, hu.activeAfterPress_eq, reached_congr hu.windows]
  · simp only [sealedRelease, hu.restsOnRelease_eq, htarget, reached_congr hu.windows]

section

variable (hbooted : s.sessionState ≠ .booting)
include hbooted

theorem pressed_isolated
    (hs : (!(left m.buttons && !left s.lastButtons) || sealedPress env m s) = true) :
    Isolated s (mousePressed env m s) := by
  by_cases hpressed : (left m.buttons && !left s.lastButtons) = true
  · have hsealed : sealedPress env m s = true := by simpa [hpressed] using hs
    have hrest := hsealed
    rw [sealedPress, Bool.and_eq_true] at hrest
    obtain ⟨c, hc⟩ := mousePressed_sealed hbooted hpressed hsealed
    rw [hc]
    exact ⟨rfl, rfl, rfl, (Win32k.apart_mouseDown own_silent hrest.1).1⟩
  · rw [mousePressed, if_neg hpressed]
    exact .refl s

theorem released_isolated
    (hs : (!(!left m.buttons && left s.lastButtons) || sealedRelease env m s) = true) :
    Isolated s (mouseReleased env m s) := by
  by_cases hreleased : (!left m.buttons && left s.lastButtons) = true
  · have hsealed : sealedRelease env m s = true := by simpa [hreleased] using hs
    have hrest := hsealed
    rw [sealedRelease, Bool.and_eq_true] at hrest
    obtain ⟨c, hc⟩ := mouseReleased_sealed hbooted hreleased hsealed
    rw [hc]
    exact ⟨rfl, rfl, rfl, (Win32k.undisturbed_mouseUp own_silent hrest.1).apart⟩
  · rw [mouseReleased, if_neg hreleased]
    exact .refl s

theorem buttons_isolated
    (hp : (!(left m.buttons && !left s.lastButtons) || sealedPress env m s) = true)
    (hr : (!(!left m.buttons && left s.lastButtons) || sealedRelease env m s) = true) :
    Isolated s (mouseReleased env m (mousePressed env m s)) := by
  cases hbutton : left m.buttons with
  | false =>
    have hno : mousePressed env m s = s := by
      rw [mousePressed, hbutton, Bool.false_and]
      exact if_neg Bool.false_ne_true
    rw [hno]
    exact released_isolated hbooted hr
  | true =>
    have hno : mouseReleased env m (mousePressed env m s) = mousePressed env m s := by
      rw [mouseReleased, hbutton, Bool.not_true, Bool.false_and]
      exact if_neg Bool.false_ne_true
    rw [hno]
    exact pressed_isolated hbooted hp

theorem mouse_isolated (hs : sealedMouse env m s = true) :
    Isolated s (handleMouseEvent env m s) := by
  rw [sealedMouse, Bool.and_eq_true, Bool.and_eq_true, Bool.and_eq_true] at hs
  obtain ⟨⟨⟨hmove, hwheel⟩, hpress⟩, hrelease⟩ := hs
  obtain ⟨w', x, y, hu, hmoved⟩ := moved_passed hbooted hmove
  have hwheel' : (decide (m.wheelDelta = s.lastWheel) ||
      sealedWheel { s with win32k := w', lastX := x, lastY := y }) = true := by
    rw [(@sealed_congr env m s w' hu x y s.lastWheel).1]
    exact hwheel
  obtain ⟨z, hturned⟩ := @wheel_passed env m
    { s with win32k := w', lastX := x, lastY := y } hbooted hwheel'
  have hpassed : mouseWheel env m (mouseMoved env m s) =
      { s with win32k := w', lastX := x, lastY := y, lastWheel := z } := by
    rw [hmoved, hturned]
  obtain ⟨-, hp, hr⟩ := @sealed_congr env m s w' hu x y z
  have hfirst : Isolated s { s with win32k := w', lastX := x, lastY := y, lastWheel := z } :=
    ⟨rfl, rfl, rfl, hu.apart⟩
  have hlast := @buttons_isolated env m
    { s with win32k := w', lastX := x, lastY := y, lastWheel := z } hbooted
    (by rw [hp]; exact hpress) (by rw [hr]; exact hrelease)
  rw [handleMouseEvent, hpassed]
  have hall := hfirst.trans hlast
  exact ⟨hall.sessionState, hall.lockWindow, hall.delivered, hall.win32k⟩

end

end Mouse

section Runs

variable {env : InputEnv} {s : InputState} {events before : List InputEvent}

theorem key_locked (hlocked : s.sessionState = .locked) {e : KeyboardEvent}
    (he : e.secureAttention = false) : handleKeyEvent env e s = s := by
  rw [handleKeyEvent, hlocked]
  simp [he]

theorem sealedRun_of_append {after : List InputEvent} (hs : sealedRun env (before ++ after) s = true) :
    sealedRun env before s = true := by
  induction before generalizing s with
  | nil => rfl
  | cons e before ih =>
    cases e with
    | mouse m =>
      rw [cons_append, sealedRun, Bool.and_eq_true] at hs
      rw [sealedRun, hs.1, ih hs.2, Bool.and_true]
    | key e =>
      rw [cons_append, sealedRun] at hs
      rw [sealedRun]
      exact ih hs

theorem run_isolated (hlocked : s.sessionState = .locked)
    (hkeys : ∀ e, .key e ∈ events → e.secureAttention = false)
    (hs : sealedRun env events s = true) : Isolated s (handleEvents env events s) := by
  induction events generalizing s with
  | nil => exact .refl s
  | cons e events ih =>
    have hlater : ∀ e', .key e' ∈ events → e'.secureAttention = false := fun e' he' =>
      hkeys e' (mem_cons_of_mem _ he')
    rw [handleEvents_cons]
    cases e with
    | mouse m =>
      rw [sealedRun, Bool.and_eq_true] at hs
      have hstep : Isolated s (handleMouseEvent env m s) :=
        mouse_isolated (by rw [hlocked]; decide) hs.1
      exact hstep.trans (ih (hstep.sessionState.trans hlocked) hlater hs.2)
    | key e =>
      have hstep : handleKeyEvent env e s = s := key_locked hlocked (hkeys e mem_cons_self)
      rw [sealedRun, hstep] at hs
      rw [handleEvent, hstep]
      exact ih hlocked hlater hs

/-- In every state of a run of a locked session whose mouse events meet sealed states, nothing came
out of the lock window. -/
theorem locked_isolated (hlocked : s.sessionState = .locked)
    (hkeys : ∀ e, .key e ∈ events → e.secureAttention = false)
    (hs : sealedRun env events s = true) (hbefore : before <+: events) :
    Isolated s (handleEvents env before s) := by
  obtain ⟨after, rfl⟩ := hbefore
  refine run_isolated hlocked (fun e he => hkeys e ?_) (sealedRun_of_append hs)
  exact mem_append_left after he

end Runs

/-! ## A session with one application -/

def quietSession : InputEnv :=
  { win :=
      { fbWidth := 640, fbHeight := 480
        proc := fun p m w =>
          if p = 1 then csrssLockWndproc m w else if p = 2 then csrssLogonWndproc m w else w
        kmalloc := fun _ _ => true, misread := fun _ => (0, none), fuel := 4 }
    lockProc := 1, logonProc := 2, lockProc_spec := rfl, logonProc_spec := rfl
    handleMouse := fun _ _ _ _ _ s => s, handleKey := fun _ _ _ _ s => s
    postMessage := none, findTopLevelWindow := none, injectKeyboard := none, injectMouse := none
    wlxLoggedOnSas := none, wlxDisplaySasNotice := none }

/-- A session after logon: the application has the window at 0, which is active, and listens to the
mouse, which is at (40, 10). -/
def loggedOn (style : Win32k.Flags) : InputState :=
  { win32k :=
      { Win32k.desk [{ Win32k.plainWindow [] invalidHandle with style }] with activeWindow := 0 }
    apps := [⟨1, 0, .custom, none, some 0⟩], sessionState := .loggedOn, currentGuiPid := 0
    mouseCapture := invalidHandle, sessionClass := invalidHandle, lockWindow := invalidHandle
    logonWindow := invalidHandle, logonField := false, logonUser := [], logonPassword := []
    running := true, lastX := 40, lastY := 10, lastButtons := 0, lastWheel := 0, delivered := [] }

def ctrlAltDel : KeyboardEvent := ⟨0x53, 0, true, true, true, true⟩

def lockedHeld (style : Win32k.Flags) : InputState :=
  handleEvents quietSession [.mouse ⟨40, 10, 1, 0⟩, .key ctrlAltDel] (loggedOn style)

def lockedCalm : InputState := handleEvents quietSession [.key ctrlAltDel] (loggedOn 0)

/-- With the button held in a client area the application gets the next move of the mouse, held on a
caption the window follows it. -/
theorem locked_leaks :
    let client := lockedHeld Win32k.wsVisible
    let caption := lockedHeld (Win32k.wsVisible ||| Win32k.wsCaption)
    let move : List InputEvent := [.mouse ⟨50, 20, 1, 0⟩]
    (client.sessionState = .locked ∧
      (handleEvents quietSession move client).delivered =
        .mouse 1 48 18 1 .move :: client.delivered) ∧
    caption.sessionState = .locked ∧ caption.lockWindow ≠ 0 ∧
      (caption.win32k.win 0).map (fun w => (w.x, w.y)) = some (0, 0) ∧
      ((handleEvents quietSession move caption).win32k.win 0).map (fun w => (w.x, w.y)) =
        some (10, 10) := by
  decide +kernel

/-- A move, a click and a key while the session is locked. -/
theorem locked_isolated_calm :
    let events : List InputEvent :=
      [.mouse ⟨50, 20, 0, 0⟩, .mouse ⟨50, 20, 1, 0⟩, .mouse ⟨50, 20, 0, 1⟩,
        .key ⟨0x1C, 10, true, false, false, false⟩]
    lockedCalm.sessionState = .locked ∧
      Isolated lockedCalm (handleEvents quietSession events lockedCalm) := by
  have hlocked : lockedCalm.sessionState = .locked := by decide +kernel
  refine ⟨hlocked, locked_isolated hlocked ?_ (by decide +kernel) (prefix_refl _)⟩
  intro e he
  simp only [mem_cons, not_mem_nil, or_false, reduceCtorEq, false_or] at he
  cases he
  rfl

end DiscouNT.Csrss
