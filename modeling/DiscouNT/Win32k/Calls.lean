import DiscouNT.Lib.Nesting
import DiscouNT.Win32k.Lifetime
import DiscouNT.Win32k.References

/-!
# Win32k.Calls

What the invariants ask of a call, and of the window procedures.

A window procedure may call any entry point again, to any depth. While it paints it has to leave its
window at the index of `window_list` where the painting loop found it, and `drag_window` and
`resize_window` alone, because the loops read them again for the reference they give back.
-/

namespace DiscouNT.Win32k

open Lib

/-- The window that is created, its handle, and the state in which it is in the list. -/
def madeByClass (env : Env) (hClass : Handle) (title : Name) (x y w h : Int)
    (style exstyle : Flags) (owner : Handle) (s : State) : Option (Handle × Window × State) :=
  if hClass = invalidHandle then none
  else
    match referenceClass env hClass s with
    | (none, _) => none
    | (some wc, s) =>
      if env.kmalloc 0 s then
        let win := newWindow wc title x y w h style exstyle owner
        match createObject (env.kmalloc 1 s) title (.window win) s with
        | (none, _) => none
        | (some hwnd, s) => some (hwnd, win, insertWindow win.desktop hwnd s)
      else none

def made (env : Env) (s : State) : Call → Option (Handle × Window × State)
  | .createWindowByClass hClass title x y w h style exstyle owner =>
    madeByClass env hClass title x y w h style exstyle owner s
  | .createWindowEx className title x y w h style exstyle owner =>
    match findObject className s with
    | none => none
    | some hClass =>
      madeByClass env hClass title x y w h style exstyle owner
        (s.addLog (.classUsed className (s.serialAt hClass)))
  | _ => none

def Shows (command : Int) : Prop :=
  command ≠ swHide ∧ command ≠ swMinimize ∧ command ≠ swShowminimized

def Activatable (s : State) (h : Handle) : Prop :=
  ∃ w, s.win h = some w ∧ w.exstyle.has wsExNoactivate = false

inductive Raises (env : Env) : Call → State → Handle → State → Prop
  | create {c : Call} {s t : State} {h : Handle} {w : Window} (hm : made env s c = some (h, w, t))
      (hd : w.desktop = false) : Raises env c s h t
  | activate {s : State} {h : Handle} (ha : Activatable s h) : Raises env (.activateWindow h) s h s
  | show {s : State} {h : Handle} {command : Int} (hc : Shows command) (ha : Activatable s h) :
      Raises env (.setWindowShowState h command) s h s
  | pos {s : State} {h insertAfter : Handle} {x y width height : Int} {flags : Flags}
      (hz : flags.has swpNozorder = false) (hne : insertAfter ≠ invalidHandle) :
      Raises env (.setWindowPos h insertAfter x y width height flags) s h
        (updWin h (topmostFields insertAfter) s)
  | press {s : State} {x y : Int} (ha : Activatable s (hitAt x y s)) :
      Raises env (.handleMouseDown x y 1) s (hitAt x y s) s

def Restores (x y : Int) (button : Nat) (s : State) : Prop :=
  button = 1 ∧ s.pointer.captionPressHwnd ≠ invalidHandle ∧ s.pointer.captionPressHit = .minimize ∧
    ∃ w, s.win s.pointer.captionPressHwnd = some w ∧ w.minimized = true ∧
      hitCaptionButton w x y = .minimize

inductive Activates (s : State) : Call → Handle → Prop
  | activate {h : Handle} (ha : Activatable s h) : Activates s (.activateWindow h) h
  | show {h : Handle} {command : Int} (hc : Shows command) (ha : Activatable s h) :
      Activates s (.setWindowShowState h command) h
  | pos {h insertAfter : Handle} {x y width height : Int} {flags : Flags}
      (hn : flags.has swpNoactivate = false) (ha : Activatable s h) :
      Activates s (.setWindowPos h insertAfter x y width height flags) h
  | caption {x y : Int} {button : Nat} (hr : Restores x y button s) :
      Activates s (.handleMouseUp x y button) s.pointer.captionPressHwnd

/-- A mouse-up on the close button, after `WM_CLOSE`. -/
def closing (env : Env) (s : State) : State :=
  match s.win s.pointer.captionPressHwnd with
  | none => s
  | some w =>
    send env s.pointer.captionPressHwnd w.wndProc .close 0
      (State.setPointer .clearCaption (retain s.pointer.captionPressHwnd s))

inductive Destroys (env : Env) : Call → State → Handle → State → Prop
  | call {s : State} {h : Handle} : Destroys env (.destroyWindow h) s h s
  | close {s : State} {x y : Int} {button : Nat} (hc : Closes x y button s) :
      Destroys env (.handleMouseUp x y button) s s.pointer.captionPressHwnd (closing env s)

/-- A window that is named by the caller, or by an earlier event, and sent a message. -/
inductive Addresses (s : State) : Call → Handle → Prop
  | update {h : Handle} {w : Window} (hw : s.win h = some w) (hm : w.minimized = false)
      (hp : w.wndProc ≠ none) : Addresses s (.updateWindow h) h
  | close {x y : Int} {button : Nat} (hc : Closes x y button s) :
      Addresses s (.handleMouseUp x y button) s.pointer.captionPressHwnd

/-- What a call has to respect for the invariants of `R`. -/
structure Proper (R : Rules) (env : Env) (c : Call) (s : State) : Prop where
  fuel : enough ≤ env.fuel
  raise : ¬ R.bands → ∀ h t, Raises env c s h t → Orderly t h
  create : R.bands → ∀ h w t, made env s c = some (h, w, t) → w.owner = invalidHandle ∧
    (w.desktop = true → windowIsTopmost w = false) ∧ s.list.length < maxWindows
  activate : R.active → ∀ h, Activates s c h → ¬ s.Dead h
  destroy : R.gesture → ∀ h t, Destroys env c s h t → ¬ Gripped t h
  address : R.messages → ∀ h, Addresses s c h → ¬ s.Dead h
  once : R.messages → ∀ h t, Destroys env c s h t → ¬ t.Dead h

/-- A call of a window procedure: it must not destroy a window a second time, because a call that
is under way may still have a reference to it. -/
structure ProperNested (R : Rules) (env : Env) (c : Call) (s : State) : Prop extends
    Proper R env c s where
  alive : ∀ h t, Destroys env c s h t → ¬ t.Dead h

/-- What a procedure that is sent `WM_PAINT` leaves as it is. -/
structure Steady (h : Handle) (s s' : State) : Prop where
  place : ∀ n : Nat, s.list[n]? = some h → s'.entry n = h
  dragWindow : s'.pointer.dragWindow = s.pointer.dragWindow
  resizeWindow : s'.pointer.resizeWindow = s.pointer.resizeWindow

abbrev Request := Nat × Message

def reacts (env : Env) (r : Request) (s : State) : State := env.proc r.1 r.2 s

def Tame (r : Request) (s s' : State) : Prop := r.2.msg = .paint → Steady r.2.hwnd s s'

/-- Window procedures that call the window manager again, `n` deep. -/
def Procedures (R : Rules) (n : Nat) (env : Env) : Prop :=
  Nested exec reacts (ProperNested R) Tame n env

def Run (R : Rules) (n : Nat) (s s' : State) : Prop :=
  Relation.ReflTransGen (CallsIn exec (Proper R) (Procedures R n)) s s'

structure Keeping (R : Rules) (env : Env) : Prop where
  tame : ∀ r s, Tame r s (reacts env r s)
  sound : ∀ i r s, Sound R i s → Sound R i (reacts env r s)

section Sending

variable {R : Rules} {i : Hold} {env : Env} {s s' s'' : State} {h : Handle} {c : Core} {w : Window}
  {p : Option Nat} {msg : Msg} {lParam : Nat}

theorem Sound.send (hs : Sound R i s) (henv : Keeping R env) (hc : s.core h = some c)
    (hk : c.kind = .window)
    (hquiet : R.messages → ∀ m, Event.sent c.serial m ∈ s.log → m.msg ≠ .destroy)
    (hdestroy : msg = .destroy → c.destroyed = true) :
    Sound R i (send env h p msg lParam s) := by
  unfold Win32k.send
  cases p with
  | none => exact hs
  | some p => exact henv.sound i (p, ⟨h, msg, lParam⟩) _ (hs.addSent hc hk hquiet hdestroy)

theorem Sound.sendTo (hs : Sound R i s) (henv : Keeping R env) (hw : s.win h = some w)
    (ha : R.messages → ¬ s.Dead h) (hmsg : msg ≠ .destroy) :
    Sound R i (Win32k.send env h p msg lParam s) := by
  obtain ⟨c, hc, hk⟩ := core_of_win hw
  refine hs.send henv hc hk (fun hr m hin => ?_) fun heq => absurd heq hmsg
  have hd : c.destroyed = false := by
    by_contra hd
    exact ha hr ⟨c, hc, by simpa using hd⟩
  exact (hs.messages hr).unsent h c.serial ⟨c, hc, hk, hd, rfl⟩ m hin

structure SameGrip (s s' : State) : Prop where
  dragWindow : s'.pointer.dragWindow = s.pointer.dragWindow
  resizeWindow : s'.pointer.resizeWindow = s.pointer.resizeWindow

theorem SameGrip.refl (s : State) : SameGrip s s := ⟨rfl, rfl⟩

theorem SameGrip.trans (h1 : SameGrip s s') (h2 : SameGrip s' s'') : SameGrip s s'' :=
  ⟨h2.dragWindow.trans h1.dragWindow, h2.resizeWindow.trans h1.resizeWindow⟩

theorem send_steady (henv : Keeping R env) (h : Handle) (p : Option Nat) (lParam : Nat) (s : State) :
    Steady h s (Win32k.send env h p .paint lParam s) := by
  unfold Win32k.send
  cases p with
  | none => exact ⟨fun n hn => entry_of_getElem? hn, rfl, rfl⟩
  | some p =>
    have ht := henv.tame (p, ⟨h, .paint, lParam⟩)
      (s.addLog (.sent (s.serialAt h) ⟨h, .paint, lParam⟩)) rfl
    exact ⟨ht.place, ht.dragWindow, ht.resizeWindow⟩

section

variable (hs : Sound R i s)
include hs

theorem Sound.paintOne (henv : Keeping R env) (test : Pointer → Handle → Window → Bool) (n : Nat) :
    Sound R i (paintOne env test s n) ∧ SameGrip s (Win32k.paintOne env test s n) := by
  unfold Win32k.paintOne
  cases hn : s.list[n]? with
  | none => exact ⟨hs, SameGrip.refl s⟩
  | some h =>
    have halive := hs.base.listed h (List.mem_of_getElem? hn)
    obtain ⟨w, hw⟩ := halive.win
    have htaken := hs.take_window hw
    have hw' : (retain h s).win h = some w := by rw [win_retain, hw]
    have hn' : (retain h s).list[n]? = some h := by rw [retain_toZOrder, hn]
    have hdead : ¬ (retain h s).Dead h := ((recounted_retain h s).alive'.mpr halive).not_dead
    simp only [reference_some hw]
    split
    · have hsteady := send_steady henv h w.wndProc 0 (retain h s)
      rw [hsteady.place n hn']
      refine ⟨(htaken.sendTo henv hw' (fun _ => hdead) (by decide)).give, ?_, ?_⟩
      · rw [dereference_pointer, hsteady.dragWindow, retain_pointer]
      · rw [dereference_pointer, hsteady.resizeWindow, retain_pointer]
    · rw [entry_of_getElem? hn', dereference_retain]
      exact ⟨hs, SameGrip.refl s⟩

theorem Sound.paintPass (henv : Keeping R env) (test : Pointer → Handle → Window → Bool) :
    Sound R i (paintPass env test s) ∧ SameGrip s (Win32k.paintPass env test s) := by
  unfold Win32k.paintPass
  generalize List.range maxWindows = l
  induction l generalizing s with
  | nil => exact ⟨hs, SameGrip.refl s⟩
  | cons n l ih =>
    obtain ⟨hone, hgrip⟩ := hs.paintOne henv test n
    obtain ⟨hrest, hgrip'⟩ := ih hone
    exact ⟨hrest, hgrip.trans hgrip'⟩

theorem Sound.paintPasses (henv : Keeping R env) (test : Pointer → Handle → Window → Bool) :
    Sound R i (paintPasses env test s) ∧ SameGrip s (Win32k.paintPasses env test s) := by
  obtain ⟨h1, hg1⟩ := hs.paintPass henv fun p h w => !isMenuPopupWindow w && test p h w
  obtain ⟨h2, hg2⟩ := h1.paintPass henv fun p h w => isMenuPopupWindow w && test p h w
  exact ⟨h2, hg1.trans hg2⟩

theorem Sound.redrawAll (henv : Keeping R env) :
    Sound R i (win32kRedrawAll env s) := by
  unfold win32kRedrawAll
  split
  · exact hs
  · simp only [captionPass_eq]
    exact ((hs.setFlags true s.hung).paintPasses henv _).1.setFlags false _

theorem Sound.fastDragPresent (henv : Keeping R env) (r : Window)
    (oldX oldY : Int) : Sound R i (fastDragPresent env r oldX oldY s) ∧
      SameGrip s (Win32k.fastDragPresent env r oldX oldY s) := by
  unfold Win32k.fastDragPresent
  simp only [captionPass_eq]
  exact hs.paintPasses henv _

theorem Sound.paintResized (henv : Keeping R env) (r : Window) :
    Sound R i (paintResized env r s) ∧ SameGrip s (Win32k.paintResized env r s) := by
  unfold Win32k.paintResized
  simp only [captionPass_eq]
  exact hs.paintPasses henv _

end

end Sending

end DiscouNT.Win32k
