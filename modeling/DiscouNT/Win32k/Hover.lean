import DiscouNT.Win32k.Changes
import DiscouNT.Win32k.References

/-!
# Win32k.Hover

What the mouse does while no gesture is under way and the window under the pointer lets it pass:
the windows stay where they are, and at most one of them, `only`, is sent a message or activated.
-/

namespace DiscouNT.Win32k

open Option

def Msg.isInput : Msg → Bool
  | .mouseMove | .lButtonDown | .lButtonUp => true
  | .create | .destroy | .close | .paint => false

def InputTo (only : Handle) (e : Event) : Prop :=
  ∃ n m, e = .sent n m ∧ m.hwnd = only ∧ m.msg.isInput = true

def Window.unmarked (w : Window) : Window := { w with active := false }

structure Undisturbed (only : Handle) (s s' : State) : Prop where
  order : s'.toZOrder = s.toZOrder
  windows : ∀ h, s'.win h = s.win h
  active : s'.activeWindow = s.activeWindow
  caption : s'.pointer.captionPressHwnd = s.pointer.captionPressHwnd
  messages : ∃ new, s'.log = new ++ s.log ∧ ∀ e ∈ new, InputTo only e

/-- No window moves or changes otherwise, and none but `only` becomes active or gets a message. -/
structure Apart (only : Handle) (s s' : State) : Prop where
  active : s'.activeWindow = s.activeWindow ∨ s'.activeWindow = only
  windows : ∀ h, (s'.win h).map Window.unmarked = (s.win h).map Window.unmarked
  marks : ∀ h w', h ≠ only → s'.win h = some w' → w'.active = true →
    ∃ w, s.win h = some w ∧ w.active = true
  messages : ∃ new, s'.log = new ++ s.log ∧ ∀ e ∈ new, InputTo only e

/-- The procedure of the window under the pointer would get a message about it only if that window
is `only` and the procedure one of `silent`. -/
def letsPass (silent : Nat → Bool) (only : Handle) (x y : Int) (s : State) : Bool :=
  (s.win (hitAt x y s)).all fun w => !inClient w x y ||
    w.wndProc.all fun p => decide (hitAt x y s = only) && silent p

def restsOnMove (silent : Nat → Bool) (only : Handle) (x y : Int) (s : State) : Bool :=
  if s.pointer.resizing && decide (s.pointer.resizeWindow ≠ invalidHandle) then
    (s.win s.pointer.resizeWindow).isNone
  else
    letsPass silent only x y s && (!s.pointer.dragging || (s.win s.pointer.dragWindow).isNone)

def activates (w : Window) : Bool := !w.desktop && !w.exstyle.has wsExNoactivate

/-- A press at the point begins no gesture, and activates no window but `only`. -/
def restsOnPress (silent : Nat → Bool) (only : Handle) (x y : Int) (s : State) : Bool :=
  letsPass silent only x y s && (s.win (hitAt x y s)).all fun w =>
    (!activates w || decide (hitAt x y s = only)) && decide (hitCaptionButton w x y = .none) &&
      decide (hitResizeEdge w x y = .none) && !isTitleBar w x y

def activeAfterPress (x y : Int) (s : State) : Handle :=
  if (s.win (hitAt x y s)).any activates then hitAt x y s else s.activeWindow

def restsOnRelease (silent : Nat → Bool) (only : Handle) (x y : Int) (s : State) : Bool :=
  decide (s.pointer.captionPressHwnd = invalidHandle) && letsPass silent only x y s

section Relations

variable {only : Handle} {s s' s'' : State}

theorem Undisturbed.refl (s : State) : Undisturbed only s s :=
  ⟨rfl, fun _ => rfl, rfl, rfl, [], rfl, fun _ he => by cases he⟩

theorem messages_trans {P : Event → Prop} {l l' l'' : List Event}
    (h1 : ∃ new, l' = new ++ l ∧ ∀ e ∈ new, P e) (h2 : ∃ new, l'' = new ++ l' ∧ ∀ e ∈ new, P e) :
    ∃ new, l'' = new ++ l ∧ ∀ e ∈ new, P e := by
  obtain ⟨new1, rfl, hall1⟩ := h1
  obtain ⟨new2, rfl, hall2⟩ := h2
  refine ⟨new2 ++ new1, by rw [List.append_assoc], fun e he => ?_⟩
  rcases List.mem_append.mp he with he | he
  · exact hall2 e he
  · exact hall1 e he

theorem Undisturbed.trans (h1 : Undisturbed only s s') (h2 : Undisturbed only s' s'') :
    Undisturbed only s s'' where
  order := h2.order.trans h1.order
  windows h := (h2.windows h).trans (h1.windows h)
  active := h2.active.trans h1.active
  caption := h2.caption.trans h1.caption
  messages := messages_trans h1.messages h2.messages

theorem Undisturbed.apart (hu : Undisturbed only s s') : Apart only s s' where
  active := .inl hu.active
  windows h := by rw [hu.windows h]
  marks h w' _ hw hact := ⟨w', (hu.windows h).symm.trans hw, hact⟩
  messages := hu.messages

theorem Apart.trans (h1 : Apart only s s') (h2 : Apart only s' s'') : Apart only s s'' where
  active := by
    rcases h2.active with hact | hact
    · rw [hact]
      exact h1.active
    · exact .inr hact
  windows h := (h2.windows h).trans (h1.windows h)
  marks h w'' hne hw hact := by
    obtain ⟨w', hw', hact'⟩ := h2.marks h w'' hne hw hact
    exact h1.marks h w' hne hw' hact'
  messages := messages_trans h1.messages h2.messages

theorem Undisturbed.hitAt_eq (hu : Undisturbed only s s') (x y : Int) :
    hitAt x y s' = hitAt x y s := by
  rw [hitAt, hitAt, hu.order, funext hu.windows]

theorem Undisturbed.letsPass_eq (hu : Undisturbed only s s') (silent : Nat → Bool) (x y : Int) :
    letsPass silent only x y s' = letsPass silent only x y s := by
  rw [letsPass, letsPass, hu.hitAt_eq, hu.windows]

theorem Undisturbed.restsOnPress_eq (hu : Undisturbed only s s') (silent : Nat → Bool) (x y : Int) :
    restsOnPress silent only x y s' = restsOnPress silent only x y s := by
  rw [restsOnPress, restsOnPress, hu.letsPass_eq, hu.hitAt_eq, hu.windows]

theorem Undisturbed.activeAfterPress_eq (hu : Undisturbed only s s') (x y : Int) :
    activeAfterPress x y s' = activeAfterPress x y s := by
  rw [activeAfterPress, activeAfterPress, hu.hitAt_eq, hu.windows, hu.active]

theorem Undisturbed.restsOnRelease_eq (hu : Undisturbed only s s') (silent : Nat → Bool)
    (x y : Int) : restsOnRelease silent only x y s' = restsOnRelease silent only x y s := by
  rw [restsOnRelease, restsOnRelease, hu.letsPass_eq, hu.caption]

end Relations

section Rest

variable {env : Env} {silent : Nat → Bool} {only h : Handle} {x y : Int} {s : State} {w : Window}

theorem undisturbed_leakAll (l : List Handle) (s : State) : Undisturbed only s (leakAll l s) where
  order := leakAll_toZOrder
  windows _ := win_leakAll
  active := leakAll_activeWindow
  caption := by rw [leakAll_pointer]
  messages := ⟨[], leakAll_log, fun _ he => by cases he⟩

theorem undisturbed_pointer {f : Pointer → Pointer}
    (hf : (f s.pointer).captionPressHwnd = s.pointer.captionPressHwnd) :
    Undisturbed only s (s.setPointer f) :=
  ⟨rfl, fun _ => rfl, rfl, hf, [], rfl, fun _ he => by cases he⟩

def State.sends (new : List Event) (s : State) : State := { s with log := new ++ s.log }

theorem undisturbed_sends {new : List Event} (hnew : ∀ e ∈ new, InputTo only e) :
    Undisturbed only s (s.sends new) :=
  ⟨rfl, fun _ => rfl, rfl, rfl, new, rfl, hnew⟩

theorem undisturbed_updateCursor (x y : Int) (s : State) :
    Undisturbed only s (updateCursorForPoint x y s) := by
  rw [updateCursorForPoint_eq]
  split
  · exact .refl s
  · exact undisturbed_leakAll _ s

@[simp] theorem updateCursor_pointer (x y : Int) (s : State) :
    (updateCursorForPoint x y s).pointer = s.pointer := by
  rw [updateCursorForPoint_eq]
  split
  · rfl
  · exact leakAll_pointer

theorem dereference_addLog (h : Handle) (e : Event) (s : State) :
    dereference h (s.addLog e) = (dereference h s).addLog e := by
  unfold dereference State.alter
  split
  · rfl
  · rfl

theorem send_silent {p : Option Nat} {msg : Msg}
    (hsilent : ∀ q, silent q = true → ∀ m s, env.proc q m s = s) (hi : msg.isInput = true)
    (hp : p.all (fun q => decide (h = only) && silent q) = true) (lParam : Nat) (s : State) :
    ∃ new, dereference h (send env h p msg lParam s) = (dereference h s).sends new ∧
      ∀ e ∈ new, InputTo only e := by
  cases p with
  | none => exact ⟨[], rfl, fun _ he => by cases he⟩
  | some q =>
    rw [all_some, Bool.and_eq_true, decide_eq_true_eq] at hp
    refine ⟨[.sent (s.serialAt h) ⟨h, msg, lParam⟩], ?_, fun e he => ?_⟩
    · rw [send, hsilent q hp.2, dereference_addLog]
      rfl
    · exact ⟨_, _, List.mem_singleton.mp he, hp.1, hi⟩

theorem sendToPoint_passes {msg : Msg} (hsilent : ∀ q, silent q = true → ∀ m s, env.proc q m s = s)
    (hi : msg.isInput = true) (hpass : letsPass silent only x y s = true) :
    ∃ new, sendToPoint env msg x y s = (leakAll (hiddenAt x y s) s).sends new ∧
      ∀ e ∈ new, InputTo only e := by
  have hquiet : ∃ new, leakAll (hiddenAt x y s) s = (leakAll (hiddenAt x y s) s).sends new ∧
      ∀ e ∈ new, InputTo only e := ⟨[], rfl, fun _ he => by cases he⟩
  unfold sendToPoint
  rw [findWindowAt_eq]
  simp only
  split
  · exact hquiet
  · cases hw : (leakAll (hiddenAt x y s) s).win (hitAt x y s) with
    | none =>
      rw [reference_none hw]
      exact hquiet
    | some w =>
      rw [reference_some hw]
      simp only
      split
      · rename_i hin
        rw [win_leakAll] at hw
        rw [letsPass, hw, all_some, hin, Bool.not_true, Bool.false_or] at hpass
        have hsent := send_silent hsilent hi hpass (clientLParam w x y)
          (retain (hitAt x y s) (leakAll (hiddenAt x y s) s))
        rw [dereference_retain] at hsent
        exact hsent
      · rw [dereference_retain]
        exact hquiet

theorem undisturbed_sendToPoint {msg : Msg}
    (hsilent : ∀ q, silent q = true → ∀ m s, env.proc q m s = s) (hi : msg.isInput = true)
    (hpass : letsPass silent only x y s = true) :
    Undisturbed only s (sendToPoint env msg x y s) := by
  obtain ⟨new, he, hnew⟩ := sendToPoint_passes hsilent hi hpass
  rw [he]
  exact (undisturbed_leakAll _ s).trans (undisturbed_sends hnew)

theorem sendToPoint_pointer {msg : Msg}
    (hsilent : ∀ q, silent q = true → ∀ m s, env.proc q m s = s) (hi : msg.isInput = true)
    (hpass : letsPass silent only x y s = true) :
    (sendToPoint env msg x y s).pointer = s.pointer := by
  obtain ⟨new, he, -⟩ := sendToPoint_passes hsilent hi hpass
  rw [he]
  exact leakAll_pointer

theorem undisturbed_mouseMove (hsilent : ∀ q, silent q = true → ∀ m s, env.proc q m s = s)
    (hrest : restsOnMove silent only x y s = true) :
    Undisturbed only s (win32kHandleMouseMove env x y s) := by
  unfold win32kHandleMouseMove
  rw [restsOnMove] at hrest
  split
  · rename_i hresize
    rw [if_pos hresize, isNone_iff_eq_none] at hrest
    rw [reference_none hrest]
    exact undisturbed_pointer rfl
  · rename_i hresize
    rw [if_neg hresize, Bool.and_eq_true] at hrest
    obtain ⟨hpass, hdrag⟩ := hrest
    have hmove : Undisturbed only s (updateCursorForPoint x y (sendToPoint env .mouseMove x y s)) :=
      (undisturbed_sendToPoint hsilent rfl hpass).trans (undisturbed_updateCursor x y _)
    have hpointer : (updateCursorForPoint x y (sendToPoint env .mouseMove x y s)).pointer =
        s.pointer := by
      rw [updateCursor_pointer, sendToPoint_pointer hsilent rfl hpass]
    simp only [hpointer]
    split
    · exact hmove
    · rename_i hnot
      have hwin : s.win s.pointer.dragWindow = none := by
        rw [Bool.or_eq_true, not_or] at hnot
        simpa [hnot.1] using hdrag
      rw [reference_none ((hmove.windows _).trans hwin)]
      exact hmove.trans (undisturbed_pointer rfl)

theorem undisturbed_mouseUp (hsilent : ∀ q, silent q = true → ∀ m s, env.proc q m s = s)
    (hrest : restsOnRelease silent only x y s = true) :
    Undisturbed only s (win32kHandleMouseUp env x y 1 s) := by
  rw [restsOnRelease, Bool.and_eq_true, decide_eq_true_eq] at hrest
  obtain ⟨hcaption, hpass⟩ := hrest
  let s1 := if s.pointer.dragging then s.setPointer .endDrag else s
  let s2 := if s1.pointer.resizing then s1.setPointer .endResize else s1
  have h1 : Undisturbed only s s1 := by
    unfold s1
    split
    · exact undisturbed_pointer rfl
    · exact .refl s
  have h2 : Undisturbed only s s2 := by
    refine h1.trans ?_
    unfold s2
    split
    · exact undisturbed_pointer rfl
    · exact .refl s1
  rw [win32kHandleMouseUp, if_neg (by decide), if_neg (by rw [hcaption]; decide)]
  rw [← h2.letsPass_eq] at hpass
  exact h2.trans ((undisturbed_sendToPoint hsilent rfl hpass).trans (undisturbed_updateCursor x y _))

/-! ## A press -/

theorem apart_raise (fuel : Nat) (h : Handle) (s : State) :
    Apart only s (raiseWindow fuel h s) := by
  obtain ⟨z, hung, he⟩ := raiseWindow_eq fuel h s
  rw [he]
  exact ⟨.inl rfl, fun _ => rfl, fun _ w' _ hw hact => ⟨w', hw, hact⟩, [], rfl,
    fun _ he => by cases he⟩

theorem apart_setWindowActive (h : Handle) (s : State) : Apart h s (setWindowActive h s) := by
  rcases setWindowActive_cases h s with ⟨-, -, he⟩ | ⟨-, objects, he, -, hwin⟩
  · rw [he]
    exact (Undisturbed.refl s).apart
  · refine ⟨.inr (by rw [he]), fun k => ?_, fun k w' hne hw hact => ?_, [], by rw [he]; rfl, ?_⟩
    · rw [hwin k]
      split
      · cases s.win k <;> rfl
      · rfl
    · rw [hwin k] at hw
      split at hw
      · obtain ⟨w, -, rfl⟩ := map_eq_some_iff.mp hw
        simp [hne] at hact
      · exact ⟨w', hw, hact⟩
    · exact fun _ he => by cases he

theorem setWindowActive_active (hw : s.win h = some w) (hd : w.desktop = false) :
    (setWindowActive h s).activeWindow = h := by
  rcases setWindowActive_cases h s with ⟨-, hdesk, -⟩ | ⟨-, objects, he, -, -⟩
  · rw [hdesk w hw] at hd
    cases hd
  · rw [he]

theorem undisturbed_dereference {c : Core} (hc : s.core h = some c) (hheld : 1 < c.refs) :
    Undisturbed only s (dereference h s) where
  order := dereference_toZOrder
  windows k := by
    obtain ⟨o, ho, rfl⟩ := map_eq_some_iff.mp hc
    have hrefs : 1 < o.refs := hheld
    rw [State.win, State.win, dereference, State.lookup_alter]
    split
    · rename_i hk
      rw [hk, ho, bind_some, Object.release, dif_pos hrefs]
      rfl
    · rfl
  active := dereference_activeWindow
  caption := by rw [dereference_pointer]
  messages := ⟨[], dereference_log, fun _ he => by cases he⟩

theorem undisturbed_retain (h : Handle) (s : State) : Undisturbed only s (retain h s) where
  order := retain_toZOrder
  windows _ := win_retain
  active := retain_activeWindow
  caption := by rw [retain_pointer]
  messages := ⟨[], retain_log, fun _ he => by cases he⟩

theorem apart_front (hw : s.win h = some w) (honly : activates w = true → h = only) (fuel : Nat) :
    let u := if !w.desktop && !w.exstyle.has wsExNoactivate then
      setWindowActive h (raiseWindow fuel h s) else s
    Apart only s u ∧ (∀ k, u.core k = s.core k) ∧
      u.activeWindow = if activates w then h else s.activeWindow := by
  obtain ⟨z, hung, he⟩ := raiseWindow_eq fuel h s
  by_cases hact : (!w.desktop && !w.exstyle.has wsExNoactivate) = true
  · obtain rfl := honly hact
    rw [if_pos hact, if_pos (show activates w = true from hact)]
    have hdesk : w.desktop = false := by
      rw [Bool.and_eq_true, Bool.not_eq_true'] at hact
      exact hact.1
    refine ⟨(apart_raise fuel h s).trans (apart_setWindowActive h _), fun k => ?_, ?_⟩
    · rw [setWindowActive_core, he]
      rfl
    · refine setWindowActive_active (w := w) ?_ hdesk
      rw [he]
      exact hw
  · rw [if_neg hact, if_neg (show ¬ activates w = true from hact)]
    exact ⟨(Undisturbed.refl s).apart, fun _ => rfl, rfl⟩

theorem apart_mouseDown (hsilent : ∀ q, silent q = true → ∀ m s, env.proc q m s = s)
    (hrest : restsOnPress silent only x y s = true) :
    Apart only s (win32kHandleMouseDown env x y 1 s) ∧
      (win32kHandleMouseDown env x y 1 s).activeWindow = activeAfterPress x y s := by
  have hleak : Undisturbed only s (leakAll (hiddenAt x y s) s) := undisturbed_leakAll _ s
  rw [win32kHandleMouseDown, if_neg (by decide), findWindowAt_eq]
  simp only
  split
  · rename_i hnone
    have hwin : s.win (hitAt x y s) = none := by
      rw [hnone, State.win, State.lookup, if_neg (by decide)]
      rfl
    refine ⟨hleak.apart, ?_⟩
    rw [activeAfterPress, hwin]
    exact hleak.active
  · rw [restsOnPress, Bool.and_eq_true] at hrest
    obtain ⟨hpass, hplain⟩ := hrest
    rw [activeAfterPress]
    cases hw : s.win (hitAt x y s) with
    | none =>
      rw [reference_none (win_leakAll.trans hw)]
      exact ⟨hleak.apart, hleak.active⟩
    | some w =>
      rw [hw, all_some] at hplain
      simp only [Bool.and_eq_true, decide_eq_true_eq, Bool.not_eq_true', Bool.or_eq_true] at hplain
      obtain ⟨⟨⟨hact, hcaption⟩, hedge⟩, htitle⟩ := hplain
      rw [letsPass, hw, all_some] at hpass
      rw [reference_some (win_leakAll.trans hw)]
      generalize leakAll (hiddenAt x y s) s = t at hleak ⊢
      generalize hitAt x y s = h at hw hact hpass ⊢
      have hwt : (retain h t).win h = some w := by rw [win_retain, hleak.windows, hw]
      obtain ⟨hfront, hcore, hactive⟩ := apart_front hwt
        (fun ha => hact.resolve_left (by rw [ha]; decide)) env.fuel
      have htaken := hleak.trans (undisturbed_retain h t)
      obtain ⟨c, hc, -⟩ := core_of_win (hleak.windows h ▸ hw)
      have hheld : (retain h t).core h = some { c with refs := c.refs + 1 } := by
        rw [core_retain hc, if_pos rfl]
      simp only [hcaption, hedge, htitle, ne_eq, not_true_eq_false, if_false, Bool.false_eq_true]
      generalize (if (!w.desktop && !w.exstyle.has wsExNoactivate) = true then
        setWindowActive h (raiseWindow env.fuel h (retain h t)) else retain h t) = u
        at hfront hcore hactive ⊢
      have hgiven : Undisturbed only u (dereference h u) :=
        undisturbed_dereference ((hcore h).trans hheld) (Nat.succ_lt_succ (core_pos hc))
      have hall := (htaken.apart.trans hfront).trans hgiven.apart
      have hlast : (dereference h u).activeWindow = if activates w then h else s.activeWindow := by
        rw [hgiven.active, hactive, htaken.active]
      split
      · rename_i hin
        rw [hin, Bool.not_true, Bool.false_or] at hpass
        obtain ⟨new, he, hnew⟩ := @send_silent env silent only h w.wndProc .lButtonDown hsilent rfl hpass
          (clientLParam w x y) u
        rw [he]
        exact ⟨hall.trans (undisturbed_sends hnew).apart, hlast⟩
      · exact ⟨hall, hlast⟩

end Rest

end DiscouNT.Win32k
