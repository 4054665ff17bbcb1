import DiscouNT.Win32k.Scan

/-!
# Win32k.References

The references that the entry points take and give back, with window procedures that leave all
counts as they are.
-/

namespace DiscouNT.Win32k

open List

def State.refsAt (s : State) (h : Handle) : Nat :=
  match s.lookup h with
  | none => 0
  | some o => o.refs

/-- The window procedures leave all reference counts as they are. -/
def KeepsCounts (env : Env) : Prop := ∀ p m s, (env.proc p m s).refsAt = s.refsAt

/-- What a window procedure may not touch while it paints: `window_list`, `drag_window` and
`resize_window`. -/
structure Painted (s s' : State) : Prop where
  list : s'.list = s.list
  dragWindow : s'.pointer.dragWindow = s.pointer.dragWindow
  resizeWindow : s'.pointer.resizeWindow = s.pointer.resizeWindow

def PaintTame (env : Env) : Prop :=
  ∀ p h l s, Painted s (env.proc p ⟨h, .paint, l⟩ s)

section Counts

variable {s s' : State} {h k : Handle} {w : Window} {f : Window → Window} {l : List Handle}

theorem refsAt_alter (h : Handle) (g : Object → Option Object) (s : State) :
    (s.alter h g).refsAt k =
      if k = h then match (s.lookup h).bind g with | none => 0 | some o => o.refs
      else s.refsAt k := by
  unfold State.refsAt
  rw [State.lookup_alter]
  by_cases hk : k = h
  · rw [if_pos hk, if_pos hk]
  · rw [if_neg hk, if_neg hk]

@[simp] theorem refsAt_updWin (h : Handle) (f : Window → Window) (s : State) :
    (updWin h f s).refsAt = s.refsAt := by
  funext k
  rw [updWin, refsAt_alter]
  by_cases hk : k = h
  · subst hk
    rw [if_pos rfl, State.refsAt]
    cases s.lookup k with
    | none => rfl
    | some o => rfl
  · rw [if_neg hk]

@[simp] theorem refsAt_setPointer (f : Pointer → Pointer) (s : State) :
    (s.setPointer f).refsAt = s.refsAt := rfl

theorem refsAt_alter_succ {g : Object → Object} (hg : ∀ o, (g o).refs = o.refs + 1)
    (hw : s.win h = some w) : (s.alter h fun o => some (g o)).refsAt = s.refsAt + Pi.single h 1 := by
  obtain ⟨o, ho, -⟩ := State.win_eq_some.mp hw
  funext k
  rw [refsAt_alter, Pi.add_apply]
  by_cases hk : k = h
  · subst hk
    rw [if_pos rfl, ho, Pi.single_eq_same, State.refsAt, ho]
    exact hg o
  · rw [if_neg hk, Pi.single_eq_of_ne hk, Nat.add_zero]

theorem refsAt_retain (hw : s.win h = some w) :
    (retain h s).refsAt = s.refsAt + Pi.single h 1 :=
  refsAt_alter_succ (fun _ => rfl) hw

theorem refsAt_dereference (h : Handle) (s : State) :
    (dereference h s).refsAt = s.refsAt - Pi.single h 1 := by
  funext k
  rw [dereference, refsAt_alter, Pi.sub_apply]
  by_cases hk : k = h
  · subst hk
    rw [if_pos rfl, Pi.single_eq_same, State.refsAt]
    cases s.lookup k with
    | none => rfl
    | some o =>
      have ho := o.counted
      by_cases hrefs : 1 < o.refs
      · simp only [Option.bind_some, Object.release, dif_pos hrefs]
      · simp only [Option.bind_some, Object.release, dif_neg hrefs]
        omega
  · rw [if_neg hk, Pi.single_eq_of_ne hk, Nat.sub_zero]

theorem refsAt_bracket (hs : s'.refsAt = s.refsAt + Pi.single h 1) :
    (dereference h s').refsAt = s.refsAt := by
  funext k
  rw [refsAt_dereference, hs, Pi.sub_apply, Pi.add_apply, Nat.add_sub_cancel]

theorem lookup_eq_none_of_refsAt (hr : s.refsAt h = 0) : s.lookup h = none := by
  unfold State.refsAt at hr
  cases ho : s.lookup h with
  | none => rfl
  | some o =>
    rw [ho] at hr
    have := o.counted
    simp only at hr
    omega

theorem refsAt_leakAt (hw : s.win h = some w) :
    (leakAt s h).refsAt = s.refsAt + Pi.single h 1 :=
  refsAt_alter_succ (fun _ => rfl) hw

theorem refsAt_leakAll (hl : ∀ h ∈ l, ∃ w, s.win h = some w) :
    (leakAll l s).refsAt = s.refsAt + fun k => l.count k := by
  induction l generalizing s with
  | nil =>
    funext k
    rfl
  | cons h l ih =>
    obtain ⟨w, hw⟩ := hl h mem_cons_self
    have hrest : ∀ k ∈ l, ∃ w, (leakAt s h).win k = some w := by
      intro k hk
      rw [win_leakAt]
      exact hl k (mem_cons_of_mem _ hk)
    rw [show leakAll (h :: l) s = leakAll l (leakAt s h) from rfl, ih hrest, refsAt_leakAt hw]
    funext k
    simp only [Pi.add_apply, count_cons, Pi.single_apply, beq_iff_eq]
    by_cases hk : k = h
    · rw [if_pos hk, if_pos hk.symm]
      omega
    · rw [if_neg hk, if_neg (Ne.symm hk)]
      omega

theorem hiddenIn_windows {win : Handle → Option Window} {x y : Int} (hk : k ∈ hiddenIn win x y l) :
    ∃ w, win k = some w := by
  induction l with
  | nil => cases hk
  | cons h rest ih =>
    rw [hiddenIn] at hk
    cases hw : win h with
    | none =>
      rw [hw] at hk
      exact ih hk
    | some w =>
      rw [hw] at hk
      simp only at hk
      split at hk
      · split at hk
        · cases hk
        · exact ih hk
      · rcases mem_cons.mp hk with rfl | hk
        · exact ⟨w, hw⟩
        · exact ih hk

theorem refsAt_hidden (x y : Int) (s : State) :
    (leakAll (hiddenAt x y s) s).refsAt = s.refsAt + fun k => (hiddenAt x y s).count k :=
  refsAt_leakAll fun _ hk => hiddenIn_windows hk

theorem refsAt_foldl {α : Type} {f : State → α → State}
    (hf : ∀ s a, (f s a).refsAt = s.refsAt) (l : List α) (s : State) :
    (l.foldl f s).refsAt = s.refsAt := by
  induction l generalizing s with
  | nil => rfl
  | cons a l ih => rw [foldl_cons, ih, hf]

@[simp] theorem refsAt_setWindowActive (hwnd : Handle) (s : State) :
    (setWindowActive hwnd s).refsAt = s.refsAt := by
  rw [setWindowActive_eq]
  split
  · rw [refsAt_foldl (fun s h => by rw [markActive_eq, refsAt_updWin])]
    rfl
  · rfl

theorem raiseWindow_eq (fuel : Nat) (hwnd : Handle) (s : State) :
    ∃ z hung, raiseWindow fuel hwnd s = { s with toZOrder := z, hung := hung } := by
  unfold raiseWindow
  split
  · exact ⟨s.toZOrder, true, rfl⟩
  · rename_i z _
    exact ⟨z, s.hung, rfl⟩

@[simp] theorem refsAt_raiseWindow (fuel : Nat) (hwnd : Handle) (s : State) :
    (raiseWindow fuel hwnd s).refsAt = s.refsAt := by
  obtain ⟨z, hung, he⟩ := raiseWindow_eq fuel hwnd s
  rw [he]
  rfl

end Counts

/-! ## Messages and painting -/

section Painting

variable {env : Env} {s s' s'' : State} {h : Handle} {w : Window}

theorem Painted.refl (s : State) : Painted s s := ⟨rfl, rfl, rfl⟩

theorem Painted.trans (h1 : Painted s s') (h2 : Painted s' s'') : Painted s s'' :=
  ⟨h2.list.trans h1.list, h2.dragWindow.trans h1.dragWindow, h2.resizeWindow.trans h1.resizeWindow⟩

theorem painted_alter (h : Handle) (g : Object → Option Object) (s : State) :
    Painted s (s.alter h g) :=
  ⟨by simp, by simp, by simp⟩

theorem send_refsAt (hproc : KeepsCounts env) (h : Handle) (p : Option Nat) (msg : Msg)
    (lParam : Nat) (s : State) : (send env h p msg lParam s).refsAt = s.refsAt := by
  unfold send
  cases p with
  | none => rfl
  | some p => exact hproc _ _ _

theorem send_painted (hpaint : PaintTame env) (h : Handle) (p : Option Nat) (lParam : Nat)
    (s : State) : Painted s (send env h p .paint lParam s) := by
  unfold send
  cases p with
  | none => exact Painted.refl s
  | some p =>
    have hp := hpaint p h lParam (s.addLog (.sent (s.serialAt h) ⟨h, .paint, lParam⟩))
    exact ⟨hp.list, hp.dragWindow, hp.resizeWindow⟩

theorem entry_of_getElem? {z : ZOrder} {i : Nat} (hi : z.list[i]? = some h) : z.entry i = h := by
  have hlt := (List.getElem?_eq_some_iff.mp hi).1
  rw [ZOrder.entry, getD_eq_getElem?_getD, getElem?_append_left hlt, hi]
  rfl

theorem paintOne_spec (hpaint : PaintTame env) (test : Pointer → Handle → Window → Bool)
    (s : State) (i : Nat) :
    Painted s (paintOne env test s i) ∧
      (KeepsCounts env → (paintOne env test s i).refsAt = s.refsAt) := by
  unfold paintOne
  cases hi : s.list[i]? with
  | none => exact ⟨Painted.refl s, fun _ => rfl⟩
  | some h =>
    simp only
    cases hw : s.win h with
    | none =>
      rw [reference_none hw]
      exact ⟨Painted.refl s, fun _ => rfl⟩
    | some w =>
      rw [reference_some hw]
      simp only
      have hret : Painted s (retain h s) := painted_alter _ _ s
      split
      · have hsent := hret.trans (send_painted hpaint h w.wndProc 0 (retain h s))
        rw [entry_of_getElem? (hsent.list ▸ hi)]
        refine ⟨hsent.trans (painted_alter _ _ _), fun hproc => refsAt_bracket ?_⟩
        rw [send_refsAt hproc, refsAt_retain hw]
      · rw [entry_of_getElem? (hret.list ▸ hi)]
        exact ⟨hret.trans (painted_alter _ _ _), fun _ => refsAt_bracket (refsAt_retain hw)⟩

theorem paintPass_spec (hpaint : PaintTame env) (test : Pointer → Handle → Window → Bool)
    (s : State) :
    Painted s (paintPass env test s) ∧
      (KeepsCounts env → (paintPass env test s).refsAt = s.refsAt) := by
  have hfold : ∀ (l : List Nat) (s : State), Painted s (l.foldl (paintOne env test) s) := by
    intro l
    induction l with
    | nil => exact Painted.refl
    | cons i l ih => exact fun s => (paintOne_spec hpaint test s i).1.trans (ih _)
  exact ⟨hfold _ s, fun hproc =>
    refsAt_foldl (fun s i => (paintOne_spec hpaint test s i).2 hproc) _ s⟩

theorem paintPasses_spec (hpaint : PaintTame env) (test : Pointer → Handle → Window → Bool)
    (s : State) :
    Painted s (paintPasses env test s) ∧
      (KeepsCounts env → (paintPasses env test s).refsAt = s.refsAt) := by
  have h1 := paintPass_spec hpaint (fun p h w => !isMenuPopupWindow w && test p h w) s
  have h2 := paintPass_spec hpaint (fun p h w => isMenuPopupWindow w && test p h w)
    (paintPass env (fun p h w => !isMenuPopupWindow w && test p h w) s)
  exact ⟨h1.1.trans h2.1, fun hproc => (h2.2 hproc).trans (h1.2 hproc)⟩

theorem redrawAll_spec (hpaint : PaintTame env) (s : State) :
    Painted s (win32kRedrawAll env s) ∧
      (KeepsCounts env → (win32kRedrawAll env s).refsAt = s.refsAt) := by
  unfold win32kRedrawAll
  split
  · exact ⟨Painted.refl s, fun _ => rfl⟩
  · simp only [captionPass_eq]
    obtain ⟨hp, hr⟩ := paintPasses_spec hpaint (fun _ _ _ => true)
      { s with redrawInProgress := true }
    generalize paintPasses env (fun _ _ _ => true) { s with redrawInProgress := true } = s' at hp hr
    exact ⟨⟨hp.list, hp.dragWindow, hp.resizeWindow⟩, fun hproc => hr hproc⟩

end Painting

/-! ## Entry points -/

/-- A mouse-up that fires the close button of a caption, which is a `Win32kDestroyWindow`. -/
def Closes (x y : Int) (button : Nat) (s : State) : Prop :=
  button = 1 ∧ s.pointer.captionPressHwnd ≠ invalidHandle ∧ s.pointer.captionPressHit = .close ∧
    ∃ w, s.win s.pointer.captionPressHwnd = some w ∧ w.visible = true ∧
      hitCaptionButton w x y = .close

def Neutral (s : State) : Call → Prop
  | .registerClass .. | .createWindowByClass .. | .createWindowEx .. | .destroyWindow _ |
    .other _ => False
  | .handleMouseUp x y button => ¬ Closes x y button s
  | _ => True

/-- The hidden windows a call takes a reference to for good: those in front of the window under the
pointer, each time it is looked for. -/
def leaks (env : Env) (s : State) : Call → List Handle
  | .handleMouseDown x y button => if button ≠ 1 then [] else hiddenAt x y s
  | .handleMouseUp x y button =>
    if button ≠ 1 ∨ s.pointer.captionPressHwnd ≠ invalidHandle then []
    else
      let s := if s.pointer.dragging then s.setPointer .endDrag else s
      let s := if s.pointer.resizing then s.setPointer .endResize else s
      let s' := sendToPoint env .lButtonUp x y s
      hiddenAt x y s ++ if s'.pointer.resizing then [] else hiddenAt x y s'
  | .handleMouseMove x y =>
    if s.pointer.resizing && decide (s.pointer.resizeWindow ≠ invalidHandle) then []
    else
      let s' := sendToPoint env .mouseMove x y s
      hiddenAt x y s ++ if s'.pointer.resizing then [] else hiddenAt x y s'
  | _ => []

section Entry

variable {env : Env} {s : State} {hwnd : Handle} {w : Window}

theorem minimizeWindow_refsAt (env : Env) (hwnd : Handle) (w : Window) (s : State) :
    (minimizeWindow env hwnd w s).refsAt = s.refsAt := by
  unfold minimizeWindow layoutMinimizedWindow
  split
  · rfl
  · simp only
    split <;> simp

theorem activateWindow_refsAt (env : Env) (hwnd : Handle) (s : State) :
    (win32kActivateWindow env hwnd s).refsAt = s.refsAt := by
  unfold win32kActivateWindow
  rw [peek_eq]
  split
  · rfl
  · cases s.win hwnd with
    | none => rfl
    | some w =>
      simp only
      split
      · rfl
      · split
        · rfl
        · simp

theorem doCaptionButtonAction_refsAt {hit : CaptionHit} (env : Env) (hwnd : Handle) (w : Window)
    (hhit : hit ≠ .close) (s : State) :
    (doCaptionButtonAction env hwnd w hit s).refsAt = s.refsAt := by
  cases hit with
  | none => rfl
  | close => exact absurd rfl hhit
  | maximize =>
    simp only [doCaptionButtonAction]
    split
    · simp
    · split <;> simp
  | minimize =>
    simp only [doCaptionButtonAction]
    split
    · simp
    · simp [minimizeWindow_refsAt]

theorem beginFastDrag_refsAt (hproc : KeepsCounts env) (hwnd : Handle) (s : State) :
    (beginFastDrag env hwnd s).refsAt = s.refsAt := by
  unfold beginFastDrag
  cases hw : s.win hwnd with
  | none => rw [reference_none hw]
  | some w =>
    rw [reference_some hw]
    refine refsAt_bracket ?_
    simp only [refsAt_setPointer]
    split
    · exact refsAt_retain hw
    · rw [send_refsAt hproc, refsAt_retain hw]

theorem sendToPoint_refsAt (hproc : KeepsCounts env) (msg : Msg) (x y : Int) (s : State) :
    (sendToPoint env msg x y s).refsAt = s.refsAt + fun k => (hiddenAt x y s).count k := by
  unfold sendToPoint
  rw [findWindowAt_eq]
  have hleak := refsAt_hidden x y s
  generalize leakAll (hiddenAt x y s) s = t at hleak
  simp only
  split
  · exact hleak
  · cases hw : t.win (hitAt x y s) with
    | none => rw [reference_none hw, hleak]
    | some w =>
      rw [reference_some hw, ← hleak]
      refine refsAt_bracket ?_
      split
      · rw [send_refsAt hproc, refsAt_retain hw]
      · exact refsAt_retain hw

theorem updateCursorForPoint_refsAt (x y : Int) (s : State) :
    (updateCursorForPoint x y s).refsAt =
      s.refsAt + fun k => (if s.pointer.resizing then [] else hiddenAt x y s).count k := by
  rw [updateCursorForPoint_eq]
  split
  · funext k
    rfl
  · exact refsAt_hidden x y s

theorem showWindow_refsAt (hproc : KeepsCounts env) (hpaint : PaintTame env) (hwnd : Handle)
    (s : State) : (win32kShowWindow env hwnd s).refsAt = s.refsAt := by
  unfold win32kShowWindow
  cases hw : s.win hwnd with
  | none => rw [reference_none hw]
  | some w =>
    rw [reference_some hw]
    refine refsAt_bracket ?_
    split
    · rw [(redrawAll_spec hpaint _).2 hproc, refsAt_updWin, refsAt_retain hw]
    · rw [refsAt_updWin, refsAt_retain hw]

theorem setWindowShowState_refsAt (hproc : KeepsCounts env) (hpaint : PaintTame env)
    (hwnd : Handle) (command : Int) (s : State) :
    (win32kSetWindowShowState env hwnd command s).refsAt = s.refsAt := by
  unfold win32kSetWindowShowState
  cases hw : s.win hwnd with
  | none => rw [reference_none hw]
  | some w =>
    rw [reference_some hw]
    simp only
    split
    · rw [(redrawAll_spec hpaint _).2 hproc, dereference_updWin_retain, refsAt_updWin]
    · split
      · rw [(redrawAll_spec hpaint _).2 hproc, refsAt_setWindowActive]
        refine refsAt_bracket ?_
        rw [minimizeWindow_refsAt, refsAt_updWin, refsAt_retain hw]
      · rw [(redrawAll_spec hpaint _).2 hproc, activateWindow_refsAt, dereference_updWin_retain,
          refsAt_updWin]

theorem updateWindow_refsAt (hproc : KeepsCounts env) (hpaint : PaintTame env) (hwnd : Handle)
    (s : State) : (win32kUpdateWindow env hwnd s).refsAt = s.refsAt := by
  unfold win32kUpdateWindow
  cases hw : s.win hwnd with
  | none => rw [reference_none hw]
  | some w =>
    rw [reference_some hw]
    simp only
    split
    · rw [(redrawAll_spec hpaint _).2 hproc, dereference_retain]
    · refine refsAt_bracket ?_
      split
      · exact refsAt_retain hw
      · rw [send_refsAt hproc, refsAt_retain hw]

theorem setWindowIcons_refsAt (hwnd bigIcon smallIcon : Handle) (s : State) :
    (win32kSetWindowIcons hwnd bigIcon smallIcon s).refsAt = s.refsAt := by
  unfold win32kSetWindowIcons
  cases hw : s.win hwnd with
  | none => rw [reference_none hw]
  | some w => simp [reference_some hw]

theorem setWindowRect_refsAt (hwnd : Handle) (x y width height : Int) (s : State) :
    (win32kSetWindowRect hwnd x y width height s).refsAt = s.refsAt := by
  unfold win32kSetWindowRect
  cases hw : s.win hwnd with
  | none => rw [reference_none hw]
  | some w =>
    rw [reference_some hw]
    simp only
    split <;> simp

theorem setWindowPos_refsAt (hproc : KeepsCounts env) (hpaint : PaintTame env)
    (hwnd insertAfter : Handle) (x y width height : Int) (flags : Flags) (s : State) :
    (win32kSetWindowPos env hwnd insertAfter x y width height flags s).2.refsAt = s.refsAt := by
  unfold win32kSetWindowPos
  cases hw : s.win hwnd with
  | none => rw [reference_none hw]
  | some w =>
    rw [reference_some hw]
    simp only
    rw [(redrawAll_spec hpaint _).2 hproc]
    refine refsAt_bracket ?_
    have hret := refsAt_retain hw
    split <;> split <;> simp [hret]

theorem handleMouseDown_refsAt (hproc : KeepsCounts env) (hpaint : PaintTame env) (x y : Int)
    (button : Nat) (s : State) :
    (win32kHandleMouseDown env x y button s).refsAt =
      s.refsAt + fun k => (if button ≠ 1 then [] else hiddenAt x y s).count k := by
  unfold win32kHandleMouseDown
  by_cases hb : button ≠ 1
  · rw [if_pos hb, if_pos hb]
    funext k
    rfl
  · rw [if_neg hb, if_neg hb, findWindowAt_eq]
    have hleak := refsAt_hidden x y s
    rw [← hleak]
    generalize leakAll (hiddenAt x y s) s = t
    simp only
    split
    · rfl
    · cases hw : t.win (hitAt x y s) with
      | none => rw [reference_none hw]
      | some w =>
        rw [reference_some hw]
        simp only
        have hact : (if (!w.desktop && !w.exstyle.has wsExNoactivate) = true then
            setWindowActive (hitAt x y s) (raiseWindow env.fuel (hitAt x y s)
              (retain (hitAt x y s) t)) else retain (hitAt x y s) t).refsAt =
            t.refsAt + Pi.single (hitAt x y s) 1 := by
          split <;> simp [refsAt_retain hw]
        generalize (if (!w.desktop && !w.exstyle.has wsExNoactivate) = true then
            setWindowActive (hitAt x y s) (raiseWindow env.fuel (hitAt x y s)
              (retain (hitAt x y s) t)) else retain (hitAt x y s) t) = u at hact
        split
        · rw [(redrawAll_spec hpaint _).2 hproc]
          exact refsAt_bracket hact
        · split
          · rw [(redrawAll_spec hpaint _).2 hproc]
            exact refsAt_bracket hact
          · split
            · refine refsAt_bracket ?_
              rw [beginFastDrag_refsAt hproc]
              exact hact
            · refine refsAt_bracket ?_
              split
              · rw [send_refsAt hproc, hact]
              · exact hact

theorem sendThenCursor_refsAt (hproc : KeepsCounts env) (msg : Msg) (x y : Int) (s : State) :
    (updateCursorForPoint x y (sendToPoint env msg x y s)).refsAt =
      s.refsAt + fun k => (hiddenAt x y s ++
        if (sendToPoint env msg x y s).pointer.resizing then []
        else hiddenAt x y (sendToPoint env msg x y s)).count k := by
  rw [updateCursorForPoint_refsAt, sendToPoint_refsAt hproc]
  funext k
  simp only [Pi.add_apply, count_append]
  omega

theorem handleMouseUp_refsAt (hproc : KeepsCounts env) (hpaint : PaintTame env) (x y : Int)
    (button : Nat) (s : State) (hclose : ¬ Closes x y button s) :
    (win32kHandleMouseUp env x y button s).refsAt =
      s.refsAt + fun k => (leaks env s (.handleMouseUp x y button)).count k := by
  by_cases hb : button = 1
  · by_cases hcap : s.pointer.captionPressHwnd ≠ invalidHandle
    · have hnone : leaks env s (.handleMouseUp x y button) = [] := if_pos (.inr hcap)
      rw [hnone]
      unfold win32kHandleMouseUp
      rw [if_neg (not_not.mpr hb), if_pos hcap]
      simp only
      rw [(redrawAll_spec hpaint _).2 hproc]
      cases hw : s.win s.pointer.captionPressHwnd with
      | none =>
        rw [reference_none hw]
        rfl
      | some w =>
        rw [reference_some hw]
        refine (refsAt_bracket ?_).trans rfl
        have hret : (State.setPointer .clearCaption (retain s.pointer.captionPressHwnd s)).refsAt =
            s.refsAt + Pi.single s.pointer.captionPressHwnd 1 := refsAt_retain hw
        split
        · rename_i hfire
          rw [Bool.and_eq_true, decide_eq_true_eq] at hfire
          have hhit : s.pointer.captionPressHit ≠ .close := fun heq =>
            hclose ⟨hb, hcap, heq, w, hw, hfire.1, hfire.2.trans heq⟩
          rw [doCaptionButtonAction_refsAt env _ w hhit, hret]
        · exact hret
    · have hleak : leaks env s (.handleMouseUp x y button) = _ :=
        if_neg (not_or.mpr ⟨not_not.mpr hb, hcap⟩)
      rw [hleak]
      unfold win32kHandleMouseUp
      rw [if_neg (not_not.mpr hb), if_neg hcap]
      simp only
      rw [sendThenCursor_refsAt hproc]
      congr 1
      split <;> split <;> rfl
  · have hnone : leaks env s (.handleMouseUp x y button) = [] := if_pos (.inl hb)
    rw [hnone, win32kHandleMouseUp, if_pos hb]
    rfl

theorem fastDragPresent_spec (hpaint : PaintTame env) (r : Window) (oldX oldY : Int) (s : State) :
    Painted s (fastDragPresent env r oldX oldY s) ∧
      (KeepsCounts env → (fastDragPresent env r oldX oldY s).refsAt = s.refsAt) := by
  unfold fastDragPresent
  simp only [captionPass_eq]
  exact paintPasses_spec hpaint _ s

theorem paintResized_spec (hpaint : PaintTame env) (r : Window) (s : State) :
    Painted s (paintResized env r s) ∧
      (KeepsCounts env → (paintResized env r s).refsAt = s.refsAt) := by
  unfold paintResized
  simp only [captionPass_eq]
  exact paintPasses_spec hpaint _ s

theorem handleMouseMove_refsAt (hproc : KeepsCounts env) (hpaint : PaintTame env) (x y : Int)
    (s : State) :
    (win32kHandleMouseMove env x y s).refsAt =
      s.refsAt + fun k => (leaks env s (.handleMouseMove x y)).count k := by
  by_cases hres : (s.pointer.resizing && decide (s.pointer.resizeWindow ≠ invalidHandle)) = true
  · have hnone : leaks env s (.handleMouseMove x y) = [] := if_pos hres
    rw [hnone]
    unfold win32kHandleMouseMove
    rw [if_pos hres]
    cases hw : s.win s.pointer.resizeWindow with
    | none =>
      rw [reference_none hw]
      rfl
    | some w =>
      rw [reference_some hw]
      have hresizing : s.pointer.resizing = true := (Bool.and_eq_true _ _ ▸ hres).1
      simp only [retain_pointer, updateCursorForPoint_eq, updWin_pointer, hresizing, if_true]
      obtain ⟨hp, hr⟩ := paintResized_spec hpaint (resizeFields env s.pointer x y w)
        (updWin s.pointer.resizeWindow (resizeFields env s.pointer x y)
          (retain s.pointer.resizeWindow s))
      rw [hp.resizeWindow, updWin_pointer, retain_pointer]
      refine (refsAt_bracket ?_).trans rfl
      rw [hr hproc, refsAt_updWin, refsAt_retain hw]
  · have hleak : leaks env s (.handleMouseMove x y) = _ := if_neg hres
    rw [hleak]
    unfold win32kHandleMouseMove
    rw [if_neg hres]
    have hsent := sendThenCursor_refsAt hproc .mouseMove x y s
    rw [← hsent]
    generalize updateCursorForPoint x y (sendToPoint env .mouseMove x y s) = t
    simp only
    split
    · rfl
    · cases hw : t.win t.pointer.dragWindow with
      | none =>
        rw [reference_none hw]
        rfl
      | some w =>
        rw [reference_some hw]
        simp only [retain_pointer]
        generalize draggedTo env t.pointer w x y = new
        split
        · obtain ⟨hp, hr⟩ := fastDragPresent_spec hpaint (dragFields new.1 new.2 w) w.x w.y
            (updWin t.pointer.dragWindow (dragFields new.1 new.2)
              (retain t.pointer.dragWindow t))
          rw [hp.dragWindow, updWin_pointer, retain_pointer]
          refine refsAt_bracket ?_
          rw [hr hproc, refsAt_updWin, refsAt_retain hw]
        · rw [retain_pointer, dereference_retain]

theorem exec_refsAt (hproc : KeepsCounts env) (hpaint : PaintTame env) (c : Call) (s : State)
    (hc : Neutral s c) : (exec env c s).refsAt = s.refsAt + fun k => (leaks env s c).count k := by
  have hnil : s.refsAt + (fun k => ([] : List Handle).count k) = s.refsAt := rfl
  cases c with
  | registerClass => exact hc.elim
  | createWindowByClass => exact hc.elim
  | createWindowEx => exact hc.elim
  | destroyWindow => exact hc.elim
  | other => exact hc.elim
  | showWindow hwnd => exact (showWindow_refsAt hproc hpaint hwnd s).trans hnil.symm
  | setWindowShowState hwnd command =>
    exact (setWindowShowState_refsAt hproc hpaint hwnd command s).trans hnil.symm
  | isWindowMinimized hwnd => simp only [exec, win32kIsWindowMinimized, peek_eq, leaks, hnil]
  | updateWindow hwnd => exact (updateWindow_refsAt hproc hpaint hwnd s).trans hnil.symm
  | getClientRect hwnd => simp only [exec, win32kGetClientRect, peek_eq, leaks, hnil]
  | getClientScreenRect hwnd => simp only [exec, win32kGetClientScreenRect, peek_eq, leaks, hnil]
  | getWindowRect hwnd => simp only [exec, win32kGetWindowRect, peek_eq, leaks, hnil]
  | activateWindow hwnd => exact (activateWindow_refsAt env hwnd s).trans hnil.symm
  | setWindowIcons hwnd bigIcon smallIcon =>
    exact (setWindowIcons_refsAt hwnd bigIcon smallIcon s).trans hnil.symm
  | setWindowRect hwnd x y width height =>
    exact (setWindowRect_refsAt hwnd x y width height s).trans hnil.symm
  | setWindowPos hwnd insertAfter x y width height flags =>
    exact (setWindowPos_refsAt hproc hpaint hwnd insertAfter x y width height flags s).trans
      hnil.symm
  | handleMouseDown x y button => exact handleMouseDown_refsAt hproc hpaint x y button s
  | handleMouseUp x y button => exact handleMouseUp_refsAt hproc hpaint x y button s hc
  | handleMouseMove x y => exact handleMouseMove_refsAt hproc hpaint x y s
  | redrawAll => exact ((redrawAll_spec hpaint s).2 hproc).trans hnil.symm
  | setColorPreview => exact ((redrawAll_spec hpaint s).2 hproc).trans hnil.symm

theorem destroyWindow_refsAt (hproc : KeepsCounts env) (hw : s.win hwnd = some w) :
    (win32kDestroyWindow env hwnd s).refsAt = s.refsAt - Pi.single hwnd 1 := by
  unfold win32kDestroyWindow
  rw [reference_some hw]
  simp only
  rw [refsAt_dereference]
  congr 1
  refine refsAt_bracket ?_
  rw [send_refsAt hproc]
  have hmark : ∀ t : State, (t.alter hwnd fun o => some o.markDestroyed).refsAt = t.refsAt := by
    intro t
    funext k
    rw [refsAt_alter]
    by_cases hk : k = hwnd
    · subst hk
      rw [if_pos rfl, State.refsAt]
      cases t.lookup k <;> rfl
    · rw [if_neg hk]
  have hremove : (removeWindow hwnd (retain hwnd s)).refsAt = s.refsAt + Pi.single hwnd 1 := by
    unfold removeWindow
    rw [← refsAt_retain hw]
    split <;> rfl
  split
  · rw [refsAt_setWindowActive]
    exact (hmark _).trans hremove
  · exact (hmark _).trans hremove

/-- A call that neither creates nor destroys leaves all reference counts as they are exactly when
it passes no hidden window, and a window with only its first reference goes away when it is
destroyed. -/
theorem references_balanced (env : Env) (hproc : KeepsCounts env) :
    (PaintTame env → ∀ s c, Neutral s c → ((exec env c s).refsAt = s.refsAt ↔ leaks env s c = [])) ∧
    ∀ s hwnd w, s.win hwnd = some w → s.refsAt hwnd = 1 →
      (exec env (.destroyWindow hwnd) s).lookup hwnd = none := by
  refine ⟨fun hpaint s c hc => ?_, fun s hwnd w hw hone => ?_⟩
  · rw [exec_refsAt hproc hpaint c s hc]
    constructor
    · intro heq
      rw [eq_nil_iff_forall_not_mem]
      intro h hmem
      have hcount := congrFun heq h
      have hpos := count_pos_iff.mpr hmem
      simp only [Pi.add_apply] at hcount
      omega
    · intro hnil
      rw [hnil]
      rfl
  · refine lookup_eq_none_of_refsAt ?_
    have hafter := congrFun (destroyWindow_refsAt hproc hw) hwnd
    rw [Pi.sub_apply, Pi.single_eq_same, hone] at hafter
    exact hafter

end Entry

def quiet : Env :=
  { fbWidth := 640, fbHeight := 480, proc := fun _ _ s => s, kmalloc := fun _ _ => true
    misread := fun _ => (0, none), fuel := 64 }

def restless : Env :=
  { quiet with proc := fun _ m s => if m.msg = .paint then raiseWindow 64 m.hwnd s else s }

def hiddenDesk : State :=
  desk [plainWindow (text "Desktop") invalidHandle,
    { plainWindow (text "Main") invalidHandle with visible := false }]

def twoWindowDesk : State :=
  desk [plainWindow (text "Desktop") invalidHandle, plainWindow (text "Main") invalidHandle,
    plainWindow (text "Other") invalidHandle]

theorem references_balanced_quiet :
    (PaintTame quiet → ∀ s c, Neutral s c →
      ((exec quiet c s).refsAt = s.refsAt ↔ leaks quiet s c = [])) ∧
    ∀ s hwnd w, s.win hwnd = some w → s.refsAt hwnd = 1 →
      (exec quiet (.destroyWindow hwnd) s).lookup hwnd = none :=
  references_balanced quiet fun _ _ _ => rfl

/-- A mouse move over a hidden window leaks two references to it, and a repaint during which a
window comes to the front frees the other one. -/
theorem references_leaked :
    KeepsCounts quiet ∧ Neutral hiddenDesk (.handleMouseMove 5 5) ∧ hiddenDesk.refsAt 1 = 1 ∧
    (exec quiet (.handleMouseMove 5 5) hiddenDesk).refsAt 1 = 3 ∧
    KeepsCounts restless ∧ Neutral twoWindowDesk .redrawAll ∧ twoWindowDesk.refsAt 2 = 1 ∧
    (exec restless .redrawAll twoWindowDesk).refsAt 2 = 0 := by
  refine ⟨fun _ _ _ => rfl, trivial, by decide +kernel, by decide +kernel, ?_, trivial,
    by decide +kernel, by decide +kernel⟩
  intro p m s
  simp only [restless]
  split
  · exact refsAt_raiseWindow 64 m.hwnd s
  · rfl

end DiscouNT.Win32k
