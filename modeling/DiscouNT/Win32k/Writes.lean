import DiscouNT.Win32k.Calls

/-!
# Win32k.Writes

Every call as a sequence of single writes to the state.

Most writes are to the statics, to a reference count or to a field of a window that is neither its
title nor part of its rectangle. The others are a new class, a new window, an object of another
component, and the writes of `Reshapes`, each of which belongs to a kind of call. What each single
write keeps, a call keeps (`exec_writes`).
-/

namespace DiscouNT.Win32k

open Lib Relation

structure Box where
  x : Int
  y : Int
  width : Int
  height : Int
deriving DecidableEq

structure Geo where
  box : Box
  saved : Box
  minimized : Bool
  maximized : Bool
deriving DecidableEq

def Window.geo (w : Window) : Geo :=
  { box := ⟨w.x, w.y, w.width, w.height⟩
    saved := ⟨w.restoreX, w.restoreY, w.restoreWidth, w.restoreHeight⟩
    minimized := w.minimized
    maximized := w.maximized }

structure SameRecord (o o' : Object) : Prop where
  name : o'.name = o.name
  body : o'.body = o.body
  serial : o'.serial = o.serial

def SameAt (h : Handle) (s s' : State) : Prop :=
  ∀ o', s'.lookup h = some o' → ∃ o, s.lookup h = some o ∧ SameRecord o o'

/-- One write. `T h t f` are the changes `f` of the rectangle of the window at `h`, as it is in
`t`, and `U name s` the searches for a class. -/
inductive Write (env : Env) (T : Handle → State → (Window → Window) → Prop) (U : Name → State → Prop) :
    State → State → Prop
  | statics {s s' : State} (ho : s'.objects = s.objects) (hc : s'.created = s.created)
      (hl : s'.log = s.log) : Write env T U s s'
  | sent {s : State} {n : Nat} {m : Message} : Write env T U s (s.addLog (.sent n m))
  | used {s : State} {name : Name} {h : Handle} (hu : U name s) (hf : findObject name s = some h) :
      Write env T U s (s.addLog (.classUsed name (s.serialAt h)))
  | count {s : State} {h : Handle} {g : Object → Option Object}
      (hg : ∀ o o', g o = some o' → SameRecord o o') : Write env T U s (s.alter h g)
  | fields {s : State} {h : Handle} {f : Window → Window}
      (hf : ∀ w, (f w).geo = w.geo ∧ (f w).title = w.title) : Write env T U s (updWin h f s)
  | shape {s t : State} {h : Handle} {f : Window → Window} (ht : T h t f) (hs : SameAt h t s)
      (hf : ∀ w, (f w).title = w.title) : Write env T U s (updWin h f s)
  | register {s s' : State} {h : Handle} {className : Name} {style : Flags} {wndProc : Option Nat}
      (hc : createObject true className (.wndClass ⟨className.take 63, style, wndProc⟩) s =
        (some h, s')) : Write env T U s (s'.addLog (.registered s.created className))
  | window {s s' : State} {h : Handle} {title : Name} {w : Window}
      (ht : w.title = title.take 63) (hc : createObject true title (.window w) s = (some h, s')) :
      Write env T U s s'
  | other {s : State} {slot : Handle} : Write env T U s (toggleOther slot s)
  | react {s : State} {r : Request} : Write env T U s (reacts env r s)

abbrev Writes (env : Env) (T : Handle → State → (Window → Window) → Prop)
    (U : Name → State → Prop) : State → State → Prop :=
  ReflTransGen (Write env T U)

/-- The changes of rectangles a call makes: of which window, as it is in which state. -/
inductive Reshapes (env : Env) :
    Call → State → Handle → State → (Window → Window) → Prop
  | show {s : State} {h : Handle} :
      Reshapes env (.showWindow h) s h s fun w => { w with minimized := false, visible := true }
  | minimizeState {s : State} {h : Handle} {command : Int} {w : Window} {slot : Nat}
      (hw : s.win h = some w) (hm : w.minimized = false)
      (hc : command = swMinimize ∨ command = swShowminimized) (hne : command ≠ swHide) :
      Reshapes env (.setWindowShowState h command) s h s fun w =>
        layoutMinimized env slot (minimizeFields { w with visible := true })
  | showState {s : State} {h : Handle} {command : Int} (hne : command ≠ swHide)
      (hc : ¬ (command = swMinimize ∨ command = swShowminimized)) :
      Reshapes env (.setWindowShowState h command) s h s (showFields command)
  | maximizeButton {s : State} {w : Window} {x y : Int} {f : Window → Window}
      (hw : s.win s.pointer.captionPressHwnd = some w) (hp : s.pointer.captionPressHit = .maximize)
      (hfire : w.visible = true ∧ hitCaptionButton w x y = .maximize)
      (hf : f = if w.minimized then fun w => maximize env (restoreIfNeeded w)
        else if w.maximized then restore else maximize env) :
      Reshapes env (.handleMouseUp x y 1) s s.pointer.captionPressHwnd s f
  | minimizeButton {s : State} {w : Window} {x y : Int} {slot : Nat} {f : Window → Window}
      (hw : s.win s.pointer.captionPressHwnd = some w) (hp : s.pointer.captionPressHit = .minimize)
      (hfire : w.visible = true ∧ hitCaptionButton w x y = .minimize)
      (hf : f = if w.minimized then restoreIfNeeded
        else fun w => layoutMinimized env slot (minimizeFields w)) :
      Reshapes env (.handleMouseUp x y 1) s s.pointer.captionPressHwnd s f
  | rect {s : State} {h : Handle} {x y width height : Int} (hpos : 0 < width ∧ 0 < height) :
      Reshapes env (.setWindowRect h x y width height) s h s fun w =>
        if w.maximized then { w with x, y, width, height }
        else saveRect { w with x, y, width, height }
  | pos {s : State} {h insertAfter : Handle} {x y width height : Int} {flags : Flags} :
      Reshapes env (.setWindowPos h insertAfter x y width height flags) s h s
        (placeFields x y width height flags)
  | resize {s : State} {x y : Int} (hr : s.pointer.resizing = true) :
      Reshapes env (.handleMouseMove x y) s s.pointer.resizeWindow s
        (resizeFields env s.pointer x y)
  | drag {s t : State} {x y nx ny : Int} {w : Window}
      (ht : t = updateCursorForPoint x y (sendToPoint env .mouseMove x y s))
      (hd : t.pointer.dragging = true) (hw : t.win t.pointer.dragWindow = some w)
      (hn : draggedTo env t.pointer w x y = (nx, ny)) (hne : nx ≠ w.x ∨ ny ≠ w.y) :
      Reshapes env (.handleMouseMove x y) s t.pointer.dragWindow t (dragFields nx ny)

def Looks (c : Call) (s : State) (name : Name) (t : State) : Prop :=
  ∃ title x y w h style exstyle owner,
    c = .createWindowEx name title x y w h style exstyle owner ∧ t = s

section Records

variable {s s' s'' : State} {h k : Handle} {o o' : Object} {g : Object → Option Object}
  {f f' : Window → Window} {w : Window}

theorem SameRecord.refl (o : Object) : SameRecord o o := ⟨rfl, rfl, rfl⟩

theorem lookup_count (hg : ∀ o o', g o = some o' → SameRecord o o')
    (ho : (s.alter h g).lookup k = some o') : ∃ o, s.lookup k = some o ∧ SameRecord o o' := by
  rw [State.lookup_alter] at ho
  by_cases hk : k = h
  · subst hk
    rw [if_pos rfl] at ho
    obtain ⟨o, ho, hgo⟩ := Option.bind_eq_some_iff.mp ho
    exact ⟨o, ho, hg o o' hgo⟩
  · rw [if_neg hk] at ho
    exact ⟨o', ho, .refl o'⟩

theorem sameRecord_take (o o' : Object) (ho : some o.take = some o') : SameRecord o o' := by
  cases ho
  exact ⟨rfl, rfl, rfl⟩

theorem sameRecord_leak (o o' : Object) (ho : some o.leak = some o') : SameRecord o o' := by
  cases ho
  exact ⟨rfl, rfl, rfl⟩

theorem sameRecord_markDestroyed (o o' : Object) (ho : some o.markDestroyed = some o') :
    SameRecord o o' := by
  cases ho
  exact ⟨rfl, rfl, rfl⟩

theorem sameRecord_release (o o' : Object) (ho : o.release = some o') : SameRecord o o' := by
  unfold Object.release at ho
  split at ho
  · cases ho
    exact ⟨rfl, rfl, rfl⟩
  · cases ho

theorem sameAt_retain (h : Handle) (s : State) : SameAt h s (retain h s) := fun _ ho =>
  lookup_count sameRecord_take ho

theorem updWin_updWin : updWin h f' (updWin h f s) = updWin h (fun w => f' (f w)) s := by
  unfold updWin
  rw [State.alter_alter]
  congr 1
  funext o
  simp only [Option.bind_some, Object.mapWindow]
  cases o.body <;> rfl

def newObject (name : Name) (body : Body) (serial : Nat) : Object :=
  { name := Ob.storedName name, refs := 1, counted := Nat.one_pos, body, serial, destroyed := false
    leaked := 0 }

structure Created (name : Name) (body : Body) (h : Handle) (s s' : State) : Prop where
  created : s'.created = s.created + 1
  log : s'.log = s.log
  free : s.lookup h = none
  lookup : ∀ k, s'.lookup k = if k = h then some (newObject name body s.created) else s.lookup k

theorem createObject_created {name : Name} {body : Body}
    (hc : createObject true name body s = (some h, s')) : Created name body h s s' := by
  unfold createObject at hc
  cases hf : freeSlot s with
  | none =>
    rw [hf] at hc
    cases hc
  | some i =>
    rw [hf] at hc
    cases hc
    obtain ⟨hlt, hfree⟩ := freeSlot_spec hf
    exact ⟨rfl, rfl, by rw [State.lookup, if_pos hlt, hfree], fun k => lookup_insert hlt k _⟩

theorem created_toggle (slot : Handle) (s : State) : s.created ≤ (toggleOther slot s).created := by
  unfold toggleOther
  split
  · exact Nat.le_succ _
  · split <;> exact Nat.le_refl _

theorem log_toggle (slot : Handle) (s : State) : (toggleOther slot s).log = s.log := by
  unfold toggleOther
  split
  · rfl
  · split <;> rfl

theorem lookup_toggle {slot : Handle} (ho : (toggleOther slot s).lookup k = some o) :
    s.lookup k = some o ∨ o = otherObject s.created := by
  unfold toggleOther at ho
  cases hslot : s.objects slot with
  | none =>
    rw [hslot] at ho
    unfold State.lookup at ho ⊢
    by_cases hk : k = slot
    · subst hk
      simp only [Function.update_self] at ho
      split at ho
      · exact .inr (Option.some.inj ho).symm
      · cases ho
    · simp only [Function.update_of_ne hk] at ho
      exact .inl ho
  | some o' =>
    rw [hslot] at ho
    simp only at ho
    split at ho
    · unfold State.lookup at ho ⊢
      by_cases hk : k = slot
      · subst hk
        simp at ho
      · simp only [Function.update_of_ne hk] at ho
        exact .inl ho
    · exact .inl ho

end Records

section Functions

variable {env : Env} {T : Handle → State → (Window → Window) → Prop} {U : Name → State → Prop} {s s' : State}
  {h k : Handle} {w : Window} {f : Window → Window} {l : List Handle} {n : Nat} {x y : Int}

theorem writes_statics (ho : s'.objects = s.objects) (hc : s'.created = s.created)
    (hl : s'.log = s.log) : Writes env T U s s' :=
  .single (.statics ho hc hl)

theorem writes_pointer (p : Pointer → Pointer) : Writes env T U s (s.setPointer p) :=
  writes_statics rfl rfl rfl

theorem writes_redrawing (b : Bool) : Writes env T U s { s with redrawInProgress := b } :=
  writes_statics rfl rfl rfl

theorem writes_retain (h : Handle) : Writes env T U s (retain h s) := .single (.count sameRecord_take)

theorem writes_dereference : Writes env T U s (dereference h s) := .single (.count sameRecord_release)

theorem writes_leakAll : Writes env T U s (leakAll l s) := by
  induction l generalizing s with
  | nil => exact .refl
  | cons h l ih => exact .head (.count sameRecord_leak) ih

theorem writes_fields (hf : ∀ w, (f w).geo = w.geo ∧ (f w).title = w.title) :
    Writes env T U s (updWin h f s) :=
  .single (.fields hf)

theorem writes_raise (fuel : Nat) : Writes env T U s (raiseWindow fuel h s) := by
  unfold raiseWindow
  split
  · exact writes_statics rfl rfl rfl
  · exact writes_statics rfl rfl rfl

theorem writes_setWindowActive : Writes env T U s (setWindowActive h s) := by
  rw [setWindowActive_eq]
  split
  · have hfold : ∀ (l : List Handle) (s : State), Writes env T U s (l.foldl (markActive h) s) := by
      intro l
      induction l with
      | nil => exact fun _ => .refl
      | cons k l ih =>
        intro s
        rw [List.foldl_cons, markActive_eq]
        refine .trans ?_ (ih _)
        exact writes_fields fun _ => ⟨rfl, rfl⟩
    refine .trans ?_ (hfold _ _)
    exact writes_statics rfl rfl rfl
  · exact .refl

theorem writes_updateCursor : Writes env T U s (updateCursorForPoint x y s) := by
  rw [updateCursorForPoint_eq]
  split
  · exact .refl
  · exact writes_leakAll

theorem writes_send {p : Option Nat} {msg : Msg} {lParam : Nat} :
    Writes env T U s (send env h p msg lParam s) := by
  unfold send
  cases p with
  | none => exact .refl
  | some p =>
    refine .head (.sent (n := s.serialAt h) (m := ⟨h, msg, lParam⟩)) (.single ?_)
    exact .react (r := (p, ⟨h, msg, lParam⟩))

variable {test : Pointer → Handle → Window → Bool}

theorem writes_paintOne :
    Writes env T U s (paintOne env test s n) := by
  unfold paintOne
  cases s.list[n]? with
  | none => exact .refl
  | some h =>
    simp only
    cases hw : s.win h with
    | none => rw [reference_none hw]
    | some w =>
      rw [reference_some hw]
      refine (writes_retain h).trans (.trans ?_ writes_dereference)
      split
      · exact writes_send
      · exact .refl

theorem writes_paintPass :
    Writes env T U s (paintPass env test s) := by
  unfold paintPass
  generalize List.range maxWindows = l
  induction l generalizing s with
  | nil => exact .refl
  | cons n l ih => exact writes_paintOne.trans ih

theorem writes_paintPasses :
    Writes env T U s (paintPasses env test s) :=
  writes_paintPass.trans writes_paintPass

theorem writes_redrawAll : Writes env T U s (win32kRedrawAll env s) := by
  unfold win32kRedrawAll
  split
  · exact .refl
  · simp only [captionPass_eq]
    refine (writes_redrawing true).trans (.trans ?_ (writes_redrawing false))
    exact writes_paintPasses

theorem writes_activateWindow : Writes env T U s (win32kActivateWindow env h s) := by
  unfold win32kActivateWindow
  rw [peek_eq]
  split
  · exact .refl
  · cases s.win h with
    | none => exact .refl
    | some w =>
      simp only
      split
      · exact .refl
      · split
        · exact .refl
        · exact (writes_raise _).trans writes_setWindowActive

theorem writes_sendToPoint {msg : Msg} : Writes env T U s (sendToPoint env msg x y s) := by
  unfold sendToPoint
  rw [findWindowAt_eq]
  simp only
  refine writes_leakAll.trans (b := leakAll (hiddenAt x y s) s) ?_
  split
  · exact .refl
  · cases hw : (leakAll (hiddenAt x y s) s).win (hitAt x y s) with
    | none => rw [reference_none hw]
    | some w =>
      rw [reference_some hw]
      refine (writes_retain (hitAt x y s)).trans (.trans ?_ writes_dereference)
      split
      · exact writes_send
      · exact .refl

theorem writes_beginFastDrag : Writes env T U s (beginFastDrag env h s) := by
  unfold beginFastDrag
  cases hw : s.win h with
  | none => rw [reference_none hw]
  | some w =>
    rw [reference_some hw]
    simp only
    refine (writes_retain h).trans (.trans ?_ ((writes_pointer _).trans writes_dereference))
    split
    · exact .refl
    · exact writes_send

theorem writes_fastDragPresent {oldX oldY : Int} :
    Writes env T U s (fastDragPresent env w oldX oldY s) := by
  unfold fastDragPresent
  rw [captionPass_eq]
  exact writes_paintPasses

theorem writes_paintResized : Writes env T U s (paintResized env w s) := by
  unfold paintResized
  rw [captionPass_eq]
  exact writes_paintPasses

theorem minimizeWindow_eq (env : Env) (h : Handle) (s : State) (hm : w.minimized = false) :
    ∃ slot p, minimizeWindow env h w s =
      (updWin h (fun w => layoutMinimized env slot (minimizeFields w)) s).setPointer p := by
  unfold minimizeWindow layoutMinimizedWindow
  rw [if_neg (by simp [hm])]
  simp only [updWin_updWin]
  split
  · exact ⟨_, _, rfl⟩
  · exact ⟨_, id, rfl⟩

theorem writes_destroyWindow : Writes env T U s (win32kDestroyWindow env h s) := by
  unfold win32kDestroyWindow
  cases hw : s.win h with
  | none => rw [reference_none hw]
  | some w =>
    rw [reference_some hw]
    simp only
    refine (writes_retain h).trans (.trans ?_ (writes_send.trans
      (writes_dereference.trans writes_dereference)))
    refine .trans (b := (removeWindow h (retain h s)).alter h fun o => some o.markDestroyed) ?_ ?_
    · refine .tail ?_ (.count sameRecord_markDestroyed)
      unfold removeWindow
      split
      · exact writes_statics rfl rfl rfl
      · exact .refl
    · split
      · refine .trans ?_ writes_setWindowActive
        exact writes_statics rfl rfl rfl
      · exact .refl

theorem writes_registerClass {className : Name} {style : Flags} {wndProc : Option Nat} :
    Writes env T U s (win32kRegisterClass env className style wndProc s).2 := by
  unfold win32kRegisterClass
  split
  · cases ha : env.kmalloc 1 s with
    | false =>
      simp only [createObject, Bool.false_eq_true, if_false]
      cases freeSlot s <;> exact .refl
    | true =>
      simp only
      cases hc : createObject true className
          (.wndClass ⟨className.take 63, style, wndProc⟩) s with
      | mk r s' =>
        cases r with
        | none =>
          rcases createObject_cases true className
            (.wndClass ⟨className.take 63, style, wndProc⟩) s with heq | ⟨_, _, heq, _⟩
          · rw [hc] at heq
            cases heq
            exact .refl
          · rw [hc] at heq
            cases heq
        | some h => exact .single (.register hc)
  · exact .refl

theorem writes_createWindowByClass {hClass owner : Handle} {title : Name} {w0 h0 : Int}
    {style exstyle : Flags} : Writes env T U s
      (win32kCreateWindowByClass env hClass title x y w0 h0 style exstyle owner s).2 := by
  unfold win32kCreateWindowByClass
  split
  · exact .refl
  · have hclass : Writes env T U s (referenceClass env hClass s).2 := by
      unfold referenceClass
      split
      · exact .refl
      · exact .single (.count sameRecord_take)
    generalize referenceClass env hClass s = r at hclass
    obtain ⟨wc, t⟩ := r
    cases wc with
    | none => exact hclass
    | some wc =>
      refine .trans hclass ?_
      simp only
      split
      · cases hc : createObject (env.kmalloc 1 t) title
            (.window (newWindow wc title x y w0 h0 style exstyle owner)) t with
        | mk r t' =>
          rcases createObject_cases (env.kmalloc 1 t) title
            (.window (newWindow wc title x y w0 h0 style exstyle owner)) t with heq | ⟨h, _, heq, _⟩
          · rw [hc] at heq
            cases heq
            exact writes_dereference
          · rw [hc] at heq
            cases heq
            have halloc : env.kmalloc 1 t = true := by
              by_contra hno
              rw [Bool.not_eq_true] at hno
              rw [hno, createObject] at hc
              cases hf : freeSlot t <;> simp [hf] at hc
            rw [halloc] at hc
            refine .head (.window rfl hc) ?_
            refine .trans (b := insertWindow (newWindow wc title x y w0 h0 style exstyle owner).desktop
              h t') ?_ ?_
            · unfold insertWindow
              split
              · exact writes_statics rfl rfl rfl
              · exact .refl
            · refine .trans ?_ (writes_send.trans writes_dereference)
              split
              · exact .refl
              · exact writes_raise _
      · exact writes_dereference

end Functions

/-! ## Titles -/

section Titles

variable {env : Env} {w : Window} {slot : Nat} {x y width height : Int}

@[simp] theorem title_restoreIfNeeded : (restoreIfNeeded w).title = w.title := by
  unfold restoreIfNeeded
  split <;> rfl

@[simp] theorem title_restore : (restore w).title = w.title := by
  unfold restore
  split <;> rfl

@[simp] theorem title_maximize : (maximize env w).title = w.title := by
  unfold maximize
  split <;> rfl

@[simp] theorem title_showFields {command : Int} : (showFields command w).title = w.title := by
  unfold showFields
  split <;> simp

@[simp] theorem title_placeFields {flags : Flags} :
    (placeFields x y width height flags w).title = w.title := by
  unfold placeFields
  split <;> split <;> split <;> split <;> simp only [] <;> split <;> rfl

@[simp] theorem title_resizeFields {p : Pointer} : (resizeFields env p x y w).title = w.title := by
  unfold resizeFields
  split <;> rfl

@[simp] theorem title_dragFields : (dragFields x y w).title = w.title := title_restore

end Titles

/-! ## The calls -/

section Calls

variable {env : Env} {T : Handle → State → (Window → Window) → Prop} {U : Name → State → Prop} {s t : State}
  {h : Handle} {w : Window} {f : Window → Window} {x y : Int} {button : Nat}

theorem writes_shape (ht : T h t f) (hs : SameAt h t s) (hf : ∀ w, (f w).title = w.title) :
    Writes env T U s (updWin h f s) :=
  .single (.shape ht hs hf)

theorem writes_showWindow (h : Handle) :
    Writes env (Reshapes env (.showWindow h) s) U s (win32kShowWindow env h s) := by
  unfold win32kShowWindow
  cases hw : s.win h with
  | none => rw [reference_none hw]
  | some w =>
    rw [reference_some hw]
    have hshape : Writes env (Reshapes env (.showWindow h) s) U (retain h s)
        (updWin h (fun w => { w with minimized := false, visible := true }) (retain h s)) :=
      writes_shape .show (sameAt_retain h s) fun _ => rfl
    refine (writes_retain h).trans (hshape.trans (.trans ?_ writes_dereference))
    split
    · exact writes_redrawAll
    · exact .refl

theorem writes_setWindowShowState (h : Handle) (command : Int) :
    Writes env (Reshapes env (.setWindowShowState h command) s) U s
      (win32kSetWindowShowState env h command s) := by
  unfold win32kSetWindowShowState
  cases hw : s.win h with
  | none => rw [reference_none hw]
  | some w =>
    rw [reference_some hw]
    simp only
    split
    · refine (writes_retain h).trans (.trans ?_ (writes_dereference.trans writes_redrawAll))
      exact writes_fields fun _ => ⟨rfl, rfl⟩
    · rename_i hne
      refine (writes_retain h).trans ?_
      split
      · rename_i hc
        refine .trans ?_ (writes_dereference.trans (writes_setWindowActive.trans writes_redrawAll))
        cases hm : w.minimized with
        | true =>
          rw [minimizeWindow, if_pos hm]
          exact writes_fields fun _ => ⟨rfl, rfl⟩
        | false =>
          obtain ⟨slot, p, heq⟩ := minimizeWindow_eq env h
            (updWin h (fun w => { w with visible := true }) (retain h s)) hm
          rw [heq, updWin_updWin]
          refine .trans ?_ (writes_pointer p)
          exact writes_shape (.minimizeState hw hm hc hne) (sameAt_retain h s) fun _ => rfl
      · rename_i hc
        refine .trans ?_ (writes_dereference.trans (writes_activateWindow.trans writes_redrawAll))
        exact writes_shape (.showState hne hc) (sameAt_retain h s) fun _ => title_showFields

theorem writes_setWindowRect (h : Handle) (x y width height : Int) :
    Writes env (Reshapes env (.setWindowRect h x y width height) s) U s
      (win32kSetWindowRect h x y width height s) := by
  unfold win32kSetWindowRect
  cases hw : s.win h with
  | none => rw [reference_none hw]
  | some w =>
    rw [reference_some hw]
    refine (writes_retain h).trans (.trans ?_ writes_dereference)
    split
    · rename_i hpos
      refine writes_shape (.rect hpos) (sameAt_retain h s) fun w => ?_
      split <;> rfl
    · exact .refl

theorem writes_setWindowPos (h insertAfter : Handle) (x y width height : Int) (flags : Flags) :
    Writes env (Reshapes env (.setWindowPos h insertAfter x y width height flags) s) U s
      (win32kSetWindowPos env h insertAfter x y width height flags s).2 := by
  unfold win32kSetWindowPos
  cases hw : s.win h with
  | none => rw [reference_none hw]
  | some w =>
    rw [reference_some hw]
    simp only
    refine (writes_retain h).trans ((writes_shape .pos (sameAt_retain h s) fun _ =>
      title_placeFields).trans ?_)
    generalize updWin h (placeFields x y width height flags) (retain h s) = t
    refine .trans ?_ (writes_dereference.trans writes_redrawAll)
    have hraised : Writes env (Reshapes env (.setWindowPos h insertAfter x y width height flags) s) U t
        (if (!flags.has swpNozorder && decide (insertAfter ≠ invalidHandle)) = true then
          raiseWindow env.fuel h (updWin h (topmostFields insertAfter) t) else t) := by
      split
      · refine .trans ?_ (writes_raise _)
        refine writes_fields fun w => ?_
        unfold topmostFields
        split
        · exact ⟨rfl, rfl⟩
        · split <;> exact ⟨rfl, rfl⟩
      · exact .refl
    refine hraised.trans ?_
    generalize (if (!flags.has swpNozorder && decide (insertAfter ≠ invalidHandle)) = true then
      raiseWindow env.fuel h (updWin h (topmostFields insertAfter) t) else t) = u
    split
    · exact writes_setWindowActive
    · exact .refl

theorem writes_doCaptionButtonAction {hit : CaptionHit} (hs : SameAt h t s)
    (hmax : hit = .maximize → ∀ f, (f = if w.minimized then fun w => maximize env (restoreIfNeeded w)
      else if w.maximized then restore else maximize env) → T h t f)
    (hmin : hit = .minimize → ∀ f, (∃ slot, f = if w.minimized then restoreIfNeeded
      else fun w => layoutMinimized env slot (minimizeFields w)) → T h t f) :
    Writes env T U s (doCaptionButtonAction env h w hit s) := by
  cases hit with
  | none => exact .refl
  | close =>
    simp only [doCaptionButtonAction, peek_eq]
    refine .trans (b := send env h w.wndProc .close 0 s) writes_send ?_
    cases (send env h w.wndProc .close 0 s).win h with
    | none => exact .refl
    | some _ => exact writes_destroyWindow
  | maximize =>
    have hshape := hmax rfl _ rfl
    simp only [doCaptionButtonAction]
    split
    · rename_i hm
      rw [if_pos hm] at hshape
      exact writes_shape hshape hs fun _ => by simp
    · rename_i hm
      rw [if_neg hm] at hshape
      split
      · rename_i hx
        rw [if_pos hx] at hshape
        exact writes_shape hshape hs fun _ => title_restore
      · rename_i hx
        rw [if_neg hx] at hshape
        exact writes_shape hshape hs fun _ => title_maximize
  | minimize =>
    simp only [doCaptionButtonAction]
    cases hm : w.minimized with
    | true =>
      have hshape := hmin rfl _ ⟨0, rfl⟩
      rw [if_pos hm] at hshape
      exact (writes_shape hshape hs fun _ => title_restoreIfNeeded).trans writes_setWindowActive
    | false =>
      obtain ⟨slot, p, heq⟩ := minimizeWindow_eq env h s hm
      have hshape := hmin rfl _ ⟨slot, rfl⟩
      rw [if_neg (by simp [hm])] at hshape
      simp only [Bool.false_eq_true, if_false]
      refine .trans ?_ writes_setWindowActive
      rw [heq]
      exact (writes_shape hshape hs fun _ => rfl).trans (writes_pointer p)

theorem writes_handleMouseUp (x y : Int) (button : Nat) :
    Writes env (Reshapes env (.handleMouseUp x y button) s) U s
      (win32kHandleMouseUp env x y button s) := by
  unfold win32kHandleMouseUp
  by_cases hb : button = 1
  · subst hb
    rw [if_neg (not_not.mpr rfl)]
    split
    · refine .trans ?_ writes_redrawAll
      cases hw : s.win s.pointer.captionPressHwnd with
      | none =>
        rw [reference_none hw]
        exact writes_pointer _
      | some w =>
        rw [reference_some hw]
        simp only
        refine (writes_retain s.pointer.captionPressHwnd).trans
          ((writes_pointer .clearCaption).trans (.trans ?_ writes_dereference))
        split
        · rename_i hfire
          rw [Bool.and_eq_true, decide_eq_true_eq] at hfire
          refine writes_doCaptionButtonAction (sameAt_retain _ s) ?_ ?_
          · exact fun hp f hf => .maximizeButton hw hp (hp ▸ hfire) hf
          · rintro hp f ⟨slot, hf⟩
            exact .minimizeButton hw hp (hp ▸ hfire) hf
        · exact .refl
    · simp only
      refine .trans ?_ (writes_sendToPoint.trans writes_updateCursor)
      split
      · split
        · exact (writes_pointer _).trans (writes_pointer _)
        · exact writes_pointer _
      · split
        · exact writes_pointer _
        · exact .refl
  · rw [if_pos hb]

theorem writes_handleMouseDown (x y : Int) (button : Nat) :
    Writes env T U s (win32kHandleMouseDown env x y button s) := by
  unfold win32kHandleMouseDown
  split
  · exact .refl
  · rw [findWindowAt_eq]
    simp only
    refine .trans (b := leakAll (hiddenAt x y s) s) writes_leakAll ?_
    split
    · exact .refl
    · generalize leakAll (hiddenAt x y s) s = t
      generalize hitAt x y s = h
      cases hw : t.win h with
      | none => rw [reference_none hw]
      | some w =>
        rw [reference_some hw]
        simp only
        refine (writes_retain h).trans ?_
        have hraised : Writes env T U (retain h t)
            (if (!w.desktop && !w.exstyle.has wsExNoactivate) = true then
              setWindowActive h (raiseWindow env.fuel h (retain h t)) else retain h t) := by
          split
          · exact (writes_raise _).trans writes_setWindowActive
          · exact .refl
        refine hraised.trans ?_
        generalize (if (!w.desktop && !w.exstyle.has wsExNoactivate) = true then
          setWindowActive h (raiseWindow env.fuel h (retain h t)) else retain h t) = u
        split
        · exact (writes_pointer _).trans (writes_dereference.trans writes_redrawAll)
        · split
          · exact (writes_pointer _).trans (writes_dereference.trans writes_redrawAll)
          · split
            · exact (writes_pointer _).trans (writes_beginFastDrag.trans writes_dereference)
            · refine .trans ?_ writes_dereference
              split
              · exact writes_send
              · exact .refl

theorem writes_handleMouseMove (x y : Int) :
    Writes env (Reshapes env (.handleMouseMove x y) s) U s (win32kHandleMouseMove env x y s) := by
  unfold win32kHandleMouseMove
  split
  · rename_i hr
    rw [Bool.and_eq_true] at hr
    cases hw : s.win s.pointer.resizeWindow with
    | none =>
      rw [reference_none hw]
      exact writes_pointer _
    | some w =>
      rw [reference_some hw]
      simp only [retain_pointer]
      refine (writes_retain _).trans ((writes_shape (.resize hr.1) (sameAt_retain _ s) fun _ =>
        title_resizeFields).trans ?_)
      exact writes_updateCursor.trans (writes_paintResized.trans writes_dereference)
  · simp only
    refine (writes_sendToPoint.trans writes_updateCursor).trans
      (b := updateCursorForPoint x y (sendToPoint env .mouseMove x y s)) ?_
    generalize ht : updateCursorForPoint x y (sendToPoint env .mouseMove x y s) = t
    split
    · exact .refl
    · rename_i hd
      simp only [Bool.or_eq_true, Bool.not_eq_true', not_or, Bool.not_eq_false] at hd
      cases hw : t.win t.pointer.dragWindow with
      | none =>
        rw [reference_none hw]
        exact writes_pointer _
      | some w =>
        rw [reference_some hw]
        simp only [retain_pointer]
        refine (writes_retain t.pointer.dragWindow).trans (.trans ?_ writes_dereference)
        split
        · rename_i hne
          refine .trans ?_ writes_fastDragPresent
          exact writes_shape (.drag ht.symm hd.1 hw rfl hne) (sameAt_retain _ t) fun _ =>
            title_dragFields
        · exact .refl

theorem exec_writes (env : Env) (c : Call) (s : State) :
    Writes env (Reshapes env c s) (Looks c s) s (exec env c s) := by
  cases c with
  | registerClass className style wndProc => exact writes_registerClass
  | createWindowByClass hClass title x y w h style exstyle owner => exact writes_createWindowByClass
  | createWindowEx className title x y w h style exstyle owner =>
    simp only [exec, win32kCreateWindowEx]
    cases hfind : findObject className s with
    | none => exact .refl
    | some hClass =>
      refine .trans (b := s.addLog (.classUsed className (s.serialAt hClass))) ?_
        writes_createWindowByClass
      exact .single (.used ⟨title, x, y, w, h, style, exstyle, owner, rfl, rfl⟩ hfind)
  | destroyWindow h => exact writes_destroyWindow
  | showWindow h => exact writes_showWindow h
  | setWindowShowState h command => exact writes_setWindowShowState h command
  | isWindowMinimized h =>
    simp only [exec, win32kIsWindowMinimized, peek_eq]
    exact .refl
  | updateWindow h =>
    simp only [exec, win32kUpdateWindow]
    cases hw : s.win h with
    | none => rw [reference_none hw]
    | some w =>
      rw [reference_some hw]
      simp only
      refine (writes_retain h).trans ?_
      split
      · exact writes_dereference.trans writes_redrawAll
      · refine .trans ?_ writes_dereference
        split
        · exact .refl
        · exact writes_send
  | getClientRect h =>
    simp only [exec, win32kGetClientRect, peek_eq]
    exact .refl
  | getClientScreenRect h =>
    simp only [exec, win32kGetClientScreenRect, peek_eq]
    exact .refl
  | getWindowRect h =>
    simp only [exec, win32kGetWindowRect, peek_eq]
    exact .refl
  | activateWindow h => exact writes_activateWindow
  | setWindowIcons h bigIcon smallIcon =>
    simp only [exec, win32kSetWindowIcons]
    cases hw : s.win h with
    | none => rw [reference_none hw]
    | some w =>
      rw [reference_some hw]
      refine (writes_retain h).trans (.trans ?_ writes_dereference)
      exact writes_fields fun _ => ⟨rfl, rfl⟩
  | setWindowRect h x y width height => exact writes_setWindowRect h x y width height
  | setWindowPos h insertAfter x y width height flags =>
    exact writes_setWindowPos h insertAfter x y width height flags
  | handleMouseDown x y button => exact writes_handleMouseDown x y button
  | handleMouseUp x y button => exact writes_handleMouseUp x y button
  | handleMouseMove x y => exact writes_handleMouseMove x y
  | redrawAll => exact writes_redrawAll
  | setColorPreview => exact writes_redrawAll
  | other slot => exact .single .other

end Calls

end DiscouNT.Win32k
