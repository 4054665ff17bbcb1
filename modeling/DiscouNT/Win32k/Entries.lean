import DiscouNT.Win32k.Calls

/-!
# Win32k.Entries

Every entry point keeps `Sound`, and with it every run of calls (`run_sound`).
-/

namespace DiscouNT.Win32k

open Lib Relation

section Entry

variable {R : Rules} {i : Hold} {env : Env} {s s' : State} {h : Handle} {w : Window} {c : Core}

theorem dead_congr (hc : ∀ k, s'.core k = s.core k) (h : Handle) : s'.Dead h ↔ s.Dead h := by
  rw [State.Dead, State.Dead, hc h]

theorem Recounted.not_dead (hr : Recounted s s') (hd : ¬ s.Dead h) : ¬ s'.Dead h := by
  rintro ⟨c', hc', hd'⟩
  obtain ⟨c, hc, -, hdd, -⟩ := hr.core h c' hc'
  exact hd ⟨c, hc, hdd ▸ hd'⟩

theorem isOwned_congr {a b : Handle → Option Window} {o : Handle}
    (hplace : (a h).map Window.place = (b h).map Window.place) : isOwned a o h = isOwned b o h := by
  have hown : ∀ c : Handle → Option Window,
      isOwned c o h = ((c h).map Window.place).any (·.1 == o) := fun c => by
    rw [Option.any_map]
    rfl
  rw [hown, hown, hplace]

theorem Orderly.congr (ho : Orderly s h) (hl : s'.list = s.list)
    (hplace : ∀ k, (s'.win k).map Window.place = (s.win k).map Window.place) : Orderly s' h := by
  have howns : Owns s'.win s'.list = Owns s.win s.list := by
    funext o c
    rw [Owns, Owns, hl, isOwned_congr (hplace c)]
  have htop : topmostAt s'.win = topmostAt s.win := funext fun k => topmostAt_congr (hplace k)
  intro hh v hv hd
  obtain ⟨u, hu, heq⟩ := win_of_map (hplace h) hv
  have howner : u.owner = v.owner := congrArg (·.1) heq
  have hchain := ho (hl ▸ hh) u hu ((congrArg (·.2.1) heq).trans hd)
  constructor
  · rw [howns, hl, ← howner]
    intro c hc
    have habove := hchain.above c hc
    rw [raisedAt, front, htop] at *
    exact habove
  · rw [howns]
    exact hchain.single

theorem Sound.activateWindow (hs : Sound R i s) (hfuel : enough ≤ env.fuel)
    (ho : ¬ R.bands → Activatable s h → Orderly s h) (hd : R.active → Activatable s h → ¬ s.Dead h) :
    Sound R i (win32kActivateWindow env h s) := by
  unfold win32kActivateWindow
  simp only [peek_eq]
  split
  · exact hs
  · cases hw : s.win h with
    | none => exact hs
    | some w =>
      simp only
      split
      · exact hs
      · rename_i hno
        split
        · exact hs
        · have ha : Activatable s h := ⟨w, hw, by simpa using hno⟩
          refine (hs.raise_placed hfuel fun hr => ho hr ha).activate fun hr => ?_
          obtain ⟨z, hung, he⟩ := raiseWindow_eq env.fuel h s
          rw [he]
          exact hd hr ha

theorem Sound.registerClass (hs : Sound R i s) (className : Name) (style : Flags)
    (wndProc : Option Nat) : Sound R i (win32kRegisterClass env className style wndProc s).2 := by
  unfold win32kRegisterClass
  split
  · rcases createObject_cases (env.kmalloc 1 s) className
        (.wndClass ⟨className.take 63, style, wndProc⟩) s with he | ⟨h, s', he, hb⟩
    · simp only [he]
      exact hs
    · simp only [he]
      exact (hs.born hb rfl).addLog nofun
  · exact hs

theorem referenceClass_cases (env : Env) (h : Handle) (s : State) :
    referenceClass env h s = (none, s) ∨
      ∃ wc c, referenceClass env h s = (some wc, retain h s) ∧ s.core h = some c ∧
        c.kind ≠ .other := by
  unfold referenceClass
  cases ho : s.lookup h with
  | none => exact .inl rfl
  | some o =>
    rw [Option.bind_some]
    cases hb : o.body with
    | wndClass wc =>
      exact .inr ⟨wc, o.core, rfl, core_of_lookup ho, by simp [Object.core, hb, Body.kind]⟩
    | window w =>
      exact .inr ⟨_, o.core, rfl, core_of_lookup ho, by simp [Object.core, hb, Body.kind]⟩
    | other => exact .inl rfl

theorem Sound.createWindowByClass (hs : Sound R i s) (henv : Keeping R env) (hClass : Handle)
    (title : Name) (x y w h : Int) (style exstyle : Flags) (owner : Handle)
    (hfuel : enough ≤ env.fuel)
    (hraise : ¬ R.bands → ∀ k win t, madeByClass env hClass title x y w h style exstyle owner s =
      some (k, win, t) → win.desktop = false → Orderly t k)
    (hcreate : R.bands → ∀ k win t, madeByClass env hClass title x y w h style exstyle owner s =
      some (k, win, t) → win.owner = invalidHandle ∧
        (win.desktop = true → windowIsTopmost win = false) ∧ s.list.length < maxWindows) :
    Sound R i (win32kCreateWindowByClass env hClass title x y w h style exstyle owner s).2 := by
  unfold win32kCreateWindowByClass
  unfold madeByClass at hraise hcreate
  by_cases hinv : hClass = invalidHandle
  · rw [if_pos hinv]
    exact hs
  · rw [if_neg hinv] at hraise hcreate ⊢
    rcases referenceClass_cases env hClass s with he | ⟨wc, c, he, hc, hkind⟩
    · rw [he]
      exact hs
    · rw [he] at hraise hcreate ⊢
      simp only at hraise hcreate ⊢
      have htaken := hs.take hc hkind
      by_cases halloc : env.kmalloc 0 (retain hClass s) = true
      · rw [if_pos halloc] at hraise hcreate ⊢
        have hact : (newWindow wc title x y w h style exstyle owner).active = false := rfl
        generalize newWindow wc title x y w h style exstyle owner = win at hraise hcreate hact ⊢
        rcases createObject_cases (env.kmalloc 1 (retain hClass s)) title (.window win)
          (retain hClass s) with he | ⟨k, s', he, hb⟩
        · rw [he]
          simp only [dereference_retain]
          exact hs
        · rw [he] at hraise hcreate ⊢
          simp only [Option.some.injEq, Prod.mk.injEq] at hraise hcreate ⊢
          obtain ⟨hloose, hplace⟩ := htaken.insertWindow hb hact fun hr => by
            rw [retain_toZOrder]
            exact hcreate hr k win _ ⟨rfl, rfl, rfl⟩
          have hobjects : (Win32k.insertWindow win.desktop k s').objects = s'.objects := by
            unfold Win32k.insertWindow
            split <;> rfl
          have hnew : (Win32k.insertWindow win.desktop k s').win k = some win := by
            rw [win_congr hobjects, hb.win, if_pos rfl]
            rfl
          have hlive : ¬ (Win32k.insertWindow win.desktop k s').Dead k := by
            rintro ⟨d, hd, hdd⟩
            rw [core_congr hobjects, hb.core, if_pos rfl] at hd
            cases hd
            cases hdd
          refine Sound.give ?_
          generalize Win32k.insertWindow win.desktop k s' = t at *
          cases hd : win.desktop with
          | true =>
            simp only [if_true]
            simp only [hd, if_true] at hplace
            exact (⟨hloose.base, hplace, hloose.active, hloose.gesture, hloose.messages⟩ :
              Sound R (i.take hClass) t).sendTo henv hnew (fun _ => hlive) (by decide)
          | false =>
            simp only [Bool.false_eq_true, if_false]
            simp only [hd, Bool.false_eq_true, if_false] at hplace
            obtain ⟨z, hung, he⟩ := raiseWindow_eq env.fuel k t
            have hraised : Sound R (i.take hClass) (raiseWindow env.fuel k t) :=
              hloose.raise hfuel (fun hr => hraise hr k win t ⟨rfl, rfl, rfl⟩ hd) hplace
            rw [he] at hraised ⊢
            exact hraised.sendTo henv hnew (fun _ => hlive) (by decide)
      · rw [if_neg halloc]
        simp only [dereference_retain]
        exact hs

theorem Sound.createWindowEx (hs : Sound R i s) (henv : Keeping R env) (className title : Name)
    (x y w h : Int) (style exstyle : Flags) (owner : Handle)
    (hp : Proper R env (.createWindowEx className title x y w h style exstyle owner) s) :
    Sound R i (win32kCreateWindowEx env className title x y w h style exstyle owner s).2 := by
  have hmade : ∀ hClass, findObject className s = some hClass →
      made env s (.createWindowEx className title x y w h style exstyle owner) =
        madeByClass env hClass title x y w h style exstyle owner
          (s.addLog (.classUsed className (s.serialAt hClass))) := fun hClass hf => by
    rw [made, hf]
  unfold win32kCreateWindowEx
  cases hf : findObject className s with
  | none => exact hs
  | some hClass =>
    refine (hs.addLog (e := .classUsed className (s.serialAt hClass)) nofun).createWindowByClass henv
      hClass title x y w h style exstyle owner hp.fuel (fun hr k win t ht hd => ?_)
      fun hr k win t ht => hp.create hr k win t ((hmade hClass hf).trans ht)
    exact hp.raise hr k t (.create ((hmade hClass hf).trans ht) hd)

theorem startDestroy_core (hc : s.core h = some c) :
    (startDestroy h s).core h = some { c with destroyed := true } ∧
      (startDestroy h s).log = s.log := by
  have hb := buried h s
  unfold startDestroy
  generalize (removeWindow h s).alter h (fun o => some o.markDestroyed) = t at hb
  have hcore : t.core h = some { c with destroyed := true } := by
    rw [hb.core, if_pos rfl, hc]
    rfl
  unfold reelect
  split
  · obtain ⟨-, -, hlog, -⟩ := setWindowActive_statics (findTopmostVisibleWindow t)
      { t with activeWindow := findTopmostVisibleWindow t }
    simp only
    rw [setWindowActive_core, hlog]
    exact ⟨hcore, hb.log⟩
  · exact ⟨hcore, hb.log⟩

/-- Up to the two references that are given back at the end. `j` is what is held meanwhile: of a
window that is destroyed for the first time the creation reference too. -/
theorem Sound.destroying {j : Hold} (hs : Sound R i s) (henv : Keeping R env)
    (hc : s.core h = some c) (hk : c.kind = .window) (p : Option Nat)
    (hcount : ∀ k, k ≠ h → j.count k = i.count k) (hself : j.count h ≤ c.refs + 1)
    (hexact : R.messages → j.count h = i.count h + 2 ∧ c.destroyed = false)
    (hdead : ∀ k, j.dead k → i.dead k ∨ k = h) (hgrip : R.gesture → ¬ Gripped s h) :
    Sound R j (Win32k.send env h p .destroy 0 (Win32k.startDestroy h (retain h s))) := by
  have htaken := hs.take hc (by rw [hk]; decide)
  have hc' : (retain h s).core h = some { c with refs := c.refs + 1 } := by
    rw [core_retain hc, if_pos rfl]
  have hstarted : Sound R j (Win32k.startDestroy h (retain h s)) := by
    refine htaken.startDestroy hc' (by rw [hk]; decide) (fun k hkh => ?_) hself hdead
      (fun hr => ?_) fun hr => ?_
    · simp only [hcount k hkh, Hold.take, Pi.add_apply, Pi.single_eq_of_ne hkh, Nat.add_zero]
    · unfold Gripped
      rw [retain_pointer]
      exact hgrip hr
    · obtain ⟨hj, hd⟩ := hexact hr
      simp only [hd, Hold.take, Pi.add_apply, Pi.single_eq_same, Bool.false_eq_true, if_false]
      omega
  obtain ⟨hcore, hlog⟩ := startDestroy_core hc'
  refine hstarted.send henv hcore hk (fun hr m hin => ?_) fun _ => rfl
  rw [hlog, retain_log] at hin
  exact (hs.messages hr).unsent h c.serial ⟨c, hc, hk, (hexact hr).2, rfl⟩ m hin

theorem Sound.destroyAlive (hs : Sound R i s) (henv : Keeping R env) (ha : s.Alive h)
    (hgrip : R.gesture → ¬ Gripped s h) : Sound R i (win32kDestroyWindow env h s) := by
  obtain ⟨w, hw⟩ := ha.win
  obtain ⟨c, hc, hk, hd⟩ := alive_iff.mp ha
  have hheld := hs.base.held h c hc (by rw [hk]; decide)
  have hcount : ((i.take h).take h).count h = i.count h + 2 := by
    simp only [Hold.take, Pi.add_apply, Pi.single_eq_same]
  rw [destroyWindow_eq env hw]
  refine Sound.give (Sound.give ?_)
  refine hs.destroying henv hc hk w.wndProc (fun k hkh => ?_) ?_ (fun _ => ⟨hcount, hd⟩)
    (fun k hk => .inl hk) hgrip
  · simp only [Hold.take, Pi.add_apply, Pi.single_eq_of_ne hkh, Nat.add_zero]
  · rw [hd] at hheld
    simp only [Bool.false_eq_true, if_false] at hheld
    omega

theorem dead_dereference (hd : s.Dead h) (hc : (dereference h s).core h = some c) :
    c.destroyed = true := by
  obtain ⟨d, hd', hdd⟩ := hd
  rw [core_dereference hd', if_pos rfl] at hc
  split at hc
  · cases hc
    exact hdd
  · cases hc

/-- Another destruction: with both references given back, the window has one less than it should.
That does no harm as long as no call but this one needs it. -/
theorem Sound.destroyDead (hs : Sound R i s) (henv : Keeping R env) (hw : s.win h = some w)
    (hdead : s.Dead h) (hm : ¬ R.messages) (hgrip : R.gesture → ¬ Gripped s h) :
    ∃ t, win32kDestroyWindow env h s = dereference h (dereference h t) ∧ Sound R (i.take h) t ∧
      t.Dead h := by
  obtain ⟨c, hc, hk⟩ := core_of_win hw
  have hheld := hs.base.held h c hc (by rw [hk]; decide)
  refine ⟨_, destroyWindow_eq env hw, ?_, ?_⟩
  all_goals
    have hsent : Sound R (i.bury h)
        (Win32k.send env h w.wndProc .destroy 0 (Win32k.startDestroy h (retain h s))) := by
      refine hs.destroying henv hc hk w.wndProc (fun k hkh => ?_) ?_ (fun hr => absurd hr hm)
        (fun k hk => hk) hgrip
      · simp only [Hold.bury, Pi.add_apply, Pi.single_eq_of_ne hkh, Nat.add_zero]
      · simp only [Hold.bury, Pi.add_apply, Pi.single_eq_same]
        omega
  · exact hsent.forget rfl fun k hk => .inl hk
  · exact hsent.base.dead h (.inr rfl)

theorem Sound.destroyWindow (hs : Sound R i s) (henv : Keeping R env)
    (hgrip : R.gesture → ¬ Gripped s h) (htwice : s.Dead h → i.count h = 0 ∧ ¬ R.messages) :
    Sound R i (win32kDestroyWindow env h s) := by
  cases hw : s.win h with
  | none =>
    unfold win32kDestroyWindow
    rw [reference_none hw]
    exact hs
  | some w =>
    rcases alive_or_dead hw with ha | hd
    · exact hs.destroyAlive henv ha hgrip
    · obtain ⟨hcount, hm⟩ := htwice hd
      obtain ⟨t, he, ht, htd⟩ := hs.destroyDead henv hw hd hm hgrip
      rw [he]
      exact ht.give.drop hcount (fun c hc => dead_dereference htd hc) hm

theorem Sound.destroyHeld (hs : Sound R (i.take h) s) (henv : Keeping R env)
    (hgrip : R.gesture → ¬ Gripped s h) (htwice : s.Dead h → i.count h = 0 ∧ ¬ R.messages) :
    Sound R i (dereference h (win32kDestroyWindow env h s)) := by
  cases hw : s.win h with
  | none =>
    unfold win32kDestroyWindow
    rw [reference_none hw]
    exact hs.give
  | some w =>
    rcases alive_or_dead hw with ha | hd
    · exact (hs.destroyAlive henv ha hgrip).give
    · obtain ⟨hcount, hm⟩ := htwice hd
      obtain ⟨t, he, ht, htd⟩ := hs.destroyDead henv hw hd hm hgrip
      rw [he]
      refine (ht.give.give).drop hcount (fun c hc => ?_) hm
      obtain ⟨d, hd', hdd⟩ := htd
      by_cases hlt : 1 < d.refs
      · exact dead_dereference
          ⟨_, (core_dereference hd').trans ((if_pos rfl).trans (if_pos hlt)), hdd⟩ hc
      · have hnone : (dereference h t).core h = none := by
          rw [core_dereference hd', if_pos rfl, if_neg hlt]
        have hsame : dereference h (dereference h t) = dereference h t :=
          State.alter_id fun o ho => by
            rw [core_of_lookup ho] at hnone
            cases hnone
        rw [hsame, hnone] at hc
        cases hc

theorem same_layoutMinimized (env : Env) (slot : Nat) (w : Window) :
    (layoutMinimized env slot w).place = w.place ∧ (layoutMinimized env slot w).mark = w.mark :=
  ⟨rfl, rfl⟩

theorem same_restoreIfNeeded (w : Window) : (restoreIfNeeded w).place = w.place ∧
    (restoreIfNeeded w).mark = w.mark := by
  unfold restoreIfNeeded
  split <;> exact ⟨rfl, rfl⟩

theorem same_maximize (env : Env) (w : Window) : (maximize env w).place = w.place ∧
    (maximize env w).mark = w.mark := by
  unfold maximize
  split <;> exact ⟨rfl, rfl⟩

theorem same_restore (w : Window) : (restore w).place = w.place ∧ (restore w).mark = w.mark := by
  unfold restore
  split <;> exact ⟨rfl, rfl⟩

theorem same_showFields (command : Int) (w : Window) : (showFields command w).place = w.place ∧
    (showFields command w).mark = w.mark := by
  unfold showFields
  simp only
  split
  · exact same_restoreIfNeeded { w with visible := true }
  · exact ⟨rfl, rfl⟩

theorem exstyle_showFields (command : Int) (w : Window) :
    (showFields command w).exstyle = w.exstyle := by
  unfold showFields restoreIfNeeded
  simp only
  split
  · split <;> rfl
  · rfl

theorem same_dragFields (x y : Int) (w : Window) : (dragFields x y w).place = w.place ∧
    (dragFields x y w).mark = w.mark :=
  same_restore w

theorem same_resizeFields (env : Env) (p : Pointer) (x y : Int) (w : Window) :
    (resizeFields env p x y w).place = w.place ∧ (resizeFields env p x y w).mark = w.mark := by
  unfold resizeFields
  simp only
  split <;> exact ⟨rfl, rfl⟩

theorem placeFields_eq (x y width height : Int) (flags : Flags) (w : Window) :
    ∃ x' y' width' height' restoreWidth' restoreHeight' visible',
      placeFields x y width height flags w =
        { w with
          x := x', y := y', width := width', height := height'
          restoreWidth := restoreWidth', restoreHeight := restoreHeight', visible := visible' } := by
  unfold placeFields
  simp only
  split_ifs <;> exact ⟨_, _, _, _, _, _, _, rfl⟩

theorem Sound.write {f : Window → Window} (hs : Sound R i s)
    (hf : ∀ w, (f w).place = w.place ∧ (f w).mark = w.mark) : Sound R i (updWin h f s) :=
  hs.same (same_updWin (fun w => (hf w).1) (fun w => (hf w).2) h s)

/-! ## Show state -/

theorem not_dead_elected (hs : Base i s) : ¬ s.Dead (findTopmostVisibleWindow s) := by
  rcases elected hs.listed with he | ⟨ha, -⟩
  · rintro ⟨c, hc, -⟩
    rw [he, State.core, lookup_invalidHandle] at hc
    cases hc
  · exact ha.not_dead

theorem Gesture.setPointer {f : Pointer → Pointer} (hg : Gesture s)
    (hdrag : (f s.pointer).dragWindow = invalidHandle ∨
      (f s.pointer).dragWindow = s.pointer.dragWindow ∧
        (f s.pointer).dragSerial = s.pointer.dragSerial ∨
      s.Holds (f s.pointer).dragWindow (f s.pointer).dragSerial)
    (hresize : (f s.pointer).resizeWindow = invalidHandle ∨
      (f s.pointer).resizeWindow = s.pointer.resizeWindow ∧
        (f s.pointer).resizeSerial = s.pointer.resizeSerial ∨
      s.Holds (f s.pointer).resizeWindow (f s.pointer).resizeSerial)
    (hcaption : (f s.pointer).captionPressHwnd = invalidHandle ∧
        (f s.pointer).captionPressWin = none ∨
      (f s.pointer).captionPressHwnd = s.pointer.captionPressHwnd ∧
        (f s.pointer).captionPressWin = s.pointer.captionPressWin ∨
      ∃ n, (f s.pointer).captionPressWin = some n ∧ s.Holds (f s.pointer).captionPressHwnd n) :
    Gesture (s.setPointer f) := by
  constructor
  · rcases hdrag with hd | ⟨hd, hn⟩ | hd
    · exact .inl hd
    · have := hg.drag
      rw [← hd, ← hn] at this
      exact this
    · exact .inr hd
  · rcases hresize with hd | ⟨hd, hn⟩ | hd
    · exact .inl hd
    · have := hg.resize
      rw [← hd, ← hn] at this
      exact this
    · exact .inr hd
  · rcases hcaption with hd | ⟨hd, hn⟩ | hd
    · exact .inl hd
    · have := hg.caption
      rw [← hd, ← hn] at this
      exact this
    · exact .inr hd

section

variable (hs : Sound R i s)
include hs

theorem Sound.minimizeWindow (env : Env) (h : Handle) (w : Window) :
    Sound R i (minimizeWindow env h w s) := by
  unfold Win32k.minimizeWindow layoutMinimizedWindow
  split
  · exact hs
  · have hm : Sound R i (updWin h minimizeFields s) := hs.write fun _ => ⟨rfl, rfl⟩
    have hl := hm.write (h := h)
      (same_layoutMinimized env (minimizedSlot h (updWin h minimizeFields s)))
    simp only
    split
    · exact hl.setPointer fun hr =>
        (hl.gesture hr).setPointer (.inl rfl) (.inr (.inl ⟨rfl, rfl⟩)) (.inr (.inl ⟨rfl, rfl⟩))
    · exact hl

theorem Sound.showWindow (henv : Keeping R env) (h : Handle) :
    Sound R i (win32kShowWindow env h s) := by
  unfold win32kShowWindow
  cases hw : s.win h with
  | none =>
    rw [reference_none hw]
    exact hs
  | some w =>
    rw [reference_some hw]
    refine Sound.give ?_
    have hshown : Sound R (i.take h)
        (updWin h (fun w => { w with minimized := false, visible := true }) (retain h s)) :=
      (hs.take_window hw).write fun _ => ⟨rfl, rfl⟩
    split
    · exact hshown.redrawAll henv
    · exact hshown

theorem Sound.setWindowShowState (henv : Keeping R env) (h : Handle)
    (command : Int) (hp : Proper R env (.setWindowShowState h command) s) :
    Sound R i (win32kSetWindowShowState env h command s) := by
  unfold win32kSetWindowShowState
  cases hw : s.win h with
  | none =>
    rw [reference_none hw]
    exact hs
  | some w =>
    rw [reference_some hw]
    simp only [dereference_updWin_retain]
    by_cases hhide : command = swHide
    · rw [if_pos hhide]
      have hhidden : Sound R i (updWin h (fun w => { w with visible := false }) s) :=
        hs.write fun _ => ⟨rfl, rfl⟩
      exact hhidden.redrawAll henv
    · rw [if_neg hhide]
      by_cases hmin : command = swMinimize ∨ command = swShowminimized
      · rw [if_pos hmin]
        have hvis : Sound R (i.take h)
            (updWin h (fun w => { w with visible := true }) (retain h s)) :=
          (hs.take_window hw).write fun _ => ⟨rfl, rfl⟩
        have hgiven := (hvis.minimizeWindow env h w).give
        exact (hgiven.activate fun _ => not_dead_elected hgiven.base).redrawAll henv
      · rw [if_neg hmin]
        rw [not_or] at hmin
        have hshows : Shows command := ⟨hhide, hmin.1, hmin.2⟩
        have hwritten : Sound R i (updWin h (showFields command) s) :=
          hs.write (same_showFields command)
        have hold : Activatable (updWin h (showFields command) s) h → Activatable s h := by
          rintro ⟨v, hv, hno⟩
          rw [win_updWin, if_pos rfl] at hv
          obtain ⟨u, hu, rfl⟩ := Option.map_eq_some_iff.mp hv
          exact ⟨u, hu, exstyle_showFields command u ▸ hno⟩
        refine (hwritten.activateWindow hp.fuel (fun hr ha => ?_) fun hr ha => ?_).redrawAll henv
        · exact (hp.raise hr h s (.show hshows (hold ha))).congr
            (congrArg ZOrder.list updWin_toZOrder)
            fun k => map_updWin (fun w => (same_showFields command w).1) h k s
        · rw [dead_congr fun k => core_updWin]
          exact hp.activate hr h (.show hshows (hold ha))

theorem Sound.updateWindow (henv : Keeping R env) (h : Handle)
    (hd : R.messages → ∀ w, s.win h = some w → w.minimized = false → w.wndProc ≠ none →
      ¬ s.Dead h) : Sound R i (win32kUpdateWindow env h s) := by
  unfold win32kUpdateWindow
  cases hw : s.win h with
  | none =>
    rw [reference_none hw]
    exact hs
  | some w =>
    rw [reference_some hw]
    simp only [dereference_retain]
    split
    · exact hs.redrawAll henv
    · split
      · rw [dereference_retain]
        exact hs
      · rename_i hmin
        refine Sound.give ?_
        cases hproc : w.wndProc with
        | none => exact hs.take_window hw
        | some p =>
          refine (hs.take_window hw).sendTo henv (by rw [win_retain, hw]) (fun hr => ?_) (by decide)
          refine (recounted_retain h s).not_dead (hd hr w hw (by simpa using hmin) ?_)
          rw [hproc]
          nofun

theorem Sound.setWindowIcons (h bigIcon smallIcon : Handle) :
    Sound R i (win32kSetWindowIcons h bigIcon smallIcon s) := by
  unfold win32kSetWindowIcons
  cases hw : s.win h with
  | none =>
    rw [reference_none hw]
    exact hs
  | some w =>
    rw [reference_some hw]
    simp only [dereference_updWin_retain]
    exact hs.write fun _ => ⟨rfl, rfl⟩

theorem Sound.setWindowRect (h : Handle) (x y width height : Int) :
    Sound R i (win32kSetWindowRect h x y width height s) := by
  unfold win32kSetWindowRect
  cases hw : s.win h with
  | none =>
    rw [reference_none hw]
    exact hs
  | some w =>
    rw [reference_some hw]
    simp only
    split
    · rw [dereference_updWin_retain]
      refine hs.write fun w => ?_
      split <;> exact ⟨rfl, rfl⟩
    · rw [dereference_retain]
      exact hs

theorem Sound.setWindowPos (henv : Keeping R env) (h insertAfter : Handle)
    (x y width height : Int) (flags : Flags)
    (hp : Proper R env (.setWindowPos h insertAfter x y width height flags) s) :
    Sound R i (win32kSetWindowPos env h insertAfter x y width height flags s).2 := by
  unfold win32kSetWindowPos
  cases hw : s.win h with
  | none =>
    rw [reference_none hw]
    exact hs
  | some w =>
    rw [reference_some hw]
    refine (Sound.give ?_).redrawAll henv
    have hplaced : Sound R (i.take h) (updWin h (placeFields x y width height flags) (retain h s)) :=
      (hs.take_window hw).write fun w => by
        obtain ⟨_, _, _, _, _, _, _, he⟩ := placeFields_eq x y width height flags w
        rw [he]
        exact ⟨rfl, rfl⟩
    have hraised : Sound R (i.take h) (if (!flags.has swpNozorder &&
          decide (insertAfter ≠ invalidHandle)) = true then
        raiseWindow env.fuel h (updWin h (topmostFields insertAfter)
          (updWin h (placeFields x y width height flags) (retain h s)))
        else updWin h (placeFields x y width height flags) (retain h s)) ∧
        ∀ k, (if (!flags.has swpNozorder && decide (insertAfter ≠ invalidHandle)) = true then
        raiseWindow env.fuel h (updWin h (topmostFields insertAfter)
          (updWin h (placeFields x y width height flags) (retain h s)))
        else updWin h (placeFields x y width height flags) (retain h s)).core k =
          (retain h s).core k := by
      split
      · rename_i hz
        simp only [Bool.and_eq_true, Bool.not_eq_true', decide_eq_true_eq] at hz
        obtain ⟨hloose, hunplaced⟩ := hplaced.unplace (h := h) hz.2
        constructor
        · refine hloose.raise hp.fuel (fun hr => ?_) hunplaced
          refine (hp.raise hr h _ (.pos hz.1 hz.2)).congr ?_ fun k => ?_
          · simp only [updWin_toZOrder, retain_toZOrder]
          · by_cases hk : k = h
            · subst hk
              simp only [win_updWin, if_true, win_retain, Option.map_map]
              congr 1
              funext w
              obtain ⟨_, _, _, _, _, _, _, he⟩ := placeFields_eq x y width height flags w
              simp only [Function.comp_apply, he]
              unfold topmostFields
              split
              · rfl
              · split <;> rfl
            · simp only [win_updWin, if_neg hk, win_retain]
        · intro k
          obtain ⟨z, hung, he⟩ := raiseWindow_eq env.fuel h (updWin h (topmostFields insertAfter)
            (updWin h (placeFields x y width height flags) (retain h s)))
          rw [he]
          exact core_updWin.trans core_updWin
      · exact ⟨hplaced, fun k => core_updWin⟩
    obtain ⟨hsound, hcore⟩ := hraised
    split
    · rename_i hact
      simp only [Bool.and_eq_true, Bool.not_eq_true'] at hact
      refine hsound.activate fun hr => ?_
      rw [dead_congr hcore]
      exact (recounted_retain h s).not_dead (hp.activate hr h (.pos hact.1 ⟨w, hw, hact.2⟩))
    · exact hsound

/-! ## The mouse -/

theorem Sound.leakHidden (x y : Int) :
    Sound R i (Win32k.leakAll (hiddenAt x y s) s) :=
  hs.leakAll fun _ hk => hiddenIn_windows hk

theorem Sound.updateCursor (x y : Int) :
    Sound R i (updateCursorForPoint x y s) := by
  rw [updateCursorForPoint_eq]
  split
  · exact hs
  · exact hs.leakHidden x y

end

theorem recounted_leakAll (l : List Handle) (s : State) (k : Handle) :
    (leakAll l s).Alive k ↔ s.Alive k := by
  induction l generalizing s with
  | nil => rfl
  | cons h l ih => exact (ih (leakAt s h)).trans (recounted_leakAt h s).alive'

theorem alive_hitAt (hs : Base i s) {x y : Int} (hne : hitAt x y s ≠ invalidHandle) :
    (leakAll (hiddenAt x y s) s).Alive (hitAt x y s) :=
  (recounted_leakAll _ s _).mpr (hs.listed _ (hitAt_mem hne))

theorem Sound.sendToPoint (hs : Sound R i s) (henv : Keeping R env) (msg : Msg)
    (hmsg : msg ≠ .destroy) (x y : Int) : Sound R i (sendToPoint env msg x y s) := by
  unfold Win32k.sendToPoint
  rw [findWindowAt_eq]
  have hleaked := hs.leakHidden x y
  have halive := alive_hitAt (x := x) (y := y) hs.base
  generalize Win32k.leakAll (hiddenAt x y s) s = t at hleaked halive
  generalize hitAt x y s = h at halive
  simp only
  split
  · exact hleaked
  · rename_i hne
    obtain ⟨w, hw⟩ := (halive hne).win
    rw [reference_some hw]
    refine Sound.give ?_
    have htaken := hleaked.take_window hw
    split
    · exact htaken.sendTo henv (by rw [win_retain, hw]) (fun _ =>
        ((recounted_retain h t).alive'.mpr (halive hne)).not_dead) hmsg
    · exact htaken

theorem Sound.beginFastDrag (hs : Sound R i s) (henv : Keeping R env) (ha : ¬ s.Dead h) :
    Sound R i (beginFastDrag env h s) := by
  unfold Win32k.beginFastDrag
  cases hw : s.win h with
  | none =>
    rw [reference_none hw]
    exact hs
  | some w =>
    rw [reference_some hw]
    refine Sound.give ?_
    have htaken := hs.take_window hw
    have hpainted : Sound R (i.take h) (if w.minimized = true then retain h s
        else Win32k.send env h w.wndProc .paint 0 (retain h s)) := by
      split
      · exact htaken
      · exact htaken.sendTo henv (by rw [win_retain, hw])
          (fun _ => (recounted_retain h s).not_dead ha) (by decide)
    exact hpainted.setPointer fun hr => (hpainted.gesture hr).setPointer (.inr (.inl ⟨rfl, rfl⟩))
      (.inr (.inl ⟨rfl, rfl⟩)) (.inr (.inl ⟨rfl, rfl⟩))

theorem holds_serialAt (ha : s.Alive h) : s.Holds h (s.serialAt h) := by
  obtain ⟨c, hc, hk, hd⟩ := alive_iff.mp ha
  exact ⟨c, hc, hk, hd, (State.serialAt_of_core hc).symm⟩

theorem Sound.bringToFront (hs : Sound R i s) (hfuel : enough ≤ env.fuel)
    (b : Bool) (ho : ¬ R.bands → b = true → Orderly s h) (hd : ¬ s.Dead h) :
    Sound R i (if b then Win32k.setWindowActive h (raiseWindow env.fuel h s) else s) ∧
      ∀ k, (if b then Win32k.setWindowActive h (raiseWindow env.fuel h s) else s).core k =
        s.core k := by
  cases b with
  | false => exact ⟨hs, fun _ => rfl⟩
  | true =>
    have hraised := hs.raise_placed hfuel fun hr => ho hr rfl
    obtain ⟨z, hung, he⟩ := raiseWindow_eq env.fuel h s
    simp only [if_true]
    rw [he] at hraised ⊢
    exact ⟨hraised.activate fun _ => hd, fun k => setWindowActive_core h _ k⟩

theorem alive_of_core (hc : ∀ k, s'.core k = s.core k) : s'.Alive h ↔ s.Alive h := by
  rw [alive_iff, alive_iff, hc]

theorem Sound.handleMouseDown (hs : Sound R i s) (henv : Keeping R env) (x y : Int) (button : Nat)
    (hp : Proper R env (.handleMouseDown x y button) s) :
    Sound R i (win32kHandleMouseDown env x y button s) := by
  unfold win32kHandleMouseDown
  by_cases hb : button = 1
  · subst hb
    rw [if_neg (by decide), findWindowAt_eq]
    have horderly : ¬ R.bands → Activatable (Win32k.leakAll (hiddenAt x y s) s) (hitAt x y s) →
        Orderly (Win32k.leakAll (hiddenAt x y s) s) (hitAt x y s) := fun hr ⟨w, hw, hno⟩ =>
      (hp.raise hr _ s (.press ⟨w, win_leakAll ▸ hw, hno⟩)).congr
        (congrArg ZOrder.list leakAll_toZOrder) fun k => by rw [win_leakAll]
    have hleaked := hs.leakHidden x y
    have halive := alive_hitAt (x := x) (y := y) hs.base
    generalize Win32k.leakAll (hiddenAt x y s) s = t at hleaked halive horderly
    generalize hitAt x y s = h at halive horderly
    simp only
    split
    · exact hleaked
    · rename_i hne
      obtain ⟨w, hw⟩ := (halive hne).win
      rw [reference_some hw]
      simp only
      have hlive : (retain h t).Alive h := (recounted_retain h t).alive'.mpr (halive hne)
      obtain ⟨hfront, hcore⟩ := (hleaked.take_window hw).bringToFront hp.fuel
        (!w.desktop && !w.exstyle.has wsExNoactivate) (fun hr hact => by
          simp only [Bool.and_eq_true, Bool.not_eq_true'] at hact
          exact (horderly hr ⟨w, hw, hact.2⟩).congr (congrArg ZOrder.list retain_toZOrder)
            fun k => by rw [win_retain]) hlive.not_dead
      generalize (if (!w.desktop && !w.exstyle.has wsExNoactivate) = true then
        Win32k.setWindowActive h (raiseWindow env.fuel h (retain h t)) else retain h t) = u
        at hfront hcore
      have hlive : u.Alive h := (alive_of_core hcore).mpr hlive
      have hholds := holds_serialAt hlive
      split
      · exact (hfront.setPointer fun hr => (hfront.gesture hr).setPointer (.inr (.inl ⟨rfl, rfl⟩))
          (.inr (.inl ⟨rfl, rfl⟩)) (.inr (.inr ⟨_, rfl, hholds⟩))).give.redrawAll henv
      · split
        · exact (hfront.setPointer fun hr => (hfront.gesture hr).setPointer
            (.inr (.inl ⟨rfl, rfl⟩)) (.inr (.inr hholds))
            (.inr (.inl ⟨rfl, rfl⟩))).give.redrawAll henv
        · split
          · refine Sound.give (Sound.beginFastDrag ?_ henv hlive.not_dead)
            exact hfront.setPointer fun hr => (hfront.gesture hr).setPointer (.inr (.inr hholds))
              (.inr (.inl ⟨rfl, rfl⟩)) (.inr (.inl ⟨rfl, rfl⟩))
          · refine Sound.give ?_
            split
            · obtain ⟨v, hv⟩ := hlive.win
              exact hfront.sendTo henv hv (fun _ => hlive.not_dead) (by decide)
            · exact hfront
  · rw [if_pos hb]
    exact hs

theorem Sound.captionButton {hit : CaptionHit} (hs : Sound R i s) (hhit : hit ≠ .close)
    (hd : R.active → w.minimized = true → hit = .minimize → ¬ s.Dead h) :
    Sound R i (doCaptionButtonAction env h w hit s) := by
  cases hit with
  | none => exact hs
  | close => exact absurd rfl hhit
  | maximize =>
    simp only [doCaptionButtonAction]
    split
    · exact hs.write fun w => ⟨(same_maximize env _).1.trans (same_restoreIfNeeded w).1,
        (same_maximize env _).2.trans (same_restoreIfNeeded w).2⟩
    · split
      · exact hs.write same_restore
      · exact hs.write (same_maximize env)
  | minimize =>
    simp only [doCaptionButtonAction]
    split
    · rename_i hmin
      refine (hs.write same_restoreIfNeeded).activate fun hr => ?_
      rw [dead_congr fun k => core_updWin]
      exact hd hr hmin rfl
    · have hmin := hs.minimizeWindow env h w
      exact hmin.activate fun _ => not_dead_elected hmin.base

theorem Sound.handleMouseUp (hs : Sound R i s) (henv : Keeping R env) (x y : Int) (button : Nat)
    (hp : Proper R env (.handleMouseUp x y button) s)
    (htwice : ∀ h t, Destroys env (.handleMouseUp x y button) s h t → t.Dead h →
      i.count h = 0 ∧ ¬ R.messages) :
    Sound R i (win32kHandleMouseUp env x y button s) := by
  unfold win32kHandleMouseUp
  by_cases hb : button = 1
  · subst hb
    rw [if_neg (by decide)]
    by_cases hcap : s.pointer.captionPressHwnd ≠ invalidHandle
    · rw [if_pos hcap]
      refine Sound.redrawAll ?_ henv
      have hcleared : ∀ {t : State} {j : Hold}, Sound R j t → Sound R j (t.setPointer .clearCaption) :=
        fun ht => ht.setPointer fun hr => (ht.gesture hr).setPointer (.inr (.inl ⟨rfl, rfl⟩))
          (.inr (.inl ⟨rfl, rfl⟩)) (.inl ⟨rfl, rfl⟩)
      cases hw : s.win s.pointer.captionPressHwnd with
      | none =>
        rw [reference_none hw]
        exact hcleared hs
      | some w =>
        rw [reference_some hw]
        simp only
        have htaken := hcleared (hs.take_window hw)
        split
        · rename_i hfire
          rw [Bool.and_eq_true, decide_eq_true_eq] at hfire
          by_cases hhit : s.pointer.captionPressHit = .close
          · have hcloses : Closes x y 1 s := ⟨rfl, hcap, hhit, w, hw, hfire.1, hfire.2.trans hhit⟩
            have hclosing : closing env s = Win32k.send env s.pointer.captionPressHwnd w.wndProc
                .close 0 (State.setPointer .clearCaption (retain s.pointer.captionPressHwnd s)) := by
              rw [closing, hw]
            have hsent : Sound R (i.take s.pointer.captionPressHwnd) (closing env s) := by
              rw [hclosing]
              exact htaken.sendTo henv (by rw [← hw]; exact win_retain) (fun hr =>
                (recounted_retain _ s).not_dead (hp.address hr _ (.close hcloses))) (by decide)
            rw [hhit]
            simp only [doCaptionButtonAction, ← hclosing, peek_eq]
            have hdestroy : Destroys env (.handleMouseUp x y 1) s _ _ := .close hcloses
            cases hv : (closing env s).win s.pointer.captionPressHwnd with
            | none => exact hsent.give
            | some v =>
              exact hsent.destroyHeld henv (fun hr => hp.destroy hr _ _ hdestroy)
                (htwice _ _ hdestroy)
          · refine (htaken.captionButton hhit fun hr hmin heq => ?_).give
            refine (recounted_retain _ s).not_dead (hp.activate hr _ (.caption ?_))
            exact ⟨rfl, hcap, heq, w, hw, hmin, hfire.2.trans heq⟩
        · exact htaken.give
    · rw [if_neg hcap]
      simp only
      have hdrag : Sound R i (if s.pointer.dragging = true then s.setPointer .endDrag else s) := by
        split
        · exact hs.setPointer fun hr => (hs.gesture hr).setPointer (.inl rfl)
            (.inr (.inl ⟨rfl, rfl⟩)) (.inr (.inl ⟨rfl, rfl⟩))
        · exact hs
      generalize (if s.pointer.dragging = true then s.setPointer .endDrag else s) = t at hdrag
      have hresize : Sound R i (if t.pointer.resizing = true then t.setPointer .endResize else t) := by
        split
        · exact hdrag.setPointer fun hr => (hdrag.gesture hr).setPointer (.inr (.inl ⟨rfl, rfl⟩))
            (.inl rfl) (.inr (.inl ⟨rfl, rfl⟩))
        · exact hdrag
      exact (hresize.sendToPoint henv .lButtonUp (by decide) x y).updateCursor x y
  · rw [if_pos hb]
    exact hs

theorem Sound.handleMouseMove (hs : Sound R i s) (henv : Keeping R env) (x y : Int) :
    Sound R i (win32kHandleMouseMove env x y s) := by
  unfold win32kHandleMouseMove
  split
  · rename_i hres
    have hresizing : s.pointer.resizing = true := (Bool.and_eq_true _ _ ▸ hres).1
    cases hw : s.win s.pointer.resizeWindow with
    | none =>
      rw [reference_none hw]
      exact hs.setPointer fun hr => (hs.gesture hr).setPointer (.inr (.inl ⟨rfl, rfl⟩))
        (.inl rfl) (.inr (.inl ⟨rfl, rfl⟩))
    | some w =>
      rw [reference_some hw]
      simp only [retain_pointer, updateCursorForPoint_eq, updWin_pointer, hresizing, if_true]
      have hwritten := (hs.take_window hw).write (h := s.pointer.resizeWindow)
        (same_resizeFields env s.pointer x y)
      obtain ⟨hpainted, hgrip⟩ := hwritten.paintResized henv (resizeFields env s.pointer x y w)
      rw [hgrip.resizeWindow, updWin_pointer, retain_pointer]
      exact hpainted.give
  · have hsent := (hs.sendToPoint henv .mouseMove (by decide) x y).updateCursor x y
    generalize updateCursorForPoint x y (Win32k.sendToPoint env .mouseMove x y s) = t at hsent
    simp only
    split
    · exact hsent
    · cases hw : t.win t.pointer.dragWindow with
      | none =>
        rw [reference_none hw]
        exact hsent.setPointer fun hr => (hsent.gesture hr).setPointer (.inr (.inl ⟨rfl, rfl⟩))
          (.inr (.inl ⟨rfl, rfl⟩)) (.inr (.inl ⟨rfl, rfl⟩))
      | some w =>
        rw [reference_some hw]
        simp only [retain_pointer]
        generalize draggedTo env t.pointer w x y = new
        split
        · have hwritten := (hsent.take_window hw).write (h := t.pointer.dragWindow)
            (same_dragFields new.1 new.2)
          obtain ⟨hpainted, hgrip⟩ := hwritten.fastDragPresent henv (dragFields new.1 new.2 w) w.x w.y
          rw [hgrip.dragWindow, updWin_pointer, retain_pointer]
          exact hpainted.give
        · rw [retain_pointer, dereference_retain]
          exact hsent

/-! ## Calls and runs -/

theorem Sound.exec (hs : Sound R i s) (henv : Keeping R env) (c : Call) (hp : Proper R env c s)
    (htwice : ∀ h t, Destroys env c s h t → t.Dead h → i.count h = 0 ∧ ¬ R.messages) :
    Sound R i (exec env c s) := by
  cases c with
  | registerClass className style wndProc => exact hs.registerClass className style wndProc
  | createWindowByClass hClass title x y w h style exstyle owner =>
    exact hs.createWindowByClass henv hClass title x y w h style exstyle owner hp.fuel
      (fun hr k win t hm hd => hp.raise hr k t (.create hm hd)) fun hr k win t hm =>
      hp.create hr k win t hm
  | createWindowEx className title x y w h style exstyle owner =>
    exact hs.createWindowEx henv className title x y w h style exstyle owner hp
  | destroyWindow h =>
    exact hs.destroyWindow henv (fun hr => hp.destroy hr h s .call) (htwice h s .call)
  | showWindow h => exact hs.showWindow henv h
  | setWindowShowState h command => exact hs.setWindowShowState henv h command hp
  | isWindowMinimized h =>
    simp only [Win32k.exec, win32kIsWindowMinimized, peek_eq]
    exact hs
  | updateWindow h =>
    exact hs.updateWindow henv h fun hr w hw hmin hproc => hp.address hr h (.update hw hmin hproc)
  | getClientRect h =>
    simp only [Win32k.exec, win32kGetClientRect, peek_eq]
    exact hs
  | getClientScreenRect h =>
    simp only [Win32k.exec, win32kGetClientScreenRect, peek_eq]
    exact hs
  | getWindowRect h =>
    simp only [Win32k.exec, win32kGetWindowRect, peek_eq]
    exact hs
  | activateWindow h =>
    exact hs.activateWindow hp.fuel (fun hr ha => hp.raise hr h s (.activate ha)) fun hr ha =>
      hp.activate hr h (.activate ha)
  | setWindowIcons h bigIcon smallIcon => exact hs.setWindowIcons h bigIcon smallIcon
  | setWindowRect h x y width height => exact hs.setWindowRect h x y width height
  | setWindowPos h insertAfter x y width height flags =>
    exact hs.setWindowPos henv h insertAfter x y width height flags hp
  | handleMouseDown x y button => exact hs.handleMouseDown henv x y button hp
  | handleMouseUp x y button => exact hs.handleMouseUp henv x y button hp htwice
  | handleMouseMove x y => exact hs.handleMouseMove henv x y
  | redrawAll => exact hs.redrawAll henv
  | setColorPreview => exact hs.redrawAll henv
  | other slot => exact hs.toggle slot

theorem run_sound {n : Nat} (hrun : Run R n s s') (hs : Sound R .none s) : Sound R .none s' := by
  refine Nested.run_keeps (J := Sound R) (fun e htame hkeep i c s hok hs => ?_)
    (fun e htame hkeep c s hok hs => ?_) hrun hs
  · exact hs.exec ⟨htame, hkeep⟩ c hok.toProper fun h t hd hdead =>
      absurd hdead (hok.alive h t hd)
  · exact hs.exec ⟨htame, hkeep⟩ c hok fun h t hd hdead =>
      ⟨rfl, fun hr => hok.once hr h t hd hdead⟩

theorem started_sound (hs : Started s) : Sound R .none s := by
  have hwin : ∀ h, s.win h = none := fun h => by
    cases ho : s.lookup h with
    | none => exact State.win_none_of_lookup ho
    | some o =>
      have hobj : s.objects h = some o := by
        unfold State.lookup at ho
        split at ho
        · exact ho
        · cases ho
      rw [State.win_of_lookup ho, hs.objects h o hobj]
      rfl
  have hother : ∀ h c, s.core h = some c → c.kind = .other := fun h c hc => by
    obtain ⟨o, ho, rfl⟩ := lookup_of_core hc
    unfold State.lookup at ho
    split at ho
    · rw [Object.core, hs.objects h o ho]
      rfl
    · cases ho
  have halive : ∀ h, ¬ s.Alive h := fun h ha => by
    obtain ⟨w, hw⟩ := ha.win
    rw [hwin] at hw
    cases hw
  have hinit := hs.pointer
  refine ⟨⟨?_, ?_, ?_, ?_, ?_, fun h hh => hh.elim⟩, fun _ => ⟨?_, ?_, ?_, ?_⟩, fun _ => ⟨?_, .inl
    hs.activeWindow⟩, fun _ => ⟨?_, ?_, ?_⟩, fun _ => ⟨?_, ?_, ?_, ?_, ?_, ?_⟩⟩
  · simp [hs.list]
  · simp [hs.list]
  · simp [hs.list]
  · exact fun h c hc hk => absurd (hother h c hc) hk
  · exact fun h hh => absurd rfl hh
  · exact fun h w hw => by rw [hwin] at hw; cases hw
  · exact fun h w hw => by rw [hwin] at hw; cases hw
  · exact fun h hh => absurd hh (halive h)
  · rw [hs.list]
    exact List.Pairwise.nil
  · simp [hs.list]
  · exact .inl (by rw [hinit]; rfl)
  · exact .inl (by rw [hinit]; rfl)
  · exact .inl (by rw [hinit]; exact ⟨rfl, rfl⟩)
  · rw [Silent, hs.log]
    exact List.Pairwise.nil
  · exact fun h n hh => absurd hh.alive (halive h)
  · simp [hs.log]
  · exact fun h c hc hk => by rw [hother h c hc] at hk; cases hk
  · exact fun h h' c c' hc hk => by rw [hother h c hc] at hk; cases hk
  · exact fun h c hc hk => by rw [hother h c hc] at hk; cases hk

end Entry

end DiscouNT.Win32k
