import DiscouNT.Win32k.Bands
import DiscouNT.Win32k.Writes

/-!
# Win32k.ShowState

The rectangle of a window that is minimised, maximised and restored.
-/

namespace DiscouNT.Win32k

open Lib Relation Option

def Box.Positive (b : Box) : Prop := 0 < b.width ∧ 0 < b.height

def Env.screen (env : Env) : Box := ⟨0, 0, env.screenWidth, env.screenHeight⟩

/-- The rectangle a window has in each state, `home` being the one it began with. -/
structure ShowLaw (screen home : Box) (g : Geo) : Prop where
  normal : g.minimized = false → g.maximized = false → g.box = home
  maximized : g.minimized = false → g.maximized = true → g.box = screen
  minimized : g.minimized = true →
    g.box.width = minimizedWidth ∧ g.box.height = minimizedWindowHeight

structure ShowInv (screen home : Box) (g : Geo) : Prop extends ShowLaw screen home g where
  minimizedSaved : g.minimized = true → g.maximized = false → g.saved = home
  bothSaved : g.minimized = true → g.maximized = true → g.saved = screen
  maximizedSaved : g.minimized = false → g.maximized = true → g.saved = home ∨ g.saved.Positive

inductive ShowAction where
  | show | maximizeButton | minimizeButton
  | state (command : Int)

def Minimizes (command : Int) : Prop := command = swMinimize ∨ command = swShowminimized

instance (command : Int) : Decidable (Minimizes command) := by unfold Minimizes; infer_instance

def RestoresCommand (command : Int) : Prop := command = swRestore ∨ command = swShownormal

instance (command : Int) : Decidable (RestoresCommand command) := by
  unfold RestoresCommand; infer_instance

/-- What an action does to the fields of its window, with `slot` other minimised windows. -/
def ShowAction.fields (env : Env) (slot : Nat) : ShowAction → Window → Window
  | .show, w => { w with minimized := false, visible := true }
  | .maximizeButton, w =>
    if w.minimized then maximize env (restoreIfNeeded w)
    else if w.maximized then restore w
    else maximize env w
  | .minimizeButton, w =>
    if w.minimized then restoreIfNeeded w else layoutMinimized env slot (minimizeFields w)
  | .state command, w =>
    if command = swHide then { w with visible := false }
    else if Minimizes command then
      if w.minimized then { w with visible := true }
      else layoutMinimized env slot (minimizeFields { w with visible := true })
    else showFields command w

/-- When an action leaves a window as it should: a minimised window is not shown by
`Win32kShowWindow`, unless it is where it belongs; what a maximised window saved is its normal
rectangle; and that can be restored. -/
def ShowAction.Keeps (screen home : Box) (g : Geo) : ShowAction → Prop
  | .show => g.minimized = true → g.box = if g.maximized then screen else home
  | .maximizeButton =>
    g.minimized = false → g.maximized = true → g.saved = home ∧ home.Positive
  | .minimizeButton => g.minimized = true → g.maximized = false → home.Positive
  | .state command => command ≠ swHide → ¬ Minimizes command → RestoresCommand command →
    g.minimized = true → g.maximized = false → home.Positive

section Fields

variable {env : Env} {home screen : Box} {w : Window} {g : Geo} {slot : Nat} {a : ShowAction}

theorem screen_positive (env : Env) : env.screen.Positive := by
  constructor
  · simp only [Env.screen, Env.screenWidth]
    split <;> omega
  · simp only [Env.screen, Env.screenHeight]
    split <;> omega

def Geo.restored (g : Geo) : Box :=
  ⟨g.saved.x, g.saved.y, if 0 < g.saved.width then g.saved.width else g.box.width,
    if 0 < g.saved.height then g.saved.height else g.box.height⟩

theorem restored_of_positive (hp : g.saved.Positive) : g.restored = g.saved := by
  rw [Geo.restored, if_pos hp.1, if_pos hp.2]

theorem restored_eq_iff (hbox : g.box.Positive) (hsaved : g.saved = home ∨ g.saved.Positive) :
    g.restored = home ↔ g.saved = home ∧ home.Positive := by
  constructor
  · intro heq
    rcases hsaved with hs | hp
    · refine ⟨hs, ?_⟩
      have hw := congrArg Box.width heq
      have hh := congrArg Box.height heq
      unfold Geo.restored at hw hh
      obtain ⟨hbw, hbh⟩ := hbox
      simp only [hs] at hw hh
      constructor
      · by_contra hneg
        rw [if_neg hneg] at hw
        omega
      · by_contra hneg
        rw [if_neg hneg] at hh
        omega
    · rw [restored_of_positive hp] at heq
      exact ⟨heq, heq ▸ hp⟩
  · rintro ⟨rfl, hp⟩
    exact restored_of_positive hp

theorem geo_restoreIfNeeded (w : Window) : (restoreIfNeeded w).geo =
    if w.minimized then { w.geo with box := w.geo.restored, minimized := false } else w.geo := by
  unfold restoreIfNeeded
  cases w.minimized <;> rfl

theorem maximized_restoreIfNeeded (w : Window) : (restoreIfNeeded w).maximized = w.maximized := by
  unfold restoreIfNeeded
  cases w.minimized <;> rfl

theorem restored_positive (hbox : g.box.Positive) : g.restored.Positive := by
  obtain ⟨hw, hh⟩ := hbox
  constructor
  · simp only [Geo.restored]
    split <;> omega
  · simp only [Geo.restored]
    split <;> omega

theorem geo_restore (w : Window) : (restore w).geo =
    if w.maximized then { w.geo with box := w.geo.restored, maximized := false } else w.geo := by
  unfold restore
  cases w.maximized <;> rfl

theorem geo_maximize (env : Env) (w : Window) : (maximize env w).geo =
    if w.maximized then w.geo
    else { w.geo with box := env.screen, saved := w.geo.box, maximized := true } := by
  unfold maximize
  cases w.maximized <;> rfl

theorem minimized_positive (hb : g.box.width = minimizedWidth ∧
    g.box.height = minimizedWindowHeight) : g.box.Positive := by
  rw [Box.Positive, hb.1, hb.2]
  decide

theorem unminimize_law (hi : ShowInv screen home g) (hscreen : screen.Positive)
    (hmin : g.minimized = true) {g' : Geo}
    (hg : g' = { g with box := g.restored, minimized := false }) :
    (ShowLaw screen home g' ↔ (g.maximized = false → home.Positive)) ∧
      ((g.maximized = false → home.Positive) → ShowInv screen home g') := by
  subst hg
  have hbox := minimized_positive (hi.minimized hmin)
  cases hmax : g.maximized with
  | true =>
    have hsaved := hi.bothSaved hmin hmax
    have hrestored : g.restored = screen := by
      rw [restored_of_positive (hsaved ▸ hscreen), hsaved]
    have hinv : ShowInv screen home ⟨g.restored, g.saved, false, true⟩ :=
      ⟨⟨nofun, fun _ _ => hrestored, nofun⟩, nofun, nofun, fun _ _ => .inr (hsaved ▸ hscreen)⟩
    exact ⟨⟨fun _ => nofun, fun _ => hinv.toShowLaw⟩, fun _ => hinv⟩
  | false =>
    have hsaved := hi.minimizedSaved hmin hmax
    have hiff := restored_eq_iff hbox (.inl hsaved)
    have hinv : home.Positive → ShowInv screen home ⟨g.restored, g.saved, false, false⟩ := fun hp =>
      ⟨⟨fun _ _ => hiff.mpr ⟨hsaved, hp⟩, nofun, nofun⟩, nofun, nofun, nofun⟩
    exact ⟨⟨fun hl _ => (hiff.mp (hl.normal rfl rfl)).2, fun hp => (hinv (hp rfl)).toShowLaw⟩,
      fun hp => hinv (hp rfl)⟩

theorem minimize_law (hi : ShowInv screen home g) (hmin : g.minimized = false) {g' : Geo}
    {x y : Int} (hg : g' = ⟨⟨x, y, minimizedWidth, minimizedWindowHeight⟩, g.box, true, g.maximized⟩) :
    ShowInv screen home g' := by
  subst hg
  exact ⟨⟨nofun, nofun, fun _ => ⟨rfl, rfl⟩⟩, fun _ hmax => hi.normal hmin hmax,
    fun _ hmax => hi.maximized hmin hmax, nofun⟩

theorem show_law (hi : ShowInv screen home g) (hscreen : screen.Positive) :
    (ShowLaw screen home { g with minimized := false } ↔ ShowAction.show.Keeps screen home g) ∧
      (ShowAction.show.Keeps screen home g → ShowInv screen home { g with minimized := false }) := by
  have hinv : ShowAction.show.Keeps screen home g →
      ShowInv screen home { g with minimized := false } := by
    intro hk
    cases hmin : g.minimized with
    | false =>
      exact ⟨⟨fun _ => hi.normal hmin, fun _ => hi.maximized hmin, nofun⟩, nofun, nofun,
        fun _ => hi.maximizedSaved hmin⟩
    | true =>
      have hbox := hk hmin
      refine ⟨⟨fun _ hmax => ?_, fun _ hmax => ?_, nofun⟩, nofun, nofun, fun _ hmax => ?_⟩
      · exact hbox.trans (if_neg (by simp_all))
      · exact hbox.trans (if_pos hmax)
      · exact .inr (hi.bothSaved hmin hmax ▸ hscreen)
  refine ⟨⟨fun hl _ => ?_, fun hk => (hinv hk).toShowLaw⟩, hinv⟩
  cases hmax : g.maximized with
  | true => exact hl.maximized rfl hmax
  | false => exact hl.normal rfl hmax

section

variable (hi : ShowInv screen home w.geo)
include hi

theorem maximizeButton_law (henv : env.screen = screen) :
    (ShowLaw screen home (ShowAction.maximizeButton.fields env slot w).geo ↔
        ShowAction.maximizeButton.Keeps screen home w.geo) ∧
      (ShowAction.maximizeButton.Keeps screen home w.geo →
        ShowInv screen home (ShowAction.maximizeButton.fields env slot w).geo) := by
  have hscreen : screen.Positive := henv ▸ screen_positive env
  cases hmin : w.minimized with
  | true =>
    have hinv : ShowInv screen home (ShowAction.maximizeButton.fields env slot w).geo := by
      have hbox := minimized_positive (hi.minimized hmin)
      simp only [ShowAction.fields, if_pos hmin, geo_maximize, geo_restoreIfNeeded]
      cases hmax : (restoreIfNeeded w).maximized with
      | true =>
        have hwmax : w.maximized = true := by rwa [maximized_restoreIfNeeded] at hmax
        exact (unminimize_law hi hscreen hmin rfl).2 fun hno => by
          rw [show w.geo.maximized = true from hwmax] at hno
          cases hno
      | false =>
        have hpos : w.geo.restored.Positive := restored_positive hbox
        exact ⟨⟨nofun, fun _ _ => henv, nofun⟩, nofun, nofun, fun _ _ => .inr hpos⟩
    exact ⟨⟨fun _ hno => by simp [Window.geo, hmin] at hno, fun _ => hinv.toShowLaw⟩, fun _ => hinv⟩
  | false =>
    cases hmax : w.maximized with
    | true =>
      have hbox : w.geo.box.Positive := (hi.maximized hmin hmax) ▸ hscreen
      have hiff := restored_eq_iff hbox (hi.maximizedSaved hmin hmax)
      have hgeo : (ShowAction.maximizeButton.fields env slot w).geo =
          ⟨w.geo.restored, w.geo.saved, false, false⟩ := by
        simp only [ShowAction.fields, hmin, hmax, Bool.false_eq_true, if_false, if_true, geo_restore]
        simp [Window.geo, hmin]
      rw [hgeo]
      have hinv : w.geo.saved = home ∧ home.Positive →
          ShowInv screen home ⟨w.geo.restored, w.geo.saved, false, false⟩ := fun hk =>
        ⟨⟨fun _ _ => hiff.mpr hk, nofun, nofun⟩, nofun, nofun, nofun⟩
      refine ⟨⟨fun hl _ _ => hiff.mp (hl.normal rfl rfl), fun hk => ?_⟩, fun hk => ?_⟩
      · exact (hinv (hk hmin hmax)).toShowLaw
      · exact hinv (hk hmin hmax)
    | false =>
      have hgeo : (ShowAction.maximizeButton.fields env slot w).geo =
          ⟨env.screen, w.geo.box, false, true⟩ := by
        simp only [ShowAction.fields, hmin, hmax, Bool.false_eq_true, if_false, geo_maximize]
        simp [Window.geo, hmin]
      have hinv : ShowInv screen home ⟨env.screen, w.geo.box, false, true⟩ :=
        ⟨⟨nofun, fun _ _ => henv, nofun⟩, nofun, nofun, fun _ _ => .inl (hi.normal hmin hmax)⟩
      rw [hgeo]
      exact ⟨⟨fun _ _ hno => by simp [Window.geo, hmax] at hno, fun _ => hinv.toShowLaw⟩,
        fun _ => hinv⟩

theorem minimizeButton_law (henv : env.screen = screen) :
    (ShowLaw screen home (ShowAction.minimizeButton.fields env slot w).geo ↔
        ShowAction.minimizeButton.Keeps screen home w.geo) ∧
      (ShowAction.minimizeButton.Keeps screen home w.geo →
        ShowInv screen home (ShowAction.minimizeButton.fields env slot w).geo) := by
  have hscreen : screen.Positive := henv ▸ screen_positive env
  cases hmin : w.minimized with
  | true =>
    simp only [ShowAction.fields, if_pos hmin, geo_restoreIfNeeded]
    obtain ⟨hiff, hinv⟩ := unminimize_law hi hscreen hmin rfl
    exact ⟨hiff.trans ⟨fun hk _ => hk, fun hk => hk hmin⟩, fun hk => hinv (hk hmin)⟩
  | false =>
    have hinv : ShowInv screen home (ShowAction.minimizeButton.fields env slot w).geo := by
      rw [ShowAction.fields, if_neg (by simp [hmin])]
      exact minimize_law hi hmin rfl
    exact ⟨⟨fun _ hno => by simp [Window.geo, hmin] at hno, fun _ => hinv.toShowLaw⟩, fun _ => hinv⟩

theorem state_law (henv : env.screen = screen) (command : Int) :
    (ShowLaw screen home ((ShowAction.state command).fields env slot w).geo ↔
        (ShowAction.state command).Keeps screen home w.geo) ∧
      ((ShowAction.state command).Keeps screen home w.geo →
        ShowInv screen home ((ShowAction.state command).fields env slot w).geo) := by
  have hscreen : screen.Positive := henv ▸ screen_positive env
  have hsame : ∀ {g : Geo}, g = w.geo → (ShowAction.state command).Keeps screen home w.geo →
      (ShowLaw screen home g ↔ (ShowAction.state command).Keeps screen home w.geo) ∧
        ((ShowAction.state command).Keeps screen home w.geo → ShowInv screen home g) := by
    rintro g rfl hk
    exact ⟨⟨fun _ => hk, fun _ => hi.toShowLaw⟩, fun _ => hi⟩
  simp only [ShowAction.fields]
  split
  · rename_i hhide
    exact hsame rfl fun hno => absurd hhide hno
  · rename_i hhide
    split
    · rename_i hcommand
      have hk : (ShowAction.state command).Keeps screen home w.geo := fun _ hno =>
        absurd hcommand hno
      by_cases hmin : w.minimized = true
      · rw [if_pos hmin]
        exact hsame rfl hk
      · rw [if_neg hmin]
        have hinv := minimize_law (x := (layoutMinimized env slot w).x)
          (y := (layoutMinimized env slot w).y) hi ((Bool.not_eq_true _).mp hmin) rfl
        exact ⟨⟨fun _ => hk, fun _ => hinv.toShowLaw⟩, fun _ => hinv⟩
    · rename_i hcommand
      unfold showFields
      by_cases hrestore : RestoresCommand command
      · simp only [if_pos (show command = swRestore ∨ command = swShownormal from hrestore)]
        rw [geo_restoreIfNeeded]
        by_cases hmin : w.minimized = true
        · rw [if_pos hmin]
          obtain ⟨hiff, hinv⟩ := unminimize_law hi hscreen hmin rfl
          have hkeeps : (ShowAction.state command).Keeps screen home w.geo ↔
              (w.geo.maximized = false → home.Positive) :=
            ⟨fun hk => hk hhide hcommand hrestore hmin, fun hk _ _ _ _ => hk⟩
          exact ⟨hiff.trans hkeeps.symm, fun hk => hinv (hkeeps.mp hk)⟩
        · rw [if_neg hmin]
          exact hsame rfl fun _ _ _ hno => absurd hno hmin
      · simp only [if_neg (show ¬ (command = swRestore ∨ command = swShownormal) from hrestore)]
        exact hsame rfl fun _ _ hno => absurd hno hrestore

theorem fields_law (henv : env.screen = screen) :
    (ShowLaw screen home (a.fields env slot w).geo ↔ a.Keeps screen home w.geo) ∧
      (a.Keeps screen home w.geo → ShowInv screen home (a.fields env slot w).geo) := by
  cases a with
  | «show» => exact show_law hi (henv ▸ screen_positive env)
  | maximizeButton => exact maximizeButton_law hi henv
  | minimizeButton => exact minimizeButton_law hi henv
  | state command => exact state_law hi henv command

end

/-! ## Sequences of actions -/

/-- The law holds before and after each action. The numbers are those of other minimised windows. -/
def Lawful (screen home : Box) (env : Env) : List (ShowAction × Nat) → Window → Prop
  | [], w => ShowLaw screen home w.geo
  | (a, slot) :: l, w => ShowLaw screen home w.geo ∧ Lawful screen home env l (a.fields env slot w)

def Careful (screen home : Box) (env : Env) : List (ShowAction × Nat) → Window → Prop
  | [], _ => True
  | (a, slot) :: l, w =>
    a.Keeps screen home w.geo ∧ Careful screen home env l (a.fields env slot w)

theorem lawful_iff_careful {l : List (ShowAction × Nat)} (hi : ShowInv screen home w.geo)
    (henv : env.screen = screen) : Lawful screen home env l w ↔ Careful screen home env l w := by
  induction l generalizing w with
  | nil => exact ⟨fun _ => trivial, fun _ => hi.toShowLaw⟩
  | cons p l ih =>
    obtain ⟨a, slot⟩ := p
    obtain ⟨hiff, hinv⟩ : (ShowLaw screen home (a.fields env slot w).geo ↔ _) ∧ _ :=
      fields_law hi henv
    constructor
    · rintro ⟨-, hrest⟩
      have hk : a.Keeps screen home w.geo := by
        refine hiff.mp ?_
        cases l with
        | nil => exact hrest
        | cons q l => exact hrest.1
      exact ⟨hk, (ih (hinv hk)).mp hrest⟩
    · rintro ⟨hk, hrest⟩
      exact ⟨hi.toShowLaw, (ih (hinv hk)).mpr hrest⟩

end Fields

/-! ## Runs of calls -/

def State.Has (s : State) (h : Handle) (n : Nat) (w : Window) : Prop :=
  ∃ o, s.lookup h = some o ∧ o.serial = n ∧ o.body = .window w

def Call.action (s : State) : Call → Option ShowAction
  | .showWindow _ => some .show
  | .setWindowShowState _ command => some (.state command)
  | .handleMouseUp _ _ _ =>
    match s.pointer.captionPressHit with
    | .maximize => some .maximizeButton
    | .minimize => some .minimizeButton
    | _ => none
  | _ => none

/-- What the law asks of a call: its action leaves the window with serial `n` as it should, and
other calls do not move or resize it. -/
structure Restrained (screen home : Box) (n : Nat) (env : Env) (c : Call) (s : State) : Prop where
  sameScreen : env.screen = screen
  keeps : ∀ a, c.action s = some a → ∀ h t f w, Reshapes env c s h t f → t.Has h n w →
    a.Keeps screen home w.geo
  stays : c.action s = none → ∀ h t f w, Reshapes env c s h t f → t.Has h n w → (f w).geo = w.geo

/-- Runs of such calls, also by window procedures that are called meanwhile, `depth` deep. -/
def ShowRun (screen home : Box) (n depth : Nat) (s s' : State) : Prop :=
  ReflTransGen (CallsIn exec (Restrained screen home n)
    (Nested exec reacts (Restrained screen home n) (fun _ _ _ => True) depth)) s s'

/-- The law, with the normal rectangle saved where it is not the one the window has. -/
structure Begins (screen home : Box) (g : Geo) : Prop extends ShowInv screen home g where
  saved : g.minimized = false → g.maximized = true → g.saved = home

structure Tracked (screen home : Box) (n : Nat) (s : State) : Prop where
  old : n < s.created
  inv : ∀ h w, s.Has h n w → ShowInv screen home w.geo

section Runs

variable {env : Env} {screen home : Box} {n depth : Nat} {s s' t : State} {h k : Handle} {w w' : Window}
  {f : Window → Window} {c : Call} {a : ShowAction} {T : Handle → State → (Window → Window) → Prop}
  {U : Name → State → Prop}

theorem State.Has.win (hh : s.Has h n w) : s.win h = some w := by
  obtain ⟨o, ho, -, hb⟩ := hh
  exact State.win_eq_some.mpr ⟨o, ho, hb⟩

theorem Reshapes.action (hr : Reshapes env c s h t f) (ha : c.action s = some a)
    (hw : t.win h = some w) : ∃ slot, (f w).geo = (a.fields env slot w).geo := by
  cases hr with
  | «show» =>
    cases ha
    exact ⟨0, rfl⟩
  | @minimizeState _ _ _ w' slot hw' hm hc hne =>
    cases ha
    cases some.inj (hw'.symm.trans hw)
    refine ⟨slot, ?_⟩
    simp only [ShowAction.fields, if_neg hne, if_pos (show Minimizes _ from hc), hm]
    rfl
  | showState hne hc =>
    cases ha
    refine ⟨0, ?_⟩
    simp only [ShowAction.fields, if_neg hne, if_neg (show ¬ Minimizes _ from hc)]
  | maximizeButton hw' hp hfire hf =>
    cases some.inj (hw'.symm.trans hw)
    simp only [Call.action, hp, some.injEq] at ha
    subst ha hf
    refine ⟨0, ?_⟩
    simp only [ShowAction.fields]
    split
    · rfl
    · split <;> rfl
  | @minimizeButton _ _ _ _ slot _ hw' hp hfire hf =>
    cases some.inj (hw'.symm.trans hw)
    simp only [Call.action, hp, some.injEq] at ha
    subst ha hf
    refine ⟨slot, ?_⟩
    simp only [ShowAction.fields]
    split <;> rfl
  | rect _ => cases ha
  | pos => cases ha
  | resize _ => cases ha
  | drag _ _ _ _ _ => cases ha

theorem Restrained.write (hr : Restrained screen home n env c s) (hf : Reshapes env c s h t f)
    (hh : t.Has h n w) (hi : ShowInv screen home w.geo) : ShowInv screen home (f w).geo := by
  cases ha : c.action s with
  | none => rwa [hr.stays ha h t f w hf hh]
  | some a =>
    obtain ⟨slot, heq⟩ := hf.action ha hh.win
    rw [heq]
    exact (fields_law hi hr.sameScreen).2 (hr.keeps a ha h t f w hf hh)

theorem has_updWin (hh : (updWin h f s).Has k n w') :
    ∃ w, s.Has k n w ∧ w' = if k = h then f w else w := by
  obtain ⟨o', ho', hn, hb⟩ := hh
  rw [updWin, State.lookup_alter] at ho'
  by_cases hk : k = h
  · subst hk
    rw [if_pos rfl] at ho'
    obtain ⟨o, ho, heq⟩ := bind_eq_some_iff.mp ho'
    cases heq
    cases hbody : o.body with
    | window w =>
      refine ⟨w, ⟨o, ho, hn, hbody⟩, ?_⟩
      simp only [Object.mapWindow, hbody, Body.mapWindow, Body.window.injEq] at hb
      rw [if_pos rfl, hb]
    | wndClass c => simp [Object.mapWindow, hbody, Body.mapWindow] at hb
    | other => simp [Object.mapWindow, hbody, Body.mapWindow] at hb
  · rw [if_neg hk] at ho'
    exact ⟨w', ⟨o', ho', hn, hb⟩, (if_neg hk).symm⟩

theorem Tracked.write (ht : Tracked screen home n s) (hw : Write env T U s s')
    (hT : ∀ h t f w, T h t f → t.Has h n w → ShowInv screen home w.geo →
      ShowInv screen home (f w).geo)
    (hreact : ∀ r s, Tracked screen home n s → Tracked screen home n (reacts env r s)) :
    Tracked screen home n s' := by
  have hnew : ∀ {name body h s'}, Created name body h s s' → Tracked screen home n s' := by
    intro name body h s' hc
    refine ⟨hc.created ▸ Nat.lt_succ_of_lt ht.old, fun k w hh => ?_⟩
    obtain ⟨o, ho, hn, hb⟩ := hh
    rw [hc.lookup] at ho
    by_cases hk : k = h
    · rw [if_pos hk] at ho
      cases ho
      exact absurd hn (Nat.ne_of_gt ht.old)
    · rw [if_neg hk] at ho
      exact ht.inv k w ⟨o, ho, hn, hb⟩
  cases hw with
  | statics ho hc hl =>
    refine ⟨hc ▸ ht.old, ?_⟩
    rintro k w ⟨o, hlookup, hn, hb⟩
    refine ht.inv k w ⟨o, ?_, hn, hb⟩
    rwa [State.lookup, ho] at hlookup
  | sent => exact ⟨ht.old, ht.inv⟩
  | used _ _ => exact ⟨ht.old, ht.inv⟩
  | count hg =>
    refine ⟨by rw [State.alter_created]; exact ht.old, ?_⟩
    rintro k w ⟨o', ho', hn, hb⟩
    obtain ⟨o, ho, hr⟩ := lookup_count hg ho'
    exact ht.inv k w ⟨o, ho, hr.serial ▸ hn, hr.body ▸ hb⟩
  | @fields h f hf =>
    refine ⟨by rw [updWin_created]; exact ht.old, fun k w' hh => ?_⟩
    obtain ⟨w, hw, rfl⟩ := has_updWin hh
    split
    · rw [(hf w).1]
      exact ht.inv k w hw
    · exact ht.inv k w hw
  | @shape t h f htouch hsame htitle =>
    refine ⟨by rw [updWin_created]; exact ht.old, fun k w' hh => ?_⟩
    obtain ⟨w, hw, rfl⟩ := has_updWin hh
    have hinv := ht.inv k w hw
    split
    · rename_i hk
      subst hk
      obtain ⟨o', ho', hn, hb⟩ := hw
      obtain ⟨o, ho, hr⟩ := hsame o' ho'
      exact hT k t f w htouch ⟨o, ho, hr.serial ▸ hn, hr.body ▸ hb⟩ hinv
    · exact hinv
  | register hc =>
    obtain ⟨hold, hinv⟩ := hnew (createObject_created hc)
    exact ⟨hold, hinv⟩
  | window htitle hc => exact hnew (createObject_created hc)
  | @other slot =>
    refine ⟨ht.old.trans_le (created_toggle slot s), ?_⟩
    rintro k w ⟨o, ho, hn, hb⟩
    rcases lookup_toggle ho with hold | rfl
    · exact ht.inv k w ⟨o, hold, hn, hb⟩
    · cases hb
  | react => exact hreact _ _ ht

theorem Tracked.exec (hr : Restrained screen home n env c s)
    (hreact : ∀ r s, Tracked screen home n s → Tracked screen home n (reacts env r s))
    (ht : Tracked screen home n s) : Tracked screen home n (exec env c s) := by
  have hpath := exec_writes env c s
  generalize Win32k.exec env c s = s' at hpath
  induction hpath with
  | refl => exact ht
  | tail _ hwrite ih => exact ih.write hwrite (fun h t f w => hr.write) hreact

theorem ShowRun.tracked (hrun : ShowRun screen home n depth s s') (ht : Tracked screen home n s) :
    Tracked screen home n s' := by
  refine Nested.run_keeps (J := fun (_ : Unit) => Tracked screen home n) ?_ ?_ (i := ()) hrun ht
  · intro env _ henv _ c s hok hs
    exact Tracked.exec hok (henv ()) hs
  · intro env _ henv c s hok hs
    exact Tracked.exec hok (henv ()) hs

/-- In a run of such calls the window is as it should be in every state. Of the actions on one
window, exactly those of `ShowAction.Keeps` make that so. -/
theorem showStates_kept (hrun : ShowRun screen home n depth s s') (hold : n < s.created)
    (hbegin : ∀ h w, s.Has h n w → Begins screen home w.geo) :
    (∀ h w, s'.Has h n w → ShowLaw screen home w.geo) ∧
      ∀ env l w, env.screen = screen → Begins screen home w.geo →
        (Lawful screen home env l w ↔ Careful screen home env l w) :=
  ⟨fun h w hh => ((hrun.tracked ⟨hold, fun h w hh => (hbegin h w hh).toShowInv⟩).inv h w hh).toShowLaw,
    fun _ _ _ henv hw => lawful_iff_careful hw.toShowInv henv⟩

theorem run_of_all {P : Env → Prop} {ok : Env → Call → State → Prop} {calls : List Call}
    (henv : P env) (hok : ∀ c ∈ calls, ∀ s, ok env c s) :
    ReflTransGen (CallsIn exec ok P) s (runAll env calls s) := by
  induction calls generalizing s with
  | nil => exact .refl
  | cons c calls ih =>
    exact .head ⟨env, c, henv, hok c List.mem_cons_self s, rfl⟩
      (ih fun c' hc => hok c' (List.mem_cons_of_mem _ hc))

theorem restrained_state (henv : env.screen = screen) (hhome : home.Positive) (h : Handle)
    (command : Int) : Restrained screen home n env (.setWindowShowState h command) s where
  sameScreen := henv
  keeps := fun a ha _ _ _ _ _ _ => by
    cases ha
    exact fun _ _ _ _ _ => hhome
  stays := nofun

end Runs

def captioned : Window :=
  { plainWindow (text "Main") invalidHandle with
    style := wsVisible ||| wsCaption ||| wsSysmenu ||| wsMinimizebox ||| wsMaximizebox }

def plainBox : Box := ⟨0, 0, 100, 100⟩

theorem captioned_begins : Begins calm.screen plainBox captioned.geo :=
  ⟨⟨⟨fun _ _ => rfl, nofun, nofun⟩, nofun, nofun, nofun⟩, nofun⟩

theorem desk_has {w w' : Window} {h n : Nat} (hh : (desk [w]).Has h n w') : w' = w := by
  have hwin := hh.win
  cases h with
  | zero => exact (some.inj hwin).symm
  | succ h =>
    unfold State.win State.lookup at hwin
    split at hwin <;> cases hwin

def restoredCalls : List Call := [.setWindowShowState 0 swMinimize, .setWindowShowState 0 swRestore]

theorem showStates_kept_restored :
    (∀ h w, (runAll calm restoredCalls (desk [captioned])).Has h 0 w →
        ShowLaw calm.screen plainBox w.geo) ∧
      ∀ env l w, env.screen = calm.screen → Begins calm.screen plainBox w.geo →
        (Lawful calm.screen plainBox env l w ↔ Careful calm.screen plainBox env l w) := by
  have hproc : Nested exec reacts (Restrained calm.screen plainBox 0) (fun _ _ _ => True) 0 calm :=
    fun _ _ => ⟨trivial, rfl⟩
  have hpos : plainBox.Positive := ⟨by decide, by decide⟩
  have hcalls : ∀ c ∈ restoredCalls, ∀ s, Restrained calm.screen plainBox 0 calm c s := by
    intro c hc s
    obtain rfl | rfl : c = .setWindowShowState 0 swMinimize ∨ c = .setWindowShowState 0 swRestore := by
      simpa [restoredCalls] using hc
    · exact restrained_state rfl hpos 0 swMinimize
    · exact restrained_state rfl hpos 0 swRestore
  refine showStates_kept (run_of_all hproc hcalls) Nat.one_pos fun h w hh => ?_
  rw [desk_has hh]
  exact captioned_begins

def twiceRestored : List Call :=
  [.handleMouseDown 70 10 1, .handleMouseUp 70 10 1, .setWindowShowState 0 swMinimize,
    .setWindowShowState 0 swRestore, .handleMouseDown 610 10 1, .handleMouseUp 610 10 1]

/-- The window is neither minimised nor maximised, and covers the screen. -/
theorem showStates_lost : Begins calm.screen plainBox captioned.geo ∧
    ((runAll calm twiceRestored (desk [captioned])).win 0).map Window.geo =
      some ⟨⟨0, 0, 640, 480⟩, ⟨0, 0, 640, 480⟩, false, false⟩ ∧
    ∃ w, (runAll calm twiceRestored (desk [captioned])).win 0 = some w ∧
      ¬ ShowLaw calm.screen plainBox w.geo := by
  have hgeo : ((runAll calm twiceRestored (desk [captioned])).win 0).map Window.geo =
      some ⟨⟨0, 0, 640, 480⟩, ⟨0, 0, 640, 480⟩, false, false⟩ := by decide +kernel
  obtain ⟨w, hw, hg⟩ := map_eq_some_iff.mp hgeo
  refine ⟨captioned_begins, hgeo, w, hw, fun hlaw => ?_⟩
  rw [hg] at hlaw
  exact absurd (hlaw.normal rfl rfl) (by decide)

end DiscouNT.Win32k
