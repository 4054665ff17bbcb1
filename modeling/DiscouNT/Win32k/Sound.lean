import DiscouNT.Win32k.RaiseLaw
import DiscouNT.Win32k.Scan

/-!
# Win32k.Sound

The invariants of the window manager, and the writes that keep them.

They are stated for a state in the middle of calls: a `Hold` says how many references the running
calls still have to give back, the creation reference of a window that is being destroyed among
them. `Base` is what all of them rest on: the entries of `window_list` are windows that were not
destroyed, and an object has as many references as are held, plus the one of its creation.
-/

namespace DiscouNT.Win32k

open Option

inductive Kind where
  | wndClass | window | other
deriving DecidableEq, Repr

def Body.kind : Body → Kind
  | .wndClass _ => .wndClass
  | .window _ => .window
  | .other => .other

structure Core where
  refs : Nat
  serial : Nat
  destroyed : Bool
  leaked : Nat
  kind : Kind

def Object.core (o : Object) : Core := ⟨o.refs, o.serial, o.destroyed, o.leaked, o.body.kind⟩

def State.core (s : State) (h : Handle) : Option Core := (s.lookup h).map Object.core

/-- `Win32kDestroyWindow` was called for the window, and it is still there. -/
def State.Dead (s : State) (h : Handle) : Prop := ∃ c, s.core h = some c ∧ c.destroyed = true

def Window.place (w : Window) : Handle × Bool × Bool := (w.owner, w.desktop, windowIsTopmost w)

def Window.mark (w : Window) : Bool × Bool := (w.desktop, w.active)

/-- The references the running calls have to give back, and the objects among them that are known
to be destroyed. -/
structure Hold where
  count : Handle → Nat
  dead : Handle → Prop
  held : ∀ h, dead h → count h ≠ 0

namespace Hold

def none : Hold := ⟨fun _ => 0, fun _ => False, fun _ => False.elim⟩

def take (h : Handle) (i : Hold) : Hold :=
  ⟨i.count + Pi.single h 1, i.dead, fun k hk hz => i.held k hk (by
    rw [Pi.add_apply] at hz
    omega)⟩

def bury (h : Handle) (i : Hold) : Hold :=
  ⟨i.count + Pi.single h 1, fun k => i.dead k ∨ k = h, by
    rintro k (hk | rfl) hz
    · rw [Pi.add_apply] at hz
      exact i.held k hk (by omega)
    · rw [Pi.add_apply, Pi.single_eq_same] at hz
      omega⟩

end Hold

structure Base (i : Hold) (s : State) : Prop where
  nodup : s.list.Nodup
  short : s.list.length ≤ maxWindows
  listed : ∀ h ∈ s.list, s.Alive h
  held : ∀ h c, s.core h = some c → c.kind ≠ .other →
    i.count h + (if c.destroyed then 0 else 1) ≤ c.refs
  present : ∀ h, i.count h ≠ 0 → ∃ c, s.core h = some c ∧ c.kind ≠ .other
  dead : ∀ h, i.dead h → s.Dead h

def desktopAt (read : Handle → Option Window) (h : Handle) : Bool := (read h).any (·.desktop)

def Ordered (read : Handle → Option Window) (l : List Handle) : Prop :=
  l.Pairwise fun a b => (desktopAt read b = true → desktopAt read a = true) ∧
    (topmostAt read a = true → topmostAt read b = true)

structure Bands (s : State) : Prop where
  unowned : ∀ h w, s.win h = some w → w.owner = invalidHandle
  apart : ∀ h w, s.win h = some w → w.desktop = true → windowIsTopmost w = false
  all : ∀ h, s.Alive h → h ∈ s.list
  order : Ordered s.win s.list

structure Active (s : State) : Prop where
  flags : ∀ h ∈ s.list, ∀ w, s.win h = some w → (w.active = true ↔ h = s.activeWindow)
  current : s.activeWindow = invalidHandle ∨
    s.Alive s.activeWindow ∧ ∃ w, s.win s.activeWindow = some w ∧ w.desktop = false

def State.Holds (s : State) (h : Handle) (serial : Nat) : Prop :=
  ∃ c, s.core h = some c ∧ c.kind = .window ∧ c.destroyed = false ∧ c.serial = serial

structure Gesture (s : State) : Prop where
  drag : s.pointer.dragWindow = invalidHandle ∨ s.Holds s.pointer.dragWindow s.pointer.dragSerial
  resize : s.pointer.resizeWindow = invalidHandle ∨
    s.Holds s.pointer.resizeWindow s.pointer.resizeSerial
  caption : s.pointer.captionPressHwnd = invalidHandle ∧ s.pointer.captionPressWin = none ∨
    ∃ n, s.pointer.captionPressWin = some n ∧ s.Holds s.pointer.captionPressHwnd n

/-- After `WM_DESTROY` the window with that serial is sent nothing more. The log has the newest
event first. -/
def Silent (log : List Event) : Prop :=
  log.Pairwise fun newer older => ∀ n m m', older = .sent n m → m.msg = .destroy →
    newer ≠ .sent n m'

structure Messages (i : Hold) (s : State) : Prop where
  silent : Silent s.log
  unsent : ∀ h n, s.Holds h n → ∀ m, Event.sent n m ∈ s.log → m.msg ≠ .destroy
  past : ∀ n m, Event.sent n m ∈ s.log → n < s.created
  fresh : ∀ h c, s.core h = some c → c.kind = .window → c.serial < s.created
  apart : ∀ h h' c c', s.core h = some c → c.kind = .window → s.core h' = some c' →
    c'.kind = .window → c'.serial = c.serial → h' = h
  exact : ∀ h c, s.core h = some c → c.kind = .window →
    c.refs = i.count h + (if c.destroyed then 0 else 1) + c.leaked

/-- Which invariants are kept besides `Base`. -/
structure Rules where
  bands : Prop
  active : Prop
  gesture : Prop
  messages : Prop

structure Sound (R : Rules) (i : Hold) (s : State) : Prop where
  base : Base i s
  bands : R.bands → Bands s
  active : R.active → Active s
  gesture : R.gesture → Gesture s
  messages : R.messages → Messages i s

section Objects

variable {s s' : State} {h k : Handle} {o : Object} {w : Window} {c : Core} {n : Nat}
  {g : Object → Option Object}

theorem Body.kind_eq_window {b : Body} (hb : b.kind = .window) : ∃ w, b = .window w := by
  cases b with
  | window w => exact ⟨w, rfl⟩
  | wndClass c => cases hb
  | other => cases hb

theorem core_of_lookup (ho : s.lookup h = some o) : s.core h = some o.core := by
  rw [State.core, ho]
  rfl

theorem lookup_of_core (hc : s.core h = some c) : ∃ o, s.lookup h = some o ∧ o.core = c :=
  map_eq_some_iff.mp hc

theorem core_pos (hc : s.core h = some c) : 0 < c.refs := by
  obtain ⟨o, -, rfl⟩ := lookup_of_core hc
  exact o.counted

theorem core_of_win (hw : s.win h = some w) : ∃ c, s.core h = some c ∧ c.kind = .window := by
  obtain ⟨o, ho, hb⟩ := State.win_eq_some.mp hw
  exact ⟨o.core, core_of_lookup ho, by rw [Object.core, hb]; rfl⟩

theorem alive_iff : s.Alive h ↔ ∃ c, s.core h = some c ∧ c.kind = .window ∧ c.destroyed = false := by
  constructor
  · rintro ⟨o, w, ho, hb, hd⟩
    exact ⟨o.core, core_of_lookup ho, by rw [Object.core, hb]; rfl, hd⟩
  · rintro ⟨c, hc, hk, hd⟩
    obtain ⟨o, ho, rfl⟩ := lookup_of_core hc
    obtain ⟨w, hw⟩ := Body.kind_eq_window hk
    exact ⟨o, w, ho, hw, hd⟩

theorem State.Alive.win (ha : s.Alive h) : ∃ w, s.win h = some w := by
  obtain ⟨o, w, ho, hb, -⟩ := ha
  exact ⟨w, State.win_eq_some.mpr ⟨o, ho, hb⟩⟩

theorem State.Alive.not_dead (ha : s.Alive h) : ¬ s.Dead h := by
  rintro ⟨c', hc', hd'⟩
  obtain ⟨c, hc, -, hd⟩ := alive_iff.mp ha
  rw [some.inj (hc.symm.trans hc'), hd'] at hd
  cases hd

theorem State.Holds.alive (hh : s.Holds h n) : s.Alive h := by
  obtain ⟨c, hc, hk, hd, -⟩ := hh
  exact alive_iff.mpr ⟨c, hc, hk, hd⟩

theorem alive_or_dead (hw : s.win h = some w) : s.Alive h ∨ s.Dead h := by
  obtain ⟨c, hc, hk⟩ := core_of_win hw
  cases hd : c.destroyed with
  | false => exact .inl (alive_iff.mpr ⟨c, hc, hk, hd⟩)
  | true => exact .inr ⟨c, hc, hd⟩

theorem lookup_invalidHandle : s.lookup invalidHandle = none := if_neg (by decide)

theorem State.Alive.ne_invalid (ha : s.Alive h) : h ≠ invalidHandle := by
  rintro rfl
  obtain ⟨o, w, ho, -⟩ := ha
  rw [lookup_invalidHandle] at ho
  cases ho

theorem win_invalidHandle : s.win invalidHandle = none :=
  State.win_none_of_lookup lookup_invalidHandle

theorem core_alter : (s.alter h g).core k =
    if k = h then ((s.lookup h).bind g).map Object.core else s.core k := by
  unfold State.core
  rw [State.lookup_alter]
  split <;> rfl

theorem win_alter_ne (hk : k ≠ h) : (s.alter h g).win k = s.win k := by
  unfold State.win
  rw [State.lookup_alter_ne hk]

theorem State.serialAt_of_core (hc : s.core h = some c) : s.serialAt h = c.serial := by
  obtain ⟨o, ho, rfl⟩ := lookup_of_core hc
  rw [State.serialAt, ho]
  rfl

theorem kind_mapWindow (f : Window → Window) (b : Body) : (b.mapWindow f).kind = b.kind := by
  cases b <;> rfl

@[simp] theorem core_mapWindow (f : Window → Window) : (o.mapWindow f).core = o.core := by
  simp only [Object.core, Object.mapWindow, kind_mapWindow]

@[simp] theorem core_updWin {f : Window → Window} : (updWin h f s).core k = s.core k := by
  rw [updWin, core_alter]
  by_cases hk : k = h
  · subst hk
    rw [if_pos rfl, State.core]
    cases s.lookup k with
    | none => rfl
    | some o => exact congrArg some (core_mapWindow f)
  · rw [if_neg hk]

theorem win_updWin {f : Window → Window} :
    (updWin h f s).win k = if k = h then (s.win h).map f else s.win k := by
  by_cases hk : k = h
  · subst hk
    rw [if_pos rfl]
    unfold State.win
    rw [updWin, State.lookup_alter_self]
    cases s.lookup k with
    | none => rfl
    | some o =>
      simp only [bind_some, Object.mapWindow]
      cases o.body <;> rfl
  · rw [if_neg hk, updWin, win_alter_ne hk]

end Objects

/-! ## Writes that keep everything -/

/-- The list, the statics and all that the invariants read in a window are as before. -/
structure Same (s s' : State) : Prop where
  list : s'.list = s.list
  activeWindow : s'.activeWindow = s.activeWindow
  pointer : s'.pointer = s.pointer
  log : s'.log = s.log
  created : s'.created = s.created
  core : ∀ h, s'.core h = s.core h
  place : ∀ h, (s'.win h).map Window.place = (s.win h).map Window.place
  mark : ∀ h, (s'.win h).map Window.mark = (s.win h).map Window.mark

/-- Only reference counts are not as before, and windows that were destroyed may be gone. -/
structure Recounted (s s' : State) : Prop where
  list : s'.list = s.list
  activeWindow : s'.activeWindow = s.activeWindow
  pointer : s'.pointer = s.pointer
  log : s'.log = s.log
  created : s'.created = s.created
  win : ∀ h w, s'.win h = some w → s.win h = some w
  alive : ∀ h, s.Alive h → s'.win h = s.win h
  core : ∀ h c', s'.core h = some c' → ∃ c, s.core h = some c ∧ c'.serial = c.serial ∧
    c'.destroyed = c.destroyed ∧ c'.kind = c.kind
  stays : ∀ h c, s.core h = some c → c.kind ≠ .other → c.destroyed = false → (s'.core h).isSome

section Kept

variable {R : Rules} {i : Hold} {s s' s'' : State} {h k : Handle} {o : Object} {w : Window} {c : Core}
  {n : Nat} {g : Object → Option Object} {read read' : Handle → Option Window} {l : List Handle}

theorem Ordered.congr (hd : ∀ h ∈ l, desktopAt read' h = desktopAt read h)
    (ht : ∀ h ∈ l, topmostAt read' h = topmostAt read h) (ho : Ordered read l) :
    Ordered read' l := by
  refine List.Pairwise.imp_of_mem (fun {a b} ha hb hab => ?_) ho
  rw [hd a ha, hd b hb, ht a ha, ht b hb]
  exact hab

theorem Ordered.erase (ho : Ordered read l) (h : Handle) : Ordered read (l.erase h) :=
  ho.sublist List.erase_sublist

theorem win_of_map {α : Type} {f : Window → α} {a : Option Window}
    (hmap : (s'.win h).map f = a.map f) (hw : s'.win h = some w) :
    ∃ w', a = some w' ∧ f w' = f w := by
  rw [hw, map_some] at hmap
  exact map_eq_some_iff.mp hmap.symm

theorem desktopAt_congr {a b : Handle → Option Window}
    (hplace : (a h).map Window.place = (b h).map Window.place) : desktopAt a h = desktopAt b h := by
  have hdesk : ∀ c : Handle → Option Window,
      desktopAt c h = ((c h).map Window.place).any (·.2.1) := fun c => by
    rw [Option.any_map]
    rfl
  rw [hdesk, hdesk, hplace]

theorem topmostAt_congr {a b : Handle → Option Window}
    (hplace : (a h).map Window.place = (b h).map Window.place) : topmostAt a h = topmostAt b h := by
  have htop : ∀ c : Handle → Option Window,
      topmostAt c h = ((c h).map Window.place).any (·.2.2) := fun c => by
    rw [Option.any_map]
    rfl
  rw [htop, htop, hplace]

theorem Base.congr (hs : Base i s) (hl : s'.list = s.list) (hc : ∀ h, s'.core h = s.core h) :
    Base i s' where
  nodup := hl ▸ hs.nodup
  short := hl ▸ hs.short
  listed := fun h hh => alive_iff.mpr (by
    rw [hc h]
    exact alive_iff.mp (hs.listed h (hl ▸ hh)))
  held := fun h c hc' => hs.held h c (hc h ▸ hc')
  present := fun h hh => by rw [hc h]; exact hs.present h hh
  dead := fun h hh => by rw [State.Dead, hc h]; exact hs.dead h hh

theorem Gesture.congr (hs : Gesture s) (hp : s'.pointer = s.pointer)
    (hc : ∀ h, s'.core h = s.core h) : Gesture s' := by
  have hh : ∀ h n, s'.Holds h n ↔ s.Holds h n := fun h n => by
    rw [State.Holds, State.Holds, hc h]
  constructor
  · rw [hp, hh]
    exact hs.drag
  · rw [hp, hh]
    exact hs.resize
  · rw [hp]
    simp only [hh]
    exact hs.caption

theorem Messages.congr (hs : Messages i s) (hlog : s'.log = s.log) (hcr : s.created ≤ s'.created)
    (hc : ∀ h, s'.core h = s.core h) : Messages i s' where
  silent := hlog ▸ hs.silent
  unsent := fun h n hh => by
    rw [State.Holds, hc h] at hh
    rw [hlog]
    exact hs.unsent h n hh
  past := fun n m hin => (hs.past n m (hlog ▸ hin)).trans_le hcr
  fresh := fun h c hc' hk => (hs.fresh h c (hc h ▸ hc') hk).trans_le hcr
  apart := fun h h' c c' h1 hk h2 => hs.apart h h' c c' (hc h ▸ h1) hk (hc h' ▸ h2)
  exact := fun h c hc' => hs.exact h c (hc h ▸ hc')

theorem Bands.congr (hs : Bands s) (hl : s'.list = s.list) (hc : ∀ h, s'.core h = s.core h)
    (hplace : ∀ h, (s'.win h).map Window.place = (s.win h).map Window.place) : Bands s' where
  unowned := fun h w hw => by
    obtain ⟨w', hw', heq⟩ := win_of_map (hplace h) hw
    exact (congrArg (·.1) heq).symm.trans (hs.unowned h w' hw')
  apart := fun h w hw hd => by
    obtain ⟨w', hw', heq⟩ := win_of_map (hplace h) hw
    exact (congrArg (·.2.2) heq).symm.trans (hs.apart h w' hw' ((congrArg (·.2.1) heq).trans hd))
  all := fun h hh => by
    rw [alive_iff, hc h, ← alive_iff] at hh
    exact hl ▸ hs.all h hh
  order := by
    rw [hl]
    exact hs.order.congr (fun h _ => desktopAt_congr (hplace h)) fun h _ =>
      topmostAt_congr (hplace h)

theorem Active.congr (hs : Active s) (hl : s'.list = s.list)
    (hact : s'.activeWindow = s.activeWindow) (hc : ∀ h, s'.core h = s.core h)
    (hmark : ∀ h, (s'.win h).map Window.mark = (s.win h).map Window.mark) : Active s' where
  flags := fun h hh w hw => by
    obtain ⟨w', hw', heq⟩ := win_of_map (hmark h) hw
    have hflag : w'.active = w.active := congrArg (·.2) heq
    rw [← hflag, hact]
    exact hs.flags h (hl ▸ hh) w' hw'
  current := by
    rw [hact]
    refine hs.current.imp_right fun ⟨ha, w, hw, hd⟩ => ⟨?_, ?_⟩
    · rw [alive_iff, hc, ← alive_iff]
      exact ha
    · have heq := hmark s.activeWindow
      rw [hw, map_some] at heq
      obtain ⟨w', hw', he⟩ := map_eq_some_iff.mp heq
      exact ⟨w', hw', (congrArg (·.1) he).trans hd⟩

theorem Sound.same (hs : Sound R i s) (hss : Same s s') : Sound R i s' where
  base := hs.base.congr hss.list hss.core
  bands := fun hr => (hs.bands hr).congr hss.list hss.core hss.place
  active := fun hr => (hs.active hr).congr hss.list hss.activeWindow hss.core hss.mark
  gesture := fun hr => (hs.gesture hr).congr hss.pointer hss.core
  messages := fun hr => (hs.messages hr).congr hss.log hss.created.ge hss.core

theorem map_updWin {α : Type} {p : Window → α} {f : Window → Window} (hf : ∀ w, p (f w) = p w)
    (h k : Handle) (s : State) : ((updWin h f s).win k).map p = (s.win k).map p := by
  rw [win_updWin]
  by_cases hk : k = h
  · subst hk
    rw [if_pos rfl]
    cases s.win k with
    | none => rfl
    | some w => exact congrArg some (hf w)
  · rw [if_neg hk]

theorem same_updWin {f : Window → Window} (hp : ∀ w, (f w).place = w.place)
    (hm : ∀ w, (f w).mark = w.mark) (h : Handle) (s : State) : Same s (updWin h f s) where
  list := congrArg ZOrder.list updWin_toZOrder
  activeWindow := updWin_activeWindow
  pointer := updWin_pointer
  log := updWin_log
  created := updWin_created
  core := fun _ => core_updWin
  place := fun k => map_updWin hp h k s
  mark := fun k => map_updWin hm h k s

/-! ## References taken and given back -/

theorem Recounted.alive' (hr : Recounted s s') : s'.Alive h ↔ s.Alive h := by
  rw [alive_iff, alive_iff]
  constructor
  · rintro ⟨c', hc', hk, hd⟩
    obtain ⟨c, hc, -, hd', hk'⟩ := hr.core h c' hc'
    exact ⟨c, hc, hk' ▸ hk, hd' ▸ hd⟩
  · rintro ⟨c, hc, hk, hd⟩
    obtain ⟨c', hc'⟩ := isSome_iff_exists.mp (hr.stays h c hc (by rw [hk]; decide) hd)
    obtain ⟨c0, hc0, -, hd', hk'⟩ := hr.core h c' hc'
    obtain rfl := some.inj (hc.symm.trans hc0)
    exact ⟨c', hc', hk'.trans hk, hd'.trans hd⟩

theorem Recounted.holds (hr : Recounted s s') : s'.Holds h n ↔ s.Holds h n := by
  constructor
  · rintro ⟨c', hc', hk, hd, hn⟩
    obtain ⟨c, hc, hn', hd', hk'⟩ := hr.core h c' hc'
    exact ⟨c, hc, hk' ▸ hk, hd' ▸ hd, hn' ▸ hn⟩
  · rintro ⟨c, hc, hk, hd, hn⟩
    obtain ⟨c', hc'⟩ := isSome_iff_exists.mp (hr.stays h c hc (by rw [hk]; decide) hd)
    obtain ⟨c0, hc0, hn', hd', hk'⟩ := hr.core h c' hc'
    obtain rfl := some.inj (hc.symm.trans hc0)
    exact ⟨c', hc', hk'.trans hk, hd'.trans hd, hn'.trans hn⟩

theorem Bands.recounted (hs : Bands s) (hb : Base i s) (hr : Recounted s s') : Bands s' where
  unowned := fun h w hw => hs.unowned h w (hr.win h w hw)
  apart := fun h w hw => hs.apart h w (hr.win h w hw)
  all := fun h hh => hr.list ▸ hs.all h (hr.alive'.mp hh)
  order := by
    rw [hr.list]
    have hwin : ∀ h ∈ s.list, s'.win h = s.win h := fun h hh => hr.alive h (hb.listed h hh)
    exact hs.order.congr (fun h hh => by rw [desktopAt, desktopAt, hwin h hh])
      fun h hh => by rw [topmostAt, topmostAt, hwin h hh]

theorem Active.recounted (hs : Active s) (hr : Recounted s s') : Active s' where
  flags := fun h hh w hw => by
    rw [hr.activeWindow]
    exact hs.flags h (hr.list ▸ hh) w (hr.win h w hw)
  current := by
    rw [hr.activeWindow]
    refine hs.current.imp_right fun ⟨ha, w, hw, hd⟩ => ⟨hr.alive'.mpr ha, w, ?_, hd⟩
    rw [hr.alive _ ha, hw]

theorem Gesture.recounted (hs : Gesture s) (hr : Recounted s s') : Gesture s' := by
  constructor
  · rw [hr.pointer, hr.holds]
    exact hs.drag
  · rw [hr.pointer, hr.holds]
    exact hs.resize
  · rw [hr.pointer]
    simp only [hr.holds]
    exact hs.caption

theorem Messages.recounted {j : Hold} (hs : Messages i s) (hr : Recounted s s')
    (hexact : ∀ h c, s'.core h = some c → c.kind = .window →
      c.refs = j.count h + (if c.destroyed then 0 else 1) + c.leaked) : Messages j s' where
  silent := hr.log ▸ hs.silent
  unsent := fun h n hh => hr.log ▸ hs.unsent h n (hr.holds.mp hh)
  past := hr.log ▸ hr.created ▸ hs.past
  fresh := fun h c' hc' hk => by
    obtain ⟨c, hc, hn, -, hk'⟩ := hr.core h c' hc'
    rw [hn, hr.created]
    exact hs.fresh h c hc (hk' ▸ hk)
  apart := fun h h' c1 c2 h1 hk1 h2 hk2 heq => by
    obtain ⟨d1, hd1, hn1, -, hkd1⟩ := hr.core h c1 h1
    obtain ⟨d2, hd2, hn2, -, hkd2⟩ := hr.core h' c2 h2
    exact hs.apart h h' d1 d2 hd1 (hkd1 ▸ hk1) hd2 (hkd2 ▸ hk2) (hn2 ▸ hn1 ▸ heq)
  exact := hexact

theorem recounted_alter (hg : ∀ o o', s.lookup h = some o → g o = some o' →
      o'.body = o.body ∧ o'.serial = o.serial ∧ o'.destroyed = o.destroyed)
    (hstay : ∀ o, s.lookup h = some o → o.body ≠ .other → o.destroyed = false → (g o).isSome) :
    Recounted s (s.alter h g) where
  list := congrArg ZOrder.list State.alter_toZOrder
  activeWindow := State.alter_activeWindow
  pointer := State.alter_pointer
  log := State.alter_log
  created := State.alter_created
  win := fun k w hw => by
    by_cases hk : k = h
    · subst hk
      obtain ⟨o', ho', hb⟩ := State.win_eq_some.mp hw
      rw [State.lookup_alter_self] at ho'
      obtain ⟨o, ho, hgo⟩ := bind_eq_some_iff.mp ho'
      exact State.win_eq_some.mpr ⟨o, ho, (hg o o' ho hgo).1.symm.trans hb⟩
    · rwa [win_alter_ne hk] at hw
  alive := fun k ha => by
    by_cases hk : k = h
    · subst hk
      obtain ⟨o, w, ho, hb, hd⟩ := ha
      obtain ⟨o', ho'⟩ := isSome_iff_exists.mp (hstay o ho (by rw [hb]; nofun) hd)
      rw [State.win_of_lookup ho, State.win_of_lookup (o := o') (by
        rw [State.lookup_alter_self, ho, bind_some, ho']), (hg o o' ho ho').1]
    · exact win_alter_ne hk
  core := fun k c' hc' => by
    rw [core_alter] at hc'
    by_cases hk : k = h
    · subst hk
      rw [if_pos rfl] at hc'
      obtain ⟨o', ho', rfl⟩ := map_eq_some_iff.mp hc'
      obtain ⟨o, ho, hgo⟩ := bind_eq_some_iff.mp ho'
      obtain ⟨hb, hn, hd⟩ := hg o o' ho hgo
      exact ⟨o.core, core_of_lookup ho, hn, hd, congrArg Body.kind hb⟩
    · rw [if_neg hk] at hc'
      exact ⟨c', hc', rfl, rfl, rfl⟩
  stays := fun k c hc hkind hd => by
    rw [core_alter]
    by_cases hk : k = h
    · subst hk
      obtain ⟨o, ho, rfl⟩ := lookup_of_core hc
      rw [if_pos rfl, ho, bind_some, isSome_map]
      refine hstay o ho (fun hb => hkind ?_) hd
      rw [Object.core, hb]
      rfl
    · rw [if_neg hk, hc]
      rfl

theorem core_retain (hc : s.core h = some c) :
    (retain h s).core k = if k = h then some { c with refs := c.refs + 1 } else s.core k := by
  obtain ⟨o, ho, rfl⟩ := lookup_of_core hc
  rw [retain, core_alter, ho]
  rfl

theorem core_leakAt (hc : s.core h = some c) : (leakAt s h).core k =
    if k = h then some { c with refs := c.refs + 1, leaked := c.leaked + 1 } else s.core k := by
  obtain ⟨o, ho, rfl⟩ := lookup_of_core hc
  rw [leakAt, core_alter, ho]
  rfl

theorem core_dereference (hc : s.core h = some c) : (dereference h s).core k =
    if k = h then if 1 < c.refs then some { c with refs := c.refs - 1 } else none
    else s.core k := by
  obtain ⟨o, ho, rfl⟩ := lookup_of_core hc
  rw [dereference, core_alter, ho, bind_some, Object.release]
  by_cases hk : k = h
  · rw [if_pos hk, if_pos hk]
    have hrefs : o.core.refs = o.refs := rfl
    by_cases hlt : 1 < o.refs
    · rw [dif_pos hlt, hrefs, if_pos hlt]
      rfl
    · rw [dif_neg hlt, hrefs, if_neg hlt]
      rfl
  · rw [if_neg hk, if_neg hk]

theorem recounted_retain (h : Handle) (s : State) : Recounted s (retain h s) :=
  recounted_alter (fun o o' _ ho' => by cases ho'; exact ⟨rfl, rfl, rfl⟩) fun _ _ _ _ => rfl

theorem recounted_leakAt (h : Handle) (s : State) : Recounted s (leakAt s h) :=
  recounted_alter (fun o o' _ ho' => by cases ho'; exact ⟨rfl, rfl, rfl⟩) fun _ _ _ _ => rfl

theorem recounted_dereference (hstay : ∀ c, s.core h = some c → c.destroyed = false → 1 < c.refs) :
    Recounted s (dereference h s) := by
  refine recounted_alter (fun o o' _ ho' => ?_) fun o ho _ hd => ?_
  · unfold Object.release at ho'
    split at ho'
    · cases ho'
      exact ⟨rfl, rfl, rfl⟩
    · cases ho'
  · have hlt : 1 < o.refs := hstay o.core (core_of_lookup ho) hd
    rw [Object.release, dif_pos hlt]
    rfl

theorem Base.recounted {j : Hold} (hs : Base i s) (hr : Recounted s s')
    (hheld : ∀ h c, s'.core h = some c → c.kind ≠ .other →
      j.count h + (if c.destroyed then 0 else 1) ≤ c.refs)
    (hpresent : ∀ h, j.count h ≠ 0 → i.count h ≠ 0 ∨ ∃ c, s.core h = some c ∧ c.kind ≠ .other)
    (hstay : ∀ h, j.count h ≠ 0 → (s'.core h).isSome) (hdead : ∀ h, j.dead h → s.Dead h) :
    Base j s' where
  nodup := hr.list ▸ hs.nodup
  short := hr.list ▸ hs.short
  listed := fun h hh => hr.alive'.mpr (hs.listed h (hr.list ▸ hh))
  held := hheld
  present := fun h hh => by
    obtain ⟨c', hc'⟩ := isSome_iff_exists.mp (hstay h hh)
    obtain ⟨c, hc, -, -, hk⟩ := hr.core h c' hc'
    refine ⟨c', hc', ?_⟩
    rw [hk]
    rcases hpresent h hh with hi | ⟨d, hd, hkd⟩
    · obtain ⟨d, hd, hkd⟩ := hs.present h hi
      rwa [some.inj (hc.symm.trans hd)]
    · rwa [some.inj (hc.symm.trans hd)]
  dead := fun h hh => by
    obtain ⟨c, hc, hd⟩ := hdead h hh
    obtain ⟨c', hc'⟩ := isSome_iff_exists.mp (hstay h (j.held h hh))
    obtain ⟨d, hcd, -, hd', -⟩ := hr.core h c' hc'
    obtain rfl := some.inj (hc.symm.trans hcd)
    exact ⟨c', hc', hd'.trans hd⟩

theorem Sound.recount {j : Hold} {c' : Option Core} (hs : Sound R i s) (hr : Recounted s s')
    (hc : s.core h = some c) (hcore : ∀ k, s'.core k = if k = h then c' else s.core k)
    (hcount : ∀ k, k ≠ h → j.count k = i.count k) (hdead : ∀ k, j.dead k → i.dead k)
    (hpresent : j.count h ≠ 0 → c'.isSome ∧ c.kind ≠ .other)
    (hheld : ∀ d, c' = some d → d.kind ≠ .other →
      j.count h + (if d.destroyed then 0 else 1) ≤ d.refs)
    (hexact : R.messages → ∀ d, c' = some d → d.kind = .window →
      d.refs = j.count h + (if d.destroyed then 0 else 1) + d.leaked) : Sound R j s' := by
  constructor
  · refine hs.base.recounted hr (fun k d hd hkd => ?_) (fun k hk => ?_) (fun k hk => ?_)
      fun k hk => hs.base.dead k (hdead k hk)
    · rw [hcore] at hd
      split at hd
      · rename_i hkh
        exact hkh ▸ hheld d hd hkd
      · rename_i hkh
        rw [hcount k hkh]
        exact hs.base.held k d hd hkd
    · by_cases hkh : k = h
      · subst hkh
        exact .inr ⟨c, hc, (hpresent hk).2⟩
      · exact .inl (hcount k hkh ▸ hk)
    · rw [hcore]
      split
      · rename_i hkh
        exact (hpresent (hkh ▸ hk)).1
      · rename_i hkh
        obtain ⟨d, hd, -⟩ := hs.base.present k (hcount k hkh ▸ hk)
        rw [hd]
        rfl
  · exact fun hb => (hs.bands hb).recounted hs.base hr
  · exact fun ha => (hs.active ha).recounted hr
  · exact fun hg => (hs.gesture hg).recounted hr
  · refine fun hm => (hs.messages hm).recounted hr fun k d hd hkd => ?_
    rw [hcore] at hd
    split at hd
    · rename_i hkh
      exact hkh ▸ hexact hm d hd hkd
    · rename_i hkh
      rw [hcount k hkh]
      exact (hs.messages hm).exact k d hd hkd

theorem Hold.take_self (h : Handle) (i : Hold) : (i.take h).count h = i.count h + 1 := by
  simp only [Hold.take, Pi.add_apply, Pi.single_eq_same]

theorem Hold.take_other (i : Hold) (hk : k ≠ h) : (i.take h).count k = i.count k := by
  simp only [Hold.take, Pi.add_apply, Pi.single_eq_of_ne hk, Nat.add_zero]

theorem Sound.take (hs : Sound R i s) (hc : s.core h = some c) (hk : c.kind ≠ .other) :
    Sound R (i.take h) (retain h s) := by
  refine hs.recount (recounted_retain h s) hc (fun _ => core_retain hc)
    (fun _ => Hold.take_other i) (fun _ => id) (fun _ => ⟨rfl, hk⟩) (fun d hd hkd => ?_)
    fun hm d hd hkd => ?_
  · cases hd
    have := hs.base.held h c hc hk
    simp only [Hold.take_self]
    omega
  · cases hd
    have := (hs.messages hm).exact h c hc hkd
    simp only [Hold.take_self]
    omega

theorem Sound.take_window (hs : Sound R i s) (hw : s.win h = some w) :
    Sound R (i.take h) (retain h s) := by
  obtain ⟨c, hc, hk⟩ := core_of_win hw
  exact hs.take hc (by rw [hk]; decide)

theorem Sound.give (hs : Sound R (i.take h) s) : Sound R i (dereference h s) := by
  have hcount := Hold.take_self h i
  obtain ⟨c, hc, hk⟩ := hs.base.present h (by omega)
  have hheld := hs.base.held h c hc hk
  have hr : Recounted s (dereference h s) := recounted_dereference fun d hd hdd => by
    obtain rfl := some.inj (hc.symm.trans hd)
    rw [hdd] at hheld
    simp only [Bool.false_eq_true, if_false] at hheld
    omega
  refine hs.recount hr hc (fun _ => core_dereference hc) (fun _ hkh => (Hold.take_other i hkh).symm)
    (fun _ => id) (fun h0 => ⟨?_, hk⟩) (fun d hd hkd => ?_) fun hm d hd hkd => ?_
  · have hlt : 1 < c.refs := by omega
    rw [if_pos hlt]
    rfl
  · split at hd
    · cases hd
      simp only
      omega
    · cases hd
  · split at hd
    · cases hd
      have := (hs.messages hm).exact h c hc hkd
      simp only
      omega
    · cases hd

theorem Sound.drop (hs : Sound R i s) (hcount : i.count h = 0)
    (hdead : ∀ c, s.core h = some c → c.destroyed = true) (hm : ¬ R.messages) :
    Sound R i (dereference h s) := by
  cases hc : s.core h with
  | none =>
    have hsame : dereference h s = s := State.alter_id fun o ho => by
      rw [core_of_lookup ho] at hc
      cases hc
    rw [hsame]
    exact hs
  | some c =>
    have hd := hdead c hc
    have hr : Recounted s (dereference h s) := recounted_dereference fun d hd' hdd => by
      rw [hdead d hd'] at hdd
      cases hdd
    refine hs.recount hr hc (fun _ => core_dereference hc) (fun _ _ => rfl) (fun _ => id)
      (fun h0 => absurd hcount h0) (fun d hd' hkd => ?_) fun h => absurd h hm
    split at hd'
    · cases hd'
      simp only [hd, if_true]
      omega
    · cases hd'

theorem Sound.leak (hs : Sound R i s) (hw : s.win h = some w) : Sound R i (leakAt s h) := by
  obtain ⟨c, hc, hkc⟩ := core_of_win hw
  have hk : c.kind ≠ .other := by
    rw [hkc]
    decide
  refine hs.recount (recounted_leakAt h s) hc (fun _ => core_leakAt hc) (fun _ _ => rfl)
    (fun _ => id) (fun _ => ⟨rfl, hk⟩) (fun d hd hkd => ?_) fun hm d hd hkd => ?_
  · cases hd
    have := hs.base.held h c hc hkd
    simp only
    omega
  · cases hd
    have := (hs.messages hm).exact h c hc hkd
    simp only
    omega

theorem Sound.leakAll (hs : Sound R i s) (hl : ∀ h ∈ l, ∃ w, s.win h = some w) :
    Sound R i (leakAll l s) := by
  induction l generalizing s with
  | nil => exact hs
  | cons h l ih =>
    obtain ⟨w, hw⟩ := hl h List.mem_cons_self
    refine ih (s := leakAt s h) (hs.leak hw) fun k hk => ?_
    rw [win_leakAt]
    exact hl k (List.mem_cons_of_mem _ hk)

theorem Sound.forget {j : Hold} (hs : Sound R j s) (hcount : j.count = i.count)
    (hdead : ∀ h, i.dead h → j.dead h) : Sound R i s where
  base := ⟨hs.base.nodup, hs.base.short, hs.base.listed, hcount ▸ hs.base.held,
    hcount ▸ hs.base.present, fun h hh => hs.base.dead h (hdead h hh)⟩
  bands := hs.bands
  active := hs.active
  gesture := hs.gesture
  messages := fun hm =>
    { silent := (hs.messages hm).silent, unsent := (hs.messages hm).unsent
      past := (hs.messages hm).past, fresh := (hs.messages hm).fresh
      apart := (hs.messages hm).apart, exact := hcount ▸ (hs.messages hm).exact }

end Kept

end DiscouNT.Win32k
