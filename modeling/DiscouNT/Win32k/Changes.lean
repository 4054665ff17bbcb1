import DiscouNT.Win32k.Sound

/-!
# Win32k.Changes

What the entry points change themselves: the statics, the active window, the place of a window in
the list, and the objects. Each change keeps `Sound` on the condition it comes with.
-/

namespace DiscouNT.Win32k

open Lib Relation List Option

section Statics

variable {R : Rules} {i : Hold} {s s' : State} {f : Pointer → Pointer} {e : Event}

theorem lookup_congr (ho : s'.objects = s.objects) (h : Handle) : s'.lookup h = s.lookup h := by
  simp only [State.lookup, ho]

theorem core_congr (ho : s'.objects = s.objects) (h : Handle) : s'.core h = s.core h := by
  simp only [State.core, lookup_congr ho]

theorem win_congr (ho : s'.objects = s.objects) (h : Handle) : s'.win h = s.win h := by
  simp only [State.win, lookup_congr ho]

theorem alive_congr (ho : s'.objects = s.objects) (h : Handle) : s'.Alive h ↔ s.Alive h := by
  simp only [State.Alive, lookup_congr ho]

theorem Bands.of_objects (hs : Bands s) (hl : s'.list = s.list) (ho : s'.objects = s.objects) :
    Bands s' :=
  hs.congr hl (core_congr ho) fun h => by rw [win_congr ho]

theorem Active.of_objects (hs : Active s) (hl : s'.list = s.list)
    (ha : s'.activeWindow = s.activeWindow) (ho : s'.objects = s.objects) : Active s' := by
  have hwin := win_congr ho
  constructor
  · rw [hl, ha]
    simpa only [hwin] using hs.flags
  · rw [ha]
    simpa only [hwin, alive_congr ho] using hs.current

theorem Sound.setPointer (hs : Sound R i s) (hg : R.gesture → Gesture (s.setPointer f)) :
    Sound R i (s.setPointer f) where
  base := hs.base.congr rfl fun _ => rfl
  bands := fun hr => (hs.bands hr).of_objects rfl rfl
  active := fun hr => (hs.active hr).of_objects rfl rfl rfl
  gesture := hg
  messages := fun hr => (hs.messages hr).congr rfl (Nat.le_refl _) fun _ => rfl

theorem Sound.setFlags (hs : Sound R i s) (redraw hung : Bool) :
    Sound R i { s with redrawInProgress := redraw, hung := hung } :=
  hs.same ⟨rfl, rfl, rfl, rfl, rfl, fun _ => rfl, fun _ => rfl, fun _ => rfl⟩

theorem Sound.addLog (hs : Sound R i s) (he : ∀ n m, e ≠ .sent n m) : Sound R i (s.addLog e) where
  base := hs.base.congr rfl fun _ => rfl
  bands := fun hr => (hs.bands hr).of_objects rfl rfl
  active := fun hr => (hs.active hr).of_objects rfl rfl rfl
  gesture := fun hr => (hs.gesture hr).congr rfl fun _ => rfl
  messages := fun hr =>
    have hm := hs.messages hr
    have hmem : ∀ n m, Event.sent n m ∈ (s.addLog e).log → Event.sent n m ∈ s.log := by
      intro n m hin
      rcases mem_cons.mp hin with heq | hin
      · exact absurd heq.symm (he n m)
      · exact hin
    { silent := pairwise_cons.mpr ⟨fun _ _ n _ m' _ _ => he n m', hm.silent⟩
      unsent := fun h n hh m hin => hm.unsent h n hh m (hmem n m hin)
      past := fun n m hin => hm.past n m (hmem n m hin)
      fresh := hm.fresh
      apart := hm.apart
      exact := hm.exact }

theorem Sound.addSent {h : Handle} {c : Core} {m : Message} (hs : Sound R i s)
    (hc : s.core h = some c) (hk : c.kind = .window)
    (hquiet : R.messages → ∀ m, Event.sent c.serial m ∈ s.log → m.msg ≠ .destroy)
    (hdestroy : m.msg = .destroy → c.destroyed = true) :
    Sound R i (s.addLog (.sent (s.serialAt h) m)) := by
  rw [State.serialAt_of_core hc]
  refine ⟨hs.base.congr rfl fun _ => rfl, fun hr => (hs.bands hr).of_objects rfl rfl,
    fun hr => (hs.active hr).of_objects rfl rfl rfl,
    fun hr => (hs.gesture hr).congr rfl fun _ => rfl, fun hr => ?_⟩
  have hm := hs.messages hr
  refine ⟨pairwise_cons.mpr ⟨?_, hm.silent⟩, ?_, ?_, hm.fresh, hm.apart, hm.exact⟩
  · rintro e he n m1 m2 rfl hd heq
    cases heq
    exact hquiet hr m1 he hd
  · intro k n hh m' hin
    rcases mem_cons.mp hin with heq | hin
    · cases heq
      intro hd
      obtain ⟨c', hc', hk', hd', hn⟩ := hh
      obtain rfl := hm.apart h k c c' hc hk hc' hk' hn
      rw [some.inj (hc.symm.trans hc'), hd'] at hdestroy
      exact absurd (hdestroy hd) (by decide)
    · exact hm.unsent k n hh m' hin
  · intro n m' hin
    rcases mem_cons.mp hin with heq | hin
    · cases heq
      exact hm.fresh h c hc hk
    · exact hm.past n m' hin

end Statics

section Activation

variable {R : Rules} {i : Hold} {s : State} {h hwnd : Handle} {l : List Handle}

theorem foldl_markActive (hwnd : Handle) (l : List Handle) (s : State) :
    let s' := l.foldl (markActive hwnd) s
    (∃ objects, s' = { s with objects }) ∧ (∀ k, s'.core k = s.core k) ∧
      ∀ k, s'.win k = if k ∈ l then (s.win k).map fun w => { w with active := decide (k = hwnd) }
        else s.win k := by
  induction l generalizing s with
  | nil => exact ⟨⟨s.objects, rfl⟩, fun _ => rfl, fun _ => by simp⟩
  | cons h l ih =>
    rw [foldl_cons, markActive_eq]
    obtain ⟨⟨objects, he⟩, hcore, hwin⟩ :=
      ih (updWin h (fun w => { w with active := decide (h = hwnd) }) s)
    refine ⟨⟨objects, ?_⟩, fun k => (hcore k).trans core_updWin, fun k => ?_⟩
    · obtain ⟨objects', he'⟩ := State.alter_eq (s := s) (h := h)
        (g := fun o => some (o.mapWindow fun w => { w with active := decide (h = hwnd) }))
      rw [he, updWin, he']
    · rw [hwin k, win_updWin]
      by_cases hk : k = h
      · subst hk
        cases s.win k <;> simp
      · simp [hk]

theorem setWindowActive_cases (hwnd : Handle) (s : State) :
    (hwnd ≠ invalidHandle ∧ (∀ w, s.win hwnd = some w → w.desktop = true) ∧
      setWindowActive hwnd s = s) ∨
    (hwnd = invalidHandle ∨ ∃ w, s.win hwnd = some w ∧ w.desktop = false) ∧
      ∃ objects, setWindowActive hwnd s = { s with activeWindow := hwnd, objects } ∧
        (∀ k, (setWindowActive hwnd s).core k = s.core k) ∧
        ∀ k, (setWindowActive hwnd s).win k =
          if k ∈ s.list then (s.win k).map fun w => { w with active := decide (k = hwnd) }
          else s.win k := by
  rw [setWindowActive_eq]
  by_cases hgo : hwnd = invalidHandle ∨ ∃ w, s.win hwnd = some w ∧ w.desktop = false
  · rw [if_pos hgo]
    obtain ⟨⟨objects, he⟩, hcore, hwin⟩ :=
      foldl_markActive hwnd s.list { s with activeWindow := hwnd }
    exact .inr ⟨hgo, objects, he, hcore, hwin⟩
  · rw [if_neg hgo]
    rw [not_or, not_exists] at hgo
    refine .inl ⟨hgo.1, fun w hw => ?_, rfl⟩
    simpa [hw] using hgo.2 w

theorem setWindowActive_core (hwnd : Handle) (s : State) (k : Handle) :
    (setWindowActive hwnd s).core k = s.core k := by
  rcases setWindowActive_cases hwnd s with ⟨-, -, he⟩ | ⟨-, objects, -, hcore, -⟩
  · rw [he]
  · exact hcore k

theorem setWindowActive_place (hwnd : Handle) (s : State) (k : Handle) :
    ((setWindowActive hwnd s).win k).map Window.place = (s.win k).map Window.place := by
  rcases setWindowActive_cases hwnd s with ⟨-, -, he⟩ | ⟨-, objects, -, -, hwin⟩
  · rw [he]
  · rw [hwin k]
    split
    · cases s.win k <;> rfl
    · rfl

theorem setWindowActive_statics (hwnd : Handle) (s : State) :
    (setWindowActive hwnd s).toZOrder = s.toZOrder ∧
      (setWindowActive hwnd s).pointer = s.pointer ∧ (setWindowActive hwnd s).log = s.log ∧
      (setWindowActive hwnd s).created = s.created := by
  rcases setWindowActive_cases hwnd s with ⟨-, -, he⟩ | ⟨-, objects, he, -⟩
  · rw [he]
    exact ⟨rfl, rfl, rfl, rfl⟩
  · rw [he]
    exact ⟨rfl, rfl, rfl, rfl⟩

theorem active_setWindowActive
    (hgo : hwnd = invalidHandle ∨ s.Alive hwnd ∧ ∃ w, s.win hwnd = some w ∧ w.desktop = false) :
    Active (setWindowActive hwnd s) := by
  rcases setWindowActive_cases hwnd s with ⟨hne, hdesk, -⟩ | ⟨-, objects, he, hcore, hwin⟩
  · rcases hgo with rfl | ⟨-, w, hw, hd⟩
    · exact absurd rfl hne
    · rw [hdesk w hw] at hd
      cases hd
  · have hact : (setWindowActive hwnd s).activeWindow = hwnd := by rw [he]
    have hlist : (setWindowActive hwnd s).list = s.list := by rw [he]
    constructor
    · intro h hh w hw
      rw [hwin h, if_pos (hlist ▸ hh)] at hw
      obtain ⟨w', -, rfl⟩ := map_eq_some_iff.mp hw
      rw [hact]
      exact decide_eq_true_iff
    · rw [hact]
      refine hgo.imp_right fun ⟨ha, w, hw, hd⟩ => ⟨?_, ?_⟩
      · rw [alive_iff, hcore hwnd]
        exact alive_iff.mp ha
      · rw [hwin hwnd, hw]
        by_cases hin : hwnd ∈ s.list
        · exact ⟨_, if_pos hin, hd⟩
        · exact ⟨w, if_neg hin, hd⟩

theorem Active.setWindowActive (ha : Active s) (hok : s.Dead hwnd → False) :
    Active (setWindowActive hwnd s) := by
  rcases setWindowActive_cases hwnd s with ⟨-, -, he⟩ | ⟨hgo, -⟩
  · rw [he]
    exact ha
  · refine active_setWindowActive (hgo.imp_right fun ⟨w, hw, hd⟩ => ⟨?_, w, hw, hd⟩)
    exact (alive_or_dead hw).resolve_right hok

theorem Sound.setWindowActive (hs : Sound { R with active := False } i s)
    (ha : R.active → Active (setWindowActive hwnd s)) : Sound R i (setWindowActive hwnd s) := by
  obtain ⟨hz, hp, hlog, hcr⟩ := setWindowActive_statics hwnd s
  have hl := congrArg ZOrder.list hz
  have hcore := setWindowActive_core hwnd s
  exact
    { base := hs.base.congr hl hcore
      bands := fun hr => (hs.bands hr).congr hl hcore (setWindowActive_place hwnd s)
      active := ha
      gesture := fun hr => (hs.gesture hr).congr hp hcore
      messages := fun hr => (hs.messages hr).congr hlog hcr.ge hcore }

theorem Sound.idle (hs : Sound R i s) : Sound { R with active := False } i s :=
  ⟨hs.base, hs.bands, False.elim, hs.gesture, hs.messages⟩

theorem Sound.activate (hs : Sound R i s) (hok : R.active → ¬ s.Dead hwnd) :
    Sound R i (Win32k.setWindowActive hwnd s) :=
  hs.idle.setWindowActive fun hr => (hs.active hr).setWindowActive (hok hr)

theorem elected (hlisted : ∀ h ∈ s.list, s.Alive h) :
    findTopmostVisibleWindow s = invalidHandle ∨ s.Alive (findTopmostVisibleWindow s) ∧
      ∃ w, s.win (findTopmostVisibleWindow s) = some w ∧ w.desktop = false := by
  by_cases hne : findTopmostVisibleWindow s = invalidHandle
  · exact .inl hne
  · obtain ⟨hmem, w, hw, -, -, hd⟩ := findTopmostVisibleWindow_spec hne
    exact .inr ⟨hlisted _ hmem, w, hw, hd⟩

end Activation

/-! ## The list -/

/-- The windows that raising `h` would move along with it are in a chain above it. -/
def Orderly (s : State) (h : Handle) : Prop :=
  h ∈ s.list → ∀ w, s.win h = some w → w.desktop = false → Chain s h w.owner

def enough : Nat := (maxWindows + 1) * maxWindows

section Raising

variable {R : Rules} {i : Hold} {s s' : State} {h k : Handle} {w : Window} {fuel : Nat}
  {read : Handle → Option Window} {l : List Handle}

theorem enough_le (hshort : s.list.length ≤ maxWindows) :
    (s.list.length + 1) * s.list.length ≤ enough :=
  Nat.mul_le_mul (Nat.succ_le_succ hshort) hshort

theorem raise_stays (hz : raiseZ (fun h => (peek h s).1) fuel h s.toZOrder = some s.toZOrder) :
    raiseWindow fuel h s = s :=
  raiseWindow_of_some hz

theorem raise_fixed (hfix : h ∉ s.list ∨ ∀ w, s.win h = some w → w.desktop = true) :
    raiseWindow fuel h s = s := by
  refine raise_stays ?_
  rw [read_eq, raiseZ]
  cases hw : s.win h with
  | none => rfl
  | some w =>
    rcases hfix with hno | hdesk
    · simp only [firstPos_eq_none.mpr hno, ite_self]
    · exact if_pos (hdesk w hw)

theorem raise_kept (hnd : s.list.Nodup) (hshort : s.list.length ≤ maxWindows)
    (hfuel : enough ≤ fuel) (ho : Orderly s h) :
    ∃ z : ZOrder, raiseWindow fuel h s = { s with toZOrder := z } ∧ z.list.Perm s.list := by
  by_cases hmove : h ∈ s.list ∧ ∃ w, s.win h = some w ∧ w.desktop = false
  · obtain ⟨hh, w, hw, hd⟩ := hmove
    have hr : Raisable s h := by
      rw [Raisable, hw]
      simp only [hd, Bool.false_eq_true, if_false]
      exact fun hh => ho hh w hw hd
    obtain ⟨z, hz, hraised⟩ := raise_of_raisable hnd hr ((enough_le hshort).trans hfuel)
    exact ⟨z, raiseWindow_of_some hz, hraised.kept.perm⟩
  · refine ⟨s.toZOrder, raise_fixed ?_, .refl _⟩
    by_cases hh : h ∈ s.list
    · refine .inr fun w hw => ?_
      by_contra hd
      exact hmove ⟨hh, w, hw, by simpa using hd⟩
    · exact .inl hh

section

variable (hun : ∀ h w, s.win h = some w → w.owner = invalidHandle)
include hun

theorem isOwned_unowned
    (hne : h ≠ invalidHandle) (c : Handle) : isOwned s.win h c = false := by
  unfold isOwned
  cases hw : s.win c with
  | none => rfl
  | some w =>
    rw [any_some, hun c w hw, beq_eq_false_iff_ne]
    exact hne.symm

theorem orderly_unowned
    (hne : h ≠ invalidHandle) : Orderly s h := by
  have hno : ∀ c, ¬ Owns s.win s.list h c := fun c hc => by
    have hown := hc.2.2
    rw [isOwned_unowned hun hne] at hown
    cases hown
  intro _ w _ _
  constructor
  · intro c hc
    obtain ⟨d, hd, -⟩ := TransGen.head'_iff.mp hc
    exact absurd hd (hno d)
  · intro o ho c c' hc
    rcases ReflTransGen.cases_head ho with rfl | ⟨d, hd, -⟩
    · exact absurd hc (hno c)
    · exact absurd hd (hno d)

theorem raise_unowned
    (hnd : s.list.Nodup) (hh : h ∈ s.list) (hne : h ≠ invalidHandle) (hw : s.win h = some w)
    (hd : w.desktop = false) (hfuel : s.list.length < fuel) :
    raiseWindow fuel h s =
      { s with list := (s.list.erase h).insertIdx (front s.win s.list h) h } := by
  refine raiseWindow_of_some ?_
  have hat : raisedAt s.win s.list h w.owner = front s.win s.list h :=
    if_pos (.inr (hun h w hw))
  have hle := front_le s.win hh
  have hlen := length_erase_of_mem hh
  have hpos := length_pos_of_mem hh
  rw [read_eq, raiseZ_eq hnd hh hw hd, hat]
  refine raiseOwnedFrom_done (Nat.zero_le _) ?_ fun j x _ _ => isOwned_unowned hun hne x
  rw [Nat.sub_zero, length_insertIdx_of_le_length hle]
  omega

end

theorem Ordered.insert_front (ho : Ordered read (l.erase h)) (hh : h ∈ l)
    (hw : read h = some w) (hd : w.desktop = false)
    (hapart : ∀ k w, read k = some w → w.desktop = true → windowIsTopmost w = false) :
    Ordered read ((l.erase h).insertIdx (front read l h) h) := by
  have hdesk : desktopAt read h = false := by simp [desktopAt, hw, hd]
  have hsep : ∀ k, topmostAt read k = true → desktopAt read k = false := by
    intro k ht
    unfold desktopAt
    cases hk : read k with
    | none => rfl
    | some v =>
      rw [topmostAt, hk, any_some] at ht
      rw [any_some]
      by_contra hv
      rw [hapart k v hk (by simpa using hv)] at ht
      cases ht
  have hnot : topmostAt read h = true → (l.erase h).drop (front read l h) = [] := fun ht => by
    rw [front, if_pos ht, drop_length]
  refine pairwise_insertIdx ho (front_le read hh) (fun k hk => ?_) fun k hk => ?_
  · refine ⟨fun hd => (by rw [hdesk] at hd; cases hd), fun ht => ?_⟩
    by_contra hnt
    rw [front, if_neg hnt] at hk
    rw [false_of_mem_take_findIdx hk] at ht
    cases ht
  · by_cases ht : topmostAt read h = true
    · rw [hnot ht] at hk
      cases hk
    · rw [front, if_neg ht] at hk
      have hkt := of_mem_drop_findIdx (ho.imp fun hab => hab.2) hk
      refine ⟨fun hd => ?_, fun ht' => absurd ht' ht⟩
      rw [hsep k hkt] at hd
      cases hd

structure Unplaced (s : State) (h : Handle) : Prop where
  unowned : ∀ k w, s.win k = some w → w.owner = invalidHandle
  apart : ∀ k w, s.win k = some w → w.desktop = true → windowIsTopmost w = false
  all : ∀ k, s.Alive k → k ∈ s.list
  order : Ordered s.win (s.list.erase h)
  fixed : (h ∉ s.list ∨ ∀ w, s.win h = some w → w.desktop = true) → Ordered s.win s.list

theorem Bands.unplaced (hb : Bands s) (h : Handle) : Unplaced s h :=
  ⟨hb.unowned, hb.apart, hb.all, hb.order.erase h, fun _ => hb.order⟩

theorem Unplaced.raise (hb : Unplaced s h) (hs : Base i s) (hfuel : enough ≤ fuel) :
    Bands (raiseWindow fuel h s) := by
  by_cases hfix : h ∉ s.list ∨ ∀ w, s.win h = some w → w.desktop = true
  · rw [raise_fixed hfix]
    exact ⟨hb.unowned, hb.apart, hb.all, hb.fixed hfix⟩
  · rw [not_or, not_not] at hfix
    obtain ⟨hh, hdesk⟩ := hfix
    obtain ⟨w, hw⟩ := (hs.listed h hh).win
    have hd : w.desktop = false := by
      by_contra hd
      exact hdesk fun v hv => by simpa [some.inj (hv.symm.trans hw)] using hd
    have hlen : s.list.length < fuel := by
      have hshort := hs.short
      have henough : maxWindows < enough := by decide
      omega
    rw [raise_unowned hb.unowned hs.nodup hh (hs.listed h hh).ne_invalid hw hd hlen]
    refine ⟨hb.unowned, hb.apart, fun k hk => ?_, ?_⟩
    · exact (mem_insertIdx (front_le s.win hh)).mpr
        ((eq_or_ne k h).imp_right fun hne => (mem_erase_of_ne hne).mpr (hb.all k hk))
    · exact hb.order.insert_front hh hw hd hb.apart

theorem Base.permuted (hs : Base i s) {z : ZOrder} (hz : z.list.Perm s.list) :
    Base i { s with toZOrder := z } where
  nodup := hz.nodup_iff.mpr hs.nodup
  short := hz.length_eq ▸ hs.short
  listed := fun h hh => hs.listed h (hz.mem_iff.mp hh)
  held := hs.held
  present := hs.present
  dead := hs.dead

theorem Active.permuted (hs : Active s) {z : ZOrder} (hz : z.list.Perm s.list) :
    Active { s with toZOrder := z } :=
  ⟨fun h hh => hs.flags h (hz.mem_iff.mp hh), hs.current⟩

theorem Sound.raise (hs : Sound { R with bands := False } i s) (hfuel : enough ≤ fuel)
    (ho : ¬ R.bands → Orderly s h) (hb : R.bands → Unplaced s h) :
    Sound R i (raiseWindow fuel h s) := by
  have ho' : Orderly s h := by
    by_cases hr : R.bands
    · exact fun hh => orderly_unowned (hb hr).unowned (hs.base.listed h hh).ne_invalid hh
    · exact ho hr
  obtain ⟨z, he, hz⟩ := raise_kept hs.base.nodup hs.base.short hfuel ho'
  refine ⟨?_, fun hr => (hb hr).raise hs.base hfuel, ?_, ?_, ?_⟩
  · rw [he]
    exact hs.base.permuted hz
  · rw [he]
    exact fun hr => (hs.active hr).permuted hz
  · rw [he]
    exact fun hr => (hs.gesture hr).congr rfl fun _ => rfl
  · rw [he]
    exact fun hr => (hs.messages hr).congr rfl (Nat.le_refl _) fun _ => rfl

theorem Sound.loose (hs : Sound R i s) : Sound { R with bands := False } i s :=
  ⟨hs.base, False.elim, hs.active, hs.gesture, hs.messages⟩

theorem Sound.raise_placed (hs : Sound R i s) (hfuel : enough ≤ fuel)
    (ho : ¬ R.bands → Orderly s h) : Sound R i (raiseWindow fuel h s) :=
  hs.loose.raise hfuel ho fun hr => (hs.bands hr).unplaced h

/-- A change of `WS_EX_TOPMOST`, before the raise that follows it. `HWND_TOPMOST` is
`INVALID_HANDLE`, so the flag is only ever taken away. -/
theorem Sound.unplace {insertAfter : Handle} (hs : Sound R i s)
    (hne : insertAfter ≠ invalidHandle) :
    Sound { R with bands := False } i (updWin h (topmostFields insertAfter) s) ∧
      (R.bands → Unplaced (updWin h (topmostFields insertAfter) s) h) := by
  have hfields : ∀ w, topmostFields insertAfter w = w ∨
      topmostFields insertAfter w = { w with exstyle := w.exstyle &&& ~~~wsExTopmost } := by
    intro w
    rw [topmostFields, if_neg (show insertAfter ≠ hwndTopmost from hne)]
    split
    · exact .inr rfl
    · exact .inl rfl
  have howner : ∀ w, (topmostFields insertAfter w).owner = w.owner := fun w => by
    rcases hfields w with he | he <;> rw [he]
  have hdesk : ∀ w, (topmostFields insertAfter w).desktop = w.desktop := fun w => by
    rcases hfields w with he | he <;> rw [he]
  have hact : ∀ w, (topmostFields insertAfter w).active = w.active := fun w => by
    rcases hfields w with he | he <;> rw [he]
  have htop : ∀ w, windowIsTopmost w = false →
      windowIsTopmost (topmostFields insertAfter w) = false := by
    intro w hw
    rcases hfields w with he | he
    · rw [he, hw]
    · rw [he]
      simp only [windowIsTopmost, Bool.or_eq_false_iff] at hw ⊢
      refine ⟨⟨?_, hw.1.2⟩, hw.2⟩
      have hclear : ∀ e : Flags, (e &&& ~~~wsExTopmost) &&& wsExTopmost = 0 := by
        intro e
        rw [BitVec.and_assoc, show ~~~wsExTopmost &&& wsExTopmost = (0 : Flags) by decide]
        exact BitVec.and_zero
      rw [Flags.has, hclear]
      rfl
  have hlist : (updWin h (topmostFields insertAfter) s).list = s.list :=
    congrArg ZOrder.list updWin_toZOrder
  have hwin : ∀ k, k ≠ h → (updWin h (topmostFields insertAfter) s).win k = s.win k :=
    fun k hk => by rw [win_updWin, if_neg hk]
  have hself : ∀ w, (updWin h (topmostFields insertAfter) s).win h = some w →
      ∃ v, s.win h = some v ∧ topmostFields insertAfter v = w := fun w hw => by
    rw [win_updWin, if_pos rfl] at hw
    exact map_eq_some_iff.mp hw
  have hsame : ∀ k, k ≠ h →
      ((updWin h (topmostFields insertAfter) s).win k).map Window.place =
        (s.win k).map Window.place := fun k hk => by rw [hwin k hk]
  refine ⟨⟨hs.base.congr hlist fun _ => core_updWin, False.elim, fun hr => ?_,
    fun hr => (hs.gesture hr).congr updWin_pointer fun _ => core_updWin,
    fun hr => (hs.messages hr).congr updWin_log updWin_created.ge fun _ => core_updWin⟩, fun hr => ?_⟩
  · refine (hs.active hr).congr hlist updWin_activeWindow (fun _ => core_updWin) fun k =>
      map_updWin (fun w => ?_) h k s
    rw [Window.mark, Window.mark, hdesk, hact]
  · have hb := hs.bands hr
    have hapart : ∀ k w, (updWin h (topmostFields insertAfter) s).win k = some w →
        w.desktop = true → windowIsTopmost w = false := by
      intro k w hw hd
      by_cases hk : k = h
      · subst hk
        obtain ⟨v, hv, rfl⟩ := hself w hw
        exact htop v (hb.apart k v hv ((hdesk v).symm.trans hd))
      · exact hb.apart k w (hwin k hk ▸ hw) hd
    refine ⟨fun k w hw => ?_, hapart, fun k hk => ?_, ?_, ?_⟩
    · by_cases hk : k = h
      · subst hk
        obtain ⟨v, hv, rfl⟩ := hself w hw
        exact (howner v).trans (hb.unowned k v hv)
      · exact hb.unowned k w (hwin k hk ▸ hw)
    · rw [alive_iff, core_updWin, ← alive_iff] at hk
      exact hlist ▸ hb.all k hk
    · rw [hlist]
      have hne : ∀ k ∈ s.list.erase h, k ≠ h := fun k hk =>
        (hs.base.nodup.mem_erase_iff.mp hk).1
      exact (hb.order.erase h).congr
        (fun k hk => desktopAt_congr (hsame k (hne k hk))) fun k hk =>
        topmostAt_congr (hsame k (hne k hk))
    · intro hfix
      rw [hlist] at hfix ⊢
      have hplace : ∀ k ∈ s.list, ((updWin h (topmostFields insertAfter) s).win k).map
          Window.place = (s.win k).map Window.place := by
        intro k hk
        by_cases hkh : k = h
        · subst hkh
          obtain ⟨v, hv⟩ := (hs.base.listed k hk).win
          have hv' : (updWin k (topmostFields insertAfter) s).win k =
              some (topmostFields insertAfter v) := by rw [win_updWin, if_pos rfl, hv]; rfl
          have hd := (hfix.resolve_left (not_not.mpr hk)) _ hv'
          have hdv : v.desktop = true := (hdesk v).symm.trans hd
          rw [hv', hv, map_some, map_some, Window.place, Window.place, howner,
            hdesk, hapart k _ hv' hd, hb.apart k v hv hdv]
        · exact hsame k hkh
      exact hb.order.congr (fun k hk => desktopAt_congr (hplace k hk)) fun k hk =>
        topmostAt_congr (hplace k hk)

end Raising

end DiscouNT.Win32k
