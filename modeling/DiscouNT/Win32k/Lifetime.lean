import DiscouNT.Win32k.Changes

/-!
# Win32k.Lifetime

The beginning and the end of an object: `ObCreateObject` with the insertion of a new window into the
list, and what `Win32kDestroyWindow` does before it sends `WM_DESTROY`.

From there on a destroyed window has two references that the running call gives back, its own and
that of the creation. A window destroyed a second time has lost the creation reference already.
-/

namespace DiscouNT.Win32k

open List Function

structure Born (body : Body) (h : Handle) (s s' : State) : Prop where
  list : s'.list = s.list
  activeWindow : s'.activeWindow = s.activeWindow
  pointer : s'.pointer = s.pointer
  log : s'.log = s.log
  created : s'.created = s.created + 1
  free : s.core h = none
  lt : h < maxObjects
  core : ∀ k, s'.core k = if k = h then some ⟨1, s.created, false, 0, body.kind⟩ else s.core k
  win : ∀ k, s'.win k = if k = h then body.window? else s.win k

section Birth

variable {R : Rules} {i : Hold} {s s' : State} {h k : Handle} {w : Window} {body : Body} {n : Nat}

theorem lookup_insert {o : Object} (hlt : h < maxObjects) (k : Handle) (n : Nat) :
    State.lookup { s with objects := update s.objects h (some o), created := n } k =
      if k = h then some o else s.lookup k := by
  unfold State.lookup
  by_cases hk : k = h
  · subst hk
    simp [hlt]
  · simp [hk]

theorem born_insert {o : Object} (hlt : h < maxObjects) (hfree : s.objects h = none)
    (hbody : o.body = body) (hcore : o.core = ⟨1, s.created, false, 0, body.kind⟩) :
    Born body h s
      { s with objects := update s.objects h (some o), created := s.created + 1 } where
  list := rfl
  activeWindow := rfl
  pointer := rfl
  log := rfl
  created := rfl
  free := by
    rw [State.core, State.lookup, if_pos hlt, hfree]
    rfl
  lt := hlt
  core := fun k => by
    rw [State.core, lookup_insert hlt]
    split
    · exact congrArg some hcore
    · rfl
  win := fun k => by
    rw [State.win, lookup_insert hlt, ← hbody]
    split <;> rfl

theorem freeSlot_spec (hf : freeSlot s = some h) : h < maxObjects ∧ s.objects h = none := by
  have hmem := mem_of_find?_eq_some hf
  have hnone := find?_some hf
  exact ⟨mem_range.mp hmem, Option.isNone_iff_eq_none.mp hnone⟩

theorem createObject_cases (allocated : Bool) (name : Name) (body : Body) (s : State) :
    createObject allocated name body s = (none, s) ∨
      ∃ h s', createObject allocated name body s = (some h, s') ∧ Born body h s s' := by
  unfold createObject
  cases hf : freeSlot s with
  | none => exact .inl rfl
  | some h =>
    obtain ⟨hlt, hnone⟩ := freeSlot_spec hf
    cases allocated with
    | false => exact .inl rfl
    | true => exact .inr ⟨h, _, rfl, born_insert hlt hnone rfl rfl⟩

theorem Born.alive (hb : Born body h s s') (hk : s.Alive k) : s'.Alive k ∧ k ≠ h := by
  obtain ⟨c, hc, hkind, hd⟩ := alive_iff.mp hk
  have hne : k ≠ h := by
    rintro rfl
    rw [hb.free] at hc
    cases hc
  exact ⟨alive_iff.mpr ⟨c, by rw [hb.core, if_neg hne, hc], hkind, hd⟩, hne⟩

theorem Born.alive_old (hb : Born body h s s') (hne : k ≠ h) (hk : s'.Alive k) : s.Alive k := by
  rw [alive_iff, hb.core, if_neg hne, ← alive_iff] at hk
  exact hk

theorem Born.not_listed (hb : Born body h s s') (hs : Base i s) : h ∉ s.list := fun hh =>
  (hb.alive (hs.listed h hh)).2 rfl

theorem Base.born (hs : Base i s) (hb : Born body h s s') : Base i s' where
  nodup := hb.list ▸ hs.nodup
  short := hb.list ▸ hs.short
  listed := fun k hk => (hb.alive (hs.listed k (hb.list ▸ hk))).1
  held := fun k c hc hkind => by
    rw [hb.core] at hc
    by_cases hk : k = h
    · subst hk
      rw [if_pos rfl] at hc
      cases hc
      have hzero : i.count k = 0 := by
        by_contra hne
        obtain ⟨d, hd, -⟩ := hs.present k hne
        rw [hb.free] at hd
        cases hd
      simp [hzero]
    · rw [if_neg hk] at hc
      exact hs.held k c hc hkind
  present := fun k hk => by
    obtain ⟨d, hd, hkind⟩ := hs.present k hk
    have hne : k ≠ h := by
      rintro rfl
      rw [hb.free] at hd
      cases hd
    exact ⟨d, by rw [hb.core, if_neg hne, hd], hkind⟩
  dead := fun k hk => by
    obtain ⟨d, hd, hdead⟩ := hs.dead k hk
    have hne : k ≠ h := by
      rintro rfl
      rw [hb.free] at hd
      cases hd
    exact ⟨d, by rw [hb.core, if_neg hne, hd], hdead⟩

theorem Active.born (ha : Active s) (hs : Base i s) (hb : Born body h s s') : Active s' where
  flags := fun k hk w hw => by
    rw [hb.list] at hk
    rw [hb.win, if_neg (hb.alive (hs.listed k hk)).2] at hw
    rw [hb.activeWindow]
    exact ha.flags k hk w hw
  current := by
    rw [hb.activeWindow]
    refine ha.current.imp_right fun ⟨hal, w, hw, hd⟩ => ?_
    obtain ⟨hal', hne⟩ := hb.alive hal
    exact ⟨hal', w, by rw [hb.win, if_neg hne, hw], hd⟩

theorem Born.holds (hb : Born body h s s') (hh : s.Holds k n) : s'.Holds k n := by
  obtain ⟨c, hc, hrest⟩ := hh
  have hne : k ≠ h := by
    rintro rfl
    rw [hb.free] at hc
    cases hc
  exact ⟨c, by rw [hb.core, if_neg hne, hc], hrest⟩

theorem Gesture.born (hg : Gesture s) (hb : Born body h s s') : Gesture s' := by
  constructor
  · rw [hb.pointer]
    exact hg.drag.imp_right hb.holds
  · rw [hb.pointer]
    exact hg.resize.imp_right hb.holds
  · rw [hb.pointer]
    exact hg.caption.imp_right fun ⟨n, hn, hh⟩ => ⟨n, hn, hb.holds hh⟩

theorem Messages.born (hm : Messages i s) (hs : Base i s) (hb : Born body h s s') :
    Messages i s' where
  silent := hb.log ▸ hm.silent
  unsent := fun k n hh m hin => by
    rw [hb.log] at hin
    obtain ⟨c, hc, hkind, hd, hn⟩ := hh
    rw [hb.core] at hc
    by_cases hk : k = h
    · rw [if_pos hk] at hc
      cases hc
      have := hm.past n m hin
      simp only at hn
      omega
    · rw [if_neg hk] at hc
      exact hm.unsent k n ⟨c, hc, hkind, hd, hn⟩ m hin
  past := fun n m hin => by
    have := hm.past n m (hb.log ▸ hin)
    rw [hb.created]
    omega
  fresh := fun k c hc hkind => by
    rw [hb.core] at hc
    rw [hb.created]
    by_cases hk : k = h
    · rw [if_pos hk] at hc
      cases hc
      exact Nat.lt_succ_self _
    · rw [if_neg hk] at hc
      exact Nat.lt_succ_of_lt (hm.fresh k c hc hkind)
  apart := fun k k' c c' hc hkind hc' hkind' heq => by
    rw [hb.core] at hc hc'
    by_cases hk : k = h <;> by_cases hk' : k' = h
    · rw [hk, hk']
    · rw [if_pos hk] at hc
      rw [if_neg hk'] at hc'
      cases hc
      have := hm.fresh k' c' hc' hkind'
      simp only at heq
      omega
    · rw [if_neg hk] at hc
      rw [if_pos hk'] at hc'
      cases hc'
      have := hm.fresh k c hc hkind
      simp only at heq
      omega
    · rw [if_neg hk] at hc
      rw [if_neg hk'] at hc'
      exact hm.apart k k' c c' hc hkind hc' hkind' heq
  exact := fun k c hc hkind => by
    rw [hb.core] at hc
    by_cases hk : k = h
    · subst hk
      rw [if_pos rfl] at hc
      cases hc
      have hzero : i.count k = 0 := by
        by_contra hne
        obtain ⟨d, hd, -⟩ := hs.present k hne
        rw [hb.free] at hd
        cases hd
      simp [hzero]
    · rw [if_neg hk] at hc
      exact hm.exact k c hc hkind

theorem Sound.born (hs : Sound R i s) (hb : Born body h s s') (hbody : body.window? = none) :
    Sound R i s' where
  base := hs.base.born hb
  bands := fun hr => by
    have hwin : ∀ k, s'.win k = s.win k := fun k => by
      rw [hb.win]
      split
      · rename_i hk
        rw [hbody]
        cases hw : s.win k with
        | none => rfl
        | some w =>
          obtain ⟨c, hc, -⟩ := core_of_win hw
          rw [hk, hb.free] at hc
          cases hc
      · rfl
    have hbands := hs.bands hr
    refine ⟨fun k w hw => hbands.unowned k w (hwin k ▸ hw), fun k w hw =>
      hbands.apart k w (hwin k ▸ hw), fun k hk => ?_, ?_⟩
    · rw [hb.list]
      refine hbands.all k (hb.alive_old ?_ hk)
      rintro rfl
      obtain ⟨w, hw⟩ := hk.win
      rw [hb.win, if_pos rfl, hbody] at hw
      cases hw
    · rw [hb.list, show s'.win = s.win from funext hwin]
      exact hbands.order
  active := fun hr => (hs.active hr).born hs.base hb
  gesture := fun hr => (hs.gesture hr).born hb
  messages := fun hr => (hs.messages hr).born hs.base hb

theorem Sound.toggle (hs : Sound R i s) (slot : Handle) : Sound R i (toggleOther slot s) := by
  unfold toggleOther
  cases hslot : s.objects slot with
  | none =>
    simp only
    by_cases hlt : slot < maxObjects
    · exact hs.born (born_insert hlt hslot rfl rfl) rfl
    · have hlookup : ∀ k, State.lookup { s with
          objects := update s.objects slot (some (otherObject s.created))
          created := s.created + 1 } k = s.lookup k := by
        intro k
        unfold State.lookup
        by_cases hk : k = slot
        · subst hk
          rw [if_neg hlt, if_neg hlt]
        · simp [hk]
      generalize hs' : ({ s with
          objects := update s.objects slot (some (otherObject s.created))
          created := s.created + 1 } : State) = s' at hlookup
      have hcore : ∀ k, s'.core k = s.core k := fun k => by rw [State.core, hlookup]; rfl
      have hwin : ∀ k, s'.win k = s.win k := fun k => by rw [State.win, hlookup]; rfl
      subst hs'
      exact ⟨hs.base.congr rfl hcore,
        fun hr => (hs.bands hr).congr rfl hcore fun k => by rw [hwin],
        fun hr => (hs.active hr).congr rfl rfl hcore fun k => by rw [hwin],
        fun hr => (hs.gesture hr).congr rfl hcore,
        fun hr => (hs.messages hr).congr rfl (Nat.le_succ _) hcore⟩
  | some o =>
    simp only
    split
    · rename_i hother
      have hlookup : ∀ k, State.lookup { s with
          objects := update s.objects slot none } k =
            if k = slot then none else s.lookup k := by
        intro k
        unfold State.lookup
        by_cases hk : k = slot
        · subst hk
          simp
        · simp [hk]
      generalize hs' : ({ s with objects := update s.objects slot none } : State) = s'
        at hlookup
      have hcore : ∀ k, s'.core k = if k = slot then none else s.core k := fun k => by
        rw [State.core, hlookup]
        split <;> rfl
      have hkind : ∀ c, s.core slot = some c → c.kind = .other := by
        intro c hc
        obtain ⟨o', ho', rfl⟩ := lookup_of_core hc
        unfold State.lookup at ho'
        split at ho'
        · rw [hslot] at ho'
          cases ho'
          rw [Object.core, hother]
          rfl
        · cases ho'
      have hwin : ∀ k, s'.win k = s.win k := by
        intro k
        rw [State.win, hlookup]
        split
        · rename_i hk
          cases hw : s.win k with
          | none => rfl
          | some w =>
            obtain ⟨c, hc, hck⟩ := core_of_win hw
            rw [hkind c (hk ▸ hc)] at hck
            cases hck
        · rfl
      have hr : Recounted s s' := by
        subst hs'
        refine ⟨rfl, rfl, rfl, rfl, rfl, fun k w hw => hwin k ▸ hw, fun k _ => hwin k, ?_, ?_⟩
        · intro k c hc
          rw [hcore] at hc
          split at hc
          · cases hc
          · exact ⟨c, hc, rfl, rfl, rfl⟩
        · intro k c hc hne _
          rw [hcore]
          split
          · rename_i hk
            exact absurd (hkind c (hk ▸ hc)) hne
          · rw [hc]
            rfl
      have hsub : ∀ k c, s'.core k = some c → s.core k = some c := fun k c hc => by
        rw [hcore] at hc
        split at hc
        · cases hc
        · exact hc
      refine ⟨hs.base.recounted hr (fun k c hc => hs.base.held k c (hsub k c hc))
        (fun k hk => .inl hk) (fun k hk => ?_) hs.base.dead,
        fun hb => (hs.bands hb).recounted hs.base hr, fun ha => (hs.active ha).recounted hr,
        fun hg => (hs.gesture hg).recounted hr, fun hm => (hs.messages hm).recounted hr
          fun k c hc => (hs.messages hm).exact k c (hsub k c hc)⟩
      obtain ⟨c, hc, hne⟩ := hs.base.present k hk
      rw [hcore]
      split
      · rename_i hks
        exact absurd (hkind c (hks ▸ hc)) hne
      · rw [hc]
        rfl
    · exact hs

theorem insertWindow_eq (desktop : Bool) (hwnd : Handle) (s : State) :
    ∃ rest, insertWindow desktop hwnd s =
      if s.list.length < maxWindows then
        { s with list := if desktop then hwnd :: s.list else s.list ++ [hwnd], rest := rest }
      else s :=
  ⟨s.rest.tail, rfl⟩

theorem Sound.insertWindow (hs : Sound R i s) (hb : Born (.window w) h s s')
    (hact : w.active = false)
    (hbands : R.bands → w.owner = invalidHandle ∧
      (w.desktop = true → windowIsTopmost w = false) ∧ s.list.length < maxWindows) :
    Sound { R with bands := False } i (insertWindow w.desktop h s') ∧
      (R.bands → if w.desktop then Bands (Win32k.insertWindow w.desktop h s')
        else Unplaced (Win32k.insertWindow w.desktop h s') h) := by
  have hnew : s'.win h = some w := by rw [hb.win, if_pos rfl]; rfl
  have halive : s'.Alive h := alive_iff.mpr ⟨_, by rw [hb.core, if_pos rfl], rfl, rfl⟩
  have hnot : h ∉ s.list := hb.not_listed hs.base
  have hbase := hs.base.born hb
  obtain ⟨rest, he⟩ := insertWindow_eq w.desktop h s'
  generalize Win32k.insertWindow w.desktop h s' = t at he
  have hobjects : t.objects = s'.objects := by rw [he]; split <;> rfl
  have hcore := core_congr hobjects
  have hwin := win_congr hobjects
  have hstatics : t.activeWindow = s'.activeWindow ∧ t.pointer = s'.pointer ∧ t.log = s'.log ∧
      t.created = s'.created := by
    rw [he]
    split <;> exact ⟨rfl, rfl, rfl, rfl⟩
  have hlist : (s.list.length < maxWindows ∧
      (w.desktop = true ∧ t.list = h :: s.list ∨ w.desktop = false ∧ t.list = s.list ++ [h])) ∨
      ¬ s.list.length < maxWindows ∧ t.list = s.list := by
    rw [he, hb.list]
    by_cases hroom : s.list.length < maxWindows
    · rw [if_pos hroom]
      cases w.desktop with
      | true => exact .inl ⟨hroom, .inl ⟨rfl, rfl⟩⟩
      | false => exact .inl ⟨hroom, .inr ⟨rfl, rfl⟩⟩
    · rw [if_neg hroom]
      exact .inr ⟨hroom, hb.list⟩
  have hmem : ∀ k, k ∈ t.list → k = h ∨ k ∈ s.list := by
    intro k hk
    rcases hlist with ⟨-, ⟨-, hl⟩ | ⟨-, hl⟩⟩ | ⟨-, hl⟩ <;> rw [hl] at hk
    · exact mem_cons.mp hk
    · exact (mem_append.mp hk).symm.imp_left mem_singleton.mp
    · exact .inr hk
  have hnodup : t.list.Nodup ∧ t.list.length ≤ maxWindows := by
    rcases hlist with ⟨hroom, ⟨-, hl⟩ | ⟨-, hl⟩⟩ | ⟨-, hl⟩ <;> rw [hl]
    · exact ⟨nodup_cons.mpr ⟨hnot, hs.base.nodup⟩, hroom⟩
    · exact ⟨nodup_append.mpr ⟨hs.base.nodup, nodup_singleton h, fun a ha b hb' heq =>
        hnot (mem_singleton.mp hb' ▸ heq ▸ ha)⟩, by
          rw [length_append]
          exact hroom⟩
    · exact ⟨hs.base.nodup, hs.base.short⟩
  have hold : ∀ k ∈ s.list, t.win k = s.win k := fun k hk => by
    rw [hwin, hb.win, if_neg (hb.alive (hs.base.listed k hk)).2]
  refine ⟨⟨⟨hnodup.1, hnodup.2, fun k hk => ?_, fun k c hc => hbase.held k c (hcore k ▸ hc),
      fun k hk => by rw [hcore]; exact hbase.present k hk,
      fun k hk => by rw [State.Dead, hcore]; exact hbase.dead k hk⟩, False.elim,
    fun hr => ⟨fun k hk v hv => ?_, ?_⟩,
    fun hr => ((hs.gesture hr).born hb).congr hstatics.2.1 hcore,
    fun hr => ((hs.messages hr).born hs.base hb).congr hstatics.2.2.1 hstatics.2.2.2.ge hcore⟩,
    fun hr => ?_⟩
  · rw [alive_congr hobjects]
    rcases hmem k hk with rfl | hk
    · exact halive
    · exact (hb.alive (hs.base.listed k hk)).1
  · have ha := (hs.active hr).born hs.base hb
    rw [hstatics.1]
    rcases hmem k hk with rfl | hk
    · rw [hwin, hnew] at hv
      cases hv
      rw [hact]
      refine ⟨by simp, fun heq => ?_⟩
      rw [hb.activeWindow] at heq
      rcases (hs.active hr).current with hcur | ⟨hal, -⟩
      · exact absurd (heq.trans hcur) halive.ne_invalid
      · exact absurd heq.symm (hb.alive hal).2
    · rw [hwin] at hv
      exact ha.flags k (hb.list ▸ hk) v hv
  · rw [hstatics.1, alive_congr hobjects, hwin]
    exact ((hs.active hr).born hs.base hb).current
  · obtain ⟨howner, hsep, hroom⟩ := hbands hr
    have hB := hs.bands hr
    have hunowned : ∀ k v, t.win k = some v → v.owner = invalidHandle := by
      intro k v hv
      rw [hwin, hb.win] at hv
      split at hv
      · cases hv
        exact howner
      · exact hB.unowned k v hv
    have hapart : ∀ k v, t.win k = some v → v.desktop = true → windowIsTopmost v = false := by
      intro k v hv
      rw [hwin, hb.win] at hv
      split at hv
      · cases hv
        exact hsep
      · exact hB.apart k v hv
    have hall : ∀ k, t.Alive k → k = h ∨ k ∈ s.list := by
      intro k hk
      by_cases hkh : k = h
      · exact .inl hkh
      · exact .inr (hB.all k (hb.alive_old hkh ((alive_congr hobjects k).mp hk)))
    have horder : Ordered t.win s.list := hB.order.congr
      (fun k hk => by rw [desktopAt, desktopAt, hold k hk])
      fun k hk => by rw [topmostAt, topmostAt, hold k hk]
    rcases hlist with ⟨-, ⟨hd, hl⟩ | ⟨hd, hl⟩⟩ | ⟨hfull, -⟩
    · rw [if_pos hd]
      refine ⟨hunowned, hapart, fun k hk => hl ▸ mem_cons.mpr (hall k hk), ?_⟩
      rw [hl]
      refine pairwise_cons.mpr ⟨fun k _ => ?_, horder⟩
      have hdesk : desktopAt t.win h = true := by rw [desktopAt, hwin, hnew]; exact hd
      have htop : topmostAt t.win h = false := by rw [topmostAt, hwin, hnew]; exact hsep hd
      exact ⟨fun _ => hdesk, fun ht => by rw [htop] at ht; cases ht⟩
    · rw [hd, if_neg (by simp)]
      refine ⟨hunowned, hapart, fun k hk => ?_, ?_, fun hfix => ?_⟩
      · rw [hl]
        exact mem_append.mpr ((hall k hk).symm.imp_right mem_singleton.mpr)
      · rw [hl, erase_append_right _ hnot, erase_cons_head, append_nil]
        exact horder
      · refine absurd hfix (not_or.mpr ⟨not_not.mpr ?_, fun hdesk => ?_⟩)
        · rw [hl]
          exact mem_append_right _ (mem_singleton_self h)
        · rw [hdesk w (by rw [hwin, hnew])] at hd
          cases hd
    · exact absurd hroom hfull

end Birth

/-! ## A window that goes -/

def reelect (hwnd : Handle) (s : State) : State :=
  if s.activeWindow = hwnd then
    let next := findTopmostVisibleWindow s
    setWindowActive next { s with activeWindow := next }
  else s

def startDestroy (hwnd : Handle) (s : State) : State :=
  reelect hwnd ((removeWindow hwnd s).alter hwnd fun o => some o.markDestroyed)

theorem destroyWindow_eq (env : Env) {s : State} {hwnd : Handle} {w : Window}
    (hw : s.win hwnd = some w) :
    win32kDestroyWindow env hwnd s = dereference hwnd (dereference hwnd
      (send env hwnd w.wndProc .destroy 0 (startDestroy hwnd (retain hwnd s)))) := by
  unfold win32kDestroyWindow
  rw [reference_some hw]
  rfl

structure Buried (h : Handle) (s s' : State) : Prop where
  list : s'.list = s.list.erase h
  activeWindow : s'.activeWindow = s.activeWindow
  pointer : s'.pointer = s.pointer
  log : s'.log = s.log
  created : s'.created = s.created
  core : ∀ k, s'.core k =
    if k = h then (s.core h).map fun c => { c with destroyed := true } else s.core k
  win : ∀ k, s'.win k = s.win k

section Death

variable {R : Rules} {i j : Hold} {s s' : State} {h k : Handle} {c : Core} {n : Nat}

theorem buried (h : Handle) (s : State) :
    Buried h s ((removeWindow h s).alter h fun o => some o.markDestroyed) := by
  have hlist : (removeWindow h s).list = s.list.erase h := by
    unfold removeWindow
    split
    · rfl
    · rename_i hno
      rw [erase_of_not_mem hno]
  have hobjects : (removeWindow h s).objects = s.objects := by
    unfold removeWindow
    split <;> rfl
  have hstatics : (removeWindow h s).activeWindow = s.activeWindow ∧
      (removeWindow h s).pointer = s.pointer ∧ (removeWindow h s).log = s.log ∧
      (removeWindow h s).created = s.created := by
    unfold removeWindow
    split <;> exact ⟨rfl, rfl, rfl, rfl⟩
  refine ⟨?_, ?_, ?_, ?_, ?_, fun k => ?_, fun k => ?_⟩
  · rw [State.alter_toZOrder, hlist]
  · rw [State.alter_activeWindow, hstatics.1]
  · rw [State.alter_pointer, hstatics.2.1]
  · rw [State.alter_log, hstatics.2.2.1]
  · rw [State.alter_created, hstatics.2.2.2]
  · rw [core_alter, lookup_congr hobjects, core_congr hobjects, State.core, State.core]
    split
    · cases s.lookup h <;> rfl
    · rfl
  · rw [State.win_alter_of_body fun o => ⟨o.markDestroyed, rfl, rfl⟩, win_congr hobjects]

theorem Buried.alive (hb : Buried h s s') (hne : k ≠ h) : s'.Alive k ↔ s.Alive k := by
  rw [alive_iff, alive_iff, hb.core, if_neg hne]

theorem Buried.holds (hb : Buried h s s') (hne : k ≠ h) (hh : s.Holds k n) : s'.Holds k n := by
  obtain ⟨c, hc, hrest⟩ := hh
  exact ⟨c, by rw [hb.core, if_neg hne, hc], hrest⟩

theorem Buried.holds_old (hb : Buried h s s') (hh : s'.Holds k n) : s.Holds k n ∧ k ≠ h := by
  obtain ⟨c, hc, hk, hd, hn⟩ := hh
  rw [hb.core] at hc
  by_cases hkh : k = h
  · rw [if_pos hkh] at hc
    obtain ⟨c', -, rfl⟩ := Option.map_eq_some_iff.mp hc
    cases hd
  · rw [if_neg hkh] at hc
    exact ⟨⟨c, hc, hk, hd, hn⟩, hkh⟩

def Gripped (s : State) (h : Handle) : Prop :=
  s.pointer.dragWindow = h ∨ s.pointer.resizeWindow = h ∨ s.pointer.captionPressHwnd = h

theorem Gesture.buried (hg : Gesture s) (hb : Buried h s s') (hfree : ¬ Gripped s h) :
    Gesture s' := by
  unfold Gripped at hfree
  simp only [not_or] at hfree
  constructor
  · rw [hb.pointer]
    exact hg.drag.imp_right (hb.holds hfree.1)
  · rw [hb.pointer]
    exact hg.resize.imp_right (hb.holds hfree.2.1)
  · rw [hb.pointer]
    exact hg.caption.imp_right fun ⟨n, hn, hh⟩ => ⟨n, hn, hb.holds hfree.2.2 hh⟩

theorem Bands.buried (hB : Bands s) (hb : Buried h s s') (hc : s.core h = some c) : Bands s' where
  unowned := fun k w hw => hB.unowned k w (hb.win k ▸ hw)
  apart := fun k w hw => hB.apart k w (hb.win k ▸ hw)
  all := fun k hk => by
    have hne : k ≠ h := by
      rintro rfl
      obtain ⟨d, hd, -, hdd⟩ := alive_iff.mp hk
      rw [hb.core, if_pos rfl, hc] at hd
      cases hd
      cases hdd
    rw [hb.list, mem_erase_of_ne hne]
    exact hB.all k ((hb.alive hne).mp hk)
  order := by
    rw [hb.list, show s'.win = s.win from funext hb.win]
    exact hB.order.erase h

theorem Base.buried (hs : Base i s) (hb : Buried h s s') (hc : s.core h = some c)
    (hcount : ∀ k, k ≠ h → j.count k = i.count k) (hself : j.count h ≤ c.refs)
    (hkind : c.kind ≠ .other) (hdead : ∀ k, j.dead k → i.dead k ∨ k = h) : Base j s' where
  nodup := hb.list ▸ hs.nodup.erase h
  short := by
    rw [hb.list]
    exact (length_erase_le).trans hs.short
  listed := fun k hk => by
    rw [hb.list] at hk
    obtain ⟨hne, hmem⟩ := hs.nodup.mem_erase_iff.mp hk
    exact (hb.alive hne).mpr (hs.listed k hmem)
  held := fun k d hd hdk => by
    rw [hb.core] at hd
    by_cases hk : k = h
    · subst hk
      rw [if_pos rfl, hc] at hd
      cases hd
      simpa using hself
    · rw [if_neg hk] at hd
      rw [hcount k hk]
      exact hs.held k d hd hdk
  present := fun k hk => by
    by_cases hkh : k = h
    · subst hkh
      exact ⟨{ c with destroyed := true }, by rw [hb.core, if_pos rfl, hc]; rfl, hkind⟩
    · rw [hcount k hkh] at hk
      rw [hb.core, if_neg hkh]
      exact hs.present k hk
  dead := fun k hk => by
    by_cases hkh : k = h
    · subst hkh
      exact ⟨{ c with destroyed := true }, by rw [hb.core, if_pos rfl, hc]; rfl, rfl⟩
    · rw [State.Dead, hb.core, if_neg hkh]
      exact hs.dead k ((hdead k hk).resolve_right hkh)

theorem Messages.buried (hm : Messages i s) (hb : Buried h s s') (hc : s.core h = some c)
    (hcount : ∀ k, k ≠ h → j.count k = i.count k)
    (hself : j.count h = i.count h + if c.destroyed then 0 else 1) : Messages j s' where
  silent := hb.log ▸ hm.silent
  unsent := fun k n hh => hb.log ▸ hm.unsent k n (hb.holds_old hh).1
  past := hb.log ▸ hb.created ▸ hm.past
  fresh := fun k d hd hdk => by
    rw [hb.core] at hd
    rw [hb.created]
    by_cases hk : k = h
    · subst hk
      rw [if_pos rfl, hc] at hd
      cases hd
      exact hm.fresh k c hc hdk
    · rw [if_neg hk] at hd
      exact hm.fresh k d hd hdk
  apart := fun k k' d d' hd hdk hd' hdk' heq => by
    have hold : ∀ k d, s'.core k = some d → ∃ e, s.core k = some e ∧ e.kind = d.kind ∧
        e.serial = d.serial := by
      intro k d hd
      rw [hb.core] at hd
      split at hd
      · rename_i hk
        obtain ⟨e, he, rfl⟩ := Option.map_eq_some_iff.mp hd
        exact ⟨e, hk ▸ he, rfl, rfl⟩
      · exact ⟨d, hd, rfl, rfl⟩
    obtain ⟨e, he, hek, hen⟩ := hold k d hd
    obtain ⟨e', he', hek', hen'⟩ := hold k' d' hd'
    exact hm.apart k k' e e' he (hek.trans hdk) he' (hek'.trans hdk') (hen'.trans (heq.trans hen.symm))
  exact := fun k d hd hdk => by
    rw [hb.core] at hd
    by_cases hk : k = h
    · subst hk
      rw [if_pos rfl, hc] at hd
      cases hd
      have := hm.exact k c hc hdk
      simp only [if_true]
      omega
    · rw [if_neg hk] at hd
      rw [hcount k hk]
      exact hm.exact k d hd hdk

theorem Sound.startDestroy (hs : Sound R i s) (hc : s.core h = some c) (hkind : c.kind ≠ .other)
    (hcount : ∀ k, k ≠ h → j.count k = i.count k) (hself : j.count h ≤ c.refs)
    (hdead : ∀ k, j.dead k → i.dead k ∨ k = h) (hgrip : R.gesture → ¬ Gripped s h)
    (hexact : R.messages → j.count h = i.count h + if c.destroyed then 0 else 1) :
    Sound R j (startDestroy h s) := by
  have hb := buried h s
  unfold Win32k.startDestroy
  generalize (removeWindow h s).alter h (fun o => some o.markDestroyed) = t at hb
  have hbase := hs.base.buried hb hc hcount hself hkind hdead
  have ht : Sound { R with active := False } j t :=
    ⟨hbase, fun hr => (hs.bands hr).buried hb hc, False.elim,
      fun hr => (hs.gesture hr).buried hb (hgrip hr),
      fun hr => (hs.messages hr).buried hb hc hcount (hexact hr)⟩
  unfold reelect
  split
  · rename_i hact
    simp only
    refine Sound.setWindowActive ⟨ht.base.congr rfl fun _ => rfl,
      fun hr => (ht.bands hr).of_objects rfl rfl, False.elim,
      fun hr => (ht.gesture hr).congr rfl fun _ => rfl,
      fun hr => (ht.messages hr).congr rfl (Nat.le_refl _) fun _ => rfl⟩ fun _ => ?_
    exact active_setWindowActive (elected hbase.listed)
  · rename_i hne
    refine ⟨ht.base, ht.bands, fun hr => ?_, ht.gesture, ht.messages⟩
    have ha := hs.active hr
    constructor
    · intro k hk w hw
      rw [hb.activeWindow]
      rw [hb.list] at hk
      exact ha.flags k (mem_of_mem_erase hk) w (hb.win k ▸ hw)
    · rw [hb.activeWindow] at hne ⊢
      rw [hb.win]
      exact ha.current.imp_right fun ⟨hal, hw⟩ => ⟨(hb.alive hne).mpr hal, hw⟩

end Death

end DiscouNT.Win32k
