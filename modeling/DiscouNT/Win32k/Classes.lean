import Mathlib.Data.Nat.Find
import DiscouNT.Win32k.Bands
import DiscouNT.Win32k.Writes

/-!
# Win32k.Classes

Which object `Win32kCreateWindowEx` takes for a class.
-/

namespace DiscouNT.Win32k

open Lib Relation List

/-- The object with serial `n` is the first class registered for exactly that name. -/
def FirstFor (log : List Event) (name : Name) (n : Nat) : Prop :=
  .registered n name ∈ log ∧ ∀ m, .registered m name ∈ log → n ≤ m

/-- Each class was registered and each window is stored under its title, and a serial was registered
for one name only. -/
structure Filed (s : State) : Prop where
  classes : ∀ h o c, s.lookup h = some o → o.body = .wndClass c →
    ∃ name, .registered o.serial name ∈ s.log ∧ o.name = Ob.storedName name
  windows : ∀ h o w, s.lookup h = some o → o.body = .window w → o.name = Ob.storedName w.title
  past : ∀ n name, .registered n name ∈ s.log → n < s.created
  one : ∀ n name name', .registered n name ∈ s.log → .registered n name' ∈ s.log → name' = name

def FirstAt (s : State) (name : Name) (h : Handle) : Prop :=
  ∃ o c, s.lookup h = some o ∧ o.body = .wndClass c ∧ o.name = name ∧ FirstFor s.log name o.serial

/-- An object that is found by the name but is not to be taken for its class: a window with that
title, a class with a longer name that begins so, or a class registered for it later. -/
inductive Rival (s : State) (name : Name) (o : Object) : Prop
  | window {w : Window} (hb : o.body = .window w) (ht : Ob.storedName w.title = name)
  | longer {c : WndClass} {name' : Name} (hb : o.body = .wndClass c)
      (hr : .registered o.serial name' ∈ s.log) (hne : name' ≠ name)
      (hn : Ob.storedName name' = name)
  | later {c : WndClass} {m : Nat} (hb : o.body = .wndClass c)
      (hr : .registered o.serial name ∈ s.log) (hn : Ob.storedName name = name)
      (hm : .registered m name ∈ s.log) (hlt : m < o.serial)

/-- Every rival is in a higher slot than the first class registered for the name. -/
def Clear (s : State) (name : Name) : Prop :=
  ∀ h o, s.lookup h = some o → Rival s name o → ∃ k < h, FirstAt s name k

def RightClass (s : State) (name : Name) : Prop :=
  ∀ h, findObject name s = some h → FirstAt s name h

/-- Every creation so far went on with the first class registered for the name it was asked for. -/
def AllRight (log : List Event) : Prop :=
  ∀ newer older name n, log = newer ++ .classUsed name n :: older → FirstFor older name n

section Find

variable {s : State} {h : Handle} {o : Object} {name : Name}

/-- What `ObFindObject` compares. -/
def Matches (name : Name) (o : Object) : Prop := o.body ≠ .other ∧ o.name = name

theorem findObject_eq_some : findObject name s = some h ↔
    (∃ o, s.lookup h = some o ∧ Matches name o) ∧
      ∀ k < h, ∀ o, s.lookup k = some o → ¬ Matches name o := by
  have htest : ∀ k, k < maxObjects →
      (((s.objects k).any fun o => decide (o.body ≠ .other) && decide (o.name = name)) = true ↔
        ∃ o, s.lookup k = some o ∧ Matches name o) := by
    intro k hk
    rw [State.lookup, if_pos hk]
    cases s.objects k <;> simp [Matches]
  unfold findObject
  rw [find?_range_eq_some]
  constructor
  · rintro ⟨hp, hlt, hlow⟩
    have hlt := mem_range.mp hlt
    refine ⟨(htest h hlt).mp hp, fun k hk o ho hm => ?_⟩
    have hno := hlow k hk
    rw [(htest k (hk.trans hlt)).mpr ⟨o, ho, hm⟩] at hno
    cases hno
  · rintro ⟨⟨o, ho, hm⟩, hlow⟩
    have hlt : h < maxObjects := by
      by_contra hge
      rw [State.lookup, if_neg hge] at ho
      cases ho
    refine ⟨(htest h hlt).mpr ⟨o, ho, hm⟩, mem_range.mpr hlt, fun k hk => ?_⟩
    rw [Bool.not_eq_true', Bool.eq_false_iff]
    intro hp
    obtain ⟨o', ho', hm'⟩ := (htest k (hk.trans hlt)).mp hp
    exact hlow k hk o' ho' hm'

theorem exists_findObject (ho : s.lookup h = some o) (hm : Matches name o) :
    ∃ k ≤ h, findObject name s = some k := by
  classical
  have hex : ∃ k, ∃ o, s.lookup k = some o ∧ Matches name o := ⟨h, o, ho, hm⟩
  refine ⟨Nat.find hex, Nat.find_min' hex ⟨o, ho, hm⟩, findObject_eq_some.mpr ⟨Nat.find_spec hex, ?_⟩⟩
  intro k hk o' ho' hm'
  exact Nat.find_min hex hk ⟨o', ho', hm'⟩

theorem FirstAt.matches (hf : FirstAt s name h) : ∃ o, s.lookup h = some o ∧ Matches name o := by
  obtain ⟨o, c, ho, hb, hn, -⟩ := hf
  exact ⟨o, ho, by rw [hb]; nofun, hn⟩

theorem Rival.matches (hf : Filed s) (ho : s.lookup h = some o) (hr : Rival s name o) :
    Matches name o := by
  cases hr with
  | window hb ht => exact ⟨by rw [hb]; nofun, (hf.windows h o _ ho hb).trans ht⟩
  | longer hb hreg _ hn =>
    obtain ⟨name', hreg', hname⟩ := hf.classes h o _ ho hb
    exact ⟨by rw [hb]; nofun, by rw [hname, hf.one _ _ _ hreg hreg', hn]⟩
  | later hb hreg hn _ _ =>
    obtain ⟨name', hreg', hname⟩ := hf.classes h o _ ho hb
    exact ⟨by rw [hb]; nofun, by rw [hname, hf.one _ _ _ hreg hreg', hn]⟩

theorem Rival.not_first (hf : Filed s) (ho : s.lookup h = some o) (hr : Rival s name o) :
    ¬ FirstAt s name h := by
  rintro ⟨o', c, ho', hb', -, hreg', hmin⟩
  cases Option.some.inj (ho.symm.trans ho')
  cases hr with
  | window hb _ =>
    rw [hb] at hb'
    cases hb'
  | longer _ hreg hne _ => exact hne (hf.one _ _ _ hreg' hreg)
  | later _ _ _ hm hlt => exact absurd (hmin _ hm) (Nat.not_le.mpr hlt)

theorem first_or_rival (hf : Filed s) (ho : s.lookup h = some o) (hm : Matches name o) :
    FirstAt s name h ∨ Rival s name o := by
  obtain ⟨hother, hname⟩ := hm
  cases hb : o.body with
  | window w => exact .inr (.window hb ((hf.windows h o w ho hb).symm.trans hname))
  | other => exact absurd hb hother
  | wndClass c =>
    obtain ⟨name', hreg, hstored⟩ := hf.classes h o c ho hb
    have hn : Ob.storedName name' = name := hstored.symm.trans hname
    by_cases heq : name' = name
    · subst heq
      by_cases hlater : ∃ m, .registered m name' ∈ s.log ∧ m < o.serial
      · obtain ⟨m, hm, hlt⟩ := hlater
        exact .inr (.later hb hreg hn hm hlt)
      · exact .inl ⟨o, c, ho, hb, hname, hreg, fun m hm => Nat.le_of_not_lt fun hlt =>
          hlater ⟨m, hm, hlt⟩⟩
    · exact .inr (.longer hb hreg heq hn)

theorem rightClass_iff_clear (hf : Filed s) (name : Name) : RightClass s name ↔ Clear s name := by
  constructor
  · intro hright h o ho hr
    obtain ⟨k, hk, hfind⟩ := exists_findObject ho (hr.matches hf ho)
    refine ⟨k, lt_of_le_of_ne hk ?_, hright k hfind⟩
    rintro rfl
    exact hr.not_first hf ho (hright k hfind)
  · intro hclear h hfind
    obtain ⟨⟨o, ho, hm⟩, hlow⟩ := findObject_eq_some.mp hfind
    rcases first_or_rival hf ho hm with hfirst | hr
    · exact hfirst
    · obtain ⟨k, hk, hfirst⟩ := hclear h o ho hr
      obtain ⟨o', ho', hm'⟩ := hfirst.matches
      exact absurd hm' (hlow k hk o' ho')

end Find

/-! ## Runs -/

/-- A creation by name is made in a state in which nothing stands before the first class registered
for it. -/
def Clean (_ : Env) (c : Call) (s : State) : Prop := ∀ name t, Looks c s name t → Clear t name

/-- Runs of calls, also by window procedures `depth` deep, that are `ok`. -/
def CallRun (ok : Env → Call → State → Prop) (depth : Nat) (s s' : State) : Prop :=
  ReflTransGen (CallsIn exec ok (Nested exec reacts ok (fun _ _ _ => True) depth)) s s'

section Runs

variable {env : Env} {T : Handle → State → (Window → Window) → Prop} {U : Name → State → Prop}
  {s s' : State} {h : Handle} {name : Name} {log : List Event} {e : Event} {n depth : Nat}
  {body : Body}

theorem objects_of_lookup {o : Object} (ho : s.lookup h = some o) : s.objects h = some o := by
  unfold State.lookup at ho
  split at ho
  · exact ho
  · cases ho

theorem storedName_take (title : Name) : Ob.storedName (title.take 63) = Ob.storedName title := by
  simp [Ob.storedName, Ob.maxNameLen, take_take]

theorem Filed.mono (hf : Filed s) (hlog : s'.log = s.log) (hc : s.created ≤ s'.created)
    (hsame : ∀ h o', s'.lookup h = some o' → o'.body = .other ∨ ∃ o f, s.lookup h = some o ∧
      o'.name = o.name ∧ o'.serial = o.serial ∧ o'.body = o.body.mapWindow f ∧
        ∀ w, (f w).title = w.title) : Filed s' where
  classes := fun h o' c ho' hb => by
    rcases hsame h o' ho' with hother | ⟨o, f, ho, hname, hserial, hbody, -⟩
    · rw [hother] at hb
      cases hb
    · rw [hlog, hname, hserial]
      cases hold : o.body with
      | wndClass c' => exact hf.classes h o c' ho hold
      | window w => simp [hbody, hold, Body.mapWindow] at hb
      | other => simp [hbody, hold, Body.mapWindow] at hb
  windows := fun h o' w' ho' hb => by
    rcases hsame h o' ho' with hother | ⟨o, f, ho, hname, -, hbody, htitle⟩
    · rw [hother] at hb
      cases hb
    · rw [hname]
      cases hold : o.body with
      | window w =>
        simp only [hbody, hold, Body.mapWindow, Body.window.injEq] at hb
        rw [hf.windows h o w ho hold, ← hb, htitle]
      | wndClass c => simp [hbody, hold, Body.mapWindow] at hb
      | other => simp [hbody, hold, Body.mapWindow] at hb
  past := fun n name hr => Nat.lt_of_lt_of_le (hf.past n name (hlog ▸ hr)) hc
  one := fun n name name' hr hr' => hf.one n name name' (hlog ▸ hr) (hlog ▸ hr')

theorem Filed.note (hf : Filed s) (he : ∀ n name, e ≠ .registered n name) : Filed (s.addLog e) := by
  have hold : ∀ n name, .registered n name ∈ (s.addLog e).log → .registered n name ∈ s.log :=
    fun n name hr => (mem_cons.mp hr).resolve_left fun heq => he n name heq.symm
  refine ⟨fun h o c ho hb => ?_, hf.windows, fun n name hr => hf.past n name (hold n name hr),
    fun n name name' hr hr' => hf.one n name name' (hold _ _ hr) (hold _ _ hr')⟩
  obtain ⟨name, hr, hn⟩ := hf.classes h o c ho hb
  exact ⟨name, mem_cons_of_mem _ hr, hn⟩

theorem Filed.register {c : WndClass} (hf : Filed s) (hc : Created name (.wndClass c) h s s') :
    Filed (s'.addLog (.registered s.created name)) where
  classes := fun k o c' ho hb => by
    rw [show (s'.addLog _).lookup k = s'.lookup k from rfl, hc.lookup] at ho
    by_cases hk : k = h
    · rw [if_pos hk] at ho
      cases ho
      exact ⟨name, mem_cons_self, rfl⟩
    · rw [if_neg hk] at ho
      obtain ⟨name', hr, hn⟩ := hf.classes k o c' ho hb
      exact ⟨name', mem_cons_of_mem _ (hc.log ▸ hr), hn⟩
  windows := fun k o w ho hb => by
    rw [show (s'.addLog _).lookup k = s'.lookup k from rfl, hc.lookup] at ho
    by_cases hk : k = h
    · rw [if_pos hk] at ho
      cases ho
      cases hb
    · rw [if_neg hk] at ho
      exact hf.windows k o w ho hb
  past := fun n name' hr => by
    rw [show (s'.addLog _).created = s'.created from rfl, hc.created]
    rcases mem_cons.mp hr with heq | hr
    · cases heq
      exact Nat.lt_succ_self _
    · exact Nat.lt_succ_of_lt (hf.past n name' (hc.log ▸ hr))
  one := fun n name1 name2 hr hr' => by
    rw [show (s'.addLog _).log = .registered s.created name :: s'.log from rfl, hc.log,
      mem_cons] at hr hr'
    rcases hr with heq | hr
    · cases heq
      rcases hr' with heq' | hr'
      · cases heq'
        rfl
      · exact absurd (hf.past _ _ hr') (Nat.lt_irrefl _)
    · rcases hr' with heq' | hr'
      · cases heq'
        exact absurd (hf.past _ _ hr) (Nat.lt_irrefl _)
      · exact hf.one n name1 name2 hr hr'

theorem Filed.window {w : Window} {title : Name} (hf : Filed s) (ht : w.title = title.take 63)
    (hc : Created title (.window w) h s s') : Filed s' where
  classes := fun k o c ho hb => by
    rw [hc.lookup] at ho
    by_cases hk : k = h
    · rw [if_pos hk] at ho
      cases ho
      cases hb
    · rw [if_neg hk] at ho
      rw [hc.log]
      exact hf.classes k o c ho hb
  windows := fun k o w' ho hb => by
    rw [hc.lookup] at ho
    by_cases hk : k = h
    · rw [if_pos hk] at ho
      cases ho
      cases hb
      rw [ht, storedName_take]
      rfl
    · rw [if_neg hk] at ho
      exact hf.windows k o w' ho hb
  past := fun n name hr => hc.created ▸ Nat.lt_succ_of_lt (hf.past n name (hc.log ▸ hr))
  one := fun n name name' hr hr' => hf.one n name name' (hc.log ▸ hr) (hc.log ▸ hr')

theorem body_mapWindow_id (b : Body) : b.mapWindow id = b := by cases b <;> rfl

theorem Filed.updWin {f : Window → Window} (hf : Filed s) (ht : ∀ w, (f w).title = w.title) :
    Filed (updWin h f s) := by
  refine hf.mono updWin_log updWin_created.ge fun k o' ho' => ?_
  rw [Win32k.updWin, State.lookup_alter] at ho'
  by_cases hk : k = h
  · subst hk
    rw [if_pos rfl] at ho'
    obtain ⟨o, ho, heq⟩ := Option.bind_eq_some_iff.mp ho'
    cases heq
    exact .inr ⟨o, f, ho, rfl, rfl, rfl, ht⟩
  · rw [if_neg hk] at ho'
    exact .inr ⟨o', id, ho', rfl, rfl, (body_mapWindow_id _).symm, fun _ => rfl⟩

theorem Filed.write (hf : Filed s) (hw : Write env T U s s')
    (hreact : ∀ r, Filed (reacts env r s)) : Filed s' := by
  cases hw with
  | statics ho hc hl =>
    refine hf.mono hl hc.ge fun h o' ho' => .inr ⟨o', id, ?_, rfl, rfl, (body_mapWindow_id _).symm,
      fun _ => rfl⟩
    rwa [State.lookup, ho] at ho'
  | sent => exact hf.note (by simp)
  | used _ _ => exact hf.note (by simp)
  | count hg =>
    refine hf.mono State.alter_log State.alter_created.ge fun h o' ho' => ?_
    obtain ⟨o, ho, hr⟩ := lookup_count hg ho'
    exact .inr ⟨o, id, ho, hr.name, hr.serial, by rw [body_mapWindow_id, hr.body], fun _ => rfl⟩
  | fields hfields => exact hf.updWin fun w => (hfields w).2
  | shape _ _ htitle => exact hf.updWin htitle
  | register hc => exact hf.register (createObject_created hc)
  | window ht hc => exact hf.window ht (createObject_created hc)
  | @other slot =>
    refine hf.mono (log_toggle slot s) (created_toggle slot s) fun h o' ho' => ?_
    rcases lookup_toggle ho' with hold | rfl
    · exact .inr ⟨o', id, hold, rfl, rfl, (body_mapWindow_id _).symm, fun _ => rfl⟩
    · exact .inl rfl
  | react => exact hreact _

theorem Filed.exec {c : Call} (hreact : ∀ r s, Filed s → Filed (reacts env r s)) (hf : Filed s) :
    Filed (exec env c s) := by
  have hpath := exec_writes env c s
  generalize Win32k.exec env c s = s' at hpath
  induction hpath with
  | refl => exact hf
  | tail _ hwrite ih => exact ih.write hwrite fun r => hreact r _ ih

theorem AllRight.cons (hr : AllRight log)
    (he : ∀ name n, e = .classUsed name n → FirstFor log name n) : AllRight (e :: log) := by
  intro newer older name n heq
  cases newer with
  | nil =>
    obtain ⟨rfl, rfl⟩ := List.cons.inj heq
    exact he name n rfl
  | cons e' newer =>
    obtain ⟨rfl, htail⟩ := List.cons.inj heq
    exact hr newer older name n htail

theorem Clear.first (hf : Filed s) (hclear : Clear s name) (hfind : findObject name s = some h) :
    FirstFor s.log name (s.serialAt h) := by
  obtain ⟨o, c, ho, -, -, hfirst⟩ := (rightClass_iff_clear hf name).mpr hclear h hfind
  rw [State.serialAt, ho]
  exact hfirst

theorem AllRight.write (hr : AllRight s.log) (hf : Filed s) (hw : Write env T U s s')
    (hU : ∀ name t, U name t → Clear t name)
    (hreact : ∀ r, AllRight (reacts env r s).log) : AllRight s'.log := by
  cases hw with
  | statics _ _ hl => rwa [hl]
  | sent => exact hr.cons nofun
  | used hu hfind =>
    refine hr.cons fun name n heq => ?_
    cases heq
    exact (hU _ _ hu).first hf hfind
  | count _ => rwa [State.alter_log]
  | fields _ => rwa [updWin_log]
  | shape _ _ _ => rwa [updWin_log]
  | register hc =>
    have hlog := (createObject_created hc).log
    exact AllRight.cons (hlog ▸ hr) nofun
  | window _ hc => rwa [(createObject_created hc).log]
  | other => rwa [log_toggle]
  | react => exact hreact _

theorem AllRight.exec {c : Call} (hc : Clean env c s)
    (hreact : ∀ r s, Filed s ∧ AllRight s.log → Filed (reacts env r s) ∧
      AllRight (reacts env r s).log) (hs : Filed s ∧ AllRight s.log) :
    Filed (exec env c s) ∧ AllRight (exec env c s).log := by
  have hpath := exec_writes env c s
  generalize Win32k.exec env c s = s' at hpath
  induction hpath with
  | refl => exact hs
  | tail _ hwrite ih =>
    exact ⟨ih.1.write hwrite fun r => (hreact r _ ih).1,
      ih.2.write ih.1 hwrite hc fun r => (hreact r _ ih).2⟩

theorem Started.filed (hs : Started s) : Filed s where
  classes := fun h o c ho hb => by
    rw [hs.objects h o (objects_of_lookup ho)] at hb
    cases hb
  windows := fun h o w ho hb => by
    rw [hs.objects h o (objects_of_lookup ho)] at hb
    cases hb
  past := fun n name hr => by
    rw [hs.log] at hr
    cases hr
  one := fun n name name' hr => by
    rw [hs.log] at hr
    cases hr

theorem Started.allRight (hs : Started s) : AllRight s.log := by
  intro newer older name n heq
  rw [hs.log] at heq
  simp at heq

theorem CallRun.filed (hrun : CallRun (fun _ _ _ => True) depth s s') (hf : Filed s) : Filed s' := by
  refine Nested.run_keeps (J := fun (_ : Unit) => Filed) ?_ ?_ (i := ()) hrun hf
  · intro env _ henv _ c s _ hs
    exact Filed.exec (henv ()) hs
  · intro env _ henv c s _ hs
    exact Filed.exec (henv ()) hs

theorem CallRun.allRight (hrun : CallRun Clean depth s s') (hs : Filed s ∧ AllRight s.log) :
    Filed s' ∧ AllRight s'.log := by
  refine Nested.run_keeps (J := fun (_ : Unit) s => Filed s ∧ AllRight s.log) ?_ ?_ (i := ()) hrun hs
  · intro env _ henv _ c s hc hs
    exact AllRight.exec hc (henv ()) hs
  · intro env _ henv c s hc hs
    exact AllRight.exec hc (henv ()) hs

/-- The search for a class ends at the first one registered for exactly that name if and only if
nothing stands before it. So all creations went on with the right class if it was so whenever one
was asked for. -/
theorem classes_found (hs : Started s) :
    (∀ s', CallRun (fun _ _ _ => True) depth s s' → ∀ name, RightClass s' name ↔ Clear s' name) ∧
      ∀ s', CallRun Clean depth s s' → AllRight s'.log :=
  ⟨fun _ hrun name => rightClass_iff_clear (hrun.filed hs.filed) name,
    fun _ hrun => (hrun.allRight ⟨hs.filed, hs.allRight⟩).2⟩

end Runs

theorem classes_found_boot :
    (∀ s', CallRun (fun _ _ _ => True) 1 boot s' → ∀ name, RightClass s' name ↔ Clear s' name) ∧
      ∀ s', CallRun Clean 1 boot s' → AllRight s'.log :=
  classes_found boot_started

def titledLikeClass : List Call :=
  [.registerClass (text "Main") 0 none,
    .createWindowEx (text "Main") (text "Edit") 0 0 100 100 wsVisible 0 invalidHandle,
    .registerClass (text "Edit") 0 none,
    .createWindowEx (text "Edit") (text "Note") 0 0 100 100 wsVisible 0 invalidHandle]

/-- The window with serial 1 is taken for the class with serial 2. -/
theorem classes_confused : Started boot ∧ (runAll calm titledLikeClass boot).log =
      [.classUsed (text "Edit") 1, .registered 2 (text "Edit"), .classUsed (text "Main") 0,
        .registered 0 (text "Main")] ∧
    ((runAll calm titledLikeClass boot).win 1).map (·.title) = some (text "Edit") ∧
    (runAll calm titledLikeClass boot).serialAt 1 = 1 ∧
    ¬ AllRight (runAll calm titledLikeClass boot).log := by
  have hlog : (runAll calm titledLikeClass boot).log =
      [.classUsed (text "Edit") 1, .registered 2 (text "Edit"), .classUsed (text "Main") 0,
        .registered 0 (text "Main")] := by decide +kernel
  refine ⟨boot_started, hlog, by decide +kernel, by decide +kernel, fun hright => ?_⟩
  have hfirst := (hright [] _ _ _ hlog).1
  revert hfirst
  decide +kernel

end DiscouNT.Win32k
