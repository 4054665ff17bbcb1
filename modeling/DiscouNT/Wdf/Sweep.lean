import DiscouNT.Lib.History
import DiscouNT.Wdf.Destroy

/-!
# Wdf.Sweep

What one call of `wdf_destroy_object` leaves behind when the callbacks do not call the framework:
the object and its descendants are gone, the parent has lost one child and one reference, and every
other object is as it was. `Told` is what the log says about callbacks meanwhile.
-/

namespace DiscouNT.Wdf

open Lib List

/-! ## The objects -/

structure Sweep (w₀ : World) (h : Nat) (o : Object) (ts : List Task) (w : World) : Prop where
  stack : Stack ts w
  no_call : ∀ t ∈ ts, t.frame ≠ none
  inside : ∀ {a oa}, w.objects a = some oa → oa.destroying = true → a = h ∨ Below w₀ a h
  begun : ∀ {oh}, w.objects h = some oh → oh.destroying = true
  parent : ∀ {a oa}, w.objects a = some oa → ∃ oa', w₀.objects a = some oa' ∧ oa.parent = oa'.parent
  outside : ∀ {a}, a ≠ h → ¬ Below w₀ a h → w.objects a =
    if w.objects h = none ∧ o.parent = some a then (w₀.objects a).map (·.disown h)
    else w₀.objects a
  created : w.created = w₀.created

section Sweep

variable {w₀ w : World} {h : Nat} {o : Object} {t : Task} {ts : List Task}

theorem Sweep.start (hw : Forest w₀) (hidle : Idle w₀) (ho : w₀.objects h = some o) :
    Sweep w₀ h o (enter h o w₀).1 (enter h o w₀).2 := by
  have hs := (stack_start hw hidle h).drop_call.enter ho (hidle h o ho)
  rw [append_nil] at hs
  obtain ⟨k, u, _, htasks, hworld⟩ := Stack.enter_spec h o w₀
  have hlook : ∀ {a}, a ≠ h → (enter h o w₀).2.objects a = w₀.objects a := by
    intro a ha
    rw [hworld, World.put_other _ _ ha]
  refine ⟨hs, ?_, ?_, ?_, ?_, ?_, by rw [hworld]; rfl⟩
  · intro t ht
    rw [htasks] at ht
    rw [Stack.frame_of_mem_drop ht]
    simp
  · intro a oa ha hd
    by_cases hne : a = h
    · exact .inl hne
    · rw [hlook hne] at ha
      rw [hidle a oa ha] at hd
      cases hd
  · intro oh hoh
    rw [hworld, World.put_same] at hoh
    cases hoh
    rfl
  · intro a oa ha
    by_cases hne : a = h
    · subst hne
      rw [hworld, World.put_same] at ha
      cases ha
      exact ⟨o, ho, rfl⟩
    · rw [hlook hne] at ha
      exact ⟨oa, ha, rfl⟩
  · intro a hne _
    have hhere : (enter h o w₀).2.objects h ≠ none := by
      rw [hworld, World.put_same]
      simp
    rw [if_neg (fun hc => hhere hc.1), hlook hne]

theorem Sweep.of_objects {ts' : List Task} {w' : World} (hsw : Sweep w₀ h o (t :: ts) w)
    (hs : Stack ts' w') (hsub : ∀ u ∈ ts', u ∈ t :: ts) (hobj : w'.objects = w.objects)
    (hcr : w'.created = w.created) : Sweep w₀ h o ts' w' where
  stack := hs
  no_call := fun u hu => hsw.no_call u (hsub u hu)
  inside := by rw [hobj]; exact hsw.inside
  begun := by rw [hobj]; exact hsw.begun
  parent := by rw [hobj]; exact hsw.parent
  outside := by rw [hobj]; exact hsw.outside
  created := by rw [hcr]; exact hsw.created

theorem Sweep.act (ho : w₀.objects h = some o) (hsw : Sweep w₀ h o (t :: ts) w) :
    Sweep w₀ h o ((act .quiet t w).1 ++ ts) (act .quiet t w).2 := by
  have hs := hsw.stack.act .quiet
  have htop := hsw.no_call t mem_cons_self
  have hacts := act_cases .quiet hsw.stack
  generalize Wdf.act .quiet t w = r at hacts hs
  have hrest : ∀ u ∈ ts, u ∈ t :: ts := fun u hu => mem_cons_of_mem _ hu
  cases hacts with
  | skip hskip => exact absurd rfl htop
  | enter hh hd => exact absurd rfl htop
  | spin hh hch hc hp hd => exact hsw
  | leave hh hch => exact hsw.of_objects hs hrest rfl rfl
  | unload hh => exact hsw.of_objects hs hrest rfl rfl
  | cleanup hh hch hcb => exact hsw.of_objects hs hrest rfl rfl
  | noCleanup hh hcb => exact hsw.of_objects hs hrest rfl rfl
  | destroy hh hch hcb => exact hsw.of_objects hs hrest rfl rfl
  | noDestroy hh hcb => exact hsw.of_objects hs hrest rfl rfl
  | @descend b c ob oc rest hb hch hc hp hd =>
    obtain ⟨ob', hob', hdb, _⟩ := hsw.stack.head (t := .children b) rfl
    obtain ⟨oc', hoc', hpar⟩ := hsw.parent hc
    have hcb : Below w₀ c b := .child hoc' (hpar.symm.trans hp)
    have hch' : c = h ∨ Below w₀ c h := by
      rcases hsw.inside hob' hdb with rfl | hbelow
      · exact .inr hcb
      · exact .inr (hcb.trans hbelow)
    have hnh : c ≠ h := by
      rintro rfl
      rw [hsw.begun hc] at hd
      cases hd
    obtain ⟨k, u, _, htasks, hworld⟩ := Stack.enter_spec c oc w
    have hlook : ∀ {a}, a ≠ c → (enter c oc w).2.objects a = w.objects a := by
      intro a ha
      rw [hworld, World.put_other _ _ ha]
    refine ⟨hs, ?_, ?_, ?_, ?_, ?_, by rw [hworld]; exact hsw.created⟩
    · intro u hu
      rw [append_assoc, mem_append, htasks] at hu
      rcases hu with hu | hu
      · rw [Stack.frame_of_mem_drop hu]
        simp
      · exact hsw.no_call u hu
    · intro a oa ha hda
      by_cases hne : a = c
      · exact hne ▸ hch'
      · exact hsw.inside (by rwa [hlook hne] at ha) hda
    · intro oh hoh
      rw [hlook (Ne.symm hnh)] at hoh
      exact hsw.begun hoh
    · intro a oa ha
      by_cases hne : a = c
      · subst hne
        rw [hworld, World.put_same] at ha
        cases ha
        exact ⟨oc', hoc', hpar⟩
      · exact hsw.parent (by rwa [hlook hne] at ha)
    · intro a hne hnb
      have hac : a ≠ c := by
        rintro rfl
        exact hch'.elim hne hnb
      rw [hlook hac, hlook (Ne.symm hnh)]
      exact hsw.outside hne hnb
  | @finish b ob hb hch =>
    obtain ⟨ob', hob', hdb, _⟩ := hsw.stack.head (t := .finish b) rfl
    obtain ⟨ob0, hob0, hpar⟩ := hsw.parent hb
    have hkind := hsw.inside hob' hdb
    refine ⟨hs, fun u hu => hsw.no_call u (hrest u hu), ?_, ?_, ?_, ?_, ?_⟩
    · intro a oa ha hda
      obtain ⟨_, oa', hoa, _, _, hd⟩ := finish_parent hsw.stack.forest hb ha
      exact hsw.inside hoa (hd.trans hda)
    · intro oh hoh
      obtain ⟨_, oh', hoh', _, _, hd⟩ := finish_parent hsw.stack.forest hb hoh
      rw [← hd]
      exact hsw.begun hoh'
    · intro a oa ha
      obtain ⟨_, oa', hoa, hpa, _⟩ := finish_parent hsw.stack.forest hb ha
      obtain ⟨oa0, hoa0, hpa0⟩ := hsw.parent hoa
      exact ⟨oa0, hoa0, hpa.symm.trans hpa0⟩
    · intro a hne hnb
      have hab : a ≠ b := by
        rintro rfl
        exact hkind.elim hne hnb
      have hout := hsw.outside hne hnb
      simp only [finish_objects hsw.stack.forest hb, if_neg hab]
      by_cases hbh : b = h
      · subst hbh
        cases hob0.symm.trans ho
        have hhere : ¬ (w.objects b = none ∧ o.parent = some a) := by
          rw [hb]
          simp
        rw [if_neg hhere] at hout
        simp only [if_pos, true_and, hpar, hout]
      · -- the parent of a proper descendant is not outside
        have hpa : ob.parent ≠ some a := by
          intro hp
          have hchild : Below w₀ b a := .child hob0 (hpar.symm.trans hp)
          rcases hkind with heq | hbelow
          · exact hbh heq
          · cases hbelow with
            | child hb' hp' =>
              cases hob0.symm.trans hb'
              cases (hpar.symm.trans hp).symm.trans hp'
              exact hne rfl
            | step hb' hp' hrest =>
              cases hob0.symm.trans hb'
              cases (hpar.symm.trans hp).symm.trans hp'
              exact hnb hrest
        rw [if_neg hpa, if_neg (Ne.symm hbh), hout]
        split
        · rename_i hc
          rw [if_pos]
          refine ⟨?_, hc.2⟩
          rw [hc.1]
          split <;> rfl
        · rename_i hc
          rw [if_neg]
          intro hc'
          refine hc ⟨?_, hc'.2⟩
          cases hwh : w.objects h with
          | none => rfl
          | some oh =>
            have := hc'.1
            rw [hwh] at this
            split at this <;> cases this
    · rw [(finish_log hsw.stack.forest hb).2]
      exact hsw.created

/-- The world `w'` after the destruction of `h`, which was `o`, in `w₀`. -/
structure Swept (w₀ : World) (h : Nat) (o : Object) (w' : World) : Prop where
  forest : Forest w'
  idle : Idle w'
  created : w'.created = w₀.created
  gone : ∀ {a}, a = h ∨ Below w₀ a h → w'.objects a = none
  kept : ∀ {a}, a ≠ h → ¬ Below w₀ a h → w'.objects a =
    if o.parent = some a then (w₀.objects a).map (·.disown h) else w₀.objects a

theorem Sweep.swept (hsw : Sweep w₀ h o [] w) : Swept w₀ h o w := by
  have hidle : Idle w := by
    intro a oa ha
    cases hd : oa.destroying with
    | false => rfl
    | true => cases hsw.stack.frame_of_destroying ha hd
  have hh : w.objects h = none := by
    cases hwh : w.objects h with
    | none => rfl
    | some oh =>
      have := hsw.begun hwh
      rw [hidle h oh hwh] at this
      cases this
  -- whatever is left has its ancestors left, and `h` is not
  have hbelow : ∀ {a}, Below w₀ a h → w.objects a = none := by
    intro a hb
    cases hwa : w.objects a with
    | none => rfl
    | some oa =>
      exfalso
      induction hb generalizing oa with
      | child ha hp =>
        obtain ⟨oa', hoa', hpar⟩ := hsw.parent hwa
        cases ha.symm.trans hoa'
        obtain ⟨po, hpo, _⟩ := hsw.stack.forest.parent hwa (hpar.trans hp)
        rw [hh] at hpo
        cases hpo
      | step ha hp _ ih =>
        obtain ⟨oa', hoa', hpar⟩ := hsw.parent hwa
        cases ha.symm.trans hoa'
        obtain ⟨po, hpo, _⟩ := hsw.stack.forest.parent hwa (hpar.trans hp)
        exact ih hsw hh po hpo
  refine ⟨hsw.stack.forest, hidle, hsw.created, ?_, ?_⟩
  · rintro a (rfl | hb)
    · exact hh
    · exact hbelow hb
  · intro a hne hnb
    rw [hsw.outside hne hnb]
    simp only [hh, true_and]

theorem cost_quiet_le (w : World) (l : List Nat) : (l.map (w.cost .quiet)).sum ≤ 6 * l.length := by
  induction l with
  | nil => exact Nat.le_refl _
  | cons a l ih =>
    have ha : w.cost .quiet a ≤ 6 := by
      unfold World.cost
      split
      · omega
      · split
        · omega
        · simp [Callbacks.quiet]
    simp only [map_cons, sum_cons, length_cons]
    omega

theorem wdfDestroyObject_ends {P : List Task → World → Prop} (hw : Forest w₀) (hidle : Idle w₀)
    (ho : w₀.objects h = some o) (hstart : P (enter h o w₀).1 (enter h o w₀).2)
    (hP : ∀ t ts w, P (t :: ts) w → Stack (t :: ts) w →
      P ((act .quiet t w).1 ++ ts) (act .quiet t w).2) :
    Sweep w₀ h o [] (wdfDestroyObject h w₀) ∧ P [] (wdfDestroyObject h w₀) := by
  have hsteps : ∀ n, (fun ts w => Sweep w₀ h o ts w ∧ P ts w)
      (drive (Wdf.act .quiet) n (enter h o w₀)).1 (drive (Wdf.act .quiet) n (enter h o w₀)).2 := by
    refine drive_invariant (P := fun ts w => Sweep w₀ h o ts w ∧ P ts w) (Q := fun _ _ => True) ?_
      (fun _ => trivial) ⟨Sweep.start hw hidle ho, hstart⟩
    rintro t ts w ⟨hsw, hp⟩ _
    exact ⟨hsw.act ho, hP t ts w hp hsw.stack⟩
  have hno : ∀ n, ¬ Overtakes (drive (Wdf.act .quiet) n (enter h o w₀)).1
      (drive (Wdf.act .quiet) n (enter h o w₀)).2 := by
    rintro n ⟨x, rest, _, _, _, heq, _⟩
    exact (hsteps n).1.no_call (.call x) (by rw [heq]; exact mem_cons_self) rfl
  obtain ⟨l, hlen, hl⟩ := hw.finite
  have hord : Ordered (enter h o w₀).1 (enter h o w₀).2 := by
    have hnil : Ordered [] w₀ := List.Pairwise.nil
    have := hnil.enter hw ho (fun u hu => by cases hu)
    rwa [append_nil] at this
  have hbounded : Bounded l (enter h o w₀).1 (enter h o w₀).2 := by
    refine ⟨(hsteps 0).1.stack, hord, ?_⟩
    intro a oa ha
    obtain ⟨oa', hoa, _⟩ := (hsteps 0).1.parent ha
    exact hl hoa
  have hends := drive_ends hbounded hno
  have hfuel : remaining .quiet l (enter h o w₀).1 (enter h o w₀).2 ≤ 6 * w₀.created + 5 := by
    have hlt : remaining .quiet l ((enter h o w₀).1 ++ []) (enter h o w₀).2 <
        remaining .quiet l [] w₀ := remaining_enter ho (hidle h o ho) (hl ho)
    have hcost := cost_quiet_le w₀ l
    rw [append_nil] at hlt
    simp only [remaining, map_nil, sum_nil] at hlt ⊢
    omega
  have hfirst : wdfDestroyObject h w₀ = (drive (Wdf.act .quiet) (6 * w₀.created + 5)
      (enter h o w₀)).2 := by
    have hact : Wdf.act .quiet (.call h) w₀ = enter h o w₀ := by simp [Wdf.act, ho, hidle h o ho]
    simp only [wdfDestroyObject, wdfObjectDelete, drive, advance, hact, append_nil]
  have hlast := hsteps (6 * w₀.created + 5)
  simp only [drive_of_empty hends hfuel] at hlast hfirst
  rw [hends] at hlast
  rw [hfirst]
  exact hlast

theorem wdfDestroyObject_swept (hw : Forest w₀) (hidle : Idle w₀) (ho : w₀.objects h = some o) :
    Swept w₀ h o (wdfDestroyObject h w₀) :=
  (wdfDestroyObject_ends (P := fun _ _ => True) hw hidle ho trivial
    (fun _ _ _ _ _ => trivial)).1.swept

end Sweep

/-! ## The log -/

inductive Phase where
  | cleanup
  | destroy

def Phase.event : Phase → Nat → Event
  | .cleanup => .cleanup
  | .destroy => .destroy

def Phase.task : Phase → Nat → Task
  | .cleanup => .cleanup
  | .destroy => .destroy

def Phase.present : Phase → Object → Bool
  | .cleanup => Object.cleanup
  | .destroy => Object.destroy

def Settled (log old : List Event) (e : Event) : Prop :=
  ∀ (ph : Phase) (s c : Nat), e = ph.event s → .created c (some s) ∈ log →
    c ∈ old.filterMap Event.freedSerial

structure Told (ts : List Task) (w : World) : Prop where
  live : ∀ (ph : Phase) {a o}, w.objects a = some o → w.log.count (ph.event o.serial) =
    if ph.present o = true ∧ o.destroying = true ∧ ph.task a ∉ ts then 1 else 0
  freed : ∀ (ph : Phase) {o}, .freed o ∈ w.log →
    w.log.count (ph.event o.serial) = if ph.present o = true then 1 else 0
  fresh : ∀ (ph : Phase) {s}, w.created ≤ s → w.log.count (ph.event s) = 0
  born : ∀ {c s}, .created c (some s) ∈ w.log → c ∈ w.freed ∨
    ∃ a oa p po, w.objects a = some oa ∧ oa.serial = c ∧ oa.parent = some p ∧
      w.objects p = some po ∧ po.serial = s
  after : ∀ new e old, w.log = new ++ e :: old → Settled w.log old e

section Told

variable {w w' : World} {h : Nat} {o : Object} {t : Task} {ts ts' : List Task}

theorem Told.empty : Told [] World.empty where
  live := by intro ph a o ha; cases ha
  freed := by intro ph o ho; cases ho
  fresh := by intro ph s _; rfl
  born := by intro c s hc; cases hc
  after := by intro new e old heq; simp [World.empty] at heq

theorem Phase.event_inj {ph ph' : Phase} {s s' : Nat} (heq : ph.event s = ph'.event s') :
    ph = ph' ∧ s = s' := by
  cases ph <;> cases ph' <;> cases heq <;> exact ⟨rfl, rfl⟩

theorem Phase.event_ne_freed (ph : Phase) (s : Nat) (o : Object) : ph.event s ≠ .freed o := by
  cases ph <;> exact Event.noConfusion

theorem Phase.event_ne_created (ph : Phase) (s c : Nat) (p : Option Nat) :
    ph.event s ≠ .created c p := by
  cases ph <;> exact Event.noConfusion

theorem Told.note (hw : Told ts w) {e : Event} (hev : ∀ (ph : Phase) s, e ≠ ph.event s)
    (hfreed : ∀ o, e ≠ .freed o) (hcreated : ∀ c s, e ≠ .created c s) : Told ts (w.note e) where
  live := by
    intro ph a o ha
    rw [World.note_log, count_cons_of_ne (hev ph _)]
    exact hw.live ph ha
  freed := by
    intro ph o ho
    rw [World.note_log, count_cons_of_ne (hev ph _)]
    rcases mem_cons.mp ho with heq | ho
    · exact absurd heq.symm (hfreed o)
    · exact hw.freed ph ho
  fresh := by
    intro ph s hs
    rw [World.note_log, count_cons_of_ne (hev ph _)]
    exact hw.fresh ph hs
  born := by
    intro c s hc
    rcases mem_cons.mp hc with heq | hc
    · exact absurd heq.symm (hcreated _ _)
    · rcases hw.born hc with hf | hl
      · exact .inl (mem_filterMap.mpr (by
          obtain ⟨e', he', hs⟩ := mem_filterMap.mp hf
          exact ⟨e', mem_cons_of_mem _ he', hs⟩))
      · exact .inr hl
  after := by
    have hsub : ∀ old e', Settled w.log old e' → Settled (w.note e).log old e' := by
      intro old e' hset ph s c heq hc
      rcases mem_cons.mp hc with hce | hc
      · exact absurd hce.symm (hcreated _ _)
      · exact hset ph s c heq hc
    rw [World.note_log]
    refine forall_split_cons.mpr ⟨fun new b old heq => hsub _ _ (hw.after new b old heq), ?_⟩
    intro ph s c heq
    exact absurd heq (hev ph s)

theorem Told.of_tasks (hw : Told ts w)
    (htask : ∀ (ph : Phase) a o, w.objects a = some o → ph.present o = true → o.destroying = true →
      (ph.task a ∈ ts' ↔ ph.task a ∈ ts)) : Told ts' w where
  live := by
    intro ph a o ha
    rw [hw.live ph ha]
    by_cases hp : ph.present o = true ∧ o.destroying = true
    · simp only [htask ph a o ha hp.1 hp.2]
    · rw [if_neg (fun hc => hp ⟨hc.1, hc.2.1⟩), if_neg (fun hc => hp ⟨hc.1, hc.2.1⟩)]
  freed := hw.freed
  fresh := hw.fresh
  born := hw.born
  after := hw.after

def Object.story (o : Object) : Option Nat × Nat × Bool × Bool × Bool :=
  (o.parent, o.serial, o.cleanup, o.destroy, o.destroying)

theorem exists_story (hst : ∀ a, (w'.objects a).map Object.story = (w.objects a).map Object.story)
    {a : Nat} {o' : Object} (ha : w'.objects a = some o') :
    ∃ o, w.objects a = some o ∧ o.parent = o'.parent ∧ o.serial = o'.serial ∧
      o.destroying = o'.destroying ∧ ∀ ph : Phase, ph.present o = ph.present o' := by
  have hs := hst a
  rw [ha] at hs
  cases ho : w.objects a with
  | none => rw [ho] at hs; cases hs
  | some o =>
    rw [ho] at hs
    simp only [Option.map_some, Object.story, Option.some.injEq, Prod.mk.injEq] at hs
    refine ⟨o, rfl, hs.1.symm, hs.2.1.symm, hs.2.2.2.2.symm, ?_⟩
    intro ph
    cases ph
    · exact hs.2.2.1.symm
    · exact hs.2.2.2.1.symm

theorem Told.of_story (hw : Told ts w) (hcreated : w'.created = w.created) (hlog : w'.log = w.log)
    (hst : ∀ a, (w'.objects a).map Object.story = (w.objects a).map Object.story) : Told ts w' where
  live := by
    intro ph a o' ha
    obtain ⟨o, ho, _, hser, hd, hph⟩ := exists_story hst ha
    rw [hlog, ← hser, ← hd, ← hph]
    exact hw.live ph ho
  freed := by
    intro ph o ho
    rw [hlog] at ho ⊢
    exact hw.freed ph ho
  fresh := by
    intro ph s hs
    rw [hlog]
    exact hw.fresh ph (hcreated ▸ hs)
  born := by
    intro c s hc
    rw [hlog] at hc
    rcases hw.born hc with hf | ⟨a, oa, p, po, ha, hs, hp, hpo, hps⟩
    · exact .inl (by rw [World.freed, hlog]; exact hf)
    · obtain ⟨oa', hoa', hpar, hser, _⟩ := exists_story (fun b => (hst b).symm) ha
      obtain ⟨po', hpo', _, hser', _⟩ := exists_story (fun b => (hst b).symm) hpo
      exact .inr ⟨a, oa', p, po', hoa', hser.trans hs, hpar.trans hp, hpo', hser'.trans hps⟩
  after := by
    rw [hlog]
    exact hw.after

theorem Phase.task_frame (ph : Phase) (a : Nat) : (ph.task a).frame = some a := by
  cases ph <;> rfl

theorem Phase.task_mem_drop (ph : Phase) (a : Nat) {k : Nat} (hk : k < 2) :
    ph.task a ∈ (allFrames a).drop k := by
  have hcases : k = 0 ∨ k = 1 := by omega
  rcases hcases with rfl | rfl <;> cases ph <;> simp [allFrames, Phase.task]

theorem Told.enter (hw : Told ts w) (ho : w.objects h = some o)
    (hd : o.destroying = false) : Told ((enter h o w).1 ++ ts) (enter h o w).2 := by
  obtain ⟨k, u, hk, htasks, hworld⟩ := Stack.enter_spec h o w
  rw [htasks, hworld]
  refine ⟨?_, hw.freed, hw.fresh, ?_, hw.after⟩
  · intro ph a oa ha
    by_cases hne : a = h
    · subst hne
      rw [World.put_same] at ha
      cases ha
      have hcount := hw.live ph ho
      rw [if_neg (by simp [hd])] at hcount
      rw [World.put_log, if_neg (fun hc => hc.2.2 (mem_append_left _ (ph.task_mem_drop a hk)))]
      exact hcount
    · rw [World.put_other _ _ hne] at ha
      rw [World.put_log, hw.live ph ha]
      have hiff : ph.task a ∈ (allFrames h).drop k ++ ts ↔ ph.task a ∈ ts := by
        refine ⟨fun hmem => ?_, fun hmem => mem_append_right _ hmem⟩
        rcases mem_append.mp hmem with hmem | hmem
        · have hframe := Stack.frame_of_mem_drop hmem
          rw [ph.task_frame] at hframe
          cases hframe
          exact absurd rfl hne
        · exact hmem
      simp only [hiff]
  · intro c s hc
    rcases hw.born hc with hf | ⟨a, oa, p, po, ha, hsa, hp, hpo, hps⟩
    · exact .inl hf
    · have hlook : ∀ {b ob}, w.objects b = some ob → ∃ ob', (w.put h (some
          { o with destroying := true, unloadCalled := u })).objects b = some ob' ∧
          ob'.parent = ob.parent ∧ ob'.serial = ob.serial := by
        intro b ob hb
        by_cases hne : b = h
        · subst hne
          cases ho.symm.trans hb
          exact ⟨_, World.put_same _ _ _, rfl, rfl⟩
        · exact ⟨ob, by rw [World.put_other _ _ hne, hb], rfl, rfl⟩
      obtain ⟨oa', hoa', hpa, hsa'⟩ := hlook ha
      obtain ⟨po', hpo', _, hps'⟩ := hlook hpo
      exact .inr ⟨a, oa', p, po', hoa', hsa'.trans hsa, hpa.trans hp, hpo', hps'.trans hps⟩

theorem Told.pop (hw : Told (t :: ts) w) (ht : ∀ (ph : Phase) a, t ≠ ph.task a) : Told ts w := by
  refine hw.of_tasks ?_
  intro ph a o _ _ _
  exact ⟨mem_cons_of_mem _, fun hmem =>
    (mem_cons.mp hmem).elim (fun heq => absurd heq.symm (ht ph a)) id⟩

theorem Phase.task_inj {ph ph' : Phase} {a b : Nat} (heq : ph.task a = ph'.task b) :
    ph = ph' ∧ a = b := by
  cases ph <;> cases ph' <;> cases heq <;> exact ⟨rfl, rfl⟩

theorem Told.absent (ph : Phase) (hw : Told (ph.task h :: ts) w) (ho : w.objects h = some o)
    (hp : ph.present o = false) : Told ts w := by
  refine hw.of_tasks ?_
  intro ph' a oa ha hpa _
  refine ⟨mem_cons_of_mem _, fun hmem => (mem_cons.mp hmem).elim (fun heq => ?_) id⟩
  obtain ⟨rfl, rfl⟩ := Phase.task_inj heq
  cases ho.symm.trans ha
  rw [hp] at hpa
  cases hpa

theorem Stack.phase_once {ph : Phase} (hs : Stack (ph.task h :: ts) w) : ph.task h ∉ ts := by
  intro hmem
  obtain ⟨_, _, _, hrest, _⟩ := hs.head (ph.task_frame h)
  have hin : ph.task h ∈ frames h ts := mem_frames.mpr ⟨hmem, ph.task_frame h⟩
  rw [hrest] at hin
  cases ph <;> simp [allFrames, Phase.task, Task.index] at hin

theorem Stack.phase_childless {ph : Phase} (hs : Stack (ph.task h :: ts) w)
    (ho : w.objects h = some o) : o.children = [] := by
  obtain ⟨o', ho', _, _, hch⟩ := hs.head (ph.task_frame h)
  cases ho.symm.trans ho'
  exact hch (by cases ph <;> simp [Phase.task, Task.index])

theorem Told.callback (ph : Phase) (hs : Stack (ph.task h :: ts) w) (hw : Told (ph.task h :: ts) w)
    (ho : w.objects h = some o) (hp : ph.present o = true) :
    Told ts (w.note (ph.event o.serial)) := by
  have hchildren := hs.phase_childless ho
  obtain ⟨o', ho', hd, _⟩ := hs.head (ph.task_frame h)
  cases ho.symm.trans ho'
  have hother : ∀ {ph' : Phase} {s}, (ph = ph' → s ≠ o.serial) →
      (w.note (ph.event o.serial)).log.count (ph'.event s) = w.log.count (ph'.event s) := by
    intro ph' s hne
    rw [World.note_log, count_cons_of_ne]
    intro heq
    obtain ⟨hph, hs⟩ := Phase.event_inj heq
    exact hne hph hs.symm
  refine ⟨?_, ?_, ?_, ?_, ?_⟩
  · intro ph' a oa ha
    have hiff : (ph = ph' → a ≠ h) → (ph'.task a ∈ ts ↔ ph'.task a ∈ ph.task h :: ts) := by
      intro hne
      refine ⟨mem_cons_of_mem _, fun hmem => (mem_cons.mp hmem).elim (fun heq => ?_) id⟩
      obtain ⟨hph, hah⟩ := Phase.task_inj heq
      exact absurd hah (hne hph.symm)
    have hrest : (ph = ph' → a ≠ h) → (w.note (ph.event o.serial)).log.count (ph'.event oa.serial) =
        if ph'.present oa = true ∧ oa.destroying = true ∧ ph'.task a ∉ ts then 1 else 0 := by
      intro hne
      rw [hother (fun hph hser => hne hph (hs.forest.serial_inj ha ho hser)), hw.live ph' ha]
      simp only [hiff hne]
    by_cases hph : ph = ph'
    · subst hph
      by_cases hah : a = h
      · subst hah
        cases ho.symm.trans ha
        have hzero := hw.live ph ho
        rw [if_neg (fun hc => hc.2.2 mem_cons_self)] at hzero
        rw [World.note_log, count_cons_self, hzero, if_pos ⟨hp, hd, hs.phase_once⟩]
      · exact hrest fun _ => hah
    · exact hrest fun heq => absurd heq hph
  · intro ph' of hof
    rcases mem_cons.mp hof with heq | hof
    · exact absurd heq.symm (ph.event_ne_freed _ _)
    · rw [hother fun _ hser => hs.forest.freed_gone ho (hser ▸ mem_filterMap.mpr ⟨_, hof, rfl⟩)]
      exact hw.freed ph' hof
  · intro ph' s hle
    have hlt := hs.forest.serial_lt ho
    rw [hother fun _ hser => by
      rw [World.note_created] at hle
      omega]
    exact hw.fresh ph' hle
  · intro c s hc
    rcases mem_cons.mp hc with heq | hc
    · exact absurd heq.symm (ph.event_ne_created _ _ _)
    · rcases hw.born hc with hf | hl
      · refine .inl ?_
        obtain ⟨e', he', hfs⟩ := mem_filterMap.mp hf
        exact mem_filterMap.mpr ⟨e', mem_cons_of_mem _ he', hfs⟩
      · exact .inr hl
  · have hsub : ∀ {c s}, Event.created c s ∈ (w.note (ph.event o.serial)).log →
        Event.created c s ∈ w.log := by
      intro c s hc
      rcases mem_cons.mp hc with heq | hc
      · exact absurd heq.symm (ph.event_ne_created _ _ _)
      · exact hc
    rw [World.note_log]
    refine forall_split_cons.mpr ⟨?_, ?_⟩
    · intro new b old heq ph' s c hb hc
      exact hw.after new b old heq ph' s c hb (hsub hc)
    · -- a child that is not freed would still be linked
      intro ph' s c heq hc
      obtain ⟨_, rfl⟩ := Phase.event_inj heq
      rcases hw.born (hsub hc) with hf | ⟨a, oa, p, po, ha, _, hpar, hpo, hser⟩
      · exact hf
      · obtain rfl := hs.forest.serial_inj hpo ho hser
        cases ho.symm.trans hpo
        obtain ⟨po', hpo', hmem, _⟩ := hs.forest.parent ha hpar
        cases ho.symm.trans hpo'
        rw [hchildren] at hmem
        cases hmem

theorem disown_callbacks (o : Object) (h : Nat) :
    (o.disown h).cleanup = o.cleanup ∧ (o.disown h).destroy = o.destroy := by
  rw [Object.disown]
  exact ⟨rfl, rfl⟩

theorem adopt_callbacks (o : Object) (h : Nat) :
    (o.adopt h).cleanup = o.cleanup ∧ (o.adopt h).destroy = o.destroy := by
  rw [Object.adopt]
  exact ⟨rfl, rfl⟩

@[simp] theorem Phase.present_disown (ph : Phase) (o : Object) (h : Nat) :
    ph.present (o.disown h) = ph.present o := by
  cases ph
  · exact (disown_callbacks o h).1
  · exact (disown_callbacks o h).2

@[simp] theorem Phase.present_adopt (ph : Phase) (o : Object) (h : Nat) :
    ph.present (o.adopt h) = ph.present o := by
  cases ph
  · exact (adopt_callbacks o h).1
  · exact (adopt_callbacks o h).2

theorem mem_freed_cons {e : Event} {s : Nat} (hs : s ∈ w.freed) :
    s ∈ (e :: w.log).filterMap Event.freedSerial := by
  obtain ⟨e', he', hfs⟩ := mem_filterMap.mp hs
  exact mem_filterMap.mpr ⟨e', mem_cons_of_mem _ he', hfs⟩

theorem Told.finish (hs : Stack (.finish h :: ts) w) (hw : Told (.finish h :: ts) w)
    (ho : w.objects h = some o) : Told ts (finish h o w) := by
  obtain ⟨o', ho', hd, hrest, hch⟩ := hs.head (t := .finish h) rfl
  cases ho.symm.trans ho'
  have hchildren : o.children = [] := hch (by simp [Task.index])
  obtain ⟨hlog, hcr⟩ := finish_log hs.forest ho
  have hcount : ∀ (ph : Phase) s,
      (Wdf.finish h o w).log.count (ph.event s) = w.log.count (ph.event s) := by
    intro ph s
    rw [hlog, count_cons_of_ne (fun heq => ph.event_ne_freed s o heq.symm)]
  have hgone : ∀ ph : Phase, ph.task h ∉ ts := by
    intro ph hmem
    have hin : ph.task h ∈ frames h ts := mem_frames.mpr ⟨hmem, ph.task_frame h⟩
    rw [hrest] at hin
    cases hin
  have hcreated : ∀ {c s}, Event.created c s ∈ (Wdf.finish h o w).log →
      Event.created c s ∈ w.log := by
    intro c s hc
    rw [hlog] at hc
    rcases mem_cons.mp hc with heq | hc
    · cases heq
    · exact hc
  have hpop := hw.pop (fun ph a => by cases ph <;> simp [Phase.task])
  refine ⟨?_, ?_, ?_, ?_, ?_⟩
  · intro ph a oa ha
    obtain ⟨hne, oa', hoa, ⟨_, rfl⟩ | ⟨_, rfl⟩⟩ := finish_other hs.forest ho ha
    · rw [hcount, disown_serial, disown_destroying, Phase.present_disown]
      exact hpop.live ph hoa
    · rw [hcount]
      exact hpop.live ph hoa
  · intro ph of hof
    rw [hcount]
    rw [hlog] at hof
    rcases mem_cons.mp hof with heq | hof
    · cases heq
      rw [hpop.live ph ho]
      simp only [hd, hgone, not_false_eq_true, and_self, and_true]
    · exact hw.freed ph hof
  · intro ph s hle
    rw [hcount]
    exact hw.fresh ph (hcr ▸ hle)
  · intro c s hc
    rw [World.freed, hlog]
    rcases hw.born (hcreated hc) with hf | ⟨a, oa, p, po, ha, hsa, hpar, hpo, hps⟩
    · exact .inl (mem_freed_cons hf)
    · by_cases hah : a = h
      · subst hah
        cases ho.symm.trans ha
        exact .inl (mem_filterMap.mpr ⟨_, mem_cons_self, by rw [← hsa]; rfl⟩)
      · have hph : p ≠ h := by
          rintro rfl
          obtain ⟨po', hpo', hmem, _⟩ := hs.forest.parent ha hpar
          cases ho.symm.trans hpo'
          rw [hchildren] at hmem
          cases hmem
        refine .inr ⟨a, _, p, _, finish_keeps hs.forest ho ha hah, ?_, ?_,
          finish_keeps hs.forest ho hpo hph, ?_⟩
        · split
          · rw [disown_serial]; exact hsa
          · exact hsa
        · split
          · rw [disown_parent]; exact hpar
          · exact hpar
        · split
          · rw [disown_serial]; exact hps
          · exact hps
  · rw [hlog]
    refine forall_split_cons.mpr ⟨?_, ?_⟩
    · intro new b old heq ph s c hb hc
      refine hw.after new b old heq ph s c hb (hcreated ?_)
      rw [hlog]
      exact hc
    · intro ph s c heq
      exact absurd heq.symm (ph.event_ne_freed s o)

theorem Told.act (hs : Stack (t :: ts) w) (hw : Told (t :: ts) w) :
    Told ((act .quiet t w).1 ++ ts) (act .quiet t w).2 := by
  have hacts := act_cases .quiet hs
  generalize Wdf.act .quiet t w = r at hacts
  cases hacts with
  | skip hskip => exact hw.pop (fun ph a => by cases ph <;> simp [Phase.task])
  | enter hh hd =>
    exact Told.enter (hw.pop (fun ph a => by cases ph <;> simp [Phase.task])) hh hd
  | descend hh hch hc hp hd =>
    rw [append_assoc]
    exact Told.enter hw hc hd
  | spin hh hch hc hp hd => exact hw
  | leave hh hch => exact hw.pop (fun ph a => by cases ph <;> simp [Phase.task])
  | unload hh =>
    refine (hw.pop (fun ph a => by cases ph <;> simp [Phase.task])).note ?_ ?_ ?_
    · intro ph s
      cases ph <;> simp [Phase.event]
    · intro o heq
      cases heq
    · intro c s heq
      cases heq
  | cleanup hh hch hcb => exact Told.callback .cleanup hs hw hh hcb
  | noCleanup hh hcb => exact Told.absent .cleanup hw hh hcb
  | destroy hh hch hcb => exact Told.callback .destroy hs hw hh hcb
  | noDestroy hh hcb => exact Told.absent .destroy hw hh hcb
  | finish hh hch => exact Told.finish hs hw hh

theorem wdfDestroyObject_told (hf : Forest w) (hidle : Idle w) (hw : Told [] w)
    (ho : w.objects h = some o) : Told [] (wdfDestroyObject h w) := by
  have hstart : Told (Wdf.enter h o w).1 (Wdf.enter h o w).2 := by
    have := Told.enter hw ho (hidle h o ho)
    rwa [append_nil] at this
  exact (wdfDestroyObject_ends hf hidle ho hstart fun t ts w hw hs => Told.act hs hw).2

theorem Told.perform {c : Creation} (hidle : Idle w) (hw : Told [] w) (hc : c.Legal w) :
    Told [] (c.perform w) := by
  obtain ⟨_, _, hcr, hlog⟩ := perform_spec hc
  have hcount : ∀ (ph : Phase) s, (c.perform w).log.count (ph.event s) = w.log.count (ph.event s) := by
    intro ph s
    rw [hlog, count_cons_of_ne (fun heq => ph.event_ne_created s _ _ heq.symm)]
  refine ⟨?_, ?_, ?_, ?_, ?_⟩
  · intro ph a oa ha
    rw [hcount]
    rcases perform_cases hc ha with ⟨_, rfl⟩ | ⟨_, oa', hoa, ⟨_, rfl⟩ | ⟨_, rfl⟩⟩
    · rw [object_serial, object_destroying, if_neg (by simp)]
      exact hw.fresh ph (Nat.le_refl _)
    · rw [adopt_serial, adopt_destroying, Phase.present_adopt]
      exact hw.live ph hoa
    · exact hw.live ph hoa
  · intro ph of hof
    rw [hcount]
    rw [hlog] at hof
    rcases mem_cons.mp hof with heq | hof
    · cases heq
    · exact hw.freed ph hof
  · intro ph s hle
    rw [hcount]
    exact hw.fresh ph (by omega)
  · intro b s hb
    rw [World.freed, hlog]
    rw [hlog] at hb
    have hold : ∀ {b ob}, w.objects b = some ob → ∃ ob', (c.perform w).objects b = some ob' ∧
        ob'.parent = ob.parent ∧ ob'.serial = ob.serial := by
      intro b ob hob
      refine ⟨_, (perform_keeps hc hob).2, ?_, ?_⟩
      · split
        · exact adopt_parent _ _
        · rfl
      · split
        · exact adopt_serial _ _
        · rfl
    rcases mem_cons.mp hb with heq | hb
    · -- the new object
      cases hpar : (c.object w).parent with
      | none => rw [hpar] at heq; cases heq
      | some p =>
        obtain ⟨_, po, hpo⟩ := hc.parent_live hpar
        rw [hpar, Option.bind_some, hpo] at heq
        cases heq
        obtain ⟨po', hpo', _, hps⟩ := hold hpo
        exact .inr ⟨c.a, _, p, po', perform_new hc, object_serial, hpar, hpo', hps⟩
    · rcases hw.born hb with hf | ⟨a, oa, p, po, ha, hsa, hpar, hpo, hps⟩
      · exact .inl (mem_freed_cons hf)
      · obtain ⟨oa', hoa', hpa, hsa'⟩ := hold ha
        obtain ⟨po', hpo', _, hps'⟩ := hold hpo
        exact .inr ⟨a, oa', p, po', hoa', hsa'.trans hsa, hpa.trans hpar, hpo', hps'.trans hps⟩
  · rw [hlog]
    refine forall_split_cons.mpr ⟨?_, ?_⟩
    · intro new e old heq ph s b he hb
      rcases mem_cons.mp hb with hbe | hb
      · -- the parent is there, so it has run no callback
        exfalso
        cases hpar : (c.object w).parent with
        | none => rw [hpar] at hbe; cases hbe
        | some p =>
          obtain ⟨_, po, hpo⟩ := hc.parent_live hpar
          rw [hpar, Option.bind_some, hpo] at hbe
          cases hbe
          have hzero := hw.live ph hpo
          rw [if_neg (by rw [hidle p po hpo]; simp)] at hzero
          refine count_eq_zero.mp hzero ?_
          rw [heq, ← he]
          simp
      · exact hw.after new e old heq ph s b he hb
    · intro ph s b heq
      exact absurd heq.symm (ph.event_ne_created s _ _)

end Told

end DiscouNT.Wdf
