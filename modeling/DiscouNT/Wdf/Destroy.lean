import Mathlib
import DiscouNT.Wdf.Forest

/-!
# Wdf.Destroy

`wdf_object_delete` with callbacks that delete objects of the tree.

Every object is freed at most once, whatever the callbacks do. The deletion comes to an end exactly
when no callback overtakes: when none deletes an object of which a descendant is being destroyed
and which is not being destroyed itself. The child loop of such an object finds, sooner or later, a
child that returns at once and stays linked.
-/

namespace DiscouNT.Wdf

open Lib List

def Task.frame : Task → Option Nat
  | .call _ => none
  | .unload h => some h
  | .children h => some h
  | .cleanup h => some h
  | .destroy h => some h
  | .finish h => some h

def Task.index : Task → Nat
  | .call _ => 0
  | .unload _ => 0
  | .children _ => 1
  | .cleanup _ => 2
  | .destroy _ => 3
  | .finish _ => 4

def allFrames (h : Nat) : List Task := [.unload h, .children h, .cleanup h, .destroy h, .finish h]

def frames (h : Nat) (ts : List Task) : List Task := ts.filter fun t => decide (t.frame = some h)

theorem frames_cons_same {h : Nat} {t : Task} {ts : List Task} (ht : t.frame = some h) :
    frames h (t :: ts) = t :: frames h ts := by
  simp [frames, ht]

theorem frames_cons_other {h : Nat} {t : Task} {ts : List Task} (ht : t.frame ≠ some h) :
    frames h (t :: ts) = frames h ts := by
  simp [frames, ht]

@[simp] theorem frames_append (h : Nat) (ts us : List Task) :
    frames h (ts ++ us) = frames h ts ++ frames h us := by
  simp [frames]

@[simp] theorem frames_calls (h : Nat) (l : List Nat) : frames h (l.map .call) = [] := by
  simp [frames, Task.frame]

theorem mem_frames {h : Nat} {t : Task} {ts : List Task} :
    t ∈ frames h ts ↔ t ∈ ts ∧ t.frame = some h := by
  simp [frames]

theorem drop_allFrames_cons {h k : Nat} {t : Task} {ts : List Task}
    (heq : t :: ts = (allFrames h).drop k) :
    k = t.index ∧ k < 5 ∧ ts = (allFrames h).drop (k + 1) := by
  have hk : k < 5 := by
    by_contra hk
    rw [drop_of_length_le (by simp only [allFrames, length_cons, length_nil]; omega)]
      at heq
    cases heq
  have hcases : k = 0 ∨ k = 1 ∨ k = 2 ∨ k = 3 ∨ k = 4 := by omega
  rcases hcases with rfl | rfl | rfl | rfl | rfl <;> cases heq <;> exact ⟨rfl, by decide, rfl⟩

structure Stack (ts : List Task) (w : World) : Prop where
  forest : Forest w
  idle : ∀ {h}, (∀ o, w.objects h = some o → o.destroying = false) → frames h ts = []
  busy : ∀ {h o}, w.objects h = some o → o.destroying = true →
    ∃ k, k < 5 ∧ frames h ts = (allFrames h).drop k ∧ (2 ≤ k → o.children = [])

namespace Stack

variable {ts : List Task} {w w' : World} {t : Task} {h : Nat}

theorem head (hs : Stack (t :: ts) w) (ht : t.frame = some h) :
    ∃ o, w.objects h = some o ∧ o.destroying = true ∧
      frames h ts = (allFrames h).drop (t.index + 1) ∧ (2 ≤ t.index → o.children = []) := by
  have hne : frames h (t :: ts) ≠ [] := by
    rw [frames_cons_same ht]
    exact cons_ne_nil _ _
  have hex : ∃ o, w.objects h = some o ∧ o.destroying = true := by
    by_contra hno
    refine hne (hs.idle ?_)
    intro o ho
    cases hd : o.destroying with
    | false => rfl
    | true => exact absurd ⟨o, ho, hd⟩ hno
  obtain ⟨o, ho, hd⟩ := hex
  obtain ⟨k, _, hframes, hchildren⟩ := hs.busy ho hd
  rw [frames_cons_same ht] at hframes
  obtain ⟨rfl, _, hrest⟩ := drop_allFrames_cons hframes
  exact ⟨o, ho, hd, hrest, hchildren⟩

theorem drop_call (hs : Stack (.call h :: ts) w) : Stack ts w where
  forest := hs.forest
  idle := fun hidle => by
    rw [← hs.idle hidle]
    exact (frames_cons_other (by simp [Task.frame])).symm
  busy := fun {b o} ho hd => by
    obtain ⟨k, hk, hframes, hch⟩ := hs.busy ho hd
    exact ⟨k, hk, by rw [← hframes]; exact (frames_cons_other (by simp [Task.frame])).symm, hch⟩

theorem of_objects (hs : Stack ts w) (hobj : w'.objects = w.objects) (hw : Forest w') :
    Stack ts w' where
  forest := hw
  idle := by rw [hobj]; exact hs.idle
  busy := by rw [hobj]; exact hs.busy

theorem calls (hs : Stack ts w) (l : List Nat) : Stack (l.map .call ++ ts) w where
  forest := hs.forest
  idle := fun hidle => by rw [frames_append, frames_calls, hs.idle hidle]; rfl
  busy := fun ho hd => by
    obtain ⟨k, hk, hframes, hch⟩ := hs.busy ho hd
    exact ⟨k, hk, by rw [frames_append, frames_calls, hframes]; rfl, hch⟩

theorem pop (hs : Stack (t :: ts) w) (ht : t.frame = some h) (hlast : t.index < 4)
    (hchildren : t.index = 1 → ∀ o, w.objects h = some o → o.children = []) : Stack ts w where
  forest := hs.forest
  idle := fun {b} hidle => by
    have hb := hs.idle hidle
    by_cases heq : t.frame = some b
    · rw [frames_cons_same heq] at hb
      cases hb
    · rwa [frames_cons_other heq] at hb
  busy := fun {b ob} hob hd => by
    by_cases heq : b = h
    · subst heq
      obtain ⟨o, ho, _, hrest, hch⟩ := hs.head ht
      cases ho.symm.trans hob
      refine ⟨t.index + 1, by omega, hrest, fun hk => ?_⟩
      by_cases h1 : t.index = 1
      · exact hchildren h1 ob hob
      · exact hch (by omega)
    · obtain ⟨k, hk, hframes, hch⟩ := hs.busy hob hd
      refine ⟨k, hk, ?_, hch⟩
      rwa [frames_cons_other (by rw [ht]; simpa using Ne.symm heq)] at hframes

theorem enter_spec (h : Nat) (o : Object) (w : World) :
    ∃ k u, k < 2 ∧ (enter h o w).1 = (allFrames h).drop k ∧
      (enter h o w).2 = w.put h (some { o with destroying := true, unloadCalled := u }) := by
  unfold enter
  split
  · exact ⟨0, true, by decide, rfl, rfl⟩
  · exact ⟨1, o.unloadCalled, by decide, rfl, rfl⟩

theorem frames_drop_allFrames (h k : Nat) : frames h ((allFrames h).drop k) = (allFrames h).drop k := by
  rw [frames, filter_eq_self]
  intro t ht
  have hmem := mem_of_mem_drop ht
  simp only [allFrames, mem_cons, not_mem_nil, or_false] at hmem
  rcases hmem with rfl | rfl | rfl | rfl | rfl <;> simp [Task.frame]

theorem frame_of_mem_drop {h k : Nat} {t : Task} (ht : t ∈ (allFrames h).drop k) :
    t.frame = some h := by
  rw [← frames_drop_allFrames] at ht
  exact (mem_frames.mp ht).2

theorem frames_drop_other {h b k : Nat} (hne : b ≠ h) : frames b ((allFrames h).drop k) = [] := by
  rw [frames, filter_eq_nil_iff]
  intro t ht
  rw [frame_of_mem_drop ht]
  simpa using Ne.symm hne

theorem enter {o : Object} (hs : Stack ts w) (ho : w.objects h = some o)
    (hd : o.destroying = false) : Stack ((enter h o w).1 ++ ts) (enter h o w).2 := by
  obtain ⟨k, u, hk, htasks, hworld⟩ := enter_spec h o w
  rw [htasks, hworld]
  have hnone : frames h ts = [] := hs.idle fun o' ho' => by cases ho.symm.trans ho'; exact hd
  refine ⟨hs.forest.put ho rfl, ?_, ?_⟩
  · intro b hidle
    have hne : b ≠ h := by
      rintro rfl
      have := hidle _ (World.put_same _ _ _)
      cases this
    rw [frames_append, frames_drop_other hne, hs.idle ?_]
    · rfl
    · intro o' ho'
      exact hidle o' (by rwa [World.put_other _ _ hne])
  · intro b ob hob hdb
    by_cases hne : b = h
    · subst hne
      refine ⟨k, by omega, ?_, by omega⟩
      rw [frames_append, frames_drop_allFrames, hnone, append_nil]
    · rw [World.put_other _ _ hne] at hob
      obtain ⟨j, hj, hframes, hch⟩ := hs.busy hob hdb
      exact ⟨j, hj, by rw [frames_append, frames_drop_other hne, hframes]; rfl, hch⟩

theorem finish {o : Object} (hs : Stack (.finish h :: ts) w) (ho : w.objects h = some o) :
    Stack ts (finish h o w) := by
  obtain ⟨o', ho', _, hrest, hch⟩ := hs.head (t := .finish h) rfl
  cases ho.symm.trans ho'
  have hchildren : o.children = [] := hch (by simp [Task.index])
  refine ⟨hs.forest.finish ho hchildren, ?_, ?_⟩
  · intro b hidle
    by_cases hne : b = h
    · subst hne
      rw [hrest]
      rfl
    · rw [← hs.idle (h := b) ?_, frames_cons_other (by simpa [Task.frame] using Ne.symm hne)]
      intro ob hob
      have := hidle _ (finish_keeps hs.forest ho hob hne)
      split at this
      · rwa [disown_destroying] at this
      · exact this
  · intro b ob hob hdb
    obtain ⟨hne, ob', hob', hcase⟩ := finish_other hs.forest ho hob
    have hdb' : ob'.destroying = true := by
      rcases hcase with ⟨_, rfl⟩ | ⟨_, rfl⟩
      · rwa [disown_destroying] at hdb
      · exact hdb
    obtain ⟨k, hk, hframes, hch'⟩ := hs.busy hob' hdb'
    rw [frames_cons_other (by simpa [Task.frame] using Ne.symm hne)] at hframes
    refine ⟨k, hk, hframes, fun h2 => ?_⟩
    rcases hcase with ⟨_, rfl⟩ | ⟨_, rfl⟩
    · rw [disown_children, hch' h2]
      rfl
    · exact hch' h2

end Stack

section Act

variable {cb : Callbacks} {t : Task} {ts : List Task} {w : World}

inductive Acts (cb : Callbacks) (ts : List Task) (w : World) : Task → List Task × World → Prop where
  | skip {h : Nat} (hno : ∀ o, w.objects h = some o → o.destroying = true) :
      Acts cb ts w (.call h) ([], w)
  | enter {h : Nat} {o : Object} (ho : w.objects h = some o) (hd : o.destroying = false) :
      Acts cb ts w (.call h) (enter h o w)
  | descend {h c : Nat} {o oc : Object} {rest : List Nat} (ho : w.objects h = some o)
      (hch : o.children = c :: rest) (hc : w.objects c = some oc) (hp : oc.parent = some h)
      (hd : oc.destroying = false) :
      Acts cb ts w (.children h) ((Wdf.enter c oc w).1 ++ [.children h], (Wdf.enter c oc w).2)
  | spin {h c : Nat} {o oc : Object} {rest : List Nat} (ho : w.objects h = some o)
      (hch : o.children = c :: rest) (hc : w.objects c = some oc) (hp : oc.parent = some h)
      (hd : oc.destroying = true) : Acts cb ts w (.children h) ([.children h], w)
  | leave {h : Nat} {o : Object} (ho : w.objects h = some o) (hch : o.children = []) :
      Acts cb ts w (.children h) ([], w)
  | unload {h : Nat} {o : Object} (ho : w.objects h = some o) :
      Acts cb ts w (.unload h) ((cb.unload h).map .call, w.note (.unload o.serial))
  | cleanup {h : Nat} {o : Object} (ho : w.objects h = some o) (hch : o.children = [])
      (hcb : o.cleanup = true) :
      Acts cb ts w (.cleanup h) ((cb.cleanup h).map .call, w.note (.cleanup o.serial))
  | noCleanup {h : Nat} {o : Object} (ho : w.objects h = some o) (hcb : o.cleanup = false) :
      Acts cb ts w (.cleanup h) ([], w)
  | destroy {h : Nat} {o : Object} (ho : w.objects h = some o) (hch : o.children = [])
      (hcb : o.destroy = true) :
      Acts cb ts w (.destroy h) ((cb.destroy h).map .call, w.note (.destroy o.serial))
  | noDestroy {h : Nat} {o : Object} (ho : w.objects h = some o) (hcb : o.destroy = false) :
      Acts cb ts w (.destroy h) ([], w)
  | finish {h : Nat} {o : Object} (ho : w.objects h = some o) (hch : o.children = []) :
      Acts cb ts w (.finish h) ([], Wdf.finish h o w)

theorem act_cases (cb : Callbacks) (hs : Stack (t :: ts) w) : Acts cb ts w t (act cb t w) := by
  cases t with
  | call h =>
    rw [act]
    cases ho : w.objects h with
    | none => exact .skip (by rw [ho]; intro o h; cases h)
    | some o =>
      simp only
      split
      · rename_i hd
        refine .skip ?_
        intro o' ho'
        cases ho.symm.trans ho'
        exact hd
      · rename_i hd
        exact .enter ho (by simpa using hd)
  | unload h =>
    obtain ⟨o, ho, _⟩ := hs.head (t := .unload h) rfl
    simp only [act, ho]
    exact .unload ho
  | children h =>
    obtain ⟨o, ho, _⟩ := hs.head (t := .children h) rfl
    simp only [act, ho]
    cases hch : o.children with
    | nil => exact .leave ho hch
    | cons c rest =>
      obtain ⟨oc, hc, hp⟩ := hs.forest.child ho (a := c) (by rw [hch]; exact mem_cons_self)
      simp only [hc]
      cases hd : oc.destroying with
      | true =>
        rw [if_pos rfl]
        exact .spin ho hch hc hp hd
      | false =>
        rw [if_neg (by simp)]
        exact .descend ho hch hc hp hd
  | cleanup h =>
    obtain ⟨o, ho, _, _, hch⟩ := hs.head (t := .cleanup h) rfl
    simp only [act, ho]
    split
    · rename_i hcb
      exact .cleanup ho (hch (by simp [Task.index])) hcb
    · rename_i hcb
      exact .noCleanup ho (by simpa using hcb)
  | destroy h =>
    obtain ⟨o, ho, _, _, hch⟩ := hs.head (t := .destroy h) rfl
    simp only [act, ho]
    split
    · rename_i hcb
      exact .destroy ho (hch (by simp [Task.index])) hcb
    · rename_i hcb
      exact .noDestroy ho (by simpa using hcb)
  | finish h =>
    obtain ⟨o, ho, _, _, hch⟩ := hs.head (t := .finish h) rfl
    simp only [act, ho]
    exact .finish ho (hch (by simp [Task.index]))

theorem Stack.act (cb : Callbacks) (hs : Stack (t :: ts) w) :
    Stack ((act cb t w).1 ++ ts) (act cb t w).2 := by
  have hacts := act_cases cb hs
  generalize Wdf.act cb t w = r at hacts
  cases hacts with
  | skip hno => exact hs.drop_call
  | enter ho hd => exact hs.drop_call.enter ho hd
  | descend ho hch hc hp hd =>
    have := hs.enter hc hd
    rwa [append_assoc]
  | spin ho hch hc hp hd => exact hs
  | leave ho hch =>
    refine hs.pop rfl (by simp [Task.index]) ?_
    intro _ o' ho'
    cases ho.symm.trans ho'
    exact hch
  | unload ho =>
    refine Stack.calls ?_ _
    refine (hs.pop rfl (by simp [Task.index]) (fun h => by cases h)).of_objects rfl ?_
    exact hs.forest.note rfl (fun _ h => by cases h)
  | cleanup ho hch hcb =>
    refine Stack.calls ?_ _
    refine (hs.pop rfl (by simp [Task.index]) (fun h => by cases h)).of_objects rfl ?_
    exact hs.forest.note rfl (fun _ h => by cases h)
  | noCleanup ho hcb => exact hs.pop rfl (by simp [Task.index]) (fun h => by cases h)
  | destroy ho hch hcb =>
    refine Stack.calls ?_ _
    refine (hs.pop rfl (by simp [Task.index]) (fun h => by cases h)).of_objects rfl ?_
    exact hs.forest.note rfl (fun _ h => by cases h)
  | noDestroy ho hcb => exact hs.pop rfl (by simp [Task.index]) (fun h => by cases h)
  | finish ho hch => exact hs.finish ho

end Act

/-- The top task is a call for an object that is not being destroyed, and a descendant of it is. -/
def Overtakes (ts : List Task) (w : World) : Prop :=
  ∃ h rest o c oc, ts = .call h :: rest ∧ w.objects h = some o ∧ o.destroying = false ∧
    w.objects c = some oc ∧ oc.destroying = true ∧ Below w c h

def Ordered (ts : List Task) (w : World) : Prop :=
  ts.Pairwise fun t u => ∀ h c, t.frame = some h → u.frame = some c → ¬ Below w c h

section Ordered

variable {cb : Callbacks} {t : Task} {ts : List Task} {w w' : World} {h : Nat}

theorem Ordered.mono (hmono : ∀ c h, Below w' c h → Below w c h) (ho : Ordered ts w) :
    Ordered ts w' :=
  ho.imp fun hab h c ht hu hb => hab h c ht hu (hmono c h hb)

theorem Ordered.note (ho : Ordered ts w) (e : Event) : Ordered ts (w.note e) := by
  refine Ordered.mono ?_ ho
  intro c h hb
  exact Below.of_objects (w := w.note e) rfl hb

theorem Ordered.calls (ho : Ordered ts w) (l : List Nat) : Ordered (l.map .call ++ ts) w := by
  refine pairwise_append.mpr ⟨?_, ho, ?_⟩
  · refine List.Pairwise.map _ (R := fun _ _ => True) ?_ (pairwise_of_forall fun _ _ => trivial)
    intro _ _ _ h c hframe
    cases hframe
  · intro t ht u _ h c hframe
    obtain ⟨b, _, rfl⟩ := mem_map.mp ht
    cases hframe

theorem Ordered.enter {o : Object} (ho : Ordered ts w) (hw : Forest w) (hh : w.objects h = some o)
    (hfree : ∀ u ∈ ts, ∀ c, u.frame = some c → ¬ Below w c h) :
    Ordered ((enter h o w).1 ++ ts) (enter h o w).2 := by
  obtain ⟨k, u, _, htasks, hworld⟩ := Stack.enter_spec h o w
  have hshape : ∀ a, ((Wdf.enter h o w).2.objects a).map Object.shape =
      (w.objects a).map Object.shape := by
    rw [hworld]
    exact put_shape hh rfl
  have hback : ∀ c b, Below (Wdf.enter h o w).2 c b → Below w c b :=
    fun c b hb => hb.of_shape fun a => (hshape a).symm
  refine Ordered.mono hback ?_
  rw [htasks]
  refine pairwise_append.mpr ⟨?_, ho, ?_⟩
  · refine pairwise_iff_forall_sublist.mpr ?_
    intro t v hsub b c ht hv hb
    have hmt : t ∈ (allFrames h).drop k := hsub.subset (by simp)
    have hmv : v ∈ (allFrames h).drop k := hsub.subset (by simp)
    rw [Stack.frame_of_mem_drop hmt] at ht
    rw [Stack.frame_of_mem_drop hmv] at hv
    cases ht
    cases hv
    exact Below.irrefl hw hb
  · intro t ht v hv b c hb hc
    rw [Stack.frame_of_mem_drop ht] at hb
    cases hb
    exact hfree v hv c hc

theorem Stack.destroying_of_frame (hs : Stack ts w) {u : Task} {c : Nat} (hu : u ∈ ts)
    (hf : u.frame = some c) : ∃ oc, w.objects c = some oc ∧ oc.destroying = true := by
  by_contra hno
  have hmem : u ∈ frames c ts := mem_frames.mpr ⟨hu, hf⟩
  rw [hs.idle ?_] at hmem
  · cases hmem
  · intro o ho
    cases hd : o.destroying with
    | false => rfl
    | true => exact absurd ⟨o, ho, hd⟩ hno

theorem Stack.frame_of_destroying (hs : Stack ts w) {c : Nat} {oc : Object}
    (hc : w.objects c = some oc) (hd : oc.destroying = true) :
    Task.finish c ∈ ts := by
  obtain ⟨k, hk, hframes, _⟩ := hs.busy hc hd
  have hmem : Task.finish c ∈ frames c ts := by
    rw [hframes]
    have hcases : k = 0 ∨ k = 1 ∨ k = 2 ∨ k = 3 ∨ k = 4 := by omega
    rcases hcases with rfl | rfl | rfl | rfl | rfl <;> simp [allFrames]
  exact (mem_frames.mp hmem).1

theorem Ordered.act (hs : Stack (t :: ts) w) (ho : Ordered (t :: ts) w)
    (hno : ¬ Overtakes (t :: ts) w) : Ordered ((act cb t w).1 ++ ts) (act cb t w).2 := by
  have htail : Ordered ts w := (pairwise_cons.mp ho).2
  have hacts := act_cases cb hs
  generalize Wdf.act cb t w = r at hacts
  cases hacts with
  | skip hskip => exact htail
  | @enter h o hh hd =>
    refine htail.enter hs.forest hh ?_
    intro u hu c hc hb
    obtain ⟨oc, hoc, hdc⟩ := hs.drop_call.destroying_of_frame hu hc
    exact hno ⟨h, ts, o, c, oc, rfl, hh, hd, hoc, hdc, hb⟩
  | @descend h b o ob rest hh hch hb hp hd =>
    rw [append_assoc]
    refine Ordered.enter ho hs.forest hb ?_
    intro u hu c hc hbelow
    have hbh : Below w c h := hbelow.tail hb hp
    rcases mem_cons.mp hu with rfl | hu
    · cases hc
      exact Below.irrefl hs.forest hbh
    · exact (pairwise_cons.mp ho).1 u hu h c rfl hc hbh
  | spin hh hch hc hp hd => exact ho
  | leave hh hch => exact htail
  | unload hh => exact (htail.note _).calls _
  | cleanup hh hch hcb => exact (htail.note _).calls _
  | noCleanup hh hcb => exact htail
  | destroy hh hch hcb => exact (htail.note _).calls _
  | noDestroy hh hcb => exact htail
  | finish hh hch => exact htail.mono fun _ _ hb => Below.of_finish hs.forest hh hb

theorem Ordered.no_spin (hs : Stack (.children h :: ts) w) (ho : Ordered (.children h :: ts) w)
    {c : Nat} {oc : Object} (hc : w.objects c = some oc) (hp : oc.parent = some h) :
    oc.destroying = false := by
  cases hd : oc.destroying with
  | false => rfl
  | true =>
    exfalso
    have hb : Below w c h := .child hc hp
    have hmem := hs.frame_of_destroying hc hd
    rcases mem_cons.mp hmem with heq | hmem
    · cases heq
    · exact (pairwise_cons.mp ho).1 _ hmem h c rfl rfl hb

end Ordered

/-! ## The measure -/

def Task.weight (cb : Callbacks) : Task → Nat
  | .call _ => 1
  | .unload h => 1 + (cb.unload h).length
  | .children _ => 1
  | .cleanup h => 1 + (cb.cleanup h).length
  | .destroy h => 1 + (cb.destroy h).length
  | .finish _ => 1

def World.cost (cb : Callbacks) (w : World) (a : Nat) : Nat :=
  match w.objects a with
  | none => 0
  | some o =>
    if o.destroying then 0
    else 6 + (cb.unload a).length + (cb.cleanup a).length + (cb.destroy a).length

def remaining (cb : Callbacks) (l : List Nat) (ts : List Task) (w : World) : Nat :=
  (ts.map (Task.weight cb)).sum + (l.map (w.cost cb)).sum

section Measure

variable {cb : Callbacks} {l : List Nat} {t : Task} {ts : List Task} {w w' : World} {h : Nat}

theorem sum_map_le {f g : Nat → Nat} (hle : ∀ a, g a ≤ f a) (l : List Nat) :
    (l.map g).sum ≤ (l.map f).sum := by
  induction l with
  | nil => exact Nat.le_refl _
  | cons a l ih =>
    have := hle a
    simp only [map_cons, sum_cons]
    omega

theorem sum_map_gap {f g : Nat → Nat} {d : Nat} (hle : ∀ a, g a ≤ f a) (hgap : g h + d ≤ f h) :
    h ∈ l → (l.map g).sum + d ≤ (l.map f).sum := by
  induction l with
  | nil => intro hmem; cases hmem
  | cons a l ih =>
    intro hmem
    have ha := hle a
    have hl := sum_map_le hle l
    simp only [map_cons, sum_cons]
    rcases mem_cons.mp hmem with rfl | hmem
    · omega
    · have := ih hmem
      omega

theorem weight_pos (cb : Callbacks) (t : Task) : 0 < t.weight cb := by
  cases t <;> simp only [Task.weight] <;> omega

theorem weight_calls (cb : Callbacks) (l : List Nat) :
    ((l.map Task.call).map (Task.weight cb)).sum = l.length := by
  induction l with
  | nil => rfl
  | cons a l ih =>
    simp only [map_cons, sum_cons, length_cons, ih, Task.weight]
    omega

theorem cost_le_of_finish (hw : Forest w) {o : Object} (ho : w.objects h = some o) (a : Nat) :
    (finish h o w).cost cb a ≤ w.cost cb a := by
  unfold World.cost
  cases ha : (finish h o w).objects a with
  | none => exact Nat.zero_le _
  | some oa =>
    obtain ⟨_, oa', hoa, _, _, hd⟩ := finish_parent hw ho ha
    rw [hoa]
    simp only [hd, Nat.le_refl]

theorem remaining_enter {o : Object} (ho : w.objects h = some o) (hd : o.destroying = false)
    (hl : h ∈ l) : remaining cb l ((enter h o w).1 ++ ts) (enter h o w).2 < remaining cb l ts w := by
  obtain ⟨k, u, hk, htasks, hworld⟩ := Stack.enter_spec h o w
  have hcost : ((l.map ((enter h o w).2.cost cb)).sum +
      (6 + (cb.unload h).length + (cb.cleanup h).length + (cb.destroy h).length)) ≤
      (l.map (w.cost cb)).sum := by
    rw [hworld]
    refine sum_map_gap ?_ ?_ hl
    · intro a
      by_cases ha : a = h
      · subst ha
        simp [World.cost]
      · simp only [World.cost, World.put_other _ _ ha, Nat.le_refl]
    · simp [World.cost, ho, hd]
  have hweight : (((allFrames h).drop k).map (Task.weight cb)).sum ≤
      5 + (cb.unload h).length + (cb.cleanup h).length + (cb.destroy h).length := by
    have hcases : k = 0 ∨ k = 1 := by omega
    rcases hcases with rfl | rfl <;>
      simp only [allFrames, List.drop, map_cons, map_nil, sum_cons, sum_nil, Task.weight] <;> omega
  unfold remaining
  rw [htasks, map_append, sum_append]
  omega

theorem remaining_act (hl : ∀ {a o}, w.objects a = some o → a ∈ l) (hs : Stack (t :: ts) w)
    (ho : Ordered (t :: ts) w) :
    remaining cb l ((act cb t w).1 ++ ts) (act cb t w).2 < remaining cb l (t :: ts) w := by
  have hcalls : ∀ (m : List Nat) (w' : World), w'.objects = w.objects → t.weight cb = 1 + m.length →
      remaining cb l (m.map .call ++ ts) w' < remaining cb l (t :: ts) w := by
    intro m w' hobj hweight
    have hcost : w'.cost cb = w.cost cb := by
      funext a
      simp only [World.cost, hobj]
    simp only [remaining, map_append, sum_append, weight_calls, hcost, map_cons, sum_cons, hweight]
    omega
  have hpop : ∀ w' : World, (∀ a, w'.cost cb a ≤ w.cost cb a) →
      remaining cb l ts w' < remaining cb l (t :: ts) w := by
    intro w' hcost
    have hpos := weight_pos cb t
    have hsum := sum_map_le hcost l
    simp only [remaining, map_cons, sum_cons]
    omega
  have hacts := act_cases cb hs
  generalize Wdf.act cb t w = r at hacts
  cases hacts with
  | skip hskip => exact hpop w (fun _ => Nat.le_refl _)
  | enter hh hd =>
    exact Nat.lt_trans (remaining_enter hh hd (hl hh))
      (hpop w (fun _ => Nat.le_refl _))
  | descend hh hch hc hp hd =>
    rw [append_assoc]
    exact remaining_enter hc hd (hl hc)
  | spin hh hch hc hp hd =>
    rw [ho.no_spin hs hc hp] at hd
    cases hd
  | leave hh hch => exact hpop w (fun _ => Nat.le_refl _)
  | unload hh => exact hcalls _ _ rfl rfl
  | cleanup hh hch hcb => exact hcalls _ _ rfl rfl
  | noCleanup hh hcb => exact hpop w (fun _ => Nat.le_refl _)
  | destroy hh hch hcb => exact hcalls _ _ rfl rfl
  | noDestroy hh hcb => exact hpop w (fun _ => Nat.le_refl _)
  | finish hh hch => exact hpop _ (cost_le_of_finish hs.forest hh)

end Measure

/-! ## Deletion -/

/-- The child loop of `x` is waiting for `y`, whose destruction began before and is below it. -/
def Stuck (x y : Nat) (base ts : List Task) (w : World) : Prop :=
  ∃ new, ts = new ++ base ∧ .children x ∈ new ∧ Below w y x ∧ ∃ u ∈ base, u.frame = some y

section Deletion

variable {cb : Callbacks} {t : Task} {ts base : List Task} {w : World} {x y : Nat}

theorem Stuck.act (hs : Stack (t :: ts) w) (hstuck : Stuck x y base (t :: ts) w) :
    Stuck x y base ((act cb t w).1 ++ ts) (act cb t w).2 := by
  obtain ⟨new, heq, hmem, hbelow, u, hu, hframe⟩ := hstuck
  obtain ⟨new, rfl⟩ : ∃ rest, new = t :: rest := by
    cases new with
    | nil => cases hmem
    | cons t' rest =>
      cases (List.cons.inj heq).1
      exact ⟨rest, rfl⟩
  obtain rfl : ts = new ++ base := (List.cons.inj heq).2
  have hkeep : ∀ (more : List Task) (w' : World), Below w' y x →
      (t ≠ .children x ∨ .children x ∈ more) → Stuck x y base (more ++ (new ++ base)) w' := by
    intro more w' hb hor
    refine ⟨more ++ new, by rw [append_assoc], ?_, hb, u, hu, hframe⟩
    rcases hor with hne | hin
    · rcases mem_cons.mp hmem with heq | hin
      · exact absurd heq.symm hne
      · exact mem_append_right _ hin
    · exact mem_append_left _ hin
  have hnote : ∀ e, Below (w.note e) y x := fun e => Below.of_objects (w := w) rfl hbelow
  have henter : ∀ {h o}, w.objects h = some o → Below (enter h o w).2 y x := by
    intro h o ho
    obtain ⟨k, v, _, _, hworld⟩ := Stack.enter_spec h o w
    rw [hworld]
    exact hbelow.of_shape (put_shape ho rfl)
  have hacts := act_cases cb hs
  generalize Wdf.act cb t w = r at hacts
  cases hacts with
  | skip hskip => exact hkeep [] w hbelow (.inl (by simp))
  | enter hh hd => exact hkeep _ _ (henter hh) (.inl (by simp))
  | @descend h c o oc rest hh hch hc hp hd =>
    refine hkeep _ _ (henter hc) ?_
    by_cases heq : h = x
    · exact .inr (by simp [heq])
    · exact .inl (by simpa using heq)
  | @spin h c o oc rest hh hch hc hp hd =>
    refine hkeep _ _ hbelow ?_
    by_cases heq : h = x
    · exact .inr (by simp [heq])
    · exact .inl (by simpa using heq)
  | @leave h o hh hch =>
    refine hkeep [] w hbelow (.inl ?_)
    intro heq
    cases heq
    exact hbelow.children hs.forest hh hch
  | unload hh => exact hkeep _ _ (hnote _) (.inl (by simp))
  | cleanup hh hch hcb => exact hkeep _ _ (hnote _) (.inl (by simp))
  | noCleanup hh hcb => exact hkeep [] w hbelow (.inl (by simp))
  | destroy hh hch hcb => exact hkeep _ _ (hnote _) (.inl (by simp))
  | noDestroy hh hcb => exact hkeep [] w hbelow (.inl (by simp))
  | @finish h o hh hch =>
    refine hkeep [] _ (hbelow.finish hs.forest hh hch ?_) (.inl (by simp))
    -- the last task of `y` would have to come after another one of its tasks
    rintro rfl
    obtain ⟨_, _, _, hrest, _⟩ := hs.head (t := .finish y) rfl
    have hin : u ∈ frames y (new ++ base) := mem_frames.mpr ⟨mem_append_right _ hu, hframe⟩
    rw [hrest] at hin
    cases hin

theorem Overtakes.stuck (cb : Callbacks) (hs : Stack ts w) (hover : Overtakes ts w) :
    ∃ x y base, Stuck x y base (advance (act cb) (ts, w)).1 (advance (act cb) (ts, w)).2 := by
  obtain ⟨x, rest, o, y, oy, rfl, hx, hd, hy, hdy, hbelow⟩ := hover
  obtain ⟨k, v, hk, htasks, hworld⟩ := Stack.enter_spec x o w
  have hact : act cb (.call x) w = enter x o w := by simp [act, hx, hd]
  refine ⟨x, y, rest, ?_⟩
  simp only [advance, hact]
  refine ⟨(enter x o w).1, rfl, ?_, ?_, .finish y, ?_, rfl⟩
  · rw [htasks]
    have hcases : k = 0 ∨ k = 1 := by omega
    rcases hcases with rfl | rfl <;> simp [allFrames]
  · rw [hworld]
    exact hbelow.of_shape (put_shape hx rfl)
  · exact hs.drop_call.frame_of_destroying hy hdy

theorem stack_start (hw : Forest w) (hidle : Idle w) (h : Nat) : Stack [.call h] w where
  forest := hw
  idle := by intro b _; simp [frames, Task.frame]
  busy := by
    intro b o ho hd
    rw [hidle b o ho] at hd
    cases hd

theorem stack_delete (cb : Callbacks) (hs : Stack ts w) :
    ∀ n, Stack (drive (act cb) n (ts, w)).1 (drive (act cb) n (ts, w)).2 :=
  drive_invariant (Q := fun _ _ => True) (fun _ _ _ hs _ => hs.act cb) (fun _ => trivial) hs

theorem live_of_act (hs : Stack (t :: ts) w) {a : Nat} {o' : Object}
    (ha : (act cb t w).2.objects a = some o') : ∃ o, w.objects a = some o := by
  have henter : ∀ {h o}, w.objects h = some o → (enter h o w).2.objects a = some o' →
      ∃ o, w.objects a = some o := by
    intro h o ho ha
    obtain ⟨_, _, _, _, hworld⟩ := Stack.enter_spec h o w
    rw [hworld] at ha
    by_cases hne : a = h
    · exact ⟨o, hne ▸ ho⟩
    · exact ⟨o', by rwa [World.put_other _ _ hne] at ha⟩
  have hacts := act_cases cb hs
  generalize Wdf.act cb t w = r at hacts ha
  cases hacts with
  | enter hh hd => exact henter hh ha
  | descend hh hch hc hp hd => exact henter hc ha
  | finish hh hch =>
    obtain ⟨_, o, ho, _⟩ := finish_other hs.forest hh ha
    exact ⟨o, ho⟩
  | skip hskip => exact ⟨o', ha⟩
  | spin hh hch hc hp hd => exact ⟨o', ha⟩
  | leave hh hch => exact ⟨o', ha⟩
  | unload hh => exact ⟨o', ha⟩
  | cleanup hh hch hcb => exact ⟨o', ha⟩
  | noCleanup hh hcb => exact ⟨o', ha⟩
  | destroy hh hch hcb => exact ⟨o', ha⟩
  | noDestroy hh hcb => exact ⟨o', ha⟩

structure Bounded (l : List Nat) (ts : List Task) (w : World) : Prop where
  stack : Stack ts w
  ordered : Ordered ts w
  live : ∀ {a o}, w.objects a = some o → a ∈ l

theorem drive_ends {l : List Nat} (hb : Bounded l ts w)
    (hno : ∀ n, ¬ Overtakes (drive (act cb) n (ts, w)).1 (drive (act cb) n (ts, w)).2) :
    (drive (act cb) (remaining cb l ts w) (ts, w)).1 = [] := by
  have hall : ∀ n, Bounded l (drive (act cb) n (ts, w)).1 (drive (act cb) n (ts, w)).2 := by
    refine drive_invariant (Q := fun ts w => ¬ Overtakes ts w) ?_ hno hb
    intro t ts w hb hok
    refine ⟨hb.stack.act cb, hb.ordered.act hb.stack hok, ?_⟩
    intro a o' ha
    obtain ⟨o, ho⟩ := live_of_act hb.stack ha
    exact hb.live ho
  exact drive_finishes hall fun t ts w hb => remaining_act hb.live hb.stack hb.ordered

/-- `wdf_object_delete` comes to an end and frees each object at most once exactly when no callback
passes it an object that is not being destroyed and has a descendant that is. -/
theorem delete_terminates_iff (cb : Callbacks) (hw : Forest w) (hidle : Idle w) (h : Nat) :
    ((∃ n, (wdfObjectDelete cb h n w).1 = []) ∧
        ∀ n, (wdfObjectDelete cb h n w).2.freed.Nodup ∧
          ∀ a, Event.stale a ∉ (wdfObjectDelete cb h n w).2.log) ↔
      ∀ n, ¬ Overtakes (wdfObjectDelete cb h n w).1 (wdfObjectDelete cb h n w).2 := by
  have hs := stack_start hw hidle h
  have hstack : ∀ n, Stack (wdfObjectDelete cb h n w).1 (wdfObjectDelete cb h n w).2 :=
    stack_delete cb hs
  constructor
  · rintro ⟨⟨n, hn⟩, _⟩ k hover
    obtain ⟨x, y, base, hstuck⟩ := hover.stuck cb (hstack k)
    rw [wdfObjectDelete, Prod.eta, ← drive_succ] at hstuck
    -- the loop is stuck from the next task on, so the stack is never empty again
    have hforever : ∀ j, (fun ts w => Stack ts w ∧ Stuck x y base ts w)
        (drive (act cb) j (drive (act cb) (k + 1) ([.call h], w))).1
        (drive (act cb) j (drive (act cb) (k + 1) ([.call h], w))).2 := by
      refine drive_invariant (P := fun ts w => Stack ts w ∧ Stuck x y base ts w)
        (Q := fun _ _ => True) ?_ (fun _ => trivial) ⟨hstack (k + 1), hstuck⟩
      rintro t ts w ⟨hs, hst⟩ _
      exact ⟨hs.act cb, hst.act hs⟩
    obtain ⟨new, heq, hmem, _⟩ := (hforever n).2
    rw [← drive_add, drive_of_empty hn (by omega)] at heq
    rw [wdfObjectDelete] at hn
    rw [hn] at heq
    rw [(append_eq_nil_iff.mp heq.symm).1] at hmem
    cases hmem
  · intro hno
    obtain ⟨l, _, hl⟩ := hw.finite
    have hord : Ordered [.call h] w := pairwise_singleton _ _
    exact ⟨⟨_, drive_ends ⟨hs, hord, hl⟩ hno⟩, fun n =>
      ⟨(hstack n).forest.freed_nodup, (hstack n).forest.clean⟩⟩

end Deletion

def firstOfTwo : Creation := ⟨1, .request, none⟩
def secondOfTwo : Creation := ⟨2, .request, some ⟨true, false, some 1⟩⟩
def twoObjects : World := secondOfTwo.perform (firstOfTwo.perform .empty)

theorem firstOfTwo_legal : firstOfTwo.Legal .empty :=
  ⟨rfl, fun _ h => by cases h⟩

theorem secondOfTwo_legal : secondOfTwo.Legal (firstOfTwo.perform .empty) := by
  refine ⟨by decide, ?_⟩
  intro at' hat p hp
  cases hat
  cases hp
  exact ⟨_, rfl⟩

theorem twoObjects_forest : Forest twoObjects :=
  (Forest.empty.perform firstOfTwo_legal).perform secondOfTwo_legal

theorem twoObjects_idle : Idle twoObjects :=
  (Idle.empty.perform firstOfTwo_legal).perform secondOfTwo_legal

def deletesParent : Callbacks where
  unload := fun _ => []
  cleanup := fun h => if h = 2 then [1] else []
  destroy := fun _ => []

/-- The parent may be deleted: it is being destroyed when the child's cleanup deletes it again. -/
theorem delete_terminates_iff_parent :
    (wdfObjectDelete deletesParent 1 20 twoObjects).1 = [] ∧
      ∀ n, ¬ Overtakes (wdfObjectDelete deletesParent 1 n twoObjects).1
        (wdfObjectDelete deletesParent 1 n twoObjects).2 := by
  have hend : (wdfObjectDelete deletesParent 1 20 twoObjects).1 = [] := by decide +kernel
  refine ⟨hend, (delete_terminates_iff deletesParent twoObjects_forest twoObjects_idle 1).mp
    ⟨⟨20, hend⟩, fun n => ?_⟩⟩
  have hs := stack_delete deletesParent (stack_start twoObjects_forest twoObjects_idle 1) n
  exact ⟨hs.forest.freed_nodup, hs.forest.clean⟩

/-- The child may not: the loop of the parent never gets past it. -/
theorem delete_terminates_iff_child :
    Forest twoObjects ∧ Idle twoObjects ∧
      ∀ n, (wdfObjectDelete deletesParent 2 n twoObjects).1 ≠ [] := by
  refine ⟨twoObjects_forest, twoObjects_idle, ?_⟩
  intro n hn
  have hfixed : ∀ k, wdfObjectDelete deletesParent 2 (4 + k) twoObjects =
      wdfObjectDelete deletesParent 2 4 twoObjects := by
    intro k
    rw [wdfObjectDelete, drive_add]
    exact drive_fixed rfl k
  have hend : (wdfObjectDelete deletesParent 2 (n + 4) twoObjects).1 = [] := by
    rw [wdfObjectDelete, drive_of_empty hn (by omega)]
    exact hn
  rw [Nat.add_comm, hfixed] at hend
  revert hend
  decide +kernel

end DiscouNT.Wdf
