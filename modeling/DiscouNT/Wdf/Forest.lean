import DiscouNT.Wdf.Object

/-!
# Wdf.Forest

The trees of objects and the calls of `wdf_destroy_object` in progress.

`Forest` says that parents and children agree, that parents are older than their children and that
no object has been freed twice. `Stack` adds what the tasks have to do with it: each object that is
being destroyed has exactly the rest of its own five tasks on the stack, in order, and every other
object has none. Each task preserves it, whatever the callbacks delete.
-/

namespace DiscouNT.Wdf

open Lib List Option

def Event.freedSerial : Event → Option Nat
  | .freed o => some o.serial
  | _ => none

def World.freed (w : World) : List Nat := w.log.filterMap Event.freedSerial

structure Forest (w : World) : Prop where
  parent : ∀ {a o p}, w.objects a = some o → o.parent = some p →
    ∃ po, w.objects p = some po ∧ a ∈ po.children ∧ po.serial < o.serial
  child : ∀ {p po a}, w.objects p = some po → a ∈ po.children →
    ∃ o, w.objects a = some o ∧ o.parent = some p
  nodup : ∀ {p po}, w.objects p = some po → po.children.Nodup
  serial_lt : ∀ {a o}, w.objects a = some o → o.serial < w.created
  serial_inj : ∀ {a b o o'}, w.objects a = some o → w.objects b = some o' →
    o.serial = o'.serial → a = b
  finite : ∃ l : List Nat, l.length ≤ w.created ∧ ∀ {a o}, w.objects a = some o → a ∈ l
  freed_nodup : w.freed.Nodup
  freed_lt : ∀ {s}, s ∈ w.freed → s < w.created
  freed_gone : ∀ {a o}, w.objects a = some o → o.serial ∉ w.freed
  clean : ∀ a, Event.stale a ∉ w.log

def Object.shape (o : Object) : Option Nat × List Nat × Nat := (o.parent, o.children, o.serial)

section Shape

variable {w w' : World}

theorem exists_shape (h : ∀ a, (w'.objects a).map Object.shape = (w.objects a).map Object.shape)
    {a : Nat} {o' : Object} (ha : w'.objects a = some o') :
    ∃ o, w.objects a = some o ∧ o.parent = o'.parent ∧ o.children = o'.children ∧
      o.serial = o'.serial := by
  have hs := h a
  rw [ha] at hs
  cases ho : w.objects a with
  | none => rw [ho] at hs; cases hs
  | some o =>
    rw [ho] at hs
    simp only [map_some, Object.shape, some.injEq, Prod.mk.injEq] at hs
    exact ⟨o, rfl, hs.1.symm, hs.2.1.symm, hs.2.2.symm⟩

theorem Forest.of_shape (hw : Forest w) (hcreated : w'.created = w.created)
    (h : ∀ a, (w'.objects a).map Object.shape = (w.objects a).map Object.shape)
    (hfreed : w'.freed = w.freed) (hclean : ∀ a, Event.stale a ∈ w'.log → Event.stale a ∈ w.log) :
    Forest w' where
  parent := by
    intro a o' p ha hp
    obtain ⟨o, ho, hpar, _, hser⟩ := exists_shape h ha
    obtain ⟨po, hpo, hmem, hlt⟩ := hw.parent ho (hpar.trans hp)
    obtain ⟨po', hpo', _, hch, hser'⟩ := exists_shape (fun b => (h b).symm) hpo
    exact ⟨po', hpo', by rwa [hch], by omega⟩
  child := by
    intro p po' a hp ha
    obtain ⟨po, hpo, _, hch, _⟩ := exists_shape h hp
    obtain ⟨o, ho, hpar⟩ := hw.child hpo (by rwa [hch])
    obtain ⟨o', ho', hpar', _⟩ := exists_shape (fun b => (h b).symm) ho
    exact ⟨o', ho', hpar'.trans hpar⟩
  nodup := by
    intro p po' hp
    obtain ⟨po, hpo, _, hch, _⟩ := exists_shape h hp
    rw [← hch]
    exact hw.nodup hpo
  serial_lt := by
    intro a o' ha
    obtain ⟨o, ho, _, _, hser⟩ := exists_shape h ha
    rw [hcreated, ← hser]
    exact hw.serial_lt ho
  serial_inj := by
    intro a b oa ob ha hb heq
    obtain ⟨oa', hoa, _, _, hsa⟩ := exists_shape h ha
    obtain ⟨ob', hob, _, _, hsb⟩ := exists_shape h hb
    exact hw.serial_inj hoa hob (by omega)
  finite := by
    obtain ⟨l, hlen, hl⟩ := hw.finite
    refine ⟨l, by omega, ?_⟩
    intro a o' ha
    obtain ⟨o, ho, _⟩ := exists_shape h ha
    exact hl ho
  freed_nodup := by rw [hfreed]; exact hw.freed_nodup
  freed_lt := by rw [hfreed, hcreated]; exact hw.freed_lt
  freed_gone := by
    intro a o' ha
    obtain ⟨o, ho, _, _, hser⟩ := exists_shape h ha
    rw [hfreed, ← hser]
    exact hw.freed_gone ho
  clean := fun a ha => hw.clean a (hclean a ha)

theorem put_shape {a : Nat} {o o' : Object} (ha : w.objects a = some o) (hs : o'.shape = o.shape) :
    ∀ b, ((w.put a (some o')).objects b).map Object.shape = (w.objects b).map Object.shape := by
  intro b
  by_cases hb : b = a
  · subst hb
    rw [World.put_same, ha, map_some, map_some, hs]
  · rw [World.put_other _ _ hb]

theorem Forest.put (hw : Forest w) {a : Nat} {o o' : Object} (ha : w.objects a = some o)
    (hs : o'.shape = o.shape) : Forest (w.put a (some o')) :=
  hw.of_shape rfl (put_shape ha hs) rfl (fun _ h => h)

theorem Forest.note (hw : Forest w) {e : Event} (hf : e.freedSerial = none)
    (hs : ∀ a, e ≠ .stale a) : Forest (w.note e) := by
  refine hw.of_shape rfl (fun _ => rfl) ?_ ?_
  · simp [World.freed, hf]
  · intro a ha
    rcases mem_cons.mp ha with rfl | ha
    · exact absurd rfl (hs a)
    · exact ha

theorem Forest.devices (hw : Forest w) (l : List Nat) : Forest { w with devices := l } :=
  hw.of_shape rfl (fun _ => rfl) rfl (fun _ h => h)

end Shape

theorem Forest.empty : Forest World.empty where
  parent := by intro a o p ha; cases ha
  child := by intro p po a hp; cases hp
  nodup := by intro p po hp; cases hp
  serial_lt := by intro a o ha; cases ha
  serial_inj := by intro a b o o' ha; cases ha
  finite := ⟨[], Nat.le_refl _, by intro a o ha; cases ha⟩
  freed_nodup := nodup_nil
  freed_lt := by intro s hs; cases hs
  freed_gone := by intro a o ha; cases ha
  clean := by intro a ha; cases ha

section Create

variable {w : World} {c : Creation}

def Creation.object (w : World) (c : Creation) : Object :=
  Attributes.build c.attributes c.type w.created

def Creation.perform (c : Creation) (w : World) : World :=
  wdfNewObject c.a c.type c.attributes w

@[simp] theorem object_serial : (c.object w).serial = w.created := by
  unfold Creation.object Attributes.build
  split <;> rfl

@[simp] theorem object_children : (c.object w).children = [] := by
  unfold Creation.object Attributes.build
  split <;> rfl

@[simp] theorem object_destroying : (c.object w).destroying = false := by
  unfold Creation.object Attributes.build
  split <;> rfl

theorem Creation.Legal.parent_live (hc : c.Legal w) {p : Nat} (hp : (c.object w).parent = some p) :
    p ≠ c.a ∧ ∃ po, w.objects p = some po := by
  have hpo : ∃ po, w.objects p = some po := by
    unfold Creation.object Attributes.build at hp
    split at hp
    · cases hp
    · rename_i at' hat
      exact hc.2 at' hat p hp
  refine ⟨?_, hpo⟩
  rintro rfl
  obtain ⟨po, hpo⟩ := hpo
  rw [hc.1] at hpo
  cases hpo

@[simp] theorem adopt_parent (o : Object) (h : Nat) : (o.adopt h).parent = o.parent := by
  rw [Object.adopt]

@[simp] theorem adopt_serial (o : Object) (h : Nat) : (o.adopt h).serial = o.serial := by
  rw [Object.adopt]

@[simp] theorem adopt_children (o : Object) (h : Nat) :
    (o.adopt h).children = h :: o.children := by
  rw [Object.adopt]

@[simp] theorem adopt_destroying (o : Object) (h : Nat) :
    (o.adopt h).destroying = o.destroying := by
  rw [Object.adopt]

theorem perform_spec (hc : c.Legal w) :
    (∀ b, (c.perform w).objects b =
      if b = c.a then some (c.object w)
      else if (c.object w).parent = some b then (w.objects b).map (·.adopt c.a)
      else w.objects b) ∧
    (c.perform w).devices = w.devices ∧ (c.perform w).created = w.created + 1 ∧
    (c.perform w).log = .created w.created
      (((c.object w).parent.bind w.objects).map Object.serial) :: w.log := by
  simp only [Creation.perform, wdfNewObject]
  rw [← Creation.object]
  cases hp : (c.object w).parent with
  | none =>
    refine ⟨fun b => ?_, rfl, rfl, by simp [wdfLinkChild]⟩
    by_cases hb : b = c.a
    · subst hb; simp [wdfLinkChild, World.put, World.note]
    · simp [wdfLinkChild, World.put, World.note, hb]
  | some p =>
    obtain ⟨hne, po, hpo⟩ := hc.parent_live hp
    have hlook : ∀ e n, ({ w.put c.a (some (c.object w)) with created := n }.note e).objects p =
        some po := by
      intro e n
      simp [World.note, World.put, hne, hpo]
    simp only [wdfLinkChild, hlook]
    refine ⟨fun b => ?_, rfl, rfl, by simp⟩
    by_cases hb : b = c.a
    · subst hb
      rw [World.put_other _ _ (Ne.symm hne), if_pos rfl]
      simp [World.note, World.put]
    · by_cases hbp : b = p
      · subst hbp
        simp [hb, hpo]
      · rw [World.put_other _ _ hbp, if_neg hb, if_neg (by simpa using Ne.symm hbp)]
        simp [World.note, World.put, hb]

theorem perform_new (hc : c.Legal w) : (c.perform w).objects c.a = some (c.object w) := by
  rw [(perform_spec hc).1, if_pos rfl]

theorem perform_keeps (hc : c.Legal w) {b : Nat} {ob : Object} (hb : w.objects b = some ob) :
    b ≠ c.a ∧ (c.perform w).objects b =
      some (if (c.object w).parent = some b then ob.adopt c.a else ob) := by
  have hne : b ≠ c.a := by
    rintro rfl
    rw [hc.1] at hb
    cases hb
  refine ⟨hne, ?_⟩
  rw [(perform_spec hc).1, if_neg hne, hb]
  split <;> rfl

theorem perform_cases (hc : c.Legal w) {b : Nat} {ob : Object}
    (hb : (c.perform w).objects b = some ob) :
    (b = c.a ∧ ob = c.object w) ∨
      (b ≠ c.a ∧ ∃ ob', w.objects b = some ob' ∧
        (((c.object w).parent = some b ∧ ob = ob'.adopt c.a) ∨
          ((c.object w).parent ≠ some b ∧ ob = ob'))) := by
  rw [(perform_spec hc).1] at hb
  split at hb
  · rename_i heq
    cases hb
    exact .inl ⟨heq, rfl⟩
  · rename_i hne
    split at hb
    · rename_i hp
      obtain ⟨_, po, hpo⟩ := hc.parent_live hp
      rw [hpo] at hb
      cases hb
      exact .inr ⟨hne, po, hpo, .inl ⟨hp, rfl⟩⟩
    · rename_i hp
      exact .inr ⟨hne, ob, hb, .inr ⟨hp, rfl⟩⟩

theorem perform_old (hc : c.Legal w) {b : Nat} {ob : Object}
    (hb : (c.perform w).objects b = some ob) (hne : b ≠ c.a) :
    ∃ ob', w.objects b = some ob' ∧ ob'.parent = ob.parent ∧ ob'.serial = ob.serial := by
  rcases perform_cases hc hb with ⟨heq, _⟩ | ⟨_, ob', hob, ⟨_, rfl⟩ | ⟨_, rfl⟩⟩
  · exact absurd heq hne
  · exact ⟨ob', hob, (adopt_parent _ _).symm, (adopt_serial _ _).symm⟩
  · exact ⟨ob, hob, rfl, rfl⟩

def Idle (w : World) : Prop := ∀ a o, w.objects a = some o → o.destroying = false

theorem Idle.empty : Idle World.empty := by
  intro a o ha
  cases ha

theorem Idle.perform (hi : Idle w) (hc : c.Legal w) : Idle (c.perform w) := by
  intro b ob hb
  rcases perform_cases hc hb with ⟨_, rfl⟩ | ⟨_, ob', hob, ⟨_, rfl⟩ | ⟨_, rfl⟩⟩
  · exact object_destroying
  · rw [adopt_destroying]
    exact hi b ob' hob
  · exact hi b ob hob

theorem Forest.perform (hw : Forest w) (hc : c.Legal w) : Forest (c.perform w) where
  parent := by
    intro a oa p ha hp
    by_cases hne : a = c.a
    · subst hne
      cases (perform_new hc).symm.trans ha
      obtain ⟨_, po, hpo⟩ := hc.parent_live hp
      refine ⟨_, (perform_keeps hc hpo).2, ?_, ?_⟩
      · rw [if_pos hp, adopt_children]
        exact mem_cons_self
      · rw [if_pos hp, adopt_serial, object_serial]
        exact hw.serial_lt hpo
    · obtain ⟨oa', hoa, hpar, hser⟩ := perform_old hc ha hne
      obtain ⟨po, hpo, hmem, hlt⟩ := hw.parent hoa (hpar.trans hp)
      refine ⟨_, (perform_keeps hc hpo).2, ?_, ?_⟩
      · split
        · rw [adopt_children]
          exact mem_cons_of_mem _ hmem
        · exact hmem
      · split
        · rw [adopt_serial]; omega
        · omega
  child := by
    intro p po a hp ha
    rcases perform_cases hc hp with ⟨_, rfl⟩ | ⟨_, po', hpo, hcase⟩
    · rw [object_children] at ha
      cases ha
    · have hmem : (a = c.a ∧ (c.object w).parent = some p) ∨ a ∈ po'.children := by
        rcases hcase with ⟨hpar, rfl⟩ | ⟨_, rfl⟩
        · rw [adopt_children] at ha
          rcases mem_cons.mp ha with rfl | ha
          · exact .inl ⟨rfl, hpar⟩
          · exact .inr ha
        · exact .inr ha
      rcases hmem with ⟨rfl, hpar⟩ | hmem
      · exact ⟨_, perform_new hc, hpar⟩
      · obtain ⟨oa, hoa, hpar⟩ := hw.child hpo hmem
        refine ⟨_, (perform_keeps hc hoa).2, ?_⟩
        split
        · rw [adopt_parent]; exact hpar
        · exact hpar
  nodup := by
    intro p po hp
    rcases perform_cases hc hp with ⟨_, rfl⟩ | ⟨_, po', hpo, ⟨_, rfl⟩ | ⟨_, rfl⟩⟩
    · rw [object_children]
      exact nodup_nil
    · rw [adopt_children]
      refine nodup_cons.mpr ⟨fun hmem => ?_, hw.nodup hpo⟩
      obtain ⟨oa, hoa, _⟩ := hw.child hpo hmem
      rw [hc.1] at hoa
      cases hoa
    · exact hw.nodup hpo
  serial_lt := by
    intro a oa ha
    rw [(perform_spec hc).2.2.1]
    by_cases hne : a = c.a
    · subst hne
      cases (perform_new hc).symm.trans ha
      rw [object_serial]
      omega
    · obtain ⟨oa', hoa, _, hser⟩ := perform_old hc ha hne
      have := hw.serial_lt hoa
      omega
  serial_inj := by
    intro a b oa ob ha hb heq
    by_cases hna : a = c.a <;> by_cases hnb : b = c.a
    · rw [hna, hnb]
    · subst hna
      cases (perform_new hc).symm.trans ha
      obtain ⟨ob', hob, _, hser⟩ := perform_old hc hb hnb
      have := hw.serial_lt hob
      rw [object_serial] at heq
      omega
    · subst hnb
      cases (perform_new hc).symm.trans hb
      obtain ⟨oa', hoa, _, hser⟩ := perform_old hc ha hna
      have := hw.serial_lt hoa
      rw [object_serial] at heq
      omega
    · obtain ⟨oa', hoa, _, hsa⟩ := perform_old hc ha hna
      obtain ⟨ob', hob, _, hsb⟩ := perform_old hc hb hnb
      exact hw.serial_inj hoa hob (by omega)
  finite := by
    obtain ⟨l, hlen, hl⟩ := hw.finite
    refine ⟨c.a :: l, by rw [(perform_spec hc).2.2.1, length_cons]; omega, ?_⟩
    intro a oa ha
    by_cases hne : a = c.a
    · exact hne ▸ mem_cons_self
    · obtain ⟨oa', hoa, _⟩ := perform_old hc ha hne
      exact mem_cons_of_mem _ (hl hoa)
  freed_nodup := by
    rw [World.freed, (perform_spec hc).2.2.2]
    exact hw.freed_nodup
  freed_lt := by
    intro s hs
    rw [World.freed, (perform_spec hc).2.2.2] at hs
    rw [(perform_spec hc).2.2.1]
    exact Nat.lt_succ_of_lt (hw.freed_lt hs)
  freed_gone := by
    intro a oa ha hmem
    rw [World.freed, (perform_spec hc).2.2.2] at hmem
    by_cases hne : a = c.a
    · subst hne
      cases (perform_new hc).symm.trans ha
      rw [object_serial] at hmem
      exact Nat.lt_irrefl _ (hw.freed_lt hmem)
    · obtain ⟨oa', hoa, _, hser⟩ := perform_old hc ha hne
      exact hw.freed_gone hoa (hser ▸ hmem)
  clean := by
    intro a ha
    rw [(perform_spec hc).2.2.2] at ha
    rcases mem_cons.mp ha with heq | ha
    · cases heq
    · exact hw.clean a ha

end Create

inductive Below (w : World) : Nat → Nat → Prop where
  | child {a p : Nat} {o : Object} : w.objects a = some o → o.parent = some p → Below w a p
  | step {a p h : Nat} {o : Object} : w.objects a = some o → o.parent = some p → Below w p h →
      Below w a h

section Below

variable {w w' : World} {a c h : Nat}

theorem Below.source (hb : Below w a h) : ∃ o, w.objects a = some o := by
  cases hb with
  | child ha _ => exact ⟨_, ha⟩
  | step ha _ _ => exact ⟨_, ha⟩

theorem Below.older (hb : Below w a h) (hw : Forest w) {o : Object} (ho : w.objects a = some o) :
    ∃ oh, w.objects h = some oh ∧ oh.serial < o.serial := by
  induction hb generalizing o with
  | child ha hp =>
    cases ha.symm.trans ho
    obtain ⟨po, hpo, _, hlt⟩ := hw.parent ho hp
    exact ⟨po, hpo, hlt⟩
  | step ha hp _ ih =>
    cases ha.symm.trans ho
    obtain ⟨po, hpo, _, hlt⟩ := hw.parent ho hp
    obtain ⟨oh, hoh, hlt'⟩ := ih hpo
    exact ⟨oh, hoh, by omega⟩

theorem Below.irrefl (hw : Forest w) : ¬ Below w a a := by
  intro hb
  obtain ⟨o, ho⟩ := hb.source
  obtain ⟨oh, hoh, hlt⟩ := hb.older hw ho
  cases ho.symm.trans hoh
  omega

theorem Below.tail {p : Nat} {o : Object} (hb : Below w a c) (hc : w.objects c = some o)
    (hp : o.parent = some p) : Below w a p := by
  induction hb with
  | child ha hpa => exact .step ha hpa (.child hc hp)
  | step ha hpa _ ih => exact .step ha hpa (ih hc)

theorem Below.trans {b : Nat} (h1 : Below w a b) (h2 : Below w b c) : Below w a c := by
  induction h1 with
  | child ha hp => exact .step ha hp h2
  | step ha hp _ ih => exact .step ha hp (ih h2)

theorem Below.mono
    (h : ∀ b o, w.objects b = some o → ∃ o', w'.objects b = some o' ∧ o'.parent = o.parent)
    (hb : Below w a c) : Below w' a c := by
  induction hb with
  | child ha hp =>
    obtain ⟨o', ho', hpar⟩ := h _ _ ha
    exact .child ho' (hpar.trans hp)
  | step ha hp _ ih =>
    obtain ⟨o', ho', hpar⟩ := h _ _ ha
    exact .step ho' (hpar.trans hp) ih

theorem Below.of_objects (h : w'.objects = w.objects) (hb : Below w a c) : Below w' a c :=
  hb.mono fun b o ho => ⟨o, by rw [h, ho], rfl⟩

theorem Below.of_shape (h : ∀ b, (w'.objects b).map Object.shape = (w.objects b).map Object.shape)
    (hb : Below w a c) : Below w' a c := by
  refine hb.mono ?_
  intro b o ho
  obtain ⟨o', ho', hpar, _⟩ := exists_shape (fun b => (h b).symm) ho
  exact ⟨o', ho', hpar⟩

theorem Below.children (hb : Below w a c) (hw : Forest w) {o : Object}
    (hc : w.objects c = some o) : o.children ≠ [] := by
  induction hb with
  | child ha hp =>
    obtain ⟨po, hpo, hmem, _⟩ := hw.parent ha hp
    cases hpo.symm.trans hc
    exact ne_nil_of_mem hmem
  | step _ _ _ ih => exact ih hc

end Below

/-! ## The end of a destruction -/

section Finish

@[simp] theorem disown_parent (o : Object) (h : Nat) : (o.disown h).parent = o.parent := by
  rw [Object.disown]

@[simp] theorem disown_serial (o : Object) (h : Nat) : (o.disown h).serial = o.serial := by
  rw [Object.disown]

@[simp] theorem disown_children (o : Object) (h : Nat) :
    (o.disown h).children = o.children.erase h := by
  rw [Object.disown]

@[simp] theorem disown_destroying (o : Object) (h : Nat) :
    (o.disown h).destroying = o.destroying := by
  rw [Object.disown]

variable {w : World} {h : Nat} {o : Object}

theorem unlink_objects (hpar : ∀ p, o.parent = some p → w.objects p ≠ none)
    (b : Nat) : (wdfUnlinkChild o.parent h w).objects b =
      if o.parent = some b then (w.objects b).map (·.disown h) else w.objects b := by
  cases hp : o.parent with
  | none => simp [wdfUnlinkChild]
  | some p =>
    cases hpo : w.objects p with
    | none => exact absurd hpo (hpar p hp)
    | some po =>
      simp only [wdfUnlinkChild, hpo, some.injEq]
      by_cases hb : p = b
      · subst hb; simp [hpo]
      · rw [World.put_other _ _ (Ne.symm hb), if_neg hb]

theorem finish_objects (hw : Forest w) (ho : w.objects h = some o) (b : Nat) :
    (finish h o w).objects b =
      if b = h then none
      else if o.parent = some b then (w.objects b).map (·.disown h) else w.objects b := by
  have hpar : ∀ p, o.parent = some p → w.objects p ≠ none := by
    intro p hp hnone
    obtain ⟨po, hpo, _⟩ := hw.parent ho hp
    rw [hnone] at hpo
    cases hpo
  simp only [finish, World.note_objects]
  by_cases hb : b = h
  · subst hb; simp
  · rw [World.put_other _ _ hb, if_neg hb]
    split
    · exact unlink_objects (w := { w with devices := w.devices.erase h }) hpar b
    · exact unlink_objects hpar b

theorem finish_other (hw : Forest w) (ho : w.objects h = some o) {b : Nat} {ob : Object}
    (hb : (finish h o w).objects b = some ob) :
    b ≠ h ∧ ∃ ob', w.objects b = some ob' ∧
      ((o.parent = some b ∧ ob = ob'.disown h) ∨ (o.parent ≠ some b ∧ ob = ob')) := by
  rw [finish_objects hw ho] at hb
  split at hb
  · cases hb
  · rename_i hne
    refine ⟨hne, ?_⟩
    split at hb
    · rename_i hp
      cases hob : w.objects b with
      | none => rw [hob] at hb; cases hb
      | some ob' =>
        rw [hob] at hb
        cases hb
        exact ⟨ob', rfl, .inl ⟨hp, rfl⟩⟩
    · rename_i hp
      exact ⟨ob, hb, .inr ⟨hp, rfl⟩⟩

theorem finish_keeps (hw : Forest w) (ho : w.objects h = some o) {b : Nat} {ob : Object}
    (hb : w.objects b = some ob) (hne : b ≠ h) :
    (finish h o w).objects b = some (if o.parent = some b then ob.disown h else ob) := by
  rw [finish_objects hw ho, if_neg hne, hb]
  split <;> rfl

theorem unlink_log (hpar : ∀ p, o.parent = some p → w.objects p ≠ none) :
    (wdfUnlinkChild o.parent h w).log = w.log ∧
      (wdfUnlinkChild o.parent h w).created = w.created := by
  cases hp : o.parent with
  | none => exact ⟨rfl, rfl⟩
  | some p =>
    cases hpo : w.objects p with
    | none => exact absurd hpo (hpar p hp)
    | some po => simp [wdfUnlinkChild, hpo]

theorem finish_log (hw : Forest w) (ho : w.objects h = some o) :
    (finish h o w).log = .freed o :: w.log ∧ (finish h o w).created = w.created := by
  have hpar : ∀ p, o.parent = some p → w.objects p ≠ none := by
    intro p hp hnone
    obtain ⟨po, hpo, _⟩ := hw.parent ho hp
    rw [hnone] at hpo
    cases hpo
  simp only [finish, World.note_log, World.put_log, World.note_created, World.put_created]
  split
  · have hlog := unlink_log (w := { w with devices := w.devices.erase h }) (h := h) hpar
    exact ⟨by rw [hlog.1], hlog.2⟩
  · exact ⟨by rw [(unlink_log hpar).1], (unlink_log hpar).2⟩

theorem finish_parent (hw : Forest w) (ho : w.objects h = some o) {b : Nat} {ob : Object}
    (hb : (finish h o w).objects b = some ob) :
    b ≠ h ∧ ∃ ob', w.objects b = some ob' ∧ ob'.parent = ob.parent ∧ ob'.serial = ob.serial ∧
      ob'.destroying = ob.destroying := by
  obtain ⟨hne, ob', hob, ⟨_, rfl⟩ | ⟨_, rfl⟩⟩ := finish_other hw ho hb
  · exact ⟨hne, ob', hob, (disown_parent _ _).symm, (disown_serial _ _).symm,
      (disown_destroying _ _).symm⟩
  · exact ⟨hne, ob, hob, rfl, rfl, rfl⟩

theorem Forest.finish (hw : Forest w) (ho : w.objects h = some o) (hchildren : o.children = []) :
    Forest (finish h o w) where
  parent := by
    intro a oa p ha hp
    obtain ⟨hne, oa', hoa, hpar, hser, _⟩ := finish_parent hw ho ha
    obtain ⟨po, hpo, hmem, hlt⟩ := hw.parent hoa (hpar.trans hp)
    have hph : p ≠ h := by
      rintro rfl
      cases hpo.symm.trans ho
      rw [hchildren] at hmem
      cases hmem
    refine ⟨_, finish_keeps hw ho hpo hph, ?_, ?_⟩
    · split
      · rw [disown_children]
        exact (mem_erase_of_ne hne).mpr hmem
      · exact hmem
    · split
      · rw [disown_serial]; omega
      · omega
  child := by
    intro p po a hp ha
    obtain ⟨hne, po', hpo, hcase⟩ := finish_other hw ho hp
    have hmem : a ∈ po'.children ∧ a ≠ h := by
      rcases hcase with ⟨_, rfl⟩ | ⟨hnp, rfl⟩
      · rw [disown_children] at ha
        refine ⟨mem_of_mem_erase ha, ?_⟩
        rintro rfl
        exact (hw.nodup hpo).not_mem_erase ha
      · refine ⟨ha, ?_⟩
        rintro rfl
        obtain ⟨o', ho', hpar⟩ := hw.child hpo ha
        cases ho'.symm.trans ho
        exact hnp hpar
    obtain ⟨oa, hoa, hpar⟩ := hw.child hpo hmem.1
    refine ⟨_, finish_keeps hw ho hoa hmem.2, ?_⟩
    split
    · rw [disown_parent]; exact hpar
    · exact hpar
  nodup := by
    intro p po hp
    obtain ⟨_, po', hpo, ⟨_, rfl⟩ | ⟨_, rfl⟩⟩ := finish_other hw ho hp
    · rw [disown_children]
      exact (hw.nodup hpo).erase h
    · exact hw.nodup hpo
  serial_lt := by
    intro a oa ha
    obtain ⟨_, oa', hoa, _, hser, _⟩ := finish_parent hw ho ha
    rw [(finish_log hw ho).2, ← hser]
    exact hw.serial_lt hoa
  serial_inj := by
    intro a b oa ob ha hb heq
    obtain ⟨_, oa', hoa, _, hsa, _⟩ := finish_parent hw ho ha
    obtain ⟨_, ob', hob, _, hsb, _⟩ := finish_parent hw ho hb
    exact hw.serial_inj hoa hob (by omega)
  finite := by
    obtain ⟨l, hlen, hl⟩ := hw.finite
    refine ⟨l, by rw [(finish_log hw ho).2]; exact hlen, ?_⟩
    intro a oa ha
    obtain ⟨_, oa', hoa, _⟩ := finish_parent hw ho ha
    exact hl hoa
  freed_nodup := by
    rw [World.freed, (finish_log hw ho).1]
    exact nodup_cons.mpr ⟨hw.freed_gone ho, hw.freed_nodup⟩
  freed_lt := by
    intro s hs
    rw [World.freed, (finish_log hw ho).1] at hs
    rw [(finish_log hw ho).2]
    rcases mem_cons.mp hs with rfl | hs
    · exact hw.serial_lt ho
    · exact hw.freed_lt hs
  freed_gone := by
    intro a oa ha hmem
    obtain ⟨hne, oa', hoa, _, hser, _⟩ := finish_parent hw ho ha
    rw [World.freed, (finish_log hw ho).1] at hmem
    rcases mem_cons.mp hmem with heq | hmem
    · exact hne (hw.serial_inj hoa ho (hser.trans heq))
    · exact hw.freed_gone hoa (hser ▸ hmem)
  clean := by
    intro a ha
    rw [(finish_log hw ho).1] at ha
    rcases mem_cons.mp ha with heq | ha
    · cases heq
    · exact hw.clean a ha

theorem Below.of_finish (hw : Forest w) (ho : w.objects h = some o) {a c : Nat}
    (hb : Below (Wdf.finish h o w) a c) : Below w a c := by
  refine hb.mono ?_
  intro b ob hob
  obtain ⟨_, ob', hob', hpar, _⟩ := finish_parent hw ho hob
  exact ⟨ob', hob', hpar⟩

theorem Below.finish (hw : Forest w) (ho : w.objects h = some o) (hchildren : o.children = [])
    {a c : Nat} (hb : Below w a c) (hne : a ≠ h) : Below (Wdf.finish h o w) a c := by
  induction hb with
  | child ha hp =>
    refine .child (finish_keeps hw ho ha hne) ?_
    split
    · rw [disown_parent]; exact hp
    · exact hp
  | step ha hp hrest ih =>
    obtain ⟨po, hpo, hmem, _⟩ := hw.parent ha hp
    refine .step (finish_keeps hw ho ha hne) ?_ (ih ?_)
    · split
      · rw [disown_parent]; exact hp
      · exact hp
    · rintro rfl
      cases hpo.symm.trans ho
      rw [hchildren] at hmem
      cases hmem

end Finish

end DiscouNT.Wdf
