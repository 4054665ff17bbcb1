import Mathlib
import DiscouNT.Wdf.Sweep

/-!
# Wdf.Lifetime

When objects are destroyed. The count of an object is the number of references that are held plus
the number of its children, so `wdf_dereference` destroys it when the last of these goes by a
release. The link of a child does not go by a release: `wdf_unlink_child` lowers the count of the
parent and never looks at it. A parent whose own references went first is left behind with a count
of zero when its last child is destroyed.
-/

namespace DiscouNT.Wdf

open Lib List Option

/-- What is promised about the life of objects, in the state `w`. -/
structure Lifetime (w : World) : Prop where
  -- what is there is counted, and held or needed by a child
  alive : ∀ a o, w.objects a = some o → o.references ≠ 0 ∧ (0 < o.held ∨ o.children ≠ [])
  -- a release destroys only what is neither held nor has a child
  released : ∀ held children, .released held children ∈ w.log → held = 0 ∧ children = 0
  -- the callbacks of an object run once each, when it is destroyed and after its children
  uncalled : ∀ (ph : Phase) a o, w.objects a = some o → w.log.count (ph.event o.serial) = 0
  called : ∀ (ph : Phase) o, .freed o ∈ w.log →
    w.log.count (ph.event o.serial) = if ph.present o = true then 1 else 0
  after : ∀ new e old, w.log = new ++ e :: old → Settled w.log old e

/-- Every reference to the objects other than `h` is accounted for. -/
structure AccountedBut (h : Option Nat) (w : World) : Prop where
  forest : Forest w
  idle : Idle w
  told : Told [] w
  counts : ∀ {a o}, some a ≠ h → w.objects a = some o →
    o.references = o.held + o.children.length ∧ o.references < 2 ^ 32
  alive : ∀ {a o}, some a ≠ h → w.objects a = some o → 0 < o.references
  released : ∀ {held children}, .released held children ∈ w.log → held = 0 ∧ children = 0

abbrev Accounted (w : World) : Prop := AccountedBut none w

section Accounts

variable {w w' : World} {h a : Nat} {o : Object} {c : Creation}

theorem AccountedBut.of_all (hw : Accounted w) : AccountedBut (some h) w where
  forest := hw.forest
  idle := hw.idle
  told := hw.told
  counts := fun _ => hw.counts (by simp)
  alive := fun _ => hw.alive (by simp)
  released := hw.released

theorem Accounted.lifetime (hw : Accounted w) : Lifetime w where
  alive := by
    intro a o ha
    have hpos := hw.alive (by simp) ha
    have hcount := (hw.counts (by simp) ha).1
    refine ⟨by omega, ?_⟩
    by_cases hheld : 0 < o.held
    · exact .inl hheld
    · exact .inr (ne_nil_of_length_pos (by omega))
  released := fun _ _ => hw.released
  uncalled := by
    intro ph a o ha
    rw [hw.told.live ph ha, if_neg (by rw [hw.idle a o ha]; simp)]
  called := fun ph o => hw.told.freed ph
  after := hw.told.after

theorem Accounted.empty : Accounted World.empty where
  forest := Forest.empty
  idle := Idle.empty
  told := Told.empty
  counts := by intro a o _ ha; cases ha
  alive := by intro a o _ ha; cases ha
  released := by intro n k hmem; cases hmem

/-- What the trees, the counts and the callbacks depend on. -/
structure Core where
  shape : Option Nat × List Nat × Nat
  references : Nat
  held : Nat
  cleanup : Bool
  destroy : Bool
  destroying : Bool

def Object.core (o : Object) : Core :=
  ⟨o.shape, o.references, o.held, o.cleanup, o.destroy, o.destroying⟩

structure SameCore (w w' : World) : Prop where
  created : w'.created = w.created
  log : w'.log = w.log
  objects : ∀ a, (w'.objects a).map Object.core = (w.objects a).map Object.core

theorem SameCore.refl (w : World) : SameCore w w := ⟨rfl, rfl, fun _ => rfl⟩

theorem SameCore.trans {w'' : World} (h₁ : SameCore w w') (h2 : SameCore w' w'') :
    SameCore w w'' :=
  ⟨h2.created.trans h₁.created, h2.log.trans h₁.log, fun a => (h2.objects a).trans (h₁.objects a)⟩

theorem core_parts {o o' : Object} (heq : o'.core = o.core) :
    o'.shape = o.shape ∧ o'.references = o.references ∧ o'.held = o.held ∧
      o'.cleanup = o.cleanup ∧ o'.destroy = o.destroy ∧ o'.destroying = o.destroying := by
  simp only [Object.core, Core.mk.injEq] at heq
  exact heq

theorem exists_core (hobj : ∀ a, (w'.objects a).map Object.core = (w.objects a).map Object.core)
    {o' : Object} (ha : w'.objects a = some o') : ∃ o, w.objects a = some o ∧ o'.core = o.core := by
  have hs := hobj a
  rw [ha] at hs
  cases ho : w.objects a with
  | none => rw [ho] at hs; cases hs
  | some o =>
    rw [ho, map_some, map_some] at hs
    exact ⟨o, rfl, some.inj hs⟩

theorem map_of_core {α : Type} {f : Object → α} (hf : ∀ o o' : Object, o'.core = o.core → f o' = f o)
    (hobj : ∀ a, (w'.objects a).map Object.core = (w.objects a).map Object.core) :
    ∀ a, (w'.objects a).map f = (w.objects a).map f := by
  intro a
  cases ha : w'.objects a with
  | none =>
    have := hobj a
    rw [ha] at this
    cases hwa : w.objects a with
    | none => rfl
    | some o => rw [hwa] at this; cases this
  | some o' =>
    obtain ⟨o, ho, hcore⟩ := exists_core hobj ha
    rw [ho, map_some, map_some, hf o o' hcore]

theorem shape_of_core (o o' : Object) (heq : o'.core = o.core) : o'.shape = o.shape :=
  (core_parts heq).1

theorem story_of_core (o o' : Object) (heq : o'.core = o.core) : o'.story = o.story := by
  obtain ⟨hshape, _, _, hcl, hde, hd⟩ := core_parts heq
  simp only [Object.shape, Prod.mk.injEq] at hshape
  simp only [Object.story, hshape.1, hshape.2.2, hcl, hde, hd]

theorem SameCore.forest (h : SameCore w w') (hw : Forest w) : Forest w' := by
  refine hw.of_shape h.created (map_of_core shape_of_core h.objects) ?_ ?_
  · rw [World.freed, World.freed, h.log]
  · intro a ha
    rwa [h.log] at ha

theorem SameCore.idle (h : SameCore w w') (hw : Idle w) : Idle w' := by
  intro a o' ha
  obtain ⟨o, ho, hcore⟩ := exists_core h.objects ha
  rw [(core_parts hcore).2.2.2.2.2]
  exact hw a o ho

theorem SameCore.told (h : SameCore w w') {ts : List Task} (hw : Told ts w) : Told ts w' :=
  hw.of_story h.created h.log (map_of_core story_of_core h.objects)

theorem counts_of_core (hobj : ∀ a, (w'.objects a).map Object.core = (w.objects a).map Object.core)
    (hw : Accounted w) {o' : Object} (ha : w'.objects a = some o') :
    o'.references = o'.held + o'.children.length ∧ o'.references < 2 ^ 32 ∧ 0 < o'.references := by
  obtain ⟨o, ho, hcore⟩ := exists_core hobj ha
  obtain ⟨hshape, href, hheld, _⟩ := core_parts hcore
  simp only [Object.shape, Prod.mk.injEq] at hshape
  rw [href, hheld, hshape.2.1]
  have hcounts := hw.counts (by simp) ho
  exact ⟨hcounts.1, hcounts.2, hw.alive (by simp) ho⟩

theorem SameCore.accounted (h : SameCore w w') (hw : Accounted w) : Accounted w' where
  forest := h.forest hw.forest
  idle := h.idle hw.idle
  told := h.told hw.told
  counts := fun _ ha => by
    obtain ⟨hc, hlt, _⟩ := counts_of_core h.objects hw ha
    exact ⟨hc, hlt⟩
  alive := fun _ ha => (counts_of_core h.objects hw ha).2.2
  released := by rw [h.log]; exact hw.released

theorem SameCore.modify {f : Object → Object} (hf : ∀ o, (f o).core = o.core)
    (hlive : ∃ o, w.objects a = some o) : SameCore w (w.modify a f) := by
  obtain ⟨o, ho⟩ := hlive
  simp only [World.modify, ho]
  refine ⟨rfl, rfl, fun b => ?_⟩
  by_cases hb : b = a
  · subst hb
    rw [World.put_same, ho, map_some, map_some, hf]
  · rw [World.put_other _ _ hb]

@[simp] theorem object_references : (c.object w).references = 1 := by
  unfold Creation.object Attributes.build
  split <;> rfl

@[simp] theorem object_held : (c.object w).held = 1 := by
  unfold Creation.object Attributes.build
  split <;> rfl

theorem adopt_counts (o : Object) (h : Nat) :
    (o.adopt h).references = u32 (o.references + 1) ∧ (o.adopt h).held = o.held := by
  rw [Object.adopt]
  exact ⟨rfl, rfl⟩

theorem disown_counts (o : Object) (h : Nat) :
    (o.disown h).references = sub32 o.references 1 ∧ (o.disown h).held = o.held := by
  rw [Object.disown]
  exact ⟨rfl, rfl⟩

def Creation.Fits (c : Creation) (w : World) : Prop :=
  ∀ p po, (c.object w).parent = some p → w.objects p = some po → po.references + 1 < 2 ^ 32

theorem Accounted.perform (hw : Accounted w) (hc : c.Legal w) (hfit : c.Fits w) :
    Accounted (c.perform w) := by
  have hcounts : ∀ {a o}, (c.perform w).objects a = some o →
      o.references = o.held + o.children.length ∧ o.references < 2 ^ 32 ∧ 0 < o.references := by
    intro a o ha
    rcases perform_cases hc ha with ⟨_, rfl⟩ | ⟨_, o', ho', ⟨hp, rfl⟩ | ⟨_, rfl⟩⟩
    · rw [object_references, object_held, object_children]
      decide
    · have hcount := (hw.counts (by simp) ho').1
      have hlt := hfit a o' hp ho'
      rw [(adopt_counts _ _).1, (adopt_counts _ _).2, adopt_children, u32_of_lt hlt, length_cons]
      omega
    · have hcount := hw.counts (by simp) ho'
      exact ⟨hcount.1, hcount.2, hw.alive (by simp) ho'⟩
  refine ⟨hw.forest.perform hc, hw.idle.perform hc, Told.perform hw.idle hw.told hc, ?_, ?_, ?_⟩
  · intro a o _ ha
    exact ⟨(hcounts ha).1, (hcounts ha).2.1⟩
  · intro a o _ ha
    exact (hcounts ha).2.2
  · intro n k hmem
    rw [(perform_spec hc).2.2.2] at hmem
    rcases mem_cons.mp hmem with heq | hmem
    · cases heq
    · exact hw.released hmem

theorem not_lifetime_perform (hw : Accounted w) (hc : c.Legal w) (hfit : ¬ c.Fits w)
    (hsame : SameCore (c.perform w) w') : ¬ Lifetime w' := by
  intro hlife
  refine hfit ?_
  intro p po hp hpo
  by_contra hge
  have hcount := hw.counts (by simp) hpo
  have hnew := (perform_keeps hc hpo).2
  rw [if_pos hp] at hnew
  obtain ⟨po', hpo', hcore⟩ := exists_core (fun a => (hsame.objects a).symm) hnew
  have href := (core_parts hcore).2.1
  rw [(adopt_counts _ _).1] at href
  have hzero : u32 (po.references + 1) = 0 := by
    simp only [u32]
    omega
  exact (hlife.alive p po' hpo').1 (href ▸ hzero)

theorem wdfDestroyObject_released (hf : Forest w) (hidle : Idle w) (ho : w.objects h = some o) :
    ∀ n k, .released n k ∈ (wdfDestroyObject h w).log → .released n k ∈ w.log := by
  have hstart : ∀ n k, .released n k ∈ (enter h o w).2.log → .released n k ∈ w.log := by
    obtain ⟨_, _, _, _, hworld⟩ := Stack.enter_spec h o w
    rw [hworld]
    exact fun _ _ hmem => hmem
  refine (wdfDestroyObject_ends (P := fun _ w' => ∀ n k, .released n k ∈ w'.log → .released n k ∈ w.log)
    hf hidle ho hstart ?_).2
  intro t ts w1 hold hs n k hmem
  have hnote : ∀ {e}, .released n k ∈ (w1.note e).log → e ≠ .released n k → .released n k ∈ w.log := by
    intro e hmem hne
    rcases mem_cons.mp hmem with heq | hmem
    · exact absurd heq.symm hne
    · exact hold n k hmem
  have henter : ∀ {b ob}, .released n k ∈ (enter b ob w1).2.log → .released n k ∈ w.log := by
    intro b ob hmem
    obtain ⟨_, _, _, _, hworld⟩ := Stack.enter_spec b ob w1
    rw [hworld] at hmem
    exact hold n k hmem
  have hacts := act_cases .quiet hs
  generalize Wdf.act .quiet t w1 = r at hacts hmem
  cases hacts with
  | skip hskip => exact hold n k hmem
  | enter hh hd => exact henter hmem
  | descend hh hch hc hp hd => exact henter hmem
  | spin hh hch hc hp hd => exact hold n k hmem
  | leave hh hch => exact hold n k hmem
  | unload hh => exact hnote hmem (by simp)
  | cleanup hh hch hcb => exact hnote hmem (by simp)
  | noCleanup hh hcb => exact hold n k hmem
  | destroy hh hch hcb => exact hnote hmem (by simp)
  | noDestroy hh hcb => exact hold n k hmem
  | finish hh hch =>
    rw [(finish_log hs.forest hh).1] at hmem
    rcases mem_cons.mp hmem with heq | hmem
    · cases heq
    · exact hold n k hmem

/-- The parent has a reference besides the link of this child. -/
def Object.Spared (o : Object) (w : World) : Prop :=
  ∀ p po, o.parent = some p → w.objects p = some po → po.references ≠ 1

theorem AccountedBut.destroy (hw : AccountedBut (some h) w) (ho : w.objects h = some o)
    (hspared : o.Spared w) : Accounted (wdfDestroyObject h w) := by
  have hswept := wdfDestroyObject_swept hw.forest hw.idle ho
  have hcounts : ∀ {a o'}, (wdfDestroyObject h w).objects a = some o' →
      o'.references = o'.held + o'.children.length ∧ o'.references < 2 ^ 32 ∧
        0 < o'.references := by
    intro a o' ha
    have hne : a ≠ h := by
      rintro rfl
      rw [hswept.gone (.inl rfl)] at ha
      cases ha
    have hnb : ¬ Below w a h := by
      intro hb
      rw [hswept.gone (.inr hb)] at ha
      cases ha
    rw [hswept.kept hne hnb] at ha
    split at ha
    · rename_i hp
      obtain ⟨po, hpo, hmem, _⟩ := hw.forest.parent ho hp
      rw [hpo] at ha
      cases ha
      have hcount := hw.counts (by simpa using hne) hpo
      have hpos := hw.alive (by simpa using hne) hpo
      have hnot := hspared a po hp hpo
      have hlen := length_pos_of_mem hmem
      rw [(disown_counts _ _).1, (disown_counts _ _).2, disown_children,
        sub32_of_le hcount.2 hpos, length_erase_of_mem hmem]
      omega
    · have hcount := hw.counts (by simpa using hne) ha
      exact ⟨hcount.1, hcount.2, hw.alive (by simpa using hne) ha⟩
  refine ⟨hswept.forest, hswept.idle, wdfDestroyObject_told hw.forest hw.idle hw.told ho, ?_, ?_, ?_⟩
  · intro a o' _ ha
    exact ⟨(hcounts ha).1, (hcounts ha).2.1⟩
  · intro a o' _ ha
    exact (hcounts ha).2.2
  · intro n k hmem
    exact hw.released (wdfDestroyObject_released hw.forest hw.idle ho n k hmem)

theorem AccountedBut.not_lifetime_destroy (hw : AccountedBut (some h) w) (ho : w.objects h = some o)
    (hspared : ¬ o.Spared w) : ¬ Lifetime (wdfDestroyObject h w) := by
  intro hlife
  have hswept := wdfDestroyObject_swept hw.forest hw.idle ho
  refine hspared ?_
  intro p po hp hpo hone
  have hbelow : Below w h p := .child ho hp
  have hne : p ≠ h := by
    rintro rfl
    exact Below.irrefl hw.forest hbelow
  have hnb : ¬ Below w p h := fun hb => Below.irrefl hw.forest (hbelow.trans hb)
  have hkept := hswept.kept hne hnb
  rw [if_pos hp, hpo] at hkept
  refine (hlife.alive p _ hkept).1 ?_
  rw [(disown_counts _ _).1, hone]
  rfl

theorem adopt_core (o : Object) (a : Nat) : (o.adopt a).core =
    ⟨(o.parent, a :: o.children, o.serial), u32 (o.references + 1), o.held, o.cleanup, o.destroy,
      o.destroying⟩ := by
  rw [Object.adopt]
  rfl

theorem disown_core (o : Object) (a : Nat) : (o.disown a).core =
    ⟨(o.parent, o.children.erase a, o.serial), sub32 o.references 1, o.held, o.cleanup, o.destroy,
      o.destroying⟩ := by
  rw [Object.disown]
  rfl

theorem disown_adopt {o o' : Object} (hlt : o.references < 2 ^ 32)
    (hcore : o'.core = (o.adopt a).core) : (o'.disown a).core = o.core := by
  rw [adopt_core] at hcore
  obtain ⟨hshape, href, hheld, hcl, hde, hd⟩ := core_parts (o := { o with
    children := a :: o.children, references := u32 (o.references + 1) }) hcore
  simp only [Object.shape, Prod.mk.injEq] at hshape
  have hback : sub32 (u32 (o.references + 1)) 1 = o.references := by
    simp only [sub32, u32]
    omega
  rw [disown_core, hshape.1, hshape.2.1, hshape.2.2, href, hheld, hcl, hde, hd, hback,
    erase_cons_head]
  rfl

theorem undo_objects (hw : Accounted w) (hc : c.Legal w) (hsame : SameCore (c.perform w) w') :
    ∀ b, ((wdfDestroyObject c.a w').objects b).map Object.core = (w.objects b).map Object.core := by
  have hf := hsame.forest (hw.forest.perform hc)
  obtain ⟨o, ho, hcore⟩ := exists_core (fun a => (hsame.objects a).symm) (perform_new hc)
  have hshape := (core_parts hcore).1
  simp only [Object.shape, Prod.mk.injEq] at hshape
  have hswept := wdfDestroyObject_swept hf (hsame.idle (hw.idle.perform hc)) ho
  intro b
  by_cases hb : b = c.a
  · subst hb
    rw [hswept.gone (.inl rfl), hc.1]
  · have hnb : ¬ Below w' b c.a := fun hbelow =>
      hbelow.children hf ho (hshape.2.1.symm.trans object_children)
    rw [hswept.kept hb hnb, ← hshape.1]
    have hperf := (perform_spec hc).1 b
    rw [if_neg hb] at hperf
    have hb' := hsame.objects b
    rw [hperf] at hb'
    split
    · rename_i hp
      obtain ⟨_, po, hpo⟩ := hc.parent_live hp
      rw [if_pos hp, hpo, map_some, map_some] at hb'
      cases hwb : w'.objects b with
      | none => rw [hwb] at hb'; cases hb'
      | some po' =>
        rw [hwb] at hb'
        rw [hpo, map_some, map_some, map_some,
          disown_adopt (hw.counts (by simp) hpo).2 (some.inj hb')]
    · rename_i hp
      rw [if_neg hp] at hb'
      exact hb'

theorem Accounted.undo (hw : Accounted w) (hc : c.Legal w) (hsame : SameCore (c.perform w) w') :
    Accounted (wdfDestroyObject c.a w') := by
  have hf := hsame.forest (hw.forest.perform hc)
  have hidle := hsame.idle (hw.idle.perform hc)
  obtain ⟨o, ho, _⟩ := exists_core (fun a => (hsame.objects a).symm) (perform_new hc)
  have hswept := wdfDestroyObject_swept hf hidle ho
  have hobj := undo_objects hw hc hsame
  refine ⟨hswept.forest, hswept.idle,
    wdfDestroyObject_told hf hidle (hsame.told (Told.perform hw.idle hw.told hc)) ho, ?_, ?_, ?_⟩
  · intro a o' _ ha
    obtain ⟨hcount, hlt, _⟩ := counts_of_core hobj hw ha
    exact ⟨hcount, hlt⟩
  · intro a o' _ ha
    exact (counts_of_core hobj hw ha).2.2
  · intro n k hmem
    have hold := wdfDestroyObject_released hf hidle ho n k hmem
    rw [hsame.log, (perform_spec hc).2.2.2] at hold
    rcases mem_cons.mp hold with heq | hold
    · cases heq
    · exact hw.released hold

end Accounts

/-- The object a creating call leaves, if any, is returned to the caller. -/
def Op.keeps : Op → Bool
  | .driverCreate _ _ _ wdm io => wdm && io
  | .deviceCreate _ _ wdm io => wdm && io
  | .memoryCreate _ _ buffer => buffer
  | _ => true

/-- Calls about the life of objects. References are released by those who hold them. -/
def Op.Legal (w : World) : Op → Prop
  | .reference h => ∃ o, w.objects h = some o
  | .dereference h => ∃ o, w.objects h = some o ∧ 0 < o.held
  | .delete h => ∃ o, w.objects h = some o
  | .dispatch _ _ _ => False
  | op => op.Allocates w

/-- No call takes the last reference of a parent away with a child, and no count overflows. -/
def Op.Sound (w : World) : Op → Prop
  | .reference h => ∀ o, w.objects h = some o → o.references + 1 < 2 ^ 32
  | .dereference h => ∀ o, w.objects h = some o → o.references = 1 → o.Spared w
  | .delete h => ∀ o, w.objects h = some o → o.Spared w
  | op => op.keeps = true → ∀ c ∈ op.creation, c.Fits w

section Steps

variable {w : World} {op : Op} {c : Creation}

theorem SameCore.live {w' : World} (h : SameCore w w') {b : Nat}
    (hb : ∃ o, w.objects b = some o) : ∃ o, w'.objects b = some o := by
  obtain ⟨o, ho⟩ := hb
  obtain ⟨o', ho', _⟩ := exists_core (fun a => (h.objects a).symm) ho
  exact ⟨o', ho'⟩

theorem queueConfigure_core {a d : Nat} {config : Option QueueConfig} {w1 : World}
    (hnew : ∃ o, w1.objects a = some o) : SameCore w1 (wdfQueueConfigure a d config w1) := by
  unfold wdfQueueConfigure
  have hset : SameCore w1 (w1.modify a fun o =>
      { o with device := (w1.objects d).map fun _ => d }) := SameCore.modify (fun _ => rfl) hnew
  cases config with
  | none => exact hset
  | some config =>
    have hevt := hset.trans (SameCore.modify (f := fun o =>
      { o with evtDefault := config.evtDefault, evtRead := config.evtRead
               evtWrite := config.evtWrite, evtDeviceControl := config.evtDeviceControl })
      (fun _ => rfl) (hset.live hnew))
    cases hd : w1.objects d with
    | none =>
      simp only [hd] at hevt ⊢
      exact hevt
    | some od =>
      have hlast := hevt.trans (SameCore.modify (f := fun o => { o with defaultQueue := some a })
        (fun _ => rfl) (hevt.live ⟨od, hd⟩))
      simp only [hd, map_some] at hevt hlast ⊢
      split
      · exact hlast
      · exact hevt

theorem step_creates (hcreation : op.creation = some c) (hd : ∀ d m a, op ≠ .dispatch d m a)
    (hc : c.Legal w) :
    (op.keeps = true → SameCore (c.perform w) (step op w)) ∧
      (op.keeps = false → ∃ w', SameCore (c.perform w) w' ∧
        step op w = wdfDestroyObject c.a w') := by
  have hnew := perform_new hc
  cases op with
  | driverCreate a attributes unload wdm io =>
    cases a with
    | none => cases hcreation
    | some a =>
      cases hcreation
      have hset : SameCore (Creation.perform ⟨a, .driver, attributes⟩ w)
          ((Creation.perform ⟨a, .driver, attributes⟩ w).modify a fun o =>
            { o with driverUnload := unload }) := SameCore.modify (fun _ => rfl) ⟨_, hnew⟩
      cases wdm with
      | false => exact ⟨fun h => (by cases h), fun _ => ⟨_, SameCore.refl _, rfl⟩⟩
      | true =>
        cases io with
        | false => exact ⟨fun h => (by cases h), fun _ => ⟨_, hset, rfl⟩⟩
        | true => exact ⟨fun _ => hset, fun h => by cases h⟩
  | deviceCreate a attributes wdm io =>
    cases a with
    | none => cases hcreation
    | some a =>
      cases hcreation
      cases wdm with
      | false => exact ⟨fun h => (by cases h), fun _ => ⟨_, SameCore.refl _, rfl⟩⟩
      | true =>
        cases io with
        | false => exact ⟨fun h => (by cases h), fun _ => ⟨_, SameCore.refl _, rfl⟩⟩
        | true => exact ⟨fun _ => ⟨rfl, rfl, fun _ => rfl⟩, fun h => by cases h⟩
  | queueCreate a d config attributes =>
    cases a with
    | none => cases hcreation
    | some a =>
      cases d with
      | none => cases hcreation
      | some d =>
        cases hcreation
        exact ⟨fun _ => queueConfigure_core ⟨_, hnew⟩, fun h => by cases h⟩
  | memoryCreate a attributes buffer =>
    cases a with
    | none => cases hcreation
    | some a =>
      cases hcreation
      cases buffer with
      | false => exact ⟨fun h => (by cases h), fun _ => ⟨_, SameCore.refl _, rfl⟩⟩
      | true => exact ⟨fun _ => SameCore.refl _, fun h => by cases h⟩
  | requestCreate a attributes =>
    cases a with
    | none => cases hcreation
    | some a =>
      cases hcreation
      exact ⟨fun _ => SameCore.refl _, fun h => by cases h⟩
  | reference h => cases hcreation
  | dereference h => cases hcreation
  | delete h => cases hcreation
  | dispatch d m a => exact absurd rfl (hd d m a)

theorem step_idle (hcreation : op.creation = none) (hd : ∀ d m a, op ≠ .dispatch d m a)
    (hr : ∀ h, op ≠ .reference h ∧ op ≠ .dereference h ∧ op ≠ .delete h) : step op w = w := by
  cases op with
  | driverCreate a attributes unload wdm io => cases a <;> first | rfl | cases hcreation
  | deviceCreate a attributes wdm io => cases a <;> first | rfl | cases hcreation
  | queueCreate a d config attributes =>
    cases a with
    | none => rfl
    | some a => cases d <;> first | rfl | cases hcreation
  | memoryCreate a attributes buffer => cases a <;> first | rfl | cases hcreation
  | requestCreate a attributes => cases a <;> first | rfl | cases hcreation
  | reference h => exact absurd rfl (hr h).1
  | dereference h => exact absurd rfl (hr h).2.1
  | delete h => exact absurd rfl (hr h).2.2
  | dispatch d m a => exact absurd rfl (hd d m a)

/-! ### References -/

variable {h : Nat} {o : Object}

theorem Accounted.put (hw : Accounted w) (ho : w.objects h = some o) (o' : Object)
    (hshape : o'.shape = o.shape) (hstory : o'.story = o.story) : AccountedBut (some h) (w.put h (some o')) where
  forest := hw.forest.put ho hshape
  idle := by
    intro a oa ha
    by_cases hne : a = h
    · subst hne
      rw [World.put_same] at ha
      cases ha
      simp only [Object.story, Prod.mk.injEq] at hstory
      rw [hstory.2.2.2.2]
      exact hw.idle a o ho
    · rw [World.put_other _ _ hne] at ha
      exact hw.idle a oa ha
  told := by
    refine hw.told.of_story rfl rfl ?_
    intro b
    by_cases hb : b = h
    · subst hb
      rw [World.put_same, ho, map_some, map_some, hstory]
    · rw [World.put_other _ _ hb]
  counts := by
    intro a oa hne ha
    rw [World.put_other _ _ (by simpa using hne)] at ha
    exact hw.counts (by simp) ha
  alive := by
    intro a oa hne ha
    rw [World.put_other _ _ (by simpa using hne)] at ha
    exact hw.alive (by simp) ha
  released := hw.released

theorem AccountedBut.close (hw : AccountedBut (some h) w) (ho : w.objects h = some o)
    (hcounts : o.references = o.held + o.children.length ∧ o.references < 2 ^ 32)
    (hpos : 0 < o.references) : Accounted w where
  forest := hw.forest
  idle := hw.idle
  told := hw.told
  counts := by
    intro a oa _ ha
    by_cases hne : a = h
    · subst hne
      cases ho.symm.trans ha
      exact hcounts
    · exact hw.counts (by simpa using hne) ha
  alive := by
    intro a oa _ ha
    by_cases hne : a = h
    · subst hne
      cases ho.symm.trans ha
      exact hpos
    · exact hw.alive (by simpa using hne) ha
  released := hw.released

theorem AccountedBut.noteReleased (hw : AccountedBut (some h) w) :
    AccountedBut (some h) (w.note (.released 0 0)) where
  forest := hw.forest.note rfl (fun _ heq => by cases heq)
  idle := hw.idle
  told := hw.told.note (fun ph s => by cases ph <;> simp [Phase.event]) (fun _ heq => by cases heq)
    (fun _ _ heq => by cases heq)
  counts := hw.counts
  alive := hw.alive
  released := by
    intro n k hmem
    rcases mem_cons.mp hmem with heq | hmem
    · cases heq
      exact ⟨rfl, rfl⟩
    · exact hw.released hmem

theorem reference_accounted (hw : Accounted w) (ho : w.objects h = some o) :
    (o.references + 1 < 2 ^ 32 → Accounted (wdfReference h w)) ∧
      (¬ o.references + 1 < 2 ^ 32 → ¬ Lifetime (wdfReference h w)) := by
  have hcount := hw.counts (by simp) ho
  simp only [wdfReference, ho]
  constructor
  · intro hlt
    refine (Accounted.put hw ho { o with references := u32 (o.references + 1), held := o.held + 1 }
      rfl rfl).close (World.put_same _ _ _) ?_ ?_
    · simp only [u32_of_lt hlt]
      omega
    · simp only [u32_of_lt hlt]
      omega
  · intro hge hlife
    refine (hlife.alive h _ (World.put_same _ _ _)).1 ?_
    simp only [u32]
    omega

theorem dereference_accounted (hw : Accounted w) (ho : w.objects h = some o) (hheld : 0 < o.held) :
    ((o.references = 1 → o.Spared w) → Accounted (wdfDereference h w)) ∧
      (¬ (o.references = 1 → o.Spared w) → ¬ Lifetime (wdfDereference h w)) := by
  have hcount := hw.counts (by simp) ho
  have hpos := hw.alive (by simp) ho
  have hsub : sub32 o.references 1 = o.references - 1 := sub32_of_le hcount.2 hpos
  have hput := Accounted.put hw ho
    { o with references := o.references - 1, held := o.held - 1 } rfl rfl
  simp only [wdfDereference, ho, hsub]
  by_cases hone : o.references = 1
  · -- nobody else holds it, and it has no child
    have hlen : o.children.length = 0 := by omega
    have hzero : o.held - 1 = 0 := by omega
    rw [if_pos (by rw [hone]), hzero, hlen]
    rw [hzero] at hput
    have hnoted := hput.noteReleased
    have hlook : ((w.put h (some { o with references := o.references - 1, held := 0 })).note
        (.released 0 0)).objects h = some { o with references := o.references - 1, held := 0 } :=
      World.put_same _ _ _
    have hspared : ∀ {o' : Object}, o'.parent = o.parent → (o'.Spared
        ((w.put h (some { o with references := o.references - 1, held := 0 })).note
          (.released 0 0)) ↔ o.Spared w) := by
      intro o' hpar
      have hother : ∀ p, o.parent = some p → ((w.put h (some
          { o with references := o.references - 1, held := 0 })).note
          (.released 0 0)).objects p = w.objects p := by
        intro p hp
        refine World.put_other _ _ ?_
        rintro rfl
        exact Below.irrefl hw.forest (.child ho hp)
      constructor
      · intro hs p po hp hpo
        exact hs p po (hpar.trans hp) ((hother p hp).trans hpo)
      · intro hs p po hp hpo
        rw [hpar] at hp
        exact hs p po hp ((hother p hp).symm.trans hpo)
    constructor
    · intro hsp
      exact hnoted.destroy hlook ((hspared rfl).mpr (hsp hone))
    · intro hsp
      refine hnoted.not_lifetime_destroy hlook fun hs => hsp fun _ => (hspared rfl).mp hs
  · rw [if_neg (by omega)]
    refine ⟨fun _ => hput.close (World.put_same _ _ _) ?_ ?_, fun hno => absurd hone (by
      intro _
      exact hno fun h1 => absurd h1 hone)⟩
    · simp only
      omega
    · simp only
      omega

theorem delete_accounted (hw : Accounted w) (ho : w.objects h = some o) :
    (o.Spared w → Accounted (wdfDestroyObject h w)) ∧
      (¬ o.Spared w → ¬ Lifetime (wdfDestroyObject h w)) :=
  ⟨(AccountedBut.of_all hw).destroy ho, (AccountedBut.of_all hw).not_lifetime_destroy ho⟩

/-! ### Any call -/

theorem create_accounted (hw : Accounted w) (hl : op.Allocates w)
    (hd : ∀ d m a, op ≠ .dispatch d m a)
    (hr : ∀ h, op ≠ .reference h ∧ op ≠ .dereference h ∧ op ≠ .delete h) :
    ((op.keeps = true → ∀ c ∈ op.creation, c.Fits w) → Accounted (step op w)) ∧
      (¬ (op.keeps = true → ∀ c ∈ op.creation, c.Fits w) → ¬ Lifetime (step op w)) := by
  cases hcreation : op.creation with
  | none =>
    rw [step_idle hcreation hd hr]
    exact ⟨fun _ => hw, fun hno => absurd (fun _ c hc => by cases hc) hno⟩
  | some c =>
    have hc : c.Legal w := hl c hcreation
    obtain ⟨hkeep, hundo⟩ := step_creates hcreation hd hc
    cases hk : op.keeps with
    | true =>
      refine ⟨fun hfit => ?_, fun hno => ?_⟩
      · exact (hkeep hk).accounted (hw.perform hc (hfit rfl c rfl))
      · refine not_lifetime_perform hw hc (fun hfit => hno ?_) (hkeep hk)
        intro _ c' hc'
        cases hc'
        exact hfit
    | false =>
      obtain ⟨w', hsame, heq⟩ := hundo hk
      rw [heq]
      exact ⟨fun _ => hw.undo hc hsame, fun hno => absurd (fun h => by cases h) hno⟩

theorem step_accounted (hw : Accounted w) (hl : op.Legal w) :
    (op.Sound w → Accounted (step op w)) ∧ (¬ op.Sound w → ¬ Lifetime (step op w)) := by
  cases op with
  | reference h =>
    obtain ⟨o, ho⟩ := hl
    obtain ⟨hyes, hno⟩ := reference_accounted hw ho
    refine ⟨fun hs => hyes (hs o ho), fun hs => hno fun hlt => hs ?_⟩
    intro o' ho'
    cases ho.symm.trans ho'
    exact hlt
  | dereference h =>
    obtain ⟨o, ho, hheld⟩ := hl
    obtain ⟨hyes, hno⟩ := dereference_accounted hw ho hheld
    refine ⟨fun hs => hyes (hs o ho), fun hs => hno fun hsp => hs ?_⟩
    intro o' ho'
    cases ho.symm.trans ho'
    exact hsp
  | delete h =>
    obtain ⟨o, ho⟩ := hl
    obtain ⟨hyes, hno⟩ := delete_accounted hw ho
    refine ⟨fun hs => hyes (hs o ho), fun hs => hno fun hsp => hs ?_⟩
    intro o' ho'
    cases ho.symm.trans ho'
    exact hsp
  | dispatch d m a => exact absurd hl id
  | driverCreate a attributes unload wdm io => exact create_accounted hw hl (by simp) (by simp)
  | deviceCreate a attributes wdm io => exact create_accounted hw hl (by simp) (by simp)
  | queueCreate a d config attributes => exact create_accounted hw hl (by simp) (by simp)
  | memoryCreate a attributes buffer => exact create_accounted hw hl (by simp) (by simp)
  | requestCreate a attributes => exact create_accounted hw hl (by simp) (by simp)

end Steps

/-- In every sequence of calls in which references are released by their holders, the promise holds
throughout exactly when no call destroys the last child of an object whose own references are all
released, and no count overflows. -/
theorem lifetime_iff (ops : List Op)
    (hlegal : ∀ pre op post, ops = pre ++ op :: post → op.Legal (run pre .empty)) :
    (∀ pre post, ops = pre ++ post → Lifetime (run pre .empty)) ↔
      ∀ pre op post, ops = pre ++ op :: post → op.Sound (run pre .empty) :=
  promise_iff_good Accounted.empty (fun _ => Accounted.lifetime) (fun _ _ => step_accounted) ops hlegal

def Along (P : World → Op → Prop) : List Op → World → Prop
  | [], _ => True
  | op :: ops, w => P w op ∧ Along P ops (step op w)

theorem Along.split {P : World → Op → Prop} :
    ∀ {ops : List Op} {w : World}, Along P ops w →
      ∀ pre op post, ops = pre ++ op :: post → P (run pre w) op := by
  intro ops
  induction ops with
  | nil => intro w _ pre op post heq; simp at heq
  | cons op ops ih =>
    intro w h pre op' post heq
    cases pre with
    | nil =>
      cases heq
      exact h.1
    | cons op1 pre =>
      obtain ⟨rfl, hrest⟩ := List.cons.inj heq
      exact ih h.2 pre op' post hrest

def createTwo : List Op := [.requestCreate (some 1) none,
  .requestCreate (some 2) (some ⟨true, true, some 1⟩)]

theorem createTwo_legal : ∀ {ops : List Op}, Along Op.Legal ops (run createTwo .empty) →
    Along Op.Legal (createTwo ++ ops) .empty := by
  intro ops h
  refine ⟨?_, ?_, h⟩
  · intro c hc
    cases hc
    exact ⟨rfl, fun _ hat => by cases hat⟩
  · intro c hc
    cases hc
    refine ⟨by decide, ?_⟩
    intro at' hat p hp
    cases hat
    cases hp
    exact ⟨_, rfl⟩

theorem lifetime_iff_child_first :
    Along Op.Legal (createTwo ++ [.dereference 2, .dereference 1]) .empty ∧
    ∀ pre post, createTwo ++ [.dereference 2, .dereference 1] = pre ++ post →
      Lifetime (run pre .empty) := by
  have hlegal : Along Op.Legal (createTwo ++ [.dereference 2, .dereference 1]) .empty :=
    createTwo_legal ⟨⟨_, rfl, by decide⟩, ⟨_, rfl, by decide⟩, trivial⟩
  refine ⟨hlegal,
    (lifetime_iff _ hlegal.split).mpr (Along.split (P := Op.Sound) ⟨?_, ?_, ?_, ?_, trivial⟩)⟩
  · intro _ c hc p po hp
    cases hc
    cases hp
  · intro _ c hc p po hp hpo
    cases hc
    cases hp
    cases hpo
    decide
  · intro o ho _ p po hp hpo
    cases ho
    cases hp
    cases hpo
    decide
  · intro o ho _ p po hp
    cases ho
    cases hp

/-- The parent is released first, and is left with nothing to keep it and nothing to destroy it. -/
theorem lifetime_iff_parent_first :
    (∀ pre op post, createTwo ++ [.dereference 1, .dereference 2] = pre ++ op :: post →
      op.Legal (run pre .empty)) ∧
    ((run (createTwo ++ [.dereference 1, .dereference 2]) .empty).objects 1).map
      (fun o => (o.references, o.held, o.children)) = some (0, 0, []) ∧
    ¬ Lifetime (run (createTwo ++ [.dereference 1, .dereference 2]) .empty) := by
  have hleft : ((run (createTwo ++ [.dereference 1, .dereference 2]) .empty).objects 1).map
      (fun o => (o.references, o.held, o.children)) = some (0, 0, []) := by decide +kernel
  refine ⟨?_, hleft, ?_⟩
  · have hlegal : Along Op.Legal (createTwo ++ [.dereference 1, .dereference 2]) .empty :=
      createTwo_legal ⟨⟨_, rfl, by decide⟩, ⟨_, rfl, by decide⟩, trivial⟩
    exact hlegal.split
  · intro hlife
    obtain ⟨o, ho, hparts⟩ := map_eq_some_iff.mp hleft
    simp only [Prod.mk.injEq] at hparts
    exact (hlife.alive 1 o ho).1 hparts.1

end DiscouNT.Wdf
