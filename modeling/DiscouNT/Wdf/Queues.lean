import DiscouNT.Wdf.Lifetime

/-!
# Wdf.Queues

Devices and queues point at each other. Only `wdf_queue_create` sets these pointers and nothing
clears them, while a queue may be the child of any object and may be deleted before its device or
outlive it. They stay good exactly as long as no deletion takes one end of such a pointer and leaves
the other, and no queue is created for a handle that is not a device's.
-/

namespace DiscouNT.Wdf

open Lib List Option

/-- The pointers between devices and queues lead to objects of the right kind. -/
structure Linked (w : World) : Prop where
  default : ∀ {d o q}, w.objects d = some o → o.type = .device → o.defaultQueue = some q →
    ∃ qo, w.objects q = some qo ∧ qo.type = .queue ∧ qo.device = some d
  queue : ∀ {q o}, w.objects q = some o → o.type = .queue →
    ∃ d od, o.device = some d ∧ w.objects d = some od ∧ od.type = .device
  -- no callback was called through memory that had been freed
  clean : ∀ a, Event.stale a ∉ w.log

structure Listed (w : World) : Prop where
  nodup : w.devices.Nodup
  live : ∀ {d}, d ∈ w.devices → ∃ o, w.objects d = some o ∧ o.type = .device

structure Wired (w : World) : Prop where
  forest : Forest w
  idle : Idle w
  linked : Linked w
  listed : Listed w

def Object.wires (o : Object) :
    (Option Nat × List Nat × Nat) × Bool × ObjectType × Option Nat × Option Nat :=
  (o.shape, o.destroying, o.type, o.defaultQueue, o.device)

theorem wires_parts {o o' : Object} (heq : o'.wires = o.wires) :
    o'.shape = o.shape ∧ o'.destroying = o.destroying ∧ o'.type = o.type ∧
      o'.defaultQueue = o.defaultQueue ∧ o'.device = o.device := by
  simpa only [Object.wires, Prod.mk.injEq] using heq

section Wires

variable {w w' : World} {a h : Nat} {o : Object} {c : Creation}

theorem exists_wires (hobj : ∀ a, (w'.objects a).map Object.wires = (w.objects a).map Object.wires)
    {o' : Object} (ha : w'.objects a = some o') :
    ∃ o, w.objects a = some o ∧ o'.wires = o.wires := by
  have hs := hobj a
  rw [ha] at hs
  cases ho : w.objects a with
  | none => rw [ho] at hs; cases hs
  | some o =>
    rw [ho, map_some, map_some] at hs
    exact ⟨o, rfl, some.inj hs⟩

theorem Linked.of_wires (hw : Linked w)
    (hobj : ∀ a, (w'.objects a).map Object.wires = (w.objects a).map Object.wires)
    (hclean : ∀ a, Event.stale a ∉ w'.log) : Linked w' where
  default := by
    intro d o' q hd hty hq
    obtain ⟨o, ho, hwires⟩ := exists_wires hobj hd
    obtain ⟨_, _, htype, hdef, _⟩ := wires_parts hwires
    obtain ⟨qo, hqo, hqt, hqd⟩ := hw.default ho (htype ▸ hty) (hdef ▸ hq)
    obtain ⟨qo', hqo', hwires'⟩ := exists_wires (fun b => (hobj b).symm) hqo
    obtain ⟨_, _, htype', _, hdev'⟩ := wires_parts hwires'
    exact ⟨qo', hqo', htype'.symm.trans hqt, hdev'.symm.trans hqd⟩
  queue := by
    intro q o' hq hty
    obtain ⟨o, ho, hwires⟩ := exists_wires hobj hq
    obtain ⟨_, _, htype, _, hdev⟩ := wires_parts hwires
    obtain ⟨d, od, hd, hod, hdt⟩ := hw.queue ho (htype ▸ hty)
    obtain ⟨od', hod', hwires'⟩ := exists_wires (fun b => (hobj b).symm) hod
    exact ⟨d, od', hdev.trans hd, hod', (wires_parts hwires').2.2.1.symm.trans hdt⟩
  clean := hclean

theorem Listed.of_wires (hw : Listed w)
    (hobj : ∀ a, (w'.objects a).map Object.wires = (w.objects a).map Object.wires)
    (hdev : w'.devices = w.devices) : Listed w' where
  nodup := by rw [hdev]; exact hw.nodup
  live := by
    intro d hd
    rw [hdev] at hd
    obtain ⟨o, ho, hty⟩ := hw.live hd
    obtain ⟨o', ho', hwires⟩ := exists_wires (fun b => (hobj b).symm) ho
    exact ⟨o', ho', (wires_parts hwires).2.2.1.symm.trans hty⟩

theorem disown_wires (o : Object) (h : Nat) : (o.disown h).wires =
    ((o.parent, o.children.erase h, o.serial), o.destroying, o.type, o.defaultQueue, o.device) := by
  rw [Object.disown]
  rfl

theorem adopt_wires (o : Object) (h : Nat) : (o.adopt h).wires =
    ((o.parent, h :: o.children, o.serial), o.destroying, o.type, o.defaultQueue, o.device) := by
  rw [Object.adopt]
  rfl

theorem disown_pointers (o : Object) (h : Nat) : (o.disown h).type = o.type ∧
    (o.disown h).defaultQueue = o.defaultQueue ∧ (o.disown h).device = o.device := by
  rw [Object.disown]
  exact ⟨rfl, rfl, rfl⟩

theorem finish_devices (h : Nat) (o : Object) (w : World) : (finish h o w).devices =
    if o.type = .device then w.devices.erase h else w.devices := by
  have hunlink : ∀ w : World, (wdfUnlinkChild o.parent h w).devices = w.devices := by
    intro w
    unfold wdfUnlinkChild
    split
    · rfl
    · split <;> rfl
  simp only [finish, World.note_devices, World.put_devices, hunlink]
  split <;> rfl

theorem Listed.finish (hw : Listed w) (hf : Forest w) (ho : w.objects h = some o) :
    Listed (finish h o w) := by
  have hsub : ∀ {d}, d ∈ (Wdf.finish h o w).devices → d ∈ w.devices ∧ d ≠ h := by
    intro d hd
    rw [finish_devices] at hd
    split at hd
    · exact ⟨mem_of_mem_erase hd, fun heq => hw.nodup.not_mem_erase (heq ▸ hd)⟩
    · rename_i hty
      refine ⟨hd, ?_⟩
      rintro rfl
      obtain ⟨o', ho', hdev⟩ := hw.live hd
      cases ho.symm.trans ho'
      exact hty hdev
  constructor
  · rw [finish_devices]
    split
    · exact hw.nodup.erase h
    · exact hw.nodup
  · intro d hd
    obtain ⟨hmem, hne⟩ := hsub hd
    obtain ⟨od, hod, hty⟩ := hw.live hmem
    refine ⟨_, finish_keeps hf ho hod hne, ?_⟩
    split
    · exact (disown_pointers _ _).1.trans hty
    · exact hty

theorem Listed.enter (hw : Listed w) (ho : w.objects h = some o) : Listed (enter h o w).2 := by
  obtain ⟨_, u, _, _, hworld⟩ := Stack.enter_spec h o w
  rw [hworld]
  refine ⟨hw.nodup, ?_⟩
  intro d hd
  obtain ⟨od, hod, hty⟩ := hw.live hd
  by_cases hne : d = h
  · subst hne
    cases ho.symm.trans hod
    exact ⟨_, World.put_same _ _ _, hty⟩
  · exact ⟨od, by rw [World.put_other _ _ hne, hod], hty⟩

theorem wdfDestroyObject_listed (hf : Forest w) (hidle : Idle w) (hw : Listed w)
    (ho : w.objects h = some o) : Listed (wdfDestroyObject h w) := by
  refine (wdfDestroyObject_ends (P := fun _ w => Listed w) hf hidle ho (hw.enter ho) ?_).2
  intro t ts w1 hw1 hs
  have hacts := act_cases .quiet hs
  generalize Wdf.act .quiet t w1 = r at hacts
  cases hacts with
  | skip hskip => exact hw1
  | enter hh hd => exact hw1.enter hh
  | descend hh hch hc hp hd => exact hw1.enter hc
  | spin hh hch hc hp hd => exact hw1
  | leave hh hch => exact hw1
  | unload hh => exact ⟨hw1.nodup, hw1.live⟩
  | cleanup hh hch hcb => exact ⟨hw1.nodup, hw1.live⟩
  | noCleanup hh hcb => exact hw1
  | destroy hh hch hcb => exact ⟨hw1.nodup, hw1.live⟩
  | noDestroy hh hcb => exact hw1
  | finish hh hch => exact hw1.finish hs.forest hh

def Within (w : World) (a h : Nat) : Prop := a = h ∨ Below w a h

/-- No pointer between a device and a queue leads from outside into the tree of `h`. -/
structure Detached (w : World) (h : Nat) : Prop where
  default : ∀ {d o q}, w.objects d = some o → o.type = .device → o.defaultQueue = some q →
    Within w q h → Within w d h
  queue : ∀ {q o d}, w.objects q = some o → o.type = .queue → o.device = some d →
    Within w d h → Within w q h

theorem Swept.survivor (hs : Swept w h o w') {b : Nat} {ob' : Object}
    (hb : w'.objects b = some ob') : ¬ Within w b h ∧ ∃ ob, w.objects b = some ob ∧
      ob'.type = ob.type ∧ ob'.defaultQueue = ob.defaultQueue ∧ ob'.device = ob.device := by
  have hnot : ¬ Within w b h := by
    intro hwith
    rw [hs.gone hwith] at hb
    cases hb
  refine ⟨hnot, ?_⟩
  rw [hs.kept (fun heq => hnot (.inl heq)) (fun hbelow => hnot (.inr hbelow))] at hb
  split at hb
  · cases hob : w.objects b with
    | none => rw [hob] at hb; cases hb
    | some ob =>
      rw [hob] at hb
      cases hb
      exact ⟨ob, rfl, disown_pointers _ _⟩
  · exact ⟨ob', hb, rfl, rfl, rfl⟩

theorem Swept.stays (hs : Swept w h o w') {b : Nat} {ob : Object} (hb : w.objects b = some ob)
    (hnot : ¬ Within w b h) : ∃ ob', w'.objects b = some ob' ∧ ob'.type = ob.type ∧
      ob'.defaultQueue = ob.defaultQueue ∧ ob'.device = ob.device := by
  have hkept := hs.kept (fun heq => hnot (.inl heq)) (fun hbelow => hnot (.inr hbelow))
  rw [hb] at hkept
  split at hkept
  · exact ⟨_, hkept, disown_pointers _ _⟩
  · exact ⟨ob, hkept, rfl, rfl, rfl⟩

theorem Swept.linked_iff (hs : Swept w h o w') (hw : Linked w) : Linked w' ↔ Detached w h := by
  constructor
  · intro hl
    constructor
    · intro d od q hd hty hq hwith
      by_contra hnot
      obtain ⟨od', hod', hty', hdef', _⟩ := hs.stays hd hnot
      obtain ⟨qo, hqo, _⟩ := hl.default hod' (hty'.trans hty) (hdef'.trans hq)
      exact (hs.survivor hqo).1 hwith
    · intro q oq d hq hty hd hwith
      by_contra hnot
      obtain ⟨oq', hoq', hty', _, hdev'⟩ := hs.stays hq hnot
      obtain ⟨d', od, hd', hod, _⟩ := hl.queue hoq' (hty'.trans hty)
      rw [hdev', hd] at hd'
      cases hd'
      exact (hs.survivor hod).1 hwith
  · intro hdet
    refine ⟨?_, ?_, hs.forest.clean⟩
    · intro d od' q hd hty hq
      obtain ⟨hnot, od, hod, hty', hdef', _⟩ := hs.survivor hd
      rw [hty'] at hty
      rw [hdef'] at hq
      obtain ⟨qo, hqo, hqt, hqd⟩ := hw.default hod hty hq
      obtain ⟨qo', hqo', hqt', _, hqd'⟩ := hs.stays hqo fun hwith => hnot (hdet.default hod hty hq hwith)
      exact ⟨qo', hqo', hqt'.trans hqt, hqd'.trans hqd⟩
    · intro q oq' hq hty
      obtain ⟨hnot, oq, hoq, hty', _, hdev'⟩ := hs.survivor hq
      rw [hty'] at hty
      obtain ⟨d, od, hd, hod, hdt⟩ := hw.queue hoq hty
      obtain ⟨od', hod', hdt', _⟩ := hs.stays hod fun hwith => hnot (hdet.queue hoq hty hd hwith)
      exact ⟨d, od', hdev'.trans hd, hod', hdt'.trans hdt⟩

theorem wdfDestroyObject_wired (hw : Wired w) (ho : w.objects h = some o) :
    (Detached w h → Wired (wdfDestroyObject h w)) ∧
      (¬ Detached w h → ¬ Linked (wdfDestroyObject h w)) := by
  have hs := wdfDestroyObject_swept hw.forest hw.idle ho
  refine ⟨fun hdet => ⟨hs.forest, hs.idle, (hs.linked_iff hw.linked).mpr hdet, ?_⟩,
    fun hno hl => hno ((hs.linked_iff hw.linked).mp hl)⟩
  exact wdfDestroyObject_listed hw.forest hw.idle hw.listed ho

structure SameWires (w w' : World) : Prop where
  created : w'.created = w.created
  freed : w'.freed = w.freed
  stale : ∀ a, Event.stale a ∈ w'.log → Event.stale a ∈ w.log
  devices : w'.devices = w.devices
  objects : ∀ a, (w'.objects a).map Object.wires = (w.objects a).map Object.wires

theorem SameWires.refl (w : World) : SameWires w w := ⟨rfl, rfl, fun _ h => h, rfl, fun _ => rfl⟩

theorem SameWires.shapes (h : SameWires w w') :
    ∀ a, (w'.objects a).map Object.shape = (w.objects a).map Object.shape := by
  intro a
  have hs := congrArg (Option.map Prod.fst) (h.objects a)
  rw [Option.map_map, Option.map_map] at hs
  exact hs

theorem SameWires.forest (h : SameWires w w') (hw : Forest w) : Forest w' :=
  hw.of_shape h.created h.shapes h.freed h.stale

theorem SameWires.idle (h : SameWires w w') (hw : Idle w) : Idle w' := by
  intro a o' ha
  obtain ⟨o, ho, hwires⟩ := exists_wires h.objects ha
  rw [(wires_parts hwires).2.1]
  exact hw a o ho

theorem SameWires.wired (h : SameWires w w') (hw : Wired w) : Wired w' where
  forest := h.forest hw.forest
  idle := h.idle hw.idle
  linked := hw.linked.of_wires h.objects (h.forest hw.forest).clean
  listed := hw.listed.of_wires h.objects h.devices

theorem SameWires.within (h : SameWires w w') {a b : Nat} : Within w' a b ↔ Within w a b := by
  constructor
  · rintro (rfl | hb)
    · exact .inl rfl
    · exact .inr (hb.of_shape fun c => (h.shapes c).symm)
  · rintro (rfl | hb)
    · exact .inl rfl
    · exact .inr (hb.of_shape h.shapes)

theorem SameWires.symm_wires (h : SameWires w w') {a : Nat} {o : Object} (ha : w.objects a = some o) :
    ∃ o', w'.objects a = some o' ∧ o'.wires = o.wires := by
  obtain ⟨o', ho', hwires⟩ := exists_wires (fun b => (h.objects b).symm) ha
  exact ⟨o', ho', hwires.symm⟩

theorem SameWires.detached (h : SameWires w w') {b : Nat} : Detached w' b ↔ Detached w b := by
  constructor
  · intro hdet
    constructor
    · intro d o q hd hty hq hwith
      obtain ⟨o', ho', hwires⟩ := h.symm_wires hd
      obtain ⟨_, _, htype, hdef, _⟩ := wires_parts hwires
      exact h.within.mp (hdet.default ho' (htype.trans hty) (hdef.trans hq) (h.within.mpr hwith))
    · intro q o d hq hty hd hwith
      obtain ⟨o', ho', hwires⟩ := h.symm_wires hq
      obtain ⟨_, _, htype, _, hdev⟩ := wires_parts hwires
      exact h.within.mp (hdet.queue ho' (htype.trans hty) (hdev.trans hd) (h.within.mpr hwith))
  · intro hdet
    constructor
    · intro d o' q hd hty hq hwith
      obtain ⟨o, ho, hwires⟩ := exists_wires h.objects hd
      obtain ⟨_, _, htype, hdef, _⟩ := wires_parts hwires
      exact h.within.mpr (hdet.default ho (htype ▸ hty) (hdef ▸ hq) (h.within.mp hwith))
    · intro q o' d hq hty hd hwith
      obtain ⟨o, ho, hwires⟩ := exists_wires h.objects hq
      obtain ⟨_, _, htype, _, hdev⟩ := wires_parts hwires
      exact h.within.mpr (hdet.queue ho (htype ▸ hty) (hdev ▸ hd) (h.within.mp hwith))

theorem SameWires.put (o' : Object) (ho : w.objects h = some o) (hwires : o'.wires = o.wires) :
    SameWires w (w.put h (some o')) := by
  refine ⟨rfl, rfl, fun _ h => h, rfl, fun b => ?_⟩
  by_cases hb : b = h
  · subst hb
    rw [World.put_same, ho, map_some, map_some, hwires]
  · rw [World.put_other _ _ hb]

theorem SameWires.note {e : Event} (h : SameWires w w') (hfreed : e.freedSerial = none)
    (hstale : ∀ a, e ≠ .stale a) : SameWires w (w'.note e) := by
  refine ⟨h.created, ?_, ?_, h.devices, h.objects⟩
  · rw [← h.freed]
    simp [World.freed, hfreed]
  · intro a ha
    rcases mem_cons.mp ha with heq | ha
    · exact absurd heq.symm (hstale a)
    · exact h.stale a ha

theorem adopt_pointers (o : Object) (h : Nat) : (o.adopt h).type = o.type ∧
    (o.adopt h).defaultQueue = o.defaultQueue ∧ (o.adopt h).device = o.device := by
  rw [Object.adopt]
  exact ⟨rfl, rfl, rfl⟩

theorem object_pointers : (c.object w).type = c.type ∧ (c.object w).defaultQueue = none ∧
    (c.object w).device = none := by
  unfold Creation.object Attributes.build
  split <;> exact ⟨rfl, rfl, rfl⟩

theorem perform_pointers (hc : c.Legal w) {b : Nat} {ob' : Object}
    (hb : (c.perform w).objects b = some ob') :
    (b = c.a ∧ ob'.type = c.type ∧ ob'.defaultQueue = none ∧ ob'.device = none) ∨
      (b ≠ c.a ∧ ∃ ob, w.objects b = some ob ∧ ob'.type = ob.type ∧
        ob'.defaultQueue = ob.defaultQueue ∧ ob'.device = ob.device) := by
  rcases perform_cases hc hb with ⟨heq, rfl⟩ | ⟨hne, ob, hob, ⟨_, rfl⟩ | ⟨_, rfl⟩⟩
  · exact .inl ⟨heq, object_pointers⟩
  · exact .inr ⟨hne, ob, hob, adopt_pointers _ _⟩
  · exact .inr ⟨hne, ob', hob, rfl, rfl, rfl⟩

theorem perform_stays (hc : c.Legal w) {b : Nat} {ob : Object} (hb : w.objects b = some ob) :
    ∃ ob', (c.perform w).objects b = some ob' ∧ ob'.type = ob.type ∧
      ob'.defaultQueue = ob.defaultQueue ∧ ob'.device = ob.device := by
  refine ⟨_, (perform_keeps hc hb).2, ?_⟩
  split
  · exact adopt_pointers _ _
  · exact ⟨rfl, rfl, rfl⟩

theorem Listed.perform (hw : Listed w) (hc : c.Legal w) : Listed (c.perform w) := by
  constructor
  · rw [(perform_spec hc).2.1]
    exact hw.nodup
  · intro d hd
    rw [(perform_spec hc).2.1] at hd
    obtain ⟨o, ho, hty⟩ := hw.live hd
    obtain ⟨o', ho', hty', _⟩ := perform_stays hc ho
    exact ⟨o', ho', hty'.trans hty⟩

theorem Wired.perform (hw : Wired w) (hc : c.Legal w) (hty : c.type ≠ .queue) :
    Wired (c.perform w) := by
  have hforest := hw.forest.perform hc
  refine ⟨hforest, hw.idle.perform hc, ⟨?_, ?_, hforest.clean⟩, hw.listed.perform hc⟩
  · intro d od' q hd hdt hq
    rcases perform_pointers hc hd with ⟨_, _, hnone, _⟩ | ⟨_, od, hod, htype, hdef, _⟩
    · rw [hnone] at hq
      cases hq
    · obtain ⟨qo, hqo, hqt, hqd⟩ := hw.linked.default hod (htype ▸ hdt) (hdef ▸ hq)
      obtain ⟨qo', hqo', hqt', _, hqd'⟩ := perform_stays hc hqo
      exact ⟨qo', hqo', hqt'.trans hqt, hqd'.trans hqd⟩
  · intro q oq' hq hqt
    rcases perform_pointers hc hq with ⟨_, htype, _⟩ | ⟨_, oq, hoq, htype, _, hdev⟩
    · exact absurd (htype.symm.trans hqt) hty
    · obtain ⟨d, od, hd, hod, hdt⟩ := hw.linked.queue hoq (htype ▸ hqt)
      obtain ⟨od', hod', hdt', _⟩ := perform_stays hc hod
      exact ⟨d, od', hdev.trans hd, hod', hdt'.trans hdt⟩

theorem Wired.undo (hw : Wired w) (hc : c.Legal w) (hsame : SameWires (c.perform w) w') :
    Wired (wdfDestroyObject c.a w') := by
  have hf := hsame.forest (hw.forest.perform hc)
  have hidle := hsame.idle (hw.idle.perform hc)
  obtain ⟨o, ho, hwires⟩ := hsame.symm_wires (perform_new hc)
  have hshape := (wires_parts hwires).1
  simp only [Object.shape, Prod.mk.injEq] at hshape
  have hswept := wdfDestroyObject_swept hf hidle ho
  have hobj : ∀ b, ((wdfDestroyObject c.a w').objects b).map Object.wires =
      (w.objects b).map Object.wires := by
    intro b
    by_cases hb : b = c.a
    · subst hb
      rw [hswept.gone (.inl rfl), hc.1]
    · have hnb : ¬ Below w' b c.a := fun hbelow =>
        hbelow.children hf ho (hshape.2.1.trans object_children)
      rw [hswept.kept hb hnb, hshape.1]
      have hperf := (perform_spec hc).1 b
      rw [if_neg hb] at hperf
      have hb' := hsame.objects b
      rw [hperf] at hb'
      split
      · rename_i hp
        obtain ⟨_, po, hpo⟩ := hc.parent_live hp
        rw [if_pos hp, hpo, map_some, map_some] at hb'
        cases hwb : w'.objects b with
        | none => rw [hwb] at hb'; cases hb'
        | some po' =>
          rw [hwb, map_some] at hb'
          have hparts := some.inj hb'
          rw [adopt_wires] at hparts
          simp only [Object.wires, Object.shape, Prod.mk.injEq] at hparts
          obtain ⟨⟨h1, h2, h3⟩, h4, h5, h6, h7⟩ := hparts
          rw [hpo, map_some, map_some, map_some, disown_wires, h1, h2, h3, h4,
            h5, h6, h7, erase_cons_head]
          rfl
      · rename_i hp
        rw [if_neg hp] at hb'
        exact hb'
  refine ⟨hswept.forest, hswept.idle, hw.linked.of_wires hobj hswept.forest.clean, ?_⟩
  exact wdfDestroyObject_listed hf hidle ((hw.listed.perform hc).of_wires hsame.objects
    hsame.devices) ho

/-! ### Queues -/

theorem modify_cases {f : Object → Object} {b : Nat} {ob' : Object}
    (hb : (w.modify a f).objects b = some ob') :
    ∃ ob, w.objects b = some ob ∧ ob' = if b = a then f ob else ob := by
  unfold World.modify at hb
  split at hb
  · rename_i hnone
    refine ⟨ob', hb, ?_⟩
    rw [if_neg]
    rintro rfl
    rw [World.note_objects, hnone] at hb
    cases hb
  · rename_i o ho
    by_cases hne : b = a
    · subst hne
      rw [World.put_same] at hb
      cases hb
      exact ⟨o, ho, by rw [if_pos rfl]⟩
    · rw [World.put_other _ _ hne] at hb
      exact ⟨ob', hb, by rw [if_neg hne]⟩

theorem modify_devices (w : World) (a : Nat) (f : Object → Object) :
    (w.modify a f).devices = w.devices := by
  unfold World.modify
  split <;> rfl

theorem configure_pointers {d : Nat} {config : Option QueueConfig} {b : Nat} {ob' : Object}
    (hb : (wdfQueueConfigure a d config w).objects b = some ob') :
    ∃ ob, w.objects b = some ob ∧ ob'.type = ob.type ∧
      ob'.device = (if b = a then (w.objects d).map fun _ => d else ob.device) ∧
      (ob'.defaultQueue = ob.defaultQueue ∨ (b = d ∧ ob'.defaultQueue = some a)) := by
  have hdevice : ∀ {ob'}, (w.modify a fun o =>
      { o with device := (w.objects d).map fun _ => d }).objects b = some ob' →
      ∃ ob, w.objects b = some ob ∧ ob'.type = ob.type ∧
        ob'.device = (if b = a then (w.objects d).map fun _ => d else ob.device) ∧
        ob'.defaultQueue = ob.defaultQueue := by
    intro ob' hb
    obtain ⟨ob, hob, rfl⟩ := modify_cases hb
    refine ⟨ob, hob, ?_⟩
    split <;> exact ⟨rfl, rfl, rfl⟩
  have hevents : ∀ {ob'} {config : QueueConfig}, ((w.modify a fun o =>
      { o with device := (w.objects d).map fun _ => d }).modify a fun o =>
      { o with evtDefault := config.evtDefault, evtRead := config.evtRead
               evtWrite := config.evtWrite, evtDeviceControl := config.evtDeviceControl }).objects b =
        some ob' →
      ∃ ob, w.objects b = some ob ∧ ob'.type = ob.type ∧
        ob'.device = (if b = a then (w.objects d).map fun _ => d else ob.device) ∧
        ob'.defaultQueue = ob.defaultQueue := by
    intro ob' config hb
    obtain ⟨ob1, hob1, rfl⟩ := modify_cases hb
    obtain ⟨ob, hob, hty, hdev, hdef⟩ := hdevice hob1
    refine ⟨ob, hob, ?_⟩
    split
    · rename_i hba
      rw [if_pos hba] at hdev
      exact ⟨hty, hdev, hdef⟩
    · rename_i hba
      rw [if_neg hba] at hdev
      exact ⟨hty, hdev, hdef⟩
  unfold wdfQueueConfigure at hb
  cases config with
  | none =>
    obtain ⟨ob, hob, hty, hdev, hdef⟩ := hdevice hb
    exact ⟨ob, hob, hty, hdev, .inl hdef⟩
  | some config =>
    simp only at hb
    have hdone : ∀ {ob' : Object}, (∃ ob, w.objects b = some ob ∧ ob'.type = ob.type ∧
        ob'.device = (if b = a then (w.objects d).map fun _ => d else ob.device) ∧
        ob'.defaultQueue = ob.defaultQueue) → ∃ ob, w.objects b = some ob ∧ ob'.type = ob.type ∧
        ob'.device = (if b = a then (w.objects d).map fun _ => d else ob.device) ∧
        (ob'.defaultQueue = ob.defaultQueue ∨ (b = d ∧ ob'.defaultQueue = some a)) := by
      rintro ob' ⟨ob, hob, hty, hdev, hdef⟩
      exact ⟨ob, hob, hty, hdev, .inl hdef⟩
    split at hb
    · exact hdone (hevents hb)
    · rename_i d' hd'
      obtain ⟨od, _, rfl⟩ := map_eq_some_iff.mp hd'
      split at hb
      · obtain ⟨ob1, hob1, rfl⟩ := modify_cases hb
        obtain ⟨ob, hob, hty, hdev, hdef⟩ := hevents hob1
        refine ⟨ob, hob, ?_⟩
        by_cases hbd : b = d
        · rw [if_pos hbd]
          exact ⟨hty, hdev, .inr ⟨hbd, rfl⟩⟩
        · rw [if_neg hbd]
          exact ⟨hty, hdev, .inl hdef⟩
      · exact hdone (hevents hb)

theorem configure_devices (a d : Nat) (config : Option QueueConfig) (w : World) :
    (wdfQueueConfigure a d config w).devices = w.devices := by
  unfold wdfQueueConfigure
  cases config with
  | none => exact modify_devices _ _ _
  | some config =>
    simp only
    split
    · rw [modify_devices, modify_devices]
    · split
      · rw [modify_devices, modify_devices, modify_devices]
      · rw [modify_devices, modify_devices]

theorem queueCreate_wired {d : Nat} {config : Option QueueConfig} (hw : Wired w) (hc : c.Legal w)
    (hty : c.type = .queue) :
    ((∃ od, w.objects d = some od ∧ od.type = .device) →
        Wired (wdfQueueConfigure c.a d config (c.perform w))) ∧
      ((¬ ∃ od, w.objects d = some od ∧ od.type = .device) →
        ¬ Linked (wdfQueueConfigure c.a d config (c.perform w))) := by
  have hcore : SameCore (c.perform w) (wdfQueueConfigure c.a d config (c.perform w)) :=
    queueConfigure_core ⟨_, perform_new hc⟩
  -- an object of the old world in the new one
  have hstays : ∀ {b ob}, w.objects b = some ob → b ≠ c.a ∧ ∃ ob',
      (wdfQueueConfigure c.a d config (c.perform w)).objects b = some ob' ∧ ob'.type = ob.type ∧
        ob'.device = ob.device := by
    intro b ob hb
    have hne := (perform_keeps hc hb).1
    obtain ⟨ob1, hob1, hty1, _, hdev1⟩ := perform_stays hc hb
    obtain ⟨ob', hob'⟩ := hcore.live ⟨ob1, hob1⟩
    obtain ⟨ob2, hob2, hty2, hdev2, _⟩ := configure_pointers hob'
    cases hob1.symm.trans hob2
    rw [if_neg hne] at hdev2
    exact ⟨hne, ob', hob', hty2.trans hty1, hdev2.trans hdev1⟩
  -- the new queue
  obtain ⟨oa, hoa⟩ := hcore.live ⟨_, perform_new hc⟩
  obtain ⟨oa1, hoa1, htya, hdeva, _⟩ := configure_pointers hoa
  cases (perform_new hc).symm.trans hoa1
  rw [if_pos rfl] at hdeva
  have hqueue : oa.type = .queue := htya.trans (object_pointers.1.trans hty)
  constructor
  · rintro ⟨od, hod, hdt⟩
    have hforest := hcore.forest (hw.forest.perform hc)
    obtain ⟨hda, od', hod', hdt', _⟩ := hstays hod
    obtain ⟨od1, hod1, _⟩ := perform_stays hc hod
    rw [hod1, map_some] at hdeva
    refine ⟨hforest, hcore.idle (hw.idle.perform hc), ⟨?_, ?_, hforest.clean⟩, ?_⟩
    · intro x ox q hx hxt hq
      obtain ⟨ox1, hox1, hxt1, _, hdef⟩ := configure_pointers hx
      rcases perform_pointers hc hox1 with ⟨_, htx, hnone, _⟩ | ⟨_, ox0, hox0, htx, hdef0, _⟩
      · rw [hxt1, htx, hty] at hxt
        cases hxt
      · rcases hdef with hdef | ⟨rfl, hdef⟩
        · rw [hdef, hdef0] at hq
          obtain ⟨qo, hqo, hqt, hqd⟩ := hw.linked.default hox0 (htx ▸ hxt1 ▸ hxt) hq
          obtain ⟨_, qo', hqo', hqt', hqd'⟩ := hstays hqo
          exact ⟨qo', hqo', hqt'.trans hqt, hqd'.trans hqd⟩
        · rw [hdef] at hq
          cases hq
          exact ⟨oa, hoa, hqueue, hdeva⟩
    · intro q oq hq hqt
      by_cases hqa : q = c.a
      · subst hqa
        cases hoa.symm.trans hq
        exact ⟨d, od', hdeva, hod', hdt'.trans hdt⟩
      · obtain ⟨oq1, hoq1, hqt1, hdev1, _⟩ := configure_pointers hq
        rw [if_neg hqa] at hdev1
        rcases perform_pointers hc hoq1 with ⟨heq, _⟩ | ⟨_, oq0, hoq0, hqt0, _, hdev0⟩
        · exact absurd heq hqa
        · obtain ⟨x, ox, hx, hox, hxt⟩ := hw.linked.queue hoq0 (hqt0 ▸ hqt1 ▸ hqt)
          obtain ⟨_, ox', hox', hxt', _⟩ := hstays hox
          exact ⟨x, ox', hdev1.trans (hdev0.trans hx), hox', hxt'.trans hxt⟩
    · refine ⟨?_, ?_⟩
      · rw [configure_devices, (perform_spec hc).2.1]
        exact hw.listed.nodup
      · intro x hx
        rw [configure_devices, (perform_spec hc).2.1] at hx
        obtain ⟨ox, hox, hxt⟩ := hw.listed.live hx
        obtain ⟨_, ox', hox', hxt', _⟩ := hstays hox
        exact ⟨ox', hox', hxt'.trans hxt⟩
  · intro hno hl
    obtain ⟨x, ox, hx, hox, hxt⟩ := hl.queue hoa hqueue
    rw [hdeva] at hx
    obtain ⟨_, hd1, rfl⟩ := map_eq_some_iff.mp hx
    obtain ⟨ox1, hox1, hxt1, _⟩ := configure_pointers hox
    rcases perform_pointers hc hox1 with ⟨_, htx, _⟩ | ⟨_, ox0, hox0, htx, _⟩
    · rw [hxt1, htx, hty] at hxt
      cases hxt
    · exact hno ⟨ox0, hox0, htx.symm.trans (hxt1.symm.trans hxt)⟩

/-! ## Calls -/

theorem SameWires.modify {f : Object → Object} (hf : ∀ o, (f o).wires = o.wires)
    (ho : w.objects a = some o) : SameWires w (w.modify a f) := by
  simp only [World.modify, ho]
  exact SameWires.put _ ho (hf o)

theorem Wired.listDevice (hw : Wired w) (hc : c.Legal w) (hty : c.type = .device) :
    Wired { c.perform w with devices := c.a :: (c.perform w).devices } := by
  have hp := hw.perform hc (by rw [hty]; simp)
  refine ⟨hp.forest.devices _, hp.idle, ⟨hp.linked.default, hp.linked.queue, hp.linked.clean⟩, ?_⟩
  refine ⟨nodup_cons.mpr ⟨fun hmem => ?_, hp.listed.nodup⟩, ?_⟩
  · rw [(perform_spec hc).2.1] at hmem
    obtain ⟨o, ho, _⟩ := hw.listed.live hmem
    rw [hc.1] at ho
    cases ho
  · intro d hd
    rcases mem_cons.mp hd with rfl | hd
    · exact ⟨_, perform_new hc, object_pointers.1.trans hty⟩
    · exact hp.listed.live hd

theorem dispatch_wired {d m : Nat} {r : Option Nat} (hw : Wired w)
    (hl : (Op.dispatch d m r).Allocates w) (hd : d ∈ w.devices) :
    Wired (wdfDispatchWdm d m r w) := by
  obtain ⟨od, hod, hdt⟩ := hw.listed.live hd
  simp only [wdfDispatchWdm, hod]
  cases hq : od.defaultQueue with
  | none => exact hw
  | some q =>
    cases r with
    | none => exact hw
    | some r =>
      have hc : Creation.Legal w ⟨r, .request, none⟩ := hl _ rfl
      obtain ⟨qo, hqo, hqt, _⟩ := hw.linked.default hod hdt hq
      obtain ⟨qo', hqo', hqt', _⟩ := perform_stays hc hqo
      have hlook : (wdfNewObject r .request none w).objects q = some qo' := hqo'
      have hplain := hw.undo hc (SameWires.refl _)
      have hcalled := fun evt => hw.undo hc
        ((SameWires.refl _).note (e := .invoked q evt) rfl (fun _ heq => by cases heq))
      simp only [hlook, hqt'.trans hqt, if_true]
      cases qo'.evtFor m with
      | none => exact hplain
      | some evt => exact hcalled evt

theorem dereference_wired (hw : Wired w) :
    ((∀ o, w.objects h = some o → sub32 o.references 1 = 0 → Detached w h) →
        Wired (wdfDereference h w)) ∧
      (¬ (∀ o, w.objects h = some o → sub32 o.references 1 = 0 → Detached w h) →
        ¬ Linked (wdfDereference h w)) := by
  cases ho : w.objects h with
  | none =>
    simp only [wdfDereference, ho]
    exact ⟨fun _ => hw, fun hno => absurd (fun o hc => by cases hc) hno⟩
  | some o =>
    obtain ⟨r, hr⟩ : ∃ r, sub32 o.references 1 = r := ⟨_, rfl⟩
    have hput : SameWires w (w.put h (some { o with references := r, held := o.held - 1 })) :=
      SameWires.put _ ho rfl
    simp only [wdfDereference, ho, hr]
    by_cases hzero : r = 0
    · rw [if_pos hzero]
      have hnote : SameWires w ((w.put h (some { o with references := r, held := o.held - 1 })).note
          (.released (o.held - 1) o.children.length)) := hput.note rfl (fun _ heq => by cases heq)
      obtain ⟨hyes, hno⟩ := wdfDestroyObject_wired (hnote.wired hw) (World.put_same _ _ _)
      refine ⟨fun hdet => hyes (hnote.detached.mpr (hdet o rfl (hr.trans hzero))), fun hdet => ?_⟩
      refine hno fun hd => hdet ?_
      intro _ _ _
      exact hnote.detached.mp hd
    · rw [if_neg hzero]
      refine ⟨fun _ => hput.wired hw, fun hdet => absurd ?_ hdet⟩
      intro o' ho' hr'
      cases ho'
      exact absurd (hr.symm.trans hr') hzero

end Wires

/-- Queues are created for devices, and what is destroyed is detached from the rest. -/
def Op.Detaches (w : World) : Op → Prop
  | .queueCreate (some _) (some d) _ _ => ∃ od, w.objects d = some od ∧ od.type = .device
  | .dereference h => ∀ o, w.objects h = some o → sub32 o.references 1 = 0 → Detached w h
  | .delete h => Detached w h
  | _ => True

section Steps

variable {w : World} {op : Op}

theorem Wired.empty : Wired World.empty where
  forest := Forest.empty
  idle := Idle.empty
  linked := ⟨fun hd => (by cases hd), fun hq => (by cases hq), Forest.empty.clean⟩
  listed := ⟨nodup_nil, fun hd => (by cases hd)⟩

theorem delete_wired {h : Nat} (hw : Wired w) :
    (Detached w h → Wired (wdfDestroyObject h w)) ∧
      (¬ Detached w h → ¬ Linked (wdfDestroyObject h w)) := by
  cases ho : w.objects h with
  | some o => exact wdfDestroyObject_wired hw ho
  | none =>
    -- there is nothing to point into
    have hsame : wdfDestroyObject h w = w := by
      have hact : act .quiet (.call h) w = ([], w) := by simp only [act, ho]
      simp only [wdfDestroyObject, wdfObjectDelete, drive, advance, hact, append_nil, drive_empty]
    have hnot : ∀ {b}, (∃ o, w.objects b = some o) → ¬ Within w b h := by
      rintro b ⟨ob, hb⟩ (rfl | hbelow)
      · rw [ho] at hb
        cases hb
      · obtain ⟨oh, hoh, _⟩ := hbelow.older hw.forest hb
        rw [ho] at hoh
        cases hoh
    rw [hsame]
    refine ⟨fun _ => hw, fun hno => absurd ⟨?_, ?_⟩ hno⟩
    · intro d o q hd hty hq hwith
      obtain ⟨qo, hqo, _⟩ := hw.linked.default hd hty hq
      exact absurd hwith (hnot ⟨qo, hqo⟩)
    · intro q o d hq hty hd hwith
      obtain ⟨d', od, hd', hod, _⟩ := hw.linked.queue hq hty
      cases hd.symm.trans hd'
      exact absurd hwith (hnot ⟨od, hod⟩)

theorem driverCreate_wired {a : Nat} {attributes : Option Attributes} {unload wdm io : Bool}
    (hw : Wired w) (hc : Creation.Legal w ⟨a, .driver, attributes⟩) :
    Wired (wdfDriverCreate a attributes unload wdm io w) := by
  have hset : SameWires (Creation.perform ⟨a, .driver, attributes⟩ w)
      ((Creation.perform ⟨a, .driver, attributes⟩ w).modify a fun o =>
        { o with driverUnload := unload }) := SameWires.modify (fun _ => rfl) (perform_new hc)
  have hfailed := hw.undo hc (SameWires.refl _)
  have hlate := hw.undo hc hset
  have hkept := hset.wired (hw.perform hc (by simp))
  cases wdm with
  | false => exact hfailed
  | true =>
    cases io with
    | false => exact hlate
    | true => exact hkept

theorem step_wired (hw : Wired w) (hl : op.Allocates w) :
    (op.Detaches w → Wired (step op w)) ∧ (¬ op.Detaches w → ¬ Linked (step op w)) := by
  cases op with
  | driverCreate a attributes unload wdm io =>
    refine ⟨fun _ => ?_, fun hno => absurd trivial hno⟩
    cases a with
    | none => exact hw
    | some a => exact driverCreate_wired hw (hl _ rfl)
  | deviceCreate a attributes wdm io =>
    refine ⟨fun _ => ?_, fun hno => absurd trivial hno⟩
    cases a with
    | none => exact hw
    | some a =>
      have hc : Creation.Legal w ⟨a, .device, attributes⟩ := hl _ rfl
      have hfailed := hw.undo hc (SameWires.refl _)
      have hkept := hw.listDevice hc rfl
      cases wdm with
      | false => exact hfailed
      | true =>
        cases io with
        | false => exact hfailed
        | true => exact hkept
  | queueCreate a d config attributes =>
    cases a with
    | none => exact ⟨fun _ => hw, fun hno => absurd trivial hno⟩
    | some a =>
      cases d with
      | none => exact ⟨fun _ => hw, fun hno => absurd trivial hno⟩
      | some d => exact queueCreate_wired hw (hl _ rfl) rfl
  | memoryCreate a attributes buffer =>
    refine ⟨fun _ => ?_, fun hno => absurd trivial hno⟩
    cases a with
    | none => exact hw
    | some a =>
      have hc : Creation.Legal w ⟨a, .memory, attributes⟩ := hl _ rfl
      have hfailed := hw.undo hc (SameWires.refl _)
      have hkept := hw.perform hc (by simp)
      cases buffer with
      | false => exact hfailed
      | true => exact hkept
  | requestCreate a attributes =>
    refine ⟨fun _ => ?_, fun hno => absurd trivial hno⟩
    cases a with
    | none => exact hw
    | some a => exact hw.perform (hl _ rfl) (by simp)
  | reference h =>
    refine ⟨fun _ => ?_, fun hno => absurd trivial hno⟩
    simp only [step, wdfReference]
    split
    · exact hw
    · rename_i o ho
      exact (SameWires.put { o with references := u32 (o.references + 1), held := o.held + 1 } ho
        rfl).wired hw
  | dereference h => exact dereference_wired hw
  | delete h => exact delete_wired hw
  | dispatch d m a =>
    refine ⟨fun _ => ?_, fun hno => absurd trivial hno⟩
    simp only [step]
    split
    · rename_i hd
      exact dispatch_wired hw hl hd
    · exact hw

end Steps

/-- The pointers between devices and queues stay good exactly when queues are created for devices
only and no destruction takes a queue from its device or a device from its queue. -/
theorem queues_linked_iff (ops : List Op)
    (hlegal : ∀ pre op post, ops = pre ++ op :: post → op.Allocates (run pre .empty)) :
    (∀ pre post, ops = pre ++ post → Linked (run pre .empty)) ↔
      ∀ pre op post, ops = pre ++ op :: post → op.Detaches (run pre .empty) :=
  promise_iff_good Wired.empty (fun _ => Wired.linked) (fun _ _ => step_wired) ops hlegal

/-- A device at 1 with a default queue at 2, which is its child and takes every request. -/
def deviceAndQueue : List Op := [.deviceCreate (some 1) none true true,
  .queueCreate (some 2) (some 1) (some ⟨true, true, false, false, false⟩) none]

theorem deviceAndQueue_legal : ∀ {ops : List Op},
    Along Op.Allocates ops (run deviceAndQueue .empty) →
    Along Op.Allocates (deviceAndQueue ++ ops) .empty := by
  intro ops h
  refine ⟨?_, ?_, h⟩
  · intro c hc
    cases hc
    exact ⟨rfl, fun _ hat => by cases hat⟩
  · intro c hc
    cases hc
    refine ⟨by decide, ?_⟩
    intro at' hat p hp
    cases hat
    cases hp
    exact ⟨_, rfl⟩

/-- A request goes to the queue. -/
theorem queues_linked_iff_dispatch :
    Along Op.Allocates (deviceAndQueue ++ [.dispatch 1 2 (some 3)]) .empty ∧
    ∀ pre post, deviceAndQueue ++ [.dispatch 1 2 (some 3)] = pre ++ post →
      Linked (run pre .empty) := by
  have hlegal : Along Op.Allocates (deviceAndQueue ++ [.dispatch 1 2 (some 3)]) .empty := by
    refine deviceAndQueue_legal ⟨?_, trivial⟩
    intro c hc
    cases hc
    exact ⟨by decide, fun _ hat => by cases hat⟩
  exact ⟨hlegal, (queues_linked_iff _ hlegal.split).mpr
    (Along.split (P := Op.Detaches) ⟨trivial, ⟨_, rfl, rfl⟩, trivial, trivial⟩)⟩

/-- The queue is deleted, and its device still sends requests to it. -/
theorem queues_linked_iff_queue :
    (∀ pre op post, deviceAndQueue ++ [.delete 2, .dispatch 1 2 (some 3)] = pre ++ op :: post →
      op.Allocates (run pre .empty)) ∧
    ((run (deviceAndQueue ++ [.delete 2]) .empty).objects 1).map Object.defaultQueue =
      some (some 2) ∧
    (run (deviceAndQueue ++ [.delete 2]) .empty).objects 2 = none ∧
    .stale 2 ∈ (run (deviceAndQueue ++ [.delete 2, .dispatch 1 2 (some 3)]) .empty).log := by
  refine ⟨?_, by decide +kernel, by decide +kernel, by decide +kernel⟩
  have hlegal : Along Op.Allocates (deviceAndQueue ++ [.delete 2, .dispatch 1 2 (some 3)])
      .empty := by
    refine deviceAndQueue_legal ⟨fun c hc => (by cases hc), ?_, trivial⟩
    intro c hc
    cases hc
    exact ⟨by decide +kernel, fun _ hat => by cases hat⟩
  exact hlegal.split

end DiscouNT.Wdf
