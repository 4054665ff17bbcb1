import DiscouNT.Loader.DllRuns
import Mathlib.Data.List.Pairwise

/-!
# Loader.DllOnce

When every DLL is loaded, and its `DllMain` run, at most once.

`PeLoadDll` looks a name up with `strcmp`, `PeGetLoadedModuleHandle` and the cycle check ignore the
case. As long as a name is spelt like the entry it means, is shorter than the field it is copied to,
and no rollback loses an entry, the names on `dll_list` and on the loading stack are all different.
-/

namespace DiscouNT.Loader

open List

def Apart (a b : LoadedDll) : Prop := upper a.name ≠ upper b.name

theorem Apart.symm {a b : LoadedDll} (h : Apart a b) : Apart b a := Ne.symm h

instance : Std.Symm Apart := ⟨fun _ _ h => h.symm⟩

def HasOwnPath (d : LoadedDll) : Prop :=
  d.path = systemDir ++ upper d.name ∨ d.path = appsDir ++ upper d.name

structure Unique (w : World) : Prop where
  distinct : w.dllList.Pairwise Apart
  pending : ∀ d ∈ w.dllList, ∀ s ∈ w.loadingStack, upper d.name ≠ upper s
  paths : ∀ d ∈ w.dllList, HasOwnPath d

structure Free (name : Name) (w : World) : Prop extends Unique w where
  list : ∀ d ∈ w.dllList, upper d.name ≠ upper name
  stack : ∀ s ∈ w.loadingStack, upper s ≠ upper name

/-- A `PeLoadDll` asks for a registered DLL only under the name it is registered with, a name that
is registered fits its field, and a rollback loses nothing. -/
def Event.Regular : Event → Prop
  | .returned name before _ _ _ =>
    ∀ d ∈ before.dllList, peNameEqualsIgnoreCase d.name name = true → d.name = name
  | .registered asked _ => asked.length < 64
  | .rolledBack _ lost => lost = []
  | _ => True

instance : DecidablePred Event.Regular
  | .returned name before _ _ _ => inferInstanceAs (Decidable (∀ d ∈ before.dllList,
      peNameEqualsIgnoreCase d.name name = true → d.name = name))
  | .registered asked _ => inferInstanceAs (Decidable (asked.length < 64))
  | .rolledBack _ lost => inferInstanceAs (Decidable (lost = []))
  | .attached _ => isTrue trivial
  | .loaded _ => isTrue trivial

/-- A `PeLoadDll` of a name that `PeGetLoadedModuleHandle` finds returns the same image, and no two
entries have the same name. -/
def Event.Coherent : Event → Prop
  | .returned name before after result _ =>
    (∀ h, peGetLoadedModuleHandle before.dllList name = some h → result = some h) ∧
      before.dllList.Pairwise Apart ∧ after.dllList.Pairwise Apart
  | _ => True

/-- The DLLs that `f` picks from the new events are on the list now, were not before, and are all
different. -/
structure Fresh (f : Event → Option LoadedDll) (w : World) (new : List Event) (w' : World) : Prop where
  listed : ∀ d ∈ new.filterMap f, d ∈ w'.dllList
  unseen : ∀ d ∈ new.filterMap f, ∀ d' ∈ w.dllList, Apart d' d
  distinct : (new.filterMap f).Pairwise Apart

section Fresh

variable {f : Event → Option LoadedDll} {w w' w'' : World} {new new' : List Event}

theorem Fresh.of_nil (h : new.filterMap f = []) : Fresh f w new w' := by
  refine ⟨?_, ?_, ?_⟩
  · rw [h]; simp
  · rw [h]; simp
  · rw [h]; exact List.Pairwise.nil

theorem Fresh.trans (h : Fresh f w new w') (h' : Fresh f w' new' w'')
    (hlist : ∀ d ∈ w.dllList, d ∈ w'.dllList) (hlist' : ∀ d ∈ w'.dllList, d ∈ w''.dllList) :
    Fresh f w (new' ++ new) w'' := by
  refine ⟨?_, ?_, ?_⟩
  · rw [filterMap_append]
    intro d hd
    rcases mem_append.mp hd with hd | hd
    · exact h'.listed d hd
    · exact hlist' d (h.listed d hd)
  · rw [filterMap_append]
    intro d hd
    rcases mem_append.mp hd with hd | hd
    · exact fun d' hd' => h'.unseen d hd d' (hlist d' hd')
    · exact h.unseen d hd
  · rw [filterMap_append]
    refine pairwise_append.mpr ⟨h'.distinct, h.distinct, fun a ha b hb => ?_⟩
    exact (h'.unseen a ha b (h.listed b hb)).symm

theorem Fresh.insert {w1 w2 w3 : World} {new2 new3 : List Event} {e r : Event} {d : LoadedDll}
    (hcons : w1.dllList = d :: w.dllList) (hd : ∀ d' ∈ w.dllList, Apart d' d)
    (h2 : Fresh f w1 new2 w2) (hlist2 : ∀ x ∈ w1.dllList, x ∈ w2.dllList)
    (h3 : Fresh f w2 new3 w3) (hlist3 : ∀ x ∈ w2.dllList, x ∈ w3.dllList)
    (he : f e = some d) (hr : f r = none) :
    Fresh f w (new3 ++ e :: (new2 ++ [r])) w3 := by
  have hpick : (new3 ++ e :: (new2 ++ [r])).filterMap f = new3.filterMap f ++ d :: new2.filterMap f := by
    simp [he, hr]
  have hin1 : d ∈ w1.dllList := by
    rw [hcons]
    exact mem_cons_self
  have hsub : ∀ x ∈ w.dllList, x ∈ w1.dllList := by
    rw [hcons]
    exact fun x hx => mem_cons_of_mem d hx
  refine ⟨?_, ?_, ?_⟩
  · rw [hpick]
    intro x hx
    rcases mem_append.mp hx with hx | hx
    · exact h3.listed x hx
    · rcases mem_cons.mp hx with hx | hx
      · rw [hx]
        exact hlist3 d (hlist2 d hin1)
      · exact hlist3 x (h2.listed x hx)
  · rw [hpick]
    intro x hx d' hd'
    rcases mem_append.mp hx with hx | hx
    · exact h3.unseen x hx d' (hlist2 d' (hsub d' hd'))
    · rcases mem_cons.mp hx with hx | hx
      · rw [hx]
        exact hd d' hd'
      · exact h2.unseen x hx d' (hsub d' hd')
  · rw [hpick]
    refine pairwise_append.mpr ⟨h3.distinct, ?_, fun a ha b hb => ?_⟩
    · exact pairwise_cons.mpr ⟨fun x hx => h2.unseen x hx d hin1, h2.distinct⟩
    · rcases mem_cons.mp hb with hb | hb
      · rw [hb]
        exact (h3.unseen a ha d (hlist2 d hin1)).symm
      · exact (h3.unseen a ha b (h2.listed b hb)).symm

end Fresh

/-- Every DLL was loaded and attached at most once, and no call was incoherent. -/
structure Once (w : World) (new : List Event) (w' : World) : Prop where
  list : ∀ d ∈ w.dllList, d ∈ w'.dllList
  attached : Fresh Event.attached? w new w'
  loaded : Fresh Event.loaded? w new w'
  coherent : ∀ e ∈ new, e.Coherent

theorem Once.trans {w w' w'' : World} {new new' : List Event} (h : Once w new w')
    (h' : Once w' new' w'') : Once w (new' ++ new) w'' where
  list d hd := h'.list d (h.list d hd)
  attached := h.attached.trans h'.attached h.list h'.list
  loaded := h.loaded.trans h'.loaded h.list h'.list
  coherent e he := by
    rcases mem_append.mp he with he | he
    · exact h'.coherent e he
    · exact h.coherent e he

theorem once_nil {w w' : World} (h : ∀ d ∈ w.dllList, d ∈ w'.dllList) : Once w [] w' :=
  ⟨h, Fresh.of_nil rfl, Fresh.of_nil rfl, by simp⟩

/-- The relation between two states of a regular run. -/
abbrev LoadsOnce (pre fin : World → Prop) : World → World → Prop :=
  Lib.Guarded World.history pre fin Event.Regular Once

theorem LoadsOnce.trans {pre mid fin : World → Prop} {w w' w'' : World}
    (h : LoadsOnce pre mid w w') (h' : LoadsOnce mid fin w' w'') : LoadsOnce pre fin w w'' :=
  Lib.Guarded.trans Once.trans h h'

theorem Unique.of_eq {w w' : World} (h : Unique w) (hlist : w'.dllList = w.dllList)
    (hstack : w'.loadingStack = w.loadingStack) : Unique w' := by
  refine ⟨?_, ?_, ?_⟩
  · rw [hlist]; exact h.distinct
  · rw [hlist, hstack]; exact h.pending
  · rw [hlist]; exact h.paths

theorem loadsOnce_of_eq {w w' : World} (hh : w'.history = w.history)
    (hlist : w'.dllList = w.dllList) (hstack : w'.loadingStack = w.loadingStack) :
    LoadsOnce Unique Unique w w' :=
  Lib.Guarded.of_log_eq hh fun hw =>
    ⟨hw.of_eq hlist hstack, once_nil (by rw [hlist]; exact fun _ h => h)⟩

def KeptOnce (w w' : World) : Prop := Kept 0 w w' ∧ LoadsOnce Unique Unique w w'

theorem tracking_keptOnce : Tracking 0 KeptOnce where
  quiet h := ⟨Kept.of_quiet h, loadsOnce_of_eq h.history h.dllList h.loadingStack⟩
  trans h h' := ⟨h.1.trans h'.1, h.2.trans h'.2⟩
  next h := h.1.next

/-! ## One load -/

def Spelt (name : Name) (dlls : List LoadedDll) : Prop :=
  ∀ d ∈ dlls, peNameEqualsIgnoreCase d.name name = true → d.name = name

section Load

variable {m : Machine} {name path : Name} {im : Image} {w w1 w2 w3 : World}

theorem free_of_starts (hw : Unique w) (hs : Starts name w) (hspelt : Spelt name w.dllList) :
    Free name w where
  toUnique := hw
  list d hd heq := by
    have hname := hspelt d hd (peNameEqualsIgnoreCase_iff.mpr heq)
    exact find?_eq_none.mp hs.unregistered d hd (beq_iff_eq.mpr hname)
  stack s hs' heq := by
    have hidle := hs.idle s hs'
    rw [peNameEqualsIgnoreCase_iff.mpr heq] at hidle
    cases hidle

theorem loadsOnce_enter (hk : Kept 0 (w.enter name) w1)
    (h : LoadsOnce Unique Unique (w.enter name) w1) :
    LoadsOnce (Free name) (Free name) w (w1.leave w.currentLoading) := by
  have hstack : w1.loadingStack = name :: w.loadingStack := hk.stack
  have htail : (w1.leave w.currentLoading).loadingStack = w.loadingStack := by
    rw [World.leave, hstack]
    rfl
  obtain ⟨new, hlog, h⟩ := h
  refine ⟨new, hlog, fun hw hok => ?_⟩
  have hstart : Unique (w.enter name) := by
    refine ⟨hw.distinct, fun d hd s hs => ?_, hw.paths⟩
    rcases mem_cons.mp hs with hs | hs
    · rw [hs]
      exact hw.list d hd
    · exact hw.pending d hd s hs
  obtain ⟨hu, honce⟩ := h hstart hok
  have hfree : Free name (w1.leave w.currentLoading) := by
    refine ⟨⟨hu.distinct, fun d hd s hs => ?_, hu.paths⟩, fun d hd => ?_, fun s hs => ?_⟩
    · rw [htail] at hs
      exact hu.pending d hd s (by rw [hstack]; exact mem_cons_of_mem name hs)
    · exact hu.pending d hd name (by rw [hstack]; exact mem_cons_self)
    · rw [htail] at hs
      exact hw.stack s hs
  exact ⟨hfree, honce.list, ⟨honce.attached.listed, honce.attached.unseen, honce.attached.distinct⟩,
    ⟨honce.loaded.listed, honce.loaded.unseen, honce.loaded.distinct⟩, honce.coherent⟩

theorem newDll_name {h : Nat} (hlen : name.length < 64) : (newDll name path h).name = name :=
  if_pos hlen

theorem unique_registerNew (hw : Free name w) (hlen : name.length < 64) (hp : IsDllPath name path) :
    Unique (w.registerNew m name path im) := by
  have hname : (newDll name path w.next).name = name := newDll_name hlen
  have hpath : HasOwnPath (newDll name path w.next) := by
    have htake : name.take 127 = name := take_of_length_le (by omega)
    unfold IsDllPath at hp
    rw [htake] at hp
    unfold HasOwnPath
    rw [hname]
    exact hp
  refine ⟨pairwise_cons.mpr ⟨fun d hd => ?_, hw.distinct⟩, fun d hd s hs => ?_, fun d hd => ?_⟩
  · unfold Apart
    rw [hname]
    exact (hw.list d hd).symm
  · rcases mem_cons.mp hd with hd | hd
    · rw [hd, hname]
      exact (hw.stack s hs).symm
    · exact hw.pending d hd s hs
  · rcases mem_cons.mp hd with hd | hd
    · rw [hd]
      exact hpath
    · exact hw.paths d hd

theorem apart_newDll (hw : Free name w) (hlen : name.length < 64) :
    ∀ d ∈ w.dllList, Apart d (newDll name path w.next) := by
  intro d hd
  unfold Apart
  rw [newDll_name hlen]
  exact hw.list d hd

theorem loadsOnce_attached (hp : IsDllPath name path)
    (h2 : KeptOnce (w.registerNew m name path im) w2)
    (h3 : KeptOnce (w2.log (.attached (newDll name path w.next))) w3) :
    LoadsOnce (Free name) Unique w (w3.log (.loaded (newDll name path w.next))) := by
  obtain ⟨new2, hlog2, h2⟩ := h2.2
  obtain ⟨new3, hlog3, h3⟩ := h3.2
  generalize hd : newDll name path w.next = d at *
  refine ⟨.loaded d :: (new3 ++ .attached d :: (new2 ++ [.registered name d])), ?_, fun hw hok => ?_⟩
  · rw [World.log, hlog3, World.log, hlog2, ← hd]
    simp [World.registerNew, World.register, World.kmalloc, World.addImage]
  · have hlen : name.length < 64 := hok (.registered name d) (by simp)
    have hapart : ∀ d' ∈ w.dllList, Apart d' d := hd ▸ apart_newDll hw hlen
    have hcons : (w.registerNew m name path im).dllList = d :: w.dllList := hd ▸ rfl
    obtain ⟨hu2, honce2⟩ := h2 (unique_registerNew hw hlen hp) fun e he => hok e (by simp [he])
    obtain ⟨hu3, honce3⟩ := h3 (hu2.of_eq rfl rfl) fun e he => hok e (by simp [he])
    have hattached : Fresh Event.attached? w2 new3 w3 :=
      ⟨honce3.attached.listed, honce3.attached.unseen, honce3.attached.distinct⟩
    have hloaded : Fresh Event.loaded? (w.registerNew m name path im) (new3 ++ [.attached d] ++ new2)
        w3 := by
      rw [append_assoc]
      have hskip : Fresh Event.loaded? w2 [.attached d] (w2.log (.attached d)) := Fresh.of_nil rfl
      have hmid := honce2.loaded.trans hskip honce2.list fun _ h => h
      exact hmid.trans honce3.loaded honce2.list honce3.list
    refine ⟨hu3.of_eq rfl rfl, ⟨fun x hx => ?_, ?_, ?_, fun e he => ?_⟩⟩
    · exact honce3.list x (honce2.list x (by rw [hcons]; exact mem_cons_of_mem d hx))
    · have hins := Fresh.insert (r := .registered name d) (e := .attached d) hcons hapart
        honce2.attached honce2.list hattached honce3.list rfl rfl
      have hskip : Fresh Event.attached? w3 [.loaded d] (w3.log (.loaded d)) := Fresh.of_nil rfl
      refine hins.trans hskip (fun x hx => ?_) fun _ h => h
      exact honce3.list x (honce2.list x (by rw [hcons]; exact mem_cons_of_mem d hx))
    · have hnone : Fresh Event.loaded? w3 [] (w3.log (.loaded d)) := Fresh.of_nil rfl
      have hins := Fresh.insert (r := .registered name d) (e := .loaded d) hcons hapart hloaded
        (fun x hx => honce3.list x (honce2.list x hx)) hnone (fun _ h => h) rfl rfl
      simpa using hins
    · simp only [mem_cons, mem_append, not_mem_nil, or_false] at he
      rcases he with he | he | he | he | he
      · rw [he]; trivial
      · exact honce3.coherent e he
      · rw [he]; trivial
      · exact honce2.coherent e he
      · rw [he]; trivial

theorem loadsOnce_done (hp : IsDllPath name path)
    (h2 : KeptOnce (w.registerNew m name path im) w2) :
    LoadsOnce (Free name) Unique w (w2.log (.loaded (newDll name path w.next))) := by
  obtain ⟨new2, hlog2, h2⟩ := h2.2
  generalize hd : newDll name path w.next = d at *
  refine ⟨.loaded d :: (new2 ++ [.registered name d]), ?_, fun hw hok => ?_⟩
  · rw [World.log, hlog2, ← hd]
    simp [World.registerNew, World.register, World.kmalloc, World.addImage]
  · have hlen : name.length < 64 := hok (.registered name d) (by simp)
    have hapart : ∀ d' ∈ w.dllList, Apart d' d := hd ▸ apart_newDll hw hlen
    have hcons : (w.registerNew m name path im).dllList = d :: w.dllList := hd ▸ rfl
    have hsub : ∀ x ∈ w.dllList, x ∈ (w.registerNew m name path im).dllList := by
      rw [hcons]
      exact fun x hx => mem_cons_of_mem d hx
    obtain ⟨hu2, honce2⟩ := h2 (unique_registerNew hw hlen hp) fun e he => hok e (by simp [he])
    refine ⟨hu2.of_eq rfl rfl, ⟨fun x hx => honce2.list x (hsub x hx), ?_, ?_, fun e he => ?_⟩⟩
    · have hreg : Fresh Event.attached? w [.registered name d] (w.registerNew m name path im) :=
        Fresh.of_nil rfl
      have hskip : Fresh Event.attached? w2 [.loaded d] (w2.log (.loaded d)) := Fresh.of_nil rfl
      have hmid := hreg.trans honce2.attached hsub honce2.list
      exact hmid.trans hskip (fun x hx => honce2.list x (hsub x hx)) fun _ h => h
    · have hnone : Fresh Event.loaded? w2 [] (w2.log (.loaded d)) := Fresh.of_nil rfl
      exact Fresh.insert (r := .registered name d) (e := .loaded d) hcons hapart honce2.loaded
        honce2.list hnone (fun _ h => h) rfl rfl
    · simp only [mem_cons, mem_append, not_mem_nil, or_false] at he
      rcases he with he | he | he
      · rw [he]; trivial
      · exact honce2.coherent e he
      · rw [he]; trivial

theorem filterMap_of_lost_nil {f : Event → Option LoadedDll} {w' : World} {new : List Event}
    {d : LoadedDll} {next : List LoadedDll} (hcons : w.dllList = d :: next) (h : Fresh f w new w')
    (hlost : w'.lost d next = []) : new.filterMap f = [] := by
  refine eq_nil_iff_forall_not_mem.mpr fun x hx => ?_
  have hin : x ∈ w.dllList := by
    rw [hcons]
    by_cases hne : x = d
    · rw [hne]
      exact mem_cons_self
    · exact mem_cons_of_mem d (mem_of_lost_nil hlost (h.listed x hx) hne)
  exact h.unseen x hx x hin rfl

theorem loadsOnce_rollback (hp : IsDllPath name path)
    (h2 : KeptOnce (w.registerNew m name path im) w2) :
    LoadsOnce (Free name) Unique w (w2.rollback (newDll name path w.next) w.dllList) := by
  have hstack : w2.loadingStack = w.loadingStack := h2.1.stack
  obtain ⟨new2, hlog2, h2⟩ := h2.2
  generalize hd : newDll name path w.next = d at *
  refine ⟨.rolledBack d (w2.lost d w.dllList) :: (new2 ++ [.registered name d]), ?_,
    fun hw hok => ?_⟩
  · rw [World.rollback, hlog2, ← hd]
    simp [World.registerNew, World.register, World.kmalloc, World.addImage]
  · have hlen : name.length < 64 := hok (.registered name d) (by simp)
    have hlost : w2.lost d w.dllList = [] := hok _ mem_cons_self
    have hcons : (w.registerNew m name path im).dllList = d :: w.dllList := hd ▸ rfl
    obtain ⟨-, honce2⟩ := h2 (unique_registerNew hw hlen hp) fun e he => hok e (by simp [he])
    refine ⟨hw.toUnique.of_eq rfl hstack, ⟨fun x hx => hx, ?_, ?_, fun e he => ?_⟩⟩
    · refine Fresh.of_nil ?_
      rw [filterMap_cons_none rfl, filterMap_append,
        filterMap_of_lost_nil hcons honce2.attached hlost]
      rfl
    · refine Fresh.of_nil ?_
      rw [filterMap_cons_none rfl, filterMap_append,
        filterMap_of_lost_nil hcons honce2.loaded hlost]
      rfl
    · simp only [mem_cons, mem_append, not_mem_nil, or_false] at he
      rcases he with he | he | he
      · rw [he]; trivial
      · exact honce2.coherent e he
      · rw [he]; trivial

theorem LoadCase.loadsOnce {r : Option Nat × World} (h : LoadCase KeptOnce m name w r) :
    (∃ d, w.dllList.find? (fun d => d.name == name) = some d ∧ r = (some d.image, w)) ∨
    (w.dllList.find? (fun d => d.name == name) = none ∧ r = (none, w)) ∨
    (Starts name w ∧ LoadsOnce (Free name) Unique w r.2) := by
  cases h with
  | found hd => exact Or.inl ⟨_, hd, rfl⟩
  | refused hd => exact Or.inr (Or.inl ⟨hd, rfl⟩)
  | noImage hs h1 =>
    refine Or.inr (Or.inr ⟨hs, (loadsOnce_enter h1.1 h1.2).trans ?_⟩)
    exact Lib.Guarded.of_log_eq rfl fun hw => ⟨hw.toUnique, once_nil fun _ h => h⟩
  | noRecord hs h1 =>
    refine Or.inr (Or.inr ⟨hs, (loadsOnce_enter h1.1 h1.2).trans ?_⟩)
    exact Lib.Guarded.of_log_eq rfl fun hw => ⟨hw.toUnique.of_eq rfl rfl, once_nil fun _ h => h⟩
  | failed hs hp h1 h2 =>
    exact Or.inr (Or.inr ⟨hs, (loadsOnce_enter h1.1 h1.2).trans (loadsOnce_rollback hp h2)⟩)
  | done hs hp h1 h2 =>
    exact Or.inr (Or.inr ⟨hs, (loadsOnce_enter h1.1 h1.2).trans (loadsOnce_done hp h2)⟩)
  | attached hs hp h1 h2 h3 =>
    exact Or.inr (Or.inr ⟨hs, (loadsOnce_enter h1.1 h1.2).trans (loadsOnce_attached hp h2 h3)⟩)

theorem find_coherent {d : LoadedDll} (hw : Unique w) (hspelt : Spelt name w.dllList)
    (hd : w.dllList.find? (fun d => d.name == name) = some d) (h : Nat)
    (hh : peGetLoadedModuleHandle w.dllList name = some h) : some d.image = some h := by
  unfold peGetLoadedModuleHandle at hh
  split at hh
  · cases hh
  · obtain ⟨d', hd', himage⟩ := Option.map_eq_some_iff.mp hh
    have hbeq := find?_some hd
    have hname : d.name = name := by simpa using hbeq
    have hequal := find?_some hd'
    have hname' : d'.name = name := hspelt d' (mem_of_find?_eq_some hd') hequal
    have hsame : d = d' := by
      by_contra hne
      refine hw.distinct.forall (mem_of_find?_eq_some hd) (mem_of_find?_eq_some hd') hne ?_
      rw [hname, hname']
    rw [hsame, himage]

theorem handle_none_of_unregistered (hspelt : Spelt name w.dllList)
    (hd : w.dllList.find? (fun d => d.name == name) = none) :
    peGetLoadedModuleHandle w.dllList name = none := by
  unfold peGetLoadedModuleHandle
  split
  · rfl
  · refine Option.map_eq_none_iff.mpr (find?_eq_none.mpr fun d hd' heq => ?_)
    exact find?_eq_none.mp hd d hd' (beq_iff_eq.mpr (hspelt d hd' heq))

theorem Once.finish {new : List Event} {result : Option Nat} {nested : List LoadedDll}
    (h : Once w new w1) (hu : w.dllList.Pairwise Apart) (hu1 : w1.dllList.Pairwise Apart)
    (hresult : ∀ h, peGetLoadedModuleHandle w.dllList name = some h → result = some h) :
    Once w (.returned name w.registry w1.registry result nested :: new)
      (w1.finish w name result) := by
  refine ⟨h.list, ⟨?_, ?_, ?_⟩, ⟨?_, ?_, ?_⟩, fun e he => ?_⟩
  · exact h.attached.listed
  · exact h.attached.unseen
  · exact h.attached.distinct
  · exact h.loaded.listed
  · exact h.loaded.unseen
  · exact h.loaded.distinct
  · rcases mem_cons.mp he with he | he
    · rw [he]
      exact ⟨hresult, hu, hu1⟩
    · exact h.coherent e he

theorem LoadCase.finish {r : Option Nat × World} (h : LoadCase KeptOnce m name w r) :
    LoadsOnce Unique Unique w (r.2.finish w name r.1) := by
  have hfinish : ∀ {new : List Event}, r.2.history = new ++ w.history →
      (r.2.finish w name r.1).history = .returned name w.registry r.2.registry r.1
        (new.filterMap Event.loaded?) :: new ++ w.history := by
    intro new hlog
    rw [World.finish, World.log, Lib.take_log hlog, hlog]
    rfl
  rcases h.loadsOnce with ⟨d, hd, hr⟩ | ⟨hd, hr⟩ | ⟨hs, new, hlog, honce⟩
  · have hlog : r.2.history = [] ++ w.history := by rw [hr]; rfl
    refine ⟨_, hfinish hlog, fun hw hok => ?_⟩
    have hspelt : Spelt name w.dllList := hok _ mem_cons_self
    rw [hr]
    exact ⟨hw.of_eq rfl rfl, (once_nil fun _ h => h).finish hw.distinct hw.distinct
      (find_coherent hw hspelt hd)⟩
  · have hlog : r.2.history = [] ++ w.history := by rw [hr]; rfl
    refine ⟨_, hfinish hlog, fun hw hok => ?_⟩
    have hspelt : Spelt name w.dllList := hok _ mem_cons_self
    rw [hr]
    refine ⟨hw.of_eq rfl rfl, (once_nil fun _ h => h).finish hw.distinct hw.distinct fun h hh => ?_⟩
    rw [handle_none_of_unregistered hspelt hd] at hh
    cases hh
  · refine ⟨_, hfinish hlog, fun hw hok => ?_⟩
    have hspelt : Spelt name w.dllList := hok _ mem_cons_self
    obtain ⟨hu, honce⟩ := honce (free_of_starts hw hs hspelt) fun e he =>
      hok e (mem_cons_of_mem _ he)
    refine ⟨hu.of_eq rfl rfl, honce.finish hw.distinct hu.distinct fun h hh => ?_⟩
    rw [handle_none_of_unregistered hspelt hs.unregistered] at hh
    cases hh

end Load

theorem peLoadDll_keptOnce (m : Machine) (n : Nat) : Tracks KeptOnce (peLoadDll m n) := by
  refine ⟨fun name w => ⟨(peLoadDll_tracks_kept m n 0).follows name w, ?_⟩,
    (peLoadDll_tracks_kept m n 0).current⟩
  induction n generalizing name w with
  | zero => exact loadsOnce_of_eq rfl rfl rfl
  | succ n ih =>
    have hl : Tracks KeptOnce (peLoadDll m n) :=
      ⟨fun name w => ⟨(peLoadDll_tracks_kept m n 0).follows name w, ih name w⟩,
        (peLoadDll_tracks_kept m n 0).current⟩
    exact (loadDllBody_case (m := m) tracking_keptOnce hl n name (Nat.zero_le w.next)).finish

/-! ## Runs -/

theorem loadsOnce_initProgram (m : Machine) (n steps : Nat) (im : Image) (w : World) :
    LoadsOnce Unique Unique w (initProgram m (peLoadDll m n) steps im w) := by
  have hadd : LoadsOnce Unique Unique w (w.addImage im) := loadsOnce_of_eq rfl rfl rfl
  have h := hadd.trans (peResolveImports_tracks (m := m) tracking_keptOnce
    (peLoadDll_keptOnce m n) steps (Nat.zero_le w.next) (w.addImage im)).2
  unfold initProgram
  dsimp only
  generalize peResolveImports m (peLoadDll m n) steps w.next (w.addImage im) = r at h ⊢
  have hquiet := quiet_relocate (w := r.world) (Nat.zero_le w.next)
  split
  · exact h.trans (loadsOnce_of_eq hquiet.history hquiet.dllList hquiet.loadingStack)
  · exact h.trans (loadsOnce_of_eq rfl rfl rfl)

theorem loadsOnce_startProgram (m : Machine) (n steps : Nat) (file : File) (driver : Bool)
    (w : World) : LoadsOnce Unique Unique w (startProgram m (peLoadDll m n) steps file driver w) := by
  have hdriver : LoadsOnce Unique Unique w { w with loadingDriver := driver } :=
    loadsOnce_of_eq rfl rfl rfl
  have hload := (peLoadImage_follows (loaderEnv_follows (m := m) tracking_keptOnce
    (peLoadDll_keptOnce m n)) m.arch file { w with loadingDriver := driver }).2
  have hstart : LoadsOnce Unique Unique w { (peLoadImage m.arch (loaderEnv m (peLoadDll m n)) file
      { w with loadingDriver := driver }).world with loadingDriver := false } :=
    hdriver.trans (hload.trans (loadsOnce_of_eq rfl rfl rfl))
  unfold startProgram
  dsimp only
  split
  · exact hstart
  · exact hstart.trans (loadsOnce_initProgram m n steps _ _)

theorem loadsOnce_step (m : Machine) (n : Nat) (w : World) (op : Op) :
    LoadsOnce Unique Unique w (step m n w op) := by
  cases op with
  | request r => exact (serve_tracks tracking_keptOnce (peLoadDll_keptOnce m n) r w).2
  | startProgram file driver => exact loadsOnce_startProgram m n n file driver w
  | exitProgram h =>
    unfold step
    dsimp only
    split
    · exact loadsOnce_of_eq rfl rfl rfl
    · exact loadsOnce_of_eq rfl rfl rfl

theorem loadsOnce_steps (m : Machine) (n : Nat) :
    ∀ (ops : List Op) (w : World), LoadsOnce Unique Unique w (ops.foldl (step m n) w)
  | [], _ => loadsOnce_of_eq rfl rfl rfl
  | op :: ops, w => (loadsOnce_step m n w op).trans (loadsOnce_steps m n ops _)

theorem path_ne_of_apart {a b : LoadedDll} (ha : HasOwnPath a) (hb : HasOwnPath b)
    (h : Apart a b) : a.path ≠ b.path := by
  have hdir : ∀ x y : Name, systemDir ++ x ≠ appsDir ++ y := by
    intro x y heq
    have hnth := congrArg (·[9]?) heq
    have hs : (systemDir ++ x)[9]? = some 0x53 := by
      rw [getElem?_append_left (by decide)]
      decide
    have happs : (appsDir ++ y)[9]? = some 0x41 := by
      rw [getElem?_append_left (by decide)]
      decide
    rw [hs, happs] at hnth
    exact absurd hnth (by decide)
  intro heq
  rcases ha with ha | ha <;> rcases hb with hb | hb <;> rw [ha, hb] at heq
  · exact h (append_cancel_left heq)
  · exact hdir _ _ heq
  · exact hdir _ _ heq.symm
  · exact h (append_cancel_left heq)

/-- In `w` every DLL is loaded at most once: no two entries have the same name ignoring case, no file
was loaded twice, none had its `DllMain` run twice, and every `PeLoadDll` agreed with
`PeGetLoadedModuleHandle`. -/
structure LoadedOnce (w : World) : Prop where
  entries : w.dllList.Pairwise fun a b => peNameEqualsIgnoreCase a.name b.name = false
  loaded : (w.history.filterMap Event.loaded?).Pairwise fun a b => a.path ≠ b.path
  attached : (w.history.filterMap Event.attached?).Pairwise fun a b => a.path ≠ b.path
  coherent : ∀ e ∈ w.history, e.Coherent

theorem Fresh.paths {f : Event → Option LoadedDll} {w w' : World} {new : List Event}
    (h : Fresh f w new w') (hw : Unique w') :
    (new.filterMap f).Pairwise fun a b => a.path ≠ b.path := by
  refine h.distinct.imp_of_mem fun ha hb hab => ?_
  exact path_ne_of_apart (hw.paths _ (h.listed _ ha)) (hw.paths _ (h.listed _ hb)) hab

/-- **Every DLL is loaded at most once**, for every volume, every behaviour of the DLLs and every
regular run. -/
theorem dlls_are_loaded_once {m : Machine} {n : Nat} {ops : List Op}
    (hregular : ∀ e ∈ (run m n ops).history, e.Regular) : LoadedOnce (run m n ops) := by
  obtain ⟨new, hlog, h⟩ := loadsOnce_steps m n ops {}
  have hnew : (run m n ops).history = new := hlog.trans (append_nil new)
  rw [hnew] at hregular
  obtain ⟨hu, honce⟩ := h ⟨List.Pairwise.nil, by simp, by simp⟩ hregular
  refine ⟨?_, ?_, ?_, ?_⟩
  · refine hu.distinct.imp fun {a b} hab => ?_
    rw [Bool.eq_false_iff, ne_eq, peNameEqualsIgnoreCase_iff]
    exact hab
  · rw [hnew]
    exact honce.loaded.paths hu
  · rw [hnew]
    exact honce.attached.paths hu
  · rw [hnew]
    exact honce.coherent

theorem dlls_are_loaded_once_b :
    (run sampleVolume 5 [.request (.peLoadDll (ascii "B.DLL")), .request (.loadLibraryA (ascii "b")),
      .request (.peLoadDll (ascii "B.DLL"))]).dllList.map (·.name) = [ascii "B.DLL"] ∧
    LoadedOnce (run sampleVolume 5 [.request (.peLoadDll (ascii "B.DLL")),
      .request (.loadLibraryA (ascii "b")), .request (.peLoadDll (ascii "B.DLL"))]) :=
  ⟨by decide +kernel, dlls_are_loaded_once (by decide +kernel)⟩

/-- Asked for in lower case, `B.DLL` is loaded a second time. -/
theorem peLoadDll_loads_twice :
    (run sampleVolume 5 [.request (.peLoadDll (ascii "B.DLL")),
      .request (.peLoadDll (ascii "b.dll"))]).hung = false ∧
    ¬ LoadedOnce (run sampleVolume 5 [.request (.peLoadDll (ascii "B.DLL")),
      .request (.peLoadDll (ascii "b.dll"))]) := by
  refine ⟨by decide +kernel, fun h => ?_⟩
  have htwice : ¬ ((run sampleVolume 5 [.request (.peLoadDll (ascii "B.DLL")),
      .request (.peLoadDll (ascii "b.dll"))]).history.filterMap Event.attached?).Pairwise
        fun a b => a.path ≠ b.path := by
    decide +kernel
  exact htwice h.attached

end DiscouNT.Loader
