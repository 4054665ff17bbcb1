import DiscouNT.Ke.SyncFrame
import DiscouNT.Ke.Threads

/-!
# Ke.ThreadRuns

The run queue over every run: which threads are linked, and that they are alive.

Nothing ever leaves the queue, and a thread is linked before its handle exists. `Fit` are the steps
that do not run into this: a thread is created only when everything it needs can be had, and the
last reference to a linked thread is not given back. `Sound` is the invariant of runs of such steps.
-/

namespace DiscouNT.Ke

open Lib List Option
open Ob

/-! ## The queue -/

section Appending

variable {s : Scheduler} {l : List Nat} {t p b fuel : Nat}

theorem setNext_next (s : Scheduler) (t v : Nat) :
    (s.setNext t v).next = Function.update s.next t v := by
  funext u
  by_cases hu : u = t
  · subst hu
    simp [Scheduler.next, Scheduler.setNext]
  · simp [Scheduler.next, Scheduler.setNext, hu]

theorem setNext_fields (s : Scheduler) (t v u : Nat) :
    (s.setNext t v).state u = s.state u ∧
    ((s.setNext t v).threads u).stack = (s.threads u).stack := by
  by_cases hu : u = t
  · subst hu
    simp [Scheduler.state, Scheduler.setNext]
  · simp [Scheduler.state, Scheduler.setNext, hu]

theorem queueTail_seg (hseg : Seg s.next p (l ++ [b]) 0) (hl : ∀ a ∈ l ++ [b], a ≠ 0)
    (hfuel : l.length < fuel) : queueTail s fuel p = some b := by
  induction l generalizing p fuel with
  | nil =>
    obtain ⟨fuel, rfl⟩ : ∃ f, fuel = f + 1 := ⟨fuel - 1, by omega⟩
    obtain ⟨rfl, hend⟩ := hseg
    have hend : s.next p = 0 := hend
    rw [queueTail, if_pos hend]
  | cons a l ih =>
    obtain ⟨fuel, rfl⟩ : ∃ f, fuel = f + 1 := ⟨fuel - 1, by omega⟩
    obtain ⟨rfl, hseg⟩ := hseg
    have hrest : ∀ a ∈ l ++ [b], a ≠ 0 := fun a ha => hl a (mem_cons_of_mem _ ha)
    have hne : s.next p ≠ 0 := by
      cases l with
      | nil =>
        rw [hseg.1]
        exact hrest b (by simp)
      | cons c l =>
        rw [hseg.1]
        exact hrest c (by simp)
    rw [queueTail, if_neg hne]
    simp only [length_cons] at hfuel
    exact ih hseg hrest (by omega)

variable {k : Nat}

theorem queueTail_mono (h : queueTail s fuel p = some b) :
    queueTail s (fuel + k) p = some b := by
  induction fuel generalizing p with
  | zero => cases h
  | succ fuel ih =>
    have hfuel : fuel + 1 + k = fuel + k + 1 := by omega
    rw [hfuel]
    unfold queueTail at h ⊢
    split
    · rename_i hend
      rw [if_pos hend] at h
      exact h
    · rename_i hend
      rw [if_neg hend] at h
      exact ih h

theorem selectScan_mono (h : selectScan s fuel p = some b) :
    selectScan s (fuel + k) p = some b := by
  induction fuel generalizing p with
  | zero => cases h
  | succ fuel ih =>
    have hfuel : fuel + 1 + k = fuel + k + 1 := by omega
    rw [hfuel]
    unfold selectScan at h ⊢
    split
    · rename_i h0
      rw [if_pos h0] at h
      exact h
    · rename_i h0
      rw [if_neg h0] at h
      split
      · rename_i hready
        rw [if_pos hready] at h
        exact h
      · rename_i hready
        rw [if_neg hready] at h
        dsimp only at h ⊢
        split
        · rename_i hback
          rw [if_pos hback] at h
          exact h
        · rename_i hback
          rw [if_neg hback] at h
          exact ih h

structure Appended (s s' : Scheduler) : Prop where
  current : s'.currentThread = s.currentThread
  state : s'.state = s.state
  stack : ∀ u, (s'.threads u).stack = (s.threads u).stack

theorem keAppendReadyThread_spec (hq : Queue s l) (ht : t ≠ 0) (hnew : t ∉ l)
    (hfuel : l.length < fuel) :
    ∃ s', keAppendReadyThread fuel t s = some s' ∧ Queue s' (l ++ [t]) ∧ Appended s s' := by
  have hfields := setNext_fields s t 0
  unfold keAppendReadyThread
  rw [if_neg ht]
  dsimp only
  rcases eq_nil_or_concat l with rfl | ⟨l, b, rfl⟩
  · have hempty : s.readyQueue = 0 := hq.1
    have hempty' : (s.setNext t 0).readyQueue = 0 := hempty
    rw [if_pos hempty']
    refine ⟨_, rfl, ⟨⟨rfl, ?_⟩, ?_⟩, rfl, funext fun u => (hfields u).1, fun u => (hfields u).2⟩
    · change (s.setNext t 0).next t = 0
      rw [setNext_next, Function.update_self]
    · intro a ha
      rw [nil_append, mem_singleton] at ha
      rw [ha]
      exact ht
  · rw [concat_eq_append] at hq hnew hfuel ⊢
    have hhead : (s.setNext t 0).readyQueue ≠ 0 := by
      change s.readyQueue ≠ 0
      cases l with
      | nil =>
        rw [hq.1.1]
        exact hq.2 b (by simp)
      | cons a l =>
        rw [hq.1.1]
        exact hq.2 a (by simp)
    have hseg : Seg (s.setNext t 0).next s.readyQueue (l ++ [b]) 0 := by
      refine hq.1.congr fun a ha => ?_
      rw [setNext_next, Function.update_of_ne]
      exact fun he => hnew (he ▸ ha)
    have htail : queueTail (s.setNext t 0) fuel (s.setNext t 0).readyQueue = some b := by
      refine queueTail_seg hseg hq.2 ?_
      simp only [length_append, length_singleton] at hfuel
      omega
    rw [if_neg hhead, htail]
    refine ⟨_, rfl, ?_, rfl, ?_, fun u => ?_⟩
    · unfold Queue
      rw [setNext_next, setNext_next]
      exact Chain.append hq ht hnew
    · funext u
      rw [(setNext_fields _ b t u).1, (hfields u).1]
    · rw [(setNext_fields _ b t u).2, (hfields u).2]

theorem keAppendReadyThread_mono {s' : Scheduler}
    (h : keAppendReadyThread fuel t s = some s') : keAppendReadyThread (fuel + k) t s = some s' := by
  unfold keAppendReadyThread at h ⊢
  split
  · rename_i h0
    rw [if_pos h0] at h
    exact h
  · rename_i h0
    rw [if_neg h0] at h
    dsimp only at h ⊢
    split
    · rename_i hempty
      rw [if_pos hempty] at h
      exact h
    · rename_i hempty
      rw [if_neg hempty] at h
      cases htail : queueTail (s.setNext t 0) fuel (s.setNext t 0).readyQueue with
      | none =>
        rw [htail] at h
        cases h
      | some b =>
        rw [htail] at h
        rw [queueTail_mono htail]
        exact h

theorem keSelectNextThread_mono {r : Nat × Scheduler}
    (h : keSelectNextThread fuel s = some r) : keSelectNextThread (fuel + k) s = some r := by
  unfold keSelectNextThread at h ⊢
  split
  · rename_i h0
    rw [if_pos h0] at h
    exact h
  · rename_i h0
    rw [if_neg h0] at h
    dsimp only at h ⊢
    cases hscan : selectScan s fuel (if s.next s.currentThread ≠ 0 then s.next s.currentThread
        else s.readyQueue) with
    | none =>
      rw [hscan] at h
      cases h
    | some b =>
      rw [hscan] at h
      rw [selectScan_mono hscan]
      exact h

theorem setState_stack (s : Scheduler) (t u : Nat) (v : ThreadState) :
    ((s.setState t v).threads u).stack = (s.threads u).stack := by
  by_cases hu : u = t
  · subst hu
    simp [Scheduler.setState]
  · simp [Scheduler.setState, hu]

theorem switchTo_stack (s : Scheduler) (p u : Nat) :
    ((switchTo p s).threads u).stack = (s.threads u).stack := by
  have hset : ((switchTo p s).threads u).stack =
      ((Scheduler.setState { (if s.state s.currentThread = .running
        then s.setState s.currentThread .ready else s) with currentThread := p } p
          .running).threads u).stack := rfl
  rw [hset, setState_stack]
  by_cases hrun : s.state s.currentThread = .running
  · rw [if_pos hrun]
    exact setState_stack s s.currentThread u .ready
  · rw [if_neg hrun]

end Appending

namespace Kernel

/-! ## Objects and blocks -/

section Objects

variable {x : Kernel} {alloc : AllocOracle} {size h : Nat} {o : Object}

def IsThread (x : Kernel) (o : Object) : Prop := o.type = x.threadObjectType

theorem kmalloc_cases (alloc : AllocOracle) (size : Nat) (x : Kernel) :
    (granted alloc size x = false ∧ x.kmalloc alloc size = (0, { x with ticks := x.ticks + 1 })) ∨
    ∃ a, granted alloc size x = true ∧ a ≠ 0 ∧ a ∉ x.blocks ∧
      x.kmalloc alloc size = (a, { x with blocks := a :: x.blocks, ticks := x.ticks + 1 }) := by
  unfold kmalloc
  cases hg : granted alloc size x with
  | false => exact .inl ⟨rfl, if_neg (by simp)⟩
  | true =>
    have hboth := hg
    simp only [granted, Bool.and_eq_true, decide_eq_true_eq] at hboth
    exact .inr ⟨_, rfl, hboth.1, hboth.2, if_pos rfl⟩

theorem reference_none (hl : x.ob.lookup h = none) : x.reference h = (0, x) := by
  unfold reference obReferenceObject
  rw [hl]

theorem reference_some (hl : x.ob.lookup h = some o) :
    x.reference h = (o.body, { x with ob := x.ob.put h o.take }) := by
  unfold reference obReferenceObject
  rw [hl]

theorem dereference_none (hl : x.ob.lookup h = none) : dereference h x = x := by
  unfold dereference obDereferenceObject
  have hhost : (host.ob x).lookup h = none := hl
  rw [hhost]

theorem dereference_more (hl : x.ob.lookup h = some o) (hmore : o.release.refCount ≠ 0) :
    dereference h x = { x with ob := x.ob.put h o.release } := by
  unfold dereference obDereferenceObject
  have hhost : (host.ob x).lookup h = some o := hl
  rw [hhost]
  dsimp only
  rw [if_pos hmore]
  rfl

def Holds (x : Kernel) (h a : Nat) : Prop :=
  a ≠ 0 ∧ ∃ o, x.ob.lookup h = some o ∧ (a = o.body ∨ IsThread x o ∧ a = (x.thread o.body).stack)

structure Deleted (h : Nat) (o : Object) (x x' : Kernel) : Prop where
  lookup : ∀ k, x'.ob.lookup k = if k = h then none else x.ob.lookup k
  registry : x'.ob.objectTypes = x.ob.objectTypes
  next : x'.sched.next = x.sched.next
  readyQueue : x'.sched.readyQueue = x.sched.readyQueue
  current : x'.sched.currentThread = x.sched.currentThread
  state : x'.sched.state = x.sched.state
  stack : ∀ b, b ≠ o.body → (x'.thread b).stack = (x.thread b).stack
  blocks : ∀ a ∈ x.blocks, ¬ Holds x h a → a ∈ x'.blocks
  nodup : x.blocks.Nodup → x'.blocks.Nodup
  threadType : x'.threadObjectType = x.threadObjectType
  bootThread : x'.bootThread = x.bootThread

def Registered (x : Kernel) : Prop :=
  x.ob.objectTypes = boot.ob.objectTypes ∧ x.threadObjectType = boot.threadObjectType

theorem Registered.deleteProc (hr : Registered x) {type : Nat}
    (hd : deleteProcOf x.ob type = some .keDeleteThreadObject) : type = x.threadObjectType := by
  have hboot : boot.threadObjectType = 4 := by decide +kernel
  have hlen : boot.ob.objectTypes.length = 7 := by decide +kernel
  rw [hr.2, hboot]
  have hproc : deleteProcOf boot.ob type = some .keDeleteThreadObject := by
    unfold deleteProcOf obGetObjectType at hd ⊢
    rw [← hr.1]
    exact hd
  by_cases hlt : type < 7
  · have hall : ∀ t < 7, deleteProcOf boot.ob t = some .keDeleteThreadObject → t = 4 := by
      decide +kernel
    exact hall type hlt hproc
  · unfold deleteProcOf obGetObjectType at hproc
    rw [if_neg (by omega), getElem?_eq_none (by omega)] at hproc
    cases hproc

theorem Registered.type_ne_none (hr : Registered x) :
    obGetObjectType x.ob x.threadObjectType ≠ none := by
  have hboot : obGetObjectType boot.ob boot.threadObjectType ≠ none := by decide +kernel
  unfold obGetObjectType at hboot ⊢
  rw [hr.1, hr.2]
  exact hboot

theorem kfree_blocks (a : Nat) (x : Kernel) :
    (∀ b ∈ x.blocks, b ≠ a → b ∈ (x.kfree a).blocks) ∧
    (x.blocks.Nodup → (x.kfree a).blocks.Nodup) := by
  unfold kfree
  split
  · exact ⟨fun b hb _ => hb, id⟩
  · exact ⟨fun b hb hne => (mem_erase_of_ne hne).mpr hb, fun hnd => hnd.erase a⟩

theorem kfree_sched (a : Nat) (x : Kernel) :
    (x.kfree a).sched = x.sched ∧ (x.kfree a).ob = x.ob ∧
    (x.kfree a).threadObjectType = x.threadObjectType ∧
    (x.kfree a).bootThread = x.bootThread := by
  unfold kfree
  split
  · exact ⟨rfl, rfl, rfl, rfl⟩
  · exact ⟨rfl, rfl, rfl, rfl⟩

theorem setStack_fields (b v u : Nat) (x : Kernel) :
    (x.setThread b { x.thread b with stack := v }).sched.next u = x.sched.next u ∧
    (x.setThread b { x.thread b with stack := v }).sched.state u = x.sched.state u ∧
    (u ≠ b → (x.setThread b { x.thread b with stack := v }).thread u = x.thread u) := by
  by_cases hu : u = b
  · subst hu
    simp [setThread, Scheduler.next, Scheduler.state, thread]
  · simp [setThread, Scheduler.next, Scheduler.state, thread, hu]

theorem keDeleteThreadObject_spec (b : Nat) (x : Kernel) :
    (keDeleteThreadObject b x).ob = x.ob ∧
    (keDeleteThreadObject b x).sched.next = x.sched.next ∧
    (keDeleteThreadObject b x).sched.readyQueue = x.sched.readyQueue ∧
    (keDeleteThreadObject b x).sched.currentThread = x.sched.currentThread ∧
    (keDeleteThreadObject b x).sched.state = x.sched.state ∧
    (∀ u, u ≠ b → ((keDeleteThreadObject b x).thread u).stack = (x.thread u).stack) ∧
    (∀ a ∈ x.blocks, ¬ (a ≠ 0 ∧ a = (x.thread b).stack) → a ∈ (keDeleteThreadObject b x).blocks) ∧
    (x.blocks.Nodup → (keDeleteThreadObject b x).blocks.Nodup) ∧
    (keDeleteThreadObject b x).threadObjectType = x.threadObjectType ∧
    (keDeleteThreadObject b x).bootThread = x.bootThread := by
  unfold keDeleteThreadObject
  split
  · exact ⟨rfl, rfl, rfl, rfl, rfl, fun _ _ => rfl, fun a ha _ => ha, id, rfl, rfl⟩
  · rename_i hstack
    obtain ⟨hsched, hob, htype, hboot⟩ := kfree_sched (x.thread b).stack x
    obtain ⟨hkept, hnodup⟩ := kfree_blocks (x.thread b).stack x
    have hthread : ∀ u, (x.kfree (x.thread b).stack).thread u = x.thread u := fun u =>
      congrArg (fun s : Scheduler => s.threads u) hsched
    have hready := congrArg Scheduler.readyQueue hsched
    have hcurrent := congrArg Scheduler.currentThread hsched
    have hset := fun u => setStack_fields b 0 u (x.kfree (x.thread b).stack)
    rw [hthread, hsched] at hset
    refine ⟨hob, funext fun u => (hset u).1, hready, hcurrent, funext fun u => (hset u).2.1,
      fun u hu => ?_, fun a ha hnot => hkept a ha fun he => hnot ⟨?_, he⟩, hnodup, htype, hboot⟩
    · rw [(hset u).2.2 hu, hthread]
    · rw [he]
      exact hstack

theorem Deleted.kfree {y : Kernel} (hb : Holds x h o.body)
    (hd : Deleted h o x { y with ob := y.ob.clear h }) :
    Deleted h o x { y.kfree o.body with ob := (y.kfree o.body).ob.clear h } := by
  obtain ⟨hsched, hob, htype, hboot⟩ := kfree_sched o.body y
  obtain ⟨hkept, hnodup⟩ := kfree_blocks o.body y
  have hstack : ∀ b, ((y.kfree o.body).thread b).stack = (y.thread b).stack := fun b =>
    congrArg (fun s : Scheduler => (s.threads b).stack) hsched
  refine ⟨fun k => ?_, ?_, ?_, ?_, ?_, ?_, fun b hne => (hstack b).trans (hd.stack b hne),
    fun a ha hnot => ?_, fun hnd => hnodup (hd.nodup hnd), htype.trans hd.threadType,
    hboot.trans hd.bootThread⟩
  · dsimp only
    rw [hob]
    exact hd.lookup k
  · dsimp only
    rw [hob]
    exact hd.registry
  · exact (congrArg Scheduler.next hsched).trans hd.next
  · exact (congrArg Scheduler.readyQueue hsched).trans hd.readyQueue
  · exact (congrArg Scheduler.currentThread hsched).trans hd.current
  · exact (congrArg Scheduler.state hsched).trans hd.state
  · refine hkept a (hd.blocks a ha hnot) fun he => hnot ?_
    rw [he]
    exact hb

theorem dereference_last (hr : Registered x) (hl : x.ob.lookup h = some o)
    (hlast : o.release.refCount = 0) : Deleted h o x (dereference h x) := by
  have hlt := ObState.lt_of_lookup hl
  have hlook : ∀ k, ((x.ob.put h o.release).clear h).lookup k =
      if k = h then none else x.ob.lookup k := by
    intro k
    rw [ObState.lookup_clear]
    split
    · rfl
    · rename_i hk
      rw [ObState.lookup_put hlt, if_neg hk]
  have hbody : o.body ≠ 0 → Holds x h o.body := fun h0 => ⟨h0, o, hl, .inl rfl⟩
  have hhost : (host.ob x).lookup h = some o := hl
  unfold dereference obDereferenceObject
  rw [hhost]
  dsimp only
  rw [if_neg (by simp [hlast])]
  unfold deleteBody
  rw [Object.release_body, Object.release_type, Object.release_serial]
  split
  · exact ⟨hlook, rfl, rfl, rfl, rfl, rfl, fun _ _ => rfl, fun a ha _ => ha, id, rfl, rfl⟩
  · rename_i h0
    cases hproc : deleteProcOf (host.ob (host.setOb ((host.ob x).put h o.release) x)) o.type with
    | none =>
      refine Deleted.kfree (hbody h0) ?_
      exact ⟨hlook, rfl, rfl, rfl, rfl, rfl, fun _ _ => rfl, fun a ha _ => ha, id, rfl, rfl⟩
    | some proc =>
      cases proc with
      | other n =>
        refine Deleted.kfree (hbody h0) ?_
        exact ⟨hlook, rfl, rfl, rfl, rfl, rfl, fun _ _ => rfl, fun a ha _ => ha, id, rfl, rfl⟩
      | keDeleteThreadObject =>
        have hthread : IsThread x o := by
          refine hr.deleteProc ?_
          rw [← hproc]
          rfl
        refine Deleted.kfree (hbody h0) ?_
        obtain ⟨hob, hnext, hready, hcurrent, hstate, hstack, hblocks, hnodup, htype, hboot⟩ :=
          keDeleteThreadObject_spec o.body
            { x with ob := (x.ob.put h o.release).log (.deleted o.serial) }
        refine ⟨fun k => ?_, ?_, hnext, hready, hcurrent, hstate, hstack, fun a ha hnot => ?_,
          hnodup, htype, hboot⟩
        · change ((keDeleteThreadObject o.body
            { x with ob := (x.ob.put h o.release).log (.deleted o.serial) }).ob.clear h).lookup k = _
          rw [hob]
          exact hlook k
        · have htypes := congrArg ObState.objectTypes hob
          exact htypes
        · exact hblocks a ha fun ha' => hnot ⟨ha'.1, o, hl, .inr ⟨hthread, ha'.2⟩⟩

end Objects

/-! ## The queue and the table -/

def Live (x : Kernel) (t : Nat) : Prop :=
  t ∈ x.blocks ∧ ∃ h o, x.ob.lookup h = some o ∧ IsThread x o ∧ o.body = t

def HasStack (x : Kernel) (t : Nat) : Prop :=
  (x.thread t).stack ≠ 0 ∧ (x.thread t).stack ∈ x.blocks

/-- Every linked thread is alive and has a stack, the boot thread apart, and every thread in the
table that has not terminated is linked once. -/
def Intact (x : Kernel) : Prop :=
  ∃ l, Queue x.sched l ∧ (∀ t ∈ l, Live x t ∧ (t = x.bootThread ∨ HasStack x t)) ∧
    ∀ h o, x.ob.lookup h = some o → IsThread x o → (x.thread o.body).state ≠ .terminated →
      l.count o.body = 1

def HasRoom (alloc : AllocOracle) (x : Kernel) : Prop :=
  freeSlot x.ob ≠ none ∧ granted alloc sizeofObject x = true

/-- The steps that leave the queue intact:
* `KeAttachCurrentThread` gets its handle, and no thread that still runs was made before it;
* `KeCreateThread` fails at its first `kmalloc`, or gets the stack and the handle too;
* the last reference to a linked thread is not given back. -/
def Fit (arch : Arch) (alloc : AllocOracle) (a : Act) (x : Kernel) : Prop :=
  match a with
  | .keAttachCurrentThread _ =>
    x.sched.currentThread = 0 → granted alloc (sizeofThread arch) x = true →
      HasRoom alloc (x.kmalloc alloc (sizeofThread arch)).2 ∧
      ∀ h o, x.ob.lookup h = some o → IsThread x o → (x.thread o.body).state = .terminated
  | .keCreateThread stackSize =>
    granted alloc (sizeofThread arch) x = true →
      let size := if stackSize = 0 then defaultStackSize else stackSize
      let y := (x.kmalloc alloc (sizeofThread arch)).2
      granted alloc size y = true ∧ HasRoom alloc (y.kmalloc alloc size).2
  | .keYield => True
  | .exitThread => True
  | .keTerminateThread _ => True
  | .csrssRetire h => ∀ o, x.ob.lookup h = some o → IsThread x o →
    (x.thread o.body).state = .terminated → o.refCount = 1 → ∀ l, Queue x.sched l → o.body ∉ l
  | .obCreateObject type _ _ => type ≠ x.threadObjectType
  | .obReferenceObject h => ∀ o, x.ob.lookup h = some o → IsThread x o → o.refCount + 1 < 2 ^ 32
  | .obDereferenceObject h => ∀ o, x.ob.lookup h = some o → IsThread x o →
    o.refCount = 1 → ∀ l, Queue x.sched l → o.body ∉ l

/-- The invariant, for the queue `l`: who is linked, and who has which block. -/
structure Sound (l : List Nat) (x : Kernel) : Prop where
  queue : Queue x.sched l
  linked : ∀ t ∈ l, ∃ h o, x.ob.lookup h = some o ∧ IsThread x o ∧ o.body = t
  withStack : ∀ t ∈ l, t = x.bootThread ∨ (x.thread t).stack ≠ 0
  members : ∀ h o, x.ob.lookup h = some o → IsThread x o →
    (x.thread o.body).state ≠ .terminated → o.body ∈ l
  threads : ∀ h o, x.ob.lookup h = some o → IsThread x o →
    o.body ≠ 0 ∧ o.refCount ≠ 0 ∧ o.refCount < 2 ^ 32
  owned : ∀ h a, Holds x h a → a ∈ x.blocks
  apart : ∀ h k a, Holds x h a → Holds x k a → h = k
  nodup : x.blocks.Nodup
  current : x.sched.currentThread = 0 ∨ x.sched.currentThread ∈ l
  registered : Registered x

section Soundness

variable {x x' : Kernel} {l l' : List Nat} {h t : Nat} {o : Object}

section

variable (hs : Sound l x)
include hs

theorem Sound.intact : Intact x := by
  refine ⟨l, hs.queue, fun t ht => ?_, fun h o hl hth hstate => ?_⟩
  · obtain ⟨h, o, hl, hth, rfl⟩ := hs.linked t ht
    have hbody := (hs.threads h o hl hth).1
    refine ⟨⟨hs.owned h _ ⟨hbody, o, hl, .inl rfl⟩, h, o, hl, hth, rfl⟩, ?_⟩
    rcases hs.withStack _ ht with hboot | hstack
    · exact .inl hboot
    · exact .inr ⟨hstack, hs.owned h _ ⟨hstack, o, hl, .inr ⟨hth, rfl⟩⟩⟩
  · exact count_eq_one_of_mem hs.queue.nodup (hs.members h o hl hth hstate)

theorem Sound.fresh {a k : Nat} (ha : a ∉ x.blocks) : ¬ Holds x k a :=
  fun hk => ha (hs.owned k a hk)

theorem Sound.fresh_not_mem {a : Nat} (ha : a ∉ x.blocks) : a ∉ l := by
  intro hmem
  obtain ⟨h, o, hl, hth, rfl⟩ := hs.linked a hmem
  exact hs.fresh ha ⟨(hs.threads h o hl hth).1, o, hl, .inl rfl⟩

theorem Sound.keep (hq : Queue x'.sched l)
    (htype : x'.threadObjectType = x.threadObjectType) (hboot : x'.bootThread = x.bootThread)
    (hreg : x'.ob.objectTypes = x.ob.objectTypes)
    (hold : ∀ k o', x'.ob.lookup k = some o' → ∃ o, x.ob.lookup k = some o ∧ o'.type = o.type ∧
      o'.body = o.body ∧ (IsThread x o → o'.refCount ≠ 0 ∧ o'.refCount < 2 ^ 32))
    (hkeep : ∀ k o, x.ob.lookup k = some o → IsThread x o → o.body ∈ l →
      ∃ o', x'.ob.lookup k = some o' ∧ o'.type = o.type ∧ o'.body = o.body)
    (hstack : ∀ k o', x'.ob.lookup k = some o' → IsThread x' o' →
      (x'.thread o'.body).stack = (x.thread o'.body).stack)
    (hstate : ∀ b, (x'.thread b).state ≠ .terminated → (x.thread b).state ≠ .terminated)
    (hblocks : ∀ k a, x'.ob.lookup k ≠ none → Holds x k a → a ∈ x'.blocks)
    (hnodup : x'.blocks.Nodup)
    (hcurrent : x'.sched.currentThread = 0 ∨ x'.sched.currentThread ∈ l) : Sound l x' := by
  have hholds : ∀ k a, Holds x' k a → Holds x k a := by
    rintro k a ⟨h0, o', hl', hor⟩
    obtain ⟨o, hl, hty, hbody, _⟩ := hold k o' hl'
    refine ⟨h0, o, hl, ?_⟩
    rcases hor with rfl | ⟨hth, rfl⟩
    · exact .inl hbody
    · refine .inr ⟨?_, ?_⟩
      · exact (hty.symm.trans hth).trans htype
      · rw [hstack k o' hl' hth, hbody]
  refine ⟨hq, fun t ht => ?_, fun t ht => ?_, fun k o' hl' hth hst => ?_, fun k o' hl' hth => ?_,
    fun k a hk => ?_,
    fun h k a hh hk => hs.apart h k a (hholds h a hh) (hholds k a hk), hnodup, hcurrent,
    hreg.trans hs.registered.1, htype.trans hs.registered.2⟩
  · obtain ⟨k, o, hl, hth, rfl⟩ := hs.linked t ht
    obtain ⟨o', hl', hty, hbody⟩ := hkeep k o hl hth ht
    exact ⟨k, o', hl', (hty.trans hth).trans htype.symm, hbody⟩
  · obtain ⟨k, o, hl, hth, rfl⟩ := hs.linked t ht
    obtain ⟨o', hl', hty, hbody⟩ := hkeep k o hl hth ht
    have hst := hstack k o' hl' ((hty.trans hth).trans htype.symm)
    rw [hbody] at hst
    rw [hboot, hst]
    exact hs.withStack _ ht
  · obtain ⟨o, hl, hty, hbody, _⟩ := hold k o' hl'
    rw [hbody] at hst ⊢
    exact hs.members k o hl ((hty.symm.trans hth).trans htype) (hstate _ hst)
  · obtain ⟨o, hl, hty, hbody, hrefs⟩ := hold k o' hl'
    have hth : IsThread x o := (hty.symm.trans hth).trans htype
    exact ⟨hbody ▸ (hs.threads k o hl hth).1, hrefs hth⟩
  · have ⟨_, o', hl', _⟩ := hk
    exact hblocks k a (by simp [hl']) (hholds k a hk)

theorem Sound.reschedule {s' : Scheduler} (hnext : s'.next = x.sched.next)
    (hready : s'.readyQueue = x.sched.readyQueue)
    (hstack : ∀ b, (s'.threads b).stack = (x.thread b).stack)
    (hstate : ∀ b, s'.state b ≠ .terminated → x.sched.state b ≠ .terminated)
    (hcurrent : s'.currentThread = 0 ∨ s'.currentThread ∈ l) : Sound l { x with sched := s' } := by
  refine hs.keep ?_ rfl rfl rfl (fun k o' hl' => ⟨o', hl', rfl, rfl, fun hth => ?_⟩)
    (fun k o hl _ _ => ⟨o, hl, rfl, rfl⟩) (fun k o' _ _ => hstack _) hstate
    (fun k a _ hk => hs.owned k a hk) hs.nodup hcurrent
  · unfold Queue
    rw [hnext, hready]
    exact hs.queue
  · exact (hs.threads k o' hl' hth).2

theorem Sound.setTerminated (t : Nat) :
    Sound l { x with sched := x.sched.setState t .terminated } := by
  refine hs.reschedule (Scheduler.setState_next _ _ _) rfl (fun b => setState_stack _ _ _ _)
    (fun b hb => ?_) hs.current
  rw [Scheduler.setState_state] at hb
  split at hb
  · exact absurd rfl hb
  · exact hb

theorem Sound.put {o' : Object} (hl : x.ob.lookup h = some o)
    (hty : o'.type = o.type) (hbody : o'.body = o.body)
    (hrefs : IsThread x o → o'.refCount ≠ 0 ∧ o'.refCount < 2 ^ 32) :
    Sound l { x with ob := x.ob.put h o' } := by
  have hlook : ∀ k, (x.ob.put h o').lookup k = if k = h then some o' else x.ob.lookup k :=
    fun k => ObState.lookup_put (ObState.lt_of_lookup hl)
  refine hs.keep hs.queue rfl rfl rfl (fun k p hp => ?_) (fun k p hp _ _ => ?_) (fun _ _ _ _ => rfl)
    (fun _ hb => hb) (fun k a _ hk => hs.owned k a hk) hs.nodup hs.current
  · dsimp only at hp
    rw [hlook] at hp
    split at hp
    · rename_i hkh
      cases hp
      subst hkh
      exact ⟨o, hl, hty, hbody, hrefs⟩
    · exact ⟨p, hp, rfl, rfl, fun hth => (hs.threads k p hp hth).2⟩
  · dsimp only
    rw [hlook]
    split
    · rename_i hkh
      subst hkh
      cases hl.symm.trans hp
      exact ⟨o', rfl, hty, hbody⟩
    · exact ⟨p, hp, rfl, rfl⟩

theorem Sound.dereference
    (hfit : ∀ o, x.ob.lookup h = some o → IsThread x o → o.refCount = 1 → o.body ∉ l) :
    Sound l (dereference h x) := by
  cases hl : x.ob.lookup h with
  | none =>
    rw [dereference_none hl]
    exact hs
  | some o =>
    by_cases hmore : o.release.refCount ≠ 0
    · rw [dereference_more hl hmore]
      exact hs.put hl (Object.release_type o) (Object.release_body o) fun _ =>
        ⟨hmore, release_refCount_lt o⟩
    · have hd := dereference_last hs.registered hl (not_not.mp hmore)
      have hone : IsThread x o → o.refCount = 1 := by
        intro hth
        obtain ⟨_, hpos, hlt⟩ := hs.threads h o hl hth
        have hcount := Object.release_refCount (o := o) (by omega) hlt
        omega
      have hold : ∀ k p, (Kernel.dereference h x).ob.lookup k = some p →
          k ≠ h ∧ x.ob.lookup k = some p := by
        intro k p hp
        rw [hd.lookup] at hp
        split at hp
        · cases hp
        · exact ⟨‹_›, hp⟩
      refine hs.keep ?_ hd.threadType hd.bootThread hd.registry (fun k p hp => ?_)
        (fun k p hp hth hmem => ?_) (fun k p hp hth => ?_) (fun b hb => ?_) (fun k a hk hh => ?_)
        (hd.nodup hs.nodup) ?_
      · unfold Queue
        rw [hd.next, hd.readyQueue]
        exact hs.queue
      · obtain ⟨_, hp⟩ := hold k p hp
        exact ⟨p, hp, rfl, rfl, fun hth => (hs.threads k p hp hth).2⟩
      · have hkh : k ≠ h := by
          rintro rfl
          cases hl.symm.trans hp
          exact hfit o hl hth (hone hth) hmem
        rw [hd.lookup, if_neg hkh]
        exact ⟨p, hp, rfl, rfl⟩
      · obtain ⟨hkh, hp⟩ := hold k p hp
        have hth : IsThread x p := hth.trans hd.threadType
        have hpb := (hs.threads k p hp hth).1
        refine hd.stack _ fun he => hkh ?_
        exact hs.apart k h p.body ⟨hpb, p, hp, .inl rfl⟩ ⟨hpb, o, hl, .inl he⟩
      · have hstate := congrFun hd.state b
        intro hx
        exact hb (hstate.trans hx)
      · refine hd.blocks a (hs.owned k a hh) fun hh' => ?_
        obtain rfl := hs.apart k h a hh hh'
        rw [hd.lookup, if_pos rfl] at hk
        exact hk rfl
      · rw [hd.current]
        exact hs.current

theorem Sound.kmalloc (alloc : AllocOracle) (size : Nat) :
    Sound l (x.kmalloc alloc size).2 := by
  rcases kmalloc_cases alloc size x with ⟨_, hm⟩ | ⟨a, _, _, ha, hm⟩
  · rw [hm]
    exact ⟨hs.queue, hs.linked, hs.withStack, hs.members, hs.threads, hs.owned, hs.apart, hs.nodup,
      hs.current, hs.registered⟩
  · rw [hm]
    exact ⟨hs.queue, hs.linked, hs.withStack, hs.members, hs.threads,
      fun h b hh => mem_cons_of_mem _ (hs.owned h b hh), hs.apart,
      nodup_cons.mpr ⟨ha, hs.nodup⟩, hs.current, hs.registered⟩

end

variable {i : Nat}

theorem Sound.add (hs : Sound l x) (hfree : x.ob.lookup i = none)
    (hlook : ∀ k, x'.ob.lookup k = if k = i then some o else x.ob.lookup k)
    (htype : x'.threadObjectType = x.threadObjectType) (hreg : x'.ob.objectTypes = x.ob.objectTypes)
    (hsame : ∀ b, b ≠ o.body → (x'.thread b).stack = (x.thread b).stack ∧
      (x'.thread b).state = (x.thread b).state)
    (hblocks : ∀ a ∈ x.blocks, a ∈ x'.blocks) (hnodup : x'.blocks.Nodup)
    (hnew : ∀ a, Holds x' i a → a ∈ x'.blocks ∧ a ∉ x.blocks)
    (hthread : IsThread x o → o.body ≠ 0 ∧ o.refCount ≠ 0 ∧ o.refCount < 2 ^ 32)
    (hq : Queue x'.sched l')
    (hlink : ∀ t ∈ l', t ∈ l ∧ (t = x.bootThread → t = x'.bootThread) ∨
      IsThread x o ∧ t = o.body ∧ (t = x'.bootThread ∨ (x'.thread t).stack ≠ 0))
    (hmembers : ∀ k p, x'.ob.lookup k = some p → IsThread x p →
      (x'.thread p.body).state ≠ .terminated → p.body ∈ l')
    (hcurrent : x'.sched.currentThread = 0 ∨ x'.sched.currentThread ∈ l') : Sound l' x' := by
  have hi : x'.ob.lookup i = some o := (hlook i).trans (if_pos rfl)
  have hold : ∀ {k p}, x.ob.lookup k = some p → k ≠ i ∧ x'.ob.lookup k = some p := by
    intro k p hk
    have hki : k ≠ i := by
      rintro rfl
      rw [hfree] at hk
      cases hk
    exact ⟨hki, (hlook k).trans ((if_neg hki).trans hk)⟩
  -- a thread that was there has another body than the new object
  have hbody : ∀ k p, x.ob.lookup k = some p → IsThread x p → p.body ≠ o.body := by
    intro k p hk hth he
    have hp0 := (hs.threads k p hk hth).1
    exact (hnew o.body ⟨he ▸ hp0, o, hi, .inl rfl⟩).2
      (hs.owned k _ ⟨he ▸ hp0, p, hk, .inl he.symm⟩)
  have hholds : ∀ {k a}, Holds x' k a → k ≠ i → Holds x k a := by
    rintro k a ⟨h0, p, hp, hor⟩ hki
    rw [hlook, if_neg hki] at hp
    refine ⟨h0, p, hp, hor.imp_right fun hor => ?_⟩
    have hth : IsThread x p := hor.1.trans htype
    refine ⟨hth, hor.2.trans ?_⟩
    exact (hsame _ (hbody k p hp hth)).1
  refine ⟨hq, fun t ht => ?_, fun t ht => ?_, fun k p hp hth => hmembers k p hp (hth.trans htype),
    fun k p hp hth => ?_, fun k a hk => ?_, fun h k a hh hk => ?_, hnodup, hcurrent,
    hreg.trans hs.registered.1, htype.trans hs.registered.2⟩
  · rcases hlink t ht with ⟨htl, _⟩ | ⟨hth, rfl, _⟩
    · obtain ⟨k, p, hp, hth, rfl⟩ := hs.linked t htl
      exact ⟨k, p, (hold hp).2, hth.trans htype.symm, rfl⟩
    · exact ⟨i, o, hi, hth.trans htype.symm, rfl⟩
  · rcases hlink t ht with ⟨htl, hboot⟩ | ⟨_, _, hstack⟩
    · obtain ⟨k, p, hp, hth, rfl⟩ := hs.linked t htl
      refine (hs.withStack _ htl).imp hboot fun hstack => ?_
      rw [(hsame _ (hbody k p hp hth)).1]
      exact hstack
    · exact hstack
  · have hth : IsThread x p := hth.trans htype
    rw [hlook] at hp
    split at hp
    · cases hp
      exact hthread hth
    · exact hs.threads k p hp hth
  · by_cases hki : k = i
    · exact (hnew a (hki ▸ hk)).1
    · exact hblocks a (hs.owned k a (hholds hk hki))
  · by_cases hhi : h = i
    · by_cases hki : k = i
      · exact hhi.trans hki.symm
      · exact absurd (hs.owned k a (hholds hk hki)) (hnew a (hhi ▸ hh)).2
    · by_cases hki : k = i
      · exact absurd (hs.owned h a (hholds hh hhi)) (hnew a (hki ▸ hk)).2
      · exact hs.apart h k a (hholds hh hhi) (hholds hk hki)

structure Created (i type body : Nat) (o : Object) (x : Kernel) (ob' : ObState DeleteProc) :
    Prop where
  free : x.ob.lookup i = none
  valid : i ≠ invalidHandle
  type : o.type = type
  body : o.body = body
  refCount : o.refCount = 1
  lookup : ∀ k, ob'.lookup k = if k = i then some o else x.ob.lookup k
  registry : ob'.objectTypes = x.ob.objectTypes

theorem createObject_cases (alloc : AllocOracle) (type : Nat) (name : Option Name)
    (body size : Nat) (x : Kernel) :
    x.createObject alloc type name body size = (invalidHandle, { x with ticks := x.ticks + 1 }) ∨
    ∃ i o ob', Created i type body o x ob' ∧
      x.createObject alloc type name body size =
        (i, { x with ob := ob', ticks := x.ticks + 1 }) := by
  unfold createObject
  rcases obCreateObject_cases (granted alloc sizeofObject x) type name body size x.ob with
    hc | ⟨i, hi, hnone, _, hc⟩
  · rw [hc]
    exact .inl rfl
  · rw [hc]
    refine .inr ⟨i, ⟨storedName (name.getD []), type, 1, body, size, x.ob.serial, 0, 0⟩, _,
      ⟨?_, lt_invalidHandle hi, ?_, ?_, ?_, fun k => ?_, ?_⟩, rfl⟩
    · rw [ObState.lookup, if_pos hi, hnone]
    · rfl
    · rfl
    · rfl
    · exact ObState.lookup_put hi
    · rfl

theorem createObject_room {alloc : AllocOracle} {type : Nat} (name : Option Name)
    (body size : Nat) (hroom : HasRoom alloc x) (htype : obGetObjectType x.ob type ≠ none) :
    ∃ i o ob', Created i type body o x ob' ∧
      x.createObject alloc type name body size =
        (i, { x with ob := ob', ticks := x.ticks + 1 }) := by
  rcases createObject_cases alloc type name body size x with hc | hc
  · -- a failure would be for want of a slot or of memory
    obtain ⟨i, hi⟩ := ne_none_iff_exists'.mp hroom.1
    obtain ⟨info, hinfo⟩ := ne_none_iff_exists'.mp htype
    have hfst := congrArg Prod.fst hc
    have hlt := (freeSlot_spec hi).1
    simp only [createObject, obCreateObject, hinfo, hi, hroom.2] at hfst
    rw [if_neg (by simp)] at hfst
    exact absurd hfst (lt_invalidHandle hlt)
  · exact hc

theorem Sound.addOther {y : Kernel} {type body : Nat} {ob' : ObState DeleteProc}
    (hs : Sound l x) (hs' : Sound l y) (hsched : y.sched = x.sched) (hob : y.ob = x.ob)
    (htype : y.threadObjectType = x.threadObjectType) (hboot : y.bootThread = x.bootThread)
    (hblocks : ∀ a ∈ x.blocks, a ∈ y.blocks)
    (hbody : body = 0 ∨ body ∈ y.blocks ∧ body ∉ x.blocks) (hother : type ≠ x.threadObjectType)
    (hc : Created i type body o y ob') : Sound l { y with ob := ob', ticks := y.ticks + 1 } := by
  have hno : ¬ IsThread x o := fun hth => hother (hc.type.symm.trans hth)
  have hthread : ∀ b, y.thread b = x.thread b := fun b =>
    congrArg (fun s : Scheduler => s.threads b) hsched
  have hlook := hc.lookup
  have hfree := hc.free
  have hreg := hc.registry
  rw [hob] at hlook hfree hreg
  refine hs.add hfree hlook htype hreg (fun b _ => ?_) hblocks hs'.nodup ?_
    (fun hth => absurd hth hno) hs'.queue (fun t ht => .inl ⟨ht, fun h => h.trans hboot.symm⟩) ?_
    hs'.current
  · exact ⟨congrArg Thread.stack (hthread b), congrArg Thread.state (hthread b)⟩
  · rintro b ⟨h0, p, hp, hor⟩
    dsimp only at hp
    rw [hlook, if_pos rfl] at hp
    cases hp
    rcases hor with rfl | ⟨hth, _⟩
    · rw [hc.body] at h0 ⊢
      exact hbody.resolve_left h0
    · exact absurd (hth.trans htype) hno
  · intro k p hp hth hst
    dsimp only at hp
    rw [hlook] at hp
    split at hp
    · cases hp
      exact absurd hth hno
    · refine hs.members k p hp hth fun h => hst ?_
      exact (congrArg Thread.state (hthread _)).trans h

theorem Sound.tick (hs : Sound l x) : Sound l { x with ticks := x.ticks + 1 } :=
  ⟨hs.queue, hs.linked, hs.withStack, hs.members, hs.threads, hs.owned, hs.apart, hs.nodup,
    hs.current, hs.registered⟩

theorem Sound.createOther (hs : Sound l x) (alloc : AllocOracle) (type : Nat) (name : Option Name)
    (size : Nat) (hother : type ≠ x.threadObjectType) :
    Sound l (match x.kmalloc alloc size with
      | (body, y) => (y.createObject alloc type name body size).2) := by
  have hs' := hs.kmalloc alloc size
  rcases kmalloc_cases alloc size x with ⟨_, hm⟩ | ⟨a, _, _, ha, hm⟩
  · rw [hm] at hs' ⊢
    dsimp only at hs' ⊢
    rcases createObject_cases alloc type name 0 size { x with ticks := x.ticks + 1 } with
      hc | ⟨i, o, ob', hc, heq⟩
    · rw [hc]
      exact hs'.tick
    · rw [heq]
      exact hs.addOther hs' rfl rfl rfl rfl (fun _ h => h) (.inl rfl) hother hc
  · rw [hm] at hs' ⊢
    dsimp only at hs' ⊢
    rcases createObject_cases alloc type name a size
        { x with blocks := a :: x.blocks, ticks := x.ticks + 1 } with hc | ⟨i, o, ob', hc, heq⟩
    · rw [hc]
      exact hs'.tick
    · rw [heq]
      exact hs.addOther hs' rfl rfl rfl rfl (fun _ h => mem_cons_of_mem _ h)
        (.inr ⟨mem_cons_self, ha⟩) hother hc

theorem setThread_thread (t : Nat) (v : Thread) (x : Kernel) (u : Nat) :
    (x.setThread t v).thread u = if u = t then v else x.thread u := by
  by_cases hu : u = t
  · subst hu
    simp [setThread, thread]
  · simp [setThread, thread, hu]

theorem queue_setThread {v : Thread} (hq : Queue x.sched l)
    (hv : t ∉ l ∨ v.next = (x.thread t).next) : Queue (x.setThread t v).sched l := by
  refine Chain.congr hq fun a ha => ?_
  have hset := congrArg Thread.next (setThread_thread t v x a)
  refine hset.trans ?_
  split
  · rename_i hat
    subst hat
    exact hv.resolve_left fun h => h ha
  · rfl

theorem Sound.addThread {y : Kernel} {st : Nat} {ob' : ObState DeleteProc} (hs : Sound l x)
    (hc : Created i x.threadObjectType t o y ob') (hyob : y.ob = x.ob) (hob : x'.ob = ob')
    (htype : x'.threadObjectType = x.threadObjectType) (ht0 : t ≠ 0) (ht : t ∉ x.blocks)
    (hst : st = 0 ∨ st ∉ x.blocks) (hstack : (x'.thread t).stack = st)
    (hsame : ∀ u, u ≠ t → (x'.thread u).stack = (x.thread u).stack ∧
      (x'.thread u).state = (x.thread u).state)
    (hblocks : ∀ a, a = t ∨ st ≠ 0 ∧ a = st ∨ a ∈ x.blocks → a ∈ x'.blocks)
    (hnodup : x'.blocks.Nodup) (hq : Queue x'.sched l')
    (hlink : ∀ u ∈ l', u ∈ l ∧ (u = x.bootThread → u = x'.bootThread) ∨ u = t)
    (htl : t ∈ l') (hboot : t = x'.bootThread ∨ st ≠ 0)
    (hmembers : ∀ k p, x.ob.lookup k = some p → IsThread x p →
      (x.thread p.body).state ≠ .terminated → p.body ∈ l')
    (hcurrent : x'.sched.currentThread = 0 ∨ x'.sched.currentThread ∈ l') : Sound l' x' := by
  have hlook := hc.lookup
  have hfree := hc.free
  have hreg := hc.registry
  rw [← hob, hyob] at hlook hreg
  rw [hyob] at hfree
  refine hs.add hfree hlook htype hreg (fun b hb => hsame b (hc.body ▸ hb))
    (fun a ha => hblocks a (.inr (.inr ha))) hnodup ?_ (fun _ => ?_) hq (fun u hu => ?_) ?_ hcurrent
  · rintro a ⟨h0, p, hp, hor⟩
    rw [hlook, if_pos rfl] at hp
    cases hp
    rw [hc.body] at hor
    rcases hor with rfl | ⟨_, rfl⟩
    · exact ⟨hblocks _ (.inl rfl), ht⟩
    · rw [hstack] at h0 ⊢
      exact ⟨hblocks _ (.inr (.inl ⟨h0, rfl⟩)), hst.resolve_left h0⟩
  · rw [hc.body, hc.refCount]
    exact ⟨ht0, by decide, by decide⟩
  · refine (hlink u hu).imp_right fun hut => ⟨hc.type, hut.trans hc.body.symm, ?_⟩
    subst hut
    rw [hstack]
    exact hboot
  · intro k p hp hth hstate
    rw [hlook] at hp
    split at hp
    · cases hp
      rw [hc.body]
      exact htl
    · have hpt : p.body ≠ t := by
        rintro rfl
        exact hs.fresh ht ⟨ht0, p, hp, .inl rfl⟩
      rw [(hsame _ hpt).2] at hstate
      exact hmembers k p hp hth hstate

variable {arch : Arch} {stackSize : Nat}

theorem keCreateThread_spec {alloc : AllocOracle} {fuel : Nat}
    (hs : Sound l x) (hfit : Fit arch alloc (.keCreateThread stackSize) x)
    (hfuel : l.length < fuel) :
    ∃ r x', keCreateThread arch alloc fuel stackSize x = some (r, x') ∧
      ((r = invalidHandle ∧ x'.sched = x.sched ∧ Sound l x') ∨
        r ≠ invalidHandle ∧ ∃ t, Sound (l ++ [t]) x') := by
  unfold keCreateThread
  rcases kmalloc_cases alloc (sizeofThread arch) x with ⟨_, hm⟩ | ⟨t, hgrant, ht0, ht, hm⟩
  · rw [hm]
    exact ⟨_, _, rfl, .inl ⟨rfl, rfl, hs.tick⟩⟩
  · have hfit' := hfit hgrant
    dsimp only at hfit'
    generalize (if stackSize = 0 then defaultStackSize else stackSize) = size at hfit' ⊢
    rw [hm] at hfit' ⊢
    dsimp only at hfit' ⊢
    rw [if_neg ht0]
    rcases kmalloc_cases alloc size { x with blocks := t :: x.blocks, ticks := x.ticks + 1 } with
      ⟨hno, _⟩ | ⟨st, _, hst0, hst, hm'⟩
    · rw [hno] at hfit'
      cases hfit'.1
    · have hroom := hfit'.2
      rw [hm'] at hroom ⊢
      dsimp only at hroom ⊢
      have htl := hs.fresh_not_mem ht
      generalize hy : setThread t ⟨0, .ready, st, 0⟩
        { x with blocks := st :: t :: x.blocks, ticks := x.ticks + 1 + 1 } = y
      have hthread : ∀ u, y.thread u = if u = t then ⟨0, .ready, st, 0⟩ else x.thread u := by
        intro u
        rw [← hy, setThread_thread]
        rfl
      have hq : Queue y.sched l := by
        rw [← hy]
        exact queue_setThread hs.queue (.inl htl)
      obtain ⟨s', happ, hq', hkept⟩ := keAppendReadyThread_spec hq ht0 htl hfuel
      rw [happ]
      dsimp only
      have hroom' : HasRoom alloc { y with sched := s', threadCount := u32 (y.threadCount + 1) } := by
        rw [← hy]
        exact hroom
      have hregistered : Registered
          { y with sched := s', threadCount := u32 (y.threadCount + 1) } := by
        rw [← hy]
        exact hs.registered
      obtain ⟨i, o, ob', hc, hcreate⟩ := createObject_room (some (threadName y.threadCount)) t
        (sizeofThread arch) hroom' hregistered.type_ne_none
      rw [hcreate]
      dsimp only
      rw [if_neg hc.valid]
      refine ⟨_, _, rfl, .inr ⟨hc.valid, t, ?_⟩⟩
      have hytype : y.threadObjectType = x.threadObjectType := by rw [← hy]; rfl
      have hyob : y.ob = x.ob := by rw [← hy]; rfl
      have hyboot : y.bootThread = x.bootThread := by rw [← hy]; rfl
      have hyblocks : y.blocks = st :: t :: x.blocks := by rw [← hy]; rfl
      have hycurrent : y.sched.currentThread = x.sched.currentThread := by rw [← hy]; rfl
      have hc : Created i x.threadObjectType t o
          { y with sched := s', threadCount := u32 (y.threadCount + 1) } ob' := hytype ▸ hc
      have hstx : st ∉ x.blocks := fun h => hst (mem_cons_of_mem _ h)
      refine hs.addThread hc hyob rfl hytype ht0 ht (.inr hstx) ?_ (fun u hu => ?_) (fun a ha => ?_)
        ?_ (queue_setThread hq' (.inr rfl)) (fun u hu => ?_) (by simp) (.inr hst0)
        (fun k p hp hth hstate => mem_append_left _ (hs.members k p hp hth hstate)) ?_
      · rw [setThread_thread, if_pos rfl]
        refine (hkept.stack t).trans ?_
        have hnew := congrArg Thread.stack (hthread t)
        rw [if_pos rfl] at hnew
        exact hnew
      · rw [setThread_thread, if_neg hu]
        have hold := hthread u
        rw [if_neg hu] at hold
        exact ⟨(hkept.stack u).trans (congrArg Thread.stack hold),
          (congrFun hkept.state u).trans (congrArg Thread.state hold)⟩
      · change a ∈ y.blocks
        rw [hyblocks]
        simp only [mem_cons]
        rcases ha with ha | ⟨_, ha⟩ | ha
        · exact .inr (.inl ha)
        · exact .inl ha
        · exact .inr (.inr ha)
      · change y.blocks.Nodup
        rw [hyblocks]
        exact nodup_cons.mpr ⟨hst, nodup_cons.mpr ⟨ht, hs.nodup⟩⟩
      · rcases mem_append.mp hu with hu | hu
        · exact .inl ⟨hu, fun h => h.trans hyboot.symm⟩
        · exact .inr (mem_singleton.mp hu)
      · change s'.currentThread = 0 ∨ s'.currentThread ∈ l ++ [t]
        rw [hkept.current, hycurrent]
        exact hs.current.imp_right fun h => mem_append_left _ h

theorem Sound.attach {alloc : AllocOracle} {name : Option Name} (hs : Sound l x)
    (hfit : Fit arch alloc (.keAttachCurrentThread name) x) :
    ∃ l', Sound l' (keAttachCurrentThread arch alloc name x) := by
  unfold keAttachCurrentThread
  rcases kmalloc_cases alloc (sizeofThread arch) x with ⟨_, hm⟩ | ⟨t, hgrant, ht0, ht, hm⟩
  · rw [hm]
    dsimp only
    rw [if_pos (.inl rfl)]
    exact ⟨l, hs.tick⟩
  · by_cases hcur : x.sched.currentThread = 0
    · obtain ⟨hroom, hall⟩ := hfit hcur hgrant
      rw [hm] at hroom ⊢
      dsimp only at hroom ⊢
      rw [if_neg (by simp [ht0, hcur])]
      have hroom' : HasRoom alloc (setThread t ⟨0, .running, 0, 0⟩
          { x with blocks := t :: x.blocks, ticks := x.ticks + 1 }) := hroom
      have hregistered : Registered (setThread t ⟨0, .running, 0, 0⟩
          { x with blocks := t :: x.blocks, ticks := x.ticks + 1 }) := hs.registered
      obtain ⟨i, o, ob', hc, hcreate⟩ := createObject_room
        (some (name.getD keAttachCurrentThread.mainThread)) t (sizeofThread arch) hroom'
        hregistered.type_ne_none
      rw [hcreate]
      dsimp only
      refine ⟨[t], hs.addThread hc rfl rfl rfl ht0 ht (.inl rfl) ?_ (fun u hu => ?_) (fun a ha => ?_)
        ?_ ?_ (fun u hu => .inr (mem_singleton.mp hu)) mem_cons_self (.inl rfl)
        (fun k p hp hth hstate => absurd (hall k p hp hth) hstate) (.inr mem_cons_self)⟩
      · simp [thread, setThread]
      · simp [thread, setThread, hu]
      · rcases ha with rfl | ⟨h0, _⟩ | ha
        · exact mem_cons_self
        · exact absurd rfl h0
        · exact mem_cons_of_mem _ ha
      · exact nodup_cons.mpr ⟨ht, hs.nodup⟩
      · refine ⟨⟨rfl, ?_⟩, fun a ha => ?_⟩
        · simp [Seg, Scheduler.next, thread, setThread]
        · rw [mem_singleton.mp ha]
          exact ht0
    · rw [hm]
      dsimp only
      rw [if_pos (.inr hcur)]
      have hs' := hs.kmalloc alloc (sizeofThread arch)
      rw [hm] at hs'
      exact ⟨l, hs'⟩

theorem keYield_spec {fuel : Nat} (hs : Sound l x) (hfuel : l.length < fuel) :
    ∃ x', keYield fuel x = some x' ∧ Sound l x' := by
  unfold keYield
  rcases hs.current with h0 | hcur
  · rw [keSelectNextThread, if_pos h0]
    exact ⟨x, rfl, hs⟩
  · rw [keSelectNextThread_eq hs.queue hcur hfuel]
    cases hfind : (after l x.sched.currentThread).find? (isReady x.sched) with
    | none => exact ⟨x, rfl, hs⟩
    | some p =>
      have hmem := ((mem_after hs.queue.nodup hcur).mp (mem_of_find?_eq_some hfind)).1
      have hready : x.sched.state p = .ready := by simpa [isReady] using find?_some hfind
      refine ⟨_, rfl, hs.reschedule (switchTo_next _ _) (switchTo_readyQueue _ _)
        (fun b => switchTo_stack _ _ _) (fun b hb => ?_) (.inr hmem)⟩
      rw [switchTo_state] at hb
      split at hb
      · rename_i hbp
        rw [hbp, hready]
        decide
      · split at hb
        · rename_i hrun
          rw [hrun.2]
          decide
        · exact hb

theorem Sound.bounce {s' : Scheduler} (hs : Sound l x) (hl : x.ob.lookup h = some o)
    (hsched : Sound l { x with sched := s' }) :
    Sound l (Kernel.dereference h { x with ob := x.ob.put h o.take, sched := s' }) := by
  have hlook : (x.ob.put h o.take).lookup h = some o.take := by
    rw [ObState.lookup_put (ObState.lt_of_lookup hl), if_pos rfl]
  by_cases hth : IsThread x o
  · obtain ⟨_, hpos, hlt⟩ := hs.threads h o hl hth
    have hcount := take_release_refCount (o := o) hlt
    have hmore : o.take.release.refCount ≠ 0 := by
      rw [hcount]
      exact hpos
    have hput : (x.ob.put h o.take).put h o.take.release = x.ob.put h o.take.release := by
      simp [ObState.put]
    rw [dereference_more hlook hmore]
    dsimp only
    rw [hput]
    refine hsched.put hl ?_ ?_ fun _ => ?_
    · rw [Object.release_type]
      rfl
    · rw [Object.release_body]
      rfl
    · rw [hcount]
      exact ⟨hpos, hlt⟩
  · have hput : Sound l { x with ob := x.ob.put h o.take, sched := s' } :=
      hsched.put hl rfl rfl fun h => absurd h hth
    refine hput.dereference fun p hp hpt => ?_
    dsimp only at hp
    rw [hlook] at hp
    cases hp
    exact absurd hpt hth

theorem bounce_lookup (hr : Registered x) (hl : x.ob.lookup h = some o) {p : Object}
    (hp : (Kernel.dereference h { x with ob := x.ob.put h o.take }).ob.lookup h = some p) :
    p.type = o.type ∧ p.body = o.body ∧ (o.refCount < 2 ^ 32 → p.refCount = o.refCount) := by
  have hlt := ObState.lt_of_lookup hl
  have hlook : (x.ob.put h o.take).lookup h = some o.take := by
    rw [ObState.lookup_put hlt, if_pos rfl]
  by_cases hmore : o.take.release.refCount ≠ 0
  · have heq : Kernel.dereference h { x with ob := x.ob.put h o.take } =
        { x with ob := (x.ob.put h o.take).put h o.take.release } := dereference_more hlook hmore
    rw [heq] at hp
    dsimp only at hp
    rw [ObState.lookup_put hlt, if_pos rfl] at hp
    cases hp
    refine ⟨?_, ?_, take_release_refCount⟩
    · rw [Object.release_type]
      rfl
    · rw [Object.release_body]
      rfl
  · have hr' : Registered { x with ob := x.ob.put h o.take } := hr
    have hd := (dereference_last hr' hlook (not_not.mp hmore)).lookup h
    rw [if_pos rfl] at hd
    cases hd.symm.trans hp

theorem Sound.terminate (hs : Sound l x) (h : Nat) : Sound l (keTerminateThread h x) := by
  unfold keTerminateThread
  cases hl : x.ob.lookup h with
  | none =>
    rw [reference_none hl]
    exact hs
  | some o =>
    rw [reference_some hl]
    dsimp only
    split
    · rename_i hb
      exact hs.put hl rfl rfl fun hth => absurd hb (hs.threads h o hl hth).1
    · exact hs.bounce hl (hs.setTerminated o.body)

theorem Sound.retire {alloc : AllocOracle} (hs : Sound l x)
    (hfit : Fit arch alloc (.csrssRetire h) x) : Sound l (csrssRetire h x) := by
  unfold csrssRetire
  cases hl : x.ob.lookup h with
  | none =>
    rw [reference_none hl]
    exact hs
  | some o =>
    rw [reference_some hl]
    dsimp only
    split
    · rename_i hb
      exact hs.put hl rfl rfl fun hth => absurd hb (hs.threads h o hl hth).1
    · have hbounce : Sound l (Kernel.dereference h { x with ob := x.ob.put h o.take }) :=
        hs.bounce hl hs
      split
      · rename_i hremove
        refine hbounce.dereference fun p hp hth hone => ?_
        obtain ⟨hty, hbody, hcount⟩ := bounce_lookup hs.registered hl hp
        have htype : (Kernel.dereference h { x with ob := x.ob.put h o.take }).threadObjectType =
            x.threadObjectType := hbounce.registered.2.trans hs.registered.2.symm
        have hth : IsThread x o := (hty.symm.trans hth).trans htype
        rw [hcount (hs.threads h o hl hth).2.2] at hone
        rw [hbody]
        exact hfit o hl hth (of_decide_eq_true hremove.1) hone l hs.queue
      · exact hbounce

theorem keCreateThread_mono {alloc : AllocOracle} {fuel : Nat}
    {r : Nat × Kernel} {k : Nat} (h : keCreateThread arch alloc fuel stackSize x = some r) :
    keCreateThread arch alloc (fuel + k) stackSize x = some r := by
  unfold keCreateThread at h ⊢
  dsimp only at h ⊢
  split
  · rename_i h0
    rw [if_pos h0] at h
    exact h
  · rename_i h0
    rw [if_neg h0] at h
    split at h
    · cases h
    · rename_i s' happ
      rw [keAppendReadyThread_mono happ]
      exact h

theorem keCreateThread_result {alloc : AllocOracle} {fuel r : Nat}
    (hs : Sound l x) (hfit : Fit arch alloc (.keCreateThread stackSize) x)
    (h : keCreateThread arch alloc fuel stackSize x = some (r, x')) :
    (r = invalidHandle ∧ x'.sched = x.sched ∧ Sound l x') ∨
      r ≠ invalidHandle ∧ ∃ t, Sound (l ++ [t]) x' := by
  have hfuel : l.length < fuel + (l.length + 1) := by omega
  obtain ⟨r', y, hy, hcases⟩ := keCreateThread_spec hs hfit hfuel
  rw [keCreateThread_mono h] at hy
  cases hy
  exact hcases

theorem Sound.step {alloc : AllocOracle} {a : Act} {fuel : Nat} (hs : Sound l x)
    (hfit : Fit arch alloc a x) (hstep : step arch alloc fuel a x = some x') :
    ∃ l', Sound l' x' := by
  cases a with
  | keAttachCurrentThread name =>
    cases hstep
    exact hs.attach hfit
  | keCreateThread stackSize =>
    obtain ⟨⟨r, y⟩, hcreate, rfl⟩ := map_eq_some_iff.mp hstep
    rcases keCreateThread_result hs hfit hcreate with ⟨_, _, hs'⟩ | ⟨_, t, hs'⟩
    · exact ⟨l, hs'⟩
    · exact ⟨l ++ [t], hs'⟩
  | keYield =>
    have hfuel : l.length < fuel + (l.length + 1) := by omega
    obtain ⟨y, hy, hs'⟩ := keYield_spec hs hfuel
    obtain ⟨r, hsel, rfl⟩ := map_eq_some_iff.mp hstep
    rw [keYield, keSelectNextThread_mono hsel] at hy
    cases hy
    exact ⟨l, hs'⟩
  | exitThread =>
    cases hstep
    refine ⟨l, ?_⟩
    unfold Kernel.exitThread
    split
    · exact hs
    · exact hs.setTerminated _
  | keTerminateThread handle =>
    cases hstep
    exact ⟨l, hs.terminate handle⟩
  | csrssRetire handle =>
    cases hstep
    exact ⟨l, hs.retire hfit⟩
  | obCreateObject type name size =>
    cases hstep
    exact ⟨l, hs.createOther alloc type name size hfit⟩
  | obReferenceObject handle =>
    cases hstep
    refine ⟨l, ?_⟩
    cases hl : x.ob.lookup handle with
    | none =>
      rw [reference_none hl]
      exact hs
    | some o =>
      rw [reference_some hl]
      exact hs.put hl rfl rfl fun hth => take_refs (hfit o hl hth)
  | obDereferenceObject handle =>
    cases hstep
    exact ⟨l, hs.dereference fun o hl hth hone => hfit o hl hth hone l hs.queue⟩

theorem Sound.returns {alloc : AllocOracle} {a : Act} (hs : Sound l x)
    (hfit : Fit arch alloc a x) : ∃ fuel x', Kernel.step arch alloc fuel a x = some x' := by
  cases a with
  | keCreateThread stackSize =>
    obtain ⟨r, y, hy, _⟩ := keCreateThread_spec hs hfit (Nat.lt_succ_self l.length)
    exact ⟨l.length + 1, y, congrArg (Option.map Prod.snd) hy⟩
  | keYield =>
    obtain ⟨y, hy, _⟩ := keYield_spec hs (Nat.lt_succ_self l.length)
    exact ⟨l.length + 1, y, hy⟩
  | keAttachCurrentThread name => exact ⟨0, _, rfl⟩
  | exitThread => exact ⟨0, _, rfl⟩
  | keTerminateThread handle => exact ⟨0, _, rfl⟩
  | csrssRetire handle => exact ⟨0, _, rfl⟩
  | obCreateObject type name size => exact ⟨0, _, rfl⟩
  | obReferenceObject handle => exact ⟨0, _, rfl⟩
  | obDereferenceObject handle => exact ⟨0, _, rfl⟩

theorem sound_boot : Sound [] boot := by
  have hlook : ∀ k, boot.ob.lookup k = none := fun k => keBoot_lookup (fun _ => 0) 0 k
  have hholds : ∀ h a, ¬ Holds boot h a := by
    rintro h a ⟨_, o, ho, _⟩
    rw [hlook] at ho
    cases ho
  refine ⟨⟨rfl, by simp⟩, by simp, by simp, ?_, ?_, fun h a hh => absurd hh (hholds h a),
    fun h k a hh _ => absurd hh (hholds h a), nodup_nil, .inl rfl, rfl, rfl⟩
  · simp [hlook]
  · simp [hlook]

theorem Reachable.sound {alloc : AllocOracle}
    (hr : Reachable arch alloc (Fit arch alloc) x) : ∃ l, Sound l x := by
  induction hr with
  | boot => exact ⟨[], sound_boot⟩
  | step _ hok hstep ih =>
    obtain ⟨l, hs⟩ := ih
    exact hs.step hok hstep

end Soundness

/-- In every run of `Fit` steps the queue is intact, a `KeCreateThread` that fails leaves it as it
was, and every further such step returns. -/
theorem thread_queue_intact (arch : Arch) (alloc : AllocOracle) {x : Kernel}
    (hr : Reachable arch alloc (Fit arch alloc) x) :
    Intact x ∧
    (∀ fuel stackSize x', Fit arch alloc (.keCreateThread stackSize) x →
      keCreateThread arch alloc fuel stackSize x = some (invalidHandle, x') →
      x'.sched = x.sched) ∧
    ∀ a, Fit arch alloc a x → ∃ fuel x', step arch alloc fuel a x = some x' := by
  obtain ⟨l, hs⟩ := hr.sound
  refine ⟨hs.intact, fun fuel stackSize x' hfit hcreate => ?_, fun a hfit => hs.returns hfit⟩
  rcases keCreateThread_result hs hfit hcreate with ⟨_, hsched, _⟩ | ⟨hne, _⟩
  · exact hsched
  · exact absurd rfl hne

theorem eq_some_getD {α : Type} {o : Option α} {d : α} (h : o.isSome = true) :
    o = some (o.getD d) := by
  obtain ⟨a, rfl⟩ := isSome_iff_exists.mp h
  rfl

theorem thread_queue_intact_two :
    let alloc : AllocOracle := fun n _ => 64 * (n + 1)
    let x := keAttachCurrentThread .amd64 alloc none boot
    let x' := ((Kernel.step .amd64 alloc 3 (.keCreateThread 0) x).getD x)
    x'.sched.readyQueue = 64 ∧ x'.sched.next 64 = 192 ∧ Intact x' := by
  intro alloc x x'
  have hlook : ∀ k, boot.ob.lookup k = none := fun k => keBoot_lookup (fun _ => 0) 0 k
  have hattach : Fit .amd64 alloc (.keAttachCurrentThread none) boot := by
    intro _ _
    refine ⟨⟨by decide +kernel, by decide +kernel⟩, fun h o ho => ?_⟩
    rw [hlook] at ho
    cases ho
  have hcreate : Fit .amd64 alloc (.keCreateThread 0) x := by
    intro _
    exact ⟨by decide +kernel, by decide +kernel, by decide +kernel⟩
  have hboot : Kernel.step .amd64 alloc 0 (.keAttachCurrentThread none) boot = some x := rfl
  have hstep : Kernel.step .amd64 alloc 3 (.keCreateThread 0) x = some x' :=
    eq_some_getD (by decide +kernel)
  have hx : Reachable .amd64 alloc (Fit .amd64 alloc) x := .step .boot hattach hboot
  exact ⟨by decide +kernel, by decide +kernel,
    (thread_queue_intact .amd64 alloc (.step hx hcreate hstep)).1⟩

theorem not_intact {x : Kernel} {l : List Nat} {t : Nat} (hq : Queue x.sched l) (ht : t ∈ l)
    (hfree : t ∉ x.blocks) : ¬ Intact x := by
  rintro ⟨l', hq', hlive, _⟩
  have hl : l' = l := Chain.unique hq' hq
  subst hl
  exact hfree (hlive t ht).1.1

/-- Two runs that end with a freed thread in the queue: there is no memory for the third block of
`KeCreateThread`; and `csrss` retires an application whose thread has terminated. -/
theorem thread_queue_intact_freed :
    let short : AllocOracle := fun n _ => if n = 4 then 0 else 64 * (n + 1)
    let ample : AllocOracle := fun n _ => 64 * (n + 1)
    let x := keAttachCurrentThread .amd64 short none boot
    let r := (keCreateThread .amd64 short 3 0 x).getD (0, x)
    let y1 := keAttachCurrentThread .amd64 ample none boot
    let y2 := (Kernel.step .amd64 ample 3 (.keCreateThread 0) y1).getD y1
    let y := csrssRetire 1 (keTerminateThread 1 y2)
    (Reachable .amd64 short (fun _ _ => True) x ∧ r.1 = invalidHandle ∧ Queue x.sched [64] ∧
      Queue r.2.sched [64, 192] ∧ ¬ Intact r.2) ∧
    Reachable .amd64 ample (fun _ _ => True) y ∧ ¬ Intact y := by
  intro short ample x r y1 y2 y
  have hboot : Kernel.step .amd64 short 0 (.keAttachCurrentThread none) boot = some x := rfl
  have hx : Reachable .amd64 short (fun _ _ => True) x := .step .boot trivial hboot
  have hxq : Queue x.sched [64] :=
    ⟨⟨by decide +kernel, by change x.sched.next 64 = 0; decide +kernel⟩, by decide⟩
  have hrq : Queue r.2.sched [64, 192] :=
    ⟨⟨by decide +kernel, by decide +kernel, by change r.2.sched.next 192 = 0; decide +kernel⟩,
      by decide⟩
  have hfail : r.1 = invalidHandle ∧ 192 ∉ r.2.blocks := by decide +kernel
  have hboot' : Kernel.step .amd64 ample 0 (.keAttachCurrentThread none) boot = some y1 := rfl
  have hcreate : Kernel.step .amd64 ample 3 (.keCreateThread 0) y1 = some y2 :=
    eq_some_getD (by decide +kernel)
  have hend : Kernel.step .amd64 ample 0 (.keTerminateThread 1) y2 =
    some (keTerminateThread 1 y2) := rfl
  have hretire : Kernel.step .amd64 ample 0 (.csrssRetire 1) (keTerminateThread 1 y2) = some y := rfl
  have hy : Reachable .amd64 ample (fun _ _ => True) y :=
    .step (.step (.step (.step .boot trivial hboot') trivial hcreate) trivial hend) trivial hretire
  have hyq : Queue y.sched [64, 192] :=
    ⟨⟨by decide +kernel, by decide +kernel, by change y.sched.next 192 = 0; decide +kernel⟩,
      by decide⟩
  have hfree : 192 ∉ y.blocks := by decide +kernel
  exact ⟨⟨hx, hfail.1, hxq, hrq, not_intact hrq (by decide) hfail.2⟩, hy,
    not_intact hyq (by decide) hfree⟩

/-! ## Who runs -/

def Alone (s : Scheduler) : Prop := ∀ t, s.state t = .running → t = s.currentThread ∧ t ≠ 0

section Alone

variable {arch : Arch} {alloc : AllocOracle} {x x' : Kernel} {s s' : Scheduler} {t h fuel : Nat}

theorem Alone.congr (ha : Alone s) (hstate : s'.state = s.state)
    (hcurrent : s'.currentThread = s.currentThread) : Alone s' := by
  intro t ht
  rw [hstate] at ht
  rw [hcurrent]
  exact ha t ht

theorem Alone.setTerminated (ha : Alone s) (t : Nat) : Alone (s.setState t .terminated) := by
  intro u hu
  rw [Scheduler.setState_state] at hu
  split at hu
  · cases hu
  · exact ha u hu

theorem Alone.switchTo (ha : Alone s) (ht : t ≠ 0) : Alone (switchTo t s) := by
  intro u hu
  rw [switchTo_state] at hu
  split at hu
  · rename_i hut
    exact ⟨hut, hut ▸ ht⟩
  · split at hu
    · cases hu
    · rename_i hold
      exact absurd ⟨(ha u hu).1, hu⟩ hold

theorem keSelectNextThread_alone {r : Nat × Scheduler} (ha : Alone s)
    (h : keSelectNextThread fuel s = some r) : Alone r.2 := by
  rw [keSelectNextThread] at h
  split at h
  · cases h
    exact ha
  · dsimp only at h
    split at h
    · cases h
    · cases h
      exact ha
    · cases h
      exact ha.switchTo (Nat.succ_ne_zero _)

theorem keAppendReadyThread_alone (ha : Alone s) (h : keAppendReadyThread fuel t s = some s') :
    Alone s' := by
  have hset : ∀ (s : Scheduler) t v, Alone s → Alone (s.setNext t v) := fun s t v ha =>
    ha.congr (funext fun u => (setNext_fields s t v u).1) rfl
  unfold keAppendReadyThread at h
  split at h
  · cases h
    exact ha
  · dsimp only at h
    split at h
    · cases h
      exact hset s t 0 ha
    · split at h
      · cases h
      · cases h
        exact hset _ _ _ (hset s t 0 ha)

theorem kmalloc_sched (alloc : AllocOracle) (size : Nat) (x : Kernel) :
    (x.kmalloc alloc size).2.sched = x.sched := by
  unfold kmalloc
  split <;> rfl

theorem Alone.setThread {v : Thread} (ha : Alone x.sched)
    (hv : v.state = .running → v.state = (x.thread t).state) : Alone (x.setThread t v).sched := by
  intro u hu
  have hthread := congrArg Thread.state (setThread_thread t v x u)
  change (x.setThread t v).sched.state u = _ at hthread
  rw [hthread] at hu
  split at hu
  · rename_i hut
    rw [hv hu] at hu
    exact hut ▸ ha t hu
  · exact ha u hu

theorem keCreateThread_alone {stackSize : Nat} {r : Nat × Kernel} (ha : Alone x.sched)
    (h : keCreateThread arch alloc fuel stackSize x = some r) : Alone r.2.sched := by
  unfold keCreateThread at h
  generalize hm : x.kmalloc alloc (sizeofThread arch) = m at h
  have hmalloc := kmalloc_sched alloc (sizeofThread arch) x
  rw [hm] at hmalloc
  dsimp only at h
  split at h
  · cases h
    rw [hmalloc]
    exact ha
  · generalize (if stackSize = 0 then defaultStackSize else stackSize) = size at h
    have hstack := (kmalloc_sched alloc size m.2).trans hmalloc
    generalize m.2.kmalloc alloc size = k at h hstack
    have hnew : Alone (Kernel.setThread m.1 ⟨0, .ready, k.1, 0⟩ k.2).sched :=
      Alone.setThread (hstack ▸ ha) nofun
    split at h
    · cases h
    · rename_i s' happ
      have hs' : Alone s' := keAppendReadyThread_alone hnew happ
      split at h
      · cases h
        rw [(kfree_sched _ _).1, (kfree_sched _ _).1]
        exact hs'
      · cases h
        exact Alone.setThread hs' fun _ => rfl

theorem dereference_alone (hr : Registered x) (ha : Alone x.sched) (h : Nat) :
    Alone (dereference h x).sched ∧ Registered (dereference h x) := by
  cases hl : x.ob.lookup h with
  | none =>
    rw [dereference_none hl]
    exact ⟨ha, hr⟩
  | some o =>
    by_cases hlast : o.release.refCount = 0
    · have hd := dereference_last hr hl hlast
      exact ⟨ha.congr hd.state hd.current, hd.registry.trans hr.1, hd.threadType.trans hr.2⟩
    · rw [dereference_more hl hlast]
      exact ⟨ha, hr⟩

theorem reference_alone (hr : Registered x) (ha : Alone x.sched) (h : Nat) :
    Alone (x.reference h).2.sched ∧ Registered (x.reference h).2 := by
  cases hl : x.ob.lookup h with
  | none =>
    rw [reference_none hl]
    exact ⟨ha, hr⟩
  | some o =>
    rw [reference_some hl]
    exact ⟨ha, hr⟩

theorem step_alone {a : Act} (hr : Registered x) (ha : Alone x.sched)
    (hstep : step arch alloc fuel a x = some x') : Alone x'.sched := by
  cases a with
  | keAttachCurrentThread name =>
    cases hstep
    unfold keAttachCurrentThread
    have hmalloc := kmalloc_sched alloc (sizeofThread arch) x
    generalize x.kmalloc alloc (sizeofThread arch) = m at hmalloc
    dsimp only
    split
    · rw [hmalloc]
      exact ha
    · rename_i hnew
      rw [not_or, not_not, hmalloc] at hnew
      -- nobody was running before
      intro u hu
      by_cases hum : u = m.1
      · exact ⟨hum, hum ▸ hnew.1⟩
      · refine absurd (ha u ?_) fun h => h.2 (h.1.trans hnew.2)
        rw [← hmalloc, ← hu]
        simp [Scheduler.state, Kernel.setThread, createObject, hum]
  | keCreateThread stackSize =>
    obtain ⟨r, hcreate, rfl⟩ := map_eq_some_iff.mp hstep
    exact keCreateThread_alone ha hcreate
  | keYield =>
    obtain ⟨r, hsel, rfl⟩ := map_eq_some_iff.mp hstep
    exact keSelectNextThread_alone ha hsel
  | exitThread =>
    cases hstep
    unfold Kernel.exitThread
    split
    · exact ha
    · exact ha.setTerminated _
  | keTerminateThread handle =>
    cases hstep
    unfold Kernel.keTerminateThread
    obtain ⟨ha', hr'⟩ := reference_alone hr ha handle
    generalize x.reference handle = r at ha' hr'
    dsimp only
    split
    · exact ha'
    · exact (dereference_alone (x := { r.2 with sched := r.2.sched.setState r.1 .terminated }) hr'
        (ha'.setTerminated _) handle).1
  | csrssRetire handle =>
    cases hstep
    unfold Kernel.csrssRetire
    obtain ⟨ha', hr'⟩ := reference_alone hr ha handle
    generalize x.reference handle = r at ha' hr'
    dsimp only
    obtain ⟨hd, hrd⟩ := dereference_alone hr' ha' handle
    split
    · exact ha'
    · split
      · exact (dereference_alone hrd hd handle).1
      · exact hd
  | obCreateObject type name size =>
    cases hstep
    change Alone (x.kmalloc alloc size).2.sched
    rw [kmalloc_sched]
    exact ha
  | obReferenceObject handle =>
    cases hstep
    exact (reference_alone hr ha handle).1
  | obDereferenceObject handle =>
    cases hstep
    exact (dereference_alone hr ha handle).1

theorem Reachable.alone (hr : Reachable arch alloc (Fit arch alloc) x) : Alone x.sched := by
  induction hr with
  | boot => exact nofun
  | step hr _ hstep ih =>
    obtain ⟨_, hs⟩ := Reachable.sound hr
    exact step_alone hs.registered ih hstep

end Alone

def HandsOver (x x' : Kernel) : Prop :=
  let t := x'.sched.currentThread
  x.sched.state t = .ready ∧ x'.sched.state t = .running ∧ Live x' t ∧
    (t = x'.bootThread ∨ HasStack x' t)

/-- In every run of `Fit` steps no thread but the current one is running, and `KeYield` hands over
to another thread, or changes nothing because none is ready or none was attached. -/
theorem keYield_switches {arch : Arch} {alloc : AllocOracle} {x : Kernel}
    (hr : Reachable arch alloc (Fit arch alloc) x) :
    (∀ t, x.sched.state t = .running → t = x.sched.currentThread) ∧
    ∃ l x', Queue x.sched l ∧ (∀ fuel, l.length < fuel → keYield fuel x = some x') ∧
      (x' = x ∧ (x.sched.currentThread = 0 ∨
        ∀ t ∈ l, t ≠ x.sched.currentThread → x.sched.state t ≠ .ready) ∨
      x'.sched.currentThread ∈ l ∧ HandsOver x x') := by
  have halone := Reachable.alone hr
  obtain ⟨l, hs⟩ := hr.sound
  refine ⟨fun t ht => (halone t ht).1, l, ?_⟩
  rcases hs.current with h0 | hcur
  · refine ⟨x, hs.queue, fun fuel _ => ?_, .inl ⟨rfl, .inl h0⟩⟩
    rw [keYield, keSelectNextThread, if_pos h0]
    rfl
  cases hfind : (after l x.sched.currentThread).find? (isReady x.sched) with
  | none =>
    have hnone := find?_eq_none.mp hfind
    refine ⟨x, hs.queue, fun fuel hfuel => ?_, .inl ⟨rfl, .inr fun t ht hne => ?_⟩⟩
    · rw [keYield, keSelectNextThread_eq hs.queue hcur hfuel, hfind]
      rfl
    · simpa [isReady] using hnone t ((mem_after hs.queue.nodup hcur).mpr ⟨ht, hne⟩)
  | some p =>
    have hyield : ∀ fuel, l.length < fuel →
        keYield fuel x = some { x with sched := Ke.switchTo p x.sched } := fun fuel hfuel => by
      rw [keYield, keSelectNextThread_eq hs.queue hcur hfuel, hfind]
      rfl
    have hmem := ((mem_after hs.queue.nodup hcur).mp (mem_of_find?_eq_some hfind)).1
    obtain ⟨x', hx', hs'⟩ := keYield_spec hs (Nat.lt_succ_self l.length)
    obtain rfl := Option.some.inj ((hyield _ (Nat.lt_succ_self l.length)).symm.trans hx')
    obtain ⟨l', hq', hlive, -⟩ := hs'.intact
    obtain rfl := Chain.unique hq' hs'.queue
    have hready : x.sched.state p = .ready := by simpa [isReady] using find?_some hfind
    have hrunning : (Ke.switchTo p x.sched).state p = .running := by rw [switchTo_state, if_pos rfl]
    exact ⟨_, hs.queue, hyield, .inr ⟨hmem, hready, hrunning, hlive p hmem⟩⟩

/-- The boot thread hands over to the thread it has created. -/
theorem keYield_switches_two :
    let alloc : AllocOracle := fun n _ => 64 * (n + 1)
    let x := (Kernel.step .amd64 alloc 3 (.keCreateThread 0)
      (keAttachCurrentThread .amd64 alloc none boot)).getD boot
    (∀ t, x.sched.state t = .running → t = 64) ∧
      (keYield 3 x).map (fun x' => x'.sched.currentThread) = some 192 := by
  intro alloc x
  have hlook : ∀ k, boot.ob.lookup k = none := fun k => keBoot_lookup (fun _ => 0) 0 k
  have hattach : Fit .amd64 alloc (.keAttachCurrentThread none) boot := by
    intro _ _
    refine ⟨⟨by decide +kernel, by decide +kernel⟩, fun h o ho => ?_⟩
    rw [hlook] at ho
    cases ho
  have hcreate : Fit .amd64 alloc (.keCreateThread 0)
      (keAttachCurrentThread .amd64 alloc none boot) :=
    fun _ => ⟨by decide +kernel, by decide +kernel, by decide +kernel⟩
  have hstep : Kernel.step .amd64 alloc 3 (.keCreateThread 0)
      (keAttachCurrentThread .amd64 alloc none boot) = some x := eq_some_getD (by decide +kernel)
  have hcurrent : x.sched.currentThread = 64 := by decide +kernel
  have hboot : Kernel.step .amd64 alloc 0 (.keAttachCurrentThread none) boot =
      some (keAttachCurrentThread .amd64 alloc none boot) := rfl
  have hx := keYield_switches (.step (.step .boot hattach hboot) hcreate hstep)
  exact ⟨fun t ht => (hx.1 t ht).trans hcurrent, by decide +kernel⟩

end Kernel

end DiscouNT.Ke
