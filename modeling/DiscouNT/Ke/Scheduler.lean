import DiscouNT.Arch
import DiscouNT.Lib.Chain

/-!
# Ke.Scheduler

The cooperative scheduler of `kernel/core/ke.c`: the intrusive list `ready_queue` and
`KeSelectNextThread`, which `KeYield` calls to find the thread to resume.

* Threads are addresses, 0 is null, and the queue is followed through the `next` fields.
* The loops take fuel; `none` says that it ran out.
* `keSelectNextThread_fair` is the main result: the scan finds the first ready thread after the
  current one in cyclic order, and round robin follows from that.
-/

namespace DiscouNT.Ke

open Lib List

inductive ThreadState where
  | ready
  | running
  | waiting
  | terminated
deriving DecidableEq, Repr

/-- The fields of `THREAD` that the scheduler and the thread objects use. -/
structure Thread where
  handle : Nat
  state : ThreadState
  stack : Nat
  next : Nat
deriving DecidableEq, Repr

/-- The statics of `ke.c`, with the `THREAD` records by address. -/
structure Scheduler where
  threads : Nat → Thread
  currentThread : Nat
  readyQueue : Nat
  schedulerTicks : Nat

namespace Scheduler

def next (s : Scheduler) (t : Nat) : Nat := (s.threads t).next

def state (s : Scheduler) (t : Nat) : ThreadState := (s.threads t).state

def setState (s : Scheduler) (t : Nat) (v : ThreadState) : Scheduler :=
  { s with threads := Function.update s.threads t { s.threads t with state := v } }

def setNext (s : Scheduler) (t v : Nat) : Scheduler :=
  { s with threads := Function.update s.threads t { s.threads t with next := v } }

@[simp] theorem setState_state (s : Scheduler) (t u : Nat) (v : ThreadState) :
    (s.setState t v).state u = if u = t then v else s.state u := by
  by_cases h : u = t
  · subst h
    simp [state, setState]
  · simp [state, setState, h]

@[simp] theorem setState_next (s : Scheduler) (t : Nat) (v : ThreadState) :
    (s.setState t v).next = s.next := by
  funext u
  by_cases h : u = t
  · subst h
    simp [next, setState]
  · simp [next, setState, h]

end Scheduler

def queueTail (s : Scheduler) : Nat → Nat → Option Nat
  | 0, _ => none
  | fuel + 1, tail => if s.next tail = 0 then some tail else queueTail s fuel (s.next tail)

def keAppendReadyThread (fuel thread : Nat) (s : Scheduler) : Option Scheduler :=
  if thread = 0 then some s
  else
    let s := s.setNext thread 0
    if s.readyQueue = 0 then some { s with readyQueue := thread }
    else
      match queueTail s fuel s.readyQueue with
      | none => none
      | some tail => some (s.setNext tail thread)

/-- Where the scan of `KeSelectNextThread` goes from `scan`. -/
def scanNext (s : Scheduler) (scan : Nat) : Nat :=
  if s.next scan = 0 ∧ s.currentThread ≠ s.readyQueue then s.readyQueue else s.next scan

def selectScan (s : Scheduler) : Nat → Nat → Option Nat
  | 0, _ => none
  | fuel + 1, scan =>
    if scan = 0 then some 0
    else if scan ≠ s.currentThread ∧ s.state scan = .ready then some scan
    else
      let scan := scanNext s scan
      if scan = s.currentThread then some 0 else selectScan s fuel scan

def switchTo (next : Nat) (s : Scheduler) : Scheduler :=
  let s := if s.state s.currentThread = .running then s.setState s.currentThread .ready else s
  let s := { s with currentThread := next }
  let s := s.setState next .running
  { s with schedulerTicks := u32 (s.schedulerTicks + 1) }

/-- `KeSelectNextThread`: the address returned, and the statics after it. -/
def keSelectNextThread (fuel : Nat) (s : Scheduler) : Option (Nat × Scheduler) :=
  if s.currentThread = 0 then some (0, s)
  else
    let scan := if s.next s.currentThread ≠ 0 then s.next s.currentThread else s.readyQueue
    match selectScan s fuel scan with
    | none => none
    | some 0 => some (0, s)
    | some (n + 1) => some (n + 1, switchTo (n + 1) s)

section Scan

variable {s : Scheduler} {l : List Nat} {p e : Nat}

def Queue (s : Scheduler) (l : List Nat) : Prop := Chain s.next s.readyQueue l

def isReady (s : Scheduler) (t : Nat) : Bool := decide (s.state t = .ready)

theorem selectScan_seg (hseg : Seg (scanNext s) p l e) (he : e = 0 ∨ e = s.currentThread)
    (hl : ∀ t ∈ l, t ≠ 0 ∧ t ≠ s.currentThread) (hp : l = [] → p = 0) {fuel : Nat}
    (hfuel : l.length < fuel) : selectScan s fuel p = some ((l.find? (isReady s)).getD 0) := by
  induction l generalizing p fuel with
  | nil =>
    obtain ⟨fuel, rfl⟩ : ∃ f, fuel = f + 1 := ⟨fuel - 1, by omega⟩
    rw [hp rfl]
    rfl
  | cons a l ih =>
    obtain ⟨fuel, rfl⟩ : ∃ f, fuel = f + 1 := ⟨fuel - 1, by omega⟩
    obtain ⟨rfl, hseg⟩ := hseg
    obtain ⟨hp0, hpc⟩ := hl p mem_cons_self
    rw [selectScan, if_neg hp0]
    by_cases hr : s.state p = .ready
    · rw [if_pos ⟨hpc, hr⟩, find?_cons_of_pos (by simp [isReady, hr])]
      rfl
    · rw [if_neg (fun h => hr h.2), find?_cons_of_neg (by simp [isReady, hr])]
      have hrest : ∀ t ∈ l, t ≠ 0 ∧ t ≠ s.currentThread := fun t ht =>
        hl t (mem_cons_of_mem _ ht)
      dsimp only
      split
      · -- the scan is back at the current thread, so nothing is left
        rename_i hback
        cases l with
        | nil => rfl
        | cons b l => exact absurd (hseg.1.symm.trans hback) (hrest b mem_cons_self).2
      · rename_i hgo
        simp only [length_cons] at hfuel
        refine ih hseg hrest (fun hnil => ?_) (by omega)
        subst hnil
        have hend : scanNext s p = e := hseg
        rcases he with rfl | rfl
        · exact hend
        · exact absurd hend hgo

theorem seg_before (hseg : Seg s.next p l s.currentThread) (hl : ∀ t ∈ l, t ≠ 0)
    (hc : s.currentThread ≠ 0) : Seg (scanNext s) p l s.currentThread := by
  induction l generalizing p with
  | nil => exact hseg
  | cons a l ih =>
    obtain ⟨rfl, hseg⟩ := hseg
    have hne : s.next p ≠ 0 := by
      cases l with
      | nil =>
        have hend : s.next p = s.currentThread := hseg
        rw [hend]
        exact hc
      | cons b l =>
        rw [hseg.1]
        exact hl b (mem_cons_of_mem _ mem_cons_self)
    refine ⟨rfl, ?_⟩
    rw [scanNext, if_neg (fun h => hne h.1)]
    exact ih hseg fun t ht => hl t (mem_cons_of_mem _ ht)

theorem seg_after (hseg : Seg s.next p l 0) (hl : ∀ t ∈ l, t ≠ 0) (hne : l ≠ []) :
    Seg (scanNext s) p l (if s.currentThread ≠ s.readyQueue then s.readyQueue else 0) := by
  induction l generalizing p with
  | nil => exact absurd rfl hne
  | cons a l ih =>
    obtain ⟨rfl, hseg⟩ := hseg
    refine ⟨rfl, ?_⟩
    cases l with
    | nil =>
      have hend : s.next p = 0 := hseg
      simp only [Seg, scanNext, hend, true_and]
    | cons b l =>
      have hb : s.next p ≠ 0 := by
        rw [hseg.1]
        exact hl b (mem_cons_of_mem _ mem_cons_self)
      rw [scanNext, if_neg (fun h => hb h.1)]
      exact ih hseg (fun t ht => hl t (mem_cons_of_mem _ ht)) (by simp)

/-- The scan of `KeSelectNextThread` finds the first ready thread in cyclic order after the current
one, wherever that stands in the queue. -/
theorem selectScan_queue (hq : Queue s l) (hc : s.currentThread ∈ l) {fuel : Nat}
    (hfuel : l.length < fuel) :
    selectScan s fuel (if s.next s.currentThread ≠ 0 then s.next s.currentThread
      else s.readyQueue) = some (((after l s.currentThread).find? (isReady s)).getD 0) := by
  have hnd := hq.nodup
  obtain ⟨pre, post, rfl⟩ := append_of_mem hc
  have hc0 : s.currentThread ≠ 0 := hq.2 _ hc
  obtain ⟨q, hpre, rfl, hpost⟩ := seg_append_iff.mp hq.1
  have hlpre : ∀ t ∈ pre, t ≠ 0 := fun t ht => hq.2 t (mem_append_left _ ht)
  have hlpost : ∀ t ∈ post, t ≠ 0 := fun t ht =>
    hq.2 t (mem_append_right _ (mem_cons_of_mem _ ht))
  have hall : ∀ t ∈ post ++ pre, t ≠ 0 ∧ t ≠ s.currentThread := by
    rw [← after_eq (not_mem_before hnd)]
    intro t ht
    obtain ⟨htl, hne⟩ := (mem_after hnd hc).mp ht
    exact ⟨hq.2 t htl, hne⟩
  have hlen : (post ++ pre).length < fuel := by
    simp only [length_append, length_cons] at hfuel ⊢
    omega
  have hbefore := seg_before hpre hlpre hc0
  rw [after_eq (not_mem_before hnd)]
  cases post with
  | nil =>
    have hend : s.next s.currentThread = 0 := hpost
    rw [if_neg (by simp [hend])]
    cases pre with
    | nil =>
      -- the current thread is alone: the scan visits it once and stops at null
      have hhead : s.readyQueue = s.currentThread := hpre
      obtain ⟨fuel, rfl⟩ : ∃ f, fuel = f + 2 := ⟨fuel - 2, by simp at hfuel; omega⟩
      have hnext : scanNext s s.currentThread = 0 := by
        rw [scanNext, if_neg (fun h => h.2 hhead.symm)]
        exact hend
      rw [hhead, selectScan, if_neg hc0, if_neg (fun h => h.1 rfl), hnext]
      rw [if_neg (Ne.symm hc0), selectScan, if_pos rfl]
      rfl
    | cons a pre =>
      exact selectScan_seg hbefore (.inr rfl) hall (by simp) hlen
  | cons b post =>
    have hb : s.next s.currentThread ≠ 0 := by
      rw [hpost.1]
      exact hlpost b mem_cons_self
    rw [if_pos hb]
    have hafter := seg_after hpost hlpost (by simp)
    cases pre with
    | nil =>
      have hhead : s.readyQueue = s.currentThread := hpre
      rw [if_neg (fun h => h hhead.symm)] at hafter
      rw [append_nil] at hall hlen ⊢
      exact selectScan_seg hafter (.inl rfl) hall (by simp) hlen
    | cons a pre =>
      have hhead : s.currentThread ≠ s.readyQueue := by
        rw [hpre.1]
        exact fun h => not_mem_before hnd (h ▸ mem_cons_self)
      rw [if_pos hhead] at hafter
      exact selectScan_seg (hafter.append hbefore) (.inr rfl) hall (by simp) hlen

theorem switchTo_state (s : Scheduler) (p t : Nat) :
    (switchTo p s).state t = if t = p then .running
      else if t = s.currentThread ∧ s.state t = .running then .ready else s.state t := by
  have hset : (switchTo p s).state t =
      (Scheduler.setState { (if s.state s.currentThread = .running
        then s.setState s.currentThread .ready else s) with currentThread := p } p
          .running).state t := rfl
  rw [hset, Scheduler.setState_state]
  refine if_congr Iff.rfl rfl ?_
  by_cases hrun : s.state s.currentThread = .running
  · have hcur : (Scheduler.state { s.setState s.currentThread .ready with currentThread := p }
        t) = (s.setState s.currentThread .ready).state t := rfl
    rw [if_pos hrun, hcur, Scheduler.setState_state]
    by_cases ht : t = s.currentThread
    · rw [if_pos ht, if_pos ⟨ht, ht ▸ hrun⟩]
    · rw [if_neg ht, if_neg (fun h => ht h.1)]
  · rw [if_neg hrun]
    by_cases ht : t = s.currentThread ∧ s.state t = .running
    · exact absurd (ht.1 ▸ ht.2) hrun
    · rw [if_neg ht]
      rfl

theorem switchTo_next (s : Scheduler) (p : Nat) : (switchTo p s).next = s.next := by
  have hset : (switchTo p s).next =
      (Scheduler.setState { (if s.state s.currentThread = .running
        then s.setState s.currentThread .ready else s) with currentThread := p } p
          .running).next := rfl
  rw [hset, Scheduler.setState_next]
  by_cases hrun : s.state s.currentThread = .running
  · rw [if_pos hrun]
    exact Scheduler.setState_next s s.currentThread .ready
  · rw [if_neg hrun]
    rfl

theorem switchTo_readyQueue (s : Scheduler) (p : Nat) :
    (switchTo p s).readyQueue = s.readyQueue := by
  unfold switchTo
  dsimp only
  split <;> rfl

theorem Queue.switchTo (hq : Queue s l) (p : Nat) : Queue (switchTo p s) l := by
  unfold Queue
  rw [switchTo_next, switchTo_readyQueue]
  exact hq

theorem keSelectNextThread_eq (hq : Queue s l) (hc : s.currentThread ∈ l) {fuel : Nat}
    (hfuel : l.length < fuel) :
    keSelectNextThread fuel s =
      match (after l s.currentThread).find? (isReady s) with
      | none => some (0, s)
      | some p => some (p, switchTo p s) := by
  rw [keSelectNextThread, if_neg (hq.2 _ hc)]
  dsimp only
  rw [selectScan_queue hq hc hfuel]
  cases hfind : (after l s.currentThread).find? (isReady s) with
  | none => rfl
  | some p =>
    have hp : p ≠ 0 := hq.2 p ((mem_after hq.nodup hc).mp (mem_of_find?_eq_some hfind)).1
    obtain ⟨n, rfl⟩ := Nat.exists_eq_succ_of_ne_zero hp
    rfl

end Scan

/-! ## Switches -/

/-- The current thread runs, which may change the states of threads, and then `KeYield` switches to
another thread. -/
structure Switch (l : List Nat) (s m s' : Scheduler) : Prop where
  queue : Queue m l
  current : m.currentThread = s.currentThread
  switched : ∃ fuel p, p ≠ 0 ∧ l.length < fuel ∧ keSelectNextThread fuel m = some (p, s')

section Fairness

variable {l : List Nat} {s m s' : Scheduler} {t : Nat}

theorem Switch.progress (h : Switch l s m s') (hc : s.currentThread ∈ l) (ht : t ∈ l)
    (hne : t ≠ s.currentThread) (hready : m.state t = .ready) :
    s'.currentThread ∈ l ∧ (s'.currentThread = t ∨
      (after l s'.currentThread).idxOf t < (after l s.currentThread).idxOf t) := by
  obtain ⟨hq, hcur, fuel, p, hp, hfuel, hsel⟩ := h
  have hnd := hq.nodup
  have hcm : m.currentThread ∈ l := hcur ▸ hc
  rw [keSelectNextThread_eq hq hcm hfuel, hcur] at hsel
  have htafter : t ∈ after l s.currentThread := (mem_after hnd hc).mpr ⟨ht, hne⟩
  cases hfind : (after l s.currentThread).find? (isReady m) with
  | none =>
    have := find?_eq_none.mp hfind t htafter
    simp [isReady, hready] at this
  | some p' =>
    rw [hfind] at hsel
    cases hsel
    have hcur' : (switchTo p m).currentThread = p := rfl
    obtain ⟨_, before, rest, hsplit, hbefore⟩ := find?_eq_some_iff_append.mp hfind
    rw [hcur']
    refine ⟨((mem_after hnd hc).mp (mem_of_find?_eq_some hfind)).1, ?_⟩
    by_cases hpt : p = t
    · exact .inl hpt
    · right
      have htb : t ∉ before := by
        intro hmem
        have := hbefore t hmem
        simp [isReady, hready] at this
      have htr : t ∈ rest := by
        rw [hsplit] at htafter
        rcases mem_append.mp htafter with h | h
        · exact absurd h htb
        · exact (mem_cons.mp h).resolve_left (Ne.symm hpt)
      rw [after_rotate hnd hc hsplit, hsplit, idxOf_append_of_mem htr,
        idxOf_append_of_notMem htb, idxOf_cons_ne _ hpt]
      omega

/-- A thread that is ready until it is selected is selected after at most as many switches as there
are threads between the current one and it. -/
theorem selected_within {ss ms : Nat → Scheduler} {k : Nat}
    (hrun : ∀ i < k, Switch l (ss i) (ms i) (ss (i + 1))) (ht : t ∈ l)
    (hready : ∀ i < k, (∀ j ≤ i, (ss j).currentThread ≠ t) → (ms i).state t = .ready) :
    ∀ d i, (∀ j ≤ i, (ss j).currentThread ≠ t) → (ss i).currentThread ∈ l →
      (after l (ss i).currentThread).idxOf t < d → i + d ≤ k →
      ∃ i', i ≤ i' ∧ i' < i + d ∧ (ss (i' + 1)).currentThread = t := by
  intro d
  induction d with
  | zero => exact fun _ _ _ h _ => absurd h (Nat.not_lt_zero _)
  | succ d ih =>
    intro i hnot hc hd hk
    have hi : i < k := by omega
    obtain ⟨hc', hstep⟩ := (hrun i hi).progress hc ht (Ne.symm (hnot i le_rfl))
      (hready i hi hnot)
    rcases hstep with hsel | hlt
    · exact ⟨i, le_rfl, by omega, hsel⟩
    · by_cases hsel : (ss (i + 1)).currentThread = t
      · exact ⟨i, le_rfl, by omega, hsel⟩
      · have hnot' : ∀ j ≤ i + 1, (ss j).currentThread ≠ t := by
          intro j hj
          rcases Nat.lt_or_eq_of_le hj with hj | rfl
          · exact hnot j (by omega)
          · exact hsel
        obtain ⟨i', hi1, hi2, hsel'⟩ := ih (i + 1) hnot' hc' (by omega) (by omega)
        exact ⟨i', by omega, by omega, hsel'⟩

end Fairness

/-- `KeSelectNextThread` selects the first ready thread in cyclic order after the current one, or 0
if no other is ready; a thread that stays ready is selected within one switch less than there are
threads. -/
theorem keSelectNextThread_fair (l : List Nat) :
    (∀ s, Queue s l → s.currentThread ∈ l →
      (∀ t ∈ l, s.state t = .running → t = s.currentThread) →
      ∃ p s', (∀ fuel, l.length < fuel → keSelectNextThread fuel s = some (p, s')) ∧
        p = ((after l s.currentThread).find? (isReady s)).getD 0 ∧
        (p ≠ 0 → s'.currentThread = p ∧ s'.state p = .running) ∧
        ((p = 0 ∧ s' = s) ↔ ∀ t ∈ l, t ≠ s.currentThread → s.state t ≠ .ready) ∧
        (∀ t ∈ l, s'.state t = .running → t = s'.currentThread)) ∧
    ∀ (ss ms : Nat → Scheduler) (k t : Nat),
      (∀ i < k, Switch l (ss i) (ms i) (ss (i + 1))) → (ss 0).currentThread ∈ l → t ∈ l →
      t ≠ (ss 0).currentThread →
      (∀ i < k, (∀ j ≤ i, (ss j).currentThread ≠ t) → (ms i).state t = .ready) →
      l.length - 1 ≤ k →
      ∃ i < l.length - 1, (ss (i + 1)).currentThread = t := by
  constructor
  · intro s hq hc hrun
    have hnd := hq.nodup
    cases hfind : (after l s.currentThread).find? (isReady s) with
    | none =>
      have hnone := find?_eq_none.mp hfind
      refine ⟨0, s, fun fuel hfuel => ?_, rfl, fun h => absurd rfl h, ?_, hrun⟩
      · rw [keSelectNextThread_eq hq hc hfuel, hfind]
      · refine ⟨fun _ t ht hne => ?_, fun _ => ⟨rfl, rfl⟩⟩
        simpa [isReady] using hnone t ((mem_after hnd hc).mpr ⟨ht, hne⟩)
    | some p =>
      obtain ⟨hpl, hpc⟩ := (mem_after hnd hc).mp (mem_of_find?_eq_some hfind)
      have hpr : s.state p = .ready := by simpa [isReady] using find?_some hfind
      refine ⟨p, switchTo p s, fun fuel hfuel => ?_, rfl, fun _ => ⟨rfl, ?_⟩, ?_, ?_⟩
      · rw [keSelectNextThread_eq hq hc hfuel, hfind]
      · rw [switchTo_state, if_pos rfl]
      · exact ⟨fun h => absurd h.1 (hq.2 p hpl), fun h => absurd hpr (h p hpl hpc)⟩
      · intro t ht hstate
        rw [switchTo_state] at hstate
        split at hstate
        · assumption
        · rename_i htp
          split at hstate
          · cases hstate
          · rename_i hold
            exact absurd ⟨hrun t ht hstate, hstate⟩ hold
  · intro ss ms k t hrun hc ht hne hready hk
    cases hn : l.length - 1 with
    | zero =>
      -- a queue of one thread has nothing but the current one
      have hl : l.length ≤ 1 := by omega
      match l, hl with
      | [a], _ =>
        rw [mem_singleton] at hc ht
        exact absurd (ht.trans hc.symm) hne
    | succ n =>
      have hq := (hrun 0 (by omega)).queue
      have hmem : t ∈ after l (ss 0).currentThread := (mem_after hq.nodup hc).mpr ⟨ht, hne⟩
      have hidx := idxOf_lt_length_of_mem hmem
      have hlen := length_after hq.nodup hc
      obtain ⟨i, _, hi, hsel⟩ := selected_within hrun ht hready (n + 1) 0
        (fun j hj => by
          obtain rfl : j = 0 := by omega
          exact Ne.symm hne) hc (by omega) (by omega)
      exact ⟨i, by omega, hsel⟩

def sampleScheduler : Scheduler where
  threads t := if t = 1 then ⟨0, .running, 0, 2⟩ else if t = 2 then ⟨1, .terminated, 64, 3⟩
    else ⟨2, .ready, 128, 0⟩
  currentThread := 1
  readyQueue := 1
  schedulerTicks := 0

theorem sampleScheduler_queue : Queue sampleScheduler [1, 2, 3] := by
  refine ⟨⟨rfl, rfl, rfl, rfl⟩, ?_⟩
  decide

/-- The third thread is selected first, and then the first one again. -/
theorem keSelectNextThread_fair_sample :
    (∃ s', keSelectNextThread 4 sampleScheduler = some (3, s') ∧ s'.currentThread = 3) ∧
      ∃ i < 2, (if i = 0 then switchTo 3 sampleScheduler
        else switchTo 1 (switchTo 3 sampleScheduler)).currentThread = 3 := by
  have h := keSelectNextThread_fair [1, 2, 3]
  have hq := sampleScheduler_queue
  constructor
  · obtain ⟨p, s', hsel, hp, hcur, _, _⟩ := h.1 sampleScheduler hq (by decide) (by decide)
    have hp3 : p = 3 := by
      rw [hp]
      decide
    subst hp3
    exact ⟨s', hsel 4 (by decide), (hcur (by decide)).1⟩
  · obtain ⟨i, hi, hsel⟩ := h.2
      (fun i => if i = 0 then sampleScheduler else if i = 1 then switchTo 3 sampleScheduler
        else switchTo 1 (switchTo 3 sampleScheduler))
      (fun i => if i = 0 then sampleScheduler else switchTo 3 sampleScheduler) 2 3
      (fun i hi => by
        have hcases : i = 0 ∨ i = 1 := by omega
        rcases hcases with rfl | rfl
        · exact ⟨hq, rfl, 4, 3, by decide, by decide, rfl⟩
        · exact ⟨hq.switchTo 3, rfl, 4, 1, by decide, by decide, rfl⟩)
      (by decide) (by decide) (by decide)
      (fun i hi hnot => by
        have hcases : i = 0 ∨ i = 1 := by omega
        rcases hcases with rfl | rfl
        · rfl
        · exact absurd rfl (hnot 1 le_rfl))
      (by decide)
    refine ⟨i, hi, ?_⟩
    have hcases : i = 0 ∨ i = 1 := by
      simp at hi
      omega
    rcases hcases with rfl | rfl
    · exact hsel
    · exact hsel

end DiscouNT.Ke
