import DiscouNT.Io.ServiceRuns

/-!
# Io.ServiceOrder

When the outcome of the start routine depends on the service alone, the states that
`ServiceManagerStart` leaves are a property of the dependency graph, not of the order in which the
walk met the services.

* A service ends `running` or `failed` exactly when the walk demands it, and then by whether it is
  `Startable` (`Walks.verdict`).
* Both notions survive a permutation of the descriptor array (`serviceManagerStart_perm`).
-/

namespace DiscouNT.Io

open Lib List

variable {σ : Type} {services : List ServiceDescriptor} {start : StartRoutine σ}
  {ok : ServiceDescriptor → Bool}

def OutcomeOf (start : StartRoutine σ) (ok : ServiceDescriptor → Bool) : Prop :=
  ∀ index service view context, (start index service view context).1 = ok service

abbrev Startable (services : List ServiceDescriptor) (ok : ServiceDescriptor → Bool)
    (i : Fin services.length) : Prop :=
  Grounded (needs services) (fun i => ok (services.get i) = true) i

abbrev Wanted (services : List ServiceDescriptor) (ok : ServiceDescriptor → Bool)
    (i : Fin services.length) : Prop :=
  Demanded (needs services) (fun i => (services.get i).startType ∈ startedTypes)
    (Startable services ok) i

def Visited (services : List ServiceDescriptor) (ok : ServiceDescriptor → Bool)
    (needed : List (Option (Fin services.length))) (r : Runtime services.length σ) : Prop :=
  ∀ before d after, needed = before ++ some d :: after →
    (∀ t ∈ before, ∃ c, t = some c ∧ Startable services ok c) → r.state d ≠ .stopped

structure Judged (services : List ServiceDescriptor) (ok : ServiceDescriptor → Bool)
    (r : Runtime services.length σ) : Prop where
  running : ∀ i, r.state i = .running → Startable services ok i
  failed : ∀ i, r.state i = .failed → ¬ Startable services ok i

theorem Judged.set {r : Runtime services.length σ} {i : Fin services.length} {s : ServiceState}
    (h : Judged services ok r) (hrun : s = .running → Startable services ok i)
    (hfail : s = .failed → ¬ Startable services ok i) : Judged services ok (r.set i s) := by
  constructor
  · intro j hj
    rw [Runtime.set_state] at hj
    split at hj
    · rename_i hji
      rw [hji]
      exact hrun hj
    · exact h.running j hj
  · intro j hj
    rw [Runtime.set_state] at hj
    split at hj
    · rename_i hji
      rw [hji]
      exact hfail hj
    · exact h.failed j hj

theorem not_stopped_of_moves {s t : ServiceState} (h : s.Moves t) (hs : s ≠ .stopped) :
    t ≠ .stopped := fun ht => hs (h.of_stopped ht)

theorem Visited.moves {needed : List (Option (Fin services.length))}
    {r r' : Runtime services.length σ} (h : Visited services ok needed r)
    (hm : ∀ j, (r.state j).Moves (r'.state j)) : Visited services ok needed r' :=
  fun before d after hd hb => not_stopped_of_moves (hm d) (h before d after hd hb)

def Explored (services : List ServiceDescriptor) (ok : ServiceDescriptor → Bool)
    (i : Fin services.length) (r r' : Runtime services.length σ) : Prop :=
  ∀ j, r.state j = .stopped → r'.state j ≠ .stopped →
    Visited services ok (needs services j) r' ∧ (Wanted services ok i → Wanted services ok j)

/-- `service_start_one` is right about `i`, given that all pending services wait for `i`. -/
def Judges (services : List ServiceDescriptor) (ok : ServiceDescriptor → Bool)
    (i : Fin services.length) (r : Runtime services.length σ) (_ : Bool)
    (r' : Runtime services.length σ) : Prop :=
  (∀ p, r.state p = .startPending → Relation.TransGen (Depends (needs services)) p i) →
    Judged services ok r → Judged services ok r' ∧ Explored services ok i r r'

/-- The same for the dependencies `names` that are left of service `i`. -/
def JudgesAll (services : List ServiceDescriptor) (ok : ServiceDescriptor → Bool)
    (i : Fin services.length) (names : List String) (r : Runtime services.length σ) (b : Bool)
    (r' : Runtime services.length σ) : Prop :=
  (∀ p, r.state p = .startPending → Relation.ReflTransGen (Depends (needs services)) p i) →
    (∃ before, needs services i = before ++ names.map (serviceIndex services) ∧
      ∀ t ∈ before, ∃ c, t = some c ∧ Startable services ok c) →
    Judged services ok r →
      Judged services ok r' ∧ Explored services ok i r r' ∧
      Visited services ok (names.map (serviceIndex services)) r' ∧
      (b = false → ¬ Startable services ok i)

section Steps

variable {r r' r'' : Runtime services.length σ} {i : Fin services.length}

theorem Visited.set {needed : List (Option (Fin services.length))} {s : ServiceState}
    (h : Visited services ok needed r) (hs : s ≠ .stopped) :
    Visited services ok needed (r.set i s) := by
  intro before d after hd hb
  rw [Runtime.set_state]
  split
  · exact hs
  · exact h before d after hd hb

theorem explored_refl : Explored services ok i r r := fun _ hj hj' => absurd hj hj'

theorem Explored.settle {s : ServiceState} (h : Explored services ok i (r.set i .startPending) r')
    (hv : Visited services ok (needs services i) r') (hs : s ≠ .stopped) :
    Explored services ok i r (r'.set i s) := by
  intro j hj hj'
  by_cases hji : j = i
  · subst hji
    exact ⟨hv.set hs, id⟩
  · obtain ⟨hvj, hw⟩ := h j (by simpa [hji] using hj) (by simpa [hji] using hj')
    exact ⟨hvj.set hs, hw⟩

theorem Explored.trans {d : Fin services.length} (h : Explored services ok d r r')
    (h' : Explored services ok i r' r'') (hm : ∀ j, (r'.state j).Moves (r''.state j))
    (hd : Wanted services ok i → Wanted services ok d) : Explored services ok i r r'' := by
  intro j hj hj'
  by_cases hmid : r'.state j = .stopped
  · exact h' j hmid hj'
  · obtain ⟨hv, hw⟩ := h j hj hmid
    exact ⟨hv.moves hm, fun hi => hw (hd hi)⟩

theorem pending_of_moves {s t : ServiceState} (h : s.Moves t) (ht : t = .startPending) :
    s = .startPending := by
  cases s <;> simp_all [ServiceState.Moves]

theorem startable_of_supplied (h : Judged services ok r)
    (hsup : ∀ name ∈ (services.get i).dependencies,
      ∃ d, serviceIndex services name = some d ∧ r.state d = .running)
    (hok : ok (services.get i) = true) : Startable services ok i := by
  refine .intro hok ?_ fun d hd => ?_
  · intro hmem
    obtain ⟨name, hname, hnone⟩ := mem_map.mp hmem
    obtain ⟨d, hd, _⟩ := hsup name hname
    rw [hd] at hnone
    cases hnone
  · obtain ⟨name, hname, hsome⟩ := mem_map.mp hd
    obtain ⟨d', hd', hrun⟩ := hsup name hname
    rw [hd'] at hsome
    cases hsome
    exact h.running _ hrun

theorem waits_of_set (h : ∀ p, r.state p = .startPending →
      Relation.TransGen (Depends (needs services)) p i) (p : Fin services.length)
    (hp : (r.set i .startPending).state p = .startPending) :
    Relation.ReflTransGen (Depends (needs services)) p i := by
  rw [Runtime.set_state] at hp
  split at hp
  · rename_i hpi
    rw [hpi]
  · exact (h p hp).to_reflTransGen

end Steps

theorem judges_rule (hstart : OutcomeOf start ok) :
    WalkRule services start (Judges services ok) (JudgesAll services ok) where
  running _ _ h := ⟨h, explored_refl⟩
  cycle {i r} hs hwait h := by
    -- the service is pending below itself, so it lies on a cycle
    have hbad : ¬ Startable services ok i := fun hg => hg.not_cycle (hwait i hs)
    refine ⟨h.set (by simp) fun _ => hbad, fun j hj hj' => ?_⟩
    by_cases hji : j = i
    · rw [hji, hs] at hj
      cases hj
    · exact absurd hj (by simpa [hji] using hj')
  failed _ _ h := ⟨h, explored_refl⟩
  blocked {i r r'} hs _ hq hwait h := by
    have hpend : Judged services ok (r.set i .startPending) := h.set (by simp) (by simp)
    obtain ⟨hj, hex, hv, hbad⟩ := hq (waits_of_set hwait) ⟨[], rfl, by simp⟩ hpend
    exact ⟨hj.set (by simp) fun _ => hbad rfl, hex.settle hv (by simp)⟩
  called {i r r' b context} hs hall hq hcall hwait h := by
    have hpend : Judged services ok (r.set i .startPending) := h.set (by simp) (by simp)
    obtain ⟨hj, hex, hv, _⟩ := hq (waits_of_set hwait) ⟨[], rfl, by simp⟩ hpend
    have hb : ok (services.get i) = b := by
      have := hstart i (services.get i) (serviceManagerGetState services r'.state) r'.context
      rw [hcall] at this
      exact this.symm
    have hjc : Judged services ok (r'.called i context) := ⟨hj.running, hj.failed⟩
    have hexc : Explored services ok i (r.set i .startPending) (r'.called i context) := hex
    refine ⟨hjc.set (fun hrun => ?_) (fun hfail hg => ?_), hexc.settle hv ?_⟩
    · refine startable_of_supplied hj ((hall.supplies i).supplied rfl) ?_
      cases b with
      | false => cases hrun
      | true => exact hb
    · have hok := hg.isOk
      rw [hb] at hok
      subst hok
      cases hfail
    · cases b <;> simp
  done {i r} _ _ h := by
    refine ⟨h, explored_refl, fun before d after hd _ => ?_, by simp⟩
    simp at hd
  missing {i name rest r} hnone _ hneeds h := by
    obtain ⟨before, hneeds, _⟩ := hneeds
    refine ⟨h, explored_refl, fun before d after hd hb => ?_, fun _ hg => ?_⟩
    · rw [map_cons, hnone] at hd
      cases before with
      | nil => cases hd
      | cons t before =>
        obtain ⟨rfl, _⟩ := List.cons.inj hd
        obtain ⟨c, hc, _⟩ := hb none mem_cons_self
        cases hc
    · refine hg.provided ?_
      rw [hneeds, map_cons, hnone]
      simp
  refused {i name rest d r r'} hd hone hp hwait hneeds h := by
    obtain ⟨before, hneeds, hbefore⟩ := hneeds
    have hid : Depends (needs services) i d := by
      show some d ∈ needs services i
      rw [hneeds, map_cons, hd]
      simp
    obtain ⟨hj, hex⟩ := hp (fun p hpp => Relation.TransGen.tail' (hwait p hpp) hid) h
    have hfail : r'.state d = .failed := by simpa using hone.settles.settled
    have hbad := hj.failed d hfail
    refine ⟨hj, fun j hj1 hj2 => ?_, fun before' e after he hb => ?_,
      fun _ hg => hbad (hg.need hid)⟩
    · obtain ⟨hvj, hw⟩ := hex j hj1 hj2
      refine ⟨hvj, fun hi => hw ?_⟩
      rw [map_cons, hd] at hneeds
      exact .need hi hneeds hbefore
    · rw [map_cons, hd] at he
      cases before' with
      | nil =>
        cases he
        rw [hfail]
        simp
      | cons t before' =>
        obtain ⟨rfl, _⟩ := List.cons.inj he
        obtain ⟨c, hc, hgood⟩ := hb (some d) mem_cons_self
        cases hc
        exact absurd hgood hbad
  next {i name rest d r r' b r''} hd hone hp hall hq hwait hneeds h := by
    obtain ⟨before, hneeds, hbefore⟩ := hneeds
    rw [map_cons, hd] at hneeds
    have hid : Depends (needs services) i d := by
      show some d ∈ needs services i
      rw [hneeds]
      simp
    obtain ⟨hj, hex⟩ := hp (fun p hpp => Relation.TransGen.tail' (hwait p hpp) hid) h
    have hset := hone.settles
    have hrun : r'.state d = .running := by simpa using hset.settled
    have hgood := hj.running d hrun
    have hwait' : ∀ p, r'.state p = .startPending →
        Relation.ReflTransGen (Depends (needs services)) p i :=
      fun p hpp => hwait p (pending_of_moves (hset.moves p) hpp)
    obtain ⟨hj', hex', hv', hbad⟩ := hq hwait'
      ⟨before ++ [some d], by simp [hneeds], fun t ht => by
        rcases mem_append.mp ht with ht | ht
        · exact hbefore t ht
        · exact ⟨d, mem_singleton.mp ht, hgood⟩⟩ hj
    have hmoves := (hall.supplies i).moves
    refine ⟨hj', hex.trans hex' hmoves fun hi => .need hi hneeds hbefore,
      fun before' e after he hb => ?_, hbad⟩
    rw [map_cons, hd] at he
    cases before' with
    | nil =>
      cases he
      exact not_stopped_of_moves (hmoves d) (by simp [hrun])
    | cons t before' =>
      obtain ⟨_, he⟩ := List.cons.inj he
      exact hv' before' e after he fun t ht => hb t (mem_cons_of_mem _ ht)

/-- Between two calls from `ServiceManagerStart`: nothing is pending, and all that was visited was
wanted and is fully explored. -/
structure Settled (services : List ServiceDescriptor) (ok : ServiceDescriptor → Bool)
    (r : Runtime services.length σ) : Prop where
  idle : ∀ i, r.state i ≠ .startPending
  judged : Judged services ok r
  visited : ∀ i, r.state i ≠ .stopped → Visited services ok (needs services i) r
  wanted : ∀ i, r.state i ≠ .stopped → Wanted services ok i

theorem settled_fresh (services : List ServiceDescriptor) (ok : ServiceDescriptor → Bool)
    (context : σ) : Settled services ok (freshRuntime services.length context) := by
  refine ⟨?_, ⟨?_, ?_⟩, ?_, ?_⟩ <;> simp [freshRuntime]

theorem Settled.startOne {r r' : Runtime services.length σ} {i : Fin services.length} {b : Bool}
    (h : Settled services ok r) (hstart : OutcomeOf start ok) (hi : Wanted services ok i)
    (hone : StartsOne services start i r b r') : Settled services ok r' := by
  have hset := hone.settles
  obtain ⟨hj, hex⟩ := (judges_rule hstart).startOne hone
    (fun p hp => absurd hp (h.idle p)) h.judged
  refine ⟨fun j hjp => h.idle j (pending_of_moves (hset.moves j) hjp), hj, fun j hj' => ?_,
    fun j hj' => ?_⟩
  · by_cases hold : r.state j = .stopped
    · exact (hex j hold hj').1
    · exact (h.visited j hold).moves hset.moves
  · by_cases hold : r.state j = .stopped
    · exact (hex j hold hj').2 hi
    · exact h.wanted j hold

theorem Walks.settled {l : List (Fin services.length)} {r r' : Runtime services.length σ}
    (hw : Walks services start l r r') (hstart : OutcomeOf start ok)
    (hl : ∀ i ∈ l, Wanted services ok i) (h : Settled services ok r) :
    Settled services ok r' ∧ ∀ i ∈ l, r'.state i ≠ .stopped := by
  induction hw with
  | nil => exact ⟨h, by simp⟩
  | @cons i rest r r1 r' b hone hrest ih =>
    have h1 := h.startOne hstart (hl i mem_cons_self) hone
    obtain ⟨hr', hvisited⟩ := ih (fun j hj => hl j (mem_cons_of_mem _ hj)) h1
    refine ⟨hr', fun j hj => ?_⟩
    rcases mem_cons.mp hj with rfl | hj
    · refine not_stopped_of_moves (hrest.moves j) ?_
      rw [hone.settles.settled]
      cases b <;> simp
    · exact hvisited j hj

theorem Walks.verdict {r : Runtime services.length σ} {context : σ}
    (hw : Walks services start (startOrder services startedTypes)
      (freshRuntime services.length context) r) (hstart : OutcomeOf start ok) :
    Settled services ok r ∧ ∀ i, r.state i ≠ .stopped ↔ Wanted services ok i := by
  obtain ⟨h, hroots⟩ := hw.settled hstart
    (fun i hi => .root (mem_startOrder.mp hi)) (settled_fresh services ok context)
  refine ⟨h, fun i => ⟨h.wanted i, fun hi => ?_⟩⟩
  induction hi with
  | root hi => exact hroots _ (mem_startOrder.mpr hi)
  | need _ hd hb ih => exact h.visited _ ih _ _ _ hd hb

theorem Settled.state_eq {services' : List ServiceDescriptor} {r : Runtime services.length σ}
    {r' : Runtime services'.length σ} {i : Fin services.length} {j : Fin services'.length}
    (h : Settled services ok r) (h' : Settled services' ok r')
    (hvisited : r.state i ≠ .stopped ↔ r'.state j ≠ .stopped)
    (hgood : Startable services ok i ↔ Startable services' ok j) : r.state i = r'.state j := by
  cases hs : r.state i with
  | startPending => exact absurd hs (h.idle i)
  | stopped =>
    by_contra hne
    exact (hvisited.mpr (Ne.symm hne)) hs
  | running =>
    have hj : r'.state j ≠ .stopped := hvisited.mp (by simp [hs])
    have hg := hgood.mp (h.judged.running i hs)
    cases hs' : r'.state j with
    | startPending => exact absurd hs' (h'.idle j)
    | stopped => exact absurd hs' hj
    | running => rfl
    | failed => exact absurd hg (h'.judged.failed j hs')
  | failed =>
    have hj : r'.state j ≠ .stopped := hvisited.mp (by simp [hs])
    have hg : ¬ Startable services' ok j := fun hg => h.judged.failed i hs (hgood.mpr hg)
    cases hs' : r'.state j with
    | startPending => exact absurd hs' (h'.idle j)
    | stopped => exact absurd hs' hj
    | running => exact absurd (h'.judged.running j hs') hg
    | failed => rfl

theorem name_of_serviceIndex {name : String} {i : Fin services.length}
    (h : serviceIndex services name = some i) : (services.get i).name = name := by
  have := (findFinIdx?_eq_some_iff.mp h).1
  simpa using this

theorem not_mem_of_serviceIndex {name : String} (h : serviceIndex services name = none)
    {s : ServiceDescriptor} (hs : s ∈ services) : s.name ≠ name := by
  have hne := findFinIdx?_eq_none_iff.mp h s hs
  simpa using hne

section Names

variable (hnames : (services.map ServiceDescriptor.name).Nodup)
include hnames

theorem index_of_name {i j : Fin services.length}
    (h : (services.get i).name = (services.get j).name) : i = j := by
  have hlen : ∀ k : Fin services.length,
      (services.get k).name = (services.map ServiceDescriptor.name).get
        ⟨k, by simp⟩ := by
    intro k
    simp
  rw [hlen i, hlen j] at h
  have := nodup_iff_injective_get.mp hnames h
  exact Fin.ext (by simpa using this)

theorem serviceIndex_eq_some {name : String} {i : Fin services.length} :
    serviceIndex services name = some i ↔ (services.get i).name = name := by
  constructor
  · exact name_of_serviceIndex
  · intro h
    cases hd : serviceIndex services name with
    | none => exact absurd h (not_mem_of_serviceIndex hd (get_mem ..))
    | some j =>
      have hij : (services.get j).name = (services.get i).name := by
        rw [h, name_of_serviceIndex hd]
      rw [index_of_name hnames hij]

end Names

def NameDepends (services : List ServiceDescriptor) (a b : String) : Prop :=
  ∃ s ∈ services, s.name = a ∧ b ∈ s.dependencies

theorem nameDepends_of_depends {i j : Fin services.length} (h : Depends (needs services) i j) :
    NameDepends services (services.get i).name (services.get j).name := by
  obtain ⟨name, hname, hj⟩ := mem_map.mp h
  rw [name_of_serviceIndex hj]
  exact ⟨services.get i, get_mem .., rfl, hname⟩

section Startable

variable (hnames : (services.map ServiceDescriptor.name).Nodup)
include hnames

theorem get_of_name {s : ServiceDescriptor} (hs : s ∈ services) {i : Fin services.length}
    (h : s.name = (services.get i).name) : s = services.get i := by
  obtain ⟨j, rfl⟩ := get_of_mem hs
  rw [index_of_name hnames h]

theorem depends_of_nameDepends {i : Fin services.length} {b : String}
    (hi : Startable services ok i) (h : NameDepends services (services.get i).name b) :
    ∃ j, (services.get j).name = b ∧ Depends (needs services) i j := by
  obtain ⟨s, hs, hsi, hb⟩ := h
  rw [get_of_name hnames hs hsi] at hb
  have hmem : serviceIndex services b ∈ needs services i := mem_map.mpr ⟨b, hb, rfl⟩
  cases hd : serviceIndex services b with
  | none =>
    rw [hd] at hmem
    exact absurd hmem hi.provided
  | some j =>
    rw [hd] at hmem
    exact ⟨j, name_of_serviceIndex hd, hmem⟩

theorem path_of_names {i : Fin services.length} {b : String} (hi : Startable services ok i)
    (h : Relation.TransGen (NameDepends services) (services.get i).name b) :
    ∃ j, (services.get j).name = b ∧ Relation.TransGen (Depends (needs services)) i j := by
  induction h with
  | single h =>
    obtain ⟨j, hj, hd⟩ := depends_of_nameDepends hnames hi h
    exact ⟨j, hj, .single hd⟩
  | tail _ hbc ih =>
    obtain ⟨j, rfl, hpath⟩ := ih
    obtain ⟨k, hk, hd⟩ := depends_of_nameDepends hnames
      (hi.reaches hpath.to_reflTransGen) hbc
    exact ⟨k, hk, hpath.tail hd⟩

theorem startable_iff (i : Fin services.length) :
    Startable services ok i ↔
      ∀ b, Relation.ReflTransGen (NameDepends services) (services.get i).name b →
        (∃ t ∈ services, t.name = b ∧ ok t = true) ∧
        ¬ Relation.TransGen (NameDepends services) b b := by
  constructor
  · intro hi b hb
    have hj : ∃ j, (services.get j).name = b ∧ Startable services ok j := by
      rcases Relation.reflTransGen_iff_eq_or_transGen.mp hb with rfl | hb
      · exact ⟨i, rfl, hi⟩
      · obtain ⟨j, hj, hpath⟩ := path_of_names hnames hi hb
        exact ⟨j, hj, hi.reaches hpath.to_reflTransGen⟩
    obtain ⟨j, rfl, hgood⟩ := hj
    refine ⟨⟨services.get j, get_mem .., rfl, hgood.isOk⟩, fun hcycle => ?_⟩
    obtain ⟨k, hk, hpath⟩ := path_of_names hnames hgood hcycle
    rw [index_of_name hnames hk] at hpath
    exact hgood.not_cycle hpath
  · intro h
    refine grounded_of_reaches fun j hj => ?_
    have hreach : Relation.ReflTransGen (NameDepends services) (services.get i).name
        (services.get j).name :=
      Relation.ReflTransGen.lift (fun k => (services.get k).name)
        (fun _ _ hd => nameDepends_of_depends hd) _ _ hj
    obtain ⟨⟨t, ht, htj, hok⟩, hcycle⟩ := h _ hreach
    rw [get_of_name hnames ht htj] at hok
    refine ⟨hok, fun hnone => ?_, fun hc => hcycle ?_⟩
    · obtain ⟨name, hname, hnone⟩ := mem_map.mp hnone
      obtain ⟨⟨t, ht, hta, _⟩, _⟩ := h name
        (hreach.tail ⟨services.get j, get_mem .., rfl, hname⟩)
      exact not_mem_of_serviceIndex hnone ht hta
    · exact Relation.TransGen.lift (fun k => (services.get k).name)
        (fun _ _ hd => nameDepends_of_depends hd) _ _ hc

end Startable

/-! ## Permutations -/

section Perm

variable {services' : List ServiceDescriptor}
  {f : Fin services.length → Fin services'.length}

section

variable (hnames' : (services'.map ServiceDescriptor.name).Nodup)
include hnames'

theorem serviceIndex_map
    (hperm : services'.Perm services) (hf : ∀ i, services'.get (f i) = services.get i)
    (name : String) : serviceIndex services' name = (serviceIndex services name).map f := by
  cases hd : serviceIndex services name with
  | none =>
    cases hd' : serviceIndex services' name with
    | none => rfl
    | some j =>
      have hmem : services'.get j ∈ services := hperm.mem_iff.mp (get_mem ..)
      exact absurd (name_of_serviceIndex hd') (not_mem_of_serviceIndex hd hmem)
  | some i =>
    refine (serviceIndex_eq_some hnames').mpr ?_
    rw [hf i]
    exact name_of_serviceIndex hd

theorem needs_map (hperm : services'.Perm services) (hf : ∀ i, services'.get (f i) = services.get i)
    (i : Fin services.length) :
    needs services' (f i) = (needs services i).map (Option.map f) := by
  rw [needs, needs, hf i, map_map]
  refine map_congr_left fun name _ => ?_
  exact serviceIndex_map hnames' hperm hf name

theorem wanted_map
    (hperm : services'.Perm services) (hf : ∀ i, services'.get (f i) = services.get i)
    (i : Fin services.length) : Wanted services' ok (f i) ↔ Wanted services ok i := by
  have hdeps := needs_map hnames' hperm hf
  have hgood : ∀ j, Startable services' ok (f j) ↔ Startable services ok j := fun j =>
    Grounded.map_iff hdeps (fun k => by rw [hf k]) j
  have hnames : (services.map ServiceDescriptor.name).Nodup := (hperm.map _).nodup_iff.mp hnames'
  constructor
  · intro h
    -- every position of the new array comes from one of the old
    have hsurj : ∀ j : Fin services'.length, ∃ k, f k = j := by
      intro j
      obtain ⟨k, hk⟩ := get_of_mem (hperm.mem_iff.mp (get_mem services' j))
      refine ⟨k, index_of_name hnames' ?_⟩
      rw [hf k, hk]
    obtain ⟨k, hk, hw⟩ := Demanded.of_map hdeps
      (fun j hj => by
        obtain ⟨k, rfl⟩ := hsurj j
        rw [hf k] at hj
        exact ⟨k, rfl, hj⟩)
      (fun j => (hgood j).mp) h
    have hki : k = i := by
      refine index_of_name hnames ?_
      rw [← hf k, ← hf i, hk]
    rw [← hki]
    exact hw
  · intro h
    exact Demanded.map hdeps (fun k hk => by rw [hf k]; exact hk) (fun j => (hgood j).mpr) h

end

/-- The state of every name after `ServiceManagerStart` is the same for every order of the
descriptors, and a service that starts by itself runs exactly when everything it reaches exists,
lies on no cycle and starts. -/
theorem serviceManagerStart_perm (services services' : List ServiceDescriptor)
    (start : StartRoutine σ) (ok : ServiceDescriptor → Bool) (hstart : OutcomeOf start ok)
    (hnames : (services.map ServiceDescriptor.name).Nodup) (hperm : services'.Perm services)
    (allocated : Bool) (context : σ) :
    ∃ result result',
      (∀ fuel, services.length < fuel →
        serviceManagerStart services start fuel allocated context = some result) ∧
      (∀ fuel, services'.length < fuel →
        serviceManagerStart services' start fuel allocated context = some result') ∧
      ∀ r r', result = .started r → result' = .started r' →
        (∀ name, serviceManagerGetState services' r'.state name =
          serviceManagerGetState services r.state name) ∧
        ∀ s ∈ services, s.startType ∈ startedTypes →
          (serviceManagerGetState services r.state s.name = .running ↔
            ∀ b, Relation.ReflTransGen (NameDepends services) s.name b →
              (∃ t ∈ services, t.name = b ∧ ok t = true) ∧
              ¬ Relation.TransGen (NameDepends services) b b) := by
  obtain ⟨result, hret, hwalk⟩ := serviceManagerStart_returns services start allocated context
  obtain ⟨result', hret', hwalk'⟩ := serviceManagerStart_returns services' start allocated context
  refine ⟨result, result', hret, hret', fun r r' hr hr' => ?_⟩
  obtain ⟨hset, hvis⟩ := (hwalk r hr).verdict hstart
  obtain ⟨hset', hvis'⟩ := (hwalk' r' hr').verdict hstart
  have hnames' : (services'.map ServiceDescriptor.name).Nodup := (hperm.map _).nodup_iff.mpr hnames
  refine ⟨fun name => ?_, fun s hs htype => ?_⟩
  · have hex : ∀ i : Fin services.length, ∃ j, services'.get j = services.get i := fun i =>
      get_of_mem (hperm.mem_iff.mpr (get_mem services i))
    choose f hf using hex
    rw [serviceManagerGetState, serviceManagerGetState, serviceIndex_map hnames' hperm hf]
    cases serviceIndex services name with
    | none => rfl
    | some i =>
      refine (hset.state_eq hset' ?_ ?_).symm
      · rw [hvis i, hvis' (f i), wanted_map hnames' hperm hf i]
      · exact (Grounded.map_iff (needs_map hnames' hperm hf) (fun k => by rw [hf k]) i).symm
  · obtain ⟨i, rfl⟩ := get_of_mem hs
    rw [serviceManagerGetState, (serviceIndex_eq_some hnames).mpr rfl, ← startable_iff hnames i]
    refine ⟨hset.judged.running i, fun hgood => ?_⟩
    have hne := (hvis i).mpr (.root htype)
    cases hstate : r.state i with
    | stopped => exact absurd hstate hne
    | startPending => exact absurd hstate (hset.idle i)
    | running => exact hstate
    | failed => exact absurd hgood (hset.judged.failed i hstate)

/-- A disk that does not start, before and after the file system that needs it. -/
theorem serviceManagerStart_perm_disk :
    ∃ r r',
      serviceManagerStart [⟨"fs", .autoStart, ["disk"]⟩, ⟨"disk", .demandStart, []⟩]
        (fun _ s _ _ => (decide (s.name ≠ "disk"), ())) 3 true () = some (.started r) ∧
      serviceManagerStart [⟨"disk", .demandStart, []⟩, ⟨"fs", .autoStart, ["disk"]⟩]
        (fun _ s _ _ => (decide (s.name ≠ "disk"), ())) 3 true () = some (.started r') ∧
      ∀ name,
        serviceManagerGetState [⟨"disk", .demandStart, []⟩, ⟨"fs", .autoStart, ["disk"]⟩]
            r'.state name =
          serviceManagerGetState [⟨"fs", .autoStart, ["disk"]⟩, ⟨"disk", .demandStart, []⟩]
            r.state name := by
  obtain ⟨result, result', hret, hret', h⟩ := serviceManagerStart_perm
    [⟨"fs", .autoStart, ["disk"]⟩, ⟨"disk", .demandStart, []⟩]
    [⟨"disk", .demandStart, []⟩, ⟨"fs", .autoStart, ["disk"]⟩]
    (fun _ s _ _ => (decide (s.name ≠ "disk"), ())) (fun s => decide (s.name ≠ "disk"))
    (fun _ _ _ _ => rfl) (by decide) (List.Perm.swap ..) true ()
  have hres := hret 3 (by decide)
  have hres' := hret' 3 (by decide)
  obtain ⟨r, rfl⟩ := serviceManagerStart_started (by decide) hres
  obtain ⟨r', rfl⟩ := serviceManagerStart_started (by decide) hres'
  exact ⟨r, r', hres, hres', (h r r' rfl rfl).1⟩

end Perm

end DiscouNT.Io
