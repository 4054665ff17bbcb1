import DiscouNT.Lib.Dependency

/-!
# Io.Service

The service manager of `kernel/io/service.c`: `ServiceManagerStart` walks the dependencies of every
boot-, system- and auto-start service depth first and calls the start routine on the way back.

* `service_start_one` recurses through the states it writes, so the model takes fuel; `none` says
  that it ran out. `serviceManagerStart_returns` shows that one more than the number of services is
  always enough.
* The start routine is any function of the descriptor it is given, of what `ServiceManagerGetState`
  answers at that moment and of its context.
* `calls` records the calls of the start routine, latest first; the code has no such field.
-/

namespace DiscouNT.Io

open Lib

inductive ServiceStartType where
  | bootStart
  | systemStart
  | autoStart
  | demandStart
deriving DecidableEq, Repr

inductive ServiceState where
  | stopped
  | startPending
  | running
  | failed
deriving DecidableEq, Repr

structure ServiceDescriptor where
  name : String
  startType : ServiceStartType
  dependencies : List String
deriving DecidableEq, Repr

/-- A `SERVICE_START_ROUTINE`: the descriptor it points at, by position and by contents, then
`ServiceManagerGetState` as it answers during the call, then the context. -/
abbrev StartRoutine (σ : Type) : Type :=
  Nat → ServiceDescriptor → (String → ServiceState) → σ → Bool × σ

/-- A call of the start routine and the states it was made in. -/
structure StartCall (n : Nat) where
  index : Fin n
  state : Fin n → ServiceState

structure Runtime (n : Nat) (σ : Type) where
  state : Fin n → ServiceState
  context : σ
  calls : List (StartCall n)

namespace Runtime

variable {n : Nat} {σ : Type}

def set (r : Runtime n σ) (index : Fin n) (s : ServiceState) : Runtime n σ :=
  { r with state := Function.update r.state index s }

def called (r : Runtime n σ) (index : Fin n) (context : σ) : Runtime n σ :=
  { r with context, calls := ⟨index, r.state⟩ :: r.calls }

@[simp] theorem set_state (r : Runtime n σ) (i j : Fin n) (s : ServiceState) :
    (r.set i s).state j = if j = i then s else r.state j := by
  simp [set, Function.update_apply]

@[simp] theorem set_calls (r : Runtime n σ) (i : Fin n) (s : ServiceState) :
    (r.set i s).calls = r.calls := rfl

@[simp] theorem called_state (r : Runtime n σ) (i : Fin n) (c : σ) :
    (r.called i c).state = r.state := rfl

@[simp] theorem called_calls (r : Runtime n σ) (i : Fin n) (c : σ) :
    (r.called i c).calls = ⟨i, r.state⟩ :: r.calls := rfl

end Runtime

variable {σ : Type}

/-- `service_index`: the first descriptor of that name, `none` for -1. The kernel manages 4 GiB of
memory, which holds fewer than 2^31 descriptors, so the cast to `int` keeps every position. -/
def serviceIndex (services : List ServiceDescriptor) (name : String) :
    Option (Fin services.length) :=
  services.findFinIdx? fun s => decide (s.name = name)

def serviceManagerGetState (services : List ServiceDescriptor)
    (state : Fin services.length → ServiceState) (name : String) : ServiceState :=
  match serviceIndex services name with
  | none => .stopped
  | some index => state index

/-- The loop of `service_start_one` over the dependencies, `startOne` for the recursive call. -/
def startDependencies (services : List ServiceDescriptor)
    (startOne : Fin services.length → Runtime services.length σ →
      Option (Bool × Runtime services.length σ)) :
    List String → Runtime services.length σ → Option (Bool × Runtime services.length σ)
  | [], r => some (true, r)
  | name :: rest, r =>
    match serviceIndex services name with
    | none => some (false, r)
    | some dependency =>
      match startOne dependency r with
      | none => none
      | some (false, r) => some (false, r)
      | some (true, r) => startDependencies services startOne rest r

def serviceStartOne (services : List ServiceDescriptor) (start : StartRoutine σ) :
    Nat → Fin services.length → Runtime services.length σ →
      Option (Bool × Runtime services.length σ)
  | 0, _, _ => none
  | fuel + 1, index, r =>
    match r.state index with
    | .running => some (true, r)
    | .startPending => some (false, r.set index .failed)
    | .failed => some (false, r)
    | .stopped =>
      let service := services.get index
      match startDependencies services (serviceStartOne services start fuel)
        service.dependencies (r.set index .startPending) with
      | none => none
      | some (false, r) => some (false, r.set index .failed)
      | some (true, r) =>
        match start index service (serviceManagerGetState services r.state) r.context with
        | (false, context) => some (false, (r.called index context).set index .failed)
        | (true, context) => some (true, (r.called index context).set index .running)

/-- The inner loop of `ServiceManagerStart`: the services of one start type, in array order. -/
def startPhase (services : List ServiceDescriptor) (start : StartRoutine σ) (fuel : Nat)
    (type : ServiceStartType) :
    List (Fin services.length) → Runtime services.length σ → Option (Runtime services.length σ)
  | [], r => some r
  | i :: rest, r =>
    if (services.get i).startType = type then
      match serviceStartOne services start fuel i r with
      | none => none
      | some (_, r) => startPhase services start fuel type rest r
    else startPhase services start fuel type rest r

def startPhases (services : List ServiceDescriptor) (start : StartRoutine σ) (fuel : Nat) :
    List ServiceStartType → Runtime services.length σ → Option (Runtime services.length σ)
  | [], r => some r
  | type :: rest, r =>
    match startPhase services start fuel type (List.finRange services.length) r with
    | none => none
    | some r => startPhases services start fuel rest r

def startedTypes : List ServiceStartType := [.bootStart, .systemStart, .autoStart]

/-- The outcome of `ServiceManagerStart`: `refused` for a return value of 0. -/
inductive StartResult (n : Nat) (σ : Type) where
  | refused
  | started (r : Runtime n σ)

/-- `ServiceManagerStart`; `allocated` says whether `kmalloc` returned a table. -/
def serviceManagerStart (services : List ServiceDescriptor) (start : StartRoutine σ)
    (fuel : Nat) (allocated : Bool) (context : σ) : Option (StartResult services.length σ) :=
  if services.length = 0 then some .refused
  else if allocated = false then some .refused
  else
    match startPhases services start fuel startedTypes ⟨fun _ => .stopped, context, []⟩ with
    | none => none
    | some r => some (.started r)

section Walk

variable {services : List ServiceDescriptor} {start : StartRoutine σ}

def needs (services : List ServiceDescriptor) (i : Fin services.length) :
    List (Option (Fin services.length)) :=
  (services.get i).dependencies.map (serviceIndex services)

def StartsOne (services : List ServiceDescriptor) (start : StartRoutine σ)
    (i : Fin services.length) (r : Runtime services.length σ) (b : Bool)
    (r' : Runtime services.length σ) : Prop :=
  ∃ fuel, serviceStartOne services start fuel i r = some (b, r')

def StartsAll (services : List ServiceDescriptor) (start : StartRoutine σ)
    (names : List String) (r : Runtime services.length σ) (b : Bool)
    (r' : Runtime services.length σ) : Prop :=
  ∃ fuel, startDependencies services (serviceStartOne services start fuel) names r = some (b, r')

/-- A rule for the two loops of the walk: `P` speaks of `service_start_one`, `Q` of the rest of the
dependencies of a service. -/
structure WalkRule (services : List ServiceDescriptor) (start : StartRoutine σ)
    (P : Fin services.length → Runtime services.length σ → Bool → Runtime services.length σ → Prop)
    (Q : Fin services.length → List String → Runtime services.length σ → Bool →
      Runtime services.length σ → Prop) : Prop where
  running : ∀ {i r}, r.state i = .running → P i r true r
  cycle : ∀ {i r}, r.state i = .startPending → P i r false (r.set i .failed)
  failed : ∀ {i r}, r.state i = .failed → P i r false r
  blocked : ∀ {i r r'}, r.state i = .stopped →
    StartsAll services start (services.get i).dependencies (r.set i .startPending) false r' →
    Q i (services.get i).dependencies (r.set i .startPending) false r' →
    P i r false (r'.set i .failed)
  called : ∀ {i r r' b context}, r.state i = .stopped →
    StartsAll services start (services.get i).dependencies (r.set i .startPending) true r' →
    Q i (services.get i).dependencies (r.set i .startPending) true r' →
    start i (services.get i) (serviceManagerGetState services r'.state) r'.context
      = (b, context) →
    P i r b ((r'.called i context).set i (if b then .running else .failed))
  done : ∀ {i r}, Q i [] r true r
  missing : ∀ {i name rest r}, serviceIndex services name = none → Q i (name :: rest) r false r
  refused : ∀ {i name rest d r r'}, serviceIndex services name = some d →
    StartsOne services start d r false r' → P d r false r' → Q i (name :: rest) r false r'
  next : ∀ {i name rest d r r' b r''}, serviceIndex services name = some d →
    StartsOne services start d r true r' → P d r true r' →
    StartsAll services start rest r' b r'' → Q i rest r' b r'' → Q i (name :: rest) r b r''

variable
  {P : Fin services.length → Runtime services.length σ → Bool → Runtime services.length σ → Prop}
  {Q : Fin services.length → List String → Runtime services.length σ → Bool →
    Runtime services.length σ → Prop}

theorem WalkRule.dependencies (rule : WalkRule services start P Q) {fuel : Nat}
    (ih : ∀ i r b r', serviceStartOne services start fuel i r = some (b, r') → P i r b r') :
    ∀ names i r b r', startDependencies services (serviceStartOne services start fuel) names r
      = some (b, r') → Q i names r b r' := by
  intro names
  induction names with
  | nil =>
    intro i r b r' h
    cases h
    exact rule.done
  | cons name rest ihn =>
    intro i r b r' h
    simp only [startDependencies] at h
    cases hd : serviceIndex services name with
    | none =>
      rw [hd] at h
      cases h
      exact rule.missing hd
    | some d =>
      rw [hd] at h
      dsimp only at h
      rcases h1 : serviceStartOne services start fuel d r with _ | ⟨b1, r1⟩
      · rw [h1] at h
        cases h
      · rw [h1] at h
        have hp := ih d r b1 r1 h1
        cases b1 with
        | false =>
          cases h
          exact rule.refused hd ⟨fuel, h1⟩ hp
        | true => exact rule.next hd ⟨fuel, h1⟩ hp ⟨fuel, h⟩ (ihn i r1 b r' h)

theorem WalkRule.startOne (rule : WalkRule services start P Q) {i : Fin services.length}
    {r r' : Runtime services.length σ} {b : Bool} (h : StartsOne services start i r b r') :
    P i r b r' := by
  obtain ⟨fuel, h⟩ := h
  induction fuel generalizing i r b r' with
  | zero => cases h
  | succ fuel ih =>
    simp only [serviceStartOne] at h
    cases hs : r.state i with
    | running =>
      rw [hs] at h
      cases h
      exact rule.running hs
    | startPending =>
      rw [hs] at h
      cases h
      exact rule.cycle hs
    | failed =>
      rw [hs] at h
      cases h
      exact rule.failed hs
    | stopped =>
      rw [hs] at h
      dsimp only at h
      rcases h1 : startDependencies services (serviceStartOne services start fuel)
        (services.get i).dependencies (r.set i .startPending) with _ | ⟨b1, r1⟩
      · rw [h1] at h
        cases h
      · rw [h1] at h
        have hq := rule.dependencies (fun i r b r' => ih) _ i _ _ _ h1
        cases b1 with
        | false =>
          cases h
          exact rule.blocked hs ⟨fuel, h1⟩ hq
        | true =>
          dsimp only at h
          rcases h2 : start i (services.get i) (serviceManagerGetState services r1.state)
            r1.context with ⟨b2, context⟩
          rw [h2] at h
          cases b2 with
          | false =>
            cases h
            exact rule.called hs ⟨fuel, h1⟩ hq h2
          | true =>
            cases h
            exact rule.called hs ⟨fuel, h1⟩ hq h2

/-- How the state of a service may differ after calls of `service_start_one` that have returned:
nothing is left pending that was not pending before. -/
def ServiceState.Moves : ServiceState → ServiceState → Prop
  | .stopped, s => s ≠ .startPending
  | .startPending, s => s = .startPending ∨ s = .failed
  | .running, s => s = .running
  | .failed, s => s = .failed

theorem ServiceState.Moves.refl (s : ServiceState) : s.Moves s := by
  cases s <;> simp [ServiceState.Moves]

theorem ServiceState.Moves.trans {s t u : ServiceState} (h₁ : s.Moves t) (h₂ : t.Moves u) :
    s.Moves u := by
  cases s <;> cases t <;> simp_all [ServiceState.Moves]

theorem ServiceState.Moves.of_stopped {s t : ServiceState} (h : s.Moves t) (ht : t = .stopped) :
    s = .stopped := by
  cases s <;> simp_all [ServiceState.Moves]

/-- What `service_start_one` does to the states: it settles service `i`, and a success leaves the
services that wait for it pending. -/
structure Settles {n : Nat} (i : Fin n) (r : Runtime n σ) (b : Bool) (r' : Runtime n σ) : Prop where
  moves : ∀ j, (r.state j).Moves (r'.state j)
  settled : r'.state i = if b then .running else .failed
  waiting : b = true → ∀ j, r.state j = .startPending → r'.state j = .startPending

structure Supplies (services : List ServiceDescriptor) (names : List String)
    (r : Runtime services.length σ) (b : Bool) (r' : Runtime services.length σ) : Prop where
  moves : ∀ j, (r.state j).Moves (r'.state j)
  supplied : b = true → ∀ name ∈ names, ∃ d, serviceIndex services name = some d ∧
    r'.state d = .running
  waiting : b = true → ∀ j, r.state j = .startPending → r'.state j = .startPending

theorem moves_of_set {n : Nat} {i : Fin n} {r r' : Runtime n σ} {s : ServiceState}
    (hs : r.state i = .stopped) (hne : s ≠ .startPending)
    (h : ∀ j, ((r.set i .startPending).state j).Moves (r'.state j)) (j : Fin n) :
    (r.state j).Moves ((r'.set i s).state j) := by
  by_cases hj : j = i
  · subst hj
    simp [hs, ServiceState.Moves, hne]
  · have := h j
    simpa [hj] using this

theorem settles_rule : WalkRule services start Settles (fun _ => Supplies services) where
  running hs := ⟨fun j => .refl _, by simp [hs], fun _ _ hj => hj⟩
  cycle {i r} hs := by
    refine ⟨fun j => ?_, by simp, by simp⟩
    by_cases hj : j = i
    · subst hj
      simp [hs, ServiceState.Moves]
    · simpa [hj] using ServiceState.Moves.refl _
  failed hs := ⟨fun j => .refl _, by simp [hs], by simp⟩
  blocked hs _ hq := ⟨moves_of_set hs (by simp) hq.moves, by simp, by simp⟩
  called {i r r' b context} hs _ hq _ := by
    refine ⟨?_, by simp, fun _ j hj => ?_⟩
    · refine @moves_of_set _ _ _ _ (r'.called i context) _ hs ?_ hq.moves
      cases b <;> simp
    · have hne : j ≠ i := by
        rintro rfl
        rw [hs] at hj
        cases hj
      have := hq.waiting rfl j (by simpa [hne] using hj)
      simpa [hne] using this
  done := ⟨fun j => .refl _, by simp, fun _ _ hj => hj⟩
  missing _ := ⟨fun j => .refl _, by simp, by simp⟩
  refused _ _ hp := ⟨hp.moves, by simp, by simp⟩
  next {i name rest d r r' b r''} hd _ hp _ hq := by
    refine ⟨fun j => (hp.moves j).trans (hq.moves j), fun hb n hn => ?_, fun hb j hj => ?_⟩
    · rcases List.mem_cons.mp hn with rfl | hn
      · refine ⟨d, hd, ?_⟩
        -- the dependency was running when its turn came, and stays so
        have hrun : r'.state d = .running := by simpa using hp.settled
        have hmove := hq.moves d
        rw [hrun] at hmove
        exact hmove
      · exact hq.supplied hb n hn
    · exact hq.waiting hb j (hp.waiting rfl j hj)

theorem StartsOne.settles {i : Fin services.length} {r r' : Runtime services.length σ} {b : Bool}
    (h : StartsOne services start i r b r') : Settles i r b r' :=
  settles_rule.startOne h

theorem StartsAll.supplies {names : List String} {r r' : Runtime services.length σ} {b : Bool}
    (h : StartsAll services start names r b r') (i : Fin services.length) :
    Supplies services names r b r' := by
  obtain ⟨fuel, h⟩ := h
  exact settles_rule.dependencies (fun _ _ _ _ hp => StartsOne.settles ⟨fuel, hp⟩) _ i _ _ _ h

def stoppedCount {n : Nat} (r : Runtime n σ) : Nat :=
  (Finset.univ.filter fun i => r.state i = .stopped).card

theorem stoppedCount_le {n : Nat} {r r' : Runtime n σ}
    (h : ∀ j, (r.state j).Moves (r'.state j)) : stoppedCount r' ≤ stoppedCount r := by
  refine Finset.card_le_card fun j hj => ?_
  simp only [Finset.mem_filter, Finset.mem_univ, true_and] at hj ⊢
  exact (h j).of_stopped hj

theorem stoppedCount_set {n : Nat} {r : Runtime n σ} {i : Fin n} (h : r.state i = .stopped) :
    stoppedCount (r.set i .startPending) < stoppedCount r := by
  refine Finset.card_lt_card ?_
  refine Finset.ssubset_iff_of_subset (fun j hj => ?_) |>.mpr ⟨i, by simp [h], by simp⟩
  simp only [Finset.mem_filter, Finset.mem_univ, true_and, Runtime.set_state] at hj ⊢
  split at hj
  · cases hj
  · exact hj

theorem stoppedCount_le_length {n : Nat} (r : Runtime n σ) : stoppedCount r ≤ n := by
  refine le_trans (Finset.card_le_univ _) ?_
  simp

theorem startDependencies_returns {fuel : Nat}
    (ih : ∀ i r, stoppedCount r < fuel →
      ∃ b r', serviceStartOne services start fuel i r = some (b, r')) :
    ∀ names r, stoppedCount r < fuel →
      ∃ b r', startDependencies services (serviceStartOne services start fuel) names r
        = some (b, r') := by
  intro names
  induction names with
  | nil => exact fun r _ => ⟨true, r, rfl⟩
  | cons name rest ihn =>
    intro r hr
    simp only [startDependencies]
    cases hd : serviceIndex services name with
    | none => exact ⟨false, r, rfl⟩
    | some d =>
      obtain ⟨b, r', h⟩ := ih d r hr
      simp only [h]
      cases b with
      | false => exact ⟨false, r', rfl⟩
      | true =>
        have hle := stoppedCount_le (StartsOne.settles ⟨fuel, h⟩).moves
        exact ihn r' (lt_of_le_of_lt hle hr)

theorem serviceStartOne_returns (start : StartRoutine σ) (fuel : Nat) :
    ∀ i r, stoppedCount r < fuel →
      ∃ b r', serviceStartOne services start fuel i r = some (b, r') := by
  induction fuel with
  | zero => exact fun _ _ h => absurd h (Nat.not_lt_zero _)
  | succ fuel ih =>
    intro i r hr
    simp only [serviceStartOne]
    cases hs : r.state i with
    | running => exact ⟨_, _, rfl⟩
    | startPending => exact ⟨_, _, rfl⟩
    | failed => exact ⟨_, _, rfl⟩
    | stopped =>
      have hlt := stoppedCount_set hs
      obtain ⟨b, r', h⟩ := startDependencies_returns ih (services.get i).dependencies
        (r.set i .startPending) (by omega)
      simp only [h]
      cases b with
      | false => exact ⟨_, _, rfl⟩
      | true =>
        dsimp only
        rcases start i (services.get i) (serviceManagerGetState services r'.state)
          r'.context with ⟨b, context⟩
        cases b <;> exact ⟨_, _, rfl⟩

theorem startDependencies_mono {f g : Fin services.length → Runtime services.length σ →
      Option (Bool × Runtime services.length σ)}
    (h : ∀ i r x, f i r = some x → g i r = some x) :
    ∀ names r x, startDependencies services f names r = some x →
      startDependencies services g names r = some x := by
  intro names
  induction names with
  | nil => exact fun _ _ hx => hx
  | cons name rest ih =>
    intro r x hx
    simp only [startDependencies] at hx ⊢
    cases hd : serviceIndex services name with
    | none =>
      rw [hd] at hx
      exact hx
    | some d =>
      rw [hd] at hx
      dsimp only at hx ⊢
      rcases h1 : f d r with _ | ⟨b, r1⟩
      · rw [h1] at hx
        cases hx
      · rw [h1] at hx
        rw [h d r _ h1]
        cases b with
        | false => exact hx
        | true => exact ih r1 x hx

theorem serviceStartOne_mono {fuel : Nat} :
    ∀ i r x, serviceStartOne services start fuel i r = some x →
      serviceStartOne services start (fuel + 1) i r = some x := by
  induction fuel with
  | zero => exact fun _ _ _ h => nomatch h
  | succ fuel ih =>
    intro i r x h
    rw [serviceStartOne] at h ⊢
    cases hs : r.state i with
    | running => rw [hs] at h; exact h
    | startPending => rw [hs] at h; exact h
    | failed => rw [hs] at h; exact h
    | stopped =>
      rw [hs] at h
      dsimp only at h ⊢
      rcases h1 : startDependencies services (serviceStartOne services start fuel)
        (services.get i).dependencies (r.set i .startPending) with _ | y
      · rw [h1] at h
        cases h
      · rw [h1] at h
        rw [startDependencies_mono ih _ _ _ h1]
        exact h

/-! ## Phases -/

def startOrder (services : List ServiceDescriptor) (types : List ServiceStartType) :
    List (Fin services.length) :=
  types.flatMap fun type =>
    (List.finRange services.length).filter fun i => (services.get i).startType = type

theorem mem_startOrder {types : List ServiceStartType} {i : Fin services.length} :
    i ∈ startOrder services types ↔ (services.get i).startType ∈ types := by
  simp [startOrder]

inductive Walks (services : List ServiceDescriptor) (start : StartRoutine σ) :
    List (Fin services.length) → Runtime services.length σ → Runtime services.length σ →
      Prop where
  | nil {r : Runtime services.length σ} : Walks services start [] r r
  | cons {i : Fin services.length} {rest : List (Fin services.length)}
      {r r' r'' : Runtime services.length σ} {b : Bool} : StartsOne services start i r b r' →
      Walks services start rest r' r'' → Walks services start (i :: rest) r r''

theorem Walks.append {l l' : List (Fin services.length)} {r r' r'' : Runtime services.length σ}
    (h : Walks services start l r r') (h' : Walks services start l' r' r'') :
    Walks services start (l ++ l') r r'' := by
  induction h with
  | nil => exact h'
  | cons hi _ ih => exact .cons hi (ih h')

theorem serviceStartOne_total (start : StartRoutine σ) (i : Fin services.length)
    (r : Runtime services.length σ) :
    ∃ b r', ∀ fuel, services.length < fuel →
      serviceStartOne services start fuel i r = some (b, r') := by
  obtain ⟨b, r', h⟩ := serviceStartOne_returns start (services.length + 1) i r
    (Nat.lt_succ_of_le (stoppedCount_le_length r))
  refine ⟨b, r', fun fuel hfuel => ?_⟩
  induction fuel, hfuel using Nat.le_induction with
  | base => exact h
  | succ fuel _ ih => exact serviceStartOne_mono i r _ ih

theorem startPhase_total (start : StartRoutine σ) (type : ServiceStartType) :
    ∀ (l : List (Fin services.length)) (r : Runtime services.length σ),
      ∃ r', (∀ fuel, services.length < fuel → startPhase services start fuel type l r = some r') ∧
        Walks services start (l.filter fun i => (services.get i).startType = type) r r' := by
  intro l
  induction l with
  | nil => exact fun r => ⟨r, fun _ _ => rfl, .nil⟩
  | cons i rest ih =>
    intro r
    by_cases hi : (services.get i).startType = type
    · obtain ⟨b, r1, h1⟩ := serviceStartOne_total start i r
      obtain ⟨r', h', hw⟩ := ih r1
      refine ⟨r', fun fuel hfuel => ?_, ?_⟩
      · simp only [startPhase, if_pos hi, h1 fuel hfuel]
        exact h' fuel hfuel
      · rw [List.filter_cons_of_pos (by simpa using hi)]
        exact .cons ⟨_, h1 _ (Nat.lt_succ_self _)⟩ hw
    · obtain ⟨r', h', hw⟩ := ih r
      refine ⟨r', fun fuel hfuel => ?_, ?_⟩
      · simp only [startPhase, if_neg hi]
        exact h' fuel hfuel
      · rw [List.filter_cons_of_neg (by simpa using hi)]
        exact hw

theorem startPhases_total (start : StartRoutine σ) :
    ∀ (types : List ServiceStartType) (r : Runtime services.length σ),
      ∃ r', (∀ fuel, services.length < fuel → startPhases services start fuel types r = some r') ∧
        Walks services start (startOrder services types) r r' := by
  intro types
  induction types with
  | nil => exact fun r => ⟨r, fun _ _ => rfl, .nil⟩
  | cons type rest ih =>
    intro r
    obtain ⟨r1, h1, hw1⟩ := startPhase_total start type (List.finRange _) r
    obtain ⟨r', h', hw'⟩ := ih r1
    refine ⟨r', fun fuel hfuel => ?_, hw1.append hw'⟩
    simp only [startPhases, h1 fuel hfuel]
    exact h' fuel hfuel

def freshRuntime (n : Nat) (context : σ) : Runtime n σ := ⟨fun _ => .stopped, context, []⟩

/-- `ServiceManagerStart` returns, and its result does not depend on the fuel. -/
theorem serviceManagerStart_returns (services : List ServiceDescriptor) (start : StartRoutine σ)
    (allocated : Bool) (context : σ) :
    ∃ result, (∀ fuel, services.length < fuel →
        serviceManagerStart services start fuel allocated context = some result) ∧
      ∀ r, result = .started r →
        Walks services start (startOrder services startedTypes)
          (freshRuntime services.length context) r := by
  by_cases hn : services.length = 0
  · exact ⟨.refused, fun _ _ => by simp [serviceManagerStart, hn], fun _ h => nomatch h⟩
  cases allocated with
  | false => exact ⟨.refused, fun _ _ => by simp [serviceManagerStart], fun _ h => nomatch h⟩
  | true =>
    obtain ⟨r, h, hw⟩ := startPhases_total start startedTypes
      (freshRuntime services.length context)
    refine ⟨.started r, fun fuel hfuel => ?_, fun r' hr' => ?_⟩
    · have := h fuel hfuel
      simp only [freshRuntime] at this
      simp [serviceManagerStart, hn, this]
    · cases hr'
      exact hw

theorem serviceManagerStart_started {fuel : Nat} {context : σ}
    {result : StartResult services.length σ} (hn : services.length ≠ 0)
    (h : serviceManagerStart services start fuel true context = some result) :
    ∃ r, result = .started r := by
  simp only [serviceManagerStart, if_neg hn] at h
  cases hp : startPhases services start fuel startedTypes
      ⟨fun _ => .stopped, context, []⟩ with
  | none =>
    rw [hp] at h
    cases h
  | some r =>
    rw [hp] at h
    cases h
    exact ⟨r, rfl⟩

end Walk

end DiscouNT.Io
