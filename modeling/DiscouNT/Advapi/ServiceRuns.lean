import DiscouNT.Advapi.Calls

/-!
# Advapi.ServiceRuns

The service manager over whole sequences of calls. What has happened is a trace of events, in which
a record stands for the service it was made for; `service_manager_iff` compares the database with
it.
-/

namespace DiscouNT.Advapi

open Lib List Function Option

/-- What a successful call does to a service, which is named by its record. -/
inductive Event where
  | created (i : Fin 32) (name : List UInt16)
  | deleted (i : Fin 32)
  | started (i : Fin 32)
  | stopped (i : Fin 32)
deriving DecidableEq, Repr

def events (σ : State) : Call → List Event
  | .createServiceW args =>
    match args.name, createServiceW σ args with
    | some name, some (some i, _) => [.created i name]
    | _, _ => []
  | .deleteService (some i) => if (σ.services.records i).used then [.deleted i] else []
  | .startServiceW (some i) => if (σ.services.records i).used then [.started i] else []
  | .controlService (some i) control =>
    if (σ.services.records i).used ∧ control = serviceControlStop then [.stopped i] else []
  | _ => []

def trace : List Call → State → List Event
  | [], _ => []
  | call :: calls, σ => events σ call ++ (step σ call).elim [] (trace calls)

/-- The service has been created with this name, and not been deleted since. -/
def Live (tr : List Event) (i : Fin 32) (name : List UInt16) : Prop :=
  .created i name ∈ tr ∧ .deleted i ∉ tr

def Event.stateOf (i : Fin 32) : Event → Option UInt32
  | .created j _ => if j = i then some serviceStopped else none
  | .started j => if j = i then some serviceRunning else none
  | .stopped j => if j = i then some serviceStopped else none
  | .deleted _ => none

def lastState (tr : List Event) (i : Fin 32) : Option UInt32 := (tr.filterMap (Event.stateOf i)).getLast?

structure Manager (σ : State) (tr : List Event) : Prop where
  single : ∀ i j name, Live tr i name → Live tr j name → i = j
  opened : ∀ name, (openServiceW σ (some name)).isSome = true ↔ ∃ i, Live tr i name
  recreated : ∀ args name, args.name = some name →
    (∃ i, .created i name ∈ tr ∧ .deleted i ∈ tr) → (∀ i, ¬ Live tr i name) →
      (List.finRange 32).countP (fun i => (σ.services.records i).used) < 32 →
        ∃ i σ', createServiceW σ args = some (some i, σ')
  status : ∀ i status, queryServiceStatus σ (some i) = some status →
    lastState tr i = some status.currentState

/-- A call that the database does not keep up with: a service with a name of 64 units or more is
created, or a service is deleted. -/
def Slip (σ : State) : Call → Prop
  | .createServiceW args => σ.services.count < 32 ∧ ∃ name, args.name = some name ∧ 64 ≤ name.length
  | .deleteService (some i) => (σ.services.records i).used = true
  | _ => False

section Names

variable {s : Services} {name : List UInt16} {i : Fin 32}

theorem serviceNameEqual_iff : ∀ {left : Nat} {a b : List UInt16}, a.length ≤ left →
    (serviceNameEqual left a b = true ↔ a = b) := by
  intro left
  induction left with
  | zero =>
    intro a b h
    rw [length_eq_zero_iff.mp (Nat.le_zero.mp h)]
    cases b <;> simp [serviceNameEqual]
  | succ left ih =>
    intro a b h
    cases a with
    | nil => cases b <;> simp [serviceNameEqual]
    | cons x a =>
      cases b with
      | nil => simp [serviceNameEqual]
      | cons y b =>
        rw [serviceNameEqual]
        by_cases hxy : x = y
        · rw [if_pos hxy, ih (by simpa using h), hxy]
          simp
        · simp [hxy]

def Short (s : Services) : Prop := ∀ i, (s.records i).name.length ≤ 63

theorem findService_some (hs : Short s) (h : findService s (some name) = some i) :
    i.val < s.count ∧ (s.records i).name = name := by
  have := firstSlot_some h
  simpa [serviceNameEqual_iff (hs i)] using this

theorem findService_eq_none (hs : Short s) :
    findService s (some name) = none ↔ ∀ i, i.val < s.count → (s.records i).name ≠ name := by
  simp only [findService, firstSlot_eq_none]
  refine forall_congr' fun i => ?_
  rw [Bool.and_eq_false_iff, decide_eq_false_iff_not, ← not_iff_not]
  simp [serviceNameEqual_iff (hs i)]

end Names

inductive Moves (s : Services) : List Event → Services → Prop
  | quiet : Moves s [] s
  | created {i : Fin 32} (name : List UInt16) (args : ServiceArgs) (hi : i.val = s.count)
      (hnone : findService s (some name) = none) :
      Moves s [.created i name]
        ⟨update s.records i ((s.records i).create name args), s.count + 1⟩
  | deleted {i : Fin 32} (hused : (s.records i).used = true) :
      Moves s [.deleted i]
        ⟨update s.records i { s.records i with used := false }, s.count⟩
  | started {i : Fin 32} (hused : (s.records i).used = true) :
      Moves s [.started i]
        ⟨update s.records i ((s.records i).setState serviceRunning), s.count⟩
  | stopped {i : Fin 32} (hused : (s.records i).used = true) :
      Moves s [.stopped i]
        ⟨update s.records i ((s.records i).setState serviceStopped), s.count⟩

section Steps

variable {σ σ' τ : State} {call : Call} {calls pre post : List Call} {args : ServiceArgs}

theorem createServiceW_cases {r : ScHandle × State} (h : createServiceW σ args = some r) :
    (r.1 = none ∧ r.2 = σ) ∨
      ∃ name i, args.name = some name ∧ i.val = σ.services.count ∧
        findService σ.services (some name) = none ∧ r.1 = some i ∧ r.2.services =
          ⟨update σ.services.records i ((σ.services.records i).create name args),
            σ.services.count + 1⟩ := by
  simp only [createServiceW] at h
  split at h
  · cases h
    exact .inl ⟨rfl, rfl⟩
  · rename_i name hname
    split at h
    · rename_i hlt
      split at h
      · cases h
        exact .inl ⟨rfl, rfl⟩
      · rename_i hnone
        rw [map_eq_some_iff] at h
        obtain ⟨registry, -, rfl⟩ := h
        exact .inr ⟨name, ⟨_, hlt⟩, hname, rfl, by simpa using hnone, rfl, rfl⟩
    · cases h
      exact .inl ⟨rfl, rfl⟩

theorem step_moves (hs : step σ call = some σ') : Moves σ.services (events σ call) σ'.services := by
  have hupdate : ∀ {service : ScHandle} {f : ServiceRecord → ServiceRecord} {i : Fin 32},
      service = some i → (σ.services.records i).used = true →
        (σ.updateService service f).2.services =
          ⟨update σ.services.records i (f (σ.services.records i)), σ.services.count⟩ := by
    rintro service f i rfl hused
    simp [State.updateService, hused]
  have hnone : ∀ {service : ScHandle} {f : ServiceRecord → ServiceRecord},
      (∀ i, service = some i → (σ.services.records i).used = false) →
        (σ.updateService service f).2 = σ := by
    intro service f h
    cases service with
    | none => rfl
    | some i => simp [State.updateService, h i rfl]
  cases call with
  | createServiceW args =>
    simp only [step, map_eq_some_iff] at hs
    obtain ⟨r, hr, rfl⟩ := hs
    rcases createServiceW_cases hr with ⟨hfail, heq⟩ | ⟨name, i, hname, hi, hnone, hok, heq⟩
    · have : events σ (.createServiceW args) = [] := by
        obtain ⟨r1, r2⟩ := r
        cases hfail
        simp only [events, hr]
        split
        · rename_i heq
          cases heq
        · rfl
      rw [this, heq]
      exact .quiet
    · have : events σ (.createServiceW args) = [.created i name] := by
        obtain ⟨r1, r2⟩ := r
        cases hok
        simp only [events, hr, hname]
      rw [this, heq]
      exact .created name args hi hnone
  | deleteService service =>
    cases hs
    rcases service with _ | i
    · exact .quiet
    · cases hused : (σ.services.records i).used
      · rw [deleteService, hnone (by simpa using hused)]
        simp only [events, hused]
        exact .quiet
      · rw [deleteService, hupdate rfl hused]
        simp only [events, hused]
        exact .deleted hused
  | startServiceW service =>
    cases hs
    rcases service with _ | i
    · exact .quiet
    · cases hused : (σ.services.records i).used
      · rw [startServiceW, hnone (by simpa using hused)]
        simp only [events, hused]
        exact .quiet
      · rw [startServiceW, hupdate rfl hused]
        simp only [events, hused]
        exact .started hused
  | controlService service control =>
    cases hs
    rcases service with _ | i
    · exact .quiet
    · cases hused : (σ.services.records i).used
      · rw [controlService, hnone (by simpa using hused)]
        simp only [events, hused]
        exact .quiet
      · rw [controlService, hupdate rfl hused]
        simp only [events, hused, true_and]
        by_cases hstop : control = serviceControlStop
        · rw [if_pos hstop, if_pos hstop]
          exact .stopped hused
        · rw [if_neg hstop, if_neg hstop, update_eq_self]
          exact .quiet
  | regOpenKeyExW hKey sub =>
    simp only [step, map_eq_some_iff] at hs
    obtain ⟨r, -, rfl⟩ := hs
    exact .quiet
  | regCreateKeyExW hKey sub =>
    simp only [step, map_eq_some_iff] at hs
    obtain ⟨r, -, rfl⟩ := hs
    exact .quiet
  | regQueryValueExW hKey name buffer cbData =>
    simp only [step, map_eq_some_iff] at hs
    obtain ⟨r, -, rfl⟩ := hs
    exact .quiet
  | regSetValueExW hKey name type data =>
    simp only [step, map_eq_some_iff] at hs
    obtain ⟨r, -, rfl⟩ := hs
    exact .quiet
  | regSetValueExA hKey name type data =>
    simp only [step, map_eq_some_iff] at hs
    obtain ⟨r, -, rfl⟩ := hs
    exact .quiet
  | regDeleteValueW hKey name =>
    cases hs
    exact .quiet
  | openServiceW name =>
    cases hs
    exact .quiet
  | queryServiceStatus service =>
    cases hs
    exact .quiet

theorem trace_append (h : run pre σ = some τ) : trace (pre ++ post) σ = trace pre σ ++ trace post τ := by
  induction pre generalizing σ with
  | nil =>
    cases h
    rfl
  | cons call pre ih =>
    obtain ⟨mid, hs, hrun⟩ := run_cons h
    simp only [cons_append, trace, hs, elim_some, append_assoc, ih hrun]

end Steps

/-- What a record says about the events of its service. -/
structure Tracked (count : Nat) (tr : List Event) (i : Fin 32) (r : ServiceRecord) : Prop where
  short : r.name.length ≤ 63
  record : i.val < count → ∃ name, .created i name ∈ tr
  created : ∀ name, .created i name ∈ tr → i.val < count ∧ r.name = name.take 63
  deleted : .deleted i ∈ tr → i.val < count
  used : r.used = true ↔ i.val < count ∧ .deleted i ∉ tr
  status : i.val < count → lastState tr i = some r.status.currentState

def Tracks (s : Services) (tr : List Event) : Prop := ∀ i, Tracked s.count tr i (s.records i)

def Event.service : Event → Fin 32
  | .created i _ => i
  | .deleted i => i
  | .started i => i
  | .stopped i => i

section Tracks

variable {s s' : Services} {σ σ' τ : State} {tr new : List Event} {i j : Fin 32} {calls : List Call}
  {count count' : Nat} {r : ServiceRecord} {e : Event} {state : UInt32}

theorem tracks_initial : Tracks .empty [] := fun i =>
  { short := Nat.zero_le _
    record := fun h => absurd h (Nat.not_lt_zero _)
    created := fun name h => by cases h
    deleted := fun h => by cases h
    used := by simp [Services.empty]
    status := fun h => absurd h (Nat.not_lt_zero _) }

theorem lastState_append (tr : List Event) (e : Event) (i : Fin 32) :
    lastState (tr ++ [e]) i = (e.stateOf i).or (lastState tr i) := by
  rw [lastState, lastState, filterMap_append]
  cases h : e.stateOf i <;> simp [h]

theorem Tracked.other (h : Tracked count tr j r) (hj : e.service ≠ j) (hcount : j.val < count' ↔ j.val < count) :
    Tracked count' (tr ++ [e]) j r := by
  have hcreated : ∀ name, .created j name ∈ tr ++ [e] ↔ .created j name ∈ tr := by
    intro name
    have : e ≠ .created j name := by
      rintro rfl
      exact hj rfl
    simp [Ne.symm this]
  have hdeleted : .deleted j ∈ tr ++ [e] ↔ .deleted j ∈ tr := by
    have : e ≠ .deleted j := by
      rintro rfl
      exact hj rfl
    simp [Ne.symm this]
  have hstate : e.stateOf j = none := by
    cases e <;> simp_all [Event.stateOf, Event.service]
  refine ⟨h.short, ?_, ?_, ?_, ?_, ?_⟩
  · simpa only [hcreated, hcount] using h.record
  · simpa only [hcreated, hcount] using h.created
  · simpa only [hdeleted, hcount] using h.deleted
  · simpa only [hdeleted, hcount] using h.used
  · rw [lastState_append, hstate, none_or, hcount]
    exact h.status

theorem Tracked.setState (h : Tracked count tr i r) (hstate : e.stateOf i = some state)
    (hcreated : ∀ name, e ≠ .created i name) (hdeleted : e ≠ .deleted i) :
    Tracked count (tr ++ [e]) i (r.setState state) := by
  have hc : ∀ name, .created i name ∈ tr ++ [e] ↔ .created i name ∈ tr := by
    intro name
    simp [Ne.symm (hcreated name)]
  have hd : .deleted i ∈ tr ++ [e] ↔ .deleted i ∈ tr := by
    simp [Ne.symm hdeleted]
  refine ⟨h.short, ?_, fun name hname => h.created name ((hc name).mp hname), ?_, ?_, fun _ => ?_⟩
  · simpa only [hc] using h.record
  · simpa only [hd] using h.deleted
  · rw [hd]
    exact h.used
  · rw [lastState_append, hstate]
    rfl

theorem Tracked.delete (h : Tracked count tr i r) (hused : r.used = true) :
    Tracked count (tr ++ [.deleted i]) i { r with used := false } := by
  have hi := (h.used.mp hused).1
  refine ⟨h.short, fun _ => ?_, fun name hname => h.created name (by simpa using hname), fun _ => hi, ?_,
    fun _ => ?_⟩
  · obtain ⟨name, hname⟩ := h.record hi
    exact ⟨name, mem_append_left _ hname⟩
  · simp
  · rw [lastState_append]
    exact h.status hi

theorem Tracked.create (h : Tracked count tr i r) (hi : i.val = count) (name : List UInt16)
    (args : ServiceArgs) : Tracked (count + 1) (tr ++ [.created i name]) i (r.create name args) := by
  have hlt : i.val < count + 1 := by omega
  have hdeleted : .deleted i ∉ tr ++ [.created i name] := by
    intro hmem
    have := h.deleted (by simpa using hmem)
    omega
  refine ⟨by simp [ServiceRecord.create], fun _ => ⟨name, by simp⟩, fun name' hname => ⟨hlt, ?_⟩,
    fun _ => hlt, ⟨fun _ => ⟨hlt, hdeleted⟩, fun _ => rfl⟩, fun _ => ?_⟩
  · rcases mem_append.mp hname with hname | hname
    · have := (h.created name' hname).1
      omega
    · rw [mem_singleton] at hname
      cases hname
      rfl
  · rw [lastState_append]
    simp [Event.stateOf, ServiceRecord.create]

theorem Tracks.move (h : Tracks s tr) (hm : Moves s new s') : Tracks s' (tr ++ new) := by
  cases hm with
  | quiet =>
    rw [append_nil]
    exact h
  | @created i name args hi hnone =>
    refine (forall_update_iff s.records fun j r => Tracked _ _ j r).mpr
      ⟨(h i).create hi name args, fun j hj => (h j).other (Ne.symm hj) ?_⟩
    have : j.val ≠ i.val := fun heq => hj (Fin.ext heq)
    change j.val < s.count + 1 ↔ j.val < s.count
    omega
  | @deleted i hused =>
    exact (forall_update_iff s.records fun j r => Tracked _ _ j r).mpr
      ⟨(h i).delete hused, fun j hj => (h j).other (Ne.symm hj) Iff.rfl⟩
  | @started i hused =>
    exact (forall_update_iff s.records fun j r => Tracked _ _ j r).mpr
      ⟨(h i).setState (by simp [Event.stateOf]) nofun nofun, fun j hj => (h j).other (Ne.symm hj) Iff.rfl⟩
  | @stopped i hused =>
    exact (forall_update_iff s.records fun j r => Tracked _ _ j r).mpr
      ⟨(h i).setState (by simp [Event.stateOf]) nofun nofun, fun j hj => (h j).other (Ne.symm hj) Iff.rfl⟩

theorem Tracks.run (h : Tracks σ.services tr) (hrun : run calls σ = some σ') :
    Tracks σ'.services (tr ++ trace calls σ) := by
  induction calls generalizing σ tr with
  | nil =>
    cases hrun
    rw [trace, append_nil]
    exact h
  | cons call calls ih =>
    obtain ⟨mid, hs, hrun⟩ := run_cons hrun
    have := ih (h.move (step_moves hs)) hrun
    rwa [append_assoc, show events σ call ++ trace calls mid = trace (call :: calls) σ by
      simp only [trace, hs, elim_some]] at this

/-- What else holds as long as no call slips: nothing has been deleted, and the names are stored in
full and distinct. -/
structure Plain (tr : List Event) : Prop where
  kept : ∀ i, .deleted i ∉ tr
  short : ∀ i name, .created i name ∈ tr → name.length ≤ 63
  distinct : ∀ i j name, .created i name ∈ tr → .created j name ∈ tr → i = j

theorem Plain.same (h : Plain tr) (hcreated : ∀ i name, e ≠ .created i name)
    (hdeleted : ∀ i, e ≠ .deleted i) : Plain (tr ++ [e]) := by
  have hc : ∀ i name, .created i name ∈ tr ++ [e] ↔ .created i name ∈ tr := by
    intro i name
    simp [Ne.symm (hcreated i name)]
  have hd : ∀ i, .deleted i ∈ tr ++ [e] ↔ .deleted i ∈ tr := by
    intro i
    simp [Ne.symm (hdeleted i)]
  refine ⟨fun i => ?_, fun i name hi => ?_, fun i j name hi hj => ?_⟩
  · rw [hd]
    exact h.kept i
  · exact h.short i name ((hc i name).mp hi)
  · exact h.distinct i j name ((hc i name).mp hi) ((hc j name).mp hj)

theorem Tracks.name (h : Tracks s tr) {name : List UInt16} (hname : .created i name ∈ tr)
    (hlen : name.length ≤ 63) : (s.records i).name = name := by
  rw [((h i).created name hname).2, take_of_length_le hlen]

theorem Plain.move {call : Call} (hp : Plain tr) (h : Tracks σ.services tr) (hno : ¬ Slip σ call)
    (hs : step σ call = some σ') : Plain (tr ++ events σ call) := by
  have hm := step_moves hs
  generalize hnew : events σ call = new at hm
  generalize σ'.services = s' at hm
  cases hm with
  | quiet =>
    rw [append_nil]
    exact hp
  | @created i name args hi hnone =>
    have hshort : name.length ≤ 63 := by
      by_contra hlong
      cases call with
      | createServiceW args =>
        simp only [events] at hnew
        split at hnew
        · rename_i hname _
          cases hnew
          exact hno ⟨by rw [← hi]; exact i.isLt, name, hname, by omega⟩
        · cases hnew
      | deleteService service => cases service <;> simp [events] at hnew <;> split at hnew <;> cases hnew
      | startServiceW service => cases service <;> simp [events] at hnew <;> split at hnew <;> cases hnew
      | controlService service control =>
        cases service <;> simp [events] at hnew <;> split at hnew <;> cases hnew
      | _ => cases hnew
    have hnew' : ∀ j, .created j name ∉ tr := by
      intro j hj
      exact (findService_eq_none fun k => (h k).short).mp hnone j ((h j).created name hj).1
        (h.name hj hshort)
    refine ⟨fun j hj => ?_, fun j name' hj => ?_, fun j k name' hj hk => ?_⟩
    · exact hp.kept j (by simpa using hj)
    · rcases mem_append.mp hj with hj | hj
      · exact hp.short j name' hj
      · rw [mem_singleton] at hj
        cases hj
        exact hshort
    · rcases mem_append.mp hj with hj | hj <;> rcases mem_append.mp hk with hk | hk
      · exact hp.distinct j k name' hj hk
      · rw [mem_singleton] at hk
        cases hk
        exact absurd hj (hnew' j)
      · rw [mem_singleton] at hj
        cases hj
        exact absurd hk (hnew' k)
      · rw [mem_singleton] at hj hk
        cases hj
        cases hk
        rfl
  | @deleted i hused =>
    exfalso
    cases call with
    | deleteService service =>
      rcases service with _ | j
      · cases hnew
      · simp only [events] at hnew
        split at hnew
        · rename_i hj
          exact hno hj
        · cases hnew
    | createServiceW args =>
      simp only [events] at hnew
      split at hnew <;> cases hnew
    | startServiceW service => cases service <;> simp [events] at hnew <;> split at hnew <;> cases hnew
    | controlService service control =>
      cases service <;> simp [events] at hnew <;> split at hnew <;> cases hnew
    | _ => cases hnew
  | @started i hused => exact hp.same nofun nofun
  | @stopped i hused => exact hp.same nofun nofun

theorem Plain.run {calls : List Call} (hp : Plain tr) (h : Tracks σ.services tr)
    (hno : ∀ pre call post, calls = pre ++ call :: post → ∀ τ, run pre σ = some τ → ¬ Slip τ call)
    (hrun : run calls σ = some σ') : Plain (tr ++ trace calls σ) := by
  induction calls generalizing σ tr with
  | nil =>
    rw [trace, append_nil]
    exact hp
  | cons call calls ih =>
    obtain ⟨mid, hs, hrun⟩ := run_cons hrun
    have hslip := hno [] call calls rfl σ rfl
    have hrest := ih (hp.move h hslip hs) (h.move (step_moves hs)) (fun pre c post heq τ hτ => by
      refine hno (call :: pre) c post (by rw [heq]; rfl) τ ?_
      rw [Advapi.run, hs]
      exact hτ) hrun
    rwa [append_assoc, show events σ call ++ trace calls mid = trace (call :: calls) σ by
      simp only [trace, hs, elim_some]] at hrest

theorem Plain.manager (hp : Plain tr) (h : Tracks σ.services tr) : Manager σ tr := by
  have hlive : ∀ i name, Live tr i name ↔ .created i name ∈ tr := fun i name =>
    ⟨fun hl => hl.1, fun hc => ⟨hc, hp.kept i⟩⟩
  have hshort : Short σ.services := fun i => (h i).short
  refine ⟨fun i j name hi hj => ?_, fun name => ?_, fun args name _ ⟨i, _, hdel⟩ => ?_, fun i st hst => ?_⟩
  · exact hp.distinct i j name hi.1 hj.1
  · simp only [hlive, openServiceW]
    constructor
    · intro hsome
      obtain ⟨i, hi⟩ := isSome_iff_exists.mp hsome
      obtain ⟨hlt, hname⟩ := findService_some hshort hi
      obtain ⟨name', hmem⟩ := (h i).record hlt
      rw [h.name hmem (hp.short i name' hmem)] at hname
      rw [← hname]
      exact ⟨i, hmem⟩
    · rintro ⟨i, hmem⟩
      by_contra hnone
      rw [Bool.not_eq_true, isSome_eq_false_iff, isNone_iff_eq_none] at hnone
      exact (findService_eq_none hshort).mp hnone i ((h i).created name hmem).1
        (h.name hmem (hp.short i name hmem))
  · exact absurd hdel (hp.kept i)
  · simp only [queryServiceStatus] at hst
    split at hst
    · rename_i hused
      cases hst
      exact (h i).status (((h i).used.mp hused).1)
    · cases hst

/-! ## Slips -/

theorem not_manager_created (h : Tracks σ.services tr) {name : List UInt16}
    (hi : .created i name ∈ tr) (hdel : .deleted i ∉ tr) (hlong : 64 ≤ name.length) :
    ¬ Manager σ tr := by
  intro hm
  have hsome := (hm.opened name).mpr ⟨i, hi, hdel⟩
  obtain ⟨j, hj⟩ := isSome_iff_exists.mp hsome
  obtain ⟨-, hname⟩ := findService_some (fun i => (h i).short) hj
  have := (h j).short
  rw [hname] at this
  omega

theorem not_manager_deleted (h : Tracks σ.services tr) (hused : (σ.services.records i).used = true)
    (hm : Manager σ tr) : ¬ Manager (deleteService σ (some i)).2 (tr ++ [.deleted i]) := by
  intro hm'
  obtain ⟨hi, hdel⟩ := (h i).used.mp hused
  obtain ⟨name, hname⟩ := (h i).record hi
  have hopened : openServiceW (deleteService σ (some i)).2 (some name) = openServiceW σ (some name) := by
    simp only [deleteService, State.updateService, hused, if_true, openServiceW, findService]
    congr 1
    funext j
    rw [update_apply]
    split
    · rename_i hji
      rw [hji]
    · rfl
  have hsome := (hm.opened name).mpr ⟨i, hname, hdel⟩
  rw [← hopened] at hsome
  obtain ⟨j, hj, hjdel⟩ := (hm'.opened name).mp hsome
  have hjlive : Live tr j name := ⟨by simpa using hj, fun hmem => hjdel (mem_append_left _ hmem)⟩
  rw [hm.single i j name ⟨hname, hdel⟩ hjlive] at hjdel
  exact hjdel (by simp)

theorem Slip.not_manager {call : Call} (h : Tracks σ.services tr) (hslip : Slip σ call)
    (hs : step σ call = some σ') (hm : Manager σ tr) : ¬ Manager σ' (tr ++ events σ call) := by
  cases call with
  | createServiceW args =>
    obtain ⟨hcount, name, hname, hlong⟩ := hslip
    simp only [step, map_eq_some_iff] at hs
    obtain ⟨r, hr, rfl⟩ := hs
    have hnone : findService σ.services (some name) = none := by
      rw [findService_eq_none fun i => (h i).short]
      rintro i - hi
      have := (h i).short
      rw [hi] at this
      omega
    have hstep : step σ (.createServiceW args) = some r.2 := by
      simp only [step, hr, map_some]
    have hok : ∃ i, r.1 = some i := by
      simp only [createServiceW, hname, hcount, hnone] at hr
      rw [dif_pos trivial, if_neg (by simp), map_eq_some_iff] at hr
      obtain ⟨registry, -, rfl⟩ := hr
      exact ⟨_, rfl⟩
    obtain ⟨i, hi⟩ := hok
    have hevents : events σ (.createServiceW args) = [.created i name] := by
      obtain ⟨r1, r2⟩ := r
      cases hi
      simp only [events, hr, hname]
    have htracks := Tracks.move h (step_moves hstep)
    rw [hevents] at htracks ⊢
    refine not_manager_created htracks (i := i) (by simp) (fun hdel => ?_) hlong
    -- the record is the next one, so nothing has happened to it
    rcases createServiceW_cases hr with ⟨hfail, -⟩ | ⟨name', j, -, hj, -, hij, -⟩
    · rw [hi] at hfail
      cases hfail
    · rw [hi, some.injEq] at hij
      have := (h i).deleted (by simpa using hdel)
      rw [hij, hj] at this
      omega
  | deleteService service =>
    rcases service with _ | i
    · exact hslip.elim
    · have hused : (σ.services.records i).used = true := hslip
      cases hs
      have hevents : events σ (.deleteService (some i)) = [.deleted i] := by
        simp only [events, hused, if_true]
      rw [hevents]
      exact not_manager_deleted h hused hm
  | _ => exact hslip.elim

/-- The database keeps up with a sequence of calls, all along, exactly if no call slips. -/
theorem service_manager_iff (calls : List Call) (σ : State) (hrun : run calls .initial = some σ) :
    (∀ pre post τ, calls = pre ++ post → run pre .initial = some τ → Manager τ (trace pre .initial)) ↔
      ∀ pre call post τ, calls = pre ++ call :: post → run pre .initial = some τ → ¬ Slip τ call := by
  constructor
  · rintro hm pre call post τ rfl hτ hslip
    have hstep : ∃ τ', step τ call = some τ' := by
      rw [run_append, hτ, bind_some] at hrun
      obtain ⟨τ', hs, -⟩ := run_cons hrun
      exact ⟨τ', hs⟩
    obtain ⟨τ', hs⟩ := hstep
    have hτ' : run (pre ++ [call]) .initial = some τ' := by
      rw [run_append, hτ, bind_some, Advapi.run, hs]
      rfl
    have htracks := Tracks.run (σ := .initial) tracks_initial hτ
    have hbefore := hm pre (call :: post) τ rfl hτ
    have hafter := hm (pre ++ [call]) post τ' (by simp) hτ'
    rw [trace_append hτ, show trace [call] τ = events τ call by
      simp only [trace, hs, elim_some, append_nil]] at hafter
    exact hslip.not_manager htracks hs hbefore hafter
  · rintro hno pre post τ rfl hτ
    have htracks := Tracks.run (σ := .initial) tracks_initial hτ
    have hplain : Plain ([] ++ trace pre .initial) := by
      refine Plain.run (σ := .initial) ⟨by simp, by simp, by simp⟩ tracks_initial (fun p c q heq τ' hτ' => ?_) hτ
      exact hno p c (q ++ post) τ' (by rw [heq]; simp) hτ'
    exact hplain.manager htracks

end Tracks

/-! ## Two runs -/

def demand (name : List UInt16) : ServiceArgs := ⟨some name, none, 16, 3, 1, none, none⟩

theorem service_manager_iff_started : ∃ σ, run [.createServiceW (demand [65]),
    .startServiceW (some 0)] .initial = some σ ∧ Manager σ [.created 0 [65], .started 0] := by
  have hsome : (run [.createServiceW (demand [65]), .startServiceW (some 0)] .initial).isSome = true := by
    decide +kernel
  have htrace : trace [.createServiceW (demand [65]), .startServiceW (some 0)] .initial =
      [.created 0 [65], .started 0] := by decide +kernel
  obtain ⟨σ, hσ⟩ := isSome_iff_exists.mp hsome
  refine ⟨σ, hσ, ?_⟩
  rw [← htrace]
  refine (service_manager_iff _ σ hσ).mpr (fun pre call post τ heq hτ => ?_) _ [] σ (by simp) hσ
  rcases pre with _ | ⟨first, _ | ⟨second, pre⟩⟩
  · cases heq
    rintro ⟨-, name, hname, hlong⟩
    cases hname
    simp at hlong
  · cases heq
    exact id
  · simp at heq

theorem service_manager_iff_deleted : ∃ σ, run [.createServiceW (demand [65]),
    .deleteService (some 0)] .initial = some σ ∧ openServiceW σ (some [65]) = some 0 ∧
      ¬ Manager σ (trace [.createServiceW (demand [65]), .deleteService (some 0)] .initial) := by
  have hsome : (run [.createServiceW (demand [65]), .deleteService (some 0)] .initial).isSome = true := by
    decide +kernel
  have hopened : ∀ τ ∈ run [.createServiceW (demand [65]), .deleteService (some 0)] .initial,
      openServiceW τ (some [65]) = some 0 := by decide +kernel
  have htrace : trace [.createServiceW (demand [65]), .deleteService (some 0)] .initial =
      [.created 0 [65], .deleted 0] := by decide +kernel
  obtain ⟨σ, hσ⟩ := isSome_iff_exists.mp hsome
  refine ⟨σ, hσ, hopened σ hσ, fun hm => ?_⟩
  rw [htrace] at hm
  obtain ⟨i, hi, hdel⟩ := (hm.opened [65]).mp (by rw [hopened σ hσ]; rfl)
  simp only [mem_cons, Event.created.injEq, not_mem_nil, or_false, reduceCtorEq] at hi
  rw [hi.1] at hdel
  exact hdel (by simp)

end DiscouNT.Advapi
