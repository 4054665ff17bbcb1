import DiscouNT.Io.Service

/-!
# Io.ServiceRuns

What holds of every run of `ServiceManagerStart`, whatever the dependencies and the start routine:
each service is started at most once, after everything it depends on, and nothing stays pending.
-/

namespace DiscouNT.Io

open Lib List

variable {σ : Type} {services : List ServiceDescriptor} {start : StartRoutine σ}

abbrev Rooted (services : List ServiceDescriptor) (i : Fin services.length) : Prop :=
  Grounded (needs services) (fun _ => True) i

structure Sound (services : List ServiceDescriptor) (r : Runtime services.length σ) : Prop where
  settled : ∀ c ∈ r.calls, r.state c.index = .running ∨ r.state c.index = .failed
  once : (r.calls.map StartCall.index).Nodup
  ready : ∀ c ∈ r.calls, ∀ name ∈ (services.get c.index).dependencies,
    ∃ d, serviceIndex services name = some d ∧ c.state d = .running
  kept : ∀ c ∈ r.calls, ∀ d, c.state d = .running → r.state d = .running
  rooted : ∀ c ∈ r.calls, Rooted services c.index
  started : ∀ i, r.state i = .running → ∃ c ∈ r.calls, c.index = i

theorem sound_fresh (services : List ServiceDescriptor) (context : σ) :
    Sound services (freshRuntime services.length context) := by
  constructor <;> simp [freshRuntime]

namespace Sound

variable {r : Runtime services.length σ} {i : Fin services.length}

theorem rooted_running (h : Sound services r) (hi : r.state i = .running) : Rooted services i := by
  obtain ⟨c, hc, rfl⟩ := h.started i hi
  exact h.rooted c hc

theorem closed (h : Sound services r) (hi : r.state i = .running) :
    ∀ name ∈ (services.get i).dependencies,
      ∃ d, serviceIndex services name = some d ∧ r.state d = .running := by
  obtain ⟨c, hc, rfl⟩ := h.started i hi
  intro name hname
  obtain ⟨d, hd, hrun⟩ := h.ready c hc name hname
  exact ⟨d, hd, h.kept c hc d hrun⟩

theorem set {s : ServiceState} (h : Sound services r) (hi : r.state i ≠ .running)
    (hs : s ≠ .running) (hf : r.state i = .failed → s = .failed) : Sound services (r.set i s) := by
  refine ⟨fun c hc => ?_, h.once, h.ready, fun c hc d hd => ?_, h.rooted, fun j hj => ?_⟩
  · rw [Runtime.set_state]
    split
    · rename_i hci
      rcases h.settled c hc with hrun | hfail
      · rw [hci] at hrun
        exact absurd hrun hi
      · rw [hci] at hfail
        exact .inr (hf hfail)
    · exact h.settled c hc
  · have hrun := h.kept c hc d hd
    have hdi : d ≠ i := by
      rintro rfl
      exact hi hrun
    simpa [hdi] using hrun
  · rw [Runtime.set_state] at hj
    split at hj
    · exact absurd hj hs
    · exact h.started j hj

theorem called {context : σ} (h : Sound services r) (hi : r.state i = .startPending)
    (hready : ∀ name ∈ (services.get i).dependencies,
      ∃ d, serviceIndex services name = some d ∧ r.state d = .running) (b : Bool) :
    Sound services ((r.called i context).set i (if b then .running else .failed)) := by
  have hrooted : Rooted services i := by
    refine .intro trivial ?_ fun d hd => ?_
    · intro hmem
      obtain ⟨name, hname, hnone⟩ := mem_map.mp hmem
      obtain ⟨d, hd, _⟩ := hready name hname
      rw [hd] at hnone
      cases hnone
    · obtain ⟨name, hname, hsome⟩ := mem_map.mp hd
      obtain ⟨d', hd', hrun⟩ := hready name hname
      rw [hd'] at hsome
      cases hsome
      exact h.rooted_running hrun
  -- the service is pending, so none of the calls made so far was for it
  have hnew : ∀ c ∈ r.calls, c.index ≠ i := by
    rintro c hc rfl
    rcases h.settled c hc with hrun | hfail
    · rw [hi] at hrun
      cases hrun
    · rw [hi] at hfail
      cases hfail
  have hkeep : ∀ d, r.state d = .running →
      ((r.called i context).set i (if b then .running else .failed)).state d = .running := by
    intro d hd
    have hdi : d ≠ i := by
      rintro rfl
      rw [hi] at hd
      cases hd
    simpa [hdi] using hd
  refine ⟨fun c hc => ?_, ?_, fun c hc => ?_, fun c hc d hd => ?_, fun c hc => ?_, fun j hj => ?_⟩
  · rcases mem_cons.mp hc with rfl | hc
    · cases b <;> simp
    · simpa [hnew c hc] using h.settled c hc
  · refine nodup_cons.mpr ⟨fun hmem => ?_, h.once⟩
    obtain ⟨c, hc, hci⟩ := mem_map.mp hmem
    exact hnew c hc hci
  · rcases mem_cons.mp hc with rfl | hc
    · exact hready
    · exact h.ready c hc
  · rcases mem_cons.mp hc with rfl | hc
    · exact hkeep d hd
    · exact hkeep d (h.kept c hc d hd)
  · rcases mem_cons.mp hc with rfl | hc
    · exact hrooted
    · exact h.rooted c hc
  · by_cases hji : j = i
    · exact ⟨_, mem_cons_self, hji.symm⟩
    · obtain ⟨c, hc, hcj⟩ := h.started j (by simpa [hji] using hj)
      exact ⟨c, mem_cons_of_mem _ hc, hcj⟩

end Sound

theorem sound_rule : WalkRule services start (fun _ r _ r' => Sound services r → Sound services r')
    (fun _ _ r _ r' => Sound services r → Sound services r') where
  running _ h := h
  cycle hs h := h.set (by simp [hs]) (by simp) (by simp)
  failed _ h := h
  blocked {i r r'} hs hall hq h := by
    have hpend : Sound services (r.set i .startPending) :=
      h.set (by simp [hs]) (by simp) (by simp [hs])
    refine (hq hpend).set ?_ (by simp) (by simp)
    -- a pending service never turns to running below its own call
    have hmove := (hall.supplies i).moves i
    intro hrun
    rw [hrun] at hmove
    simp [ServiceState.Moves] at hmove
  called {i r r' b context} hs hall hq _ h := by
    have hpend : Sound services (r.set i .startPending) :=
      h.set (by simp [hs]) (by simp) (by simp [hs])
    have hsup := hall.supplies i
    exact (hq hpend).called (hsup.waiting rfl i (by simp)) (hsup.supplied rfl) b
  done h := h
  missing _ h := h
  refused _ _ hp h := hp h
  next _ _ hp _ hq h := hq (hp h)

theorem Walks.sound {l : List (Fin services.length)} {r r' : Runtime services.length σ}
    (hw : Walks services start l r r') (h : Sound services r) : Sound services r' := by
  induction hw with
  | nil => exact h
  | cons hi _ ih => exact ih (sound_rule.startOne hi h)

theorem Walks.moves {l : List (Fin services.length)} {r r' : Runtime services.length σ}
    (hw : Walks services start l r r') (j : Fin services.length) :
    (r.state j).Moves (r'.state j) := by
  induction hw with
  | nil => exact .refl _
  | cons hi _ ih => exact (hi.settles.moves j).trans ih

/-- `ServiceManagerStart` returns; it starts each descriptor at most once, with all its dependencies
running, and never one that reaches a cycle or a name that does not exist; no service ends pending.
-/
theorem serviceManagerStart_sound (services : List ServiceDescriptor) (start : StartRoutine σ)
    (allocated : Bool) (context : σ) :
    ∃ result, (∀ fuel, services.length < fuel →
        serviceManagerStart services start fuel allocated context = some result) ∧
      ∀ r, result = .started r →
        (r.calls.map StartCall.index).Nodup ∧
        (∀ c ∈ r.calls, ∀ name ∈ (services.get c.index).dependencies,
          ∃ d, serviceIndex services name = some d ∧ c.state d = .running) ∧
        (∀ c ∈ r.calls, ∀ j, Relation.ReflTransGen (Depends (needs services)) c.index j →
          ¬ Relation.TransGen (Depends (needs services)) j j ∧
          ∀ name ∈ (services.get j).dependencies, serviceIndex services name ≠ none) ∧
        (∀ i, r.state i = .stopped ∨ r.state i = .running ∨ r.state i = .failed) ∧
        (∀ i, r.state i = .running → ∀ name ∈ (services.get i).dependencies,
          ∃ d, serviceIndex services name = some d ∧ r.state d = .running) := by
  obtain ⟨result, hret, hwalk⟩ := serviceManagerStart_returns services start allocated context
  refine ⟨result, hret, fun r hr => ?_⟩
  have hw := hwalk r hr
  have h := hw.sound (sound_fresh services context)
  refine ⟨h.once, h.ready, fun c hc j hj => ?_, fun i => ?_, fun i hi => h.closed hi⟩
  · have hg := (h.rooted c hc).reaches hj
    refine ⟨hg.not_cycle, fun name hname hnone => hg.provided ?_⟩
    exact mem_map.mpr ⟨name, hname, hnone⟩
  · have hmove := hw.moves i
    cases hs : r.state i with
    | startPending =>
      rw [hs] at hmove
      exact absurd rfl hmove
    | stopped => exact .inl rfl
    | running => exact .inr (.inl rfl)
    | failed => exact .inr (.inr rfl)

/-- A file system over its disk, two services that wait for each other, and one whose dependency
does not exist. -/
def sampleServices : List ServiceDescriptor :=
  [⟨"fs", .autoStart, ["disk"]⟩, ⟨"disk", .demandStart, []⟩, ⟨"a", .bootStart, ["b"]⟩,
    ⟨"b", .autoStart, ["a"]⟩, ⟨"orphan", .systemStart, ["disk", "ghost"]⟩]

theorem serviceManagerStart_sound_sample :
    ∃ r, serviceManagerStart sampleServices (fun _ _ _ _ => (true, ())) 6 true ()
        = some (.started r) ∧
      (r.calls.map StartCall.index).Nodup ∧
      ∀ i, r.state i = .running → ∀ name ∈ (sampleServices.get i).dependencies,
        ∃ d, serviceIndex sampleServices name = some d ∧ r.state d = .running := by
  obtain ⟨result, hret, h⟩ := serviceManagerStart_sound sampleServices
    (fun _ _ _ _ => (true, ())) true ()
  have hres := hret 6 (by decide)
  obtain ⟨r, rfl⟩ := serviceManagerStart_started (by decide) hres
  obtain ⟨honce, _, _, _, hclosed⟩ := h r rfl
  exact ⟨r, hres, honce, hclosed⟩

end DiscouNT.Io
