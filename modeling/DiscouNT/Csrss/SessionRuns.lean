import DiscouNT.Csrss.Session

/-!
# Csrss.SessionRuns

Whose entry a launch or a thread points to, over every run of the session.

A launch fills the entry behind the last one and counts it only at its end, so a second launch that
begins meanwhile clears it. And the entries above a removed one move down under the pointers of
running threads. `Apart` are the steps that do neither; `Sound` is the invariant of runs of such
steps.
-/

namespace DiscouNT.Csrss

open Relation Option

def GuiAppThread.Live (t : GuiAppThread) : Prop := t.state ≠ .terminated

/-- The entry at `i` is that of the launch `k`: the launch is in progress or its thread is running,
with a pointer to the entry, or the entry is in the table. -/
inductive Uses (s : Session) (k i : Nat) : Prop
  | spawn {sp : Spawn} (hsp : s.spawns k = some sp) (hi : sp.app = i)
  | thread {t : GuiAppThread} (ht : s.threads k = some t) (hl : t.Live) (hi : t.app = i)
  | table (hi : i < s.appCount) (hk : (s.apps i).launch = k)

/-- An image or a thread in an entry is that of the launch of the entry. -/
structure Own (a : GuiAppInstance) : Prop where
  image : ∀ m, a.image = some m → m = a.launch
  thread : ∀ m, a.thread = some m → m = a.launch

/-- Each pointer leads to the entry of its launch, which is in the table once the launch is done. -/
structure Designated (s : Session) : Prop where
  spawns : ∀ k sp, s.spawns k = some sp → (s.apps sp.app).launch = k ∧ (s.apps sp.app).pid = sp.pid
  threads : ∀ k t, s.threads k = some t → t.Live → (s.apps t.app).launch = k ∧
    (s.apps t.app).pid = t.pid ∧ (s.spawns k = none → t.app < s.appCount)
  apart : ∀ i k k', Uses s k i → Uses s k' i → k' = k
  distinct : ∀ i j, i < s.appCount → j < s.appCount → (s.apps i).launch = (s.apps j).launch → i = j
  own : ∀ i, i < s.appCount → Own (s.apps i)
  accesses : ∀ k k', Event.access k k' ∈ s.log → k' = k

/-- A launch begins only if the entry it clears is not that of a launch in progress, and ends only if
it counts its own entry. An entry is removed only if no running thread has its entry above it. -/
def Apart : Act → Session → Prop
  | .spawn _ _, s => s.appCount < maxGuiApps → ∀ k sp, s.spawns k = some sp → sp.app ≠ s.appCount
  | .executeImage _, s => s.appCount < maxGuiApps → ∀ k sp, s.spawns k = some sp → sp.app ≠ s.appCount
  | .finish k, s => ∀ sp, s.spawns k = some sp → sp.app = s.appCount
  | .retire i gone, s => i < s.appCount → isRemoved i gone s = true →
    ∀ k t, s.threads k = some t → t.Live → t.app < s.appCount → t.app ≤ i
  | _, _ => True

def Phase.Early : Phase → Prop
  | .findWindow _ => False
  | .finish => False
  | _ => True

structure SpawnSound (s : Session) (k : Nat) (sp : Spawn) : Prop where
  launch : (s.apps sp.app).launch = k
  pid : (s.apps sp.app).pid = sp.pid
  above : s.appCount ≤ sp.app
  fresh : k < s.launches
  own : Own (s.apps sp.app)
  early : sp.phase.Early → s.threads k = none

structure ThreadSound (s : Session) (k : Nat) (t : GuiAppThread) : Prop where
  launch : (s.apps t.app).launch = k
  pid : (s.apps t.app).pid = t.pid
  kind : (s.apps t.app).kind ≠ .custom
  thread : (s.apps t.app).thread = some k
  place : (∃ sp, s.spawns k = some sp ∧ t.app = sp.app) ∨ s.spawns k = none ∧ t.app < s.appCount

structure TableSound (s : Session) (i : Nat) : Prop where
  fresh : (s.apps i).launch < s.launches
  done : s.spawns (s.apps i).launch = none
  own : Own (s.apps i)

structure Sound (s : Session) : Prop where
  spawn : ∀ k sp, s.spawns k = some sp → SpawnSound s k sp
  thread : ∀ k t, s.threads k = some t → t.Live → ThreadSound s k t
  table : ∀ i, i < s.appCount → TableSound s i
  distinct : ∀ i j, i < s.appCount → j < s.appCount → (s.apps i).launch = (s.apps j).launch → i = j
  unborn : ∀ k, s.launches ≤ k → s.threads k = none
  accesses : ∀ k k', Event.access k k' ∈ s.log → k' = k

theorem start_sound : Sound start where
  spawn := nofun
  thread := nofun
  table := nofun
  distinct := nofun
  unborn := fun _ _ => rfl
  accesses := nofun

section Invariant

variable {s s' : Session} {k k' i app : Nat} {sp : Spawn} {t : GuiAppThread} {e : Event}
  {f : GuiAppInstance → GuiAppInstance}

theorem Sound.designated (hs : Sound s) : Designated s where
  spawns := fun k sp hsp => ⟨(hs.spawn k sp hsp).launch, (hs.spawn k sp hsp).pid⟩
  threads := fun k t ht hl => by
    have hts := hs.thread k t ht hl
    refine ⟨hts.launch, hts.pid, fun hnone => ?_⟩
    rcases hts.place with ⟨sp, hsp, -⟩ | ⟨-, hlt⟩
    · rw [hnone] at hsp
      cases hsp
    · exact hlt
  apart := fun i k k' hk hk' => by
    have huse : ∀ k, Uses s k i → (s.apps i).launch = k := by
      rintro k (⟨hsp, rfl⟩ | ⟨ht, hl, rfl⟩ | ⟨-, hlaunch⟩)
      · exact (hs.spawn k _ hsp).launch
      · exact (hs.thread k _ ht hl).launch
      · exact hlaunch
    exact (huse k' hk').symm.trans (huse k hk)
  distinct := hs.distinct
  own := fun i hi => (hs.table i hi).own
  accesses := hs.accesses

theorem Sound.congr (hs : Sound s) (ha : s'.apps = s.apps) (hc : s'.appCount = s.appCount)
    (hsp : s'.spawns = s.spawns) (ht : s'.threads = s.threads) (hl : s'.launches = s.launches)
    (hlog : ∀ k k', Event.access k k' ∈ s'.log → k' = k) : Sound s' where
  spawn := fun k sp h => by
    rw [hsp] at h
    obtain ⟨h1, h2, h3, h4, h5, h6⟩ := hs.spawn k sp h
    exact ⟨ha ▸ h1, ha ▸ h2, hc ▸ h3, hl ▸ h4, ha ▸ h5, ht ▸ h6⟩
  thread := fun k t h hlive => by
    rw [ht] at h
    obtain ⟨h1, h2, h3, h4, h5⟩ := hs.thread k t h hlive
    exact ⟨ha ▸ h1, ha ▸ h2, ha ▸ h3, ha ▸ h4, by rw [hsp, hc]; exact h5⟩
  table := fun i hi => by
    rw [hc] at hi
    obtain ⟨h1, h2, h3⟩ := hs.table i hi
    exact ⟨by rw [ha, hl]; exact h1, by rw [ha, hsp]; exact h2, ha ▸ h3⟩
  distinct := by rw [ha, hc]; exact hs.distinct
  unborn := by rw [hl, ht]; exact hs.unborn
  accesses := hlog

theorem Sound.note (hs : Sound s) (he : ∀ k k', e = .access k k' → k' = k) : Sound (s.note e) := by
  refine hs.congr rfl rfl rfl rfl rfl fun k k' hin => ?_
  rcases List.mem_cons.mp hin with heq | hold
  · exact he k k' heq.symm
  · exact hs.accesses k k' hold

theorem Sound.access (hs : Sound s) (hk : (s.apps app).launch = k) : Sound (s.access k app) :=
  hs.note fun j j' heq => by
    cases heq
    exact hk

theorem Sound.queueRequest (hs : Sound s) (r : Request) : Sound (queueRequest r s) :=
  hs.congr rfl rfl rfl rfl rfl fun k k' hin =>
    hs.accesses k k' ((List.mem_cons.mp hin).resolve_left nofun)

theorem Sound.spawnFailed (hs : Sound s) (r : Option Request) : Sound (spawnFailed r s) := by
  cases r with
  | none => exact hs
  | some r => exact hs.queueRequest r

theorem Sound.takePendingLaunch (hs : Sound s) : Sound (takePendingLaunch s) := by
  unfold Csrss.takePendingLaunch
  split
  · exact Sound.note (hs.congr rfl rfl rfl rfl rfl hs.accesses) nofun
  · exact hs

theorem apps_edit (s : Session) (app : Nat) (f : GuiAppInstance → GuiAppInstance) (i : Nat) :
    (s.edit app f).apps i = if i = app then f (s.apps app) else s.apps i :=
  Function.update_apply ..

theorem Sound.edit (hs : Sound s) (hk : (s.apps app).launch = k)
    (hlaunch : (f (s.apps app)).launch = (s.apps app).launch)
    (hpid : (f (s.apps app)).pid = (s.apps app).pid)
    (hown : Own (s.apps app) → Own (f (s.apps app)))
    (hthread : ∀ t, s.threads k = some t → t.Live →
      (f (s.apps app)).kind = (s.apps app).kind ∧ (f (s.apps app)).thread = (s.apps app).thread) :
    Sound (s.edit app f) := by
  have hall : ∀ i, ((s.edit app f).apps i).launch = (s.apps i).launch := by
    intro i
    rw [apps_edit]
    split
    · rename_i hi
      rw [hlaunch, hi]
    · rfl
  have hpids : ∀ i, ((s.edit app f).apps i).pid = (s.apps i).pid := by
    intro i
    rw [apps_edit]
    split
    · rename_i hi
      rw [hpid, hi]
    · rfl
  have howns : ∀ i, Own (s.apps i) → Own ((s.edit app f).apps i) := by
    intro i ho
    rw [apps_edit]
    split
    · rename_i hi
      exact hown (hi ▸ ho)
    · exact ho
  refine ⟨fun j sp hsp => ?_, fun j t ht hl => ?_, fun i hi => ?_, fun i j hi hj => ?_, hs.unborn,
    hs.accesses⟩
  · obtain ⟨h1, h2, h3, h4, h5, h6⟩ := hs.spawn j sp hsp
    exact ⟨(hall _).trans h1, (hpids _).trans h2, h3, h4, howns _ h5, h6⟩
  · obtain ⟨h1, h2, h3, h4, h5⟩ := hs.thread j t ht hl
    refine ⟨(hall _).trans h1, (hpids _).trans h2, ?_, ?_, h5⟩
    · rw [apps_edit]
      split
      · rename_i hi
        have hj : j = k := by rw [← h1, hi, hk]
        rw [(hthread t (hj ▸ ht) hl).1, ← hi]
        exact h3
      · exact h3
    · rw [apps_edit]
      split
      · rename_i hi
        have hj : j = k := by rw [← h1, hi, hk]
        rw [(hthread t (hj ▸ ht) hl).2, ← hi]
        exact h4
      · exact h4
  · obtain ⟨h1, h2, h3⟩ := hs.table i hi
    exact ⟨by rw [hall]; exact h1, by rw [hall]; exact h2, howns i h3⟩
  · rw [hall, hall]
    exact hs.distinct i j hi hj

theorem spawns_setSpawn (s : Session) (k : Nat) (o : Option Spawn) (j : Nat) :
    (s.setSpawn k o).spawns j = if j = k then o else s.spawns j :=
  Function.update_apply ..

theorem threads_setThread (s : Session) (k : Nat) (t : GuiAppThread) (j : Nat) :
    (s.setThread k t).threads j = if j = k then some t else s.threads j :=
  Function.update_apply ..

variable {phase : Phase}

theorem Sound.setPhase (hs : Sound s) (hsp : s.spawns k = some sp)
    (hearly : phase.Early → sp.phase.Early) : Sound (s.setSpawn k (some { sp with phase })) := by
  refine ⟨fun j sp' hj => ?_, fun j t ht hl => ?_, fun i hi => ?_, hs.distinct, hs.unborn, hs.accesses⟩
  · rw [spawns_setSpawn] at hj
    split at hj
    · rename_i heq
      cases hj
      subst heq
      obtain ⟨h1, h2, h3, h4, h5, h6⟩ := hs.spawn j sp hsp
      exact ⟨h1, h2, h3, h4, h5, fun he => h6 (hearly he)⟩
    · obtain ⟨h1, h2, h3, h4, h5, h6⟩ := hs.spawn j sp' hj
      exact ⟨h1, h2, h3, h4, h5, h6⟩
  · obtain ⟨h1, h2, h3, h4, h5⟩ := hs.thread j t ht hl
    refine ⟨h1, h2, h3, h4, ?_⟩
    rw [spawns_setSpawn]
    by_cases hj : j = k
    · subst hj
      rcases h5 with ⟨sp', hsp', happ⟩ | ⟨hnone, -⟩
      · cases some.inj (hsp.symm.trans hsp')
        exact .inl ⟨_, if_pos rfl, happ⟩
      · rw [hsp] at hnone
        cases hnone
    · rw [if_neg hj]
      exact h5
  · obtain ⟨h1, h2, h3⟩ := hs.table i hi
    refine ⟨h1, ?_, h3⟩
    rw [show (s.setSpawn k _).apps = s.apps from rfl, spawns_setSpawn, if_neg]
    · exact h2
    · intro heq
      rw [heq, hsp] at h2
      cases h2

theorem Sound.dropSpawn (hs : Sound s) (ht : s.threads k = none) : Sound (s.setSpawn k none) := by
  refine ⟨fun j sp hj => ?_, fun j t hj hl => ?_, fun i hi => ?_, hs.distinct, hs.unborn, hs.accesses⟩
  · rw [spawns_setSpawn] at hj
    split at hj
    · cases hj
    · obtain ⟨h1, h2, h3, h4, h5, h6⟩ := hs.spawn j sp hj
      exact ⟨h1, h2, h3, h4, h5, h6⟩
  · obtain ⟨h1, h2, h3, h4, h5⟩ := hs.thread j t hj hl
    refine ⟨h1, h2, h3, h4, ?_⟩
    rw [spawns_setSpawn, if_neg]
    · exact h5
    · rintro rfl
      rw [show (s.setSpawn j none).threads = s.threads from rfl, ht] at hj
      cases hj
  · obtain ⟨h1, h2, h3⟩ := hs.table i hi
    refine ⟨h1, ?_, h3⟩
    rw [spawns_setSpawn]
    split
    · rfl
    · exact h2

variable {state : ThreadState}

theorem Sound.setState (hs : Sound s) (ht : s.threads k = some t)
    (hlive : t.Live ∨ state = .terminated) : Sound (s.setThread k { t with state }) := by
  refine ⟨fun j sp hj => ?_, fun j t' hj hl => ?_, fun i hi => ?_, hs.distinct, fun j hj => ?_,
    hs.accesses⟩
  · obtain ⟨h1, h2, h3, h4, h5, h6⟩ := hs.spawn j sp hj
    refine ⟨h1, h2, h3, h4, h5, fun he => ?_⟩
    rw [threads_setThread, if_neg]
    · exact h6 he
    · rintro rfl
      rw [h6 he] at ht
      cases ht
  · rw [threads_setThread] at hj
    split at hj
    · rename_i heq
      cases hj
      subst heq
      have hold := hlive.resolve_right hl
      obtain ⟨h1, h2, h3, h4, h5⟩ := hs.thread j t ht hold
      exact ⟨h1, h2, h3, h4, h5⟩
    · obtain ⟨h1, h2, h3, h4, h5⟩ := hs.thread j t' hj hl
      exact ⟨h1, h2, h3, h4, h5⟩
  · obtain ⟨h1, h2, h3⟩ := hs.table i hi
    exact ⟨h1, h2, h3⟩
  · rw [threads_setThread, if_neg]
    · exact hs.unborn j hj
    · rintro rfl
      rw [hs.unborn j hj] at ht
      cases ht

theorem Sound.newThread (hs : Sound s) (hsp : s.spawns k = some sp) (hlate : ¬ sp.phase.Early)
    (happ : t.app = sp.app) (hpid : t.pid = sp.pid) (hkind : (s.apps sp.app).kind ≠ .custom)
    (hthread : (s.apps sp.app).thread = some k) : Sound (s.setThread k t) := by
  refine ⟨fun j sp' hj => ?_, fun j t' hj hl => ?_, fun i hi => ?_, hs.distinct, fun j hj => ?_,
    hs.accesses⟩
  · obtain ⟨h1, h2, h3, h4, h5, h6⟩ := hs.spawn j sp' hj
    refine ⟨h1, h2, h3, h4, h5, fun he => ?_⟩
    rw [threads_setThread, if_neg]
    · exact h6 he
    · rintro rfl
      cases some.inj (hsp.symm.trans hj)
      exact hlate he
  · rw [threads_setThread] at hj
    split at hj
    · rename_i heq
      cases hj
      subst heq
      have hold := hs.spawn j sp hsp
      refine ⟨?_, ?_, ?_, ?_, .inl ⟨sp, hsp, happ⟩⟩
      · rw [happ]
        exact hold.launch
      · rw [happ, hpid]
        exact hold.pid
      · rw [happ]
        exact hkind
      · rw [happ]
        exact hthread
    · obtain ⟨h1, h2, h3, h4, h5⟩ := hs.thread j t' hj hl
      exact ⟨h1, h2, h3, h4, h5⟩
  · obtain ⟨h1, h2, h3⟩ := hs.table i hi
    exact ⟨h1, h2, h3⟩
  · rw [threads_setThread, if_neg]
    · exact hs.unborn j hj
    · rintro rfl
      exact absurd (hs.spawn j sp hsp).fresh (Nat.not_lt.mpr hj)

theorem Sound.proceed (hs : Sound s) (hsp : s.spawns k = some sp)
    (hearly : phase.Early → sp.phase.Early) (hlaunch : ∀ a, (f a).launch = a.launch)
    (hpid : ∀ a, (f a).pid = a.pid) (hown : ∀ a, a.launch = k → Own a → Own (f a))
    (hthread : ∀ t, s.threads k = some t → t.Live →
      (f (s.apps sp.app)).kind = (s.apps sp.app).kind ∧
        (f (s.apps sp.app)).thread = (s.apps sp.app).thread) :
    Sound (proceed k sp phase f s) := by
  have hk := (hs.spawn k sp hsp).launch
  have hedited := (hs.access hk).edit (f := f) hk (hlaunch _) (hpid _) (hown _ hk) hthread
  exact hedited.setPhase hsp hearly

theorem Sound.abandon (hs : Sound s) (hsp : s.spawns k = some sp) (he : sp.phase.Early)
    (hlaunch : ∀ a, (f a).launch = a.launch) (hpid : ∀ a, (f a).pid = a.pid)
    (hown : ∀ a, Own a → Own (f a)) : Sound (abandon k sp f s) := by
  have hold := hs.spawn k sp hsp
  have hnone := hold.early he
  have hedited := (hs.access hold.launch).edit (f := f) hold.launch (hlaunch _) (hpid _) (hown _)
    fun t ht _ => by
      rw [show (s.access k sp.app).threads k = s.threads k from rfl, hnone] at ht
      cases ht
  exact (hedited.dropSpawn (k := k) hnone).spawnFailed sp.request

theorem Own.dropImage {a : GuiAppInstance} (ha : Own a) : Own (dropImage a) := ⟨nofun, ha.thread⟩

theorem Sound.abandonImage (hs : Sound s) (hsp : s.spawns k = some sp) (he : sp.phase.Early) :
    Sound (Csrss.abandon k sp dropImage s) :=
  hs.abandon hsp he (fun _ => rfl) (fun _ => rfl) fun _ => Own.dropImage

structure Begun (app : GuiAppInstance) (sp : Spawn) (s s' : Session) : Prop where
  apps : ∀ i, s'.apps i = if i = s.appCount then app else s.apps i
  appCount : s'.appCount = s.appCount
  spawns : ∀ k, s'.spawns k = if k = s.launches then some sp else s.spawns k
  threads : s'.threads = s.threads
  launches : s'.launches = s.launches + 1
  log : s'.log = s.log
  launch : app.launch = s.launches
  pid : app.pid = sp.pid
  own : Own app
  index : sp.app = s.appCount

theorem Sound.begun {app : GuiAppInstance} (hs : Sound s) (hb : Begun app sp s s')
    (hapart : ∀ k sp, s.spawns k = some sp → sp.app ≠ s.appCount) : Sound s' := by
  have hother : ∀ i, i ≠ s.appCount → s'.apps i = s.apps i := fun i hi => by
    rw [hb.apps, if_neg hi]
  have hself : s'.apps s.appCount = app := by rw [hb.apps, if_pos rfl]
  refine ⟨fun j sp' hj => ?_, fun j t hj hl => ?_, fun i hi => ?_, fun i j hi hj heq => ?_,
    fun j hj => ?_, by rw [hb.log]; exact hs.accesses⟩
  · rw [hb.spawns] at hj
    split at hj
    · rename_i heq
      cases hj
      subst heq
      refine ⟨?_, ?_, ?_, ?_, ?_, fun _ => ?_⟩
      · rw [hb.index, hself, hb.launch]
      · rw [hb.index, hself, hb.pid]
      · rw [hb.appCount, hb.index]
      · rw [hb.launches]
        exact Nat.lt_succ_self _
      · rw [hb.index, hself]
        exact hb.own
      · rw [hb.threads]
        exact hs.unborn _ (Nat.le_refl _)
    · obtain ⟨h1, h2, h3, h4, h5, h6⟩ := hs.spawn j sp' hj
      have happs := hother sp'.app (hapart j sp' hj)
      exact ⟨happs ▸ h1, happs ▸ h2, hb.appCount ▸ h3, hb.launches ▸ Nat.lt_succ_of_lt h4,
        happs ▸ h5, by rw [hb.threads]; exact h6⟩
  · rw [hb.threads] at hj
    obtain ⟨h1, h2, h3, h4, h5⟩ := hs.thread j t hj hl
    have hne : t.app ≠ s.appCount := by
      rcases h5 with ⟨sp', hsp, heq⟩ | ⟨-, hlt⟩
      · rw [heq]
        exact hapart j sp' hsp
      · exact Nat.ne_of_lt hlt
    have hjne : j ≠ s.launches := by
      rintro rfl
      rw [hs.unborn _ (Nat.le_refl _)] at hj
      cases hj
    have happs := hother t.app hne
    refine ⟨happs ▸ h1, happs ▸ h2, happs ▸ h3, happs ▸ h4, ?_⟩
    rw [hb.spawns, if_neg hjne, hb.appCount]
    exact h5
  · rw [hb.appCount] at hi
    obtain ⟨h1, h2, h3⟩ := hs.table i hi
    have happs := hother i (Nat.ne_of_lt hi)
    refine ⟨?_, ?_, happs ▸ h3⟩
    · rw [happs, hb.launches]
      exact Nat.lt_succ_of_lt h1
    · rw [happs, hb.spawns, if_neg (Nat.ne_of_lt h1)]
      exact h2
  · rw [hb.appCount] at hi hj
    rw [hother i (Nat.ne_of_lt hi), hother j (Nat.ne_of_lt hj)] at heq
    exact hs.distinct i j hi hj heq
  · rw [hb.threads]
    rw [hb.launches] at hj
    exact hs.unborn j (Nat.le_of_succ_le hj)

theorem Sound.csrssSpawnGuiInstance (hs : Sound s) (path commandLine : Name) (r : Option Request)
    (hapart : s.appCount < maxGuiApps → ∀ k sp, s.spawns k = some sp → sp.app ≠ s.appCount) :
    Sound (csrssSpawnGuiInstance path commandLine r s) := by
  unfold Csrss.csrssSpawnGuiInstance
  split
  · exact hs.spawnFailed r
  · rename_i hroom
    refine Sound.begun hs
      (?_ : Begun (newInstance path commandLine s) ⟨s.appCount, s.nextPid, .load, r⟩ s _)
      (hapart (Nat.lt_of_not_le hroom))
    exact ⟨apps_edit s s.appCount fun _ => newInstance path commandLine s,
      rfl, spawns_setSpawn _ _ _, rfl, rfl, rfl, rfl, rfl, ⟨nofun, nofun⟩, rfl⟩

theorem Sound.finishSpawn (hs : Sound s) (hsp : s.spawns k = some sp)
    (hindex : sp.app = s.appCount) : Sound (finishSpawn k sp s) := by
  obtain ⟨hlaunch, hpid, habove, hfresh, hown, hearly⟩ := hs.spawn k sp hsp
  have hspawns : ∀ j, (Csrss.finishSpawn k sp s).spawns j = if j = k then none else s.spawns j :=
    fun j => spawns_setSpawn _ k none j
  have hlast : (s.apps s.appCount).launch = k := hindex ▸ hlaunch
  have hnew : ∀ i, i < s.appCount + 1 → i < s.appCount ∨ i = s.appCount := fun i hi =>
    Nat.lt_or_eq_of_le (Nat.le_of_lt_succ hi)
  have hne : ∀ i, i < s.appCount → (s.apps i).launch ≠ k := by
    intro i hi heq
    have hdone := (hs.table i hi).done
    rw [heq, hsp] at hdone
    cases hdone
  refine ⟨fun j sp' hj => ?_, fun j t hj hl => ?_, fun i hi => ?_, fun i j hi hj heq => ?_, hs.unborn,
    (hs.access hlaunch).accesses⟩
  · rw [hspawns] at hj
    split at hj
    · cases hj
    · rename_i hjk
      obtain ⟨h1, h2, h3, h4, h5, h6⟩ := hs.spawn j sp' hj
      refine ⟨h1, h2, ?_, h4, h5, h6⟩
      refine Nat.succ_le_of_lt (Nat.lt_of_le_of_ne h3 fun heq => hjk ?_)
      rw [← h1, ← heq, hlast]
  · obtain ⟨h1, h2, h3, h4, h5⟩ := hs.thread j t hj hl
    refine ⟨h1, h2, h3, h4, ?_⟩
    rw [hspawns]
    by_cases hjk : j = k
    · refine .inr ⟨if_pos hjk, ?_⟩
      subst hjk
      rcases h5 with ⟨sp', hsp', happ⟩ | ⟨hnone, -⟩
      · cases some.inj (hsp.symm.trans hsp')
        rw [happ, hindex]
        exact Nat.lt_succ_self _
      · rw [hsp] at hnone
        cases hnone
    · rw [if_neg hjk]
      exact h5.imp_right fun h => ⟨h.1, Nat.lt_succ_of_lt h.2⟩
  · rcases hnew i hi with hlt | rfl
    · obtain ⟨h1, h2, h3⟩ := hs.table i hlt
      refine ⟨h1, ?_, h3⟩
      rw [hspawns]
      split
      · rfl
      · exact h2
    · refine ⟨?_, ?_, hindex ▸ hown⟩
      · exact hlast.trans_lt hfresh
      · rw [hspawns]
        exact if_pos hlast
  · rcases hnew i hi with hi | rfl
    · rcases hnew j hj with hj | rfl
      · exact hs.distinct i j hi hj heq
      · exact absurd (heq.trans hlast) (hne i hi)
    · rcases hnew j hj with hj | rfl
      · exact absurd (heq.symm.trans hlast) (hne j hj)
      · rfl

/-! ## Retirement -/

theorem appCount_compact : (compact i s).appCount = s.appCount - 1 := rfl

variable {j : Nat}

theorem apps_compact_below (hj : j < i) : (compact i s).apps j = s.apps j := by
  simp only [compact]
  rw [if_neg fun h => Nat.not_le.mpr hj h.1, apps_edit, if_neg (Nat.ne_of_lt hj)]

theorem apps_compact_above (hij : i ≤ j) (hj : j < s.appCount - 1) :
    (compact i s).apps j = s.apps (j + 1) := by
  simp only [compact]
  rw [if_pos ⟨hij, hj⟩, apps_edit, if_neg (by omega)]

theorem apps_compact_outside (hi : i < s.appCount) (hj : s.appCount ≤ j) :
    (compact i s).apps j = s.apps j := by
  simp only [compact]
  rw [if_neg (fun h => absurd h.2 (show ¬ j < s.appCount - 1 by omega)), apps_edit,
    if_neg (by omega)]

theorem apps_compact (hi : i < s.appCount) (hj : j < s.appCount - 1) :
    ∃ j', j' < s.appCount ∧ (compact i s).apps j = s.apps j' ∧ j' = if j < i then j else j + 1 := by
  by_cases hij : j < i
  · exact ⟨j, by omega, apps_compact_below hij, (if_pos hij).symm⟩
  · exact ⟨j + 1, by omega, apps_compact_above (Nat.le_of_not_lt hij) hj, (if_neg hij).symm⟩

theorem Sound.compact (hs : Sound s) (hi : i < s.appCount)
    (hbelow : ∀ k t, s.threads k = some t → t.Live → t.app < s.appCount → t.app < i) :
    Sound (compact i s) := by
  refine ⟨fun j sp hj => ?_, fun j t hj hl => ?_, fun j hj => ?_, fun j j' hj hj' heq => ?_,
    hs.unborn, hs.accesses⟩
  · obtain ⟨h1, h2, h3, h4, h5, h6⟩ := hs.spawn j sp hj
    have happs := apps_compact_outside hi h3
    exact ⟨happs ▸ h1, happs ▸ h2, (Nat.sub_le _ _).trans h3, h4, happs ▸ h5, h6⟩
  · obtain ⟨h1, h2, h3, h4, h5⟩ := hs.thread j t hj hl
    rcases h5 with ⟨sp, hsp, heq⟩ | ⟨hnone, hlt⟩
    · have happs := apps_compact_outside hi (heq ▸ (hs.spawn j sp hsp).above)
      exact ⟨happs ▸ h1, happs ▸ h2, happs ▸ h3, happs ▸ h4, .inl ⟨sp, hsp, heq⟩⟩
    · have hlow := hbelow j t hj hl hlt
      have happs := apps_compact_below (s := s) hlow
      refine ⟨happs ▸ h1, happs ▸ h2, happs ▸ h3, happs ▸ h4, .inr ⟨hnone, ?_⟩⟩
      rw [appCount_compact]
      omega
  · obtain ⟨j', hj', happs, -⟩ := apps_compact hi hj
    obtain ⟨h1, h2, h3⟩ := hs.table j' hj'
    exact ⟨happs ▸ h1, happs ▸ h2, happs ▸ h3⟩
  · obtain ⟨m, hm, happs, hmj⟩ := apps_compact hi hj
    obtain ⟨m', hm', happs', hmj'⟩ := apps_compact hi hj'
    rw [happs, happs'] at heq
    have hmm := hs.distinct m m' hm hm' heq
    split at hmj <;> split at hmj' <;> omega

theorem Sound.accessOf {owner : Option Nat} (hs : Sound s)
    (hown : ∀ m, owner = some m → m = (s.apps i).launch) : Sound (accessOf owner i s) := by
  cases owner with
  | none => exact hs
  | some k => exact hs.access (hown k rfl).symm

theorem Sound.retireApp {gone : Bool} (hs : Sound s)
    (hapart : i < s.appCount → isRemoved i gone s = true →
      ∀ k t, s.threads k = some t → t.Live → t.app < s.appCount → t.app ≤ i) :
    Sound (retireApp i gone s) := by
  unfold Csrss.retireApp
  split
  · rename_i hremove
    obtain ⟨hi, hremoved⟩ := hremove
    have hown := (hs.table i hi).own
    have hthread := hs.accessOf hown.thread
    have hsame : ∀ o, (Csrss.accessOf o i s).apps = s.apps := by rintro (_ | _) <;> rfl
    have hcount : ∀ o o', (Csrss.accessOf o' i (Csrss.accessOf o i s)).appCount = s.appCount := by
      rintro (_ | _) (_ | _) <;> rfl
    have hthreads : ∀ o o', (Csrss.accessOf o' i (Csrss.accessOf o i s)).threads = s.threads := by
      rintro (_ | _) (_ | _) <;> rfl
    have himage : Sound (Csrss.accessOf (s.apps i).image i (Csrss.accessOf (s.apps i).thread i s)) :=
      hthread.accessOf fun m hm => by
        rw [hsame]
        exact hown.image m hm
    refine himage.compact (by rw [hcount]; exact hi) fun k t ht hl hlt => ?_
    rw [hthreads] at ht
    rw [hcount] at hlt
    refine Nat.lt_of_le_of_ne (hapart hi hremoved k t ht hl hlt) fun heq => ?_
    -- a running thread keeps its own entry in the table
    have hkind := (hs.thread k t ht hl).kind
    have hkept := (hs.thread k t ht hl).thread
    rw [heq] at hkind hkept
    rw [isRemoved, if_neg hkind, hkept, decide_eq_true_eq, bind_some, ht,
      map_some, some.injEq] at hremoved
    exact hl hremoved
  · exact hs

/-! ## Steps -/

theorem inPhase_eq {g : Spawn → Session} (h : inPhase k phase s g = some s') :
    ∃ sp, s.spawns k = some sp ∧ sp.phase = phase ∧ s' = g sp := by
  obtain ⟨sp, hsp, heq⟩ := bind_eq_some_iff.mp h
  split at heq
  · cases heq
    exact ⟨sp, hsp, ‹_›, rfl⟩
  · cases heq

theorem inState_eq {g : GuiAppThread → Session} (h : inState k state s g = some s') :
    ∃ t, s.threads k = some t ∧ t.state = state ∧ s' = g t := by
  obtain ⟨t, ht, heq⟩ := bind_eq_some_iff.mp h
  split at heq
  · cases heq
    exact ⟨t, ht, ‹_›, rfl⟩
  · cases heq

section

variable (hs : Sound s)
include hs

theorem Sound.loadImage {found loaded : Bool} (hsp : s.spawns k = some sp)
    (he : sp.phase.Early) : Sound (loadImage k sp found loaded s) := by
  have hnone := (hs.spawn k sp hsp).early he
  unfold Csrss.loadImage
  cases found with
  | false => exact (hs.dropSpawn hnone).spawnFailed sp.request
  | true =>
    cases loaded with
    | false => exact hs.abandonImage hsp he
    | true =>
      refine hs.proceed hsp (fun _ => he) (fun _ => rfl) (fun _ => rfl) (fun a ha ho => ?_)
        fun _ _ _ => ⟨rfl, rfl⟩
      exact ⟨fun m hm => (some.inj hm).symm.trans ha.symm, ho.thread⟩

theorem Sound.proceedId (hsp : s.spawns k = some sp)
    (hearly : phase.Early → sp.phase.Early) : Sound (Csrss.proceed k sp phase id s) :=
  hs.proceed hsp hearly (fun _ => rfl) (fun _ => rfl) (fun _ _ ho => ho) fun _ _ _ => ⟨rfl, rfl⟩

theorem Sound.proceedWindow (hsp : s.spawns k = some sp)
    (hearly : phase.Early → sp.phase.Early) (hwnd : Handle) :
    Sound (Csrss.proceed k sp phase (fun a => { a with window := hwnd }) s) :=
  hs.proceed hsp hearly (fun _ => rfl) (fun _ => rfl) (fun _ _ ho => ⟨ho.image, ho.thread⟩)
    fun _ _ _ => ⟨rfl, rfl⟩

theorem Sound.chooseKind {c : Choice} (hsp : s.spawns k = some sp)
    (he : sp.phase.Early) : Sound (chooseKind k sp c s) := by
  cases c with
  | invalid => exact hs.abandonImage hsp he
  | custom => exact hs.proceedId hsp fun _ => he
  | standard kind hasContext hasThread =>
    simp only [Csrss.chooseKind]
    split
    · exact hs
    · rename_i hkind
      split
      · exact hs.abandonImage hsp he
      · split
        · exact hs.abandon hsp he (fun _ => rfl) (fun _ => rfl) fun _ _ => ⟨nofun, nofun⟩
        · have hnone := (hs.spawn k sp hsp).early he
          have hnext : Sound (Csrss.proceed k sp (.findWindow 0)
              (fun a => { a with kind, thread := some k }) s) := hs.proceed hsp False.elim (fun _ => rfl) (fun _ => rfl)
            (fun a ha ho => ⟨ho.image, fun m hm => (some.inj hm).symm.trans ha.symm⟩)
            fun t ht => by
              rw [hnone] at ht
              cases ht
          have hentry : (Csrss.proceed k sp (.findWindow 0)
              (fun a => { a with kind, thread := some k }) s).apps sp.app =
              { s.apps sp.app with kind, thread := some k } := by
            simp [Csrss.proceed, Session.setSpawn, Session.edit, Session.access, Session.note]
          have hsp' : (Csrss.proceed k sp (.findWindow 0)
              (fun a => { a with kind, thread := some k }) s).spawns k =
              some { sp with phase := .findWindow 0 } := by
            rw [Csrss.proceed, spawns_setSpawn, if_pos rfl]
          refine hnext.newThread hsp' id rfl rfl ?_ ?_
          · rw [hentry]
            exact hkind
          · rw [hentry]

theorem Sound.findMainWindow {tries : Nat} {hwnd : Handle}
    (hsp : s.spawns k = some sp) : Sound (findMainWindow k sp tries hwnd s) := by
  unfold Csrss.findMainWindow
  split
  · split
    · exact hs.proceedWindow hsp False.elim hwnd
    · exact hs.proceedWindow hsp False.elim invalidHandle
  · exact hs.proceedId hsp False.elim

theorem Sound.threadWrite (ht : s.threads k = some t) (hl : t.Live) (hlaunch : ∀ a, (f a).launch = a.launch) (hpid : ∀ a, (f a).pid = a.pid)
    (hown : ∀ a, Own a → Own (f a)) (hkind : ∀ a, (f a).kind = a.kind ∧ (f a).thread = a.thread) :
    Sound (((s.access k t.app).edit t.app f).setThread k { t with state }) := by
  have hk := (hs.thread k t ht hl).launch
  have hedited := (hs.access hk).edit (f := f) hk (hlaunch _) (hpid _) (hown _)
    fun _ _ _ => hkind _
  exact hedited.setState ht (.inl hl)

theorem Sound.threadStart {hasStack : Bool} (ht : s.threads k = some t)
    (hcreated : t.state = .created) : Sound (threadStart k t hasStack s) := by
  have hl : t.Live := by
    rw [GuiAppThread.Live, hcreated]
    nofun
  unfold Csrss.threadStart
  cases hasStack with
  | true => exact (hs.access (hs.thread k t ht hl).launch).setState ht (.inl hl)
  | false =>
    exact hs.threadWrite ht hl (fun _ => rfl) (fun _ => rfl) (fun _ ho => ⟨ho.image, ho.thread⟩)
      fun _ => ⟨rfl, rfl⟩

theorem Sound.threadReturn {code : Int} (ht : s.threads k = some t)
    (hrunning : t.state = .running) : Sound (threadReturn k t code s) := by
  have hl : t.Live := by
    rw [GuiAppThread.Live, hrunning]
    nofun
  exact hs.threadWrite ht hl (fun _ => rfl) (fun _ => rfl) (fun _ ho => ⟨ho.image, ho.thread⟩)
    fun _ => ⟨rfl, rfl⟩

theorem Sound.step {a : Act} (ha : Apart a s) (hstep : step a s = some s') :
    Sound s' := by
  cases a with
  | spawn path commandLine =>
    cases hstep
    exact hs.csrssSpawnGuiInstance path commandLine none ha
  | executeImage path =>
    cases hstep
    unfold csrssExecuteImage
    split
    · exact hs
    · exact hs.csrssSpawnGuiInstance _ _ _ ha
  | load j found loaded =>
    obtain ⟨sp, hsp, hphase, rfl⟩ := inPhase_eq hstep
    exact hs.loadImage hsp (hphase ▸ trivial)
  | resolve j ok =>
    obtain ⟨sp, hsp, hphase, rfl⟩ := inPhase_eq hstep
    have he : sp.phase.Early := hphase ▸ trivial
    cases ok with
    | true => exact hs.proceedId hsp fun _ => he
    | false => exact hs.abandonImage hsp he
  | choose j c =>
    obtain ⟨sp, hsp, hphase, rfl⟩ := inPhase_eq hstep
    exact hs.chooseKind hsp (hphase ▸ trivial)
  | init j ok =>
    obtain ⟨sp, hsp, hphase, rfl⟩ := inPhase_eq hstep
    have he : sp.phase.Early := hphase ▸ trivial
    cases ok with
    | true => exact hs.proceedId hsp fun _ => he
    | false => exact hs.abandonImage hsp he
  | createWindow j hwnd =>
    obtain ⟨sp, hsp, hphase, rfl⟩ := inPhase_eq hstep
    have he : sp.phase.Early := hphase ▸ trivial
    split
    · exact hs.abandon hsp he (fun _ => rfl) (fun _ => rfl) fun _ ho => ⟨nofun, ho.thread⟩
    · exact hs.proceedWindow hsp (fun _ => he) hwnd
  | findWindow j hwnd =>
    obtain ⟨sp, hsp, heq⟩ := bind_eq_some_iff.mp hstep
    split at heq
    · cases heq
      exact hs.findMainWindow hsp
    · cases heq
  | finish j =>
    obtain ⟨sp, hsp, hphase, rfl⟩ := inPhase_eq hstep
    exact hs.finishSpawn hsp (ha sp hsp)
  | threadStart j hasStack =>
    obtain ⟨t, ht, hstate, rfl⟩ := inState_eq hstep
    exact hs.threadStart ht hstate
  | threadReturn j code =>
    obtain ⟨t, ht, hstate, rfl⟩ := inState_eq hstep
    exact hs.threadReturn ht hstate
  | terminate j =>
    obtain ⟨t, ht, rfl⟩ := map_eq_some_iff.mp hstep
    exact hs.setState ht (.inr rfl)
  | retire i gone =>
    cases hstep
    exact hs.retireApp ha
  | takePending =>
    cases hstep
    exact hs.takePendingLaunch

end

/-- In a run of such steps every pointer leads to the entry of its own application, no two
applications share one, and nobody uses the entry of another. -/
theorem session_designated (hrun : ReflTransGen (Step Apart) start s) : Designated s := by
  refine Sound.designated ?_
  induction hrun with
  | refl => exact start_sound
  | tail _ hstep ih =>
    obtain ⟨a, ha, hstep⟩ := hstep
    exact ih.step ha hstep

end Invariant

def okActs (ok : Act → Session → Prop) : List Act → Session → Prop
  | [], _ => True
  | a :: acts, s =>
    match step a s with
    | none => True
    | some s' => ok a s ∧ okActs ok acts s'

theorem run_of_acts {ok : Act → Session → Prop} {acts : List Act} {s s' : Session}
    (hrun : runActs acts s = some s') (hok : okActs ok acts s) : ReflTransGen (Step ok) s s' := by
  induction acts generalizing s with
  | nil =>
    cases hrun
    exact .refl
  | cons a acts ih =>
    obtain ⟨t, hstep, hrest⟩ := bind_eq_some_iff.mp hrun
    rw [okActs, hstep] at hok
    exact .head ⟨a, hok.1, hstep⟩ (ih hrest hok.2)

def shellActs : List Act :=
  [.spawn [0x41] [], .load 0 true true, .resolve 0 true, .choose 0 (.standard .winMain true true),
    .threadStart 0 true, .findWindow 0 7, .finish 0]

theorem shell_designated : ∃ s, runActs shellActs start = some s ∧ s.appCount = 1 ∧ Designated s := by
  have hok : okActs Apart shellActs start :=
    ⟨(fun _ _ _ hsp => nomatch hsp), trivial, trivial, trivial, trivial, trivial,
      (fun sp hsp => (some.inj hsp) ▸ rfl), trivial⟩
  exact ⟨_, rfl, rfl, session_designated (run_of_acts rfl hok)⟩

/-- While the shell waits for its window, its thread starts an application. -/
def overlappingActs : List Act :=
  [.spawn [0x41] [], .load 0 true true, .resolve 0 true, .choose 0 (.standard .winMain true true),
    .threadStart 0 true, .executeImage [0x42]]

/-- The thread of the shell points to an entry that was cleared for the application. -/
theorem session_shared : ∃ s t, runActs overlappingActs start = some s ∧ s.threads 0 = some t ∧
    t.state = .running ∧ t.app = 0 ∧ (s.apps 0).launch = 1 ∧ (s.apps 0).pid ≠ t.pid ∧
    ¬ Designated s := by
  refine ⟨_, _, rfl, rfl, rfl, rfl, rfl, by decide, fun hd => ?_⟩
  have hlaunch := (hd.threads 0 _ rfl nofun).1
  revert hlaunch
  decide

end DiscouNT.Csrss
