import DiscouNT.Lib.History
import DiscouNT.Loader.ImportSlots

/-!
# Loader.DllRuns

What a failed `PeLoadDll` leaves behind, for every call of every run, nested ones included.
-/

namespace DiscouNT.Loader

open List

structure Steady (w : World) : Prop where
  live : ∀ d ∈ w.dllList, (w.image d.image).isSome
  programs : ∀ h ∈ w.programs, h < w.next
  apart : ∀ h ∈ w.programs, ∀ d ∈ w.dllList, d.image ≠ h

theorem Kept.steady {b : Nat} {w w' : World} (h : Kept b w w') (hw : Steady w) : Steady w' where
  live d hd := by
    rcases h.fresh d hd with hd | ⟨-, hlive⟩
    · exact h.live _ (hw.live d hd)
    · exact hlive
  programs k hk := by
    rw [h.programs] at hk
    exact Nat.lt_of_lt_of_le (hw.programs k hk) h.next
  apart k hk d hd := by
    rw [h.programs] at hk
    rcases h.fresh d hd with hd | ⟨hle, -⟩
    · exact hw.apart k hk d hd
    · have := hw.programs k hk
      omega

/-- A failed load keeps every entry and every dependency that was loaded, has no entry with a freed
image, and restores the loading stack and the current DLL. -/
structure CleanFailure (before after : Registry) (nested : List LoadedDll) : Prop where
  entries : ∀ d ∈ before.dllList, d ∈ after.dllList
  nested : ∀ d ∈ nested, d ∈ after.dllList
  live : ∀ d ∈ after.dllList, after.live d.image = true
  depth : after.loadingStack.length = before.loadingStack.length
  current : after.currentLoading = before.currentLoading

instance (before after : Registry) (nested : List LoadedDll) :
    Decidable (CleanFailure before after nested) :=
  decidable_of_iff ((∀ d ∈ before.dllList, d ∈ after.dllList) ∧ (∀ d ∈ nested, d ∈ after.dllList) ∧
      (∀ d ∈ after.dllList, after.live d.image = true) ∧
      after.loadingStack.length = before.loadingStack.length ∧
      after.currentLoading = before.currentLoading)
    ⟨fun ⟨h₁, h₂, h₃, h₄, h₅⟩ => ⟨h₁, h₂, h₃, h₄, h₅⟩, fun ⟨h₁, h₂, h₃, h₄, h₅⟩ => ⟨h₁, h₂, h₃, h₄, h₅⟩⟩

def Event.FailsCleanly : Event → Prop
  | .returned _ before after none nested => CleanFailure before after nested
  | _ => True

def Event.LosesNothing : Event → Prop
  | .rolledBack _ lost => lost = []
  | _ => True

instance : DecidablePred Event.FailsCleanly
  | .returned _ before after none nested =>
    inferInstanceAs (Decidable (CleanFailure before after nested))
  | .returned _ _ _ (some _) _ => isTrue trivial
  | .registered _ _ => isTrue trivial
  | .rolledBack _ _ => isTrue trivial
  | .attached _ => isTrue trivial
  | .loaded _ => isTrue trivial

instance : DecidablePred Event.LosesNothing
  | .rolledBack _ lost => inferInstanceAs (Decidable (lost = []))
  | .returned _ _ _ _ _ => isTrue trivial
  | .registered _ _ => isTrue trivial
  | .attached _ => isTrue trivial
  | .loaded _ => isTrue trivial

structure Reported (w : World) (new : List Event) (w' : World) : Prop where
  next : w.next ≤ w'.next
  list : ∀ d ∈ w.dllList, d ∈ w'.dllList
  loaded : ∀ d, .loaded d ∈ new → d ∈ w'.dllList ∧ w.next ≤ d.image
  clean : ∀ e ∈ new, e.FailsCleanly

theorem Reported.trans {w w' w'' : World} {new new' : List Event} (h : Reported w new w')
    (h' : Reported w' new' w'') : Reported w (new' ++ new) w'' where
  next := Nat.le_trans h.next h'.next
  list d hd := h'.list d (h.list d hd)
  loaded d hd := by
    rcases mem_append.mp hd with hd | hd
    · obtain ⟨hin, hle⟩ := h'.loaded d hd
      exact ⟨hin, Nat.le_trans h.next hle⟩
    · obtain ⟨hin, hle⟩ := h.loaded d hd
      exact ⟨h'.list d hin, hle⟩
  clean e he := by
    rcases mem_append.mp he with he | he
    · exact h'.clean e he
    · exact h.clean e he

/-- The relation between two states of a run that loses nothing. -/
abbrev Reports : World → World → Prop :=
  Lib.Guarded World.history Steady Steady Event.LosesNothing Reported

theorem reports_of_eq {w w' : World} (hh : w'.history = w.history) (hlist : w'.dllList = w.dllList)
    (hnext : w.next ≤ w'.next) (hsteady : Steady w → Steady w') : Reports w w' :=
  Lib.Guarded.of_log_eq hh fun hw =>
    ⟨hsteady hw, hnext, by rw [hlist]; exact fun _ h => h, by simp, by simp⟩

theorem Kept.reports {b : Nat} {w w' : World} (h : Kept b w w') (hh : w'.history = w.history) :
    Reports w w' :=
  Lib.Guarded.of_log_eq hh fun hw =>
    ⟨h.steady hw, h.next, fun _ hd => h.list.subset hd, by simp, by simp⟩

def KeptReports (w w' : World) : Prop := Kept 0 w w' ∧ Reports w w'

theorem Reports.trans {w w' w'' : World} (h : Reports w w') (h' : Reports w' w'') : Reports w w'' :=
  Lib.Guarded.trans Reported.trans h h'

theorem tracking_keptReports : Tracking 0 KeptReports where
  quiet h := ⟨Kept.of_quiet h, (Kept.of_quiet h).reports h.history⟩
  trans h h' := ⟨h.1.trans h'.1, h.2.trans h'.2⟩
  next h := h.1.next

theorem LoadCase.imp {R S : World → World → Prop} {m : Machine} {name : Name} {w : World}
    {r : Option Nat × World} (hRS : ∀ {w w'}, R w w' → S w w') (h : LoadCase R m name w r) :
    LoadCase S m name w r := by
  cases h with
  | found hd => exact .found hd
  | refused hd => exact .refused hd
  | noImage hs h₁ => exact .noImage hs (hRS h₁)
  | noRecord hs h₁ => exact .noRecord hs (hRS h₁)
  | failed hs hp h₁ h₂ => exact .failed hs hp (hRS h₁) (hRS h₂)
  | done hs hp h₁ h₂ => exact .done hs hp (hRS h₁) (hRS h₂)
  | attached hs hp h₁ h₂ h₃ => exact .attached hs hp (hRS h₁) (hRS h₂) (hRS h₃)

section Load

variable {m : Machine} {name path : Name} {im : Image} {w w1 w2 : World}

theorem reports_enter (h : Reports (w.enter name) w1) : Reports w (w1.leave w.currentLoading) := by
  obtain ⟨new, hlog, h⟩ := h
  refine ⟨new, hlog, fun hw hok => ?_⟩
  obtain ⟨hsteady, hrep⟩ := h ⟨hw.live, hw.programs, hw.apart⟩ hok
  exact ⟨⟨hsteady.live, hsteady.programs, hsteady.apart⟩, hrep.next, hrep.list, hrep.loaded, hrep.clean⟩

theorem reports_registerNew : Reports w (w.registerNew m name path im) :=
  Lib.Guarded.of_cons rfl fun hw _ => ⟨kept_registerNew (b := 0) |>.steady hw,
    Nat.le_succ _, fun _ hd => mem_cons_of_mem _ hd, by simp, by simp [Event.FailsCleanly]⟩

theorem reports_loaded (hk : Kept 0 (w.registerNew m name path im) w2)
    (h : Reports (w.registerNew m name path im) w2) :
    Reports w (w2.log (.loaded (newDll name path w.next))) := by
  obtain ⟨new, hlog, hrep⟩ := reports_registerNew.trans h
  refine ⟨.loaded (newDll name path w.next) :: new, ?_, fun hw hok => ?_⟩
  · rw [World.log, hlog]
    rfl
  · obtain ⟨hsteady, hrep⟩ := hrep hw fun e he => hok e (mem_cons_of_mem _ he)
    refine ⟨⟨hsteady.live, hsteady.programs, hsteady.apart⟩, hrep.next, hrep.list, fun d hd => ?_, fun e he => ?_⟩
    · rcases mem_cons.mp hd with hd | hd
      · cases hd
        exact ⟨hk.list.subset (mem_cons_self), Nat.le_refl _⟩
      · exact hrep.loaded d hd
    · rcases mem_cons.mp he with he | he
      · rw [he]
        trivial
      · exact hrep.clean e he

theorem mem_of_lost_nil {d e : LoadedDll} {next : List LoadedDll} (hlost : w.lost d next = [])
    (he : e ∈ w.dllList) (hne : e ≠ d) : e ∈ next := by
  by_contra hout
  exact filter_eq_nil_iff.mp hlost e he (by simp [hne, hout])

theorem reports_rollback (hk : Kept 0 (w.registerNew m name path im) w2)
    (h : Reports (w.registerNew m name path im) w2) :
    Reports w (w2.rollback (newDll name path w.next) w.dllList) := by
  have hkept : Kept 0 w (w2.rollback (newDll name path w.next) w.dllList) := Kept.rollback rfl hk
  obtain ⟨new, hlog, hrep⟩ := h
  refine ⟨.rolledBack (newDll name path w.next) (w2.lost (newDll name path w.next) w.dllList) ::
    (new ++ [.registered name (newDll name path w.next)]), ?_, fun hw hok => ⟨hkept.steady hw, ?_⟩⟩
  · rw [World.rollback, hlog, cons_append, append_assoc]
    rfl
  · obtain ⟨-, hrep⟩ := hrep (kept_registerNew (b := 0) |>.steady hw) fun e he =>
      hok e (mem_cons_of_mem _ (mem_append_left _ he))
    have hlost : w2.lost (newDll name path w.next) w.dllList = [] := hok _ mem_cons_self
    refine ⟨hkept.next, fun _ hd => hd, fun d hd => ?_, fun e he => ?_⟩
    · rcases mem_cons.mp hd with hd | hd
      · cases hd
      · rcases mem_append.mp hd with hd | hd
        · obtain ⟨hin, hle⟩ := hrep.loaded d hd
          have hle : w.next + 1 ≤ d.image := hle
          have hne : d ≠ newDll name path w.next := by
            intro heq
            rw [heq] at hle
            exact Nat.not_succ_le_self _ hle
          exact ⟨mem_of_lost_nil hlost hin hne, by omega⟩
        · simp at hd
    · rcases mem_cons.mp he with he | he
      · rw [he]
        trivial
      · rcases mem_append.mp he with he | he
        · exact hrep.clean e he
        · rw [mem_singleton.mp he]
          trivial

theorem keptReports_attached {d : LoadedDll} : KeptReports w (w.log (.attached d)) :=
  ⟨kept_log, Lib.Guarded.of_cons rfl fun hw _ =>
    ⟨⟨hw.live, hw.programs, hw.apart⟩, Nat.le_refl _, fun _ hd => hd, by simp,
      by simp [Event.FailsCleanly]⟩⟩

theorem LoadCase.reports {r : Option Nat × World} (h : LoadCase KeptReports m name w r) :
    Reports w r.2 := by
  cases h with
  | found _ => exact (Kept.of_quiet (Quiet.refl 0 w)).reports rfl
  | refused _ => exact (Kept.of_quiet (Quiet.refl 0 w)).reports rfl
  | noImage _ h₁ => exact reports_enter h₁.2
  | noRecord _ h₁ => exact (reports_enter h₁.2).trans (Kept.reports (b := 0) kept_addImage_free rfl)
  | failed _ _ h₁ h₂ => exact (reports_enter h₁.2).trans (reports_rollback h₂.1 h₂.2)
  | done _ _ h₁ h₂ => exact (reports_enter h₁.2).trans (reports_loaded h₂.1 h₂.2)
  | attached _ _ h₁ h₂ h₃ =>
    have h := tracking_keptReports.trans h₂ (tracking_keptReports.trans keptReports_attached h₃)
    exact (reports_enter h₁.2).trans (reports_loaded h.1 h.2)

theorem reports_finish {result : Option Nat} (hk : Kept 0 w w1) (h : Reports w w1) :
    Reports w (w1.finish w name result) := by
  obtain ⟨new, hlog, hrep⟩ := h
  have hnew := Lib.take_log hlog
  refine ⟨.returned name w.registry w1.registry result (new.filterMap Event.loaded?) :: new, ?_,
    fun hw hok => ?_⟩
  · rw [World.finish, World.log, hnew, hlog]
    rfl
  · obtain ⟨hsteady, hrep⟩ := hrep hw fun e he => hok e (mem_cons_of_mem _ he)
    refine ⟨⟨hsteady.live, hsteady.programs, hsteady.apart⟩, hrep.next, hrep.list, fun d hd => ?_, fun e he => ?_⟩
    · rcases mem_cons.mp hd with hd | hd
      · cases hd
      · exact hrep.loaded d hd
    · rcases mem_cons.mp he with he | he
      · rw [he]
        cases result with
        | some _ => trivial
        | none =>
          refine ⟨hrep.list, fun d hd => ?_, hsteady.live, congrArg List.length hk.stack, hk.current⟩
          obtain ⟨e, he, hd⟩ := mem_filterMap.mp hd
          cases e <;> simp only [Event.loaded?, reduceCtorEq, Option.some.injEq] at hd
          rw [hd] at he
          exact (hrep.loaded d he).1
      · exact hrep.clean e he

end Load

theorem peLoadDll_keptReports (m : Machine) (n : Nat) : Tracks KeptReports (peLoadDll m n) := by
  refine ⟨fun name w => ⟨(peLoadDll_tracks_kept m n 0).follows name w, ?_⟩,
    (peLoadDll_tracks_kept m n 0).current⟩
  induction n generalizing name w with
  | zero => exact (Kept.of_quiet (b := 0) quiet_hang).reports rfl
  | succ n ih =>
    have hl : Tracks KeptReports (peLoadDll m n) :=
      ⟨fun name w => ⟨(peLoadDll_tracks_kept m n 0).follows name w, ih name w⟩,
        (peLoadDll_tracks_kept m n 0).current⟩
    have hcase := loadDllBody_case (m := m) tracking_keptReports hl n name (Nat.zero_le w.next)
    exact reports_finish (hcase.imp And.left).kept hcase.reports

/-! ## Programs -/

section Programs

variable {w w2 : World} {im : Image}

theorem apart_of_addImage (hw : Steady w) (hk : Kept 0 (w.addImage im) w2) :
    ∀ d ∈ w2.dllList, d.image ≠ w.next := by
  intro d hd
  rcases hk.fresh d hd with hd | ⟨hle, -⟩
  · exact Nat.ne_of_lt (lt_next_of_live (hw.live d hd))
  · exact Nat.ne_of_gt hle

theorem reports_program (hk : Kept 0 (w.addImage im) w2) (h : Reports (w.addImage im) w2) :
    Reports w { w2 with programs := w.next :: w2.programs } := by
  obtain ⟨new, hlog, h⟩ := (Kept.reports (b := 0) kept_addImage rfl).trans h
  refine ⟨new, hlog, fun hw hok => ?_⟩
  obtain ⟨hsteady, hrep⟩ := h hw hok
  refine ⟨⟨hsteady.live, fun k hk' => ?_, fun k hk' => ?_⟩,
    hrep.next, hrep.list, hrep.loaded, hrep.clean⟩
  · rcases mem_cons.mp hk' with hk' | hk'
    · rw [hk']
      exact hk.next
    · exact hsteady.programs k hk'
  · rcases mem_cons.mp hk' with hk' | hk'
    · rw [hk']
      exact fun d hd => apart_of_addImage hw hk d hd
    · exact hsteady.apart k hk'

theorem reports_failed_program (hk : Kept 0 (w.addImage im) w2) (h : Reports (w.addImage im) w2) :
    Reports w (w2.peFreeImage w.next) := by
  obtain ⟨new, hlog, h⟩ := (Kept.reports (b := 0) kept_addImage rfl).trans h
  refine ⟨new, hlog, fun hw hok => ?_⟩
  obtain ⟨hsteady, hrep⟩ := h hw hok
  refine ⟨⟨fun d hd => ?_, hsteady.programs, hsteady.apart⟩,
    hrep.next, hrep.list, hrep.loaded, hrep.clean⟩
  exact live_peFreeImage (apart_of_addImage hw hk d hd) (hsteady.live d hd)

theorem reports_exitProgram {h : Nat} (hp : h ∈ w.programs) :
    Reports w { w.peFreeImage h with programs := w.programs.erase h } := by
  refine reports_of_eq rfl rfl (Nat.le_refl _) fun hw => ⟨fun d hd => ?_, fun k hk => ?_, fun k hk => ?_⟩
  · exact live_peFreeImage (hw.apart h hp d hd) (hw.live d hd)
  · exact hw.programs k (mem_of_mem_erase hk)
  · exact hw.apart k (mem_of_mem_erase hk)

theorem reports_initProgram (m : Machine) (n steps : Nat) (im : Image) (w : World) :
    Reports w (initProgram m (peLoadDll m n) steps im w) := by
  have h := peResolveImports_tracks (m := m) tracking_keptReports
    (peLoadDll_keptReports m n) steps (Nat.zero_le w.next) (w.addImage im)
  have hquiet := quiet_relocate (w := (peResolveImports m (peLoadDll m n) steps w.next
    (w.addImage im)).world) (Nat.zero_le w.next)
  have h' := tracking_keptReports.trans h (tracking_keptReports.quiet hquiet)
  unfold initProgram
  dsimp only
  split
  · rw [← hquiet.programs]
    exact reports_program h'.1 h'.2
  · exact reports_failed_program h.1 h.2

theorem reports_startProgram (m : Machine) (n steps : Nat) (file : File) (driver : Bool) (w : World) :
    Reports w (startProgram m (peLoadDll m n) steps file driver w) := by
  obtain ⟨new, hlog, h⟩ := (peLoadImage_follows (loaderEnv_follows (m := m) tracking_keptReports
    (peLoadDll_keptReports m n)) m.arch file { w with loadingDriver := driver }).2
  have hstart : Reports w { (peLoadImage m.arch (loaderEnv m (peLoadDll m n)) file
      { w with loadingDriver := driver }).world with loadingDriver := false } := by
    refine ⟨new, hlog, fun hw hok => ?_⟩
    obtain ⟨hsteady, hrep⟩ := h ⟨hw.live, hw.programs, hw.apart⟩ hok
    exact ⟨⟨hsteady.live, hsteady.programs, hsteady.apart⟩,
      hrep.next, hrep.list, hrep.loaded, hrep.clean⟩
  unfold startProgram
  dsimp only
  split
  · exact hstart
  · exact hstart.trans (reports_initProgram m n steps _ _)

end Programs

theorem reports_step (m : Machine) (n : Nat) (w : World) (op : Op) : Reports w (step m n w op) := by
  cases op with
  | request r => exact (serve_tracks tracking_keptReports (peLoadDll_keptReports m n) r w).2
  | startProgram file driver => exact reports_startProgram m n n file driver w
  | exitProgram h =>
    unfold step
    dsimp only
    split
    · rename_i hp
      exact reports_exitProgram hp
    · exact reports_of_eq rfl rfl (Nat.le_refl _) fun hw => hw

theorem reports_steps (m : Machine) (n : Nat) :
    ∀ (ops : List Op) (w : World), Reports w (ops.foldl (step m n) w)
  | [], _ => reports_of_eq rfl rfl (Nat.le_refl _) fun hw => hw
  | op :: ops, w => (reports_step m n w op).trans (reports_steps m n ops _)

/-- **Failures are clean**, for every volume, every behaviour of the DLLs and every run in which no
rollback takes another DLL off the list. -/
theorem failed_loads_are_clean {m : Machine} {n : Nat} {ops : List Op}
    (hloses : ∀ e ∈ (run m n ops).history, e.LosesNothing) :
    ∀ e ∈ (run m n ops).history, e.FailsCleanly := by
  obtain ⟨new, hlog, h⟩ := reports_steps m n ops {}
  have hnew : (run m n ops).history = new := hlog.trans (append_nil new)
  rw [hnew] at hloses ⊢
  exact (h ⟨by simp, by simp, by simp⟩ hloses).2.clean

def sampleVolume : Machine :=
  sampleMachine [(ascii "A.DLL", samplePe (ascii "B.DLL") (ascii "C.DLL") 400),
    (ascii "B.DLL", samplePe [] [] 0)]

theorem failed_loads_are_clean_after_b :
    (run sampleVolume 5 [.request (.peLoadDll (ascii "B.DLL")),
      .request (.peLoadDll (ascii "A.DLL"))]).dllList.map (·.name) = [ascii "B.DLL"] ∧
    (run sampleVolume 5 [.request (.peLoadDll (ascii "B.DLL")),
      .request (.peLoadDll (ascii "A.DLL"))]).lastError = importMissingDllError (ascii "C.DLL") ∧
    ∀ e ∈ (run sampleVolume 5 [.request (.peLoadDll (ascii "B.DLL")),
      .request (.peLoadDll (ascii "A.DLL"))]).history, e.FailsCleanly :=
  ⟨by decide +kernel, by decide +kernel, failed_loads_are_clean (by decide +kernel)⟩

theorem rollback_loses_dependency :
    (run sampleVolume 5 [.request (.peLoadDll (ascii "A.DLL"))]).hung = false ∧
    ∃ e ∈ (run sampleVolume 5 [.request (.peLoadDll (ascii "A.DLL"))]).history,
      ¬ e.FailsCleanly := by
  decide +kernel

end DiscouNT.Loader
