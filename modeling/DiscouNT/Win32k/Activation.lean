import DiscouNT.Win32k.Bands

/-!
# Win32k.Activation

The active window over whole runs.
-/

namespace DiscouNT.Win32k

open Lib

def activeRules : Rules := ⟨False, True, False, False⟩

section Law

variable {env : Env} {s s' t : State} {h k : Handle} {w v : Window} {c : Call} {n : Nat}

/-- In every run that raises only windows with their popups in a chain and activates no window that
was destroyed, a listed window is active exactly when it is `active_window`, and that is none or a
window that is in use and no desktop. -/
theorem activation_kept (hs : Started s) (hrun : Run activeRules n s s') : Active s' :=
  (run_sound hrun (started_sound hs)).active trivial

theorem madeByClass_win {hClass : Handle} {title : Name} {x y w0 h0 : Int} {style exstyle : Flags}
    {owner : Handle} (hm : madeByClass env hClass title x y w0 h0 style exstyle owner s =
      some (h, w, t)) (hv : t.win k = some v) : v = w ∨ s.win k = some v := by
  unfold madeByClass at hm
  split at hm
  · cases hm
  · rcases referenceClass_cases env hClass s with he | ⟨wc, c, he, -, -⟩
    · rw [he] at hm
      cases hm
    · rw [he] at hm
      simp only at hm
      split at hm
      · rcases createObject_cases (env.kmalloc 1 (retain hClass s)) title
          (.window (newWindow wc title x y w0 h0 style exstyle owner)) (retain hClass s) with
          he | ⟨h', s', he, hb⟩
        · rw [he] at hm
          cases hm
        · rw [he] at hm
          cases hm
          have hobjects : ∀ d, (insertWindow d h s').objects = s'.objects := fun d => by
            unfold insertWindow
            split <;> rfl
          rw [win_congr (hobjects _), hb.win] at hv
          split at hv
          · cases hv
            exact .inl rfl
          · rw [win_retain] at hv
            exact .inr hv
      · cases hm

theorem made_win (hm : made env s c = some (h, w, t)) (hv : t.win k = some v) :
    v = w ∨ s.win k = some v := by
  cases c with
  | createWindowByClass hClass title x y w0 h0 style exstyle owner => exact madeByClass_win hm hv
  | createWindowEx className title x y w0 h0 style exstyle owner =>
    simp only [made] at hm
    split at hm
    · cases hm
    · rcases madeByClass_win hm hv with heq | hold
      · exact .inl heq
      · exact .inr hold
  | _ => cases hm

theorem orderly_plain (hun : ∀ k v, s.win k = some v → v.owner = invalidHandle)
    (hc : c.plain = true) (hr : Raises env c s h t) : Orderly t h := by
  have hun' : ∀ k v, t.win k = some v → v.owner = invalidHandle := by
    intro k v hv
    cases hr with
    | create hm _ =>
      rcases made_win hm hv with rfl | hv
      · exact (made_plain hc hm).1
      · exact hun k v hv
    | pos _ hne =>
      rw [win_updWin] at hv
      split at hv
      · obtain ⟨u, hu, rfl⟩ := Option.map_eq_some_iff.mp hv
        unfold topmostFields
        split
        · exact hun h u hu
        · split <;> exact hun h u hu
      · exact hun k v hv
    | _ => exact hun k v hv
  intro hh w hw hd
  have hne : h ≠ invalidHandle := by
    rintro rfl
    rw [win_invalidHandle] at hw
    cases hw
  exact orderly_unowned hun' hne hh w hw hd

def settled (s : State) : Bool :=
  (List.range maxObjects).all fun h => (s.lookup h).all fun o =>
    !o.destroyed && (o.body.window?).all fun w => decide (w.owner = invalidHandle)

theorem lt_of_lookup {o : Object} (ho : s.lookup h = some o) : h < maxObjects := by
  unfold State.lookup at ho
  split at ho
  · assumption
  · cases ho

theorem settled_spec (hs : settled s = true) :
    (∀ k v, s.win k = some v → v.owner = invalidHandle) ∧ ∀ k, ¬ s.Dead k := by
  have hall : ∀ k o, s.lookup k = some o → o.destroyed = false ∧
      (o.body.window?).all (fun w => decide (w.owner = invalidHandle)) = true := by
    intro k o ho
    have hk := (List.all_eq_true.mp hs) k (List.mem_range.mpr (lt_of_lookup ho))
    rw [ho, Option.all_some, Bool.and_eq_true, Bool.not_eq_true'] at hk
    exact hk
  constructor
  · intro k v hv
    obtain ⟨o, ho, hb⟩ := State.win_eq_some.mp hv
    have hown := (hall k o ho).2
    rw [hb] at hown
    simpa [Body.window?] using hown
  · rintro k ⟨c, hc, hd⟩
    obtain ⟨o, ho, rfl⟩ := lookup_of_core hc
    have hnot := (hall k o ho).1
    rw [Object.core] at hd
    rw [hnot] at hd
    cases hd

theorem proper_settled (hfuel : enough ≤ env.fuel) (hs : settled s = true) (hc : c.plain = true) :
    Proper activeRules env c s where
  fuel := hfuel
  raise := fun _ _ _ hr => orderly_plain (settled_spec hs).1 hc hr
  create := False.elim
  activate := fun _ h _ => (settled_spec hs).2 h
  destroy := False.elim
  address := False.elim
  once := False.elim

end Law

def activeCalls : List Call :=
  [.registerClass (text "Main") 0 none,
    .createWindowEx (text "Main") (text "First") 0 0 100 100 wsVisible 0 invalidHandle,
    .createWindowEx (text "Main") (text "Second") 50 50 100 100 wsVisible 0 invalidHandle,
    .activateWindow 1, .setWindowShowState 1 swMinimize, .destroyWindow 2]

theorem activation_kept_calls : Active (runAll calm activeCalls boot) :=
  activation_kept boot_started (run_of_passes (calm_procedures activeRules)
    (fun _ _ htest => by
      rw [Bool.and_eq_true] at htest
      exact proper_settled (Nat.le_refl _) htest.1 htest.2)
    (show passes (fun s c => settled s && c.plain) calm activeCalls boot = true by decide +kernel))

/-- A hidden window that a mouse press leaks a reference to, destroyed and then activated. -/
def lateActivation : List Call :=
  [.registerClass (text "Main") 0 none,
    .createWindowEx (text "Main") (text "Hidden") 0 0 100 100 0 0 invalidHandle,
    .handleMouseDown 5 5 1, .destroyWindow 1, .activateWindow 1]

theorem activation_lost : Started boot ∧ (runAll calm lateActivation boot).activeWindow = 1 ∧
    ((runAll calm lateActivation boot).lookup 1).map (·.destroyed) = some true ∧
    ¬ Active (runAll calm lateActivation boot) := by
  have hactive : (runAll calm lateActivation boot).activeWindow = 1 := by decide +kernel
  have hdead : ((runAll calm lateActivation boot).lookup 1).map (·.destroyed) = some true := by
    decide +kernel
  refine ⟨boot_started, hactive, hdead, fun hlaw => ?_⟩
  rcases hlaw.current with hinv | ⟨⟨o, w, ho, -, hd⟩, -⟩
  · rw [hactive] at hinv
    exact absurd hinv (by decide)
  · rw [hactive] at ho
    rw [ho, Option.map_some, hd] at hdead
    cases hdead

end DiscouNT.Win32k
