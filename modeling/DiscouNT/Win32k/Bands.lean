import DiscouNT.Win32k.Entries

/-!
# Win32k.Bands

The order of `window_list` over whole runs, as long as no window has an owner: desktops, then
ordinary windows, then topmost ones.
-/

namespace DiscouNT.Win32k

open Lib Relation List

/-- Each live window is in the list once, the desktops first and the topmost windows last. -/
structure BandLaw (s : State) : Prop where
  nodup : s.list.Nodup
  mem : ∀ h, h ∈ s.list ↔ s.Alive h
  order : Ordered s.win s.list

structure Front (s : State) (h : Handle) (s' : State) : Prop where
  others : s'.list.erase h = s.list.erase h
  above : h ∈ s.list → desktopAt s.win h = false → ∃ A B, s'.list = A ++ h :: B ∧
    ∀ k ∈ B, topmostAt s.win h = false ∧ topmostAt s.win k = true

/-- `s`, or `s` with `WS_EX_TOPMOST` of `h` switched as `Win32kSetWindowPos` does before it raises
the window. -/
def Switched (s : State) (h : Handle) (t : State) : Prop :=
  t = s ∨ ∃ insertAfter, insertAfter ≠ invalidHandle ∧ t = updWin h (topmostFields insertAfter) s

def bandRules : Rules := ⟨True, False, False, False⟩

section Law

variable {env : Env} {i : Hold} {s s' t : State} {h : Handle} {w : Window} {c : Call} {n fuel : Nat}

theorem erase_insertIdx {l : List Handle} {k : Nat} (hk : k ≤ l.length) (hh : h ∉ l) :
    (l.insertIdx k h).erase h = l := by
  rw [insertIdx_eq hk, erase_append_right _ fun hm => hh (mem_of_mem_take hm),
    erase_cons_head, take_append_drop]

theorem Unplaced.front (hu : Unplaced s h) (hs : Base i s) (hfuel : enough ≤ fuel) :
    Front s h (raiseWindow fuel h s) := by
  by_cases hfix : h ∉ s.list ∨ ∀ w, s.win h = some w → w.desktop = true
  · rw [raise_fixed hfix]
    refine ⟨rfl, fun hh hd => ?_⟩
    obtain ⟨w, hw⟩ := (hs.listed h hh).win
    rw [desktopAt, hw, Option.any_some, hfix.resolve_left (not_not.mpr hh) w hw] at hd
    cases hd
  · rw [not_or, not_not] at hfix
    obtain ⟨hh, hdesk⟩ := hfix
    obtain ⟨w, hw⟩ := (hs.listed h hh).win
    have hd : w.desktop = false := by
      by_contra hd
      exact hdesk fun v hv => by simpa [Option.some.inj (hv.symm.trans hw)] using hd
    have hlen : s.list.length < fuel := by
      have hshort := hs.short
      have henough : maxWindows < enough := by decide
      omega
    have hle := front_le s.win hh
    have hnot : h ∉ s.list.erase h := fun hm => (hs.nodup.mem_erase_iff.mp hm).1 rfl
    rw [raise_unowned hu.unowned hs.nodup hh (hs.listed h hh).ne_invalid hw hd hlen]
    refine ⟨erase_insertIdx hle hnot, fun _ _ => ⟨_, _, insertIdx_eq hle, fun k hk => ?_⟩⟩
    cases htop : topmostAt s.win h with
    | true =>
      rw [Win32k.front, if_pos htop, drop_length] at hk
      cases hk
    | false =>
      rw [Win32k.front, if_neg (by rw [htop]; decide)] at hk
      exact ⟨rfl, of_mem_drop_findIdx (hu.order.imp fun hab => hab.2) hk⟩

/-- In every run without owners, in which no desktop window is created as a topmost one, the bands
are kept, and a raise moves its window to the front of its band. -/
theorem bands_kept (hs : Started s) (hrun : Run bandRules n s s') :
    BandLaw s' ∧ ∀ h t, Switched s' h t → ∀ fuel, enough ≤ fuel →
      Front t h (raiseWindow fuel h t) := by
  have hsound := run_sound hrun (started_sound hs)
  have hb := hsound.bands trivial
  refine ⟨⟨hsound.base.nodup, fun h => ⟨hsound.base.listed h, hb.all h⟩, hb.order⟩, ?_⟩
  rintro h t (rfl | ⟨insertAfter, hne, rfl⟩) fuel hfuel
  · exact (hb.unplaced h).front hsound.base hfuel
  · obtain ⟨hloose, hunplaced⟩ := hsound.unplace (h := h) hne
    exact (hunplaced trivial).front hloose.base hfuel

/-- A creation without an owner and without `WS_EX_TOPMOST`. -/
def Call.plain : Call → Bool
  | .createWindowByClass _ _ _ _ _ _ _ exstyle owner =>
    decide (owner = invalidHandle) && !exstyle.has wsExTopmost
  | .createWindowEx _ _ _ _ _ _ _ exstyle owner =>
    decide (owner = invalidHandle) && !exstyle.has wsExTopmost
  | _ => true

theorem madeByClass_window {hClass : Handle} {title : Name} {x y w0 h0 : Int} {style exstyle : Flags}
    {owner : Handle} (hm : madeByClass env hClass title x y w0 h0 style exstyle owner s =
      some (h, w, t)) : ∃ wc, w = newWindow wc title x y w0 h0 style exstyle owner := by
  unfold madeByClass at hm
  split at hm
  · cases hm
  · split at hm
    · cases hm
    · rename_i wc _ _
      split at hm
      · simp only at hm
        split at hm
        · cases hm
        · cases hm
          exact ⟨wc, rfl⟩
      · cases hm

theorem newWindow_plain {wc : WndClass} {title : Name} {x y w0 h0 : Int} {style exstyle : Flags}
    {owner : Handle} (hp : (decide (owner = invalidHandle) && !exstyle.has wsExTopmost) = true) :
    (newWindow wc title x y w0 h0 style exstyle owner).owner = invalidHandle ∧
      ((newWindow wc title x y w0 h0 style exstyle owner).desktop = true →
        windowIsTopmost (newWindow wc title x y w0 h0 style exstyle owner) = false) := by
  rw [Bool.and_eq_true, decide_eq_true_eq, Bool.not_eq_true'] at hp
  refine ⟨hp.1, fun hd => ?_⟩
  have hname : wc.className = text "Desktop" := of_decide_eq_true hd
  simp only [windowIsTopmost, newWindow, hp.2, hname, Bool.false_or, Bool.or_eq_false_iff]
  constructor <;> decide

theorem made_plain (hc : c.plain = true) (hm : made env s c = some (h, w, t)) :
    w.owner = invalidHandle ∧ (w.desktop = true → windowIsTopmost w = false) := by
  cases c with
  | createWindowByClass hClass title x y w0 h0 style exstyle owner =>
    obtain ⟨wc, rfl⟩ := madeByClass_window hm
    exact newWindow_plain hc
  | createWindowEx className title x y w0 h0 style exstyle owner =>
    simp only [made] at hm
    split at hm
    · cases hm
    · obtain ⟨wc, rfl⟩ := madeByClass_window hm
      exact newWindow_plain hc
  | _ => cases hm

theorem proper_plain (hfuel : enough ≤ env.fuel) (hc : c.plain = true)
    (hroom : s.list.length < maxWindows) : Proper bandRules env c s where
  fuel := hfuel
  raise := fun hno => absurd trivial hno
  create := fun _ _ _ _ hm => ⟨(made_plain hc hm).1, (made_plain hc hm).2, hroom⟩
  activate := False.elim
  destroy := False.elim
  address := False.elim
  once := False.elim

end Law

def boot : State := desk []

theorem boot_started : Started boot where
  objects := fun h o ho => by cases ho
  list := rfl
  stray := rfl
  activeWindow := rfl
  redrawInProgress := rfl
  pointer := rfl
  log := rfl

/-- Window procedures that do nothing, and loops that are followed to their end. -/
def calm : Env := { quiet with fuel := enough }

theorem calm_procedures (R : Rules) : Procedures R 0 calm :=
  fun _ _ => ⟨fun _ => ⟨fun _ hn => entry_of_getElem? hn, rfl, rfl⟩, rfl⟩

def runAll (env : Env) (calls : List Call) (s : State) : State :=
  calls.foldl (fun s c => exec env c s) s

def passes (test : State → Call → Bool) (env : Env) : List Call → State → Bool
  | [], _ => true
  | c :: calls, s => test s c && passes test env calls (exec env c s)

theorem run_of_passes {R : Rules} {n : Nat} {env : Env} {test : State → Call → Bool}
    (henv : Procedures R n env) (htest : ∀ s c, test s c = true → Proper R env c s)
    {calls : List Call} {s : State} (hp : passes test env calls s = true) :
    Run R n s (runAll env calls s) := by
  induction calls generalizing s with
  | nil => exact .refl
  | cons c calls ih =>
    rw [passes, Bool.and_eq_true] at hp
    exact .head ⟨env, c, henv, htest s c hp.1, rfl⟩ (ih hp.2)

def plainCalls : List Call :=
  [.registerClass (text "Desktop") 0 none,
    .createWindowEx (text "Desktop") (text "Desk") 0 0 640 480 wsVisible 0 invalidHandle,
    .registerClass (text "Main") 0 none,
    .createWindowEx (text "Main") (text "App") 0 0 100 100 wsVisible 0 invalidHandle,
    .activateWindow 3]

theorem bands_kept_plain : BandLaw (runAll calm plainCalls boot) ∧
    ∀ h t, Switched (runAll calm plainCalls boot) h t → ∀ fuel, enough ≤ fuel →
      Front t h (raiseWindow fuel h t) :=
  bands_kept boot_started (run_of_passes (calm_procedures bandRules)
    (fun _ _ htest => by
      rw [Bool.and_eq_true, decide_eq_true_eq] at htest
      exact proper_plain (Nat.le_refl _) htest.1 htest.2)
    (show passes (fun s c => c.plain && decide (s.list.length < maxWindows)) calm plainCalls boot =
      true by decide +kernel))

def topmostDesktop : List Call :=
  [.registerClass (text "Desktop") 0 none,
    .createWindowEx (text "Desktop") (text "Desk") 0 0 640 480 wsVisible wsExTopmost invalidHandle,
    .registerClass (text "Main") 0 none,
    .createWindowEx (text "Main") (text "App") 0 0 100 100 wsVisible 0 invalidHandle]

/-- The new window is put below the desktop. -/
theorem bands_broken : Started boot ∧ (runAll calm topmostDesktop boot).list = [3, 1] ∧
    desktopAt (runAll calm topmostDesktop boot).win 1 = true ∧
    ((runAll calm topmostDesktop boot).win 3).map (·.owner) = some invalidHandle ∧
    ¬ BandLaw (runAll calm topmostDesktop boot) := by
  have hlist : (runAll calm topmostDesktop boot).list = [3, 1] := by decide +kernel
  refine ⟨boot_started, hlist, by decide +kernel, by decide +kernel, fun hlaw => ?_⟩
  have horder := hlaw.order
  rw [hlist] at horder
  have hpair := (pairwise_cons.mp horder).1 1 (mem_singleton_self 1)
  revert hpair
  decide +kernel

end DiscouNT.Win32k
