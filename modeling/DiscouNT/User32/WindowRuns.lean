import DiscouNT.Lib.History
import DiscouNT.User32.WindowForest

/-!
# User32.WindowRuns

What holds of the window table between two calls: parents and the windows that `g_focus` and the like
name are there, every buffer is in one entry or was freed once, and a `WM_QUIT` went to the owner of
the window. A destruction keeps this unless a child window is destroyed before its own children, one
of the four variables names a window that goes, or the current process is not the one that loses its
last window.
-/

namespace DiscouNT.User32

open Lib List Function Option

section Invariant

variable {s s' t : Desktop} {gone : WindowSlot → Prop} {i j : WindowSlot} {hwnd : Hwnd}
  {w : U32Window}

def Live (s : Desktop) (hwnd : Hwnd) : Prop := ∃ i, Alive s i ∧ (s.windows i).hwnd = hwnd

structure TableKept (s : Desktop) : Prop where
  parents : ∀ i, Alive s i → (s.windows i).parent = .null ∨ Live s (s.windows i).parent
  globals : ∀ g, s.globals g = .null ∨ Live s (s.globals g)
  tally : ∀ b, tally s b = if b < s.buffers then 1 else 0
  empty : ∀ i, ¬ Alive s i → (s.windows i).editText = none ∧ (s.windows i).listviewData = none
  quits : ∀ q ∈ s.quits, q.1 = q.2

structure Settled (s : Desktop) : Prop extends TableKept s, Rooted s where
  top : ∀ i, Alive s i → (s.windows i).topLevel = true →
    (∃ n, (s.windows i).hwnd = .native n) ∧ (s.windows i).parent = .null
  child : ∀ i, Alive s i → (s.windows i).topLevel = false → (s.windows i).hwnd = .child i
  frames : ∀ f ∈ s.frames, ∃ n, f.hwnd = .native n

theorem Settled.hwnd_ne_null (h : Settled s) (hi : Alive s i) : (s.windows i).hwnd ≠ .null := by
  rcases ht : (s.windows i).topLevel with _ | _
  · rw [h.child i hi ht]
    simp
  · obtain ⟨⟨n, hn⟩, -⟩ := h.top i hi ht
    rw [hn]
    simp

theorem settled_empty : Settled {} where
  parents i hi := by cases hi
  globals g := .inl rfl
  tally b := by simp [User32.tally]
  empty i _ := ⟨rfl, rfl⟩
  quits q hq := by cases hq
  distinct i j hi := by cases hi
  ranked := ⟨fun _ => 0, fun i j hi => by cases hi⟩
  top i hi := by cases hi
  child i hi := by cases hi
  frames f hf := by cases hf

theorem Removed.live_iff (hr : Removed s s' gone) :
    Live s' hwnd ↔ ∃ i, Alive s i ∧ ¬ gone i ∧ (s.windows i).hwnd = hwnd := by
  constructor
  · rintro ⟨i, hi, hk⟩
    rw [hr.eq_of_alive hi] at hk
    exact ⟨i, (hr.alive_iff.mp hi).1, (hr.alive_iff.mp hi).2, hk⟩
  · rintro ⟨i, hi, hg, hk⟩
    refine ⟨i, hr.alive_iff.mpr ⟨hi, hg⟩, ?_⟩
    rwa [hr.kept i hg]

theorem Settled.live_removed (h : Settled s) (hr : Removed s s' gone) (hl : hwnd = .null ∨ Live s hwnd) :
    (hwnd = .null ∨ Live s' hwnd) ↔ ∀ i, Alive s i → gone i → (s.windows i).hwnd ≠ hwnd := by
  rw [hr.live_iff]
  constructor
  · rintro (rfl | ⟨j, hj, hg, rfl⟩) i hi hgi hk
    · exact h.hwnd_ne_null hi hk
    · exact hg (h.distinct i j hi hj hk ▸ hgi)
  · intro hall
    refine hl.imp_right ?_
    rintro ⟨i, hi, rfl⟩
    exact ⟨i, hi, fun hg => hall i hi hg rfl, rfl⟩

theorem Settled.kept_iff (h : Settled s) (hr : Removed s s' gone) :
    TableKept s' ↔
      (∀ j, Alive s j → ¬ gone j → ∀ i, Alive s i → gone i →
        (s.windows i).hwnd ≠ (s.windows j).parent) ∧
      ∀ g i, Alive s i → gone i → (s.windows i).hwnd ≠ s.globals g := by
  constructor
  · intro hk
    constructor
    · intro j hj hg
      have hp := hk.parents j (hr.alive_iff.mpr ⟨hj, hg⟩)
      rw [hr.kept j hg] at hp
      exact (h.live_removed hr (h.parents j hj)).mp hp
    · intro g
      have hp := hk.globals g
      rw [hr.globals] at hp
      exact (h.live_removed hr (h.globals g)).mp hp
  · rintro ⟨hparents, hglobals⟩
    constructor
    · intro j hj
      obtain ⟨hja, hg⟩ := hr.alive_iff.mp hj
      rw [hr.kept j hg]
      exact (h.live_removed hr (h.parents j hja)).mpr (hparents j hja hg)
    · intro g
      rw [hr.globals]
      exact (h.live_removed hr (h.globals g)).mpr (hglobals g)
    · intro b
      rw [hr.tally, h.tally, hr.buffers]
    · intro i hi
      by_cases hg : gone i
      · rw [hr.clears i hg]
        exact ⟨rfl, rfl⟩
      · rw [hr.kept i hg]
        exact h.empty i fun ha => hi (hr.alive_iff.mpr ⟨ha, hg⟩)
    · rw [hr.quits]
      exact h.quits

theorem Settled.removed (h : Settled s) (hr : Removed s s' gone) (hk : TableKept s') : Settled s' :=
  { hk, hr.rooted h.toRooted with
    top := fun i hi => by
      rw [hr.eq_of_alive hi]
      exact h.top i (hr.alive_iff.mp hi).1
    child := fun i hi => by
      rw [hr.eq_of_alive hi]
      exact h.child i (hr.alive_iff.mp hi).1
    frames := by
      rw [hr.frames]
      exact h.frames }

theorem alloc_free (hi : u32AllocWindow s.windows = some i) : ¬ Alive s i := by
  have hfree := firstSlot_some hi
  simpa [Alive] using hfree

theorem tally_setWindow (s : Desktop) (i : WindowSlot) (w : U32Window) (b : Nat) :
    tally (setWindow s i w) b + held b (s.windows i) = tally s b + held b w := by
  have hsum := sum_held_update s.windows i w b
  simp only [tally, setWindow]
  omega

theorem held_of_none (he : w.editText = none) (hl : w.listviewData = none) (b : Nat) :
    held b w = 0 := by
  simp [held, he, hl]

theorem setWindow_of_ne (hj : j ≠ i) : (setWindow s i w).windows j = s.windows j :=
  update_of_ne hj _ _

@[simp] theorem setWindow_self : (setWindow s i w).windows i = w := update_self ..

theorem alive_setWindow (hu : w.used = true) : Alive (setWindow s i w) j ↔ j = i ∨ Alive s j := by
  by_cases hj : j = i
  · subst hj
    simp [Alive, hu]
  · simp [Alive, setWindow_of_ne hj, hj]

theorem live_setWindow (hi : ¬ Alive s i) (hu : w.used = true) :
    Live (setWindow s i w) hwnd ↔ w.hwnd = hwnd ∨ Live s hwnd := by
  constructor
  · rintro ⟨j, hj, hk⟩
    by_cases hji : j = i
    · subst hji
      rw [setWindow_self] at hk
      exact .inl hk
    · rw [setWindow_of_ne hji] at hk
      exact .inr ⟨j, ((alive_setWindow hu).mp hj).resolve_left hji, hk⟩
  · rintro (hk | ⟨j, hj, hk⟩)
    · exact ⟨i, (alive_setWindow hu).mpr (.inl rfl), by rwa [setWindow_self]⟩
    · have hji : j ≠ i := fun heq => hi (heq ▸ hj)
      exact ⟨j, (alive_setWindow hu).mpr (.inr hj), by rwa [setWindow_of_ne hji]⟩

theorem Rooted.add (h : Settled s) (hi : ¬ Alive s i) (hu : w.used = true)
    (hnew : ¬ Live s w.hwnd) (hnull : w.hwnd ≠ .null) (hp : w.parent = .null ∨ Live s w.parent) :
    Rooted (setWindow s i w) := by
  have hold : ∀ j, Alive (setWindow s i w) j → j ≠ i → Alive s j := fun j hj hji =>
    ((alive_setWindow hu).mp hj).resolve_left hji
  have hne : ∀ hwnd, hwnd = .null ∨ Live s hwnd → hwnd ≠ w.hwnd := by
    rintro _ (rfl | hl) heq
    · exact hnull heq.symm
    · exact hnew (heq ▸ hl)
  constructor
  · intro j k hj hk heq
    by_cases hji : j = i <;> by_cases hki : k = i
    · rw [hji, hki]
    · rw [hji, setWindow_self, setWindow_of_ne hki] at heq
      exact absurd ⟨k, hold k hk hki, heq.symm⟩ hnew
    · rw [hki, setWindow_self, setWindow_of_ne hji] at heq
      exact absurd ⟨j, hold j hj hji, heq⟩ hnew
    · rw [setWindow_of_ne hji, setWindow_of_ne hki] at heq
      exact h.distinct j k (hold j hj hji) (hold k hk hki) heq
  · obtain ⟨rank, hrank⟩ := h.ranked
    refine ⟨update rank i (Finset.univ.sup rank + 1), fun j k hj hk heq => ?_⟩
    dsimp only at heq
    by_cases hki : k = i
    · subst hki
      rw [setWindow_self] at heq
      by_cases hji : j = k
      · subst hji
        rw [setWindow_self] at heq
        exact absurd heq (hne _ hp)
      · rw [setWindow_of_ne hji] at heq
        exact absurd heq (hne _ (h.parents j (hold j hj hji)))
    · rw [update_of_ne hki]
      by_cases hji : j = i
      · subst hji
        rw [update_self]
        exact Nat.lt_succ_of_le (Finset.le_sup (Finset.mem_univ k))
      · rw [update_of_ne hji]
        rw [setWindow_of_ne hji, setWindow_of_ne hki] at heq
        exact hrank j k (hold j hj hji) (hold k hk hki) heq

theorem Settled.add (h : Settled s) (hi : ¬ Alive s i) (hu : w.used = true)
    (hnew : ¬ Live s w.hwnd) (hp : w.parent = .null ∨ Live s w.parent)
    (ht : w.topLevel = true → (∃ n, w.hwnd = .native n) ∧ w.parent = .null)
    (hc : w.topLevel = false → w.hwnd = .child i) (he : w.editText = none)
    (hl : w.listviewData = none) : Settled (setWindow s i w) := by
  have hnull : w.hwnd ≠ .null := by
    rcases htop : w.topLevel with _ | _
    · rw [hc htop]
      simp
    · obtain ⟨⟨n, hn⟩, -⟩ := ht htop
      rw [hn]
      simp
  have hold : ∀ j, Alive (setWindow s i w) j → j ≠ i → Alive s j := fun j hj hji =>
    ((alive_setWindow hu).mp hj).resolve_left hji
  have hlive : ∀ hwnd, Live s hwnd → Live (setWindow s i w) hwnd := fun hwnd hl =>
    (live_setWindow hi hu).mpr (.inr hl)
  refine ⟨⟨?_, ?_, ?_, ?_, ?_⟩, Rooted.add h hi hu hnew hnull hp, ?_, ?_, ?_⟩
  · intro j hj
    by_cases hji : j = i
    · rw [hji, setWindow_self]
      exact hp.imp_right (hlive _)
    · rw [setWindow_of_ne hji]
      exact (h.parents j (hold j hj hji)).imp_right (hlive _)
  · exact fun g => (h.globals g).imp_right (hlive _)
  · intro b
    have htally := tally_setWindow s i w b
    rw [held_of_none he hl, held_of_none (h.empty i hi).1 (h.empty i hi).2] at htally
    rw [Nat.add_zero, Nat.add_zero] at htally
    rw [htally]
    exact h.tally b
  · intro j hj
    have hji : j ≠ i := fun heq => hj ((alive_setWindow hu).mpr (.inl heq))
    rw [setWindow_of_ne hji]
    exact h.empty j fun ha => hj ((alive_setWindow hu).mpr (.inr ha))
  · exact h.quits
  · intro j hj
    by_cases hji : j = i
    · rw [hji, setWindow_self]
      exact ht
    · rw [setWindow_of_ne hji]
      exact h.top j (hold j hj hji)
  · intro j hj
    by_cases hji : j = i
    · rw [hji, setWindow_self]
      exact hc
    · rw [setWindow_of_ne hji]
      exact h.child j (hold j hj hji)
  · exact h.frames

theorem Settled.reshape (h : Settled s) (hu : ∀ j, (s'.windows j).used = (s.windows j).used)
    (hh : ∀ j, Alive s j → (s'.windows j).hwnd = (s.windows j).hwnd)
    (hp : ∀ j, Alive s j → (s'.windows j).parent = (s.windows j).parent)
    (ht : ∀ j, Alive s j → (s'.windows j).topLevel = (s.windows j).topLevel)
    (hg : ∀ g, s'.globals g = .null ∨ Live s (s'.globals g)) (hq : ∀ q ∈ s'.quits, q.1 = q.2)
    (hf : ∀ f ∈ s'.frames, ∃ n, f.hwnd = .native n)
    (htally : ∀ b, tally s' b = if b < s'.buffers then 1 else 0)
    (hempty : ∀ j, ¬ Alive s j → (s'.windows j).editText = none ∧ (s'.windows j).listviewData = none) :
    Settled s' := by
  have halive : ∀ j, Alive s' j ↔ Alive s j := fun j => by rw [Alive, hu j, Alive]
  have hlive : ∀ hwnd, Live s hwnd → Live s' hwnd := by
    rintro _ ⟨j, hj, rfl⟩
    exact ⟨j, (halive j).mpr hj, hh j hj⟩
  refine ⟨⟨?_, ?_, htally, ?_, hq⟩, ⟨?_, ?_⟩, ?_, ?_, hf⟩
  · intro j hj
    rw [hp j ((halive j).mp hj)]
    exact (h.parents j ((halive j).mp hj)).imp_right (hlive _)
  · exact fun g => (hg g).imp_right (hlive _)
  · exact fun j hj => hempty j fun ha => hj ((halive j).mpr ha)
  · intro j k hj hk heq
    rw [hh j ((halive j).mp hj), hh k ((halive k).mp hk)] at heq
    exact h.distinct j k ((halive j).mp hj) ((halive k).mp hk) heq
  · obtain ⟨rank, hrank⟩ := h.ranked
    refine ⟨rank, fun j k hj hk heq => hrank j k ((halive j).mp hj) ((halive k).mp hk) ?_⟩
    dsimp only at heq
    rwa [hp j ((halive j).mp hj), hh k ((halive k).mp hk)] at heq
  · intro j hj htop
    have hj := (halive j).mp hj
    rw [hh j hj, hp j hj]
    exact h.top j hj ((ht j hj).symm.trans htop)
  · intro j hj htop
    have hj := (halive j).mp hj
    rw [hh j hj]
    exact h.child j hj ((ht j hj).symm.trans htop)

theorem Settled.addBuffer (h : Settled s) (hi : Alive s i) (hu : w.used = (s.windows i).used)
    (hh : w.hwnd = (s.windows i).hwnd) (hp : w.parent = (s.windows i).parent)
    (ht : w.topLevel = (s.windows i).topLevel)
    (hheld : ∀ b, held b w = held b (s.windows i) + if b = s.buffers then 1 else 0) :
    Settled { setWindow s i w with buffers := s.buffers + 1 } := by
  have hfield : ∀ {β : Type} (f : U32Window → β), f w = f (s.windows i) →
      ∀ j, f ((setWindow s i w).windows j) = f (s.windows j) := by
    intro β f hf j
    by_cases hj : j = i
    · rw [hj, setWindow_self, hf]
    · rw [setWindow_of_ne hj]
  refine h.reshape (hfield _ hu) (fun j _ => hfield _ hh j) (fun j _ => hfield _ hp j)
    (fun j _ => hfield _ ht j) h.globals h.quits h.frames ?_ ?_
  · intro b
    have htally := tally_setWindow s i w b
    have hold := h.tally b
    rw [hheld] at htally
    show tally (setWindow s i w) b = if b < s.buffers + 1 then 1 else 0
    split_ifs at * <;> omega
  · intro j hj
    have hji : j ≠ i := fun heq => hj (heq ▸ hi)
    have hw : ({ setWindow s i w with buffers := s.buffers + 1 } : Desktop).windows j =
        s.windows j := setWindow_of_ne hji
    rw [hw]
    exact h.empty j hj

end Invariant

/-! ## Steps -/

section Steps

variable {s s' : Desktop} {i : WindowSlot} {hwnd : Hwnd} {time : Nat}

/-- No window has the window of the entry as its parent, and none of the four variables names it. -/
def Unheld (s : Desktop) (i : WindowSlot) : Prop :=
  (∀ j, Alive s j → (s.windows j).parent ≠ (s.windows i).hwnd) ∧ ∀ g, s.globals g ≠ (s.windows i).hwnd

def HasOther (s : Desktop) (f : Frame) (i : WindowSlot) : Prop :=
  ∃ j, j ≠ i ∧ Alive s j ∧ (s.windows j).topLevel = true ∧ (s.windows j).hwnd ≠ f.hwnd ∧
    (s.windows j).ownerPid = f.ownerPid

/-- None of the four variables names the window or one below it; if another window has got the entry
that `DestroyWindow` holds on to, then it is `Unheld`; and the current process is the owner, if the
window is its last at the top. -/
structure LeaveOk (s : Desktop) (f : Frame) : Prop where
  globals : ∀ i, BelowHwnd s f.hwnd i → ∀ g, s.globals g ≠ (s.windows i).hwnd
  reused : ∀ i, f.win = some i → Alive s i → ¬ BelowHwnd s f.hwnd i → Unheld s i
  quit : ∀ i, f.win = some i → HasOther s f i ∨ s.pid = f.ownerPid

def Tidy (s : Desktop) : DesktopEvent → Prop
  | .createChild parent => Live s parent
  | .point _ hwnd => hwnd = .null ∨ Live s hwnd
  | .destroyWindow hwnd => ∀ i, u32LookupWindow s.windows hwnd = some i →
      (s.windows i).topLevel = false → Unheld s i
  | .leave _ => ∀ f frames, s.frames = f :: frames → LeaveOk s f
  | _ => True

section

variable (h : Settled s)
include h

theorem Settled.createChild (hp : Live s hwnd) : Settled (createChild s hwnd) := by
  rw [User32.createChild]
  rcases ha : u32AllocWindow s.windows with _ | i
  · exact h
  refine h.add (alloc_free ha) rfl ?_ (.inr hp) (fun ht => by cases ht) (fun _ => rfl) rfl rfl
  rintro ⟨j, hj, hk⟩
  rcases ht : (s.windows j).topLevel with _ | _
  · rw [h.child j hj ht] at hk
    exact alloc_free ha (Hwnd.child.inj hk ▸ hj)
  · obtain ⟨⟨n, hn⟩, -⟩ := h.top j hj ht
    rw [hn] at hk
    cases hk

theorem Settled.createTopLevel {handle : Option Nat}
    (hfresh : ∀ n, handle = some n → ¬ Live s (.native n)) :
    Settled (createTopLevel s hwnd handle) := by
  rw [User32.createTopLevel]
  rcases ha : u32AllocWindow s.windows with _ | i
  · exact h
  have hi := alloc_free ha
  cases handle with
  | some n =>
    refine h.add hi rfl (hfresh n rfl) (.inl rfl) ?_ (fun ht => by cases ht) rfl rfl
    exact fun _ => ⟨⟨n, rfl⟩, rfl⟩
  | none =>
    have hkeep : ∀ w : U32Window, ∀ j, Alive s j → (setWindow s i w).windows j = s.windows j :=
      fun w j hj => setWindow_of_ne fun heq => hi (heq ▸ hj)
    refine h.reshape (fun j => ?_) (fun j hj => by simp only [hkeep _ j hj])
      (fun j hj => by simp only [hkeep _ j hj]) (fun j hj => by simp only [hkeep _ j hj])
      h.globals h.quits h.frames (fun b => ?_) (fun j hj => ?_)
    · by_cases hj : j = i
      · have hused : (s.windows i).used = false := by simpa [Alive] using hi
        rw [hj, hused]
        simp only [setWindow_self]
      · simp only [setWindow_of_ne hj]
    · have htally := tally_setWindow s i
        { used := false, owner := hwnd, topLevel := true, ownerPid := ownerPidFor s hwnd } b
      have hnew : held b { used := false, owner := hwnd, topLevel := true
                           ownerPid := ownerPidFor s hwnd } = 0 := rfl
      rw [hnew, held_of_none (h.empty i hi).1 (h.empty i hi).2, Nat.add_zero, Nat.add_zero] at htally
      rw [htally]
      exact h.tally b
    · by_cases hji : j = i
      · rw [hji]
        simp only [setWindow_self, and_self]
      · simp only [setWindow_of_ne hji]
        exact h.empty j hj

theorem Settled.listview : Settled (u32EnsureListview s hwnd) := by
  rw [u32EnsureListview]
  rcases hf : u32LookupWindow s.windows hwnd with _ | i
  · exact h
  rcases hl : (s.windows i).listviewData with _ | b
  · simp only [hl]
    refine h.addBuffer (lookup_some hf).1 rfl rfl rfl rfl fun b => ?_
    simp only [held, hl, toList_none, append_nil, toList_some, count_append, count_singleton]
    by_cases hb : b = s.buffers
    · simp [hb]
    · simp [hb, Ne.symm hb]
  · simp only [hl]
    exact h

theorem Settled.edit : Settled (firstEditBuffer s hwnd) := by
  rw [firstEditBuffer]
  rcases hf : u32LookupWindow s.windows hwnd with _ | i
  · exact h
  rcases hl : (s.windows i).editText with _ | b
  · simp only [hl]
    refine h.addBuffer (lookup_some hf).1 rfl rfl rfl rfl fun b => ?_
    simp only [held, hl, toList_none, nil_append, toList_some, count_append, count_singleton]
    by_cases hb : b = s.buffers
    · simp [hb, Nat.add_comm]
    · simp [hb, Ne.symm hb]
  · simp only [hl]
    exact h

theorem Settled.point (g : Global) (hp : hwnd = .null ∨ Live s hwnd) :
    Settled { s with globals := update s.globals g hwnd } := by
  refine h.reshape (fun _ => rfl) (fun _ _ => rfl) (fun _ _ => rfl) (fun _ _ => rfl) (fun g' => ?_)
    h.quits h.frames h.tally h.empty
  by_cases hg : g' = g
  · subst hg
    simp only [update_self]
    exact hp
  · simp only [update_of_ne hg]
    exact h.globals g'

theorem Settled.push {f : Frame} (hf : ∃ n, f.hwnd = .native n) :
    Settled { s with frames := f :: s.frames } := by
  refine h.reshape (fun _ => rfl) (fun _ _ => rfl) (fun _ _ => rfl) (fun _ _ => rfl) h.globals
    h.quits ?_ h.tally h.empty
  rintro f' (_ | ⟨_, hf'⟩)
  · exact hf
  · exact h.frames f' hf'

theorem Settled.free_iff (hi : Alive s i) : TableKept (freeWindow s i) ↔ Unheld s i := by
  rw [h.kept_iff (freeWindow_removed s i)]
  constructor
  · rintro ⟨hparents, hglobals⟩
    refine ⟨fun j hj hp => ?_, fun g => (hglobals g i hi rfl).symm⟩
    by_cases hji : j = i
    · obtain ⟨rank, hrank⟩ := h.ranked
      have hself := hrank j i hj hi hp
      rw [hji] at hself
      exact Nat.lt_irrefl _ hself
    · exact hparents j hj hji i hi rfl hp.symm
  · rintro ⟨hparents, hglobals⟩
    refine ⟨fun j hj _ k _ hk => ?_, fun g k _ hk => ?_⟩
    · rw [hk]
      exact (hparents j hj).symm
    · rw [hk]
      exact (hglobals g).symm

theorem Settled.destroyWindow :
    (TableKept (destroyWindow s hwnd) ↔ Tidy s (.destroyWindow hwnd)) ∧
      (TableKept (destroyWindow s hwnd) → Settled (destroyWindow s hwnd)) := by
  rcases hf : u32LookupWindow s.windows hwnd with _ | i
  · have heq : User32.destroyWindow s hwnd = s := by simp only [User32.destroyWindow, hf]
    rw [heq]
    exact ⟨iff_of_true h.toTableKept fun i hi => by simp [hf] at hi, fun _ => h⟩
  obtain ⟨hi, rfl⟩ := lookup_some hf
  rcases ht : (s.windows i).topLevel with _ | _
  · have heq : User32.destroyWindow s (s.windows i).hwnd = freeWindow s i := by
      simp [User32.destroyWindow, hf, ht]
    rw [heq, h.free_iff hi]
    refine ⟨⟨fun hu j hj _ => ?_, fun htidy => htidy i hf ht⟩, fun hu => ?_⟩
    · rw [hf] at hj
      cases hj
      exact hu
    · exact h.removed (freeWindow_removed s i) ((h.free_iff hi).mpr hu)
  · have heq : User32.destroyWindow s (s.windows i).hwnd = { s with frames :=
        { hwnd := (s.windows i).hwnd, win := some i, ownerPid := (s.windows i).ownerPid } :: s.frames } := by
      simp [User32.destroyWindow, hf, ht]
    rw [heq]
    have hpush := @Settled.push s h ⟨(s.windows i).hwnd, some i, (s.windows i).ownerPid⟩
      (h.top i hi ht).1
    refine ⟨iff_of_true hpush.toTableKept fun j hj htop => ?_, fun _ => hpush⟩
    rw [hf] at hj
    cases hj
    rw [ht] at htop
    cases htop

theorem Settled.nativeDestroy (n : Nat) : Settled (nativeDestroy s n) := by
  rw [User32.nativeDestroy]
  rcases u32LookupWindow s.windows (.native n) with _ | i
  · exact h
  · exact h.push ⟨n, rfl⟩

theorem Settled.not_below_child {j : WindowSlot} {n : Nat} (hi : Alive s i)
    (hj : Alive s j) (hp : (s.windows j).parent = (s.windows i).hwnd)
    (hnot : ¬ BelowHwnd s (.native n) i) : ¬ BelowHwnd s (.native n) j ∧ j ≠ i := by
  constructor
  · intro hb
    cases hb with
    | self _ hk =>
      rcases ht : (s.windows j).topLevel with _ | _
      · have hk : (s.windows j).hwnd = .native n := hk
        rw [h.child j hj ht] at hk
        cases hk
      · exact h.hwnd_ne_null hi (hp.symm.trans (h.top j hj ht).2)
    | @child _ k _ hbk hpk =>
      have hki : k = i := h.distinct k i hbk.isAlive hi (hpk.symm.trans hp)
      exact hnot (hki ▸ hbk)
  · rintro rfl
    obtain ⟨rank, hrank⟩ := h.ranked
    exact Nat.lt_irrefl _ (hrank j j hj hj hp)

theorem Settled.below_top (ht : (s.windows i).topLevel = true)
    (hb : BelowHwnd s hwnd i) : (s.windows i).hwnd = hwnd := by
  cases hb with
  | self _ hk => exact hk
  | child hi hbk hp =>
    exact absurd (hp.symm.trans (h.top i hi ht).2) (h.hwnd_ne_null hbk.isAlive)

theorem Settled.forget_iff (hr : Removed s s' (BelowHwnd s hwnd)) :
    TableKept s' ↔ ∀ i, BelowHwnd s hwnd i → ∀ g, s.globals g ≠ (s.windows i).hwnd := by
  rw [h.kept_iff hr]
  constructor
  · rintro ⟨-, hglobals⟩ i hi g heq
    exact hglobals g i hi.isAlive hi heq.symm
  · intro hglobals
    refine ⟨fun j hj hnot i _ hb hp => hnot (.child hj hb hp.symm), fun g i _ hb heq => ?_⟩
    exact hglobals i hb g heq.symm

theorem Settled.forget_free_iff {n : Nat} (hr : Removed s s' fun j => BelowHwnd s (.native n) j ∨ j = i) :
    TableKept s' ↔ (∀ j, BelowHwnd s (.native n) j → ∀ g, s.globals g ≠ (s.windows j).hwnd) ∧
      (Alive s i → ¬ BelowHwnd s (.native n) i → Unheld s i) := by
  rw [h.kept_iff hr]
  constructor
  · rintro ⟨hparents, hglobals⟩
    refine ⟨fun j hj g heq => hglobals g j hj.isAlive (.inl hj) heq.symm, fun hi hnot => ⟨?_, ?_⟩⟩
    · intro j hj hp
      obtain ⟨hnotj, hji⟩ := h.not_below_child hi hj hp hnot
      exact hparents j hj (not_or.mpr ⟨hnotj, hji⟩) i hi (.inr rfl) hp.symm
    · exact fun g heq => hglobals g i hi (.inr rfl) heq.symm
  · rintro ⟨hglobals, hreused⟩
    constructor
    · intro j hj hnot k hk hgone hp
      rw [not_or] at hnot
      by_cases hb : BelowHwnd s (.native n) k
      · exact hnot.1 (.child hj hb hp.symm)
      · obtain rfl := hgone.resolve_left hb
        exact (hreused hk hb).1 j hj hp.symm
    · intro g k hk hgone heq
      by_cases hb : BelowHwnd s (.native n) k
      · exact hglobals k hb g heq.symm
      · obtain rfl := hgone.resolve_left hb
        exact (hreused hk hb).2 g heq.symm

end

theorem hasTopLevel_iff {pid : Nat} : u32HasTopLevelWindowForPid s pid hwnd = true ↔
    ∃ j, Alive s j ∧ (s.windows j).topLevel = true ∧ (s.windows j).hwnd ≠ hwnd ∧
      (s.windows j).ownerPid = pid := by
  simp [u32HasTopLevelWindowForPid, Alive, and_assoc]

theorem kept_tail_iff (f : Frame) : TableKept (destroyTail time f i s) ↔ TableKept (freeWindow s i) ∧
    (u32HasTopLevelWindowForPid (freeWindow s i) f.ownerPid f.hwnd = true ∨ s.pid = f.ownerPid) := by
  rw [destroyTail]
  generalize ht : freeWindow s i = t
  have hpid : t.pid = s.pid := by
    rw [← ht]
    rfl
  split_ifs with hhas
  · simp [hhas]
  · constructor
    · intro hk
      refine ⟨⟨hk.parents, hk.globals, hk.tally, hk.empty, fun q hq => ?_⟩, .inr ?_⟩
      · exact hk.quits q (mem_cons_of_mem _ hq)
      · rw [← hpid]
        exact hk.quits _ mem_cons_self
    · rintro ⟨hk, hother | heq⟩
      · exact absurd hother hhas
      · refine ⟨hk.parents, hk.globals, hk.tally, hk.empty, ?_⟩
        rintro q (_ | ⟨_, hq⟩)
        · exact hpid.trans heq
        · exact hk.quits q hq

theorem Settled.tail (h : Settled (freeWindow s i)) (f : Frame)
    (hk : TableKept (destroyTail time f i s)) : Settled (destroyTail time f i s) := by
  rw [destroyTail] at hk ⊢
  split_ifs at hk ⊢
  · exact h
  · exact h.reshape (fun _ => rfl) (fun _ _ => rfl) (fun _ _ => rfl) (fun _ _ => rfl) h.globals
      hk.quits h.frames h.tally h.empty

theorem HasOther.iff_removed (h : Settled s) {f : Frame}
    (hr : Removed s s' fun j => BelowHwnd s f.hwnd j ∨ j = i) :
    u32HasTopLevelWindowForPid s' f.ownerPid f.hwnd = true ↔ HasOther s f i := by
  rw [hasTopLevel_iff]
  constructor
  · rintro ⟨j, hj, htop, hne, hpid⟩
    rw [hr.eq_of_alive hj] at htop hne hpid
    obtain ⟨hja, hnot⟩ := hr.alive_iff.mp hj
    exact ⟨j, fun heq => hnot (.inr heq), hja, htop, hne, hpid⟩
  · rintro ⟨j, hji, hj, htop, hne, hpid⟩
    have hnot : ¬ (BelowHwnd s f.hwnd j ∨ j = i) := by
      rintro (hb | heq)
      · exact hne (h.below_top htop hb)
      · exact hji heq
    refine ⟨j, hr.alive_iff.mpr ⟨hj, hnot⟩, ?_⟩
    rw [hr.kept j hnot]
    exact ⟨htop, hne, hpid⟩

theorem Settled.leave (h : Settled s) {f : Frame} {frames : List Frame}
    (hf : s.frames = f :: frames) :
    ∃ s', leave time s = some s' ∧ (TableKept s' ↔ LeaveOk s f) ∧ (TableKept s' → Settled s') := by
  obtain ⟨n, hn⟩ := h.frames f (by rw [hf]; exact mem_cons_self)
  have h0 : Settled { s with frames := frames } :=
    h.reshape (fun _ => rfl) (fun _ _ => rfl) (fun _ _ => rfl) (fun _ _ => rfl) h.globals h.quits
      (fun f' hf' => h.frames f' (by rw [hf]; exact mem_cons_of_mem _ hf')) h.tally h.empty
  obtain ⟨s1, hforget, hr⟩ := forget_removed forgetFuel _ f.hwnd h0.toRooted
    (Nat.lt_succ_of_le (subtreeSize_le _ _))
  refine ⟨_, by
    rw [User32.leave, hf]
    simp only [hforget, map_some]
    rfl, ?_⟩
  rcases hw : f.win with _ | i
  · refine ⟨(h0.forget_iff hr).trans ⟨fun hg => ⟨hg, ?_, ?_⟩, LeaveOk.globals⟩, h0.removed hr⟩
    · rw [hw]
      exact fun i hi => by cases hi
    · rw [hw]
      exact fun i hi => by cases hi
  · have hboth := hr.trans (freeWindow_removed s1 i)
    have hpid : s1.pid = s.pid := by rw [Desktop.pid, hr.queue, hr.kernelPid, Desktop.pid]
    have hfree := hboth
    rw [hn] at hfree
    have hkept := h0.forget_free_iff hfree
    constructor
    · rw [kept_tail_iff, hkept, HasOther.iff_removed h0 hboth, hpid]
      constructor
      · rintro ⟨⟨hglobals, hreused⟩, hquit⟩
        refine ⟨?_, ?_, ?_⟩
        · rw [hn]
          exact hglobals
        · intro j hj
          obtain rfl := some.inj (hw.symm.trans hj)
          rw [hn]
          exact hreused
        · intro j hj
          obtain rfl := some.inj (hw.symm.trans hj)
          exact hquit
      · intro hok
        have hglobals := hok.globals
        have hreused := hok.reused i hw
        rw [hn] at hglobals hreused
        exact ⟨⟨hglobals, hreused⟩, hok.quit i hw⟩
    · intro hk
      exact (h0.removed hboth ((kept_tail_iff f).mp hk).1).tail f hk

end Steps

/-! ## Runs -/

section Runs

variable {s : Desktop} {e : DesktopEvent}

def TableInOrder (s : Option Desktop) : Prop := ∃ t, s = some t ∧ TableKept t

def TidyNext (s : Option Desktop) (e : DesktopEvent) : Prop := ∀ t, s = some t → Tidy t e

/-- Win32k gives out no handle of a window that is there. -/
def FreshHandle (s : Option Desktop) : DesktopEvent → Prop
  | .createTopLevel _ (some handle) => ∀ t, s = some t → ¬ Live t (.native handle)
  | _ => True

/-- The events that destroy a window, or end its destruction. -/
def Destroys : DesktopEvent → Prop
  | .destroyWindow _ | .nativeDestroy _ | .leave _ => True
  | _ => False

theorem Settled.step (h : Settled s) (hfresh : FreshHandle (some s) e) :
    ∃ s', desktopStep s e = some s' ∧ (Tidy s e → Settled s') ∧
      (Destroys e → (TableKept s' ↔ Tidy s e)) := by
  cases e with
  | createChild parent => exact ⟨_, rfl, fun ht => h.createChild ht, fun hd => hd.elim⟩
  | createTopLevel owner handle =>
    refine ⟨_, rfl, fun _ => h.createTopLevel fun n hn => ?_, fun hd => hd.elim⟩
    subst hn
    exact hfresh s rfl
  | listview hwnd => exact ⟨_, rfl, fun _ => h.listview, fun hd => hd.elim⟩
  | edit hwnd => exact ⟨_, rfl, fun _ => h.edit, fun hd => hd.elim⟩
  | point g hwnd => exact ⟨_, rfl, fun ht => h.point g ht, fun hd => hd.elim⟩
  | setProcessId pid =>
    refine ⟨_, rfl, fun _ => ?_, fun hd => hd.elim⟩
    exact h.reshape (fun _ => rfl) (fun _ _ => rfl) (fun _ _ => rfl) (fun _ _ => rfl) h.globals
      h.quits h.frames h.tally h.empty
  | destroyWindow hwnd =>
    obtain ⟨hiff, hkeep⟩ := @Settled.destroyWindow s hwnd h
    exact ⟨_, rfl, fun ht => hkeep (hiff.mpr ht), fun _ => hiff⟩
  | nativeDestroy n =>
    have hs := h.nativeDestroy n
    exact ⟨_, rfl, fun _ => hs, fun _ => iff_of_true hs.toTableKept trivial⟩
  | leave time =>
    rcases hf : s.frames with _ | ⟨f, frames⟩
    · have heq : User32.leave time s = some s := by rw [User32.leave, hf]
      refine ⟨s, heq, fun _ => h, fun _ => iff_of_true h.toTableKept fun f frames hf' => ?_⟩
      rw [hf] at hf'
      cases hf'
    · obtain ⟨s', heq, hiff, hkeep⟩ := @Settled.leave s time h f frames hf
      have htidy : Tidy s (.leave time) ↔ LeaveOk s f := by
        constructor
        · exact fun ht => ht f frames hf
        · intro hok f' frames' hf'
          rw [hf] at hf'
          cases hf'
          exact hok
      exact ⟨s', heq, fun ht => hkeep (hiff.mpr (htidy.mp ht)), fun _ => hiff.trans htidy.symm⟩

theorem desktopRun_settled (es : List DesktopEvent)
    (hfresh : ∀ pre e post, es = pre ++ e :: post → FreshHandle (desktopRun pre) e)
    (htidy : ∀ pre e post, es = pre ++ e :: post → TidyNext (desktopRun pre) e) :
    ∃ s, desktopRun es = some s ∧ Settled s := by
  induction es using List.reverseRecOn with
  | nil => exact ⟨_, rfl, settled_empty⟩
  | append_singleton es e ih =>
    obtain ⟨hfresh, hlast⟩ := forall_split_concat.mp hfresh
    obtain ⟨htidy, hgood⟩ := forall_split_concat.mp htidy
    obtain ⟨s, hs, h⟩ := ih hfresh htidy
    rw [hs] at hlast hgood
    obtain ⟨s', heq, hkeep, -⟩ := h.step hlast
    refine ⟨s', ?_, hkeep (hgood s rfl)⟩
    rw [desktopRun, foldl_concat, ← desktopRun, hs]
    exact heq

end Runs

end DiscouNT.User32
