import DiscouNT.Win32k.Manager

/-!
# Win32k.Scan

The loops over `window_list` that send no message, in closed form. All of them give back what they
take except `find_window_at`, which drops the reference of a window only when the window is
visible: it finds the topmost visible window at the point and leaks one reference for each hidden
window above it.
-/

namespace DiscouNT.Win32k

open List

def hitIn (win : Handle → Option Window) (x y : Int) : List Handle → Handle
  | [] => invalidHandle
  | h :: rest =>
    match win h with
    | none => hitIn win x y rest
    | some w => if w.visible && isInWindow w x y then h else hitIn win x y rest

def hiddenIn (win : Handle → Option Window) (x y : Int) : List Handle → List Handle
  | [] => []
  | h :: rest =>
    match win h with
    | none => hiddenIn win x y rest
    | some w =>
      if w.visible then if isInWindow w x y then [] else hiddenIn win x y rest
      else h :: hiddenIn win x y rest

def leakAt (s : State) (h : Handle) : State := s.alter h fun o => some o.leak

def leakAll (l : List Handle) (s : State) : State := l.foldl leakAt s

def hitAt (x y : Int) (s : State) : Handle := hitIn s.win x y s.list.reverse

/-- The windows that `find_window_at` takes a reference to and does not give it back. -/
def hiddenAt (x y : Int) (s : State) : List Handle := hiddenIn s.win x y s.list.reverse

section Find

variable {s : State} {h k : Handle} {w : Window} {x y : Int} {l : List Handle}
  {win : Handle → Option Window}

@[simp] theorem win_leakAt : (leakAt s h).win k = s.win k :=
  State.win_alter_of_body fun _ => ⟨_, rfl, rfl⟩

theorem noteLeak_retain : noteLeak h (retain h s) = leakAt s h := by
  rw [noteLeak, retain, State.alter_alter]
  rfl

theorem findWindowIn_eq (x y : Int) (l : List Handle) (s : State) :
    findWindowIn x y l s = (hitIn s.win x y l, leakAll (hiddenIn s.win x y l) s) := by
  induction l generalizing s with
  | nil => rfl
  | cons h rest ih =>
    rw [findWindowIn]
    cases hw : s.win h with
    | none =>
      rw [reference_none hw, hitIn, hiddenIn, hw]
      exact ih s
    | some w =>
      rw [reference_some hw, hitIn, hiddenIn, hw]
      cases hvis : w.visible with
      | true =>
        simp only [if_true, Bool.true_and, hvis, dereference_retain]
        split
        · rfl
        · exact ih s
      | false =>
        simp only [Bool.false_eq_true, if_false, Bool.false_and, hvis, noteLeak_retain]
        have hwin : (leakAt s h).win = s.win := funext fun k => win_leakAt
        rw [ih, hwin]
        rfl

theorem findWindowAt_eq (x y : Int) (s : State) :
    findWindowAt x y s = (hitAt x y s, leakAll (hiddenAt x y s) s) :=
  findWindowIn_eq x y s.list.reverse s

theorem hitIn_spec (hne : hitIn win x y l ≠ invalidHandle) :
    hitIn win x y l ∈ l ∧
      ∃ w, win (hitIn win x y l) = some w ∧ w.visible = true ∧ isInWindow w x y = true := by
  induction l with
  | nil => exact absurd rfl hne
  | cons h rest ih =>
    rw [hitIn] at hne ⊢
    cases hw : win h with
    | none =>
      rw [hw] at hne
      obtain ⟨hmem, hspec⟩ := ih hne
      exact ⟨mem_cons_of_mem _ hmem, hspec⟩
    | some w =>
      rw [hw] at hne
      simp only at hne ⊢
      by_cases hin : (w.visible && isInWindow w x y) = true
      · rw [if_pos hin]
        rw [Bool.and_eq_true] at hin
        exact ⟨mem_cons_self, w, hw, hin.1, hin.2⟩
      · rw [if_neg hin] at hne ⊢
        obtain ⟨hmem, hspec⟩ := ih hne
        exact ⟨mem_cons_of_mem _ hmem, hspec⟩

theorem hitAt_mem (hne : hitAt x y s ≠ invalidHandle) : hitAt x y s ∈ s.list :=
  mem_reverse.mp (hitIn_spec hne).1

theorem leakAll_eq (l : List Handle) (s : State) : ∃ objects, leakAll l s = { s with objects } := by
  induction l generalizing s with
  | nil => exact ⟨s.objects, rfl⟩
  | cons h l ih =>
    obtain ⟨objects, he⟩ := State.alter_eq (s := s) (h := h) (g := fun o => some o.leak)
    obtain ⟨objects', he'⟩ := ih (leakAt s h)
    refine ⟨objects', ?_⟩
    rw [show leakAll (h :: l) s = leakAll l (leakAt s h) from rfl, he', leakAt, he]

@[simp] theorem leakAll_toZOrder : (leakAll l s).toZOrder = s.toZOrder := by
  obtain ⟨objects, he⟩ := leakAll_eq l s
  rw [he]

@[simp] theorem leakAll_activeWindow : (leakAll l s).activeWindow = s.activeWindow := by
  obtain ⟨objects, he⟩ := leakAll_eq l s
  rw [he]

@[simp] theorem leakAll_pointer : (leakAll l s).pointer = s.pointer := by
  obtain ⟨objects, he⟩ := leakAll_eq l s
  rw [he]

@[simp] theorem leakAll_log : (leakAll l s).log = s.log := by
  obtain ⟨objects, he⟩ := leakAll_eq l s
  rw [he]

@[simp] theorem win_leakAll : (leakAll l s).win k = s.win k := by
  induction l generalizing s with
  | nil => rfl
  | cons h l ih => exact (ih (s := leakAt s h)).trans win_leakAt

end Find

theorem captionPass_eq (s : State) : captionPass s = s := by
  have hfold : ∀ l : List Handle, l.foldl (fun s h => (peek h s).2) s = s := by
    intro l
    induction l with
    | nil => rfl
    | cons h l ih => rw [foldl_cons, peek_eq, ih]
  exact hfold s.list

theorem updateCursorForPoint_eq (x y : Int) (s : State) :
    updateCursorForPoint x y s =
      if s.pointer.resizing then s else leakAll (hiddenAt x y s) s := by
  unfold updateCursorForPoint
  rw [findWindowAt_eq]
  split
  · rfl
  · simp only [peek_eq]
    split <;> rfl

section Active

variable {s : State} {h hwnd : Handle} {w : Window}

theorem markActive_eq (hwnd : Handle) (s : State) (h : Handle) :
    markActive hwnd s h = updWin h (fun w => { w with active := decide (h = hwnd) }) s := by
  unfold markActive
  cases hw : s.win h with
  | none => rw [reference_none hw, updWin_of_none hw]
  | some w =>
    rw [reference_some hw]
    exact dereference_updWin_retain

theorem setWindowActive_eq (hwnd : Handle) (s : State) :
    setWindowActive hwnd s =
      if hwnd = invalidHandle ∨ ∃ w, s.win hwnd = some w ∧ w.desktop = false then
        s.list.foldl (markActive hwnd) { s with activeWindow := hwnd }
      else s := by
  unfold setWindowActive
  by_cases hinv : hwnd = invalidHandle
  · rw [if_pos hinv, if_pos (.inl hinv)]
    rfl
  · rw [if_neg hinv, peek_eq]
    cases hw : s.win hwnd with
    | none => simp [hinv]
    | some w => cases hdesk : w.desktop <;> simp [hinv, hdesk]

theorem findTopmostVisibleWindow_spec (hne : findTopmostVisibleWindow s ≠ invalidHandle) :
    findTopmostVisibleWindow s ∈ s.list ∧ ∃ w, s.win (findTopmostVisibleWindow s) = some w ∧
      w.visible = true ∧ w.minimized = false ∧ w.desktop = false := by
  unfold findTopmostVisibleWindow at hne ⊢
  simp only [peek_eq] at hne ⊢
  cases hfind : s.list.reverse.find? (fun h =>
      (s.win h).any fun w => w.visible && !w.minimized && !w.desktop) with
  | none =>
    rw [hfind] at hne
    exact absurd rfl hne
  | some h =>
    rw [Option.getD_some]
    have hmem := mem_of_find?_eq_some hfind
    have htest := find?_some hfind
    obtain ⟨w, hw, hprop⟩ := Option.any_eq_true _ _ |>.mp htest
    simp only [Bool.and_eq_true, Bool.not_eq_true'] at hprop
    exact ⟨mem_reverse.mp hmem, w, hw, hprop.1.1, hprop.1.2, hprop.2⟩

end Active

end DiscouNT.Win32k
