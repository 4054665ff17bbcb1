import DiscouNT.Rtl.Normal

/-!
# Rtl.Meaning

What a path denotes, and whether `RtlNormalizePath` and `RtlJoinPath` keep it.
-/

namespace DiscouNT.Rtl

open List Option

/-- The names that lead to a directory or a file, the last one first. The root has none. -/
abbrev Place := List (List UInt8)

def enter (place : Place) (component : List UInt8) : Place :=
  if component = [dot] then place
  else if component = [dot, dot] then place.tail
  else component :: place

def reach (start : Place) (path : List UInt8) : Place :=
  (pathComponents path).foldl enter (if isAbsolute path then [] else start)

/-- Two paths lead to the same place from every start that is deep enough. -/
def SameLocation (path output : List UInt8) : Prop :=
  ∃ depth, ∀ start : Place, depth ≤ start.length → reach start path = reach start output

/-- A path leads from the start where a name leads from the base. -/
def JoinDenotes (base name output : List UInt8) : Prop :=
  ∃ depth, ∀ start : Place, depth ≤ start.length →
    reach (reach start base) name = reach start output

/-- How many levels above its start a path goes that has so many names below it. -/
def climb : Nat → List (List UInt8) → Nat
  | _, [] => 0
  | depth, component :: components =>
    if component = [dot] then climb depth components
    else if component = [dot, dot] then
      match depth with
      | 0 => climb 0 components + 1
      | depth + 1 => climb depth components
    else climb (depth + 1) components

def climbs (path : List UInt8) : Nat := climb 0 (pathComponents path)

@[simp] theorem climb_dots_zero (components : List (List UInt8)) :
    climb 0 ([dot, dot] :: components) = climb 0 components + 1 := rfl

@[simp] theorem climb_dots_succ (depth : Nat) (components : List (List UInt8)) :
    climb (depth + 1) ([dot, dot] :: components) = climb depth components := rfl

def joinSeparator (combined : List UInt8) : Option (List UInt8) :=
  if combined ≠ [] ∧ (combined.getLast?.any rtlIsPathSeparator) = false then
    if 512 ≤ combined.length + 1 then none else some (combined ++ [slash])
  else some combined

def appendName (combined : List UInt8) : List UInt8 → Option (List UInt8)
  | [] => some combined
  | ch :: name => if 512 ≤ combined.length + 1 then none else appendName (combined ++ [ch]) name

def combinePaths (base name : List UInt8) : Option (List UInt8) :=
  if 512 ≤ base.length then none else (joinSeparator base).bind (appendName · name)

def rtlJoinPath (base name : List UInt8) (capacity : Nat) : Option (Option (List UInt8)) :=
  if capacity = 0 then some none
  else if isAbsolute name then rtlNormalizePath name capacity
  else
    match combinePaths base name with
    | none => some none
    | some combined => rtlNormalizePath combined capacity

variable {combined name : List UInt8}

theorem appendName_eq {combined' : List UInt8}
    (h : appendName combined name = some combined') : combined' = combined ++ name := by
  induction name generalizing combined with
  | nil =>
    cases h
    simp
  | cons ch name ih =>
    rw [appendName] at h
    split at h
    · cases h
    · rw [ih h, append_assoc, singleton_append]

variable {base : List UInt8}

theorem combinePaths_components (h : combinePaths base name = some combined) :
    pathComponents combined = pathComponents base ++ pathComponents name := by
  unfold combinePaths at h
  split at h
  · cases h
  · obtain ⟨start, hstart, happend⟩ := bind_eq_some_iff.mp h
    rw [appendName_eq happend]
    unfold joinSeparator at hstart
    split at hstart
    · split at hstart
      · cases hstart
      · cases hstart
        rw [append_assoc, singleton_append, pathComponents_append rfl]
    · rename_i hends
      cases hstart
      rcases eq_nil_or_concat base with rfl | ⟨front, ch, rfl⟩
      · rfl
      · have hch : rtlIsPathSeparator ch = true := by simpa using hends
        rw [concat_eq_append, append_assoc, singleton_append,
          pathComponents_append hch, pathComponents_append hch]
        simp [pathComponents]

theorem combinePaths_isAbsolute
    (h : combinePaths base name = some combined) (hname : isAbsolute name = false) :
    isAbsolute combined = isAbsolute base := by
  unfold combinePaths at h
  split at h
  · cases h
  · obtain ⟨start, hstart, happend⟩ := bind_eq_some_iff.mp h
    rw [appendName_eq happend]
    unfold joinSeparator at hstart
    cases base with
    | nil =>
      cases hstart
      exact hname
    | cons ch base =>
      split at hstart
      · split at hstart
        · cases hstart
        · cases hstart
          rfl
      · cases hstart
        rfl

def Plain (component : List UInt8) : Prop := component ≠ [dot] ∧ component ≠ [dot, dot]

variable {component : List UInt8}

theorem enter_plain {place : Place} (h : Plain component) :
    enter place component = component :: place := by
  rw [enter, if_neg h.1, if_neg h.2]

theorem climb_plain (h : Plain component) (depth : Nat) (components : List (List UInt8)) :
    climb depth (component :: components) = climb (depth + 1) components := by
  cases depth with
  | zero => rw [climb, if_neg h.1, if_neg h.2]
  | succ depth => rw [climb, if_neg h.1, if_neg h.2]

@[simp] theorem enter_dot (place : Place) : enter place [dot] = place := rfl

@[simp] theorem enter_dots (place : Place) : enter place [dot, dot] = place.tail := rfl

/-- The component `..` that is left of so many levels. -/
def oddDots (levels : Nat) : List (List UInt8) := if levels % 2 = 1 then [[dot, dot]] else []

theorem oddDots_cases (levels : Nat) :
    oddDots levels = [] ∧ oddDots (levels + 1) = [[dot, dot]] ∨
      oddDots levels = [[dot, dot]] ∧ oddDots (levels + 1) = [] := by
  unfold oddDots
  rcases Nat.mod_two_eq_zero_or_one levels with h | h
  · exact .inl ⟨if_neg (by omega), if_pos (by omega)⟩
  · exact .inr ⟨if_pos h, if_neg (by omega)⟩

theorem foldl_enter_plain {names : List (List UInt8)} (h : ∀ name ∈ names, Plain name)
    (place : Place) : names.reverse.foldl enter place = names ++ place := by
  induction names with
  | nil => rfl
  | cons name names ih =>
    rw [List.reverse_cons, foldl_append, ih fun n hn => h n (mem_cons_of_mem _ hn)]
    exact enter_plain (h name mem_cons_self)

theorem foldl_enter_oddDots (levels : Nat) (place : Place) :
    (oddDots levels).reverse.foldl enter place = place.drop (levels % 2) := by
  unfold oddDots
  rcases Nat.mod_two_eq_zero_or_one levels with h | h
  · rw [if_neg (by omega), h]
    rfl
  · rw [if_pos h, h, drop_one]
    rfl

variable {stack : List (List UInt8)} {capacity : Nat}

theorem takeComponent_relative {levels : Nat} {names : List (List UInt8)} (hnames : ∀ name ∈ names, Plain name)
    (h : takeComponent false capacity (names ++ oddDots levels) component = some stack) :
    ∃ names' levels', (∀ name ∈ names', Plain name) ∧ stack = names' ++ oddDots levels' ∧
      (∀ start : Place, enter (names ++ start.drop levels) component = names' ++ start.drop levels') ∧
      ∀ components, levels + climb names.length (component :: components) =
        levels' + climb names'.length components := by
  unfold takeComponent at h
  by_cases hdot : component = [dot]
  · subst hdot
    rw [if_neg (by decide), if_pos rfl] at h
    cases h
    exact ⟨names, levels, hnames, rfl, fun start => rfl, fun components => rfl⟩
  · rw [if_neg hdot] at h
    by_cases hdots : component = [dot, dot]
    · subst hdots
      cases names with
      | nil =>
        refine ⟨[], levels + 1, hnames, ?_, fun start => ?_, fun components => ?_⟩
        · -- A second `..` pops the first.
          rcases oddDots_cases levels with ⟨heven, hodd⟩ | ⟨hodd, heven⟩
          · rw [heven, if_neg (by decide), if_neg (by decide), if_neg (by decide)] at h
            split_ifs at h
            cases h
            rw [hodd]
            rfl
          · rw [hodd, if_neg (by decide), if_pos (by decide)] at h
            cases h
            rw [heven]
            rfl
        · rw [enter_dots, nil_append, nil_append, tail_drop]
        · rw [length_nil, climb_dots_zero]
          omega
      | cons name names =>
        rw [if_neg (by decide), if_pos ⟨rfl, cons_ne_nil _ _⟩] at h
        cases h
        exact ⟨names, levels, fun n hn => hnames n (mem_cons_of_mem _ hn), rfl, fun start => rfl,
          fun components => by rw [length_cons, climb_dots_succ]⟩
    · have hplain : Plain component := ⟨hdot, hdots⟩
      split_ifs at h with hlong hpop hroot hfits
      · exact absurd hpop.1 hdots
      · exact absurd hroot.1 hdots
      · cases h
        refine ⟨component :: names, levels, forall_mem_cons.mpr ⟨hplain, hnames⟩, rfl,
          fun start => enter_plain hplain, fun components => ?_⟩
        rw [climb_plain hplain, length_cons]

theorem foldlM_relative :
    ∀ {components names : List (List UInt8)} {levels : Nat} {stack : List (List UInt8)},
      (∀ name ∈ names, Plain name) →
        components.foldlM (takeComponent false capacity) (names ++ oddDots levels) = some stack →
          ∃ names', (∀ name ∈ names', Plain name) ∧
            stack = names' ++ oddDots (levels + climb names.length components) ∧
              ∀ start : Place, components.foldl enter (names ++ start.drop levels) =
                names' ++ start.drop (levels + climb names.length components) := by
  intro components
  induction components with
  | nil =>
    intro names levels stack hnames h
    cases h
    exact ⟨names, hnames, rfl, fun start => rfl⟩
  | cons component components ih =>
    intro names levels stack hnames h
    rw [foldlM_cons] at h
    obtain ⟨stack', htake, h⟩ := bind_eq_some_iff.mp h
    obtain ⟨names', levels', hnames', rfl, hplace, hclimb⟩ := takeComponent_relative hnames htake
    rw [hclimb]
    obtain ⟨names'', hnames'', hstack, hplaces⟩ := ih hnames' h
    refine ⟨names'', hnames'', hstack, fun start => ?_⟩
    rw [foldl_cons, hplace]
    exact hplaces start

theorem takeComponent_absolute {stack' : List (List UInt8)} (hstack : ∀ name ∈ stack, Plain name)
    (h : takeComponent true capacity stack component = some stack') :
    stack' = enter stack component ∧ ∀ name ∈ stack', Plain name := by
  unfold takeComponent at h
  split_ifs at h with hlong hdot hpop hroot hfits
  · cases h
    exact ⟨by rw [hdot, enter_dot], hstack⟩
  · cases h
    exact ⟨by rw [hpop.1, enter_dots], fun name hname => hstack name (mem_of_mem_tail hname)⟩
  · cases h
    have hempty : stack = [] := by
      by_contra hne
      exact hpop ⟨hroot.1, hne⟩
    exact ⟨by rw [hroot.1, enter_dots, hempty]; rfl, hstack⟩
  · cases h
    have hplain : Plain component := ⟨hdot, fun hdots => hroot ⟨hdots, rfl⟩⟩
    exact ⟨(enter_plain hplain).symm, forall_mem_cons.mpr ⟨hplain, hstack⟩⟩

theorem foldlM_absolute :
    ∀ {components stack stack' : List (List UInt8)}, (∀ name ∈ stack, Plain name) →
      components.foldlM (takeComponent true capacity) stack = some stack' →
        stack' = components.foldl enter stack ∧ ∀ name ∈ stack', Plain name := by
  intro components
  induction components with
  | nil =>
    intro stack stack' hstack h
    cases h
    exact ⟨rfl, hstack⟩
  | cons component components ih =>
    intro stack stack' hstack h
    rw [foldlM_cons] at h
    obtain ⟨next, htake, h⟩ := bind_eq_some_iff.mp h
    obtain ⟨rfl, hnext⟩ := takeComponent_absolute hstack htake
    exact ih hnext h

/-! ## Where the output leads -/

theorem reach_normalText {absolute : Bool} (h : ∀ c ∈ stack, IsComponent c) (start : Place) :
    reach start (normalText absolute stack) =
      stack.reverse.foldl enter (if absolute then [] else start) := by
  unfold normalText
  split
  · rename_i hempty
    cases absolute with
    | true => exact absurd hempty (stacked_root stack)
    | false =>
      cases stack with
      | nil => rfl
      | cons component stack => exact absurd hempty (stacked_ne_nil (h component mem_cons_self))
  · rw [reach, pathComponents_stacked h, isAbsolute_stacked h]

variable {path output : List UInt8}

theorem reach_absolute (habsolute : isAbsolute path = true)
    (h : rtlNormalizePath path capacity = some (some output)) (start : Place) :
    reach start path = reach start output := by
  obtain ⟨-, stack, hstack, rfl⟩ := rtlNormalizePath_some h
  rw [reach_normalText (normalComponents_isComponent hstack), reach]
  rw [normalComponents, habsolute] at hstack
  obtain ⟨rfl, hplain⟩ := foldlM_absolute (by simp) hstack
  rw [habsolute, if_pos rfl, foldl_enter_plain hplain, append_nil]

theorem reach_relative
    (hrelative : isAbsolute path = false) (h : rtlNormalizePath path capacity = some (some output)) :
    ∃ names : List (List UInt8), ∀ start : Place,
      reach start path = names ++ start.drop (climbs path) ∧
        reach start output = names ++ start.drop (climbs path % 2) := by
  obtain ⟨-, stack, hstack, rfl⟩ := rtlNormalizePath_some h
  have hcomponents := normalComponents_isComponent hstack
  rw [normalComponents, hrelative] at hstack
  obtain ⟨names, hnames, rfl, hplace⟩ :=
    @foldlM_relative capacity (pathComponents path) [] 0 stack (by simp) hstack
  simp only [length_nil, Nat.zero_add, drop_zero, nil_append] at hcomponents hplace ⊢
  refine ⟨names, fun start => ⟨?_, ?_⟩⟩
  · rw [reach, hrelative]
    exact hplace start
  · rw [hrelative, reach_normalText hcomponents, reverse_append, foldl_append]
    show names.reverse.foldl enter ((oddDots (climbs path)).reverse.foldl enter start) = _
    rw [foldl_enter_oddDots, foldl_enter_plain hnames]

theorem sameLocation_iff (h : rtlNormalizePath path capacity = some (some output)) :
    SameLocation path output ↔ isAbsolute path = true ∨ climbs path ≤ 1 := by
  cases habsolute : isAbsolute path with
  | true => exact iff_of_true ⟨0, fun start _ => reach_absolute habsolute h start⟩ (.inl rfl)
  | false =>
    obtain ⟨names, hreach⟩ := reach_relative habsolute h
    constructor
    · intro ⟨depth, hsame⟩
      -- Two places at different depths are different.
      have hlength := congrArg List.length
        (hsame (List.replicate (depth + climbs path) []) (by simp))
      rw [(hreach _).1, (hreach _).2] at hlength
      simp only [length_append, length_drop, length_replicate] at hlength
      right
      omega
    · rintro (hfalse | hclimbs)
      · cases hfalse
      · refine ⟨0, fun start _ => ?_⟩
        rw [(hreach start).1, (hreach start).2, Nat.mod_eq_of_lt (by omega)]

theorem reach_combined (h : combinePaths base name = some combined)
    (hname : isAbsolute name = false) (start : Place) :
    reach start combined = reach (reach start base) name := by
  rw [reach, combinePaths_components h, combinePaths_isAbsolute h hname, foldl_append]
  simp only [reach, hname, Bool.false_eq_true, if_false]

/-- The levels above the start that the name goes to, when it is read from the base. -/
def joinClimbs (base name : List UInt8) : Nat := climb 0 (pathComponents base ++ pathComponents name)

theorem joinDenotes_iff (h : rtlJoinPath base name capacity = some (some output)) :
    JoinDenotes base name output ↔
      isAbsolute name = true ∨ isAbsolute base = true ∨ joinClimbs base name ≤ 1 := by
  unfold rtlJoinPath at h
  split_ifs at h with hcapacity habsolute
  · cases h
  · refine iff_of_true ⟨0, fun start _ => ?_⟩ (.inl habsolute)
    rw [← reach_absolute habsolute h start]
    simp only [reach, habsolute, if_true]
  · have hname : isAbsolute name = false := by simpa using habsolute
    split at h
    · cases h
    · rename_i combined hcombined
      have hiff := sameLocation_iff h
      rw [combinePaths_isAbsolute hcombined hname, climbs, combinePaths_components hcombined] at hiff
      simp only [hname, Bool.false_eq_true, false_or, joinClimbs]
      rw [← hiff, JoinDenotes, SameLocation]
      simp only [reach_combined hcombined hname]

/-- Where normalizing and joining keep what a path denotes: for absolute paths, and for relative ones
that go at most one level above the start. -/
theorem rtlNormalizePath_denotes_iff (path base name output : List UInt8) (capacity : Nat) :
    (rtlNormalizePath path capacity = some (some output) →
      (SameLocation path output ↔ isAbsolute path = true ∨ climbs path ≤ 1)) ∧
    (rtlJoinPath base name capacity = some (some output) →
      (JoinDenotes base name output ↔
        isAbsolute name = true ∨ isAbsolute base = true ∨ joinClimbs base name ≤ 1)) :=
  ⟨fun h => sameLocation_iff h, fun h => joinDenotes_iff h⟩

/-- `a/../../b` read from a directory, and the same as a name below `x`. -/
theorem rtlNormalizePath_denotes_one_up :
    SameLocation [97, 47, 46, 46, 47, 46, 46, 47, 98] [46, 46, 47, 98] ∧
      JoinDenotes [120] [46, 46, 47, 46, 46, 47, 98] [46, 46, 47, 98] :=
  ⟨((rtlNormalizePath_denotes_iff _ [] [] _ 256).1 (by decide +kernel)).mpr
      (.inr (by decide +kernel)),
    ((rtlNormalizePath_denotes_iff [] _ _ _ 256).2 (by decide +kernel)).mpr
      (.inr (.inr (by decide +kernel)))⟩

/-- `../..` is normalized to `.`. -/
theorem rtlNormalizePath_two_up :
    rtlNormalizePath [46, 46, 47, 46, 46] 256 = some (some [46]) ∧
      ¬ SameLocation [46, 46, 47, 46, 46] [46] := by
  have haccepted : rtlNormalizePath [46, 46, 47, 46, 46] 256 = some (some [46]) := by decide +kernel
  refine ⟨haccepted, fun hsame => ?_⟩
  rcases (sameLocation_iff haccepted).mp hsame with habsolute | hclimbs
  · cases habsolute
  · exact absurd hclimbs (by decide +kernel)

end DiscouNT.Rtl
