import Mathlib.Data.List.TakeWhile

/-!
# Rtl.Path

Path strings, from `kernel/rtl/rtlpath.c`. A string is the list of its bytes without the
terminator. A loop is run with a number of rounds, and `none` says that they were not enough.
-/

namespace DiscouNT.Rtl

open List Option

def slash : UInt8 := 47
def dot : UInt8 := 46

def rtlIsPathSeparator (ch : UInt8) : Bool := decide (ch = slash) || decide (ch = 92)

/-- What `RtlNextPathComponent` returns: -1, 0, or 1 with the component and the new cursor. -/
inductive NextComponent where
  | failed
  | finished
  | next (component rest : List UInt8)
deriving DecidableEq, Repr

def rtlNextPathComponent (path : List UInt8) (capacity : Nat) : NextComponent :=
  let path := path.dropWhile rtlIsPathSeparator
  if path = [] then .finished
  else
    let component := path.takeWhile (!rtlIsPathSeparator ·)
    if capacity ≤ component.length then .failed
    else .next component ((path.dropWhile (!rtlIsPathSeparator ·)).dropWhile rtlIsPathSeparator)

/-! ## Normalization

The output is kept in reverse, so that its last byte is at the head. -/

def dropName (floor : Nat) : List UInt8 → List UInt8
  | [] => []
  | ch :: output =>
    if floor < output.length + 1 ∧ ch ≠ slash then dropName floor output else ch :: output

def dropSlash (floor : Nat) : List UInt8 → List UInt8
  | [] => []
  | ch :: output => if floor < output.length + 1 ∧ ch = slash then output else ch :: output

def dropLast (floor : Nat) (output : List UInt8) : List UInt8 :=
  dropSlash floor (dropName floor (dropSlash floor output))

def separate (capacity : Nat) (output : List UInt8) : Option (List UInt8) :=
  if output ≠ [] ∧ output.head? ≠ some slash then
    if capacity ≤ output.length + 1 then none else some (slash :: output)
  else some output

def normalizeLoop (absolute : Bool) (capacity : Nat) :
    Nat → List UInt8 → List UInt8 → Option (Option (List UInt8))
  | 0, _, _ => none
  | rounds + 1, path, output =>
    match rtlNextPathComponent path 256 with
    | .failed => some none
    | .finished => some (some output)
    | .next component rest =>
      let floor := if absolute then 1 else 0
      if component = [dot] then normalizeLoop absolute capacity rounds rest output
      else if component = [dot, dot] ∧ floor < output.length then
        normalizeLoop absolute capacity rounds rest (dropLast floor output)
      else if component = [dot, dot] ∧ absolute = true then
        normalizeLoop absolute capacity rounds rest output
      else
        match separate capacity output with
        | none => some none
        | some output =>
          if capacity ≤ output.length + component.length then some none
          else normalizeLoop absolute capacity rounds rest (component.reverse ++ output)

def rtlNormalizePath (path : List UInt8) (capacity : Nat) : Option (Option (List UInt8)) :=
  if capacity < 2 then some none
  else
    let absolute := match path with
      | [] => false
      | ch :: _ => rtlIsPathSeparator ch
    (normalizeLoop absolute capacity (path.length + 1) path (if absolute then [slash] else [])).map
      fun output => output.map fun output =>
        if output = [] then (if absolute then [slash] else [dot]) else output.reverse

variable {path component rest : List UInt8} {capacity : Nat}

theorem rest_length_lt
    (h : rtlNextPathComponent path capacity = .next component rest) : rest.length < path.length := by
  unfold rtlNextPathComponent at h
  have hle := length_dropWhile_le rtlIsPathSeparator path
  cases hpath : path.dropWhile rtlIsPathSeparator with
  | nil => simp [hpath] at h
  | cons ch tail =>
    have hch : rtlIsPathSeparator ch = false := by
      have hhead := head?_dropWhile_not rtlIsPathSeparator path
      rw [hpath] at hhead
      simpa using hhead
    rw [hpath] at hle h
    simp only [length_cons] at hle
    simp only [reduceCtorEq, if_false] at h
    split at h
    · cases h
    · cases h
      have h1 := length_dropWhile_le rtlIsPathSeparator
        ((ch :: tail).dropWhile (!rtlIsPathSeparator ·))
      have h2 := length_dropWhile_le (!rtlIsPathSeparator ·) tail
      rw [dropWhile_cons, if_pos (by simp [hch])] at h1 ⊢
      omega

theorem normalizeLoop_ends (absolute : Bool) (capacity : Nat) :
    ∀ {rounds : Nat} {path output : List UInt8}, path.length < rounds →
      normalizeLoop absolute capacity rounds path output ≠ none := by
  intro rounds
  induction rounds with
  | zero => intro path output h; omega
  | succ rounds ih =>
    intro path output h
    rw [normalizeLoop]
    cases hnext : rtlNextPathComponent path 256 with
    | failed => simp
    | finished => simp
    | next component rest =>
      have hlt := rest_length_lt hnext
      have hrest : ∀ output, normalizeLoop absolute capacity rounds rest output ≠ none :=
        fun output => ih (by omega)
      simp only
      generalize (if absolute = true then 1 else 0) = floor
      split
      · exact hrest _
      · split
        · exact hrest _
        · split
          · exact hrest _
          · split
            · simp
            · split
              · simp
              · exact hrest _

theorem rtlNormalizePath_ends (path : List UInt8) (capacity : Nat) :
    rtlNormalizePath path capacity ≠ none := by
  unfold rtlNormalizePath
  split
  · simp
  · simp only [ne_eq, map_eq_none_iff]
    exact normalizeLoop_ends _ _ (by omega)

/-! ## What a component is

Components are what is left between separators, without the empty ones. -/

def pathComponents (path : List UInt8) : List (List UInt8) :=
  (path.splitOnP rtlIsPathSeparator).filter (· ≠ [])

variable {ch : UInt8}

theorem pathComponents_separator (h : rtlIsPathSeparator ch = true)
    (path : List UInt8) : pathComponents (ch :: path) = pathComponents path := by
  rw [pathComponents, splitOnP_cons, if_pos h]
  rfl

theorem pathComponents_dropWhile (path : List UInt8) :
    pathComponents (path.dropWhile rtlIsPathSeparator) = pathComponents path := by
  induction path with
  | nil => rfl
  | cons ch path ih =>
    cases h : rtlIsPathSeparator ch with
    | true => rw [dropWhile_cons_of_pos h, ih, pathComponents_separator h]
    | false => rw [dropWhile_cons_of_neg (by simp [h])]

theorem takeWhile_ne_nil (h : rtlIsPathSeparator ch = false) (path : List UInt8) :
    (ch :: path).takeWhile (!rtlIsPathSeparator ·) ≠ [] := by
  rw [takeWhile_cons_of_pos (by simp [h])]
  exact cons_ne_nil _ _

theorem pathComponents_takeWhile (h : path.takeWhile (!rtlIsPathSeparator ·) ≠ []) :
    pathComponents path = path.takeWhile (!rtlIsPathSeparator ·) ::
      pathComponents (path.dropWhile (!rtlIsPathSeparator ·)) := by
  have hword : ∀ ch ∈ path.takeWhile (!rtlIsPathSeparator ·), rtlIsPathSeparator ch = false := by
    intro ch hch
    simpa using mem_takeWhile_imp hch
  have hsplit := takeWhile_append_dropWhile (p := (!rtlIsPathSeparator ·)) (l := path)
  have hhead := head?_dropWhile_not (!rtlIsPathSeparator ·) path
  generalize path.takeWhile (!rtlIsPathSeparator ·) = word at h hword hsplit ⊢
  generalize path.dropWhile (!rtlIsPathSeparator ·) = rest at hsplit hhead ⊢
  rw [← hsplit]
  cases rest with
  | nil =>
    rw [append_nil, pathComponents, splitOnP_eq_singleton hword]
    simp [pathComponents, h]
  | cons ch rest =>
    have hch : rtlIsPathSeparator ch = true := by simpa using hhead
    rw [pathComponents_separator hch, pathComponents,
      splitOnP_append_cons_of_forall_mem hword ch hch]
    simp [pathComponents, h]

theorem rtlNextPathComponent_next (h : rtlNextPathComponent path capacity = .next component rest) :
    component ≠ [] ∧ pathComponents path = component :: pathComponents rest ∧
      (pathComponents rest = [] → rest = []) := by
  unfold rtlNextPathComponent at h
  have hhead := head?_dropWhile_not rtlIsPathSeparator path
  rw [← pathComponents_dropWhile path]
  generalize path.dropWhile rtlIsPathSeparator = start at h hhead ⊢
  cases start with
  | nil => simp at h
  | cons ch tail =>
    have hch : rtlIsPathSeparator ch = false := by simpa using hhead
    simp only [reduceCtorEq, if_false] at h
    split at h
    · cases h
    · cases h
      have hne := takeWhile_ne_nil hch tail
      refine ⟨hne, ?_, ?_⟩
      · rw [pathComponents_dropWhile]
        exact pathComponents_takeWhile hne
      · intro hrest
        -- The cursor is not at a separator, so without a component it is at the end.
        have hstop := head?_dropWhile_not rtlIsPathSeparator
          ((ch :: tail).dropWhile (!rtlIsPathSeparator ·))
        generalize ((ch :: tail).dropWhile (!rtlIsPathSeparator ·)).dropWhile rtlIsPathSeparator =
          rest at hrest hstop ⊢
        cases rest with
        | nil => rfl
        | cons ch' rest =>
          have hch' : rtlIsPathSeparator ch' = false := by simpa using hstop
          rw [pathComponents_takeWhile (takeWhile_ne_nil hch' rest)] at hrest
          cases hrest

theorem rtlNextPathComponent_finished
    (h : rtlNextPathComponent path capacity = .finished) : pathComponents path = [] := by
  unfold rtlNextPathComponent at h
  rw [← pathComponents_dropWhile path]
  simp only at h
  split at h
  · rename_i hnil
    rw [hnil]
    rfl
  · split at h <;> cases h

theorem rtlNextPathComponent_ne_failed
    (h : path.length < capacity) : rtlNextPathComponent path capacity ≠ .failed := by
  unfold rtlNextPathComponent
  have h1 := length_dropWhile_le rtlIsPathSeparator path
  have h2 : ((path.dropWhile rtlIsPathSeparator).takeWhile (!rtlIsPathSeparator ·)).length ≤
      (path.dropWhile rtlIsPathSeparator).length := ( takeWhile_prefix _).length_le
  simp only
  split
  · simp
  · rw [if_neg (by omega)]
    simp

theorem dropName_suffix (floor : Nat) (output : List UInt8) : dropName floor output <:+ output := by
  induction output with
  | nil => exact suffix_rfl
  | cons ch output ih =>
    rw [dropName]
    split
    · exact ih.trans (suffix_cons ch output)
    · exact suffix_rfl

theorem dropSlash_suffix (floor : Nat) (output : List UInt8) : dropSlash floor output <:+ output := by
  cases output with
  | nil => exact suffix_rfl
  | cons ch output =>
    rw [dropSlash]
    split
    · exact suffix_cons ch output
    · exact suffix_rfl

theorem dropLast_suffix (floor : Nat) (output : List UInt8) : dropLast floor output <:+ output :=
  (dropSlash_suffix _ _).trans ((dropName_suffix _ _).trans (dropSlash_suffix _ _))

variable {absolute : Bool}

/-- A round ends the loop, takes output back at a dot component, or puts a component on it. -/
theorem normalizeLoop_round {rounds : Nat} {output normalized : List UInt8}
    (h : normalizeLoop absolute capacity (rounds + 1) path output = some (some normalized)) :
    (rtlNextPathComponent path 256 = .finished ∧ output = normalized) ∨
    ∃ component rest output', rtlNextPathComponent path 256 = .next component rest ∧
      normalizeLoop absolute capacity rounds rest output' = some (some normalized) ∧
      (output' <:+ output ∧ (component = [dot] ∨ component = [dot, dot]) ∨
        ∃ stem, separate capacity output = some stem ∧ output' = component.reverse ++ stem ∧
          output'.length < capacity) := by
  rw [normalizeLoop] at h
  cases hnext : rtlNextPathComponent path 256 with
  | failed => simp [hnext] at h
  | finished =>
    simp only [hnext, some.injEq] at h
    exact .inl ⟨rfl, h⟩
  | next component rest =>
    simp only [hnext] at h
    generalize (if absolute = true then 1 else 0) = floor at h
    refine .inr ⟨component, rest, ?_⟩
    split at h
    · exact ⟨output, rfl, h, .inl ⟨suffix_rfl, .inl ‹_›⟩⟩
    · split at h
      · rename_i hdots
        exact ⟨_, rfl, h, .inl ⟨dropLast_suffix _ _, .inr hdots.1⟩⟩
      · split at h
        · rename_i hdots
          exact ⟨output, rfl, h, .inl ⟨suffix_rfl, .inr hdots.1⟩⟩
        · split at h
          · cases h
          · rename_i stem hstem
            split at h
            · cases h
            · refine ⟨_, rfl, h, .inr ⟨stem, hstem, rfl, ?_⟩⟩
              rw [length_append, length_reverse]
              omega

theorem normalizeLoop_length :
    ∀ {rounds : Nat} {path output normalized : List UInt8}, output.length < capacity →
      normalizeLoop absolute capacity rounds path output = some (some normalized) →
        normalized.length < capacity := by
  intro rounds
  induction rounds with
  | zero => intro path output normalized _ h; cases h
  | succ rounds ih =>
    intro path output normalized hlen h
    rcases normalizeLoop_round h with ⟨-, rfl⟩ | ⟨_, _, _, -, h, ⟨hsuffix, -⟩ | ⟨_, -, -, hlt⟩⟩
    · exact hlen
    · exact ih (Nat.lt_of_le_of_lt hsuffix.length_le hlen) h
    · exact ih hlt h

variable {normalized : List UInt8}

theorem rtlNormalizePath_length (h : rtlNormalizePath path capacity = some (some normalized)) :
    normalized.length < capacity := by
  unfold rtlNormalizePath at h
  split at h
  · cases h
  · rename_i hcapacity
    simp only [map_eq_some_iff] at h
    generalize (match path with
      | [] => false
      | ch :: _ => rtlIsPathSeparator ch) = absolute at h
    obtain ⟨_, hloop, output, rfl, rfl⟩ := h
    have hone : ∀ ch : UInt8, [ch].length < capacity := fun ch => by simp; omega
    have hlen : output.length < capacity := by
      refine normalizeLoop_length ?_ hloop
      split
      · exact hone slash
      · exact Nat.lt_of_succ_lt (hone slash)
    split
    · split
      · exact hone slash
      · exact hone dot
    · rw [length_reverse]
      exact hlen

theorem rtlNextPathComponent_subset
    (h : rtlNextPathComponent path capacity = .next component rest) :
    component ⊆ path ∧ rest ⊆ path := by
  unfold rtlNextPathComponent at h
  have hstart : path.dropWhile rtlIsPathSeparator ⊆ path := (dropWhile_suffix _).subset
  generalize path.dropWhile rtlIsPathSeparator = start at h hstart
  simp only at h
  split at h
  · cases h
  · split at h
    · cases h
    · cases h
      constructor
      · exact fun ch hch => hstart (( takeWhile_prefix _).subset hch)
      · exact fun ch hch =>
          hstart ((dropWhile_suffix _).subset ((dropWhile_suffix _).subset hch))

section Bytes

variable {P : UInt8 → Prop} (hslash : P slash)

include hslash

theorem separate_forall {output output' : List UInt8}
    (h : separate capacity output = some output') (houtput : ∀ ch ∈ output, P ch) :
    ∀ ch ∈ output', P ch := by
  rw [separate] at h
  split at h
  · split at h
    · cases h
    · cases h
      exact forall_mem_cons.mpr ⟨hslash, houtput⟩
  · cases h
    exact houtput

theorem normalizeLoop_forall :
    ∀ {rounds : Nat} {path output normalized : List UInt8}, (∀ ch ∈ path, P ch) →
      (∀ ch ∈ output, P ch) →
        normalizeLoop absolute capacity rounds path output = some (some normalized) →
          ∀ ch ∈ normalized, P ch := by
  intro rounds
  induction rounds with
  | zero => intro path output normalized _ _ h; cases h
  | succ rounds ih =>
    intro path output normalized hpath houtput h
    rcases normalizeLoop_round h with ⟨-, rfl⟩ | ⟨component, rest, _, hnext, h, hround⟩
    · exact houtput
    · obtain ⟨hcomponent, hrest⟩ := rtlNextPathComponent_subset hnext
      refine ih (fun ch hch => hpath ch (hrest hch)) (fun ch hch => ?_) h
      rcases hround with ⟨hsuffix, -⟩ | ⟨stem, hstem, rfl, -⟩
      · exact houtput ch (hsuffix.subset hch)
      · rcases mem_append.mp hch with hch | hch
        · exact hpath ch (hcomponent (mem_reverse.mp hch))
        · exact separate_forall hslash hstem houtput ch hch

theorem rtlNormalizePath_forall (hdot : P dot)
    (hpath : ∀ ch ∈ path, P ch) (h : rtlNormalizePath path capacity = some (some normalized)) :
    ∀ ch ∈ normalized, P ch := by
  unfold rtlNormalizePath at h
  split at h
  · cases h
  · simp only [map_eq_some_iff] at h
    generalize (match path with
      | [] => false
      | ch :: _ => rtlIsPathSeparator ch) = absolute at h
    obtain ⟨_, hloop, output, rfl, rfl⟩ := h
    have houtput : ∀ ch ∈ output, P ch := by
      refine normalizeLoop_forall hslash hpath ?_ hloop
      split
      · exact forall_mem_singleton.mpr hslash
      · exact fun ch hch => by cases hch
    split
    · split
      · exact forall_mem_singleton.mpr hslash
      · exact forall_mem_singleton.mpr hdot
    · exact fun ch hch => houtput ch (mem_reverse.mp hch)

end Bytes

/-! ## The components of a normalized path -/

theorem pathComponents_append (h : rtlIsPathSeparator ch = true) (path path' : List UInt8) :
    pathComponents (path ++ ch :: path') = pathComponents path ++ pathComponents path' := by
  rw [pathComponents, splitOnP_append_cons path path' h, filter_append]
  rfl

theorem rtlNextPathComponent_component
    (h : rtlNextPathComponent path capacity = .next component rest) :
    pathComponents component = [component] := by
  have hne := (rtlNextPathComponent_next h).1
  unfold rtlNextPathComponent at h
  simp only at h
  split at h
  · cases h
  · split at h
    · cases h
    · cases h
      rw [pathComponents, splitOnP_eq_singleton]
      · simp only [filter_cons, filter_nil, ne_eq, hne, not_false_eq_true, decide_true,
          if_true]
      · intro ch hch
        simpa using mem_takeWhile_imp hch

theorem pathComponents_separate {output output' : List UInt8}
    (h : separate capacity output = some output') (hcomponent : pathComponents component = [component]) :
    pathComponents (component.reverse ++ output').reverse =
      pathComponents output.reverse ++ [component] := by
  have hslash : rtlIsPathSeparator slash = true := rfl
  rw [reverse_append, reverse_reverse]
  rw [separate] at h
  split at h
  · split at h
    · cases h
    · cases h
      rw [List.reverse_cons, append_assoc, singleton_append,
        pathComponents_append hslash, hcomponent]
  · rename_i hends
    cases h
    cases output with
    | nil => exact hcomponent
    | cons ch output =>
      have hch : ch = slash := by simpa using hends
      rw [hch, List.reverse_cons, append_assoc, singleton_append,
        pathComponents_append hslash, pathComponents_append hslash, hcomponent]
      simp [pathComponents]

theorem normalizeLoop_components :
    ∀ {rounds : Nat} {path output normalized : List UInt8},
      [dot] ∉ pathComponents path → [dot, dot] ∉ pathComponents path →
        normalizeLoop absolute capacity rounds path output = some (some normalized) →
          pathComponents normalized.reverse =
            pathComponents output.reverse ++ pathComponents path := by
  intro rounds
  induction rounds with
  | zero => intro path output normalized _ _ h; cases h
  | succ rounds ih =>
    intro path output normalized hdot hdots h
    rcases normalizeLoop_round h with ⟨hnext, rfl⟩ | ⟨component, rest, _, hnext, h, hround⟩
    · rw [rtlNextPathComponent_finished hnext, append_nil]
    · obtain ⟨-, hpath, -⟩ := rtlNextPathComponent_next hnext
      rw [hpath, mem_cons, not_or] at hdot hdots
      rcases hround with ⟨-, heq | heq⟩ | ⟨stem, hstem, rfl, -⟩
      · exact absurd heq.symm hdot.1
      · exact absurd heq.symm hdots.1
      · rw [ih hdot.2 hdots.2 h, hpath,
          pathComponents_separate hstem (rtlNextPathComponent_component hnext),
          append_assoc, singleton_append]

theorem rtlNormalizePath_components
    (hdot : [dot] ∉ pathComponents path) (hdots : [dot, dot] ∉ pathComponents path)
    (h : rtlNormalizePath path capacity = some (some normalized)) :
    pathComponents normalized = pathComponents path ∨
      pathComponents path = [] ∧ pathComponents normalized = [[dot]] := by
  unfold rtlNormalizePath at h
  split at h
  · cases h
  · simp only [map_eq_some_iff] at h
    generalize (match path with
      | [] => false
      | ch :: _ => rtlIsPathSeparator ch) = absolute at h
    obtain ⟨_, hloop, output, rfl, rfl⟩ := h
    have hcomponents := normalizeLoop_components hdot hdots hloop
    have hstart : pathComponents (if absolute = true then [slash] else []).reverse = [] := by
      cases absolute <;> decide
    rw [hstart, nil_append] at hcomponents
    split
    · rename_i hempty
      rw [hempty] at hcomponents
      cases absolute with
      | true => exact .inl hcomponents
      | false => exact .inr ⟨hcomponents.symm, by decide⟩
    · exact .inl hcomponents

end DiscouNT.Rtl
