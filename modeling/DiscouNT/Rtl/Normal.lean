import DiscouNT.Rtl.Path

/-!
# Rtl.Normal

`RtlNormalizePath` on components. The output is always the text of a stack of components
(`stacked`), and a component of the path is pushed on it, pops the last or does nothing
(`takeComponent`). So normalizing is a fold over the components of the path
(`rtlNormalizePath_eq`), and what is read from the output are the components of the stack
(`pathComponents_stacked`).
-/

namespace DiscouNT.Rtl

open List Option

structure IsComponent (component : List UInt8) : Prop where
  nonempty : component ≠ []
  word : ∀ ch ∈ component, rtlIsPathSeparator ch = false

theorem splitOnP_word (path : List UInt8) :
    ∀ word ∈ path.splitOnP rtlIsPathSeparator, ∀ ch ∈ word, rtlIsPathSeparator ch = false := by
  induction path with
  | nil => simp
  | cons ch path ih =>
    intro word hword
    rw [splitOnP_cons_eq_if_modifyHead] at hword
    split at hword
    · rcases mem_cons.mp hword with rfl | hword
      · simp
      · exact ih word hword
    · rename_i hch
      cases hsplit : path.splitOnP rtlIsPathSeparator with
      | nil => exact absurd hsplit (splitOnP_ne_nil _ _)
      | cons first words =>
        rw [hsplit] at hword ih
        rcases mem_cons.mp hword with rfl | hword
        · intro ch' hch'
          rcases mem_cons.mp hch' with rfl | hch'
          · simpa using hch
          · exact ih first mem_cons_self ch' hch'
        · exact ih word (mem_cons_of_mem _ hword)

variable {path component : List UInt8}

theorem isComponent_of_mem (h : component ∈ pathComponents path) :
    IsComponent component := by
  obtain ⟨hword, hne⟩ := mem_filter.mp h
  exact ⟨by simpa using hne, splitOnP_word path component hword⟩

theorem IsComponent.pathComponents (h : IsComponent component) :
    pathComponents component = [component] := by
  rw [Rtl.pathComponents, splitOnP_eq_singleton h.word]
  simp [h.nonempty]

theorem IsComponent.slash_not_mem (h : IsComponent component) :
    slash ∉ component := by
  intro hslash
  cases h.word slash hslash

variable {capacity : Nat}

theorem rtlNextPathComponent_length {rest : List UInt8}
    (h : rtlNextPathComponent path capacity = .next component rest) :
    component.length < capacity := by
  unfold rtlNextPathComponent at h
  simp only at h
  split at h
  · cases h
  · split at h
    · cases h
    · cases h
      omega

theorem rtlNextPathComponent_failed (h : rtlNextPathComponent path capacity = .failed) :
    ∃ component components, pathComponents path = component :: components ∧
      capacity ≤ component.length := by
  unfold rtlNextPathComponent at h
  have hhead := head?_dropWhile_not rtlIsPathSeparator path
  rw [← pathComponents_dropWhile path]
  generalize path.dropWhile rtlIsPathSeparator = start at h hhead ⊢
  cases start with
  | nil => simp at h
  | cons ch tail =>
    have hch : rtlIsPathSeparator ch = false := by simpa using hhead
    simp only [reduceCtorEq, if_false] at h
    split at h
    · rename_i hlong
      exact ⟨_, _, pathComponents_takeWhile (takeWhile_ne_nil hch tail), hlong⟩
    · cases h

def separated (output : List UInt8) : List UInt8 :=
  if output ≠ [] ∧ output.head? ≠ some slash then slash :: output else output

def stacked (absolute : Bool) : List (List UInt8) → List UInt8
  | [] => if absolute then [slash] else []
  | component :: stack => component.reverse ++ separated (stacked absolute stack)

variable {output : List UInt8}

theorem separate_some {output' : List UInt8}
    (h : separate capacity output = some output') : output' = separated output := by
  unfold separate at h
  unfold separated
  split at h
  · split at h
    · cases h
    · cases h
      rename_i hends _
      rw [if_pos hends]
  · cases h
    rename_i hends
    rw [if_neg hends]

theorem separate_none (h : separate capacity output = none) :
    capacity ≤ (separated output).length := by
  unfold separate at h
  unfold separated
  split at h
  · split at h
    · rename_i hends hfull
      rw [if_pos hends]
      exact hfull
    · cases h
  · cases h

theorem IsComponent.reverse_cons (h : IsComponent component) :
    ∃ ch tail, component.reverse = ch :: tail ∧ ch ≠ slash ∧ ∀ ch ∈ tail, ch ≠ slash := by
  cases hreverse : component.reverse with
  | nil => exact absurd (reverse_eq_nil_iff.mp hreverse) h.nonempty
  | cons ch tail =>
    have hmem : ∀ ch' ∈ ch :: tail, ch' ≠ slash := by
      intro ch' hch' heq
      rw [← hreverse, mem_reverse] at hch'
      exact h.slash_not_mem (heq ▸ hch')
    exact ⟨ch, tail, rfl, hmem ch mem_cons_self, fun ch' h' => hmem ch' (mem_cons_of_mem _ h')⟩

variable {absolute : Bool} {stack : List (List UInt8)}

theorem stacked_ne_nil
    (h : IsComponent component) : stacked absolute (component :: stack) ≠ [] := by
  intro hnil
  rw [stacked, append_eq_nil_iff, reverse_eq_nil_iff] at hnil
  exact h.nonempty hnil.1

theorem separated_ne_nil (h : output ≠ []) : separated output ≠ [] := by
  unfold separated
  split
  · exact cons_ne_nil _ _
  · exact h

theorem stacked_root (stack : List (List UInt8)) : stacked true stack ≠ [] := by
  induction stack with
  | nil => exact cons_ne_nil _ _
  | cons component stack ih =>
    intro hnil
    rw [stacked, append_eq_nil_iff] at hnil
    exact separated_ne_nil ih hnil.2

theorem floor_lt_stacked (h : ∀ component ∈ stack, IsComponent component) :
    (if absolute then 1 else 0) < (stacked absolute stack).length ↔ stack ≠ [] := by
  cases stack with
  | nil => cases absolute <;> simp [stacked]
  | cons component stack =>
    simp only [ne_eq, reduceCtorEq, not_false_eq_true, iff_true]
    have hcomponent := h component mem_cons_self
    have hpos := length_pos_iff.mpr hcomponent.nonempty
    rw [stacked, length_append, length_reverse]
    cases absolute with
    | false => simp; omega
    | true =>
      have hroot : 0 < (separated (stacked true stack)).length :=
        length_pos_iff.mpr (separated_ne_nil (stacked_root stack))
      simp only [if_true]
      omega

theorem dropName_append {floor : Nat} {word : List UInt8} (hword : ∀ ch ∈ word, ch ≠ slash)
    (h : floor ≤ output.length) : dropName floor (word ++ output) = dropName floor output := by
  induction word with
  | nil => rfl
  | cons ch word ih =>
    rw [cons_append, dropName, if_pos ⟨by simp; omega, hword ch mem_cons_self⟩]
    exact ih fun ch' h' => hword ch' (mem_cons_of_mem _ h')

theorem dropLast_stacked (h : ∀ c ∈ component :: stack, IsComponent c) :
    dropLast (if absolute then 1 else 0) (stacked absolute (component :: stack)) =
      stacked absolute stack := by
  obtain ⟨ch, tail, hreverse, hch, htail⟩ := (h component mem_cons_self).reverse_cons
  have hword : ∀ ch' ∈ ch :: tail, ch' ≠ slash := forall_mem_cons.mpr ⟨hch, htail⟩
  have hslash : ∀ floor output, dropSlash floor (ch :: output) = ch :: output := by
    intro floor output
    rw [dropSlash, if_neg (fun hand => hch hand.2)]
  rw [dropLast, stacked, hreverse, cons_append, hslash, ← cons_append]
  cases stack with
  | nil =>
    cases absolute with
    | false =>
      show dropSlash 0 (dropName 0 (ch :: tail ++ [])) = []
      rw [dropName_append hword (Nat.zero_le _)]
      rfl
    | true =>
      show dropSlash 1 (dropName 1 (ch :: tail ++ [slash])) = [slash]
      rw [dropName_append hword (show 1 ≤ [slash].length from Nat.le_refl _)]
      rfl
  | cons component' stack =>
    obtain ⟨ch', tail', hreverse', hch', -⟩ :=
      (h component' (mem_cons_of_mem _ mem_cons_self)).reverse_cons
    have hfloor : (if absolute then 1 else 0) < (stacked absolute (component' :: stack)).length :=
      (floor_lt_stacked fun c hc => h c (mem_cons_of_mem _ hc)).mpr (cons_ne_nil _ _)
    have houtput : stacked absolute (component' :: stack) =
        ch' :: (tail' ++ separated (stacked absolute stack)) := by
      rw [stacked, hreverse', cons_append]
    rw [houtput] at hfloor ⊢
    generalize tail' ++ separated (stacked absolute stack) = output at hfloor ⊢
    generalize (if absolute = true then 1 else 0) = floor at hfloor ⊢
    have hseparated : separated (ch' :: output) = slash :: ch' :: output := by
      rw [separated, if_pos ⟨cons_ne_nil _ _, by simpa using hch'⟩]
    rw [hseparated, dropName_append hword (by simp at hfloor ⊢; omega), dropName,
      if_neg (fun hand => hand.2 rfl), dropSlash, if_pos ⟨by omega, rfl⟩]

theorem pathComponents_stacked (h : ∀ component ∈ stack, IsComponent component) :
    pathComponents (stacked absolute stack).reverse = stack.reverse := by
  induction stack with
  | nil => cases absolute <;> decide
  | cons component stack ih =>
    have hcomponent := (h component mem_cons_self).pathComponents
    have hstack := ih fun c hc => h c (mem_cons_of_mem _ hc)
    -- A capacity that is large enough never refuses the separator.
    have hseparate : separate ((stacked absolute stack).length + 2) (stacked absolute stack) =
        some (separated (stacked absolute stack)) := by
      cases hsome : separate ((stacked absolute stack).length + 2) (stacked absolute stack) with
      | none =>
        have hfull := separate_none hsome
        unfold separated at hfull
        split at hfull
        · rw [length_cons] at hfull
          omega
        · omega
      | some output => rw [separate_some hsome]
    rw [stacked, pathComponents_separate hseparate hcomponent, hstack, List.reverse_cons]

/-- One round of the loop of `RtlNormalizePath`; `none` is the result -1. -/
def takeComponent (absolute : Bool) (capacity : Nat) (stack : List (List UInt8))
    (component : List UInt8) : Option (List (List UInt8)) :=
  if 256 ≤ component.length then none
  else if component = [dot] then some stack
  else if component = [dot, dot] ∧ stack ≠ [] then some stack.tail
  else if component = [dot, dot] ∧ absolute = true then some stack
  else if (stacked absolute (component :: stack)).length < capacity then some (component :: stack)
  else none

theorem takeComponent_isComponent
    {stack' : List (List UInt8)} (h : takeComponent absolute capacity stack component = some stack')
    (hcomponent : IsComponent component) (hstack : ∀ c ∈ stack, IsComponent c) :
    ∀ c ∈ stack', IsComponent c := by
  unfold takeComponent at h
  split_ifs at h
  · cases h
    exact hstack
  · cases h
    exact fun c hc => hstack c (mem_of_mem_tail hc)
  · cases h
    exact hstack
  · cases h
    exact forall_mem_cons.mpr ⟨hcomponent, hstack⟩

theorem normalizeLoop_eq :
    ∀ {rounds : Nat} {path : List UInt8} {stack : List (List UInt8)}, path.length < rounds →
      (∀ c ∈ stack, IsComponent c) →
        normalizeLoop absolute capacity rounds path (stacked absolute stack) =
          some (((pathComponents path).foldlM (takeComponent absolute capacity) stack).map
            (stacked absolute)) := by
  intro rounds
  induction rounds with
  | zero => intro path stack h; omega
  | succ rounds ih =>
    intro path stack hrounds hstack
    rw [normalizeLoop]
    cases hnext : rtlNextPathComponent path 256 with
    | failed =>
      obtain ⟨component, components, hpath, hlong⟩ := rtlNextPathComponent_failed hnext
      rw [hpath, foldlM_cons, takeComponent, if_pos hlong]
      rfl
    | finished =>
      rw [rtlNextPathComponent_finished hnext]
      rfl
    | next component rest =>
      obtain ⟨-, hpath, -⟩ := rtlNextPathComponent_next hnext
      have hcomponent : IsComponent component := isComponent_of_mem (hpath ▸ mem_cons_self)
      have hshort := rtlNextPathComponent_length hnext
      have hrest : rest.length < rounds := by
        have := rest_length_lt hnext
        omega
      rw [hpath, foldlM_cons, takeComponent, if_neg (show ¬ 256 ≤ component.length by omega)]
      have hfloor := @floor_lt_stacked absolute stack hstack
      have hpopped := fun (last : List UInt8) (stack : List (List UInt8)) =>
        @dropLast_stacked last absolute stack
      simp only [hfloor]
      generalize (if absolute = true then 1 else 0) = floor at hpopped ⊢
      split_ifs with hdot hpop hroot hfits
      · exact ih hrest hstack
      · cases stack with
        | nil => exact absurd rfl hpop.2
        | cons last stack =>
          rw [hpopped last stack hstack]
          exact ih hrest fun c hc => hstack c (mem_cons_of_mem _ hc)
      · exact ih hrest hstack
      · rw [stacked, length_append, length_reverse] at hfits
        cases hseparate : separate capacity (stacked absolute stack) with
        | none =>
          have := separate_none hseparate
          omega
        | some output =>
          obtain rfl := separate_some hseparate
          simp only
          rw [if_neg (by omega)]
          exact ih hrest (forall_mem_cons.mpr ⟨hcomponent, hstack⟩)
      · rw [stacked, length_append, length_reverse] at hfits
        cases hseparate : separate capacity (stacked absolute stack) with
        | none => rfl
        | some output =>
          obtain rfl := separate_some hseparate
          simp only
          rw [if_pos (by omega)]
          rfl

def isAbsolute : List UInt8 → Bool
  | [] => false
  | ch :: _ => rtlIsPathSeparator ch

def normalText (absolute : Bool) (stack : List (List UInt8)) : List UInt8 :=
  if stacked absolute stack = [] then [dot] else (stacked absolute stack).reverse

def normalComponents (path : List UInt8) (capacity : Nat) : Option (List (List UInt8)) :=
  (pathComponents path).foldlM (takeComponent (isAbsolute path) capacity) []

theorem rtlNormalizePath_eq (path : List UInt8) (capacity : Nat) :
    rtlNormalizePath path capacity =
      some (if capacity < 2 then none
        else (normalComponents path capacity).map (normalText (isAbsolute path))) := by
  unfold rtlNormalizePath
  split_ifs with hcapacity
  · rfl
  · show (normalizeLoop (isAbsolute path) capacity (path.length + 1) path
      (if isAbsolute path then [slash] else [])).map (fun output => output.map fun output =>
        if output = [] then (if isAbsolute path then [slash] else [dot]) else output.reverse) = _
    have hloop := @normalizeLoop_eq capacity (isAbsolute path) _ path [] (Nat.lt_succ_self _)
      (by simp)
    rw [stacked] at hloop
    simp only [hloop, map_some, Option.map_map]
    refine congrArg some (congrFun (congrArg Option.map ?_) _)
    funext stack
    simp only [Function.comp_apply, normalText]
    split_ifs with hempty habs
    · exact absurd hempty (habs ▸ stacked_root stack)
    · rfl
    · rfl

/-! ## What the normalizer leaves -/

theorem foldlM_isComponent :
    ∀ {components stack stack' : List (List UInt8)}, (∀ c ∈ components, IsComponent c) →
      (∀ c ∈ stack, IsComponent c) →
        components.foldlM (takeComponent absolute capacity) stack = some stack' →
          ∀ c ∈ stack', IsComponent c := by
  intro components
  induction components with
  | nil =>
    intro stack stack' _ hstack h
    cases h
    exact hstack
  | cons component components ih =>
    intro stack stack' hcomponents hstack h
    rw [foldlM_cons] at h
    obtain ⟨next, htake, h⟩ := bind_eq_some_iff.mp h
    obtain ⟨hcomponent, hcomponents⟩ := forall_mem_cons.mp hcomponents
    exact ih hcomponents (takeComponent_isComponent htake hcomponent hstack) h

theorem normalComponents_isComponent (h : normalComponents path capacity = some stack) :
    ∀ c ∈ stack, IsComponent c :=
  foldlM_isComponent (fun _ hc => isComponent_of_mem hc) (by simp) h

theorem isAbsolute_append {path' : List UInt8} (h : path ≠ []) :
    isAbsolute (path ++ path') = isAbsolute path := by
  cases path with
  | nil => exact absurd rfl h
  | cons ch path => rfl

theorem IsComponent.relative (h : IsComponent component) :
    isAbsolute component = false := by
  cases component with
  | nil => exact absurd rfl h.nonempty
  | cons ch component => exact h.word ch mem_cons_self

theorem isAbsolute_stacked
    (h : ∀ c ∈ stack, IsComponent c) : isAbsolute (stacked absolute stack).reverse = absolute := by
  induction stack with
  | nil => cases absolute <;> rfl
  | cons component stack ih =>
    obtain ⟨hcomponent, hstack⟩ := forall_mem_cons.mp h
    rw [stacked, reverse_append, reverse_reverse]
    by_cases hempty : stacked absolute stack = []
    · have habsolute := ih hstack
      rw [hempty] at habsolute ⊢
      rw [← habsolute]
      exact hcomponent.relative
    · have hne : (stacked absolute stack).reverse ≠ [] := by simpa using hempty
      rw [isAbsolute_append (by simpa using separated_ne_nil hempty)]
      unfold separated
      split
      · rw [List.reverse_cons, isAbsolute_append hne]
        exact ih hstack
      · exact ih hstack

theorem rtlNormalizePath_some (h : rtlNormalizePath path capacity = some (some output)) :
    2 ≤ capacity ∧ ∃ stack, normalComponents path capacity = some stack ∧
      output = normalText (isAbsolute path) stack := by
  rw [rtlNormalizePath_eq] at h
  split_ifs at h with hcapacity
  · cases h
  · obtain ⟨stack, hstack, rfl⟩ := map_eq_some_iff.mp (some.inj h)
    exact ⟨by omega, stack, hstack, rfl⟩

end DiscouNT.Rtl
