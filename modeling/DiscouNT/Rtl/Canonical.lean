import DiscouNT.Rtl.Normal
import Mathlib.Data.List.Chain

/-!
# Rtl.Canonical

The form of a normalized path. The components that are left were all pushed (`Settled`), so
normalizing the output pushes them again and changes nothing (`rtlNormalizePath_idempotent`), and
none of them is a dot, and two dots can only be the first of a relative path
(`rtlNormalizePath_canonical`).
-/

namespace DiscouNT.Rtl

open List Option

def Settled (absolute : Bool) (capacity : Nat) : List (List UInt8) → Prop
  | [] => True
  | component :: stack =>
    takeComponent absolute capacity stack component = some (component :: stack) ∧
      Settled absolute capacity stack

section Settled

variable {absolute : Bool} {capacity : Nat}

theorem takeComponent_settled {stack stack' : List (List UInt8)} {component : List UInt8}
    (h : takeComponent absolute capacity stack component = some stack')
    (hstack : Settled absolute capacity stack) : Settled absolute capacity stack' := by
  have htake := h
  unfold takeComponent at h
  split_ifs at h with hlong hdot hpop hroot hfits
  · cases h
    exact hstack
  · cases h
    cases stack with
    | nil => exact hstack
    | cons last stack => exact hstack.2
  · cases h
    exact hstack
  · cases h
    exact ⟨htake, hstack⟩

theorem foldlM_settled : ∀ {components stack stack' : List (List UInt8)},
    Settled absolute capacity stack →
      components.foldlM (takeComponent absolute capacity) stack = some stack' →
        Settled absolute capacity stack' := by
  intro components
  induction components with
  | nil =>
    intro stack stack' hstack h
    cases h
    exact hstack
  | cons component components ih =>
    intro stack stack' hstack h
    rw [foldlM_cons] at h
    obtain ⟨next, htake, h⟩ := bind_eq_some_iff.mp h
    exact ih (takeComponent_settled htake hstack) h

theorem Settled.again {stack : List (List UInt8)} (h : Settled absolute capacity stack) :
    stack.reverse.foldlM (takeComponent absolute capacity) [] = some stack := by
  induction stack with
  | nil => rfl
  | cons component stack ih =>
    rw [List.reverse_cons, foldlM_append, ih h.2]
    show ([component].foldlM (takeComponent absolute capacity) stack) = _
    rw [foldlM_cons, h.1]
    rfl

theorem Settled.ne_dot {stack : List (List UInt8)} (h : Settled absolute capacity stack) :
    [dot] ∉ stack := by
  induction stack with
  | nil => simp
  | cons component stack ih =>
    rw [mem_cons, not_or]
    refine ⟨?_, ih h.2⟩
    rintro rfl
    have htake := h.1
    rw [takeComponent, if_neg (by decide), if_pos rfl] at htake
    simp at htake

theorem Settled.dots {stack : List (List UInt8)} (h : Settled absolute capacity ([dot, dot] :: stack)) :
    stack = [] ∧ absolute = false := by
  have htake := h.1
  rw [takeComponent, if_neg (by decide), if_neg (by decide)] at htake
  split_ifs at htake with hpop hroot hfits
  · have := congrArg List.length (some.inj htake)
    simp at this
  · simp at htake
  · constructor
    · by_contra hne
      exact hpop ⟨rfl, hne⟩
    · simpa using hroot

theorem Settled.names {stack : List (List UInt8)} (h : Settled absolute capacity stack) :
    ∃ levels names, stack = names ++ List.replicate levels [dot, dot] ∧ [dot, dot] ∉ names ∧
      (absolute = true → levels = 0) := by
  induction stack with
  | nil => exact ⟨0, [], rfl, by simp, fun _ => rfl⟩
  | cons component stack ih =>
    by_cases hdots : component = [dot, dot]
    · subst hdots
      obtain ⟨rfl, rfl⟩ := h.dots
      exact ⟨1, [], rfl, by simp, fun habsolute => by cases habsolute⟩
    · obtain ⟨levels, names, rfl, hnames, hroot⟩ := ih h.2
      refine ⟨levels, component :: names, rfl, ?_, hroot⟩
      rw [mem_cons, not_or]
      exact ⟨Ne.symm hdots, hnames⟩

end Settled

theorem normalComponents_settled {path : List UInt8} {capacity : Nat} {stack : List (List UInt8)}
    (h : normalComponents path capacity = some stack) : Settled (isAbsolute path) capacity stack :=
  @foldlM_settled _ _ (pathComponents path) [] _ trivial h

section Text

variable {absolute : Bool} {stack : List (List UInt8)} (h : ∀ c ∈ stack, IsComponent c)

include h

theorem stacked_separators : ∀ ch ∈ stacked absolute stack, rtlIsPathSeparator ch = true → ch = slash := by
  induction stack with
  | nil => cases absolute <;> simp [stacked]
  | cons component stack ih =>
    obtain ⟨hcomponent, hstack⟩ := forall_mem_cons.mp h
    intro ch hch hseparator
    rw [stacked, mem_append, mem_reverse] at hch
    rcases hch with hch | hch
    · rw [hcomponent.word ch hch] at hseparator
      cases hseparator
    · unfold separated at hch
      split at hch
      · rcases mem_cons.mp hch with rfl | hch
        · rfl
        · exact ih hstack ch hch hseparator
      · exact ih hstack ch hch hseparator

theorem stacked_isChain :
    (stacked absolute stack).IsChain (fun ch ch' => ¬ (ch = slash ∧ ch' = slash)) := by
  induction stack with
  | nil => cases absolute <;> simp [stacked]
  | cons component stack ih =>
    obtain ⟨hcomponent, hstack⟩ := forall_mem_cons.mp h
    have hword : ∀ ch ∈ component.reverse, ch ≠ slash := by
      rintro ch hch rfl
      exact hcomponent.slash_not_mem (mem_reverse.mp hch)
    have hseparated : (separated (stacked absolute stack)).IsChain
        (fun ch ch' => ¬ (ch = slash ∧ ch' = slash)) := by
      unfold separated
      split
      · rename_i hends
        rw [isChain_cons]
        refine ⟨fun ch' hch' hboth => hends.2 ?_, ih hstack⟩
        rw [← hboth.2]
        exact hch'
      · exact ih hstack
    rw [stacked, isChain_append]
    refine ⟨?_, hseparated, fun ch hch ch' _ hboth => ?_⟩
    · exact List.Pairwise.isChain (pairwise_of_forall_mem_list
        fun ch hch ch' _ hboth => hword ch hch hboth.1)
    · exact hword ch (mem_of_getLast? hch) hboth.1

theorem stacked_head (hslash : (stacked absolute stack).head? = some slash) :
    stacked absolute stack = [slash] := by
  cases stack with
  | nil => cases absolute <;> simp_all [stacked]
  | cons component stack =>
    obtain ⟨ch, tail, hreverse, hch, -⟩ := (h component mem_cons_self).reverse_cons
    rw [stacked, hreverse, cons_append, head?_cons] at hslash
    exact absurd (some.inj hslash) hch

end Text

structure Canonical (absolute : Bool) (text : List UInt8) : Prop where
  separators : ∀ ch ∈ text, rtlIsPathSeparator ch = true → ch = slash
  root : text.head? = some slash ↔ absolute = true
  noEmpty : text.IsChain (fun ch ch' => ¬ (ch = slash ∧ ch' = slash))
  noDot : [dot] ∈ pathComponents text → text = [dot]
  noTrailing : text.getLast? = some slash → text = [slash]
  dots : ∃ levels names, pathComponents text = List.replicate levels [dot, dot] ++ names ∧
    [dot, dot] ∉ names ∧ (absolute = true → levels = 0)

theorem head_eq_slash {absolute : Bool} {text : List UInt8}
    (hseparators : ∀ ch ∈ text, rtlIsPathSeparator ch = true → ch = slash)
    (h : isAbsolute text = absolute) : text.head? = some slash ↔ absolute = true := by
  subst h
  cases text with
  | nil => simp [isAbsolute]
  | cons ch text =>
    rw [head?_cons, some.injEq, isAbsolute]
    constructor
    · rintro rfl
      rfl
    · exact hseparators ch mem_cons_self

theorem normalText_canonical {absolute : Bool} {capacity : Nat} {stack : List (List UInt8)}
    (h : ∀ c ∈ stack, IsComponent c) (hsettled : Settled absolute capacity stack) :
    Canonical absolute (normalText absolute stack) := by
  unfold normalText
  split
  · rename_i hempty
    have habsolute : absolute = false := by
      cases absolute with
      | false => rfl
      | true => exact absurd hempty (stacked_root stack)
    subst habsolute
    exact {
      separators := by decide +kernel
      root := by decide
      noEmpty := by simp
      noDot := fun _ => rfl
      noTrailing := by decide
      dots := ⟨0, [[dot]], by decide, by decide, fun _ => rfl⟩ }
  · have hseparators : ∀ ch ∈ (stacked absolute stack).reverse,
        rtlIsPathSeparator ch = true → ch = slash :=
      fun ch hch => stacked_separators h ch (mem_reverse.mp hch)
    have hcomponents := @pathComponents_stacked absolute stack h
    exact {
      separators := hseparators
      root := head_eq_slash hseparators (isAbsolute_stacked h)
      noEmpty := by
        rw [isChain_reverse]
        exact (stacked_isChain h).imp fun ch ch' hboth hswap => hboth hswap.symm
      noDot := by
        intro hdot
        rw [hcomponents, mem_reverse] at hdot
        exact absurd hdot hsettled.ne_dot
      noTrailing := by
        intro hlast
        rw [getLast?_reverse] at hlast
        rw [stacked_head h hlast]
        rfl
      dots := by
        obtain ⟨levels, names, hstack, hnames, hroot⟩ := hsettled.names
        refine ⟨levels, names.reverse, ?_, by simpa using hnames, hroot⟩
        rw [hcomponents, hstack, reverse_append, reverse_replicate] }

theorem rtlNormalizePath_form {path output : List UInt8} {capacity : Nat}
    (h : rtlNormalizePath path capacity = some (some output)) : Canonical (isAbsolute path) output := by
  obtain ⟨-, stack, hstack, rfl⟩ := rtlNormalizePath_some h
  exact normalText_canonical (normalComponents_isComponent hstack) (normalComponents_settled hstack)

theorem rtlNormalizePath_idempotent {path output : List UInt8} {capacity : Nat}
    (h : rtlNormalizePath path capacity = some (some output)) :
    rtlNormalizePath output capacity = some (some output) := by
  obtain ⟨hcapacity, stack, hstack, rfl⟩ := rtlNormalizePath_some h
  have hcomponents := normalComponents_isComponent hstack
  have hsettled := normalComponents_settled hstack
  generalize isAbsolute path = absolute at hsettled ⊢
  have habsolute : isAbsolute (normalText absolute stack) = absolute := by
    unfold normalText
    split
    · rename_i hempty
      cases absolute with
      | false => rfl
      | true => exact absurd hempty (stacked_root stack)
    · exact isAbsolute_stacked hcomponents
  have hagain : normalComponents (normalText absolute stack) capacity = some stack := by
    rw [normalComponents, habsolute]
    unfold normalText
    split
    · rename_i hempty
      cases stack with
      | nil =>
        cases absolute with
        | false => rfl
        | true => exact absurd hempty (stacked_root [])
      | cons component stack =>
        exact absurd hempty (stacked_ne_nil (hcomponents component mem_cons_self))
    · rw [pathComponents_stacked hcomponents]
      exact hsettled.again
  rw [rtlNormalizePath_eq, if_neg (by omega), hagain, habsolute]
  rfl

end DiscouNT.Rtl
