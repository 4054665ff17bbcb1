import Mathlib
import DiscouNT.Arch
import DiscouNT.Rtl.Canonical

/-!
# Rtl.PathOutput

`RtlNormalizePath` on the buffer of its caller, with the `uint32_t` arithmetic of the source. The
buffer holds, in front of the length, the text that `normalizeLoop` computes (`Held`), and every
step keeps that (`normalizeInto_agrees`). So what `Rtl.Path` says of the text is said of the buffer
(`rtlNormalizePathInto_spec`), and no byte at the capacity or above it is stored.
-/

namespace DiscouNT.Rtl

open List Function

structure OutputBuffer where
  bytes : Nat → UInt8
  length : Nat

namespace OutputBuffer

def put (o : OutputBuffer) (ch : UInt8) : OutputBuffer :=
  ⟨update o.bytes o.length ch, u32 (o.length + 1)⟩

def terminate (o : OutputBuffer) : OutputBuffer :=
  { o with bytes := update o.bytes o.length 0 }

def skipName (bytes : Nat → UInt8) (floor : Nat) : Nat → Nat
  | 0 => 0
  | length + 1 =>
    if floor < length + 1 ∧ bytes length ≠ slash then skipName bytes floor length else length + 1

def skipSlash (bytes : Nat → UInt8) (floor : Nat) : Nat → Nat
  | 0 => 0
  | length + 1 => if floor < length + 1 ∧ bytes length = slash then length else length + 1

def pop (floor : Nat) (o : OutputBuffer) : OutputBuffer :=
  { o with
    length := skipSlash o.bytes floor (skipName o.bytes floor (skipSlash o.bytes floor o.length)) }

def separate (capacity : Nat) (o : OutputBuffer) : Option OutputBuffer :=
  if o.length ≠ 0 ∧ o.bytes (o.length - 1) ≠ slash then
    if capacity ≤ u32 (o.length + 1) then none else some (o.put slash)
  else some o

end OutputBuffer

/-- The loop of `RtlNormalizePath`, and whether it ends without -1. -/
def normalizeInto (absolute : Bool) (capacity : Nat) :
    Nat → List UInt8 → OutputBuffer → Option (Bool × OutputBuffer)
  | 0, _, _ => none
  | rounds + 1, path, o =>
    match rtlNextPathComponent path 256 with
    | .failed => some (false, o)
    | .finished => some (true, o)
    | .next component rest =>
      let floor := if absolute then 1 else 0
      if component = [dot] then normalizeInto absolute capacity rounds rest o
      else if component = [dot, dot] ∧ floor < o.length then
        normalizeInto absolute capacity rounds rest (o.pop floor).terminate
      else if component = [dot, dot] ∧ absolute = true then
        normalizeInto absolute capacity rounds rest o
      else
        match o.separate capacity with
        | none => some (false, o)
        | some o =>
          if capacity ≤ u32 (o.length + component.length) then some (false, o)
          else normalizeInto absolute capacity rounds rest (component.foldl .put o).terminate

def int32 (n : Nat) : Int := if n < 2 ^ 31 then n else (n : Int) - 2 ^ 32

def firstOutput (absolute : Bool) (before : Nat → UInt8) : OutputBuffer :=
  (if absolute then (OutputBuffer.mk before 0).put slash else ⟨before, 0⟩).terminate

def emptyOutput (absolute : Bool) (o : OutputBuffer) : OutputBuffer :=
  ((OutputBuffer.mk o.bytes 0).put (if absolute then slash else dot)).terminate

/-- `RtlNormalizePath`: what it returns and what the buffer holds then. -/
def rtlNormalizePathInto (path : List UInt8) (capacity : Nat) (before : Nat → UInt8) :
    Option (Int × (Nat → UInt8)) :=
  if capacity < 2 then some (-1, before)
  else
    let absolute := isAbsolute path
    (normalizeInto absolute capacity (path.length + 1) path (firstOutput absolute before)).map
      fun result =>
        if result.1 = false then (-1, result.2.bytes)
        else
          let o := if result.2.length = 0 then emptyOutput absolute result.2 else result.2
          (int32 o.length, o.bytes)

def Written (bytes : Nat → UInt8) : List UInt8 → Prop
  | [] => True
  | ch :: text => bytes text.length = ch ∧ Written bytes text

structure Held (o : OutputBuffer) (text : List UInt8) : Prop where
  length : o.length = text.length
  written : Written o.bytes text

theorem Written.update {bytes : Nat → UInt8} {text : List UInt8} {i : Nat} {ch : UInt8}
    (h : Written bytes text) (hi : text.length ≤ i) : Written (update bytes i ch) text := by
  induction text with
  | nil => trivial
  | cons ch' text ih =>
    rw [length_cons] at hi
    refine ⟨?_, ih h.2 (by omega)⟩
    rw [update_of_ne (by omega)]
    exact h.1

theorem Written.get {bytes : Nat → UInt8} {text : List UInt8} (h : Written bytes text) {i : Nat}
    (hi : i < text.length) : text.reverse[i]? = some (bytes i) := by
  induction text with
  | nil => cases hi
  | cons ch text ih =>
    rw [List.reverse_cons]
    by_cases hlast : i = text.length
    · subst hlast
      rw [getElem?_append_right (by simp), h.1]
      simp
    · rw [length_cons] at hi
      rw [getElem?_append_left (by simp; omega)]
      exact ih h.2 (by omega)

section Steps

variable {o : OutputBuffer} {text : List UInt8} {capacity floor : Nat}

theorem Held.put (h : Held o text) (hfits : text.length + 1 < 2 ^ 32) (ch : UInt8) :
    Held (o.put ch) (ch :: text) where
  length := by
    rw [OutputBuffer.put, h.length, u32_of_lt hfits]
    rfl
  written := by
    refine ⟨?_, h.written.update (Nat.le_of_eq h.length.symm)⟩
    rw [OutputBuffer.put, h.length]
    exact update_self _ _ _

theorem Held.terminate (h : Held o text) : Held o.terminate text where
  length := h.length
  written := h.written.update (Nat.le_of_eq h.length.symm)

theorem terminate_end (o : OutputBuffer) : o.terminate.bytes o.terminate.length = 0 :=
  update_self _ _ _

theorem Held.foldl {word : List UInt8} (h : Held o text)
    (hfits : text.length + word.length < 2 ^ 32) :
    Held (word.foldl .put o) (word.reverse ++ text) := by
  induction word generalizing o text with
  | nil => exact h
  | cons ch word ih =>
    rw [length_cons] at hfits
    have hput := ih (h.put (by omega) ch) (by rw [length_cons]; omega)
    rw [List.reverse_cons, append_assoc]
    exact hput

theorem skipName_eq {bytes : Nat → UInt8} (h : Written bytes text) :
    OutputBuffer.skipName bytes floor text.length = (dropName floor text).length := by
  induction text with
  | nil => rfl
  | cons ch text ih =>
    rw [length_cons, OutputBuffer.skipName, dropName, h.1]
    split
    · exact ih h.2
    · rfl

theorem Written.dropName {bytes : Nat → UInt8} (h : Written bytes text) :
    Written bytes (dropName floor text) := by
  induction text with
  | nil => trivial
  | cons ch text ih =>
    rw [Rtl.dropName]
    split
    · exact ih h.2
    · exact h

theorem skipSlash_eq {bytes : Nat → UInt8} (h : Written bytes text) :
    OutputBuffer.skipSlash bytes floor text.length = (dropSlash floor text).length := by
  cases text with
  | nil => rfl
  | cons ch text =>
    rw [length_cons, OutputBuffer.skipSlash, dropSlash, h.1]
    split <;> rfl

theorem Written.dropSlash {bytes : Nat → UInt8} (h : Written bytes text) :
    Written bytes (dropSlash floor text) := by
  cases text with
  | nil => trivial
  | cons ch text =>
    rw [Rtl.dropSlash]
    split
    · exact h.2
    · exact h

theorem Held.pop (h : Held o text) : Held (o.pop floor) (dropLast floor text) where
  length := by
    have hslash := @Written.dropSlash _ floor _ h.written
    have hname := @Written.dropName _ floor _ hslash
    rw [OutputBuffer.pop, h.length, skipSlash_eq h.written, skipName_eq hslash, skipSlash_eq hname]
    rfl
  written := h.written.dropSlash.dropName.dropSlash

theorem Held.ends (h : Held o text) :
    (o.length ≠ 0 ∧ o.bytes (o.length - 1) ≠ slash) ↔ (text ≠ [] ∧ text.head? ≠ some slash) := by
  cases text with
  | nil => simp [h.length]
  | cons ch text =>
    rw [h.length, length_cons, Nat.add_sub_cancel, h.written.1]
    simp

def Keeps (capacity : Nat) (o o' : OutputBuffer) : Prop :=
  ∀ i, capacity ≤ i → o'.bytes i = o.bytes i

theorem Keeps.refl (capacity : Nat) (o : OutputBuffer) : Keeps capacity o o := fun _ _ => rfl

theorem Keeps.trans {o1 o2 o3 : OutputBuffer} (h : Keeps capacity o1 o2) (h' : Keeps capacity o2 o3) :
    Keeps capacity o1 o3 :=
  fun i hi => (h' i hi).trans (h i hi)

theorem keeps_put (h : o.length < capacity) (ch : UInt8) : Keeps capacity o (o.put ch) :=
  fun i hi => update_of_ne (by omega) _ _

theorem keeps_terminate (h : o.length < capacity) : Keeps capacity o o.terminate :=
  fun i hi => update_of_ne (by omega) _ _

theorem keeps_foldl {word : List UInt8} (hcapacity : capacity < 2 ^ 32) (h : Held o text)
    (hfits : text.length + word.length < capacity) : Keeps capacity o (word.foldl .put o) := by
  induction word generalizing o text with
  | nil => exact Keeps.refl _ _
  | cons ch word ih =>
    rw [length_cons] at hfits
    have hput := h.put (by omega) ch
    exact (keeps_put (by rw [h.length]; omega) ch).trans
      (ih hput (by rw [length_cons]; omega))

inductive Agrees (capacity : Nat) (o : OutputBuffer) :
    Option (Option (List UInt8)) → Option (Bool × OutputBuffer) → Prop where
  | rounds : Agrees capacity o none none
  | failed {o' : OutputBuffer} (hkeeps : Keeps capacity o o') :
      Agrees capacity o (some none) (some (false, o'))
  | done {o' : OutputBuffer} {text : List UInt8} (hheld : Held o' text)
      (hend : o'.bytes o'.length = 0) (hkeeps : Keeps capacity o o') :
      Agrees capacity o (some (some text)) (some (true, o'))

theorem Agrees.after {o' : OutputBuffer} {result : Option (Option (List UInt8))}
    {result' : Option (Bool × OutputBuffer)} (hkeeps : Keeps capacity o o')
    (h : Agrees capacity o' result result') : Agrees capacity o result result' := by
  cases h with
  | rounds => exact .rounds
  | failed hkeeps' => exact .failed (hkeeps.trans hkeeps')
  | done hheld hend hkeeps' => exact .done hheld hend (hkeeps.trans hkeeps')

theorem Held.separate (hcapacity : capacity < 2 ^ 32) (h : Held o text)
    (hlen : text.length < capacity) :
    (o.separate capacity = none ∧ separate capacity text = none) ∨
      ∃ o' text', o.separate capacity = some o' ∧ separate capacity text = some text' ∧
        Held o' text' ∧ Keeps capacity o o' ∧ text'.length < capacity ∧
          text'.length ≤ text.length + 1 := by
  unfold OutputBuffer.separate Rtl.separate
  by_cases hends : text ≠ [] ∧ text.head? ≠ some slash
  · rw [if_pos hends, if_pos (h.ends.mpr hends), h.length, u32_of_lt (by omega)]
    split
    · exact .inl ⟨rfl, rfl⟩
    · refine .inr ⟨_, _, rfl, rfl, h.put (by omega) slash, keeps_put (by rw [h.length]; omega) slash,
        by rw [length_cons]; omega, Nat.le_refl _⟩
  · rw [if_neg hends, if_neg (fun hand => hends (h.ends.mp hand))]
    exact .inr ⟨_, _, rfl, rfl, h, Keeps.refl _ _, hlen, Nat.le_succ _⟩

end Steps

theorem rtlNextPathComponent_takes {path component rest : List UInt8} {capacity : Nat}
    (h : rtlNextPathComponent path capacity = .next component rest) :
    component.length ≤ path.length ∧ (rest = [] ∨ component.length + 1 + rest.length ≤ path.length) := by
  unfold rtlNextPathComponent at h
  have hle := length_dropWhile_le rtlIsPathSeparator path
  generalize path.dropWhile rtlIsPathSeparator = start at h hle
  simp only at h
  split at h
  · cases h
  · split at h
    · cases h
    · cases h
      have hsplit := congrArg List.length
        (takeWhile_append_dropWhile (p := (!rtlIsPathSeparator ·)) (l := start))
      have hhead := head?_dropWhile_not (!rtlIsPathSeparator ·) start
      rw [length_append] at hsplit
      generalize start.dropWhile (!rtlIsPathSeparator ·) = tail at hsplit hhead ⊢
      refine ⟨by omega, ?_⟩
      cases tail with
      | nil => exact .inl rfl
      | cons ch tail =>
        have hch : rtlIsPathSeparator ch = true := by simpa using hhead
        rw [dropWhile_cons_of_pos hch]
        have := length_dropWhile_le rtlIsPathSeparator tail
        rw [length_cons] at hsplit
        right
        omega

theorem normalizeInto_agrees {absolute : Bool} {capacity : Nat} (hcapacity : capacity < 2 ^ 32) :
    ∀ {rounds : Nat} {path text : List UInt8} {o : OutputBuffer}, Held o text →
      o.bytes o.length = 0 → text.length < capacity →
        (path = [] ∨ text.length + 1 + path.length < 2 ^ 32) →
          Agrees capacity o (normalizeLoop absolute capacity rounds path text)
            (normalizeInto absolute capacity rounds path o) := by
  intro rounds
  induction rounds with
  | zero => intro path text o _ _ _ _; exact .rounds
  | succ rounds ih =>
    intro path text o hheld hend hlen hfits
    rw [normalizeLoop, normalizeInto]
    cases hnext : rtlNextPathComponent path 256 with
    | failed => exact .failed (Keeps.refl _ _)
    | finished => exact .done hheld hend (Keeps.refl _ _)
    | next component rest =>
      obtain ⟨hcomponent, htakes⟩ := rtlNextPathComponent_takes hnext
      have hpath : text.length + 1 + path.length < 2 ^ 32 := by
        rcases hfits with rfl | hfits
        · cases hnext
        · exact hfits
      -- What is left fits, after a text that grew by a separator and the component at most.
      have hrest : ∀ {text' : List UInt8}, text'.length ≤ text.length + 1 + component.length →
          rest = [] ∨ text'.length + 1 + rest.length < 2 ^ 32 := by
        intro text' hle
        rcases htakes with hnil | htakes
        · exact .inl hnil
        · exact .inr (by omega)
      simp only [hheld.length]
      generalize (if absolute = true then 1 else 0) = floor
      split
      · exact ih hheld hend hlen (hrest (by omega))
      · split
        · have hpopped := (dropLast_suffix floor text).length_le
          have hpop : Held (o.pop floor) (dropLast floor text) := hheld.pop
          have hkeeps : Keeps capacity o (o.pop floor).terminate :=
            fun i hi => keeps_terminate (by rw [hpop.length]; omega) i hi
          exact Agrees.after hkeeps
            (ih hpop.terminate (terminate_end _) (by omega) (hrest (by omega)))
        · split
          · exact ih hheld hend hlen (hrest (by omega))
          · rcases hheld.separate hcapacity hlen with ⟨hnone, hnone'⟩ |
              ⟨o', text', hsome, hsome', hheld', hkeeps, hlen', hgrows⟩
            · rw [hnone, hnone']
              exact .failed (Keeps.refl _ _)
            · rw [hsome, hsome']
              simp only
              rw [hheld'.length, u32_of_lt (by omega)]
              split
              · exact .failed hkeeps
              · have hput := @Held.foldl _ _ component hheld' (by omega)
                have hkept := @keeps_foldl _ _ _ component hcapacity hheld' (by omega)
                have hlength : (component.reverse ++ text').length =
                    text'.length + component.length := by
                  rw [length_append, length_reverse, Nat.add_comm]
                refine Agrees.after (hkeeps.trans (hkept.trans (keeps_terminate ?_)))
                  (ih hput.terminate (terminate_end _) ?_ (hrest ?_))
                · rw [hput.length, hlength]
                  omega
                · rw [hlength]
                  omega
                · rw [hlength]
                  omega

/-! ## The function -/

/-- A path as the function gets it: the bytes in front of the terminator. Boot maps the 4 GiB below
`2^32`, and the string with its terminator shares them with the two bytes or more of the output. -/
structure PathString where
  bytes : List UInt8
  unterminated : 0 ∉ bytes
  fits : bytes.length + 2 < 2 ^ 32

def StringAt (bytes : Nat → UInt8) (text : List UInt8) : Prop :=
  (∀ i, i < text.length → text[i]? = some (bytes i)) ∧ bytes text.length = 0

theorem Held.stringAt {o : OutputBuffer} {text : List UInt8} (h : Held o text)
    (hend : o.bytes o.length = 0) : StringAt o.bytes text.reverse := by
  refine ⟨fun i hi => h.written.get (by rwa [length_reverse] at hi), ?_⟩
  rw [length_reverse, ← h.length]
  exact hend

theorem firstOutput_held (absolute : Bool) (before : Nat → UInt8) :
    Held (firstOutput absolute before) (if absolute then [slash] else []) := by
  have hempty : Held ⟨before, 0⟩ [] := ⟨rfl, trivial⟩
  cases absolute with
  | false => exact hempty.terminate
  | true => exact (hempty.put (by decide) slash).terminate

theorem keeps_first {capacity : Nat} (h : 2 ≤ capacity) (bytes : Nat → UInt8) (ch : UInt8) :
    Keeps capacity ⟨bytes, 0⟩ ((OutputBuffer.mk bytes 0).put ch).terminate := by
  have hlength : ((OutputBuffer.mk bytes 0).put ch).length = 1 := rfl
  have hzero : (OutputBuffer.mk bytes 0).length < capacity := by
    show 0 < capacity
    omega
  exact (keeps_put hzero ch).trans (keeps_terminate (by rw [hlength]; omega))

theorem firstOutput_keeps (absolute : Bool) (before : Nat → UInt8) {capacity : Nat}
    (h : 2 ≤ capacity) : Keeps capacity ⟨before, 0⟩ (firstOutput absolute before) := by
  cases absolute with
  | false =>
    have hzero : (OutputBuffer.mk before 0).length < capacity := by
      show 0 < capacity
      omega
    exact keeps_terminate hzero
  | true => exact keeps_first h before slash

theorem emptyOutput_held (absolute : Bool) (o : OutputBuffer) :
    Held (emptyOutput absolute o) [if absolute then slash else dot] := by
  have hempty : Held ⟨o.bytes, 0⟩ [] := ⟨rfl, trivial⟩
  exact (hempty.put (by decide) _).terminate

theorem emptyOutput_keeps (absolute : Bool) (o : OutputBuffer) {capacity : Nat}
    (h : 2 ≤ capacity) : Keeps capacity o (emptyOutput absolute o) :=
  keeps_first h o.bytes _

theorem lastOutput_spec {absolute : Bool} {stack : List (List UInt8)} {o : OutputBuffer}
    {capacity : Nat} (h : 2 ≤ capacity) (hheld : Held o (stacked absolute stack))
    (hend : o.bytes o.length = 0) :
    Keeps capacity o (if o.length = 0 then emptyOutput absolute o else o) ∧
      (if o.length = 0 then emptyOutput absolute o else o).length =
        (normalText absolute stack).length ∧
      StringAt (if o.length = 0 then emptyOutput absolute o else o).bytes
        (normalText absolute stack) := by
  rw [normalText, hheld.length]
  by_cases hempty : stacked absolute stack = []
  · have habsolute : absolute = false := by
      cases absolute with
      | false => rfl
      | true => exact absurd hempty (stacked_root stack)
    subst habsolute
    rw [if_pos (length_eq_zero_iff.mpr hempty), if_pos hempty]
    have hdot := emptyOutput_held false o
    exact ⟨emptyOutput_keeps false o h, hdot.length, hdot.stringAt (terminate_end _)⟩
  · rw [if_neg (fun hzero => hempty (length_eq_zero_iff.mp hzero)), if_neg hempty]
    exact ⟨Keeps.refl _ _, by rw [hheld.length, length_reverse], hheld.stringAt hend⟩

theorem rtlNormalizePathInto_spec (path : PathString) (capacity : UInt32) (before : Nat → UInt8) :
    ∃ n bytes, rtlNormalizePathInto path.bytes capacity.toNat before = some (n, bytes) ∧
      (∀ i, capacity.toNat ≤ i → bytes i = before i) ∧
        ((rtlNormalizePath path.bytes capacity.toNat = some none ∧ n = -1) ∨
          ∃ output, rtlNormalizePath path.bytes capacity.toNat = some (some output) ∧
            n = int32 output.length ∧ StringAt bytes output) := by
  have hcapacity := capacity.toNat_lt
  generalize capacity.toNat = capacity at hcapacity ⊢
  by_cases hsmall : capacity < 2
  · refine ⟨-1, before, if_pos hsmall, fun _ _ => rfl, .inl ⟨?_, rfl⟩⟩
    rw [rtlNormalizePath_eq, if_pos hsmall]
  · have hfirst := firstOutput_held (isAbsolute path.bytes) before
    have hkeeps := firstOutput_keeps (isAbsolute path.bytes) before (Nat.le_of_not_lt hsmall)
    have hlen : (if isAbsolute path.bytes then [slash] else []).length ≤ 1 := by
      split <;> simp
    have hfits := path.fits
    have hagrees := @normalizeInto_agrees (isAbsolute path.bytes) capacity hcapacity
      (path.bytes.length + 1) path.bytes _ _ hfirst (terminate_end _) (by omega)
      (.inr (by omega))
    have hloop := @normalizeLoop_eq capacity (isAbsolute path.bytes) _ path.bytes []
      (Nat.lt_succ_self _) (by simp)
    rw [stacked] at hloop
    rw [hloop] at hagrees
    rw [rtlNormalizePath_eq, if_neg hsmall, rtlNormalizePathInto, if_neg hsmall]
    simp only [normalComponents]
    generalize normalizeInto (isAbsolute path.bytes) capacity (path.bytes.length + 1) path.bytes
      (firstOutput (isAbsolute path.bytes) before) = result at hagrees ⊢
    cases hstack : (pathComponents path.bytes).foldlM
      (takeComponent (isAbsolute path.bytes) capacity) [] with
    | none =>
      rw [hstack] at hagrees
      cases hagrees with
      | failed hkept => exact ⟨-1, _, rfl, hkeeps.trans hkept, .inl ⟨rfl, rfl⟩⟩
    | some stack =>
      rw [hstack] at hagrees
      cases hagrees with
      | @done o _ hheld hend hkept =>
        obtain ⟨hlast, hlength, hstring⟩ := lastOutput_spec (Nat.le_of_not_lt hsmall) hheld hend
        refine ⟨_, _, rfl, hkeeps.trans (hkept.trans hlast), .inr ⟨_, rfl, ?_, hstring⟩⟩
        exact congrArg int32 hlength

theorem int32_nonneg {n : Nat} (hn : n < 2 ^ 32) (h : 0 ≤ int32 n) : n < 2 ^ 31 ∧ int32 n = n := by
  unfold int32 at h ⊢
  split at h
  · rename_i hlt
    exact ⟨hlt, if_pos hlt⟩
  · omega

theorem normalText_pos {absolute : Bool} {stack : List (List UInt8)} :
    0 < (normalText absolute stack).length := by
  unfold normalText
  split
  · exact Nat.one_pos
  · rename_i hne
    rw [length_reverse]
    exact length_pos_iff.mpr hne

/-- What is in the buffer when `RtlNormalizePath` returns a length: a string of that length in normal
form, which is normalized to itself. -/
theorem rtlNormalizePathInto_canonical (path : PathString) (capacity : UInt32)
    (before bytes : Nat → UInt8) (n : Int)
    (h : rtlNormalizePathInto path.bytes capacity.toNat before = some (n, bytes)) (hn : 0 ≤ n) :
    0 < n ∧ n < capacity.toNat ∧ ∃ output : List UInt8, n = output.length ∧ 0 ∉ output ∧
      StringAt bytes output ∧ Canonical (isAbsolute path.bytes) output ∧
        ∀ other, ∃ again, rtlNormalizePathInto output capacity.toNat other = some (n, again) ∧
          StringAt again output := by
  obtain ⟨n', bytes', hresult, -, hcases⟩ := rtlNormalizePathInto_spec path capacity before
  obtain ⟨rfl, rfl⟩ : n' = n ∧ bytes' = bytes := by
    rw [hresult] at h
    cases h
    exact ⟨rfl, rfl⟩
  rcases hcases with ⟨-, rfl⟩ | ⟨output, houtput, rfl, hstring⟩
  · omega
  · have hlength := rtlNormalizePath_length houtput
    have hcapacity := capacity.toNat_lt
    obtain ⟨hshort, hint⟩ := int32_nonneg (by omega) hn
    have hpos : 0 < output.length := by
      obtain ⟨-, stack, -, rfl⟩ := rtlNormalizePath_some houtput
      exact normalText_pos
    have hnul : (0 : UInt8) ∉ output := by
      intro hmem
      exact rtlNormalizePath_forall (P := (· ≠ 0)) (by decide) (by decide)
        (fun ch hch hzero => path.unterminated (hzero ▸ hch)) houtput 0 hmem rfl
    rw [hint]
    refine ⟨by omega, by omega, output, rfl, hnul, hstring, rtlNormalizePath_form houtput, ?_⟩
    intro other
    obtain ⟨m, again, hagain, -, hcases⟩ :=
      rtlNormalizePathInto_spec ⟨output, hnul, by omega⟩ capacity other
    rcases hcases with ⟨hfail, -⟩ | ⟨output', houtput', rfl, hstring'⟩
    · rw [rtlNormalizePath_idempotent houtput] at hfail
      cases hfail
    · rw [rtlNormalizePath_idempotent houtput] at houtput'
      cases houtput'
      rw [hint] at hagain
      exact ⟨again, hagain, hstring'⟩

/-- `\x\.//../a` in a buffer of three bytes: `/a`. -/
theorem rtlNormalizePathInto_canonical_dots : ∃ bytes : Nat → UInt8,
    rtlNormalizePathInto [92, 120, 92, 46, 47, 47, 46, 46, 47, 97] 3 (fun _ => 1) = some (2, bytes) ∧
      ∃ output : List UInt8, (2 : Int) = output.length ∧ StringAt bytes output ∧
        Canonical true output := by
  have hresult : ∃ bytes : Nat → UInt8,
      rtlNormalizePathInto [92, 120, 92, 46, 47, 47, 46, 46, 47, 97] 3 (fun _ => 1) =
        some (2, bytes) := by
    refine ⟨_, Option.map_eq_some_iff.mpr ⟨_, rfl, rfl⟩⟩
  obtain ⟨bytes, hbytes⟩ := hresult
  obtain ⟨-, -, output, hlength, -, hstring, hcanonical, -⟩ := rtlNormalizePathInto_canonical
    ⟨[92, 120, 92, 46, 47, 47, 46, 46, 47, 97], by decide, by decide⟩ 3 (fun _ => 1) bytes 2 hbytes
      (by decide)
  exact ⟨bytes, hbytes, output, hlength, hstring, hcanonical⟩

end DiscouNT.Rtl
