import Mathlib
import DiscouNT.Arch

/-!
# Kernel32.Printf

`vsnprintf` of `dlls/kernel32/kernel32.c`. All its output goes through `k32_emit_char`, so the text
it makes does not depend on where the characters go: `formatted` collects them, and a buffer gets as
many of them as it has room for.
-/

namespace DiscouNT.Kernel32

open List Function

/-- An argument: the word `va_arg` reads, and the string it points to if it is not null. -/
structure FormatArg where
  word : UInt64
  text : Option (List UInt8)
  wide : Option (List UInt16)

/-- What stands between `%` and the letter of a conversion. -/
structure FormatSpec where
  width : Int
  pad : UInt8
  isLong : Bool

def isDigit (ch : UInt8) : Bool := 48 ≤ ch ∧ ch ≤ 57

def digits (base : Nat) : Nat → Nat → List UInt8
  | 0, _ => []
  | room + 1, value =>
    .ofNat (if value % base < 10 then 48 + value % base else 97 + value % base - 10) ::
      if value / base = 0 then [] else digits base room (value / base)

def k32EmitUnsigned (value base : Nat) (width : Int) (pad : UInt8) : List UInt8 :=
  let digits := digits base 32 value
  List.replicate (width - digits.length).toNat pad ++ digits.reverse

def nullText : List UInt8 := [40, 110, 117, 108, 108, 41]

/-- The characters the conversion `ch` emits, and whether it takes an argument. -/
def conversion (arch : Arch) (spec : FormatSpec) (ch : UInt8) (arg : FormatArg) :
    List UInt8 × Bool :=
  let size := if spec.isLong then 256 ^ arch.ptrBytes else 2 ^ 32
  if ch = 115 then
    if spec.isLong then
      match arg.wide with
      | some text => (text.map fun ch => if ch < 128 then ch.toUInt8 else 63, true)
      | none => (nullText, true)
    else (arg.text.getD nullText, true)
  else if ch = 99 then ([arg.word.toUInt8], true)
  else if ch = 100 ∨ ch = 105 then
    let value := (arg.word.toNat : Int).bmod size
    ((if value < 0 then [45] else []) ++ k32EmitUnsigned value.natAbs 10 spec.width spec.pad, true)
  else if ch = 112 then
    (48 :: 120 :: k32EmitUnsigned (uptr arch arg.word.toNat) 16 (2 * arch.ptrBytes) 48, true)
  else if ch = 120 ∨ ch = 88 then
    (k32EmitUnsigned (arg.word.toNat % size) 16 spec.width spec.pad, true)
  else if ch = 117 then (k32EmitUnsigned (arg.word.toNat % size) 10 spec.width spec.pad, true)
  else ([], false)

def widthOf (width : List UInt8) : Int :=
  width.foldl (fun width ch => (width * 10 + ch.toNat - 48).bmod (2 ^ 32)) 0

/-- The flag, the width and the `l`s, and what follows them. -/
def parseSpec (format : List UInt8) : FormatSpec × List UInt8 :=
  let (pad, format) := if format.head? = some 48 then (48, format.tail) else (32, format)
  let width := widthOf (format.takeWhile isDigit)
  let format := format.dropWhile isDigit
  (⟨width, pad, format.head? = some 108⟩, format.dropWhile (· = 108))

/-- The loop of `vsnprintf`, with as many rounds as the format has characters. `emit` is
`k32_emit_char`, `args k` the argument that is next. -/
def vsnprintfLoop {σ : Type} (arch : Arch) (args : Nat → FormatArg) (emit : σ → UInt8 → σ) :
    Nat → List UInt8 → Nat → σ → σ
  | 0, _, _, s => s
  | _, [], _, s => s
  | rounds + 1, ch :: format, k, s =>
    if ch ≠ 37 then vsnprintfLoop arch args emit rounds format k (emit s ch)
    else if format.head? = some 37 then
      vsnprintfLoop arch args emit rounds format.tail k (emit s 37)
    else
      match parseSpec format with
      | (_, []) => s
      | (spec, ch :: format) =>
        let (text, taken) := conversion arch spec ch (args k)
        vsnprintfLoop arch args emit rounds format (if taken then k + 1 else k) (text.foldl emit s)

/-- The memory from `buffer` on, and `pos`. -/
structure Sink where
  memory : Nat → UInt8
  pos : Nat

/-- `given` says that `buffer` is not null. -/
def k32EmitChar (given : Bool) (count : Nat) (s : Sink) (ch : UInt8) : Sink :=
  ⟨if given ∧ count ≠ 0 ∧ u32 s.pos < count - 1 then update s.memory s.pos ch else s.memory,
    s.pos + 1⟩

def vsnprintf (arch : Arch) (given : Bool) (count : Nat) (format : List UInt8)
    (args : Nat → FormatArg) (memory : Nat → UInt8) : Sink :=
  let s := vsnprintfLoop arch args (k32EmitChar given count) format.length format 0 ⟨memory, 0⟩
  ⟨if given ∧ count ≠ 0 then
      update s.memory (if u32 s.pos < count then s.pos else count - 1) 0
    else s.memory, s.pos⟩

variable {arch : Arch} {args : Nat → FormatArg}

def formatted (arch : Arch) (format : List UInt8) (args : Nat → FormatArg) : List UInt8 :=
  vsnprintfLoop arch args (fun text ch => text ++ [ch]) format.length format 0 []

theorem vsnprintfLoop_emits : ∀ (rounds : Nat) (format : List UInt8) (k : Nat), ∃ text : List UInt8,
    ∀ {σ : Type} (emit : σ → UInt8 → σ) (s : σ),
      vsnprintfLoop arch args emit rounds format k s = text.foldl emit s
  | 0, _, _ => ⟨[], fun _ _ => rfl⟩
  | _ + 1, [], _ => ⟨[], fun _ _ => rfl⟩
  | rounds + 1, ch :: format, k => by
    simp only [vsnprintfLoop]
    by_cases hlit : ch ≠ 37
    · obtain ⟨text, htext⟩ := vsnprintfLoop_emits rounds format k
      exact ⟨ch :: text, fun emit s => by rw [if_pos hlit, htext]; rfl⟩
    · by_cases hpercent : format.head? = some 37
      · obtain ⟨text, htext⟩ := vsnprintfLoop_emits rounds format.tail k
        exact ⟨37 :: text, fun emit s => by rw [if_neg hlit, if_pos hpercent, htext]; rfl⟩
      · cases hspec : parseSpec format with
        | mk spec rest =>
          cases rest with
          | nil => exact ⟨[], fun emit s => by rw [if_neg hlit, if_neg hpercent]; rfl⟩
          | cons ch rest =>
            obtain ⟨text, htext⟩ := vsnprintfLoop_emits rounds rest
              (if (conversion arch spec ch (args k)).2 then k + 1 else k)
            exact ⟨(conversion arch spec ch (args k)).1 ++ text, fun emit s => by
              rw [if_neg hlit, if_neg hpercent, foldl_append, ← htext]⟩

theorem vsnprintfLoop_eq {σ : Type} (emit : σ → UInt8 → σ) (format : List UInt8) (s : σ) :
    vsnprintfLoop arch args emit format.length format 0 s = (formatted arch format args).foldl emit s := by
  obtain ⟨text, htext⟩ := @vsnprintfLoop_emits arch args format.length format 0
  have happend : ∀ text : List UInt8, text.foldl (fun text ch => text ++ [ch]) [] = text := by
    intro text
    induction text using List.reverseRecOn with
    | nil => rfl
    | append_singleton text ch ih => rw [foldl_append, ih]; rfl
  rw [formatted, htext, htext, happend]

theorem emit_text {given : Bool} {count : Nat} {memory : Nat → UInt8} (text : List UInt8)
    (hlen : text.length < 2 ^ 31) : text.foldl (k32EmitChar given count) ⟨memory, 0⟩ =
      ⟨fun j => if given ∧ j < min text.length (count - 1) then text.getD j 0 else memory j,
        text.length⟩ := by
  induction text using List.reverseRecOn with
  | nil => simp
  | append_singleton text ch ih =>
    rw [length_append, length_singleton] at hlen ⊢
    rw [foldl_append, ih (by omega), foldl_cons, foldl_nil, k32EmitChar]
    dsimp only
    rw [u32_of_lt (by omega)]
    refine congrArg (Sink.mk · _) (funext fun j => ?_)
    by_cases hstore : given ∧ count ≠ 0 ∧ text.length < count - 1
    · rw [if_pos hstore]
      by_cases hj : j = text.length
      · subst hj
        rw [update_self, if_pos ⟨hstore.1, by omega⟩]
        simp
      · rw [update_of_ne hj]
        refine ite_congr (propext (and_congr_right fun _ => by omega)) (fun h => ?_) fun _ => rfl
        rw [getD_append _ _ _ _ (by omega)]
    · rw [if_neg hstore]
      have hfull : given → ¬ (count ≠ 0 ∧ text.length < count - 1) := fun hgiven h =>
        hstore ⟨hgiven, h⟩
      refine ite_congr (propext (and_congr_right fun hgiven => ?_)) (fun h => ?_) fun _ => rfl
      · have := hfull hgiven
        omega
      · have := hfull h.1
        rw [getD_append _ _ _ _ (by omega)]

theorem vsnprintf_eq {count : Nat} {memory : Nat → UInt8} {format : List UInt8} (hcount : 0 < count)
    (hlen : (formatted arch format args).length < 2 ^ 31) (j : Nat) :
    (vsnprintf arch true count format args memory).memory j =
      if j < min (formatted arch format args).length (count - 1) then
        (formatted arch format args).getD j 0
      else if j = min (formatted arch format args).length (count - 1) then 0 else memory j := by
  generalize htext : formatted arch format args = text at hlen ⊢
  rw [vsnprintf, vsnprintfLoop_eq, htext, emit_text text hlen]
  dsimp only
  have hend : (if u32 text.length < count then text.length else count - 1) =
      min text.length (count - 1) := by
    rw [u32_of_lt (by omega)]
    by_cases hfits : text.length < count
    · rw [if_pos hfits]; omega
    · rw [if_neg hfits]; omega
  rw [if_pos ⟨rfl, by omega⟩, hend]
  by_cases hj : j = min text.length (count - 1)
  · rw [hj, update_self, if_neg (Nat.lt_irrefl _), if_pos rfl]
  · rw [update_of_ne hj, if_neg hj]
    exact if_congr (and_iff_right rfl) rfl rfl

theorem vsnprintf_pos (given : Bool) (count : Nat) (format : List UInt8) (memory : Nat → UInt8) :
    (vsnprintf arch given count format args memory).pos = (formatted arch format args).length := by
  have hpos : ∀ (text : List UInt8) (s : Sink),
      (text.foldl (k32EmitChar given count) s).pos = s.pos + text.length := by
    intro text
    induction text with
    | nil => intro s; rfl
    | cons ch text ih =>
      intro s
      rw [foldl_cons, ih, length_cons]
      exact Nat.add_right_comm ..
  rw [vsnprintf, vsnprintfLoop_eq, hpos]
  exact Nat.zero_add _

theorem vsnprintf_truncates (arch : Arch) (format : List UInt8) (args : Nat → FormatArg)
    (memory : Nat → UInt8) (count : Nat) (hcount : 0 < count)
    (hlen : (vsnprintf arch true count format args memory).pos < 2 ^ 31) :
    let r := vsnprintf arch true count format args memory
    (∀ given' count' memory', (vsnprintf arch given' count' format args memory').pos = r.pos) ∧
      (∀ j, count ≤ j → r.memory j = memory j) ∧
      (∀ unlimited memory', r.pos < unlimited → ∀ j < min r.pos (count - 1),
        r.memory j = (vsnprintf arch true unlimited format args memory').memory j) ∧
      r.memory (min r.pos (count - 1)) = 0 := by
  intro r
  have hpos : r.pos = (formatted arch format args).length := vsnprintf_pos ..
  rw [vsnprintf_pos] at hlen
  refine ⟨fun _ _ _ => by rw [vsnprintf_pos, hpos], fun j hj => ?_, fun unlimited memory' hbig j hj => ?_, ?_⟩
  · rw [vsnprintf_eq hcount hlen, if_neg (by omega), if_neg (by omega)]
  · rw [hpos] at hbig hj
    rw [vsnprintf_eq hcount hlen, vsnprintf_eq (by omega) hlen, if_pos hj, if_pos (by omega)]
  · rw [hpos, vsnprintf_eq hcount hlen, if_neg (Nat.lt_irrefl _), if_pos rfl]

/-- A letter and a dot for a buffer of two bytes. -/
theorem vsnprintf_truncates_letter :
    let r := vsnprintf .x86 true 2 [65, 46] (fun _ => ⟨0, none, none⟩) fun _ => 7
    (∀ given' count' memory', (vsnprintf .x86 given' count' [65, 46] (fun _ => ⟨0, none, none⟩)
        memory').pos = r.pos) ∧
      (∀ j, 2 ≤ j → r.memory j = 7) ∧
      (∀ unlimited memory', r.pos < unlimited → ∀ j < min r.pos (2 - 1), r.memory j =
        (vsnprintf .x86 true unlimited [65, 46] (fun _ => ⟨0, none, none⟩) memory').memory j) ∧
      r.memory (min r.pos (2 - 1)) = 0 :=
  vsnprintf_truncates .x86 [65, 46] (fun _ => ⟨0, none, none⟩) (fun _ => 7) 2 (by decide) (by decide)

end DiscouNT.Kernel32
