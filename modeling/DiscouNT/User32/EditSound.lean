import DiscouNT.Lib.History
import DiscouNT.User32.Edit
import Mathlib.Tactic.Ring

/-!
# User32.EditSound

The edit control as a text buffer. `Sound` is what a message should do; `Safe` is when it does.
-/

namespace DiscouNT.User32

open Lib List Function

def Edit.text (w : Edit) : List WChar :=
  match w.editText with
  | none => []
  | some text => slice text 0 w.editLen.toNat

def Edit.Inside (w : Edit) : Prop :=
  w.editText.isSome = true → w.editLen < w.editCapacity ∧ 0 ≤ w.editSelStart ∧
    w.editSelStart ≤ w.editSelEnd ∧ w.editSelEnd ≤ w.editLen

def Edit.StoresInside (w : Edit) : Prop := ∀ s ∈ w.stores, 0 ≤ s.1 ∧ s.1 < s.2

def Edit.limit (w : Edit) : Int := if w.editLimit ≤ 0 then 65535 else w.editLimit

/-- The selection that a message replaces, as a control, and what it is replaced with. -/
def EditMessage.replaces (w : Edit) : EditMessage → Option (Edit × List WChar)
  | .char ch => some (if ch = 8 then (backspace w, []) else (w, chars [ch]))
  | .replaceSel repl => some (w, chars (repl.getD []))
  | _ => none

/-- The longest prefix of `r` that keeps the length within the limit when it replaces the
selection. -/
def Edit.fitting (w : Edit) (r : List WChar) : List WChar :=
  r.take (w.limit - (w.editSelStart + (w.editLen - w.editSelEnd))).toNat

structure Same (w w' : Edit) : Prop where
  text : w'.text = w.text
  len : w'.editLen = w.editLen
  selStart : w'.editSelStart = w.editSelStart
  selEnd : w'.editSelEnd = w.editSelEnd
  lost : w'.lost = w.lost

structure Sound (w : Edit) (m : EditMessage) (w' : Edit) : Prop where
  inside : w'.Inside
  stores : w'.StoresInside
  replaced : ∀ v r, m.replaces w = some (v, r) → w'.failures = w.failures →
    w'.text = w.text.take v.editSelStart.toNat ++ v.fitting r ++ w.text.drop v.editSelEnd.toNat
  failed : w'.failures ≠ w.failures → Same w w'

def Asks (minChars : Int) (w : Edit) : Prop :=
  ¬ (w.editText.isSome = true ∧ max 64 minChars ≤ w.editCapacity) ∧ w.limit < 2 ^ 31 - 1

def Leaks (minChars : Int) (ok : Bool) (w : Edit) : Prop :=
  Asks minChars w ∧ ok = true ∧ w.editText.isSome = true ∧ w.editLen = 0

/-- `n` characters are stored after a request for `n + 1`: the text and they are within the limit if
there is a new buffer, or else they fit in the old one. -/
def RequestSafe (n : Int) (ok : Bool) (w : Edit) : Prop :=
  (Asks (n + 1) w → ok = true → w.editLen ≤ w.limit + 1 ∧ n ≤ w.limit) ∧
    (¬ (Asks (n + 1) w ∧ ok = true) → w.editText.isSome = true → n < w.editCapacity)

def cutLen (text : List WChar) (w : Edit) : Int :=
  if 0 < w.editLimit ∧ w.editLimit < u32WStrLen text then w.editLimit else u32WStrLen text

def SetSafe (text : List WChar) (ok : Bool) (w : Edit) : Prop :=
  RequestSafe (cutLen text w) ok w ∧
    (Asks (cutLen text w + 1) w → ok = false → w.editText.isSome = true →
      w.text = (chars text).take (cutLen text w).toNat ∧ w.editSelStart = w.editLen ∧
        w.editSelEnd = w.editLen)

def Edit.newLen (w : Edit) (r : List WChar) : Int :=
  w.editSelStart + (w.fitting r).length + (w.editLen - w.editSelEnd)

def ReplaceSafe (r : List WChar) (ok₁ ok₂ : Bool) (w : Edit) : Prop :=
  let w₁ := u32EnsureEditBuffer 64 ok₁ w
  (Asks 64 w → ok₁ = true → w.editLen ≤ w.limit + 1) ∧
    (w.editText = none → ¬ Asks 64 w → w.fitting r = []) ∧
    (w₁.editText.isSome = true → RequestSafe (w.newLen r) ok₂ w₁ ∧
      ((Asks 64 w ∧ ok₁ = false) ∨ (Asks (w.newLen r + 1) w₁ ∧ ok₂ = false) →
        w.editSelStart = w.editSelEnd ∧ w.fitting r = [] ∧ ¬ Leaks 64 ok₁ w ∧
          ¬ Leaks (w.newLen r + 1) ok₂ w₁))

def Safe (m : EditMessage) (ok₁ ok₂ : Bool) (w : Edit) : Prop :=
  match m with
  | .setText text => SetSafe (text.getD []) ok₁ w
  | .char ch =>
    if ch = 8 then ReplaceSafe [] ok₁ ok₂ (backspace w) else ReplaceSafe (chars [ch]) ok₁ ok₂ w
  | .replaceSel repl => ReplaceSafe (chars (repl.getD [])) ok₁ ok₂ w
  | _ => True

section Buffer

variable {w w' : Edit} {n minChars : Int} {ok : Bool} {r : List WChar}

structure Edit.Base (w : Edit) : Prop where
  limit_range : -2 ^ 31 ≤ w.editLimit ∧ w.editLimit < 2 ^ 31
  empty : w.editText = none → w.editLen = 0 ∧ w.editSelStart = 0 ∧ w.editSelEnd = 0
  len_nonneg : 0 ≤ w.editLen

structure Edit.Good (w : Edit) : Prop extends Edit.Base w where
  inside : w.Inside
  stores : w.StoresInside

theorem Edit.Good.selection (h : w.Good) : 0 ≤ w.editSelStart ∧ w.editSelStart ≤ w.editSelEnd ∧
    w.editSelEnd ≤ w.editLen := by
  cases ht : w.editText with
  | none =>
    obtain ⟨hlen, hs, he⟩ := h.empty ht
    omega
  | some text => exact (h.inside (by simp [ht])).2

theorem Edit.Base.limit_pos (h : w.Base) : 0 < w.limit ∧ w.limit < 2 ^ 31 := by
  have := h.limit_range
  unfold Edit.limit
  by_cases hle : w.editLimit ≤ 0
  · rw [if_pos hle]
    omega
  · rw [if_neg hle]
    omega

/-- A control whose buffer was looked after, with the text that was in it. -/
structure Ensured (w w' : Edit) : Prop where
  limit : w'.editLimit = w.limit
  text : w'.text = w.text
  len : w'.editLen = w.editLen
  selStart : w'.editSelStart = w.editSelStart
  selEnd : w'.editSelEnd = w.editSelEnd

theorem setLimit_eq (w : Edit) :
    (if w.editLimit ≤ 0 then { w with editLimit := 65535 } else w) = { w with editLimit := w.limit } := by
  unfold Edit.limit
  by_cases hle : w.editLimit ≤ 0
  · rw [if_pos hle, if_pos hle]
  · rw [if_neg hle, if_neg hle]

theorem minChars_eq (minChars : Int) : (if minChars < 64 then 64 else minChars) = max 64 minChars := by
  by_cases hlt : minChars < 64
  · rw [if_pos hlt]
    omega
  · rw [if_neg hlt]
    omega

theorem allocChars_cases (h : w.Base) (hlt : w.limit < 2 ^ 31 - 1) :
    ∃ size, max 64 minChars ≤ size ∧ allocChars (max 64 minChars) { w with editLimit := w.limit } =
      if w.limit + 1 < size then w.limit + 1 else size := by
  have hpos := h.limit_pos
  have hsum : i32 (w.limit + 1) = w.limit + 1 := by
    unfold i32
    omega
  unfold allocChars
  simp only [hsum]
  generalize (if 0 < w.editCapacity then i32 (w.editCapacity * 2) else 64) = twice
  refine ⟨if twice < max 64 minChars then max 64 minChars else twice, ?_, rfl⟩
  by_cases htwice : twice < max 64 minChars
  · rw [if_pos htwice]
  · rw [if_neg htwice]
    omega

theorem allocChars_wraps (h : w.Base) (hlt : ¬ w.limit < 2 ^ 31 - 1) :
    allocChars (max 64 minChars) { w with editLimit := w.limit } ≤ 0 := by
  have hpos := h.limit_pos
  have hsum : i32 (w.limit + 1) = -2 ^ 31 := by
    unfold i32
    omega
  unfold allocChars
  simp only [hsum]
  generalize (if 0 < w.editCapacity then i32 (w.editCapacity * 2) else 64) = twice
  by_cases htwice : twice < max 64 minChars
  · rw [if_pos htwice, if_pos (by omega)]
    decide
  · rw [if_neg htwice, if_pos (by omega)]
    decide

theorem storesAt_inside {d capacity : Int} {k : Nat} :
    (∀ s ∈ storesAt d k capacity, 0 ≤ s.1 ∧ s.1 < s.2) ↔ k = 0 ∨ (0 ≤ d ∧ d + k ≤ capacity) := by
  simp only [storesAt, mem_map, mem_range]
  constructor
  · intro hall
    by_cases hk : k = 0
    · exact .inl hk
    · have hfirst := hall _ ⟨0, by omega, rfl⟩
      have hlast := hall _ ⟨k - 1, by omega, rfl⟩
      simp only at hfirst hlast
      omega
  · rintro hor s ⟨i, hi, rfl⟩
    simp only
    omega

structure Kept (w w' : Edit) : Prop extends Ensured w w' where
  isSome : w'.editText.isSome = w.editText.isSome
  capacity : w'.editCapacity = w.editCapacity
  stores : w'.stores = w.stores
  lost : w'.lost = w.lost

/-- There is a new buffer, as large as was asked for or as the limit allows. -/
structure Grown (minChars : Int) (w w' : Edit) : Prop extends Ensured w w' where
  isSome : w'.editText.isSome = true
  capacity : ∃ size, max 64 minChars ≤ size ∧
    w'.editCapacity = if w.limit + 1 < size then w.limit + 1 else size
  stores : w'.stores =
    (if w.editText.isSome = true then storesAt 0 w.editLen.toNat w'.editCapacity else []) ++ w.stores
  lost : w'.lost = if w.editText.isSome = true ∧ w.editLen = 0 then w.lost + 1 else w.lost
  failures : w'.failures = w.failures

theorem replaceBuffer_grown (h : w.Base) {alloc size : Int} (hsize : max 64 minChars ≤ size)
    (halloc : alloc = if w.limit + 1 < size then w.limit + 1 else size) :
    Grown minChars w (replaceBuffer alloc { w with editLimit := w.limit }) := by
  have hlen := h.len_nonneg
  unfold replaceBuffer
  cases ht : w.editText with
  | none =>
    obtain ⟨hzero, -⟩ := h.empty ht
    refine ⟨⟨rfl, ?_, rfl, rfl, rfl⟩, rfl, ⟨size, hsize, halloc⟩, ?_, ?_, rfl⟩
    · simp [Edit.text, ht, hzero]
    · simp [ht]
    · simp [ht]
  | some text =>
    simp only
    by_cases hpos : 0 < w.editLen
    · rw [if_pos hpos]
      refine ⟨⟨rfl, ?_, rfl, rfl, rfl⟩, rfl, ⟨size, hsize, halloc⟩, ?_, ?_, rfl⟩
      · simp only [Edit.text, ht]
        refine slice_congr fun k hk => ?_
        rw [copyIn_apply, if_pos (by omega), Int.sub_zero]
      · simp [ht]
      · have hne : ¬ w.editLen = 0 := by omega
        simp [ht, hne]
    · rw [if_neg hpos]
      have hzero : w.editLen = 0 := by omega
      refine ⟨⟨rfl, ?_, rfl, rfl, rfl⟩, rfl, ⟨size, hsize, halloc⟩, ?_, ?_, rfl⟩
      · simp [Edit.text, ht, hzero]
      · simp [ht, hzero, storesAt]
      · simp [ht, hzero]

theorem ensure_cases (h : w.Base) (minChars : Int) (ok : Bool) :
    (¬ Asks minChars w ∧ Kept w (u32EnsureEditBuffer minChars ok w) ∧
      (u32EnsureEditBuffer minChars ok w).failures = w.failures) ∨
    (Asks minChars w ∧ ok = false ∧ Kept w (u32EnsureEditBuffer minChars ok w) ∧
      (u32EnsureEditBuffer minChars ok w).failures = w.failures + 1) ∨
    (Asks minChars w ∧ ok = true ∧ Grown minChars w (u32EnsureEditBuffer minChars ok w)) := by
  have hkept : ∀ failures, Kept w { w with editLimit := w.limit, failures } := fun failures =>
    ⟨⟨rfl, rfl, rfl, rfl, rfl⟩, rfl, rfl, rfl, rfl⟩
  unfold u32EnsureEditBuffer
  simp only [setLimit_eq, minChars_eq]
  by_cases hfits : w.editText.isSome = true ∧ max 64 minChars ≤ w.editCapacity
  · left
    rw [if_pos hfits]
    exact ⟨fun hasks => hasks.1 hfits, hkept _, rfl⟩
  rw [if_neg hfits]
  by_cases hlt : w.limit < 2 ^ 31 - 1
  · obtain ⟨size, hsize, halloc⟩ := @allocChars_cases w minChars h hlt
    have hpos := h.limit_pos
    have hnot : ¬ allocChars (max 64 minChars) { w with editLimit := w.limit } ≤ 0 := by
      rw [halloc]
      by_cases hcut : w.limit + 1 < size
      · rw [if_pos hcut]
        omega
      · rw [if_neg hcut]
        omega
    rw [if_neg hnot]
    right
    cases ok with
    | false =>
      left
      rw [if_pos rfl]
      exact ⟨⟨hfits, hlt⟩, rfl, hkept _, rfl⟩
    | true =>
      right
      rw [if_neg (by decide)]
      exact ⟨⟨hfits, hlt⟩, rfl, replaceBuffer_grown h hsize halloc⟩
  · left
    rw [if_pos (allocChars_wraps h hlt)]
    exact ⟨fun hasks => hlt hasks.2, hkept _, rfl⟩

theorem Ensured.base (h : w.Base) (he : Ensured w w')
    (hsome : w.editText.isSome = true → w'.editText.isSome = true) : w'.Base := by
  have hpos := h.limit_pos
  refine ⟨?_, fun hnone => ?_, by rw [he.len]; exact h.len_nonneg⟩
  · rw [he.limit]
    omega
  · rw [he.len, he.selStart, he.selEnd]
    refine h.empty (Option.not_isSome_iff_eq_none.mp fun hw => ?_)
    have := hsome hw
    rw [hnone] at this
    cases this

theorem Ensured.limit_eq (he : Ensured w w') (h : w.Base) : w'.limit = w.limit := by
  have hpos := h.limit_pos
  rw [Edit.limit, he.limit, if_neg (by omega)]

section

variable (h : w.Base)
include h

theorem ensure_ensured (minChars : Int) (ok : Bool) :
    Ensured w (u32EnsureEditBuffer minChars ok w) := by
  rcases ensure_cases h minChars ok with ⟨-, hk, -⟩ | ⟨-, -, hk, -⟩ | ⟨-, -, hg⟩
  · exact hk.toEnsured
  · exact hk.toEnsured
  · exact hg.toEnsured

theorem ensure_isSome (minChars : Int) (ok : Bool) :
    (u32EnsureEditBuffer minChars ok w).editText.isSome = true ↔
      w.editText.isSome = true ∨ (Asks minChars w ∧ ok = true) := by
  rcases ensure_cases h minChars ok with ⟨hno, hk, -⟩ | ⟨hasks, hok, hk, -⟩ | ⟨hasks, hok, hg⟩
  · rw [hk.isSome]
    exact ⟨.inl, fun hor => hor.resolve_right fun hand => hno hand.1⟩
  · rw [hk.isSome]
    refine ⟨.inl, fun hor => hor.resolve_right fun hand => ?_⟩
    rw [hok] at hand
    cases hand.2
  · exact iff_of_true hg.isSome (.inr ⟨hasks, hok⟩)

theorem ensure_base (minChars : Int) (ok : Bool) :
    (u32EnsureEditBuffer minChars ok w).Base :=
  (ensure_ensured h minChars ok).base h fun hsome => (ensure_isSome h minChars ok).mpr (.inl hsome)

theorem ensure_failures (minChars : Int) (ok : Bool) :
    w.failures ≤ (u32EnsureEditBuffer minChars ok w).failures ∧
      ((u32EnsureEditBuffer minChars ok w).failures ≠ w.failures ↔
        Asks minChars w ∧ ok = false) := by
  rcases ensure_cases h minChars ok with ⟨hno, -, hf⟩ | ⟨hasks, hok, -, hf⟩ | ⟨-, hok, hg⟩
  · exact ⟨hf.ge, iff_of_false (fun hne => hne hf) fun hand => hno hand.1⟩
  · exact ⟨by omega, iff_of_true (by omega) ⟨hasks, hok⟩⟩
  · refine ⟨hg.failures.ge, iff_of_false (fun hne => hne hg.failures) fun hand => ?_⟩
    rw [hok] at hand
    cases hand.2

theorem ensure_lost (minChars : Int) (ok : Bool) :
    w.lost ≤ (u32EnsureEditBuffer minChars ok w).lost ∧
      ((u32EnsureEditBuffer minChars ok w).lost = w.lost ↔ ¬ Leaks minChars ok w) := by
  rcases ensure_cases h minChars ok with ⟨hno, hk, -⟩ | ⟨-, hok, hk, -⟩ | ⟨hasks, hok, hg⟩
  · exact ⟨hk.lost.ge, iff_of_true hk.lost fun hleaks => hno hleaks.1⟩
  · refine ⟨hk.lost.ge, iff_of_true hk.lost fun hleaks => ?_⟩
    rw [hok] at hleaks
    cases hleaks.2.1
  · rw [hg.lost]
    by_cases hempty : w.editText.isSome = true ∧ w.editLen = 0
    · rw [if_pos hempty]
      exact ⟨by omega, iff_of_false (by omega) fun hno => hno ⟨hasks, hok, hempty⟩⟩
    · rw [if_neg hempty]
      exact ⟨le_rfl, iff_of_true rfl fun hleaks => hempty hleaks.2.2⟩

theorem Grown.len_le_iff (hg : Grown minChars w w') (hasks : Asks minChars w)
    (hcap : w.editText.isSome = true → w.editLen ≤ w.editCapacity) :
    w.editLen ≤ w'.editCapacity ↔ w.editLen ≤ w.limit + 1 := by
  have hpos := h.limit_pos
  obtain ⟨size, hsize, hcapacity⟩ := hg.capacity
  have hle : w.editLen ≤ size := by
    cases ht : w.editText with
    | none =>
      have := h.empty ht
      omega
    | some text =>
      have hsome : w.editText.isSome = true := by rw [ht]; rfl
      have := hcap hsome
      have : ¬ max 64 minChars ≤ w.editCapacity := fun hle => hasks.1 ⟨hsome, hle⟩
      omega
  rw [hcapacity]
  by_cases hcut : w.limit + 1 < size
  · rw [if_pos hcut]
  · rw [if_neg hcut]
    omega

theorem ensure_stores (hcap : w.editText.isSome = true → w.editLen ≤ w.editCapacity)
    (minChars : Int) (ok : Bool) :
    (u32EnsureEditBuffer minChars ok w).StoresInside ↔
      w.StoresInside ∧ (Asks minChars w → ok = true → w.editLen ≤ w.limit + 1) := by
  have hlen := h.len_nonneg
  have hpos := h.limit_pos
  rcases ensure_cases h minChars ok with ⟨hno, hk, -⟩ | ⟨-, hok, hk, -⟩ | ⟨hasks, hok, hg⟩
  · rw [Edit.StoresInside, hk.stores]
    exact ⟨fun hs => ⟨hs, fun hasks => absurd hasks hno⟩, And.left⟩
  · rw [Edit.StoresInside, hk.stores]
    refine ⟨fun hs => ⟨hs, fun _ htrue => ?_⟩, And.left⟩
    rw [hok] at htrue
    cases htrue
  · have hle := hg.len_le_iff h hasks hcap
    rw [Edit.StoresInside, hg.stores, forall_mem_append]
    by_cases hsome : w.editText.isSome = true
    · rw [if_pos hsome, storesAt_inside]
      constructor
      · rintro ⟨hnew, hold⟩
        exact ⟨hold, fun _ _ => hle.mp (by omega)⟩
      · rintro ⟨hold, hfits⟩
        have := hle.mpr (hfits hasks hok)
        exact ⟨by omega, hold⟩
    · have hzero := (h.empty (Option.not_isSome_iff_eq_none.mp hsome)).1
      rw [if_neg hsome]
      exact ⟨fun hs => ⟨hs.2, fun _ _ => by omega⟩, fun hs => ⟨fun s hs => (nomatch hs), hs.1⟩⟩

theorem ensure_len_le (hcap : w.editText.isSome = true → w.editLen ≤ w.editCapacity)
    (hfits : Asks minChars w → ok = true → w.editLen ≤ w.limit + 1)
    (hsome : (u32EnsureEditBuffer minChars ok w).editText.isSome = true) :
    w.editLen ≤ (u32EnsureEditBuffer minChars ok w).editCapacity := by
  rcases ensure_cases h minChars ok with ⟨-, hk, -⟩ | ⟨-, -, hk, -⟩ | ⟨hasks, hok, hg⟩
  · rw [hk.isSome] at hsome
    rw [hk.capacity]
    exact hcap hsome
  · rw [hk.isSome] at hsome
    rw [hk.capacity]
    exact hcap hsome
  · exact (hg.len_le_iff h hasks hcap).mpr (hfits hasks hok)

theorem ensure_room (n : Int) (ok : Bool) :
    n < (u32EnsureEditBuffer (n + 1) ok w).editCapacity ↔
      (Asks (n + 1) w → ok = true → n ≤ w.limit) ∧
        (¬ (Asks (n + 1) w ∧ ok = true) → n < w.editCapacity) := by
  rcases ensure_cases h (n + 1) ok with ⟨hno, hk, -⟩ | ⟨-, hok, hk, -⟩ | ⟨hasks, hok, hg⟩
  · rw [hk.capacity]
    exact ⟨fun hlt => ⟨fun hasks => absurd hasks hno, fun _ => hlt⟩,
      fun hand => hand.2 fun hasks => hno hasks.1⟩
  · rw [hk.capacity, hok]
    exact ⟨fun hlt => ⟨fun _ hfalse => (nomatch hfalse), fun _ => hlt⟩,
      fun hand => hand.2 fun hasks => (nomatch hasks.2)⟩
  · obtain ⟨size, hsize, hcapacity⟩ := hg.capacity
    have hroom : n < (u32EnsureEditBuffer (n + 1) ok w).editCapacity ↔ n ≤ w.limit := by
      rw [hcapacity]
      by_cases hcut : w.limit + 1 < size
      · rw [if_pos hcut]
        omega
      · rw [if_neg hcut]
        omega
    rw [hroom]
    exact ⟨fun hle => ⟨fun _ _ => hle, fun hno => absurd ⟨hasks, hok⟩ hno⟩,
      fun hand => hand.1 hasks hok⟩

end

end Buffer

section Replace

variable {w w' : Edit} {n minChars : Int} {ok ok₁ ok₂ : Bool} {r repl : List WChar}
  {text : Int → WChar}

theorem syncTitle_eq (w : Edit) : ∃ title, u32EditSyncTitle w = { w with title } := by
  unfold u32EditSyncTitle
  split
  · exact ⟨w.title, rfl⟩
  · exact ⟨_, rfl⟩

theorem length_fitting (w : Edit) (repl : List WChar) (hlimit : 0 < w.limit) :
    ((w.fitting (chars repl)).length : Int) =
      replLenWithin w.limit w.editSelStart (w.editLen - w.editSelEnd) (u32WStrLen repl) := by
  have hlen : u32WStrLen repl = (chars repl).length := rfl
  simp only [Edit.fitting, length_take, replLenWithin]
  by_cases hcut : 0 < w.limit ∧
      w.limit < w.editSelStart + u32WStrLen repl + (w.editLen - w.editSelEnd)
  · rw [if_pos hcut]
    by_cases hneg : u32WStrLen repl - (w.editSelStart + u32WStrLen repl +
        (w.editLen - w.editSelEnd) - w.limit) < 0
    · rw [if_pos hneg]
      omega
    · rw [if_neg hneg]
      omega
  · rw [if_neg hcut]
    omega

theorem charAt_eq {k : Nat} (hk : k < (chars repl).length) :
    charAt repl k = (chars repl).getD k 0 := by
  obtain ⟨tail, htail⟩ : chars repl <+: repl := takeWhile_prefix _
  have hget : repl[k]? = (chars repl)[k]? :=
    calc repl[k]? = (chars repl ++ tail)[k]? := by rw [htail]
      _ = (chars repl)[k]? := getElem?_append_left hk
  rw [charAt, Int.toNat_natCast, getD_eq_getElem?_getD, getD_eq_getElem?_getD, hget]

theorem moveTail_apply {start replLen stop tailLen a : Int} (ht : 0 ≤ tailLen)
    (ha : a < start + replLen + tailLen) :
    moveTail start replLen stop tailLen text a =
      if start + replLen ≤ a then text (stop + (a - (start + replLen))) else text a := by
  unfold moveTail
  by_cases hmove : 0 < tailLen ∧ start + replLen ≠ stop
  · rw [if_pos hmove]
    by_cases hdown : start + replLen < stop
    · rw [if_pos hdown, moveForward_apply hdown.le]
      exact if_congr (by omega) rfl rfl
    · rw [if_neg hdown, moveBackward_apply (Int.not_lt.mp hdown)]
      exact if_congr (by omega) rfl rfl
  · rw [if_neg hmove, update_apply, if_neg (by omega)]
    by_cases hin : start + replLen ≤ a
    · rw [if_pos hin]
      congr 1
      omega
    · rw [if_neg hin]

theorem splice_eq (repl : List WChar) (start replLen stop : Int) (text : Int → WChar) (w : Edit) :
    ∃ title, splice repl start replLen stop text w = { w with
      title
      editText := some (update (copyIn (moveTail start replLen stop (w.editLen - stop) text)
        start (charAt repl) replLen.toNat) (start + replLen + (w.editLen - stop)) 0)
      stores := (start + replLen + (w.editLen - stop), w.editCapacity) ::
        (storesAt start replLen.toNat w.editCapacity ++
          (tailStores start replLen stop (w.editLen - stop) w.editCapacity ++ w.stores))
      editLen := start + replLen + (w.editLen - stop)
      editSelStart := start + replLen
      editSelEnd := start + replLen
      editModified := true } := by
  unfold splice
  exact syncTitle_eq _

theorem splice_text {start stop : Int} {k : Nat} (hstart : 0 ≤ start) (hstop : start ≤ stop)
    (hlen : stop ≤ w.editLen) (ht : w.editText = some text) (hk : k ≤ (chars repl).length) :
    (splice repl start k stop text w).text =
      w.text.take start.toNat ++ (chars repl).take k ++ w.text.drop stop.toNat := by
  obtain ⟨title, heq⟩ := splice_eq repl start k stop text w
  obtain ⟨s, rfl⟩ := Int.eq_ofNat_of_zero_le hstart
  obtain ⟨d, hd⟩ := Int.eq_ofNat_of_zero_le (show 0 ≤ w.editLen - stop by omega)
  rw [heq]
  have hsize : ((s : Int) + k + (w.editLen - stop)).toNat = s + k + d := by omega
  simp only [Edit.text, ht, hsize, Int.toNat_natCast]
  rw [take_slice (by omega), drop_slice (by omega), slice_add, slice_add, ← slice_getD _ 0 hk]
  have hdrop : w.editLen.toNat - stop.toNat = d := by omega
  rw [hdrop]
  -- the three parts, entry by entry
  refine congrArg₂ _ (congrArg₂ _ ?_ ?_) ?_
  · refine slice_congr fun i hi => ?_
    rw [update_apply, if_neg (by omega), copyIn_apply, if_neg (by omega),
      moveTail_apply (by omega) (by omega), if_neg (by omega)]
  · refine slice_congr fun i hi => ?_
    rw [update_apply, if_neg (by omega), copyIn_apply, if_pos (by omega),
      show (0 : Int) + s + i - s = i by omega, charAt_eq (by omega), Int.zero_add,
      Int.toNat_natCast]
  · refine slice_congr fun i hi => ?_
    rw [update_apply, if_neg (by omega), copyIn_apply, if_neg (by omega),
      moveTail_apply (by omega) (by omega), if_pos (by omega)]
    congr 1
    omega

theorem splice_stores {start stop : Int} {k : Nat} (hstart : 0 ≤ start) (hlen : stop ≤ w.editLen) :
    (splice repl start k stop text w).StoresInside ↔
      w.StoresInside ∧ start + k + (w.editLen - stop) < w.editCapacity := by
  obtain ⟨title, heq⟩ := splice_eq repl start k stop text w
  rw [heq]
  simp only [Edit.StoresInside, forall_mem_cons, forall_mem_append, Int.toNat_natCast,
    storesAt_inside]
  have htail : start + k + (w.editLen - stop) < w.editCapacity →
      ∀ s ∈ tailStores start k stop (w.editLen - stop) w.editCapacity, 0 ≤ s.1 ∧ s.1 < s.2 := by
    intro hlt
    unfold tailStores
    by_cases hmove : 0 < w.editLen - stop ∧ start + k ≠ stop
    · rw [if_pos hmove]
      exact storesAt_inside.mpr (.inr ⟨by omega, by omega⟩)
    · rw [if_neg hmove]
      intro s hs
      obtain rfl := mem_singleton.mp hs
      exact ⟨by simp only; omega, hlt⟩
  constructor
  · rintro ⟨hlast, -, -, hold⟩
    exact ⟨hold, hlast.2⟩
  · rintro ⟨hold, hlt⟩
    exact ⟨⟨by omega, hlt⟩, .inr ⟨hstart, by omega⟩, htail hlt, hold⟩

structure Replaced (v : Edit) (r : List WChar) (w' : Edit) : Prop where
  inside : w'.Inside
  stores : w'.StoresInside
  text : w'.failures = v.failures →
    w'.text = v.text.take v.editSelStart.toNat ++ v.fitting r ++ v.text.drop v.editSelEnd.toNat
  failed : w'.failures ≠ v.failures → Same v w'

theorem replaced_of_none (h : w.Good) (r : List WChar) (ok : Bool)
    (hnone : (u32EnsureEditBuffer 64 ok w).editText = none) :
    Replaced w r (u32EnsureEditBuffer 64 ok w) ↔ (¬ Asks 64 w → w.fitting r = []) := by
  have hnot : ¬ (u32EnsureEditBuffer 64 ok w).editText.isSome = true := by simp [hnone]
  obtain ⟨hw, hrefused⟩ := not_or.mp (fun hor => hnot ((ensure_isSome h.toBase 64 ok).mpr hor))
  have hens := ensure_ensured h.toBase 64 ok
  have hempty : w.text = [] := by
    rw [Edit.text, Option.not_isSome_iff_eq_none.mp hw]
  have hstores : (u32EnsureEditBuffer 64 ok w).StoresInside :=
    (ensure_stores h.toBase (fun hsome => absurd hsome hw) 64 ok).mpr
      ⟨h.stores, fun hasks hok => absurd ⟨hasks, hok⟩ hrefused⟩
  obtain ⟨-, hfailures⟩ := ensure_failures h.toBase 64 ok
  have htext : (u32EnsureEditBuffer 64 ok w).text = w.text.take w.editSelStart.toNat ++
      w.fitting r ++ w.text.drop w.editSelEnd.toNat ↔ w.fitting r = [] := by
    rw [hens.text, hempty, take_nil, drop_nil, nil_append, append_nil]
    exact eq_comm
  constructor
  · intro hr hno
    exact htext.mp (hr.text (by
      by_contra hne
      exact hno (hfailures.mp hne).1))
  · intro hfit
    refine ⟨fun hsome => absurd hsome hnot, hstores, fun hsame => htext.mpr (hfit fun hasks => ?_),
      fun _ => ⟨hens.text, hens.len, hens.selStart, hens.selEnd, ?_⟩⟩
    · have hok : ok = false := by
        by_contra hok
        exact hrefused ⟨hasks, by simpa using hok⟩
      exact hfailures.mpr ⟨hasks, hok⟩ hsame
    · exact (ensure_lost h.toBase 64 ok).2.mpr fun hleaks => hw hleaks.2.2.1

theorem replaceSel_eq (h : w.Good) (repl : List WChar) (ok₁ ok₂ : Bool)
    (hsome : (u32EnsureEditBuffer 64 ok₁ w).editText.isSome = true) :
    ∃ text, (u32EnsureEditBuffer (w.newLen (chars repl) + 1) ok₂
        (u32EnsureEditBuffer 64 ok₁ w)).editText = some text ∧
      u32EditReplaceSel repl ok₁ ok₂ w =
        splice repl w.editSelStart (w.fitting (chars repl)).length w.editSelEnd text
          (u32EnsureEditBuffer (w.newLen (chars repl) + 1) ok₂ (u32EnsureEditBuffer 64 ok₁ w)) := by
  obtain ⟨hs, hse, he⟩ := h.selection
  have hpos := h.limit_pos
  have hens := ensure_ensured h.toBase 64 ok₁
  have hbase := ensure_base h.toBase 64 ok₁
  obtain ⟨text, htext⟩ := Option.isSome_iff_exists.mp
    ((ensure_isSome hbase (w.newLen (chars repl) + 1) ok₂).mpr (.inl hsome))
  refine ⟨text, htext, ?_⟩
  have hnone : ¬ (u32EnsureEditBuffer 64 ok₁ w).editText.isNone = true := by
    rw [Option.isNone_iff_eq_none, ← Option.not_isSome_iff_eq_none, not_not]
    exact hsome
  have hlength := length_fitting w repl hpos.1
  unfold u32EditReplaceSel
  simp only
  rw [if_neg hnone]
  simp only [hens.selStart, hens.selEnd, hens.len, hens.limit]
  rw [if_neg (Int.not_lt.mpr hs), if_neg (Int.not_lt.mpr hse), if_neg (Int.not_lt.mpr he),
    ← hlength]
  have hnew : w.editSelStart + (w.fitting (chars repl)).length + (w.editLen - w.editSelEnd) =
      w.newLen (chars repl) := rfl
  rw [hnew]
  simp only [htext]

/-- A replacement is sound just if the stores before it were inside, there is room for the new
text, and an allocation has failed only if there was nothing to change. -/
theorem replaced_splice_iff {v : Edit} (hsel : 0 ≤ w.editSelStart ∧ w.editSelStart ≤ w.editSelEnd ∧
    w.editSelEnd ≤ w.editLen) (he : Ensured w v) (ht : v.editText = some text) (repl : List WChar) :
    Replaced w (chars repl)
        (splice repl w.editSelStart (w.fitting (chars repl)).length w.editSelEnd text v) ↔
      v.StoresInside ∧ w.newLen (chars repl) < v.editCapacity ∧ (v.failures ≠ w.failures →
        w.editSelStart = w.editSelEnd ∧ w.fitting (chars repl) = [] ∧ v.lost = w.lost) := by
  obtain ⟨hs, hse, hel⟩ := hsel
  have hlen := he.len
  have hfit : (chars repl).take (w.fitting (chars repl)).length = w.fitting (chars repl) := by
    rw [Edit.fitting, take_eq_take_iff]
    simp
  have hle : (w.fitting (chars repl)).length ≤ (chars repl).length := by
    rw [Edit.fitting, length_take]
    exact min_le_right _ _
  have htext := splice_text hs hse (by omega) ht hle
  have hstores := @splice_stores v repl text w.editSelStart w.editSelEnd
    (w.fitting (chars repl)).length hs (by omega)
  obtain ⟨title, heq⟩ := splice_eq repl w.editSelStart (w.fitting (chars repl)).length w.editSelEnd
    text v
  have hnew : w.editSelStart + (w.fitting (chars repl)).length + (w.editLen - w.editSelEnd) =
      w.newLen (chars repl) := rfl
  rw [hfit, he.text] at htext
  rw [hlen, hnew] at hstores heq
  generalize splice repl w.editSelStart (w.fitting (chars repl)).length w.editSelEnd text v = w'
    at *
  have hselEnd : w.editSelStart + (w.fitting (chars repl)).length ≤ w.newLen (chars repl) := by
    rw [← hnew]
    omega
  constructor
  · intro hr
    obtain ⟨hinside, hroom⟩ := hstores.mp hr.stores
    refine ⟨hinside, hroom, fun hfailed => ?_⟩
    obtain ⟨-, -, hstart, hend, hlost⟩ := hr.failed (by rw [heq]; exact hfailed)
    rw [heq] at hstart hend hlost
    simp only at hstart hend hlost
    exact ⟨by omega, length_eq_zero_iff.mp (by omega), hlost⟩
  · rintro ⟨hinside, hroom, hfailed⟩
    refine ⟨fun _ => ?_, hstores.mpr ⟨hinside, hroom⟩, fun _ => htext, fun hne => ?_⟩
    · rw [heq]
      exact ⟨hroom, by simp only; omega, le_rfl, hselEnd⟩
    · rw [heq] at hne
      obtain ⟨hempty, hnil, hlost⟩ := hfailed hne
      have hzero : ((w.fitting (chars repl)).length : Int) = 0 := by rw [hnil]; rfl
      refine ⟨?_, ?_, ?_, ?_, ?_⟩
      · rw [htext, hnil, hempty, append_nil, take_append_drop]
      · rw [heq]
        simp only
        rw [← hnew]
        omega
      · rw [heq]
        simp only
        omega
      · rw [heq]
        simp only
        omega
      · rw [heq]
        exact hlost

theorem requests_iff (h : w.Good) (n : Int) (ok₁ ok₂ : Bool)
    (hsome : (u32EnsureEditBuffer 64 ok₁ w).editText.isSome = true) :
    ((u32EnsureEditBuffer (n + 1) ok₂ (u32EnsureEditBuffer 64 ok₁ w)).StoresInside ∧
        n < (u32EnsureEditBuffer (n + 1) ok₂ (u32EnsureEditBuffer 64 ok₁ w)).editCapacity) ↔
      (Asks 64 w → ok₁ = true → w.editLen ≤ w.limit + 1) ∧
        RequestSafe n ok₂ (u32EnsureEditBuffer 64 ok₁ w) := by
  have hcap : w.editText.isSome = true → w.editLen ≤ w.editCapacity := fun hsome =>
    (h.inside hsome).1.le
  have hbase := ensure_base h.toBase 64 ok₁
  have hens := ensure_ensured h.toBase 64 ok₁
  have hstores := ensure_stores h.toBase hcap 64 ok₁
  have hlen := @ensure_len_le w 64 ok₁ h.toBase hcap
  generalize u32EnsureEditBuffer 64 ok₁ w = v at *
  have hroom := ensure_room hbase n ok₂
  have hboth : (Asks 64 w → ok₁ = true → w.editLen ≤ w.limit + 1) →
      ((u32EnsureEditBuffer (n + 1) ok₂ v).StoresInside ↔
        v.StoresInside ∧ (Asks (n + 1) v → ok₂ = true → v.editLen ≤ v.limit + 1)) := fun hfits =>
    ensure_stores hbase (fun hv => by rw [hens.len]; exact hlen hfits hv) (n + 1) ok₂
  have hbefore : (u32EnsureEditBuffer (n + 1) ok₂ v).StoresInside → v.StoresInside := by
    rcases ensure_cases hbase (n + 1) ok₂ with ⟨-, hk, -⟩ | ⟨-, -, hk, -⟩ | ⟨-, -, hg⟩
    · rw [Edit.StoresInside, hk.stores]
      exact id
    · rw [Edit.StoresInside, hk.stores]
      exact id
    · rw [Edit.StoresInside, hg.stores, forall_mem_append]
      exact And.right
  unfold RequestSafe
  constructor
  · rintro ⟨hinside, hlt⟩
    have hfits := (hstores.mp (hbefore hinside)).2
    obtain ⟨hnew, hold⟩ := hroom.mp hlt
    exact ⟨hfits, fun hasks hok => ⟨((hboth hfits).mp hinside).2 hasks hok, hnew hasks hok⟩,
      fun hno _ => hold hno⟩
  · rintro ⟨hfits, hnew, hold⟩
    exact ⟨(hboth hfits).mpr ⟨hstores.mpr ⟨h.stores, hfits⟩, fun hasks hok => (hnew hasks hok).1⟩,
      hroom.mpr ⟨fun hasks hok => (hnew hasks hok).2, fun hno => hold hno hsome⟩⟩

theorem replaced_iff (h : w.Good) (repl : List WChar) (ok₁ ok₂ : Bool) :
    Replaced w (chars repl) (u32EditReplaceSel repl ok₁ ok₂ w) ↔
      ReplaceSafe (chars repl) ok₁ ok₂ w := by
  have hbase := ensure_base h.toBase 64 ok₁
  cases ht : (u32EnsureEditBuffer 64 ok₁ w).editText with
  | none =>
    have hnot : ¬ (u32EnsureEditBuffer 64 ok₁ w).editText.isSome = true := by simp [ht]
    obtain ⟨hw, hrefused⟩ := not_or.mp (fun hor => hnot ((ensure_isSome h.toBase 64 ok₁).mpr hor))
    have heq : u32EditReplaceSel repl ok₁ ok₂ w = u32EnsureEditBuffer 64 ok₁ w := by
      unfold u32EditReplaceSel
      simp [ht]
    rw [heq, replaced_of_none h (chars repl) ok₁ ht]
    unfold ReplaceSafe
    constructor
    · intro hfit
      exact ⟨fun hasks hok => absurd ⟨hasks, hok⟩ hrefused, fun _ => hfit,
        fun hsome => absurd hsome hnot⟩
    · rintro ⟨-, hfit, -⟩
      exact hfit (Option.not_isSome_iff_eq_none.mp hw)
  | some text1 =>
    have hsome : (u32EnsureEditBuffer 64 ok₁ w).editText.isSome = true := by rw [ht]; rfl
    obtain ⟨text, htext, heq⟩ := replaceSel_eq h repl ok₁ ok₂ hsome
    have hens1 := ensure_ensured h.toBase 64 ok₁
    have hens2 := ensure_ensured hbase (w.newLen (chars repl) + 1) ok₂
    have hens : Ensured w (u32EnsureEditBuffer (w.newLen (chars repl) + 1) ok₂
        (u32EnsureEditBuffer 64 ok₁ w)) :=
      ⟨by rw [hens2.limit, hens1.limit_eq h.toBase], hens2.text.trans hens1.text,
        hens2.len.trans hens1.len, hens2.selStart.trans hens1.selStart,
        hens2.selEnd.trans hens1.selEnd⟩
    have hnone : w.editText = none → ¬ Asks 64 w → w.fitting (chars repl) = [] := by
      intro hw hno
      rcases (ensure_isSome h.toBase 64 ok₁).mp hsome with hor | hor
      · rw [hw] at hor
        cases hor
      · exact absurd hor.1 hno
    obtain ⟨hfle1, hfailures1⟩ := ensure_failures h.toBase 64 ok₁
    obtain ⟨hlle1, hlost1⟩ := ensure_lost h.toBase 64 ok₁
    obtain ⟨hfle2, hfailures2⟩ := ensure_failures hbase (w.newLen (chars repl) + 1) ok₂
    obtain ⟨hlle2, hlost2⟩ := ensure_lost hbase (w.newLen (chars repl) + 1) ok₂
    rw [heq, replaced_splice_iff h.selection hens htext, ← and_assoc,
      requests_iff h (w.newLen (chars repl)) ok₁ ok₂ hsome]
    unfold ReplaceSafe
    simp only
    rw [← hfailures1, ← hfailures2, ← hlost1, ← hlost2]
    constructor
    · rintro ⟨⟨hfits, hrequest⟩, hfailed⟩
      refine ⟨hfits, hnone, fun _ => ⟨hrequest, fun hor => ?_⟩⟩
      obtain ⟨hempty, hnil, hlost⟩ := hfailed (by omega)
      exact ⟨hempty, hnil, by omega, by omega⟩
    · rintro ⟨hfits, -, hrest⟩
      obtain ⟨hrequest, hfailed⟩ := hrest hsome
      refine ⟨⟨hfits, hrequest⟩, fun hne => ?_⟩
      obtain ⟨hempty, hnil, hl1, hl2⟩ := hfailed (by omega)
      exact ⟨hempty, hnil, hl2.trans hl1⟩

end Replace

/-! ## Setting the text -/

section Set

variable {w w' : Edit} {ok : Bool} {text : List WChar}

theorem cutLen_range (text : List WChar) (w : Edit) :
    0 ≤ cutLen text w ∧ cutLen text w ≤ (chars text).length := by
  have hlen : u32WStrLen text = (chars text).length := rfl
  unfold cutLen
  by_cases hcut : 0 < w.editLimit ∧ w.editLimit < u32WStrLen text
  · rw [if_pos hcut]
    omega
  · rw [if_neg hcut]
    omega

theorem setText_eq (text : List WChar) (ok : Bool) (w : Edit) {buf : Int → WChar}
    (hbuf : (u32EnsureEditBuffer (cutLen text w + 1) ok w).editText = some buf) :
    ∃ title, u32EditSetText text ok w =
      { u32EnsureEditBuffer (cutLen text w + 1) ok w with
        title
        editText := some (update (copyIn buf 0 (charAt text) (cutLen text w).toNat)
          (cutLen text w) 0)
        stores := (cutLen text w, (u32EnsureEditBuffer (cutLen text w + 1) ok w).editCapacity) ::
          (storesAt 0 (cutLen text w).toNat
            (u32EnsureEditBuffer (cutLen text w + 1) ok w).editCapacity ++
            (u32EnsureEditBuffer (cutLen text w + 1) ok w).stores)
        editLen := cutLen text w
        editSelStart := cutLen text w
        editSelEnd := cutLen text w
        editModified := false } := by
  unfold u32EditSetText
  simp only [← cutLen.eq_def, hbuf]
  exact syncTitle_eq _

theorem setText_none (text : List WChar) (ok : Bool) (w : Edit)
    (hbuf : (u32EnsureEditBuffer (cutLen text w + 1) ok w).editText = none) :
    u32EditSetText text ok w = u32EnsureEditBuffer (cutLen text w + 1) ok w := by
  unfold u32EditSetText
  simp only [← cutLen.eq_def, hbuf]

theorem setText_text {buf : Int → WChar}
    (hbuf : (u32EnsureEditBuffer (cutLen text w + 1) ok w).editText = some buf) :
    (u32EditSetText text ok w).text = (chars text).take (cutLen text w).toNat := by
  obtain ⟨title, heq⟩ := setText_eq text ok w hbuf
  obtain ⟨hpos, hle⟩ := cutLen_range text w
  rw [heq]
  simp only [Edit.text]
  rw [← slice_getD _ 0 (by omega)]
  refine slice_congr fun i hi => ?_
  rw [update_apply, if_neg (by omega), copyIn_apply, if_pos (by omega), Int.zero_add,
    Int.sub_zero, charAt_eq (by omega), Int.toNat_natCast]

theorem request_iff (h : w.Good) (n : Int) (ok : Bool)
    (hsome : (u32EnsureEditBuffer (n + 1) ok w).editText.isSome = true) :
    ((u32EnsureEditBuffer (n + 1) ok w).StoresInside ∧
        n < (u32EnsureEditBuffer (n + 1) ok w).editCapacity) ↔ RequestSafe n ok w := by
  rw [ensure_stores h.toBase (fun hw => (h.inside hw).1.le) (n + 1) ok, ensure_room h.toBase n ok]
  unfold RequestSafe
  constructor
  · rintro ⟨⟨-, hfits⟩, hnew, hold⟩
    exact ⟨fun hasks hok => ⟨hfits hasks hok, hnew hasks hok⟩, fun hno _ => hold hno⟩
  · rintro ⟨hnew, hold⟩
    refine ⟨⟨h.stores, fun hasks hok => (hnew hasks hok).1⟩, fun hasks hok => (hnew hasks hok).2,
      fun hno => hold hno ?_⟩
    exact ((ensure_isSome h.toBase (n + 1) ok).mp hsome).resolve_right hno

theorem setText_stores {buf : Int → WChar}
    (hbuf : (u32EnsureEditBuffer (cutLen text w + 1) ok w).editText = some buf) :
    (u32EditSetText text ok w).StoresInside ↔
      (u32EnsureEditBuffer (cutLen text w + 1) ok w).StoresInside ∧
        cutLen text w < (u32EnsureEditBuffer (cutLen text w + 1) ok w).editCapacity := by
  obtain ⟨title, heq⟩ := setText_eq text ok w hbuf
  obtain ⟨hpos, -⟩ := cutLen_range text w
  rw [heq]
  simp only [Edit.StoresInside, forall_mem_cons, forall_mem_append, storesAt_inside]
  constructor
  · rintro ⟨hlast, -, hold⟩
    exact ⟨hold, hlast.2⟩
  · rintro ⟨hold, hlt⟩
    exact ⟨⟨hpos, hlt⟩, .inr ⟨le_rfl, by omega⟩, hold⟩

theorem setText_iff (h : w.Good) (t : Option (List WChar)) (ok : Bool) :
    Sound w (.setText t) (u32EditSetText (t.getD []) ok w) ↔ SetSafe (t.getD []) ok w := by
  generalize htext : t.getD [] = text
  have hfailures := (ensure_failures h.toBase (cutLen text w + 1) ok).2
  have hlost := (ensure_lost h.toBase (cutLen text w + 1) ok).2
  have hsomeIff := ensure_isSome h.toBase (cutLen text w + 1) ok
  have hreplaces : ∀ w' : Edit, ∀ v r, EditMessage.replaces w (.setText t) = some (v, r) →
      w'.failures = w.failures → w'.text = w.text.take v.editSelStart.toNat ++ v.fitting r ++
        w.text.drop v.editSelEnd.toNat := fun w' v r hvr => nomatch hvr
  cases hbuf : (u32EnsureEditBuffer (cutLen text w + 1) ok w).editText with
  | none =>
    rw [hbuf] at hsomeIff
    obtain ⟨hw, hrefused⟩ := not_or.mp fun hor => absurd (hsomeIff.mpr hor) (by decide)
    have hens := ensure_ensured h.toBase (cutLen text w + 1) ok
    have hstores := ensure_stores h.toBase (fun hsome => absurd hsome hw) (cutLen text w + 1) ok
    refine iff_of_true ?_ ⟨⟨fun hasks hok => absurd ⟨hasks, hok⟩ hrefused,
      fun _ hsome => absurd hsome hw⟩, fun _ _ hsome => absurd hsome hw⟩
    rw [setText_none text ok w hbuf]
    refine ⟨fun hsome => ?_, hstores.mpr ⟨h.stores, fun hasks hok => absurd ⟨hasks, hok⟩ hrefused⟩,
      hreplaces _, fun _ => ⟨hens.text, hens.len, hens.selStart, hens.selEnd,
        hlost.mpr fun hleaks => hw hleaks.2.2.1⟩⟩
    rw [hbuf] at hsome
    cases hsome
  | some buf =>
    obtain ⟨title, heq⟩ := setText_eq text ok w hbuf
    obtain ⟨hpos, hle⟩ := cutLen_range text w
    have hnew := setText_text hbuf
    have hstores := setText_stores hbuf
    have hrequest := request_iff h (cutLen text w) ok (by rw [hbuf]; rfl)
    rw [hbuf] at hsomeIff
    unfold SetSafe
    rw [← hrequest]
    generalize u32EditSetText text ok w = w' at *
    constructor
    · intro hsound
      refine ⟨hstores.mp hsound.stores, fun hasks hok _ => ?_⟩
      obtain ⟨hsame, hlen, hstart, hend, -⟩ :=
        hsound.failed (by rw [heq]; exact hfailures.mpr ⟨hasks, hok⟩)
      rw [heq] at hlen hstart hend
      exact ⟨hsame.symm.trans hnew, hstart.symm.trans hlen, hend.symm.trans hlen⟩
    · rintro ⟨hinside, hunchanged⟩
      refine ⟨fun _ => ?_, hstores.mpr hinside, hreplaces w', fun hne => ?_⟩
      · rw [heq]
        exact ⟨hinside.2, hpos, le_rfl, le_rfl⟩
      · rw [heq] at hne
        obtain ⟨hasks, hok⟩ := hfailures.mp hne
        have hsome : w.editText.isSome = true :=
          (hsomeIff.mp rfl).resolve_right fun hand => by
            rw [hok] at hand
            cases hand.2
        obtain ⟨hsame, hstart, hend⟩ := hunchanged hasks hok hsome
        have hlength : w.editLen = cutLen text w := by
          have hl := congrArg List.length hsame
          obtain ⟨buf', hbuf'⟩ := Option.isSome_iff_exists.mp hsome
          rw [Edit.text, hbuf', length_slice, length_take] at hl
          have := h.len_nonneg
          omega
        refine ⟨hnew.trans hsame.symm, ?_, ?_, ?_, ?_⟩
        · rw [heq, hlength]
        · rw [heq, hstart, hlength]
        · rw [heq, hend, hlength]
        · rw [heq]
          refine hlost.mpr fun hleaks => ?_
          rw [hok] at hleaks
          cases hleaks.2.1

end Set

/-! ## Messages -/

section Messages

variable {w : Edit} {ok₁ ok₂ : Bool} {m : EditMessage}

theorem backspace_good (h : w.Good) : (backspace w).Good := by
  obtain ⟨hs, hse, he⟩ := h.selection
  unfold backspace
  by_cases hback : w.editSelStart = w.editSelEnd ∧ 0 < w.editSelStart
  · rw [if_pos hback]
    refine ⟨⟨h.limit_range, fun hnone => ?_, h.len_nonneg⟩, fun hsome => ?_, h.stores⟩
    · have := h.empty hnone
      omega
    · exact ⟨(h.inside hsome).1, by simp only; omega, by simp only; omega, he⟩
  · rw [if_neg hback]
    exact h

theorem backspace_text (w : Edit) : (backspace w).text = w.text ∧
    (backspace w).failures = w.failures ∧ (backspace w).editLen = w.editLen ∧
    (backspace w).lost = w.lost ∧ (backspace w).editText = w.editText := by
  unfold backspace
  by_cases hback : w.editSelStart = w.editSelEnd ∧ 0 < w.editSelStart
  · rw [if_pos hback]
    exact ⟨rfl, rfl, rfl, rfl, rfl⟩
  · rw [if_neg hback]
    exact ⟨rfl, rfl, rfl, rfl, rfl⟩

theorem sound_iff_replaced {r : List WChar} {w' : Edit} (hm : m.replaces w = some (w, r)) :
    Sound w m w' ↔ Replaced w r w' := by
  constructor
  · intro hs
    exact ⟨hs.inside, hs.stores, hs.replaced w r hm, hs.failed⟩
  · intro hr
    refine ⟨hr.inside, hr.stores, fun v r' hvr hsame => ?_, hr.failed⟩
    obtain ⟨rfl, rfl⟩ := Prod.mk.inj (Option.some.inj (hm.symm.trans hvr))
    exact hr.text hsame

theorem replaceSel_selection (h : w.Good) (repl : List WChar) (ok₁ ok₂ : Bool)
    (hsome : w.editText.isSome = true) :
    (u32EditReplaceSel repl ok₁ ok₂ w).editSelStart =
        w.editSelStart + (w.fitting (chars repl)).length ∧
      (u32EditReplaceSel repl ok₁ ok₂ w).editSelEnd =
        w.editSelStart + (w.fitting (chars repl)).length := by
  obtain ⟨text, -, heq⟩ := replaceSel_eq h repl ok₁ ok₂
    ((ensure_isSome h.toBase 64 ok₁).mpr (.inl hsome))
  obtain ⟨title, hsplice⟩ := splice_eq repl w.editSelStart (w.fitting (chars repl)).length
    w.editSelEnd text (u32EnsureEditBuffer (w.newLen (chars repl) + 1) ok₂
      (u32EnsureEditBuffer 64 ok₁ w))
  rw [heq, hsplice]
  exact ⟨rfl, rfl⟩

theorem backspace_iff (h : w.Good) (ok₁ ok₂ : Bool) :
    Sound w (.char 8) (u32EditReplaceSel [] ok₁ ok₂ (backspace w)) ↔
      ReplaceSafe [] ok₁ ok₂ (backspace w) := by
  have hreplaced : Replaced (backspace w) [] (u32EditReplaceSel [] ok₁ ok₂ (backspace w)) ↔
      ReplaceSafe [] ok₁ ok₂ (backspace w) := replaced_iff (backspace_good h) [] ok₁ ok₂
  rw [← hreplaced]
  by_cases hback : w.editSelStart = w.editSelEnd ∧ 0 < w.editSelStart
  · obtain ⟨htext, hfailures, -, -, hbuf⟩ := backspace_text w
    have hsome : (backspace w).editText.isSome = true := by
      rw [hbuf]
      by_contra hnone
      have := h.empty (Option.not_isSome_iff_eq_none.mp hnone)
      omega
    obtain ⟨hstart, hend⟩ := replaceSel_selection (backspace_good h) [] ok₁ ok₂ hsome
    have hzero : ((backspace w).fitting (chars [])).length = 0 := by simp [Edit.fitting, chars]
    have hsel : (backspace w).editSelStart = w.editSelStart - 1 ∧
        (backspace w).editSelEnd = w.editSelEnd := by
      rw [backspace, if_pos hback]
      exact ⟨rfl, rfl⟩
    rw [hzero] at hstart hend
    generalize u32EditReplaceSel [] ok₁ ok₂ (backspace w) = w' at *
    constructor
    · intro hs
      refine ⟨hs.inside, hs.stores, fun hsame => ?_, fun hne => ?_⟩
      · rw [htext]
        exact hs.replaced (backspace w) [] rfl (hsame.trans hfailures)
      · have := (hs.failed (by rw [← hfailures]; exact hne)).selStart
        omega
    · intro hr
      refine ⟨hr.inside, hr.stores, fun v r hvr hsame => ?_, fun hne => ?_⟩
      · obtain ⟨rfl, rfl⟩ := Prod.mk.inj (Option.some.inj hvr)
        rw [← htext]
        exact hr.text (hsame.trans hfailures.symm)
      · have := (hr.failed (by rw [hfailures]; exact hne)).selEnd
        omega
  · have hsame : backspace w = w := by rw [backspace, if_neg hback]
    rw [hsame]
    exact sound_iff_replaced (by rw [EditMessage.replaces, if_pos rfl, hsame])

theorem setSel_good (h : w.Good) (start stop : Int) : (setSel start stop w).Good := by
  have hlen := h.len_nonneg
  refine ⟨⟨h.limit_range, fun hnone => ?_, hlen⟩, fun hsome => ⟨(h.inside hsome).1, ?_⟩, h.stores⟩
  · obtain ⟨hzero, -⟩ := h.empty hnone
    refine ⟨hzero, ?_⟩
    simp only [setSel]
    grind
  · simp only [setSel]
    grind

theorem limitText_good (h : w.Good) (limit : Int) :
    ({ w with editLimit := if limit ≠ 0 then i32 limit else 65535 } : Edit).Good := by
  refine ⟨⟨?_, h.empty, h.len_nonneg⟩, h.inside, h.stores⟩
  by_cases hz : limit ≠ 0
  · simp only [if_pos hz, i32]
    omega
  · simp only [if_neg hz]
    decide

theorem sound_of_good {w' : Edit} (h : w'.Good) (hm : m.replaces w = none)
    (hfailures : w'.failures = w.failures) : Sound w m w' :=
  ⟨h.inside, h.stores, fun v r hvr => absurd (hm.symm.trans hvr) (by simp),
    fun hne => absurd hfailures hne⟩

theorem message_iff (h : w.Good) (m : EditMessage) (ok₁ ok₂ : Bool) :
    Sound w m (sendMessage m ok₁ ok₂ w) ↔ Safe m ok₁ ok₂ w := by
  cases m with
  | setText text => exact setText_iff h text ok₁
  | char ch =>
    simp only [sendMessage, Safe]
    by_cases hch : ch = 8
    · rw [if_pos hch, if_pos hch, hch]
      exact backspace_iff h ok₁ ok₂
    · rw [if_neg hch, if_neg hch, ← replaced_iff h [ch] ok₁ ok₂]
      exact sound_iff_replaced (by rw [EditMessage.replaces, if_neg hch])
  | replaceSel repl =>
    exact (sound_iff_replaced rfl).trans (replaced_iff h (repl.getD []) ok₁ ok₂)
  | setSel start stop =>
    exact iff_of_true (sound_of_good (setSel_good h start stop) rfl rfl) trivial
  | limitText limit => exact iff_of_true (sound_of_good (limitText_good h limit) rfl rfl) trivial

theorem setText_base (h : w.Good) (text : List WChar) (ok : Bool) :
    (u32EditSetText text ok w).Base := by
  have hbase := ensure_base h.toBase (cutLen text w + 1) ok
  cases hbuf : (u32EnsureEditBuffer (cutLen text w + 1) ok w).editText with
  | none =>
    rw [setText_none text ok w hbuf]
    exact hbase
  | some buf =>
    obtain ⟨title, heq⟩ := setText_eq text ok w hbuf
    rw [heq]
    exact ⟨hbase.limit_range, fun hnone => (nomatch hnone), (cutLen_range text w).1⟩

theorem replaceSel_base (h : w.Good) (repl : List WChar) (ok₁ ok₂ : Bool) :
    (u32EditReplaceSel repl ok₁ ok₂ w).Base := by
  have hbase := ensure_base h.toBase 64 ok₁
  cases hbuf : (u32EnsureEditBuffer 64 ok₁ w).editText with
  | none =>
    have heq : u32EditReplaceSel repl ok₁ ok₂ w = u32EnsureEditBuffer 64 ok₁ w := by
      unfold u32EditReplaceSel
      simp [hbuf]
    rw [heq]
    exact hbase
  | some buf =>
    obtain ⟨text, -, heq⟩ := replaceSel_eq h repl ok₁ ok₂ (by rw [hbuf]; rfl)
    have hbase2 := ensure_base hbase (w.newLen (chars repl) + 1) ok₂
    have hlen := ((ensure_ensured hbase (w.newLen (chars repl) + 1) ok₂).len).trans
      (ensure_ensured h.toBase 64 ok₁).len
    obtain ⟨title, hsplice⟩ := splice_eq repl w.editSelStart (w.fitting (chars repl)).length
      w.editSelEnd text (u32EnsureEditBuffer (w.newLen (chars repl) + 1) ok₂
        (u32EnsureEditBuffer 64 ok₁ w))
    obtain ⟨hs, hse, he⟩ := h.selection
    rw [heq, hsplice]
    refine ⟨hbase2.limit_range, fun hnone => (nomatch hnone), ?_⟩
    simp only
    omega

theorem message_good (h : w.Good) (m : EditMessage) (ok₁ ok₂ : Bool)
    (hs : Sound w m (sendMessage m ok₁ ok₂ w)) : (sendMessage m ok₁ ok₂ w).Good := by
  refine ⟨?_, hs.inside, hs.stores⟩
  cases m with
  | setText text => exact setText_base h (text.getD []) ok₁
  | char ch =>
    simp only [sendMessage]
    by_cases hch : ch = 8
    · rw [if_pos hch]
      exact replaceSel_base (backspace_good h) [] ok₁ ok₂
    · rw [if_neg hch]
      exact replaceSel_base h [ch] ok₁ ok₂
  | replaceSel repl => exact replaceSel_base h (repl.getD []) ok₁ ok₂
  | setSel start stop => exact (setSel_good h start stop).toBase
  | limitText limit => exact (limitText_good h limit).toBase

end Messages

/-! ## Runs -/

theorem initial_good : ({} : Edit).Good :=
  ⟨⟨by decide, fun _ => ⟨rfl, rfl, rfl⟩, by decide⟩, fun hsome => (nomatch hsome),
    fun s hs => (nomatch hs)⟩

/-- In every run, every message does what it should exactly when every message is safe. -/
theorem edit_control_sound (messages : List (EditMessage × Bool × Bool)) :
    (∀ pre m post, messages = pre ++ m :: post →
      Sound (sendAll pre) m.1 (sendMessage m.1 m.2.1 m.2.2 (sendAll pre))) ↔
    ∀ pre m post, messages = pre ++ m :: post → Safe m.1 m.2.1 m.2.2 (sendAll pre) :=
  @steps_iff_good Edit (EditMessage × Bool × Bool) (fun w m => sendMessage m.1 m.2.1 m.2.2 w)
    Edit.Good (fun w m => Safe m.1 m.2.1 m.2.2 w) {}
    (fun w m => Sound w m.1 (sendMessage m.1 m.2.1 m.2.2 w)) initial_good
    (fun _ m h => message_iff h m.1 m.2.1 m.2.2) (fun _ m h => message_good h m.1 m.2.1 m.2.2)
    messages

/-- The limit is 30, there are 20 characters, the limit becomes 5, and a character is typed. -/
def limitLowered : List (EditMessage × Bool × Bool) :=
  [(.limitText 30, true, true), (.setText (some (List.replicate 20 65)), true, true),
    (.limitText 5, true, true)]

/-- The new buffer of 6 characters takes the 20 of the old one; and a text of 70 characters is put
into a buffer of 64 when no larger one can be had. -/
theorem text_overruns_buffer :
    ¬ Sound (sendAll limitLowered) (.char 66)
        (sendMessage (.char 66) true true (sendAll limitLowered)) ∧
    ¬ Sound (sendAll [(.char 65, true, true)]) (.replaceSel (some (List.replicate 70 66)))
        (sendMessage (.replaceSel (some (List.replicate 70 66))) true false
          (sendAll [(.char 65, true, true)])) := by
  constructor
  · intro hs
    have hstore : ((19, 6) : Int × Int) ∈
        (sendMessage (.char 66) true true (sendAll limitLowered)).stores := by decide +kernel
    exact absurd (hs.stores _ hstore).2 (by decide)
  · intro hs
    have hstore : ((71, 64) : Int × Int) ∈
        (sendMessage (.replaceSel (some (List.replicate 70 66))) true false
          (sendAll [(.char 65, true, true)])).stores := by decide +kernel
    exact absurd (hs.stores _ hstore).2 (by decide)

end DiscouNT.User32
