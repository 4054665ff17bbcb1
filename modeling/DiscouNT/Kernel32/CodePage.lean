import Mathlib

/-!
# Kernel32.CodePage

`MultiByteToWideChar` and `WideCharToMultiByte`. A text is what is in memory from its start, with
NULs behind it; what a call stores is listed from the start of its buffer, and a null buffer is one
of size 0. A full buffer gets a NUL in its last unit, also where the text fits exactly.
-/

namespace DiscouNT.Kernel32

open List

section Convert

variable {α β : Type} [Zero α] [DecidableEq α]

def textLength (text : List α) : Nat := (text.takeWhile (· ≠ 0)).length

def unitCount (text : List α) (n : Int) : Nat := if n < 0 then textLength text + 1 else n.toNat

def unitsOf (text : List α) (count : Nat) : List α := (text ++ List.replicate count 0).take count

/-- The loop of both functions: whether it stopped at a NUL, and what it has stored. -/
def copyUnits (f : α → β) : List α → Nat → Bool × List β
  | u :: units, room + 1 =>
    if u = 0 then (true, [f u])
    else
      let (nul, out) := copyUnits f units room
      (nul, f u :: out)
  | _, _ => (false, [])

/-- `leaves`: at a NUL the function returns, without counting it. -/
def convertUnits [Zero β] (f : α → β) (leaves : Bool) (text : List α) (n size : Int) :
    Nat × List β :=
  let count := unitCount text n
  if size ≤ 0 then (count, [])
  else
    let (nul, out) := copyUnits f (unitsOf text count) size.toNat
    if leaves && nul then (out.length - 1, out)
    else (out.length, if out.length = size.toNat then out.set (size.toNat - 1) 0 else out)

end Convert

def multiByteToWideChar (text : List UInt8) (cbMultiByte cchWideChar : Int) : Nat × List UInt16 :=
  convertUnits UInt8.toUInt16 true text cbMultiByte cchWideChar

def narrow (ch : UInt16) : UInt8 :=
  if ch ≥ 0x20 ∧ ch ≤ 0x7F then ch.toUInt8 else if ch = 0 then 0 else 63

def wideCharToMultiByte (text : List UInt16) (cchWideChar cbMultiByte : Int) : Nat × List UInt8 :=
  convertUnits narrow false text cchWideChar cbMultiByte

/-! ## The laws -/

section Laws

variable {α β : Type} (convert : List α → Int → Int → Nat × List β) (text : List α) (n : Int)

/-- A query answers with the number of units that are stored in a buffer of that size. -/
def QueryLaw : Prop :=
  (convert text n (convert text n 0).1).2.length = (convert text n 0).1

def StaysWithin : Prop :=
  ∀ size : Int, (convert text n 0).1 ≤ size → (convert text n size).2.length ≤ (convert text n 0).1

end Laws

def RoundTrip (text : List UInt8) (n size size' : Int) : Prop :=
  (wideCharToMultiByte (multiByteToWideChar text n size).2 n size').2 =
    unitsOf text (unitCount text n)

section Copy

variable {α β : Type} {f : α → β} {units : List α}

def filled [Zero β] (f : α → β) (units : List α) (size : Nat) : List β :=
  if units.length = size then (units.map f).set (size - 1) 0 else units.map f

theorem filled_concat [Zero β] (init : List α) (last : α) (size : Nat) :
    filled f (init ++ [last]) size =
      init.map f ++ [if init.length + 1 = size then 0 else f last] := by
  rw [filled, length_append, length_singleton, map_append, map_singleton]
  by_cases hfull : init.length + 1 = size
  · rw [if_pos hfull, if_pos hfull, ← hfull, Nat.add_sub_cancel, List.set_append_right _ _ (by simp),
      length_map, Nat.sub_self, List.set_cons_zero]
  · rw [if_neg hfull, if_neg hfull]

variable [Zero α]

theorem filled_nul [Zero β] (hf : f 0 = 0) (hlast : units.getLast? = some 0) (size : Nat) :
    filled f units size = units.map f := by
  rcases eq_nil_or_concat units with rfl | ⟨init, last, rfl⟩
  · cases hlast
  · rw [concat_eq_append] at hlast ⊢
    rw [getLast?_concat, Option.some.injEq] at hlast
    rw [filled_concat, hlast, hf, ite_self, map_append, map_singleton, hf]

theorem length_unitsOf (text : List α) (count : Nat) : (unitsOf text count).length = count := by
  rw [unitsOf, length_take, length_append, length_replicate]
  omega

variable [DecidableEq α]

theorem copyUnits_length_le : ∀ {units : List α} {room : Nat},
    (copyUnits f units room).2.length ≤ units.length := by
  intro units
  induction units with
  | nil => intro room; exact Nat.le_refl 0
  | cons u units ih =>
    intro room
    cases room with
    | zero => exact Nat.zero_le _
    | succ room =>
      rw [copyUnits]
      by_cases h0 : u = 0
      · rw [if_pos h0]
        exact Nat.succ_le_succ (Nat.zero_le _)
      · rw [if_neg h0]
        exact Nat.succ_le_succ ih

/-- With room for all units, all are stored unless one before the last is a NUL. -/
theorem copyUnits_all : ∀ {units : List α} {room : Nat}, units.length ≤ room →
    0 ∉ units.dropLast →
    (copyUnits f units room).2 = units.map f ∧
      ((copyUnits f units room).1 = true ↔ units.getLast? = some 0) := by
  intro units
  induction units with
  | nil => intro room _ _; cases room <;> exact ⟨rfl, by simp [copyUnits]⟩
  | cons u units ih =>
    intro room hroom hinner
    obtain ⟨room, rfl⟩ : ∃ k, room = k + 1 := ⟨room - 1, by rw [length_cons] at hroom; omega⟩
    rw [copyUnits]
    cases units with
    | nil =>
      by_cases h0 : u = 0
      · simp [h0]
      · simp [h0, copyUnits]
    | cons v units =>
      rw [dropLast_cons_of_ne_nil (cons_ne_nil v units), mem_cons, not_or] at hinner
      obtain ⟨hall, hnul⟩ := ih (Nat.le_of_succ_le_succ hroom) hinner.2
      rw [if_neg (Ne.symm hinner.1)]
      refine ⟨congrArg (f u :: ·) hall, ?_⟩
      rw [getLast?_cons_cons]
      exact hnul

theorem copyUnits_cut : ∀ {units : List α} {room : Nat}, 0 ∈ units.dropLast →
    (copyUnits f units room).2.length < units.length := by
  intro units
  induction units with
  | nil => intro room h; cases h
  | cons u units ih =>
    intro room h
    have hne : units ≠ [] := by rintro rfl; cases h
    cases room with
    | zero => exact Nat.succ_pos _
    | succ room =>
      rw [copyUnits]
      by_cases h0 : u = 0
      · rw [if_pos h0]
        exact Nat.succ_lt_succ (length_pos_iff.mpr hne)
      · rw [if_neg h0]
        rw [dropLast_cons_of_ne_nil hne, mem_cons] at h
        exact Nat.succ_lt_succ (ih (h.resolve_left (Ne.symm h0)))

variable [Zero β] {leaves : Bool}

theorem convertUnits_length (text : List α) (n : Int) {size : Nat} (hsize : 0 < size) :
    (convertUnits f leaves text n size).2.length =
      (copyUnits f (unitsOf text (unitCount text n)) size).2.length := by
  rw [convertUnits, if_neg (by omega), Int.toNat_natCast]
  cases copyUnits f (unitsOf text (unitCount text n)) size with
  | mk nul out =>
    dsimp only
    split
    · rfl
    · split
      · exact length_set
      · rfl

theorem queryLaw_iff (f : α → β) (leaves : Bool) (text : List α) (n : Int) :
    QueryLaw (convertUnits f leaves) text n ↔ 0 ∉ (unitsOf text (unitCount text n)).dropLast := by
  have hlen := length_unitsOf text (unitCount text n)
  change (convertUnits f leaves text n (unitCount text n)).2.length = unitCount text n ↔ _
  rcases Nat.eq_zero_or_pos (unitCount text n) with h0 | hpos
  · rw [h0] at hlen ⊢
    rw [length_eq_zero_iff.mp hlen]
    exact iff_of_true rfl not_mem_nil
  · rw [convertUnits_length text n hpos]
    constructor
    · intro hall hinner
      have hcut : (copyUnits f _ (unitCount text n)).2.length < _ := copyUnits_cut hinner
      omega
    · intro hinner
      rw [(copyUnits_all (by omega) hinner).1, length_map, hlen]

theorem staysWithin (f : α → β) (leaves : Bool) (text : List α) (n : Int) :
    StaysWithin (convertUnits f leaves) text n := by
  intro size hsize
  change (unitCount text n : Int) ≤ size at hsize
  change _ ≤ unitCount text n
  obtain ⟨size, rfl⟩ := Int.eq_ofNat_of_zero_le (Int.le_trans (Int.natCast_nonneg _) hsize)
  rcases Nat.eq_zero_or_pos size with rfl | hpos
  · exact Nat.zero_le _
  · rw [convertUnits_length text n hpos]
    exact Nat.le_trans copyUnits_length_le (Nat.le_of_eq (length_unitsOf ..))

theorem convertUnits_fits {text : List α} {n : Int} {size : Nat} (hf : f 0 = 0)
    (hsize : unitCount text n ≤ size) (hpos : 0 < size)
    (hinner : 0 ∉ (unitsOf text (unitCount text n)).dropLast) :
    (convertUnits f leaves text n size).2 = filled f (unitsOf text (unitCount text n)) size := by
  have hroom : (unitsOf text (unitCount text n)).length ≤ size := by
    rw [length_unitsOf]
    exact hsize
  obtain ⟨hout, hnul⟩ := copyUnits_all (f := f) hroom hinner
  rw [convertUnits, if_neg (by omega), Int.toNat_natCast]
  generalize unitsOf text (unitCount text n) = units at *
  cases hr : copyUnits f units size with
  | mk nul out =>
    rw [hr] at hout hnul
    dsimp only at hout hnul ⊢
    rw [hout]
    split
    · rename_i hleft
      rw [Bool.and_eq_true] at hleft
      exact (filled_nul hf (hnul.mp hleft.2) size).symm
    · rw [filled, length_map]

end Copy

section Fitting

variable {n : Int} {size : Nat}

theorem unitsOf_length {α : Type} [Zero α] (text : List α) : unitsOf text text.length = text := by
  rw [unitsOf, take_left]

theorem toUInt16_eq_zero {u : UInt8} : u.toUInt16 = 0 ↔ u = 0 := UInt8.toUInt16_inj (b := 0)

theorem narrow_eq_iff {u : UInt8} (hu : u ≤ 127) : narrow u.toUInt16 = u ↔ u = 0 ∨ 32 ≤ u := by
  have hhigh : u.toUInt16 ≤ 0x7F := UInt16.le_iff_toNat_le.mpr (UInt8.le_iff_toNat_le.mp hu)
  have hlow : u.toUInt16 ≥ 0x20 ↔ 32 ≤ u :=
    UInt16.le_iff_toNat_le.trans (UInt8.le_iff_toNat_le (a := 32)).symm
  rw [narrow]
  by_cases h32 : 32 ≤ u
  · rw [if_pos ⟨hlow.mpr h32, hhigh⟩]
    exact iff_of_true (UInt8.toUInt8_toUInt16 u) (.inr h32)
  · rw [if_neg fun h => h32 (hlow.mp h.1), or_iff_left h32]
    by_cases h0 : u = 0
    · rw [h0]; decide
    · rw [if_neg (mt toUInt16_eq_zero.mp h0)]
      exact iff_of_false (by rintro rfl; exact h32 (by decide)) h0

theorem roundTrip_concat {text init : List UInt8} {last : UInt8} {size' : Nat}
    (hunits : unitsOf text (unitCount text n) = init ++ [last]) (hinit : 0 ∉ init)
    (hascii : ∀ u ∈ init ++ [last], u ≤ 127) (hnul : n < 0 → last = 0)
    (hsize : unitCount text n ≤ size) (hsize' : unitCount text n ≤ size') :
    RoundTrip text n size size' ↔ (∀ u ∈ init, 32 ≤ u) ∧
      (last = 0 ∨ unitCount text n < size ∧ unitCount text n < size' ∧ 32 ≤ last) := by
  have hlen := length_unitsOf text (unitCount text n)
  rw [hunits, length_append, length_singleton] at hlen
  have hwide : (multiByteToWideChar text n size).2 =
      init.map UInt8.toUInt16 ++ [if init.length + 1 = size then 0 else last.toUInt16] := by
    rw [multiByteToWideChar, convertUnits_fits rfl hsize (by omega)
      (by rw [hunits, List.dropLast_concat]; exact hinit), hunits, filled_concat]
  generalize hl : (if init.length + 1 = size then 0 else last.toUInt16) = wlast at hwide
  have hwinner : (0 : UInt16) ∉ init.map UInt8.toUInt16 := by
    rw [mem_map]
    rintro ⟨u, hu, h0⟩
    exact hinit (toUInt16_eq_zero.mp h0 ▸ hu)
  have hwlen : (init.map UInt8.toUInt16 ++ [wlast]).length = unitCount text n := by
    rw [length_append, length_map, length_singleton, hlen]
  have hcount : unitCount (init.map UInt8.toUInt16 ++ [wlast]) n = unitCount text n := by
    by_cases hn : n < 0
    · have hzero : wlast = 0 := by rw [← hl, hnul hn]; exact ite_self 0
      rw [unitCount, if_pos hn, textLength, takeWhile_append_of_pos (by simpa using hwinner),
        hzero, takeWhile_cons_of_neg (by simp), append_nil, length_map, hlen]
    · rw [unitCount, if_neg hn, unitCount, if_neg hn]
  have hwunits : unitsOf (init.map UInt8.toUInt16 ++ [wlast]) (unitCount text n) =
      init.map UInt8.toUInt16 ++ [wlast] := by
    rw [← hwlen, unitsOf_length]
  rw [RoundTrip, hwide, wideCharToMultiByte, convertUnits_fits rfl (by rw [hcount]; exact hsize')
    (by omega) (by rw [hcount, hwunits, List.dropLast_concat]; exact hwinner), hcount, hwunits, filled_concat,
    hunits, length_map, map_map, List.append_singleton_inj]
  refine and_congr ?_ ?_
  · have hid : init.map (narrow ∘ UInt8.toUInt16) = init ↔
        init.map (narrow ∘ UInt8.toUInt16) = init.map id := by rw [map_id]
    rw [hid, List.map_inj_left]
    refine forall₂_congr fun u hu => ?_
    rw [Function.comp_apply, id, narrow_eq_iff (hascii u (mem_append_left _ hu)), or_iff_right]
    rintro rfl
    exact hinit hu
  · have hlast := narrow_eq_iff (hascii last (by simp))
    rw [← hlen]
    by_cases hfull' : init.length + 1 = size'
    · rw [if_pos hfull', eq_comm, or_iff_left (by omega)]
    · rw [if_neg hfull', ← hl]
      by_cases hfull : init.length + 1 = size
      · rw [if_pos hfull, eq_comm, or_iff_left (by omega)]
        rfl
      · rw [if_neg hfull, hlast]
        exact or_congr_right ⟨fun h => ⟨by omega, by omega, h⟩, fun h => h.2.2⟩

theorem roundTrip_empty (text : List UInt8) (size size' : Int) (hsize' : 0 ≤ size') : RoundTrip text 0 size size' := by
  have hback := staysWithin narrow false (multiByteToWideChar text 0 size).2 0 size' hsize'
  exact List.eq_nil_of_length_eq_zero (Nat.le_zero.mp hback)

def Survives (text : List UInt8) (n size size' : Int) : Prop :=
  (∀ u ∈ text.take (unitCount text n), 32 ≤ u) ∧
    (unitCount text n = 0 ∨ unitCount text n = text.length + 1 ∨
      (unitCount text n < size ∧ unitCount text n < size'))

theorem roundTrip_iff {text : List UInt8} {n size size' : Int} (hascii : ∀ u ∈ text, 1 ≤ u ∧ u ≤ 127)
    (hn : n ≤ text.length + 1) (hsize : unitCount text n ≤ size) (hsize' : unitCount text n ≤ size') :
    RoundTrip text n size size' ↔ Survives text n size size' := by
  obtain ⟨size, rfl⟩ := Int.eq_ofNat_of_zero_le (Int.le_trans (Int.natCast_nonneg _) hsize)
  obtain ⟨size', rfl⟩ := Int.eq_ofNat_of_zero_le (Int.le_trans (Int.natCast_nonneg _) hsize')
  rw [Int.ofNat_le] at hsize hsize'
  have hne : ∀ u ∈ text, u ≠ 0 := fun u hu h0 => absurd (hascii u hu).1 (by rw [h0]; decide)
  have hmem : 0 ∉ text := fun h => hne 0 h rfl
  have himplicit : n < 0 → unitCount text n = text.length + 1 := by
    intro hneg
    rw [unitCount, if_pos hneg, textLength, takeWhile_eq_self_iff.mpr (by simpa using hne)]
  have hmax : unitCount text n ≤ text.length + 1 := by
    by_cases hneg : n < 0
    · exact Nat.le_of_eq (himplicit hneg)
    · rw [unitCount, if_neg hneg]; omega
  rw [Survives, Int.ofNat_lt, Int.ofNat_lt]
  generalize hk : unitCount text n = k at *
  rcases Nat.lt_trichotomy k (text.length + 1) with hlt | heq | hgt
  · cases k with
    | zero =>
      have h0 : n = 0 := by
        by_cases hneg : n < 0
        · exact absurd (himplicit hneg) (by omega)
        · rw [unitCount, if_neg hneg] at hk; omega
      rw [h0]
      exact iff_of_true (roundTrip_empty text _ _ (by omega)) ⟨by simp, .inl rfl⟩
    | succ j =>
      have hj : j < text.length := by omega
      have htake : text.take (j + 1) = text.take j ++ [text[j]] := List.take_succ_eq_append_getElem hj
      have hlast : text[j] ≠ 0 := hne _ (getElem_mem hj)
      have hunits : unitsOf text (unitCount text n) = text.take j ++ [text[j]] := by
        rw [hk, unitsOf, List.take_append_of_le_length (by omega), htake]
      rw [roundTrip_concat hunits (fun h => hmem (mem_of_mem_take h)) (fun u hu => ?_)
        (fun hneg => absurd (himplicit hneg) (by omega)) (by omega) (by omega), or_iff_right hlast, hk,
        htake, or_iff_right (Nat.succ_ne_zero j), or_iff_right (by omega)]
      · rw [forall_mem_append, forall_mem_singleton]
        exact ⟨fun h => ⟨⟨h.1, h.2.2.2⟩, h.2.1, h.2.2.1⟩, fun h => ⟨h.1.1, h.2.1, h.2.2, h.1.2⟩⟩
      · rw [← htake] at hu
        exact (hascii u (mem_of_mem_take hu)).2
  · have hunits : unitsOf text (unitCount text n) = text ++ [0] := by
      rw [hk, heq, unitsOf, List.take_append, take_of_length_le (by omega), Nat.add_sub_cancel_left]
      rfl
    rw [roundTrip_concat hunits hmem (fun u hu => ?_) (fun _ => rfl) (by omega) (by omega),
      take_of_length_le (by omega)]
    · exact and_congr_right fun _ => iff_of_true (.inl rfl) (.inr (.inl heq))
    · rcases mem_append.mp hu with hu | hu
      · exact (hascii u hu).2
      · rw [mem_singleton.mp hu]; decide
  · omega

end Fitting

theorem conversions_iff (text ascii : List UInt8) (wide : List UInt16) (n n' l size size' : Int)
    (hascii : ∀ u ∈ ascii, 1 ≤ u ∧ u ≤ 127) (hl : l ≤ ascii.length + 1)
    (hsize : unitCount ascii l ≤ size) (hsize' : unitCount ascii l ≤ size') :
    (QueryLaw multiByteToWideChar text n ∧ StaysWithin multiByteToWideChar text n ∧
      QueryLaw wideCharToMultiByte wide n' ∧ StaysWithin wideCharToMultiByte wide n' ∧
      RoundTrip ascii l size size') ↔
    0 ∉ (unitsOf text (unitCount text n)).dropLast ∧
      0 ∉ (unitsOf wide (unitCount wide n')).dropLast ∧ Survives ascii l size size' := by
  have hquery := queryLaw_iff UInt8.toUInt16 true text n
  have hquery' := queryLaw_iff narrow false wide n'
  rw [← roundTrip_iff hascii hl hsize hsize', ← hquery, ← hquery']
  exact ⟨fun h => ⟨h.1, h.2.2.1, h.2.2.2.2⟩,
    fun h => ⟨h.1, staysWithin _ _ text n, h.2.1, staysWithin _ _ wide n', h.2.2⟩⟩

theorem conversions_letter :
    (QueryLaw multiByteToWideChar [65] (-1) ∧ StaysWithin multiByteToWideChar [65] (-1) ∧
      QueryLaw wideCharToMultiByte [65] (-1) ∧ StaysWithin wideCharToMultiByte [65] (-1) ∧
      RoundTrip [65] (-1) 2 2) ↔
    0 ∉ (unitsOf [(65 : UInt8)] (unitCount [(65 : UInt8)] (-1))).dropLast ∧
      0 ∉ (unitsOf [(65 : UInt16)] (unitCount [(65 : UInt16)] (-1))).dropLast ∧
      Survives [65] (-1) 2 2 :=
  conversions_iff [65] [65] [65] (-1) (-1) (-1) 2 2 (by simp) (by decide) (by decide) (by decide)

/-- One letter, counted, in buffers of one unit comes back as a NUL. -/
theorem roundTrip_exact : ¬ RoundTrip [65] 1 1 1 := by
  unfold RoundTrip
  decide

end DiscouNT.Kernel32
