import DiscouNT.Fb.TtfLookup

/-!
# Fb.TtfOutline

What a simple glyph must be like for `render_simple_outline` to stay inside the font and inside
its arrays. Repeat counts and one-byte deltas are read without a look at the end of the glyph, and
the contours' last points are not compared with the number of points. `Outline.Fits` says where the
bytes and points are that this leaves open; all other reads are safe whatever the glyph holds.
-/

namespace DiscouNT.Fb

open Lib List Function Logged

variable {t : Ttf} {limit points : Nat}

/-- A glyph's flags unrolled: the flags, where they end, and the addresses of the flag bytes. -/
structure FlagRun where
  flags : List UInt8
  stop : Nat
  bytes : List Nat

/-- `k` flags: first `rep` copies of `f`, then those from `p` on. -/
def flagRun (m : Mem) : Nat → Nat → UInt8 → Nat → FlagRun
  | 0, _, _, p => ⟨[], p, []⟩
  | k + 1, rep + 1, f, p =>
    let r := flagRun m k rep f p
    ⟨f :: r.flags, r.stop, r.bytes⟩
  | k + 1, 0, _, p =>
    let r :=
      if m p &&& 8 ≠ 0 then flagRun m k (m (p + 1)).toNat (m p) (p + 2)
      else flagRun m k 0 0 (p + 1)
    ⟨m p :: r.flags, r.stop, p :: r.bytes⟩

theorem flagRun_bytes_ge (m : Mem) :
    ∀ (k rep : Nat) (f : UInt8) (p : Nat), ∀ a ∈ (flagRun m k rep f p).bytes, p ≤ a := by
  intro k
  induction k with
  | zero => intro rep f p a ha; cases ha
  | succ k ih =>
    intro rep f p a ha
    cases rep with
    | succ rep => exact ih rep f p a ha
    | zero =>
      rcases mem_cons.mp ha with rfl | ha
      · exact Nat.le_refl a
      · split at ha
        · have := ih _ _ _ a ha
          omega
        · have := ih _ _ _ a ha
          omega

theorem flagRun_length (m : Mem) :
    ∀ (k rep : Nat) (f : UInt8) (p : Nat), (flagRun m k rep f p).flags.length = k := by
  intro k
  induction k with
  | zero => intro rep f p; rfl
  | succ k ih =>
    intro rep f p
    cases rep with
    | succ rep => exact congrArg (· + 1) (ih rep f p)
    | zero =>
      simp only [flagRun, length_cons]
      split
      · exact congrArg (· + 1) (ih _ _ _)
      · exact congrArg (· + 1) (ih _ _ _)

theorem flagRun_repeat (m : Mem) (f : UInt8) (p : Nat) :
    ∀ k rep, flagRun m k rep f p =
      ⟨List.replicate (min rep k) f ++ (flagRun m (k - min rep k) 0 0 p).flags,
        (flagRun m (k - min rep k) 0 0 p).stop, (flagRun m (k - min rep k) 0 0 p).bytes⟩ := by
  intro k
  induction k with
  | zero =>
    intro rep
    rw [Nat.min_zero]
    rfl
  | succ k ih =>
    intro rep
    cases rep with
    | zero =>
      rw [Nat.zero_min]
      rfl
    | succ rep =>
      rw [Nat.succ_min_succ, Nat.add_sub_add_right, flagRun, ih rep]
      rfl

theorem repeatFlag_spec {points : Nat} (size : Nat) :
    ∀ (n i : Nat) (flags : Nat → UInt8), i < points →
      (repeatFlag points n i flags).All (Access.Safe size) ∧
      (repeatFlag points n i flags).val =
        (i + min n (points - i - 1),
          storeBytes flags (i + 1) (List.replicate (min n (points - i - 1)) (flags i))) := by
  intro n
  induction n with
  | zero =>
    intro i flags _
    rw [Nat.zero_min]
    exact ⟨all_pure _, by rw [replicate_zero, storeBytes_nil]; rfl⟩
  | succ n ih =>
    intro i flags hi
    rw [repeatFlag]
    split
    · rename_i hnext
      obtain ⟨hall, hval⟩ := ih (i + 1) (update flags (i + 1) (flags i)) hnext
      rw [Logged.all_bind, all_elemAt]
      refine ⟨⟨by omega, hall⟩, hval.trans ?_⟩
      rw [update_self, show min (n + 1) (points - i - 1) =
        min n (points - (i + 1) - 1) + 1 by omega, replicate_succ, ← singleton_append,
        ← storeBytes_append, storeBytes_singleton]
      refine Prod.ext ?_ rfl
      simp only
      omega
    · rename_i hlast
      rw [show min (n + 1) (points - i - 1) = 0 by omega]
      exact ⟨all_pure _, by rw [replicate_zero, storeBytes_nil]; rfl⟩

def CountsFit (t : Ttf) (limit : Nat) (run : FlagRun) : Prop :=
  ∀ a ∈ run.bytes, a < limit → t.data a &&& 8 ≠ 0 → a + 2 ≤ t.size

def FlagsComplete (limit : Nat) (run : FlagRun) : Prop := ∀ a ∈ run.bytes, a < limit

/-- `x` reads the flags of `run` into `flags` from index `i` on: it is safe exactly when the repeat
counts are in the font, and it goes through exactly when the flag bytes are in the glyph. -/
structure ReadsFlags (t : Ttf) (limit i : Nat) (flags : Nat → UInt8) (run : FlagRun)
    (x : Logged Access (Option ((Nat → UInt8) × Nat))) : Prop where
  all : x.All (Access.Safe t.size) ↔ CountsFit t limit run
  complete : FlagsComplete limit run → x.val = some (storeBytes flags i run.flags, run.stop)
  cut : ¬ FlagsComplete limit run → x.val = none

theorem ReadsFlags.done (t : Ttf) (limit i p : Nat) (flags : Nat → UInt8) :
    ReadsFlags t limit i flags ⟨[], p, []⟩ (pure (some (flags, p))) where
  all := iff_of_true (all_pure _) nofun
  complete _ := by rw [storeBytes_nil]; rfl
  cut h := absurd nofun h

theorem ReadsFlags.stop {m : Mem} {k p i : Nat} {flags : Nat → UInt8} (hp : limit ≤ p) :
    ReadsFlags t limit i flags (flagRun m (k + 1) 0 0 p) (pure none) where
  all := by
    refine iff_of_true (all_pure _) fun a ha halimit => ?_
    have := flagRun_bytes_ge m _ _ _ _ a ha
    omega
  complete h := by
    have : p < limit := h p (mem_cons_self ..)
    omega
  cut _ := rfl

theorem ReadsFlags.flag {x x' : Logged Access (Option ((Nat → UInt8) × Nat))} {p i : Nat}
    {flags : Nat → UInt8} {copies : List UInt8} {run : FlagRun} (hp : p < limit)
    (hall : x.All (Access.Safe t.size) ↔
      (t.data p &&& 8 ≠ 0 → p + 2 ≤ t.size) ∧ x'.All (Access.Safe t.size))
    (hval : x.val = x'.val)
    (h : ReadsFlags t limit (i + copies.length) (storeBytes flags i copies) run x') :
    ReadsFlags t limit i flags ⟨copies ++ run.flags, run.stop, p :: run.bytes⟩ x where
  all := by
    rw [hall, h.all, CountsFit, CountsFit, forall_mem_cons]
    exact and_congr ⟨fun hneed _ => hneed, fun hneed => hneed hp⟩ Iff.rfl
  complete hcomplete := by
    rw [hval, h.complete fun a ha => hcomplete a (mem_cons_of_mem p ha), storeBytes_append]
  cut hcut := by
    rw [hval]
    exact h.cut fun hrest => hcut (forall_mem_cons.mpr ⟨hp, hrest⟩)

theorem readFlags_reads (hlimit : limit ≤ t.size) :
    ∀ (fuel i p : Nat) (flags : Nat → UInt8), i ≤ points → points ≤ i + fuel →
      ReadsFlags t limit i flags (flagRun t.data (points - i) 0 0 p)
        (readFlags t limit points fuel i p flags) := by
  intro fuel
  induction fuel with
  | zero =>
    intro i p flags hi hfuel
    obtain rfl : i = points := by omega
    rw [readFlags, if_neg (Nat.lt_irrefl i), Nat.sub_self]
    exact .done t limit i p flags
  | succ fuel ih =>
    intro i p flags hi hfuel
    rw [readFlags]
    split
    case isFalse hlast =>
      obtain rfl : i = points := by omega
      rw [Nat.sub_self]
      exact .done t limit i p flags
    rename_i hnext
    obtain ⟨k, hk⟩ : ∃ k, points - i = k + 1 := ⟨points - i - 1, by omega⟩
    rw [hk]
    split
    case isTrue hp => exact .stop hp
    rename_i hp
    by_cases hrep : t.data p &&& 8 ≠ 0
    · let c := min (t.data (p + 1)).toNat k
      let run := flagRun t.data (k - c) 0 0 (p + 2)
      have hrun : flagRun t.data (k + 1) 0 0 p =
          ⟨List.replicate (c + 1) (t.data p) ++ run.flags, run.stop, p :: run.bytes⟩ := by
        rw [flagRun, if_pos hrep, flagRun_repeat]
        rfl
      obtain ⟨hsafe, hval⟩ := repeatFlag_spec t.size (t.data (p + 1)).toNat i
        (update flags i (t.data p)) hnext
      rw [show points - i - 1 = k by omega, update_self] at hval
      have hflags : storeBytes (update flags i (t.data p)) (i + 1)
          (List.replicate c (t.data p)) = storeBytes flags i (List.replicate (c + 1) (t.data p)) := by
        rw [← storeBytes_singleton]
        exact storeBytes_append flags i [t.data p] _
      let copies := List.replicate (c + 1) (t.data p)
      have hrest : ReadsFlags t limit (i + copies.length) (storeBytes flags i copies) run
          (readFlags t limit points fuel (i + (c + 1)) (p + 2) (storeBytes flags i copies)) := by
        have h := ih (i + (c + 1)) (p + 2) (storeBytes flags i copies) (by omega) (by omega)
        rw [show points - (i + (c + 1)) = k - c by omega] at h
        rwa [length_replicate]
      rw [hrun]
      refine .flag (by omega) ?_ ?_ hrest
      · rw [Logged.all_bind, all_byteAt, val_byteAt, if_pos hrep, Logged.all_bind, all_byteAt,
          val_byteAt, Logged.all_bind, hval, hflags]
        constructor
        · rintro ⟨_, hneed, _, h⟩
          exact ⟨fun _ => hneed, h⟩
        · rintro ⟨hneed, h⟩
          exact ⟨by omega, hneed hrep, hsafe, h⟩
      · rw [val_bind, val_byteAt, if_pos hrep, val_bind, val_byteAt, val_bind, hval, hflags]
        rfl
    · let run := flagRun t.data k 0 0 (p + 1)
      have hrun : flagRun t.data (k + 1) 0 0 p =
          ⟨[t.data p] ++ run.flags, run.stop, p :: run.bytes⟩ := by
        rw [flagRun, if_neg hrep]
        rfl
      have hrest := ih (i + 1) (p + 1) (storeBytes flags i [t.data p]) (by omega) (by omega)
      rw [show points - (i + 1) = k by omega] at hrest
      rw [hrun]
      refine .flag (by omega) ?_ ?_ hrest
      · rw [Logged.all_bind, all_byteAt, val_byteAt, if_neg hrep, storeBytes_singleton]
        exact and_congr (iff_of_true (by omega) fun h => absurd h hrep) Iff.rfl
      · rw [val_bind, val_byteAt, if_neg hrep, storeBytes_singleton]

def deltaLength (short same f : UInt8) : Nat :=
  if f &&& short ≠ 0 then 1 else if f &&& same = 0 then 2 else 0

def deltaAt (g : Nat → UInt8) (short same : UInt8) (q : Nat) : Nat → Nat
  | 0 => q
  | i + 1 => deltaAt g short same q i + deltaLength short same (g i)

def Cut (limit : Nat) (g : Nat → UInt8) (short same : UInt8) (q i : Nat) : Prop :=
  deltaLength short same (g i) = 2 ∧ limit < deltaAt g short same q i + 2

def DeltasFit (t : Ttf) (limit points : Nat) (g : Nat → UInt8) (short same : UInt8)
    (q i : Nat) : Prop :=
  ∀ k, i ≤ k → k < points → g k &&& short ≠ 0 →
    (∀ j, i ≤ j → j < k → ¬ Cut limit g short same q j) → deltaAt g short same q k < t.size

section Coordinates

variable {g flags : Nat → UInt8} {short same : UInt8} {q : Nat}

/-- `x` reads the coordinates from index `i` on: safe exactly when the one-byte deltas are in the
font, complete exactly when no word is cut off. -/
structure ReadsDeltas (t : Ttf) (limit points : Nat) (g : Nat → UInt8) (short same : UInt8)
    (q i : Nat) (x : Logged Access (Option ((Nat → Int32) × Nat))) : Prop where
  all : x.All (Access.Safe t.size) ↔ DeltasFit t limit points g short same q i
  complete : (∀ j, i ≤ j → j < points → ¬ Cut limit g short same q j) →
    ∃ xs, x.val = some (xs, deltaAt g short same q points)
  cut : ¬ (∀ j, i ≤ j → j < points → ¬ Cut limit g short same q j) → x.val = none

theorem ReadsDeltas.delta {x x' : Logged Access (Option ((Nat → Int32) × Nat))} {i : Nat}
    (hi : i < points) (hcut : ¬ Cut limit g short same q i)
    (hall : x.All (Access.Safe t.size) ↔
      (g i &&& short ≠ 0 → deltaAt g short same q i < t.size) ∧ x'.All (Access.Safe t.size))
    (hval : x.val = x'.val) (h : ReadsDeltas t limit points g short same q (i + 1) x') :
    ReadsDeltas t limit points g short same q i x where
  all := by
    rw [hall, h.all]
    constructor
    · rintro ⟨hfirst, hrest⟩ k hik hk hshort hbefore
      by_cases hki : k = i
      · exact hki ▸ hfirst (hki ▸ hshort)
      · exact hrest k (by omega) hk hshort fun j hj hjk => hbefore j (by omega) hjk
    · intro hfit
      refine ⟨fun hshort => hfit i (Nat.le_refl i) hi hshort fun j hj hji => by omega, ?_⟩
      intro k hik hk hshort hbefore
      refine hfit k (by omega) hk hshort fun j hj hjk => ?_
      by_cases hji : j = i
      · exact hji ▸ hcut
      · exact hbefore j (by omega) hjk
  complete hno := by
    rw [hval]
    exact h.complete fun j hj hjp => hno j (by omega) hjp
  cut hyes := by
    rw [hval]
    refine h.cut fun hno => hyes fun j hj hjp => ?_
    by_cases hji : j = i
    · exact hji ▸ hcut
    · exact hno j (by omega) hjp

theorem readDelta_cut {f : UInt8} {p : Nat} (h : deltaLength short same f = 2 ∧ limit < p + 2) :
    readDelta t limit short same f p = pure none := by
  obtain ⟨hlength, hp⟩ := h
  rw [deltaLength] at hlength
  rw [readDelta]
  split at hlength
  · cases hlength
  split at hlength
  · rename_i hshort hsame
    rw [if_neg hshort, if_pos hsame, if_pos hp]
  · cases hlength

theorem readDelta_spec {f : UInt8} {p : Nat} (hlimit : limit ≤ t.size)
    (h : ¬ (deltaLength short same f = 2 ∧ limit < p + 2)) :
    ∃ d, (readDelta t limit short same f p).val = some (d, p + deltaLength short same f) ∧
      ((readDelta t limit short same f p).All (Access.Safe t.size) ↔
        (f &&& short ≠ 0 → p < t.size)) := by
  rw [readDelta, deltaLength] at *
  by_cases hshort : f &&& short ≠ 0
  · simp only [if_pos hshort]
    refine ⟨_, rfl, ?_⟩
    simp only [Logged.all_bind, all_byteAt, all_pure, and_true]
    exact ⟨fun h _ => h, fun h => h hshort⟩
  · rw [if_neg hshort] at h
    simp only [if_neg hshort]
    by_cases hsame : f &&& same = 0
    · rw [if_pos hsame] at h
      simp only [if_pos hsame]
      rw [if_neg (by omega)]
      refine ⟨_, rfl, iff_of_true ?_ fun hno => absurd hno hshort⟩
      rw [Logged.all_bind, all_s16At]
      exact ⟨by omega, all_pure _⟩
    · simp only [if_neg hsame]
      exact ⟨0, rfl, iff_of_true (all_pure _) fun hno => absurd hno hshort⟩

theorem coordinateBefore_safe (size : Nat) (xs : Nat → Int32) (i : Nat) :
    (coordinateBefore xs i).All (Access.Safe size) := by
  rw [coordinateBefore]
  split
  · exact all_pure 0
  · exact all_elemAt.mpr (by omega)

theorem readCoordinates_reads (hlimit : limit ≤ t.size) (hflags : ∀ i < points, flags i = g i) :
    ∀ (n i : Nat) (xs : Nat → Int32), i + n = points →
      ReadsDeltas t limit points g short same q i
        (readCoordinates t limit points flags short same n i (deltaAt g short same q i) xs) := by
  intro n
  induction n with
  | zero =>
    intro i xs hi
    obtain rfl : i = points := by omega
    refine ⟨iff_of_true (all_pure _) fun k hik hk => by omega, fun _ => ⟨xs, rfl⟩,
      fun h => absurd (fun j hj hjp => by omega) h⟩
  | succ n ih =>
    intro i xs hi
    have hnext : i < points := by omega
    have hflag : (elemAt flags i points).val = g i := hflags i hnext
    rw [readCoordinates]
    by_cases hcut : Cut limit g short same q i
    · have hdelta := readDelta_cut (t := t) hcut
      refine ⟨iff_of_true ?_ fun k hik hk hshort hbefore => ?_, fun hno => ?_, fun _ => ?_⟩
      · rw [Logged.all_bind, all_elemAt, hflag, all_whenSome, hdelta]
        exact ⟨hnext, all_pure _, nofun⟩
      · by_cases hki : k = i
        · rw [hki] at hshort
          exact absurd hcut.1 (by rw [deltaLength, if_pos hshort]; decide)
        · exact absurd hcut (hbefore i (Nat.le_refl i) (by omega))
      · exact absurd hcut (hno i (Nat.le_refl i) hnext)
      · rw [val_bind, hflag, val_whenSome, hdelta]
        rfl
    · obtain ⟨d, hd, hsafe⟩ := readDelta_spec (t := t) hlimit hcut
      have hrest := ih (i + 1) (update xs i ((coordinateBefore xs i).val + d)) (by omega)
      refine .delta hnext hcut ?_ ?_ hrest
      · rw [Logged.all_bind, all_elemAt, hflag, all_whenSome, hd, hsafe]
        constructor
        · rintro ⟨_, hfirst, hcont⟩
          exact ⟨hfirst, ((Logged.all_bind _ _).mp (hcont _ rfl)).2⟩
        · rintro ⟨hfirst, hcont⟩
          refine ⟨hnext, hfirst, ?_⟩
          rintro _ ⟨rfl⟩
          exact (Logged.all_bind _ _).mpr ⟨coordinateBefore_safe _ xs i, hcont⟩
      · rw [val_bind, hflag, val_whenSome, hd]
        rfl

end Coordinates

/-! ## Contours -/

/-- A contour that is not empty ends at a point of the glyph, and is not a single point off the
curve with no point behind it. -/
def ContourFits (points : Nat) (g : Nat → UInt8) (first last : Nat) : Prop :=
  first ≤ last → last < points ∧ ¬ (first = last ∧ g first &&& 1 = 0 ∧ last + 1 = points)

section Contours

variable {o : Points} {size : Nat}

@[simp] theorem all_pointAt {i : Nat} :
    (pointAt o i).All (Access.Safe size) ↔ i < o.points := by
  simp only [pointAt, Logged.all_bind, all_elemAt, all_pure, and_true, and_self]

@[simp] theorem all_onCurve {i : Nat} : (onCurve o i).All (Access.Safe size) ↔ i < o.points := by
  rw [onCurve, Logged.all_map, all_elemAt]

@[simp] theorem all_midPoint {i j : Nat} :
    (midPoint o i j).All (Access.Safe size) ↔ i < o.points ∧ j < o.points := by
  simp only [midPoint, Logged.all_bind, all_pointAt, all_pure, and_true]

theorem val_onCurve (o : Points) (i : Nat) :
    (onCurve o i).val = decide (o.flags i &&& 1 ≠ 0) := rfl

theorem flattenPass_safe_iff {first n i : Nat} {s : (Int32 × Int32) × Curve} :
    (flattenPass o first n i s).All (Access.Safe size) ↔
      first + i < o.points ∧ (o.flags (first + i) &&& 1 = 0 →
        (if i + 1 < n then first + i + 1 else first) < o.points ∧
          (o.flags (if i + 1 < n then first + i + 1 else first) &&& 1 = 0 →
            (if i + 2 < n then first + i + 2 else first + (i + 2 - n)) < o.points)) := by
  rw [flattenPass]
  simp only
  generalize (if i + 1 < n then first + i + 1 else first) = next
  generalize (if i + 2 < n then first + i + 2 else first + (i + 2 - n)) = next2
  rw [Logged.all_bind, all_onCurve, val_onCurve]
  by_cases hon : o.flags (first + i) &&& 1 = 0
  · simp only [hon, ne_eq, not_true_eq_false, decide_false, Bool.false_eq_true, if_false,
      Logged.all_bind, all_onCurve, val_onCurve, true_imp_iff]
    by_cases hnext : o.flags next &&& 1 = 0
    · simp only [hnext, not_true_eq_false, decide_false, Bool.false_eq_true, if_false,
        Logged.all_bind, all_midPoint, all_pointAt, all_pure, true_imp_iff]
      exact ⟨fun h => ⟨h.1, h.2.1, h.2.2.1.2⟩, fun h => ⟨h.1, h.2.1, ⟨h.2.1, h.2.2⟩, h.1, trivial⟩⟩
    · simp only [hnext, not_false_eq_true, decide_true, if_true, Logged.all_bind, all_pointAt,
        all_pure, false_imp_iff]
      exact ⟨fun h => ⟨h.1, h.2.1, trivial⟩, fun h => ⟨h.1, h.2.1, h.2.1, h.1, trivial⟩⟩
  · simp only [hon, ne_eq, not_false_eq_true, decide_true, if_true, Logged.all_bind, all_pointAt,
      all_pure, and_true, and_self, false_imp_iff]

theorem startPoint_safe {first last : Nat} (hfirst : first < o.points) (hlast : last < o.points) :
    (startPoint o first last).All (Access.Safe size) := by
  rw [startPoint, Logged.all_bind, all_onCurve]
  refine ⟨hfirst, ?_⟩
  split
  · exact all_pointAt.mpr hfirst
  rw [Logged.all_bind, all_onCurve]
  refine ⟨hlast, ?_⟩
  split
  · exact all_pointAt.mpr hlast
  · exact all_midPoint.mpr ⟨hfirst, hlast⟩

theorem flatten_safe_iff (o : Points) (first last : Nat) (curve : Curve) :
    (flatten o first last curve).All (Access.Safe size) ↔
      ContourFits o.points o.flags first last := by
  rw [flatten]
  split
  · exact iff_of_true (all_pure _) fun h => by omega
  rename_i hlast
  rw [Logged.all_bind, Logged.all_bind, all_fold]
  simp only [flattenPass_safe_iff, all_pure, and_true]
  constructor
  · rintro ⟨_, hpasses⟩ _
    obtain ⟨hend, _⟩ := hpasses (last - first) (by omega)
    refine ⟨by omega, ?_⟩
    -- a lone point off the curve: its only pass reads the point behind it
    rintro ⟨rfl, hoff, hpoints⟩
    obtain ⟨_, hnext⟩ := hpasses 0 (by omega)
    rw [Nat.add_zero, if_neg (by omega), if_neg (by omega)] at hnext
    have := (hnext hoff).2 hoff
    omega
  · intro hfits
    obtain ⟨hpoints, hsingle⟩ := hfits (by omega)
    refine ⟨startPoint_safe (by omega) hpoints, fun i hi => ⟨by omega, fun hoff => ⟨?_, ?_⟩⟩⟩
    · split <;> omega
    · intro hnext
      by_cases hlone : first = last
      · obtain rfl : i = 0 := by omega
        rw [if_neg (by omega)] at hnext ⊢
        have : ¬ last + 1 = o.points := fun h => hsingle ⟨hlone, hoff, h⟩
        omega
      · split <;> omega

end Contours

end DiscouNT.Fb
