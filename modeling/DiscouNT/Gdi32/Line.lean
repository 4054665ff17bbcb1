import DiscouNT.Gdi32.Dc
import DiscouNT.Lib.Line
import Mathlib.Data.List.Chain
import Mathlib.Data.List.Nodup

/-!
# Gdi32.Line

`gdi_line_to`. The second test of the loop sees the error term that the first has changed already,
so a line that falls or climbs by half its width and more, but by less than the width, misses its
end: it runs on beyond it until the guard counter stops it.
-/

namespace DiscouNT.Gdi32

open Lib List

structure LineState where
  x : Int
  y : Int
  err : Int

def lineStep (dx sx dy sy : Int) (s : LineState) : LineState :=
  let s := if s.err * 2 ≥ dy then { s with err := s.err + dy, x := s.x + sx } else s
  if s.err * 2 ≤ dx then { s with err := s.err + dx, y := s.y + sy } else s

/-- The pixels the loop puts, for what is left of the guard counter. -/
def lineLoop (x1 y1 dx sx dy sy : Int) : Nat → LineState → List (Int × Int)
  | 0, _ => []
  | guard + 1, s =>
    (s.x, s.y) ::
      if s.x = x1 ∧ s.y = y1 then [] else lineLoop x1 y1 dx sx dy sy guard (lineStep dx sx dy sy s)

def clampEnd (v : Int) : Int := if v < -4096 then -4096 else if v > 4096 then 4096 else v

def lineGuard (dx dy : Int) : Nat :=
  let guard := dx + -dy + 4
  let guard := if guard < 4 then 4 else guard
  (if guard > 16384 then 16384 else guard).toNat

def lineFrom (x0 y0 x1 y1 : Int) : List (Int × Int) :=
  let dx := if x1 > x0 then x1 - x0 else x0 - x1
  let sx := if x0 < x1 then 1 else -1
  let dy := -(if y1 > y0 then y1 - y0 else y0 - y1)
  let sy := if y0 < y1 then 1 else -1
  lineLoop x1 y1 dx sx dy sy (lineGuard dx dy) ⟨x0, y0, dx + dy⟩

def linePoints (x0 y0 x1 y1 : Int) : List (Int × Int) :=
  let dx := if x1 > x0 then x1 - x0 else x0 - x1
  let dy := -(if y1 > y0 then y1 - y0 else y0 - y1)
  if dx > 8192 ∨ -dy > 8192 then lineFrom (clampEnd x0) (clampEnd y0) (clampEnd x1) (clampEnd y1)
  else lineFrom x0 y0 x1 y1

def gdiLineTo (w : World) (dc : GdiDc) (x0 y0 x1 y1 : Int) (color : UInt32) : World :=
  (linePoints x0 y0 x1 y1).foldl (fun w p => gdiPutPixel w dc p.1 p.2 color) w

def Visible (w : World) (dc : GdiDc) (x y : Int) : Prop :=
  dc.clip.Holds x y ∧
    if dc.isScreen then
      let o := if dc.hasCustomOrigin then (dc.originX, dc.originY) else gdiGetScreenOrigin w dc.hwnd
      (0 ≤ o.1 + x ∧ o.1 + x < w.fb.width) ∧ 0 ≤ o.2 + y ∧ o.2 + y < w.fb.height
    else ∃ bmp, gdiGetBitmap w dc.selectedBitmap = some bmp ∧ bmp.Holds x y

def Near (p q : Int × Int) : Prop := (q.1 - p.1).natAbs ≤ 1 ∧ (q.2 - p.2).natAbs ≤ 1

def Between (a b v : Int) : Prop := min a b ≤ v ∧ v ≤ max a b

structure Plots (w : World) (dc : GdiDc) (x0 y0 x1 y1 : Int) : Prop where
  first : (linePoints x0 y0 x1 y1).head? = some (x0, y0)
  last : (linePoints x0 y0 x1 y1).getLast? = some (x1, y1)
  inside : ∀ p ∈ linePoints x0 y0 x1 y1, Between x0 x1 p.1 ∧ Between y0 y1 p.2
  visible : ∀ p ∈ linePoints x0 y0 x1 y1, Visible w dc p.1 p.2
  steps : (linePoints x0 y0 x1 y1).IsChain Near
  nodup : (linePoints x0 y0 x1 y1).Nodup
  length : (linePoints x0 y0 x1 y1).length = max (x1 - x0).natAbs (y1 - y0).natAbs + 1

section Loop

variable {x0 y0 x1 y1 sx sy a b : Int}

def placed (x0 y0 sx sy : Int) (p : Line.Progress) : LineState :=
  ⟨x0 + sx * p.i, y0 + sy * p.j, p.e⟩

def pixelAt (x0 y0 sx sy : Int) (p : Line.Progress) : Int × Int := (x0 + sx * p.i, y0 + sy * p.j)

theorem lineStep_placed (p : Line.Progress) :
    lineStep a sx (-b) sy (placed x0 y0 sx sy p) = placed x0 y0 sx sy (Line.step a b p) := by
  have hadvance : ∀ u s i : Int, u + s * i + s = u + s * (i + 1) := fun u s i => by ring
  rw [lineStep, placed]
  dsimp only
  rcases Line.step_cases a b p with ⟨h₁, h2, heq⟩ | ⟨h₁, h2, heq⟩ | ⟨h₁, h2, heq⟩ | ⟨h₁, h2, heq⟩
  · have hcolumn : p.e * 2 ≥ -b := by omega
    have hrow : (p.e + -b) * 2 ≤ a := by omega
    rw [heq, if_pos hcolumn, if_pos hrow, placed, ← hadvance, ← hadvance, Int.sub_eq_add_neg]
  · have hcolumn : p.e * 2 ≥ -b := by omega
    have hrow : ¬ (p.e + -b) * 2 ≤ a := by omega
    rw [heq, if_pos hcolumn, if_neg hrow, placed, ← hadvance, Int.sub_eq_add_neg]
  · have hcolumn : ¬ p.e * 2 ≥ -b := by omega
    have hrow : p.e * 2 ≤ a := by omega
    rw [heq, if_neg hcolumn, if_pos hrow, placed, ← hadvance]
  · have hcolumn : ¬ p.e * 2 ≥ -b := by omega
    have hrow : ¬ p.e * 2 ≤ a := by omega
    rw [heq, if_neg hcolumn, if_neg hrow, placed]

theorem near_lineStep (hsx : sx.natAbs = 1) (hsy : sy.natAbs = 1) (dx dy : Int) (s : LineState) :
    Near (s.x, s.y) ((lineStep dx sx dy sy s).x, (lineStep dx sx dy sy s).y) := by
  rw [lineStep, Near]
  split
  · split
    all_goals
      dsimp only
      omega
  · split
    all_goals
      dsimp only
      omega

theorem lineLoop_steps (hsx : sx.natAbs = 1) (hsy : sy.natAbs = 1) (dx dy : Int) (guard : Nat)
    (s : LineState) : (lineLoop x1 y1 dx sx dy sy guard s).IsChain Near := by
  induction guard generalizing s with
  | zero => exact isChain_nil
  | succ guard ih =>
    rw [lineLoop]
    split
    · exact isChain_singleton _
    · refine isChain_cons.mpr ⟨fun q hq => ?_, ih _⟩
      cases guard with
      | zero => cases hq
      | succ guard =>
        cases hq
        exact near_lineStep hsx hsy dx dy s

theorem lineLoop_next {p : Line.Progress} (guard : Nat) (hnot : pixelAt x0 y0 sx sy p ≠ (x1, y1)) :
    lineLoop x1 y1 a sx (-b) sy (guard + 1) (placed x0 y0 sx sy p) = pixelAt x0 y0 sx sy p ::
      lineLoop x1 y1 a sx (-b) sy guard (placed x0 y0 sx sy (Line.step a b p)) := by
  rw [lineLoop, if_neg fun h => hnot (Prod.ext h.1 h.2), lineStep_placed]
  rfl

theorem lineLoop_eq {p : Line.Progress} {m guard : Nat} (hguard : m < guard)
    (hend : pixelAt x0 y0 sx sy ((Line.step a b)^[m] p) = (x1, y1))
    (hnot : ∀ i < m, pixelAt x0 y0 sx sy ((Line.step a b)^[i] p) ≠ (x1, y1)) :
    lineLoop x1 y1 a sx (-b) sy guard (placed x0 y0 sx sy p) =
      (List.range (m + 1)).map fun i => pixelAt x0 y0 sx sy ((Line.step a b)^[i] p) := by
  obtain ⟨guard, rfl⟩ := Nat.exists_eq_succ_of_ne_zero (Nat.ne_of_gt (Nat.zero_lt_of_lt hguard))
  induction m generalizing p guard with
  | zero =>
    obtain ⟨hx, hy⟩ := Prod.ext_iff.mp hend
    rw [lineLoop, if_pos ⟨hx, hy⟩]
    rfl
  | succ m ih =>
    obtain ⟨guard, rfl⟩ := Nat.exists_eq_succ_of_ne_zero (n := guard) (by omega)
    have hfirst : pixelAt x0 y0 sx sy p ≠ (x1, y1) := hnot 0 (Nat.succ_pos m)
    rw [lineLoop_next _ hfirst, range_succ_eq_map, map_cons, map_map, ih hend (fun i hi => hnot (i + 1) (Nat.succ_lt_succ hi)) _ (by omega)]
    rfl

theorem mem_lineLoop {p : Line.Progress} {m guard : Nat} (hguard : m < guard)
    (hnot : ∀ i < m, pixelAt x0 y0 sx sy ((Line.step a b)^[i] p) ≠ (x1, y1)) :
    pixelAt x0 y0 sx sy ((Line.step a b)^[m] p) ∈
      lineLoop x1 y1 a sx (-b) sy guard (placed x0 y0 sx sy p) := by
  obtain ⟨guard, rfl⟩ := Nat.exists_eq_succ_of_ne_zero (Nat.ne_of_gt (Nat.zero_lt_of_lt hguard))
  induction m generalizing p guard with
  | zero => exact mem_cons_self
  | succ m ih =>
    obtain ⟨guard, rfl⟩ := Nat.exists_eq_succ_of_ne_zero (n := guard) (by omega)
    have hfirst : pixelAt x0 y0 sx sy p ≠ (x1, y1) := hnot 0 (Nat.succ_pos m)
    rw [lineLoop_next _ hfirst]
    exact mem_cons_of_mem _ (ih (fun i hi => hnot (i + 1) (Nat.succ_lt_succ hi)) _ (by omega))

end Loop

/-! ## The line -/

theorem span_spec (u v : Int) :
    (if v > u then v - u else u - v) = ((v - u).natAbs : Int) ∧
    (if u < v then (1 : Int) else -1).natAbs = 1 ∧
    v = u + (if u < v then 1 else -1) * ((v - u).natAbs : Int) := by
  refine ⟨?_, ?_, ?_⟩
  · split <;> omega
  · split <;> rfl
  · split <;> omega

theorem lineGuard_gt {a b : Nat} (ha : a ≤ 8192) (hb : b ≤ 8192) : max a b < lineGuard a (-b) := by
  rw [lineGuard]
  split
  · omega
  · split <;> omega

theorem linePoints_eq {x0 y0 x1 y1 : Int} (hx : (x1 - x0).natAbs ≤ 8192)
    (hy : (y1 - y0).natAbs ≤ 8192) : ∃ sx sy : Int, ∃ guard : Nat,
      sx.natAbs = 1 ∧ sy.natAbs = 1 ∧
      x1 = x0 + sx * (x1 - x0).natAbs ∧ y1 = y0 + sy * (y1 - y0).natAbs ∧
      max (x1 - x0).natAbs (y1 - y0).natAbs < guard ∧
      linePoints x0 y0 x1 y1 = lineLoop x1 y1 (x1 - x0).natAbs sx (-(y1 - y0).natAbs) sy guard
        (placed x0 y0 sx sy (Line.start (x1 - x0).natAbs (y1 - y0).natAbs)) := by
  obtain ⟨hdx, hsx, hx1⟩ := span_spec x0 x1
  obtain ⟨hdy, hsy, hy1⟩ := span_spec y0 y1
  refine ⟨_, _, _, hsx, hsy, hx1, hy1, lineGuard_gt hx hy, ?_⟩
  rw [linePoints, hdx, hdy, if_neg (by omega), lineFrom, hdx, hdy]
  simp only [placed, Line.start, Int.mul_zero, Int.add_zero]
  rfl

theorem pixelAt_inj {x0 y0 sx sy : Int} (hsx : sx.natAbs = 1) (hsy : sy.natAbs = 1)
    {p q : Line.Progress} (h : pixelAt x0 y0 sx sy p = pixelAt x0 y0 sx sy q) :
    p.i = q.i ∧ p.j = q.j := by
  obtain ⟨hx, hy⟩ := Prod.ext_iff.mp h
  dsimp only [pixelAt] at hx hy
  rcases Int.natAbs_eq_iff.mp hsx with rfl | rfl <;>
    rcases Int.natAbs_eq_iff.mp hsy with rfl | rfl <;> omega

theorem between_iff {u v s i : Int} {n : Nat} (hs : s.natAbs = 1) (hv : v = u + s * n)
    (hi : 0 ≤ i) : Between u v (u + s * i) ↔ i ≤ n := by
  rw [Between]
  rcases Int.natAbs_eq_iff.mp hs with rfl | rfl <;> omega

theorem Visible.between {w : World} {dc : GdiDc} {x0 y0 x1 y1 x y : Int} (h0 : Visible w dc x0 y0)
    (h1 : Visible w dc x1 y1) (hx : Between x0 x1 x) (hy : Between y0 y1 y) : Visible w dc x y := by
  obtain ⟨hclip0, hsurface0⟩ := h0
  obtain ⟨hclip1, hsurface1⟩ := h1
  rw [Between] at hx hy
  rw [Rect.Holds] at hclip0 hclip1
  refine ⟨by rw [Rect.Holds]; omega, ?_⟩
  split at hsurface0
  · next hscreen =>
    rw [if_pos hscreen] at hsurface1 ⊢
    dsimp only at hsurface0 hsurface1 ⊢
    omega
  · next hscreen =>
    rw [if_neg hscreen] at hsurface1 ⊢
    obtain ⟨bmp, hbmp, hholds0⟩ := hsurface0
    obtain ⟨bmp', hbmp', hholds1⟩ := hsurface1
    obtain rfl := Option.some.inj (hbmp.symm.trans hbmp')
    refine ⟨bmp, hbmp, ?_⟩
    rw [GdiBitmap.Holds] at hholds0 hholds1 ⊢
    omega

theorem plots_iff {w : World} {dc : GdiDc} {x0 y0 x1 y1 : Int} (hx : (x1 - x0).natAbs ≤ 8192)
    (hy : (y1 - y0).natAbs ≤ 8192) (h0 : Visible w dc x0 y0) (h1 : Visible w dc x1 y1) :
    Plots w dc x0 y0 x1 y1 ↔ ¬ ((y1 - y0).natAbs < (x1 - x0).natAbs ∧
      (x1 - x0).natAbs ≤ 2 * (y1 - y0).natAbs) := by
  obtain ⟨sx, sy, guard, hsx, hsy, hx1, hy1, hguard, hpoints⟩ := linePoints_eq hx hy
  have hsteps : (lineLoop x1 y1 _ sx _ sy guard _).IsChain Near :=
    lineLoop_steps hsx hsy (x1 - x0).natAbs (-(y1 - y0).natAbs) guard
      (placed x0 y0 sx sy (Line.start (x1 - x0).natAbs (y1 - y0).natAbs))
  rw [← hpoints] at hsteps
  have hend : pixelAt x0 y0 sx sy ⟨(x1 - x0).natAbs, (y1 - y0).natAbs, 0⟩ = (x1, y1) :=
    (Prod.ext hx1 hy1).symm
  constructor
  · rintro h ⟨hba, hab⟩
    generalize (x1 - x0).natAbs = a at *
    generalize (y1 - y0).natAbs = b at *
    have hbetween := Line.between_after (a := (a : Int)) (b := b) (by omega) (by omega)
    -- the pixel of the last column, which is not in the last row
    have hmem := @mem_lineLoop x0 y0 x1 y1 sx sy a b (Line.start a b) a guard (by omega)
      fun i hi heq => by
        have hcolumn := (hbetween i).1.symm.trans
          (pixelAt_inj hsx hsy (p := Line.after a b i) (heq.trans hend.symm)).1
        dsimp only at hcolumn
        omega
    rw [← hpoints] at hmem
    have hrow := (Line.between_end (a := a) (b := b) (k := a) (by omega) (by omega) rfl).2
    have hinside := (between_iff hsy hy1 (Line.after_nonneg a b a).2).mp (h.inside _ hmem).2
    omega
  · intro h
    obtain ⟨⟨hi, hj⟩, hin, hdirection⟩ := Line.path (a := ((x1 - x0).natAbs : Int))
      (b := ((y1 - y0).natAbs : Int)) (n := max (x1 - x0).natAbs (y1 - y0).natAbs)
      (by omega) (by omega) (by omega) (by omega)
    generalize ha : (x1 - x0).natAbs = a at *
    generalize hb : (y1 - y0).natAbs = b at *
    have hinj : ∀ k ≤ max a b, ∀ k' ≤ max a b, pixelAt x0 y0 sx sy (Line.after a b k) =
        pixelAt x0 y0 sx sy (Line.after a b k') → k = k' := by
      intro k hk k' hk' heq
      obtain ⟨hi', hj'⟩ := pixelAt_inj hsx hsy heq
      rcases hdirection with hcolumn | hrow
      · have := hcolumn k hk
        have := hcolumn k' hk'
        omega
      · have := hrow k hk
        have := hrow k' hk'
        omega
    have hlast : pixelAt x0 y0 sx sy (Line.after a b (max a b)) = (x1, y1) := by
      rw [← hend, pixelAt, pixelAt, hi, hj]
    rw [lineLoop_eq (m := max a b) hguard hlast fun i hi' heq =>
      absurd (hinj i (Nat.le_of_lt hi') _ (Nat.le_refl _) (heq.trans hlast.symm))
        (Nat.ne_of_lt hi')] at hpoints
    have hinside : ∀ p ∈ linePoints x0 y0 x1 y1, Between x0 x1 p.1 ∧ Between y0 y1 p.2 := by
      intro p hp
      rw [hpoints] at hp
      obtain ⟨k, hk, rfl⟩ := mem_map.mp hp
      have hk := Nat.le_of_lt_succ (mem_range.mp hk)
      have hnonneg := Line.after_nonneg a b k
      exact ⟨(between_iff hsx hx1 hnonneg.1).mpr (hin k hk).1,
        (between_iff hsy hy1 hnonneg.2).mpr (hin k hk).2⟩
    refine ⟨?_, ?_, hinside,
      fun p hp => h0.between h1 (hinside p hp).1 (hinside p hp).2, hsteps, ?_, ?_⟩
    · rw [hpoints, range_succ_eq_map, map_cons, head?_cons]
      simp only [Function.iterate_zero, id_eq, pixelAt, Line.start, Int.mul_zero, Int.add_zero]
    · rw [hpoints, range_succ, map_append, map_singleton, getLast?_concat]
      exact congrArg some hlast
    · rw [hpoints]
      refine List.Nodup.map_on (fun k hk k' hk' heq => ?_) nodup_range
      exact hinj k (Nat.le_of_lt_succ (mem_range.mp hk)) k'
        (Nat.le_of_lt_succ (mem_range.mp hk')) heq
    · rw [hpoints, length_map, length_range, ha, hb]

def canvas : World :=
  { objects := fun h => if h = 5 then some (.bitmap ⟨4, 4, fun _ => 0⟩) else none
    fb := Fb.modeSet ⟨false, 0, 0, 0, 0⟩ (fun _ => 0) ⟨⟨640, 480, 32⟩, by decide⟩ (fun _ => 0)
    clientOrigin := fun _ => (0, 0) }

def canvasDc : GdiDc := { gdiAllocDc with clip := ⟨0, 0, 4, 4⟩, selectedBitmap := some 5 }

theorem visible_canvas {x y : Int} (hx : 0 ≤ x ∧ x < 4) (hy : 0 ≤ y ∧ y < 4) :
    Visible canvas canvasDc x y := by
  have hin : ¬ (x < 0 ∨ y < 0 ∨ x ≥ 4 ∨ y ≥ 4) := by omega
  exact ⟨hin, (if_neg (by decide)).mpr ⟨⟨4, 4, fun _ => 0⟩, rfl, hin⟩⟩

theorem plots_steep : Plots canvas canvasDc 1 0 0 3 :=
  (plots_iff (by decide) (by decide) (visible_canvas (by decide) (by decide))
    (visible_canvas (by decide) (by decide))).mpr (by decide)

/-- Three columns and two rows: the end is missed. -/
theorem plots_missed : Visible canvas canvasDc 0 0 ∧ Visible canvas canvasDc 3 2 ∧
    ¬ Plots canvas canvasDc 0 0 3 2 := by
  refine ⟨visible_canvas (by decide) (by decide), visible_canvas (by decide) (by decide), ?_⟩
  exact fun h => absurd h.last (by decide)

end DiscouNT.Gdi32
