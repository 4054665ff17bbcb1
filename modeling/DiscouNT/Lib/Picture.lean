import DiscouNT.Lib.Logged
import DiscouNT.Lib.Raster

/-!
# Lib.Picture

Decoding a picture: a loop over rows and columns that computes each pixel from the bytes of a file
and stores it in a buffer. `fillPixels_draws_iff` reduces what the loop does to what it does for one
pixel and to the size of the buffer, which is allocated by its number of bytes modulo 2^32.
-/

namespace Lib

open Logged

inductive PixelAccess where
  /-- byte `a` of the file -/
  | read (a : Nat)
  /-- pixel `i` of the buffer -/
  | write (i : Nat)
deriving DecidableEq, Repr

def PixelAccess.Inside (size bytes : Nat) : PixelAccess → Prop
  | .read a => a < size
  | .write i => 4 * i + 4 ≤ bytes

def readByte (m : Nat → UInt8) (a : Nat) : Logged PixelAccess UInt8 := .note (.read a) (m a)

@[simp] theorem val_readByte (m : Nat → UInt8) (a : Nat) : (readByte m a).val = m a := rfl

@[simp] theorem all_readByte {m : Nat → UInt8} {a size bytes : Nat} :
    (readByte m a).All (PixelAccess.Inside size bytes) ↔ a < size := all_note _ _

section Picture

variable {β : Type} {pixel : Nat → Nat → Logged PixelAccess β} {w h size bytes : Nat}
  {colour : Nat → Nat → β}

def fillPixels (pixel : Nat → Nat → Logged PixelAccess β) (w h : Nat) :
    Logged PixelAccess (Nat → Option β) :=
  Logged.fold (fun y buffer => Logged.fold (fun x buffer => do
    let c ← pixel x y
    .note (.write (y * w + x)) (Function.update buffer (y * w + x) (some c))) buffer w)
    (fun _ => none) h

structure Draws (size bytes w h : Nat) (colour : Nat → Nat → β)
    (r : Logged PixelAccess (Nat → Option β)) : Prop where
  inside : r.All (PixelAccess.Inside size bytes)
  picture : ∀ x < w, ∀ y < h, r.val (y * w + x) = some (colour x y)

theorem val_fillPixels {x y : Nat} (hx : x < w) (hy : y < h) :
    (fillPixels pixel w h).val (y * w + x) = some (pixel x y).val := by
  have hrows : (fillPixels pixel w h).val = setRows (fun _ => none) (fun row => (0 + row) * w + 0)
      w h fun y x => some (pixel x y).val := by
    simp only [fillPixels, setRows, val_fold, val_bind, val_note, Nat.zero_add, Nat.add_zero]
  have hpaints := @setRows_paints (Option β) (fun _ => none)
    (fun k => some (pixel (k % w) (k / w)).val) (fun y x => some (pixel x y).val) w 0 0 w h
    (by omega) fun row _ col hcol => by
      rw [Nat.zero_add, Nat.add_zero, cell_col hcol, cell_row hcol]
  have hmem : y * w + x ∈ box w ⟨(0 : Nat), w⟩ ⟨(0 : Nat), h⟩ := by
    rw [mem_box, cell_col hx, cell_row hx, Span.mem_mk, Span.mem_mk]
    omega
  rw [hrows, hpaints.on _ hmem, cell_col hx, cell_row hx]

theorem all_fillPixels {P : PixelAccess → Prop} : (fillPixels pixel w h).All P ↔
    ∀ y < h, ∀ x < w, (pixel x y).All P ∧ P (.write (y * w + x)) := by
  simp only [fillPixels, all_fold, Logged.all_bind, all_note]

theorem writes_inside_iff (hw : 0 < w) :
    (∀ y < h, ∀ x < w, 4 * (y * w + x) + 4 ≤ 4 * (w * h) % 2 ^ 32) ↔ 4 * (w * h) < 2 ^ 32 := by
  constructor
  · intro hin
    by_contra hbig
    -- the first pixel behind the buffer
    have hlt : w * h % 2 ^ 30 < w * h := (Nat.mod_lt _ (by decide)).trans_le (by omega)
    have hrow : w * h % 2 ^ 30 / w < h := by
      rw [Nat.div_lt_iff_lt_mul hw, Nat.mul_comm h]
      exact hlt
    have hpixel := hin _ hrow (w * h % 2 ^ 30 % w) (Nat.mod_lt _ hw)
    rw [cell_self] at hpixel
    omega
  · intro hsize y hy x hx
    have hcell := cell_lt hx hy
    rw [Nat.mul_comm h] at hcell
    rw [Nat.mod_eq_of_lt hsize]
    omega

theorem fillPixels_draws_iff (hw : 0 < w) :
    Draws size (4 * (w * h) % 2 ^ 32) w h colour (fillPixels pixel w h) ↔
      4 * (w * h) < 2 ^ 32 ∧ ∀ y < h, ∀ x < w,
        (pixel x y).All (PixelAccess.Inside size (4 * (w * h) % 2 ^ 32)) ∧
          (pixel x y).val = colour x y := by
  constructor
  · intro hdraws
    have hall := all_fillPixels.mp hdraws.inside
    refine ⟨(writes_inside_iff hw).mp fun y hy x hx => (hall y hy x hx).2, fun y hy x hx =>
      ⟨(hall y hy x hx).1, ?_⟩⟩
    have hpicture := hdraws.picture x hx y hy
    rw [val_fillPixels hx hy] at hpicture
    exact Option.some.inj hpicture
  · rintro ⟨hsize, hpixels⟩
    refine ⟨all_fillPixels.mpr fun y hy x hx => ⟨(hpixels y hy x hx).1,
      (writes_inside_iff hw).mpr hsize y hy x hx⟩, fun x hx y hy => ?_⟩
    rw [val_fillPixels hx hy, (hpixels y hy x hx).2]

end Picture

end Lib
