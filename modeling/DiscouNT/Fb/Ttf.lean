import DiscouNT.Arch
import DiscouNT.Lib.Bytes
import DiscouNT.Lib.Logged

/-!
# Fb.Ttf

The TrueType reader: tables, the character map, glyph outlines and their coverage of an 8 by 12
cell. A function returns what it computes and the log of what it reads: bytes of the font, elements
of its local arrays, and what it divides by.

Addresses count from `ttf.data`. Local arrays hold whatever was on the stack until they are
written; the log says how many of their elements are.
-/

namespace DiscouNT.Fb

open Lib Function Logged

inductive Access where
  /-- `n` bytes of the font at `a` -/
  | bytes (a n : Nat)
  /-- element `i` of a local array of which the first `n` are initialised -/
  | elem (i n : Nat)
  | div (d : Int32)
  /-- a loop used up the passes it is bounded by -/
  | stuck
deriving DecidableEq, Repr

def Access.Safe (size : Nat) : Access → Prop
  | .bytes a n => a + n ≤ size
  | .elem i n => i < n
  | .div d => d ≠ 0
  | .stuck => False

instance (size : Nat) (e : Access) : Decidable (e.Safe size) := by
  cases e <;> unfold Access.Safe <;> infer_instance

structure Ttf where
  data : Mem
  size : Nat
  cmap : Nat
  glyf : Nat
  loca : Nat
  head : Nat
  hhea : Nat
  hmtx : Nat
  glyphCount : Nat
  hmetrics : Nat
  locaFormat : Int
  unitsPerEm : Nat
  ascender : Int
  descender : Int
  ready : Bool

def word16 (m : Mem) (a : Nat) : Nat := (m a).toNat * 256 + (m (a + 1)).toNat

theorem word16_lt (m : Mem) (a : Nat) : word16 m a < 65536 := by
  have h1 := (m a).toNat_lt
  have h2 := (m (a + 1)).toNat_lt
  rw [word16]
  omega

def word32 (m : Mem) (a : Nat) : Nat := word16 m a * 65536 + word16 m (a + 2)

def toS16 (n : Nat) : Int := if n < 32768 then n else n - 65536

def toS8 (b : UInt8) : Int := if b < 128 then b.toNat else b.toNat - 256

section Reads

variable (t : Ttf) (a : Nat)

def byteAt : Logged Access UInt8 := .note (.bytes a 1) (t.data a)
def u16At : Logged Access Nat := .note (.bytes a 2) (word16 t.data a)
def s16At : Logged Access Int := .note (.bytes a 2) (toS16 (word16 t.data a))
def u32At : Logged Access Nat := .note (.bytes a 4) (word32 t.data a)

end Reads

def elemAt {α : Type} (array : Nat → α) (i n : Nat) : Logged Access α := .note (.elem i n) (array i)

def divide (a d : Int32) : Logged Access Int32 := .note (.div d) (a / d)

def rangeOk (t : Ttf) (off len : Nat) : Bool := off ≤ t.size ∧ len ≤ t.size - off

def table (t : Ttf) (tag : Nat) : Logged Access Nat :=
  if t.size < 12 then pure 0
  else do
    let count ← u16At t 4
    if rangeOk t 12 (count * 16) then
      let found ← search (fun i => do
        let r := 12 + i * 16
        if (← u32At t r) ≠ tag then pure none
        else
          let off ← u32At t (r + 8)
          let len ← u32At t (r + 12)
          pure (some (if rangeOk t off len then off else 0))) count 0
      pure (found.getD 0)
    else pure 0

def segment (t : Ttf) (ch sub segCount j : Nat) : Logged Access (Option Nat) := do
  let ends := sub + 14
  let starts := sub + 16 + segCount * 2
  let deltas := starts + segCount * 2
  let ranges := deltas + segCount * 2
  let start ← u16At t (starts + j * 2)
  let stop ← u16At t (ends + j * 2)
  if ch < start ∨ ch > stop then pure none
  else
    let range ← u16At t (ranges + j * 2)
    if range = 0 then
      let g : Int := ch + (← s16At t (deltas + j * 2))
      pure (some (if 0 ≤ g ∧ g < t.glyphCount then g.toNat else 0))
    else
      let pos := u32 (ranges + j * 2 + range + (ch - start) * 2)
      if rangeOk t pos 2 then
        let g ← u16At t pos
        if g = 0 then pure (some 0)
        else
          let g : Int := g + (← s16At t (deltas + j * 2))
          pure (some (if 0 ≤ g ∧ g < t.glyphCount then g.toNat else 0))
      else pure (some 0)

/-- Which records a pass over the character map looks at. -/
def passTakes (pass platform encoding : Nat) : Bool :=
  (pass = 0 ∧ platform = 3 ∧ encoding = 1) ∨ (pass = 1 ∧ platform = 3 ∧ encoding = 0) ∨
    (pass = 2 ∧ platform = 0)

def cmapRecord (t : Ttf) (ch pass i : Nat) : Logged Access (Option Nat) := do
  let record := t.cmap + 4 + i * 8
  let platform ← u16At t record
  let encoding ← u16At t (record + 2)
  let off ← u32At t (record + 4)
  if ¬ passTakes pass platform encoding then pure none
  else if off > sub32 t.size t.cmap ∨ ¬ rangeOk t (u32 (t.cmap + off)) 16 then pure none
  else
    let sub := t.cmap + off
    if (← u16At t sub) ≠ 4 then pure none
    else
      let segCount := (← u16At t (sub + 6)) / 2
      if segCount = 0 ∨ 16 + segCount * 8 > sub32 t.size (u32 (t.cmap + off)) then pure none
      else search (segment t ch sub segCount) segCount 0

def glyphFor (t : Ttf) (ch : Nat) : Logged Access Nat :=
  if t.cmap = 0 then pure 0
  else if ¬ rangeOk t t.cmap 4 then pure 0
  else do
    let records ← u16At t (t.cmap + 2)
    if ¬ rangeOk t (u32 (t.cmap + 4)) (records * 8) then pure 0
    else
      let found ← search
        (fun pass => search (cmapRecord t ch pass) records 0) 3 0
      pure (found.getD 0)

def glyphOffset (t : Ttf) (glyph : Nat) : Logged Access Nat :=
  if t.loca = 0 ∨ glyph > t.glyphCount then pure 0
  else
    let pos := u32 (t.loca + (if t.locaFormat ≠ 0 then glyph * 4 else glyph * 2))
    if ¬ rangeOk t pos (if t.locaFormat ≠ 0 then 4 else 2) then pure 0
    else do
      let off ← if t.locaFormat ≠ 0 then u32At t pos else (· * 2) <$> u16At t pos
      pure (if off ≤ sub32 t.size t.glyf then off else 0)

/-- `px`, `py` and how many points of them are in use. -/
structure Curve where
  x : Nat → Int32
  y : Nat → Int32
  count : Nat

def addPoint (curve : Curve) (px py : Int32) : Curve :=
  if curve.count ≥ 1024 then curve
  else
    { x := update curve.x curve.count px, y := update curve.y curve.count py,
      count := curve.count + 1 }

/-- The points of an outline: three arrays, of which the first `points` elements are initialised. -/
structure Points where
  x : Nat → Int32
  y : Nat → Int32
  flags : Nat → UInt8
  points : Nat

section Flatten

variable (o : Points)

def pointAt (i : Nat) : Logged Access (Int32 × Int32) := do
  let x ← elemAt o.x i o.points
  let y ← elemAt o.y i o.points
  pure (x, y)

def onCurve (i : Nat) : Logged Access Bool := (fun f => f &&& 1 ≠ 0) <$> elemAt o.flags i o.points

def midPoint (i j : Nat) : Logged Access (Int32 × Int32) := do
  let a ← pointAt o i
  let b ← pointAt o j
  pure ((a.1 + b.1) / 2, (a.2 + b.2) / 2)

def addCurve (c q e : Int32 × Int32) (curve : Curve) : Curve :=
  [1, 2, 3, 4].foldl (fun curve step =>
    let t : Int32 := step * 256 / 4
    let a := 256 - t
    addPoint curve ((a * a * c.1 + 2 * a * t * q.1 + t * t * e.1) / 65536)
      ((a * a * c.2 + 2 * a * t * q.2 + t * t * e.2) / 65536)) curve

/-- Pass `i` of the loop over a contour of `n` points, with the pen at `c`. -/
def flattenPass (first n i : Nat) (s : (Int32 × Int32) × Curve) :
    Logged Access ((Int32 × Int32) × Curve) := do
  let pos := first + i
  let next := if i + 1 < n then pos + 1 else first
  let next2 := if i + 2 < n then pos + 2 else first + (i + 2 - n)
  if ← onCurve o pos then
    let q ← pointAt o pos
    pure (q, addPoint s.2 q.1 q.2)
  else
    let e ← if ← onCurve o next then pointAt o next else midPoint o next next2
    let q ← pointAt o pos
    pure (e, addCurve s.1 q e s.2)

def startPoint (first last : Nat) : Logged Access (Int32 × Int32) := do
  if ← onCurve o first then pointAt o first
  else if ← onCurve o last then pointAt o last
  else midPoint o first last

def flatten (first last : Nat) (curve : Curve) : Logged Access Curve :=
  if last < first then pure { curve with count := 0 }
  else do
    let n := last - first + 1
    let c ← startPoint o first last
    let s ← Logged.fold (flattenPass o first n) (c, addPoint { curve with count := 0 } c.1 c.2) n
    pure s.2

end Flatten

/-- Pass `i` of the crossing test; `j` is the point before. -/
def insidePass (sx sy : Int32) (curve : Curve) (i : Nat) (s : Nat × Bool) :
    Logged Access (Nat × Bool) := do
  let j := s.1
  let yi ← elemAt curve.y i curve.count
  let yj ← elemAt curve.y j curve.count
  if decide (yi > sy) ≠ decide (yj > sy) then
    let xi ← elemAt curve.x i curve.count
    let xj ← elemAt curve.x j curve.count
    let slope ← divide ((xj - xi) * (sy - yi)) (yj - yi)
    pure (i, if sx < slope + xi then !s.2 else s.2)
  else pure (i, s.2)

def inside (sx sy : Int32) (curve : Curve) : Logged Access Bool :=
  Prod.snd <$> Logged.fold (insidePass sx sy curve) (curve.count - 1, false) curve.count

/-- What the stack holds where the arrays for the points of a glyph are. The other local arrays are
never read past what is initialised, so theirs does not matter. -/
structure Stack where
  x : Nat → Int32
  y : Nat → Int32
  flags : Nat → UInt8

structure Outline where
  start : Nat
  limit : Nat
  contours : Nat
  ends : Nat → Nat
  points : Nat
  ymin : Int
  ymax : Int

def readEnds (t : Ttf) (p contours : Nat) : Logged Access (Nat → Nat) :=
  Logged.fold (fun c ends => do
    let last ← u16At t (p + c * 2)
    pure (update ends c last)) (fun _ => 0) contours

def outlineHeader (t : Ttf) (glyph : Nat) : Logged Access (Option Outline) := do
  let off ← glyphOffset t glyph
  let next ← glyphOffset t ((glyph + 1) % 65536)
  if t.glyf = 0 then pure none
  else if next ≤ off ∨ next > sub32 t.size t.glyf then pure none
  else
    let p := t.glyf + off
    let limit := t.glyf + next
    if p + 10 > limit then pure none
    else
      let contours ← s16At t p
      if contours ≤ 0 ∨ contours > 64 then pure none
      else
        let ymin ← s16At t (p + 4)
        let ymax ← s16At t (p + 8)
        let p := p + 10
        let contours := contours.toNat
        if p + contours * 2 + 2 > limit then pure none
        else
          let ends ← readEnds t p contours
          let last ← elemAt ends (contours - 1) contours
          let points := (last + 1) % 65536
          if points = 0 ∨ points > 256 then pure none
          else
            let p := p + contours * 2
            let il ← u16At t p
            let p := p + 2
            if p + il > limit then pure none
            else pure (some { start := p + il, limit, contours, ends, points, ymin, ymax })

/-- `while (n-- && i + 1 < points)`: the flag before is repeated. The source leaves open whether
`i - 1` is taken before `++i`; it means the flag before. -/
def repeatFlag (points : Nat) : Nat → Nat → (Nat → UInt8) → Logged Access (Nat × (Nat → UInt8))
  | 0, i, flags => pure (i, flags)
  | n + 1, i, flags =>
    if i + 1 < points then do
      let f ← elemAt flags i (i + 1)
      repeatFlag points n (i + 1) (update flags (i + 1) f)
    else pure (i, flags)

/-- The flags from index `i` on, read from `p`; at most `fuel` passes of the loop. -/
def readFlags (t : Ttf) (limit points : Nat) :
    Nat → Nat → Nat → (Nat → UInt8) → Logged Access (Option ((Nat → UInt8) × Nat))
  | 0, i, p, flags => if i < points then .note .stuck none else pure (some (flags, p))
  | fuel + 1, i, p, flags =>
    if i < points then
      if p ≥ limit then pure none
      else do
        let f ← byteAt t p
        let flags := update flags i f
        if f &&& 8 ≠ 0 then
          let n ← byteAt t (p + 1)
          let (i, flags) ← repeatFlag points n.toNat i flags
          readFlags t limit points fuel (i + 1) (p + 2) flags
        else readFlags t limit points fuel (i + 1) (p + 1) flags
    else pure (some (flags, p))

/-- One coordinate delta: a byte where the flag has the bit `short`, whose sign is the bit `same`;
no delta where it has only that; a word where it has neither. -/
def readDelta (t : Ttf) (limit : Nat) (short same : UInt8) (f : UInt8) (p : Nat) :
    Logged Access (Option (Int32 × Nat)) :=
  if f &&& short ≠ 0 then do
    let b ← byteAt t p
    let d : Int := b.toNat
    pure (some (Int32.ofInt (if f &&& same ≠ 0 then d else -d), p + 1))
  else if f &&& same = 0 then
    if p + 2 > limit then pure none
    else do
      let d ← s16At t p
      pure (some (Int32.ofInt d, p + 2))
  else pure (some (0, p))

def coordinateBefore (xs : Nat → Int32) (i : Nat) : Logged Access Int32 :=
  if i = 0 then pure 0 else elemAt xs (i - 1) i

def readCoordinates (t : Ttf) (limit points : Nat) (flags : Nat → UInt8) (short same : UInt8) :
    Nat → Nat → Nat → (Nat → Int32) → Logged Access (Option ((Nat → Int32) × Nat))
  | 0, _, p, xs => pure (some (xs, p))
  | n + 1, i, p, xs => do
    let f ← elemAt flags i points
    whenSome (readDelta t limit short same f p) fun (d, p) => do
      let before ← coordinateBefore xs i
      readCoordinates t limit points flags short same n (i + 1) p
        (update xs i (before + d))

abbrev Cover := Nat → Nat → UInt16

/-- The scale of a font: units of the em square, vertical extent and the glyph's advance. -/
structure Scale where
  em : Int32
  top : Int32
  bottom : Int32
  advance : Int32

def emOf (t : Ttf) : Int32 := if t.unitsPerEm ≠ 0 then Int32.ofNat t.unitsPerEm else 2048

def advanceWidth (t : Ttf) (glyph : Nat) : Logged Access Nat :=
  let metric := if glyph < t.hmetrics then glyph else t.hmetrics - 1
  let pos := u32 (t.hmtx + metric * 4)
  if t.hmtx ≠ 0 ∧ t.hmetrics ≠ 0 ∧ rangeOk t pos 2 then u16At t pos else pure 0

def readScale (t : Ttf) (glyph : Nat) (ymin ymax : Int) : Logged Access Scale := do
  let em := emOf t
  let (top, bottom) :=
    if t.ascender ≤ t.descender then (ymax, ymin) else (t.ascender, t.descender)
  let width ← advanceWidth t glyph
  let advance := if width ≠ 0 then Int32.ofNat width else em
  pure ⟨em, Int32.ofInt top, Int32.ofInt bottom, advance⟩

def sampleCell (scale : Scale) (curve : Curve) (sx sy : Nat) : Logged Access UInt16 :=
  Logged.fold (fun a mask => Logged.fold (fun b mask => do
    let cellX := Int32.ofNat (sx * 4 + b) * scale.em / (8 * 4)
    let cellY := Int32.ofNat (sy * 4 + a) * scale.em / (12 * 4)
    let xx ← divide (cellX * scale.advance) scale.em
    let dy ← divide (cellY * (scale.top - scale.bottom)) scale.em
    let hit ← inside xx (scale.top - dy) curve
    pure (if hit then mask ||| 1 <<< UInt16.ofNat (a * 4 + b) else mask)) mask 4) 0 4

def setCell (cover : Cover) (sx sy : Nat) (v : UInt16) : Cover :=
  update cover sx (update (cover sx) sy v)

def coverCurve (scale : Scale) (curve : Curve) (cover : Cover) : Logged Access Cover :=
  Logged.fold (fun sx cover => Logged.fold (fun sy cover => do
    let mask ← sampleCell scale curve sx sy
    pure (setCell cover sx sy (cover sx sy ^^^ mask))) cover 12) cover 8

/-- Between two contours: the first point of the next, the curve arrays and the cells so far. -/
structure Contours where
  first : Nat
  curve : Curve
  cover : Cover

def contourPass (points : Points) (scale : Scale) (contours : Nat) (ends : Nat → Nat) (c : Nat)
    (s : Contours) : Logged Access Contours := do
  let last ← elemAt ends c contours
  let curve ← flatten points s.first last s.curve
  let first := (last + 1) % 65536
  if curve.count < 3 then pure { first, curve, cover := s.cover }
  else
    let cover ← coverCurve scale curve s.cover
    pure { first, curve, cover }

/-- `render_simple_outline`; `none` where it returns 0, which leaves `sub_cover` alone. -/
def renderSimpleOutline (t : Ttf) (stack : Stack) (glyph : Nat) (cover : Cover) :
    Logged Access (Option Cover) :=
  whenSome (outlineHeader t glyph) fun o =>
  whenSome (readFlags t o.limit o.points o.points 0 o.start stack.flags) fun (flags, p) =>
  whenSome (readCoordinates t o.limit o.points flags 2 16 o.points 0 p stack.x) fun (x, p) =>
  whenSome (readCoordinates t o.limit o.points flags 4 32 o.points 0 p stack.y)
    fun (y, _) => do
      let scale ← readScale t glyph o.ymin o.ymax
      let s ← Logged.fold (contourPass ⟨x, y, flags, o.points⟩ scale o.contours o.ends)
        ⟨0, ⟨fun _ => 0, fun _ => 0, 0⟩, cover⟩ o.contours
      pure (some s.cover)

/-- A component: its glyph, its offset and matrix, whether more follow, and where they start. -/
structure Component where
  glyph : Nat
  dx : Int
  dy : Int
  m00 : Int
  m01 : Int
  m10 : Int
  m11 : Int
  more : Bool
  next : Nat

def readArgs (t : Ttf) (limit flags p : Nat) : Logged Access (Option (Int × Int × Nat)) :=
  if flags &&& 1 ≠ 0 then
    if p + 4 > limit then pure none
    else do
      let arg1 ← s16At t p
      let arg2 ← s16At t (p + 2)
      pure (some (arg1, arg2, p + 4))
  else
    if p + 2 > limit then pure none
    else do
      let arg1 ← byteAt t p
      let arg2 ← byteAt t (p + 1)
      pure (some (toS8 arg1, toS8 arg2, p + 2))

def readMatrix (t : Ttf) (limit flags p : Nat) :
    Logged Access (Option ((Int × Int × Int × Int) × Nat)) :=
  if flags &&& 8 ≠ 0 then
    if p + 2 > limit then pure none
    else do
      let m ← s16At t p
      pure (some ((m, 0, 0, m), p + 2))
  else if flags &&& 64 ≠ 0 then
    if p + 4 > limit then pure none
    else do
      let m00 ← s16At t p
      let m11 ← s16At t (p + 2)
      pure (some ((m00, 0, 0, m11), p + 4))
  else if flags &&& 128 ≠ 0 then
    if p + 8 > limit then pure none
    else do
      let m00 ← s16At t p
      let m01 ← s16At t (p + 2)
      let m10 ← s16At t (p + 4)
      let m11 ← s16At t (p + 6)
      pure (some ((m00, m01, m10, m11), p + 8))
  else pure (some ((16384, 0, 0, 16384), p))

def readComponent (t : Ttf) (limit p : Nat) : Logged Access (Option Component) :=
  if p + 4 > limit then pure none
  else do
    let flags ← u16At t p
    let glyph ← u16At t (p + 2)
    whenSome (readArgs t limit flags (p + 4)) fun (arg1, arg2, p) => do
      let offset := if flags &&& 2 ≠ 0 then (arg1, arg2) else (0, 0)
      whenSome (readMatrix t limit flags p) fun ((m00, m01, m10, m11), p) =>
        pure (some { glyph, dx := offset.1, dy := offset.2, m00, m01, m10, m11,
                     more := flags &&& 32 ≠ 0, next := p })

def addComponent (t : Ttf) (comp : Component) (part cover : Cover) : Logged Access Cover := do
  let pxShift ← divide (Int32.ofInt comp.dx * 8) (emOf t)
  let pyShift ← divide (-(Int32.ofInt comp.dy * 12)) (emOf t)
  pure (Nat.fold 12 (fun sy _ cover => Nat.fold 8 (fun sx _ cover =>
    let cx := Int32.ofNat sx * 2 - 7
    let cy := Int32.ofNat sy * 2 - 11
    let tsx := 4 + (Int32.ofInt comp.m00 * cx + Int32.ofInt comp.m01 * cy) / 32768 + pxShift
    let tsy := 6 + (Int32.ofInt comp.m10 * cx + Int32.ofInt comp.m11 * cy) / 32768 + pyShift
    if tsx ≥ 0 ∧ tsx < 8 ∧ tsy ≥ 0 ∧ tsy < 12 then
      let x := tsx.toInt.toNat
      let y := tsy.toInt.toNat
      setCell cover x y (cover x y ^^^ part sx sy)
    else cover) cover) cover)

def emptyCover : Cover := fun _ _ => 0

/-- The components from `p` on; at most `fuel` passes of the loop. A component that cannot be
rendered leaves its cells empty. -/
def renderComponents (t : Ttf) (stack : Stack) (limit : Nat) :
    Nat → Nat → Cover → Logged Access (Option Cover)
  | 0, _, _ => .note .stuck none
  | fuel + 1, p, cover =>
    whenSome (readComponent t limit p) fun comp => do
      let part ← renderSimpleOutline t stack comp.glyph emptyCover
      let cover ← addComponent t comp (part.getD emptyCover) cover
      if comp.more then renderComponents t stack limit fuel comp.next cover
      else pure (some cover)

/-- Where the composite glyph `glyph` has its components, and where it ends. -/
def compositeHeader (t : Ttf) (glyph : Nat) : Logged Access (Option (Nat × Nat)) := do
  let off ← glyphOffset t glyph
  let next ← glyphOffset t ((glyph + 1) % 65536)
  if t.glyf = 0 then pure none
  else if next = 0 ∨ next ≤ off then pure none
  else if u32 (t.glyf + next) > t.size then pure none
  else
    let p := t.glyf + off
    let limit := t.glyf + next
    if p + 10 > limit then pure none
    else
      let contours ← s16At t p
      if contours ≥ 0 then pure none else pure (some (p + 10, limit))

def renderCompositeOutline (t : Ttf) (stack : Stack) (glyph : Nat) (cover : Cover) :
    Logged Access (Option Cover) :=
  whenSome (compositeHeader t glyph) fun (p, limit) =>
    renderComponents t stack limit (limit - p + 1) p cover

/-! ## Glyphs -/

def popcount16 (v : UInt16) : Nat := (List.range 16).countP fun i => v.toNat.testBit i

/-- The sign of the contour count, which says how a glyph is built; `none` where there is no
glyph. -/
def peekContours (t : Ttf) (glyph : Nat) : Logged Access (Option Int) := do
  let off ← glyphOffset t glyph
  let next ← glyphOffset t ((glyph + 1) % 65536)
  if t.glyf = 0 ∨ next = 0 ∨ next ≤ off ∨ u32 (t.glyf + next) > t.size then pure none
  else
    let p := t.glyf + off
    if p + 10 > t.glyf + next then pure none
    else some <$> s16At t p

def rowsOf (cover : Cover) (sy : Nat) : UInt8 :=
  Nat.fold 8 (fun sx _ row =>
    if popcount16 (cover sx sy) ≥ 2 then row ||| 0x80 >>> UInt8.ofNat sx else row) 0

/-- `render`: the twelve rows of a glyph, or `none` where it returns 0. -/
def render (t : Ttf) (stack : Stack) (glyph : Nat) : Logged Access (Option (Nat → UInt8)) :=
  whenSome (peekContours t glyph) fun contours => do
    let cover ←
      if contours ≥ 0 then renderSimpleOutline t stack glyph emptyCover
      else renderCompositeOutline t stack glyph emptyCover
    pure (cover.map rowsOf)

def fbTtfGlyph (t : Ttf) (stack : Stack) (c : UInt8) : Logged Access (Option (Nat → UInt8)) :=
  if ¬ t.ready ∨ c < 32 ∨ c > 126 then pure none
  else do
    let glyph ← glyphFor t c.toNat
    render t stack glyph

/-- `FbTtfLoad` on a file of `size` bytes. Its own reads of the header fields are not logged. -/
def fbTtfLoad (data : Mem) (size : UInt32) : Ttf :=
  let t : Ttf := ⟨data, size.toNat, 0, 0, 0, 0, 0, 0, 0, 0, 0, 0, 0, 0, false⟩
  let maxp := (table t 0x6D617870).val
  let t' := { t with
    head := (table t 0x68656164).val, cmap := (table t 0x636D6170).val,
    glyf := (table t 0x676C7966).val, loca := (table t 0x6C6F6361).val,
    hhea := (table t 0x68686561).val, hmtx := (table t 0x686D7478).val }
  if t'.head = 0 ∨ t'.cmap = 0 ∨ t'.glyf = 0 ∨ t'.loca = 0 ∨ maxp = 0 ∨ t'.hhea = 0 then t'
  else
    { t' with
      glyphCount := word16 data (maxp + 4)
      unitsPerEm := word16 data (t'.head + 18)
      ascender := toS16 (word16 data (t'.hhea + 4))
      descender := toS16 (word16 data (t'.hhea + 6))
      hmetrics := word16 data (t'.hhea + 34)
      locaFormat := toS16 (word16 data (t'.head + 50))
      ready := true }

end DiscouNT.Fb
