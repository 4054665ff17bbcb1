import Mathlib.Tactic.IntervalCases
import DiscouNT.Fb.Clip

/-!
# Fb.Present

Presentation. `FbSwapBuffers` copies the dirty rectangle to the hidden page, flips, and copies it
to the page that was on display; the first one after a mode was set copies the whole surface to
both. What a page holds for a word of the surface depends on the pixel format (`hwBytes`).
-/

namespace DiscouNT.Fb

open Lib

def wordBytes (rgb : UInt32) : List UInt8 :=
  [rgb.toUInt8, (rgb >>> 8).toUInt8, (rgb >>> 16).toUInt8, (rgb >>> 24).toUInt8]

def rgb565 (rgb : UInt32) : UInt16 :=
  (((rgb >>> 19) <<< 11) ||| (((rgb >>> 10) &&& 0x3F) <<< 5) ||| ((rgb >>> 3) &&& 0x1F)).toUInt16

def hwWrite (bpp : Nat) (rgb : UInt32) : List UInt8 :=
  if bpp = 16 then [(rgb565 rgb).toUInt8, (rgb565 rgb >>> 8).toUInt8]
  else if bpp = 24 then [rgb.toUInt8, (rgb >>> 8).toUInt8, (rgb >>> 16).toUInt8]
  else wordBytes (rgb &&& 0x00FFFFFF)

/-- What a scanout page holds for a word of the surface: at 32 bits the word itself, since the
swap copies whole scanlines there. -/
def hwBytes (bpp : Nat) (rgb : UInt32) : List UInt8 :=
  if bpp = 32 then wordBytes rgb else hwWrite bpp rgb

theorem hwBytes_length (mode : Mode) (rgb : UInt32) :
    (hwBytes mode.1.bpp rgb).length = mode.1.bpp / 8 := by
  rcases fbModes_bpp _ mode.2 with h | h | h <;> rw [h] <;> rfl

def fbWriteHwRgb (s : State) (vram : Mem) (x y : Int) (rgb : UInt32) : Mem :=
  if x < 0 ∨ x ≥ s.width ∨ y < 0 ∨ y ≥ s.height then vram
  else storeBytes vram (s.presentAddr + y.toNat * s.pitch + x.toNat * s.depth) (hwWrite s.bpp rgb)

def copyRow (s : State) (vram : Mem) (addr x y n : Nat) : Mem :=
  storeBytes vram addr ((List.range n).flatMap fun col => wordBytes (s.surface (y * s.width + x + col)))

def writeRow (s : State) (vram : Mem) (x y n : Nat) : Mem :=
  n.fold (fun col _ vram =>
    fbWriteHwRgb s vram (x + col : Nat) y (s.surface (y * s.width + (x + col)))) vram

/-- A rectangle of the surface written to the page at `page`, by scanlines or by pixels. -/
def presentRect (s : State) (vram : Mem) (page x y w h : Nat) : Mem :=
  if s.bpp = 32 then
    h.fold (fun row _ vram =>
      copyRow s vram (page + (y + row) * s.pitch + x * 4) x (y + row) w) vram
  else
    let s := { s with presentAddr := page }
    h.fold (fun row _ vram => writeRow s vram x (y + row) w) vram

def initPages (s : State) (vram : Mem) : Mem :=
  if s.bpp = 32 then
    s.height.fold (fun y _ vram =>
      let vram := copyRow s vram (y * s.pitch) 0 y s.width
      copyRow s vram (s.height * s.pitch + y * s.pitch) 0 y s.width) vram
  else
    Nat.fold 2 (fun page _ vram =>
      presentRect s vram (page * s.height * s.pitch) 0 0 s.width s.height) vram

def fbSwapBuffers (s : State) : State :=
  if ¬ s.dirty.valid then s
  else
    let x := s.dirty.x1.toNat
    let y := s.dirty.y1.toNat
    let updateW := (s.dirty.x2 - s.dirty.x1 + 1).toNat
    let updateH := (s.dirty.y2 - s.dirty.y1 + 1).toNat
    let targetPage := s.displayPage ^^^ 1
    let target := targetPage * s.height * s.pitch
    let oldPage := s.displayPage * s.height * s.pitch
    let s := { s with presentAddr := target }
    let s :=
      if s.pagesInitialized then s
      else { s with vram := initPages s s.vram, pagesInitialized := true }
    let s := { s with vram := presentRect s s.vram target x y updateW updateH }
    let s := { s with yOffset := targetPage * s.height, displayPage := targetPage }
    let s := { s with vram := presentRect s s.vram oldPage x y updateW updateH }
    fbResetDirty s

variable {s : State} {vram : Mem} {page x y w h : Nat}

theorem State.depth_length (s : State) (rgb : UInt32) : (hwBytes s.bpp rgb).length = s.depth :=
  hwBytes_length s.mode rgb

namespace State

def pixels (s : State) : Nat := s.height * s.width

/-- What a page should hold: the conversion of the surface, for a pixel of either page. -/
def shown (s : State) (i : Nat) : List UInt8 := hwBytes s.bpp (s.surface (i % s.pixels))

def onPage (s : State) (page : Nat) (K : Set Nat) : Set Nat :=
  {i | ∃ k ∈ K, i = page * s.pixels + k}

end State

theorem page_addr (s : State) (page x y : Nat) :
    page * s.height * s.pitch + y * s.pitch + x * s.depth =
      (page * s.pixels + (y * s.width + x)) * s.depth := by
  rw [State.pitch, State.pixels]
  ring

theorem shown_cell (s : State) (page : Nat) {k : Nat} (hk : k < s.pixels) :
    s.shown (page * s.pixels + k) = hwBytes s.bpp (s.surface k) := by
  rw [State.shown, Nat.add_comm, Nat.add_mul_mod_self_right, Nat.mod_eq_of_lt hk]

theorem copyRow_paints (vram : Mem) (page : Nat) (hbpp : s.bpp = 32) (hx : x + w ≤ s.width)
    (hy : y < s.height) :
    Paints (Set.Ico (page * s.pixels + (y * s.width + x)) (page * s.pixels + (y * s.width + x) + w))
      s.shown (pixelAt s.depth vram)
      (pixelAt s.depth (copyRow s vram (page * s.height * s.pitch + y * s.pitch + x * 4) x y w)) := by
  have hdepth : s.depth = 4 := by rw [State.depth, hbpp]
  have haddr := page_addr s page x y
  rw [hdepth] at haddr ⊢
  rw [copyRow, haddr]
  refine storeBytes_flatMap_paints (fun _ => rfl) fun col hcol => ?_
  rw [Nat.add_assoc, shown_cell, hwBytes, if_pos hbpp]
  rw [State.pixels, Nat.add_assoc]
  exact cell_lt (by omega) hy

theorem fbWriteHwRgb_paints (hbpp : s.bpp ≠ 32) (hpage : s.presentAddr = page * s.height * s.pitch)
    (hx : x < s.width) (hy : y < s.height) :
    Paints {page * s.pixels + (y * s.width + x)} s.shown (pixelAt s.depth vram)
      (pixelAt s.depth (fbWriteHwRgb s vram x y (s.surface (y * s.width + x)))) := by
  have hcell := shown_cell s page (k := y * s.width + x) (cell_lt hx hy)
  rw [fbWriteHwRgb, if_neg (by omega), Int.toNat_natCast, Int.toNat_natCast, hpage, page_addr]
  have hbytes : hwBytes s.bpp (s.surface (y * s.width + x)) =
      hwWrite s.bpp (s.surface (y * s.width + x)) := if_neg hbpp
  rw [hbytes] at hcell
  refine storeBytes_paints ?_ hcell
  rw [← hbytes, s.depth_length]

theorem writeRow_paints (vram : Mem) (page : Nat) (hbpp : s.bpp ≠ 32)
    (hpage : s.presentAddr = page * s.height * s.pitch) (hx : x + w ≤ s.width) (hy : y < s.height) :
    Paints (Set.Ico (page * s.pixels + (y * s.width + x)) (page * s.pixels + (y * s.width + x) + w))
      s.shown (pixelAt s.depth vram) (pixelAt s.depth (writeRow s vram x y w)) := by
  have hpixel : ∀ col < w, ∀ vram : Mem,
      Paints {page * s.pixels + (y * s.width + (x + col))} s.shown (pixelAt s.depth vram)
        (pixelAt s.depth (fbWriteHwRgb s vram (x + col : Nat) y
          (s.surface (y * s.width + (x + col))))) :=
    fun col hcol vram => fbWriteHwRgb_paints hbpp hpage (by omega) hy
  refine (Paints.fold (pixelAt s.depth) hpixel vram).congr fun i => ?_
  constructor
  · rintro ⟨col, hcol, rfl⟩
    constructor <;> omega
  · rintro ⟨hlo, hhi⟩
    refine ⟨i - (page * s.pixels + (y * s.width + x)), by omega, ?_⟩
    rw [Set.mem_singleton_iff]
    omega

theorem mem_onPage_box (page i : Nat) (hx : x + w ≤ s.width) :
    (∃ row < h, i ∈ Set.Ico (page * s.pixels + ((y + row) * s.width + x))
      (page * s.pixels + ((y + row) * s.width + x) + w)) ↔
        i ∈ s.onPage page (box s.width ⟨x, w⟩ ⟨y, h⟩) := by
  constructor
  · rintro ⟨row, hrow, hlo, hhi⟩
    obtain ⟨k, rfl⟩ := Nat.exists_eq_add_of_le (Nat.le_trans (Nat.le_add_right _ _) hlo)
    exact ⟨k, (mem_rows_iff hx).mp ⟨row, hrow, by omega, by omega⟩, rfl⟩
  · rintro ⟨k, hk, rfl⟩
    obtain ⟨row, hrow, hlo, hhi⟩ := (mem_rows_iff hx).mpr hk
    exact ⟨row, hrow, by omega, by omega⟩

theorem presentRect_paints (vram : Mem) (page : Nat) (hx : x + w ≤ s.width)
    (hy : y + h ≤ s.height) :
    Paints (s.onPage page (box s.width ⟨x, w⟩ ⟨y, h⟩)) s.shown (pixelAt s.depth vram)
      (pixelAt s.depth (presentRect s vram (page * s.height * s.pitch) x y w h)) := by
  rw [presentRect]
  split
  · rename_i hbpp
    have hrow : ∀ row < h, ∀ vram : Mem, _ :=
      fun row hrow vram => copyRow_paints vram page hbpp hx (y := y + row) (by omega)
    exact (Paints.fold (pixelAt s.depth) hrow vram).congr fun i => mem_onPage_box page i hx
  · rename_i hbpp
    have hrow : ∀ row < h, ∀ vram : Mem, _ :=
      fun row hrow vram => writeRow_paints (s := { s with presentAddr := page * s.height * s.pitch })
        vram page hbpp rfl hx (y := y + row) (Nat.lt_of_lt_of_le (by omega) hy)
    exact (Paints.fold (pixelAt s.depth) hrow vram).congr fun i => mem_onPage_box page i hx

def State.all (s : State) : Set Nat := box s.width ⟨0, s.width⟩ ⟨0, s.height⟩

theorem mem_all {k : Nat} : k ∈ s.all ↔ k < s.pixels := by
  rw [State.all, State.pixels, mem_box, Span.mem_mk, Span.mem_mk,
    ← Nat.div_lt_iff_lt_mul s.width_pos]
  have hcol := col_lt s k
  generalize k % s.width = col at *
  generalize k / s.width = row at *
  omega

theorem mem_onPage_all (s : State) (page i : Nat) :
    (∃ y < s.height, i ∈ Set.Ico (page * s.pixels + (y * s.width + 0))
      (page * s.pixels + (y * s.width + 0) + s.width)) ↔ i ∈ s.onPage page s.all := by
  have h := mem_onPage_box (s := s) (x := 0) (y := 0) (w := s.width) (h := s.height) page i
    (by omega)
  simp only [Nat.zero_add] at h
  exact h

theorem initPages_paints (s : State) (vram : Mem) :
    Paints {i | ∃ page < 2, i ∈ s.onPage page s.all} s.shown (pixelAt s.depth vram)
      (pixelAt s.depth (initPages s vram)) := by
  rw [initPages]
  split
  · rename_i hbpp
    have hrow : ∀ page, ∀ y < s.height, ∀ vram : Mem,
        Paints (Set.Ico (page * s.pixels + (y * s.width + 0))
            (page * s.pixels + (y * s.width + 0) + s.width)) s.shown (pixelAt s.depth vram)
          (pixelAt s.depth (copyRow s vram (page * s.height * s.pitch + y * s.pitch) 0 y s.width)) :=
      fun page y hy vram => copyRow_paints vram page hbpp (by omega) hy
    have hboth : ∀ y < s.height, ∀ vram : Mem, _ := fun y hy vram =>
      (hrow 0 y hy vram).trans (hrow 1 y hy _)
    simp only [Nat.zero_mul, Nat.one_mul, Nat.zero_add] at hboth
    refine (Paints.fold (pixelAt s.depth) hboth vram).congr fun i => ?_
    have h0 := mem_onPage_all s 0 i
    have h1 := mem_onPage_all s 1 i
    simp only [Nat.zero_mul, Nat.one_mul, Nat.zero_add] at h0 h1
    constructor
    · rintro ⟨y, hy, hi | hi⟩
      · exact ⟨0, by decide, h0.mp ⟨y, hy, hi⟩⟩
      · exact ⟨1, by decide, h1.mp ⟨y, hy, hi⟩⟩
    · rintro ⟨page, hpage, hi⟩
      match page, hpage with
      | 0, _ =>
        obtain ⟨y, hy, hi⟩ := h0.mpr hi
        exact ⟨y, hy, .inl hi⟩
      | 1, _ =>
        obtain ⟨y, hy, hi⟩ := h1.mpr hi
        exact ⟨y, hy, .inr hi⟩
  · have hpage : ∀ page < 2, ∀ vram : Mem,
        Paints (s.onPage page s.all) s.shown (pixelAt s.depth vram)
          (pixelAt s.depth
            (presentRect s vram (page * s.height * s.pitch) 0 0 s.width s.height)) :=
      fun page _ vram => presentRect_paints (x := 0) (y := 0) vram page (by omega) (by omega)
    exact Paints.fold (pixelAt s.depth) hpage vram

theorem dirtyCells_eq (hvalid : s.dirty.valid = true) (hin : s.DirtyInside) :
    s.dirtyCells = box s.width
      ⟨s.dirty.x1.toNat, (s.dirty.x2 - s.dirty.x1 + 1).toNat⟩
      ⟨s.dirty.y1.toNat, (s.dirty.y2 - s.dirty.y1 + 1).toNat⟩ := by
  obtain ⟨hx, hy⟩ := hin hvalid
  ext k
  rw [mem_box, Span.mem_mk, Span.mem_mk, Int.toNat_of_nonneg hx.1, Int.toNat_of_nonneg hy.1,
    Int.toNat_of_nonneg (by omega), Int.toNat_of_nonneg (by omega)]
  constructor
  · rintro ⟨_, hcol, hrow⟩
    omega
  · intro hk
    exact ⟨hvalid, by omega, by omega⟩

/-- A swap with something to show: what becomes of the registers, and which pixels are written. -/
structure Swapped (s s' : State) : Prop where
  frame : s' = { fbResetDirty s with
    vram := s'.vram, presentAddr := s'.presentAddr, pagesInitialized := true,
    displayPage := s.displayPage ^^^ 1, yOffset := (s.displayPage ^^^ 1) * s.height }
  pages : ∃ K, Paints K s.shown (pixelAt s.depth s.vram) (pixelAt s.depth s'.vram) ∧
    (∀ i ∈ s.onPage s.displayPage s.dirtyCells, i ∈ K) ∧
    (∀ i ∈ s.onPage (s.displayPage ^^^ 1) s.dirtyCells, i ∈ K) ∧
    (s.pagesInitialized = false → ∀ page < 2, ∀ i ∈ s.onPage page s.all, i ∈ K)

theorem presentRect_congr {s' : State} (hmode : s'.mode = s.mode) (hsurface : s'.surface = s.surface)
    (vram : Mem) (page x y w h : Nat) :
    presentRect s' vram page x y w h = presentRect s vram page x y w h := by
  cases s
  cases s'
  subst hmode hsurface
  rfl

theorem fbSwapBuffers_swapped (hvalid : s.dirty.valid = true) (hin : s.DirtyInside) :
    Swapped s (fbSwapBuffers s) := by
  obtain ⟨hx, hy⟩ := hin hvalid
  have hrect : ∀ (vram : Mem) (page : Nat) {s' : State}, s'.mode = s.mode → s'.surface = s.surface →
      Paints (s.onPage page s.dirtyCells) s.shown (pixelAt s.depth vram)
        (pixelAt s.depth (presentRect s' vram (page * s.height * s.pitch) s.dirty.x1.toNat
          s.dirty.y1.toNat (s.dirty.x2 - s.dirty.x1 + 1).toNat
          (s.dirty.y2 - s.dirty.y1 + 1).toNat)) := by
    intro vram page s' hmode hsurface
    rw [dirtyCells_eq hvalid hin, presentRect_congr hmode hsurface]
    exact presentRect_paints vram page (by omega) (by omega)
  rw [fbSwapBuffers, if_neg (not_not.mpr hvalid)]
  by_cases hpages : s.pagesInitialized = true
  · simp only [hpages, if_true]
    refine ⟨?_, _, (hrect _ _ rfl rfl).trans (hrect _ _ rfl rfl), fun i hi => .inr hi,
      fun i hi => .inl hi, fun hno => absurd (hno.symm.trans hpages) (by decide)⟩
    simp only [fbResetDirty, hpages, State.height, State.pitch, State.width, State.depth, State.bpp]
  · simp only [hpages]
    have hinit := initPages_paints s s.vram
    refine ⟨rfl, _, (hinit.trans (hrect _ _ rfl rfl)).trans (hrect _ _ rfl rfl), fun i hi => .inr hi,
      fun i hi => .inl (.inr hi), fun _ page hpage i hi => .inl (.inl ⟨page, hpage, hi⟩)⟩

structure Presents (s : State) : Prop where
  inside : s.DirtyInside
  page : s.displayPage < 2
  scanout : s.yOffset = s.displayPage * s.height
  pending : s.pagesInitialized = false → s.dirty.valid = true
  agree : s.pagesInitialized = true → ∀ page < 2, ∀ k < s.pixels, k ∉ s.dirtyCells →
    pixelAt s.depth s.vram (page * s.pixels + k) = hwBytes s.bpp (s.surface k)

theorem dirtyCells_nonempty (hin : s.DirtyInside) (hvalid : s.dirty.valid = true) :
    ∃ k, k ∈ s.dirtyCells := by
  obtain ⟨hx, hy⟩ := hin hvalid
  obtain ⟨hcol, hrow⟩ := cell_eq (s := s) (x := s.dirty.x1) (y := s.dirty.y1) (by omega) (by omega)
    (by omega)
  refine ⟨(s.dirty.y1 * s.width + s.dirty.x1).toNat, hvalid, ?_⟩
  rw [hcol, hrow]
  omega

theorem Presents.touches {K : Set Nat} {s' : State} (h : Presents s) (ht : Touches K s s') :
    Presents s' where
  inside := ht.inside h.inside
  page := by
    rw [ht.frame]
    exact h.page
  scanout := by
    rw [ht.frame]
    exact h.scanout
  pending hno := by
    rw [ht.frame] at hno
    obtain ⟨k, hk⟩ := dirtyCells_nonempty h.inside (h.pending hno)
    exact (ht.kept k hk).1
  agree hyes page hpage k hk hclean := by
    have hsurface := ht.surface k fun hK => hclean (ht.marked k hK)
    have hold := h.agree (by rw [ht.frame] at hyes; exact hyes) page hpage k
      (by rw [ht.frame] at hk; exact hk) fun hdirty => hclean (ht.kept k hdirty)
    rw [hsurface]
    rw [ht.frame]
    exact hold

theorem page_cases {page display : Nat} (hpage : page < 2) (hdisplay : display < 2) :
    page = display ∨ page = display ^^^ 1 := by
  interval_cases page <;> interval_cases display <;> decide

theorem Presents.swap (h : Presents s) :
    let t := fbSwapBuffers s
    Presents t ∧ t.pagesInitialized = true ∧ ∀ page < 2, ∀ k < t.pixels,
      pixelAt t.depth t.vram (page * t.pixels + k) = hwBytes t.bpp (t.surface k) := by
  by_cases hvalid : s.dirty.valid = true
  · obtain ⟨hframe, K, hpaints, hold, htarget, hinit⟩ := fbSwapBuffers_swapped hvalid h.inside
    generalize fbSwapBuffers s = t at *
    have hshows : ∀ page < 2, ∀ k < s.pixels,
        pixelAt s.depth t.vram (page * s.pixels + k) = hwBytes s.bpp (s.surface k) := by
      intro page hpage k hk
      by_cases hK : page * s.pixels + k ∈ K
      · rw [hpaints.on _ hK, shown_cell s page hk]
      · have hclean : k ∉ s.dirtyCells := by
          intro hd
          rcases page_cases hpage h.page with rfl | rfl
          · exact hK (hold _ ⟨k, hd, rfl⟩)
          · exact hK (htarget _ ⟨k, hd, rfl⟩)
        have hyes : s.pagesInitialized = true := by
          by_contra hno
          exact hK (hinit (Bool.eq_false_of_not_eq_true hno) page hpage _ ⟨k, mem_all.mpr hk, rfl⟩)
        rw [hpaints.off _ hK, h.agree hyes page hpage k hk hclean]
    rw [hframe]
    refine ⟨⟨fun hno => absurd hno (by simp [fbResetDirty]), ?_, rfl, nofun, ?_⟩, rfl, hshows⟩
    · exact Nat.xor_lt_two_pow (n := 1) h.page (by decide)
    · exact fun _ page hpage k hk _ => hshows page hpage k hk
  · have hinit : s.pagesInitialized = true := by
      by_contra hno
      exact hvalid (h.pending (Bool.eq_false_of_not_eq_true hno))
    rw [fbSwapBuffers, if_pos hvalid]
    exact ⟨h, hinit, fun page hpage k hk => h.agree hinit page hpage k hk fun hd => hvalid hd.1⟩

/-! ## Sequences of calls -/

inductive Call where
  | draw (op : Draw)
  | fbClearScreen (color : UInt8)
  | fbSetClipRect (x y w h : Int)
  | fbResetClipRect
  | fbSwapBuffers

def step (s : State) : Call → State
  | .draw op => draw s op
  | .fbClearScreen color => fbClearScreen s color
  | .fbSetClipRect x y w h => fbSetClipRect s x y w h
  | .fbResetClipRect => fbResetClipRect s
  | .fbSwapBuffers => fbSwapBuffers s

def run (s : State) (calls : List Call) : State := calls.foldl step s

theorem screen_marked (s : State) : (fbMarkDirty s 0 0 s.width s.height).dirty.valid = true := by
  have hcell : 0 ∈ s.area 0 0 s.width s.height := by
    obtain ⟨hw, hh⟩ : 0 < s.width ∧ 0 < s.height := fbModes_size _ s.mode.2
    rw [mem_area, Nat.zero_mod, Nat.zero_div, Span.mem_mk, Span.mem_mk]
    omega
  exact ((mem_dirtyCells_fbMarkDirty s 0 0 s.width s.height).1 0 hcell).1

theorem modeSet_presents (clip : Clip) (vram : Mem) (mode : Mode) (surface : Nat → UInt32) :
    let s := modeSet clip vram mode surface
    Presents (fbMarkDirty (fbResetDirty s) 0 0 s.width s.height) := by
  let s := fbResetDirty (modeSet clip vram mode surface)
  have hmarked : (fbMarkDirty s 0 0 s.width s.height).dirty.valid = true := screen_marked s
  have hinside := dirtyInside_fbMarkDirty (s := s) nofun 0 0 s.width s.height
  obtain ⟨d, hd⟩ := fbMarkDirty_eq s 0 0 s.width s.height
  rw [hd] at hmarked hinside
  change Presents (fbMarkDirty s 0 0 s.width s.height)
  rw [hd]
  exact ⟨hinside, Nat.two_pos, (Nat.zero_mul _).symm, fun _ => hmarked, nofun⟩

theorem fbTryBgaMode_presents {bga : Bga} {clip : Clip} {mode : Mode}
    (hs : fbTryBgaMode bga clip vram mode = some s) : Presents s := by
  simp only [fbTryBgaMode] at hs
  split at hs
  · cases hs
  split at hs
  · cases hs
  split at hs
  · cases hs
  split at hs
  · cases hs
  · cases hs
    exact modeSet_presents clip vram mode _

theorem step_presents (h : Presents s) (call : Call) : Presents (step s call) := by
  cases call with
  | draw op =>
    obtain ⟨K, hK⟩ := draw_touches s op
    exact h.touches hK
  | fbClearScreen color => exact h.touches (fbClearScreen_fills s color).touches
  | fbSetClipRect x y w h' => exact ⟨h.inside, h.page, h.scanout, h.pending, h.agree⟩
  | fbResetClipRect => exact ⟨h.inside, h.page, h.scanout, h.pending, h.agree⟩
  | fbSwapBuffers => exact h.swap.1

theorem run_presents (h : Presents s) (calls : List Call) : Presents (run s calls) := by
  induction calls generalizing s with
  | nil => exact h
  | cons call calls ih => exact ih (step_presents h call)

/-- The bytes scanned out for pixel `x`, `y` when `page` is on display. -/
def State.scanout (s : State) (page x y : Nat) : List UInt8 :=
  loadBytes s.vram ((page * s.height + y) * s.pitch + x * s.depth) s.depth

theorem scanout_eq (s : State) (page x y : Nat) :
    s.scanout page x y = pixelAt s.depth s.vram (page * s.pixels + (y * s.width + x)) := by
  rw [State.scanout, pixelAt, ← page_addr, Nat.add_mul]

/-- Whatever calls followed a mode set: pixels of initialised pages that differ from the surface are
inside the dirty rectangle, and a swap now leaves both pages equal to the surface. -/
theorem framebuffer_presents (bga : Bga) (clip : Clip) (vram : Mem) (mode : Mode) (s0 : State)
    (hs : fbTryBgaMode bga clip vram mode = some s0) (calls : List Call) :
    let s := run s0 calls
    let t := fbSwapBuffers s
    (s.pagesInitialized = true → ∀ page < 2, ∀ x < s.width, ∀ y < s.height,
      s.scanout page x y ≠ hwBytes s.bpp (s.surface (y * s.width + x)) →
        s.dirty.valid = true ∧ (s.dirty.x1 ≤ x ∧ x ≤ s.dirty.x2) ∧
          s.dirty.y1 ≤ y ∧ y ≤ s.dirty.y2) ∧
    (t.pagesInitialized = true ∧ t.displayPage < 2 ∧ t.yOffset = t.displayPage * t.height ∧
      ∀ page < 2, ∀ x < t.width, ∀ y < t.height,
        t.scanout page x y = hwBytes t.bpp (t.surface (y * t.width + x))) := by
  have hp := run_presents (fbTryBgaMode_presents hs) calls
  generalize run s0 calls = s at *
  obtain ⟨ht, hinit, hshows⟩ := hp.swap
  refine ⟨?_, hinit, ht.page, ht.scanout, ?_⟩
  · intro hyes page hpage x hx y hy hdiff
    rw [scanout_eq] at hdiff
    by_contra hout
    refine hdiff (hp.agree hyes page hpage _ (cell_lt hx hy) ?_)
    rintro ⟨hvalid, hcol, hrow⟩
    rw [cell_col hx] at hcol
    rw [cell_row hx] at hrow
    exact hout ⟨hvalid, hcol, hrow⟩
  · intro page hpage x hx y hy
    rw [scanout_eq]
    exact hshows page hpage _ (cell_lt hx hy)

theorem framebuffer_presents_started :
    ∃ s0, fbTryBgaMode ⟨0xB0C5, 0xE0000000, 800, 600, 32, some fun _ => 0⟩ ⟨false, 0, 0, 0, 0⟩
        (fun _ => 0) ⟨⟨800, 600, 32⟩, by decide⟩ = some s0 ∧
      let t := fbSwapBuffers (run s0 [.fbSwapBuffers, .draw (.fbPutPixelRGB 5 7 0xFF0000)])
      ∀ page < 2, ∀ x < t.width, ∀ y < t.height,
        t.scanout page x y = hwBytes t.bpp (t.surface (y * t.width + x)) :=
  ⟨_, rfl, (framebuffer_presents ⟨0xB0C5, 0xE0000000, 800, 600, 32, some fun _ => 0⟩
    ⟨false, 0, 0, 0, 0⟩ (fun _ => 0) ⟨⟨800, 600, 32⟩, by decide⟩ _ rfl
    [.fbSwapBuffers, .draw (.fbPutPixelRGB 5 7 0xFF0000)]).2.2.2.2⟩

/-! ## Layers -/

/-- A rectangle that is filled under a clip rectangle, or under none. -/
structure Layer where
  clip : Option (Span × Span)
  xs : Span
  ys : Span
  rgb : UInt32

namespace Layer

variable {s : State} {k : Nat} {x y : Int}

def calls (l : Layer) : List Call :=
  [match l.clip with
    | none => .fbResetClipRect
    | some (xs, ys) => .fbSetClipRect xs.start ys.start xs.len ys.len,
   .draw (.fbFillRectRGB l.xs.start l.ys.start l.xs.len l.ys.len l.rgb)]

def Covers (l : Layer) (x y : Int) : Prop :=
  (x ∈ l.xs ∧ y ∈ l.ys) ∧ ∀ c ∈ l.clip, x ∈ c.1 ∧ y ∈ c.2

instance (l : Layer) (x y : Int) : Decidable (l.Covers x y) := inferInstanceAs (Decidable (_ ∧ _))

theorem run_calls (l : Layer) (hk : k ∈ s.screen) (hx : (k % s.width : Nat) = x)
    (hy : (k / s.width : Nat) = y) :
    (run s l.calls).mode = s.mode ∧
      (run s l.calls).surface k = if l.Covers x y then l.rgb else s.surface k := by
  have hfill : ∀ s' : State, s'.mode = s.mode → s'.surface = s.surface →
      (k ∈ s'.clipped ↔ ∀ c ∈ l.clip, x ∈ c.1 ∧ y ∈ c.2) →
      let t := fbFillRectRGB s' l.xs.start l.ys.start l.xs.len l.ys.len l.rgb
      t.mode = s.mode ∧ t.surface k = if l.Covers x y then l.rgb else s.surface k := by
    intro s' hmode hsurface hclip
    have hfills := fillWith_fills s' l.xs.start l.ys.start l.xs.len l.ys.len l.rgb
      (fbRgbToIndex l.rgb)
    have hmem : k ∈ s'.area l.xs.start l.ys.start l.xs.len l.ys.len ∩ s'.clipped ↔ l.Covers x y := by
      rw [Set.mem_inter_iff, hclip, mem_area, State.width, State.height, hmode, ← hx, ← hy]
      exact and_congr_left' (and_iff_left hk)
    refine ⟨hfills.touches.mode.trans hmode, ?_⟩
    by_cases hcovers : l.Covers x y
    · rw [if_pos hcovers]
      exact hfills.surface.on k (hmem.mpr hcovers)
    · rw [if_neg hcovers, ← hsurface]
      exact hfills.surface.off k (mt hmem.mp hcovers)
  obtain ⟨clip, xs, ys, rgb⟩ := l
  cases clip with
  | none => exact hfill (fbResetClipRect s) rfl rfl (iff_of_true (fun h => by cases h) fun _ h => by cases h)
  | some c =>
    refine hfill (fbSetClipRect s c.1.start c.2.start c.1.len c.2.len) rfl rfl ?_
    rw [fbSetClipRect_clipped hk, mem_box, hx, hy]
    exact ⟨fun h _ hc => Option.some.inj hc ▸ h, fun h => h c rfl⟩

theorem run_layers (layers : List Layer) (hk : k ∈ s.screen) (hx : (k % s.width : Nat) = x)
    (hy : (k / s.width : Nat) = y) :
    (run s (layers.flatMap calls)).mode = s.mode ∧ (run s (layers.flatMap calls)).surface k =
      ((layers.reverse.find? (·.Covers x y)).map Layer.rgb).getD (s.surface k) := by
  induction layers generalizing s with
  | nil => exact ⟨rfl, rfl⟩
  | cons l layers ih =>
    obtain ⟨hmode, hsurface⟩ := run_calls l hk hx hy
    rw [State.width] at hx hy
    obtain ⟨ihmode, ihsurface⟩ := ih (s := run s l.calls)
      (by simpa only [State.screen, State.width, State.height, hmode] using hk)
      (by rwa [State.width, hmode]) (by rwa [State.width, hmode])
    have hrun : run s ((l :: layers).flatMap calls) = run (run s l.calls) (layers.flatMap calls) := by
      rw [List.flatMap_cons, run, List.foldl_append, run, run]
    rw [hrun, ihmode, ihsurface, List.reverse_cons, List.find?_append]
    refine ⟨hmode, ?_⟩
    cases layers.reverse.find? (·.Covers x y) with
    | some top => rfl
    | none =>
      rw [Option.none_or, List.find?_singleton, hsurface]
      by_cases hcovers : l.Covers x y
      · simp only [hcovers, decide_true, if_true]
        rfl
      · simp only [hcovers, decide_false, if_false, Bool.false_eq_true]

end Layer

theorem fbSwapBuffers_keeps {s : State} (hin : s.DirtyInside) :
    (fbSwapBuffers s).mode = s.mode ∧ (fbSwapBuffers s).surface = s.surface := by
  by_cases hvalid : s.dirty.valid = true
  · rw [(fbSwapBuffers_swapped hvalid hin).frame]
    exact ⟨rfl, rfl⟩
  · rw [fbSwapBuffers, if_pos hvalid]
    exact ⟨rfl, rfl⟩

end DiscouNT.Fb
