import DiscouNT.Fb.Draw

/-!
# Fb.Clip

The clip rectangle. `FbPutPixel`, the two fills and the functions made of them stay inside it;
`FbPutPixelRGB` and `FbBlitRGB` never look at it. So a sequence of drawing functions leaves the
surfaces outside the clip rectangle alone exactly when each call of those two writes there what is
there already (`clip_law_iff`).
-/

namespace DiscouNT.Fb

open Lib List

def State.outside (s : State) (x y w h : Int) : Set Nat :=
  {k | k ∈ s.screen ∧ k ∉ box s.width ⟨x, w⟩ ⟨y, h⟩}

def ClipLaw (s : State) (x y w h : Int) (ops : List Draw) : Prop :=
  ∀ done, done <+: ops →
    let t := done.foldl draw (fbSetClipRect s x y w h)
    ∀ k ∈ s.outside x y w h, t.surface k = s.surface k ∧ t.shadow k = s.shadow k

/-- Where the call covers a pixel of `O`, it would write what the surfaces of `s` hold there. Only
the two functions that ignore the clip rectangle are asked. -/
def Harmless (s : State) (O : Set Nat) : Draw → Prop
  | .fbPutPixelRGB x y rgb =>
    ∀ k ∈ s.area x y 1 1, k ∈ O → s.surface k = rgb ∧ s.shadow k = fbRgbToIndex rgb
  | .fbBlitRGB x y w h (some src) srcStride =>
    ¬ (w ≤ 0 ∨ h ≤ 0 ∨ srcStride < w) →
      ∀ k ∈ s.area x y w h, k ∈ O → s.surface k = blitWord s x y src srcStride k
  | _ => True

variable {s s₁ t : State} {x y w h : Int} {O : Set Nat}

theorem fbSetClipRect_clipped {k : Nat} (hk : k ∈ s.screen) :
    k ∈ (fbSetClipRect s x y w h).clipped ↔ k ∈ box s.width ⟨x, w⟩ ⟨y, h⟩ := by
  have hcol := col_lt s k
  rw [mem_screen] at hk
  rw [mem_box, Span.mem_mk, Span.mem_mk]
  let c := (fbSetClipRect s x y w h).clip
  have hmem : k ∈ (fbSetClipRect s x y w h).clipped ↔
      (c.left ≤ (k % s.width : Nat) ∧ ((k % s.width : Nat) : Int) < c.right) ∧
        c.top ≤ (k / s.width : Nat) ∧ ((k / s.width : Nat) : Int) < c.bottom :=
    ⟨fun hin => hin rfl, fun hin _ => hin⟩
  have hleft : c.left = max 0 x := by
    change (if x < 0 then 0 else x) = _
    omega
  have htop : c.top = max 0 y := by
    change (if y < 0 then 0 else y) = _
    omega
  have hright : c.right = max c.left (min s.width (x + w)) := by
    change (if (if x + w > s.width then (s.width : Int) else x + w) < c.left then c.left
      else if x + w > s.width then (s.width : Int) else x + w) = _
    omega
  have hbottom : c.bottom = max c.top (min s.height (y + h)) := by
    change (if (if y + h > s.height then (s.height : Int) else y + h) < c.top then c.top
      else if y + h > s.height then (s.height : Int) else y + h) = _
    omega
  rw [hmem, hright, hbottom, hleft, htop]
  generalize k % s.width = col at *
  generalize k / s.width = row at *
  omega

/-- `t` is a state of the sequence whose surfaces on `O` are those at its start. -/
structure Agrees (s₁ : State) (O : Set Nat) (t : State) : Prop where
  mode : t.mode = s₁.mode
  clip : t.clip = s₁.clip
  surface : ∀ k ∈ O, t.surface k = s₁.surface k
  shadow : ∀ k ∈ O, t.shadow k = s₁.shadow k

theorem Agrees.refl (s₁ : State) (O : Set Nat) : Agrees s₁ O s₁ :=
  ⟨rfl, rfl, fun _ _ => rfl, fun _ _ => rfl⟩

theorem Agrees.step_iff {K : Set Nat} {t' : State} (h : Agrees s₁ O t) (ht : Touches K t t') :
    Agrees s₁ O t' ↔
      (∀ k ∈ O, t'.surface k = t.surface k) ∧ ∀ k ∈ O, t'.shadow k = t.shadow k := by
  constructor
  · intro h'
    exact ⟨fun k hk => (h'.surface k hk).trans (h.surface k hk).symm,
      fun k hk => (h'.shadow k hk).trans (h.shadow k hk).symm⟩
  · rintro ⟨hsurface, hshadow⟩
    exact ⟨ht.mode.trans h.mode, ht.clip.trans h.clip,
      fun k hk => (hsurface k hk).trans (h.surface k hk),
      fun k hk => (hshadow k hk).trans (h.shadow k hk)⟩

theorem Agrees.confined {t' : State} (h : Agrees s₁ O t) (hO : ∀ k ∈ O, k ∉ s₁.clipped)
    (ht : Confined t t') : Agrees s₁ O t' := by
  obtain ⟨K, hK, ht⟩ := ht
  have hclipped : t.clipped = s₁.clipped := by
    rw [State.clipped, State.clipped, h.clip, State.width, State.width, h.mode]
  rw [hclipped] at hK
  exact (h.step_iff ht).mpr ⟨fun k hk => ht.surface k fun hkK => hO k hk (hK hkK),
    fun k hk => ht.shadow k fun hkK => hO k hk (hK hkK)⟩

theorem Agrees.area (h : Agrees s₁ O t) (x y w h' : Int) : t.area x y w h' = s₁.area x y w h' := by
  simp only [State.area, State.screen, State.width, State.height, h.mode]

theorem Agrees.blitWord (h : Agrees s₁ O t) (x y : Int) (src : Nat → UInt32) (srcStride : Int) :
    blitWord t x y src srcStride = Fb.blitWord s₁ x y src srcStride := by
  funext k
  simp only [Fb.blitWord, State.width, h.mode]

theorem draw_agrees_iff (h : Agrees s₁ O t) (hO : ∀ k ∈ O, k ∉ s₁.clipped) (op : Draw) :
    Agrees s₁ O (draw t op) ↔ Harmless s₁ O op := by
  cases op with
  | fbPutPixel x y color =>
    exact iff_of_true (h.confined hO (fbPutPixel_confined t x y color)) trivial
  | fbFillRect x y w h' color =>
    exact iff_of_true (h.confined hO (fillWith_confined t x y w h' _ _)) trivial
  | fbFillRectRGB x y w h' rgb =>
    exact iff_of_true (h.confined hO (fillWith_confined t x y w h' _ _)) trivial
  | fbDrawRect x y w h' color =>
    exact iff_of_true (h.confined hO (fbDrawRect_confined t x y w h' color)) trivial
  | fbDrawChar x y c fg bg =>
    exact iff_of_true (h.confined hO (fbDrawChar_confined t x y c fg bg)) trivial
  | fbDrawString x y str fg bg =>
    exact iff_of_true (h.confined hO (fbDrawString_confined t x y str fg bg)) trivial
  | fbPutPixelRGB x y rgb =>
    have hfills := fbPutPixelRGB_fills t x y rgb
    rw [draw, h.step_iff hfills.touches, hfills.surface.same_iff, hfills.shadow.same_iff, h.area,
      Harmless]
    constructor
    · rintro ⟨hsurface, hshadow⟩ k hk hkO
      rw [← h.surface k hkO, ← h.shadow k hkO]
      exact ⟨hsurface k hk hkO, hshadow k hk hkO⟩
    · intro hthere
      constructor
      · intro k hk hkO
        rw [h.surface k hkO]
        exact (hthere k hk hkO).1
      · intro k hk hkO
        rw [h.shadow k hkO]
        exact (hthere k hk hkO).2
  | fbBlitRGB x y w h' src srcStride =>
    cases src with
    | none => exact iff_of_true h trivial
    | some src =>
      rw [draw, Harmless]
      by_cases hnone : w ≤ 0 ∨ h' ≤ 0 ∨ srcStride < w
      · rw [fbBlitRGB_nothing (.inr hnone)]
        exact iff_of_true h fun hsome => absurd hnone hsome
      · obtain ⟨surface, hpaints, heq⟩ := fbBlitRGB_paints t x y src hnone
        have ht : Touches (t.area x y w h') t (fbMarkDirty { t with surface } x y w h') :=
          .mark hpaints.off (fun _ _ => rfl) fun _ hk => hk
        rw [heq, h.step_iff ht, fbMarkDirty_surface, fbMarkDirty_shadow, hpaints.same_iff, h.area,
          h.blitWord]
        constructor
        · rintro ⟨hsurface, _⟩ _ k hk hkO
          rw [← h.surface k hkO]
          exact hsurface k hk hkO
        · intro hthere
          refine ⟨fun k hk hkO => ?_, fun _ _ => rfl⟩
          rw [h.surface k hkO]
          exact hthere hnone k hk hkO

theorem draws_frame (ops : List Draw) :
    ∀ s : State, (ops.foldl draw s).mode = s.mode ∧ (ops.foldl draw s).clip = s.clip := by
  induction ops with
  | nil => exact fun s => ⟨rfl, rfl⟩
  | cons op ops ih =>
    intro s
    obtain ⟨K, hK⟩ := draw_touches s op
    obtain ⟨hmode, hclip⟩ := ih (draw s op)
    exact ⟨hmode.trans hK.mode, hclip.trans hK.clip⟩

theorem run_agrees_iff (hO : ∀ k ∈ O, k ∉ s₁.clipped) (ops : List Draw) :
    ∀ t, Agrees s₁ O t →
      ((∀ done, done <+: ops → Agrees s₁ O (done.foldl draw t)) ↔ ∀ op ∈ ops, Harmless s₁ O op) := by
  induction ops with
  | nil =>
    intro t ht
    refine iff_of_true (fun done hdone => ?_) nofun
    rw [prefix_nil.mp hdone]
    exact ht
  | cons op ops ih =>
    intro t ht
    have hop := draw_agrees_iff ht hO op
    constructor
    · intro hall
      have hfirst := hall [op] ⟨ops, rfl⟩
      have hrest := (ih (draw t op) hfirst).mp fun done hdone =>
        hall (op :: done) (prefix_cons_inj op |>.mpr hdone)
      exact forall_mem_cons.mpr ⟨hop.mp hfirst, hrest⟩
    · intro hall done hdone
      obtain ⟨hfirst, hrest⟩ := forall_mem_cons.mp hall
      cases done with
      | nil => exact ht
      | cons op' done =>
        obtain ⟨rfl, hprefix⟩ := cons_prefix_cons.mp hdone
        exact (ih (draw t op') (hop.mpr hfirst)).mpr hrest done hprefix

end DiscouNT.Fb
