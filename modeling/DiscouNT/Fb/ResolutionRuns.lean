import Mathlib.Data.List.Induction
import DiscouNT.Fb.Resolution

/-!
# Fb.ResolutionRuns

Runs of `FbSetResolution` from what `FbInit` leaves. One call keeps the surfaces as large as the
screen, and everything as it was where it returns 0, exactly when it `Meets` the adapter and the
heap (`fbSetResolution_keeps_iff`); a run does so exactly when all its calls do.
-/

namespace DiscouNT.Fb

open Lib List

namespace Globals

variable {g g' : Globals} {c : Call}

def Holds (g : Globals) : Prop :=
  ∃ shadow surface, g.shadow = some shadow ∧ g.surface = some surface ∧
    g.width * g.height ≤ shadow.count ∧ g.width * g.height ≤ surface.count

def Sound (g : Globals) : Prop := g.useFramebuffer = true → g.Holds

structure Same (g g' : Globals) : Prop where
  width : g'.width = g.width
  height : g'.height = g.height
  bpp : g'.bpp = g.bpp
  pitch : g'.pitch = g.pitch
  shadow : g'.shadow = g.shadow
  surface : g'.surface = g.surface

theorem Same.refl (g : Globals) : Same g g := ⟨rfl, rfl, rfl, rfl, rfl, rfl⟩

def after (g : Globals) (calls : List Call) : Globals :=
  calls.foldl (fun g c => (g.fbSetResolution c).2) g

/-- After every call the surfaces hold the screen, and a call that returned 0 changed nothing. -/
def ResolutionLaw (g : Globals) (calls : List Call) : Prop :=
  (∀ done, done <+: calls → (g.after done).Sound) ∧
    ∀ done c, done ++ [c] <+: calls → ((g.after done).fbSetResolution c).1 = false →
      Same (g.after done) (g.after (done ++ [c]))

def Programs (g : Globals) (c : Call) : Prop :=
  g.useFramebuffer = true ∧ c.valid = true ∧
    bgaId0 ≤ c.reply.id.toNat ∧ c.reply.id.toNat ≤ bgaId5 ∧ 0x100000 ≤ c.reply.lfbPhys

def Call.ReadsBack (c : Call) : Prop :=
  c.reply.xres = toU16 c.width ∧ c.reply.yres = toU16 c.height ∧
    c.reply.bpp.toNat % 256 = (toU16 c.bpp).toNat

/-- If the adapter is programmed, it takes the mode and there is memory for both surfaces, or it
does not take the mode and reads back the one in force. -/
def Meets (g : Globals) (c : Call) : Prop :=
  g.Programs c →
    (c.ReadsBack → c.reply.shadow.isSome = true ∧ c.reply.surface.isSome = true) ∧
    (¬ c.ReadsBack →
      c.reply.xres.toNat = g.width ∧ c.reply.yres.toNat = g.height ∧
        c.reply.bpp.toNat % 256 = g.bpp)

theorem fbMarkDirty_eq (g : Globals) (x y w h : Int) :
    ∃ d, g.fbMarkDirty x y w h = { g with dirty := d } := by
  simp only [fbMarkDirty]
  split
  · exact ⟨_, rfl⟩
  split
  · exact ⟨_, rfl⟩
  split
  · exact ⟨_, rfl⟩
  · exact ⟨_, rfl⟩

/-- On the screen `g` has, with surfaces of just its size. -/
structure Fitted (g g' : Globals) : Prop where
  inUse : g'.useFramebuffer = true
  width : g'.width = g.width
  height : g'.height = g.height
  shadow : ∃ shadow, g'.shadow = some shadow ∧ shadow.count = g.pixels
  surface : ∃ surface, g'.surface = some surface ∧ surface.count = g.pixels

theorem activate_none {shadow : Option (Nat → UInt8)} {surface : Option (Nat → UInt32)}
    (h : ¬ (shadow.isSome = true ∧ surface.isSome = true)) :
    g.activate shadow surface = (false, { g with shadow := none, surface := none }) := by
  cases shadow with
  | none => rfl
  | some shadow =>
    cases surface with
    | none => rfl
    | some surface => exact absurd ⟨rfl, rfl⟩ h

theorem activate_some {shadow : Option (Nat → UInt8)} {surface : Option (Nat → UInt32)}
    (h : shadow.isSome = true ∧ surface.isSome = true) :
    ∃ g', g.activate shadow surface = (true, g') ∧ Fitted g g' := by
  obtain ⟨shadow, rfl⟩ := Option.isSome_iff_exists.mp h.1
  obtain ⟨surface, rfl⟩ := Option.isSome_iff_exists.mp h.2
  simp only [activate, fbAllocSurfaces, Prod.mk.injEq, true_and, exists_eq_left']
  obtain ⟨d, hd⟩ := fbMarkDirty_eq
    { g with
      useFramebuffer := true
      shadow := some ((Block.mk g.pixels shadow).fill g.pixels 0)
      surface := some ⟨g.pixels, surface⟩
      dirty := ⟨false, 0, 0, 0, 0⟩ } 0 0 g.width g.height
  refine ⟨?_, ?_, ?_, ?_, ?_⟩
  · exact congrArg useFramebuffer hd
  · exact (congrArg width hd :)
  · exact (congrArg height hd :)
  · exact ⟨_, congrArg Globals.shadow hd, rfl⟩
  · exact ⟨_, congrArg Globals.surface hd, rfl⟩

theorem Fitted.holds (h : Fitted g g') (hw : 0 ≤ g.width ∧ g.width < 2 ^ 16)
    (hh : 0 ≤ g.height ∧ g.height < 2 ^ 16) : g'.Holds := by
  have hlow : 0 ≤ g.width * g.height := Int.mul_nonneg hw.1 hh.1
  have hhigh : g.width * g.height ≤ (2 ^ 16 - 1) * (2 ^ 16 - 1) :=
    Int.mul_le_mul (by omega) (by omega) hh.1 (by omega)
  have hpixels : (g.pixels : Int) = g.width * g.height := by
    rw [pixels, Int.emod_eq_of_lt hlow (by omega), Int.toNat_of_nonneg hlow]
  obtain ⟨shadow, hsh, hshadow⟩ := h.shadow
  obtain ⟨surface, hsu, hsurface⟩ := h.surface
  refine ⟨shadow, surface, hsh, hsu, ?_, ?_⟩
  · rw [h.width, h.height, hshadow, hpixels]
  · rw [h.width, h.height, hsurface, hpixels]

theorem Holds.fbSwapBuffers (h : g.Holds) : g.fbSwapBuffers.Holds := by
  rw [Globals.fbSwapBuffers]
  split
  · exact h
  split
  · exact h
  · exact h

theorem Holds.fbClearScreen (h : g.Holds) (color : UInt8) : (g.fbClearScreen color).Holds := by
  obtain ⟨shadow, surface, hsh, hsu, hshadow, hsurface⟩ := h
  simp only [Globals.fbClearScreen, hsh, hsu]
  split
  · obtain ⟨d, hd⟩ := fbMarkDirty_eq
      { g with
        shadow := some (shadow.fill g.pixels (color &&& 0x0F))
        surface := some (surface.fill g.pixels
          (vgaToRgb888.getD (color &&& 0x0F).toNat 0)) } 0 0 g.width g.height
    rw [hd]
    exact ⟨_, _, rfl, rfl, hshadow, hsurface⟩
  · exact ⟨shadow, surface, hsh, hsu, hshadow, hsurface⟩

/-- How `fb_try_bga_mode` ends: before the adapter is programmed, with a mode that was not asked
for, without surfaces, or with everything in place. -/
theorem fbTryBgaMode_cases (g : Globals) (a : BgaReply) (width height bpp : UInt16) :
    let programs := bgaId0 ≤ a.id.toNat ∧ a.id.toNat ≤ bgaId5 ∧ 0x100000 ≤ a.lfbPhys
    let readsBack := a.xres = width ∧ a.yres = height ∧ a.bpp.toNat % 256 = bpp.toNat
    let memory := a.shadow.isSome = true ∧ a.surface.isSome = true
    (¬ programs ∧ g.fbTryBgaMode a width height bpp = (false, g)) ∨
      programs ∧
        ((¬ readsBack ∧ g.fbTryBgaMode a width height bpp = (false, g.readBack a)) ∨
          readsBack ∧
            ((¬ memory ∧ ∃ g', g.fbTryBgaMode a width height bpp = (false, g') ∧
                g'.useFramebuffer = g.useFramebuffer ∧ g'.shadow = none) ∨
              memory ∧ ∃ g', g.fbTryBgaMode a width height bpp = (true, g') ∧
                g'.useFramebuffer = true ∧ g'.Holds)) := by
  intro programs readsBack memory
  rw [fbTryBgaMode]
  split
  · rename_i hid
    exact .inl ⟨fun hp => by omega, rfl⟩
  split
  · rename_i hphys
    exact .inl ⟨fun hp => absurd hp.2.2 (UInt32.not_le.mpr hphys), rfl⟩
  rename_i hid hphys
  refine .inr ⟨⟨by omega, by omega, UInt32.not_lt.mp hphys⟩, ?_⟩
  simp only
  split
  · rename_i hmode
    refine .inl ⟨fun ⟨hx, hy, hb⟩ => ?_, rfl⟩
    rcases hmode with hne | hne | hne
    · exact hne (congrArg (fun v : UInt16 => (v.toNat : Int)) hx)
    · exact hne (congrArg (fun v : UInt16 => (v.toNat : Int)) hy)
    · exact hne hb
  · rename_i hmode
    rw [not_or, not_or, not_not, not_not, not_not] at hmode
    refine .inr ⟨⟨?_, ?_, hmode.2.2⟩, ?_⟩
    · exact UInt16.toNat_inj.mp (Int.ofNat_inj.mp hmode.1)
    · exact UInt16.toNat_inj.mp (Int.ofNat_inj.mp hmode.2.1)
    · by_cases hmem : memory
      · obtain ⟨g', hg', hfit⟩ := activate_some (g := _) hmem
        refine .inr ⟨hmem, g', hg', hfit.inUse, hfit.holds ?_ ?_⟩
        · have := a.xres.toNat_lt
          simp only [readBack]
          omega
        · have := a.yres.toNat_lt
          simp only [readBack]
          omega
      · exact .inl ⟨hmem, _, activate_none hmem, rfl, rfl⟩

def Keeps (g : Globals) (c : Call) : Prop :=
  (g.fbSetResolution c).2.Sound ∧ ((g.fbSetResolution c).1 = false → Same g (g.fbSetResolution c).2)

theorem fbSetResolution_of_not_programs (h : ¬ g.Programs c) : g.fbSetResolution c = (false, g) := by
  rw [fbSetResolution]
  split
  · rfl
  split
  · rfl
  rename_i hin hvalid
  obtain ⟨_, heq⟩ | ⟨hprograms, _⟩ :=
    fbTryBgaMode_cases g c.reply (toU16 c.width) (toU16 c.height) (toU16 c.bpp)
  · rw [heq]
  · refine absurd ⟨?_, ?_, hprograms⟩ h
    · exact Bool.not_eq_false _ ▸ hin
    · exact Bool.not_eq_false _ ▸ hvalid

theorem fbSetResolution_cases (g : Globals) (c : Call) :
    (¬ g.Programs c ∧ g.fbSetResolution c = (false, g)) ∨
      g.Programs c ∧
        ((¬ c.ReadsBack ∧ g.fbSetResolution c = (false, g.readBack c.reply)) ∨
          c.ReadsBack ∧
            ((¬ (c.reply.shadow.isSome = true ∧ c.reply.surface.isSome = true) ∧
                ∃ g', g.fbSetResolution c = (false, g') ∧ g'.useFramebuffer = true ∧
                  g'.shadow = none) ∨
              (c.reply.shadow.isSome = true ∧ c.reply.surface.isSome = true) ∧
                ∃ g', g.fbSetResolution c = (true, g') ∧ g'.Holds)) := by
  by_cases hp : g.Programs c
  · refine .inr ⟨hp, ?_⟩
    obtain ⟨hin, hvalid, hprograms⟩ := hp
    rw [fbSetResolution, if_neg (by rw [hin]; decide), if_neg (by rw [hvalid]; decide)]
    obtain ⟨hnot, _⟩ | ⟨_, ⟨hread, heq⟩ | ⟨hread, ⟨hmem, g', heq, hg', hsh⟩ | ⟨hmem, g', heq, _, hg'⟩⟩⟩ :=
      fbTryBgaMode_cases g c.reply (toU16 c.width) (toU16 c.height) (toU16 c.bpp)
    · exact absurd hprograms hnot
    · rw [heq]
      exact .inl ⟨hread, rfl⟩
    · rw [heq]
      exact .inr ⟨hread, .inl ⟨hmem, g', rfl, hg'.trans hin, hsh⟩⟩
    · rw [heq]
      exact .inr ⟨hread, .inr ⟨hmem, _, rfl, (hg'.fbClearScreen colorBlue).fbSwapBuffers⟩⟩
  · exact .inl ⟨hp, fbSetResolution_of_not_programs hp⟩

theorem fbSetResolution_keeps_iff (hg : g.Sound) : Keeps g c ↔ Meets g c := by
  rw [Keeps, Meets]
  obtain ⟨hp, heq⟩ | ⟨hp, ⟨hread, heq⟩ | ⟨hread, ⟨hmem, g', heq, hin, hsh⟩ | ⟨hmem, g', heq, hg'⟩⟩⟩ :=
    fbSetResolution_cases g c
  · rw [heq]
    exact iff_of_true ⟨hg, fun _ => .refl g⟩ fun hp' => absurd hp' hp
  · -- The geometry is the adapter's, whatever it was before.
    rw [heq]
    constructor
    · rintro ⟨_, hsame⟩ _
      obtain ⟨hw, hh, hb, _⟩ := hsame rfl
      exact ⟨fun h => absurd h hread, fun _ => ⟨hw, hh, hb⟩⟩
    · intro hmeets
      obtain ⟨hw, hh, hb⟩ := (hmeets hp).2 hread
      have hback : g.readBack c.reply = g := by
        rw [readBack, hw, hh, hb]
      rw [hback]
      exact ⟨hg, fun _ => .refl g⟩
  · -- The surfaces are gone and the framebuffer is still in use.
    rw [heq]
    refine iff_of_false (fun ⟨hsound, _⟩ => ?_) fun hmeets => hmem ((hmeets hp).1 hread)
    obtain ⟨shadow, _, hsome, _⟩ := hsound hin
    rw [hsh] at hsome
    cases hsome
  · rw [heq]
    refine iff_of_true ⟨fun _ => hg', nofun⟩ fun _ => ⟨fun _ => hmem, fun h => absurd hread h⟩

theorem after_nil (g : Globals) : g.after [] = g := rfl

theorem after_concat (g : Globals) (done : List Call) (c : Call) :
    g.after (done ++ [c]) = ((g.after done).fbSetResolution c).2 := by
  rw [after, foldl_append]
  rfl

theorem resolutionLaw_iff_keeps (hg : g.Sound) (calls : List Call) :
    ResolutionLaw g calls ↔ ∀ done c, done ++ [c] <+: calls → Keeps (g.after done) c := by
  constructor
  · rintro ⟨hsound, hsame⟩ done c hdone
    have hnext := hsound _ hdone
    have hfail := hsame done c hdone
    rw [after_concat] at hnext hfail
    exact ⟨hnext, hfail⟩
  · intro hkeeps
    refine ⟨fun done hdone => ?_, fun done c hdone hfail => ?_⟩
    · induction done using List.reverseRecOn with
      | nil => exact hg
      | append_singleton done c _ =>
        rw [after_concat]
        exact (hkeeps done c hdone).1
    · rw [after_concat]
      exact (hkeeps done c hdone).2 hfail

theorem run_law_iff (hg : g.Sound) (calls : List Call) :
    ResolutionLaw g calls ↔ ∀ done c, done ++ [c] <+: calls → Meets (g.after done) c := by
  rw [resolutionLaw_iff_keeps hg]
  constructor
  · intro hkeeps done c hdone
    have hsound := ((resolutionLaw_iff_keeps hg calls).mpr hkeeps).1 done
      ((prefix_append done [c]).trans hdone)
    exact (fbSetResolution_keeps_iff hsound).mp (hkeeps done c hdone)
  · intro hmeets
    have hsound : ∀ done, done <+: calls → (g.after done).Sound := by
      intro done
      induction done using List.reverseRecOn with
      | nil => exact fun _ => hg
      | append_singleton done c ih =>
        intro hdone
        have hprev := ih ((prefix_append done [c]).trans hdone)
        rw [after_concat]
        exact ((fbSetResolution_keeps_iff hprev).mpr (hmeets done c hdone)).1
    intro done c hdone
    exact (fbSetResolution_keeps_iff (hsound done ((prefix_append done [c]).trans hdone))).mpr
      (hmeets done c hdone)

/-! ## From the start -/

def Settles (r : Bool × Globals) : Prop :=
  (r.1 = true → r.2.Holds) ∧ (r.1 = false → r.2.useFramebuffer = false)

theorem Settles.off (hg : g.useFramebuffer = false) : Settles (false, g) :=
  ⟨nofun, fun _ => hg⟩

theorem Settles.on (hg : g.Holds) : Settles (true, g) := ⟨fun _ => hg, nofun⟩

theorem fbTryBgaMode_settles (hg : g.useFramebuffer = false) (a : BgaReply)
    (width height bpp : UInt16) : Settles (g.fbTryBgaMode a width height bpp) := by
  obtain ⟨_, heq⟩ | ⟨_, ⟨_, heq⟩ | ⟨_, ⟨_, g', heq, hin, _⟩ | ⟨_, g', heq, _, hg'⟩⟩⟩ :=
    fbTryBgaMode_cases g a width height bpp
  · rw [heq]
    exact .off hg
  · rw [heq]
    exact .off hg
  · rw [heq]
    exact .off (hin.trans hg)
  · rw [heq]
    exact .on hg'

theorem fbTryVmwareMode_settles (hg : g.useFramebuffer = false) (a : SvgaReply)
    (width height bpp : UInt16) : Settles (g.fbTryVmwareMode a width height bpp) := by
  rw [fbTryVmwareMode]
  split
  · exact .off hg
  split
  · exact .off hg
  have hback : (g.svgaReadBack a).useFramebuffer = false := by
    simp only [svgaReadBack, hg]
  generalize g.svgaReadBack a = g at hback
  simp only
  split
  · exact .off hback
  rename_i hmode
  by_cases hmem : a.shadow.isSome = true ∧ a.surface.isSome = true
  · obtain ⟨g', hg', hfit⟩ := activate_some hmem
    rw [hg']
    simp only
    split
    · have := width.toNat_lt
      have := height.toNat_lt
      exact .on (hfit.holds (by simp only; omega) (by simp only; omega))
    · exact .off rfl
  · rw [activate_none hmem]
    exact .off hback

theorem fbInit_sound (g : Globals) (bga bga' : BgaReply) (svga svga' : SvgaReply) :
    (g.fbInit bga bga' svga svga').Sound := by
  have hswap : ∀ {r : Bool × Globals} {g : Globals}, Settles r → r = (true, g) →
      g.fbSwapBuffers.Sound := by
    rintro _ g h rfl _
    exact (h.1 rfl).fbSwapBuffers
  have hoff : ∀ {r : Bool × Globals} {g : Globals}, Settles r → r = (false, g) →
      g.useFramebuffer = false := by
    rintro _ g h rfl
    exact h.2 rfl
  rw [fbInit]
  split
  · exact hswap (fbTryBgaMode_settles rfl ..) ‹_›
  have h1 := hoff (fbTryBgaMode_settles rfl ..) ‹_›
  split
  · exact hswap (fbTryBgaMode_settles h1 ..) ‹_›
  have h2 := hoff (fbTryBgaMode_settles h1 ..) ‹_›
  split
  · exact hswap (fbTryVmwareMode_settles h2 ..) ‹_›
  have h3 := hoff (fbTryVmwareMode_settles h2 ..) ‹_›
  split
  · exact hswap (fbTryVmwareMode_settles h3 ..) ‹_›
  have h4 := hoff (fbTryVmwareMode_settles h3 ..) ‹_›
  intro hin
  rw [h4] at hin
  cases hin

/-- From what `FbInit` leaves, whatever the machine answers. -/
theorem resolution_law_iff (g : Globals) (bga bga' : BgaReply) (svga svga' : SvgaReply)
    (calls : List Call) :
    let booted := g.fbInit bga bga' svga svga'
    ResolutionLaw booted calls ↔
      ∀ done c, done ++ [c] <+: calls → Meets (booted.after done) c :=
  run_law_iff (fbInit_sound g bga bga' svga svga') calls

/-- An adapter that was in 800 x 600 and answers the call for 1920 x 1080 with 1024 x 768. -/
theorem resolution_law_clamped :
    ¬ ∀ (g : Globals) (bga bga' : BgaReply) (svga svga' : SvgaReply) (calls : List Call),
      ResolutionLaw (g.fbInit bga bga' svga svga') calls := by
  intro hall
  let black : Option (Nat → UInt8) := some fun _ => 0
  let blank : Option (Nat → UInt32) := some fun _ => 0
  let g : Globals := ⟨false, 640, 480, 0, 0, 0, 0, none, none, false, 0, false, ⟨false, 0, 0, 0, 0⟩⟩
  let bga : BgaReply := ⟨0xB0C5, 0xFD000000, 800, 600, 32, black, blank⟩
  let svga : SvgaReply := ⟨none, 0, 0, 0, 0, 0, 0, 0, 0, 0, none, none⟩
  let c : Call := ⟨1920, 1080, 32, 0xB0C5, 0xFD000000, 1024, 768, 32, black, blank⟩
  have hlaw := hall g bga bga svga svga [c]
  have hfail : ((g.fbInit bga bga svga svga).fbSetResolution c).1 = false := by decide +kernel
  have hsame := hlaw.2 [] c prefix_rfl
  rw [after_concat, after_nil] at hsame
  have hbefore : (g.fbInit bga bga svga svga).width = 800 := by decide +kernel
  have hafter : ((g.fbInit bga bga svga svga).fbSetResolution c).2.width = 1024 := by
    decide +kernel
  have hwidth := hafter.symm.trans ((hsame hfail).width.trans hbefore)
  exact absurd hwidth (by decide)

end Globals

end DiscouNT.Fb
