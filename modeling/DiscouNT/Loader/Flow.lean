import DiscouNT.Loader.PeImage

/-!
# Loader.Flow

What the loaders do to the state of their environment: nothing but a sequence of calls to it. A
relation that every call respects therefore holds between the states before and after a load.
-/

namespace DiscouNT.Loader

open Lib

/-- Every service of the environment leads from a state to one related to it. -/
structure Env.Follows {σ : Type} (env : Env σ) (R : σ → σ → Prop) : Prop where
  refl : ∀ w, R w w
  trans : ∀ {w w' w''}, R w w' → R w' w'' → R w w''
  kmalloc : ∀ size w, R w (env.kmalloc size w).2
  kfree : ∀ p w, R w (env.kfree p w)
  resolve : ∀ name w, R w (env.resolveExternalSymbol name w).2
  setError : ∀ name w, R w (env.setElfImportMissingProcError name w)

section Flow

variable {σ : Type} {env : Env σ} {R : σ → σ → Prop}

section

variable (hR : env.Follows R)
include hR

theorem Env.Follows.blocks (image source : Nat) (w : σ)
    {fill : Nat → Nat → σ → Result σ} (hfill : ∀ a s w, R w (fill a s w).world) :
    R w (match env.kmalloc image w with
      | (0, w) => (⟨none, [], w⟩ : Result σ)
      | (a + 1, w) =>
        match env.kmalloc source w with
        | (0, w) => ⟨none, [], env.kfree (a + 1) w⟩
        | (s + 1, w) => fill (a + 1) (s + 1) w).world := by
  have h := hR.kmalloc image w
  rcases hk : env.kmalloc image w with ⟨a, w1⟩
  rw [hk] at h
  cases a with
  | zero => exact h
  | succ a =>
    have h' := hR.kmalloc source w1
    refine hR.trans h ?_
    show R w1 (match env.kmalloc source w1 with
      | (0, w) => (⟨none, [], env.kfree (a + 1) w⟩ : Result σ)
      | (s + 1, w) => fill (a + 1) (s + 1) w).world
    rcases hk' : env.kmalloc source w1 with ⟨s, w2⟩
    rw [hk'] at h'
    cases s with
    | zero => exact hR.trans h' (hR.kfree _ _)
    | succ s => exact hR.trans h' (hfill _ _ _)

theorem relaSym_follows (c : RelaCtx) (si : Nat) (w : σ) :
    R w (relaSym c env si w).2.2 := by
  unfold relaSym
  dsimp only
  split
  · exact hR.refl w
  · split
    · exact hR.refl w
    · split
      · have h := hR.resolve (cstring c.file.bytes (c.strtab +
          (elf64Sym c.file.bytes (c.syms + sizeofElf64Sym * si)).name)) w
        split
        · rename_i w' heq
          rw [heq] at h
          exact hR.trans h (hR.setError _ _)
        · rename_i a w' heq
          rw [heq] at h
          exact h
      · exact hR.refl w

theorem relaRecord_follows (c : RelaCtx) (r : Nat) (mem : Mem) (w : σ) :
    R w (relaRecord c env r mem w).2.2 := by
  have h := relaSym_follows hR c (elf64RSym (elf64Rela c.file.bytes r).info) w
  unfold relaRecord
  dsimp only
  split
  · exact hR.refl w
  · rcases hs : relaSym c env (elf64RSym (elf64Rela c.file.bytes r).info) w with ⟨v, t, w'⟩
    rw [hs] at h
    cases v with
    | none => exact h
    | some v => exact h

theorem relaSection_follows (c : RelaCtx) (e : Elf64Header) (i : Nat)
    (mem : Mem) (w : σ) : R w (relaSection c env e i mem w).2.2 := by
  unfold relaSection
  dsimp only
  split
  · exact hR.refl w
  · split
    · exact hR.refl w
    · exact scan_follows hR.refl hR.trans (relaRecord_follows hR c)

theorem elf64Relocate_follows (arch : Arch) (f : File)
    (base span imageBase : Nat) (mem : Mem) (w : σ) :
    R w (elf64Relocate arch env f base span imageBase mem w).2.2 := by
  unfold elf64Relocate
  dsimp only
  split
  · split
    · exact scan_follows hR.refl hR.trans (relaSection_follows hR _ _)
    · exact hR.refl w
  · exact hR.refl w

theorem elf64Fill_follows (arch : Arch) (f : File) (span a s : Nat) (w : σ) :
    R w (elf64Fill arch env f span a s w).world := by
  unfold elf64Fill
  dsimp only
  split
  · exact hR.trans (hR.kfree _ _) (hR.kfree _ _)
  · rename_i mem t hcopy
    have h := elf64Relocate_follows hR arch f (peGetElf64LoadBase arch f.bytes) span
      (elf64ImageBase arch a) mem w
    rcases hr : elf64Relocate arch env f (peGetElf64LoadBase arch f.bytes) span
      (elf64ImageBase arch a) mem w with ⟨mem', t', w'⟩
    rw [hr] at h
    cases mem' with
    | none => exact hR.trans h (hR.trans (hR.kfree _ _) (hR.kfree _ _))
    | some mem' => exact h

theorem peLoadElf64_follows (arch : Arch) (f : File) (w : σ) :
    R w (peLoadElf64 arch env f w).world := by
  unfold peLoadElf64
  dsimp only
  split
  · split
    · exact hR.refl w
    · exact hR.blocks _ _ w (elf64Fill_follows hR arch f _)
  · exact hR.refl w

theorem relSymValue_follows (c : RelCtx) (rSym : Nat) (w : σ) :
    R w (relSymValue c env rSym w).2.2 := by
  unfold relSymValue
  cases c.symtab with
  | none => exact hR.refl w
  | some symtab =>
    dsimp only
    split
    · exact hR.refl w
    · cases c.strtab with
      | none => exact hR.refl w
      | some strtab =>
        dsimp only
        split
        · exact hR.refl w
        · split
          · exact hR.refl w
          · have h := hR.resolve (cstring c.file.bytes (strtab +
              (elf32Sym c.file.bytes (symtab + sizeofElf32Sym * rSym)).name)) w
            split
            · rename_i w' heq
              rw [heq] at h
              exact hR.trans h (hR.setError _ _)
            · rename_i a w' heq
              rw [heq] at h
              exact h

theorem relRecord_follows (c : RelCtx) (r : Nat) (mem : Mem) (w : σ) :
    R w (relRecord c env r mem w).2.2 := by
  have h := relSymValue_follows hR c (elf32RSym (elf32Rel c.file.bytes r).info) w
  unfold relRecord
  dsimp only
  split
  · exact hR.refl w
  · rcases hs : relSymValue c env (elf32RSym (elf32Rel c.file.bytes r).info) w with ⟨v, t, w'⟩
    rw [hs] at h
    cases v with
    | none => exact h
    | some v => exact h

theorem relSection_follows (f : File) (base imageSize imageBase : Nat)
    (e : Elf32Header) (i : Nat) (mem : Mem) (w : σ) :
    R w (relSection f base imageSize imageBase env e i mem w).2.2 := by
  unfold relSection
  dsimp only
  split
  · exact scan_follows hR.refl hR.trans (relRecord_follows hR _)
  · exact hR.refl w

theorem elf32Fill_follows (arch : Arch) (f : File) (base imageSize a s : Nat) (w : σ) :
    R w (elf32Fill arch env f base imageSize a s w).world := by
  have h : R w (relSections f base imageSize (a + sizeofRuntimeHeader arch) env
      (elf32Header f.bytes) (elf32CopySegments f (elf32Header f.bytes) base imageSize
        (elf32Header f.bytes).phnum 0 fun _ => 0).1 w).2.2 :=
    scan_follows hR.refl hR.trans (relSection_follows hR f base imageSize _ _)
  unfold elf32Fill
  dsimp only
  split
  · rename_i t w' heq
    rw [heq] at h
    exact hR.trans h (hR.trans (hR.kfree _ _) (hR.kfree _ _))
  · rename_i mem t w' heq
    rw [heq] at h
    exact h

theorem peLoadElf32_follows (arch : Arch) (f : File) (w : σ) :
    R w (peLoadElf32 arch env f w).world := by
  unfold peLoadElf32
  dsimp only
  split
  · exact hR.refl w
  · split
    · exact hR.refl w
    · split
      · exact hR.refl w
      · exact hR.blocks _ _ w (elf32Fill_follows hR arch f _ _)

theorem peLoadPe_follows (arch : Arch) (f : File) (w : σ) :
    R w (peLoadPe arch env f w).world := by
  have hbuild : ∀ p, R w (peBuild arch env f p w).world := by
    intro p
    have h := hR.kmalloc (sizeofRuntimeHeader arch + (peHeaders f.bytes p).sizeOfImage) w
    unfold peBuild
    dsimp only
    split
    · rename_i w' heq
      rw [heq] at h
      exact h
    · rename_i a w' heq
      rw [heq] at h
      exact h
  unfold peLoadPe
  dsimp only
  split
  · exact hR.refl w
  · split
    · exact hR.refl w
    · split
      · exact hR.refl w
      · split
        · exact hR.refl w
        · split
          · exact hR.refl w
          · exact hbuild _

theorem peLoadImage_follows (arch : Arch) (f : File) (w : σ) :
    R w (peLoadImage arch env f w).world := by
  unfold peLoadImage
  split
  · exact hR.refl w
  · split
    · unfold peLoadElf
      split
      · exact peLoadElf64_follows hR arch f w
      · exact peLoadElf32_follows hR arch f w
    · exact peLoadPe_follows hR arch f w

end

end Flow

end DiscouNT.Loader
