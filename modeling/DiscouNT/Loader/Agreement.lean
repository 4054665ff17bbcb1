import DiscouNT.Loader.DllFrame

/-!
# Loader.Agreement

A load makes its calls in the states that it reaches, and in no others: two environments, or two
loaders for the DLLs it depends on, that agree there lead to the same outcome.
-/

namespace DiscouNT.Loader

open Lib

/-- The environments differ at most in how a symbol is resolved in states that are not reached from
`w₀`. -/
structure Env.Agrees {σ : Type} (env env' : Env σ) (R : σ → σ → Prop) (w₀ : σ) : Prop where
  kmalloc : env'.kmalloc = env.kmalloc
  kfree : env'.kfree = env.kfree
  setError : env'.setElfImportMissingProcError = env.setElfImportMissingProcError
  resolve : ∀ name w, R w₀ w → env'.resolveExternalSymbol name w = env.resolveExternalSymbol name w

section Flow

variable {σ : Type} {env env' : Env σ} {R : σ → σ → Prop} {w₀ w : σ}

theorem relaSym_agrees (h : env.Agrees env' R w₀) (c : RelaCtx) (si : Nat) (hw : R w₀ w) :
    relaSym c env' si w = relaSym c env si w := by
  unfold relaSym
  rw [h.setError]
  simp only [h.resolve _ _ hw]

theorem relaRecord_agrees (h : env.Agrees env' R w₀) (c : RelaCtx) (r : Nat) (mem : Mem)
    (hw : R w₀ w) : relaRecord c env' r mem w = relaRecord c env r mem w := by
  have hsym : ∀ si, relaSym c env' si w = relaSym c env si w := fun si => relaSym_agrees h c si hw
  unfold relaRecord
  simp only [hsym]

theorem relaSection_agrees (hR : env.Follows R) (h : env.Agrees env' R w₀) (c : RelaCtx)
    (e : Elf64Header) (i : Nat) (mem : Mem) (hw : R w₀ w) :
    relaSection c env' e i mem w = relaSection c env e i mem w := by
  have hrecords : ∀ count r, relaRecords c env' count r mem w = relaRecords c env count r mem w := by
    intro count r
    rw [relaRecords, relaRecords]
    exact scan_agrees (R := R) hR.trans (relaRecord_follows hR c)
      (fun r mem _ hw => relaRecord_agrees h c r mem hw) hw
  unfold relaSection
  simp only [hrecords]

theorem elf64Relocate_agrees (hR : env.Follows R) (h : env.Agrees env' R w₀) (arch : Arch) (f : File)
    (base span imageBase : Nat) (mem : Mem) (hw : R w₀ w) :
    elf64Relocate arch env' f base span imageBase mem w =
      elf64Relocate arch env f base span imageBase mem w := by
  have hsections : ∀ c e, relaSections c env' e mem w = relaSections c env e mem w := by
    intro c e
    rw [relaSections, relaSections]
    exact scan_agrees (R := R) hR.trans (relaSection_follows hR c e)
      (fun i mem _ hw => relaSection_agrees hR h c e i mem hw) hw
  unfold elf64Relocate
  simp only [hsections]

theorem elf64Fill_agrees (hR : env.Follows R) (h : env.Agrees env' R w₀) (arch : Arch) (f : File)
    (span a s : Nat) (hw : R w₀ w) :
    elf64Fill arch env' f span a s w = elf64Fill arch env f span a s w := by
  unfold elf64Fill
  simp only [elf64Relocate_agrees hR h arch f _ _ _ _ hw, h.kfree]

theorem peLoadElf64_agrees (hR : env.Follows R) (h : env.Agrees env' R w₀) (arch : Arch) (f : File)
    (hw : R w₀ w) : peLoadElf64 arch env' f w = peLoadElf64 arch env f w := by
  have hbuild : ∀ span, elf64Build arch env' f span w = elf64Build arch env f span w := by
    intro span
    have himage := hR.kmalloc (sizeofRuntimeHeader arch + span + elf64Slack arch) w
    unfold elf64Build
    rw [h.kmalloc, h.kfree]
    rcases hk : env.kmalloc (sizeofRuntimeHeader arch + span + elf64Slack arch) w with ⟨a, w1⟩
    rw [hk] at himage
    cases a with
    | zero => rfl
    | succ a =>
      have hsource := hR.kmalloc f.size w1
      dsimp only
      rcases hk' : env.kmalloc f.size w1 with ⟨s, w2⟩
      rw [hk'] at hsource
      cases s with
      | zero => rfl
      | succ s => exact elf64Fill_agrees hR h arch f span _ _ (hR.trans hw (hR.trans himage hsource))
  unfold peLoadElf64
  simp only [hbuild]

theorem relSymValue_agrees (h : env.Agrees env' R w₀) (c : RelCtx) (rSym : Nat) (hw : R w₀ w) :
    relSymValue c env' rSym w = relSymValue c env rSym w := by
  unfold relSymValue
  rw [h.setError]
  simp only [h.resolve _ _ hw]

theorem relRecord_agrees (h : env.Agrees env' R w₀) (c : RelCtx) (r : Nat) (mem : Mem)
    (hw : R w₀ w) : relRecord c env' r mem w = relRecord c env r mem w := by
  have hsym : ∀ rSym, relSymValue c env' rSym w = relSymValue c env rSym w :=
    fun rSym => relSymValue_agrees h c rSym hw
  unfold relRecord
  simp only [hsym]

theorem relSection_agrees (hR : env.Follows R) (h : env.Agrees env' R w₀) (f : File)
    (base imageSize imageBase : Nat) (e : Elf32Header) (i : Nat) (mem : Mem) (hw : R w₀ w) :
    relSection f base imageSize imageBase env' e i mem w =
      relSection f base imageSize imageBase env e i mem w := by
  have hrecords : ∀ c count r,
      relRecords c env' count r mem w = relRecords c env count r mem w := by
    intro c count r
    rw [relRecords, relRecords]
    exact scan_agrees (R := R) hR.trans (relRecord_follows hR c)
      (fun r mem _ hw => relRecord_agrees h c r mem hw) hw
  unfold relSection
  simp only [hrecords]

theorem elf32Fill_agrees (hR : env.Follows R) (h : env.Agrees env' R w₀) (arch : Arch) (f : File)
    (base imageSize a s : Nat) (hw : R w₀ w) :
    elf32Fill arch env' f base imageSize a s w = elf32Fill arch env f base imageSize a s w := by
  have hsections : ∀ imageBase e mem, relSections f base imageSize imageBase env' e mem w =
      relSections f base imageSize imageBase env e mem w := by
    intro imageBase e mem
    rw [relSections, relSections]
    exact scan_agrees (R := R) hR.trans (relSection_follows hR f base imageSize imageBase e)
      (fun i mem _ hw => relSection_agrees hR h f base imageSize imageBase e i mem hw) hw
  unfold elf32Fill
  simp only [hsections, h.kfree]

theorem peLoadElf32_agrees (hR : env.Follows R) (h : env.Agrees env' R w₀) (arch : Arch) (f : File)
    (hw : R w₀ w) : peLoadElf32 arch env' f w = peLoadElf32 arch env f w := by
  have hbuild : ∀ base imageSize,
      elf32Build arch env' f base imageSize w = elf32Build arch env f base imageSize w := by
    intro base imageSize
    have himage := hR.kmalloc (sizeofRuntimeHeader arch + imageSize) w
    unfold elf32Build
    rw [h.kmalloc, h.kfree]
    rcases hk : env.kmalloc (sizeofRuntimeHeader arch + imageSize) w with ⟨a, w1⟩
    rw [hk] at himage
    cases a with
    | zero => rfl
    | succ a =>
      have hsource := hR.kmalloc f.size w1
      dsimp only
      rcases hk' : env.kmalloc f.size w1 with ⟨s, w2⟩
      rw [hk'] at hsource
      cases s with
      | zero => rfl
      | succ s =>
        exact elf32Fill_agrees hR h arch f base imageSize _ _
          (hR.trans hw (hR.trans himage hsource))
  unfold peLoadElf32
  simp only [hbuild]

theorem peLoadImage_agrees (hR : env.Follows R) (h : env.Agrees env' R w₀) (arch : Arch) (f : File)
    (hw : R w₀ w) : peLoadImage arch env' f w = peLoadImage arch env f w := by
  have hpe : peLoadPe arch env' f w = peLoadPe arch env f w := by
    unfold peLoadPe peBuild
    rw [h.kmalloc]
  unfold peLoadImage peLoadElf
  rw [peLoadElf64_agrees hR h arch f hw, peLoadElf32_agrees hR h arch f hw, hpe]

end Flow

/-- The loaders agree on the calls in states reached from `w₀`. -/
def LoadersAgree (load load' : DllLoader) (R : World → World → Prop) (w₀ : World) : Prop :=
  ∀ name w, R w₀ w → load' name w = load name w

theorem orNext_congr {r : Nat × World} {rest rest' : World → Nat × World}
    (h : rest' r.2 = rest r.2) : orNext r rest' = orNext r rest := by
  unfold orNext
  rw [h]

section Loads

variable {b : Nat} {R : World → World → Prop} {m : Machine} {load load' : DllLoader} {w₀ w : World}

theorem loadCoreDlls_agrees (hR : Tracking b R) (hl : Tracks R load)
    (h : LoadersAgree load load' R w₀) {outer : Option Name} :
    ∀ {cores : List Name} {w : World}, w.currentLoading = outer → R w₀ w →
      loadCoreDlls load' outer cores w = loadCoreDlls load outer cores w
  | [], _, _, _ => rfl
  | core :: cores, w, hcur, hw => by
    unfold loadCoreDlls
    split
    · exact loadCoreDlls_agrees hR hl h hcur hw
    · have hcur' : (load core w).2.currentLoading = outer := (hl.current core w).trans hcur
      have hsame : { (load core w).2 with currentLoading := outer } = (load core w).2 := by
        rw [← hcur']
      rw [h core w hw, hsame]
      exact loadCoreDlls_agrees hR hl h hcur' (hR.trans hw (hl.follows core w))

theorem peResolveExternalSymbol_agrees (hR : Tracking b R) (hl : Tracks R load)
    (h : LoadersAgree load load' R w₀) (func : Name) (hw : R w₀ w) :
    peResolveExternalSymbol m load' func w = peResolveExternalSymbol m load func w := by
  unfold peResolveExternalSymbol
  split
  · rfl
  · split
    · rfl
    · refine orNext_congr (orNext_congr (orNext_congr ?_))
      dsimp only
      rw [loadCoreDlls_agrees hR hl h rfl (hR.trans hw (peFindCoreDllSymbol_tracks hR func coreDlls w))]

theorem loaderEnv_agrees (hR : Tracking b R) (hl : Tracks R load)
    (h : LoadersAgree load load' R w₀) : (loaderEnv m load).Agrees (loaderEnv m load') R w₀ where
  kmalloc := rfl
  kfree := rfl
  setError := rfl
  resolve _ _ hw := peResolveExternalSymbol_agrees hR hl h _ hw

theorem importDescriptors_agrees (hR : Tracking b R) (hl : Tracks R load)
    (h : LoadersAgree load load' R w₀) {steps hd : Nat} (hb : b ≤ hd) :
    ∀ {n p : Nat} {w : World}, R w₀ w →
      importDescriptors m load' steps hd n p w = importDescriptors m load steps hd n p w := by
  intro n
  induction n with
  | zero => intro p w _; rfl
  | succ n ih =>
    intro p w hw
    have hload := h (cstring (w.mem hd) (readLE (w.mem hd) (p + 12) 4)) w hw
    have hnested := hR.trans hw (hl.follows (cstring (w.mem hd) (readLE (w.mem hd) (p + 12) 4)) w)
    unfold importDescriptors
    dsimp only
    rw [hload, ih (hR.trans hnested (hR.quiet (quiet_importLookups hb _ _ _ _)))]

theorem peResolveImports_agrees (hR : Tracking b R) (hl : Tracks R load)
    (h : LoadersAgree load load' R w₀) (steps : Nat) {hd : Nat} (hb : b ≤ hd) (hw : R w₀ w) :
    peResolveImports m load' steps hd w = peResolveImports m load steps hd w := by
  have hclear : R w₀ w.peClearLastError := hR.trans hw (hR.quiet quiet_clearLastError)
  unfold peResolveImports
  dsimp only
  rw [importDescriptors_agrees hR hl h hb hclear]

theorem loadLibrary_agrees (h : LoadersAgree load load' R w₀) (name : Name) (hw : R w₀ w) :
    loadLibrary load' name w = loadLibrary load name w := by
  unfold loadLibrary
  dsimp only
  rw [h _ w hw]

theorem serve_agrees (hR : Tracking b R) (hl : Tracks R load) (h : LoadersAgree load load' R w₀)
    (r : Request) (hw : R w₀ w) : serve m load' r w = serve m load r w := by
  cases r with
  | peLoadDll name => exact congrArg Prod.snd (h name w hw)
  | loadLibraryA name => exact congrArg Prod.snd (loadLibrary_agrees h _ hw)
  | loadLibraryW name => exact congrArg Prod.snd (loadLibrary_agrees h _ hw)
  | peResolveExternalSymbol func =>
    exact congrArg Prod.snd (peResolveExternalSymbol_agrees hR hl h func hw)

theorem runDllMain_agrees (hR : Tracking b R) (hl : Tracks R load)
    (h : LoadersAgree load load' R w₀) (d : LoadedDll) :
    ∀ {n k : Nat} {w : World}, R w₀ w → runDllMain m load' d n k w = runDllMain m load d n k w := by
  intro n
  induction n with
  | zero => intro k w _; rfl
  | succ n ih =>
    intro k w hw
    unfold runDllMain
    split
    · rfl
    · rename_i request _
      rw [serve_agrees hR hl h request hw, ih (hR.trans hw (serve_tracks hR hl request w))]

theorem attach_agrees (hR : Tracking b R) (hlog : ∀ w e, R w (w.log e)) (hl : Tracks R load)
    (h : LoadersAgree load load' R w₀) (steps : Nat) (d : LoadedDll) (hw : R w₀ w) :
    attach m load' steps d w = attach m load steps d w := by
  have hentry : R w₀ (dllEntry m d.image w).2 := hR.trans hw (hR.quiet quiet_dllEntry)
  unfold attach
  split
  · rfl
  · rename_i a w' heq
    rw [heq] at hentry
    exact runDllMain_agrees hR hl h d (hR.trans hentry (hlog w' _))

end Loads

end DiscouNT.Loader
