import DiscouNT.Loader.Dll
import DiscouNT.Loader.Flow

/-!
# Loader.DllFrame

What a `PeLoadDll` does not touch. Between the few steps that link, unlink or log something the
loader is `Quiet`; a relation that holds across quiet steps and across the nested loads holds across
every part of a load (`Tracking`), and a load is one of six sequences of such parts (`LoadCase`).
-/

namespace DiscouNT.Loader

open Lib List

/-- Nothing is linked, freed or logged, and only images from `b` on are written to. -/
structure Quiet (b : Nat) (w w' : World) : Prop where
  dllList : w'.dllList = w.dllList
  loadingStack : w'.loadingStack = w.loadingStack
  currentLoading : w'.currentLoading = w.currentLoading
  programs : w'.programs = w.programs
  next : w'.next = w.next
  history : w'.history = w.history
  image : ∀ k < b, w'.image k = w.image k
  live : ∀ k, (w'.image k).isSome = (w.image k).isSome

section Quiet

variable {b h : Nat} {w w' w'' : World}

theorem Quiet.trans (h₁ : Quiet b w w') (h₂ : Quiet b w' w'') : Quiet b w w'' where
  dllList := h₂.dllList.trans h₁.dllList
  loadingStack := h₂.loadingStack.trans h₁.loadingStack
  currentLoading := h₂.currentLoading.trans h₁.currentLoading
  programs := h₂.programs.trans h₁.programs
  next := h₂.next.trans h₁.next
  history := h₂.history.trans h₁.history
  image k hk := (h₂.image k hk).trans (h₁.image k hk)
  live k := (h₂.live k).trans (h₁.live k)

theorem Quiet.refl (b : Nat) (w : World) : Quiet b w w :=
  ⟨rfl, rfl, rfl, rfl, rfl, rfl, fun _ _ => rfl, fun _ => rfl⟩

theorem quiet_hang : Quiet b w w.hang :=
  ⟨rfl, rfl, rfl, rfl, rfl, rfl, fun _ _ => rfl, fun _ => rfl⟩

theorem quiet_kmalloc {m : Machine} {size : Nat} : Quiet b w (w.kmalloc m size).2 :=
  ⟨rfl, rfl, rfl, rfl, rfl, rfl, fun _ _ => rfl, fun _ => rfl⟩

theorem quiet_setLastError {text : Name} : Quiet b w (w.setLastError text) :=
  ⟨rfl, rfl, rfl, rfl, rfl, rfl, fun _ _ => rfl, fun _ => rfl⟩

theorem quiet_clearLastError : Quiet b w w.peClearLastError :=
  ⟨rfl, rfl, rfl, rfl, rfl, rfl, fun _ _ => rfl, fun _ => rfl⟩

theorem quiet_noteError {text : Name} : Quiet b w (w.noteError text) := by
  unfold World.noteError
  split
  · exact quiet_setLastError
  · exact Quiet.refl b w

theorem image_setMem {mem : Mem} (k : Nat) :
    (w.setMem h mem).image k =
      if k = h then (w.image k).map ({ · with mem }) else w.image k := by
  unfold World.image World.setMem
  dsimp only
  split
  · rfl
  · split <;> rfl

theorem quiet_setMem {mem : Mem} (hb : b ≤ h) : Quiet b w (w.setMem h mem) := by
  refine ⟨rfl, rfl, rfl, rfl, rfl, rfl, fun k hk => ?_, fun k => ?_⟩
  · rw [image_setMem, if_neg (Nat.ne_of_lt (Nat.lt_of_lt_of_le hk hb))]
  · rw [image_setMem]
    split
    · rw [Option.isSome_map]
    · rfl

theorem quiet_store {p v : Nat} (hb : b ≤ h) : Quiet b w (w.store h p v) := quiet_setMem hb

theorem quiet_relocate (hb : b ≤ h) : Quiet b w (w.relocate h) := by
  unfold World.relocate
  split
  · exact quiet_setMem hb
  · exact Quiet.refl b w

theorem quiet_getProcAddress {m : Machine} {func : ProcRef} :
    Quiet b w (getProcAddress m h func w).2 := by
  unfold getProcAddress
  split
  · exact Quiet.refl b w
  · exact quiet_hang

theorem quiet_dllEntry {m : Machine} : Quiet b w (dllEntry m h w).2 := by
  unfold dllEntry
  split
  · exact quiet_hang
  · dsimp only
    split
    · exact quiet_getProcAddress
    · exact Quiet.refl b w

end Quiet

structure Tracking (b : Nat) (R : World → World → Prop) : Prop where
  quiet : ∀ {w w'}, Quiet b w w' → R w w'
  trans : ∀ {w w' w''}, R w w' → R w' w'' → R w w''
  next : ∀ {w w'}, R w w' → w.next ≤ w'.next

structure Tracks (R : World → World → Prop) (load : DllLoader) : Prop where
  follows : ∀ name w, R w (load name w).2
  current : ∀ name w, (load name w).2.currentLoading = w.currentLoading

section Tracking

variable {b h : Nat} {R : World → World → Prop} {m : Machine} {load : DllLoader}

theorem Tracking.refl (hR : Tracking b R) (w : World) : R w w := hR.quiet (Quiet.refl b w)

theorem Tracking.orNext (hR : Tracking b R) {w : World} {r : Nat × World}
    {rest : World → Nat × World} (h₁ : R w r.2) (h₂ : ∀ w', R w' (rest w').2) :
    R w (orNext r rest).2 := by
  unfold Loader.orNext
  split
  · exact h₁
  · exact hR.trans h₁ (h₂ _)

theorem peFindLoadedDllSymbol_tracks (hR : Tracking b R) (func : Name) :
    ∀ (dlls : List LoadedDll) (w : World), R w (peFindLoadedDllSymbol m func dlls w).2
  | [], w => hR.refl w
  | _ :: dlls, _ =>
    hR.orNext (hR.quiet quiet_getProcAddress) (peFindLoadedDllSymbol_tracks hR func dlls)

theorem peFindCoreDllSymbol_tracks (hR : Tracking b R) (func : Name) :
    ∀ (cores : List Name) (w : World), R w (peFindCoreDllSymbol m func cores w).2
  | [], w => hR.refl w
  | core :: cores, w => by
    unfold peFindCoreDllSymbol
    split
    · exact peFindCoreDllSymbol_tracks hR func cores w
    · exact hR.orNext (hR.quiet quiet_getProcAddress) (peFindCoreDllSymbol_tracks hR func cores)

theorem loadCoreDlls_tracks (hR : Tracking b R) (hl : Tracks R load) {outer : Option Name} :
    ∀ (cores : List Name) (w : World), w.currentLoading = outer →
      R w (loadCoreDlls load outer cores w)
  | [], w, _ => hR.refl w
  | core :: cores, w, hw => by
    unfold loadCoreDlls
    split
    · exact loadCoreDlls_tracks hR hl cores w hw
    · have hcur : (load core w).2.currentLoading = outer := (hl.current core w).trans hw
      have hsame : { (load core w).2 with currentLoading := outer } = (load core w).2 := by
        rw [← hcur]
      rw [hsame]
      exact hR.trans (hl.follows core w) (loadCoreDlls_tracks hR hl cores _ hcur)

theorem peResolveExternalSymbol_tracks (hR : Tracking b R) (hl : Tracks R load) (func : Name)
    (w : World) : R w (peResolveExternalSymbol m load func w).2 := by
  unfold peResolveExternalSymbol
  split
  · exact hR.refl w
  · split
    · exact hR.orNext (hR.refl w) hR.refl
    · refine hR.orNext (hR.refl w) fun w => ?_
      refine hR.orNext (peFindCoreDllSymbol_tracks hR func coreDlls w) fun w => ?_
      refine hR.orNext (hR.refl w) fun w => ?_
      have hload := loadCoreDlls_tracks hR hl coreDlls w rfl
      refine hR.orNext (hR.trans hload (peFindCoreDllSymbol_tracks hR func coreDlls _)) fun w => ?_
      exact hR.orNext (hR.refl w) fun w => peFindLoadedDllSymbol_tracks hR func w.dllList w

theorem loaderEnv_follows (hR : Tracking b R) (hl : Tracks R load) : (loaderEnv m load).Follows R where
  refl := hR.refl
  trans := hR.trans
  kmalloc _ _ := hR.quiet quiet_kmalloc
  kfree _ w := hR.refl w
  resolve := peResolveExternalSymbol_tracks hR hl
  setError _ _ := hR.quiet quiet_setLastError

theorem quiet_importSlot {name word slot : Nat} {dll : Option Nat} {w : World} (hb : b ≤ h) :
    Quiet b w (importSlot m h name dll word slot w).2.2 := by
  unfold importSlot
  split
  · exact Quiet.refl b w
  · dsimp only
    split
    · rename_i d
      have hproc : Quiet b w (getProcAddress m d (.name (hintName (w.mem h) word)) w).2 :=
        quiet_getProcAddress
      split
      · rename_i w' heq
        rw [heq] at hproc
        exact hproc.trans ((quiet_store hb).trans quiet_noteError)
      · rename_i addr w' heq
        rw [heq] at hproc
        exact hproc.trans (quiet_store hb)
    · exact (quiet_store hb).trans quiet_noteError

theorem quiet_importLookups {name : Nat} {dll : Option Nat} (hb : b ≤ h) :
    ∀ (n lookup iat : Nat) (w : World),
      Quiet b w (importLookups m h name dll n lookup iat w).world := by
  intro n
  induction n with
  | zero => intro lookup iat w; exact quiet_hang
  | succ n ih =>
    intro lookup iat w
    unfold importLookups
    dsimp only
    split
    · exact Quiet.refl b w
    · exact (quiet_importSlot hb).trans (ih _ _ _)

theorem importDescriptors_tracks (hR : Tracking b R) (hl : Tracks R load) {steps : Nat}
    (hb : b ≤ h) :
    ∀ (n p : Nat) (w : World), R w (importDescriptors m load steps h n p w).world := by
  intro n
  induction n with
  | zero => intro p w; exact hR.quiet quiet_hang
  | succ n ih =>
    intro p w
    unfold importDescriptors
    dsimp only
    split
    · exact hR.refl w
    · exact hR.trans (hl.follows _ _) (hR.trans (hR.quiet (quiet_importLookups hb _ _ _ _)) (ih _ _))

theorem peResolveImports_tracks (hR : Tracking b R) (hl : Tracks R load) (steps : Nat)
    (hb : b ≤ h) (w : World) : R w (peResolveImports m load steps h w).world := by
  have hclear : R w w.peClearLastError := hR.quiet quiet_clearLastError
  unfold peResolveImports
  dsimp only
  split
  · exact hR.refl w
  · split
    · exact hclear
    · split
      · exact hclear
      · exact hR.trans hclear (importDescriptors_tracks hR hl hb _ _ _)

theorem loadLibrary_tracks (hR : Tracking b R) (hl : Tracks R load) (name : Name) (w : World) :
    R w (loadLibrary load name w).2 := by
  unfold loadLibrary
  split
  · exact hR.refl w
  · dsimp only
    split
    · exact hR.refl w
    · exact hl.follows _ _

theorem serve_tracks (hR : Tracking b R) (hl : Tracks R load) (r : Request) (w : World) :
    R w (serve m load r w) := by
  cases r with
  | peLoadDll name => exact hl.follows name w
  | loadLibraryA name => exact loadLibrary_tracks hR hl _ w
  | loadLibraryW name => exact loadLibrary_tracks hR hl _ w
  | peResolveExternalSymbol func => exact peResolveExternalSymbol_tracks hR hl func w

theorem runDllMain_tracks (hR : Tracking b R) (hl : Tracks R load) (d : LoadedDll) :
    ∀ (n k : Nat) (w : World), R w (runDllMain m load d n k w) := by
  intro n
  induction n with
  | zero => intro k w; exact hR.quiet quiet_hang
  | succ n ih =>
    intro k w
    unfold runDllMain
    split
    · exact hR.refl w
    · exact hR.trans (serve_tracks hR hl _ w) (ih _ _)

theorem attach_cases (hR : Tracking b R) (hl : Tracks R load) (steps : Nat) (d : LoadedDll)
    (w : World) :
    R w (attach m load steps d w) ∨
      ∃ w', R w w' ∧ R (w'.log (.attached d)) (attach m load steps d w) := by
  have hentry : R w (dllEntry m d.image w).2 := hR.quiet quiet_dllEntry
  unfold attach
  split
  · rename_i w' heq
    rw [heq] at hentry
    exact Or.inl hentry
  · rename_i a w' heq
    rw [heq] at hentry
    exact Or.inr ⟨w', hentry, runDllMain_tracks hR hl d _ _ _⟩

end Tracking

structure Starts (name : Name) (w : World) : Prop where
  unregistered : w.dllList.find? (fun d => d.name == name) = none
  idle : ∀ s ∈ w.loadingStack, peNameEqualsIgnoreCase s name = false
  room : w.loadingStack.length < 16

def IsDllPath (name path : Name) : Prop :=
  path = systemDir ++ upper (name.take 127) ∨ path = appsDir ++ upper (name.take 127)

def World.registerNew (w : World) (m : Machine) (name path : Name) (im : Image) : World :=
  ((w.addImage im).kmalloc m (sizeofLoadedDll m.arch)).2.register name (newDll name path w.next)

/-- What the body of `PeLoadDll` can do. Its parts in between are related by `R`. -/
inductive LoadCase (R : World → World → Prop) (m : Machine) (name : Name) (w : World) :
    Option Nat × World → Prop where
  | found {d : LoadedDll} (hd : w.dllList.find? (fun d => d.name == name) = some d) :
      LoadCase R m name w (some d.image, w)
  | refused (hd : w.dllList.find? (fun d => d.name == name) = none) : LoadCase R m name w (none, w)
  | noImage {w₁ : World} (hs : Starts name w) (h₁ : R (w.enter name) w₁) :
      LoadCase R m name w (none, w₁.leave w.currentLoading)
  | noRecord {w₁ : World} {im : Image} (hs : Starts name w) (h₁ : R (w.enter name) w₁) :
      LoadCase R m name w
        (none, ((((w₁.leave w.currentLoading).addImage im).kmalloc m
          (sizeofLoadedDll m.arch)).2).peFreeImage w₁.next)
  | failed {w₁ w₂ : World} {im : Image} {path : Name} (hs : Starts name w)
      (hp : IsDllPath name path) (h₁ : R (w.enter name) w₁)
      (h₂ : R ((w₁.leave w.currentLoading).registerNew m name path im) w₂) :
      LoadCase R m name w (none, w₂.rollback (newDll name path w₁.next) w₁.dllList)
  | done {w₁ w₂ : World} {im : Image} {path : Name} (hs : Starts name w)
      (hp : IsDllPath name path) (h₁ : R (w.enter name) w₁)
      (h₂ : R ((w₁.leave w.currentLoading).registerNew m name path im) w₂) :
      LoadCase R m name w (some w₁.next, w₂.log (.loaded (newDll name path w₁.next)))
  | attached {w₁ w₂ w₃ : World} {im : Image} {path : Name} (hs : Starts name w)
      (hp : IsDllPath name path) (h₁ : R (w.enter name) w₁)
      (h₂ : R ((w₁.leave w.currentLoading).registerNew m name path im) w₂)
      (h₃ : R (w₂.log (.attached (newDll name path w₁.next))) w₃) :
      LoadCase R m name w (some w₁.next, w₃.log (.loaded (newDll name path w₁.next)))

theorem findDllFile_path {m : Machine} {name path : Name} {w : World} {file : File}
    (h : findDllFile m name w = some (path, file)) : IsDllPath name path := by
  unfold findDllFile at h
  dsimp only at h
  split at h
  · cases h
    exact Or.inl rfl
  · obtain ⟨f, -, heq⟩ := Option.map_eq_some_iff.mp h
    cases heq
    exact Or.inr rfl

section Cases

variable {b : Nat} {R : World → World → Prop} {m : Machine} {load : DllLoader}

theorem addDll_case (hR : Tracking b R) (hl : Tracks R load) {steps : Nat} {name path : Name}
    {w w₁ : World} (im : Image) (hb : b ≤ w.next) (hs : Starts name w) (hp : IsDllPath name path)
    (h₁ : R (w.enter name) w₁) :
    LoadCase R m name w (addDll m load steps name path im (w₁.leave w.currentLoading)) := by
  have hle : (w.enter name).next ≤ w₁.next := hR.next h₁
  have hnext : b ≤ w₁.next := Nat.le_trans hb hle
  unfold addDll
  split
  · rename_i w' heq
    have hw' : w' = (((w₁.leave w.currentLoading).addImage im).kmalloc m
        (sizeofLoadedDll m.arch)).2 := by rw [heq]
    rw [hw']
    exact .noRecord hs h₁
  · rename_i a w' heq
    have hw' : w'.register name (newDll name path w₁.next) =
        (w₁.leave w.currentLoading).registerNew m name path im := by
      unfold World.registerNew
      rw [heq]
      rfl
    have hlist : w'.dllList = w₁.dllList := by
      have : w' = (((w₁.leave w.currentLoading).addImage im).kmalloc m
        (sizeofLoadedDll m.arch)).2 := by rw [heq]
      rw [this]
      rfl
    have himports : R ((w₁.leave w.currentLoading).registerNew m name path im)
        (peResolveImports m load steps w₁.next
          ((w₁.leave w.currentLoading).registerNew m name path im)).world :=
      peResolveImports_tracks hR hl steps hnext _
    have hnext' : (w₁.leave w.currentLoading).next = w₁.next := rfl
    unfold initDll
    dsimp only
    rw [hnext', hw', hlist]
    split
    · have hreloc := hR.trans himports (hR.quiet (quiet_relocate hnext))
      rcases attach_cases (m := m) hR hl steps (newDll name path w₁.next) _ with h | ⟨w4, h, h'⟩
      · exact .done hs hp h₁ (hR.trans hreloc h)
      · exact .attached hs hp h₁ (hR.trans hreloc h) h'
    · exact .failed hs hp h₁ himports

theorem loadDllBody_case (hR : Tracking b R) (hl : Tracks R load) (steps : Nat) (name : Name)
    {w : World} (hb : b ≤ w.next) : LoadCase R m name w (loadDllBody m load steps name w) := by
  unfold loadDllBody
  split
  · rename_i d hfind
    exact .found hfind
  · rename_i hfind
    split
    · exact .refused hfind
    · rename_i hidle
      split
      · exact .refused hfind
      · rename_i path file hfile
        split
        · exact .refused hfind
        · rename_i hroom
          have hs : Starts name w := by
            refine ⟨hfind, fun s hs => ?_, Nat.lt_of_not_le hroom⟩
            simpa using fun h => hidle (any_eq_true.mpr ⟨s, hs, h⟩)
          have h₁ := peLoadImage_follows (loaderEnv_follows (m := m) hR hl) m.arch file (w.enter name)
          dsimp only
          split
          · exact .noImage hs h₁
          · exact addDll_case hR hl _ hb hs (findDllFile_path hfile) h₁

end Cases

/-! ## What a load keeps -/

/-- From `w` to `w'` the stack and the current DLL are restored, the list only grew, and the images
below `b` are untouched. New entries have new images that are not freed. -/
structure Kept (b : Nat) (w w' : World) : Prop where
  next : w.next ≤ w'.next
  stack : w'.loadingStack = w.loadingStack
  current : w'.currentLoading = w.currentLoading
  programs : w'.programs = w.programs
  list : w.dllList <:+ w'.dllList
  live : ∀ k, (w.image k).isSome → (w'.image k).isSome
  image : b ≤ w.next → ∀ k < b, w'.image k = w.image k
  fresh : ∀ d ∈ w'.dllList, d ∈ w.dllList ∨ (w.next ≤ d.image ∧ (w'.image d.image).isSome)

section Kept

variable {b : Nat} {w w' w'' : World}

theorem lt_next_of_live {k : Nat} (h : (w.image k).isSome) : k < w.next := by
  unfold World.image at h
  split at h
  · assumption
  · cases h

theorem Kept.of_quiet (h : Quiet b w w') : Kept b w w' where
  next := Nat.le_of_eq h.next.symm
  stack := h.loadingStack
  current := h.currentLoading
  programs := h.programs
  list := by simp only [h.dllList, suffix_refl]
  live k hk := by rw [h.live]; exact hk
  image _ := h.image
  fresh d hd := by rw [h.dllList] at hd; exact Or.inl hd

theorem Kept.trans (h₁ : Kept b w w') (h₂ : Kept b w' w'') : Kept b w w'' where
  next := Nat.le_trans h₁.next h₂.next
  stack := h₂.stack.trans h₁.stack
  current := h₂.current.trans h₁.current
  programs := h₂.programs.trans h₁.programs
  list := h₁.list.trans h₂.list
  live k hk := h₂.live k (h₁.live k hk)
  image hb k hk := (h₂.image (Nat.le_trans hb h₁.next) k hk).trans (h₁.image hb k hk)
  fresh d hd := by
    rcases h₂.fresh d hd with hd | ⟨hle, hlive⟩
    · rcases h₁.fresh d hd with hd | ⟨hle, hlive⟩
      · exact Or.inl hd
      · exact Or.inr ⟨hle, h₂.live _ hlive⟩
    · exact Or.inr ⟨Nat.le_trans h₁.next hle, hlive⟩

theorem tracking_kept (b : Nat) : Tracking b (Kept b) where
  quiet := Kept.of_quiet
  trans := Kept.trans
  next h := h.next

theorem Kept.mono {c : Nat} (h : Kept c w w') (hc : c = w.next) (b : Nat) : Kept b w w' where
  next := h.next
  stack := h.stack
  current := h.current
  programs := h.programs
  list := h.list
  live := h.live
  image hb k hk := h.image (Nat.le_of_eq hc) k (by omega)
  fresh := h.fresh

theorem kept_log {e : Event} : Kept b w (w.log e) where
  next := Nat.le_refl _
  stack := rfl
  current := rfl
  programs := rfl
  list := suffix_refl _
  live _ h := h
  image _ _ _ := rfl
  fresh _ hd := Or.inl hd

theorem Kept.enter {name : Name} (h : Kept b (w.enter name) w') :
    Kept b w (w'.leave w.currentLoading) where
  next := h.next
  stack := by rw [World.leave, h.stack]; rfl
  current := rfl
  programs := h.programs
  list := h.list
  live := h.live
  image := h.image
  fresh := h.fresh

theorem image_addImage {im : Image} (k : Nat) :
    (w.addImage im).image k = if k = w.next then some im else w.image k := by
  unfold World.image World.addImage
  dsimp only
  by_cases hk : k = w.next
  · rw [if_pos (by omega), if_pos hk, if_pos hk]
  · rw [if_neg hk, if_neg hk]
    by_cases hlt : k < w.next
    · rw [if_pos hlt, if_pos (by omega)]
    · rw [if_neg hlt, if_neg (by omega)]

theorem image_peFreeImage {h : Nat} (k : Nat) :
    (w.peFreeImage h).image k = if k = h then none else w.image k := by
  unfold World.image World.peFreeImage
  dsimp only
  by_cases hk : k = h
  · rw [if_pos hk, if_pos hk]
    split <;> rfl
  · rw [if_neg hk, if_neg hk]

theorem live_addImage {im : Image} {k : Nat} (h : (w.image k).isSome) :
    ((w.addImage im).image k).isSome := by
  rw [image_addImage]
  split
  · rfl
  · exact h

theorem live_peFreeImage {h k : Nat} (hne : k ≠ h) (hk : (w.image k).isSome) :
    ((w.peFreeImage h).image k).isSome := by
  rw [image_peFreeImage, if_neg hne]
  exact hk

theorem kept_addImage {im : Image} : Kept b w (w.addImage im) where
  next := Nat.le_succ _
  stack := rfl
  current := rfl
  programs := rfl
  list := suffix_refl _
  live _ hk := live_addImage hk
  image hb k hk := (image_addImage k).trans (if_neg (by omega))
  fresh _ hd := Or.inl hd

theorem kept_addImage_free {m : Machine} {im : Image} {size : Nat} :
    Kept b w ((((w.addImage im).kmalloc m size).2).peFreeImage w.next) where
  next := Nat.le_succ _
  stack := rfl
  current := rfl
  programs := rfl
  list := suffix_refl _
  live k hk := live_peFreeImage (Nat.ne_of_lt (lt_next_of_live hk)) (live_addImage hk)
  image hb k hk := by
    have hne : k ≠ w.next := by omega
    rw [image_peFreeImage, if_neg hne]
    exact (image_addImage k).trans (if_neg hne)
  fresh _ hd := Or.inl hd

theorem image_registerNew {m : Machine} {name path : Name} {im : Image} (k : Nat) :
    (w.registerNew m name path im).image k = if k = w.next then some im else w.image k :=
  image_addImage k

theorem kept_registerNew {m : Machine} {name path : Name} {im : Image} :
    Kept b w (w.registerNew m name path im) where
  next := Nat.le_succ _
  stack := rfl
  current := rfl
  programs := rfl
  list := suffix_cons _ _
  live _ hk := live_addImage hk
  image hb k hk := (image_registerNew k).trans (if_neg (by omega))
  fresh d hd := by
    rcases mem_cons.mp hd with hd | hd
    · subst hd
      exact Or.inr ⟨Nat.le_refl _, by rw [image_registerNew]; exact Option.isSome_of_eq_some (if_pos rfl)⟩
    · exact Or.inl hd

theorem Kept.rollback {m : Machine} {name path : Name} {im : Image} {d : LoadedDll}
    (hd : d.image = w.next) (h : Kept b (w.registerNew m name path im) w') :
    Kept b w (w'.rollback d w.dllList) where
  next := Nat.le_trans (Nat.le_succ _) h.next
  stack := h.stack
  current := h.current
  programs := h.programs
  list := suffix_refl _
  live k hk := by
    have hne : k ≠ d.image := by rw [hd]; exact Nat.ne_of_lt (lt_next_of_live hk)
    exact live_peFreeImage hne (h.live k (live_addImage hk))
  image hb k hk := by
    have hne : k ≠ w.next := by omega
    have hfree : (w'.rollback d w.dllList).image k = w'.image k := by
      show (w'.peFreeImage d.image).image k = w'.image k
      rw [image_peFreeImage, hd, if_neg hne]
    rw [hfree, h.image (Nat.le_succ_of_le hb) k hk, image_registerNew, if_neg hne]
  fresh _ hd := Or.inl hd

theorem LoadCase.kept {m : Machine} {name : Name} {r : Option Nat × World}
    (h : LoadCase (Kept b) m name w r) : Kept b w r.2 := by
  cases h with
  | found _ => exact Kept.of_quiet (Quiet.refl b w)
  | refused _ => exact Kept.of_quiet (Quiet.refl b w)
  | noImage _ h₁ => exact h₁.enter
  | noRecord _ h₁ => exact h₁.enter.trans kept_addImage_free
  | failed _ _ h₁ h₂ => exact h₁.enter.trans (Kept.rollback rfl h₂)
  | done _ _ h₁ h₂ => exact h₁.enter.trans (kept_registerNew.trans (h₂.trans kept_log))
  | attached _ _ h₁ h₂ h₃ =>
    exact h₁.enter.trans (kept_registerNew.trans (h₂.trans (kept_log.trans (h₃.trans kept_log))))

end Kept

theorem peLoadDll_kept (m : Machine) (n : Nat) (name : Name) (w : World) :
    Kept w.next w (peLoadDll m n name w).2 := by
  induction n generalizing name w with
  | zero => exact Kept.of_quiet quiet_hang
  | succ n ih =>
    have hl : Tracks (Kept w.next) (peLoadDll m n) :=
      ⟨fun name' w' => (ih name' w').mono rfl w.next, fun name' w' => (ih name' w').current⟩
    have hcase := loadDllBody_case (m := m) (tracking_kept w.next) hl n name (Nat.le_refl w.next)
    exact hcase.kept.trans kept_log

theorem peLoadDll_tracks_kept (m : Machine) (n : Nat) (b : Nat) :
    Tracks (Kept b) (peLoadDll m n) :=
  ⟨fun name w => (peLoadDll_kept m n name w).mono rfl b, fun name w => (peLoadDll_kept m n name w).current⟩

end DiscouNT.Loader
