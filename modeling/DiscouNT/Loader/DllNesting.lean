import DiscouNT.Lib.Nesting
import DiscouNT.Loader.Agreement
import DiscouNT.Loader.ImportSlots
import Mathlib.Data.Set.Card
import Mathlib.Data.Set.Finite.List

/-!
# Loader.DllNesting

How deep the calls of `PeLoadDll` are nested. The ELF half of the recursion is stopped by the stack
of 16 names, the PE half by the registration of a DLL before its imports are resolved: every nested
call either has one more name on the stack or one more name registered. The second half needs that a
DLL is registered under the name it was asked for, which a name of 64 bytes or more is not.
-/

namespace DiscouNT.Loader

open Lib List

abbrev DllCall := Name × World

/-- `PeLoadDll` over the calls it makes, where `k` levels are below it and `n` steps more are left
for the loops. -/
def dllLevel (m : Machine) (n k : Nat) (f : DllCall → Option Nat × World) (c : DllCall) :
    Option Nat × World :=
  let r := loadDllBody m (fun name w => f (name, w)) (n + k) c.1 c.2
  (r.1, r.2.finish c.2 c.1 r.1)

def nestedPeLoadDll (m : Machine) (deep : DllLoader) (n k : Nat) : DllLoader := fun name w =>
  nest (dllLevel m n) (fun c => deep c.1 c.2) k (name, w)

/-- The call is made in `w'` on the way of a `PeLoadDll` of `name` in `w`: while its image is loaded,
or after the DLL was registered. -/
inductive NestedIn (m : Machine) : DllCall → DllCall → Prop where
  | loading {name name' : Name} {w w' : World} (hs : Starts name w)
      (h : Kept 0 (w.enter name) w') : NestedIn m (name, w) (name', w')
  | registered {name name' path : Name} {file : File} {im : Image} {w w₁ w' : World}
      (hs : Starts name w) (hfile : findDllFile m name w = some (path, file))
      (h₁ : Kept 0 (w.enter name) w₁)
      (h₂ : Kept 0 ((w₁.leave w.currentLoading).registerNew m name path im) w') :
      NestedIn m (name, w) (name', w')

section Body

variable {m : Machine} {load load' : DllLoader}

theorem addDll_agrees (hl : Tracks (Kept 0) load) {steps : Nat} {name path : Name} {im : Image}
    {w : World} (h : LoadersAgree load load' (Kept 0) (w.registerNew m name path im)) :
    addDll m load' steps name path im w = addDll m load steps name path im w := by
  have hR := tracking_kept 0
  have hlist : ((w.addImage im).kmalloc m (sizeofLoadedDll m.arch)).2.dllList = w.dllList := rfl
  have hregister : ((w.addImage im).kmalloc m (sizeofLoadedDll m.arch)).2.register name
      (newDll name path w.next) = w.registerNew m name path im := rfl
  unfold addDll
  rcases hk : (w.addImage im).kmalloc m (sizeofLoadedDll m.arch) with ⟨a, w'⟩
  rw [hk] at hregister
  cases a with
  | zero => rfl
  | succ a =>
    dsimp only at hregister ⊢
    unfold initDll
    dsimp only
    have himports := peResolveImports_agrees (m := m) hR hl h steps (Nat.zero_le w.next) (hR.refl _)
    have hreached := peResolveImports_tracks (m := m) hR hl steps (Nat.zero_le w.next)
      (w.registerNew m name path im)
    rw [hregister, himports]
    split
    · rw [attach_agrees hR (fun _ _ => kept_log) hl h steps _
        (hR.trans hreached (hR.quiet (quiet_relocate (Nat.zero_le w.next))))]
    · rfl

theorem loadDllBody_agrees (hl : Tracks (Kept 0) load) {steps : Nat} {name : Name} {w : World}
    (h : ∀ name' w', NestedIn m (name, w) (name', w') → load' name' w' = load name' w') :
    loadDllBody m load' steps name w = loadDllBody m load steps name w := by
  have hR := tracking_kept 0
  unfold loadDllBody
  split
  · rfl
  · rename_i hfind
    split
    · rfl
    · rename_i hidle
      split
      · rfl
      · rename_i path file hfile
        split
        · rfl
        · rename_i hroom
          have hs : Starts name w := by
            refine ⟨hfind, fun s hs => ?_, Nat.lt_of_not_le hroom⟩
            simpa using fun h => hidle (any_eq_true.mpr ⟨s, hs, h⟩)
          have henter : LoadersAgree load load' (Kept 0) (w.enter name) :=
            fun name' w' hw => h name' w' (.loading hs hw)
          have hfollows := loaderEnv_follows (m := m) hR hl
          have hreached := peLoadImage_follows hfollows m.arch file (w.enter name)
          dsimp only
          rw [peLoadImage_agrees hfollows (loaderEnv_agrees hR hl henter) m.arch file (hR.refl _)]
          split
          · rfl
          · exact addDll_agrees hl fun name' w' hw => h name' w' (.registered hs hfile hreached hw)

end Body

theorem loadDllBody_kept {m : Machine} {load : DllLoader} (hl : Tracks (Kept 0) load) (steps : Nat)
    (name : Name) (w : World) : Kept 0 w (loadDllBody m load steps name w).2 :=
  (loadDllBody_case (tracking_kept 0) hl steps name (Nat.zero_le _)).kept

theorem dllLevel_askedOnly (m : Machine) (n : Nat) :
    AskedOnly (dllLevel m n) (fun f => Tracks (Kept 0) fun name w => f (name, w)) (NestedIn m) where
  good hf := by
    refine ⟨fun name w => ?_, fun name w => ?_⟩
    · exact (loadDllBody_kept hf _ name w).trans kept_log
    · exact (loadDllBody_kept hf _ name w).current
  only {k f g c} hf _ h := by
    have hbody : loadDllBody m (fun name w => g (name, w)) (n + k) c.1 c.2 =
        loadDllBody m (fun name w => f (name, w)) (n + k) c.1 c.2 :=
      loadDllBody_agrees hf fun name' w' hnested => (h (name', w') hnested).symm
    unfold dllLevel
    rw [hbody]

/-- The names that a DLL can still be registered under. -/
def unregistered (w : World) : Set Name :=
  {name | name.length < 64 ∧ ∀ d ∈ w.dllList, d.name ≠ name}

/-- How deep calls can be nested in a call made in `w`, and one more. -/
noncomputable def nestingRank (c : DllCall) : Nat :=
  17 * (unregistered c.2).ncard + (16 - c.2.loadingStack.length)

def ShortNames (m : Machine) : Prop :=
  ∀ name w, 64 ≤ name.length → findDllFile m name w = none

theorem unregistered_finite (w : World) : (unregistered w).Finite :=
  have : Finite UInt8 := .of_injective UInt8.toFin fun _ _ h => UInt8.toFin_inj.mp h
  (finite_length_lt UInt8 64).subset fun _ h => h.1

theorem unregistered_mono {w w' : World} (h : w.dllList <:+ w'.dllList) :
    unregistered w' ⊆ unregistered w :=
  fun _ hname => ⟨hname.1, fun d hd => hname.2 d (h.subset hd)⟩

theorem nestingRank_lt {m : Machine} (hnames : ShortNames m) {c c' : DllCall}
    (h : NestedIn m c c') : nestingRank c' < nestingRank c := by
  cases h with
  | @loading name name' w w' hs hkept =>
    have hlist : w.dllList <:+ w'.dllList := hkept.list
    have hstack : w'.loadingStack.length = w.loadingStack.length + 1 := by
      rw [hkept.stack]
      rfl
    have hless := Set.ncard_le_ncard (unregistered_mono hlist) (unregistered_finite w)
    have hroom := hs.room
    unfold nestingRank
    dsimp only
    omega
  | @registered name name' path file im w w₁ w' hs hfile h₁ h₂ =>
    have hshort : name.length < 64 := by
      by_contra hlong
      rw [hnames name w (Nat.le_of_not_lt hlong)] at hfile
      cases hfile
    have hlist : w.dllList <:+ w'.dllList := h₁.list.trans ((suffix_cons _ _).trans h₂.list)
    have hname : (newDll name path w₁.next).name = name := if_pos hshort
    have hin : newDll name path w₁.next ∈ w'.dllList := h₂.list.subset (mem_cons_self ..)
    have hstack : w'.loadingStack = w.loadingStack := by
      rw [h₂.stack]
      exact congrArg List.tail h₁.stack
    have hold : name ∈ unregistered w := by
      refine ⟨hshort, fun d hd heq => ?_⟩
      exact find?_eq_none.mp hs.unregistered d hd (beq_iff_eq.mpr heq)
    have hgone : name ∉ unregistered w' := fun h => h.2 _ hin hname
    have hless : (unregistered w').ncard < (unregistered w).ncard :=
      Set.ncard_lt_ncard ⟨unregistered_mono hlist, fun h => hgone (h hold)⟩ (unregistered_finite w)
    unfold nestingRank
    dsimp only
    rw [hstack]
    omega

/-- The stack fits its 16 places and holds no name twice, in whatever case. -/
structure StackOk (w : World) : Prop where
  depth : w.loadingStack.length ≤ 16
  apart : w.loadingStack.Pairwise fun a b => peNameEqualsIgnoreCase b a = false

theorem StackOk.enter {name : Name} {w : World} (h : StackOk w) (hs : Starts name w) :
    StackOk (w.enter name) where
  depth := hs.room
  apart := pairwise_cons.mpr ⟨hs.idle, h.apart⟩

theorem StackOk.of_eq {w w' : World} (h : StackOk w) (hstack : w'.loadingStack = w.loadingStack) :
    StackOk w' :=
  ⟨hstack ▸ h.depth, hstack ▸ h.apart⟩

theorem NestedIn.stackOk {m : Machine} {c c' : DllCall} (h : NestedIn m c c') (hok : StackOk c.2) :
    StackOk c'.2 := by
  cases h with
  | loading hs hkept => exact (hok.enter hs).of_eq hkept.stack
  | registered hs hfile h₁ h₂ =>
    exact hok.of_eq (h₂.stack.trans (congrArg List.tail h₁.stack))

def Framed (load : DllLoader) : Prop := Tracks (Kept 0) load

/-- The recursion that starts with a `PeLoadDll` of `name` in `w` comes to an end, and all its calls
are made with a proper stack. -/
structure RecursionEnds (m : Machine) (name : Name) (w : World) : Prop where
  /-- Calls are nested to a bounded depth, however long the loops are followed: what stands for
  deeper calls makes no difference. -/
  bounded : ∃ depth, ∀ n deep deep', Framed deep → Framed deep' →
    nestedPeLoadDll m deep n depth name w = nestedPeLoadDll m deep' n depth name w
  /-- Nested calls are made with a proper stack: loaders that differ with another stack make no
  difference. -/
  calls : StackOk w → ∀ n k deep deep', Framed deep → Framed deep' →
    (∀ name' w', StackOk w' → deep name' w' = deep' name' w') →
    nestedPeLoadDll m deep n k name w = nestedPeLoadDll m deep' n k name w
  push : StackOk w → Starts name w → StackOk (w.enter name)

theorem nested_calls_stackOk {m : Machine} {name : Name} {w : World} (hw : StackOk w) (n k : Nat)
    {deep deep' : DllLoader} (hdeep : Framed deep) (hdeep' : Framed deep')
    (hagree : ∀ name' w', StackOk w' → deep name' w' = deep' name' w') :
    nestedPeLoadDll m deep n k name w = nestedPeLoadDll m deep' n k name w :=
  (dllLevel_askedOnly m n).nest_guarded (f := fun c : DllCall => deep c.1 c.2)
    (g := fun c : DllCall => deep' c.1 c.2) (I := fun c => StackOk c.2) hdeep hdeep'
    (fun hok hnested => hnested.stackOk hok) (fun c hok => hagree c.1 c.2 hok) hw

def cyclicVolume : Machine :=
  sampleMachine [(ascii "A.DLL", samplePe (ascii "B.DLL") [] 400),
    (ascii "B.DLL", samplePe (ascii "A.DLL") [] 400)]

theorem sampleMachine_shortNames {files : List (Name × File)}
    (h : ∀ f ∈ files, f.1.length < 60) : ShortNames (sampleMachine files) := by
  intro name w hlong
  have hnone : ∀ path, 78 ≤ path.length → (sampleMachine files).cdfsReadFile path w.ticks = none := by
    intro path hpath
    refine Option.map_eq_none_iff.mpr (find?_eq_none.mpr fun f hf heq => ?_)
    have hlength := congrArg List.length (beq_iff_eq.mp heq)
    have hshort := h f hf
    rw [length_append, show systemDir.length = 18 from by decide +kernel] at hlength
    omega
  have hupper : 64 ≤ (upper (name.take 127)).length := by
    rw [upper, length_map, length_take]
    omega
  unfold findDllFile
  dsimp only
  rw [hnone _ (by rw [length_append, show systemDir.length = 18 from by decide +kernel]; omega),
    hnone _ (by rw [length_append, show appsDir.length = 14 from by decide +kernel]; omega)]
  rfl

def longName : Name := List.replicate 64 0x41

/-- A DLL that imports nothing from the DLL of that name. -/
def selfImporting : File where
  bytes := ofSegments [(0, [0x4D, 0x5A]), (60, [64]), (64, [0x50, 0x45]), (88, [0x0B, 0x01]),
    (144, [0, 2]), (148, [0, 2]), (180, [6]), (192, [0, 1]), (268, [64, 1]), (272, [144, 1]),
    (320, longName)]
  size := 512
  size_lt := (samplePe [] [] 0).size_lt

def selfImportingVolume : Machine := sampleMachine [(longName, selfImporting)]

structure Unknown (w : World) : Prop where
  list : ∀ d ∈ w.dllList, d.name ≠ longName
  stack : w.loadingStack = []

def LogGrows (w w' : World) : Prop := w.history <:+ w'.history ∧ w.next ≤ w'.next

theorem tracking_logGrows : Tracking 0 LogGrows where
  quiet h := ⟨by rw [h.history], Nat.le_of_eq h.next.symm⟩
  trans h h' := ⟨h.1.trans h'.1, Nat.le_trans h.2 h'.2⟩
  next h := h.2

theorem logGrows_log (w : World) (e : Event) : LogGrows w (w.log e) :=
  ⟨suffix_cons _ _, Nat.le_refl _⟩

/-- The image of a PE file whose headers are accepted, before its relocation. -/
def peMemory (f : File) : Mem :=
  let h := peHeaders f.bytes (eLfanew f.bytes)
  (peCopySections f h.sizeOfImage h.numberOfSections
    (eLfanew f.bytes + sizeofFileHeader + h.sizeOfOptionalHeader)
    (blit (fun _ => 0) 0 f.bytes 0 (if f.size < h.sizeOfHeaders then f.size else h.sizeOfHeaders))).1

structure AcceptedPe (f : File) : Prop where
  size : 64 ≤ f.size
  notElf : readLE f.bytes 0 4 ≠ elfMagic
  dos : eMagic f.bytes = 0x5A4D
  inside : u32 (eLfanew f.bytes + 4) ≤ f.size
  signature : (peHeaders f.bytes (eLfanew f.bytes)).signature = 0x4550
  magic : (peHeaders f.bytes (eLfanew f.bytes)).magic = 0x10B
  image : ¬ ((peHeaders f.bytes (eLfanew f.bytes)).sizeOfImage = 0 ∨
    0x1000000 < (peHeaders f.bytes (eLfanew f.bytes)).sizeOfImage)

theorem AcceptedPe.load {σ : Type} {arch : Arch} {env : Env σ} {f : File} {w w' : σ} {a : Nat}
    (h : AcceptedPe f)
    (hk : env.kmalloc (sizeofRuntimeHeader arch +
      (peHeaders f.bytes (eLfanew f.bytes)).sizeOfImage) w = (a + 1, w')) :
    (peLoadImage arch env f w).world = w' ∧
      ∃ im, (peLoadImage arch env f w).image = some im ∧ im.mem = peMemory f := by
  have hpe : peLoadImage arch env f w = (peLoadPe arch env f w).after [.src 0 4] := by
    rw [peLoadImage, if_neg (Nat.not_lt.mpr h.size), if_neg h.notElf]
  rw [hpe, peLoadPe, if_neg (not_not.mpr h.dos)]
  dsimp only
  rw [if_neg (Nat.not_lt.mpr h.inside), if_neg (not_not.mpr h.signature),
    if_neg (not_not.mpr h.magic), if_neg h.image, peBuild]
  dsimp only
  rw [hk]
  exact ⟨rfl, _, rfl, rfl⟩

theorem selfImporting_accepted : AcceptedPe selfImporting := by
  constructor <;> decide +kernel

theorem selfImporting_imports :
    readLE (peMemory selfImporting) 0 4 ≠ elfMagic ∧
      ¬ numberOfRvaAndSizes (peMemory selfImporting) < 2 ∧
      dataDir (peMemory selfImporting) 2 = 256 ∧
      readLE (peMemory selfImporting) (256 + 12) 4 = 320 ∧
      cstring (peMemory selfImporting) 320 = longName := by
  decide +kernel

theorem imports_ask {load : DllLoader} (hl : Tracks LogGrows load) {steps h : Nat} {w : World}
    (hmem : w.mem h = peMemory selfImporting) :
    LogGrows (load longName w.peClearLastError).2
      (peResolveImports selfImportingVolume load (steps + 1) h w).world := by
  obtain ⟨hmagic, hcount, hdir, hname, hstring⟩ := selfImporting_imports
  have hR := tracking_logGrows
  have hmem' : w.peClearLastError.mem h = peMemory selfImporting := hmem
  unfold peResolveImports
  dsimp only
  rw [hmem, if_neg hmagic, if_neg hcount, hdir, if_neg (by decide), importDescriptors]
  dsimp only
  rw [hmem', hname, if_neg (by decide), hstring]
  exact hR.trans (hR.quiet (quiet_importLookups (Nat.zero_le h) _ _ _ _))
    (importDescriptors_tracks hR hl (Nat.zero_le h) _ _ _)

theorem selfImporting_found (w : World) : findDllFile selfImportingVolume longName w =
    some (systemDir ++ upper (longName.take 127), selfImporting) := by
  have hpath : (systemDir ++ longName == systemDir ++ upper (longName.take 127)) = true := by
    decide +kernel
  have hread : selfImportingVolume.cdfsReadFile (systemDir ++ upper (longName.take 127)) w.ticks =
      some selfImporting := by
    show ([(longName, selfImporting)].find? fun f =>
      systemDir ++ f.1 == systemDir ++ upper (longName.take 127)).map (·.2) = some selfImporting
    simp only [find?_cons, hpath, Option.map_some]
  unfold findDllFile
  dsimp only
  rw [hread]

theorem selfImportingVolume_kmalloc (size : Nat) (w : World) : ∃ a,
    w.kmalloc selfImportingVolume size = (a + 1, { w with ticks := w.ticks + 1 }) := by
  refine ⟨0x100000 * (w.ticks + 1) - 1, ?_⟩
  have hvalue : w.kmalloc selfImportingVolume size =
      (0x100000 * (w.ticks + 1), { w with ticks := w.ticks + 1 }) := rfl
  rw [hvalue, Nat.sub_add_cancel (by omega)]

theorem initDll_asks {load : DllLoader} (hl : Tracks LogGrows load) {steps h : Nat} {w : World}
    (hw : Unknown w) (hmem : w.mem h = peMemory selfImporting) :
    ∃ w', Unknown w' ∧ LogGrows (load longName w').2
      (initDll selfImportingVolume load (steps + 1) longName
        (systemDir ++ upper (longName.take 127)) h w).2 := by
  have hR := tracking_logGrows
  let d := newDll longName (systemDir ++ upper (longName.take 127)) h
  have hname : d.name ≠ longName := by
    have hlong : d.name = longName.take 64 ++ (systemDir ++ upper (longName.take 127)) := by
      show (if longName.length < 64 then longName
        else longName.take 64 ++ (systemDir ++ upper (longName.take 127))) = _
      exact if_neg (by decide)
    rw [hlong]
    decide +kernel
  refine ⟨(w.register longName d).peClearLastError, ⟨fun e he => ?_, hw.stack⟩, ?_⟩
  · rcases mem_cons.mp he with rfl | he
    · exact hname
    · exact hw.list e he
  · have hask : LogGrows (load longName (w.register longName d).peClearLastError).2
        (peResolveImports selfImportingVolume load (steps + 1) h (w.register longName d)).world :=
      imports_ask hl hmem
    unfold initDll
    dsimp only
    split
    · have hrelocated := hR.trans hask (hR.quiet (quiet_relocate (Nat.zero_le h)))
      rcases attach_cases (m := selfImportingVolume) hR hl (steps + 1) d
        ((peResolveImports selfImportingVolume load (steps + 1) h
          (w.register longName d)).world.relocate h) with hattach | ⟨w', hentry, hmain⟩
      · exact hR.trans hrelocated (hR.trans hattach (logGrows_log _ _))
      · exact hR.trans hrelocated (hR.trans hentry (hR.trans (logGrows_log _ _)
          (hR.trans hmain (logGrows_log _ _))))
    · exact hR.trans hask ⟨suffix_cons _ _, Nat.le_refl _⟩

theorem addDll_asks {load : DllLoader} (hl : Tracks LogGrows load) {steps : Nat} {w : World}
    {im : Image} (hw : Unknown w) (hmem : im.mem = peMemory selfImporting) :
    ∃ w', Unknown w' ∧ LogGrows (load longName w').2
      (addDll selfImportingVolume load (steps + 1) longName
        (systemDir ++ upper (longName.take 127)) im w).2 := by
  obtain ⟨a, hk⟩ := selfImportingVolume_kmalloc (sizeofLoadedDll selfImportingVolume.arch)
    (w.addImage im)
  unfold addDll
  rw [hk]
  dsimp only
  refine initDll_asks hl ⟨hw.list, hw.stack⟩ ?_
  have himage : (w.addImage im).image w.next = some im := (image_addImage _).trans (if_pos rfl)
  simp only [World.mem, World.image] at himage ⊢
  rw [himage]
  exact hmem

theorem longName_nested {load : DllLoader} (hl : Tracks LogGrows load) {steps : Nat} {w : World}
    (hw : Unknown w) : ∃ w', Unknown w' ∧ LogGrows (load longName w').2
      (loadDllBody selfImportingVolume load (steps + 1) longName w).2 := by
  have hfind : w.dllList.find? (fun d => d.name == longName) = none :=
    find?_eq_none.mpr fun d hd heq => hw.list d hd (beq_iff_eq.mp heq)
  let w₁ : World := { w.enter longName with ticks := w.ticks + 1 }
  obtain ⟨a, hk⟩ : ∃ a, (loaderEnv selfImportingVolume load).kmalloc
      (sizeofRuntimeHeader selfImportingVolume.arch +
        (peHeaders selfImporting.bytes (eLfanew selfImporting.bytes)).sizeOfImage)
      (w.enter longName) = (a + 1, w₁) :=
    selfImportingVolume_kmalloc _ _
  obtain ⟨hworld, im, himage, hmem⟩ := selfImporting_accepted.load hk
  have hw1 : Unknown (w₁.leave w.currentLoading) := ⟨hw.list, hw.stack⟩
  unfold loadDllBody
  rw [hfind]
  dsimp only
  rw [hw.stack, any_nil, if_neg Bool.false_ne_true, selfImporting_found]
  dsimp only
  rw [if_neg (by decide), himage, hworld]
  dsimp only
  exact addDll_asks hl hw1 hmem

/-- An event that no run logs: what a rollback loses is not the DLL that is rolled back. -/
def neverLogged : Event :=
  .rolledBack ⟨[], [], 0⟩ [⟨[], [], 0⟩]

def LogsNoSuch (w w' : World) : Prop :=
  (neverLogged ∈ w'.history → neverLogged ∈ w.history) ∧ w.next ≤ w'.next

theorem tracking_logsNoSuch : Tracking 0 LogsNoSuch where
  quiet h := ⟨by rw [h.history]; exact id, Nat.le_of_eq h.next.symm⟩
  trans h h' := ⟨fun hin => h.1 (h'.1 hin), Nat.le_trans h.2 h'.2⟩
  next h := h.2

theorem logsNoSuch_log {w : World} {e : Event} (hne : neverLogged ≠ e) : LogsNoSuch w (w.log e) :=
  ⟨fun hin => (mem_cons.mp hin).resolve_left hne, Nat.le_refl _⟩

theorem neverLogged_ne_rolledBack {w : World} {d : LoadedDll} {next : List LoadedDll} :
    neverLogged ≠ .rolledBack d (w.lost d next) := by
  intro h
  injection h with hd hlost
  have hin : d ∈ w.lost d next := by
    rw [← hlost, ← hd]
    exact .head _
  have hne := (mem_filter.mp hin).2
  simp at hne

theorem logsNoSuch_registerNew {m : Machine} {name path : Name} {im : Image} {w w₁ w2 : World}
    (h₁ : LogsNoSuch (w.enter name) w₁)
    (h₂ : LogsNoSuch ((w₁.leave w.currentLoading).registerNew m name path im) w2) :
    LogsNoSuch w w2 :=
  ⟨fun hin => h₁.1 ((mem_cons.mp (h₂.1 hin)).resolve_left fun h => by cases h),
    Nat.le_trans h₁.2 (Nat.le_trans (Nat.le_succ _) h₂.2)⟩

theorem LoadCase.logsNoSuch {m : Machine} {name : Name} {w : World} {r : Option Nat × World}
    (h : LoadCase LogsNoSuch m name w r) : LogsNoSuch w r.2 := by
  have hR := tracking_logsNoSuch
  cases h with
  | found _ => exact hR.refl w
  | refused _ => exact hR.refl w
  | noImage _ h₁ => exact h₁
  | noRecord _ h₁ => exact ⟨h₁.1, Nat.le_succ_of_le h₁.2⟩
  | failed _ _ h₁ h₂ =>
    have hbefore := logsNoSuch_registerNew h₁ h₂
    exact ⟨fun hin => hbefore.1 ((mem_cons.mp hin).resolve_left neverLogged_ne_rolledBack),
      hbefore.2⟩
  | done _ _ h₁ h₂ =>
    exact hR.trans (logsNoSuch_registerNew h₁ h₂) (logsNoSuch_log fun h => by cases h)
  | attached _ _ h₁ h₂ h3 =>
    have hmain := hR.trans (logsNoSuch_registerNew h₁ h₂)
      (hR.trans (logsNoSuch_log fun h => by cases h) h3)
    exact hR.trans hmain (logsNoSuch_log fun h => by cases h)

def quietLoader : DllLoader := fun _ w => (none, w)

def notingLoader : DllLoader := fun _ w => (none, w.log neverLogged)

theorem quietLoader_framed : Framed quietLoader :=
  ⟨fun _ w => (tracking_kept 0).refl w, fun _ _ => rfl⟩

theorem notingLoader_framed : Framed notingLoader :=
  ⟨fun _ _ => kept_log, fun _ _ => rfl⟩

theorem nested_framed {m : Machine} {deep : DllLoader} (hdeep : Framed deep) (n k : Nat) :
    Framed (nestedPeLoadDll m deep n k) :=
  (dllLevel_askedOnly m n).nest_good (f := fun c : DllCall => deep c.1 c.2) hdeep k

theorem nested_quiet (m : Machine) (n k : Nat) (name : Name) (w : World) :
    LogsNoSuch w (nestedPeLoadDll m quietLoader n k name w).2 := by
  induction k generalizing name w with
  | zero => exact tracking_logsNoSuch.refl w
  | succ k ih =>
    have hl : Tracks LogsNoSuch (nestedPeLoadDll m quietLoader n k) :=
      ⟨ih, (nested_framed quietLoader_framed n k).current⟩
    have hcase := loadDllBody_case (m := m) tracking_logsNoSuch hl (n + k) name (Nat.zero_le w.next)
    exact tracking_logsNoSuch.trans hcase.logsNoSuch (logsNoSuch_log fun h => by cases h)

theorem LoadCase.logGrows {m : Machine} {name : Name} {w : World} {r : Option Nat × World}
    (h : LoadCase LogGrows m name w r) : LogGrows w r.2 := by
  have hR := tracking_logGrows
  have hlog : ∀ {w₁ w2 : World} {path : Name} {im : Image}, LogGrows (w.enter name) w₁ →
      LogGrows ((w₁.leave w.currentLoading).registerNew m name path im) w2 → LogGrows w w2 :=
    fun h₁ h₂ => ⟨h₁.1.trans ((suffix_cons _ _).trans h₂.1),
      Nat.le_trans h₁.2 (Nat.le_trans (Nat.le_succ _) h₂.2)⟩
  cases h with
  | found _ => exact hR.refl w
  | refused _ => exact hR.refl w
  | noImage _ h₁ => exact h₁
  | noRecord _ h₁ => exact ⟨h₁.1, Nat.le_succ_of_le h₁.2⟩
  | failed _ _ h₁ h₂ => exact hR.trans (hlog h₁ h₂) ⟨suffix_cons _ _, Nat.le_refl _⟩
  | done _ _ h₁ h₂ => exact hR.trans (hlog h₁ h₂) (logGrows_log _ _)
  | attached _ _ h₁ h₂ h3 =>
    exact hR.trans (hlog h₁ h₂) (hR.trans (logGrows_log _ _) (hR.trans h3 (logGrows_log _ _)))

theorem nested_noting (m : Machine) (n k : Nat) (name : Name) (w : World) :
    LogGrows w (nestedPeLoadDll m notingLoader n k name w).2 := by
  induction k generalizing name w with
  | zero => exact logGrows_log w neverLogged
  | succ k ih =>
    have hl : Tracks LogGrows (nestedPeLoadDll m notingLoader n k) :=
      ⟨ih, (nested_framed notingLoader_framed n k).current⟩
    have hcase := loadDllBody_case (m := m) tracking_logGrows hl (n + k) name (Nat.zero_le w.next)
    exact tracking_logGrows.trans hcase.logGrows (logGrows_log _ _)

theorem longName_reaches (k : Nat) {w : World} (hw : Unknown w) : neverLogged ∈
    (nestedPeLoadDll selfImportingVolume notingLoader 1 k longName w).2.history := by
  induction k generalizing w with
  | zero => exact mem_cons_self ..
  | succ k ih =>
    have hl : Tracks LogGrows (nestedPeLoadDll selfImportingVolume notingLoader 1 k) :=
      ⟨nested_noting _ 1 k, (nested_framed notingLoader_framed 1 k).current⟩
    obtain ⟨w', hw', hgrows⟩ := @longName_nested _ hl k _ hw
    rw [Nat.add_comm k 1] at hgrows
    exact mem_cons_of_mem _ (hgrows.1.subset (ih hw'))

end DiscouNT.Loader
