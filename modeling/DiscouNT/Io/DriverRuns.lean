import DiscouNT.Io.DriverLoad
import DiscouNT.Loader.PeBounds

/-!
# Io.DriverRuns

When a load of a driver does all or nothing. No part of a load writes to an image that is in the
table (`prepareImage_keeps`, `callEntry_keeps`), so symbols resolve as before exactly as long as the
table is the same. The image is put in the table before its entry is called, and stays there when
the entry fails; and a full table takes no image, without a failure.
-/

namespace DiscouNT.Io

open Lib List
open Ob

structure SameImages (b : Nat) (w w' : Loader.World) : Prop where
  next : w.next ≤ w'.next
  image : ∀ k < b, w'.image k = w.image k

variable {w' : Loader.World}

theorem SameImages.trans {b : Nat} {w w'' : Loader.World} (h : SameImages b w w')
    (h' : SameImages b w' w'') : SameImages b w w'' :=
  ⟨Nat.le_trans h.next h'.next, fun k hk => (h'.image k hk).trans (h.image k hk)⟩

theorem SameImages.refl (b : Nat) (w : Loader.World) : SameImages b w w :=
  ⟨Nat.le_refl _, fun _ _ => rfl⟩

theorem sameImages_of_kept {b : Nat} {w : Loader.World} (h : Loader.Kept b w w')
    (hb : b ≤ w.next) : SameImages b w w' :=
  ⟨h.next, h.image hb⟩

variable {arch : Arch} {image : Nat}

theorem driverProc_congr {w : Loader.World} {func : Name} (h : w'.image image = w.image image) :
    driverProc arch w' image func = driverProc arch w image func := by
  rw [driverProc, driverProc, h]

theorem driverResolveIn_congr {w : Loader.World} {func : Name}
    {drivers : List LoadedDriver} (h : ∀ d ∈ drivers, w'.image d.image = w.image d.image) :
    driverResolveIn arch w' func drivers = driverResolveIn arch w func drivers := by
  induction drivers with
  | nil => rfl
  | cons d drivers ih =>
    rw [driverResolveIn, driverResolveIn, driverProc_congr (h d mem_cons_self),
      ih fun e he => h e (mem_cons_of_mem _ he)]

variable {s : DriverState}

theorem driverResolveSymbol_congr {s' : DriverState} (htable : s'.loadedDrivers = s.loadedDrivers)
    (h : ∀ d ∈ s.loadedDrivers, s'.loader.image d.image = s.loader.image d.image)
    (func : Option Name) : driverResolveSymbol arch s' func = driverResolveSymbol arch s func := by
  cases func with
  | none => rfl
  | some func =>
    rw [driverResolveSymbol, driverResolveSymbol, htable]
    exact driverResolveIn_congr h

section Load

variable {p : Platform}

theorem load_tracks (b : Nat) : Loader.Tracks (Loader.Kept b) p.load :=
  Loader.peLoadDll_tracks_kept p.machine p.fuel b

theorem sameImages_serve (r : Loader.Request) (w : Loader.World) :
    SameImages w.next w (Loader.serve p.machine p.load r w) :=
  sameImages_of_kept
    (Loader.serve_tracks (Loader.tracking_kept w.next) (load_tracks w.next) r w) (Nat.le_refl _)

theorem sameImages_requests : ∀ (requests : List Loader.Request) (w : Loader.World),
    SameImages w.next w
      (requests.foldl (fun w q => Loader.serve p.machine p.load q w) w) := by
  intro requests
  induction requests with
  | nil => exact fun w => SameImages.refl _ w
  | cons q requests ih =>
    intro w
    have hserve := @sameImages_serve p q w
    have hrest := ih (Loader.serve p.machine p.load q w)
    exact hserve.trans ⟨hrest.next, fun k hk => hrest.image k (Nat.lt_of_lt_of_le hk hserve.next)⟩

theorem readImage_keeps (path : Name) (s : DriverState) :
    (readImage p path s).2.loadedDrivers = s.loadedDrivers ∧ (readImage p path s).2.io = s.io ∧
      SameImages s.loader.next s.loader (readImage p path s).2.loader := by
  unfold readImage
  split
  · exact ⟨rfl, rfl, SameImages.refl _ _⟩
  · rename_i file _
    have hstart : Loader.Kept s.loader.next s.loader { s.loader with loadingDriver := true } :=
      Loader.Kept.of_quiet ⟨rfl, rfl, rfl, rfl, rfl, rfl, fun _ _ => rfl, fun _ => rfl⟩
    have hload := Loader.peLoadImage_follows (Loader.loaderEnv_follows (m := p.machine)
      (Loader.tracking_kept s.loader.next) (@load_tracks p _)) p.machine.arch file
      { s.loader with loadingDriver := true }
    have hend : ∀ w : Loader.World,
        Loader.Kept s.loader.next w { w with loadingDriver := false } :=
      fun w => Loader.Kept.of_quiet ⟨rfl, rfl, rfl, rfl, rfl, rfl, fun _ _ => rfl, fun _ => rfl⟩
    exact ⟨rfl, rfl, sameImages_of_kept (hstart.trans (hload.trans (hend _))) (Nat.le_refl _)⟩

theorem linkImage_keeps (im : Loader.Image) (s : DriverState) :
    (linkImage p im s).2.loadedDrivers = s.loadedDrivers ∧ (linkImage p im s).2.io = s.io ∧
      SameImages s.loader.next s.loader (linkImage p im s).2.loader ∧
      ∀ image, (linkImage p im s).1 = some image →
        image = s.loader.next ∧ image < (linkImage p im s).2.loader.next := by
  unfold linkImage
  have himports := Loader.peResolveImports_tracks (m := p.machine)
    (Loader.tracking_kept s.loader.next) (@load_tracks p _) p.fuel (Nat.le_refl _) (s.loader.addImage im)
  simp only
  generalize Loader.peResolveImports p.machine p.load p.fuel s.loader.next (s.loader.addImage im) = v
    at himports ⊢
  have hsame := sameImages_of_kept (Loader.kept_addImage.trans himports) (Nat.le_refl _)
  have hnext : s.loader.next < v.world.next := himports.next
  split_ifs
  · refine ⟨rfl, rfl, ⟨hsame.next, fun k hk => ?_⟩, fun image h => by cases h⟩
    rw [Loader.image_peFreeImage, if_neg (by omega)]
    exact hsame.image k hk
  · have hrelocate := Loader.quiet_relocate (w := v.world) (Nat.le_refl s.loader.next)
    refine ⟨rfl, rfl, ⟨?_, fun k hk => ?_⟩, fun image h => ?_⟩
    · rw [hrelocate.next]
      exact hsame.next
    · exact (hrelocate.image k hk).trans (hsame.image k hk)
    · cases h
      rw [hrelocate.next]
      exact ⟨rfl, hnext⟩
  · refine ⟨rfl, rfl, hsame, fun image h => ?_⟩
    cases h
    exact ⟨rfl, hnext⟩

theorem prepareImage_keeps (path : Name) (s : DriverState) :
    (prepareImage p path s).2.loadedDrivers = s.loadedDrivers ∧
      (prepareImage p path s).2.io = s.io ∧
      SameImages s.loader.next s.loader (prepareImage p path s).2.loader ∧
      ∀ image, (prepareImage p path s).1 = some image →
        s.loader.next ≤ image ∧ image < (prepareImage p path s).2.loader.next := by
  obtain ⟨htable, hio, hsame⟩ := @readImage_keeps p path s
  unfold prepareImage
  generalize readImage p path s = r at htable hio hsame ⊢
  obtain ⟨im, v⟩ := r
  cases im with
  | none => exact ⟨htable, hio, hsame, fun image h => by cases h⟩
  | some im =>
    obtain ⟨htable', hio', hsame', himage⟩ := @linkImage_keeps p im v
    refine ⟨htable'.trans htable, hio'.trans hio, ⟨Nat.le_trans hsame.next hsame'.next, ?_⟩, ?_⟩
    · intro k hk
      exact (hsame'.image k (Nat.lt_of_lt_of_le hk hsame.next)).trans (hsame.image k hk)
    · intro image h
      obtain ⟨rfl, hlt⟩ := himage image h
      exact ⟨hsame.next, hlt⟩

theorem ioCreateDriver_made {alloc : Allocator} {name : Option Name} {w : World}
    (h : (ioCreateDriver alloc name w).1 ≠ 0) :
    ∃ handle, Sole (ioCreateDriver alloc name w).2 handle (ioCreateDriver alloc name w).1 := by
  unfold ioCreateDriver at h ⊢
  by_cases hname : w.driverObjectType = 0 ∨ name = none
  · rw [if_pos hname] at h
    exact absurd rfl h
  · rw [if_neg hname] at h ⊢
    generalize w.kmalloc alloc sizeofDriver = r at h ⊢
    obtain ⟨driver, v⟩ := r
    simp only at h ⊢
    by_cases hdriver : driver = 0
    · rw [if_pos hdriver] at h
      exact absurd rfl h
    · rw [if_neg hdriver] at h ⊢
      have hu : (v.setDriver driver ⟨ioTypeDriver, 0, 0, fun _ => 0, fun _ => 0⟩).driverObjectType =
          v.driverObjectType := rfl
      generalize v.setDriver driver ⟨ioTypeDriver, 0, 0, fun _ => 0, fun _ => 0⟩ = u at h hu ⊢
      rcases createObject_cases alloc v.driverObjectType name driver sizeofDriver u with
        hc | ⟨i, ob', hc, hi, -, -, ⟨o, ho, htype, hbody, hcount⟩, -, -⟩
      · rw [hc, if_pos rfl] at h
        exact absurd rfl h
      · rw [hc, if_neg hi]
        exact ⟨i, o, ho, htype.trans hu.symm, hbody, hcount⟩

variable {driver handle : Nat}

theorem ioDeleteDriver_gone {w : World} (hinv : Quiet w) (ha : driver ≠ 0)
    (hsole : Sole w handle driver) : ¬ LiveDriver (ioDeleteDriver driver w) driver := by
  obtain ⟨o, ho, htype, hbody, hlast⟩ := hsole
  have hh : slot w handle = some (w.driverObjectType, driver) := by
    rw [slot_of_lookup ho, htype, hbody]
  rw [ioDeleteDriver_eq hinv hh ha, dereference_eq]
  generalize dereferenceAt (maxObjects - 1) = inner
  have hforget := hinv.forget (if w.currentDriver = driver then 0 else w.currentDriver)
  generalize hv : ({ w with currentDriver := if w.currentDriver = driver then 0 else w.currentDriver } : World) = v at hforget ⊢
  have hov : v.ob.lookup handle = some o := by rw [← hv]; exact ho
  have htv : o.type = v.driverObjectType := by rw [← hv]; exact htype
  have hhv : slot v handle = some (v.driverObjectType, driver) := by
    rw [slot_of_lookup hov, htv, hbody]
  obtain ⟨-, -, l, hl⟩ := hforget.wired.driver handle driver hhv ha
  obtain ⟨-, u, hwu, -, hrem, hdrop, -, -⟩ :=
    hforget.release_driver inner hov not_false hlast htv hbody ha hl
  rintro ⟨k, hk⟩
  obtain ⟨hkh, hku⟩ := hdrop.slot_of hk
  -- What is in the table now was there before, and only one object has a body.
  have hkv : slot v k = some (v.driverObjectType, driver) := by
    have hslot := slot_releasedLast hov k
    rcases hrem.slot k with heq | hnone
    · rw [← hslot, ← heq, hku, hdrop.driverType, hrem.driverType]
      rfl
    · rw [hnone] at hku
      cases hku
  exact hkh (hforget.wired.apart k handle _ _ driver hkv hhv ha)

theorem Quiet.runHeld {alloc : Allocator} : ∀ {ops : List Op} {w : World}, Quiet w →
    AllHeld alloc ops w → Quiet (run alloc ops w) := by
  intro ops
  induction ops with
  | nil => exact fun hinv _ => hinv
  | cons op ops ih => exact fun hinv hheld => ih (hinv.step alloc op hheld.1).1 hheld.2

theorem Sole.live {w : World} (h : Sole w handle driver) :
    LiveDriver w driver := by
  obtain ⟨o, ho, htype, hbody, -⟩ := h
  exact ⟨handle, by rw [slot_of_lookup ho, htype, hbody]⟩

structure AtRest (s : DriverState) : Prop where
  quiet : Quiet s.io
  images : ∀ d ∈ s.loadedDrivers, d.image < s.loader.next

theorem AtRest.images_mono {s' : DriverState} (hs : AtRest s)
    (htable : s'.loadedDrivers = s.loadedDrivers) (hnext : s.loader.next ≤ s'.loader.next) :
    ∀ d ∈ s'.loadedDrivers, d.image < s'.loader.next := by
  intro d hd
  rw [htable] at hd
  exact Nat.lt_of_lt_of_le (hs.images d hd) hnext

theorem callEntry_spec (hpolite : Polite p) (address : Nat)
    (hs : AtRest s) (hdriver : driver ≠ 0) (hsole : Sole s.io handle driver) :
    AtRest (callEntry p address driver s).2 ∧ Sole (callEntry p address driver s).2.io handle driver ∧
      (callEntry p address driver s).2.loadedDrivers = s.loadedDrivers ∧
      SameImages s.loader.next s.loader (callEntry p address driver s).2.loader := by
  obtain ⟨hheld, hsole'⟩ := hpolite address driver handle s hs.quiet hdriver hsole
  have hsame := @sameImages_requests p (p.entry address driver s).requests s.loader
  exact ⟨⟨hs.quiet.runHeld hheld, hs.images_mono rfl hsame.next⟩, hsole', rfl, hsame⟩

theorem AtRest.setCurrent (hs : AtRest s) (driver : Nat) :
    AtRest (ioSetCurrentDriver driver s) :=
  ⟨hs.quiet.forget driver, hs.images⟩

theorem AtRest.deleteDriver (alloc : Allocator)
    (hs : AtRest s) (hdriver : driver ≠ 0) (hsole : Sole s.io handle driver) :
    AtRest { s with io := ioDeleteDriver driver s.io } ∧
      ¬ LiveDriver (ioDeleteDriver driver s.io) driver := by
  have hquiet := (hs.quiet.step alloc (.ioDeleteDriver driver) (.inr hsole.live)).1
  exact ⟨⟨hquiet, hs.images⟩, ioDeleteDriver_gone hs.quiet hdriver hsole⟩

theorem driverCallEntry_spec (hpolite : Polite p) (name : Name) (image : Nat) (hs : AtRest s) :
    let r := driverCallEntry p name image s
    AtRest r.2.2 ∧ r.2.2.loadedDrivers = s.loadedDrivers ∧
      SameImages s.loader.next s.loader r.2.2.loader ∧
      (r.1 = 0 ↔ EntryFails p name image s) ∧
      (r.1 = 0 → r.2.1 ≠ 0 → ¬ LiveDriver r.2.2.io r.2.1) := by
  unfold driverCallEntry EntryFails beforeEntry
  have hproc : Loader.Quiet s.loader.next s.loader
      (Loader.getProcAddress p.machine image (.name (Loader.ascii "DriverEntry")) s.loader).2 :=
    Loader.quiet_getProcAddress
  have hquiet := (ioCreateDriver_spec p.alloc (some name) hs.quiet).1
  have hmade := @ioCreateDriver_made p.alloc (some name) s.io
  simp only
  generalize Loader.getProcAddress p.machine image (.name (Loader.ascii "DriverEntry")) s.loader = e
    at hproc ⊢
  obtain ⟨entry, w⟩ := e
  generalize ioCreateDriver p.alloc (some name) s.io = c at hquiet hmade ⊢
  obtain ⟨driver, io⟩ := c
  simp only at hproc hquiet hmade ⊢
  have hsame : SameImages s.loader.next s.loader w := ⟨Nat.le_of_eq hproc.next.symm, hproc.image⟩
  have hsettled : AtRest { s with loader := w, io } := ⟨hquiet, hs.images_mono rfl hsame.next⟩
  by_cases hdriver : driver = 0
  · rw [if_pos hdriver]
    exact ⟨hsettled, rfl, hsame, iff_of_true rfl (.inl hdriver), fun _ h => absurd rfl h⟩
  · rw [if_neg hdriver]
    by_cases hentry : entry = 0
    · rw [if_pos hentry]
      refine ⟨hsettled, rfl, hsame, iff_of_false Int.one_ne_zero ?_,
        fun h => absurd h Int.one_ne_zero⟩
      rintro (h | ⟨h, -⟩)
      · exact hdriver h
      · exact h hentry
    · rw [if_neg hentry]
      obtain ⟨handle, hsole⟩ := hmade hdriver
      generalize hbefore : ({ s with loader := w, io } : DriverState) = v at hsettled ⊢
      have hsole' : Sole (ioSetCurrentDriver driver v).io handle driver := by
        rw [← hbefore]
        exact hsole
      have htable : v.loadedDrivers = s.loadedDrivers := by rw [← hbefore]
      have hsame' : SameImages s.loader.next s.loader v.loader := by rw [← hbefore]; exact hsame
      obtain ⟨hcalled, hheld, htable', hsame''⟩ :=
        callEntry_spec hpolite entry (hsettled.setCurrent driver) hdriver hsole'
      have hstatus : (callEntry p entry driver (ioSetCurrentDriver driver v)).1 =
          (p.entry entry driver (ioSetCurrentDriver driver v)).status := rfl
      generalize callEntry p entry driver (ioSetCurrentDriver driver v) = r at *
      have hended := hcalled.setCurrent 0
      have himages : SameImages s.loader.next s.loader r.2.loader :=
        hsame'.trans ⟨hsame''.next, fun k hk =>
          hsame''.image k (Nat.lt_of_lt_of_le hk hsame'.next)⟩
      by_cases hfail : r.1 = 0
      · rw [if_pos hfail]
        obtain ⟨hdeleted, hgone⟩ := hended.deleteDriver p.alloc hdriver hheld
        refine ⟨hdeleted, htable'.trans htable, himages, iff_of_true rfl (.inr ⟨hentry, ?_⟩),
          fun _ _ => hgone⟩
        rw [← hstatus]
        exact hfail
      · rw [if_neg hfail]
        refine ⟨hended, htable'.trans htable, himages, iff_of_false hfail ?_,
          fun h => absurd h hfail⟩
        rintro (h | ⟨-, h⟩)
        · exact hdriver h
        · exact hfail (hstatus.trans h)

theorem driverRegisterImage_cases (path : Name) (image : Nat) (s : DriverState) :
    (maxLoadedDrivers ≤ s.loadedDrivers.length ∧ driverRegisterImage path image s = s) ∨
      (s.loadedDrivers.length < maxLoadedDrivers ∧ driverRegisterImage path image s =
        { s with loadedDrivers := ⟨path, image⟩ :: s.loadedDrivers }) := by
  unfold driverRegisterImage
  by_cases hfull : maxLoadedDrivers ≤ s.loadedDrivers.length
  · exact .inl ⟨hfull, if_pos hfull⟩
  · exact .inr ⟨by omega, if_neg hfull⟩

variable {path : Name} {s1 : DriverState}

theorem driverLoadOne_entered {service : DriverService} (hpath : service.imagePath = some path)
    (hprepared : prepareImage p path s = (some image, s1)) :
    driverLoadOne p service s =
      let r := driverCallEntry p service.name image (driverRegisterImage path image s1)
      ⟨decide (r.1 ≠ 0), some image, r.2.1, r.2.2⟩ := by
  rw [driverLoadOne, hpath]
  simp only
  rw [hprepared]

theorem atomic_of_room {r : DriverState} {status : Int} (hfrom : s.loader.next ≤ image)
    (htable : r.loadedDrivers = ⟨path, image⟩ :: s1.loadedDrivers) :
    Atomic p.machine.arch s ⟨decide (status ≠ 0), some image, driver, r⟩ ↔ status ≠ 0 := by
  unfold Atomic
  by_cases hstatus : status = 0
  · rw [if_neg (by simpa using hstatus)]
    refine iff_of_false (fun hundone => ?_) (not_not_intro hstatus)
    have hlt := hundone.images ⟨path, image⟩ (by rw [htable]; exact mem_cons_self)
    exact absurd hlt (Nat.not_lt.mpr hfrom)
  · rw [if_pos (by simpa using hstatus)]
    refine iff_of_true (fun i func addr hi hproc haddr => ?_) hstatus
    cases hi
    rw [driverResolveSymbol, htable, driverResolveIn]
    simp only at hproc ⊢
    rw [hproc]
    exact if_pos haddr

theorem atomic_of_full {r : DriverState} {status : Int}
    (hs : AtRest s) (hs1 : AtRest s1) (hto : image < s1.loader.next)
    (hsame : SameImages s.loader.next s.loader s1.loader)
    (himages : SameImages s1.loader.next s1.loader r.loader)
    (htable1 : s1.loadedDrivers = s.loadedDrivers) (htable : r.loadedDrivers = s1.loadedDrivers)
    (hgone : status = 0 → driver ≠ 0 → ¬ LiveDriver r.io driver) :
    Atomic p.machine.arch s ⟨decide (status ≠ 0), some image, driver, r⟩ ↔
      (status ≠ 0 → ∀ func addr, driverProc p.machine.arch s1.loader image func = some addr →
        addr ≠ 0 → driverResolveSymbol p.machine.arch s1 (some func) = some addr) := by
  have hresolve : ∀ func, driverResolveSymbol p.machine.arch r func =
      driverResolveSymbol p.machine.arch s1 func :=
    driverResolveSymbol_congr htable fun d hd => himages.image _ (hs1.images d hd)
  unfold Atomic
  by_cases hstatus : status = 0
  · rw [if_neg (by simpa using hstatus)]
    refine iff_of_true ⟨fun func => ?_, hgone hstatus, fun d hd => ?_⟩ fun h => absurd hstatus h
    · exact (hresolve func).trans
        (driverResolveSymbol_congr htable1 (fun d hd => hsame.image _ (hs.images d hd)) func)
    · exact hs.images d (htable1 ▸ htable ▸ hd)
  · rw [if_pos (by simpa using hstatus)]
    constructor
    · intro hexported _ func addr hproc haddr
      rw [← hresolve]
      exact hexported image func addr rfl ((driverProc_congr (himages.image _ hto)).trans hproc) haddr
    · intro h i func addr hi hproc haddr
      cases hi
      rw [hresolve]
      exact h hstatus func addr ((driverProc_congr (himages.image _ hto)).symm.trans hproc) haddr

theorem driverLoadOne_unentered {service : DriverService} (hs : AtRest s)
    (h : ∀ path image s1, service.imagePath = some path →
      prepareImage p path s ≠ (some image, s1)) :
    AtRest (driverLoadOne p service s).state ∧
      Atomic p.machine.arch s (driverLoadOne p service s) := by
  unfold driverLoadOne
  cases hpath : service.imagePath with
  | none =>
    exact ⟨hs, fun image _ _ himage => by cases himage⟩
  | some path =>
    obtain ⟨htable, hio, hsame, -⟩ := @prepareImage_keeps p path s
    have hnot := fun image s1 => h path image s1 hpath
    simp only
    generalize prepareImage p path s = r at htable hio hsame hnot ⊢
    obtain ⟨image, v⟩ := r
    cases image with
    | some image => exact absurd rfl (hnot image v)
    | none =>
      simp only at htable hio hsame ⊢
      refine ⟨⟨by rw [hio]; exact hs.quiet, hs.images_mono htable hsame.next⟩, ?_⟩
      rw [Atomic, if_neg (by simp)]
      refine ⟨fun func => ?_, fun hdriver => absurd rfl hdriver, fun d hd => ?_⟩
      · exact driverResolveSymbol_congr htable (fun d hd => hsame.image _ (hs.images d hd)) func
      · exact hs.images d (htable ▸ hd)

theorem AtRest.registered (hs : AtRest s) (hprepared : prepareImage p path s = (some image, s1)) :
    AtRest s1 ∧ AtRest (driverRegisterImage path image s1) ∧ s.loader.next ≤ image ∧
      image < s1.loader.next ∧ s1.loadedDrivers = s.loadedDrivers ∧
      SameImages s.loader.next s.loader s1.loader := by
  obtain ⟨htable, hio, hsame, himage⟩ := @prepareImage_keeps p path s
  rw [hprepared] at htable hio hsame himage
  obtain ⟨hfrom, hto⟩ := himage image rfl
  have hs1 : AtRest s1 := by
    refine ⟨?_, hs.images_mono htable hsame.next⟩
    have hquiet := hs.quiet
    rw [← hio] at hquiet
    exact hquiet
  refine ⟨hs1, ?_, hfrom, hto, htable, hsame⟩
  rcases driverRegisterImage_cases path image s1 with ⟨-, heq⟩ | ⟨-, heq⟩
  · rw [heq]
    exact hs1
  · rw [heq]
    exact ⟨hs1.quiet, forall_mem_cons.mpr ⟨hto, hs1.images⟩⟩

theorem driverLoadOne_spec (hpolite : Polite p) (service : DriverService) (hs : AtRest s) :
    AtRest (driverLoadOne p service s).state ∧
      (Atomic p.machine.arch s (driverLoadOne p service s) ↔ Tame p service s) := by
  by_cases hentered : ∃ path image s1, service.imagePath = some path ∧
      prepareImage p path s = (some image, s1)
  · obtain ⟨path, image, s1, hpath, hprepared⟩ := hentered
    obtain ⟨hs1, hregistered, hfrom, hto, htable, hsame⟩ := hs.registered hprepared
    have htame : Tame p service s ↔
        (EntryFails p service.name image (driverRegisterImage path image s1) →
          maxLoadedDrivers ≤ s.loadedDrivers.length) ∧
        (¬ EntryFails p service.name image (driverRegisterImage path image s1) →
          maxLoadedDrivers ≤ s.loadedDrivers.length →
            ∀ func addr, driverProc p.machine.arch s1.loader image func = some addr → addr ≠ 0 →
              driverResolveSymbol p.machine.arch s1 (some func) = some addr) := by
      constructor
      · exact fun h => h path image s1 hpath hprepared
      · intro h path' image' s' hpath' hprepared'
        rw [hpath] at hpath'
        cases hpath'
        rw [hprepared] at hprepared'
        cases hprepared'
        exact h
    obtain ⟨hcalled, htable', himages, hfails, hgone⟩ :=
      driverCallEntry_spec hpolite service.name image hregistered
    rw [driverLoadOne_entered hpath hprepared, htame, ← hfails]
    generalize driverCallEntry p service.name image (driverRegisterImage path image s1) = r at *
    refine ⟨hcalled, ?_⟩
    rw [← htable]
    rcases driverRegisterImage_cases path image s1 with ⟨hfull, heq⟩ | ⟨hroom, heq⟩
    · rw [heq] at himages htable'
      rw [atomic_of_full hs hs1 hto hsame himages htable htable' hgone]
      exact ⟨fun h => ⟨fun _ => hfull, fun hne _ => h hne⟩, fun h hne => h.2 hne hfull⟩
    · rw [heq] at htable'
      rw [atomic_of_room hfrom htable']
      exact ⟨fun hne => ⟨fun h => absurd h hne, fun _ h => absurd h (by omega)⟩,
        fun h h0 => absurd (h.1 h0) (by omega)⟩
  · have hnot : ∀ path image s1, service.imagePath = some path →
        prepareImage p path s ≠ (some image, s1) :=
      fun path image s1 hpath hprepared => hentered ⟨path, image, s1, hpath, hprepared⟩
    obtain ⟨hstate, hatomic⟩ := driverLoadOne_unentered hs hnot
    exact ⟨hstate, iff_of_true hatomic fun path image s1 hpath hprepared =>
      absurd hprepared (hnot path image s1 hpath)⟩

/-! ## Runs -/

theorem Loaded.atRest (hpolite : Polite p) (hs : Loaded p s) : AtRest s := by
  induction hs with
  | boot => exact ⟨quiet_boot, fun d hd => absurd hd not_mem_nil⟩
  | load service _ ih => exact (driverLoadOne_spec hpolite service ih).1
  | @call s op _ hheld ih => exact ⟨(ih.quiet.step p.alloc op hheld).1, ih.images⟩
  | @request s r _ ih => exact ⟨ih.quiet, ih.images_mono rfl (@sameImages_serve p r s.loader).next⟩

/-- After any loads of drivers, the next one does all or nothing exactly if it is tame. -/
theorem driver_load_atomic_iff (hpolite : Polite p) {s : DriverState} (hs : Loaded p s)
    (service : DriverService) :
    Atomic p.machine.arch s (driverLoadOne p service s) ↔ Tame p service s :=
  (driverLoadOne_spec hpolite service (hs.atRest hpolite)).2

end Load

/-- A volume with one driver, whose image has no `DriverEntry`, and an allocator that always or
never has memory. -/
def oneDriver (memory : Bool) : Platform where
  machine :=
    { arch := .amd64
      kmalloc := fun _ ticks => 0x100000 * (ticks + 1)
      cdfsReadFile := fun _ _ => some (Loader.bareBones 0x1000 0x200)
      kernelResolveExport := fun _ => 0
      driverResolveSymbol := fun _ _ => 0
      dllMain := fun _ _ _ => none }
  fuel := 5
  alloc := fun _ _ => memory
  entry := fun _ _ _ => ⟨[], [], 1⟩

def diskService : DriverService where
  name := Loader.ascii "disk"
  imagePath := some (Loader.ascii "disk.sys")
  fits := by decide

theorem polite_oneDriver (memory : Bool) : Polite (oneDriver memory) :=
  fun _ _ _ _ _ _ hsole => ⟨trivial, hsole⟩

theorem driver_load_atomic_disk :
    Atomic .amd64 ⟨[], {}, boot⟩ (driverLoadOne (oneDriver true) diskService ⟨[], {}, boot⟩) ∧
      (driverLoadOne (oneDriver true) diskService ⟨[], {}, boot⟩).ok = true := by
  refine ⟨(driver_load_atomic_iff (polite_oneDriver true) .boot diskService).mpr ?_,
    by decide +kernel⟩
  intro path image s1 hpath hprepared
  cases hpath
  have himage : image = (prepareImage (oneDriver true) (Loader.ascii "disk.sys") ⟨[], {}, boot⟩).1.getD 0 := by
    rw [hprepared]
    rfl
  have hs1 : s1 = (prepareImage (oneDriver true) (Loader.ascii "disk.sys") ⟨[], {}, boot⟩).2 := by
    rw [hprepared]
  refine ⟨fun hfails => ?_, fun _ hfull => absurd hfull (by decide)⟩
  rw [himage, hs1] at hfails
  rcases hfails with hdriver | ⟨hentry, -⟩
  · exact absurd hdriver (by decide +kernel)
  · exact absurd rfl hentry

/-- Without memory for a driver object the load fails, and its image is in the table. -/
theorem driver_load_leaves_image :
    (driverLoadOne (oneDriver false) diskService ⟨[], {}, boot⟩).ok = false ∧
      ¬ Atomic .amd64 ⟨[], {}, boot⟩ (driverLoadOne (oneDriver false) diskService ⟨[], {}, boot⟩) := by
  have hok : (driverLoadOne (oneDriver false) diskService ⟨[], {}, boot⟩).ok = false := by
    decide +kernel
  refine ⟨hok, fun hatomic => ?_⟩
  rw [Atomic, if_neg (by rw [hok]; exact Bool.false_ne_true)] at hatomic
  have himages : ∀ d ∈ (driverLoadOne (oneDriver false) diskService ⟨[], {}, boot⟩).state.loadedDrivers,
      d.image < 0 := hatomic.images
  revert himages
  decide +kernel

end DiscouNT.Io
