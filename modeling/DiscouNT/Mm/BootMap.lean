import DiscouNT.Lib.Orbit
import DiscouNT.Mm.PmmInv

/-!
# Mm.BootMap

`PmmInitialize` on the memory map of the boot loader, which may hold anything.

The walks over the map go from an entry to the one that `entry->size + 4` points to, modulo `2^32`
(`mmapNext`), so they return exactly if they read no entry twice (`Lib.halts_iff`).
-/

namespace DiscouNT.Mm

open Lib List

def mmapNext (arch : Arch) (m : BootMemory) (info : MultibootInfo) (offset : Nat) : Option Nat :=
  if uptr arch (offset + 4) ≤ info.mmapLength.toNat then
    let entry := m.entry (u32 (info.mmapAddr.toNat + offset))
    if entry.size = 0 then none else some (u32 (offset + (entry.size.toNat + 4)))
  else none

def ReadsFrom (arch : Arch) (m : BootMemory) (info : MultibootInfo) (offset : Nat)
    (e : MultibootMmapEntry) : Prop :=
  ∃ o, Visits (mmapNext arch m info) offset o ∧ uptr arch (o + 4) ≤ info.mmapLength.toNat ∧
    m.entry (u32 (info.mmapAddr.toNat + o)) = e

def InMap (arch : Arch) (m : BootMemory) (info : MultibootInfo) (e : MultibootMmapEntry) : Prop :=
  ReadsFrom arch m info 0 e

namespace MultibootMmapEntry

def Holds (e : MultibootMmapEntry) (page : Nat) : Prop :=
  e.base.toNat ≤ page * pageSize ∧ (page + 1) * pageSize ≤ e.base.toNat + e.length.toNat

def Frees (e : MultibootMmapEntry) (page : Nat) : Prop :=
  e.type = multibootMemoryAvailable ∧ u64 (e.base.toNat + pageSize - 1) / pageSize ≤ page ∧
    page < u64 (e.base.toNat + e.length.toNat) / pageSize

def BaseWraps (e : MultibootMmapEntry) : Prop := 2 ^ 64 ≤ e.base.toNat + pageSize - 1

theorem Frees.holds {e : MultibootMmapEntry} {page : Nat} (hfrees : e.Frees page)
    (hbase : ¬ e.BaseWraps) : e.Holds page := by
  obtain ⟨-, hfirst, hlast⟩ := hfrees
  have hlength := e.length.toNat_lt
  have hb := e.base.toNat_lt
  unfold BaseWraps at hbase
  unfold Holds
  simp only [pageSize, u64] at hfirst hlast hbase ⊢
  omega

theorem BaseWraps.frees {e : MultibootMmapEntry} {page : Nat} (hwraps : e.BaseWraps)
    (htype : e.type = multibootMemoryAvailable)
    (hlast : page < u64 (e.base.toNat + e.length.toNat) / pageSize) : e.Frees page := by
  refine ⟨htype, ?_, hlast⟩
  have hb := e.base.toNat_lt
  unfold BaseWraps at hwraps
  simp only [pageSize, u64] at hwraps ⊢
  omega

end MultibootMmapEntry

def Available (arch : Arch) (m : BootMemory) (info : MultibootInfo) (page : Nat) : Prop :=
  ∃ e, InMap arch m info e ∧ e.type = multibootMemoryAvailable ∧ e.Holds page

def MadeFree (arch : Arch) (m : BootMemory) (info : MultibootInfo) (page : Nat) : Prop :=
  ∃ e, InMap arch m info e ∧ e.Frees page

def Overlaps (r : Nat × Nat) (page : Nat) : Prop :=
  0 < r.2 ∧ r.1 < (page + 1) * pageSize ∧ page * pageSize < r.1 + r.2

def mmapRange (info : MultibootInfo) : Nat × Nat := (info.mmapAddr.toNat, info.mmapLength.toNat)

def moduleRanges (arch : Arch) (m : BootMemory) (info : MultibootInfo) : List (Nat × Nat) :=
  (info.modsAddr.toNat, info.modsCount.toNat * sizeofMultibootModule) ::
    (List.range info.modsCount.toNat).filterMap fun i =>
      let mod := m.module (uptr arch (info.modsAddr.toNat + i * sizeofMultibootModule))
      if mod.start < mod.end then some (mod.start.toNat, mod.end.toNat - mod.start.toNat) else none

/-- The kernel, the info structure, the memory map, the module table and the modules. -/
def bootRanges (arch : Arch) (k : KernelImage) (m : BootMemory) (info : MultibootInfo) :
    List (Nat × Nat) :=
  [(0, k.kernelEnd), (info.addr, sizeofMultibootInfo), mmapRange info] ++
    if info.has multibootInfoModules then moduleRanges arch m info else []

def bootPageLimit (highest : Nat) : Nat :=
  let highest := if 0x100000000 < highest then 0x100000000 else highest
  let limit := u32 (highest / pageSize)
  if pmmMaxPages < limit then pmmMaxPages else limit

def Managed (arch : Arch) (m : BootMemory) (info : MultibootInfo) (page : Nat) : Prop :=
  ∃ fuel highest, highestAddress arch m fuel (some info) = some highest ∧
    page < bootPageLimit highest

def BootSafe (arch : Arch) (k : KernelImage) (m : BootMemory) (info : MultibootInfo) : Prop :=
  ∀ start : Pmm, ∃ fuel s₀, pmmInitialize arch k m fuel (some info) start = some s₀ ∧
    ∀ page < s₀.pageLimit, pmmPageUsed page s₀ = false →
      Available arch m info page ∧ ∀ r ∈ bootRanges arch k m info, ¬ Overlaps r page

/-- What a wrapped sum or a null address can do, and does not. -/
structure MapSound (arch : Arch) (k : KernelImage) (m : BootMemory) (info : MultibootInfo) :
    Prop where
  once : ∀ i j offset, orbit (mmapNext arch m info) 0 i = some offset →
    orbit (mmapNext arch m info) 0 j = some offset → i = j
  /-- What an entry frees whose base wraps is reserved or available anyway. -/
  base : ∀ e, InMap arch m info e → e.type = multibootMemoryAvailable → e.BaseWraps →
    ∀ page, Managed arch m info page →
      page < u64 (e.base.toNat + e.length.toNat) / pageSize →
      Reserved arch k m (some info) page ∨ Available arch m info page
  /-- A map at address 0 is not marked. -/
  map : info.mmapAddr = 0 → ∀ page, Managed arch m info page → Overlaps (mmapRange info) page →
    Reserved arch k m (some info) page ∨ ¬ MadeFree arch m info page
  /-- A table at address 0 is not marked, and one whose size wraps is marked in part. -/
  modules : info.has multibootInfoModules → info.modsAddr = 0 ∨
      uptr arch (info.modsCount.toNat * sizeofMultibootModule) ≠
        info.modsCount.toNat * sizeofMultibootModule →
    ∀ page, Managed arch m info page → ∀ r ∈ moduleRanges arch m info, Overlaps r page →
      Reserved arch k m (some info) page ∨ ¬ MadeFree arch m info page

section Walk

variable {arch : Arch} {k : KernelImage} {m : BootMemory} {info : MultibootInfo} {fuel offset : Nat}
  {q page : Nat} {s s' s₀ start : Pmm} {e : MultibootMmapEntry} {r : Nat × Nat}

theorem readsFrom_iff (hin : uptr arch (offset + 4) ≤ info.mmapLength.toNat) :
    ReadsFrom arch m info offset e ↔ m.entry (u32 (info.mmapAddr.toNat + offset)) = e ∨
      ∃ o, mmapNext arch m info offset = some o ∧ ReadsFrom arch m info o e := by
  constructor
  · rintro ⟨o, hvisits, hlength, heq⟩
    rcases visits_iff.mp hvisits with rfl | ⟨y, hy, hrest⟩
    · exact .inl heq
    · exact .inr ⟨y, hy, o, hrest, hlength, heq⟩
  · rintro (heq | ⟨y, hy, o, hrest, hlength, heq⟩)
    · exact ⟨offset, visits_iff.mpr (.inl rfl), hin, heq⟩
    · exact ⟨o, visits_iff.mpr (.inr ⟨y, hy, hrest⟩), hlength, heq⟩

theorem mmapWalk_isSome {σ : Type} {f : MultibootMmapEntry → σ → σ} {t : σ} :
    (mmapWalk arch m info f fuel offset t).isSome ↔
      orbit (mmapNext arch m info) offset fuel = none := by
  induction fuel generalizing offset t with
  | zero => simp [mmapWalk]
  | succ fuel ih =>
    rw [orbit_succ', mmapWalk, mmapNext]
    split
    · simp only
      split
      · simp
      · rw [ih]; rfl
    · simp

theorem visits_finite : Set.Finite {a | Visits (mmapNext arch m info) 0 a} := by
  refine (Set.finite_lt_nat (2 ^ 32)).subset ?_
  rintro a ⟨n, hn⟩
  show a < 2 ^ 32
  cases n with
  | zero => cases hn; decide
  | succ n =>
    obtain ⟨o, -, ho⟩ := Option.bind_eq_some_iff.mp (orbit_succ.symm.trans hn)
    unfold mmapNext at ho
    split at ho
    · simp only at ho
      split at ho
      · cases ho
      · cases ho
        exact u32_lt _
    · cases ho

/-! ## Pages -/

theorem pmmMarkRange_freed {b l : Nat} (hi : PmmInv s) (hq : q < s.pageLimit) :
    pmmPageUsed q (pmmMarkRange b l false s) = false ↔
      (u64 (b + pageSize - 1) / pageSize ≤ q ∧ q < u64 (b + l) / pageSize) ∨
        pmmPageUsed q s = false := by
  have hmax : s.pageLimit ≤ 1048576 := hi.limit_le
  unfold pmmMarkRange
  simp only [Bool.false_eq_true, if_false]
  generalize hlast : (if s.pageLimit < u64 (b + l) / pageSize then s.pageLimit
    else u64 (b + l) / pageSize) = last
  have hle : last ≤ s.pageLimit := by rw [← hlast]; split <;> omega
  have hiff : q < u64 (b + l) / pageSize ↔ q < last := by
    rw [← hlast]
    split <;> omega
  rw [pmmSetPages_used q (by omega), hiff]
  by_cases hin : u64 (b + pageSize - 1) / pageSize ≤ q ∧ q < last
  · rw [if_pos (by omega)]
    simp [hin]
  · rw [if_neg (by omega)]
    simp [hin]

theorem freeAvailable_inv (hi : PmmInv s) :
    PmmInv (freeAvailable e s) ∧ (freeAvailable e s).pageLimit = s.pageLimit := by
  unfold freeAvailable
  split
  · exact ⟨pmmMarkRange_inv hi, pmmMarkRange_limit ..⟩
  · exact ⟨hi, rfl⟩

theorem freeAvailable_freed (hi : PmmInv s) (hq : q < s.pageLimit) :
    pmmPageUsed q (freeAvailable e s) = false ↔ e.Frees q ∨ pmmPageUsed q s = false := by
  unfold freeAvailable MultibootMmapEntry.Frees
  split
  case isTrue htype => rw [pmmMarkRange_freed hi hq]; simp only [htype, true_and]
  case isFalse htype => simp only [htype, false_and, false_or]

theorem mmapWalk_freed (hi : PmmInv s) (hq : q < s.pageLimit)
    (hwalk : mmapWalk arch m info freeAvailable fuel offset s = some s') :
    s'.pageLimit = s.pageLimit ∧ (pmmPageUsed q s' = false ↔
      (∃ e, ReadsFrom arch m info offset e ∧ e.Frees q) ∨ pmmPageUsed q s = false) := by
  induction fuel generalizing offset s with
  | zero => cases hwalk
  | succ fuel ih =>
    rw [mmapWalk] at hwalk
    split at hwalk
    case isFalse hout =>
      cases hwalk
      refine ⟨rfl, ?_⟩
      have hnone : ∀ e, ¬ ReadsFrom arch m info offset e := by
        rintro e ⟨o, hvisits, hlength, -⟩
        rcases visits_iff.mp hvisits with rfl | ⟨y, hy, -⟩
        · exact hout hlength
        · rw [mmapNext, if_neg hout] at hy
          cases hy
      simp [hnone]
    case isTrue hin =>
      simp only at hwalk
      obtain ⟨hi', hl'⟩ := freeAvailable_inv (e := m.entry (u32 (info.mmapAddr.toNat + offset))) hi
      have hfreed := freeAvailable_freed (e := m.entry (u32 (info.mmapAddr.toNat + offset))) hi hq
      simp only [readsFrom_iff hin]
      split at hwalk
      case isTrue hsize =>
        cases hwalk
        refine ⟨hl', ?_⟩
        rw [hfreed, mmapNext, if_pos hin]
        simp [hsize]
      case isFalse hsize =>
        obtain ⟨hl, hiff⟩ := ih hi' (by rw [hl']; exact hq) hwalk
        refine ⟨hl.trans hl', ?_⟩
        rw [hiff, hfreed, mmapNext, if_pos hin]
        simp only [hsize, if_false, Option.some.injEq, exists_eq_left', or_and_right, exists_or]
        rw [← or_assoc]
        exact or_congr_left (or_comm.trans (or_congr_left (by simp)))

theorem pmmInitialize_map (harch : arch ≠ .loongarch64) (hmap : info.has multibootInfoMmap = true)
    (hinit : pmmInitialize arch k m fuel (some info) start = some s₀) :
    ∃ highest, highestAddress arch m fuel (some info) = some highest ∧
      s₀.pageLimit = bootPageLimit highest ∧ s₀.pageLimit ≤ pmmMaxPages ∧
      ∀ page < s₀.pageLimit, pmmPageUsed page s₀ = false ↔
        MadeFree arch m info page ∧ ¬ Reserved arch k m (some info) page := by
  unfold pmmInitialize at hinit
  rw [if_neg harch] at hinit
  split at hinit
  · cases hinit
  rename_i highest hhighest
  simp only [freeMemory, hmap, if_true] at hinit
  split at hinit
  · cases hinit
  rename_i s hwalk
  cases hinit
  have hlimit : bootPageLimit highest ≤ pmmMaxPages := by
    unfold bootPageLimit
    simp only
    generalize u32 _ = limit
    split <;> omega
  have hreset : PmmInv (pmmReset (bootPageLimit highest) start) := pmmReset_inv hlimit
  have hwalked : s.pageLimit = bootPageLimit highest ∧ PmmInv s := by
    refine mmapWalk_inv (P := fun s => s.pageLimit = bootPageLimit highest ∧ PmmInv s)
      (fun e s hs => ?_) ⟨rfl, hreset⟩ hwalk
    obtain ⟨hi', hl'⟩ := freeAvailable_inv (e := e) hs.2
    exact ⟨hl'.trans hs.1, hi'⟩
  obtain ⟨hl, hi⟩ := hwalked
  have hmanaged : PmmInv { s with managedPages := s.freePages } :=
    ⟨hi.counted, hi.above, hi.limit_le⟩
  obtain ⟨-, hl', hu⟩ := reserve_spec (bootDataRanges arch k m (some info)) hmanaged
  have hlimit' : (pmmReserveBootData arch k m (some info)
      { s with managedPages := s.freePages }).pageLimit = bootPageLimit highest := hl'.trans hl
  refine ⟨highest, hhighest, hlimit', hlimit'.le.trans hlimit, fun page hpage => ?_⟩
  have hpage' : page < bootPageLimit highest := hlimit' ▸ hpage
  have hreserve := hu page (hl.symm ▸ hpage')
  obtain ⟨-, hfreed⟩ := mmapWalk_freed (q := page) hreset hpage' hwalk
  have hall : pmmPageUsed page (pmmReset (bootPageLimit highest) start) = true :=
    pmmReset_used (hpage'.trans_le hlimit)
  rw [hall] at hfreed
  have hwalk_iff : pmmPageUsed page s = false ↔ MadeFree arch m info page := by
    simpa [MadeFree, InMap] using hfreed
  rw [← hwalk_iff, ← Bool.not_eq_true]
  refine (not_congr hreserve).trans ?_
  rw [not_or, and_comm, Bool.not_eq_true]
  exact Iff.rfl

theorem pmmInitialize_isSome (harch : arch ≠ .loongarch64)
    (hmap : info.has multibootInfoMmap = true) :
    (pmmInitialize arch k m fuel (some info) start).isSome ↔
      orbit (mmapNext arch m info) 0 fuel = none := by
  unfold pmmInitialize
  rw [if_neg harch]
  simp only [highestAddress, freeMemory, hmap, if_true]
  constructor
  · intro hsome
    split at hsome
    · cases hsome
    · rename_i highest hhighest
      exact mmapWalk_isSome.mp (Option.isSome_of_eq_some hhighest)
  · intro hnone
    split
    case h_1 hfirst =>
      have hsome := mmapWalk_isSome (f := raiseHighest) (t := 16 * 1024 * 1024).mpr hnone
      rw [hfirst] at hsome
      cases hsome
    case h_2 highest hfirst =>
      split
      case h_1 hsecond =>
        have hsome := Option.eq_none_iff_forall_ne_some.mp hsecond
        obtain ⟨s, hs⟩ := Option.isSome_iff_exists.mp (mmapWalk_isSome.mpr hnone)
        exact absurd hs (hsome s)
      case h_2 => rfl

theorem mmapWalk_unique {σ : Type} {f : MultibootMmapEntry → σ → σ} {fuel' : Nat} {t u v : σ}
    (hu : mmapWalk arch m info f fuel offset t = some u)
    (hv : mmapWalk arch m info f fuel' offset t = some v) : v = u := by
  induction fuel generalizing fuel' offset t with
  | zero => cases hu
  | succ fuel ih =>
    cases fuel' with
    | zero => cases hv
    | succ fuel' =>
      rw [mmapWalk] at hu hv
      split at hu
      case isFalse hout =>
        rw [if_neg hout] at hv
        exact (Option.some.inj hv).symm.trans (Option.some.inj hu)
      case isTrue hin =>
        rw [if_pos hin] at hv
        simp only at hu hv
        split at hu
        case isTrue hsize =>
          rw [if_pos hsize] at hv
          exact (Option.some.inj hv).symm.trans (Option.some.inj hu)
        case isFalse hsize =>
          rw [if_neg hsize] at hv
          exact ih hu hv

theorem highestAddress_unique {fuel' highest highest' : Nat}
    (h : highestAddress arch m fuel (some info) = some highest)
    (h' : highestAddress arch m fuel' (some info) = some highest') : highest' = highest := by
  simp only [highestAddress] at h h'
  split at h
  case isTrue hmap =>
    rw [if_pos hmap] at h'
    exact mmapWalk_unique h h'
  case isFalse hmap =>
    rw [if_neg hmap] at h'
    exact Option.some.inj (h'.symm.trans h)

theorem marks_of_overlaps (hover : Overlaps r page) (hpage : page < pmmMaxPages)
    (hlength : r.2 < 2 ^ 40) : Marks r page := by
  obtain ⟨hpos, hfirst, hlast⟩ := hover
  have hmax : pmmMaxPages = 1048576 := rfl
  unfold Marks
  simp only [pageSize, u64] at hfirst hlast ⊢
  omega

theorem bootRanges_length (hr : r ∈ bootRanges arch k m info) : r.2 < 2 ^ 40 := by
  have hk := k.below
  have hmap := info.mmapLength.toNat_lt
  have hcount := info.modsCount.toNat_lt
  have hp : pageSize = 4096 := rfl
  unfold bootRanges mmapRange at hr
  rcases mem_append.mp hr with hr | hr
  · simp only [mem_cons, not_mem_nil, or_false] at hr
    rcases hr with rfl | rfl | rfl
    · show k.kernelEnd < 2 ^ 40
      omega
    · show 116 < 2 ^ 40
      decide
    · show info.mmapLength.toNat < 2 ^ 40
      omega
  · split at hr
    · unfold moduleRanges at hr
      rcases mem_cons.mp hr with rfl | hr
      · show info.modsCount.toNat * 16 < 2 ^ 40
        omega
      · obtain ⟨i, -, hi⟩ := mem_filterMap.mp hr
        simp only at hi
        split at hi
        · cases hi
          have hend := (m.module (uptr arch (info.modsAddr.toNat + i * 16))).end.toNat_lt
          simp only [sizeofMultibootModule]
          omega
        · cases hi
    · cases hr

theorem reserved_of_overlaps (harch : arch ≠ .loongarch64)
    (hmap : info.has multibootInfoMmap = true) (hpage : page < pmmMaxPages)
    (hr : r ∈ bootRanges arch k m info) (hover : Overlaps r page) :
    Reserved arch k m (some info) page ∨ (info.mmapAddr = 0 ∧ r = mmapRange info) ∨
      (info.has multibootInfoModules = true ∧ r ∈ moduleRanges arch m info ∧
        (info.modsAddr = 0 ∨ uptr arch (info.modsCount.toNat * sizeofMultibootModule) ≠
          info.modsCount.toNat * sizeofMultibootModule)) := by
  have hmarks := marks_of_overlaps hover hpage (bootRanges_length hr)
  have hreserved : r ∈ bootDataRanges arch k m (some info) →
      Reserved arch k m (some info) page := fun hmem => ⟨r, hmem, hmarks⟩
  simp only [bootDataRanges, if_neg harch] at hreserved
  unfold bootRanges at hr
  rcases mem_append.mp hr with hr | hr
  · simp only [mem_cons, not_mem_nil, or_false] at hr
    rcases hr with rfl | rfl | rfl
    · exact .inl (hreserved (by simp))
    · exact .inl (hreserved (by simp))
    · by_cases haddr : info.mmapAddr = 0
      · exact .inr (.inl ⟨haddr, rfl⟩)
      · exact .inl (hreserved (by simp [hmap, haddr, mmapRange]))
  · split at hr
    case isFalse => cases hr
    case isTrue hmods =>
      by_cases hhidden : info.modsAddr = 0 ∨
          uptr arch (info.modsCount.toNat * sizeofMultibootModule) ≠
            info.modsCount.toNat * sizeofMultibootModule
      · exact .inr (.inr ⟨hmods, hr, hhidden⟩)
      · obtain ⟨haddr, hsize⟩ := not_or.mp hhidden
        rw [not_not] at hsize
        refine .inl (hreserved ?_)
        rw [hsize, if_pos (⟨hmods, haddr⟩ : _ ∧ _)]
        exact mem_append_right _ hr

end Walk

/-- Initialization is right on exactly the maps and tables on which no wrapped sum and no null
address does harm. -/
theorem boot_safe_iff {arch : Arch} {k : KernelImage} {m : BootMemory} {info : MultibootInfo}
    (harch : arch ≠ .loongarch64) (hmap : info.has multibootInfoMmap = true) :
    BootSafe arch k m info ↔ MapSound arch k m info := by
  have honce : (∃ fuel, orbit (mmapNext arch m info) 0 fuel = none) ↔ _ :=
    halts_iff (@visits_finite arch m info)
  constructor
  · intro hsafe
    obtain ⟨fuel, s₀, hinit, hfree⟩ := hsafe pmmZero
    obtain ⟨highest, hhighest, hlimit, -, hiff⟩ := pmmInitialize_map harch hmap hinit
    have hbelow : ∀ {page}, Managed arch m info page → page < s₀.pageLimit := by
      rintro page ⟨fuel', highest', hhighest', hpage⟩
      rw [hlimit, ← highestAddress_unique hhighest hhighest']
      exact hpage
    have hpages : ∀ {page}, Managed arch m info page → MadeFree arch m info page →
        Reserved arch k m (some info) page ∨
          (Available arch m info page ∧ ∀ r ∈ bootRanges arch k m info, ¬ Overlaps r page) := by
      intro page hmanaged hmade
      by_cases hres : Reserved arch k m (some info) page
      · exact .inl hres
      · have hpage := hbelow hmanaged
        exact .inr (hfree page hpage ((hiff page hpage).mpr ⟨hmade, hres⟩))
    constructor
    · exact honce.mp ⟨fuel, (pmmInitialize_isSome harch hmap).mp (Option.isSome_of_eq_some hinit)⟩
    · intro e he htype hwraps page hmanaged hlast
      exact (hpages hmanaged ⟨e, he, hwraps.frees htype hlast⟩).imp_right And.left
    · intro _ page hmanaged hover
      by_cases hmade : MadeFree arch m info page
      · refine (hpages hmanaged hmade).imp_right fun hok => absurd hover (hok.2 _ ?_)
        simp [bootRanges]
      · exact .inr hmade
    · intro hmods _ page hmanaged r hr hover
      by_cases hmade : MadeFree arch m info page
      · refine (hpages hmanaged hmade).imp_right fun hok => absurd hover (hok.2 _ ?_)
        simp [bootRanges, hmods, hr]
      · exact .inr hmade
  · intro hsound start
    obtain ⟨fuel, hhalts⟩ := honce.mpr hsound.once
    obtain ⟨s₀, hinit⟩ := Option.isSome_iff_exists.mp
      ((@pmmInitialize_isSome arch k m info fuel start harch hmap).mpr hhalts)
    obtain ⟨highest, hhighest, hlimit, hmax, hiff⟩ := pmmInitialize_map harch hmap hinit
    refine ⟨fuel, s₀, hinit, fun page hpage hused => ?_⟩
    obtain ⟨⟨e, he, hfrees⟩, hres⟩ := (hiff page hpage).mp hused
    have hmanaged : Managed arch m info page := ⟨fuel, highest, hhighest, hlimit ▸ hpage⟩
    constructor
    · by_cases hwraps : e.BaseWraps
      · exact (hsound.base e he hfrees.1 hwraps page hmanaged hfrees.2.2).resolve_left hres
      · exact ⟨e, he, hfrees.1, hfrees.holds hwraps⟩
    · intro r hr hover
      have hmade : MadeFree arch m info page := ⟨e, he, hfrees⟩
      rcases reserved_of_overlaps harch hmap (hpage.trans_le hmax) hr hover with
        hin | ⟨hnull, rfl⟩ | ⟨hmods, hmem, hhidden⟩
      · exact hres hin
      · exact (hsound.map hnull page hmanaged hover).elim hres fun hnot => hnot hmade
      · exact (hsound.modules hmods hhidden page hmanaged r hmem hover).elim hres
          fun hnot => hnot hmade

def mapInfo (length : UInt32) : MultibootInfo :=
  { addr := 0x9000, flags := 0x40, memUpper := 0, modsCount := 0, modsAddr := 0, mmapLength := length
    mmapAddr := 0x9100 }

def mapMemory (e : MultibootMmapEntry) : BootMemory := ⟨fun _ => e, fun _ => ⟨0, 0⟩⟩

theorem boot_safe_iff_one_entry :
    BootSafe .x86 tinyKernel (mapMemory ⟨20, 0x100000, 0x4000, 1⟩) (mapInfo 24) := by
  refine (boot_safe_iff (by decide) (by decide)).mpr ⟨?_, ?_, ?_, ?_⟩
  · exact (halts_iff visits_finite).mp ⟨2, by decide⟩
  · rintro e ⟨o, -, -, rfl⟩ _ hwraps
    exact absurd (show 2 ^ 64 ≤ (0x100000 : UInt64).toNat + pageSize - 1 from hwraps) (by decide)
  · intro hnull
    exact absurd hnull (by decide)
  · intro hmods
    exact absurd hmods (by decide)

/-- An entry whose size leads back to itself, and one that begins in the last byte of the address
space: no memory is below 4 GiB, but two megabytes become free. -/
theorem boot_unsafe :
    ¬ BootSafe .x86 tinyKernel (mapMemory ⟨0xFFFFFFFC, 0x100000, 0x4000, 1⟩) (mapInfo 24) ∧
      ¬ BootSafe .x86 tinyKernel (mapMemory ⟨20, 0xFFFFFFFFFFFFFFFF, 0x200001, 1⟩) (mapInfo 24) := by
  constructor
  · intro hsafe
    obtain ⟨fuel, s₀, hinit, -⟩ := hsafe pmmZero
    have hhalts := (pmmInitialize_isSome (by decide) (by decide)).mp (Option.isSome_of_eq_some hinit)
    exact not_halts_of_round (i := 0) (j := 1) rfl (by decide) (by decide) ⟨fuel, hhalts⟩
  · intro hsafe
    obtain ⟨fuel, s₀, hinit, hfree⟩ := hsafe pmmZero
    obtain ⟨highest, hhighest, hlimit, -, hiff⟩ := pmmInitialize_map (by decide) (by decide) hinit
    have hfuel : highestAddress .x86 (mapMemory ⟨20, 0xFFFFFFFFFFFFFFFF, 0x200001, 1⟩) 2
        (some (mapInfo 24)) = some (16 * 1024 * 1024) := by decide
    have hpage : 300 < s₀.pageLimit := by
      rw [hlimit, highestAddress_unique hfuel hhighest]
      decide
    have hmade : MadeFree .x86 (mapMemory ⟨20, 0xFFFFFFFFFFFFFFFF, 0x200001, 1⟩) (mapInfo 24) 300 :=
      ⟨_, ⟨0, ⟨0, rfl⟩, by decide, rfl⟩, by decide, by decide, by decide⟩
    obtain ⟨⟨e, ⟨o, -, -, rfl⟩, -, hholds⟩, -⟩ :=
      hfree 300 hpage ((hiff 300 hpage).mpr ⟨hmade, by decide⟩)
    exact absurd (show (0xFFFFFFFFFFFFFFFF : UInt64).toNat ≤ 300 * pageSize from hholds.1)
      (by decide)

end DiscouNT.Mm
