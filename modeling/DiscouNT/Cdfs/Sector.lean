import DiscouNT.Arch
import DiscouNT.Lib.Bytes
import DiscouNT.Lib.History

/-!
# Cdfs.Sector

Sector reads of `drivers/cdfs/cdfs.c` and the eight-sector cache in front of the ATAPI drive.

* A `Medium` answers a device read of some sectors: the read succeeds and delivers what the sectors
  hold, or it fails and leaves its part of the buffer in some state of its own choice. The port
  protocol of `atapi_read_sectors_internal` and the request of `usb_read_iso_sector` are behind it.
* `Volume` holds the static variables of the driver. `IoGetDevice` and the drive probing decide
  their first values and are not modelled.
-/

namespace DiscouNT.Cdfs

open Lib

def sectorSize : Nat := 2048

/-- A disc in a drive. `residue` is where a read that failed takes the bytes from that it leaves in
the part of the buffer it was to fill. -/
structure Medium where
  byte : (lba off : Nat) → UInt8
  readable : (lba sectors : Nat) → Bool
  residue : (lba sectors d : Nat) → Mem → Mem

def Medium.extent (m : Medium) (lba : Nat) : Mem :=
  fun p => m.byte (lba + p / sectorSize) (p % sectorSize)

/-- `atapi_read_sectors_internal` or `usb_read_iso_sectors` into the buffer at `d`. -/
def Medium.readSectors (m : Medium) (lba sectors d : Nat) (buf : Mem) : Bool × Mem :=
  if m.readable lba sectors then (true, blit buf d (m.extent lba) 0 (sectors * sectorSize))
  else (false, blit buf d (m.residue lba sectors d buf) d (sectors * sectorSize))

structure Volume where
  cdromPresent : Bool
  cdromReady : Bool
  usbIsoDevice : Bool
  isoCache : Mem
  isoCacheLba : Nat
  isoCacheValid : Bool

/-- The test for a hit. The end of the window is a `uint32_t`. -/
def Volume.hit (v : Volume) (lba : Nat) : Bool :=
  v.isoCacheValid && decide (v.isoCacheLba ≤ lba) && decide (lba < u32 (v.isoCacheLba + 8))

def cdfsReadSector (m : Medium) (lba d : Nat) (buf : Mem) (v : Volume) : Bool × Mem × Volume :=
  if !v.cdromPresent || !v.cdromReady then (false, buf, v)
  else if v.usbIsoDevice then
    let r := m.readSectors lba 1 d buf
    (r.1, r.2, v)
  else if v.hit lba then
    (true, blit buf d v.isoCache (sub32 lba v.isoCacheLba * sectorSize) sectorSize, v)
  else
    let r := m.readSectors lba 8 0 v.isoCache
    let v := { v with isoCacheLba := lba, isoCacheValid := r.1, isoCache := r.2 }
    if r.1 then (true, blit buf d v.isoCache 0 sectorSize, v) else (false, buf, v)

structure Call where
  lba : Nat
  lba_lt : lba < 2 ^ 32
  d : Nat
  buf : Mem

def Call.perform (m : Medium) (c : Call) (v : Volume) : Bool × Mem × Volume :=
  cdfsReadSector m c.lba c.d c.buf v

def Call.outcome (m : Medium) (c : Call) (v : Volume) : Bool × Mem :=
  ((c.perform m v).1, (c.perform m v).2.1)

def performAll (m : Medium) : List Call → Volume → Volume
  | [], v => v
  | c :: calls, v => performAll m calls (c.perform m v).2.2

/-- What the caller would see if each sector of a medium of `n` sectors were read by itself. -/
def Call.direct (m : Medium) (n : Nat) (c : Call) : Bool × Mem :=
  if c.lba < n then (true, blit c.buf c.d (m.extent c.lba) 0 sectorSize) else (false, c.buf)

/-- A drive has been found by `CdfsInit`, which leaves the cache invalid. -/
structure Volume.Fresh (v : Volume) : Prop where
  present : v.cdromPresent = true
  ready : v.cdromReady = true
  atapi : v.usbIsoDevice = false
  invalid : v.isoCacheValid = false

/-- The cache of a drive is invalid or holds eight sectors of the medium. -/
structure Volume.Cached (m : Medium) (n : Nat) (v : Volume) : Prop where
  present : v.cdromPresent = true
  ready : v.cdromReady = true
  atapi : v.usbIsoDevice = false
  fits : v.isoCacheValid = true → v.isoCacheLba + 8 ≤ n
  holds : v.isoCacheValid = true → ∀ p < 8 * sectorSize, v.isoCache p = m.extent v.isoCacheLba p

theorem Volume.Fresh.cached {m : Medium} {n : Nat} {v : Volume} (h : v.Fresh) : v.Cached m n where
  present := h.present
  ready := h.ready
  atapi := h.atapi
  fits := fun hv => by rw [h.invalid] at hv; cases hv
  holds := fun hv => by rw [h.invalid] at hv; cases hv

theorem extent_add_sectors (m : Medium) (lba k p : Nat) :
    m.extent lba (k * sectorSize + p) = m.extent (lba + k) p := by
  have hdiv : (k * sectorSize + p) / sectorSize = k + p / sectorSize := by
    simp only [sectorSize]; omega
  have hmod : (k * sectorSize + p) % sectorSize = p % sectorSize := by
    simp only [sectorSize]; omega
  rw [Medium.extent, Medium.extent, hdiv, hmod, Nat.add_assoc]

theorem hit_iff {v : Volume} {lba : Nat} : v.hit lba = true ↔
    v.isoCacheValid = true ∧ v.isoCacheLba ≤ lba ∧ lba < u32 (v.isoCacheLba + 8) := by
  simp [Volume.hit, and_assoc]

theorem hit_bound {v : Volume} {lba : Nat} (h : v.hit lba = true) : lba < v.isoCacheLba + 8 := by
  have hle : u32 (v.isoCacheLba + 8) ≤ v.isoCacheLba + 8 := Nat.mod_le _ _
  have := (hit_iff.mp h).2.2
  omega

section Atapi

variable {m : Medium} {n : Nat} {v : Volume}

theorem cdfsReadSector_cases (h : v.Cached m n) (lba d : Nat) (buf : Mem) :
    (v.hit lba = true ∧ cdfsReadSector m lba d buf v =
      (true, blit buf d v.isoCache (sub32 lba v.isoCacheLba * sectorSize) sectorSize, v)) ∨
    (v.hit lba = false ∧ m.readable lba 8 = true ∧
      ∃ cache, (∀ p < 8 * sectorSize, cache p = m.extent lba p) ∧ cdfsReadSector m lba d buf v =
        (true, blit buf d cache 0 sectorSize,
          { v with isoCacheLba := lba, isoCacheValid := true, isoCache := cache })) ∨
    (v.hit lba = false ∧ m.readable lba 8 = false ∧
      ∃ cache, cdfsReadSector m lba d buf v =
        (false, buf, { v with isoCacheLba := lba, isoCacheValid := false, isoCache := cache })) := by
  simp only [cdfsReadSector, h.present, h.ready, h.atapi, Bool.not_true, Bool.or_self,
    Bool.false_eq_true, if_false]
  cases hhit : v.hit lba with
  | true => exact .inl ⟨rfl, if_pos rfl⟩
  | false =>
    cases hr : m.readable lba 8 with
    | true =>
      refine .inr (.inl ⟨rfl, rfl, blit v.isoCache 0 (m.extent lba) 0 (8 * sectorSize), ?_, ?_⟩)
      · intro p hp
        simp only [blit]
        rw [if_pos (by omega), Nat.zero_add, Nat.sub_zero]
      · simp [Medium.readSectors, hr]
    | false =>
      exact .inr (.inr ⟨rfl, rfl, _, by simp only [Medium.readSectors, hr]; rfl⟩)

variable (hm : ∀ lba k, m.readable lba k = true ↔ lba + k ≤ n)

include hm

theorem Call.perform_cached (h : v.Cached m n) (c : Call) : (c.perform m v).2.2.Cached m n := by
  rw [Call.perform]
  rcases cdfsReadSector_cases h c.lba c.d c.buf with
    ⟨_, heq⟩ | ⟨_, hr, cache, hcache, heq⟩ | ⟨_, _, cache, heq⟩ <;> rw [heq]
  · exact h
  · exact { present := h.present, ready := h.ready, atapi := h.atapi
            fits := fun _ => (hm _ _).mp hr, holds := fun _ => hcache }
  · exact { present := h.present, ready := h.ready, atapi := h.atapi
            fits := fun hv => by cases hv
            holds := fun hv => by cases hv }

theorem performAll_cached (calls : List Call) :
    ∀ {v : Volume}, v.Cached m n → (performAll m calls v).Cached m n := by
  induction calls with
  | nil => intro v h; exact h
  | cons c calls ih => intro v h; exact ih (Call.perform_cached hm h c)

theorem Call.outcome_eq_direct_iff (h : v.Cached m n) (c : Call) :
    c.outcome m v = c.direct m n ↔
      n ≤ c.lba ∨ c.lba + 8 ≤ n ∨ v.hit c.lba = true := by
  simp only [Call.outcome, Call.perform, Call.direct]
  rcases cdfsReadSector_cases h c.lba c.d c.buf with
    ⟨hhit, heq⟩ | ⟨hhit, hr, cache, hcache, heq⟩ | ⟨hhit, hr, cache, heq⟩ <;>
    simp only [heq, hhit]
  · obtain ⟨hvalid, hle, _⟩ := hit_iff.mp hhit
    have hfits := h.fits hvalid
    have hlt := hit_bound hhit
    rw [if_pos (by omega), sub32_of_le c.lba_lt hle]
    refine ⟨fun _ => .inr (.inr trivial), fun _ => ?_⟩
    congr 1
    apply blit_congr
    intro i hi
    have hin : (c.lba - v.isoCacheLba) * sectorSize + i < 8 * sectorSize := by
      simp only [sectorSize] at hi ⊢; omega
    rw [h.holds hvalid _ hin, extent_add_sectors, Nat.zero_add,
      show v.isoCacheLba + (c.lba - v.isoCacheLba) = c.lba by omega]
  · have hfits := (hm _ _).mp hr
    rw [if_pos (by omega)]
    refine ⟨fun _ => .inr (.inl hfits), fun _ => ?_⟩
    congr 1
    apply blit_congr
    intro i hi
    exact hcache _ (by simp only [sectorSize] at hi ⊢; omega)
  · have hfits : ¬ c.lba + 8 ≤ n := fun hle => by
      rw [(hm _ _).mpr hle] at hr
      cases hr
    by_cases hlt : c.lba < n
    · rw [if_pos hlt]
      simp only [Prod.mk.injEq, Bool.false_eq_true, false_and, or_false, false_iff]
      omega
    · rw [if_neg hlt]
      exact ⟨fun _ => .inl (by omega), fun _ => rfl⟩

/-- The cache cannot be told from direct reads, in a sequence of calls, exactly when no call misses
one of the last seven sectors: a fill reads eight sectors, and fails there. -/
theorem cache_transparent_iff (hv : v.Fresh) (calls : List Call) :
    (∀ pre c post, calls = pre ++ c :: post → c.outcome m (performAll m pre v) = c.direct m n) ↔
      ∀ pre c post, calls = pre ++ c :: post →
        n ≤ c.lba ∨ c.lba + 8 ≤ n ∨ (performAll m pre v).hit c.lba = true := by
  constructor
  · intro h pre c post heq
    exact (Call.outcome_eq_direct_iff hm (performAll_cached hm pre hv.cached) c).mp
      (h pre c post heq)
  · intro h pre c post heq
    exact (Call.outcome_eq_direct_iff hm (performAll_cached hm pre hv.cached) c).mpr
      (h pre c post heq)

end Atapi

def tenSectors : Medium where
  byte := fun lba _ => UInt8.ofNat lba
  readable := fun lba k => decide (lba + k ≤ 10)
  residue := fun _ _ _ buf => buf

def freshDrive : Volume where
  cdromPresent := true
  cdromReady := true
  usbIsoDevice := false
  isoCache := fun _ => 0
  isoCacheLba := 0
  isoCacheValid := false

theorem freshDrive_fresh : freshDrive.Fresh := ⟨rfl, rfl, rfl, rfl⟩

def callFor (lba : Nat) (h : lba < 2 ^ 32) : Call where
  lba := lba
  lba_lt := h
  d := 0
  buf := fun _ => 0

/-- Sector 9 can be read after sector 2, whose fill brought it into the cache. -/
theorem cache_transparent_iff_window :
    freshDrive.Fresh ∧
      ∀ pre c post, [callFor 2 (by decide), callFor 9 (by decide)] = pre ++ c :: post →
        c.outcome tenSectors (performAll tenSectors pre freshDrive) = c.direct tenSectors 10 := by
  refine ⟨freshDrive_fresh, (cache_transparent_iff (n := 10) ?_ freshDrive_fresh _).mpr ?_⟩
  · intro lba k
    exact decide_eq_true_iff
  · intro pre c post heq
    match pre, heq with
    | [], heq =>
      cases heq
      exact .inr (.inl (by decide))
    | [_], heq =>
      cases heq
      exact .inr (.inr (by decide))
    | _ :: _ :: _, heq => simp at heq

/-- Sector 9 of the ten cannot be read first. -/
theorem cache_transparent_iff_end :
    freshDrive.Fresh ∧ (∀ lba k, tenSectors.readable lba k = true ↔ lba + k ≤ 10) ∧
      (callFor 9 (by decide)).lba < 10 ∧
      ((callFor 9 (by decide)).outcome tenSectors (performAll tenSectors [] freshDrive)).1 = false ∧
      ((callFor 9 (by decide)).direct tenSectors 10).1 = true := by
  refine ⟨freshDrive_fresh, fun lba k => decide_eq_true_iff, by decide, by decide, by decide⟩

end DiscouNT.Cdfs
