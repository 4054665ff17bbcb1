import DiscouNT.Cdfs.Lookup

/-!
# Cdfs.Fill

What sector reads leave in a buffer. The cache holds what the disc holds in every state that sector
reads lead to, so a sector read that succeeds delivers the bytes of the disc. Whether it succeeds
depends on the disc and the cache only, and the same goes for the reads of a whole directory.
-/

namespace DiscouNT.Cdfs

open Lib

/-- The cache is invalid or holds eight sectors of the disc. -/
def Volume.Coherent (m : Medium) (v : Volume) : Prop :=
  v.isoCacheValid = true → ∀ p < 8 * sectorSize, v.isoCache p = m.extent v.isoCacheLba p

/-- The states of the driver: the cache starts out invalid, and sector reads change it. -/
def Volume.Reached (m : Medium) (v : Volume) : Prop :=
  ∃ first calls, first.isoCacheValid = false ∧ v = performAll m calls first

/-- How a sector read ends and what it makes of the cache. -/
def sectorRead (m : Medium) (lba : Nat) (v : Volume) : Bool × Volume :=
  let r := cdfsReadSector m lba 0 (fun _ => 0) v
  (r.1, r.2.2)

def sectorReads (m : Medium) (lba : Nat) : Nat → Nat → Volume → List Bool × Volume
  | 0, _, v => ([], v)
  | n + 1, i, v =>
    let r := sectorRead m (u32 (lba + i)) v
    let rest := sectorReads m lba n (i + 1) r.2
    (r.1 :: rest.1, rest.2)

/-- The bytes of a directory on the disc. Its sector numbers are `uint32_t`. -/
def Medium.directory (m : Medium) (lba : Nat) : Mem :=
  fun p => m.byte (u32 (lba + p / sectorSize)) (p % sectorSize)

section Sector

variable (m : Medium) (lba d : Nat) (buf : Mem) (v : Volume)

theorem cdfsReadSector_fst : (cdfsReadSector m lba d buf v).1 = (sectorRead m lba v).1 := by
  unfold sectorRead cdfsReadSector Medium.readSectors
  repeat' split
  all_goals simp_all

theorem cdfsReadSector_volume : (cdfsReadSector m lba d buf v).2.2 = (sectorRead m lba v).2 := by
  unfold sectorRead cdfsReadSector Medium.readSectors
  repeat' split
  all_goals simp_all

variable {m lba d buf v}

theorem cdfsReadSector_frame {p : Nat} (hp : p < d ∨ d + sectorSize ≤ p) :
    (cdfsReadSector m lba d buf v).2.1 p = buf p := by
  have hout : ¬ (d ≤ p ∧ p < d + sectorSize) := by omega
  have hone : ¬ (d ≤ p ∧ p < d + 1 * sectorSize) := by omega
  unfold cdfsReadSector Medium.readSectors
  repeat' split
  all_goals simp_all [blit]

theorem cdfsReadSector_coherent (h : v.Coherent m) :
    (cdfsReadSector m lba d buf v).2.2.Coherent m := by
  unfold cdfsReadSector Medium.readSectors
  by_cases hready : (!v.cdromPresent || !v.cdromReady) = true
  · rw [if_pos hready]; exact h
  rw [if_neg hready]
  by_cases husb : v.usbIsoDevice = true
  · rw [if_pos husb]; exact h
  rw [if_neg husb]
  by_cases hhit : v.hit lba = true
  · rw [if_pos hhit]; exact h
  rw [if_neg hhit]
  cases m.readable lba 8 with
  | true =>
    intro _ p hp
    simp [blit, hp]
  | false =>
    intro hvalid
    cases hvalid

theorem cdfsReadSector_ok (h : v.Coherent m) (hlba : lba < 2 ^ 32)
    (hok : (cdfsReadSector m lba d buf v).1 = true) {k : Nat} (hk : k < sectorSize) :
    (cdfsReadSector m lba d buf v).2.1 (d + k) = m.byte lba k := by
  have hin : d ≤ d + k ∧ d + k < d + sectorSize := by omega
  have hdisc : m.extent lba k = m.byte lba k := by
    rw [Medium.extent, Nat.div_eq_of_lt hk, Nat.mod_eq_of_lt hk, Nat.add_zero]
  rw [← hdisc]
  unfold cdfsReadSector Medium.readSectors at hok ⊢
  by_cases hready : (!v.cdromPresent || !v.cdromReady) = true
  · simp [hready] at hok
  rw [if_neg hready] at hok ⊢
  by_cases husb : v.usbIsoDevice = true
  · rw [if_pos husb] at hok ⊢
    split at hok
    · rename_i hr
      simp only [hr, if_true, blit]
      rw [if_pos (by omega), Nat.zero_add, Nat.add_sub_cancel_left]
    · cases hok
  rw [if_neg husb] at hok ⊢
  by_cases hhit : v.hit lba = true
  · rw [if_pos hhit]
    obtain ⟨hvalid, hle, _⟩ := hit_iff.mp hhit
    have hlt := hit_bound hhit
    have hcached : (lba - v.isoCacheLba) * sectorSize + k < 8 * sectorSize := by
      simp only [sectorSize] at hk ⊢; omega
    simp only [blit]
    rw [if_pos hin, sub32_of_le hlba hle, Nat.add_sub_cancel_left, h hvalid _ hcached,
      extent_add_sectors, show v.isoCacheLba + (lba - v.isoCacheLba) = lba by omega]
  rw [if_neg hhit] at hok ⊢
  have hfill : 0 ≤ k ∧ k < 0 + 8 * sectorSize := by simp only [sectorSize] at hk ⊢; omega
  split at hok
  · rename_i hr
    simp only [hr, if_true, blit]
    rw [if_pos hin, Nat.add_sub_cancel_left, Nat.zero_add, if_pos hfill, Nat.zero_add, Nat.sub_zero]
  · simp at hok

end Sector

theorem performAll_coherent {m : Medium} (calls : List Call) :
    ∀ {v : Volume}, v.Coherent m → (performAll m calls v).Coherent m := by
  induction calls with
  | nil => intro v h; exact h
  | cons c calls ih => intro v h; exact ih (cdfsReadSector_coherent h)

theorem Volume.Reached.coherent {m : Medium} {v : Volume} (h : v.Reached m) : v.Coherent m := by
  obtain ⟨first, calls, hfirst, rfl⟩ := h
  apply performAll_coherent
  intro hvalid
  rw [hfirst] at hvalid
  cases hvalid

theorem performAll_append (m : Medium) (calls calls' : List Call) :
    ∀ v, performAll m (calls ++ calls') v = performAll m calls' (performAll m calls v) := by
  induction calls with
  | nil => intro v; rfl
  | cons c calls ih => intro v; exact ih _

/-- A drive in use: the driver has found it, and has read sectors from it. -/
structure Volume.Active (m : Medium) (v : Volume) : Prop where
  reached : v.Reached m
  present : v.cdromPresent = true
  ready : v.cdromReady = true

theorem sectorRead_flags (m : Medium) (lba : Nat) (v : Volume) :
    (sectorRead m lba v).2.cdromPresent = v.cdromPresent ∧
      (sectorRead m lba v).2.cdromReady = v.cdromReady := by
  unfold sectorRead cdfsReadSector Medium.readSectors
  repeat' split
  all_goals simp_all

theorem Volume.Active.sectorRead {m : Medium} {v : Volume} (h : v.Active m) {lba : Nat}
    (hlba : lba < 2 ^ 32) : (Cdfs.sectorRead m lba v).2.Active m := by
  obtain ⟨hpresent, hready⟩ := sectorRead_flags m lba v
  refine ⟨?_, by rw [hpresent]; exact h.present, by rw [hready]; exact h.ready⟩
  obtain ⟨first, calls, hfirst, rfl⟩ := h.reached
  refine ⟨first, calls ++ [⟨lba, hlba, 0, fun _ => 0⟩], hfirst, ?_⟩
  rw [performAll_append]
  rfl

section Directory

variable {m : Medium} {lba : Nat}

theorem sectorReads_length : ∀ (n i : Nat) (v : Volume), (sectorReads m lba n i v).1.length = n := by
  intro n
  induction n with
  | zero => intro i v; rfl
  | succ n ih => intro i v; simp [sectorReads, ih]

theorem fillDirectory_reads : ∀ (n i : Nat) (buf : Mem) (v : Volume),
    (fillDirectory m lba n i buf v).1 = (sectorReads m lba n i v).1 ∧
      (fillDirectory m lba n i buf v).2.2 = (sectorReads m lba n i v).2 := by
  intro n
  induction n with
  | zero => intro i buf v; exact ⟨rfl, rfl⟩
  | succ n ih =>
    intro i buf v
    simp only [fillDirectory, sectorReads, cdfsReadSector_fst, cdfsReadSector_volume]
    exact ⟨by rw [(ih _ _ _).1], (ih _ _ _).2⟩

theorem fillDirectory_frame : ∀ (n i : Nat) (buf : Mem) (v : Volume) {p : Nat}, p < i * sectorSize →
    (fillDirectory m lba n i buf v).2.1 p = buf p := by
  intro n
  induction n with
  | zero => intro i buf v p _; rfl
  | succ n ih =>
    intro i buf v p hp
    have hnext : p < (i + 1) * sectorSize := by rw [Nat.add_mul]; omega
    simp only [fillDirectory]
    rw [ih _ _ _ hnext, cdfsReadSector_frame (.inl hp)]

theorem sectorReads_coherent : ∀ (n i : Nat) {v : Volume}, v.Coherent m →
    (sectorReads m lba n i v).2.Coherent m := by
  intro n
  induction n with
  | zero => intro i v h; exact h
  | succ n ih =>
    intro i v h
    have hnext : (sectorRead m (u32 (lba + i)) v).2.Coherent m := cdfsReadSector_coherent h
    exact ih (i + 1) hnext

theorem sectorReads_active : ∀ (n i : Nat) {v : Volume}, v.Active m →
    (sectorReads m lba n i v).2.Active m := by
  intro n
  induction n with
  | zero => intro i v h; exact h
  | succ n ih =>
    intro i v h
    have hnext : (sectorRead m (u32 (lba + i)) v).2.Active m := h.sectorRead (u32_lt _)
    exact ih (i + 1) hnext

def SectorReadable (m : Medium) (lba : Nat) : Prop :=
  ∀ v : Volume, v.Active m → (sectorRead m lba v).1 = true

theorem sectorReadable_of_readable (h : ∀ lba k, m.readable lba k = true) :
    SectorReadable m lba := by
  intro v hv
  unfold sectorRead cdfsReadSector Medium.readSectors
  simp only [hv.present, hv.ready, h]
  repeat' split
  all_goals simp_all

theorem sectorReads_readable : ∀ (n i : Nat) {v : Volume}, v.Active m →
    (∀ k < n, SectorReadable m (u32 (lba + (i + k)))) →
      ∀ k < n, (sectorReads m lba n i v).1[k]? = some true := by
  intro n
  induction n with
  | zero => intro i v _ _ k hk; omega
  | succ n ih =>
    intro i v h hreadable k hk
    have hnext : (sectorRead m (u32 (lba + i)) v).2.Active m := h.sectorRead (u32_lt _)
    cases k with
    | zero =>
      have hok := hreadable 0 hk v h
      rw [Nat.add_zero] at hok
      simp only [sectorReads, List.getElem?_cons_zero, hok]
    | succ k =>
      simp only [sectorReads, List.getElem?_cons_succ]
      refine ih (i + 1) hnext (fun j hj => ?_) k (by omega)
      rw [show i + 1 + j = i + (j + 1) by omega]
      exact hreadable (j + 1) (by omega)

theorem fillDirectory_filled : ∀ (n i : Nat) (buf : Mem) {v : Volume}, v.Coherent m →
    ∀ {j : Nat}, (sectorReads m lba n i v).1[j]? = some true → ∀ {k : Nat}, k < sectorSize →
      (fillDirectory m lba n i buf v).2.1 ((i + j) * sectorSize + k) = m.byte (u32 (lba + (i + j))) k := by
  intro n
  induction n with
  | zero => intro i buf v _ j hj; simp [sectorReads] at hj
  | succ n ih =>
    intro i buf v h j hj k hk
    have hcoherent : (sectorRead m (u32 (lba + i)) v).2.Coherent m := cdfsReadSector_coherent h
    simp only [fillDirectory, cdfsReadSector_volume]
    cases j with
    | zero =>
      -- The reads after the first leave its sector alone.
      have hok : (sectorRead m (u32 (lba + i)) v).1 = true := by simpa [sectorReads] using hj
      have hframe : (i + 0) * sectorSize + k < (i + 1) * sectorSize := by
        rw [Nat.add_zero, Nat.add_mul]; omega
      rw [fillDirectory_frame _ _ _ _ hframe, Nat.add_zero]
      exact cdfsReadSector_ok h (u32_lt _) (by rw [cdfsReadSector_fst]; exact hok) hk
    | succ j =>
      rw [show i + (j + 1) = i + 1 + j by omega]
      exact ih _ _ hcoherent (by simpa [sectorReads] using hj) hk

theorem fillDirectory_eq_directory {n : Nat} (buf : Mem) {v : Volume} (h : v.Coherent m) {p : Nat}
    (hp : (sectorReads m lba n 0 v).1[p / sectorSize]? = some true) :
    (fillDirectory m lba n 0 buf v).2.1 p = m.directory lba p := by
  have hk : p % sectorSize < sectorSize := Nat.mod_lt _ (by decide)
  have hfilled := fillDirectory_filled n 0 buf h hp hk
  rwa [Nat.zero_add, Nat.mul_comm, Nat.div_add_mod] at hfilled

end Directory

end DiscouNT.Cdfs
