import DiscouNT.Fat.Volume

/-!
# Fat.Chain

Chains of clusters that end. The nested loops of the FAT32 reader over clusters, sectors and
directory entries are loops over flat lists: the entries of a directory in one list (`findEntry_eq`),
the sectors of a file in one list (`copyChain_eq`).
-/

namespace DiscouNT.Fat

open Lib Cdfs List

inductive Chain (m : Disk) (v : FatVolume) : Nat → List Nat → Prop
  | stop {cluster : Nat} : isCluster cluster = false → Chain m v cluster []
  | link {cluster : Nat} {rest : List Nat} : isCluster cluster = true →
      Chain m v (nextCluster m v cluster) rest → Chain m v cluster (cluster :: rest)

def sectorsFrom (first : Nat) : Nat → Nat → List Nat
  | 0, _ => []
  | n + 1, s => u32 (first + s) :: sectorsFrom first n (s + 1)

def chainSectors (v : FatVolume) (clusters : List Nat) : List Nat :=
  clusters.flatMap fun cluster => sectorsFrom (clusterLba v cluster) v.sectorsPerCluster 0

theorem chainSectors_cons (v : FatVolume) (cluster : Nat) (rest : List Nat) :
    chainSectors v (cluster :: rest) =
      sectorsFrom (clusterLba v cluster) v.sectorsPerCluster 0 ++ chainSectors v rest :=
  flatMap_cons

def slotsFrom (b : Mem) : Nat → Nat → List Mem
  | 0, _ => []
  | n + 1, off => (fun k => b (off + k)) :: slotsFrom b n (off + 32)

def slots (m : Disk) (sectors : List Nat) : List Mem :=
  sectors.flatMap fun lba => slotsFrom (m.sector lba) 16 0

def scanSlots (wanted : List UInt8) : List Mem → Scan
  | [] => .more
  | slot :: rest =>
    if slot 0 = 0 then .ended
    else if skipped slot 0 then scanSlots wanted rest
    else if nameAt slot 0 = wanted then .found (entryAt slot 0)
    else scanSlots wanted rest

theorem scanSlots_append (wanted : List UInt8) (l l' : List Mem) :
    scanSlots wanted (l ++ l') = match scanSlots wanted l with
      | .more => scanSlots wanted l'
      | scan => scan := by
  induction l with
  | nil => rfl
  | cons slot l ih =>
    simp only [cons_append, scanSlots]
    split
    · rfl
    · split
      · exact ih
      · split
        · rfl
        · exact ih

theorem scanSector_eq (b : Mem) (wanted : List UInt8) :
    ∀ n off, scanSector b wanted n off = scanSlots wanted (slotsFrom b n off) := by
  intro n
  induction n with
  | zero => intro off; rfl
  | succ n ih =>
    intro off
    have hname : nameAt (fun k => b (off + k)) 0 = nameAt b off := by simp [nameAt]
    have hentry : entryAt (fun k => b (off + k)) 0 = entryAt b off := by
      simp [entryAt, nameAt, readLE, Nat.add_assoc]
    rw [scanSector, slotsFrom, scanSlots, hname, hentry, ih]
    rfl

theorem scanCluster_eq {m : Disk} {first : Nat} (wanted : List UInt8) : ∀ {n s : Nat},
    (∀ lba ∈ sectorsFrom first n s, m.readable lba = true) →
      scanCluster m first wanted n s = scanSlots wanted (slots m (sectorsFrom first n s)) := by
  intro n
  induction n with
  | zero => intro s _; rfl
  | succ n ih =>
    intro s h
    rw [sectorsFrom, forall_mem_cons] at h
    rw [scanCluster, sectorsFrom, Disk.readSector, if_pos h.1]
    simp only [slots, flatMap_cons, scanSlots_append, scanSector_eq, ih h.2]
    all_goals
      generalize scanSlots wanted (slotsFrom (m.sector (u32 (first + s))) 16 0) = scan
      cases scan <;> rfl

theorem findEntry_eq {m : Disk} {v : FatVolume} (wanted : List UInt8) {cluster : Nat}
    {clusters : List Nat} (hchain : Chain m v cluster clusters) :
    ∀ {rounds : Nat}, clusters.length ≤ rounds →
      (∀ lba ∈ chainSectors v clusters, m.readable lba = true) →
        findEntry m v wanted rounds cluster =
          match scanSlots wanted (slots m (chainSectors v clusters)) with
          | .found e => some (some e)
          | _ => some none := by
  induction hchain with
  | stop hstop =>
    intro rounds _ _
    unfold findEntry
    rw [hstop]
    rfl
  | @link cluster rest hcluster hrest ih =>
    intro rounds hrounds hreadable
    rw [chainSectors_cons, forall_mem_append] at hreadable
    cases rounds with
    | zero => simp at hrounds
    | succ rounds =>
      have hnext := ih (Nat.le_of_succ_le_succ hrounds) hreadable.2
      have hsplit : slots m (chainSectors v (cluster :: rest)) =
          slots m (sectorsFrom (clusterLba v cluster) v.sectorsPerCluster 0) ++
            slots m (chainSectors v rest) := by
        rw [chainSectors_cons, slots, flatMap_append]
        rfl
      rw [findEntry, hcluster, hsplit, scanSlots_append]
      simp only [Bool.not_true, Bool.false_eq_true, if_false, scanCluster_eq wanted hreadable.1,
        hnext]
      generalize scanSlots wanted (slots m (sectorsFrom _ _ _)) = scan
      cases scan <;> rfl

def copySectors (m : Disk) (size : Nat) : List Nat → Nat → Mem → Nat × Mem
  | [], copied, buffer => (copied, buffer)
  | lba :: rest, copied, buffer =>
    if size ≤ copied then (copied, buffer)
    else
      copySectors m size rest (copied + min (size - copied) bytesPerSector)
        (blit buffer copied (m.sector lba) 0 (min (size - copied) bytesPerSector))

section Copy

variable {m : Disk} {v : FatVolume} {size : Nat}

theorem copySectors_full {sectors : List Nat} {copied : Nat} {buffer : Mem} (h : size ≤ copied) :
    copySectors m size sectors copied buffer = (copied, buffer) := by
  cases sectors with
  | nil => rfl
  | cons lba rest => rw [copySectors, if_pos h]

theorem copySectors_append (l l' : List Nat) : ∀ (copied : Nat) (buffer : Mem),
    copySectors m size (l ++ l') copied buffer =
      copySectors m size l' (copySectors m size l copied buffer).1
        (copySectors m size l copied buffer).2 := by
  induction l with
  | nil => intro copied buffer; rfl
  | cons lba l ih =>
    intro copied buffer
    rw [cons_append, copySectors, copySectors]
    by_cases h : size ≤ copied
    · rw [if_pos h, if_pos h, copySectors_full h]
    · rw [if_neg h, if_neg h, ih]

theorem copyCluster_eq {first : Nat} : ∀ {n s copied : Nat} {buffer : Mem},
    (∀ lba ∈ sectorsFrom first n s, m.readable lba = true) →
      copyCluster m first size n s copied buffer =
        some (copySectors m size (sectorsFrom first n s) copied buffer) := by
  intro n
  induction n with
  | zero => intro s copied buffer _; rfl
  | succ n ih =>
    intro s copied buffer h
    rw [sectorsFrom, forall_mem_cons] at h
    rw [copyCluster, sectorsFrom, copySectors]
    by_cases hfull : size ≤ copied
    · rw [if_pos hfull, if_pos hfull]
    · rw [if_neg hfull, if_neg hfull, Disk.readSector, if_pos h.1]
      exact ih h.2

theorem copyChain_eq {cluster : Nat} {clusters : List Nat} (hchain : Chain m v cluster clusters) :
    ∀ {rounds copied : Nat} {buffer : Mem}, clusters.length ≤ rounds →
      (∀ lba ∈ chainSectors v clusters, m.readable lba = true) →
        copyChain m v size rounds cluster copied buffer =
          some (some (copySectors m size (chainSectors v clusters) copied buffer)) := by
  induction hchain with
  | stop hstop =>
    intro rounds copied buffer _ _
    unfold copyChain
    rw [hstop]
    rfl
  | @link cluster rest hcluster hrest ih =>
    intro rounds copied buffer hrounds hreadable
    rw [chainSectors_cons, forall_mem_append] at hreadable
    by_cases hfull : size ≤ copied
    · unfold copyChain
      rw [copySectors_full hfull]
      simp [hfull]
    · cases rounds with
      | zero => simp at hrounds
      | succ rounds =>
        rw [copyChain, hcluster]
        simp only [hfull, decide_false, Bool.not_true, Bool.or_self, Bool.false_eq_true, if_false,
          copyCluster_eq hreadable.1]
        rw [ih (Nat.le_of_succ_le_succ hrounds) hreadable.2, chainSectors_cons, copySectors_append]

theorem copySectors_spec {g : Nat → UInt8} : ∀ {sectors : List Nat} {k copied : Nat} {buffer : Mem},
    copied = min size (k * bytesPerSector) → (∀ i < copied, buffer i = g i) →
      (∀ j lba, sectors[j]? = some lba → ∀ t < bytesPerSector,
        g ((k + j) * bytesPerSector + t) = m.sector lba t) →
        (copySectors m size sectors copied buffer).1 =
            min size ((k + sectors.length) * bytesPerSector) ∧
          ∀ i < (copySectors m size sectors copied buffer).1,
            (copySectors m size sectors copied buffer).2 i = g i := by
  intro sectors
  induction sectors with
  | nil =>
    intro k copied buffer hcopied hbuffer _
    exact ⟨hcopied, hbuffer⟩
  | cons lba rest ih =>
    intro k copied buffer hcopied hbuffer hsectors
    rw [copySectors]
    by_cases hfull : size ≤ copied
    · rw [if_pos hfull]
      refine ⟨?_, hbuffer⟩
      have hle : k * bytesPerSector ≤ (k + (lba :: rest).length) * bytesPerSector :=
        Nat.mul_le_mul_right _ (by omega)
      omega
    · rw [if_neg hfull]
      have hk : copied = k * bytesPerSector := by omega
      have hnext : copied + min (size - copied) bytesPerSector =
          min size ((k + 1) * bytesPerSector) := by
        rw [Nat.add_mul, ← hk]
        omega
      rw [length_cons, show k + (rest.length + 1) = k + 1 + rest.length by omega]
      refine ih hnext ?_ ?_
      · intro i hi
        simp only [blit]
        by_cases hin : copied ≤ i
        · have hlba := hsectors 0 lba rfl (i - copied) (by omega)
          rw [Nat.add_zero, ← hk, show copied + (i - copied) = i by omega] at hlba
          rw [if_pos ⟨hin, hi⟩, Nat.zero_add, hlba]
        · rw [if_neg (by omega)]
          exact hbuffer i (by omega)
      · intro j lba' hj t ht
        rw [show k + 1 + j = k + (j + 1) by omega]
        exact hsectors (j + 1) lba' hj t ht

def sectorBytes (m : Disk) (sectors : List Nat) : Mem := fun i =>
  match sectors[i / bytesPerSector]? with
  | none => 0
  | some lba => m.sector lba (i % bytesPerSector)

theorem sectorBytes_eq {sectors : List Nat} {k lba t : Nat} (hlba : sectors[k]? = some lba)
    (ht : t < bytesPerSector) : sectorBytes m sectors (k * bytesPerSector + t) = m.sector lba t := by
  have hdiv : (k * bytesPerSector + t) / bytesPerSector = k := by
    rw [Nat.mul_comm, Nat.mul_add_div (by decide), Nat.div_eq_of_lt ht, Nat.add_zero]
  have hmod : (k * bytesPerSector + t) % bytesPerSector = t := by
    rw [Nat.mul_comm, Nat.mul_add_mod, Nat.mod_eq_of_lt ht]
  simp only [sectorBytes, hdiv, hmod, hlba]

theorem copySectors_all {sectors : List Nat} (hroom : size ≤ sectors.length * bytesPerSector)
    (buffer : Mem) :
    (copySectors m size sectors 0 buffer).1 = size ∧
      ∀ i < size, (copySectors m size sectors 0 buffer).2 i = sectorBytes m sectors i := by
  have hspec : (copySectors m size sectors 0 buffer).1 =
        min size ((0 + sectors.length) * bytesPerSector) ∧
      ∀ i < (copySectors m size sectors 0 buffer).1,
        (copySectors m size sectors 0 buffer).2 i = sectorBytes m sectors i := by
    refine copySectors_spec (by simp) (fun i hi => by omega) ?_
    intro j lba hj t ht
    rw [Nat.zero_add]
    exact sectorBytes_eq hj ht
  rw [Nat.zero_add, Nat.min_eq_left hroom] at hspec
  refine ⟨hspec.1, fun i hi => hspec.2 i ?_⟩
  rw [hspec.1]
  exact hi

end Copy

end DiscouNT.Fat
