import DiscouNT.Mm.HeapMoves

/-!
# Mm.HeapRuns

Whole runs of the kernel heap. `HeapTiled` says of a state, in terms of the list in memory only,
that the list is acyclic, that its blocks tile the page runs without overlap, and that their sizes
sum to `heap_committed`.
-/

namespace DiscouNT.Mm

open Lib List

/-- Following `next` from `head` visits `blocks` in order and ends at a null pointer. -/
def ListFrom (arch : Arch) (m : Mem) : Nat → List Nat → Prop
  | head, [] => head = 0
  | head, b :: bs => head = b ∧ b ≠ 0 ∧ ListFrom arch m (blockNext arch m b) bs

def blockRange (arch : Arch) (m : Mem) (block : Nat) : Range :=
  ⟨block, sizeofHeapBlock arch + blockSize m block⟩

def HeapTiled (arch : Arch) (h : Heap) : Prop :=
  ∃ blocks, ListFrom arch h.mem h.heapHead blocks ∧ blocks.Nodup ∧
    (blocks.map (blockRange arch h.mem)).Pairwise Range.Disjoint ∧
    (∀ a, (∃ b ∈ blocks, (blockRange arch h.mem b).Contains a) ↔ ∃ r ∈ pageRuns h, r.Contains a) ∧
    totalLen (blocks.map (blockRange arch h.mem)) = mmGetHeapTotal h

/-- Reallocating a used, non-empty block asks for a size that `MmAlignUp` can round. -/
def ReallocFits (arch : Arch) : HeapOp → Heap → Prop
  | .realloc pointer size, h => size.toNat ≤ 0xFFFFFFF8 ∨
      ∀ blocks block, ListFrom arch h.mem h.heapHead blocks → block ∈ blocks →
        blockData arch block = pointer → blockFree h.mem block = 0 → blockSize h.mem block = 0
  | _, _ => True

variable {arch : Arch}

theorem listFrom_unique {m : Mem} : ∀ {l l' : List Nat} {head : Nat},
    ListFrom arch m head l → ListFrom arch m head l' → l = l' := by
  intro l
  induction l with
  | nil =>
    intro l' head h h'
    cases l' with
    | nil => rfl
    | cons b bs => exact absurd (h'.1.symm.trans h) h'.2.1
  | cons b bs ih =>
    intro l' head h h'
    cases l' with
    | nil => exact absurd (h.1.symm.trans h') h.2.1
    | cons b' bs' =>
      obtain rfl : b = b' := h.1.symm.trans h'.1
      rw [ih h.2.2 h'.2.2]

theorem chain_listFrom {m : Mem} : ∀ {bs : List Block} {head : Nat},
    Chain arch m head bs → ListFrom arch m head (bs.map Block.addr) ∧
      (bs.map Block.addr).map (blockRange arch m) = ranges arch bs := by
  intro bs
  induction bs with
  | nil => intro head h; exact ⟨h, rfl⟩
  | cons b bs ih =>
    intro head ⟨hhead, hne, hsize, _, hrest⟩
    obtain ⟨hl, hr⟩ := ih hrest
    refine ⟨⟨hhead, hne, hl⟩, ?_⟩
    rw [map_cons, map_cons, hr, ranges_cons]
    simp only [blockRange, hsize, Block.range]

variable {bs : List Block} {h : Heap}

theorem HeapInv.tiled (hi : HeapInv arch h bs) :
    HeapTiled arch h := by
  have hH := sizeofHeapBlock_cases arch
  have hpl := hi.placed
  obtain ⟨hlist, hranges⟩ := chain_listFrom hi.chain
  have hpos : ∀ r ∈ ranges arch bs, 0 < r.len := by
    intro r hr
    obtain ⟨b, _, rfl⟩ := mem_map.mp hr
    show 0 < sizeofHeapBlock arch + b.size
    omega
  have hdis := pairwise_disjoint_of_cover_le_one hpl.once hpos
  refine ⟨bs.map Block.addr, hlist, ?_, by rw [hranges]; exact hdis, fun a => ?_, ?_⟩
  · -- equal addresses would be overlapping ranges
    rw [List.Nodup, pairwise_map]
    refine List.Pairwise.imp ?_ (pairwise_map.mp hdis)
    intro b c hbc heq
    simp only [Range.Disjoint, Block.range] at hbc
    omega
  · have hmem : (∃ b ∈ bs.map Block.addr, (blockRange arch h.mem b).Contains a) ↔
        ∃ r ∈ ranges arch bs, r.Contains a := by
      rw [← hranges]; simp
    rw [hmem, ← cover_pos_iff, ← cover_pos_iff, hi.cov a]
  · rw [hranges, hi.total]; rfl

theorem mmAlignUp_ge {size : Nat} (h : size ≤ 0xFFFFFFF8) : size ≤ mmAlignUp size := by
  simp only [mmAlignUp, mmAlign, u32]
  omega

theorem HeapInv.payload {h' : Heap} {n : Block}
    (hi : HeapInv arch h bs) (hn : n ∈ bs) (hh : h' = { h with mem := h'.mem, copies := h'.copies })
    (hmem : ∀ a, ¬ (n.data arch ≤ a ∧ a < n.data arch + n.size) → h'.mem a = h.mem a) :
    HeapInv arch h' bs := by
  rw [hh]
  refine ⟨hi.init, chain_congr hi.chain fun c hc a ha => hmem a fun hin => ?_, hi.cov, hi.total,
    hi.runs_once, hi.runs_in, hi.data_lt⟩
  by_cases hcn : c = n
  · subst hcn
    simp only [Range.Contains, Block.header, Block.data] at ha hin
    omega
  · have hd := hi.placed.disjoint_of_ne hc hn hcn
    simp only [Range.Contains, Range.Disjoint, Block.header, Block.range, Block.data] at ha hd hin
    omega

theorem memcpy_inv {n : Block} (src : Nat) {len : Nat}
    (hi : HeapInv arch h bs) (hn : n ∈ bs) (hlen : len ≤ n.size) :
    HeapInv arch (memcpy (n.data arch) src len h) bs :=
  hi.payload hn rfl fun a ha => copyFwd_out (by omega)

theorem realloc_inv (src : PageSource) {pointer : Nat}
    {size : UInt32} (hi : HeapInv arch h bs) (hok : ReallocFits arch (.realloc pointer size) h) :
    ∃ q h' bs', realloc arch src pointer size.toNat h = some (q, h') ∧ HeapInv arch h' bs' ∧
      Moves arch h bs h' bs' := by
  have hpl := hi.placed
  rw [realloc]
  by_cases hp : pointer = 0
  · rw [if_pos hp]
    by_cases hs : size.toNat = 0
    · exact ⟨0, h, bs, by simp [kmalloc, hs], hi, .refl⟩
    · obtain ⟨q, h', bs', hrun, hal⟩ := kmalloc_spec src hi hs
      exact ⟨q, h', bs', hrun, hal.inv, kmalloc_moves hi hrun hal.inv⟩
  rw [if_neg hp]
  by_cases hs : size.toNat = 0
  · obtain ⟨h', bs', hrun, hfr⟩ := kfree_spec pointer hi
    exact ⟨0, h', bs', by rw [if_pos hs, hrun], hfr.inv, kfree_moves hi hrun hfr.inv⟩
  rw [if_neg hs]
  rcases findBlock_spec (p := holds arch pointer) hi.chain hi.length_lt with
    ⟨hfind, -⟩ | ⟨l, b, r, rfl, hfind, hne, hhold, -⟩
  · exact ⟨0, h, bs, by simp [hfind], hi, .refl⟩
  have hb : b ∈ l ++ b :: r := by simp
  simp only [holds, decide_eq_true_eq] at hhold
  simp only [hfind]
  by_cases hfree : blockFree h.mem b.addr ≠ 0
  · exact ⟨0, h, _, by rw [if_pos (.inr hfree)], hi, .refl⟩
  rw [if_neg (by simpa [hne] using hfree)]
  by_cases hfit : size.toNat ≤ blockSize h.mem b.addr
  · exact ⟨pointer, h, _, by rw [if_pos hfit], hi, .refl⟩
  rw [if_neg hfit]
  obtain ⟨q, h1, bs1, hrun, hal⟩ := kmalloc_spec src hi hs
  simp only [hrun]
  rcases hal.result with ⟨rfl, -⟩ | ⟨n, rfl, hnf, hsz, -, hu⟩
  · exact ⟨0, h1, bs1, rfl, hal.inv, kmalloc_moves hi hrun hal.inv⟩
  have hqpos := n.data_pos arch
  rw [if_neg (by omega)]
  have hdrop := chain_drop hi.chain
  have hbf : b.free = false := by
    cases hbf : b.free with
    | false => rfl
    | true => exact absurd (hdrop.2.2.2.1.mpr hbf) hfree
  have hbsize : blockSize h1.mem b.addr = blockSize h.mem b.addr := by
    refine (@blockSize_congr arch _ _ _ fun a ha => hal.frame b hb hbf a ?_).1
    simp only [Range.Contains, Block.header, Block.range] at ha ⊢
    omega
  -- what is copied fits in the replacement
  have hcopy : (if blockSize h1.mem b.addr < size.toNat then blockSize h1.mem b.addr else size.toNat) ≤
      n.size := by
    rw [hbsize, if_pos (by omega)]
    rcases hok with hle | hempty
    · have := mmAlignUp_ge hle
      omega
    · obtain ⟨hlist, -⟩ := chain_listFrom hi.chain
      have := hempty _ b.addr hlist (mem_map_of_mem hb) hhold (by simpa using hfree)
      omega
  have hn : n ∈ bs1 := (hu n hnf).mpr (.inl rfl)
  have hcopied := memcpy_inv pointer hal.inv hn hcopy
  obtain ⟨h', bs', hfr, hfreed⟩ := kfree_spec pointer hcopied
  have hmoves := kfree_moves hcopied hfr hfreed.inv
  exact ⟨_, h', bs', by rw [hfr], hfreed.inv, (kmalloc_moves hi hrun hal.inv).trans hmoves⟩

variable {src : PageSource}

theorem heapStep_inv {op : HeapOp} (hi : HeapInv arch h bs) (hok : ReallocFits arch op h) :
    ∃ h' bs', heapStep arch src op h = some h' ∧ HeapInv arch h' bs' ∧
      Moves arch h bs h' bs' := by
  cases op with
  | kmalloc size =>
    by_cases hs : size.toNat = 0
    · exact ⟨h, bs, by simp [heapStep, kmalloc, hs], hi, .refl⟩
    · obtain ⟨q, h', bs', hrun, hal⟩ := kmalloc_spec src hi hs
      exact ⟨h', bs', by simp [heapStep, hrun], hal.inv, kmalloc_moves hi hrun hal.inv⟩
  | kfree pointer =>
    obtain ⟨h', bs', hrun, hfr⟩ := kfree_spec pointer hi
    exact ⟨h', bs', hrun, hfr.inv, kfree_moves hi hrun hfr.inv⟩
  | realloc pointer size =>
    obtain ⟨q, h', bs', hrun, hi', hmoves⟩ := realloc_inv src hi hok
    exact ⟨h', bs', by simp [heapStep, hrun], hi', hmoves⟩

theorem reachable_moves {mem : Mem} (hr : Reachable arch src (ReallocFits arch) mem h) :
    ∃ bs, HeapInv arch h bs ∧ Moves arch (mmInitialize mem) [] h bs := by
  induction hr with
  | init => exact ⟨[], mmInitialize_inv arch mem, .refl⟩
  | step _ hok hstep ih =>
    obtain ⟨bs, hi, hmoves⟩ := ih
    obtain ⟨h', bs', hrun, hi', hmoves'⟩ := heapStep_inv hi hok
    rw [hrun] at hstep
    cases hstep
    exact ⟨bs', hi', hmoves.trans hmoves'⟩

theorem reachable_inv {mem : Mem}
    (hr : Reachable arch src (ReallocFits arch) mem h) : ∃ bs, HeapInv arch h bs := by
  obtain ⟨bs, hi, -⟩ := reachable_moves hr
  exact ⟨bs, hi⟩

/-- **Tiling over whole runs** of calls none of which reallocates a used, non-empty block to more
than `0xFFFFFFF8` bytes: the list tiles the page runs, and the next such call returns. -/
theorem reachable_tiled {arch : Arch} {src : PageSource} {mem : Mem} {h : Heap}
    (hr : Reachable arch src (ReallocFits arch) mem h) :
    HeapTiled arch h ∧ ∀ op, ReallocFits arch op h → ∃ h', heapStep arch src op h = some h' := by
  obtain ⟨bs, hi⟩ := reachable_inv hr
  refine ⟨hi.tiled, fun op hok => ?_⟩
  obtain ⟨h', _, hrun, _, _⟩ := heapStep_inv hi hok
  exact ⟨h', hrun⟩

def oneRun : PageSource where
  answer calls count := if calls = [] ∧ count = 16 then 0x100000 else 0
  aligned calls count := by split <;> decide
  below calls count h := by
    split at h
    · rename_i hc
      rw [if_pos hc, hc.2]
      decide
    · exact absurd rfl h
  fresh calls count h c hc := by
    split at h
    · rename_i hnil
      rw [hnil.1] at hc
      cases hc
    · exact absurd rfl h

theorem reachable_tiled_kmalloc :
    ∃ h, heapStep .x86 oneRun (.kmalloc 32) (mmInitialize fun _ => 0) = some h ∧ HeapTiled .x86 h := by
  have hinit : Reachable .x86 oneRun (ReallocFits .x86) (fun _ => 0) (mmInitialize fun _ => 0) := .init
  obtain ⟨h', hrun⟩ := (reachable_tiled hinit).2 (.kmalloc 32) trivial
  have hstep := @Reachable.step _ _ _ _ _ _ (.kmalloc 32) hinit trivial hrun
  exact ⟨h', hrun, (reachable_tiled hstep).1⟩

def wrappedRealloc : Option Heap :=
  match heapStep .x86 oneRun (.kmalloc 32) (mmInitialize fun _ => 0) with
  | none => none
  | some h => heapStep .x86 oneRun (.realloc 0x10000C 0xFFFFFFFF) h

theorem realloc_wrap_breaks_tiling :
    ¬ ∀ (src : PageSource) (mem : Mem) (h : Heap),
      Reachable .x86 src (fun _ _ => True) mem h → HeapTiled .x86 h := by
  intro hall
  have hval : wrappedRealloc.map (fun h => (h.heapHead, blockNext .x86 h.mem 0x100000,
      blockNext .x86 h.mem 0x10002C, blockNext .x86 h.mem 0x100038,
      totalLen ([0x100000, 0x10002C, 0x100038].map (blockRange .x86 h.mem)), mmGetHeapTotal h)) =
      some (0x100000, 0x10002C, 0x100038, 0, 68, 65536) := by decide +kernel
  obtain ⟨h, hrun, hfacts⟩ := Option.map_eq_some_iff.mp hval
  simp only [Prod.mk.injEq] at hfacts
  obtain ⟨e0, e1, e2, e3, e4, e5⟩ := hfacts
  have hreach : Reachable .x86 oneRun (fun _ _ => True) (fun _ => 0) h := by
    simp only [wrappedRealloc] at hrun
    split at hrun
    · cases hrun
    · rename_i h1 hk
      exact .step (.step .init trivial hk) trivial hrun
  obtain ⟨blocks, hlist, -, -, -, htotal⟩ := hall oneRun _ h hreach
  have hlist' : ListFrom .x86 h.mem h.heapHead [0x100000, 0x10002C, 0x100038] := by
    simp [ListFrom, e0, e1, e2, e3]
  rw [listFrom_unique hlist hlist', e4, e5] at htotal
  exact absurd htotal (by decide)

end DiscouNT.Mm
