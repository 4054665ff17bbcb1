import DiscouNT.Mm.Realloc

/-!
# Mm.Fragments

How far the heap falls into pieces.

`MmCoalesce` only looks at neighbours in the list, which is enough because the list goes through
each page run in the order of its addresses (`Linked`): a block that ends inside a run is followed
by the block that begins there. Every move keeps that. So once no block is in use, each run is
covered by one free block (`whole_of_free`).
-/

namespace DiscouNT.Mm

open Lib List Option

def Block.last (arch : Arch) (b : Block) : Nat := b.data arch + b.size

/-- If the block ends inside a run, the next one begins where it ends. -/
def Reaches (arch : Arch) (runs : List Range) (b : Block) (next : Option Nat) : Prop :=
  ∀ run ∈ runs, run.base < b.last arch → b.last arch < run.base + run.len →
    next = some (b.last arch)

def Linked (arch : Arch) (runs : List Range) : List Block → Prop
  | [] => True
  | b :: r => Reaches arch runs b (r.head?.map Block.addr) ∧ Linked arch runs r

section Linked

variable {arch : Arch} {runs : List Range} {bs l r : List Block} {b c n : Block} {size : Nat}
  {s s' : List Block × List Range}

theorem Linked.drop (h : Linked arch runs (l ++ b :: r)) : Linked arch runs (b :: r) := by
  induction l with
  | nil => exact h
  | cons c l ih => exact ih h.2

theorem Linked.replace (h : Linked arch runs (l ++ b :: r)) (haddr : c.addr = b.addr)
    (hc : Linked arch runs (c :: bs)) : Linked arch runs (l ++ c :: bs) := by
  induction l with
  | nil => exact hc
  | cons d l ih =>
    refine ⟨?_, ih h.2⟩
    have hd := h.1
    cases l with
    | nil => simpa [haddr] using hd
    | cons e l => exact hd

theorem joinOnto_linked (h : Linked arch runs (b :: r)) : Linked arch runs (joinOnto arch b r) := by
  induction r generalizing b with
  | nil => exact h
  | cons c r ih =>
    obtain ⟨hb, hc, hr⟩ := h
    rw [joinOnto]
    split
    case isTrue hmerge =>
      refine ih ⟨?_, hr⟩
      -- the joined block ends where the second one did
      have hlast : (⟨b.addr, b.size + (sizeofHeapBlock arch + c.size), true⟩ : Block).last arch =
          c.last arch := by
        have hadj := hmerge.2.2
        simp only [Block.last, Block.data] at hadj ⊢
        omega
      unfold Reaches
      rw [hlast]
      exact hc
    case isFalse =>
      obtain ⟨d, rest, hd, haddr, -⟩ := joinOnto_head arch c r
      refine ⟨?_, ih ⟨hc, hr⟩⟩
      rw [hd]
      simpa [haddr] using hb

theorem joinFree_linked (h : Linked arch runs bs) : Linked arch runs (joinFree arch bs) := by
  cases bs with
  | nil => exact h
  | cons b r => exact joinOnto_linked h

theorem cut_linked (hsize : size ≤ b.size) (h : Linked arch runs (l ++ b :: r)) :
    Linked arch runs (l ++ (cut arch size b ++ r)) := by
  have hdrop := h.drop
  unfold cut
  split
  case isTrue =>
    exact Linked.replace h rfl hdrop
  case isFalse hlarge =>
    have hlast : (⟨b.data arch + size, b.size - size - sizeofHeapBlock arch, true⟩ : Block).last arch =
        b.last arch := by
      simp only [Block.last, Block.data]
      omega
    refine Linked.replace h rfl ⟨fun run _ _ _ => rfl, ?_, hdrop.2⟩
    unfold Reaches
    rw [hlast]
    exact hdrop.1

theorem grow_linked (hold : ∀ b ∈ bs, (n.range arch).Disjoint (b.range arch))
    (hruns : ∀ run ∈ runs, (n.range arch).Disjoint run) (h : Linked arch runs bs) :
    Linked arch (n.range arch :: runs) (n :: bs) := by
  have hH := sizeofHeapBlock_cases arch
  constructor
  · intro run hrun hbase hlen
    rcases mem_cons.mp hrun with rfl | hrun
    · simp only [Block.last, Block.data, Block.range] at hlen
      omega
    · have hdis := hruns run hrun
      simp only [Block.last, Block.data, Block.range, Range.Disjoint] at hbase hlen hdis
      omega
  · clear hruns
    induction bs with
    | nil => trivial
    | cons b bs ih =>
      refine ⟨fun run hrun hbase hlen => ?_, ih (fun c hc => hold c (mem_cons_of_mem _ hc)) h.2⟩
      rcases mem_cons.mp hrun with rfl | hrun
      · have hdis := hold b mem_cons_self
        simp only [Block.last, Block.data, Block.range, Range.Disjoint] at hbase hlen hdis
        omega
      · exact h.1 run hrun hbase hlen

theorem Move.linked (hmove : Move arch s s') (h : Linked arch s.2 s.1) : Linked arch s'.2 s'.1 := by
  cases hmove with
  | cut _ hsize _ => exact cut_linked hsize h
  | grow _ _ _ hold hruns => exact grow_linked hold hruns h
  | release => exact joinFree_linked (Linked.replace h rfl h.drop)

theorem linked_of_moves {h h' : Heap} {bs' : List Block} (hmoves : Moves arch h bs h' bs')
    (hl : Linked arch (pageRuns h) bs) : Linked arch (pageRuns h') bs' := by
  unfold Moves at hmoves
  generalize hs : (bs', pageRuns h') = s at hmoves
  have hend : Linked arch s.2 s.1 := by
    clear hs
    induction hmoves with
    | refl => exact hl
    | tail _ hmove ih => exact hmove.linked ih
  rw [← hs] at hend
  exact hend

end Linked

theorem runs_pos {arch : Arch} {h h' : Heap} {bs bs' : List Block} (hmoves : Moves arch h bs h' bs')
    (hpos : ∀ run ∈ pageRuns h, 0 < run.len) : ∀ run ∈ pageRuns h', 0 < run.len := by
  have hH := sizeofHeapBlock_cases arch
  unfold Moves at hmoves
  generalize hs : (bs', pageRuns h') = s at hmoves
  have hend : ∀ run ∈ s.2, 0 < run.len := by
    clear hs
    induction hmoves with
    | refl => exact hpos
    | tail _ hmove ih =>
      cases hmove with
      | cut => exact ih
      | release => exact ih
      | grow =>
        refine forall_mem_cons.mpr ⟨?_, ih⟩
        simp only [Block.range]
        omega
  rw [← hs] at hend
  exact hend

/-- Of two neighbours in the list that are adjacent one is in use. -/
def NoFragments (arch : Arch) (h : Heap) : Prop :=
  ∀ blocks, ListFrom arch h.mem h.heapHead blocks → blocks.IsChain fun b c =>
    ¬ (blockFree h.mem b ≠ 0 ∧ blockFree h.mem c ≠ 0 ∧ blockData arch b + blockSize h.mem b = c)

section Whole

variable {arch : Arch} {src : PageSource} {mem : Mem} {h h' : Heap} {bs : List Block} {p m : Nat}

theorem noFragments_of_apart (hi : HeapInv arch h bs) (hbs : bs.IsChain (Apart arch)) :
    NoFragments arch h := by
  intro blocks hlist
  rw [listFrom_unique hlist (chain_listFrom hi.chain).1, isChain_map]
  refine hbs.imp_of_mem_imp fun b c hb hc hapart hboth => hapart ?_
  obtain ⟨hsize, hfree⟩ := listFrom_mem hi.chain hb
  rw [hi.placed.blockData hb, hsize] at hboth
  exact ⟨hfree.mp hboth.1, (listFrom_mem hi.chain hc).2.mp hboth.2.1, hboth.2.2⟩

theorem whole_of_free (hi : HeapInv arch h bs) (hlinked : Linked arch (pageRuns h) bs)
    (hapart : bs.IsChain (Apart arch)) (hfree : ∀ b ∈ bs, b.free = true) {run : Range}
    (hrun : run ∈ pageRuns h) (hlen : 0 < run.len) :
    ∃ b ∈ bs, b.addr ≤ run.base ∧ run.base + run.len ≤ b.last arch := by
  have hbase : 0 < cover (pageRuns h) run.base :=
    cover_pos_iff.mpr ⟨run, hrun, le_refl _, Nat.lt_add_of_pos_right hlen⟩
  rw [← hi.cov, cover_pos_iff] at hbase
  obtain ⟨_, hmem, hcontains⟩ := hbase
  obtain ⟨b, hb, rfl⟩ := mem_map.mp hmem
  simp only [Range.Contains, Block.range] at hcontains
  refine ⟨b, hb, hcontains.1, ?_⟩
  by_contra hends
  -- the block ends inside the run, so the next one is adjacent to it, and both are free
  obtain ⟨l, r, rfl⟩ := append_of_mem hb
  have hreaches := hlinked.drop.1 run hrun (by simp only [Block.last, Block.data]; omega) (by omega)
  obtain ⟨c, hc, haddr⟩ := map_eq_some_iff.mp hreaches
  cases r with
  | nil => cases hc
  | cons d r =>
    obtain rfl : d = c := some.inj hc
    have hnot := (isChain_append_cons_cons.mp hapart).2.1
    exact hnot ⟨hfree b hb, hfree d (by simp), haddr.symm⟩

theorem served_of_fits (src : PageSource) (hi : HeapInv arch h bs) {n : Nat} (hn : 0 < n)
    (hround : n ≤ mmAlignUp n) {b : Block} (hb : b ∈ bs) (hfits : b.Fits (mmAlignUp n)) :
    ∃ q h' k, kmalloc arch src n h = some (q, h') ∧ h'.vmmCalls = h.vmmCalls ∧ Live arch h' q k ∧
      n ≤ k := by
  rcases exists_first_fit (mmAlignUp n) bs with hno | ⟨l, c, r, rfl, hl, hc⟩
  · exact absurd hfits (hno b hb)
  obtain ⟨f, hfuel⟩ : ∃ f, walkFuel = f + 1 := ⟨2 ^ 32 - 1, rfl⟩
  obtain ⟨hrun, hal⟩ := @kmallocRetry_fit arch src h l r c (mmAlignUp n) f hi hl hc
  rcases hal.result with ⟨hzero, -⟩ | ⟨d, hd, hdf, hsize, -, hused⟩
  · have := c.data_pos arch
    omega
  refine ⟨c.data arch,
    { h with mem := setFree (mmSplitBlock arch h.mem c.addr (mmAlignUp n)) c.addr 0 }, d.size, ?_, rfl,
    ?_, hround.trans hsize⟩
  · rw [kmalloc, if_neg (by simp [hn.ne', hi.init]), hfuel]
    exact hrun
  · exact (live_iff hal.inv).mpr ⟨d, (hused d hdf).mpr (.inl rfl), hdf, hd.symm, rfl⟩

/-- A request of `n` bytes, rounded up, with a header in front of it, is no larger than the run. -/
def FitsRun (arch : Arch) (n : UInt32) (run : Range) : Prop :=
  (n.toNat + 7) / 8 * 8 + sizeofHeapBlock arch ≤ run.len

theorem mmAlignUp_of_fitsRun {n : UInt32} {run : Range} (hfits : FitsRun arch n run)
    (hlen : run.len ≤ 2 ^ 32) :
    n.toNat ≤ mmAlignUp n.toNat ∧ mmAlignUp n.toNat + sizeofHeapBlock arch ≤ run.len := by
  have hH := sizeofHeapBlock_cases arch
  unfold FitsRun at hfits
  simp only [mmAlignUp, mmAlign, u32]
  omega

end Whole

def CoveredByFree (arch : Arch) (h : Heap) (run : Range) : Prop :=
  ∃ blocks block, ListFrom arch h.mem h.heapHead blocks ∧ block ∈ blocks ∧
    blockFree h.mem block ≠ 0 ∧ block ≤ run.base ∧
    run.base + run.len ≤ block + sizeofHeapBlock arch + blockSize h.mem block

/-- Freeing a live block leaves no fragments, and when nothing is in use any more, each page run is
one free block again (or part of one), from which requests are served that fit into the run. -/
theorem freed_heap_is_whole {arch : Arch} {src : PageSource} {mem : Mem} {h h' : Heap} {p m : Nat}
    (hr : Reachable arch src (ReallocFits arch) mem h) (hlive : Live arch h p m)
    (hfree : kfree arch p h = some h') :
    NoFragments arch h' ∧ ((∀ q k, ¬ Live arch h' q k) → ∀ run ∈ pageRuns h',
      CoveredByFree arch h' run ∧ ∀ n : UInt32, 0 < n → FitsRun arch n run →
        ∃ q h'' k, kmalloc arch src n.toNat h' = some (q, h'') ∧ h''.vmmCalls = h'.vmmCalls ∧
          Live arch h'' q k ∧ n.toNat ≤ k) := by
  obtain ⟨bs, hi, hmoves⟩ := reachable_moves hr
  obtain ⟨h1, bs', hrun, hfreed, hstory⟩ := kfree_story p hi
  obtain rfl : h1 = h' := some.inj (hrun.symm.trans hfree)
  have hi' := hfreed.inv
  have hall := hmoves.trans (kfree_moves hi hfree hi')
  have hapart : bs'.IsChain (Apart arch) := by
    rcases hstory with ⟨-, -, hno⟩ | ⟨l, b, r, -, -, -, rfl⟩
    · obtain ⟨b, hb, -, hp, -⟩ := (live_iff hi).mp hlive
      exact absurd hp (hno b hb)
    · exact joinFree_apart arch _
  refine ⟨noFragments_of_apart hi' hapart, fun hnone run hmem => ?_⟩
  have hfreeAll : ∀ b ∈ bs', b.free = true := by
    intro b hb
    by_contra hused
    exact hnone _ _ ((live_iff hi').mpr ⟨b, hb, by simpa using hused, rfl, rfl⟩)
  have hlinked : Linked arch (pageRuns h1) bs' := linked_of_moves hall trivial
  have hpos : 0 < run.len := runs_pos hall (fun run hrun => nomatch hrun) run hmem
  obtain ⟨b, hb, hbase, hend⟩ := whole_of_free hi' hlinked hapart hfreeAll hmem hpos
  obtain ⟨hsize, hfreeBlock⟩ := listFrom_mem hi'.chain hb
  refine ⟨⟨_, b.addr, (chain_listFrom hi'.chain).1, mem_map_of_mem hb,
    hfreeBlock.mpr (hfreeAll b hb), hbase, by rw [hsize]; exact hend⟩, fun n hn hfits => ?_⟩
  have hin := hi'.runs_in run hmem
  obtain ⟨hround, hle⟩ := mmAlignUp_of_fitsRun hfits (by omega)
  refine served_of_fits src hi' hn hround hb ⟨hfreeAll b hb, ?_⟩
  simp only [Block.last, Block.data] at hend
  omega

theorem freed_heap_is_whole_one_block :
    ∃ h h', oneBlock (fun _ => 0) = some h ∧ kfree .x86 0x10000C h = some h' ∧
      NoFragments .x86 h' := by
  have hval : (oneBlock fun _ => 0).map (fun h : Heap => decide ((h.heapHead = 0x100000 ∧
      blockNext .x86 h.mem 0x100000 = 0x10002C ∧ blockNext .x86 h.mem 0x10002C = 0 ∧
      blockFree h.mem 0x100000 = 0 ∧ blockSize h.mem 0x100000 = 32))) = some true := by
    decide +kernel
  obtain ⟨h, hrun, hfacts⟩ := map_eq_some_iff.mp hval
  have hlive := (oneBlock_live hrun (of_decide_eq_true hfacts)).2
  have hreach : Reachable .x86 oneRun (ReallocFits .x86) (fun _ => 0) h :=
    @Reachable.step _ _ _ _ _ _ (.kmalloc 32) .init trivial hrun
  obtain ⟨bs, hi⟩ := reachable_inv hreach
  obtain ⟨h', -, hfree, -⟩ := kfree_spec 0x10000C hi
  exact ⟨h, h', hrun, hfree, (freed_heap_is_whole hreach hlive hfree).1⟩

/-- A run of 65536 bytes, all of it free, does not serve a request of 65536 bytes. -/
theorem run_without_header :
    ∃ h h' h'', oneBlock (fun _ => 0) = some h ∧ kfree .x86 0x10000C h = some h' ∧
      (∀ q k, ¬ Live .x86 h' q k) ∧ (⟨0x100000, 65536⟩ : Range) ∈ pageRuns h' ∧
      kmalloc .x86 oneRun 65536 h' = some (0, h'') ∧ h''.vmmCalls ≠ h'.vmmCalls := by
  have hval : (oneBlock fun _ => 0).map (fun h : Heap =>
      (kfree .x86 0x10000C h).map fun h' : Heap => decide (h'.heapHead = 0x100000 ∧
        blockNext .x86 h'.mem 0x100000 = 0 ∧ blockFree h'.mem 0x100000 ≠ 0 ∧
        pageRuns h' = [⟨0x100000, 65536⟩] ∧ h'.vmmCalls.length = 1 ∧
        (kmalloc .x86 oneRun 65536 h').map (fun r => (r.1, r.2.vmmCalls.length)) =
          some (0, 2))) = some (some true) := by
    decide +kernel
  obtain ⟨h, hrun, hmap⟩ := map_eq_some_iff.mp hval
  obtain ⟨h', hfree, hfacts⟩ := map_eq_some_iff.mp hmap
  obtain ⟨e0, e1, e2, e3, e4, e5⟩ := of_decide_eq_true hfacts
  obtain ⟨⟨q, h''⟩, hk, hpair⟩ := map_eq_some_iff.mp e5
  simp only [Prod.mk.injEq] at hpair
  obtain ⟨rfl, hcalls⟩ := hpair
  refine ⟨h, h', h'', hrun, hfree, ?_, by rw [e3]; simp, hk, fun heq => ?_⟩
  · rintro q k ⟨blocks, block, hlist, hmem, -, hused, -⟩
    have hlist' : ListFrom .x86 h'.mem h'.heapHead [0x100000] := by simp [ListFrom, e0, e1]
    rw [listFrom_unique hlist hlist'] at hmem
    obtain rfl := mem_singleton.mp hmem
    exact e2 hused
  · rw [heq, e4] at hcalls
    cases hcalls

end DiscouNT.Mm
