import DiscouNT.Mm.HeapInv

/-!
# Mm.HeapSpec

`HeapInv` ties the statics, the list in memory and the page runs together. `kmalloc_spec` and
`kfree_spec` say, from any state with the invariant and for every argument, that the call returns,
that the invariant holds after it, which blocks are in use afterwards, and that the bytes of all
other used blocks (headers included) are as before. Growing cannot go on for ever: each run takes
at least sixteen of the pages below 4 GiB.
-/

namespace DiscouNT.Mm

open Lib List

structure HeapInv (arch : Arch) (h : Heap) (bs : List Block) : Prop where
  init : h.heapInitialized = true
  chain : Chain arch h.mem h.heapHead bs
  cov : ∀ a, cover (ranges arch bs) a = cover (pageRuns h) a
  total : totalLen (ranges arch bs) = h.heapCommitted
  runs_once : ∀ a, cover (pageRuns h) a ≤ 1
  runs_in : ∀ r ∈ pageRuns h, pmmPageSize ≤ r.base ∧ r.base + r.len ≤ 2 ^ 32
  data_lt : ∀ b ∈ bs, b.data arch < 2 ^ 32

section Consequences

variable {arch : Arch} {h : Heap} {bs : List Block}

theorem HeapInv.placed (hi : HeapInv arch h bs) : Placed arch bs := by
  refine placed_of_cover (fun a => by rw [hi.cov a]; exact hi.runs_once a) (fun a ha => ?_) hi.data_lt
  rw [hi.cov a] at ha
  obtain ⟨r, hr, hra⟩ := cover_pos_iff.mp ha
  have := hi.runs_in r hr
  simp only [Range.Contains] at hra
  omega

theorem HeapInv.total_le (hi : HeapInv arch h bs) :
    totalLen (ranges arch bs) ≤ 2 ^ 32 - pmmPageSize := by
  refine totalLen_le hi.placed.once fun r hr => ?_
  obtain ⟨b, hb, rfl⟩ := mem_map.mp hr
  have := hi.placed.inside b hb
  simp only [Block.range]
  omega

theorem length_le_total (arch : Arch) (bs : List Block) :
    bs.length ≤ totalLen (ranges arch bs) := by
  have hH := sizeofHeapBlock_cases arch
  induction bs with
  | nil => simp
  | cons b bs ih =>
    simp only [length_cons, ranges_cons, totalLen_cons, Block.range]
    omega

theorem HeapInv.length_lt (hi : HeapInv arch h bs) : bs.length < walkFuel := by
  have h1 := length_le_total arch bs
  have h2 := hi.total_le
  have h3 : walkFuel = 2 ^ 32 := rfl
  have h4 : pmmPageSize = 4096 := rfl
  omega

theorem HeapInv.recut (hi : HeapInv arch h bs) {m : Mem} {bs' : List Block}
    (hch : Chain arch m h.heapHead bs')
    (hcov : ∀ a, cover (ranges arch bs') a = cover (ranges arch bs) a)
    (htot : totalLen (ranges arch bs') = totalLen (ranges arch bs))
    (hdata : ∀ b ∈ bs', b.data arch < 2 ^ 32) : HeapInv arch { h with mem := m } bs' :=
  ⟨hi.init, hch, fun a => (hcov a).trans (hi.cov a), htot.trans hi.total, hi.runs_once, hi.runs_in,
    hdata⟩

end Consequences

theorem mmInitialize_inv (arch : Arch) (mem : Mem) : HeapInv arch (mmInitialize mem) [] :=
  ⟨rfl, rfl, fun _ => rfl, rfl, fun a => by simp [pageRuns, mmInitialize],
    by simp [pageRuns, mmInitialize], by simp⟩

def growPages (arch : Arch) (required : Nat) : Nat :=
  let pages := u32 (u32 (required + sizeofHeapBlock arch) + pmmPageSize - 1) / pmmPageSize
  if pages < mmHeapGrowPages then mmHeapGrowPages else pages

theorem grow_pages (arch : Arch) (required : Nat) :
    let pages := u32 (u32 (required + sizeofHeapBlock arch) + pmmPageSize - 1) / pmmPageSize
    let pages := if pages < mmHeapGrowPages then mmHeapGrowPages else pages
    65536 ≤ pages * pmmPageSize ∧ pages * pmmPageSize < 2 ^ 32 := by
  intro pages0 pages
  have hlt : pages0 < 2 ^ 20 := by
    have := u32_lt (u32 (required + sizeofHeapBlock arch) + pmmPageSize - 1)
    simp only [pages0, pmmPageSize] at this ⊢
    omega
  have hp : pmmPageSize = 4096 := rfl
  have hg : mmHeapGrowPages = 16 := rfl
  by_cases h : pages0 < mmHeapGrowPages
  · simp only [pages, if_pos h, hp, hg]; omega
  · simp only [pages, if_neg h, hp]; omega

theorem grow_spec {arch : Arch} (src : PageSource) {h : Heap} {bs : List Block}
    (hi : HeapInv arch h bs) (required : Nat) :
    (∃ h', mmGrowHeap arch src required h = (0, h') ∧ HeapInv arch h' bs ∧ h'.mem = h.mem ∧
      h'.copies = h.copies) ∨
    ∃ n h', mmGrowHeap arch src required h = (n.addr, h') ∧ n.addr ≠ 0 ∧ n.free = true ∧
      n.size = growPages arch required * pmmPageSize - sizeofHeapBlock arch ∧
      HeapInv arch h' (n :: bs) ∧ 65536 ≤ (n.range arch).len ∧ h'.copies = h.copies ∧
      ∀ a, ¬ (n.header arch).Contains a → h'.mem a = h.mem a := by
  have hH := sizeofHeapBlock_cases arch
  have hp : pmmPageSize = 4096 := rfl
  obtain ⟨hpg, hpg32⟩ := grow_pages arch required
  rw [mmGrowHeap]
  unfold growPages
  generalize hpages : (if u32 (u32 (required + sizeofHeapBlock arch) + pmmPageSize - 1) / pmmPageSize <
    mmHeapGrowPages then mmHeapGrowPages else
      u32 (u32 (required + sizeofHeapBlock arch) + pmmPageSize - 1) / pmmPageSize) = pages at *
  dsimp only at hpg hpg32 ⊢
  by_cases hz : src.answer h.vmmCalls pages = 0
  · left
    rw [if_pos hz]
    refine ⟨_, rfl, ?_, rfl, rfl⟩
    have hruns : pageRuns { h with vmmCalls := ⟨pages, src.answer h.vmmCalls pages⟩ :: h.vmmCalls } =
        pageRuns h := by simp [pageRuns, hz]
    exact ⟨hi.init, hi.chain, fun a => by rw [hruns]; exact hi.cov a, hi.total,
      fun a => by rw [hruns]; exact hi.runs_once a, by rw [hruns]; exact hi.runs_in, hi.data_lt⟩
  · right
    rw [if_neg hz]
    have haligned := src.aligned h.vmmCalls pages
    rw [hp] at haligned
    have hbelow := src.below h.vmmCalls pages hz
    have hfresh := src.fresh h.vmmCalls pages hz
    generalize src.answer h.vmmCalls pages = block at *
    have hrun : ∀ r ∈ pageRuns h, (⟨block, pages * pmmPageSize⟩ : Range).Disjoint r := by
      intro r hr
      obtain ⟨c, hc, rfl⟩ := mem_map.mp hr
      rw [mem_filter] at hc
      exact hfresh c hc.1 (by simpa using hc.2)
    let n : Block := ⟨block, pages * pmmPageSize - sizeofHeapBlock arch, true⟩
    have hnr : n.range arch = ⟨block, pages * pmmPageSize⟩ := by
      simp only [n, Block.range, Range.mk.injEq, true_and]; omega
    have hsub : sub32 (u32 (pages * pmmPageSize)) (sizeofHeapBlock arch) =
        pages * pmmPageSize - sizeofHeapBlock arch := by
      rw [u32_of_lt hpg32, sub32_of_le hpg32 (by omega)]
    rw [hsub, u32_of_lt hpg32]
    generalize hm : setNext arch (setFree (setSize h.mem block (pages * pmmPageSize - sizeofHeapBlock arch))
      block 1) block h.heapHead = m'
    have hframe : ∀ a, ¬ (n.header arch).Contains a → m' a = h.mem a := by
      intro a ha
      simp only [Range.Contains, Block.header, n] at ha
      rw [← hm]
      simp only [setNext, setFree, setSize]
      rw [writeLE_out (by omega), writeLE_out (by omega), writeLE_out (by omega)]
    -- the old blocks lie in the old runs, which the new run does not meet
    have hold : ∀ c ∈ bs, (n.range arch).Disjoint (c.range arch) := by
      intro c hc
      have hone := cover_cons_le_one hi.runs_once hrun
      have hone' : ∀ a, cover ([] ++ n.range arch :: ranges arch bs) a ≤ 1 := by
        intro a
        have := hone a
        rw [nil_append, cover_cons, hi.cov a, hnr]
        rwa [cover_cons] at this
      refine disjoint_of_cover_le_one hone' (mem_map_of_mem hc) ?_ ?_
      · rw [hnr]; show 0 < pages * pmmPageSize; omega
      · show 0 < sizeofHeapBlock arch + c.size; omega
    have hheadlt : h.heapHead < 256 ^ arch.ptrBytes := by
      refine Nat.lt_of_lt_of_le ?_ (le_pow_ptrBytes arch)
      cases bs with
      | nil => rw [show h.heapHead = 0 from hi.chain]; decide
      | cons b bs =>
        have := hi.placed.inside b (by simp)
        rw [show h.heapHead = b.addr from hi.chain.1]
        omega
    have hcons : pageRuns { h with
        mem := m', heapHead := block, heapCommitted := u32 (h.heapCommitted + pages * pmmPageSize),
        vmmCalls := ⟨pages, block⟩ :: h.vmmCalls } = ⟨block, pages * pmmPageSize⟩ :: pageRuns h := by
      simp [pageRuns, hz, VmmCall.run]
    have hone := cover_cons_le_one hi.runs_once hrun
    have hrunsin : ∀ r ∈ (⟨block, pages * pmmPageSize⟩ : Range) :: pageRuns h,
        pmmPageSize ≤ r.base ∧ r.base + r.len ≤ 2 ^ 32 := by
      intro r hr
      rcases mem_cons.mp hr with rfl | hr
      · exact ⟨by show pmmPageSize ≤ block; omega, hbelow⟩
      · exact hi.runs_in r hr
    have hcov : ∀ a, cover (ranges arch (n :: bs)) a =
        cover (⟨block, pages * pmmPageSize⟩ :: pageRuns h) a := by
      intro a
      rw [ranges_cons, hnr, cover_cons, cover_cons, hi.cov a]
    have htotal : totalLen (ranges arch (n :: bs)) = pages * pmmPageSize + h.heapCommitted := by
      rw [ranges_cons, totalLen_cons, hnr, hi.total]
    have hdata : ∀ b ∈ n :: bs, b.data arch < 2 ^ 32 := by
      intro b hb
      rcases mem_cons.mp hb with rfl | hb
      · show block + sizeofHeapBlock arch < 2 ^ 32; omega
      · exact hi.data_lt b hb
    -- the committed bytes stay below 4 GiB, so the counter does not wrap
    have hle : pages * pmmPageSize + h.heapCommitted ≤ 2 ^ 32 - pmmPageSize := by
      have hpl : Placed arch (n :: bs) := by
        refine placed_of_cover (fun a => by rw [hcov a]; exact hone a) (fun a ha => ?_) hdata
        rw [hcov a] at ha
        obtain ⟨r, hr, hra⟩ := cover_pos_iff.mp ha
        have := hrunsin r hr
        simp only [Range.Contains] at hra
        omega
      rw [← htotal]
      refine totalLen_le hpl.once fun r hr => ?_
      obtain ⟨b, hb, rfl⟩ := mem_map.mp hr
      have := hpl.inside b hb
      simp only [Block.range]
      omega
    refine ⟨n, _, rfl, hz, rfl, rfl, ⟨hi.init, ?_, ?_, ?_, ?_, ?_, hdata⟩, ?_, rfl, hframe⟩
    · refine ⟨rfl, hz, ?_, ?_, ?_⟩
      · show readLE m' block 4 = _
        rw [← hm]
        simp only [setNext, setFree, setSize]
        rw [readLE_writeLE_other (by omega), readLE_writeLE_other (by omega), readLE_writeLE_same]
        exact Nat.mod_eq_of_lt (by omega)
      · show readLE m' (block + 4) 4 ≠ 0 ↔ _
        rw [← hm]
        simp only [setNext, setFree]
        rw [readLE_writeLE_other (by omega), readLE_writeLE_same]
        simp [n]
      · have : blockNext arch m' n.addr = h.heapHead := by
          rw [← hm]
          simp only [blockNext, setNext, n]
          rw [readLE_writeLE_same]
          exact Nat.mod_eq_of_lt hheadlt
        rw [this]
        exact chain_congr hi.chain fun c hc => header_congr (hold c hc) hframe
    · intro a; rw [hcons]; exact hcov a
    · rw [htotal]
      show _ = u32 (h.heapCommitted + pages * pmmPageSize)
      rw [u32_of_lt (by omega), Nat.add_comm]
    · rw [hcons]; exact hone
    · rw [hcons]; exact hrunsin
    · rw [hnr]; show 65536 ≤ pages * pmmPageSize; omega

/-- What a call that returned `q` did: no used block is lost or touched, only headers are written,
no block goes away, and a non-null `q` is the payload of one new used block of at least `size`
bytes. -/
structure Allocated (arch : Arch) (size : Nat) (h : Heap) (bs : List Block) (q : Nat) (h' : Heap)
    (bs' : List Block) : Prop where
  inv : HeapInv arch h' bs'
  copies : h'.copies = h.copies
  frame : ∀ c ∈ bs, c.free = false → ∀ a, (c.range arch).Contains a → h'.mem a = h.mem a
  touched : ∀ a, (∀ c ∈ bs', ¬ (c.header arch).Contains a) → h'.mem a = h.mem a
  kept : ∀ c ∈ bs, ∃ d ∈ bs', d.addr = c.addr
  result : (q = 0 ∧ ∀ c : Block, c.free = false → (c ∈ bs' ↔ c ∈ bs)) ∨
    ∃ n : Block, q = n.data arch ∧ n.free = false ∧ size ≤ n.size ∧ n ∉ bs ∧
      ∀ c : Block, c.free = false → (c ∈ bs' ↔ c = n ∨ c ∈ bs)

theorem Block.data_pos (b : Block) (arch : Arch) : 0 < b.data arch := by
  have := sizeofHeapBlock_cases arch
  simp only [Block.data]; omega

theorem allocated_of_fit {arch : Arch} {h : Heap} {l r : List Block} {b : Block} {size : Nat}
    (hi : HeapInv arch h (l ++ b :: r)) (hfit : fits h.mem size b.addr = true) :
    Allocated arch size h (l ++ b :: r) (blockData arch b.addr)
      { h with mem := setFree (mmSplitBlock arch h.mem b.addr size) b.addr 0 }
      (l ++ (cut arch size b ++ r)) := by
  have hpl := hi.placed
  have hb : b ∈ l ++ b :: r := by simp
  have hdrop := chain_drop hi.chain
  have hsize : blockSize h.mem b.addr = b.size := hdrop.2.2.1
  simp only [fits, Bool.and_eq_true, decide_eq_true_eq, hsize] at hfit
  have hfree : b.free = true := hdrop.2.2.2.1.mp hfit.1
  obtain ⟨n, rest, hcut, hn, ht⟩ := taken_spec hpl hb hsize hfit.2
  have hndata : n.data arch = b.data arch := by simp only [Block.data, ht.addr]
  have hplr : Placed arch (b :: r) := by
    refine ⟨fun a => ?_, fun c hc => hpl.inside c (mem_append_right l hc),
      fun c hc => hpl.data_lt c (mem_append_right l hc)⟩
    have := hpl.once a
    rw [ranges_append, cover_append] at this
    omega
  -- every other block lies outside the range that was rewritten
  have hother : ∀ c ∈ l ++ r, ∀ a, (c.range arch).Contains a →
      setFree (mmSplitBlock arch h.mem b.addr size) b.addr 0 a = h.mem a := by
    intro c hc a ha
    refine ht.frame a fun hba => ?_
    have hd := hpl.disjoint hc
    simp only [Range.Contains, Range.Disjoint] at ha hba hd
    omega
  have hheader : ∀ c : Block, ∀ a, (c.header arch).Contains a → (c.range arch).Contains a := by
    intro c a ha
    simp only [Range.Contains, Block.header, Block.range] at ha ⊢
    omega
  have hchain : Chain arch (setFree (mmSplitBlock arch h.mem b.addr size) b.addr 0) h.heapHead
      (l ++ n :: (rest ++ r)) := by
    refine chain_replace hi.chain (fun c hc a ha => ?_) (ht.chain r hdrop hplr)
    exact hother c (by simp [hc]) a (hheader c a ha)
  have hcov : ∀ a, cover (ranges arch (l ++ n :: (rest ++ r))) a =
      cover (ranges arch (l ++ b :: r)) a := by
    intro a
    have := ht.cov (ranges arch r) a
    rw [← ranges_append] at this
    rw [ranges_append, ranges_append, cover_append, cover_append, ranges_cons _ b, ← this]
    rfl
  have htot : totalLen (ranges arch (l ++ n :: (rest ++ r))) =
      totalLen (ranges arch (l ++ b :: r)) := by
    have := ht.total
    simp only [ranges_append, ranges_cons, totalLen_append, totalLen_cons] at this ⊢
    omega
  have hdata : ∀ c ∈ l ++ n :: (rest ++ r), c.data arch < 2 ^ 32 := by
    intro c hc
    simp only [mem_append, mem_cons] at hc
    rcases hc with hc | rfl | hc | hc
    · exact hpl.data_lt c (by simp [hc])
    · rw [hndata]; exact hpl.data_lt b hb
    · exact ht.data_lt c hc
    · exact hpl.data_lt c (by simp [hc])
  rw [show l ++ (cut arch size b ++ r) = l ++ n :: (rest ++ r) by rw [hcut]; rfl]
  refine ⟨hi.recut hchain hcov htot hdata, rfl, ?_, fun a ha => ?_, fun c hc => ?_, .inr ?_⟩
  · intro c hc hcf a ha
    refine hother c ?_ a ha
    simp only [mem_append, mem_cons] at hc ⊢
    rcases hc with hc | rfl | hc
    · exact .inl hc
    · simp [hfree] at hcf
    · exact .inr hc
  · refine ht.touched a fun c hc => ha c ?_
    simp only [mem_append, mem_cons] at hc ⊢
    rcases hc with hc | hc
    · exact .inr (.inl hc)
    · exact .inr (.inr (.inl hc))
  · simp only [mem_append, mem_cons] at hc
    rcases hc with hc | rfl | hc
    · exact ⟨c, by simp [hc], rfl⟩
    · exact ⟨n, by simp, ht.addr⟩
    · exact ⟨c, by simp [hc], rfl⟩
  · refine ⟨n, ?_, ht.used, hn, ?_, fun c hcf => ?_⟩
    · rw [hpl.blockData hb, hndata]
    · intro hmem
      have hnb := hpl.eq_of_addr hmem hb ht.addr
      have hnf := ht.used
      rw [hnb, hfree] at hnf
      exact absurd hnf (by simp)
    · have hcb : c ≠ b := by rintro rfl; simp [hfree] at hcf
      have hcr : c ∉ rest := fun hc => by simp [ht.free c hc] at hcf
      simp only [mem_append, mem_cons, hcb, hcr, false_or]
      constructor
      · rintro (hc | hc | hc)
        · exact .inr (.inl hc)
        · exact .inl hc
        · exact .inr (.inr hc)
      · rintro (hc | hc | hc)
        · exact .inr (.inl hc)
        · exact .inl hc
        · exact .inr (.inr hc)

theorem kmallocRetry_spec {arch : Arch} {src : PageSource} {size : Nat} :
    ∀ {fuel : Nat} {h : Heap} {bs : List Block}, HeapInv arch h bs →
      2 ^ 32 < totalLen (ranges arch bs) + 65536 * fuel →
      ∃ q h' bs', kmallocRetry arch src size fuel h = some (q, h') ∧
        Allocated arch size h bs q h' bs' := by
  intro fuel
  induction fuel with
  | zero =>
    intro h bs hi hfuel
    have := hi.total_le
    omega
  | succ fuel ih =>
    intro h bs hi hfuel
    rcases findBlock_spec (p := fits h.mem size) hi.chain hi.length_lt with
      ⟨hfind, -⟩ | ⟨l, b, r, rfl, hfind, hne, hfit, -⟩
    · rcases grow_spec src hi size with ⟨h₁, hg, hi1, hm1, hc1⟩ | ⟨n, h₁, hg, hne, hnf, -, hi1, hlen, hc1, hframe⟩
      · refine ⟨0, h₁, bs, by simp only [kmallocRetry, hfind, hg], hi1, hc1, ?_, ?_,
          fun c hc => ⟨c, hc, rfl⟩, .inl ⟨rfl, fun _ _ => Iff.rfl⟩⟩
        · intro c _ _ a _; rw [hm1]
        · intro a _; rw [hm1]
      · have hpl1 := hi1.placed
        have hkeep : ∀ c ∈ bs, ∀ a, (c.range arch).Contains a → h₁.mem a = h.mem a := by
          intro c hc a ha
          refine hframe a fun hna => ?_
          have hd := hpl1.disjoint (l := []) (c := c) (by simpa using hc)
          simp only [Range.Contains, Range.Disjoint, Block.header, Block.range] at ha hna hd
          omega
        obtain ⟨q, h', bs', hrun, hal⟩ := ih hi1 (by
          rw [ranges_cons, totalLen_cons]; omega)
        have hused : ∀ c : Block, c.free = false → (c ∈ n :: bs ↔ c ∈ bs) := by
          intro c hc
          have : c ≠ n := by rintro rfl; simp [hnf] at hc
          simp [this]
        obtain ⟨k, hk⟩ : ∃ k, n.addr = k + 1 := ⟨n.addr - 1, by omega⟩
        refine ⟨q, h', bs', ?_, hal.inv, hal.copies.trans hc1, ?_, ?_,
          fun c hc => hal.kept c (by simp [hc]), ?_⟩
        · simp only [kmallocRetry, hfind, hg, hk]
          exact hrun
        · intro c hc hcf a ha
          rw [hal.frame c (by simp [hc]) hcf a ha, hkeep c hc a ha]
        · intro a ha
          obtain ⟨d, hd, hda⟩ := hal.kept n (by simp)
          rw [hal.touched a ha, hframe a]
          have := ha d hd
          simpa only [Block.header, hda] using this
        · rcases hal.result with ⟨hq, hu⟩ | ⟨p, hq, hpf, hsz, hnew, hu⟩
          · exact .inl ⟨hq, fun c hc => (hu c hc).trans (hused c hc)⟩
          · exact .inr ⟨p, hq, hpf, hsz, fun hp => hnew (by simp [hp]),
              fun c hc => (hu c hc).trans (or_congr Iff.rfl (hused c hc))⟩
    · obtain ⟨k, hk⟩ : ∃ k, b.addr = k + 1 := ⟨b.addr - 1, by omega⟩
      refine ⟨_, _, _, ?_, allocated_of_fit hi hfit⟩
      simp only [kmallocRetry, hfind, hk]

theorem kmalloc_spec {arch : Arch} (src : PageSource) {size : Nat} {h : Heap} {bs : List Block}
    (hi : HeapInv arch h bs) (hsize : size ≠ 0) :
    ∃ q h' bs', kmalloc arch src size h = some (q, h') ∧
      Allocated arch (mmAlignUp size) h bs q h' bs' := by
  rw [kmalloc, if_neg (by simp [hsize, hi.init])]
  exact kmallocRetry_spec hi (by have : walkFuel = 2 ^ 32 := rfl; omega)

theorem Allocated.payload {arch : Arch} {size q : Nat} {h h' : Heap} {bs bs' : List Block} {n : Block}
    (ha : Allocated arch size h bs q h' bs') (hn : n ∈ bs') (i : Nat) (hlt : i < n.size) :
    h'.mem (n.data arch + i) = h.mem (n.data arch + i) := by
  refine ha.touched _ fun c hc hca => ?_
  by_cases hcn : c = n
  · subst hcn
    simp only [Range.Contains, Block.header, Block.data] at hca
    omega
  · have hd := ha.inv.placed.disjoint_of_ne hc hn hcn
    simp only [Range.Contains, Range.Disjoint, Block.header, Block.range, Block.data] at hca hd
    omega

/-! ## `kfree` -/

/-- What a call did: the block at `pointer`, if there is one, is no longer in use; all other used
blocks are kept, and so are the bytes outside the headers of free blocks. -/
structure Freed (arch : Arch) (pointer : Nat) (h : Heap) (bs : List Block) (h' : Heap)
    (bs' : List Block) : Prop where
  inv : HeapInv arch h' bs'
  copies : h'.copies = h.copies
  used : ∀ c : Block, c.free = false → (c ∈ bs' ↔ c ∈ bs ∧ c.data arch ≠ pointer)
  frame : ∀ c ∈ bs, c.free = false → c.data arch ≠ pointer →
    ∀ a, (c.range arch).Contains a → h'.mem a = h.mem a

theorem setFree_chain {arch : Arch} {m : Mem} {head : Nat} {l r : List Block} {b : Block}
    (hch : Chain arch m head (l ++ b :: r)) (hpl : Placed arch (l ++ b :: r)) :
    Chain arch (setFree m b.addr 1) head (l ++ ⟨b.addr, b.size, true⟩ :: r) := by
  have hH := sizeofHeapBlock_cases arch
  have hframe : ∀ a, ¬ (b.header arch).Contains a → setFree m b.addr 1 a = m a := by
    intro a ha
    simp only [Range.Contains, Block.header] at ha
    exact writeLE_out (by omega)
  have hag : ∀ c ∈ l ++ r, ∀ a, (c.header arch).Contains a → setFree m b.addr 1 a = m a := fun c hc =>
    header_congr (hpl.disjoint hc) hframe
  refine chain_replace hch (fun c hc => hag c (by simp [hc])) ?_
  obtain ⟨-, hne, hsize, -, hrest⟩ := chain_drop hch
  refine ⟨rfl, hne, ?_, ?_, ?_⟩
  · show readLE (writeLE m _ _ _) b.addr 4 = _
    rw [readLE_writeLE_other (by omega)]; exact hsize
  · show readLE (writeLE m _ _ _) (b.addr + 4) 4 ≠ 0 ↔ _
    rw [readLE_writeLE_same]; simp
  · have hn : blockNext arch (setFree m b.addr 1) b.addr = blockNext arch m b.addr :=
      readLE_writeLE_other (by omega)
    show Chain arch _ (blockNext arch (setFree m b.addr 1) b.addr) r
    rw [hn]
    exact chain_congr hrest fun c hc => hag c (by simp [hc])

theorem kfree_story {arch : Arch} (pointer : Nat) {h : Heap} {bs : List Block}
    (hi : HeapInv arch h bs) :
    ∃ h' bs', kfree arch pointer h = some h' ∧ Freed arch pointer h bs h' bs' ∧
      ((h' = h ∧ bs' = bs ∧ ∀ c ∈ bs, c.data arch ≠ pointer) ∨
        ∃ l b r, bs = l ++ b :: r ∧ b.data arch = pointer ∧ h'.vmmCalls = h.vmmCalls ∧
          bs' = joinFree arch (l ++ ⟨b.addr, b.size, true⟩ :: r)) := by
  have hpl := hi.placed
  have hkeep : (∀ c ∈ bs, c.data arch ≠ pointer) → Freed arch pointer h bs h bs := fun hno =>
    ⟨hi, rfl, fun c _ => ⟨fun hc => ⟨hc, hno c hc⟩, And.left⟩, fun _ _ _ _ _ _ => rfl⟩
  rw [kfree]
  by_cases hp : pointer = 0
  · rw [if_pos (.inl hp)]
    have hno : ∀ c ∈ bs, c.data arch ≠ pointer := by
      intro c _
      have := c.data_pos arch
      omega
    exact ⟨h, bs, rfl, hkeep hno, .inl ⟨rfl, rfl, hno⟩⟩
  rw [if_neg (by simp [hp, hi.init])]
  rcases findBlock_spec (p := holds arch pointer) hi.chain hi.length_lt with
    ⟨hfind, hnone⟩ | ⟨l, b, r, rfl, hfind, hne, hhold, -⟩
  · have hno : ∀ c ∈ bs, c.data arch ≠ pointer := by
      intro c hc
      have := hnone c hc
      simp only [holds, decide_eq_false_iff_not, hpl.blockData hc] at this
      exact this
    exact ⟨h, bs, by rw [hfind], hkeep hno, .inl ⟨rfl, rfl, hno⟩⟩
  · have hb : b ∈ l ++ b :: r := by simp
    simp only [holds, decide_eq_true_eq, hpl.blockData hb] at hhold
    subst hhold
    obtain ⟨k, hk⟩ : ∃ k, b.addr = k + 1 := ⟨b.addr - 1, by omega⟩
    have hcov : ∀ a, cover (ranges arch (l ++ ⟨b.addr, b.size, true⟩ :: r)) a =
        cover (ranges arch (l ++ b :: r)) a := by intro a; simp [ranges, Block.range]
    have hdata : ∀ c ∈ l ++ ⟨b.addr, b.size, true⟩ :: r, c.data arch < 2 ^ 32 := by
      intro c hc
      simp only [mem_append, mem_cons] at hc
      rcases hc with hc | rfl | hc
      · exact hpl.data_lt c (by simp [hc])
      · exact hpl.data_lt b hb
      · exact hpl.data_lt c (by simp [hc])
    have hpl1 := hpl.of_cover hcov hdata
    have hlen := hi.length_lt
    obtain ⟨m', hrun, hch', hrec, hpl', hframe⟩ := @coalesce_spec arch _ _ _ _ walkFuel (Nat.le_refl _)
      (by simpa using hlen) (setFree_chain hi.chain hpl) hpl1
    -- a used block of the new list is a used block of the old one at another address
    have hused : ∀ c : Block, c.free = false →
        (c ∈ l ++ ⟨b.addr, b.size, true⟩ :: r ↔ c ∈ l ++ b :: r ∧ c.data arch ≠ b.data arch) := by
      intro c hcf
      have hcn : c ≠ ⟨b.addr, b.size, true⟩ := by rintro rfl; simp at hcf
      constructor
      · intro hc
        have hc' : c ∈ l ++ r := by simpa [hcn] using hc
        refine ⟨by simp only [mem_append, mem_cons] at hc' ⊢; tauto, fun heq => ?_⟩
        have hadr : c.addr = b.addr := by simp only [Block.data] at heq; omega
        have := hpl1.eq_of_addr hc (show (⟨b.addr, b.size, true⟩ : Block) ∈ _ by simp) hadr
        exact hcn this
      · rintro ⟨hc, hne'⟩
        have hcb : c ≠ b := by rintro rfl; exact hne' rfl
        simpa [hcn, hcb] using hc
    refine ⟨{ h with mem := m' }, _, ?_,
      ⟨hi.recut hch' (fun a => (hrec.cov a).trans (hcov a)) ?_ ?_, rfl,
        fun c hcf => (hrec.used c hcf).trans (hused c hcf), fun c hc hcf hcp a ha => ?_⟩,
      .inr ⟨l, b, r, rfl, rfl, rfl, rfl⟩⟩
    · rw [hfind, hk]
      simp only [mmCoalesce]
      rw [← hk, hrun]
    · rw [hrec.total]; simp [ranges, Block.range]
    · exact hpl'.data_lt
    · have hc1 : c ∈ l ++ ⟨b.addr, b.size, true⟩ :: r := (hused c hcf).mpr ⟨hc, hcp⟩
      have hout : ∀ d ∈ l ++ ⟨b.addr, b.size, true⟩ :: r, d.free = true → ¬ (d.header arch).Contains a := by
        intro d hd hdf hda
        have hcd : c ≠ d := by rintro rfl; simp [hcf] at hdf
        have hdis := hpl1.disjoint_of_ne hc1 hd hcd
        simp only [Range.Contains, Range.Disjoint, Block.header, Block.range] at ha hda hdis
        omega
      show m' a = h.mem a
      rw [hframe a hout]
      have := hout ⟨b.addr, b.size, true⟩ (by simp) rfl
      have hH := sizeofHeapBlock_cases arch
      simp only [Range.Contains, Block.header] at this
      exact writeLE_out (by omega)

theorem kfree_spec {arch : Arch} (pointer : Nat) {h : Heap} {bs : List Block}
    (hi : HeapInv arch h bs) :
    ∃ h' bs', kfree arch pointer h = some h' ∧ Freed arch pointer h bs h' bs' := by
  obtain ⟨h', bs', hrun, hfreed, -⟩ := kfree_story pointer hi
  exact ⟨h', bs', hrun, hfreed⟩

end DiscouNT.Mm
