import DiscouNT.Mm.Fragments
import DiscouNT.Mm.Vmm

/-!
# Mm.Guarantee

What a caller gets from `kmalloc`, `calloc` and `realloc`: a large enough block that nobody else has
(`Grants`), or a null pointer and a heap that nothing has happened to (`Unchanged`).
-/

namespace DiscouNT.Mm

open Lib List

def memset (dst : Nat) (v : UInt8) (len : Nat) (h : Heap) : Heap :=
  { h with mem := fun a => if dst ≤ a ∧ a < dst + len then v else h.mem a }

def calloc (arch : Arch) (src : PageSource) (count size : Nat) (h : Heap) : Option (Nat × Heap) :=
  if count ≠ 0 ∧ 0xFFFFFFFF / count < size then some (0, h)
  else
    let bytes := u32 (count * size)
    match kmalloc arch src bytes h with
    | none => none
    | some (pointer, h) =>
      if pointer ≠ 0 then some (pointer, memset pointer 0 bytes h) else some (0, h)

def blockAt (arch : Arch) (p m : Nat) : Range :=
  ⟨p - sizeofHeapBlock arch, sizeofHeapBlock arch + m⟩

/-- The block `q` has `n` bytes, none of which is in a live block, unless it is the block `p` itself
that was to be reallocated; the other live blocks are as they were. -/
structure Grants (arch : Arch) (h : Heap) (p n q : Nat) (h' : Heap) : Prop where
  live : ∃ m, Live arch h' q m ∧ n ≤ m ∧
    (q = p ∨ ∀ r k, Live arch h r k → (blockAt arch q m).Disjoint (blockAt arch r k))
  others : ∀ r k, Live arch h r k → r ≠ p → Live arch h' r k ∧
    ∀ a, (blockAt arch r k).Contains a → h'.mem a = h.mem a

structure PmmSound (s : Pmm) : Prop where
  inv : PmmInv s
  hint_pos : 0 < s.searchHint
  hint_le : s.searchHint ≤ pmmMaxPages

/-- The list, `heap_committed` and the page bitmap are as they were, whatever state the page
allocator was in when it gave the answers it gave. -/
structure Unchanged (arch : Arch) (h h' : Heap) : Prop where
  mem : h'.mem = h.mem
  heapHead : h'.heapHead = h.heapHead
  heapCommitted : h'.heapCommitted = h.heapCommitted
  bitmap : ∃ calls, h'.vmmCalls = calls ++ h.vmmCalls ∧ ∀ s s', PmmSound s →
    replay arch s calls = some s' → s'.pageBitmap = s.pageBitmap

/-- The outcome of a request for `n` bytes, with `p` to be reallocated if it is not null. -/
def Guarantee (arch : Arch) (h : Heap) (p n : Nat) (result : Option (Nat × Heap)) : Prop :=
  ∃ q h', result = some (q, h') ∧ ((q ≠ 0 ∧ Grants arch h p n q h') ∨ (q = 0 ∧ Unchanged arch h h'))

def Roomy (arch : Arch) (n : Nat) : Prop :=
  (n + 7) / 8 * 8 + sizeofHeapBlock arch + (pmmPageSize - 1) < 2 ^ 32

def NoFreeBlock (arch : Arch) (h : Heap) : Prop :=
  ∀ blocks, ListFrom arch h.mem h.heapHead blocks → ∀ b ∈ blocks, blockFree h.mem b = 0

/-- No sum wraps, or a size that wraps comes to nothing: there are no pages, and for a size that is
rounded to 0 no free block either. -/
def Safe (arch : Arch) (src : PageSource) (n : Nat) (h : Heap) : Prop :=
  Roomy arch n ∨ (src.answer h.vmmCalls mmHeapGrowPages = 0 ∧ (n ≤ 0xFFFFFFF8 ∨ NoFreeBlock arch h))

instance (arch : Arch) (n : Nat) : Decidable (Roomy arch n) := inferInstanceAs (Decidable (_ < _))

section Kmalloc

variable {arch : Arch} {src : PageSource} {h h' : Heap} {bs bs' : List Block} {n p q m : Nat}
  {b : Block}

theorem blockAt_data (b : Block) : blockAt arch (b.data arch) b.size = b.range arch := by
  simp only [blockAt, Block.range, Block.data, Range.mk.injEq, and_true]
  omega

theorem unchanged_refused (count : Nat) :
    Unchanged arch h { h with vmmCalls := ⟨count, 0⟩ :: h.vmmCalls } := by
  refine ⟨rfl, rfl, rfl, [⟨count, 0⟩], rfl, fun s s' hs hreplay => ?_⟩
  simp only [replay] at hreplay
  split at hreplay
  case isFalse => cases hreplay
  case isTrue hanswer =>
    cases hreplay
    rcases pmmAllocatePages_spec hs.inv hs.hint_pos hs.hint_le (Prod.ext hanswer.2 rfl) with
      ⟨-, heq⟩ | ⟨start, hpos, -, -, hzero, -⟩
    · exact congrArg Pmm.pageBitmap heq
    · have hp : pageSize = 4096 := rfl
      rw [hp] at hzero
      omega

theorem unchanged_refl (h : Heap) : Unchanged arch h h := by
  refine ⟨rfl, rfl, rfl, [], rfl, fun s s' _ hreplay => ?_⟩
  cases hreplay
  rfl

theorem Allocated.grants {size : Nat} (hi : HeapInv arch h bs)
    (hal : Allocated arch size h bs q h' bs') (hq : q ≠ 0) (hn : n ≤ size) :
    Grants arch h 0 n q h' := by
  rcases hal.result with ⟨hzero, -⟩ | ⟨d, rfl, hdf, hsize, hnew, hused⟩
  · exact absurd hzero hq
  have hd : d ∈ bs' := (hused d hdf).mpr (.inl rfl)
  constructor
  · refine ⟨d.size, (live_iff hal.inv).mpr ⟨d, hd, hdf, rfl, rfl⟩, hn.trans hsize,
      .inr fun r k hlive => ?_⟩
    obtain ⟨c, hc, hcf, rfl, rfl⟩ := (live_iff hi).mp hlive
    rw [blockAt_data, blockAt_data]
    refine hal.inv.placed.disjoint_of_ne hd ((hused c hcf).mpr (.inr hc)) ?_
    rintro rfl
    exact hnew hc
  · intro r k hlive _
    obtain ⟨c, hc, hcf, rfl, rfl⟩ := (live_iff hi).mp hlive
    refine ⟨(live_iff hal.inv).mpr ⟨c, (hused c hcf).mpr (.inr hc), hcf, rfl, rfl⟩, fun a ha => ?_⟩
    rw [blockAt_data] at ha
    exact hal.frame c hc hcf a ha

theorem Live.lt (hi : HeapInv arch h bs) (hlive : Live arch h p m) :
    m + sizeofHeapBlock arch + pmmPageSize ≤ 2 ^ 32 := by
  obtain ⟨b, hb, -, -, rfl⟩ := (live_iff hi).mp hlive
  have := hi.placed.inside b hb
  omega

theorem le_growPages {size : Nat}
    (hsize : size + sizeofHeapBlock arch + (pmmPageSize - 1) < 2 ^ 32) :
    size + sizeofHeapBlock arch ≤ growPages arch size * pmmPageSize := by
  simp only [growPages, pmmPageSize, mmHeapGrowPages] at hsize ⊢
  have hbytes : u32 (size + sizeofHeapBlock arch) = size + sizeofHeapBlock arch :=
    u32_of_lt (by omega)
  have hpages : u32 (size + sizeofHeapBlock arch + 4096 - 1) =
      size + sizeofHeapBlock arch + 4096 - 1 :=
    u32_of_lt (by omega)
  simp only [hbytes, hpages]
  by_cases hfew : (size + sizeofHeapBlock arch + 4096 - 1) / 4096 < 16
  · rw [if_pos hfew]
    omega
  · rw [if_neg hfew]
    omega

theorem growPages_wraps {size : Nat} (hlt : size < 2 ^ 32)
    (hsize : 2 ^ 32 ≤ size + sizeofHeapBlock arch + (pmmPageSize - 1) ∨ size = 0) :
    growPages arch size = mmHeapGrowPages := by
  have hH := sizeofHeapBlock_cases arch
  have hfew : u32 (u32 (size + sizeofHeapBlock arch) + pmmPageSize - 1) / pmmPageSize <
      mmHeapGrowPages := by
    simp only [u32, pmmPageSize, mmHeapGrowPages] at hsize ⊢
    omega
  unfold growPages
  simp only
  rw [if_pos hfew]

theorem mmAlignUp_of_roomy (hroomy : Roomy arch n) :
    n ≤ mmAlignUp n ∧ mmAlignUp n + sizeofHeapBlock arch ≤
      growPages arch (mmAlignUp n) * pmmPageSize := by
  have hround : mmAlignUp n = (n + 7) / 8 * 8 := by
    unfold Roomy at hroomy
    simp only [mmAlignUp, mmAlign, pmmPageSize, u32] at *
    omega
  have hpages := @le_growPages arch (mmAlignUp n) (by rw [hround]; exact hroomy)
  exact ⟨by omega, hpages⟩

theorem growPages_of_not_roomy (hroomy : ¬ Roomy arch n) (hn : n < 2 ^ 32) :
    growPages arch (mmAlignUp n) = mmHeapGrowPages := by
  have hH := sizeofHeapBlock_cases arch
  unfold Roomy at hroomy
  refine growPages_wraps ?_ ?_
  · simp only [mmAlignUp, mmAlign, u32]
    omega
  · simp only [mmAlignUp, mmAlign, pmmPageSize, u32] at *
    omega

theorem size_lt_of_not_roomy (hi : HeapInv arch h bs) (hroomy : ¬ Roomy arch n)
    (hn : n ≤ 0xFFFFFFF8) (hb : b ∈ bs) : b.size < mmAlignUp n := by
  have hH := sizeofHeapBlock_cases arch
  have hin := hi.placed.inside b hb
  unfold Roomy at hroomy
  simp only [mmAlignUp, mmAlign, pmmPageSize, u32] at *
  omega

theorem mmAlignUp_of_large (hn : 0xFFFFFFF8 < n) (hlt : n < 2 ^ 32) : mmAlignUp n = 0 := by
  simp only [mmAlignUp, mmAlign, u32]
  omega

section

variable (hi : HeapInv arch h bs)
include hi

theorem kmalloc_round (hn : n ≠ 0) :
    ∃ f, kmalloc arch src n h = kmallocRetry arch src (mmAlignUp n) (f + 1 + 1) h := by
  refine ⟨2 ^ 32 - 2, ?_⟩
  rw [kmalloc, if_neg (by simp [hn, hi.init])]
  rfl

theorem noFreeBlock_iff :
    NoFreeBlock arch h ↔ ∀ b ∈ bs, b.free = false := by
  obtain ⟨hlist, -⟩ := chain_listFrom hi.chain
  constructor
  · intro hnone b hb
    have hused := hnone _ hlist b.addr (mem_map_of_mem hb)
    by_contra hfree
    exact (listFrom_mem hi.chain hb).2.mpr (by simpa using hfree) hused
  · intro hall blocks hl block hmem
    rw [listFrom_unique hl hlist] at hmem
    obtain ⟨b, hb, rfl⟩ := mem_map.mp hmem
    by_contra hfree
    have := (listFrom_mem hi.chain hb).2.mp hfree
    rw [hall b hb] at this
    cases this

theorem guarantee_refused (hn : n ≠ 0) (hno : ∀ c ∈ bs, ¬ c.Fits (mmAlignUp n))
    (hanswer : src.answer h.vmmCalls (growPages arch (mmAlignUp n)) = 0) :
    Guarantee arch h 0 n (kmalloc arch src n h) := by
  obtain ⟨f, hround⟩ := @kmalloc_round arch src h bs n hi hn
  rw [hround, kmallocRetry_refused hi hno hanswer]
  exact ⟨0, _, rfl, .inr ⟨rfl, unchanged_refused _⟩⟩

theorem kmalloc_ne_zero (hn : n ≠ 0)
    (hfits : (∃ c ∈ bs, c.Fits (mmAlignUp n)) ∨
      (src.answer h.vmmCalls (growPages arch (mmAlignUp n)) ≠ 0 ∧
        mmAlignUp n + sizeofHeapBlock arch ≤ growPages arch (mmAlignUp n) * pmmPageSize))
    (hrun : kmalloc arch src n h = some (q, h')) : q ≠ 0 := by
  obtain ⟨f, hround⟩ := @kmalloc_round arch src h bs n hi hn
  rw [hround] at hrun
  rcases exists_first_fit (mmAlignUp n) bs with hno | ⟨l, b, r, rfl, hl, hb⟩
  · rcases hfits with ⟨c, hc, hcf⟩ | ⟨hanswer, hpages⟩
    · exact absurd hcf (hno c hc)
    · obtain ⟨d, h1, heq, hd, hi1, -, -⟩ :=
        @kmallocRetry_grown arch src h bs (mmAlignUp n) (f + 1) hi hno hanswer
      have hdf : d.Fits (mmAlignUp n) := by
        rw [hd]
        exact ⟨rfl, Nat.le_sub_of_add_le hpages⟩
      obtain ⟨hrun', -⟩ := @kmallocRetry_fit arch src h1 [] bs d (mmAlignUp n) f hi1
        (fun c hc => nomatch hc) hdf
      rw [heq, hrun'] at hrun
      cases hrun
      exact (d.data_pos arch).ne'
  · obtain ⟨hrun', -⟩ := @kmallocRetry_fit arch src h l r b (mmAlignUp n) (f + 1) hi hl hb
    rw [hrun'] at hrun
    cases hrun
    exact (b.data_pos arch).ne'

theorem guarantee_of_roomy (hn : n ≠ 0) (hroomy : Roomy arch n) :
    Guarantee arch h 0 n (kmalloc arch src n h) := by
  obtain ⟨q, h', bs', hrun, hal⟩ := kmalloc_spec src hi hn
  obtain ⟨hge, hpages⟩ := mmAlignUp_of_roomy hroomy
  by_cases hfits : (∃ c ∈ bs, c.Fits (mmAlignUp n)) ∨
      src.answer h.vmmCalls (growPages arch (mmAlignUp n)) ≠ 0
  · have hq : q ≠ 0 := kmalloc_ne_zero hi hn (hfits.imp_right fun h => ⟨h, hpages⟩) hrun
    exact ⟨q, h', hrun, .inl ⟨hq, hal.grants hi hq hge⟩⟩
  · obtain ⟨hno, hanswer⟩ := not_or.mp hfits
    exact guarantee_refused hi hn (fun c hc hcf => hno ⟨c, hc, hcf⟩) (not_not.mp hanswer)

theorem kmalloc_guarantee (hn : n ≠ 0) (hlt : n < 2 ^ 32)
    (hsafe : Safe arch src n h) : Guarantee arch h 0 n (kmalloc arch src n h) := by
  by_cases hroomy : Roomy arch n
  · exact guarantee_of_roomy hi hn hroomy
  obtain ⟨hanswer, hsize⟩ := hsafe.resolve_left hroomy
  refine guarantee_refused hi hn (fun c hc hfits => ?_)
    (by rw [growPages_of_not_roomy hroomy hlt]; exact hanswer)
  by_cases hle : n ≤ 0xFFFFFFF8
  · exact absurd hfits.2 (size_lt_of_not_roomy hi hroomy hle hc).not_ge
  · have hnone := (noFreeBlock_iff hi).mp (hsize.resolve_left hle) c hc
    rw [hfits.1] at hnone
    cases hnone

end

theorem runs_suffix (hmoves : Moves arch h bs h' bs') : pageRuns h <:+ pageRuns h' := by
  unfold Moves at hmoves
  generalize hs : (bs', pageRuns h') = s at hmoves
  have hend : pageRuns h <:+ s.2 := by
    clear hs
    induction hmoves with
    | refl => exact suffix_refl _
    | tail _ hmove ih =>
      cases hmove with
      | cut => exact ih
      | release => exact ih
      | grow => exact ih.trans (suffix_cons _ _)
  rw [← hs] at hend
  exact hend

theorem not_unchanged_of_grown {d : Block} {h1 : Heap} (hi : HeapInv arch h bs)
    (hruns : pageRuns h1 = d.range arch :: pageRuns h) (hi' : HeapInv arch h' bs')
    (hmoves : Moves arch h1 (d :: bs) h' bs') : ¬ Unchanged arch h h' := by
  intro hsame
  have hH := sizeofHeapBlock_cases arch
  have hchain := hi'.chain
  rw [hsame.mem, hsame.heapHead] at hchain
  obtain rfl := chain_unique hi.chain hchain
  -- the first byte of the new run is covered once more than before
  obtain ⟨runs, hsuffix⟩ := runs_suffix hmoves
  have hcover := (hi.cov d.addr).symm.trans (hi'.cov d.addr)
  have hin : (d.range arch).Contains d.addr := by
    simp only [Range.Contains, Block.range]
    omega
  rw [← hsuffix, hruns, cover_append, cover_cons, if_pos hin] at hcover
  omega

theorem kmalloc_unsafe (hi : HeapInv arch h bs) (hn : n ≠ 0) (hlt : n < 2 ^ 32)
    (hsafe : ¬ Safe arch src n h) (hrun : kmalloc arch src n h = some (q, h'))
    (hal : Allocated arch (mmAlignUp n) h bs q h' bs') :
    (q = 0 ∧ ¬ Unchanged arch h h') ∨ (q ≠ 0 ∧ 0xFFFFFFF8 < n) := by
  obtain ⟨hroomy, hnot⟩ := not_or.mp hsafe
  have hpages := growPages_of_not_roomy hroomy hlt
  by_cases hle : n ≤ 0xFFFFFFF8
  · left
    have hno : ∀ c ∈ bs, ¬ c.Fits (mmAlignUp n) := fun c hc hfits =>
      absurd hfits.2 (size_lt_of_not_roomy hi hroomy hle hc).not_ge
    have hanswer : src.answer h.vmmCalls (growPages arch (mmAlignUp n)) ≠ 0 := by
      rw [hpages]
      exact fun hzero => hnot ⟨hzero, .inl hle⟩
    constructor
    · rcases hal.result with ⟨hzero, -⟩ | ⟨d, -, hdf, hsize, -, hused⟩
      · exact hzero
      · have hd := (hused d hdf).mpr (.inl rfl)
        exact absurd hsize (size_lt_of_not_roomy hal.inv hroomy hle hd).not_ge
    · obtain ⟨f, hround⟩ := @kmalloc_round arch src h bs n hi hn
      obtain ⟨d, h1, heq, -, hi1, hruns, -⟩ :=
        @kmallocRetry_grown arch src h bs (mmAlignUp n) (f + 1) hi hno hanswer
      rw [hround, heq] at hrun
      exact not_unchanged_of_grown hi hruns hal.inv
        (kmallocRetry_moves hi1 (mmAlignUp_mod n) hrun hal.inv)
  · right
    have hlarge : 0xFFFFFFF8 < n := Nat.lt_of_not_le hle
    have hzero := mmAlignUp_of_large hlarge hlt
    refine ⟨kmalloc_ne_zero hi hn ?_ hrun, hlarge⟩
    rw [hpages, hzero]
    by_cases hanswer : src.answer h.vmmCalls mmHeapGrowPages = 0
    · left
      by_contra hnone
      refine hnot ⟨hanswer, .inr ((noFreeBlock_iff hi).mpr fun b hb => ?_)⟩
      by_contra hfree
      exact hnone ⟨b, hb, by simpa using hfree, Nat.zero_le _⟩
    · right
      have hH := sizeofHeapBlock_cases arch
      refine ⟨hanswer, ?_⟩
      simp only [mmHeapGrowPages, pmmPageSize]
      omega

theorem kmalloc_guarantee_iff (hi : HeapInv arch h bs) (hn : n ≠ 0) (hlt : n < 2 ^ 32) :
    Guarantee arch h 0 n (kmalloc arch src n h) ↔ Safe arch src n h := by
  refine ⟨fun hguarantee => ?_, kmalloc_guarantee hi hn hlt⟩
  by_contra hsafe
  obtain ⟨q, h', bs', hrun, hal⟩ := kmalloc_spec src hi hn
  obtain ⟨q', h'', hrun', hresult⟩ := hguarantee
  rw [hrun] at hrun'
  cases hrun'
  rcases kmalloc_unsafe hi hn hlt hsafe hrun hal with ⟨hzero, hchanged⟩ | ⟨hpos, hlarge⟩
  · rcases hresult with ⟨hq, -⟩ | ⟨-, hsame⟩
    · exact hq hzero
    · exact hchanged hsame
  · rcases hresult with ⟨-, hgrants⟩ | ⟨hq, -⟩
    · -- no block has that many bytes
      obtain ⟨m, hlive, hle, -⟩ := hgrants.live
      have hp : pmmPageSize = 4096 := rfl
      have := Live.lt hal.inv hlive
      omega
    · exact hpos hq

end Kmalloc

section Calloc

variable {arch : Arch} {src : PageSource} {h h' : Heap} {bs bs' : List Block}
  {n p q m count size : Nat}

theorem memset_inv {d : Block} (v : UInt8) {len : Nat} (hi : HeapInv arch h bs) (hd : d ∈ bs)
    (hlen : len ≤ d.size) : HeapInv arch (memset (d.data arch) v len h) bs := by
  refine hi.payload hd rfl fun a ha => ?_
  simp only [memset]
  exact if_neg fun hin => ha ⟨hin.1, by omega⟩

theorem le_mmAlignUp_of_safe (hi : HeapInv arch h bs) (hn : n ≠ 0) (hlt : n < 2 ^ 32)
    (hsafe : n ≤ 0xFFFFFFF8 ∨ Safe arch src n h) (hrun : kmalloc arch src n h = some (q, h'))
    (hq : q ≠ 0) : n ≤ mmAlignUp n := by
  by_cases hle : n ≤ 0xFFFFFFF8
  · exact mmAlignUp_ge hle
  have hlarge : 0xFFFFFFF8 < n := Nat.lt_of_not_le hle
  obtain ⟨hanswer, hsize⟩ := (hsafe.resolve_left hle).resolve_left fun hroomy => by
    unfold Roomy at hroomy
    omega
  have hnone := (noFreeBlock_iff hi).mp (hsize.resolve_left hle)
  have hrefused : ∀ c ∈ bs, ¬ c.Fits (mmAlignUp n) := fun c hc hfits => by
    have := hnone c hc
    rw [hfits.1] at this
    cases this
  obtain ⟨f, hround⟩ := @kmalloc_round arch src h bs n hi hn
  have hpages : growPages arch (mmAlignUp n) = mmHeapGrowPages :=
    growPages_of_not_roomy (fun hroomy => by unfold Roomy at hroomy; omega) hlt
  rw [hround, kmallocRetry_refused hi hrefused (by rw [hpages]; exact hanswer)] at hrun
  cases hrun
  exact absurd rfl hq

theorem product_wraps_iff (count size : Nat) :
    (count ≠ 0 ∧ 0xFFFFFFFF / count < size) ↔ 2 ^ 32 ≤ count * size := by
  constructor
  · rintro ⟨hcount, hlt⟩
    have := (Nat.div_lt_iff_lt_mul (Nat.pos_of_ne_zero hcount)).mp hlt
    rw [Nat.mul_comm] at this
    omega
  · intro hle
    have hcount : count ≠ 0 := by
      rintro rfl
      omega
    refine ⟨hcount, (Nat.div_lt_iff_lt_mul (Nat.pos_of_ne_zero hcount)).mpr ?_⟩
    rw [Nat.mul_comm]
    omega

theorem calloc_eq (hprod : count * size < 2 ^ 32)
    (hrun : kmalloc arch src (count * size) h = some (q, h')) :
    calloc arch src count size h =
      some (q, if q ≠ 0 then memset q 0 (count * size) h' else h') := by
  unfold calloc
  rw [if_neg (fun hwraps => absurd ((product_wraps_iff count size).mp hwraps) (by omega))]
  simp only [u32_of_lt hprod, hrun]
  by_cases hq : q = 0
  · rw [if_neg (not_not.mpr hq), if_neg (not_not.mpr hq), hq]
  · rw [if_pos hq, if_pos hq]

theorem Allocated.grants_memset (hi : HeapInv arch h bs) {k : Nat}
    (hal : Allocated arch k h bs q h' bs') (hq : q ≠ 0) (hn : n ≤ k) :
    HeapInv arch (memset q 0 n h') bs' ∧ Grants arch h 0 n q (memset q 0 n h') := by
  have hgrants := hal.grants hi hq hn
  obtain ⟨m, hlive, hle, hapart⟩ := hgrants.live
  obtain ⟨d, hd, hdf, rfl, rfl⟩ := (live_iff hal.inv).mp hlive
  have hset := @memset_inv arch h' bs' d 0 n hal.inv hd hle
  have hkept : ∀ r k, Live arch h' r k ↔ Live arch (memset (d.data arch) 0 n h') r k := fun r k =>
    (live_iff hal.inv).trans (live_iff hset).symm
  refine ⟨hset, ⟨d.size, (hkept _ _).mp hlive, hle, hapart⟩, fun r k hr hrp => ?_⟩
  obtain ⟨hr', hframe⟩ := hgrants.others r k hr hrp
  refine ⟨(hkept _ _).mp hr', fun a ha => ?_⟩
  have hdisjoint := hapart.resolve_left hq r k hr
  rw [blockAt_data] at hdisjoint
  have hout : ¬ (d.data arch ≤ a ∧ a < d.data arch + n) := by
    simp only [blockAt, Range.Contains, Range.Disjoint, Block.range, Block.data] at ha hdisjoint ⊢
    omega
  rw [← hframe a ha]
  simp only [memset, if_neg hout]

theorem listFrom_lt {m : Mem} {head : Nat} {blocks : List Nat} (hlist : ListFrom arch m head blocks)
    (hhead : head < 256 ^ arch.ptrBytes) : ∀ block ∈ blocks, block < 256 ^ arch.ptrBytes := by
  induction blocks generalizing head with
  | nil => exact fun block hmem => nomatch hmem
  | cons b blocks ih =>
    obtain ⟨rfl, -, hrest⟩ := hlist
    intro block hmem
    rcases mem_cons.mp hmem with rfl | hmem
    · exact hhead
    · exact ih hrest (readLE_lt ..) block hmem

theorem live_memset {d : Block} (hi : HeapInv arch h bs) (hd : d ∈ bs) (len : Nat)
    (hlive : Live arch (memset (d.data arch) 0 len h) (d.data arch) m) : m = d.size := by
  obtain ⟨blocks, block, hlist, hmem, hdata, -, hsize⟩ := hlive
  have hH := sizeofHeapBlock_cases arch
  have hhead : h.heapHead < 256 ^ arch.ptrBytes := by
    refine Nat.lt_of_lt_of_le ?_ (le_pow_ptrBytes arch)
    cases bs with
    | nil => cases hd
    | cons b bs =>
      have hin := hi.placed.inside b mem_cons_self
      rw [show h.heapHead = b.addr from hi.chain.1]
      omega
  have hlt := listFrom_lt hlist hhead block hmem
  have hblock : block = d.addr := by
    have hin := hi.placed.inside d hd
    simp only [blockData, uptr, Block.data] at hdata
    rcases hH with ⟨hbytes, hheader⟩ | ⟨hbytes, hheader⟩ <;> rw [hbytes] at hlt hdata <;> omega
  have hkept : blockSize (memset (d.data arch) 0 len h).mem d.addr = blockSize h.mem d.addr := by
    refine readLE_congr fun i hi' => ?_
    simp only [memset]
    refine if_neg fun hin => ?_
    simp only [Block.data] at hin
    omega
  rw [← hsize, hblock, hkept]
  exact (listFrom_mem hi.chain hd).1

theorem calloc_guarantee_iff (hi : HeapInv arch h bs) (hn : count * size ≠ 0) :
    Guarantee arch h 0 (count * size) (calloc arch src count size h) ↔
      2 ^ 32 ≤ count * size ∨ Safe arch src (count * size) h := by
  by_cases hwraps : 2 ^ 32 ≤ count * size
  · have hrun : calloc arch src count size h = some (0, h) := by
      rw [calloc, if_pos ((product_wraps_iff count size).mpr hwraps)]
    rw [hrun]
    exact iff_of_true ⟨0, h, rfl, .inr ⟨rfl, unchanged_refl h⟩⟩ (.inl hwraps)
  have hprod : count * size < 2 ^ 32 := Nat.lt_of_not_le hwraps
  obtain ⟨q, h', bs', hrun, hal⟩ := kmalloc_spec src hi hn
  rw [calloc_eq hprod hrun]
  constructor
  · rintro ⟨q', h'', hresult, hor⟩
    cases hresult
    by_contra hnot
    have hsafe := (not_or.mp hnot).2
    rcases kmalloc_unsafe hi hn hprod hsafe hrun hal with ⟨rfl, hchanged⟩ | ⟨hq, hlarge⟩
    · rcases hor with ⟨hq, -⟩ | ⟨-, hsame⟩
      · exact hq rfl
      · exact hchanged hsame
    · rcases hor with ⟨-, hgrants⟩ | ⟨hzero, -⟩
      · obtain ⟨m, hlive, hle, -⟩ := hgrants.live
        rcases hal.result with ⟨hzero, -⟩ | ⟨d, rfl, hdf, -, -, hused⟩
        · exact hq hzero
        have hd := (hused d hdf).mpr (.inl rfl)
        rw [if_pos hq] at hlive
        obtain rfl := live_memset hal.inv hd _ hlive
        have hp : pmmPageSize = 4096 := rfl
        have := hal.inv.placed.inside d hd
        omega
      · exact hq hzero
  · intro hor
    have hsafe := hor.resolve_left hwraps
    by_cases hq : q = 0
    · obtain ⟨q', h'', hrun', hresult⟩ := @kmalloc_guarantee arch src h bs _ hi hn hprod hsafe
      rw [hrun] at hrun'
      cases hrun'
      refine ⟨q, _, rfl, .inr ⟨hq, ?_⟩⟩
      rw [if_neg (not_not.mpr hq)]
      exact (hresult.resolve_left fun hpos => hpos.1 hq).2
    · refine ⟨q, _, rfl, .inl ⟨hq, ?_⟩⟩
      rw [if_pos hq]
      exact (hal.grants_memset hi hq (le_mmAlignUp_of_safe hi hn hprod (.inr hsafe) hrun hq)).2

end Calloc

/-! ## `realloc` -/

section Realloc

variable {arch : Arch} {src : PageSource} {h h' : Heap} {bs bs' : List Block} {n p q m : Nat}

/-- `realloc` has to allocate: there is no block, or one that is too small. -/
def Allocates (arch : Arch) (h : Heap) (p n : Nat) : Prop :=
  p = 0 ∨ ∃ m, Live arch h p m ∧ m < n

theorem Allocated.grants_moved {b : Block} {k len : Nat} (hi : HeapInv arch h bs) (hb : b ∈ bs)
    (hbf : b.free = false) (hal : Allocated arch k h bs q h' bs') (hq : q ≠ 0) (hn : n ≤ k)
    (hlen : len ≤ n) :
    ∃ h'' bs'', kfree arch (b.data arch) (memcpy q (b.data arch) len h') = some h'' ∧
      HeapInv arch h'' bs'' ∧ Grants arch h (b.data arch) n q h'' := by
  rcases hal.result with ⟨hzero, -⟩ | ⟨d, rfl, hdf, hsize, hnew, hused⟩
  · exact absurd hzero hq
  have hd : d ∈ bs' := (hused d hdf).mpr (.inl rfl)
  have hcopied := memcpy_inv (b.data arch) hal.inv hd (show len ≤ d.size by omega)
  obtain ⟨h'', bs'', hfree, hfreed⟩ := kfree_spec (b.data arch) hcopied
  refine ⟨h'', bs'', hfree, hfreed.inv, ?_, ?_⟩
  · have hne : d.data arch ≠ b.data arch := by
      intro heq
      have haddr : d.addr = b.addr := by
        simp only [Block.data] at heq
        omega
      have hb' : b ∈ bs' := (hused b hbf).mpr (.inr hb)
      exact hnew (hal.inv.placed.eq_of_addr hd hb' haddr ▸ hb)
    refine ⟨d.size, (live_iff hfreed.inv).mpr ⟨d, (hfreed.used d hdf).mpr ⟨hd, hne⟩, hdf, rfl, rfl⟩,
      hn.trans hsize, .inr fun r j hr => ?_⟩
    obtain ⟨c, hc, hcf, rfl, rfl⟩ := (live_iff hi).mp hr
    rw [blockAt_data, blockAt_data]
    refine hal.inv.placed.disjoint_of_ne hd ((hused c hcf).mpr (.inr hc)) ?_
    rintro rfl
    exact hnew hc
  · intro r j hr hrb
    obtain ⟨c, hc, hcf, rfl, rfl⟩ := (live_iff hi).mp hr
    have hc' : c ∈ bs' := (hused c hcf).mpr (.inr hc)
    refine ⟨(live_iff hfreed.inv).mpr ⟨c, (hfreed.used c hcf).mpr ⟨hc', hrb⟩, hcf, rfl, rfl⟩,
      fun a ha => ?_⟩
    rw [blockAt_data] at ha
    rw [hfreed.frame c hc' hcf hrb a ha, ← hal.frame c hc hcf a ha]
    -- the copy goes to the new block
    have hdisjoint := hal.inv.placed.disjoint_of_ne hd hc' fun heq => hnew (heq ▸ hc)
    refine copyFwd_out ?_
    simp only [Range.Contains, Range.Disjoint, Block.range, Block.data] at ha hdisjoint ⊢
    omega

theorem realloc_guarantee (hi : HeapInv arch h bs) (hn : n ≠ 0) (hlt : n < 2 ^ 32)
    (hsafe : Allocates arch h p n → Safe arch src n h) :
    ∃ q h' bs', realloc arch src p n h = some (q, h') ∧ HeapInv arch h' bs' ∧
      ((q ≠ 0 ∧ Grants arch h p n q h') ∨ (q = 0 ∧ Unchanged arch h h')) := by
  by_cases hp : p = 0
  · subst hp
    obtain ⟨q, h', hrun, hresult⟩ := kmalloc_guarantee hi hn hlt (hsafe (.inl rfl))
    obtain ⟨q', h'', bs', hrun', hal⟩ := kmalloc_spec src hi hn
    rw [hrun] at hrun'
    cases hrun'
    exact ⟨q, h', bs', by rw [realloc, if_pos rfl, hrun], hal.inv, hresult⟩
  rw [realloc, if_neg hp, if_neg hn]
  rcases findBlock_spec (p := holds arch p) hi.chain hi.length_lt with
    ⟨hfind, -⟩ | ⟨l, b, r, rfl, hfind, hne, hhold, -⟩
  · exact ⟨0, h, bs, by simp [hfind], hi, .inr ⟨rfl, unchanged_refl h⟩⟩
  have hb : b ∈ l ++ b :: r := by simp
  simp only [holds, decide_eq_true_eq, hi.placed.blockData hb] at hhold
  obtain ⟨hbsize, hbfree⟩ := listFrom_mem hi.chain hb
  simp only [hfind, hne, false_or, hbfree, hbsize]
  subst hhold
  by_cases hfree : b.free = true
  · exact ⟨0, h, _, by rw [if_pos hfree], hi, .inr ⟨rfl, unchanged_refl h⟩⟩
  have hbf : b.free = false := by simpa using hfree
  have hlive : Live arch h (b.data arch) b.size := (live_iff hi).mpr ⟨b, hb, hbf, rfl, rfl⟩
  rw [if_neg hfree]
  by_cases hfit : n ≤ b.size
  · exact ⟨b.data arch, h, _, by rw [if_pos hfit], hi, .inl ⟨hp, ⟨b.size, hlive, hfit, .inl rfl⟩,
      fun r k hr _ => ⟨hr, fun a _ => rfl⟩⟩⟩
  rw [if_neg hfit]
  have hsafe' := hsafe (.inr ⟨b.size, hlive, Nat.lt_of_not_le hfit⟩)
  obtain ⟨q, h1, bs1, hrun, hal⟩ := kmalloc_spec src hi hn
  simp only [hrun]
  by_cases hq : q = 0
  · obtain ⟨q', h1', hrun', hresult⟩ := kmalloc_guarantee hi hn hlt hsafe'
    rw [hrun] at hrun'
    cases hrun'
    exact ⟨0, h1, bs1, by rw [if_pos hq], hal.inv,
      .inr ⟨rfl, (hresult.resolve_left fun hpos => hpos.1 hq).2⟩⟩
  · have hlen : (if blockSize h1.mem b.addr < n then blockSize h1.mem b.addr else n) ≤ n := by
      by_cases hless : blockSize h1.mem b.addr < n
      · rw [if_pos hless]
        exact hless.le
      · rw [if_neg hless]
    obtain ⟨h', bs', hfreed, hi', hgrants⟩ := hal.grants_moved hi hb hbf hq
      (le_mmAlignUp_of_safe hi hn hlt (.inr hsafe') hrun hq) hlen
    exact ⟨q, h', bs', by rw [if_neg hq, hfreed], hi', .inl ⟨hq, hgrants⟩⟩

end Realloc

/-! ## Runs -/

inductive HeapCall where
  | op (op : HeapOp)
  | calloc (count size : UInt32)
deriving DecidableEq, Repr

def heapCall (arch : Arch) (src : PageSource) : HeapCall → Heap → Option Heap
  | .op op, h => heapStep arch src op h
  | .calloc count size, h => (calloc arch src count.toNat size.toNat h).map Prod.snd

/-- No block that `MmAlignUp` has made too small is written to: what is zeroed, and what takes the
contents of another block, was asked for with a size that it can round, or is safe. -/
def Harmless (arch : Arch) (src : PageSource) : HeapCall → Heap → Prop
  | .op (.realloc pointer size), h =>
    ReallocFits arch (.realloc pointer size) h ∨ Safe arch src size.toNat h
  | .op _, _ => True
  | .calloc count size, h => count.toNat * size.toNat ≤ 0xFFFFFFF8 ∨
      2 ^ 32 ≤ count.toNat * size.toNat ∨ Safe arch src (count.toNat * size.toNat) h

inductive Reached (arch : Arch) (src : PageSource) (mem : Mem) : Heap → Prop where
  | init : Reached arch src mem (mmInitialize mem)
  | step {h h' : Heap} {call : HeapCall} : Reached arch src mem h → Harmless arch src call h →
      heapCall arch src call h = some h' → Reached arch src mem h'

section Runs

variable {arch : Arch} {src : PageSource} {h h' : Heap} {bs : List Block}

theorem calloc_inv {count size : UInt32} (hi : HeapInv arch h bs)
    (hok : Harmless arch src (.calloc count size) h) :
    ∃ q h' bs', calloc arch src count.toNat size.toNat h = some (q, h') ∧ HeapInv arch h' bs' := by
  by_cases hwraps : 2 ^ 32 ≤ count.toNat * size.toNat
  · exact ⟨0, h, bs, by rw [calloc, if_pos ((product_wraps_iff _ _).mpr hwraps)], hi⟩
  have hprod : count.toNat * size.toNat < 2 ^ 32 := Nat.lt_of_not_le hwraps
  by_cases hn : count.toNat * size.toNat = 0
  · have hrun : kmalloc arch src (count.toNat * size.toNat) h = some (0, h) := by
      rw [hn]
      rfl
    exact ⟨0, _, bs, calloc_eq hprod hrun, hi⟩
  obtain ⟨q, h', bs', hrun, hal⟩ := kmalloc_spec src hi hn
  refine ⟨q, _, bs', calloc_eq hprod hrun, ?_⟩
  by_cases hq : q = 0
  · rw [if_neg (not_not.mpr hq)]
    exact hal.inv
  · rw [if_pos hq]
    have hsafe := hok.imp_right fun hor => hor.resolve_left hwraps
    exact (hal.grants_memset hi hq (le_mmAlignUp_of_safe hi hn hprod hsafe hrun hq)).1

theorem heapCall_inv {call : HeapCall} (hi : HeapInv arch h bs) (hok : Harmless arch src call h) :
    ∃ h' bs', heapCall arch src call h = some h' ∧ HeapInv arch h' bs' := by
  have hfits : ∀ op, ReallocFits arch op h → ∃ h' bs', heapStep arch src op h = some h' ∧
      HeapInv arch h' bs' := fun op hop => by
    obtain ⟨h', bs', hrun, hi', -⟩ := @heapStep_inv arch bs h src op hi hop
    exact ⟨h', bs', hrun, hi'⟩
  cases call with
  | op op =>
    cases op with
    | kmalloc size => exact hfits (.kmalloc size) trivial
    | kfree pointer => exact hfits (.kfree pointer) trivial
    | realloc pointer size =>
      by_cases hn : size.toNat = 0
      · exact hfits (.realloc pointer size) (.inl (by omega))
      rcases hok with hop | hsafe
      · exact hfits (.realloc pointer size) hop
      · obtain ⟨q, h', bs', hrun, hi', -⟩ :=
          realloc_guarantee hi hn size.toNat_lt fun _ : Allocates arch h pointer _ => hsafe
        exact ⟨h', bs', by simp [heapCall, heapStep, hrun], hi'⟩
  | calloc count size =>
    obtain ⟨q, h', bs', hrun, hi'⟩ := calloc_inv hi hok
    exact ⟨h', bs', by simp [heapCall, hrun], hi'⟩

theorem reached_inv {mem : Mem} (hr : Reached arch src mem h) : ∃ bs, HeapInv arch h bs := by
  induction hr with
  | init => exact ⟨[], mmInitialize_inv arch mem⟩
  | step _ hok hstep ih =>
    obtain ⟨bs, hi⟩ := ih
    obtain ⟨h', bs', hrun, hi'⟩ := heapCall_inv hi hok
    rw [hrun] at hstep
    cases hstep
    exact ⟨bs', hi'⟩

end Runs

/-- In every state reached by calls that do no harm, `kmalloc` and `calloc` keep the guarantee
exactly where the size is safe (`calloc` also where the product wraps), and `realloc` where it is
safe or nothing is allocated. -/
theorem allocation_guarantee {arch : Arch} {src : PageSource} {mem : Mem} {h : Heap}
    (hr : Reached arch src mem h) :
    (∀ n : UInt32, 0 < n →
      (Guarantee arch h 0 n.toNat (kmalloc arch src n.toNat h) ↔ Safe arch src n.toNat h)) ∧
    (∀ count size : UInt32, 0 < count.toNat * size.toNat →
      (Guarantee arch h 0 (count.toNat * size.toNat)
        (calloc arch src count.toNat size.toNat h) ↔
          2 ^ 32 ≤ count.toNat * size.toNat ∨ Safe arch src (count.toNat * size.toNat) h)) ∧
    ∀ (p : Nat) (n : UInt32), 0 < n → (Allocates arch h p n.toNat → Safe arch src n.toNat h) →
      Guarantee arch h p n.toNat (realloc arch src p n.toNat h) := by
  obtain ⟨bs, hi⟩ := reached_inv hr
  have hpos : ∀ n : UInt32, 0 < n → n.toNat ≠ 0 := fun n hn => by
    have : (0 : UInt32).toNat < n.toNat := hn
    omega
  refine ⟨fun n hn => kmalloc_guarantee_iff hi (hpos n hn) n.toNat_lt,
    fun count size hn => calloc_guarantee_iff hi hn.ne', fun p n hn hsafe => ?_⟩
  obtain ⟨q, h', bs', hrun, -, hresult⟩ := realloc_guarantee hi (hpos n hn) n.toNat_lt hsafe
  exact ⟨q, h', hrun, hresult⟩

/-- The first call, for 32 bytes. -/
theorem allocation_guarantee_first :
    Reached .x86 oneRun (fun _ => 0) (mmInitialize fun _ => 0) ∧
      Guarantee .x86 (mmInitialize fun _ => 0) 0 32
        (kmalloc .x86 oneRun 32 (mmInitialize fun _ => 0)) :=
  ⟨.init, ((allocation_guarantee .init).1 32 (by decide)).mpr (.inl (by decide))⟩

/-- The first call: a size that cannot be had grows the heap all the same, and a larger one is given
a block of no bytes. -/
theorem sizes_that_wrap :
    ¬ Guarantee .x86 (mmInitialize fun _ => 0) 0 0xFFFFFFF0
      (kmalloc .x86 oneRun 0xFFFFFFF0 (mmInitialize fun _ => 0)) ∧
    ¬ Guarantee .x86 (mmInitialize fun _ => 0) 0 0xFFFFFFFF
      (kmalloc .x86 oneRun 0xFFFFFFFF (mmInitialize fun _ => 0)) := by
  have hfirst : (kmalloc .x86 oneRun 0xFFFFFFF0 (mmInitialize fun _ => 0)).map
      (fun r => (r.1, r.2.heapHead)) = some (0, 0x100000) := by decide +kernel
  have hsecond : (kmalloc .x86 oneRun 0xFFFFFFFF (mmInitialize fun _ => 0)).map
      (fun r => decide (r.1 = 0x10000C ∧ r.2.heapHead = 0x100000 ∧
        blockNext .x86 r.2.mem 0x100000 = 0x10000C ∧ blockNext .x86 r.2.mem 0x10000C = 0 ∧
        blockSize r.2.mem 0x100000 = 0)) = some true := by decide +kernel
  constructor
  · rintro ⟨q, h', hrun, hresult⟩
    rw [hrun] at hfirst
    simp only [Option.map_some, Option.some.injEq, Prod.mk.injEq] at hfirst
    obtain ⟨rfl, hhead⟩ := hfirst
    rcases hresult with ⟨hq, -⟩ | ⟨-, hsame⟩
    · exact hq rfl
    · rw [hsame.heapHead] at hhead
      cases hhead
  · rintro ⟨q, h', hrun, hresult⟩
    rw [hrun] at hsecond
    simp only [Option.map_some, Option.some.injEq, decide_eq_true_eq] at hsecond
    obtain ⟨rfl, e1, e2, e3, hempty⟩ := hsecond
    rcases hresult with ⟨-, hgrants⟩ | ⟨hq, -⟩
    · obtain ⟨m, ⟨blocks, block, hlist, hmem, hdata, -, rfl⟩, hle, -⟩ := hgrants.live
      have hlist' : ListFrom .x86 h'.mem h'.heapHead [0x100000, 0x10000C] := by
        simp [ListFrom, e1, e2, e3]
      rw [listFrom_unique hlist hlist'] at hmem
      simp only [mem_cons, not_mem_nil, or_false] at hmem
      rcases hmem with rfl | rfl
      · rw [hempty] at hle
        cases hle
      · revert hdata
        decide
    · cases hq

/-! ## On the page allocator -/

theorem heapCall_calls {arch : Arch} {src : PageSource} {P : List VmmCall → Prop}
    (hP : ∀ calls count, count < 2 ^ 32 → P calls → P (⟨count, src.answer calls count⟩ :: calls))
    {call : HeapCall} {h h' : Heap} (hc : P h.vmmCalls)
    (hstep : heapCall arch src call h = some h') : P h'.vmmCalls := by
  cases call with
  | op op => exact heapStep_calls hP hc hstep
  | calloc count size =>
    obtain ⟨⟨q, h''⟩, hk, rfl⟩ := Option.map_eq_some_iff.mp hstep
    rw [calloc] at hk
    split at hk
    · cases hk
      exact hc
    · cases hm : kmalloc arch src (u32 (count.toNat * size.toNat)) h with
      | none => simp [hm] at hk
      | some r =>
        have hc' := kmalloc_calls hP hc hm
        simp only [hm] at hk
        split at hk <;> (cases hk; exact hc')

theorem vmmSource_replays {arch : Arch} {s₀ : Pmm} (hi : PmmInv s₀) (hpos : 0 < s₀.searchHint)
    (hle : s₀.searchHint ≤ pmmMaxPages) {mem : Mem} {h : Heap}
    (hr : Reached arch (vmmSource hi hpos hle arch) mem h) :
    ∃ s, replay arch s₀ h.vmmCalls = some s := by
  induction hr with
  | init => exact ⟨s₀, rfl⟩
  | step _ _ hstep ih =>
    refine heapCall_calls (P := fun calls => ∃ s, replay arch s₀ calls = some s) ?_ ih hstep
    rintro calls count hcount ⟨s, hs⟩
    have hans : (vmmSource hi hpos hle arch).answer calls count =
        (vmmAllocatePages arch (UInt32.ofNat count) s).1 := by
      change vmmAnswer arch s₀ calls count = _
      simp only [vmmAnswer, hs, if_pos hcount]
    refine ⟨(vmmAllocatePages arch (UInt32.ofNat count) s).2, ?_⟩
    simp only [replay, hs]
    rw [if_pos ⟨hcount, hans.symm⟩]

/-- The page allocator that `PmmInitialize` leaves behind, as the source of the heap's pages. -/
def bootSource {arch : Arch} {k : KernelImage} {m : BootMemory} {fuel : Nat}
    {info : Option MultibootInfo} {start s₀ : Pmm}
    (hinit : pmmInitialize arch k m fuel info start = some s₀) : PageSource :=
  have hready := pmmInitialize_ready hinit
  vmmSource hready.inv hready.hint_pos hready.hint_le arch

/-- The heap on the pages of the allocator: a page is free where it was free at boot and no block of
the heap has a byte in it, no block has a byte of the boot data, and the bytes of the heap are those
of the pages that are gone. -/
theorem heap_on_pages {arch : Arch} {k : KernelImage} {m : BootMemory} {fuel : Nat}
    {info : Option MultibootInfo} {start s₀ : Pmm} {mem : Mem} {h : Heap}
    (hinit : pmmInitialize arch k m fuel info start = some s₀)
    (hr : Reached arch (bootSource hinit) mem h) :
    ∃ s blocks, replay arch s₀ h.vmmCalls = some s ∧ ListFrom arch h.mem h.heapHead blocks ∧
      (∀ a, pmmPageUsed (a / pageSize) s = false ↔ pmmPageUsed (a / pageSize) s₀ = false ∧
        ∀ b ∈ blocks, ¬ (blockRange arch h.mem b).Contains a) ∧
      (∀ b ∈ blocks, ∀ a, (blockRange arch h.mem b).Contains a →
        ¬ Reserved arch k m info (a / pageSize)) ∧
      mmGetHeapTotal h + s.freePages * pageSize = s₀.freePages * pageSize := by
  have hready := pmmInitialize_ready hinit
  obtain ⟨s, hs⟩ := vmmSource_replays hready.inv hready.hint_pos hready.hint_le hr
  have hreach := replay_reach hs
  have hb := pmmReach_balance hready.inv hready.hint_pos hready.hint_le hreach
  obtain ⟨bs, hi⟩ := reached_inv hr
  obtain ⟨blocks, hlist, -, -, hcov, -⟩ := hi.tiled
  have hcover : ∀ a, cover (pageRuns h) a = cover ((handedOut h.vmmCalls).map pageRange)
      (a / pageSize) := fun a => by
    rw [pageRuns_eq, cover_runs fun r hr => (hb.shape r hr).imp fun _ h => h.1]
  have hblock : ∀ a, (∃ b ∈ blocks, (blockRange arch h.mem b).Contains a) ↔
      0 < cover ((handedOut h.vmmCalls).map pageRange) (a / pageSize) := fun a => by
    rw [hcov a, ← cover_pos_iff, hcover]
  refine ⟨s, blocks, hs, hlist, fun a => ?_, fun b hmem a ha => ?_, ?_⟩
  · have hbal := hb.balance (a / pageSize)
    have hnone : (∀ b ∈ blocks, ¬ (blockRange arch h.mem b).Contains a) ↔
        cover ((handedOut h.vmmCalls).map pageRange) (a / pageSize) = 0 := by
      rw [← Nat.le_zero, ← Nat.not_lt, ← hblock a, not_exists]
      simp only [not_and]
    rw [hnone]
    simp only [clear] at hbal
    cases hu : pmmPageUsed (a / pageSize) s <;> cases hu' : pmmPageUsed (a / pageSize) s₀ <;>
      simp [hu, hu'] at hbal ⊢ <;> omega
  · obtain ⟨r, hr', hin⟩ := cover_pos_iff.mp ((hblock a).mp ⟨b, hmem, ha⟩)
    obtain ⟨r, hr, rfl⟩ := mem_map.mp hr'
    exact ((pmmReach_consistent hinit hreach).2.2.2.1 r hr _ hin).2
  · have htotal : mmGetHeapTotal h = totalLen (pageRuns h) := by
      have hin : ∀ r ∈ ranges arch bs, 0 ≤ r.base ∧ r.base + r.len ≤ 2 ^ 32 := by
        intro r hr
        obtain ⟨b, hmem, rfl⟩ := mem_map.mp hr
        have hinside := hi.placed.inside b hmem
        simp only [Block.range]
        omega
      change h.heapCommitted = _
      rw [← hi.total, ← sum_cover hin, ← sum_cover fun r hr => ⟨Nat.zero_le _, (hi.runs_in r hr).2⟩]
      exact Finset.sum_congr rfl fun a _ => hi.cov a
    rw [htotal, pageRuns_eq, totalLen_runs, ← Nat.add_mul, hb.total hready.inv]

theorem heap_on_pages_first :
    ∃ (s₀ : Pmm) (hinit : pmmInitialize .x86 tinyKernel emptyBootMemory 0 (some tinyInfo) pmmZero =
        some s₀) (h : Heap) (s : Pmm),
      heapStep .x86 (bootSource hinit) (.kmalloc 32) (mmInitialize fun _ => 0) = some h ∧
        replay .x86 s₀ h.vmmCalls = some s ∧
        mmGetHeapTotal h + s.freePages * pageSize = s₀.freePages * pageSize := by
  have hval : (pmmInitialize .x86 tinyKernel emptyBootMemory 0 (some tinyInfo) pmmZero).isSome := by
    decide +kernel
  obtain ⟨s₀, hinit⟩ := Option.isSome_iff_exists.mp hval
  have hok : Harmless .x86 (bootSource hinit) (.op (.kmalloc 32)) (mmInitialize fun _ => 0) := trivial
  obtain ⟨h, -, hrun, -⟩ := heapCall_inv (mmInitialize_inv .x86 fun _ => 0) hok
  obtain ⟨s, -, hs, -, -, -, htotal⟩ := heap_on_pages hinit (.step .init hok hrun)
  exact ⟨s₀, hinit, h, s, hrun, hs, htotal⟩

end DiscouNT.Mm
