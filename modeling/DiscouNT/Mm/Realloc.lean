import DiscouNT.Mm.HeapRuns

/-!
# Mm.Realloc

The three reallocation entry points over the one allocator: the kernel's `realloc`, the `realloc`
of `kernel32.c` (to which `HeapReAlloc` and `LocalReAlloc` pass their arguments on) and
`RtlReAllocateHeap` of `ntdll.c`, against the contract of C's `realloc` (`ReallocLaw`).

They do not agree on it. `k32Realloc` copies nothing; `rtlReAllocateHeap` copies as many bytes as
the new block has, whatever the size of the old one. `realloc_law_iff` gives the exact condition:
the allocation fails, or the block shrinks into memory that already holds the bytes.
-/

namespace DiscouNT.Mm

open Lib List

/-- `realloc` of `kernel32.c`; `size` is a `SIZE_T`, `kmalloc` takes a `uint32_t`. -/
def k32Realloc (arch : Arch) (src : PageSource) (memory size : Nat) (h : Heap) :
    Option (Nat × Heap) :=
  if memory = 0 then kmalloc arch src (u32 size) h
  else
    match kmalloc arch src (u32 size) h with
    | none => none
    | some (replacement, h) =>
      if replacement ≠ 0 then
        match kfree arch memory h with
        | none => none
        | some h => some (replacement, h)
      else some (0, h)

/-- `RtlReAllocateHeap` of `ntdll.c`; heap and flags are ignored there. -/
def rtlReAllocateHeap (arch : Arch) (src : PageSource) (ptr size : Nat) (h : Heap) :
    Option (Nat × Heap) :=
  match kmalloc arch src size h with
  | none => none
  | some (newPtr, h) =>
    if ptr ≠ 0 ∧ newPtr ≠ 0 then
      match kfree arch ptr (memcpy newPtr ptr size h) with
      | none => none
      | some h => some (newPtr, h)
    else some (newPtr, h)

def Live (arch : Arch) (h : Heap) (p m : Nat) : Prop :=
  ∃ blocks block, ListFrom arch h.mem h.heapHead blocks ∧ block ∈ blocks ∧
    blockData arch block = p ∧ blockFree h.mem block = 0 ∧ blockSize h.mem block = m

/-- The outcome `(q, h')` of reallocating the live block `p` of `m` bytes to `n` bytes. -/
structure ReallocContract (arch : Arch) (h : Heap) (p m n q : Nat) (h' : Heap) : Prop where
  contents : q ≠ 0 → ∃ k, Live arch h' q k ∧ min m n ≤ k ∧
    ∀ i, i < min m n → h'.mem (q + i) = h.mem (p + i)
  reads : ∃ new, h'.copies = new ++ h.copies ∧
    ∀ c ∈ new, ∀ i, i < c.len → p ≤ c.src + i ∧ c.src + i < p + m
  others : ∀ r k, Live arch h r k → r ≠ p →
    Live arch h' r k ∧ ∀ i, i < k → h'.mem (r + i) = h.mem (r + i)
  failed : q = 0 → Live arch h' p m ∧ ∀ i, i < m → h'.mem (p + i) = h.mem (p + i)

def ReallocLaw (arch : Arch) (entry : Nat → Nat → Heap → Option (Nat × Heap)) (h : Heap)
    (p m n : Nat) : Prop :=
  ∃ q h', entry p n h = some (q, h') ∧ ReallocContract arch h p m n q h'

theorem listFrom_mem {arch : Arch} {m : Mem} {bs : List Block} : ∀ {head : Nat} {b : Block},
    Chain arch m head bs → b ∈ bs →
      blockSize m b.addr = b.size ∧ (blockFree m b.addr ≠ 0 ↔ b.free = true) := by
  intro head b hch hb
  obtain ⟨l, r, rfl⟩ := append_of_mem hb
  have hdrop := chain_drop hch
  exact ⟨hdrop.2.2.1, hdrop.2.2.2.1⟩

theorem live_iff {arch : Arch} {h : Heap} {bs : List Block} (hi : HeapInv arch h bs) {p m : Nat} :
    Live arch h p m ↔ ∃ b ∈ bs, b.free = false ∧ b.data arch = p ∧ b.size = m := by
  obtain ⟨hlist, -⟩ := chain_listFrom hi.chain
  constructor
  · rintro ⟨blocks, block, hl, hmem, hp, hfree, hsize⟩
    rw [listFrom_unique hl hlist] at hmem
    obtain ⟨b, hb, rfl⟩ := mem_map.mp hmem
    obtain ⟨hs, hf⟩ := listFrom_mem hi.chain hb
    refine ⟨b, hb, ?_, by rw [← hi.placed.blockData hb]; exact hp, hs.symm.trans hsize⟩
    cases hbf : b.free with
    | false => rfl
    | true => exact absurd hfree (hf.mpr hbf)
  · rintro ⟨b, hb, hbf, hp, hm⟩
    obtain ⟨hs, hf⟩ := listFrom_mem hi.chain hb
    refine ⟨_, b.addr, hlist, mem_map_of_mem hb, ?_, ?_, hs.trans hm⟩
    · rw [hi.placed.blockData hb]; exact hp
    · by_contra hne
      have := hf.mp hne
      rw [hbf] at this
      cases this

section Outcomes

variable {arch : Arch} {h h1 h' : Heap} {bs bs1 bs' : List Block} {b : Block} {size n q : Nat}

theorem range_data {a : Nat} {c : Block} (h : c.data arch ≤ a ∧ a < c.data arch + c.size) :
    (c.range arch).Contains a := by
  simp only [Range.Contains, Block.range, Block.data] at h ⊢
  omega

theorem contract_of_failed (hi : HeapInv arch h bs) (hb : b ∈ bs) (hbf : b.free = false)
    (hal : Allocated arch size h bs 0 h1 bs1) :
    ReallocContract arch h (b.data arch) b.size n 0 h1 := by
  have hused : ∀ c : Block, c.free = false → (c ∈ bs1 ↔ c ∈ bs) := by
    rcases hal.result with ⟨-, hu⟩ | ⟨c, hc, -⟩
    · exact hu
    · have := c.data_pos arch
      omega
  have hkeep : ∀ c ∈ bs, c.free = false → Live arch h1 (c.data arch) c.size ∧
      ∀ i, i < c.size → h1.mem (c.data arch + i) = h.mem (c.data arch + i) := by
    intro c hc hcf
    refine ⟨(live_iff hal.inv).mpr ⟨c, (hused c hcf).mpr hc, hcf, rfl, rfl⟩, fun i hlt => ?_⟩
    exact hal.frame c hc hcf _ (range_data ⟨by omega, by omega⟩)
  refine ⟨fun hq => absurd rfl hq, ⟨[], by simpa using hal.copies, by simp⟩, fun r k hr _ => ?_,
    fun _ => hkeep b hb hbf⟩
  obtain ⟨c, hc, hcf, rfl, rfl⟩ := (live_iff hi).mp hr
  exact hkeep c hc hcf

theorem contract_of_moved (hi : HeapInv arch h bs) (hb : b ∈ bs) (hbf : b.free = false)
    (hal : Allocated arch size h bs q h1 bs1) (hq : q ≠ 0) {h2 : Heap}
    (hi2 : HeapInv arch h2 bs1) (hstore : ∀ c ∈ bs, c.free = false → ∀ a, (c.range arch).Contains a →
      h2.mem a = h1.mem a) (hfr : Freed arch (b.data arch) h2 bs1 h' bs')
    (hsize : min b.size n ≤ size)
    (hcontents : ∀ i, i < min b.size n → h2.mem (q + i) = h.mem (b.data arch + i))
    (hreads : ∃ new, h2.copies = new ++ h.copies ∧
      ∀ c ∈ new, ∀ i, i < c.len → b.data arch ≤ c.src + i ∧ c.src + i < b.data arch + b.size) :
    ReallocContract arch h (b.data arch) b.size n q h' := by
  rcases hal.result with ⟨hz, -⟩ | ⟨nb, rfl, hnf, hsz, hnew, hu⟩
  · exact absurd hz hq
  have hn : nb ∈ bs1 := (hu nb hnf).mpr (.inl rfl)
  have hb1 : b ∈ bs1 := (hu b hbf).mpr (.inr hb)
  have hne : ∀ c ∈ bs1, c ≠ b → c.data arch ≠ b.data arch := by
    intro c hc hcb heq
    exact hcb (hi2.placed.eq_of_addr hc hb1 (by simp only [Block.data] at heq; omega))
  have hnb : nb ≠ b := by rintro rfl; exact hnew hb
  refine ⟨fun _ => ⟨nb.size, ?_, by omega, fun i hlt => ?_⟩, ?_, fun r k hr hrp => ?_, fun hz => absurd hz hq⟩
  · exact (live_iff hfr.inv).mpr ⟨nb, (hfr.used nb hnf).mpr ⟨hn, hne nb hn hnb⟩, hnf, rfl, rfl⟩
  · rw [hfr.frame nb hn hnf (hne nb hn hnb) _ (range_data ⟨by omega, by omega⟩)]
    exact hcontents i hlt
  · rw [hfr.copies]; exact hreads
  · obtain ⟨c, hc, hcf, rfl, rfl⟩ := (live_iff hi).mp hr
    have hc1 : c ∈ bs1 := (hu c hcf).mpr (.inr hc)
    refine ⟨(live_iff hfr.inv).mpr ⟨c, (hfr.used c hcf).mpr ⟨hc1, hrp⟩, hcf, rfl, rfl⟩, fun i hlt => ?_⟩
    have hin : (c.range arch).Contains (c.data arch + i) := range_data ⟨by omega, by omega⟩
    rw [hfr.frame c hc1 hcf hrp _ hin, hstore c hc hcf _ hin, hal.frame c hc hcf _ hin]

end Outcomes

theorem findBlock_data {arch : Arch} {h : Heap} {bs : List Block} {b : Block} (hi : HeapInv arch h bs)
    (hb : b ∈ bs) :
    findBlock arch h.mem (holds arch (b.data arch)) walkFuel h.heapHead = some b.addr := by
  rcases findBlock_spec (p := holds arch (b.data arch)) hi.chain hi.length_lt with
    ⟨-, hnone⟩ | ⟨l, c, r, rfl, hfind, -, hhold, -⟩
  · have := hnone b hb
    simp [holds, hi.placed.blockData hb] at this
  · have hc : c ∈ l ++ c :: r := by simp
    simp only [holds, decide_eq_true_eq, hi.placed.blockData hc, Block.data] at hhold
    rw [hfind, show c.addr = b.addr by omega]

theorem realloc_law_of_fits_or_failed {arch : Arch} {src : PageSource} {h : Heap} {bs : List Block}
    {b : Block} {n : Nat} (hi : HeapInv arch h bs) (hb : b ∈ bs) (hbf : b.free = false) (hn : n ≠ 0)
    (hor : n ≤ b.size ∨ ∃ h1, kmalloc arch src n h = some (0, h1)) :
    ReallocLaw arch (realloc arch src) h (b.data arch) b.size n := by
  obtain ⟨hs, hf⟩ := listFrom_mem hi.chain hb
  have hpos := b.data_pos arch
  have hne : b.addr ≠ 0 := by
    have := (hi.placed.inside b hb).1
    have hp : pmmPageSize = 4096 := rfl
    omega
  have hfree : ¬ (b.addr = 0 ∨ blockFree h.mem b.addr ≠ 0) := by simp [hne, hf, hbf]
  by_cases hfit : n ≤ b.size
  · refine ⟨b.data arch, h, ?_, fun _ => ⟨b.size, ?_, by omega, fun _ _ => rfl⟩, ⟨[], rfl, by simp⟩,
      fun r k hr _ => ⟨hr, fun _ _ => rfl⟩, fun hz => by omega⟩
    · rw [realloc, if_neg (by omega), if_neg hn, findBlock_data hi hb]
      simp only [if_neg hfree, hs, if_pos hfit]
    · exact (live_iff hi).mpr ⟨b, hb, hbf, rfl, rfl⟩
  · obtain ⟨h1, hk⟩ : ∃ h1, kmalloc arch src n h = some (0, h1) := hor.resolve_left hfit
    obtain ⟨q, h1', bs1, hk', hal⟩ := kmalloc_spec src hi hn
    obtain ⟨rfl, rfl⟩ : q = 0 ∧ h1' = h1 := by rw [hk] at hk'; cases hk'; exact ⟨rfl, rfl⟩
    refine ⟨0, h1', ?_, contract_of_failed hi hb hbf hal⟩
    rw [realloc, if_neg (by omega), if_neg hn, findBlock_data hi hb]
    simp only [if_neg hfree, hs, if_neg hfit, hk]
    rfl

/-! ## The exact condition -/

theorem mmAlignUp_ge_of_live {arch : Arch} {h : Heap} {bs : List Block} {b : Block} {n : Nat}
    (hi : HeapInv arch h bs) (hb : b ∈ bs) (hle : n ≤ b.size) : n ≤ mmAlignUp n := by
  have := hi.placed.inside b hb
  have hp : pmmPageSize = 4096 := rfl
  exact mmAlignUp_ge (by omega)

theorem k32Realloc_law_iff {arch : Arch} {src : PageSource} {h h1 : Heap} {bs bs1 : List Block}
    {b : Block} {n q : Nat} (hi : HeapInv arch h bs) (hb : b ∈ bs) (hbf : b.free = false)
    (hn32 : n < 2 ^ 32) (hq : q ≠ 0) (hk : kmalloc arch src n h = some (q, h1))
    (hal : Allocated arch (mmAlignUp n) h bs q h1 bs1) (hle : n ≤ b.size) :
    ReallocLaw arch (k32Realloc arch src) h (b.data arch) b.size n ↔
      ∀ i, i < n → h.mem (q + i) = h.mem (b.data arch + i) := by
  have hpos := b.data_pos arch
  have hround := mmAlignUp_ge_of_live hi hb hle
  obtain ⟨h', bs', hf, hfr⟩ := kfree_spec (b.data arch) hal.inv
  have hrun : k32Realloc arch src (b.data arch) n h = some (q, h') := by
    rw [k32Realloc, if_neg (by omega), u32_of_lt hn32, hk]
    simp only [if_pos hq, hf]
  -- the payload of the new block is as the memory held it before the call
  obtain ⟨nb, hqn, hnf, hsz, hnew, hu⟩ := hal.result.resolve_left fun hz => hq hz.1
  have hnb : nb ∈ bs1 := (hu nb hnf).mpr (.inl rfl)
  have hpay : ∀ i, i < n → h1.mem (q + i) = h.mem (q + i) := by
    intro i hlt
    rw [hqn]
    exact hal.payload hnb i (by omega)
  constructor
  · rintro ⟨q', h'', hrun', hc⟩ i hlt
    obtain ⟨rfl, rfl⟩ : q' = q ∧ h'' = h' := by rw [hrun] at hrun'; cases hrun'; exact ⟨rfl, rfl⟩
    obtain ⟨k, -, -, hbytes⟩ := hc.contents hq
    rw [← hbytes i (by omega), ← hpay i hlt]
    have hne : nb.data arch ≠ b.data arch := by
      intro heq
      have hb1 : b ∈ bs1 := (hu b hbf).mpr (.inr hb)
      have := hal.inv.placed.eq_of_addr hnb hb1 (by simp only [Block.data] at heq; omega)
      exact hnew (this ▸ hb)
    subst hqn
    exact (hfr.frame nb hnb hnf hne _ (range_data ⟨by omega, by omega⟩)).symm
  · intro hsame
    refine ⟨q, h', hrun, contract_of_moved hi hb hbf hal hq hal.inv (fun _ _ _ _ _ => rfl) hfr (by omega)
      (fun i hlt => ?_) ⟨[], by simpa using hal.copies, by simp⟩⟩
    rw [hpay i (by omega)]
    exact hsame i (by omega)

theorem kfree_copies {arch : Arch} {pointer : Nat} {h h' : Heap}
    (hf : kfree arch pointer h = some h') : h'.copies = h.copies := by
  rw [kfree] at hf
  split at hf
  · cases hf; rfl
  · split at hf
    · cases hf
    · cases hf; rfl
    · rw [mmCoalesce] at hf
      split at hf
      · cases hf
      · cases hf; rfl

theorem rtlReAllocateHeap_law_iff {arch : Arch} {src : PageSource} {h h1 : Heap} {bs bs1 : List Block}
    {b : Block} {n q : Nat} (hi : HeapInv arch h bs) (hb : b ∈ bs) (hbf : b.free = false) (hn : n ≠ 0)
    (hq : q ≠ 0) (hk : kmalloc arch src n h = some (q, h1))
    (hal : Allocated arch (mmAlignUp n) h bs q h1 bs1) :
    ReallocLaw arch (rtlReAllocateHeap arch src) h (b.data arch) b.size n ↔ n ≤ b.size := by
  have hpos := b.data_pos arch
  have hrun : rtlReAllocateHeap arch src (b.data arch) n h =
      match kfree arch (b.data arch) (memcpy q (b.data arch) n h1) with
      | none => none
      | some h => some (q, h) := by
    rw [rtlReAllocateHeap, hk]
    simp only [if_pos (show b.data arch ≠ 0 ∧ q ≠ 0 from ⟨by omega, hq⟩)]
  constructor
  · rintro ⟨q', h', hret, hc⟩
    rw [hrun] at hret
    cases hf : kfree arch (b.data arch) (memcpy q (b.data arch) n h1) with
    | none => rw [hf] at hret; cases hret
    | some h2 =>
      rw [hf] at hret
      cases hret
      obtain ⟨new, hnew, hin⟩ := hc.reads
      have hcopy : h'.copies = [⟨q, b.data arch, n⟩] ++ h.copies := by
        rw [kfree_copies hf]
        simp [memcpy, hal.copies]
      have hnew' : new = [⟨q, b.data arch, n⟩] := append_cancel_right (hnew.symm.trans hcopy)
      -- the last byte copied is read from inside the old block
      have := hin ⟨q, b.data arch, n⟩ (by simp [hnew']) (n - 1) (by show n - 1 < n; omega)
      simp only at this
      omega
  · intro hle
    have hround := mmAlignUp_ge_of_live hi hb hle
    obtain ⟨nb, rfl, hnf, hsz, hnew, hu⟩ := hal.result.resolve_left fun hz => hq hz.1
    have hnb : nb ∈ bs1 := (hu nb hnf).mpr (.inl rfl)
    have hi2 := memcpy_inv (b.data arch) hal.inv hnb (show n ≤ nb.size by omega)
    obtain ⟨h', bs', hf, hfr⟩ := kfree_spec (b.data arch) hi2
    have hdis : ∀ c ∈ bs, c.free = false → (c.range arch).Disjoint (nb.range arch) := by
      intro c hc hcf
      refine hal.inv.placed.disjoint_of_ne ((hu c hcf).mpr (.inr hc)) hnb ?_
      rintro rfl
      exact hnew hc
    refine ⟨nb.data arch, h', by rw [hrun, hf], contract_of_moved hi hb hbf hal hq hi2 ?_ hfr (by omega) ?_ ?_⟩
    · intro c hc hcf a ha
      have hd := hdis c hc hcf
      simp only [Range.Contains, Range.Disjoint, Block.range] at ha hd
      refine copyFwd_out ?_
      simp only [Block.data]
      omega
    · intro i hlt
      have hd := hdis b hb hbf
      simp only [Range.Disjoint, Block.range] at hd
      show copyFwd h1.mem (nb.data arch) (b.data arch) n (nb.data arch + i) = _
      rw [copyFwd_in (by simp only [Block.data]; omega) i (by omega)]
      exact hal.frame b hb hbf _ (range_data ⟨by omega, by omega⟩)
    · refine ⟨[⟨nb.data arch, b.data arch, n⟩], by simp [memcpy, hal.copies], fun c hc i hlt => ?_⟩
      obtain rfl := mem_singleton.mp hc
      simp only at hlt ⊢
      omega

/-- **When the three entry points keep the `realloc` contract**: exactly when `kmalloc` finds no
memory, or `n ≤ m` and the memory it finds already holds the first `n` bytes of `p`. -/
theorem realloc_law_iff {arch : Arch} {src : PageSource} {h : Heap} {bs : List Block} {p m : Nat}
    {n : UInt32} (hi : HeapInv arch h bs) (hlive : Live arch h p m) (hn : 0 < n.toNat) :
    (ReallocLaw arch (realloc arch src) h p m n.toNat ∧
      ReallocLaw arch (k32Realloc arch src) h p m n.toNat ∧
      ReallocLaw arch (rtlReAllocateHeap arch src) h p m n.toNat) ↔
    ∃ q h1, kmalloc arch src n.toNat h = some (q, h1) ∧
      (q = 0 ∨ (n.toNat ≤ m ∧ ∀ i, i < n.toNat → h.mem (q + i) = h.mem (p + i))) := by
  obtain ⟨b, hb, hbf, rfl, rfl⟩ := (live_iff hi).mp hlive
  have hn0 : n.toNat ≠ 0 := by omega
  have hpos := b.data_pos arch
  obtain ⟨q, h1, bs1, hk, hal⟩ := kmalloc_spec src hi hn0
  by_cases hq : q = 0
  · subst hq
    refine ⟨fun _ => ⟨0, h1, hk, .inl rfl⟩, fun _ => ⟨?_, ?_, ?_⟩⟩
    · exact realloc_law_of_fits_or_failed hi hb hbf hn0 (.inr ⟨h1, hk⟩)
    · refine ⟨0, h1, ?_, contract_of_failed hi hb hbf hal⟩
      rw [k32Realloc, if_neg (by omega), u32_of_lt n.toNat_lt, hk]
      rfl
    · refine ⟨0, h1, ?_, contract_of_failed hi hb hbf hal⟩
      rw [rtlReAllocateHeap, hk]
      simp
  · have hk32 := k32Realloc_law_iff hi hb hbf n.toNat_lt hq hk hal
    have hrtl := rtlReAllocateHeap_law_iff hi hb hbf hn0 hq hk hal
    constructor
    · rintro ⟨-, hk32', hrtl'⟩
      have hle := hrtl.mp hrtl'
      exact ⟨q, h1, hk, .inr ⟨hle, (hk32 hle).mp hk32'⟩⟩
    · rintro ⟨q', h1', hk', hor⟩
      obtain ⟨rfl, rfl⟩ : q' = q ∧ h1' = h1 := by rw [hk] at hk'; cases hk'; exact ⟨rfl, rfl⟩
      obtain ⟨hle, hsame⟩ := hor.resolve_left hq
      exact ⟨realloc_law_of_fits_or_failed hi hb hbf hn0 (.inl hle), (hk32 hle).mpr hsame, hrtl.mpr hle⟩

def oneBlock (mem : Mem) : Option Heap := heapStep .x86 oneRun (.kmalloc 32) (mmInitialize mem)

theorem oneBlock_live {mem : Mem} {h : Heap} (hrun : oneBlock mem = some h)
    (hlist : h.heapHead = 0x100000 ∧ blockNext .x86 h.mem 0x100000 = 0x10002C ∧
      blockNext .x86 h.mem 0x10002C = 0 ∧ blockFree h.mem 0x100000 = 0 ∧
      blockSize h.mem 0x100000 = 32) :
    (∃ bs, HeapInv .x86 h bs) ∧ Live .x86 h 0x10000C 32 := by
  obtain ⟨e0, e1, e2, e3, e4⟩ := hlist
  have hreach : Reachable .x86 oneRun (ReallocFits .x86) mem h :=
    @Reachable.step _ _ _ _ _ _ (.kmalloc 32) .init trivial hrun
  refine ⟨reachable_inv hreach, [0x100000, 0x10002C], 0x100000, ?_, by simp, by decide, e3, e4⟩
  simp [ListFrom, e0, e1, e2]

theorem realloc_law_shrink_zeroed :
    ∃ h, Live .x86 h 0x10000C 32 ∧ ReallocLaw .x86 (realloc .x86 oneRun) h 0x10000C 32 16 ∧
      ReallocLaw .x86 (k32Realloc .x86 oneRun) h 0x10000C 32 16 ∧
      ReallocLaw .x86 (rtlReAllocateHeap .x86 oneRun) h 0x10000C 32 16 := by
  have hval : (oneBlock fun _ => 0).map (fun h : Heap => decide ((h.heapHead = 0x100000 ∧
      blockNext .x86 h.mem 0x100000 = 0x10002C ∧ blockNext .x86 h.mem 0x10002C = 0 ∧
      blockFree h.mem 0x100000 = 0 ∧ blockSize h.mem 0x100000 = 32) ∧
      (kmalloc .x86 oneRun 16 h).map Prod.fst = some 0x100038 ∧
      (List.range 16).all fun i => h.mem (0x100038 + i) == h.mem (0x10000C + i))) = some true := by
    decide +kernel
  obtain ⟨h, hrun, hfacts⟩ := Option.map_eq_some_iff.mp hval
  obtain ⟨hlist, hk, hsame⟩ := of_decide_eq_true hfacts
  simp only [all_eq_true, mem_range, beq_iff_eq] at hsame
  obtain ⟨⟨bs, hi⟩, hlive⟩ := oneBlock_live hrun hlist
  obtain ⟨⟨q, h1⟩, hk, rfl⟩ := Option.map_eq_some_iff.mp hk
  exact ⟨h, hlive, (realloc_law_iff (n := 16) hi hlive (by decide)).mpr
    ⟨_, h1, hk, .inr ⟨by decide, hsame⟩⟩⟩

theorem k32Realloc_loses_contents :
    ∃ h bs, HeapInv .x86 h bs ∧ Live .x86 h 0x10000C 32 ∧
      ¬ ReallocLaw .x86 (k32Realloc .x86 oneRun) h 0x10000C 32 16 ∧
      ¬ ReallocLaw .x86 (rtlReAllocateHeap .x86 oneRun) h 0x10000C 32 64 := by
  have hval : (oneBlock fun a => if a = 0x10000C then 7 else 0).map (fun h : Heap =>
      decide ((h.heapHead = 0x100000 ∧ blockNext .x86 h.mem 0x100000 = 0x10002C ∧
        blockNext .x86 h.mem 0x10002C = 0 ∧ blockFree h.mem 0x100000 = 0 ∧
        blockSize h.mem 0x100000 = 32) ∧
      (kmalloc .x86 oneRun 16 h).map Prod.fst = some 0x100038 ∧
      (kmalloc .x86 oneRun 64 h).map Prod.fst = some 0x100038 ∧
      h.mem 0x100038 = 0 ∧ h.mem 0x10000C = 7)) = some true := by decide +kernel
  obtain ⟨h, hrun, hfacts⟩ := Option.map_eq_some_iff.mp hval
  obtain ⟨hlist, hk16, hk64, hnew, hold⟩ := of_decide_eq_true hfacts
  obtain ⟨⟨bs, hi⟩, hlive⟩ := oneBlock_live hrun hlist
  obtain ⟨b, hb, hbf, hbp, hbm⟩ := (live_iff hi).mp hlive
  refine ⟨h, bs, hi, hlive, fun hlaw => ?_, fun hlaw => ?_⟩
  · obtain ⟨q, h1, bs1, hk, hal⟩ := kmalloc_spec oneRun hi (show 16 ≠ 0 by decide)
    obtain rfl : q = 0x100038 := by rw [hk] at hk16; simpa using hk16
    rw [← hbp, ← hbm] at hlaw
    have := (k32Realloc_law_iff hi hb hbf (by decide) (by decide) hk hal (by omega)).mp hlaw 0 (by decide)
    rw [hbp, Nat.add_zero, Nat.add_zero, hnew, hold] at this
    exact absurd this (by decide)
  · obtain ⟨q, h1, bs1, hk, hal⟩ := kmalloc_spec oneRun hi (show 64 ≠ 0 by decide)
    obtain rfl : q = 0x100038 := by rw [hk] at hk64; simpa using hk64
    rw [← hbp, ← hbm] at hlaw
    have := (rtlReAllocateHeap_law_iff hi hb hbf (by decide) (by decide) hk hal).mp hlaw
    omega

end DiscouNT.Mm
