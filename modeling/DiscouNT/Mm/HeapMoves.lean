import DiscouNT.Mm.HeapSpec

/-!
# Mm.HeapMoves

What the heap does to its list, block by block.

A call makes `Move`s: it cuts a free block, puts the block of a new page run in front, or frees a
block and joins free neighbours. `kmallocRetry_fit`, `kmallocRetry_refused` and `kmallocRetry_grown`
say what a round of `kmalloc` does, and `kmalloc_moves` and `kfree_moves` that a call is a sequence
of moves, so what every move keeps is kept by every call.
-/

namespace DiscouNT.Mm

open Lib List

section Unique

variable {arch : Arch} {m : Mem} {head : Nat} {bs bs' : List Block}

theorem chain_unique (h : Chain arch m head bs) (h' : Chain arch m head bs') : bs = bs' := by
  induction bs generalizing head bs' with
  | nil =>
    cases bs' with
    | nil => rfl
    | cons b bs' => exact absurd (h'.1.symm.trans h) h'.2.1
  | cons b bs ih =>
    cases bs' with
    | nil => exact absurd (h.1.symm.trans h') h.2.1
    | cons b' bs' =>
      obtain ⟨rfl, -, hsize, hfree, hrest⟩ := h
      obtain ⟨haddr, -, hsize', hfree', hrest'⟩ := h'
      rw [← haddr] at hsize' hfree' hrest'
      have hb : b = b' := by
        cases b with
        | mk addr size free =>
          cases b' with
          | mk addr' size' free' =>
            obtain rfl : addr = addr' := haddr
            obtain rfl : size = size' := hsize.symm.trans hsize'
            obtain rfl : free = free' := Bool.eq_iff_iff.mpr (hfree.symm.trans hfree')
            rfl
      rw [hb, ih hrest hrest']

theorem HeapInv.unique {h : Heap} (hi : HeapInv arch h bs) (hi' : HeapInv arch h bs') : bs = bs' :=
  chain_unique hi.chain hi'.chain

end Unique

section Join

variable {arch : Arch} {b c : Block} {bs l r : List Block}

theorem joinOnto_head (arch : Arch) (b : Block) (r : List Block) :
    ∃ d rest, joinOnto arch b r = d :: rest ∧ d.addr = b.addr ∧ d.free = b.free := by
  induction r generalizing b with
  | nil => exact ⟨b, [], rfl, rfl, rfl⟩
  | cons c r ih =>
    rw [joinOnto]
    split
    · rename_i hmerge
      obtain ⟨d, rest, hd, haddr, hfree⟩ := ih ⟨b.addr, b.size + (sizeofHeapBlock arch + c.size), true⟩
      exact ⟨d, rest, hd, haddr, hfree.trans hmerge.1.symm⟩
    · exact ⟨b, _, rfl, rfl, rfl⟩

theorem joinOnto_forall {P : Block → Prop}
    (hmerge : ∀ b c, P b → P c → P ⟨b.addr, b.size + (sizeofHeapBlock arch + c.size), true⟩)
    (hb : P b) (hr : ∀ c ∈ r, P c) : ∀ d ∈ joinOnto arch b r, P d := by
  induction r generalizing b with
  | nil => simpa [joinOnto] using hb
  | cons c r ih =>
    have hc := hr c mem_cons_self
    have hrest : ∀ d ∈ r, P d := fun d hd => hr d (mem_cons_of_mem _ hd)
    rw [joinOnto]
    split
    · exact ih (hmerge b c hb hc) hrest
    · intro d hd
      rcases mem_cons.mp hd with rfl | hd
      · exact hb
      · exact ih hc hrest d hd

theorem joinFree_forall {P : Block → Prop}
    (hmerge : ∀ b c, P b → P c → P ⟨b.addr, b.size + (sizeofHeapBlock arch + c.size), true⟩)
    (hbs : ∀ b ∈ bs, P b) : ∀ d ∈ joinFree arch bs, P d := by
  cases bs with
  | nil => exact fun d hd => nomatch hd
  | cons b r =>
    exact joinOnto_forall hmerge (hbs b mem_cons_self)
      fun c hc => hbs c (mem_cons_of_mem _ hc)

def Apart (arch : Arch) (b c : Block) : Prop :=
  ¬ (b.free = true ∧ c.free = true ∧ b.data arch + b.size = c.addr)

theorem joinOnto_apart (arch : Arch) (b : Block) (r : List Block) :
    (joinOnto arch b r).IsChain (Apart arch) := by
  induction r generalizing b with
  | nil => exact isChain_singleton b
  | cons c r ih =>
    rw [joinOnto]
    split
    · exact ih _
    · rename_i hkeep
      obtain ⟨d, rest, hd, haddr, hfree⟩ := joinOnto_head arch c r
      have hrest := ih c
      rw [hd] at hrest ⊢
      refine isChain_cons_cons.mpr ⟨?_, hrest⟩
      unfold Apart
      rw [haddr, hfree]
      exact hkeep

theorem joinFree_apart (arch : Arch) (bs : List Block) :
    (joinFree arch bs).IsChain (Apart arch) := by
  cases bs with
  | nil => exact isChain_nil
  | cons b r => exact joinOnto_apart arch b r

end Join

inductive Move (arch : Arch) : List Block × List Range → List Block × List Range → Prop where
  | cut {l r : List Block} {b : Block} {size : Nat} {runs : List Range} : b.free = true →
      size ≤ b.size → size % mmAlign = 0 →
      Move arch (l ++ b :: r, runs) (l ++ (cut arch size b ++ r), runs)
  | grow {bs : List Block} {n : Block} {pages : Nat} {runs : List Range} : n.free = true →
      n.addr % pmmPageSize = 0 → n.range arch = ⟨n.addr, pages * pmmPageSize⟩ →
      (∀ b ∈ bs, (n.range arch).Disjoint (b.range arch)) →
      (∀ run ∈ runs, (n.range arch).Disjoint run) →
      Move arch (bs, runs) (n :: bs, n.range arch :: runs)
  | release {l r : List Block} {b : Block} {runs : List Range} :
      Move arch (l ++ b :: r, runs) (joinFree arch (l ++ ⟨b.addr, b.size, true⟩ :: r), runs)

def Moves (arch : Arch) (h : Heap) (bs : List Block) (h' : Heap) (bs' : List Block) : Prop :=
  Relation.ReflTransGen (Move arch) (bs, pageRuns h) (bs', pageRuns h')

section Rounds

variable {arch : Arch} {src : PageSource} {h h' : Heap} {bs bs' l r : List Block} {b c : Block}
  {size fuel q n pointer : Nat}

def Block.Fits (size : Nat) (b : Block) : Prop := b.free = true ∧ size ≤ b.size

theorem fits_iff (hi : HeapInv arch h bs) (hb : b ∈ bs) :
    fits h.mem size b.addr = true ↔ b.Fits size := by
  obtain ⟨l, r, rfl⟩ := append_of_mem hb
  obtain ⟨-, -, hsize, hfree, -⟩ := chain_drop hi.chain
  simp only [fits, Bool.and_eq_true, decide_eq_true_eq, hsize, Block.Fits]
  exact and_congr_left fun _ => hfree

theorem kmallocRetry_fit (hi : HeapInv arch h (l ++ b :: r)) (hl : ∀ c ∈ l, ¬ c.Fits size)
    (hb : b.Fits size) :
    kmallocRetry arch src size (fuel + 1) h = some (b.data arch,
        { h with mem := setFree (mmSplitBlock arch h.mem b.addr size) b.addr 0 }) ∧
      Allocated arch size h (l ++ b :: r) (b.data arch)
        { h with mem := setFree (mmSplitBlock arch h.mem b.addr size) b.addr 0 }
        (l ++ (cut arch size b ++ r)) := by
  have hmem : b ∈ l ++ b :: r := by simp
  have hfit := (fits_iff hi hmem).mpr hb
  have hal := allocated_of_fit hi hfit
  rw [hi.placed.blockData hmem] at hal
  refine ⟨?_, hal⟩
  rcases findBlock_spec (p := fits h.mem size) hi.chain hi.length_lt with
    ⟨-, hnone⟩ | ⟨l', b', r', heq, hfind, hne, hfit', hfirst⟩
  · rw [hnone b hmem] at hfit
    cases hfit
  · -- the block that is found is `b`, since no block in front of `b` fits
    have hb' : b' = b := by
      have hin : b' ∈ l ++ b :: r := by rw [heq]; simp
      have hbf := (fits_iff hi hin).mp hfit'
      rcases append_eq_append_iff.mp heq with ⟨k, rfl, hk⟩ | ⟨k, rfl, hk⟩
      · cases k with
        | nil => exact (List.cons.inj hk).1.symm
        | cons d k =>
          obtain rfl := (List.cons.inj hk).1
          rw [hfirst b (by simp)] at hfit
          cases hfit
      · cases k with
        | nil => exact (List.cons.inj hk).1
        | cons d k =>
          obtain rfl := (List.cons.inj hk).1
          exact absurd hbf (hl b' (by simp))
    subst hb'
    obtain ⟨k, hk⟩ : ∃ k, b'.addr = k + 1 := ⟨b'.addr - 1, by omega⟩
    rw [← hi.placed.blockData hmem]
    simp only [kmallocRetry, hfind, hk]

theorem findBlock_fits_none (hi : HeapInv arch h bs) (hno : ∀ c ∈ bs, ¬ c.Fits size) :
    findBlock arch h.mem (fits h.mem size) walkFuel h.heapHead = some 0 := by
  rcases findBlock_spec (p := fits h.mem size) hi.chain hi.length_lt with
    ⟨hfind, -⟩ | ⟨l, b, r, rfl, -, -, hfit, -⟩
  · exact hfind
  · exact absurd ((fits_iff hi (by simp)).mp hfit) (hno b (by simp))

theorem HeapInv.refused (hi : HeapInv arch h bs) (count : Nat) :
    HeapInv arch { h with vmmCalls := ⟨count, 0⟩ :: h.vmmCalls } bs := by
  have hruns : pageRuns { h with vmmCalls := ⟨count, 0⟩ :: h.vmmCalls } = pageRuns h := by
    simp [pageRuns]
  exact ⟨hi.init, hi.chain, fun a => by rw [hruns]; exact hi.cov a, hi.total,
    fun a => by rw [hruns]; exact hi.runs_once a, by rw [hruns]; exact hi.runs_in, hi.data_lt⟩

theorem kmallocRetry_refused (hi : HeapInv arch h bs) (hno : ∀ c ∈ bs, ¬ c.Fits size)
    (hanswer : src.answer h.vmmCalls (growPages arch size) = 0) :
    kmallocRetry arch src size (fuel + 1) h =
      some (0, { h with vmmCalls := ⟨growPages arch size, 0⟩ :: h.vmmCalls }) := by
  have hgrow : mmGrowHeap arch src size h =
      (0, { h with vmmCalls := ⟨growPages arch size, 0⟩ :: h.vmmCalls }) := by
    unfold mmGrowHeap
    unfold growPages at hanswer ⊢
    simp only at hanswer ⊢
    rw [hanswer, if_pos rfl]
  rw [kmallocRetry, findBlock_fits_none hi hno, hgrow]

theorem kmallocRetry_grown (hi : HeapInv arch h bs) (hno : ∀ c ∈ bs, ¬ c.Fits size)
    (hanswer : src.answer h.vmmCalls (growPages arch size) ≠ 0) :
    ∃ n h1, kmallocRetry arch src size (fuel + 1) h = kmallocRetry arch src size fuel h1 ∧
      n = ⟨src.answer h.vmmCalls (growPages arch size),
        growPages arch size * pmmPageSize - sizeofHeapBlock arch, true⟩ ∧
      HeapInv arch h1 (n :: bs) ∧ pageRuns h1 = n.range arch :: pageRuns h ∧
      Move arch (bs, pageRuns h) (n :: bs, pageRuns h1) := by
  have hH := sizeofHeapBlock_cases arch
  have hcalls : (mmGrowHeap arch src size h).2.vmmCalls =
      ⟨growPages arch size, src.answer h.vmmCalls (growPages arch size)⟩ :: h.vmmCalls ∧
      (mmGrowHeap arch src size h).1 = src.answer h.vmmCalls (growPages arch size) := by
    unfold mmGrowHeap
    unfold growPages at hanswer ⊢
    simp only at hanswer ⊢
    rw [if_neg hanswer]
    exact ⟨rfl, rfl⟩
  rcases grow_spec src hi size with ⟨h1, hg, -⟩ | ⟨n, h1, hg, hne, hnf, hsize, hi1, hlen, -, -⟩
  · rw [hg] at hcalls
    exact absurd hcalls.2.symm hanswer
  · rw [hg] at hcalls
    obtain ⟨hvmm, haddr⟩ := hcalls
    obtain ⟨hpages, -⟩ := grow_pages arch size
    have hrange : n.range arch = ⟨n.addr, growPages arch size * pmmPageSize⟩ := by
      have hle : 65536 ≤ growPages arch size * pmmPageSize := hpages
      simp only [Block.range, hsize, Range.mk.injEq, true_and]
      omega
    have hruns : pageRuns h1 = n.range arch :: pageRuns h := by
      simp only at hvmm haddr
      rw [hrange, haddr]
      simp [pageRuns, hvmm, hanswer, VmmCall.run]
    have hdisjoint : ∀ run ∈ pageRuns h, (n.range arch).Disjoint run := by
      intro run hrun
      obtain ⟨c, hc, rfl⟩ := mem_map.mp hrun
      obtain ⟨hc, hresult⟩ := mem_filter.mp hc
      rw [hrange, show n.addr = _ from haddr]
      exact src.fresh h.vmmCalls (growPages arch size) hanswer c hc (by simpa using hresult)
    refine ⟨n, h1, ?_, ?_, hi1, hruns, ?_⟩
    · obtain ⟨k, hk⟩ : ∃ k, n.addr = k + 1 := ⟨n.addr - 1, by omega⟩
      rw [kmallocRetry, findBlock_fits_none hi hno, hg, hk]
    · cases n
      simp only [Block.mk.injEq] at *
      exact ⟨haddr, hsize, hnf⟩
    · rw [hruns]
      refine .grow hnf ?_ hrange (fun b hb => ?_) hdisjoint
      · simp only at haddr
        rw [haddr]
        exact src.aligned ..
      · exact hi1.placed.disjoint (l := []) hb

theorem exists_first_fit (size : Nat) (bs : List Block) :
    (∀ c ∈ bs, ¬ c.Fits size) ∨
      ∃ l b r, bs = l ++ b :: r ∧ (∀ c ∈ l, ¬ c.Fits size) ∧ b.Fits size := by
  induction bs with
  | nil => exact .inl fun c hc => nomatch hc
  | cons d bs ih =>
    by_cases hd : d.Fits size
    · exact .inr ⟨[], d, bs, rfl, fun c hc => (nomatch hc), hd⟩
    · rcases ih with hno | ⟨l, b, r, rfl, hl, hb⟩
      · exact .inl (forall_mem_cons.mpr ⟨hd, hno⟩)
      · exact .inr ⟨d :: l, b, r, rfl, forall_mem_cons.mpr ⟨hd, hl⟩, hb⟩

theorem kmallocRetry_moves (hi : HeapInv arch h bs) (halign : size % mmAlign = 0)
    (hrun : kmallocRetry arch src size fuel h = some (q, h')) (hi' : HeapInv arch h' bs') :
    Moves arch h bs h' bs' := by
  induction fuel generalizing h bs with
  | zero => cases hrun
  | succ fuel ih =>
    rcases exists_first_fit size bs with hno | ⟨l, b, r, rfl, hl, hb⟩
    · by_cases hanswer : src.answer h.vmmCalls (growPages arch size) = 0
      · rw [kmallocRetry_refused hi hno hanswer] at hrun
        cases hrun
        obtain rfl := chain_unique hi'.chain hi.chain
        have hruns : pageRuns { h with vmmCalls := ⟨growPages arch size, 0⟩ :: h.vmmCalls } =
            pageRuns h := by simp [pageRuns]
        rw [Moves, hruns]
      · obtain ⟨n, h1, heq, -, hi1, -, hmove⟩ := kmallocRetry_grown hi hno hanswer
        rw [heq] at hrun
        exact .head hmove (ih hi1 hrun)
    · obtain ⟨heq, hal⟩ := kmallocRetry_fit hi hl hb
      rw [heq] at hrun
      cases hrun
      obtain rfl := hi'.unique hal.inv
      exact .single (.cut hb.1 hb.2 halign)

theorem mmAlignUp_mod (n : Nat) : mmAlignUp n % mmAlign = 0 := by
  simp only [mmAlignUp, mmAlign]
  omega

theorem kmalloc_moves (hi : HeapInv arch h bs) (hrun : kmalloc arch src n h = some (q, h'))
    (hi' : HeapInv arch h' bs') : Moves arch h bs h' bs' := by
  unfold kmalloc at hrun
  split at hrun
  · cases hrun
    obtain rfl := hi'.unique hi
    exact .refl
  · exact kmallocRetry_moves hi (mmAlignUp_mod n) hrun hi'

theorem kfree_moves (hi : HeapInv arch h bs) (hrun : kfree arch pointer h = some h')
    (hi' : HeapInv arch h' bs') : Moves arch h bs h' bs' := by
  obtain ⟨h1, bs1, hrun1, hfreed, hstory⟩ := kfree_story pointer hi
  obtain rfl : h1 = h' := Option.some.inj (hrun1.symm.trans hrun)
  obtain rfl := hi'.unique hfreed.inv
  rcases hstory with ⟨rfl, rfl, -⟩ | ⟨l, b, r, rfl, -, hcalls, rfl⟩
  · exact .refl
  · have hruns : pageRuns h1 = pageRuns h := by rw [pageRuns, pageRuns, hcalls]
    rw [Moves, hruns]
    exact .single .release

end Rounds

end DiscouNT.Mm
