import DiscouNT.Mm.HeapRuns

/-!
# Mm.Alignment

Whether the pointers of `kmalloc` are multiples of `MM_ALIGN`.
-/

namespace DiscouNT.Mm

open Lib List

/-- Calls of `kmalloc` and `kfree`. -/
def NoRealloc : HeapOp → Heap → Prop
  | .realloc .., _ => False
  | _, _ => True

/-- In every sequence of `kmalloc` and `kfree`, every pointer that is returned is a multiple of
`MM_ALIGN`. -/
def AllAligned (arch : Arch) (src : PageSource) (mem : Mem) : Prop :=
  ∀ h, Reachable arch src NoRealloc mem h → ∀ (size : UInt32) q h',
    kmalloc arch src size.toNat h = some (q, h') → q ≠ 0 → q % mmAlign = 0

def HeapCount (count : Nat) : Prop := mmHeapGrowPages ≤ count ∧ count < 2 ^ 20

def Refuses (src : PageSource) : Prop :=
  ∀ (counts : List Nat) (count : Nat), (∀ c ∈ counts, HeapCount c) → HeapCount count →
    src.answer (counts.map fun c => ⟨c, 0⟩) count = 0

def Aligned (bs : List Block) : Prop := ∀ b ∈ bs, b.addr % mmAlign = 0 ∧ b.size % mmAlign = 0

section Aligned

variable {arch : Arch} {src : PageSource} {mem : Mem} {h h' : Heap} {bs bs' l r : List Block}
  {b : Block} {size q : Nat} {s s' : List Block × List Range}

theorem cut_aligned (hheader : sizeofHeapBlock arch = 16) (hsize : size % mmAlign = 0)
    (hb : b.addr % mmAlign = 0 ∧ b.size % mmAlign = 0) : Aligned (cut arch size b) := by
  unfold cut
  split
  · simpa [Aligned] using hb
  · simp only [Aligned, forall_mem_cons, not_mem_nil, false_implies, implies_true, and_true,
      Block.data, hheader, mmAlign, mmSplitMin] at *
    omega

theorem Move.aligned (hheader : sizeofHeapBlock arch = 16) (hmove : Move arch s s')
    (ha : Aligned s.1) : Aligned s'.1 := by
  cases hmove with
  | @cut l r b size runs hfree hle hsize =>
    have hb := ha b (by simp)
    intro c hc
    rcases mem_append.mp hc with hc | hc
    · exact ha c (by simp [hc])
    rcases mem_append.mp hc with hc | hc
    · exact cut_aligned hheader hsize hb c hc
    · exact ha c (by simp [hc])
  | @grow bs n pages runs hfree haddr hrange hold hruns =>
    refine forall_mem_cons.mpr ⟨?_, ha⟩
    simp only [Block.range, Range.mk.injEq, true_and, hheader, mmAlign, pmmPageSize] at *
    omega
  | @release l r b runs =>
    refine joinFree_forall (fun b c hb hc => ?_) fun c hc => ?_
    · simp only [hheader, mmAlign] at *
      omega
    · have hb := ha b (by simp)
      rcases mem_append.mp hc with hc | hc
      · exact ha c (by simp [hc])
      rcases mem_cons.mp hc with rfl | hc
      · exact hb
      · exact ha c (by simp [hc])

theorem aligned_of_moves (hheader : sizeofHeapBlock arch = 16) (hmoves : Moves arch h bs h' bs')
    (ha : Aligned bs) : Aligned bs' := by
  unfold Moves at hmoves
  generalize hs : (bs', pageRuns h') = s at hmoves
  have hend : Aligned s.1 := by
    clear hs
    induction hmoves with
    | refl => exact ha
    | tail _ hmove ih => exact hmove.aligned hheader ih
  rw [← hs] at hend
  exact hend

theorem noRealloc_reachable (hr : Reachable arch src NoRealloc mem h) :
    Reachable arch src (ReallocFits arch) mem h := by
  induction hr with
  | init => exact .init
  | @step h h' op _ hok hstep ih =>
    refine .step ih ?_ hstep
    cases op with
    | realloc => exact hok.elim
    | kmalloc => trivial
    | kfree => trivial

theorem aligned_of_header (hheader : sizeofHeapBlock arch = 16) : AllAligned arch src mem := by
  intro h hr size q h' hrun hq
  obtain ⟨bs, hi, hmoves⟩ := reachable_moves (noRealloc_reachable hr)
  have ha : Aligned bs := aligned_of_moves hheader hmoves fun b hb => nomatch hb
  have hsize : size.toNat ≠ 0 := by
    intro hzero
    rw [kmalloc, if_pos (.inl hzero)] at hrun
    cases hrun
    exact hq rfl
  obtain ⟨q', h'', bs', hrun', hal⟩ := kmalloc_spec src hi hsize
  obtain ⟨rfl, rfl⟩ : q' = q ∧ h'' = h' := by
    rw [hrun'] at hrun
    cases hrun
    exact ⟨rfl, rfl⟩
  rcases hal.result with ⟨hzero, -⟩ | ⟨n, rfl, hnf, -, -, hused⟩
  · exact absurd hzero hq
  have hn : n ∈ bs' := (hused n hnf).mpr (.inl rfl)
  have han := aligned_of_moves hheader (kmalloc_moves hi hrun hal.inv) ha n hn
  simp only [Block.data, hheader, mmAlign] at han ⊢
  omega

end Aligned

section Empty

variable {arch : Arch} {src : PageSource} {mem : Mem} {h h' : Heap} {size q count : Nat}

theorem heapCount_growPages (arch : Arch) (size : Nat) : HeapCount (growPages arch size) := by
  obtain ⟨hlow, hhigh⟩ := grow_pages arch size
  unfold HeapCount growPages
  simp only [pmmPageSize, mmHeapGrowPages] at *
  omega

theorem kmalloc_empty_refused (hi : HeapInv arch h []) (hsize : size ≠ 0)
    (hanswer : src.answer h.vmmCalls (growPages arch (mmAlignUp size)) = 0) :
    kmalloc arch src size h = some (0, { h with
      vmmCalls := ⟨growPages arch (mmAlignUp size), 0⟩ :: h.vmmCalls }) := by
  obtain ⟨f, hfuel⟩ : ∃ f, walkFuel = f + 1 := ⟨2 ^ 32 - 1, rfl⟩
  rw [kmalloc, if_neg (by simp [hsize, hi.init]), hfuel]
  exact kmallocRetry_refused hi (by simp) hanswer

theorem empty_of_refuses (hrefuses : Refuses src) (hr : Reachable arch src NoRealloc mem h) :
    HeapInv arch h [] ∧
      ∃ counts : List Nat, (∀ c ∈ counts, HeapCount c) ∧
        h.vmmCalls = counts.map fun c => ⟨c, 0⟩ := by
  induction hr with
  | init => exact ⟨mmInitialize_inv arch mem, [], fun c hc => (nomatch hc), rfl⟩
  | @step h h' op hr hok hstep ih =>
    obtain ⟨hi, counts, hcounts, hcalls⟩ := ih
    cases op with
    | kmalloc size =>
      obtain ⟨⟨q, h''⟩, hrun, rfl⟩ := Option.map_eq_some_iff.mp hstep
      by_cases hsize : size.toNat = 0
      · rw [kmalloc, if_pos (.inl hsize)] at hrun
        cases hrun
        exact ⟨hi, counts, hcounts, hcalls⟩
      have hcount := heapCount_growPages arch (mmAlignUp size.toNat)
      rw [kmalloc_empty_refused hi hsize (by
        rw [hcalls]
        exact hrefuses _ _ hcounts hcount)] at hrun
      cases hrun
      exact ⟨hi.refused _, growPages arch (mmAlignUp size.toNat) :: counts,
        forall_mem_cons.mpr ⟨hcount, hcounts⟩, by rw [hcalls]; rfl⟩
    | kfree pointer =>
      obtain ⟨h'', bs, hrun, -, hstory⟩ := kfree_story pointer hi
      obtain rfl : h'' = h' := Option.some.inj (hrun.symm.trans hstep)
      rcases hstory with ⟨rfl, -, -⟩ | ⟨l, b, r, hnil, -⟩
      · exact ⟨hi, counts, hcounts, hcalls⟩
      · cases l <;> cases hnil
    | realloc => exact hok.elim

def requestFor (count : Nat) : Nat := count * pmmPageSize - 16

theorem requestFor_spec (hcount : HeapCount count) :
    requestFor count ≠ 0 ∧ requestFor count < 2 ^ 32 ∧
      mmAlignUp (requestFor count) = requestFor count ∧
      growPages .x86 (requestFor count) = count := by
  obtain ⟨hlow, hhigh⟩ := hcount
  have hheader : sizeofHeapBlock .x86 = 12 := rfl
  unfold requestFor mmAlignUp growPages
  simp only [hheader, mmAlign, pmmPageSize, mmHeapGrowPages, u32] at *
  refine ⟨by omega, by omega, by omega, ?_⟩
  rw [if_neg (by omega)]
  omega

theorem kmalloc_empty_granted (hi : HeapInv .x86 h []) (hcount : HeapCount count)
    (hanswer : src.answer h.vmmCalls count ≠ 0) :
    ∃ h', kmalloc .x86 src (requestFor count) h = some (src.answer h.vmmCalls count + 12, h') := by
  obtain ⟨hne, hlt, halign, hpages⟩ := requestFor_spec hcount
  obtain ⟨f, hfuel⟩ : ∃ f, walkFuel = f + 1 + 1 := ⟨2 ^ 32 - 2, rfl⟩
  obtain ⟨n, h1, heq, hn, hi1, -, -⟩ := @kmallocRetry_grown .x86 src h [] (requestFor count) (f + 1) hi
    (fun c hc => nomatch hc) (by rw [hpages]; exact hanswer)
  have hfits : n.Fits (requestFor count) := by
    have hheader : sizeofHeapBlock .x86 = 12 := rfl
    rw [hn, hpages]
    refine ⟨rfl, ?_⟩
    simp only [requestFor, hheader]
    omega
  obtain ⟨hrun, -⟩ := @kmallocRetry_fit .x86 src h1 [] [] n (requestFor count) f hi1
    (fun c hc => nomatch hc) hfits
  have hdata : n.data .x86 = src.answer h.vmmCalls count + 12 := by
    rw [hn, hpages]
    rfl
  rw [kmalloc, if_neg (by simp [hne, hi.init]), halign, hfuel, heq, hrun, hdata]
  exact ⟨_, rfl⟩

theorem refused_of_aligned (hall : AllAligned .x86 src mem)
    (hr : Reachable .x86 src NoRealloc mem h) (hi : HeapInv .x86 h []) (hcount : HeapCount count) :
    src.answer h.vmmCalls count = 0 := by
  by_contra hanswer
  obtain ⟨h', hrun⟩ := kmalloc_empty_granted hi hcount hanswer
  have hlt := (requestFor_spec hcount).2.1
  have haligned := src.aligned h.vmmCalls count
  have hmod := hall h hr (UInt32.ofNat (requestFor count)) _ h'
    (by rw [UInt32.toNat_ofNat_of_lt' hlt]; exact hrun) (by omega)
  simp only [pmmPageSize, mmAlign] at haligned hmod
  omega

theorem reachable_refused (hall : AllAligned .x86 src mem) {counts : List Nat}
    (hcounts : ∀ c ∈ counts, HeapCount c) :
    ∃ h, Reachable .x86 src NoRealloc mem h ∧ HeapInv .x86 h [] ∧
      h.vmmCalls = counts.map fun c => ⟨c, 0⟩ := by
  induction counts with
  | nil => exact ⟨_, .init, mmInitialize_inv .x86 mem, rfl⟩
  | cons c counts ih =>
    obtain ⟨hc, hrest⟩ := forall_mem_cons.mp hcounts
    obtain ⟨h, hr, hi, hcalls⟩ := ih hrest
    have hanswer := refused_of_aligned hall hr hi hc
    obtain ⟨hne, hlt, halign, hpages⟩ := requestFor_spec hc
    have hrun := @kmalloc_empty_refused .x86 src h (requestFor c) hi hne
      (by rw [halign, hpages]; exact hanswer)
    rw [halign, hpages] at hrun
    have hstep : heapStep .x86 src (.kmalloc (UInt32.ofNat (requestFor c))) h =
        some { h with vmmCalls := ⟨c, 0⟩ :: h.vmmCalls } := by
      rw [heapStep, UInt32.toNat_ofNat_of_lt' hlt, hrun]
      rfl
    have hok : NoRealloc (.kmalloc (UInt32.ofNat (requestFor c))) h := trivial
    exact ⟨_, .step hr hok hstep, hi.refused c, by rw [hcalls]; rfl⟩

end Empty

/-- Pointers are aligned exactly where the header has 16 bytes, or where there is never any memory
to hand out. -/
theorem pointers_aligned_iff (arch : Arch) (src : PageSource) (mem : Mem) :
    AllAligned arch src mem ↔ sizeofHeapBlock arch = 16 ∨ Refuses src := by
  constructor
  · intro hall
    cases arch with
    | amd64 => exact .inl rfl
    | loongarch64 => exact .inl rfl
    | x86 =>
      right
      intro counts count hcounts hcount
      obtain ⟨h, hr, hi, hcalls⟩ := reachable_refused hall hcounts
      rw [← hcalls]
      exact refused_of_aligned hall hr hi hcount
  · rintro (hheader | hrefuses)
    · exact aligned_of_header hheader
    · intro h hr size q h' hrun hq
      obtain ⟨hi, counts, hcounts, hcalls⟩ := empty_of_refuses hrefuses hr
      have hzero : q = 0 := by
        by_cases hsize : size.toNat = 0
        · rw [kmalloc, if_pos (.inl hsize)] at hrun
          cases hrun
          rfl
        · rw [kmalloc_empty_refused hi hsize (by
            rw [hcalls]
            exact hrefuses _ _ hcounts (heapCount_growPages ..))] at hrun
          cases hrun
          rfl
      exact absurd hzero hq

/-- The first pointer on i386. -/
theorem pointer_misaligned : ¬ AllAligned .x86 oneRun fun _ => 0 := by
  intro hall
  have hval : (kmalloc .x86 oneRun 32 (mmInitialize fun _ => 0)).map Prod.fst = some 0x10000C := by
    decide +kernel
  obtain ⟨⟨q, h'⟩, hrun, rfl⟩ := Option.map_eq_some_iff.mp hval
  exact absurd (hall _ .init 32 _ h' hrun (by decide)) (by decide)

end DiscouNT.Mm
