import DiscouNT.Mm.HeapRuns
import DiscouNT.Mm.PmmInv

/-!
# Mm.Vmm

`VmmAllocatePages` passes its requests on to the page allocator. This makes the allocator a
`PageSource`: its answer to a call is what it returns after the earlier calls were replayed on it.
What is proved of the heap over any `PageSource` and of the allocator over any run then holds of the
two together.
-/

namespace DiscouNT.Mm

open Lib List

def vmmAllocatePages (arch : Arch) (count : UInt32) (s : Pmm) : Nat × Pmm :=
  pmmAllocatePages arch count.toNat s

/-- The allocator after the calls (latest first), if it answers each as recorded. -/
def replay (arch : Arch) (s₀ : Pmm) : List VmmCall → Option Pmm
  | [] => some s₀
  | c :: calls =>
    match replay arch s₀ calls with
    | none => none
    | some s =>
      if c.count < 2 ^ 32 ∧ (vmmAllocatePages arch (UInt32.ofNat c.count) s).1 = c.result then
        some (vmmAllocatePages arch (UInt32.ofNat c.count) s).2
      else none

def handedOut (calls : List VmmCall) : List (Nat × Nat) :=
  (calls.filter fun c => decide (c.result ≠ 0)).map fun c => (c.result, c.count)

theorem vmmAllocatePages_reach {arch : Arch} {s₀ s : Pmm} {out : List (Nat × Nat)} {count : Nat}
    (hc : count < 2 ^ 32) (hr : PmmReach arch s₀ s out)
    (h : (vmmAllocatePages arch (UInt32.ofNat count) s).1 ≠ 0) :
    PmmReach arch s₀ (vmmAllocatePages arch (UInt32.ofNat count) s).2
      (((vmmAllocatePages arch (UInt32.ofNat count) s).1, count) :: out) := by
  have hcount : (UInt32.ofNat count).toNat = count := UInt32.toNat_ofNat_of_lt' hc
  have hstep : PmmReach arch s₀ (vmmAllocatePages arch (UInt32.ofNat count) s).2
      (((vmmAllocatePages arch (UInt32.ofNat count) s).1, (UInt32.ofNat count).toNat) :: out) :=
    .allocated hr rfl h
  rw [hcount] at hstep
  exact hstep

theorem replay_reach {arch : Arch} {s₀ : Pmm} : ∀ {calls : List VmmCall} {s : Pmm},
    replay arch s₀ calls = some s → PmmReach arch s₀ s (handedOut calls) := by
  intro calls
  induction calls with
  | nil => intro s h; cases h; exact .init
  | cons c calls ih =>
    intro s' h
    rw [replay] at h
    split at h
    · cases h
    · rename_i s hs
      split at h
      · rename_i hc
        obtain rfl := Option.some.inj h
        have hr := ih hs
        by_cases h0 : c.result = 0
        · have hout : handedOut (c :: calls) = handedOut calls := by simp [handedOut, h0]
          rw [hout]
          exact .failed hr (Prod.ext (hc.2.trans h0) rfl)
        · have hout : handedOut (c :: calls) = (c.result, c.count) :: handedOut calls := by
            simp [handedOut, h0]
          have hstep := vmmAllocatePages_reach hc.1 hr (by rw [hc.2]; exact h0)
          rw [hc.2] at hstep
          rw [hout]
          exact hstep
      · cases h

section Source

variable {arch : Arch} {s₀ : Pmm} (hi : PmmInv s₀) (hpos : 0 < s₀.searchHint)
  (hle : s₀.searchHint ≤ pmmMaxPages)

/-- The answer to a call after earlier ones; 0 for a history the allocator does not produce. -/
def vmmAnswer (arch : Arch) (s₀ : Pmm) (calls : List VmmCall) (count : Nat) : Nat :=
  match replay arch s₀ calls with
  | none => 0
  | some s =>
    if count < 2 ^ 32 then (vmmAllocatePages arch (UInt32.ofNat count) s).1 else 0

include hi hpos hle in
theorem vmmAnswer_balance {calls : List VmmCall} {count : Nat}
    (h : vmmAnswer arch s₀ calls count ≠ 0) :
    ∃ s, PmmBalance s₀ s ((vmmAnswer arch s₀ calls count, count) :: handedOut calls) := by
  have hbal : ∀ {s out}, PmmReach arch s₀ s out → PmmBalance s₀ s out :=
    fun hr => pmmReach_balance hi hpos hle hr
  unfold vmmAnswer at h ⊢
  split
  · simp_all
  · rename_i s hs
    simp only [hs] at h
    split
    · rename_i hc
      rw [if_pos hc] at h
      exact ⟨_, hbal (vmmAllocatePages_reach hc (replay_reach hs) h)⟩
    · rename_i hc
      rw [if_neg hc] at h
      exact absurd rfl h

theorem range_disjoint_of_pages {a b n k : Nat}
    (h : (pageRange (a * pageSize, n)).Disjoint (pageRange (b * pageSize, k))) :
    (⟨a * pageSize, n * pmmPageSize⟩ : Range).Disjoint ⟨b * pageSize, k * pmmPageSize⟩ := by
  have hp : pageSize = 4096 := rfl
  have hp' : pmmPageSize = 4096 := rfl
  simp only [Range.Disjoint, pageRange, hp, hp'] at h ⊢
  omega

/-- The page allocator, from a state `PmmInitialize` leaves behind, as the heap's page source. -/
def vmmSource (arch : Arch) : PageSource where
  answer := vmmAnswer arch s₀
  aligned := by
    intro calls count
    by_cases h : vmmAnswer arch s₀ calls count = 0
    · rw [h]; rfl
    · obtain ⟨s, hb⟩ := vmmAnswer_balance hi hpos hle h
      obtain ⟨start, hstart, _⟩ := hb.shape _ mem_cons_self
      rw [show vmmAnswer arch s₀ calls count = start * pageSize from hstart]
      exact Nat.mul_mod_left _ _
  below := by
    intro calls count h
    obtain ⟨s, hb⟩ := vmmAnswer_balance hi hpos hle h
    obtain ⟨start, hstart, _, _, hlim⟩ := hb.shape _ mem_cons_self
    have hmax := hb.inv.limit_le
    have h1 : pageSize = 4096 := rfl
    have h2 : pmmPageSize = 4096 := rfl
    have h3 : pmmMaxPages = 1048576 := rfl
    simp only at hstart hlim
    rw [hstart, h1, h2]
    omega
  fresh := by
    intro calls count h c hc hc0
    obtain ⟨s, hb⟩ := vmmAnswer_balance hi hpos hle h
    have hmem : (c.result, c.count) ∈ handedOut calls :=
      mem_map.mpr ⟨c, mem_filter.mpr ⟨hc, decide_eq_true hc0⟩, rfl⟩
    obtain ⟨a, ha, _, hcount, _⟩ := hb.shape _ mem_cons_self
    obtain ⟨b, hb', _, hcount', _⟩ := hb.shape _ (mem_cons_of_mem _ hmem)
    simp only at ha hb'
    have honce : ∀ p, cover (((vmmAnswer arch s₀ calls count, count) ::
        handedOut calls).map pageRange) p ≤ 1 := by
      intro p
      have h1 := hb.balance p
      have h2 : clear s₀ p ≤ 1 := Bool.toNat_le _
      omega
    have hd := disjoint_of_cover_le_one (l := []) honce
      (mem_map_of_mem hmem) hcount hcount'
    rw [ha, hb'] at hd
    simp only [VmmCall.run, ha, hb']
    exact range_disjoint_of_pages hd

end Source

section Calls

variable {arch : Arch} {src : PageSource} {P : List VmmCall → Prop}

theorem kfree_calls {pointer : Nat} {h h' : Heap} (hf : kfree arch pointer h = some h') :
    h'.vmmCalls = h.vmmCalls := by
  rw [kfree] at hf
  split at hf
  · cases hf; rfl
  · split at hf
    · cases hf
    · cases hf; rfl
    · rw [mmCoalesce] at hf
      split at hf
      · cases hf
      · cases hf; rfl

variable (hP : ∀ calls count, count < 2 ^ 32 → P calls →
  P (⟨count, src.answer calls count⟩ :: calls))
include hP

theorem mmGrowHeap_calls (size : Nat) {h : Heap} (hc : P h.vmmCalls) : P (mmGrowHeap arch src size h).2.vmmCalls := by
  have hpages := (grow_pages arch size).2
  have hp : pmmPageSize = 4096 := rfl
  unfold mmGrowHeap
  simp only at hpages ⊢
  generalize (if _ < mmHeapGrowPages then mmHeapGrowPages else _) = pages at hpages ⊢
  have hstep := hP h.vmmCalls pages (by rw [hp] at hpages; omega) hc
  split <;> exact hstep

theorem kmallocRetry_calls {size : Nat} : ∀ {fuel : Nat} {h h' : Heap} {q : Nat}, P h.vmmCalls →
      kmallocRetry arch src size fuel h = some (q, h') → P h'.vmmCalls := by
  intro fuel
  induction fuel with
  | zero => intro h h' q _ hk; cases hk
  | succ fuel ih =>
    intro h h' q hc hk
    rw [kmallocRetry] at hk
    split at hk
    · cases hk
    · have hgrow : P (mmGrowHeap arch src size h).2.vmmCalls := mmGrowHeap_calls hP size hc
      split at hk
      · rename_i heq
        cases hk
        rw [heq] at hgrow
        exact hgrow
      · rename_i heq
        rw [heq] at hgrow
        exact ih hgrow hk
    · cases hk; exact hc

theorem kmalloc_calls {size q : Nat} {h h' : Heap} (hc : P h.vmmCalls)
    (hk : kmalloc arch src size h = some (q, h')) : P h'.vmmCalls := by
  unfold kmalloc at hk
  split at hk
  · cases hk; exact hc
  · exact kmallocRetry_calls hP hc hk

theorem realloc_calls {pointer size q : Nat} {h h' : Heap} (hc : P h.vmmCalls)
    (hk : realloc arch src pointer size h = some (q, h')) : P h'.vmmCalls := by
  unfold realloc at hk
  split at hk
  · exact kmalloc_calls hP hc hk
  · split at hk
    · split at hk
      · cases hk
      · rename_i hf
        cases hk
        rw [kfree_calls hf]
        exact hc
    · split at hk
      · cases hk
      · split at hk
        · cases hk; exact hc
        · split at hk
          · cases hk; exact hc
          · split at hk
            · cases hk
            · rename_i hm
              have hc' := kmalloc_calls hP hc hm
              split at hk
              · cases hk; exact hc'
              · simp only at hk
                split at hk
                · cases hk
                · rename_i hf
                  cases hk
                  rw [kfree_calls hf]
                  exact hc'

theorem heapStep_calls {op : HeapOp} {h h' : Heap} (hc : P h.vmmCalls) (hstep : heapStep arch src op h = some h') :
    P h'.vmmCalls := by
  cases op with
  | kmalloc size =>
    obtain ⟨⟨q, h''⟩, hk, rfl⟩ := Option.map_eq_some_iff.mp hstep
    exact kmalloc_calls hP hc hk
  | kfree pointer =>
    rw [kfree_calls hstep]
    exact hc
  | realloc pointer size =>
    obtain ⟨⟨q, h''⟩, hk, rfl⟩ := Option.map_eq_some_iff.mp hstep
    exact realloc_calls hP hc hk

end Calls

section Pages

variable {out : List (Nat × Nat)} {s₀ s : Pmm}

theorem pageRuns_eq (h : Heap) :
    pageRuns h = (handedOut h.vmmCalls).map fun r => ⟨r.1, r.2 * pageSize⟩ := by
  rw [pageRuns, handedOut, map_map]
  rfl

theorem cover_runs (hs : ∀ r ∈ out, ∃ start, r.1 = start * pageSize) (a : Nat) :
    cover (out.map fun r => ⟨r.1, r.2 * pageSize⟩) a = cover (out.map pageRange) (a / pageSize) := by
  have hp : pageSize = 4096 := rfl
  rw [cover, cover, countP_map, countP_map]
  refine countP_congr fun r hr => ?_
  obtain ⟨start, hstart⟩ := hs r hr
  simp only [Function.comp_apply, decide_eq_true_eq, Range.Contains, pageRange, hstart, hp]
  omega

theorem totalLen_runs (out : List (Nat × Nat)) :
    totalLen (out.map fun r => ⟨r.1, r.2 * pageSize⟩) = totalLen (out.map pageRange) * pageSize := by
  induction out with
  | nil => rfl
  | cons r out ih =>
    rw [map_cons, map_cons, totalLen_cons, totalLen_cons, ih, Nat.add_mul]
    rfl

theorem clearBelow_eq_sum (s : Pmm) (n : Nat) :
    Bitmap.clearBelow s.pageBitmap n = ∑ p ∈ Finset.Ico 0 n, clear s p := by
  induction n with
  | zero => rfl
  | succ n ih =>
    rw [Finset.sum_Ico_succ_top (Nat.zero_le n), ← ih, Bitmap.clearBelow, range_succ, countP_append,
      Bitmap.clearBelow, countP_singleton, clear, pmmPageUsed]
    cases Bitmap.test s.pageBitmap n <;> rfl

theorem PmmBalance.total (hi : PmmInv s₀) (hb : PmmBalance s₀ s out) :
    totalLen (out.map pageRange) + s.freePages = s₀.freePages := by
  have hin : ∀ r ∈ out.map pageRange, 0 ≤ r.base ∧ r.base + r.len ≤ s₀.pageLimit := by
    intro r hr
    obtain ⟨r', hr', rfl⟩ := mem_map.mp hr
    obtain ⟨start, hstart, -, -, hle⟩ := hb.shape r' hr'
    have hp : pageSize = 4096 := rfl
    have hlimit := hb.limit
    simp only [pageRange, hstart, hp]
    omega
  rw [hb.inv.counted, hi.counted, hb.limit, ← sum_cover hin, clearBelow_eq_sum, clearBelow_eq_sum,
    ← Finset.sum_add_distrib]
  exact Finset.sum_congr rfl fun p _ => hb.balance p

end Pages

end DiscouNT.Mm
