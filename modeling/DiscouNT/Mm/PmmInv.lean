import DiscouNT.Mm.Pmm

/-!
# Mm.PmmInv

The page allocator over whole runs. `PmmInv` ties the counter to the bitmap. `PmmBalance` says what
a run has done to it: a page is clear now, or covered by exactly one outstanding allocation, if and
only if it was clear after `PmmInitialize`. Disjointness of the allocations, the safety of page 0
and of the boot data, and the counter after all pages came back are read off that one equation.
-/

namespace DiscouNT.Mm

open Lib List

/-- The counter counts the clear bits below the limit, and all other bits are set. -/
structure PmmInv (s : Pmm) : Prop where
  counted : s.freePages = Bitmap.clearBelow s.pageBitmap s.pageLimit
  above : ∀ p, s.pageLimit ≤ p → p < pmmMaxPages → pmmPageUsed p s = true
  limit_le : s.pageLimit ≤ pmmMaxPages

@[simp] theorem pmmSetPage_limit (p : Nat) (v : Bool) (s : Pmm) :
    (pmmSetPage p v s).pageLimit = s.pageLimit := by
  unfold pmmSetPage; split <;> rfl

@[simp] theorem pmmSetPage_hint (p : Nat) (v : Bool) (s : Pmm) :
    (pmmSetPage p v s).searchHint = s.searchHint := by
  unfold pmmSetPage; split <;> rfl

theorem pmmSetPage_used (p q : Nat) (v : Bool) (s : Pmm) :
    pmmPageUsed q (pmmSetPage p v s) =
      if q = p ∧ p < s.pageLimit then v else pmmPageUsed q s := by
  unfold pmmSetPage
  by_cases h : s.pageLimit ≤ p
  · rw [if_pos h, if_neg (by omega)]
  · rw [if_neg h]
    simp only [pmmPageUsed, Bitmap.test_write]
    by_cases hq : q = p
    · rw [if_pos hq, if_pos ⟨hq, by omega⟩]
    · rw [if_neg hq, if_neg (by tauto)]

variable {p : Nat} {v : Bool} {s : Pmm}

theorem pmmSetPage_counted (hi : PmmInv s) :
    (pmmSetPage p v s).freePages =
      Bitmap.clearBelow (pmmSetPage p v s).pageBitmap s.pageLimit := by
  have hle := Bitmap.clearBelow_le s.pageBitmap s.pageLimit
  have hmax : s.pageLimit ≤ 1048576 := hi.limit_le
  have hc := hi.counted
  unfold pmmSetPage
  by_cases h : s.pageLimit ≤ p
  · rw [if_pos h]; exact hc
  · rw [if_neg h]
    have hw := Bitmap.clearBelow_write s.pageBitmap p v (n := s.pageLimit) (by omega)
    have hpos : pmmPageUsed p s = false → 0 < Bitmap.clearBelow s.pageBitmap s.pageLimit :=
      fun hf => Bitmap.clearBelow_pos (by omega) hf
    have ht : Bitmap.test s.pageBitmap p = pmmPageUsed p s := rfl
    rw [ht] at hw
    cases hu : pmmPageUsed p s with
    | true =>
      rw [hu] at hw
      cases v with
      | true => simp at hw ⊢; omega
      | false =>
        simp at hw ⊢
        rw [u32_of_lt (by omega)]
        omega
    | false =>
      have hpos := hpos hu
      rw [hu] at hw
      cases v with
      | true =>
        simp at hw ⊢
        rw [if_neg (by omega)]
        omega
      | false => simp at hw ⊢; omega

theorem pmmSetPage_inv (hi : PmmInv s) :
    PmmInv (pmmSetPage p v s) := by
  refine ⟨?_, ?_, ?_⟩
  · rw [pmmSetPage_limit]; exact pmmSetPage_counted hi
  · intro q hq hq'
    rw [pmmSetPage_limit] at hq
    rw [pmmSetPage_used, if_neg (by omega)]
    exact hi.above q hq hq'
  · rw [pmmSetPage_limit]; exact hi.limit_le

@[simp] theorem pmmSetPages_limit : ∀ {n p : Nat} {s : Pmm},
    (pmmSetPages v n p s).pageLimit = s.pageLimit := by
  intro n
  induction n with
  | zero => intro p s; rfl
  | succ n ih => intro p s; rw [pmmSetPages, ih, pmmSetPage_limit]

@[simp] theorem pmmSetPages_hint : ∀ {n p : Nat} {s : Pmm},
    (pmmSetPages v n p s).searchHint = s.searchHint := by
  intro n
  induction n with
  | zero => intro p s; rfl
  | succ n ih => intro p s; rw [pmmSetPages, ih, pmmSetPage_hint]

theorem pmmSetPages_inv : ∀ {n p : Nat} {s : Pmm}, PmmInv s →
    PmmInv (pmmSetPages v n p s) := by
  intro n
  induction n with
  | zero => intro p s hi; exact hi
  | succ n ih => intro p s hi; exact ih (pmmSetPage_inv hi)

theorem pmmSetPages_used (q : Nat) : ∀ {n p : Nat} {s : Pmm}, (0 < n → p + n ≤ 2 ^ 32) →
    pmmPageUsed q (pmmSetPages v n p s) =
      if p ≤ q ∧ q < p + n ∧ q < s.pageLimit then v else pmmPageUsed q s := by
  intro n
  induction n with
  | zero => intro p s _; rw [pmmSetPages, if_neg (by omega)]
  | succ n ih =>
    intro p s hp
    have hp' := hp (by omega)
    rw [pmmSetPages, ih (by omega), pmmSetPage_limit, pmmSetPage_used, u32_of_lt (by omega)]
    by_cases hin : p ≤ q ∧ q < p + (n + 1) ∧ q < s.pageLimit
    · rw [if_pos hin]
      by_cases hq : q = p
      · rw [if_neg (by omega), if_pos (by omega)]
      · rw [if_pos (by omega)]
    · rw [if_neg hin, if_neg (by omega), if_neg (by omega)]

def Marks (r : Nat × Nat) (page : Nat) : Prop :=
  r.1 / pageSize ≤ page ∧ page < u64 (r.1 + r.2 + pageSize - 1) / pageSize

instance (r : Nat × Nat) (page : Nat) : Decidable (Marks r page) :=
  inferInstanceAs (Decidable (_ ∧ _))

@[simp] theorem pmmMarkRange_limit (b l : Nat) (v : Bool) (s : Pmm) :
    (pmmMarkRange b l v s).pageLimit = s.pageLimit := by
  unfold pmmMarkRange; exact pmmSetPages_limit

theorem pmmMarkRange_inv {b l : Nat} (hi : PmmInv s) :
    PmmInv (pmmMarkRange b l v s) := by
  unfold pmmMarkRange; exact pmmSetPages_inv hi

theorem pmmMarkRange_used {b l q : Nat} (hi : PmmInv s) (hq : q < s.pageLimit) :
    pmmPageUsed q (pmmMarkRange b l true s) = (decide (Marks (b, l) q) || pmmPageUsed q s) := by
  have hmax : s.pageLimit ≤ 1048576 := hi.limit_le
  unfold pmmMarkRange
  simp only [if_true]
  generalize hlast : (if s.pageLimit < u64 (b + l + pageSize - 1) / pageSize then s.pageLimit
    else u64 (b + l + pageSize - 1) / pageSize) = last
  have hle : last ≤ s.pageLimit := by rw [← hlast]; split <;> omega
  have hiff : Marks (b, l) q ↔ b / pageSize ≤ q ∧ q < last := by
    simp only [Marks]
    rw [← hlast]
    split <;> omega
  rw [pmmSetPages_used q (by omega)]
  by_cases h : Marks (b, l) q
  · have := hiff.mp h
    rw [if_pos (by omega), decide_eq_true h]; rfl
  · have : ¬ (b / pageSize ≤ q ∧ q < last) := fun h' => h (hiff.mpr h')
    rw [if_neg (by omega), decide_eq_false h]; rfl

theorem reserve_spec (rs : List (Nat × Nat)) : ∀ {s : Pmm}, PmmInv s →
    let s' := rs.foldl (fun s r => pmmMarkRange r.1 r.2 true s) s
    PmmInv s' ∧ s'.pageLimit = s.pageLimit ∧
      ∀ q < s.pageLimit, pmmPageUsed q s' = true ↔
        (∃ r ∈ rs, Marks r q) ∨ pmmPageUsed q s = true := by
  induction rs with
  | nil => intro s hi; exact ⟨hi, rfl, fun q _ => by simp⟩
  | cons r rs ih =>
    intro s hi
    obtain ⟨hi', hl, hu⟩ := ih (pmmMarkRange_inv (b := r.1) (l := r.2) (v := true) hi)
    rw [pmmMarkRange_limit] at hl hu
    refine ⟨hi', hl, fun q hq => ?_⟩
    rw [foldl_cons, hu q hq, pmmMarkRange_used hi hq]
    simp only [Bool.or_eq_true, decide_eq_true_eq, mem_cons, exists_eq_or_imp, Prod.mk.eta]
    rw [or_left_comm, or_assoc]

variable {arch : Arch} {m : BootMemory}

theorem mmapWalk_inv {σ : Type} {info : MultibootInfo}
    {f : MultibootMmapEntry → σ → σ} {P : σ → Prop} (hf : ∀ e s, P s → P (f e s)) :
    ∀ {fuel offset : Nat} {s s' : σ}, P s → mmapWalk arch m info f fuel offset s = some s' →
      P s' := by
  intro fuel
  induction fuel with
  | zero => intro offset s s' _ h; cases h
  | succ fuel ih =>
    intro offset s s' hs h
    rw [mmapWalk] at h
    split at h
    · simp only at h
      split at h
      · cases h; exact hf _ _ hs
      · exact ih (hf _ _ hs) h
    · cases h; exact hs

theorem pmmReset_used {limit : Nat} (hp : p < pmmMaxPages) :
    pmmPageUsed p (pmmReset limit s) = true := by
  have hmax : pmmMaxPages = 1048576 := rfl
  have hb : p / 8 < pmmBitmapBytes := by unfold pmmBitmapBytes; omega
  have hmask : ∀ k < 8, (0xFF : UInt8) &&& UInt8.ofNat (2 ^ k) != 0 := by decide
  unfold pmmPageUsed Bitmap.test pmmReset
  simp only [if_pos hb]
  exact hmask _ (Nat.mod_lt p (by decide))

theorem pmmReset_inv {limit : Nat} (hl : limit ≤ pmmMaxPages) :
    PmmInv (pmmReset limit s) := by
  refine ⟨?_, fun p _ hp => pmmReset_used hp, hl⟩
  have : Bitmap.clearBelow (pmmReset limit s).pageBitmap limit = 0 := by
    refine countP_eq_zero.mpr fun p hp => ?_
    have hu : Bitmap.test (pmmReset limit s).pageBitmap p = true :=
      pmmReset_used ((mem_range.mp hp).trans_le hl)
    rw [hu]
    decide
  exact this.symm

theorem freeMemory_inv {fuel highest : Nat} {s' : Pmm} {info : Option MultibootInfo} (hi : PmmInv s)
    (h : freeMemory arch m fuel highest s info = some s') : PmmInv s' := by
  have hfree : ∀ e s, PmmInv s → PmmInv (freeAvailable e s) := by
    intro e s hs
    unfold freeAvailable
    split
    · exact pmmMarkRange_inv hs
    · exact hs
  unfold freeMemory at h
  cases info with
  | none => rw [← Option.some.inj h]; exact pmmMarkRange_inv hi
  | some info =>
    simp only at h
    split at h
    · exact mmapWalk_inv hfree hi h
    · rw [← Option.some.inj h]; exact pmmMarkRange_inv hi

def Reserved (arch : Arch) (k : KernelImage) (m : BootMemory) (info : Option MultibootInfo)
    (page : Nat) : Prop :=
  ∃ r ∈ bootDataRanges arch k m info, Marks r page

instance (arch : Arch) (k : KernelImage) (m : BootMemory) (info : Option MultibootInfo)
    (page : Nat) : Decidable (Reserved arch k m info page) :=
  inferInstanceAs (Decidable (∃ r ∈ _, _))

variable {k : KernelImage}

theorem reserved_zero
    {info : Option MultibootInfo} : Reserved arch k m info 0 := by
  have hk := k.above
  have hk' := k.below
  have hp : pageSize = 4096 := rfl
  have hkernel : Marks (0, k.kernelEnd) 0 := by
    simp only [Marks, u64, hp]; omega
  have hlow : Marks (0, 0x200000) 0 := by decide
  cases info with
  | none =>
    refine ⟨_, mem_singleton.mpr rfl, ?_⟩
    split
    · exact hlow
    · exact hkernel
  | some info =>
    unfold Reserved bootDataRanges
    simp only
    split
    · exact ⟨_, mem_singleton.mpr rfl, hlow⟩
    · exact ⟨(0, k.kernelEnd), by simp, hkernel⟩

structure PmmReady (arch : Arch) (k : KernelImage) (m : BootMemory) (info : Option MultibootInfo)
    (s : Pmm) : Prop where
  inv : PmmInv s
  hint_pos : 0 < s.searchHint
  hint_le : s.searchHint ≤ pmmMaxPages
  reserved : ∀ p, p < s.pageLimit → Reserved arch k m info p → pmmPageUsed p s = true

theorem reserve_ready {info : Option MultibootInfo} {hint : Nat} (hi : PmmInv s) (hpos : 0 < hint)
    (hle : hint ≤ pmmMaxPages) :
    PmmReady arch k m info { pmmReserveBootData arch k m info s with searchHint := hint } := by
  obtain ⟨hi', hl, hu⟩ := reserve_spec (bootDataRanges arch k m info) hi
  refine ⟨⟨hi'.counted, hi'.above, hi'.limit_le⟩, hpos, hle, fun p hp hr => ?_⟩
  exact (hu p (hl ▸ hp)).mpr (.inl hr)

variable {s₀ : Pmm}

theorem pmmInitialize_ready {fuel : Nat} {info : Option MultibootInfo}
    (h : pmmInitialize arch k m fuel info s = some s₀) : PmmReady arch k m info s₀ := by
  have hp : pageSize = 4096 := rfl
  have hmax : pmmMaxPages = 1048576 := rfl
  have hk := k.above
  have hk' := k.below
  have hmanaged : ∀ {s : Pmm} (n : Nat), PmmInv s → PmmInv { s with managedPages := n } :=
    fun _ hi => ⟨hi.counted, hi.above, hi.limit_le⟩
  unfold pmmInitialize at h
  split at h
  · cases h
    refine reserve_ready (hmanaged _ (pmmMarkRange_inv (pmmReset_inv ?_))) ?_ ?_ <;> decide
  · split at h
    · cases h
    · simp only at h
      split at h
      · cases h
      · rename_i hfree
        cases h
        have hlimit : ∀ n, (if pmmMaxPages < n then pmmMaxPages else n) ≤ pmmMaxPages := by
          intro n; split <;> omega
        have hi := freeMemory_inv (pmmReset_inv (hlimit _)) hfree
        rw [hp, uptr_of_lt (by omega), u32_of_lt (by omega)]
        exact reserve_ready (hmanaged _ hi) (by omega) (by omega)

variable {count : Nat}

theorem findRun_spec : ∀ {n page run start st : Nat}, run < count →
    run ≤ page → (0 < run → start + run = page) →
    (∀ q, page - run ≤ q → q < page → pmmPageUsed q s = false) →
    findRun count s n page run start = some st →
    page - run ≤ st ∧ st + count ≤ page + n ∧
      ∀ q, st ≤ q → q < st + count → pmmPageUsed q s = false := by
  intro n
  induction n with
  | zero => intro page run start st _ _ _ _ h; cases h
  | succ n ih =>
    intro page run start st hrun hle hstart hclear h
    rw [findRun] at h
    cases hu : pmmPageUsed page s with
    | true =>
      rw [hu] at h
      obtain ⟨h1, h2, h3⟩ := ih (by omega) (by omega) (by omega) (fun q _ _ => by omega) h
      exact ⟨by omega, by omega, h3⟩
    | false =>
      rw [hu] at h
      simp only [Bool.not_false, if_true] at h
      have hstart' : (if run = 0 then page else start) + run = page := by
        split <;> omega
      have hclear' : ∀ q, page - run ≤ q → q < page + 1 → pmmPageUsed q s = false := by
        intro q h1 h2
        by_cases hq : q = page
        · rw [hq]; exact hu
        · exact hclear q h1 (by omega)
      split at h
      · obtain rfl := Option.some.inj h
        exact ⟨by omega, by omega, fun q h1 h2 => hclear' q (by omega) (by omega)⟩
      · obtain ⟨h1, h2, h3⟩ := ih (by omega) (by omega) (fun _ => by omega)
          (fun q h1 h2 => hclear' q (by omega) h2) h
        exact ⟨by omega, by omega, h3⟩

theorem findPages_spec {start : Nat} (hi : PmmInv s) (hc : 0 < count)
    (hpos : 0 < s.searchHint) (hle : s.searchHint ≤ pmmMaxPages)
    (h : findPages count s = some start) :
    0 < start ∧ start + count ≤ s.pageLimit ∧
      ∀ q, start ≤ q → q < start + count → pmmPageUsed q s = false := by
  have hlimit := hi.limit_le
  -- a run that ends behind the limit would end in a page whose bit is set
  have hbelow : start + count ≤ pmmMaxPages →
      (∀ q, start ≤ q → q < start + count → pmmPageUsed q s = false) →
      start + count ≤ s.pageLimit := by
    intro hmax hclear
    by_contra hgt
    have := hclear (start + count - 1) (by omega) (by omega)
    rw [hi.above _ (by omega) (by omega)] at this
    cases this
  unfold findPages at h
  split at h
  · rename_i st hrun
    obtain rfl := Option.some.inj h
    obtain ⟨h1, h2, h3⟩ := findRun_spec hc (by omega) (by omega) (fun q _ _ => by omega) hrun
    exact ⟨by omega, hbelow (by omega) h3, h3⟩
  · obtain ⟨h1, h2, h3⟩ := findRun_spec hc (by omega) (by omega) (fun q _ _ => by omega) h
    exact ⟨by omega, hbelow (by omega) h3, h3⟩

theorem pmmAllocatePages_spec {address : Nat} {s' : Pmm} (hi : PmmInv s)
    (hpos : 0 < s.searchHint) (hle : s.searchHint ≤ pmmMaxPages)
    (h : pmmAllocatePages arch count s = (address, s')) :
    (address = 0 ∧ s' = s) ∨
      ∃ start, 0 < start ∧ 0 < count ∧ start + count ≤ s.pageLimit ∧ address = start * pageSize ∧
        (∀ q, start ≤ q → q < start + count → pmmPageUsed q s = false) ∧
        s' = { pmmSetPages true count start s with searchHint := start + count } := by
  have hp : pageSize = 4096 := rfl
  have hmax : pmmMaxPages = 1048576 := rfl
  have hlimit := hi.limit_le
  unfold pmmAllocatePages at h
  split at h
  · cases h; exact .inl ⟨rfl, rfl⟩
  · split at h
    · cases h; exact .inl ⟨rfl, rfl⟩
    · rename_i hc _ start hfind
      obtain ⟨h1, h2, h3⟩ := findPages_spec hi (by omega) hpos hle hfind
      rw [uptr_of_lt (by rw [hp]; omega), u32_of_lt (by omega)] at h
      obtain ⟨rfl, rfl⟩ := Prod.mk.inj h
      exact .inr ⟨start, h1, by omega, h2, rfl, h3, rfl⟩

theorem pmmClearPages_eq {page : Nat} : ∀ {n i : Nat} {s : Pmm}, page + i + n ≤ s.pageLimit →
    s.pageLimit ≤ pmmMaxPages → pmmClearPages page n i s = pmmSetPages false n (page + i) s := by
  have hmax : pmmMaxPages = 1048576 := rfl
  intro n
  induction n with
  | zero => intro i s _ _; rfl
  | succ n ih =>
    intro i s hle hlimit
    rw [pmmClearPages, pmmSetPages, u32_of_lt (by omega), if_pos (by omega),
      ih (by rw [pmmSetPage_limit]; omega) (by rw [pmmSetPage_limit]; omega)]
    rfl

theorem pmmFreePages_spec {start : Nat} (hpos : 0 < start)
    (hle : start + count ≤ s.pageLimit) (hlimit : s.pageLimit ≤ pmmMaxPages) :
    ∃ hint, (hint = start ∨ hint = s.searchHint) ∧
      pmmFreePages (start * pageSize) count s =
        { pmmSetPages false count start s with searchHint := hint } := by
  have hp : pageSize = 4096 := rfl
  have hmax : pmmMaxPages = 1048576 := rfl
  have hpage : u32 (start * pageSize / pageSize) = start := by
    rw [hp, Nat.mul_div_cancel _ (by omega), u32_of_lt (by omega)]
  unfold pmmFreePages
  simp only [hpage]
  rw [if_neg (by rw [hp]; omega), pmmClearPages_eq (by omega) hlimit]
  split
  · exact ⟨start, .inl rfl, rfl⟩
  · exact ⟨_, .inr rfl, by rw [Nat.add_zero, ← pmmSetPages_hint (v := false) (n := count)
      (p := start) (s := s)]⟩

/-! ## Runs -/

def pageRange (r : Nat × Nat) : Range := ⟨r.1 / pageSize, r.2⟩

def clear (s : Pmm) (page : Nat) : Nat := (!pmmPageUsed page s).toNat

/-- What a run from `s₀` has done to the state, in terms of the outstanding allocations. -/
structure PmmBalance (s₀ s : Pmm) (out : List (Nat × Nat)) : Prop where
  inv : PmmInv s
  limit : s.pageLimit = s₀.pageLimit
  hint_pos : 0 < s.searchHint
  hint_le : s.searchHint ≤ pmmMaxPages
  shape : ∀ r ∈ out, ∃ start, r.1 = start * pageSize ∧ 0 < start ∧ 0 < r.2 ∧
    start + r.2 ≤ s.pageLimit
  balance : ∀ p, cover (out.map pageRange) p + clear s p = clear s₀ p

theorem pageRange_contains {start : Nat} (p : Nat) :
    (pageRange (start * pageSize, count)).Contains p ↔ start ≤ p ∧ p < start + count := by
  have hp : pageSize = 4096 := rfl
  simp only [pageRange, Range.Contains]
  rw [Nat.mul_div_cancel _ (by rw [hp]; omega)]

theorem clear_setPages {start hint : Nat} (p : Nat)
    (hle : start + count ≤ s.pageLimit) (hlimit : s.pageLimit ≤ pmmMaxPages) :
    clear { pmmSetPages v count start s with searchHint := hint } p =
      if start ≤ p ∧ p < start + count then (!v).toNat else clear s p := by
  have hmax : pmmMaxPages = 1048576 := rfl
  have hused := pmmSetPages_used (v := v) p (n := count) (p := start) (s := s) (by omega)
  unfold clear
  rw [show pmmPageUsed p { pmmSetPages v count start s with searchHint := hint } =
    pmmPageUsed p (pmmSetPages v count start s) from rfl, hused]
  by_cases h : start ≤ p ∧ p < start + count
  · rw [if_pos h, if_pos (by omega)]
  · rw [if_neg h, if_neg (by omega)]

variable {out : List (Nat × Nat)}

theorem PmmBalance.allocate (hb : PmmBalance s₀ s out)
    {start : Nat} (hs : 0 < start) (hc : 0 < count) (hle : start + count ≤ s.pageLimit)
    (hclear : ∀ q, start ≤ q → q < start + count → pmmPageUsed q s = false) :
    PmmBalance s₀ { pmmSetPages true count start s with searchHint := start + count }
      ((start * pageSize, count) :: out) := by
  have hlimit := hb.inv.limit_le
  have hi := pmmSetPages_inv (v := true) (n := count) (p := start) hb.inv
  have hl : (pmmSetPages true count start s).pageLimit = s.pageLimit := pmmSetPages_limit
  refine ⟨⟨hi.counted, hi.above, hi.limit_le⟩, hl.trans hb.limit, ?_, ?_, ?_, ?_⟩
  · show 0 < start + count; omega
  · show start + count ≤ pmmMaxPages; omega
  · intro r hr
    show ∃ st, _ ∧ _ ∧ _ ∧ st + r.2 ≤ (pmmSetPages true count start s).pageLimit
    rw [hl]
    cases mem_cons.mp hr with
    | inl h => rw [h]; exact ⟨start, rfl, hs, hc, hle⟩
    | inr h => exact hb.shape r h
  · intro p
    have hp := hb.balance p
    rw [map_cons, cover_cons, clear_setPages p hle hlimit]
    by_cases h : start ≤ p ∧ p < start + count
    · have hused := hclear p h.1 h.2
      have hc1 : clear s p = 1 := by unfold clear; rw [hused]; rfl
      rw [if_pos ((pageRange_contains p).mpr h), if_pos h]
      simp only [Bool.not_true, Bool.toNat_false]
      omega
    · rw [if_neg fun h' => h ((pageRange_contains p).mp h'), if_neg h]
      exact hp

theorem PmmBalance.free (hb : PmmBalance s₀ s out)
    {r : Nat × Nat} (hr : r ∈ out) : PmmBalance s₀ (pmmFreePages r.1 r.2 s) (out.erase r) := by
  have hlimit := hb.inv.limit_le
  obtain ⟨start, hstart, hs, hc, hle⟩ := hb.shape r hr
  obtain ⟨hint, hhint, hfree⟩ := pmmFreePages_spec hs hle hlimit
  have hi := pmmSetPages_inv (v := false) (n := r.2) (p := start) hb.inv
  have hl : (pmmSetPages false r.2 start s).pageLimit = s.pageLimit := pmmSetPages_limit
  have hpos := hb.hint_pos
  have hmax := hb.hint_le
  rw [hstart, hfree]
  refine ⟨⟨hi.counted, hi.above, hi.limit_le⟩, hl.trans hb.limit, ?_, ?_, ?_, ?_⟩
  · show 0 < hint; omega
  · show hint ≤ pmmMaxPages; omega
  · intro r' hr'
    show ∃ st, _ ∧ _ ∧ _ ∧ st + r'.2 ≤ (pmmSetPages false r.2 start s).pageLimit
    rw [hl]
    exact hb.shape r' (mem_of_mem_erase hr')
  · intro p
    have hp := hb.balance p
    have hs0 : clear s₀ p ≤ 1 := Bool.toNat_le _
    have hperm : ((out.map pageRange).Perm (pageRange r :: (out.erase r).map pageRange)) :=
      (perm_cons_erase hr).map pageRange
    have hiff : (pageRange r).Contains p ↔ start ≤ p ∧ p < start + r.2 := by
      rw [← pageRange_contains p, ← hstart]
    rw [cover_perm hperm, cover_cons] at hp
    rw [clear_setPages p hle hlimit]
    by_cases h : start ≤ p ∧ p < start + r.2
    · rw [if_pos (hiff.mpr h)] at hp
      rw [if_pos h]
      simp only [Bool.not_false, Bool.toNat_true]
      omega
    · rw [if_neg fun h' => h (hiff.mp h')] at hp
      rw [if_neg h]
      exact hp

theorem pmmReach_balance (hi : PmmInv s₀)
    (hpos : 0 < s₀.searchHint) (hle : s₀.searchHint ≤ pmmMaxPages)
    (h : PmmReach arch s₀ s out) : PmmBalance s₀ s out := by
  induction h with
  | init => exact ⟨hi, rfl, hpos, hle, by simp, by simp⟩
  | failed _ halloc ih =>
    cases pmmAllocatePages_spec ih.inv ih.hint_pos ih.hint_le halloc with
    | inl h => rw [h.2]; exact ih
    | inr h =>
      obtain ⟨start, hs, _, _, h0, _⟩ := h
      rw [show pageSize = 4096 from rfl] at h0
      omega
  | allocated _ halloc hne ih =>
    cases pmmAllocatePages_spec ih.inv ih.hint_pos ih.hint_le halloc with
    | inl h => exact absurd h.1 hne
    | inr h =>
      obtain ⟨start, hs, hc, hlim, haddr, hclear, hs'⟩ := h
      rw [haddr, hs']
      exact ih.allocate hs hc hlim hclear
  | freed _ hr ih => exact ih.free hr

/-- Over every run from `PmmInitialize`: the counter is the number of clear bits below the limit,
outstanding allocations are disjoint and hold neither page 0 nor boot data, and once all are freed
the counter is back at its first value. -/
theorem pmmReach_consistent {arch : Arch} {k : KernelImage} {m : BootMemory} {fuel : Nat}
    {info : Option MultibootInfo} {start s₀ s : Pmm} {out : List (Nat × Nat)}
    (hinit : pmmInitialize arch k m fuel info start = some s₀) (h : PmmReach arch s₀ s out) :
    s.freePages = Bitmap.clearBelow s.pageBitmap s.pageLimit ∧
    (∀ p, s.pageLimit ≤ p → p < pmmMaxPages → pmmPageUsed p s = true) ∧
    (out.map pageRange).Pairwise Range.Disjoint ∧
    (∀ r ∈ out, ∀ p, (pageRange r).Contains p → p ≠ 0 ∧ ¬ Reserved arch k m info p) ∧
    (out = [] → s.freePages = s₀.freePages) := by
  have hready := pmmInitialize_ready hinit
  have hb := pmmReach_balance hready.inv hready.hint_pos hready.hint_le h
  have hone : ∀ p, clear s₀ p ≤ 1 := fun p => Bool.toNat_le _
  refine ⟨hb.inv.counted, hb.inv.above, ?_, ?_, ?_⟩
  · refine pairwise_disjoint_of_cover_le_one (fun p => ?_) fun r hr => ?_
    · have := hb.balance p
      have := hone p
      omega
    · obtain ⟨r', hr', rfl⟩ := mem_map.mp hr
      obtain ⟨_, _, _, hc, _⟩ := hb.shape r' hr'
      exact hc
  · intro r hr p hp
    obtain ⟨st, hst, _, _, hle⟩ := hb.shape r hr
    have hlt : p < s₀.pageLimit := by
      have hr : r = (st * pageSize, r.2) := Prod.ext hst rfl
      rw [hr, pageRange_contains] at hp
      have := hb.limit
      omega
    -- a covered page was clear at the start, which a reserved page was not
    have hpos : 0 < cover (out.map pageRange) p := cover_pos_iff.mpr ⟨_, mem_map_of_mem hr, hp⟩
    have hnot : ¬ Reserved arch k m info p := by
      intro hres
      have hzero : clear s₀ p = 0 := by
        unfold clear; rw [hready.reserved p hlt hres]; rfl
      have := hb.balance p
      omega
    exact ⟨fun h0 => hnot (h0 ▸ reserved_zero), hnot⟩
  · intro hnil
    rw [hb.inv.counted, hready.inv.counted, hb.limit]
    refine Bitmap.clearBelow_congr fun p _ => ?_
    have hp := hb.balance p
    rw [hnil] at hp
    simp only [map_nil, cover_nil, Nat.zero_add, clear] at hp
    have hu : pmmPageUsed p s = pmmPageUsed p s₀ := by
      cases h1 : pmmPageUsed p s <;> cases h2 : pmmPageUsed p s₀ <;> rw [h1, h2] at hp <;>
        first | rfl | cases hp
    exact hu

def tinyInfo : MultibootInfo :=
  { addr := 0x9000, flags := 1, memUpper := 16, modsCount := 0, modsAddr := 0, mmapLength := 0,
    mmapAddr := 0 }

def tinyKernel : KernelImage := ⟨0x100000, by decide, by decide⟩

def emptyBootMemory : BootMemory := ⟨fun _ => ⟨0, 0, 0, 0⟩, fun _ => ⟨0, 0⟩⟩

def pmmZero : Pmm := ⟨fun _ => 0, 0, 0, 0, 0⟩

theorem pmmReach_consistent_two_pages :
    ∃ s₀ s, pmmInitialize .x86 tinyKernel emptyBootMemory 0 (some tinyInfo) pmmZero = some s₀ ∧
      PmmReach .x86 s₀ s [(0x100000, 2)] ∧
      s.freePages = Bitmap.clearBelow s.pageBitmap s.pageLimit ∧
      ∀ p, (pageRange (0x100000, 2)).Contains p →
        ¬ Reserved .x86 tinyKernel emptyBootMemory (some tinyInfo) p := by
  have halloc : ((pmmInitialize .x86 tinyKernel emptyBootMemory 0 (some tinyInfo) pmmZero).map
      fun s => (pmmAllocatePages .x86 2 s).1) = some 0x100000 := by decide +kernel
  obtain ⟨s₀, h₀, ha⟩ := Option.map_eq_some_iff.mp halloc
  have hr : PmmReach .x86 s₀ (pmmAllocatePages .x86 2 s₀).2 [(0x100000, 2)] :=
    @PmmReach.allocated _ _ _ _ _ 2 _ .init (Prod.ext ha rfl) (by decide)
  obtain ⟨hcount, _, _, hres, _⟩ := pmmReach_consistent h₀ hr
  exact ⟨s₀, _, h₀, hr, hcount, fun p hp => (hres _ (by simp) p hp).2⟩

end DiscouNT.Mm
