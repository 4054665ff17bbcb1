import DiscouNT.Mm.Heap

/-!
# Mm.HeapInv

The invariant of the kernel heap. The list in memory represents a list of abstract blocks
(`Chain`); the blocks cover each byte exactly as often as the page runs do (`HeapInv.cov`), and
the runs cover each byte at most once. Splitting, merging and growing only cut, join and add
ranges, so every operation keeps the cover counts, and with them the tiling.
-/

namespace DiscouNT.Mm

open Lib List

structure Block where
  addr : Nat
  size : Nat
  free : Bool
deriving DecidableEq, Repr

def Block.range (arch : Arch) (b : Block) : Range := ⟨b.addr, sizeofHeapBlock arch + b.size⟩

def Block.header (arch : Arch) (b : Block) : Range := ⟨b.addr, sizeofHeapBlock arch⟩

def Block.data (arch : Arch) (b : Block) : Nat := b.addr + sizeofHeapBlock arch

def ranges (arch : Arch) (bs : List Block) : List Range := bs.map (Block.range arch)

def Chain (arch : Arch) (m : Mem) : Nat → List Block → Prop
  | head, [] => head = 0
  | head, b :: bs => head = b.addr ∧ b.addr ≠ 0 ∧ blockSize m b.addr = b.size ∧
      (blockFree m b.addr ≠ 0 ↔ b.free = true) ∧ Chain arch m (blockNext arch m b.addr) bs

/-- No byte belongs to two blocks, all of them lie between page 1 and 4 GiB, and no payload
address is 4 GiB itself (which an i386 pointer would show as null). -/
structure Placed (arch : Arch) (bs : List Block) : Prop where
  once : ∀ a, cover (ranges arch bs) a ≤ 1
  inside : ∀ b ∈ bs, pmmPageSize ≤ b.addr ∧ b.addr + sizeofHeapBlock arch + b.size ≤ 2 ^ 32
  data_lt : ∀ b ∈ bs, b.data arch < 2 ^ 32

theorem sizeofHeapBlock_cases (arch : Arch) :
    (arch.ptrBytes = 4 ∧ sizeofHeapBlock arch = 12) ∨
      (arch.ptrBytes = 8 ∧ sizeofHeapBlock arch = 16) := by
  cases arch <;> simp [sizeofHeapBlock, Arch.ptrBytes]

@[simp] theorem ranges_append (arch : Arch) (l r : List Block) :
    ranges arch (l ++ r) = ranges arch l ++ ranges arch r := by simp [ranges]

@[simp] theorem ranges_cons (arch : Arch) (b : Block) (r : List Block) :
    ranges arch (b :: r) = b.range arch :: ranges arch r := by simp [ranges]

variable {arch : Arch} {r : List Block} {b c : Block}

theorem Placed.disjoint {l : List Block}
    (h : Placed arch (l ++ b :: r)) (hc : c ∈ l ++ r) : (b.range arch).Disjoint (c.range arch) := by
  have hH := sizeofHeapBlock_cases arch
  have hmem : c.range arch ∈ ranges arch l ++ ranges arch r := by
    rw [← ranges_append]; exact mem_map_of_mem hc
  refine @disjoint_of_cover_le_one (ranges arch l) (ranges arch r) _ _ ?_ hmem ?_ ?_
  · intro a; simpa using h.once a
  · show 0 < sizeofHeapBlock arch + b.size; omega
  · show 0 < sizeofHeapBlock arch + c.size; omega

theorem Placed.tail (h : Placed arch (b :: r)) :
    Placed arch r := by
  refine ⟨fun a => ?_, fun c hc => h.inside c (by simp [hc]), fun c hc => h.data_lt c (by simp [hc])⟩
  have := h.once a
  rw [ranges_cons, cover_cons] at this
  omega

variable {bs : List Block}

theorem placed_of_cover (honce : ∀ a, cover (ranges arch bs) a ≤ 1)
    (hin : ∀ a, 0 < cover (ranges arch bs) a → pmmPageSize ≤ a ∧ a < 2 ^ 32)
    (hdata : ∀ b ∈ bs, b.data arch < 2 ^ 32) : Placed arch bs := by
  refine ⟨honce, fun b hb => ?_, hdata⟩
  have hH := sizeofHeapBlock_cases arch
  have key : ∀ a, (b.range arch).Contains a → pmmPageSize ≤ a ∧ a < 2 ^ 32 := fun a ha =>
    hin a (cover_pos_iff.mpr ⟨_, mem_map_of_mem hb, ha⟩)
  -- the first and the last byte of the block lie inside
  have h1 := key b.addr (by simp only [Range.Contains, Block.range]; omega)
  have h2 := key (b.addr + sizeofHeapBlock arch + b.size - 1)
    (by simp only [Range.Contains, Block.range]; omega)
  omega

theorem Placed.of_cover {bs' : List Block} (h : Placed arch bs)
    (hcov : ∀ a, cover (ranges arch bs') a = cover (ranges arch bs) a)
    (hdata : ∀ b ∈ bs', b.data arch < 2 ^ 32) : Placed arch bs' := by
  refine placed_of_cover (fun a => by rw [hcov a]; exact h.once a) (fun a ha => ?_) hdata
  rw [hcov a] at ha
  obtain ⟨r, hr, hra⟩ := cover_pos_iff.mp ha
  obtain ⟨c, hc, rfl⟩ := mem_map.mp hr
  have := h.inside c hc
  simp only [Range.Contains, Block.range] at hra
  omega

theorem Placed.eq_of_addr (h : Placed arch bs)
    (hb : b ∈ bs) (hc : c ∈ bs) (heq : b.addr = c.addr) : b = c := by
  have hH := sizeofHeapBlock_cases arch
  obtain ⟨l, r, rfl⟩ := append_of_mem hb
  rcases mem_append.mp hc with hc | hc
  · have := h.disjoint (mem_append_left r hc)
    simp only [Range.Disjoint, Block.range] at this
    omega
  · rcases mem_cons.mp hc with rfl | hc
    · rfl
    · have := h.disjoint (mem_append_right l hc)
      simp only [Range.Disjoint, Block.range] at this
      omega

theorem Placed.disjoint_of_ne (h : Placed arch bs)
    (hb : b ∈ bs) (hc : c ∈ bs) (hne : b ≠ c) : (b.range arch).Disjoint (c.range arch) := by
  obtain ⟨l, r, rfl⟩ := append_of_mem hb
  refine h.disjoint ?_
  simp only [mem_append, mem_cons] at hc ⊢
  rcases hc with hc | rfl | hc
  · exact .inl hc
  · exact absurd rfl hne
  · exact .inr hc

variable {m' m : Mem}

theorem blockSize_congr (h : ∀ a, (b.header arch).Contains a → m' a = m a) :
    blockSize m' b.addr = blockSize m b.addr ∧ blockFree m' b.addr = blockFree m b.addr ∧
      blockNext arch m' b.addr = blockNext arch m b.addr := by
  have hH := sizeofHeapBlock_cases arch
  simp only [Range.Contains, Block.header] at h
  refine ⟨readLE_congr fun i hi => h _ ?_, readLE_congr fun i hi => h _ ?_,
    readLE_congr fun i hi => h _ ?_⟩ <;> omega

theorem chain_congr : ∀ {bs : List Block} {head : Nat},
    Chain arch m head bs → (∀ b ∈ bs, ∀ a, (b.header arch).Contains a → m' a = m a) →
    Chain arch m' head bs := by
  intro bs
  induction bs with
  | nil => intro head h _; exact h
  | cons b bs ih =>
    intro head ⟨hhead, hne, hsize, hfree, hrest⟩ hag
    obtain ⟨es, ef, en⟩ := blockSize_congr (hag b (by simp))
    refine ⟨hhead, hne, by rw [es]; exact hsize, by rw [ef]; exact hfree, ?_⟩
    rw [en]
    exact ih hrest fun c hc => hag c (by simp [hc])

theorem chain_drop :
    ∀ {l : List Block} {head : Nat}, Chain arch m head (l ++ b :: r) →
      Chain arch m b.addr (b :: r) := by
  intro l
  induction l with
  | nil => intro head h; exact ⟨rfl, h.2⟩
  | cons c l ih => intro head h; exact ih h.2.2.2.2

theorem chain_replace :
    ∀ {l : List Block} {head : Nat}, Chain arch m head (l ++ b :: r) →
      (∀ c ∈ l, ∀ a, (c.header arch).Contains a → m' a = m a) →
      Chain arch m' b.addr bs → Chain arch m' head (l ++ bs) := by
  intro l
  induction l with
  | nil => intro head h _ hbs; rw [show head = b.addr from h.1]; exact hbs
  | cons c l ih =>
    intro head ⟨hhead, hne, hsize, hfree, hrest⟩ hag hbs
    obtain ⟨es, ef, en⟩ := blockSize_congr (hag c (by simp))
    refine ⟨hhead, hne, by rw [es]; exact hsize, by rw [ef]; exact hfree, ?_⟩
    rw [en]
    exact ih hrest (fun c hc => hag c (by simp [hc])) hbs

theorem findBlock_spec {p : Nat → Bool} : ∀ {bs : List Block} {head fuel : Nat},
    Chain arch m head bs → bs.length < fuel →
    (findBlock arch m p fuel head = some 0 ∧ ∀ b ∈ bs, p b.addr = false) ∨
      ∃ l b r, bs = l ++ b :: r ∧ findBlock arch m p fuel head = some b.addr ∧ b.addr ≠ 0 ∧
        p b.addr = true ∧ ∀ c ∈ l, p c.addr = false := by
  intro bs
  induction bs with
  | nil =>
    intro head fuel h hfuel
    obtain ⟨f, rfl⟩ : ∃ f, fuel = f + 1 := ⟨fuel - 1, by omega⟩
    left
    rw [show head = 0 from h]
    exact ⟨by simp [findBlock], by simp⟩
  | cons b bs ih =>
    intro head fuel ⟨hhead, hne, _, _, hrest⟩ hfuel
    obtain ⟨f, rfl⟩ : ∃ f, fuel = f + 1 := ⟨fuel - 1, by omega⟩
    subst hhead
    cases hp : p b.addr with
    | true =>
      right
      exact ⟨[], b, bs, rfl, by simp [findBlock, hne, hp], hne, hp, by simp⟩
    | false =>
      have hstep : findBlock arch m p (f + 1) b.addr =
          findBlock arch m p f (blockNext arch m b.addr) := by simp [findBlock, hne, hp]
      rw [hstep]
      rcases ih hrest (by simpa using hfuel) with ⟨hz, hall⟩ | ⟨l, c, r, rfl, hf, hc, hpc, hl⟩
      · left
        refine ⟨hz, fun c hc => ?_⟩
        rcases mem_cons.mp hc with rfl | hc
        · exact hp
        · exact hall c hc
      · right
        refine ⟨b :: l, c, r, rfl, hf, hc, hpc, fun d hd => ?_⟩
        rcases mem_cons.mp hd with rfl | hd
        · exact hp
        · exact hl d hd

theorem Placed.blockData (h : Placed arch bs)
    (hb : b ∈ bs) : blockData arch b.addr = b.data arch :=
  uptr_of_lt (h.data_lt b hb)

theorem header_congr (hd : (b.range arch).Disjoint (c.range arch))
    (hm : ∀ a, ¬ (b.header arch).Contains a → m' a = m a) :
    ∀ a, (c.header arch).Contains a → m' a = m a := by
  intro a ha
  apply hm
  simp only [Range.Contains, Range.Disjoint, Block.header, Block.range] at *
  omega

structure Recut (arch : Arch) (bs bs' : List Block) : Prop where
  cov : ∀ a, cover (ranges arch bs') a = cover (ranges arch bs) a
  total : totalLen (ranges arch bs') = totalLen (ranges arch bs)
  used : ∀ c : Block, c.free = false → (c ∈ bs' ↔ c ∈ bs)

theorem Recut.refl (arch : Arch) (bs : List Block) : Recut arch bs bs :=
  ⟨fun _ => rfl, rfl, fun _ _ => Iff.rfl⟩

theorem Recut.trans {as cs : List Block} (h₁ : Recut arch as bs)
    (h₂ : Recut arch bs cs) : Recut arch as cs :=
  ⟨fun a => (h₂.cov a).trans (h₁.cov a), h₂.total.trans h₁.total,
    fun c hc => (h₂.used c hc).trans (h₁.used c hc)⟩

theorem Recut.cons {bs' : List Block} (b : Block) (h : Recut arch bs bs') :
    Recut arch (b :: bs) (b :: bs') := by
  refine ⟨fun a => ?_, ?_, fun c hc => ?_⟩
  · rw [ranges_cons, ranges_cons, cover_cons, cover_cons, h.cov a]
  · rw [ranges_cons, ranges_cons, totalLen_cons, totalLen_cons, h.total]
  · rw [mem_cons, mem_cons, h.used c hc]

/-- `b` in front of a list, joined with what follows it as far as that is free and adjacent. -/
def joinOnto (arch : Arch) (b : Block) : List Block → List Block
  | [] => [b]
  | c :: r =>
    if b.free = true ∧ c.free = true ∧ b.data arch + b.size = c.addr then
      joinOnto arch ⟨b.addr, b.size + (sizeofHeapBlock arch + c.size), true⟩ r
    else b :: joinOnto arch c r

def joinFree (arch : Arch) : List Block → List Block
  | [] => []
  | b :: r => joinOnto arch b r

theorem recut_merge (hb : b.free = true)
    (hc : c.free = true) (hadj : b.data arch + b.size = c.addr) :
    Recut arch (b :: c :: r) (⟨b.addr, b.size + (sizeofHeapBlock arch + c.size), true⟩ :: r) := by
  simp only [Block.data] at hadj
  have hc' : c.range arch = ⟨b.addr + (sizeofHeapBlock arch + b.size), sizeofHeapBlock arch + c.size⟩ := by
    simp only [Block.range, Range.mk.injEq, and_true]; omega
  refine ⟨fun a => ?_, ?_, fun d hd => ?_⟩
  · rw [ranges_cons, ranges_cons, ranges_cons, hc']
    show _ = cover (⟨b.addr, sizeofHeapBlock arch + b.size⟩ :: _) a
    rw [cover_split]
    simp only [Block.range, Nat.add_assoc]
  · simp only [ranges_cons, totalLen_cons, Block.range]; omega
  · have hdb : d ≠ b := by rintro rfl; simp [hb] at hd
    have hdc : d ≠ c := by rintro rfl; simp [hc] at hd
    have hdn : d ≠ ⟨b.addr, b.size + (sizeofHeapBlock arch + c.size), true⟩ := by
      rintro rfl; simp at hd
    simp [hdb, hdc, hdn]

theorem merge_chain (hch : Chain arch m b.addr (b :: c :: r)) (hpl : Placed arch (b :: c :: r))
    (hb : b.free = true) (hadj : b.data arch + b.size = c.addr) :
    let m1 := setSize m b.addr (u32 (blockSize m b.addr + (sizeofHeapBlock arch + blockSize m c.addr)))
    let m2 := setNext arch m1 b.addr (blockNext arch m1 c.addr)
    Chain arch m2 b.addr (⟨b.addr, b.size + (sizeofHeapBlock arch + c.size), true⟩ :: r) ∧
      ∀ a, ¬ (b.header arch).Contains a → m2 a = m a := by
  intro m1 m2
  have hH := sizeofHeapBlock_cases arch
  obtain ⟨-, hne, hsb, hfb, -, hnc, hsc, hfc, hr⟩ := hch
  have hframe : ∀ a, ¬ (b.header arch).Contains a → m2 a = m a := by
    intro a ha
    simp only [Range.Contains, Block.header] at ha
    simp only [m2, m1, setNext, setSize]
    rw [writeLE_out (by omega), writeLE_out (by omega)]
  have hdc : (b.range arch).Disjoint (c.range arch) := hpl.disjoint (l := []) (by simp)
  have hnext : blockNext arch m1 c.addr = blockNext arch m c.addr := by
    have hag : ∀ a, (c.header arch).Contains a → m1 a = m a := by
      refine header_congr hdc fun a ha => ?_
      simp only [Range.Contains, Block.header] at ha
      exact writeLE_out (by omega)
    exact (blockSize_congr hag).2.2
  have hin := hpl.inside c (by simp)
  have hbin := hpl.inside b (by simp)
  simp only [Block.data] at hadj
  refine ⟨⟨rfl, hne, ?_, ?_, ?_⟩, hframe⟩
  · -- the new size fits in 32 bits, both blocks being below 4 GiB
    show readLE m2 b.addr 4 = _
    simp only [m2, m1, setNext, setSize]
    rw [readLE_writeLE_other (by omega), readLE_writeLE_same, hsb, hsc, u32_of_lt (by omega)]
    omega
  · show readLE m2 (b.addr + 4) 4 ≠ 0 ↔ _
    simp only [m2, m1, setNext, setSize]
    rw [readLE_writeLE_other (by omega), readLE_writeLE_other (by omega)]
    exact hfb.trans (by simp [hb])
  · have hlt := readLE_lt m arch.ptrBytes (c.addr + 8)
    have : blockNext arch m2 b.addr = blockNext arch m c.addr := by
      show readLE (writeLE m1 (b.addr + 8) arch.ptrBytes _) (b.addr + 8) arch.ptrBytes = _
      rw [readLE_writeLE_same, hnext]
      exact Nat.mod_eq_of_lt hlt
    rw [this]
    refine chain_congr hr fun d hd => header_congr ?_ hframe
    exact hpl.disjoint (l := []) (by simp [hd])

theorem coalesce_spec : ∀ (n : Nat) {bs : List Block} {m : Mem} {head fuel : Nat},
    bs.length ≤ n → bs.length < fuel → Chain arch m head bs → Placed arch bs →
    ∃ m', mmCoalesceLoop arch fuel m head = some m' ∧ Chain arch m' head (joinFree arch bs) ∧
      Recut arch bs (joinFree arch bs) ∧ Placed arch (joinFree arch bs) ∧
      ∀ a, (∀ b ∈ bs, b.free = true → ¬ (b.header arch).Contains a) → m' a = m a := by
  intro n
  induction n with
  | zero =>
    intro bs m head fuel hn hfuel hch hpl
    obtain rfl : bs = [] := length_eq_zero_iff.mp (by omega)
    obtain ⟨f, rfl⟩ : ∃ f, fuel = f + 1 := ⟨fuel - 1, by omega⟩
    exact ⟨m, by simp [mmCoalesceLoop, show head = 0 from hch], hch, .refl _ _, hpl, fun _ _ => rfl⟩
  | succ n ih =>
    intro bs m head fuel hn hfuel hch hpl
    obtain ⟨f, rfl⟩ : ∃ f, fuel = f + 1 := ⟨fuel - 1, by omega⟩
    rcases bs with _ | ⟨b, _ | ⟨c, r⟩⟩
    · exact ⟨m, by simp [mmCoalesceLoop, show head = 0 from hch], hch, .refl _ _, hpl,
        fun _ _ => rfl⟩
    · have hnext : blockNext arch m b.addr = 0 := hch.2.2.2.2
      refine ⟨m, ?_, hch, .refl _ _, hpl, fun _ _ => rfl⟩
      simp [mmCoalesceLoop, show head = b.addr from hch.1, hnext]
    · obtain rfl : head = b.addr := hch.1
      have hne : b.addr ≠ 0 := hch.2.1
      have hsb : blockSize m b.addr = b.size := hch.2.2.1
      have hfb : blockFree m b.addr ≠ 0 ↔ b.free = true := hch.2.2.2.1
      have hchc : Chain arch m c.addr (c :: r) := chain_drop (l := [b]) hch
      have hnext : blockNext arch m b.addr = c.addr := hch.2.2.2.2.1
      have hfc : blockFree m c.addr ≠ 0 ↔ c.free = true := hchc.2.2.2.1
      have hin := hpl.inside b (by simp)
      have hcin := hpl.inside c (by simp)
      have hclt := hpl.data_lt c (by simp)
      have hend : uptr arch (blockData arch b.addr + blockSize m b.addr) = c.addr ↔
          b.data arch + b.size = c.addr := by
        rw [hpl.blockData (by simp), hsb]
        simp only [Block.data] at hclt ⊢
        have h32 : b.addr + sizeofHeapBlock arch + b.size = 2 ^ 32 ∨
            b.addr + sizeofHeapBlock arch + b.size < 2 ^ 32 := by omega
        rcases h32 with h32 | h32
        · rw [h32]
          have hp : pmmPageSize = 4096 := rfl
          have : uptr arch (2 ^ 32) = 0 ∨ uptr arch (2 ^ 32) = 2 ^ 32 := by
            cases arch <;> decide
          omega
        · rw [uptr_of_lt h32]
      by_cases hm : b.free = true ∧ c.free = true ∧ b.data arch + b.size = c.addr
      · obtain ⟨hb, hc, hadj⟩ := hm
        obtain ⟨hch2, hframe2⟩ := merge_chain hch hpl hb hadj
        have hrec := recut_merge (r := r) hb hc hadj
        have hpl2 : Placed arch (⟨b.addr, b.size + (sizeofHeapBlock arch + c.size), true⟩ :: r) := by
          refine hpl.of_cover hrec.cov fun d hd => ?_
          rcases mem_cons.mp hd with rfl | hd
          · exact hpl.data_lt b (by simp)
          · exact hpl.data_lt d (by simp [hd])
        obtain ⟨m', hrun, hch', hrec', hpl', hframe'⟩ :=
          @ih _ _ _ f (by simpa using hn) (by simpa using hfuel) hch2 hpl2
        have hjoin : joinFree arch (b :: c :: r) = joinFree arch
            (⟨b.addr, b.size + (sizeofHeapBlock arch + c.size), true⟩ :: r) := if_pos ⟨hb, hc, hadj⟩
        rw [hjoin]
        refine ⟨m', ?_, hch', hrec.trans hrec', hpl', fun a ha => ?_⟩
        · rw [mmCoalesceLoop, if_neg (by rw [hnext]; exact fun h => h.elim hne hchc.2.1)]
          simp only [hnext, ne_eq]
          rw [if_pos ⟨hfb.mpr hb, hfc.mpr hc, hend.mpr hadj⟩]
          exact hrun
        · have hab := ha b (by simp) hb
          rw [hframe' a ?_, hframe2 a hab]
          intro d hd hdf
          rcases mem_cons.mp hd with rfl | hd
          · exact hab
          · exact ha d (by simp [hd]) hdf
      · obtain ⟨m', hrun, hch', hrec', hpl', hframe'⟩ :=
          @ih _ _ _ f (by simpa using hn) (by simpa using hfuel) hchc hpl.tail
        have hjoin : joinFree arch (b :: c :: r) = b :: joinFree arch (c :: r) := if_neg hm
        rw [hjoin]
        have hkeep : ∀ a, (b.header arch).Contains a → m' a = m a := by
          intro a ha
          refine hframe' a fun d hd _ hda => ?_
          have hd' : (b.range arch).Disjoint (d.range arch) := hpl.disjoint (l := []) (by simpa using hd)
          simp only [Range.Contains, Range.Disjoint, Block.header, Block.range] at *
          omega
        obtain ⟨es, ef, en⟩ := blockSize_congr hkeep
        refine ⟨m', ?_, ⟨rfl, hne, by rw [es, hsb], by rw [ef]; exact hfb, ?_⟩,
          hrec'.cons b, ?_, fun a ha => hframe' a fun d hd => ha d (by simp [mem_cons.mp hd])⟩
        · rw [mmCoalesceLoop, if_neg (by rw [hnext]; exact fun h => h.elim hne hchc.2.1)]
          simp only [hnext, ne_eq]
          rw [if_neg fun h => hm ⟨hfb.mp h.1, hfc.mp h.2.1, hend.mp h.2.2⟩]
          exact hrun
        · rw [en, hnext]; exact hch'
        · refine hpl.of_cover (hrec'.cons b).cov fun d hd => ?_
          rcases mem_cons.mp hd with rfl | hd
          · exact hpl.data_lt d (by simp)
          · exact hpl'.data_lt d hd

/-! ## Splitting -/

variable {size : Nat}

theorem recut_split (hs : size + sizeofHeapBlock arch ≤ b.size) :
    (∀ rs a, cover ((⟨b.addr, size, false⟩ : Block).range arch ::
        (⟨b.data arch + size, b.size - size - sizeofHeapBlock arch, true⟩ : Block).range arch :: rs) a =
      cover (b.range arch :: rs) a) ∧
    sizeofHeapBlock arch + size + (sizeofHeapBlock arch + (b.size - size - sizeofHeapBlock arch)) =
      sizeofHeapBlock arch + b.size := by
  refine ⟨fun rs a => ?_, by omega⟩
  have h2 : (⟨b.data arch + size, b.size - size - sizeofHeapBlock arch, true⟩ : Block).range arch =
      ⟨b.addr + (sizeofHeapBlock arch + size), b.size - size⟩ := by
    simp only [Block.range, Block.data, Range.mk.injEq]; omega
  have h1 : (⟨b.addr, size, false⟩ : Block).range arch = ⟨b.addr, sizeofHeapBlock arch + size⟩ := rfl
  rw [h1, h2, cover_split]
  congr 2
  simp only [Block.range, Range.mk.injEq, true_and]
  omega

/-- What `MmSplitBlock` and `block->free = 0` do to the block that `kmalloc` picked. -/
structure Taken (arch : Arch) (m m' : Mem) (b n : Block) (rest : List Block) : Prop where
  addr : n.addr = b.addr
  used : n.free = false
  free : ∀ c ∈ rest, c.free = true
  chain : ∀ r, Chain arch m b.addr (b :: r) → Placed arch (b :: r) →
    Chain arch m' b.addr (n :: (rest ++ r))
  cov : ∀ rs a, cover (ranges arch (n :: rest) ++ rs) a = cover (b.range arch :: rs) a
  total : totalLen (ranges arch (n :: rest)) = (b.range arch).len
  data_lt : ∀ c ∈ rest, c.data arch < 2 ^ 32
  frame : ∀ a, ¬ (b.range arch).Contains a → m' a = m a
  touched : ∀ a, (∀ c ∈ n :: rest, ¬ (c.header arch).Contains a) → m' a = m a

theorem taken_whole (m : Mem) (b : Block) :
    Taken arch m (setFree m b.addr 0) b ⟨b.addr, b.size, false⟩ [] := by
  have hH := sizeofHeapBlock_cases arch
  have hframe : ∀ a, ¬ (b.header arch).Contains a → setFree m b.addr 0 a = m a := by
    intro a ha
    simp only [Range.Contains, Block.header] at ha
    exact writeLE_out (by omega)
  refine ⟨rfl, rfl, by simp, ?_, fun rs a => by simp [ranges, Block.range], by simp [ranges, Block.range],
    by simp, fun a ha => hframe a ?_, fun a ha => hframe a (ha ⟨b.addr, b.size, false⟩ (by simp))⟩
  · rintro r ⟨_, hne, hsize, _, hrest⟩ hpl
    refine ⟨rfl, hne, ?_, ?_, ?_⟩
    · show readLE (writeLE m _ _ _) b.addr 4 = _
      rw [readLE_writeLE_other (by omega)]; exact hsize
    · show readLE (writeLE m _ _ _) (b.addr + 4) 4 ≠ 0 ↔ _
      rw [readLE_writeLE_same]; simp
    · have hn : blockNext arch (setFree m b.addr 0) b.addr = blockNext arch m b.addr :=
        readLE_writeLE_other (by omega)
      rw [hn]
      exact chain_congr hrest fun c hc => header_congr (hpl.disjoint (l := []) hc) hframe
  · simp only [Range.Contains, Block.range, Block.header] at *; omega

theorem taken_split
    (hin : b.addr + sizeofHeapBlock arch + b.size ≤ 2 ^ 32) (hsize : blockSize m b.addr = b.size)
    (hs : size + sizeofHeapBlock arch + mmSplitMin < b.size) (hdata : blockData arch b.addr = b.data arch)
    (htest : ¬ blockSize m b.addr ≤ uptr arch (size + sizeofHeapBlock arch + mmSplitMin)) :
    Taken arch m (setFree (mmSplitBlock arch m b.addr size) b.addr 0) b ⟨b.addr, size, false⟩
      [⟨b.data arch + size, b.size - size - sizeofHeapBlock arch, true⟩] := by
  have hH := sizeofHeapBlock_cases arch
  have hmin : mmSplitMin = 16 := rfl
  have hd : b.data arch = b.addr + sizeofHeapBlock arch := rfl
  have hrem : uptr arch (blockData arch b.addr + size) = b.data arch + size := by
    rw [hdata]; exact uptr_of_lt (by omega)
  have hsub : sub32 (sub32 b.size size) (sizeofHeapBlock arch) = b.size - size - sizeofHeapBlock arch := by
    have h1 : sub32 b.size size = b.size - size := sub32_of_le (by omega) (by omega)
    rw [h1, sub32_of_le (by omega) (by omega)]
  let rem := b.data arch + size
  let m1 := setSize m rem (b.size - size - sizeofHeapBlock arch)
  let m2 := setFree m1 rem 1
  let m3 := setNext arch m2 rem (blockNext arch m2 b.addr)
  let m4 := setSize m3 b.addr size
  let m5 := setNext arch m4 b.addr rem
  have hm5 : mmSplitBlock arch m b.addr size = m5 := by
    rw [mmSplitBlock, if_neg htest]
    simp only [hrem, hsize, hsub, m5, m4, m3, m2, m1, rem]
  rw [hm5]
  have hout : ∀ a, (a < b.addr ∨ b.addr + sizeofHeapBlock arch ≤ a) →
      (a < rem ∨ rem + sizeofHeapBlock arch ≤ a) → setFree m5 b.addr 0 a = m a := by
    intro a h1 h2
    simp only [m5, m4, m3, m2, m1, setFree, setNext, setSize]
    rw [writeLE_out (by omega), writeLE_out (by omega), writeLE_out (by omega),
      writeLE_out (by omega), writeLE_out (by omega), writeLE_out (by omega)]
  have hnext : blockNext arch m2 b.addr = blockNext arch m b.addr := by
    simp only [m2, m1, blockNext, setFree, setSize]
    rw [readLE_writeLE_other (by omega), readLE_writeLE_other (by omega)]
  have hnextlt := readLE_lt m arch.ptrBytes (b.addr + 8)
  obtain ⟨hcov, htot⟩ := @recut_split arch b size (by omega)
  refine ⟨rfl, rfl, by simp, ?_, fun rs a => ?_, ?_, ?_, fun a ha => hout a ?_ ?_, fun a ha => ?_⟩
  · intro r ⟨_, hne, _, _, hrest⟩ hpl
    have hb : Chain arch (setFree m5 b.addr 0) (blockNext arch m b.addr) r := by
      refine chain_congr hrest fun c hc a ha => ?_
      have hdis := hpl.disjoint (l := []) (c := c) (by simpa using hc)
      simp only [Range.Contains, Range.Disjoint, Block.header, Block.range] at ha hdis
      exact hout a (by omega) (by omega)
    have hremlt : rem < 256 ^ arch.ptrBytes :=
      Nat.lt_of_lt_of_le (show rem < 2 ^ 32 by omega) (le_pow_ptrBytes arch)
    refine ⟨rfl, hne, ?_, ?_, ?_⟩
    · simp only [blockSize, m5, m4, setFree, setNext, setSize]
      rw [readLE_writeLE_other (by omega), readLE_writeLE_other (by omega), readLE_writeLE_same]
      exact Nat.mod_eq_of_lt (by omega)
    · simp only [blockFree, setFree]
      rw [readLE_writeLE_same]; simp
    · have hn : blockNext arch (setFree m5 b.addr 0) b.addr = rem := by
        simp only [blockNext, m5, setFree, setNext]
        rw [readLE_writeLE_other (by omega), readLE_writeLE_same]
        exact Nat.mod_eq_of_lt hremlt
      rw [hn]
      refine ⟨rfl, by show rem ≠ 0; omega, ?_, ?_, ?_⟩
      · simp only [blockSize, m5, m4, m3, m2, m1, rem, setFree, setNext, setSize]
        rw [readLE_writeLE_other (by omega), readLE_writeLE_other (by omega),
          readLE_writeLE_other (by omega), readLE_writeLE_other (by omega),
          readLE_writeLE_other (by omega), readLE_writeLE_same]
        exact Nat.mod_eq_of_lt (by omega)
      · simp only [blockFree, m5, m4, m3, m2, rem, setFree, setNext, setSize]
        rw [readLE_writeLE_other (by omega), readLE_writeLE_other (by omega),
          readLE_writeLE_other (by omega), readLE_writeLE_other (by omega), readLE_writeLE_same]
        simp
      · have hn' : blockNext arch (setFree m5 b.addr 0) rem = blockNext arch m b.addr := by
          rw [← hnext]
          simp only [blockNext, m5, m4, m3, rem, setFree, setNext, setSize]
          rw [readLE_writeLE_other (by omega), readLE_writeLE_other (by omega),
            readLE_writeLE_other (by omega), readLE_writeLE_same]
          exact Nat.mod_eq_of_lt (readLE_lt _ _ _)
        show Chain arch _ (blockNext arch (setFree m5 b.addr 0) rem) r
        rw [hn']
        exact hb
  · simpa [ranges] using hcov rs a
  · simpa [ranges, Block.range] using htot
  · intro c hc
    obtain rfl := mem_singleton.mp hc
    simp only [Block.data] at *
    omega
  · simp only [Range.Contains, Block.range] at ha; omega
  · simp only [Range.Contains, Block.range] at ha; omega
  · have h1 := ha ⟨b.addr, size, false⟩ (by simp)
    have h2 := ha ⟨rem, b.size - size - sizeofHeapBlock arch, true⟩ (by simp [rem])
    simp only [Range.Contains, Block.header] at h1 h2
    exact hout a (by omega) (by omega)

/-- The block that is handed out, and what remains of the one it was cut from. -/
def cut (arch : Arch) (size : Nat) (b : Block) : List Block :=
  if b.size ≤ size + sizeofHeapBlock arch + mmSplitMin then [⟨b.addr, b.size, false⟩]
  else
    [⟨b.addr, size, false⟩, ⟨b.data arch + size, b.size - size - sizeofHeapBlock arch, true⟩]

theorem taken_spec
    (hpl : Placed arch bs) (hb : b ∈ bs) (hsize : blockSize m b.addr = b.size) (hs : size ≤ b.size) :
    ∃ n rest, cut arch size b = n :: rest ∧ size ≤ n.size ∧
      Taken arch m (setFree (mmSplitBlock arch m b.addr size) b.addr 0) b n rest := by
  have hH := sizeofHeapBlock_cases arch
  have hmin : mmSplitMin = 16 := rfl
  have hpg : pmmPageSize = 4096 := rfl
  have hin := hpl.inside b hb
  have hsum : uptr arch (size + sizeofHeapBlock arch + mmSplitMin) =
      size + sizeofHeapBlock arch + mmSplitMin := uptr_of_lt (by omega)
  by_cases htest : blockSize m b.addr ≤ uptr arch (size + sizeofHeapBlock arch + mmSplitMin)
  · refine ⟨⟨b.addr, b.size, false⟩, [], ?_, hs, ?_⟩
    · rw [hsize, hsum] at htest
      exact if_pos htest
    · rw [mmSplitBlock, if_pos htest]
      exact taken_whole m b
  · have hlt : size + sizeofHeapBlock arch + mmSplitMin < b.size := by
      rw [hsize, hsum] at htest
      omega
    exact ⟨⟨b.addr, size, false⟩, _, if_neg (Nat.not_le.mpr hlt), Nat.le_refl size,
      taken_split hin.2 hsize hlt (hpl.blockData hb) htest⟩

end DiscouNT.Mm
