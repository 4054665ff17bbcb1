import DiscouNT.Loader.Imports

/-!
# Loader.BaseReloc

The base relocations of an image. `PePerformRelocations` walks over the blocks of a directory that
lies in the memory it changes, and checks neither the sizes of the blocks nor their pages.

* `Walk` are the walks that come to an end, with all that they read of the directory.
* `declared` is what the directory lists before the call.

`relocations_iff` says for which images the walk does what the directory lists, and nothing else.
-/

namespace DiscouNT.Loader

open Lib List

/-- What the walk reads of the directory: the header of a block, or an entry in the block of a page,
with the dword that it relocates. -/
inductive RelocItem where
  | header (p page size : Nat)
  | entry (page off : Nat) (site : Option Nat)
deriving DecidableEq, Repr

/-- `patch`, for an entry of type `HIGHLOW`. -/
def siteOf (page word : Nat) : Option Nat :=
  if word / 4096 = 3 then some (page + word % 4096) else none

namespace RelocItem

def off : RelocItem → Nat
  | header p _ _ => p
  | entry _ off _ => off

def len : RelocItem → Nat
  | header _ _ _ => 8
  | entry _ _ _ => 2

def site : RelocItem → Option Nat
  | header _ _ _ => none
  | entry _ _ site => site

def Holds : RelocItem → Mem → Prop
  | header p page size, mem => readLE mem p 4 = page ∧ readLE mem (p + 4) 4 = size
  | entry page off site, mem => siteOf page (readLE mem off 2) = site

end RelocItem

def sites (items : List RelocItem) : List Nat := items.filterMap RelocItem.site

def addAt (delta : Nat) (mem : Mem) (s : Nat) : Mem :=
  writeLE mem s 4 (u32 (readLE mem s 4 + delta))

def addAll (delta : Nat) (ss : List Nat) (mem : Mem) : Mem := ss.foldl (addAt delta) mem

def entriesListed (mem : Mem) (page p n i : Nat) : List RelocItem :=
  (List.range' i n).map fun i =>
    .entry page (p + 8 + 2 * i) (siteOf page (readLE mem (p + 8 + 2 * i) 2))

def entryCount (size : Nat) : Nat := sub32 size 8 / 2

def blocksListed (mem : Mem) (relocEnd : Nat) : Nat → Nat → List RelocItem
  | 0, _ => []
  | n + 1, p =>
    if p < relocEnd then
      let page := readLE mem p 4
      let size := readLE mem (p + 4) 4
      .header p page size ::
        (if size = 0 then []
        else
          entriesListed mem page p (entryCount size) 0 ++ blocksListed mem relocEnd n (p + size))
    else []

def relocDelta (im : Image) : Nat :=
  sub32 (u32 im.imageBase) (readLE im.mem (peOptional im.mem + 28) 4)

def relocRva (im : Image) : Nat := dataDir im.mem 10
def relocSize (im : Image) : Nat := dataDir im.mem 11

def HasRelocations (im : Image) : Prop :=
  readLE im.mem 0 4 ≠ elfMagic ∧ 5 < numberOfRvaAndSizes im.mem ∧ relocRva im ≠ 0 ∧ relocSize im ≠ 0

instance (im : Image) : Decidable (HasRelocations im) := inferInstanceAs (Decidable (_ ∧ _))

def declared (im : Image) : List RelocItem :=
  if HasRelocations im then
    blocksListed im.mem (relocRva im + relocSize im) (relocSize im) (relocRva im)
  else []

/-- The entries of a block as the loop reads them, each after the entries before it are done. -/
def entriesMet (delta page p : Nat) : Nat → Nat → Mem → List RelocItem
  | 0, _, _ => []
  | n + 1, i, mem =>
    .entry page (p + 8 + 2 * i) (siteOf page (readLE mem (p + 8 + 2 * i) 2)) ::
      entriesMet delta page p n (i + 1) (relocEntry delta page p i mem)

/-- The loop over the blocks comes to an end from `p` on, having read `items`. -/
inductive Walk (delta relocEnd : Nat) : Nat → Mem → List RelocItem → Mem → Prop where
  | done {p : Nat} {mem : Mem} (hend : ¬ p < relocEnd) : Walk delta relocEnd p mem [] mem
  | stop {p : Nat} {mem : Mem} (hlt : p < relocEnd) (hsize : readLE mem (p + 4) 4 = 0) :
      Walk delta relocEnd p mem [.header p (readLE mem p 4) 0] mem
  | block {p page size : Nat} {mem mem' : Mem} {items : List RelocItem} (hlt : p < relocEnd)
      (hpage : readLE mem p 4 = page) (hsize : readLE mem (p + 4) 4 = size) (hpos : size ≠ 0)
      (hrest : Walk delta relocEnd (p + size)
        (rounds (relocEntry delta page p) (entryCount size) 0 mem) items mem') :
      Walk delta relocEnd p mem
        (.header p page size :: (entriesMet delta page p (entryCount size) 0 mem ++ items)) mem'

inductive Performs (im : Image) : List RelocItem → Mem → Prop where
  | skipped (h : relocDelta im = 0 ∨ ¬ HasRelocations im) : Performs im [] im.mem
  | walked {items : List RelocItem} {mem' : Mem} (hdelta : relocDelta im ≠ 0)
      (hdir : HasRelocations im)
      (hwalk : Walk (relocDelta im) (relocRva im + relocSize im) (relocRva im) im.mem items mem') :
      Performs im items mem'

/-- The dword at `s` is listed once, and no other that is listed has a byte in common with it. -/
def ListedOnce (ss : List Nat) (s : Nat) : Prop :=
  ∃ before after, ss = before ++ s :: after ∧ ∀ t ∈ before ++ after, t + 4 ≤ s ∨ s + 4 ≤ t

structure Relocated (im : Image) (items : List RelocItem) (mem' : Mem) : Prop where
  inDirectory : ∀ it ∈ items, relocRva im ≤ it.off ∧ it.off + it.len ≤ relocRva im + relocSize im
  inImage : ∀ s ∈ sites items, s + 4 ≤ im.imageSize
  followed : relocDelta im ≠ 0 →
    items = declared im ∧ mem' = addAll (relocDelta im) (sites (declared im)) im.mem
  increased : ∀ s, ListedOnce (sites (declared im)) s →
    readLE mem' s 4 = u32 (readLE im.mem s 4 + relocDelta im)
  kept : ∀ q, (∀ s ∈ sites (declared im), q < s ∨ s + 4 ≤ q) → mem' q = im.mem q

def RelocatesAsListed (im : Image) : Prop :=
  ∃ items, Performs im items (pePerformRelocations im) ∧
    Relocated im items (pePerformRelocations im)

/-- No relocation that is listed before an item changes the header or the entry. -/
def Undisturbed (delta : Nat) : List RelocItem → Mem → Prop
  | [], _ => True
  | it :: items, mem => it.Holds mem ∧ Undisturbed delta items (addAll delta it.site.toList mem)

/-- The block has its header inside the directory, and the size 0 or one that counts the header and
entries inside the directory. -/
def BlockFits (relocEnd : Nat) : RelocItem → Prop
  | .header p _ size =>
    p + 8 ≤ relocEnd ∧ (size = 0 ∨ 8 ≤ size ∧ p + 8 + 2 * ((size - 8) / 2) ≤ relocEnd)
  | .entry _ _ _ => True

/-- The blocks fit into the directory, the dwords lie in the image, and none of them is changed in a
way that the walk would notice later. -/
structure WellDeclared (im : Image) : Prop where
  blocks : ∀ it ∈ declared im, BlockFits (relocRva im + relocSize im) it
  pages : ∀ s ∈ sites (declared im), s + 4 ≤ im.imageSize
  undisturbed : Undisturbed (relocDelta im) (declared im) im.mem

section Sites

variable {delta s q : Nat} {ss : List Nat} {mem : Mem}

theorem addAll_append {ss' : List Nat} :
    addAll delta (ss ++ ss') mem = addAll delta ss' (addAll delta ss mem) :=
  foldl_append

theorem readLE_addAt_same : readLE (addAt delta mem s) s 4 = u32 (readLE mem s 4 + delta) := by
  rw [addAt, readLE_writeLE_same]
  exact Nat.mod_mod _ _

theorem addAll_out :
    ∀ {ss : List Nat} {mem : Mem}, (∀ s ∈ ss, q < s ∨ s + 4 ≤ q) → addAll delta ss mem q = mem q := by
  intro ss
  induction ss with
  | nil =>
    intro mem _
    rfl
  | cons s ss ih =>
    intro mem h
    have hs : addAt delta mem s q = mem q := writeLE_out (h s (mem_cons_self ..))
    rw [addAll, foldl_cons, ← hs]
    exact ih fun t ht => h t (mem_cons_of_mem _ ht)

theorem readLE_addAll_out (h : ∀ t ∈ ss, t + 4 ≤ s ∨ s + 4 ≤ t) :
    readLE (addAll delta ss mem) s 4 = readLE mem s 4 := by
  apply readLE_congr
  intro i hi
  apply addAll_out
  intro t ht
  have := h t ht
  omega

theorem ListedOnce.readLE_addAll (h : ListedOnce ss s) :
    readLE (addAll delta ss mem) s 4 = u32 (readLE mem s 4 + delta) := by
  obtain ⟨before, after, rfl, hapart⟩ := h
  have hbefore : readLE (addAll delta before mem) s 4 = readLE mem s 4 :=
    readLE_addAll_out fun t ht => hapart t (mem_append_left _ ht)
  rw [addAll_append, addAll, foldl_cons]
  calc readLE (addAll delta after (addAt delta (addAll delta before mem) s)) s 4
      = readLE (addAt delta (addAll delta before mem) s) s 4 :=
        readLE_addAll_out fun t ht => hapart t (mem_append_right _ ht)
    _ = u32 (readLE mem s 4 + delta) := by rw [readLE_addAt_same, hbefore]

theorem sites_cons {it : RelocItem} {items : List RelocItem} :
    sites (it :: items) = it.site.toList ++ sites items := by
  rw [sites, filterMap_cons]
  cases it.site with
  | none => rfl
  | some s => rfl

theorem sites_append {items items' : List RelocItem} :
    sites (items ++ items') = sites items ++ sites items' :=
  filterMap_append

theorem relocEntry_eq {page p i : Nat} :
    relocEntry delta page p i mem =
      addAll delta (siteOf page (readLE mem (p + 8 + 2 * i) 2)).toList mem := by
  rw [relocEntry, siteOf]
  dsimp only
  by_cases h : readLE mem (p + 8 + 2 * i) 2 / 4096 = 3
  · rw [if_pos h, if_pos h]
    rfl
  · rw [if_neg h, if_neg h]
    rfl

end Sites

section Walk

variable {delta relocEnd : Nat}

theorem rounds_entries {page p : Nat} : ∀ {n i : Nat} {mem : Mem},
    rounds (relocEntry delta page p) n i mem =
      addAll delta (sites (entriesMet delta page p n i mem)) mem := by
  intro n
  induction n with
  | zero =>
    intro i mem
    rfl
  | succ n ih =>
    intro i mem
    rw [rounds, ih, entriesMet, sites_cons, addAll_append, RelocItem.site, ← relocEntry_eq]

theorem Walk.memory {p : Nat} {mem mem' : Mem} {items : List RelocItem}
    (h : Walk delta relocEnd p mem items mem') : mem' = addAll delta (sites items) mem := by
  induction h with
  | done hend => rfl
  | stop hlt hsize => rfl
  | block hlt hpage hsize hpos hrest ih =>
    rw [ih, rounds_entries, sites_cons, sites_append, RelocItem.site, Option.toList_none,
      nil_append, addAll_append]

theorem Walk.relocBlocks {p : Nat} {mem mem' : Mem} {items : List RelocItem}
    (h : Walk delta relocEnd p mem items mem') :
    ∀ {n : Nat}, relocEnd ≤ p + n → relocBlocks delta relocEnd n p mem = mem' := by
  induction h with
  | done hend =>
    intro n hn
    cases n with
    | zero => rfl
    | succ n => rw [Loader.relocBlocks, if_neg hend]
  | stop hlt hsize =>
    intro n hn
    cases n with
    | zero => omega
    | succ n =>
      rw [Loader.relocBlocks, if_pos hlt]
      exact if_pos hsize
  | block hlt hpage hsize hpos hrest ih =>
    intro n hn
    cases n with
    | zero => omega
    | succ n =>
      subst hpage hsize
      rw [Loader.relocBlocks, if_pos hlt]
      dsimp only
      rw [if_neg hpos]
      exact ih (by omega)

theorem undisturbed_header {p page size : Nat} {items : List RelocItem} {mem : Mem} :
    Undisturbed delta (.header p page size :: items) mem ↔
      (readLE mem p 4 = page ∧ readLE mem (p + 4) 4 = size) ∧ Undisturbed delta items mem :=
  Iff.rfl

theorem undisturbed_entriesMet {page p : Nat} {rest : List RelocItem} : ∀ {n i : Nat} {mem : Mem},
    Undisturbed delta rest (rounds (relocEntry delta page p) n i mem) →
      Undisturbed delta (entriesMet delta page p n i mem ++ rest) mem := by
  intro n
  induction n with
  | zero =>
    intro i mem h
    exact h
  | succ n ih =>
    intro i mem h
    rw [rounds] at h
    rw [entriesMet, cons_append, Undisturbed, RelocItem.site, ← relocEntry_eq]
    exact ⟨rfl, ih h⟩

theorem Walk.undisturbed {p : Nat} {mem mem' : Mem} {items : List RelocItem}
    (h : Walk delta relocEnd p mem items mem') : Undisturbed delta items mem := by
  induction h with
  | done hend => trivial
  | stop hlt hsize => exact ⟨⟨rfl, hsize⟩, trivial⟩
  | block hlt hpage hsize hpos hrest ih =>
    rw [undisturbed_header]
    exact ⟨⟨hpage, hsize⟩, undisturbed_entriesMet ih⟩

theorem entriesMet_of_undisturbed {mem0 : Mem} {page p : Nat} {rest : List RelocItem} :
    ∀ {n i : Nat} {mem : Mem},
      Undisturbed delta (entriesListed mem0 page p n i ++ rest) mem →
        entriesMet delta page p n i mem = entriesListed mem0 page p n i ∧
          Undisturbed delta rest (rounds (relocEntry delta page p) n i mem) := by
  intro n
  induction n with
  | zero =>
    intro i mem h
    exact ⟨rfl, h⟩
  | succ n ih =>
    intro i mem h
    have hlisted : entriesListed mem0 page p (n + 1) i =
        .entry page (p + 8 + 2 * i) (siteOf page (readLE mem0 (p + 8 + 2 * i) 2)) ::
          entriesListed mem0 page p n (i + 1) := by
      rw [entriesListed, range'_succ, map_cons, entriesListed]
    rw [hlisted, cons_append] at h
    obtain ⟨hhead, hrest⟩ := h
    have hsite : siteOf page (readLE mem (p + 8 + 2 * i) 2) =
        siteOf page (readLE mem0 (p + 8 + 2 * i) 2) := hhead
    rw [RelocItem.site, ← hsite, ← relocEntry_eq] at hrest
    obtain ⟨hmet, hrest⟩ := ih hrest
    rw [hlisted, entriesMet, hsite, hmet, rounds]
    exact ⟨rfl, hrest⟩

theorem walk_of_undisturbed {mem0 : Mem} : ∀ {n p : Nat} {mem : Mem}, relocEnd ≤ p + n →
    Undisturbed delta (blocksListed mem0 relocEnd n p) mem →
      ∃ mem', Walk delta relocEnd p mem (blocksListed mem0 relocEnd n p) mem' := by
  intro n
  induction n with
  | zero =>
    intro p mem hn _
    exact ⟨mem, .done (by omega)⟩
  | succ n ih =>
    intro p mem hn h
    rw [blocksListed] at h ⊢
    by_cases hlt : p < relocEnd
    · rw [if_pos hlt] at h ⊢
      dsimp only at h ⊢
      rw [undisturbed_header] at h
      obtain ⟨⟨hpage, hsize⟩, hrest⟩ := h
      by_cases hzero : readLE mem0 (p + 4) 4 = 0
      · rw [if_pos hzero, hzero, ← hpage]
        exact ⟨mem, .stop hlt (hsize.trans hzero)⟩
      · rw [if_neg hzero] at hrest ⊢
        obtain ⟨hmet, hrest⟩ := entriesMet_of_undisturbed hrest
        obtain ⟨mem', hwalk⟩ := ih (by omega) hrest
        refine ⟨mem', ?_⟩
        rw [← hmet]
        exact .block hlt hpage hsize hzero hwalk
    · rw [if_neg hlt]
      exact ⟨mem, .done hlt⟩

end Walk

section Blocks

variable {mem : Mem} {relocEnd : Nat}

theorem entryCount_of_le {size : Nat} (hle : 8 ≤ size) (hlt : size < 2 ^ 32) :
    entryCount size = (size - 8) / 2 := by
  rw [entryCount, sub32_of_le hlt hle]

theorem entryCount_wraps {size : Nat} (hpos : 0 < size) (hlt : size < 8) :
    2 ^ 32 ≤ 8 + 2 * entryCount size := by
  rw [entryCount, sub32, Nat.mod_eq_of_lt (by omega)]
  omega

def EntryOf (p size : Nat) (it : RelocItem) : Prop :=
  ∃ page i site, i < entryCount size ∧ it = .entry page (p + 8 + 2 * i) site

theorem mem_entriesListed {page p size : Nat} {it : RelocItem}
    (h : it ∈ entriesListed mem page p (entryCount size) 0) : EntryOf p size it := by
  rw [entriesListed, mem_map] at h
  obtain ⟨i, hi, rfl⟩ := h
  rw [mem_range'_1] at hi
  exact ⟨page, i, _, by omega, rfl⟩

theorem listed_cases {it : RelocItem} : ∀ {n p : Nat}, it ∈ blocksListed mem relocEnd n p →
    ∃ q page size, .header q page size ∈ blocksListed mem relocEnd n p ∧ p ≤ q ∧ q < relocEnd ∧
      size < 2 ^ 32 ∧ (it = .header q page size ∨ size ≠ 0 ∧ EntryOf q size it) := by
  intro n
  induction n with
  | zero =>
    intro p h
    cases h
  | succ n ih =>
    intro p h
    rw [blocksListed] at h ⊢
    by_cases hlt : p < relocEnd
    · rw [if_pos hlt] at h ⊢
      dsimp only at h ⊢
      have hsize : readLE mem (p + 4) 4 < 2 ^ 32 := readLE_lt mem 4 _
      rcases mem_cons.mp h with hhead | hrest
      · exact ⟨p, _, _, mem_cons_self .., Nat.le_refl p, hlt, hsize, .inl hhead⟩
      · by_cases hzero : readLE mem (p + 4) 4 = 0
        · rw [if_pos hzero] at hrest
          cases hrest
        · rw [if_neg hzero] at hrest ⊢
          rcases mem_append.mp hrest with hentry | hlater
          · exact ⟨p, _, _, mem_cons_self .., Nat.le_refl p, hlt, hsize,
              .inr ⟨hzero, mem_entriesListed hentry⟩⟩
          · obtain ⟨q, page, size, hq, hle, hltq, hsizeq, hcases⟩ := ih hlater
            exact ⟨q, page, size, mem_cons_of_mem _ (mem_append_right _ hq), by omega,
              hltq, hsizeq, hcases⟩
    · rw [if_neg hlt] at h
      cases h

theorem header_size_lt {q page size n p : Nat}
    (h : .header q page size ∈ blocksListed mem relocEnd n p) : size < 2 ^ 32 := by
  obtain ⟨_, _, _, _, _, _, hsize, hcases⟩ := listed_cases h
  rcases hcases with hhead | ⟨_, _, _, _, _, hne⟩
  · cases hhead
    exact hsize
  · cases hne

theorem entry_listed {q page size i : Nat} (hpos : size ≠ 0) (hi : i < entryCount size) :
    ∀ {n p : Nat}, .header q page size ∈ blocksListed mem relocEnd n p →
      ∃ site, .entry page (q + 8 + 2 * i) site ∈ blocksListed mem relocEnd n p := by
  intro n
  induction n with
  | zero =>
    intro p h
    cases h
  | succ n ih =>
    intro p h
    rw [blocksListed] at h ⊢
    by_cases hlt : p < relocEnd
    · rw [if_pos hlt] at h ⊢
      dsimp only at h ⊢
      rcases mem_cons.mp h with hhead | hrest
      · cases hhead
        refine ⟨siteOf (readLE mem q 4) (readLE mem (q + 8 + 2 * i) 2), ?_⟩
        rw [if_neg hpos]
        refine mem_cons_of_mem _ (mem_append_left _ (mem_map.mpr ⟨i, ?_, rfl⟩))
        rw [mem_range'_1]
        omega
      · by_cases hzero : readLE mem (p + 4) 4 = 0
        · rw [if_pos hzero] at hrest
          cases hrest
        · rw [if_neg hzero] at hrest ⊢
          rcases mem_append.mp hrest with hentry | hlater
          · obtain ⟨_, _, _, _, hne⟩ := mem_entriesListed hentry
            cases hne
          · obtain ⟨site, hsite⟩ := ih hlater
            exact ⟨site, mem_cons_of_mem _ (mem_append_right _ hsite)⟩
    · rw [if_neg hlt] at h
      cases h

end Blocks

/-! ## The whole call -/

section Call

variable {im : Image} {items : List RelocItem} {mem' : Mem}

theorem pePerformRelocations_eq : pePerformRelocations im =
    if relocDelta im = 0 ∨ ¬ HasRelocations im then im.mem
    else relocBlocks (relocDelta im) (relocRva im + relocSize im) (relocSize im) (relocRva im)
      im.mem := by
  rw [pePerformRelocations]
  dsimp only
  change (if readLE im.mem 0 4 = elfMagic then im.mem
    else if relocDelta im = 0 then im.mem
    else if numberOfRvaAndSizes im.mem ≤ 5 then im.mem
    else if relocRva im = 0 ∨ relocSize im = 0 then im.mem
    else relocBlocks (relocDelta im) (relocRva im + relocSize im) (relocSize im) (relocRva im)
      im.mem) = _
  by_cases helf : readLE im.mem 0 4 = elfMagic
  · rw [if_pos helf, if_pos (.inr fun h => h.1 helf)]
  · rw [if_neg helf]
    by_cases hdelta : relocDelta im = 0
    · rw [if_pos hdelta, if_pos (.inl hdelta)]
    · rw [if_neg hdelta]
      by_cases hcount : numberOfRvaAndSizes im.mem ≤ 5
      · rw [if_pos hcount, if_pos (.inr fun h => absurd h.2.1 (Nat.not_lt.mpr hcount))]
      · rw [if_neg hcount]
        by_cases hdir : relocRva im = 0 ∨ relocSize im = 0
        · rw [if_pos hdir, if_pos (.inr fun h => hdir.elim h.2.2.1 h.2.2.2)]
        · rw [if_neg hdir, if_neg]
          rintro (h | h)
          · exact hdelta h
          · exact h ⟨helf, Nat.not_le.mp hcount, fun h0 => hdir (.inl h0), fun h0 => hdir (.inr h0)⟩

theorem Performs.memory (h : Performs im items mem') : pePerformRelocations im = mem' := by
  rw [pePerformRelocations_eq]
  cases h with
  | skipped h => exact if_pos h
  | walked hdelta hdir hwalk =>
    rw [if_neg (not_or.mpr ⟨hdelta, not_not.mpr hdir⟩)]
    exact hwalk.relocBlocks (Nat.le_refl _)

theorem relocSize_lt (im : Image) : relocSize im < 2 ^ 32 := readLE_lt im.mem 4 _

theorem declared_of (hdir : HasRelocations im) : declared im =
    blocksListed im.mem (relocRva im + relocSize im) (relocSize im) (relocRva im) :=
  if_pos hdir

theorem inDirectory_iff :
    (∀ it ∈ declared im, relocRva im ≤ it.off ∧ it.off + it.len ≤ relocRva im + relocSize im) ↔
      ∀ it ∈ declared im, BlockFits (relocRva im + relocSize im) it := by
  by_cases hdir : HasRelocations im
  · rw [declared_of hdir]
    constructor
    · intro h it hit
      cases it with
      | entry page off site => trivial
      | header p page size =>
        have hhead := h _ hit
        rw [RelocItem.off, RelocItem.len] at hhead
        refine ⟨hhead.2, ?_⟩
        by_cases hpos : size = 0
        · exact .inl hpos
        · have hlast : ∀ i < entryCount size,
              p + 8 + 2 * i + 2 ≤ relocRva im + relocSize im := by
            intro i hi
            obtain ⟨site, hsite⟩ := entry_listed hpos hi hit
            exact (h _ hsite).2
          have hdirSize := relocSize_lt im
          have hsize : size < 2 ^ 32 := header_size_lt hit
          refine .inr ?_
          by_cases hle : 8 ≤ size
          · rw [entryCount_of_le hle hsize] at hlast
            refine ⟨hle, ?_⟩
            by_cases hnone : (size - 8) / 2 = 0
            · omega
            · have := hlast ((size - 8) / 2 - 1) (by omega)
              omega
          · -- The count wraps, and its last entry is 4 GiB further on.
            have hwraps := entryCount_wraps (by omega) (Nat.not_le.mp hle)
            have := hlast (entryCount size - 1) (by omega)
            omega
    · intro h it hit
      obtain ⟨q, page, size, hq, hle, hlt, hsize, hcases⟩ := listed_cases hit
      obtain ⟨hhead, hentries⟩ := h _ hq
      rcases hcases with rfl | ⟨hpos, page', i, site, hi, rfl⟩
      · exact ⟨hle, hhead⟩
      · have hfit := hentries.resolve_left hpos
        rw [entryCount_of_le hfit.1 hsize] at hi
        rw [RelocItem.off, RelocItem.len]
        omega
  · rw [declared, if_neg hdir]
    exact ⟨fun _ _ h => (not_mem_nil h).elim, fun _ _ h => (not_mem_nil h).elim⟩

theorem WellDeclared.of_none (hdir : ¬ HasRelocations im) : WellDeclared im := by
  have hnil : declared im = [] := if_neg hdir
  constructor
  · rw [hnil]
    exact fun _ h => (not_mem_nil h).elim
  · rw [hnil]
    exact fun _ h => (not_mem_nil h).elim
  · rw [hnil]
    trivial

theorem Relocated.wellDeclared (hrelocated : Relocated im items mem')
    (hperforms : Performs im items mem') (hdelta : relocDelta im ≠ 0) : WellDeclared im := by
  obtain ⟨hitems, _⟩ := hrelocated.followed hdelta
  have hdirectory := hrelocated.inDirectory
  have himage := hrelocated.inImage
  cases hperforms with
  | skipped hskip => exact .of_none (hskip.resolve_left hdelta)
  | walked _ _ hwalk =>
    rw [hitems] at hdirectory himage hwalk
    exact ⟨inDirectory_iff.mp hdirectory, himage, hwalk.undisturbed⟩

theorem RelocatesAsListed.wellDeclared (h : RelocatesAsListed im) (hdelta : relocDelta im ≠ 0) :
    WellDeclared im := by
  obtain ⟨items, hperforms, hrelocated⟩ := h
  exact hrelocated.wellDeclared hperforms hdelta

theorem Relocated.of_zero (hdelta : relocDelta im = 0) : Relocated im [] im.mem where
  inDirectory := fun _ h => (not_mem_nil h).elim
  inImage := fun _ h => (not_mem_nil h).elim
  followed := fun h => absurd hdelta h
  increased := by
    intro s _
    rw [hdelta, Nat.add_zero]
    exact (u32_of_lt (readLE_lt im.mem 4 s)).symm
  kept := fun _ _ => rfl

theorem WellDeclared.relocated (h : WellDeclared im) :
    Relocated im (declared im) (addAll (relocDelta im) (sites (declared im)) im.mem) where
  inDirectory := inDirectory_iff.mpr h.blocks
  inImage := h.pages
  followed := fun _ => ⟨rfl, rfl⟩
  increased := fun _ hs => hs.readLE_addAll
  kept := fun _ hq => addAll_out hq

theorem WellDeclared.performs (h : WellDeclared im) (hdelta : relocDelta im ≠ 0) :
    Performs im (declared im) (addAll (relocDelta im) (sites (declared im)) im.mem) := by
  by_cases hdir : HasRelocations im
  · have hundisturbed := h.undisturbed
    rw [declared_of hdir] at hundisturbed ⊢
    obtain ⟨mem', hwalk⟩ := walk_of_undisturbed (Nat.le_refl _) hundisturbed
    have hmem := hwalk.memory
    subst hmem
    exact .walked hdelta hdir hwalk
  · rw [declared, if_neg hdir]
    exact .skipped (.inr hdir)

/-- `PePerformRelocations` does what the directory lists, and nothing else, exactly if the image is
where it was linked for, or its blocks fit and its relocations do not disturb the directory. -/
theorem relocations_iff (im : Image) :
    RelocatesAsListed im ↔ relocDelta im = 0 ∨ WellDeclared im := by
  constructor
  · intro h
    by_cases hdelta : relocDelta im = 0
    · exact .inl hdelta
    · exact .inr (h.wellDeclared hdelta)
  · intro h
    by_cases hdelta : relocDelta im = 0
    · have hperforms : Performs im [] im.mem := .skipped (.inl hdelta)
      have hmem := hperforms.memory
      exact ⟨[], hmem ▸ hperforms, hmem ▸ Relocated.of_zero hdelta⟩
    · have hdeclared := h.resolve_left hdelta
      have hperforms := hdeclared.performs hdelta
      have hmem := hperforms.memory
      exact ⟨declared im, hmem ▸ hperforms, hmem ▸ hdeclared.relocated⟩

/-- A file for an image of 512 bytes whose directory has one block, of 10 bytes, for the page
`0x1000`. -/
def strayPage : File where
  bytes := ofSegments [(0, [0x4D, 0x5A]), (60, [64]), (64, [0x50, 0x45]), (88, [0x0B, 0x01]),
    (144, [0, 2]), (148, [0, 1]), (180, [6]), (224, [240]), (228, [10]), (240, [0, 0x10]),
    (244, [10]), (248, [0, 0x30])]
  size := 256
  size_lt := by decide

/-- The dword of its only entry lies behind the image. -/
theorem relocations_stray : ∃ im,
    (peLoadImage .x86 roomyEnv strayPage 0x1000).image = some im ∧ ¬ RelocatesAsListed im := by
  have hload : (peLoadImage .x86 roomyEnv strayPage 0x1000).image.map (fun im =>
      (relocDelta im, sites (declared im), im.imageSize)) = some (0x10A0, [0x1000], 512) := by
    decide +kernel
  rw [Option.map_eq_some_iff] at hload
  obtain ⟨im, him, hvalues⟩ := hload
  simp only [Prod.mk.injEq] at hvalues
  obtain ⟨hdelta, hsites, hsize⟩ := hvalues
  refine ⟨im, him, fun h => ?_⟩
  have hpages := (h.wellDeclared (by omega)).pages 0x1000 (by rw [hsites]; exact .head _)
  omega

end Call

end DiscouNT.Loader
