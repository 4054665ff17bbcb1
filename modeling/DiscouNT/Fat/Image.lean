import Mathlib.Data.List.Pairwise
import DiscouNT.Cdfs.Iso
import DiscouNT.Fat.Chain
import DiscouNT.Lib.Tree

/-!
# Fat.Image

A tree of directories with upper-case 8.3 names, and a FAT32 volume that stores it. On such a volume
`Fat32ReadFile` finds what the components of a path lead to, where every component is an 8.3 name in
any case (`walkPath_spec`), and reads a file that it finds as a whole (`readEntry_file`).
-/

namespace DiscouNT.Fat

open Lib Rtl Cdfs List

def nameChar (ch : UInt8) : Bool :=
  decide (33 ≤ ch ∧ ch ≤ 126) && !decide (97 ≤ ch ∧ ch ≤ 122) &&
    !([34, 42, 43, 44, 46, 47, 58, 59, 60, 61, 62, 63, 91, 92, 93, 124].contains ch)

structure ShortName where
  base : List UInt8
  ext : List UInt8
  base_ne : base ≠ []
  base_length : base.length ≤ 8
  ext_length : ext.length ≤ 3
  chars : ∀ ch ∈ base ++ ext, nameChar ch = true

def ShortName.text (n : ShortName) : List UInt8 :=
  n.base ++ if n.ext = [] then [] else dot :: n.ext

def ShortName.field (n : ShortName) : List UInt8 := padded 8 n.base ++ padded 3 n.ext

def Names (component : List UInt8) (n : ShortName) : Prop := component.map upper = n.text

instance (component : List UInt8) (n : ShortName) : Decidable (Names component n) :=
  inferInstanceAs (Decidable (_ = _))

variable {ch : UInt8}

theorem nameChar_ne {ch' : UInt8} (h : nameChar ch = true) (h' : nameChar ch' = false) :
    ch ≠ ch' := by
  rintro rfl
  rw [h] at h'
  cases h'

theorem upper_nameChar (h : nameChar ch = true) : upper ch = ch := by
  simp only [nameChar, Bool.and_eq_true, Bool.not_eq_true', decide_eq_false_iff_not] at h
  rw [upper, if_neg h.1.2]

theorem upper_eq_dot : upper ch = dot ↔ ch = dot := by
  rw [upper]
  split
  · rename_i hch
    have hle : 97 ≤ ch.toNat := UInt8.le_iff_toNat_le.mp hch.1
    have hsub : (ch - 32).toNat = ch.toNat - 32 :=
      UInt8.toNat_sub_of_le ch 32 (UInt8.le_iff_toNat_le.mpr (Nat.le_trans (by decide) hle))
    have hdot : dot.toNat = 46 := rfl
    constructor
    · intro h
      rw [h] at hsub
      omega
    · intro h
      rw [h] at hle
      omega
  · rfl

namespace ShortName

variable (n : ShortName)

theorem char_ne {ch' : UInt8} (h : ch ∈ n.base ++ n.ext) (h' : nameChar ch' = false) : ch ≠ ch' :=
  nameChar_ne (n.chars ch h) h'

theorem text_upper : n.text.map upper = n.text := by
  have hall : ∀ ch ∈ n.text, upper ch = ch := by
    intro ch hch
    rw [text, mem_append] at hch
    rcases hch with hch | hch
    · exact upper_nameChar (n.chars ch (mem_append_left _ hch))
    · split at hch
      · cases hch
      · rcases mem_cons.mp hch with rfl | hch
        · decide
        · exact upper_nameChar (n.chars ch (mem_append_right _ hch))
  rw [map_congr_left hall, map_id']

theorem text_takeWhile : n.text.takeWhile (· ≠ dot) = n.base := by
  rw [text, takeWhile_append_of_pos]
  · split <;> simp
  · intro ch hch
    simpa using n.char_ne (mem_append_left _ hch) (by decide : nameChar dot = false)

theorem text_dropWhile : (n.text.dropWhile (· ≠ dot)).drop 1 = n.ext := by
  rw [text, dropWhile_append_of_pos]
  · split
    · rename_i hext
      rw [hext]
      rfl
    · rw [dropWhile_cons_of_neg (by simp)]
      rfl
  · intro ch hch
    simpa using n.char_ne (mem_append_left _ hch) (by decide : nameChar dot = false)

end ShortName

variable {component : List UInt8}

theorem shortName_eq {n : ShortName} (h : Names component n) :
    shortName component = n.field := by
  have hpred : (fun ch : UInt8 => decide (ch ≠ dot)) ∘ upper = fun ch => decide (ch ≠ dot) := by
    funext ch
    simp [upper_eq_dot]
  have hbase : (component.takeWhile (· ≠ dot)).map upper = n.base := by
    rw [← n.text_takeWhile, ← h, takeWhile_map, hpred]
  have hext : ((component.dropWhile (· ≠ dot)).drop 1).map upper = n.ext := by
    rw [← n.text_dropWhile, ← h, dropWhile_map, hpred, map_drop]
  rw [shortName, hbase, hext, ShortName.field]

theorem padded_takeWhile {k : Nat} {name : List UInt8} (hlen : name.length ≤ k)
    (hblank : (32 : UInt8) ∉ name) : (padded k name).takeWhile (· ≠ 32) = name := by
  rw [padded, take_of_length_le hlen, takeWhile_append_of_pos]
  · cases k - name.length with
    | zero => simp
    | succ k => simp [replicate_succ]
  · intro ch hch
    simpa using fun heq : ch = 32 => hblank (heq ▸ hch)

theorem padded_length {k : Nat} {name : List UInt8} (hlen : name.length ≤ k) :
    (padded k name).length = k := by
  rw [padded, length_append, length_take, length_replicate]
  omega

namespace ShortName

theorem field_injective {n n' : ShortName} (h : n.field = n'.field) : n = n' := by
  have hblank : ∀ n : ShortName, (32 : UInt8) ∉ n.base ∧ (32 : UInt8) ∉ n.ext := fun n =>
    ⟨fun hb => n.char_ne (mem_append_left _ hb) (by decide : nameChar 32 = false) rfl,
      fun he => n.char_ne (mem_append_right _ he) (by decide : nameChar 32 = false) rfl⟩
  rw [field, field] at h
  have hsplit := append_inj h
    (by rw [padded_length n.base_length, padded_length n'.base_length])
  have hbase : n.base = n'.base := by
    rw [← padded_takeWhile n.base_length (hblank n).1, hsplit.1,
      padded_takeWhile n'.base_length (hblank n').1]
  have hext : n.ext = n'.ext := by
    rw [← padded_takeWhile n.ext_length (hblank n).2, hsplit.2,
      padded_takeWhile n'.ext_length (hblank n').2]
  cases n
  cases n'
  cases hbase
  cases hext
  rfl

theorem names_unique {n n' : ShortName} (h : Names component n)
    (h' : Names component n') : n = n' := by
  apply field_injective
  rw [← shortName_eq h, ← shortName_eq h']

theorem field_head (n : ShortName) (h : nameChar ch = false) : n.field.head? ≠ some ch := by
  cases hbase : n.base with
  | nil => exact absurd hbase n.base_ne
  | cons first rest =>
    have hne : first ≠ ch := n.char_ne (by rw [hbase]; simp) h
    rw [field, padded, hbase]
    simpa using hne

end ShortName

def liveSlots (l : List Mem) : List Mem :=
  (l.takeWhile fun slot => decide (slot 0 ≠ 0)).filter fun slot => !skipped slot 0

/-- Where the directories and files of a tree are on a volume: the first cluster of each, and its
chain. -/
structure FatImage (D F : Type) where
  volume : FatVolume
  cluster : Node D F → Nat
  chain : Node D F → List Nat

section Image

variable {D F : Type}

structure EntryFor (image : FatImage D F) (content : F → List UInt8) (e : DirEntry) (x : Node D F) :
    Prop where
  kind : e.isDirectory = true ↔ ∃ d, x = .directory d
  cluster : e.cluster = image.cluster x
  size : ∀ f, x = .file f → e.size = (content f).length

def dotNames : List (List UInt8) := [dot :: List.replicate 10 32, dot :: dot :: List.replicate 9 32]

def FatImage.slots (image : FatImage D F) (m : Disk) (d : D) : List Mem :=
  liveSlots (Fat.slots m (chainSectors image.volume (image.chain (.directory d))))

structure FatImage.Stored (image : FatImage D F) (m : Disk) (tree : Catalog ShortName D F)
    (content : F → List UInt8) : Prop where
  root : image.volume.rootCluster = image.cluster (.directory tree.root)
  chained : ∀ x, Chain m image.volume (image.cluster x) (image.chain x)
  readable : ∀ x, ∀ lba ∈ chainSectors image.volume (image.chain x), m.readable lba = true
  slots : ∀ d, ∀ slot ∈ image.slots m d, nameAt slot 0 ∈ dotNames ∨
    ∃ n x, (n, x) ∈ tree.entries d ∧ nameAt slot 0 = n.field ∧ EntryFor image content (entryAt slot 0) x
  entries : ∀ d n x, (n, x) ∈ tree.entries d → ∃ slot ∈ image.slots m d, nameAt slot 0 = n.field
  distinct : ∀ d, (tree.entries d).Pairwise fun e e' => e.1 ≠ e'.1
  room : ∀ f, (content f).length ≤
    (chainSectors image.volume (image.chain (.file f))).length * bytesPerSector
  bytes : ∀ f k lba t, (chainSectors image.volume (image.chain (.file f)))[k]? = some lba →
    t < bytesPerSector → ∀ ch, (content f)[k * bytesPerSector + t]? = some ch → m.sector lba t = ch

theorem scanSlots_found {wanted : List UInt8} {e : DirEntry} : ∀ {l : List Mem},
    scanSlots wanted l = .found e →
      ∃ slot ∈ liveSlots l, nameAt slot 0 = wanted ∧ e = entryAt slot 0 := by
  intro l
  induction l with
  | nil => intro h; cases h
  | cons slot l ih =>
    intro h
    rw [scanSlots] at h
    by_cases hzero : slot 0 = 0
    · rw [if_pos hzero] at h
      cases h
    rw [if_neg hzero] at h
    have hlive : liveSlots (slot :: l) =
        (if skipped slot 0 = true then [] else [slot]) ++ liveSlots l := by
      rw [liveSlots, takeWhile_cons_of_pos (by simpa using hzero), filter_cons]
      cases skipped slot 0 <;> rfl
    rw [hlive]
    by_cases hskip : skipped slot 0 = true
    · rw [if_pos hskip] at h ⊢
      exact ih h
    rw [if_neg hskip] at h ⊢
    by_cases hname : nameAt slot 0 = wanted
    · rw [if_pos hname] at h
      cases h
      exact ⟨slot, by simp, hname, rfl⟩
    · rw [if_neg hname] at h
      obtain ⟨slot', hmem, hrest⟩ := ih h
      exact ⟨slot', mem_append_right _ hmem, hrest⟩

theorem exists_scanSlots {wanted : List UInt8} {slot : Mem} (hname : nameAt slot 0 = wanted) :
    ∀ {l : List Mem}, slot ∈ liveSlots l → ∃ e, scanSlots wanted l = .found e := by
  intro l
  induction l with
  | nil => intro h; cases h
  | cons slot' l ih =>
    intro h
    rw [scanSlots]
    by_cases hzero : slot' 0 = 0
    · rw [liveSlots, takeWhile_cons_of_neg (by simpa using hzero)] at h
      cases h
    rw [if_neg hzero]
    rw [liveSlots, takeWhile_cons_of_pos (by simpa using hzero), filter_cons] at h
    by_cases hskip : skipped slot' 0 = true
    · rw [if_pos hskip]
      rw [hskip] at h
      exact ih h
    rw [if_neg hskip]
    by_cases hwanted : nameAt slot' 0 = wanted
    · rw [if_pos hwanted]
      exact ⟨_, rfl⟩
    rw [if_neg hwanted]
    rw [Bool.not_eq_true] at hskip
    rw [hskip] at h
    rcases mem_cons.mp h with rfl | h
    · exact absurd hname hwanted
    · exact ih h

theorem field_not_mem_dotNames (n : ShortName) : n.field ∉ dotNames := by
  intro h
  have hhead : n.field.head? = some dot := by
    simp only [dotNames, mem_cons, not_mem_nil, or_false] at h
    rcases h with h | h <;> rw [h] <;> rfl
  exact n.field_head (by decide) hhead

variable {image : FatImage D F} {m : Disk} {tree : Catalog ShortName D F}
  {content : F → List UInt8} (hstored : image.Stored m tree content)

include hstored

theorem FatImage.Stored.node_unique {d : D} {n : ShortName} {x x' : Node D F}
    (h : (n, x) ∈ tree.entries d) (h' : (n, x') ∈ tree.entries d) : x = x' := by
  by_contra hne
  have hsymm : Std.Symm fun e e' : ShortName × Node D F => e.1 ≠ e'.1 := ⟨fun _ _ h => h.symm⟩
  exact (hstored.distinct d).forall h h' (fun heq => hne (Prod.mk.inj heq).2) rfl

section Search

variable {rounds : Nat} (hrounds : ∀ x, (image.chain x).length ≤ rounds)

include hrounds

theorem FatImage.Stored.findEntry_eq (d : D) (wanted : List UInt8) :
    findEntry m image.volume wanted rounds (image.cluster (.directory d)) =
      match scanSlots wanted (Fat.slots m (chainSectors image.volume (image.chain (.directory d)))) with
      | .found e => some (some e)
      | _ => some none :=
  Fat.findEntry_eq wanted (hstored.chained _) (hrounds _) (hstored.readable _)

theorem FatImage.Stored.find_entry {d : D} {n : ShortName} {x : Node D F}
    (hentry : (n, x) ∈ tree.entries d) (hnames : Names component n) :
    ∃ e, findEntry m image.volume (shortName component) rounds (image.cluster (.directory d)) =
      some (some e) ∧ EntryFor image content e x := by
  obtain ⟨slot, hslot, hfield⟩ := hstored.entries d n x hentry
  rw [shortName_eq hnames, hstored.findEntry_eq hrounds]
  obtain ⟨e, he⟩ := exists_scanSlots hfield hslot
  rw [he]
  refine ⟨e, rfl, ?_⟩
  -- What the search comes to first is an entry of the tree with the same name.
  obtain ⟨slot', hslot', hname', rfl⟩ := scanSlots_found he
  rcases hstored.slots d slot' hslot' with hdot | ⟨n', x', hentry', hfield', hfor⟩
  · rw [hname'] at hdot
    exact absurd hdot (field_not_mem_dotNames n)
  · rw [hname'] at hfield'
    cases ShortName.field_injective hfield'
    rw [hstored.node_unique hentry hentry']
    exact hfor

theorem FatImage.Stored.find_none {d : D}
    (hnone : ∀ n x, (n, x) ∈ tree.entries d → shortName component ≠ n.field)
    (hdots : shortName component ∉ dotNames) :
    findEntry m image.volume (shortName component) rounds (image.cluster (.directory d)) =
      some none := by
  rw [hstored.findEntry_eq hrounds]
  cases hscan : scanSlots (shortName component)
      (Fat.slots m (chainSectors image.volume (image.chain (.directory d)))) with
  | ended => rfl
  | more => rfl
  | found e =>
    obtain ⟨slot, hslot, hname, -⟩ := scanSlots_found hscan
    rcases hstored.slots d slot hslot with hdot | ⟨n, x, hentry, hfield, -⟩
    · rw [hname] at hdot
      exact absurd hdot hdots
    · rw [hname] at hfield
      exact absurd hfield (hnone n x hentry)

theorem FatImage.Stored.walkPath_spec : ∀ {steps : Nat} {cursor : List UInt8} {d : D},
    cursor.length < steps → (∀ c ∈ pathComponents cursor, ∃ n, Names c n) →
      (∀ ch, cursor.head? = some ch → rtlIsPathSeparator ch = false) →
        (∃ x e, Resolves tree Names d (pathComponents cursor) x ∧
          walkPath m image.volume rounds steps cursor (image.cluster (.directory d)) =
            some (some e) ∧ EntryFor image content e x) ∨
        (∀ x, ¬ Resolves tree Names d (pathComponents cursor) x) ∧
          walkPath m image.volume rounds steps cursor (image.cluster (.directory d)) = some none := by
  intro steps
  induction steps with
  | zero => intro cursor d h; omega
  | succ steps ih =>
    intro cursor d hlt hnames hhead
    rw [walkPath]
    cases cursor with
    | nil =>
      -- The blank name is the name of no entry.
      have hblank : shortName [] = List.replicate 11 32 := by decide
      refine .inr ⟨fun x => resolves_nil, ?_⟩
      simp only [takeWhile_nil]
      rw [hstored.find_none hrounds]
      · intro n x _ heq
        exact n.field_head (by decide : nameChar 32 = false) (by rw [← heq, hblank]; rfl)
      · rw [hblank]
        decide
    | cons ch tail =>
      have hch : rtlIsPathSeparator ch = false := hhead ch rfl
      have hcomponents := pathComponents_takeWhile (takeWhile_ne_nil hch tail)
      rw [← pathComponents_dropWhile ((ch :: tail).dropWhile _)] at hcomponents
      have hnext := head?_dropWhile_not rtlIsPathSeparator
        ((ch :: tail).dropWhile (!rtlIsPathSeparator ·))
      have hlen : (((ch :: tail).dropWhile (!rtlIsPathSeparator ·)).dropWhile
          rtlIsPathSeparator).length < steps := by
        have h1 := length_dropWhile_le rtlIsPathSeparator
          ((ch :: tail).dropWhile (!rtlIsPathSeparator ·))
        have h2 := length_dropWhile_le (!rtlIsPathSeparator ·) tail
        rw [dropWhile_cons_of_pos (by simp [hch])] at h1 ⊢
        rw [length_cons] at hlt
        omega
      rw [hcomponents] at hnames ⊢
      generalize (ch :: tail).takeWhile (!rtlIsPathSeparator ·) = component at hnames ⊢
      generalize ((ch :: tail).dropWhile (!rtlIsPathSeparator ·)).dropWhile rtlIsPathSeparator =
        next at hnames hnext hlen ⊢
      rw [forall_mem_cons] at hnames
      obtain ⟨⟨n, hn⟩, hnames⟩ := hnames
      have hunique : ∀ n' x', (n', x') ∈ tree.entries d → Names component n' → n' = n :=
        fun n' x' _ h => ShortName.names_unique h hn
      have hnext : ∀ ch, next.head? = some ch → rtlIsPathSeparator ch = false := by
        intro ch hch
        rw [hch] at hnext
        simpa using hnext
      by_cases hentry : ∃ x, (n, x) ∈ tree.entries d
      swap
      · -- There is no such entry.
        refine .inr ⟨fun x hresolves => ?_, ?_⟩
        · obtain ⟨n', y, hmem, hsame, -⟩ := resolves_cons_iff.mp hresolves
          rw [hunique n' y hmem hsame] at hmem
          exact hentry ⟨y, hmem⟩
        · rw [hstored.find_none hrounds]
          · intro n' x' hmem heq
            rw [shortName_eq hn] at heq
            cases ShortName.field_injective heq
            exact hentry ⟨x', hmem⟩
          · rw [shortName_eq hn]
            exact field_not_mem_dotNames n
      obtain ⟨x, hentry⟩ := hentry
      obtain ⟨e, hfind, hfor⟩ := hstored.find_entry hrounds hentry hn
      have hnode : ∀ n' x', (n', x') ∈ tree.entries d → Names component n' → x' = x := by
        intro n' x' hmem hsame
        rw [hunique n' x' hmem hsame] at hmem
        exact hstored.node_unique hmem hentry
      rw [hfind]
      by_cases hend : next = []
      · rw [hend]
        exact .inl ⟨x, e, .last hentry hn, rfl, hfor⟩
      simp only [hend, if_false]
      have hmore : pathComponents next ≠ [] := by
        cases next with
        | nil => exact absurd rfl hend
        | cons ch' tail' =>
          rw [pathComponents_takeWhile (takeWhile_ne_nil (hnext ch' rfl) tail')]
          exact cons_ne_nil _ _
      cases x with
      | directory d' =>
        have hdir : e.isDirectory = true := hfor.kind.mpr ⟨d', rfl⟩
        rw [if_pos hdir, hfor.cluster]
        rcases ih hlen hnames hnext with ⟨x, e', hresolves, hrest⟩ | ⟨hnone, hrest⟩
        · exact .inl ⟨x, e', .step hentry hn hresolves, hrest⟩
        · refine .inr ⟨fun x hresolves => ?_, hrest⟩
          obtain ⟨n', y, hmem, hsame, ⟨heq, -⟩ | ⟨d'', rfl, hresolves⟩⟩ :=
            resolves_cons_iff.mp hresolves
          · exact hmore heq
          · cases hnode n' _ hmem hsame
            exact hnone x hresolves
      | file f =>
        have hdir : ¬ e.isDirectory = true := fun h => by
          obtain ⟨d', hd'⟩ := hfor.kind.mp h
          cases hd'
        rw [if_neg hdir]
        refine .inr ⟨fun x hresolves => ?_, rfl⟩
        obtain ⟨n', y, hmem, hsame, ⟨heq, -⟩ | ⟨d'', rfl, -⟩⟩ := resolves_cons_iff.mp hresolves
        · exact hmore heq
        · cases hnode n' _ hmem hsame

/-! ## Reading a file -/

theorem FatImage.Stored.readEntry_file {f : F} {e : DirEntry}
    (hfor : EntryFor image content e (.file f)) {alloc : Allocator} {tick : Nat}
    (hmemory : alloc tick (if e.size = 0 then 1 else e.size) ≠ none) :
    ∃ r, readEntry m image.volume alloc rounds tick e = some (some r) ∧ r.bytes = content f := by
  have hdir : ¬ e.isDirectory = true := fun h => by
    obtain ⟨d, hd⟩ := hfor.kind.mp h
    cases hd
  have hsize : e.size = (content f).length := hfor.size f rfl
  rw [readEntry, if_neg hdir]
  cases halloc : alloc tick (if e.size = 0 then 1 else e.size) with
  | none => exact absurd halloc hmemory
  | some buffer =>
    have hroom : e.size ≤
        (chainSectors image.volume (image.chain (.file f))).length * bytesPerSector := by
      rw [hsize]
      exact hstored.room f
    obtain ⟨hcopied, hbuffer⟩ := copySectors_all (m := m) hroom buffer
    simp only [halloc, hfor.cluster,
      copyChain_eq (hstored.chained (.file f)) (hrounds _) (hstored.readable _), Option.map_some,
      hcopied, ne_eq, not_true_eq_false, if_false]
    refine ⟨_, rfl, ?_⟩
    refine FileBuffer.bytes_eq hsize ?_
    intro i ch hi
    have hlt : i < (content f).length := (List.getElem?_eq_some_iff.mp hi).1
    have hsector : i / bytesPerSector <
        (chainSectors image.volume (image.chain (.file f))).length := by
      apply Nat.div_lt_of_lt_mul
      rw [Nat.mul_comm]
      exact Nat.lt_of_lt_of_le hlt (hstored.room f)
    have hsplit : i / bytesPerSector * bytesPerSector + i % bytesPerSector = i :=
      Nat.div_add_mod' i bytesPerSector
    have hmod : i % bytesPerSector < bytesPerSector := Nat.mod_lt _ (by decide)
    have hbyte := sectorBytes_eq (m := m) (getElem?_eq_getElem hsector) hmod
    rw [hsplit] at hbyte
    refine (hbuffer i (by omega)).trans (hbyte.trans ?_)
    exact hstored.bytes f _ _ _ (getElem?_eq_getElem hsector) hmod ch (by rw [hsplit]; exact hi)

end Search

end Image

end DiscouNT.Fat
