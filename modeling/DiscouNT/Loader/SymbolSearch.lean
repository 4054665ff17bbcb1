import DiscouNT.Loader.Addresses

/-!
# Loader.SymbolSearch

The search of `PeGetELF64ProcAddress` for a name. It counts in 16 bits against a 32-bit number of
symbols: it finds the first symbol of the name as long as the counter gets there, and otherwise it
ends only if the counter can pass the end of the table.
-/

namespace DiscouNT.Loader

open Lib List

/-- The table that `PeGetELF64ProcAddress` searches. -/
structure SymbolTable where
  symtab : Nat
  strtab : Nat
  count : Nat
deriving DecidableEq

/-- The dynamic symbols, or the static ones where these are not complete; none where the section
headers are not in the file or not named. -/
def elf64SymbolTable (im : Image) : Option SymbolTable :=
  let m := im.source.bytes
  let e := elf64Header m
  if im.source.size < u64 (e.shoff + e.shnum * e.shentsize) ∨ e.shnum ≤ e.shstrndx then none
  else
    let t := elf64ProcTables m e
    match t.symtab, t.strtab with
    | some symtab, some strtab => some ⟨symtab, strtab, t.count⟩
    | _, _ =>
      match t.staticSymtab, t.staticStrtab with
      | some symtab, some strtab => some ⟨symtab, strtab, t.staticCount⟩
      | _, _ => none

def SymbolTable.sym (t : SymbolTable) (m : Mem) (i : Nat) : Elf64Sym :=
  elf64Sym m (t.symtab + sizeofElf64Sym * i)

def SymbolTable.named (t : SymbolTable) (m : Mem) (func : Name) (i : Nat) : Bool :=
  decide ((t.sym m i).name ≠ 0) && strEq m (t.strtab + (t.sym m i).name) func

def SymbolTable.first (t : SymbolTable) (m : Mem) (func : Name) : Option Elf64Sym :=
  ((List.range t.count).find? (t.named m func)).map (t.sym m)

/-- Where a symbol is at run time, as the relocations have it; 0 for an undefined one. -/
def symbolAddress (arch : Arch) (im : Image) (sym : Elf64Sym) : Nat :=
  if sym.value = 0 then 0
  else if im.elfBaseVaddr ≤ sym.value then uptr arch (im.imageBase + (sym.value - im.elfBaseVaddr))
  else uptr arch (im.imageBase + sym.value)

def firstAddress (arch : Arch) (im : Image) (func : Name) : Nat :=
  match (elf64SymbolTable im).bind fun t => t.first im.source.bytes func with
  | none => 0
  | some sym => symbolAddress arch im sym

section Search

variable {m : Mem} {t : SymbolTable} {func : Name} {fuel i j : Nat}

abbrev SymbolTable.search (t : SymbolTable) (m : Mem) (func : Name) (fuel i : Nat) :
    Option (Option Elf64Sym) :=
  elf64FindSymbol m t.symtab t.strtab t.count func fuel i

theorem search_end (hi : t.count ≤ i) : t.search m func (fuel + 1) i = some none := by
  rw [SymbolTable.search, elf64FindSymbol, if_neg (by omega)]

theorem search_named (hi : i < t.count) (hn : t.named m func i = true) :
    t.search m func (fuel + 1) i = some (some (t.sym m i)) := by
  rw [SymbolTable.named, Bool.and_eq_true, decide_eq_true_eq] at hn
  rw [SymbolTable.search, elf64FindSymbol, if_pos hi]
  refine if_neg ?_
  rintro (hname | heq)
  · exact hn.1 hname
  · rw [SymbolTable.sym] at hn
    rw [hn.2] at heq
    cases heq

theorem search_other (hi : i < t.count) (hn : t.named m func i = false) :
    t.search m func (fuel + 1) i = t.search m func fuel ((i + 1) % 65536) := by
  rw [SymbolTable.named, Bool.and_eq_false_iff, decide_eq_false_iff_not, ne_eq, not_not] at hn
  rw [SymbolTable.search, elf64FindSymbol, if_pos hi]
  exact if_pos hn

theorem search_found (hj : j < t.count) (h16 : j < 65536) (hn : t.named m func j = true)
    (hfirst : ∀ k < j, t.named m func k = false) (hle : i ≤ j) (hfuel : j < i + fuel) :
    t.search m func fuel i = some (some (t.sym m j)) := by
  induction fuel generalizing i with
  | zero => omega
  | succ fuel ih =>
    by_cases hi : i = j
    · subst hi
      exact search_named hj hn
    · rw [search_other (by omega) (hfirst i (by omega)), Nat.mod_eq_of_lt (by omega)]
      exact ih (by omega) (by omega)

theorem search_absent (h16 : t.count < 65536) (hno : ∀ k < t.count, t.named m func k = false)
    (hle : i ≤ t.count) (hfuel : t.count < i + fuel) : t.search m func fuel i = some none := by
  induction fuel generalizing i with
  | zero => omega
  | succ fuel ih =>
    by_cases hi : i < t.count
    · rw [search_other hi (hno i hi), Nat.mod_eq_of_lt (by omega)]
      exact ih (by omega) (by omega)
    · exact search_end (by omega)

theorem search_forever (h16 : 65536 ≤ t.count) (hno : ∀ k < 65536, t.named m func k = false)
    (hi : i < 65536) : t.search m func fuel i = none := by
  induction fuel generalizing i with
  | zero => rfl
  | succ fuel ih =>
    rw [search_other (by omega) (hno i hi)]
    exact ih (Nat.mod_lt _ (by decide))

def SymbolTable.Reaches (t : SymbolTable) (m : Mem) (func : Name) : Prop :=
  t.count ≤ 65535 ∨ ∃ i < 65536, t.named m func i = true

theorem search_reaches (hr : t.Reaches m func) :
    t.search m func 65537 0 = some (t.first m func) := by
  rw [SymbolTable.first]
  cases hfind : (List.range t.count).find? (t.named m func) with
  | none =>
    have hno : ∀ k < t.count, t.named m func k = false := by
      intro k hk
      simpa using find?_eq_none.mp hfind k (mem_range.mpr hk)
    have h16 : t.count < 65536 := by
      rcases hr with hle | ⟨i, hi, hn⟩
      · omega
      · by_contra hcount
        rw [hno i (by omega)] at hn
        cases hn
    exact search_absent h16 hno (Nat.zero_le _) (by omega)
  | some j =>
    obtain ⟨hn, hj, hbefore⟩ := find?_range_eq_some.mp hfind
    have hfirst : ∀ k < j, t.named m func k = false := by
      intro k hk
      simpa using hbefore k hk
    rw [mem_range] at hj
    have h16 : j < 65536 := by
      rcases hr with hle | ⟨i, hi, hni⟩
      · omega
      · by_contra hlarge
        rw [hfirst i (by omega)] at hni
        cases hni
    exact search_found hj h16 hn hfirst (Nat.zero_le _) (by omega)

theorem search_not_reaches (hr : ¬ t.Reaches m func) (fuel : Nat) :
    t.search m func fuel 0 = none := by
  rw [SymbolTable.Reaches, not_or, not_exists] at hr
  refine search_forever (by omega) (fun k hk => ?_) (by decide)
  simpa [hk] using hr.2 k

end Search

section Answer

variable {arch : Arch} {im : Image} {func : Name}

def foundAddress (arch : Arch) (im : Image) : Option Elf64Sym → Nat
  | none => 0
  | some sym => symbolAddress arch im sym

theorem found_eq (arch : Arch) (im : Image) (r : Option (Option Elf64Sym)) :
    (match r with
      | none => none
      | some none => some 0
      | some (some sym) =>
        if sym.value = 0 then some 0
        else if im.elfBaseVaddr ≤ sym.value then
          some (uptr arch (im.imageBase + (sym.value - im.elfBaseVaddr)))
        else some (uptr arch (im.imageBase + sym.value))) = r.map (foundAddress arch im) := by
  rcases r with _ | _ | sym
  · rfl
  · rfl
  · simp only [Option.map_some, foundAddress, symbolAddress]
    split
    · rfl
    · split <;> rfl

theorem peGetElf64ProcAddress_eq (arch : Arch) (im : Image) (func : Name) :
    peGetElf64ProcAddress arch im func =
      match elf64SymbolTable im with
      | none => some 0
      | some t => (t.search im.source.bytes func 65537 0).map (foundAddress arch im) := by
  unfold peGetElf64ProcAddress elf64SymbolTable
  simp only
  by_cases hsize : im.source.size < u64 ((elf64Header im.source.bytes).shoff +
      (elf64Header im.source.bytes).shnum * (elf64Header im.source.bytes).shentsize)
  · rw [if_pos hsize, if_pos (.inl hsize)]
  · by_cases hidx : (elf64Header im.source.bytes).shnum ≤ (elf64Header im.source.bytes).shstrndx
    · rw [if_neg hsize, if_pos hidx, if_pos (.inr hidx)]
    · have hheaders : ¬ (im.source.size < u64 ((elf64Header im.source.bytes).shoff +
          (elf64Header im.source.bytes).shnum * (elf64Header im.source.bytes).shentsize) ∨
          (elf64Header im.source.bytes).shnum ≤ (elf64Header im.source.bytes).shstrndx) :=
        not_or.mpr ⟨hsize, hidx⟩
      rw [if_neg hsize, if_neg hidx, if_neg hheaders]
      generalize elf64ProcTables im.source.bytes (elf64Header im.source.bytes) = t
      obtain ⟨symtab, strtab, count, staticSymtab, staticStrtab, staticCount⟩ := t
      -- the dynamic tables are taken if both are there, else the static ones if both are
      cases symtab <;> cases strtab <;> cases staticSymtab <;> cases staticStrtab <;>
        simp only [reduceCtorEq, or_self, or_true, true_or, if_true, if_false] <;>
        first
        | rfl
        | exact found_eq arch im _

/-- `PeGetELF64ProcAddress` answers with the first symbol of the name if and only if the table has
at most 65535 symbols or the name is among the first 65536; otherwise its loop never ends. -/
theorem symbol_search_iff (arch : Arch) (im : Image) (func : Name) :
    (peGetElf64ProcAddress arch im func = some (firstAddress arch im func) ↔
      ∀ t, elf64SymbolTable im = some t → t.Reaches im.source.bytes func) ∧
    ∀ t, elf64SymbolTable im = some t → ¬ t.Reaches im.source.bytes func →
      ∀ fuel, t.search im.source.bytes func fuel 0 = none := by
  refine ⟨?_, fun t _ hr fuel => search_not_reaches hr fuel⟩
  rw [peGetElf64ProcAddress_eq, firstAddress]
  cases htable : elf64SymbolTable im with
  | none => simp
  | some t =>
    simp only [Option.bind_some]
    constructor
    · rintro h t' ht'
      cases ht'
      by_contra hr
      rw [search_not_reaches hr] at h
      cases h
    · intro hr
      rw [search_reaches (hr t rfl)]
      cases t.first im.source.bytes func <;> rfl

end Answer

/-- The sample object with a `.dynsym` that says it has 65536 symbols, most of them without a
name. -/
def crowdedElf64 : File where
  bytes := writeLE (sampleElf64 0).bytes 360 8 (24 * 65536)
  size := 584
  size_lt := (sampleElf64 0).size_lt

def crowdedTable : SymbolTable := ⟨128, 176, 65536⟩

theorem crowded_quiet {p : Nat} (hp : 584 ≤ p) : crowdedElf64.bytes p = 0 := by
  unfold crowdedElf64 sampleElf64
  simp only
  repeat rw [writeLE_out (by omega)]

theorem crowded_nameless {func : Name} {i : Nat} (hi : 19 ≤ i) :
    crowdedTable.named crowdedElf64.bytes func i = false := by
  have hname : (crowdedTable.sym crowdedElf64.bytes i).name = 0 := by
    simp only [SymbolTable.sym, crowdedTable, sizeofElf64Sym, elf64Sym, readLE]
    rw [crowded_quiet (by omega), crowded_quiet (by omega), crowded_quiet (by omega),
      crowded_quiet (by omega)]
    rfl
  rw [SymbolTable.named, hname]
  rfl

/-- It loads, and the search for a name it does not have goes on for ever. -/
theorem search_of_crowded_never_ends :
    ∃ im, (peLoadElf64 .amd64 roomyEnv crowdedElf64 0x100000).image = some im ∧
      firstAddress .amd64 im (ascii "g") = 0 ∧
      peGetElf64ProcAddress .amd64 im (ascii "g") = none := by
  have hloaded : (peLoadElf64 .amd64 roomyEnv crowdedElf64 0x100000).image.isSome = true := by
    decide +kernel
  obtain ⟨im, him⟩ := Option.isSome_iff_exists.mp hloaded
  have hsource := (peLoadElf64_image him).2.2.1
  have htable : elf64SymbolTable im = some crowdedTable := by
    unfold elf64SymbolTable
    rw [hsource]
    decide +kernel
  have hfew : ∀ i < 19, crowdedTable.named crowdedElf64.bytes (ascii "g") i = false := by
    decide +kernel
  have hno : ∀ i, crowdedTable.named crowdedElf64.bytes (ascii "g") i = false := by
    intro i
    by_cases hi : i < 19
    · exact hfew i hi
    · exact crowded_nameless (by omega)
  refine ⟨im, him, ?_, ?_⟩
  · have hfirst : crowdedTable.first crowdedElf64.bytes (ascii "g") = none := by
      rw [SymbolTable.first, find?_eq_none.mpr fun i _ => by rw [hno i]; decide]
      rfl
    rw [firstAddress, htable, Option.bind_some, hsource, hfirst]
  · rw [peGetElf64ProcAddress_eq, htable]
    simp only
    rw [hsource, search_not_reaches]
    · rfl
    · rintro (hle | ⟨i, -, hn⟩)
      · exact absurd hle (by decide)
      · rw [hno i] at hn
        cases hn

end DiscouNT.Loader
