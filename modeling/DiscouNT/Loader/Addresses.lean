import DiscouNT.Loader.Elf32Bounds
import DiscouNT.Loader.Exports

/-!
# Loader.Addresses

Whether the four places that turn a link-time address into a run-time address agree: RELATIVE
relocations, absolute relocations against a symbol, `PeGetProcAddress` and `PeGetEntryPoint`.
-/

namespace DiscouNT.Loader

open Lib

def runAddress (im : Image) (v : Nat) : Nat := im.imageBase + (v - im.elfBaseVaddr)

/-- The image looks like a PE image whose entry point is `v`. -/
def PeEntryIs (im : Image) (v : Nat) : Prop :=
  readLE im.mem 0 4 ≠ elfMagic ∧ eMagic im.mem = 0x5A4D ∧
    readLE im.mem (peOptional im.mem + 16) 4 = v

/-! ## ELF64 -/

structure Elf64Named (f : File) (e : Elf64Header) (symsec strsec : Nat) : Prop where
  sections : elf64HasSections f e = true
  symsec_lt : symsec < e.shnum
  strsec_lt : strsec < e.shnum
  dynsym : ∀ i < e.shnum, nameIs f (ascii ".dynsym") (elf64SectionName f e i).1 = true ↔ i = symsec
  dynstr : ∀ i < e.shnum, nameIs f (ascii ".dynstr") (elf64SectionName f e i).1 = true ↔ i = strsec
  strings : u64 ((elf64Shdr f.bytes (e.sh strsec)).offset +
    (elf64Shdr f.bytes (e.sh strsec)).size) ≤ f.size

/-- Symbol `si` is called `func`, as the only one, and has value `v`; symbol 0 is the null symbol. -/
structure Elf64Defines (c : RelaCtx) (si v : Nat) (func : Name) : Prop where
  lt : si < c.symcount
  value : (elf64Sym c.file.bytes (c.syms + sizeofElf64Sym * si)).value = v
  named : (elf64Sym c.file.bytes (c.syms + sizeofElf64Sym * si)).name ≠ 0
  name_eq : strEq c.file.bytes
    (c.strtab + (elf64Sym c.file.bytes (c.syms + sizeofElf64Sym * si)).name) func = true
  unique : ∀ j < c.symcount, j ≠ si →
    strEq c.file.bytes
      (c.strtab + (elf64Sym c.file.bytes (c.syms + sizeofElf64Sym * j)).name) func = false
  null_value : (elf64Sym c.file.bytes c.syms).value = 0
  null_name : (elf64Sym c.file.bytes c.syms).name = 0

structure RelaIs (c : RelaCtx) (r : Nat) (k : RelaKind) (si a : Nat) : Prop where
  applied : ¬ c.Skips r
  kind : relaKind c.arch (elf64RType (elf64Rela c.file.bytes r).info) = some k
  sym : elf64RSym (elf64Rela c.file.bytes r).info = si
  addend : (elf64Rela c.file.bytes r).addend = a

/-- Applying the record at `r` leaves `a` in the eight bytes it patches. -/
def RelaStores {σ : Type} (c : RelaCtx) (env : Env σ) (r : Nat) (mem : Mem) (w : σ) (a : Nat) :
    Prop :=
  ∃ mem' t w', relaRecord c env r mem w = (some mem', t, w') ∧
    readLE mem' (u32 (sub64 (elf64Rela c.file.bytes r).offset c.base)) 8 = a

variable {si a : Nat}

theorem relaStores_iff {σ : Type} {c : RelaCtx} {env : Env σ} {r b sym : Nat} {k : RelaKind}
    {mem : Mem} {w w' : σ} {t : List Access} (hr : RelaIs c r k si a) (hk : k.width = 8)
    (hsym : relaSym c env si w = (some sym, t, w')) :
    RelaStores c env r mem w b ↔
      k.value c.arch c.imageBase (c.imageBase +
        u32 (sub64 (elf64Rela c.file.bytes r).offset c.base)) sym a % 2 ^ 64 = b := by
  have h8 : (2 : Nat) ^ 64 = 256 ^ 8 := by decide
  unfold RelaStores relaRecord
  rw [if_neg hr.applied, hr.sym, hsym, hr.addend]
  simp only [hr.kind]
  constructor
  · rintro ⟨mem', t', w'', heq, hread⟩
    cases heq
    rw [hk, readLE_writeLE_same] at hread
    rw [h8]
    exact hread
  · intro h
    refine ⟨_, _, _, rfl, ?_⟩
    rw [hk, readLE_writeLE_same, ← h8]
    exact h

variable {v : Nat}

theorem relaSym_null {σ : Type} {c : RelaCtx} (env : Env σ) {func : Name}
    (hd : Elf64Defines c si v func) (w : σ) : ∃ t, relaSym c env 0 w = (some 0, t, w) := by
  have hlt := hd.lt
  unfold relaSym
  rw [Nat.mul_zero, Nat.add_zero]
  simp only [hd.null_value, hd.null_name, ne_eq, not_true_eq_false, if_false]
  rw [if_neg (by omega)]
  exact ⟨_, rfl⟩

theorem relaSym_defined {σ : Type} {c : RelaCtx} (env : Env σ) {func : Name}
    (hd : Elf64Defines c si v func) (hv : v ≠ 0) (hb : c.base ≤ v) (w : σ) :
    ∃ t, relaSym c env si w = (some (uptr c.arch (c.imageBase + (v - c.base))), t, w) := by
  have hlt := hd.lt
  unfold relaSym
  simp only [hd.value]
  rw [if_neg (by omega), if_pos hv, if_pos hb]
  exact ⟨_, rfl⟩

def elf64Ctx (arch : Arch) (f : File) (im : Image) : Option RelaCtx :=
  let e := elf64Header f.bytes
  let tables := (elf64FindTables f e e.shnum 0 ⟨none, none⟩).1
  match tables.symsec, tables.strtab with
  | some symsec, some strtab =>
    some (relaCtx arch f im.elfBaseVaddr im.imageSize im.imageBase symsec strtab)
  | _, _ => none

variable {arch : Arch}

theorem elf64LoadBaseLoop_lt {m : Mem} {e : Elf64Header} :
    ∀ {n i base : Nat}, base < 256 ^ arch.ptrBytes →
      elf64LoadBaseLoop arch m e n i base < 256 ^ arch.ptrBytes := by
  intro n
  induction n with
  | zero => intro i base h; exact h
  | succ n ih =>
    intro i base h
    rw [elf64LoadBaseLoop]
    refine ih ?_
    split
    · exact Nat.mod_lt _ (Nat.pow_pos (by decide))
    · exact h

theorem peGetElf64LoadBase_lt (arch : Arch) (m : Mem) :
    peGetElf64LoadBase arch m < 256 ^ arch.ptrBytes := by
  have hpos : 0 < 256 ^ arch.ptrBytes := Nat.pow_pos (by decide)
  unfold peGetElf64LoadBase
  simp only
  split
  · exact hpos
  · exact elf64LoadBaseLoop_lt (by omega)

theorem elf64ImageBase_pos : 0 < elf64ImageBase arch (a + 1) := by
  cases arch <;> simp only [elf64ImageBase, sizeofRuntimeHeader] <;> omega

variable {im : Image}

theorem peLoadElf64_image {σ : Type} {env : Env σ} {f : File} {w : σ}
    (h : (peLoadElf64 arch env f w).image = some im) :
    im.isElf = true ∧ im.elfClass = 2 ∧ im.source = f ∧
      im.elfBaseVaddr = peGetElf64LoadBase arch f.bytes ∧ 0 < im.imageBase := by
  unfold peLoadElf64 at h
  simp only at h
  split at h
  · split at h
    · cases h
    · rw [Result.after_image, elf64Build] at h
      split at h
      · cases h
      · split at h
        · cases h
        · unfold elf64Fill at h
          simp only at h
          split at h
          · cases h
          · split at h
            · cases h
            · cases h
              exact ⟨rfl, rfl, rfl, rfl, elf64ImageBase_pos⟩
  · cases h

section Named

variable {f : File} {e : Elf64Header} {symsec strsec : Nat}

section

variable (hn : Elf64Named f e symsec strsec)
include hn

theorem Elf64Named.nameIs_eq (i : Nat) (s : Name) :
    nameIs f s (elf64SectionName f e i).1 =
      strEq f.bytes ((elf64Shdr f.bytes (e.sh e.shstrndx)).offset +
        (elf64Shdr f.bytes (e.sh i)).name) s := by
  obtain ⟨h1, h2⟩ := elf64SectionName_some ((hn.dynsym symsec hn.symsec_lt).mpr rfl)
  unfold elf64SectionName
  simp only [if_pos h1, if_pos h2, nameIs]

theorem Elf64Named.ne : symsec ≠ strsec := by
  intro h
  have h1 := (hn.dynsym symsec hn.symsec_lt).mpr rfl
  have h2 := (hn.dynstr symsec hn.symsec_lt).mpr h
  rw [hn.nameIs_eq] at h1 h2
  generalize (elf64Shdr f.bytes (e.sh e.shstrndx)).offset +
    (elf64Shdr f.bytes (e.sh symsec)).name = p at h1 h2
  have hs : ascii ".dynsym" = [0x2E, 0x64, 0x79, 0x6E, 0x73, 0x79, 0x6D] := by decide
  have ht : ascii ".dynstr" = [0x2E, 0x64, 0x79, 0x6E, 0x73, 0x74, 0x72] := by decide
  rw [hs] at h1
  rw [ht] at h2
  simp only [strEq, Bool.and_eq_true, beq_iff_eq] at h1 h2
  have h5 := h1.2.2.2.2.2.1.symm.trans h2.2.2.2.2.2.1
  exact absurd h5 (by decide)

theorem Elf64Named.findTables :
    ∀ {n i : Nat} {t : SymTables}, i + n = e.shnum →
      (elf64FindTables f e n i t).1 =
        ⟨if i ≤ symsec then some (e.sh symsec) else t.symsec,
          if i ≤ strsec then some (elf64Shdr f.bytes (e.sh strsec)).offset else t.strtab⟩ := by
  have h1 := hn.symsec_lt
  have h2 := hn.strsec_lt
  have hne := hn.ne
  intro n
  induction n with
  | zero =>
    intro i t hi
    rw [elf64FindTables, if_neg (by omega), if_neg (by omega)]
  | succ n ih =>
    intro i t hi
    have hsym := hn.dynsym i (by omega)
    have hstr := hn.dynstr i (by omega)
    rw [elf64FindTables]
    by_cases his : i = symsec
    · subst his
      simp only [hsym.mpr rfl, if_true]
      rw [if_neg fun h => hne (hstr.mp h), ih (by omega), if_neg (by omega), if_pos (le_refl i)]
      simp only [show (i + 1 ≤ strsec) = (i ≤ strsec) by simp; omega]
    · rw [if_neg fun h => his (hsym.mp h)]
      by_cases hit : i = strsec
      · subst hit
        simp only [hstr.mpr rfl, if_true, if_pos hn.strings]
        rw [ih (by omega), if_neg (by omega : ¬ i + 1 ≤ i), if_pos (le_refl i)]
        simp only [show (i + 1 ≤ symsec) = (i ≤ symsec) by simp; omega]
      · rw [if_neg fun h => hit (hstr.mp h), ih (by omega)]
        simp only [show (i + 1 ≤ symsec) = (i ≤ symsec) by simp; omega,
          show (i + 1 ≤ strsec) = (i ≤ strsec) by simp; omega]

theorem Elf64Named.procTables :
    (elf64ProcTables f.bytes e).symtab = some (elf64Shdr f.bytes (e.sh symsec)).offset ∧
    (elf64ProcTables f.bytes e).count =
      u32 ((elf64Shdr f.bytes (e.sh symsec)).size / sizeofElf64Sym) ∧
    (elf64ProcTables f.bytes e).strtab = some (elf64Shdr f.bytes (e.sh strsec)).offset := by
  have hsym : ∀ i < e.shnum, strEq f.bytes ((elf64Shdr f.bytes (e.sh e.shstrndx)).offset +
      (elf64Shdr f.bytes (e.sh i)).name) (ascii ".dynsym") = true ↔ i = symsec :=
    fun i hi => by rw [← hn.nameIs_eq]; exact hn.dynsym i hi
  have hstr : ∀ i < e.shnum, strEq f.bytes ((elf64Shdr f.bytes (e.sh e.shstrndx)).offset +
      (elf64Shdr f.bytes (e.sh i)).name) (ascii ".dynstr") = true ↔ i = strsec :=
    fun i hi => by rw [← hn.nameIs_eq]; exact hn.dynstr i hi
  have h0 := (hsym symsec hn.symsec_lt).mpr rfl
  have h1 := (hstr strsec hn.strsec_lt).mpr rfl
  have h2 : ¬ strEq f.bytes ((elf64Shdr f.bytes (e.sh e.shstrndx)).offset +
      (elf64Shdr f.bytes (e.sh strsec)).name) (ascii ".dynsym") = true :=
    fun h => hn.ne ((hsym strsec hn.strsec_lt).mp h).symm
  -- a section that is not `.dynsym` keeps the symbol table, one that is not `.dynstr` the strings
  have keepSym : ∀ i < e.shnum, i ≠ symsec → ∀ t, (elf64ProcSection f.bytes
      ((elf64Shdr f.bytes (e.sh e.shstrndx)).offset + (elf64Shdr f.bytes (e.sh i)).name)
      (elf64Shdr f.bytes (e.sh i)) t).symtab = t.symtab ∧ (elf64ProcSection f.bytes
      ((elf64Shdr f.bytes (e.sh e.shstrndx)).offset + (elf64Shdr f.bytes (e.sh i)).name)
      (elf64Shdr f.bytes (e.sh i)) t).count = t.count := by
    intro i hi hne t
    rw [elf64ProcSection, if_neg fun h => hne ((hsym i hi).mp h)]
    split
    · exact ⟨rfl, rfl⟩
    · split
      · exact ⟨rfl, rfl⟩
      · split <;> exact ⟨rfl, rfl⟩
  have keepStr : ∀ i < e.shnum, i ≠ strsec → ∀ t, (elf64ProcSection f.bytes
      ((elf64Shdr f.bytes (e.sh e.shstrndx)).offset + (elf64Shdr f.bytes (e.sh i)).name)
      (elf64Shdr f.bytes (e.sh i)) t).strtab = t.strtab := by
    intro i hi hne t
    rw [elf64ProcSection]
    split
    · rfl
    · rw [if_neg fun h => hne ((hstr i hi).mp h)]
      split
      · rfl
      · split <;> rfl
  have lastSym := hn.symsec_lt
  have lastStr := hn.strsec_lt
  unfold elf64ProcTables
  refine ⟨?_, ?_, ?_⟩
  · rw [rounds_set ProcTables.symtab (s := symsec) (fun t => by
      rw [elf64ProcSection, if_pos h0]) (fun i hi hne t => (keepSym i hi hne t).1)
      (Nat.zero_add e.shnum), if_pos ⟨Nat.zero_le _, lastSym⟩]
  · rw [rounds_set ProcTables.count (s := symsec) (fun t => by
      rw [elf64ProcSection, if_pos h0]) (fun i hi hne t => (keepSym i hi hne t).2)
      (Nat.zero_add e.shnum), if_pos ⟨Nat.zero_le _, lastSym⟩]
  · rw [rounds_set ProcTables.strtab (s := strsec) (fun t => by
      rw [elf64ProcSection, if_neg h2, if_pos h1]) keepStr (Nat.zero_add e.shnum),
      if_pos ⟨Nat.zero_le _, lastStr⟩]

end

end Named

section Lookup

variable {m : Mem} {symtab strtab count : Nat} {func : Name}

theorem elf64FindSymbol_hit (hlt : si < count) (h16 : si < 65536)
    (hname : (elf64Sym m (symtab + sizeofElf64Sym * si)).name ≠ 0)
    (heq : strEq m (strtab + (elf64Sym m (symtab + sizeofElf64Sym * si)).name) func = true)
    (hother : ∀ j < count, j ≠ si →
      strEq m (strtab + (elf64Sym m (symtab + sizeofElf64Sym * j)).name) func = false) :
    ∀ {fuel i : Nat}, i ≤ si → si < i + fuel →
      elf64FindSymbol m symtab strtab count func fuel i =
        some (some (elf64Sym m (symtab + sizeofElf64Sym * si))) := by
  intro fuel
  induction fuel with
  | zero => intro i h1 h2; omega
  | succ fuel ih =>
    intro i h1 h2
    rw [elf64FindSymbol, if_pos (by omega)]
    by_cases hi : i = si
    · subst hi
      simp only
      rw [if_neg]
      rintro (h | h)
      · exact hname h
      · rw [heq] at h; cases h
    · simp only
      rw [if_pos (.inr (hother i (by omega) hi)), Nat.mod_eq_of_lt (by omega)]
      exact ih (by omega) (by omega)

theorem elf64FindSymbol_miss (hcount : 65536 ≤ count)
    (hother : ∀ j < 65536,
      strEq m (strtab + (elf64Sym m (symtab + sizeofElf64Sym * j)).name) func = false) :
    ∀ {fuel i : Nat}, i < 65536 → elf64FindSymbol m symtab strtab count func fuel i = none := by
  intro fuel
  induction fuel with
  | zero => intro i _; rfl
  | succ fuel ih =>
    intro i hi
    rw [elf64FindSymbol, if_pos (by omega)]
    simp only
    rw [if_pos (.inr (hother i hi))]
    exact ih (Nat.mod_lt _ (by decide))

end Lookup

theorem Elf64Named.ctx {f : File} {symsec strsec : Nat} {c : RelaCtx}
    (hn : Elf64Named f (elf64Header f.bytes) symsec strsec) (hc : elf64Ctx arch f im = some c) :
    c = relaCtx arch f im.elfBaseVaddr im.imageSize im.imageBase
      ((elf64Header f.bytes).sh symsec)
      (elf64Shdr f.bytes ((elf64Header f.bytes).sh strsec)).offset := by
  unfold elf64Ctx at hc
  simp only [hn.findTables (Nat.zero_add _), Nat.zero_le, if_true, Option.some.injEq] at hc
  exact hc.symm

theorem peGetProcAddress_elf64 {f : File} {symsec strsec : Nat}
    {c : RelaCtx} {func : Name} (helf : im.isElf = true) (hclass : im.elfClass = 2)
    (hsource : im.source = f) (hn : Elf64Named f (elf64Header f.bytes) symsec strsec)
    (hc : elf64Ctx arch f im = some c) (hd : Elf64Defines c si v func) (hb : im.elfBaseVaddr ≤ v) :
    peGetProcAddress arch im (.name func) =
      if si < 65536 then
        some (if v = 0 then 0 else uptr arch (im.imageBase + (v - im.elfBaseVaddr)))
      else none := by
  obtain ⟨hsym, hcount, hstr⟩ := hn.procTables
  obtain ⟨hidx, -⟩ := elf64SectionName_some ((hn.dynsym symsec hn.symsec_lt).mpr rfl)
  have hsec := hn.sections
  simp only [elf64HasSections, Bool.and_eq_true, decide_eq_true_eq] at hsec
  have hctx := hn.ctx hc
  have hsyms : c.syms = (elf64Shdr f.bytes ((elf64Header f.bytes).sh symsec)).offset := by
    rw [hctx]; rfl
  have hcnt : c.symcount =
      u32 ((elf64Shdr f.bytes ((elf64Header f.bytes).sh symsec)).size / sizeofElf64Sym) := by
    rw [hctx]; rfl
  have hstrtab : c.strtab = (elf64Shdr f.bytes ((elf64Header f.bytes).sh strsec)).offset := by
    rw [hctx]; rfl
  have hfile : c.file = f := by rw [hctx]; rfl
  obtain ⟨hlt, hval, hname, heq, hother, -, -⟩ := hd
  rw [hfile, hsyms] at hval hname
  rw [hfile, hsyms, hstrtab] at heq hother
  rw [hcnt] at hlt hother
  have hproc : peGetProcAddress arch im (.name func) = peGetElf64ProcAddress arch im func := by
    simp only [peGetProcAddress, helf, hclass, if_true]
  rw [hproc]
  unfold peGetElf64ProcAddress
  simp only [hsource]
  rw [if_neg (by omega), if_neg (by omega)]
  simp only [hsym, hstr, hcount, reduceCtorEq, or_self, if_false]
  by_cases h16 : si < 65536
  · rw [if_pos h16, elf64FindSymbol_hit hlt h16 hname heq hother (by omega) (by omega)]
    simp only [hval]
    by_cases hv : v = 0
    · rw [if_pos hv, if_pos hv]
    · rw [if_neg hv, if_neg hv, if_pos hb]
  · rw [if_neg h16, elf64FindSymbol_miss (by omega)
      (fun j hj => hother j (by omega) (by omega)) (by omega)]

theorem peGetEntryPoint_elf64 (hclass : im.elfClass = 2)
    (hbase : im.elfBaseVaddr = 0) (hentry : (elf64Header im.source.bytes).entry = v) (hv : v ≠ 0)
    (hpos : 0 < im.imageBase) (hlow : im.imageBase + v < 256 ^ arch.ptrBytes) :
    peGetEntryPoint arch im = im.imageBase + v ↔
      readLE im.mem 0 4 = elfMagic ∨ PeEntryIs im v := by
  have hrva : readLE im.mem (peOptional im.mem + 16) 4 < 2 ^ 32 := readLE_lt _ 4 _
  unfold peGetEntryPoint PeEntryIs
  by_cases hmagic : readLE im.mem 0 4 = elfMagic
  · simp only [if_pos hmagic, hclass, if_true, hentry, if_neg hv, hbase, Nat.zero_le, Nat.sub_zero]
    exact ⟨fun _ => .inl hmagic, fun _ => Nat.mod_eq_of_lt hlow⟩
  · simp only [hmagic, if_false, false_or, ne_eq, not_false_eq_true, true_and]
    by_cases hmz : eMagic im.mem = 0x5A4D
    · simp only [hmz, not_true_eq_false, if_false, true_and]
      cases arch <;> simp only [uptr, Arch.ptrBytes] at hlow ⊢ <;> omega
    · simp only [hmz, not_false_eq_true, if_true, false_and, iff_false]
      omega

/-- A loaded ELF64 image, a defined symbol `si` of value `v`, a RELATIVE record at `r₁` with addend
`v`, and an absolute record at `r₂` against the symbol. -/
structure Elf64Setting {σ : Type} (arch : Arch) (env : Env σ) (f : File) (w₀ : σ) (im : Image)
    (c : RelaCtx) (si v : Nat) (func : Name) (r₁ r₂ : Nat) : Prop where
  loaded : (peLoadElf64 arch env f w₀).image = some im
  placed : im.imageBase + im.imageSize < 256 ^ arch.ptrBytes
  named : ∃ symsec strsec, Elf64Named f (elf64Header f.bytes) symsec strsec
  ctx : elf64Ctx arch f im = some c
  defines : Elf64Defines c si v func
  above : im.elfBaseVaddr ≤ v
  inside : v ≤ im.elfBaseVaddr + im.imageSize
  relative : RelaIs c r₁ .relative 0 v
  absolute : RelaIs c r₂ .abs64 si 0

theorem elf64_agree_iff {σ : Type} {env : Env σ} {f : File} {w₀ : σ}
    {c : RelaCtx} {r₁ r₂ : Nat} {func : Name} {mem₁ mem₂ : Mem} {w1 w2 : σ}
    (hs : Elf64Setting arch env f w₀ im c si v func r₁ r₂) :
    (RelaStores c env r₁ mem₁ w1 (runAddress im v) ∧ RelaStores c env r₂ mem₂ w2 (runAddress im v) ∧
      peGetProcAddress arch im (.name func) = some (runAddress im v) ∧
      (v = (elf64Header f.bytes).entry → peGetEntryPoint arch im = runAddress im v)) ↔
    (im.elfBaseVaddr = 0 ∧ v ≠ 0 ∧ si < 65536 ∧ (arch = .x86 → im.imageBase < 2 ^ 31) ∧
      (v = (elf64Header f.bytes).entry → readLE im.mem 0 4 = elfMagic ∨ PeEntryIs im v)) := by
  obtain ⟨hload, hlow, ⟨symsec, strsec, hn⟩, hc, hd, hb, hin, hr1, hr2⟩ := hs
  obtain ⟨helf, hclass, hsource, hbase, hpos⟩ := peLoadElf64_image hload
  have hbase_lt := peGetElf64LoadBase_lt arch f.bytes
  rw [← hbase] at hbase_lt
  have hproc := peGetProcAddress_elf64 helf hclass hsource hn hc hd hb
  have hctx := hn.ctx hc
  have harch : c.arch = arch := by rw [hctx]; rfl
  have hib : c.imageBase = im.imageBase := by rw [hctx]; rfl
  have hcb : c.base = im.elfBaseVaddr := by rw [hctx]; rfl
  have hlow' : im.imageBase + (v - im.elfBaseVaddr) < 256 ^ arch.ptrBytes := by omega
  have h64 : 256 ^ arch.ptrBytes ≤ 2 ^ 64 := by cases arch <;> decide
  -- the relative relocation does not subtract the base
  have hrel : RelaStores c env r₁ mem₁ w1 (runAddress im v) ↔
      im.elfBaseVaddr = 0 ∧ (arch = .x86 → im.imageBase < 2 ^ 31) := by
    obtain ⟨t, hnull⟩ := relaSym_null env hd w1
    rw [relaStores_iff hr1 rfl hnull]
    simp only [RelaKind.value, harch, hib, u64, ptrToU64, runAddress]
    cases arch with
    | x86 =>
      have hb32 : im.elfBaseVaddr < 2 ^ 32 := hbase_lt
      have hlow32 : im.imageBase + (v - im.elfBaseVaddr) < 2 ^ 32 := hlow'
      simp only [true_and, forall_const]
      split <;> omega
    | amd64 =>
      have hb64 : im.elfBaseVaddr < 2 ^ 64 := hbase_lt
      simp only [reduceCtorEq, false_and, if_false, false_implies, and_true]
      omega
    | loongarch64 =>
      have hb64 : im.elfBaseVaddr < 2 ^ 64 := hbase_lt
      simp only [reduceCtorEq, false_and, if_false, false_implies, and_true]
      omega
  rw [hrel, hproc]
  constructor
  · rintro ⟨⟨hzero, hx86⟩, -, hproc', hentry⟩
    have h16 : si < 65536 := by
      by_contra h
      rw [if_neg h] at hproc'
      cases hproc'
    have hv : v ≠ 0 := by
      intro h0
      rw [if_pos h16, if_pos h0, runAddress] at hproc'
      have := Option.some.inj hproc'
      omega
    refine ⟨hzero, hv, h16, hx86, fun he => ?_⟩
    rw [hzero, Nat.sub_zero] at hlow'
    have hen := hentry he
    rw [runAddress, hzero, Nat.sub_zero] at hen
    exact (peGetEntryPoint_elf64 hclass hzero (by rw [hsource]; exact he.symm) hv hpos hlow').mp hen
  · rintro ⟨hzero, hv, h16, hx86, hmapped⟩
    refine ⟨⟨hzero, hx86⟩, ?_, ?_, fun he => ?_⟩
    · obtain ⟨t, hsym⟩ := relaSym_defined env hd hv (by rw [hcb]; exact hb) w2
      rw [harch, hib, hcb, uptr, Nat.mod_eq_of_lt hlow'] at hsym
      rw [relaStores_iff hr2 rfl hsym]
      simp only [RelaKind.value, u64, runAddress]
      omega
    · rw [if_pos h16, if_neg hv, uptr, Nat.mod_eq_of_lt hlow']
      rfl
    · rw [hzero, Nat.sub_zero] at hlow'
      rw [runAddress, hzero, Nat.sub_zero]
      exact (peGetEntryPoint_elf64 hclass hzero (by rw [hsource]; exact he.symm) hv hpos hlow').mpr
        (hmapped he)

/-! ## ELF32 -/

def elf32SectionName (f : File) (e : Elf32Header) (i : Nat) : Nat :=
  (elf32Shdr f.bytes (e.sh e.shstrndx)).offset + (elf32Shdr f.bytes (e.sh i)).name

/-- One `.dynsym`, which REL sections link to and which links to the one `.dynstr`. -/
structure Elf32Named (f : File) (e : Elf32Header) (symsec strsec : Nat) : Prop where
  symsec_lt : symsec < e.shnum
  strsec_lt : strsec < e.shnum
  entsize : (elf32Shdr f.bytes (e.sh symsec)).entsize = sizeofElf32Sym
  link : (elf32Shdr f.bytes (e.sh symsec)).link = strsec
  symbols_in : (elf32Shdr f.bytes (e.sh symsec)).offset < f.size
  strings_in : (elf32Shdr f.bytes (e.sh strsec)).offset < f.size
  dynsym : ∀ i < e.shnum,
    strEq f.bytes (elf32SectionName f e i) (ascii ".dynsym") = true ↔ i = symsec
  dynstr : ∀ i < e.shnum,
    strEq f.bytes (elf32SectionName f e i) (ascii ".dynstr") = true ↔ i = strsec

structure Elf32Defines (m : Mem) (symtab strtab count si v : Nat) (func : Name) : Prop where
  lt : si < count
  pos : si ≠ 0
  value : (elf32Sym m (symtab + sizeofElf32Sym * si)).value = v
  named : (elf32Sym m (symtab + sizeofElf32Sym * si)).name ≠ 0
  name_eq : strEq m (strtab + (elf32Sym m (symtab + sizeofElf32Sym * si)).name) func = true
  unique : ∀ j < count, j ≠ si →
    strEq m (strtab + (elf32Sym m (symtab + sizeofElf32Sym * j)).name) func = false

/-- The record at `r` is of type `type` against symbol `si`, is not skipped, and finds the addend `a`
in the image. -/
structure RelIs (c : RelCtx) (r type si : Nat) (mem : Mem) (a : Nat) : Prop where
  applied : ¬ c.Skips r
  type_eq : elf32RType (elf32Rel c.file.bytes r).info = type
  sym : elf32RSym (elf32Rel c.file.bytes r).info = si
  addend : readLE mem ((elf32Rel c.file.bytes r).offset - c.base) 4 = a

/-- Applying the record at `r` leaves `a` in the four bytes it patches. -/
def RelStores {σ : Type} (c : RelCtx) (env : Env σ) (r : Nat) (mem : Mem) (w : σ) (a : Nat) : Prop :=
  ∃ mem' t w', relRecord c env r mem w = (some mem', t, w') ∧
    readLE mem' ((elf32Rel c.file.bytes r).offset - c.base) 4 = a

theorem relStores_iff {σ : Type} {c : RelCtx} {env : Env σ} {r type b sym x : Nat} {mem : Mem}
    {w w' : σ} {t : List Access} (hr : RelIs c r type si mem a)
    (hsym : relSymValue c env si w = (some sym, t, w'))
    (hpatch : relPatch type c.imageBase
      (c.imageBase + ((elf32Rel c.file.bytes r).offset - c.base)) sym a = some x) :
    RelStores c env r mem w b ↔ x % 2 ^ 32 = b := by
  have h4 : (2 : Nat) ^ 32 = 256 ^ 4 := by decide
  unfold RelStores relRecord
  rw [if_neg hr.applied, hr.sym, hsym, hr.addend, hr.type_eq]
  simp only [hpatch, applyRelPatch]
  constructor
  · rintro ⟨mem', t', w'', heq, hread⟩
    cases heq
    rw [readLE_writeLE_same] at hread
    rw [h4]
    exact hread
  · intro h
    refine ⟨_, _, _, rfl, ?_⟩
    rw [readLE_writeLE_same, ← h4]
    exact h

theorem elf32Range_base_lt {m : Mem} {e : Elf32Header} : ∀ {n i : Nat} {r : LoadRange},
    r.base < 2 ^ 32 → (elf32Range m e n i r).1.base < 2 ^ 32 := by
  intro n
  induction n with
  | zero => intro i r h; exact h
  | succ n ih =>
    intro i r h
    have hv : (elf32Phdr m (e.ph i)).vaddr < 2 ^ 32 := readLE_lt _ 4 _
    rw [elf32Range]
    simp only
    split
    · refine ih ?_
      simp only
      split
      · exact hv
      · exact h
    · exact ih h

theorem peLoadElf32_image {σ : Type} {env : Env σ} {f : File} {w : σ}
    (h : (peLoadElf32 arch env f w).image = some im) :
    im.isElf = true ∧ im.elfClass = 1 ∧ im.source = f ∧ im.elfBaseVaddr < 2 ^ 32 ∧
      0 < im.imageBase := by
  have hrange := elf32Range_base_lt (m := f.bytes) (e := elf32Header f.bytes)
    (n := (elf32Header f.bytes).phnum) (i := 0) (r := ⟨0xFFFFFFFF, 0⟩) (by decide)
  unfold peLoadElf32 at h
  simp only at h
  split at h
  · cases h
  · split at h
    · cases h
    · split at h
      · cases h
      · rw [Result.after_image, elf32Build] at h
        split at h
        · cases h
        · split at h
          · cases h
          · unfold elf32Fill at h
            simp only at h
            split at h
            · cases h
            · cases h
              exact ⟨rfl, rfl, rfl, hrange, by simp only; omega⟩

section Named

variable {f : File} {e : Elf32Header} {symsec strsec : Nat}

theorem Elf32Named.tables (hn : Elf32Named f e symsec strsec) :
    (elf32Tables f e symsec).1 = some (elf32Shdr f.bytes (e.sh symsec)).offset ∧
    (elf32Tables f e symsec).2.1 = some (elf32Shdr f.bytes (e.sh strsec)).offset := by
  unfold elf32Tables
  simp only [if_pos hn.symsec_lt, if_pos hn.entsize, if_pos hn.symbols_in, hn.link,
    if_pos hn.strsec_lt, if_pos hn.strings_in, and_self]

theorem Elf32Named.procTables (hn : Elf32Named f e symsec strsec) :
    (elf32ProcTables f.bytes e).symtab = some (elf32Shdr f.bytes (e.sh symsec)).offset ∧
    (elf32ProcTables f.bytes e).count = (elf32Shdr f.bytes (e.sh symsec)).size / sizeofElf32Sym ∧
    (elf32ProcTables f.bytes e).strtab = some (elf32Shdr f.bytes (e.sh strsec)).offset := by
  have keepSym : ∀ i t, (elf32ProcSection f.bytes (elf32SectionName f e i)
      (elf32Shdr f.bytes (e.sh i)) t).symtab =
        (if strEq f.bytes (elf32SectionName f e i) (ascii ".dynsym") then
          some (elf32Shdr f.bytes (e.sh i)).offset else t.symtab) ∧
      (elf32ProcSection f.bytes (elf32SectionName f e i) (elf32Shdr f.bytes (e.sh i)) t).count =
        (if strEq f.bytes (elf32SectionName f e i) (ascii ".dynsym") then
          (elf32Shdr f.bytes (e.sh i)).size / sizeofElf32Sym else t.count) ∧
      (elf32ProcSection f.bytes (elf32SectionName f e i) (elf32Shdr f.bytes (e.sh i)) t).strtab =
        (if strEq f.bytes (elf32SectionName f e i) (ascii ".dynstr") then
          some (elf32Shdr f.bytes (e.sh i)).offset else t.strtab) := by
    intro i t
    unfold elf32ProcSection
    refine ⟨?_, ?_, ?_⟩ <;> (simp only; repeat' split) <;> rfl
  have hsym := (hn.dynsym symsec hn.symsec_lt).mpr rfl
  have hstr := (hn.dynstr strsec hn.strsec_lt).mpr rfl
  unfold elf32ProcTables
  refine ⟨?_, ?_, ?_⟩
  · rw [rounds_set ProcTables.symtab (s := symsec)
      (fun t => by exact (keepSym symsec t).1.trans (if_pos hsym))
      (fun i hi hne t => by
        exact (keepSym i t).1.trans (if_neg fun h => hne ((hn.dynsym i hi).mp h)))
      (Nat.zero_add e.shnum), if_pos ⟨Nat.zero_le _, hn.symsec_lt⟩]
  · rw [rounds_set ProcTables.count (s := symsec)
      (fun t => by exact (keepSym symsec t).2.1.trans (if_pos hsym))
      (fun i hi hne t => by
        exact (keepSym i t).2.1.trans (if_neg fun h => hne ((hn.dynsym i hi).mp h)))
      (Nat.zero_add e.shnum), if_pos ⟨Nat.zero_le _, hn.symsec_lt⟩]
  · rw [rounds_set ProcTables.strtab (s := strsec)
      (fun t => by exact (keepSym strsec t).2.2.trans (if_pos hstr))
      (fun i hi hne t => by
        exact (keepSym i t).2.2.trans (if_neg fun h => hne ((hn.dynstr i hi).mp h)))
      (Nat.zero_add e.shnum), if_pos ⟨Nat.zero_le _, hn.strsec_lt⟩]

end Named

theorem elf32FindSymbol_hit {m : Mem} {symtab strtab count : Nat} {func : Name}
    (hd : Elf32Defines m symtab strtab count si v func) : ∀ {n i : Nat}, i ≤ si → i + n = count →
      elf32FindSymbol m symtab strtab func n i =
        some (elf32Sym m (symtab + sizeofElf32Sym * si)) := by
  have hlt := hd.lt
  intro n
  induction n with
  | zero => intro i h1 h2; omega
  | succ n ih =>
    intro i h1 h2
    rw [elf32FindSymbol]
    by_cases hi : i = si
    · subst hi
      rw [if_neg]
      rintro (h | h)
      · exact hd.named h
      · rw [hd.name_eq] at h; cases h
    · rw [if_pos (.inr (hd.unique i (by omega) hi))]
      exact ih (by omega) (by omega)

/-- A loaded ELF32 image, a defined symbol `si` of value `v`, a RELATIVE record at `r₁` that finds
the addend `v`, and an `R_386_32` record at `r₂` against the symbol that finds the addend 0. -/
structure Elf32Setting {σ : Type} (arch : Arch) (env : Env σ) (f : File) (w₀ : σ) (im : Image)
    (c : RelCtx) (si v : Nat) (func : Name) (r₁ r₂ : Nat) (mem₁ mem₂ : Mem) : Prop where
  loaded : (peLoadElf32 arch env f w₀).image = some im
  placed : im.imageBase + im.imageSize < 256 ^ arch.ptrBytes
  named : ∃ symsec strsec, Elf32Named f (elf32Header f.bytes) symsec strsec ∧
    c = relCtx f (elf32Header f.bytes) im.elfBaseVaddr im.imageSize im.imageBase symsec ∧
    Elf32Defines f.bytes (elf32Shdr f.bytes ((elf32Header f.bytes).sh symsec)).offset
      (elf32Shdr f.bytes ((elf32Header f.bytes).sh strsec)).offset
      ((elf32Shdr f.bytes ((elf32Header f.bytes).sh symsec)).size / sizeofElf32Sym) si v func
  above : im.elfBaseVaddr ≤ v
  inside : v ≤ im.elfBaseVaddr + im.imageSize
  relative : RelIs c r₁ 8 0 mem₁ v
  absolute : RelIs c r₂ 1 si mem₂ 0

/-- The headers are mapped where `PeGetEntryPoint` looks for the entry point `v`. -/
def Elf32EntryMapped (im : Image) (v : Nat) : Prop :=
  readLE im.mem 0 4 = elfMagic ∧ (elf32Header im.mem).entry = v ∧ v < im.imageSize

theorem peGetProcAddress_elf32 (arch : Arch) {f : File} {symsec strsec : Nat}
    {func : Name} (helf : im.isElf = true) (hclass : im.elfClass = 1) (hsource : im.source = f)
    (hbase : im.elfBaseVaddr < 2 ^ 32) (hn : Elf32Named f (elf32Header f.bytes) symsec strsec)
    (hd : Elf32Defines f.bytes (elf32Shdr f.bytes ((elf32Header f.bytes).sh symsec)).offset
      (elf32Shdr f.bytes ((elf32Header f.bytes).sh strsec)).offset
      ((elf32Shdr f.bytes ((elf32Header f.bytes).sh symsec)).size / sizeofElf32Sym) si v func)
    (hb : im.elfBaseVaddr ≤ v) :
    peGetProcAddress arch im (.name func) =
      some (if v = 0 then 0 else uptr arch (im.imageBase + (v - im.elfBaseVaddr))) := by
  obtain ⟨hsym, hcount, hstr⟩ := hn.procTables
  have hproc : peGetProcAddress arch im (.name func) = some (peGetElfProcAddress arch im func) := by
    simp [peGetProcAddress, helf, hclass]
  rw [hproc]
  unfold peGetElfProcAddress
  simp only [helf, hsource, elf32Base, if_true, hsym, hstr, hcount, reduceCtorEq, or_self,
    false_and, if_false, u32_of_lt hbase, elf32FindSymbol_hit hd (Nat.zero_le si) (Nat.zero_add _),
    hd.value]
  by_cases hv : v = 0
  · rw [if_neg (by omega), if_pos hv]
  · rw [if_pos ⟨hv, hb⟩, if_neg hv]

theorem peGetEntryPoint_elf32 (helf : im.isElf = true)
    (hclass : im.elfClass = 1) (hbase : im.elfBaseVaddr = 0) (hv : v ≠ 0) (hpos : 0 < im.imageBase)
    (hplaced : im.imageBase + im.imageSize < 256 ^ arch.ptrBytes)
    (hlow : im.imageBase + v < 256 ^ arch.ptrBytes) :
    peGetEntryPoint arch im = im.imageBase + v ↔ Elf32EntryMapped im v ∨ PeEntryIs im v := by
  have hrva : readLE im.mem (peOptional im.mem + 16) 4 < 2 ^ 32 := readLE_lt _ 4 _
  have hv64 : v < 2 ^ 64 := by
    have : 256 ^ arch.ptrBytes ≤ 2 ^ 64 := by cases arch <;> decide
    omega
  have hzero : u32 0 = 0 := rfl
  unfold peGetEntryPoint PeEntryIs Elf32EntryMapped
  by_cases hmagic : readLE im.mem 0 4 = elfMagic
  · simp only [hclass, show (1 : Nat) ≠ 2 by decide, if_false, elf32Base, helf,
      if_true, hbase, hzero, ne_eq, not_true_eq_false, false_and, hmagic, true_and, or_false]
    split
    · omega
    · split
      · rename_i hlt
        rw [uptr, Nat.mod_eq_of_lt (by omega)]
        omega
      · omega
  · simp only [hmagic, if_false, false_and, false_or, ne_eq, not_false_eq_true, true_and]
    by_cases hmz : eMagic im.mem = 0x5A4D
    · simp only [hmz, not_true_eq_false, if_false, true_and]
      cases arch <;> simp only [uptr, Arch.ptrBytes] at hlow ⊢ <;> omega
    · simp only [hmz, not_false_eq_true, if_true, false_and, iff_false]
      omega

theorem elf32_agree_iff {σ : Type} {env : Env σ} {f : File} {w₀ : σ}
    {c : RelCtx} {r₁ r₂ : Nat} {func : Name} {mem₁ mem₂ : Mem} {w1 w2 : σ}
    (hs : Elf32Setting arch env f w₀ im c si v func r₁ r₂ mem₁ mem₂) :
    (RelStores c env r₁ mem₁ w1 (runAddress im v) ∧ RelStores c env r₂ mem₂ w2 (runAddress im v) ∧
      peGetProcAddress arch im (.name func) = some (runAddress im v) ∧
      (v = (elf32Header f.bytes).entry → peGetEntryPoint arch im = runAddress im v)) ↔
    (im.elfBaseVaddr = 0 ∧ v ≠ 0 ∧ im.imageBase + v < 2 ^ 32 ∧
      (v = (elf32Header f.bytes).entry → Elf32EntryMapped im v ∨ PeEntryIs im v)) := by
  obtain ⟨hload, hplaced, ⟨symsec, strsec, hn, hctx, hd⟩, hb, hin, hr1, hr2⟩ := hs
  obtain ⟨helf, hclass, hsource, hbase, hpos⟩ := peLoadElf32_image hload
  have hproc := peGetProcAddress_elf32 arch helf hclass hsource hbase hn hd hb
  obtain ⟨htab, hstr⟩ := hn.tables
  have hsymtab : c.symtab = some (elf32Shdr f.bytes ((elf32Header f.bytes).sh symsec)).offset := by
    rw [hctx]; exact htab
  have hstrtab : c.strtab = some (elf32Shdr f.bytes ((elf32Header f.bytes).sh strsec)).offset := by
    rw [hctx]; exact hstr
  have hfile : c.file = f := by rw [hctx]; rfl
  have hib : c.imageBase = im.imageBase := by rw [hctx]; rfl
  have hcb : c.base = im.elfBaseVaddr := by rw [hctx]; rfl
  have hlow : im.imageBase + (v - im.elfBaseVaddr) < 256 ^ arch.ptrBytes := by omega
  have hrel : RelStores c env r₁ mem₁ w1 (runAddress im v) ↔
      im.elfBaseVaddr = 0 ∧ im.imageBase + v < 2 ^ 32 := by
    have hnull : relSymValue c env 0 w1 = (some 0, [], w1) := by
      simp only [relSymValue, hsymtab, if_true]
    rw [relStores_iff hr1 hnull (x := u32 (c.imageBase + v)) rfl, hib, u32, runAddress]
    omega
  rw [hrel, hproc]
  constructor
  · rintro ⟨⟨hzero, h32⟩, -, hproc', hentry⟩
    have hv : v ≠ 0 := by
      intro h0
      rw [if_pos h0, runAddress] at hproc'
      have := Option.some.inj hproc'
      omega
    refine ⟨hzero, hv, h32, fun he => ?_⟩
    have hen := hentry he
    rw [hzero, Nat.sub_zero] at hlow
    rw [runAddress, hzero, Nat.sub_zero] at hen
    exact (peGetEntryPoint_elf32 helf hclass hzero hv hpos hplaced hlow).mp hen
  · rintro ⟨hzero, hv, h32, hmapped⟩
    refine ⟨⟨hzero, h32⟩, ?_, ?_, fun he => ?_⟩
    · have hsym : relSymValue c env si w2 = (some (im.imageBase + v),
          [.src ((elf32Shdr f.bytes ((elf32Header f.bytes).sh symsec)).offset +
            sizeofElf32Sym * si + 4) 4], w2) := by
        simp only [relSymValue, hsymtab, hstrtab, if_neg hd.pos, hfile, hd.value, hv, ne_eq,
          not_false_eq_true, if_true, hcb, hzero, Nat.zero_le, Nat.sub_zero, hib, u32_of_lt h32]
      have hpatch : relPatch 1 c.imageBase (c.imageBase +
          ((elf32Rel c.file.bytes r₂).offset - c.base)) (im.imageBase + v) 0 =
            some (u32 (im.imageBase + v)) := by
        simp only [relPatch]
        rw [if_pos (by omega), Nat.add_zero]
      rw [relStores_iff hr2 hsym hpatch, runAddress, hzero, Nat.sub_zero, u32_of_lt h32]
      exact Nat.mod_eq_of_lt h32
    · rw [if_neg hv, uptr, Nat.mod_eq_of_lt hlow]
      rfl
    · rw [hzero, Nat.sub_zero] at hlow
      rw [runAddress, hzero, Nat.sub_zero]
      exact (peGetEntryPoint_elf32 helf hclass hzero hv hpos hplaced hlow).mpr (hmapped he)

/-- **Agreement of the four address translations.** The image has to be linked at 0, the symbol must
not have value 0, and where it is the entry point the headers must be mapped. -/
theorem addresses_agree_iff {σ : Type} {arch : Arch} {env : Env σ} {f : File} {w₀ w1 w2 : σ}
    {im : Image} {si v r₁ r₂ : Nat} {func : Name} {mem₁ mem₂ : Mem} :
    (∀ c, Elf64Setting arch env f w₀ im c si v func r₁ r₂ →
      ((RelaStores c env r₁ mem₁ w1 (runAddress im v) ∧
        RelaStores c env r₂ mem₂ w2 (runAddress im v) ∧
        peGetProcAddress arch im (.name func) = some (runAddress im v) ∧
        (v = (elf64Header f.bytes).entry → peGetEntryPoint arch im = runAddress im v)) ↔
      (im.elfBaseVaddr = 0 ∧ v ≠ 0 ∧ si < 65536 ∧ (arch = .x86 → im.imageBase < 2 ^ 31) ∧
        (v = (elf64Header f.bytes).entry → readLE im.mem 0 4 = elfMagic ∨ PeEntryIs im v)))) ∧
    (∀ c, Elf32Setting arch env f w₀ im c si v func r₁ r₂ mem₁ mem₂ →
      ((RelStores c env r₁ mem₁ w1 (runAddress im v) ∧
        RelStores c env r₂ mem₂ w2 (runAddress im v) ∧
        peGetProcAddress arch im (.name func) = some (runAddress im v) ∧
        (v = (elf32Header f.bytes).entry → peGetEntryPoint arch im = runAddress im v)) ↔
      (im.elfBaseVaddr = 0 ∧ v ≠ 0 ∧ im.imageBase + v < 2 ^ 32 ∧
        (v = (elf32Header f.bytes).entry → Elf32EntryMapped im v ∨ PeEntryIs im v)))) :=
  ⟨fun _ hs => elf64_agree_iff hs, fun _ hs => elf32_agree_iff hs⟩

/-- A shared object linked at `base`: the symbol `f` at `base + 16`, which is also the entry point,
one RELATIVE and one absolute relocation, and a segment that maps the whole file. -/
def sampleElf64 (base : Nat) : File where
  bytes :=
    let header := fun m => writeLE (writeLE (writeLE (writeLE (writeLE (writeLE (writeLE (writeLE
      (writeLE (writeLE m 0 4 elfMagic) 4 1 2) 18 2 62) 24 8 (base + 16)) 32 8 64) 40 8 264)
      54 2 56) 56 2 1) 58 2 64) 60 4 0x30005
    let segment := fun m => writeLE (writeLE (writeLE (writeLE m 64 4 1) 80 8 base) 96 8 584)
      104 8 0x1000
    let symbols := fun m => writeLE (writeLE m 152 4 1) 160 8 (base + 16)
    let strings := fun m => writeLE (writeLE (writeLE m 177 1 0x66) 193 7 0x6D79736E79642E)
      201 7 0x7274736E79642E
    let relocations := fun m => writeLE (writeLE (writeLE (writeLE (writeLE m 216 8 (base + 0x800))
      224 8 8) 232 8 (base + 16)) 240 8 (base + 0x808)) 248 8 0x100000001
    let sec := fun m i name type offset size => writeLE (writeLE (writeLE (writeLE m
      (264 + 64 * i) 4 name) (268 + 64 * i) 4 type) (288 + 64 * i) 8 offset) (296 + 64 * i) 8 size
    let secs := fun m => sec (sec (sec (sec m 1 1 11 128 48) 2 9 3 176 3)
      3 0 3 192 17) 4 0 4 216 48
    header (segment (symbols (strings (relocations (secs fun _ => 0)))))
  size := 584
  size_lt := by decide

def sampleCtx (base : Nat) : RelaCtx :=
  relaCtx .amd64 (sampleElf64 base) base 0x1000 0x1000B0
    ((elf64Header (sampleElf64 base).bytes).sh 1) 176

theorem sampleElf64_setting (base : Nat)
    (hload : (peLoadElf64 .amd64 roomyEnv (sampleElf64 base) 0x100000).image.map
      (fun im => (im.imageBase, im.imageSize, im.elfBaseVaddr, readLE im.mem 0 4)) =
        some (0x1000B0, 0x1000, base, elfMagic))
    (hn : Elf64Named (sampleElf64 base) (elf64Header (sampleElf64 base).bytes) 1 2)
    (hstr : (elf64Shdr (sampleElf64 base).bytes
      ((elf64Header (sampleElf64 base).bytes).sh 2)).offset = 176)
    (hd : Elf64Defines (sampleCtx base) 1 (base + 16) (ascii "f"))
    (hr1 : RelaIs (sampleCtx base) 216 .relative 0 (base + 16))
    (hr2 : RelaIs (sampleCtx base) 240 .abs64 1 0) :
    ∃ im, Elf64Setting .amd64 roomyEnv (sampleElf64 base) 0x100000 im (sampleCtx base) 1 (base + 16)
      (ascii "f") 216 240 ∧ im.elfBaseVaddr = base ∧ readLE im.mem 0 4 = elfMagic := by
  obtain ⟨im, him, heq⟩ := Option.map_eq_some_iff.mp hload
  simp only [Prod.mk.injEq] at heq
  obtain ⟨hib, hsize, hbase, hmagic⟩ := heq
  refine ⟨im, ⟨him, ?_, ⟨1, 2, hn⟩, ?_, hd, ?_, ?_, hr1, hr2⟩, hbase, hmagic⟩
  · rw [hib, hsize]
    decide
  · unfold elf64Ctx
    simp only [hn.findTables (Nat.zero_add _), Nat.zero_le, if_true, hstr, hib, hsize, hbase]
    rfl
  · omega
  · omega

theorem addresses_agree_sampleElf64 :
    ∃ im, Elf64Setting .amd64 roomyEnv (sampleElf64 0) 0x100000 im (sampleCtx 0) 1 16
        (ascii "f") 216 240 ∧
      RelaStores (sampleCtx 0) roomyEnv 216 im.mem 0 (runAddress im 16) ∧
      peGetProcAddress .amd64 im (.name (ascii "f")) = some (runAddress im 16) ∧
      peGetEntryPoint .amd64 im = runAddress im 16 := by
  obtain ⟨im, hs, hbase, hmagic⟩ := sampleElf64_setting 0 (by decide +kernel)
    ⟨by decide +kernel, by decide +kernel, by decide +kernel, by decide +kernel,
      by decide +kernel, by decide +kernel⟩ (by decide +kernel)
    ⟨by decide +kernel, by decide +kernel, by decide +kernel, by decide +kernel,
      by decide +kernel, by decide +kernel, by decide +kernel⟩
    ⟨by decide +kernel, by decide +kernel, by decide +kernel, by decide +kernel⟩
    ⟨by decide +kernel, by decide +kernel, by decide +kernel, by decide +kernel⟩
  have hagree := (@addresses_agree_iff _ _ roomyEnv _ _ 0 0 im _ _ _ _ _ im.mem im.mem).1 _ hs
  obtain ⟨h₁, -, h3, h₄⟩ := hagree.mpr
    ⟨hbase, by decide, by decide, by simp, fun _ => Or.inl hmagic⟩
  exact ⟨im, hs, h₁, h3, h₄ (by decide +kernel)⟩

/-- Linked at 0x1000 the same object gets `image_base + 0x1010` from its RELATIVE relocation. -/
theorem relative_relocation_ignores_base :
    ∃ im, Elf64Setting .amd64 roomyEnv (sampleElf64 0x1000) 0x100000 im (sampleCtx 0x1000) 1 0x1010
        (ascii "f") 216 240 ∧
      ¬ RelaStores (sampleCtx 0x1000) roomyEnv 216 im.mem 0 (runAddress im 0x1010) := by
  obtain ⟨im, hs, hbase, -⟩ := sampleElf64_setting 0x1000 (by decide +kernel)
    ⟨by decide +kernel, by decide +kernel, by decide +kernel, by decide +kernel,
      by decide +kernel, by decide +kernel⟩ (by decide +kernel)
    ⟨by decide +kernel, by decide +kernel, by decide +kernel, by decide +kernel,
      by decide +kernel, by decide +kernel, by decide +kernel⟩
    ⟨by decide +kernel, by decide +kernel, by decide +kernel, by decide +kernel⟩
    ⟨by decide +kernel, by decide +kernel, by decide +kernel, by decide +kernel⟩
  obtain ⟨t, hnull⟩ := relaSym_null roomyEnv hs.defines 0
  refine ⟨im, hs, fun hstores => ?_⟩
  rw [relaStores_iff hs.relative rfl hnull, runAddress, hbase] at hstores
  have hib : (sampleCtx 0x1000).imageBase = im.imageBase := by
    obtain ⟨symsec, strsec, hn⟩ := hs.named
    rw [hn.ctx hs.ctx]
    rfl
  have hlow := hs.placed
  simp only [RelaKind.value, hib, u64, ptrToU64] at hstores
  simp only [Arch.ptrBytes] at hlow
  split at hstores <;> omega

end DiscouNT.Loader
