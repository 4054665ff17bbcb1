import DiscouNT.Loader.Elf64Bounds
import DiscouNT.Loader.PeBounds

/-!
# Loader.Elf32Bounds

Which images of class 1 `PeLoadELF` loads without leaving its two buffers. No table offset is
checked, and the checks of a segment and of a relocation are 32-bit sums that wrap.
`peLoadElf32_confined_iff` states what the fields of the file have to satisfy; as for ELF64, only
records that are reached before an unresolved symbol count.
-/

namespace DiscouNT.Loader

open Lib

def Elf32PhdrFits (f : File) (p : Nat) : Prop :=
  p + 4 ≤ f.size ∧ ((elf32Phdr f.bytes p).type = 1 → p + 24 ≤ f.size)

def Elf32SegmentFits (f : File) (base imageSize p : Nat) : Prop :=
  let ph := elf32Phdr f.bytes p
  ph.type = 1 → 0 < ph.filesz →
    u32 (ph.offset + ph.filesz) ≤ f.size → u32 (sub32 ph.vaddr base + ph.filesz) ≤ imageSize →
    ph.offset + ph.filesz < 2 ^ 32 ∧ sub32 ph.vaddr base + ph.filesz < 2 ^ 32

def RelCtx.next {σ : Type} (c : RelCtx) (env : Env σ) (r : Nat) (w : σ) : Option σ :=
  if c.Skips r then some w
  else
    match relSymValue c env (elf32RSym (elf32Rel c.file.bytes r).info) w with
    | (none, _, _) => none
    | (some _, _, w) => some w

/-- The record at `r` and its symbol are in the file, and `patch_off + 4` does not wrap. -/
def RelCtx.RecordFits (c : RelCtx) (r : Nat) : Prop :=
  let rel := elf32Rel c.file.bytes r
  r + 8 ≤ c.file.size ∧
  (¬ c.Skips r → rel.offset - c.base + 4 < 2 ^ 32 ∧
    ∀ symtab, c.symtab = some symtab → elf32RSym rel.info ≠ 0 →
      symtab + sizeofElf32Sym * elf32RSym rel.info + 8 ≤ c.file.size)

def RelCtx.RecordsFit {σ : Type} (c : RelCtx) (env : Env σ) (n r : Nat) (w : σ) : Prop :=
  ScanFits (fun r _ => c.RecordFits r) (c.next env) sizeofElf32Rel n r w

/-- The headers of the symbol and string sections that a REL section links to. -/
def Elf32TablesFit (f : File) (e : Elf32Header) (link : Nat) : Prop :=
  let symsec := elf32Shdr f.bytes (e.sh link)
  link < e.shnum → e.sh link + 40 ≤ f.size ∧
    (symsec.entsize = sizeofElf32Sym → symsec.offset < f.size → symsec.link < e.shnum →
      e.sh symsec.link + 20 ≤ f.size)

section Sections

variable {σ : Type} (f : File) (base imageSize imageBase : Nat) (env : Env σ) (e : Elf32Header)

/-- The header of section `i`, and its tables and records when it is applied. -/
def RelSectionFits (i : Nat) (w : σ) : Prop :=
  let sh := elf32Shdr f.bytes (e.sh i)
  if sh.type = 9 then
    e.sh i + 28 ≤ f.size ∧ Elf32TablesFit f e sh.link ∧
    (relCtx f e base imageSize imageBase sh.link).RecordsFit env (sh.size / sizeofElf32Rel)
      sh.offset w
  else e.sh i + 8 ≤ f.size

def relNextSection (i : Nat) (w : σ) : Option σ :=
  let sh := elf32Shdr f.bytes (e.sh i)
  if sh.type = 9 then
    scanNext ((relCtx f e base imageSize imageBase sh.link).next env) sizeofElf32Rel
      (sh.size / sizeofElf32Rel) sh.offset w
  else some w

def RelSectionsFit (w : σ) : Prop :=
  ScanFits (RelSectionFits f base imageSize imageBase env e)
    (relNextSection f base imageSize imageBase env e) 1 e.shnum 0 w

end Sections

def Elf32Fits {σ : Type} (arch : Arch) (env : Env σ) (f : File) (base imageSize : Nat) (w : σ) :
    Prop :=
  let e := elf32Header f.bytes
  let image := env.kmalloc (sizeofRuntimeHeader arch + imageSize) w
  let copy := env.kmalloc f.size image.2
  image.1 ≠ 0 → copy.1 ≠ 0 →
    (∀ i < e.phnum, Elf32SegmentFits f base imageSize (e.ph i)) ∧
    e.sh e.shstrndx + 20 ≤ f.size ∧
    RelSectionsFit f base imageSize (image.1 + sizeofRuntimeHeader arch) env e copy.2

theorem elf32Range_confined {f : File} {e : Elf32Header} {k : Nat} :
    ∀ {n i : Nat} {r : LoadRange}, Confined f.size k (elf32Range f.bytes e n i r).2 ↔
      ∀ j, i ≤ j → j < i + n → Elf32PhdrFits f (e.ph j) := by
  intro n
  induction n with
  | zero =>
    intro i r
    simp only [elf32Range, confined_nil, true_iff]
    intro j h1 h2; omega
  | succ n ih =>
    intro i r
    rw [forall_from_succ, elf32Range, Elf32PhdrFits]
    simp only
    split
    · rename_i htype
      simp only [confined_cons, inside_src_lit, ih, htype, forall_const]
      constructor
      · intro h; exact ⟨⟨h.1, by omega⟩, h.2.2.2⟩
      · intro h; exact ⟨h.1.1, by omega, by omega, h.2⟩
    · rename_i htype
      simp only [confined_cons, inside_src_lit, ih, htype, false_implies, and_true]

theorem elf32CopySegments_confined {f : File} {e : Elf32Header} {base imageSize : Nat}
    (hsize : imageSize < 2 ^ 32) : ∀ {n i : Nat} {mem : Mem},
      (∀ j, i ≤ j → j < i + n → Elf32PhdrFits f (e.ph j)) →
      (Confined f.size imageSize (elf32CopySegments f e base imageSize n i mem).2 ↔
        ∀ j, i ≤ j → j < i + n → Elf32SegmentFits f base imageSize (e.ph j)) := by
  intro n
  induction n with
  | zero =>
    intro i mem _
    simp only [elf32CopySegments, confined_nil, true_iff]
    intro j h1 h2; omega
  | succ n ih =>
    intro i mem hph
    rw [forall_from_succ] at hph ⊢
    obtain ⟨⟨h4, h24⟩, hrest⟩ := hph
    have ih := fun mem => @ih _ mem hrest
    rw [elf32CopySegments, Elf32SegmentFits]
    simp only
    split
    · rename_i htype
      have h24 := h24 htype
      split
      · rename_i hfilesz
        have hreads : Confined f.size imageSize
            [.src (e.ph i) 4, .src (e.ph i + 16) 4, .src (e.ph i + 8) 4, .src (e.ph i + 4) 4] := by
          simp only [confined_cons, confined_nil, inside_src_lit, and_true]
          omega
        split
        · rename_i hcopy
          simp only [confined_append, hreads, true_and, confined_cons, ih, inside_src hfilesz,
            inside_dst hfilesz, le_iff_of_u32_le f.size_lt hcopy.1, le_iff_of_u32_le hsize hcopy.2,
            htype, hfilesz, hcopy, forall_const, and_assoc]
        · rename_i hcopy
          simp only [confined_append, hreads, true_and, ih, htype, hfilesz, forall_const]
          exact ⟨fun h => ⟨fun h1 h2 => absurd ⟨h1, h2⟩ hcopy, h⟩, fun h => h.2⟩
      · rename_i hfilesz
        simp only [confined_cons, inside_src_lit, ih, hfilesz, false_implies, implies_true,
          true_and]
        exact ⟨fun h => h.2.2, fun h => ⟨h4, by omega, h⟩⟩
    · rename_i htype
      simp only [confined_cons, inside_src_lit, ih, htype, false_implies, true_and]
      exact ⟨fun h => h.2, fun h => ⟨h4, h⟩⟩

section Relocations

variable {σ : Type} {c : RelCtx} {env : Env σ}

theorem relSymValue_confined {rSym k : Nat} {w : σ} :
    Confined c.file.size k (relSymValue c env rSym w).2.1 ↔
      ∀ symtab, c.symtab = some symtab → rSym ≠ 0 →
        symtab + sizeofElf32Sym * rSym + 8 ≤ c.file.size := by
  unfold relSymValue
  cases hsym : c.symtab with
  | none => simp
  | some symtab =>
    simp only [Option.some.injEq, forall_eq']
    split
    · rename_i h0; simp [h0]
    · rename_i h0
      simp only [ne_eq, h0, not_false_eq_true, forall_const]
      cases hstr : c.strtab with
      | none => simp only [confined_cons, confined_nil, inside_src_lit, and_true]
      | some strtab =>
        simp only
        split
        · simp only [confined_cons, confined_nil, inside_src_lit, and_true]
        · split
          · simp only [confined_cons, confined_nil, inside_src_lit, and_true]
            omega
          · split <;>
            · simp only [confined_cons, confined_nil, inside_src_lit, and_true]
              omega

theorem relRecord_next (r : Nat) (mem : Mem) (w : σ) :
    (relRecord c env r mem w).next = c.next env r w := by
  unfold RelCtx.next relRecord
  by_cases h : c.Skips r
  · simp only [if_pos h]; rfl
  · simp only [if_neg h]
    rcases relSymValue c env (elf32RSym (elf32Rel c.file.bytes r).info) w with ⟨sym, t, w'⟩
    cases sym <;> rfl

theorem relRecord_confined (hsize : c.imageSize ≤ 0x1000000) (r : Nat) (mem : Mem) (w : σ) :
    Confined c.file.size c.imageSize (relRecord c env r mem w).2.1 ↔ c.RecordFits r := by
  have hoffset : (elf32Rel c.file.bytes r).offset < 2 ^ 32 := readLE_lt _ 4 _
  unfold relRecord RelCtx.RecordFits
  simp only
  by_cases hskip : c.Skips r
  · simp only [if_pos hskip]
    simp only [confined_cons, confined_nil, inside_src_lit, hskip, not_true_eq_false,
      false_implies, and_true]
    omega
  · have hin := hskip
    simp only [RelCtx.Skips] at hin
    have hpatch : (Access.dst ((elf32Rel c.file.bytes r).offset - c.base) 4).Inside c.file.size
        c.imageSize ↔ (elf32Rel c.file.bytes r).offset - c.base + 4 < 2 ^ 32 := by
      rw [inside_dst (by decide)]
      exact le_iff_of_u32_le (by omega) (by omega)
    have hsym : Confined c.file.size c.imageSize
        (relSymValue c env (elf32RSym (elf32Rel c.file.bytes r).info) w).2.1 ↔ _ := relSymValue_confined
    simp only [if_neg hskip]
    simp only [hskip, not_false_eq_true, forall_const]
    rcases hs : relSymValue c env (elf32RSym (elf32Rel c.file.bytes r).info) w with ⟨sym, t, w'⟩
    rw [hs] at hsym
    cases sym <;>
    · simp only [confined_append, confined_cons, confined_nil, inside_src_lit, hpatch, hsym,
        and_true]
      constructor
      · intro h; exact ⟨by omega, h.2⟩
      · intro h; exact ⟨⟨by omega, by omega⟩, h.2⟩

theorem elf32Tables_confined {f : File} {e : Elf32Header} {link k : Nat} :
    Confined f.size k (elf32Tables f e link).2.2 ↔ Elf32TablesFit f e link := by
  unfold elf32Tables Elf32TablesFit
  simp only
  split
  · rename_i hlink
    simp only [hlink, forall_const]
    split
    · rename_i hent
      simp only [hent, forall_const]
      split
      · rename_i hoff
        simp only [hoff, forall_const]
        split
        · rename_i hlink'
          simp only [confined_append, confined_cons, confined_nil, inside_src_lit, hlink',
            forall_const, and_true]
          omega
        · rename_i hlink'
          simp only [confined_cons, confined_nil, inside_src_lit, hlink', false_implies, and_true]
          omega
      · rename_i hoff
        simp only [confined_cons, confined_nil, inside_src_lit, hoff, false_implies, and_true]
        omega
    · rename_i hent
      simp only [confined_cons, confined_nil, inside_src_lit, hent, false_implies, and_true]
  · rename_i hlink
    simp only [confined_nil, hlink, false_implies]

variable {f : File} {base imageSize imageBase : Nat} {e : Elf32Header}

theorem relSection_next (i : Nat) (mem : Mem) (w : σ) :
    (relSection f base imageSize imageBase env e i mem w).next =
      relNextSection f base imageSize imageBase env e i w := by
  unfold relSection relNextSection
  simp only
  split
  · exact scan_next relRecord_next
  · rfl

theorem relSection_confined (hsize : imageSize ≤ 0x1000000) (i : Nat) (mem : Mem) (w : σ) :
    Confined f.size imageSize (relSection f base imageSize imageBase env e i mem w).2.1 ↔
      RelSectionFits f base imageSize imageBase env e i w := by
  unfold relSection RelSectionFits
  simp only
  split
  · have hrecs := scan_confined (s := sizeofElf32Rel)
      (@relRecord_next _ (relCtx f e base imageSize imageBase (elf32Shdr f.bytes (e.sh i)).link) env)
      (relRecord_confined hsize)
      (n := (elf32Shdr f.bytes (e.sh i)).size / sizeofElf32Rel)
      (r := (elf32Shdr f.bytes (e.sh i)).offset) (m := mem) (w := w)
    have hrecs' : Confined f.size imageSize (relRecords
        (relCtx f e base imageSize imageBase (elf32Shdr f.bytes (e.sh i)).link) env
        ((elf32Shdr f.bytes (e.sh i)).size / sizeofElf32Rel)
        (elf32Shdr f.bytes (e.sh i)).offset mem w).2.1 ↔ _ := hrecs
    simp only [List.cons_append, confined_cons, confined_append, inside_src_lit,
      elf32Tables_confined, hrecs', RelCtx.RecordsFit]
    constructor
    · intro h; exact ⟨by omega, h.2.2.2.2.2⟩
    · intro h; exact ⟨by omega, by omega, by omega, by omega, by omega, h.2⟩
  · simp only [confined_cons, confined_nil, inside_src_lit, and_true]
    omega

/-! ## The loader -/

theorem elf32Fill_confined {arch : Arch} {allocBase sourceCopy : Nat} {w : σ}
    (hsize : imageSize ≤ 0x1000000)
    (hph : ∀ i < (elf32Header f.bytes).phnum, Elf32PhdrFits f ((elf32Header f.bytes).ph i)) :
    Confined f.size imageSize
        (elf32Fill arch env f base imageSize allocBase sourceCopy w).trace ↔
      (∀ i < (elf32Header f.bytes).phnum,
        Elf32SegmentFits f base imageSize ((elf32Header f.bytes).ph i)) ∧
      (elf32Header f.bytes).sh (elf32Header f.bytes).shstrndx + 20 ≤ f.size ∧
      RelSectionsFit f base imageSize (allocBase + sizeofRuntimeHeader arch) env
        (elf32Header f.bytes) w := by
  have hseg : Confined f.size imageSize (elf32CopySegments f (elf32Header f.bytes) base imageSize
      (elf32Header f.bytes).phnum 0 fun _ => 0).2 ↔ _ :=
    elf32CopySegments_confined (by omega) fun j _ h => hph j (by omega)
  simp only [Nat.zero_le, Nat.zero_add, forall_const] at hseg
  have hrel : Confined f.size imageSize (relSections f base imageSize
      (allocBase + sizeofRuntimeHeader arch) env (elf32Header f.bytes)
      (elf32CopySegments f (elf32Header f.bytes) base imageSize (elf32Header f.bytes).phnum 0
        (fun _ => 0)).1 w).2.1 ↔ RelSectionsFit f base imageSize
      (allocBase + sizeofRuntimeHeader arch) env (elf32Header f.bytes) w :=
    scan_confined relSection_next (relSection_confined hsize)
  have hsrc : (Access.src 0 f.size).Inside f.size imageSize := .inr (by omega)
  have hdst : (Access.dst 0 imageSize).Inside f.size imageSize := .inr (by omega)
  unfold elf32Fill
  rw [← hrel, ← hseg]
  simp only
  rcases relSections f base imageSize (allocBase + sizeofRuntimeHeader arch) env
    (elf32Header f.bytes) (elf32CopySegments f (elf32Header f.bytes) base imageSize
      (elf32Header f.bytes).phnum 0 (fun _ => 0)).1 w with ⟨mem, t, w'⟩
  cases mem <;>
  · simp only [List.cons_append, confined_cons, confined_append, confined_nil, hsrc, hdst,
      inside_src_lit, and_assoc, true_and]

theorem elf32Build_confined {arch : Arch} {w : σ} (hsize : imageSize ≤ 0x1000000)
    (hph : ∀ i < (elf32Header f.bytes).phnum, Elf32PhdrFits f ((elf32Header f.bytes).ph i)) :
    Confined f.size imageSize (elf32Build arch env f base imageSize w).trace ↔
      Elf32Fits arch env f base imageSize w := by
  unfold elf32Build Elf32Fits
  simp only
  rcases env.kmalloc (sizeofRuntimeHeader arch + imageSize) w with ⟨a, w1⟩
  cases a with
  | zero => simp
  | succ a =>
    simp only
    rcases env.kmalloc f.size w1 with ⟨s, w2⟩
    cases s with
    | zero => simp
    | succ s =>
      simp only [elf32Fill_confined hsize hph]
      exact ⟨fun h _ _ => h, fun h => h (by omega) (by omega)⟩

end Relocations

theorem elf32Span_le {r : LoadRange} {imageSize : Nat} (h : elf32Span r = some imageSize) :
    imageSize ≤ 0x1000000 := by
  unfold elf32Span at h
  simp only at h
  split at h
  · cases h
  · split at h
    · cases h
    · cases h; omega

/-- The address range and the image size that the program headers ask for. -/
def elf32LoadRange (m : Mem) : LoadRange :=
  (elf32Range m (elf32Header m) (elf32Header m).phnum 0 ⟨0xFFFFFFFF, 0⟩).1

/-- **Bounds of the ELF32 loader.** The load stays inside the file and the image if and only if the
program headers are in the file and, unless their range is rejected, the image fits. -/
theorem peLoadElf32_confined_iff {σ : Type} {arch : Arch} {env : Env σ} {f : File} {w : σ}
    (hsize : 64 ≤ f.size) (hclass : (elf32Header f.bytes).identClass = 1)
    (hmachine : (elf32Header f.bytes).machine = 3) :
    Confined f.size ((elf32Span (elf32LoadRange f.bytes)).getD 0)
        (peLoadElf arch env f w).trace ↔
      (∀ i < (elf32Header f.bytes).phnum, Elf32PhdrFits f ((elf32Header f.bytes).ph i)) ∧
      ∀ imageSize, elf32Span (elf32LoadRange f.bytes) = some imageSize →
        Elf32Fits arch env f (elf32LoadRange f.bytes).base imageSize w := by
  have hheader : ∀ k, (Access.src 0 sizeofElf32Header).Inside f.size k :=
    fun k => .inr (by rw [show sizeofElf32Header = 52 from rfl]; omega)
  have hident : ∀ k, (Access.src 4 1).Inside f.size k := fun k => .inr (by omega)
  have hrange := fun k => elf32Range_confined (f := f) (e := elf32Header f.bytes) (k := k)
    (n := (elf32Header f.bytes).phnum) (i := 0) (r := ⟨0xFFFFFFFF, 0⟩)
  simp only [Nat.zero_le, Nat.zero_add, forall_const] at hrange
  unfold peLoadElf peLoadElf32
  rw [if_neg (by omega)]
  simp only [hclass, hmachine, ne_eq, not_true_eq_false, if_false]
  rw [show (elf32Range f.bytes (elf32Header f.bytes) (elf32Header f.bytes).phnum 0
    ⟨0xFFFFFFFF, 0⟩).1 = elf32LoadRange f.bytes from rfl]
  cases hspan : elf32Span (elf32LoadRange f.bytes) with
  | none => simp [hheader, hident, hrange]
  | some imageSize =>
    simp only [Option.getD_some, Result.after_trace, List.cons_append, List.nil_append,
      confined_append, confined_cons, hheader, hident, hrange, true_and, Option.some.injEq,
      forall_eq']
    exact and_congr_right fun hph => elf32Build_confined (elf32Span_le hspan) hph

/-- An ELF32 header, one program header for 16 bytes of zeroes, no sections, and `e_shoff`. -/
def tinyElf32 (shoff : Nat) : File where
  bytes :=
    let m := writeLE (writeLE (writeLE (fun _ => 0) 0 4 elfMagic) 4 1 1) 18 2 3
    let m := writeLE (writeLE (writeLE m 28 4 64) 32 4 shoff) 44 2 1
    writeLE (writeLE m 64 4 1) 84 4 16
  size := 96
  size_lt := by decide

theorem peLoadElf32_confined_tiny :
    (elf32Header (tinyElf32 0).bytes).identClass = 1 ∧
    (elf32Header (tinyElf32 0).bytes).machine = 3 ∧
    Elf32Fits .x86 roomyEnv (tinyElf32 0) 0 16 0x100000 := by
  have hclass : (elf32Header (tinyElf32 0).bytes).identClass = 1 := by decide +kernel
  have hmachine : (elf32Header (tinyElf32 0).bytes).machine = 3 := by decide +kernel
  have hfits := (@peLoadElf32_confined_iff _ .x86 roomyEnv (tinyElf32 0) 0x100000 (by decide) hclass
    hmachine).mp (by decide +kernel)
  have hbase : (elf32LoadRange (tinyElf32 0).bytes).base = 0 := by decide +kernel
  exact ⟨hclass, hmachine, hbase ▸ hfits.2 16 (by decide +kernel)⟩

/-- `sh[e_shstrndx].offset` is read without a look at `e_shoff`: here 16 bytes past the end. -/
theorem peLoadElf32_reads_past_file :
    (elf32Header (tinyElf32 96).bytes).identClass = 1 ∧
    (elf32Header (tinyElf32 96).bytes).machine = 3 ∧
    elf32Span (elf32LoadRange (tinyElf32 96).bytes) = some 16 ∧
    ¬ Confined 96 16 (peLoadElf .x86 roomyEnv (tinyElf32 96) 0x100000).trace := by
  decide +kernel

end DiscouNT.Loader
