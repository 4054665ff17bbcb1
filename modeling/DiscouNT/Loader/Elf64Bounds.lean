import DiscouNT.Loader.PeImage

/-!
# Loader.Elf64Bounds

Which ELF64 images `PeLoadELF64` loads without leaving its two buffers. The check of the program
headers is sound. Where a loop can end early (a segment that is rejected, a symbol that stays
unresolved), only what is reached counts.
-/

namespace DiscouNT.Loader

open Lib

def Elf64Phdr.Passes (ph : Elf64Phdr) (base span : Nat) : Prop :=
  ph.type = 1 → ph.filesz ≠ 0 → u64 (sub64 ph.vaddr base + ph.filesz) ≤ span

/-- The low halves of offset, destination and length, which are what is copied, do not carry. -/
def Elf64Phdr.Fits (ph : Elf64Phdr) (base : Nat) : Prop :=
  ph.type = 1 → ph.filesz ≠ 0 →
    u32 ph.offset + u32 ph.filesz < 2 ^ 32 ∧ u32 (sub64 ph.vaddr base) + u32 ph.filesz < 2 ^ 32

def Elf64SegmentsFit (m : Mem) (e : Elf64Header) (base span : Nat) : Prop :=
  ∀ i < e.phnum, (∀ j ≤ i, (elf64Phdr m (e.ph j)).Passes base span) →
    (elf64Phdr m (e.ph i)).Fits base

def Elf64NameFits (f : File) (e : Elf64Header) (i : Nat) : Prop :=
  e.shstrndx < e.shnum → e.sh e.shstrndx + 32 ≤ f.size ∧
    ((elf64Shdr f.bytes (e.sh e.shstrndx)).offset < f.size → e.sh i + 4 ≤ f.size ∧
      (nameIs f (ascii ".dynstr") (elf64SectionName f e i).1 = true → e.sh i + 40 ≤ f.size))

def RelaCtx.next {σ : Type} (c : RelaCtx) (env : Env σ) (r : Nat) (w : σ) : Option σ :=
  if c.Skips r then some w
  else
    match relaSym c env (elf64RSym (elf64Rela c.file.bytes r).info) w with
    | (none, _, _) => none
    | (some _, _, w) => some w

/-- The record at `r` and its symbol are in the file, and where it stores, `off + 8` does not
wrap. -/
def RelaCtx.RecordFits {σ : Type} (c : RelaCtx) (env : Env σ) (r : Nat) (w : σ) : Prop :=
  let rel := elf64Rela c.file.bytes r
  let si := elf64RSym rel.info
  r + 16 ≤ c.file.size ∧
  (¬ c.Skips r →
    (si < c.symcount → c.syms + sizeofElf64Sym * si + 16 ≤ c.file.size) ∧
    (c.next env r w ≠ none → ∀ k, relaKind c.arch (elf64RType rel.info) = some k →
      rel.offset - c.base + 8 < 2 ^ 64 ∧ (k.readsAddend = true → r + 24 ≤ c.file.size)))

def RelaCtx.RecordsFit {σ : Type} (c : RelaCtx) (env : Env σ) (n r : Nat) (w : σ) : Prop :=
  ScanFits (c.RecordFits env) (c.next env) sizeofElf64Rela n r w

def RelaCtx.SectionFits {σ : Type} (c : RelaCtx) (env : Env σ) (e : Elf64Header) (i : Nat) (w : σ) :
    Prop :=
  let sh := elf64Shdr c.file.bytes (e.sh i)
  if sh.type ≠ 4 then e.sh i + 8 ≤ c.file.size
  else
    e.sh i + 40 ≤ c.file.size ∧
    (u64 (sh.offset + sh.size) ≤ c.file.size →
      c.RecordsFit env (u32 (sh.size / sizeofElf64Rela)) sh.offset w)

def RelaCtx.nextSection {σ : Type} (c : RelaCtx) (env : Env σ) (e : Elf64Header) (i : Nat) (w : σ) :
    Option σ :=
  let sh := elf64Shdr c.file.bytes (e.sh i)
  if sh.type ≠ 4 then some w
  else if c.file.size < u64 (sh.offset + sh.size) then some w
  else scanNext (c.next env) sizeofElf64Rela (u32 (sh.size / sizeofElf64Rela)) sh.offset w

def Elf64RelocsFit {σ : Type} (arch : Arch) (env : Env σ) (f : File) (base span imageBase : Nat)
    (w : σ) : Prop :=
  let e := elf64Header f.bytes
  let tables := (elf64FindTables f e e.shnum 0 ⟨none, none⟩).1
  elf64HasSections f e = true →
    (∀ i < e.shnum, Elf64NameFits f e i) ∧
    ∀ symsec strtab, tables.symsec = some symsec → tables.strtab = some strtab →
      symsec + 40 ≤ f.size ∧
      let c := relaCtx arch f base span imageBase symsec strtab
      ScanFits (c.SectionFits env e) (c.nextSection env e) 1 e.shnum 0 w

def Elf64Fits {σ : Type} (arch : Arch) (env : Env σ) (f : File) (span : Nat) (w : σ) : Prop :=
  let e := elf64Header f.bytes
  let base := peGetElf64LoadBase arch f.bytes
  let image := env.kmalloc (sizeofRuntimeHeader arch + span + elf64Slack arch) w
  let copy := env.kmalloc f.size image.2
  image.1 ≠ 0 → copy.1 ≠ 0 →
    Elf64SegmentsFit f.bytes e base span ∧
    ((∀ i < e.phnum, (elf64Phdr f.bytes (e.ph i)).Passes base span) →
      Elf64RelocsFit arch env f base span (elf64ImageBase arch image.1) copy.2)

theorem low_sum_le_iff {a b n : Nat} (hn : n < 2 ^ 32) (h : u64 (a + b) ≤ n) :
    (u32 b = 0 ∨ u32 a + u32 b ≤ n) ↔ u32 a + u32 b < 2 ^ 32 := by
  unfold u64 at h
  unfold u32
  omega

variable {arch : Arch} {i : Nat}

theorem elf64Header_ph_le {f : File} (hok : elf64HeaderOk arch f (elf64Header f.bytes) = true)
    (hi : i < (elf64Header f.bytes).phnum) :
    (elf64Header f.bytes).ph i + sizeofElf64Phdr ≤ f.size := by
  have hsize := f.size_lt
  have hnum : (elf64Header f.bytes).phnum < 65536 := readLE_lt f.bytes 2 56
  have hent : (elf64Header f.bytes).phentsize < 65536 := readLE_lt f.bytes 2 54
  simp only [elf64HeaderOk, Bool.and_eq_true, Bool.not_eq_true', Bool.or_eq_false_iff,
    decide_eq_false_iff_not, Nat.not_lt, Nat.not_le] at hok
  obtain ⟨⟨-, hphent⟩, hoff, hend⟩ := hok
  have hmul : (elf64Header f.bytes).phnum * (elf64Header f.bytes).phentsize ≤ 65535 * 65535 :=
    Nat.mul_le_mul (by omega) (by omega)
  have hstride : sizeofElf64Phdr * (i + 1) ≤
      (elf64Header f.bytes).phnum * (elf64Header f.bytes).phentsize := by
    rw [Nat.mul_comm]
    exact Nat.mul_le_mul hi hphent
  have h56 : sizeofElf64Phdr = 56 := rfl
  rw [u64, Nat.mod_eq_of_lt (by omega)] at hend
  unfold Elf64Header.ph
  rw [h56] at hstride ⊢
  omega

variable {k : Nat}

theorem elf64PhdrReads_confined {f : File}
    (hok : elf64HeaderOk arch f (elf64Header f.bytes) = true) :
    Confined f.size k (elf64PhdrReads (elf64Header f.bytes) (elf64Header f.bytes).phnum) := by
  intro a ha
  obtain ⟨i, hi, rfl⟩ := List.mem_map.mp ha
  exact (inside_src (by decide)).mpr (elf64Header_ph_le hok (List.mem_range.mp hi))

theorem elf64MemEnd_checked {f : File} {e : Elf64Header} :
    ∀ {n i memEnd r : Nat}, elf64MemEnd arch f e n i memEnd = some r →
      ∀ k, i ≤ k → k < i + n → (elf64Phdr f.bytes (e.ph k)).type = 1 →
        u64 ((elf64Phdr f.bytes (e.ph k)).offset + (elf64Phdr f.bytes (e.ph k)).filesz) ≤ f.size := by
  intro n
  induction n with
  | zero => intro i memEnd r _ k h1 h2; omega
  | succ n ih =>
    intro i memEnd r h k h1 h2 ht
    rw [elf64MemEnd] at h
    by_cases hk : k = i
    · subst hk
      rw [if_neg (by omega)] at h
      split at h
      · cases h
      · omega
    · split at h
      · exact ih h k (by omega) (by omega) ht
      · split at h
        · cases h
        · exact ih h k (by omega) (by omega) ht

section Segments

variable {f : File} {e : Elf64Header} {base span : Nat}

theorem elf64CopySegments_isSome : ∀ {n i : Nat} {mem : Mem},
    (elf64CopySegments f e base span n i mem).1 ≠ none ↔
      ∀ k, i ≤ k → k < i + n → (elf64Phdr f.bytes (e.ph k)).Passes base span := by
  intro n
  induction n with
  | zero => intro i mem; simp only [elf64CopySegments]; exact ⟨fun _ k h1 h2 => by omega, by simp⟩
  | succ n ih =>
    intro i mem
    rw [forall_from_succ, elf64CopySegments]
    simp only
    split
    · rename_i hskip
      rw [ih]
      refine ⟨fun h => ⟨fun h1 h2 => ?_, h⟩, fun h => h.2⟩
      exact hskip.elim (fun h => absurd h1 h) fun h => absurd h h2
    · rename_i hcopy
      have htype : (elf64Phdr f.bytes (e.ph i)).type = 1 := by
        by_contra h; exact hcopy (.inl h)
      split
      · rename_i hbad
        refine ⟨fun h => absurd rfl h, fun h => ?_⟩
        have := h.1 htype fun h0 => hcopy (.inr h0)
        omega
      · rename_i hgood
        rw [ih]
        exact ⟨fun h => ⟨fun _ _ => by omega, h⟩, fun h => h.2⟩

theorem elf64CopySegments_confined (hspan : span < 2 ^ 32) : ∀ {n i : Nat} {mem : Mem},
    (∀ k, i ≤ k → k < i + n → e.ph k + sizeofElf64Phdr ≤ f.size) →
    (∀ k, i ≤ k → k < i + n → (elf64Phdr f.bytes (e.ph k)).type = 1 →
      u64 ((elf64Phdr f.bytes (e.ph k)).offset + (elf64Phdr f.bytes (e.ph k)).filesz) ≤ f.size) →
    (Confined f.size span (elf64CopySegments f e base span n i mem).2 ↔
      ∀ k, i ≤ k → k < i + n →
        (∀ j, i ≤ j → j ≤ k → (elf64Phdr f.bytes (e.ph j)).Passes base span) →
        (elf64Phdr f.bytes (e.ph k)).Fits base) := by
  intro n
  induction n with
  | zero =>
    intro i mem _ _
    simp only [elf64CopySegments, confined_nil, true_iff]
    intro k h1 h2; omega
  | succ n ih =>
    intro i mem hph hsrc
    have ih := fun mem => @ih (i + 1) mem
      (fun k h1 h2 => hph k (by omega) (by omega)) (fun k h1 h2 => hsrc k (by omega) (by omega))
    have hread : (Access.src (e.ph i) sizeofElf64Phdr).Inside f.size span :=
      (inside_src (by decide)).mpr (hph i (by omega) (by omega))
    -- the segment itself, and those behind it if it passes
    have hstep : (∀ k, i ≤ k → k < i + (n + 1) →
          (∀ j, i ≤ j → j ≤ k → (elf64Phdr f.bytes (e.ph j)).Passes base span) →
          (elf64Phdr f.bytes (e.ph k)).Fits base) ↔
        ((elf64Phdr f.bytes (e.ph i)).Passes base span →
          (elf64Phdr f.bytes (e.ph i)).Fits base ∧
          ∀ k, i + 1 ≤ k → k < i + 1 + n →
            (∀ j, i + 1 ≤ j → j ≤ k → (elf64Phdr f.bytes (e.ph j)).Passes base span) →
            (elf64Phdr f.bytes (e.ph k)).Fits base) := by
      constructor
      · intro h hp
        refine ⟨h i (by omega) (by omega) fun j h1 h2 => ?_, fun k h1 h2 hj => ?_⟩
        · rw [show j = i by omega]; exact hp
        · refine h k (by omega) (by omega) fun j h3 h4 => ?_
          by_cases hji : j = i
          · rw [hji]; exact hp
          · exact hj j (by omega) h4
      · intro h k h1 h2 hj
        obtain ⟨h3, h4⟩ := h (hj i (by omega) (by omega))
        by_cases hki : k = i
        · rw [hki]; exact h3
        · exact h4 k (by omega) (by omega) fun j h5 h6 => hj j (by omega) h6
    rw [hstep, elf64CopySegments]
    simp only
    split
    · rename_i hskip
      have hnot : ∀ {P : Prop}, (elf64Phdr f.bytes (e.ph i)).type = 1 →
          (elf64Phdr f.bytes (e.ph i)).filesz ≠ 0 → P :=
        fun h1 h2 => hskip.elim (fun h => absurd h1 h) fun h => absurd h h2
      simp only [confined_cons, hread, true_and, ih]
      exact ⟨fun h _ => ⟨hnot, h⟩, fun h => (h hnot).2⟩
    · rename_i hcopy
      have htype : (elf64Phdr f.bytes (e.ph i)).type = 1 := by
        by_contra h; exact hcopy (.inl h)
      have hfilesz : (elf64Phdr f.bytes (e.ph i)).filesz ≠ 0 := fun h => hcopy (.inr h)
      split
      · rename_i hbad
        simp only [confined_cons, hread, confined_nil, and_true, true_iff]
        intro hp
        have := hp htype hfilesz
        omega
      · rename_i hgood
        have h1 : (Access.src (u32 (elf64Phdr f.bytes (e.ph i)).offset)
            (u32 (elf64Phdr f.bytes (e.ph i)).filesz)).Inside f.size span ↔ _ :=
          low_sum_le_iff f.size_lt (hsrc i (by omega) (by omega) htype)
        have h2 : (Access.dst (u32 (sub64 (elf64Phdr f.bytes (e.ph i)).vaddr base))
            (u32 (elf64Phdr f.bytes (e.ph i)).filesz)).Inside f.size span ↔ _ :=
          low_sum_le_iff hspan (Nat.not_lt.mp hgood)
        simp only [confined_cons, hread, true_and, h1, h2, ih]
        constructor
        · rintro ⟨h3, h4, h5⟩ _; exact ⟨fun _ _ => ⟨h3, h4⟩, h5⟩
        · intro h
          obtain ⟨h3, h5⟩ := h fun _ _ => by omega
          exact ⟨(h3 htype hfilesz).1, (h3 htype hfilesz).2, h5⟩

end Segments

theorem elf64SectionName_confined {f : File} {e : Elf64Header} :
    Confined f.size k (elf64SectionName f e i).2 ↔
      (e.shstrndx < e.shnum → e.sh e.shstrndx + 32 ≤ f.size ∧
        ((elf64Shdr f.bytes (e.sh e.shstrndx)).offset < f.size → e.sh i + 4 ≤ f.size)) := by
  unfold elf64SectionName
  simp only
  split
  · rename_i hidx
    split
    · rename_i hoff
      simp only [confined_cons, confined_nil, inside_src_lit, hidx, hoff, forall_const, and_true]
    · rename_i hoff
      simp only [confined_cons, confined_nil, inside_src_lit, hidx, hoff, forall_const,
        false_implies, and_true]
  · rename_i hidx
    simp only [confined_nil, true_iff]
    exact fun h => absurd h hidx

theorem elf64SectionName_some {f : File} {e : Elf64Header} {s : Name}
    (h : nameIs f s (elf64SectionName f e i).1 = true) :
    e.shstrndx < e.shnum ∧ (elf64Shdr f.bytes (e.sh e.shstrndx)).offset < f.size := by
  unfold elf64SectionName at h
  simp only at h
  split at h
  · rename_i hidx
    split at h
    · rename_i hoff; exact ⟨hidx, hoff⟩
    · cases h
  · cases h

theorem elf64NameFits_iff {f : File} {e : Elf64Header} :
    Elf64NameFits f e i ↔ Confined f.size k (elf64SectionName f e i).2 ∧
      (nameIs f (ascii ".dynstr") (elf64SectionName f e i).1 = true → e.sh i + 40 ≤ f.size) := by
  rw [elf64SectionName_confined]
  constructor
  · intro h
    refine ⟨fun hidx => ⟨(h hidx).1, fun hoff => ((h hidx).2 hoff).1⟩, fun hname => ?_⟩
    obtain ⟨hidx, hoff⟩ := elf64SectionName_some hname
    exact ((h hidx).2 hoff).2 hname
  · rintro ⟨h, hdyn⟩ hidx
    exact ⟨(h hidx).1, fun hoff => ⟨(h hidx).2 hoff, hdyn⟩⟩

theorem elf64FindTables_confined {f : File} {e : Elf64Header} :
    ∀ {n i : Nat} {t : SymTables}, Confined f.size k (elf64FindTables f e n i t).2 ↔
      ∀ j, i ≤ j → j < i + n → Elf64NameFits f e j := by
  intro n
  induction n with
  | zero =>
    intro i t
    simp only [elf64FindTables, confined_nil, true_iff]
    intro j h1 h2; omega
  | succ n ih =>
    intro i t
    rw [forall_from_succ, elf64NameFits_iff (k := k), elf64FindTables]
    split
    · rename_i hdyn
      simp only [confined_append, confined_cons, inside_src_lit, ih, hdyn, forall_const]
      constructor
      · rintro ⟨h1, h2, h3, h4⟩; exact ⟨⟨h1, by omega⟩, h4⟩
      · rintro ⟨⟨h1, h2⟩, h3⟩; exact ⟨h1, by omega, by omega, h3⟩
    · rename_i hdyn
      simp only [confined_append, ih, hdyn, Bool.false_eq_true, false_implies, and_true]

section Relocations

variable {σ : Type} {c : RelaCtx} {env : Env σ}

theorem relaSym_confined {si : Nat} {w : σ} :
    Confined c.file.size k (relaSym c env si w).2.1 ↔
      (si < c.symcount → c.syms + sizeofElf64Sym * si + 16 ≤ c.file.size) := by
  unfold relaSym
  simp only
  split
  · rename_i hsi
    simp only [confined_nil, true_iff]
    intro h; omega
  · rename_i hsi
    have hlt : si < c.symcount := by omega
    split
    · simp only [confined_cons, confined_nil, inside_src_lit, hlt, forall_const, and_true]
    · split
      · split <;>
        · simp only [confined_cons, confined_nil, inside_src_lit, hlt, forall_const, and_true]
          omega
      · simp only [confined_cons, confined_nil, inside_src_lit, hlt, forall_const, and_true]
        omega

theorem RelaKind.width_cases (k : RelaKind) : k.width = 4 ∨ k.width = 8 := by
  cases k <;> simp [RelaKind.width]

theorem patch_inside_iff {off span width : Nat} (hoff : off < 2 ^ 64) (hspan : span ≤ 0x10000000)
    (hw : width = 4 ∨ width = 8) (h : u64 (off + 8) ≤ span) :
    (Access.dst (u32 off) width).Inside k span ↔ off + 8 < 2 ^ 64 := by
  unfold u64 at h
  simp only [Access.Inside, u32]
  omega

theorem patchAccesses_confined {r off n span : Nat} {kind : Option RelaKind} :
    Confined n span (patchAccesses r off kind) ↔ ∀ k, kind = some k →
      (Access.dst off k.width).Inside n span ∧ (k.readsAddend = true → r + 24 ≤ n) := by
  cases kind with
  | none => simp [patchAccesses]
  | some k =>
    simp only [patchAccesses, confined_append, confined_cons, confined_nil, and_true,
      Option.some.injEq, forall_eq']
    rw [and_comm]
    refine and_congr_right fun _ => ?_
    split
    · rename_i h; simp only [confined_cons, confined_nil, inside_src_lit, h, forall_const, and_true]
    · rename_i h; simp [h]

theorem relaRecord_next (r : Nat) (mem : Mem) (w : σ) :
    (relaRecord c env r mem w).next = c.next env r w := by
  unfold RelaCtx.next relaRecord
  by_cases h : c.Skips r
  · simp only [if_pos h]; rfl
  · simp only [if_neg h]
    cases relaSym c env (elf64RSym (elf64Rela c.file.bytes r).info) w with
    | mk sym rest => cases sym <;> rfl

theorem relaRecord_confined (hspan : c.span ≤ 0x10000000) (r : Nat) (mem : Mem) (w : σ) :
    Confined c.file.size c.span (relaRecord c env r mem w).2.1 ↔ c.RecordFits env r w := by
  have hoffset : (elf64Rela c.file.bytes r).offset < 2 ^ 64 := readLE_lt _ 8 _
  unfold RelaCtx.RecordFits
  simp only
  rw [← relaRecord_next r mem]
  unfold relaRecord
  by_cases hskip : c.Skips r
  · simp only [if_pos hskip]
    simp only [confined_cons, confined_nil, inside_src_lit, hskip, not_true_eq_false,
      false_implies, and_true]
    omega
  · have hin := hskip
    simp only [RelaCtx.Skips] at hin
    simp only [if_neg hskip]
    have hbase : c.base ≤ (elf64Rela c.file.bytes r).offset := by omega
    have hsub : sub64 (elf64Rela c.file.bytes r).offset c.base =
        (elf64Rela c.file.bytes r).offset - c.base := by
      unfold sub64; omega
    have hsym : Confined c.file.size c.span
        (relaSym c env (elf64RSym (elf64Rela c.file.bytes r).info) w).2.1 ↔ _ := relaSym_confined
    split
    · rename_i t w' hr
      rw [hr] at hsym
      simp only [confined_cons, inside_src_lit, hsym, hskip, not_false_eq_true, forall_const,
        Step.next_none, ne_eq, not_true_eq_false, false_implies, and_true]
      constructor
      · rintro ⟨h1, h2, h3⟩; exact ⟨by omega, h3⟩
      · rintro ⟨h1, h3⟩; exact ⟨by omega, by omega, h3⟩
    · rename_i sym t w' hr
      rw [hr] at hsym
      simp only [confined_cons, confined_append, inside_src_lit, hsym, hskip, not_false_eq_true,
        forall_const, Step.next_some, reduceCtorEq, ne_eq, patchAccesses_confined]
      have hinside : ∀ k : RelaKind,
          ((Access.dst (u32 (sub64 (elf64Rela c.file.bytes r).offset c.base)) k.width).Inside
            c.file.size c.span ↔ (elf64Rela c.file.bytes r).offset - c.base + 8 < 2 ^ 64) := by
        intro k
        rw [hsub] at hin ⊢
        exact patch_inside_iff (by omega) hspan k.width_cases (by omega)
      simp only [hinside]
      constructor
      · rintro ⟨h1, h2, h3, h4⟩; exact ⟨by omega, h3, h4⟩
      · rintro ⟨h1, h3, h4⟩; exact ⟨by omega, by omega, h3, h4⟩

theorem relaSection_next (e : Elf64Header) (i : Nat) (mem : Mem) (w : σ) :
    (relaSection c env e i mem w).next = c.nextSection env e i w := by
  unfold relaSection RelaCtx.nextSection
  simp only
  split
  · rfl
  · split
    · rfl
    · exact scan_next relaRecord_next

theorem relaSection_confined (hspan : c.span ≤ 0x10000000) (e : Elf64Header) (i : Nat) (mem : Mem)
    (w : σ) : Confined c.file.size c.span (relaSection c env e i mem w).2.1 ↔
      c.SectionFits env e i w := by
  have hreads : Confined c.file.size c.span
      [.src (e.sh i + 4) 4, .src (e.sh i + 24) 8, .src (e.sh i + 32) 8] ↔
        e.sh i + 40 ≤ c.file.size := by
    simp only [confined_cons, confined_nil, inside_src_lit, and_true]
    omega
  unfold relaSection RelaCtx.SectionFits
  simp only
  split
  · simp only [confined_cons, confined_nil, inside_src_lit, and_true]
  · split
    · rename_i hbad
      rw [hreads]
      exact ⟨fun h => ⟨h, fun h' => by omega⟩, fun h => h.1⟩
    · rename_i hgood
      have hrecs := scan_confined (s := sizeofElf64Rela) (@relaRecord_next _ c env)
        (relaRecord_confined hspan)
        (n := u32 ((elf64Shdr c.file.bytes (e.sh i)).size / sizeofElf64Rela))
        (r := (elf64Shdr c.file.bytes (e.sh i)).offset) (m := mem) (w := w)
      rw [relaRecords, RelaCtx.RecordsFit, confined_append, hreads, hrecs]
      exact ⟨fun h => ⟨h.1, fun _ => h.2⟩, fun h => ⟨h.1, h.2 (by omega)⟩⟩

theorem elf64Relocate_confined {f : File} {base span imageBase : Nat} {mem : Mem}
    {w : σ} (hspan : span ≤ 0x10000000) :
    Confined f.size span (elf64Relocate arch env f base span imageBase mem w).2.1 ↔
      Elf64RelocsFit arch env f base span imageBase w := by
  have hnames : (∀ j, 0 ≤ j → j < 0 + (elf64Header f.bytes).shnum →
      Elf64NameFits f (elf64Header f.bytes) j) ↔
      ∀ j < (elf64Header f.bytes).shnum, Elf64NameFits f (elf64Header f.bytes) j := by simp
  unfold elf64Relocate Elf64RelocsFit
  simp only
  split
  · rename_i hsec
    simp only [hsec, forall_const]
    have hfind := elf64FindTables_confined (f := f) (e := elf64Header f.bytes) (k := span)
      (n := (elf64Header f.bytes).shnum) (i := 0) (t := ⟨none, none⟩)
    rw [hnames] at hfind
    split
    · rename_i symsec strtab h1 h2
      have hreads : symsec + 24 + (7 + 1) ≤ f.size ∧ symsec + 32 + (7 + 1) ≤ f.size ↔
          symsec + 40 ≤ f.size := by omega
      have honly : ∀ {P : Nat → Nat → Prop},
          (∀ s t, some symsec = some s → some strtab = some t → P s t) ↔ P symsec strtab :=
        ⟨fun h => h _ _ rfl rfl, fun h s t h1 h2 => by cases h1; cases h2; exact h⟩
      rw [h1, h2, honly, confined_append, confined_cons, confined_cons, inside_src_lit,
        inside_src_lit, hfind, ← and_assoc (a := symsec + 24 + (7 + 1) ≤ f.size), hreads]
      refine and_congr_right fun _ => and_congr_right fun _ => ?_
      exact scan_confined (relaSection_next _) (relaSection_confined hspan _)
    · rename_i hnone
      rw [hfind]
      exact ⟨fun h => ⟨h, fun s t h1 h2 => absurd h2 (hnone s t h1)⟩, fun h => h.1⟩
  · rename_i hsec
    simp only [hsec, Bool.false_eq_true, false_implies, confined_nil]

/-! ## The loader -/

theorem elf64Span_spec {f : File} {e : Elf64Header} {span : Nat}
    (h : elf64Span arch f e = some span) :
    (∃ memEnd, elf64MemEnd arch f e e.phnum 0 0 = some memEnd) ∧ span ≤ 0x10000000 := by
  unfold elf64Span at h
  simp only at h
  split at h
  · cases h
  · rename_i memEnd hmem
    refine ⟨⟨memEnd, hmem⟩, ?_⟩
    split at h
    · cases h
    · split at h
      · cases h
      · split at h
        · cases h
        · cases h; omega

theorem elf64Fill_confined {f : File} {span allocBase sourceCopy : Nat} {w : σ}
    (hok : elf64HeaderOk arch f (elf64Header f.bytes) = true)
    (hspan : elf64Span arch f (elf64Header f.bytes) = some span) :
    Confined f.size span (elf64Fill arch env f span allocBase sourceCopy w).trace ↔
      Elf64SegmentsFit f.bytes (elf64Header f.bytes) (peGetElf64LoadBase arch f.bytes) span ∧
      ((∀ i < (elf64Header f.bytes).phnum, (elf64Phdr f.bytes ((elf64Header f.bytes).ph i)).Passes
          (peGetElf64LoadBase arch f.bytes) span) →
        Elf64RelocsFit arch env f (peGetElf64LoadBase arch f.bytes) span
          (elf64ImageBase arch allocBase) w) := by
  obtain ⟨⟨memEnd, hmem⟩, hle⟩ := elf64Span_spec hspan
  have hph : ∀ k, 0 ≤ k → k < 0 + (elf64Header f.bytes).phnum →
      (elf64Header f.bytes).ph k + sizeofElf64Phdr ≤ f.size :=
    fun k _ h => elf64Header_ph_le hok (by omega)
  have hsome : (elf64CopySegments f (elf64Header f.bytes) (peGetElf64LoadBase arch f.bytes) span
      (elf64Header f.bytes).phnum 0 fun _ => 0).1 ≠ none ↔ _ := elf64CopySegments_isSome
  have hseg : Confined f.size span (elf64CopySegments f (elf64Header f.bytes)
      (peGetElf64LoadBase arch f.bytes) span (elf64Header f.bytes).phnum 0 fun _ => 0).2 ↔ _ :=
    elf64CopySegments_confined (by omega) hph (elf64MemEnd_checked hmem)
  simp only [Nat.zero_le, Nat.zero_add, forall_const] at hsome hseg
  have hstart : Confined f.size span [.src 0 f.size, .dst 0 span] := by
    simp only [confined_cons, confined_nil, Access.Inside, and_true]
    omega
  unfold elf64Fill
  rw [Elf64SegmentsFit, ← hseg, ← hsome]
  simp only
  cases hc : elf64CopySegments f (elf64Header f.bytes) (peGetElf64LoadBase arch f.bytes)
      span (elf64Header f.bytes).phnum 0 (fun _ => 0) with
  | mk mem t =>
    cases mem with
    | none =>
      simp only
      rw [confined_append]
      exact ⟨fun h => ⟨h.2, fun hne => absurd rfl hne⟩, fun h => ⟨hstart, h.1⟩⟩
    | some mem =>
      have hrel : Confined f.size span (elf64Relocate arch env f (peGetElf64LoadBase arch f.bytes)
          span (elf64ImageBase arch allocBase) mem w).2.1 ↔ _ := elf64Relocate_confined hle
      rw [← hrel]
      simp only
      cases hr : elf64Relocate arch env f (peGetElf64LoadBase arch f.bytes) span
          (elf64ImageBase arch allocBase) mem w with
      | mk mem' rest =>
        cases mem' <;>
        · simp only
          rw [confined_append, confined_append]
          exact ⟨fun h => ⟨h.1.2, fun _ => h.2⟩, fun h => ⟨⟨hstart, h.1⟩, h.2 (by simp)⟩⟩

theorem elf64Build_confined {f : File} {span : Nat} {w : σ}
    (hok : elf64HeaderOk arch f (elf64Header f.bytes) = true)
    (hspan : elf64Span arch f (elf64Header f.bytes) = some span) :
    Confined f.size span (elf64Build arch env f span w).trace ↔ Elf64Fits arch env f span w := by
  unfold elf64Build Elf64Fits
  simp only
  cases hk : env.kmalloc (sizeofRuntimeHeader arch + span + elf64Slack arch) w with
  | mk a w1 =>
    cases a with
    | zero => simp
    | succ a =>
      simp only
      cases hk' : env.kmalloc f.size w1 with
      | mk s w2 =>
        cases s with
        | zero => simp
        | succ s =>
          simp only [elf64Fill_confined hok hspan]
          exact ⟨fun h _ _ => h, fun h => h (by omega) (by omega)⟩

end Relocations

/-- **Bounds of the ELF64 loader.** For a header that is accepted, the load stays inside the file
and the image if and only if the program headers are rejected or the image fits. -/
theorem peLoadElf64_confined_iff {σ : Type} {arch : Arch} {env : Env σ} {f : File} {w : σ}
    (hsize : 64 ≤ f.size) (hok : elf64HeaderOk arch f (elf64Header f.bytes) = true) :
    Confined f.size ((elf64Span arch f (elf64Header f.bytes)).getD 0)
        (peLoadElf64 arch env f w).trace ↔
      ∀ span, elf64Span arch f (elf64Header f.bytes) = some span → Elf64Fits arch env f span w := by
  have hheader : ∀ k, (Access.src 0 sizeofElf64Header).Inside f.size k := fun k => .inr hsize
  have hreads := fun k => elf64PhdrReads_confined (k := k) hok
  unfold peLoadElf64
  simp only [hok, if_true]
  cases hspan : elf64Span arch f (elf64Header f.bytes) with
  | none => simp [hheader, hreads]
  | some span =>
    simp only [Option.getD_some, Result.after_trace, confined_append, confined_cons, hheader,
      hreads, true_and, Option.some.injEq, forall_eq']
    exact elf64Build_confined hok hspan

/-- An ELF64 header, one program header for 16 bytes of zeroes, and a section table at `shoff`. -/
def tinyElf64 (shoff shnum : Nat) : File where
  bytes :=
    let m := writeLE (writeLE (fun _ => 0) 0 4 elfMagic) 4 1 2
    let m := writeLE (writeLE (writeLE m 18 2 62) 32 8 64) 40 8 shoff
    let m := writeLE (writeLE (writeLE m 54 2 56) 56 2 1) 60 2 shnum
    writeLE (writeLE m 64 4 1) 104 8 16
  size := 120
  size_lt := by decide

theorem peLoadElf64_confined_tiny :
    elf64HeaderOk .amd64 (tinyElf64 0 0) (elf64Header (tinyElf64 0 0).bytes) = true ∧
    ∀ span, elf64Span .amd64 (tinyElf64 0 0) (elf64Header (tinyElf64 0 0).bytes) = some span →
      Elf64Fits .amd64 roomyEnv (tinyElf64 0 0) span 0x100000 := by
  have hok : elf64HeaderOk .amd64 (tinyElf64 0 0) (elf64Header (tinyElf64 0 0).bytes) = true := by
    decide +kernel
  exact ⟨hok, (peLoadElf64_confined_iff (by decide) hok).mp (by decide +kernel)⟩

/-- A section table of one header at the end of the file, with `e_shentsize` 0, passes the check
and is read. -/
theorem peLoadElf64_reads_past_file :
    elf64HeaderOk .amd64 (tinyElf64 120 1) (elf64Header (tinyElf64 120 1).bytes) = true ∧
    elf64Span .amd64 (tinyElf64 120 1) (elf64Header (tinyElf64 120 1).bytes) = some 16 ∧
    ¬ Confined 120 16 (peLoadElf64 .amd64 roomyEnv (tinyElf64 120 1) 0x100000).trace := by
  decide +kernel

end DiscouNT.Loader
