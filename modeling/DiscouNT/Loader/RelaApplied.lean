import DiscouNT.Loader.Elf64Bounds

/-!
# Loader.RelaApplied

Which RELA records `PeLoadELF64` applies. A record is passed over without a word when its section, or
the whole section table, is not inside the file, when there is no `.dynsym` or no `.dynstr`, and when
less than 8 bytes of the image are left at its field, whatever the width of the field is.
`rela_applied_iff` says for which files none is.
-/

namespace DiscouNT.Loader

open Lib List Option

def knownRela (arch : Arch) (m : Mem) (r : Nat) : Bool :=
  (relaKind arch (elf64RType (elf64Rela m r).info)).isSome

def relaWidth (arch : Arch) (m : Mem) (r : Nat) : Nat :=
  ((relaKind arch (elf64RType (elf64Rela m r).info)).map RelaKind.width).getD 0

def sectionRelas (m : Mem) (e : Elf64Header) (i : Nat) : List Nat :=
  let sh := elf64Shdr m (e.sh i)
  if sh.type = 4 then List.range' sh.offset (sh.size / sizeofElf64Rela) sizeofElf64Rela else []

def elf64KnownRelas (arch : Arch) (m : Mem) : List Nat :=
  let e := elf64Header m
  if e.shoff = 0 then []
  else ((List.range' 0 e.shnum).flatMap (sectionRelas m e)).filter (knownRela arch m)

def FieldsInSpan (arch : Arch) (f : File) (span : Nat) : Prop :=
  let base := peGetElf64LoadBase arch f.bytes
  ∀ r ∈ elf64KnownRelas arch f.bytes,
    base ≤ (elf64Rela f.bytes r).offset ∧
      (elf64Rela f.bytes r).offset - base + relaWidth arch f.bytes r ≤ span

def stores (t : List Access) : List (Nat × Nat) :=
  t.filterMap fun
    | .src _ _ => none
    | .dst off len => some (off, len)

/-- The records are applied one after the other, each with the value its symbol is found to have. -/
inductive Applied {σ : Type} (c : RelaCtx) (env : Env σ) : List Nat → Mem → Mem → Prop where
  | nil (mem : Mem) : Applied c env [] mem mem
  | cons {r : Nat} {rs : List Nat} {mem mem' : Mem} {k : RelaKind} {sym : Nat} {t : List Access}
      {w w' : σ} (hkind : relaKind c.arch (elf64RType (elf64Rela c.file.bytes r).info) = some k)
      (hsym : relaSym c env (elf64RSym (elf64Rela c.file.bytes r).info) w = (some sym, t, w'))
      (hrest : Applied c env rs
        (writeLE mem (u32 (sub64 (elf64Rela c.file.bytes r).offset c.base)) k.width
          (k.value c.arch c.imageBase
            (c.imageBase + u32 (sub64 (elf64Rela c.file.bytes r).offset c.base)) sym
            (elf64Rela c.file.bytes r).addend)) mem') :
      Applied c env (r :: rs) mem mem'

def elf64Segments (arch : Arch) (f : File) (span : Nat) : Option Mem × List Access :=
  let e := elf64Header f.bytes
  elf64CopySegments f e (peGetElf64LoadBase arch f.bytes) span e.phnum 0 fun _ => 0

def elf64Tables (f : File) : SymTables :=
  let e := elf64Header f.bytes
  (elf64FindTables f e e.shnum 0 ⟨none, none⟩).1

/-- The image is that of the segments with all records of a known type applied, and these are stored
after the segments, in order. -/
structure AllApplied {σ : Type} (arch : Arch) (env : Env σ) (f : File) (t : List Access)
    (im : Image) : Prop where
  stored : stores t = (0, im.imageSize) :: stores (elf64Segments arch f im.imageSize).2 ++
    (elf64KnownRelas arch f.bytes).map fun r =>
      ((elf64Rela f.bytes r).offset - peGetElf64LoadBase arch f.bytes, relaWidth arch f.bytes r)
  applied : ∃ segments, (elf64Segments arch f im.imageSize).1 = some segments ∧
    ((elf64KnownRelas arch f.bytes = [] ∧ im.mem = segments) ∨
      ∃ symsec strtab, (elf64Tables f).symsec = some symsec ∧ (elf64Tables f).strtab = some strtab ∧
        Applied (relaCtx arch f (peGetElf64LoadBase arch f.bytes) im.imageSize im.imageBase symsec
          strtab) env (elf64KnownRelas arch f.bytes) segments im.mem)

def AppliesOrFails {σ : Type} (arch : Arch) (env : Env σ) (f : File) (w : σ) : Prop :=
  ∀ im, (peLoadElf64 arch env f w).image = some im →
    AllApplied arch env f (peLoadElf64 arch env f w).trace im

structure Elf64Accepted (arch : Arch) (f : File) (span : Nat) : Prop where
  header : elf64HeaderOk arch f (elf64Header f.bytes) = true
  size : elf64Span arch f (elf64Header f.bytes) = some span
  segments : ∀ i < (elf64Header f.bytes).phnum,
    (elf64Phdr f.bytes ((elf64Header f.bytes).ph i)).Passes (peGetElf64LoadBase arch f.bytes) span

/-- Each record of a known type is in a file whose section table lies inside it and has a `.dynsym`
and a `.dynstr`, in a section that lies inside the file, among the records that a 32-bit count
reaches, and has 8 bytes of the image at its field. -/
def RelasReached (arch : Arch) (f : File) (span : Nat) : Prop :=
  let e := elf64Header f.bytes
  let base := peGetElf64LoadBase arch f.bytes
  e.shoff ≠ 0 → ∀ i < e.shnum,
    let sh := elf64Shdr f.bytes (e.sh i)
    sh.type = 4 → ∀ j < sh.size / sizeofElf64Rela,
      let r := sh.offset + sizeofElf64Rela * j
      knownRela arch f.bytes r = true →
        (elf64HasSections f e = true ∧ (elf64Tables f).symsec ≠ none ∧ (elf64Tables f).strtab ≠ none) ∧
        (u64 (sh.offset + sh.size) ≤ f.size ∧ j < u32 (sh.size / sizeofElf64Rela)) ∧
        (elf64Rela f.bytes r).offset - base + 8 ≤ span

section Loops

variable {σ : Type} {c : RelaCtx} {env : Env σ} {mem mem' mem'' : Mem} {rs rs' : List Nat}

theorem stores_append {t t' : List Access} : stores (t ++ t') = stores t ++ stores t' :=
  filterMap_append

theorem Applied.append (h : Applied c env rs mem mem') (h' : Applied c env rs' mem' mem'') :
    Applied c env (rs ++ rs') mem mem'' := by
  induction h with
  | nil mem => exact h'
  | cons hkind hsym _ ih => exact .cons hkind hsym (ih h')

theorem scan_applied {step : Nat → Mem → σ → Step Mem σ} {items : Nat → List Nat}
    {field : Nat → Nat × Nat} {s : Nat}
    (hstep : ∀ {r mem mem' t w w'}, step r mem w = (some mem', t, w') →
      stores t = (items r).map field ∧ Applied c env (items r) mem mem') :
    ∀ {n r mem mem' t w w'}, scan step s n r mem w = (some mem', t, w') →
      stores t = ((List.range' r n s).flatMap items).map field ∧
        Applied c env ((List.range' r n s).flatMap items) mem mem' := by
  intro n
  induction n with
  | zero =>
    intro r mem mem' t w w' h
    cases h
    exact ⟨rfl, .nil mem⟩
  | succ n ih =>
    intro r mem mem' t w w' h
    rw [scan] at h
    rcases hs : step r mem w with ⟨m, u, v⟩
    rw [hs] at h
    cases m with
    | none => cases h
    | some m =>
      rcases hrest : scan step s n (r + s) m v with ⟨m', u', v'⟩
      simp only [hrest, Prod.mk.injEq] at h
      obtain ⟨rfl, rfl, rfl⟩ := h
      obtain ⟨hstores, happlied⟩ := hstep hs
      obtain ⟨hstores', happlied'⟩ := ih hrest
      rw [range'_succ, flatMap_cons, map_append, stores_append, hstores, hstores']
      exact ⟨rfl, happlied.append happlied'⟩

theorem scan_isSome {step : Nat → Mem → σ → Step Mem σ} {s : Nat}
    (hstep : ∀ r mem w, (step r mem w).1 ≠ none) :
    ∀ {n r mem w}, (scan step s n r mem w).1 ≠ none := by
  intro n
  induction n with
  | zero =>
    intro r mem w
    exact some_ne_none _
  | succ n ih =>
    intro r mem w
    have h := hstep r mem w
    rw [scan]
    rcases hs : step r mem w with ⟨m, u, v⟩
    rw [hs] at h
    cases m with
    | none => exact absurd rfl h
    | some m => exact ih

def reached (arch : Arch) (m : Mem) (base span r : Nat) : List Nat :=
  if knownRela arch m r = true ∧ ¬ ((elf64Rela m r).offset < base ∨
    span < u64 (sub64 (elf64Rela m r).offset base + 8)) then [r] else []

def relaTarget (arch : Arch) (m : Mem) (base r : Nat) : Nat × Nat :=
  (u32 (sub64 (elf64Rela m r).offset base), relaWidth arch m r)

def sectionReached (arch : Arch) (f : File) (base span : Nat) (e : Elf64Header) (i : Nat) : List Nat :=
  let sh := elf64Shdr f.bytes (e.sh i)
  if sh.type = 4 ∧ u64 (sh.offset + sh.size) ≤ f.size then
    (List.range' sh.offset (u32 (sh.size / sizeofElf64Rela)) sizeofElf64Rela).flatMap
      (reached arch f.bytes base span)
  else []

theorem relaSym_stores {si : Nat} {w : σ} : stores (relaSym c env si w).2.1 = [] := by
  rw [relaSym]
  dsimp only
  split
  · rfl
  · split
    · rfl
    · split
      · split <;> rfl
      · rfl

theorem relaRecord_applied {r : Nat} {t : List Access} {w w' : σ}
    (h : relaRecord c env r mem w = (some mem', t, w')) :
    stores t = (reached c.arch c.file.bytes c.base c.span r).map (relaTarget c.arch c.file.bytes c.base) ∧
      Applied c env (reached c.arch c.file.bytes c.base c.span r) mem mem' := by
  rw [relaRecord] at h
  dsimp only at h
  split at h
  · rename_i hskip
    cases h
    rw [reached, if_neg fun hr => hr.2 hskip]
    exact ⟨rfl, .nil mem⟩
  · rename_i hskip
    have hreads := @relaSym_stores _ c env (elf64RSym (elf64Rela c.file.bytes r).info) w
    rcases hsym : relaSym c env (elf64RSym (elf64Rela c.file.bytes r).info) w with ⟨v, u, w1⟩
    rw [hsym] at h hreads
    cases v with
    | none => cases h
    | some v =>
      simp only [Prod.mk.injEq, some.injEq] at h
      obtain ⟨rfl, rfl, -⟩ := h
      have hstores : ∀ kind, stores (Access.src (r + 8) 8 :: .src r 8 :: (u ++ patchAccesses r
          (u32 (sub64 (elf64Rela c.file.bytes r).offset c.base)) kind)) =
            stores (patchAccesses r (u32 (sub64 (elf64Rela c.file.bytes r).offset c.base)) kind) := by
        intro kind
        change stores (u ++ _) = _
        rw [stores_append]
        exact congrArg (· ++ _) hreads
      rw [hstores]
      rcases hkind : relaKind c.arch (elf64RType (elf64Rela c.file.bytes r).info) with _ | k
      · rw [reached, if_neg fun hr => by rw [knownRela, hkind] at hr; exact Bool.false_ne_true hr.1]
        exact ⟨rfl, .nil mem⟩
      · rw [reached, if_pos ⟨by rw [knownRela, hkind]; rfl, hskip⟩]
        refine ⟨?_, .cons hkind hsym (.nil _)⟩
        rw [patchAccesses, stores_append, map_singleton, relaTarget, relaWidth, hkind]
        split <;> rfl

theorem relaSection_applied {e : Elf64Header} {i : Nat} {t : List Access} {w w' : σ}
    (h : relaSection c env e i mem w = (some mem', t, w')) :
    stores t = (sectionReached c.arch c.file c.base c.span e i).map
        (relaTarget c.arch c.file.bytes c.base) ∧
      Applied c env (sectionReached c.arch c.file c.base c.span e i) mem mem' := by
  rw [relaSection] at h
  dsimp only at h
  rw [sectionReached]
  split at h
  · rename_i htype
    cases h
    rw [if_neg fun hr => htype hr.1]
    exact ⟨rfl, .nil mem⟩
  · rename_i htype
    split at h
    · rename_i hsize
      cases h
      rw [if_neg fun hr => Nat.not_le_of_lt hsize hr.2]
      exact ⟨rfl, .nil mem⟩
    · rename_i hsize
      rw [if_pos ⟨not_not.mp htype, not_lt.mp hsize⟩]
      rcases hr : relaRecords c env (u32 ((elf64Shdr c.file.bytes (e.sh i)).size / sizeofElf64Rela))
        (elf64Shdr c.file.bytes (e.sh i)).offset mem w with ⟨m, u, v⟩
      rw [hr] at h
      rw [relaRecords] at hr
      simp only [Prod.mk.injEq] at h
      obtain ⟨rfl, rfl, -⟩ := h
      obtain ⟨hstores, happlied⟩ := @scan_applied σ c env (relaRecord c env) _ _
        sizeofElf64Rela (fun h => relaRecord_applied h) _ _ _ _ _ _ _ hr
      refine ⟨?_, happlied⟩
      rw [stores_append, hstores]
      exact nil_append _

theorem relaSections_applied {e : Elf64Header} {t : List Access} {w w' : σ}
    (h : relaSections c env e mem w = (some mem', t, w')) :
    stores t = ((List.range' 0 e.shnum).flatMap (sectionReached c.arch c.file c.base c.span e)).map
        (relaTarget c.arch c.file.bytes c.base) ∧
      Applied c env ((List.range' 0 e.shnum).flatMap (sectionReached c.arch c.file c.base c.span e))
        mem mem' := by
  rw [relaSections] at h
  exact scan_applied (fun h => relaSection_applied h) h

end Loops

def reachedRelas (arch : Arch) (f : File) (base span : Nat) : List Nat :=
  let e := elf64Header f.bytes
  if elf64HasSections f e = true ∧ (elf64Tables f).symsec ≠ none ∧ (elf64Tables f).strtab ≠ none then
    (List.range' 0 e.shnum).flatMap (sectionReached arch f base span e)
  else []

section Load

variable {σ : Type} {arch : Arch} {env : Env σ} {f : File} {w : σ}

theorem elf64SectionName_stores {e : Elf64Header} {i : Nat} :
    stores (elf64SectionName f e i).2 = [] := by
  rw [elf64SectionName]
  split
  · split <;> rfl
  · rfl

theorem elf64FindTables_stores {e : Elf64Header} :
    ∀ {n i : Nat} {t : SymTables}, stores (elf64FindTables f e n i t).2 = [] := by
  intro n
  induction n with
  | zero =>
    intro i t
    rfl
  | succ n ih =>
    intro i t
    rw [elf64FindTables]
    dsimp only
    split
    · rw [stores_append, elf64SectionName_stores]
      exact ih
    · rw [stores_append, elf64SectionName_stores]
      exact ih

theorem elf64Relocate_applied {base span imageBase : Nat} {mem mem' : Mem} {t : List Access} {w' : σ}
    (h : elf64Relocate arch env f base span imageBase mem w = (some mem', t, w')) :
    stores t = (reachedRelas arch f base span).map
      (relaTarget arch f.bytes base) ∧
    ((reachedRelas arch f base span = [] ∧ mem' = mem) ∨
      ∃ symsec strtab, (elf64Tables f).symsec = some symsec ∧ (elf64Tables f).strtab = some strtab ∧
        Applied (relaCtx arch f base span imageBase symsec strtab) env
          (reachedRelas arch f base span) mem mem') := by
  have hnone : ∀ {u}, ¬ (elf64HasSections f (elf64Header f.bytes) = true ∧
      (elf64Tables f).symsec ≠ none ∧ (elf64Tables f).strtab ≠ none) → stores u = [] →
      (some mem, u, w) = (some mem', t, w') →
      stores t = (reachedRelas arch f base span).map
        (relaTarget arch f.bytes base) ∧
      reachedRelas arch f base span = [] ∧ mem' = mem := by
    intro u hno hu heq
    cases heq
    rw [reachedRelas, if_neg hno, hu]
    exact ⟨rfl, rfl, rfl⟩
  rw [elf64Relocate] at h
  dsimp only at h
  split at h
  · rename_i hsections
    have hreads := @elf64FindTables_stores f (elf64Header f.bytes) (elf64Header f.bytes).shnum 0
      ⟨none, none⟩
    split at h
    · rename_i symsec strtab hsym hstr
      rcases hr : relaSections (relaCtx arch f base span imageBase symsec
        strtab) env (elf64Header f.bytes) mem w with ⟨m, u, v⟩
      rw [hr] at h
      simp only [Prod.mk.injEq] at h
      obtain ⟨rfl, rfl, -⟩ := h
      obtain ⟨hstores, happlied⟩ := relaSections_applied hr
      have hall : reachedRelas arch f base span = (List.range' 0 (elf64Header f.bytes).shnum).flatMap
          (sectionReached arch f base span (elf64Header f.bytes)) := by
        have hsym' : (elf64Tables f).symsec = some symsec := hsym
        have hstr' : (elf64Tables f).strtab = some strtab := hstr
        exact if_pos ⟨hsections, by rw [hsym']; exact some_ne_none _,
          by rw [hstr']; exact some_ne_none _⟩
      rw [hall]
      refine ⟨?_, .inr ⟨symsec, strtab, hsym, hstr, happlied⟩⟩
      rw [stores_append, hreads, nil_append]
      exact hstores
    · rename_i hmissing
      have hno : ¬ (elf64HasSections f (elf64Header f.bytes) = true ∧
          (elf64Tables f).symsec ≠ none ∧ (elf64Tables f).strtab ≠ none) := by
        rintro ⟨-, hsym, hstr⟩
        obtain ⟨symsec, hsym⟩ := ne_none_iff_exists'.mp hsym
        obtain ⟨strtab, hstr⟩ := ne_none_iff_exists'.mp hstr
        exact hmissing symsec strtab hsym hstr
      obtain ⟨hs, hr, hm⟩ := hnone hno hreads h
      exact ⟨hs, .inl ⟨hr, hm⟩⟩
  · rename_i hsections
    obtain ⟨hs, hr, hm⟩ := hnone (fun hall => hsections hall.1) rfl h
    exact ⟨hs, .inl ⟨hr, hm⟩⟩

structure ReachedApplied (arch : Arch) (env : Env σ) (f : File) (span : Nat) (t : List Access)
    (im : Image) : Prop where
  size : im.imageSize = span
  passes : ∀ i < (elf64Header f.bytes).phnum,
    (elf64Phdr f.bytes ((elf64Header f.bytes).ph i)).Passes (peGetElf64LoadBase arch f.bytes) span
  stored : stores t = (0, span) :: stores (elf64Segments arch f span).2 ++
    (reachedRelas arch f (peGetElf64LoadBase arch f.bytes) span).map
      (relaTarget arch f.bytes (peGetElf64LoadBase arch f.bytes))
  applied : ∃ segments, (elf64Segments arch f span).1 = some segments ∧
    ((reachedRelas arch f (peGetElf64LoadBase arch f.bytes) span = [] ∧ im.mem = segments) ∨
      ∃ symsec strtab, (elf64Tables f).symsec = some symsec ∧ (elf64Tables f).strtab = some strtab ∧
        Applied (relaCtx arch f (peGetElf64LoadBase arch f.bytes) span im.imageBase symsec strtab) env
          (reachedRelas arch f (peGetElf64LoadBase arch f.bytes) span) segments im.mem)

theorem elf64Fill_applied {span allocBase sourceCopy : Nat} {im : Image}
    (h : (elf64Fill arch env f span allocBase sourceCopy w).image = some im) :
    ReachedApplied arch env f span (elf64Fill arch env f span allocBase sourceCopy w).trace im := by
  have hpasses := @elf64CopySegments_isSome f (elf64Header f.bytes)
    (peGetElf64LoadBase arch f.bytes) span (elf64Header f.bytes).phnum 0 fun _ => 0
  unfold elf64Fill at h ⊢
  dsimp only at h ⊢
  rcases hcopy : elf64CopySegments f (elf64Header f.bytes) (peGetElf64LoadBase arch f.bytes) span
    (elf64Header f.bytes).phnum 0 (fun _ => 0) with ⟨segments, t⟩
  have hsegments : elf64Segments arch f span = (segments, t) := hcopy
  rw [hcopy] at h hpasses
  cases segments with
  | none => cases h
  | some segments =>
    dsimp only at h ⊢
    rcases hrel : elf64Relocate arch env f (peGetElf64LoadBase arch f.bytes) span
      (elf64ImageBase arch allocBase) segments w with ⟨mem, t', w'⟩
    rw [hrel] at h
    cases mem with
    | none => cases h
    | some mem =>
      cases h
      obtain ⟨hstored, happlied⟩ := elf64Relocate_applied hrel
      refine ⟨rfl, fun i hi => ?_, ?_, segments, by rw [hsegments], happlied⟩
      · exact hpasses.mp (some_ne_none _) i (Nat.zero_le i) (by omega)
      · rw [hsegments]
        dsimp only
        rw [stores_append, stores_append, hstored]
        rfl

theorem peLoadElf64_applied {im : Image} (h : (peLoadElf64 arch env f w).image = some im) :
    Elf64Accepted arch f im.imageSize ∧
      ReachedApplied arch env f im.imageSize (peLoadElf64 arch env f w).trace im := by
  have hreads : ∀ t, stores (.src 0 sizeofElf64Header ::
      elf64PhdrReads (elf64Header f.bytes) (elf64Header f.bytes).phnum ++ t) = stores t := by
    intro t
    have hnone : stores (elf64PhdrReads (elf64Header f.bytes) (elf64Header f.bytes).phnum) = [] := by
      rw [stores, elf64PhdrReads, filterMap_map, filterMap_eq_nil_iff]
      exact fun _ _ => rfl
    rw [cons_append]
    change stores (elf64PhdrReads _ _ ++ t) = stores t
    rw [stores_append, hnone, nil_append]
  have htrace : ∀ span (r : Result σ), ReachedApplied arch env f span r.trace im →
      ReachedApplied arch env f span (r.after (.src 0 sizeofElf64Header ::
        elf64PhdrReads (elf64Header f.bytes) (elf64Header f.bytes).phnum)).trace im :=
    fun span r hr => ⟨hr.size, hr.passes, by rw [Result.after_trace, hreads]; exact hr.stored,
      hr.applied⟩
  unfold peLoadElf64 at h ⊢
  dsimp only at h ⊢
  split at h
  · rename_i hok
    rw [if_pos hok]
    rcases hspan : elf64Span arch f (elf64Header f.bytes) with _ | span
    · rw [hspan] at h
      cases h
    · rw [hspan] at h
      rw [Result.after_image] at h
      dsimp only
      have hbuild : ReachedApplied arch env f span (elf64Build arch env f span w).trace im := by
        unfold elf64Build at h ⊢
        rcases hk : env.kmalloc (sizeofRuntimeHeader arch + span + elf64Slack arch) w with ⟨a, w1⟩
        rw [hk] at h
        cases a with
        | zero => cases h
        | succ a =>
          dsimp only at h ⊢
          rcases hk' : env.kmalloc f.size w1 with ⟨s, w2⟩
          rw [hk'] at h
          cases s with
          | zero => cases h
          | succ s => exact elf64Fill_applied h
      have hsize := hbuild.size
      rw [hsize]
      exact ⟨⟨hok, hspan, hbuild.passes⟩, htrace span _ hbuild⟩
  · cases h

end Load

/-! ## Records that are reached -/

section Records

variable {arch : Arch} {f : File} {m : Mem} {e : Elf64Header} {base span i : Nat}

theorem flatMap_sublist {α β : Type} {g g' : α → List β} {l : List α}
    (h : ∀ a ∈ l, (g a).Sublist (g' a)) : (l.flatMap g).Sublist (l.flatMap g') := by
  induction l with
  | nil => exact .slnil
  | cons a l ih =>
    rw [flatMap_cons, flatMap_cons]
    exact (h a mem_cons_self).append (ih fun b hb => h b (mem_cons_of_mem _ hb))

theorem flatMap_eq_iff {α β : Type} {g g' : α → List β} {l : List α}
    (h : ∀ a ∈ l, (g a).Sublist (g' a)) : l.flatMap g = l.flatMap g' ↔ ∀ a ∈ l, g a = g' a := by
  constructor
  · intro heq
    induction l with
    | nil => exact fun a ha => absurd ha not_mem_nil
    | cons a l ih =>
      have hrest : ∀ a ∈ l, (g a).Sublist (g' a) := fun b hb => h b (mem_cons_of_mem _ hb)
      have hle := (flatMap_sublist hrest).length_le
      have hhead := h a mem_cons_self
      rw [flatMap_cons, flatMap_cons] at heq
      have hlen := congrArg List.length heq
      rw [length_append, length_append] at hlen
      have hsame : g a = g' a := hhead.eq_of_length (by have := hhead.length_le; omega)
      rw [hsame] at heq
      intro b hb
      rcases mem_cons.mp hb with rfl | hb
      · exact hsame
      · exact ih hrest (append_cancel_left heq) b hb
  · exact fun heq => flatMap_congr heq

def isReached (arch : Arch) (m : Mem) (base span r : Nat) : Bool :=
  decide (knownRela arch m r = true ∧ ¬ ((elf64Rela m r).offset < base ∨
    span < u64 (sub64 (elf64Rela m r).offset base + 8)))

theorem flatMap_reached (l : List Nat) :
    l.flatMap (reached arch m base span) = l.filter (isReached arch m base span) := by
  induction l with
  | nil => rfl
  | cons r l ih =>
    rw [flatMap_cons, filter_cons, ih, reached, isReached]
    simp only [decide_eq_true_eq]
    split <;> rfl

def knownRelas (arch : Arch) (m : Mem) (e : Elf64Header) (i : Nat) : List Nat :=
  (sectionRelas m e i).filter (knownRela arch m)

theorem elf64KnownRelas_eq (h : (elf64Header m).shoff ≠ 0) : elf64KnownRelas arch m =
    (List.range' 0 (elf64Header m).shnum).flatMap (knownRelas arch m (elf64Header m)) := by
  rw [elf64KnownRelas, if_neg h, filter_flatMap]
  rfl

theorem u32_le (n : Nat) : u32 n ≤ n := Nat.mod_le _ _

theorem sectionReached_sublist :
    (sectionReached arch f base span e i).Sublist (knownRelas arch f.bytes e i) := by
  rw [sectionReached, knownRelas, sectionRelas]
  split
  · rename_i h
    rw [if_pos h.1, flatMap_reached]
    have hcount : (List.range' (elf64Shdr f.bytes (e.sh i)).offset
        (u32 ((elf64Shdr f.bytes (e.sh i)).size / sizeofElf64Rela)) sizeofElf64Rela).Sublist
        (List.range' (elf64Shdr f.bytes (e.sh i)).offset
          ((elf64Shdr f.bytes (e.sh i)).size / sizeofElf64Rela) sizeofElf64Rela) :=
      range'_sublist_right.mpr (u32_le _)
    refine (hcount.filter _).trans (monotone_filter_right _ fun r hr => ?_)
    exact (decide_eq_true_iff.mp hr).1
  · exact nil_sublist _

theorem isReached_iff {r : Nat} (hspan : span ≤ 0x10000000) (hknown : knownRela arch m r = true)
    (hbase : base ≤ (elf64Rela m r).offset)
    (hfield : (elf64Rela m r).offset - base + relaWidth arch m r ≤ span) :
    isReached arch m base span r = true ↔ (elf64Rela m r).offset - base + 8 ≤ span := by
  have hoffset : (elf64Rela m r).offset < 2 ^ 64 := readLE_lt _ 8 _
  have hsub : sub64 (elf64Rela m r).offset base = (elf64Rela m r).offset - base := by
    unfold sub64
    omega
  have hsum : u64 ((elf64Rela m r).offset - base + 8) = (elf64Rela m r).offset - base + 8 := by
    unfold u64
    omega
  rw [isReached, decide_eq_true_iff, hsub, hsum]
  constructor
  · rintro ⟨-, h⟩
    omega
  · intro h
    exact ⟨hknown, by omega⟩

theorem sectionReached_eq_iff (hspan : span ≤ 0x10000000)
    (hfields : ∀ r ∈ knownRelas arch f.bytes e i, base ≤ (elf64Rela f.bytes r).offset ∧
      (elf64Rela f.bytes r).offset - base + relaWidth arch f.bytes r ≤ span) :
    sectionReached arch f base span e i = knownRelas arch f.bytes e i ↔
      let sh := elf64Shdr f.bytes (e.sh i)
      sh.type = 4 → ∀ j < sh.size / sizeofElf64Rela,
        let r := sh.offset + sizeofElf64Rela * j
        knownRela arch f.bytes r = true →
          (u64 (sh.offset + sh.size) ≤ f.size ∧ j < u32 (sh.size / sizeofElf64Rela)) ∧
            (elf64Rela f.bytes r).offset - base + 8 ≤ span := by
  have hknown : ∀ j, (elf64Shdr f.bytes (e.sh i)).type = 4 →
      j < (elf64Shdr f.bytes (e.sh i)).size / sizeofElf64Rela →
      knownRela arch f.bytes ((elf64Shdr f.bytes (e.sh i)).offset + sizeofElf64Rela * j) = true →
      (elf64Shdr f.bytes (e.sh i)).offset + sizeofElf64Rela * j ∈ knownRelas arch f.bytes e i := by
    intro j htype hj hr
    rw [knownRelas, sectionRelas, if_pos htype, mem_filter]
    exact ⟨mem_range'.mpr ⟨j, hj, rfl⟩, hr⟩
  dsimp only
  constructor
  · intro heq htype j hj hr
    have hmem := hknown j htype hj hr
    obtain ⟨hbase, hfield⟩ := hfields _ hmem
    rw [← heq, sectionReached] at hmem
    split at hmem
    · rename_i hin
      rw [flatMap_reached, mem_filter, mem_range'] at hmem
      obtain ⟨⟨j', hj', hsame⟩, hreached⟩ := hmem
      have hjj : j = j' := Nat.eq_of_mul_eq_mul_left (by decide : 0 < sizeofElf64Rela)
        (Nat.add_left_cancel hsame)
      exact ⟨⟨hin.2, hjj ▸ hj'⟩, (isReached_iff hspan hr hbase hfield).mp hreached⟩
    · exact absurd hmem not_mem_nil
  · intro h
    by_cases htype : (elf64Shdr f.bytes (e.sh i)).type = 4
    · by_cases hsize : u64 ((elf64Shdr f.bytes (e.sh i)).offset +
          (elf64Shdr f.bytes (e.sh i)).size) ≤ f.size
      · -- the records behind a count that was cut off are of no known type
        have hle := u32_le ((elf64Shdr f.bytes (e.sh i)).size / sizeofElf64Rela)
        rw [sectionReached, if_pos ⟨htype, hsize⟩, flatMap_reached, knownRelas, sectionRelas,
          if_pos htype]
        obtain ⟨rest, hrest⟩ := Nat.exists_eq_add_of_le hle
        have hsplit : List.range' (elf64Shdr f.bytes (e.sh i)).offset
            ((elf64Shdr f.bytes (e.sh i)).size / sizeofElf64Rela) sizeofElf64Rela =
            List.range' (elf64Shdr f.bytes (e.sh i)).offset
              (u32 ((elf64Shdr f.bytes (e.sh i)).size / sizeofElf64Rela)) sizeofElf64Rela ++
            List.range' ((elf64Shdr f.bytes (e.sh i)).offset + sizeofElf64Rela *
              u32 ((elf64Shdr f.bytes (e.sh i)).size / sizeofElf64Rela)) rest sizeofElf64Rela := by
          rw [range'_append, ← hrest]
        rw [hsplit, filter_append]
        have hbehind : (List.range' ((elf64Shdr f.bytes (e.sh i)).offset + sizeofElf64Rela *
            u32 ((elf64Shdr f.bytes (e.sh i)).size / sizeofElf64Rela)) rest sizeofElf64Rela).filter
              (knownRela arch f.bytes) = [] := by
          rw [filter_eq_nil_iff]
          intro r hr hk
          obtain ⟨j, hj, rfl⟩ := mem_range'.mp hr
          rw [Nat.add_assoc, ← Nat.mul_add] at hk
          have := (h htype _ (by omega) hk).1.2
          omega
        rw [hbehind, append_nil]
        refine filter_congr fun r hr => ?_
        obtain ⟨j, hj, rfl⟩ := mem_range'.mp hr
        rcases hk : knownRela arch f.bytes
          ((elf64Shdr f.bytes (e.sh i)).offset + sizeofElf64Rela * j) with _ | _
        · rw [isReached, decide_eq_false_iff_not, hk]
          exact fun h => Bool.false_ne_true h.1
        · have hj' := hj.trans_le hle
          obtain ⟨hbase, hfield⟩ := hfields _ (hknown j htype hj' hk)
          exact (isReached_iff hspan hk hbase hfield).mpr (h htype j hj' hk).2
      · rw [sectionReached, if_neg fun hin => hsize hin.2, knownRelas, sectionRelas, if_pos htype,
          eq_comm, filter_eq_nil_iff]
        intro r hr hk
        obtain ⟨j, hj, rfl⟩ := mem_range'.mp hr
        exact hsize (h htype j hj hk).1.1
    · rw [sectionReached, if_neg fun hin => htype hin.1, knownRelas, sectionRelas, if_neg htype]
      rfl

theorem reachedRelas_sublist :
    (reachedRelas arch f base span).Sublist (elf64KnownRelas arch f.bytes) := by
  rw [reachedRelas]
  split
  · rename_i h
    have hshoff : (elf64Header f.bytes).shoff ≠ 0 := by
      intro hz
      rw [elf64HasSections, hz] at h
      exact Bool.false_ne_true h.1
    rw [elf64KnownRelas_eq hshoff]
    exact flatMap_sublist fun i _ => sectionReached_sublist
  · exact nil_sublist _

theorem reachedRelas_eq_iff (hspan : span ≤ 0x10000000) (hfields : FieldsInSpan arch f span) :
    reachedRelas arch f (peGetElf64LoadBase arch f.bytes) span = elf64KnownRelas arch f.bytes ↔
      RelasReached arch f span := by
  have hrange : ∀ i, i ∈ List.range' 0 (elf64Header f.bytes).shnum ↔
      i < (elf64Header f.bytes).shnum := by
    intro i
    simp [mem_range'_1]
  by_cases hshoff : (elf64Header f.bytes).shoff = 0
  · have hno : elf64HasSections f (elf64Header f.bytes) ≠ true := by
      rw [elf64HasSections, hshoff]
      exact Bool.false_ne_true
    rw [reachedRelas, if_neg fun h => hno h.1, elf64KnownRelas, if_pos hshoff]
    exact ⟨fun _ h => absurd hshoff h, fun _ => rfl⟩
  · have hmem : ∀ i < (elf64Header f.bytes).shnum,
        ∀ r ∈ knownRelas arch f.bytes (elf64Header f.bytes) i,
          peGetElf64LoadBase arch f.bytes ≤ (elf64Rela f.bytes r).offset ∧
            (elf64Rela f.bytes r).offset - peGetElf64LoadBase arch f.bytes +
              relaWidth arch f.bytes r ≤ span := by
      intro i hi r hr
      refine hfields r ?_
      rw [elf64KnownRelas_eq hshoff, mem_flatMap]
      exact ⟨i, (hrange i).mpr hi, hr⟩
    rw [elf64KnownRelas_eq hshoff, reachedRelas, RelasReached]
    dsimp only
    split
    · rename_i hall
      rw [flatMap_eq_iff fun i _ => sectionReached_sublist]
      constructor
      · intro heq _ i hi htype j hj hr
        have hi' := heq i ((hrange i).mpr hi)
        rw [sectionReached_eq_iff hspan (hmem i hi)] at hi'
        exact ⟨hall, hi' htype j hj hr⟩
      · intro h i hi
        rw [hrange] at hi
        rw [sectionReached_eq_iff hspan (hmem i hi)]
        exact fun htype j hj hr => (h hshoff i hi htype j hj hr).2
    · rename_i hno
      rw [eq_comm, flatMap_eq_nil_iff]
      constructor
      · intro hnil _ i hi htype j hj hr
        have hi' := hnil i ((hrange i).mpr hi)
        rw [knownRelas, filter_eq_nil_iff] at hi'
        refine absurd hr (hi' _ ?_)
        rw [sectionRelas, if_pos htype]
        exact mem_range'.mpr ⟨j, hj, rfl⟩
      · intro h i hi
        rw [knownRelas, filter_eq_nil_iff]
        intro r hr hk
        rw [sectionRelas] at hr
        split at hr
        · rename_i htype
          obtain ⟨j, hj, rfl⟩ := mem_range'.mp hr
          exact hno (h hshoff i ((hrange i).mp hi) htype j hj hk).1
        · exact not_mem_nil hr

theorem relaTarget_eq (hspan : span ≤ 0x10000000) (hfields : FieldsInSpan arch f span) :
    (elf64KnownRelas arch f.bytes).map (relaTarget arch f.bytes (peGetElf64LoadBase arch f.bytes)) =
      (elf64KnownRelas arch f.bytes).map fun r =>
        ((elf64Rela f.bytes r).offset - peGetElf64LoadBase arch f.bytes, relaWidth arch f.bytes r) := by
  refine map_congr_left fun r hr => ?_
  obtain ⟨hbase, hfield⟩ := hfields r hr
  have hoffset : (elf64Rela f.bytes r).offset < 2 ^ 64 := readLE_lt _ 8 _
  have hsub : u32 (sub64 (elf64Rela f.bytes r).offset (peGetElf64LoadBase arch f.bytes)) =
      (elf64Rela f.bytes r).offset - peGetElf64LoadBase arch f.bytes := by
    unfold u32 sub64
    omega
  rw [relaTarget, hsub]

end Records

/-! ## Loads that apply all records -/

def generousEnv : Env Unit where
  kmalloc _ w := (1, w)
  kfree _ w := w
  resolveExternalSymbol _ w := (1, w)
  setElfImportMissingProcError _ w := w

section Verdict

variable {arch : Arch} {f : File} {span : Nat}

theorem generous_relaRecord {c : RelaCtx} {r : Nat} {mem : Mem} {w : Unit} :
    (relaRecord c generousEnv r mem w).1 ≠ none := by
  have hsym : ∀ si, (relaSym c generousEnv si w).1 ≠ none := by
    intro si
    rw [relaSym]
    dsimp only
    split
    · exact some_ne_none _
    · split
      · exact some_ne_none _
      · split
        · exact some_ne_none _
        · exact some_ne_none _
  rw [relaRecord]
  dsimp only
  split
  · exact some_ne_none _
  · have h := hsym (elf64RSym (elf64Rela c.file.bytes r).info)
    rcases hs : relaSym c generousEnv (elf64RSym (elf64Rela c.file.bytes r).info) w with ⟨v, t, w'⟩
    rw [hs] at h
    cases v with
    | none => exact absurd rfl h
    | some v => exact some_ne_none _

theorem generous_relocate {base imageBase : Nat} {mem : Mem} {w : Unit} :
    (elf64Relocate arch generousEnv f base span imageBase mem w).1 ≠ none := by
  have hsection : ∀ c e i mem w, (relaSection c generousEnv e i mem w).1 ≠ none := by
    intro c e i mem w
    rw [relaSection]
    dsimp only
    split
    · exact some_ne_none _
    · split
      · exact some_ne_none _
      · exact scan_isSome fun _ _ _ => generous_relaRecord
  rw [elf64Relocate]
  dsimp only
  split
  · split
    · exact scan_isSome fun _ _ _ => hsection _ _ _ _ _
    · exact some_ne_none _
  · exact some_ne_none _

theorem generous_load (h : Elf64Accepted arch f span) :
    ∃ im, (peLoadElf64 arch generousEnv f ()).image = some im ∧ im.imageSize = span := by
  have hcopy := (@elf64CopySegments_isSome f (elf64Header f.bytes)
    (peGetElf64LoadBase arch f.bytes) span (elf64Header f.bytes).phnum 0 fun _ => 0).mpr
      fun i _ hi => h.segments i (by omega)
  obtain ⟨segments, hsegments⟩ := ne_none_iff_exists'.mp hcopy
  have hload : (peLoadElf64 arch generousEnv f ()).image =
      (elf64Fill arch generousEnv f span 1 1 ()).image := by
    have hbuild : elf64Build arch generousEnv f span () = elf64Fill arch generousEnv f span 1 1 () := by
      rw [elf64Build]
      rfl
    unfold peLoadElf64
    dsimp only
    rw [if_pos h.header, h.size]
    dsimp only
    rw [Result.after_image, hbuild]
  rw [hload]
  unfold elf64Fill
  dsimp only
  rcases hc : elf64CopySegments f (elf64Header f.bytes) (peGetElf64LoadBase arch f.bytes) span
    (elf64Header f.bytes).phnum 0 (fun _ => 0) with ⟨m, t⟩
  rw [hc] at hsegments
  dsimp only at hsegments
  subst hsegments
  dsimp only
  have hrel := @generous_relocate arch f span (peGetElf64LoadBase arch f.bytes)
    (elf64ImageBase arch 1) segments ()
  rcases hr : elf64Relocate arch generousEnv f (peGetElf64LoadBase arch f.bytes) span
    (elf64ImageBase arch 1) segments () with ⟨m', t', w'⟩
  rw [hr] at hrel
  cases m' with
  | none => exact absurd rfl hrel
  | some m' => exact ⟨_, rfl, rfl⟩

theorem Elf64Accepted.span_le (h : Elf64Accepted arch f span) : span ≤ 0x10000000 :=
  (elf64Span_spec h.size).2

theorem applies_of_reached {σ : Type} {env : Env σ} {w : σ}
    (hfields : ∀ span, elf64Span arch f (elf64Header f.bytes) = some span → FieldsInSpan arch f span)
    (h : ∀ span, Elf64Accepted arch f span → RelasReached arch f span) :
    AppliesOrFails arch env f w := by
  intro im him
  obtain ⟨haccepted, hreached⟩ := peLoadElf64_applied him
  have hspan := haccepted.span_le
  have hin := hfields _ haccepted.size
  have hall := (reachedRelas_eq_iff hspan hin).mpr (h _ haccepted)
  have hstored := hreached.stored
  have happlied := hreached.applied
  rw [hall] at hstored happlied
  rw [relaTarget_eq hspan hin] at hstored
  exact ⟨hstored, happlied⟩

theorem reached_of_applies (hin : FieldsInSpan arch f span) (haccepted : Elf64Accepted arch f span)
    (h : AppliesOrFails arch generousEnv f ()) : RelasReached arch f span := by
  obtain ⟨im, him, rfl⟩ := generous_load haccepted
  have hspan := haccepted.span_le
  obtain ⟨-, hreached⟩ := peLoadElf64_applied him
  have hstored := (h im him).stored
  rw [hreached.stored] at hstored
  have hlen := congrArg List.length (append_cancel_left hstored)
  rw [length_map, length_map] at hlen
  exact (reachedRelas_eq_iff hspan hin).mp (reachedRelas_sublist.eq_of_length hlen)

/-- Where the fields of all records of a known type are in the image, every load of the file either
fails or applies them all, exactly when the headers or segments are rejected or each is reached. -/
theorem rela_applied_iff (arch : Arch) (f : File)
    (h : ∀ span, elf64Span arch f (elf64Header f.bytes) = some span → FieldsInSpan arch f span) :
    (∀ (σ : Type) (env : Env σ) (w : σ), AppliesOrFails arch env f w) ↔
      ∀ span, Elf64Accepted arch f span → RelasReached arch f span := by
  constructor
  · intro hall span haccepted
    exact reached_of_applies (h span haccepted.size) haccepted (hall Unit generousEnv ())
  · intro hreached σ env w
    exact applies_of_reached h hreached

end Verdict

/-- A shared object of 16 zero bytes, with a `.dynsym`, a `.dynstr` and one `R_X86_64_32` record for
the field at `offset`. -/
def oneRela (offset : Nat) : File where
  bytes :=
    let header := fun m => writeLE (writeLE (writeLE (writeLE (writeLE (writeLE (writeLE (writeLE
      m 0 4 elfMagic) 4 1 2) 18 2 62) 32 8 64) 40 8 208) 54 2 56) 56 2 1) 58 6 0x300050040
    let segment := fun m => writeLE (writeLE m 64 4 1) 104 8 16
    let strings := fun m => writeLE (writeLE m 161 7 0x6D79736E79642E) 169 7 0x7274736E79642E
    let relocation := fun m => writeLE (writeLE m 184 8 offset) 192 8 10
    let sec := fun m i name type offset size => writeLE (writeLE (writeLE (writeLE m
      (208 + 64 * i) 4 name) (212 + 64 * i) 4 type) (232 + 64 * i) 8 offset) (240 + 64 * i) 8 size
    let secs := fun m => sec (sec (sec (sec m 1 1 11 128 24) 2 9 3 152 1) 3 0 3 160 17) 4 0 4 184 24
    header (segment (strings (relocation (secs fun _ => 0))))
  size := 528
  size_lt := by decide

/-- Eight bytes from the end of the image it is applied. -/
theorem rela_applied_iff_eight : elf64KnownRelas .amd64 (oneRela 8).bytes = [184] ∧
    ∀ (σ : Type) (env : Env σ) (w : σ), AppliesOrFails .amd64 env (oneRela 8) w := by
  have hspan : elf64Span .amd64 (oneRela 8) (elf64Header (oneRela 8).bytes) = some 16 := by
    decide +kernel
  have hknown : elf64KnownRelas .amd64 (oneRela 8).bytes = [184] := by decide +kernel
  refine ⟨hknown, (rela_applied_iff .amd64 (oneRela 8) fun span h => ?_).mpr fun span h => ?_⟩
  · rw [hspan] at h
    cases h
    rw [FieldsInSpan, hknown]
    decide +kernel
  · have h := h.size
    rw [hspan] at h
    cases h
    have htables : (elf64HasSections (oneRela 8) (elf64Header (oneRela 8).bytes) = true ∧
        (elf64Tables (oneRela 8)).symsec ≠ none ∧ (elf64Tables (oneRela 8)).strtab ≠ none) := by
      decide +kernel
    have hsections : ∀ i < (elf64Header (oneRela 8).bytes).shnum,
        (elf64Shdr (oneRela 8).bytes ((elf64Header (oneRela 8).bytes).sh i)).type = 4 → i = 4 := by
      decide +kernel
    intro _ i hi sh htype j hj r _
    obtain rfl := hsections i hi htype
    have hsize : (elf64Shdr (oneRela 8).bytes ((elf64Header (oneRela 8).bytes).sh 4)).size /
        sizeofElf64Rela = 1 := by decide +kernel
    have hone : j < 1 := hsize ▸ hj
    obtain rfl : j = 0 := by omega
    exact ⟨htables, by decide +kernel, by decide +kernel⟩

/-- Four bytes from the end, where the field still fits, it is not. -/
theorem rela_applied_not_last :
    (∀ span, elf64Span .amd64 (oneRela 12) (elf64Header (oneRela 12).bytes) = some span →
      FieldsInSpan .amd64 (oneRela 12) span) ∧
    ¬ ∀ (σ : Type) (env : Env σ) (w : σ), AppliesOrFails .amd64 env (oneRela 12) w := by
  have hspan : elf64Span .amd64 (oneRela 12) (elf64Header (oneRela 12).bytes) = some 16 := by
    decide +kernel
  have hknown : elf64KnownRelas .amd64 (oneRela 12).bytes = [184] := by decide +kernel
  have hfields : FieldsInSpan .amd64 (oneRela 12) 16 := by
    rw [FieldsInSpan, hknown]
    decide +kernel
  refine ⟨fun span h => ?_, fun h => ?_⟩
  · rw [hspan] at h
    cases h
    exact hfields
  · have haccepted : Elf64Accepted .amd64 (oneRela 12) 16 :=
      ⟨by decide +kernel, hspan, by unfold Elf64Phdr.Passes; decide +kernel⟩
    have hreached := reached_of_applies hfields haccepted (h Unit generousEnv ())
    have hlast := (hreached (by decide +kernel) 4 (by decide +kernel) (by decide +kernel) 0
      (by decide +kernel) (by decide +kernel)).2.2
    revert hlast
    decide +kernel

end DiscouNT.Loader
