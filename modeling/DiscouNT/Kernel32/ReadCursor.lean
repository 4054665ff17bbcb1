import DiscouNT.Arch
import DiscouNT.Cdfs.Resolve
import DiscouNT.Kernel32.CreateFile
import DiscouNT.Lib.History

/-!
# Kernel32.ReadCursor

`ReadFile`, `_lread` and `_llseek` on an open file. A seek adds in `uint32_t` and clamps at the end
of the file only, so a sum below zero lands there too.
-/

namespace DiscouNT.Kernel32

/-- The count a read reports and the bytes it stores. -/
structure Delivered where
  amount : Nat
  bytes : List UInt8
deriving DecidableEq, Repr

def readFile (fh : K32FileHandle) (numberOfBytesToRead : UInt32) : Delivered × K32FileHandle :=
  if fh.size ≤ fh.pos then (⟨0, []⟩, fh)
  else
    let remaining := sub32 fh.size fh.pos
    let amount := if numberOfBytesToRead.toNat < remaining then numberOfBytesToRead.toNat
      else remaining
    (⟨amount, (fh.data.drop fh.pos).take amount⟩, { fh with pos := u32 (fh.pos + amount) })

def lread (fh : K32FileHandle) (bytes : UInt32) : Delivered × K32FileHandle := readFile fh bytes

/-- The result is the new position. -/
def llseek (fh : K32FileHandle) (offset origin : Int32) : K32FileHandle :=
  let position :=
    if origin = 0 then offset.toUInt32.toNat
    else if origin = 1 then u32 (fh.pos + offset.toUInt32.toNat)
    else u32 (fh.size + offset.toUInt32.toNat)
  let position := if position > fh.size then fh.size else position
  { fh with pos := position }

inductive FileCall where
  | readFile (numberOfBytesToRead : UInt32)
  | lread (bytes : UInt32)
  | llseek (offset origin : Int32)
deriving DecidableEq, Repr

def call (fh : K32FileHandle) : FileCall → K32FileHandle
  | .readFile n => (readFile fh n).2
  | .lread n => (lread fh n).2
  | .llseek offset origin => llseek fh offset origin

structure Cursor (fh : K32FileHandle) : Prop where
  data : fh.data.length = fh.size
  size : fh.size < 2 ^ 32
  pos : fh.pos ≤ fh.size

def base (fh : K32FileHandle) (origin : Int32) : Int :=
  if origin = 0 then 0 else if origin = 1 then fh.pos else fh.size

def ReadLaw (fh : K32FileHandle) (n : UInt32) (r : Delivered × K32FileHandle) : Prop :=
  r.1.amount = min n.toNat (fh.size - fh.pos) ∧ r.1.bytes = (fh.data.drop fh.pos).take r.1.amount ∧
    r.1.bytes.length = r.1.amount ∧ r.2 = { fh with pos := fh.pos + r.1.amount }

def CallLaw (fh : K32FileHandle) (c : FileCall) : Prop :=
  (call fh c).pos ≤ (call fh c).size ∧
    match c with
    | .readFile n => ReadLaw fh n (readFile fh n)
    | .lread n => ReadLaw fh n (lread fh n)
    | .llseek offset origin =>
      ((llseek fh offset origin).pos : Int) = max 0 (min (fh.size : Int) (base fh origin + offset.toInt))

/-- A seek whose target is a 32-bit number, or in an empty file. -/
def Meets (fh : K32FileHandle) : FileCall → Prop
  | .readFile _ | .lread _ => True
  | .llseek offset origin =>
    (0 ≤ base fh origin + offset.toInt ∧ base fh origin + offset.toInt < 2 ^ 32) ∨ fh.size = 0

variable {fh : K32FileHandle}

theorem readFile_law (h : Cursor fh) (n : UInt32) : ReadLaw fh n (readFile fh n) := by
  obtain ⟨hdata, hsize, hpos⟩ := h
  rw [readFile]
  by_cases hend : fh.size ≤ fh.pos
  · rw [if_pos hend]
    exact ⟨by simp only; omega, rfl, rfl, rfl⟩
  · rw [if_neg hend, sub32_of_le hsize hpos]
    have hamount : (if n.toNat < fh.size - fh.pos then n.toNat else fh.size - fh.pos) =
        min n.toNat (fh.size - fh.pos) := by
      by_cases hn : n.toNat < fh.size - fh.pos
      · rw [if_pos hn]; omega
      · rw [if_neg hn]; omega
    simp only [hamount]
    refine ⟨rfl, rfl, List.length_take_of_le ?_, ?_⟩
    · rw [List.length_drop, hdata]
      exact Nat.min_le_right _ _
    · rw [u32_of_lt (by omega)]

theorem ReadLaw.cursor (h : Cursor fh) {n : UInt32} {r : Delivered × K32FileHandle}
    (hr : ReadLaw fh n r) : Cursor r.2 := by
  obtain ⟨hamount, -, -, heq⟩ := hr
  rw [heq]
  refine ⟨h.data, h.size, ?_⟩
  have hpos := h.pos
  simp only
  omega

theorem toNat_toUInt32 (offset : Int32) : (offset.toUInt32.toNat : Int) = offset.toInt % 2 ^ 32 := by
  have hcond : offset.toInt = if 2 * offset.toUInt32.toNat < 2 ^ 32 then (offset.toUInt32.toNat : Int)
      else offset.toUInt32.toNat - 2 ^ 32 := BitVec.toInt_eq_toNat_cond offset.toBitVec
  have hlt := offset.toUInt32.toNat_lt
  rw [hcond]
  by_cases hsign : 2 * offset.toUInt32.toNat < 2 ^ 32
  · rw [if_pos hsign]; omega
  · rw [if_neg hsign]; omega

theorem llseek_pos (fh : K32FileHandle) (offset origin : Int32) :
    ((llseek fh offset origin).pos : Int) =
      min (fh.size : Int) ((base fh origin + offset.toInt) % 2 ^ 32) := by
  have hoffset := toNat_toUInt32 offset
  have hclamp : ∀ p : Nat, (((if p > fh.size then fh.size else p) : Nat) : Int) = min ↑fh.size ↑p := by
    intro p
    by_cases hp : p > fh.size
    · rw [if_pos hp]; omega
    · rw [if_neg hp]; omega
  rw [llseek, hclamp, base]
  congr 1
  by_cases h0 : origin = 0
  · rw [if_pos h0, if_pos h0, hoffset, Int.zero_add]
  · by_cases h1 : origin = 1
    · rw [if_neg h0, if_pos h1, if_neg h0, if_pos h1, u32]
      omega
    · rw [if_neg h0, if_neg h1, if_neg h0, if_neg h1, u32]
      omega

theorem llseek_cursor (h : Cursor fh) (offset origin : Int32) :
    Cursor (llseek fh offset origin) := by
  refine ⟨h.data, h.size, ?_⟩
  have hpos := llseek_pos fh offset origin
  have hsame : (llseek fh offset origin).size = fh.size := rfl
  omega

theorem llseek_law_iff (h : Cursor fh) (offset origin : Int32) :
    ((llseek fh offset origin).pos : Int) = max 0 (min (fh.size : Int) (base fh origin + offset.toInt)) ↔
      Meets fh (.llseek offset origin) := by
  rw [llseek_pos, Meets]
  have hsize := h.size
  have hbase : 0 ≤ base fh origin ∧ base fh origin ≤ fh.size := by
    have hpos := h.pos
    rw [base]
    by_cases h0 : origin = 0
    · rw [if_pos h0]; omega
    · by_cases h1 : origin = 1
      · rw [if_neg h0, if_pos h1]; omega
      · rw [if_neg h0, if_neg h1]; omega
  have hlo := offset.le_toInt
  have hhi := offset.toInt_lt
  generalize base fh origin = b at *
  generalize offset.toInt = o at *
  omega

theorem callLaw_iff (h : Cursor fh) (c : FileCall) :
    (CallLaw fh c ↔ Meets fh c) ∧ Cursor (call fh c) := by
  cases c with
  | readFile n =>
    have hnext := (readFile_law h n).cursor h
    exact ⟨iff_of_true ⟨hnext.pos, readFile_law h n⟩ trivial, hnext⟩
  | lread n =>
    have hnext := (readFile_law h n).cursor h
    exact ⟨iff_of_true ⟨hnext.pos, readFile_law h n⟩ trivial, hnext⟩
  | llseek offset origin =>
    have hnext := llseek_cursor h offset origin
    exact ⟨(and_iff_right hnext.pos).trans (llseek_law_iff h offset origin), hnext⟩

theorem cursor_law_iff (h : Cursor fh) (calls : List FileCall) :
    (∀ pre c post, calls = pre ++ c :: post → CallLaw (pre.foldl call fh) c) ↔
      ∀ pre c post, calls = pre ++ c :: post → Meets (pre.foldl call fh) c :=
  Lib.steps_iff_good h (fun _ c hfh => (callLaw_iff hfh c).1) (fun _ c hfh _ => (callLaw_iff hfh c).2)
    calls

theorem cursor_law_iff_short :
    (∀ pre c post, [.lread 1, .llseek 5 1] = pre ++ c :: post →
        CallLaw (pre.foldl call ⟨[65], 1, 0, genericRead⟩) c) ↔
      ∀ pre c post, [.lread 1, .llseek 5 1] = pre ++ c :: post →
        Meets (pre.foldl call ⟨[65], 1, 0, genericRead⟩) c :=
  cursor_law_iff ⟨rfl, by decide, Nat.zero_le 1⟩ [.lread 1, .llseek 5 1]

/-- A seek to one before the start of a file of one byte goes to its end. -/
theorem cursor_law_before_start :
    ¬ CallLaw ⟨[65], 1, 0, genericRead⟩ (.llseek (-1) 0) := by
  rintro ⟨-, hseek⟩
  exact absurd hseek (by decide)

/-! ## Files of a disc -/

open Lib Rtl Cdfs

/-- `ReadFile` for one size after the other: the bytes delivered, and the file after that. -/
def readPieces (fh : K32FileHandle) : List UInt32 → List UInt8 × K32FileHandle
  | [] => ([], fh)
  | n :: sizes =>
    let r := readFile fh n
    let rest := readPieces r.2 sizes
    (r.1.bytes ++ rest.1, rest.2)

theorem readPieces_bytes {fh : K32FileHandle} (h : Cursor fh) (sizes : List UInt32) :
    (readPieces fh sizes).1 = (fh.data.drop fh.pos).take (sizes.map UInt32.toNat).sum := by
  induction sizes generalizing fh with
  | nil => rfl
  | cons n sizes ih =>
    have hlaw := readFile_law h n
    have hrest := ih (hlaw.cursor h)
    obtain ⟨hamount, hbytes, -, hnext⟩ := hlaw
    have htake : (fh.data.drop fh.pos).take (readFile fh n).1.amount =
        (fh.data.drop fh.pos).take n.toNat := by
      rw [hamount, List.take_eq_take_iff, List.length_drop, h.data]
      omega
    have hdrop : fh.data.drop (fh.pos + (readFile fh n).1.amount) =
        (fh.data.drop fh.pos).drop n.toNat := by
      rw [List.drop_drop, hamount]
      by_cases hn : n.toNat ≤ fh.size - fh.pos
      · rw [Nat.min_eq_left hn]
      · have hpos := h.pos
        have hdata := h.data
        rw [List.drop_eq_nil_of_le (by omega), List.drop_eq_nil_of_le (by omega)]
    rw [readPieces, hrest, hnext, hbytes, htake, hdrop, List.map_cons, List.sum_cons, List.take_add]

theorem run_cursor {fh : K32FileHandle} (h : Cursor fh) (calls : List FileCall) :
    Cursor (calls.foldl call fh) ∧ (calls.foldl call fh).data = fh.data := by
  induction calls generalizing fh with
  | nil => exact ⟨h, rfl⟩
  | cons c calls ih =>
    obtain ⟨hcursor, hdata⟩ := ih (callLaw_iff h c).2
    refine ⟨hcursor, hdata.trans ?_⟩
    cases c with
    | readFile n => rw [call, (readFile_law h n).2.2.2]
    | lread n => rw [call, lread, (readFile_law h n).2.2.2]
    | llseek offset origin => rfl

theorem openPath_handle {cdfsReadFile : List UInt8 → Option (List UInt8)} {granted : Bool}
    {path : List UInt8} {access : UInt32} {fh : K32FileHandle}
    (h : openPath cdfsReadFile granted path access = .handle fh) :
    cdfsReadFile path = some fh.data ∧ fh.size = fh.data.length ∧ fh.pos = 0 := by
  rw [openPath] at h
  split at h
  · cases h
  cases hdata : cdfsReadFile path with
  | none => simp only [hdata, reduceCtorEq] at h
  | some data =>
    simp only [hdata] at h
    split at h
    · cases h
      exact ⟨rfl, rfl, rfl⟩
    · cases h

section Disc

variable {D F : Type} {iso : IsoVolume D F} {m : Medium} {alloc : Allocator} {stack : Mem}
  {host : Host}

/-- The driver's answer to `CreateFileW`, in this state of it. -/
def onDisc (m : Medium) (alloc : Allocator) (stack : Mem) (host : Host) (path : List UInt8) :
    Option (List UInt8) :=
  (cdfsReadFile m alloc stack path host).result.join.map FileBuffer.bytes

/-- The bytes of an entry. -/
def content (iso : IsoVolume D F) (m : Medium) (x : Node D F) : List UInt8 :=
  (List.range (iso.extent x).2).map (m.extent (iso.extent x).1)

/-- The entry can be rounded up to sectors in 32 bits, and its sectors have 32-bit numbers. -/
def Placed (iso : IsoVolume D F) (x : Node D F) : Prop :=
  (iso.extent x).2 + 2047 < 2 ^ 32 ∧ (iso.extent x).1 + sectorCount (iso.extent x).2 ≤ 2 ^ 32

theorem mem_copyBehind {c : UInt8} {path tmp : List UInt8} (h : c ∈ copyBehind path tmp) :
    c ∈ tmp ∨ c ∈ path := by
  induction path generalizing tmp with
  | nil => exact .inl h
  | cons d path ih =>
    rw [copyBehind] at h
    split at h
    · have hmem := ih h
      rw [List.mem_append, List.mem_singleton] at hmem
      rw [List.mem_cons]
      exact or_assoc.mp hmem
    · exact .inl h

theorem ansiChar_ne_zero (ch : UInt16) : ansiChar ch ≠ 0 := by
  rw [ansiChar]
  generalize (if ch = 92 then 47 else ch) = ch
  by_cases hrange : ch ≥ 1 ∧ ch ≤ 127
  · rw [if_pos hrange]
    have hge : 1 ≤ ch.toNat := UInt16.le_iff_toNat_le.mp hrange.1
    have hle : ch.toNat ≤ 127 := UInt16.le_iff_toNat_le.mp hrange.2
    intro hzero
    have hnat := congrArg UInt8.toNat hzero
    rw [UInt16.toNat_toUInt8, Nat.mod_eq_of_lt (by omega)] at hnat
    exact absurd hnat (Nat.ne_of_gt hge)
  · rw [if_neg hrange]
    decide

theorem zero_notMem_lookupPath (name : List UInt16) : 0 ∉ lookupPath (k32WideToAnsiPath name 260) := by
  have hansi : 0 ∉ k32WideToAnsiPath name 260 := by
    rw [k32WideToAnsiPath, List.mem_map]
    rintro ⟨ch, _, hch⟩
    exact ansiChar_ne_zero ch hch
  rw [lookupPath]
  split
  · intro h
    rcases mem_copyBehind (List.mem_of_mem_take (List.mem_of_mem_take h)) with h | h
    · exact absurd (List.mem_singleton.mp h) (by decide)
    · exact hansi h
  · exact hansi

theorem onDisc_resolves {path data : List UInt8} (hstored : iso.Stored m) (hreadable : iso.Readable m)
    (hsearch : iso.Searchable alloc) (hplaced : ∀ x, Placed iso x) (hv : host.volume.Active m)
    (htext : 0 ∉ path) (hdata : onDisc m alloc stack host path = some data) :
    ∃ normalized x, rtlNormalizePath path 256 = some (some normalized) ∧
      iso.Resolves iso.catalog.root (pathComponents normalized) x ∧ data = content iso m x := by
  rw [onDisc, Option.map_eq_some_iff] at hdata
  obtain ⟨r, hjoin, rfl⟩ := hdata
  rw [Option.join_eq_some_iff] at hjoin
  by_cases hstart : host.volume.cdromReady = true ∧ (sectorRead m 16 host.volume).1 = true ∧
      ∃ normalized, rtlNormalizePath path 256 = some (some normalized)
  swap
  · rw [cdfsReadFile_of_missing (cdfsFindFile_stop alloc stack hstart).1] at hjoin
    cases hjoin
  obtain ⟨hready, hread, normalized, hpath⟩ := hstart
  have hcoherent := hv.reached.coherent
  have hroot : (rootStage m normalized host).At m iso iso.catalog.root := {
    lba := hstored.root_lba
    size := hstored.root_size
    active := hv.sectorRead (by decide)
    short := rtlNormalizePath_length hpath
    text := fun hz => rtlNormalizePath_forall (P := (· ≠ 0)) (by decide) (by decide)
      (fun ch hch hz => htext (hz ▸ hch)) hpath 0 hz rfl }
  have htold : Told m alloc (rootStage m normalized host) (cdfsFindFile m alloc stack path host) := by
    rw [cdfsFindFile_root alloc stack hcoherent hready hread hpath]
    exact Stage.find_told (Nat.lt_succ_self _) (cdfsReadSector_coherent hcoherent)
  have hleads := htold.leads fun s hwalks => hwalks.recordsFit hstored hreadable hsearch hroot
  rcases hres : (cdfsFindFile m alloc stack path host).result with _ | _ | ⟨lba, size⟩
  · exact absurd hres cdfsFindFile_ends
  · rw [cdfsReadFile_of_missing hres] at hjoin
    cases hjoin
  have hled := (hleads lba size _).mp ⟨hres, rfl⟩
  have hlt := Leads.lt hled
  obtain ⟨s, component, found, hwalks, hlooks, hentry, rfl, rfl, -⟩ := hled
  obtain ⟨x, hresolves, rfl⟩ := hwalks.resolves hstored hsearch hlooks hentry hroot
  rw [cdfsReadFile_of_found hres] at hjoin
  have hfits := hplaced x
  rw [Placed, ← IsoVolume.found_extent] at hfits
  obtain ⟨-, hbytes⟩ := (readFound_holds_iff hlt.1 hlt.2).mpr (fun _ _ => hfits) r hjoin
  refine ⟨normalized, x, hpath, hresolves, ?_⟩
  rw [FileBuffer.bytes, content, (readFound_cases hjoin).2.1, ← IsoVolume.found_extent]
  refine List.map_congr_left fun i hi => ?_
  have hbyte := hbytes i (List.mem_range.mp hi)
  rw [extentByte] at hbyte
  split at hbyte
  · exact (Option.some.inj hbyte).symm
  · cases hbyte

end Disc

end DiscouNT.Kernel32
