import DiscouNT.Loader.PeImage

/-!
# Loader.PeBounds

Which PE images `PeLoadImage` loads without leaving its two buffers. The checks of the code bound
`e_lfanew`, `SizeOfImage` and the raw data of each section, with sums that wrap; the headers, the
section table and the header copy are not checked at all. `peLoadImage_confined_iff` states what a
file has to satisfy, stage by stage, so that no access leaves `image_data` or the image.
-/

namespace DiscouNT.Loader

open Lib

/-- The section header at `p` is in the file, and where its data is copied no sum of the checks has
wrapped. -/
def SectionFits (f : File) (imageSize p : Nat) : Prop :=
  let s := peSection f.bytes p
  if s.sizeOfRawData = 0 then p + 20 ≤ f.size
  else
    p + 24 ≤ f.size ∧
    (u32 (s.pointerToRawData + s.sizeOfRawData) ≤ f.size →
      u32 (s.virtualAddress + s.sizeOfRawData) ≤ imageSize →
      s.pointerToRawData + s.sizeOfRawData < 2 ^ 32 ∧
      s.virtualAddress + s.sizeOfRawData < 2 ^ 32)

structure PeTablesFit (f : File) (p : Nat) : Prop where
  optional : p + 88 ≤ f.size
  headers : f.size ≤ (peHeaders f.bytes p).sizeOfImage ∨
    (peHeaders f.bytes p).sizeOfHeaders ≤ (peHeaders f.bytes p).sizeOfImage
  sections : ∀ i < (peHeaders f.bytes p).numberOfSections,
    SectionFits f (peHeaders f.bytes p).sizeOfImage
      (p + sizeofFileHeader + (peHeaders f.bytes p).sizeOfOptionalHeader + sizeofSectionHeader * i)

/-- What the headers at `p` need, each stage only when the one before was passed. -/
def PeHeadersFit {σ : Type} (arch : Arch) (env : Env σ) (f : File) (w : σ) (p : Nat) : Prop :=
  let h := peHeaders f.bytes p
  p + 4 ≤ f.size ∧
  (h.signature = 0x4550 → p + 26 ≤ f.size ∧
    (h.magic = 0x10B → p + 84 ≤ f.size ∧
      (h.sizeOfImage ≠ 0 → h.sizeOfImage ≤ 0x1000000 →
        (env.kmalloc (sizeofRuntimeHeader arch + h.sizeOfImage) w).1 ≠ 0 → PeTablesFit f p)))

theorem peSection_lt (m : Mem) (p : Nat) :
    (peSection m p).virtualAddress < 2 ^ 32 ∧ (peSection m p).sizeOfRawData < 2 ^ 32 ∧
      (peSection m p).pointerToRawData < 2 ^ 32 :=
  ⟨readLE_lt m 4 _, readLE_lt m 4 _, readLE_lt m 4 _⟩

/-- A 32-bit sum that passes a check against a bound does so as a sum of naturals, unless it has
wrapped; and then the naturals exceed every bound. -/
theorem le_iff_of_u32_le {a b n : Nat} (hn : n < 2 ^ 32) (h : u32 (a + b) ≤ n) :
    a + b ≤ n ↔ a + b < 2 ^ 32 := by
  constructor
  · intro hle; omega
  · intro hlt; rwa [u32_of_lt hlt] at h

theorem peCopySections_confined {f : File} {imageSize : Nat} (hsize : imageSize < 2 ^ 32) :
    ∀ {n p : Nat} {mem : Mem},
      Confined f.size imageSize (peCopySections f imageSize n p mem).2 ↔
        ∀ i < n, SectionFits f imageSize (p + sizeofSectionHeader * i) := by
  intro n
  induction n with
  | zero => intro p mem; simp [peCopySections]
  | succ n ih =>
    intro p mem
    have hsplit : (∀ i < n + 1, SectionFits f imageSize (p + sizeofSectionHeader * i)) ↔
        SectionFits f imageSize p ∧
          ∀ i < n, SectionFits f imageSize (p + sizeofSectionHeader + sizeofSectionHeader * i) := by
      rw [Nat.forall_lt_succ_left, Nat.mul_zero, Nat.add_zero]
      refine and_congr_right fun _ => forall₂_congr fun i _ => ?_
      rw [Nat.mul_succ, Nat.add_assoc p, Nat.add_comm sizeofSectionHeader]
    obtain ⟨hva, hlen, hptr⟩ := peSection_lt f.bytes p
    rw [hsplit, peCopySections]
    by_cases hraw : 0 < (peSection f.bytes p).sizeOfRawData
    · rw [if_pos hraw]
      by_cases hcopy : u32 ((peSection f.bytes p).pointerToRawData +
          (peSection f.bytes p).sizeOfRawData) ≤ f.size ∧
          u32 ((peSection f.bytes p).virtualAddress + (peSection f.bytes p).sizeOfRawData) ≤ imageSize
      · rw [if_pos hcopy]
        have h1 := le_iff_of_u32_le f.size_lt hcopy.1
        have h2 := le_iff_of_u32_le hsize hcopy.2
        simp only [confined_append, confined_cons, confined_nil, inside_src hraw, inside_dst hraw,
          inside_src (show 0 < 4 by decide), ih, h1, h2, SectionFits,
          if_neg (Nat.pos_iff_ne_zero.mp hraw), hcopy, forall_const, and_true]
        constructor
        · rintro ⟨⟨-, -, h24⟩, hp, hd, hrest⟩; exact ⟨⟨by omega, hp, hd⟩, hrest⟩
        · rintro ⟨⟨h24, hp, hd⟩, hrest⟩; exact ⟨⟨by omega, by omega, by omega⟩, hp, hd, hrest⟩
      · rw [if_neg hcopy]
        simp only [confined_append, confined_cons, confined_nil,
          inside_src (show 0 < 4 by decide), ih, SectionFits,
          if_neg (Nat.pos_iff_ne_zero.mp hraw), and_true]
        constructor
        · rintro ⟨⟨-, -, h24⟩, hrest⟩
          exact ⟨⟨by omega, fun h1 h2 => absurd ⟨h1, h2⟩ hcopy⟩, hrest⟩
        · rintro ⟨⟨h24, -⟩, hrest⟩; exact ⟨⟨by omega, by omega, by omega⟩, hrest⟩
    · rw [if_neg hraw]
      have hzero : (peSection f.bytes p).sizeOfRawData = 0 := by omega
      simp only [confined_cons, inside_src (show 0 < 4 by decide), ih, SectionFits, if_pos hzero]

theorem peBuild_confined {σ : Type} {arch : Arch} {env : Env σ} {f : File} {p : Nat} {w : σ}
    (h84 : p + 84 ≤ f.size) (hsize : (peHeaders f.bytes p).sizeOfImage ≤ 0x1000000) :
    Confined f.size (peHeaders f.bytes p).sizeOfImage (peBuild arch env f p w).trace ↔
      ((env.kmalloc (sizeofRuntimeHeader arch + (peHeaders f.bytes p).sizeOfImage) w).1 ≠ 0 →
        PeTablesFit f p) := by
  have hhead : ∀ n k : Nat, (if n < k then n else k) ≤ n := by intro n k; split <;> omega
  unfold peBuild
  simp only
  split
  · rename_i hk
    simp [hk]
  · rename_i a w' hk
    have hlt : (peHeaders f.bytes p).sizeOfImage < 2 ^ 32 := by omega
    rw [hk]
    simp only [confined_cons, peCopySections_confined hlt, Access.Inside]
    constructor
    · rintro ⟨-, h88, -, hcopy, -, -, hsec⟩ -
      refine ⟨by omega, ?_, hsec⟩
      split at hcopy <;> omega
    · intro h
      obtain ⟨h88, hh, hsec⟩ := h (by omega)
      refine ⟨by omega, by omega, ?_, ?_, by omega, by omega, hsec⟩
      · exact .inr (by have := hhead f.size (peHeaders f.bytes p).sizeOfHeaders; omega)
      · split <;> omega

theorem peLoadPe_confined {σ : Type} {arch : Arch} {env : Env σ} {f : File} {w : σ}
    (h64 : 64 ≤ f.size) :
    Confined f.size (peHeaders f.bytes (eLfanew f.bytes)).sizeOfImage
        (peLoadPe arch env f w).trace ↔
      (eMagic f.bytes = 0x5A4D → u32 (eLfanew f.bytes + 4) ≤ f.size →
        PeHeadersFit arch env f w (eLfanew f.bytes)) := by
  have h4 : ∀ {p}, (Access.src p 4).Inside f.size
      (peHeaders f.bytes (eLfanew f.bytes)).sizeOfImage ↔ p + 4 ≤ f.size :=
    inside_src (by decide)
  have h2 : ∀ {p}, (Access.src p 2).Inside f.size
      (peHeaders f.bytes (eLfanew f.bytes)).sizeOfImage ↔ p + 2 ≤ f.size :=
    inside_src (by decide)
  unfold peLoadPe PeHeadersFit
  simp only
  split
  · rename_i hmz
    simp only [confined_cons, confined_nil, h2, inside_src (show 0 < 16 by decide), and_true]
    exact ⟨fun _ h => absurd h hmz, fun _ => ⟨by omega, by omega⟩⟩
  · rename_i hmz
    split
    · rename_i hoff
      simp only [confined_cons, confined_nil, h2, h4, and_true]
      exact ⟨fun _ _ h => by omega, fun _ => ⟨by omega, by omega⟩⟩
    · rename_i hoff
      have hmz' : eMagic f.bytes = 0x5A4D := by omega
      have hoff' : u32 (eLfanew f.bytes + 4) ≤ f.size := by omega
      simp only [hmz', hoff', forall_const]
      split
      · rename_i hsig
        simp only [confined_append, confined_cons, confined_nil, h2, h4, and_true]
        constructor
        · rintro ⟨-, h⟩; exact ⟨h, fun hs => absurd hs hsig⟩
        · rintro ⟨h, -⟩; exact ⟨⟨by omega, by omega⟩, h⟩
      · rename_i hsig
        have hsig' : (peHeaders f.bytes (eLfanew f.bytes)).signature = 0x4550 := by omega
        simp only [hsig', forall_const]
        split
        · rename_i hmagic
          simp only [confined_append, confined_cons, confined_nil, h2, h4, and_true]
          constructor
          · rintro ⟨-, h, -, h'⟩; exact ⟨h, by omega, fun hm => absurd hm hmagic⟩
          · rintro ⟨h, h', -⟩; exact ⟨⟨by omega, by omega⟩, h, by omega, by omega⟩
        · rename_i hmagic
          have hmagic' : (peHeaders f.bytes (eLfanew f.bytes)).magic = 0x10B := by omega
          simp only [hmagic', forall_const]
          split
          · rename_i hbad
            simp only [confined_append, confined_cons, confined_nil, h2, h4, and_true]
            constructor
            · rintro ⟨⟨-, h, -, -⟩, h'⟩
              exact ⟨h, by omega, by omega, fun h1 h2 => by omega⟩
            · rintro ⟨h, h', h'', -⟩
              exact ⟨⟨⟨by omega, by omega⟩, h, by omega, by omega⟩, by omega⟩
          · rename_i hgood
            have hpos : (peHeaders f.bytes (eLfanew f.bytes)).sizeOfImage ≠ 0 := by omega
            have hle : (peHeaders f.bytes (eLfanew f.bytes)).sizeOfImage ≤ 0x1000000 := by omega
            simp only [Result.after_trace, confined_append, confined_cons, confined_nil, h2, h4,
              and_true]
            constructor
            · rintro ⟨⟨⟨-, h, -, -⟩, h'⟩, hb⟩
              exact ⟨h, by omega, by omega, fun _ _ =>
                (peBuild_confined (by omega) hle).mp hb⟩
            · rintro ⟨h, h', h'', hb⟩
              exact ⟨⟨⟨⟨by omega, by omega⟩, h, by omega, by omega⟩, by omega⟩,
                (peBuild_confined (by omega) hle).mpr (hb hpos hle)⟩

/-- **Bounds of the PE loader.** A load that is not an ELF load stays inside the file and the image
if and only if it is turned away by the checks up to `e_lfanew` or the headers fit. -/
theorem peLoadImage_confined_iff {σ : Type} {arch : Arch} {env : Env σ} {f : File} {w : σ}
    (hpe : readLE f.bytes 0 4 ≠ elfMagic) :
    Confined f.size (peHeaders f.bytes (eLfanew f.bytes)).sizeOfImage
        (peLoadImage arch env f w).trace ↔
      (64 ≤ f.size → eMagic f.bytes = 0x5A4D → u32 (eLfanew f.bytes + 4) ≤ f.size →
        PeHeadersFit arch env f w (eLfanew f.bytes)) := by
  unfold peLoadImage
  by_cases h64 : f.size < 64
  · rw [if_pos h64]
    simp only [confined_nil, true_iff]
    intro h; omega
  · rw [if_neg h64, if_neg hpe]
    have h64' : 64 ≤ f.size := by omega
    simp only [Result.after_trace, confined_append, confined_cons, confined_nil,
      inside_src (show 0 < 4 by decide), peLoadPe_confined h64', h64', forall_const, and_true]
    exact ⟨fun h => h.2, fun h => ⟨by omega, h⟩⟩

def bareBones (sizeOfImage sizeOfHeaders : Nat) : File where
  bytes :=
    let m := writeLE (fun _ => 0) 0 2 0x5A4D
    let m := writeLE (writeLE m 60 4 64) 64 4 0x4550
    let m := writeLE (writeLE m 88 2 0x10B) 144 4 sizeOfImage
    writeLE m 148 4 sizeOfHeaders
  size := 512
  size_lt := by decide

theorem peLoadImage_confined_bareBones :
    readLE (bareBones 0x1000 0x200).bytes 0 4 ≠ elfMagic ∧
    Confined 512 0x1000 (peLoadImage .amd64 roomyEnv (bareBones 0x1000 0x200) 0x100000).trace := by
  have hpe : readLE (bareBones 0x1000 0x200).bytes 0 4 ≠ elfMagic := by decide +kernel
  have hfit : PeHeadersFit .amd64 roomyEnv (bareBones 0x1000 0x200) 0x100000 64 := by
    refine ⟨by decide +kernel, fun _ => ⟨by decide +kernel, fun _ => ⟨by decide +kernel, ?_⟩⟩⟩
    refine fun _ _ _ => ⟨by decide +kernel, .inl (by decide +kernel), fun i hi => ?_⟩
    exact absurd hi (by decide +revert +kernel)
  exact ⟨hpe, (peLoadImage_confined_iff hpe).mpr fun _ _ _ => hfit⟩

/-- `SizeOfHeaders` is not held against `SizeOfImage`: 512 bytes are copied into an image of 16. -/
theorem peLoadImage_overruns_image :
    ¬ Confined 512 16 (peLoadImage .amd64 roomyEnv (bareBones 16 0x200) 0x100000).trace := by
  decide +kernel

end DiscouNT.Loader
