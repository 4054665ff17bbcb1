import DiscouNT.Loader.Elf32

/-!
# Loader.PeImage

`PeLoadImage`: ELF images go to `PeLoadELF`, PE images are loaded here.
-/

namespace DiscouNT.Loader

open Lib

/-- The fields of `IMAGE_FILE_HEADER` and `IMAGE_OPTIONAL_HEADER32` that the load reads, for the
header at `p`. -/
structure PeHeaders where
  signature : Nat
  numberOfSections : Nat
  sizeOfOptionalHeader : Nat
  magic : Nat
  sizeOfImage : Nat
  sizeOfHeaders : Nat

def peHeaders (m : Mem) (p : Nat) : PeHeaders :=
  { signature := readLE m p 4, numberOfSections := readLE m (p + 6) 2,
    sizeOfOptionalHeader := readLE m (p + 20) 2, magic := readLE m (p + 24) 2,
    sizeOfImage := readLE m (p + 80) 4, sizeOfHeaders := readLE m (p + 84) 4 }

structure PeSection where
  virtualAddress : Nat
  sizeOfRawData : Nat
  pointerToRawData : Nat

def peSection (m : Mem) (p : Nat) : PeSection :=
  { virtualAddress := readLE m (p + 12) 4, sizeOfRawData := readLE m (p + 16) 4,
    pointerToRawData := readLE m (p + 20) 4 }

def sizeofFileHeader : Nat := 24
def sizeofSectionHeader : Nat := 40

def eMagic (m : Mem) : Nat := readLE m 0 2
def eLfanew (m : Mem) : Nat := readLE m 60 4

def peCopySections (f : File) (imageSize : Nat) : Nat → Nat → Mem → Mem × List Access
  | 0, _, mem => (mem, [])
  | n + 1, p, mem =>
    let s := peSection f.bytes p
    if 0 < s.sizeOfRawData then
      let reads : List Access := [.src (p + 16) 4, .src (p + 12) 4, .src (p + 20) 4]
      if u32 (s.pointerToRawData + s.sizeOfRawData) ≤ f.size ∧
          u32 (s.virtualAddress + s.sizeOfRawData) ≤ imageSize then
        let rest := peCopySections f imageSize n (p + sizeofSectionHeader)
          (blit mem s.virtualAddress f.bytes s.pointerToRawData s.sizeOfRawData)
        (rest.1, reads ++ .src s.pointerToRawData s.sizeOfRawData ::
          .dst s.virtualAddress s.sizeOfRawData :: rest.2)
      else
        let rest := peCopySections f imageSize n (p + sizeofSectionHeader) mem
        (rest.1, reads ++ rest.2)
    else
      let rest := peCopySections f imageSize n (p + sizeofSectionHeader) mem
      (rest.1, .src (p + 16) 4 :: rest.2)

def peBuild {σ : Type} (arch : Arch) (env : Env σ) (f : File) (p : Nat) (w : σ) : Result σ :=
  let h := peHeaders f.bytes p
  match env.kmalloc (sizeofRuntimeHeader arch + h.sizeOfImage) w with
  | (0, w) => ⟨none, [], w⟩
  | (a + 1, w) =>
    let imageBase := a + 1 + sizeofRuntimeHeader arch
    let headersSize := if f.size < h.sizeOfHeaders then f.size else h.sizeOfHeaders
    let copied := peCopySections f h.sizeOfImage h.numberOfSections
      (p + sizeofFileHeader + h.sizeOfOptionalHeader) (blit (fun _ => 0) 0 f.bytes 0 headersSize)
    let image : Image :=
      { imageBase, allocationBase := a + 1, imageSize := h.sizeOfImage, isElf := false,
        elfClass := 0, elfBaseVaddr := 0, sourceImage := 0, source := f, mem := copied.1 }
    ⟨some image,
      .dst 0 h.sizeOfImage :: .src (p + 84) 4 :: .src 0 headersSize :: .dst 0 headersSize ::
        .src (p + 20) 2 :: .src (p + 6) 2 :: copied.2, w⟩

/-- The PE half of `PeLoadImage`. -/
def peLoadPe {σ : Type} (arch : Arch) (env : Env σ) (f : File) (w : σ) : Result σ :=
  if eMagic f.bytes ≠ 0x5A4D then ⟨none, [.src 0 2, .src 0 16], w⟩
  else
    let p := eLfanew f.bytes
    let dos : List Access := [.src 0 2, .src 60 4]
    if f.size < u32 (p + 4) then ⟨none, dos, w⟩
    else
      let h := peHeaders f.bytes p
      if h.signature ≠ 0x4550 then ⟨none, dos ++ [.src p 4], w⟩
      else
        let reads := dos ++ [.src p 4, .src (p + 4) 2, .src (p + 24) 2]
        if h.magic ≠ 0x10B then ⟨none, reads, w⟩
        else if h.sizeOfImage = 0 ∨ 0x1000000 < h.sizeOfImage then
          ⟨none, reads ++ [.src (p + 80) 4], w⟩
        else (peBuild arch env f p w).after (reads ++ [.src (p + 80) 4])

def peLoadImage {σ : Type} (arch : Arch) (env : Env σ) (f : File) (w : σ) : Result σ :=
  if f.size < 64 then ⟨none, [], w⟩
  else if readLE f.bytes 0 4 = elfMagic then (peLoadElf arch env f w).after [.src 0 4]
  else (peLoadPe arch env f w).after [.src 0 4]

end DiscouNT.Loader
