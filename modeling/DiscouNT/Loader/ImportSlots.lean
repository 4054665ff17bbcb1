import DiscouNT.Loader.DllFrame

/-!
# Loader.ImportSlots

What a successful `PeResolveImports` says about the import address tables. An import by ordinal is
neither looked up nor counted as missing, and an address is stored in 32 bits.
-/

namespace DiscouNT.Loader

open Lib

namespace Visit

def ref (v : Visit) (h : Nat) : ProcRef :=
  if isOrdinal v.word then .ordinal (v.word &&& 0xFFFF) else .name (hintName (v.before.mem h) v.word)

/-- What `PeGetProcAddress` returns for it, with 0 where the DLL is missing. -/
def address (m : Machine) (h : Nat) (v : Visit) : Nat :=
  match v.dll with
  | some d => (getProcAddress m d (v.ref h) v.before).1
  | none => 0

def Overwritten (m : Machine) (h : Nat) (v : Visit) : Prop :=
  v.address m h ≠ 0 ∧ v.stored = some (v.address m h) ∧
    readLE (v.after.mem h) v.slot 4 = v.address m h

def Missing (m : Machine) (h : Nat) (v : Visit) : Prop :=
  isOrdinal v.word = false ∧ v.address m h = 0

instance (m : Machine) (h : Nat) (v : Visit) : Decidable (v.Overwritten m h) :=
  inferInstanceAs (Decidable (_ ∧ _))

structure Handled (m : Machine) (h : Nat) (v : Visit) : Prop where
  ordinal : isOrdinal v.word = true → v.stored = none
  named : isOrdinal v.word = false → v.address m h ≠ 0 →
    v.stored = some (u32 (v.address m h)) ∧ readLE (v.after.mem h) v.slot 4 = u32 (v.address m h)

end Visit

section Slots

variable {m : Machine} {load : DllLoader} {h : Nat}

theorem mem_setMem {w : World} {mem : Mem} (hl : (w.image h).isSome) :
    (w.setMem h mem).mem h = mem := by
  obtain ⟨im, him⟩ := Option.isSome_iff_exists.mp hl
  unfold World.mem
  rw [image_setMem, if_pos rfl, him]
  rfl

theorem importSlot_handled (name word slot : Nat) (dll : Option Nat) {w : World}
    (hl : (w.image h).isSome) :
    let r := importSlot m h name dll word slot w
    let v : Visit := ⟨slot, word, dll, r.2.1, w, r.2.2⟩
    v.Handled m h ∧ (r.1 = true ↔ v.Missing m h) := by
  dsimp only
  by_cases hord : isOrdinal word = true
  · have hslot : importSlot m h name dll word slot w = (false, none, w) := if_pos hord
    rw [hslot]
    exact ⟨⟨fun _ => rfl, fun hn => by simp [hord] at hn⟩, by simp [Visit.Missing, hord]⟩
  · have hname : isOrdinal word = false := by simpa using hord
    cases dll with
    | none =>
      have haddr : ∀ s w', Visit.address m h ⟨slot, word, none, s, w, w'⟩ = 0 := fun _ _ => rfl
      refine ⟨⟨fun ho => by simp [hname] at ho, fun _ hne => absurd (haddr _ _) hne⟩, ?_⟩
      simp [importSlot, hname, Visit.Missing, haddr]
    | some d =>
      have haddr : ∀ s w', Visit.address m h ⟨slot, word, some d, s, w, w'⟩ =
          (getProcAddress m d (.name (hintName (w.mem h) word)) w).1 := by
        intro s w'
        simp [Visit.address, Visit.ref, hname]
      have hquiet : Quiet 0 w (getProcAddress m d (.name (hintName (w.mem h) word)) w).2 :=
        quiet_getProcAddress
      simp only [importSlot, hname, Bool.false_eq_true, if_false]
      rcases hproc : getProcAddress m d (.name (hintName (w.mem h) word)) w with ⟨addr, w'⟩
      rw [hproc] at hquiet
      simp only [hproc] at haddr
      cases addr with
      | zero =>
        exact ⟨⟨fun ho => by simp [hname] at ho, fun _ hne => absurd (haddr _ _) hne⟩,
          by simp [Visit.Missing, hname, haddr]⟩
      | succ addr =>
        have hl' : (w'.image h).isSome := by
          rw [hquiet.live]
          exact hl
        refine ⟨⟨fun ho => by simp [hname] at ho, fun _ _ => ?_⟩, ?_⟩
        · rw [haddr]
          refine ⟨rfl, ?_⟩
          show readLE ((w'.store h slot (u32 (addr + 1))).mem h) slot 4 = u32 (addr + 1)
          rw [World.store, mem_setMem hl', readLE_writeLE_same]
          exact Nat.mod_eq_of_lt (u32_lt _)
        · simp [Visit.Missing, hname, haddr]

structure Walked (m : Machine) (h : Nat) (r : Imports) : Prop where
  handled : ∀ v ∈ r.visits, v.Handled m h
  missing : r.missing = 0 ↔ ∀ v ∈ r.visits, ¬ v.Missing m h

theorem importLookups_walked {name : Nat} {dll : Option Nat} :
    ∀ (n lookup iat : Nat) {w : World}, (w.image h).isSome →
      Walked m h (importLookups m h name dll n lookup iat w) := by
  intro n
  induction n with
  | zero => intro lookup iat w _; exact ⟨by simp [importLookups], by simp [importLookups]⟩
  | succ n ih =>
    intro lookup iat w hl
    unfold importLookups
    dsimp only
    split
    · exact ⟨by simp, by simp⟩
    · obtain ⟨hslot, hmiss⟩ := importSlot_handled (m := m) name (readLE (w.mem h) lookup 4) iat dll
        hl
      have hl' : ((importSlot m h name dll (readLE (w.mem h) lookup 4) iat w).2.2.image h).isSome := by
        rw [(quiet_importSlot (b := 0) (Nat.zero_le h)).live]
        exact hl
      have hrest := ih (lookup + 4) (iat + 4) hl'
      refine ⟨?_, ?_⟩
      · intro v hv
        rcases List.mem_cons.mp hv with hv | hv
        · rw [hv]
          exact hslot
        · exact hrest.handled v hv
      · rw [Nat.add_eq_zero_iff, hrest.missing, List.forall_mem_cons, ← hmiss]
        simp

theorem Walked.append {a b : Imports} (ha : Walked m h a) (hb : Walked m h b) :
    Walked m h ⟨a.missing + b.missing, a.visits ++ b.visits, b.world⟩ := by
  refine ⟨?_, ?_⟩
  · intro v hv
    rcases List.mem_append.mp hv with hv | hv
    · exact ha.handled v hv
    · exact hb.handled v hv
  · rw [Nat.add_eq_zero_iff, ha.missing, hb.missing]
    simp only [List.mem_append, or_imp, forall_and]

theorem importDescriptors_walked (hload : ∀ name (w : World), (w.image h).isSome →
    ((load name w).2.image h).isSome) {steps : Nat} :
    ∀ (n p : Nat) {w : World}, (w.image h).isSome →
      Walked m h (importDescriptors m load steps h n p w) := by
  intro n
  induction n with
  | zero => intro p w _; exact ⟨by simp [importDescriptors], by simp [importDescriptors]⟩
  | succ n ih =>
    intro p w hl
    have hl1 := hload (cstring (w.mem h) (readLE (w.mem h) (p + 12) 4)) w hl
    unfold importDescriptors
    dsimp only
    split
    · exact ⟨by simp, by simp⟩
    · generalize load (cstring (w.mem h) (readLE (w.mem h) (p + 12) 4)) w = r at hl1 ⊢
      refine (importLookups_walked _ _ _ hl1).append (ih _ ?_)
      rw [(quiet_importLookups (b := 0) (Nat.zero_le h) _ _ _ _).live]
      exact hl1

theorem peResolveImports_walked (n steps : Nat) {w : World} (hl : (w.image h).isSome) :
    let r := peResolveImports m (peLoadDll m n) steps h w
    (∀ v ∈ r.visits, v.Handled m h) ∧ (r.ok = true ↔ ∀ v ∈ r.visits, ¬ v.Missing m h) := by
  unfold peResolveImports
  dsimp only
  split
  · simp
  · split
    · simp
    · split
      · simp
      · have hwalk : Walked m h (importDescriptors m (peLoadDll m n) steps h steps
            (dataDir (w.mem h) 2) w.peClearLastError) :=
          importDescriptors_walked (fun name w hw => (peLoadDll_kept m n name w).live h hw) steps _ hl
        exact ⟨hwalk.handled, by rw [beq_iff_eq]; exact hwalk.missing⟩

end Slots

/-- A success means that every slot was overwritten with the address of its import, and an import
that cannot be resolved means a failure. -/
def ImportsSound (m : Machine) (h : Nat) (r : Resolved) : Prop :=
  (r.ok = true → ∀ v ∈ r.visits, v.Overwritten m h) ∧
    ((∃ v ∈ r.visits, v.address m h = 0) → r.ok = false)

instance (m : Machine) (h : Nat) (r : Resolved) : Decidable (ImportsSound m h r) :=
  inferInstanceAs (Decidable (_ ∧ _))

/-- **Soundness of the import walk**, for every image and every state of the loader. -/
theorem peResolveImports_sound_iff {m : Machine} {n steps h : Nat} {w : World}
    (hl : (w.image h).isSome) :
    ImportsSound m h (peResolveImports m (peLoadDll m n) steps h w) ↔
      (∃ v ∈ (peResolveImports m (peLoadDll m n) steps h w).visits, v.Missing m h) ∨
      (∀ v ∈ (peResolveImports m (peLoadDll m n) steps h w).visits,
        isOrdinal v.word = false ∧ v.address m h < 2 ^ 32) := by
  obtain ⟨hhandled, hok⟩ := peResolveImports_walked (m := m) n steps hl
  generalize peResolveImports m (peLoadDll m n) steps h w = r at hhandled hok ⊢
  constructor
  · rintro ⟨hall, -⟩
    by_cases hmiss : ∃ v ∈ r.visits, v.Missing m h
    · exact Or.inl hmiss
    · refine Or.inr fun v hv => ?_
      obtain ⟨hne, hstored, -⟩ := hall (hok.mpr fun v hv hm => hmiss ⟨v, hv, hm⟩) v hv
      have hname : isOrdinal v.word = false := by
        cases hord : isOrdinal v.word with
        | false => rfl
        | true =>
          rw [(hhandled v hv).ordinal hord] at hstored
          cases hstored
      refine ⟨hname, ?_⟩
      rw [((hhandled v hv).named hname hne).1] at hstored
      rw [← Option.some.inj hstored]
      exact u32_lt _
  · rintro (⟨v, hv, hm⟩ | hall)
    · have hfail : r.ok = false := by
        cases hr : r.ok with
        | false => rfl
        | true => exact absurd hm (hok.mp hr v hv)
      exact ⟨fun hr => by simp [hfail] at hr, fun _ => hfail⟩
    · refine ⟨fun hr v hv => ?_, fun ⟨v, hv, hzero⟩ => ?_⟩
      · obtain ⟨hname, hlow⟩ := hall v hv
        have hne : v.address m h ≠ 0 := fun hzero => hok.mp hr v hv ⟨hname, hzero⟩
        obtain ⟨hstored, hread⟩ := (hhandled v hv).named hname hne
        rw [u32_of_lt hlow] at hstored hread
        exact ⟨hne, hstored, hread⟩
      · cases hr : r.ok with
        | false => rfl
        | true => exact absurd ⟨(hall v hv).1, hzero⟩ (hok.mp hr v hv)

def writeName (m : Mem) (p : Nat) (s : Name) : Mem :=
  writeLE m p s.length (s.foldr (fun c v => c.toNat + 256 * v) 0)

/-- A PE image that exports `f` and imports through two descriptors, each with the one lookup entry
`word`. A descriptor without a name ends the table. -/
def samplePe (first second : Name) (word : Nat) : File where
  bytes :=
    let headers := fun m => writeLE (writeLE (writeLE (writeLE (writeLE (writeLE (writeLE (writeLE
      (writeLE m 0 2 0x5A4D) 60 4 64) 64 4 0x4550) 88 2 0x10B) 144 4 512) 148 4 512) 180 4 16)
      184 4 416) 192 4 256
    let descriptor := fun m p (dll : Name) name lookup => if dll = [] then m else
      writeName (writeLE (writeLE (writeLE m p 4 lookup) (p + 12) 4 name) (p + 16) 4 (lookup + 8))
        name dll
    let lookups := fun m => writeLE (writeLE m 320 4 word) 336 4 word
    let exports := fun m => writeLE (writeLE (writeLE (writeLE (writeLE (writeLE (writeLE (writeLE
      m 432 4 1) 436 4 1) 440 4 1) 444 4 464) 448 4 468) 452 4 472) 464 4 16) 468 4 402
    writeName (exports (lookups (descriptor (descriptor (headers fun _ => 0) 256 first 368 320)
      276 second 384 336))) 402 (ascii "f")
  size := 512
  size_lt := Nat.le_of_ble_eq_true rfl

def sampleMachine (files : List (Name × File)) : Machine where
  arch := .x86
  kmalloc _ ticks := 0x100000 * (ticks + 1)
  cdfsReadFile path _ := (files.find? fun f => systemDir ++ f.1 == path).map (·.2)
  kernelResolveExport _ := 0
  driverResolveSymbol _ _ := 0
  dllMain _ _ _ := none

def sampleWorld (f : File) : World :=
  match (peLoadImage .x86 roomyEnv f 0x100000).image with
  | some im => ({} : World).addImage im
  | none => {}

theorem peResolveImports_sound_by_name :
    ImportsSound (sampleMachine [(ascii "B.DLL", samplePe [] [] 0)]) 0
      (peResolveImports (sampleMachine [(ascii "B.DLL", samplePe [] [] 0)])
        (peLoadDll (sampleMachine [(ascii "B.DLL", samplePe [] [] 0)]) 5) 5 0
        (sampleWorld (samplePe (ascii "B.DLL") [] 400))) :=
  (peResolveImports_sound_iff (by decide +kernel)).mpr (Or.inr (by decide +kernel))

/-- An import by ordinal from a DLL that is not on the volume. -/
theorem peResolveImports_skips_ordinals :
    ((sampleWorld (samplePe (ascii "B.DLL") [] 0x80000001)).image 0).isSome ∧
    ¬ ImportsSound (sampleMachine []) 0
      (peResolveImports (sampleMachine []) (peLoadDll (sampleMachine []) 5) 5 0
        (sampleWorld (samplePe (ascii "B.DLL") [] 0x80000001))) ∧
    (peResolveImports (sampleMachine []) (peLoadDll (sampleMachine []) 5) 5 0
      (sampleWorld (samplePe (ascii "B.DLL") [] 0x80000001))).world.hung = false := by
  decide +kernel

end DiscouNT.Loader
