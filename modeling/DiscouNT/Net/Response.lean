import DiscouNT.Net.WireName

/-!
# Net.Response

Which DNS responses `handle_dns_response` takes an address from. The message is described on its
bytes: names, questions and records one behind another, each within `len`. The result is the data of
the first address record that everything up to it leads to, and without one nothing changes
(`handleDnsResponse_exact`).
-/

namespace DiscouNT.Net

open Lib Logged

section Message

variable (m : Mem) (payload len : Nat)

def NameAt (offset fin : Nat) : Prop := ∃ count ≤ 128, NameEnds m payload len count offset fin

/-- So many questions one behind another, the last ending before `fin`. -/
inductive Questions : Nat → Nat → Nat → Prop where
  | nil {offset : Nat} : Questions 0 offset offset
  | cons {n offset next fin : Nat} (hname : NameAt m payload len offset next) (hin : next + 4 ≤ len)
      (hrest : Questions n (next + 4) fin) : Questions (n + 1) offset fin

/-- The fields of a record that are looked at, and where its data is. -/
structure Record where
  type : Nat
  klass : Nat
  rdlen : Nat
  data : Nat

/-- The fields behind a name that ends before `next`. -/
def recordBehind (next : Nat) : Record where
  type := be16 m (payload + next)
  klass := be16 m (payload + next + 2)
  rdlen := be16 m (payload + next + 8)
  data := next + 10

def Record.IsAddress (r : Record) : Prop := r.type = 1 ∧ r.klass = 1 ∧ r.rdlen = 4

instance (r : Record) : Decidable r.IsAddress := inferInstanceAs (Decidable (_ ∧ _ ∧ _))

def Record.fin (r : Record) : Nat := r.data + r.rdlen

/-- A record that is within the message, name, fields and data. -/
def RecordAt (offset : Nat) (r : Record) : Prop :=
  ∃ next, NameAt m payload len offset next ∧ next + 10 ≤ len ∧ r = recordBehind m payload next ∧
    r.fin ≤ len

inductive Records : Nat → List Record → Nat → Prop where
  | nil {offset : Nat} : Records offset [] offset
  | cons {offset fin : Nat} {r : Record} {rs : List Record} (hrec : RecordAt m payload len offset r)
      (hrest : Records r.fin rs fin) : Records offset (r :: rs) fin

/-- Among the `answers` records from `offset` on there is an address, everything up to it is within
the message, and `ip` is the data of the first one. -/
def FirstAddress (answers offset : Nat) (ip : Ip) : Prop :=
  ∃ rs mid r, Records m payload len offset rs mid ∧ RecordAt m payload len mid r ∧
    rs.length < answers ∧ (∀ r' ∈ rs, ¬ r'.IsAddress) ∧ r.IsAddress ∧ ip = ipAt m (payload + r.data)

def ResponseHeader (s : NetState) : Prop :=
  s.dnsQueryActive = true ∧ 12 ≤ len ∧ be16 m payload = s.dnsQueryId.toNat ∧
    be16 m (payload + 2) / 0x8000 ≠ 0 ∧ be16 m (payload + 2) % 16 = 0 ∧
    be16 m (payload + 4) ≠ 0 ∧ be16 m (payload + 6) ≠ 0

def AnswersWith (s : NetState) (ip : Ip) : Prop :=
  ResponseHeader m payload len s ∧
    ∃ offset, Questions m payload len (be16 m (payload + 4)) 12 offset ∧
      FirstAddress m payload len (be16 m (payload + 6)) offset ip

end Message

section Loops

variable {m : Mem} {payload len offset fin next : Nat} {r : Record} {ip : Ip}

theorem nameAt_iff :
    NameAt m payload len offset fin ↔ (dnsSkipName m payload len 128 offset).val = some fin :=
  dnsSkipName_iff.symm

theorem skipQuestions_iff : ∀ {n offset : Nat},
    (skipQuestions m payload len n offset).val = some fin ↔ Questions m payload len n offset fin := by
  intro n
  induction n with
  | zero =>
    intro offset
    constructor
    · intro h
      cases h
      exact .nil
    · intro h
      cases h
      rfl
  | succ n ih =>
    intro offset
    rw [skipQuestions, val_bind]
    constructor
    · intro h
      cases hname : (dnsSkipName m payload len 128 offset).val with
      | none =>
        rw [hname] at h
        cases h
      | some next =>
        rw [hname] at h
        simp only [↓val_ite] at h
        split at h
        · cases h
        · exact .cons (nameAt_iff.mpr hname) (by omega) (ih.mp h)
    · intro h
      cases h with
      | cons hname hin hrest =>
        rw [nameAt_iff.mp hname]
        simp only [↓val_ite]
        rw [if_neg (by omega)]
        exact ih.mpr hrest

theorem recordAt_iff :
    RecordAt m payload len offset r ↔
      ∃ next, (dnsSkipName m payload len 128 offset).val = some next ∧ next + 10 ≤ len ∧
        r = recordBehind m payload next ∧ r.fin ≤ len := by
  simp only [RecordAt, nameAt_iff]

theorem findAnswer_step (m : Mem) (payload len offset n : Nat) :
    ((¬ ∃ r, RecordAt m payload len offset r) ∧
        (findAnswer m payload len (n + 1) offset).val = none) ∨
      ∃ r, RecordAt m payload len offset r ∧
        (∀ r', RecordAt m payload len offset r' → r' = r) ∧
        (findAnswer m payload len (n + 1) offset).val =
          if r.IsAddress then some (ipAt m (payload + r.data))
          else (findAnswer m payload len n r.fin).val := by
  simp only [recordAt_iff]
  rw [findAnswer, val_bind]
  cases hname : (dnsSkipName m payload len 128 offset).val with
  | none => exact .inl ⟨by simp, rfl⟩
  | some next =>
    simp only [Option.some.injEq, exists_eq_left', ↓val_ite]
    by_cases hfields : len < next + 10
    · rw [if_pos hfields]
      exact .inl ⟨fun ⟨r, h, _⟩ => by omega, rfl⟩
    rw [if_neg hfields]
    change _ ∧ (if len < next + 10 + be16 m (payload + next + 8) then pure none
        else if be16 m (payload + next) = 1 ∧ be16 m (payload + next + 2) = 1 ∧
            be16 m (payload + next + 8) = 4 then
          rdIp m (payload + (next + 10)) >>= fun ip => pure (some ip)
        else findAnswer m payload len n (next + 10 + be16 m (payload + next + 8)) :
          Logged Access (Option Ip)).val = none ∨ ∃ r, _ ∧ _ ∧
      (if len < next + 10 + be16 m (payload + next + 8) then pure none
        else if be16 m (payload + next) = 1 ∧ be16 m (payload + next + 2) = 1 ∧
            be16 m (payload + next + 8) = 4 then
          rdIp m (payload + (next + 10)) >>= fun ip => pure (some ip)
        else findAnswer m payload len n (next + 10 + be16 m (payload + next + 8)) :
          Logged Access (Option Ip)).val = _
    by_cases hdata : len < next + 10 + be16 m (payload + next + 8)
    · rw [if_pos hdata]
      refine .inl ⟨?_, rfl⟩
      rintro ⟨r, _, rfl, hfin⟩
      exact absurd hfin (Nat.not_le.mpr hdata)
    rw [if_neg hdata, val_ite]
    exact .inr ⟨recordBehind m payload next, ⟨by omega, rfl, Nat.not_lt.mp hdata⟩,
      fun r' h => h.2.1, rfl⟩

theorem findAnswer_iff : ∀ {answers offset : Nat},
    (findAnswer m payload len answers offset).val = some ip ↔
      FirstAddress m payload len answers offset ip := by
  intro answers
  induction answers with
  | zero =>
    intro offset
    refine iff_of_false nofun ?_
    rintro ⟨rs, _, _, _, _, hlt, _⟩
    omega
  | succ n ih =>
    intro offset
    obtain ⟨hnone, hval⟩ | ⟨r, hr, hunique, hval⟩ := findAnswer_step m payload len offset n
    · rw [hval]
      refine iff_of_false nofun ?_
      rintro ⟨rs, mid, r, hrs, hr, _⟩
      cases hrs with
      | nil => exact hnone ⟨r, hr⟩
      | cons hrec _ => exact hnone ⟨_, hrec⟩
    · rw [hval]
      split
      · rename_i haddr
        rw [Option.some.injEq]
        constructor
        · rintro rfl
          exact ⟨[], offset, r, .nil, hr, by simp, by simp, haddr, rfl⟩
        · rintro ⟨rs, mid, r', hrs, hr', _, hnot, _, rfl⟩
          cases hrs with
          | nil => rw [hunique r' hr']
          | cons hrec _ => exact absurd (hunique _ hrec ▸ haddr) (hnot _ List.mem_cons_self)
      · rename_i haddr
        rw [ih]
        constructor
        · rintro ⟨rs, mid, r', hrs, hr', hlt, hnot, haddr', hip⟩
          exact ⟨r :: rs, mid, r', .cons hr hrs, hr', Nat.succ_lt_succ hlt,
            List.forall_mem_cons.mpr ⟨haddr, hnot⟩, haddr', hip⟩
        · rintro ⟨rs, mid, r', hrs, hr', hlt, hnot, haddr', hip⟩
          cases hrs with
          | nil => exact absurd (hunique r' hr' ▸ haddr') haddr
          | cons hrec hrest =>
            rw [hunique _ hrec] at hrest
            exact ⟨_, mid, r', hrest, hr', Nat.lt_of_succ_lt_succ hlt,
              (List.forall_mem_cons.mp hnot).2, haddr', hip⟩

end Loops

section Handler

variable {m : Mem} {payload len : Nat} {s : NetState}

def NetState.answered (s : NetState) : Option Ip → NetState
  | none => s
  | some ip => s.setDnsResult ip

theorem handleDnsResponse_of_not_header (h : ¬ ResponseHeader m payload len s) :
    (handleDnsResponse m payload len s).val = s := by
  rw [handleDnsResponse]
  split
  · rfl
  rename_i hstart
  change (if be16 m payload ≠ s.dnsQueryId.toNat then pure s else _ : Logged Access NetState).val = s
  split
  · rfl
  rename_i hid
  change (if be16 m (payload + 2) / 0x8000 = 0 ∨ be16 m (payload + 2) % 16 ≠ 0 then pure s else _ :
    Logged Access NetState).val = s
  split
  · rfl
  rename_i hflags
  change (if be16 m (payload + 4) = 0 ∨ be16 m (payload + 6) = 0 then pure s else _ :
    Logged Access NetState).val = s
  split
  · rfl
  rename_i hcounts
  rw [not_or] at hstart hflags hcounts
  refine absurd ⟨?_, ?_, ?_, hflags.1, ?_, hcounts.1, hcounts.2⟩ h
  · simpa using hstart.1
  · exact Nat.not_lt.mp hstart.2
  · exact not_not.mp hid
  · exact not_not.mp hflags.2

theorem handleDnsResponse_of_header (h : ResponseHeader m payload len s) :
    (handleDnsResponse m payload len s).val =
      s.answered ((skipQuestions m payload len (be16 m (payload + 4)) 12).val.bind fun offset =>
        (findAnswer m payload len (be16 m (payload + 6)) offset).val) := by
  obtain ⟨hactive, hlen, hid, hqr, hrcode, hquestions, hanswers⟩ := h
  rw [handleDnsResponse, if_neg (by simp [hactive]; omega)]
  change (if be16 m payload ≠ s.dnsQueryId.toNat then pure s else _ : Logged Access NetState).val = _
  rw [if_neg (not_not.mpr hid)]
  change (if be16 m (payload + 2) / 0x8000 = 0 ∨ be16 m (payload + 2) % 16 ≠ 0 then pure s else _ :
    Logged Access NetState).val = _
  rw [if_neg (not_or.mpr ⟨hqr, not_not.mpr hrcode⟩)]
  change (if be16 m (payload + 4) = 0 ∨ be16 m (payload + 6) = 0 then pure s else _ :
    Logged Access NetState).val = _
  rw [if_neg (not_or.mpr ⟨hquestions, hanswers⟩)]
  change (skipQuestions m payload len (be16 m (payload + 4)) 12 >>= _ :
    Logged Access NetState).val = _
  rw [val_bind]
  cases hskip : (skipQuestions m payload len (be16 m (payload + 4)) 12).val with
  | none => rfl
  | some offset =>
    change (findAnswer m payload len (be16 m (payload + 6)) offset >>= _ :
      Logged Access NetState).val =
        s.answered (findAnswer m payload len (be16 m (payload + 6)) offset).val
    rw [val_bind]
    cases (findAnswer m payload len (be16 m (payload + 6)) offset).val with
    | none => rfl
    | some ip => rfl

end Handler

end DiscouNT.Net
