import DiscouNT.Net.Resolve

/-!
# Net.WireName

Names on the wire: what `dns_encode_name` writes into a buffer of any size, and what `dns_skip_name`
accepts. `NameEnds` describes the latter on the bytes of a message. The encoder takes any number of
labels and the skipper at most 128, so the two agree up to that number (`encode_skip_agree_iff`).
-/

namespace DiscouNT.Net

open Lib List Logged

structure IsName (name : List UInt8) (labels : List (List UInt8)) : Prop where
  some_label : labels ≠ []
  label : ∀ l ∈ labels, 1 ≤ l.length ∧ l.length ≤ 63 ∧ 46 ∉ l
  joined : List.intercalate [46] labels = name

def encodeName (labels : List (List UInt8)) : List UInt8 :=
  labels.flatMap (fun l => .ofNat l.length :: l) ++ [0]
/-- The labels of `name`, the first of which has begun with `label`. -/
def labelsFrom : List UInt8 → List UInt8 → List (List UInt8)
  | label, [] => [label]
  | label, ch :: name => if ch = 46 then label :: labelsFrom [] name else labelsFrom (label ++ [ch]) name

section Labels

variable {label name l : List UInt8} {labels : List (List UInt8)}

theorem labelsFrom_ne_nil : ∀ {name label : List UInt8}, labelsFrom label name ≠ [] := by
  intro name
  induction name with
  | nil => intro label; simp [labelsFrom]
  | cons ch name ih =>
    intro label
    rw [labelsFrom]
    split
    · simp
    · exact ih

theorem intercalate_cons (sep a : List UInt8) (h : labels ≠ []) :
    List.intercalate sep (a :: labels) = a ++ sep ++ List.intercalate sep labels := by
  cases labels with
  | nil => exact absurd rfl h
  | cons b labels => simp [List.intercalate, List.intersperse]

theorem intercalate_labelsFrom : ∀ {name label : List UInt8},
    List.intercalate [46] (labelsFrom label name) = label ++ name := by
  intro name
  induction name with
  | nil => intro label; simp [labelsFrom, List.intercalate]
  | cons ch name ih =>
    intro label
    rw [labelsFrom]
    split
    · rename_i hdot
      rw [intercalate_cons _ _ labelsFrom_ne_nil, ih, hdot]
      simp
    · rw [ih]
      simp

theorem not_dot_labelsFrom : ∀ {name label : List UInt8}, 46 ∉ label →
    ∀ l ∈ labelsFrom label name, 46 ∉ l := by
  intro name
  induction name with
  | nil =>
    intro label h l hl
    rw [labelsFrom, mem_singleton] at hl
    rw [hl]
    exact h
  | cons ch name ih =>
    intro label h l hl
    rw [labelsFrom] at hl
    split at hl
    · rcases mem_cons.mp hl with rfl | hl
      · exact h
      · exact ih not_mem_nil l hl
    · rename_i hch
      exact ih (by simp [h, Ne.symm hch]) l hl

theorem labelsFrom_intercalate : ∀ {labels : List (List UInt8)} {label l : List UInt8},
    46 ∉ l → (∀ l ∈ labels, 46 ∉ l) →
      labelsFrom label (List.intercalate [46] (l :: labels)) = (label ++ l) :: labels := by
  intro labels
  have step : ∀ {l label rest : List UInt8}, 46 ∉ l →
      labelsFrom label (l ++ rest) = labelsFrom (label ++ l) rest := by
    intro l
    induction l with
    | nil => intro label rest _; simp
    | cons ch l ih =>
      intro label rest h
      rw [mem_cons, not_or] at h
      rw [cons_append, labelsFrom, if_neg (Ne.symm h.1), ih h.2]
      simp
  induction labels with
  | nil =>
    intro label l hl _
    rw [show List.intercalate [46] [l] = l ++ [] by simp [List.intercalate], step hl]
    rfl
  | cons l' labels ih =>
    intro label l hl hlabels
    rw [intercalate_cons _ _ (by simp), append_assoc, step hl, singleton_append, labelsFrom,
      if_pos rfl, ih (hlabels l' mem_cons_self) fun l h => hlabels l (mem_cons_of_mem _ h)]
    rfl

theorem IsName.labels_eq (h : IsName name labels) : labels = labelsFrom [] name := by
  obtain ⟨hne, hlabel, rfl⟩ := h
  cases labels with
  | nil => exact absurd rfl hne
  | cons l labels =>
    rw [labelsFrom_intercalate (hlabel l mem_cons_self).2.2
      fun l' h => (hlabel l' (mem_cons_of_mem _ h)).2.2]
    rfl

theorem encodeName_cons (l : List UInt8) (labels : List (List UInt8)) :
    encodeName (l :: labels) = .ofNat l.length :: l ++ encodeName labels := by
  simp [encodeName]

theorem encodeName_length : ∀ {labels : List (List UInt8)}, labels ≠ [] →
    (encodeName labels).length = (List.intercalate [46] labels).length + 2 := by
  intro labels
  induction labels with
  | nil => intro h; exact absurd rfl h
  | cons l labels ih =>
    intro _
    cases labels with
    | nil => simp [encodeName, List.intercalate]
    | cons l' labels =>
      rw [encodeName_cons, intercalate_cons _ _ (by simp)]
      have := ih (by simp)
      simp only [length_append, length_cons, length_nil, this]
      omega

end Labels

def LabelsOk (labels : List (List UInt8)) : Prop := ∀ l ∈ labels, 1 ≤ l.length ∧ l.length ≤ 63

instance (labels : List (List UInt8)) : Decidable (LabelsOk labels) :=
  inferInstanceAs (Decidable (∀ l ∈ labels, _))

theorem encodeName_pos (labels : List (List UInt8)) : 1 ≤ (encodeName labels).length := by
  simp [encodeName]

theorem nil_mem_labelsFrom : ∀ {name label : List UInt8}, name.getLast? = some 46 →
    [] ∈ labelsFrom label name := by
  intro name
  induction name with
  | nil => intro label h; cases h
  | cons ch name ih =>
    intro label h
    rw [labelsFrom]
    cases name with
    | nil =>
      rw [getLast?_singleton, Option.some.injEq] at h
      rw [if_pos h]
      simp [labelsFrom]
    | cons ch' name =>
      have h' : (ch' :: name).getLast? = some 46 := by simpa [getLast?_cons_cons] using h
      split
      · exact mem_cons_of_mem _ (ih h')
      · exact ih h'

theorem not_labelsOk_of_nil {labels : List (List UInt8)} (h : [] ∈ labels) : ¬ LabelsOk labels :=
  fun hok => absurd (hok [] h).1 (by simp)

theorem labelsFrom_length (name : List UInt8) :
    (encodeName (labelsFrom [] name)).length = name.length + 2 := by
  rw [encodeName_length labelsFrom_ne_nil, intercalate_labelsFrom, nil_append]

theorem isName_labelsFrom {name : List UInt8} :
    LabelsOk (labelsFrom [] name) ↔ ∃ labels, IsName name labels := by
  constructor
  · intro h
    exact ⟨labelsFrom [] name, labelsFrom_ne_nil,
      fun l hl => ⟨(h l hl).1, (h l hl).2, not_dot_labelsFrom not_mem_nil l hl⟩,
      by rw [intercalate_labelsFrom, nil_append]⟩
  · rintro ⟨labels, h⟩ l hl
    rw [← h.labels_eq] at hl
    exact ⟨(h.label l hl).1, (h.label l hl).2.1⟩

/-- A label of the name is complete: the new `pos`, unless it is too long or does not fit. -/
def encodeLabelTo (out outLen : Nat) (label : List UInt8) (pos : Nat) (q : Mem) :
    Logged Access (Option (Nat × Mem)) :=
  if label.length < 1 ∨ 63 < label.length ∨ outLen < pos + label.length + 2 then pure none
  else do
    let q ← store (out + pos) [.ofNat label.length] q
    let q ← store (out + pos + 1) label q
    pure (some (pos + 1 + label.length, q))

def encodeLoopTo (out outLen : Nat) :
    List UInt8 → List UInt8 → Nat → Mem → Logged Access (Option (Nat × Mem))
  | [], label, pos, q => do
    match ← encodeLabelTo out outLen label pos q with
    | none => pure none
    | some (pos, q) =>
      let q ← store (out + pos) [0] q
      pure (some (pos + 1, q))
  | ch :: name, label, pos, q =>
    if ch = 46 then do
      match ← encodeLabelTo out outLen label pos q with
      | none => pure none
      | some (pos, q) => encodeLoopTo out outLen name [] pos q
    else encodeLoopTo out outLen name (label ++ [ch]) pos q

def dnsEncodeNameTo (out outLen : Nat) (name : List UInt8) (q : Mem) :
    Logged Access (Option (Nat × Mem)) :=
  if name = [] ∨ name.getLast? = some 46 then pure none else encodeLoopTo out outLen name [] 0 q

section Encode

variable {out outLen : Nat} {label name : List UInt8} {q : Mem}

theorem encodeLoop_eq : ∀ {name label : List UInt8} {pos : Nat} {q : Mem},
    encodeLoop name label pos q = encodeLoopTo 12 500 name label pos q := by
  intro name
  induction name with
  | nil => intro label pos q; rfl
  | cons ch name ih =>
    intro label pos q
    rw [encodeLoop, encodeLoopTo]
    simp only [ih]
    rfl

theorem dnsEncodeName_eq (name : List UInt8) (q : Mem) :
    dnsEncodeName name q = dnsEncodeNameTo 12 500 name q := by
  rw [dnsEncodeName, dnsEncodeNameTo, encodeLoop_eq]

theorem encodeLoopTo_val : ∀ {name label : List UInt8} {pos : Nat} {q : Mem},
    (encodeLoopTo out outLen name label pos q).val =
      if LabelsOk (labelsFrom label name) ∧ pos + (encodeName (labelsFrom label name)).length ≤ outLen then
        some (pos + (encodeName (labelsFrom label name)).length,
          storeBytes q (out + pos) (encodeName (labelsFrom label name)))
      else none := by
  have hstore : ∀ {l : List UInt8} {pos : Nat} {q : Mem} {rest : List UInt8},
      storeBytes (storeBytes (storeBytes q (out + pos) [.ofNat l.length]) (out + pos + 1) l)
        (out + (pos + 1 + l.length)) rest = storeBytes q (out + pos) (.ofNat l.length :: l ++ rest) := by
    intro l pos q rest
    have h1 := storeBytes_append q (out + pos) [.ofNat l.length] l
    have h2 := storeBytes_append q (out + pos) ([.ofNat l.length] ++ l) rest
    simp only [length_append, length_cons, length_nil, Nat.zero_add] at h1 h2
    rw [h1, show out + (pos + 1 + l.length) = out + pos + (1 + l.length) by omega, h2]
    rfl
  intro name
  induction name with
  | nil =>
    intro label pos q
    have hlen : (encodeName [label]).length = label.length + 2 := by simp [encodeName]
    simp only [encodeLoopTo, encodeLabelTo, val_bind, ↓val_ite, labelsFrom, hlen]
    by_cases h : label.length < 1 ∨ 63 < label.length ∨ outLen < pos + label.length + 2
    · rw [if_pos h, if_neg]
      · rfl
      · rintro ⟨hok, hfit⟩
        have := hok label (mem_singleton_self _)
        omega
    · have hok : LabelsOk [label] := by
        intro l hl
        rw [mem_singleton] at hl
        rw [hl]
        omega
      rw [if_neg h, if_pos ⟨hok, by omega⟩]
      simp only [store, val_note, val_pure, val_bind]
      rw [hstore, encodeName]
      simp only [flatMap_cons, flatMap_nil, append_nil]
      congr 2
      omega
  | cons ch name ih =>
    intro label pos q
    rw [encodeLoopTo, labelsFrom]
    by_cases hdot : ch = 46
    · have hlen := encodeName_pos (labelsFrom [] name)
      have hcons : (encodeName (label :: labelsFrom [] name)).length =
          1 + label.length + (encodeName (labelsFrom [] name)).length := by
        rw [encodeName_cons]
        simp only [length_append, length_cons]
        omega
      have hok : LabelsOk (label :: labelsFrom [] name) ↔
          (1 ≤ label.length ∧ label.length ≤ 63) ∧ LabelsOk (labelsFrom [] name) := by
        simp [LabelsOk]
      rw [if_pos hdot, if_pos hdot, encodeLabelTo]
      simp only [val_bind, ↓val_ite, hok, hcons]
      by_cases h : label.length < 1 ∨ 63 < label.length ∨ outLen < pos + label.length + 2
      · rw [if_pos h, if_neg (by omega)]
        rfl
      · rw [if_neg h]
        simp only [store, val_note, val_pure, ih]
        by_cases hrest : LabelsOk (labelsFrom [] name) ∧
            pos + 1 + label.length + (encodeName (labelsFrom [] name)).length ≤ outLen
        · rw [if_pos hrest, if_pos ⟨⟨by omega, hrest.1⟩, by omega⟩, hstore, encodeName_cons]
          congr 2
          omega
        · rw [if_neg hrest, if_neg]
          rintro ⟨⟨_, hl⟩, hfit⟩
          exact hrest ⟨hl, by omega⟩
    · rw [if_neg hdot, if_neg hdot, ih]

theorem dnsEncodeNameTo_val (out outLen : Nat) (name : List UInt8) (q : Mem) :
    (dnsEncodeNameTo out outLen name q).val =
      if LabelsOk (labelsFrom [] name) ∧ name.length + 2 ≤ outLen then
        some (name.length + 2, storeBytes q out (encodeName (labelsFrom [] name)))
      else none := by
  rw [dnsEncodeNameTo]
  split
  · rename_i h
    rw [if_neg]
    · rfl
    · rintro ⟨hok, _⟩
      rcases h with rfl | h
      · exact not_labelsOk_of_nil (mem_singleton_self _) hok
      · exact not_labelsOk_of_nil (nil_mem_labelsFrom h) hok
  · rw [encodeLoopTo_val, labelsFrom_length, Nat.zero_add]
    rfl

end Encode

/-- From `offset` on the message has a name of `count` labels, each of 1 to 63 bytes, with a zero
byte or a pointer behind them. It is within `len`, and `fin` is just past it. -/
inductive NameEnds (m : Mem) (payload len : Nat) : Nat → Nat → Nat → Prop where
  | root {offset : Nat} (hin : offset < len) (hzero : m (payload + offset) = 0) :
      NameEnds m payload len 0 offset (offset + 1)
  | pointer {offset : Nat} (hin : offset + 1 < len) (htop : (m (payload + offset)).toNat / 64 = 3) :
      NameEnds m payload len 0 offset (offset + 2)
  | label {count offset fin : Nat} (hpos : m (payload + offset) ≠ 0)
      (hsmall : (m (payload + offset)).toNat ≤ 63)
      (hin : offset + 1 + (m (payload + offset)).toNat ≤ len)
      (hrest : NameEnds m payload len count (offset + 1 + (m (payload + offset)).toNat) fin) :
      NameEnds m payload len (count + 1) offset fin

section Skip

variable {m : Mem} {payload len offset fin next count left : Nat}

theorem dnsLabel_val :
    (dnsLabel m payload len offset).val =
      if len ≤ offset then .bad
      else if m (payload + offset) = 0 then .done (offset + 1)
      else if (m (payload + offset)).toNat / 64 = 3 then
        if len ≤ offset + 1 then .bad else .done (offset + 2)
      else if (m (payload + offset)).toNat / 64 ≠ 0 then .bad
      else if 63 < (m (payload + offset)).toNat ∨ len < offset + 1 + (m (payload + offset)).toNat then
        .bad
      else .more (offset + 1 + (m (payload + offset)).toNat) := by
  rw [dnsLabel]
  by_cases hend : len ≤ offset
  · rw [if_pos hend, if_pos hend]
    rfl
  rw [if_neg hend, if_neg hend, val_bind, rd8, val_note]
  generalize m (payload + offset) = count
  split
  · rfl
  split
  · rw [val_ite]
    rfl
  split
  · rfl
  · rw [val_ite]
    rfl

theorem dnsLabel_done :
    (dnsLabel m payload len offset).val = .done fin ↔ NameEnds m payload len 0 offset fin := by
  rw [dnsLabel_val]
  constructor
  · intro h
    split at h
    · cases h
    split at h
    · cases h
      exact .root (by omega) ‹_›
    split at h
    · split at h
      · cases h
      · cases h
        exact .pointer (by omega) ‹_›
    split at h
    · cases h
    split at h
    · cases h
    · cases h
  · intro h
    cases h with
    | root hin hzero => rw [if_neg (by omega), if_pos hzero]
    | pointer hin htop =>
      have hne : m (payload + offset) ≠ 0 := by
        intro hzero
        rw [hzero] at htop
        cases htop
      rw [if_neg (by omega), if_neg hne, if_pos htop, if_neg (by omega)]

theorem dnsLabel_more :
    (dnsLabel m payload len offset).val = .more next ↔
      m (payload + offset) ≠ 0 ∧ (m (payload + offset)).toNat ≤ 63 ∧
        offset + 1 + (m (payload + offset)).toNat ≤ len ∧
        next = offset + 1 + (m (payload + offset)).toNat := by
  rw [dnsLabel_val]
  constructor
  · intro h
    split at h
    · cases h
    split at h
    · cases h
    split at h
    · split at h
      · cases h
      · cases h
    split at h
    · cases h
    split at h
    · cases h
    · cases h
      exact ⟨‹_›, by omega, by omega, rfl⟩
  · rintro ⟨hne, hsmall, hin, rfl⟩
    rw [if_neg (by omega), if_neg hne, if_neg (by omega), if_neg (by omega), if_neg (by omega)]

theorem nameEnds_succ_iff :
    NameEnds m payload len (count + 1) offset fin ↔
      ∃ next, (dnsLabel m payload len offset).val = .more next ∧
        NameEnds m payload len count next fin := by
  constructor
  · intro h
    cases h with
    | label hpos hsmall hin hrest => exact ⟨_, dnsLabel_more.mpr ⟨hpos, hsmall, hin, rfl⟩, hrest⟩
  · rintro ⟨next, hmore, hrest⟩
    obtain ⟨hpos, hsmall, hin, rfl⟩ := dnsLabel_more.mp hmore
    exact .label hpos hsmall hin hrest

theorem dnsSkipName_iff : ∀ {left offset : Nat},
    (dnsSkipName m payload len left offset).val = some fin ↔
      ∃ count ≤ left, NameEnds m payload len count offset fin := by
  intro left
  induction left with
  | zero =>
    intro offset
    have hzero : (∃ count ≤ 0, NameEnds m payload len count offset fin) ↔
        NameEnds m payload len 0 offset fin :=
      ⟨fun ⟨count, hle, h⟩ => Nat.le_zero.mp hle ▸ h, fun h => ⟨0, le_refl 0, h⟩⟩
    rw [hzero, ← dnsLabel_done, dnsSkipName, val_bind]
    cases hlabel : (dnsLabel m payload len offset).val with
    | bad => simp
    | done offset => simp
    | more next => simp
  | succ left ih =>
    intro offset
    have hsplit : (∃ count ≤ left + 1, NameEnds m payload len count offset fin) ↔
        NameEnds m payload len 0 offset fin ∨
          ∃ next, (dnsLabel m payload len offset).val = .more next ∧
            ∃ count ≤ left, NameEnds m payload len count next fin := by
      constructor
      · rintro ⟨count, hle, h⟩
        cases count with
        | zero => exact .inl h
        | succ count =>
          obtain ⟨next, hmore, hrest⟩ := nameEnds_succ_iff.mp h
          exact .inr ⟨next, hmore, count, by omega, hrest⟩
      · rintro (h | ⟨next, hmore, count, hle, hrest⟩)
        · exact ⟨0, by omega, h⟩
        · exact ⟨count + 1, by omega, nameEnds_succ_iff.mpr ⟨next, hmore, hrest⟩⟩
    rw [hsplit, ← dnsLabel_done, dnsSkipName, val_bind]
    cases hlabel : (dnsLabel m payload len offset).val with
    | bad => simp
    | done offset => simp
    | more next =>
      simp only [ih]
      constructor
      · exact fun h => .inr ⟨next, rfl, h⟩
      · rintro (h | ⟨_, hmore, h⟩)
        · cases h
        · cases hmore
          exact h

theorem NameEnds.unique {count' fin' : Nat} (h : NameEnds m payload len count offset fin)
    (h' : NameEnds m payload len count' offset fin') : count = count' ∧ fin = fin' := by
  induction h generalizing count' with
  | root hin hzero =>
    cases h' with
    | root => exact ⟨rfl, rfl⟩
    | pointer _ htop =>
      rw [hzero] at htop
      cases htop
    | label hpos => exact absurd hzero hpos
  | pointer hin htop =>
    cases h' with
    | root _ hzero =>
      rw [hzero] at htop
      cases htop
    | pointer => exact ⟨rfl, rfl⟩
    | label _ hsmall => omega
  | label hpos hsmall hin hrest ih =>
    cases h' with
    | root _ hzero => exact absurd hzero hpos
    | pointer _ htop => omega
    | label _ _ _ hrest' =>
      obtain ⟨rfl, rfl⟩ := ih hrest'
      exact ⟨rfl, rfl⟩

theorem nameEnds_encodeName : ∀ {labels : List (List UInt8)} {offset : Nat}, LabelsOk labels →
    loadBytes m (payload + offset) (encodeName labels).length = encodeName labels →
    offset + (encodeName labels).length ≤ len →
      NameEnds m payload len labels.length offset (offset + (encodeName labels).length) := by
  intro labels
  induction labels with
  | nil =>
    intro offset _ hload hlen
    have hzero : m (payload + offset) = 0 := by
      have := congrArg List.head? hload
      simpa [loadBytes, encodeName] using this
    have hone : (encodeName []).length = 1 := rfl
    rw [hone] at hlen ⊢
    exact .root (by omega) hzero
  | cons l labels ih =>
    intro offset hok hload hlen
    obtain ⟨hl1, hl63⟩ := hok l mem_cons_self
    have hsize : (UInt8.ofNat l.length).toNat = l.length := by
      rw [UInt8.toNat_ofNat']
      omega
    have hlength : (encodeName (l :: labels)).length =
        1 + l.length + (encodeName labels).length := by
      rw [encodeName_cons, length_append, length_cons]
      omega
    rw [hlength] at hload hlen ⊢
    rw [loadBytes_add, encodeName_cons] at hload
    obtain ⟨hfirst, hrest⟩ := append_inj hload (by
      rw [loadBytes_length, length_cons]
      omega)
    have hcount : m (payload + offset) = .ofNat l.length := by
      have := congrArg List.head? hfirst
      rw [Nat.add_comm 1] at this
      simpa [loadBytes, List.range'] using this
    have hnext : NameEnds m payload len labels.length (offset + 1 + (m (payload + offset)).toNat)
        (offset + 1 + (m (payload + offset)).toNat + (encodeName labels).length) := by
      rw [hcount, hsize]
      refine ih (fun l' hl' => hok l' (mem_cons_of_mem _ hl')) ?_ (by omega)
      rwa [show payload + offset + (1 + l.length) = payload + (offset + 1 + l.length) by omega]
        at hrest
    have hfin : offset + (1 + l.length + (encodeName labels).length) =
        offset + 1 + (m (payload + offset)).toNat + (encodeName labels).length := by
      rw [hcount, hsize]
      omega
    rw [hfin]
    refine .label ?_ ?_ ?_ hnext
    · intro hzero
      rw [hcount] at hzero
      have := congrArg UInt8.toNat hzero
      rw [hsize] at this
      have hne : l.length = 0 := this
      omega
    · rw [hcount, hsize]
      exact hl63
    · rw [hcount, hsize]
      omega

theorem dnsSkipName_encodeName {labels : List (List UInt8)} (hok : LabelsOk labels)
    (hload : loadBytes m (payload + offset) (encodeName labels).length = encodeName labels)
    (hlen : offset + (encodeName labels).length ≤ len) :
    (dnsSkipName m payload len left offset).val =
      if labels.length ≤ left then some (offset + (encodeName labels).length) else none := by
  have hends := nameEnds_encodeName hok hload hlen
  split
  · rename_i hle
    exact dnsSkipName_iff.mpr ⟨labels.length, hle, hends⟩
  · rename_i hmore
    refine Option.eq_none_iff_forall_ne_some.mpr fun fin hfin => ?_
    obtain ⟨count, hle, hends'⟩ := dnsSkipName_iff.mp hfin
    exact hmore ((hends.unique hends').1 ▸ hle)

end Skip

/-! ## Both -/

/-- The name is empty, has an empty or an over-long label, or does not fit. -/
def Unencodable (outLen : Nat) (name : List UInt8) : Prop :=
  name = [] ∨ (∃ l ∈ labelsFrom [] name, l = [] ∨ 63 < l.length) ∨ outLen < name.length + 2

theorem unencodable_iff {outLen : Nat} {name : List UInt8} :
    Unencodable outLen name ↔ ¬ (LabelsOk (labelsFrom [] name) ∧ name.length + 2 ≤ outLen) := by
  have hbad : (∃ l ∈ labelsFrom [] name, l = [] ∨ 63 < l.length) ↔
      ¬ LabelsOk (labelsFrom [] name) := by
    simp only [LabelsOk, not_forall, exists_prop]
    refine exists_congr fun l => and_congr_right fun _ => ?_
    rw [← length_eq_zero_iff]
    omega
  rw [Unencodable, hbad, not_and_or, Nat.not_le]
  constructor
  · rintro (rfl | h)
    · exact .inl (not_labelsOk_of_nil (mem_singleton_self _))
    · exact h
  · exact .inr

/-- A name is refused exactly when it cannot be encoded. Else the labels of the name are written, and
in every message that has them the skipper passes over them if there are at most 128. -/
theorem encode_skip_agree (out outLen : Nat) (name : List UInt8) (q : Mem) :
    let r := (dnsEncodeNameTo out outLen name q).val
    (r = none ↔ Unencodable outLen name) ∧
      ∀ pos q', r = some (pos, q') →
        (∃ labels, IsName name labels ∧ loadBytes q' out pos = encodeName labels) ∧
        ∀ (m : Mem) (payload len offset : Nat), offset + pos ≤ len →
          loadBytes m (payload + offset) pos = loadBytes q' out pos →
          (dnsSkipName m payload len 128 offset).val =
            if (labelsFrom [] name).length ≤ 128 then some (offset + pos) else none := by
  intro r
  have hr : r = _ := dnsEncodeNameTo_val out outLen name q
  rw [hr, unencodable_iff]
  by_cases h : LabelsOk (labelsFrom [] name) ∧ name.length + 2 ≤ outLen
  · rw [if_pos h]
    refine ⟨iff_of_false nofun (not_not.mpr h), fun pos q' hsome => ?_⟩
    rw [Option.some.injEq, Prod.mk.injEq] at hsome
    obtain ⟨rfl, rfl⟩ := hsome
    have hwritten := loadBytes_storeBytes_same q out (encodeName (labelsFrom [] name))
    rw [labelsFrom_length] at hwritten
    rw [hwritten]
    refine ⟨?_, fun m payload len offset hlen hload => ?_⟩
    · obtain ⟨labels, hname⟩ := isName_labelsFrom.mp h.1
      exact ⟨labels, hname, by rw [hname.labels_eq]⟩
    · rw [← labelsFrom_length] at hlen hload ⊢
      exact dnsSkipName_encodeName h.1 hload hlen
  · rw [if_neg h]
    exact ⟨iff_of_true rfl h, nofun⟩

/-- A name of 129 labels is encoded and then not found in the message. -/
theorem encode_skip_disagree :
    ¬ ∀ (out outLen : Nat) (name : List UInt8) (q q' m : Mem) (pos payload len offset : Nat),
      (dnsEncodeNameTo out outLen name q).val = some (pos, q') → offset + pos ≤ len →
        loadBytes m (payload + offset) pos = loadBytes q' out pos →
        (dnsSkipName m payload len 128 offset).val = some (offset + pos) := by
  intro hall
  let labels : List (List UInt8) := List.replicate 129 [97]
  have hname : IsName (List.intercalate [46] labels) labels := by
    refine ⟨by simp [labels], fun l hl => ?_, rfl⟩
    rw [eq_of_mem_replicate hl]
    decide
  have hok : LabelsOk labels := fun l hl => ⟨(hname.label l hl).1, (hname.label l hl).2.1⟩
  have hmany : ¬ labels.length ≤ 128 := by
    rw [length_replicate]
    decide
  generalize labels = labels at hname hok hmany
  generalize List.intercalate [46] labels = name at hname
  obtain rfl := hname.labels_eq
  have hlength := labelsFrom_length name
  have hwritten := loadBytes_storeBytes_same (fun _ => 0) 0 (encodeName (labelsFrom [] name))
  have hsome := dnsEncodeNameTo_val 0 (name.length + 2) name fun _ => 0
  rw [if_pos ⟨hok, le_refl _⟩, ← hlength] at hsome
  have hskip := hall 0 _ name _ _ _ _ 0 _ 0 hsome (Nat.le_of_eq (Nat.zero_add _)) rfl
  rw [dnsSkipName_encodeName hok hwritten (Nat.le_of_eq (Nat.zero_add _)), if_neg hmany] at hskip
  cases hskip

end DiscouNT.Net
