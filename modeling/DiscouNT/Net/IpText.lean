import DiscouNT.Net.Resolve

/-!
# Net.IpText

`parse_ip` accepts four decimal fields between single dots and nothing else, and reads back what
`format_ip` writes.
-/

namespace DiscouNT.Net

open List

/-- The loop of `itoa` for a value that is not negative, with what is in `tmp`. -/
def itoaLoop (base : Nat) : Nat → Nat → List UInt8 → List UInt8
  | 0, _, tmp => tmp
  | rounds + 1, val, tmp =>
    if val = 0 then tmp
    else
      let r := val % base
      itoaLoop base rounds (val / base) (tmp ++ [.ofNat (if r < 10 then 48 + r else 65 + r - 10)])

/-- There is room for 16 digits. -/
def itoa (val base : Nat) : List UInt8 :=
  if val = 0 then [48] else (itoaLoop base 16 val []).reverse

/-- The value of the digits `f` behind digits of the value `val`. -/
def valueFrom (val : Nat) (f : List UInt8) : Nat :=
  f.foldl (fun val ch => val * 10 + (ch.toNat - 48)) val

def Digits (f : List UInt8) : Prop := ∀ ch ∈ f, 48 ≤ ch ∧ ch ≤ 57

instance (f : List UInt8) : Decidable (Digits f) := inferInstanceAs (Decidable (∀ _ ∈ _, _))

/-- A non-empty decimal field with a value of at most 255. -/
structure Field (f : List UInt8) : Prop where
  nonempty : f ≠ []
  digits : Digits f
  value : valueFrom 0 f ≤ 255

def dotted (f : List UInt8) (fs : List (List UInt8)) : List UInt8 := f ++ fs.flatMap (46 :: ·)

theorem le_valueFrom : ∀ (f : List UInt8) (val : Nat), val ≤ valueFrom val f
  | [], _ => Nat.le_refl _
  | ch :: f, val => Nat.le_trans (by omega) (le_valueFrom f (val * 10 + (ch.toNat - 48)))

/-- The first character belongs to the first field, or it is the dot behind an empty one. -/
theorem cons_eq_dotted {ch : UInt8} {text f : List UInt8} {fs : List (List UInt8)} :
    ch :: text = dotted f fs ↔ (∃ f', f = ch :: f' ∧ text = dotted f' fs) ∨
      (f = [] ∧ ch = 46 ∧ ∃ g fs', fs = g :: fs' ∧ text = dotted g fs') := by
  constructor
  · intro h
    cases f with
    | cons c f =>
      obtain ⟨rfl, htext⟩ := List.cons.inj h
      exact .inl ⟨f, rfl, htext⟩
    | nil =>
      cases fs with
      | nil => cases h
      | cons g fs =>
        obtain ⟨hch, htext⟩ := List.cons.inj h
        exact .inr ⟨rfl, hch, g, fs, rfl, htext⟩
  · rintro (⟨f', rfl, rfl⟩ | ⟨rfl, rfl, g, fs', rfl, rfl⟩)
    · rfl
    · rfl

theorem parseIpLoop_nil {ip : Ip} {parts : List UInt8} {val : Nat} {saw : Bool} :
    parseIpLoop [] parts val saw = some ip ↔ saw = true ∧ ip.bytes = parts ++ [.ofNat val] := by
  unfold parseIpLoop
  split
  · rename_i a b c
    constructor
    · intro h
      cases h
      exact ⟨rfl, rfl⟩
    · rintro ⟨-, h⟩
      obtain ⟨a', b', c', d'⟩ := ip
      cases h
      rfl
  · rename_i hne
    refine iff_of_false nofun ?_
    rintro ⟨rfl, h⟩
    obtain ⟨a, b, c, d⟩ := ip
    have happend : parts ++ [.ofNat val] = [a, b, c] ++ [d] := h.symm
    exact hne a b c rfl (append_inj' happend rfl).1

/-- The automaton, from any state on: `f` is what is left of the field that was begun. -/
theorem parseIpLoop_iff {ip : Ip} : ∀ {text parts : List UInt8} {val : Nat} {saw : Bool},
    val ≤ 255 → parts.length ≤ 3 →
    (parseIpLoop text parts val saw = some ip ↔
      ∃ f fs, text = dotted f fs ∧ Digits f ∧ (saw = true ∨ f ≠ []) ∧ valueFrom val f ≤ 255 ∧
        (∀ g ∈ fs, Field g) ∧
        ip.bytes = parts ++ .ofNat (valueFrom val f) :: fs.map fun g => .ofNat (valueFrom 0 g)) := by
  intro text
  induction text with
  | nil =>
    intro parts val saw hval hparts
    rw [parseIpLoop_nil]
    constructor
    · rintro ⟨hsaw, hip⟩
      exact ⟨[], [], rfl, nofun, .inl hsaw, hval, nofun, hip⟩
    · rintro ⟨f, fs, htext, -, hsaw, -, -, hip⟩
      obtain ⟨rfl, hfs⟩ := append_eq_nil_iff.mp htext.symm
      cases fs with
      | nil => exact ⟨hsaw.resolve_right (not_not_intro rfl), hip⟩
      | cons g fs => cases hfs
  | cons ch text ih =>
    intro parts val saw hval hparts
    rw [parseIpLoop]
    by_cases hdigit : 48 ≤ ch ∧ ch ≤ 57
    · have hne : ch ≠ 46 := by rintro rfl; exact absurd hdigit.1 (by decide)
      rw [if_pos hdigit]
      simp only [cons_eq_dotted, hne, false_and, and_false, or_false]
      by_cases hbig : 255 < val * 10 + (ch.toNat - 48)
      · rw [if_pos hbig]
        refine iff_of_false nofun ?_
        rintro ⟨f, fs, ⟨f', rfl, -⟩, -, -, hvalue, -⟩
        exact absurd (le_valueFrom f' _) (Nat.not_le.mpr (Nat.lt_of_le_of_lt hvalue hbig))
      · rw [if_neg hbig, ih (by omega) hparts]
        constructor
        · rintro ⟨f, fs, rfl, hf, -, hrest⟩
          exact ⟨ch :: f, fs, ⟨f, rfl, rfl⟩, forall_mem_cons.mpr ⟨hdigit, hf⟩, .inr nofun, hrest⟩
        · rintro ⟨f, fs, ⟨f', rfl, rfl⟩, hf, -, hrest⟩
          exact ⟨f', fs, rfl, (forall_mem_cons.mp hf).2, .inl rfl, hrest⟩
    · rw [if_neg hdigit]
      by_cases hdot : ch = 46
      · rw [if_pos hdot]
        constructor
        · intro h
          by_cases hstop : saw = false ∨ 3 ≤ parts.length
          · rw [if_pos hstop] at h
            cases h
          · rw [if_neg hstop, ih (by decide) (by rw [length_append, length_singleton]; omega)] at h
            obtain ⟨g, fs, rfl, hg, hne, hvalue, hfs, hip⟩ := h
            have hfield : Field g := ⟨hne.resolve_left nofun, hg, hvalue⟩
            exact ⟨[], g :: fs, by rw [hdot]; rfl, nofun, .inl (by simpa using fun h => hstop (.inl h)),
              hval, forall_mem_cons.mpr ⟨hfield, hfs⟩, by rw [hip, append_assoc]; rfl⟩
        · rintro ⟨f, fs, htext, hf, hsaw, -, hfs, hip⟩
          rcases cons_eq_dotted.mp htext with ⟨f', rfl, -⟩ | ⟨rfl, -, g, fs', rfl, rfl⟩
          · exact absurd (hf ch (mem_cons_self ..)) hdigit
          · have hsaw := hsaw.resolve_right (not_not_intro rfl)
            have hlen := congrArg List.length hip
            simp only [Ip.bytes, length_append, length_cons, length_nil, length_map] at hlen
            obtain ⟨hg, hfs⟩ := forall_mem_cons.mp hfs
            have hgo : ¬ (saw = false ∨ 3 ≤ parts.length) := by
              rw [hsaw, not_or]
              exact ⟨by simp, by omega⟩
            rw [if_neg hgo, ih (by decide) (by rw [length_append, length_singleton]; omega)]
            exact ⟨g, fs', rfl, hg.digits, .inr hg.nonempty, hg.value, hfs,
              by rw [hip, append_assoc]; rfl⟩
      · rw [if_neg hdot]
        refine iff_of_false nofun ?_
        rintro ⟨f, fs, htext, hf, -⟩
        rcases cons_eq_dotted.mp htext with ⟨f', rfl, -⟩ | ⟨-, h, -⟩
        · exact hdigit (hf ch (mem_cons_self ..))
        · exact hdot h

theorem parseIp_iff {text : List UInt8} {ip : Ip} : parseIp text = some ip ↔
    ∃ f fs, text = dotted f fs ∧ (∀ g ∈ f :: fs, Field g) ∧
      ip.bytes = (f :: fs).map fun g => .ofNat (valueFrom 0 g) := by
  rw [parseIp, parseIpLoop_iff (by decide) (by decide)]
  refine exists₂_congr fun f fs => and_congr_right fun _ => ?_
  rw [forall_mem_cons]
  constructor
  · rintro ⟨hf, hne, hvalue, hfs, hip⟩
    exact ⟨⟨⟨hne.resolve_left nofun, hf, hvalue⟩, hfs⟩, hip⟩
  · rintro ⟨⟨hf, hfs⟩, hip⟩
    exact ⟨hf.digits, .inr hf.nonempty, hf.value, hfs, hip⟩

theorem decimal_spec (n : UInt8) : decimal n ≠ [] ∧ Digits (decimal n) ∧
    valueFrom 0 (decimal n) = n.toNat ∧ itoa n.toNat 10 = decimal n := by
  have hall : ∀ k : Fin 256, decimal (.ofFin k) ≠ [] ∧
      ((decimal (.ofFin k)).all fun ch => decide (48 ≤ ch ∧ ch ≤ 57)) = true ∧
      valueFrom 0 (decimal (.ofFin k)) = k.val ∧ itoa k.val 10 = decimal (.ofFin k) := by
    decide +kernel
  obtain ⟨hne, hdigits, h⟩ := hall n.toFin
  exact ⟨hne, fun ch hch => of_decide_eq_true (all_eq_true.mp hdigits ch hch), h⟩

theorem field_decimal (n : UInt8) : Field (decimal n) := by
  obtain ⟨hne, hdigits, hvalue, -⟩ := decimal_spec n
  exact ⟨hne, hdigits, by rw [hvalue]; exact Nat.le_of_lt_succ n.toNat_lt⟩

theorem ip_text_exact :
    (∀ n : UInt8, decimal n = itoa n.toNat 10) ∧
    (∀ ip : Ip, parseIp (formatIp ip) = some ip) ∧
    ∀ text, (∃ ip, parseIp text = some ip) ↔ ∃ a b c d, Field a ∧ Field b ∧ Field c ∧ Field d ∧
      text = a ++ [46] ++ b ++ [46] ++ c ++ [46] ++ d := by
  have hdotted : ∀ a b c d : List UInt8,
      a ++ [46] ++ b ++ [46] ++ c ++ [46] ++ d = dotted a [b, c, d] := fun a b c d => by simp [dotted]
  refine ⟨fun n => (decimal_spec n).2.2.2.symm, fun ip => ?_, fun text => ⟨?_, ?_⟩⟩
  · refine parseIp_iff.mpr ⟨_, _, hdotted .., ?_, ?_⟩
    · simp [field_decimal]
    · simp [decimal_spec, Ip.bytes]
  · rintro ⟨ip, h⟩
    obtain ⟨f, fs, rfl, hfields, hip⟩ := parseIp_iff.mp h
    have hlen := congrArg List.length hip
    rw [length_map] at hlen
    obtain ⟨b, c, d, rfl⟩ := length_eq_three.mp (Nat.succ.inj hlen).symm
    simp only [forall_mem_cons] at hfields
    obtain ⟨ha, hb, hc, hd, -⟩ := hfields
    exact ⟨f, b, c, d, ha, hb, hc, hd, (hdotted ..).symm⟩
  · rintro ⟨a, b, c, d, ha, hb, hc, hd, rfl⟩
    refine ⟨⟨.ofNat (valueFrom 0 a), .ofNat (valueFrom 0 b), .ofNat (valueFrom 0 c),
      .ofNat (valueFrom 0 d)⟩, parseIp_iff.mpr ⟨_, _, hdotted .., ?_, rfl⟩⟩
    simp [ha, hb, hc, hd]

end DiscouNT.Net
