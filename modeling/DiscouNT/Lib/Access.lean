import Mathlib.Data.List.Basic

/-!
# Lib.Access

Traces of accesses to two buffers, one that is read and one that is filled. A program that logs
its accesses is memory safe on an input when the log is `Confined`; the log of a sequence of steps
is the concatenation of their logs, so confinement is proved piece by piece.

`scan` is a loop over records that a step may end early. `scan_confined` reduces the confinement of
the whole loop to that of its steps, each in the state in which it is reached.
-/

namespace Lib

/-- Bytes `[off, off + len)` of the source read, or of the destination accessed. -/
inductive Access where
  | src (off len : Nat)
  | dst (off len : Nat)
deriving DecidableEq, Repr

/-- No byte outside a source of `n` bytes and a destination of `k` bytes is touched. -/
def Access.Inside (n k : Nat) : Access → Prop
  | .src off len => len = 0 ∨ off + len ≤ n
  | .dst off len => len = 0 ∨ off + len ≤ k

instance (n k : Nat) : (a : Access) → Decidable (a.Inside n k)
  | .src _ _ => inferInstanceAs (Decidable (_ ∨ _))
  | .dst _ _ => inferInstanceAs (Decidable (_ ∨ _))

def Confined (n k : Nat) (t : List Access) : Prop := ∀ a ∈ t, a.Inside n k

instance (n k : Nat) (t : List Access) : Decidable (Confined n k t) :=
  inferInstanceAs (Decidable (∀ a ∈ t, _))

@[simp] theorem confined_nil (n k : Nat) : Confined n k [] := by
  intro a ha; cases ha

@[simp] theorem confined_cons {n k : Nat} {a : Access} {t : List Access} :
    Confined n k (a :: t) ↔ a.Inside n k ∧ Confined n k t := by
  simp [Confined]

@[simp] theorem confined_append {n k : Nat} {t u : List Access} :
    Confined n k (t ++ u) ↔ Confined n k t ∧ Confined n k u := by
  simp only [Confined, List.mem_append]
  constructor
  · intro h; exact ⟨fun a ha => h a (.inl ha), fun a ha => h a (.inr ha)⟩
  · intro h a ha; exact ha.elim (h.1 a) (h.2 a)

theorem inside_src {n k off len : Nat} (h : 0 < len) :
    (Access.src off len).Inside n k ↔ off + len ≤ n := by
  simp only [Access.Inside]; omega

theorem inside_src_lit {n k off len : Nat} :
    (Access.src off (len + 1)).Inside n k ↔ off + (len + 1) ≤ n :=
  inside_src (Nat.succ_pos _)

theorem inside_dst {n k off len : Nat} (h : 0 < len) :
    (Access.dst off len).Inside n k ↔ off + len ≤ k := by
  simp only [Access.Inside]; omega

/-- A property of the `n + 1` indices from `i` on, one index at a time. -/
theorem forall_from_succ {P : Nat → Prop} {i n : Nat} :
    (∀ j, i ≤ j → j < i + (n + 1) → P j) ↔ P i ∧ ∀ j, i + 1 ≤ j → j < i + 1 + n → P j := by
  constructor
  · intro h; exact ⟨h i (by omega) (by omega), fun j h1 h2 => h j (by omega) (by omega)⟩
  · intro h j h1 h2
    by_cases hj : j = i
    · rw [hj]; exact h.1
    · exact h.2 j (by omega) (by omega)

def rounds {α : Type} (step : Nat → α → α) : Nat → Nat → α → α
  | 0, _, a => a
  | n + 1, i, a => rounds step n (i + 1) (step i a)

/-- What round `s` alone sets is as round `s` left it, if there was one. -/
theorem rounds_set {α β : Type} {step : Nat → α → α} (proj : α → β) {s : Nat} {b : β}
    (hset : ∀ a, proj (step s a) = b) {lim : Nat}
    (hkeep : ∀ i < lim, i ≠ s → ∀ a, proj (step i a) = proj a) :
    ∀ {n i : Nat} {a : α}, i + n = lim →
      proj (rounds step n i a) = if i ≤ s ∧ s < lim then b else proj a := by
  intro n
  induction n with
  | zero => intro i a h; rw [rounds, if_neg (by omega)]
  | succ n ih =>
    intro i a h
    rw [rounds, ih (by omega)]
    by_cases his : i = s
    · rw [if_neg (by omega), if_pos (by omega), his, hset]
    · rw [hkeep i (by omega) his]
      by_cases hlt : i ≤ s ∧ s < lim
      · rw [if_pos hlt, if_pos (by omega)]
      · rw [if_neg hlt, if_neg (by omega)]

section Scan

variable {μ σ : Type}

/-- A step's new memory (`none` ends the loop), its accesses and its new state. -/
abbrev Step (μ σ : Type) : Type := Option μ × List Access × σ

def Step.next (s : Step μ σ) : Option σ := s.1.map fun _ => s.2.2

@[simp] theorem Step.next_none (t : List Access) (w : σ) :
    Step.next ((none, t, w) : Step μ σ) = none := rfl

@[simp] theorem Step.next_some (m : μ) (t : List Access) (w : σ) :
    Step.next ((some m, t, w) : Step μ σ) = some w := rfl

def scan (step : Nat → μ → σ → Step μ σ) (stride : Nat) : Nat → Nat → μ → σ → Step μ σ
  | 0, _, m, w => (some m, [], w)
  | n + 1, r, m, w =>
    match step r m w with
    | (none, t, w) => (none, t, w)
    | (some m, t, w) =>
      let rest := scan step stride n (r + stride) m w
      (rest.1, t ++ rest.2.1, rest.2.2)

/-- The state after `n` records, for steps that go on as `next` says. -/
def scanNext (next : Nat → σ → Option σ) (stride : Nat) : Nat → Nat → σ → Option σ
  | 0, _, w => some w
  | n + 1, r, w =>
    match next r w with
    | none => none
    | some w => scanNext next stride n (r + stride) w

/-- Every record that is reached fits, in the state in which it is reached. -/
def ScanFits (fits : Nat → σ → Prop) (next : Nat → σ → Option σ) (stride : Nat) :
    Nat → Nat → σ → Prop
  | 0, _, _ => True
  | n + 1, r, w => fits r w ∧ ∀ w', next r w = some w' → ScanFits fits next stride n (r + stride) w'

variable {step : Nat → μ → σ → Step μ σ} {s : Nat} {next : Nat → σ → Option σ}

theorem scan_next (hnext : ∀ r m w, (step r m w).next = next r w) :
    ∀ {n r : Nat} {m : μ} {w : σ},
      (scan step s n r m w).next = scanNext next s n r w := by
  intro n
  induction n with
  | zero => intro r m w; rfl
  | succ n ih =>
    intro r m w
    rw [scan, scanNext, ← hnext r m w]
    cases step r m w with
    | mk m' rest =>
      cases m' with
      | none => rfl
      | some m' => exact ih

theorem scan_follows {R : σ → σ → Prop} (hrefl : ∀ w, R w w)
    (htrans : ∀ {w w' w''}, R w w' → R w' w'' → R w w'') (hstep : ∀ r m w, R w (step r m w).2.2) :
    ∀ {n r : Nat} {m : μ} {w : σ}, R w (scan step s n r m w).2.2 := by
  intro n
  induction n with
  | zero => intro r m w; exact hrefl w
  | succ n ih =>
    intro r m w
    have h := hstep r m w
    rw [scan]
    rcases hs : step r m w with ⟨m', t, w'⟩
    rw [hs] at h
    cases m' with
    | none => exact h
    | some m' => exact htrans h ih

theorem scan_agrees {step' : Nat → μ → σ → Step μ σ} {R : σ → σ → Prop} {w0 : σ}
    (htrans : ∀ {w w' w''}, R w w' → R w' w'' → R w w'') (hstep : ∀ r m w, R w (step r m w).2.2)
    (heq : ∀ r m w, R w0 w → step' r m w = step r m w) :
    ∀ {n r : Nat} {m : μ} {w : σ}, R w0 w → scan step' s n r m w = scan step s n r m w := by
  intro n
  induction n with
  | zero => intro r m w _; rfl
  | succ n ih =>
    intro r m w hw
    have h := htrans hw (hstep r m w)
    rw [scan, scan, heq r m w hw]
    rcases hs : step r m w with ⟨m', t, w'⟩
    rw [hs] at h
    cases m' with
    | none => rfl
    | some m' =>
      dsimp only
      rw [ih h]

theorem scan_confined {a b : Nat} {fits : Nat → σ → Prop}
    (hnext : ∀ r m w, (step r m w).next = next r w)
    (hfits : ∀ r m w, Confined a b (step r m w).2.1 ↔ fits r w) :
    ∀ {n r : Nat} {m : μ} {w : σ},
      Confined a b (scan step s n r m w).2.1 ↔ ScanFits fits next s n r w := by
  intro n
  induction n with
  | zero => intro r m w; simp [scan, ScanFits]
  | succ n ih =>
    intro r m w
    rw [scan, ScanFits, ← hnext r m w, ← hfits r m w]
    rcases step r m w with ⟨m', t, w'⟩
    cases m' with
    | none => simp
    | some m' => simp [ih]

end Scan

end Lib
