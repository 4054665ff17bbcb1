import DiscouNT.Lib.Bytes

/-!
# Lib.Raster

Rasters: cells numbered row by row, clipped spans and the boxes they cut out, and what a loop
writes. `Paints K v f g` is the one relation on contents: `g` holds `v` on `K` and what `f` held
everywhere else. It composes over sequences (`Paints.trans`) and over counted loops
(`Paints.fold`), so a drawing routine is described by the cells of its box and nothing else.
-/

namespace Lib

open List

/-- A run of integers: where it starts and how many it holds, none when that is not positive. -/
structure Span where
  start : Int
  len : Int
deriving DecidableEq, Repr

namespace Span

instance : Membership Int Span := ⟨fun s p => s.start ≤ p ∧ p < s.start + s.len⟩

instance (s : Span) (p : Int) : Decidable (p ∈ s) :=
  inferInstanceAs (Decidable (s.start ≤ p ∧ p < s.start + s.len))

theorem mem_def {s : Span} {p : Int} : p ∈ s ↔ s.start ≤ p ∧ p < s.start + s.len := Iff.rfl

theorem mem_mk {x n p : Int} : p ∈ Span.mk x n ↔ x ≤ p ∧ p < x + n := Iff.rfl

def clipLow (s : Span) (lo : Int) : Span :=
  if s.start < lo then ⟨lo, s.len - (lo - s.start)⟩ else s

def clipHigh (s : Span) (hi : Int) : Span :=
  if s.start + s.len > hi then ⟨s.start, hi - s.start⟩ else s

@[simp] theorem mem_clipLow {s : Span} {lo p : Int} : p ∈ s.clipLow lo ↔ p ∈ s ∧ lo ≤ p := by
  simp only [clipLow, mem_def]
  split
  · simp only
    omega
  · omega

@[simp] theorem mem_clipHigh {s : Span} {hi p : Int} : p ∈ s.clipHigh hi ↔ p ∈ s ∧ p < hi := by
  simp only [clipHigh, mem_def]
  split
  · simp only
    omega
  · omega

theorem start_clipLow (s : Span) (lo : Int) : lo ≤ (s.clipLow lo).start := by
  simp only [clipLow]
  split
  · exact Int.le_refl lo
  · omega

@[simp] theorem start_clipHigh (s : Span) (hi : Int) : (s.clipHigh hi).start = s.start := by
  simp only [clipHigh]
  split <;> rfl

theorem end_clipHigh (s : Span) (hi : Int) :
    (s.clipHigh hi).start + (s.clipHigh hi).len ≤ hi := by
  simp only [clipHigh]
  split
  · simp only
    omega
  · omega

theorem not_mem_of_len {s : Span} (h : s.len ≤ 0) (p : Int) : p ∉ s := by
  rw [mem_def]
  omega

theorem mem_iff_exists {s : Span} {p : Int} :
    p ∈ s ↔ ∃ i : Nat, i < s.len.toNat ∧ p ∈ Span.mk (s.start + i) 1 := by
  simp only [mem_def]
  constructor
  · intro hp
    exact ⟨(p - s.start).toNat, by omega, by omega, by omega⟩
  · rintro ⟨i, hi, hp⟩
    omega

end Span

/-- The cells of a raster `w` wide with their column in `xs` and their row in `ys`. -/
def box (w : Nat) (xs ys : Span) : Set Nat :=
  {k | ((k % w : Nat) : Int) ∈ xs ∧ ((k / w : Nat) : Int) ∈ ys}

theorem mem_box {w k : Nat} {xs ys : Span} :
    k ∈ box w xs ys ↔ ((k % w : Nat) : Int) ∈ xs ∧ ((k / w : Nat) : Int) ∈ ys := Iff.rfl

theorem cell_col {w x : Nat} (hx : x < w) (y : Nat) : (y * w + x) % w = x := by
  rw [Nat.add_comm, Nat.add_mul_mod_self_right, Nat.mod_eq_of_lt hx]

theorem cell_row {w x : Nat} (hx : x < w) (y : Nat) : (y * w + x) / w = y := by
  rw [Nat.add_comm, Nat.add_mul_div_right x y (by omega), Nat.div_eq_of_lt hx, Nat.zero_add]

theorem cell_lt {w h x y : Nat} (hx : x < w) (hy : y < h) : y * w + x < h * w := by
  have : (y + 1) * w ≤ h * w := Nat.mul_le_mul_right w (by omega)
  rw [Nat.add_mul] at this
  omega

theorem cell_self (w k : Nat) : k / w * w + k % w = k := by
  rw [Nat.mul_comm]
  exact Nat.div_add_mod k w

/-- The runs of `n` cells at column `x` of `h` rows from `y` on make up a box. -/
theorem mem_rows_iff {w x y n h k : Nat} (hn : x + n ≤ w) :
    (∃ row < h, k ∈ Set.Ico ((y + row) * w + x) ((y + row) * w + x + n)) ↔
      k ∈ box w ⟨x, n⟩ ⟨y, h⟩ := by
  simp only [mem_box, Span.mem_def, Set.mem_Ico]
  constructor
  · rintro ⟨row, hrow, hlo, hhi⟩
    obtain ⟨c, rfl⟩ := Nat.exists_eq_add_of_le hlo
    rw [Nat.add_assoc, cell_col (by omega), cell_row (by omega)]
    omega
  · rintro ⟨⟨hx, hx'⟩, hy, hy'⟩
    refine ⟨k / w - y, by omega, ?_⟩
    rw [show y + (k / w - y) = k / w by omega]
    have hk := cell_self w k
    omega

section Paints

variable {ι β σ : Type} {K K' : Set ι} {v f g h : ι → β}

structure Paints (K : Set ι) (v f g : ι → β) : Prop where
  on : ∀ k ∈ K, g k = v k
  off : ∀ k, k ∉ K → g k = f k

theorem Paints.refl (v f : ι → β) : Paints ∅ v f f :=
  ⟨fun _ hk => absurd hk (by simp), fun _ _ => rfl⟩

theorem Paints.trans (h1 : Paints K v f g) (h2 : Paints K' v g h) : Paints (K ∪ K') v f h where
  on k hk := by
    by_cases hk' : k ∈ K'
    · exact h2.on k hk'
    · rw [h2.off k hk']
      exact h1.on k (hk.resolve_right hk')
  off k hk := by
    rw [h2.off k fun h' => hk (.inr h'), h1.off k fun h' => hk (.inl h')]

theorem Paints.congr (hp : Paints K v f g) (hK : ∀ k, k ∈ K ↔ k ∈ K') : Paints K' v f g := by
  have : K = K' := Set.ext hK
  rwa [← this]

/-- Painting changes nothing on `O` exactly when what it paints there is there already. -/
theorem Paints.same_iff (hp : Paints K v f g) (O : Set ι) :
    (∀ k ∈ O, g k = f k) ↔ ∀ k ∈ K, k ∈ O → f k = v k := by
  constructor
  · intro hsame k hk hO
    rw [← hsame k hO, hp.on k hk]
  · intro hthere k hO
    by_cases hk : k ∈ K
    · rw [hp.on k hk, hthere k hk hO]
    · exact hp.off k hk

theorem Paints.update [DecidableEq ι] {k : ι} {b : β} (hv : v k = b) :
    Paints {k} v f (Function.update f k b) where
  on k' hk' := by
    obtain rfl : k' = k := hk'
    rw [Function.update_self, hv]
  off k' hk' := Function.update_of_ne hk' b f

theorem Paints.fold (read : σ → ι → β) {n : Nat} {body : Nat → σ → σ} {K : Nat → Set ι}
    (hbody : ∀ i < n, ∀ s, Paints (K i) v (read s) (read (body i s))) (s : σ) :
    Paints {k | ∃ i < n, k ∈ K i} v (read s) (read (n.fold (fun i _ s => body i s) s)) := by
  induction n with
  | zero =>
    refine (Paints.refl v (read s)).congr fun k => ?_
    simp
  | succ n ih =>
    rw [Nat.fold_succ]
    have hrest := ih fun i hi => hbody i (by omega)
    refine (hrest.trans (hbody n (by omega) _)).congr fun k => ?_
    constructor
    · rintro (⟨i, hi, hk⟩ | hk)
      · exact ⟨i, by omega, hk⟩
      · exact ⟨n, by omega, hk⟩
    · rintro ⟨i, hi, hk⟩
      by_cases hin : i = n
      · exact .inr (hin ▸ hk)
      · exact .inl ⟨i, by omega, hk⟩

/-- Write `h` rows of `n` cells, each from where `start` says. -/
def setRows (a : Nat → β) (start : Nat → Nat) (n h : Nat) (v : Nat → Nat → β) : Nat → β :=
  h.fold (fun row _ a =>
    n.fold (fun col _ a => Function.update a (start row + col) (v row col)) a) a

theorem setRows_paints {a v' : Nat → β} {v : Nat → Nat → β} {w x y n h : Nat} (hn : x + n ≤ w)
    (hv : ∀ row < h, ∀ col < n, v' ((y + row) * w + x + col) = v row col) :
    Paints (box w ⟨x, n⟩ ⟨y, h⟩) v' a (setRows a (fun row => (y + row) * w + x) n h v) := by
  have hrow : ∀ row < h, ∀ a : Nat → β,
      Paints (Set.Ico ((y + row) * w + x) ((y + row) * w + x + n)) v' a
        (n.fold (fun col _ a => Function.update a ((y + row) * w + x + col) (v row col)) a) := by
    intro row hrow a
    refine (Paints.fold id (fun col hcol a => Paints.update (hv row hrow col hcol)) a).congr
      fun k => ?_
    constructor
    · rintro ⟨col, hcol, rfl⟩
      exact ⟨Nat.le_add_right _ col, Nat.add_lt_add_left hcol _⟩
    · rintro ⟨hlo, hhi⟩
      refine ⟨k - ((y + row) * w + x), by omega, ?_⟩
      rw [Set.mem_singleton_iff]
      omega
  exact (Paints.fold id hrow a).congr fun k => mem_rows_iff hn

end Paints

section Pixels

variable {B : Nat} {m : Mem} {v : Nat → List UInt8}

def pixelAt (B : Nat) (m : Mem) (i : Nat) : List UInt8 := loadBytes m (i * B) B

theorem storeBytes_paints {i : Nat} {l : List UInt8} (hl : l.length = B) (hv : v i = l) :
    Paints {i} v (pixelAt B m) (pixelAt B (storeBytes m (i * B) l)) where
  on k hk := by
    obtain rfl : k = i := hk
    subst hl
    rw [pixelAt, loadBytes_storeBytes_same, hv]
  off k hk := by
    refine loadBytes_storeBytes_other ?_
    rcases Nat.lt_or_gt_of_ne hk with hlt | hgt
    · have : (k + 1) * B ≤ i * B := Nat.mul_le_mul_right B hlt
      rw [Nat.add_mul] at this
      omega
    · have : (i + 1) * B ≤ k * B := Nat.mul_le_mul_right B hgt
      rw [Nat.add_mul] at this
      omega

/-- A copy of `n` pixels in one block is as good as `n` copies. -/
theorem storeBytes_flatMap_paints {i n : Nat} {l : Nat → List UInt8} (hl : ∀ j, (l j).length = B)
    (hv : ∀ j < n, v (i + j) = l j) :
    Paints (Set.Ico i (i + n)) v (pixelAt B m)
      (pixelAt B (storeBytes m (i * B) ((List.range n).flatMap l))) := by
  induction n with
  | zero =>
    rw [range_zero, flatMap_nil, storeBytes_nil]
    refine (Paints.refl v _).congr fun k => ?_
    simp
  | succ n ih =>
    have hlen : ((List.range n).flatMap l).length = n * B := by
      simp only [length_flatMap, hl, map_const', length_range, sum_replicate_nat]
    rw [range_succ, flatMap_append, flatMap_singleton, ← storeBytes_append, hlen, ← Nat.add_mul]
    refine ((ih fun j hj => hv j (by omega)).trans
      (storeBytes_paints (hl n) (hv n (by omega)))).congr fun k => ?_
    simp only [Set.mem_union, Set.mem_Ico, Set.mem_singleton_iff]
    omega

end Pixels

end Lib
