import Mathlib.Tactic.Ring

/-!
# Lib.Bytes

Byte-addressed memory: little-endian loads and stores of any width, and the byte-by-byte forward
copy. A store is read back by a load at the same address and leaves every load at a disjoint
address alone; a forward copy between disjoint ranges moves the source bytes and nothing else.
-/

namespace Lib

open List Function

/-- Memory as a total map from addresses to bytes. -/
abbrev Mem := Nat → UInt8

def readLE (m : Mem) (a : Nat) : Nat → Nat
  | 0 => 0
  | n + 1 => (m a).toNat + 256 * readLE m (a + 1) n

/-- Store the low `n` bytes of `v` at `a`, little end first. -/
def writeLE (m : Mem) (a n v : Nat) : Mem :=
  fun p => if a ≤ p ∧ p < a + n then UInt8.ofNat (v / 256 ^ (p - a)) else m p

def setByte (m : Mem) (a : Nat) (v : UInt8) : Mem := fun p => if p = a then v else m p

/-- `while (n--) *dst++ = *src++;`: bytes are read and stored one at a time, upwards. -/
def copyFwd (m : Mem) (d s : Nat) : Nat → Mem
  | 0 => m
  | n + 1 => copyFwd (setByte m d (m s)) (d + 1) (s + 1) n

def blit (m : Mem) (d : Nat) (m' : Mem) (s n : Nat) : Mem :=
  fun p => if d ≤ p ∧ p < d + n then m' (s + (p - d)) else m p

variable {m : Mem}

theorem readLE_congr {m' : Mem} :
    ∀ {n a : Nat}, (∀ i, i < n → m' (a + i) = m (a + i)) → readLE m' a n = readLE m a n := by
  intro n
  induction n with
  | zero => intro a _; rfl
  | succ n ih =>
    intro a h
    have h0 : m' a = m a := by simpa using h 0 (by omega)
    have hrest : readLE m' (a + 1) n = readLE m (a + 1) n := by
      apply ih
      intro i hi
      have := h (i + 1) (by omega)
      rwa [show a + (i + 1) = a + 1 + i by omega] at this
    simp only [readLE, h0, hrest]

theorem readLE_lt (m : Mem) : ∀ (n a : Nat), readLE m a n < 256 ^ n := by
  intro n
  induction n with
  | zero => intro a; simp [readLE]
  | succ n ih =>
    intro a
    have hb : (m a).toNat < 256 := (m a).toNat_lt
    have hr := ih (a + 1)
    simp only [readLE, Nat.pow_succ]
    omega

variable {n p a : Nat}

theorem writeLE_out {v : Nat} (h : p < a ∨ a + n ≤ p) :
    writeLE m a n v p = m p := by
  simp only [writeLE]
  rw [if_neg (by omega)]

theorem writeLE_in {v i : Nat} (h : i < n) :
    writeLE m a n v (a + i) = UInt8.ofNat (v / 256 ^ i) := by
  simp only [writeLE]
  rw [if_pos (by omega), Nat.add_sub_cancel_left]

/-- A memory whose `n` bytes at `a` are the digits of `v` reads as `v`. -/
theorem readLE_digits :
    ∀ {n a v : Nat}, (∀ i, i < n → m (a + i) = UInt8.ofNat (v / 256 ^ i)) →
      readLE m a n = v % 256 ^ n := by
  intro n
  induction n with
  | zero => intro a v _; simp [readLE, Nat.mod_one]
  | succ n ih =>
    intro a v h
    have h0 : (m a).toNat = v % 256 := by
      have := h 0 (by omega)
      rw [Nat.add_zero, Nat.pow_zero, Nat.div_one] at this
      rw [this, UInt8.toNat_ofNat']
    have hrest : readLE m (a + 1) n = v / 256 % 256 ^ n := by
      apply ih
      intro i hi
      have := h (i + 1) (by omega)
      rw [show a + (i + 1) = a + 1 + i by omega, Nat.pow_succ, Nat.mul_comm,
        ← Nat.div_div_eq_div_mul] at this
      exact this
    simp only [readLE, h0, hrest]
    rw [Nat.pow_succ, Nat.mul_comm (256 ^ n) 256, Nat.mod_mul]

theorem readLE_writeLE_same (m : Mem) (a n v : Nat) :
    readLE (writeLE m a n v) a n = v % 256 ^ n :=
  readLE_digits fun _ hi => writeLE_in hi

theorem readLE_writeLE_other {v b k : Nat} (h : b + k ≤ a ∨ a + n ≤ b) :
    readLE (writeLE m a n v) b k = readLE m b k :=
  readLE_congr fun i hi => writeLE_out (by omega)

theorem setByte_out {v : UInt8} (h : p ≠ a) : setByte m a v p = m p := by
  simp [setByte, h]

@[simp] theorem setByte_same (m : Mem) (a : Nat) (v : UInt8) : setByte m a v a = v := by
  simp [setByte]

theorem copyFwd_out : ∀ {n : Nat} {m : Mem} {d s p : Nat}, (p < d ∨ d + n ≤ p) →
    copyFwd m d s n p = m p := by
  intro n
  induction n with
  | zero => intro m d s p _; rfl
  | succ n ih =>
    intro m d s p h
    rw [copyFwd, ih (by omega), setByte_out (by omega)]

/-- A destination that is not inside the source, behind its start, gets the source bytes. -/
theorem copyFwd_in : ∀ {n : Nat} {m : Mem} {d s : Nat}, (d ≤ s ∨ s + n ≤ d) →
    ∀ i, i < n → copyFwd m d s n (d + i) = m (s + i) := by
  intro n
  induction n with
  | zero => intro m d s _ i hi; omega
  | succ n ih =>
    intro m d s h i hi
    rw [copyFwd]
    cases i with
    | zero => rw [copyFwd_out (by omega), Nat.add_zero, Nat.add_zero, setByte_same]
    | succ i =>
      rw [show d + (i + 1) = d + 1 + i by omega, ih (by omega) i (by omega),
        setByte_out (by omega), show s + 1 + i = s + (i + 1) by omega]

theorem blit_congr {buf m' : Mem} {d s s' k : Nat} (h : ∀ i < k, m (s + i) = m' (s' + i)) :
    blit buf d m s k = blit buf d m' s' k := by
  funext p
  simp only [blit]
  split
  · rename_i hp
    exact h (p - d) (by omega)
  · rfl

def storeBytes (m : Mem) (a : Nat) (l : List UInt8) : Mem :=
  fun p => if a ≤ p then (l[p - a]?).getD (m p) else m p

def loadBytes (m : Mem) (a n : Nat) : List UInt8 := (List.range' a n).map m

@[simp] theorem loadBytes_length (m : Mem) (a n : Nat) : (loadBytes m a n).length = n := by
  simp [loadBytes]

variable {l : List UInt8}

theorem storeBytes_out (h : p < a ∨ a + l.length ≤ p) :
    storeBytes m a l p = m p := by
  simp only [storeBytes]
  split
  · rw [getElem?_eq_none (by omega)]
    rfl
  · rfl

theorem storeBytes_in {i : Nat} (h : i < l.length) :
    storeBytes m a l (a + i) = l[i] := by
  simp only [storeBytes]
  rw [if_pos (by omega), Nat.add_sub_cancel_left, getElem?_eq_getElem h]
  rfl

theorem storeBytes_nil (m : Mem) (a : Nat) : storeBytes m a [] = m := by
  funext p
  exact storeBytes_out (by simp; omega)

theorem storeBytes_singleton (m : Mem) (a : Nat) (b : UInt8) :
    storeBytes m a [b] = update m a b := by
  funext p
  by_cases hp : p = a
  · subst hp
    rw [update_self]
    exact storeBytes_in (i := 0) (by simp)
  · rw [update_of_ne hp]
    exact storeBytes_out (by simp; omega)

theorem storeBytes_append (m : Mem) (a : Nat) (l l' : List UInt8) :
    storeBytes (storeBytes m a l) (a + l.length) l' = storeBytes m a (l ++ l') := by
  funext p
  simp only [storeBytes]
  by_cases h : a ≤ p
  · by_cases h' : a + l.length ≤ p
    · rw [if_pos h, if_pos h', if_pos h, getElem?_append_right (by omega),
        getElem?_eq_none (l := l) (by omega), Nat.sub_sub]
      rfl
    · rw [if_pos h, if_neg h', if_pos h, getElem?_append_left (by omega)]
  · rw [if_neg h, if_neg h, if_neg (by omega)]

theorem loadBytes_add (m : Mem) (a k n : Nat) :
    loadBytes m a (k + n) = loadBytes m a k ++ loadBytes m (a + k) n := by
  simp only [loadBytes, ← map_append]
  rw [range'_append_1]

theorem loadBytes_storeBytes_other {b : Nat}
    (h : b + n ≤ a ∨ a + l.length ≤ b) : loadBytes (storeBytes m a l) b n = loadBytes m b n := by
  apply map_congr_left
  intro p hp
  rw [mem_range'_1] at hp
  exact storeBytes_out (by omega)

theorem loadBytes_storeBytes_same (m : Mem) (a : Nat) (l : List UInt8) :
    loadBytes (storeBytes m a l) a l.length = l := by
  apply ext_getElem (by simp)
  intro i _ hi
  simp only [loadBytes, getElem_map, getElem_range', Nat.one_mul]
  exact storeBytes_in hi

/-- A memory of zeros but for some segments, each at its address. -/
def ofSegments (segments : List (Nat × List UInt8)) : Mem := fun p =>
  (segments.findSome? fun s => if s.1 ≤ p then s.2[p - s.1]? else none).getD 0

theorem ofSegments_zero {segments : List (Nat × List UInt8)}
    (h : ∀ s ∈ segments, p < s.1 ∨ s.1 + s.2.length ≤ p) : ofSegments segments p = 0 := by
  have hnone : (segments.findSome? fun s => if s.1 ≤ p then s.2[p - s.1]? else none) = none := by
    rw [findSome?_eq_none_iff]
    intro s hs
    rcases h s hs with hlt | hle
    · rw [if_neg (by omega)]
    · rw [if_pos (by omega), getElem?_eq_none (by omega)]
  rw [ofSegments, hnone]
  rfl

end Lib
