import DiscouNT.Arch

/-!
# Rtl.CountedString

`RtlInitAnsiString`, `RtlInitUnicodeString` and `RtlCopyUnicodeString` of `dlls/ntdll/ntdll.c`.

Lengths are counted in 16 bits and wrap before they are clamped. The copy moves the four bytes at
offset 4, which are the pointer on i386 and padding in front of it elsewhere.
-/

namespace DiscouNT.Rtl

structure CountedString where
  length : Nat
  maximumLength : Nat
  /-- the bytes between the lengths and the pointer, where there are any -/
  padding : Nat
  buffer : Nat
deriving DecidableEq, Repr

def u16 (n : Nat) : Nat := n % 2 ^ 16

/-- The loop over a wide string, with its counter of 16 bits. After `2 ^ 16` rounds the counter is
where it was: `none` is a loop that does not end. -/
def scanUnits (units : Nat → UInt16) : Nat → Nat → Option Nat
  | 0, _ => none
  | rounds + 1, len => if units len = 0 then some len else scanUnits units rounds (u16 (len + 1))

/-- The string at `src`, the null pointer being 0, has `n` characters, which `strlen` counts in 32
bits. -/
def rtlInitAnsiString (src n : Nat) (dst : CountedString) : CountedString :=
  let len := if src ≠ 0 then u16 (u32 n) else 0
  let len := if len > 65534 then 65534 else len
  { dst with length := len, maximumLength := len, buffer := src }

/-- `units i` is the character at `src + 2 * i`. -/
def rtlInitUnicodeString (src : Nat) (units : Nat → UInt16) (dst : CountedString) :
    Option CountedString :=
  (if src ≠ 0 then scanUnits units (2 ^ 16) 0 else some 0).map fun len =>
    let len := u16 (len * 2)
    let len := if len > 65534 then 65534 else len
    { dst with length := len, maximumLength := len, buffer := src }

def rtlCopyUnicodeString (arch : Arch) (dst src : CountedString) : CountedString :=
  match arch with
  | .x86 => { dst with length := src.length, maximumLength := src.length, buffer := src.buffer }
  | .amd64 | .loongarch64 =>
    { dst with length := src.length, maximumLength := src.length, padding := src.padding }

def EndsAt (units : Nat → UInt16) (n : Nat) : Prop := units n = 0 ∧ ∀ i < n, units i ≠ 0

variable {units : Nat → UInt16} {n src : Nat}

theorem scanUnits_some (h : EndsAt units n) : ∀ {rounds len : Nat}, len ≤ n → n < len + rounds →
    n < 2 ^ 16 → scanUnits units rounds len = some n := by
  intro rounds
  induction rounds with
  | zero => intro len h1 h2; omega
  | succ rounds ih =>
    intro len hlen hrounds hn
    rw [scanUnits]
    by_cases heq : len = n
    · rw [if_pos (by rw [heq, h.1]), heq]
    · rw [if_neg (h.2 len (by omega)), u16, Nat.mod_eq_of_lt (by omega)]
      exact ih (by omega) (by omega) hn

theorem scanUnits_none (h : EndsAt units n) (hn : 2 ^ 16 ≤ n) : ∀ {rounds len : Nat},
    len < 2 ^ 16 → scanUnits units rounds len = none := by
  intro rounds
  induction rounds with
  | zero => intro len _; rfl
  | succ rounds ih =>
    intro len hlen
    rw [scanUnits, if_neg (h.2 len (by omega))]
    exact ih (Nat.mod_lt _ (by decide))

/-- What is expected of an initialised string of `bytes` bytes. -/
def Describes (s : CountedString) (src bytes : Nat) : Prop :=
  s.length = min bytes 65534 ∧ s.buffer = src

theorem initUnicode_iff (h : EndsAt units n) (hsrc : src ≠ 0) (dst : CountedString) :
    (∃ s, rtlInitUnicodeString src units dst = some s ∧ Describes s src (2 * n)) ↔
      n ≤ 32767 ∨ n = 65535 := by
  rw [rtlInitUnicodeString, if_pos hsrc]
  by_cases hn : n < 2 ^ 16
  · rw [scanUnits_some h (Nat.zero_le n) (by omega) hn]
    simp only [Option.map_some, Option.some.injEq, exists_eq_left', Describes, and_true]
    generalize hlen : u16 (n * 2) = len
    rw [u16] at hlen
    by_cases hbig : len > 65534
    · rw [if_pos hbig]; omega
    · rw [if_neg hbig]; omega
  · rw [scanUnits_none h (by omega) (by decide)]
    refine iff_of_false ?_ (by omega)
    rintro ⟨s, hs, -⟩
    cases hs

theorem initAnsi_iff (hsrc : src ≠ 0) (n : Nat) (dst : CountedString) :
    Describes (rtlInitAnsiString src n dst) src n ↔ n ≤ 65535 ∨ 65534 ≤ n % 65536 := by
  simp only [rtlInitAnsiString, if_pos hsrc, Describes, and_true]
  generalize hlen : u16 (u32 n) = len
  rw [u16, u32] at hlen
  by_cases hbig : len > 65534
  · rw [if_pos hbig]; omega
  · rw [if_neg hbig]; omega

theorem copy_iff (arch : Arch) (dst src : CountedString) :
    ((rtlCopyUnicodeString arch dst src).length = src.length ∧
      (rtlCopyUnicodeString arch dst src).buffer = src.buffer) ↔
    arch = .x86 ∨ dst.buffer = src.buffer := by
  cases arch <;> simp [rtlCopyUnicodeString]

end DiscouNT.Rtl
