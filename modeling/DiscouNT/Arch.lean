import Mathlib.Algebra.Ring.Nat

/-!
# Arch

The three targets the kernel is built for and the fixed-width arithmetic of its C code. Machine
integers are naturals; every operation that can wrap reduces its result explicitly.
-/

namespace DiscouNT

inductive Arch where
  | x86
  | amd64
  | loongarch64
deriving DecidableEq, Repr

/-- `sizeof(void *)`, which is also `sizeof(size_t)` and `sizeof(uintptr_t)`. -/
def Arch.ptrBytes : Arch → Nat
  | .x86 => 4
  | .amd64 => 8
  | .loongarch64 => 8

-- conversions to `uint32_t`, `uint64_t` and to `uintptr_t` (which is also `size_t`)
def u32 (n : Nat) : Nat := n % 2 ^ 32
def u64 (n : Nat) : Nat := n % 2 ^ 64
def uptr (arch : Arch) (n : Nat) : Nat := n % 256 ^ arch.ptrBytes

-- `a - b` in `uint32_t` and `uint64_t`, for operands that are in range
def sub32 (a b : Nat) : Nat := (a + 2 ^ 32 - b) % 2 ^ 32
def sub64 (a b : Nat) : Nat := (a + 2 ^ 64 - b) % 2 ^ 64

theorem u32_of_lt {n : Nat} (h : n < 2 ^ 32) : u32 n = n := Nat.mod_eq_of_lt h

theorem u32_lt (n : Nat) : u32 n < 2 ^ 32 := Nat.mod_lt _ (by decide)

theorem le_pow_ptrBytes (arch : Arch) : 2 ^ 32 ≤ 256 ^ arch.ptrBytes := by
  cases arch <;> decide

theorem uptr_of_lt {arch : Arch} {n : Nat} (h : n < 2 ^ 32) : uptr arch n = n :=
  Nat.mod_eq_of_lt (Nat.lt_of_lt_of_le h (le_pow_ptrBytes arch))

theorem sub32_of_le {a b : Nat} (ha : a < 2 ^ 32) (h : b ≤ a) : sub32 a b = a - b := by
  unfold sub32
  omega

end DiscouNT
