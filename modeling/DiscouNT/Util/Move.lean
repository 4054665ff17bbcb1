import DiscouNT.Lib.Bytes

/-!
# Util.Move

The three routines that move memory: `memmove` of `kernel/core/util.c`, `memmove` of
`dlls/kernel32/kernel32.c` and `RtlMoveMemory` of `dlls/ntdll/ntdll.c`. The last one is `memcpy`, so
it repeats the start of a source that it moves up by less than its length.

`blit m d m s n` is the memory `m` with the bytes `[s, s + n)` it had at `d`.
-/

namespace DiscouNT.Util

open Lib

def copyBwd (m : Mem) (d s : Nat) : Nat → Mem
  | 0 => m
  | n + 1 => copyBwd (setByte m (d + n) (m (s + n))) d s n

def memcpy (m : Mem) (d s n : Nat) : Mem := copyFwd m d s n

def memmove (m : Mem) (d s n : Nat) : Mem :=
  if d = s ∨ n = 0 then m
  else if d < s ∨ d ≥ s + n then copyFwd m d s n
  else copyBwd m d s n

def k32Memmove (m : Mem) (d s n : Nat) : Mem :=
  if d = s then m
  else if d < s then copyFwd m d s n
  else copyBwd m d s n

def rtlMoveMemory (m : Mem) (d s n : Nat) : Mem := memcpy m d s n

variable {m : Mem} {d s n k : Nat}

theorem copyFwd_blit (h : d ≤ s ∨ s + n ≤ d) : copyFwd m d s n = blit m d m s n := by
  funext p
  rw [blit]
  split
  · rename_i hp
    have hin := copyFwd_in (m := m) h (p - d) (by omega)
    rwa [Nat.add_sub_cancel' hp.1] at hin
  · exact copyFwd_out (by omega)

theorem copyBwd_blit (h : s ≤ d) : copyBwd m d s n = blit m d m s n := by
  induction n generalizing m with
  | zero =>
    funext p
    rw [copyBwd, blit, if_neg (by omega)]
  | succ n ih =>
    rw [copyBwd, ih]
    funext p
    rw [blit, blit]
    by_cases hp : d ≤ p ∧ p < d + n
    · rw [if_pos hp, if_pos (by omega), setByte_out (by omega)]
    · rw [if_neg hp]
      by_cases hlast : p = d + n
      · rw [if_pos (by omega), hlast, setByte_same, Nat.add_sub_cancel_left]
      · rw [if_neg (by omega), setByte_out hlast]

theorem blit_self : blit m d m d n = m := by
  funext p
  rw [blit]
  split
  · rw [Nat.add_sub_cancel' (by omega)]
  · rfl

theorem memmove_blit : memmove m d s n = blit m d m s n := by
  rw [memmove]
  split_ifs with hsame hup
  · rcases hsame with rfl | rfl
    · exact blit_self.symm
    · funext p
      rw [blit, if_neg (by omega)]
  · exact copyFwd_blit (by omega)
  · exact copyBwd_blit (by omega)

theorem k32Memmove_blit : k32Memmove m d s n = blit m d m s n := by
  rw [k32Memmove]
  split_ifs with hsame hdown
  · rw [hsame, blit_self]
  · exact copyFwd_blit (by omega)
  · exact copyBwd_blit (by omega)

theorem copyFwd_succ : copyFwd m d s (n + 1) =
    setByte (copyFwd m d s n) (d + n) (copyFwd m d s n (s + n)) := by
  induction n generalizing m d s with
  | zero => rfl
  | succ n ih =>
    rw [copyFwd, ih, Nat.add_right_comm, Nat.add_right_comm s, Nat.add_assoc d, Nat.add_assoc s]
    rfl

/-- Moved up by `k`, the bytes are right exactly when they repeat after `k`. -/
theorem copyFwd_blit_iff (hk : 0 < k) : copyFwd m (s + k) s n = blit m (s + k) m s n ↔
    ∀ i, i + k < n → m (s + i + k) = m (s + i) := by
  induction n with
  | zero => exact iff_of_true (funext fun p => (if_neg (by omega)).symm) fun i hi => by omega
  | succ n ih =>
    -- the bytes before the last one, and the last one
    have hsplit : copyFwd m (s + k) s (n + 1) = blit m (s + k) m s (n + 1) ↔
        copyFwd m (s + k) s n = blit m (s + k) m s n ∧
          copyFwd m (s + k) s n (s + n) = m (s + n) := by
      rw [copyFwd_succ]
      constructor
      · intro h
        refine ⟨funext fun p => ?_, ?_⟩
        · have hp := congrFun h p
          by_cases hlast : p = s + k + n
          · rw [hlast, copyFwd_out (by omega), blit, if_neg (by omega)]
          · rw [setByte_out hlast, blit] at hp
            rw [hp, blit]
            exact if_congr (by omega) rfl rfl
        · have hp := congrFun h (s + k + n)
          rwa [setByte_same, blit, if_pos (by omega), Nat.add_sub_cancel_left] at hp
      · rintro ⟨hrest, hlast⟩
        funext p
        by_cases hp : p = s + k + n
        · rw [hp, setByte_same, hlast, blit, if_pos (by omega), Nat.add_sub_cancel_left]
        · rw [setByte_out hp, hrest, blit, blit]
          exact if_congr (by omega) rfl rfl
    rw [hsplit]
    constructor
    · rintro ⟨hrest, hlast⟩ i hi
      by_cases hin : i + k < n
      · exact ih.mp hrest i hin
      · obtain rfl : n = i + k := by omega
        rw [hrest, blit, if_pos (by omega)] at hlast
        rw [Nat.add_assoc, ← hlast]
        exact congrArg m (by omega)
    · intro h
      have hrest := ih.mpr fun i hi => h i (by omega)
      refine ⟨hrest, ?_⟩
      rw [hrest, blit]
      split
      · have hi := h (n - k) (by omega)
        rw [Nat.add_assoc, Nat.sub_add_cancel (by omega)] at hi
        rw [hi]
        exact congrArg m (by omega)
      · rfl

theorem moves_iff (m : Mem) (d s n : Nat) :
    (memmove m d s n = blit m d m s n ∧ k32Memmove m d s n = blit m d m s n ∧
      rtlMoveMemory m d s n = blit m d m s n) ↔
    (s < d → d < s + n → ∀ i, i + (d - s) < n → m (s + i + (d - s)) = m (s + i)) := by
  rw [and_iff_right memmove_blit, and_iff_right k32Memmove_blit, rtlMoveMemory, memcpy]
  by_cases hup : s < d ∧ d < s + n
  · obtain ⟨k, rfl⟩ := Nat.exists_eq_add_of_lt hup.1
    have hk : s + k + 1 - s = k + 1 := by omega
    rw [hk, Nat.add_assoc, copyFwd_blit_iff (Nat.succ_pos k)]
    exact ⟨fun h _ _ => h, fun h => h (by omega) (by omega)⟩
  · exact iff_of_true (copyFwd_blit (by omega)) fun h1 h2 => absurd ⟨h1, h2⟩ hup

/-- The bytes 1, 2, 3 moved up by one come out as 1, 1, 1. -/
theorem rtlMoveMemory_repeats :
    let m : Mem := ofSegments [(0, [1, 2, 3])]
    rtlMoveMemory m 1 0 3 3 = 1 ∧ blit m 1 m 0 3 3 = 3 := by
  decide

end DiscouNT.Util
