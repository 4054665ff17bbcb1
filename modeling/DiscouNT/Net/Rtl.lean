import DiscouNT.Net.Frame

/-!
# Net.Rtl

The receive ring of the RTL8139: `rtl_poll` in `drivers/net/net.c` from `rtl_init` on.

The card writes the ring on its own, so each pass of the loop finds a buffer of its own contents;
the passes of one call end where the card says that the buffer is empty. `rx_offset` stays a multiple
of 4 in the ring, and the card runs in WRAP mode, where a packet goes on behind the end of the ring.
The space there is for a header with 1516 bytes, and packets of up to 1600 are accepted
(`rtlRun_inside_iff`).
-/

namespace DiscouNT.Net

open Lib Logged

-- `RX_BUF_SIZE`, and what `rtl_init` allocates
def rxBufSize : Nat := 8192
def rxBufferBytes : Nat := rxBufSize + 16 + 1500

structure Rtl where
  ready : Bool
  rxOffset : UInt16
  capr : UInt16
deriving DecidableEq, Repr

/-- `rtl_init`, which gives up without its buffers. -/
def rtlInit (allocated : Bool) : Rtl := ⟨allocated, 0, 0⟩

/-- What the loop touches of the receive buffer: the header at an offset, and the bytes handed to
`net_handle_frame`. -/
inductive RingAccess where
  | header (offset : Nat)
  | frame (offset len : Nat)

def headerStatus (ring : Mem) (offset : UInt16) : Nat := readLE ring offset.toNat 2
def headerLen (ring : Mem) (offset : UInt16) : Nat := readLE ring (offset.toNat + 2) 2

/-- `(status & 1) && packet_len >= 60 && packet_len <= 1600` -/
def Accepted (ring : Mem) (offset : UInt16) : Prop :=
  headerStatus ring offset % 2 = 1 ∧ 60 ≤ headerLen ring offset ∧ headerLen ring offset ≤ 1600

instance (ring : Mem) (offset : UInt16) : Decidable (Accepted ring offset) :=
  inferInstanceAs (Decidable (_ ∧ _ ∧ _))

def nextOffset (offset : UInt16) (len : Nat) : UInt16 :=
  .ofNat ((offset.toNat + len + 4 + 3) / 4 * 4 % rxBufSize)

def Rtl.writeCapr (r : Rtl) : Rtl := { r with capr := r.rxOffset - 0x10 }

/-- The loop of `rtl_poll`, with what the buffer holds in each pass until it is empty. -/
def rtlLoop : List Mem → Rtl → NetState → Logged RingAccess (Rtl × NetState)
  | [], r, s => pure (r, s)
  | ring :: rings, r, s => do
    let len ← .note (.header r.rxOffset.toNat) (headerLen ring r.rxOffset)
    if ¬ Accepted ring r.rxOffset then pure (r.writeCapr, s)
    else
      let packet := r.rxOffset.toNat + 4
      let s ← .note (.frame packet len) (netHandleFrame ⟨fun i => ring (packet + i), len⟩ s).val
      let r := { r with rxOffset := nextOffset r.rxOffset len }
      rtlLoop rings r.writeCapr s

def rtlPoll (rings : List Mem) (r : Rtl) (s : NetState) : Logged RingAccess (Rtl × NetState) :=
  if r.ready = false then pure (r, s) else rtlLoop rings r s

def rtlRun : List (List Mem) → Rtl → NetState → Logged RingAccess (Rtl × NetState)
  | [], r, s => pure (r, s)
  | rings :: polls, r, s => do
    let (r, s) ← rtlPoll rings r s
    rtlRun polls r s

def RingAccess.Inside : RingAccess → Prop
  | .header offset => offset % 4 = 0 ∧ offset < rxBufSize ∧ offset + 4 ≤ rxBufferBytes
  | .frame offset len => offset + len ≤ rxBufferBytes

/-- A packet of this length at this offset: at most 1516 bytes, or far enough from the end. -/
def Room (offset len : Nat) : Prop := len ≤ 1516 ∨ offset + len ≤ rxBufSize + 1512

instance (offset len : Nat) : Decidable (Room offset len) := inferInstanceAs (Decidable (_ ∨ _))

def RoomLoop : List Mem → UInt16 → Prop
  | [], _ => True
  | ring :: rings, offset =>
    Accepted ring offset →
      Room offset.toNat (headerLen ring offset) ∧
        RoomLoop rings (nextOffset offset (headerLen ring offset))

instance decidableRoomLoop : ∀ (rings : List Mem) (offset : UInt16),
    Decidable (RoomLoop rings offset)
  | [], _ => inferInstanceAs (Decidable True)
  | ring :: rings, offset =>
    have := decidableRoomLoop rings (nextOffset offset (headerLen ring offset))
    inferInstanceAs (Decidable (_ → _ ∧ _))

def loopOffset : List Mem → UInt16 → UInt16
  | [], offset => offset
  | ring :: rings, offset =>
    if Accepted ring offset then loopOffset rings (nextOffset offset (headerLen ring offset))
    else offset

def RoomRun : List (List Mem) → UInt16 → Prop
  | [], _ => True
  | rings :: polls, offset => RoomLoop rings offset ∧ RoomRun polls (loopOffset rings offset)

section Offset

variable {offset : UInt16} {len : Nat} {rings : List Mem} {r : Rtl} {s : NetState}

def InRing (offset : UInt16) : Prop := offset.toNat % 4 = 0 ∧ offset.toNat < rxBufSize

theorem nextOffset_toNat (offset : UInt16) (len : Nat) :
    (nextOffset offset len).toNat = (offset.toNat + len + 4 + 3) / 4 * 4 % rxBufSize := by
  rw [nextOffset, UInt16.toNat_ofNat', rxBufSize]
  omega

theorem nextOffset_inRing (offset : UInt16) (len : Nat) : InRing (nextOffset offset len) := by
  rw [InRing, nextOffset_toNat, rxBufSize]
  omega

theorem loopOffset_inRing : ∀ {rings : List Mem} {offset : UInt16}, InRing offset →
    InRing (loopOffset rings offset) := by
  intro rings
  induction rings with
  | nil => exact fun h => h
  | cons ring rings ih =>
    intro offset h
    rw [loopOffset]
    split
    · exact ih (nextOffset_inRing offset _)
    · exact h

theorem rtlLoop_offset : ∀ {rings : List Mem} {r : Rtl} {s : NetState},
    (rtlLoop rings r s).val.1.rxOffset = loopOffset rings r.rxOffset ∧
      (rtlLoop rings r s).val.1.ready = r.ready := by
  intro rings
  induction rings with
  | nil => exact ⟨rfl, rfl⟩
  | cons ring rings ih =>
    intro r s
    rw [rtlLoop, loopOffset, val_bind]
    by_cases hacc : Accepted ring r.rxOffset
    · rw [if_neg (not_not.mpr hacc), if_pos hacc]
      exact ih
    · rw [if_pos hacc, if_neg hacc]
      exact ⟨rfl, rfl⟩

theorem room_iff {offset len : Nat} (h4 : offset % 4 = 0) (hlt : offset < rxBufSize) :
    offset + 4 + len ≤ rxBufferBytes ↔ Room offset len := by
  have hring : rxBufSize = 8192 := rfl
  have hbuffer : rxBufferBytes = 9708 := rfl
  rw [Room, hbuffer, hring]
  rw [hring] at hlt
  omega

theorem frame_inside_iff (h : InRing offset) :
    (RingAccess.frame (offset.toNat + 4) len).Inside ↔ Room offset.toNat len :=
  room_iff h.1 h.2

theorem header_inside (h : InRing offset) : (RingAccess.header offset.toNat).Inside :=
  ⟨h.1, h.2, (room_iff h.1 h.2).mpr (.inl (Nat.zero_le _))⟩

theorem rtlLoop_inside_iff : ∀ {rings : List Mem} {r : Rtl} {s : NetState}, InRing r.rxOffset →
    ((rtlLoop rings r s).All RingAccess.Inside ↔ RoomLoop rings r.rxOffset) := by
  intro rings
  induction rings with
  | nil =>
    intro r s _
    exact iff_of_true (all_pure _) trivial
  | cons ring rings ih =>
    intro r s h
    rw [rtlLoop, RoomLoop, Logged.all_bind, all_note]
    by_cases hacc : Accepted ring r.rxOffset
    · rw [if_neg (not_not.mpr hacc), Logged.all_bind, all_note]
      simp only [header_inside h, true_and, hacc, forall_const]
      exact and_congr (frame_inside_iff h) (ih (nextOffset_inRing r.rxOffset _))
    · rw [if_pos hacc]
      exact iff_of_true ⟨header_inside h, all_pure _⟩ fun hacc' => absurd hacc' hacc

end Offset

theorem rtlRun_inside_of_inRing : ∀ {polls : List (List Mem)} {r : Rtl} {s : NetState},
    r.ready = true → InRing r.rxOffset →
      ((rtlRun polls r s).All RingAccess.Inside ↔ RoomRun polls r.rxOffset) := by
  intro polls
  induction polls with
  | nil =>
    intro r s _ _
    exact iff_of_true (all_pure _) trivial
  | cons rings polls ih =>
    intro r s hready h
    obtain ⟨hoffset, hready'⟩ := @rtlLoop_offset rings r s
    rw [rtlRun, RoomRun, Logged.all_bind, rtlPoll, if_neg (by rw [hready]; decide)]
    refine and_congr (rtlLoop_inside_iff h) ?_
    rw [← hoffset]
    exact ih (hready'.trans hready) (hoffset ▸ loopOffset_inRing h)

theorem rtlInit_inRing : InRing (rtlInit true).rxOffset := ⟨rfl, by decide⟩

/-- All headers and packets of a sequence of calls are in the buffer exactly when there is room for
every packet accepted. -/
theorem rtlRun_inside_iff (polls : List (List Mem)) (s : NetState) :
    (rtlRun polls (rtlInit true) s).All RingAccess.Inside ↔ RoomRun polls 0 :=
  rtlRun_inside_of_inRing rfl rtlInit_inRing

def packets (len : Nat) : Mem := fun a => [1, 0, .ofNat len, .ofNat (len / 256)].getD (a % 4) 0

/-- Six packets that end 4 bytes before the end of the ring, and a seventh of full length. -/
theorem rtlRun_beyond_buffer :
    ¬ ∀ (polls : List (List Mem)) (s : NetState),
      (rtlRun polls (rtlInit true) s).All RingAccess.Inside := by
  intro hall
  have hroom := (rtlRun_inside_of_inRing rfl rtlInit_inRing).mp
    (hall [[packets 1518, packets 1518, packets 1518, packets 1518, packets 1518, packets 564,
      packets 1518]] .initial)
  exact absurd hroom.1 (by decide)

end DiscouNT.Net
