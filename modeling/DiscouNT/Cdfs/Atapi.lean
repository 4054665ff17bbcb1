import DiscouNT.Arch
import Mathlib.Data.List.Basic

/-!
# Cdfs.Atapi

`atapi_read_sectors_internal` of `drivers/cdfs/cdfs.c` on the port level.

The drive may do anything: `Registers` are the values that successive reads of its registers
return, one stream for each register. What the driver does at the ports is kept in a log, the
latest access first, and what it stores in the buffer in a list. The polling loops count their
timeout down after the test, so one that runs out leaves it at -1 (`poll`).
-/

namespace DiscouNT.Cdfs

/-- What the registers of the drive return when they are read. The error register and the interrupt
reason are read once and only printed. -/
structure Registers where
  status : Nat → UInt8
  error : UInt8
  reason : UInt8
  byteCountLow : Nat → UInt8
  byteCountHigh : Nat → UInt8
  data : Nat → UInt16

inductive Access where
  | inb (port : Nat) (value : UInt8)
  | inw (port : Nat) (value : UInt16)
  | outb (port : Nat) (value : UInt8)
  | outw (port : Nat) (value : UInt16)
deriving DecidableEq, Repr

/-- `((uint16_t *)(buffer + offset))[0] = word;` -/
structure Store where
  offset : Nat
  word : UInt16
deriving DecidableEq, Repr

/-- The accesses and stores so far, and how often the registers were read. -/
structure Exchange where
  log : List Access
  stores : List Store
  statusReads : Nat
  countReads : Nat
  dataReads : Nat

def isError (status : UInt8) : Bool := status &&& 0x01 != 0
def isDrq (status : UInt8) : Bool := status &&& 0x08 != 0
def isReady (status : UInt8) : Bool := status &&& 0x40 != 0
def isBusy (status : UInt8) : Bool := status &&& 0x80 != 0

/-- What a polling loop does with a status: it polls again, leaves the loop, or the function
returns 0. -/
inductive Verdict where
  | again
  | leave
  | fail
deriving DecidableEq, Repr

/-- The wait for `!BSY && DRDY`. -/
def readyVerdict (status : UInt8) : Verdict :=
  if !isBusy status && isReady status then .leave else .again

def drqVerdict (status : UInt8) : Verdict :=
  if isError status then .fail else if isDrq status then .leave else .again

def dataVerdict (status : UInt8) : Verdict :=
  if isError status then .fail
  else if isDrq status then .leave
  else if !isBusy status then .leave
  else .again

section Drive

variable (r : Registers) (base : Nat)

def Exchange.outb (port : Nat) (value : UInt8) (x : Exchange) : Exchange :=
  { x with log := .outb port value :: x.log }

def Exchange.inb (port : Nat) (value : UInt8) (x : Exchange) : Exchange :=
  { x with log := .inb port value :: x.log }

def Exchange.readStatus (x : Exchange) : Exchange :=
  { x with
    log := .inb (base + 7) (r.status x.statusReads) :: x.log
    statusReads := x.statusReads + 1 }

def Exchange.readByteCount (x : Exchange) : Exchange :=
  { x with
    log := .inb (base + 4) (r.byteCountLow x.countReads) ::
      .inb (base + 5) (r.byteCountHigh x.countReads) :: x.log
    countReads := x.countReads + 1 }

def Exchange.storeData (offset : Nat) (x : Exchange) : Exchange :=
  { x with
    log := .inw base (r.data x.dataReads) :: x.log
    stores := ⟨offset, r.data x.dataReads⟩ :: x.stores
    dataReads := x.dataReads + 1 }

/-- A polling loop with that many polls left: the timeout it leaves, or `none` if the function is to
return 0. -/
def poll (verdict : UInt8 → Verdict) : Nat → Exchange → Option Int × Exchange
  | 0, x => (some (-1), x)
  | timeout + 1, x =>
    match verdict (r.status x.statusReads) with
    | .again => poll verdict timeout (x.readStatus r base)
    | .leave => (some timeout, x.readStatus r base)
    | .fail => (none, x.readStatus r base)

def packet (lba : UInt32) (sectors : UInt8) : List UInt8 :=
  [0xA8, 0x00, (lba >>> 24).toUInt8, (lba >>> 16).toUInt8, (lba >>> 8).toUInt8, lba.toUInt8,
    0x00, 0x00, 0x00, sectors, 0x00, 0x00]

def words : List UInt8 → List UInt16
  | low :: high :: bytes => (low.toUInt16 ||| high.toUInt16 <<< 8) :: words bytes
  | _ => []

def selectDrive (slave : Bool) : Exchange :=
  Exchange.outb (base + 6) (if slave then 0xB0 else 0xA0) ⟨[], [], 0, 0, 0⟩

def sendCommand (x : Exchange) : Exchange :=
  (((x.outb (base + 1) 0x00).outb (base + 4) 0x00).outb (base + 5) 0x08).outb (base + 7) 0xA0

/-- The interrupt reason is read and the packet is written. -/
def sendPacket (lba : UInt32) (sectors : UInt8) (x : Exchange) : Exchange :=
  (words (packet lba sectors)).foldl (fun x word => { x with log := .outw base word :: x.log })
    (x.inb (base + 2) r.reason)

def reportError (x : Exchange) : Exchange :=
  (x.inb (base + 1) r.error).inb (base + 2) r.reason

def announcedLength (counts : Nat) : Nat :=
  let phase := (r.byteCountHigh counts).toNat * 256 + (r.byteCountLow counts).toNat
  if phase = 0 then 2048 else phase

def phaseLength (wanted transferred counts : Nat) : Nat :=
  let phase := announcedLength r counts
  if wanted - transferred < phase then wanted - transferred else phase

def storePhase : Nat → Nat → Exchange → Exchange
  | 0, _, x => x
  | count + 1, offset, x => storePhase count (offset + 2) (x.storeData r base offset)

/-- The loop over the phases: what was transferred, or `none` in it if the function is to return
0. -/
def transferLoop (wanted : Nat) : Nat → Nat → Exchange → Option (Option Nat × Exchange)
  | 0, _, _ => none
  | rounds + 1, transferred, x =>
    if transferred < wanted then
      match poll r base dataVerdict 100000 x with
      | (none, x) => some (none, x)
      | (some timeout, x) =>
        if timeout = 0 then some (none, x)
        else if !isDrq (r.status x.statusReads) then
          some (some transferred, x.readStatus r base)
        else
          let phase := phaseLength r wanted transferred x.countReads
          transferLoop wanted rounds (transferred + phase)
            (storePhase r base (phase / 2) transferred
              ((x.readStatus r base).readByteCount r base))
    else some (some transferred, x)

def wantedBytes (sectors : UInt8) : Nat := sectors.toNat * 2048

def readPacket (lba : UInt32) (sectors : UInt8) (x : Exchange) : Option (Bool × Exchange) :=
  (transferLoop r base (wantedBytes sectors) (wantedBytes sectors + 1) 0
    (sendPacket r base lba sectors x)).map fun result =>
      (decide (result.1 = some (wantedBytes sectors)), result.2)

def readCommand (lba : UInt32) (sectors : UInt8) (x : Exchange) : Option (Bool × Exchange) :=
  match poll r base drqVerdict 100000 x with
  | (none, x) => some (false, reportError r base x)
  | (some timeout, x) =>
    if timeout = 0 then some (false, x) else readPacket r base lba sectors x

/-- `atapi_read_sectors_internal`: whether it returns 1, and what it did. -/
def atapiReadSectorsInternal (slave : Bool) (lba : UInt32) (sectors : UInt8) :
    Option (Bool × Exchange) :=
  match poll r base readyVerdict 100000 (selectDrive base slave) with
  | (none, x) => some (false, x)
  | (some timeout, x) =>
    if timeout = 0 then some (false, x)
    else readCommand r base lba sectors (sendCommand base x)

end Drive

/-! ## Polling

A loop stops at the first status that is not polled again, or it runs out. -/

def Stops (verdict : UInt8 → Verdict) (status : Nat → UInt8) (i k : Nat) : Prop :=
  verdict (status (i + k)) ≠ .again ∧ ∀ m < k, verdict (status (i + m)) = .again

theorem stops_or_not (verdict : UInt8 → Verdict) (status : Nat → UInt8) (i n : Nat) :
    (∃ k < n, Stops verdict status i k) ∨ ∀ m < n, verdict (status (i + m)) = .again := by
  induction n with
  | zero => exact .inr fun m hm => absurd hm (Nat.not_lt_zero m)
  | succ n ih =>
    rcases ih with ⟨k, hk, hstops⟩ | hagain
    · exact .inl ⟨k, by omega, hstops⟩
    · by_cases hlast : verdict (status (i + n)) = .again
      · right
        intro m hm
        rcases Nat.lt_or_eq_of_le (Nat.le_of_lt_succ hm) with hm | rfl
        · exact hagain m hm
        · exact hlast
      · exact .inl ⟨n, Nat.lt_succ_self n, hlast, hagain⟩

def Exchange.polled (r : Registers) (base : Nat) : Nat → Exchange → Exchange
  | 0, x => x
  | n + 1, x => (x.readStatus r base).polled r base n

section Polling

variable {r : Registers} {base : Nat} {verdict : UInt8 → Verdict}

@[simp] theorem readStatus_statusReads (x : Exchange) :
    (x.readStatus r base).statusReads = x.statusReads + 1 := rfl

@[simp] theorem polled_statusReads (n : Nat) (x : Exchange) :
    (x.polled r base n).statusReads = x.statusReads + n := by
  induction n generalizing x with
  | zero => rfl
  | succ n ih => rw [Exchange.polled, ih, readStatus_statusReads, Nat.add_assoc, Nat.add_comm 1]

@[simp] theorem polled_stores (n : Nat) (x : Exchange) : (x.polled r base n).stores = x.stores := by
  induction n generalizing x with
  | zero => rfl
  | succ n ih => rw [Exchange.polled, ih, Exchange.readStatus]

@[simp] theorem polled_countReads (n : Nat) (x : Exchange) :
    (x.polled r base n).countReads = x.countReads := by
  induction n generalizing x with
  | zero => rfl
  | succ n ih => rw [Exchange.polled, ih, Exchange.readStatus]

theorem poll_again {timeout : Nat} {x : Exchange} (h : verdict (r.status x.statusReads) = .again) :
    poll r base verdict (timeout + 1) x = poll r base verdict timeout (x.readStatus r base) := by
  rw [poll, h]

theorem poll_exhausted : ∀ {n : Nat} {x : Exchange},
    (∀ m < n, verdict (r.status (x.statusReads + m)) = .again) →
      poll r base verdict n x = (some (-1), x.polled r base n) := by
  intro n
  induction n with
  | zero => intro x _; rfl
  | succ n ih =>
    intro x h
    rw [poll_again (h 0 (Nat.succ_pos n)), ih fun m hm => ?_]
    · rfl
    · have := h (m + 1) (by omega)
      rwa [Nat.add_comm m 1, ← Nat.add_assoc] at this

theorem poll_stopped : ∀ {n k : Nat} {x : Exchange}, k < n → Stops verdict r.status x.statusReads k →
    poll r base verdict n x =
      (if verdict (r.status (x.statusReads + k)) = .fail then none else some ((n - 1 - k : Nat) : Int),
        x.polled r base (k + 1)) := by
  intro n
  induction n with
  | zero => intro k x hk; omega
  | succ n ih =>
    intro k x hk hstops
    cases k with
    | zero =>
      have hverdict := hstops.1
      rw [poll]
      rw [Nat.add_zero] at hverdict ⊢
      cases hv : verdict (r.status x.statusReads) with
      | again => exact absurd hv hverdict
      | leave => rfl
      | fail => rfl
    | succ k =>
      have hshift : ∀ m, x.statusReads + (m + 1) = (x.readStatus r base).statusReads + m := by
        intro m
        rw [readStatus_statusReads]
        omega
      have hstops' : Stops verdict r.status (x.readStatus r base).statusReads k := by
        refine ⟨?_, fun m hm => ?_⟩
        · rw [← hshift]
          exact hstops.1
        · rw [← hshift]
          exact hstops.2 (m + 1) (by omega)
      rw [poll_again (hstops.2 0 (Nat.succ_pos k)), ih (show k < n by omega) hstops', hshift,
        show n + 1 - 1 - (k + 1) = n - 1 - k by omega]
      rfl

def Passes (verdict : UInt8 → Verdict) (status : Nat → UInt8) (i i' : Nat) : Prop :=
  (∃ k < 99999, Stops verdict status i k ∧ verdict (status (i + k)) = .leave ∧ i' = i + (k + 1)) ∨
    ((∀ m < 100000, verdict (status (i + m)) = .again) ∧ i' = i + 100000)

theorem Stops.unique {status : Nat → UInt8} {i k k' : Nat} (h : Stops verdict status i k)
    (h' : Stops verdict status i k') : k' = k := by
  rcases Nat.lt_trichotomy k' k with hlt | heq | hlt
  · exact absurd (h.2 k' hlt) h'.1
  · exact heq
  · exact absurd (h'.2 k hlt) h.1

theorem Passes.unique {status : Nat → UInt8} {i j j' : Nat} (h : Passes verdict status i j)
    (h' : Passes verdict status i j') : j' = j := by
  rcases h with ⟨k, hk, hstops, -, rfl⟩ | ⟨hagain, rfl⟩
  · rcases h' with ⟨k', -, hstops', -, rfl⟩ | ⟨hagain', -⟩
    · rw [hstops.unique hstops']
    · exact absurd (hagain' k (by omega)) hstops.1
  · rcases h' with ⟨k', hk', hstops', -, -⟩ | ⟨-, rfl⟩
    · exact absurd (hagain k' (by omega)) hstops'.1
    · rfl

theorem poll_passed {x : Exchange} {i' : Nat} (h : Passes verdict r.status x.statusReads i') :
    ∃ n timeout, i' = x.statusReads + n ∧ timeout ≠ 0 ∧
      poll r base verdict 100000 x = (some timeout, x.polled r base n) := by
  rcases h with ⟨k, hk, hstops, hleave, rfl⟩ | ⟨hagain, rfl⟩
  · have hrun := @poll_stopped r base verdict 100000 k x (by omega) hstops
    rw [if_neg (by rw [hleave]; simp)] at hrun
    exact ⟨k + 1, _, rfl, by omega, hrun⟩
  · exact ⟨100000, -1, rfl, by decide, poll_exhausted hagain⟩

theorem poll_failed {x : Exchange} (h : ∀ i', ¬ Passes verdict r.status x.statusReads i') :
    ∃ n, poll r base verdict 100000 x = (none, x.polled r base n) ∨
      poll r base verdict 100000 x = (some 0, x.polled r base n) := by
  rcases stops_or_not verdict r.status x.statusReads 100000 with ⟨k, hk, hstops⟩ | hagain
  · have hrun := @poll_stopped r base verdict 100000 k x hk hstops
    refine ⟨k + 1, ?_⟩
    cases hv : verdict (r.status (x.statusReads + k)) with
    | again => exact absurd hv hstops.1
    | fail =>
      rw [if_pos hv] at hrun
      exact .inl hrun
    | leave =>
      have hlast : k = 99999 := by
        by_contra hne
        exact h _ (.inl ⟨k, by omega, hstops, hv, rfl⟩)
      rw [if_neg (by rw [hv]; simp), hlast] at hrun
      rw [hlast]
      exact .inr hrun
  · exact absurd (.inr ⟨hagain, rfl⟩) (h _)

end Polling

end DiscouNT.Cdfs
