import DiscouNT.Lib.History
import DiscouNT.Net.Frame

/-!
# Net.Driver

The card as the protocol code sees it: frames handed to `nic_send_raw`, frames that `NetPoll`
delivers, and the loops that wait for an answer.

* `Rx` says which frames each call of `NetPoll` delivers.
* The history records what was sent and received, newest first, each with the protocol state at
  that time.
* A frame shorter than 60 bytes is handed over with what follows it on the stack; only the bytes
  that were written are recorded.
-/

namespace DiscouNT.Net

open Lib

inductive Event where
  | sent (bytes : List UInt8) (net : NetState)
  | received (f : Frame) (net : NetState)

structure World where
  net : NetState
  polls : Nat
  history : List Event

/-- The frames that the `n`-th call of `NetPoll` delivers. -/
abbrev Rx := Nat → List Frame

def World.deliver (w : World) (f : Frame) : World :=
  { w with net := (netHandleFrame f w.net).val, history := .received f w.net :: w.history }

def netPoll (rx : Rx) (w : World) : World :=
  { (rx w.polls).foldl World.deliver w with polls := w.polls + 1 }

/-- `for (volatile int i = 0; i < n && !flag; i++) if ((i & 0x7FF) == 0) NetPoll();`, with `left`
rounds to go. -/
def waitFor (rx : Rx) (flag : NetState → Bool) : Nat → Nat → World → World
  | 0, _, w => w
  | left + 1, i, w =>
    if flag w.net then w
    else waitFor rx flag left (i + 1) (if i % 2048 = 0 then netPoll rx w else w)

def be16Bytes (n : Nat) : List UInt8 := [.ofNat (n / 256), .ofNat n]

def sumWords : List UInt8 → Nat
  | [] => 0
  | [a] => a.toNat * 256
  | a :: b :: l => a.toNat * 256 + b.toNat + sumWords l

def foldSum (sum : Nat) : Nat :=
  if sum < 65536 then sum else foldSum (sum % 65536 + sum / 65536)

def netChecksum (l : List UInt8) : Nat := 65535 - foldSum (sumWords l)

structure Datagram where
  srcIp : Ip
  dstIp : Ip
  dstMac : Mac
  srcPort : Nat
  dstPort : Nat
  payload : List UInt8
  ttl : UInt8
  ipId : Nat

def Datagram.ipHeader (d : Datagram) (checksum : Nat) : List UInt8 :=
  [0x45, 0] ++ be16Bytes (28 + d.payload.length) ++ be16Bytes d.ipId ++ [0, 0, d.ttl, 17] ++
    be16Bytes checksum ++ d.srcIp.bytes ++ d.dstIp.bytes

def Datagram.headers (d : Datagram) (nicMac : Mac) : List UInt8 :=
  d.dstMac.bytes ++ nicMac.bytes ++ [0x08, 0x00] ++ d.ipHeader (netChecksum (d.ipHeader 0))

def Datagram.udpHeader (d : Datagram) : List UInt8 :=
  be16Bytes d.srcPort ++ be16Bytes d.dstPort ++ be16Bytes (8 + d.payload.length) ++ [0, 0]

def Datagram.frame (d : Datagram) (nicMac : Mac) : List UInt8 :=
  d.headers nicMac ++ (d.udpHeader ++ d.payload)

theorem Datagram.headers_length (d : Datagram) (nicMac : Mac) : (d.headers nicMac).length = 34 := by
  simp [Datagram.headers, Datagram.ipHeader, Mac.bytes, Ip.bytes, be16Bytes]

theorem Datagram.udpHeader_length (d : Datagram) : d.udpHeader.length = 8 := by
  simp [Datagram.udpHeader, be16Bytes]

theorem Datagram.frame_udp (d : Datagram) (nicMac : Mac) (i : Nat) :
    (d.frame nicMac)[34 + i]? = (d.udpHeader ++ d.payload)[i]? := by
  rw [Datagram.frame, List.getElem?_append_right (by simp [d.headers_length]), d.headers_length,
    Nat.add_sub_cancel_left]

theorem Datagram.frame_payload (d : Datagram) (nicMac : Mac) (i : Nat) :
    (d.frame nicMac)[42 + i]? = d.payload[i]? := by
  rw [show 42 + i = 34 + (8 + i) by omega, d.frame_udp,
    List.getElem?_append_right (by simp [d.udpHeader_length]), d.udpHeader_length,
    Nat.add_sub_cancel_left]

def World.nicSendRaw (w : World) (bytes : List UInt8) : World :=
  { w with history := .sent bytes w.net :: w.history }

/-- `send_udp_ipv4` for a payload that is not of negative length. -/
def World.sendUdpIpv4 (w : World) (d : Datagram) : World :=
  if 600 < 42 + d.payload.length then w else w.nicSendRaw (d.frame w.net.nicMac)

def World.sendArpRequest (w : World) (target : Ip) : World :=
  w.nicSendRaw <|
    List.replicate 6 0xFF ++ w.net.nicMac.bytes ++ [0x08, 0x06] ++
    [0, 1, 0x08, 0x00, 6, 4, 0, 1] ++ w.net.nicMac.bytes ++ w.net.nicIp.bytes ++
    List.replicate 6 0 ++ target.bytes ++ List.replicate 22 0

section Invariants

variable {P : World → Prop} {rx : Rx} {flag : NetState → Bool}

theorem foldl_deliver_keeps (hdeliver : ∀ w f, P w → P (w.deliver f)) :
    ∀ {fs : List Frame} {w : World}, P w → P (fs.foldl World.deliver w) := by
  intro fs
  induction fs with
  | nil => intro w h; exact h
  | cons f fs ih => intro w h; exact ih (hdeliver w f h)

theorem netPoll_keeps (hdeliver : ∀ w f, P w → P (w.deliver f))
    (hpolls : ∀ w n, P w → P { w with polls := n }) {w : World} (h : P w) : P (netPoll rx w) :=
  hpolls _ _ (foldl_deliver_keeps hdeliver h)

theorem waitFor_keeps (hdeliver : ∀ w f, P w → P (w.deliver f))
    (hpolls : ∀ w n, P w → P { w with polls := n }) :
    ∀ {left i : Nat} {w : World}, P w → P (waitFor rx flag left i w) := by
  intro left
  induction left with
  | zero => intro i w h; exact h
  | succ left ih =>
    intro i w h
    rw [waitFor]
    split
    · exact h
    · split
      · exact ih (netPoll_keeps hdeliver hpolls h)
      · exact ih h

end Invariants

section Rounds

variable {rx : Rx} {flag : NetState → Bool} {left i : Nat} {w : World}

theorem waitFor_stop (h : flag w.net = true) : waitFor rx flag left i w = w := by
  cases left with
  | zero => rfl
  | succ left => rw [waitFor, if_pos h]

theorem waitFor_poll (h : flag w.net = false) (hi : i % 2048 = 0) :
    waitFor rx flag (left + 1) i w = waitFor rx flag left (i + 1) (netPoll rx w) := by
  rw [waitFor, if_neg (by simp [h]), if_pos hi]

theorem waitFor_one (hflag : flag w.net = false) (hdone : flag (netPoll rx w).net = true) :
    waitFor rx flag (left + 1) 0 w = netPoll rx w := by
  rw [waitFor_poll hflag rfl, waitFor_stop hdone]

end Rounds

end DiscouNT.Net
