import DiscouNT.Lib.Access
import DiscouNT.Lib.Bytes
import DiscouNT.Lib.Logged

/-!
# Net.Frame

What arrives at the network card: `net_handle_frame` and the handlers it dispatches to in
`drivers/net/net.c`.

* A frame is the memory from the packet pointer on, with `packet_len`; offsets count from the start
  of the Ethernet header. What lies behind `packet_len` is memory too, and a read there returns it.
* Every read of packet memory is logged. Serial output is left out.
-/

namespace DiscouNT.Net

open Lib

structure Ip where
  b0 : UInt8
  b1 : UInt8
  b2 : UInt8
  b3 : UInt8
deriving DecidableEq, Repr

def Ip.zero : Ip := ⟨0, 0, 0, 0⟩

def Ip.bytes (ip : Ip) : List UInt8 := [ip.b0, ip.b1, ip.b2, ip.b3]

structure Mac where
  m0 : UInt8
  m1 : UInt8
  m2 : UInt8
  m3 : UInt8
  m4 : UInt8
  m5 : UInt8
deriving DecidableEq, Repr

def Mac.bytes (mac : Mac) : List UInt8 := [mac.m0, mac.m1, mac.m2, mac.m3, mac.m4, mac.m5]

/-- `dns_read16`, and `bswap16` of a 16-bit field on a little-endian machine. -/
def be16 (m : Mem) (a : Nat) : Nat := (m a).toNat * 256 + (m (a + 1)).toNat

def be32 (m : Mem) (a : Nat) : Nat := be16 m a * 65536 + be16 m (a + 2)

def ipAt (m : Mem) (a : Nat) : Ip := ⟨m a, m (a + 1), m (a + 2), m (a + 3)⟩

def macAt (m : Mem) (a : Nat) : Mac := ⟨m a, m (a + 1), m (a + 2), m (a + 3), m (a + 4), m (a + 5)⟩

section Reads

variable (m : Mem) (a : Nat)

def rd8 : Logged Access UInt8 := .note (.src a 1) (m a)
def rd16 : Logged Access Nat := .note (.src a 2) (be16 m a)
def rd32 : Logged Access Nat := .note (.src a 4) (be32 m a)
def rdIp : Logged Access Ip := .note (.src a 4) (ipAt m a)
def rdMac : Logged Access Mac := .note (.src a 6) (macAt m a)

end Reads

structure Frame where
  packet : Mem
  len : Nat

def Frame.ofBytes (l : List UInt8) : Frame := ⟨fun i => l.getD i 0, l.length⟩

-- `sizeof(ETH_HDR)` and so on
def ethHdr : Nat := 14
def arpPkt : Nat := 28
def ipv4Hdr : Nat := 20
def icmpEchoPkt : Nat := 40
def udpHdr : Nat := 8

/-- The static variables that the protocol code uses. -/
structure NetState where
  nicMac : Mac
  nicIp : Ip
  nicMask : Ip
  nicGateway : Ip
  nicDns : Ip
  nicDnsValid : Bool
  arpIp : Ip
  arpMac : Mac
  arpValid : Bool
  pingSequence : UInt16
  pingIdentifier : UInt16
  pingGotReply : Bool
  pingReplyIp : Ip
  dhcpXid : UInt32
  dhcpOfferValid : Bool
  dhcpAckValid : Bool
  dhcpOfferIp : Ip
  dhcpServerIp : Ip
  dhcpOfferMask : Ip
  dhcpOfferGateway : Ip
  dnsQueryId : UInt16
  dnsQueryActive : Bool
  dnsResultValid : Bool
  dnsResultIp : Ip
deriving DecidableEq, Repr

def NetState.initial : NetState where
  nicMac := ⟨0, 0, 0, 0, 0, 0⟩
  nicIp := ⟨10, 0, 2, 15⟩
  nicMask := ⟨255, 255, 255, 0⟩
  nicGateway := ⟨10, 0, 2, 2⟩
  nicDns := .zero
  nicDnsValid := false
  arpIp := .zero
  arpMac := ⟨0, 0, 0, 0, 0, 0⟩
  arpValid := false
  pingSequence := 1
  pingIdentifier := 0x4E54
  pingGotReply := false
  pingReplyIp := .zero
  dhcpXid := 0x4E544450
  dhcpOfferValid := false
  dhcpAckValid := false
  dhcpOfferIp := .zero
  dhcpServerIp := .zero
  dhcpOfferMask := .zero
  dhcpOfferGateway := .zero
  dnsQueryId := 0x4E54
  dnsQueryActive := false
  dnsResultValid := false
  dnsResultIp := .zero

/-- What one round of `dns_skip_name` comes to: -1, the end of the name, or the next label. -/
inductive Label where
  | bad
  | done (offset : Nat)
  | more (offset : Nat)

/-- One round of the loop in `dns_skip_name`; `payload` is where the message starts. -/
def dnsLabel (m : Mem) (payload len offset : Nat) : Logged Access Label :=
  if len ≤ offset then pure .bad
  else do
    let count ← rd8 m (payload + offset)
    if count = 0 then pure (.done (offset + 1))
    else if count.toNat / 64 = 3 then
      if len ≤ offset + 1 then pure .bad else pure (.done (offset + 2))
    else if count.toNat / 64 ≠ 0 then pure .bad
    else if 63 < count.toNat ∨ len < offset + 1 + count.toNat then pure .bad
    else pure (.more (offset + 1 + count.toNat))

/-- `dns_skip_name` with `left` jumps to go. `none` is -1. -/
def dnsSkipName (m : Mem) (payload len : Nat) : Nat → Nat → Logged Access (Option Nat)
  | 0, offset => do
    match ← dnsLabel m payload len offset with
    | .bad => pure none
    | .done offset => pure (some offset)
    | .more _ => pure none
  | left + 1, offset => do
    match ← dnsLabel m payload len offset with
    | .bad => pure none
    | .done offset => pure (some offset)
    | .more offset => dnsSkipName m payload len left offset

def skipQuestions (m : Mem) (payload len : Nat) : Nat → Nat → Logged Access (Option Nat)
  | 0, offset => pure (some offset)
  | questions + 1, offset => do
    match ← dnsSkipName m payload len 128 offset with
    | none => pure none
    | some offset =>
      if len < offset + 4 then pure none
      else skipQuestions m payload len questions (offset + 4)

/-- The loop over the answers, up to the first address. -/
def findAnswer (m : Mem) (payload len : Nat) : Nat → Nat → Logged Access (Option Ip)
  | 0, _ => pure none
  | answers + 1, offset => do
    match ← dnsSkipName m payload len 128 offset with
    | none => pure none
    | some offset =>
      if len < offset + 10 then pure none
      else
        let type ← rd16 m (payload + offset)
        let klass ← rd16 m (payload + offset + 2)
        let rdlen ← rd16 m (payload + offset + 8)
        if len < offset + 10 + rdlen then pure none
        else if type = 1 ∧ klass = 1 ∧ rdlen = 4 then
          let ip ← rdIp m (payload + (offset + 10))
          pure (some ip)
        else findAnswer m payload len answers (offset + 10 + rdlen)

def NetState.setDnsResult (s : NetState) (ip : Ip) : NetState :=
  { s with dnsResultIp := ip, dnsResultValid := true, dnsQueryActive := false }

def handleDnsResponse (m : Mem) (payload len : Nat) (s : NetState) : Logged Access NetState :=
  if s.dnsQueryActive = false ∨ len < 12 then pure s
  else do
    let id ← rd16 m payload
    if id ≠ s.dnsQueryId.toNat then pure s
    else
      let flags ← rd16 m (payload + 2)
      if flags / 0x8000 = 0 ∨ flags % 16 ≠ 0 then pure s
      else
        let questions ← rd16 m (payload + 4)
        let answers ← rd16 m (payload + 6)
        if questions = 0 ∨ answers = 0 then pure s
        else
          match ← skipQuestions m payload len questions 12 with
          | none => pure s
          | some offset =>
            match ← findAnswer m payload len answers offset with
            | none => pure s
            | some ip => pure (s.setDnsResult ip)

def NetState.setArp (s : NetState) (ip : Ip) (mac : Mac) : NetState :=
  { s with arpIp := ip, arpMac := mac, arpValid := true }

def handleArp (m : Mem) (len : Nat) (s : NetState) : Logged Access NetState :=
  if len < ethHdr + arpPkt then pure s
  else do
    let oper ← rd16 m (ethHdr + 6)
    if oper = 2 then
      let spa ← rdIp m (ethHdr + 14)
      let sha ← rdMac m (ethHdr + 8)
      pure (s.setArp spa sha)
    else pure s

-- the assignments of the option loop
def NetState.setMask (s : NetState) (ip : Ip) : NetState := { s with dhcpOfferMask := ip }
def NetState.setGateway (s : NetState) (ip : Ip) : NetState := { s with dhcpOfferGateway := ip }
def NetState.setServer (s : NetState) (ip : Ip) : NetState := { s with dhcpServerIp := ip }
def NetState.setDns (s : NetState) (ip : Ip) : NetState :=
  { s with nicDns := ip, nicDnsValid := true }

def dhcpOption (m : Mem) (code : UInt8) (olen opt : Nat) (s : NetState) (msgType : UInt8) :
    Logged Access (NetState × UInt8) :=
  if code = 53 ∧ 1 ≤ olen then (fun t => (s, t)) <$> rd8 m opt
  else if code = 1 ∧ 4 ≤ olen then (fun ip => (s.setMask ip, msgType)) <$> rdIp m opt
  else if code = 3 ∧ 4 ≤ olen then (fun ip => (s.setGateway ip, msgType)) <$> rdIp m opt
  else if code = 54 ∧ 4 ≤ olen then (fun ip => (s.setServer ip, msgType)) <$> rdIp m opt
  else if code = 6 ∧ 4 ≤ olen then (fun ip => (s.setDns ip, msgType)) <$> rdIp m opt
  else pure (s, msgType)

/-- The loop over the options. Only the start of an option is compared with the end `fin`. -/
def optionLoop (m : Mem) (fin opt : Nat) (s : NetState) (msgType : UInt8) :
    Logged Access (NetState × UInt8) :=
  if fin ≤ opt then pure (s, msgType)
  else do
    let code ← rd8 m opt
    if code = 0 then optionLoop m fin (opt + 1) s msgType
    else if code = 255 then pure (s, msgType)
    else
      let olen ← rd8 m (opt + 1)
      let r ← dhcpOption m code olen.toNat (opt + 2) s msgType
      optionLoop m fin (opt + 2 + olen.toNat) r.1 r.2
termination_by fin - opt

def NetState.setOffer (s : NetState) (ip : Ip) : NetState :=
  { s with dhcpOfferIp := ip, dhcpOfferValid := true }

def NetState.setAck (s : NetState) (ip : Ip) : NetState :=
  { s with dhcpOfferIp := ip, dhcpAckValid := true }

def dhcpOptionsOff : Nat := 236

/-- The part of `handle_ipv4` behind the check of the UDP length for DHCP; the message is at `dhcp`
and ends at `fin`. -/
def handleDhcp (m : Mem) (dhcp fin : Nat) (s : NetState) : Logged Access NetState := do
  let op ← rd8 m dhcp
  if op ≠ 2 then pure s
  else
    let htype ← rd8 m (dhcp + 1)
    if htype ≠ 1 then pure s
    else
      let hlen ← rd8 m (dhcp + 2)
      if hlen ≠ 6 then pure s
      else
        let xid ← rd32 m (dhcp + 4)
        if xid ≠ s.dhcpXid.toNat then pure s
        else
          let magic ← rdIp m (dhcp + dhcpOptionsOff)
          if magic ≠ ⟨99, 130, 83, 99⟩ then pure s
          else
            let r ← optionLoop m fin (dhcp + dhcpOptionsOff + 4) s 0
            if r.2 = 2 then r.1.setOffer <$> rdIp m (dhcp + 16)
            else if r.2 = 5 then r.1.setAck <$> rdIp m (dhcp + 16)
            else pure r.1

def NetState.setPing (s : NetState) (ip : Ip) : NetState :=
  { s with pingGotReply := true, pingReplyIp := ip }

def handleIcmp (m : Mem) (len icmp : Nat) (s : NetState) : Logged Access NetState :=
  if len < icmp + icmpEchoPkt then pure s
  else do
    let type ← rd8 m icmp
    if type ≠ 0 then pure s
    else
      let identifier ← rd16 m (icmp + 4)
      if identifier ≠ s.pingIdentifier.toNat then pure s
      else
        let sequence ← rd16 m (icmp + 6)
        if sequence ≠ s.pingSequence.toNat then pure s
        else s.setPing <$> rdIp m (ethHdr + 12)

def handleUdp (m : Mem) (len udp : Nat) (s : NetState) : Logged Access NetState :=
  if len < udp + udpHdr then pure s
  else do
    let udpLen ← rd16 m (udp + 4)
    if udpLen < udpHdr ∨ len < udp + udpLen then pure s
    else
      let srcPort ← rd16 m udp
      if s.dnsQueryActive = true ∧ srcPort = 53 then
        handleDnsResponse m (udp + udpHdr) (udpLen - udpHdr) s
      else if srcPort ≠ 67 then pure s
      else
        let dstPort ← rd16 m (udp + 2)
        if dstPort ≠ 68 then pure s
        else if udpLen < udpHdr + 240 then pure s
        else handleDhcp m (udp + udpHdr) (udp + udpLen) s

def handleIpv4 (m : Mem) (len : Nat) (s : NetState) : Logged Access NetState :=
  if len < ethHdr + ipv4Hdr then pure s
  else do
    let verIhl ← rd8 m ethHdr
    if verIhl.toNat / 16 ≠ 4 then pure s
    else
      let ihl := verIhl.toNat % 16 * 4
      let protocol ← rd8 m (ethHdr + 9)
      if protocol = 1 then handleIcmp m len (ethHdr + ihl) s
      else if protocol = 17 then handleUdp m len (ethHdr + ihl) s
      else pure s

def netHandleFrame (f : Frame) (s : NetState) : Logged Access NetState :=
  if f.len < ethHdr then pure s
  else do
    let type ← rd16 f.packet 12
    if type = 0x0806 then handleArp f.packet f.len s
    else if type = 0x0800 then handleIpv4 f.packet f.len s
    else pure s

end DiscouNT.Net
