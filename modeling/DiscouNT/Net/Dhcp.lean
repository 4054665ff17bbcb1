import DiscouNT.Net.Driver
import DiscouNT.Net.FrameBounds

/-!
# Net.Dhcp

The DHCP client in `drivers/net/net.c`: `send_dhcp_packet` and the exchange in `NetInit`, and what
a DHCP message does to the lease.

`decode` reads a message as a whole, and `NetState.receive` is the transition the message makes.
`netHandleFrame_lease` says that the option loop, which writes to the lease while it goes, comes to
this transition; the other frames leave the lease alone.
-/

namespace DiscouNT.Net

open Lib Logged

def World.setNet (w : World) (net : NetState) : World := { w with net := net }

def NetState.dhcpReset (s : NetState) : NetState :=
  { s with
    dhcpOfferValid := false, dhcpAckValid := false, dhcpOfferIp := .zero, dhcpServerIp := .zero,
    dhcpOfferMask := .zero, dhcpOfferGateway := .zero, nicDns := .zero, nicDnsValid := false }

/-- The options of `send_dhcp_packet`, behind the magic number. -/
def dhcpSendOptions (msgType : UInt8) (mac : Mac) (requested server : Option Ip) : List UInt8 :=
  [53, 1, msgType, 61, 7, 1] ++ mac.bytes ++ [55, 3, 1, 3, 6] ++
    (requested.elim [] fun ip => [50, 4] ++ ip.bytes) ++
    (server.elim [] fun ip => [54, 4] ++ ip.bytes) ++ [255]

def dhcpPkt (s : NetState) (msgType : UInt8) (requested server : Option Ip) : List UInt8 :=
  let options := dhcpSendOptions msgType s.nicMac requested server
  [1, 1, 6, 0] ++ be16Bytes (s.dhcpXid.toNat / 65536) ++ be16Bytes (s.dhcpXid.toNat % 65536) ++
    [0, 0, 0x80, 0] ++ List.replicate 16 0 ++ s.nicMac.bytes ++ List.replicate 202 0 ++
    [99, 130, 83, 99] ++ options ++ List.replicate (308 - options.length) 0

def World.sendDhcpPacket (w : World) (msgType : UInt8) (requested server : Option Ip) : World :=
  w.sendUdpIpv4 {
    srcIp := .zero, dstIp := ⟨255, 255, 255, 255⟩, dstMac := ⟨255, 255, 255, 255, 255, 255⟩,
    srcPort := 68, dstPort := 67, payload := dhcpPkt w.net msgType requested server, ttl := 64,
    ipId := w.net.dhcpXid.toNat % 65536 }

def dhcpAttempt (rx : Rx) (w : World) : World :=
  let w := w.setNet { w.net with dhcpOfferValid := false }
  let w := w.sendDhcpPacket 1 none none
  let w := waitFor rx (·.dhcpOfferValid) 6000000 0 w
  if w.net.dhcpOfferValid = false then w
  else
    let w := w.sendDhcpPacket 3 (some w.net.dhcpOfferIp) (some w.net.dhcpServerIp)
    waitFor rx (·.dhcpAckValid) 6000000 0 w

def dhcpExchange (rx : Rx) : Nat → World → World
  | 0, w => w
  | attempts + 1, w =>
    if w.net.dhcpAckValid then w else dhcpExchange rx attempts (dhcpAttempt rx w)

/-- The end of `NetInit`, behind the exchange. -/
def NetState.installLease (s : NetState) : NetState :=
  if s.dhcpAckValid then
    { s with
      nicIp := s.dhcpOfferIp
      nicMask := if s.dhcpOfferMask ≠ .zero then s.dhcpOfferMask else s.nicMask
      nicGateway := if s.dhcpOfferGateway ≠ .zero then s.dhcpOfferGateway else s.nicGateway }
  else s

/-- `NetInit` on a card that was found; `s` is the state when it has been initialised. -/
def netInit (rx : Rx) (s : NetState) : World :=
  let w := dhcpExchange rx 3 ⟨s.dhcpReset, 0, []⟩
  w.setNet w.net.installLease

structure DhcpOption where
  code : UInt8
  len : Nat
  data : Nat
deriving DecidableEq

/-- The options from `opt` on, of a message that ends at `fin`. -/
def options (m : Mem) (fin : Nat) : Nat → Nat → List DhcpOption
  | 0, _ => []
  | rounds + 1, opt =>
    if fin ≤ opt then []
    else if m opt = 0 then options m fin rounds (opt + 1)
    else if m opt = 255 then []
    else
      ⟨m opt, (m (opt + 1)).toNat, opt + 2⟩ ::
        options m fin rounds (opt + 2 + (m (opt + 1)).toNat)

def lastData (code : UInt8) (size : Nat) : List DhcpOption → Option Nat
  | [] => none
  | o :: l =>
    (lastData code size l).or (if o.code = code ∧ size ≤ o.len then some o.data else none)

structure Message where
  type : UInt8
  yiaddr : Ip
  mask : Option Ip
  gateway : Option Ip
  server : Option Ip
  dns : Option Ip
deriving DecidableEq, Repr

def Message.ofOptions (m : Mem) (yiaddr : Ip) (l : List DhcpOption) : Message where
  type := ((lastData 53 1 l).map m).getD 0
  yiaddr := yiaddr
  mask := (lastData 1 4 l).map (ipAt m)
  gateway := (lastData 3 4 l).map (ipAt m)
  server := (lastData 54 4 l).map (ipAt m)
  dns := (lastData 6 4 l).map (ipAt m)

def decode (f : Frame) : Message :=
  .ofOptions f.packet (ipAt f.packet (udpOff f.packet + udpHdr + 16))
    (options f.packet (messageEnd f.packet) (messageEnd f.packet) (optionsStart f.packet))

def NetState.take (s : NetState) (msg : Message) : NetState :=
  { s with
    dhcpOfferMask := msg.mask.getD s.dhcpOfferMask
    dhcpOfferGateway := msg.gateway.getD s.dhcpOfferGateway
    dhcpServerIp := msg.server.getD s.dhcpServerIp
    nicDns := msg.dns.getD s.nicDns
    nicDnsValid := msg.dns.isSome || s.nicDnsValid }

def NetState.receive (s : NetState) (msg : Message) : NetState :=
  if msg.type = 2 then (s.take msg).setOffer msg.yiaddr
  else if msg.type = 5 then (s.take msg).setAck msg.yiaddr
  else s.take msg

section Loop

variable {m : Mem} {fin n : Nat} {s : NetState} {t : UInt8} {l : List DhcpOption} {o : DhcpOption}
  {yiaddr : Ip}

def lastType (m : Mem) (t : UInt8) (l : List DhcpOption) : UInt8 := ((lastData 53 1 l).map m).getD t

variable (yiaddr) in
theorem take_cons (s : NetState) (t : UInt8) (o : DhcpOption) (l : List DhcpOption) :
    (((dhcpOption m o.code o.len o.data s t).val.1.take (.ofOptions m yiaddr l)) =
      s.take (.ofOptions m yiaddr (o :: l))) ∧
    lastType m (dhcpOption m o.code o.len o.data s t).val.2 l = lastType m t (o :: l) := by
  have hor : ∀ {α : Type} (x y : Option Nat) (g : Nat → α) (z : α),
      ((x.or y).map g).getD z = (x.map g).getD ((y.map g).getD z) := by
    intro α x y g z
    cases x <;> rfl
  have hsome : ∀ x y : Option Nat, (x.or y).isSome = (x.isSome || y.isSome) := by
    intro x y
    cases x <;> rfl
  unfold dhcpOption
  simp only [NetState.take, Message.ofOptions, lastType, lastData, hor, Option.isSome_map, hsome]
  split_ifs <;> simp_all [NetState.setMask, NetState.setGateway, NetState.setServer, NetState.setDns]

variable (yiaddr) in
theorem optionLoop_val : ∀ {n opt : Nat} {s : NetState} {t : UInt8}, fin - opt ≤ n →
    (optionLoop m fin opt s t).val =
      (s.take (.ofOptions m yiaddr (options m fin n opt)), lastType m t (options m fin n opt)) := by
  intro n
  induction n with
  | zero =>
    intro opt s t h
    rw [optionLoop, if_pos (by omega)]
    rfl
  | succ n ih =>
    intro opt s t h
    rw [optionLoop, options]
    by_cases hopt : fin ≤ opt
    · rw [if_pos hopt, if_pos hopt]
      rfl
    rw [if_neg hopt, if_neg hopt]
    simp only [val_bind, ↓val_ite]
    by_cases hpad : m opt = 0
    · rw [if_pos (show (rd8 m opt).val = 0 from hpad), if_pos hpad, ih (by omega)]
    rw [if_neg (show ¬ (rd8 m opt).val = 0 from hpad), if_neg hpad]
    by_cases hend : m opt = 255
    · rw [if_pos (show (rd8 m opt).val = 255 from hend), if_pos hend]
      rfl
    rw [if_neg (show ¬ (rd8 m opt).val = 255 from hend), if_neg hend, rd8_val, rd8_val,
      ih (by omega)]
    obtain ⟨h1, h2⟩ := take_cons yiaddr (m := m) s t
      ⟨m opt, (m (opt + 1)).toNat, opt + 2⟩ (options m fin n (opt + 2 + (m (opt + 1)).toNat))
    exact Prod.ext h1 h2

end Loop

structure SameLease (s s' : NetState) : Prop where
  offerValid : s'.dhcpOfferValid = s.dhcpOfferValid
  ackValid : s'.dhcpAckValid = s.dhcpAckValid
  offerIp : s'.dhcpOfferIp = s.dhcpOfferIp
  server : s'.dhcpServerIp = s.dhcpServerIp
  mask : s'.dhcpOfferMask = s.dhcpOfferMask
  gateway : s'.dhcpOfferGateway = s.dhcpOfferGateway
  dns : s'.nicDns = s.nicDns
  dnsValid : s'.nicDnsValid = s.nicDnsValid

section Frames

variable {f : Frame} {s : NetState} {m : Mem} {len payload dhcp udp fin : Nat}

theorem SameLease.refl (s : NetState) : SameLease s s := ⟨rfl, rfl, rfl, rfl, rfl, rfl, rfl, rfl⟩

theorem handleDnsResponse_lease : SameLease s (handleDnsResponse m payload len s).val := by
  rw [handleDnsResponse]
  simp only [val_bind, ↓val_ite, val_pure]
  split_ifs <;> try exact .refl s
  split
  · exact .refl s
  · simp only [val_bind]
    split
    · exact .refl s
    · exact ⟨rfl, rfl, rfl, rfl, rfl, rfl, rfl, rfl⟩

theorem handleArp_lease : SameLease s (handleArp m len s).val := by
  rw [handleArp]
  simp only [val_bind, ↓val_ite, val_pure]
  split_ifs
  · exact .refl s
  · exact ⟨rfl, rfl, rfl, rfl, rfl, rfl, rfl, rfl⟩
  · exact .refl s

theorem handleIcmp_lease {icmp : Nat} : SameLease s (handleIcmp m len icmp s).val := by
  rw [handleIcmp]
  simp only [val_bind, ↓val_ite, val_pure, val_map]
  split_ifs <;> first | exact .refl s | exact ⟨rfl, rfl, rfl, rfl, rfl, rfl, rfl, rfl⟩

theorem handleDhcp_val (hop : m dhcp = 2) (hhtype : m (dhcp + 1) = 1) (hhlen : m (dhcp + 2) = 6)
    (hxid : be32 m (dhcp + 4) = s.dhcpXid.toNat)
    (hmagic : ipAt m (dhcp + dhcpOptionsOff) = ⟨99, 130, 83, 99⟩) :
    (handleDhcp m dhcp fin s).val = s.receive
      (.ofOptions m (ipAt m (dhcp + 16)) (options m fin fin (dhcp + dhcpOptionsOff + 4))) := by
  rw [handleDhcp]
  simp only [val_bind, ↓val_ite, val_pure, val_map, rd8_val, rd32_val, rdIp_val, ne_eq]
  rw [optionLoop_val (ipAt m (dhcp + 16)) (Nat.sub_le _ _)]
  simp only [hop, hhtype, hhlen, hxid, hmagic, not_true_eq_false, if_false]
  rfl

theorem handleDhcp_drop (h : ¬ (m dhcp = 2 ∧ m (dhcp + 1) = 1 ∧ m (dhcp + 2) = 6 ∧
    be32 m (dhcp + 4) = s.dhcpXid.toNat ∧ ipAt m (dhcp + dhcpOptionsOff) = ⟨99, 130, 83, 99⟩)) :
    (handleDhcp m dhcp fin s).val = s := by
  rw [handleDhcp]
  simp only [val_bind, ↓val_ite, val_pure, val_map]
  split_ifs with h1 h2 h3 h4 h5 <;> first | rfl | skip
  all_goals exact absurd ⟨not_not.mp h1, not_not.mp h2, not_not.mp h3, not_not.mp h4, not_not.mp h5⟩ h

theorem netHandleFrame_reply (h : DhcpReply f s) : (netHandleFrame f s).val = s.receive (decode f) := by
  have hlen := h.headers
  have hhdr := h.udpHeader
  have hfits := h.udpFits
  have hulen := h.udpLength
  rw [netHandleFrame, if_neg (by simp only [ethHdr, ipv4Hdr] at hlen ⊢; omega)]
  simp only [val_bind, ↓val_ite]
  rw [if_neg (by simp [h.ethernet]), if_pos (show (rd16 f.packet 12).val = 0x0800 from h.ethernet),
    handleIpv4, if_neg (by omega)]
  simp only [val_bind, ↓val_ite]
  rw [if_neg (by simp [h.version]), if_neg (by simp [h.protocol]),
    if_pos (show (rd8 f.packet (ethHdr + 9)).val = 17 from h.protocol)]
  change (handleUdp f.packet f.len (udpOff f.packet) s).val = _
  rw [handleUdp, if_neg (by omega)]
  simp only [val_bind, ↓val_ite]
  rw [if_neg (by rw [rd16_val]; omega), if_neg (by simp [h.srcPort]), if_neg (by simp [h.srcPort]),
    if_neg (by simp [h.dstPort]), if_neg (by rw [rd16_val]; omega)]
  exact handleDhcp_val h.op h.htype h.hlen h.xid h.magic

theorem netHandleFrame_other (h : ¬ DhcpReply f s) : SameLease s (netHandleFrame f s).val := by
  rw [netHandleFrame]
  simp only [val_bind, ↓val_ite, val_pure]
  split_ifs with hlen harp heth
  · exact .refl s
  · exact handleArp_lease
  · rw [handleIpv4]
    simp only [val_bind, ↓val_ite, val_pure]
    split_ifs with hip hver hicmp hproto
    · exact .refl s
    · exact .refl s
    · exact handleIcmp_lease
    · change SameLease s (handleUdp f.packet f.len (udpOff f.packet) s).val
      rw [handleUdp]
      simp only [val_bind, ↓val_ite, val_pure]
      split_ifs with hhdr hfits hdns hsrc hdst hlong <;> try exact .refl s
      · exact handleDnsResponse_lease
      · rw [rd16_val] at hfits hsrc hdst hlong
        rw [handleDhcp_drop]
        · exact .refl s
        · rintro ⟨h1, h2, h3, h4, h5⟩
          exact h ⟨by omega, heth, not_not.mp hver, hproto, by omega, by omega, by omega,
            not_not.mp hsrc, not_not.mp hdst, h1, h2, h3, h4, h5⟩
    · exact .refl s
  · exact .refl s

end Frames

end DiscouNT.Net
