import DiscouNT.Net.Dhcp

/-!
# Net.DhcpRuns

Runs of `NetInit` against any frames in any order. The client keeps no record of which message an
option came from, nor of its own state but the two flags; `Orderly` says of one frame, in the state
it meets, that this does no harm, and `netInit_orderly` that a run of such frames installs the lease
of one message, acknowledged after it was requested.
-/

namespace DiscouNT.Net

open Lib List

def IsOffer (f : Frame) (s : NetState) : Prop := DhcpReply f s ∧ (decode f).type = 2

def IsAck (f : Frame) (s : NetState) : Prop := DhcpReply f s ∧ (decode f).type = 5

def IsRequest (bytes : List UInt8) : Prop :=
  bytes[36]? = some 0 ∧ bytes[37]? = some 67 ∧ bytes[284]? = some 3

def RequestAnswersOffer (old : List Event) : Prop :=
  ∃ mid bytes net older, old = mid ++ .sent bytes net :: older ∧ IsRequest bytes ∧
    ∃ f s, .received f s ∈ older ∧ IsOffer f s

/-- The variables that messages are said not to change unless they are an OFFER or an ACK. -/
def NetState.lease (s : NetState) : Ip × Ip × Ip × Ip × Ip :=
  (s.dhcpOfferIp, s.dhcpServerIp, s.dhcpOfferMask, s.dhcpOfferGateway, s.nicDns)

structure InstalledFrom (net : NetState) (msg : Message) : Prop where
  address : net.nicIp = msg.yiaddr
  mask : net.dhcpOfferMask ≠ .zero → msg.mask = some net.nicMask
  gateway : net.dhcpOfferGateway ≠ .zero → msg.gateway = some net.nicGateway
  server : net.dhcpServerIp ≠ .zero → msg.server = some net.dhcpServerIp
  dns : net.nicDnsValid = true → msg.dns = some net.nicDns

/-- The state machine does what a DHCP client should, in a run that ended in `w`. -/
structure DhcpSound (w : World) : Prop where
  acknowledged : ∀ new f s old, w.history = new ++ .received f s :: old →
    s.dhcpAckValid = false → (netHandleFrame f s).val.dhcpAckValid = true →
      IsAck f s ∧ RequestAnswersOffer old
  untouched : ∀ f s, .received f s ∈ w.history → ¬ IsOffer f s → ¬ IsAck f s →
    (netHandleFrame f s).val.lease = s.lease
  oneMessage : w.net.dhcpAckValid = true → ∃ f s, .received f s ∈ w.history ∧
    (IsOffer f s ∨ IsAck f s) ∧ InstalledFrom w.net (decode f)

def Message.Bare (msg : Message) : Prop :=
  msg.mask = none ∧ msg.gateway = none ∧ msg.server = none ∧ msg.dns = none

/-- What the message does not carry has not been set by another one. -/
structure Message.Covers (msg : Message) (s : NetState) : Prop where
  mask : msg.mask = none → s.dhcpOfferMask = .zero
  gateway : msg.gateway = none → s.dhcpOfferGateway = .zero
  server : msg.server = none → s.dhcpServerIp = .zero
  dns : msg.dns = none → s.nicDnsValid = false

/-- The frame is no DHCP reply, or an OFFER, an ACK after a REQUEST, or a message without lease
options; and an OFFER or ACK leaves nothing of an earlier message in place. -/
structure Orderly (old : List Event) (f : Frame) (s : NetState) : Prop where
  bare : DhcpReply f s → ¬ IsOffer f s → ¬ IsAck f s → (decode f).Bare
  requested : IsAck f s → ∃ bytes net, .sent bytes net ∈ old ∧ IsRequest bytes
  covers : IsOffer f s ∨ IsAck f s → (decode f).Covers s

def OrderlyRun (history : List Event) : Prop :=
  ∀ new f s old, history = new ++ .received f s :: old → Orderly old f s

theorem orderlyRun_nil : OrderlyRun [] := by
  intro new f s old heq
  simp at heq

theorem OrderlyRun.sent {history : List Event} {bytes : List UInt8} {net : NetState}
    (h : OrderlyRun history) : OrderlyRun (.sent bytes net :: history) := by
  intro new f s old heq
  cases new with
  | nil => cases heq
  | cons e new => exact h new f s old (List.cons.inj heq).2

theorem orderlyRun_received {history : List Event} {f : Frame} {s : NetState} :
    OrderlyRun (.received f s :: history) ↔ Orderly history f s ∧ OrderlyRun history := by
  constructor
  · intro h
    exact ⟨h [] f s history rfl, fun new g s' old heq =>
      h (.received f s :: new) g s' old (congrArg _ heq)⟩
  · rintro ⟨hf, h⟩ new g s' old heq
    cases new with
    | nil =>
      cases heq
      exact hf
    | cons e new => exact h new g s' old (List.cons.inj heq).2

structure Holds (net : NetState) (msg : Message) : Prop where
  address : net.dhcpOfferIp = msg.yiaddr
  mask : net.dhcpOfferMask = msg.mask.getD .zero
  gateway : net.dhcpOfferGateway = msg.gateway.getD .zero
  server : net.dhcpServerIp = msg.server.getD .zero
  dnsValid : net.nicDnsValid = msg.dns.isSome
  dns : ∀ ip, msg.dns = some ip → net.nicDns = ip

structure Blank (net : NetState) : Prop where
  ack : net.dhcpAckValid = false
  mask : net.dhcpOfferMask = .zero
  gateway : net.dhcpOfferGateway = .zero
  server : net.dhcpServerIp = .zero
  dnsValid : net.nicDnsValid = false

structure Exchange (w : World) : Prop where
  acknowledged : ∀ new f s old, w.history = new ++ .received f s :: old →
    s.dhcpAckValid = false → (netHandleFrame f s).val.dhcpAckValid = true →
      IsAck f s ∧ RequestAnswersOffer old
  untouched : ∀ f s, .received f s ∈ w.history → ¬ IsOffer f s → ¬ IsAck f s →
    (netHandleFrame f s).val.lease = s.lease
  requests : ∀ new bytes net old, w.history = new ++ .sent bytes net :: old → IsRequest bytes →
    ∃ f s, .received f s ∈ old ∧ IsOffer f s
  offered : w.net.dhcpOfferValid = true → ∃ f s, .received f s ∈ w.history ∧ IsOffer f s
  lease : Blank w.net ∨ ∃ f s, .received f s ∈ w.history ∧ (IsOffer f s ∨ IsAck f s) ∧
    Holds w.net (decode f)

def Inv (w : World) : Prop := OrderlyRun w.history → Exchange w

section Steps

variable {w : World} {f : Frame} {s net : NetState} {msg : Message} {bytes : List UInt8}

theorem take_bare (h : msg.Bare) : s.take msg = s := by
  obtain ⟨h1, h2, h3, h4⟩ := h
  simp [NetState.take, h1, h2, h3, h4]

theorem lease_of_same (h : SameLease s net) : net.lease = s.lease := by
  simp only [NetState.lease, h.offerIp, h.server, h.mask, h.gateway, h.dns]

theorem untouched_of_orderly {old : List Event} (h : Orderly old f s) (ho : ¬ IsOffer f s)
    (ha : ¬ IsAck f s) : SameLease s (netHandleFrame f s).val := by
  by_cases hr : DhcpReply f s
  · rw [netHandleFrame_reply hr, NetState.receive, if_neg fun ht => ho ⟨hr, ht⟩,
      if_neg fun ht => ha ⟨hr, ht⟩, take_bare (h.bare hr ho ha)]
    exact .refl s
  · exact netHandleFrame_other hr

theorem holds_take (hc : msg.Covers s) (haddr : net.dhcpOfferIp = msg.yiaddr)
    (hmask : net.dhcpOfferMask = (s.take msg).dhcpOfferMask)
    (hgw : net.dhcpOfferGateway = (s.take msg).dhcpOfferGateway)
    (hserver : net.dhcpServerIp = (s.take msg).dhcpServerIp)
    (hvalid : net.nicDnsValid = (s.take msg).nicDnsValid)
    (hdns : net.nicDns = (s.take msg).nicDns) : Holds net msg := by
  refine ⟨haddr, ?_, ?_, ?_, ?_, ?_⟩
  · rw [hmask, NetState.take]
    cases h : msg.mask with
    | none => exact hc.mask h
    | some ip => rfl
  · rw [hgw, NetState.take]
    cases h : msg.gateway with
    | none => exact hc.gateway h
    | some ip => rfl
  · rw [hserver, NetState.take]
    cases h : msg.server with
    | none => exact hc.server h
    | some ip => rfl
  · rw [hvalid, NetState.take]
    cases h : msg.dns with
    | none => simp [hc.dns h]
    | some ip => rfl
  · intro ip h
    rw [hdns, NetState.take, h]
    rfl

theorem holds_of_accepted (hc : (decode f).Covers s) (h : IsOffer f s ∨ IsAck f s) :
    Holds (netHandleFrame f s).val (decode f) := by
  rcases h with ⟨hr, ht⟩ | ⟨hr, ht⟩
  · rw [netHandleFrame_reply hr, NetState.receive, if_pos ht]
    exact holds_take hc rfl rfl rfl rfl rfl rfl
  · rw [netHandleFrame_reply hr, NetState.receive, if_neg (by rw [ht]; simp), if_pos ht]
    exact holds_take hc rfl rfl rfl rfl rfl rfl

theorem ackValid_of_not_ack (h : ¬ IsAck f s) :
    (netHandleFrame f s).val.dhcpAckValid = s.dhcpAckValid := by
  by_cases hr : DhcpReply f s
  · rw [netHandleFrame_reply hr, NetState.receive, if_neg (fun ht => h ⟨hr, ht⟩ : ¬ (decode f).type = 5)]
    split <;> rfl
  · exact (netHandleFrame_other hr).ackValid

theorem offerValid_of_not_offer (h : ¬ IsOffer f s) :
    (netHandleFrame f s).val.dhcpOfferValid = s.dhcpOfferValid := by
  by_cases hr : DhcpReply f s
  · rw [netHandleFrame_reply hr, NetState.receive, if_neg (fun ht => h ⟨hr, ht⟩ : ¬ (decode f).type = 2)]
    split <;> rfl
  · exact (netHandleFrame_other hr).offerValid

theorem Exchange.answers (h : Exchange w) (hmem : Event.sent bytes net ∈ w.history)
    (hreq : IsRequest bytes) : RequestAnswersOffer w.history := by
  obtain ⟨mid, older, heq⟩ := append_of_mem hmem
  exact ⟨mid, bytes, net, older, heq, hreq, h.requests mid bytes net older heq hreq⟩

theorem deliver_inv (w : World) (f : Frame) (h : Inv w) : Inv (w.deliver f) := by
  intro hrun
  obtain ⟨hnow, hold⟩ := orderlyRun_received.mp hrun
  have hw : Exchange w := h hold
  refine ⟨?_, ?_, ?_, ?_, ?_⟩
  · intro new g s old heq hno hyes
    cases new with
    | nil =>
      cases heq
      have hack : IsAck f w.net := by
        by_contra hn
        rw [ackValid_of_not_ack hn, hno] at hyes
        cases hyes
      obtain ⟨bytes, net, hmem, hreq⟩ := hnow.requested hack
      exact ⟨hack, hw.answers hmem hreq⟩
    | cons e new => exact hw.acknowledged new g s old (List.cons.inj heq).2 hno hyes
  · intro g s hmem ho ha
    rcases mem_cons.mp hmem with heq | hmem
    · cases heq
      exact lease_of_same (untouched_of_orderly hnow ho ha)
    · exact hw.untouched g s hmem ho ha
  · intro new bytes net old heq hreq
    cases new with
    | nil => cases heq
    | cons e new => exact hw.requests new bytes net old (List.cons.inj heq).2 hreq
  · intro hoffer
    by_cases ho : IsOffer f w.net
    · exact ⟨f, w.net, mem_cons_self, ho⟩
    · obtain ⟨g, s, hmem, hg⟩ := hw.offered (by
        rw [← offerValid_of_not_offer ho]
        exact hoffer)
      exact ⟨g, s, mem_cons_of_mem _ hmem, hg⟩
  · by_cases hacc : IsOffer f w.net ∨ IsAck f w.net
    · exact .inr ⟨f, w.net, mem_cons_self, hacc, holds_of_accepted (hnow.covers hacc) hacc⟩
    · obtain ⟨ho, ha⟩ := not_or.mp hacc
      have hsame := untouched_of_orderly hnow ho ha
      rcases hw.lease with hb | ⟨g, s, hmem, hg, hh⟩
      · exact .inl ⟨hsame.ackValid.trans hb.ack, hsame.mask.trans hb.mask,
          hsame.gateway.trans hb.gateway, hsame.server.trans hb.server,
          hsame.dnsValid.trans hb.dnsValid⟩
      · exact .inr ⟨g, s, mem_cons_of_mem _ hmem, hg, hsame.offerIp.trans hh.address,
          hsame.mask.trans hh.mask, hsame.gateway.trans hh.gateway, hsame.server.trans hh.server,
          hsame.dnsValid.trans hh.dnsValid, fun ip hip => hsame.dns.trans (hh.dns ip hip)⟩

theorem polls_inv (w : World) (n : Nat) (h : Inv w) : Inv { w with polls := n } := by
  intro hrun
  have hw := h hrun
  exact ⟨hw.acknowledged, hw.untouched, hw.requests, hw.offered, hw.lease⟩

theorem waitFor_inv {rx : Rx} {flag : NetState → Bool} {left i : Nat} (h : Inv w) :
    Inv (waitFor rx flag left i w) :=
  waitFor_keeps deliver_inv polls_inv h

theorem clearOffer_inv (h : Inv w) : Inv (w.setNet { w.net with dhcpOfferValid := false }) := by
  intro hrun
  have hw := h hrun
  refine ⟨hw.acknowledged, hw.untouched, hw.requests, fun hoffer => (by cases hoffer), ?_⟩
  rcases hw.lease with hb | ⟨f, s, hmem, hf, hh⟩
  · exact .inl ⟨hb.ack, hb.mask, hb.gateway, hb.server, hb.dnsValid⟩
  · exact .inr ⟨f, s, hmem, hf, hh.address, hh.mask, hh.gateway, hh.server, hh.dnsValid, hh.dns⟩

theorem dhcpPkt_length {t : UInt8} {requested server : Option Ip} :
    (dhcpPkt s t requested server).length = 548 := by
  have hopt : (dhcpSendOptions t s.nicMac requested server).length ≤ 30 := by
    cases requested <;> cases server <;> simp [dhcpSendOptions, Mac.bytes, Ip.bytes]
  simp only [dhcpPkt, length_append, length_replicate, Mac.bytes, be16Bytes,
    length_cons, length_nil]
  omega

theorem sendDhcpPacket_history (w : World) (t : UInt8) (requested server : Option Ip) :
    ∃ bytes, (w.sendDhcpPacket t requested server) = w.nicSendRaw bytes ∧
      bytes[36]? = some 0 ∧ bytes[37]? = some 67 ∧ bytes[284]? = some t := by
  rw [World.sendDhcpPacket, World.sendUdpIpv4, if_neg (by simp [dhcpPkt_length])]
  refine ⟨_, rfl, ?_, ?_, ?_⟩
  · rw [show 36 = 34 + 2 from rfl, Datagram.frame_udp]
    simp [Datagram.udpHeader, be16Bytes]
  · rw [show 37 = 34 + 3 from rfl, Datagram.frame_udp]
    simp [Datagram.udpHeader, be16Bytes]
  · rw [show 284 = 42 + 242 from rfl, Datagram.frame_payload]
    rfl

theorem nicSendRaw_inv (h : Inv w) (hreq : IsRequest bytes → w.net.dhcpOfferValid = true) :
    Inv (w.nicSendRaw bytes) := by
  intro hrun
  have hw : Exchange w := h fun new f s old heq =>
    hrun (.sent bytes w.net :: new) f s old (congrArg _ heq)
  refine ⟨?_, ?_, ?_, ?_, ?_⟩
  · intro new f s old heq
    cases new with
    | nil => cases heq
    | cons e new => exact hw.acknowledged new f s old (List.cons.inj heq).2
  · intro f s hmem
    rcases mem_cons.mp hmem with heq | hmem
    · cases heq
    · exact hw.untouched f s hmem
  · intro new bytes' net old heq hr
    cases new with
    | nil =>
      cases heq
      exact hw.offered (hreq hr)
    | cons e new => exact hw.requests new bytes' net old (List.cons.inj heq).2 hr
  · intro hoffer
    obtain ⟨f, s, hmem, hf⟩ := hw.offered hoffer
    exact ⟨f, s, mem_cons_of_mem _ hmem, hf⟩
  · exact hw.lease.imp id fun ⟨f, s, hmem, hf, hh⟩ =>
      ⟨f, s, mem_cons_of_mem _ hmem, hf, hh⟩

theorem dhcpAttempt_inv {rx : Rx} (h : Inv w) : Inv (dhcpAttempt rx w) := by
  obtain ⟨bytes, hsend, _, _, htype⟩ :=
    sendDhcpPacket_history (w.setNet { w.net with dhcpOfferValid := false }) 1 none none
  have hdiscover : Inv ((w.setNet { w.net with dhcpOfferValid := false }).nicSendRaw bytes) :=
    nicSendRaw_inv (clearOffer_inv h) fun hreq => by
      have h3 := hreq.2.2
      rw [htype] at h3
      simp at h3
  simp only [dhcpAttempt, hsend]
  generalize (w.setNet { w.net with dhcpOfferValid := false }).nicSendRaw bytes = w1 at hdiscover ⊢
  have hwait : Inv (waitFor rx (·.dhcpOfferValid) 6000000 0 w1) := waitFor_inv hdiscover
  generalize waitFor rx (·.dhcpOfferValid) 6000000 0 w1 = w2 at hwait ⊢
  split
  · exact hwait
  · rename_i hvalid
    obtain ⟨bytes', hsend', _⟩ :=
      sendDhcpPacket_history w2 3 (some w2.net.dhcpOfferIp) (some w2.net.dhcpServerIp)
    rw [hsend']
    exact waitFor_inv (nicSendRaw_inv hwait fun _ => by simpa using hvalid)

theorem dhcpExchange_inv {rx : Rx} : ∀ {n : Nat} {w : World}, Inv w → Inv (dhcpExchange rx n w) := by
  intro n
  induction n with
  | zero => intro w h; exact h
  | succ n ih =>
    intro w h
    rw [dhcpExchange]
    split
    · exact h
    · exact ih (dhcpAttempt_inv h)

theorem reset_inv : Inv ⟨s.dhcpReset, 0, []⟩ := by
  intro _
  have hnil : ∀ (new : List Event) e old, ([] : List Event) ≠ new ++ e :: old := by simp
  exact ⟨fun new f s old heq => absurd heq (hnil _ _ _), fun _ _ hmem => absurd hmem not_mem_nil,
    fun new bytes net old heq => absurd heq (hnil _ _ _), fun hoffer => (by cases hoffer),
    .inl ⟨rfl, rfl, rfl, rfl, rfl⟩⟩

theorem installLease_from (hack : net.dhcpAckValid = true) (h : Holds net msg) :
    InstalledFrom net.installLease msg := by
  have hsome : ∀ (o : Option Ip) (ip : Ip), ip = o.getD .zero → ip ≠ .zero → o = some ip := by
    intro o ip heq hne
    cases o with
    | none => exact absurd heq hne
    | some ip' => rw [heq]; rfl
  rw [NetState.installLease, if_pos hack]
  refine ⟨h.address, fun hne => ?_, fun hne => ?_, fun hne => ?_, fun hv => ?_⟩
  · simp only [if_pos hne]
    exact hsome _ _ h.mask hne
  · simp only [if_pos hne]
    exact hsome _ _ h.gateway hne
  · exact hsome _ _ h.server hne
  · obtain ⟨ip, hip⟩ := Option.isSome_iff_exists.mp (h.dnsValid.symm.trans hv)
    rw [hip]
    exact congrArg some (h.dns ip hip).symm

end Steps

theorem netInit_orderly (rx : Rx) (s : NetState) (h : OrderlyRun (netInit rx s).history) :
    DhcpSound (netInit rx s) := by
  have hinv : Inv (dhcpExchange rx 3 ⟨s.dhcpReset, 0, []⟩) := dhcpExchange_inv reset_inv
  unfold netInit at h ⊢
  generalize dhcpExchange rx 3 ⟨s.dhcpReset, 0, []⟩ = w at hinv h ⊢
  have hw : Exchange w := hinv h
  refine ⟨hw.acknowledged, hw.untouched, fun hack => ?_⟩
  have hack' : w.net.dhcpAckValid = true := by
    rw [← hack]
    simp only [World.setNet, NetState.installLease]
    split <;> rfl
  rcases hw.lease with hb | ⟨f, g, hmem, hf, hh⟩
  · rw [hb.ack] at hack'
    cases hack'
  · exact ⟨f, g, hmem, hf, installLease_from hack' hh⟩

/-! ## Two runs -/

/-- The options of a server's message of this type, with the lease 10.0.2.15. -/
def leaseOptions (type : UInt8) : List UInt8 :=
  [53, 1, type, 54, 4, 10, 0, 2, 2, 1, 4, 255, 255, 255, 0, 3, 4, 10, 0, 2, 2, 6, 4, 10, 0, 2, 3, 255]

def serverFrame (type : UInt8) : Frame := dhcpFrame ⟨10, 0, 2, 15⟩ (leaseOptions type)

section Runs

variable {s : NetState} {w : World} {rx : Rx} {f g : Frame}

theorem serverFrame_reply {type : UInt8} (ht : type = 2 ∨ type = 5) (h : s.dhcpXid = 0x4E544450) :
    DhcpReply (serverFrame type) s := by
  rcases ht with rfl | rfl
  all_goals exact {
    headers := by decide +kernel
    ethernet := by decide +kernel
    version := by decide +kernel
    protocol := by decide +kernel
    udpHeader := by decide +kernel
    udpLength := by decide +kernel
    udpFits := by decide +kernel
    srcPort := by decide +kernel
    dstPort := by decide +kernel
    op := by decide +kernel
    htype := by decide +kernel
    hlen := by decide +kernel
    xid := by rw [h]; decide +kernel
    magic := by decide +kernel }

theorem decode_serverFrame {type : UInt8} (ht : type = 2 ∨ type = 5) : decode (serverFrame type) =
    ⟨type, ⟨10, 0, 2, 15⟩, some ⟨255, 255, 255, 0⟩, some ⟨10, 0, 2, 2⟩, some ⟨10, 0, 2, 2⟩,
      some ⟨10, 0, 2, 3⟩⟩ := by
  rcases ht with rfl | rfl <;> decide +kernel

theorem deliver_server {type : UInt8} (ht : type = 2 ∨ type = 5) (h : w.net.dhcpXid = 0x4E544450) :
    w.deliver (serverFrame type) = { w with
      net := w.net.receive (decode (serverFrame type))
      history := .received (serverFrame type) w.net :: w.history } := by
  rw [World.deliver, netHandleFrame_reply (serverFrame_reply ht h)]

def reached : List UInt8 → NetState
  | [] => NetState.initial.dhcpReset
  | type :: types => (reached types).receive (decode (serverFrame type))

theorem receive_xid {msg : Message} : (s.receive msg).dhcpXid = s.dhcpXid := by
  rw [NetState.receive]
  split_ifs <;> rfl

theorem reached_xid : ∀ types, (reached types).dhcpXid = 0x4E544450 := by
  intro types
  induction types with
  | nil => rfl
  | cons type types ih => rw [reached, receive_xid, ih]

theorem reached_flags : (reached [2]).dhcpOfferValid = true ∧ (reached [2]).dhcpAckValid = false ∧
    (reached [5, 2]).dhcpAckValid = true := by decide +kernel

def answering : Rx := fun n => if n = 0 then [serverFrame 2] else if n = 1 then [serverFrame 5] else []

theorem answering_history : ∃ b1 b2, IsRequest b2 ∧ netInit answering .initial =
    ⟨(reached [5, 2]).installLease, 2, [.received (serverFrame 5) (reached [2]), .sent b2 (reached [2]),
      .received (serverFrame 2) (reached []), .sent b1 (reached [])]⟩ := by
  obtain ⟨b1, hsend1, _⟩ := sendDhcpPacket_history ⟨reached [], 0, []⟩ 1 none none
  have hpoll1 : netPoll answering (World.nicSendRaw ⟨reached [], 0, []⟩ b1) =
      ⟨reached [2], 1, [.received (serverFrame 2) (reached []), .sent b1 (reached [])]⟩ := by
    simp only [netPoll, World.nicSendRaw, answering, if_true, foldl_cons, foldl_nil]
    rw [deliver_server (.inl rfl) (reached_xid [])]
    rfl
  obtain ⟨b2, hsend2, h36, h37, h284⟩ := sendDhcpPacket_history
    ⟨reached [2], 1, [.received (serverFrame 2) (reached []), .sent b1 (reached [])]⟩ 3
    (some (reached [2]).dhcpOfferIp) (some (reached [2]).dhcpServerIp)
  have hpoll2 : netPoll answering
      (World.nicSendRaw ⟨reached [2], 1, [.received (serverFrame 2) (reached []), .sent b1 (reached [])]⟩ b2) =
      ⟨reached [5, 2], 2, [.received (serverFrame 5) (reached [2]), .sent b2 (reached [2]),
        .received (serverFrame 2) (reached []), .sent b1 (reached [])]⟩ := by
    simp only [netPoll, World.nicSendRaw, answering, if_true, foldl_cons, foldl_nil,
      Nat.one_ne_zero, if_false]
    rw [deliver_server (.inr rfl) (reached_xid [2])]
    rfl
  have hattempt : dhcpAttempt answering ⟨reached [], 0, []⟩ =
      ⟨reached [5, 2], 2, [.received (serverFrame 5) (reached [2]), .sent b2 (reached [2]),
        .received (serverFrame 2) (reached []), .sent b1 (reached [])]⟩ := by
    have hclear : World.setNet ⟨reached [], 0, []⟩ { reached [] with dhcpOfferValid := false } =
      ⟨reached [], 0, []⟩ := rfl
    simp only [dhcpAttempt, hclear, hsend1]
    rw [waitFor_one rfl (by rw [hpoll1]; exact reached_flags.1), hpoll1,
      if_neg (by simp [reached_flags]), hsend2,
      waitFor_one reached_flags.2.1 (by rw [hpoll2]; exact reached_flags.2.2), hpoll2]
  refine ⟨b1, b2, ⟨h36, h37, h284⟩, ?_⟩
  have hdone : dhcpExchange answering 3 ⟨reached [], 0, []⟩ =
      ⟨reached [5, 2], 2, [.received (serverFrame 5) (reached [2]), .sent b2 (reached [2]),
        .received (serverFrame 2) (reached []), .sent b1 (reached [])]⟩ := by
    rw [dhcpExchange, if_neg (by simp [reached, NetState.dhcpReset]), hattempt, dhcpExchange,
      if_pos reached_flags.2.2]
  have hreset : NetState.initial.dhcpReset = reached [] := rfl
  simp only [netInit, hreset, hdone, World.setNet]

theorem orderly_server {type : UInt8} {old : List Event} (ht : type = 2 ∨ type = 5)
    (h : s.dhcpXid = 0x4E544450) (hreq : type = 5 → ∃ bytes net, .sent bytes net ∈ old ∧ IsRequest bytes) :
    Orderly old (serverFrame type) s := by
  have hr := serverFrame_reply ht h
  have hmsg := decode_serverFrame ht
  refine ⟨fun _ ho ha => ?_, fun ha => ?_, fun _ => ?_⟩
  · rcases ht with rfl | rfl
    · exact absurd ⟨hr, by rw [hmsg]⟩ ho
    · exact absurd ⟨hr, by rw [hmsg]⟩ ha
  · refine hreq ?_
    rw [← ha.2, hmsg]
  · rw [hmsg]
    exact ⟨nofun, nofun, nofun, nofun⟩

theorem netInit_orderly_answering :
    (netInit answering .initial).net.nicIp = ⟨10, 0, 2, 15⟩ ∧
      (netInit answering .initial).net.dhcpAckValid = true ∧
      DhcpSound (netInit answering .initial) := by
  have horderly : OrderlyRun (netInit answering .initial).history := by
    obtain ⟨b1, b2, hreq, heq⟩ := answering_history
    rw [heq]
    refine orderlyRun_received.mpr ⟨orderly_server (.inr rfl) (reached_xid _) fun _ =>
      ⟨b2, _, mem_cons_self, hreq⟩, .sent (orderlyRun_received.mpr
        ⟨orderly_server (.inl rfl) (reached_xid _) fun h => ?_, .sent orderlyRun_nil⟩)⟩
    simp at h
  refine ⟨?_, ?_, netInit_orderly answering .initial horderly⟩
  · obtain ⟨b1, b2, hreq, heq⟩ := answering_history
    rw [heq]
    exact (by decide +kernel : (reached [5, 2]).installLease.nicIp = ⟨10, 0, 2, 15⟩)
  · obtain ⟨b1, b2, hreq, heq⟩ := answering_history
    rw [heq]
    exact (by decide +kernel : (reached [5, 2]).installLease.dhcpAckValid = true)

def eager : Rx := fun n => if n = 0 then [serverFrame 5, serverFrame 2] else []

/-- The ACK that answers no REQUEST is accepted. -/
theorem netInit_orderly_eager : ¬ DhcpSound (netInit eager .initial) := by
  obtain ⟨b1, hsend1, _⟩ := sendDhcpPacket_history ⟨reached [], 0, []⟩ 1 none none
  have hpoll : netPoll eager (World.nicSendRaw ⟨reached [], 0, []⟩ b1) =
      ⟨reached [2, 5], 1, [.received (serverFrame 2) (reached [5]),
        .received (serverFrame 5) (reached []), .sent b1 (reached [])]⟩ := by
    simp only [netPoll, World.nicSendRaw, eager, if_true, foldl_cons, foldl_nil]
    rw [deliver_server (.inr rfl) (reached_xid []), deliver_server (.inl rfl) (reached_xid [5])]
    rfl
  have hflags : (reached [2, 5]).dhcpOfferValid = true ∧ (reached [2, 5]).dhcpAckValid = true ∧
      (reached [5]).dhcpAckValid = true := by decide +kernel
  obtain ⟨b2, hsend2, _⟩ := sendDhcpPacket_history
    ⟨reached [2, 5], 1, [.received (serverFrame 2) (reached [5]),
      .received (serverFrame 5) (reached []), .sent b1 (reached [])]⟩ 3
    (some (reached [2, 5]).dhcpOfferIp) (some (reached [2, 5]).dhcpServerIp)
  have hattempt : dhcpAttempt eager ⟨reached [], 0, []⟩ =
      ⟨reached [2, 5], 1, [.sent b2 (reached [2, 5]), .received (serverFrame 2) (reached [5]),
        .received (serverFrame 5) (reached []), .sent b1 (reached [])]⟩ := by
    have hclear : World.setNet ⟨reached [], 0, []⟩ { reached [] with dhcpOfferValid := false } =
      ⟨reached [], 0, []⟩ := rfl
    simp only [dhcpAttempt, hclear, hsend1]
    rw [waitFor_one rfl (by rw [hpoll]; exact hflags.1), hpoll, if_neg (by simp [hflags]), hsend2,
      waitFor_stop (by exact hflags.2.1)]
    rfl
  have hdone : (netInit eager .initial).history =
      [.sent b2 (reached [2, 5]), .received (serverFrame 2) (reached [5]), .received (serverFrame 5) (reached []),
        .sent b1 (reached [])] := by
    have hreset : NetState.initial.dhcpReset = reached [] := rfl
    simp only [netInit, hreset, World.setNet]
    rw [dhcpExchange, if_neg (by simp [reached, NetState.dhcpReset]), hattempt, dhcpExchange,
      if_pos hflags.2.1]
  intro h
  obtain ⟨_, mid, bytes, net, older, heq, _, f, s, hmem, _⟩ :=
    h.acknowledged [.sent b2 (reached [2, 5]), .received (serverFrame 2) (reached [5])] (serverFrame 5) (reached [])
      [.sent b1 (reached [])] hdone rfl (by
        rw [netHandleFrame_reply (serverFrame_reply (.inr rfl) (reached_xid []))]
        exact hflags.2.2)
  -- nothing had been received before the only frame that was sent
  cases mid with
  | nil =>
    cases heq
    cases hmem
  | cons e mid => simp at heq

end Runs

end DiscouNT.Net
