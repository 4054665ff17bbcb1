import DiscouNT.Net.Frame

/-!
# Net.FrameBounds

Which frames are parsed within their bounds. Every branch of `net_handle_frame` but one compares
with the packet length before it reads; the DHCP option loop does so only for the first byte of an
option. So the reads stay in the packet exactly when the options of a DHCP reply do.
-/

namespace DiscouNT.Net

open Lib Logged

variable {m : Mem} {len n a payload offset : Nat} {s : NetState} {f : Frame}

@[simp] theorem rd8_val : (rd8 m a).val = m a := rfl
@[simp] theorem rd16_val : (rd16 m a).val = be16 m a := rfl
@[simp] theorem rd32_val : (rd32 m a).val = be32 m a := rfl
@[simp] theorem rdIp_val : (rdIp m a).val = ipAt m a := rfl
@[simp] theorem rdMac_val : (rdMac m a).val = macAt m a := rfl

@[simp] theorem rd8_inside : (rd8 m a).All (Access.Inside n 0) ↔ a + 1 ≤ n := by
  simp [rd8, Access.Inside]

@[simp] theorem rd16_inside : (rd16 m a).All (Access.Inside n 0) ↔ a + 2 ≤ n := by
  simp [rd16, Access.Inside]

@[simp] theorem rd32_inside : (rd32 m a).All (Access.Inside n 0) ↔ a + 4 ≤ n := by
  simp [rd32, Access.Inside]

@[simp] theorem rdIp_inside : (rdIp m a).All (Access.Inside n 0) ↔ a + 4 ≤ n := by
  simp [rdIp, Access.Inside]

@[simp] theorem rdMac_inside : (rdMac m a).All (Access.Inside n 0) ↔ a + 6 ≤ n := by
  simp [rdMac, Access.Inside]

section

variable (h : payload + len ≤ n)
include h

theorem dnsLabel_inside :
    (dnsLabel m payload len offset).All (Access.Inside n 0) := by
  rw [dnsLabel]
  simp only [↓all_ite, ↓Logged.all_bind, ↓all_pure, rd8_inside, implies_true, and_true, true_and]
  omega

theorem dnsSkipName_inside : ∀ {left offset : Nat},
    (dnsSkipName m payload len left offset).All (Access.Inside n 0) := by
  intro left
  induction left with
  | zero =>
    intro offset
    refine (Logged.all_bind _ _).mpr ⟨dnsLabel_inside h, ?_⟩
    cases (dnsLabel m payload len offset).val <;> exact all_pure _
  | succ left ih =>
    intro offset
    refine (Logged.all_bind _ _).mpr ⟨dnsLabel_inside h, ?_⟩
    cases (dnsLabel m payload len offset).val with
    | bad => exact all_pure _
    | done offset => exact all_pure _
    | more offset => exact ih

theorem skipQuestions_inside : ∀ {questions offset : Nat},
    (skipQuestions m payload len questions offset).All (Access.Inside n 0) := by
  intro questions
  induction questions with
  | zero =>
    intro offset
    rw [skipQuestions]
    exact all_pure _
  | succ questions ih =>
    intro offset
    rw [skipQuestions, Logged.all_bind]
    refine ⟨dnsSkipName_inside h, ?_⟩
    cases (dnsSkipName m payload len 128 offset).val with
    | none => exact all_pure _
    | some offset =>
      simp only [↓all_ite, all_pure, implies_true, true_and]
      exact fun _ => ih

theorem findAnswer_inside : ∀ {answers offset : Nat},
    (findAnswer m payload len answers offset).All (Access.Inside n 0) := by
  intro answers
  induction answers with
  | zero =>
    intro offset
    rw [findAnswer]
    exact all_pure _
  | succ answers ih =>
    intro offset
    rw [findAnswer, Logged.all_bind]
    refine ⟨dnsSkipName_inside h, ?_⟩
    cases (dnsSkipName m payload len 128 offset).val with
    | none => exact all_pure _
    | some offset =>
      simp only [↓all_ite, ↓Logged.all_bind, ↓all_pure, rd16_inside, rd16_val,
        rdIp_inside, implies_true, and_true, true_and]
      -- the ten bytes behind the name, then the data
      exact fun _ => ⟨by omega, by omega, by omega, fun _ => ⟨fun _ => by omega, fun _ => ih⟩⟩

theorem handleDnsResponse_inside :
    (handleDnsResponse m payload len s).All (Access.Inside n 0) := by
  rw [handleDnsResponse]
  simp only [↓all_ite, ↓Logged.all_bind, ↓all_pure, rd16_inside, rd16_val, implies_true, true_and]
  refine fun _ => ⟨by omega, fun _ => ⟨by omega, fun _ => ⟨by omega, by omega, fun _ => ?_⟩⟩⟩
  refine ⟨skipQuestions_inside h, ?_⟩
  cases (skipQuestions m payload len (be16 m (payload + 4)) 12).val with
  | none => exact all_pure _
  | some offset =>
    refine (Logged.all_bind _ _).mpr ⟨findAnswer_inside h, ?_⟩
    cases (findAnswer m payload len (be16 m (payload + 6)) offset).val with
    | none => exact all_pure _
    | some ip => exact all_pure _

end

theorem handleArp_inside : (handleArp m n s).All (Access.Inside n 0) := by
  rw [handleArp]
  simp only [↓all_ite, ↓Logged.all_bind, ↓all_pure, rd16_inside, rdIp_inside,
    rdMac_inside, implies_true, and_true, true_and, ethHdr, arpPkt]
  omega

theorem handleIcmp_inside {icmp : Nat} (h : ethHdr ≤ icmp) :
    (handleIcmp m n icmp s).All (Access.Inside n 0) := by
  rw [handleIcmp]
  simp only [↓all_ite, ↓Logged.all_bind, ↓all_pure, Logged.all_map, rd8_inside,
    rd16_inside, rdIp_inside, implies_true, true_and, ethHdr, icmpEchoPkt] at h ⊢
  omega

/-- An option, a pad or the end marker starts at this offset, when they start at `start` and the
message ends at `fin`. -/
inductive OptionAt (m : Mem) (fin start : Nat) : Nat → Prop where
  | first : start < fin → OptionAt m fin start start
  | pad {o : Nat} : OptionAt m fin start o → m o = 0 → o + 1 < fin → OptionAt m fin start (o + 1)
  | next {o : Nat} : OptionAt m fin start o → m o ≠ 0 → m o ≠ 255 →
      o + 2 + (m (o + 1)).toNat < fin → OptionAt m fin start (o + 2 + (m (o + 1)).toNat)

def usedBytes (code : UInt8) (olen : Nat) : Nat :=
  if code = 53 then if 1 ≤ olen then 1 else 0
  else if code = 1 ∨ code = 3 ∨ code = 54 ∨ code = 6 then if 4 ≤ olen then 4 else 0
  else 0

/-- The length byte of the option at `o` and the data that is used lie in the first `n` bytes. -/
def OptionFits (m : Mem) (n o : Nat) : Prop :=
  m o ≠ 0 → m o ≠ 255 → o + 2 + usedBytes (m o) (m (o + 1)).toNat ≤ n

variable {fin start o : Nat}

theorem OptionAt.lt (h : OptionAt m fin start o) : o < fin := by
  cases h with
  | first h => exact h
  | pad _ _ h => exact h
  | next _ _ _ h => exact h

theorem OptionAt.of_pad (h0 : start < fin) (hpad : m start = 0)
    (h : OptionAt m fin (start + 1) o) : OptionAt m fin start o := by
  induction h with
  | first h => exact .pad (.first h0) hpad h
  | pad _ hp h ih => exact .pad ih hp h
  | next _ hp hend h ih => exact .next ih hp hend h

theorem OptionAt.of_next (h0 : start < fin) (hpad : m start ≠ 0) (hend : m start ≠ 255)
    (h : OptionAt m fin (start + 2 + (m (start + 1)).toNat) o) : OptionAt m fin start o := by
  induction h with
  | first h => exact .next (.first h0) hpad hend h
  | pad _ hp h ih => exact .pad ih hp h
  | next _ hp he h ih => exact .next ih hp he h

theorem optionAt_pad (h0 : start < fin) (hpad : m start = 0) :
    OptionAt m fin start o ↔ o = start ∨ OptionAt m fin (start + 1) o := by
  constructor
  · intro h
    induction h with
    | first => exact .inl rfl
    | pad _ hp h ih =>
      rcases ih with rfl | ih
      · exact .inr (.first h)
      · exact .inr (.pad ih hp h)
    | next _ hp he h ih =>
      rcases ih with rfl | ih
      · exact absurd hpad hp
      · exact .inr (.next ih hp he h)
  · rintro (rfl | h)
    · exact .first h0
    · exact h.of_pad h0 hpad

theorem optionAt_next (h0 : start < fin) (hpad : m start ≠ 0) (hend : m start ≠ 255) :
    OptionAt m fin start o ↔
      o = start ∨ OptionAt m fin (start + 2 + (m (start + 1)).toNat) o := by
  constructor
  · intro h
    induction h with
    | first => exact .inl rfl
    | pad _ hp h ih =>
      rcases ih with rfl | ih
      · exact absurd hp hpad
      · exact .inr (.pad ih hp h)
    | next _ hp he h ih =>
      rcases ih with rfl | ih
      · exact .inr (.first h)
      · exact .inr (.next ih hp he h)
  · rintro (rfl | h)
    · exact .first h0
    · exact h.of_next h0 hpad hend

theorem optionAt_end (hend : m start = 255) (h : OptionAt m fin start o) : o = start := by
  induction h with
  | first => rfl
  | pad _ hp _ ih =>
    rw [ih, hend] at hp
    exact absurd hp (by simp)
  | next _ _ he _ ih =>
    rw [ih] at he
    exact absurd hend he

theorem dhcpOption_inside {code : UInt8} {olen : Nat} {t : UInt8} (h : a ≤ n) :
    (dhcpOption m code olen a s t).All (Access.Inside n 0) ↔ a + usedBytes code olen ≤ n := by
  unfold dhcpOption usedBytes
  split_ifs <;> simp_all <;> omega

theorem optionLoop_inside_iff (hfin : fin ≤ n) (opt : Nat) (s : NetState) (t : UInt8) :
    (optionLoop m fin opt s t).All (Access.Inside n 0) ↔
      ∀ o, OptionAt m fin opt o → OptionFits m n o := by
  induction hk : fin - opt using Nat.strong_induction_on generalizing opt s t with
  | _ k ih =>
    rw [optionLoop]
    by_cases hopt : fin ≤ opt
    · rw [if_pos hopt]
      exact iff_of_true (all_pure _) fun o ho => by
        have h1 := ho.lt
        have h2 : opt ≤ o := by clear ih hk; induction ho <;> omega
        omega
    rw [if_neg hopt]
    simp only [↓Logged.all_bind, ↓all_ite, all_pure, rd8_inside, rd8_val]
    by_cases hpad : m opt = 0
    · simp only [hpad, not_true_eq_false, false_implies, true_implies, and_true]
      rw [ih (fin - (opt + 1)) (by omega) (opt + 1) s t rfl]
      constructor
      · rintro ⟨_, h⟩ o ho
        rcases (optionAt_pad (by omega) hpad).mp ho with rfl | ho
        · exact fun hne => absurd hpad hne
        · exact h o ho
      · exact fun h => ⟨by omega, fun o ho => h o ((optionAt_pad (by omega) hpad).mpr (.inr ho))⟩
    by_cases hend : m opt = 255
    · simp only [hend, not_true_eq_false, false_implies, implies_true, and_true]
      constructor
      · intro _ o ho
        rw [optionAt_end hend ho]
        exact fun _ hne => absurd hend hne
      · exact fun _ => ⟨by omega, fun h => absurd h (by simp)⟩
    simp only [hpad, hend, not_false_eq_true, true_implies, false_implies, true_and]
    rw [ih (fin - (opt + 2 + (m (opt + 1)).toNat)) (by omega) _ _ _ rfl]
    constructor
    · rintro ⟨_, hlen, hdata, h⟩ o ho
      rcases (optionAt_next (by omega) hpad hend).mp ho with rfl | ho
      · exact fun _ _ => (dhcpOption_inside (by omega)).mp hdata
      · exact h o ho
    · intro h
      have hfit := h opt (.first (by omega)) hpad hend
      exact ⟨by omega, by omega, (dhcpOption_inside (by omega)).mpr hfit,
        fun o ho => h o ((optionAt_next (by omega) hpad hend).mpr (.inr ho))⟩

/-! ## Frames -/

def udpOff (m : Mem) : Nat := ethHdr + (m ethHdr).toNat % 16 * 4

structure DhcpReply (f : Frame) (s : NetState) : Prop where
  headers : ethHdr + ipv4Hdr ≤ f.len
  ethernet : be16 f.packet 12 = 0x0800
  version : (f.packet ethHdr).toNat / 16 = 4
  protocol : f.packet (ethHdr + 9) = 17
  udpHeader : udpOff f.packet + udpHdr ≤ f.len
  udpLength : udpHdr + 240 ≤ be16 f.packet (udpOff f.packet + 4)
  udpFits : udpOff f.packet + be16 f.packet (udpOff f.packet + 4) ≤ f.len
  srcPort : be16 f.packet (udpOff f.packet) = 67
  dstPort : be16 f.packet (udpOff f.packet + 2) = 68
  op : f.packet (udpOff f.packet + udpHdr) = 2
  htype : f.packet (udpOff f.packet + udpHdr + 1) = 1
  hlen : f.packet (udpOff f.packet + udpHdr + 2) = 6
  xid : be32 f.packet (udpOff f.packet + udpHdr + 4) = s.dhcpXid.toNat
  magic : ipAt f.packet (udpOff f.packet + udpHdr + dhcpOptionsOff) = ⟨99, 130, 83, 99⟩

def optionsStart (m : Mem) : Nat := udpOff m + udpHdr + dhcpOptionsOff + 4
def messageEnd (m : Mem) : Nat := udpOff m + be16 m (udpOff m + 4)

def OptionsFit (f : Frame) : Prop :=
  ∀ o, OptionAt f.packet (messageEnd f.packet) (optionsStart f.packet) o → OptionFits f.packet f.len o

theorem handleDhcp_inside_iff {dhcp : Nat} (hlen : dhcp + 240 ≤ fin) (hfin : fin ≤ n) :
    (handleDhcp m dhcp fin s).All (Access.Inside n 0) ↔
      (m dhcp = 2 → m (dhcp + 1) = 1 → m (dhcp + 2) = 6 → be32 m (dhcp + 4) = s.dhcpXid.toNat →
        ipAt m (dhcp + dhcpOptionsOff) = ⟨99, 130, 83, 99⟩ →
        ∀ o, OptionAt m fin (dhcp + dhcpOptionsOff + 4) o → OptionFits m n o) := by
  rw [handleDhcp]
  simp only [↓Logged.all_bind, ↓all_ite, all_pure, Logged.all_map, rd8_inside, rd8_val,
    rd32_inside, rd32_val, rdIp_inside, rdIp_val, optionLoop_inside_iff hfin, ne_eq, not_not,
    implies_true, true_and, and_true]
  constructor
  · rintro ⟨_, h⟩ hop hhtype hhlen hxid hmagic
    exact ((((h hop).2 hhtype).2 hhlen).2 hxid).2 hmagic |>.1
  · intro h
    refine ⟨by omega, fun hop => ⟨by omega, fun hhtype => ⟨by omega, fun hhlen => ⟨by omega,
      fun hxid => ⟨by simp only [dhcpOptionsOff]; omega, fun hmagic => ?_⟩⟩⟩⟩⟩
    exact ⟨h hop hhtype hhlen hxid hmagic, fun _ => by omega, fun _ _ => by omega⟩

theorem handleUdp_inside_iff {udp : Nat} :
    (handleUdp m n udp s).All (Access.Inside n 0) ↔
      (udp + udpHdr ≤ n → udpHdr + 240 ≤ be16 m (udp + 4) → udp + be16 m (udp + 4) ≤ n →
        be16 m udp = 67 → be16 m (udp + 2) = 68 →
        (handleDhcp m (udp + udpHdr) (udp + be16 m (udp + 4)) s).All (Access.Inside n 0)) := by
  rw [handleUdp]
  simp only [↓Logged.all_bind, ↓all_ite, all_pure, rd16_inside, rd16_val, ne_eq, not_not,
    implies_true, true_and]
  constructor
  · intro h hhdr hlen hfits hsrc hdst
    obtain ⟨_, _, hrest⟩ := (h (by omega)).2 (by omega)
    exact ((hrest (by omega) hsrc).2 hdst) (by omega)
  · intro h hhdr
    refine ⟨by simp only [udpHdr] at hhdr; omega, fun hlen => ⟨by simp only [udpHdr] at hhdr; omega,
      fun _ => handleDnsResponse_inside (by omega), fun _ hsrc => ⟨by simp only [udpHdr] at hhdr; omega,
        fun hdst hlong => h (by omega) (by omega) (by omega) hsrc hdst⟩⟩⟩

theorem netHandleFrame_udp_iff :
    (netHandleFrame f s).All (Access.Inside f.len 0) ↔
      (ethHdr + ipv4Hdr ≤ f.len → be16 f.packet 12 = 0x0800 →
        (f.packet ethHdr).toNat / 16 = 4 → f.packet (ethHdr + 9) = 17 →
        (handleUdp f.packet f.len (udpOff f.packet) s).All (Access.Inside f.len 0)) := by
  have hudp : ethHdr ≤ udpOff f.packet := Nat.le_add_right _ _
  rw [netHandleFrame]
  simp only [handleIpv4, ↓Logged.all_bind, ↓all_ite, ↓all_pure, rd8_inside, rd8_val,
    rd16_inside, rd16_val, handleArp_inside, implies_true, true_and, ne_eq, not_not]
  constructor
  · intro h hlen heth hver hproto
    have hip := ((h (by omega)).2 (by omega)).1 heth (by omega)
    exact ((hip.2 hver).2.2 (by simp [hproto])).1 hproto
  · intro h hlen
    refine ⟨by simp only [ethHdr] at hlen; omega, fun _ => ⟨fun heth hip =>
      ⟨by simp only [ethHdr, ipv4Hdr] at hip ⊢; omega, fun hver =>
      ⟨by simp only [ethHdr, ipv4Hdr] at hip ⊢; omega, fun _ => handleIcmp_inside hudp,
        fun _ => ⟨fun hproto => h (by omega) heth hver hproto, trivial⟩⟩⟩, trivial⟩⟩

/-- Frames are parsed within their bounds exactly when the options of a DHCP reply stay in them. -/
theorem netHandleFrame_inside_iff (f : Frame) (s : NetState) :
    (netHandleFrame f s).All (Access.Inside f.len 0) ↔ (DhcpReply f s → OptionsFit f) := by
  rw [netHandleFrame_udp_iff, handleUdp_inside_iff]
  constructor
  · intro h r
    have hd := h r.headers r.ethernet r.version r.protocol r.udpHeader r.udpLength r.udpFits
      r.srcPort r.dstPort
    exact (handleDhcp_inside_iff (by have := r.udpLength; omega) r.udpFits).mp hd r.op r.htype r.hlen
      r.xid r.magic
  · intro h hlen heth hver hproto hhdr hulen hfits hsrc hdst
    refine (handleDhcp_inside_iff (by omega) hfits).mpr fun hop hhtype hhlen hxid hmagic => ?_
    exact h ⟨hlen, heth, hver, hproto, hhdr, hulen, hfits, hsrc, hdst, hop, hhtype, hhlen, hxid,
      hmagic⟩

/-- A DHCP reply to the initial transaction with the given address and options. -/
def dhcpFrame (yiaddr : Ip) (options : List UInt8) : Frame :=
  let udpLen := 248 + options.length
  .ofBytes <|
    List.replicate 12 0 ++ [8, 0] ++
    [0x45, 0, 0, 0, 0, 0, 0, 0, 64, 17] ++ List.replicate 10 0 ++
    [0, 67, 0, 68, .ofNat (udpLen / 256), .ofNat udpLen, 0, 0] ++
    [2, 1, 6, 0, 0x4E, 0x54, 0x44, 0x50] ++ List.replicate 8 0 ++ yiaddr.bytes ++
    List.replicate 216 0 ++ [99, 130, 83, 99] ++ options

/-- The last byte of the frame is the code of an option; its length is read behind the frame. -/
theorem netHandleFrame_inside_iff_last :
    ¬ (netHandleFrame (dhcpFrame ⟨10, 0, 2, 15⟩ [53]) .initial).All
      (Access.Inside (dhcpFrame ⟨10, 0, 2, 15⟩ [53]).len 0) := by
  intro h
  have hudp := netHandleFrame_udp_iff.mp h (by decide +kernel) rfl rfl rfl
  have hdhcp := handleUdp_inside_iff.mp hudp (by decide +kernel) (by decide +kernel)
    (by decide +kernel) rfl rfl
  have hfit := (handleDhcp_inside_iff (by decide +kernel) (by decide +kernel)).mp hdhcp rfl rfl rfl rfl
    rfl _ (.first (by decide +kernel))
  exact absurd (hfit (by decide +kernel) (by decide +kernel)) (by decide +kernel)

end DiscouNT.Net
