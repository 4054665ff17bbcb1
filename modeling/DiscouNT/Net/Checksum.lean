import DiscouNT.Lib.Ones
import DiscouNT.Net.Driver

/-!
# Net.Checksum

The Internet checksum: `net_checksum` in the 32 bits it is computed in, and the fields that
`send_udp_ipv4` and `send_icmp_echo` complete with it. `words` are the big-endian 16-bit words of
some data; the function computes the complement of their one's-complement sum, and data completed
with it has the checksum 0 (`net_checksum_exact`).
-/

namespace DiscouNT.Net

open Lib List

def sumLoop : List UInt8 → UInt32 → UInt32
  | [], sum => sum
  | [a], sum => sum + a.toUInt32 <<< 8
  | a :: b :: l, sum => sumLoop l (sum + (a.toUInt32 <<< 8 ||| b.toUInt32))

def carried (sum : UInt32) : UInt32 := (sum &&& (0xFFFF : UInt32)) + (sum >>> 16)

theorem carried_toNat (sum : UInt32) :
    (carried sum).toNat = sum.toNat % 65536 + sum.toNat / 65536 := by
  have hlow : (sum &&& (0xFFFF : UInt32)).toNat = sum.toNat % 65536 := by
    rw [UInt32.toNat_and]
    exact Nat.and_two_pow_sub_one_eq_mod sum.toNat 16
  have hhigh : (sum >>> 16 : UInt32).toNat = sum.toNat / 65536 := by
    rw [UInt32.toNat_shiftRight]
    exact Nat.shiftRight_eq_div_pow sum.toNat 16
  have := sum.toNat_lt
  rw [carried, UInt32.toNat_add, hlow, hhigh]
  omega

theorem high_eq_zero_iff (sum : UInt32) : sum >>> 16 = 0 ↔ sum.toNat < 65536 := by
  rw [← UInt32.toNat_inj, UInt32.toNat_shiftRight]
  change sum.toNat >>> 16 = 0 ↔ _
  rw [Nat.shiftRight_eq_div_pow]
  omega

def foldLoop (sum : UInt32) : UInt32 :=
  if sum >>> 16 = 0 then sum else foldLoop (carried sum)
termination_by sum.toNat
decreasing_by
  rename_i h
  rw [high_eq_zero_iff] at h
  rw [carried_toNat]
  omega

def netChecksum32 (l : List UInt8) : UInt16 := (~~~(foldLoop (sumLoop l 0))).toUInt16

def bswap16 (v : UInt16) : UInt16 := v <<< 8 ||| v >>> 8

def le16Bytes (v : UInt16) : List UInt8 := [v.toUInt8, (v >>> 8).toUInt8]

def completeChecksum (l : List UInt8) (field : Nat) : List UInt8 :=
  l.take field ++ le16Bytes (bswap16 (netChecksum32 l)) ++ l.drop (field + 2)

def echoIpHeader (s : NetState) (target : Ip) (seq : UInt16) : List UInt8 :=
  completeChecksum ([0x45, 0] ++ be16Bytes 60 ++ be16Bytes seq.toNat ++ [0, 0, 64, 1] ++ [0, 0] ++
    s.nicIp.bytes ++ target.bytes) 10

def echoMessage (s : NetState) (seq : UInt16) : List UInt8 :=
  completeChecksum ([8, 0] ++ [0, 0] ++ be16Bytes s.pingIdentifier.toNat ++ be16Bytes seq.toNat ++
    (List.range 32).map fun i => .ofNat (65 + i % 26)) 2

def World.sendIcmpEcho (w : World) (target : Ip) (dstMac : Mac) (seq : UInt16) : World :=
  w.nicSendRaw <| dstMac.bytes ++ w.net.nicMac.bytes ++ [0x08, 0x00] ++
    echoIpHeader w.net target seq ++ echoMessage w.net seq

/-- The big-endian words, an odd byte at the end padded with zero. -/
def words : List UInt8 → List Nat
  | [] => []
  | [a] => [a.toNat * 256]
  | a :: b :: l => (a.toNat * 256 + b.toNat) :: words l

theorem sumWords_eq_sum : ∀ l : List UInt8, sumWords l = (words l).sum
  | [] => rfl
  | [_] => by rw [sumWords, words, sum_singleton]
  | _ :: _ :: l => by rw [sumWords, words, sum_cons, sumWords_eq_sum l]

theorem words_le : ∀ l : List UInt8, ∀ word ∈ words l, word ≤ 65535
  | [], word, h => by cases h
  | [a], word, h => by
    have := a.toNat_lt
    rw [words, mem_singleton] at h
    omega
  | a :: b :: l, word, h => by
    have := a.toNat_lt
    have := b.toNat_lt
    rw [words, mem_cons] at h
    rcases h with rfl | h
    · omega
    · exact words_le l word h

theorem sumWords_le : ∀ l : List UInt8, 2 * sumWords l ≤ 65535 * (l.length + 1)
  | [] => by simp [sumWords]
  | [a] => by
    have := a.toNat_lt
    simp only [sumWords, length_singleton]
    omega
  | a :: b :: l => by
    have := a.toNat_lt
    have := b.toNat_lt
    have := sumWords_le l
    simp only [sumWords, length_cons]
    omega

theorem sumWords_append : ∀ {l : List UInt8} (l' : List UInt8), l.length % 2 = 0 →
    sumWords (l ++ l') = sumWords l + sumWords l'
  | [], l', _ => by simp [sumWords]
  | [_], _, h => by cases h
  | a :: b :: l, l', h => by
    have hl : l.length % 2 = 0 := by
      simp only [length_cons] at h
      omega
    rw [cons_append, cons_append, sumWords, sumWords, sumWords_append l' hl]
    omega

theorem be16Bytes_length (n : Nat) : (be16Bytes n).length = 2 := rfl

theorem sumWords_be16Bytes {n : Nat} (hn : n < 65536) : sumWords (be16Bytes n) = n := by
  rw [be16Bytes, sumWords, sumWords, UInt8.toNat_ofNat', UInt8.toNat_ofNat']
  omega

theorem foldSum_eq_rep (s : Nat) : foldSum s = Ones.rep 65535 s := by
  induction s using foldSum.induct with
  | case1 s hs =>
    rw [foldSum, if_pos hs]
    exact Ones.eq_rep (by omega) Iff.rfl rfl
  | case2 s hs ih =>
    rw [foldSum, if_neg hs, ih]
    refine Ones.eq_rep (Ones.rep_le (by decide) _) ?_ ?_
    · rw [Ones.rep_eq_zero_iff]
      omega
    · rw [Ones.rep_mod]
      omega

theorem netChecksum_eq (l : List UInt8) :
    netChecksum l = Ones.complement 65535 (Ones.sum 65535 (words l)) := by
  rw [netChecksum, foldSum_eq_rep, sumWords_eq_sum, Ones.sum_eq_rep (by decide) (words_le l)]
  rfl

theorem foldLoop_toNat (sum : UInt32) : (foldLoop sum).toNat = foldSum sum.toNat := by
  induction sum using foldLoop.induct with
  | case1 sum h =>
    rw [foldLoop, if_pos h, foldSum, if_pos ((high_eq_zero_iff sum).mp h)]
  | case2 sum h ih =>
    rw [foldLoop, if_neg h, ih, carried_toNat, foldSum.eq_def sum.toNat,
      if_neg fun hlt => h ((high_eq_zero_iff sum).mpr hlt)]

theorem high_or_low (a b : UInt8) :
    (a.toUInt32 <<< 8 ||| b.toUInt32).toNat = a.toNat * 256 + b.toNat := by
  have ha := a.toNat_lt
  have hshift : (a.toUInt32 <<< 8 : UInt32).toNat = a.toNat <<< 8 := by
    rw [UInt32.toNat_shiftLeft, UInt8.toNat_toUInt32]
    refine Nat.mod_eq_of_lt ?_
    change a.toNat <<< 8 < 2 ^ 32
    rw [Nat.shiftLeft_eq]
    omega
  rw [UInt32.toNat_or, hshift, UInt8.toNat_toUInt32,
    ← Nat.shiftLeft_add_eq_or_of_lt (show b.toNat < 2 ^ 8 from b.toNat_lt), Nat.shiftLeft_eq]

theorem sumLoop_toNat : ∀ {l : List UInt8} {sum : UInt32}, sum.toNat + sumWords l < 2 ^ 32 →
    (sumLoop l sum).toNat = sum.toNat + sumWords l
  | [], sum, _ => rfl
  | [a], sum, h => by
    have hword := high_or_low a 0
    have hzero : a.toUInt32 <<< 8 ||| (0 : UInt8).toUInt32 = a.toUInt32 <<< 8 := UInt32.or_zero
    have hlow : (0 : UInt8).toNat = 0 := rfl
    rw [hzero, hlow, Nat.add_zero] at hword
    rw [sumWords] at h ⊢
    rw [sumLoop, UInt32.toNat_add, hword, Nat.mod_eq_of_lt h]
  | a :: b :: l, sum, h => by
    rw [sumWords, ← Nat.add_assoc] at h ⊢
    have hword := Nat.lt_of_le_of_lt (Nat.le_add_right _ _) h
    have hadd : (sum + (a.toUInt32 <<< 8 ||| b.toUInt32)).toNat =
        sum.toNat + (a.toNat * 256 + b.toNat) := by
      rw [UInt32.toNat_add, high_or_low, Nat.mod_eq_of_lt hword]
    rw [← hadd] at h ⊢
    rw [sumLoop, sumLoop_toNat h]

theorem netChecksum32_toNat {l : List UInt8} (hl : l.length ≤ 65535) :
    (netChecksum32 l).toNat = netChecksum l := by
  have hsum : (sumLoop l 0).toNat = sumWords l := by
    have := sumWords_le l
    have hzero : (0 : UInt32).toNat = 0 := rfl
    rw [sumLoop_toNat (by omega), hzero, Nat.zero_add]
  have hfold : (foldLoop (sumLoop l 0)).toNat = foldSum (sumWords l) := by
    rw [foldLoop_toNat, hsum]
  have hle : foldSum (sumWords l) ≤ 65535 := by
    rw [foldSum_eq_rep]
    exact Ones.rep_le (by decide) _
  have hsize : UInt32.size = 4294967296 := rfl
  rw [netChecksum32, UInt32.toNat_toUInt16, UInt32.toNat_not, hfold, netChecksum, hsize]
  omega

theorem bswap16_toNat (v : UInt16) : (bswap16 v).toNat = v.toNat % 256 * 256 + v.toNat / 256 := by
  have hv := v.toNat_lt
  have hleft : (v <<< 8 : UInt16).toNat = (v.toNat % 256) <<< 8 := by
    rw [UInt16.toNat_shiftLeft]
    change v.toNat <<< 8 % 2 ^ 16 = _
    rw [Nat.shiftLeft_eq, Nat.shiftLeft_eq]
    omega
  have hright : (v >>> 8 : UInt16).toNat = v.toNat / 256 := by
    rw [UInt16.toNat_shiftRight]
    exact Nat.shiftRight_eq_div_pow v.toNat 8
  rw [bswap16, UInt16.toNat_or, hleft, hright,
    ← Nat.shiftLeft_add_eq_or_of_lt (show v.toNat / 256 < 2 ^ 8 by omega), Nat.shiftLeft_eq]

theorem le16Bytes_bswap16 (v : UInt16) : le16Bytes (bswap16 v) = be16Bytes v.toNat := by
  have hv := v.toNat_lt
  have hlow : (bswap16 v).toUInt8 = .ofNat (v.toNat / 256) := by
    rw [← UInt8.toNat_inj, UInt16.toNat_toUInt8, bswap16_toNat, UInt8.toNat_ofNat']
    omega
  have hhigh : (bswap16 v >>> 8).toUInt8 = .ofNat v.toNat := by
    have hshift : (bswap16 v >>> 8 : UInt16).toNat = (bswap16 v).toNat / 256 := by
      rw [UInt16.toNat_shiftRight]
      exact Nat.shiftRight_eq_div_pow _ 8
    have hdiv : (v.toNat % 256 * 256 + v.toNat / 256) / 256 = v.toNat % 256 := by
      rw [Nat.add_comm, Nat.add_mul_div_right _ _ (by decide), Nat.div_eq_of_lt (by omega),
        Nat.zero_add]
    rw [← UInt8.toNat_inj, UInt16.toNat_toUInt8, hshift, bswap16_toNat, hdiv, UInt8.toNat_ofNat']
    omega
  rw [le16Bytes, be16Bytes, hlow, hhigh]

theorem netChecksum_completed {l l' : List UInt8} (hl : l.length % 2 = 0) :
    netChecksum (l ++ be16Bytes (netChecksum (l ++ [0, 0] ++ l')) ++ l') = 0 := by
  have hsum : ∀ field : List UInt8, field.length % 2 = 0 →
      sumWords (l ++ field ++ l') = sumWords l + sumWords field + sumWords l' := by
    intro field hfield
    rw [sumWords_append l' (by rw [length_append]; omega), sumWords_append field hl]
  have hchecksum : netChecksum (l ++ [0, 0] ++ l') =
      Ones.complement 65535 (Ones.rep 65535 (sumWords l + sumWords l')) := by
    rw [netChecksum, foldSum_eq_rep, hsum [0, 0] rfl]
    rfl
  have hlt : Ones.complement 65535 (Ones.rep 65535 (sumWords l + sumWords l')) < 65536 := by
    rw [Ones.complement]
    omega
  rw [hchecksum, netChecksum, hsum _ (by rw [be16Bytes_length]), sumWords_be16Bytes hlt, foldSum_eq_rep,
    Nat.add_right_comm, Ones.rep_add_complement (by decide)]

theorem completeChecksum_eq {l l' : List UInt8} (hlen : (l ++ [0, 0] ++ l').length ≤ 65535) :
    completeChecksum (l ++ [0, 0] ++ l') l.length =
      l ++ be16Bytes (netChecksum (l ++ [0, 0] ++ l')) ++ l' := by
  rw [completeChecksum, le16Bytes_bswap16, netChecksum32_toNat hlen]
  simp [append_assoc]

theorem completeChecksum_zero {l l' : List UInt8} (hl : l.length % 2 = 0)
    (hlen : (l ++ [0, 0] ++ l').length ≤ 65535) :
    netChecksum32 (completeChecksum (l ++ [0, 0] ++ l') l.length) = 0 := by
  have hlen' : (l ++ be16Bytes (netChecksum (l ++ [0, 0] ++ l')) ++ l').length ≤ 65535 := by
    simp only [length_append, length_cons, length_nil, be16Bytes_length] at hlen ⊢
    omega
  rw [completeChecksum_eq hlen, ← UInt16.toNat_inj, netChecksum32_toNat hlen',
    netChecksum_completed hl]
  rfl

def Datagram.ipHeaderFront (d : Datagram) : List UInt8 :=
  [0x45, 0] ++ be16Bytes (28 + d.payload.length) ++ be16Bytes d.ipId ++ [0, 0, d.ttl, 17]

theorem ipHeader_split (d : Datagram) (n : Nat) :
    d.ipHeader n = d.ipHeaderFront ++ be16Bytes n ++ (d.srcIp.bytes ++ d.dstIp.bytes) :=
  append_assoc ..

theorem ipHeader_complete (d : Datagram) :
    completeChecksum (d.ipHeader 0) 10 = d.ipHeader (netChecksum (d.ipHeader 0)) := by
  rw [ipHeader_split, ipHeader_split]
  exact completeChecksum_eq (l := d.ipHeaderFront)
    (by simp [Datagram.ipHeaderFront, be16Bytes, Ip.bytes])

/-- The function computes the Internet checksum of up to 65535 bytes, and what is completed with it
has the checksum 0: the header of `send_udp_ipv4`, the header and the message of `send_icmp_echo`. -/
theorem net_checksum_exact :
    (∀ l : List UInt8, l.length ≤ 65535 →
      (netChecksum32 l).toNat = Ones.complement 65535 (Ones.sum 65535 (words l))) ∧
    (∀ l l' : List UInt8, l.length % 2 = 0 → (l ++ [0, 0] ++ l').length ≤ 65535 →
      netChecksum32 (completeChecksum (l ++ [0, 0] ++ l') l.length) = 0) ∧
    (∀ d : Datagram, netChecksum32 (d.ipHeader (netChecksum (d.ipHeader 0))) = 0) ∧
    ∀ (s : NetState) (target : Ip) (seq : UInt16),
      netChecksum32 (echoIpHeader s target seq) = 0 ∧ netChecksum32 (echoMessage s seq) = 0 := by
  refine ⟨fun l hl => ?_, fun l l' hl hlen => completeChecksum_zero hl hlen, fun d => ?_,
    fun s target seq => ⟨?_, ?_⟩⟩
  · rw [netChecksum32_toNat hl, netChecksum_eq]
  · rw [← ipHeader_complete, ipHeader_split]
    exact completeChecksum_zero (l := d.ipHeaderFront) (by simp [Datagram.ipHeaderFront, be16Bytes])
      (by simp [Datagram.ipHeaderFront, be16Bytes, Ip.bytes])
  · rw [echoIpHeader, append_assoc]
    exact completeChecksum_zero (l := [0x45, 0] ++ be16Bytes 60 ++ be16Bytes seq.toNat ++
      [0, 0, 64, 1]) (by simp [be16Bytes]) (by simp [be16Bytes, Ip.bytes])
  · have hsplit : ([8, 0] ++ [0, 0] ++ be16Bytes s.pingIdentifier.toNat ++ be16Bytes seq.toNat ++
        (List.range 32).map fun i => UInt8.ofNat (65 + i % 26)) = [8, 0] ++ [0, 0] ++
          (be16Bytes s.pingIdentifier.toNat ++ be16Bytes seq.toNat ++
            (List.range 32).map fun i => UInt8.ofNat (65 + i % 26)) := by
      simp only [append_assoc]
    rw [echoMessage, hsplit]
    exact completeChecksum_zero (l := [8, 0]) rfl (by simp [be16Bytes])

end DiscouNT.Net
