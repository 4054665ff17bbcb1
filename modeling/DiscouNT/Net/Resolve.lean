import DiscouNT.Net.Driver

/-!
# Net.Resolve

`NetResolve` in `drivers/net/net.c`, with `dns_encode_name`.

* A string is the list of the bytes before its final zero.
* `query` and `query_len` start as whatever is on the stack. Memory behind the 512 bytes of `query`
  is there too, and a store into it is logged like any other.
-/

namespace DiscouNT.Net

open Lib

/-- The loop of `parse_ip`, with the numbers it has completed. -/
def parseIpLoop : List UInt8 → List UInt8 → Nat → Bool → Option Ip
  | [], parts, val, saw =>
    match saw, parts with
    | true, [a, b, c] => some ⟨a, b, c, .ofNat val⟩
    | _, _ => none
  | ch :: text, parts, val, saw =>
    if 48 ≤ ch ∧ ch ≤ 57 then
      let val := val * 10 + (ch.toNat - 48)
      if 255 < val then none else parseIpLoop text parts val true
    else if ch = 46 then
      if saw = false ∨ 3 ≤ parts.length then none
      else parseIpLoop text (parts ++ [.ofNat val]) 0 false
    else none

def parseIp (text : List UInt8) : Option Ip := parseIpLoop text [] 0 false

def decimal (n : UInt8) : List UInt8 := (Nat.toDigits 10 n.toNat).map fun ch => .ofNat ch.toNat

def formatIp (ip : Ip) : List UInt8 :=
  decimal ip.b0 ++ [46] ++ decimal ip.b1 ++ [46] ++ decimal ip.b2 ++ [46] ++ decimal ip.b3

def ipSameSubnet (mask a b : Ip) : Bool :=
  a.b0 &&& mask.b0 = b.b0 &&& mask.b0 ∧ a.b1 &&& mask.b1 = b.b1 &&& mask.b1 ∧
    a.b2 &&& mask.b2 = b.b2 &&& mask.b2 ∧ a.b3 &&& mask.b3 = b.b3 &&& mask.b3

structure Query where
  mem : Mem
  len : Int

def store (a : Nat) (l : List UInt8) (q : Mem) : Logged Access Mem :=
  .note (.dst a l.length) (storeBytes q a l)

/-- A label of the name is complete: the new `pos`, unless it is too long or does not fit. -/
def encodeLabel (label : List UInt8) (pos : Nat) (q : Mem) : Logged Access (Option (Nat × Mem)) :=
  if label.length < 1 ∨ 63 < label.length ∨ 500 < pos + label.length + 2 then pure none
  else do
    let q ← store (12 + pos) [.ofNat label.length] q
    let q ← store (12 + pos + 1) label q
    pure (some (pos + 1 + label.length, q))

def encodeLoop : List UInt8 → List UInt8 → Nat → Mem → Logged Access (Option (Nat × Mem))
  | [], label, pos, q => do
    match ← encodeLabel label pos q with
    | none => pure none
    | some (pos, q) =>
      let q ← store (12 + pos) [0] q
      pure (some (pos + 1, q))
  | ch :: name, label, pos, q =>
    if ch = 46 then do
      match ← encodeLabel label pos q with
      | none => pure none
      | some (pos, q) => encodeLoop name [] pos q
    else encodeLoop name (label ++ [ch]) pos q

def dnsEncodeName (name : List UInt8) (q : Mem) : Logged Access (Option (Nat × Mem)) :=
  if name = [] ∨ name.getLast? = some 46 then pure none else encodeLoop name [] 0 q

/-- The query is built; `none` where the name cannot be encoded. -/
def buildQuery (name : List UInt8) (id : UInt16) (q : Mem) : Logged Access (Option Query) := do
  let q ← store 0 (List.replicate 512 0) q
  let q ← store 0 (be16Bytes id.toNat) q
  let q ← store 2 [1, 0] q
  let q ← store 5 [1] q
  match ← dnsEncodeName name q with
  | none => pure none
  | some (nameEnd, q) =>
    let q ← store (12 + nameEnd) [0] q
    let q ← store (12 + nameEnd + 1) [1] q
    let q ← store (12 + nameEnd + 2) [0] q
    let q ← store (12 + nameEnd + 3) [1] q
    pure (some ⟨q, 12 + nameEnd + 4⟩)

def World.askArp (rx : Rx) (hop : Ip) (w : World) : World :=
  waitFor rx (·.arpValid) 4000000 0
    (World.sendArpRequest { w with net := { w.net with arpValid := false } } hop)

def Answered (s : NetState) (hop : Ip) : Prop := s.arpValid = true ∧ s.arpIp = hop

instance (s : NetState) (hop : Ip) : Decidable (Answered s hop) :=
  inferInstanceAs (Decidable (_ ∧ _))

def NetState.queryDatagram (s : NetState) (dst : Ip) (mac : Mac) (q : Query) : Datagram where
  srcIp := s.nicIp
  dstIp := dst
  dstMac := mac
  srcPort := 53000
  dstPort := 53
  payload := loadBytes q.mem 0 q.len.toNat
  ttl := 64
  ipId := s.dnsQueryId.toNat

def World.sendQuery (w : World) (dst : Ip) (mac : Mac) (q : Query) : World :=
  if q.len < 0 then w else w.sendUdpIpv4 (w.net.queryDatagram dst mac q)

def askLoop (rx : Rx) (dst : NetState → Ip) (mac : Mac) :
    Nat → Query → World → Logged Access (Query × World)
  | 0, q, w => pure (q, w)
  | attempts + 1, q, w =>
    if w.net.dnsResultValid then pure (q, w)
    else do
      let id := w.net.dnsQueryId + 1
      let mem ← store 0 (be16Bytes id.toNat) q.mem
      let q := { q with mem := mem }
      let w := { w with net := { w.net with dnsQueryId := id, dnsQueryActive := true } }
      let w := waitFor rx (·.dnsResultValid) 12000000 0 (w.sendQuery (dst w.net) mac q)
      askLoop rx dst mac attempts q w

def askServer (rx : Rx) (dst : NetState → Ip) (q : Query) (w : World) :
    Logged Access (Query × World) := do
  let r ← askLoop rx dst w.net.arpMac 2 q w
  pure (r.1, { r.2 with net := { r.2.net with dnsQueryActive := false } })

structure Resolved where
  world : World
  code : Int
  text : Option (List UInt8)

def resolveEnd (w : World) : Resolved :=
  if w.net.dnsResultValid then ⟨w, 0, some (formatIp w.net.dnsResultIp)⟩ else ⟨w, -5, none⟩

/-- The public server is asked when there is no answer yet. -/
def resolveFallback (rx : Rx) (q : Query) (w : World) : Logged Access Resolved :=
  if w.net.dnsResultValid = true ∨ w.net.nicDns = ⟨8, 8, 8, 8⟩ then pure (resolveEnd w)
  else
    let hop := w.net.nicGateway
    let w := w.askArp rx hop
    if Answered w.net hop then do
      let r ← askServer rx (fun _ => ⟨8, 8, 8, 8⟩) q w
      pure (resolveEnd r.2)
    else pure (resolveEnd w)

def NetState.nextHop (s : NetState) : Ip :=
  if ipSameSubnet s.nicMask s.nicIp s.nicDns then s.nicDns else s.nicGateway

def resolveQuery (rx : Rx) (stack : Query) (name : List UInt8) (w : World) :
    Logged Access Resolved :=
  let hop := w.net.nextHop
  let w := World.askArp rx hop { w with net := { w.net with dnsResultValid := false } }
  if Answered w.net hop then do
    let w := { w with net := { w.net with dnsQueryId := w.net.dnsQueryId + 1 } }
    match ← buildQuery name w.net.dnsQueryId stack.mem with
    | none => pure ⟨w, -4, none⟩
    | some q =>
      let w := { w with net := { w.net with dnsResultValid := false } }
      let r ← askServer rx (·.nicDns) q w
      resolveFallback rx r.1 r.2
  else resolveFallback rx stack w

/-- `NetResolve` in the state `s`, where the card is `ready` and `outLen` is `out_ip_len`, if `out_ip`
is not null. -/
def netResolve (rx : Rx) (ready : Bool) (stack : Query) (name : Option (List UInt8))
    (outLen : Option Int) (s : NetState) : Logged Access Resolved :=
  let w : World := ⟨s, 0, []⟩
  match name, outLen with
  | some name, some n =>
    if n < 16 then pure ⟨w, -1, none⟩
    else
      match parseIp name with
      | some ip => pure ⟨w, 0, some (formatIp ip)⟩
      | none =>
        if ready = false ∨ s.nicDnsValid = false then pure ⟨w, -2, none⟩
        else resolveQuery rx stack name w
  | _, _ => pure ⟨w, -1, none⟩

end DiscouNT.Net
