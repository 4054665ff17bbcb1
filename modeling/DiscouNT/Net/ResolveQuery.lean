import DiscouNT.Net.WireName

/-!
# Net.ResolveQuery

Which datagrams `NetResolve` sends to port 53. `WellFormedQuery` says what a query for a name is,
on the bytes of the payload; `buildQuery_some` says that the buffer is filled with one, and
`netResolve_queries_iff` in which runs nothing else is sent and nothing is stored behind the buffer.
-/

namespace DiscouNT.Net

open Lib List Logged

/-- The part of a query behind its id: recursion desired, one question, for type A and class IN. -/
def queryTail (labels : List (List UInt8)) : List UInt8 :=
  [1, 0, 0, 1, 0, 0, 0, 0, 0, 0] ++ encodeName labels ++ [0, 1, 0, 1]

/-- The payload is a query with this id and one question, for the address of this name. -/
def WellFormedQuery (name : List UInt8) (id : UInt16) (payload : List UInt8) : Prop :=
  ∃ labels, IsName name labels ∧ (encodeName labels).length ≤ 255 ∧
    payload = be16Bytes id.toNat ++ queryTail labels ∧ payload.length ≤ 512

def dnsPayload (bytes : List UInt8) : Option (List UInt8) :=
  if bytes[12]? = some 8 ∧ bytes[13]? = some 0 ∧ bytes[23]? = some 17 ∧ bytes[36]? = some 0 ∧
      bytes[37]? = some 53 then
    some ((bytes.drop 42).take ((bytes.getD 38 0).toNat * 256 + (bytes.getD 39 0).toNat - 8))
  else none

/-- Everything that was sent to port 53 is a query for the name, with the id of that moment. -/
def QueriesSound (name : Option (List UInt8)) (history : List Event) : Prop :=
  ∀ bytes net payload, .sent bytes net ∈ history → dnsPayload bytes = some payload →
    ∃ n, name = some n ∧ WellFormedQuery n net.dnsQueryId payload

section Encode

variable {label name : List UInt8} {pos : Nat} {q : Mem} {id : UInt16}

theorem store_inside {a : Nat} {l : List UInt8} (h : a + l.length ≤ 512) :
    (store a l q).All (Access.Inside 0 512) := by
  simp [store, Access.Inside]
  omega

variable (label pos q) in
theorem encodeLabel_inside : (encodeLabel label pos q).All (Access.Inside 0 512) ∧
    ∀ r, (encodeLabel label pos q).val = some r → r.1 ≤ 499 := by
  rw [encodeLabel]
  split
  · exact ⟨all_pure _, nofun⟩
  · rename_i h
    refine ⟨(Logged.all_bind _ _).mpr ⟨store_inside (by simp; omega), (Logged.all_bind _ _).mpr
      ⟨store_inside (by omega), all_pure _⟩⟩, fun r hr => ?_⟩
    cases hr
    simp only
    omega

theorem encodeLoop_inside : ∀ {name label : List UInt8} {pos : Nat} {q : Mem},
    (encodeLoop name label pos q).All (Access.Inside 0 512) := by
  intro name
  induction name with
  | nil =>
    intro label pos q
    obtain ⟨hin, hval⟩ := encodeLabel_inside label pos q
    refine (Logged.all_bind _ _).mpr ⟨hin, ?_⟩
    rcases hr : (encodeLabel label pos q).val with _ | ⟨pos', q'⟩
    · exact all_pure _
    · have hle : pos' ≤ 499 := hval _ hr
      exact (Logged.all_bind _ _).mpr ⟨store_inside (by simp; omega), all_pure _⟩
  | cons ch name ih =>
    intro label pos q
    rw [encodeLoop]
    split
    · refine (Logged.all_bind _ _).mpr ⟨(encodeLabel_inside _ _ _).1, ?_⟩
      rcases (encodeLabel label pos q).val with _ | ⟨pos', q'⟩
      · exact all_pure _
      · exact ih
    · exact ih

theorem dnsEncodeName_val (name : List UInt8) (q : Mem) : (dnsEncodeName name q).val =
    if LabelsOk (labelsFrom [] name) ∧ name.length ≤ 498 then
      some (name.length + 2, storeBytes q 12 (encodeName (labelsFrom [] name)))
    else none := by
  rw [dnsEncodeName_eq, dnsEncodeNameTo_val]
  simp only [show name.length + 2 ≤ 500 ↔ name.length ≤ 498 by omega]

/-- The buffer with the bytes of the query behind the id. -/
structure Holding (name : List UInt8) (q : Query) : Prop where
  len : q.len = (name.length + 18 : Nat)
  tail : loadBytes q.mem 2 (name.length + 16) = queryTail (labelsFrom [] name)

def clearedHeader (id : UInt16) (q : Mem) : Mem :=
  storeBytes (storeBytes (storeBytes (storeBytes q 0 (List.replicate 512 0)) 0 (be16Bytes id.toNat)) 2
    [1, 0]) 5 [1]

theorem clearedHeader_zero {i : Nat} (h4 : i = 4 ∨ 6 ≤ i) (h : i < 512) : clearedHeader id q i = 0 := by
  have hzero := storeBytes_in (m := q) (a := 0) (i := i) (l := List.replicate 512 0)
    (by rw [length_replicate]; exact h)
  rw [Nat.zero_add, getElem_replicate] at hzero
  rw [clearedHeader, storeBytes_out (by simp; omega), storeBytes_out (by simp; omega),
    storeBytes_out (by simp [be16Bytes]; omega), hzero]

theorem clearedHeader_tail : loadBytes (clearedHeader id q) 2 10 = [1, 0, 0, 1, 0, 0, 0, 0, 0, 0] := by
  have h2 : clearedHeader id q 2 = 1 := by
    rw [clearedHeader, storeBytes_out (by simp)]
    exact storeBytes_in (i := 0) (l := [1, 0]) (by simp)
  have h3 : clearedHeader id q 3 = 0 := by
    rw [clearedHeader, storeBytes_out (by simp)]
    exact storeBytes_in (i := 1) (l := [1, 0]) (by simp)
  have h5 : clearedHeader id q 5 = 1 := storeBytes_in (i := 0) (l := [1]) (by simp)
  have hrest : ∀ i, i = 4 ∨ 6 ≤ i → i < 512 → clearedHeader id q i = 0 :=
    fun i hi h => clearedHeader_zero hi h
  simp [loadBytes, List.range', h2, h3, h5, hrest]

theorem buildQuery_eq : (buildQuery name id q).val =
    ((dnsEncodeName name (clearedHeader id q)).val).map fun r =>
      ⟨storeBytes r.2 (12 + r.1) [0, 1, 0, 1], (12 + r.1 + 4 : Nat)⟩ := by
  have hstore : ∀ (m : Mem) (a : Nat), storeBytes (storeBytes (storeBytes (storeBytes m a [0]) (a + 1)
      [1]) (a + 2) [0]) (a + 3) [1] = storeBytes m a [0, 1, 0, 1] := by
    intro m a
    have h1 := storeBytes_append m a [0] [1]
    have h2 := storeBytes_append m a [0, 1] [0]
    have h3 := storeBytes_append m a [0, 1, 0] [1]
    simp only [length_cons, length_nil, Nat.zero_add, cons_append, nil_append] at h1 h2 h3
    rw [h1, h2, h3]
  simp only [buildQuery, store, val_bind, val_note]
  rw [← clearedHeader]
  rcases (dnsEncodeName name (clearedHeader id q)).val with _ | ⟨nameEnd, q'⟩
  · rfl
  · simp only [val_bind, val_note, val_pure, hstore, Option.map_some]
    congr 2

theorem dnsEncodeName_inside : (dnsEncodeName name q).All (Access.Inside 0 512) := by
  rw [dnsEncodeName]
  split
  · exact all_pure _
  · exact encodeLoop_inside

theorem buildQuery_inside (h : ∀ r, (dnsEncodeName name (clearedHeader id q)).val = some r →
    r.1 ≤ 496) : (buildQuery name id q).All (Access.Inside 0 512) := by
  refine (Logged.all_bind _ _).mpr ⟨store_inside (by rw [length_replicate]), ?_⟩
  refine (Logged.all_bind _ _).mpr ⟨store_inside (by simp [be16Bytes]), ?_⟩
  refine (Logged.all_bind _ _).mpr ⟨store_inside (by simp), ?_⟩
  refine (Logged.all_bind _ _).mpr ⟨store_inside (by simp), ?_⟩
  refine (Logged.all_bind _ _).mpr ⟨dnsEncodeName_inside, ?_⟩
  split
  · exact all_pure _
  · rename_i nameEnd q' hr
    have hend : nameEnd ≤ 496 := h _ hr
    refine (Logged.all_bind _ _).mpr ⟨store_inside (by simp; omega), ?_⟩
    refine (Logged.all_bind _ _).mpr ⟨store_inside (by simp; omega), ?_⟩
    refine (Logged.all_bind _ _).mpr ⟨store_inside (by simp; omega), ?_⟩
    exact (Logged.all_bind _ _).mpr ⟨store_inside (by simp; omega), all_pure _⟩

variable (id) in
theorem buildQuery_none (h : ¬ (LabelsOk (labelsFrom [] name) ∧ name.length ≤ 498)) :
    (buildQuery name id q).val = none ∧ (buildQuery name id q).All (Access.Inside 0 512) := by
  have hnone : (dnsEncodeName name (clearedHeader id q)).val = none := by
    rw [dnsEncodeName_val, if_neg h]
  refine ⟨by rw [buildQuery_eq, hnone]; rfl, buildQuery_inside fun r hr => ?_⟩
  rw [hnone] at hr
  cases hr

variable (id) in
theorem buildQuery_some (h : LabelsOk (labelsFrom [] name)) (hlen : name.length ≤ 498) :
    ∃ r, (buildQuery name id q).val = some r ∧ Holding name r ∧
      (name.length ≤ 494 → (buildQuery name id q).All (Access.Inside 0 512)) := by
  have hsome : (dnsEncodeName name (clearedHeader id q)).val =
      some (name.length + 2, storeBytes (clearedHeader id q) 12 (encodeName (labelsFrom [] name))) := by
    rw [dnsEncodeName_val, if_pos ⟨h, hlen⟩]
  refine ⟨_, by rw [buildQuery_eq, hsome]; rfl, ⟨?_, ?_⟩, fun hfit => buildQuery_inside fun r hr => ?_⟩
  · simp only
    congr 1
    omega
  · have hname := labelsFrom_length name
    have happ := storeBytes_append (clearedHeader id q) 12 (encodeName (labelsFrom [] name))
      [0, 1, 0, 1]
    rw [hname] at happ
    simp only [happ]
    -- ten bytes of the header, then the name and the question's type and class
    rw [show name.length + 16 = 10 + (encodeName (labelsFrom [] name) ++ [0, 1, 0, 1]).length by
      simp [hname]; omega, loadBytes_add, loadBytes_storeBytes_other (by omega), clearedHeader_tail,
      loadBytes_storeBytes_same, queryTail, append_assoc]
  · rw [hsome] at hr
    cases hr
    simp only
    omega

end Encode

section Sending

variable {name : List UInt8} {q : Query} {w : World} {rx : Rx} {dst : NetState → Ip} {mac : Mac}
  {e : Event} {n : Option (List UInt8)}

theorem dnsPayload_frame (d : Datagram) (mac : Mac) (hport : d.dstPort = 53)
    (hlen : d.payload.length ≤ 558) : dnsPayload (d.frame mac) = some d.payload := by
  have hhdr : ∀ i, i < 34 → (d.frame mac)[i]? = (d.headers mac)[i]? := fun i hi => by
    rw [Datagram.frame, getElem?_append_left (by rw [d.headers_length]; exact hi)]
  have hudp : ∀ i, i < 8 → (d.frame mac)[34 + i]? = d.udpHeader[i]? := fun i hi => by
    rw [d.frame_udp, getElem?_append_left (by rw [d.udpHeader_length]; exact hi)]
  have hlenBytes : ((d.frame mac).getD 38 0).toNat * 256 + ((d.frame mac).getD 39 0).toNat =
      8 + d.payload.length := by
    have h38 := hudp 4 (by omega)
    have h39 := hudp 5 (by omega)
    rw [getD_eq_getElem?_getD, getD_eq_getElem?_getD, h38, h39]
    simp [Datagram.udpHeader, be16Bytes]
    omega
  have hdrop : (d.frame mac).drop 42 = d.payload := by
    rw [Datagram.frame, ← append_assoc]
    exact drop_left' (by simp [d.headers_length, d.udpHeader_length])
  rw [dnsPayload, if_pos, hlenBytes, hdrop, Nat.add_sub_cancel_left, take_length]
  refine ⟨?_, ?_, ?_, ?_, ?_⟩
  · rw [hhdr 12 (by omega)]
    simp [Datagram.headers, Mac.bytes]
  · rw [hhdr 13 (by omega)]
    simp [Datagram.headers, Mac.bytes]
  · rw [hhdr 23 (by omega)]
    simp [Datagram.headers, Datagram.ipHeader, Mac.bytes, be16Bytes]
  · have := hudp 2 (by omega)
    rw [this]
    simp [Datagram.udpHeader, be16Bytes, hport]
  · have := hudp 3 (by omega)
    rw [this]
    simp [Datagram.udpHeader, be16Bytes, hport]

theorem dnsPayload_arp (w : World) (hop : Ip) :
    ∃ bytes, w.sendArpRequest hop = w.nicSendRaw bytes ∧ dnsPayload bytes = none := by
  refine ⟨_, rfl, ?_⟩
  rw [dnsPayload, if_neg]
  rintro ⟨_, h, _⟩
  simp [Mac.bytes] at h

theorem queriesSound_nil : QueriesSound n [] := by
  intro bytes net payload hmem
  cases hmem

theorem queriesSound_sent {bytes : List UInt8} (h : QueriesSound n w.history)
    (hbytes : ∀ payload, dnsPayload bytes = some payload →
      ∃ k, n = some k ∧ WellFormedQuery k w.net.dnsQueryId payload) :
    QueriesSound n (w.nicSendRaw bytes).history := by
  intro bytes' net payload hmem hp
  rcases mem_cons.mp hmem with heq | hmem
  · cases heq
    exact hbytes payload hp
  · exact h bytes' net payload hmem hp

theorem deliver_sound (w : World) (f : Frame) (h : QueriesSound n w.history) :
    QueriesSound n (w.deliver f).history := by
  intro bytes net payload hmem hp
  rcases mem_cons.mp hmem with heq | hmem
  · cases heq
  · exact h bytes net payload hmem hp

theorem waitFor_sound {flag : NetState → Bool} {left i : Nat} (h : QueriesSound n w.history) :
    QueriesSound n (waitFor rx flag left i w).history :=
  waitFor_keeps (P := fun w => QueriesSound n w.history) deliver_sound (fun _ _ h => h) h

theorem askArp_sound {hop : Ip} (h : QueriesSound n w.history) :
    QueriesSound n (w.askArp rx hop).history := by
  obtain ⟨bytes, hsend, hnone⟩ := dnsPayload_arp { w with net := { w.net with arpValid := false } } hop
  rw [World.askArp, hsend]
  refine waitFor_sound (queriesSound_sent h fun payload hp => ?_)
  rw [hnone] at hp
  cases hp

theorem sendQuery_sound {server : Ip} (hok : LabelsOk (labelsFrom [] name)) (hlen : name.length ≤ 253)
    (hq : Holding name q) (hid : loadBytes q.mem 0 2 = be16Bytes w.net.dnsQueryId.toNat)
    (h : QueriesSound (some name) w.history) :
    QueriesSound (some name) (w.sendQuery server mac q).history := by
  have hload : loadBytes q.mem 0 q.len.toNat =
      be16Bytes w.net.dnsQueryId.toNat ++ queryTail (labelsFrom [] name) := by
    rw [hq.len, Int.toNat_natCast, show name.length + 18 = 2 + (name.length + 16) by omega,
      loadBytes_add, hid, hq.tail]
  have hsize : (loadBytes q.mem 0 q.len.toNat).length = name.length + 18 := by
    rw [loadBytes_length, hq.len, Int.toNat_natCast]
  rw [World.sendQuery, if_neg (by rw [hq.len]; omega), World.sendUdpIpv4,
    if_neg (by simp only [NetState.queryDatagram, hsize]; omega)]
  refine queriesSound_sent h fun payload hp => ?_
  have hframe := dnsPayload_frame (w.net.queryDatagram server mac q) w.net.nicMac rfl
    (by simp only [NetState.queryDatagram, hsize]; omega)
  have hp : loadBytes q.mem 0 q.len.toNat = payload := Option.some.inj (hframe.symm.trans hp)
  obtain ⟨labels, hname⟩ := isName_labelsFrom.mp hok
  refine ⟨name, rfl, labels, hname, ?_, ?_, ?_⟩
  · rw [hname.labels_eq, labelsFrom_length]
    omega
  · rw [← hp, hname.labels_eq]
    exact hload
  · rw [← hp]
    simp only [hsize]
    omega

theorem Holding.storeId {id : UInt16} (h : Holding name q) :
    Holding name { q with mem := storeBytes q.mem 0 (be16Bytes id.toNat) } := by
  refine ⟨h.len, ?_⟩
  rw [← h.tail]
  have hlen : 0 + (be16Bytes id.toNat).length ≤ 2 := by simp [be16Bytes]
  exact loadBytes_storeBytes_other (.inr hlen)

variable (rx dst mac) in
theorem askLoop_sound (hok : LabelsOk (labelsFrom [] name)) (hlen : name.length ≤ 253) :
    ∀ (attempts : Nat) {q : Query} {w : World}, Holding name q → QueriesSound (some name) w.history →
      Holding name (askLoop rx dst mac attempts q w).val.1 ∧
      QueriesSound (some name) (askLoop rx dst mac attempts q w).val.2.history := by
  intro attempts
  induction attempts with
  | zero => intro q w hq h; exact ⟨hq, h⟩
  | succ attempts ih =>
    intro q w hq h
    rw [askLoop]
    split
    · exact ⟨hq, h⟩
    · have hid := loadBytes_storeBytes_same q.mem 0 (be16Bytes (w.net.dnsQueryId + 1).toNat)
      exact ih hq.storeId (waitFor_sound (sendQuery_sound hok hlen hq.storeId hid h))

theorem askLoop_inside : ∀ {attempts : Nat} {q : Query} {w : World},
    (askLoop rx dst mac attempts q w).All (Access.Inside 0 512) := by
  intro attempts
  induction attempts with
  | zero => intro q w; exact all_pure _
  | succ attempts ih =>
    intro q w
    rw [askLoop]
    split
    · exact all_pure _
    · exact (Logged.all_bind _ _).mpr ⟨store_inside (by simp [be16Bytes]), ih⟩

theorem askServer_inside : (askServer rx dst q w).All (Access.Inside 0 512) :=
  (Logged.all_bind _ _).mpr ⟨askLoop_inside, all_pure _⟩

theorem resolveFallback_inside : (resolveFallback rx q w).All (Access.Inside 0 512) := by
  rw [resolveFallback]
  split
  · exact all_pure _
  · simp only
    split
    · exact (Logged.all_bind _ _).mpr ⟨askServer_inside, all_pure _⟩
    · exact all_pure _

theorem resolveEnd_world : (resolveEnd w).world = w := by
  rw [resolveEnd]
  split <;> rfl

theorem resolveFallback_sound (hok : LabelsOk (labelsFrom [] name)) (hlen : name.length ≤ 253)
    (hq : Holding name q) (h : QueriesSound (some name) w.history) :
    QueriesSound (some name) (resolveFallback rx q w).val.world.history := by
  rw [resolveFallback]
  split
  · rw [val_pure, resolveEnd_world]
    exact h
  · simp only
    split
    · simp only [val_bind, val_pure, resolveEnd_world]
      exact (askLoop_sound _ _ _ hok hlen _ hq (askArp_sound h)).2
    · rw [val_pure, resolveEnd_world]
      exact askArp_sound h

theorem waitFor_mem {flag : NetState → Bool} {left i : Nat} (h : e ∈ w.history) :
    e ∈ (waitFor rx flag left i w).history :=
  waitFor_keeps (P := fun w => e ∈ w.history) (fun _ _ h => mem_cons_of_mem _ h)
    (fun _ _ h => h) h

theorem nicSendRaw_mem {bytes : List UInt8} (h : e ∈ w.history) : e ∈ (w.nicSendRaw bytes).history :=
  mem_cons_of_mem _ h

theorem sendUdpIpv4_mem {d : Datagram} (h : e ∈ w.history) : e ∈ (w.sendUdpIpv4 d).history := by
  rw [World.sendUdpIpv4]
  split
  · exact h
  · exact nicSendRaw_mem h

theorem sendQuery_mem {server : Ip} (h : e ∈ w.history) : e ∈ (w.sendQuery server mac q).history := by
  rw [World.sendQuery]
  split
  · exact h
  · exact sendUdpIpv4_mem h

theorem askArp_mem {hop : Ip} (h : e ∈ w.history) : e ∈ (w.askArp rx hop).history :=
  waitFor_mem (nicSendRaw_mem h)

theorem askLoop_mem : ∀ {attempts : Nat} {q : Query} {w : World}, e ∈ w.history →
    e ∈ (askLoop rx dst mac attempts q w).val.2.history := by
  intro attempts
  induction attempts with
  | zero => intro q w h; exact h
  | succ attempts ih =>
    intro q w h
    rw [askLoop]
    split
    · exact h
    · exact ih (waitFor_mem (sendQuery_mem h))

theorem resolveFallback_mem (h : e ∈ w.history) :
    e ∈ (resolveFallback rx q w).val.world.history := by
  rw [resolveFallback]
  split
  · rw [val_pure, resolveEnd_world]
    exact h
  · simp only
    split
    · simp only [val_bind, val_pure, resolveEnd_world]
      exact askLoop_mem (askArp_mem h)
    · rw [val_pure, resolveEnd_world]
      exact askArp_mem h

variable (rx dst) in
theorem askServer_sends (hresult : w.net.dnsResultValid = false) (h0 : 0 ≤ q.len)
    (hlen : q.len ≤ 558) : ∃ bytes net payload, .sent bytes net ∈ (askServer rx dst q w).val.2.history ∧
      dnsPayload bytes = some payload ∧ payload.length = q.len.toNat := by
  simp only [askServer, val_bind, val_pure]
  rw [askLoop, if_neg (by simp [hresult])]
  simp only [store, val_bind, val_note]
  generalize storeBytes q.mem 0 (be16Bytes (w.net.dnsQueryId + 1).toNat) = mem
  generalize ({ w.net with dnsQueryId := w.net.dnsQueryId + 1, dnsQueryActive := true } : NetState) = s
  have hsize : (s.queryDatagram (dst s) w.net.arpMac ⟨mem, q.len⟩).payload.length = q.len.toNat :=
    loadBytes_length _ _ _
  refine ⟨_, s, _, askLoop_mem (waitFor_mem ?_), dnsPayload_frame (s.queryDatagram (dst s)
    w.net.arpMac ⟨mem, q.len⟩) s.nicMac rfl (by rw [hsize]; omega), hsize⟩
  · rw [World.sendQuery, if_neg (by simp only; omega), World.sendUdpIpv4,
      if_neg (by rw [hsize]; omega)]
    exact mem_cons_self

end Sending

/-! ## When only queries are sent -/

def firstHop (rx : Rx) (s : NetState) : World :=
  World.askArp rx s.nextHop ⟨{ s with dnsResultValid := false }, 0, []⟩

/-- The world behind the ARP exchange with the gateway, when the first one failed. -/
def secondHop (rx : Rx) (s : NetState) : World :=
  (firstHop rx s).askArp rx (firstHop rx s).net.nicGateway

/-- Either the first hop answers, and the name is of at most 253 bytes unless it cannot be encoded, or
the public server is not asked. -/
def OnlyQueries (rx : Rx) (name : List UInt8) (s : NetState) : Prop :=
  if Answered (firstHop rx s).net s.nextHop then
    ∀ labels, IsName name labels → name.length ≤ 498 → name.length ≤ 253
  else
    (firstHop rx s).net.dnsResultValid = true ∨ (firstHop rx s).net.nicDns = ⟨8, 8, 8, 8⟩ ∨
      ¬ Answered (secondHop rx s).net (firstHop rx s).net.nicGateway ∨
      (secondHop rx s).net.dnsResultValid = true

section Runs

variable {name : List UInt8} {s : NetState} {rx : Rx} {stack q : Query}

def Sound (name : Option (List UInt8)) (r : Logged Access Resolved) : Prop :=
  QueriesSound name r.val.world.history ∧ r.All (Access.Inside 0 512)

theorem firstHop_sound : QueriesSound (some name) (firstHop rx s).history :=
  askArp_sound queriesSound_nil

theorem resolveQuery_answered (h : Answered (firstHop rx s).net s.nextHop) :
    resolveQuery rx stack name ⟨s, 0, []⟩ = (do
      let w := firstHop rx s
      let w := { w with net := { w.net with dnsQueryId := w.net.dnsQueryId + 1 } }
      match ← buildQuery name w.net.dnsQueryId stack.mem with
      | none => pure ⟨w, -4, none⟩
      | some q =>
        let w := { w with net := { w.net with dnsResultValid := false } }
        let r ← askServer rx (·.nicDns) q w
        resolveFallback rx r.1 r.2) := by
  rw [resolveQuery]
  exact if_pos h

theorem resolveQuery_silent (h : ¬ Answered (firstHop rx s).net s.nextHop) :
    resolveQuery rx stack name ⟨s, 0, []⟩ = resolveFallback rx stack (firstHop rx s) := by
  rw [resolveQuery]
  exact if_neg h

theorem resolveQuery_sound (h : OnlyQueries rx name s) :
    Sound (some name) (resolveQuery rx stack name ⟨s, 0, []⟩) := by
  rw [OnlyQueries] at h
  by_cases hans : Answered (firstHop rx s).net s.nextHop
  · rw [if_pos hans] at h
    rw [resolveQuery_answered hans]
    by_cases hok : LabelsOk (labelsFrom [] name) ∧ name.length ≤ 498
    · obtain ⟨labels, hname⟩ := isName_labelsFrom.mp hok.1
      have hlen := h labels hname hok.2
      obtain ⟨r, hr, hhold, hin⟩ := buildQuery_some ((firstHop rx s).net.dnsQueryId + 1)
        (q := stack.mem) hok.1 hok.2
      refine ⟨?_, (Logged.all_bind _ _).mpr ⟨hin (by omega), ?_⟩⟩
      · simp only [val_bind, hr]
        have hask := askLoop_sound rx (·.nicDns) (firstHop rx s).net.arpMac hok.1 hlen 2
          (w := { firstHop rx s with net := { (firstHop rx s).net with
            dnsQueryId := (firstHop rx s).net.dnsQueryId + 1, dnsResultValid := false } })
          hhold firstHop_sound
        exact resolveFallback_sound hok.1 hlen hask.1 hask.2
      · simp only [hr]
        exact (Logged.all_bind _ _).mpr ⟨askServer_inside, resolveFallback_inside⟩
    · obtain ⟨hnone, hin⟩ := buildQuery_none ((firstHop rx s).net.dnsQueryId + 1)
        (q := stack.mem) hok
      refine ⟨?_, (Logged.all_bind _ _).mpr ⟨hin, ?_⟩⟩
      · simp only [val_bind, hnone, val_pure]
        exact firstHop_sound
      · simp only [hnone]
        exact all_pure _
  · rw [if_neg hans] at h
    rw [resolveQuery_silent hans]
    refine ⟨?_, resolveFallback_inside⟩
    rw [resolveFallback]
    by_cases hdone : (firstHop rx s).net.dnsResultValid = true ∨
        (firstHop rx s).net.nicDns = ⟨8, 8, 8, 8⟩
    · rw [if_pos hdone, val_pure, resolveEnd_world]
      exact firstHop_sound
    · rw [if_neg hdone]
      have hsecond : QueriesSound (some name) (secondHop rx s).history := askArp_sound firstHop_sound
      simp only
      split
      · rename_i hgw
        have hresult : (secondHop rx s).net.dnsResultValid = true := by
          rcases h with h | h | h | h
          · exact absurd (.inl h) hdone
          · exact absurd (.inr h) hdone
          · exact absurd hgw h
          · exact h
        have hstop : askLoop rx (fun _ => ⟨8, 8, 8, 8⟩) (secondHop rx s).net.arpMac 2 stack
            (secondHop rx s) = pure (stack, secondHop rx s) := by
          rw [askLoop, if_pos hresult]
        simp only [askServer, val_bind, val_pure, resolveEnd_world]
        rw [show World.askArp rx (firstHop rx s).net.nicGateway (firstHop rx s) = secondHop rx s from rfl,
          hstop]
        exact hsecond
      · rw [val_pure, resolveEnd_world]
        exact hsecond

theorem resolveQuery_unsound (h : ¬ OnlyQueries rx name s) :
    ∃ stack, ¬ Sound (some name) (resolveQuery rx stack name ⟨s, 0, []⟩) := by
  rw [OnlyQueries] at h
  by_cases hans : Answered (firstHop rx s).net s.nextHop
  · -- a name of more than 253 bytes is put into the query all the same
    rw [if_pos hans] at h
    push Not at h
    obtain ⟨labels, hname, hfits, hlong⟩ := h
    have hok : LabelsOk (labelsFrom [] name) := isName_labelsFrom.mpr ⟨labels, hname⟩
    obtain ⟨r, hr, hhold, -⟩ := buildQuery_some ((firstHop rx s).net.dnsQueryId + 1)
      (q := fun _ => 0) hok hfits
    refine ⟨⟨fun _ => 0, 0⟩, fun hsound => ?_⟩
    rw [resolveQuery_answered hans] at hsound
    obtain ⟨hsound, -⟩ := hsound
    simp only [val_bind, hr] at hsound
    obtain ⟨bytes, net, payload, hmem, hp, hsize⟩ := askServer_sends rx (·.nicDns) (q := r)
      (w := { firstHop rx s with net := { (firstHop rx s).net with
        dnsQueryId := (firstHop rx s).net.dnsQueryId + 1, dnsResultValid := false } })
      rfl (by rw [hhold.len]; omega) (by rw [hhold.len]; omega)
    obtain ⟨n, hn, labels', hname', hshort, -⟩ :=
      hsound bytes net payload (resolveFallback_mem hmem) hp
    cases hn
    rw [hname'.labels_eq, labelsFrom_length] at hshort
    omega
  · -- nothing has been put into the query
    rw [if_neg hans] at h
    push Not at h
    obtain ⟨hresult, hdns, hgw, hresult2⟩ := h
    refine ⟨⟨fun _ => 0, 0⟩, fun hsound => ?_⟩
    rw [resolveQuery_silent hans] at hsound
    obtain ⟨hsound, -⟩ := hsound
    rw [resolveFallback, if_neg (by simp [hresult, hdns])] at hsound
    simp only at hsound
    rw [if_pos (show Answered (World.askArp rx (firstHop rx s).net.nicGateway (firstHop rx s)).net
      (firstHop rx s).net.nicGateway from hgw)] at hsound
    simp only [val_bind, val_pure, resolveEnd_world] at hsound
    obtain ⟨bytes, net, payload, hmem, hp, hsize⟩ := askServer_sends rx
      (fun _ => ⟨8, 8, 8, 8⟩) (q := ⟨fun _ => 0, 0⟩) (w := secondHop rx s)
      (by simpa using hresult2) (by simp) (by simp)
    obtain ⟨n, -, labels, -, -, hpay, -⟩ := hsound bytes net payload hmem hp
    have := congrArg List.length hpay
    simp [be16Bytes, queryTail, hsize] at this

end Runs

/-- What the function sends is a query, and all its stores are in the buffer, whatever was on the
stack, exactly in these cases. -/
theorem netResolve_queries_iff (rx : Rx) (ready : Bool) (name : Option (List UInt8))
    (outLen : Option Int) (s : NetState) :
    (∀ stack, Sound name (netResolve rx ready stack name outLen s)) ↔
      ∀ n len, name = some n → outLen = some len → 16 ≤ len → parseIp n = none → ready = true →
        s.nicDnsValid = true → OnlyQueries rx n s := by
  have hquiet : ∀ (code : Int) (text : Option (List UInt8)),
      Sound name (pure ⟨⟨s, 0, []⟩, code, text⟩) := fun _ _ => ⟨queriesSound_nil, all_pure _⟩
  constructor
  · rintro h n len rfl rfl hlen hparse hready hvalid
    by_contra hbad
    obtain ⟨stack, hunsound⟩ := resolveQuery_unsound hbad
    refine hunsound ?_
    have := h stack
    simp only [netResolve, hparse] at this
    rwa [if_neg (by omega), if_neg (by simp [hready, hvalid])] at this
  · intro h stack
    rcases name with _ | n
    · exact hquiet _ _
    rcases outLen with _ | len
    · exact hquiet _ _
    simp only [netResolve]
    split
    · exact hquiet _ _
    · rcases hparse : parseIp n with _ | ip
      · simp only
        split
        · exact hquiet _ _
        · rename_i hlen hready
          push Not at hready
          exact resolveQuery_sound (h n len rfl rfl (by omega) hparse (by simpa using hready.1)
            (by simpa using hready.2))
      · exact hquiet _ _

/-! ## A run with a fallback -/

def arpReply (ip : Ip) : Frame :=
  .ofBytes <| List.replicate 12 0 ++ [0x08, 0x06] ++ [0, 1, 0x08, 0x00, 6, 4, 0, 2] ++
    List.replicate 6 0 ++ ip.bytes ++ List.replicate 10 0

theorem netHandleFrame_arpReply (ip : Ip) (s : NetState) :
    (netHandleFrame (arpReply ip) s).val = s.setArp ip ⟨0, 0, 0, 0, 0, 0⟩ := by
  have hlen : (arpReply ip).len = 42 := rfl
  have htype : be16 (arpReply ip).packet 12 = 0x0806 := by
    rw [be16, show (arpReply ip).packet 12 = 8 from rfl, show (arpReply ip).packet 13 = 6 from rfl]
    rfl
  have hoper : be16 (arpReply ip).packet 20 = 2 := by
    rw [be16, show (arpReply ip).packet 20 = 0 from rfl, show (arpReply ip).packet 21 = 2 from rfl]
    rfl
  have hspa : ipAt (arpReply ip).packet 28 = ip := rfl
  have hsha : macAt (arpReply ip).packet 22 = ⟨0, 0, 0, 0, 0, 0⟩ := rfl
  simp only [netHandleFrame, handleArp, hlen, ethHdr, arpPkt]
  rw [if_neg (by decide), val_bind]
  simp only [rd16, htype, val_note, if_true]
  rw [if_neg (by decide)]
  simp only [val_bind, val_note, hoper, if_true, rdIp, rdMac, hspa, hsha, val_pure]

theorem askArp_replied {rx : Rx} {w : World} {ip : Ip} (hop : Ip) (hrx : rx w.polls = [arpReply ip]) :
    (w.askArp rx hop).net = w.net.setArp ip ⟨0, 0, 0, 0, 0, 0⟩ ∧
      (w.askArp rx hop).polls = w.polls + 1 := by
  have hpoll : (netPoll rx (World.sendArpRequest { w with net := { w.net with arpValid := false } } hop)).net =
      w.net.setArp ip ⟨0, 0, 0, 0, 0, 0⟩ := by
    simp only [netPoll, World.sendArpRequest, World.nicSendRaw, hrx, foldl_cons, foldl_nil,
      World.deliver, netHandleFrame_arpReply]
    rfl
  rw [World.askArp, waitFor_one rfl (by rw [hpoll]; rfl)]
  exact ⟨hpoll, rfl⟩

def leased : NetState := { NetState.initial with nicDns := ⟨10, 0, 2, 3⟩, nicDnsValid := true }

def misled : Rx := fun n => if n = 0 then [arpReply ⟨10, 0, 2, 9⟩] else [arpReply ⟨10, 0, 2, 2⟩]

/-- The name is never put into what is sent to the public server. -/
theorem netResolve_queries_iff_misled :
    ¬ ∀ stack, Sound (some [97]) (netResolve misled true stack (some [97]) (some 16) leased) := by
  obtain ⟨hfirst, hpolls⟩ := askArp_replied leased.nextHop
    (show misled (World.polls ⟨{ leased with dnsResultValid := false }, 0, []⟩) =
      [arpReply ⟨10, 0, 2, 9⟩] from rfl)
  obtain ⟨hsecond, -⟩ := askArp_replied (firstHop misled leased).net.nicGateway
    (show misled (firstHop misled leased).polls = [arpReply ⟨10, 0, 2, 2⟩] by
      rw [firstHop, hpolls]; rfl)
  have hbad : ¬ OnlyQueries misled [97] leased := by
    have hgw : (firstHop misled leased).net.nicGateway = ⟨10, 0, 2, 2⟩ := by rw [firstHop, hfirst]; rfl
    rw [OnlyQueries, if_neg]
    · rw [secondHop, hsecond, hgw]
      rintro (h | h | h | h)
      · rw [firstHop, hfirst] at h
        cases h
      · rw [firstHop, hfirst] at h
        cases h
      · exact h ⟨rfl, rfl⟩
      · rw [firstHop, hfirst] at h
        cases h
    · rw [firstHop, hfirst]
      rintro ⟨-, h⟩
      cases h
  obtain ⟨stack, hunsound⟩ := resolveQuery_unsound hbad
  intro h
  have hsound := h stack
  simp only [netResolve, show parseIp [97] = none from rfl] at hsound
  rw [if_neg (by decide), if_neg (by decide)] at hsound
  exact hunsound hsound

end DiscouNT.Net
