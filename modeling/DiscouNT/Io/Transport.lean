import DiscouNT.Arch
import DiscouNT.Lib.Bytes

/-!
# Io.Transport

The request transport between the kernel and user-mode driver hosts, `kernel/io/wudf_transport.c`:
16 endpoints, each with 16 slots for packets.

* An endpoint number is an index plus one. Pointers are addresses, 0 for null, and the out
  parameters are stored to memory.
* `serial`, `epoch` and `history` are no variables of the code. They number the accepted submissions
  and the registrations of an endpoint, and record the calls that succeeded, newest first.
-/

namespace DiscouNT.Wudf

open Lib

def maxEndpoints : Nat := 16
def queueDepth : Nat := 16
def bufferSize : Nat := 4096

structure Packet where
  token : Nat
  majorFunction : Nat
  ioctlCode : Nat
  inputLength : Nat
  outputLength : Nat
  dataLength : Nat
  data : Nat → UInt8

/-- What the arrays of `WDF_TRANSPORT_ENDPOINT` hold at one index. -/
structure Slot where
  packet : Packet
  ready : Bool
  completionBuffer : Nat
  completionBufferLength : Nat
  completed : Bool
  completionStatus : Nat
  completionInformation : Nat
  serial : Nat
  epoch : Nat

structure Endpoint where
  used : Bool
  nextToken : Nat
  slots : Nat → Slot
  epoch : Nat

/-- A call that succeeded. `epoch` is that of the registration the packet was submitted under. -/
inductive Event where
  | submitted (serial endpoint epoch slot : Nat) (packet : Packet)
  | polled (serial endpoint epoch : Nat) (packet : Packet)
  | completed (serial endpoint epoch token status information : Nat)
  /-- `WudfTransportGetCompletion`. -/
  | reaped (serial endpoint epoch token status information : Nat)

structure Transport where
  endpoints : Nat → Endpoint
  mem : Mem
  serial : Nat
  history : List Event

namespace Endpoint

def setSlot (q : Endpoint) (i : Nat) (s : Slot) : Endpoint :=
  { q with slots := Function.update q.slots i s }

def findSlot (q : Endpoint) (p : Slot → Bool) : Option Nat :=
  (List.range queueDepth).find? fun i => p (q.slots i)

end Endpoint

namespace Transport

def queue (x : Transport) (endpoint : Nat) : Option Endpoint :=
  if endpoint = 0 ∨ maxEndpoints < endpoint then none
  else if (x.endpoints (endpoint - 1)).used = false then none
  else some (x.endpoints (endpoint - 1))

def setQueue (x : Transport) (endpoint : Nat) (q : Endpoint) : Transport :=
  { x with endpoints := Function.update x.endpoints (endpoint - 1) q }

def log (e : Event) (x : Transport) : Transport := { x with history := e :: x.history }

end Transport

def wudfTransportRegisterEndpoint (x : Transport) : Nat × Transport :=
  match (List.range maxEndpoints).find? fun i => !(x.endpoints i).used with
  | none => (0, x)
  | some i =>
    let q := x.endpoints i
    (i + 1, x.setQueue (i + 1)
      { used := true
        nextToken := 1
        slots := fun k =>
          if k < queueDepth then { q.slots k with ready := false, completed := false }
          else q.slots k
        epoch := q.epoch + 1 })

def wudfTransportUnregisterEndpoint (endpoint : Nat) (x : Transport) : Bool × Transport :=
  match x.queue endpoint with
  | none => (false, x)
  | some q => (true, x.setQueue endpoint { q with used := false })

def isFree (s : Slot) : Bool := !s.ready && !s.completed

def wudfTransportSubmit (endpoint majorFunction ioctlCode data inputLength outputLength token : Nat)
    (x : Transport) : Bool × Transport :=
  if data = 0 ∨ token = 0 then (false, x)
  else
    match x.queue endpoint with
    | none => (false, x)
    | some q =>
      match q.findSlot isFree with
      | none => (false, x)
      | some i =>
        let length := if bufferSize < inputLength then bufferSize else inputLength
        let packet : Packet :=
          { token := q.nextToken, majorFunction, ioctlCode, inputLength, outputLength
            dataLength := length
            data := fun j => if j < length then x.mem (data + j) else (q.slots i).packet.data j }
        let slot : Slot :=
          { q.slots i with
            packet
            ready := true
            completionBuffer := data
            completionBufferLength := outputLength
            serial := x.serial
            epoch := q.epoch }
        let q' := { q.setSlot i slot with nextToken := u32 (q.nextToken + 1) }
        let x' := (x.setQueue endpoint q').log (.submitted x.serial endpoint q.epoch i packet)
        (true, { x' with mem := writeLE x.mem token 4 packet.token, serial := x.serial + 1 })

def storePacket (m : Mem) (a : Nat) (p : Packet) : Mem :=
  let m := writeLE m a 4 p.token
  let m := writeLE m (a + 4) 4 p.majorFunction
  let m := writeLE m (a + 8) 4 p.ioctlCode
  let m := writeLE m (a + 12) 4 p.inputLength
  let m := writeLE m (a + 16) 4 p.outputLength
  let m := writeLE m (a + 20) 4 p.dataLength
  fun q => if a + 24 ≤ q ∧ q < a + 24 + bufferSize then p.data (q - (a + 24)) else m q

/-- `WudfTransportPoll`, with the packet it stores. -/
def wudfTransportPoll (endpoint packet : Nat) (x : Transport) : Option Packet × Transport :=
  if packet = 0 then (none, x)
  else
    match x.queue endpoint with
    | none => (none, x)
    | some q =>
      match q.findSlot Slot.ready with
      | none => (none, x)
      | some i =>
        let s := q.slots i
        (some s.packet, { x.log (.polled s.serial endpoint s.epoch s.packet) with
          mem := storePacket x.mem packet s.packet })

def wudfTransportComplete (endpoint token status information data dataLength : Nat)
    (x : Transport) : Bool × Transport :=
  match x.queue endpoint with
  | none => (false, x)
  | some q =>
    match q.findSlot fun s => s.ready && decide (s.packet.token = token) with
    | none => (false, x)
    | some i =>
      let s := q.slots i
      let copyLength := min (min dataLength s.completionBufferLength) bufferSize
      let mem :=
        if s.completionBuffer ≠ 0 ∧ data ≠ 0 then
          copyFwd x.mem s.completionBuffer data copyLength
        else x.mem
      let slot : Slot :=
        { s with
          completionBuffer := 0
          completionBufferLength := 0
          completionStatus := status
          completionInformation := information
          completed := true
          ready := false }
      let x' := (x.setQueue endpoint (q.setSlot i slot)).log
        (.completed s.serial endpoint s.epoch token status information)
      (true, { x' with mem })

/-- `WudfTransportGetCompletion`; `status` and `information` may be null. -/
def wudfTransportGetCompletion (endpoint token status information : Nat) (x : Transport) :
    Bool × Transport :=
  match x.queue endpoint with
  | none => (false, x)
  | some q =>
    match q.findSlot fun s => s.completed && decide (s.packet.token = token) with
    | none => (false, x)
    | some i =>
      let s := q.slots i
      let mem := if status ≠ 0 then writeLE x.mem status 4 s.completionStatus else x.mem
      let mem := if information ≠ 0 then writeLE mem information 4 s.completionInformation else mem
      let x' := (x.setQueue endpoint (q.setSlot i { s with completed := false })).log
        (.reaped s.serial endpoint s.epoch token s.completionStatus s.completionInformation)
      (true, { x' with mem })

inductive Act where
  | register
  | unregister (endpoint : Nat)
  | submit (endpoint majorFunction ioctlCode data inputLength outputLength token : Nat)
  | poll (endpoint packet : Nat)
  | complete (endpoint token status information data dataLength : Nat)
  | getCompletion (endpoint token status information : Nat)
  /-- Submitters and hosts write to memory. -/
  | write (mem : Mem)

def step : Act → Transport → Transport
  | .register, x => (wudfTransportRegisterEndpoint x).2
  | .unregister endpoint, x => (wudfTransportUnregisterEndpoint endpoint x).2
  | .submit endpoint majorFunction ioctlCode data inputLength outputLength token, x =>
    (wudfTransportSubmit endpoint majorFunction ioctlCode data inputLength outputLength token x).2
  | .poll endpoint packet, x => (wudfTransportPoll endpoint packet x).2
  | .complete endpoint token status information data dataLength, x =>
    (wudfTransportComplete endpoint token status information data dataLength x).2
  | .getCompletion endpoint token status information, x =>
    (wudfTransportGetCompletion endpoint token status information x).2
  | .write mem, x => { x with mem }

def boot (mem : Mem) : Transport where
  endpoints := fun _ =>
    { used := false, nextToken := 0, epoch := 0
      slots := fun _ => ⟨⟨0, 0, 0, 0, 0, 0, fun _ => 0⟩, false, 0, 0, false, 0, 0, 0, 0⟩ }
  mem
  serial := 0
  history := []

/-- The calls of any number of submitters and hosts, one after the other. -/
def run (mem : Mem) (acts : List Act) : Transport := acts.foldl (fun x a => step a x) (boot mem)

end DiscouNT.Wudf
