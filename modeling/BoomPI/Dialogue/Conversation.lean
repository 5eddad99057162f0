import BoomPI.Dialogue.Exchange
import BoomPI.Wire.RoundTrip

/-!
# A device and the server

The session of the server and the transport of the client over two FIFO channels,
turn after turn. Both directions are bytes: what the client sends is decoded
before it is on the server's wire, and what the server's writer has taken off its
queue the client takes in that order.
-/

namespace BoomPI.Dialogue

open Json (Text Value)
open Protocol (Message ControlEnvelope ControlType)
open Client (Transport Control ControlKind QueueCapacity Pcm64Header)
open Device (Conn Delta HandleAt HandleLabel textsOf audioOf responseEvents outputFrameBytes inputFrameBytes finalInput)
open Transport (receiveQueueCapacity)
open Session (Event)

-- ---------------------------------------------------------------------------
-- What the server reads
-- ---------------------------------------------------------------------------

def controlType (type : Text) : ControlType :=
  match [ControlKind.hello, .turnStart, .turnCommit, .turnCancel, .responseCancel].find? (·.type = type) with
  | some .hello => .hello
  | some .turnStart => .turnStart
  | some .turnCommit => .turnCommit
  | some .turnCancel => .turnCancel
  | some .responseCancel => .responseCancel
  | none => .other (String.ofList type)

/-- A field of a payload, as `json.Unmarshal` puts it into a `uint32`. -/
def payloadField (v : Value) : Protocol.Json :=
  match Wire.unmarshalUint 32 v with
  | .ok (some n) => .integer n
  | _ => .other

/-- A payload, as `json.Unmarshal` puts it into a map. -/
def payloadFields (payload : Text) : List (String × Protocol.Json) :=
  match Json.document payload with
  | some d => (Wire.members d.value).map fun m => (String.ofList m.1, payloadField m.2)
  | none => []

def handled (e : Wire.ControlEnvelope) : ControlEnvelope where
  type := controlType e.type
  deviceID := String.ofList e.deviceID
  sessionID := e.sessionID.toNat
  turnID := e.turnID.toNat
  streamID := e.streamID.toNat
  epoch := e.epoch.toNat
  payload := payloadFields e.payload

/-- `readPump`: a text message. -/
def readText (data : List UInt8) : Option Message :=
  match Wire.decodeControl data with
  | .ok e => some (.control (handled e))
  | .error _ => none

/-- `readPump`: a binary message. -/
def readFrame (data : List UInt8) : Option Message :=
  match Wire.parsePCMFrame data with
  | .ok (header, payload) => some (.pcm header.view payload)
  | .error _ => none

-- ---------------------------------------------------------------------------
-- The machine
-- ---------------------------------------------------------------------------

structure Answer where
  responseID : GoString := ""
  deltas : List Delta := []
  deriving DecidableEq, Repr

/-- `delivered` counts the messages the client has taken, and `rejected` says that it has
called `ProtocolError`. The provider's answer to a turn is chosen once the turn is
committed: `script` is what of it the actor has yet to write, `answered` the epoch it is
for, `before` what had been sent by then. What follows `doneAt` is noted of the client's
turn: the payloads it has sent, the frames the provider has got, and what has become of
the messages of the server. -/
structure State where
  server : Device.Sys
  client : Transport
  delivered : Nat := 1
  rejected : Bool := false
  script : List Event := []
  answer : Answer := {}
  answered : Nat := 0
  before : Nat := 0
  doneAt : Option (List UInt8) := none
  spoken : List UInt8 := []
  input : List (List UInt8) := []
  outcomes : List Transport.Outcome := []
  deriving DecidableEq, Repr

inductive Label
  | server (l : Device.Label)
  | send (control : Control) (capacity : QueueCapacity)
  | sendPcm (header : Pcm64Header) (pcm : List UInt8) (capacity : QueueCapacity)
  | deliver
  | answer (answer : Answer)
  | emit
  deriving DecidableEq, Repr

/-- The server finds a message on its wire; one it cannot decode ends the connection. -/
def post (message : Option Message) (s : Device.Sys) : Device.Sys :=
  match message with
  | some message => { s with conn.inbox.wire := s.conn.inbox.wire ++ [message] }
  | none => { s with conn.closed := true }

def appends : HandleAt → HandleLabel → List (List UInt8)
  | .appending _ _ completePCM, .returns none =>
    if completePCM = [] then [] else [completePCM.take inputFrameBytes]
  | .flushing turn _, .returns none => if turn.pendingPCM = [] then [] else [finalInput turn]
  | _, _ => []

def State.response (s : State) : Device.Response where
  conn := s.server.conn
  pacer := s.server.pacer
  forward := s.server.forward
  script := s.script
  before := s.before
  doneAt := s.doneAt

def State.exchange (s : State) : Exchange where
  server := s.response
  client := s.client
  taken := s.delivered - s.before
  outcomes := s.outcomes

def step (cjson : Text → Option Value) (s : State) : Label → Option State
  | .server (.peer _) | .server (.emit _) => none
  | .server l => (Device.step s.server l).map fun server => { s with
      server
      doneAt := match l with
        | .forward _ => if s.server.forward.finishes? then some (Device.wireBytes s.response.out) else s.doneAt
        | _ => s.doneAt
      input := match l with
        | .handle l => s.input ++ appends s.server.handle l
        | _ => s.input }
  | .send control capacity =>
    if s.rejected then none
    else
      let (_, sends, client) := s.client.send control capacity
      let s := if sends ∧ control.kind = .turnStart then { s with spoken := [], input := [], outcomes := [] } else s
      let server := if sends then post (readText (Utf8.encode (client.json control))) s.server else s.server
      some { s with client, server }
  | .sendPcm header pcm capacity =>
    if s.rejected then none
    else
      let (_, frame, client) := s.client.sendPcm header pcm capacity
      match frame with
      | none => some { s with client }
      | some frame =>
        some { s with client, server := post (readFrame frame) s.server, spoken := s.spoken ++ pcm }
  | .deliver =>
    match s.server.conn.sent[s.delivered]? with
    | none => none
    | some message =>
      if s.rejected ∨ s.server.conn.written ≤ s.delivered then none
      else
        let (client, outcome) := takes cjson s.client message
        some { s with
          client, delivered := s.delivered + 1, rejected := outcome.failed, outcomes := s.outcomes ++ [outcome] }
  | .answer answer =>
    let turn := s.server.conn.turn
    if turn.active ∧ turn.inputCommitted ∧ s.answered ≠ turn.epoch then
      some { s with
        answer, answered := turn.epoch, script := responseEvents turn.epoch answer.responseID answer.deltas
        before := s.server.conn.sent.length, doneAt := none }
    else none
  | .emit =>
    match s.script with
    | [] => none
    | event :: script => (Device.step s.server (.emit event)).map fun server => { s with server, script }

/-- The device has said hello, and has taken the server's answer. -/
def conversation (cjson : Text → Option Value) : Lts.Machine State Label where
  Init s := ∃ deviceID deviceUUID sessionID,
    Wire.parseUuid (Utf8.encode deviceID.toList) = some deviceUUID ∧ sessionID ≠ 0 ∧ sessionID < 2 ^ 32 ∧ s = {
      server := { conn := { Device.opened deviceID deviceUUID sessionID with written := 1 } }
      client := {
        deviceId := deviceID, uuid := deviceUUID, session := .ofNat sessionID, sessionEpoch := 1 } }
  step := step cjson

-- ---------------------------------------------------------------------------
-- What goes well
-- ---------------------------------------------------------------------------

structure Answer.Fits (answer : Answer) (epoch : Nat) : Prop where
  valid : ∀ d ∈ answer.deltas, d.valid = true
  accepted : ∀ event ∈ responseEvents epoch answer.responseID answer.deltas,
    Session.validProviderEvent event.raw = none
  hearable : Hearable answer.responseID (textsOf answer.deltas)
  short : (audioOf answer.deltas).length < outputFrameBytes * (2 ^ 32 - 1)

/-- Every call of the actor succeeds, nothing is cut off and no queue overflows. The client
starts a turn when the server has ended the one before, cancels none, and captures
without a gap. -/
def Calm (s : State) : Label → Prop
  | .server (.handle (.returns (some _))) | .server (.forward (.send .encodeFailed)) | .server .closeEvents
  | .server .disconnect | .server .idle => False
  | .server .readPump => s.server.conn.inbox.receiveQueue.length < receiveQueueCapacity
  | .server _ | .deliver | .emit => True
  | .send control _ =>
    (∀ c ∈ control.messageId.toList, Wire.isVisibleASCII c = true) ∧
      (control.kind = .turnStart ∧ s.server.conn.turn.active = false ∨ control.kind = .turnCommit)
  | .sendPcm header _ _ => header.flags &&& 4 = 0
  | .answer answer => answer.Fits s.server.conn.turn.epoch

-- ---------------------------------------------------------------------------
-- What the client sends, decoded
-- ---------------------------------------------------------------------------

def controlMessage (t : Transport) (control : Control) (type : ControlType)
    (payload : List (String × Protocol.Json)) : Message :=
  .control {
    type, deviceID := t.deviceId, sessionID := control.ids.session.toNat, turnID := control.ids.turn.toNat
    streamID := control.ids.stream.toNat, epoch := control.ids.epoch.toNat, payload }

variable {t : Transport} {control : Control} {header : Pcm64Header} {pcm frame : List UInt8}

theorem payloadFields_control (control : Control) : payloadFields control.payload =
    (Wire.members (.group .object (Wire.payloadBody control))).map fun m =>
      (String.ofList m.1, payloadField m.2) := by
  rw [← Wire.payloadBody_text, payloadFields, Wire.document_value]

theorem readText_json (hid : Wire.isValidDeviceId (Utf8.encode t.deviceId.toList) = true)
    (hvisible : ∀ c ∈ control.messageId.toList, Wire.isVisibleASCII c = true)
    (ha : t.admits control = some true) : readText (Utf8.encode (t.json control)) =
      some (controlMessage t control (controlType control.kind.type) (payloadFields control.payload)) := by
  rw [readText, Wire.decode_json hid hvisible ha]
  simp [handled, Transport.envelope, controlMessage]

theorem readText_start (hk : control.kind = .turnStart)
    (hid : Wire.isValidDeviceId (Utf8.encode t.deviceId.toList) = true)
    (hvisible : ∀ c ∈ control.messageId.toList, Wire.isVisibleASCII c = true)
    (ha : t.admits control = some true) : readText (Utf8.encode (t.json control)) =
      some (controlMessage t control .turnStart [("sample_rate_hz", .integer 16000)]) := by
  rw [readText_json hid hvisible ha, payloadFields_control, Wire.payloadBody, hk]
  rfl

theorem readText_commit (hk : control.kind = .turnCommit)
    (hid : Wire.isValidDeviceId (Utf8.encode t.deviceId.toList) = true)
    (hvisible : ∀ c ∈ control.messageId.toList, Wire.isVisibleASCII c = true)
    (ha : t.admits control = some true) : readText (Utf8.encode (t.json control)) =
      some (controlMessage t control .turnCommit []) := by
  rw [readText_json hid hvisible ha, payloadFields_control, Wire.payloadBody, hk]
  rfl

end BoomPI.Dialogue
