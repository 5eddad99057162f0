import BoomPI.Lts
import BoomPI.Wire.DeviceId

/-!
# The client's transport

`VoiceTransport`: the protocol state of the device's side of the connection,
what it admits for sending and what it makes of each message it receives. Text
messages are taken after `ParseEnvelope`, binary ones byte by byte.
-/

namespace BoomPI.Client

open Bytes
open Wire (DeviceUUID pcmMagic)

def kHeaderBytes : Nat := 64
def kMaxUplinkPcmBytes : Nat := 640
def kMaxDownlinkPcmBytes : Nat := 960
def kKnownFlags : UInt16 := 7
def maxUint32 : UInt32 := 0xffffffff

structure WireIds where
  session : UInt32 := 0
  turn : UInt32 := 0
  stream : UInt32 := 0
  epoch : UInt32 := 0
  deriving DecidableEq, Repr

namespace WireIds

def sameTurn (a b : WireIds) : Bool := a.session = b.session ∧ a.turn = b.turn ∧ a.epoch = b.epoch

def sameIds (a b : WireIds) : Bool := sameTurn a b && a.stream = b.stream

/-- `ValidIds` -/
def valid (i : WireIds) : Bool := i.session ≠ 0 ∧ i.turn ≠ 0 ∧ i.stream ≠ 0 ∧ i.epoch ≠ 0

end WireIds

structure Pcm64Header where
  flags : UInt16 := 0
  sequence : UInt32 := 0
  timestampUs : UInt64 := 0
  ids : WireIds := {}
  deriving DecidableEq, Repr

inductive ControlKind
  | hello
  | turnStart
  | turnCommit
  | turnCancel
  | responseCancel
  deriving DecidableEq, Repr

def ControlKind.cancellation : ControlKind → Bool
  | .turnCancel | .responseCancel => true
  | _ => false

structure Control where
  kind : ControlKind
  messageId : String
  ids : WireIds
  deviceToken : String := ""
  deriving DecidableEq, Repr

/-- `IsValidDeviceToken`; the bytes of a character that is no ASCII are from 0x80 on. -/
def isValidDeviceToken (value : String) : Bool :=
  32 ≤ value.utf8ByteSize ∧ value.utf8ByteSize ≤ 256 ∧
    value.toList.all fun c => 0x21 ≤ c.toNat ∧ c.toNat ≤ 0x7e

/-- `CheckQueueCapacity`, which depends on the WebSocket library. -/
inductive QueueCapacity
  | available
  | full
  | unavailable
  deriving DecidableEq, Repr

inductive SendOutcome
  | ok
  | backpressure
  | rejected
  deriving DecidableEq, Repr

/-- What `Emit` hands to the application. -/
inductive Inbound
  | helloAck (ids : WireIds)
  | responseStart (ids : WireIds)
  | textDelta (ids : WireIds) (text : String)
  | audioStart (ids : WireIds)
  | cancelled (ids : WireIds)
  | done (ids : WireIds)
  | error (ids : WireIds) (code text : String)
  | pcm (header : Pcm64Header) (audio : List UInt8)
  deriving DecidableEq, Repr

/-- The protocol state of `VoiceTransport::Impl`. -/
structure Transport where
  deviceId : String
  uuid : List UInt8
  turn : WireIds := {}
  response : WireIds := {}
  session : UInt32 := 0
  sessionEpoch : UInt32 := 0
  responseId : String := ""
  uplinkSequence : UInt32 := 0
  downlinkSequence : UInt32 := 0
  active : Bool := false
  committed : Bool := false
  uplinkEnded : Bool := false
  audioStarted : Bool := false
  audioEnded : Bool := false
  responseDone : Bool := false
  responseCancelSent : Bool := false
  discardDownlink : Bool := false
  deriving DecidableEq, Repr

namespace Transport

def isStale (s : Transport) (i : WireIds) : Bool :=
  if i.session ≠ s.session ∨ i.epoch = 0 then false
  else if s.turn.epoch ≠ 0 ∧ i.epoch < s.turn.epoch then true
  else s.response.valid && i.sameIds s.response && ! s.active

def discarding (s : Transport) (i : WireIds) : Bool :=
  s.response.valid && i.sameIds s.response && (s.responseCancelSent || s.discardDownlink)

-- ---------------------------------------------------------------------------
-- Sending
-- ---------------------------------------------------------------------------

/-- The switch of `Send`: whether the call goes on, and whether it sends. -/
def admits (s : Transport) (c : Control) : Option Bool :=
  if c.messageId.utf8ByteSize = 0 ∨ 64 < c.messageId.utf8ByteSize then none
  else match c.kind with
  | .hello =>
    if c.ids.session ≠ 0 ∨ c.ids.turn ≠ 0 ∨ c.ids.stream ≠ 0 ∨ c.ids.epoch ≠ 0 ∨
        ¬ isValidDeviceToken c.deviceToken then none
    else some true
  | .turnStart =>
    if ¬ c.ids.valid ∨ s.active ∨ c.ids.session ≠ s.session ∨ c.ids.epoch < s.sessionEpoch ∨
        (s.turn.epoch ≠ 0 ∧ c.ids.epoch ≤ s.turn.epoch) then none
    else some true
  | .turnCommit =>
    if ¬ s.active ∨ s.committed ∨ ¬ s.uplinkEnded ∨ c.ids.stream ≠ s.turn.stream ∨
        ¬ c.ids.sameTurn s.turn then none
    else some true
  | .turnCancel =>
    if ¬ s.active ∨ s.responseCancelSent ∨ ¬ c.ids.sameIds s.turn then none else some true
  | .responseCancel =>
    if ¬ c.ids.sameTurn s.turn ∨
        (c.ids.stream ≠ s.turn.stream ∧ c.ids.stream ≠ s.response.stream) then none
    else if ¬ s.active ∧
        (¬ s.responseDone ∨ ¬ s.response.valid ∨ ¬ c.ids.sameIds s.response) then none
    else some (! s.responseCancelSent)

/-- The state once the message is handed to the WebSocket library. -/
def sent (s : Transport) (c : Control) : Transport :=
  match c.kind with
  | .hello => s
  | .turnStart =>
    { s with
      turn := c.ids, response := {}, responseId := "", active := true, committed := false
      uplinkEnded := false, audioStarted := false, audioEnded := false, responseDone := false
      responseCancelSent := false, discardDownlink := false, uplinkSequence := 0
      downlinkSequence := 0 }
  | .turnCommit => { s with committed := true }
  | .turnCancel | .responseCancel => { s with responseCancelSent := true }

/-- `SendText` on a live connection: one cancellation may pass a full queue. -/
def sendText (capacity : QueueCapacity) (cancellation : Bool) : Bool :=
  match capacity with
  | .available => true
  | .full => cancellation
  | .unavailable => false

/-- `Send`: its result, whether a message is sent, and the state. -/
def send (s : Transport) (c : Control) (capacity : QueueCapacity) : Bool × Bool × Transport :=
  match s.admits c with
  | none => (false, false, s)
  | some false => (true, false, s)
  | some true =>
    if sendText capacity c.kind.cancellation then (true, true, s.sent c)
    else (false, false, s)

/-- What `SendPcm` writes into its frame. -/
def frameFields (uuid : List UInt8) (h : Pcm64Header) (pcm : List UInt8) :
    List (Nat × List UInt8) := [
  (0, pcmMagic),
  (4, [1]),
  (5, [1]),
  (6, toBE 2 h.flags.toNat),
  (8, toBE 2 64),
  (10, [1]),
  (11, [1]),
  (12, toBE 4 16000),
  (16, toBE 4 pcm.length),
  (20, toBE 4 h.sequence.toNat),
  (24, toBE 8 h.timestampUs.toNat),
  (32, toBE 4 h.ids.epoch.toNat),
  (36, uuid),
  (52, toBE 4 h.ids.session.toNat),
  (56, toBE 4 h.ids.turn.toNat),
  (60, toBE 4 h.ids.stream.toNat),
  (64, pcm)]

/-- The frame on the wire; the rest of the array is not sent. -/
def pcmFrame (uuid : List UInt8) (h : Pcm64Header) (pcm : List UInt8) : List UInt8 :=
  (fill (List.replicate (kHeaderBytes + kMaxUplinkPcmBytes) 0) (frameFields uuid h pcm)).take
    (kHeaderBytes + pcm.length)

def admitsPcm (s : Transport) (h : Pcm64Header) (pcm : List UInt8) : Bool :=
  pcm.length ≠ 0 ∧ pcm.length ≤ kMaxUplinkPcmBytes ∧ pcm.length % 2 = 0 ∧ h.flags ≤ kKnownFlags ∧
    s.active ∧ ¬ s.committed ∧ ¬ s.uplinkEnded ∧ h.ids.sameTurn s.turn ∧
    h.ids.stream = s.turn.stream ∧ h.sequence = s.uplinkSequence ∧ h.sequence ≠ maxUint32 ∧
    (h.sequence = 0 ↔ h.flags &&& 1 ≠ 0)

/-- `SendPcm` on a live connection: its result, the frame it sends, and the state. -/
def sendPcm (s : Transport) (h : Pcm64Header) (pcm : List UInt8) (capacity : QueueCapacity) :
    SendOutcome × Option (List UInt8) × Transport :=
  if ¬ s.admitsPcm h pcm then (.rejected, none, s)
  else match capacity with
  | .full => (.backpressure, none, s)
  | .unavailable => (.rejected, none, s)
  | .available =>
    (.ok, some (pcmFrame s.uuid h pcm),
      { s with uplinkSequence := s.uplinkSequence + 1, uplinkEnded := h.flags &&& 2 ≠ 0 })

-- ---------------------------------------------------------------------------
-- Receiving
-- ---------------------------------------------------------------------------

/-- Type and payload of a text message, its fields already typed. -/
inductive Payload
  | helloAck (inputSampleRateHz outputSampleRateHz inputFrameMs : UInt32)
  | responseStart (responseId : String)
  | cancelled (reason : String)
  | error (code message : String)
  | textDelta (responseId text : String)
  | audioStart (responseId : String) (sampleRateHz : UInt32)
  | done (responseId : String)
  | unsupported
  deriving DecidableEq, Repr

structure Envelope where
  deviceId : String
  ids : WireIds
  payload : Payload
  deriving DecidableEq, Repr

/-- `RequireString`: the bytes of a string are within their bounds. -/
def within (value : String) (minBytes maxBytes : Nat) : Bool :=
  minBytes ≤ value.utf8ByteSize ∧ value.utf8ByteSize ≤ maxBytes

/-- What a callback comes to: nothing to emit, an event, or `ProtocolError`. -/
inductive Outcome
  | dropped
  | emit (event : Inbound)
  | protocolError (why : String)
  deriving DecidableEq, Repr

def Outcome.failed : Outcome → Bool
  | .protocolError _ => true
  | _ => false

/-- The part of `OnText` for a response that must be running. -/
def onResponse (s : Transport) (ids : WireIds) (payload : Payload) : Transport × Outcome :=
  if s.isStale ids then (s, .dropped)
  else if ¬ s.active ∨ ¬ s.response.valid ∨ ids ≠ s.response then
    (s, .protocolError "wrong response identity")
  else match payload with
  | .textDelta responseId text =>
    if s.discarding ids then (s, .dropped)
    else if ¬ within responseId 1 128 then
      (s, .protocolError "JSON string is outside its byte limit")
    else if responseId ≠ s.responseId then (s, .protocolError "wrong response_id")
    else if ¬ within text 1 4096 then (s, .protocolError "JSON string is outside its byte limit")
    else (s, .emit (.textDelta ids text))
  | .audioStart responseId sampleRateHz =>
    if s.discarding ids then (s, .dropped)
    else if ¬ within responseId 1 128 then
      (s, .protocolError "JSON string is outside its byte limit")
    else if responseId ≠ s.responseId ∨ s.audioStarted ∨ sampleRateHz ≠ 24000 then
      (s, .protocolError "invalid audio contract")
    else ({ s with audioStarted := true }, .emit (.audioStart ids))
  | .done responseId =>
    if ¬ within responseId 1 128 then (s, .protocolError "JSON string is outside its byte limit")
    else if responseId ≠ s.responseId ∨
        (s.audioStarted ∧ ¬ s.audioEnded ∧ ¬ s.discarding ids) then
      (s, .protocolError "invalid response.done")
    else
      ({ s with
          active := false, responseDone := true
          discardDownlink := s.discardDownlink && s.responseCancelSent },
        .emit (.done ids))
  | _ => (s, .protocolError "unsupported control type")

/-- `OnText` after `ParseEnvelope`. -/
def onText (s : Transport) (e : Envelope) : Transport × Outcome :=
  if e.deviceId ≠ s.deviceId then (s, .protocolError "wrong device identity")
  else match e.payload with
  | .helloAck inputSampleRateHz outputSampleRateHz inputFrameMs =>
    if s.session ≠ 0 ∨ e.ids.session = 0 ∨ e.ids.turn ≠ 0 ∨ e.ids.stream ≠ 0 ∨ e.ids.epoch = 0 then
      (s, .protocolError "invalid hello.ack identity")
    else if inputSampleRateHz ≠ 16000 ∨ outputSampleRateHz ≠ 24000 ∨ inputFrameMs ≠ 20 then
      (s, .protocolError "unsupported hello audio contract")
    else
      ({ s with session := e.ids.session, sessionEpoch := e.ids.epoch }, .emit (.helloAck e.ids))
  | .responseStart responseId =>
    if s.isStale e.ids then (s, .dropped)
    else if ¬ s.active ∨ ¬ s.committed ∨ s.response.valid ∨ ¬ e.ids.sameTurn s.turn ∨
        e.ids.stream = 0 then
      (s, .protocolError "wrong response.start identity or order")
    else if ¬ within responseId 1 128 then
      (s, .protocolError "JSON string is outside its byte limit")
    else
      let s := { s with
        responseId, response := e.ids, downlinkSequence := 0, audioStarted := false
        audioEnded := false, responseDone := false, discardDownlink := s.responseCancelSent }
      (s, if s.responseCancelSent then .dropped else .emit (.responseStart e.ids))
  | .cancelled reason =>
    let streamMatches :=
      if s.response.valid then e.ids.stream = s.response.stream else e.ids.stream ≠ 0
    if ¬ within reason 1 64 then (s, .protocolError "JSON string is outside its byte limit")
    else if (¬ s.active ∧ ¬ s.responseDone) ∨ ¬ s.responseCancelSent ∨ ¬ e.ids.sameTurn s.turn ∨
        ¬ streamMatches then
      (s, .protocolError "wrong cancellation identity")
    else
      ({ s with
          active := false, responseDone := false, responseCancelSent := false
          discardDownlink := false },
        .emit (.cancelled e.ids))
  | .error code message =>
    if s.isStale e.ids then (s, .dropped)
    else if ¬ within code 1 64 ∨ ¬ within message 1 512 then
      (s, .protocolError "JSON string is outside its byte limit")
    else
      let sessionError := e.ids.session = s.session ∧ e.ids.turn = 0 ∧ e.ids.stream = 0 ∧
        e.ids.epoch = s.sessionEpoch
      let turnError := s.active ∧ e.ids.sameTurn s.turn ∧ e.ids.stream ≠ 0
      if ¬ sessionError ∧ ¬ turnError then (s, .protocolError "wrong error identity")
      else
        ({ s with active := s.active && ! decide turnError }, .emit (.error e.ids code message))
  | payload => s.onResponse e.ids payload

/-- A binary message that is a downlink frame of this device. -/
def decodePcm (uuid : List UInt8) (bytes : List UInt8) : Except String (Pcm64Header × List UInt8) :=
  if bytes.length < kHeaderBytes ∨ slice bytes 0 4 ≠ pcmMagic ∨ bytes.getD 4 0 ≠ 1 ∨
      bytes.getD 5 0 ≠ 2 ∨ Wire.uint16At bytes 8 ≠ 64 ∨ bytes.getD 10 0 ≠ 1 ∨
      bytes.getD 11 0 ≠ 1 then
    .error "invalid PCM header"
  else
    let payload := (Wire.uint32At bytes 16).toNat
    let flags := Wire.uint16At bytes 6
    if payload = 0 ∨ kMaxDownlinkPcmBytes < payload ∨ payload % 2 ≠ 0 ∨
        bytes.length ≠ kHeaderBytes + payload ∨ kKnownFlags < flags ∨
        Wire.uint32At bytes 12 ≠ 24000 ∨ slice bytes 36 (36 + uuid.length) ≠ uuid then
      .error "invalid PCM framing"
    else
      .ok ({
        flags, sequence := Wire.uint32At bytes 20, timestampUs := Wire.uint64At bytes 24
        ids := {
          session := Wire.uint32At bytes 52, turn := Wire.uint32At bytes 56
          stream := Wire.uint32At bytes 60, epoch := Wire.uint32At bytes 32 } },
        slice bytes kHeaderBytes (kHeaderBytes + payload))

/-- `OnBinary` after the checks of the frame itself. -/
def onPcm (s : Transport) (h : Pcm64Header) (audio : List UInt8) : Transport × Outcome :=
  if s.isStale h.ids ∨ s.discarding h.ids then (s, .dropped)
  else if ¬ s.audioStarted ∨ s.audioEnded ∨ h.sequence ≠ s.downlinkSequence ∨
      s.downlinkSequence = maxUint32 ∨ h.ids ≠ s.response ∨
      ¬ (s.downlinkSequence = 0 ↔ h.flags &&& 1 ≠ 0) then
    (s, .protocolError "PCM identity or sequence mismatch")
  else if h.flags &&& 4 ≠ 0 then
    ({ s with discardDownlink := true },
      .emit (.error h.ids "downlink_discontinuity" "downlink PCM is discontinuous"))
  else
    ({ s with downlinkSequence := s.downlinkSequence + 1, audioEnded := h.flags &&& 2 ≠ 0 },
      .emit (.pcm h audio))

def onBinary (s : Transport) (bytes : List UInt8) : Transport × Outcome :=
  match decodePcm s.uuid bytes with
  | .error why => (s, .protocolError why)
  | .ok (h, audio) => s.onPcm h audio

-- ---------------------------------------------------------------------------
-- The machine
-- ---------------------------------------------------------------------------

inductive Label
  | send (c : Control) (capacity : QueueCapacity)
  | sendPcm (h : Pcm64Header) (pcm : List UInt8) (capacity : QueueCapacity)
  | onText (e : Envelope)
  | onBinary (bytes : List UInt8)
  deriving DecidableEq, Repr

def step (s : Transport) : Label → Transport
  | .send c capacity => (s.send c capacity).2.2
  | .sendPcm h pcm capacity => (s.sendPcm h pcm capacity).2.2
  | .onText e => (s.onText e).1
  | .onBinary bytes => (s.onBinary bytes).1

/-- `Connect` has accepted the device id. -/
def machine : Lts.Machine Transport Label where
  Init s := ∃ deviceId uuid, Wire.parseUuid deviceId.toUTF8.data.toList = some uuid ∧
    s = { deviceId, uuid }
  step s l := some (s.step l)

-- ---------------------------------------------------------------------------
-- What a call leaves alone
-- ---------------------------------------------------------------------------

/-- A callback never begins a turn. -/
structure Steady (s t : Transport) : Prop where
  deviceId : t.deviceId = s.deviceId
  uuid : t.uuid = s.uuid
  turn : t.turn = s.turn
  active : t.active = true → s.active = true

variable {s : Transport} {c : Control} {e : Envelope} {h : Pcm64Header} {bytes audio : List UInt8}

theorem onResponse_steady (ids : WireIds) (payload : Payload) :
    s.Steady (s.onResponse ids payload).1 := by
  unfold onResponse
  split
  · exact ⟨rfl, rfl, rfl, id⟩
  · split
    · exact ⟨rfl, rfl, rfl, id⟩
    · cases payload <;> dsimp only <;> repeat' split
      all_goals first | exact ⟨rfl, rfl, rfl, id⟩ | exact ⟨rfl, rfl, rfl, nofun⟩

theorem onText_steady : s.Steady (s.onText e).1 := by
  have hsame : s.Steady s := ⟨rfl, rfl, rfl, id⟩
  unfold onText
  split
  · exact hsame
  · split
    -- hello.ack, response.start
    · repeat' split
      all_goals exact ⟨rfl, rfl, rfl, id⟩
    · repeat' split
      all_goals exact ⟨rfl, rfl, rfl, id⟩
    -- response.cancelled
    · dsimp only
      repeat' split
      all_goals first | exact hsame | exact ⟨rfl, rfl, rfl, nofun⟩
    -- error
    · dsimp only
      split
      · exact hsame
      · split
        · exact hsame
        · split
          · exact hsame
          · exact ⟨rfl, rfl, rfl, fun ha => (Bool.and_eq_true_iff.mp ha).1⟩
    · exact onResponse_steady _ _

theorem onPcm_steady : s.Steady (s.onPcm h audio).1 := by
  unfold onPcm
  repeat' split
  all_goals exact ⟨rfl, rfl, rfl, id⟩

theorem onBinary_steady : s.Steady (s.onBinary bytes).1 := by
  unfold onBinary
  split
  · exact ⟨rfl, rfl, rfl, id⟩
  · exact onPcm_steady

theorem admits_turnStart (hk : c.kind = .turnStart) : s.admits c = some true ↔
    within c.messageId 1 64 = true ∧ c.ids.valid = true ∧ s.active = false ∧
      c.ids.session = s.session ∧ ¬ c.ids.epoch < s.sessionEpoch ∧
      (s.turn.epoch ≠ 0 → ¬ c.ids.epoch ≤ s.turn.epoch) := by
  have hid : within c.messageId 1 64 = true ↔
      ¬ (c.messageId.utf8ByteSize = 0 ∨ 64 < c.messageId.utf8ByteSize) := by
    simp only [within, decide_eq_true_eq]
    omega
  rw [hid, admits]
  by_cases h : c.messageId.utf8ByteSize = 0 ∨ 64 < c.messageId.utf8ByteSize
  · rw [if_pos h]
    exact ⟨nofun, fun hall => absurd h hall.1⟩
  · rw [if_neg h]
    simp only [hk, Option.ite_none_left_eq_some, not_or, not_and, Decidable.not_not, ne_eq,
      Bool.not_eq_true, Bool.not_eq_false, h, not_false_eq_true, true_and, and_true]

variable {t : Transport} {pcm frame : List UInt8}

def advanced (s : Transport) (h : Pcm64Header) : Transport :=
  { s with uplinkSequence := s.uplinkSequence + 1, uplinkEnded := h.flags &&& 2 ≠ 0 }

theorem sendPcm_available (ha : s.admitsPcm h pcm = true) :
    s.sendPcm h pcm .available = (.ok, some (pcmFrame s.uuid h pcm), s.advanced h) := by
  rw [sendPcm, if_neg (fun hn => hn ha)]
  rfl

theorem sendPcm_ok {capacity : QueueCapacity} (hs : s.sendPcm h pcm capacity = (.ok, some frame, t)) :
    s.admitsPcm h pcm = true ∧ frame = pcmFrame s.uuid h pcm ∧ t = s.advanced h := by
  unfold sendPcm at hs
  split at hs
  · cases hs
  · rename_i hadmits
    split at hs
    · cases hs
    · cases hs
    · cases hs
      exact ⟨Decidable.not_not.mp hadmits, rfl, rfl⟩

end Transport

end BoomPI.Client
