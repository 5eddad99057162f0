import BoomPI.Server.Backend

/-!
# Wire messages

`protocol/control.go` and `protocol/pcm.go`, as far as the server's handler
reads them: messages after decoding, and what it encodes.
-/

namespace BoomPI.Protocol

open Backend (Error)

def Version : Nat := 1
def MaxPCMPayloadBytes : Nat := 64 * 1024
def AudioFormatPCM16LE : Nat := 1
def AudioKindUplink : Nat := 1
def AudioKindDownlink : Nat := 2

/-- `uint32` arithmetic. -/
def uint32 (n : Nat) : Nat := n % 2 ^ 32

inductive ControlType
  | hello
  | turnStart
  | turnCommit
  | turnCancel
  | responseCancel
  | other (name : String)
  deriving DecidableEq, Repr

def ControlType.name : ControlType → String
  | .hello => "hello"
  | .turnStart => "turn.start"
  | .turnCommit => "turn.commit"
  | .turnCancel => "turn.cancel"
  | .responseCancel => "response.cancel"
  | .other name => name

/-- A JSON value of a payload, as far as a `uint32` can be decoded from it. -/
inductive Json
  | integer (n : Int)
  | other
  deriving DecidableEq, Repr

/-- A received `ControlEnvelope`. The payload is an object without duplicate keys. -/
structure ControlEnvelope where
  type : ControlType
  deviceID : String
  sessionID : Nat
  turnID : Nat
  streamID : Nat
  epoch : Nat
  payload : List (String × Json) := []
  deriving DecidableEq, Repr

structure PCMHeader where
  version : Nat := Version
  kind : Nat
  flags : Nat
  audioFormat : Nat := AudioFormatPCM16LE
  channels : Nat := 1
  sampleRateHz : Nat
  payloadLen : Nat
  sequence : Nat
  timestampUS : Nat := 0
  epoch : Nat
  deviceUUID : List UInt8
  sessionID : Nat
  turnID : Nat
  streamID : Nat
  deriving DecidableEq, Repr

def PCMHeader.start (h : PCMHeader) : Bool := h.flags.testBit 0
def PCMHeader.fin (h : PCMHeader) : Bool := h.flags.testBit 1
def PCMHeader.discontinuity (h : PCMHeader) : Bool := h.flags.testBit 2

def nilUUID : List UInt8 := List.replicate 16 0

def firstError : List (Bool × String) → Option Error
  | [] => none
  | (failed, message) :: checks => if failed then some (.text message) else firstError checks

def PCMHeader.validate (h : PCMHeader) : Option Error :=
  firstError [
    (h.version ≠ Version, "unsupported PCM protocol version " ++ toString h.version),
    (h.kind ≠ AudioKindUplink ∧ h.kind ≠ AudioKindDownlink, "invalid PCM kind"),
    (h.audioFormat ≠ AudioFormatPCM16LE, "unsupported PCM audio format"),
    (8 ≤ h.flags, "PCM flags contain reserved bits"),
    (h.channels ≠ 1, "PCM channels must be 1 in protocol v1"),
    (h.sampleRateHz < 8000 ∨ 96000 < h.sampleRateHz,
      "PCM sample rate must be between 8000 and 96000 Hz"),
    (h.payloadLen = 0 ∨ MaxPCMPayloadBytes < h.payloadLen,
      "PCM payload exceeds the maximum size"),
    (h.payloadLen % (h.channels * 2) ≠ 0, "PCM payload is not aligned to S16_LE samples"),
    (h.epoch = 0 ∨ h.sessionID = 0 ∨ h.turnID = 0 ∨ h.streamID = 0,
      "active PCM identifiers must be nonzero"),
    (h.deviceUUID = nilUUID, "PCM device UUID must be nonzero")]

structure PCMStreamContext where
  kind : Nat
  sampleRateHz : Nat
  deviceUUID : List UInt8
  epoch : Nat
  sessionID : Nat
  turnID : Nat
  streamID : Nat
  expectedSequence : Nat
  deriving DecidableEq, Repr

def PCMStreamContext.validateHeader (c : PCMStreamContext) (h : PCMHeader) : Option Error :=
  h.validate.or (firstError [
    (c.kind ≠ AudioKindUplink ∧ c.kind ≠ AudioKindDownlink, "PCM stream context kind is invalid"),
    (c.sampleRateHz < 8000 ∨ 96000 < c.sampleRateHz, "PCM stream context sample rate is invalid"),
    (c.deviceUUID = nilUUID ∨ c.epoch = 0 ∨ c.sessionID = 0 ∨ c.turnID = 0 ∨ c.streamID = 0,
      "PCM stream context identifiers must be nonzero"),
    (h.kind ≠ c.kind, "PCM kind does not match the active stream"),
    (h.sampleRateHz ≠ c.sampleRateHz, "PCM sample rate does not match the active stream"),
    (h.deviceUUID ≠ c.deviceUUID, "PCM device UUID does not match the active stream"),
    (h.epoch ≠ c.epoch, "PCM epoch does not match the active stream"),
    (h.sessionID ≠ c.sessionID, "PCM session ID does not match the active stream"),
    (h.turnID ≠ c.turnID, "PCM turn ID does not match the active stream"),
    (h.streamID ≠ c.streamID, "PCM stream ID does not match the active stream"),
    (h.sequence ≠ c.expectedSequence, "PCM sequence does not match the active stream")])

/-- `transport.Message`: one control envelope or one PCM frame. -/
inductive Message
  | control (envelope : ControlEnvelope)
  | pcm (header : PCMHeader) (pcm : List UInt8)
  deriving DecidableEq, Repr

/-- What `DecodeControl` and `ParsePCMFrame` let through. -/
def Message.decoded : Message → Bool
  | .control e =>
    e.sessionID < 2 ^ 32 ∧ e.turnID < 2 ^ 32 ∧ e.streamID < 2 ^ 32 ∧ e.epoch < 2 ^ 32
  | .pcm h payload =>
    h.validate = none ∧ payload.length = h.payloadLen ∧ h.sequence < 2 ^ 32 ∧
      h.sessionID < 2 ^ 32 ∧ h.turnID < 2 ^ 32 ∧ h.streamID < 2 ^ 32 ∧ h.epoch < 2 ^ 32

/-- Which function sent an error; a ghost. -/
inductive ErrorPath
  | retired     -- `retireActiveTurn`
  | congestion  -- `handleTurnCongestion`, outside the active turn
  | rejected    -- `rejectTurnStart`
  | provider    -- `forwardEvents`
  | protocol    -- `sendProtocolError`
  deriving DecidableEq, Repr

inductive Body
  | helloAck
  | responseStart (responseID : GoString)
  | textDelta (responseID text : GoString)
  | audioStart (responseID : GoString) (sampleRateHz : Int)
  | responseDone (responseID : GoString)
  | cancelled (reason : String)
  | error (code message : String) (path : ErrorPath)
  deriving DecidableEq, Repr

structure Reply where
  body : Body
  messageID : Nat
  deviceID : String
  sessionID : Nat
  turnID : Nat
  streamID : Nat
  epoch : Nat
  deriving DecidableEq, Repr

/-- Whether `EncodeControl` can refuse a message: only a string of the provider can
be too long. -/
def Body.boundless : Body → Bool
  | .responseStart _ | .textDelta .. | .audioStart .. | .responseDone _ => true
  | _ => false

/-- What is put on the connection's `sendQueue`. -/
inductive Outbound
  | control (reply : Reply)
  | pcm (header : PCMHeader) (payload : List UInt8)
  deriving DecidableEq, Repr

end BoomPI.Protocol
