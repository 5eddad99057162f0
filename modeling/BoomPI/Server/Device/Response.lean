import BoomPI.Lts
import BoomPI.Server.Device.Forward

/-!
# One response

The forwarder alone with the events of one response, while the turn stays
active and every enqueue succeeds: the actor writes the events when it likes,
time passes and the socket writer drains the queue. `Heard` is what the messages
of a response say to whoever takes them in order.
-/

namespace BoomPI.Device

open Backend (Error EventType)
open Protocol
open Transport (SendLabel)
open BoomPI.Session (Event)

-- ---------------------------------------------------------------------------
-- The provider's side
-- ---------------------------------------------------------------------------

inductive Delta
  | audio (pcm : List UInt8)
  | text (piece : GoString)
  deriving DecidableEq, Repr

/-- What `validateProviderAudio` lets through. -/
def Delta.valid : Delta → Bool
  | .audio pcm => pcm.length ≠ 0 ∧ pcm.length % pcmBytesPerSample = 0 ∧
      pcm.length ≤ maxProviderAudioDeltaBytes
  | .text _ => true

def Delta.event (epoch : Nat) (responseID : GoString) : Delta → Event
  | .audio pcm =>
    { epoch, raw := { type := .audio, responseID, sampleRateHz := outputSampleRateHz, pcm } }
  | .text piece => { epoch, raw := { type := .textDelta, responseID, text := piece } }

def Delta.pcm : Delta → List UInt8
  | .audio pcm => pcm
  | .text _ => []

def Delta.text? : Delta → Option GoString
  | .audio _ => none
  | .text piece => some piece

def Delta.isAudio : Delta → Bool
  | .audio _ => true
  | .text _ => false

def audioOf (deltas : List Delta) : List UInt8 := deltas.flatMap Delta.pcm
def textsOf (deltas : List Delta) : List GoString := deltas.filterMap Delta.text?

def startedEvent (epoch : Nat) (responseID : GoString) : Event :=
  { epoch, raw := { type := .started, responseID } }

def doneEvent (epoch : Nat) (responseID : GoString) : Event :=
  { epoch, raw := { type := .done, responseID } }

/-- The events of a response: Started, the deltas, Done. -/
def responseEvents (epoch : Nat) (responseID : GoString) (deltas : List Delta) : List Event :=
  startedEvent epoch responseID ::
    (deltas.map (Delta.event epoch responseID) ++ [doneEvent epoch responseID])

-- ---------------------------------------------------------------------------
-- The machine
-- ---------------------------------------------------------------------------

/-- The payload bytes of the frames in a stretch of the send queue. -/
def framesOf (out : List Outbound) : List (PCMHeader × List UInt8) :=
  out.filterMap fun
    | .pcm header payload => some (header, payload)
    | .control _ => none

def wireBytes (out : List Outbound) : List UInt8 := (framesOf out).flatMap Prod.snd

/-- `script` is what the actor has yet to write, `before` what had been sent earlier, and
`doneAt` what was on the wire when the forwarder processed Done; the last two are ghosts. -/
structure Response where
  conn : Conn
  pacer : PacedDownlink := {}
  forward : ForwardAt := .top
  script : List Event
  before : Nat
  doneAt : Option (List UInt8) := none
  deriving DecidableEq, Repr

def Response.out (s : Response) : List Outbound := s.conn.sent.drop s.before

inductive ResponseLabel
  | emit
  | tick (elapsed : Nat)
  | writePump
  | forward (l : ForwardLabel)
  deriving DecidableEq, Repr

def ForwardAt.finishes? : ForwardAt → Bool
  | .received event => event.raw.type = .done
  | _ => false

def Response.step (s : Response) : ResponseLabel → Option Response
  | .emit => match s.script with
    | [] => none
    | event :: script =>
      if s.conn.actor.events.length < Session.eventCapacity then
        some { s with script, conn.actor.events := s.conn.actor.events ++ [event] }
      else none
  | .tick elapsed => some { s with conn.now := s.conn.now + elapsed }
  | .writePump =>
    if s.conn.written < s.conn.sent.length then some { s with conn.written := s.conn.written + 1 }
    else none
  | .forward (.send .encodeFailed) => none
  | .forward l => (forwardStep s.conn s.pacer s.forward l).map fun (conn, pacer, forward) =>
    { s with
      conn, pacer, forward
      doneAt := if s.forward.finishes? then some (wireBytes s.out) else s.doneAt }

/-- A turn that has just been committed, on an open connection. -/
structure Fresh (c : Conn) : Prop where
  active : c.turn.active = true
  epoch : c.turn.epoch ≠ 0
  ids : c.turn.sessionID ≠ 0 ∧ c.turn.turnID ≠ 0 ∧ c.turn.downlinkStream ≠ 0
  deviceUUID : c.turn.deviceUUID ≠ nilUUID
  outputSequence : c.turn.outputSequence = 0
  outputStarted : c.turn.outputStarted = false
  ctx : c.done c.turn.downlinkCtx = false
  events : c.actor.events = []
  eventsClosed : c.actor.eventsClosed = false

/-- The forwarder with a reset pacer, at the head of its loop. -/
def response (c : Conn) (responseID : GoString) (deltas : List Delta) :
    Lts.Machine Response ResponseLabel where
  Init s := s = {
    conn := c, script := responseEvents c.turn.epoch responseID deltas, before := c.sent.length }
  step := Response.step

-- ---------------------------------------------------------------------------
-- What a response says
-- ---------------------------------------------------------------------------

structure Heard where
  started : Bool := false
  texts : List GoString := []
  announced : Bool := false
  payloads : List (List UInt8) := []
  ended : Bool := false
  done : Bool := false
  deriving DecidableEq, Repr

/-- A control message of the response, in the order the protocol wants. -/
def Heard.say (responseID : GoString) (h : Heard) : Body → Option Heard
  | .responseStart id =>
    if id = responseID ∧ ¬ h.started ∧ ¬ h.done then some { h with started := true } else none
  | .textDelta id text =>
    if id = responseID ∧ h.started ∧ ¬ h.done then some { h with texts := h.texts ++ [text] }
    else none
  | .audioStart id sampleRateHz =>
    if id = responseID ∧ sampleRateHz = outputSampleRateHz ∧ h.started ∧ ¬ h.announced ∧ ¬ h.done then
      some { h with announced := true }
    else none
  | .responseDone id =>
    if id = responseID ∧ h.started ∧ ¬ h.done then some { h with done := true } else none
  | _ => none

/-- A frame of the response: numbered in `uint32`, START on number 0, END on the last one
and full before it. -/
def Heard.frame (turn : ActiveTurn) (h : Heard) (header : PCMHeader) (payload : List UInt8) :
    Option Heard :=
  if h.announced ∧ ¬ h.ended ∧ ¬ h.done ∧
      header.version = Version ∧ header.kind = AudioKindDownlink ∧
      header.audioFormat = AudioFormatPCM16LE ∧ header.channels = 1 ∧
      header.sampleRateHz = outputSampleRateHz ∧ header.deviceUUID = turn.deviceUUID ∧
      header.sessionID = turn.sessionID ∧ header.turnID = turn.turnID ∧
      header.streamID = turn.downlinkStream ∧ header.epoch = turn.epoch ∧
      header.sequence = uint32 h.payloads.length ∧ header.payloadLen = payload.length ∧
      header.flags = (if uint32 h.payloads.length = 0 then 1 else 0) + (if header.fin then 2 else 0) ∧
      payload.length ≠ 0 ∧ payload.length ≤ outputFrameBytes ∧
      payload.length % pcmBytesPerSample = 0 ∧ (¬ header.fin → payload.length = outputFrameBytes) then
    some { h with payloads := h.payloads ++ [payload], ended := header.fin }
  else none

def Heard.hear (turn : ActiveTurn) (responseID : GoString) (h : Heard) : Outbound → Option Heard
  | .control reply =>
    if reply.deviceID = turn.deviceID ∧ reply.sessionID = turn.sessionID ∧
        reply.turnID = turn.turnID ∧ reply.streamID = turn.downlinkStream ∧
        reply.epoch = turn.epoch then
      h.say responseID reply.body
    else none
  | .pcm header payload => h.frame turn header payload

def hears (turn : ActiveTurn) (responseID : GoString) (out : List Outbound) : Option Heard :=
  out.foldlM (Heard.hear turn responseID) {}

end BoomPI.Device
