import BoomPI.Server.Device.Turn
import BoomPI.Server.Session

/-!
# What the goroutines of one device session share

The connection state under its lock, the connection, and the session actor as
the handler meets it: four calls and a channel of events. What the actor
promises of that channel is `Session.stream_law`.
-/

namespace BoomPI.Device

open Backend (Error)
open Protocol
open Transport (Inbox TurnIdentity sendQueueCapacity)
open Session (Event)

-- ---------------------------------------------------------------------------
-- The pacer
-- ---------------------------------------------------------------------------

abbrev Time := Nat

def outputFrameDuration : Time := 20000000
def minimumOutputFrameSpacing : Time := 15000000

/-- `pacedDownlink`; `nextFrameAt = none` is the zero time. -/
structure PacedDownlink where
  epoch : Nat := 0
  turnID : Nat := 0
  responseID : GoString := ""
  pending : List UInt8 := []
  providerDone : Bool := false
  nextFrameAt : Option Time := none
  wireFrames : Nat := 0
  deriving DecidableEq, Repr

namespace PacedDownlink

def reset (_ : PacedDownlink) : PacedDownlink := {}

def begin (p : PacedDownlink) (turn : ActiveTurn) (responseID : GoString) : PacedDownlink :=
  { p.reset with epoch := turn.epoch, turnID := turn.turnID, responseID }

def belongsTo (p : PacedDownlink) (turn : ActiveTurn) : Bool :=
  p.epoch ≠ 0 ∧ p.epoch = turn.epoch ∧ p.turnID = turn.turnID

def «matches» (p : PacedDownlink) (turn : ActiveTurn) (responseID : GoString) : Bool :=
  p.belongsTo turn ∧ p.responseID = responseID

def frameReady (p : PacedDownlink) : Bool :=
  outputFrameBytes ≤ p.pending.length ∨ (p.providerDone ∧ p.pending.length ≠ 0)

/-- The next frame of `sendNextPacedFrame`, and whether it is the last one. -/
def payload (p : PacedDownlink) : List UInt8 := p.pending.take outputFrameBytes

def final (p : PacedDownlink) : Bool := p.providerDone ∧ p.pending.length ≤ outputFrameBytes

/-- The provider may be read: there is room for one more delta. -/
def reads (p : PacedDownlink) : Bool :=
  p.epoch = 0 ∨ p.pending.length ≤ downlinkReadResumeBytes

end PacedDownlink

def nextPacedFrameDeadline (previousDeadline : Option Time) (sentAt : Time) : Time :=
  match previousDeadline with
  | none => sentAt + outputFrameDuration
  | some previous =>
    if previous + outputFrameDuration ≤ sentAt then sentAt + outputFrameDuration
    else
      let cadenceDeadline := previous + outputFrameDuration
      let minimumDeadline := sentAt + minimumOutputFrameSpacing
      if cadenceDeadline < minimumDeadline then minimumDeadline else cadenceDeadline

-- ---------------------------------------------------------------------------
-- The shared state
-- ---------------------------------------------------------------------------

/-- The session actor. `latest` is the newest epoch it has started, `committed` lists
the epochs whose commit it was asked for, `emitted` all it ever wrote to `Events()`. -/
structure Actor where
  latest : Nat := 0
  committed : List Nat := []
  emitted : List Event := []
  events : List Event := []
  eventsClosed : Bool := false
  deriving DecidableEq, Repr

/-- `connectionState` with the connection and the contexts. `sent` is everything ever
put on `sendQueue`, and `written` how much of it `writePump` has taken. `cancelled`
lists the downlink contexts that have been stopped. -/
structure Conn where
  turn : ActiveTurn
  sessionEpoch : Nat := 1
  message : Nat := 0
  cancelled : List Nat := []
  workerDone : Bool := false
  closed : Bool := false
  sent : List Outbound := []
  written : Nat := 0
  now : Time := 0
  actor : Actor := {}
  inbox : Inbox := {}
  deriving DecidableEq, Repr

namespace Conn

/-- A context is done: the worker's is the parent of every downlink context, and the
connection's is the parent of the worker's. -/
def done (c : Conn) (ctx : Option Nat) : Bool :=
  c.closed ∨ c.workerDone ∨ ∃ epoch ∈ ctx, epoch ∈ c.cancelled

def room (c : Conn) : Bool := c.sent.length < c.written + sendQueueCapacity

def put (c : Conn) (message : Outbound) : Conn := { c with sent := c.sent ++ [message] }

/-- `stopDownlink`. -/
def stop (c : Conn) (ctx : Option Nat) : Conn := { c with cancelled := ctx.toList ++ c.cancelled }

def setTurn (c : Conn) (turn : ActiveTurn) : Conn := { c with turn }

def retire (c : Conn) : Conn :=
  { c with turn := { c.turn with active := false, pendingPCM := [] } }

/-- The envelope `sendControl` encodes. -/
def reply (c : Conn) (turn : ActiveTurn) (body : Body) : Outbound :=
  .control {
    body, messageID := c.message + 1, deviceID := turn.deviceID, sessionID := turn.sessionID
    turnID := turn.turnID, streamID := turn.downlinkStream, epoch := turn.epoch }

/-- `state.message.Add(1)`. -/
def count (c : Conn) : Conn := { c with message := c.message + 1 }

end Conn

/-- The frame `sendDownlinkPCM` sends. -/
def downlinkPCM (c : Conn) (turn : ActiveTurn) (payload : List UInt8) (final : Bool) : Outbound :=
  .pcm {
    kind := AudioKindDownlink
    flags := (if turn.outputSequence = 0 then 1 else 0) + (if final then 2 else 0)
    sampleRateHz := outputSampleRateHz, payloadLen := payload.length
    sequence := turn.outputSequence, timestampUS := c.now / 1000, epoch := turn.epoch
    deviceUUID := turn.deviceUUID, sessionID := turn.sessionID, turnID := turn.turnID
    streamID := turn.downlinkStream } payload

/-- The session after `hello` has been answered. -/
def opened (deviceID : String) (deviceUUID : List UInt8) (sessionID : Nat) : Conn :=
  let turn : ActiveTurn := { deviceID, deviceUUID, sessionID, epoch := 1 }
  let c : Conn := { turn }
  c.count.put (c.reply turn .helloAck)

end BoomPI.Device
