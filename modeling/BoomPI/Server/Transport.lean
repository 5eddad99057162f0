import BoomPI.Server.Protocol

/-!
# The connection

`transport/connection.go`: the bounded receive queue with its congestion
signal, and `enqueue`, the two selects every outbound message passes.
-/

namespace BoomPI.Transport

open Protocol (Message ControlEnvelope PCMHeader Outbound)
open Backend (Error)

def sendQueueCapacity : Nat := 16
def receiveQueueCapacity : Nat := 32
def congestionCapacity : Nat := 1

structure TurnIdentity where
  sessionID : Nat
  turnID : Nat
  epoch : Nat
  deriving DecidableEq, Repr

structure TurnCongestionError where
  sessionID : Nat
  turnID : Nat
  streamID : Nat
  epoch : Nat
  deriving DecidableEq, Repr

def messageTurnIdentity : Message → Option TurnIdentity
  | .control e =>
    if e.sessionID = 0 ∨ e.turnID = 0 ∨ e.epoch = 0 then none
    else some { sessionID := e.sessionID, turnID := e.turnID, epoch := e.epoch }
  | .pcm h _ =>
    if h.sessionID = 0 ∨ h.turnID = 0 ∨ h.epoch = 0 then none
    else some { sessionID := h.sessionID, turnID := h.turnID, epoch := h.epoch }

def isTurnStart : Message → Bool
  | .control e => e.type = .turnStart
  | .pcm .. => false

def messageStreamID : Message → Nat
  | .control e => e.streamID
  | .pcm h _ => h.streamID

/-- Where `readPump` stands: at its read, at the send of a fence, or returned. -/
inductive ReadAt
  | reading
  | fencing (message : Message)
  | returned
  deriving DecidableEq, Repr

/-- The receiving half of a `Connection`. `wire` is what the peer has sent. -/
structure Inbox where
  wire : List Message := []
  pump : ReadAt := .reading
  saturatedTurn : Option TurnIdentity := none
  receiveQueue : List Message := []
  congestion : List TurnCongestionError := []
  congested : Option TurnIdentity := none
  deriving DecidableEq, Repr

/-- `signalTurnCongestion`; `none` when it returns false. -/
def Inbox.signalTurnCongestion (identity : TurnIdentity) (message : Message) (i : Inbox) :
    Option Inbox :=
  match i.congested with
  | some congested => if congested = identity then some i else none
  | none =>
    if i.congestion.length < congestionCapacity then
      some { i with
        congestion := i.congestion ++ [{
          sessionID := identity.sessionID, turnID := identity.turnID
          streamID := messageStreamID message, epoch := identity.epoch }]
        congested := some identity }
    else none

/-- `readPump` takes a message off the wire. The flag says that it cancels the
connection. -/
def Inbox.readPump (i : Inbox) : Option (Inbox × Bool) :=
  match i.pump, i.wire with
  | .reading, message :: wire =>
    let i := { i with wire }
    let identity := messageTurnIdentity message
    if i.saturatedTurn.isSome ∧ identity = i.saturatedTurn then some (i, false)
    else if i.saturatedTurn.isSome ∧ identity.isSome ∧ isTurnStart message then
      some ({ i with pump := .fencing message }, false)
    else if i.receiveQueue.length < receiveQueueCapacity then
      some ({ i with receiveQueue := i.receiveQueue ++ [message] }, false)
    else match identity with
      | none => some ({ i with pump := .returned }, true)
      | some identity =>
        match i.signalTurnCongestion identity message with
        | none => some ({ i with pump := .returned }, true)
        | some i => some ({ i with saturatedTurn := some identity }, false)
  | .fencing message, _ =>
    if i.receiveQueue.length < receiveQueueCapacity then
      some ({ i with
        pump := .reading, saturatedTurn := none
        receiveQueue := i.receiveQueue ++ [message] }, false)
    else none
  | _, _ => none

/-- `discardCongested`: whether the message is dropped, and what is remembered. -/
def Inbox.discardCongested (message : Message) (i : Inbox) : Bool × Inbox :=
  match i.congested, messageTurnIdentity message with
  | some congested, some identity =>
    if identity = congested then (true, i)
    else if isTurnStart message then (false, { i with congested := none })
    else (false, i)
  | _, _ => (false, i)

-- ---------------------------------------------------------------------------
-- Sending
-- ---------------------------------------------------------------------------

/-- The two selects of `enqueue`. -/
inductive SendAt
  | first
  | second
  deriving DecidableEq, Repr

/-- The cases of the two selects, and a message that does not encode. -/
inductive SendLabel
  | encodeFailed
  | offer
  | put
  | cancelled
  deriving DecidableEq, Repr

inductive SendResult
  | waiting
  | queued
  | failed (err : Error)
  deriving DecidableEq, Repr

/-- `SendControl` and `SendPCM` fail before `enqueue`. -/
def unencodable : Outbound → Option Error
  | .control reply =>
    if reply.body.boundless then some (.text "encode outbound control message") else none
  | .pcm header payload =>
    if payload.length ≠ header.payloadLen then
      some (.text "outbound PCM payload length does not match its header")
    else header.validate.map (.wrap "encode outbound PCM header")

/-- A message whose encoding cannot fail for its size alone. -/
def encodable : Outbound → Bool
  | .control _ => true
  | .pcm header payload => payload.length = header.payloadLen ∧ header.validate = none

/-- `SendControl`, `SendPCM` and the `enqueue` under them take one step. `done` says
that the context or the connection is. -/
def enqueue (done room : Bool) (message : Outbound) : SendAt → SendLabel → Option SendResult
  | .first, .encodeFailed => (unencodable message).map .failed
  | .first, .cancelled => if encodable message ∧ done then some (.failed .context) else none
  | .first, .offer => if encodable message ∧ ¬ done then some .waiting else none
  | .second, .put => if room then some .queued else none
  | .second, .cancelled => if done then some (.failed .context) else none
  | _, _ => none

end BoomPI.Transport
