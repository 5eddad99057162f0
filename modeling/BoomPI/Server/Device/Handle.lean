import BoomPI.Server.Device.State

/-!
# The reader

`Handle`: the goroutine that takes the peer's messages, keeps the turn and
retires it. The actor answers each call when it likes, with any error; only a
successful `StartTurn` takes a new epoch.
-/

namespace BoomPI.Device

open Backend (Error)
open Protocol
open Transport (SendAt SendLabel SendResult TurnCongestionError enqueue)

inductive Answer
  | report                                                     -- an error message
  | ack (envelope : ControlEnvelope) (cause : Option Error)    -- response.cancelled
  | farewell (cause : Error)                                   -- `sendProtocolError`
  deriving DecidableEq, Repr

/-- Where `Handle` stands. -/
inductive HandleAt
  | receive                                       -- `Receive`: its first select
  | selecting                                     -- its second select
  | congested (congestion : TurnCongestionError)  -- `handleTurnCongestion`
  | control (envelope : ControlEnvelope)          -- `staleRetiredTurnControl`
  | handling (envelope : ControlEnvelope)         -- `handleControl`
  | drawing (turn : ActiveTurn) (envelope : ControlEnvelope)      -- `randomNonzeroID`
  | starting (turn : ActiveTurn) (envelope : ControlEnvelope) (downlinkStream : Nat)
  | started (turn : ActiveTurn)                   -- `actor.StartTurn` has returned
  | startStore (turn : ActiveTurn)
  | flushing (turn : ActiveTurn) (envelope : ControlEnvelope)     -- `flushFinalInput`
  | commitStore (turn : ActiveTurn) (envelope : ControlEnvelope)
  | committing (turn : ActiveTurn) (envelope : ControlEnvelope)   -- `actor.Commit`
  | fencing (turn : ActiveTurn) (envelope : ControlEnvelope)
  | cancelling (turn : ActiveTurn) (envelope : ControlEnvelope)   -- `actor.Cancel`
  | failed (envelope : ControlEnvelope) (err : Error)  -- `handleControl` has failed
  | rejecting (envelope : ControlEnvelope)             -- `rejectTurnStart`
  | pcm (header : PCMHeader) (payload : List UInt8)    -- `pcmBelongsToRetiredTurn`
  | handlingPCM (header : PCMHeader) (payload : List UInt8)       -- `handlePCM`
  | appending (header : PCMHeader) (epoch : Nat) (completePCM : List UInt8)
  | failedPCM (header : PCMHeader) (err : Error)       -- `handlePCM` has failed
  | retiring (cause : Error)                           -- `retireActiveTurn`
  | retireStop (turn : ActiveTurn)
  | retireCancel (turn : ActiveTurn)                   -- `actor.Cancel`
  | protocolError (cause : Error)                      -- `sendProtocolError`
  | sending (s : SendAt) (message : Outbound) (answer : Answer)
  | exited (err : Error)
  deriving DecidableEq, Repr

inductive HandleLabel
  | next
  | congestion
  | message
  | stopped
  | random (downlinkStream : Nat)
  | returns (result : Option Error)   -- a call of the actor
  | send (l : SendLabel)
  deriving DecidableEq, Repr

abbrev Handled := Conn × HandleAt

def TurnCongestionError.error (congestion : TurnCongestionError) : Error :=
  .text ("transport receive queue is full for session=" ++ toString congestion.sessionID ++
    " turn=" ++ toString congestion.turnID ++ " epoch=" ++ toString congestion.epoch)

def turnError (path : ErrorPath) : Body :=
  .error "turn_error" "The current voice turn was cancelled" path

/-- A `sendControl` of the reader. -/
def answer (c : Conn) (turn : ActiveTurn) (body : Body) (answer : Answer) : Handled :=
  (c.count, .sending .first (c.reply turn body) answer)

def handleTurnCongestion (c : Conn) (congestion : TurnCongestionError) : Handled :=
  if congestion.sessionID ≠ c.turn.sessionID then
    (c, .exited (.text "receive congestion does not belong to this device session"))
  else if c.turn.active ∧ congestion.turnID = c.turn.turnID ∧ congestion.epoch = c.turn.epoch then
    (c, .retiring (TurnCongestionError.error congestion))
  else
    answer c { c.turn with
      turnID := congestion.turnID, uplinkStream := congestion.streamID
      downlinkStream := congestion.streamID, epoch := congestion.epoch, active := false }
      (turnError .congestion) .report

def rejectTurnStart (c : Conn) (envelope : ControlEnvelope) : Handled :=
  let turn :=
    if identified envelope then
      { c.turn with
        turnID := envelope.turnID, uplinkStream := envelope.streamID
        downlinkStream := envelope.streamID, epoch := envelope.epoch, active := false }
    else
      { c.turn with
        turnID := 0, uplinkStream := 0, downlinkStream := 0, epoch := c.sessionEpoch
        active := false }
  answer c turn (.error "turn_error" "The requested voice turn was rejected" .rejected) .report

def sendProtocolError (c : Conn) (cause : Error) : Handled :=
  answer c { c.turn with turnID := 0, uplinkStream := 0, downlinkStream := 0, epoch := c.sessionEpoch }
    (.error "protocol_error" "Protocol message rejected" .protocol) (.farewell cause)

/-- `handleControl` up to its first call of the actor or its first write. -/
def handleControl (turn : ActiveTurn) (envelope : ControlEnvelope) : HandleAt :=
  if ¬ controlBelongsToDeviceSession turn envelope then
    .failed envelope (.text "control message does not belong to this device session")
  else match envelope.type with
  | .turnStart =>
    match validateTurnStart turn envelope with
    | some err => .failed envelope err
    | none => .drawing turn envelope
  | .turnCommit =>
    match validateTurnCommit turn envelope with
    | some err => .failed envelope err
    | none => .flushing turn envelope
  | .turnCancel | .responseCancel =>
    if ¬ emptyObjectPayload envelope.payload then
      .failed envelope (.text "cancel payload must be empty")
    else if ¬ turn.active then
      -- a late cancel of the retired turn still reaches the actor
      if turn.named envelope then .cancelling turn envelope else .receive
    else if turn.named envelope then .fencing turn envelope
    else .failed envelope (.text "cancel identifiers do not match the active turn")
  | .hello | .other _ => .failed envelope (.text ("unsupported control type " ++ envelope.type.name.quote))

/-- `Handle` after `handleControl` returned an error. -/
def controlFailed (turn : ActiveTurn) (envelope : ControlEnvelope) (err : Error) : HandleAt :=
  if err.is errInvalidTurnStart ∧ controlBelongsToDeviceSession turn envelope then
    .rejecting envelope
  else if controlBelongsToActiveTurn turn envelope then .retiring err
  else .protocolError err

/-- `StartTurn` returned an error; one of the actor itself rejects the turn. -/
def startFailed (envelope : ControlEnvelope) (err : Error) : HandleAt :=
  if err.is Session.ErrInvalidTransition ∨ err.is Session.ErrStaleEpoch then
    .failed envelope (.wrap "provider session rejected the turn epoch" errInvalidTurnStart)
  else .failed envelope err

def fence (c : Conn) (turn : ActiveTurn) : Conn :=
  if sameTurn c.turn turn then c.retire.stop c.turn.downlinkCtx else c

def Answer.resume : Answer → Option Error → HandleAt
  | .report, none | .ack _ none, none => .receive
  | .report, some err => .exited err
  | .ack envelope none, some err | .ack envelope (some err), _ => .failed envelope err
  | .farewell cause, _ => .exited cause

def take (c : Conn) : Option Handled :=
  match c.inbox.receiveQueue with
  | [] => none
  | message :: receiveQueue =>
    let (discard, inbox) := { c.inbox with receiveQueue }.discardCongested message
    let c := { c with inbox }
    some (c, if discard then .receive else match message with
      | .control envelope => .control envelope
      | .pcm header payload => .pcm header payload)

def takeCongestion (c : Conn) : Option Handled :=
  match c.inbox.congestion with
  | [] => none
  | err :: congestion => some ({ c with inbox := { c.inbox with congestion } }, .congested err)

/-- `Handle`, one atomic action at a time. -/
def handleStep (c : Conn) : HandleAt → HandleLabel → Option Handled
  | .receive, .next =>
    if c.closed then some (c, .exited .context)
    else some ((takeCongestion c).getD (c, .selecting))
  | .selecting, .stopped => if c.done none then some (c, .exited .context) else none
  | .selecting, .congestion => takeCongestion c
  | .selecting, .message => take c
  | .congested congestion, .next => some (handleTurnCongestion c congestion)
  | .control envelope, .next =>
    some (c, if staleRetiredTurnControl c.turn envelope then .receive else .handling envelope)
  | .handling envelope, .next => some (c, handleControl c.turn envelope)
  | .drawing turn envelope, .random downlinkStream =>
    if 0 < downlinkStream ∧ downlinkStream < 2 ^ 32 then
      some (c, .starting turn envelope downlinkStream)
    else none
  | .starting _ envelope _, .returns (some err) => some (c, startFailed envelope err)
  | .starting turn envelope downlinkStream, .returns none =>
    if c.actor.latest < envelope.epoch then
      some ({ c with actor := { c.actor with latest := envelope.epoch } },
        .started (turn.begin envelope downlinkStream))
    else none
  | .started turn, .next =>
    some (c.stop turn.downlinkCtx,
      .startStore { turn with downlinkCtx := some turn.epoch, active := true })
  | .startStore turn, .next => some (c.setTurn turn, .receive)
  | .flushing turn envelope, .next =>
    if turn.pendingPCM = [] then some (c, .commitStore turn envelope) else none
  | .flushing turn envelope, .returns result =>
    -- `AppendPCM` of `finalInput turn`
    if turn.pendingPCM = [] then none
    else match result with
      | none => some (c, .commitStore { turn with pendingPCM := [] } envelope)
      | some err => some (c, .failed envelope err)
  | .commitStore turn envelope, .next =>
    let turn := { turn with inputCommitted := true }
    some ({ c with turn, actor := { c.actor with committed := turn.epoch :: c.actor.committed } },
      .committing turn envelope)
  | .committing _ envelope, .returns result =>
    some (c, match result with
      | none => .receive
      | some err => .failed envelope err)
  | .fencing turn envelope, .next => some (fence c turn, .cancelling turn envelope)
  | .cancelling turn envelope, .returns result =>
    some (answer c turn (.cancelled "client_request") (.ack envelope result))
  | .failed envelope err, .next => some (c, controlFailed c.turn envelope err)
  | .rejecting envelope, .next => some (rejectTurnStart c envelope)
  | .pcm header payload, .next =>
    some (c, if pcmBelongsToRetiredTurn c.turn header then .receive
      else .handlingPCM header payload)
  | .handlingPCM header payload, .next =>
    some (match acceptPCM c.turn header payload with
      | .error err => (c, .failedPCM header err)
      | .ok (turn, completePCM) => (c.setTurn turn, .appending header turn.epoch completePCM))
  | .appending header epoch completePCM, .returns result =>
    if completePCM = [] then none
    else some (c, match result with
      | none => .appending header epoch (completePCM.drop inputFrameBytes)
      | some err => .failedPCM header err)
  | .appending _ _ [], .next => some (c, .receive)
  | .failedPCM header err, .next =>
    some (c, if pcmBelongsToActiveTurn c.turn header then .retiring err else .protocolError err)
  | .retiring cause, .next =>
    if c.turn.active then some (c.retire, .retireStop c.turn) else some (c, .exited cause)
  | .retireStop turn, .next => some (c.stop turn.downlinkCtx, .retireCancel turn)
  | .retireCancel turn, .returns result =>
    some (match result with
      | none => answer c turn (turnError .retired) .report
      | some err => (c, .exited err))
  | .protocolError cause, .next => some (sendProtocolError c cause)
  | .sending s message answer, .send l =>
    (enqueue (c.done none) c.room message s l).map fun
      | .waiting => (c, .sending .second message answer)
      | .queued => (c.put message, answer.resume none)
      | .failed err => (c, answer.resume (some err))
  | _, _ => none

end BoomPI.Device
