import BoomPI.Server.Transport

/-!
# The active turn

`device_handler.go`: the turn record the reader and the forwarder share, and
the checks on it that do not block.
-/

namespace BoomPI.Device

open Backend (Error)
open Protocol
open Transport (TurnIdentity)

def inputFrameBytes : Nat := 640
def outputSampleRateHz : Nat := 24000
def pcmBytesPerSample : Nat := 2
def outputFrameBytes : Nat := outputSampleRateHz * pcmBytesPerSample * 20 / 1000
def downlinkMaxBufferedBytes : Nat := outputSampleRateHz * pcmBytesPerSample * 1500 / 1000
def maxProviderAudioDeltaBytes : Nat := 64 * 1024
def downlinkReadResumeBytes : Nat := downlinkMaxBufferedBytes - maxProviderAudioDeltaBytes

def errInvalidTurnStart : Error := .sentinel "invalid turn.start"

/-- `activeTurn`. `downlinkCtx` names the context by the epoch of the turn.start that
made it, and `stopDownlink` is its cancellation. -/
structure ActiveTurn where
  deviceID : String
  deviceUUID : List UInt8
  sessionID : Nat
  turnID : Nat := 0
  uplinkStream : Nat := 0
  downlinkStream : Nat := 0
  epoch : Nat
  expectedInput : Nat := 0
  inputStarted : Bool := false
  inputEnded : Bool := false
  inputCommitted : Bool := false
  outputSequence : Nat := 0
  pendingPCM : List UInt8 := []
  outputStarted : Bool := false
  downlinkCtx : Option Nat := none
  active : Bool := false
  deriving DecidableEq, Repr

def ActiveTurn.identity (turn : ActiveTurn) : TurnIdentity :=
  { sessionID := turn.sessionID, turnID := turn.turnID, epoch := turn.epoch }

def sameTurn (current expected : ActiveTurn) : Bool :=
  current.sessionID = expected.sessionID ∧ current.turnID = expected.turnID ∧
    current.epoch = expected.epoch

def sameActiveTurn (current expected : ActiveTurn) : Bool :=
  current.active ∧ sameTurn current expected

theorem sameTurn_iff {current expected : ActiveTurn} :
    sameTurn current expected = true ↔ current.identity = expected.identity := by
  simp [sameTurn, ActiveTurn.identity]

theorem sameActiveTurn_iff {current expected : ActiveTurn} :
    sameActiveTurn current expected = true ↔
      current.active = true ∧ current.identity = expected.identity := by
  simp [sameActiveTurn, sameTurn_iff]

-- ---------------------------------------------------------------------------
-- Whose message it is
-- ---------------------------------------------------------------------------

/-- The identifiers of a control message are those of the turn, on one of its streams. -/
def ActiveTurn.named (turn : ActiveTurn) (envelope : ControlEnvelope) : Bool :=
  envelope.turnID = turn.turnID ∧ envelope.epoch = turn.epoch ∧
    (envelope.streamID = turn.uplinkStream ∨ envelope.streamID = turn.downlinkStream)

def controlBelongsToDeviceSession (turn : ActiveTurn) (envelope : ControlEnvelope) : Bool :=
  envelope.deviceID = turn.deviceID ∧ envelope.sessionID = turn.sessionID

def controlBelongsToActiveTurn (turn : ActiveTurn) (envelope : ControlEnvelope) : Bool :=
  turn.active ∧ controlBelongsToDeviceSession turn envelope ∧ turn.named envelope

/-- The identifiers of a turn.start that can be answered for its own turn. -/
def identified (envelope : ControlEnvelope) : Bool :=
  envelope.turnID ≠ 0 ∧ envelope.streamID ≠ 0 ∧ envelope.epoch ≠ 0

/-- A PCM frame carries the identifiers of the turn's uplink. -/
def ActiveTurn.carries (turn : ActiveTurn) (header : PCMHeader) : Bool :=
  header.deviceUUID = turn.deviceUUID ∧ header.sessionID = turn.sessionID ∧
    header.turnID = turn.turnID ∧ header.streamID = turn.uplinkStream ∧
    header.epoch = turn.epoch

def pcmBelongsToActiveTurn (turn : ActiveTurn) (header : PCMHeader) : Bool :=
  turn.active ∧ turn.carries header

def pcmBelongsToRetiredTurn (turn : ActiveTurn) (header : PCMHeader) : Bool :=
  ¬ turn.active ∧ turn.carries header

def staleRetiredTurnControl (turn : ActiveTurn) (envelope : ControlEnvelope) : Bool :=
  envelope.type = .turnCommit ∧ ¬ turn.active ∧ controlBelongsToDeviceSession turn envelope ∧
    envelope.turnID = turn.turnID ∧ envelope.streamID = turn.uplinkStream ∧
    envelope.epoch = turn.epoch

-- ---------------------------------------------------------------------------
-- Checks of handleControl
-- ---------------------------------------------------------------------------

def emptyObjectPayload (payload : List (String × Json)) : Bool := payload = []

def sampleRatePayload : List (String × Json) → Bool
  | [(name, .integer rate)] => name = "sample_rate_hz" ∧ rate = 16000
  | _ => false

def validateTurnStart (turn : ActiveTurn) (envelope : ControlEnvelope) : Option Error :=
  if turn.active then some (.wrap "a turn is already active" errInvalidTurnStart)
  else if envelope.turnID = 0 ∨ envelope.streamID = 0 ∨ envelope.epoch = 0 then
    some (.wrap "identifiers must be nonzero" errInvalidTurnStart)
  else if ¬ sampleRatePayload envelope.payload then
    some (.wrap "sample_rate_hz must be 16000" errInvalidTurnStart)
  else none

/-- The turn a successful turn.start stores, up to the downlink context. -/
def ActiveTurn.begin (turn : ActiveTurn) (envelope : ControlEnvelope) (downlinkStream : Nat) :
    ActiveTurn :=
  { turn with
    turnID := envelope.turnID, uplinkStream := envelope.streamID, downlinkStream
    epoch := envelope.epoch, expectedInput := 0
    inputStarted := false, inputEnded := false, inputCommitted := false
    outputSequence := 0, pendingPCM := [], outputStarted := false }

def validateActiveEnvelope (turn : ActiveTurn) (envelope : ControlEnvelope) : Option Error :=
  if ¬ turn.active ∨ envelope.turnID ≠ turn.turnID ∨ envelope.streamID ≠ turn.uplinkStream ∨
      envelope.epoch ≠ turn.epoch then
    some (.text "control message does not match the active turn")
  else none

def validateUplinkCommit (turn : ActiveTurn) : Option Error :=
  if turn.inputCommitted then some (.text "turn.commit was received more than once")
  else if ¬ turn.inputStarted then
    some (.text "turn.commit requires at least one uplink PCM frame")
  else if ¬ turn.inputEnded then some (.text "turn.commit requires the uplink END marker")
  else none

def validateTurnCommit (turn : ActiveTurn) (envelope : ControlEnvelope) : Option Error :=
  match validateActiveEnvelope turn envelope with
  | some err => some err
  | none =>
    if ¬ emptyObjectPayload envelope.payload then
      some (.text "turn.commit payload must be empty")
    else validateUplinkCommit turn

/-- The frame `flushFinalInput` pads with silence. -/
def finalInput (turn : ActiveTurn) : List UInt8 :=
  turn.pendingPCM ++ List.replicate (inputFrameBytes - turn.pendingPCM.length) 0

-- ---------------------------------------------------------------------------
-- Checks of handlePCM
-- ---------------------------------------------------------------------------

def validateAndAdvanceUplinkFraming (turn : ActiveTurn) (header : PCMHeader) :
    Except Error ActiveTurn :=
  if turn.inputCommitted then .error (.text "PCM arrived after turn.commit")
  else if turn.inputEnded then .error (.text "PCM arrived after the uplink END marker")
  else if header.discontinuity then
    .error (.text "uplink PCM discontinuity cancels the active turn")
  else if ¬ turn.inputStarted ∧ ¬ header.start then
    .error (.text "first uplink PCM frame must carry START")
  else if turn.inputStarted ∧ header.start then
    .error (.text "uplink PCM START marker may only appear on the first frame")
  else .ok { turn with inputStarted := true, inputEnded := turn.inputEnded || header.fin }

def uplinkContext (turn : ActiveTurn) : PCMStreamContext where
  kind := AudioKindUplink
  sampleRateHz := 16000
  deviceUUID := turn.deviceUUID
  epoch := turn.epoch
  sessionID := turn.sessionID
  turnID := turn.turnID
  streamID := turn.uplinkStream
  expectedSequence := turn.expectedInput

/-- The part of `handlePCM` under the lock: the turn it leaves, and the input frames
it has completed. -/
def acceptPCM (turn : ActiveTurn) (header : PCMHeader) (pcm : List UInt8) :
    Except Error (ActiveTurn × List UInt8) :=
  if ¬ turn.active then .error (.text "PCM arrived without an active turn")
  else match (uplinkContext turn).validateHeader header with
  | some err => .error err
  | none =>
    match validateAndAdvanceUplinkFraming turn header with
    | .error err => .error err
    | .ok turn =>
      let pending := turn.pendingPCM ++ pcm
      let completeBytes := pending.length / inputFrameBytes * inputFrameBytes
      .ok ({ turn with
          expectedInput := uint32 (turn.expectedInput + 1)
          pendingPCM := pending.drop completeBytes },
        pending.take completeBytes)

end BoomPI.Device
