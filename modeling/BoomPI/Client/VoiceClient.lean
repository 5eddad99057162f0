import BoomPI.Client.Transport
import BoomPI.Utf8

/-!
# The client's application actor

`voice_client.cpp`: one thread that takes captured frames, events of the
transport, touch actions and deadlines in turn, over a transport whose callbacks
run on a thread of their own and queue what they let through.
-/

namespace BoomPI.Client

open BoomPI.Client.Transport (Envelope)

-- ---------------------------------------------------------------------------
-- Constants
-- ---------------------------------------------------------------------------

def kPreRollFrames : Nat := 25
def kBargeBufferFrames : Nat := 67
def kBargeCandidateFrames : Nat := 6
def kBargeReferenceLowFrames : Nat := 3
def kBargeReferenceWaitFrames : Nat := 15
def kBargeEchoClearFrames : Nat := 3
def kBargeConfirmFrames : Nat := 3
def kBargeTailFreezeFrames : Nat := 10
def kBargeRetryCooldownFrames : Nat := 15
def kMaximumTurnFrames : UInt32 := 3000
def kFollowUpNearFrames : Nat := 20
def kEventSlots : Nat := 64

-- in milliseconds
def kConnectWait : Nat := 6000
def kHelloAckWait : Nat := 5000
def kHeartbeatWait : Nat := 30000
def kSpeechStartWait : Nat := 6000
def kMaximumTurnWait : Nat := 60000
def kFirstResponseHint : Nat := 15000
def kResponseWait : Nat := 30000
def kCancelAckWait : Nat := 3000
def kDrainPlaybackWait : Nat := 30000
def kFollowUpWait : Nat := 3000

-- ---------------------------------------------------------------------------
-- What the actor sees
-- ---------------------------------------------------------------------------

/-- What the actor reads of a `CaptureFrame`; `voiceDbfs` on an integer scale. -/
structure CaptureFrame where
  pcm : Vector UInt8 640 := .replicate 640 0
  sequence : UInt64 := 0
  voiceDbfs : Int := -120
  wake : Bool := false
  vadStarted : Bool := false
  vadEnded : Bool := false
  discontinuity : Bool := false
  nearVoice : Bool := false
  referenceActive : Bool := false
  deriving DecidableEq, Repr

/-- An item of `EventQueue`. A failed connection queues an error with the code
"transport" and no identity. -/
inductive QueuedEvent
  | heartbeat
  | inbound (event : Inbound)
  deriving DecidableEq, Repr

def Inbound.isCancelled : Inbound → Bool
  | .cancelled _ => true
  | _ => false

inductive DeviceUiAction
  | wake
  | interrupt
  deriving DecidableEq, Repr

inductive DeviceUiState
  | idle
  | listening
  | thinking
  | speaking
  | happy
  | offline
  | speakingTail
  deriving DecidableEq, Repr

structure ClientConfig where
  deviceId : String
  deviceToken : String
  bargeInEnabled : Bool
  bargeMinDbfs : Int

/-- What the clock and the audio engine answer during one step. -/
structure Answers where
  now : Nat := 0
  resetListener : Bool := true
  beginPlayback : Bool := true
  queueTts24k : Bool := true
  endPlayback : Bool := true
  playbackActive : Bool := true
  playbackDone : Bool := false
  playbackFailed : Bool := false
  /-- what `CheckQueueCapacity` finds, one message after another -/
  capacities : List QueueCapacity := []
  deriving DecidableEq, Repr

inductive Effect
  | sent (kind : ControlKind) (ids : WireIds)
  | sentPcm (header : Pcm64Header)
  | beginPlayback
  | queueTts24k (sequence : UInt32)
  | endPlayback
  | dropPlayback
  | setText (first second : List UInt8)
  | setState (state : DeviceUiState)
  deriving DecidableEq, Repr

-- ---------------------------------------------------------------------------
-- The state
-- ---------------------------------------------------------------------------

inductive VoiceState
  | waitingForWake
  | waitingForSpeech
  | capturingSpeech
  | waitingForResponse
  | playingResponse
  | cancelPending
  | drainingPlayback
  | waitingForFollowUp
  deriving DecidableEq, Repr

inductive BargeProbe
  | idle
  | waitReferenceLow
  | clear
  | verify
  deriving DecidableEq, Repr

/-- The connection of a transport: `connected_` while it is open. -/
inductive LinkState
  | connecting
  | connected
  | closed
  deriving DecidableEq, Repr

/-- `transport_` -/
structure Link where
  transport : Transport
  state : LinkState := .connecting
  deriving DecidableEq, Repr

structure VoiceClient where
  link : Option Link := none
  events : List QueuedEvent := []
  overflow : Bool := false
  helloSent : Bool := false
  pre : List CaptureFrame := []
  turnIds : WireIds := {}
  responseIds : WireIds := {}
  state : VoiceState := .waitingForWake
  stateDeadline : Nat := 0
  nextConnect : Nat := 0
  heartbeatDeadline : Nat := 0
  awaitHintAt : Nat := 0
  audioOriginUs : UInt64 := 0
  nextCaptureSequence : UInt64 := 0
  message : UInt32 := 1
  uplinkSequence : UInt32 := 0
  subtitle : List UInt8 := []
  reconnectAttempt : Nat := 0
  followUpNearFrames : Nat := 0
  bargeProbeFrames : Nat := 0
  bargeCooldownFrames : Nat := 0
  bargeQuietFrames : Nat := 0
  bargeSilenceFrames : Nat := 0
  awaitHintPending : Bool := false
  awaitHintVisible : Bool := false
  bargeProbe : BargeProbe := .idle
  bargeEnded : Bool := false
  bargeTurnAdmitted : Bool := false
  bargeBufferOverflow : Bool := false
  manualWakePending : Bool := false
  finishAfterCancelAck : Bool := false
  listenerFailed : Bool := false
  /-- what `SetPlaybackScale` was called with so far -/
  playbackScales : List Nat := []
  /-- what `CheckQueueCapacity` will find in this step -/
  capacities : List QueueCapacity := []
  effects : List Effect := []
  deriving DecidableEq, Repr

namespace VoiceClient

def emit (effect : Effect) (c : VoiceClient) : VoiceClient :=
  { c with effects := c.effects ++ [effect] }

-- ---------------------------------------------------------------------------
-- The event queue
-- ---------------------------------------------------------------------------

/-- `EventQueue::Push` -/
def push (event : QueuedEvent) (c : VoiceClient) : VoiceClient :=
  if c.events.length = kEventSlots then { c with overflow := true }
  else { c with events := c.events ++ [event] }

def pushFailure (why : String) (c : VoiceClient) : VoiceClient :=
  c.push (.inbound (.error {} "transport" why))

-- ---------------------------------------------------------------------------
-- Sending
-- ---------------------------------------------------------------------------

/-- `CheckQueueCapacity`; nothing can be sent on a connection that is not open. -/
def checkQueueCapacity (link : Link) (c : VoiceClient) : QueueCapacity × VoiceClient :=
  (if link.state = .connected then c.capacities.headD .available else .unavailable,
    { c with capacities := c.capacities.tail })

def sendControl (cfg : ClientConfig) (kind : ControlKind) (ids : WireIds)
    (c : VoiceClient) : Bool × VoiceClient :=
  let control : Control := {
    kind, ids, messageId := "client-" ++ toString c.message.toNat
    deviceToken := if kind = .hello then cfg.deviceToken else "" }
  let c := { c with message := c.message + 1 }
  match c.link with
  | none => (false, c)
  | some link =>
    let (capacity, c) := c.checkQueueCapacity link
    match link.transport.send control capacity with
    | (ok, true, transport) =>
      (ok, { c with link := some { link with transport } }.emit (.sent kind ids))
    | (ok, false, _) => (ok, c)

def sendAudio (frame : CaptureFrame) (last : Bool) (c : VoiceClient) :
    SendOutcome × VoiceClient :=
  let header : Pcm64Header := {
    flags := (if c.uplinkSequence = 0 then 1 else 0) ||| (if last then 2 else 0)
    sequence := c.uplinkSequence
    timestampUs := c.audioOriginUs + frame.sequence * 20000
    ids := c.turnIds }
  match c.link with
  | none => (.rejected, c)
  | some link =>
    let (capacity, c) := c.checkQueueCapacity link
    match link.transport.sendPcm header frame.pcm.toList capacity with
    | (.ok, _, transport) =>
      (.ok, { c with
        link := some { link with transport }, uplinkSequence := c.uplinkSequence + 1 }.emit
          (.sentPcm header))
    | (outcome, _, _) => (outcome, c)

-- ---------------------------------------------------------------------------
-- Display and listener
-- ---------------------------------------------------------------------------

def resetListener (a : Answers) (c : VoiceClient) : VoiceClient :=
  if a.resetListener then c else { c with listenerFailed := true }

def utf8Cut (text : List UInt8) (limit : Nat) : Nat :=
  if text.length ≤ limit then text.length
  else limit - ((text.take (limit + 1)).reverse.takeWhile Utf8.continues).length

def showText (delta : String) (c : VoiceClient) : VoiceClient :=
  let subtitle := c.subtitle ++ delta.toUTF8.data.toList
  let subtitle :=
    if 126 < subtitle.length then (subtitle.drop (subtitle.length - 126)).dropWhile Utf8.continues
    else subtitle
  let first := utf8Cut subtitle 63
  let rest := subtitle.drop first
  { c with subtitle }.emit (.setText (subtitle.take first) (rest.take (utf8Cut rest 63)))

def clearSubtitle (c : VoiceClient) : VoiceClient :=
  { c with subtitle := [] }.emit (.setText [] [])

def markFirstResponseProgress (c : VoiceClient) : VoiceClient :=
  let c := { c with awaitHintPending := false }
  if c.awaitHintVisible then { c with awaitHintVisible := false }.clearSubtitle else c

-- ---------------------------------------------------------------------------
-- The barge-in probe
-- ---------------------------------------------------------------------------

def setPlaybackScale (scale : Nat) (c : VoiceClient) : VoiceClient :=
  { c with playbackScales := c.playbackScales ++ [scale] }

/-- The scale last set; the audio engine starts with 1. -/
def playbackScale (c : VoiceClient) : Nat := c.playbackScales.getLastD 1

def resetBargeProbe (c : VoiceClient) : VoiceClient :=
  { c with bargeProbeFrames := 0, bargeCooldownFrames := 0, bargeProbe := .idle }.setPlaybackScale 1

def resetBargeTurn (c : VoiceClient) : VoiceClient :=
  { c with
    bargeEnded := false, bargeTurnAdmitted := false, bargeBufferOverflow := false
    bargeQuietFrames := 0, bargeSilenceFrames := 0 }

def rejectBargeProbe (c : VoiceClient) : VoiceClient :=
  { c.resetBargeProbe.resetBargeTurn with bargeCooldownFrames := kBargeRetryCooldownFrames }

-- ---------------------------------------------------------------------------
-- Connections
-- ---------------------------------------------------------------------------

def loseConnection (a : Answers) (c : VoiceClient) : VoiceClient :=
  let c := { c with link := none, events := [], overflow := false }
  let c := (c.emit .dropPlayback).clearSubtitle
  let c := { c with awaitHintPending := false, awaitHintVisible := false }
  let c := c.emit (.setState .offline)
  let c := { c with
    state := .waitingForWake, turnIds := {}, responseIds := {}, pre := [] }
  let c := c.resetBargeProbe.resetBargeTurn
  let c := { c with finishAfterCancelAck := false, manualWakePending := false }
  let c := c.resetListener a
  let seconds := if c.reconnectAttempt < 5 then 2 ^ c.reconnectAttempt else 30
  { c with
    reconnectAttempt := if c.reconnectAttempt < 5 then c.reconnectAttempt + 1 else c.reconnectAttempt
    nextConnect := a.now + 1000 * seconds }

/-- `StartConnect`; `connects` is what the WebSocket library answers. -/
def startConnect (cfg : ClientConfig) (a : Answers) (connects : Bool) (c : VoiceClient) :
    VoiceClient :=
  let c := { c with helloSent := false, stateDeadline := a.now + kConnectWait }
  match Wire.parseUuid cfg.deviceId.toUTF8.data.toList with
  | some uuid =>
    let c := { c with link := some { transport := { deviceId := cfg.deviceId, uuid } } }
    if connects then c else c.loseConnection a
  | none => c.loseConnection a

def finishConnect (cfg : ClientConfig) (a : Answers) (c : VoiceClient) : VoiceClient :=
  if c.helloSent ∨ ¬ c.link.any (·.state = .connected) then c
  else match c.sendControl cfg .hello {} with
  | (false, c) => c.loseConnection a
  | (true, c) => { c with helloSent := true, stateDeadline := a.now + kHelloAckWait }

-- ---------------------------------------------------------------------------
-- Turns
-- ---------------------------------------------------------------------------

def abortCurrent (cfg : ClientConfig) (a : Answers) (c : VoiceClient) : VoiceClient :=
  let c := (c.emit .dropPlayback).resetBargeProbe.resetBargeTurn
  let c := { c with finishAfterCancelAck := true }
  let hasResponse := c.responseIds.session ≠ 0
  match c.sendControl cfg (if hasResponse then .responseCancel else .turnCancel)
      (if hasResponse then c.responseIds else c.turnIds) with
  | (false, c) => c.loseConnection a
  | (true, c) => { c with state := .cancelPending, stateDeadline := a.now + kCancelAckWait }

def advanceTurn (c : VoiceClient) : VoiceClient :=
  { c with
    turnIds := { c.turnIds with
      turn := c.turnIds.turn + 1, stream := c.turnIds.stream + 1, epoch := c.turnIds.epoch + 1 }
    responseIds := {} }

def finishTurn (a : Answers) (normal : Bool) (c : VoiceClient) : VoiceClient :=
  let c := c.resetBargeProbe.resetBargeTurn
  let c := { c with
    followUpNearFrames := 0, finishAfterCancelAck := false, awaitHintPending := false
    awaitHintVisible := false }
  let c := if normal then c else (c.emit .dropPlayback).clearSubtitle
  let c := c.advanceTurn.resetListener a
  { c with state := .waitingForFollowUp, stateDeadline := a.now + kFollowUpWait }.emit
    (.setState .happy)

def sendAudioOrRecover (cfg : ClientConfig) (a : Answers) (frame : CaptureFrame) (last : Bool)
    (c : VoiceClient) : Bool × VoiceClient :=
  match c.sendAudio frame last with
  | (.ok, c) => (true, c)
  | (.backpressure, c) => (false, c.abortCurrent cfg a)
  | (.rejected, c) => (false, c.loseConnection a)

def waitForResponse (a : Answers) (c : VoiceClient) : VoiceClient :=
  { c with
    state := .waitingForResponse, stateDeadline := a.now + kResponseWait
    awaitHintAt := a.now + kFirstResponseHint, awaitHintPending := true
    awaitHintVisible := false }.emit (.setState .thinking)

/-- The loop of `StartTurn` over the frames kept before it. -/
def sendPreRoll (cfg : ClientConfig) (a : Answers) (ended : Bool) :
    List CaptureFrame → VoiceClient → Bool × VoiceClient
  | [], c => (true, c)
  | frame :: rest, c =>
    match c.sendAudioOrRecover cfg a frame (ended && rest.isEmpty) with
    | (true, c) => c.sendPreRoll cfg a ended rest
    | (false, c) => (false, c)

def startTurn (cfg : ClientConfig) (a : Answers) (ended : Bool) (c : VoiceClient) : VoiceClient :=
  if c.turnIds.session = 0 then c.loseConnection a
  else match c.sendControl cfg .turnStart c.turnIds with
  | (false, c) => c.loseConnection a
  | (true, c) =>
    let c := { c with
      uplinkSequence := 0, state := .capturingSpeech
      stateDeadline := a.now + kMaximumTurnWait }.emit (.setState .listening)
    if ended ∧ c.pre = [] then c.loseConnection a
    else match c.sendPreRoll cfg a ended c.pre with
    | (false, c) => c
    | (true, c) =>
      let c := { c with pre := [] }
      if ended then
        match c.sendControl cfg .turnCommit c.turnIds with
        | (false, c) => c.loseConnection a
        | (true, c) => c.waitForResponse a
      else c

def commit (cfg : ClientConfig) (a : Answers) (frame : CaptureFrame) (c : VoiceClient) :
    VoiceClient :=
  match c.sendAudioOrRecover cfg a frame true with
  | (false, c) => c
  | (true, c) =>
    match c.sendControl cfg .turnCommit c.turnIds with
    | (false, c) => c.loseConnection a
    | (true, c) => c.waitForResponse a

def resumeAfterBarge (cfg : ClientConfig) (a : Answers) (c : VoiceClient) : VoiceClient :=
  if ¬ c.bargeTurnAdmitted then c.finishTurn a false
  else
    let ended := c.bargeEnded
    let c := { c with bargeTurnAdmitted := false, bargeEnded := false }.emit .dropPlayback
    { c with finishAfterCancelAck := false }.advanceTurn.startTurn cfg a ended

def completeCancel (cfg : ClientConfig) (a : Answers) (c : VoiceClient) : VoiceClient :=
  if c.finishAfterCancelAck then c.finishTurn a false
  else if c.bargeTurnAdmitted ∧ ¬ c.bargeBufferOverflow then c.resumeAfterBarge cfg a
  else { c with pre := [] }.finishTurn a false

def beginListening (a : Answers) (c : VoiceClient) : VoiceClient :=
  ({ c with
    state := .waitingForSpeech, stateDeadline := a.now + kSpeechStartWait }.emit
      (.setState .listening)).resetListener a

-- ---------------------------------------------------------------------------
-- Events
-- ---------------------------------------------------------------------------

/-- The part of `HandleEvent` for an error. -/
def handleError (cfg : ClientConfig) (a : Answers) (ids : WireIds) (code : String)
    (c : VoiceClient) : VoiceClient :=
  let c := c.markFirstResponseProgress
  if code = "transport" ∨ c.turnIds.session = 0 then c.loseConnection a
  else if ids.turn = 0 then c.loseConnection a
  else if code = "downlink_discontinuity" then
    if c.state ≠ .cancelPending then c.abortCurrent cfg a else c
  else if c.state = .cancelPending then c.completeCancel cfg a
  else c.finishTurn a false

/-- The switch of `HandleEvent`. -/
def handleInbound (cfg : ClientConfig) (a : Answers) (c : VoiceClient) : Inbound → VoiceClient
  | .helloAck ids =>
    let c := { c with
      turnIds := { session := ids.session, turn := 1, stream := 1, epoch := ids.epoch }
      reconnectAttempt := 0, heartbeatDeadline := a.now + kHeartbeatWait, pre := [] }
    (c.resetListener a).emit (.setState .idle)
  | .responseStart ids =>
    let c := { c with responseIds := ids }
    if c.awaitHintVisible then c else c.clearSubtitle
  | .textDelta _ text => c.markFirstResponseProgress.showText text
  | .audioStart _ =>
    let c := c.markFirstResponseProgress
    if a.beginPlayback then
      ({ c.emit .beginPlayback with state := .playingResponse }.emit
        (.setState .speaking)).resetBargeProbe
    else c.loseConnection a
  | .pcm header _ =>
    let c := c.markFirstResponseProgress
    if a.queueTts24k then c.emit (.queueTts24k header.sequence) else c.abortCurrent cfg a
  | .done _ =>
    let c := c.markFirstResponseProgress
    let c := if a.playbackActive then c.emit .endPlayback else c
    if a.playbackActive ∧ ¬ a.endPlayback then c.loseConnection a
    else { c with
      state := .drainingPlayback, stateDeadline := a.now + kDrainPlaybackWait }.emit
        (.setState .speakingTail)
  | .cancelled _ =>
    let c := c.markFirstResponseProgress
    if c.state = .cancelPending then c.completeCancel cfg a else c.finishTurn a false
  | .error ids code _ => c.handleError cfg a ids code

def handleEvent (cfg : ClientConfig) (a : Answers) (c : VoiceClient) : QueuedEvent → VoiceClient
  | .heartbeat => { c with heartbeatDeadline := a.now + kHeartbeatWait }
  | .inbound (.error ids code _) => c.handleError cfg a ids code
  | .inbound event =>
    -- only the acknowledgement of the cancel is waited for
    if c.state = .cancelPending ∧ ¬ event.isCancelled then c
    else { c with stateDeadline := a.now + kResponseWait }.handleInbound cfg a event

-- ---------------------------------------------------------------------------
-- Touch and deadlines
-- ---------------------------------------------------------------------------

/-- The part of `PollUi` for an action. -/
def pollAction (cfg : ClientConfig) (a : Answers) (action : DeviceUiAction) (c : VoiceClient) :
    VoiceClient :=
  match action with
  | .wake =>
    if c.state = .waitingForWake ∧ c.turnIds.session ≠ 0 then { c with manualWakePending := true }
    else c
  | .interrupt =>
    if c.state = .playingResponse ∨ c.state = .drainingPlayback then
      c.clearSubtitle.abortCurrent cfg a
    else c

/-- `AdvanceDeadlines`: false rejects the frame of this round. -/
def advanceDeadlines (cfg : ClientConfig) (a : Answers) (c : VoiceClient) : Bool × VoiceClient :=
  if c.turnIds.session = 0 then
    if c.link.isNone ∨ a.now < c.stateDeadline then (true, c) else (false, c.loseConnection a)
  else if c.heartbeatDeadline ≤ a.now then (false, c.loseConnection a)
  else if c.state = .drainingPlayback ∧ a.playbackDone then
    (false, if a.playbackFailed then { c with listenerFailed := true } else c.finishTurn a true)
  else if c.state ≠ .waitingForWake ∧ c.stateDeadline ≤ a.now then
    (false, match c.state with
      | .waitingForSpeech | .waitingForFollowUp =>
        ({ c with state := .waitingForWake, pre := [] }.emit (.setState .idle)).resetListener a
      | .cancelPending => c.loseConnection a
      | _ => c.abortCurrent cfg a)
  else if c.state = .waitingForResponse ∧ c.awaitHintPending ∧ c.awaitHintAt ≤ a.now then
    (true, { c with awaitHintPending := false, awaitHintVisible := true }.emit
      (.setText "还在思考".toUTF8.data.toList "云端正在组织回答，请稍候".toUTF8.data.toList))
  else (true, c)

-- ---------------------------------------------------------------------------
-- Frames
-- ---------------------------------------------------------------------------

def isBargeVoice (cfg : ClientConfig) (frame : CaptureFrame) : Bool :=
  frame.nearVoice ∧ cfg.bargeMinDbfs ≤ frame.voiceDbfs

def savePreRoll (frame : CaptureFrame) (c : VoiceClient) : VoiceClient :=
  if c.state = .cancelPending ∧ c.bargeTurnAdmitted ∧ c.pre.length = kBargeBufferFrames then
    { c with bargeBufferOverflow := true }
  else
    let preserveBarge := c.bargeProbe ≠ .idle ∨ (c.state = .cancelPending ∧ c.bargeTurnAdmitted)
    let limit := if preserveBarge then kBargeBufferFrames else kPreRollFrames
    { c with pre := (if c.pre.length < limit then c.pre else c.pre.tail) ++ [frame] }

def keepNewestPreRoll (count : Nat) (c : VoiceClient) : VoiceClient :=
  { c with pre := c.pre.drop (c.pre.length - count) }

def trackBargeUtterance (frame : CaptureFrame) (c : VoiceClient) : VoiceClient :=
  let c := if frame.nearVoice then { c with bargeSilenceFrames := 0 }
    else if c.bargeSilenceFrames < kBargeTailFreezeFrames then
      { c with bargeSilenceFrames := c.bargeSilenceFrames + 1 }
    else c
  if frame.vadEnded then { c with bargeEnded := true } else c

def confirmBarge (cfg : ClientConfig) (a : Answers) (c : VoiceClient) : VoiceClient :=
  let c := (c.emit .dropPlayback).resetBargeProbe.clearSubtitle
  let c := { c with
    bargeTurnAdmitted := true, bargeEnded := false, bargeSilenceFrames := 0
    bargeBufferOverflow := false, finishAfterCancelAck := false }
  match c.sendControl cfg .responseCancel c.responseIds with
  | (false, c) => c.loseConnection a
  | (true, c) => { c with state := .cancelPending, stateDeadline := a.now + kCancelAckWait }

/-- What `HandleBarge` makes of a frame. -/
inductive BargeVerdict
  | goesOn
  | rejected
  | confirmed
  deriving DecidableEq, Repr

/-- `HandleBarge` up to its last call. -/
def judgeBarge (cfg : ClientConfig) (frame : CaptureFrame) (c : VoiceClient) :
    BargeVerdict × VoiceClient :=
  match c.bargeProbe with
  | .idle =>
    if c.bargeCooldownFrames ≠ 0 then
      (.goesOn, { c with bargeCooldownFrames := c.bargeCooldownFrames - 1 })
    else if ¬ isBargeVoice cfg frame then (.goesOn, { c with bargeProbeFrames := 0 })
    else
      let c := { c with bargeProbeFrames := c.bargeProbeFrames + 1 }
      if c.bargeProbeFrames < kBargeCandidateFrames then (.goesOn, c)
      else
        let c := (c.keepNewestPreRoll kBargeCandidateFrames).resetBargeTurn
        (.goesOn, { c with bargeProbeFrames := 0, bargeProbe := .waitReferenceLow }.setPlaybackScale 0)
  | .waitReferenceLow =>
    let c := { c with bargeProbeFrames := c.bargeProbeFrames + 1 }
    if kBargeReferenceWaitFrames < c.bargeProbeFrames then (.rejected, c)
    else
      let c := { c with
        bargeQuietFrames := if frame.referenceActive then 0 else c.bargeQuietFrames + 1 }
      if c.bargeQuietFrames < kBargeReferenceLowFrames then (.goesOn, c)
      else (.goesOn, { c with bargeProbeFrames := 0, bargeProbe := .clear })
  | .clear =>
    if frame.referenceActive then (.rejected, c)
    else
      let c := { c with bargeProbeFrames := c.bargeProbeFrames + 1 }
      if c.bargeProbeFrames < kBargeEchoClearFrames then (.goesOn, c)
      else (.goesOn, { c with bargeProbeFrames := 0, bargeProbe := .verify })
  | .verify =>
    if frame.referenceActive ∨ ¬ isBargeVoice cfg frame then (.rejected, c)
    else
      let c := { c with bargeProbeFrames := c.bargeProbeFrames + 1 }
      if c.bargeProbeFrames < kBargeConfirmFrames then (.goesOn, c) else (.confirmed, c)

def handleBarge (cfg : ClientConfig) (a : Answers) (frame : CaptureFrame) (c : VoiceClient) :
    VoiceClient :=
  if ¬ cfg.bargeInEnabled then c.resetBargeProbe
  else match c.judgeBarge cfg frame with
  | (.goesOn, c) => c
  | (.rejected, c) => c.rejectBargeProbe
  | (.confirmed, c) => c.confirmBarge cfg a

/-- The switch of `OnFrame`. -/
def dispatchFrame (cfg : ClientConfig) (a : Answers) (frame : CaptureFrame) (c : VoiceClient) :
    VoiceClient :=
  match c.state with
  | .waitingForWake =>
    if c.manualWakePending then { c with manualWakePending := false }.beginListening a
    else if frame.wake then c.beginListening a
    else c
  | .waitingForSpeech => if frame.vadStarted then c.startTurn cfg a false else c
  | .waitingForFollowUp =>
    if ¬ frame.nearVoice then { c with followUpNearFrames := 0 }
    else
      let c := { c with followUpNearFrames := c.followUpNearFrames + 1 }
      if kFollowUpNearFrames ≤ c.followUpNearFrames then c.startTurn cfg a false else c
  | .capturingSpeech =>
    if kMaximumTurnFrames ≤ c.uplinkSequence + 1 then c.commit cfg a frame
    else if c.bargeEnded ∨ frame.vadEnded then { c with bargeEnded := false }.commit cfg a frame
    else (c.sendAudioOrRecover cfg a frame false).2
  | .playingResponse | .drainingPlayback => c.handleBarge cfg a frame
  | .cancelPending => c.trackBargeUtterance frame
  | .waitingForResponse => c

/-- The part of `OnFrame` for a gap in the capture. -/
def onGap (cfg : ClientConfig) (a : Answers) (c : VoiceClient) : VoiceClient :=
  let c := { c with pre := [] }
  match c.state with
  | .cancelPending => { c.resetBargeTurn with finishAfterCancelAck := true }
  | .capturingSpeech | .waitingForResponse | .playingResponse | .drainingPlayback =>
    c.abortCurrent cfg a
  | .waitingForWake | .waitingForSpeech | .waitingForFollowUp =>
    ({ c.emit .dropPlayback with state := .waitingForWake }.emit (.setState .idle)).resetListener a

/-- The part of `OnFrame` that keeps the frame for a turn to come. -/
def bufferFrame (frame : CaptureFrame) (c : VoiceClient) : VoiceClient :=
  let c := if c.state = .cancelPending ∧ ¬ c.bargeEnded ∧ frame.nearVoice then
    { c with bargeSilenceFrames := 0 } else c
  let freezeBargeTail := c.state = .cancelPending ∧
    (c.bargeEnded ∨ kBargeTailFreezeFrames ≤ c.bargeSilenceFrames)
  if c.state ≠ .capturingSpeech ∧ ¬ freezeBargeTail then c.savePreRoll frame else c

def onFrame (cfg : ClientConfig) (a : Answers) (frame : CaptureFrame) (c : VoiceClient) :
    VoiceClient :=
  let gap := frame.sequence ≠ c.nextCaptureSequence
  let c := { c with nextCaptureSequence := frame.sequence + 1 }
  if frame.discontinuity ∨ gap then c.onGap cfg a
  else
    let c := c.bufferFrame frame
    if c.turnIds.session = 0 then
      if frame.wake then c.resetListener a else c
    else c.dispatchFrame cfg a frame

-- ---------------------------------------------------------------------------
-- The transport's callbacks
-- ---------------------------------------------------------------------------

/-- What a callback comes to. A failed connection is not used any more. -/
def hear (link : Link) (r : Transport × Transport.Outcome) (c : VoiceClient) : VoiceClient :=
  match r with
  | (transport, .dropped) => { c with link := some { link with transport } }
  | (transport, .emit event) => { c with link := some { link with transport } }.push (.inbound event)
  | (transport, .protocolError why) =>
    { c with link := some { transport, state := .closed } }.pushFailure why

-- ---------------------------------------------------------------------------
-- The machine
-- ---------------------------------------------------------------------------

inductive Label
  -- the ASIO thread
  | opened
  | ping
  | text (e : Envelope)
  | binary (bytes : List UInt8)
  | failed (why : String)
  -- the actor, in the order of its loop
  | connect (a : Answers) (connects : Bool)
  | finishConnect (a : Answers)
  | event (a : Answers)
  | action (a : Answers) (action : DeviceUiAction)
  | overflowed (a : Answers)
  | deadlines (a : Answers)
  | frame (a : Answers) (frame : CaptureFrame)
  | skip (frame : CaptureFrame)
  deriving DecidableEq, Repr

def answered (a : Answers) (c : VoiceClient) : VoiceClient := { c with capacities := a.capacities }

def step (cfg : ClientConfig) (c : VoiceClient) : Label → Option VoiceClient
  | .opened =>
    match c.link with
    | some link =>
      if link.state = .connecting then some { c with link := some { link with state := .connected } }
      else none
    | none => none
  | .ping => c.link.map fun _ => c.push .heartbeat
  | .text e => c.link.map fun link => c.hear link (link.transport.onText e)
  | .binary bytes => c.link.map fun link => c.hear link (link.transport.onBinary bytes)
  | .failed why => c.link.map fun link =>
    { c with link := some { link with state := .closed } }.pushFailure why
  | .connect a connects =>
    if c.link.isNone ∧ c.nextConnect ≤ a.now then some (c.startConnect cfg a connects) else none
  | .finishConnect a => some ((c.answered a).finishConnect cfg a)
  | .event a =>
    match c.events with
    | event :: events =>
      if c.link.isNone ∨ c.listenerFailed then none
      else some (({ c with events }.answered a).handleEvent cfg a event)
    | [] => none
  | .action a action => some ((c.answered a).pollAction cfg a action)
  | .overflowed a => if c.overflow then some (c.loseConnection a) else none
  | .deadlines a =>
    if c.listenerFailed then none else some ((c.answered a).advanceDeadlines cfg a).2
  | .frame a frame => if c.listenerFailed then none else some ((c.answered a).onFrame cfg a frame)
  | .skip frame => some { c with nextCaptureSequence := frame.sequence + 1 }

def machine (cfg : ClientConfig) : Lts.Machine VoiceClient Label where
  Init c := ∃ origin, c = { audioOriginUs := origin }
  step := step cfg

/-- What each label does, with the guards under which it is enabled. -/
def Moves (cfg : ClientConfig) (c : VoiceClient) (l : Label) (c' : VoiceClient) : Prop :=
  match l with
  | .opened => ∃ link, c.link = some link ∧ link.state = .connecting ∧
      c' = { c with link := some { link with state := .connected } }
  | .ping => ∃ link, c.link = some link ∧ c' = c.push .heartbeat
  | .text e => ∃ link, c.link = some link ∧ c' = c.hear link (link.transport.onText e)
  | .binary bytes => ∃ link, c.link = some link ∧ c' = c.hear link (link.transport.onBinary bytes)
  | .failed why => ∃ link, c.link = some link ∧
      c' = { c with link := some { link with state := .closed } }.pushFailure why
  | .connect a connects => c.link = none ∧ c' = c.startConnect cfg a connects
  | .finishConnect a => c' = (c.answered a).finishConnect cfg a
  | .event a => ∃ event events, c.events = event :: events ∧ c.link.isSome = true ∧
      c' = ({ c with events }.answered a).handleEvent cfg a event
  | .action a action => c' = (c.answered a).pollAction cfg a action
  | .overflowed a => c' = c.loseConnection a
  | .deadlines a => c' = ((c.answered a).advanceDeadlines cfg a).2
  | .frame a frame => c' = (c.answered a).onFrame cfg a frame
  | .skip frame => c' = { c with nextCaptureSequence := frame.sequence + 1 }

theorem step_moves {cfg : ClientConfig} {c c' : VoiceClient} {l : Label}
    (hs : step cfg c l = some c') : Moves cfg c l c' := by
  cases l with
  | opened =>
    cases hlink : c.link with
    | none => simp [step, hlink] at hs
    | some link =>
      simp only [step, hlink, Option.ite_none_right_eq_some, Option.some.injEq] at hs
      exact ⟨link, hlink, hs.1, hs.2.symm⟩
  | ping | text _ | binary _ | failed _ =>
    obtain ⟨link, hlink, rfl⟩ := Option.map_eq_some_iff.mp hs
    exact ⟨link, hlink, rfl⟩
  | connect a connects =>
    simp only [step, Option.ite_none_right_eq_some, Option.some.injEq] at hs
    exact ⟨Option.isNone_iff_eq_none.mp hs.1.1, hs.2.symm⟩
  | event a =>
    cases hevents : c.events with
    | nil => simp [step, hevents] at hs
    | cons event events =>
      simp only [step, hevents, Option.ite_none_left_eq_some, not_or, Option.some.injEq] at hs
      exact ⟨event, events, hevents, by simpa [Option.isSome_iff_ne_none] using hs.1.1, hs.2.symm⟩
  | overflowed a =>
    simp only [step, Option.ite_none_right_eq_some, Option.some.injEq] at hs
    exact hs.2.symm
  | deadlines a | frame a _ =>
    simp only [step, Option.ite_none_left_eq_some, Option.some.injEq] at hs
    exact hs.2.symm
  | finishConnect _ | action _ _ | skip _ => exact (Option.some.inj hs).symm

-- ---------------------------------------------------------------------------
-- What methods share
-- ---------------------------------------------------------------------------

/-- How `Commit` and `StartTurn` of a finished utterance end. -/
def requestResponse (cfg : ClientConfig) (a : Answers) (c : VoiceClient) : VoiceClient :=
  match c.sendControl cfg .turnCommit c.turnIds with
  | (false, c) => c.loseConnection a
  | (true, c) => c.waitForResponse a

/-- `StartTurn` once turn.start is sent. -/
def beginTurn (a : Answers) (c : VoiceClient) : VoiceClient :=
  { c with
    uplinkSequence := 0, state := .capturingSpeech
    stateDeadline := a.now + kMaximumTurnWait }.emit (.setState .listening)

/-- `StartTurn` once the turn has begun. -/
def sendBuffered (cfg : ClientConfig) (a : Answers) (ended : Bool) (c : VoiceClient) :
    VoiceClient :=
  if ended ∧ c.pre = [] then c.loseConnection a
  else match c.sendPreRoll cfg a ended c.pre with
  | (false, c) => c
  | (true, c) => if ended then { c with pre := [] }.requestResponse cfg a else { c with pre := [] }

/-- How `AbortCurrent` and `ConfirmBarge` end. -/
def requestCancel (cfg : ClientConfig) (a : Answers) (kind : ControlKind) (ids : WireIds)
    (c : VoiceClient) : VoiceClient :=
  match c.sendControl cfg kind ids with
  | (false, c) => c.loseConnection a
  | (true, c) => { c with state := .cancelPending, stateDeadline := a.now + kCancelAckWait }

/-- How `AbortCurrent` begins. -/
def giveUp (c : VoiceClient) : VoiceClient :=
  { (c.emit .dropPlayback).resetBargeProbe.resetBargeTurn with finishAfterCancelAck := true }

/-- How `ConfirmBarge` begins. -/
def admitBarge (c : VoiceClient) : VoiceClient :=
  { (c.emit .dropPlayback).resetBargeProbe.clearSubtitle with
    bargeTurnAdmitted := true, bargeEnded := false, bargeSilenceFrames := 0
    bargeBufferOverflow := false, finishAfterCancelAck := false }

variable {cfg : ClientConfig} {a : Answers} {c : VoiceClient}

theorem commit_eq {frame : CaptureFrame} : c.commit cfg a frame =
    match c.sendAudioOrRecover cfg a frame true with
    | (false, c) => c
    | (true, c) => c.requestResponse cfg a := rfl

theorem startTurn_eq {ended : Bool} : c.startTurn cfg a ended =
    if c.turnIds.session = 0 then c.loseConnection a
    else match c.sendControl cfg .turnStart c.turnIds with
    | (false, c) => c.loseConnection a
    | (true, c) => (c.beginTurn a).sendBuffered cfg a ended := rfl

theorem abortCurrent_eq : c.abortCurrent cfg a =
    if c.responseIds.session ≠ 0 then c.giveUp.requestCancel cfg a .responseCancel c.responseIds
    else c.giveUp.requestCancel cfg a .turnCancel c.turnIds := by
  by_cases h : c.responseIds.session = 0
  · simp [abortCurrent, giveUp, requestCancel, emit, resetBargeProbe, resetBargeTurn,
      setPlaybackScale, h]
  · simp [abortCurrent, giveUp, requestCancel, emit, resetBargeProbe, resetBargeTurn,
      setPlaybackScale, h]

theorem confirmBarge_eq : c.confirmBarge cfg a =
    c.admitBarge.requestCancel cfg a .responseCancel c.responseIds := rfl

end VoiceClient

end BoomPI.Client
