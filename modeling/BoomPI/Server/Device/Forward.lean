import BoomPI.Server.Device.State

/-!
# The forwarder

`forwardEvents`: the goroutine that takes the actor's events, paces audio into
20 ms frames and sends the response. Between two of its steps any other
goroutine may run; what it copies under the lock stays in its place.
-/

namespace BoomPI.Device

open Backend (Error EventType)
open Protocol
open Transport (SendAt SendLabel SendResult enqueue)
open Session (Event)

/-- What a send is for. A control message may be followed by audio to buffer. -/
inductive Job
  | control (turn : ActiveTurn) (pcm : List UInt8)
  | frame (turn : ActiveTurn) (payload : List UInt8) (final : Bool)
  | done (turn : ActiveTurn)
  | error
  deriving DecidableEq, Repr

def Job.ctx : Job → Option Nat
  | .control turn _ | .frame turn _ _ | .done turn => turn.downlinkCtx
  | .error => none

/-- Where `forwardEvents` stands. -/
inductive ForwardAt
  | top                                        -- the head of the loop
  | finish                                     -- `finishPacedResponse`
  | pace                                       -- a frame is ready or not
  | frame                                      -- `sendNextPacedFrame`
  | selecting (deadline : Option Time)         -- the select
  | received (event : Event)
  | control (turn : ActiveTurn) (body : Body) (pcm : List UInt8)  -- `sendControlIfActive`
  | audio (turn : ActiveTurn) (event : Event)  -- the lock of `EventAudio`
  | error (turn : ActiveTurn)                  -- the lock of `EventError`
  | errorStop (turn : ActiveTurn)
  | sending (s : SendAt) (message : Outbound) (job : Job)
  | failed (job : Job) (err : Error)           -- `activeTurnMatches`
  | finished (turn : ActiveTurn)               -- the second lock of `finishPacedResponse`
  | finishedStop (turn : ActiveTurn)
  | exited (err : Option Error)
  deriving DecidableEq, Repr

inductive ForwardLabel
  | next
  | send (l : SendLabel)
  | timer
  | event
  | closed
  | stopped
  deriving DecidableEq, Repr

abbrev Forwarded := Conn × PacedDownlink × ForwardAt

def validateProviderAudio (sampleRateHz : Int) (pcm : List UInt8) : Option Error :=
  if sampleRateHz ≠ outputSampleRateHz ∨ pcm.length = 0 ∨ pcm.length % pcmBytesPerSample ≠ 0 ∨
      maxProviderAudioDeltaBytes < pcm.length then
    some (.text "provider returned invalid 24 kHz mono S16_LE audio")
  else none

/-- The check of `sendDownlinkPCM`. -/
def validateDownlinkPCM (payload : List UInt8) : Option Error :=
  if payload.length = 0 ∨ outputFrameBytes < payload.length ∨
      payload.length % pcmBytesPerSample ≠ 0 then
    some (.text ("downlink PCM payload has " ++ toString payload.length ++
      " bytes; want one non-empty aligned frame of at most " ++ toString outputFrameBytes ++
      " bytes"))
  else none

def dropStale (turn : ActiveTurn) (p : PacedDownlink) : PacedDownlink :=
  if p.epoch ≠ 0 ∧ (¬ turn.active ∨ ¬ p.belongsTo turn) then p.reset else p

/-- A response that ended on a frame boundary is closed with one silent sample. -/
def closeAligned (p : PacedDownlink) : PacedDownlink :=
  if p.providerDone ∧ p.pending.length = 0 ∧ p.wireFrames ≠ 0 then
    { p with pending := List.replicate pcmBytesPerSample 0 }
  else p

def writable (turn : ActiveTurn) (p : PacedDownlink) : Bool := turn.active ∧ p.belongsTo turn

/-- The first part of `finishPacedResponse`. -/
def finishPacedResponse (c : Conn) (p : PacedDownlink) : Forwarded :=
  if writable c.turn p then
    (c.count, p, .sending .first (c.reply c.turn (.responseDone p.responseID)) (.done c.turn))
  else (c, p.reset, .top)

/-- `sendNextPacedFrame` up to `enqueue`. -/
def sendNextPacedFrame (c : Conn) (p : PacedDownlink) : Forwarded :=
  if p.pending.length = 0 ∨ ¬ writable c.turn p then (c, p.reset, .top)
  else
    let turn := c.turn
    let c := c.setTurn { turn with outputSequence := uint32 (turn.outputSequence + 1) }
    let job := .frame turn p.payload p.final
    match validateDownlinkPCM p.payload with
    | some err => (c, p, .failed job err)
    | none => (c, p, .sending .first (downlinkPCM c turn p.payload p.final) job)

/-- An event of the turn that was active when it was received. -/
def forwardEvent (c : Conn) (p : PacedDownlink) (turn : ActiveTurn) (event : Event) : Forwarded :=
  match event.raw.type with
  | .started =>
    if p.epoch ≠ 0 then
      (c, p, .exited (some (.text "provider emitted duplicate response.start")))
    else (c, p.begin turn event.raw.responseID,
      .control turn (.responseStart event.raw.responseID) [])
  | .textDelta =>
    if ¬ p.matches turn event.raw.responseID then
      (c, p, .exited (some (.text "provider text delta does not match the active response")))
    else (c, p, .control turn (.textDelta event.raw.responseID event.raw.text) [])
  | .audio =>
    match validateProviderAudio event.raw.sampleRateHz event.raw.pcm with
    | some err => (c, p, .exited (some err))
    | none =>
      if ¬ p.matches turn event.raw.responseID then
        (c, p, .exited (some (.text "provider audio arrived before response.start")))
      else if downlinkMaxBufferedBytes < p.pending.length + event.raw.pcm.length then
        (c, p, .exited (some (.text "downlink pacing buffer exceeds 1500 ms")))
      else (c, p, .audio turn event)
  | .done =>
    if ¬ p.matches turn event.raw.responseID then
      (c, p, .exited (some (.text "provider response.done arrived before response.start")))
    else (c, { p with responseID := event.raw.responseID, providerDone := true }, .top)
  | .error => (c, p, .error turn)
  | .unknown _ => (c, p, .top)

/-- The lock of `EventAudio`: the first audio of a turn announces it. -/
def forwardAudio (c : Conn) (p : PacedDownlink) (turn : ActiveTurn) (event : Event) : Forwarded :=
  if ¬ sameActiveTurn c.turn turn then (c, p, .top)
  else
    let turn := { c.turn with outputStarted := true }
    if c.turn.outputStarted then
      (c.setTurn turn, { p with pending := p.pending ++ event.raw.pcm }, .top)
    else (c.setTurn turn, p,
      .control turn (.audioStart event.raw.responseID event.raw.sampleRateHz) event.raw.pcm)

/-- The lock of `sendControlIfActive`. -/
def sendControlIfActive (c : Conn) (p : PacedDownlink) (turn : ActiveTurn) (body : Body)
    (pcm : List UInt8) : Forwarded :=
  if sameActiveTurn c.turn turn then
    (c.count, p, .sending .first (c.reply c.turn body) (.control c.turn pcm))
  else (c, { p with pending := p.pending ++ pcm }, .top)

def afterSend (c : Conn) (p : PacedDownlink) : Job → PacedDownlink × ForwardAt
  | .control _ pcm => ({ p with pending := p.pending ++ pcm }, .top)
  | .frame _ payload final =>
    ({ p with
        pending := p.pending.drop payload.length
        wireFrames := uint32 (p.wireFrames + 1)
        nextFrameAt := some (nextPacedFrameDeadline p.nextFrameAt c.now) },
      if final then .finish else .top)
  | .done turn => (p, .finished turn)
  | .error => (p.reset, .top)

/-- After a failed send: an error while the turn is active, else nothing. -/
def afterFailure (c : Conn) (p : PacedDownlink) (err : Error) : Job → PacedDownlink × ForwardAt
  | .control turn pcm =>
    if sameActiveTurn c.turn turn then (p, .exited (some err))
    else ({ p with pending := p.pending ++ pcm }, .top)
  | .frame turn _ _ | .done turn =>
    if sameActiveTurn c.turn turn then (p, .exited (some err)) else (p.reset, .top)
  | .error => (p, .exited (some err))

/-- `forwardEvents`, one atomic action at a time. `finishPacedResponse` returning false
ends in another round of the loop: with the pacer reset, its head does nothing. -/
def forwardStep (c : Conn) (p : PacedDownlink) : ForwardAt → ForwardLabel → Option Forwarded
  | .top, .next =>
    let p := closeAligned (dropStale c.turn p)
    some (c, p, if p.providerDone ∧ p.pending.length = 0 then .finish else .pace)
  | .finish, .next => some (finishPacedResponse c p)
  | .pace, .next =>
    match p.frameReady, p.nextFrameAt with
    | false, _ => some (c, p, .selecting none)
    | true, none => some (c, p, .frame)
    | true, some frameAt => some (c, p, if frameAt ≤ c.now then .frame else .selecting (some frameAt))
  | .frame, .next => some (sendNextPacedFrame c p)
  | .selecting _, .stopped => if c.done none then some (c, p, .exited none) else none
  | .selecting (some deadline), .timer => if deadline ≤ c.now then some (c, p, .top) else none
  | .selecting _, .event =>
    match p.reads, c.actor.events with
    | true, event :: events => some ({ c with actor := { c.actor with events } }, p, .received event)
    | _, _ => none
  | .selecting _, .closed =>
    if p.reads ∧ c.actor.events = [] ∧ c.actor.eventsClosed then
      some (c, p, .exited (if c.done none then none
        else some (.text "conversation session event stream closed unexpectedly")))
    else none
  | .received event, .next =>
    if ¬ c.turn.active ∨ event.epoch ≠ c.turn.epoch then some (c, p, .top)
    else some (forwardEvent c p c.turn event)
  | .control turn body pcm, .next => some (sendControlIfActive c p turn body pcm)
  | .audio turn event, .next => some (forwardAudio c p turn event)
  | .error turn, .next =>
    if sameActiveTurn c.turn turn then some (c.retire, p, .errorStop c.turn)
    else some (c, p, .top)
  | .errorStop turn, .next =>
    let c := c.stop turn.downlinkCtx
    some (c.count, p, .sending .first
      (c.reply turn (.error "provider_error" "AI provider request failed" .provider)) .error)
  | .sending s message job, .send l =>
    (enqueue (c.done job.ctx) c.room message s l).map fun
      | .waiting => (c, p, .sending .second message job)
      | .queued => (c.put message, afterSend c p job)
      | .failed err => (c, p, .failed job err)
  | .failed job err, .next => some (c, afterFailure c p err job)
  | .finished turn, .next =>
    if sameActiveTurn c.turn turn then
      some (c.setTurn { c.turn with active := false }, p, .finishedStop c.turn)
    else some (c, p.reset, .top)
  | .finishedStop turn, .next => some (c.stop turn.downlinkCtx, p.reset, .top)
  | _, _ => none

end BoomPI.Device
