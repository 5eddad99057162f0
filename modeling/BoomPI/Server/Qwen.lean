import BoomPI.Server.Backend

/-!
# The realtime conversation session

`qwen/session.go`: the actor's calls are batches for the writer goroutine, the
reader goroutine turns server events into provider events and remembers the
assistant item that was announced last.
-/

namespace BoomPI.Qwen

open Backend (Error ConversationEvent EventType Call)

def maxAudioChunkBytes : Nat := 256 * 1024
def outputAudioEventBytes : Nat := 24000 * 2 * 20 / 1000
def urgentCapacity : Nat := 1

def ErrProvider : Error := .sentinel "qwen provider error"
def ErrTransport : Error := .sentinel "qwen transport error"

/-- A conversation item as the server announces it. `response` is a ghost: the epoch
whose response produced it. -/
structure Item where
  id : String
  role : String
  response : Nat := 0
  deriving DecidableEq, Repr

/-- `clientEvent`, by its `type`. The epoch of `itemDelete` is a ghost: the turn whose
`Cancel` called `DiscardLastResponse`. -/
inductive ClientEvent
  | inputAudioAppend (audio : List UInt8)
  | inputAudioCommit
  | inputAudioClear
  | responseCreate
  | responseCancel
  | itemDelete (item : Item) (epoch : Nat)
  deriving DecidableEq, Repr

structure OutboundBatch where
  events : List ClientEvent
  inputAudio : Bool := false
  inputGeneration : Nat := 0
  deriving DecidableEq, Repr

/-- `serverEvent`, by its `type`; `audioDelta` carries the decoded delta. -/
inductive ServerEvent
  | sessionUpdated
  | error (err : Error)
  | responseCreated (id : String)
  | itemAdded (item : Item)
  | textDelta (responseID delta : String)
  | audioDelta (responseID : String) (pcm : Except Error (List UInt8))
  | responseDone (id status : String) (output : List Item)
  | other
  deriving Repr

/-- What the reader goroutine still has to do for the event it read. -/
inductive ReaderOp
  | ready
  | note (item : Item)
  | publish (event : ConversationEvent)
  | publishing (event : ConversationEvent) (responsePublish : Option Nat)
  | finishResponse (err : Option Error)
  | fail (err : Error)
  deriving DecidableEq, Repr

/-- Where the actor's call stands between its first lock and its return. -/
inductive Calling
  | none
  | commit (refused : Bool)
  | clearInput
  | cancelRefused
  | cancelEnqueue
  | cancelWait
  deriving DecidableEq, Repr

/-- What was announced, for the conditions of the theorems; no function reads it. -/
structure Announced where
  /-- epoch of the last successful `Commit` -/
  epoch : Nat := 0
  /-- items announced since that `Commit` -/
  since : List Item := []
  /-- items announced since the last `DiscardLastResponse` -/
  kept : List Item := []
  deriving DecidableEq, Repr

structure Session where
  writes : List OutboundBatch := []
  urgentWrites : List OutboundBatch := []
  sent : List ClientEvent := []
  inputGeneration : Nat := 0
  readyOK : Bool := true
  reader : List ReaderOp := []
  closed : Bool := false
  fatalErr : Option Error := none
  responseRequested : Bool := false
  responsePublish : Option Nat := none
  publishCanceled : Bool := false
  publishes : Nat := 0
  cancelWait : Bool := false
  cancelResult : Option (Option Error) := none
  lastAssistantItem : Option Item := none
  calling : Calling := .none
  announced : Announced := {}
  deriving DecidableEq, Repr

-- ---------------------------------------------------------------------------
-- Server events
-- ---------------------------------------------------------------------------

def responseStatusError (status : String) : Option Error :=
  if status = "completed" ∨ status = "cancelled" then none
  else if status = "failed" ∨ status = "incomplete" then
    some (.wrap ("response ended with status " ++ status) ErrProvider)
  else some (.wrap ("response.done has invalid status " ++ status) ErrProvider)

def chunks (n : Nat) (pcm : List UInt8) : List (List UInt8) :=
  (List.range ((pcm.length + n - 1) / n)).map fun i => (pcm.drop (i * n)).take n

/-- Items with an ID that the assistant produced. -/
def assistantItems (items : List Item) : List Item :=
  items.filter fun item => item.id ≠ "" ∧ item.role = "assistant"

/-- `handleServerEvent`, as the steps it takes. -/
def handleServerEvent (readyOK : Bool) : ServerEvent → List ReaderOp
  | .sessionUpdated => [.ready]
  | .error err =>
    if readyOK then [.publish { type := .error, err := some err }, .finishResponse (some err)]
    else [.fail err]
  | .responseCreated id => [.publish { type := .started, responseID := id }]
  | .itemAdded item => (assistantItems [item]).map .note
  | .textDelta responseID text => [.publish { type := .textDelta, responseID, text }]
  | .audioDelta _ (.error err) => [.fail (.wrap "transport" err)]
  | .audioDelta responseID (.ok pcm) =>
    if pcm = [] ∨ pcm.length % 2 ≠ 0 then [.fail (.wrap "qwen returned unaligned PCM" ErrTransport)]
    else (chunks outputAudioEventBytes pcm).map fun pcm =>
      .publish { type := .audio, responseID, pcm, sampleRateHz := 24000 }
  | .responseDone id status output =>
    let err := responseStatusError status
    (assistantItems output).map .note ++
      [.publish { type := if err.isSome then .error else .done, responseID := id, err },
        .finishResponse err]
  | .other => []

/-- `stopResponsePublishLocked`. -/
def Session.stopResponsePublish (s : Session) : Session :=
  if s.responsePublish.isSome then { s with publishCanceled := true } else s

def Session.finishResponse (err : Option Error) (s : Session) : Session :=
  { s with
    responseRequested := false, responsePublish := none, publishCanceled := false
    cancelWait := false
    cancelResult := if s.cancelWait then some err else s.cancelResult }

/-- `fail`; only the first call has an effect. -/
def Session.fail (err : Error) (s : Session) : Session :=
  if s.fatalErr.isSome then s
  else { s.finishResponse (some err) with fatalErr := some err, closed := true }

def Session.publishStopped (ch : Option Nat) (s : Session) : Bool :=
  ch.isSome ∧ (s.responsePublish ≠ ch ∨ s.publishCanceled)

inductive Act
  | receive (event : ServerEvent)  -- the reader reads a message
  | readFailed (err : Error)
  | read                           -- the reader takes its next step
  | stopPublishing                 -- a publication meets its closed channel
  | publishFailed                  -- a publication meets the closed session
  | writeUrgent                    -- the writer takes a batch and writes it
  | write
  | writeFailed (err : Error)
  | enqueueCancel                  -- `Cancel` gets room for `response.cancel`
  | close
  deriving Repr

def readStep (queueSize : Nat) (s : Session) (events : List ConversationEvent) :
    Option (Session × List ConversationEvent) :=
  match s.reader with
  | [] => none
  | .ready :: rest => some ({ s with readyOK := true, reader := rest }, events)
  | .note item :: rest =>
    some ({ s with
      lastAssistantItem := some item, reader := rest
      announced := { s.announced with
        since := s.announced.since ++ [item], kept := s.announced.kept ++ [item] } }, events)
  | .publish event :: rest =>
    if s.publishStopped s.responsePublish then some ({ s with reader := rest }, events)
    else some ({ s with reader := .publishing event s.responsePublish :: rest }, events)
  | .publishing event _ :: rest =>
    if events.length < queueSize then some ({ s with reader := rest }, events ++ [event])
    else none
  | .finishResponse err :: rest =>
    some ({ s.finishResponse err with reader := rest }, events)
  | .fail err :: _ => some ({ s.fail err with reader := [] }, events)

def step (queueSize : Nat) (act : Act) (s : Session) (events : List ConversationEvent) :
    Option (Session × List ConversationEvent) :=
  match act with
  | .receive event =>
    if s.reader = [] ∧ s.closed = false then
      some ({ s with reader := handleServerEvent s.readyOK event }, events)
    else none
  | .readFailed err =>
    if s.reader = [] ∧ s.closed = false then some (s.fail err, events) else none
  | .read => readStep queueSize s events
  | .stopPublishing =>
    match s.reader with
    | .publishing _ ch :: rest =>
      if s.publishStopped ch then some ({ s with reader := rest }, events) else none
    | _ => none
  | .publishFailed =>
    match s.reader with
    | .publishing .. :: _ =>
      if s.closed then some ({ s.fail ErrTransport with reader := [] }, events) else none
    | _ => none
  | .writeUrgent =>
    match s.urgentWrites with
    | batch :: rest =>
      some ({ s with urgentWrites := rest, sent := s.sent ++ batch.events }, events)
    | [] => none
  | .write =>
    match s.writes with
    | batch :: rest =>
      if s.closed then none
      -- audio of an input that was cleared is dropped
      else if batch.inputAudio ∧ batch.inputGeneration ≠ s.inputGeneration then
        some ({ s with writes := rest }, events)
      else some ({ s with writes := rest, sent := s.sent ++ batch.events }, events)
    | [] => none
  | .writeFailed err => if s.closed then none else some (s.fail err, events)
  | .enqueueCancel =>
    if s.calling = .cancelEnqueue ∧ s.writes.length < queueSize then
      some ({ s with
        writes := s.writes ++ [{ events := [.responseCancel] }], calling := .cancelWait }, events)
    else none
  | .close => some ({ s with closed := true }, events)

-- ---------------------------------------------------------------------------
-- Calls
-- ---------------------------------------------------------------------------

/-- `enqueueNow` that returns nil. -/
def Session.enqueueNow (queueSize : Nat) (batch : OutboundBatch) (s : Session) : Option Session :=
  if s.closed = false ∧ s.writes.length < queueSize then
    some { s with writes := s.writes ++ [batch] }
  else none

/-- The first lock section of `Commit` and of `Cancel`. -/
def enter (c : Call) (s : Session) : Session :=
  match c with
  | .commit _ =>
    if s.responseRequested then { s with calling := .commit true }
    else { s with
      calling := .commit false, responseRequested := true, publishCanceled := false
      responsePublish := some s.publishes, publishes := s.publishes + 1 }
  | .cancel _ =>
    if s.responseRequested = false then
      { s with calling := .clearInput, inputGeneration := s.inputGeneration + 1 }
    else if s.cancelWait then { s with calling := .cancelRefused }
    else { s.stopResponsePublish with
      calling := .cancelEnqueue, cancelWait := true, cancelResult := none }
  | _ => s

/-- `Commit` after its first lock section. -/
def Session.commit (queueSize : Nat) (epoch : Nat) (result : Option Error) (s : Session) :
    Option Session :=
  match s.calling, result with
  | .commit false, none =>
    ({ s with
      calling := .none
      announced := { s.announced with epoch, since := [] } }).enqueueNow queueSize
        { events := [.inputAudioCommit, .responseCreate] }
  | .commit false, some _ =>
    some { s with
      calling := .none, responseRequested := false, responsePublish := none
      publishCanceled := false }
  | .commit true, some _ => some { s with calling := .none }
  | _, _ => none

/-- `Cancel` after its first lock section. -/
def Session.cancel (result : Option Error) (s : Session) : Option Session :=
  match s.calling, result with
  | .clearInput, none =>
    if s.urgentWrites.length < urgentCapacity then
      some { s with
        calling := .none, urgentWrites := s.urgentWrites ++ [{ events := [.inputAudioClear] }] }
    else none
  | .clearInput, some _ | .cancelRefused, some _ => some { s with calling := .none }
  | .cancelEnqueue, some _ => some { s with calling := .none, cancelWait := false }
  | .cancelWait, none => if s.cancelResult = some none then some { s with calling := .none } else none
  -- its own error, the context, the session or the timer; the waiter stays behind
  | .cancelWait, some _ => some { s with calling := .none }
  | _, _ => none

def Session.discardLastResponse (queueSize : Nat) (epoch : Nat) (result : Option Error)
    (s : Session) : Option Session :=
  let taken := { s with
    lastAssistantItem := none, announced := { s.announced with kept := [] } }
  match s.lastAssistantItem, result with
  | none, none => some taken
  | none, some _ => none
  | some item, none => taken.enqueueNow queueSize { events := [.itemDelete item epoch] }
  | some _, some _ => some taken

def call (queueSize : Nat) (c : Call) (result : Option Error) (s : Session)
    (events : List ConversationEvent) : Option (Session × List ConversationEvent) :=
  match c, result with
  | .sendAudio _ pcm, none =>
    if pcm = [] ∨ pcm.length % 2 ≠ 0 ∨ maxAudioChunkBytes < pcm.length then none
    else (s.enqueueNow queueSize {
      events := [.inputAudioAppend pcm], inputAudio := true
      inputGeneration := s.inputGeneration }).map (·, events)
  | .sendAudio _ _, some _ => some (s, events)
  | .commit e, result => (s.commit queueSize e result).map (·, events)
  | .cancel _, result => (s.cancel result).map (·, events)
  | .discardLastResponse e, result => (s.discardLastResponse queueSize e result).map (·, events)
  | .drain, _ => some (s, [])

def provider (queueSize : Nat) : Backend.Session Session Act where
  discarder := true
  enter := enter
  call := call queueSize
  step := step queueSize

end BoomPI.Qwen
