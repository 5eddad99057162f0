import BoomPI.Server.Backend

/-!
# The recognition, reasoning and speech pipeline

`qwenpipeline/pipeline.go`: each committed turn is one goroutine (`run`) that
recognises the audio, asks the model with the conversation so far, speaks the
answer and then adds the pair to the history.
-/

namespace BoomPI.Pipeline

open Backend (Error ConversationEvent EventType Call)

def maxInputPCMBytes : Nat := 60 * 16000 * 2
def ttsSampleRateHz : Nat := 24000
def ttsEventPCMBytes : Nat := ttsSampleRateHz * 2 * 20 / 1000
def clearConversationConfirmation : String := "对话已清空。"

inductive Role
  | user
  | assistant
  deriving DecidableEq, Repr

/-- `chatMessage`. `epoch` is a ghost: the turn whose response wrote the message. -/
structure ChatMessage where
  role : Role
  content : String
  epoch : Nat := 0
  deriving DecidableEq, Repr

/-- What the code reads of `Config` and `SessionConfig`, with the bound on
`MaxTurns` that `validate` enforces. `isSpace` and `isPunct` are `unicode.IsSpace`
and `unicode.IsPunct`. -/
structure Config where
  queueSize : Nat
  maxTurns : Nat
  maxContextTokens : Nat
  instructions : String
  isSpace : Char → Bool
  isPunct : Char → Bool
  one_le_maxTurns : 1 ≤ maxTurns

-- ---------------------------------------------------------------------------
-- The history window
-- ---------------------------------------------------------------------------

def estimateTextTokens (text : String) : Nat :=
  let ascii := text.toList.countP fun c => c.val ≤ 0x7f
  2 * (text.length - ascii) + (ascii + 3) / 4

def estimateHistoryTokens (history : List ChatMessage) : Nat :=
  (history.map fun m => 8 + estimateTextTokens m.content).sum

/-- `for len(history) > 1 && history[0].Role == "assistant"`. -/
def dropOrphans : List ChatMessage → List ChatMessage
  | m :: n :: rest => if m.role = .assistant then dropOrphans (n :: rest) else m :: n :: rest
  | history => history

/-- `for len(history) > 1 && estimateHistoryTokens(history) > budget`. -/
def dropOverBudget (budget : Nat) : List ChatMessage → List ChatMessage
  | m :: n :: rest =>
    if budget < estimateHistoryTokens (m :: n :: rest) then
      if m.role = .user ∧ n.role = .assistant then dropOverBudget budget rest
      else dropOverBudget budget (n :: rest)
    else m :: n :: rest
  | history => history

def maxMessages (maxTurns : Nat) (history : List ChatMessage) : Nat :=
  let n := maxTurns * 2
  -- one slot is reserved for a user message without its answer
  let n := if (history.getLast?.map (·.role)) = some .user then n - 1 else n
  if n < 2 then 1 else n

def contextBudget (maxContextTokens : Nat) (instructions : String) : Nat :=
  let reserve := max (maxContextTokens / 4) 512
  max (maxContextTokens - reserve - estimateTextTokens instructions) 256

def boundedHistory (history : List ChatMessage) (cfg : Config) : List ChatMessage :=
  if history = [] then []
  else
    let history := history.drop (history.length - maxMessages cfg.maxTurns history)
    dropOverBudget (contextBudget cfg.maxContextTokens cfg.instructions) (dropOrphans history)

def isClearConversationCommand (cfg : Config) (transcript : String) : Bool :=
  (transcript.toList.filter fun c => ¬ (cfg.isSpace c ∨ cfg.isPunct c)) = "清空对话".toList

-- ---------------------------------------------------------------------------
-- The session
-- ---------------------------------------------------------------------------

/-- Where the goroutine `run` of a committed turn stands. -/
inductive Stage
  | starting                                              -- before `EventStarted`
  | recognizing                                           -- ASR, realtime or batch
  | clearing                                              -- before the lock in `handleClearConversation`
  | confirming                                            -- before its text delta
  | confirmed                                             -- speaking the confirmation
  | reading (transcript : String)                         -- before the history is copied
  | responding (history : List ChatMessage)               -- reasoning and speech
  | answered (history : List ChatMessage) (answer : String)
  | finishing                                             -- before `EventDone`
  | failing (err : Error)                                 -- before `EventError`
  | ending                                                -- the deferred functions
  deriving DecidableEq, Repr

/-- The goroutine with `activeCancel` and `activeDone`. `epoch` is a ghost. -/
structure Run where
  epoch : Nat
  realtime : Bool := false
  responseID : String := ""
  stage : Stage := .starting
  cancelled : Bool := false
  deriving DecidableEq, Repr

/-- `Cancel` between its lock and its return. -/
structure Cancelling where
  discardCompletedResponse : Bool
  waiting : Bool
  deriving DecidableEq, Repr

structure Session where
  pcm : List UInt8 := []
  history : List ChatMessage := []
  active : Option Run := none
  asr : Bool := false
  asrPreparing : Bool := true
  turnBatchOnly : Bool := false
  lastResponseDiscardable : Bool := false
  closed : Bool := false
  cancelling : Option Cancelling := none
  deriving DecidableEq, Repr

def Session.discardCompletedResponseIfNeeded (s : Session) : Session :=
  if s.lastResponseDiscardable = false then s
  else
    let history := match s.history.getLast? with
      | some last =>
        if last.role = .assistant then
          let history := s.history.dropLast
          match history.getLast? with
          | some last => if last.role = .user then history.dropLast else history
          | none => history
        else s.history
      | none => s.history
    { s with history, lastResponseDiscardable := false }

theorem discard_active (s : Session) : s.discardCompletedResponseIfNeeded.active = s.active := by
  unfold Session.discardCompletedResponseIfNeeded
  split <;> rfl

/-- `SendAudio` that returns nil. -/
def Session.sendAudio (pcm : List UInt8) (s : Session) : Option Session :=
  if pcm = [] ∨ pcm.length % 2 ≠ 0 ∨ s.closed ∨ s.active.isSome ∨
      maxInputPCMBytes < s.pcm.length + pcm.length then none
  else some { s with
    turnBatchOnly := if s.pcm = [] ∧ s.asr = false then true else s.turnBatchOnly
    lastResponseDiscardable := if s.pcm = [] then false else s.lastResponseDiscardable
    pcm := s.pcm ++ pcm }

/-- `Commit` that returns nil. -/
def Session.commit (epoch : Nat) (s : Session) : Option Session :=
  if s.closed ∨ s.active.isSome ∨ s.pcm = [] then none
  else
    let realtime := s.asr ∧ s.turnBatchOnly = false
    let asr := if s.turnBatchOnly then s.asr else false
    some { s with
      pcm := [], turnBatchOnly := false, asr
      asrPreparing := if ¬ realtime ∧ asr = false then true else s.asrPreparing
      active := some { epoch, realtime } }

/-- `Cancel` up to its unlock; a turn that runs has its context cancelled. -/
def Session.enterCancel (s : Session) : Session :=
  let stream := s.pcm ≠ [] ∧ s.turnBatchOnly = false ∧ s.asr = true
  { s with
    asr := if s.pcm ≠ [] ∧ s.turnBatchOnly = false then false else s.asr
    pcm := [], turnBatchOnly := false
    asrPreparing := if stream then true else s.asrPreparing
    active := s.active.map fun r => { r with cancelled := true }
    cancelling := some { discardCompletedResponse := s.pcm = [], waiting := s.active.isSome } }

/-- `Cancel` from there to its return: nil once the turn has ended, the context's
error while it waits. -/
def Session.leaveCancel (result : Option Error) (s : Session) : Option Session :=
  match s.cancelling, result with
  | some c, none =>
    if s.active.isSome then none
    else
      let s := { s with cancelling := none }
      some (if c.discardCompletedResponse then s.discardCompletedResponseIfNeeded else s)
  | some c, some _ => if c.waiting then some { s with cancelling := none } else none
  | none, _ => none

/-- What the goroutines of a session and the services behind them may do. -/
inductive Act
  | started (responseID : String)
  | heard (result : Except Error String)   -- ASR ends
  | clear                                  -- the lock in `handleClearConversation`
  | copy                                   -- the lock before reasoning
  | text (delta : String)
  | audio (pcm : List UInt8)
  | spoken (result : Except Error String)  -- reasoning and speech end
  | remember                               -- the lock after them
  | done
  | fail
  | giveUp                                 -- `emit` or `emitError` met a finished context
  | finish
  | asrPrepared (ok : Bool)
  | asrFailed                              -- `disableRealtimeASR`
  | close
  deriving Repr

/-- `emit` that returns true. -/
def emit (cfg : Config) (event : ConversationEvent) (events : List ConversationEvent) :
    Option (List ConversationEvent) :=
  if events.length < cfg.queueSize then some (events ++ [event]) else none

def Session.startRealtimeASRPreparation (s : Session) : Session :=
  if s.closed ∨ s.asr ∨ s.asrPreparing then s else { s with asrPreparing := true }

/-- The goroutine `run` takes one step. -/
def runStep (cfg : Config) (act : Act) (r : Run) (s : Session) (events : List ConversationEvent) :
    Option (Session × List ConversationEvent) :=
  let event (type : EventType) : ConversationEvent :=
    { type, responseID := r.responseID, origin := r.epoch }
  let goto (stage : Stage) : Session := { s with active := some { r with stage } }
  -- a realtime stream is closed and replaced once its result is in
  let recognized (stage : Stage) : Session :=
    if r.realtime then (goto stage).startRealtimeASRPreparation else goto stage
  match act, r.stage with
  | .started responseID, .starting =>
    (emit cfg { type := .started, responseID, origin := r.epoch } events).map fun events =>
      ({ s with active := some { r with responseID, stage := .recognizing } }, events)
  | .heard (.ok transcript), .recognizing =>
    if isClearConversationCommand cfg transcript then some (recognized .clearing, events)
    else some (recognized (.reading transcript), events)
  | .heard (.error err), .recognizing => some (recognized (.failing err), events)
  | .clear, .clearing =>
    some ({ goto .confirming with history := [], lastResponseDiscardable := false }, events)
  | .text delta, .confirming =>
    if delta = clearConversationConfirmation then
      (emit cfg { event .textDelta with text := delta } events).map fun events =>
        (goto .confirmed, events)
    else none
  | .copy, .reading transcript =>
    let history := s.history ++ [{ role := .user, content := transcript, epoch := r.epoch }]
    some (goto (.responding (boundedHistory history cfg)), events)
  | .text delta, .responding _ =>
    (emit cfg { event .textDelta with text := delta } events).map fun events => (s, events)
  | .audio pcm, .responding _ | .audio pcm, .confirmed =>
    if pcm = [] ∨ pcm.length % 2 ≠ 0 ∨ ttsEventPCMBytes < pcm.length then none
    else (emit cfg { event .audio with pcm, sampleRateHz := ttsSampleRateHz } events).map
      fun events => (s, events)
  | .spoken (.ok answer), .responding history => some (goto (.answered history answer), events)
  | .spoken (.error err), .responding _ => some (goto (.failing err), events)
  | .spoken (.ok _), .confirmed => some (goto .finishing, events)
  | .spoken (.error err), .confirmed =>
    some (goto (.failing (.wrap "synthesize clear-conversation confirmation" err)), events)
  | .remember, .answered history answer =>
    let history := history ++ [{ role := .assistant, content := answer, epoch := r.epoch }]
    some ({ goto .finishing with
      history := boundedHistory history cfg, lastResponseDiscardable := true }, events)
  | .done, .finishing => (emit cfg (event .done) events).map fun events => (goto .ending, events)
  | .fail, .failing err =>
    (emit cfg { type := .error, err := some err, origin := r.epoch } events).map fun events =>
      (goto .ending, events)
  | .giveUp, .starting | .giveUp, .confirming | .giveUp, .finishing | .giveUp, .failing _ =>
    if r.cancelled then some (goto .ending, events) else none
  | .finish, .ending => some ({ s with active := none }, events)
  | _, _ => none

def step (cfg : Config) (act : Act) (s : Session) (events : List ConversationEvent) :
    Option (Session × List ConversationEvent) :=
  match act with
  | .asrPrepared ok =>
    if s.asrPreparing then
      some ({ s with asrPreparing := false, asr := (ok ∧ s.closed = false) ∨ s.asr }, events)
    else none
  | .asrFailed =>
    if s.asr ∧ s.turnBatchOnly = false ∧ s.pcm ≠ [] then some ({ s with asr := false, turnBatchOnly := true }, events)
    else none
  | .close =>
    some ({ s with
      closed := true, asr := false
      active := s.active.map fun r => { r with cancelled := true } }, events)
  | act =>
    match s.active with
    | some r => runStep cfg act r s events
    | none => none

/-- The calls the actor makes. A failed `SendAudio` or `Commit` changes nothing. -/
def call (c : Call) (result : Option Error) (s : Session) (events : List ConversationEvent) :
    Option (Session × List ConversationEvent) :=
  match c, result with
  | .sendAudio _ pcm, none => (s.sendAudio pcm).map (·, events)
  | .sendAudio _ _, some _ => some (s, events)
  | .commit e, none => (s.commit e).map (·, events)
  | .commit e, some _ => if (s.commit e).isNone then some (s, events) else none
  | .cancel _, result => (s.leaveCancel result).map (·, events)
  | .discardLastResponse _, none => some (s.discardCompletedResponseIfNeeded, events)
  | .discardLastResponse _, some _ => none
  | .drain, _ => some (s, [])

def provider (cfg : Config) : Backend.Session Session Act where
  discarder := true
  enter
    | .cancel _, s => s.enterCancel
    | _, s => s
  call := call
  step := step cfg

def plainConfig : Config where
  queueSize := 8
  maxTurns := 20
  maxContextTokens := 24000
  instructions := ""
  isSpace := Char.isWhitespace
  isPunct c := c = '。'
  one_le_maxTurns := by decide

end BoomPI.Pipeline
