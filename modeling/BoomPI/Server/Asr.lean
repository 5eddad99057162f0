import BoomPI.Lts
import BoomPI.Server.Pipeline

/-!
# Realtime ASR streams

`qwenpipeline/asr_realtime.go` and its use in `pipeline.go`: a session keeps one
stream ready, whose opening is a goroutine of its own. An utterance is fed into
the stream while it is spoken; its goroutine `run` commits the stream and closes
it, or sends the whole utterance to the batch service.
-/

namespace BoomPI.Asr

open BoomPI.Pipeline (maxInputPCMBytes)

def realtimeASRQueueFrames : Nat := 32

-- ---------------------------------------------------------------------------
-- Streams
-- ---------------------------------------------------------------------------

inductive Command
  | audio (pcm : List UInt8)
  | finish
  deriving DecidableEq, Repr

/-- Where the goroutine `prepareRealtimeASR` of a stream stands. -/
inductive Preparation
  | opening      -- in the opener
  | opened       -- before the lock, with a stream
  | failed       -- before the lock, with an error
  | surplus      -- before `Close` of a stream that is not kept
  | returned
  deriving DecidableEq, Repr

/-- `asrRealtimeStream`, from the launch of its preparation on. `accepted` and `written` are
ghosts: what the queue took and what the connection was given. -/
structure Stream where
  preparation : Preparation := .opening
  commands : List Command := []
  finishQueued : Bool := false
  stopped : Bool := false
  writing : Bool := false
  writerDone : Bool := false
  /-- the connection is closed or lost -/
  broken : Bool := false
  accepted : List Command := []
  written : List Command := []
  deriving DecidableEq, Repr

/-- The branches of the two selects over a stream's channels. -/
inductive Branch
  | command
  | writerDone
  | stopped
  | done
  | default
  deriving DecidableEq, Repr

namespace Stream

def live (st : Stream) : Bool := ! st.stopped && ! st.broken

def queue (c : Command) (st : Stream) : Stream :=
  { st with commands := st.commands ++ [c], accepted := st.accepted ++ [c] }

/-- `Append`: whether it returns nil. Only a branch that is ready is taken. -/
def append (pcm : List UInt8) (branch : Branch) (st : Stream) : Option (Bool × Stream) :=
  if pcm = [] ∨ pcm.length % 2 ≠ 0 ∨ st.finishQueued then some (false, st)
  else match branch with
  | .command =>
    if st.commands.length < realtimeASRQueueFrames then some (true, st.queue (.audio pcm)) else none
  | .writerDone => if st.writerDone then some (false, { st with writerDone := false }) else none
  | .stopped => if st.stopped then some (false, st) else none
  | .default =>
    if st.commands.length < realtimeASRQueueFrames ∨ st.writerDone ∨ st.stopped then none
    else some (false, st)
  | .done => none

/-- `Commit` up to its first select: whether the finish is queued. -/
def commit (ctxDone : Bool) (branch : Branch) (st : Stream) : Option (Bool × Stream) :=
  if st.finishQueued then some (false, st)
  else
    let st := { st with finishQueued := true }
    match branch with
    | .command =>
      if st.commands.length < realtimeASRQueueFrames then some (true, st.queue .finish) else none
    | .writerDone => if st.writerDone then some (false, { st with writerDone := false }) else none
    | .done => if ctxDone then some (false, st) else none
    | .stopped => if st.stopped then some (false, st) else none
    | .default => none

/-- A round of `writeLoop` that takes a command. -/
def write (ok : Bool) (st : Stream) : Option Stream :=
  if ¬ st.writing then none
  else match st.commands with
  | [] => none
  | c :: commands =>
    let st := { st with commands }
    let ended := c = .finish ∨ ¬ ok
    some { st with
      written := if ok then st.written ++ [c] else st.written
      writing := ¬ ended, writerDone := ended ∨ st.writerDone, broken := ¬ ok ∨ st.broken }

def close (st : Stream) : Stream := { st with stopped := true, broken := true }

end Stream

-- ---------------------------------------------------------------------------
-- The session
-- ---------------------------------------------------------------------------

inductive Source
  | realtime (stream : Nat)
  | batch (pcm : List UInt8)
  | none
  deriving DecidableEq, Repr

/-- Where the goroutine `run` of a committed turn stands. -/
inductive Stage
  | starting                      -- before `EventStarted`
  | committing                    -- before the finish is queued
  | reading                       -- waits for the transcript
  | closing (ok : Bool)           -- before `asr.Close()`
  | replacing (ok : Bool)         -- before `startRealtimeASRPreparation`
  | batching                      -- before the batch transcription
  | recognized (source : Source)  -- the rest of the turn
  deriving DecidableEq, Repr

structure Run where
  pcm : List UInt8
  asr : Option Nat
  stage : Stage := .starting
  cancelled : Bool := false
  deriving DecidableEq, Repr

inductive Call
  | idle
  | appending (stream : Nat) (pcm : List UInt8)        -- `SendAudio` before `stream.Append`
  | disabling (stream : Nat)                           -- before the lock of `disableRealtimeASR`
  | closing (stream : Nat)                             -- before the last `stream.Close()`
  | cancelling (stream : Option Nat) (active : Bool)   -- `Cancel` after its lock
  | waiting                                            -- `Cancel` waits for the turn to end
  deriving DecidableEq, Repr

/-- A stream is named by its place in the order of the launches. `Open` launches the first. -/
structure Session where
  pcm : List UInt8 := []
  asr : Option Nat := none
  asrPreparing : Bool := true
  turnBatchOnly : Bool := false
  closed : Bool := false
  ctxDone : Bool := false
  run : Option Run := none
  call : Call := .idle
  streams : List Stream := [{}]
  deriving DecidableEq, Repr

namespace Session

def modify (i : Nat) (f : Stream → Stream) (s : Session) : Session :=
  { s with streams := s.streams.modify i f }

/-- Stream `i` is open or being opened. -/
def live (s : Session) (i : Nat) : Bool := s.streams[i]?.any Stream.live

def launchRealtimeASRPreparation (s : Session) : Session :=
  { s with streams := s.streams ++ [{}] }

/-- `SendAudio` up to its unlock; `none` is an error. -/
def sendAudio (pcm : List UInt8) (s : Session) : Option Session :=
  if pcm = [] ∨ pcm.length % 2 ≠ 0 ∨ s.closed ∨ s.run.isSome ∨
      maxInputPCMBytes < s.pcm.length + pcm.length then none
  else
    let s := { s with
      turnBatchOnly := if s.pcm = [] ∧ s.asr = none then true else s.turnBatchOnly
      pcm := s.pcm ++ pcm }
    let stream := if s.turnBatchOnly then none else s.asr
    some { s with call := match stream with
      | some i => .appending i pcm
      | none => .idle }

/-- `disableRealtimeASR` up to its unlock. -/
def disableRealtimeASR (stream : Nat) (s : Session) : Session :=
  let s := if s.asr = some stream then { s with asr := none, turnBatchOnly := true } else s
  { s with call := .closing stream }

/-- `Commit`; `none` is an error. -/
def commit (s : Session) : Option Session :=
  if s.closed ∨ s.run.isSome ∨ s.pcm = [] then none
  else
    let run : Run := { pcm := s.pcm, asr := if s.turnBatchOnly then none else s.asr }
    let s := { s with
      pcm := [], asr := if s.turnBatchOnly then s.asr else none
      turnBatchOnly := false, run := some run }
    -- a live stream is replaced after its final result is received
    some (if run.asr = none ∧ s.asr = none ∧ ¬ s.asrPreparing then
      { s with asrPreparing := true }.launchRealtimeASRPreparation
    else s)

/-- `Cancel` up to its unlock. -/
def cancel (s : Session) : Session :=
  let inputWasActive := s.pcm ≠ [] ∧ ¬ s.turnBatchOnly
  let stream := if inputWasActive then s.asr else none
  let s := { s with
    asr := if inputWasActive then none else s.asr
    pcm := [], turnBatchOnly := false, call := .cancelling stream s.run.isSome }
  if stream.isSome ∧ ¬ s.asrPreparing then
    { s with asrPreparing := true }.launchRealtimeASRPreparation
  else s

/-- `Close` up to its unlock. -/
def close (s : Session) : Session :=
  if s.closed then s
  else { s with
    closed := true, ctxDone := true, asr := none
    call := match s.asr with
      | some i => .closing i
      | none => .idle }

def startRealtimeASRPreparation (s : Session) : Session :=
  if s.closed ∨ s.asr.isSome ∨ s.asrPreparing then s
  else { s with asrPreparing := true }.launchRealtimeASRPreparation

/-- The lock section of `prepareRealtimeASR`. -/
def prepared (i : Nat) (ok : Bool) (s : Session) : Session :=
  let keep := ok ∧ ¬ s.closed ∧ s.asr = none
  let s := { s with asrPreparing := false, asr := if keep then some i else s.asr }
  s.modify i fun st => { st with preparation := if ok ∧ ¬ keep then .surplus else .returned }

end Session

-- ---------------------------------------------------------------------------
-- The machine
-- ---------------------------------------------------------------------------

inductive Label
  -- the calls of the actor, and their parts outside the lock
  | sendAudio (pcm : List UInt8)
  | append (branch : Branch)
  | disable
  | closeStream
  | commit
  | cancel
  | cancelRun
  | cancelled (done : Bool)
  | close
  -- the preparation of a stream
  | opened (i : Nat)
  | openFailed (i : Nat)
  | prepared (i : Nat)
  | closeSurplus (i : Nat)
  -- its writer and its connection
  | write (i : Nat) (ok : Bool)
  | stopWriter (i : Nat)
  | lost (i : Nat)
  -- a turn
  | started (ok : Bool)
  | finish (branch : Branch)
  | read (ok : Bool)
  | closeAsr
  | replace
  | transcribe
  | giveUp
  | ended
  -- the context of the session
  | ctxDone
  deriving DecidableEq, Repr

/-- The goroutine `run` takes one step. -/
def runStep (r : Run) (s : Session) : Label → Option Session
  | .started ok =>
    if r.stage ≠ .starting then none
    else if ok then
      some { s with run := some { r with
        stage := if r.asr.isSome then .committing else .batching } }
    -- `emit` gives up when its context is done
    else if r.cancelled ∨ s.ctxDone then some { s with run := none }
    else none
  | .finish branch =>
    match r.stage, r.asr with
    | .committing, some i =>
      match s.streams[i]?.bind (·.commit (r.cancelled || s.ctxDone) branch) with
      | some (ok, st) =>
        some { s.modify i fun _ => st with
          run := some { r with stage := if ok then .reading else .closing false } }
      | none => none
    | _, _ => none
  | .read ok =>
    if r.stage = .reading then some { s with run := some { r with stage := .closing ok } } else none
  | .closeAsr =>
    match r.stage, r.asr with
    | .closing ok, some i =>
      some { s.modify i Stream.close with run := some { r with stage := .replacing ok } }
    | _, _ => none
  | .replace =>
    match r.stage, r.asr with
    | .replacing ok, some i =>
      some ({ s with run := some { r with
        stage := if ok then .recognized (.realtime i) else .batching } }.startRealtimeASRPreparation)
    | _, _ => none
  | .transcribe =>
    if r.stage = .batching ∧ ¬ r.cancelled ∧ ¬ s.ctxDone then
      some { s with run := some { r with stage := .recognized (.batch r.pcm) } }
    else none
  | .giveUp =>
    if r.stage = .batching ∧ (r.cancelled ∨ s.ctxDone) then
      some { s with run := some { r with stage := .recognized .none } }
    else none
  | .ended =>
    match r.stage with
    | .recognized _ => some { s with run := none }
    | _ => none
  | _ => none

/-- A goroutine of stream `i`, or its connection, takes one step. -/
def streamStep (i : Nat) (st : Stream) (s : Session) : Label → Option Session
  | .opened _ =>
    if st.preparation = .opening then
      some (s.modify i fun st => { st with preparation := .opened, writing := true })
    else none
  -- the opener closes its connection itself
  | .openFailed _ =>
    if st.preparation = .opening then
      some (s.modify i fun st => { st.close with preparation := .failed })
    else none
  | .prepared _ =>
    match st.preparation with
    | .opened => some (s.prepared i true)
    | .failed => some (s.prepared i false)
    | _ => none
  | .closeSurplus _ =>
    if st.preparation = .surplus then
      some (s.modify i fun st => { st.close with preparation := .returned })
    else none
  | .write _ ok => (st.write ok).map fun st => s.modify i fun _ => st
  | .stopWriter _ =>
    if st.writing ∧ st.stopped then
      some (s.modify i fun st => { st with writing := false, writerDone := true })
    else none
  | .lost _ =>
    if st.preparation = .opening then none else some (s.modify i fun st => { st with broken := true })
  | _ => none

def step (s : Session) (l : Label) : Option Session :=
  match l with
  | .sendAudio pcm => if s.call = .idle then some ((s.sendAudio pcm).getD s) else none
  | .commit => if s.call = .idle then some (s.commit.getD s) else none
  | .cancel => if s.call = .idle then some s.cancel else none
  | .close => if s.call = .idle then some s.close else none
  | .append branch =>
    match s.call with
    | .appending i pcm =>
      match s.streams[i]?.bind (·.append pcm branch) with
      | some (ok, st) =>
        some { s.modify i fun _ => st with call := if ok then .idle else .disabling i }
      | none => none
    | _ => none
  | .disable =>
    match s.call with
    | .disabling i => some (s.disableRealtimeASR i)
    | _ => none
  | .closeStream =>
    match s.call with
    | .closing i => some { s.modify i Stream.close with call := .idle }
    | .cancelling (some i) active =>
      some { s.modify i Stream.close with call := .cancelling none active }
    | _ => none
  | .cancelRun =>
    match s.call with
    | .cancelling none true =>
      some { s with run := s.run.map fun r => { r with cancelled := true }, call := .waiting }
    | .cancelling none false => some { s with call := .idle }
    | _ => none
  -- false: the context of the call is done first
  | .cancelled done =>
    if s.call = .waiting ∧ (done = true → s.run = none) then some { s with call := .idle } else none
  | .ctxDone => some { s with ctxDone := true }
  | .opened i | .openFailed i | .prepared i | .closeSurplus i | .write i _ | .stopWriter i | .lost i =>
    match s.streams[i]? with
    | some st => streamStep i st s l
    | none => none
  | .started _ | .finish _ | .read _ | .closeAsr | .replace | .transcribe | .giveUp | .ended =>
    match s.run with
    | some r => runStep r s l
    | none => none

def machine : Lts.Machine Session Label where
  Init s := s = {}
  step := step

end BoomPI.Asr
