import BoomPI.Lts
import BoomPI.Server.Backend

/-!
# The session actor

`session.go`: one goroutine, `Actor.run`, owns the turn state. It takes urgent
commands before queued ones, reads the provider only while it holds no pending
event, and hands the pending event to the device handler.
-/

namespace BoomPI.Session

open Backend (Error ConversationEvent EventType Call Outcomes)

def ErrInvalidTransition : Error := .sentinel "invalid session transition"
def ErrStaleEpoch : Error := .sentinel "stale session epoch"

def commandCapacity : Nat := 32
def urgentCapacity : Nat := 4
def eventCapacity : Nat := 8

/-- `session.Event`: a provider event with the device epoch added. -/
structure Event where
  epoch : Nat
  raw : ConversationEvent
  deriving DecidableEq, Repr

inductive Operation
  | startTurn
  | appendPCM
  | commit
  | cancelTurn
  deriving DecidableEq, Repr

structure Command where
  op : Operation
  epoch : Nat
  pcm : List UInt8 := []
  deriving DecidableEq, Repr

inductive Phase
  | idle
  | listening
  | thinking
  | speaking
  deriving DecidableEq, Repr

structure ActorState where
  phase : Phase := .idle
  latest : Nat := 0
  epoch : Nat := 0
  responseID : GoString := ""
  frames : Nat := 0
  pending : Option Event := none
  deriving DecidableEq, Repr

/-- The phases in which a committed turn waits for its response. -/
def Phase.responding : Phase → Bool
  | .thinking | .speaking => true
  | _ => false

-- ---------------------------------------------------------------------------
-- Commands
-- ---------------------------------------------------------------------------

def stale (epoch : Nat) (state : ActorState) : Bool :=
  epoch < state.epoch ∨ (state.phase = .idle ∧ epoch ≤ state.latest)

/-- What `apply` did: the reply, the state it left, the calls it made. -/
structure Applied where
  reply : Option Error
  state : ActorState
  calls : List Call := []
  deriving DecidableEq, Repr

/-- `Actor.apply`, with what each provider call returns in `out`. -/
def apply (discarder : Bool) (out : Outcomes) (cmd : Command) (state : ActorState) : Applied :=
  match cmd.op with
  | .startTurn =>
    if state.phase ≠ .idle then
      { reply := some ErrInvalidTransition, state }
    else if cmd.epoch ≤ state.latest then
      { reply := some ErrStaleEpoch, state }
    else
      { reply := none
        state := { state with
          phase := .listening, latest := cmd.epoch, epoch := cmd.epoch,
          responseID := "", frames := 0 } }
  | .appendPCM =>
    if stale cmd.epoch state then
      { reply := some ErrStaleEpoch, state }
    else if state.phase ≠ .listening ∨ cmd.epoch ≠ state.epoch then
      { reply := some ErrInvalidTransition, state }
    else
      let calls := [.sendAudio cmd.epoch cmd.pcm]
      match out.sendAudio with
      | some err => { reply := some (.wrap "send audio" err), state, calls }
      | none => { reply := none, state := { state with frames := state.frames + 1 }, calls }
  | .commit =>
    if stale cmd.epoch state then
      { reply := some ErrStaleEpoch, state }
    else if state.phase ≠ .listening ∨ cmd.epoch ≠ state.epoch ∨ state.frames = 0 then
      { reply := some ErrInvalidTransition, state }
    else
      let calls := [.commit cmd.epoch]
      match out.commit with
      | some err => { reply := some (.wrap "commit audio" err), state, calls }
      | none => { reply := none, state := { state with phase := .thinking }, calls }
  | .cancelTurn =>
    if state.phase = .idle then
      if cmd.epoch < state.latest then
        { reply := none, state }
      else if cmd.epoch ≠ state.latest then
        { reply := some ErrInvalidTransition, state }
      else if discarder then
        let calls := [.discardLastResponse cmd.epoch]
        match out.discardLastResponse with
        | some err => { reply := some (.wrap "discard completed response" err), state, calls }
        | none => { reply := none, state, calls }
      else
        { reply := none, state }
    else if cmd.epoch < state.epoch then
      { reply := none, state }
    else if cmd.epoch ≠ state.epoch then
      { reply := some ErrInvalidTransition, state }
    else
      let cancelled (calls : List Call) : Applied :=
        { reply := none
          state := { state with
            pending := state.pending.filter fun event => event.epoch ≠ state.epoch
            phase := .idle, epoch := 0, responseID := "", frames := 0 }
          calls := calls ++ [.drain] }
      match out.cancel with
      | some err =>
        { reply := some (.wrap "cancel response" err), state, calls := [.cancel cmd.epoch] }
      | none =>
        -- only a committed turn can have left an answer in the provider's memory
        if state.phase.responding ∧ discarder then
          let calls := [.cancel cmd.epoch, .discardLastResponse cmd.epoch]
          match out.discardLastResponse with
          | some err => { reply := some (.wrap "discard cancelled response" err), state, calls }
          | none => cancelled calls
        else
          cancelled [.cancel cmd.epoch]

-- ---------------------------------------------------------------------------
-- Provider events
-- ---------------------------------------------------------------------------

def validProviderEvent (event : ConversationEvent) : Option Error :=
  let ok : Bool := match event.type with
    | .started => event.responseID ≠ ""
    | .textDelta => event.responseID ≠ "" ∧ event.text ≠ ""
    | .audio => event.responseID ≠ "" ∧ 0 < event.pcm.length ∧ 0 < event.sampleRateHz
    | .done => event.responseID ≠ ""
    | .error => event.err.isSome
    | .unknown _ => False
  if ok then none else some (.text ("invalid provider event type " ++ toString event.type.code))

/-- The first response ID a committed turn meets becomes its own. -/
def adopt (raw : ConversationEvent) (state : ActorState) : ActorState :=
  if state.responseID = "" then { state with responseID := raw.responseID } else state

def advance (raw : ConversationEvent) (state : ActorState) : ActorState :=
  let state := if raw.type = .audio then { state with phase := .speaking } else state
  if raw.type.terminal then { state with phase := .idle, responseID := "" } else state

/-- `accept`: the event to hand on, if any, and the state after it. -/
def accept (raw : ConversationEvent) (state : ActorState) : Option Event × ActorState :=
  if ¬ state.phase.responding then
    (none, state)
  else match validProviderEvent raw with
    | some err =>
      (some { epoch := state.epoch, raw := { type := .error, err := some err } },
        { state with phase := .idle, responseID := "" })
    | none =>
      let state := adopt raw state
      if raw.responseID ≠ "" ∧ raw.responseID ≠ state.responseID then
        (none, state)
      else
        (some { epoch := state.epoch, raw }, advance raw state)

/-- `reportClosedStream`: the error the actor tries to leave behind. -/
def reportClosedStream (state : ActorState) : Option Event :=
  if state.phase = .idle then none
  else some {
    epoch := state.epoch
    raw := { type := .error, err := some (.text "conversation backend event stream closed") } }

-- ---------------------------------------------------------------------------
-- The goroutine
-- ---------------------------------------------------------------------------

/-- What a run shows: replies, provider calls with their results, events read
from the provider and events written to `Events()`, the first and the third
with the state they met. -/
inductive Obs
  | replied (before : ActorState) (cmd : Command) (reply : Option Error)
  | called (call : Call) (result : Option Error)
  | delivered (before : ActorState) (raw : ConversationEvent)
  | wrote (event : Event)
  deriving DecidableEq, Repr

/-- Where `run` stands: the priority select, the main select, inside `apply`,
or past its loop. -/
inductive Place
  | polling
  | selecting
  | applying (cmd : Command)
  | stopped
  deriving DecidableEq, Repr

/-- The actor with its channels and its provider session. `provided` is the
content of the provider's `Events()`, `events` of the actor's own. -/
structure Actor (π : Type) where
  state : ActorState := {}
  place : Place := .polling
  commands : List Command := []
  urgent : List Command := []
  events : List Event := []
  session : π
  provided : List ConversationEvent := []
  providerClosed : Bool := false
  trace : List Obs := []
  deriving Repr

inductive Label (κ : Type)
  | submit (cmd : Command)      -- a caller's `send` queues a command
  | poll                        -- the priority select
  | urgent                      -- the cases of the main select
  | command (expired : Bool)
  | receive
  | closed
  | write
  | stop
  | reply (out : Outcomes)      -- `apply` returns
  | consume                     -- the device handler reads `Events()`
  | provider (k : κ)            -- the provider's goroutines
  | providerClose
  deriving Repr

variable {π κ : Type}

/-- `send` up to its channel operation; a full queue blocks. -/
def submit (cmd : Command) (a : Actor π) : Option (Actor π) :=
  if cmd.epoch = 0 then none
  else if cmd.op = .appendPCM ∧ cmd.pcm.length ≠ 640 then none
  else if cmd.op = .cancelTurn then
    if a.urgent.length < urgentCapacity then some { a with urgent := a.urgent ++ [cmd] } else none
  else if a.commands.length < commandCapacity then
    some { a with commands := a.commands ++ [cmd] }
  else none

/-- The call `apply` makes first, before anything has returned. -/
def firstCall (discarder : Bool) (cmd : Command) (state : ActorState) : Option Call :=
  (apply discarder {} cmd state).calls.head?

/-- `apply` is entered and runs into its first provider call. -/
def enter (P : Backend.Session π κ) (cmd : Command) (a : Actor π) : Actor π :=
  { a with
    place := .applying cmd
    session := match firstCall P.discarder cmd a.state with
      | some c => P.enter c a.session
      | none => a.session }

/-- `apply` runs to its end and the reply is sent on `cmd.result`. -/
def leave (P : Backend.Session π κ) (cmd : Command) (out : Outcomes) (a : Actor π) :
    Option (Actor π) := do
  let r := apply P.discarder out cmd a.state
  let (session, provided) ← P.perform out r.calls a.session a.provided
  some { a with
    state := r.state, place := .polling, session, provided
    trace := a.trace ++ (r.calls.map fun c => .called c (out.of c)) ++
      [.replied a.state cmd r.reply] }

/-- `Actor.run`, one channel operation at a time, with the goroutines around it.
Leaving the loop ends the model's run: `shutdown` only cancels and closes. -/
def step (P : Backend.Session π κ) (a : Actor π) : Label κ → Option (Actor π)
  | .submit cmd => submit cmd a
  | .poll =>
    match a.place, a.urgent with
    | .polling, [] => some { a with place := .selecting }
    | .polling, cmd :: rest => some (enter P cmd { a with urgent := rest })
    | _, _ => none
  | .urgent =>
    match a.place, a.urgent with
    | .selecting, cmd :: rest => some (enter P cmd { a with urgent := rest })
    | _, _ => none
  | .command expired =>
    match a.place, a.commands with
    | .selecting, cmd :: rest =>
      if expired then
        some { a with
          place := .polling, commands := rest
          trace := a.trace ++ [.replied a.state cmd (some .context)] }
      else some (enter P cmd { a with commands := rest })
    | _, _ => none
  | .receive =>
    match a.place, a.state.pending, a.provided with
    | .selecting, none, raw :: rest =>
      let (event, state) := accept raw a.state
      some { a with
        place := .polling, provided := rest
        state := { state with pending := event }
        trace := a.trace ++ [.delivered a.state raw] }
    | _, _, _ => none
  | .closed =>
    match a.place, a.state.pending, a.provided with
    | .selecting, none, [] =>
      if a.providerClosed then
        match reportClosedStream a.state with
        | some event =>
          -- a full channel takes the default case and the error is lost
          if a.events.length < eventCapacity then
            some { a with
              place := .stopped, events := a.events ++ [event]
              trace := a.trace ++ [.wrote event] }
          else some { a with place := .stopped }
        | none => some { a with place := .stopped }
      else none
    | _, _, _ => none
  | .write =>
    match a.place, a.state.pending with
    | .selecting, some event =>
      if a.events.length < eventCapacity then
        some { a with
          place := .polling, events := a.events ++ [event]
          state := { a.state with pending := none }
          trace := a.trace ++ [.wrote event] }
      else none
    | _, _ => none
  | .stop => if a.place = .selecting then some { a with place := .stopped } else none
  | .reply out =>
    match a.place with
    | .applying cmd => leave P cmd out a
    | _ => none
  | .consume =>
    match a.events with
    | _ :: rest => some { a with events := rest }
    | [] => none
  | .provider k =>
    if a.providerClosed then none
    else (P.step k a.session a.provided).map fun (session, provided) =>
      { a with session, provided }
  | .providerClose => some { a with providerClosed := true }

/-- `session.Open` over a freshly opened provider session. -/
def machine (P : Backend.Session π κ) (Opened : π → Prop) : Lts.Machine (Actor π) (Label κ) where
  Init a := ∃ p, Opened p ∧ a = { session := p }
  step := step P

end BoomPI.Session
