import BoomPI.Server.Session

/-!
# Reading a trace

The questions the laws of the actor ask of one observation, and the two lists
they compare: what a turn wrote and what the provider delivered for it.
-/

namespace BoomPI.Session

open Backend (Error ConversationEvent)

/-- An accepted `StartTurn`. -/
def Obs.starts : Obs → Option Nat
  | .replied _ cmd none => if cmd.op = .startTurn then some cmd.epoch else none
  | _ => none

/-- A `Cancel` of the current, non-idle epoch that returned nil. -/
def Obs.cancels : Obs → Option Nat
  | .replied before cmd none =>
    if cmd.op = .cancelTurn ∧ before.phase ≠ .idle ∧ cmd.epoch = before.epoch then some cmd.epoch
    else none
  | _ => none

/-- A provider `Commit` that returned nil. -/
def Obs.commits : Obs → Option Nat
  | .called (.commit e) none => some e
  | _ => none

/-- A provider `SendAudio` or `Commit`, whatever it returned. -/
def Obs.uses : Obs → Option Nat
  | .called c _ => c.input
  | _ => none

def Obs.writes : Obs → Option Event
  | .wrote event => some event
  | _ => none

def Obs.rejects : Obs → Option Nat
  | .delivered before raw =>
    if before.phase.responding ∧ (validProviderEvent raw).isSome then some before.epoch else none
  | _ => none

def rejection (epoch : Nat) (err : Error) : Event := { epoch, raw := { type := .error, err := some err } }

/-- The events of epoch `e` on `Events()` that carry a response ID. -/
def written (trace : List Obs) (e : Nat) : List ConversationEvent :=
  trace.filterMap fun
    | .wrote event =>
      if event.epoch = e ∧ event.raw.responseID ≠ "" then some event.raw else none
    | _ => none

/-- The provider events with a response ID read while `e` waited for its response. -/
def delivered (trace : List Obs) (e : Nat) : List ConversationEvent :=
  trace.filterMap fun
    | .delivered before raw =>
      if before.phase.responding ∧ before.epoch = e ∧ raw.responseID ≠ "" then some raw else none
    | _ => none

/-- The events that share the ID of the first. -/
def ofFirstID : List ConversationEvent → List ConversationEvent
  | [] => []
  | raw :: rest => raw :: rest.filter fun other => other.responseID = raw.responseID

/-- The response of `e`, as the provider delivered it while `e` waited for it. -/
def response (trace : List Obs) (e : Nat) : List ConversationEvent :=
  ofFirstID (delivered trace e)

/-- The accepted event the actor still holds for epoch `e`, if it carries a response ID. -/
def held (s : ActorState) (e : Nat) : List ConversationEvent :=
  match s.pending with
  | some event => if event.epoch = e ∧ event.raw.responseID ≠ "" then [event.raw] else []
  | none => []

end BoomPI.Session
