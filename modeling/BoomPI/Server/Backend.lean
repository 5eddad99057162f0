import Mathlib.Algebra.Order.Ring.Nat
import BoomPI.GoString

/-!
# The provider interface

`backend.go`: the provider-neutral events of a response, and what a
conversation session offers its one caller, the session actor.
-/

namespace BoomPI.Backend

/-- Go error values, as far as the code distinguishes them: package-level
values compared with `errors.Is`, fresh `errors.New` texts, wrapped causes and
the error of a finished context. -/
inductive Error
  | sentinel (name : String)
  | text (message : String)
  | wrap (message : String) (cause : Error)
  | context
  deriving DecidableEq, Repr

/-- `errors.Is` for a package-level value. -/
def Error.is : Error → Error → Bool
  | .wrap message cause, target => .wrap message cause = target ∨ cause.is target
  | e, target => e = target

/-- `backend.EventType`; `unknown` is `EventUnknown` and every undeclared value. -/
inductive EventType
  | unknown (code : Nat)
  | started
  | textDelta
  | audio
  | done
  | error
  deriving DecidableEq, Repr

/-- `backend.ConversationEvent`. `origin` is a ghost: the epoch whose `Commit`
created the response the event belongs to. No function of the model reads it. -/
structure ConversationEvent where
  type : EventType
  responseID : GoString := ""
  text : GoString := ""
  pcm : List UInt8 := []
  sampleRateHz : Int := 0
  err : Option Error := none
  origin : Nat := 0
  deriving DecidableEq, Repr

def EventType.code : EventType → Nat
  | .unknown code => code
  | .started => 1
  | .textDelta => 2
  | .audio => 3
  | .done => 4
  | .error => 5

/-- `EventDone` and `EventError` end a response. -/
def EventType.terminal : EventType → Bool
  | .done | .error => true
  | _ => false

/-- The calls the actor makes on its session. The epoch is a ghost: the turn on
whose behalf the actor calls. `drain` is the non-blocking emptying of `Events()`. -/
inductive Call
  | sendAudio (epoch : Nat) (pcm : List UInt8)
  | commit (epoch : Nat)
  | cancel (epoch : Nat)
  | discardLastResponse (epoch : Nat)
  | drain
  deriving DecidableEq, Repr

/-- The epoch whose input a call carries to the provider. -/
def Call.input : Call → Option Nat
  | .sendAudio e _ | .commit e => some e
  | _ => none

/-- A `ConversationSession`: `π` is its state, `κ` what its goroutines and the
remote service may do. `events` is the content of its `Events()` channel. -/
structure Session (π κ : Type) where
  /-- whether it implements `CompletedResponseDiscarder` -/
  discarder : Bool
  /-- what a call does before it first blocks -/
  enter : Call → π → π
  /-- the call returns this error, if it can -/
  call : Call → Option Error → π → List ConversationEvent → Option (π × List ConversationEvent)
  /-- a step of the session's own goroutines -/
  step : κ → π → List ConversationEvent → Option (π × List ConversationEvent)

structure Outcomes where
  sendAudio : Option Error := none
  commit : Option Error := none
  cancel : Option Error := none
  discardLastResponse : Option Error := none
  deriving DecidableEq, Repr

def Outcomes.of (out : Outcomes) : Call → Option Error
  | .sendAudio .. => out.sendAudio
  | .commit _ => out.commit
  | .cancel _ => out.cancel
  | .discardLastResponse _ => out.discardLastResponse
  | .drain => none

def Session.perform (P : Session π κ) (out : Outcomes) :
    List Call → π → List ConversationEvent → Option (π × List ConversationEvent)
  | [], p, events => some (p, events)
  | c :: cs, p, events => do
    let (p, events) ← P.call c (out.of c) p events
    P.perform out cs p events

end BoomPI.Backend
