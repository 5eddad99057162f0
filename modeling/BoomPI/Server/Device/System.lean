import BoomPI.Lts
import BoomPI.Server.Device.Forward
import BoomPI.Server.Device.Handle

/-!
# One device session

The reader, the forwarder, the two pumps of the connection, the actor and the
peer, interleaved one atomic action at a time.
-/

namespace BoomPI.Device

open Backend (Error)
open Protocol
open Session (Event)

structure Sys where
  conn : Conn
  handle : HandleAt := .receive
  forward : ForwardAt := .top
  pacer : PacedDownlink := {}
  deriving DecidableEq, Repr

inductive Label
  | peer (message : Message)   -- the peer sends a message
  | readPump
  | writePump
  | tick (elapsed : Nat)
  | emit (event : Event)       -- the actor writes `Events()`
  | closeEvents
  | disconnect                 -- the connection is cancelled
  | idle                       -- `watchDeviceSessionIdle` stops the worker
  | handle (l : HandleLabel)
  | forward (l : ForwardLabel)
  deriving DecidableEq, Repr

/-- The reader's last act: `Handle` returns and stops the worker. -/
def HandleAt.stops : HandleAt → Bool
  | .exited _ => true
  | _ => false

def ForwardAt.stops : ForwardAt → Bool
  | .exited _ => true
  | _ => false

def Conn.stopWorker (c : Conn) (stops : Bool) : Conn :=
  { c with workerDone := c.workerDone || stops }

def step (s : Sys) : Label → Option Sys
  | .peer message =>
    if message.decoded then
      some { s with conn := { s.conn with inbox := { s.conn.inbox with
        wire := s.conn.inbox.wire ++ [message] } } }
    else none
  | .readPump =>
    if s.conn.closed then none
    else s.conn.inbox.readPump.map fun (inbox, cancels) =>
      { s with conn := { s.conn with inbox, closed := cancels } }
  | .writePump =>
    if s.conn.written < s.conn.sent.length then
      some { s with conn := { s.conn with written := s.conn.written + 1 } }
    else none
  | .tick elapsed => some { s with conn := { s.conn with now := s.conn.now + elapsed } }
  | .emit event =>
    if s.conn.actor.eventsClosed ∨ Session.eventCapacity ≤ s.conn.actor.events.length then none
    else some { s with conn := { s.conn with actor := { s.conn.actor with
      events := s.conn.actor.events ++ [event], emitted := s.conn.actor.emitted ++ [event] } } }
  | .closeEvents =>
    some { s with conn := { s.conn with actor := { s.conn.actor with eventsClosed := true } } }
  | .disconnect => some { s with conn := { s.conn with closed := true } }
  | .idle => some { s with conn := s.conn.stopWorker true }
  | .handle l => (handleStep s.conn s.handle l).map fun (conn, handle) =>
    { s with conn := conn.stopWorker handle.stops, handle }
  | .forward l => (forwardStep s.conn s.pacer s.forward l).map fun (conn, pacer, forward) =>
    { s with conn := conn.stopWorker forward.stops, pacer, forward }

/-- A session begins when `hello` has been answered. -/
def machine : Lts.Machine Sys Label where
  Init s := ∃ deviceID deviceUUID sessionID,
    deviceUUID.length = 16 ∧ deviceUUID ≠ nilUUID ∧ sessionID ≠ 0 ∧ sessionID < 2 ^ 32 ∧
      s = { conn := opened deviceID deviceUUID sessionID }
  step := step

-- ---------------------------------------------------------------------------
-- Runs of one device, for witnesses and counterexamples
-- ---------------------------------------------------------------------------

def deviceName : String := "00000000-0000-4000-8000-000000000001"
def deviceBytes : List UInt8 := [0, 0, 0, 0, 0, 0, 64, 0, 128, 0, 0, 0, 0, 0, 0, 1]

def session : Sys := { conn := opened deviceName deviceBytes 5 }

theorem session_init : machine.Init session :=
  ⟨deviceName, deviceBytes, 5, rfl, by decide, by decide, by decide, rfl⟩

/-- A control message of turn `n`: its turn, stream and epoch are all `n`. -/
def controlMessage (type : ControlType) (n : Nat) (payload : List (String × Json) := []) : Message :=
  .control {
    type, deviceID := deviceName, sessionID := 5, turnID := n, streamID := n, epoch := n, payload }

def startMessage (n : Nat) : Message :=
  controlMessage .turnStart n [("sample_rate_hz", .integer 16000)]

def pcmMessage (n flags sequence : Nat) : Message :=
  .pcm {
    kind := AudioKindUplink, flags, sampleRateHz := 16000, payloadLen := inputFrameBytes, sequence
    epoch := n, deviceUUID := deviceBytes, sessionID := 5, turnID := n, streamID := n }
    (List.replicate inputFrameBytes 0)

def receives (message : Message) : List Label :=
  [.peer message, .readPump, .handle .next, .handle .message, .handle .next, .handle .next]

def queues : List Label := [.handle (.send .offer), .handle (.send .put)]

def takes (event : Event) : List Label :=
  [.emit event, .forward .next, .forward .next, .forward .event, .forward .next]

def offers : List Label := [.forward .next, .forward (.send .offer)]

/-- turn.start, one PCM frame with START and END, turn.commit. -/
def speaks (n : Nat) : List Label :=
  List.flatten [receives (startMessage n),
    [.handle (.random 9), .handle (.returns none), .handle .next, .handle .next],
    receives (pcmMessage n 3 0), [.handle (.returns none), .handle .next],
    receives (controlMessage .turnCommit n),
    [.handle .next, .handle .next, .handle (.returns none)]]

def cancels (n : Nat) : List Label :=
  List.flatten [receives (controlMessage .turnCancel n), [.handle .next, .handle (.returns none)]]

def responseStarted (n : Nat) : Event :=
  { epoch := n, raw := { type := .started, responseID := "r" } }

end BoomPI.Device
