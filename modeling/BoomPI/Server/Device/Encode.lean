import BoomPI.Server.Device.State
import BoomPI.Wire.Control

/-!
# The bytes of a reply

`sendControl` and `SendControl`: the payload and the envelope of each control
message the handler sends, encoded. `json.Marshal` writes the keys of a map in
their order.
-/

namespace BoomPI.Device

open Backend (Error)
open Protocol
open Json (Text Item)
open Wire (objectText escapeRune sampleRateKey inputRateKey outputRateKey inputFrameKey responseIdKey textKey
  reasonKey codeKey messageKey)

def bodyType : Body → Text
  | .helloAck => ['h', 'e', 'l', 'l', 'o', '.', 'a', 'c', 'k']
  | .responseStart _ => ['r', 'e', 's', 'p', 'o', 'n', 's', 'e', '.', 's', 't', 'a', 'r', 't']
  | .textDelta .. =>
    ['r', 'e', 's', 'p', 'o', 'n', 's', 'e', '.', 't', 'e', 'x', 't', '_', 'd', 'e', 'l', 't', 'a']
  | .audioStart .. =>
    ['r', 'e', 's', 'p', 'o', 'n', 's', 'e', '.', 'a', 'u', 'd', 'i', 'o', '_', 's', 't', 'a', 'r', 't']
  | .responseDone _ => ['r', 'e', 's', 'p', 'o', 'n', 's', 'e', '.', 'd', 'o', 'n', 'e']
  | .cancelled _ =>
    ['r', 'e', 's', 'p', 'o', 'n', 's', 'e', '.', 'c', 'a', 'n', 'c', 'e', 'l', 'l', 'e', 'd']
  | .error .. => ['e', 'r', 'r', 'o', 'r']

def decimal : Int → Text
  | .ofNat n => Nat.toDigits 10 n
  | .negSucc n => '-' :: Nat.toDigits 10 (n + 1)

/-- `appendString`, a rune of it: a byte that is no UTF-8 is written as U+FFFD. -/
def escape : Option Char → Item
  | some c => escapeRune c
  | none => .ofUnit 0xfffd

def quoteString (s : GoString) : Text := Json.quoted ((Utf8.runes s.bytes).map escape)

/-- `json.Marshal` of the payload. -/
def bodyPayload : Body → Text
  | .helloAck =>
    objectText [(inputFrameKey, decimal 20), (inputRateKey, decimal 16000), (outputRateKey, decimal 24000)]
  | .responseStart responseID | .responseDone responseID =>
    objectText [(responseIdKey, quoteString responseID)]
  | .textDelta responseID text =>
    objectText [(responseIdKey, quoteString responseID), (textKey, quoteString text)]
  | .audioStart responseID sampleRateHz =>
    objectText [(responseIdKey, quoteString responseID), (sampleRateKey, decimal sampleRateHz)]
  | .cancelled reason => objectText [(reasonKey, quoteString reason)]
  | .error code message _ => objectText [(codeKey, quoteString code), (messageKey, quoteString message)]

/-- `fmt.Sprintf("server-%d", messageID)`, of a `uint64`. -/
def messageName (messageID : Nat) : Text :=
  ['s', 'e', 'r', 'v', 'e', 'r', '-'] ++ Nat.toDigits 10 (messageID % 2 ^ 64)

def replyEnvelope (r : Reply) : Wire.ControlEnvelope where
  version := 1
  type := bodyType r.body
  messageID := messageName r.messageID
  deviceID := r.deviceID.toList
  sessionID := .ofNat r.sessionID
  turnID := .ofNat r.turnID
  streamID := .ofNat r.streamID
  epoch := .ofNat r.epoch
  payload := bodyPayload r.body

/-- `sendControl`, up to `enqueue`. -/
def encodeReply (r : Reply) : Except Error (List UInt8) :=
  (Wire.encodeControl (replyEnvelope r)).mapError (.wrap "encode outbound control message")

end BoomPI.Device
