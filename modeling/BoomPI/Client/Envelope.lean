import BoomPI.Client.Transport
import BoomPI.Wire.Control

/-!
# What the client parses

`ParseEnvelope` and the schema checks of `OnText`. cJSON is a parameter: the tree
it makes of a text is given as the JSON tree it stands for, whose strings are
read decoded.
-/

namespace BoomPI.Client

open Json (Text Value Tree)
open BoomPI.Client.Transport (Payload Outcome within)
open Wire (Field members byteLength isVisibleASCII maxControlMessageBytes responseIdKey textKey sampleRateKey
  reasonKey codeKey messageKey inputRateKey outputRateKey inputFrameKey)

-- ---------------------------------------------------------------------------
-- The text
-- ---------------------------------------------------------------------------

/-- `RejectEscapedNul` finds one. -/
def escapedNul : Bool → Text → Bool
  | _, [] => false
  | false, c :: rest => escapedNul (c = '"') rest
  | true, '"' :: rest => escapedNul false rest
  | true, '\\' :: 'u' :: a :: b :: c :: d :: rest =>
    (a = '0' ∧ b = '0' ∧ c = '0' ∧ d = '0') || escapedNul true rest
  | true, '\\' :: _ :: rest => escapedNul true rest
  | true, _ :: rest => escapedNul true rest

/-- `RejectNonIntegerNumberSyntax` finds one. -/
def nonIntegerNumber (inString escaped inNumber : Bool) : Text → Bool
  | [] => false
  | c :: rest =>
    if inString then
      if escaped then nonIntegerNumber true false inNumber rest
      else if c = '\\' then nonIntegerNumber true true inNumber rest
      else nonIntegerNumber (c ≠ '"') false inNumber rest
    else if c = '"' then nonIntegerNumber true false false rest
    else if c = '-' then true
    else if inNumber ∧ (c = '.' ∨ c = 'e' ∨ c = 'E') then true
    else nonIntegerNumber false false c.isDigit rest

-- ---------------------------------------------------------------------------
-- The tree
-- ---------------------------------------------------------------------------

def requireItem (object : Value) (name : Text) : Except String Value :=
  match (members object).lookup name with
  | none => .error "missing JSON field"
  | some item => .ok item

/-- The loop of `RequireExactObject`. -/
def exactFrom (names seen : List Text) : List (Text × Value) → Except String Unit
  | [] => if seen.length ≠ names.length then .error "missing JSON field" else .ok ()
  | (key, _) :: rest =>
    if key ∉ names then .error "unknown JSON field"
    else if key ∈ seen then .error "duplicate JSON object key"
    else exactFrom names (key :: seen) rest

def requireExactObject (object : Value) (names : List Text) : Except String Unit :=
  match object with
  | .group .object _ => exactFrom names [] (members object)
  | _ => .error "JSON value must be an object"

/-- `RequireString` up to the bounds. -/
def requireString (object : Value) (name : Text) : Except String String := do
  match ← requireItem object name with
  | .string items => .ok (String.ofList (Json.decode items))
  | _ => .error "JSON field must be a string"

def requireBounded (object : Value) (name : Text) (minBytes maxBytes : Nat) : Except String String := do
  let value ← requireString object name
  if within value minBytes maxBytes then .ok value else .error "JSON string is outside its byte limit"

/-- `RequireUint32`, of a number in integer syntax: its `double` is exact up to the limit,
and above the limit where the number is. -/
def requireUint32 (object : Value) (name : Text) : Except String UInt32 := do
  match ← requireItem object name with
  | .number n =>
    if n.val.all Char.isDigit ∧ Nat.ofDigitChars 10 n.val 0 < 2 ^ 32 then
      .ok (UInt32.ofNat (Nat.ofDigitChars 10 n.val 0))
    else .error "JSON field must be an unsigned 32-bit integer"
  | _ => .error "JSON field must be an unsigned 32-bit integer"

structure ParsedEnvelope where
  type : String
  deviceId : String
  ids : WireIds
  payload : Value

variable (cjson : Text → Option Value)

def parseEnvelope (json : Text) : Except String ParsedEnvelope :=
  if json = [] ∨ maxControlMessageBytes < byteLength json then .error "invalid text message"
  else if escapedNul false json then .error "escaped NUL is not allowed in JSON strings"
  else match cjson json with
  | none => .error "invalid JSON text"
  | some root =>
    if nonIntegerNumber false false false json then
      .error "JSON number must use unsigned integer syntax"
    else do
      requireExactObject root (Field.all.map Field.name)
      let version ← requireUint32 root Field.version.name
      if version ≠ 1 then .error "unsupported protocol version"
      else do
        let type ← requireBounded root Field.type.name 1 64
        if ¬ type.toList.all isVisibleASCII then .error "control type is not visible ASCII"
        else do
          let _ ← requireBounded root Field.messageID.name 1 64
          let deviceId ← requireBounded root Field.deviceID.name 1 64
          let session ← requireUint32 root Field.sessionID.name
          let turn ← requireUint32 root Field.turnID.name
          let stream ← requireUint32 root Field.streamID.name
          let epoch ← requireUint32 root Field.epoch.name
          let payload ← requireItem root Field.payload.name
          match payload with
          | .group .object _ => .ok { type, deviceId, ids := { session, turn, stream, epoch }, payload }
          | _ => .error "payload must be an object"

-- ---------------------------------------------------------------------------
-- The payload
-- ---------------------------------------------------------------------------

def ParsedEnvelope.names (e : ParsedEnvelope) : List Text :=
  if e.type = "hello.ack" then [inputRateKey, outputRateKey, inputFrameKey]
  else if e.type = "response.start" ∨ e.type = "response.done" then [responseIdKey]
  else if e.type = "response.cancelled" then [reasonKey]
  else if e.type = "error" then [codeKey, messageKey]
  else if e.type = "response.text_delta" then [responseIdKey, textKey]
  else [responseIdKey, sampleRateKey]

/-- What `OnText` reads of the payload of a type, the bounds apart. -/
def ParsedEnvelope.fields (e : ParsedEnvelope) : Except String Payload :=
  if e.type = "hello.ack" then do
    let input ← requireUint32 e.payload inputRateKey
    let output ← requireUint32 e.payload outputRateKey
    let frame ← requireUint32 e.payload inputFrameKey
    .ok (.helloAck input output frame)
  else if e.type = "response.start" then (requireString e.payload responseIdKey).map .responseStart
  else if e.type = "response.cancelled" then (requireString e.payload reasonKey).map .cancelled
  else if e.type = "error" then do
    let code ← requireString e.payload codeKey
    let message ← requireString e.payload messageKey
    .ok (.error code message)
  else if e.type = "response.text_delta" then do
    let responseId ← requireString e.payload responseIdKey
    let text ← requireString e.payload textKey
    .ok (.textDelta responseId text)
  else if e.type = "response.audio_start" then do
    let responseId ← requireString e.payload responseIdKey
    let rate ← requireUint32 e.payload sampleRateKey
    .ok (.audioStart responseId rate)
  else if e.type = "response.done" then (requireString e.payload responseIdKey).map .done
  else .ok .unsupported

section
variable {e : ParsedEnvelope}

theorem ParsedEnvelope.fields_start (h : e.type = "response.start") :
    e.fields = (requireString e.payload responseIdKey).map .responseStart := by
  simp [fields, h]

theorem ParsedEnvelope.fields_error (h : e.type = "error") :
    e.fields = (do
      let code ← requireString e.payload codeKey
      let message ← requireString e.payload messageKey
      .ok (.error code message)) := by
  simp [fields, h]

theorem ParsedEnvelope.fields_done (h : e.type = "response.done") :
    e.fields = (requireString e.payload responseIdKey).map .done := by
  simp [fields, h]

theorem ParsedEnvelope.fields_text (h : e.type = "response.text_delta") :
    e.fields = (do
      let responseId ← requireString e.payload responseIdKey
      let text ← requireString e.payload textKey
      .ok (.textDelta responseId text)) := by
  simp [fields, h]

theorem ParsedEnvelope.fields_audio (h : e.type = "response.audio_start") :
    e.fields = (do
      let responseId ← requireString e.payload responseIdKey
      let rate ← requireUint32 e.payload sampleRateKey
      .ok (.audioStart responseId rate)) := by
  simp [fields, h]

end

def ParsedEnvelope.known (e : ParsedEnvelope) : Bool :=
  e.type ∈ ["hello.ack", "response.start", "response.cancelled", "error", "response.text_delta",
    "response.audio_start", "response.done"]

/-- A message that is dropped before the fields of its payload are read; `exact` when the
members are the right ones. -/
def Transport.ignores (s : Transport) (e : ParsedEnvelope) (exact : Bool) : Bool :=
  if e.type = "hello.ack" ∨ e.type = "response.cancelled" then false
  else if e.type = "response.start" ∨ e.type = "error" then exact && s.isStale e.ids
  else s.isStale e.ids ||
    (exact && s.active && s.response.valid && e.ids = s.response && s.discarding e.ids &&
      (e.type = "response.text_delta" ∨ e.type = "response.audio_start"))

/-- `OnText` -/
def Transport.onJson (s : Transport) (json : Text) : Transport × Outcome :=
  match parseEnvelope cjson json with
  | .error why => (s, .protocolError why)
  | .ok e =>
    if e.deviceId ≠ s.deviceId then (s, .protocolError "wrong device identity")
    else
      match if e.known then requireExactObject e.payload e.names else .ok () with
      | .error why => (s, if s.ignores e false then .dropped else .protocolError why)
      | .ok () =>
        match e.fields with
        | .error why => (s, if s.ignores e true then .dropped else .protocolError why)
        | .ok payload => s.onText { deviceId := e.deviceId, ids := e.ids, payload }

/-- A text message, as `OnText` gets its bytes. -/
def Transport.onTextBytes (s : Transport) (data : List UInt8) : Transport × Outcome :=
  match Utf8.decode data with
  | none => (s, .protocolError "invalid text message")
  | some json => s.onJson cjson json

end BoomPI.Client
