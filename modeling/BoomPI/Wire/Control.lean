import BoomPI.GoText
import BoomPI.Json.Parse
import BoomPI.Json.Spell
import BoomPI.Wire.DeviceId

/-!
# Control messages

`protocol/control.go`: `DecodeControl` reads the same bytes four times, walking
the tokens for duplicate keys, into a map of raw members, the numbers of that
map, and into the struct. `EncodeControl` is `encoding/json`'s writer. Strings are
texts; Go's are their UTF-8.
-/

namespace BoomPI.Wire

open Backend (Error)
open GoText (trimSpace)
open Json (Text Value Tree Item Document isSpace isPlain)

def maxControlMessageBytes : Nat := 64 * 1024

/-- `encoding/json` reads no deeper. -/
def maxNestingDepth : Nat := 10000

def ErrSyntax : Error := .sentinel "json: invalid text"
def ErrDepth : Error := .sentinel "json: exceeded max depth"
def ErrType : Error := .sentinel "json: cannot unmarshal"

structure ControlEnvelope where
  version : UInt8 := 0
  type : Text := []
  messageID : Text := []
  deviceID : Text := []
  sessionID : UInt32 := 0
  turnID : UInt32 := 0
  streamID : UInt32 := 0
  epoch : UInt32 := 0
  payload : Text := []
  deriving DecidableEq, Repr

inductive Field
  | version
  | type
  | messageID
  | deviceID
  | sessionID
  | turnID
  | streamID
  | epoch
  | payload
  deriving DecidableEq, Repr

def Field.name : Field → Text
  | .version => ['v', 'e', 'r', 's', 'i', 'o', 'n']
  | .type => ['t', 'y', 'p', 'e']
  | .messageID => ['m', 'e', 's', 's', 'a', 'g', 'e', '_', 'i', 'd']
  | .deviceID => ['d', 'e', 'v', 'i', 'c', 'e', '_', 'i', 'd']
  | .sessionID => ['s', 'e', 's', 's', 'i', 'o', 'n', '_', 'i', 'd']
  | .turnID => ['t', 'u', 'r', 'n', '_', 'i', 'd']
  | .streamID => ['s', 't', 'r', 'e', 'a', 'm', '_', 'i', 'd']
  | .epoch => ['e', 'p', 'o', 'c', 'h']
  | .payload => ['p', 'a', 'y', 'l', 'o', 'a', 'd']

def Field.all : List Field :=
  [.version, .type, .messageID, .deviceID, .sessionID, .turnID, .streamID, .epoch, .payload]

def Field.numeric : List Field := [.version, .sessionID, .turnID, .streamID, .epoch]

/-- `%q`, of a text that needs no escape. -/
def quoteName (name : Text) : String := String.ofList ('"' :: (name ++ ['"']))

/-- `len` of a Go string. -/
def byteLength (s : Text) : Nat := (Utf8.encode s).length

-- ---------------------------------------------------------------------------
-- Strings
-- ---------------------------------------------------------------------------

def isVisibleASCII (c : Char) : Bool := 0x21 ≤ c.toNat && c.toNat ≤ 0x7e

/-- It ranges over bytes; those of a character that is no ASCII are from 0x80 on. -/
def validASCIIField (value : Text) (maxBytes : Nat) : Bool :=
  value ≠ [] ∧ byteLength value ≤ maxBytes ∧ value.all isVisibleASCII

/-- `strconv.ParseUint(value, 10, bits)` -/
def parseUint (value : Text) (bits : Nat) : Option Nat :=
  if value ≠ [] ∧ value.all Char.isDigit ∧ Nat.ofDigitChars 10 value 0 < 2 ^ bits then
    some (Nat.ofDigitChars 10 value 0)
  else none

def decodeJSONUint32 (raw : Text) : Except Error Nat :=
  let value := trimSpace raw
  if value = [] then .error (.text "must be a JSON unsigned integer")
  else if ¬ value.all Char.isDigit then .error (.text "must be a JSON unsigned integer")
  else match parseUint value 32 with
  | none => .error (.text "must be within the uint32 range")
  | some parsed => .ok parsed

-- ---------------------------------------------------------------------------
-- Duplicate keys
-- ---------------------------------------------------------------------------

/-- `walkJSONValue`; `seen` are the keys of the object it is in. -/
def walkJSONValue {c : Json.Cat} : Tree c → List Text → Except Error Unit
  | .group _ body, _ => walkJSONValue body []
  | .last kind _ label _ value _, seen =>
    match label.key kind with
    | some key =>
      if key ∈ seen then .error (.text ("duplicate object key " ++ quoteName key))
      else walkJSONValue value []
    | none => walkJSONValue value []
  | .more kind _ label _ value _ rest, seen =>
    match label.key kind with
    | some key =>
      if key ∈ seen then .error (.text ("duplicate object key " ++ quoteName key))
      else do
        walkJSONValue value []
        walkJSONValue rest (key :: seen)
    | none => do
      walkJSONValue value []
      walkJSONValue rest seen
  | _, _ => .ok ()

/-- `ensureJSONEOF` behind the first value; a text that is no JSON fails before. -/
def ensureJSONEOF (rest : Text) : Except Error Unit :=
  if rest.all isSpace then .ok ()
  else match Json.parse rest.length .value (Json.space rest).2 with
  | none => .error (.wrap "decode trailing JSON" ErrSyntax)
  | some _ => .error (.text "control message contains multiple JSON values")

def rejectDuplicateJSONKeys (data : Text) : Except Error Unit :=
  match Json.parse data.length .value (Json.space data).2 with
  | none => .error (.wrap "validate JSON object keys" ErrSyntax)
  | some (value, rest) =>
    match walkJSONValue value [] with
    | .error err => .error (.wrap "validate JSON object keys" err)
    | .ok () => ensureJSONEOF rest

-- ---------------------------------------------------------------------------
-- encoding/json
-- ---------------------------------------------------------------------------

def members : Value → List (Text × Value)
  | .group .object body => body.entries.filterMap fun (key, value) => key.map (·, value)
  | _ => []

/-- A text `encoding/json` reads. -/
def readJSON (text : Text) : Except Error Document :=
  match Json.document text with
  | none => .error ErrSyntax
  | some d => if d.value.depth ≤ maxNestingDepth then .ok d else .error ErrDepth

/-- `json.Valid` -/
def jsonValid (text : Text) : Bool := match readJSON text with
  | .ok _ => true
  | .error _ => false

/-- `json.Unmarshal` into a `map[string]json.RawMessage`; a raw message is the text of a value. -/
def unmarshalFields (d : Document) : Except Error (List (Text × Text)) :=
  match d.value with
  | .group .object _ => .ok ((members d.value).map fun (key, value) => (key, value.text))
  | .word .null => .ok []
  | _ => .error ErrType

/-- Upper and lower case, and the two other characters that fold to an ASCII letter. -/
def foldRune (c : Char) : Char :=
  if 'A' ≤ c ∧ c ≤ 'Z' then Char.ofNat (c.toNat + 32)
  else if c.toNat = 0x17f then 's'
  else if c.toNat = 0x212a then 'k'
  else c

/-- The field a member goes into: of its name, or of its name in another case. -/
def fieldOf (key : Text) : Option Field :=
  (Field.all.find? fun f => f.name = key) <|> Field.all.find? fun f => f.name = key.map foldRune

/-- A value for an unsigned integer; `null` leaves it as it is. -/
def unmarshalUint (bits : Nat) : Value → Except Error (Option Nat)
  | .word .null => .ok none
  | .number n =>
    match parseUint n.val bits with
    | some parsed => .ok (some parsed)
    | none => .error ErrType
  | _ => .error ErrType

def unmarshalString : Value → Except Error (Option Text)
  | .word .null => .ok none
  | .string items => .ok (some (Json.decode items))
  | _ => .error ErrType

def unmarshalField (e : ControlEnvelope) (f : Field) (value : Value) : Except Error ControlEnvelope :=
  match f with
  | .version => (unmarshalUint 8 value).map fun n => { e with version := (n.map UInt8.ofNat).getD e.version }
  | .type => (unmarshalString value).map fun s => { e with type := s.getD e.type }
  | .messageID => (unmarshalString value).map fun s => { e with messageID := s.getD e.messageID }
  | .deviceID => (unmarshalString value).map fun s => { e with deviceID := s.getD e.deviceID }
  | .sessionID =>
    (unmarshalUint 32 value).map fun n => { e with sessionID := (n.map UInt32.ofNat).getD e.sessionID }
  | .turnID => (unmarshalUint 32 value).map fun n => { e with turnID := (n.map UInt32.ofNat).getD e.turnID }
  | .streamID =>
    (unmarshalUint 32 value).map fun n => { e with streamID := (n.map UInt32.ofNat).getD e.streamID }
  | .epoch => (unmarshalUint 32 value).map fun n => { e with epoch := (n.map UInt32.ofNat).getD e.epoch }
  | .payload => .ok { e with payload := value.text }

def unmarshalMember (e : ControlEnvelope) (member : Text × Value) : Except Error ControlEnvelope :=
  match fieldOf member.1 with
  | none => .error (.text ("json: unknown field " ++ quoteName member.1))
  | some f => unmarshalField e f member.2

/-- `decoder.Decode` with `DisallowUnknownFields`: the last member of a field wins. -/
def unmarshalEnvelope (d : Document) : Except Error ControlEnvelope :=
  (members d.value).foldlM unmarshalMember {}

-- ---------------------------------------------------------------------------
-- Envelopes
-- ---------------------------------------------------------------------------

/-- `bytes.TrimSpace` and the checks of `Validate` on what is left. -/
def validatePayload (payload : Text) : Option Error :=
  let payload := trimSpace payload
  if payload.length < 2 ∨ payload.head? ≠ some '{' ∨ payload.getLast? ≠ some '}' ∨ ¬ jsonValid payload then
    some (.text "payload must be a valid JSON object")
  else match rejectDuplicateJSONKeys payload with
  | .error err => some (.wrap "payload" err)
  | .ok () => none

def ControlEnvelope.validate (e : ControlEnvelope) : Option Error :=
  if e.version.toNat ≠ Protocol.Version then
    some (.text ("unsupported protocol version " ++ toString e.version.toNat))
  else if ¬ validASCIIField e.type 64 then some (.text "control type must contain 1..64 ASCII bytes")
  else if trimSpace e.messageID = [] ∨ 64 < byteLength e.messageID then
    some (.text "message_id must contain 1..64 bytes")
  else match parseDeviceUUID (Utf8.encode e.deviceID) with
  | .error err => some (.wrap "device_id" err)
  | .ok _ => validatePayload e.payload

def ControlEnvelope.number (e : ControlEnvelope) : Field → Nat
  | .version => e.version.toNat
  | .sessionID => e.sessionID.toNat
  | .turnID => e.turnID.toNat
  | .streamID => e.streamID.toNat
  | .epoch => e.epoch.toNat
  | _ => 0

def requireFields (fields : List (Text × Text)) : Except Error Unit :=
  match Field.all.find? fun f => (fields.lookup f.name).isNone with
  | some f => .error (.text ("control envelope is missing field " ++ quoteName f.name))
  | none => .ok ()

def numericFields (fields : List (Text × Text)) : Except Error (List (Field × Nat)) :=
  Field.numeric.mapM fun f =>
    match decodeJSONUint32 ((fields.lookup f.name).getD []) with
    | .error err => .error (.wrap ("control field " ++ quoteName f.name) err)
    | .ok value => .ok (f, value)

/-- `DecodeControl`, past the checks of the bytes. -/
def decodeControlText (text : Text) : Except Error ControlEnvelope := do
  rejectDuplicateJSONKeys text
  let d ← (readJSON text).mapError (.wrap "decode control fields")
  let fields ← (unmarshalFields d).mapError (.wrap "decode control fields")
  requireFields fields
  let numbers ← numericFields fields
  let envelope ← (unmarshalEnvelope d).mapError (.wrap "decode control envelope")
  if ¬ numbers.all fun (f, n) => n = envelope.number f then
    .error (.text "decoded control numeric fields are inconsistent")
  else match envelope.validate with
  | some err => .error err
  | none => .ok envelope

def decodeControl (data : List UInt8) : Except Error ControlEnvelope :=
  if data.length = 0 ∨ maxControlMessageBytes < data.length then
    .error (.text "control message length is outside the allowed range")
  else match Utf8.decode data with
  | none => .error (.text "control message is not valid UTF-8")
  | some text => decodeControlText text

-- ---------------------------------------------------------------------------
-- Encoding
-- ---------------------------------------------------------------------------

/-- What `encoding/json` writes without an escape where HTML is escaped. -/
def htmlSafe (c : Char) : Bool :=
  c ≠ '<' && c ≠ '>' && c ≠ '&' && c.toNat ≠ 0x2028 && c.toNat ≠ 0x2029

/-- `appendString`, a character of it. -/
def escapeRune (c : Char) : Item :=
  if h : isPlain c = true ∧ htmlSafe c = true then .plain c h.1
  else if c = '"' then .escape .quote
  else if c = '\\' then .escape .backslash
  else if c.toNat = 0x08 then .escape .b
  else if c.toNat = 0x0c then .escape .f
  else if c = '\n' then .escape .n
  else if c = '\r' then .escape .r
  else if c = '\t' then .escape .t
  else .ofUnit c.toNat

def appendString (s : Text) : Text := Json.quoted (s.map escapeRune)

/-- `appendCompact`, in a string. -/
def escapeHTML : Item → Item
  | .plain c h => if htmlSafe c then .plain c h else .ofUnit c.toNat
  | i => i

/-- `appendCompact`: a raw message without whitespace. -/
def appendCompact (raw : Text) : Except Error Text :=
  (readJSON raw).map fun d => (d.value.respell escapeHTML).text

def literal (s : Text) : Text := '"' :: (s ++ ['"'])

def objectText (ms : List (Text × Text)) : Text :=
  '{' :: (((ms.map fun (key, value) => literal key ++ ':' :: value).intersperse [',']).flatten ++ ['}'])

/-- How `json.Marshal` writes the fields; the payload is compact already. -/
def ControlEnvelope.fieldText (e : ControlEnvelope) (payload : Text) : Field → Text
  | .version => Nat.toDigits 10 e.version.toNat
  | .type => appendString e.type
  | .messageID => appendString e.messageID
  | .deviceID => appendString e.deviceID
  | .sessionID => Nat.toDigits 10 e.sessionID.toNat
  | .turnID => Nat.toDigits 10 e.turnID.toNat
  | .streamID => Nat.toDigits 10 e.streamID.toNat
  | .epoch => Nat.toDigits 10 e.epoch.toNat
  | .payload => payload

/-- `json.Marshal` -/
def ControlEnvelope.marshal (e : ControlEnvelope) : Except Error Text :=
  ((appendCompact e.payload).mapError (.wrap "json: error calling MarshalJSON for type json.RawMessage")).map
    fun payload => objectText (Field.all.map fun f => (f.name, e.fieldText payload f))

def encodeControl (e : ControlEnvelope) : Except Error (List UInt8) :=
  match e.validate with
  | some err => .error err
  | none =>
    match e.marshal with
    | .error err => .error (.wrap "encode control envelope" err)
    | .ok encoded =>
      if maxControlMessageBytes < byteLength encoded then
        .error (.text "encoded control message exceeds the maximum size")
      else .ok (Utf8.encode encoded)

-- ---------------------------------------------------------------------------
-- Payloads
-- ---------------------------------------------------------------------------

def deviceTokenKey : Text := ['d', 'e', 'v', 'i', 'c', 'e', '_', 't', 'o', 'k', 'e', 'n']
def sampleRateKey : Text := ['s', 'a', 'm', 'p', 'l', 'e', '_', 'r', 'a', 't', 'e', '_', 'h', 'z']
def inputRateKey : Text := ['i', 'n', 'p', 'u', 't', '_'] ++ sampleRateKey
def outputRateKey : Text := ['o', 'u', 't', 'p', 'u', 't', '_'] ++ sampleRateKey
def inputFrameKey : Text := ['i', 'n', 'p', 'u', 't', '_', 'f', 'r', 'a', 'm', 'e', '_', 'm', 's']
def responseIdKey : Text := ['r', 'e', 's', 'p', 'o', 'n', 's', 'e', '_', 'i', 'd']
def textKey : Text := ['t', 'e', 'x', 't']
def reasonKey : Text := ['r', 'e', 'a', 's', 'o', 'n']
def codeKey : Text := ['c', 'o', 'd', 'e']
def messageKey : Text := ['m', 'e', 's', 's', 'a', 'g', 'e']

-- ---------------------------------------------------------------------------
-- The token of a hello
-- ---------------------------------------------------------------------------

/-- `parseHelloDeviceToken`: the payload has this member alone, a string that is not empty. -/
def parseHelloDeviceToken (payload : Text) : Except Error Text :=
  match (Json.document payload).map (members ·.value) with
  | some [(key, .string items)] =>
    if key = deviceTokenKey ∧ Json.decode items ≠ [] then .ok (Json.decode items)
    else .error (.sentinel "device authentication failed")
  | _ => .error (.sentinel "device authentication failed")

end BoomPI.Wire
