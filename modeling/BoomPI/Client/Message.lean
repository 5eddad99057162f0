import BoomPI.Client.Transport
import BoomPI.Wire.Control

/-!
# The client's control messages

The text `Send` puts together for a control it has admitted.
-/

namespace BoomPI.Client

open Json (Text Item isPlain)
open Wire (Field literal objectText deviceTokenKey sampleRateKey)

/-- `Quote`, a character of it; the bytes of one that is no ASCII are from 0x80 on. -/
def quoteByte (c : Char) : Item :=
  if c = '"' then .escape .quote
  else if c = '\\' then .escape .backslash
  else if h : isPlain c = true then .plain c h
  else .ofUnit c.toNat

def quote (value : String) : Text := Json.quoted (value.toList.map quoteByte)

def ControlKind.type : ControlKind → Text
  | .hello => ['h', 'e', 'l', 'l', 'o']
  | .turnStart => ['t', 'u', 'r', 'n', '.', 's', 't', 'a', 'r', 't']
  | .turnCommit => ['t', 'u', 'r', 'n', '.', 'c', 'o', 'm', 'm', 'i', 't']
  | .turnCancel => ['t', 'u', 'r', 'n', '.', 'c', 'a', 'n', 'c', 'e', 'l']
  | .responseCancel => ['r', 'e', 's', 'p', 'o', 'n', 's', 'e', '.', 'c', 'a', 'n', 'c', 'e', 'l']

def Control.payload (c : Control) : Text :=
  match c.kind with
  | .hello => objectText [(deviceTokenKey, quote c.deviceToken)]
  | .turnStart => objectText [(sampleRateKey, ['1', '6', '0', '0', '0'])]
  | .turnCommit | .turnCancel | .responseCancel => objectText []

/-- What `Send` sends. -/
def Transport.json (s : Transport) (c : Control) : Text :=
  objectText [
    (Field.version.name, ['1']),
    (Field.type.name, literal c.kind.type),
    (Field.messageID.name, quote c.messageId),
    (Field.deviceID.name, quote s.deviceId),
    (Field.sessionID.name, Nat.toDigits 10 c.ids.session.toNat),
    (Field.turnID.name, Nat.toDigits 10 c.ids.turn.toNat),
    (Field.streamID.name, Nat.toDigits 10 c.ids.stream.toNat),
    (Field.epoch.name, Nat.toDigits 10 c.ids.epoch.toNat),
    (Field.payload.name, c.payload)]

def Transport.envelope (s : Transport) (c : Control) : Wire.ControlEnvelope where
  version := 1
  type := c.kind.type
  messageID := c.messageId.toList
  deviceID := s.deviceId.toList
  sessionID := c.ids.session
  turnID := c.ids.turn
  streamID := c.ids.stream
  epoch := c.ids.epoch
  payload := c.payload

variable {s : Transport} {c : Control} {capacity : QueueCapacity}

theorem quoteByte_writes (c : Char) : (quoteByte c).Writes c := by
  unfold quoteByte
  split
  · rename_i h
    exact h ▸ Json.escape_writes .quote
  split
  · rename_i h
    exact h ▸ Json.escape_writes .backslash
  split
  · rename_i h
    exact Json.plain_writes h
  · rename_i hquote hslash hplain
    refine Json.ofUnit_writes ?_
    simp only [isPlain, Bool.and_eq_true, decide_eq_true_eq] at hplain
    by_contra hc
    exact hplain ⟨⟨hquote, hslash⟩, by omega⟩

theorem send_admits (h : (s.send c capacity).2.1 = true) : s.admits c = some true := by
  unfold Transport.send at h
  split at h
  · cases h
  · cases h
  · assumption

theorem admits_messageId (h : s.admits c = some true) :
    1 ≤ c.messageId.utf8ByteSize ∧ c.messageId.utf8ByteSize ≤ 64 := by
  unfold Transport.admits at h
  split at h
  · cases h
  · omega

theorem admits_hello (hk : c.kind = .hello) (h : s.admits c = some true) :
    isValidDeviceToken c.deviceToken = true := by
  unfold Transport.admits at h
  split at h
  · cases h
  · simp only [hk] at h
    split at h
    · cases h
    · rename_i hids
      by_contra htoken
      exact hids (.inr (.inr (.inr (.inr htoken))))

end BoomPI.Client
