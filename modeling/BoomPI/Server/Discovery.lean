import BoomPI.Base64
import BoomPI.Scan

/-!
# The discovery responder

`discovery/config.go` and `discovery/responder.go`: one fixed request, answered with the
port of the server and the pin of its key. `net.ParseIP` is a parameter; the socket is
the caller's.
-/

namespace BoomPI.Discovery

open Base64 (Sextet digit pad sextets encode)

-- ---------------------------------------------------------------------------
-- The configuration
-- ---------------------------------------------------------------------------

structure Config where
  bindAddress : String
  udpPort : Int
  wssPort : Int
  deriving DecidableEq, Repr

variable (parseIP : String → Bool)

/-- `Validate`: the text of the error. -/
def Config.validate (c : Config) : Option String :=
  if ¬ parseIP c.bindAddress then some "discovery bind address must be an IP address"
  else if c.udpPort < 1 ∨ 65535 < c.udpPort ∨ c.wssPort < 1 ∨ 65535 < c.wssPort then
    some "discovery ports must be between 1 and 65535"
  else if c.udpPort = c.wssPort then some "discovery UDP and WSS ports must differ"
  else none

-- ---------------------------------------------------------------------------
-- The responder
-- ---------------------------------------------------------------------------

/-- Groups of four digits, the last one with one or two padding characters or none. -/
def quanta : List UInt8 → Option (List Sextet)
  | a :: b :: c :: d :: rest =>
    if rest = [] ∧ d = pad ∧ c = pad then do some [← Base64.value a, ← Base64.value b]
    else if rest = [] ∧ d = pad then do some [← Base64.value a, ← Base64.value b, ← Base64.value c]
    else do
      some ((← Base64.value a) :: (← Base64.value b) :: (← Base64.value c) :: (← Base64.value d) :: (← quanta rest))
  | [] => some []
  | _ => none

/-- `base64.StdEncoding.DecodeString`, which skips the ends of lines. -/
def decodeString (text : List UInt8) : Option (List UInt8) :=
  (quanta (text.filter fun c => c ≠ 0x0a ∧ c ≠ 0x0d)).map Base64.bytes

def request : List UInt8 := "BOOMPI_DISCOVER_V1".toUTF8.data.toList
def response : List UInt8 := "BOOMPI_SERVER_V1".toUTF8.data.toList

def maxDiscoveryRequestBytes : Nat := 64

structure Responder where
  config : Config
  payload : List UInt8
  deriving DecidableEq, Repr

/-- `NewResponder`; the port is positive by then. -/
def newResponder (config : Config) (spkiSHA256 : List UInt8) : Except String Responder :=
  match config.validate parseIP with
  | some err => .error err
  | none =>
    match decodeString spkiSHA256 with
    | none => .error "discovery SPKI must be a base64-encoded SHA-256 digest"
    | some digest =>
      if digest.length ≠ 32 then .error "discovery SPKI must be a base64-encoded SHA-256 digest"
      else .ok {
        config, payload := response ++ 0x20 :: (Scan.decimal config.wssPort.toNat ++ 0x20 :: spkiSHA256) }

/-- One round of `serveConnection`: what it sends back for a datagram. -/
def Responder.answer (r : Responder) (datagram : List UInt8) : Option (List UInt8) :=
  if datagram.take maxDiscoveryRequestBytes = request then some r.payload else none

-- ---------------------------------------------------------------------------
-- Digests
-- ---------------------------------------------------------------------------

variable {parseIP} {bs digest : List UInt8} {c : Config} {r : Responder}

theorem digit_ne : ∀ v : Sextet, digit v ≠ pad ∧ digit v ≠ 0x0a ∧ digit v ≠ 0x0d := by decide

theorem quanta_encode (bs : List UInt8) : quanta (encode bs) = some (sextets bs) := by
  fun_induction sextets bs with
  | case1 a b c rest ih =>
    have hencode : encode (a :: b :: c :: rest) =
        digit (Base64.first a) :: digit (Base64.second a b) :: digit (Base64.third b c) ::
          digit (Base64.fourth c) :: encode rest := by
      have hmod : (rest.length + 1 + 1 + 1) % 3 = rest.length % 3 := by omega
      simp [encode, sextets, hmod]
    have hpad := (digit_ne (Base64.fourth c)).1
    simp [hencode, quanta, hpad, ih]
  | case2 a b =>
    have hpad := (digit_ne (Base64.third b 0)).1
    simp [encode, sextets, quanta, hpad]
  | case3 a => simp [encode, sextets, quanta]
  | case4 => rfl

theorem decodeString_encode (bs : List UInt8) : decodeString (encode bs) = some bs := by
  have hfilter : (encode bs).filter (fun c => c ≠ 0x0a ∧ c ≠ 0x0d) = encode bs := by
    rw [List.filter_eq_self]
    intro c hc
    rcases List.mem_append.mp hc with hc | hc
    · obtain ⟨v, -, rfl⟩ := List.mem_map.mp hc
      simpa using (digit_ne v).2
    · rw [List.eq_of_mem_replicate hc]
      decide
  rw [decodeString, hfilter, quanta_encode, Option.map_some, Base64.bytes_sextets]

theorem newResponder_encode (hc : c.validate parseIP = none) (hd : digest.length = 32) :
    newResponder parseIP c (encode digest) = .ok {
      config := c
      payload := response ++ 0x20 :: (Scan.decimal c.wssPort.toNat ++ 0x20 :: encode digest) } := by
  simp [newResponder, hc, decodeString_encode, hd]

theorem validate_ports (hc : c.validate parseIP = none) :
    1 ≤ c.udpPort ∧ c.udpPort ≤ 65535 ∧ 1 ≤ c.wssPort ∧ c.wssPort ≤ 65535 := by
  simp only [Config.validate] at hc
  split at hc
  · cases hc
  · split at hc
    · cases hc
    · omega

theorem answer_iff {datagram payload : List UInt8} : r.answer datagram = some payload ↔
    datagram = request ∧ payload = r.payload := by
  have hlen : request.length = 18 := by decide
  rw [Responder.answer, Option.ite_none_right_eq_some, Option.some.injEq]
  constructor
  · rintro ⟨htake, rfl⟩
    refine ⟨?_, rfl⟩
    have hshort := congrArg List.length htake
    rw [List.length_take, hlen] at hshort
    rwa [List.take_of_length_le (by rw [maxDiscoveryRequestBytes] at hshort ⊢; omega)] at htake
  · rintro ⟨rfl, rfl⟩
    exact ⟨List.take_of_length_le (by rw [hlen]; decide), rfl⟩

end BoomPI.Discovery
