import BoomPI.Base64
import BoomPI.Wire.DeviceId

/-!
# The pinned server

`network_bootstrap.cpp` finds a server and saves it; `voice_transport.cpp` connects
to it. Each checks the pin of the server's key with a validator of its own. Strings
are their bytes; `inet_pton` and OpenSSL's `EVP_DecodeBlock` are parameters.
-/

namespace BoomPI.Client

open Base64 (Sextet digit pad Whole)

-- ---------------------------------------------------------------------------
-- The bootstrap
-- ---------------------------------------------------------------------------

structure NetworkBootstrapResult where
  host : List UInt8 := []
  port : UInt16 := 0
  spki_sha256_base64 : List UInt8 := []
  deriving DecidableEq, Repr

def isSpkiDigit (c : UInt8) : Bool :=
  (0x41 ≤ c ∧ c ≤ 0x5a) ∨ (0x61 ≤ c ∧ c ≤ 0x7a) ∨ (0x30 ≤ c ∧ c ≤ 0x39) ∨ c = 0x2b ∨ c = 0x2f

def isSpki (text : List UInt8) : Bool :=
  text.length = 44 ∧ text.getLast? = some pad ∧ (text.take 43).all isSpkiDigit

structure Network where
  /-- `inet_pton(AF_INET, host, ..) == 1`, for a C string -/
  inetPton : List UInt8 → Bool

variable (net : Network)

def isEndpoint (server : NetworkBootstrapResult) : Bool :=
  server.port ≠ 0 ∧ isSpki server.spki_sha256_base64 ∧
    net.inetPton (server.host.takeWhile (· ≠ 0))

/-- `LoadServer` and the end of `Discover`: three fields were read, and nothing else. -/
def readServer : Option (List UInt8 × Nat × List UInt8) → Option NetworkBootstrapResult
  | none => none
  | some (host, port, spki) =>
    let server := { host, port := UInt16.ofNat port, spki_sha256_base64 := spki }
    if port ≤ 65535 ∧ isEndpoint net server then some server else none

/-- `SaveServer`; `written` says that the directory is there and the file was written. -/
def saveServer (server : NetworkBootstrapResult) (written : Bool) : Bool :=
  isEndpoint net server && written

/-- `Start` once a network is up. -/
def start (explicitServer : Option NetworkBootstrapResult)
    (saved found : Option (List UInt8 × Nat × List UInt8)) (written : Bool) :
    Option NetworkBootstrapResult :=
  match explicitServer with
  | some server => if isEndpoint net server then some server else none
  | none =>
    let saved := readServer net saved
    match readServer net found with
    | none => saved
    | some found =>
      if (saved.all fun saved => found.spki_sha256_base64 = saved.spki_sha256_base64) ∧
          saveServer net found written then
        some found
      else saved

-- ---------------------------------------------------------------------------
-- The transport
-- ---------------------------------------------------------------------------

def base64Value (c : UInt8) : Int :=
  if 0x41 ≤ c ∧ c ≤ 0x5a then c.toNat - 0x41
  else if 0x61 ≤ c ∧ c ≤ 0x7a then c.toNat - 0x61 + 26
  else if 0x30 ≤ c ∧ c ≤ 0x39 then c.toNat - 0x30 + 52
  else if c = 0x2b then 62
  else if c = 0x2f then 63
  else -1

def isValidSpkiSha256 (value : List UInt8) : Bool :=
  value.length = 44 ∧ value.getLast? = some pad ∧
    (value.take 43).all (fun c => 0 ≤ base64Value c) ∧
    (base64Value (value.getD 42 0)).toNat &&& 0x03 = 0

/-- `EVP_DecodeBlock`: the bytes it writes, `none` for -1. -/
abbrev DecodeBlock := List UInt8 → Option (List UInt8)

variable (evpDecodeBlock : DecodeBlock)

/-- `DecodePin`: the pin it stores. -/
def decodePin (text : List UInt8) : Option (List UInt8) :=
  if ¬ isValidSpkiSha256 text then none
  else match evpDecodeBlock text with
  | none => none
  | some decoded => if decoded.length ≠ 33 then none else some (decoded.take 32)

structure TransportConfig where
  host : List UInt8
  port : UInt16
  spki_sha256_base64 : List UInt8
  device_id : List UInt8
  deriving DecidableEq, Repr

/-- The check at the head of `Connect`, on a transport that has no thread yet. -/
def configures (c : TransportConfig) : Bool :=
  c.host ≠ [] ∧ (Wire.parseUuid c.device_id).isSome ∧
    (decodePin evpDecodeBlock c.spki_sha256_base64).isSome ∧ c.port ≠ 0

-- ---------------------------------------------------------------------------
-- Digits
-- ---------------------------------------------------------------------------

variable {net evpDecodeBlock} {c : UInt8} {text : List UInt8}

theorem isSpkiDigit_eq : ∀ c, isSpkiDigit c = (Base64.value c).isSome :=
  Base64.byte_forall (by decide +kernel)

theorem base64Value_digit : ∀ v : Sextet, base64Value (digit v) = v := by decide

theorem base64Value_nonneg : ∀ c, 0 ≤ base64Value c ↔ (Base64.value c).isSome = true :=
  Base64.byte_forall (by decide +kernel)

theorem spelled_iff (text : List UInt8) :
    (text.length = 44 ∧ text.getLast? = some pad ∧
        ∀ c ∈ text.take 43, (Base64.value c).isSome = true) ↔
      ∃ ss : List Sextet, ss.length = 43 ∧ text = ss.map digit ++ [pad] := by
  constructor
  · rintro ⟨hlen, hlast, hdigits⟩
    obtain ⟨init, rfl⟩ := List.getLast?_eq_some_iff.mp hlast
    have hinit : init.length = 43 := by simpa using hlen
    rw [List.take_left' hinit] at hdigits
    obtain ⟨ss, rfl⟩ := Base64.exists_sextets hdigits
    exact ⟨ss, by simpa using hinit, rfl⟩
  · rintro ⟨ss, hlen, rfl⟩
    refine ⟨by simp [hlen], by simp, fun c hc => ?_⟩
    rw [List.take_left' (by simpa using hlen)] at hc
    obtain ⟨v, -, rfl⟩ := List.mem_map.mp hc
    simp

theorem isSpki_iff : isSpki text = true ↔
    ∃ ss : List Sextet, ss.length = 43 ∧ text = ss.map digit ++ [pad] := by
  rw [← spelled_iff]
  simp [isSpki, isSpkiDigit_eq]

theorem padding_zero {ss : List Sextet} (hlen : ss.length = 43) :
    (base64Value ((ss.map digit ++ [pad]).getD 42 0)).toNat &&& 0x03 = 0 ↔ Whole ss := by
  obtain rfl | ⟨init, last, rfl⟩ := List.eq_nil_or_concat ss
  · cases hlen
  have hinit : init.length = 42 := by simpa using hlen
  have hdigit : (((init.concat last).map digit ++ [pad]).getD 42 0) = digit last := by
    simp [hinit]
  rw [hdigit, base64Value_digit, Base64.whole_iff (by simp [hinit])]
  simp [Nat.and_two_pow_sub_one_eq_mod _ 2]

/-- The connection path also looks at the two bits that the padding drops. -/
theorem isValidSpkiSha256_iff : isValidSpkiSha256 text = true ↔
    ∃ ss : List Sextet, ss.length = 43 ∧ text = ss.map digit ++ [pad] ∧ Whole ss := by
  have hvalid : isValidSpkiSha256 text = true ↔
      (text.length = 44 ∧ text.getLast? = some pad ∧
        ∀ c ∈ text.take 43, (Base64.value c).isSome = true) ∧
      (base64Value (text.getD 42 0)).toNat &&& 0x03 = 0 := by
    simp [isValidSpkiSha256, base64Value_nonneg, and_assoc]
  rw [hvalid, spelled_iff]
  constructor
  · rintro ⟨⟨ss, hlen, rfl⟩, hbits⟩
    exact ⟨ss, hlen, rfl, (padding_zero hlen).mp hbits⟩
  · rintro ⟨ss, hlen, rfl, hwhole⟩
    exact ⟨⟨ss, hlen, rfl⟩, (padding_zero hlen).mpr hwhole⟩

-- ---------------------------------------------------------------------------
-- Pins
-- ---------------------------------------------------------------------------

/-- What is documented of `EVP_DecodeBlock`: three bytes for four characters, where
padding decodes as zero bits. -/
def DecodeBlock.Documented (evpDecodeBlock : DecodeBlock) : Prop :=
  ∀ ss : List Sextet, ss.length % 4 = 3 →
    evpDecodeBlock (ss.map digit ++ [pad]) = some (Base64.bytes (ss ++ [Base64.zero]))

/-- The empty string is no address. -/
def Network.Documented (net : Network) : Prop := net.inetPton [] = false

/-- The paths agree on a string: both take it or neither does, a server saved with it can
be connected to, and if taken it is the encoding of one digest. -/
structure Agree (net : Network) (evpDecodeBlock : DecodeBlock) (text : List UInt8) : Prop where
  accepts : isSpki text = true ↔ (decodePin evpDecodeBlock text).isSome = true
  saved : ∀ server written deviceId, server.spki_sha256_base64 = text →
    saveServer net server written = true → (Wire.parseUuid deviceId).isSome = true →
    configures evpDecodeBlock
      { host := server.host, port := server.port, spki_sha256_base64 := text,
        device_id := deviceId } = true
  canonical : isSpki text = true ∨ (decodePin evpDecodeBlock text).isSome = true →
    ∃! digest, digest.length = 32 ∧ Base64.encode digest = text

/-- Forty-three digits and the padding character, where the padding drops a bit that is set. -/
def Loose (text : List UInt8) : Prop :=
  ∃ ss : List Sextet, ss.length = 43 ∧ text = ss.map digit ++ [pad] ∧
    ∃ last ∈ ss.getLast?, last.val % 4 ≠ 0

theorem decodePin_isSome (hevp : evpDecodeBlock.Documented) :
    (decodePin evpDecodeBlock text).isSome = isValidSpkiSha256 text := by
  unfold decodePin
  cases hvalid : isValidSpkiSha256 text with
  | false => rfl
  | true =>
    obtain ⟨ss, hlen, rfl, -⟩ := isValidSpkiSha256_iff.mp hvalid
    have hbytes : (Base64.bytes (ss ++ [Base64.zero])).length = 33 := by
      simp [Base64.length_bytes, hlen]
    simp [hevp ss (by simp [hlen]), hbytes]

theorem valid_canonical (h : isValidSpkiSha256 text = true) :
    ∃! digest, digest.length = 32 ∧ Base64.encode digest = text := by
  obtain ⟨ss, hlen, rfl, hwhole⟩ := isValidSpkiSha256_iff.mp h
  have hencode := Base64.encode_bytes hwhole (by simp [hlen])
  refine ⟨Base64.bytes ss, ⟨by simp [Base64.length_bytes, hlen], hencode⟩, ?_⟩
  rintro digest ⟨-, hd⟩
  exact Base64.encode_injective (hd.trans hencode.symm)

/-- The looser validator accepts more, and exactly the loose strings. -/
theorem isSpki_eq_valid (h : ¬ Loose text) : isSpki text = isValidSpkiSha256 text := by
  rw [Bool.eq_iff_iff, isSpki_iff, isValidSpkiSha256_iff]
  constructor
  · rintro ⟨ss, hlen, rfl⟩
    refine ⟨ss, hlen, rfl, (Base64.whole_iff (by simp [hlen])).mpr fun last hlast => ?_⟩
    by_contra hbits
    exact h ⟨ss, hlen, rfl, last, hlast, hbits⟩
  · rintro ⟨ss, hlen, rfl, -⟩
    exact ⟨ss, hlen, rfl⟩

theorem Loose.invalid (h : Loose text) : isValidSpkiSha256 text = false := by
  obtain ⟨ss, hlen, rfl, last, hlast, hbits⟩ := h
  rw [Bool.eq_false_iff]
  intro hvalid
  obtain ⟨ss', -, heq, hwhole⟩ := isValidSpkiSha256_iff.mp hvalid
  obtain rfl : ss = ss' := by
    have h := congrArg (List.filterMap Base64.value) heq
    simpa using h
  exact hbits ((Base64.whole_iff (by simp [hlen])).mp hwhole last hlast)

/-- The two paths agree on every string but the loose ones, which the bootstrap saves and
the transport cannot be configured with. -/
theorem spki_agrees (net : Network) (hnet : net.Documented) (evpDecodeBlock : DecodeBlock)
    (hevp : evpDecodeBlock.Documented) (text : List UInt8) :
    Agree net evpDecodeBlock text ↔ ¬ Loose text := by
  constructor
  · rintro h hloose
    obtain ⟨ss, hlen, htext, -⟩ := id hloose
    have hsome := h.accepts.mp (isSpki_iff.mpr ⟨ss, hlen, htext⟩)
    rw [decodePin_isSome hevp, hloose.invalid] at hsome
    cases hsome
  · intro h
    have heq := isSpki_eq_valid h
    refine ⟨?_, ?_, ?_⟩
    · rw [decodePin_isSome hevp, heq]
    · rintro server written deviceId rfl hsaved hid
      simp only [saveServer, isEndpoint, Bool.and_eq_true, decide_eq_true_eq] at hsaved
      obtain ⟨⟨hport, hspki, hhost⟩, -⟩ := hsaved
      have hne : server.host ≠ [] := by
        intro hempty
        rw [hempty] at hhost
        exact absurd (hnet.symm.trans hhost) (by simp)
      simp [configures, hid, hport, hne, decodePin_isSome hevp, ← heq, hspki]
    · intro hor
      rw [decodePin_isSome hevp, ← heq, or_self, heq] at hor
      exact valid_canonical hor

theorem readServer_isEndpoint {fields : Option (List UInt8 × Nat × List UInt8)}
    {server : NetworkBootstrapResult} (h : readServer net fields = some server) :
    isEndpoint net server = true := by
  unfold readServer at h
  split at h
  · cases h
  · dsimp only at h
    split at h
    · rename_i hc
      cases h
      exact hc.2
    · cases h

/-- What `Start` returns has passed the looser check, from wherever it comes. -/
theorem start_isEndpoint {explicitServer : Option NetworkBootstrapResult}
    {saved found : Option (List UInt8 × Nat × List UInt8)} {written : Bool}
    {server : NetworkBootstrapResult}
    (h : start net explicitServer saved found written = some server) :
    isEndpoint net server = true := by
  unfold start at h
  split at h
  · split at h
    · rename_i hc
      cases h
      exact hc
    · cases h
  · dsimp only at h
    split at h
    · exact readServer_isEndpoint h
    · split at h
      · cases h
        exact readServer_isEndpoint ‹_›
      · exact readServer_isEndpoint h

-- ---------------------------------------------------------------------------
-- A pin of either kind
-- ---------------------------------------------------------------------------

def decodesPadding : DecodeBlock := fun text =>
  some (Base64.bytes (text.map fun c => (Base64.value c).getD Base64.zero))

theorem decodesPadding_documented : decodesPadding.Documented := by
  intro ss _
  simp [decodesPadding, Function.comp_def]

/-- The network of one server, at `1.2.3.4`. -/
def oneServer : Network where
  inetPton host := host = [0x31, 0x2e, 0x32, 0x2e, 0x33, 0x2e, 0x34]

theorem spki_agrees_zeroDigest :
    Agree oneServer decodesPadding (Base64.encode (List.replicate 32 0)) ↔
      ¬ Loose (Base64.encode (List.replicate 32 0)) :=
  spki_agrees oneServer rfl decodesPadding decodesPadding_documented _

/-- Forty-two `A`, then `B=`. -/
def loosePin : List UInt8 := List.replicate 42 0x41 ++ [0x42, pad]

/-- The bootstrap saves the server with that pin; the transport does not take it. -/
theorem loosePin_saved :
    saveServer oneServer
        { host := [0x31, 0x2e, 0x32, 0x2e, 0x33, 0x2e, 0x34], port := 17806,
          spki_sha256_base64 := loosePin } true = true ∧
      isSpki loosePin = true ∧ ∀ evpDecodeBlock, decodePin evpDecodeBlock loosePin = none := by
  have hinvalid : isValidSpkiSha256 loosePin = false := by decide +kernel
  refine ⟨by decide +kernel, by decide +kernel, fun evpDecodeBlock => ?_⟩
  simp [decodePin, hinvalid]

end BoomPI.Client
