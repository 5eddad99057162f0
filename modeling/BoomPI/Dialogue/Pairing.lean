import BoomPI.Client.Bootstrap
import BoomPI.Server.Discovery

/-!
# A device finds its server

What the responder answers is what the device reads, saves and connects to.
-/

namespace BoomPI.Dialogue

open Client (Address Bootstrap BootstrapLabel Datagram DecodeBlock NetworkBootstrapResult Overflow Rules Sound Kept
  TransportConfig configures decodePin discoverFields discoverRequest discoveryPort inetNtop internet loadFields
  readServer serverText isEndpoint isSpki)
open Discovery (Config Responder newResponder)

variable {parseIP : String → Bool} {c : Config} {r : Responder} {digest : List UInt8} {overflow : Overflow}
  {address : Address} {server : NetworkBootstrapResult} {t : Bootstrap} {evpDecodeBlock : DecodeBlock}

def serverAt (c : Config) (digest : List UInt8) (address : Address) : NetworkBootstrapResult where
  host := inetNtop address
  port := UInt16.ofNat c.wssPort.toNat
  spki_sha256_base64 := Base64.encode digest

def arrives (c : Config) (r : Responder) (address : Address) : Datagram where
  address := address
  port := c.udpPort.toNat
  bytes := r.payload

-- ---------------------------------------------------------------------------
-- The pin of a digest
-- ---------------------------------------------------------------------------

/-- Forty-three digits and a padding character, for whole bytes. -/
structure Spells (digest : List UInt8) (ss : List Base64.Sextet) : Prop where
  length : ss.length = 43
  text : Base64.encode digest = ss.map Base64.digit ++ [Base64.pad]
  whole : Base64.Whole ss
  bytes : Base64.bytes ss = digest

theorem spells_digest (hd : digest.length = 32) : Spells digest (Base64.sextets digest) := by
  have hbytes := Base64.bytes_sextets digest
  have hlen : (Base64.sextets digest).length = 43 := by
    have hcount := Base64.length_bytes (Base64.sextets digest)
    rw [hbytes, hd] at hcount
    omega
  exact ⟨hlen, by rw [Base64.encode, hd]; rfl, Base64.whole_sextets digest, hbytes⟩

theorem isSpki_encode (hd : digest.length = 32) : isSpki (Base64.encode digest) = true := by
  have hs := spells_digest hd
  exact Client.isSpki_iff.mpr ⟨_, hs.length, hs.text⟩

theorem decodePin_encode (hevp : evpDecodeBlock.Documented) (hd : digest.length = 32) :
    decodePin evpDecodeBlock (Base64.encode digest) = some digest := by
  have hs := spells_digest hd
  have hmod : (Base64.sextets digest).length % 4 = 3 := by rw [hs.length]
  have hvalid : Client.isValidSpkiSha256 (Base64.encode digest) = true :=
    Client.isValidSpkiSha256_iff.mpr ⟨_, hs.length, hs.text, hs.whole⟩
  obtain ⟨last, hlast⟩ := Base64.bytes_zero hmod
  rw [decodePin, if_neg (by simp [hvalid]), hs.text, hevp _ hmod, hlast, hs.bytes]
  simp [hd]

-- ---------------------------------------------------------------------------
-- The answer
-- ---------------------------------------------------------------------------

theorem serverAt_port (digest : List UInt8) (address : Address) (hc : c.validate parseIP = none) :
    (serverAt c digest address).port.toNat = c.wssPort.toNat ∧ c.wssPort.toNat ≠ 0 ∧ c.wssPort.toNat ≤ 65535 := by
  obtain ⟨-, -, hlow, hhigh⟩ := Discovery.validate_ports hc
  have hlt : c.wssPort.toNat < 2 ^ 16 := by omega
  exact ⟨UInt16.toNat_ofNat_of_lt' hlt, by omega, by omega⟩

theorem serverAt_sound (address : Address) (hc : c.validate parseIP = none) (hd : digest.length = 32) :
    Sound (serverAt c digest address) := by
  obtain ⟨hport, hne, -⟩ := serverAt_port digest address hc
  have haddress := Client.inetPton_inetNtop address
  have hterminated : (0 : UInt8) ∉ inetNtop address := by
    intro hzero
    rcases (Client.inetPton_bytes haddress).2 0 hzero with hdot | hdigit
    · cases hdot
    · cases hdigit
  refine ⟨decide_eq_true ⟨?_, isSpki_encode hd, ?_⟩, hterminated⟩
  · intro hzero
    rw [hzero] at hport
    exact hne hport.symm
  · have hhost : (serverAt c digest address).host = inetNtop address := rfl
    rw [hhost, Client.takeWhile_terminated hterminated]
    exact haddress

theorem request_discovers : discoverRequest = Discovery.request := rfl

theorem payload_bytes {port : Nat} (hp : port ≤ 65535) (hd : digest.length = 32) :
    let payload := Discovery.response ++ 0x20 :: (Scan.decimal port ++ 0x20 :: Base64.encode digest)
    payload.length ≤ 95 ∧ (0 : UInt8) ∉ payload := by
  obtain ⟨hlen, hbytes⟩ := Client.isSpki_bytes (isSpki_encode hd)
  have hport : (Scan.decimal port).length ≤ 5 := Scan.length_decimal (by decide) (by omega)
  have hresponse : Discovery.response.length = 16 ∧ (0 : UInt8) ∉ Discovery.response := by decide +kernel
  constructor
  · simp only [List.length_append, List.length_cons, hlen, hresponse.1]
    omega
  · intro hzero
    simp only [List.mem_append, List.mem_cons] at hzero
    rcases hzero with hzero | hzero | hzero | hzero | hzero
    · exact hresponse.2 hzero
    · cases hzero
    · cases (Scan.decimal_digits port).2 0 hzero
    · cases hzero
    · exact (hbytes 0 hzero).2 rfl

theorem readServer_payload (hc : c.validate parseIP = none) (hudp : c.udpPort = discoveryPort) (hd : digest.length = 32)
    (hr : newResponder parseIP c (Base64.encode digest) = .ok r) :
    readServer internet (discoverFields overflow (some (arrives c r address))) = some (serverAt c digest address) := by
  have hpayload : r.payload = Discovery.response ++ 0x20 :: (Scan.decimal c.wssPort.toNat ++ 0x20 :: Base64.encode digest) := by
    rw [Discovery.newResponder_encode hc hd] at hr
    cases hr
    rfl
  have hsound := serverAt_sound address hc hd
  obtain ⟨hport, hne, hle⟩ := serverAt_port digest address hc
  obtain ⟨hshort, hterminated⟩ := payload_bytes hle hd
  obtain ⟨hlen, hbytes⟩ := Client.isSpki_bytes (isSpki_encode hd)
  have hspace : Scan.isSpace 0x20 = true := by decide
  have hmagic : Scan.literal Client.responseMagic ((r.payload.take 95).takeWhile (· ≠ 0)) =
      some (0x20 :: (Scan.decimal c.wssPort.toNat ++ 0x20 :: Base64.encode digest)) := by
    rw [hpayload, List.take_of_length_le hshort, Client.takeWhile_terminated hterminated]
    exact Scan.literal_append _ _
  have hnumber : Client.scanUnsigned overflow (0x20 :: (Scan.decimal c.wssPort.toNat ++ 0x20 :: Base64.encode digest)) =
      some (c.wssPort.toNat, 0x20 :: Base64.encode digest) := by
    have hblank : ∀ ch ∈ (0x20 :: Base64.encode digest).head?, Scan.isDigit ch = false := by
      intro ch hch
      cases hch
      decide
    have hlt : c.wssPort.toNat < 2 ^ 32 := Nat.lt_of_le_of_lt hle (by decide)
    rw [Client.scanUnsigned, Scan.number_blank hspace, Scan.number_decimal hblank]
    exact congrArg (fun port => some (port, _)) (if_pos ⟨by decide, hlt⟩)
  have hword : Scan.wordWithin 44 (0x20 :: Base64.encode digest) = some (Base64.encode digest, []) := by
    have hne : Base64.encode digest ≠ [] := by
      intro hnil
      rw [hnil] at hlen
      cases hlen
    have happend : Scan.wordWithin 44 (Base64.encode digest ++ []) = some (Base64.encode digest, []) :=
      Scan.wordWithin_append hne (fun ch hch => (hbytes ch hch).1) (Nat.le_of_eq hlen) Scan.blank_nil
    rw [Scan.wordWithin_blank hspace]
    rwa [List.append_nil] at happend
  have hfields : discoverFields overflow (some (arrives c r address)) =
      some (inetNtop address, c.wssPort.toNat, Base64.encode digest) := by
    have hhead : ¬ (r.payload = [] ∨ c.udpPort.toNat ≠ discoveryPort) := by
      rw [hudp, hpayload]
      simp
    have htail : ¬ (c.wssPort.toNat = 0 ∨ 65535 < c.wssPort.toNat) := by omega
    simp only [discoverFields, arrives, Option.bind_eq_bind, Option.bind_some, if_neg hhead, hmagic, hnumber, hword]
    exact if_neg (by simpa using htail)
  rw [hfields, readServer]
  exact if_pos ⟨hle, hsound.endpoint⟩

-- ---------------------------------------------------------------------------
-- The device and its server
-- ---------------------------------------------------------------------------

/-- The device has no server configured, and on the port it hears only the one server. -/
def Alone (c : Config) (r : Responder) : Bootstrap → BootstrapLabel → Prop
  | _, .start datagram _ _ => ∀ d ∈ datagram, ∃ address, d = arrives c r address
  | _, .configure _ _ => False
  | _, _ => True

def IsServer (c : Config) (digest : List UInt8) (server : NetworkBootstrapResult) : Prop :=
  ∃ address, server = serverAt c digest address

theorem alone_rules (hc : c.validate parseIP = none) (hudp : c.udpPort = discoveryPort) (hd : digest.length = 32)
    (hr : newResponder parseIP c (Base64.encode digest) = .ok r) :
    Rules overflow (fun datagram => ∀ d ∈ datagram, ∃ address, d = arrives c r address)
      (fun file => file = none ∨ ∃ server, IsServer c digest server ∧ file = some (serverText server))
      (IsServer c digest) (IsServer c digest) where
  writes server hs := .inr ⟨server, hs, rfl⟩
  finds _ datagram server _ hdatagram hfound _ := by
    cases datagram with
    | none => cases hfound
    | some d =>
      obtain ⟨address, rfl⟩ := hdatagram d rfl
      rw [readServer_payload hc hudp hd hr] at hfound
      cases hfound
      exact ⟨address, rfl⟩
  loads file server hfile hloaded := by
    rcases hfile with rfl | ⟨saved, ⟨address, rfl⟩, rfl⟩
    · cases hloaded
    · rw [Client.load_serverText (serverAt_sound address hc hd)] at hloaded
      cases hloaded
      exact ⟨address, rfl⟩
  returns _ hs := hs

/-- What the device has and returns is the server, while it hears no other one. -/
theorem alone_kept (hc : c.validate parseIP = none) (hudp : c.udpPort = discoveryPort) (hd : digest.length = 32)
    (hr : newResponder parseIP c (Base64.encode digest) = .ok r)
    (ht : (Bootstrap.machine overflow).ReachableUnder (Alone c r) t) :
    Kept (fun file => file = none ∨ ∃ server, IsServer c digest server ∧ file = some (serverText server))
      (IsServer c digest) (IsServer c digest) t := by
  refine Client.kept_reachable (M := Bootstrap.machine overflow) (alone_rules hc hudp hd hr) rfl ?_ (ht.mono ?_)
  · rintro s rfl
    exact ⟨by simp [Client.Disk.survivors], trivial, by simp⟩
  · intro s l hl
    cases l with
    | start => exact ⟨hl, .inr (.inl rfl)⟩
    | configure => exact hl.elim
    | _ => trivial

def Connects (evpDecodeBlock : DecodeBlock) (digest : List UInt8) (server : NetworkBootstrapResult) : Prop :=
  decodePin evpDecodeBlock server.spki_sha256_base64 = some digest ∧
    ∀ deviceId, (Wire.parseUuid deviceId).isSome = true → configures evpDecodeBlock {
      host := server.host, port := server.port, spki_sha256_base64 := server.spki_sha256_base64
      device_id := deviceId } = true

theorem serverAt_connects (hevp : evpDecodeBlock.Documented) (hc : c.validate parseIP = none) (hd : digest.length = 32) :
    Connects evpDecodeBlock digest (serverAt c digest address) := by
  have hpin := decodePin_encode hevp hd
  refine ⟨hpin, fun deviceId hid => ?_⟩
  have hsound := (serverAt_sound address hc hd).endpoint
  simp only [isEndpoint, decide_eq_true_eq] at hsound
  have hhost := (Client.inetPton_bytes (Client.inetPton_inetNtop address)).1
  have hsome : (decodePin evpDecodeBlock (serverAt c digest address).spki_sha256_base64).isSome = true := by
    rw [serverAt, hpin]
    rfl
  exact decide_eq_true ⟨hhost, hid, hsome, hsound.1⟩

def sampleConfig : Config := { bindAddress := "0.0.0.0", udpPort := 17807, wssPort := 17806 }

def sampleDigest : List UInt8 := List.replicate 32 7

def sampleResponder : Responder where
  config := sampleConfig
  payload := Discovery.response ++ 0x20 :: (Scan.decimal 17806 ++ 0x20 :: Base64.encode sampleDigest)

def answersAt (address : Address) (_ : Bootstrap) : BootstrapLabel → Bool
  | .start datagram _ _ => datagram = some (arrives sampleConfig sampleResponder address)
  | .configure _ _ => false
  | _ => true

theorem alone_of_answersAt (address : Address) (s : Bootstrap) (l : BootstrapLabel) (h : answersAt address s l = true) :
    Alone sampleConfig sampleResponder s l := by
  cases l with
  | start datagram readable mkdir =>
    intro d hd
    rw [of_decide_eq_true h] at hd
    cases hd
    exact ⟨address, rfl⟩
  | configure => cases h
  | _ => trivial

end BoomPI.Dialogue
