import Mathlib.Data.List.TakeDrop
import BoomPI.Client.Transport
import BoomPI.Server.Device.System

/-!
# Both ends of the PCM format

The two encoders and the two decoders agree: what the client sends the server
parses, what the server sends the client decodes, and a header and its 64 bytes
determine each other.
-/

namespace BoomPI.Wire

open Bytes
open Client (Transport Pcm64Header WireIds Control QueueCapacity)

-- ---------------------------------------------------------------------------
-- The client's turn
-- ---------------------------------------------------------------------------

/-- An active turn has nonzero identifiers, and the device is not nil. -/
structure Identified (s : Transport) : Prop where
  turn : s.active = true → s.turn.valid = true
  uuid : s.uuid.length = 16 ∧ s.uuid ≠ Protocol.nilUUID

variable {s t : Transport} {h : Pcm64Header} {pcm frame : List UInt8}

theorem Identified.steady (hi : Identified s) (ht : s.Steady t) : Identified t := by
  refine ⟨fun ha => ?_, ?_⟩
  · rw [ht.turn]
    exact hi.turn (ht.active ha)
  · rw [ht.uuid]
    exact hi.uuid

theorem Identified.send (hi : Identified s) (c : Control) (capacity : QueueCapacity) :
    Identified (s.send c capacity).2.2 := by
  unfold Transport.send
  split
  · exact hi
  · exact hi
  · rename_i hadmits
    split
    · unfold Transport.sent
      split
      · exact hi
      · rename_i hk
        exact ⟨fun _ => ((Transport.admits_turnStart hk).mp hadmits).2.1, hi.uuid⟩
      · exact ⟨hi.turn, hi.uuid⟩
      · exact ⟨hi.turn, hi.uuid⟩
      · exact ⟨hi.turn, hi.uuid⟩
    · exact hi

theorem Identified.sendPcm (hi : Identified s) (capacity : QueueCapacity) :
    Identified (s.sendPcm h pcm capacity).2.2 := by
  unfold Transport.sendPcm
  split
  · exact hi
  · split
    · exact hi
    · exact hi
    · exact ⟨hi.turn, hi.uuid⟩

theorem identified_reachable (hs : Transport.machine.Reachable s) : Identified s := by
  apply hs.invariant
  · rintro s ⟨deviceId, uuid, hp, rfl⟩
    exact ⟨nofun, parseUuid_length hp⟩
  · intro s l t hi hst
    cases hst
    cases l with
    | send c capacity => exact hi.send c capacity
    | sendPcm h pcm capacity => exact hi.sendPcm capacity
    | onText e => exact hi.steady Transport.onText_steady
    | onBinary bytes => exact hi.steady Transport.onBinary_steady

-- ---------------------------------------------------------------------------
-- Uplink
-- ---------------------------------------------------------------------------

def uplinkHeader (uuid : DeviceUUID) (h : Pcm64Header) (payloadLen : UInt32) : PCMHeader where
  version := 1
  kind := 1
  flags := h.flags
  audioFormat := 1
  channels := 1
  sampleRateHz := 16000
  payloadLen := payloadLen
  sequence := h.sequence
  timestampUS := h.timestampUs
  epoch := h.ids.epoch
  deviceUUID := uuid
  sessionID := h.ids.session
  turnID := h.ids.turn
  streamID := h.ids.stream

theorem pcmFrame_eq (uuid : DeviceUUID) (h : Pcm64Header) (hlen : pcm.length ≤ 640) :
    Transport.pcmFrame uuid.val h pcm =
      (uplinkHeader uuid h (UInt32.ofNat pcm.length)).fields.flatMap Prod.snd ++ pcm := by
  have hn : (UInt32.ofNat pcm.length).toNat = pcm.length :=
    UInt32.toNat_ofNat_of_lt' (Nat.lt_of_le_of_lt hlen (by decide))
  have hfields : Transport.frameFields uuid.val h pcm =
      (uplinkHeader uuid h (UInt32.ofNat pcm.length)).fields ++ [(64, pcm)] := by
    simp [Transport.frameFields, PCMHeader.fields, uplinkHeader, hn, PCMHeaderSize]
  have hsize := fields_length (uplinkHeader uuid h (UInt32.ofNat pcm.length))
  have hcontiguous : Contiguous 0 (Transport.frameFields uuid.val h pcm) := by
    simp [Transport.frameFields, Contiguous, pcmMagic, uuid.property]
  have hfill := fill_contiguous [] (List.replicate (64 + 640) 0) hcontiguous rfl
  have hbytes : (Transport.frameFields uuid.val h pcm).flatMap Prod.snd =
      (uplinkHeader uuid h (UInt32.ofNat pcm.length)).fields.flatMap Prod.snd ++ pcm := by
    rw [hfields, List.flatMap_append]
    simp
  rw [List.nil_append, List.nil_append, hbytes] at hfill
  have htake : Client.kHeaderBytes + pcm.length =
      ((uplinkHeader uuid h (UInt32.ofNat pcm.length)).fields.flatMap Prod.snd ++ pcm).length := by
    rw [List.length_append, hsize]
    rfl
  rw [Transport.pcmFrame, htake]
  exact (congrArg (List.take _) hfill).trans List.take_left

theorem toNat_ne_zero {x : UInt32} (hx : x ≠ 0) : x.toNat ≠ 0 :=
  fun h0 => hx (UInt32.toNat_inj.mp h0)

/-- Every frame the client sends is parsed by the server, to the same fields. -/
theorem sendPcm_parsed {capacity : QueueCapacity} (hi : Identified s)
    (hs : s.sendPcm h pcm capacity = (.ok, some frame, t)) :
    ∃ uuid : DeviceUUID, uuid.val = s.uuid ∧
      parsePCMFrame frame = .ok (uplinkHeader uuid h (UInt32.ofNat pcm.length), pcm) := by
  obtain ⟨hadmits, rfl, -⟩ := Transport.sendPcm_ok hs
  obtain ⟨hne, hmax, heven, hflags, hactive, -, -, hturn, hstream, -⟩ := of_decide_eq_true hadmits
  have hvalid := hi.turn hactive
  simp only [WireIds.valid, WireIds.sameTurn, decide_eq_true_eq] at hvalid hturn
  obtain ⟨hsession, hid, hstr, hepoch⟩ := hvalid
  rw [← hturn.1] at hsession
  rw [← hturn.2.1] at hid
  rw [← hturn.2.2] at hepoch
  rw [← hstream] at hstr
  refine ⟨⟨s.uuid, hi.uuid.1⟩, rfl, parsePCMFrame_ok.mpr ⟨_, marshalBinary_ok.mpr ⟨?_, rfl⟩, ?_, ?_⟩⟩
  · have hn : (UInt32.ofNat pcm.length).toNat = pcm.length :=
      UInt32.toNat_ofNat_of_lt' (Nat.lt_of_le_of_lt hmax (by decide))
    have hk : h.flags.toNat ≤ 7 := UInt16.le_iff_toNat_le.mp hflags
    have hbig : ¬ Protocol.MaxPCMPayloadBytes < pcm.length :=
      Nat.not_lt.mpr (Nat.le_trans hmax (by decide))
    simp [PCMHeader.validate, Protocol.PCMHeader.validate, PCMHeader.view, uplinkHeader, hn, hne,
      heven, toNat_ne_zero hsession, toNat_ne_zero hid, toNat_ne_zero hstr, toNat_ne_zero hepoch,
      hi.uuid.2, Protocol.firstError, Protocol.Version, Protocol.AudioKindUplink,
      Protocol.AudioFormatPCM16LE, hbig, Nat.not_le.mpr (Nat.lt_succ_of_le hk)]
  · exact pcmFrame_eq ⟨s.uuid, hi.uuid.1⟩ h hmax
  · exact (UInt32.toNat_ofNat_of_lt' (Nat.lt_of_le_of_lt hmax (by decide))).symm

-- ---------------------------------------------------------------------------
-- Downlink
-- ---------------------------------------------------------------------------

/-- A `[16]byte` of the handler's header. -/
def deviceUUIDOf (bytes : List UInt8) : DeviceUUID :=
  ⟨bytes.takeD 16 0, List.takeD_length ..⟩

def wireHeader (h : Protocol.PCMHeader) : PCMHeader where
  version := .ofNat h.version
  kind := .ofNat h.kind
  flags := .ofNat h.flags
  audioFormat := .ofNat h.audioFormat
  channels := .ofNat h.channels
  sampleRateHz := .ofNat h.sampleRateHz
  payloadLen := .ofNat h.payloadLen
  sequence := .ofNat h.sequence
  timestampUS := .ofNat h.timestampUS
  epoch := .ofNat h.epoch
  deviceUUID := deviceUUIDOf h.deviceUUID
  sessionID := .ofNat h.sessionID
  turnID := .ofNat h.turnID
  streamID := .ofNat h.streamID

def PCMHeader.downlink (h : PCMHeader) : Pcm64Header where
  flags := h.flags
  sequence := h.sequence
  timestampUs := h.timestampUS
  ids := { session := h.sessionID, turn := h.turnID, stream := h.streamID, epoch := h.epoch }

theorem decodePcm_sendPCM {h : PCMHeader} {payload bytes : List UInt8}
    (hs : sendPCM h payload = .ok bytes) (hv : h.version = 1) (hk : h.kind = 2)
    (hf : h.audioFormat = 1) (hc : h.channels = 1) (hrate : h.sampleRateHz = 24000)
    (hflags : h.flags ≤ 7) (hne : payload.length ≠ 0) (hmax : payload.length ≤ 960)
    (heven : payload.length % 2 = 0) :
    Transport.decodePcm h.deviceUUID.val bytes = .ok (h.downlink, payload) := by
  obtain ⟨b, hm, rfl, hlen⟩ := sendPCM_ok.mp hs
  have hn : h.payloadLen.toNat = payload.length := by
    rw [← hlen]
    exact UInt32.toNat_ofNat_of_lt' (Nat.lt_of_le_of_lt hmax (by decide))
  obtain ⟨hsize, hmagic, hheader, hread, -⟩ := parsePCMHeader_ok.mp (parse_marshal hm payload)
  have hb : b.length = 64 := marshalBinary_length hm
  have hversion : (b ++ payload).getD 4 0 = h.version := congrArg PCMHeader.version hread
  have hkind : (b ++ payload).getD 5 0 = h.kind := congrArg PCMHeader.kind hread
  have hfmt : (b ++ payload).getD 10 0 = h.audioFormat := congrArg PCMHeader.audioFormat hread
  have hch : (b ++ payload).getD 11 0 = h.channels := congrArg PCMHeader.channels hread
  have hflg : uint16At (b ++ payload) 6 = h.flags := congrArg PCMHeader.flags hread
  have hhz : uint32At (b ++ payload) 12 = h.sampleRateHz := congrArg PCMHeader.sampleRateHz hread
  have hpay : uint32At (b ++ payload) 16 = h.payloadLen := congrArg PCMHeader.payloadLen hread
  have hseq : uint32At (b ++ payload) 20 = h.sequence := congrArg PCMHeader.sequence hread
  have htime : uint64At (b ++ payload) 24 = h.timestampUS := congrArg PCMHeader.timestampUS hread
  have hepoch : uint32At (b ++ payload) 32 = h.epoch := congrArg PCMHeader.epoch hread
  have hdevice : slice (b ++ payload) 36 52 = h.deviceUUID.val :=
    congrArg (fun header => header.deviceUUID.val) hread
  have hsession : uint32At (b ++ payload) 52 = h.sessionID := congrArg PCMHeader.sessionID hread
  have hturn : uint32At (b ++ payload) 56 = h.turnID := congrArg PCMHeader.turnID hread
  have hstream : uint32At (b ++ payload) 60 = h.streamID := congrArg PCMHeader.streamID hread
  have htotal : (b ++ payload).length = Client.kHeaderBytes + payload.length := by
    rw [List.length_append, hb]
    rfl
  have hlength : uint16At (b ++ payload) 8 = 64 := UInt16.toNat_inj.mp hheader
  have hpayload : slice (b ++ payload) Client.kHeaderBytes (Client.kHeaderBytes + payload.length) =
      payload := by
    have h := slice_append b payload [] hb rfl
    rwa [List.append_nil] at h
  unfold Transport.decodePcm
  rw [if_neg]
  · dsimp only
    rw [if_neg]
    · rw [hflg, hseq, htime, hsession, hturn, hstream, hepoch, hpay, hn, hpayload]
      rfl
    · rw [hpay, hn, hflg, hhz, h.deviceUUID.property, hdevice, htotal, hrate]
      simp [hne, hmax, heven, hflags, Client.kMaxDownlinkPcmBytes, Client.kKnownFlags]
  · rw [hversion, hkind, hlength, hfmt, hch, hv, hk, hf, hc, hmagic, htotal]
    simp [Client.kHeaderBytes]

/-- What `sendDownlinkPCM` sends, the client decodes to the same fields. -/
theorem downlinkPCM_decoded {c : Device.Conn} {turn : Device.ActiveTurn} {payload bytes : List UInt8}
    {final : Bool} {header : Protocol.PCMHeader} (hv : Device.validateDownlinkPCM payload = none)
    (hp : Device.downlinkPCM c turn payload final = .pcm header payload)
    (hs : sendPCM (wireHeader header) payload = .ok bytes) :
    Transport.decodePcm (wireHeader header).deviceUUID.val bytes =
      .ok ((wireHeader header).downlink, payload) := by
  rw [Device.validateDownlinkPCM, ite_eq_right_iff] at hv
  have hok : ¬ (payload.length = 0 ∨ Device.outputFrameBytes < payload.length ∨
      payload.length % Device.pcmBytesPerSample ≠ 0) := fun h => nomatch hv h
  simp only [not_or, Decidable.not_not, Nat.not_lt, ne_eq] at hok
  obtain ⟨hne, hmax, heven⟩ := hok
  cases hp
  refine decodePcm_sendPCM hs rfl rfl rfl rfl rfl ?_ hne hmax heven
  simp only [wireHeader]
  split <;> cases final <;> decide

-- ---------------------------------------------------------------------------
-- The format
-- ---------------------------------------------------------------------------

theorem marshalBinary_iff {h : PCMHeader} : (∃ b, h.marshalBinary = .ok b) ↔ h.validate = none := by
  constructor
  · rintro ⟨b, hb⟩
    exact (marshalBinary_ok.mp hb).1
  · intro hv
    exact ⟨_, marshalBinary_ok.mpr ⟨hv, rfl⟩⟩

theorem parseDeviceUUID_accepts {value : List UInt8} :
    (∃ uuid, parseDeviceUUID value = .ok uuid) ↔ isValidDeviceId value = true := by
  constructor
  · rintro ⟨uuid, hp⟩
    exact (parseDeviceUUID_ok.mp hp).1
  · intro hv
    have hp := parseUuid_eq hv
    exact ⟨⟨_, (parseUuid_length hp).1⟩, parseDeviceUUID_ok.mpr ⟨hv, rfl⟩⟩

/-- Header and bytes determine each other, a frame is a header with its payload, and
the two ends agree on every frame and on every device id. -/
theorem pcm_wire_format :
    (∀ h : PCMHeader, (∃ b, h.marshalBinary = .ok b) ↔ h.validate = none) ∧
    (∀ (h : PCMHeader) b, h.marshalBinary = .ok b → parsePCMHeader b = .ok h) ∧
    (∀ b h, PCMHeaderSize ≤ b.length → parsePCMHeader b = .ok h →
      h.marshalBinary = .ok (b.take PCMHeaderSize)) ∧
    (∀ b (h : PCMHeader) payload, parsePCMFrame b = .ok (h, payload) ↔
      ∃ header, h.marshalBinary = .ok header ∧ b = header ++ payload ∧
        payload.length = h.payloadLen.toNat) ∧
    (∀ s h pcm capacity frame t, Transport.machine.Reachable s →
      s.sendPcm h pcm capacity = (.ok, some frame, t) →
      ∃ uuid : DeviceUUID, uuid.val = s.uuid ∧
        parsePCMFrame frame = .ok (uplinkHeader uuid h (UInt32.ofNat pcm.length), pcm)) ∧
    (∀ c turn payload final header bytes, Device.validateDownlinkPCM payload = none →
      Device.downlinkPCM c turn payload final = .pcm header payload →
      sendPCM (wireHeader header) payload = .ok bytes →
      Transport.decodePcm (wireHeader header).deviceUUID.val bytes =
        .ok ((wireHeader header).downlink, payload)) ∧
    (∀ value, (∃ uuid, parseDeviceUUID value = .ok uuid) ↔ isValidDeviceId value = true) ∧
    (∀ value uuid, parseDeviceUUID value = .ok uuid ↔ parseUuid value = some uuid.val) := by
  refine ⟨fun h => marshalBinary_iff, fun h b hm => ?_, fun b h _ hp => marshal_parse hp,
    fun b h payload => parsePCMFrame_ok, fun s h pcm capacity frame t hs hsend => ?_,
    fun c turn payload final header bytes hv hp hs => downlinkPCM_decoded hv hp hs,
    fun value => parseDeviceUUID_accepts, fun value uuid => parseDeviceUUID_iff⟩
  · rw [← List.append_nil b]
    exact parse_marshal hm []
  · exact sendPcm_parsed (identified_reachable hs) hsend

def client : Transport := { deviceId := Device.deviceName, uuid := Device.deviceBytes }

theorem client_init : Transport.machine.Init client :=
  ⟨Device.deviceName, Device.deviceBytes, by decide +kernel, rfl⟩

/-- The identifiers of turn `n` of session 5 on the client's stream. -/
def turnIds (n : UInt32) : WireIds := { session := 5, turn := n, stream := n, epoch := n }

/-- hello.ack of session 5, and turn.start of turn `n`. -/
def opens (n : UInt32) : List Transport.Label := [
  .onText {
    deviceId := Device.deviceName, ids := { session := 5, epoch := 1 }
    payload := .helloAck 16000 24000 20 },
  .send { kind := .turnStart, messageId := "m", ids := turnIds n } .available]

/-- The only frame of a turn, sent after turn.start. -/
theorem pcm_wire_format_sample : ∃ s frame t, Transport.machine.Reachable s ∧
    s.sendPcm { flags := 3, sequence := 0, timestampUs := 99, ids := turnIds 2 } [1, 2] .available =
      (.ok, some frame, t) ∧
    ∃ uuid : DeviceUUID, uuid.val = s.uuid ∧ parsePCMFrame frame = .ok
      (uplinkHeader uuid { flags := 3, sequence := 0, timestampUs := 99, ids := turnIds 2 } 2,
        [1, 2]) := by
  obtain ⟨s, -, hs, hp⟩ := Transport.machine.exists_of_run client (opens 2)
    (fun s => s.admitsPcm { flags := 3, sequence := 0, timestampUs := 99, ids := turnIds 2 } [1, 2])
    client_init (by decide +kernel)
  have hsend := Transport.sendPcm_available hp
  obtain ⟨-, -, -, -, huplink, -⟩ := pcm_wire_format
  exact ⟨s, _, _, hs, hsend, huplink s _ _ _ _ _ hs hsend⟩

end BoomPI.Wire
