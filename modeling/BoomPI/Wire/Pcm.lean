import BoomPI.Bytes
import BoomPI.Server.Device.State

/-!
# PCM frames on the wire

`protocol/pcm.go`: the 64-byte header at its fixed offsets, with the field
widths of the source, and what `SendPCM` makes of it.
-/

namespace BoomPI.Wire

open Bytes
open Backend (Error)
open Protocol (Version AudioKindDownlink AudioFormatPCM16LE)

def PCMHeaderSize : Nat := 64
def pcmMagic : List UInt8 := [0x42, 0x50, 0x56, 0x31]

/-- `[16]byte` -/
abbrev DeviceUUID := { bytes : List UInt8 // bytes.length = 16 }

structure PCMHeader where
  version : UInt8
  kind : UInt8
  flags : UInt16
  audioFormat : UInt8
  channels : UInt8
  sampleRateHz : UInt32
  payloadLen : UInt32
  sequence : UInt32
  timestampUS : UInt64
  epoch : UInt32
  deviceUUID : DeviceUUID
  sessionID : UInt32
  turnID : UInt32
  streamID : UInt32
  deriving DecidableEq, Repr

def PCMHeader.view (h : PCMHeader) : Protocol.PCMHeader where
  version := h.version.toNat
  kind := h.kind.toNat
  flags := h.flags.toNat
  audioFormat := h.audioFormat.toNat
  channels := h.channels.toNat
  sampleRateHz := h.sampleRateHz.toNat
  payloadLen := h.payloadLen.toNat
  sequence := h.sequence.toNat
  timestampUS := h.timestampUS.toNat
  epoch := h.epoch.toNat
  deviceUUID := h.deviceUUID.val
  sessionID := h.sessionID.toNat
  turnID := h.turnID.toNat
  streamID := h.streamID.toNat

def PCMHeader.validate (h : PCMHeader) : Option Error := h.view.validate

/-- What `MarshalBinary` writes into its buffer. -/
def PCMHeader.fields (h : PCMHeader) : List (Nat × List UInt8) := [
  (0, pcmMagic),
  (4, [h.version]),
  (5, [h.kind]),
  (6, toBE 2 h.flags.toNat),
  (8, toBE 2 PCMHeaderSize),
  (10, [h.audioFormat]),
  (11, [h.channels]),
  (12, toBE 4 h.sampleRateHz.toNat),
  (16, toBE 4 h.payloadLen.toNat),
  (20, toBE 4 h.sequence.toNat),
  (24, toBE 8 h.timestampUS.toNat),
  (32, toBE 4 h.epoch.toNat),
  (36, h.deviceUUID.val),
  (52, toBE 4 h.sessionID.toNat),
  (56, toBE 4 h.turnID.toNat),
  (60, toBE 4 h.streamID.toNat)]

def PCMHeader.marshalBinary (h : PCMHeader) : Except Error (List UInt8) :=
  match h.validate with
  | some err => .error err
  | none => .ok (fill (List.replicate PCMHeaderSize 0) h.fields)

def uint16At (data : List UInt8) (offset : Nat) : UInt16 :=
  UInt16.ofNat (ofBE (slice data offset (offset + 2)))

def uint32At (data : List UInt8) (offset : Nat) : UInt32 :=
  UInt32.ofNat (ofBE (slice data offset (offset + 4)))

def uint64At (data : List UInt8) (offset : Nat) : UInt64 :=
  UInt64.ofNat (ofBE (slice data offset (offset + 8)))

def readHeader (data : List UInt8) (h : PCMHeaderSize ≤ data.length) : PCMHeader where
  version := data.getD 4 0
  kind := data.getD 5 0
  flags := uint16At data 6
  audioFormat := data.getD 10 0
  channels := data.getD 11 0
  sampleRateHz := uint32At data 12
  payloadLen := uint32At data 16
  sequence := uint32At data 20
  timestampUS := uint64At data 24
  epoch := uint32At data 32
  deviceUUID := ⟨slice data 36 52, slice_length (Nat.le_trans (by decide) h)⟩
  sessionID := uint32At data 52
  turnID := uint32At data 56
  streamID := uint32At data 60

def parsePCMHeader (data : List UInt8) : Except Error PCMHeader :=
  if h : data.length < PCMHeaderSize then .error (.text "PCM header is truncated")
  else if slice data 0 4 ≠ pcmMagic then .error (.text "PCM magic does not match BPV1")
  else if (uint16At data 8).toNat ≠ PCMHeaderSize then
    .error (.text "PCM header length is not 64 bytes")
  else
    let header := readHeader data (Nat.not_lt.mp h)
    match header.validate with
    | some err => .error err
    | none => .ok header

def parsePCMFrame (frame : List UInt8) : Except Error (PCMHeader × List UInt8) :=
  match parsePCMHeader frame with
  | .error err => .error err
  | .ok header =>
    let expected := PCMHeaderSize + header.payloadLen.toNat
    if frame.length ≠ expected then
      .error (.text ("PCM frame length is " ++ toString frame.length ++ ", expected " ++
        toString expected))
    else .ok (header, frame.drop PCMHeaderSize)

/-- `Connection.SendPCM`, up to the queue. -/
def sendPCM (header : PCMHeader) (payload : List UInt8) : Except Error (List UInt8) :=
  if UInt32.ofNat payload.length ≠ header.payloadLen then
    .error (.text "outbound PCM payload length does not match its header")
  else match header.marshalBinary with
  | .error err => .error (.wrap "encode outbound PCM header" err)
  | .ok encoded => .ok (encoded ++ payload)

-- ---------------------------------------------------------------------------
-- The layout
-- ---------------------------------------------------------------------------

variable {h : PCMHeader} {data b payload : List UInt8}

theorem fields_contiguous (h : PCMHeader) : Contiguous 0 h.fields := by
  simp [PCMHeader.fields, Contiguous, pcmMagic, h.deviceUUID.property]

theorem fields_length (h : PCMHeader) : (h.fields.flatMap Prod.snd).length = PCMHeaderSize := by
  simp [PCMHeader.fields, pcmMagic, h.deviceUUID.property, PCMHeaderSize]

theorem fill_fields (h : PCMHeader) :
    fill (List.replicate PCMHeaderSize 0) h.fields = h.fields.flatMap Prod.snd := by
  have hf := fill_contiguous [] (List.replicate PCMHeaderSize 0)
    (fields_contiguous h) rfl
  rw [fields_length] at hf
  simpa using hf

variable {offset : Nat}

theorem uint16At_of_slice {x : UInt16} (hs : slice data offset (offset + 2) = toBE 2 x.toNat) :
    uint16At data offset = x := by
  rw [uint16At, hs, ofBE_toBE x.toNat_lt, UInt16.ofNat_toNat]

theorem uint32At_of_slice {x : UInt32} (hs : slice data offset (offset + 4) = toBE 4 x.toNat) :
    uint32At data offset = x := by
  rw [uint32At, hs, ofBE_toBE x.toNat_lt, UInt32.ofNat_toNat]

theorem uint64At_of_slice {x : UInt64} (hs : slice data offset (offset + 8) = toBE 8 x.toNat) :
    uint64At data offset = x := by
  rw [uint64At, hs, ofBE_toBE x.toNat_lt, UInt64.ofNat_toNat]

theorem toBE_slice {n : Nat} (hn : (slice data offset (offset + n)).length = n) :
    toBE n (ofBE (slice data offset (offset + n))) = slice data offset (offset + n) := by
  have h := toBE_ofBE (slice data offset (offset + n))
  rwa [hn] at h

theorem slice_uint16At (hd : offset + 2 ≤ data.length) :
    toBE 2 (uint16At data offset).toNat = slice data offset (offset + 2) := by
  have hlen : (slice data offset (offset + 2)).length = 2 := by rw [slice_length hd]; omega
  have hlt := ofBE_lt (slice data offset (offset + 2))
  rw [hlen] at hlt
  rw [uint16At, UInt16.toNat_ofNat_of_lt' hlt]
  exact toBE_slice hlen

theorem slice_uint32At (hd : offset + 4 ≤ data.length) :
    toBE 4 (uint32At data offset).toNat = slice data offset (offset + 4) := by
  have hlen : (slice data offset (offset + 4)).length = 4 := by rw [slice_length hd]; omega
  have hlt := ofBE_lt (slice data offset (offset + 4))
  rw [hlen] at hlt
  rw [uint32At, UInt32.toNat_ofNat_of_lt' hlt]
  exact toBE_slice hlen

theorem slice_uint64At (hd : offset + 8 ≤ data.length) :
    toBE 8 (uint64At data offset).toNat = slice data offset (offset + 8) := by
  have hlen : (slice data offset (offset + 8)).length = 8 := by rw [slice_length hd]; omega
  have hlt := ofBE_lt (slice data offset (offset + 8))
  rw [hlen] at hlt
  rw [uint64At, UInt64.toNat_ofNat_of_lt' hlt]
  exact toBE_slice hlen

-- ---------------------------------------------------------------------------
-- Reading what was written
-- ---------------------------------------------------------------------------

theorem readHeader_fields (h : PCMHeader) (rest : List UInt8)
    (hlen : PCMHeaderSize ≤ (h.fields.flatMap Prod.snd ++ rest).length) :
    readHeader (h.fields.flatMap Prod.snd ++ rest) hlen = h := by
  have hread {offset n : Nat} {field : List UInt8} (hm : (offset, field) ∈ h.fields)
      (hn : field.length = n) :
      slice (h.fields.flatMap Prod.snd ++ rest) offset (offset + n) = field := by
    subst hn
    exact slice_of_mem [] (fields_contiguous h) hm rfl
  obtain ⟨version, kind, flags, audioFormat, channels, sampleRateHz, payloadLen, sequence,
    timestampUS, epoch, ⟨uuid, huuid⟩, sessionID, turnID, streamID⟩ := h
  rw [readHeader, PCMHeader.mk.injEq]
  refine ⟨getD_of_slice (hread ?_ rfl), getD_of_slice (hread ?_ rfl),
    uint16At_of_slice (hread ?_ toBE_length), getD_of_slice (hread ?_ rfl),
    getD_of_slice (hread ?_ rfl), uint32At_of_slice (hread ?_ toBE_length),
    uint32At_of_slice (hread ?_ toBE_length), uint32At_of_slice (hread ?_ toBE_length),
    uint64At_of_slice (hread ?_ toBE_length), uint32At_of_slice (hread ?_ toBE_length),
    Subtype.ext (hread ?_ huuid), uint32At_of_slice (hread ?_ toBE_length),
    uint32At_of_slice (hread ?_ toBE_length), uint32At_of_slice (hread ?_ toBE_length)⟩
  all_goals simp [PCMHeader.fields]

/-- Every field of the header read from `data` is a slice of `data`. -/
theorem fields_readHeader (hlen : PCMHeaderSize ≤ data.length)
    (hmagic : slice data 0 4 = pcmMagic) (hsize : (uint16At data 8).toNat = PCMHeaderSize) :
    (readHeader data hlen).fields.flatMap Prod.snd = data.take PCMHeaderSize := by
  have hbound {offset : Nat} (ho : offset ≤ 64) : offset ≤ data.length :=
    Nat.le_trans ho hlen
  refine flatMap_slice (fields_contiguous _) (by rw [fields_length]; rfl) ?_
  intro offset field hm
  simp only [PCMHeader.fields, readHeader, List.mem_cons, Prod.mk.injEq, List.not_mem_nil,
    or_false] at hm
  rcases hm with ⟨rfl, rfl⟩ | ⟨rfl, rfl⟩ | ⟨rfl, rfl⟩ | ⟨rfl, rfl⟩ | ⟨rfl, rfl⟩ | ⟨rfl, rfl⟩ |
    ⟨rfl, rfl⟩ | ⟨rfl, rfl⟩ | ⟨rfl, rfl⟩ | ⟨rfl, rfl⟩ | ⟨rfl, rfl⟩ | ⟨rfl, rfl⟩ | ⟨rfl, rfl⟩ |
    ⟨rfl, rfl⟩ | ⟨rfl, rfl⟩ | ⟨rfl, rfl⟩
  · exact hmagic.symm
  · exact (slice_getD (hbound (by decide))).symm
  · exact (slice_getD (hbound (by decide))).symm
  · rw [toBE_length]
    exact slice_uint16At (hbound (by decide))
  · rw [toBE_length, ← hsize]
    exact slice_uint16At (hbound (by decide))
  · exact (slice_getD (hbound (by decide))).symm
  · exact (slice_getD (hbound (by decide))).symm
  · rw [toBE_length]
    exact slice_uint32At (hbound (by decide))
  · rw [toBE_length]
    exact slice_uint32At (hbound (by decide))
  · rw [toBE_length]
    exact slice_uint32At (hbound (by decide))
  · rw [toBE_length]
    exact slice_uint64At (hbound (by decide))
  · rw [toBE_length]
    exact slice_uint32At (hbound (by decide))
  · rw [slice_length (hbound (by decide))]
  · rw [toBE_length]
    exact slice_uint32At (hbound (by decide))
  · rw [toBE_length]
    exact slice_uint32At (hbound (by decide))
  · rw [toBE_length]
    exact slice_uint32At (hbound (by decide))

-- ---------------------------------------------------------------------------
-- Headers
-- ---------------------------------------------------------------------------

theorem marshalBinary_ok : h.marshalBinary = .ok b ↔
    h.validate = none ∧ b = h.fields.flatMap Prod.snd := by
  rw [PCMHeader.marshalBinary, fill_fields]
  cases h.validate with
  | some err => exact ⟨nofun, nofun⟩
  | none => simp [eq_comm]

theorem marshalBinary_length (hm : h.marshalBinary = .ok b) : b.length = PCMHeaderSize := by
  rw [(marshalBinary_ok.mp hm).2, fields_length]

theorem parsePCMHeader_ok : parsePCMHeader data = .ok h ↔
    ∃ hlen : PCMHeaderSize ≤ data.length, slice data 0 4 = pcmMagic ∧
      (uint16At data 8).toNat = PCMHeaderSize ∧ readHeader data hlen = h ∧ h.validate = none := by
  unfold parsePCMHeader
  split
  · rename_i hshort
    exact ⟨nofun, fun ⟨hlen, _⟩ => absurd hlen (Nat.not_le.mpr hshort)⟩
  · rename_i hlong
    split
    · rename_i hmagic
      exact ⟨nofun, fun ⟨_, h, _⟩ => absurd h hmagic⟩
    · rename_i hmagic
      split
      · rename_i hsize
        exact ⟨nofun, fun ⟨_, _, h, _⟩ => absurd h hsize⟩
      · rename_i hsize
        rw [ne_eq, Decidable.not_not] at hmagic hsize
        dsimp only
        cases hv : (readHeader data (Nat.not_lt.mp hlong)).validate with
        | some err =>
          refine ⟨nofun, ?_⟩
          rintro ⟨hlen, -, -, rfl, hnone⟩
          exact nomatch hv.symm.trans hnone
        | none =>
          refine ⟨?_, ?_⟩
          · rintro ⟨⟩
            exact ⟨Nat.not_lt.mp hlong, hmagic, hsize, rfl, hv⟩
          · rintro ⟨hlen, -, -, rfl, -⟩
            rfl

theorem parse_marshal (hm : h.marshalBinary = .ok b) (rest : List UInt8) :
    parsePCMHeader (b ++ rest) = .ok h := by
  obtain ⟨hvalid, rfl⟩ := marshalBinary_ok.mp hm
  have hread (offset : Nat) (field : List UInt8) (hm : (offset, field) ∈ h.fields) :
      slice (h.fields.flatMap Prod.snd ++ rest) offset (offset + field.length) = field :=
    slice_of_mem [] (fields_contiguous h) hm rfl
  have hlen : PCMHeaderSize ≤ (h.fields.flatMap Prod.snd ++ rest).length := by
    rw [List.length_append, fields_length]
    exact Nat.le_add_right _ _
  refine parsePCMHeader_ok.mpr ⟨hlen, ?_, ?_, readHeader_fields h rest hlen, hvalid⟩
  · exact hread 0 pcmMagic (by simp [PCMHeader.fields])
  · rw [uint16At_of_slice (x := 64)]
    · rfl
    · exact hread 8 (toBE 2 PCMHeaderSize) (by simp [PCMHeader.fields])

theorem marshal_parse (hp : parsePCMHeader data = .ok h) :
    h.marshalBinary = .ok (data.take PCMHeaderSize) := by
  obtain ⟨hlen, hmagic, hsize, rfl, hvalid⟩ := parsePCMHeader_ok.mp hp
  exact marshalBinary_ok.mpr ⟨hvalid, (fields_readHeader hlen hmagic hsize).symm⟩

theorem parsePCMFrame_ok : parsePCMFrame data = .ok (h, payload) ↔
    ∃ b, h.marshalBinary = .ok b ∧ data = b ++ payload ∧ payload.length = h.payloadLen.toNat := by
  unfold parsePCMFrame
  constructor
  · intro hp
    split at hp
    · cases hp
    · rename_i header hheader
      dsimp only at hp
      split at hp
      · cases hp
      · rename_i hlen
        rw [ne_eq, Decidable.not_not] at hlen
        cases hp
        refine ⟨_, marshal_parse hheader, (List.take_append_drop _ _).symm, ?_⟩
        rw [List.length_drop]
        omega
  · rintro ⟨b, hm, rfl, hlen⟩
    have hb := marshalBinary_length hm
    rw [parse_marshal hm]
    dsimp only
    rw [if_neg (by rw [List.length_append, hb, hlen]; exact fun h => h rfl), ← hb, List.drop_left]

theorem sendPCM_ok : sendPCM h payload = .ok data ↔
    ∃ b, h.marshalBinary = .ok b ∧ data = b ++ payload ∧ UInt32.ofNat payload.length = h.payloadLen := by
  unfold sendPCM
  split
  · rename_i hlen
    exact ⟨nofun, fun ⟨_, _, _, h⟩ => absurd h hlen⟩
  · rename_i hlen
    rw [ne_eq, Decidable.not_not] at hlen
    cases hm : h.marshalBinary with
    | error err => exact ⟨nofun, nofun⟩
    | ok b => simp [hlen, eq_comm]

end BoomPI.Wire
