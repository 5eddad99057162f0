import BoomPI.Dialogue.Uplink

/-!
# The client speaks

What the client's own state says of its turn, and what each message it sends does
to the outlook of the server.
-/

namespace BoomPI.Dialogue

open Protocol (Message ControlEnvelope PCMHeader uint32)
open Client (Transport Control QueueCapacity Pcm64Header WireIds)
open Device (ActiveTurn validateTurnStart validateTurnCommit controlBelongsToDeviceSession finalInput inputFrameBytes)

variable {t t' : Transport} {spoken : List UInt8} {x : Received} {control : Control} {header : Pcm64Header}
  {pcm bytes : List UInt8} {capacity : QueueCapacity}

def padded (bytes : List UInt8) : List UInt8 :=
  bytes ++ List.replicate ((inputFrameBytes - bytes.length % inputFrameBytes) % inputFrameBytes) 0

structure Same (t : Transport) (turn : ActiveTurn) : Prop where
  deviceID : turn.deviceID = t.deviceId
  deviceUUID : turn.deviceUUID = t.uuid
  sessionID : turn.sessionID = t.session.toNat

structure Rests (t : Transport) (x : Received) : Prop extends Same t x.turn where
  inactive : t.active = false ∧ x.turn.active = false
  bytes : x.bytes = []

/-- In a turn: the client has sent `spoken`, and the server will make `x` of it. -/
structure Speaks (t : Transport) (spoken : List UInt8) (x : Received) : Prop extends Same t x.turn where
  active : t.active = true ∧ x.turn.active = true
  valid : t.turn.valid = true
  session : t.turn.session = t.session
  newer : ¬ t.turn.epoch < t.sessionEpoch
  turnID : x.turn.turnID = t.turn.turn.toNat
  uplinkStream : x.turn.uplinkStream = t.turn.stream.toNat
  epoch : x.turn.epoch = t.turn.epoch.toNat
  expectedInput : x.turn.expectedInput = t.uplinkSequence.toNat
  inputStarted : x.turn.inputStarted = decide (t.uplinkSequence ≠ 0)
  inputEnded : x.turn.inputEnded = t.uplinkEnded
  inputCommitted : x.turn.inputCommitted = t.committed
  silent : t.response.valid = false
  uncancelled : t.responseCancelSent = false
  ended : t.uplinkEnded = true → t.uplinkSequence ≠ 0
  heard : t.uplinkSequence ≠ 0 → spoken ≠ []
  whole : x.bytes.length % inputFrameBytes = 0
  pending : x.turn.pendingPCM.length < inputFrameBytes
  running : t.committed = false → x.bytes ++ x.turn.pendingPCM = spoken
  complete : t.committed = true → x.turn.pendingPCM = [] ∧ x.bytes = padded spoken ∧ spoken ≠ []

theorem toNat_nonzero {n : UInt32} (hn : n ≠ 0) : n.toNat ≠ 0 := Wire.toNat_ne_zero hn

theorem Rests.start (hr : Rests t x) (hk : control.kind = .turnStart) (ha : t.admits control = some true) :
    ∃ y, Absorbs x (controlMessage t control .turnStart [("sample_rate_hz", .integer 16000)]) y ∧
      Speaks (t.sent control) [] y := by
  obtain ⟨-, hvalid, -, hsession, hepoch, -⟩ := (Transport.admits_turnStart hk).mp ha
  have hids := of_decide_eq_true hvalid
  have hsent : t.sent control = { t with
      turn := control.ids, response := {}, responseId := "", active := true, committed := false
      uplinkEnded := false, audioStarted := false, audioEnded := false, responseDone := false
      responseCancelSent := false, discardDownlink := false, uplinkSequence := 0, downlinkSequence := 0 } := by
    rw [Transport.sent, hk]
  refine ⟨_, .start ?_ rfl ?_, ?_⟩
  · simp [controlBelongsToDeviceSession, hr.deviceID, hr.sessionID, hsession]
  · simp [validateTurnStart, hr.inactive.2, toNat_nonzero hids.2.1, toNat_nonzero hids.2.2.1,
      toNat_nonzero hids.2.2.2, Device.sampleRatePayload]
  · rw [hsent]
    exact {
      deviceID := hr.deviceID, deviceUUID := hr.deviceUUID, sessionID := hr.sessionID, active := ⟨rfl, rfl⟩
      valid := hvalid, session := hsession, newer := hepoch, turnID := rfl, uplinkStream := rfl, epoch := rfl
      expectedInput := rfl, inputStarted := rfl, inputEnded := rfl, inputCommitted := rfl, silent := rfl
      uncancelled := rfl, ended := by simp, heard := by simp, whole := by simp [hr.bytes]
      pending := inputFrameBytes_pos, running := by simp [hr.bytes, ActiveTurn.begin], complete := by simp }

theorem flag_bits {flags : UInt16} (h : flags ≤ 7) :
    flags.toNat.testBit 0 = decide (flags &&& 1 ≠ 0) ∧ flags.toNat.testBit 1 = decide (flags &&& 2 ≠ 0) ∧
      flags.toNat.testBit 2 = decide (flags &&& 4 ≠ 0) := by
  have hall : ∀ n : Fin 8, n.val.testBit 0 = decide (UInt16.ofNat n &&& 1 ≠ 0) ∧
      n.val.testBit 1 = decide (UInt16.ofNat n &&& 2 ≠ 0) ∧ n.val.testBit 2 = decide (UInt16.ofNat n &&& 4 ≠ 0) := by
    decide
  have hn := hall ⟨flags.toNat, Nat.lt_succ_of_le (UInt16.le_iff_toNat_le.mp h)⟩
  simpa using hn

theorem readFrame_sent {uuid : Wire.DeviceUUID}
    (hp : Wire.parsePCMFrame bytes = .ok (Wire.uplinkHeader uuid header (UInt32.ofNat pcm.length), pcm)) :
    readFrame bytes = some (.pcm (Wire.uplinkHeader uuid header (UInt32.ofNat pcm.length)).view pcm) := by
  rw [readFrame, hp]

theorem Speaks.next (hs : Speaks t spoken x) (hu : t.uuid.length = 16 ∧ t.uuid ≠ Protocol.nilUUID)
    {uuid : Wire.DeviceUUID} (huuid : uuid.val = t.uuid) (hadmits : t.admitsPcm header pcm = true)
    (hc : header.flags &&& 4 = 0)
    (hv : (Wire.uplinkHeader uuid header (UInt32.ofNat pcm.length)).view.validate = none) :
    NextFrame x.turn (Wire.uplinkHeader uuid header (UInt32.ofNat pcm.length)).view := by
  obtain ⟨-, -, -, hflags, -, hcommitted, hended, hturn, hstream, hsequence, -, hfirst⟩ := of_decide_eq_true hadmits
  obtain ⟨hsession, hid, hepoch⟩ := of_decide_eq_true hturn
  obtain ⟨h1, h2, h3, h4⟩ := of_decide_eq_true hs.valid
  obtain ⟨hbit0, -, hbit2⟩ := flag_bits hflags
  refine ⟨hs.active.2, ?_, ?_, ?_, ?_, ?_⟩
  · rw [Protocol.PCMStreamContext.validateHeader, hv, Option.none_or]
    simp [Protocol.firstError, Device.uplinkContext, hu.2, Protocol.AudioKindUplink, Protocol.AudioKindDownlink,
      Wire.PCMHeader.view, Wire.uplinkHeader, hs.deviceUUID, huuid, hs.epoch, hepoch, hs.sessionID, hsession,
      hs.session, hs.turnID, hid, hs.uplinkStream, hstream, hs.expectedInput, hsequence, toNat_nonzero h2,
      toNat_nonzero h3, toNat_nonzero h4, toNat_nonzero (hs.session ▸ h1)]
  · rw [hs.inputCommitted]
    simpa using hcommitted
  · rw [hs.inputEnded]
    simpa using hended
  · exact hbit2.trans (decide_eq_false (by simp [hc]))
  · rw [hs.inputStarted, ← hsequence]
    have hstart : (Wire.uplinkHeader uuid header (UInt32.ofNat pcm.length)).view.start =
        decide (header.flags &&& 1 ≠ 0) := hbit0
    rw [hstart]
    by_cases hzero : header.sequence = 0
    · simp [hzero, hfirst.mp hzero]
    · have hnone : header.flags &&& 1 = 0 := by
        by_contra hn
        exact hzero (hfirst.mpr hn)
      simp [hzero, hnone]

theorem Speaks.frame (hs : Speaks t spoken x) (hu : t.uuid.length = 16 ∧ t.uuid ≠ Protocol.nilUUID)
    (hc : header.flags &&& 4 = 0) (hsend : t.sendPcm header pcm capacity = (.ok, some bytes, t')) :
    ∃ m y, readFrame bytes = some m ∧ Absorbs x m y ∧ Speaks t' (spoken ++ pcm) y := by
  obtain ⟨uuid, huuid, hparse⟩ := Wire.sendPcm_parsed ⟨fun _ => hs.valid, hu⟩ hsend
  obtain ⟨b, hmarshal, -, -⟩ := Wire.parsePCMFrame_ok.mp hparse
  have hvalid := (Wire.marshalBinary_ok.mp hmarshal).1
  obtain ⟨hadmits, -, rfl⟩ := Transport.sendPcm_ok hsend
  have hnext := hs.next hu huuid hadmits hc hvalid
  obtain ⟨hne, -, -, hflags, -, hcommitted, hended, -, -, hsequence, hlast, -⟩ := of_decide_eq_true hadmits
  obtain ⟨-, hbit1, -⟩ := flag_bits hflags
  have hmax : t.uplinkSequence.toNat + 1 < 2 ^ 32 := by
    have hne : t.uplinkSequence.toNat ≠ 2 ^ 32 - 1 := by
      intro hn
      exact hlast (hsequence.trans (UInt32.toNat_inj.mp hn))
    have hlt := t.uplinkSequence.toNat_lt
    omega
  have hsucc : (t.uplinkSequence + 1).toNat = t.uplinkSequence.toNat + 1 := by
    rw [UInt32.toNat_add]
    exact Nat.mod_eq_of_lt hmax
  have hnonzero : t.uplinkSequence + 1 ≠ 0 := by
    intro hn
    rw [hn] at hsucc
    cases hsucc
  have hsplit := List.take_append_drop (wholeBytes x.turn pcm) (x.turn.pendingPCM ++ pcm)
  refine ⟨_, _, readFrame_sent hparse, .pcm hnext, ?_⟩
  exact {
    deviceID := hs.deviceID, deviceUUID := hs.deviceUUID, sessionID := hs.sessionID, active := hs.active
    valid := hs.valid, session := hs.session, newer := hs.newer, turnID := hs.turnID, uplinkStream := hs.uplinkStream
    epoch := hs.epoch, inputCommitted := hs.inputCommitted, silent := hs.silent, uncancelled := hs.uncancelled
    expectedInput := by
      dsimp only [Dialogue.heard, Transport.advanced]
      rw [hsucc, hs.expectedInput]
      exact Nat.mod_eq_of_lt hmax
    inputStarted := by simp [Dialogue.heard, Transport.advanced, hnonzero]
    inputEnded := by
      have hfin : (Wire.uplinkHeader uuid header (UInt32.ofNat pcm.length)).view.fin =
          decide (header.flags &&& 2 ≠ 0) := hbit1
      simp [Dialogue.heard, Transport.advanced, hnext.running, hfin]
    ended := fun _ => hnonzero
    heard := by
      have hpcm : pcm ≠ [] := fun hn => hne (by simp [hn])
      simp [hpcm]
    whole := by
      dsimp only
      rw [List.length_append, List.length_take, Nat.min_eq_left wholeBytes_le, wholeBytes, Nat.add_mul_mod_self_right]
      exact hs.whole
    pending := heard_short
    running := by
      intro _
      dsimp only [Dialogue.heard]
      rw [List.append_assoc, hsplit, ← List.append_assoc, hs.running (by simpa using hcommitted)]
    complete := by
      intro hn
      exact absurd hn hcommitted }

theorem padded_whole {whole rest : List UInt8} (hw : whole.length % inputFrameBytes = 0)
    (hr : rest.length < inputFrameBytes) : padded (whole ++ rest) =
      whole ++ if rest = [] then [] else rest ++ List.replicate (inputFrameBytes - rest.length) 0 := by
  have hmod : (whole ++ rest).length % inputFrameBytes = rest.length := by
    rw [List.length_append, Nat.add_mod, hw, Nat.zero_add, Nat.mod_mod, Nat.mod_eq_of_lt hr]
  rw [padded, hmod, List.append_assoc]
  split
  · rename_i hnil
    simp [hnil]
  · rename_i hne
    have hpos : 0 < rest.length := List.length_pos_iff.mpr hne
    rw [Nat.mod_eq_of_lt (by omega)]

theorem Speaks.commit (hs : Speaks t spoken x) (hk : control.kind = .turnCommit) (ha : t.admits control = some true) :
    ∃ y, Absorbs x (controlMessage t control .turnCommit []) y ∧ Speaks (t.sent control) spoken y := by
  simp only [Transport.admits, hk, Option.ite_none_left_eq_some, not_or, Decidable.not_not] at ha
  obtain ⟨-, ⟨-, hcommitted, hended, hstream, hturn⟩, -⟩ := ha
  obtain ⟨hsession, hid, hepoch⟩ := of_decide_eq_true hturn
  have hopen : t.committed = false := by simpa using hcommitted
  have hsent : t.sent control = { t with committed := true } := by rw [Transport.sent, hk]
  refine ⟨_, .commit ?_ rfl ?_, ?_⟩
  · simp [controlBelongsToDeviceSession, hs.deviceID, hs.sessionID, hsession, hs.session]
  · simp [validateTurnCommit, Device.validateActiveEnvelope, hs.active.2, hs.turnID, hid, hs.uplinkStream, hstream,
      hs.epoch, hepoch, Device.emptyObjectPayload, Device.validateUplinkCommit, hs.inputCommitted, hopen,
      hs.inputStarted, hs.ended hended, hs.inputEnded, hended]
  · rw [hsent]
    have hbytes : x.bytes ++ (if x.turn.pendingPCM = [] then [] else finalInput x.turn) = padded spoken := by
      rw [← hs.running hopen, padded_whole hs.whole hs.pending]
      rfl
    exact {
      deviceID := hs.deviceID, deviceUUID := hs.deviceUUID, sessionID := hs.sessionID, active := hs.active
      valid := hs.valid, session := hs.session, newer := hs.newer, turnID := hs.turnID
      uplinkStream := hs.uplinkStream, epoch := hs.epoch, inputCommitted := rfl, silent := hs.silent
      uncancelled := hs.uncancelled, expectedInput := hs.expectedInput, inputStarted := hs.inputStarted
      inputEnded := hs.inputEnded, ended := hs.ended, heard := hs.heard
      pending := inputFrameBytes_pos, running := by simp
      whole := by
        dsimp only
        split
        · rw [List.append_nil]
          exact hs.whole
        · rw [List.length_append, finalInput_length hs.pending, Nat.add_mod_right]
          exact hs.whole
      complete := fun _ => ⟨rfl, hbytes, hs.heard (hs.ended hended)⟩ }

end BoomPI.Dialogue
