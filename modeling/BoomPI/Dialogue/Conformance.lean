import BoomPI.Dialogue.Schema
import BoomPI.Server.Device.Answer

/-!
# An answer the client can hear

The control messages of an answer, met as bytes by a client whose turn and
response match. The server forwards the provider's strings unsplit and unbounded,
and nothing behind an event it gives up on; that is what decides.
-/

namespace BoomPI.Dialogue

open Json (Text Value)
open Wire (byteLength maxControlMessageBytes)
open Protocol (Body Reply Outbound)
open Client (Transport Inbound WireIds)
open Device (Conn ActiveTurn Delta Fresh Heard hears textsOf encodeReply replyEnvelope responseEvents
  outputSampleRateHz Accepted acceptAll taken scriptTexts answering)
open Session (Event ActorState)
open Backend (ConversationEvent)

variable {cjson : Text → Option Value} {r : GoString} {reply : Reply} {body : Body} {turn : ActiveTurn}
  {h h' : Heard} {out : List Outbound} {c : Conn} {deltas : List Delta} {t : Transport}

-- ---------------------------------------------------------------------------
-- The client
-- ---------------------------------------------------------------------------

/-- The client's response is the one with these ids, and it wants to hear it. -/
structure Follows (t : Transport) (ids : WireIds) (responseId : String) : Prop where
  valid : ids.valid = true
  response : t.response = ids
  responseId : t.responseId = responseId
  heeds : t.discarding ids = false

/-- The client is where the protocol has this message next. -/
def Expects (t : Transport) (ids : WireIds) : Body → Prop
  | .responseStart _ => ids.stream ≠ 0 ∧ t.committed = true ∧ t.response.valid = false ∧
      t.responseCancelSent = false
  | .textDelta responseID _ => Follows t ids responseID.text
  | .audioStart responseID _ => Follows t ids responseID.text ∧ t.audioStarted = false
  | .responseDone responseID => Follows t ids responseID.text ∧ (t.audioStarted = true → t.audioEnded = true)
  | .error .. => ids.stream ≠ 0
  | _ => False

structure Awaits (t : Transport) (reply : Reply) : Prop where
  deviceId : t.deviceId = reply.deviceID
  active : t.active = true
  turn : (replyIds reply).sameTurn t.turn = true
  place : Expects t (replyIds reply) reply.body

def eventOf (reply : Reply) : Option Inbound :=
  match reply.body with
  | .responseStart _ => some (.responseStart (replyIds reply))
  | .textDelta _ text => some (.textDelta (replyIds reply) text.text)
  | .audioStart .. => some (.audioStart (replyIds reply))
  | .responseDone _ => some (.done (replyIds reply))
  | .error code message _ => some (.error (replyIds reply) code message)
  | _ => none

theorem sameTurn_epoch {a b : WireIds} (h : a.sameTurn b = true) : a.epoch = b.epoch := by
  simp only [WireIds.sameTurn, Bool.decide_and, Bool.and_eq_true, decide_eq_true_eq] at h
  exact h.2.2

theorem Awaits.fresh (ha : Awaits t reply) : t.isStale (replyIds reply) = false := by
  simp [Transport.isStale, sameTurn_epoch ha.turn, ha.active]

/-- A message the client awaits is taken where its strings keep their bounds. -/
theorem Awaits.onText (ha : Awaits t reply) (hs : spoken reply.body = true) (hb : bounded reply.body = true) :
    ∃ event, eventOf reply = some event ∧
      (t.onText { deviceId := reply.deviceID, ids := replyIds reply, payload := replyPayload reply.body }).2 =
        .emit event := by
  obtain ⟨body, messageID, deviceID, sessionID, turnID, streamID, epoch⟩ := reply
  have hstale := ha.fresh
  have hplace := ha.place
  rw [Transport.onText, if_neg (fun hn => hn ha.deviceId.symm)]
  cases body with
  | responseStart responseID =>
    obtain ⟨hstream, hcommitted, hresponse, hcancel⟩ := hplace
    refine ⟨_, rfl, ?_⟩
    simp [replyPayload, hstale, ha.active, hcommitted, hresponse, ha.turn, hstream, hcancel,
      show Transport.within responseID.text 1 128 = true from hb]
  | textDelta responseID text =>
    refine ⟨_, rfl, ?_⟩
    rw [bounded, Bool.and_eq_true] at hb
    simp [replyPayload, Transport.onResponse, hstale, ha.active, hplace.response, hplace.valid, hplace.responseId,
      hplace.heeds, hb.1, hb.2]
  | audioStart responseID sampleRateHz =>
    obtain ⟨hf, haudio⟩ := hplace
    have hrate : sampleRateHz = 24000 := of_decide_eq_true hs
    subst hrate
    refine ⟨_, rfl, ?_⟩
    simp [replyPayload, Transport.onResponse, hstale, ha.active, hf.response, hf.valid, hf.responseId, hf.heeds,
      haudio, show Transport.within responseID.text 1 128 = true from hb]
  | responseDone responseID =>
    obtain ⟨hf, haudio⟩ := hplace
    refine ⟨_, rfl, ?_⟩
    have hended : ¬ (t.audioStarted = true ∧ t.audioEnded = false) := by
      rintro ⟨hstarted, hended⟩
      simp [haudio hstarted] at hended
    simp [replyPayload, Transport.onResponse, hstale, ha.active, hf.response, hf.valid, hf.responseId, hf.heeds,
      hended, show Transport.within responseID.text 1 128 = true from hb]
  | error code message path =>
    refine ⟨_, rfl, ?_⟩
    rw [bounded, Bool.and_eq_true] at hb
    simp only [Expects] at hplace
    simp [replyPayload, hstale, hb.1, hb.2, ha.active, ha.turn, hplace]
  | helloAck | cancelled => cases hs

theorem onTextBytes_reply (hc : Client.ReadsJSON cjson)
    (hid : Wire.isValidDeviceId (Utf8.encode reply.deviceID.toList) = true)
    (hsize : byteLength (replyValue reply).text ≤ maxControlMessageBytes) (hs : spoken reply.body = true)
    (hnul : (stringsOf reply.body).all (fun s => nulFree s.text.toList) = true) (hd : t.deviceId = reply.deviceID) :
    t.onTextBytes cjson (Utf8.encode (replyValue reply).text) =
      t.onText { deviceId := reply.deviceID, ids := replyIds reply, payload := replyPayload reply.body } := by
  obtain ⟨hexact, hfields⟩ := schema_reply hs
  rw [Transport.onTextBytes, Utf8.decode_encode]
  dsimp only
  rw [Transport.onJson, parse_reply hc hid hsize hnul]
  have hdevice : (Client.parsed (replyEnvelope reply) (payloadValue reply.body)).deviceId = reply.deviceID :=
    String.ofList_toList
  have hsame : (Client.parsed (replyEnvelope reply) (payloadValue reply.body)).payload = payloadValue reply.body :=
    rfl
  dsimp only
  rw [hsame, hexact, hfields, hdevice, if_neg (fun hn => hn hd.symm)]
  rfl

theorem onTextBytes_nul (hid : Wire.isValidDeviceId (Utf8.encode reply.deviceID.toList) = true)
    (hsize : byteLength (replyValue reply).text ≤ maxControlMessageBytes)
    (hnul : (stringsOf reply.body).all (fun s => nulFree s.text.toList) = false) :
    (t.onTextBytes cjson (Utf8.encode (replyValue reply).text)).2 =
      .protocolError "escaped NUL is not allowed in JSON strings" := by
  rw [Transport.onTextBytes, Utf8.decode_encode]
  dsimp only
  rw [Transport.onJson, parse_nul hid hsize hnul]

-- ---------------------------------------------------------------------------
-- The strings of a response
-- ---------------------------------------------------------------------------

inductive Utters (r : GoString) (texts : List GoString) : Body → Prop
  | start : Utters r texts (.responseStart r)
  | text {piece : GoString} : piece ∈ texts → Utters r texts (.textDelta r piece)
  | announce : Utters r texts (.audioStart r outputSampleRateHz)
  | done : Utters r texts (.responseDone r)

theorem within_bytes {value : String} {m n : Nat} (h : Transport.within value m n = true) :
    m ≤ value.utf8ByteSize ∧ value.utf8ByteSize ≤ n :=
  of_decide_eq_true h

theorem Utters.mono {texts texts' : List GoString} (hu : Utters r texts body) (h : ∀ text ∈ texts, text ∈ texts') :
    Utters r texts' body := by
  cases hu with
  | start => exact .start
  | text hmem => exact .text (h _ hmem)
  | announce => exact .announce
  | done => exact .done

theorem Utters.spoken {texts : List GoString} (hu : Utters r texts body) : spoken body = true := by
  cases hu <;> rfl

structure Uttered (turn : ActiveTurn) (r : GoString) (texts : List GoString) (reply : Reply) : Prop where
  deviceID : reply.deviceID = turn.deviceID
  sessionID : reply.sessionID = turn.sessionID
  turnID : reply.turnID = turn.turnID
  streamID : reply.streamID = turn.downlinkStream
  epoch : reply.epoch = turn.epoch
  body : Utters r texts reply.body

theorem hears_uttered (hh : hears turn r out = some h) :
    ∀ reply, .control reply ∈ out → Uttered turn r h.texts reply := by
  refine Device.hears_rec (P := fun h out => ∀ reply, .control reply ∈ out → Uttered turn r h.texts reply)
    (by simp) ?_ hh
  intro h out m h' hi hm reply hmem
  rcases List.mem_append.mp hmem with hmem | hmem
  · have hu := hi reply hmem
    refine { hu with body := hu.body.mono fun text htext => ?_ }
    cases m with
    | control said =>
      have hs := Device.hear_control hm
      generalize said.body = body at hs
      cases hs with
      | text piece _ => exact List.mem_append_left _ htext
      | start | announce | done => exact htext
    | pcm header payload =>
      obtain ⟨-, rfl⟩ := Device.hear_pcm hm
      exact htext
  · rw [← List.mem_singleton.mp hmem] at hm
    have hs := Device.hear_control hm
    rw [Heard.hear, Option.ite_none_right_eq_some] at hm
    obtain ⟨hdevice, hsession, hturn, hstream, hepoch⟩ := hm.1
    refine ⟨hdevice, hsession, hturn, hstream, hepoch, ?_⟩
    generalize reply.body = body at hs
    cases hs with
    | start => exact .start
    | text piece _ => exact .text (List.mem_append_right _ (List.mem_singleton_self _))
    | announce => exact .announce
    | done => exact .done

def textsIn (out : List Outbound) : List String :=
  out.filterMap fun
    | .control reply => match eventOf reply with
      | some (.textDelta _ text) => some text
      | _ => none
    | .pcm .. => none

theorem hears_texts (hh : hears turn r out = some h) : textsIn out = h.texts.map GoString.text := by
  refine Device.hears_rec (P := fun h out => textsIn out = h.texts.map GoString.text) rfl ?_ hh
  intro h out m h' hi hm
  rw [textsIn, List.filterMap_append, ← textsIn, hi]
  cases m with
  | control reply =>
    have hs := Device.hear_control hm
    simp only [List.filterMap_cons, List.filterMap_nil, eventOf]
    generalize reply.body = body at hs ⊢
    cases hs <;> simp
  | pcm header payload =>
    obtain ⟨-, rfl⟩ := Device.hear_pcm hm
    simp

/-- As the client reads it, the string has at most `n` bytes and no U+0000. -/
structure Sendable (n : Nat) (s : GoString) : Prop where
  size : s.text.utf8ByteSize ≤ n
  nulFree : nulFree s.text.toList = true

/-- The strings of a response are UTF-8 and keep the client's bounds. -/
structure Hearable (r : GoString) (texts : List GoString) : Prop where
  valid : ∀ s ∈ r :: texts, s.valid = true
  responseID : r.bytes.length ≤ 128
  deltas : ∀ text ∈ texts, text.bytes.length ≤ 4096
  nulFree : ∀ s ∈ r :: texts, nulFree s.text.toList = true

theorem Hearable.sendable {texts : List GoString} (hh : Hearable r texts) :
    Sendable 128 r ∧ ∀ text ∈ texts, Sendable 4096 text := by
  have hsize : ∀ s ∈ r :: texts, s.text.utf8ByteSize = s.bytes.length :=
    fun s hs => GoString.length_text.mpr (hh.valid s hs)
  refine ⟨⟨?_, hh.nulFree r List.mem_cons_self⟩, fun text htext => ⟨?_, ?_⟩⟩
  · rw [hsize r List.mem_cons_self]
    exact hh.responseID
  · rw [hsize text (List.mem_cons_of_mem _ htext)]
    exact hh.deltas text htext
  · exact hh.nulFree text (List.mem_cons_of_mem _ htext)

theorem within_text {s : GoString} {n : Nat} (hne : s ≠ "") (hs : s.text.utf8ByteSize ≤ n) :
    Transport.within s.text 1 n = true := by
  have hpos : 0 < s.bytes.length := List.length_pos_iff.mpr (GoString.ne_empty.mp hne)
  simp only [Transport.within, Bool.decide_and, Bool.and_eq_true, decide_eq_true_eq]
  exact ⟨Nat.lt_of_lt_of_le hpos (GoString.length_le_text s), hs⟩

theorem Utters.bounded {texts : List GoString} (hu : Utters r texts body) (hr : r ≠ "")
    (hne : ∀ text ∈ texts, text ≠ "") (hid : Sendable 128 r) (hh : ∀ text ∈ texts, Sendable 4096 text) :
    bounded body = true := by
  have hwithin : Transport.within r.text 1 128 = true := within_text hr hid.size
  cases hu with
  | start | announce | done => exact hwithin
  | text hmem =>
    rw [Dialogue.bounded, hwithin, Bool.true_and]
    exact within_text (hne _ hmem) (hh _ hmem).size

theorem Utters.utf8 {texts : List GoString} (hu : Utters r texts body) (hh : Hearable r texts) :
    ∀ s ∈ stringsOf body, GoString.ofString s.text = s := by
  have hstring : ∀ s ∈ stringsOf body, s ∈ r :: texts := by
    cases hu with
    | start | announce | done => simp [stringsOf]
    | text hmem => simp [stringsOf, hmem]
  exact fun s hs => GoString.ofString_text (hh.valid s (hstring s hs))

theorem Utters.nulFree {texts : List GoString} (hu : Utters r texts body) (hid : Sendable 128 r)
    (hh : ∀ text ∈ texts, Sendable 4096 text) :
    (stringsOf body).all (fun s => Dialogue.nulFree s.text.toList) = true := by
  have hr := hid.nulFree
  cases hu with
  | start | announce | done => simp [stringsOf, hr]
  | text hmem => simp [stringsOf, hr, (hh _ hmem).nulFree]

/-- The identities of a turn, as `uint32`, and the device's as a UUID. -/
structure Addressed (turn : ActiveTurn) : Prop where
  deviceID : Wire.isValidDeviceId (Utf8.encode turn.deviceID.toList) = true
  sessionID : turn.sessionID < 2 ^ 32
  turnID : turn.turnID < 2 ^ 32
  streamID : turn.downlinkStream < 2 ^ 32
  epoch : turn.epoch < 2 ^ 32

theorem Uttered.valid {texts : List GoString} (hu : Uttered c.turn r texts reply) (hf : Fresh c)
    (ha : Addressed c.turn) : (replyIds reply).valid = true := by
  have hofNat : ∀ {n : Nat}, n ≠ 0 → n < 2 ^ 32 → UInt32.ofNat n ≠ 0 := by
    intro n hn hlt hzero
    have h0 := congrArg UInt32.toNat hzero
    rw [UInt32.toNat_ofNat_of_lt' hlt] at h0
    exact hn h0
  obtain ⟨hsession, hturn, hstream⟩ := hf.ids
  simp only [replyIds, WireIds.valid, hu.sessionID, hu.turnID, hu.streamID, hu.epoch, Bool.decide_and,
    Bool.and_eq_true, decide_eq_true_eq]
  exact ⟨hofNat hsession ha.sessionID, hofNat hturn ha.turnID, hofNat hstream ha.streamID,
    hofNat hf.epoch ha.epoch⟩

def follower (reply : Reply) (responseID : GoString) : Transport where
  deviceId := reply.deviceID
  uuid := []
  turn := replyIds reply
  response := replyIds reply
  responseId := responseID.text
  active := true
  committed := true

theorem exists_awaits (hids : (replyIds reply).valid = true) (hs : spoken reply.body = true) :
    ∃ t, Awaits t reply := by
  have hturn : ∀ t : Transport, t.turn = replyIds reply → (replyIds reply).sameTurn t.turn = true := by
    intro t ht
    simp [WireIds.sameTurn, ht]
  have hstream : (replyIds reply).stream ≠ 0 := (of_decide_eq_true hids).2.2.1
  have hfollows : ∀ responseID : GoString, Follows (follower reply responseID) (replyIds reply) responseID.text :=
    fun responseID => ⟨hids, rfl, rfl, by simp [Transport.discarding, follower]⟩
  cases hb : reply.body with
  | responseStart responseID =>
    refine ⟨{ follower reply responseID with response := {} }, rfl, rfl, hturn _ rfl, ?_⟩
    rw [hb]
    exact ⟨hstream, rfl, rfl, rfl⟩
  | textDelta responseID text =>
    refine ⟨follower reply responseID, rfl, rfl, hturn _ rfl, ?_⟩
    rw [hb]
    exact hfollows responseID
  | audioStart responseID sampleRateHz =>
    refine ⟨follower reply responseID, rfl, rfl, hturn _ rfl, ?_⟩
    rw [hb]
    exact ⟨hfollows responseID, rfl⟩
  | responseDone responseID =>
    refine ⟨follower reply responseID, rfl, rfl, hturn _ rfl, ?_⟩
    rw [hb]
    exact ⟨hfollows responseID, nofun⟩
  | error code message path =>
    refine ⟨follower reply "", rfl, rfl, hturn _ rfl, ?_⟩
    rw [hb]
    exact hstream
  | helloAck | cancelled => simp [hb, spoken] at hs

/-- A message is within the bounds, fits into a frame, and every client that awaits it takes it. -/
def Taken (cjson : Text → Option Value) (reply : Reply) : Prop :=
  bounded reply.body = true ∧ ∃ data, encodeReply reply = .ok data ∧ data.length ≤ maxControlMessageBytes ∧
    ∀ t, Awaits t reply → ∃ event, eventOf reply = some event ∧ (t.onTextBytes cjson data).2 = .emit event

/-- A message that is taken has no U+0000. -/
theorem Taken.nulFree (htaken : Taken cjson reply)
    (hid : Wire.isValidDeviceId (Utf8.encode reply.deviceID.toList) = true) (hs : spoken reply.body = true)
    (hids : (replyIds reply).valid = true) : ∀ s ∈ stringsOf reply.body, nulFree s.text.toList = true := by
  obtain ⟨-, data, hdata, -, htakes⟩ := htaken
  obtain ⟨hsize, rfl⟩ := (encodeReply_ok hid hs).mp hdata
  obtain ⟨t, ht⟩ := exists_awaits hids hs
  obtain ⟨event, -, hevent⟩ := htakes t ht
  cases hnul : (stringsOf reply.body).all fun s => Dialogue.nulFree s.text.toList with
  | true => exact List.all_eq_true.mp hnul
  | false =>
    rw [onTextBytes_nul hid hsize hnul] at hevent
    cases hevent

theorem taken_of_bounded (hc : Client.ReadsJSON cjson)
    (hid : Wire.isValidDeviceId (Utf8.encode reply.deviceID.toList) = true) (hs : spoken reply.body = true)
    (hb : bounded reply.body = true)
    (hnul : (stringsOf reply.body).all (fun s => nulFree s.text.toList) = true) : Taken cjson reply := by
  have hsize := reply_byteLength hid hs hb
  refine ⟨hb, _, (encodeReply_ok hid hs).mpr ⟨hsize, rfl⟩, hsize, fun t ht => ?_⟩
  rw [onTextBytes_reply hc hid hsize hs hnul ht.deviceId]
  exact ht.onText hs hb

theorem accepted_nonempty
    (h : ∀ event ∈ responseEvents c.turn.epoch r deltas, Session.validProviderEvent event.raw = none) :
    r ≠ "" ∧ ∀ text ∈ textsOf deltas, text ≠ "" := by
  constructor
  · have hstarted := h _ List.mem_cons_self
    by_contra hnone
    simp [Session.validProviderEvent, Device.startedEvent, hnone] at hstarted
  · intro text htext
    obtain ⟨d, hd, hsome⟩ := List.mem_filterMap.mp htext
    cases d with
    | audio pcm => cases hsome
    | text piece =>
      cases hsome
      have hmem : Delta.event c.turn.epoch r (.text text) ∈ responseEvents c.turn.epoch r deltas := by
        simp only [responseEvents, List.mem_cons, List.mem_append, List.mem_map]
        exact .inr (.inl ⟨_, hd, rfl⟩)
      have hvalid := h _ hmem
      intro hnone
      simp [Session.validProviderEvent, Delta.event, hnone] at hvalid

-- ---------------------------------------------------------------------------
-- Any answer
-- ---------------------------------------------------------------------------

def utf8Of (texts : List String) : List UInt8 := texts.flatMap fun text => Utf8.encode text.toList

def bytesOf (texts : List GoString) : List UInt8 := texts.flatMap GoString.bytes

/-- Every control message that is sent is one the client takes, and once the answer is over,
what it has been told is what the provider said. A message that does not encode counts as
sent, and is not taken. -/
structure Conforms (cjson : Text → Option Value) (c : Conn) (script : List Event) : Prop where
  messages : ∀ s, (answering c script).Reachable s → ∀ reply, .control reply ∈ s.out → Taken cjson reply
  texts : ∀ s, (answering c script).Reachable s → s.over = true →
    utf8Of (textsIn s.out) = bytesOf (scriptTexts script)

/-- No text is behind an event that the forwarder gives up on, and all are UTF-8. -/
structure Whole (script : List Event) : Prop where
  taken : scriptTexts (taken script) = scriptTexts script
  valid : ∀ text ∈ scriptTexts script, text.valid = true

/-- Texts are lost, and U+FFFD in the others makes up for their bytes. -/
structure Coincides (script : List Event) : Prop where
  lost : scriptTexts (taken script) ≠ scriptTexts script
  spelled : utf8Of ((scriptTexts (taken script)).map GoString.text) = bytesOf (scriptTexts script)

/-- The strings up to the first event the forwarder gives up on keep the client's bounds,
and nothing of the text is lost. -/
structure Deliverable (script : List Event) : Prop where
  responseID : ∀ e ∈ taken script, Sendable 128 e.raw.responseID
  deltas : ∀ text ∈ scriptTexts (taken script), Sendable 4096 text
  texts : Whole script ∨ Coincides script

theorem length_encode_text (s : GoString) : (Utf8.encode s.text.toList).length = s.text.utf8ByteSize := by
  rw [GoString.utf8ByteSize_text, GoString.text, String.toList_ofList]
  rfl

theorem length_bytesOf_le (texts : List GoString) :
    (bytesOf texts).length ≤ (utf8Of (texts.map GoString.text)).length := by
  induction texts with
  | nil => exact Nat.le_refl _
  | cons text texts ih =>
    have hlength := GoString.length_le_text text
    rw [← length_encode_text] at hlength
    simpa [bytesOf, utf8Of] using Nat.add_le_add hlength ih

theorem utf8Of_text {texts : List GoString} :
    utf8Of (texts.map GoString.text) = bytesOf texts ↔ ∀ text ∈ texts, text.valid = true := by
  induction texts with
  | nil => exact iff_of_true rfl nofun
  | cons text texts ih =>
    have hsplit : utf8Of ((text :: texts).map GoString.text) =
        Utf8.encode text.text.toList ++ utf8Of (texts.map GoString.text) := rfl
    have hbytes : bytesOf (text :: texts) = text.bytes ++ bytesOf texts := rfl
    rw [hsplit, hbytes, List.forall_mem_cons, ← ih]
    constructor
    · intro h
      have hlength := congrArg List.length h
      have hrest := length_bytesOf_le texts
      have hfirst := GoString.length_le_text text
      rw [List.length_append, List.length_append, length_encode_text] at hlength
      have hvalid : text.valid = true := GoString.length_text.mp (by omega)
      refine ⟨hvalid, (List.append_inj h ?_).2⟩
      rw [length_encode_text, GoString.length_text.mpr hvalid]
    · rintro ⟨hvalid, hrest⟩
      have hsame := congrArg GoString.bytes (GoString.ofString_text hvalid)
      rw [GoString.bytes_ofString] at hsame
      rw [hsame, hrest]

theorem spelled_iff {script : List Event} :
    utf8Of ((scriptTexts (taken script)).map GoString.text) = bytesOf (scriptTexts script) ↔
      Whole script ∨ Coincides script := by
  by_cases hlost : scriptTexts (taken script) = scriptTexts script
  · constructor
    · intro h
      rw [hlost] at h
      exact .inl ⟨hlost, utf8Of_text.mp h⟩
    · rintro (h | h)
      · rw [hlost]
        exact utf8Of_text.mpr h.valid
      · exact absurd hlost h.lost
  · constructor
    · exact fun h => .inr ⟨hlost, h⟩
    · rintro (h | h)
      · exact absurd h.taken hlost
      · exact h.spelled

/-- What only a control message with this body brings about has been brought about by one. -/
theorem mem_reply {Q : Heard → Prop} {body : Body} (h0 : ¬ Q {})
    (hsay : ∀ h body' h', Device.Spoken r h body' h' → Q h' → Q h ∨ body' = body)
    (hframe : ∀ h payloads ended, Q { h with payloads, ended } → Q h)
    (hh : hears turn r out = some h) (hq : Q h) : ∃ reply, .control reply ∈ out ∧ reply.body = body := by
  refine Device.hears_rec (P := fun h out => Q h → ∃ reply, .control reply ∈ out ∧ reply.body = body)
    (fun hq => absurd hq h0) ?_ hh hq
  intro h out m h' hi hm hq
  have hold : Q h → ∃ reply, .control reply ∈ out ++ [m] ∧ reply.body = body := by
    intro hq
    obtain ⟨reply, hreply, hbody⟩ := hi hq
    exact ⟨reply, List.mem_append_left _ hreply, hbody⟩
  cases m with
  | control reply =>
    rcases hsay h reply.body h' (Device.hear_control hm) hq with hq | hbody
    · exact hold hq
    · exact ⟨reply, List.mem_append_right _ (List.mem_singleton_self _), hbody⟩
  | pcm header payload =>
    obtain ⟨-, rfl⟩ := Device.hear_pcm hm
    exact hold (hframe _ _ _ hq)

theorem mem_texts (hh : hears turn r out = some h) {text : GoString} (hmem : text ∈ h.texts) :
    ∃ reply, .control reply ∈ out ∧ reply.body = .textDelta r text := by
  refine mem_reply (Q := fun h => text ∈ h.texts) List.not_mem_nil ?_ (fun _ _ _ hmem => hmem) hh hmem
  intro h body h' hs hmem
  cases hs with
  | text piece =>
    rcases List.mem_append.mp hmem with hmem | hmem
    · exact .inl hmem
    · exact .inr (by rw [List.mem_singleton.mp hmem])
  | start | announce | done => exact .inl hmem

theorem mem_started (hh : hears turn r out = some h) (hs : h.started = true) :
    ∃ reply, .control reply ∈ out ∧ reply.body = .responseStart r := by
  refine mem_reply (Q := fun h => h.started = true) Bool.false_ne_true ?_ (fun _ _ _ hs => hs) hh hs
  intro h body h' hs hstarted
  cases hs with
  | start => exact .inr rfl
  | text | announce | done => exact .inl hstarted

variable {script : List Event} {s : Device.Response} {e : Event}

theorem mem_taken {script : List Event} {started : Bool} (h : e ∈ Device.takenFrom started script) :
    e ∈ script ∧ e.raw.type ≠ .error := by
  induction script generalizing started with
  | nil => cases h
  | cons first script ih =>
    rw [Device.takenFrom] at h
    split at h
    · rename_i hgo
      rcases List.mem_cons.mp h with rfl | h
      · refine ⟨List.mem_cons_self, fun herror => ?_⟩
        simp [Device.goesOn, herror] at hgo
      · exact ⟨List.mem_cons_of_mem _ (ih h).1, (ih h).2⟩
    · cases h

theorem accepted_strings {raw : ConversationEvent} (hv : Session.validProviderEvent raw = none) :
    (raw.type ≠ .error → raw.responseID ≠ "") ∧ (raw.type = .textDelta → raw.text ≠ "") := by
  constructor
  · intro hne hid
    cases htype : raw.type <;> simp_all [Session.validProviderEvent]
  · intro htype hnone
    simp [Session.validProviderEvent, htype, hnone] at hv

theorem textsIn_answered {texts : List GoString} (ha : Device.Answered turn r texts out h) :
    textsIn out = h.texts.map GoString.text := by
  obtain ⟨said, hh, rfl | ⟨reply, rfl, hreport⟩⟩ := ha.heard
  · exact hears_texts hh
  · rw [← hears_texts hh]
    simp [textsIn, eventOf, hreport.body]

theorem Conforms.deliverable (h : Conforms cjson c script) (hf : Fresh c) (ha : Addressed c.turn)
    (hacc : Accepted c.turn.epoch r script) : Deliverable script := by
  obtain ⟨s, hs, hover⟩ := Device.exists_over hacc (fun _ => rfl) hf
  obtain ⟨g, hanswered, hsaid⟩ := Device.answered hacc (fun _ => rfl) hf hs
  obtain ⟨said, hh, hout⟩ := hanswered.heard
  obtain ⟨htexts, hstarted⟩ := hsaid hover
  have hsent : ∀ {reply}, .control reply ∈ said → Taken cjson reply ∧
      ∀ str ∈ stringsOf reply.body, nulFree str.text.toList = true := by
    intro reply hmem
    have hu := hears_uttered hh reply hmem
    have htaken : Taken cjson reply := by
      refine h.messages s hs reply ?_
      rcases hout with hout | ⟨report, hout, -⟩
      · rw [hout]
        exact hmem
      · rw [hout]
        exact List.mem_append_left _ hmem
    exact ⟨htaken, htaken.nulFree (hu.deviceID ▸ ha.deviceID) hu.body.spoken (hu.valid hf ha)⟩
  refine ⟨fun e he => ?_, fun text htext => ?_, spelled_iff.mp ?_⟩
  · obtain ⟨reply, hreply, hbody⟩ := mem_started hh (hstarted (List.ne_nil_of_mem he))
    obtain ⟨⟨hb, -⟩, hnul⟩ := hsent hreply
    rw [hbody] at hb hnul
    obtain ⟨hmem, hne⟩ := mem_taken he
    rw [hacc.responseID e hmem hne]
    exact ⟨(within_bytes hb).2, hnul r (List.mem_singleton_self _)⟩
  · obtain ⟨reply, hreply, hbody⟩ := mem_texts hh (htexts ▸ htext)
    obtain ⟨⟨hb, -⟩, hnul⟩ := hsent hreply
    rw [hbody] at hb hnul
    rw [bounded, Bool.and_eq_true] at hb
    exact ⟨(within_bytes hb.2).2, hnul text (by simp [stringsOf])⟩
  · rw [← htexts, ← textsIn_answered hanswered]
    exact h.texts s hs hover

/-- The messages of an answer keep to the protocol and the client takes them and is told all of
the provider's text, exactly where the strings keep the bounds and no text is lost. -/
theorem response_conforms {state : ActorState} {raws : List ConversationEvent} (hc : Client.ReadsJSON cjson)
    (hf : Fresh c) (ha : Addressed c.turn) (hr : state.phase.responding = true)
    (he : state.epoch = c.turn.epoch) :
    Conforms cjson c (acceptAll state raws) ↔ Deliverable (acceptAll state raws) := by
  obtain ⟨r₀, hacc⟩ := Device.acceptAll_accepted raws hr
  rw [he] at hacc
  generalize acceptAll state raws = script at hacc
  refine ⟨fun h => h.deliverable hf ha hacc, fun hd => ?_⟩
  -- without an event of the response no message has an ID
  obtain ⟨r, hsame, hne, hid⟩ : ∃ r, (taken script ≠ [] → r = r₀) ∧ r ≠ "" ∧ Sendable 128 r := by
    cases htaken : taken script with
    | nil => exact ⟨"r", fun hsome => absurd rfl hsome, by decide, by decide +kernel, by decide +kernel⟩
    | cons e rest =>
      have hmem : e ∈ taken script := htaken ▸ List.mem_cons_self
      obtain ⟨hscript, herror⟩ := mem_taken hmem
      refine ⟨e.raw.responseID, fun _ => hacc.responseID e hscript herror, ?_, hd.responseID e hmem⟩
      exact (accepted_strings (hacc.valid e hscript)).1 herror
  have hnonempty : ∀ text ∈ scriptTexts (taken script), text ≠ "" := by
    intro text htext
    obtain ⟨e, hmem, hsome⟩ := List.mem_filterMap.mp htext
    rw [Option.ite_none_right_eq_some, Option.some.injEq] at hsome
    obtain ⟨htype, rfl⟩ := hsome
    exact (accepted_strings (hacc.valid e (mem_taken hmem).1)).2 htype
  constructor
  · intro s hs reply hmem
    obtain ⟨g, ⟨⟨said, hh, hout⟩, htold⟩, -⟩ := Device.answered hacc hsame hf hs
    have hresponse : .control reply ∈ said → Taken cjson reply := by
      intro hmem
      have hu := hears_uttered hh reply hmem
      have hbody := hu.body.mono htold
      exact taken_of_bounded hc (hu.deviceID ▸ ha.deviceID) hbody.spoken (hbody.bounded hne hnonempty hid hd.deltas)
        (hbody.nulFree hid hd.deltas)
    rcases hout with hout | ⟨report, hout, hreport⟩
    · exact hresponse (hout ▸ hmem)
    · rw [hout] at hmem
      rcases List.mem_append.mp hmem with hmem | hmem
      · exact hresponse hmem
      · cases List.mem_singleton.mp hmem
        refine taken_of_bounded hc (hreport.deviceID ▸ ha.deviceID) ?_ ?_ ?_ <;> rw [hreport.body] <;> decide +kernel
  · intro s hs hover
    obtain ⟨g, hanswered, hsaid⟩ := Device.answered hacc hsame hf hs
    rw [textsIn_answered hanswered, (hsaid hover).1]
    exact spelled_iff.mpr hd.texts

def readsDocuments (text : Text) : Option Value := (Json.document text).map (·.value)

theorem readsDocuments_reads : Client.ReadsJSON readsDocuments :=
  ⟨fun d _ _ _ => by rw [readsDocuments, Json.document_text]; rfl⟩

theorem addressed_spoken : Addressed Device.spoken.turn := by
  constructor <;> decide +kernel

instance {n : Nat} {s : GoString} : Decidable (Sendable n s) :=
  decidable_of_iff (s.text.utf8ByteSize ≤ n ∧ nulFree s.text.toList = true)
    ⟨fun h => ⟨h.1, h.2⟩, fun h => ⟨h.size, h.nulFree⟩⟩

def committed : ActorState := { phase := .thinking, latest := 1, epoch := 1 }

theorem committed_epoch : committed.epoch = Device.spoken.turn.epoch := by decide +kernel

/-- An answer in two languages; the events of another response and behind Done are dropped. -/
def spokenAnswer : List ConversationEvent :=
  [{ type := .started, responseID := "r" }, { type := .textDelta, responseID := "r", text := "It is " },
    { type := .audio, responseID := "r", sampleRateHz := 24000, pcm := List.replicate 1000 7 },
    { type := .textDelta, responseID := "q", text := "late" },
    { type := .textDelta, responseID := "r", text := "三点" },
    { type := .audio, responseID := "r", sampleRateHz := 24000, pcm := List.replicate 920 9 },
    { type := .done, responseID := "r" }, { type := .textDelta, responseID := "r", text := "!" }]

theorem spokenAnswer_deliverable : Deliverable (acceptAll committed spokenAnswer) := by
  refine ⟨by decide +kernel, by decide +kernel, .inl ⟨by decide +kernel, by decide +kernel⟩⟩

theorem response_conforms_sample :
    bytesOf (scriptTexts (acceptAll committed spokenAnswer)) = utf8Of ["It is ", "三点"] ∧
      Conforms readsDocuments Device.spoken (acceptAll committed spokenAnswer) :=
  ⟨by decide +kernel, (response_conforms readsDocuments_reads Device.fresh_spoken addressed_spoken rfl
    committed_epoch).mpr spokenAnswer_deliverable⟩

/-- A text with U+0000, which the actor takes and the client does not. -/
def nulAnswer : List ConversationEvent :=
  [{ type := .started, responseID := "r" }, { type := .textDelta, responseID := "r", text := "\x00" },
    { type := .done, responseID := "r" }]

theorem nulDelta_refused : (acceptAll committed nulAnswer).map (·.raw) = nulAnswer ∧
    ¬ Conforms readsDocuments Device.spoken (acceptAll committed nulAnswer) := by
  refine ⟨by decide +kernel, fun h => ?_⟩
  have hr : committed.phase.responding = true := rfl
  obtain ⟨r, hacc⟩ := Device.acceptAll_accepted nulAnswer hr
  rw [committed_epoch] at hacc
  have hd := h.deliverable Device.fresh_spoken addressed_spoken hacc
  have hnul : ¬ ∀ text ∈ scriptTexts (taken (acceptAll committed nulAnswer)), Sendable 4096 text := by decide +kernel
  exact hnul hd.deltas

end BoomPI.Dialogue
