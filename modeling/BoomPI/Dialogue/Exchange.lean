import BoomPI.Dialogue.Conformance
import BoomPI.Wire.Agreement

/-!
# A response and its client

The forwarder over the events of one response and the transport of the client
that committed the turn, with the socket between them: what the writer has
taken off the queue arrives in that order, as bytes.
-/

namespace BoomPI.Dialogue

open Json (Text Value)
open Backend (Error)
open Protocol (Body Reply Outbound uint32)
open Client (Transport Inbound WireIds Control QueueCapacity Pcm64Header)
open Device (Conn ActiveTurn Delta Fresh Heard hears textsOf audioOf silence encodeReply Response ResponseLabel
  response responseEvents outputFrameBytes outputSampleRateHz)
open Wire (wireHeader sendPCM)

-- ---------------------------------------------------------------------------
-- The machine
-- ---------------------------------------------------------------------------

/-- The client takes a message as it comes off the wire. One that cannot be encoded ends
the connection. -/
def takes (cjson : Text → Option Value) (t : Transport) : Outbound → Transport × Transport.Outcome
  | .control reply =>
    match encodeReply reply with
    | .ok data => t.onTextBytes cjson data
    | .error _ => (t, .protocolError "the message is not sent")
  | .pcm header payload =>
    match sendPCM (wireHeader header) payload with
    | .ok bytes => t.onBinary bytes
    | .error _ => (t, .protocolError "the frame is not sent")

/-- `taken` counts the messages of the response the client has taken, `outcomes` is what it
made of them. -/
structure Exchange where
  server : Response
  client : Transport
  taken : Nat := 0
  outcomes : List Transport.Outcome := []
  deriving DecidableEq, Repr

inductive ExchangeLabel
  | server (l : ResponseLabel)
  | deliver
  deriving DecidableEq, Repr

def Exchange.step (cjson : Text → Option Value) (x : Exchange) : ExchangeLabel → Option Exchange
  | .server l => (x.server.step l).map fun server => { x with server }
  | .deliver =>
    match x.server.out[x.taken]? with
    | none => none
    | some message =>
      if x.server.conn.written ≤ x.server.before + x.taken then none
      else
        let (client, outcome) := takes cjson x.client message
        some { x with client, taken := x.taken + 1, outcomes := x.outcomes ++ [outcome] }

/-- The forwarder at the head of its loop, and the client that has taken everything sent
before the response. -/
def exchange (cjson : Text → Option Value) (c : Conn) (r : GoString) (deltas : List Delta) (t : Transport) :
    Lts.Machine Exchange ExchangeLabel where
  Init x := ∃ server, (response c r deltas).Init server ∧ x = { server, client := t }
  step := Exchange.step cjson

-- ---------------------------------------------------------------------------
-- What the application hears
-- ---------------------------------------------------------------------------

/-- An event of the response `ids`, in the order the application expects: the start, then
texts, and frames numbered from 0 behind one announcement, then the end, which no
unfinished audio precedes. -/
def hearEvent (ids : WireIds) (h : Heard) : Inbound → Option Heard
  | .responseStart i =>
    if i = ids ∧ ¬ h.started ∧ ¬ h.done then some { h with started := true } else none
  | .textDelta i text =>
    if i = ids ∧ h.started ∧ ¬ h.done then some { h with texts := h.texts ++ [(text : GoString)] } else none
  | .audioStart i =>
    if i = ids ∧ h.started ∧ ¬ h.announced ∧ ¬ h.done then some { h with announced := true } else none
  | .pcm header payload =>
    if header.ids = ids ∧ h.announced ∧ ¬ h.ended ∧ ¬ h.done ∧
        header.sequence.toNat = h.payloads.length ∧ (header.flags &&& 1 ≠ 0 ↔ h.payloads = []) ∧
        header.flags &&& 4 = 0 then
      some { h with payloads := h.payloads ++ [payload], ended := header.flags &&& 2 ≠ 0 }
    else none
  | .done i =>
    if i = ids ∧ h.started ∧ ¬ h.done ∧ (h.announced → h.ended) then some { h with done := true } else none
  | _ => none

def hearEvents (ids : WireIds) (events : List Inbound) : Option Heard := events.foldlM (hearEvent ids) {}

variable {cjson : Text → Option Value} {c : Conn} {r : GoString} {deltas : List Delta} {t t' : Transport}
  {turn : ActiveTurn} {h h' : Heard} {reply : Reply}

-- ---------------------------------------------------------------------------
-- The client's turn
-- ---------------------------------------------------------------------------

/-- The turn of a client is one of its session, and no response begins before turn.commit. -/
structure Underway (t : Transport) : Prop where
  valid : t.active = true → t.turn.valid = true
  session : t.active = true → t.turn.session = t.session
  epoch : t.active = true → ¬ t.turn.epoch < t.sessionEpoch
  silent : t.committed = false → t.response.valid = false

theorem Underway.of_same (hu : Underway t) (hs : t'.session = t.session ∧ t'.sessionEpoch = t.sessionEpoch)
    (ht : t'.turn = t.turn) (ha : t'.active = true → t.active = true)
    (hr : t'.response = t.response ∧ t'.committed = t.committed) : Underway t' where
  valid h := by
    rw [ht]
    exact hu.valid (ha h)
  session h := by
    rw [ht, hs.1]
    exact hu.session (ha h)
  epoch h := by
    rw [ht, hs.2]
    exact hu.epoch (ha h)
  silent h := by
    rw [hr.1]
    exact hu.silent (hr.2 ▸ h)

theorem Underway.onResponse (hu : Underway t) (ids : WireIds) (payload : Transport.Payload) :
    Underway (t.onResponse ids payload).1 := by
  unfold Transport.onResponse
  split
  · exact hu
  · split
    · exact hu
    · cases payload <;> dsimp only <;> repeat' split
      all_goals first
        | exact hu
        | exact hu.of_same ⟨rfl, rfl⟩ rfl id ⟨rfl, rfl⟩
        | exact hu.of_same ⟨rfl, rfl⟩ rfl (by simp) ⟨rfl, rfl⟩

theorem Underway.onText (hu : Underway t) (e : Transport.Envelope) : Underway (t.onText e).1 := by
  unfold Transport.onText
  split
  · exact hu
  · split
    · -- hello.ack comes before every turn
      split
      · exact hu
      · split
        · exact hu
        · rename_i hids _
          have hidle : t.session = 0 := by
            by_contra hn
            exact hids (.inl hn)
          have hinactive : t.active = false := by
            by_contra ha
            have hactive : t.active = true := by simpa using ha
            obtain ⟨hsession, -⟩ := of_decide_eq_true (hu.valid hactive)
            exact hsession ((hu.session hactive).trans hidle)
          exact ⟨by simp [hinactive], by simp [hinactive], by simp [hinactive], hu.silent⟩
    · repeat' split
      all_goals first
        | exact hu
        | skip
      rename_i hplace _
      refine ⟨hu.valid, hu.session, hu.epoch, fun hc => ?_⟩
      exact absurd (.inr (.inl (by simpa using hc))) hplace
    · dsimp only
      repeat' split
      all_goals first
        | exact hu
        | exact hu.of_same ⟨rfl, rfl⟩ rfl (by simp) ⟨rfl, rfl⟩
    · dsimp only
      repeat' split
      all_goals first
        | exact hu
        | exact hu.of_same ⟨rfl, rfl⟩ rfl (fun h => (Bool.and_eq_true_iff.mp h).1) ⟨rfl, rfl⟩
    · exact hu.onResponse _ _

theorem Underway.onPcm (hu : Underway t) (header : Pcm64Header) (audio : List UInt8) :
    Underway (t.onPcm header audio).1 := by
  unfold Transport.onPcm
  repeat' split
  all_goals first
    | exact hu
    | exact hu.of_same ⟨rfl, rfl⟩ rfl id ⟨rfl, rfl⟩

theorem Underway.send (hu : Underway t) (control : Control) (capacity : QueueCapacity) :
    Underway (t.send control capacity).2.2 := by
  unfold Transport.send
  split
  · exact hu
  · exact hu
  · rename_i hadmits
    split
    · unfold Transport.sent
      split
      · exact hu
      · rename_i hk
        obtain ⟨-, hvalid, -, hsession, hepoch, -⟩ := (Transport.admits_turnStart hk).mp hadmits
        exact ⟨fun _ => hvalid, fun _ => hsession, fun _ => hepoch, fun _ => rfl⟩
      · exact ⟨hu.valid, hu.session, hu.epoch, by simp⟩
      · exact hu.of_same ⟨rfl, rfl⟩ rfl id ⟨rfl, rfl⟩
      · exact hu.of_same ⟨rfl, rfl⟩ rfl id ⟨rfl, rfl⟩
    · exact hu

theorem underway_reachable (ht : Transport.machine.Reachable t) : Underway t := by
  apply ht.invariant
  · rintro t ⟨deviceId, uuid, -, rfl⟩
    exact ⟨by simp, by simp, by simp, fun _ => rfl⟩
  · intro t l t' hu hst
    cases hst
    cases l with
    | send control capacity => exact hu.send control capacity
    | sendPcm header pcm capacity =>
      simp only [Transport.step, Transport.sendPcm]
      split
      · exact hu
      · split
        · exact hu
        · exact hu
        · exact hu.of_same ⟨rfl, rfl⟩ rfl id ⟨rfl, rfl⟩
    | onText e => exact hu.onText e
    | onBinary bytes =>
      simp only [Transport.step, Transport.onBinary]
      split
      · exact hu
      · exact hu.onPcm _ _

-- ---------------------------------------------------------------------------
-- The client in the turn
-- ---------------------------------------------------------------------------

def responseIds (turn : ActiveTurn) : WireIds where
  session := .ofNat turn.sessionID
  turn := .ofNat turn.turnID
  stream := .ofNat turn.downlinkStream
  epoch := .ofNat turn.epoch

structure Shares (t : Transport) (turn : ActiveTurn) : Prop where
  deviceId : t.deviceId = turn.deviceID
  uuid : t.uuid = turn.deviceUUID
  ids : (responseIds turn).sameTurn t.turn = true
  session : t.turn.session = t.session
  epoch : ¬ t.turn.epoch < t.sessionEpoch

theorem Shares.of_same (hs : Shares t turn) (ht : t'.deviceId = t.deviceId ∧ t'.uuid = t.uuid ∧ t'.turn = t.turn)
    (he : t'.session = t.session ∧ t'.sessionEpoch = t.sessionEpoch) : Shares t' turn where
  deviceId := ht.1.trans hs.deviceId
  uuid := ht.2.1.trans hs.uuid
  ids := by
    rw [ht.2.2]
    exact hs.ids
  session := by
    rw [ht.2.2, he.1]
    exact hs.session
  epoch := by
    rw [ht.2.2, he.2]
    exact hs.epoch

structure Hears (t : Transport) (turn : ActiveTurn) (r : GoString) (h : Heard) : Prop extends Shares t turn where
  committed : t.committed = true
  uncancelled : t.responseCancelSent = false
  active : t.active = ! h.done
  silent : h.started = false → t.response.valid = false ∧ h = {}
  started : h.started = true → t.response = responseIds turn ∧ t.responseId = r ∧
    t.audioStarted = h.announced ∧ t.audioEnded = h.ended ∧
    t.downlinkSequence = .ofNat h.payloads.length ∧ t.discardDownlink = false

structure Accepts (cjson : Text → Option Value) (turn : ActiveTurn) (r : GoString) (t : Transport) (m : Outbound)
    (h h' : Heard) (t' : Transport) (event : Inbound) : Prop where
  takes : takes cjson t m = (t', .emit event)
  event : hearEvent (responseIds turn) h event = some h'
  hears : Hears t' turn r h'

theorem Hears.fresh (hh : Hears t turn r h) (hd : h.done = false) :
    t.isStale (responseIds turn) = false := by
  have hactive := hh.active
  rw [hd] at hactive
  simp [Transport.isStale, sameTurn_epoch hh.ids, hactive]

theorem Hears.heeds (hh : Hears t turn r h) (hs : h.started = true) :
    t.discarding (responseIds turn) = false := by
  obtain ⟨-, -, -, -, -, hdiscard⟩ := hh.started hs
  simp [Transport.discarding, hh.uncancelled, hdiscard]

theorem hear_ids (hm : h.hear turn r (.control reply) = some h') :
    reply.deviceID = turn.deviceID ∧ replyIds reply = responseIds turn ∧ h.say r reply.body = some h' := by
  rw [Heard.hear, Option.ite_none_right_eq_some] at hm
  obtain ⟨⟨hdevice, hsession, hturn, hstream, hepoch⟩, hsay⟩ := hm
  refine ⟨hdevice, ?_, hsay⟩
  rw [replyIds, hsession, hturn, hstream, hepoch]
  rfl

def begun (t : Transport) (ids : WireIds) (responseId : String) : Transport :=
  { t with
    responseId, response := ids, downlinkSequence := 0, audioStarted := false, audioEnded := false
    responseDone := false, discardDownlink := false }

def finished (t : Transport) : Transport :=
  { t with active := false, responseDone := true, discardDownlink := t.discardDownlink && t.responseCancelSent }

theorem Hears.onText (hh : Hears t turn r h) (hm : h.hear turn r (.control reply) = some h')
    (hv : (responseIds turn).valid = true) (hb : bounded reply.body = true)
    (hutf : ∀ s ∈ stringsOf reply.body, GoString.ofString s.text = s)
    (hlast : h'.done = true → h.announced = true → h.ended = true) :
    ∃ t' event, t.onText { deviceId := reply.deviceID, ids := replyIds reply, payload := replyPayload reply.body } =
        (t', .emit event) ∧
      hearEvent (responseIds turn) h event = some h' ∧ Hears t' turn r h' := by
  obtain ⟨hdevice, hids, hsay⟩ := hear_ids hm
  have hdev : ¬ reply.deviceID ≠ t.deviceId := fun hn => hn (hdevice.trans hh.deviceId.symm)
  rw [Transport.onText, if_neg hdev, hids]
  generalize reply.body = body at hsay hb hutf
  cases body with
  | responseStart responseID =>
    have hid := hutf responseID List.mem_cons_self
    simp only [Heard.say, Option.ite_none_right_eq_some, Option.some.injEq] at hsay
    obtain ⟨⟨rfl, hstarted, hdone⟩, rfl⟩ := hsay
    have hstale := hh.fresh (by simpa using hdone)
    obtain ⟨hnone, rfl⟩ := hh.silent (by simpa using hstarted)
    have hactive : t.active = true := hh.active
    have hstream : (responseIds turn).stream ≠ 0 := by
      simp only [WireIds.valid, Bool.decide_and, Bool.and_eq_true, decide_eq_true_eq] at hv
      exact hv.2.2.1
    refine ⟨begun t (responseIds turn) responseID.text, .responseStart (responseIds turn), ?_, ?_, ?_⟩
    · simp [begun, replyPayload, hstale, hactive, hh.committed, hnone, hh.ids, hstream, hh.uncancelled,
        show Transport.within responseID.text 1 128 = true from hb]
    · simp [hearEvent]
    · exact {
        toShares := hh.toShares.of_same ⟨rfl, rfl, rfl⟩ ⟨rfl, rfl⟩, committed := hh.committed
        uncancelled := hh.uncancelled, active := hactive, silent := by simp, started := by simp [begun, hid] }
  | textDelta responseID text =>
    simp only [Heard.say, Option.ite_none_right_eq_some, Option.some.injEq] at hsay
    obtain ⟨⟨rfl, hstarted, hdone⟩, rfl⟩ := hsay
    have hundone : h.done = false := by simpa using hdone
    have hstale := hh.fresh hundone
    have hheeds := hh.heeds hstarted
    obtain ⟨hresponse, hid, -⟩ := hh.started hstarted
    have hread : responseID.text = t.responseId := by rw [← hid, GoString.text_ofString]
    have hactive : t.active = true := by rw [hh.active, hundone]; rfl
    have htext := hutf text (List.mem_cons_of_mem _ List.mem_cons_self)
    rw [bounded, Bool.and_eq_true, hread] at hb
    refine ⟨t, .textDelta (responseIds turn) text.text, ?_, ?_, ?_⟩
    · simp [replyPayload, Transport.onResponse, hstale, hactive, hresponse, hv, hread, hheeds, hb.1, hb.2]
    · simp [hearEvent, hstarted, hundone, htext]
    · exact { hh with silent := by simp [hstarted], started := hh.started }
  | audioStart responseID sampleRateHz =>
    simp only [Heard.say, Option.ite_none_right_eq_some, Option.some.injEq] at hsay
    obtain ⟨⟨rfl, rfl, hstarted, hannounced, hdone⟩, rfl⟩ := hsay
    have hundone : h.done = false := by simpa using hdone
    have hquiet : h.announced = false := by simpa using hannounced
    have hstale := hh.fresh hundone
    have hheeds := hh.heeds hstarted
    obtain ⟨hresponse, hid, haudio, hended, hsequence, hdiscard⟩ := hh.started hstarted
    have hread : responseID.text = t.responseId := by rw [← hid, GoString.text_ofString]
    have hbound : Transport.within responseID.text 1 128 = true := hb
    rw [hread] at hbound
    have hactive : t.active = true := by rw [hh.active, hundone]; rfl
    refine ⟨{ t with audioStarted := true }, .audioStart (responseIds turn), ?_, ?_, ?_⟩
    · simp [replyPayload, Transport.onResponse, hstale, hactive, hresponse, hv, hread, hheeds, haudio, hquiet,
        outputSampleRateHz, hbound]
    · simp [hearEvent, hstarted, hundone, hquiet]
    · exact {
        toShares := hh.toShares.of_same ⟨rfl, rfl, rfl⟩ ⟨rfl, rfl⟩, committed := hh.committed
        uncancelled := hh.uncancelled, active := hh.active, silent := by simp [hstarted]
        started := fun _ => ⟨hresponse, hid, rfl, hended, hsequence, hdiscard⟩ }
  | responseDone responseID =>
    simp only [Heard.say, Option.ite_none_right_eq_some, Option.some.injEq] at hsay
    obtain ⟨⟨rfl, hstarted, hdone⟩, rfl⟩ := hsay
    have hundone : h.done = false := by simpa using hdone
    have hstale := hh.fresh hundone
    have hheeds := hh.heeds hstarted
    obtain ⟨hresponse, hid, haudio, hended, hsequence, hdiscard⟩ := hh.started hstarted
    have hread : responseID.text = t.responseId := by rw [← hid, GoString.text_ofString]
    have hbound : Transport.within responseID.text 1 128 = true := hb
    rw [hread] at hbound
    have hactive : t.active = true := by rw [hh.active, hundone]; rfl
    have hwhole : ¬ (h.announced = true ∧ h.ended = false) := by
      rintro ⟨ha, he⟩
      rw [hlast rfl ha] at he
      cases he
    refine ⟨finished t, .done (responseIds turn), ?_, ?_, ?_⟩
    · simp [finished, replyPayload, Transport.onResponse, hstale, hactive, hresponse, hv, hread, hheeds, haudio, hended,
        hwhole, hbound]
    · simpa [hearEvent, hstarted, hundone] using hlast rfl
    · exact {
        toShares := hh.toShares.of_same ⟨rfl, rfl, rfl⟩ ⟨rfl, rfl⟩, committed := hh.committed
        uncancelled := hh.uncancelled, active := rfl, silent := by simp [hstarted]
        started := fun _ => ⟨hresponse, hid, haudio, hended, hsequence, by simp [finished, hdiscard]⟩ }
  | helloAck | cancelled | error => cases hsay

theorem Hears.control {texts : List GoString} (hh : Hears t turn r h) (hm : h.hear turn r (.control reply) = some h')
    (hc : Client.ReadsJSON cjson) (hd : Wire.isValidDeviceId (Utf8.encode turn.deviceID.toList) = true)
    (hv : (responseIds turn).valid = true) (hu : Utters r texts reply.body) (hb : bounded reply.body = true)
    (hl : Hearable r texts) (hlast : h'.done = true → h.announced = true → h.ended = true) :
    ∃ t' event, Accepts cjson turn r t (.control reply) h h' t' event := by
  obtain ⟨hdevice, -, -⟩ := hear_ids hm
  rw [← hdevice] at hd
  have hsize := reply_byteLength hd hu.spoken hb
  obtain ⟨t', event, htext, hevent, hhears⟩ := hh.onText hm hv hb (hu.utf8 hl) hlast
  refine ⟨t', event, ?_, hevent, hhears⟩
  rw [takes, (encodeReply_ok hd hu.spoken).mpr ⟨hsize, rfl⟩]
  dsimp only
  rw [onTextBytes_reply hc hd hsize hu.spoken (hu.nulFree hl.sendable.1 hl.sendable.2) (hh.deviceId.trans hdevice.symm), htext]

theorem framed_wire {header : Protocol.PCMHeader} {payload : List UInt8}
    (hf : Device.Framed turn h header payload) (hv : (responseIds turn).valid = true)
    (hu : turn.deviceUUID.length = 16 ∧ turn.deviceUUID ≠ Protocol.nilUUID) :
    (wireHeader header).deviceUUID.val = turn.deviceUUID ∧ (wireHeader header).downlink.ids = responseIds turn ∧
      ∃ bytes, sendPCM (wireHeader header) payload = .ok bytes ∧
        Transport.decodePcm turn.deviceUUID bytes = .ok ((wireHeader header).downlink, payload) := by
  obtain ⟨hversion, hkind, hformat, hchannels, hrate⟩ := hf.kind
  obtain ⟨hdevice, hsession, hturn, hstream, hepoch⟩ := hf.ids
  have huuid : (wireHeader header).deviceUUID.val = turn.deviceUUID := by
    simp only [wireHeader, Wire.deviceUUIDOf, hdevice]
    rw [List.takeD_eq_take _ (Nat.le_of_eq hu.1.symm), ← hu.1, List.take_length]
  have hids : (wireHeader header).downlink.ids = responseIds turn := by
    simp only [Wire.PCMHeader.downlink, wireHeader, hsession, hturn, hstream, hepoch]
    rfl
  have hlen : (UInt32.ofNat payload.length).toNat = payload.length :=
    UInt32.toNat_ofNat_of_lt' (Nat.lt_of_le_of_lt hf.fits (by decide))
  have hflags : (wireHeader header).flags ≤ 7 := by
    simp only [wireHeader, hf.flags]
    split <;> split <;> decide
  have hvalid : (wireHeader header).validate = none := by
    obtain ⟨h1, h2, h3, h4⟩ := of_decide_eq_true hv
    have hbig : ¬ Protocol.MaxPCMPayloadBytes < payload.length :=
      Nat.not_lt.mpr (Nat.le_trans hf.fits (by decide))
    have heven : payload.length % 2 = 0 := hf.aligned
    have hnonzero : ∀ {n : Nat}, UInt32.ofNat n ≠ 0 → n % 4294967296 ≠ 0 := fun hn => by
      simpa using Wire.toNat_ne_zero hn
    have hsmall : ¬ 8 ≤ header.flags % 65536 := by
      rw [hf.flags]
      split <;> split <;> decide
    simp only [Wire.PCMHeader.validate, Protocol.PCMHeader.validate, Wire.PCMHeader.view, Protocol.firstError]
    have hdevice : (wireHeader header).deviceUUID.val ≠ Protocol.nilUUID := huuid ▸ hu.2
    simp only [wireHeader] at hdevice ⊢
    simp [hversion, hkind, hformat, hchannels, hrate, hsession, hturn, hstream, hepoch, hf.payloadLen, hlen, hbig,
      heven, hf.nonempty, hsmall, hdevice, hnonzero h1, hnonzero h2, hnonzero h3,
      hnonzero h4, Protocol.Version, Protocol.AudioKindDownlink, Protocol.AudioFormatPCM16LE,
      outputSampleRateHz]
  obtain ⟨b, hb⟩ := Wire.marshalBinary_iff.mpr hvalid
  have hsend : sendPCM (wireHeader header) payload = .ok (b ++ payload) :=
    Wire.sendPCM_ok.mpr ⟨b, hb, rfl, by simp only [wireHeader, hf.payloadLen]⟩
  refine ⟨huuid, hids, _, hsend, ?_⟩
  rw [← huuid]
  refine Wire.decodePcm_sendPCM hsend ?_ ?_ ?_ ?_ ?_ hflags hf.nonempty hf.fits hf.aligned
  · simp [wireHeader, hversion, Protocol.Version]
  · simp [wireHeader, hkind, Protocol.AudioKindDownlink]
  · simp [wireHeader, hformat, Protocol.AudioFormatPCM16LE]
  · simp [wireHeader, hchannels]
  · simp [wireHeader, hrate, outputSampleRateHz]

theorem Hears.pcm {header : Protocol.PCMHeader} {payload : List UInt8} (hh : Hears t turn r h)
    (hm : h.hear turn r (.pcm header payload) = some h') (hv : (responseIds turn).valid = true)
    (hu : turn.deviceUUID.length = 16 ∧ turn.deviceUUID ≠ Protocol.nilUUID) (hn : h.payloads.length + 1 < 2 ^ 32) :
    ∃ t' event, Accepts cjson turn r t (.pcm header payload) h h' t' event := by
  obtain ⟨hf, rfl⟩ := Device.hear_pcm hm
  obtain ⟨-, hids, bytes, hsend, hdecode⟩ := framed_wire hf hv hu
  have hstarted : h.started = true := by
    by_contra hs
    have hannounced := hf.announced
    rw [(hh.silent (by simpa using hs)).2] at hannounced
    cases hannounced
  obtain ⟨hresponse, hid, haudio, hended, hsequence, hdiscard⟩ := hh.started hstarted
  have hstale := hh.fresh hf.undone
  have hheeds := hh.heeds hstarted
  have hlt : h.payloads.length < 2 ^ 32 := Nat.lt_of_succ_lt hn
  have hseq : (wireHeader header).downlink.sequence = .ofNat h.payloads.length :=
    congrArg UInt32.ofNat (hf.sequence.trans (Nat.mod_eq_of_lt hlt))
  have hzero : uint32 h.payloads.length = 0 ↔ h.payloads = [] := by
    rw [uint32, Nat.mod_eq_of_lt hlt, List.length_eq_zero_iff]
  have hflags : ((wireHeader header).downlink.flags &&& 1 ≠ 0 ↔ h.payloads = []) ∧
      (wireHeader header).downlink.flags &&& 4 = 0 ∧
      decide ((wireHeader header).downlink.flags &&& 2 ≠ 0) = header.fin := by
    rw [show (wireHeader header).downlink.flags = UInt16.ofNat header.flags from rfl, hf.flags, ← hzero]
    by_cases hnil : uint32 h.payloads.length = 0 <;> cases header.fin <;> simp [hnil] <;> decide
  obtain ⟨hstart, hcontinuous, hfin⟩ := hflags
  have hfirst : t.downlinkSequence = 0 ↔ h.payloads = [] := by
    rw [hsequence, ← UInt32.toNat_inj, UInt32.toNat_ofNat_of_lt' hlt, ← List.length_eq_zero_iff]
    rfl
  have hmax : t.downlinkSequence ≠ Client.maxUint32 := by
    rw [hsequence, ← UInt32.toNat_inj.ne, UInt32.toNat_ofNat_of_lt' hlt]
    exact Nat.ne_of_lt (Nat.lt_of_succ_lt_succ hn)
  refine ⟨{ t with
      downlinkSequence := t.downlinkSequence + 1
      audioEnded := (wireHeader header).downlink.flags &&& 2 ≠ 0 },
    .pcm (wireHeader header).downlink payload, ?_, ?_, ?_⟩
  · have hannounced : t.audioStarted = true := haudio.trans hf.announced
    have hrunning : t.audioEnded = false := hended.trans hf.running
    rw [takes, hsend]
    dsimp only
    rw [← hh.uuid] at hdecode
    rw [Transport.onBinary, hdecode]
    dsimp only
    rw [Transport.onPcm, hids, hstale, hheeds, if_neg (by simp), if_neg, if_neg (fun hn => hn hcontinuous)]
    rintro (hn | hn | hn | hn | hn | hn)
    · exact hn hannounced
    · rw [hrunning] at hn
      cases hn
    · exact hn (hseq.trans hsequence.symm)
    · exact hmax hn
    · exact hn hresponse.symm
    · exact hn (hfirst.trans hstart.symm)
  · have hcount : (wireHeader header).downlink.sequence.toNat = h.payloads.length := by
      rw [hseq, UInt32.toNat_ofNat_of_lt' hlt]
    simp [hearEvent, hids, hf.announced, hf.running, hf.undone, hcount, hstart, hcontinuous, hfin]
  · exact {
      toShares := hh.toShares.of_same ⟨rfl, rfl, rfl⟩ ⟨rfl, rfl⟩, committed := hh.committed
      uncancelled := hh.uncancelled, active := hh.active, silent := by simp [hstarted]
      started := fun _ => ⟨hresponse, hid, haudio, hfin, by simp [hsequence], hdiscard⟩ }

-- ---------------------------------------------------------------------------
-- The server
-- ---------------------------------------------------------------------------

variable {s s' : Response} {stage : Device.Stage} {doneAt : Option (List UInt8)} {f : Device.ForwardAt}
  {p : Device.PacedDownlink} {left : List Session.Event} {turn' : ActiveTurn}

/-- Texts and audio come in the provider's order, with one silent sample at most. -/
def Heralds (deltas : List Delta) (h : Heard) : Prop :=
  h.texts <+: textsOf deltas ∧ h.payloads.flatten <+: audioOf deltas ++ silence

theorem taken_begins (deltas : List Delta) (stage : Device.Stage) :
    textsOf (stage.taken deltas) <+: textsOf deltas ∧ audioOf (stage.taken deltas) <+: audioOf deltas := by
  have htake : stage.taken deltas <+: deltas := by
    cases stage with
    | waiting => exact List.nil_prefix
    | speaking count => exact List.take_prefix count deltas
    | finished => exact List.prefix_rfl
  obtain ⟨rest, hrest⟩ := htake
  generalize stage.taken deltas = taken at hrest ⊢
  subst hrest
  simp [textsOf, audioOf, List.filterMap_append]

theorem accounts_begins {audio wire pending : List UInt8} {ended done : Bool}
    (ha : Device.Accounts audio wire pending ended doneAt done) (hp : audio <+: audioOf deltas)
    (hd : done = true → audio = audioOf deltas) : wire <+: audioOf deltas ++ silence := by
  have hsound : audio <+: audioOf deltas ++ silence := hp.trans (List.prefix_append _ _)
  cases ha with
  | open_ hsum => exact (hsum ▸ List.prefix_append wire pending).trans hsound
  | closing hsum => exact (hsum ▸ List.prefix_append wire pending).trans hsound
  | silent hsum =>
    rw [← hd rfl, ← hsum]
    exact List.prefix_append wire pending

theorem heralds_account : Device.Account c r deltas doneAt (Heralds deltas) := by
  refine ⟨⟨List.nil_prefix, List.nil_prefix⟩, ?_, ?_, ?_, ?_⟩
  · intro p h stage hp
    obtain ⟨htexts, haudio⟩ := taken_begins deltas stage
    refine ⟨hp.texts ▸ htexts, accounts_begins hp.accounts haudio fun hd => ?_⟩
    rw [hp.providerDone, decide_eq_true_eq] at hd
    rw [hd]
    rfl
  · intro h he
    exact ⟨he.texts ▸ List.prefix_rfl, accounts_begins he.accounts List.prefix_rfl fun _ => rfl⟩
  · intro h h' body hs hf
    cases hs with
    | text piece => exact ⟨(List.prefix_append _ _).trans hf.1, hf.2⟩
    | start | announce | done => exact hf
  · intro h header payload _ hf
    refine ⟨hf.1, List.IsPrefix.trans ?_ hf.2⟩
    rw [List.flatten_append]
    exact List.prefix_append _ _

theorem hears_split {front back : List Outbound} (hh : hears turn r (front ++ back) = some h) :
    ∃ g, hears turn r front = some g ∧ back.foldlM (Heard.hear turn r) g = some h := by
  rw [hears, List.foldlM_append] at hh
  exact Option.bind_eq_some_iff.mp hh

theorem hears_take {out : List Outbound} {n : Nat} {m : Outbound} (hh : hears turn r out = some h)
    (hm : out[n]? = some m) : ∃ g g' : Heard, hears turn r (out.take n) = some g ∧ g.hear turn r m = some g' ∧
      hears turn r (out.take (n + 1)) = some g' ∧
      (out.drop (n + 1)).foldlM (Heard.hear turn r) g' = some h := by
  have hsplit := List.take_append_drop (n + 1) out
  rw [← hsplit] at hh
  obtain ⟨g', hfront, hback⟩ := hears_split hh
  have htake : out.take (n + 1) = out.take n ++ [m] := by
    rw [List.take_add_one, hm]
    rfl
  obtain ⟨g, hg, hlast⟩ := hears_split (htake ▸ hfront)
  refine ⟨g, g', hg, ?_, hfront, hback⟩
  simpa using hlast

theorem eq_of_done {g : Heard} {back : List Outbound} (hd : g.done = true)
    (hh : back.foldlM (Heard.hear turn r) g = some h) : back = [] ∧ h = g := by
  cases back with
  | nil => exact ⟨rfl, (Option.some.inj hh).symm⟩
  | cons m back =>
    rw [List.foldlM_cons] at hh
    obtain ⟨g', hm, -⟩ := Option.bind_eq_some_iff.mp hh
    rw [Device.hear_undone hm] at hd
    cases hd

theorem said_grows {g : Heard} {back : List Outbound} (hh : back.foldlM (Heard.hear turn r) g = some h) :
    g.texts <+: h.texts ∧ g.payloads <+: h.payloads := by
  induction back generalizing g with
  | nil =>
    cases hh
    exact ⟨List.prefix_rfl, List.prefix_rfl⟩
  | cons m back ih =>
    rw [List.foldlM_cons] at hh
    obtain ⟨g', hm, hrest⟩ := Option.bind_eq_some_iff.mp hh
    obtain ⟨htexts, hpayloads⟩ := ih hrest
    cases m with
    | control reply =>
      have hs := Device.hear_control hm
      generalize reply.body = body at hs
      cases hs with
      | text piece => exact ⟨(List.prefix_append _ _).trans htexts, hpayloads⟩
      | start | announce | done => exact ⟨htexts, hpayloads⟩
    | pcm header payload =>
      obtain ⟨-, rfl⟩ := Device.hear_pcm hm
      exact ⟨htexts, (List.prefix_append _ _).trans hpayloads⟩

theorem Heralds.before {g : Heard} {back : List Outbound} (hd : Heralds deltas h)
    (hh : back.foldlM (Heard.hear turn r) g = some h) : Heralds deltas g := by
  obtain ⟨htexts, rest, hrest⟩ := said_grows hh
  refine ⟨htexts.trans hd.1, List.IsPrefix.trans ?_ hd.2⟩
  rw [← hrest, List.flatten_append]
  exact List.prefix_append _ _

theorem audioOf_of_isAudio (hv : ∀ d ∈ deltas, d.valid = true) (ha : deltas.any Delta.isAudio = true) :
    audioOf deltas ≠ [] := by
  obtain ⟨d, hmem, hd⟩ := List.any_eq_true.mp ha
  cases d with
  | text => cases hd
  | audio pcm =>
    have hvalid := hv _ hmem
    simp only [Delta.valid, Bool.decide_and, Bool.and_eq_true, decide_eq_true_eq] at hvalid
    intro hnil
    have hpcm : pcm = [] := (List.flatMap_eq_nil_iff.mp hnil) _ hmem
    exact hvalid.1 (by rw [hpcm]; rfl)

theorem ended_of_done (hi : Device.Reframed c r deltas s h stage) (hv : ∀ d ∈ deltas, d.valid = true)
    (hlen : (audioOf deltas).length < outputFrameBytes * 2 ^ 32) (hd : h.done = true) (ha : h.announced = true) :
    h.ended = true := by
  have he := hi.place.ending hd
  rcases hi.last hlen hd with hended | hnone
  · exact hended
  · have haudio := he.audio (.inr hnone)
    rw [hnone] at haudio
    have hsilent := List.append_eq_nil_iff.mp haudio.symm
    exact absurd hsilent.1 (audioOf_of_isAudio hv (he.announced ▸ ha))

theorem count_lt (hi : Device.Reframed c r deltas s h stage)
    (hlen : (audioOf deltas).length < outputFrameBytes * (2 ^ 32 - 1)) : h.payloads.length < 2 ^ 32 := by
  have hfits := hi.place.fits
  rw [Device.Fits] at hfits
  cases he : h.ended with
  | false =>
    rw [Device.hears_full hi.heard he, he] at hfits
    have hlt := Nat.lt_of_mul_lt_mul_left (Nat.lt_of_le_of_lt hfits hlen)
    exact Nat.lt_of_lt_of_le hlt (by decide)
  | true =>
    have hwire := Device.frames_wire hi.heard he
    rw [he, if_pos rfl] at hfits
    have hle : outputFrameBytes * (h.payloads.length - 1) ≤ (audioOf deltas).length := by omega
    have hlt := Nat.lt_of_mul_lt_mul_left (Nat.lt_of_le_of_lt hle hlen)
    omega

theorem out_grows {l : ResponseLabel} (hi : Device.Reframed c r deltas s h stage)
    (hv : ∀ d ∈ deltas, d.valid = true) (hf : Fresh c) (hs : s.step l = some s') : s.out <+: s'.out := by
  cases Device.response_move hs with
  | emit | tick | writePump => exact List.prefix_rfl
  | forward hl hx =>
    obtain ⟨_, _, hsay, -⟩ := Device.forward_advances hi.place hv hf.active hf.epoch hi.opened
      (Device.hears_full hi.heard) hl hx
    rcases hsay with ⟨hsent, -⟩ | ⟨m, hsent, -⟩
    · simp [Response.out, hsent]
    · simp [Response.out, hsent, List.drop_append_of_le_length hi.before]

-- ---------------------------------------------------------------------------
-- Both ends
-- ---------------------------------------------------------------------------

variable {x y : Exchange} {g : Heard} {m : Outbound}

/-- A response to the committed turn that the actor accepts and the client can hear. -/
structure Servable (c : Conn) (r : GoString) (deltas : List Delta) : Prop where
  fresh : Fresh c
  addressed : Addressed c.turn
  valid : ∀ d ∈ deltas, d.valid = true
  accepted : ∀ event ∈ responseEvents c.turn.epoch r deltas, Session.validProviderEvent event.raw = none
  hearable : Hearable r (textsOf deltas)
  short : (audioOf deltas).length < outputFrameBytes * (2 ^ 32 - 1)

theorem Servable.ids (hs : Servable c r deltas) : (responseIds c.turn).valid = true := by
  have hofNat : ∀ {n : Nat}, n ≠ 0 → n < 2 ^ 32 → UInt32.ofNat n ≠ 0 := by
    intro n hn hlt hzero
    have h0 := congrArg UInt32.toNat hzero
    rw [UInt32.toNat_ofNat_of_lt' hlt] at h0
    exact hn h0
  obtain ⟨hsession, hturn, hstream⟩ := hs.fresh.ids
  have ha := hs.addressed
  exact decide_eq_true ⟨hofNat hsession ha.sessionID, hofNat hturn ha.turnID, hofNat hstream ha.streamID,
    hofNat hs.fresh.epoch ha.epoch⟩

theorem Servable.frames (hs : Servable c r deltas) : (audioOf deltas).length < outputFrameBytes * 2 ^ 32 :=
  Nat.lt_of_lt_of_le hs.short (Nat.mul_le_mul_left _ (by decide))

/-- The server has said `h` of the response, the client has taken `g` of it. -/
structure Exchanged (c : Conn) (r : GoString) (deltas : List Delta) (x : Exchange) (h : Heard)
    (stage : Device.Stage) (g : Heard) : Prop where
  server : Device.Reframed c r deltas x.server h stage
  taken : x.taken ≤ x.server.out.length
  heard : hears c.turn r (x.server.out.take x.taken) = some g
  client : Hears x.client c.turn r g
  uuid : x.client.uuid.length = 16 ∧ x.client.uuid ≠ Protocol.nilUUID
  events : ∃ events, x.outcomes = events.map Transport.Outcome.emit ∧
    hearEvents (responseIds c.turn) events = some g

/-- The next message is one more of the response, and the client takes it as such. -/
theorem Exchanged.accepts (hx : Exchanged c r deltas x h stage g) (hs : Servable c r deltas)
    (hc : Client.ReadsJSON cjson) (hm : x.server.out[x.taken]? = some m) :
    ∃ g' t' event, Accepts cjson c.turn r x.client m g g' t' event ∧
      hears c.turn r (x.server.out.take (x.taken + 1)) = some g' := by
  have hi := hx.server
  obtain ⟨g₀, g', hfront, hhear, htake, hback⟩ := hears_take hi.heard hm
  rw [hx.heard] at hfront
  cases hfront
  have hu := hx.uuid
  rw [hx.client.uuid] at hu
  cases m with
  | control reply =>
    obtain ⟨hr, hne⟩ := accepted_nonempty hs.accepted
    have hbody := (hears_uttered hi.heard reply (List.mem_of_getElem? hm)).body.mono hi.place.told
    have hlast : g'.done = true → g.announced = true → g.ended = true := by
      intro hd hannounced
      obtain ⟨-, rfl⟩ := eq_of_done hd hback
      have hsaid := Device.hear_control hhear
      have hended := ended_of_done hi hs.valid hs.frames hd
      generalize reply.body = body at hsaid
      cases hsaid with
      | done => exact hended hannounced
      | start hundone | text _ hundone | announce hundone =>
        rw [hundone] at hd
        cases hd
    obtain ⟨t', event, haccepts⟩ := hx.client.control hhear hc hs.addressed.deviceID hs.ids hbody
      (hbody.bounded hr hne hs.hearable.sendable.1 hs.hearable.sendable.2) hs.hearable hlast
    exact ⟨g', t', event, haccepts, htake⟩
  | pcm header payload =>
    have hcount : g.payloads.length + 1 < 2 ^ 32 := by
      obtain ⟨-, rfl⟩ := Device.hear_pcm hhear
      have hle := (said_grows hback).2.length_le
      rw [List.length_append, List.length_singleton] at hle
      exact Nat.lt_of_le_of_lt hle (count_lt hi hs.short)
    obtain ⟨t', event, haccepts⟩ := hx.client.pcm hhear hs.ids hu hcount
    exact ⟨g', t', event, haccepts, htake⟩

theorem Exchanged.deliver (hx : Exchanged c r deltas x h stage g) (hs : Servable c r deltas)
    (hc : Client.ReadsJSON cjson) (hm : x.server.out[x.taken]? = some m) :
    ∃ g', hears c.turn r (x.server.out.take (x.taken + 1)) = some g' ∧
      Exchanged c r deltas { x with
        client := (takes cjson x.client m).1, taken := x.taken + 1
        outcomes := x.outcomes ++ [(takes cjson x.client m).2] } h stage g' := by
  obtain ⟨g', t', event, haccepts, htake⟩ := hx.accepts hs hc hm
  obtain ⟨events, houtcomes, hevents⟩ := hx.events
  refine ⟨g', htake, ?_⟩
  rw [haccepts.takes]
  have huuid : t'.uuid = x.client.uuid := haccepts.hears.uuid.trans hx.client.uuid.symm
  refine ⟨hx.server, ?_, htake, haccepts.hears, huuid ▸ hx.uuid, events ++ [event], ?_, ?_⟩
  · exact (List.getElem?_eq_some_iff.mp hm).1
  · rw [houtcomes, List.map_append]
    rfl
  · rw [hearEvents, List.foldlM_append, ← hearEvents, hevents]
    simpa using haccepts.event

theorem Exchanged.step {l : ExchangeLabel} (hx : Exchanged c r deltas x h stage g) (hs : Servable c r deltas)
    (hc : Client.ReadsJSON cjson) (hst : x.step cjson l = some y) :
    ∃ h' stage' g', Exchanged c r deltas y h' stage' g' := by
  cases l with
  | server l =>
    obtain ⟨s', hstep, rfl⟩ := Option.map_eq_some_iff.mp hst
    obtain ⟨h', stage', hi⟩ := hx.server.step hs.valid hs.fresh hstep
    obtain ⟨more, hmore⟩ := out_grows hx.server hs.valid hs.fresh hstep
    refine ⟨h', stage', g, hi, ?_, ?_, hx.client, hx.uuid, hx.events⟩
    · rw [← hmore, List.length_append]
      exact Nat.le_add_right_of_le hx.taken
    · rw [← hmore, List.take_append_of_le_length hx.taken]
      exact hx.heard
  | deliver =>
    simp only [Exchange.step] at hst
    split at hst
    · cases hst
    · rename_i m hm
      simp only [Option.ite_none_left_eq_some, Option.some.injEq] at hst
      obtain ⟨-, rfl⟩ := hst
      obtain ⟨g', -, hx'⟩ := hx.deliver hs hc hm
      exact ⟨h, stage, g', hx'⟩

theorem exchanged_reachable (hs : Servable c r deltas) (hc : Client.ReadsJSON cjson) (ht : Hears t c.turn r {})
    (hu : t.uuid.length = 16 ∧ t.uuid ≠ Protocol.nilUUID) (hx : (exchange cjson c r deltas t).Reachable x) :
    ∃ h stage g, Exchanged c r deltas x h stage g := by
  apply hx.invariant (I := fun x => ∃ h stage g, Exchanged c r deltas x h stage g)
  · rintro x ⟨server, rfl, rfl⟩
    exact ⟨{}, .waiting, {}, .init hs.fresh, Nat.zero_le _, rfl, ht, hu, [], rfl, rfl⟩
  · rintro x l y ⟨h, stage, g, hx⟩ hst
    exact hx.step hs hc hst

-- ---------------------------------------------------------------------------
-- Progress
-- ---------------------------------------------------------------------------

theorem run_server {ls : List ResponseLabel} (hr : (response c r deltas).run x.server ls = some s') :
    (exchange cjson c r deltas t).run x (ls.map .server) = some { x with server := s' } := by
  induction ls generalizing x with
  | nil =>
    cases hr
    rfl
  | cons l ls ih =>
    rw [Lts.Machine.run_cons, Option.bind_eq_some_iff] at hr
    obtain ⟨s, hs, hr⟩ := hr
    have hstep : (exchange cjson c r deltas t).step x (.server l) = some { x with server := s } :=
      congrArg (Option.map _) hs
    rw [List.map_cons, Lts.Machine.run_cons, hstep]
    exact ih (x := { x with server := s }) hr

theorem run_deliver (hw : x.server.before + x.server.out.length ≤ x.server.conn.written) :
    ∃ ls y, (exchange cjson c r deltas t).run x ls = some y ∧ y.server = x.server ∧
      (x.taken ≤ x.server.out.length → y.taken = x.server.out.length) := by
  induction hn : x.server.out.length - x.taken generalizing x with
  | zero => exact ⟨[], x, rfl, rfl, fun hle => Nat.le_antisymm hle (Nat.sub_eq_zero_iff_le.mp hn)⟩
  | succ n ih =>
    have hlt : x.taken < x.server.out.length := Nat.lt_of_sub_eq_succ hn
    have hstep : (exchange cjson c r deltas t).step x .deliver = some { x with
        client := (takes cjson x.client x.server.out[x.taken]).1, taken := x.taken + 1
        outcomes := x.outcomes ++ [(takes cjson x.client x.server.out[x.taken]).2] } := by
      have hwritten : ¬ x.server.conn.written ≤ x.server.before + x.taken := by omega
      simp only [exchange, Exchange.step, List.getElem?_eq_getElem hlt, if_neg hwritten]
    obtain ⟨ls, y, hrun, hserver, htaken⟩ := ih (x := { x with
        client := (takes cjson x.client x.server.out[x.taken]).1, taken := x.taken + 1
        outcomes := x.outcomes ++ [(takes cjson x.client x.server.out[x.taken]).2] }) hw (by dsimp only; omega)
    refine ⟨.deliver :: ls, y, ?_, hserver, fun _ => htaken hlt⟩
    rw [Lts.Machine.run_cons, hstep]
    exact hrun

theorem server_reachable (hx : (exchange cjson c r deltas t).Reachable x) :
    (response c r deltas).Reachable x.server := by
  apply hx.invariant (I := fun x => (response c r deltas).Reachable x.server)
  · rintro x ⟨server, hinit, rfl⟩
    exact .init hinit
  · intro x l y hr hst
    cases l with
    | server l =>
      obtain ⟨s', hstep, rfl⟩ := Option.map_eq_some_iff.mp hst
      exact hr.step hstep
    | deliver =>
      simp only [exchange, Exchange.step] at hst
      split at hst
      · cases hst
      · simp only [Option.ite_none_left_eq_some, Option.some.injEq] at hst
        obtain ⟨-, rfl⟩ := hst
        exact hr

/-- From every state the response can be brought to its end, and the client hears it. -/
theorem exists_heard (hs : Servable c r deltas) (hc : Client.ReadsJSON cjson) (ht : Hears t c.turn r {})
    (hu : t.uuid.length = 16 ∧ t.uuid ≠ Protocol.nilUUID) (hx : (exchange cjson c r deltas t).Reachable x) :
    ∃ ls y h stage g, (exchange cjson c r deltas t).run x ls = some y ∧ Exchanged c r deltas y h stage g ∧
      g.done = true := by
  obtain ⟨ls, s', h', stage', hrun, hi, hd⟩ := Device.exists_done hs.fresh hs.valid (server_reachable hx)
  obtain ⟨ks, hdrain⟩ : ∃ ks, (response c r deltas).run s' ks = some s'.drained := Device.run_drained s'
  have hserver : (response c r deltas).run x.server (ls ++ ks) = some s'.drained := by
    rw [Lts.Machine.run_append, hrun]
    exact hdrain
  have hwritten : s'.drained.before + s'.drained.out.length ≤ s'.drained.conn.written := by
    simp only [Response.drained, Response.out, List.length_drop]
    have := hi.before
    omega
  have hrun₁ : (exchange cjson c r deltas t).run x ((ls ++ ks).map .server) = some { x with server := s'.drained } :=
    run_server hserver
  have hx₁ := hx.run hrun₁
  obtain ⟨_, _, _, hexchanged⟩ := exchanged_reachable hs hc ht hu hx₁
  obtain ⟨ms, y, hrun₂, hy, htaken⟩ :
      ∃ ms y, (exchange cjson c r deltas t).run { x with server := s'.drained } ms = some y ∧
        y.server = s'.drained ∧ (x.taken ≤ s'.drained.out.length → y.taken = s'.drained.out.length) :=
    run_deliver hwritten
  obtain ⟨h, stage, g, hheard⟩ := exchanged_reachable hs hc ht hu (hx₁.run hrun₂)
  refine ⟨(ls ++ ks).map .server ++ ms, y, h, stage, g, ?_, hheard, ?_⟩
  · rw [Lts.Machine.run_append, hrun₁]
    exact hrun₂
  · have hsame := hheard.heard
    rw [hy, htaken hexchanged.taken, List.take_length] at hsame
    have hout : hears c.turn r s'.out = some g := hsame
    rw [hi.heard] at hout
    cases hout
    exact hd

-- ---------------------------------------------------------------------------
-- The main result
-- ---------------------------------------------------------------------------

/-- The client after it has sent turn.commit for a turn nobody has cancelled. -/
theorem hears_committed {control : Control} {capacity : QueueCapacity} (ht : Transport.machine.Reachable t)
    (hk : control.kind = .turnCommit) (hcancel : t.responseCancelSent = false)
    (hsend : t.send control capacity = (true, true, t')) (hd : t.deviceId = turn.deviceID)
    (hu : t.uuid = turn.deviceUUID) (hi : (responseIds turn).sameTurn t.turn = true) :
    Hears t' turn r {} := by
  have hw := underway_reachable ht
  have hsent : t.admits control = some true ∧ t' = { t with committed := true } := by
    unfold Transport.send at hsend
    split at hsend
    · cases hsend
    · cases hsend
    · rename_i hadmits
      split at hsend
      · cases hsend
        exact ⟨hadmits, by rw [Transport.sent, hk]⟩
      · cases hsend
  obtain ⟨hadmits, rfl⟩ := hsent
  simp only [Transport.admits, hk, Option.ite_none_left_eq_some, not_or, Decidable.not_not] at hadmits
  obtain ⟨-, ⟨hactive, hcommitted, -⟩, -⟩ := hadmits
  exact {
    deviceId := hd, uuid := hu, ids := hi, session := hw.session hactive, epoch := hw.epoch hactive
    committed := rfl, uncancelled := hcancel, active := hactive
    silent := fun _ => ⟨hw.silent (by simpa using hcommitted), rfl⟩, started := by simp }

structure Next (t : Transport) (control : Control) : Prop where
  kind : control.kind = .turnStart
  messageId : Transport.within control.messageId 1 64 = true
  ids : control.ids.valid = true
  session : control.ids.session = t.session
  epoch : t.turn.epoch < control.ids.epoch

/-- What the application has heard of a response, and what becomes of the client. -/
structure Downlink (turn : ActiveTurn) (deltas : List Delta) (x : Exchange) (events : List Inbound) (g : Heard) :
    Prop where
  outcomes : x.outcomes = events.map Transport.Outcome.emit
  heard : hearEvents (responseIds turn) events = some g
  texts : g.texts <+: textsOf deltas
  audio : g.payloads.flatten <+: audioOf deltas ++ silence
  done : g.done = true → g.texts = textsOf deltas ∧
    g.payloads.flatten = audioOf deltas ++
      (if audioOf deltas ≠ [] ∧ x.server.doneAt = some (audioOf deltas) then silence else []) ∧
    x.client.active = false ∧ ∀ control, Next x.client control → x.client.admits control = some true

theorem Exchanged.downlink (hx : Exchanged c r deltas x h stage g) (hs : Servable c r deltas) :
    ∃ events, Downlink c.turn deltas x events g := by
  obtain ⟨events, houtcomes, hheard⟩ := hx.events
  have hi := hx.server
  have hfront := hi.heard
  rw [← List.take_append_drop x.taken x.server.out] at hfront
  obtain ⟨g', hg', hback⟩ := hears_split hfront
  rw [hx.heard] at hg'
  cases hg'
  have hheralds : Heralds deltas g := (heralds_account.place hi.place).before hback
  refine ⟨events, houtcomes, hheard, hheralds.1, hheralds.2, fun hd => ?_⟩
  obtain ⟨-, rfl⟩ := eq_of_done hd hback
  have he := hi.place.ending hd
  have hactive : x.client.active = false := by
    rw [hx.client.active, hd]
    rfl
  refine ⟨he.texts, he.audio (hi.last hs.frames hd), hactive, fun control hn => ?_⟩
  have hnewer : ¬ control.ids.epoch ≤ x.client.turn.epoch := UInt32.not_le.mpr hn.epoch
  refine (Transport.admits_turnStart hn.kind).mpr ⟨hn.messageId, hn.ids, hactive, hn.session, ?_, fun _ => hnewer⟩
  intro hlt
  have hepoch := UInt32.not_lt.mp hx.client.epoch
  exact hnewer (UInt32.le_trans (UInt32.le_of_lt hlt) hepoch)

/-- The client takes every message of the response as the protocol wants it: nothing is
dropped and nothing refused. What the application hears is the beginning of the
provider's answer, in order, and at response.done all of it; the client is then ready for
the next turn; and every run can be brought to that end. -/
theorem downlink_agrees {control : Control} {capacity : QueueCapacity} (hs : Servable c r deltas)
    (hc : Client.ReadsJSON cjson) (ht : Transport.machine.Reachable t) (hk : control.kind = .turnCommit)
    (hcancel : t.responseCancelSent = false) (hsend : t.send control capacity = (true, true, t'))
    (hd : t.deviceId = c.turn.deviceID) (hu : t.uuid = c.turn.deviceUUID)
    (hi : (responseIds c.turn).sameTurn t.turn = true)
    (hx : (exchange cjson c r deltas t').Reachable x) :
    (∃ events g, Downlink c.turn deltas x events g) ∧
      ∃ ls y events g, (exchange cjson c r deltas t').run x ls = some y ∧ Downlink c.turn deltas y events g ∧
        g.done = true := by
  have hhears : Hears t' c.turn r {} := hears_committed ht hk hcancel hsend hd hu hi
  have huuid : t'.uuid.length = 16 ∧ t'.uuid ≠ Protocol.nilUUID := by
    rw [hhears.uuid, ← hu]
    exact (Wire.identified_reachable ht).uuid
  obtain ⟨_, _, g, hexchanged⟩ := exchanged_reachable hs hc hhears huuid hx
  obtain ⟨events, hdownlink⟩ := hexchanged.downlink hs
  obtain ⟨ls, y, _, _, g', hrun, hy, hdone⟩ := exists_heard hs hc hhears huuid hx
  obtain ⟨events', hdownlink'⟩ := hy.downlink hs
  exact ⟨⟨events, g, hdownlink⟩, ls, y, events', g', hrun, hdownlink', hdone⟩

theorem sampleDeltas_accepted : ∀ event ∈ responseEvents Device.spoken.turn.epoch "r" Device.sampleDeltas,
    Session.validProviderEvent event.raw = none := by decide +kernel

theorem servable_sample : Servable Device.spoken "r" Device.sampleDeltas where
  fresh := Device.fresh_spoken
  addressed := addressed_spoken
  valid := Device.sampleDeltas_valid
  accepted := sampleDeltas_accepted
  hearable := by constructor <;> decide +kernel
  short := by decide +kernel

/-- The client of the device speaks turn 1, up to turn.commit. -/
def speaksFirst : List Transport.Label :=
  Wire.opens 1 ++ [.sendPcm { flags := 3, ids := Wire.turnIds 1 } [1, 2] .available]

def commitFirst : Control := { kind := .turnCommit, messageId := "m", ids := Wire.turnIds 1 }

/-- A response of 1920 bytes and a text, heard to its end. -/
theorem downlink_agrees_sample : ∃ t y events g,
    (exchange readsDocuments Device.spoken "r" Device.sampleDeltas t).Reachable y ∧
      Downlink Device.spoken.turn Device.sampleDeltas y events g ∧ g.done = true := by
  obtain ⟨t, -, ht, hp⟩ := Transport.machine.exists_of_run Wire.client speaksFirst
    (fun t => decide (t.responseCancelSent = false ∧ (t.send commitFirst .available).1 = true ∧
      (t.send commitFirst .available).2.1 = true ∧ t.deviceId = Device.spoken.turn.deviceID ∧
      t.uuid = Device.spoken.turn.deviceUUID ∧ (responseIds Device.spoken.turn).sameTurn t.turn = true))
    Wire.client_init (by decide +kernel)
  obtain ⟨hcancel, hfirst, hsecond, hd, hu, hi⟩ := of_decide_eq_true hp
  have hsend : t.send commitFirst .available = (true, true, (t.send commitFirst .available).2.2) :=
    Prod.ext hfirst (Prod.ext hsecond rfl)
  have hx : (exchange readsDocuments Device.spoken "r" Device.sampleDeltas
      (t.send commitFirst .available).2.2).Reachable _ := .init ⟨_, rfl, rfl⟩
  obtain ⟨-, ls, y, events, g, hrun, hy, hdone⟩ :=
    downlink_agrees servable_sample readsDocuments_reads ht rfl hcancel hsend hd hu hi hx
  exact ⟨_, y, events, g, hx.run hrun, hy, hdone⟩

end BoomPI.Dialogue
