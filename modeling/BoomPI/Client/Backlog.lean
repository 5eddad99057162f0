import BoomPI.Client.Emission
import BoomPI.Client.VoiceClient

/-!
# Events that wait for the actor

The transport's view of a turn runs ahead of the actor's by the queued events.
What a callback may still emit for the turn, and in which order such events
wait in the queue.
-/

namespace BoomPI.Client

-- ---------------------------------------------------------------------------
-- Events of a turn
-- ---------------------------------------------------------------------------

namespace Inbound

/-- The response content of a turn, and what only interrupts it. -/
def body : Inbound → Option WireIds
  | .responseStart ids | .textDelta ids _ | .audioStart ids => some ids
  | .pcm header _ => some header.ids
  | .error ids code _ => if ids.turn ≠ 0 ∧ code = "downlink_discontinuity" then some ids else none
  | _ => none

def ending : Inbound → Option WireIds
  | .cancelled ids => some ids
  | .error ids code _ => if ids.turn ≠ 0 ∧ code ≠ "downlink_discontinuity" then some ids else none
  | _ => none

def turnIds : Inbound → Option WireIds
  | .helloAck _ => none
  | .responseStart ids | .textDelta ids _ | .audioStart ids | .cancelled ids | .done ids => some ids
  | .error ids _ _ => if ids.turn ≠ 0 then some ids else none
  | .pcm header _ => some header.ids

def isDone : Inbound → Bool
  | .done _ => true
  | _ => false

variable {event : Inbound} {ids : WireIds}

theorem of_body (h : event.body = some ids) :
    event.turnIds = some ids ∧ event.ending = none ∧ event.isDone = false := by
  cases event with
  | error ids' code text =>
    simp only [body, Option.ite_none_right_eq_some, Option.some.injEq] at h
    obtain ⟨⟨hne, rfl⟩, rfl⟩ := h
    exact ⟨if_pos hne, by simp [ending], rfl⟩
  | responseStart | textDelta | audioStart | pcm => exact ⟨h, rfl, rfl⟩
  | helloAck | cancelled | done => cases h

end Inbound

namespace Transport

open Json (Text Value)

/-- What a callback may do to the turn. -/
structure Wanes (s t : Transport) : Prop where
  turn : t.turn = s.turn
  session : s.session ≠ 0 → t.session = s.session
  active : t.active = true → s.active = true
  responseDone : t.responseDone = true → s.responseDone = true ∨ s.active = true
  cancelSent : t.responseCancelSent = true → s.responseCancelSent = true
  calm : t.active = true → t.responseDone = false

/-- Nothing of the turn is left but its cancellation. -/
def Ended (s : Transport) : Prop := s.active = false ∧ s.responseDone = false

/-- What a callback may emit, with the state before and after. -/
inductive Emits (s t : Transport) : Inbound → Prop
  | helloAck {ids} : s.session = 0 → ids.session ≠ 0 → t.session = ids.session →
      Emits s t (.helloAck ids)
  | session {ids code text} : ids.turn = 0 → Emits s t (.error ids code text)
  | body {event ids} : s.active = true → event.body = some ids → ids.sameTurn s.turn = true →
      Emits s t event
  | done {ids} : s.active = true → ids.sameTurn s.turn = true → t.active = false →
      Emits s t (.done ids)
  | cancelled {ids} : s.active = true ∨ s.responseDone = true → s.responseCancelSent = true →
      ids.sameTurn s.turn = true → t.Ended → Emits s t (.cancelled ids)
  | error {ids code text} : s.active = true → ids.turn ≠ 0 → code ≠ "downlink_discontinuity" →
      ids.sameTurn s.turn = true → t.Ended → Emits s t (.error ids code text)

def Comes (s : Transport) (r : Transport × Outcome) : Prop :=
  s.Wanes r.1 ∧ ∀ event, r.2 = .emit event → Emits s r.1 event

variable {s t : Transport} {h : Heard} {e : Envelope} {ids : WireIds}

theorem Wanes.refl (hcalm : s.active = true → s.responseDone = false) : s.Wanes s :=
  ⟨rfl, fun _ => rfl, id, .inl, id, hcalm⟩

theorem Comes.dropped (hcalm : s.active = true → s.responseDone = false) : Comes s (s, .dropped) :=
  ⟨.refl hcalm, nofun⟩

theorem Comes.failed {why : String} (hcalm : s.active = true → s.responseDone = false) :
    Comes s (s, .protocolError why) :=
  ⟨.refl hcalm, nofun⟩

theorem Comes.emit {event : Inbound} (hw : s.Wanes t) (he : Emits s t event) :
    Comes s (t, .emit event) :=
  ⟨hw, fun _ heq => Outcome.emit.inj heq ▸ he⟩

theorem Comes.ite {p : Prop} [Decidable p] {r r' : Transport × Outcome} (hr : Comes s r)
    (hr' : ¬ p → Comes s r') : Comes s (if p then r else r') := by
  split
  · exact hr
  · exact hr' (by assumption)

theorem onResponse_comes (payload : Payload) (hf : s.Follows h)
    (hcalm : s.active = true → s.responseDone = false) : Comes s (s.onResponse ids payload) := by
  unfold onResponse
  split
  · exact .dropped hcalm
  split
  · exact .failed hcalm
  rename_i hn
  simp only [not_or, Decidable.not_not] at hn
  obtain ⟨ha, hv, rfl⟩ := hn
  have hturn := (hf.response hv).1
  cases payload with
  | textDelta responseId text =>
    dsimp only
    repeat' split
    all_goals first
      | exact .dropped hcalm
      | exact .failed hcalm
      | exact .emit (.refl hcalm) (.body ha rfl hturn)
  | audioStart responseId sampleRateHz =>
    dsimp only
    repeat' split
    all_goals first
      | exact .dropped hcalm
      | exact .failed hcalm
      | exact .emit ⟨rfl, fun _ => rfl, id, .inl, id, hcalm⟩ (.body ha rfl hturn)
  | done responseId =>
    dsimp only
    repeat' split
    all_goals first
      | exact .failed hcalm
      | exact .emit ⟨rfl, fun _ => rfl, nofun, fun _ => .inr ha, id, nofun⟩ (.done ha hturn rfl)
  | _ => exact .failed hcalm

theorem onText_comes (hf : s.Follows h) (hcalm : s.active = true → s.responseDone = false) :
    Comes s (s.onText e) := by
  by_cases hd : e.deviceId = s.deviceId
  case neg =>
    rw [onText, if_pos hd]
    exact .failed hcalm
  cases hp : e.payload with
  | helloAck inputSampleRateHz outputSampleRateHz inputFrameMs =>
    rw [onText, if_neg (fun hn => hn hd), hp]
    dsimp only
    split
    · exact .failed hcalm
    split
    · exact .failed hcalm
    · rename_i hn _
      simp only [not_or, Decidable.not_not] at hn
      exact .emit ⟨rfl, fun h0 => absurd hn.1 h0, id, .inl, id, hcalm⟩ (.helloAck hn.1 hn.2.1 rfl)
  | responseStart responseId =>
    rw [onText, if_neg (fun hn => hn hd), hp]
    dsimp only
    split
    · exact .dropped hcalm
    split
    · exact .failed hcalm
    rename_i hn
    simp only [not_or, Decidable.not_not] at hn
    obtain ⟨ha, -, -, hturn, -⟩ := hn
    split
    · exact .failed hcalm
    · refine ⟨⟨rfl, fun _ => rfl, id, by simp, id, fun _ => rfl⟩, fun event he => ?_⟩
      dsimp only at he
      split at he
      · cases he
      · cases he
        exact .body ha rfl hturn
  | cancelled reason =>
    rw [onText, if_neg (fun hn => hn hd), hp]
    dsimp only
    split
    · exact .failed hcalm
    refine .ite (.failed hcalm) fun hn => ?_
    simp only [not_or, not_and, Decidable.not_not] at hn
    obtain ⟨hopen, hcancel, hsame, -⟩ := hn
    refine .emit ⟨rfl, fun _ => rfl, by simp, by simp, by simp, by simp⟩ (.cancelled ?_ hcancel hsame ⟨rfl, rfl⟩)
    exact Decidable.or_iff_not_imp_left.mpr hopen
  | error code message =>
    rw [onText, if_neg (fun hn => hn hd), hp]
    dsimp only
    split
    · exact .dropped hcalm
    split
    · exact .failed hcalm
    split
    · exact .failed hcalm
    rename_i hn
    by_cases hturn : s.active = true ∧ e.ids.sameTurn s.turn = true ∧ e.ids.stream ≠ 0
    · rw [decide_eq_true hturn]
      obtain ⟨ha, hsame, -⟩ := hturn
      have hids : e.ids.turn ≠ 0 := by
        rw [(sameTurn_iff.mp hsame).2.1]
        exact (valid_iff.mp (hf.turn ha).1).2.1
      have hoff : (s.active && !true) = false := Bool.and_false _
      refine .emit ⟨rfl, fun _ => rfl, fun _ => ha, .inl, id, fun _ => hcalm ha⟩ ?_
      by_cases hcode : code = "downlink_discontinuity"
      · exact .body ha (if_pos ⟨hids, hcode⟩) hsame
      · exact .error ha hids hcode hsame ⟨hoff, hcalm ha⟩
    · rw [decide_eq_false hturn]
      have hsession : e.ids.turn = 0 := by
        by_contra hne
        exact hn ⟨fun hs => hne hs.2.1, hturn⟩
      refine .emit ⟨rfl, fun _ => rfl, fun ha => ?_, .inl, id, fun ha => ?_⟩ (.session hsession)
      · exact (Bool.and_eq_true_iff.mp ha).1
      · exact hcalm (Bool.and_eq_true_iff.mp ha).1
  | textDelta | audioStart | done | unsupported =>
    rw [onText, if_neg (fun hn => hn hd), hp]
    exact onResponse_comes _ hf hcalm

theorem onBinary_comes {bytes : List UInt8} (hf : s.Follows h)
    (hcalm : s.active = true → s.responseDone = false) : Comes s (s.onBinary bytes) := by
  unfold onBinary
  split
  · exact .failed hcalm
  rename_i header audio _
  unfold onPcm
  split
  · exact .dropped hcalm
  rename_i hpass
  split
  · exact .failed hcalm
  rename_i hn
  simp only [not_or, Decidable.not_not] at hpass hn
  obtain ⟨hstarted, -, -, -, hids, -⟩ := hn
  have hstale := hpass.1
  rw [hids] at hstale
  obtain ⟨hv, ha⟩ := hf.playing hstarted hstale
  have hturn : header.ids.sameTurn s.turn = true := hids ▸ (hf.response hv).1
  have hne : header.ids.turn ≠ 0 := hids ▸ (valid_iff.mp hv).2.1
  split
  · exact .emit ⟨rfl, fun _ => rfl, id, .inl, id, hcalm⟩ (.body ha (if_pos ⟨hne, rfl⟩) hturn)
  · exact .emit ⟨rfl, fun _ => rfl, id, .inl, id, hcalm⟩ (.body ha rfl hturn)

theorem Wanes.inactive (hw : s.Wanes t) (ha : s.active = false) : t.active = false :=
  Bool.eq_false_iff.mpr fun hn => by simp [hw.active hn] at ha

theorem Wanes.uncancelled (hw : s.Wanes t) (hs : s.responseCancelSent = false) :
    t.responseCancelSent = false :=
  Bool.eq_false_iff.mpr fun hn => by simp [hw.cancelSent hn] at hs

theorem Wanes.ended (hw : s.Wanes t) (he : s.Ended) : t.Ended := by
  refine ⟨hw.inactive he.1, Bool.eq_false_iff.mpr fun hn => ?_⟩
  rcases hw.responseDone hn with hd | hd
  · simp [he.2] at hd
  · simp [he.1] at hd

/-- An event of the turn needs a running turn, or its done response to cancel. -/
theorem Emits.running {event : Inbound} (he : Emits s t event) (hi : event.turnIds.isSome = true) :
    s.active = true ∨ (s.responseDone = true ∧ s.responseCancelSent = true ∧
      ∃ ids, event = .cancelled ids) := by
  cases he with
  | helloAck => cases hi
  | session hz => simp [Inbound.turnIds, hz] at hi
  | body ha | done ha | error ha => exact .inl ha
  | cancelled hor hc =>
    rcases hor with ha | hd
    · exact .inl ha
    · exact .inr ⟨hd, hc, _, rfl⟩

theorem Emits.sameTurn {event : Inbound} (he : Emits s t event) (hi : event.turnIds = some ids) :
    ids.sameTurn s.turn = true := by
  cases he with
  | helloAck => cases hi
  | session hz => simp [Inbound.turnIds, hz] at hi
  | body _ hbody hsame =>
    rw [(Inbound.of_body hbody).1] at hi
    exact Option.some.inj hi ▸ hsame
  | done _ hsame | cancelled _ _ hsame => exact Option.some.inj hi ▸ hsame
  | error _ hne _ hsame =>
    simp only [Inbound.turnIds, if_pos hne, Option.some.injEq] at hi
    exact hi ▸ hsame

theorem Emits.ended {event : Inbound} (he : Emits s t event) (hi : event.ending.isSome = true) :
    t.Ended := by
  cases he with
  | helloAck | done => cases hi
  | session hz => simp [Inbound.ending, hz] at hi
  | body _ hbody =>
    rw [(Inbound.of_body hbody).2.1] at hi
    cases hi
  | cancelled _ _ _ hended | error _ _ _ _ hended => exact hended

theorem Emits.inactive {event : Inbound} (he : Emits s t event) (hd : event.isDone = true) :
    t.active = false := by
  cases he with
  | helloAck | session | cancelled | error => cases hd
  | body _ hbody =>
    rw [(Inbound.of_body hbody).2.2] at hd
    cases hd
  | done _ _ ha => exact ha

end Transport

-- ---------------------------------------------------------------------------
-- The queue
-- ---------------------------------------------------------------------------

def QueuedEvent.ofTurn : QueuedEvent → Option Inbound
  | .heartbeat => none
  | .inbound event => if event.turnIds.isSome then some event else none

def QueuedEvent.helloAck : QueuedEvent → Option WireIds
  | .inbound (.helloAck ids) => some ids
  | _ => none

/-- The events of a turn in the order in which they wait: an ending is the last one,
and only a cancellation follows the end of the response. -/
def Ordered (t : Transport) : List Inbound → Prop
  | [] => True
  | event :: rest =>
    (∀ ids, event.turnIds = some ids → ids.sameTurn t.turn = true) ∧
    (event.ending.isSome = true → rest = [] ∧ t.Ended) ∧
    (event.isDone = true → t.active = false ∧ (rest = [] ∨ ∃ ids, rest = [.cancelled ids])) ∧
    Ordered t rest

variable {s t : Transport} {events : List Inbound} {event : Inbound}

theorem Ordered.mono (ho : Ordered s events) (hturn : t.turn = s.turn)
    (hactive : t.active = true → s.active = true) (hended : s.Ended → t.Ended) :
    Ordered t events := by
  induction events with
  | nil => trivial
  | cons event rest ih =>
    obtain ⟨hsame, hend, hdone, hrest⟩ := ho
    refine ⟨fun ids hi => hturn ▸ hsame ids hi, fun he => ?_, fun hd => ?_, ih hrest⟩
    · exact ⟨(hend he).1, hended (hend he).2⟩
    · refine ⟨Bool.eq_false_iff.mpr fun hn => ?_, (hdone hd).2⟩
      have := hactive hn
      rw [(hdone hd).1] at this
      cases this

theorem Ordered.wanes (ho : Ordered s events) (hw : s.Wanes t) : Ordered t events :=
  ho.mono hw.turn hw.active hw.ended

theorem Ordered.snoc (ho : Ordered s events) (hw : s.Wanes t) (he : s.Emits t event)
    (hi : event.turnIds.isSome = true) : Ordered t (events ++ [event]) := by
  induction events with
  | nil =>
    exact ⟨fun ids hids => hw.turn ▸ he.sameTurn hids, fun hend => ⟨rfl, he.ended hend⟩,
      fun hd => ⟨he.inactive hd, .inl rfl⟩, trivial⟩
  | cons first rest ih =>
    obtain ⟨hsame, hend, hdone, hrest⟩ := ho
    have hrunning := he.running hi
    refine ⟨fun ids hids => hw.turn ▸ hsame ids hids, fun hf => ?_, fun hd => ?_, ih hrest⟩
    · obtain ⟨-, ha, hd⟩ := hend hf
      simp [ha, hd] at hrunning
    · obtain ⟨ha, hcases⟩ := hdone hd
      simp only [ha, Bool.false_eq_true, false_or] at hrunning
      obtain ⟨hresponse, -, ids, rfl⟩ := hrunning
      refine ⟨hw.inactive ha, .inr ?_⟩
      · rcases hcases with rfl | ⟨ids', rfl⟩
        · exact ⟨ids, rfl⟩
        · have hended := (hrest.2.1 rfl).2.2
          rw [hended] at hresponse
          cases hresponse

end BoomPI.Client
