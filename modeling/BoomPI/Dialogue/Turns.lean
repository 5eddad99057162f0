import BoomPI.Dialogue.Speaking

/-!
# Turn after turn

The conversation is in one of two phases. While the client speaks, nothing is on its
way to it and the forwarder rests; once the turn is answered, nothing is on its way
to the server. Each phase ends where the other begins.
-/

namespace BoomPI.Dialogue

open Json (Text Value)
open Protocol (Message)
open Client (Transport Control QueueCapacity Pcm64Header Inbound)
open Device (Conn ActiveTurn Delta HandleAt HandleLabel ForwardAt ForwardLabel PacedDownlink Forwarded Heard Stage
  Fresh forwardStep handleStep responseEvents hears textsOf audioOf silence inputFrameBytes)
open Session (Event)

-- ---------------------------------------------------------------------------
-- The forwarder
-- ---------------------------------------------------------------------------

def stopping : ForwardAt → Option ActiveTurn
  | .finishedStop turn | .errorStop turn => some turn
  | _ => none

/-- What no step of the forwarder changes of a turn. -/
def lasting (turn : ActiveTurn) : ActiveTurn :=
  { turn with active := false, outputSequence := 0, outputStarted := false, pendingPCM := [] }

theorem lasting_ids {t u : ActiveTurn} (h : lasting t = lasting u) : responseIds t = responseIds u ∧
    t.deviceID = u.deviceID ∧ t.deviceUUID = u.deviceUUID ∧ t.sessionID = u.sessionID ∧ t.epoch = u.epoch ∧
      t.downlinkCtx = u.downlinkCtx := by
  simp only [lasting, ActiveTurn.mk.injEq] at h
  simp [responseIds, h]

/-- What a step of the forwarder leaves alone, and which contexts it stops. -/
structure Forwards (c : Conn) (f : ForwardAt) (r : Forwarded) : Prop where
  turn : lasting r.1.turn = lasting c.turn
  latest : r.1.actor.latest = c.actor.latest
  inbox : r.1.inbox = c.inbox
  cancelled : r.1.cancelled = c.cancelled ∨
    ∃ turn, stopping f = some turn ∧ r.1.cancelled = turn.downlinkCtx.toList ++ c.cancelled
  stops : ∀ turn, stopping r.2.2 = some turn → turn.downlinkCtx = c.turn.downlinkCtx

variable {c : Conn} {p : PacedDownlink} {f : ForwardAt}

/-- The forwarder keeps the turn's identifiers, and is about to stop that turn if any. -/
theorem Forwards.of_turn {c' : Conn} {p' : PacedDownlink} {f' : ForwardAt} (ht : lasting c'.turn = lasting c.turn)
    (hc : c'.actor.latest = c.actor.latest ∧ c'.inbox = c.inbox ∧ c'.cancelled = c.cancelled)
    (hf : stopping f' = none ∨ stopping f' = some c.turn) : Forwards c f (c', p', f') := by
  obtain ⟨hlatest, hinbox, hcancelled⟩ := hc
  refine ⟨ht, hlatest, hinbox, .inl hcancelled, ?_⟩
  intro turn h
  rcases hf with hf | hf
  · rw [hf] at h
    cases h
  · rw [hf] at h
    cases h
    rfl

theorem stopping_of_calm (h : f.calm = true) : stopping f = none := by
  cases f <;> first | rfl | cases h

theorem stopping_afterSend (job : Device.Job) : stopping (Device.afterSend c p job).2 = none := by
  cases job with
  | frame turn payload final => cases final <;> rfl
  | _ => rfl

theorem forwardStep_keeps {l : ForwardLabel} {r : Forwarded} (hr : forwardStep c p f l = some r) :
    Forwards c f r := by
  unfold forwardStep at hr
  split at hr
  case h_13 =>
    cases hr
    exact ⟨rfl, rfl, rfl, .inr ⟨_, rfl, rfl⟩, by simp [stopping]⟩
  case h_14 job _ =>
    obtain ⟨result, -, rfl⟩ := Option.map_eq_some_iff.mp hr
    cases result with
    | queued => exact .of_turn rfl ⟨rfl, rfl, rfl⟩ (.inl (stopping_afterSend job))
    | _ => exact .of_turn rfl ⟨rfl, rfl, rfl⟩ (.inl rfl)
  case h_15 =>
    cases hr
    exact .of_turn rfl ⟨rfl, rfl, rfl⟩ (.inl (stopping_of_calm Device.afterFailure_calm))
  case h_17 =>
    cases hr
    exact ⟨rfl, rfl, rfl, .inr ⟨_, rfl, rfl⟩, by simp [stopping]⟩
  all_goals
    try unfold Device.finishPacedResponse at hr
    try unfold Device.sendNextPacedFrame at hr
    try unfold Device.forwardEvent at hr
    try unfold Device.forwardAudio at hr
    try unfold Device.sendControlIfActive at hr
    repeat' (first | split at hr | dsimp only at hr)
    all_goals cases hr
    all_goals first
      | exact .of_turn rfl ⟨rfl, rfl, rfl⟩ (.inl rfl)
      | exact .of_turn rfl ⟨rfl, rfl, rfl⟩ (.inr rfl)

-- ---------------------------------------------------------------------------
-- The phases
-- ---------------------------------------------------------------------------

def restful : ForwardAt → Bool
  | .top | .pace | .selecting _ => true
  | _ => false

theorem stopping_of_restful (hr : restful f = true) : stopping f = none := by
  cases f <;> first | rfl | cases hr

/-- What is there of an answer to the committed turn, before the forwarder has seen it. -/
structure Asked (s : State) : Prop where
  active : s.server.conn.turn.active = true
  committed : s.server.conn.turn.inputCommitted = true
  answered : s.answered = s.server.conn.turn.epoch
  fits : s.answer.Fits s.server.conn.turn.epoch
  before : s.before = s.server.conn.sent.length
  left : s.server.conn.actor.events ++ s.script =
    responseEvents s.server.conn.turn.epoch s.answer.responseID s.answer.deltas

/-- The forwarder while the client speaks: it waits, or has yet to stop the turn before. -/
inductive Quiet (s : State) : Prop
  | waiting : restful s.server.forward = true → s.server.pacer = {} →
      s.server.conn.actor.events ++ s.script = [] → Quiet s
  | stopping {turn : ActiveTurn} : s.server.forward = .finishedStop turn →
      (∀ epoch ∈ turn.downlinkCtx, epoch < limit s.server.conn s.server.handle) →
      (s.server.conn.actor.events ++ s.script = [] ∨ Asked s) → Quiet s

structure Party (t : Transport) : Prop where
  deviceID : Wire.isValidDeviceId (Utf8.encode t.deviceId.toList) = true
  uuid : t.uuid.length = 16 ∧ t.uuid ≠ Protocol.nilUUID
  session : t.session ≠ 0

/-- Nothing is on its way to the client. -/
structure Facing (s : State) (x : Received) : Prop where
  party : Party s.client
  reads : Reads s.server.conn s.server.handle s.input x
  follows : Speaks s.client s.spoken x ∨ Rests s.client x ∧ s.spoken = [] ∧ s.input = []
  eventsClosed : s.server.conn.actor.eventsClosed = false
  delivered : s.delivered = s.server.conn.sent.length
  accepted : s.rejected = false
  outcomes : s.outcomes = []

/-- The client speaks, and the forwarder has nothing to say. -/
structure Uttering (s : State) (x : Received) : Prop extends Facing s x where
  quiet : Quiet s

/-- Nothing is on its way to the server. -/
structure Answering (s : State) (c : Conn) (h : Heard) (stage : Stage) (g : Heard) : Prop where
  exchanged : Exchanged c s.answer.responseID s.answer.deltas s.exchange h stage g
  servable : Servable c s.answer.responseID s.answer.deltas
  still : Still s.server.conn s.server.handle
  inbox : Clear s.server.conn.inbox
  before : s.before ≤ s.delivered
  accepted : s.rejected = false
  answered : s.answered = c.turn.epoch
  turn : lasting s.server.conn.turn = lasting c.turn
  cancelled : ∀ epoch ∈ s.server.conn.cancelled, epoch ≤ s.server.conn.actor.latest
  ctx : ∀ epoch ∈ s.server.conn.turn.downlinkCtx, epoch ≤ s.server.conn.actor.latest
  stopping : ∀ turn, stopping s.server.forward = some turn →
    ∀ epoch ∈ turn.downlinkCtx, epoch ≤ s.server.conn.actor.latest
  input : s.input.flatten = padded s.spoken ∧ s.spoken ≠ []
  whole : ∀ frame ∈ s.input, frame.length = inputFrameBytes

def Phase (s : State) : Prop := (∃ x, Uttering s x) ∨ ∃ c h stage g, Answering s c h stage g

-- ---------------------------------------------------------------------------
-- The answer begins
-- ---------------------------------------------------------------------------

variable {cjson : Text → Option Value} {s s' : State} {x : Received} {t : Transport} {spoken : List UInt8}
  {turn : ActiveTurn} {h g : Heard} {stage : Stage}

theorem Speaks.ids {input : List UInt8} (hs : Speaks t spoken { turn := uplink turn, bytes := input }) :
    (responseIds turn).sameTurn t.turn = true := by
  have hsession : turn.sessionID = t.turn.session.toNat := hs.sessionID.trans (congrArg UInt32.toNat hs.session).symm
  have hturn : turn.turnID = t.turn.turn.toNat := hs.turnID
  have hepoch : turn.epoch = t.turn.epoch.toNat := hs.epoch
  simp [Client.WireIds.sameTurn, responseIds, hsession, hturn, hepoch]

theorem Speaks.fresh {input : List UInt8} (hs : Speaks t spoken { turn := uplink c.turn, bytes := input })
    (hp : Party t) (hl : Silent c.turn) (hd : c.done c.turn.downlinkCtx = false)
    (he : c.actor.eventsClosed = false) :
    Fresh { c with actor := { c.actor with events := [] } } ∧ Addressed c.turn := by
  have hvalid := of_decide_eq_true hs.valid
  have hsession : c.turn.sessionID = t.turn.session.toNat :=
    hs.sessionID.trans (congrArg UInt32.toNat hs.session).symm
  have hturn : c.turn.turnID = t.turn.turn.toNat := hs.turnID
  have hepoch : c.turn.epoch = t.turn.epoch.toNat := hs.epoch
  have hdevice : c.turn.deviceID = t.deviceId := hs.deviceID
  have huuid : c.turn.deviceUUID = t.uuid := hs.deviceUUID
  constructor
  · exact {
      active := hs.active.2, epoch := by simpa [hepoch] using toNat_nonzero hvalid.2.2.2
      ids := ⟨by simpa [hsession] using toNat_nonzero hvalid.1, by simpa [hturn] using toNat_nonzero hvalid.2.1,
        Nat.pos_iff_ne_zero.mp hl.downlinkStream.1⟩
      deviceUUID := by simpa [huuid] using hp.uuid.2
      outputSequence := hl.outputSequence, outputStarted := hl.outputStarted, ctx := hd, events := rfl
      eventsClosed := he }
  · exact {
      deviceID := hdevice ▸ hp.deviceID, sessionID := hsession ▸ t.turn.session.toNat_lt
      turnID := hturn ▸ t.turn.turn.toNat_lt, streamID := hl.downlinkStream.2
      epoch := hepoch ▸ t.turn.epoch.toNat_lt }

theorem Speaks.hears {input : List UInt8} {r : GoString}
    (hs : Speaks t spoken { turn := uplink c.turn, bytes := input }) (hc : t.committed = true) :
    Hears t c.turn r {} where
  deviceId := hs.deviceID.symm
  uuid := hs.deviceUUID.symm
  ids := hs.ids
  session := hs.session
  epoch := hs.newer
  committed := hc
  uncancelled := hs.uncancelled
  active := hs.active.1
  silent _ := ⟨hs.silent, rfl⟩
  started := by simp

theorem reframes_waiting {r : GoString} {deltas : List Delta} {doneAt : Option (List UInt8)} {left : List Event}
    (hf : restful f = true) (hl : Silent turn) (hleft : left = responseEvents turn.epoch r deltas)
    (ht : c.turn = turn) :
    f.Reframes c r deltas doneAt turn {} {} .waiting left := by
  have hidling : Device.Idling c r deltas doneAt turn {} {} .waiting := by
    refine ⟨?_, rfl, rfl, rfl⟩
    have h1 := hl.outputSequence
    have h2 := hl.outputStarted
    rw [ht]
    change turn = { turn with outputSequence := 0, outputStarted := false }
    rw [← h1, ← h2]
  have hlooping : Device.Looping c r deltas doneAt turn {} {} .waiting left :=
    .inl ⟨⟨hidling, rfl⟩, by rw [hleft, ht]; rfl⟩
  cases f with
  | top => exact hlooping
  | pace => exact ⟨hlooping, rfl⟩
  | selecting deadline =>
    cases deadline with
    | none => exact ⟨hlooping, rfl, rfl⟩
    | some deadline => exact hlooping
  | _ => cases hf

theorem Facing.committed (hf : Facing s x) (ha : s.server.conn.turn.active = true)
    (hc : s.server.conn.turn.inputCommitted = true) : Still s.server.conn s.server.handle ∧
      Speaks s.client s.spoken { turn := uplink s.server.conn.turn, bytes := s.input.flatten } := by
  obtain ⟨hstill, rfl⟩ := hf.reads.committed ha hc
  refine ⟨hstill, ?_⟩
  rcases hf.follows with hs | ⟨hrests, -⟩
  · exact hs
  · have hinactive : s.server.conn.turn.active = false := hrests.inactive.2
    rw [ha] at hinactive
    cases hinactive

theorem Facing.answers (hf : Facing s x) (hr : restful s.server.forward = true) (hp : s.server.pacer = {})
    (ha : Asked s) :
    Answering s { s.server.conn with actor := { s.server.conn.actor with events := [] } } {} .waiting {} := by
  obtain ⟨hstill, hs⟩ := hf.committed ha.active ha.committed
  have hcommitted : s.client.committed = true := hs.inputCommitted.symm.trans ha.committed
  have hreads := hf.reads
  have hsilent := hreads.silent ha.active
  have hlatest : s.server.conn.actor.latest = s.server.conn.turn.epoch := by
    have hsettled := hreads.latest
    rw [hstill.settled] at hsettled
    exact hsettled ha.active
  have hlimit : limit s.server.conn s.server.handle = s.server.conn.turn.epoch := by
    rw [limit, hstill.settled]
    exact if_pos ha.active
  have hdone : s.server.conn.done s.server.conn.turn.downlinkCtx = false := by
    have hnone := hreads.done
    simp only [Conn.done, Bool.decide_or, Bool.or_eq_false_iff, decide_eq_false_iff_not] at hnone ⊢
    refine ⟨hnone.1, hnone.2.1, ?_⟩
    rintro ⟨epoch, hmem, hcancelled⟩
    have hlt := hreads.cancelled epoch hcancelled
    rw [hsilent.downlinkCtx] at hmem
    cases hmem
    rw [hlimit] at hlt
    exact Nat.lt_irrefl _ hlt
  obtain ⟨hfresh, haddressed⟩ := hs.fresh hf.party hsilent hdone hf.eventsClosed
  have hout : s.exchange.server.out = [] := by
    simp [State.exchange, State.response, Device.Response.out, ha.before]
  have htaken : s.exchange.taken = 0 := by
    simp [State.exchange, ha.before, hf.delivered]
  refine ⟨?_, ⟨hfresh, haddressed, ha.fits.valid, ha.fits.accepted, ha.fits.hearable, ha.fits.short⟩, hstill,
    hreads.inbox, Nat.le_of_eq (ha.before.trans hf.delivered.symm), hf.accepted, ha.answered, rfl, ?_, ?_, ?_,
    (hs.complete hcommitted).2, hreads.whole⟩
  · refine ⟨⟨Nat.le_of_eq ha.before, ?_, ⟨hreads.done, hf.eventsClosed, fun _ => rfl, hdone⟩, ?_⟩, ?_, ?_,
      hs.hears hcommitted, hf.party.uuid, [], hf.outcomes, rfl⟩
    · rw [hout]
      rfl
    · change s.server.forward.Reframes _ _ _ s.doneAt s.server.conn.turn s.server.pacer {} .waiting _
      rw [hp]
      exact reframes_waiting hr hsilent ha.left rfl
    · rw [htaken]
      exact Nat.zero_le _
    · rw [htaken]
      rfl
  · intro epoch hmem
    have hlt := hreads.cancelled epoch hmem
    rw [hlimit] at hlt
    rw [hlatest]
    exact Nat.le_of_lt hlt
  · intro epoch hmem
    rw [hsilent.downlinkCtx] at hmem
    cases hmem
    exact Nat.le_of_eq hlatest.symm
  · intro turn hstop
    rw [stopping_of_restful hr] at hstop
    cases hstop

-- ---------------------------------------------------------------------------
-- The steps of the server
-- ---------------------------------------------------------------------------

theorem step_handle {l : HandleLabel} (hs : step cjson s (.server (.handle l)) = some s') :
    ∃ r, handleStep s.server.conn s.server.handle l = some r ∧ s' = { s with
      server := { s.server with conn := r.1.stopWorker r.2.stops, handle := r.2 }
      input := s.input ++ appends s.server.handle l } := by
  simp only [step, Device.step, Option.map_map, Option.map_eq_some_iff] at hs
  obtain ⟨r, hr, rfl⟩ := hs
  exact ⟨r, hr, rfl⟩

theorem step_forward {l : ForwardLabel} (hs : step cjson s (.server (.forward l)) = some s') :
    ∃ r, forwardStep s.server.conn s.server.pacer s.server.forward l = some r ∧ s' = { s with
      server := { s.server with conn := r.1.stopWorker r.2.2.stops, pacer := r.2.1, forward := r.2.2 }
      doneAt := if s.server.forward.finishes? then some (Device.wireBytes s.response.out) else s.doneAt } := by
  simp only [step, Device.step, Option.map_map, Option.map_eq_some_iff] at hs
  obtain ⟨r, hr, rfl⟩ := hs
  exact ⟨r, hr, rfl⟩

theorem stopWorker_false (c : Conn) : c.stopWorker false = c := by
  rw [Conn.stopWorker, Bool.or_false]

theorem Proceeds.stays {handle : HandleAt} (hp : Proceeds c handle) : handle.stops = false := by
  cases handle with
  | exited => exact hp.elim
  | _ => rfl

theorem Reads.beside {c' : Conn} {handle : HandleAt} {input : List (List UInt8)}
    (hr : Reads c handle input x) (hc : c' = { c with
      sent := c'.sent, written := c'.written, now := c'.now
      actor := { c.actor with events := c'.actor.events, emitted := c'.actor.emitted } }) :
    Reads c' handle input x := by
  rw [hc]
  exact ⟨hr.done, hr.inbox, by cases handle <;> exact hr.place, hr.silent, hr.outlook, hr.whole, hr.latest, hr.cancelled, hr.old⟩

-- ---------------------------------------------------------------------------
-- While the client speaks
-- ---------------------------------------------------------------------------

theorem Uttering.handle {l : HandleLabel} (hu : Uttering s x) (hl : ∀ err, l ≠ .returns (some err))
    (hs : step cjson s (.server (.handle l)) = some s') : Uttering s' x := by
  obtain ⟨r, hr, rfl⟩ := step_handle hs
  obtain ⟨hreads, hsame⟩ := hu.reads.reader hl hr
  have hwaits (hstill : Still s.server.conn s.server.handle) := hstill.reader hu.reads.inbox hu.reads.done hl hr
  rw [hreads.place.stays, stopWorker_false]
  refine ⟨⟨hu.party, hreads, ?_, hsame.eventsClosed.trans hu.eventsClosed, ?_, hu.accepted, hu.outcomes⟩, ?_⟩
  · rcases hu.follows with hspeaks | ⟨hrests, hspoken, hinput⟩
    · exact .inl hspeaks
    · obtain ⟨-, -, happends⟩ := hwaits (hu.reads.resting hrests.inactive.2).1
      refine .inr ⟨hrests, hspoken, ?_⟩
      dsimp only
      rw [hinput, happends]
      rfl
  · dsimp only
    rw [hsame.sent]
    exact hu.delivered
  · cases hu.quiet with
    | waiting hf hp hleft =>
      refine .waiting hf hp ?_
      dsimp only
      rw [hsame.events]
      exact hleft
    | stopping hf hctx hleft =>
      refine .stopping hf (fun epoch hmem => Nat.lt_of_lt_of_le (hctx epoch hmem) hsame.limit) ?_
      rcases hleft with hnone | hasked
      · left
        dsimp only
        rw [hsame.events]
        exact hnone
      · obtain ⟨heq, -⟩ := hwaits (hu.committed hasked.active hasked.committed).1
        right
        rw [heq]
        exact ⟨hasked.active, hasked.committed, hasked.answered, hasked.fits, hasked.before, hasked.left⟩

theorem forward_waits {l : ForwardLabel} {r : Forwarded} (hf : restful f = true) (hd : c.done none = false)
    (he : c.actor.events = []) (hc : c.actor.eventsClosed = false) (hr : forwardStep c {} f l = some r) :
    r.1 = c ∧ r.2.1 = {} ∧ restful r.2.2 = true := by
  cases f with
  | top =>
    cases l <;> simp only [forwardStep, reduceCtorEq] at hr
    cases hr
    exact ⟨rfl, rfl, rfl⟩
  | pace =>
    cases l <;> simp only [forwardStep, reduceCtorEq] at hr
    cases hr
    exact ⟨rfl, rfl, rfl⟩
  | selecting deadline =>
    cases l with
    | event => simp [forwardStep, he] at hr
    | closed => simp [forwardStep, hc] at hr
    | stopped => simp [forwardStep, hd] at hr
    | timer =>
      cases deadline with
      | none => simp [forwardStep] at hr
      | some deadline =>
        simp only [forwardStep, Option.ite_none_right_eq_some, Option.some.injEq] at hr
        obtain ⟨-, rfl⟩ := hr
        exact ⟨rfl, rfl, rfl⟩
    | _ => simp [forwardStep] at hr
  | _ => cases hf

theorem stops_of_restful (hf : restful f = true) : f.stops = false := by
  cases f <;> first | rfl | cases hf

theorem Reads.stopped {handle : HandleAt} {input : List (List UInt8)} {ctx : Option Nat}
    (hr : Reads c handle input x) (hctx : ∀ epoch ∈ ctx, epoch < limit c handle) :
    Reads (c.stop ctx) handle input x := by
  refine ⟨?_, hr.inbox, by cases handle <;> exact hr.place, hr.silent, hr.outlook, hr.whole, hr.latest, ?_, hr.old⟩
  · simpa [Conn.done, Conn.stop] using hr.done
  · intro epoch hmem
    rcases List.mem_append.mp hmem with hmem | hmem
    · exact hctx epoch (Option.mem_toList.mp hmem)
    · exact hr.cancelled epoch hmem

theorem Uttering.forward {l : ForwardLabel} (hu : Uttering s x)
    (hs : step cjson s (.server (.forward l)) = some s') : Phase s' := by
  obtain ⟨r, hr, rfl⟩ := step_forward hs
  cases hu.quiet with
  | waiting hf hp hleft =>
    rw [hp] at hr
    obtain ⟨hconn, hpacer, hrestful⟩ :=
      forward_waits hf hu.reads.done (List.append_eq_nil_iff.mp hleft).1 hu.eventsClosed hr
    rw [hconn, hpacer, stops_of_restful hrestful, stopWorker_false]
    exact .inl ⟨x, ⟨hu.party, hu.reads, hu.follows, hu.eventsClosed, hu.delivered, hu.accepted, hu.outcomes⟩,
      .waiting hrestful rfl hleft⟩
  | stopping hf hctx hleft =>
    rw [hf] at hr ⊢
    cases l <;> simp only [forwardStep, reduceCtorEq, Option.some.injEq] at hr
    subst hr
    have hfacing : Facing { s with server := { s.server with
        conn := s.server.conn.stop _, pacer := s.server.pacer.reset, forward := .top } } x :=
      ⟨hu.party, hu.reads.stopped hctx, hu.follows, hu.eventsClosed, hu.delivered, hu.accepted, hu.outcomes⟩
    dsimp only [ForwardAt.stops, ForwardAt.finishes?]
    rw [stopWorker_false]
    rcases hleft with hnone | hasked
    · exact .inl ⟨x, hfacing, .waiting rfl rfl hnone⟩
    · exact .inr ⟨_, _, _, _, hfacing.answers rfl rfl
        ⟨hasked.active, hasked.committed, hasked.answered, hasked.fits, hasked.before, hasked.left⟩⟩

theorem Clear.pumps {i : Transport.Inbox} {r : Transport.Inbox × Bool} (hc : Clear i)
    (hroom : i.receiveQueue.length < Transport.receiveQueueCapacity) (hr : i.readPump = some r) :
    ∃ m wire, i.wire = m :: wire ∧ r = ({ i with wire, receiveQueue := i.receiveQueue ++ [m] }, false) := by
  cases hw : i.wire with
  | nil => simp [Transport.Inbox.readPump, hc.pump, hw] at hr
  | cons m wire =>
    simp only [Transport.Inbox.readPump, hc.pump, hw, hc.saturatedTurn, Option.isSome_none, Bool.false_eq_true,
      false_and, if_false, if_pos hroom, Option.some.injEq] at hr
    refine ⟨m, wire, rfl, hr.symm.trans ?_⟩
    rw [hc.pump, hc.saturatedTurn]

theorem Uttering.readPump (hu : Uttering s x)
    (hroom : s.server.conn.inbox.receiveQueue.length < Transport.receiveQueueCapacity)
    (hs : step cjson s (.server .readPump) = some s') : Uttering s' x := by
  simp only [step, Device.step, Option.map_eq_some_iff, Option.ite_none_left_eq_some] at hs
  obtain ⟨_, ⟨hopen, r, hr, rfl⟩, rfl⟩ := hs
  have hreads := hu.reads
  obtain ⟨m, wire, hwire, rfl⟩ := hreads.inbox.pumps hroom hr
  have hclosed : s.server.conn.closed = false := by simpa using hopen
  have huntouched : Untouched s.server.conn s.server.handle { s.server.conn with
      inbox := { s.server.conn.inbox with wire, receiveQueue := s.server.conn.inbox.receiveQueue ++ [m] }
      closed := false } s.server.handle := by
    refine ⟨rfl, rfl, rfl, ?_, ⟨hreads.inbox.pump, hreads.inbox.saturatedTurn, hreads.inbox.congestion,
      hreads.inbox.congested⟩, rfl, rfl, ?_⟩
    · simpa [Conn.done, hclosed] using hreads.done
    · simp [underway, hwire]
  refine ⟨⟨hu.party, hreads.untouched huntouched ?_, hu.follows, hu.eventsClosed, hu.delivered, hu.accepted,
    hu.outcomes⟩, ?_⟩
  · have hplace := hreads.place
    cases hh : s.server.handle <;> rw [hh] at hplace <;> exact hplace
  · cases hu.quiet with
    | waiting hf hp hleft => exact .waiting hf hp hleft
    | stopping hf hctx hleft =>
      refine .stopping hf ?_ ?_
      · rw [huntouched.limit]
        exact hctx
      · exact hleft.imp_right fun h => ⟨h.active, h.committed, h.answered, h.fits, h.before, h.left⟩

/-- The conversation beside the reader: nothing is said to the client and no turn begins. -/
theorem Uttering.beside {c' : Conn} {script : List Event} (hu : Uttering s x)
    (hc : c' = { s.server.conn with
      written := c'.written, now := c'.now
      actor := { s.server.conn.actor with events := c'.actor.events, emitted := c'.actor.emitted } })
    (hleft : c'.actor.events ++ script = s.server.conn.actor.events ++ s.script) :
    Uttering { s with server := { s.server with conn := c' }, script } x := by
  refine ⟨⟨hu.party, hu.reads.beside (by rw [hc]), hu.follows, ?_, ?_, hu.accepted, hu.outcomes⟩, ?_⟩
  · rw [hc]
    exact hu.eventsClosed
  · rw [hc]
    exact hu.delivered
  · cases hu.quiet with
    | waiting hf hp hnone => exact .waiting hf hp (hleft.trans hnone)
    | stopping hf hctx hstop =>
      refine .stopping hf ?_ ?_
      · rw [hc]
        exact hctx
      · rcases hstop with hnone | hasked
        · exact .inl (hleft.trans hnone)
        · refine .inr ⟨?_, ?_, ?_, ?_, ?_, ?_⟩
          · rw [hc]
            exact hasked.active
          · rw [hc]
            exact hasked.committed
          · rw [hc]
            exact hasked.answered
          · rw [hc]
            exact hasked.fits
          · rw [hc]
            exact hasked.before
          · rw [show c'.turn = s.server.conn.turn by rw [hc]]
            exact hleft.trans hasked.left

theorem Reads.post {handle : HandleAt} {input : List (List UInt8)} {y : Received} {m : Message}
    (hr : Reads c handle input x) (ha : Absorbs x m y) :
    Reads { c with inbox := { c.inbox with wire := c.inbox.wire ++ [m] } } handle input y := by
  refine ⟨hr.done, ⟨hr.inbox.pump, hr.inbox.saturatedTurn, hr.inbox.congestion, hr.inbox.congested⟩,
    by cases handle <;> exact hr.place, hr.silent, ?_, hr.whole, hr.latest, hr.cancelled, hr.old⟩
  have ho := hr.outlook
  simp only [Dialogue.outlook, underway] at ho ⊢
  rw [← List.append_assoc, List.foldlM_append, ho]
  simpa using absorb_iff.mpr ha

/-- What `SendControl` hands on, and what becomes of the client. -/
theorem step_send {control : Control} {capacity : QueueCapacity} (hr : s.rejected = false)
    (hs : step cjson s (.send control capacity) = some s') : s' = s ∨ s.client.admits control = some true ∧
      s' = { (if control.kind = .turnStart then { s with spoken := [], input := [], outcomes := [] } else s) with
        client := s.client.sent control
        server := post (readText (Utf8.encode ((s.client.sent control).json control))) s.server } := by
  have hcases : (s.client.send control capacity).2 = (false, s.client) ∨
      s.client.admits control = some true ∧ (s.client.send control capacity).2 = (true, s.client.sent control) := by
    rw [Transport.send]
    split
    · exact .inl rfl
    · exact .inl rfl
    · rename_i ha
      split
      · exact .inr ⟨ha, rfl⟩
      · exact .inl rfl
  rw [step, if_neg (by simp [hr])] at hs
  rcases hcases with hnone | ⟨ha, hsent⟩
  · left
    simp only [hnone, Bool.false_eq_true, false_and, if_false, Option.some.injEq] at hs
    exact hs.symm
  · right
    simp only [hsent, true_and, if_true, Option.some.injEq] at hs
    refine ⟨ha, hs.symm.trans ?_⟩
    split <;> rfl

theorem sent_json (t : Transport) (control : Control) : (t.sent control).json control = t.json control := by
  rw [Transport.sent]
  cases control.kind <;> rfl

theorem sent_party {control : Control} (hp : Party t) : Party (t.sent control) := by
  rw [Transport.sent]
  cases control.kind <;> exact ⟨hp.deviceID, hp.uuid, hp.session⟩

theorem post_some (m : Message) (server : Device.Sys) : post (some m) server =
    { server with conn := { server.conn with
        inbox := { server.conn.inbox with wire := server.conn.inbox.wire ++ [m] } } } := rfl

theorem Quiet.posted {m : Message} (hq : Quiet s) (hs : s'.server = post (some m) s.server)
    (ha : s'.answer = s.answer ∧ s'.answered = s.answered ∧ s'.script = s.script ∧ s'.before = s.before) :
    Quiet s' := by
  obtain ⟨hanswer, hanswered, hscript, hbefore⟩ := ha
  rw [post_some] at hs
  cases hq with
  | waiting hf hp hleft => exact .waiting (by rw [hs]; exact hf) (by rw [hs]; exact hp) (by rw [hs, hscript]; exact hleft)
  | stopping hf hctx hleft =>
    refine .stopping (by rw [hs]; exact hf) (by rw [hs]; exact hctx) ?_
    rw [hs, hscript]
    refine hleft.imp_right fun h => ⟨?_, ?_, ?_, ?_, ?_, ?_⟩
    · rw [hs]
      exact h.active
    · rw [hs]
      exact h.committed
    · rw [hs, hanswered]
      exact h.answered
    · rw [hs, hanswer]
      exact h.fits
    · rw [hs, hbefore]
      exact h.before
    · rw [hs, hscript, hanswer]
      exact h.left

theorem Facing.starts {control : Control} (hf : Facing s x) (hr : Rests s.client x) (hq : Quiet s)
    (hk : control.kind = .turnStart) (hv : ∀ c ∈ control.messageId.toList, Wire.isVisibleASCII c = true)
    (ha : s.client.admits control = some true) (hn : s.spoken = [] ∧ s.input = []) :
    ∃ y, Uttering { s with
      client := s.client.sent control
      server := post (readText (Utf8.encode ((s.client.sent control).json control))) s.server } y := by
  obtain ⟨y, habsorbs, hspeaks⟩ := hr.start hk ha
  rw [sent_json, readText_start hk hf.party.deviceID hv ha]
  refine ⟨y, ⟨sent_party hf.party, hf.reads.post habsorbs, .inl ?_, hf.eventsClosed, hf.delivered, hf.accepted,
    hf.outcomes⟩, hq.posted rfl ⟨rfl, rfl, rfl, rfl⟩⟩
  dsimp only
  rw [hn.1]
  exact hspeaks

theorem Uttering.send {control : Control} {capacity : QueueCapacity} (hu : Uttering s x)
    (hc : Calm s (.send control capacity)) (hs : step cjson s (.send control capacity) = some s') :
    ∃ y, Uttering s' y := by
  rcases step_send hu.accepted hs with rfl | ⟨hadmits, rfl⟩
  · exact ⟨x, hu⟩
  obtain ⟨hvisible, ⟨hkind, -⟩ | hkind⟩ := hc
  · rw [if_pos hkind]
    rcases hu.follows with hspeaks | ⟨hrests, hspoken, hinput⟩
    · -- the client is in a turn
      obtain ⟨-, -, hinactive, -⟩ := (Transport.admits_turnStart hkind).mp hadmits
      rw [hspeaks.active.1] at hinactive
      cases hinactive
    · have hfacing : Facing { s with spoken := [], input := [], outcomes := [] } x :=
        ⟨hu.party, hinput ▸ hu.reads, .inr ⟨hrests, rfl, rfl⟩, hu.eventsClosed, hu.delivered, hu.accepted, rfl⟩
      have hquiet : Quiet { s with spoken := [], input := [], outcomes := [] } := by
        cases hu.quiet with
        | waiting hf hp hleft => exact .waiting hf hp hleft
        | stopping hf hctx hleft =>
          exact .stopping hf hctx (hleft.imp_right fun h => ⟨h.active, h.committed, h.answered, h.fits, h.before, h.left⟩)
      exact hfacing.starts hrests hquiet hkind hvisible hadmits ⟨rfl, rfl⟩
  · have hne : control.kind ≠ .turnStart := by
      rw [hkind]
      decide
    rw [if_neg hne, sent_json, readText_commit hkind hu.party.deviceID hvisible hadmits]
    rcases hu.follows with hspeaks | ⟨hrests, -⟩
    · obtain ⟨y, habsorbs, hsays⟩ := hspeaks.commit hkind hadmits
      exact ⟨y, ⟨sent_party hu.party, hu.reads.post habsorbs, .inl hsays, hu.eventsClosed, hu.delivered, hu.accepted,
        hu.outcomes⟩, hu.quiet.posted rfl ⟨rfl, rfl, rfl, rfl⟩⟩
    · simp [Transport.admits, hkind, hrests.inactive.1] at hadmits

/-- What `SendPcm` hands on, and what becomes of the client. -/
theorem step_sendPcm {header : Pcm64Header} {pcm : List UInt8} {capacity : QueueCapacity} (hr : s.rejected = false)
    (hs : step cjson s (.sendPcm header pcm capacity) = some s') : s' = s ∨
      ∃ bytes t, s.client.sendPcm header pcm capacity = (.ok, some bytes, t) ∧ s' = { s with
        client := t, server := post (readFrame bytes) s.server, spoken := s.spoken ++ pcm } := by
  have hcases : (s.client.sendPcm header pcm capacity).2 = (none, s.client) ∨
      ∃ bytes t, s.client.sendPcm header pcm capacity = (.ok, some bytes, t) := by
    unfold Transport.sendPcm
    repeat' split
    · exact .inl rfl
    · exact .inl rfl
    · exact .inl rfl
    · exact .inr ⟨_, _, rfl⟩
  rw [step, if_neg (by simp [hr])] at hs
  rcases hcases with hnone | ⟨bytes, t, hsent⟩
  · left
    simp only [hnone, Option.some.injEq] at hs
    exact hs.symm
  · right
    simp only [hsent, Option.some.injEq] at hs
    exact ⟨bytes, t, hsent, hs.symm⟩

theorem Uttering.sendPcm {header : Pcm64Header} {pcm : List UInt8} {capacity : QueueCapacity} (hu : Uttering s x)
    (hc : Calm s (.sendPcm header pcm capacity)) (hs : step cjson s (.sendPcm header pcm capacity) = some s') :
    ∃ y, Uttering s' y := by
  rcases step_sendPcm hu.accepted hs with rfl | ⟨bytes, t, hsent, rfl⟩
  · exact ⟨x, hu⟩
  obtain ⟨hadmits, -, rfl⟩ := Transport.sendPcm_ok hsent
  rcases hu.follows with hspeaks | ⟨hrests, -⟩
  · obtain ⟨m, y, hread, habsorbs, hsays⟩ := hspeaks.frame hu.party.uuid hc hsent
    rw [hread]
    exact ⟨y, ⟨⟨hu.party.deviceID, hu.party.uuid, hu.party.session⟩, hu.reads.post habsorbs, .inl hsays,
      hu.eventsClosed, hu.delivered, hu.accepted, hu.outcomes⟩, hu.quiet.posted rfl ⟨rfl, rfl, rfl, rfl⟩⟩
  · simp [Transport.admitsPcm, hrests.inactive.1] at hadmits

-- ---------------------------------------------------------------------------
-- While the server answers
-- ---------------------------------------------------------------------------

theorem Answering.session (ha : Answering s c h stage g) : s.client.session = .ofNat c.turn.sessionID := by
  obtain ⟨hsession, -⟩ := of_decide_eq_true ha.exchanged.client.ids
  exact (hsession.trans ha.exchanged.client.session).symm

theorem Answering.same (ha : Answering s c h stage g) : Same s.client s.server.conn.turn := by
  obtain ⟨-, hdevice, huuid, hsession, -⟩ := lasting_ids ha.turn
  refine ⟨hdevice.trans ha.exchanged.client.deviceId.symm, huuid.trans ha.exchanged.client.uuid.symm, ?_⟩
  rw [ha.session, hsession, UInt32.toNat_ofNat_of_lt' ha.servable.addressed.sessionID]

theorem Answering.party (ha : Answering s c h stage g) : Party s.client where
  deviceID := by
    have hid : s.client.deviceId = c.turn.deviceID := ha.exchanged.client.deviceId
    rw [hid]
    exact ha.servable.addressed.deviceID
  uuid := ha.exchanged.uuid
  session := by
    intro hzero
    have hids := ha.servable.ids
    rw [ha.session] at hzero
    exact (of_decide_eq_true hids).1 hzero

theorem reframes_stays {r : GoString} {deltas : List Delta} {doneAt : Option (List UInt8)}
    {left : List Event} (hf : f.Reframes c r deltas doneAt turn p h stage left) : f.stops = false := by
  cases f with
  | exited => exact hf.elim
  | _ => rfl

theorem Answering.forward {l : ForwardLabel} (ha : Answering s c h stage g) (hc : Client.ReadsJSON cjson)
    (hl : l ≠ .send .encodeFailed) (hs : step cjson s (.server (.forward l)) = some s') :
    ∃ h stage g, Answering s' c h stage g := by
  obtain ⟨r, hr, rfl⟩ := step_forward hs
  have hkeeps := forwardStep_keeps hr
  have hexchange : s.exchange.step cjson (.server (.forward l)) = some { s.exchange with
      server := { s.response with
        conn := r.1, pacer := r.2.1, forward := r.2.2
        doneAt := if s.server.forward.finishes? then some (Device.wireBytes s.response.out) else s.doneAt } } := by
    have hresponse : s.response.step (.forward l) = some { s.response with
        conn := r.1, pacer := r.2.1, forward := r.2.2
        doneAt := if s.server.forward.finishes? then some (Device.wireBytes s.response.out) else s.doneAt } := by
      rw [Device.response_step_forward hl]
      exact congrArg (Option.map _) hr
    exact congrArg (Option.map _) hresponse
  obtain ⟨h', stage', g', hx⟩ := ha.exchanged.step ha.servable hc hexchange
  have hstays : r.2.2.stops = false := reframes_stays hx.server.place
  rw [hstays, stopWorker_false]
  refine ⟨h', stage', g', hx, ha.servable, ?_, ?_, ha.before, ha.accepted, ha.answered, hkeeps.turn.trans ha.turn,
    ?_, ?_, ?_, ha.input, ha.whole⟩
  · exact ⟨ha.still.place, by rw [hkeeps.inbox]; exact ha.still.receiveQueue,
      by rw [hkeeps.inbox]; exact ha.still.wire⟩
  · rw [hkeeps.inbox]
    exact ha.inbox
  · intro epoch hmem
    rw [hkeeps.latest]
    rcases hkeeps.cancelled with heq | ⟨turn, hstop, heq⟩
    · rw [heq] at hmem
      exact ha.cancelled epoch hmem
    · rw [heq] at hmem
      rcases List.mem_append.mp hmem with hmem | hmem
      · exact ha.stopping turn hstop epoch (Option.mem_toList.mp hmem)
      · exact ha.cancelled epoch hmem
  · obtain ⟨-, -, -, -, -, hctx⟩ := lasting_ids hkeeps.turn
    rw [hctx, hkeeps.latest]
    exact ha.ctx
  · intro turn hstop
    rw [hkeeps.stops turn hstop, hkeeps.latest]
    exact ha.ctx

theorem waits_stops {handle : HandleAt} (hw : waits handle = true) : handle.stops = false := by
  cases handle <;> first | rfl | cases hw

theorem Answering.handle {l : HandleLabel} (ha : Answering s c h stage g) (hl : ∀ err, l ≠ .returns (some err))
    (hs : step cjson s (.server (.handle l)) = some s') : Answering s' c h stage g := by
  obtain ⟨r, hr, rfl⟩ := step_handle hs
  obtain ⟨hconn, hwaits, happends⟩ := ha.still.reader ha.inbox ha.exchanged.server.opened.done hl hr
  rw [hconn, waits_stops hwaits, stopWorker_false, happends, List.append_nil]
  exact ⟨ha.exchanged, ha.servable, ⟨hwaits, ha.still.receiveQueue, ha.still.wire⟩, ha.inbox, ha.before, ha.accepted,
    ha.answered, ha.turn, ha.cancelled, ha.ctx, ha.stopping, ha.input, ha.whole⟩

theorem Answering.readPump (ha : Answering s c h stage g) : step cjson s (.server .readPump) = none := by
  have hnone : s.server.conn.inbox.readPump = none := by
    rw [Transport.Inbox.readPump, ha.inbox.pump, ha.still.wire]
  simp only [step, Device.step, hnone, Option.map_none, ite_self]

theorem Answering.beside {c' : Conn} {script : List Event} (ha : Answering s c h stage g)
    (hc : c' = { s.server.conn with
      written := c'.written, now := c'.now
      actor := { s.server.conn.actor with events := c'.actor.events, emitted := c'.actor.emitted } })
    (hleft : c'.actor.events ++ script = s.server.conn.actor.events ++ s.script) :
    Answering { s with server := { s.server with conn := c' }, script } c h stage g := by
  have hx := ha.exchanged
  have ho := hx.server.opened
  have hsent : c'.sent = s.server.conn.sent := by rw [hc]
  have hturn : c'.turn = s.server.conn.turn := by rw [hc]
  have hout : c'.sent.drop s.before = s.exchange.server.out := by
    rw [hsent]
    rfl
  refine ⟨⟨hx.server.of_steady rfl hsent ?_ rfl hturn rfl rfl hleft, ?_, ?_, hx.client, hx.uuid, hx.events⟩,
    ha.servable, ?_, ?_, ha.before, ha.accepted, ha.answered, ?_, ?_, ?_, ?_, ha.input, ha.whole⟩
  · refine ⟨?_, ?_, ?_, ho.fresh⟩
    · dsimp only [State.exchange, State.response]
      rw [hc]
      exact ho.done
    · dsimp only [State.exchange, State.response]
      rw [hc]
      exact ho.eventsClosed
    · dsimp only [State.exchange, State.response]
      rw [hc]
      exact ho.ctx
  · change s.exchange.taken ≤ (c'.sent.drop s.before).length
    rw [hout]
    exact hx.taken
  · change hears c.turn _ ((c'.sent.drop s.before).take s.exchange.taken) = some g
    rw [hout]
    exact hx.heard
  · rw [hc]
    exact ⟨ha.still.place, ha.still.receiveQueue, ha.still.wire⟩
  · rw [hc]
    exact ha.inbox
  · rw [hc]
    exact ha.turn
  · rw [hc]
    exact ha.cancelled
  · rw [hc]
    exact ha.ctx
  · rw [hc]
    exact ha.stopping

theorem Answering.deliver (ha : Answering s c h stage g) (hc : Client.ReadsJSON cjson)
    (hs : step cjson s .deliver = some s') : ∃ h stage g, Answering s' c h stage g := by
  have hbefore := ha.before
  have hindex : s.exchange.server.out[s.exchange.taken]? = s.server.conn.sent[s.delivered]? := by
    change (s.server.conn.sent.drop s.before)[s.delivered - s.before]? = _
    rw [List.getElem?_drop, Nat.add_sub_cancel' hbefore]
  simp only [step] at hs
  split at hs
  · cases hs
  rename_i m hm
  simp only [Option.ite_none_left_eq_some, not_or, Nat.not_le, Option.some.injEq] at hs
  obtain ⟨⟨-, hwritten⟩, rfl⟩ := hs
  obtain ⟨g', -, hx⟩ := ha.exchanged.deliver ha.servable hc (hindex.trans hm)
  have htaken : s.delivered + 1 - s.before = s.exchange.taken + 1 := Nat.succ_sub hbefore
  have hnext : ({ s with
      client := (takes cjson s.client m).1, delivered := s.delivered + 1
      rejected := (takes cjson s.client m).2.failed
      outcomes := s.outcomes ++ [(takes cjson s.client m).2] } : State).exchange = { s.exchange with
        client := (takes cjson s.client m).1, taken := s.exchange.taken + 1
        outcomes := s.outcomes ++ [(takes cjson s.client m).2] } := by
    rw [State.exchange, htaken]
    rfl
  refine ⟨h, stage, g', hnext ▸ hx, ha.servable, ⟨ha.still.place, ha.still.receiveQueue, ha.still.wire⟩, ha.inbox,
    Nat.le_succ_of_le hbefore, ?_, ha.answered, ha.turn, ha.cancelled, ha.ctx, ha.stopping, ha.input, ha.whole⟩
  obtain ⟨events, houtcomes, -⟩ := hx.events
  have hmem : (takes cjson s.client m).2 ∈ events.map Transport.Outcome.emit := by
    rw [← houtcomes]
    simp [State.exchange]
  obtain ⟨event, -, hevent⟩ := List.mem_map.mp hmem
  dsimp only
  rw [← hevent]
  rfl

theorem reframes_inactive {r : GoString} {deltas : List Delta} {doneAt : Option (List UInt8)} {left : List Event}
    (ha : c.turn.active = true) (ht : turn.active = false) (hf : f.Reframes c r deltas doneAt turn p h stage left) :
    left = [] ∧ (restful f = true ∧ p = {} ∨ ∃ turn, f = .finishedStop turn) := by
  have hidling {h : Heard} {p : PacedDownlink} (hi : Device.Idling c r deltas doneAt turn p h stage) : False := by
    have hactive := hi.active
    rw [ht, ha] at hactive
    cases hactive
  have hlooping (hl : Device.Looping c r deltas doneAt turn p h stage left) : left = [] ∧ p = {} := by
    rcases hl with ⟨hunfinished, -⟩ | ⟨-, hp, -, hleft⟩
    · exact (hidling hunfinished.toIdling).elim
    · exact ⟨hleft, hp⟩
  cases f with
  | top => exact ⟨(hlooping hf).1, .inl ⟨rfl, (hlooping hf).2⟩⟩
  | pace => exact ⟨(hlooping hf.1).1, .inl ⟨rfl, (hlooping hf.1).2⟩⟩
  | selecting deadline =>
    cases deadline with
    | none => exact ⟨(hlooping hf.1).1, .inl ⟨rfl, (hlooping hf.1).2⟩⟩
    | some deadline => exact ⟨(hlooping hf).1, .inl ⟨rfl, (hlooping hf).2⟩⟩
  | finish => exact (hidling hf.1).elim
  | frame => exact (hidling hf.1.toIdling).elim
  | received => exact (hidling hf.1).elim
  | control =>
    obtain ⟨h', -, -, -, hunfinished, -⟩ := hf
    exact (hidling hunfinished.toIdling).elim
  | audio =>
    obtain ⟨-, -, -, rfl, -⟩ := hf
    rw [ha] at ht
    cases ht
  | sending at_ m job =>
    cases job with
    | control =>
      obtain ⟨h', -, -, hunfinished, -⟩ := hf
      exact (hidling hunfinished.toIdling).elim
    | frame =>
      obtain ⟨h', -, -, -, -, -, -, hi, -⟩ := hf
      exact (hidling hi).elim
    | done =>
      obtain ⟨h', -, -, -, -, hi⟩ := hf
      exact (hidling hi).elim
    | error => exact hf.elim
  | finished =>
    obtain ⟨-, -, -, -, hactive⟩ := hf
    rw [ht] at hactive
    cases hactive
  | finishedStop turn => exact ⟨hf.2.1, .inr ⟨turn, rfl⟩⟩
  | _ => exact hf.elim

theorem Answering.ended (ha : Answering s c h stage g) (ht : s.server.conn.turn.active = false)
    (hi : s.client.active = false) :
    let s' := { s with spoken := [], input := [], outcomes := [] }
    let x : Received := { turn := uplink s.server.conn.turn }
    Facing s' x ∧ Rests s'.client x ∧ Quiet s' := by
  have hx := ha.exchanged
  have hdone : g.done = true := by
    have hactive := hx.client.active
    have hclient : s.exchange.client.active = false := hi
    rw [hclient] at hactive
    simpa using hactive.symm
  have hlimit : limit s.server.conn s.server.handle = s.server.conn.actor.latest + 1 := by
    rw [limit, ha.still.settled]
    exact if_neg (by simp [uplink, ht])
  have hfront := hx.server.heard
  rw [← List.take_append_drop s.exchange.taken s.exchange.server.out] at hfront
  obtain ⟨g', hg', hback⟩ := hears_split hfront
  rw [hx.heard] at hg'
  cases hg'
  obtain ⟨hdrop, -⟩ := eq_of_done hdone hback
  have hdelivered : s.delivered = s.server.conn.sent.length := by
    have hle := List.drop_eq_nil_iff.mp hdrop
    have hlen : s.exchange.server.out.length = s.server.conn.sent.length - s.before := List.length_drop
    have htaken : s.exchange.taken = s.delivered - s.before := rfl
    have hbefore := ha.before
    have hmost := hx.taken
    have hsent : s.before ≤ s.server.conn.sent.length := hx.server.before
    omega
  have hrests : Rests s.client { turn := uplink s.server.conn.turn } :=
    ⟨⟨ha.same.deviceID, ha.same.deviceUUID, ha.same.sessionID⟩, ⟨hi, ht⟩, rfl⟩
  refine ⟨⟨ha.party, ⟨hx.server.opened.done, ha.inbox, ?_, ?_, ?_, by simp, ?_, ?_, ?_⟩, .inr ⟨hrests, rfl, rfl⟩,
    hx.server.opened.eventsClosed, hdelivered, ha.accepted, rfl⟩, hrests, ?_⟩
  · have hplace := ha.still.place
    dsimp only
    cases hh : s.server.handle <;> rw [hh] at hplace <;> trivial
  · intro hactive
    have hfalse : s.server.conn.turn.active = true := hactive
    rw [ht] at hfalse
    cases hfalse
  · dsimp only
    rw [outlook, ha.still.underway, ha.still.settled, ha.still.held]
    rfl
  · intro hactive
    dsimp only at hactive
    rw [ha.still.settled] at hactive
    have hfalse : s.server.conn.turn.active = true := hactive
    rw [ht] at hfalse
    cases hfalse
  · intro epoch hmem
    dsimp only
    rw [hlimit]
    exact Nat.lt_succ_of_le (ha.cancelled epoch hmem)
  · intro _ epoch hmem
    dsimp only
    rw [hlimit]
    exact Nat.lt_succ_of_le (ha.ctx epoch hmem)
  · obtain ⟨hleft, ⟨hf, hp⟩ | ⟨turn, hf⟩⟩ := reframes_inactive ha.servable.fresh.active ht hx.server.place
    · exact .waiting hf hp hleft
    · refine .stopping hf ?_ (.inl hleft)
      dsimp only
      rw [hlimit]
      intro epoch hmem
      refine Nat.lt_succ_of_le (ha.stopping turn ?_ epoch hmem)
      have hforward : s.server.forward = .finishedStop turn := hf
      rw [hforward]
      rfl

theorem Answering.send {control : Control} {capacity : QueueCapacity} (ha : Answering s c h stage g)
    (hc : Calm s (.send control capacity)) (hs : step cjson s (.send control capacity) = some s') : Phase s' := by
  rcases step_send ha.accepted hs with rfl | ⟨hadmits, rfl⟩
  · exact .inr ⟨c, h, stage, g, ha⟩
  obtain ⟨hvisible, ⟨hkind, hinactive⟩ | hkind⟩ := hc
  · obtain ⟨-, -, hclient, -⟩ := (Transport.admits_turnStart hkind).mp hadmits
    obtain ⟨hfacing, hrests, hquiet⟩ := ha.ended hinactive hclient
    rw [if_pos hkind]
    exact .inl (hfacing.starts hrests hquiet hkind hvisible hadmits ⟨rfl, rfl⟩)
  · -- the turn is committed already
    have hcommitted : s.client.committed = true := ha.exchanged.client.committed
    simp [Transport.admits, hkind, hcommitted] at hadmits

theorem Answering.sendPcm {header : Pcm64Header} {pcm : List UInt8} {capacity : QueueCapacity}
    (ha : Answering s c h stage g) (hs : step cjson s (.sendPcm header pcm capacity) = some s') : s' = s := by
  rcases step_sendPcm ha.accepted hs with heq | ⟨bytes, t, hsent, -⟩
  · exact heq
  · obtain ⟨hadmits, -⟩ := Transport.sendPcm_ok hsent
    have hcommitted : s.client.committed = true := ha.exchanged.client.committed
    simp [Transport.admitsPcm, hcommitted] at hadmits

theorem Answering.answer {answer : Answer} (ha : Answering s c h stage g) : step cjson s (.answer answer) = none := by
  obtain ⟨-, -, -, -, hepoch, -⟩ := lasting_ids ha.turn
  simp [step, ha.answered, hepoch]

theorem Uttering.answer {answer : Answer} (hu : Uttering s x) (hc : Calm s (.answer answer))
    (hs : step cjson s (.answer answer) = some s') : Phase s' := by
  simp only [step, Option.ite_none_right_eq_some, Option.some.injEq] at hs
  obtain ⟨⟨hactive, hcommitted, hne⟩, rfl⟩ := hs
  have hasked (hnone : s.server.conn.actor.events = []) : Asked { s with
      answer, answered := s.server.conn.turn.epoch
      script := responseEvents s.server.conn.turn.epoch answer.responseID answer.deltas
      before := s.server.conn.sent.length, doneAt := none } :=
    ⟨hactive, hcommitted, rfl, hc, rfl, by rw [hnone]; rfl⟩
  have hfacing : Facing { s with
      answer, answered := s.server.conn.turn.epoch
      script := responseEvents s.server.conn.turn.epoch answer.responseID answer.deltas
      before := s.server.conn.sent.length, doneAt := none } x :=
    ⟨hu.party, hu.reads, hu.follows, hu.eventsClosed, hu.delivered, hu.accepted, hu.outcomes⟩
  cases hu.quiet with
  | waiting hf hp hleft =>
    exact .inr ⟨_, _, _, _, hfacing.answers hf hp (hasked (List.append_eq_nil_iff.mp hleft).1)⟩
  | stopping hf hctx hleft =>
    rcases hleft with hnone | hbefore
    · exact .inl ⟨x, hfacing, .stopping hf hctx (.inr (hasked (List.append_eq_nil_iff.mp hnone).1))⟩
    · exact absurd hbefore.answered hne

theorem Uttering.deliver (hu : Uttering s x) : step cjson s .deliver = none := by
  have hnone : s.server.conn.sent[s.delivered]? = none := by
    rw [hu.delivered]
    exact List.getElem?_eq_none (Nat.le_refl _)
  simp only [step, hnone]

theorem Phase.server {l : Device.Label} (hp : Phase s) (hj : Client.ReadsJSON cjson) (hc : Calm s (.server l))
    (hs : step cjson s (.server l) = some s') : Phase s' := by
  have hbeside {c' : Conn} (hb : c' = { s.server.conn with
      written := c'.written, now := c'.now
      actor := { s.server.conn.actor with events := c'.actor.events, emitted := c'.actor.emitted } })
      (hleft : c'.actor.events = s.server.conn.actor.events) :
      Phase { s with server := { s.server with conn := c' } } := by
    rcases hp with ⟨x, hu⟩ | ⟨c, h, stage, g, ha⟩
    · exact .inl ⟨x, hu.beside hb (by rw [hleft])⟩
    · exact .inr ⟨c, h, stage, g, ha.beside hb (by rw [hleft])⟩
  cases l with
  | peer | emit => cases hs
  | closeEvents | disconnect | idle => exact hc.elim
  | readPump =>
    rcases hp with ⟨x, hu⟩ | ⟨c, h, stage, g, ha⟩
    · exact .inl ⟨x, hu.readPump hc hs⟩
    · rw [ha.readPump] at hs
      cases hs
  | writePump =>
    simp only [step, Device.step, Option.map_eq_some_iff, Option.ite_none_right_eq_some, Option.some.injEq] at hs
    obtain ⟨_, ⟨-, rfl⟩, rfl⟩ := hs
    exact hbeside rfl rfl
  | tick elapsed =>
    cases hs
    exact hbeside rfl rfl
  | handle l =>
    have hl : ∀ err, l ≠ .returns (some err) := by
      rintro err rfl
      exact hc
    rcases hp with ⟨x, hu⟩ | ⟨c, h, stage, g, ha⟩
    · exact .inl ⟨x, hu.handle hl hs⟩
    · exact .inr ⟨c, h, stage, g, ha.handle hl hs⟩
  | forward l =>
    have hl : l ≠ .send .encodeFailed := by
      rintro rfl
      exact hc
    rcases hp with ⟨x, hu⟩ | ⟨c, h, stage, g, ha⟩
    · exact hu.forward hs
    · obtain ⟨h', stage', g', ha'⟩ := ha.forward hj hl hs
      exact .inr ⟨c, h', stage', g', ha'⟩

theorem Phase.emit (hp : Phase s) (hs : step cjson s .emit = some s') : Phase s' := by
  simp only [step] at hs
  split at hs
  · cases hs
  rename_i event script hscript
  simp only [Device.step, Option.map_eq_some_iff, Option.ite_none_left_eq_some, Option.some.injEq] at hs
  obtain ⟨_, ⟨-, rfl⟩, rfl⟩ := hs
  have hleft : s.server.conn.actor.events ++ [event] ++ script = s.server.conn.actor.events ++ s.script := by
    rw [hscript, List.append_assoc]
    rfl
  rcases hp with ⟨x, hu⟩ | ⟨c, h, stage, g, ha⟩
  · exact .inl ⟨x, hu.beside rfl hleft⟩
  · exact .inr ⟨c, h, stage, g, ha.beside rfl hleft⟩

theorem Phase.step {l : Label} (hp : Phase s) (hj : Client.ReadsJSON cjson) (hc : Calm s l)
    (hs : Dialogue.step cjson s l = some s') : Phase s' := by
  cases l with
  | server l => exact hp.server hj hc hs
  | emit => exact hp.emit hs
  | send control capacity =>
    rcases hp with ⟨x, hu⟩ | ⟨c, h, stage, g, ha⟩
    · exact .inl (hu.send hc hs)
    · exact ha.send hc hs
  | sendPcm header pcm capacity =>
    rcases hp with ⟨x, hu⟩ | ⟨c, h, stage, g, ha⟩
    · exact .inl (hu.sendPcm hc hs)
    · rw [ha.sendPcm hs]
      exact .inr ⟨c, h, stage, g, ha⟩
  | deliver =>
    rcases hp with ⟨x, hu⟩ | ⟨c, h, stage, g, ha⟩
    · rw [hu.deliver] at hs
      cases hs
    · obtain ⟨h', stage', g', ha'⟩ := ha.deliver hj hs
      exact .inr ⟨c, h', stage', g', ha'⟩
  | answer answer =>
    rcases hp with ⟨x, hu⟩ | ⟨c, h, stage, g, ha⟩
    · exact hu.answer hc hs
    · rw [ha.answer] at hs
      cases hs

theorem phase_init (hs : (conversation cjson).Init s) : Phase s := by
  obtain ⟨deviceID, deviceUUID, sessionID, huuid, hne, hlt, rfl⟩ := hs
  have hvalid : Wire.isValidDeviceId (Utf8.encode deviceID.toList) = true := by
    by_contra hn
    rw [Wire.parseUuid, if_pos hn] at huuid
    cases huuid
  have hnonzero : UInt32.ofNat sessionID ≠ 0 := by
    intro hzero
    have hnat := congrArg UInt32.toNat hzero
    rw [UInt32.toNat_ofNat_of_lt' hlt] at hnat
    exact hne hnat
  refine .inl ⟨{ turn := uplink (Device.opened deviceID deviceUUID sessionID).turn }, ⟨⟨hvalid, ?_, hnonzero⟩, ?_, ?_, rfl,
    rfl, rfl, rfl⟩, .waiting rfl rfl rfl⟩
  · exact Wire.parseUuid_length huuid
  · exact {
      done := rfl, inbox := ⟨rfl, rfl, rfl, rfl⟩, place := trivial, silent := by simp [Device.opened, Conn.put, Conn.count]
      outlook := rfl, whole := by simp
      latest := by simp [settled, uplink, Device.opened, Conn.put, Conn.count]
      cancelled := by simp [Device.opened, Conn.put, Conn.count]
      old := by simp [Device.opened, Conn.put, Conn.count] }
  · refine .inr ⟨⟨⟨rfl, rfl, ?_⟩, ⟨rfl, rfl⟩, rfl⟩, rfl, rfl⟩
    exact (UInt32.toNat_ofNat_of_lt' hlt).symm

theorem phase_reachable (hj : Client.ReadsJSON cjson) (hs : (conversation cjson).ReachableUnder Calm s) : Phase s :=
  hs.invariant (fun _ => phase_init) fun _ _ _ hp hc hst => hp.step hj hc hst

-- ---------------------------------------------------------------------------
-- The main result
-- ---------------------------------------------------------------------------

theorem Absorbs.grows {y : Received} {m : Message} (ha : Absorbs x m y) : x.bytes <+: y.bytes := by
  cases ha with
  | start => exact List.prefix_rfl
  | commit => exact List.prefix_append _ _
  | pcm => exact List.prefix_append _ _

theorem foldlM_grows {y : Received} {ms : List Message} (hf : ms.foldlM absorb x = some y) : x.bytes <+: y.bytes := by
  induction ms generalizing x with
  | nil =>
    cases hf
    exact List.prefix_rfl
  | cons m ms ih =>
    rw [List.foldlM_cons] at hf
    obtain ⟨z, hz, hrest⟩ := Option.bind_eq_some_iff.mp hf
    exact (absorb_iff.mp hz).grows.trans (ih hrest)

structure Uplinked (s : State) : Prop where
  whole : ∀ frame ∈ s.input, frame.length = inputFrameBytes
  begins : s.input.flatten <+: padded s.spoken
  lossless : s.client.active = true → s.client.committed = false → Still s.server.conn s.server.handle →
    s.input.flatten ++ s.server.conn.turn.pendingPCM = s.spoken
  complete : s.server.conn.turn.active = true ∧ s.server.conn.turn.inputCommitted = true ∨ s.outcomes ≠ [] →
    s.input.flatten = padded s.spoken ∧ s.spoken ≠ []

theorem Uttering.uplinked (hu : Uttering s x) : Uplinked s := by
  have hreads := hu.reads
  refine ⟨hreads.whole, ?_, ?_, ?_⟩
  · have hbytes : s.input.flatten <+: x.bytes :=
      (List.prefix_append _ _).trans (foldlM_grows hreads.outlook)
    refine hbytes.trans ?_
    rcases hu.follows with hspeaks | ⟨hrests, -⟩
    · cases hc : s.client.committed with
      | false =>
        have hprefix : x.bytes <+: s.spoken := ⟨_, hspeaks.running hc⟩
        exact hprefix.trans (List.prefix_append _ _)
      | true =>
        exact (hspeaks.complete hc).2.1 ▸ List.prefix_rfl
    · rw [hrests.bytes]
      exact List.nil_prefix
  · intro hactive hopen hstill
    have ho := hreads.outlook
    rw [outlook, hstill.underway, hstill.settled, hstill.held, List.append_nil] at ho
    cases ho
    rcases hu.follows with hspeaks | ⟨hrests, -⟩
    · exact hspeaks.running hopen
    · rw [hrests.inactive.1] at hactive
      cases hactive
  · rintro (⟨hactive, hcommitted⟩ | hne)
    · obtain ⟨-, hspeaks⟩ := hu.committed hactive hcommitted
      exact (hspeaks.complete (hspeaks.inputCommitted.symm.trans hcommitted)).2
    · exact absurd hu.outcomes hne

theorem Answering.uplinked (ha : Answering s c h stage g) : Uplinked s := by
  refine ⟨ha.whole, ?_, ?_, fun _ => ha.input⟩
  · exact ha.input.1 ▸ List.prefix_rfl
  · intro _ hopen
    have hcommitted : s.client.committed = true := ha.exchanged.client.committed
    rw [hopen] at hcommitted
    cases hcommitted

/-- Turn after turn, both ends keep to the protocol as long as nothing fails: the server
refuses no message and the client none, whatever the order of steps. The provider gets
the client's audio in whole frames, in order, none lost and none twice, and all of it
before the turn is answered; the client hears the answer to that very turn, in order and
to its end, and may then start the next one. -/
theorem turns_agree (hj : Client.ReadsJSON cjson) (hs : (conversation cjson).ReachableUnder Calm s) :
    s.rejected = false ∧ s.server.conn.done none = false ∧ Uplinked s ∧
      ∃ events g, Downlink s.server.conn.turn s.answer.deltas s.exchange events g := by
  rcases phase_reachable hj hs with ⟨x, hu⟩ | ⟨c, h, stage, g, ha⟩
  · refine ⟨hu.accepted, hu.reads.done, hu.uplinked, [], {}, hu.outcomes, rfl, List.nil_prefix, List.nil_prefix, ?_⟩
    intro hdone
    cases hdone
  · obtain ⟨events, hdown⟩ := ha.exchanged.downlink ha.servable
    obtain ⟨hids, -⟩ := lasting_ids ha.turn
    refine ⟨ha.accepted, ha.exchanged.server.opened.done, ha.uplinked, events, g, hdown.outcomes, ?_, hdown.texts,
      hdown.audio, hdown.done⟩
    rw [hids]
    exact hdown.heard

-- ---------------------------------------------------------------------------
-- A turn of one frame
-- ---------------------------------------------------------------------------

def greeted : State where
  server := { conn := { Device.opened Device.deviceName Device.deviceBytes 5 with written := 1 } }
  client := { deviceId := Device.deviceName, uuid := Device.deviceBytes, session := 5, sessionEpoch := 1 }

def startFirst : Control := { kind := .turnStart, messageId := "m", ids := Wire.turnIds 1 }

def utters : List Label := [
  .server .readPump, .server (.handle .next), .server (.handle .message), .server (.handle .next),
  .server (.handle .next), .server (.handle (.random 9)), .server (.handle (.returns none)),
  .server (.handle .next), .server (.handle .next),
  .sendPcm { flags := 3, ids := Wire.turnIds 1 } [1, 2] .available,
  .server .readPump, .server (.handle .next), .server (.handle .message), .server (.handle .next),
  .server (.handle .next), .server (.handle .next)]

def commits : List Label := [
  .server .readPump, .server (.handle .next), .server (.handle .message), .server (.handle .next),
  .server (.handle .next), .server (.handle (.returns none)), .server (.handle .next),
  .server (.handle (.returns none))]

/-- Steps of the reader and of `SendPcm` that are calm. -/
def calmly (s : State) : Label → Bool
  | .server .readPump => s.server.conn.inbox.receiveQueue.length < Transport.receiveQueueCapacity
  | .server (.handle .next) | .server (.handle .message) | .server (.handle (.random _))
  | .server (.handle (.returns none)) => true
  | .sendPcm header _ _ => header.flags &&& 4 = 0
  | _ => false

theorem calm_of_calmly (s : State) (l : Label) (h : calmly s l = true) : Calm s l := by
  unfold calmly at h
  split at h <;> first | trivial | simpa [Calm] using h

/-- `SendControl` with room in the queue. -/
theorem step_sends {control : Control} (hr : s.rejected = false) (ha : s.client.admits control = some true) :
    step cjson s (.send control .available) = some
      { (if control.kind = .turnStart then { s with spoken := [], input := [], outcomes := [] } else s) with
        client := s.client.sent control
        server := post (readText (Utf8.encode (s.client.json control))) s.server } := by
  have hsend : s.client.send control .available = (true, true, s.client.sent control) := by
    rw [Transport.send, ha]
    rfl
  rw [step, if_neg (by simp [hr])]
  simp only [hsend, true_and, if_true, Option.some.injEq, sent_json]
  split <;> rfl

def starting : State := { greeted with
  client := greeted.client.sent startFirst
  server := post (some (controlMessage greeted.client startFirst .turnStart [("sample_rate_hz", .integer 16000)]))
    greeted.server }

def committing (s : State) : State := { s with
  client := s.client.sent commitFirst
  server := post (some (controlMessage s.client commitFirst .turnCommit [])) s.server }

def said (s : State) : Bool :=
  s.rejected = false ∧ s.client.admits commitFirst = some true ∧ s.client.deviceId = Device.deviceName

def heardOut (s : State) : Bool :=
  s.server.conn.turn.active = true ∧ s.server.conn.turn.inputCommitted = true ∧ s.answered = 0 ∧
    s.server.conn.turn.epoch = 1 ∧ s.spoken = [1, 2]

def answerFirst : Answer := { responseID := "r", deltas := [.text "hi"] }

theorem answerFirst_fits : answerFirst.Fits 1 where
  valid := by decide +kernel
  accepted := by decide +kernel
  hearable := by constructor <;> decide +kernel
  short := by decide +kernel

/-- Two bytes are said and an answer begins; the provider has got a padded frame. -/
theorem turns_agree_sample : ∃ s, (conversation readsDocuments).ReachableUnder Calm s ∧
    s.answered = 1 ∧ s.input.flatten = padded [1, 2] := by
  have hinit : (conversation readsDocuments).Init greeted :=
    ⟨Device.deviceName, Device.deviceBytes, 5, by decide +kernel, by decide, by decide, rfl⟩
  have hvalid : Wire.isValidDeviceId (Utf8.encode greeted.client.deviceId.toList) = true := by decide +kernel
  have hall : startFirst.messageId.toList.all Wire.isVisibleASCII = true := by decide +kernel
  have hvisible := List.all_eq_true.mp hall
  have hstart : greeted.client.admits startFirst = some true := by decide +kernel
  have hcalm : Calm greeted (.send startFirst .available) := ⟨hvisible, .inl ⟨rfl, rfl⟩⟩
  have hread : readText (Utf8.encode (greeted.client.json startFirst)) = _ :=
    readText_start rfl hvalid hvisible hstart
  have hsends : step readsDocuments greeted (.send startFirst .available) = _ := step_sends rfl hstart
  rw [hread, if_pos (show startFirst.kind = .turnStart from rfl)] at hsends
  have hstarted : (conversation readsDocuments).ReachableUnder Calm starting := .step (.init hinit) hcalm hsends
  have hrun : ((conversation readsDocuments).runIf calmly starting utters).map (fun s => said s &&
      ((conversation readsDocuments).runIf calmly (committing s) commits).map heardOut == some true) = some true := by
    decide +kernel
  obtain ⟨s, hs, hp⟩ := Option.map_eq_some_iff.mp hrun
  rw [Bool.and_eq_true, beq_iff_eq] at hp
  obtain ⟨hsaid, hcommits⟩ := hp
  obtain ⟨haccepted, hadmits, hdevice⟩ := of_decide_eq_true hsaid
  have hspoken := hstarted.runIf calm_of_calmly hs
  have hreadCommit : readText (Utf8.encode (s.client.json commitFirst)) = _ :=
    readText_commit rfl (by rw [hdevice]; exact hvalid) hvisible hadmits
  have hsendsCommit : step readsDocuments s (.send commitFirst .available) = _ := step_sends haccepted hadmits
  rw [hreadCommit, if_neg (show commitFirst.kind ≠ .turnStart by decide)] at hsendsCommit
  have hcalmCommit : Calm s (.send commitFirst .available) := ⟨hvisible, .inr rfl⟩
  have hcommitting : (conversation readsDocuments).ReachableUnder Calm (committing s) :=
    .step hspoken hcalmCommit hsendsCommit
  obtain ⟨u, hu, hq⟩ := Option.map_eq_some_iff.mp hcommits
  obtain ⟨hactive, hcommitted, hanswered, hepoch, hbytes⟩ := of_decide_eq_true hq
  have hheard := hcommitting.runIf calm_of_calmly hu
  have hcalmAnswer : Calm u (.answer answerFirst) := by
    have hfits := answerFirst_fits
    rw [← hepoch] at hfits
    exact hfits
  have hanswers := hheard.step hcalmAnswer (if_pos ⟨hactive, hcommitted, by rw [hanswered, hepoch]; decide⟩)
  obtain ⟨-, -, huplinked, -⟩ := turns_agree readsDocuments_reads hanswers
  refine ⟨_, hanswers, hepoch, ?_⟩
  obtain ⟨hpadded, -⟩ := huplinked.complete (.inl ⟨hactive, hcommitted⟩)
  exact hpadded.trans (congrArg padded hbytes)

end BoomPI.Dialogue
