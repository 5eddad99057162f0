import BoomPI.Server.Device.Fence
import BoomPI.Server.Device.Pacing
import BoomPI.Server.Device.Rejection
import BoomPI.Server.Device.Terminal

/-!
# The turn after response.done

`finishPacedResponse` queues response.done first and retires the turn under a
later lock. The peer may answer with its next turn.start in between, and
`handleControl` then still finds the old turn active.
-/

namespace BoomPI.Device

open Backend (Error)
open Protocol
open Transport (SendAt SendLabel TurnIdentity)
open BoomPI.Session (Event)

/-- response.done of the turn `id`. -/
def announces (id : TurnIdentity) (m : Outbound) : Bool := content m && ends id m

def announced (c : Conn) : Bool := c.sent.any (announces c.turn.identity)

/-- The actor emits events of the turns it was asked to commit. -/
def issues (s : Sys) : Label → Bool
  | .emit event => event.epoch ∈ s.conn.actor.committed
  | _ => true

def opens (turn : ActiveTurn) (start : ControlEnvelope) : Bool :=
  start.type = .turnStart ∧ controlBelongsToDeviceSession turn start ∧ identified start ∧
    sampleRatePayload start.payload ∧ turn.epoch < start.epoch

/-- A PCM frame of the turn that `start` begins. -/
def frameOf (turn : ActiveTurn) (start : ControlEnvelope) : Message → Bool
  | .pcm header _ =>
    header.deviceUUID = turn.deviceUUID ∧ header.sessionID = start.sessionID ∧
      header.turnID = start.turnID ∧ header.streamID = start.streamID ∧ header.epoch = start.epoch
  | .control _ => false

/-- The actor accepts the turn.start, and the reader takes nothing but frames of its turn. -/
def framesOnly (start : ControlEnvelope) (s : Sys) : Label → Bool
  | .handle .next => s.handle ≠ .receive ∨ s.conn.inbox.congestion = []
  | .handle .congestion => false
  | .handle .message => s.conn.inbox.receiveQueue.head?.all (frameOf s.conn.turn start)
  | .handle (.returns (some _)) => match s.handle with
    | .starting .. => false
    | _ => true
  | _ => true

/-- A turn.start is rejected, or a message is a protocol violation. -/
def HandleAt.refuses : HandleAt → Bool
  | .failed .. | .rejecting _ | .protocolError _ | .sending _ _ (.farewell _) => true
  | _ => false

/-- response.done of the turn is queued and the second lock of `finishPacedResponse` is
still to come. -/
def lingering (s : Sys) : Bool :=
  s.conn.turn.active ∧ s.forward.finishes s.conn.turn.identity

variable {c c' : Conn} {h h' : HandleAt} {f f' : ForwardAt} {p : PacedDownlink} {s t : Sys}
  {turn : ActiveTurn} {start : ControlEnvelope}

-- ---------------------------------------------------------------------------
-- Only a committed turn is answered
-- ---------------------------------------------------------------------------

/-- The forwarder retires committed turns only. -/
def ForwardAt.Issued (committed : List Nat) : ForwardAt → Prop
  | .received event => event.epoch ∈ committed
  | .error turn | .finished turn | .sending _ _ (.done turn) => turn.epoch ∈ committed
  | _ => True

structure Issued (c : Conn) (p : PacedDownlink) (f : ForwardAt) : Prop where
  events : ∀ event ∈ c.actor.events, event.epoch ∈ c.actor.committed
  pacer : p.epoch ≠ 0 → p.epoch ∈ c.actor.committed
  place : f.Issued c.actor.committed

theorem ForwardAt.Issued.mono {es es' : List Nat} (hf : f.Issued es) (he : ∀ e ∈ es, e ∈ es') :
    f.Issued es' := by
  cases f with
  | received | error | finished => exact he _ hf
  | sending _ _ job =>
    cases job with
    | done => exact he _ hf
    | _ => trivial
  | _ => trivial

theorem Issued.belongs (hi : Issued c p f) (hb : p.belongsTo turn = true) :
    turn.epoch ∈ c.actor.committed := by
  obtain ⟨h0, he, -⟩ := belongsTo_iff.mp hb
  exact he ▸ hi.pacer h0

theorem forwardEvent_issued {event : Event} (hi : Issued c p f)
    (he : event.epoch ∈ c.actor.committed) (ht : event.epoch = turn.epoch) :
    Issued (forwardEvent c p turn event).1 (forwardEvent c p turn event).2.1
      (forwardEvent c p turn event).2.2 := by
  unfold forwardEvent
  repeat' split
  case h_1.isFalse =>
    exact ⟨hi.events, fun _ => (ht ▸ he : turn.epoch ∈ c.actor.committed), trivial⟩
  case h_5 => exact ⟨hi.events, hi.pacer, (ht ▸ he : turn.epoch ∈ c.actor.committed)⟩
  all_goals exact ⟨hi.events, hi.pacer, trivial⟩

theorem Issued.drop (hi : Issued c p f) : Issued c p.reset .top :=
  ⟨hi.events, fun h0 => absurd rfl h0, trivial⟩

theorem forwardStep_issued {l : ForwardLabel} {r : Forwarded} (hi : Issued c p f)
    (hr : forwardStep c p f l = some r) : Issued r.1 r.2.1 r.2.2 := by
  have events := hi.events
  have pacer := hi.pacer
  cases f with
  | top =>
    cases l <;> simp only [forwardStep, reduceCtorEq, Option.some.injEq] at hr
    subst hr
    have hp : (closeAligned (dropStale c.turn p)).epoch ≠ 0 →
        (closeAligned (dropStale c.turn p)).epoch ∈ c.actor.committed := by
      have hclose (q : PacedDownlink) : (closeAligned q).epoch = q.epoch := by
        unfold closeAligned
        split <;> rfl
      rw [hclose]
      unfold dropStale
      split
      · exact fun h0 => absurd rfl h0
      · exact pacer
    refine ⟨events, hp, ?_⟩
    dsimp only
    split <;> trivial
  | finish =>
    cases l <;> simp only [forwardStep, reduceCtorEq, Option.some.injEq] at hr
    subst hr
    unfold finishPacedResponse
    split
    · rename_i hw
      exact ⟨events, pacer, hi.belongs (writable_iff.mp hw).2⟩
    · exact hi.drop
  | received event =>
    cases l <;> simp only [forwardStep, reduceCtorEq] at hr
    split at hr
    · cases hr
      exact ⟨events, pacer, trivial⟩
    · rename_i hn
      simp only [not_or, Decidable.not_not] at hn
      cases hr
      exact forwardEvent_issued hi hi.place hn.2
  | selecting deadline =>
    cases l with
    | event =>
      simp only [forwardStep] at hr
      split at hr
      · rename_i event rest _ heq
        cases hr
        rw [heq] at events
        exact ⟨fun ev hev => events ev (List.mem_cons_of_mem _ hev), pacer,
          events event List.mem_cons_self⟩
      · cases hr
    | timer =>
      cases deadline with
      | none => cases hr
      | some deadline =>
        simp only [forwardStep, Option.ite_none_right_eq_some] at hr
        obtain ⟨-, ⟨⟩⟩ := hr
        exact ⟨events, pacer, trivial⟩
    | stopped | closed =>
      simp only [forwardStep, Option.ite_none_right_eq_some] at hr
      obtain ⟨-, ⟨⟩⟩ := hr
      exact ⟨events, pacer, trivial⟩
    | _ => cases hr
  | sending s m job =>
    cases l <;> simp only [forwardStep, reduceCtorEq, Option.map_eq_some_iff] at hr
    obtain ⟨result, -, rfl⟩ := hr
    cases result with
    | waiting =>
      refine ⟨events, pacer, ?_⟩
      cases job with
      | done => exact hi.place
      | _ => trivial
    | failed => exact ⟨events, pacer, trivial⟩
    | queued =>
      cases job with
      | control => exact ⟨events, pacer, trivial⟩
      | frame turn payload final =>
        refine ⟨events, pacer, ?_⟩
        cases final <;> trivial
      | done => exact ⟨events, pacer, hi.place⟩
      | error => exact ⟨events, fun h0 => absurd rfl h0, trivial⟩
  | failed job err =>
    cases l <;> simp only [forwardStep, reduceCtorEq, Option.some.injEq] at hr
    subst hr
    unfold afterFailure
    cases job with
    | control | frame | done =>
      dsimp only
      split
      · exact ⟨events, pacer, trivial⟩
      · first | exact ⟨events, pacer, trivial⟩ | exact hi.drop
    | error => exact ⟨events, pacer, trivial⟩
  | finished turn =>
    cases l <;> simp only [forwardStep, reduceCtorEq] at hr
    split at hr <;> cases hr
    · exact ⟨events, pacer, trivial⟩
    · exact hi.drop
  | finishedStop turn =>
    cases l <;> simp only [forwardStep, reduceCtorEq, Option.some.injEq] at hr
    subst hr
    exact ⟨events, fun h0 => absurd rfl h0, trivial⟩
  | frame =>
    cases l <;> simp only [forwardStep, reduceCtorEq, Option.some.injEq] at hr
    subst hr
    unfold sendNextPacedFrame
    split
    · exact hi.drop
    · dsimp only
      split <;> exact ⟨events, pacer, trivial⟩
  | pace =>
    cases l <;> simp only [forwardStep, reduceCtorEq] at hr
    split at hr <;> cases hr
    · exact ⟨events, pacer, trivial⟩
    · exact ⟨events, pacer, trivial⟩
    · refine ⟨events, pacer, ?_⟩
      dsimp only
      split <;> trivial
  | control =>
    cases l <;> simp only [forwardStep, reduceCtorEq, Option.some.injEq] at hr
    subst hr
    unfold sendControlIfActive
    split <;> exact ⟨events, pacer, trivial⟩
  | audio =>
    cases l <;> simp only [forwardStep, reduceCtorEq, Option.some.injEq] at hr
    subst hr
    unfold forwardAudio
    split
    · exact ⟨events, pacer, trivial⟩
    · dsimp only
      split <;> exact ⟨events, pacer, trivial⟩
  | error =>
    cases l <;> simp only [forwardStep, reduceCtorEq] at hr
    split at hr <;> cases hr <;> exact ⟨events, pacer, trivial⟩
  | errorStop =>
    cases l <;> simp only [forwardStep, reduceCtorEq, Option.some.injEq] at hr
    subst hr
    exact ⟨events, pacer, trivial⟩
  | exited => cases l <;> simp only [forwardStep, reduceCtorEq] at hr

/-- What a step of the forwarder leaves of the turn: its uplink, and the turn itself while
it is not committed. -/
structure Conn.Spares (c c' : Conn) : Prop where
  uplinkStream : c'.turn.uplinkStream = c.turn.uplinkStream
  deviceUUID : c'.turn.deviceUUID = c.turn.deviceUUID
  active : c.turn.epoch ∉ c.actor.committed → c'.turn.active = c.turn.active

theorem forwardStep_spares {l : ForwardLabel} {r : Forwarded} (hi : f.Issued c.actor.committed)
    (hr : forwardStep c p f l = some r) : c.Spares r.1 := by
  unfold forwardStep at hr
  split at hr
  case h_9 =>
    split at hr
    · cases hr
      exact ⟨rfl, rfl, fun _ => rfl⟩
    · cases hr
      rw [(forwardEvent_calm c p c.turn _).1]
      exact ⟨rfl, rfl, fun _ => rfl⟩
  case h_12 turn =>
    split at hr <;> cases hr
    · rename_i ha
      have he : c.turn.epoch = turn.epoch := identity_epoch (sameActiveTurn_iff.mp ha).2
      exact ⟨rfl, rfl, fun hn => absurd (he ▸ hi) hn⟩
    · exact ⟨rfl, rfl, fun _ => rfl⟩
  case h_14 =>
    rw [Option.map_eq_some_iff] at hr
    obtain ⟨result, -, rfl⟩ := hr
    cases result <;> exact ⟨rfl, rfl, fun _ => rfl⟩
  case h_16 turn =>
    split at hr <;> cases hr
    · rename_i ha
      have he : c.turn.epoch = turn.epoch := identity_epoch (sameActiveTurn_iff.mp ha).2
      exact ⟨rfl, rfl, fun hn => absurd (he ▸ hi) hn⟩
    · exact ⟨rfl, rfl, fun _ => rfl⟩
  all_goals
    try unfold finishPacedResponse at hr
    try unfold sendNextPacedFrame at hr
    try unfold sendControlIfActive at hr
    try unfold forwardAudio at hr
    repeat' (first | split at hr | dsimp only at hr)
    all_goals cases hr
  all_goals exact ⟨rfl, rfl, fun _ => rfl⟩

-- ---------------------------------------------------------------------------
-- A turn whose response.done is queued
-- ---------------------------------------------------------------------------

theorem announces_iff {id : TurnIdentity} {m : Outbound} : announces id m = true ↔
    content m = true ∧ terminal m = true ∧ outboundIdentity m = id := by
  simp [announces, ends]

/-- A turn that is still active after its response.done was queued is the one the
forwarder is about to retire. -/
structure Announced (s : Sys) : Prop where
  commits : Commits s.conn s.handle
  issued : Issued s.conn s.pacer s.forward
  told : ∀ id, ∀ m ∈ s.conn.sent, announces id m = true → id.epoch ∈ s.conn.actor.committed
  lingers : ∀ m ∈ s.conn.sent, announces s.conn.turn.identity m = true →
    s.conn.turn.active = true → s.forward.finishes s.conn.turn.identity = true

theorem Announced.outside (hi : Announced s) (hc : s.conn.Steady t.conn)
    (he : ∀ event ∈ t.conn.actor.events, event.epoch ∈ s.conn.actor.committed)
    (hh : t.handle = s.handle) (hf : t.forward = s.forward) (hp : t.pacer = s.pacer) :
    Announced t := by
  refine ⟨?_, ⟨?_, ?_, ?_⟩, ?_, ?_⟩
  · rw [hh]
    exact hi.commits.tame hc.tame (hi.commits.place.tame hc.tame)
  · rw [hc.committed]
    exact he
  · rw [hp, hc.committed]
    exact hi.issued.pacer
  · rw [hf, hc.committed]
    exact hi.issued.place
  · rw [hc.sent, hc.committed]
    exact hi.told
  · rw [hc.sent, hc.identity, hc.active, hf]
    exact hi.lingers

theorem HandleMove.quiet (hh : Held c h) (hm : HandleMove c h c' h') {id : TurnIdentity}
    {m : Outbound} (ha : announces id m = true) (hs : m ∈ c'.sent) : m ∈ c.sent := by
  rcases hm.sent with hsent | ⟨m', answer, rfl, rfl, -⟩
  · exact hsent ▸ hs
  · rcases mem_put hs with hs | rfl
    · exact hs
    · have hc := (announces_iff.mp ha).1
      rw [hh.holds.1] at hc
      cases hc

theorem Announced.reader (hi : Announced s) (hk : Known s)
    (hm : HandleMove s.conn s.handle t.conn t.handle) (hf : t.forward = s.forward)
    (hp : t.pacer = s.pacer) : Announced t := by
  obtain ⟨-, hevents, hcommitted⟩ := hm.events
  refine ⟨hi.commits.reader hk.held hm, ⟨fun event he => ?_, fun h0 => ?_, ?_⟩, fun id m hs ha => ?_,
    fun m hs ha hon => ?_⟩
  · exact hcommitted _ (hi.issued.events event (hevents ▸ he))
  · rw [hp] at h0 ⊢
    exact hcommitted _ (hi.issued.pacer h0)
  · rw [hf]
    exact hi.issued.place.mono hcommitted
  · exact hcommitted _ (hi.told id m (hm.quiet hk.held ha hs) ha)
  · have hold := hm.quiet hk.held ha hs
    -- a turn the reader stores is not committed, so it has not been answered
    have hy : s.conn.Yields [⟨t.conn.turn.epoch, { type := .done }⟩] t.conn := by
      refine hm.yields hi.commits hk.held fun event he => ?_
      rw [List.mem_singleton.mp he]
      exact hi.told _ m hold ha
    rcases hy.turn hon with ⟨hwas, hid⟩ | hnone
    · rw [hf, hid]
      exact hi.lingers m hold (hid ▸ ha) hwas
    · exact absurd rfl (hnone _ List.mem_cons_self)

theorem Job.Bears.announces {m : Outbound} {job : Job} {id : TurnIdentity} (hb : job.Bears m)
    (ha : announces id m = true) : ∃ turn, job = .done turn ∧ turn.identity = id := by
  obtain ⟨hc, ht, hid⟩ := announces_iff.mp ha
  cases job with
  | control | frame =>
    rw [hb.2] at ht
    cases ht
  | done turn => exact ⟨turn, rfl, hb.2.2.symm.trans hid⟩
  | error =>
    rw [hb.1] at hc
    cases hc

theorem ForwardMove.lingers (hb : f.Holds) (hm : ForwardMove c f c' f')
    (hl : ∀ m ∈ c.sent, announces c.turn.identity m = true → c.turn.active = true →
      f.finishes c.turn.identity = true) :
    ∀ m ∈ c'.sent, announces c'.turn.identity m = true → c'.turn.active = true →
      f'.finishes c'.turn.identity = true := by
  have never {id : TurnIdentity} (hf : f.finishes id = false) {P : Prop} (h : f.finishes id = true) :
      P := by
    rw [hf] at h
    cases h
  intro m hs ha hon
  cases hm with
  | calm hf _ hc | speak hf hc =>
    rw [hc.sent] at hs
    rw [hc.identity] at ha
    rw [hc.active] at hon
    exact never (forward_owes_of_calm _ hf).2 (hl m hs ha hon)
  | offer => exact hl m hs ha hon
  | fail => exact hl m hs ha hon
  | @put m' job _ hland =>
    rcases mem_put hs with hs | rfl
    · exact never rfl (hl m hs ha hon)
    · obtain ⟨turn, rfl, hid⟩ := Job.Bears.announces hb ha
      cases hland
      exact decide_eq_true hid
  | errorRetire => cases hon
  | errorSend => exact never rfl (hl m hs ha hon)
  | doneRetire => cases hon
  | @doneLost turn hlost =>
    have hid : turn.identity = c.turn.identity := of_decide_eq_true (hl m hs ha hon)
    rw [sameActiveTurn_iff.mpr ⟨hon, hid.symm⟩] at hlost
    cases hlost
  | doneStop => exact never rfl (hl m hs ha hon)

theorem Announced.forwarder {l : ForwardLabel} (hi : Announced s) (hk : Known s)
    (hr : forwardStep s.conn s.pacer s.forward l = some (t.conn, t.pacer, t.forward))
    (hm : ForwardMove s.conn s.forward t.conn t.forward) (hh : t.handle = s.handle) :
    Announced t := by
  have ht := hm.tame
  refine ⟨?_, forwardStep_issued hi.issued hr, fun id m hs ha => ?_, hm.lingers hk.bears hi.lingers⟩
  · rw [hh]
    exact hi.commits.tame ht (hi.commits.place.tame ht)
  · rw [ht.committed]
    rcases hm.sent with hsent | ⟨m', job, hf, hput⟩
    · exact hi.told id m (hsent ▸ hs) ha
    · rcases mem_put (hput ▸ hs) with hs | rfl
      · exact hi.told id m hs ha
      · have hb := hk.bears
        have hplace := hi.issued.place
        rw [hf] at hb hplace
        obtain ⟨turn, rfl, rfl⟩ := Job.Bears.announces hb ha
        exact hplace

theorem Announced.step {l : Label} (hi : Announced s) (hk : Known s) (hl : issues s l = true)
    (hs : step s l = some t) : Announced t := by
  have keep {c : Conn} (hc : c.actor.events = s.conn.actor.events) :
      ∀ event ∈ c.actor.events, event.epoch ∈ s.conn.actor.committed := hc ▸ hi.issued.events
  cases l with
  | emit event =>
    have hl : event.epoch ∈ s.conn.actor.committed := of_decide_eq_true hl
    rw [Device.step] at hs
    split at hs <;> cases hs
    refine hi.outside ⟨rfl, rfl, rfl, rfl, rfl, rfl, rfl, rfl⟩ (fun ev hev => ?_) rfl rfl rfl
    rcases List.mem_append.mp hev with hev | hev
    · exact hi.issued.events ev hev
    · rw [List.mem_singleton.mp hev]
      exact hl
  | handle l =>
    rw [Device.step, Option.map_eq_some_iff] at hs
    obtain ⟨r, hr, rfl⟩ := hs
    have hi' : Announced { s with conn := r.1, handle := r.2 } :=
      hi.reader hk (handle_move hr) rfl rfl
    exact hi'.outside (.stopWorker ..) hi'.issued.events rfl rfl rfl
  | forward l =>
    rw [Device.step, Option.map_eq_some_iff] at hs
    obtain ⟨r, hr, rfl⟩ := hs
    have hi' : Announced { s with conn := r.1, pacer := r.2.1, forward := r.2.2 } :=
      hi.forwarder hk hr (forward_move hk.speaks hr) rfl
    exact hi'.outside (.stopWorker ..) hi'.issued.events rfl rfl rfl
  | peer | writePump =>
    rw [Device.step] at hs
    split at hs <;> cases hs
    exact hi.outside ⟨rfl, rfl, rfl, rfl, rfl, rfl, rfl, rfl⟩ (keep rfl) rfl rfl rfl
  | readPump =>
    rw [Device.step] at hs
    split at hs
    · cases hs
    · rw [Option.map_eq_some_iff] at hs
      obtain ⟨r, -, rfl⟩ := hs
      exact hi.outside ⟨rfl, rfl, rfl, rfl, rfl, rfl, rfl, rfl⟩ (keep rfl) rfl rfl rfl
  | tick | closeEvents | disconnect | idle =>
    cases hs
    exact hi.outside ⟨rfl, rfl, rfl, rfl, rfl, rfl, rfl, rfl⟩ (keep rfl) rfl rfl rfl

theorem announced_of_issues (h : machine.ReachableUnder (fun s l => issues s l = true) s) :
    Announced s := by
  refine h.invariant_with (I := Announced) (fun _ => known) ?_
    fun s l t hk _ hi hc hs => hi.step hk hc hs
  rintro s ⟨deviceID, deviceUUID, sessionID, -, -, -, -, rfl⟩
  refine ⟨⟨nofun, nofun, nofun, nofun, trivial⟩, ⟨nofun, nofun, trivial⟩, fun id m hs ha => ?_,
    fun m _ _ => nofun⟩
  rw [List.mem_singleton.mp hs] at ha
  cases (announces_iff.mp ha).1

-- ---------------------------------------------------------------------------
-- The next turn
-- ---------------------------------------------------------------------------

def Begun (start : ControlEnvelope) (turn : ActiveTurn) : Prop :=
  turn.sessionID = start.sessionID ∧ turn.turnID = start.turnID ∧
    turn.uplinkStream = start.streamID ∧ turn.epoch = start.epoch

/-- The turn is the new one, and nobody but the reader can end it. -/
def Owns (start : ControlEnvelope) (c : Conn) : Prop :=
  Begun start c.turn ∧ c.turn.epoch ∉ c.actor.committed

/-- Where the reader is once it has begun the turn. -/
def HandleAt.Follows (start : ControlEnvelope) (c : Conn) : HandleAt → Prop
  | .drawing turn e | .starting turn e _ => e = start ∧ turn.sessionID = start.sessionID
  | .started turn | .startStore turn => Begun start turn
  | .receive | .selecting | .retiring _ | .retireStop _ | .retireCancel _ | .sending _ _ .report
  | .exited _ => Owns start c
  | .pcm header _ => Owns start c ∧ c.turn.carries header = true
  | .handlingPCM header _ | .appending header _ _ | .failedPCM header _ =>
    Owns start c ∧ c.turn.carries header = true ∧ c.turn.active = true
  | _ => False

theorem HandleAt.Follows.accepts (hf : h.Follows start c) : h.refuses = false := by
  cases h with
  | failed | rejecting | protocolError => exact hf.elim
  | sending _ _ answer =>
    cases answer with
    | report => rfl
    | _ => exact hf.elim
  | _ => rfl

theorem HandleAt.Follows.outside (hf : h.Follows start c) (ht : c.Tame c') (hs : c.Spares c') :
    h.Follows start c' := by
  have he : c'.turn.epoch = c.turn.epoch := identity_epoch ht.identity
  have hid : c'.turn.turnID = c.turn.turnID := congrArg TurnIdentity.turnID ht.identity
  have hsid := identity_sessionID ht.identity
  have owns (ho : Owns start c) : Owns start c' := by
    obtain ⟨⟨h1, h2, h3, h4⟩, hn⟩ := ho
    exact ⟨⟨hsid.trans h1, hid.trans h2, hs.uplinkStream.trans h3, he.trans h4⟩,
      by rw [he, ht.committed]; exact hn⟩
  have carries (header : PCMHeader) (hc : c.turn.carries header = true) :
      c'.turn.carries header = true := by
    rw [ActiveTurn.carries, hs.deviceUUID, hsid, hid, hs.uplinkStream, he]
    exact hc
  cases h with
  | drawing | starting | started | startStore => exact hf
  | receive | selecting | retiring | retireStop | retireCancel | exited => exact owns hf
  | pcm header => exact ⟨owns hf.1, carries header hf.2⟩
  | handlingPCM header | appending header | failedPCM header =>
    exact ⟨owns hf.1, carries header hf.2.1, (hs.active hf.1.2).trans hf.2.2⟩
  | sending _ _ answer =>
    cases answer with
    | report => exact owns hf
    | _ => exact hf.elim
  | _ => exact hf.elim

theorem acceptPCM_keeps {header : PCMHeader} {payload completePCM : List UInt8}
    (h : acceptPCM c.turn header payload = .ok (turn, completePCM)) :
    ∃ expectedInput pendingPCM inputStarted inputEnded, turn = { c.turn with
      expectedInput, pendingPCM, inputStarted, inputEnded } := by
  unfold acceptPCM at h
  split at h
  · cases h
  split at h
  · cases h
  split at h
  · cases h
  · rename_i hv
    cases h
    unfold validateAndAdvanceUplinkFraming at hv
    repeat' split at hv
    all_goals cases hv
    exact ⟨_, _, _, _, rfl⟩

theorem take_follows {r : Handled} (hf : Owns start c)
    (hm : c.inbox.receiveQueue.head?.all (frameOf c.turn start) = true) (hr : take c = some r) :
    r.2.Follows start r.1 := by
  obtain ⟨c', h'⟩ := r
  obtain ⟨m, queue, inbox, hq, rfl, rfl | rfl⟩ := take_cases hr
  · exact hf
  rw [hq, List.head?_cons, Option.all_some] at hm
  cases m with
  | control => cases hm
  | pcm header payload =>
    refine ⟨hf, ?_⟩
    obtain ⟨⟨h1, h2, h3, h4⟩, -⟩ := hf
    simp only [frameOf, decide_eq_true_eq] at hm
    simp [ActiveTurn.carries, hm, h1, h2, h3, h4]

theorem HandleAt.Follows.reader {l : HandleLabel} {r : Handled}
    (hf : s.handle.Follows start s.conn) (hp : s.handle.Uncommitted s.conn)
    (hl : framesOnly start s (.handle l) = true) (hr : handleStep s.conn s.handle l = some r) :
    r.2.Follows start r.1 := by
  obtain ⟨c, h, f, p⟩ := s
  dsimp only at *
  cases h with
  | receive =>
    cases l <;> simp only [handleStep, reduceCtorEq] at hr
    have hq : c.inbox.congestion = [] := by simpa [framesOnly] using hl
    split at hr
    · cases hr
      exact hf
    · rw [takeCongestion, hq] at hr
      cases hr
      exact hf
  | selecting =>
    cases l <;> simp only [handleStep, reduceCtorEq] at hr
    · cases hl
    · exact take_follows hf hl hr
    · split at hr <;> cases hr
      exact hf
  | drawing turn e =>
    cases l <;> simp only [handleStep, reduceCtorEq] at hr
    split at hr <;> cases hr
    exact hf
  | starting turn e downlinkStream =>
    cases l with
    | returns result =>
      cases result with
      | some err => cases hl
      | none =>
        simp only [handleStep] at hr
        split at hr <;> cases hr
        obtain ⟨rfl, hs⟩ := hf
        exact ⟨hs, rfl, rfl, rfl⟩
    | _ => simp only [handleStep, reduceCtorEq] at hr
  | started turn =>
    cases l <;> simp only [handleStep, reduceCtorEq] at hr
    cases hr
    exact hf
  | startStore turn =>
    cases l <;> simp only [handleStep, reduceCtorEq] at hr
    cases hr
    exact ⟨hf, hp.2.1⟩
  | pcm header payload =>
    cases l <;> simp only [handleStep, reduceCtorEq] at hr
    cases hr
    dsimp only
    split
    · exact hf.1
    · rename_i hn
      refine ⟨hf.1, hf.2, ?_⟩
      simpa [pcmBelongsToRetiredTurn, hf.2] using hn
  | handlingPCM header payload =>
    cases l <;> simp only [handleStep, reduceCtorEq] at hr
    cases hr
    split
    · exact hf
    · rename_i hv
      obtain ⟨expectedInput, pendingPCM, inputStarted, inputEnded, rfl⟩ := acceptPCM_keeps hv
      exact hf
  | appending header epoch completePCM =>
    cases l with
    | returns result =>
      simp only [handleStep] at hr
      split at hr <;> cases hr
      cases result <;> exact hf
    | next =>
      cases completePCM <;> simp only [handleStep, reduceCtorEq] at hr
      cases hr
      exact hf.1
    | _ => simp only [handleStep, reduceCtorEq] at hr
  | failedPCM header err =>
    cases l <;> simp only [handleStep, reduceCtorEq] at hr
    cases hr
    have hb : pcmBelongsToActiveTurn c.turn header = true := decide_eq_true ⟨hf.2.2, hf.2.1⟩
    dsimp only
    rw [if_pos hb]
    exact hf.1
  | retiring cause =>
    cases l <;> simp only [handleStep, reduceCtorEq] at hr
    split at hr <;> cases hr <;> exact hf
  | retireStop turn =>
    cases l <;> simp only [handleStep, reduceCtorEq] at hr
    cases hr
    exact hf
  | retireCancel turn =>
    cases l <;> simp only [handleStep, reduceCtorEq] at hr
    cases hr
    split <;> exact hf
  | sending sent m answer =>
    cases answer with
    | report =>
      cases l <;> simp only [handleStep, reduceCtorEq, Option.map_eq_some_iff] at hr
      obtain ⟨result, -, rfl⟩ := hr
      cases result <;> exact hf
    | _ => exact hf.elim
  | exited => cases l <;> simp only [handleStep, reduceCtorEq] at hr
  | _ => exact hf.elim

/-- The reader has begun the turn, in a run of an actor that answers committed turns. -/
structure Following (start : ControlEnvelope) (s : Sys) : Prop where
  known : Known s
  announced : Announced s
  place : s.handle.Follows start s.conn

theorem Following.step {l : Label} (hi : Following start s) (hl : issues s l = true)
    (hframes : framesOnly start s l = true) (hs : step s l = some t) : Following start t := by
  refine ⟨hi.known.step hs, hi.announced.step hi.known hl hs, ?_⟩
  cases l with
  | handle l =>
    rw [Device.step, Option.map_eq_some_iff] at hs
    obtain ⟨r, hr, rfl⟩ := hs
    have hplace := hi.place.reader hi.announced.commits.place hframes hr
    exact hplace.outside (Conn.Steady.stopWorker ..).tame ⟨rfl, rfl, fun _ => rfl⟩
  | forward l =>
    rw [Device.step, Option.map_eq_some_iff] at hs
    obtain ⟨r, hr, rfl⟩ := hs
    have hplace := hi.place.outside (forward_move hi.known.speaks hr).tame
      (forwardStep_spares hi.announced.issued.place hr)
    exact hplace.outside (Conn.Steady.stopWorker ..).tame ⟨rfl, rfl, fun _ => rfl⟩
  | peer | writePump | emit =>
    rw [Device.step] at hs
    split at hs <;> cases hs
    exact hi.place.outside ⟨rfl, id, rfl, rfl, rfl, rfl⟩ ⟨rfl, rfl, fun _ => rfl⟩
  | readPump =>
    rw [Device.step] at hs
    split at hs
    · cases hs
    · rw [Option.map_eq_some_iff] at hs
      obtain ⟨r, -, rfl⟩ := hs
      exact hi.place.outside ⟨rfl, id, rfl, rfl, rfl, rfl⟩ ⟨rfl, rfl, fun _ => rfl⟩
  | tick | closeEvents | disconnect | idle =>
    cases hs
    exact hi.place.outside ⟨rfl, id, rfl, rfl, rfl, rfl⟩ ⟨rfl, rfl, fun _ => rfl⟩

/-- What `handleControl` makes of a valid turn.start. -/
theorem handleControl_opens (ho : opens turn start = true) :
    handleControl turn start = if turn.active then
      .failed start (.wrap "a turn is already active" errInvalidTurnStart)
    else .drawing turn start := by
  simp only [opens, Bool.decide_and, Bool.decide_eq_true, Bool.and_eq_true, decide_eq_true_eq] at ho
  obtain ⟨ht, hb, hi, hr, -⟩ := ho
  simp only [identified, Bool.decide_and, Bool.and_eq_true, decide_eq_true_eq] at hi
  rw [handleControl, if_neg (by simp [hb])]
  simp only [ht, validateTurnStart, hi, hr]
  cases turn.active <;> rfl

/-- The turn.start that follows response.done is accepted, and nothing of its turn is a
protocol violation, exactly when the reader does not judge it between the send of
response.done and the second lock of `finishPacedResponse`. -/
theorem next_turn_iff (hs : machine.ReachableUnder (fun s l => issues s l = true) s)
    (hh : s.handle = .handling start) (ho : opens s.conn.turn start = true)
    (ha : announced s.conn = true) (ht : step s (.handle .next) = some t) :
    (∀ u, (machine.begunIn t).ReachableUnder
        (fun v l => issues v l = true ∧ framesOnly start v l = true) u → u.handle.refuses = false) ↔
      lingering s = false := by
  have hann := announced_of_issues hs
  have hstep := ht
  rw [step, hh, handleStep, Option.map_some, Option.some.injEq, handleControl_opens ho] at ht
  have hlinger : lingering s = s.conn.turn.active := by
    obtain ⟨m, hm, hannounces⟩ := List.any_eq_true.mp ha
    cases hactive : s.conn.turn.active with
    | false => simp [lingering, hactive]
    | true => simp [lingering, hactive, hann.lingers m hm hannounces hactive]
  rw [hlinger]
  constructor
  · intro hall
    have hthis := hall t (.init rfl)
    rw [← ht] at hthis
    cases hactive : s.conn.turn.active with
    | false => rfl
    | true =>
      rw [hactive] at hthis
      cases hthis
  · intro hoff u hu
    have hfirst : Following start t := by
      refine ⟨(known hs).step hstep, hann.step (known hs) rfl hstep, ?_⟩
      rw [← ht, hoff]
      simp only [opens, controlBelongsToDeviceSession, Bool.decide_and, Bool.decide_eq_true,
        Bool.and_eq_true, decide_eq_true_eq] at ho
      exact ⟨rfl, ho.2.1.2.symm⟩
    have hfollow : Following start u := by
      refine hu.invariant (I := Following start) ?_ fun v l w hv hc hw => hv.step hc.1 hc.2 hw
      rintro _ rfl
      exact hfirst
    exact hfollow.place.accepts

-- ---------------------------------------------------------------------------
-- Runs
-- ---------------------------------------------------------------------------

/-- Turn 1 is answered; its response.done is queued and written to the peer. -/
def answers : List Label :=
  List.flatten [speaks 1, takes (responseStarted 1), offers, [.forward (.send .put)],
    takes (responseDone 1), [.forward .next], offers, [.forward (.send .put)],
    List.replicate 3 .writePump]

def judges (s : Sys) : Bool :=
  s.handle = .handling (startEnvelope 2) ∧ opens s.conn.turn (startEnvelope 2) ∧
    announced s.conn

/-- The peer sends turn 2, up to the lock of `handleControl`. -/
def nextTurn : List Label :=
  [.peer (startMessage 2), .readPump, .handle .next, .handle .message, .handle .next]

/-- Turn 2 begins after turn 1 is retired: the rule has a run to speak about. -/
theorem next_turn_after_retirement : ∃ s t u,
    machine.ReachableUnder (fun s l => issues s l = true) s ∧ judges s = true ∧
      lingering s = false ∧ step s (.handle .next) = some t ∧
      (machine.begunIn t).ReachableUnder
        (fun v l => issues v l = true ∧ framesOnly (startEnvelope 2) v l = true) u ∧
      u.handle = .receive ∧ u.conn.turn.expectedInput = 1 ∧ u.handle.refuses = false := by
  obtain ⟨s, hs, hp⟩ := machine.exists_of_runIf issues (fun _ _ h => h) session
    (List.flatten [answers, [.forward .next, .forward .next], nextTurn])
    (fun s => judges s && !lingering s &&
      (step s (.handle .next)).any fun t =>
        ((machine.runIf (fun v l => issues v l && framesOnly (startEnvelope 2) v l) t
          (List.flatten [[.handle (.random 9), .handle (.returns none), .handle .next, .handle .next],
            receives (pcmMessage 2 3 0), [.handle (.returns none), .handle .next]])).any fun u =>
          u.handle = .receive ∧ u.conn.turn.expectedInput = 1))
    session_init (by decide +kernel)
  simp only [Bool.and_eq_true, Bool.not_eq_true', Option.any_eq_true] at hp
  obtain ⟨⟨hj, hl⟩, t, ht, u, hu, hp⟩ := hp
  simp only [decide_eq_true_eq] at hp
  have hreach : (machine.begunIn t).ReachableUnder
      (fun v l => issues v l = true ∧ framesOnly (startEnvelope 2) v l = true) u :=
    Lts.Machine.ReachableUnder.runIf (.init rfl) (fun _ _ h => (Bool.and_eq_true _ _).mp h)
      (Lts.Machine.runIf_begunIn.trans hu)
  have hjudges : s.handle = .handling (startEnvelope 2) ∧
      opens s.conn.turn (startEnvelope 2) = true ∧ announced s.conn = true := by
    simpa [judges] using hj
  exact ⟨s, t, u, hs, hj, hl, ht, hreach, hp.1, hp.2,
    (next_turn_iff hs hjudges.1 hjudges.2.1 hjudges.2.2 ht).mpr hl u hreach⟩

/-- Turn 2 meets turn 1 before it is retired: it is rejected, and its first frame ends the
session. -/
theorem next_turn_meets_the_old : ∃ s t u,
    machine.ReachableUnder (fun s l => issues s l = true) s ∧ judges s = true ∧
      s.conn.written = s.conn.sent.length ∧ step s (.handle .next) = some t ∧
      t.handle = .failed (startEnvelope 2) (.wrap "a turn is already active" errInvalidTurnStart) ∧
      (machine.begunIn t).ReachableUnder
        (fun v l => issues v l = true ∧ framesOnly (startEnvelope 2) v l = true) u ∧
      u.handle = .protocolError (.text "PCM epoch does not match the active stream") := by
  obtain ⟨s, hs, hp⟩ := machine.exists_of_runIf issues (fun _ _ h => h) session
    (answers ++ nextTurn)
    (fun s => judges s && s.conn.written = s.conn.sent.length &&
      (step s (.handle .next)).any fun t =>
        t.handle = .failed (startEnvelope 2) (.wrap "a turn is already active" errInvalidTurnStart) &&
        ((machine.runIf (fun v l => issues v l && framesOnly (startEnvelope 2) v l) t
          (List.flatten [[.handle .next, .handle .next], queues, receives (pcmMessage 2 3 0),
            [.handle .next]])).any fun u =>
          u.handle = .protocolError (.text "PCM epoch does not match the active stream")))
    session_init (by decide +kernel)
  simp only [Bool.and_eq_true, decide_eq_true_eq, Option.any_eq_true] at hp
  obtain ⟨⟨hj, hw⟩, t, ht, hrej, u, hu, hv⟩ := hp
  refine ⟨s, t, u, hs, hj, hw, ht, hrej, ?_, hv⟩
  exact Lts.Machine.ReachableUnder.runIf (.init rfl) (fun _ _ h => (Bool.and_eq_true _ _).mp h)
    (Lts.Machine.runIf_begunIn.trans hu)

end BoomPI.Device
