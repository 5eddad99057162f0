import BoomPI.Client.Barge

/-!
# The loop of the actor

`Run` and `DrainEvents`: the order in which the actor takes connections, frames,
queued events, touch actions, the overflow flag and deadlines, while the ASIO
thread queues events at any place. Every method either leaves the queue alone or
loses the connection, and with it the queue.
-/

namespace BoomPI.Client.VoiceClient

variable {cfg : ClientConfig} {a : Answers} {c c' c'' : VoiceClient} {frame : CaptureFrame}

-- ---------------------------------------------------------------------------
-- What a method does to the queue
-- ---------------------------------------------------------------------------

/-- `LoseConnection` was called. -/
structure Emptied (c : VoiceClient) : Prop where
  link : c.link = none
  events : c.events = []
  overflow : c.overflow = false

structure SameQueue (c c' : VoiceClient) : Prop where
  link : c'.link.isSome = c.link.isSome
  events : c'.events = c.events
  overflow : c'.overflow = c.overflow

inductive Leaves (c c' : VoiceClient) : Prop
  | emptied : Emptied c' → Leaves c c'
  | same : SameQueue c c' → Leaves c c'

theorem SameQueue.refl (c : VoiceClient) : SameQueue c c := ⟨rfl, rfl, rfl⟩

theorem SameQueue.of_eq (hl : c'.link = c.link) (he : c'.events = c.events)
    (ho : c'.overflow = c.overflow) : SameQueue c c' :=
  ⟨congrArg _ hl, he, ho⟩

theorem SameQueue.trans (h : SameQueue c c') (h' : SameQueue c' c'') : SameQueue c c'' :=
  ⟨h'.link.trans h.link, h'.events.trans h.events, h'.overflow.trans h.overflow⟩

theorem Emptied.same (h : Emptied c) (h' : SameQueue c c') : Emptied c' where
  link := by
    have hl := h'.link
    rw [h.link] at hl
    exact Option.isNone_iff_eq_none.mp (Option.isSome_eq_false_iff.mp hl)
  events := h'.events.trans h.events
  overflow := h'.overflow.trans h.overflow

theorem Leaves.refl (c : VoiceClient) : Leaves c c := .same (.refl c)

theorem Leaves.trans (h : Leaves c c') (h' : Leaves c' c'') : Leaves c c'' := by
  cases h' with
  | emptied h' => exact .emptied h'
  | same h' =>
    cases h with
    | emptied h => exact .emptied (h.same h')
    | same h => exact .same (h.trans h')

theorem Leaves.of_eq (hl : c'.link = c.link) (he : c'.events = c.events)
    (ho : c'.overflow = c.overflow) : Leaves c c' := .same (.of_eq hl he ho)

theorem resetListener_leaves : Leaves c (c.resetListener a) := by
  unfold resetListener
  split <;> exact .of_eq rfl rfl rfl

theorem loseConnection_emptied : Emptied (c.loseConnection a) := by
  unfold loseConnection resetListener
  dsimp only
  split <;> exact ⟨rfl, rfl, rfl⟩

theorem loseConnection_leaves : Leaves c (c'.loseConnection a) :=
  .emptied loseConnection_emptied

theorem markFirstResponseProgress_leaves : Leaves c c.markFirstResponseProgress := by
  unfold markFirstResponseProgress
  dsimp only
  split <;> exact .of_eq rfl rfl rfl

theorem sendControl_leaves (kind : ControlKind) (ids : WireIds) :
    Leaves c (c.sendControl cfg kind ids).2 := by
  unfold sendControl
  dsimp only
  split
  · exact .of_eq rfl rfl rfl
  · rename_i link hlink
    dsimp only [checkQueueCapacity]
    split
    · exact .same ⟨by simp [emit, hlink], rfl, rfl⟩
    · exact .of_eq rfl rfl rfl

theorem sendAudio_leaves (last : Bool) : Leaves c (c.sendAudio frame last).2 := by
  unfold sendAudio
  dsimp only
  split
  · exact .refl c
  · rename_i link hlink
    dsimp only [checkQueueCapacity]
    split
    · exact .same ⟨by simp [emit, hlink], rfl, rfl⟩
    · exact .of_eq rfl rfl rfl

theorem finishConnect_leaves : Leaves c (c.finishConnect cfg a) := by
  have hs : Leaves c (c.sendControl cfg .hello {}).2 := sendControl_leaves ..
  unfold finishConnect
  split
  · exact .refl c
  · generalize c.sendControl cfg .hello {} = r at hs
    obtain ⟨ok, sent⟩ := r
    cases ok
    · exact loseConnection_leaves
    · exact hs.trans (.of_eq rfl rfl rfl)

theorem requestCancel_leaves (kind : ControlKind) (ids : WireIds) :
    Leaves c (c.requestCancel cfg a kind ids) := by
  have hs : Leaves c (c.sendControl cfg kind ids).2 := sendControl_leaves ..
  unfold requestCancel
  generalize c.sendControl cfg kind ids = r at hs
  obtain ⟨ok, sent⟩ := r
  cases ok
  · exact loseConnection_leaves
  · exact hs.trans (.of_eq rfl rfl rfl)

theorem Leaves.cancel (kind : ControlKind) (ids : WireIds) (h : Leaves c c') :
    Leaves c (c'.requestCancel cfg a kind ids) :=
  h.trans (requestCancel_leaves kind ids)

theorem giveUp_leaves : Leaves c c.giveUp := by
  apply Leaves.same
  constructor <;> simp [giveUp, emit, resetBargeTurn, resetBargeProbe, setPlaybackScale]

theorem abortCurrent_leaves : Leaves c (c.abortCurrent cfg a) := by
  rw [abortCurrent_eq]
  split
  · exact giveUp_leaves.cancel ..
  · exact giveUp_leaves.cancel ..

theorem finishTurn_leaves (normal : Bool) : Leaves c (c.finishTurn a normal) := by
  apply Leaves.same
  cases normal
  all_goals constructor <;> simp only [finishTurn, resetListener] <;> split <;>
    simp [emit, clearSubtitle, advanceTurn, resetBargeTurn, resetBargeProbe, setPlaybackScale]

theorem Leaves.finish (normal : Bool) (h : Leaves c c') : Leaves c (c'.finishTurn a normal) :=
  h.trans (finishTurn_leaves normal)

theorem sendAudioOrRecover_leaves (last : Bool) :
    Leaves c (c.sendAudioOrRecover cfg a frame last).2 := by
  have hs : Leaves c (c.sendAudio frame last).2 := sendAudio_leaves last
  unfold sendAudioOrRecover
  generalize c.sendAudio frame last = r at hs
  obtain ⟨outcome, sent⟩ := r
  cases outcome with
  | ok => exact hs
  | backpressure => exact hs.trans abortCurrent_leaves
  | rejected => exact loseConnection_leaves

theorem sendPreRoll_leaves (ended : Bool) (pre : List CaptureFrame) :
    Leaves c (c.sendPreRoll cfg a ended pre).2 := by
  induction pre generalizing c with
  | nil => exact .refl c
  | cons frame rest ih =>
    have hs : Leaves c (c.sendAudioOrRecover cfg a frame (ended && rest.isEmpty)).2 :=
      sendAudioOrRecover_leaves _
    unfold sendPreRoll
    generalize c.sendAudioOrRecover cfg a frame (ended && rest.isEmpty) = r at hs
    obtain ⟨ok, sent⟩ := r
    cases ok
    · exact hs
    · exact hs.trans ih

theorem requestResponse_leaves : Leaves c (c.requestResponse cfg a) := by
  have hs : Leaves c (c.sendControl cfg .turnCommit c.turnIds).2 := sendControl_leaves ..
  unfold requestResponse
  generalize c.sendControl cfg .turnCommit c.turnIds = r at hs
  obtain ⟨ok, sent⟩ := r
  cases ok
  · exact loseConnection_leaves
  · exact hs.trans (.of_eq rfl rfl rfl)

theorem commit_leaves : Leaves c (c.commit cfg a frame) := by
  have hs : Leaves c (c.sendAudioOrRecover cfg a frame true).2 := sendAudioOrRecover_leaves _
  rw [commit_eq]
  generalize c.sendAudioOrRecover cfg a frame true = r at hs
  obtain ⟨ok, sent⟩ := r
  cases ok
  · exact hs
  · exact hs.trans requestResponse_leaves

theorem sendBuffered_leaves (ended : Bool) : Leaves c (c.sendBuffered cfg a ended) := by
  have hs : Leaves c (c.sendPreRoll cfg a ended c.pre).2 := sendPreRoll_leaves ..
  unfold sendBuffered
  split
  · exact loseConnection_leaves
  generalize c.sendPreRoll cfg a ended c.pre = r at hs
  obtain ⟨ok, sent⟩ := r
  cases ok
  · exact hs
  · have hpre : Leaves c { sent with pre := [] } := hs.trans (.of_eq rfl rfl rfl)
    dsimp only
    split
    · exact hpre.trans requestResponse_leaves
    · exact hpre

theorem startTurn_leaves (ended : Bool) : Leaves c (c.startTurn cfg a ended) := by
  have hs : Leaves c (c.sendControl cfg .turnStart c.turnIds).2 := sendControl_leaves ..
  rw [startTurn_eq]
  split
  · exact loseConnection_leaves
  generalize c.sendControl cfg .turnStart c.turnIds = r at hs
  obtain ⟨ok, sent⟩ := r
  cases ok
  · exact loseConnection_leaves
  · have hb : Leaves c (sent.beginTurn a) := hs.trans (.of_eq rfl rfl rfl)
    exact hb.trans (sendBuffered_leaves ended)

theorem Leaves.start (ended : Bool) (h : Leaves c c') : Leaves c (c'.startTurn cfg a ended) :=
  h.trans (startTurn_leaves ended)

theorem resumeAfterBarge_leaves : Leaves c (c.resumeAfterBarge cfg a) := by
  unfold resumeAfterBarge
  split
  · exact finishTurn_leaves false
  · exact Leaves.start _ (.of_eq rfl rfl rfl)

theorem completeCancel_leaves : Leaves c (c.completeCancel cfg a) := by
  unfold completeCancel
  split
  · exact finishTurn_leaves false
  split
  · exact resumeAfterBarge_leaves
  · exact Leaves.finish _ (.of_eq rfl rfl rfl)

theorem beginListening_leaves : Leaves c (c.beginListening a) := by
  unfold beginListening
  refine Leaves.trans ?_ resetListener_leaves
  exact .of_eq rfl rfl rfl

theorem Leaves.listen (h : Leaves c c') : Leaves c (c'.beginListening a) :=
  h.trans beginListening_leaves

theorem Leaves.commit (h : Leaves c c') : Leaves c (c'.commit cfg a frame) :=
  h.trans commit_leaves

theorem Leaves.abort (h : Leaves c c') : Leaves c (c'.abortCurrent cfg a) :=
  h.trans abortCurrent_leaves

-- ---------------------------------------------------------------------------
-- The entries of the actor
-- ---------------------------------------------------------------------------

theorem handleError_leaves (ids : WireIds) (code : String) :
    Leaves c (c.handleError cfg a ids code) := by
  have hm : Leaves c c.markFirstResponseProgress := markFirstResponseProgress_leaves
  unfold handleError
  dsimp only
  split
  · exact loseConnection_leaves
  split
  · exact loseConnection_leaves
  split
  · split
    · exact hm.abort
    · exact hm
  split
  · exact hm.trans completeCancel_leaves
  · exact hm.finish false

theorem handleInbound_leaves (event : Inbound) : Leaves c (c.handleInbound cfg a event) := by
  have hm : Leaves c c.markFirstResponseProgress := markFirstResponseProgress_leaves
  unfold handleInbound
  cases event with
  | helloAck ids =>
    refine Leaves.trans (Leaves.trans ?_ resetListener_leaves) (.of_eq rfl rfl rfl)
    exact .of_eq rfl rfl rfl
  | responseStart ids =>
    dsimp only
    split <;> exact .of_eq rfl rfl rfl
  | textDelta ids text => exact hm.trans (.of_eq rfl rfl rfl)
  | audioStart ids =>
    dsimp only
    split
    · exact hm.trans (.of_eq rfl rfl rfl)
    · exact loseConnection_leaves
  | pcm header audio =>
    dsimp only
    split
    · exact hm.trans (.of_eq rfl rfl rfl)
    · exact hm.abort
  | done ids =>
    dsimp only
    split
    · exact loseConnection_leaves
    · refine hm.trans ?_
      split <;> exact .of_eq rfl rfl rfl
  | cancelled ids =>
    dsimp only
    split
    · exact hm.trans completeCancel_leaves
    · exact hm.finish false
  | error ids code text => exact handleError_leaves ids code

theorem handleEvent_leaves (event : QueuedEvent) : Leaves c (c.handleEvent cfg a event) := by
  have hwait : Leaves c { c with stateDeadline := a.now + kResponseWait } := .of_eq rfl rfl rfl
  unfold handleEvent
  split
  · exact .of_eq rfl rfl rfl
  · exact handleError_leaves ..
  · split
    · exact .refl c
    · exact hwait.trans (handleInbound_leaves _)

theorem pollAction_leaves (action : DeviceUiAction) : Leaves c (c.pollAction cfg a action) := by
  unfold pollAction
  cases action with
  | wake =>
    dsimp only
    split
    · exact .of_eq rfl rfl rfl
    · exact .refl c
  | interrupt =>
    dsimp only
    split
    · exact Leaves.abort (.of_eq rfl rfl rfl)
    · exact .refl c

theorem advanceDeadlines_leaves : Leaves c (c.advanceDeadlines cfg a).2 := by
  have hwake : Leaves c
      (({ c with state := .waitingForWake, pre := [] }.emit (.setState .idle)).resetListener a) := by
    refine Leaves.trans ?_ resetListener_leaves
    exact .of_eq rfl rfl rfl
  unfold advanceDeadlines
  split
  · split
    · exact .refl c
    · exact loseConnection_leaves
  split
  · exact loseConnection_leaves
  split
  · dsimp only
    split
    · exact .of_eq rfl rfl rfl
    · exact finishTurn_leaves true
  split
  · dsimp only
    split
    · exact hwake
    · exact hwake
    · exact loseConnection_leaves
    · exact abortCurrent_leaves
  split
  · exact .of_eq rfl rfl rfl
  · exact .refl c

theorem onGap_leaves : Leaves c (c.onGap cfg a) := by
  have hwake : Leaves c
      (({ { c with pre := [] }.emit .dropPlayback with state := .waitingForWake }.emit
        (.setState .idle)).resetListener a) := by
    refine Leaves.trans ?_ resetListener_leaves
    exact .of_eq rfl rfl rfl
  unfold onGap
  dsimp only
  split
  · exact .of_eq rfl rfl rfl
  · exact Leaves.abort (.of_eq rfl rfl rfl)
  · exact Leaves.abort (.of_eq rfl rfl rfl)
  · exact Leaves.abort (.of_eq rfl rfl rfl)
  · exact Leaves.abort (.of_eq rfl rfl rfl)
  · exact hwake
  · exact hwake
  · exact hwake

theorem bufferFrame_leaves (frame : CaptureFrame) : Leaves c (c.bufferFrame frame) := by
  unfold bufferFrame savePreRoll
  dsimp only
  repeat' split
  all_goals exact .of_eq rfl rfl rfl

theorem judgeBarge_leaves : Leaves c (c.judgeBarge cfg frame).2 := by
  unfold judgeBarge
  dsimp only
  repeat' split
  all_goals exact .of_eq rfl rfl rfl

theorem admitBarge_leaves : Leaves c c.admitBarge := by
  apply Leaves.same
  constructor <;> simp [admitBarge, emit, clearSubtitle, resetBargeProbe, setPlaybackScale]

theorem confirmBarge_leaves : Leaves c (c.confirmBarge cfg a) :=
  admitBarge_leaves.cancel ..

theorem handleBarge_leaves : Leaves c (c.handleBarge cfg a frame) := by
  have hj : Leaves c (c.judgeBarge cfg frame).2 := judgeBarge_leaves
  unfold handleBarge
  split
  · exact .of_eq rfl rfl rfl
  generalize c.judgeBarge cfg frame = r at hj
  obtain ⟨verdict, judged⟩ := r
  cases verdict with
  | goesOn => exact hj
  | rejected => exact hj.trans (.of_eq rfl rfl rfl)
  | confirmed => exact hj.trans confirmBarge_leaves

theorem trackBargeUtterance_leaves : Leaves c (c.trackBargeUtterance frame) := by
  unfold trackBargeUtterance
  dsimp only
  repeat' split
  all_goals exact .of_eq rfl rfl rfl

theorem dispatchFrame_leaves : Leaves c (c.dispatchFrame cfg a frame) := by
  unfold dispatchFrame
  split
  · split
    · exact Leaves.listen (.of_eq rfl rfl rfl)
    · split
      · exact beginListening_leaves
      · exact .refl c
  · split
    · exact startTurn_leaves _
    · exact .refl c
  · split
    · exact .of_eq rfl rfl rfl
    · dsimp only
      split
      · exact Leaves.start _ (.of_eq rfl rfl rfl)
      · exact .of_eq rfl rfl rfl
  · split
    · exact commit_leaves
    · split
      · exact Leaves.commit (.of_eq rfl rfl rfl)
      · exact sendAudioOrRecover_leaves _
  · exact handleBarge_leaves
  · exact handleBarge_leaves
  · exact trackBargeUtterance_leaves
  · exact .refl c

theorem onFrame_leaves : Leaves c (c.onFrame cfg a frame) := by
  have hnext : Leaves c { c with nextCaptureSequence := frame.sequence + 1 } := .of_eq rfl rfl rfl
  have hbuf := hnext.trans (bufferFrame_leaves frame)
  unfold onFrame
  dsimp only
  split
  · exact hnext.trans onGap_leaves
  split
  · split
    · exact hbuf.trans resetListener_leaves
    · exact hbuf
  · exact hbuf.trans dispatchFrame_leaves

-- ---------------------------------------------------------------------------
-- The loop
-- ---------------------------------------------------------------------------

def kEventsPerCaptureFrame : Nat := 8

/-- What `Capture` returns. -/
inductive Capture
  | timeout
  | failed
  | frame (frame : CaptureFrame)
  deriving DecidableEq, Repr

/-- Where `Run` stands. -/
inductive Place
  | top
  | capturing
  | finishing (capture : Capture)
  | draining (capture : Capture) (handled : Nat)
  | handling (capture : Capture) (handled : Nat) (event : QueuedEvent)  -- out of the queue
  | polling (capture : Capture)
  | checking (capture : Capture)
  | deadlines (capture : Capture)
  | framing (frame : CaptureFrame)
  | stopped
  deriving DecidableEq, Repr

structure Loop where
  client : VoiceClient := {}
  place : Place := .top
  deriving DecidableEq, Repr

def Label.asio : Label → Bool
  | .opened | .ping | .text _ | .binary _ | .failed _ => true
  | _ => false

inductive LoopLabel
  | asio (l : Label)
  | stop
  | idle                                    -- there is a transport, or it is not time
  | connect (a : Answers) (connects : Bool)
  | captured (capture : Capture)
  | drain
  | act (a : Answers)
  | poll (a : Answers) (action : Option DeviceUiAction)
  deriving DecidableEq, Repr

/-- `if (listener_failed_) return Fail(..)` -/
def Loop.unlessFailed (c : VoiceClient) (place : Place) : Loop :=
  { client := c, place := if c.listenerFailed then .stopped else place }

/-- `if (events_.overflowed()) LoseConnection(..)` -/
def checkOverflow (a : Answers) (c : VoiceClient) : VoiceClient :=
  if c.overflow then c.loseConnection a else c

/-- The rest of a round after `AdvanceDeadlines`. -/
def Loop.advanced (capture : Capture) (ok : Bool) (c : VoiceClient) : Loop :=
  match capture with
  | .timeout | .failed => .unlessFailed c .top
  | .frame frame =>
    if c.listenerFailed then { client := c, place := .stopped }
    else if ok then { client := c, place := .framing frame }
    else { client := { c with nextCaptureSequence := frame.sequence + 1 }, place := .top }

/-- `Run`, one action at a time; `DrainEvents` pops and handles in two. -/
def loopStep (cfg : ClientConfig) (s : Loop) : LoopLabel → Option Loop
  | .asio l => if l.asio then (step cfg s.client l).map fun client => { s with client } else none
  | .stop => if s.place = .top then some { s with place := .stopped } else none
  | .idle => if s.place = .top then some (.unlessFailed s.client .capturing) else none
  | .connect a connects =>
    if s.place = .top ∧ s.client.link.isNone ∧ s.client.nextConnect ≤ a.now then
      some (.unlessFailed (s.client.startConnect cfg a connects) .capturing)
    else none
  | .captured capture =>
    if s.place = .capturing then some { s with place := .finishing capture } else none
  | .drain =>
    match s.place with
    | .draining capture handled =>
      if handled < kEventsPerCaptureFrame ∧ s.client.link.isSome ∧ ¬ s.client.listenerFailed then
        match s.client.events with
        | event :: events =>
          some { client := { s.client with events }, place := .handling capture handled event }
        | [] => some { s with place := .polling capture }
      else some { s with place := .polling capture }
    | _ => none
  | .act a =>
    let c := s.client.answered a
    match s.place with
    | .finishing capture => some { client := c.finishConnect cfg a, place := .draining capture 0 }
    | .handling capture handled event =>
      some { client := c.handleEvent cfg a event, place := .draining capture (handled + 1) }
    | .checking capture =>
      if c.listenerFailed then some { client := c, place := .stopped }
      else if capture = .failed then some { client := c.checkOverflow a, place := .stopped }
      else some { client := c.checkOverflow a, place := .deadlines capture }
    | .deadlines capture =>
      let (ok, c) := c.advanceDeadlines cfg a
      some (.advanced capture ok c)
    | .framing frame => some (.unlessFailed (c.onFrame cfg a frame) .top)
    | _ => none
  | .poll a action =>
    match s.place with
    | .polling capture =>
      let c := s.client.answered a
      some { client := action.elim c (c.pollAction cfg a ·), place := .checking capture }
    | _ => none

def loop (cfg : ClientConfig) : Lts.Machine Loop LoopLabel where
  Init s := ∃ origin, s = { client := { audioOriginUs := origin } }
  step := loopStep cfg

-- ---------------------------------------------------------------------------
-- A period between two calls of `Clear`
-- ---------------------------------------------------------------------------

/-- The events offered to `Push`, with the places among them of those that were refused,
of those that wait, and of those that the actor took. -/
structure Period where
  offered : List QueuedEvent := []
  refused : List Nat := []
  waiting : List Nat := []
  handled : List (Nat × QueuedEvent) := []
  deriving DecidableEq, Repr

def outcomeEvent : Transport.Outcome → Option QueuedEvent
  | .dropped => none
  | .emit event => some (.inbound event)
  | .protocolError why => some (.inbound (.error {} "transport" why))

def offers (c : VoiceClient) : Label → Option QueuedEvent
  | .ping => some .heartbeat
  | .text e => c.link.bind fun link => outcomeEvent (link.transport.onText e).2
  | .binary bytes => c.link.bind fun link => outcomeEvent (link.transport.onBinary bytes).2
  | .failed why => some (.inbound (.error {} "transport" why))
  | _ => none

def Period.offer (p : Period) (c : VoiceClient) (event : QueuedEvent) : Period :=
  let place := p.offered.length
  if c.events.length = kEventSlots then
    { p with offered := p.offered ++ [event], refused := p.refused ++ [place] }
  else { p with offered := p.offered ++ [event], waiting := p.waiting ++ [place] }

def Period.take (p : Period) (event : QueuedEvent) : Period :=
  { p with waiting := p.waiting.tail, handled := p.handled ++ [(p.waiting.headD 0, event)] }

/-- Without a transport the queue has been cleared, and nobody pushes. -/
def notePeriod (p : Period) (s : Loop) (l : LoopLabel) (t : Loop) : Period :=
  if t.client.link.isNone then {}
  else match l, t.place with
  | .asio l, _ => (s.client.offers l).elim p (p.offer s.client ·)
  | .drain, .handling _ _ event => p.take event
  | _, _ => p

/-- How often `DrainEvents` may still pop before the flag is tested. -/
def Place.popsLeft : Place → Nat
  | .top | .capturing | .finishing _ | .deadlines _ | .framing _ => kEventsPerCaptureFrame
  | .draining _ handled => kEventsPerCaptureFrame - handled
  | .handling _ handled _ => kEventsPerCaptureFrame - (handled + 1)
  | .polling _ | .checking _ | .stopped => 0

/-- The actor has taken the first events; up to the `k`-th the next ones wait in order, and
none of them was refused. -/
structure Period.UpTo (p : Period) (k : Nat) (rest : List Nat) : Prop where
  waiting : p.waiting = List.range' p.handled.length (k - p.handled.length) ++ rest
  taken : p.handled.length ≤ k
  offered : k ≤ p.offered.length
  refused : ∀ j ∈ p.refused, k ≤ j

/-- The first events offered are the ones the actor took. -/
structure Period.InOrder (p : Period) : Prop where
  places : p.handled.map (·.1) = List.range p.handled.length
  events : p.handled.map (·.2) = p.offered.take p.handled.length

structure Fits (s : Loop) (p : Period) : Prop extends Period.InOrder p where
  offline : s.client.link = none → Emptied s.client ∧ p = {}
  queue : p.waiting.map (p.offered[·]?) = s.client.events.map some
  intact : s.client.overflow = false → p.refused = [] ∧ p.UpTo p.offered.length []
  overflown : s.client.overflow = true → ∃ k rest, p.UpTo k rest ∧
    p.handled.length + (kEventSlots - kEventsPerCaptureFrame) + s.place.popsLeft ≤ k

variable {s t : Loop} {p : Period} {event : QueuedEvent}

theorem popsLeft_le (place : Place) : place.popsLeft ≤ kEventsPerCaptureFrame := by
  cases place <;> simp [Place.popsLeft]

theorem Fits.fresh (he : t.client.events = []) (ho : t.client.overflow = false) : Fits t {} where
  places := rfl
  events := rfl
  offline hl := ⟨⟨hl, he, ho⟩, rfl⟩
  queue := by rw [he]; rfl
  intact _ := ⟨rfl, rfl, Nat.le_refl 0, Nat.le_refl 0, nofun⟩
  overflown hyes := by rw [ho] at hyes; cases hyes

theorem Fits.emptied (h : Emptied t.client) : Fits t {} := .fresh h.events h.overflow

/-- A step that leaves the queue alone and does not bring more pops before the test. -/
theorem Fits.same (h : Fits s p) (hs : SameQueue s.client t.client)
    (hp : t.client.overflow = true → t.place.popsLeft ≤ s.place.popsLeft) : Fits t p where
  toInOrder := h.toInOrder
  offline hl := by
    have hnone : s.client.link = none := by
      have heq := hs.link
      rw [hl] at heq
      exact Option.isNone_iff_eq_none.mp (Option.isSome_eq_false_iff.mp heq.symm)
    obtain ⟨he, hp⟩ := h.offline hnone
    exact ⟨he.same hs, hp⟩
  queue := by rw [hs.events]; exact h.queue
  intact ho := h.intact (hs.overflow ▸ ho)
  overflown ho := by
    obtain ⟨k, rest, hk, hle⟩ := h.overflown (hs.overflow ▸ ho)
    exact ⟨k, rest, hk, Nat.le_trans (Nat.add_le_add_left (hp ho) _) hle⟩

theorem Fits.leaves (h : Fits s p) (hs : Leaves s.client t.client)
    (hp : t.client.overflow = true → t.place.popsLeft ≤ s.place.popsLeft) :
    Fits t (if t.client.link.isNone then {} else p) := by
  cases hs with
  | emptied he =>
    rw [if_pos (by rw [he.link]; rfl)]
    exact .emptied he
  | same hs =>
    have ht := h.same hs hp
    split
    · rename_i hnone
      obtain ⟨he, -⟩ := ht.offline (Option.isNone_iff_eq_none.mp hnone)
      exact .emptied he
    · exact ht

theorem map_getElem?_append {waiting : List Nat} {offered events more : List QueuedEvent}
    (h : waiting.map (offered[·]?) = events.map some) :
    waiting.map ((offered ++ more)[·]?) = events.map some := by
  rw [← h]
  refine List.map_congr_left fun j hj => ?_
  have hsome : offered[j]? ∈ events.map some := h ▸ List.mem_map_of_mem hj
  obtain ⟨event, -, hevent⟩ := List.mem_map.mp hsome
  obtain ⟨hlt, -⟩ := List.getElem?_eq_some_iff.mp hevent.symm
  exact List.getElem?_append_left hlt

theorem Fits.length (h : Fits s p) : p.waiting.length = s.client.events.length := by
  simpa using congrArg List.length h.queue

theorem Fits.upTo (h : Fits s p) : ∃ k rest, p.UpTo k rest := by
  cases ho : s.client.overflow with
  | false => exact ⟨_, _, (h.intact ho).2⟩
  | true =>
    obtain ⟨k, rest, hk, -⟩ := h.overflown ho
    exact ⟨k, rest, hk⟩

theorem Fits.inOrder_offer (h : Fits s p) (event : QueuedEvent) :
    Period.InOrder { p with offered := p.offered ++ [event] } := by
  obtain ⟨k, rest, hk⟩ := h.upTo
  refine ⟨h.places, h.toInOrder.events.trans ?_⟩
  exact (List.take_append_of_le_length (Nat.le_trans hk.taken hk.offered)).symm

/-- `Push`: an event that finds the queue full is the first one that is missing. -/
theorem Fits.offer (h : Fits s p) (hl : t.client.link.isSome = true)
    (he : t.client.events = (s.client.push event).events)
    (ho : t.client.overflow = (s.client.push event).overflow) (hp : t.place = s.place) :
    Fits t (p.offer s.client event) := by
  have horder := h.inOrder_offer event
  have hoffline (hnone : t.client.link = none) : False := by
    rw [hnone] at hl
    cases hl
  unfold push at he ho
  unfold Period.offer
  split at he
  · rename_i hfull
    rw [if_pos hfull] at ho ⊢
    refine ⟨⟨horder.places, horder.events⟩, fun hnone => (hoffline hnone).elim, ?_, ?_, ?_⟩
    · rw [he]
      exact map_getElem?_append h.queue
    · intro hno
      rw [ho] at hno
      cases hno
    · intro _
      cases hs : s.client.overflow with
      | false =>
        obtain ⟨hrefused, hk⟩ := h.intact hs
        refine ⟨p.offered.length, [], ⟨hk.waiting, hk.taken, by simp, ?_⟩, ?_⟩
        · simp [hrefused]
        · have hlen := h.length
          rw [hk.waiting, hfull] at hlen
          have hpops := popsLeft_le t.place
          simp only [List.append_nil, List.length_range', kEventSlots] at hlen ⊢
          simp only [kEventsPerCaptureFrame] at hpops ⊢
          omega
      | true =>
        obtain ⟨k, rest, hk, hle⟩ := h.overflown hs
        refine ⟨k, rest, ⟨hk.waiting, hk.taken, ?_, ?_⟩, hp ▸ hle⟩
        · exact Nat.le_trans hk.offered (by simp)
        · simpa [or_imp, forall_and] using ⟨hk.refused, hk.offered⟩
  · rename_i hroom
    rw [if_neg hroom] at ho ⊢
    refine ⟨⟨horder.places, horder.events⟩, fun hnone => (hoffline hnone).elim, ?_, ?_, ?_⟩
    · rw [he, List.map_append, List.map_append, map_getElem?_append h.queue]
      simp
    · intro hno
      obtain ⟨hrefused, hk⟩ := h.intact (ho ▸ hno)
      refine ⟨hrefused, ⟨?_, Nat.le_trans hk.taken (by simp), by simp, by simp [hrefused]⟩⟩
      have hone : p.offered.length + 1 - p.handled.length =
          p.offered.length - p.handled.length + 1 := Nat.succ_sub hk.taken
      simp only [hk.waiting, List.append_nil, List.length_append, List.length_singleton, hone,
        List.range'_1_concat, Nat.add_sub_cancel' hk.taken]
    · intro hyes
      obtain ⟨k, rest, hk, hle⟩ := h.overflown (ho ▸ hyes)
      refine ⟨k, rest ++ [p.offered.length], ⟨?_, hk.taken, ?_, hk.refused⟩, hp ▸ hle⟩
      · simp [hk.waiting]
      · exact Nat.le_trans hk.offered (by simp)

theorem Period.UpTo.next {k : Nat} {rest : List Nat} (hk : p.UpTo k rest)
    (hlt : p.handled.length < k) :
    p.waiting = p.handled.length ::
      (List.range' (p.handled.length + 1) (k - (p.handled.length + 1)) ++ rest) := by
  have hone : k - p.handled.length = k - (p.handled.length + 1) + 1 := by omega
  rw [hk.waiting, hone, List.range'_succ, List.cons_append]

theorem Period.UpTo.take {k : Nat} {rest : List Nat} (hk : p.UpTo k rest)
    (hlt : p.handled.length < k) (event : QueuedEvent) : (p.take event).UpTo k rest where
  waiting := by simp [Period.take, hk.next hlt]
  taken := by
    simp only [Period.take, List.length_append, List.length_singleton]
    exact hlt
  offered := hk.offered
  refused := hk.refused

theorem Period.InOrder.take {k : Nat} {rest : List Nat} (h : p.InOrder) (hk : p.UpTo k rest)
    (hlt : p.handled.length < k) (he : p.offered[p.handled.length]? = some event) :
    (p.take event).InOrder where
  places := by
    simp only [Period.take, hk.next hlt, List.headD_cons, List.map_append, h.places, List.map_cons,
      List.map_nil, List.length_append, List.length_singleton, List.range_succ]
  events := by
    simp only [Period.take, List.map_append, h.events, List.map_cons, List.map_nil,
      List.length_append, List.length_singleton, List.take_add_one, he, Option.toList_some]

/-- Until the test the queue is in order for longer than the actor gets. -/
theorem Fits.next {events : List QueuedEvent} (h : Fits s p) (hs : s.client.events = event :: events) :
    ∃ k rest, p.UpTo k rest ∧ p.handled.length < k := by
  cases ho : s.client.overflow with
  | false =>
    obtain ⟨-, hk⟩ := h.intact ho
    refine ⟨_, _, hk, ?_⟩
    have hlen := h.length
    rw [hk.waiting, hs] at hlen
    simp only [List.append_nil, List.length_range', List.length_cons] at hlen
    omega
  | true =>
    obtain ⟨k, rest, hk, hle⟩ := h.overflown ho
    simp only [kEventSlots, kEventsPerCaptureFrame] at hle
    exact ⟨k, rest, hk, by omega⟩

/-- `Pop`: the actor takes the next event offered. -/
theorem Fits.take {events : List QueuedEvent} {capture : Capture} {handled : Nat}
    (h : Fits s p) (hs : s.client.events = event :: events) (hl : s.client.link.isSome = true)
    (hplace : s.place = .draining capture handled) (hlt : handled < kEventsPerCaptureFrame) :
    Fits { client := { s.client with events }, place := .handling capture handled event }
      (p.take event) := by
  obtain ⟨k, rest, hk, hnext⟩ := h.next hs
  have hqueue := h.queue
  rw [hk.next hnext, hs, List.map_cons, List.map_cons, List.cons.injEq] at hqueue
  obtain ⟨hevent, hqueue⟩ := hqueue
  refine ⟨h.toInOrder.take hk hnext hevent, ?_, ?_, ?_, ?_⟩
  · intro hnone
    dsimp only at hnone
    rw [hnone] at hl
    cases hl
  · simpa [Period.take, hk.next hnext] using hqueue
  · intro ho
    obtain ⟨hrefused, hall⟩ := h.intact ho
    exact ⟨hrefused, hall.take (Nat.lt_of_lt_of_le hnext hk.offered) event⟩
  · intro ho
    obtain ⟨k, rest, hk, hle⟩ := h.overflown ho
    rw [hplace] at hle
    have hnext : p.handled.length < k := by
      simp only [kEventSlots, kEventsPerCaptureFrame] at hle
      omega
    refine ⟨k, rest, hk.take hnext event, ?_⟩
    simp only [Period.take, List.length_append, List.length_singleton, Place.popsLeft,
      kEventSlots, kEventsPerCaptureFrame] at hle hlt ⊢
    omega

-- ---------------------------------------------------------------------------
-- Steps
-- ---------------------------------------------------------------------------

theorem push_link (link : Option Link) (event : QueuedEvent) :
    ({ c with link }.push event).link = link ∧
      ({ c with link }.push event).events = (c.push event).events ∧
      ({ c with link }.push event).overflow = (c.push event).overflow := by
  unfold push
  split <;> exact ⟨rfl, rfl, rfl⟩

def Offered (event : Option QueuedEvent) (c c' : VoiceClient) : Prop :=
  match event with
  | none => c'.events = c.events ∧ c'.overflow = c.overflow
  | some event => c'.events = (c.push event).events ∧ c'.overflow = (c.push event).overflow

theorem hear_queue (link : Link) (r : Transport × Transport.Outcome) :
    (c.hear link r).link.isSome = true ∧ Offered (outcomeEvent r.2) c (c.hear link r) := by
  obtain ⟨transport, outcome⟩ := r
  cases outcome with
  | dropped => exact ⟨rfl, rfl, rfl⟩
  | emit event | protocolError event =>
    obtain ⟨hlink, hqueue⟩ := push_link (c := c) _ _
    exact ⟨congrArg _ hlink, hqueue⟩

theorem asio_queue {l : Label} (hl : l.asio = true) (hs : step cfg c l = some c') :
    c.link.isSome = true ∧ c'.link.isSome = true ∧ Offered (c.offers l) c c' := by
  have hm := step_moves hs
  cases l with
  | opened =>
    obtain ⟨link, hlink, -, rfl⟩ := hm
    exact ⟨by rw [hlink]; rfl, rfl, rfl, rfl⟩
  | ping =>
    obtain ⟨link, hlink, rfl⟩ := hm
    have hsome : c.link.isSome = true := by rw [hlink]; rfl
    refine ⟨hsome, ?_, rfl, rfl⟩
    unfold push
    split <;> exact hsome
  | text e | binary e =>
    obtain ⟨link, hlink, rfl⟩ := hm
    refine ⟨by rw [hlink]; rfl, ?_⟩
    simp only [offers, hlink, Option.bind_some]
    exact hear_queue ..
  | failed why =>
    obtain ⟨link, hlink, rfl⟩ := hm
    obtain ⟨hlink', hqueue⟩ := push_link (c := c) (some { link with state := .closed })
      (.inbound (.error {} "transport" why))
    exact ⟨by rw [hlink]; rfl, congrArg _ hlink', hqueue⟩
  | connect | finishConnect | event | action | overflowed | deadlines | frame | skip => cases hl

theorem Fits.asio {l : Label} (h : Fits s p) (hl : l.asio = true)
    (hs : step cfg s.client l = some c') :
    Fits { s with client := c' } (notePeriod p s (.asio l) { s with client := c' }) := by
  obtain ⟨hlink, hlink', hqueue⟩ := asio_queue hl hs
  have hsome : ¬ c'.link.isNone = true :=
    Bool.eq_false_iff.mp (Option.isNone_eq_false_iff.mpr hlink')
  simp only [notePeriod, if_neg hsome]
  cases ho : s.client.offers l with
  | none =>
    rw [ho] at hqueue
    exact h.same ⟨hlink'.trans hlink.symm, hqueue.1, hqueue.2⟩ fun _ => Nat.le_refl _
  | some event =>
    rw [ho] at hqueue
    exact h.offer hlink' hqueue.1 hqueue.2 rfl

theorem startConnect_queue (cfg : ClientConfig) (a : Answers) (connects : Bool) (c : VoiceClient) :
    Emptied (c.startConnect cfg a connects) ∨
      (c.startConnect cfg a connects).link.isSome = true ∧
        (c.startConnect cfg a connects).events = c.events ∧
        (c.startConnect cfg a connects).overflow = c.overflow := by
  unfold startConnect
  dsimp only
  split
  · split
    · exact .inr ⟨rfl, rfl, rfl⟩
    · exact .inl loseConnection_emptied
  · exact .inl loseConnection_emptied

theorem checkOverflow_leaves : Leaves c (c.checkOverflow a) := by
  unfold checkOverflow
  split
  · exact loseConnection_leaves
  · exact .refl c

theorem checkOverflow_overflow : (c.checkOverflow a).overflow = false := by
  unfold checkOverflow
  split
  · exact loseConnection_emptied.overflow
  · exact Bool.eq_false_iff.mpr ‹_›

theorem answered_leaves : Leaves c (c.answered a) := .of_eq rfl rfl rfl

theorem advanced_leaves (capture : Capture) (ok : Bool) : Leaves c (Loop.advanced capture ok c).client := by
  unfold Loop.advanced
  repeat' split
  all_goals exact .of_eq rfl rfl rfl

theorem loopStep_fits {l : LoopLabel} (h : Fits s p) (hs : loopStep cfg s l = some t) :
    Fits t (notePeriod p s l t) := by
  -- at the other places nothing is popped before `DrainEvents` begins
  have hfull (hplace : s.place.popsLeft = kEventsPerCaptureFrame) :
      t.place.popsLeft ≤ s.place.popsLeft := hplace ▸ popsLeft_le _
  cases l with
  | asio l =>
    simp only [loopStep, Option.ite_none_right_eq_some] at hs
    obtain ⟨hl, hstep⟩ := hs
    obtain ⟨c', hc, rfl⟩ := Option.map_eq_some_iff.mp hstep
    exact h.asio hl hc
  | stop =>
    simp only [loopStep, Option.ite_none_right_eq_some, Option.some.injEq] at hs
    obtain ⟨-, rfl⟩ := hs
    exact h.leaves (.refl _) fun _ => Nat.zero_le _
  | idle =>
    simp only [loopStep, Option.ite_none_right_eq_some, Option.some.injEq] at hs
    obtain ⟨hplace, rfl⟩ := hs
    exact h.leaves (.refl _) fun _ => hfull (by rw [hplace]; rfl)
  | connect a connects =>
    simp only [loopStep, Option.ite_none_right_eq_some, Option.some.injEq] at hs
    obtain ⟨⟨-, hlink, -⟩, rfl⟩ := hs
    obtain ⟨hempty, rfl⟩ := h.offline (Option.isNone_iff_eq_none.mp hlink)
    have hnote : notePeriod {} s (.connect a connects)
        (.unlessFailed (s.client.startConnect cfg a connects) .capturing) = {} := ite_self _
    rw [hnote]
    rcases startConnect_queue cfg a connects s.client with he | ⟨-, he, ho⟩
    · exact .emptied he
    · exact .fresh (he.trans hempty.events) (ho.trans hempty.overflow)
  | captured capture =>
    simp only [loopStep, Option.ite_none_right_eq_some, Option.some.injEq] at hs
    obtain ⟨hplace, rfl⟩ := hs
    exact h.leaves (.refl _) fun _ => hfull (by rw [hplace]; rfl)
  | drain =>
    simp only [loopStep] at hs
    split at hs
    · rename_i capture handled hplace
      split at hs
      · rename_i hgo
        split at hs
        · rename_i event events hevents
          cases hs
          have hsome : ¬ s.client.link.isNone = true :=
            Bool.eq_false_iff.mp (Option.isNone_eq_false_iff.mpr hgo.2.1)
          simp only [notePeriod, if_neg hsome]
          exact h.take hevents hgo.2.1 hplace hgo.1
        · cases hs
          exact h.leaves (.refl _) fun _ => Nat.zero_le _
      · cases hs
        exact h.leaves (.refl _) fun _ => Nat.zero_le _
    · cases hs
  | act a =>
    simp only [loopStep] at hs
    split at hs
    · rename_i capture hplace
      cases hs
      exact h.leaves (answered_leaves.trans finishConnect_leaves) fun _ => hfull (by rw [hplace]; rfl)
    · rename_i capture handled event hplace
      cases hs
      refine h.leaves (answered_leaves.trans (handleEvent_leaves event)) fun _ => ?_
      rw [hplace]
      exact Nat.le_refl _
    · rename_i capture hplace
      split at hs
      · cases hs
        exact h.leaves answered_leaves fun _ => Nat.zero_le _
      split at hs
      · cases hs
        exact h.leaves (answered_leaves.trans checkOverflow_leaves) fun _ => Nat.zero_le _
      · cases hs
        refine h.leaves (answered_leaves.trans checkOverflow_leaves) fun ho => ?_
        exact absurd (checkOverflow_overflow.symm.trans ho) (by simp)
    · rename_i capture hplace
      cases hs
      exact h.leaves ((answered_leaves.trans advanceDeadlines_leaves).trans (advanced_leaves ..))
        fun _ => hfull (by rw [hplace]; rfl)
    · rename_i frame hplace
      cases hs
      exact h.leaves (answered_leaves.trans onFrame_leaves) fun _ => hfull (by rw [hplace]; rfl)
    · cases hs
  | poll a action =>
    simp only [loopStep] at hs
    split at hs
    · cases hs
      refine h.leaves ?_ fun _ => Nat.zero_le _
      cases action with
      | none => exact answered_leaves
      | some action => exact answered_leaves.trans (pollAction_leaves action)
    · cases hs

abbrev periods (cfg : ClientConfig) : Lts.Machine (Lts.Machine.Observed Loop Period) LoopLabel :=
  (loop cfg).observed {} notePeriod

/-- The events the actor handles between two calls of `Clear` are the first ones that were
offered to `Push`, in their order, and none of them comes behind one that was refused. -/
theorem handled_first {cfg : ClientConfig} {o : Lts.Machine.Observed Loop Period}
    (h : (periods cfg).Reachable o) :
    o.notes.handled.map (·.1) = List.range o.notes.handled.length ∧
      o.notes.handled.map (·.2) = o.notes.offered.take o.notes.handled.length ∧
      ∀ place ∈ o.notes.refused, o.notes.handled.length ≤ place := by
  have hfits : Fits o.state o.notes := by
    refine Lts.Machine.observed_invariant (J := fun _ => True) h (fun _ _ => trivial) ?_ ?_
    · rintro s ⟨origin, rfl⟩
      exact .fresh rfl rfl
    · intro s p l t _ _ hk hs
      exact loopStep_fits hk hs
  obtain ⟨k, rest, hk⟩ := hfits.upTo
  exact ⟨hfits.places, hfits.toInOrder.events,
    fun place hplace => Nat.le_trans hk.taken (hk.refused place hplace)⟩

/-- Sixty-five heartbeats before the actor is back from `Capture`: it takes eight, and there is
room for one more. -/
def heartbeats : List LoopLabel :=
  List.flatten [[.connect {} true], List.replicate 65 (.asio .ping), [.captured .timeout, .act {}],
    (List.replicate 8 [.drain, .act {}]).flatten, [.asio .ping]]

theorem handled_first_heartbeats : ∃ o,
    (periods sampleConfig).run ⟨{}, {}⟩ heartbeats = some o ∧ o.notes.offered.length = 66 ∧
      o.notes.refused = [64] ∧ o.notes.handled.length = 8 ∧
      o.notes.handled.map (·.1) = List.range o.notes.handled.length := by
  obtain ⟨o, hrun, hr, ho⟩ := Lts.Machine.exists_of_run (periods sampleConfig) ⟨{}, {}⟩ heartbeats
    (fun o => o.notes.offered.length = 66 ∧ o.notes.refused = [64] ∧ o.notes.handled.length = 8)
    ⟨⟨0, rfl⟩, rfl⟩ (by decide +kernel)
  obtain ⟨hoffered, hrefused, hhandled⟩ := of_decide_eq_true ho
  exact ⟨o, hrun, hoffered, hrefused, hhandled, (handled_first hr).1⟩

end BoomPI.Client.VoiceClient
