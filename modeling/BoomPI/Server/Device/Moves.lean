import BoomPI.Server.Device.System

/-!
# What one step can do to the turn and to the send queue

`forward_move` and `handle_move` read the two goroutines once. The invariants
about what is sent for a turn are proved from these moves, not from the code.
-/

namespace BoomPI.Device

open Backend (Error)
open Protocol
open Transport (SendAt SendLabel SendResult TurnIdentity TurnCongestionError enqueue)
open Session (Event)

-- ---------------------------------------------------------------------------
-- Outbound messages
-- ---------------------------------------------------------------------------

def outboundIdentity : Outbound → TurnIdentity
  | .control r => { sessionID := r.sessionID, turnID := r.turnID, epoch := r.epoch }
  | .pcm h _ => { sessionID := h.sessionID, turnID := h.turnID, epoch := h.epoch }

def content : Outbound → Bool
  | .control r => r.body.boundless
  | .pcm .. => true

/-- `response.cancelled`, or the error of `retireActiveTurn`. -/
def acks : Outbound → Bool
  | .control r => match r.body with
    | .cancelled _ | .error _ _ .retired => true
    | _ => false
  | .pcm .. => false

/-- `response.done`, or an error of one turn. -/
def terminal : Outbound → Bool
  | .control r => match r.body with
    | .responseDone _ => true
    | .error .. => r.turnID ≠ 0
    | _ => false
  | .pcm .. => false

@[simp] theorem outboundIdentity_reply (c : Conn) (turn : ActiveTurn) (body : Body) :
    outboundIdentity (c.reply turn body) = turn.identity := rfl

@[simp] theorem content_reply (c : Conn) (turn : ActiveTurn) (body : Body) :
    content (c.reply turn body) = body.boundless := rfl

theorem content_of_acks {m : Outbound} (h : acks m = true) : content m = false := by
  cases m with
  | control r =>
    obtain ⟨body, _, _, _, _, _, _⟩ := r
    cases body <;> first | rfl | cases h
  | pcm => cases h

-- ---------------------------------------------------------------------------
-- What leaves the turn as it is
-- ---------------------------------------------------------------------------

/-- Which turn is active, what has been sent and which contexts are stopped: the same. -/
structure Conn.Steady (c c' : Conn) : Prop where
  identity : c'.turn.identity = c.turn.identity
  active : c'.turn.active = c.turn.active
  ctx : c'.turn.downlinkCtx = c.turn.downlinkCtx
  sent : c'.sent = c.sent
  cancelled : c'.cancelled = c.cancelled
  latest : c'.actor.latest = c.actor.latest
  inputCommitted : c'.turn.inputCommitted = c.turn.inputCommitted
  committed : c'.actor.committed = c.actor.committed

theorem Conn.Steady.refl (c : Conn) : c.Steady c := ⟨rfl, rfl, rfl, rfl, rfl, rfl, rfl, rfl⟩

theorem Conn.Steady.count (c : Conn) : c.Steady c.count := ⟨rfl, rfl, rfl, rfl, rfl, rfl, rfl, rfl⟩

theorem takeCongestion_steady {c : Conn} {r : Handled} (h : takeCongestion c = some r) :
    (c.Steady r.1 ∧ r.1.actor = c.actor) ∧ ∃ congestion, r.2 = .congested congestion := by
  unfold takeCongestion at h
  split at h
  · cases h
  · cases h
    exact ⟨⟨⟨rfl, rfl, rfl, rfl, rfl, rfl, rfl, rfl⟩, rfl⟩, _, rfl⟩

-- ---------------------------------------------------------------------------
-- The forwarder
-- ---------------------------------------------------------------------------

def ForwardAt.calm : ForwardAt → Bool
  | .errorStop _ | .sending .. | .finished _ | .finishedStop _ => false
  | _ => true

def Job.Carries (turn : ActiveTurn) (m : Outbound) : Job → Prop
  | .control t _ | .frame t _ _ =>
    t.identity = turn.identity ∧ t.downlinkCtx = turn.downlinkCtx ∧ content m = true ∧
      terminal m = false ∧ outboundIdentity m = turn.identity
  | .done t =>
    t.identity = turn.identity ∧ t.downlinkCtx = turn.downlinkCtx ∧ content m = true ∧
      terminal m = true ∧ outboundIdentity m = turn.identity
  | .error => False

/-- Where a job leads when its message is queued. -/
def Job.Lands (f : ForwardAt) : Job → Prop
  | .done turn => f = .finished turn
  | _ => f.calm = true

inductive ForwardMove (c : Conn) : ForwardAt → Conn → ForwardAt → Prop
  | calm {f c' f'} : f.calm = true → f'.calm = true → c.Steady c' → ForwardMove c f c' f'
  | speak {f c' m job} : f.calm = true → c.Steady c' → c.turn.active = true →
      job.Carries c.turn m → ForwardMove c f c' (.sending .first m job)
  | offer {m job} : c.done job.ctx = false →
      ForwardMove c (.sending .first m job) c (.sending .second m job)
  | put {m job f'} : job.Lands f' → ForwardMove c (.sending .second m job) (c.put m) f'
  | fail {s m job err} : ForwardMove c (.sending s m job) c (.failed job err)
  | errorRetire {turn} : c.turn.active = true →
      ForwardMove c (.error turn) c.retire (.errorStop c.turn)
  | errorSend {turn code message} : ForwardMove c (.errorStop turn)
      (c.stop turn.downlinkCtx).count
      (.sending .first (c.reply turn (.error code message .provider)) .error)
  | doneRetire {turn} : sameActiveTurn c.turn turn = true →
      ForwardMove c (.finished turn) (c.setTurn { c.turn with active := false })
        (.finishedStop c.turn)
  | doneLost {turn} : sameActiveTurn c.turn turn = false →
      ForwardMove c (.finished turn) c .top
  | doneStop {turn} : ForwardMove c (.finishedStop turn) (c.stop turn.downlinkCtx) .top

section
variable {c : Conn} {p : PacedDownlink} {f : ForwardAt} {turn : ActiveTurn} {job : Job}

theorem writable_active (h : writable turn p = true) : turn.active = true := by
  simp only [writable, Bool.decide_and, Bool.decide_eq_true, Bool.and_eq_true] at h
  exact h.1

theorem finishPacedResponse_move :
    ForwardMove c .finish (finishPacedResponse c p).1 (finishPacedResponse c p).2.2 := by
  unfold finishPacedResponse
  split
  · rename_i hw
    exact .speak rfl (.count c) (writable_active hw) ⟨rfl, rfl, rfl, rfl, rfl⟩
  · exact .calm rfl rfl (.refl c)

theorem sendNextPacedFrame_move :
    ForwardMove c .frame (sendNextPacedFrame c p).1 (sendNextPacedFrame c p).2.2 := by
  unfold sendNextPacedFrame
  split
  · exact .calm rfl rfl (.refl c)
  · rename_i hw
    simp only [not_or, Decidable.not_not] at hw
    dsimp only
    split
    · exact .calm rfl rfl ⟨rfl, rfl, rfl, rfl, rfl, rfl, rfl, rfl⟩
    · exact .speak rfl ⟨rfl, rfl, rfl, rfl, rfl, rfl, rfl, rfl⟩ (writable_active hw.2)
        ⟨rfl, rfl, rfl, rfl, rfl⟩

theorem forwardEvent_calm (c : Conn) (p : PacedDownlink) (turn : ActiveTurn) (event : Event) :
    (forwardEvent c p turn event).1 = c ∧ (forwardEvent c p turn event).2.2.calm = true := by
  unfold forwardEvent
  repeat' split
  all_goals exact ⟨rfl, rfl⟩

theorem forwardAudio_move {event : Event} : ForwardMove c (.audio turn event)
    (forwardAudio c p turn event).1 (forwardAudio c p turn event).2.2 := by
  unfold forwardAudio
  split
  · exact .calm rfl rfl (.refl c)
  · dsimp only
    split
    · exact .calm rfl rfl ⟨rfl, rfl, rfl, rfl, rfl, rfl, rfl, rfl⟩
    · exact .calm rfl rfl ⟨rfl, rfl, rfl, rfl, rfl, rfl, rfl, rfl⟩

/-- The bodies `sendControlIfActive` is called with. -/
def ForwardAt.Speaks : ForwardAt → Prop
  | .control _ body _ => body.boundless = true ∧ ∀ responseID, body ≠ .responseDone responseID
  | _ => True

theorem sendControlIfActive_move {body : Body} {pcm : List UInt8}
    (hs : (ForwardAt.control turn body pcm).Speaks) : ForwardMove c (.control turn body pcm)
      (sendControlIfActive c p turn body pcm).1 (sendControlIfActive c p turn body pcm).2.2 := by
  unfold sendControlIfActive
  split
  · rename_i ha
    refine .speak rfl (.count c) (sameActiveTurn_iff.mp ha).1 ⟨rfl, rfl, hs.1, ?_, rfl⟩
    cases body with
    | responseDone responseID => exact absurd rfl (hs.2 responseID)
    | error => exact absurd hs.1 nofun
    | _ => rfl
  · exact .calm rfl rfl (.refl c)

theorem afterSend_lands : job.Lands (afterSend c p job).2 := by
  cases job with
  | frame turn payload final =>
    show ForwardAt.calm (if final then .finish else .top) = true
    split <;> rfl
  | _ => rfl

theorem afterFailure_calm {err : Error} : (afterFailure c p err job).2.calm = true := by
  unfold afterFailure
  repeat' split
  all_goals rfl

theorem forward_move {l : ForwardLabel} {r : Forwarded} (hs : f.Speaks)
    (hr : forwardStep c p f l = some r) : ForwardMove c f r.1 r.2.2 := by
  unfold forwardStep at hr
  split at hr
  · cases hr
    refine .calm rfl ?_ (.refl c)
    split <;> rfl
  · cases hr
    exact finishPacedResponse_move
  · split at hr
    · cases hr
      exact .calm rfl rfl (.refl c)
    · cases hr
      exact .calm rfl rfl (.refl c)
    · cases hr
      refine .calm rfl ?_ (.refl c)
      split <;> rfl
  · cases hr
    exact sendNextPacedFrame_move
  · split at hr
    · cases hr
      exact .calm rfl rfl (.refl c)
    · cases hr
  · split at hr
    · cases hr
      exact .calm rfl rfl (.refl c)
    · cases hr
  · split at hr
    · cases hr
      exact .calm rfl rfl ⟨rfl, rfl, rfl, rfl, rfl, rfl, rfl, rfl⟩
    · cases hr
  · split at hr
    · cases hr
      exact .calm rfl rfl (.refl c)
    · cases hr
  · split at hr
    · cases hr
      exact .calm rfl rfl (.refl c)
    · cases hr
      obtain ⟨hc, hf⟩ := forwardEvent_calm c p c.turn ‹Event›
      rw [hc]
      exact .calm rfl hf (.refl c)
  · cases hr
    exact sendControlIfActive_move hs
  · cases hr
    exact forwardAudio_move
  · split at hr
    · rename_i ha
      cases hr
      exact .errorRetire (sameActiveTurn_iff.mp ha).1
    · cases hr
      exact .calm rfl rfl (.refl c)
  · cases hr
    exact .errorSend
  · rw [Option.map_eq_some_iff] at hr
    obtain ⟨result, hq, rfl⟩ := hr
    rename_i s message job l
    cases s <;> cases l <;> simp only [enqueue, reduceCtorEq] at hq
    · rw [Option.map_eq_some_iff] at hq
      obtain ⟨err, -, rfl⟩ := hq
      exact .fail
    · split at hq
      · rename_i hd
        cases hq
        exact .offer (by simpa using hd.2)
      · cases hq
    · split at hq
      · cases hq
        exact .fail
      · cases hq
    · split at hq
      · cases hq
        exact .put afterSend_lands
      · cases hq
    · split at hq
      · cases hq
        exact .fail
      · cases hq
  · cases hr
    exact .calm rfl afterFailure_calm (.refl c)
  · split at hr
    · cases hr
      exact .doneRetire ‹_›
    · cases hr
      exact .doneLost (Bool.eq_false_iff.mpr ‹_›)
  · cases hr
    exact .doneStop
  · cases hr

/-- Only an event, and the first audio of a turn, lead to `sendControlIfActive`. -/
theorem forwardStep_speaks {l : ForwardLabel} {r : Forwarded} (hr : forwardStep c p f l = some r) :
    r.2.2.Speaks := by
  unfold forwardStep at hr
  split at hr
  case h_9 =>
    split at hr
    · cases hr
      trivial
    · cases hr
      unfold forwardEvent
      repeat' split
      all_goals first | trivial | exact ⟨rfl, nofun⟩
  case h_11 =>
    cases hr
    unfold forwardAudio
    repeat' (first | split | dsimp only)
    all_goals first | trivial | exact ⟨rfl, nofun⟩
  case h_14 job l =>
    rw [Option.map_eq_some_iff] at hr
    obtain ⟨result, -, rfl⟩ := hr
    cases result with
    | queued =>
      cases job with
      | frame turn payload final => cases final <;> trivial
      | _ => trivial
    | _ => trivial
  case h_15 job err =>
    cases hr
    unfold afterFailure
    repeat' split
    all_goals trivial
  all_goals
    try unfold finishPacedResponse at hr
    try unfold sendNextPacedFrame at hr
    try unfold sendControlIfActive at hr
    repeat' (first | split at hr | dsimp only at hr)
    all_goals cases hr
  all_goals trivial

end

-- ---------------------------------------------------------------------------
-- The reader
-- ---------------------------------------------------------------------------

/-- The reader holds no copy of the turn and has nothing to send. -/
def HandleAt.calm : HandleAt → Bool
  | .drawing .. | .starting .. | .started _ | .startStore _ | .flushing .. | .commitStore ..
  | .fencing .. | .cancelling .. | .retireStop _ | .retireCancel _ | .sending .. => false
  | _ => true

def Reports (m : Outbound) : Prop := content m = false ∧ acks m = false

inductive HandleMove (c : Conn) : HandleAt → Conn → HandleAt → Prop
  | calm {h c' h'} : h.calm = true → h'.calm = true → c.Steady c' → c'.actor = c.actor →
      HandleMove c h c' h'
  -- a turn.start
  | draw {envelope} : c.turn.active = false → envelope.turnID ≠ 0 →
      HandleMove c (.handling envelope) c (.drawing c.turn envelope)
  | drawn {turn envelope downlinkStream} :
      HandleMove c (.drawing turn envelope) c (.starting turn envelope downlinkStream)
  | started {turn envelope downlinkStream} : c.actor.latest < envelope.epoch →
      HandleMove c (.starting turn envelope downlinkStream)
        { c with actor := { c.actor with latest := envelope.epoch } }
        (.started (turn.begin envelope downlinkStream))
  | notStarted {turn envelope downlinkStream h'} : h'.calm = true →
      HandleMove c (.starting turn envelope downlinkStream) c h'
  | startStop {turn} : HandleMove c (.started turn) (c.stop turn.downlinkCtx)
      (.startStore { turn with downlinkCtx := some turn.epoch, active := true })
  | startStore {turn} : HandleMove c (.startStore turn) (c.setTurn turn) .receive
  -- a turn.commit
  | flush {envelope} : c.turn.active = true → c.turn.inputCommitted = false →
      HandleMove c (.handling envelope) c (.flushing c.turn envelope)
  | flushed {turn envelope pendingPCM} : HandleMove c (.flushing turn envelope) c
      (.commitStore { turn with pendingPCM } envelope)
  | notFlushed {turn envelope h'} : h'.calm = true → HandleMove c (.flushing turn envelope) c h'
  | commitStore {turn envelope} : HandleMove c (.commitStore turn envelope)
      { c with
        turn := { turn with inputCommitted := true }
        actor := { c.actor with committed := turn.epoch :: c.actor.committed } }
      (.committing { turn with inputCommitted := true } envelope)
  -- a cancel
  | late {envelope} : c.turn.active = false →
      HandleMove c (.handling envelope) c (.cancelling c.turn envelope)
  | cancel {envelope} : c.turn.active = true →
      HandleMove c (.handling envelope) c (.fencing c.turn envelope)
  | fenced {turn envelope} :
      HandleMove c (.fencing turn envelope) (fence c turn) (.cancelling turn envelope)
  | cancelled {turn envelope result reason} : HandleMove c (.cancelling turn envelope) c.count
      (.sending .first (c.reply turn (.cancelled reason)) (.ack envelope result))
  -- the end of a turn
  | retire {cause} : c.turn.active = true →
      HandleMove c (.retiring cause) c.retire (.retireStop c.turn)
  | retireStop {turn} :
      HandleMove c (.retireStop turn) (c.stop turn.downlinkCtx) (.retireCancel turn)
  | retireSend {turn} : HandleMove c (.retireCancel turn) c.count
      (.sending .first (c.reply turn (turnError .retired)) .report)
  | notRetired {turn h'} : h'.calm = true → HandleMove c (.retireCancel turn) c h'
  -- an error for another turn, or for the session
  | congested {congestion m} :
      ¬ (c.turn.active = true ∧ c.turn.turnID = congestion.turnID ∧
        c.turn.epoch = congestion.epoch) → congestion.sessionID = c.turn.sessionID →
      outboundIdentity m = { c.turn.identity with
        turnID := congestion.turnID, epoch := congestion.epoch } →
      Reports m → HandleMove c (.congested congestion) c.count (.sending .first m .report)
  | rejected {envelope m} :
      ((outboundIdentity m).turnID ≠ 0 → identified envelope = true ∧
        outboundIdentity m = { c.turn.identity with
          turnID := envelope.turnID, epoch := envelope.epoch }) →
      Reports m → HandleMove c (.rejecting envelope) c.count (.sending .first m .report)
  | farewell {cause m} : (outboundIdentity m).turnID = 0 → Reports m →
      HandleMove c (.protocolError cause) c.count (.sending .first m (.farewell cause))
  | offer {m answer} : HandleMove c (.sending .first m answer) c (.sending .second m answer)
  | put {m answer h'} : h'.calm = true →
      HandleMove c (.sending .second m answer) (c.put m) h'
  | fail {s m answer h'} : h'.calm = true → HandleMove c (.sending s m answer) c h'

section
variable {c : Conn} {h : HandleAt} {turn : ActiveTurn}

theorem handleControl_move (c : Conn) (envelope : ControlEnvelope) :
    HandleMove c (.handling envelope) c (handleControl c.turn envelope) := by
  unfold handleControl
  split
  · exact .calm rfl rfl (.refl c) rfl
  split
  · split
    · exact .calm rfl rfl (.refl c) rfl
    · rename_i hv
      unfold validateTurnStart at hv
      split at hv
      · cases hv
      split at hv
      · cases hv
      · rename_i ha hid
        simp only [not_or] at hid
        exact .draw (Bool.eq_false_iff.mpr ha) hid.1
  · split
    · exact .calm rfl rfl (.refl c) rfl
    · rename_i hv
      unfold validateTurnCommit validateActiveEnvelope at hv
      split at hv
      · cases hv
      · rename_i hn
        split at hn
        · cases hn
        · rename_i ha
          simp only [not_or, Decidable.not_not] at ha
          refine .flush ha.1 (Bool.eq_false_iff.mpr fun hcommitted => ?_)
          rw [validateUplinkCommit, if_pos hcommitted] at hv
          split at hv <;> cases hv
  · split
    · exact .calm rfl rfl (.refl c) rfl
    split
    · split
      · exact .late (Bool.eq_false_iff.mpr ‹_›)
      · exact .calm rfl rfl (.refl c) rfl
    · rename_i ha
      split
      · exact .cancel (Decidable.not_not.mp ha)
      · exact .calm rfl rfl (.refl c) rfl
  · split
    · exact .calm rfl rfl (.refl c) rfl
    split
    · split
      · exact .late (Bool.eq_false_iff.mpr ‹_›)
      · exact .calm rfl rfl (.refl c) rfl
    · rename_i ha
      split
      · exact .cancel (Decidable.not_not.mp ha)
      · exact .calm rfl rfl (.refl c) rfl
  · exact .calm rfl rfl (.refl c) rfl
  · exact .calm rfl rfl (.refl c) rfl

theorem handleTurnCongestion_move (c : Conn) (congestion : TurnCongestionError) :
    HandleMove c (.congested congestion) (handleTurnCongestion c congestion).1
      (handleTurnCongestion c congestion).2 := by
  unfold handleTurnCongestion
  split
  · exact .calm rfl rfl (.refl c) rfl
  split
  · exact .calm rfl rfl (.refl c) rfl
  · rename_i hsession ha
    exact .congested (fun h => ha ⟨h.1, h.2.1.symm, h.2.2.symm⟩) (Decidable.not_not.mp hsession)
      rfl ⟨rfl, rfl⟩

theorem rejectTurnStart_move (c : Conn) (envelope : ControlEnvelope) :
    HandleMove c (.rejecting envelope) (rejectTurnStart c envelope).1
      (rejectTurnStart c envelope).2 := by
  unfold rejectTurnStart
  dsimp only [answer]
  split
  · exact .rejected (fun _ => ⟨‹_›, rfl⟩) ⟨rfl, rfl⟩
  · exact .rejected (fun h => absurd rfl h) ⟨rfl, rfl⟩

theorem controlFailed_calm (turn : ActiveTurn) (envelope : ControlEnvelope) (err : Error) :
    (controlFailed turn envelope err).calm = true := by
  unfold controlFailed
  repeat' split
  all_goals rfl

theorem take_steady {r : Handled} (h : take c = some r) :
    (c.Steady r.1 ∧ r.1.actor = c.actor) ∧ r.2.calm = true := by
  unfold take at h
  split at h
  · cases h
  · cases h
    refine ⟨⟨⟨rfl, rfl, rfl, rfl, rfl, rfl, rfl, rfl⟩, rfl⟩, ?_⟩
    dsimp only
    repeat' split
    all_goals rfl

/-- `take` touches the inbox only. -/
theorem take_cases {r : Handled} (hr : take c = some r) :
    ∃ m queue inbox, c.inbox.receiveQueue = m :: queue ∧ r.1 = { c with inbox } ∧
      (r.2 = .receive ∨ r.2 = match m with
        | .control envelope => .control envelope
        | .pcm header payload => .pcm header payload) := by
  unfold take at hr
  split at hr
  · cases hr
  · rename_i m queue hq
    rcases hd : Transport.Inbox.discardCongested m { c.inbox with receiveQueue := queue } with
      ⟨discard, inbox⟩
    simp only [hd] at hr
    cases hr
    refine ⟨m, queue, inbox, hq, rfl, ?_⟩
    cases discard
    · exact .inr rfl
    · exact .inl rfl

theorem acceptPCM_steady {header : PCMHeader} {payload completePCM : List UInt8}
    (h : acceptPCM c.turn header payload = .ok (turn, completePCM)) :
    c.Steady (c.setTurn turn) := by
  unfold acceptPCM at h
  split at h
  · cases h
  split at h
  · cases h
  split at h
  · cases h
  · rename_i advanced hv
    cases h
    unfold validateAndAdvanceUplinkFraming at hv
    repeat' split at hv
    all_goals cases hv
    exact ⟨rfl, rfl, rfl, rfl, rfl, rfl, rfl, rfl⟩

theorem resume_calm (answer : Answer) (result : Option Error) :
    (answer.resume result).calm = true := by
  unfold Answer.resume
  split <;> rfl

theorem handle_move {l : HandleLabel} {r : Handled} (hr : handleStep c h l = some r) :
    HandleMove c h r.1 r.2 := by
  unfold handleStep at hr
  split at hr
  · split at hr
    · cases hr
      exact .calm rfl rfl (.refl c) rfl
    · cases ht : takeCongestion c with
      | none =>
        rw [ht] at hr
        cases hr
        exact .calm rfl rfl (.refl c) rfl
      | some r' =>
        rw [ht] at hr
        cases hr
        obtain ⟨hc, congestion, hcong⟩ := takeCongestion_steady ht
        exact .calm rfl (by rw [Option.getD_some, hcong]; rfl) hc.1 hc.2
  · split at hr
    · cases hr
      exact .calm rfl rfl (.refl c) rfl
    · cases hr
  · obtain ⟨hc, congestion, hcong⟩ := takeCongestion_steady hr
    exact .calm rfl (by rw [hcong]; rfl) hc.1 hc.2
  · obtain ⟨hc, hcalm⟩ := take_steady hr
    exact .calm rfl hcalm hc.1 hc.2
  · cases hr
    exact handleTurnCongestion_move c _
  · cases hr
    refine .calm rfl ?_ (.refl c) rfl
    split <;> rfl
  · cases hr
    exact handleControl_move c _
  · split at hr
    · cases hr
      exact .drawn
    · cases hr
  · cases hr
    refine .notStarted ?_
    unfold startFailed
    split <;> rfl
  · split at hr
    · cases hr
      exact .started ‹_›
    · cases hr
  · cases hr
    exact .startStop
  · cases hr
    exact .startStore
  · split at hr
    · cases hr
      exact .flushed
    · cases hr
  · split at hr
    · cases hr
    split at hr
    · cases hr
      exact .flushed
    · cases hr
      exact .notFlushed rfl
  · cases hr
    exact .commitStore
  · cases hr
    refine .calm rfl ?_ (.refl c) rfl
    split <;> rfl
  · cases hr
    exact .fenced
  · cases hr
    exact .cancelled
  · cases hr
    exact .calm rfl (controlFailed_calm ..) (.refl c) rfl
  · cases hr
    exact rejectTurnStart_move c _
  · cases hr
    refine .calm rfl ?_ (.refl c) rfl
    split <;> rfl
  · cases hr
    split
    · exact .calm rfl rfl (.refl c) rfl
    · exact .calm rfl rfl (acceptPCM_steady ‹_›) rfl
  · split at hr
    · cases hr
    · cases hr
      refine .calm rfl ?_ (.refl c) rfl
      split <;> rfl
  · cases hr
    exact .calm rfl rfl (.refl c) rfl
  · cases hr
    refine .calm rfl ?_ (.refl c) rfl
    split <;> rfl
  · split at hr
    · cases hr
      exact .retire ‹_›
    · cases hr
      exact .calm rfl rfl (.refl c) rfl
  · cases hr
    exact .retireStop
  · cases hr
    split
    · exact .retireSend
    · exact .notRetired rfl
  · cases hr
    exact .farewell rfl ⟨rfl, rfl⟩
  · rw [Option.map_eq_some_iff] at hr
    obtain ⟨result, hq, rfl⟩ := hr
    rename_i s message answer l
    cases s <;> cases l <;> simp only [enqueue, reduceCtorEq] at hq
    · rw [Option.map_eq_some_iff] at hq
      obtain ⟨err, -, rfl⟩ := hq
      exact .fail (resume_calm ..)
    · split at hq
      · cases hq
        exact .offer
      · cases hq
    · split at hq
      · cases hq
        exact .fail (resume_calm ..)
      · cases hq
    · split at hq
      · cases hq
        exact .put (resume_calm ..)
      · cases hq
    · split at hq
      · cases hq
        exact .fail (resume_calm ..)
      · cases hq
  · cases hr

end

end BoomPI.Device
