import BoomPI.Server.Device.Hold

/-!
# A rejected turn.start

`rejectTurnStart` answers the identity of the message and leaves the turn as it
is, so what trails the rejected turn.start is judged against another turn. It is
dropped only when that turn is retired and has the very same identity.
-/

namespace BoomPI.Device

open Backend (Error)
open Protocol
open Transport (SendAt SendLabel)

/-- What the peer has sent behind a turn.start: its frames, a commit and a cancel. -/
def trails (turn : ActiveTurn) (start : ControlEnvelope) : Message → Bool
  | .pcm header _ =>
    header.deviceUUID = turn.deviceUUID ∧ header.sessionID = start.sessionID ∧
      header.turnID = start.turnID ∧ header.streamID = start.streamID ∧ header.epoch = start.epoch
  | .control e =>
    (e.type = .turnCommit ∨ e.type = .turnCancel) ∧ e.payload = [] ∧ e.deviceID = start.deviceID ∧
      e.sessionID = start.sessionID ∧ e.turnID = start.turnID ∧ e.streamID = start.streamID ∧
      e.epoch = start.epoch

def takesTrailing (start : ControlEnvelope) (s : Sys) : Label → Bool
  | .handle .next => s.handle ≠ .receive ∨ s.conn.inbox.congestion = []
  | .handle .congestion => false
  | .handle .message => s.conn.inbox.receiveQueue.head?.all (trails s.conn.turn start)
  | _ => true

def behind (start : ControlEnvelope) (s : Sys) (l : Label) : Bool :=
  !s.conn.done none && takesTrailing start s l

/-- No turn is active when the reader judges a message, a frame and a commit carry the
identity of the retired turn, and the actor accepts a cancel. -/
def containable (s : Sys) : Label → Bool
  | .handle .next => match s.handle with
    | .pcm header _ => pcmBelongsToRetiredTurn s.conn.turn header
    | .control e =>
      ¬ s.conn.turn.active ∧ (e.type = .turnCancel ∨ staleRetiredTurnControl s.conn.turn e)
    | _ => true
  | .handle (.returns result) => result = none
  | _ => true

def rejects (start : ControlEnvelope) : Outbound → Bool
  | .control r => match r.body with
    | .error _ _ .rejected =>
      r.sessionID = start.sessionID ∧ r.turnID = start.turnID ∧ r.streamID = start.streamID ∧
        r.epoch = start.epoch
    | _ => false
  | .pcm .. => false

/-- Where the reader is when nothing of the rejected turn has done harm. -/
def HandleAt.Contains (start : ControlEnvelope) (turn : ActiveTurn) : HandleAt → Prop
  | .rejecting e => e = start
  | .sending _ m .report => rejects start m = true
  | .receive | .selecting | .pcm .. | .cancelling .. => True
  | .control e =>
    (e.type = .turnCommit ∨ e.type = .turnCancel) ∧ e.payload = [] ∧
      controlBelongsToDeviceSession turn e = true
  | .handling e =>
    e.type = .turnCancel ∧ e.payload = [] ∧ controlBelongsToDeviceSession turn e = true ∧
      turn.active = false
  | .sending _ m (.ack _ none) => rejects start m = false
  | _ => False

def HandleAt.answering : HandleAt → Bool
  | .rejecting _ | .sending _ _ .report => true
  | _ => false

def ForwardAt.Accepts : ForwardAt → Prop
  | .sending _ m _ => ∀ start, rejects start m = false
  | _ => True

variable {c c' : Conn} {f f' : ForwardAt} {p : PacedDownlink} {start : ControlEnvelope} {s t : Sys}

theorem rejects_of_content {m : Outbound} (h : content m = true) : rejects start m = false := by
  cases m with
  | control r =>
    obtain ⟨body, _, _, _, _, _, _⟩ := r
    cases body <;> first | rfl | cases h
  | pcm => rfl

theorem ForwardAt.Accepts.of_calm (h : f.calm = true) : f.Accepts := by
  cases f <;> trivial

theorem ForwardAt.Accepts.move (h : f.Accepts) (hm : ForwardMove c f c' f') : f'.Accepts := by
  cases hm with
  | calm _ hc => exact .of_calm hc
  | @speak _ _ m job _ _ _ hj =>
    intro start
    cases job with
    | control | frame | done => exact rejects_of_content hj.2.2.1
    | error => exact hj.elim
  | offer => exact h
  | @put m job _ hl =>
    cases job with
    | done => cases hl; trivial
    | _ => exact .of_calm hl
  | errorSend => exact fun _ => rfl
  | _ => trivial

def Conn.Owned (c c' : Conn) : Prop :=
  c'.turn.deviceID = c.turn.deviceID ∧ c'.turn.sessionID = c.turn.sessionID

theorem forwardStep_owned {l : ForwardLabel} {r : Forwarded} (hr : forwardStep c p f l = some r) :
    c.Owned r.1 := by
  unfold forwardStep at hr
  split at hr
  case h_9 =>
    split at hr
    · cases hr
      exact ⟨rfl, rfl⟩
    · cases hr
      rw [(forwardEvent_calm c p c.turn _).1]
      exact ⟨rfl, rfl⟩
  case h_14 =>
    rw [Option.map_eq_some_iff] at hr
    obtain ⟨result, -, rfl⟩ := hr
    cases result <;> exact ⟨rfl, rfl⟩
  all_goals
    try unfold finishPacedResponse at hr
    try unfold sendNextPacedFrame at hr
    try unfold sendControlIfActive at hr
    try unfold forwardAudio at hr
    repeat' (first | split at hr | dsimp only at hr)
    all_goals cases hr
  all_goals exact ⟨rfl, rfl⟩

theorem belongs_of_owned {e : ControlEnvelope} (h : c.Owned c') :
    controlBelongsToDeviceSession c'.turn e = controlBelongsToDeviceSession c.turn e := by
  rw [controlBelongsToDeviceSession, controlBelongsToDeviceSession, h.1, h.2]

theorem HandleAt.Contains.outside {h : HandleAt} (hc : h.Contains start c.turn) (ho : c.Owned c')
    (ha : c.turn.active = false → c'.turn.active = false) : h.Contains start c'.turn := by
  cases h with
  | control e => exact ⟨hc.1, hc.2.1, (belongs_of_owned ho).trans hc.2.2⟩
  | handling e => exact ⟨hc.1, hc.2.1, (belongs_of_owned ho).trans hc.2.2.1, ha hc.2.2.2⟩
  | sending s m answer =>
    cases answer with
    | ack e cause => cases cause <;> exact hc
    | _ => exact hc
  | _ => exact hc

-- ---------------------------------------------------------------------------
-- The reader
-- ---------------------------------------------------------------------------

theorem unencodable_of_content {m : Outbound} (h : content m = false) :
    Transport.unencodable m = none := by
  cases m with
  | control r =>
    have h : r.body.boundless = false := h
    simp [Transport.unencodable, h]
  | pcm => cases h

/-- A cancel of a rejected turn: ignored, or for the actor to judge. -/
theorem handleControl_cancel {turn : ActiveTurn} {e : ControlEnvelope} (ht : e.type = .turnCancel)
    (hp : e.payload = []) (hb : controlBelongsToDeviceSession turn e = true)
    (ha : turn.active = false) :
    handleControl turn e = .receive ∨ handleControl turn e = .cancelling turn e := by
  rw [handleControl, if_neg (by simp [hb]), ht]
  by_cases hn : turn.named e = true
  · exact .inr (by simp [emptyObjectPayload, hp, ha, hn])
  · exact .inl (by simp [emptyObjectPayload, hp, ha, hn])

theorem rejectTurnStart_rejects (hi : identified start = true)
    (hb : controlBelongsToDeviceSession c.turn start = true) :
    ∃ m, rejectTurnStart c start = (c.count, .sending .first m .report) ∧
      rejects start m = true := by
  simp only [controlBelongsToDeviceSession, Bool.decide_and, Bool.and_eq_true,
    decide_eq_true_eq] at hb
  refine ⟨_, by rw [rejectTurnStart, if_pos hi, answer], ?_⟩
  simp [rejects, Conn.reply, hb.2]

def rejections (start : ControlEnvelope) (c : Conn) (h : HandleAt) : Nat :=
  c.sent.countP (rejects start) + h.answering.toNat

structure Keeps (start : ControlEnvelope) (c : Conn) (h : HandleAt) (c' : Conn) (h' : HandleAt) :
    Prop where
  turn : c'.turn = c.turn
  place : h'.Contains start c'.turn
  answers : rejections start c' h' = rejections start c h

theorem take_keeps {r : Handled} (hb : controlBelongsToDeviceSession c.turn start = true)
    (hm : c.inbox.receiveQueue.head?.all (trails c.turn start) = true) (hr : take c = some r) :
    Keeps start c .selecting r.1 r.2 := by
  obtain ⟨c', h'⟩ := r
  obtain ⟨m, queue, inbox, hq, rfl, rfl | rfl⟩ := take_cases hr
  · exact ⟨rfl, trivial, rfl⟩
  rw [hq, List.head?_cons, Option.all_some] at hm
  cases m with
  | pcm => exact ⟨rfl, trivial, rfl⟩
  | control e =>
    simp only [trails, Bool.decide_and, Bool.and_eq_true, decide_eq_true_eq] at hm
    simp only [controlBelongsToDeviceSession, Bool.decide_and, Bool.and_eq_true,
      decide_eq_true_eq] at hb
    obtain ⟨ht, hp, hd, hs, -⟩ := hm
    refine ⟨rfl, ⟨by simpa using ht, hp, ?_⟩, rfl⟩
    simp [controlBelongsToDeviceSession, hd, hs, hb]

theorem sending_keeps {sent : SendAt} {m : Outbound} {answer : Answer} {l : SendLabel} {r : Handled}
    (hc : (HandleAt.sending sent m answer).Contains start c.turn) (hm : content m = false)
    (hd : c.done none = false)
    (hr : handleStep c (.sending sent m answer) (.send l) = some r) :
    Keeps start c (.sending sent m answer) r.1 r.2 := by
  simp only [handleStep, Option.map_eq_some_iff] at hr
  obtain ⟨result, hq, rfl⟩ := hr
  cases sent <;> cases l <;>
    simp only [Transport.enqueue, hd, unencodable_of_content hm, Option.map_none, reduceCtorEq,
      Bool.false_eq_true, and_false, if_false, not_false_eq_true, and_true,
      Option.ite_none_right_eq_some, Option.some.injEq] at hq
  · obtain ⟨-, rfl⟩ := hq
    cases answer with
    | report => exact ⟨rfl, hc, rfl⟩
    | ack e cause => cases cause <;> exact ⟨rfl, hc, rfl⟩
    | farewell => exact hc.elim
  · obtain ⟨-, rfl⟩ := hq
    cases answer with
    | report =>
      have hc : rejects start m = true := hc
      refine ⟨rfl, trivial, ?_⟩
      simp [rejections, Conn.put, HandleAt.answering, Answer.resume, List.countP_append, hc]
    | ack e cause =>
      cases cause with
      | none =>
        have hc : rejects start m = false := hc
        refine ⟨rfl, trivial, ?_⟩
        simp [rejections, Conn.put, HandleAt.answering, Answer.resume, List.countP_append, hc]
      | some err => exact hc.elim
    | farewell => exact hc.elim

theorem reader_keeps {l : HandleLabel} {r : Handled} (hk : Held s.conn s.handle)
    (hc : s.handle.Contains start s.conn.turn) (hi : identified start = true)
    (hb : controlBelongsToDeviceSession s.conn.turn start = true)
    (hbehind : behind start s (.handle l) = true) (hcont : containable s (.handle l) = true)
    (hr : handleStep s.conn s.handle l = some r) : Keeps start s.conn s.handle r.1 r.2 := by
  obtain ⟨c, h, f, p⟩ := s
  rw [behind, Bool.and_eq_true, Bool.not_eq_true'] at hbehind
  obtain ⟨hd, hbehind⟩ := hbehind
  dsimp only at *
  cases h with
  | receive =>
    cases l <;> simp only [handleStep, reduceCtorEq] at hr
    have hbehind : c.inbox.congestion = [] := by simpa [takesTrailing] using hbehind
    simp only [Conn.done, Bool.decide_or, Bool.or_eq_false_iff, decide_eq_false_iff_not] at hd
    rw [if_neg (by simpa using hd.1)] at hr
    cases hr
    simp only [takeCongestion, hbehind, Option.getD_none]
    exact ⟨rfl, trivial, rfl⟩
  | selecting =>
    cases l <;> simp only [handleStep, reduceCtorEq] at hr
    · cases hbehind
    · exact take_keeps hb hbehind hr
    · simp [hd] at hr
  | control e =>
    cases l <;> simp only [handleStep, reduceCtorEq] at hr
    simp only [containable, Bool.decide_and, Bool.and_eq_true, decide_eq_true_eq] at hcont
    cases hr
    dsimp only
    split
    · exact ⟨rfl, trivial, rfl⟩
    · rename_i hstale
      have ht : e.type = .turnCancel := by simpa [hstale] using hcont.2
      exact ⟨rfl, ⟨ht, hc.2.1, hc.2.2, by simpa using hcont.1⟩, rfl⟩
  | handling e =>
    cases l <;> simp only [handleStep, reduceCtorEq] at hr
    cases hr
    obtain ⟨ht, hp, hbe, ha⟩ := hc
    rcases handleControl_cancel ht hp hbe ha with h | h <;> rw [h] <;> exact ⟨rfl, trivial, rfl⟩
  | cancelling turn e =>
    cases l <;> simp only [handleStep, reduceCtorEq] at hr
    simp only [containable, decide_eq_true_eq] at hcont
    cases hr
    rw [hcont]
    exact ⟨rfl, rfl, rfl⟩
  | rejecting e =>
    cases l <;> simp only [handleStep, reduceCtorEq] at hr
    cases hr
    cases hc
    obtain ⟨m, he, hm⟩ := rejectTurnStart_rejects hi hb
    rw [he]
    exact ⟨rfl, hm, rfl⟩
  | pcm header payload =>
    cases l <;> simp only [handleStep, reduceCtorEq] at hr
    have hcont : pcmBelongsToRetiredTurn c.turn header = true := hcont
    cases hr
    rw [if_pos hcont]
    exact ⟨rfl, trivial, rfl⟩
  | sending sent m answer =>
    cases l <;> simp only [handleStep, reduceCtorEq] at hr
    exact sending_keeps hc hk.holds.1 hd (by simpa only [handleStep] using hr)
  | _ => exact hc.elim

-- ---------------------------------------------------------------------------
-- The whole session
-- ---------------------------------------------------------------------------

theorem step_owned {l : Label} (hl : ∀ h, l ≠ .handle h) (hs : step s l = some t) :
    s.conn.Owned t.conn := by
  cases l with
  | handle h => exact absurd rfl (hl h)
  | forward l =>
    rw [step, Option.map_eq_some_iff] at hs
    obtain ⟨r, hr, rfl⟩ := hs
    exact forwardStep_owned hr
  | peer | writePump | emit =>
    rw [step] at hs
    split at hs <;> cases hs
    exact ⟨rfl, rfl⟩
  | readPump =>
    rw [step] at hs
    split at hs
    · cases hs
    · rw [Option.map_eq_some_iff] at hs
      obtain ⟨r, -, rfl⟩ := hs
      exact ⟨rfl, rfl⟩
  | tick | closeEvents | disconnect | idle =>
    cases hs
    exact ⟨rfl, rfl⟩

/-- What holds while the reader answers a rejection that was the `n`th of its identity. -/
structure Containing (start : ControlEnvelope) (n : Nat) (s : Sys) : Prop where
  known : Known s
  accepts : s.forward.Accepts
  belongs : controlBelongsToDeviceSession s.conn.turn start = true
  place : s.handle.Contains start s.conn.turn
  answers : rejections start s.conn s.handle = n

theorem forward_answers {c c' : Conn} {h : HandleAt} (ha : f.Accepts) (hm : ForwardMove c f c' f') :
    rejections start c' h = rejections start c h := by
  cases hm with
  | calm _ _ hs | speak _ hs => rw [rejections, hs.sent, rejections]
  | put => simp [rejections, Conn.put, List.countP_append, ha start]
  | _ => rfl

theorem Containing.reader {n : Nat} {l : HandleLabel} (h : Containing start n s)
    (hi : identified start = true) (hb : behind start s (.handle l) = true)
    (hc : containable s (.handle l) = true) (hs : step s (.handle l) = some t) :
    t.conn.turn = s.conn.turn ∧ Containing start n t := by
  have hknown := h.known.step hs
  rw [Device.step, Option.map_eq_some_iff] at hs
  obtain ⟨r, hr, rfl⟩ := hs
  have hk := reader_keeps h.known.held h.place hi h.belongs hb hc hr
  have hturn : r.1.turn = s.conn.turn := hk.turn
  refine ⟨hturn, hknown, h.accepts, ?_, hk.place, hk.answers.trans h.answers⟩
  show controlBelongsToDeviceSession r.1.turn start = true
  exact hturn ▸ h.belongs

theorem Containing.outside {n : Nat} {l : Label} (h : Containing start n s)
    (hl : ∀ r, l ≠ .handle r) (hs : Device.step s l = some t) : Containing start n t := by
  have hknown := h.known.step hs
  have ho := step_owned hl hs
  have hb := (belongs_of_owned ho).trans h.belongs
  cases step_move h.known.speaks hs with
  | outside hsteady hh hf =>
    refine ⟨hknown, hf ▸ h.accepts, hb, hh ▸ h.place.outside ho (hsteady.active.trans ·), ?_⟩
    rw [hh, ← h.answers, rejections, hsteady.sent, rejections]
  | reader => exact absurd rfl (hl _)
  | @forwarder _ c _ hm hconn hh =>
    have hact : s.conn.turn.active = false → t.conn.turn.active = false := by
      rw [hconn]
      exact hm.tame.active
    have hans : rejections start c s.handle = rejections start s.conn s.handle :=
      forward_answers h.accepts hm
    refine ⟨hknown, h.accepts.move hm, hb, hh ▸ h.place.outside ho hact, ?_⟩
    rw [hh, hconn, ← h.answers, ← hans]
    rfl

theorem Containing.step {n : Nat} {l : Label} (h : Containing start n s)
    (hi : identified start = true) (hb : behind start s l = true) (hc : containable s l = true)
    (hs : Device.step s l = some t) : Containing start n t := by
  cases l with
  | handle l => exact (h.reader hi hb hc hs).2
  | _ =>
    refine h.outside ?_ hs
    exact fun _ => nofun

/-- Nobody but `rejectTurnStart` rejects a turn.start. -/
theorem accepts_of_reachable (h : machine.Reachable s) : s.forward.Accepts := by
  refine h.invariant_with (J := Known) (I := fun s => s.forward.Accepts) (fun _ => known) ?_ ?_
  · rintro s ⟨deviceID, deviceUUID, sessionID, -, -, -, -, rfl⟩
    trivial
  · intro s l t hk _ hi _ hs
    cases step_move hk.speaks hs with
    | outside _ _ hf | reader _ _ _ hf => exact hf ▸ hi
    | forwarder _ hm => exact hi.move hm

/-- A rejected turn.start is answered with one error of its own. While what trails it finds
no turn active and, unless it is a cancel, the identity of the retired turn, the reader
fails on none of it and leaves the turn as it is. -/
theorem rejection_contained (hs : machine.Reachable s) (hr : s.handle = .rejecting start)
    (hi : identified start = true) (hb : controlBelongsToDeviceSession s.conn.turn start = true)
    (ht : (machine.begunIn s).ReachableUnder
      (fun u l => behind start u l = true ∧ containable u l = true) t) :
    t.handle.Contains start t.conn.turn ∧
      t.conn.sent.countP (rejects start) + t.handle.answering.toNat =
        s.conn.sent.countP (rejects start) + 1 ∧
      ∀ l u, behind start t (.handle l) = true → containable t (.handle l) = true →
        step t (.handle l) = some u → u.conn.turn = t.conn.turn := by
  have h : Containing start (rejections start s.conn s.handle) t := by
    refine ht.invariant ?_ fun u l v hu hc hs => hu.step hi hc.1 hc.2 hs
    rintro _ rfl
    exact ⟨known hs, accepts_of_reachable hs, hb, by rw [hr]; rfl, rfl⟩
  refine ⟨h.place, ?_, fun l u hb hc hs => (h.reader hi hb hc hs).1⟩
  have ha := h.answers
  rw [hr] at ha
  exact ha

-- ---------------------------------------------------------------------------
-- Runs
-- ---------------------------------------------------------------------------

def starts (n : Nat) (result : Option Error) : List Label :=
  List.flatten [receives (startMessage n),
    [.handle (.random 9), .handle (.returns result), .handle .next]]

def startsAgain : List Label :=
  List.flatten [starts 1 none, [.handle .next], cancels 1, queues,
    starts 1 (some Session.ErrStaleEpoch)]

def trailing : List Label :=
  List.flatten [[.handle .next], queues,
    [.peer (pcmMessage 1 3 0), .readPump, .handle .next, .handle .message, .handle .next],
    [.peer (controlMessage .turnCommit 1), .readPump, .handle .next, .handle .message, .handle .next],
    receives (controlMessage .turnCancel 1), [.handle (.returns none)], queues]

def startEnvelope (n : Nat) : ControlEnvelope where
  type := .turnStart
  deviceID := deviceName
  sessionID := 5
  turnID := n
  streamID := n
  epoch := n
  payload := [("sample_rate_hz", .integer 16000)]

/-- The turn.start repeats the retired turn: everything behind it is contained. -/
theorem rejection_contained_repeated :
    ∃ s t : Sys, t.handle = .receive ∧ t.conn.inbox.receiveQueue = [] ∧
      t.handle.Contains (startEnvelope 1) t.conn.turn ∧
      t.conn.sent.countP (rejects (startEnvelope 1)) + t.handle.answering.toNat =
        s.conn.sent.countP (rejects (startEnvelope 1)) + 1 := by
  obtain ⟨s, t, hs, ht, hp⟩ := machine.exists_of_run_runIf
    (fun u l => behind (startEnvelope 1) u l && containable u l)
    (fun u l h => (Bool.and_eq_true _ _).mp h) session startsAgain trailing
    (fun s t => s.handle = .rejecting (startEnvelope 1) ∧
      controlBelongsToDeviceSession s.conn.turn (startEnvelope 1) ∧
      t.handle = .receive ∧ t.conn.inbox.receiveQueue = []) session_init (by decide +kernel)
  obtain ⟨hr, hb, hh, hq⟩ := of_decide_eq_true hp
  obtain ⟨hc, ha, -⟩ := rejection_contained hs hr rfl hb ht
  exact ⟨s, t, hh, hq, hc, ha⟩

/-- While turn 1 is active, turn 2 is rejected; its first frame ends the session. -/
theorem rejection_not_contained :
    ∃ s t : Sys, machine.Reachable s ∧ s.handle = .rejecting (startEnvelope 2) ∧
      identified (startEnvelope 2) = true ∧
      controlBelongsToDeviceSession s.conn.turn (startEnvelope 2) = true ∧
      (machine.begunIn s).ReachableUnder (fun u l => behind (startEnvelope 2) u l = true) t ∧
      t.handle = .protocolError (.text "PCM epoch does not match the active stream") := by
  obtain ⟨s, t, hs, ht, hp⟩ := machine.exists_of_run_runIf (behind (startEnvelope 2))
    (fun _ _ h => h) session
    (List.flatten [starts 1 none, [.handle .next], receives (startMessage 2), [.handle .next]])
    (List.flatten [[.handle .next], queues, receives (pcmMessage 2 3 0), [.handle .next]])
    (fun s t => s.handle = .rejecting (startEnvelope 2) ∧
      controlBelongsToDeviceSession s.conn.turn (startEnvelope 2) ∧
      t.handle = .protocolError (.text "PCM epoch does not match the active stream"))
    session_init (by decide +kernel)
  obtain ⟨hr, hb, hh⟩ := of_decide_eq_true hp
  exact ⟨s, t, hs, hr, rfl, hb, ht, hh⟩

end BoomPI.Device
