import BoomPI.Lts
import BoomPI.Server.Transport

/-!
# Reading a connection

`readPump` and `Receive` as two goroutines over the receive queue, one access to
what they share at a time: the pump finds the queue full in one step and signals
in the next, and `Receive` takes a message, judges it under the lock and returns
it in three.
-/

namespace BoomPI.Transport

open Protocol (Message)
open Backend (Error)

/-- Why the connection's context is done. -/
inductive Cause
  | queueFull   -- "transport receive queue is full outside one resolvable turn"
  | elsewhere
  deriving DecidableEq, Repr

/-- Where `Receive` stands: not called, at its first select, at its second, with a
message of the queue, or behind its test of that message. -/
inductive ReceiveAt
  | idle
  | polling
  | selecting
  | holding (message : Message)
  | returning (message : Message)
  deriving DecidableEq, Repr

/-- What the two goroutines did, in order; a ghost. -/
inductive Entry
  | arrived (message : Message)
  | dropped (message : Message)
  | signalled (congestion : TurnCongestionError)
  | taken (message : Message)
  | returned (message : Message)
  | reported (congestion : TurnCongestionError)
  deriving DecidableEq, Repr

structure Link where
  inbox : Inbox := {}
  full : Option Message := none   -- what `readPump` found no room for
  receive : ReceiveAt := .idle
  cause : Option Cause := none
  log : List Entry := []
  deriving DecidableEq, Repr

inductive LinkLabel
  | peer (message : Message)
  | cancel          -- the connection's context is cancelled by someone else
  | pump
  | leave           -- `readPump` sees that the context is done
  | call
  | poll
  | expire          -- the caller's context ends
  | fail
  | report
  | take
  | discard
  | hand            -- `Receive` returns the message it let through
  deriving DecidableEq, Repr

/-- `readPump` has a message: the two tests on `saturatedTurn` and the queue. -/
def Link.read (s : Link) (message : Message) : Link :=
  if s.inbox.saturatedTurn.isSome ∧ messageTurnIdentity message = s.inbox.saturatedTurn then
    { s with log := s.log ++ [.arrived message, .dropped message] }
  else if s.inbox.saturatedTurn.isSome ∧ (messageTurnIdentity message).isSome ∧
      isTurnStart message then
    { s with inbox.pump := .fencing message, log := s.log ++ [.arrived message] }
  else if s.inbox.receiveQueue.length < receiveQueueCapacity then
    { s with
      inbox.receiveQueue := s.inbox.receiveQueue ++ [message]
      log := s.log ++ [.arrived message] }
  else { s with full := some message, log := s.log ++ [.arrived message] }

/-- `readPump` at the send of a fence. -/
def Link.fence (s : Link) (message : Message) : Option Link :=
  if s.inbox.receiveQueue.length < receiveQueueCapacity then
    some { s with
      inbox.pump := .reading, inbox.saturatedTurn := none
      inbox.receiveQueue := s.inbox.receiveQueue ++ [message] }
  else none

def Link.refuse (s : Link) : Link :=
  { s with full := none, inbox.pump := .returned, cause := s.cause.or (some .queueFull) }

/-- The default case of `readPump`: the queue was full. -/
def Link.overflow (s : Link) (message : Message) : Link :=
  match messageTurnIdentity message with
  | none => s.refuse
  | some identity =>
    match s.inbox.signalTurnCongestion identity message with
    | none => s.refuse
    | some inbox =>
      { s with
        inbox := { inbox with saturatedTurn := some identity }
        full := none
        log := s.log ++ (inbox.congestion.drop s.inbox.congestion.length).map .signalled ++
          [.dropped message] }

def Link.pump (s : Link) : Option Link :=
  match s.full, s.inbox.pump, s.inbox.wire with
  | some message, .reading, _ => some (s.overflow message)
  | none, .reading, message :: wire => some (Link.read { s with inbox.wire := wire } message)
  | none, .fencing message, _ => s.fence message
  | _, _, _ => none

/-- `Receive` judges the message it holds, under the lock of `discardCongested`. -/
def Link.discard (s : Link) (message : Message) : Link :=
  match s.inbox.discardCongested message with
  | (true, inbox) => { s with inbox, receive := .polling, log := s.log ++ [.dropped message] }
  | (false, inbox) => { s with inbox, receive := .returning message }

def Link.report (s : Link) (c : TurnCongestionError) (rest : List TurnCongestionError) : Link :=
  { s with inbox.congestion := rest, receive := .idle, log := s.log ++ [.reported c] }

/-- The first select of `Receive`, after its test of the context. -/
def Link.poll (s : Link) : Link :=
  match s.cause, s.inbox.congestion with
  | some _, _ => { s with receive := .idle }
  | none, c :: rest => s.report c rest
  | none, [] => { s with receive := .selecting }

def Link.step (s : Link) : LinkLabel → Option Link
  | .peer message =>
    if message.decoded then some { s with inbox.wire := s.inbox.wire ++ [message] } else none
  | .cancel => some { s with cause := s.cause.or (some .elsewhere) }
  | .pump => s.pump
  | .leave =>
    if s.cause.isSome then some { s with inbox.pump := .returned, full := none } else none
  | .call => if s.receive = .idle then some { s with receive := .polling } else none
  | .poll => if s.receive = .polling then some s.poll else none
  | .expire => if s.receive = .selecting then some { s with receive := .idle } else none
  | .fail =>
    if s.receive = .selecting ∧ s.cause.isSome then some { s with receive := .idle } else none
  | .report => match s.receive, s.inbox.congestion with
    | .selecting, c :: rest => some (s.report c rest)
    | _, _ => none
  | .take => match s.receive, s.inbox.receiveQueue with
    | .selecting, message :: queue =>
      some { s with
        inbox.receiveQueue := queue, receive := .holding message
        log := s.log ++ [.taken message] }
    | _, _ => none
  | .discard => match s.receive with
    | .holding message => some (s.discard message)
    | _ => none
  | .hand => match s.receive with
    | .returning message =>
      some { s with receive := .idle, log := s.log ++ [.returned message] }
    | _ => none

def link : Lts.Machine Link LinkLabel where
  Init s := s = {}
  step := Link.step

/-- `readPump` in one step is the pump with nothing in between. -/
theorem readPump_eq (s : Link) (hf : s.full = none) (hc : s.cause = none) :
    s.inbox.readPump = s.pump.map fun t => match t.full with
      | none => (t.inbox, false)
      | some message => ((t.overflow message).inbox, (t.overflow message).cause.isSome) := by
  obtain ⟨⟨wire, pump, saturatedTurn, queue, congestion, congested⟩, full, receive, cause, log⟩ := s
  cases hf
  cases hc
  cases pump with
  | returned => rfl
  | fencing message =>
    simp only [Inbox.readPump, Link.pump, Link.fence]
    split <;> rfl
  | reading =>
    cases wire with
    | nil => rfl
    | cons message wire =>
      simp only [Inbox.readPump, Link.pump, Link.read, Option.map_some]
      split
      · rfl
      · split
        · rfl
        · split
          · rfl
          · cases hid : messageTurnIdentity message with
            | none => simp [Link.overflow, Link.refuse, hid]
            | some identity =>
              simp only [Link.overflow, hid]
              cases h : Inbox.signalTurnCongestion identity message _ with
              | none => simp [Link.refuse]
              | some i => simp

-- ---------------------------------------------------------------------------
-- Views
-- ---------------------------------------------------------------------------

def TurnCongestionError.identity (c : TurnCongestionError) : TurnIdentity :=
  { sessionID := c.sessionID, turnID := c.turnID, epoch := c.epoch }

def Entry.arrived? : Entry → Option Message
  | .arrived m => some m
  | _ => none

def Entry.dropped? : Entry → Option Message
  | .dropped m => some m
  | _ => none

def Entry.taken? : Entry → Option Message
  | .taken m => some m
  | _ => none

def Entry.returned? : Entry → Option Message
  | .returned m => some m
  | _ => none

def Entry.signalled? : Entry → Option TurnCongestionError
  | .signalled c => some c
  | _ => none

def Entry.reported? : Entry → Option TurnCongestionError
  | .reported c => some c
  | _ => none

def Link.arrivals (s : Link) : List Message := s.log.filterMap Entry.arrived?
def Link.drops (s : Link) : List Message := s.log.filterMap Entry.dropped?
def Link.returns (s : Link) : List Message := s.log.filterMap Entry.returned?
def Link.signals (s : Link) : List TurnCongestionError := s.log.filterMap Entry.signalled?
def Link.reports (s : Link) : List TurnCongestionError := s.log.filterMap Entry.reported?

/-- What `Receive` has taken out of the queue. -/
def ReceiveAt.held : ReceiveAt → List Message
  | .holding message | .returning message => [message]
  | _ => []

@[simp] theorem held_idle : ReceiveAt.idle.held = [] := rfl
@[simp] theorem held_polling : ReceiveAt.polling.held = [] := rfl
@[simp] theorem held_selecting : ReceiveAt.selecting.held = [] := rfl
@[simp] theorem held_holding (m : Message) : (ReceiveAt.holding m).held = [m] := rfl
@[simp] theorem held_returning (m : Message) : (ReceiveAt.returning m).held = [m] := rfl

/-- What `readPump` has read and not put into the queue. -/
def Link.waiting (s : Link) : List Message :=
  match s.full, s.inbox.pump with
  | some message, _ => [message]
  | none, .fencing message => [message]
  | none, _ => []

def Link.queued (s : Link) : List Message :=
  s.receive.held ++ s.inbox.receiveQueue ++ s.waiting

/-- The message a later turn's `turn.start` is for the congestion of `c`. -/
def fences (c : TurnIdentity) (m : Message) : Prop :=
  isTurnStart m = true ∧ (messageTurnIdentity m).isSome = true ∧ messageTurnIdentity m ≠ some c

-- ---------------------------------------------------------------------------
-- What a step can do
-- ---------------------------------------------------------------------------

structure Link.Same (s t : Link) : Prop where
  saturated : t.inbox.saturatedTurn = s.inbox.saturatedTurn
  congested : t.inbox.congested = s.inbox.congested
  congestion : t.inbox.congestion = s.inbox.congestion

/-- `Receive` takes no message, lets none through and returns none. -/
structure Link.Steady (s t : Link) : Prop where
  holding : ∀ m, t.receive = .holding m → s.receive = .holding m
  returning : ∀ m, t.receive = .returning m ↔ s.receive = .returning m

theorem steady_of_eq {s t : Link} (h : t.receive = s.receive) : s.Steady t :=
  ⟨fun _ hm => h ▸ hm, fun _ => by rw [h]⟩

theorem steady_of_held {s t : Link} (hs : s.receive.held = []) (ht : t.receive.held = []) :
    s.Steady t := by
  refine ⟨fun m hm => ?_, fun m => ⟨fun hm => ?_, fun hm => ?_⟩⟩
  · simp [hm] at ht
  · simp [hm] at ht
  · simp [hm] at hs

/-- The effect of a step on the log, the messages on their way and the congestion. -/
inductive LinkMove (s : Link) (l : LinkLabel) (t : Link) : Prop
  | quiet : t.log = s.log → t.queued = s.queued → t.waiting = s.waiting → s.Same t →
      t.full = s.full → (t.cause = s.cause ∨ t.cause = s.cause.or (some .elsewhere)) →
      s.Steady t → LinkMove s l t
  | leave : s.cause.isSome = true → t.log = s.log → t.queued.Sublist s.queued → t.waiting = [] →
      s.Same t → t.cause = s.cause → s.Steady t → LinkMove s l t
  | queue (m : Message) : t.log = s.log ++ [.arrived m] → t.queued = s.queued ++ [m] →
      s.waiting = [] → t.waiting = [] → s.Same t → t.cause = s.cause → s.Steady t → LinkMove s l t
  | wait (m : Message) : t.log = s.log ++ [.arrived m] → t.queued = s.queued ++ [m] →
      s.waiting = [] → t.waiting = [m] →
      (s.inbox.saturatedTurn = none ∨ messageTurnIdentity m ≠ s.inbox.saturatedTurn) →
      (t.full = some m ∨ (messageTurnIdentity m).isSome = true) →
      s.Same t → t.cause = s.cause → s.Steady t → LinkMove s l t
  | stale (m : Message) : t.log = s.log ++ [.arrived m, .dropped m] → t.queued = s.queued →
      s.waiting = [] → t.waiting = [] → s.inbox.saturatedTurn.isSome = true →
      messageTurnIdentity m = s.inbox.saturatedTurn → s.Same t → t.cause = s.cause →
      s.Steady t → LinkMove s l t
  | release (m : Message) : s.full = none → t.log = s.log → t.queued = s.queued →
      s.waiting = [m] → t.waiting = [] → t.inbox.saturatedTurn = none →
      t.inbox.congested = s.inbox.congested → t.inbox.congestion = s.inbox.congestion →
      t.cause = s.cause → s.Steady t → LinkMove s l t
  | again (m : Message) (id : TurnIdentity) : s.full = some m → t.log = s.log ++ [.dropped m] →
      s.queued = t.queued ++ [m] → s.waiting = [m] → t.waiting = [] →
      messageTurnIdentity m = some id → s.inbox.congested = some id →
      t.inbox.saturatedTurn = some id → t.inbox.congested = some id →
      t.inbox.congestion = s.inbox.congestion → t.cause = s.cause → s.Steady t → LinkMove s l t
  | signal (m : Message) (c : TurnCongestionError) : s.full = some m →
      t.log = s.log ++ [.signalled c, .dropped m] → s.queued = t.queued ++ [m] →
      s.waiting = [m] → t.waiting = [] → messageTurnIdentity m = some c.identity →
      s.inbox.congested = none → s.inbox.congestion = [] →
      t.inbox.saturatedTurn = some c.identity → t.inbox.congested = some c.identity →
      t.inbox.congestion = [c] → t.cause = s.cause → s.Steady t → LinkMove s l t
  | refuse (m : Message) : l = .pump → s.full = some m → t.log = s.log → s.queued = t.queued ++ [m] →
      t.waiting = [] → (messageTurnIdentity m = none ∨
        (s.inbox.congested.isSome = true ∧ s.inbox.congested ≠ messageTurnIdentity m) ∨
        (s.inbox.congested = none ∧ s.inbox.congestion ≠ [])) →
      s.Same t → t.cause = s.cause.or (some .queueFull) → s.Steady t → LinkMove s l t
  | report (c : TurnCongestionError) : t.log = s.log ++ [.reported c] → t.queued = s.queued →
      t.waiting = s.waiting → s.inbox.congestion = c :: t.inbox.congestion →
      t.inbox.saturatedTurn = s.inbox.saturatedTurn → t.inbox.congested = s.inbox.congested →
      t.full = s.full → t.cause = s.cause → s.Steady t → LinkMove s l t
  | take (m : Message) : t.log = s.log ++ [.taken m] → t.queued = s.queued → t.waiting = s.waiting →
      s.Same t → t.full = s.full → t.cause = s.cause → s.receive = .selecting →
      t.receive = .holding m → LinkMove s l t
  | discard (m : Message) : t.log = s.log ++ [.dropped m] → s.queued = m :: t.queued →
      t.waiting = s.waiting → s.inbox.congested.isSome = true →
      messageTurnIdentity m = s.inbox.congested → s.Same t → t.full = s.full →
      t.cause = s.cause → s.Steady t → LinkMove s l t
  | keep (m : Message) : t.log = s.log → t.queued = s.queued → t.waiting = s.waiting →
      (∀ id, s.inbox.congested = some id → messageTurnIdentity m ≠ some id) →
      (t.inbox.congested = s.inbox.congested ∨
        t.inbox.congested = none ∧ ∀ id, s.inbox.congested = some id → fences id m) →
      t.inbox.saturatedTurn = s.inbox.saturatedTurn → t.inbox.congestion = s.inbox.congestion →
      t.full = s.full → t.cause = s.cause → s.receive = .holding m → t.receive = .returning m →
      LinkMove s l t
  | hand (m : Message) : t.log = s.log ++ [.returned m] → s.queued = m :: t.queued →
      t.waiting = s.waiting → s.Same t → t.full = s.full → t.cause = s.cause →
      s.receive = .returning m → t.receive = .idle → LinkMove s l t

variable {s t : Link} {l : LinkLabel} {m : Message}

theorem LinkMove.of_receive (r : ReceiveAt) (hs : s.receive.held = []) (hr : r.held = []) :
    LinkMove s l { s with receive := r } :=
  .quiet rfl (by simp [Link.queued, Link.waiting, hr, hs]) rfl ⟨rfl, rfl, rfl⟩ rfl (.inl rfl)
    (steady_of_held hs hr)

theorem read_move (hf : s.full = none) (hp : s.inbox.pump = .reading) (w : List Message) :
    LinkMove s l (Link.read { s with inbox.wire := w } m) := by
  have h0 : s.waiting = [] := by simp [Link.waiting, hf, hp]
  rw [Link.read]
  split
  · rename_i hs
    exact .stale m rfl rfl h0 h0 hs.1 hs.2 ⟨rfl, rfl, rfl⟩ rfl (steady_of_eq rfl)
  rename_i hs
  have hne : s.inbox.saturatedTurn = none ∨ messageTurnIdentity m ≠ s.inbox.saturatedTurn := by
    cases h : s.inbox.saturatedTurn with
    | none => exact .inl rfl
    | some id => exact .inr fun he => hs ⟨by simp [h], by rw [he, h]⟩
  split
  · rename_i hc
    refine .wait m rfl ?_ h0 ?_ hne (.inr hc.2.1) ⟨rfl, rfl, rfl⟩ rfl (steady_of_eq rfl)
    · simp [Link.queued, Link.waiting, hf, hp]
    · simp [Link.waiting, hf]
  split
  · refine .queue m rfl ?_ h0 ?_ ⟨rfl, rfl, rfl⟩ rfl (steady_of_eq rfl)
    · simp [Link.queued, Link.waiting, hf, hp]
    · simp [Link.waiting, hf, hp]
  · refine .wait m rfl ?_ h0 ?_ hne (.inl rfl) ⟨rfl, rfl, rfl⟩ rfl (steady_of_eq rfl)
    · simp [Link.queued, Link.waiting, hf, hp]
    · simp [Link.waiting]

theorem fence_move (hf : s.full = none) (hp : s.inbox.pump = .fencing m)
    (h : s.fence m = some t) : LinkMove s l t := by
  rw [Link.fence, Option.ite_none_right_eq_some] at h
  obtain ⟨-, ⟨⟩⟩ := h
  refine .release m hf rfl ?_ ?_ ?_ rfl rfl rfl rfl (steady_of_eq rfl)
  · simp [Link.queued, Link.waiting, hf, hp]
  · simp [Link.waiting, hf, hp]
  · simp [Link.waiting, hf]

/-- `signalTurnCongestion` returns false. -/
theorem signal_eq_none {i : Inbox} {id : TurnIdentity} :
    i.signalTurnCongestion id m = none ↔
      (∃ congested, i.congested = some congested ∧ congested ≠ id) ∨
      (i.congested = none ∧ i.congestion ≠ []) := by
  rw [Inbox.signalTurnCongestion]
  cases hc : i.congested with
  | some congested => simp
  | none => simp [congestionCapacity, List.length_eq_zero_iff]

theorem signal_eq_some {i j : Inbox} {id : TurnIdentity} (h : i.signalTurnCongestion id m = some j) :
    (i.congested = some id ∧ j = i) ∨
      ∃ c : TurnCongestionError, c.identity = id ∧ i.congested = none ∧ i.congestion = [] ∧
        j = { i with congestion := [c], congested := some id } := by
  rw [Inbox.signalTurnCongestion] at h
  cases hc : i.congested with
  | some congested =>
    simp only [hc, Option.ite_none_right_eq_some, Option.some.injEq] at h
    exact .inl ⟨by rw [h.1], h.2.symm⟩
  | none =>
    simp only [hc, congestionCapacity, Nat.lt_one_iff, List.length_eq_zero_iff,
      Option.ite_none_right_eq_some, Option.some.injEq] at h
    obtain ⟨he, rfl⟩ := h
    refine .inr ⟨_, ?_, rfl, he, by rw [he]; rfl⟩
    rfl

theorem overflow_move (hf : s.full = some m) (hp : s.inbox.pump = .reading) :
    LinkMove s .pump (s.overflow m) := by
  have hw : s.waiting = [m] := by simp [Link.waiting, hf]
  rw [Link.overflow]
  cases hid : messageTurnIdentity m with
  | none =>
    exact .refuse m rfl hf rfl (by simp [Link.queued, Link.waiting, Link.refuse, hf]) rfl (.inl hid)
      ⟨rfl, rfl, rfl⟩ rfl (steady_of_eq rfl)
  | some id =>
    simp only
    cases h : s.inbox.signalTurnCongestion id m with
    | none =>
      refine .refuse m rfl hf rfl (by simp [Link.queued, Link.waiting, Link.refuse, hf]) rfl (.inr ?_)
        ⟨rfl, rfl, rfl⟩ rfl (steady_of_eq rfl)
      rcases signal_eq_none.mp h with ⟨congested, hc, hne⟩ | h
      · exact .inl ⟨by simp [hc], by simpa [hc, hid] using hne⟩
      · exact .inr h
    | some j =>
      simp only
      rcases signal_eq_some h with ⟨hc, rfl⟩ | ⟨c, rfl, hc, he, rfl⟩
      · refine .again m id hf (by simp) ?_ hw ?_ hid hc rfl hc rfl rfl (steady_of_eq rfl)
        · simp [Link.queued, Link.waiting, hf, hp]
        · simp [Link.waiting, hp]
      · refine .signal m c hf (by simp [he]) ?_ hw ?_ hid hc he rfl rfl rfl rfl (steady_of_eq rfl)
        · simp [Link.queued, Link.waiting, hf, hp]
        · simp [Link.waiting, hp]

theorem discardCongested_cases (m : Message) (i : Inbox) :
    (i.discardCongested m = (true, i) ∧ i.congested.isSome = true ∧
      messageTurnIdentity m = i.congested) ∨
    ((∀ id, i.congested = some id → messageTurnIdentity m ≠ some id) ∧
      (i.discardCongested m = (false, i) ∨
        i.discardCongested m = (false, { i with congested := none }) ∧
          ∀ id, i.congested = some id → fences id m)) := by
  rw [Inbox.discardCongested]
  cases hc : i.congested with
  | none => exact .inr ⟨by simp, .inl rfl⟩
  | some congested =>
    cases hid : messageTurnIdentity m with
    | none => exact .inr ⟨by simp, .inl rfl⟩
    | some id =>
      by_cases hsame : id = congested
      · exact .inl ⟨by simp [hsame], rfl, by rw [hsame]⟩
      · have hne : ∀ c, some congested = some c → some id ≠ some c := by
          rintro c ⟨⟩ ⟨⟩
          exact hsame rfl
        refine .inr ⟨hne, ?_⟩
        simp only [if_neg hsame]
        split
        · rename_i hstart
          exact .inr ⟨rfl, fun c hc => ⟨hstart, by simp [hid], hid ▸ hne c hc⟩⟩
        · exact .inl rfl

theorem discard_move (hr : s.receive = .holding m) : LinkMove s l (s.discard m) := by
  have hq : s.queued = m :: (s.inbox.receiveQueue ++ s.waiting) := by
    simp [Link.queued, hr]
  rw [Link.discard]
  rcases discardCongested_cases m s.inbox with ⟨he, hc, hid⟩ | ⟨hne, he | ⟨he, hf⟩⟩ <;> rw [he]
  · refine .discard m rfl hq rfl hc hid ⟨rfl, rfl, rfl⟩ rfl rfl ⟨nofun, fun m' => ?_⟩
    simp [hr]
  · exact .keep m rfl hq.symm rfl hne (.inl rfl) rfl rfl rfl rfl hr rfl
  · exact .keep m rfl hq.symm rfl hne (.inr ⟨rfl, hf⟩) rfl rfl rfl rfl hr rfl

theorem report_move {c : TurnCongestionError} {rest : List TurnCongestionError}
    (hr : s.receive.held = []) (hc : s.inbox.congestion = c :: rest) : LinkMove s l (s.report c rest) :=
  .report c rfl (by simp [Link.queued, Link.waiting, Link.report, hr]) rfl hc rfl rfl
    rfl rfl (steady_of_held hr rfl)

/-- What a step can do to the log, the messages on their way and the congestion. -/
theorem link_move (h : s.step l = some t) : LinkMove s l t := by
  cases l with
  | peer m =>
    simp only [Link.step, Option.ite_none_right_eq_some, Option.some.injEq] at h
    obtain ⟨-, rfl⟩ := h
    exact .quiet rfl rfl rfl ⟨rfl, rfl, rfl⟩ rfl (.inl rfl) (steady_of_eq rfl)
  | cancel =>
    cases h
    exact .quiet rfl rfl rfl ⟨rfl, rfl, rfl⟩ rfl (.inr rfl) (steady_of_eq rfl)
  | pump =>
    simp only [Link.step, Link.pump] at h
    split at h
    · rename_i m hf hp
      cases h
      exact overflow_move hf hp
    · rename_i hf hp _
      cases h
      exact read_move hf hp _
    · rename_i hf hp
      exact fence_move hf hp h
    · cases h
  | leave =>
    simp only [Link.step, Option.ite_none_right_eq_some, Option.some.injEq] at h
    obtain ⟨hc, rfl⟩ := h
    refine .leave hc rfl ?_ rfl ⟨rfl, rfl, rfl⟩ rfl (steady_of_eq rfl)
    simp [Link.queued, Link.waiting]
  | call =>
    simp only [Link.step, Option.ite_none_right_eq_some, Option.some.injEq] at h
    obtain ⟨hr, rfl⟩ := h
    exact .of_receive _ (by simp [hr]) rfl
  | poll =>
    simp only [Link.step, Option.ite_none_right_eq_some, Option.some.injEq] at h
    obtain ⟨hr, rfl⟩ := h
    have h0 : s.receive.held = [] := by simp [hr]
    rw [Link.poll]
    split
    · exact .of_receive _ h0 rfl
    · rename_i hc
      exact report_move h0 hc
    · exact .of_receive _ h0 rfl
  | expire =>
    simp only [Link.step, Option.ite_none_right_eq_some, Option.some.injEq] at h
    obtain ⟨hr, rfl⟩ := h
    exact .of_receive _ (by simp [hr]) rfl
  | fail =>
    simp only [Link.step, Option.ite_none_right_eq_some, Option.some.injEq] at h
    obtain ⟨hr, rfl⟩ := h
    exact .of_receive _ (by simp [hr]) rfl
  | report =>
    simp only [Link.step] at h
    split at h
    · rename_i hr hc
      cases h
      exact report_move (by simp [hr]) hc
    · cases h
  | take =>
    simp only [Link.step] at h
    split at h
    · rename_i m queue hr hq
      cases h
      exact .take m rfl (by simp [Link.queued, Link.waiting, hr, hq]) rfl ⟨rfl, rfl, rfl⟩ rfl rfl hr rfl
    · cases h
  | discard =>
    simp only [Link.step] at h
    split at h
    · rename_i m hr
      cases h
      exact discard_move hr
    · cases h
  | hand =>
    simp only [Link.step] at h
    split at h
    · rename_i m hr
      cases h
      exact .hand m rfl (by simp [Link.queued, Link.waiting, hr]) rfl ⟨rfl, rfl, rfl⟩ rfl rfl hr rfl
    · cases h

end BoomPI.Transport
