import BoomPI.Dialogue.Conversation

/-!
# The uplink of a turn

What the reader will have made of the turn and of the audio once it has dealt with
all that is on its way. The steps of the server leave that as it is, and the
client's own state says what it is.
-/

namespace BoomPI.Dialogue

open Protocol (Message ControlEnvelope PCMHeader uint32)
open Client (Transport Control QueueCapacity Pcm64Header WireIds)
open Device (Conn ActiveTurn HandleAt HandleLabel ForwardAt acceptPCM validateTurnStart validateTurnCommit
  controlBelongsToDeviceSession staleRetiredTurnControl pcmBelongsToRetiredTurn handleControl handleStep
  finalInput inputFrameBytes)
open Transport (Inbox)

-- ---------------------------------------------------------------------------
-- What is on its way
-- ---------------------------------------------------------------------------

def uplink (turn : ActiveTurn) : ActiveTurn :=
  { turn with downlinkStream := 0, outputSequence := 0, outputStarted := false, downlinkCtx := none }

/-- A turn, and the bytes that have left it for the provider. -/
structure Received where
  turn : ActiveTurn
  bytes : List UInt8 := []
  deriving DecidableEq, Repr

/-- What a message makes of a turn when every call of the actor succeeds. -/
def absorb (x : Received) : Message → Option Received
  | .control e =>
    if ¬ controlBelongsToDeviceSession x.turn e then none
    else match e.type with
    | .turnStart =>
      match validateTurnStart x.turn e with
      | some _ => none
      | none => some { x with turn := { x.turn.begin e 0 with active := true } }
    | .turnCommit =>
      match validateTurnCommit x.turn e with
      | some _ => none
      | none => some {
        turn := { x.turn with pendingPCM := [], inputCommitted := true }
        bytes := x.bytes ++ if x.turn.pendingPCM = [] then [] else finalInput x.turn }
    | _ => none
  | .pcm header payload =>
    match acceptPCM x.turn header payload with
    | .error _ => none
    | .ok (turn, completePCM) => some { turn, bytes := x.bytes ++ completePCM }

/-- The turn the reader is about to have. -/
def settled (turn : ActiveTurn) : HandleAt → ActiveTurn
  | .started t => uplink { t with active := true }
  | .startStore t => uplink t
  | .commitStore t _ => uplink { t with inputCommitted := true }
  | _ => uplink turn

def hand : HandleAt → List Message
  | .control e | .handling e | .drawing _ e | .starting _ e _ | .flushing _ e => [.control e]
  | .pcm header payload | .handlingPCM header payload => [.pcm header payload]
  | _ => []

def held : HandleAt → List UInt8
  | .appending _ _ completePCM => completePCM
  | _ => []

def underway (c : Conn) (h : HandleAt) : List Message := hand h ++ c.inbox.receiveQueue ++ c.inbox.wire

/-- The uplink once everything underway has been dealt with. -/
def outlook (c : Conn) (h : HandleAt) (input : List (List UInt8)) : Option Received :=
  (underway c h).foldlM absorb { turn := settled c.turn h, bytes := input.flatten ++ held h }

variable {c c' : Conn} {h h' : HandleAt} {input : List (List UInt8)} {x y : Received} {turn : ActiveTurn}
  {e : ControlEnvelope} {header : PCMHeader} {payload : List UInt8}

-- ---------------------------------------------------------------------------
-- A message of the turn
-- ---------------------------------------------------------------------------

structure NextFrame (turn : ActiveTurn) (header : PCMHeader) : Prop where
  active : turn.active = true
  context : (Device.uplinkContext turn).validateHeader header = none
  uncommitted : turn.inputCommitted = false
  running : turn.inputEnded = false
  continuous : header.discontinuity = false
  start : header.start = ! turn.inputStarted

def wholeBytes (turn : ActiveTurn) (payload : List UInt8) : Nat :=
  (turn.pendingPCM ++ payload).length / inputFrameBytes * inputFrameBytes

def heard (turn : ActiveTurn) (header : PCMHeader) (payload : List UInt8) : ActiveTurn :=
  { turn with
    expectedInput := uint32 (turn.expectedInput + 1), inputStarted := true
    inputEnded := turn.inputEnded || header.fin
    pendingPCM := (turn.pendingPCM ++ payload).drop (wholeBytes turn payload) }

theorem acceptPCM_next (hn : NextFrame turn header) : acceptPCM turn header payload =
    .ok (heard turn header payload, (turn.pendingPCM ++ payload).take (wholeBytes turn payload)) := by
  have hstart := hn.start
  have hframing : Device.validateAndAdvanceUplinkFraming turn header =
      .ok { turn with inputStarted := true, inputEnded := turn.inputEnded || header.fin } := by
    cases hs : turn.inputStarted <;>
      simp [Device.validateAndAdvanceUplinkFraming, hn.uncommitted, hn.running, hn.continuous, hstart, hs]
  rw [acceptPCM, if_neg (by simp [hn.active]), hn.context]
  simp only [hframing]
  rfl

theorem acceptPCM_ok {r : ActiveTurn × List UInt8} (ha : acceptPCM turn header payload = .ok r) :
    NextFrame turn header := by
  unfold acceptPCM at ha
  split at ha
  · cases ha
  rename_i hactive
  split at ha
  · cases ha
  rename_i hheader
  split at ha
  · cases ha
  rename_i hframing
  unfold Device.validateAndAdvanceUplinkFraming at hframing
  repeat' split at hframing
  all_goals try cases hframing
  rename_i h1 h2 h3 h4 h5
  refine ⟨by simpa using hactive, hheader, by simpa using h1, by simpa using h2, by simpa using h3, ?_⟩
  cases hs : turn.inputStarted <;> cases hh : header.start <;> simp_all

theorem next_uplink : NextFrame (uplink turn) header ↔ NextFrame turn header :=
  ⟨fun h => ⟨h.active, h.context, h.uncommitted, h.running, h.continuous, h.start⟩,
    fun h => ⟨h.active, h.context, h.uncommitted, h.running, h.continuous, h.start⟩⟩

inductive Absorbs (x : Received) : Message → Received → Prop
  | start {e : ControlEnvelope} : controlBelongsToDeviceSession x.turn e = true → e.type = .turnStart →
      validateTurnStart x.turn e = none →
      Absorbs x (.control e) { x with turn := { x.turn.begin e 0 with active := true } }
  | commit {e : ControlEnvelope} : controlBelongsToDeviceSession x.turn e = true → e.type = .turnCommit →
      validateTurnCommit x.turn e = none →
      Absorbs x (.control e) {
        turn := { x.turn with pendingPCM := [], inputCommitted := true }
        bytes := x.bytes ++ if x.turn.pendingPCM = [] then [] else finalInput x.turn }
  | pcm {header : PCMHeader} {payload : List UInt8} : NextFrame x.turn header →
      Absorbs x (.pcm header payload) {
        turn := heard x.turn header payload
        bytes := x.bytes ++ (x.turn.pendingPCM ++ payload).take (wholeBytes x.turn payload) }

theorem absorb_iff {m : Message} : absorb x m = some y ↔ Absorbs x m y := by
  constructor
  · intro h
    cases m with
    | control e =>
      simp only [absorb] at h
      split at h
      · cases h
      rename_i hb
      have hbelongs : controlBelongsToDeviceSession x.turn e = true := by simpa using hb
      split at h
      · rename_i htype
        split at h
        · cases h
        rename_i hv
        cases h
        exact .start hbelongs htype hv
      · rename_i htype
        split at h
        · cases h
        rename_i hv
        cases h
        exact .commit hbelongs htype hv
      · cases h
    | pcm header payload =>
      simp only [absorb] at h
      split at h
      · cases h
      rename_i ha
      have hn := acceptPCM_ok ha
      rw [acceptPCM_next hn] at ha
      cases ha
      cases h
      exact .pcm hn
  · intro h
    cases h with
    | start hb ht hv => simp [absorb, hb, ht, hv]
    | commit hb ht hv => simp [absorb, hb, ht, hv]
    | pcm hn => simp [absorb, acceptPCM_next hn]

-- ---------------------------------------------------------------------------
-- The reader
-- ---------------------------------------------------------------------------

/-- A turn that has less than a frame pending, and whose response has not begun. -/
structure Silent (turn : ActiveTurn) : Prop where
  pendingPCM : turn.pendingPCM.length < inputFrameBytes
  outputSequence : turn.outputSequence = 0
  outputStarted : turn.outputStarted = false
  downlinkStream : 0 < turn.downlinkStream ∧ turn.downlinkStream < 2 ^ 32
  downlinkCtx : turn.downlinkCtx = some turn.epoch

/-- The assertion at each place of a reader nobody disturbs. -/
def Proceeds (c : Conn) : HandleAt → Prop
  | .receive | .selecting | .control _ | .handling _ | .committing .. | .pcm .. | .handlingPCM .. => True
  | .drawing t e => t = c.turn ∧ handleControl c.turn e = .drawing c.turn e
  | .starting t e downlinkStream =>
    t = c.turn ∧ handleControl c.turn e = .drawing c.turn e ∧ 0 < downlinkStream ∧ downlinkStream < 2 ^ 32
  | .started t =>
    c.turn.active = false ∧ t.downlinkCtx = c.turn.downlinkCtx ∧ Silent { t with downlinkCtx := some t.epoch }
  | .startStore t => c.turn.active = false ∧ t.active = true ∧ Silent t
  | .flushing t e => t = c.turn ∧ handleControl c.turn e = .flushing c.turn e
  | .commitStore t _ =>
    c.turn.active = true ∧ c.turn.inputCommitted = false ∧ t = { c.turn with pendingPCM := [] }
  | .appending _ _ completePCM =>
    c.turn.active = true ∧ c.turn.inputCommitted = false ∧ completePCM.length % inputFrameBytes = 0
  | _ => False

theorem inputFrameBytes_pos : 0 < inputFrameBytes := by decide

structure Clear (i : Inbox) : Prop where
  pump : i.pump = .reading
  saturatedTurn : i.saturatedTurn = none
  congestion : i.congestion = []
  congested : i.congested = none

/-- The contexts stopped so far are below it, and the turn's own is not. -/
def limit (c : Conn) (h : HandleAt) : Nat :=
  if (settled c.turn h).active then (settled c.turn h).epoch else c.actor.latest + 1

/-- The reader in the middle of an uplink that is going well. -/
structure Reads (c : Conn) (h : HandleAt) (input : List (List UInt8)) (x : Received) : Prop where
  done : c.done none = false
  inbox : Clear c.inbox
  place : Proceeds c h
  silent : c.turn.active = true → Silent c.turn
  outlook : outlook c h input = some x
  whole : ∀ frame ∈ input, frame.length = inputFrameBytes
  latest : (settled c.turn h).active = true → c.actor.latest = (settled c.turn h).epoch
  cancelled : ∀ epoch ∈ c.cancelled, epoch < limit c h
  old : c.turn.active = false → ∀ epoch ∈ c.turn.downlinkCtx, epoch < limit c h

structure Undisturbed (c : Conn) (h : HandleAt) (c' : Conn) (h' : HandleAt) : Prop where
  sent : c'.sent = c.sent
  written : c'.written = c.written
  events : c'.actor.events = c.actor.events
  eventsClosed : c'.actor.eventsClosed = c.actor.eventsClosed
  limit : limit c h ≤ limit c' h'

theorem Undisturbed.refl (h : HandleAt) (h' : HandleAt) (hs : settled c.turn h' = settled c.turn h) :
    Undisturbed c h c h' :=
  ⟨rfl, rfl, rfl, rfl, by rw [Dialogue.limit, Dialogue.limit, hs]⟩

structure Untouched (c : Conn) (h : HandleAt) (c' : Conn) (h' : HandleAt) : Prop where
  turn : c'.turn = c.turn
  latest : c'.actor.latest = c.actor.latest
  cancelled : c'.cancelled = c.cancelled
  done : c'.done none = false
  inbox : Clear c'.inbox
  settled : settled c.turn h' = settled c.turn h
  held : held h' = held h
  underway : underway c' h' = underway c h

theorem Untouched.limit (hu : Untouched c h c' h') : limit c' h' = limit c h := by
  rw [Dialogue.limit, Dialogue.limit, hu.turn, hu.settled, hu.latest]

theorem Reads.untouched (hr : Reads c h input x) (hu : Untouched c h c' h') (hp : Proceeds c' h') :
    Reads c' h' input x := by
  have hl := hu.limit
  refine ⟨hu.done, hu.inbox, hp, ?_, ?_, hr.whole, ?_, ?_, ?_⟩
  · rw [hu.turn]
    exact hr.silent
  · rw [Dialogue.outlook, hu.turn, hu.settled, hu.held, hu.underway]
    exact hr.outlook
  · rw [hu.turn, hu.settled, hu.latest]
    exact hr.latest
  · rw [hl, hu.cancelled]
    exact hr.cancelled
  · rw [hl, hu.turn]
    exact hr.old

theorem Reads.place_only (hr : Reads c h input x) (hp : Proceeds c h') (hs : settled c.turn h' = settled c.turn h)
    (hh : hand h' = hand h) (hb : held h' = held h) : Reads c h' input x ∧ Undisturbed c h c h' := by
  have hu : Untouched c h c h' :=
    ⟨rfl, rfl, rfl, hr.done, hr.inbox, hs, hb, by rw [underway, underway, hh]⟩
  exact ⟨hr.untouched hu hp, rfl, rfl, rfl, rfl, Nat.le_of_eq hu.limit.symm⟩

theorem Reads.absorbs {m : Message} (hr : Reads c h input x) (hh : hand h = [m]) :
    ∃ y, Absorbs { turn := settled c.turn h, bytes := input.flatten ++ held h } m y ∧
      (c.inbox.receiveQueue ++ c.inbox.wire).foldlM absorb y = some x := by
  have ho := hr.outlook
  rw [Dialogue.outlook, underway, hh, List.append_assoc, List.singleton_append, List.foldlM_cons] at ho
  obtain ⟨y, hy, hrest⟩ := Option.bind_eq_some_iff.mp ho
  exact ⟨y, absorb_iff.mp hy, hrest⟩

theorem Reads.message (hr : Reads c .selecting input x) {r : Conn × HandleAt} (ht : Device.take c = some r) :
    Reads r.1 r.2 input x ∧ Undisturbed c .selecting r.1 r.2 := by
  unfold Device.take at ht
  split at ht
  · cases ht
  rename_i m queue hq
  have hclear : Clear { c.inbox with receiveQueue := queue } :=
    ⟨hr.inbox.pump, hr.inbox.saturatedTurn, hr.inbox.congestion, hr.inbox.congested⟩
  have hkeep : ({ c.inbox with receiveQueue := queue }).discardCongested m =
      (false, { c.inbox with receiveQueue := queue }) := by
    simp [Inbox.discardCongested, hr.inbox.congested]
  simp only [hkeep, Option.some.injEq, Bool.false_eq_true, if_false] at ht
  subst ht
  cases m with
  | control e =>
    have hu : Untouched c .selecting { c with inbox := { c.inbox with receiveQueue := queue } } (.control e) :=
      ⟨rfl, rfl, rfl, hr.done, hclear, rfl, rfl, by simp [underway, hand, hq]⟩
    exact ⟨hr.untouched hu trivial, rfl, rfl, rfl, rfl, Nat.le_of_eq hu.limit.symm⟩
  | pcm header payload =>
    have hu : Untouched c .selecting { c with inbox := { c.inbox with receiveQueue := queue } }
        (.pcm header payload) :=
      ⟨rfl, rfl, rfl, hr.done, hclear, rfl, rfl, by simp [underway, hand, hq]⟩
    exact ⟨hr.untouched hu trivial, rfl, rfl, rfl, rfl, Nat.le_of_eq hu.limit.symm⟩

theorem Reads.handles (hr : Reads c h input x) (hh : hand h = [.control e]) (hs : settled c.turn h = uplink c.turn) :
    staleRetiredTurnControl c.turn e = false ∧
      (handleControl c.turn e = .drawing c.turn e ∨ handleControl c.turn e = .flushing c.turn e) := by
  obtain ⟨y, hy, -⟩ := hr.absorbs hh
  rw [hs] at hy
  cases hy with
  | start hb ht hv =>
    have hbelongs : controlBelongsToDeviceSession c.turn e = true := hb
    have hvalid : validateTurnStart c.turn e = none := hv
    exact ⟨by simp [staleRetiredTurnControl, ht], .inl (by simp [handleControl, hbelongs, ht, hvalid])⟩
  | commit hb ht hv =>
    have hbelongs : controlBelongsToDeviceSession c.turn e = true := hb
    have hvalid : validateTurnCommit c.turn e = none := hv
    have hactive : c.turn.active = true := by
      by_contra hn
      simp [validateTurnCommit, Device.validateActiveEnvelope, hn] at hvalid
    exact ⟨by simp [staleRetiredTurnControl, hactive], .inr (by simp [handleControl, hbelongs, ht, hvalid])⟩

theorem drawing_start (hd : handleControl turn e = .drawing turn e) : e.type = .turnStart := by
  unfold handleControl at hd
  split at hd
  · cases hd
  split at hd
  · rename_i htype
    exact htype
  · split at hd <;> cases hd
  all_goals repeat' (first | cases hd | split at hd)

theorem validateTurnStart_inactive (hv : validateTurnStart turn e = none) : turn.active = false := by
  cases hn : turn.active with
  | false => rfl
  | true => simp [validateTurnStart, hn] at hv

theorem validateTurnCommit_open (hv : validateTurnCommit turn e = none) :
    turn.active = true ∧ turn.inputCommitted = false := by
  unfold validateTurnCommit at hv
  split at hv
  · cases hv
  rename_i henvelope
  split at hv
  · cases hv
  constructor
  · by_contra hn
    simp [Device.validateActiveEnvelope, hn] at henvelope
  · cases hn : turn.inputCommitted with
    | false => rfl
    | true => simp [Device.validateUplinkCommit, hn] at hv

theorem flushing_commit (hd : handleControl turn e = .flushing turn e) :
    e.type = .turnCommit ∧ validateTurnCommit turn e = none := by
  unfold handleControl at hd
  split at hd
  · cases hd
  split at hd
  · split at hd <;> cases hd
  · rename_i htype
    split at hd
    · cases hd
    · rename_i hv
      exact ⟨htype, hv⟩
  all_goals repeat' (first | cases hd | split at hd)

theorem flushing_open (hd : handleControl turn e = .flushing turn e) :
    turn.active = true ∧ turn.inputCommitted = false :=
  validateTurnCommit_open (flushing_commit hd).2

/-- `StartTurn` has returned. -/
theorem Reads.starts {t : ActiveTurn} {downlinkStream : Nat}
    (hr : Reads c (.starting t e downlinkStream) input x) (hn : c.actor.latest < e.epoch) :
    Reads { c with actor := { c.actor with latest := e.epoch } } (.started (t.begin e downlinkStream)) input x ∧
      Undisturbed c (.starting t e downlinkStream) { c with actor := { c.actor with latest := e.epoch } }
        (.started (t.begin e downlinkStream)) := by
  obtain ⟨rfl, hdraw, hpos, hlt⟩ := hr.place
  obtain ⟨y, hy, hrest⟩ := hr.absorbs rfl
  cases hy with
  | commit _ ht _ =>
    rw [drawing_start hdraw] at ht
    cases ht
  | start _ _ hv =>
    have hinactive : c.turn.active = false := validateTurnStart_inactive hv
    have hbefore : limit c (.starting c.turn e downlinkStream) = c.actor.latest + 1 := by
      simp [limit, settled, uplink, hinactive]
    have hafter : limit { c with actor := { c.actor with latest := e.epoch } }
        (.started (c.turn.begin e downlinkStream)) = e.epoch := by
      simp [limit, settled, uplink, ActiveTurn.begin]
    have hle : limit c (.starting c.turn e downlinkStream) ≤ limit
        { c with actor := { c.actor with latest := e.epoch } } (.started (c.turn.begin e downlinkStream)) := by
      rw [hbefore, hafter]
      exact hn
    refine ⟨⟨hr.done, hr.inbox, ⟨hinactive, rfl, inputFrameBytes_pos, rfl, rfl, ⟨hpos, hlt⟩, rfl⟩, hr.silent, ?_, hr.whole, fun _ => rfl,
      fun epoch h => Nat.lt_of_lt_of_le (hr.cancelled epoch h) hle,
      fun ha epoch h => Nat.lt_of_lt_of_le (hr.old ha epoch h) hle⟩, rfl, rfl, rfl, rfl, hle⟩
    exact hrest

theorem Reads.stores {t : ActiveTurn} (hr : Reads c (.startStore t) input x) :
    Reads (c.setTurn t) .receive input x ∧ Undisturbed c (.startStore t) (c.setTurn t) .receive := by
  obtain ⟨hinactive, hactive, hsilent⟩ := hr.place
  refine ⟨⟨hr.done, hr.inbox, trivial, fun _ => hsilent, hr.outlook, hr.whole, hr.latest, hr.cancelled, ?_⟩,
    rfl, rfl, rfl, rfl, Nat.le_refl _⟩
  intro hn
  rw [Conn.setTurn, hactive] at hn
  cases hn

theorem Reads.stops {t : ActiveTurn} (hr : Reads c (.started t) input x) :
    Reads (c.stop t.downlinkCtx) (.startStore { t with downlinkCtx := some t.epoch, active := true }) input x ∧
      Undisturbed c (.started t) (c.stop t.downlinkCtx)
        (.startStore { t with downlinkCtx := some t.epoch, active := true }) := by
  obtain ⟨hinactive, hctx, hsilent⟩ := hr.place
  have hdone : (c.stop t.downlinkCtx).done none = false := by
    simpa [Conn.done, Conn.stop] using hr.done
  refine ⟨⟨hdone, hr.inbox, ⟨hinactive, rfl, hsilent.pendingPCM, hsilent.outputSequence, hsilent.outputStarted, hsilent.downlinkStream,
    rfl⟩, hr.silent, hr.outlook, hr.whole, hr.latest, ?_, hr.old⟩, rfl, rfl, rfl, rfl, Nat.le_refl _⟩
  intro epoch hmem
  rcases List.mem_append.mp hmem with hmem | hmem
  · rw [hctx] at hmem
    exact hr.old hinactive epoch (Option.mem_toList.mp hmem)
  · exact hr.cancelled epoch hmem

theorem finalInput_length (hp : turn.pendingPCM.length < inputFrameBytes) :
    (finalInput turn).length = inputFrameBytes := by
  rw [finalInput, List.length_append, List.length_replicate]
  omega

/-- The last frame has been padded and appended, or there was nothing to append. -/
theorem Reads.flushes {t : ActiveTurn} (hr : Reads c (.flushing t e) input x) (last : List (List UInt8))
    (hl : last.flatten = if t.pendingPCM = [] then [] else finalInput t)
    (hw : ∀ frame ∈ last, frame.length = inputFrameBytes) :
    Reads c (.commitStore { t with pendingPCM := [] } e) (input ++ last) x ∧
      Undisturbed c (.flushing t e) c (.commitStore { t with pendingPCM := [] } e) := by
  obtain ⟨rfl, hflush⟩ := hr.place
  obtain ⟨y, hy, hrest⟩ := hr.absorbs rfl
  obtain ⟨hactive, huncommitted⟩ := flushing_open hflush
  cases hy with
  | start _ ht _ =>
    rw [(flushing_commit hflush).1] at ht
    cases ht
  | commit =>
    have hlimit : limit c (.flushing c.turn e) = limit c (.commitStore { c.turn with pendingPCM := [] } e) :=
      rfl
    refine ⟨⟨hr.done, hr.inbox, ⟨hactive, huncommitted, rfl⟩, hr.silent, ?_, ?_, hr.latest, ?_, ?_⟩,
      rfl, rfl, rfl, rfl, Nat.le_of_eq hlimit⟩
    · simp only [held, List.append_nil] at hrest
      rw [Dialogue.outlook, List.flatten_append, hl]
      simp only [held, List.append_nil]
      exact hrest
    · intro frame hframe
      exact (List.mem_append.mp hframe).elim (hr.whole frame) (hw frame)
    · rw [← hlimit]
      exact hr.cancelled
    · rw [← hlimit]
      exact hr.old

theorem Reads.commits {t : ActiveTurn} (hr : Reads c (.commitStore t e) input x) :
    Reads { c with
        turn := { t with inputCommitted := true }
        actor := { c.actor with committed := t.epoch :: c.actor.committed } }
      (.committing { t with inputCommitted := true } e) input x ∧
      Undisturbed c (.commitStore t e) { c with
          turn := { t with inputCommitted := true }
          actor := { c.actor with committed := t.epoch :: c.actor.committed } }
        (.committing { t with inputCommitted := true } e) := by
  obtain ⟨hactive, -, rfl⟩ := hr.place
  have hsilent := hr.silent hactive
  refine ⟨⟨hr.done, hr.inbox, trivial, fun _ => ?_, hr.outlook, hr.whole, hr.latest, hr.cancelled, ?_⟩,
    rfl, rfl, rfl, rfl, Nat.le_refl _⟩
  · exact ⟨inputFrameBytes_pos, hsilent.outputSequence, hsilent.outputStarted, hsilent.downlinkStream,
      hsilent.downlinkCtx⟩
  · intro hn
    dsimp only at hn
    rw [hactive] at hn
    cases hn

theorem wholeBytes_le : wholeBytes turn payload ≤ (turn.pendingPCM ++ payload).length :=
  Nat.div_mul_le_self _ _

theorem heard_short : (heard turn header payload).pendingPCM.length < inputFrameBytes := by
  rw [heard, List.length_drop, wholeBytes, Nat.mul_comm, ← Nat.mod_eq_sub_mul_div]
  exact Nat.mod_lt _ inputFrameBytes_pos

theorem Reads.accepts (hr : Reads c (.handlingPCM header payload) input x) :
    acceptPCM c.turn header payload =
        .ok (heard c.turn header payload, (c.turn.pendingPCM ++ payload).take (wholeBytes c.turn payload)) ∧
      Reads (c.setTurn (heard c.turn header payload))
        (.appending header c.turn.epoch ((c.turn.pendingPCM ++ payload).take (wholeBytes c.turn payload))) input x ∧
      Undisturbed c (.handlingPCM header payload) (c.setTurn (heard c.turn header payload))
        (.appending header c.turn.epoch ((c.turn.pendingPCM ++ payload).take (wholeBytes c.turn payload))) := by
  obtain ⟨y, hy, hrest⟩ := hr.absorbs rfl
  cases hy with
  | pcm hn =>
    have hnext : NextFrame c.turn header := next_uplink.mp hn
    have hsilent := hr.silent hnext.active
    have hlen : ((c.turn.pendingPCM ++ payload).take (wholeBytes c.turn payload)).length % inputFrameBytes = 0 := by
      rw [List.length_take, Nat.min_eq_left wholeBytes_le, wholeBytes, Nat.mul_mod_left]
    refine ⟨acceptPCM_next hnext, ⟨hr.done, hr.inbox, ⟨hnext.active, hnext.uncommitted, hlen⟩, fun _ => ?_, ?_,
      hr.whole, hr.latest, hr.cancelled, ?_⟩, rfl, rfl, rfl, rfl, Nat.le_refl _⟩
    · exact ⟨heard_short, hsilent.outputSequence, hsilent.outputStarted, hsilent.downlinkStream,
        hsilent.downlinkCtx⟩
    · simp only [held, List.append_nil] at hrest
      exact hrest
    · intro ha
      have hactive : c.turn.active = false := ha
      rw [hnext.active] at hactive
      cases hactive

theorem Reads.hands {epoch : Nat} {completePCM : List UInt8}
    (hr : Reads c (.appending header epoch completePCM) input x) (hne : completePCM ≠ []) :
    Reads c (.appending header epoch (completePCM.drop inputFrameBytes))
        (input ++ [completePCM.take inputFrameBytes]) x ∧
      Undisturbed c (.appending header epoch completePCM) c
        (.appending header epoch (completePCM.drop inputFrameBytes)) := by
  obtain ⟨hactive, huncommitted, hlen⟩ := hr.place
  have hle : inputFrameBytes ≤ completePCM.length := by
    have hpos : 0 < completePCM.length := List.length_pos_iff.mpr hne
    exact Nat.le_of_dvd hpos (Nat.dvd_of_mod_eq_zero hlen)
  refine ⟨⟨hr.done, hr.inbox, ⟨hactive, huncommitted, ?_⟩, hr.silent, ?_, ?_, hr.latest, hr.cancelled, hr.old⟩,
    .refl _ _ rfl⟩
  · rw [List.length_drop]
    exact Nat.sub_mod_eq_zero_of_mod_eq (hlen.trans (Nat.mod_self _).symm)
  · have ho := hr.outlook
    simp only [Dialogue.outlook, settled, underway, hand, held, List.flatten_append, List.append_assoc] at ho ⊢
    simpa using ho
  · intro frame hframe
    rcases List.mem_append.mp hframe with hframe | hframe
    · exact hr.whole frame hframe
    · rw [List.mem_singleton.mp hframe, List.length_take, Nat.min_eq_left hle]

theorem Reads.reader {l : HandleLabel} {r : Conn × HandleAt} (hr : Reads c h input x)
    (hl : ∀ err, l ≠ .returns (some err)) (hs : handleStep c h l = some r) :
    Reads r.1 r.2 (input ++ appends h l) x ∧ Undisturbed c h r.1 r.2 := by
  cases h with
  | receive =>
    cases l <;> simp only [handleStep, reduceCtorEq] at hs
    have hclosed : c.closed = false := by
      have hd := hr.done
      simp only [Conn.done, Bool.decide_or, Bool.or_eq_false_iff, decide_eq_false_iff_not] at hd
      simpa using hd.1
    rw [if_neg (by simp [hclosed]), Device.takeCongestion, hr.inbox.congestion] at hs
    cases hs
    simp only [appends, List.append_nil]
    exact hr.place_only trivial rfl rfl rfl
  | selecting =>
    cases l <;> simp only [handleStep, reduceCtorEq] at hs
    · rw [Device.takeCongestion, hr.inbox.congestion] at hs
      cases hs
    · simp only [appends, List.append_nil]
      exact hr.message hs
    · rw [if_neg (by simp [hr.done])] at hs
      cases hs
  | control e =>
    cases l <;> simp only [handleStep, reduceCtorEq, Option.some.injEq] at hs
    subst hs
    simp only [appends, List.append_nil]
    rw [if_neg (by simp [(hr.handles rfl rfl).1])]
    exact hr.place_only trivial rfl rfl rfl
  | handling e =>
    cases l <;> simp only [handleStep, reduceCtorEq, Option.some.injEq] at hs
    subst hs
    simp only [appends, List.append_nil]
    rcases (hr.handles rfl rfl).2 with hcontrol | hcontrol
    · rw [hcontrol]
      exact hr.place_only ⟨rfl, hcontrol⟩ rfl rfl rfl
    · rw [hcontrol]
      exact hr.place_only ⟨rfl, hcontrol⟩ rfl rfl rfl
  | drawing t e =>
    cases l <;> simp only [handleStep, reduceCtorEq] at hs
    split at hs
    · rename_i hrandom
      cases hs
      obtain ⟨rfl, hcontrol⟩ := hr.place
      simp only [appends, List.append_nil]
      exact hr.place_only ⟨rfl, hcontrol, hrandom⟩ rfl rfl rfl
    · cases hs
  | starting t e downlinkStream =>
    cases l with
    | returns result =>
      cases result with
      | some err => exact absurd rfl (hl err)
      | none =>
        simp only [handleStep] at hs
        split at hs
        · rename_i hn
          cases hs
          simp only [appends, List.append_nil]
          exact hr.starts hn
        · cases hs
    | _ => simp only [handleStep, reduceCtorEq] at hs
  | started t =>
    cases l <;> simp only [handleStep, reduceCtorEq, Option.some.injEq] at hs
    subst hs
    simp only [appends, List.append_nil]
    exact hr.stops
  | startStore t =>
    cases l <;> simp only [handleStep, reduceCtorEq, Option.some.injEq] at hs
    subst hs
    simp only [appends, List.append_nil]
    exact hr.stores
  | flushing t e =>
    cases l with
    | next =>
      simp only [handleStep] at hs
      split at hs
      · rename_i hp
        cases hs
        have hflushed := hr.flushes [] (by simp [hp]) (by simp)
        rwa [show ({ t with pendingPCM := [] } : ActiveTurn) = t by rw [← hp]] at hflushed
      · cases hs
    | returns result =>
      cases result with
      | some err => exact absurd rfl (hl err)
      | none =>
        simp only [handleStep] at hs
        split at hs
        · cases hs
        · rename_i hp
          cases hs
          rw [appends, if_neg hp]
          obtain ⟨rfl, hflush⟩ := hr.place
          have hactive : c.turn.active = true := (flushing_open hflush).1
          refine hr.flushes [finalInput c.turn] (by simp [hp]) fun frame hframe => ?_
          rw [List.mem_singleton.mp hframe]
          exact finalInput_length (hr.silent hactive).pendingPCM
    | _ => simp only [handleStep, reduceCtorEq] at hs
  | commitStore t e =>
    cases l <;> simp only [handleStep, reduceCtorEq, Option.some.injEq] at hs
    subst hs
    simp only [appends, List.append_nil]
    exact hr.commits
  | committing t e =>
    cases l with
    | returns result =>
      cases result with
      | some err => exact absurd rfl (hl err)
      | none =>
        simp only [handleStep, Option.some.injEq] at hs
        subst hs
        simp only [appends, List.append_nil]
        exact hr.place_only trivial rfl rfl rfl
    | _ => simp only [handleStep, reduceCtorEq] at hs
  | pcm header payload =>
    cases l <;> simp only [handleStep, reduceCtorEq, Option.some.injEq] at hs
    subst hs
    obtain ⟨y, hy, -⟩ := hr.absorbs rfl
    cases hy with
    | pcm hn =>
      have hactive : c.turn.active = true := (next_uplink.mp hn).active
      simp only [appends, List.append_nil]
      rw [if_neg (by simp [pcmBelongsToRetiredTurn, hactive])]
      exact hr.place_only trivial rfl rfl rfl
  | handlingPCM header payload =>
    cases l <;> simp only [handleStep, reduceCtorEq, Option.some.injEq] at hs
    subst hs
    obtain ⟨haccept, haccepts⟩ := hr.accepts
    simp only [appends, List.append_nil]
    rw [haccept]
    exact haccepts
  | appending header epoch completePCM =>
    cases l with
    | returns result =>
      cases result with
      | some err => exact absurd rfl (hl err)
      | none =>
        simp only [handleStep] at hs
        split at hs
        · cases hs
        · rename_i hne
          cases hs
          rw [appends, if_neg hne]
          exact hr.hands hne
    | next =>
      cases completePCM <;> simp only [handleStep, reduceCtorEq, Option.some.injEq] at hs
      subst hs
      simp only [appends, List.append_nil]
      exact hr.place_only trivial rfl rfl rfl
    | _ => simp only [handleStep, reduceCtorEq] at hs
  | _ => exact hr.place.elim

-- ---------------------------------------------------------------------------
-- Nothing underway
-- ---------------------------------------------------------------------------

def waits : HandleAt → Bool
  | .receive | .selecting | .committing .. => true
  | _ => false

theorem Absorbs.active {m : Message} (ha : Absorbs x m y) : y.turn.active = true := by
  cases ha with
  | start => rfl
  | commit _ _ hv => exact (validateTurnCommit_open hv).1
  | pcm hn => exact hn.active

theorem Absorbs.uncommitted {m : Message} (ha : Absorbs x m y) (hx : x.turn.active = true) :
    x.turn.inputCommitted = false := by
  cases ha with
  | start _ _ hv =>
    rw [validateTurnStart_inactive hv] at hx
    cases hx
  | commit _ _ hv => exact (validateTurnCommit_open hv).2
  | pcm hn => exact hn.uncommitted

theorem foldlM_active {ms : List Message} (hf : ms.foldlM absorb x = some y) (hy : y.turn.active = false) :
    ms = [] ∧ y = x := by
  induction ms generalizing x with
  | nil => exact ⟨rfl, (Option.some.inj hf).symm⟩
  | cons m ms ih =>
    rw [List.foldlM_cons] at hf
    obtain ⟨z, hz, hrest⟩ := Option.bind_eq_some_iff.mp hf
    obtain ⟨-, rfl⟩ := ih hrest
    rw [(absorb_iff.mp hz).active] at hy
    cases hy

theorem foldlM_committed {ms : List Message} (hf : ms.foldlM absorb x = some y) (ha : x.turn.active = true)
    (hx : x.turn.inputCommitted = true) : ms = [] ∧ y = x := by
  cases ms with
  | nil => exact ⟨rfl, (Option.some.inj hf).symm⟩
  | cons m ms =>
    rw [List.foldlM_cons] at hf
    obtain ⟨z, hz, -⟩ := Option.bind_eq_some_iff.mp hf
    rw [(absorb_iff.mp hz).uncommitted ha] at hx
    cases hx

structure Still (c : Conn) (h : HandleAt) : Prop where
  place : waits h = true
  receiveQueue : c.inbox.receiveQueue = []
  wire : c.inbox.wire = []

theorem still_of_underway (hw : waits h = true) (hu : underway c h = []) : Still c h := by
  obtain ⟨hfront, hwire⟩ := List.append_eq_nil_iff.mp hu
  exact ⟨hw, (List.append_eq_nil_iff.mp hfront).2, hwire⟩

theorem Still.settled (hs : Still c h) : settled c.turn h = uplink c.turn := by
  have hw := hs.place
  cases h with
  | receive | selecting | committing => rfl
  | _ => cases hw

theorem Still.underway (hs : Still c h) : underway c h = [] := by
  have hw := hs.place
  cases h with
  | receive | selecting | committing => simp [Dialogue.underway, hand, hs.receiveQueue, hs.wire]
  | _ => cases hw

theorem Still.held (hs : Still c h) : held h = [] := by
  have hw := hs.place
  cases h with
  | receive | selecting | committing => rfl
  | _ => cases hw

theorem Reads.resting (hr : Reads c h input x) (hx : x.turn.active = false) :
    Still c h ∧ x = { turn := uplink c.turn, bytes := input.flatten } := by
  obtain ⟨hunder, heq⟩ := foldlM_active hr.outlook hx
  have hsettled : (settled c.turn h).active = false := by
    rw [heq] at hx
    exact hx
  have hplace := hr.place
  cases h with
  | receive | selecting | committing =>
    exact ⟨still_of_underway rfl hunder, by simp [heq, settled, held]⟩
  | started | startStore =>
    first
      | cases hsettled
      | rw [settled, uplink, hplace.2.1] at hsettled
        cases hsettled
  | commitStore =>
    obtain ⟨hactive, -, rfl⟩ := hplace
    rw [settled, uplink, hactive] at hsettled
    cases hsettled
  | appending =>
    have hactive : c.turn.active = false := hsettled
    rw [hplace.1] at hactive
    cases hactive
  | control | handling | drawing | starting | flushing | pcm | handlingPCM => cases hunder
  | _ => exact hplace.elim

theorem Reads.committed (hr : Reads c h input x) (ha : c.turn.active = true) (hc : c.turn.inputCommitted = true) :
    Still c h ∧ x = { turn := uplink c.turn, bytes := input.flatten } := by
  have hplace := hr.place
  have hnone (hs : settled c.turn h = uplink c.turn) := foldlM_committed hr.outlook
    (by rw [hs]; exact ha) (by rw [hs]; exact hc)
  cases h with
  | receive | selecting | committing =>
    obtain ⟨hunder, heq⟩ := hnone rfl
    exact ⟨still_of_underway rfl hunder, by simp [heq, settled, held]⟩
  | started | startStore =>
    have hinactive := hplace.1
    rw [ha] at hinactive
    cases hinactive
  | commitStore | appending =>
    have huncommitted := hplace.2.1
    rw [hc] at huncommitted
    cases huncommitted
  | control | handling | drawing | starting | flushing | pcm | handlingPCM => cases (hnone rfl).1
  | _ => exact hplace.elim

theorem Still.reader {l : HandleLabel} {r : Conn × HandleAt} (hs : Still c h) (hi : Clear c.inbox)
    (hd : c.done none = false) (hl : ∀ err, l ≠ .returns (some err)) (hr : handleStep c h l = some r) :
    r.1 = c ∧ waits r.2 = true ∧ appends h l = [] := by
  have hw := hs.place
  cases h with
  | receive =>
    cases l <;> simp only [handleStep, reduceCtorEq] at hr
    have hclosed : c.closed = false := by
      simp only [Conn.done, Bool.decide_or, Bool.or_eq_false_iff, decide_eq_false_iff_not] at hd
      simpa using hd.1
    rw [if_neg (by simp [hclosed]), Device.takeCongestion, hi.congestion] at hr
    cases hr
    simp [waits, appends]
  | selecting =>
    cases l <;> simp only [handleStep, reduceCtorEq] at hr
    · rw [Device.takeCongestion, hi.congestion] at hr
      cases hr
    · rw [Device.take, hs.receiveQueue] at hr
      cases hr
    · rw [if_neg (by simp [hd])] at hr
      cases hr
  | committing =>
    cases l with
    | returns result =>
      cases result with
      | some err => exact absurd rfl (hl err)
      | none =>
        cases hr
        simp [waits, appends]
    | _ => simp only [handleStep, reduceCtorEq] at hr
  | _ => cases hw

end BoomPI.Dialogue
