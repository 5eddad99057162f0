import BoomPI.Server.Device.Downlink
import BoomPI.Server.Session.Moves

/-!
# Any answer

What the actor accepts for a turn need not be a response as the forwarder wants it:
the events come in any order, with any audio. Up to the first one it gives up on, the
forwarder does what it does with a response of the same deltas.
-/

namespace BoomPI.Device

open Backend (Error EventType ConversationEvent)
open Protocol
open Transport (SendAt SendLabel enqueue)
open BoomPI.Session (Event ActorState AcceptCase accept_case)

-- ---------------------------------------------------------------------------
-- The events
-- ---------------------------------------------------------------------------

/-- What the actor writes for a turn, of whatever the provider emits. -/
def acceptAll : ActorState → List ConversationEvent → List Event
  | _, [] => []
  | state, raw :: raws =>
    (Session.accept raw state).1.toList ++ acceptAll (Session.accept raw state).2 raws

/-- Events of one response, none of them behind its end. -/
structure Accepted (epoch : Nat) (r : GoString) (script : List Event) : Prop where
  epoch : ∀ e ∈ script, e.epoch = epoch
  valid : ∀ e ∈ script, Session.validProviderEvent e.raw = none
  responseID : ∀ e ∈ script, e.raw.type ≠ .error → e.raw.responseID = r
  last : script.Pairwise fun e _ => e.raw.type.terminal = false

/-- The event belongs to a response that `forwardEvents` goes on with. -/
def goesOn (started : Bool) (e : Event) : Bool :=
  match e.raw.type with
  | .started => ! started
  | .textDelta | .done => started
  | .audio => started && (validateProviderAudio e.raw.sampleRateHz e.raw.pcm).isNone
  | .error | .unknown _ => false

def takenFrom (started : Bool) : List Event → List Event
  | [] => []
  | e :: script => if goesOn started e then e :: takenFrom true script else []

/-- The events before the first one that ends it or that it gives up on. -/
def taken (script : List Event) : List Event := takenFrom false script

def scriptTexts (script : List Event) : List GoString :=
  script.filterMap fun e => if e.raw.type = .textDelta then some e.raw.text else none

-- ---------------------------------------------------------------------------
-- The machine
-- ---------------------------------------------------------------------------

/-- The forwarder at the head of its loop, with these events to come. -/
def answering (c : Conn) (script : List Event) : Lts.Machine Response ResponseLabel where
  Init s := s = { conn := c, script, before := c.sent.length }
  step := Response.step

/-- `forwardEvents` has returned, or nothing is left for it. -/
def Response.over (s : Response) : Bool :=
  match s.forward with
  | .exited _ => true
  | f => ! f.holds ∧ s.conn.actor.events = [] ∧ s.script = []

structure ErrorReport (turn : ActiveTurn) (reply : Reply) : Prop where
  body : reply.body = .error "provider_error" "AI provider request failed" .provider
  deviceID : reply.deviceID = turn.deviceID
  sessionID : reply.sessionID = turn.sessionID
  turnID : reply.turnID = turn.turnID
  streamID : reply.streamID = turn.downlinkStream
  epoch : reply.epoch = turn.epoch

/-- The messages of a response with these texts, perhaps with a provider's error behind them. -/
structure Answered (turn : ActiveTurn) (r : GoString) (texts : List GoString) (out : List Outbound) (h : Heard) :
    Prop where
  heard : ∃ said, hears turn r said = some h ∧
    (out = said ∨ ∃ reply, out = said ++ [.control reply] ∧ ErrorReport turn reply)
  told : ∀ text ∈ h.texts, text ∈ texts

-- ---------------------------------------------------------------------------
-- What the actor accepts
-- ---------------------------------------------------------------------------

variable {c c₀ : Conn} {p : PacedDownlink} {f : ForwardAt} {l : ForwardLabel} {script tail rest dn : List Event}
  {turn t : ActiveTurn} {e : Event} {x : Forwarded} {s s' : Response} {deltas : List Delta} {r : GoString}
  {h : Heard} {stage : Stage} {doneAt : Option (List UInt8)} {epoch : Nat} {started : Bool} {state : ActorState}

theorem acceptAll_idle (hi : state.phase.responding = false) (raws : List ConversationEvent) :
    acceptAll state raws = [] := by
  induction raws with
  | nil => rfl
  | cons raw raws ih =>
    have hnone : Session.accept raw state = (none, state) := by simp [Session.accept, hi]
    rw [acceptAll, hnone]
    exact ih

theorem Accepted.single {raw : ConversationEvent} (hv : Session.validProviderEvent raw = none)
    (hid : raw.type ≠ .error → raw.responseID = r) : Accepted epoch r [{ epoch, raw }] := by
  refine ⟨?_, ?_, ?_, List.pairwise_singleton _ _⟩
  · exact List.forall_mem_singleton.mpr rfl
  · exact List.forall_mem_singleton.mpr hv
  · exact List.forall_mem_singleton.mpr hid

theorem Accepted.cons {raw : ConversationEvent} (h : Accepted epoch r script)
    (hv : Session.validProviderEvent raw = none) (hid : raw.responseID = r) (ht : raw.type.terminal = false) :
    Accepted epoch r ({ epoch, raw } :: script) := by
  refine ⟨?_, ?_, ?_, List.pairwise_cons.mpr ⟨fun _ _ => ht, h.last⟩⟩
  · exact List.forall_mem_cons.mpr ⟨rfl, h.epoch⟩
  · exact List.forall_mem_cons.mpr ⟨hv, h.valid⟩
  · exact List.forall_mem_cons.mpr ⟨fun _ => hid, h.responseID⟩

theorem nil_of_terminal (h : (e :: script).Pairwise fun e _ => e.raw.type.terminal = false)
    (ht : e.raw.type.terminal = true) : script = [] := by
  apply List.eq_nil_iff_forall_not_mem.mpr
  intro behind hmem
  have hopen := (List.pairwise_cons.mp h).1 behind hmem
  rw [ht] at hopen
  cases hopen

theorem Accepted.behind (h : Accepted epoch r (e :: script)) : Accepted epoch r script where
  epoch event hmem := h.epoch event (List.mem_cons_of_mem _ hmem)
  valid event hmem := h.valid event (List.mem_cons_of_mem _ hmem)
  responseID event hmem := h.responseID event (List.mem_cons_of_mem _ hmem)
  last := (List.pairwise_cons.mp h.last).2

theorem acceptAll_named (raws : List ConversationEvent) (hr : state.phase.responding = true)
    (hid : state.responseID ≠ "") : Accepted state.epoch state.responseID (acceptAll state raws) := by
  induction raws generalizing state with
  | nil => constructor <;> simp [acceptAll]
  | cons raw raws ih =>
    have hcase := accept_case raw state
    rw [acceptAll]
    generalize Session.accept raw state = accepted at hcase ⊢
    cases hcase with
    | ignored hn => simp [hr] at hn
    | foreign => exact ih hr hid
    | invalid =>
      rw [acceptAll_idle rfl, List.append_nil]
      exact .single rfl fun hne => absurd rfl hne
    | ended _ hv hraw ht =>
      rw [acceptAll_idle rfl, List.append_nil]
      refine .single hv fun hne => ?_
      have hdone : raw.responseID ≠ "" := by
        cases htype : raw.type <;> simp_all [Session.validProviderEvent, EventType.terminal]
      exact (hraw.resolve_left hid).resolve_left hdone
    | @accepted id phase _ hv hraw ht hp =>
      obtain ⟨-, rfl, hsame⟩ := hraw.resolve_left fun h => hid h.1
      change Accepted _ _ ({ epoch := state.epoch, raw } :: acceptAll _ raws)
      exact (@ih { state with phase } hp hid).cons hv (hsame.resolve_left (Session.validProviderEvent_id hv ht)) ht

theorem acceptAll_accepted (raws : List ConversationEvent) (hr : state.phase.responding = true) :
    ∃ r, Accepted state.epoch r (acceptAll state raws) := by
  by_cases hid : state.responseID = ""
  · induction raws with
    | nil => exact ⟨"", by constructor <;> simp [acceptAll]⟩
    | cons raw raws ih =>
      have hcase := accept_case raw state
      rw [acceptAll]
      generalize Session.accept raw state = accepted at hcase ⊢
      cases hcase with
      | ignored hn => simp [hr] at hn
      | foreign _ _ hne => exact absurd hid hne
      | invalid =>
        rw [acceptAll_idle rfl, List.append_nil]
        exact ⟨"", .single rfl fun hne => absurd rfl hne⟩
      | ended _ hv =>
        rw [acceptAll_idle rfl, List.append_nil]
        exact ⟨raw.responseID, .single hv fun _ => rfl⟩
      | @accepted id phase _ hv hraw ht hp =>
        obtain ⟨-, rfl⟩ := hraw.resolve_right fun h => h.1 hid
        have hne := Session.validProviderEvent_id hv ht
        refine ⟨raw.responseID, ?_⟩
        change Accepted _ _ ({ epoch := state.epoch, raw } :: acceptAll _ raws)
        exact (@acceptAll_named { state with phase, responseID := raw.responseID } raws hp hne).cons hv rfl ht
  · exact ⟨_, acceptAll_named raws hr hid⟩

-- ---------------------------------------------------------------------------
-- The response in it
-- ---------------------------------------------------------------------------

/-- The event without the fields `forwardEvents` does not read. -/
def plain (e : Event) : Event :=
  match e.raw.type with
  | .started | .done => { e with raw := { type := e.raw.type, responseID := e.raw.responseID } }
  | .textDelta =>
    { e with raw := { type := e.raw.type, responseID := e.raw.responseID, text := e.raw.text } }
  | .audio => { e with raw :=
      { type := e.raw.type, responseID := e.raw.responseID, sampleRateHz := e.raw.sampleRateHz, pcm := e.raw.pcm } }
  | .error | .unknown _ => { e with raw := { type := e.raw.type } }

theorem plain_epoch : (plain e).epoch = e.epoch := by
  unfold plain
  split <;> rfl

theorem plain_type : (plain e).raw.type = e.raw.type := by
  unfold plain
  split <;> rfl

/-- What the script has of the response: `deltas`, with `dn` missing of its events, and `tail` behind. -/
structure Splits (epoch : Nat) (r : GoString) (script tail dn : List Event) (deltas : List Delta) : Prop where
  whole : taken script ++ tail = script
  events : (taken script).map plain ++ dn = responseEvents epoch r deltas
  valid : ∀ d ∈ deltas, d.valid = true
  texts : textsOf deltas = scriptTexts (taken script)
  missing : dn = [] ∧ tail = [] ∨ taken script ≠ [] ∧ dn = [doneEvent epoch r] ∨
    taken script = [] ∧ dn = responseEvents epoch r []
  untaken : ∀ e ∈ tail.head?, goesOn (decide (taken script ≠ [])) e = false

/-- Where nothing is missing, nothing is behind. -/
theorem Splits.ends (hsp : Splits epoch r script tail [] deltas) : tail = [] := by
  rcases hsp.missing with ⟨-, hnone⟩ | ⟨-, hdone⟩ | ⟨-, hevents⟩
  · exact hnone
  · cases hdone
  · cases hevents

theorem validateProviderAudio_none {sampleRateHz : Int} {pcm : List UInt8}
    (h : validateProviderAudio sampleRateHz pcm = none) :
    sampleRateHz = outputSampleRateHz ∧ (Delta.audio pcm).valid = true := by
  rw [validateProviderAudio, ite_eq_right_iff] at h
  simp only [reduceCtorEq, imp_false, not_or, Decidable.not_not, Nat.not_lt] at h
  exact ⟨h.1, by simpa [Delta.valid] using h.2⟩

/-- What a response goes on with is one of its deltas, or its end. -/
theorem exists_delta (hgo : goesOn true e = true) (hepoch : e.epoch = epoch)
    (hid : e.raw.type ≠ .error → e.raw.responseID = r) (hd : e.raw.type ≠ .done) :
    ∃ d : Delta, d.valid = true ∧ plain e = d.event epoch r ∧ textsOf [d] = scriptTexts [e] := by
  cases htype : e.raw.type with
  | started | error | unknown => simp [goesOn, htype] at hgo
  | textDelta =>
    refine ⟨.text e.raw.text, rfl, ?_, ?_⟩
    · simp [plain, htype, Delta.event, hepoch, hid (by simp [htype])]
    · simp [textsOf, scriptTexts, Delta.text?, htype]
  | audio =>
    simp only [goesOn, htype, Bool.true_and, Option.isNone_iff_eq_none] at hgo
    obtain ⟨hrate, hvalid⟩ := validateProviderAudio_none hgo
    refine ⟨.audio e.raw.pcm, hvalid, ?_, ?_⟩
    · simp [plain, htype, Delta.event, hepoch, hid (by simp [htype]), hrate]
    · simp [textsOf, scriptTexts, Delta.text?, htype]
  | done => exact absurd htype hd

theorem takenFrom_true (hacc : Accepted epoch r script) : ∃ deltas tail dn, takenFrom true script ++ tail = script ∧
    (takenFrom true script).map plain ++ dn = deltas.map (Delta.event epoch r) ++ [doneEvent epoch r] ∧
    (∀ d ∈ deltas, d.valid = true) ∧ textsOf deltas = scriptTexts (takenFrom true script) ∧
    (dn = [] ∧ tail = [] ∨ dn = [doneEvent epoch r]) ∧ ∀ e ∈ tail.head?, goesOn true e = false := by
  induction script with
  | nil => exact ⟨[], [], [doneEvent epoch r], rfl, rfl, nofun, rfl, .inr rfl, nofun⟩
  | cons e script ih =>
    have hepoch := hacc.epoch e List.mem_cons_self
    have hid := hacc.responseID e List.mem_cons_self
    cases hgo : goesOn true e with
    | false =>
      rw [takenFrom, hgo]
      exact ⟨[], e :: script, [doneEvent epoch r], rfl, rfl, nofun, rfl, .inr rfl, by simpa using hgo⟩
    | true =>
      rw [takenFrom, hgo, if_pos rfl]
      obtain ⟨deltas, tail, dn, hscript, hevents, hvalid, htexts, hmissing, huntaken⟩ := ih hacc.behind
      by_cases htype : e.raw.type = .done
      · -- nothing is behind Done
        obtain rfl := nil_of_terminal hacc.last (by rw [htype]; rfl)
        have hplain : plain e = doneEvent epoch r := by
          simp [plain, htype, doneEvent, hepoch, hid (by simp [htype])]
        refine ⟨[], [], [], rfl, ?_, nofun, ?_, .inl ⟨rfl, rfl⟩, nofun⟩
        · simp [takenFrom, hplain]
        · simp [takenFrom, textsOf, scriptTexts, htype]
      · obtain ⟨d, hd, hplain, htext⟩ := exists_delta hgo hepoch hid htype
        refine ⟨d :: deltas, tail, dn, ?_, ?_, ?_, ?_, hmissing, huntaken⟩
        · rw [List.cons_append, hscript]
        · rw [List.map_cons, List.cons_append, hevents, hplain]
          rfl
        · exact List.forall_mem_cons.mpr ⟨hd, hvalid⟩
        · calc
            textsOf (d :: deltas) = textsOf [d] ++ textsOf deltas := List.filterMap_append (l := [d])
            _ = scriptTexts [e] ++ scriptTexts (takenFrom true script) := by rw [htext, htexts]
            _ = scriptTexts (e :: takenFrom true script) := (List.filterMap_append (l := [e])).symm

theorem exists_splits (hacc : Accepted epoch r script) (r' : GoString) (hr : taken script ≠ [] → r' = r) :
    ∃ tail dn deltas, Splits epoch r' script tail dn deltas := by
  cases script with
  | nil => exact ⟨[], responseEvents epoch r' [], [], rfl, rfl, nofun, rfl, .inr (.inr ⟨rfl, rfl⟩), nofun⟩
  | cons e script =>
    cases hgo : goesOn false e with
    | false =>
      have hnone : taken (e :: script) = [] := by rw [taken, takenFrom, hgo]; rfl
      refine ⟨e :: script, responseEvents epoch r' [], [], ?_, ?_, nofun, ?_, .inr (.inr ⟨hnone, rfl⟩), ?_⟩
      · rw [hnone]
        rfl
      · rw [hnone]
        rfl
      · rw [hnone]
        rfl
      · simpa [hnone] using hgo
    | true =>
      have htaken : taken (e :: script) = e :: takenFrom true script := by rw [taken, takenFrom, hgo]; rfl
      have hsome : taken (e :: script) ≠ [] := by rw [htaken]; nofun
      obtain rfl := hr hsome
      have htype : e.raw.type = .started := by
        cases htype : e.raw.type <;> simp_all [goesOn]
      obtain ⟨deltas, tail, dn, hscript, hevents, hvalid, htexts, hmissing, huntaken⟩ := takenFrom_true hacc.behind
      have hplain : plain e = startedEvent epoch r' := by
        simp [plain, htype, startedEvent, hacc.epoch e List.mem_cons_self,
          hacc.responseID e List.mem_cons_self (by simp [htype])]
      refine ⟨tail, dn, deltas, ?_, ?_, hvalid, ?_, ?_, ?_⟩
      · rw [htaken, List.cons_append, hscript]
      · rw [htaken, List.map_cons, List.cons_append, hevents, hplain]
        rfl
      · rw [htaken, htexts]
        simp [scriptTexts, htype]
      · exact hmissing.imp_right fun h => .inl ⟨hsome, h⟩
      · simpa [hsome] using huntaken

-- ---------------------------------------------------------------------------
-- One step of the forwarder
-- ---------------------------------------------------------------------------

/-- The connection with other events in the actor's channel. -/
def Conn.withEvents (c : Conn) (events : List Event) : Conn := { c with actor := { c.actor with events } }

def ForwardAt.plain : ForwardAt → ForwardAt
  | .received e => .received (Device.plain e)
  | .audio turn e => .audio turn (Device.plain e)
  | f => f

def Forwarded.plain (x : Forwarded) (events : List Event) : Forwarded := (x.1.withEvents events, x.2.1, x.2.2.plain)

variable {events : List Event}

theorem forwardEvent_plain : forwardEvent (c.withEvents events) p turn (plain e) =
    Forwarded.plain (forwardEvent c p turn e) events := by
  cases htype : e.raw.type with
  | audio =>
    simp only [forwardEvent, plain_type, htype]
    have hrate : (plain e).raw.sampleRateHz = e.raw.sampleRateHz := by simp [plain, htype]
    have hpcm : (plain e).raw.pcm = e.raw.pcm := by simp [plain, htype]
    have hid : (plain e).raw.responseID = e.raw.responseID := by simp [plain, htype]
    rw [hrate, hpcm, hid]
    repeat' split
    all_goals rfl
  | started | textDelta | done =>
    simp only [forwardEvent, plain, htype]
    split <;> rfl
  | error | unknown =>
    simp only [forwardEvent, plain, htype]
    rfl

theorem forwardAudio_plain (ht : e.raw.type = .audio) : forwardAudio (c.withEvents events) p turn (plain e) =
    Forwarded.plain (forwardAudio c p turn e) events := by
  have hturn : (c.withEvents events).turn = c.turn := rfl
  simp only [forwardAudio, plain, ht, hturn]
  repeat' split
  all_goals rfl

theorem forwardStep_plain (hf : ∀ turn e, f = .audio turn e → e.raw.type = .audio) (hl : l ≠ .event)
    (hc : l ≠ .closed) : forwardStep (c.withEvents events) p f.plain l =
      (forwardStep c p f l).map fun x => Forwarded.plain x events := by
  have hturn : (c.withEvents events).turn = c.turn := rfl
  have hdone : ∀ ctx, (c.withEvents events).done ctx = c.done ctx := fun ctx => rfl
  have hnow : (c.withEvents events).now = c.now := rfl
  have hroom : (c.withEvents events).room = c.room := rfl
  cases f <;> cases l <;> first | rfl | exact absurd rfl hl | exact absurd rfl hc | skip
  case finish.next | control.next | error.next | frame.next | finished.next =>
    simp only [forwardStep, ForwardAt.plain, finishPacedResponse, sendControlIfActive, sendNextPacedFrame, hturn]
    repeat' split
    all_goals rfl
  case pace.next | selecting.stopped =>
    simp only [forwardStep, ForwardAt.plain, hnow, hdone]
    repeat' split
    all_goals rfl
  case selecting.timer deadline =>
    cases deadline with
    | none => rfl
    | some deadline =>
      simp only [forwardStep, ForwardAt.plain, hnow]
      split <;> rfl
  case top.next =>
    simp only [forwardStep, ForwardAt.plain, hturn]
    split <;> rfl
  case received.next =>
    simp only [forwardStep, ForwardAt.plain, hturn, forwardEvent_plain, plain_epoch]
    split <;> rfl
  case audio.next turn e =>
    simp only [forwardStep, ForwardAt.plain, forwardAudio_plain (hf turn e rfl), Option.map_some]
  case sending.send s message job l =>
    simp only [forwardStep, ForwardAt.plain, hdone, hroom, Option.map_map]
    congr 1
    funext result
    cases result with
    | queued =>
      cases job with
      | frame turn payload final => cases final <;> rfl
      | control | done | error => rfl
    | waiting | failed => rfl
  case failed.next job err =>
    cases job with
    | error => rfl
    | control | frame | done =>
      simp only [forwardStep, ForwardAt.plain, afterFailure, hturn]
      split <;> rfl

theorem forwardStep_silent (hf : ∀ turn e, f = .audio turn e → e.raw.type = .audio) (hl : l ≠ .event)
    (hc : l ≠ .closed) (hx : forwardStep c p f l = some x) : x.1.actor = c.actor := by
  rcases forwardStep_events hx with ⟨hactor, -⟩ | ⟨e, events, -, -, hreceived, -⟩
  · exact hactor
  · -- the step does not need the event
    have hplain : forwardStep (c.withEvents []) p f.plain l = (forwardStep c p f l).map fun x => Forwarded.plain x [] :=
      forwardStep_plain hf hl hc
    rw [hx, Option.map_some] at hplain
    rcases forwardStep_events hplain with ⟨-, hnone⟩ | ⟨_, _, hsome, -⟩
    · rw [Forwarded.plain, hreceived] at hnone
      cases hnone
    · cases hsome

-- ---------------------------------------------------------------------------
-- The shared part
-- ---------------------------------------------------------------------------

/-- The same state with plain events, all of them in the channel. -/
def Response.plain (s : Response) (events : List Event) : Response :=
  { s with conn := s.conn.withEvents events, forward := s.forward.plain, script := [] }

/-- What is received next is of the response, up to the tail. -/
structure Sharing (c₀ : Conn) (r : GoString) (deltas : List Delta) (tail dn rest : List Event) (s : Response)
    (h : Heard) (stage : Stage) : Prop where
  left : s.conn.actor.events ++ s.script = rest ++ tail
  place : Reframed c₀ r deltas (s.plain (rest.map Device.plain ++ dn)) h stage

theorem finishes_plain (f : ForwardAt) : f.plain.finishes? = f.finishes? := by
  cases f <;> simp [ForwardAt.plain, ForwardAt.finishes?, plain_type]

theorem plain_step (hf : ∀ turn e, s.forward = .audio turn e → e.raw.type = .audio) (hl : l ≠ .event)
    (hc : l ≠ .closed) (events : List Event) :
    (s.plain events).step (.forward l) = (s.step (.forward l)).map fun t => t.plain events := by
  by_cases hfail : l = .send .encodeFailed
  · rw [hfail]
    rfl
  · rw [response_step_forward hfail, response_step_forward hfail, Option.map_map]
    have hstep : forwardStep (s.conn.withEvents events) s.pacer s.forward.plain l =
        (forwardStep s.conn s.pacer s.forward l).map fun x => Forwarded.plain x events :=
      forwardStep_plain hf hl hc
    have hfinishes := finishes_plain s.forward
    simp only [Response.plain, hstep, hfinishes, Option.map_map]
    rfl

theorem Sharing.audio (hi : Sharing c₀ r deltas tail dn rest s h stage) (hs : s.forward = .audio turn e) :
    e.raw.type = .audio := by
  have hplace := hi.place.place
  simp only [Response.plain, hs, ForwardAt.plain] at hplace
  have hrate := hplace.2.2.1
  cases htype : e.raw.type <;> simp [plain, htype, outputSampleRateHz] at hrate ⊢

theorem Sharing.quiet (hi : Sharing c₀ r deltas tail dn rest s h stage) (hv : ∀ d ∈ deltas, d.valid = true)
    (hf : Fresh c₀) (hl : l ≠ .event) (hc : l ≠ .closed) (hs : s.step (.forward l) = some s') :
    ∃ h' stage', Sharing c₀ r deltas tail dn rest s' h' stage' := by
  have haudio : ∀ turn e, s.forward = .audio turn e → e.raw.type = .audio := fun _ _ => hi.audio
  have hstep := plain_step haudio hl hc (rest.map Device.plain ++ dn)
  rw [hs, Option.map_some] at hstep
  obtain ⟨h', stage', hplace⟩ := hi.place.step hv hf hstep
  refine ⟨h', stage', ?_, hplace⟩
  cases response_move hs with
  | forward _ hx =>
    rw [← hi.left]
    simp only [forwardStep_silent haudio hl hc hx]

-- ---------------------------------------------------------------------------
-- The rest
-- ---------------------------------------------------------------------------

structure Twin (c₀ : Conn) (t : ActiveTurn) : Prop where
  deviceID : t.deviceID = c₀.turn.deviceID
  downlinkStream : t.downlinkStream = c₀.turn.downlinkStream
  identity : t.identity = c₀.turn.identity

/-- The places behind the response, up to the report of an error. -/
def ForwardAt.Falls (c₀ : Conn) (t : ActiveTurn) (p : PacedDownlink) (left : List Event) : ForwardAt → Prop
  | .received e => t.active = true ∧ Twin c₀ t ∧ e.epoch = t.epoch ∧
      (e.raw.type = .error ∧ left = [] ∨ ∀ c, ∃ err, forwardEvent c p t e = (c, p, .exited (some err)))
  | .exited _ => True
  | .error turn => t.active = true ∧ turn = t ∧ Twin c₀ t ∧ left = []
  | .errorStop turn => t.active = false ∧ Twin c₀ turn ∧ left = []
  | .sending _ m .error => t.active = false ∧ left = [] ∧ ∃ reply, m = .control reply ∧ ErrorReport c₀.turn reply
  | _ => False

def ForwardAt.rests : ForwardAt → Bool
  | .top | .pace | .selecting none => true
  | _ => false

/-- The response is over, and said all its texts. -/
structure Fallen (c₀ : Conn) (r : GoString) (script : List Event) (s : Response) (h : Heard) : Prop where
  before : s.before ≤ s.conn.sent.length
  opened : Opened c₀ s.conn
  texts : h.texts = scriptTexts (taken script)
  started : taken script ≠ [] → h.started = true
  place : hears c₀.turn r s.out = some h ∧
      s.forward.Falls c₀ s.conn.turn s.pacer (s.conn.actor.events ++ s.script) ∨
    (∃ said reply, hears c₀.turn r said = some h ∧ s.out = said ++ [.control reply] ∧ ErrorReport c₀.turn reply) ∧
      s.forward.rests = true ∧ s.pacer = {} ∧ s.conn.turn.active = false ∧ s.conn.actor.events ++ s.script = []

theorem hears_started (hh : hears turn r out = some h) (hd : h.done = true) : h.started = true := by
  refine hears_rec (P := fun h _ => h.done = true → h.started = true) nofun ?_ hh hd
  intro h out m h' hi hm hd
  cases m with
  | control reply =>
    rw [Heard.hear, Option.ite_none_right_eq_some] at hm
    cases hbody : reply.body with
    | helloAck | cancelled | error => simp [hbody, Heard.say] at hm
    | responseStart | textDelta | audioStart | responseDone =>
      simp only [hbody, Heard.say, Option.ite_none_right_eq_some, Option.some.injEq] at hm
      obtain ⟨-, hc, rfl⟩ := hm
      simp_all
  | pcm header payload =>
    obtain ⟨-, rfl⟩ := hear_pcm hm
    exact hi hd

/-- Where only what the script lacks is to come, all it has has been taken. -/
theorem Splits.reached (hsp : Splits epoch r script tail dn deltas) (hleft : dn = stage.left epoch r deltas) :
    textsOf (stage.taken deltas) = scriptTexts (taken script) ∧ (taken script = [] ↔ stage = .waiting) := by
  have hlength := congrArg List.length hsp.events
  have hwhole : (responseEvents epoch r deltas).length = deltas.length + 2 := by simp [responseEvents]
  rw [List.length_append, List.length_map, hwhole] at hlength
  have hdn := congrArg List.length hleft
  rw [← hsp.texts]
  cases stage with
  | waiting =>
    have hnone : taken script = [] := by
      apply List.eq_nil_of_length_eq_zero
      rw [Stage.left, hwhole] at hdn
      omega
    have htexts := hsp.texts
    rw [hnone] at htexts
    exact ⟨htexts.symm, iff_of_true hnone rfl⟩
  | speaking n =>
    simp only [Stage.left, List.length_append, List.length_map, List.length_drop, List.length_singleton] at hdn
    have hsome : taken script ≠ [] := by
      intro hnone
      rw [hnone, List.length_nil] at hlength
      omega
    refine ⟨congrArg textsOf (List.take_of_length_le ?_), iff_of_false hsome (by simp)⟩
    rcases hsp.missing with ⟨rfl, -⟩ | ⟨-, rfl⟩ | ⟨hnone, -⟩
    · simp at hdn
    · rw [List.length_singleton] at hdn
      omega
    · exact absurd hnone hsome
  | finished =>
    refine ⟨rfl, iff_of_false (fun hnone => ?_) (by simp)⟩
    rw [hnone, hdn] at hlength
    simp [Stage.left] at hlength

theorem Idling.twin (hi : Idling c₀ r deltas doneAt t p h stage) : Twin c₀ t := by
  rw [hi.turn]
  exact ⟨rfl, rfl, rfl⟩

theorem Idling.whole (hi : Idling c₀ r deltas doneAt t p h stage) (hsp : Splits epoch r script tail dn deltas)
    (hleft : dn = stage.left epoch r deltas) :
    h.texts = scriptTexts (taken script) ∧ (taken script ≠ [] → h.started = true) := by
  obtain ⟨htexts, hwaiting⟩ := hsp.reached hleft
  rw [← htexts]
  by_cases hw : stage = .waiting
  · subst hw
    obtain ⟨-, rfl⟩ := hi.waiting
    exact ⟨rfl, fun hsome => absurd (hwaiting.mpr rfl) hsome⟩
  · have hp := hi.paced hw
    exact ⟨hp.texts, fun _ => hp.started⟩

/-- An event that the response does not go on with ends the forwarder, if it is no error. -/
theorem forwardEvent_refused (hv : Session.validProviderEvent e.raw = none) (hno : goesOn started e = false)
    (hp : if started then p.matches t e.raw.responseID = true else p.epoch = 0) (hne : e.raw.type ≠ .error) (c : Conn) :
    ∃ err, forwardEvent c p t e = (c, p, .exited (some err)) := by
  have hopen : started = true → p.epoch ≠ 0 := by
    rintro rfl
    rw [if_pos rfl] at hp
    simp only [PacedDownlink.matches, PacedDownlink.belongsTo, decide_eq_true_eq] at hp
    exact hp.1.1
  have hunmatched : started = false → p.matches t e.raw.responseID = false := by
    rintro rfl
    simp [PacedDownlink.matches, PacedDownlink.belongsTo, show p.epoch = 0 from hp]
  cases htype : e.raw.type with
  | error => exact absurd htype hne
  | unknown => simp [Session.validProviderEvent, htype] at hv
  | started =>
    have hs : started = true := by simpa [goesOn, htype] using hno
    simp only [forwardEvent, htype, ne_eq, hopen hs, not_false_eq_true, if_true]
    exact ⟨_, rfl⟩
  | textDelta | done =>
    have hs : started = false := by simpa [goesOn, htype] using hno
    simp only [forwardEvent, htype, hunmatched hs, Bool.false_eq_true, not_false_eq_true, if_true]
    exact ⟨_, rfl⟩
  | audio =>
    cases haudio : validateProviderAudio e.raw.sampleRateHz e.raw.pcm with
    | some err =>
      simp only [forwardEvent, htype, haudio]
      exact ⟨err, rfl⟩
    | none =>
      have hs : started = false := by simpa [goesOn, htype, haudio] using hno
      simp only [forwardEvent, htype, haudio, hunmatched hs, Bool.false_eq_true, not_false_eq_true, if_true]
      exact ⟨_, rfl⟩

-- ---------------------------------------------------------------------------
-- One step
-- ---------------------------------------------------------------------------

theorem step_event {deadline : Option Time} (hf : s.forward = .selecting deadline) (hr : s.pacer.reads = true)
    (he : s.conn.actor.events = e :: events) :
    s.step (.forward .event) = some { s with conn := s.conn.withEvents events, forward := .received e } := by
  obtain ⟨conn, pacer, forward, script, before, doneAt⟩ := s
  subst hf
  dsimp only at hr he
  cases deadline <;> simp [Response.step, forwardStep, hr, he, Conn.withEvents, ForwardAt.finishes?]

theorem event_step (hs : s.step (.forward .event) = some s') : ∃ deadline e events, s.forward = .selecting deadline ∧
    s.pacer.reads = true ∧ s.conn.actor.events = e :: events ∧
      s' = { s with conn := s.conn.withEvents events, forward := .received e } := by
  cases hf : s.forward with
  | selecting deadline =>
    cases hr : s.pacer.reads with
    | true =>
      cases he : s.conn.actor.events with
      | cons e events =>
        rw [step_event hf hr he, Option.some.injEq] at hs
        exact ⟨deadline, e, events, rfl, rfl, rfl, hs.symm⟩
      | nil => cases deadline <;> simp [Response.step, forwardStep, hf, he] at hs
    | false => cases deadline <;> simp [Response.step, forwardStep, hf, hr] at hs
  | _ => simp [Response.step, forwardStep, hf] at hs

theorem step_received (hf : s.forward = .received e) (ha : s.conn.turn.active = true)
    (he : e.epoch = s.conn.turn.epoch) (hx : forwardEvent s.conn s.pacer s.conn.turn e = x) :
    ∃ t, s.step (.forward .next) = some t ∧ t.conn = x.1 ∧ t.forward = x.2.2 ∧ t.script = s.script := by
  have hstep : forwardStep s.conn s.pacer s.forward .next = some x := by
    rw [hf, forwardStep, if_neg (by simp [ha, he]), hx]
  have hl : ForwardLabel.next ≠ .send .encodeFailed := by decide
  rw [response_step_forward hl, hstep]
  exact ⟨_, rfl, rfl, rfl, rfl⟩

theorem step_closed (hc : s.conn.actor.eventsClosed = false) : s.step (.forward .closed) = none := by
  cases hf : s.forward with
  | selecting deadline => cases deadline <;> simp [Response.step, forwardStep, hf, hc]
  | _ => simp [Response.step, forwardStep, hf]

/-- Behind the shared part the response is over. -/
theorem Sharing.falls {deadline : Option Time} {r' : GoString} (hi : Sharing c₀ r deltas tail dn [] s h stage)
    (hacc : Accepted c₀.turn.epoch r' script) (hr : taken script ≠ [] → r = r') (hf : Fresh c₀)
    (hsp : Splits c₀.turn.epoch r script tail dn deltas) (hs : s.forward = .selecting deadline)
    (he : s.conn.actor.events = e :: events) :
    Fallen c₀ r script { s with conn := s.conn.withEvents events, forward := .received e } h := by
  have htail : tail = e :: (events ++ s.script) := by
    have hleft := hi.left
    rw [he] at hleft
    exact hleft.symm
  have hmem : e ∈ script := by
    rw [← hsp.whole, htail]
    exact List.mem_append_right _ List.mem_cons_self
  have hplace : Looping c₀ r deltas s.doneAt s.conn.turn s.pacer h stage dn := by
    have hp : (ForwardAt.selecting deadline).Reframes c₀ r deltas s.doneAt s.conn.turn s.pacer h stage dn := by
      simpa [Response.plain, hs, ForwardAt.plain, Conn.withEvents] using hi.place.place
    cases deadline with
    | none => exact hp.1
    | some => exact hp
  have hdn : dn ≠ [] := by
    rintro rfl
    cases htail.symm.trans hsp.ends
  obtain ⟨hu, hleft⟩ | ⟨-, -, -, hnil⟩ := hplace
  · obtain ⟨htexts, hstarted⟩ := hu.toIdling.whole hsp hleft
    refine ⟨hi.place.before, ⟨hi.place.opened.done, hi.place.opened.eventsClosed, hi.place.opened.ctx, hf.ctx⟩,
      htexts, hstarted, .inl ⟨hi.place.heard, hu.active.trans hf.active, hu.toIdling.twin, ?_, ?_⟩⟩
    · exact (hacc.epoch e hmem).trans hu.epoch.symm
    · by_cases herror : e.raw.type = .error
      · refine .inl ⟨herror, ?_⟩
        have hlast := hacc.last
        rw [← hsp.whole, htail] at hlast
        exact nil_of_terminal (List.pairwise_append.mp hlast).2.1 (by rw [herror]; rfl)
      · refine .inr (forwardEvent_refused (hacc.valid e hmem) (hsp.untaken e (by rw [htail]; rfl)) ?_ herror)
        have hwaiting := (hsp.reached hleft).2
        by_cases hnone : taken script = []
        · obtain rfl := hwaiting.mp hnone
          rw [if_neg (by simp [hnone]), hu.toIdling.waiting.1]
        · rw [if_pos (decide_eq_true hnone), hacc.responseID e hmem herror, ← hr hnone]
          exact (hu.toIdling.paced (mt hwaiting.mpr hnone)).matches hu.copies
  · exact absurd hnil hdn

theorem Sharing.step {r' : GoString} {l : ResponseLabel} (hi : Sharing c₀ r deltas tail dn rest s h stage)
    (hacc : Accepted c₀.turn.epoch r' script) (hr : taken script ≠ [] → r = r') (hf : Fresh c₀)
    (hsp : Splits c₀.turn.epoch r script tail dn deltas) (hs : s.step l = some s') :
    (∃ rest h stage, Sharing c₀ r deltas tail dn rest s' h stage) ∨ ∃ h, Fallen c₀ r script s' h := by
  cases response_move hs with
  | emit hscript =>
    refine .inl ⟨rest, h, stage, ?_, hi.place⟩
    rw [← hi.left, hscript, List.append_assoc]
    rfl
  | tick elapsed =>
    obtain ⟨h', stage', hplace⟩ := hi.place.step (l := .tick elapsed) hsp.valid hf rfl
    exact .inl ⟨rest, h', stage', hi.left, hplace⟩
  | writePump hlt =>
    obtain ⟨h', stage', hplace⟩ := hi.place.step (l := .writePump) hsp.valid hf (if_pos hlt)
    exact .inl ⟨rest, h', stage', hi.left, hplace⟩
  | @forward l =>
    by_cases hc : l = .closed
    · have hopen : s.conn.actor.eventsClosed = false := hi.place.opened.eventsClosed
      rw [hc, step_closed hopen] at hs
      cases hs
    by_cases hl : l = .event
    · subst hl
      obtain ⟨deadline, e, events, hselect, hreads, hevents, hmoved⟩ := event_step hs
      rw [hmoved]
      cases rest with
      | nil => exact .inr ⟨h, hi.falls hacc hr hf hsp hselect hevents⟩
      | cons e' rest =>
        have hleft := hi.left
        rw [hevents, List.cons_append, List.cons_append, List.cons.injEq] at hleft
        obtain ⟨rfl, hleft⟩ := hleft
        have hplain : (s.plain ((e :: rest).map Device.plain ++ dn)).forward = .selecting deadline := by
          rw [Response.plain, hselect]
          rfl
        have hstep := step_event hplain hreads rfl
        obtain ⟨h', stage', hplace⟩ := hi.place.step hsp.valid hf hstep
        exact .inl ⟨rest, h', stage', hleft, hplace⟩
    · obtain ⟨h', stage', hi'⟩ := hi.quiet hsp.valid hf hl hc hs
      exact .inl ⟨rest, h', stage', hi'⟩

theorem Twin.report (ht : Twin c₀ t) (c : Conn) : ∃ reply,
    c.reply t (.error "provider_error" "AI provider request failed" .provider) = .control reply ∧
      ErrorReport c₀.turn reply := by
  have h1 := congrArg Transport.TurnIdentity.sessionID ht.identity
  have h2 := congrArg Transport.TurnIdentity.turnID ht.identity
  have h3 := congrArg Transport.TurnIdentity.epoch ht.identity
  exact ⟨_, rfl, rfl, ht.deviceID, h1, h2, ht.downlinkStream, h3⟩

theorem falls_step {left : List Event} (hf : f.Falls c₀ c.turn p left) (ho : Opened c₀ c)
    (hl : l ≠ .send .encodeFailed) (hx : forwardStep c p f l = some x) :
    Opened c₀ x.1 ∧ x.1.actor = c.actor ∧ (x.1.sent = c.sent ∧ x.2.2.Falls c₀ x.1.turn x.2.1 left ∨
      (∃ reply, x.1.sent = c.sent ++ [.control reply] ∧ ErrorReport c₀.turn reply) ∧
        x.2.2.rests = true ∧ x.2.1 = {} ∧ x.1.turn.active = false ∧ left = []) := by
  cases f with
  | received e =>
    obtain ⟨hactive, htwin, hepoch, hevent⟩ := hf
    cases l <;> simp only [forwardStep, reduceCtorEq] at hx
    rw [if_neg (by simp [hactive, hepoch]), Option.some.injEq] at hx
    subst hx
    rcases hevent with ⟨herror, hleft⟩ | hrefused
    · simp only [forwardEvent, herror]
      exact ⟨ho, trivial, .inl ⟨trivial, hactive, rfl, htwin, hleft⟩⟩
    · obtain ⟨err, heq⟩ := hrefused c
      rw [heq]
      exact ⟨ho, rfl, .inl ⟨rfl, trivial⟩⟩
  | error turn =>
    obtain ⟨hactive, rfl, htwin, hleft⟩ := hf
    cases l <;> simp only [forwardStep, reduceCtorEq] at hx
    rw [if_pos (sameActiveTurn_iff.mpr ⟨hactive, rfl⟩), Option.some.injEq] at hx
    subst hx
    exact ⟨⟨ho.done, ho.eventsClosed, fun ha => absurd ha Bool.false_ne_true, ho.fresh⟩, rfl,
      .inl ⟨rfl, rfl, htwin, hleft⟩⟩
  | errorStop turn =>
    obtain ⟨hactive, htwin, hleft⟩ := hf
    cases l <;> simp only [forwardStep, reduceCtorEq, Option.some.injEq] at hx
    subst hx
    have hdone : (c.stop turn.downlinkCtx).done none = false := by
      simpa [Conn.done, Conn.stop] using ho.done
    refine ⟨⟨hdone, ho.eventsClosed, fun ha => ?_, ho.fresh⟩, rfl, .inl ⟨rfl, hactive, hleft, ?_⟩⟩
    · exact absurd (hactive.symm.trans ha) Bool.false_ne_true
    · exact htwin.report _
  | sending s m job =>
    cases job with
    | error =>
      obtain ⟨hactive, hleft, reply, rfl, hreply⟩ := hf
      cases l with
      | send l =>
        simp only [forwardStep, Option.map_eq_some_iff] at hx
        obtain ⟨result, hq, rfl⟩ := hx
        have hdone : c.done Job.error.ctx = false := ho.done
        cases s <;> cases l <;>
          simp only [enqueue, hdone, reduceCtorEq, Bool.false_eq_true, and_false, if_false, not_false_eq_true,
            and_true, Option.ite_none_right_eq_some, Option.some.injEq] at hq
        · exact absurd rfl hl
        · obtain ⟨-, rfl⟩ := hq
          exact ⟨ho, rfl, .inl ⟨rfl, hactive, hleft, reply, rfl, hreply⟩⟩
        · obtain ⟨-, rfl⟩ := hq
          exact ⟨⟨ho.done, ho.eventsClosed, ho.ctx, ho.fresh⟩, rfl,
            .inr ⟨⟨reply, rfl, hreply⟩, rfl, rfl, hactive, hleft⟩⟩
      | _ => cases hx
    | _ => exact hf.elim
  | exited => cases l <;> cases hx
  | _ => exact hf.elim

theorem rests_step (hf : f.rests = true) (hp : p = {}) (he : c.actor.events = [])
    (ho : Opened c₀ c) (hx : forwardStep c p f l = some x) : x.1 = c ∧ x.2.1 = {} ∧ x.2.2.rests = true := by
  subst hp
  cases f with
  | top =>
    cases l <;> cases hx
    exact ⟨rfl, rfl, rfl⟩
  | pace =>
    cases l <;> cases hx
    exact ⟨rfl, rfl, rfl⟩
  | selecting deadline =>
    cases deadline with
    | none => cases l <;> simp [forwardStep, he, ho.done, ho.eventsClosed] at hx
    | some => cases hf
  | _ => cases hf

theorem Fallen.of_steady (hi : Fallen c₀ r script s h) (hb : s'.before = s.before)
    (hs : s'.conn.sent = s.conn.sent) (ho : Opened c₀ s'.conn) (ht : s'.conn.turn = s.conn.turn)
    (hp : s'.pacer = s.pacer) (hf : s'.forward = s.forward)
    (hl : s'.conn.actor.events ++ s'.script = s.conn.actor.events ++ s.script) : Fallen c₀ r script s' h := by
  have hout : s'.out = s.out := by rw [Response.out, Response.out, hb, hs]
  refine ⟨by rw [hb, hs]; exact hi.before, ho, hi.texts, hi.started, ?_⟩
  rw [hout, ht, hp, hf, hl]
  exact hi.place

theorem Fallen.step {l : ResponseLabel} (hi : Fallen c₀ r script s h) (hs : s.step l = some s') :
    Fallen c₀ r script s' h := by
  have ho := hi.opened
  cases response_move hs with
  | emit hscript =>
    refine hi.of_steady rfl rfl ⟨ho.done, ho.eventsClosed, ho.ctx, ho.fresh⟩ rfl rfl rfl ?_
    rw [hscript, List.append_assoc]
    rfl
  | tick | writePump => exact hi.of_steady rfl rfl ⟨ho.done, ho.eventsClosed, ho.ctx, ho.fresh⟩ rfl rfl rfl rfl
  | forward hl hx =>
    rcases hi.place with ⟨hh, hfalls⟩ | ⟨hsaid, hrests, hpacer, hactive, hleft⟩
    · obtain ⟨ho', hactor, ⟨hsent, hfalls'⟩ | ⟨⟨reply, hsent, hreply⟩, hrests, hpacer, hactive, hleft⟩⟩ :=
        falls_step hfalls ho hl hx
      · refine ⟨by simp only [hsent]; exact hi.before, ho', hi.texts, hi.started, .inl ⟨?_, ?_⟩⟩
        · simp only [Response.out, hsent]
          exact hh
        · simp only [hactor]
          exact hfalls'
      · refine ⟨?_, ho', hi.texts, hi.started, .inr ⟨⟨s.out, reply, hh, ?_, hreply⟩, hrests, hpacer, hactive, ?_⟩⟩
        · simp only [hsent, List.length_append]
          exact Nat.le_add_right_of_le hi.before
        · simp only [Response.out, hsent, List.drop_append_of_le_length hi.before]
        · simp only [hactor]
          exact hleft
    · obtain ⟨hconn, hpacer', hrests'⟩ :=
        rests_step hrests hpacer (List.append_eq_nil_iff.mp hleft).1 ho hx
      refine ⟨by simp only [hconn]; exact hi.before, by simp only [hconn]; exact ho, hi.texts, hi.started,
        .inr ⟨?_, hrests', hpacer', by simp only [hconn]; exact hactive, by simp only [hconn]; exact hleft⟩⟩
      simp only [Response.out, hconn]
      exact hsaid

-- ---------------------------------------------------------------------------
-- Whole answers
-- ---------------------------------------------------------------------------

theorem Sharing.init (hf : Fresh c) (hsp : Splits c.turn.epoch r script tail dn deltas) :
    Sharing c r deltas tail dn (taken script) { conn := c, script, before := c.sent.length } {} .waiting := by
  constructor
  · rw [hsp.whole, hf.events]
    rfl
  · have hinit : Reframed c r deltas
        { conn := c, script := responseEvents c.turn.epoch r deltas, before := c.sent.length } {} .waiting :=
      Reframed.init hf
    refine hinit.of_steady rfl rfl
      ⟨hinit.opened.done, hinit.opened.eventsClosed, hinit.opened.ctx, hinit.opened.fresh⟩ rfl rfl rfl rfl ?_
    simp [Response.plain, Conn.withEvents, hsp.events, hf.events]

/-- Nothing is left of a response that is over: all its texts have been said. -/
theorem Sharing.over (hi : Sharing c₀ r deltas tail dn rest s h stage)
    (hsp : Splits c₀.turn.epoch r script tail dn deltas) (ho : s.over = true) :
    h.texts = scriptTexts (taken script) ∧ (taken script ≠ [] → h.started = true) := by
  have hplace : s.forward.plain.Reframes c₀ r deltas s.doneAt s.conn.turn s.pacer h stage
      (rest.map Device.plain ++ dn) := by
    simpa [Response.plain, Conn.withEvents] using hi.place.place
  have hended : Ending c₀ r deltas s.doneAt h →
      h.texts = scriptTexts (taken script) ∧ (taken script ≠ [] → h.started = true) := by
    intro he
    exact ⟨he.texts.trans hsp.texts, fun _ => hears_started hi.place.heard he.done⟩
  have hrest : ∀ f, s.forward = f → f.holds = false → (∀ err, f ≠ .exited err) → rest.map Device.plain ++ dn = dn := by
    intro f hforward hholds hexited
    have hnone : rest ++ tail = [] := by
      rw [← hi.left]
      rw [Response.over, hforward] at ho
      cases f <;> simp_all [ForwardAt.holds]
    rw [(List.append_eq_nil_iff.mp hnone).1]
    rfl
  have hloop : rest.map Device.plain ++ dn = dn → Looping c₀ r deltas s.doneAt s.conn.turn s.pacer h stage
      (rest.map Device.plain ++ dn) → h.texts = scriptTexts (taken script) ∧ (taken script ≠ [] → h.started = true) := by
    rintro hdn (⟨hu, hleft⟩ | ⟨he, -⟩)
    · exact hu.toIdling.whole hsp (hdn.symm.trans hleft)
    · exact hended he
  cases hforward : s.forward with
  | top =>
    rw [hforward] at hplace
    exact hloop (hrest _ hforward rfl nofun) hplace
  | pace =>
    rw [hforward] at hplace
    exact hloop (hrest _ hforward rfl nofun) hplace.1
  | selecting deadline =>
    rw [hforward] at hplace
    cases deadline with
    | none => exact hloop (hrest _ hforward rfl nofun) hplace.1
    | some => exact hloop (hrest _ hforward rfl nofun) hplace
  | finish =>
    rw [hforward] at hplace
    obtain ⟨hidle, hfin, hleft⟩ := hplace
    refine hidle.whole hsp ?_
    rw [← hrest _ hforward rfl nofun, hleft, hfin.stage]
    rfl
  | frame =>
    rw [hforward] at hplace
    obtain ⟨hu, -, hleft⟩ := hplace
    exact hu.toIdling.whole hsp ((hrest _ hforward rfl nofun).symm.trans hleft)
  | finished | finishedStop =>
    rw [hforward] at hplace
    exact hended hplace.1
  | received | control | audio | sending => simp [Response.over, hforward, ForwardAt.holds] at ho
  | _ =>
    rw [hforward] at hplace
    exact hplace.elim

theorem answered {r' : GoString} (hacc : Accepted c.turn.epoch r' script) (hr : taken script ≠ [] → r = r')
    (hf : Fresh c) (hs : (answering c script).Reachable s) :
    ∃ h, Answered c.turn r (scriptTexts (taken script)) s.out h ∧
      (s.over = true → h.texts = scriptTexts (taken script) ∧ (taken script ≠ [] → h.started = true)) := by
  obtain ⟨tail, dn, deltas, hsp⟩ := exists_splits hacc r hr
  have hinv : (∃ rest h stage, Sharing c r deltas tail dn rest s h stage) ∨ ∃ h, Fallen c r script s h := by
    refine hs.invariant (I := fun s => (∃ rest h stage, Sharing c r deltas tail dn rest s h stage) ∨
      ∃ h, Fallen c r script s h) ?_ ?_
    · rintro _ rfl
      exact .inl ⟨_, _, _, .init hf hsp⟩
    · rintro s l t (⟨rest, h, stage, hi⟩ | ⟨h, hi⟩) hst
      · exact hi.step hacc hr hf hsp hst
      · exact .inr ⟨h, hi.step hst⟩
  rcases hinv with ⟨rest, h, stage, hi⟩ | ⟨h, hi⟩
  · refine ⟨h, ⟨⟨s.out, hi.place.heard, .inl rfl⟩, fun text hmem => ?_⟩, hi.over hsp⟩
    rw [← hsp.texts]
    exact hi.place.place.told text hmem
  · refine ⟨h, ⟨?_, fun text hmem => hi.texts ▸ hmem⟩, fun _ => ⟨hi.texts, hi.started⟩⟩
    rcases hi.place with ⟨hh, -⟩ | ⟨⟨said, reply, hh, hout, hreply⟩, -⟩
    · exact ⟨s.out, hh, .inl rfl⟩
    · exact ⟨said, hh, .inr ⟨reply, hout, hreply⟩⟩

-- ---------------------------------------------------------------------------
-- An answer is over at some time
-- ---------------------------------------------------------------------------

/-- `s'` is where `s` would be with a whole response to come. -/
structure Follows (tail dn rest : List Event) (s s' : Response) : Prop where
  left : s.conn.actor.events ++ s.script = rest ++ tail
  plain : s.plain (rest.map Device.plain ++ dn) = s'.plain (s'.conn.actor.events ++ s'.script)
  fixed : s'.forward.plain = s'.forward

theorem plain_plain (e : Event) : plain (plain e) = plain e := by
  cases htype : e.raw.type <;> simp [plain, htype]

theorem Follows.channel (hm : Follows tail dn rest s s') :
    rest.map Device.plain ++ dn = s'.conn.actor.events ++ s'.script := by
  have hevents := congrArg (fun s => s.conn.actor.events) hm.plain
  exact hevents

theorem Follows.forward (hm : Follows tail dn rest s s') : s.forward.plain = s'.forward := by
  have hforward := congrArg Response.forward hm.plain
  exact hforward.trans hm.fixed

theorem Follows.pacer (hm : Follows tail dn rest s s') : s.pacer = s'.pacer := by
  have hpacer := congrArg Response.pacer hm.plain
  exact hpacer

theorem Follows.sharing (hm : Follows tail dn rest s s') (hi : Reframed c₀ r deltas s' h stage) :
    Sharing c₀ r deltas tail dn rest s h stage := by
  refine ⟨hm.left, ?_⟩
  rw [hm.plain]
  exact hi.of_steady rfl rfl ⟨hi.opened.done, hi.opened.eventsClosed, hi.opened.ctx, hi.opened.fresh⟩ rfl rfl rfl
    hm.fixed (List.append_nil _)

theorem run_offered (c : Conn) (script : List Event) (hl : s.conn.actor.events ++ s.script = e :: rest) :
    ∃ ls t events, (answering c script).run s ls = some t ∧ t.conn.actor.events = e :: events ∧
      events ++ t.script = rest ∧ t.forward = s.forward ∧ t.pacer = s.pacer ∧ ∀ events, t.plain events = s.plain events := by
  cases hevents : s.conn.actor.events with
  | cons e' events =>
    rw [hevents, List.cons_append, List.cons.injEq] at hl
    obtain ⟨rfl, hl⟩ := hl
    exact ⟨[], s, events, rfl, hevents, hl, rfl, rfl, fun _ => rfl⟩
  | nil =>
    rw [hevents, List.nil_append] at hl
    refine ⟨[.emit], { s with script := rest, conn := s.conn.withEvents [e] }, [], ?_, rfl, rfl, rfl, rfl, fun _ => rfl⟩
    have hcap : 0 < Session.eventCapacity := by decide
    rw [Lts.Machine.run_cons]
    simp [answering, Response.step, hl, hevents, hcap, Conn.withEvents]

/-- The step does not look at the events. -/
def Blind (s : Response) (l : ResponseLabel) : Prop :=
  ∀ events, (s.plain events).step l = (s.step l).map fun t => t.plain events

theorem blind_tick (s : Response) (elapsed : Nat) : Blind s (.tick elapsed) := fun _ => rfl

theorem blind_writePump (s : Response) : Blind s .writePump := by
  intro events
  by_cases hlt : s.conn.written < s.conn.sent.length
  · have hs : s.step .writePump = some { s with conn.written := s.conn.written + 1 } := if_pos hlt
    rw [hs]
    exact if_pos hlt
  · have hs : s.step .writePump = none := if_neg hlt
    rw [hs]
    exact if_neg hlt

theorem Follows.blind {l : ResponseLabel} {t : Response} (hm : Follows tail dn rest s s') (hb : Blind s l)
    (hb' : Blind s' l) (hs : s'.step l = some t) : ∃ u, s.step l = some u ∧
      u.plain (rest.map Device.plain ++ dn) = t.plain (s'.conn.actor.events ++ s'.script) := by
  have hstep := hb' (s'.conn.actor.events ++ s'.script)
  rw [hs, Option.map_some, ← hm.plain, hb, Option.map_eq_some_iff] at hstep
  exact hstep

theorem Follows.step {l : ResponseLabel} {t : Response} (c : Conn) (script : List Event)
    (hm : Follows tail dn rest s s') (hi : Reframed c₀ r deltas s' h stage) (hs : s'.step l = some t) :
    (∃ ls u rest, (answering c script).run s ls = some u ∧ Follows tail dn rest u t) ∨
      rest = [] ∧ s.pacer.reads = true ∧ ∃ deadline, s.forward = .selecting deadline := by
  have haudio : ∀ turn e, s.forward = .audio turn e → e.raw.type = .audio := fun _ _ => (hm.sharing hi).audio
  have haudio' : ∀ turn e, s'.forward = .audio turn e → e.raw.type = .audio := by
    intro turn e hs'
    have hforward := hm.forward
    rw [hs'] at hforward
    cases hf : s.forward <;> rw [hf] at hforward <;> cases hforward
    exact plain_type.trans (haudio _ _ hf)
  have hrun : ∀ {u : Response}, s.step l = some u → (answering c script).run s [l] = some u := by
    intro u hu
    rw [Lts.Machine.run_cons]
    exact (congrArg (fun o => o.bind fun t => some t) hu)
  cases response_move hs with
  | emit hscript =>
    refine .inl ⟨[], s, rest, rfl, hm.left, hm.plain.trans ?_, hm.fixed⟩
    simp [Response.plain, Conn.withEvents, hscript]
  | tick elapsed =>
    obtain ⟨u, hu, hplain⟩ := hm.blind (blind_tick s elapsed) (blind_tick s' elapsed) hs
    have hrun := hrun hu
    cases hu
    exact .inl ⟨_, _, rest, hrun, hm.left, hplain, hm.fixed⟩
  | writePump =>
    obtain ⟨u, hu, hplain⟩ := hm.blind (blind_writePump s) (blind_writePump s') hs
    have hrun := hrun hu
    cases response_move hu with
    | writePump => exact .inl ⟨_, _, rest, hrun, hm.left, hplain, hm.fixed⟩
  | @forward l x _ hx =>
    by_cases hc : l = .closed
    · rw [hc, step_closed hi.opened.eventsClosed] at hs
      cases hs
    by_cases hl : l = .event
    · subst hl
      obtain ⟨deadline, e, events, hselect, hreads, hevents, hmoved⟩ := event_step hs
      rw [hmoved]
      have hselect' : s.forward = .selecting deadline := by
        have hforward := hm.forward
        rw [hselect] at hforward
        cases hf : s.forward <;> rw [hf] at hforward <;> cases hforward
        rfl
      cases rest with
      | nil => exact .inr ⟨rfl, hm.pacer ▸ hreads, deadline, hselect'⟩
      | cons e' rest =>
        have hhead := hm.channel
        rw [hevents, List.map_cons, List.cons_append, List.cons_append, List.cons.injEq] at hhead
        obtain ⟨rfl, hbehind⟩ := hhead
        obtain ⟨ls, u, offered, hoffer, hoffered, hleft, hforward, hpacer, hsame⟩ :=
          run_offered c script hm.left
        have hreads' : u.pacer.reads = true := by
          rw [hpacer, hm.pacer]
          exact hreads
        refine .inl ⟨ls ++ [.forward .event], { u with conn := u.conn.withEvents offered, forward := .received e' },
          rest, ?_, hleft, ?_, ?_⟩
        · rw [Lts.Machine.run_append, hoffer, Option.bind_some, Lts.Machine.run_cons]
          exact congrArg (fun o => o.bind fun t => some t) (step_event (hforward.trans hselect') hreads' hoffered)
        · have hbase := (hsame (events ++ s'.script)).trans
            (congrArg (fun s : Response => { s with conn := s.conn.withEvents (events ++ s'.script) }) hm.plain)
          have hreceived := congrArg (fun s : Response => { s with forward := .received (Device.plain e') }) hbase
          rw [hbehind]
          refine Eq.trans rfl (hreceived.trans ?_)
          simp only [Response.plain, ForwardAt.plain, plain_plain]
          rfl
        · exact congrArg ForwardAt.received (plain_plain e')
    · obtain ⟨u, hu, hplain⟩ := hm.blind (plain_step haudio hl hc) (plain_step haudio' hl hc) hs
      refine .inl ⟨_, u, rest, hrun hu, ?_, ?_, ?_⟩
      · cases response_move hu with
        | forward _ hx =>
          simp only [forwardStep_silent haudio hl hc hx]
          exact hm.left
      · simp only [forwardStep_silent haudio' hl hc hx]
        exact hplain
      · -- a step from plain places leads to one
        have hstep : forwardStep (s'.conn.withEvents s'.conn.actor.events) s'.pacer s'.forward.plain l =
            (forwardStep s'.conn s'.pacer s'.forward l).map fun x => Forwarded.plain x s'.conn.actor.events :=
          forwardStep_plain haudio' hl hc
        rw [hm.fixed, hx, Option.map_some] at hstep
        have hsame : s'.conn.withEvents s'.conn.actor.events = s'.conn := rfl
        rw [hsame, hx, Option.some.injEq] at hstep
        exact (congrArg (fun x : Forwarded => x.2.2) hstep).symm

theorem Follows.run {t : Response} {ls : List ResponseLabel} (hf : Fresh c) (hv : ∀ d ∈ deltas, d.valid = true)
    (hm : Follows tail dn rest s s') (hs : (answering c script).Reachable s)
    (hs' : (response c r deltas).Reachable s') (hrun : (response c r deltas).run s' ls = some t) :
    (∃ u rest, (answering c script).Reachable u ∧ Follows tail dn rest u t) ∨
      ∃ u u' deadline, (answering c script).Reachable u ∧ (response c r deltas).Reachable u' ∧
        Follows tail dn [] u u' ∧ u.pacer.reads = true ∧ u.forward = .selecting deadline := by
  induction ls generalizing s s' rest with
  | nil =>
    cases hrun
    exact .inl ⟨s, rest, hs, hm⟩
  | cons l ls ih =>
    rw [Lts.Machine.run_cons, Option.bind_eq_some_iff] at hrun
    obtain ⟨u', hu', hrun⟩ := hrun
    obtain ⟨h, stage, hi⟩ := reframed_reachable hf hv hs'
    obtain ⟨ks, u, rest', hku, hmu⟩ | ⟨rfl, hreads, deadline, hselect⟩ := hm.step c script hi hu'
    · exact ih hmu (hs.run hku) (hs'.step hu') hrun
    · exact .inr ⟨s, s', deadline, hs, hs', hm, hreads, hselect⟩

theorem exists_over {r' : GoString} (hacc : Accepted c.turn.epoch r' script) (hr : taken script ≠ [] → r = r')
    (hf : Fresh c) : ∃ s, (answering c script).Reachable s ∧ s.over = true := by
  obtain ⟨tail, dn, deltas, hsp⟩ := exists_splits hacc r hr
  have hinit : (response c r deltas).Reachable _ := .init rfl
  obtain ⟨ls, t, h, stage, hrun, hi, hd⟩ := exists_done hf hsp.valid hinit
  have hm : Follows tail dn (taken script) { conn := c, script, before := c.sent.length }
      { conn := c, script := responseEvents c.turn.epoch r deltas, before := c.sent.length } := by
    refine ⟨?_, ?_, rfl⟩
    · rw [hsp.whole, hf.events]
      rfl
    · rw [hsp.events, hf.events]
      rfl
  obtain ⟨u, rest, hu, hmu⟩ | ⟨u, u', deadline, hu, hu', hmu, hreads, hselect⟩ :=
    hm.run hf hsp.valid (.init rfl) hinit hrun
  · -- the script ends with Done
    refine ⟨u, hu, ?_⟩
    obtain ⟨hholds, -, hleft⟩ := hi.place.done hd
    rw [← hmu.channel, List.append_eq_nil_iff, List.map_eq_nil_iff] at hleft
    obtain ⟨rfl, rfl⟩ := hleft
    have hnone := hmu.left
    rw [hsp.ends, List.append_nil, List.append_eq_nil_iff] at hnone
    rw [← hmu.forward] at hholds
    cases hforward : u.forward <;> simp_all [Response.over, ForwardAt.plain, ForwardAt.holds]
  · obtain ⟨h, stage, hi⟩ := reframed_reachable hf hsp.valid hu'
    cases htail : tail with
    | nil =>
      -- the script stops in the middle of the response
      refine ⟨u, hu, ?_⟩
      have hnone := hmu.left
      rw [htail, List.append_nil, List.append_eq_nil_iff] at hnone
      simp [Response.over, hselect, ForwardAt.holds, hnone]
    | cons e tail' =>
      -- the next event ends it
      obtain ⟨ls, v, events, hoffer, hevents, hbehind, hforward, hpacer, hsame⟩ :=
        run_offered c script (hmu.left.trans htail)
      have hmv : Follows tail dn [] v u' := by
        refine ⟨?_, (hsame _).trans hmu.plain, hmu.fixed⟩
        rw [hevents, List.cons_append, hbehind, htail]
        rfl
      have hselect' : v.forward = .selecting deadline := hforward.trans hselect
      have hreceived := (hu.run hoffer).step (l := .forward .event) (step_event hselect' (hpacer ▸ hreads) hevents)
      obtain ⟨-, hactive, -, hepoch, hevent⟩ | ⟨-, hrests, -⟩ :=
        ((hmv.sharing hi).falls hacc hr hf hsp hselect' hevents).place
      · rcases hevent with ⟨herror, hleft⟩ | hrefused
        · have heq : forwardEvent (v.conn.withEvents events) v.pacer v.conn.turn e =
              (v.conn.withEvents events, v.pacer, .error v.conn.turn) := by
            simp only [forwardEvent, herror]
          obtain ⟨w, hw, hconn, hforward', hscript⟩ := step_received rfl hactive hepoch heq
          refine ⟨w, hreceived.step (l := .forward .next) hw, ?_⟩
          obtain ⟨hevents', hscript'⟩ := List.append_eq_nil_iff.mp hleft
          dsimp only at hevents' hscript'
          simp [Response.over, hforward', hconn, hscript, ForwardAt.holds, hevents', hscript']
        · obtain ⟨err, heq⟩ := hrefused (v.conn.withEvents events)
          obtain ⟨w, hw, hconn, hforward', hscript⟩ := step_received rfl hactive hepoch heq
          refine ⟨w, hreceived.step (l := .forward .next) hw, ?_⟩
          simp [Response.over, hforward']
      · cases hrests

end BoomPI.Device
