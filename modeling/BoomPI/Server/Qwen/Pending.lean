import BoomPI.Server.Session.Isolation

/-!
# The session behind its handshake

`pending_session.go`: the actor gets a session at once, `open` makes the
provider session meanwhile, and one goroutine hands the provider's events on
over an unbuffered channel. What a reader of that channel finds is the one
event the goroutine is blocked in sending.
-/

namespace BoomPI.Qwen.Pending

open Backend (Error ConversationEvent Call Outcomes)
open BoomPI.Session (Contract Emits Fifo InOrder Remains creates)

def ErrSessionNotReady : Error := .sentinel "qwen session is still connecting"

/-- What `open` has come to. -/
inductive Opening
  | connecting
  | ready
  | failed (err : Error)
  deriving DecidableEq, Repr

/-- Where `run` stands in its loop. -/
inductive Forwarder
  | waiting                             -- the first select
  | took (event : ConversationEvent)    -- between the two
  | offering                            -- blocked in the second one
  | stopped
  deriving DecidableEq, Repr

inductive Move (κ : Type)
  | inner (k : κ)
  | opened (err : Option Error)
  | take
  | offer
  | resume
  | stop
  deriving DecidableEq, Repr

/-- What the goroutines do before one channel operation of a call, and whether
`readySession` finds the caller's context or the session at its end. -/
structure Interval (κ : Type) where
  moves : List (Move κ) := []
  refused : Bool := false
  deriving DecidableEq, Repr

/-- `session` and `queue` are the provider session and its `Events()`. `schedule` is
what the goroutines will do while the calls of a command are under way, `emitted` a
ghost: the events the provider has enqueued. -/
structure PendingSession (π κ : Type) where
  opening : Opening := .connecting
  session : π
  queue : List ConversationEvent := []
  run : Forwarder := .waiting
  entered : Bool := false
  schedule : List (Interval κ) := []
  emitted : List ConversationEvent := []
  deriving DecidableEq, Repr

variable {π κ : Type}

-- ---------------------------------------------------------------------------
-- The goroutines
-- ---------------------------------------------------------------------------

/-- The provider session comes out of an operation with this queue. -/
def PendingSession.settle (s : PendingSession π κ) (session : π) (queue : List ConversationEvent) :
    PendingSession π κ :=
  { s with session, queue, emitted := s.emitted ++ queue.drop s.queue.length }

/-- One step of a goroutine; `events` is what a reader of `Events()` finds. -/
def move (P : Backend.Session π κ) (m : Move κ) (s : PendingSession π κ)
    (events : List ConversationEvent) : Option (PendingSession π κ × List ConversationEvent) :=
  match m with
  | .inner k => (P.step k s.session s.queue).map fun (session, queue) => (s.settle session queue, events)
  | .opened err =>
    if s.opening = .connecting then
      match err with
      | none => some ({ s with opening := .ready }, events)
      | some err => some ({ s with opening := .failed err, run := .stopped }, [])
    else none
  | .take =>
    match s.opening, s.run, s.queue with
    | .ready, .waiting, event :: queue => some ({ s with run := .took event, queue }, events)
    | _, _, _ => none
  | .offer =>
    match s.run, events with
    | .took event, [] => some ({ s with run := .offering }, [event])
    | _, _ => none
  | .resume =>
    match s.run, events with
    | .offering, [] => some ({ s with run := .waiting }, [])
    | _, _ => none
  | .stop => some ({ s with run := .stopped }, [])

def moves (P : Backend.Session π κ) : List (Move κ) → PendingSession π κ → List ConversationEvent →
    Option (PendingSession π κ × List ConversationEvent)
  | [], s, events => some (s, events)
  | m :: ms, s, events => (move P m s events).bind fun (s, events) => moves P ms s events

-- ---------------------------------------------------------------------------
-- The calls
-- ---------------------------------------------------------------------------

def implements (P : Backend.Session π κ) : Call → Bool
  | .discardLastResponse _ => P.discarder
  | .drain => false
  | _ => true

/-- `readySession` has returned the provider session. -/
def provider (P : Backend.Session π κ) (c : Call) (r : Option Error) (s : PendingSession π κ) :
    Option (PendingSession π κ) :=
  if implements P c then
    (P.call c r (if s.entered then s.session else P.enter c s.session) s.queue).map
      fun (session, queue) => { s.settle session queue with entered := false }
  else if r = none then some { s with entered := false }
  else none

/-- A call returns without one; `Cancel` and `DiscardLastResponse` succeed while there
is nothing to fence. -/
def unready (c : Call) (r : Option Error) (s : PendingSession π κ) : Option (PendingSession π κ) :=
  match c, s.opening, r with
  | .cancel _, .connecting, none | .discardLastResponse _, .connecting, none | _, _, some _ =>
    some { s with entered := false }
  | _, _, _ => none

/-- The receive loop of `drainProviderEvents`, with what the goroutine does in between. -/
def drain (P : Backend.Session π κ) : List (Interval κ) → PendingSession π κ →
    List ConversationEvent → Option (PendingSession π κ × List ConversationEvent)
  | [], s, _ => some (s, [])
  | i :: schedule, s, events =>
    (moves P i.moves s events).bind fun (s, events) =>
      match events with
      | [] => some (s, [])
      | _ :: events => drain P schedule s events

/-- `SendAudio`, `Commit`, `Cancel` and `DiscardLastResponse`. -/
def call (P : Backend.Session π κ) (c : Call) (r : Option Error) (s : PendingSession π κ)
    (events : List ConversationEvent) : Option (PendingSession π κ × List ConversationEvent) :=
  let i := s.schedule.headD {}
  (moves P i.moves { s with schedule := s.schedule.tail } events).bind fun (s, events) =>
    let s := if s.opening = .ready ∧ i.refused = false then provider P c r s else unready c r s
    s.map fun s => (s, events)

inductive Step (κ : Type)
  | move (m : Move κ)
  | plan (schedule : List (Interval κ))
  deriving DecidableEq, Repr

def pendingSession (P : Backend.Session π κ) : Backend.Session (PendingSession π κ) (Step κ) where
  discarder := true
  enter c s :=
    if s.opening = .ready ∧ implements P c then
      { s with session := P.enter c s.session, entered := true }
    else s
  call c r s events :=
    match c with
    | .drain => drain P s.schedule { s with schedule := [] } events
    | c => call P c r s events
  step k s events :=
    match k with
    | .move m => move P m s events
    | .plan schedule => some ({ s with schedule }, events)

/-- A provider session whose goroutines send on a channel of this capacity. -/
def bounded (capacity : Nat) (P : Backend.Session π κ) : Backend.Session π κ :=
  { P with step := fun k p events =>
      (P.step k p events).filter fun (_, events') => events'.length ≤ max capacity events.length }

-- ---------------------------------------------------------------------------
-- Events on their way
-- ---------------------------------------------------------------------------

def Forwarder.hand : Forwarder → List ConversationEvent
  | .took event => [event]
  | _ => []

def PendingSession.line (s : PendingSession π κ) (events : List ConversationEvent) :
    List ConversationEvent :=
  events ++ (s.run.hand ++ s.queue)

/-- New events join at the end; only a drain or the end of the goroutine loses any.
`before` are the responses that may emit. -/
structure Flow (live : π → Nat → Prop) (before : Nat → Prop) (drains : Prop)
    (s : PendingSession π κ) (events : List ConversationEvent) (s' : PendingSession π κ)
    (events' : List ConversationEvent) : Prop where
  ready : s.opening = .ready → s'.opening = .ready
  stopped : s.run = .stopped → s'.run = .stopped
  flows : ∃ new, Emits before (live s'.session) [] new ∧ s'.emitted = s.emitted ++ new ∧
    (s'.line events').Sublist (s.line events ++ new) ∧
    (¬ drains → s'.run ≠ .stopped → s'.line events' = s.line events ++ new)

variable {P : Backend.Session π κ} {Opened : π → Prop} {live : π → Nat → Prop}
  {before after : Nat → Prop} {drains drains' : Prop} {s s₁ s' : PendingSession π κ}
  {events events₁ events' new new' : List ConversationEvent} {m : Move κ} {ms : List (Move κ)}
  {c : Call} {r : Option Error} {e o : Nat}

theorem emits_nil (h : ∀ o, after o → before o) : Emits before after [] [] :=
  ⟨⟨[], rfl, .nil, fun _ hm => absurd hm List.not_mem_nil⟩, h⟩

theorem emits_new (h : Emits before after events events') :
    ∃ new, events' = events ++ new ∧ Emits before after [] new := by
  obtain ⟨⟨new, rfl, hin, hnew⟩, hl⟩ := h
  exact ⟨new, rfl, ⟨new, rfl, hin, hnew⟩, hl⟩

theorem emits_append {mid : Nat → Prop} (h : Emits before mid [] new) (h' : Emits mid after [] new') :
    Emits before after [] (new ++ new') := by
  obtain ⟨⟨_, rfl, hin, hnew⟩, hl⟩ := h
  obtain ⟨⟨_, rfl, hin', hnew'⟩, hl'⟩ := h'
  refine ⟨⟨_, rfl, List.pairwise_append.mpr ⟨hin, hin', ?_⟩, ?_⟩, fun o ho => hl o (hl' o ho)⟩
  · intro x hx y hy ht heq
    exact (hnew x hx).2 ht (heq ▸ (hnew' y hy).1)
  · intro ev hm
    rcases List.mem_append.mp hm with hm | hm
    · exact ⟨(hnew ev hm).1, fun ht ha => (hnew ev hm).2 ht (hl' _ ha)⟩
    · exact ⟨hl _ (hnew' ev hm).1, (hnew' ev hm).2⟩

theorem fifo_sublist (h : Fifo after events) (hs : events'.Sublist events) : Fifo after events' :=
  ⟨h.inOrder.sublist hs, fun ev hm => h.ended ev (hs.subset hm)⟩

theorem Flow.refl (hl : ∀ o, live s.session o → before o) : Flow live before drains s events s events :=
  ⟨id, id, [], emits_nil hl, (List.append_nil _).symm, by simp, by simp⟩

theorem Flow.trans (h : Flow live before drains s events s₁ events₁)
    (h' : Flow live (live s₁.session) drains' s₁ events₁ s' events') :
    Flow live before (drains ∨ drains') s events s' events' := by
  obtain ⟨new, hem, hghost, hsub, heq⟩ := h.flows
  obtain ⟨new', hem', hghost', hsub', heq'⟩ := h'.flows
  refine ⟨fun hr => h'.ready (h.ready hr), fun hs => h'.stopped (h.stopped hs), new ++ new',
    emits_append hem hem', ?_, ?_, ?_⟩
  · rw [hghost', hghost, List.append_assoc]
  · rw [← List.append_assoc]
    exact hsub'.trans (hsub.append_right new')
  · intro hd hs
    rw [not_or] at hd
    have hs₁ : s₁.run ≠ .stopped := fun h₁ => hs (h'.stopped h₁)
    rw [heq' hd.2 hs, heq hd.1 hs₁, List.append_assoc]

theorem Flow.weaken (h : Flow live before drains s events s' events') (hd : drains → drains') :
    Flow live before drains' s events s' events' := by
  obtain ⟨new, hem, hghost, hsub, heq⟩ := h.flows
  exact ⟨h.ready, h.stopped, new, hem, hghost, hsub, fun hn => heq fun h => hn (hd h)⟩

theorem Flow.living (h : Flow live before drains s events s' events') (ho : live s'.session o) :
    before o := by
  obtain ⟨_, hem, -⟩ := h.flows
  exact hem.live o ho

theorem Flow.remains (h : Flow live before drains s events s' events')
    (hr : Remains (live s'.session) (s'.line events') o) :
    before o ∨ ∃ ev ∈ s.line events, ev.origin = o := by
  obtain ⟨new, hem, -, hsub, -⟩ := h.flows
  obtain ⟨⟨_, rfl, -, hnew⟩, hl⟩ := hem
  rcases hr with hr | ⟨ev, hm, rfl⟩
  · exact .inl (hl o hr)
  · rcases List.mem_append.mp (hsub.subset hm) with hm | hm
    · exact .inr ⟨ev, hm, rfl⟩
    · exact .inl (hnew ev hm).1

theorem Flow.fifo (h : Flow live before drains s events s' events')
    (hf : Fifo before (s.line events)) : Fifo (live s'.session) (s'.line events') := by
  obtain ⟨new, hem, -, hsub, -⟩ := h.flows
  obtain ⟨⟨_, rfl, hin, hnew⟩, hl⟩ := hem
  have hall : Emits before (live s'.session) (s.line events) (s.line events ++ new) :=
    ⟨⟨new, rfl, hin, hnew⟩, hl⟩
  exact fifo_sublist (hall.fifo hf) hsub

-- ---------------------------------------------------------------------------
-- One lemma per operation
-- ---------------------------------------------------------------------------

theorem settle_flow {p : π} {queue : List ConversationEvent}
    (h : Emits before (live p) s.queue queue) :
    Flow live before False s events (s.settle p queue) events := by
  obtain ⟨new, rfl, hem⟩ := emits_new h
  have hline : (s.settle p (s.queue ++ new)).line events = s.line events ++ new := by
    simp [PendingSession.settle, PendingSession.line]
  refine ⟨id, id, new, hem, ?_, ?_, fun _ _ => hline⟩
  · simp [PendingSession.settle]
  · rw [hline]

theorem shift_flow (hl : ∀ o, live s'.session o → before o) (hr : s.opening = .ready → s'.opening = .ready)
    (hs : s.run = .stopped → s'.run = .stopped) (hg : s'.emitted = s.emitted)
    (hline : s'.line events' = s.line events) : Flow live before False s events s' events' :=
  ⟨hr, hs, [], emits_nil hl, by rw [hg, List.append_nil], by rw [hline, List.append_nil],
    fun _ _ => by rw [hline, List.append_nil]⟩

theorem move_flow (hc : Contract P Opened live) (h : move P m s events = some (s', events')) :
    Flow live (live s.session) False s events s' events' := by
  cases m with
  | inner k =>
    obtain ⟨⟨p, queue⟩, hk, heq⟩ := Option.map_eq_some_iff.mp h
    cases heq
    exact settle_flow (hc.step k _ _ _ _ hk)
  | opened err =>
    simp only [move, Option.ite_none_right_eq_some] at h
    obtain ⟨hopen, h⟩ := h
    cases err with
    | none =>
      cases h
      exact shift_flow (fun _ => id) (fun _ => rfl) id rfl rfl
    | some err =>
      cases h
      refine ⟨fun hr => absurd (hopen.symm.trans hr) nofun, fun _ => rfl, [], emits_nil fun _ => id,
        (List.append_nil _).symm, ?_, fun _ hs => absurd rfl hs⟩
      rw [List.append_nil]
      exact (List.sublist_append_right _ _).trans (List.sublist_append_right _ _)
  | take =>
    simp only [move] at h
    split at h <;> cases h
    rename_i hr hrun hq
    refine shift_flow (fun _ => id) id (fun hs => ?_) rfl ?_
    · rw [hrun] at hs
      cases hs
    · simp [PendingSession.line, Forwarder.hand, hrun, hq]
  | offer =>
    simp only [move] at h
    split at h <;> cases h
    rename_i hrun
    refine shift_flow (fun _ => id) id (fun hs => ?_) rfl ?_
    · rw [hrun] at hs
      cases hs
    · simp [PendingSession.line, Forwarder.hand, hrun]
  | resume =>
    simp only [move] at h
    split at h <;> cases h
    rename_i hrun
    refine shift_flow (fun _ => id) id (fun hs => ?_) rfl ?_
    · rw [hrun] at hs
      cases hs
    · simp [PendingSession.line, Forwarder.hand, hrun]
  | stop =>
    cases h
    refine ⟨id, fun _ => rfl, [], emits_nil fun _ => id, (List.append_nil _).symm, ?_,
      fun _ hs => absurd rfl hs⟩
    rw [List.append_nil]
    exact (List.sublist_append_right _ _).trans (List.sublist_append_right _ _)

theorem moves_flow (hc : Contract P Opened live) (h : moves P ms s events = some (s', events')) :
    Flow live (live s.session) False s events s' events' := by
  induction ms generalizing s events with
  | nil =>
    cases h
    exact .refl fun _ => id
  | cons m ms ih =>
    obtain ⟨⟨s₁, events₁⟩, hm, hrest⟩ := Option.bind_eq_some_iff.mp h
    exact ((move_flow hc hm).trans (ih hrest)).weaken (or_self _).mp

theorem read_flow {event : ConversationEvent} :
    Flow live (live s.session) True s (event :: events) s events :=
  ⟨id, id, [], emits_nil fun _ => id, (List.append_nil _).symm, by
    rw [List.append_nil]; exact List.sublist_cons_self _ _, fun hn => absurd trivial hn⟩

theorem drain_flow (hc : Contract P Opened live) {schedule : List (Interval κ)}
    (h : drain P schedule s events = some (s', events')) :
    events' = [] ∧ Flow live (live s.session) True s events s' events' := by
  induction schedule generalizing s events with
  | nil =>
    cases h
    refine ⟨rfl, id, id, [], emits_nil fun _ => id, (List.append_nil _).symm, ?_,
      fun hn => absurd trivial hn⟩
    rw [List.append_nil]
    exact List.sublist_append_right _ _
  | cons i schedule ih =>
    obtain ⟨⟨s₁, events₁⟩, hm, hrest⟩ := Option.bind_eq_some_iff.mp h
    have hflow := moves_flow hc hm
    cases events₁ with
    | nil =>
      cases hrest
      exact ⟨rfl, hflow.weaken False.elim⟩
    | cons event events₁ =>
      obtain ⟨hnil, hrest⟩ := ih hrest
      exact ⟨hnil, ((hflow.trans read_flow).trans hrest).weaken fun _ => trivial⟩

theorem Flow.created {created : Nat → Prop} (h : Flow live before drains s events s' events')
    (hb : ∀ o, before o → live s.session o ∨ created o) (hn : ∀ o, ¬ created o) :
    Flow live (live s.session) drains s events s' events' := by
  obtain ⟨new, ⟨⟨_, rfl, hin, hnew⟩, hl⟩, hrest⟩ := h.flows
  have hb : ∀ o, before o → live s.session o := fun o ho => (hb o ho).resolve_right (hn o)
  exact ⟨h.ready, h.stopped, _, ⟨⟨_, rfl, hin, fun ev hm => ⟨hb _ (hnew ev hm).1, (hnew ev hm).2⟩⟩,
    fun o ho => hb o (hl o ho)⟩, hrest⟩

theorem unready_eq (h : unready c r s = some s') : s' = { s with entered := false } := by
  unfold unready at h
  split at h
  · cases h; rfl
  · cases h; rfl
  · cases h; rfl
  · cases h

theorem unready_cancel (h : unready (.cancel e) none s = some s') : s.opening = .connecting := by
  unfold unready at h
  split at h
  · assumption
  · contradiction
  · contradiction
  · cases h

theorem forget_flow (hl : ∀ o, live s.session o → before o) :
    Flow live before False s events { s with entered := false } events :=
  shift_flow hl id id rfl rfl

/-- The responses that may emit while a call is under way. -/
def mayEmit (live : π → Nat → Prop) (c : Call) (r : Option Error) (s : PendingSession π κ) (o : Nat) :
    Prop :=
  live s.session o ∨ creates c r o ∧ s.opening = .ready

theorem provider_flow (hc : Contract P Opened live) (h : provider P c r s = some s')
    (hr : s.opening = .ready) :
    Flow live (mayEmit live c r s) False s events s' events := by
  unfold provider at h
  split at h
  · rename_i himp
    obtain ⟨⟨p, queue⟩, hcall, heq⟩ := Option.map_eq_some_iff.mp h
    cases heq
    have hd : c ≠ .drain := by
      rintro rfl
      cases himp
    obtain ⟨⟨new, hq, hin, hnew⟩, hl⟩ := hc.call _ _ _ _ _ _ hcall hd
    have hbefore : ∀ o, (live (if s.entered then s.session else P.enter c s.session) o ∨
        creates c r o) → mayEmit live c r s o := by
      rintro o (ho | ho)
      · split at ho
        · exact .inl ho
        · exact .inl (hc.enter c _ o ho)
      · exact .inr ⟨ho, hr⟩
    have hem : Emits (mayEmit live c r s) (live p) s.queue queue :=
      ⟨⟨new, hq, hin, fun ev hm => ⟨hbefore _ (hnew ev hm).1, (hnew ev hm).2⟩⟩,
        fun o ho => hbefore o (hl o ho)⟩
    exact ((settle_flow hem).trans (forget_flow fun _ => id)).weaken (or_self _).mp
  · split at h <;> cases h
    exact forget_flow fun o ho => .inl ho

/-- A call lets the goroutines move and then reaches the provider session, or does not. -/
theorem call_flow (hc : Contract P Opened live) (h : call P c r s events = some (s', events')) :
    ∃ s₁, Flow live (live s.session) False s events s₁ events' ∧
      Flow live (mayEmit live c r s₁) False s₁ events' s' events' := by
  obtain ⟨⟨s₁, events₁⟩, hm, hrest⟩ := Option.bind_eq_some_iff.mp h
  obtain ⟨s₂, hs₂, heq⟩ := Option.map_eq_some_iff.mp hrest
  cases heq
  have hflow := moves_flow hc hm
  refine ⟨s₁, ⟨hflow.ready, hflow.stopped, hflow.flows⟩, ?_⟩
  split at hs₂
  · rename_i hr
    exact provider_flow hc hs₂ hr.1
  · rw [unready_eq hs₂]
    exact forget_flow fun o ho => .inl ho

theorem call_quiet (hc : Contract P Opened live) (h : call P c r s events = some (s', events'))
    (hn : ∀ o, ¬ creates c r o) : Flow live (live s.session) False s events s' events' := by
  obtain ⟨s₁, h₁, h₂⟩ := call_flow hc h
  have h₂ : Flow live (live s₁.session) False s₁ events' s' events' :=
    h₂.created (fun o ho => ho) fun o ho => hn o ho.1
  exact (h₁.trans h₂).weaken (or_self _).mp

/-- A `Cancel` that returns nil has fenced the response, or there is none. -/
theorem call_cancel (hc : Contract P Opened live)
    (h : call P (.cancel e) none s events = some (s', events'))
    (hu : s.opening ≠ .ready → ∀ o, ¬ live s.session o) : ¬ live s'.session e := by
  obtain ⟨⟨s₁, events₁⟩, hm, hrest⟩ := Option.bind_eq_some_iff.mp h
  obtain ⟨s₂, hs₂, heq⟩ := Option.map_eq_some_iff.mp hrest
  cases heq
  have hflow := moves_flow hc hm
  split at hs₂
  · simp only [provider, implements, if_true] at hs₂
    obtain ⟨⟨p, queue⟩, hcall, heq⟩ := Option.map_eq_some_iff.mp hs₂
    cases heq
    exact hc.cancel e _ _ _ _ hcall
  · have hconn := unready_cancel hs₂
    rw [unready_eq hs₂]
    intro ho
    refine hu (fun hr => ?_) e (hflow.living ho)
    rw [show s₁.opening = .ready from hflow.ready hr] at hconn
    cases hconn

theorem perform_flow (hc : Contract P Opened live) {out : Outcomes} {cs : List Call}
    (h : (pendingSession P).perform out cs s events = some (s', events'))
    (hn : ∀ c ∈ cs, ∀ o, ¬ creates c (out.of c) o) :
    Flow live (live s.session) (.drain ∈ cs) s events s' events' := by
  induction cs generalizing s events with
  | nil =>
    cases h
    exact .refl fun _ => id
  | cons c cs ih =>
    obtain ⟨s₁, events₁, hcall, hrest⟩ := BoomPI.Session.perform_cons.mp h
    have hrest := ih hrest fun d hd => hn d (List.mem_cons_of_mem _ hd)
    by_cases hd : c = .drain
    · subst hd
      have hflow := (drain_flow hc hcall).2
      exact ⟨(hflow.trans hrest).ready, (hflow.trans hrest).stopped,
        ((hflow.trans hrest).weaken fun _ => List.mem_cons_self).flows⟩
    · have hcall : call P c (out.of c) s events = some (s₁, events₁) := by
        cases c with
        | drain => exact absurd rfl hd
        | _ => exact hcall
      have hflow := call_quiet hc hcall (hn c List.mem_cons_self)
      exact (hflow.trans hrest).weaken fun h => List.mem_cons_of_mem _ (h.resolve_left id)

theorem perform_cancelled (hc : Contract P Opened live) {out : Outcomes} {discard : List Call}
    (h : (pendingSession P).perform out (.cancel e :: (discard ++ [.drain])) s events =
      some (s', events'))
    (ho : out.cancel = none) (hd : ∀ c ∈ discard, ∀ o, ¬ creates c (out.of c) o)
    (hu : s.opening ≠ .ready → ∀ o, ¬ live s.session o) : ¬ live s'.session e := by
  obtain ⟨s₁, events₁, hcall, hrest⟩ := BoomPI.Session.perform_cons.mp h
  rw [show out.of (.cancel e) = none from ho] at hcall
  have hnot := call_cancel hc hcall hu
  have hflow := perform_flow hc hrest fun c hm => by
    rcases List.mem_append.mp hm with hm | hm
    · exact hd c hm
    · rw [List.mem_singleton.mp hm]
      exact fun o h => nomatch h.1
  exact fun hl => hnot (hflow.living hl)

end BoomPI.Qwen.Pending
