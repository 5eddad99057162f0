import BoomPI.Server.Qwen.Pending

/-!
# What the actor reads through the adapter

Nothing the provider enqueues is lost or reordered on its way to the actor
unless a turn is cancelled. What a cancelled response has left on its way when
the next turn commits is what that turn takes for its own response.
-/

namespace BoomPI.Qwen.Pending

open Backend (Error ConversationEvent Call Outcomes)
open BoomPI.Session (Actor ActorState Obs Event Applied ApplyCase AcceptCase Aside Contract Fifo Remains
  creates delivered validProviderEvent)

variable {π κ : Type} {P : Backend.Session π κ} {Opened : π → Prop} {live : π → Nat → Prop}
  {before : Nat → Prop} {drains : Prop} {s s' : PendingSession π κ}
  {events events' read : List ConversationEvent} {m : Move κ} {ms : List (Move κ)} {c : Call}
  {r : Option Error} {o : Nat}

-- ---------------------------------------------------------------------------
-- What a reader finds
-- ---------------------------------------------------------------------------

/-- The channel is unbuffered: it holds the event the goroutine is blocked with. -/
def Handed (s : PendingSession π κ) (events : List ConversationEvent) : Prop :=
  events = [] ∨ s.run = .offering ∧ ∃ event, events = [event]

theorem Handed.run (h : Handed s events) (hr : s'.run = s.run) : Handed s' events := by
  rw [Handed, hr]
  exact h

theorem move_handed (h : move P m s events = some (s', events')) (hh : Handed s events) :
    Handed s' events' := by
  cases m with
  | inner k =>
    obtain ⟨_, -, heq⟩ := Option.map_eq_some_iff.mp h
    cases heq
    exact hh
  | opened err =>
    simp only [move, Option.ite_none_right_eq_some] at h
    obtain ⟨-, h⟩ := h
    cases err with
    | none => cases h; exact hh
    | some err => cases h; exact .inl rfl
  | take =>
    simp only [move] at h
    split at h <;> cases h
    rename_i hrun _
    rcases hh with rfl | ⟨hoff, -⟩
    · exact .inl rfl
    · rw [hrun] at hoff
      cases hoff
  | offer =>
    simp only [move] at h
    split at h <;> cases h
    exact .inr ⟨rfl, _, rfl⟩
  | resume =>
    simp only [move] at h
    split at h <;> cases h
    exact .inl rfl
  | stop =>
    cases h
    exact .inl rfl

theorem moves_handed (h : moves P ms s events = some (s', events')) (hh : Handed s events) :
    Handed s' events' := by
  induction ms generalizing s events with
  | nil =>
    cases h
    exact hh
  | cons m ms ih =>
    obtain ⟨_, hm, hrest⟩ := Option.bind_eq_some_iff.mp h
    exact ih hrest (move_handed hm hh)

theorem provider_run (h : provider P c r s = some s') : s'.run = s.run := by
  unfold provider at h
  split at h
  · obtain ⟨_, -, heq⟩ := Option.map_eq_some_iff.mp h
    cases heq
    rfl
  · split at h <;> cases h
    rfl

theorem call_handed (h : (pendingSession P).call c r s events = some (s', events'))
    (hh : Handed s events) : Handed s' events' := by
  by_cases hd : c = .drain
  · subst hd
    have nil : ∀ {schedule : List (Interval κ)} {s : PendingSession π κ} {events},
        drain P schedule s events = some (s', events') → events' = [] := by
      intro schedule
      induction schedule with
      | nil => rintro s events ⟨⟩; rfl
      | cons i schedule ih =>
        intro s events h
        obtain ⟨⟨s₁, events₁⟩, -, hrest⟩ := Option.bind_eq_some_iff.mp h
        cases events₁ with
        | nil => cases hrest; rfl
        | cons => exact ih hrest
    exact .inl (nil h)
  · have h : call P c r s events = some (s', events') := by
      cases c with
      | drain => exact absurd rfl hd
      | _ => exact h
    obtain ⟨⟨s₁, events₁⟩, hm, hrest⟩ := Option.bind_eq_some_iff.mp h
    obtain ⟨s₂, hs₂, heq⟩ := Option.map_eq_some_iff.mp hrest
    cases heq
    refine (moves_handed hm (hh.run rfl)).run ?_
    split at hs₂
    · exact provider_run hs₂
    · rw [unready_eq hs₂]

theorem perform_handed {out : Outcomes} {cs : List Call}
    (h : (pendingSession P).perform out cs s events = some (s', events')) (hh : Handed s events) :
    Handed s' events' := by
  induction cs generalizing s events with
  | nil =>
    cases h
    exact hh
  | cons c cs ih =>
    obtain ⟨_, _, hcall, hrest⟩ := BoomPI.Session.perform_cons.mp h
    exact ih hrest (call_handed hcall hh)

theorem offers {event : ConversationEvent} {rest : List ConversationEvent} (hh : Handed s events)
    (hready : s.opening = .ready) (hrun : s.run ≠ .stopped) (hline : s.line events = event :: rest) :
    ∃ ms s', moves P ms s events = some (s', [event]) ∧ s'.line [event] = s.line events ∧
      s'.emitted = s.emitted := by
  have taken : ∀ s : PendingSession π κ, s.opening = .ready → s.run = .waiting →
      s.queue = event :: rest → ∃ s', moves P [.take, .offer] s [] = some (s', [event]) ∧
        s'.line [event] = event :: rest ∧ s'.emitted = s.emitted := by
    intro s hready hrun hq
    exact ⟨{ s with run := .offering, queue := rest }, by simp [moves, move, hready, hrun, hq],
      rfl, rfl⟩
  rcases hh with rfl | ⟨hoff, ev, rfl⟩
  · cases hr : s.run with
    | stopped => exact absurd hr hrun
    | waiting =>
      simp only [PendingSession.line, Forwarder.hand, hr, List.nil_append] at hline
      obtain ⟨s', hm, hl, hg⟩ := taken s hready hr hline
      exact ⟨_, s', hm, hl.trans (by simp [PendingSession.line, Forwarder.hand, hr, hline]), hg⟩
    | took ev =>
      simp only [PendingSession.line, Forwarder.hand, hr, List.nil_append, List.cons_append,
        List.cons.injEq] at hline
      obtain ⟨rfl, rfl⟩ := hline
      exact ⟨[.offer], { s with run := .offering }, by simp [moves, move, hr],
        by simp [PendingSession.line, Forwarder.hand, hr], rfl⟩
    | offering =>
      simp only [PendingSession.line, Forwarder.hand, hr, List.nil_append] at hline
      obtain ⟨s', hm, hl, hg⟩ := taken { s with run := .waiting } hready rfl hline
      refine ⟨[.resume, .take, .offer], s', ?_, ?_, hg⟩
      · rw [← hm]
        simp [moves, move, hr]
      · exact hl.trans (by simp [PendingSession.line, Forwarder.hand, hr, hline])
  · cases hline
    exact ⟨[], s, rfl, rfl, rfl⟩

-- ---------------------------------------------------------------------------
-- Every event, once and in order
-- ---------------------------------------------------------------------------

abbrev Served (π κ : Type) := Actor (PendingSession π κ)

/-- `newPendingSession` over the provider session that `open` will return. -/
def Connecting (Opened : π → Prop) (s : PendingSession π κ) : Prop :=
  ∃ p, Opened p ∧ s = { session := p }

/-- `session.Open` over the adapter. -/
def served (P : Backend.Session π κ) (Opened : π → Prop) :
    Lts.Machine (Served π κ) (BoomPI.Session.Label (Step κ)) :=
  BoomPI.Session.machine (pendingSession P) (Connecting Opened)

def upcoming (a : Served π κ) : List ConversationEvent := a.session.line a.provided

def readBy (trace : List Obs) : List ConversationEvent :=
  trace.filterMap fun
    | .delivered _ raw => some raw
    | _ => none

/-- What the provider has enqueued was read or is on its way, at most once and in order,
all of it while nothing was cancelled, and what is on its way gets to the reader. -/
structure HandsOn (P : Backend.Session π κ) (Opened : π → Prop) (a : Served π κ) : Prop where
  order : (readBy a.trace ++ upcoming a).Sublist a.session.emitted
  whole : (∀ x ∈ a.trace, x.cancels = none) → a.session.run ≠ .stopped →
    readBy a.trace ++ upcoming a = a.session.emitted
  arrives : a.session.opening = .ready → a.session.run ≠ .stopped → a.providerClosed = false →
    ∀ event rest, upcoming a = event :: rest → ∃ (ms : List (Move κ)) (b : Served π κ),
      (served P Opened).run a (ms.map fun m => .provider (.move m)) = some b ∧
        b.provided = [event] ∧ upcoming b = upcoming a ∧ b.trace = a.trace

/-- How `read` and what is on its way make up what was enqueued. -/
structure Carried (live : π → Nat → Prop) (read : List ConversationEvent) (cancelled : Prop)
    (s : PendingSession π κ) (events : List ConversationEvent) : Prop where
  unopened : s.opening ≠ .ready → ∀ o, ¬ live s.session o
  order : (read ++ s.line events).Sublist s.emitted
  whole : ¬ cancelled → s.run ≠ .stopped → read ++ s.line events = s.emitted

theorem Carried.flow {cancelled : Prop} (h : Carried live read cancelled s events)
    (hf : Flow live before drains s events s' events')
    (hb : s.opening ≠ .ready → ∀ o, before o → live s.session o) (hd : drains → cancelled) :
    Carried live read cancelled s' events' := by
  obtain ⟨new, hem, hghost, hsub, heq⟩ := hf.flows
  refine ⟨fun hr o ho => ?_, ?_, fun hc hs => ?_⟩
  · have hr : s.opening ≠ .ready := fun h => hr (hf.ready h)
    exact h.unopened hr o (hb hr o (hf.living ho))
  · rw [hghost]
    refine (List.Sublist.append_left hsub read).trans ?_
    rw [← List.append_assoc]
    exact h.order.append_right new
  · rw [hghost, heq (fun h => hc (hd h)) hs, ← List.append_assoc,
      h.whole hc fun h => hs (hf.stopped h)]

theorem Carried.mono {cancelled cancelled' : Prop} (h : Carried live read cancelled s events)
    (hc : cancelled → cancelled') : Carried live read cancelled' s events :=
  ⟨h.unopened, h.order, fun hn => h.whole fun h => hn (hc h)⟩

section Actor

variable {a b : Served π κ} {l : BoomPI.Session.Label (Step κ)} {os : List Obs} {cmd : BoomPI.Session.Command}
  {out : Outcomes} {res : Applied}

theorem aside_flow (hc : Contract P Opened live) (h : Aside (pendingSession P) a l b) :
    Flow live (live a.session.session) False a.session a.provided b.session b.provided ∧
      (Handed a.session a.provided → Handed b.session b.provided) := by
  cases h with
  | same hs hp =>
    rw [hs, hp]
    exact ⟨.refl fun _ => id, id⟩
  | entered cmd c _ _ _ hs hp =>
    rw [hs, hp]
    simp only [pendingSession]
    split
    · exact ⟨shift_flow (fun o ho => hc.enter c _ o ho) id id rfl rfl, fun hh => hh.run rfl⟩
    · exact ⟨.refl fun _ => id, id⟩
  | stepped k hk =>
    cases k with
    | move m => exact ⟨move_flow hc hk, move_handed hk⟩
    | plan schedule =>
      simp only [pendingSession, Option.some.injEq, Prod.mk.injEq] at hk
      rw [← hk.1, ← hk.2]
      exact ⟨shift_flow (fun _ => id) id id rfl rfl, fun hh => hh.run rfl⟩

/-- The calls of a command in the order the adapter answers them: only a successful
`Commit` lets a response begin. -/
theorem applied_flow (hc : Contract P Opened live)
    (hcase : ApplyCase (pendingSession P).discarder out cmd a.state res)
    (h : (pendingSession P).perform out res.calls a.session a.provided =
      some (b.session, b.provided)) :
    Flow live (live a.session.session) (.drain ∈ res.calls) a.session a.provided b.session b.provided ∨
      res.calls = [.commit cmd.epoch] ∧ out.commit = none ∧
      ∃ s₁, Flow live (live a.session.session) False a.session a.provided s₁ b.provided ∧
        Flow live (mayEmit live (.commit cmd.epoch) none s₁) False s₁ b.provided b.session
          b.provided := by
  rcases hcase.creates with hn | ⟨hcalls, ho⟩
  · exact .inl (perform_flow hc h hn)
  · rw [hcalls] at h
    obtain ⟨s', events', hcall, hnil⟩ := BoomPI.Session.perform_cons.mp h
    cases hnil
    rw [show out.of (.commit cmd.epoch) = none from ho] at hcall
    exact .inr ⟨hcalls, ho, call_flow hc hcall⟩

theorem readBy_append {t t' : List Obs} : readBy (t ++ t') = readBy t ++ readBy t' :=
  List.filterMap_append

theorem readBy_obs : readBy (res.obs out a.state cmd) = [] := by
  refine List.filterMap_eq_nil_iff.mpr fun o ho => ?_
  simp only [Applied.obs, List.mem_append, List.mem_map, List.mem_singleton] at ho
  rcases ho with ⟨c, -, rfl⟩ | rfl
  · rfl
  · rfl

/-- A drain is part of a successful `Cancel`. -/
theorem drain_cancels (hcase : ApplyCase (pendingSession P).discarder out cmd a.state res)
    (hd : .drain ∈ res.calls) : ∃ x ∈ res.obs out a.state cmd, x.cancels ≠ none := by
  cases hcase with
  | cancelled hop hp he =>
    refine ⟨.replied a.state cmd none, List.mem_append_right _ (List.mem_singleton_self _), ?_⟩
    simp [Obs.cancels, hop, hp, he]
  | _ => simp at hd

structure CarriedBy (live : π → Nat → Prop) (a : Served π κ) : Prop where
  carried : Carried live (readBy a.trace) (∃ x ∈ a.trace, x.cancels ≠ none) a.session a.provided
  handed : Handed a.session a.provided

theorem CarriedBy.flow (h : CarriedBy live a) (ht : b.trace = a.trace ++ os) (hr : readBy os = [])
    (hf : Flow live before drains a.session a.provided b.session b.provided)
    (hb : a.session.opening ≠ .ready → ∀ o, before o → live a.session.session o)
    (hd : drains → ∃ x ∈ os, x.cancels ≠ none) (hh : Handed b.session b.provided) :
    CarriedBy live b := by
  refine ⟨?_, hh⟩
  rw [ht, readBy_append, hr, List.append_nil]
  refine (h.carried.mono ?_).flow hf hb fun hdr => ?_
  · rintro ⟨x, hx, hxc⟩
    exact ⟨x, List.mem_append_left _ hx, hxc⟩
  · obtain ⟨x, hx, hxc⟩ := hd hdr
    exact ⟨x, List.mem_append_right _ hx, hxc⟩

theorem still_flow (hs : b.session = a.session) (hp : b.provided = a.provided) :
    Flow live (live a.session.session) False a.session a.provided b.session b.provided := by
  rw [hs, hp]
  exact .refl fun _ => id

theorem CarriedBy.still (h : CarriedBy live a) (ht : b.trace = a.trace ++ os) (hr : readBy os = [])
    (hs : b.session = a.session) (hp : b.provided = a.provided) : CarriedBy live b :=
  h.flow ht hr (still_flow hs hp) (fun _ _ => id) False.elim (by rw [hs, hp]; exact h.handed)

theorem CarriedBy.move (hc : Contract P Opened live) (h : CarriedBy live a)
    (m : BoomPI.Session.Move (pendingSession P) a l b) : CarriedBy live b := by
  cases m with
  | quiet hs ht _ haside =>
    have hflow := aside_flow hc haside
    have ht : b.trace = a.trace ++ [] := by rw [ht, List.append_nil]
    exact h.flow ht rfl hflow.1 (fun _ _ => id) False.elim (hflow.2 h.handed)
  | expired cmd _ _ ht hs hp =>
    exact h.still ht rfl hs hp
  | applied cmd out res _ hcase _ ht hperf =>
    have ht : b.trace = a.trace ++ res.obs out a.state cmd := ht.trans (List.append_assoc ..)
    have hh := perform_handed hperf h.handed
    rcases applied_flow hc hcase hperf with hf | ⟨-, -, s₁, h₁, h₂⟩
    · exact h.flow ht readBy_obs hf (fun _ _ => id) (drain_cancels hcase) hh
    · refine ⟨?_, hh⟩
      rw [ht, readBy_append, readBy_obs, List.append_nil]
      refine ((h.carried.mono ?_).flow h₁ (fun _ _ => id) False.elim).flow h₂ ?_ False.elim
      · rintro ⟨x, hx, hxc⟩
        exact ⟨x, List.mem_append_left _ hx, hxc⟩
      · exact fun hr o ho => ho.resolve_right fun h => hr h.2
  | received raw event s' _ _ _ _ ht hs hp =>
    have hline : upcoming a = raw :: upcoming b := by
      simp [upcoming, PendingSession.line, hs, hp]
    have hread : readBy b.trace ++ upcoming b = readBy a.trace ++ upcoming a := by
      rw [ht, readBy_append, hline, List.append_assoc]
      rfl
    refine ⟨⟨?_, ?_, fun hn hrun => ?_⟩, ?_⟩
    · rw [hs]
      exact h.carried.unopened
    · rw [← upcoming, hread, hs]
      exact h.carried.order
    · rw [← upcoming, hread, hs]
      rw [hs] at hrun
      refine h.carried.whole ?_ hrun
      rintro ⟨x, hx, hxc⟩
      exact hn ⟨x, ht ▸ List.mem_append_left _ hx, hxc⟩
    · rcases h.handed with hnil | ⟨hoff, ev, hev⟩
      · rw [hp] at hnil
        cases hnil
      · rw [hp] at hev
        exact .inl (List.cons.inj hev).2
  | wrote event _ _ _ ht hs hp =>
    exact h.still ht rfl hs hp
  | closed event _ _ _ _ _ ht hs hp =>
    exact h.still ht rfl hs hp

theorem carriedBy (hc : Contract P Opened live) (h : (served P Opened).Reachable a) :
    CarriedBy live a := by
  refine h.invariant ?_ fun s l t hi hs => hi.move hc (BoomPI.Session.step_move hs)
  rintro a ⟨s, ⟨p, hp, rfl⟩, rfl⟩
  exact ⟨⟨fun _ o => hc.opened p o hp, List.Sublist.refl _, fun _ _ => rfl⟩, .inl rfl⟩

theorem run_moves (hopen : a.providerClosed = false)
    (h : moves P ms a.session a.provided = some (s', events')) :
    (served P Opened).run a (ms.map fun m => .provider (.move m)) =
      some { a with session := s', provided := events' } := by
  induction ms generalizing a with
  | nil =>
    cases h
    rfl
  | cons m ms ih =>
    obtain ⟨⟨s₁, events₁⟩, hm, hrest⟩ := Option.bind_eq_some_iff.mp h
    have hstep : (served P Opened).step a (.provider (.move m)) =
        some { a with session := s₁, provided := events₁ } := by
      simp [served, BoomPI.Session.machine, BoomPI.Session.step, pendingSession, hopen, hm]
    rw [List.map_cons, Lts.Machine.run_cons, hstep]
    exact ih (a := { a with session := s₁, provided := events₁ }) hopen hrest

theorem hands_on (hc : Contract P Opened live) (h : (served P Opened).Reachable a) :
    HandsOn P Opened a := by
  have hcar := carriedBy hc h
  refine ⟨hcar.carried.order, fun hn hrun => hcar.carried.whole ?_ hrun, ?_⟩
  · rintro ⟨x, hx, hxc⟩
    exact hxc (hn x hx)
  · intro hready hrun hopen event rest hup
    obtain ⟨ms, s', hm, hline, -⟩ := offers hcar.handed hready hrun hup
    exact ⟨ms, _, run_moves hopen hm, rfl, hline, rfl⟩

-- ---------------------------------------------------------------------------
-- Whose response a turn reads
-- ---------------------------------------------------------------------------

/-- When a `Commit` succeeds, nothing remains of the response of a turn that ended by
rejecting an invalid event, and no event of a cancelled one is on its way. -/
def Cleared (live : π → Nat → Prop) (a : Served π κ) (l : BoomPI.Session.Label (Step κ)) : Prop :=
  ∀ cmd out, l = .reply out → a.place = .applying cmd → cmd.op = .commit → out.commit = none →
    a.state.phase = .listening → cmd.epoch = a.state.epoch → a.state.frames ≠ 0 →
    ∀ x ∈ a.trace, (∀ o ∈ x.rejects, ¬ Remains (live a.session.session) (upcoming a) o) ∧
      ∀ o ∈ x.cancels, ∀ event ∈ upcoming a, event.origin ≠ o

/-- `accept` drops an event because its ID is not that of the turn's response. -/
def Foreign (before : ActorState) (raw : ConversationEvent) : Prop :=
  before.phase.responding = true ∧ validProviderEvent raw = none ∧ raw.responseID ≠ "" ∧
    before.responseID ≠ "" ∧ raw.responseID ≠ before.responseID

/-- A turn that waits for its response reads events of that response only, and it drops
one only if the provider has given the response two IDs. -/
structure Fenced (a : Served π κ) : Prop where
  own : ∀ before raw, .delivered before raw ∈ a.trace → before.phase.responding = true →
    raw.origin = before.epoch
  kept : ∀ before raw, .delivered before raw ∈ a.trace → Foreign before raw →
    ∃ first ∈ delivered a.trace before.epoch, first.origin = raw.origin ∧
      first.responseID ≠ raw.responseID
  isolated : BoomPI.Session.Isolated a

/-- The response of epoch `o` was given up, by a rejection or behind a fence. -/
def Over (live : π → Nat → Prop) (a : Served π κ) (o : Nat) : Prop :=
  ∃ x ∈ a.trace, x.rejects = some o ∨ x.cancels = some o ∧ ¬ live a.session.session o

structure Fencing (live : π → Nat → Prop) (a : Served π κ) : Prop where
  fifo : Fifo (live a.session.session) (upcoming a)
  left : ∀ o, Remains (live a.session.session) (upcoming a) o →
    a.state.phase.responding = true ∧ o = a.state.epoch ∨ Over live a o
  waiting : a.state.phase.responding = true →
    ∀ o, Remains (live a.session.session) (upcoming a) o → o = a.state.epoch
  met : ∀ before : ActorState, ∀ raw, .delivered before raw ∈ a.trace → before.phase.responding = true →
    raw.origin = before.epoch ∧ (before.responseID ≠ "" →
      ∃ first ∈ delivered a.trace before.epoch, first.responseID = before.responseID)

theorem Fencing.met_append (h : Fencing live a) (ht : b.trace = a.trace ++ os)
    (hos : ∀ before : ActorState, ∀ raw, .delivered before raw ∈ os → before.phase.responding = true →
      raw.origin = before.epoch ∧ (before.responseID ≠ "" →
        ∃ first ∈ delivered a.trace before.epoch, first.responseID = before.responseID)) :
    ∀ before : ActorState, ∀ raw, .delivered before raw ∈ b.trace → before.phase.responding = true →
      raw.origin = before.epoch ∧ (before.responseID ≠ "" →
        ∃ first ∈ delivered b.trace before.epoch, first.responseID = before.responseID) := by
  intro before raw hm hr
  rw [ht] at hm ⊢
  have hmet := (List.mem_append.mp hm).elim (fun hm => h.met before raw hm hr)
    fun hm => hos before raw hm hr
  refine ⟨hmet.1, fun hid => ?_⟩
  obtain ⟨first, hf, heq⟩ := hmet.2 hid
  exact ⟨first, by rw [BoomPI.Session.delivered_append]; exact List.mem_append_left _ hf, heq⟩

theorem Over.later (h : Over live a o) (ht : b.trace = a.trace ++ os)
    (hl : ∀ o, live b.session.session o → live a.session.session o) : Over live b o := by
  obtain ⟨x, hx, hover⟩ := h
  exact ⟨x, ht ▸ List.mem_append_left _ hx, hover.imp_right fun h => ⟨h.1, fun ho => h.2 (hl o ho)⟩⟩

theorem flow_remains (hf : Flow live (live a.session.session) drains a.session a.provided b.session
    b.provided) (hr : Remains (live b.session.session) (upcoming b) o) :
    Remains (live a.session.session) (upcoming a) o :=
  hf.remains hr

theorem Fencing.flow (h : Fencing live a) (hs : b.state = a.state) (ht : b.trace = a.trace ++ os)
    (hos : ∀ before raw, Obs.delivered before raw ∉ os)
    (hf : Flow live (live a.session.session) drains a.session a.provided b.session b.provided) :
    Fencing live b := by
  refine ⟨hf.fifo h.fifo, fun o ho => ?_, fun hp o ho => ?_, h.met_append ht ?_⟩
  · rw [hs]
    exact (h.left o (flow_remains hf ho)).imp_right fun hover => hover.later ht fun _ => hf.living
  · rw [hs] at hp ⊢
    exact h.waiting hp o (flow_remains hf ho)
  · exact fun before raw hm => absurd hm (hos before raw)

theorem obs_undelivered (before : ActorState) (raw : ConversationEvent) :
    Obs.delivered before raw ∉ res.obs out a.state cmd := by
  intro hm
  simp only [Applied.obs, List.mem_append, List.mem_map, List.mem_singleton] at hm
  rcases hm with ⟨c, -, hc⟩ | hc
  · cases hc
  · cases hc

/-- No response begins: what is left of one is left behind by the turn. -/
theorem Fencing.applied (hc : Contract P Opened live) (h : Fencing live a) (hcar : CarriedBy live a)
    (hcase : ApplyCase (pendingSession P).discarder out cmd a.state res) (hs : b.state = res.state)
    (ht : b.trace = a.trace ++ res.obs out a.state cmd)
    (hperf : (pendingSession P).perform out res.calls a.session a.provided =
      some (b.session, b.provided))
    (hf : Flow live (live a.session.session) (.drain ∈ res.calls) a.session a.provided b.session
      b.provided)
    (hn : ∀ c ∈ res.calls, ∀ o, ¬ creates c (out.of c) o) : Fencing live b := by
  have hmet := h.met_append (b := b) ht fun before raw hm =>
    absurd hm (obs_undelivered before raw)
  have later : ∀ o, Over live a o → Over live b o := fun o hover => hover.later ht fun _ => hf.living
  refine ⟨hf.fifo h.fifo, fun o ho => ?_, fun hp o ho => ?_, hmet⟩
  · have hleft := h.left o (flow_remains hf ho)
    rw [hs]
    cases hcase with
    | started _ hi _ =>
      refine .inr (later o (hleft.resolve_left ?_))
      simp [hi, BoomPI.Session.Phase.responding]
    | committed _ hlis =>
      refine .inr (later o (hleft.resolve_left ?_))
      simp [hlis, BoomPI.Session.Phase.responding]
    | cancelled hop hp he hout hd =>
      rcases hleft with ⟨-, rfl⟩ | hover
      · refine .inr ⟨.replied a.state cmd none, ?_, .inr ⟨?_, ?_⟩⟩
        · rw [ht]
          exact List.mem_append_right _ (List.mem_append_right _ (List.mem_singleton_self _))
        · simp [Obs.cancels, hop, hp, he]
        · refine perform_cancelled hc (he ▸ hperf) hout ?_ hcar.carried.unopened
          rcases hd with ⟨rfl, -⟩ | ⟨rfl, -⟩ <;> simp [creates]
      · exact .inr (later o hover)
    | _ => exact hleft.imp_right (later o)
  · rw [hs] at hp ⊢
    cases hcase with
    | started => cases hp
    | committed _ _ _ _ hout => exact absurd ⟨rfl, hout⟩ (hn _ List.mem_cons_self _)
    | cancelled => cases hp
    | _ => exact h.waiting hp o (flow_remains hf ho)

theorem Fencing.committed (h : Fencing live a) (hnone : ∀ o, ¬ Remains (live a.session.session) (upcoming a) o)
    (hs : b.state = { a.state with phase := .thinking }) (ht : b.trace = a.trace ++ os)
    (hos : ∀ before raw, Obs.delivered before raw ∉ os) {s₁ : PendingSession π κ}
    (h₁ : Flow live (live a.session.session) False a.session a.provided s₁ b.provided)
    (h₂ : Flow live (mayEmit live (.commit a.state.epoch) none s₁) False s₁ b.provided b.session
      b.provided) : Fencing live b := by
  have hnone₁ : ∀ o, ¬ Remains (live s₁.session) (s₁.line b.provided) o := fun o ho =>
    hnone o (h₁.remains ho)
  have hmine : ∀ o, Remains (live b.session.session) (upcoming b) o → o = a.state.epoch := by
    intro o ho
    rcases h₂.remains ho with (ho | ⟨hcr, -⟩) | ho
    · exact absurd (.inl ho) (hnone₁ o)
    · exact (Call.commit.inj hcr.1).symm
    · exact absurd (.inr ho) (hnone₁ o)
  refine ⟨h₂.fifo ⟨(h₁.fifo h.fifo).inOrder, ?_⟩, fun o ho => ?_, fun _ o ho => ?_,
    h.met_append ht fun before raw hm => absurd hm (hos before raw)⟩
  · exact fun ev hm => absurd (.inr ⟨ev, hm, rfl⟩) (hnone₁ ev.origin)
  · rw [hs]
    exact .inl ⟨rfl, hmine o ho⟩
  · rw [hs]
    exact hmine o ho

theorem Fencing.received {raw : ConversationEvent} {event : Option Event} {st : ActorState}
    (h : Fencing live a) (htrack : BoomPI.Session.Tracked a) (hcase : AcceptCase raw a.state (event, st))
    (hs : b.state = { st with pending := event })
    (ht : b.trace = a.trace ++ [.delivered a.state raw]) (hsess : b.session = a.session)
    (hprov : a.provided = raw :: b.provided) : Fencing live b := by
  have hline : upcoming a = raw :: upcoming b := by
    simp [upcoming, PendingSession.line, hsess, hprov]
  have hf := h.fifo
  rw [hline, ← hsess] at hf
  have hr : ∀ o, Remains (live b.session.session) (upcoming b) o →
      Remains (live a.session.session) (upcoming a) o := fun o ho => by
    rw [hline, ← hsess]
    refine ho.imp_right ?_
    rintro ⟨ev, hm, heq⟩
    exact ⟨ev, List.mem_cons_of_mem _ hm, heq⟩
  have hraw : Remains (live a.session.session) (upcoming a) raw.origin :=
    .inr ⟨raw, hline ▸ List.mem_cons_self, rfl⟩
  have later : ∀ o, Over live a o → Over live b o := fun o hover =>
    hover.later ht fun o ho => by rw [hsess] at ho; exact ho
  obtain ⟨he, -⟩ := hcase.epochs
  refine ⟨hf.tail, fun o ho => ?_, fun hph o ho => ?_, h.met_append ht ?_⟩
  · have hleft := h.left o (hr o ho)
    rw [hs]
    cases hcase with
    | ignored | foreign => exact hleft.imp_right (later o)
    | invalid hresp hv =>
      rcases hleft with ⟨-, rfl⟩ | hover
      · refine .inr ⟨.delivered a.state raw, ?_, .inl (by simp [Obs.rejects, hresp, hv])⟩
        rw [ht]
        exact List.mem_append_right _ (List.mem_singleton_self _)
      · exact .inr (later o hover)
    | accepted _ _ _ _ hresp' => exact hleft.imp (fun h => ⟨hresp', h.2⟩) (later o)
    | ended hresp _ _ hterm =>
      refine .inr (hleft.elim ?_ (later o))
      rintro ⟨-, rfl⟩
      rw [← h.waiting hresp _ hraw] at ho
      exact absurd ho (hf.over hterm)
  · rw [hs] at hph ⊢
    have hresp : a.state.phase.responding = true := by
      cases hcase with
      | ignored => exact hph
      | _ => assumption
    exact (h.waiting hresp o (hr o ho)).trans he.symm
  · intro before raw' hm hresp
    cases List.mem_singleton.mp hm
    refine ⟨h.waiting hresp _ hraw, fun hid => ?_⟩
    obtain ⟨first, hfirst, heq⟩ := (htrack.waiting hresp).first hid
    exact ⟨first, List.mem_of_mem_head? hfirst, heq⟩

theorem Fencing.move (hc : Contract P Opened live) (h : Fencing live a) (hcar : CarriedBy live a)
    (htrack : BoomPI.Session.Tracked a) (hclear : Cleared live a l)
    (m : BoomPI.Session.Move (pendingSession P) a l b) : Fencing live b := by
  cases m with
  | quiet hs ht _ haside =>
    have ht : b.trace = a.trace ++ [] := by rw [ht, List.append_nil]
    exact h.flow hs ht (by simp) (aside_flow hc haside).1
  | expired cmd _ hs ht hsess hp => exact h.flow hs ht (by simp) (still_flow hsess hp)
  | applied cmd out res hplace hcase hs ht hperf hlabel =>
    have ht : b.trace = a.trace ++ res.obs out a.state cmd := ht.trans (List.append_assoc ..)
    rcases hcase.creates with hn | ⟨hcalls, ho⟩
    · exact h.applied hc hcar hcase hs ht hperf (perform_flow hc hperf hn) hn
    · cases hcase with
      | committed hop hlis heq hframes _ =>
        obtain ⟨s₂, events₂, hcall, hnil⟩ := BoomPI.Session.perform_cons.mp hperf
        cases hnil
        rw [show out.of (.commit cmd.epoch) = none from ho] at hcall
        obtain ⟨s₁, h₁, h₂⟩ := call_flow hc hcall
        rw [heq] at h₂
        refine h.committed (fun o hrem => ?_) hs ht obs_undelivered h₁ h₂
        rcases h.left o hrem with ⟨hresp, -⟩ | ⟨x, hx, hover⟩
        · rw [hlis] at hresp
          cases hresp
        · have hcleared := hclear cmd out hlabel hplace hop ho hlis heq hframes x hx
          rcases hover with hrej | ⟨hcan, hnot⟩
          · exact hcleared.1 o hrej hrem
          · rcases hrem with hl | ⟨ev, hm, heq⟩
            · exact hnot hl
            · exact hcleared.2 o hcan ev hm heq
      | commitFailed _ _ _ hfail =>
        rw [ho] at hfail
        cases hfail
      | cancelled => simp at hcalls
      | _ => simp at hcalls
  | received raw event st _ _ hcase hs ht hsess hprov =>
    exact h.received htrack hcase hs ht hsess hprov
  | wrote event _ _ hs ht hsess hp =>
    have hflow : Fencing live { b with state := a.state } :=
      h.flow (b := { b with state := a.state }) rfl ht (by simp) (still_flow hsess hp)
    exact ⟨hflow.fifo, by rw [hs]; exact hflow.left, by rw [hs]; exact hflow.waiting, hflow.met⟩
  | closed event _ _ _ hs _ ht hsess hp => exact h.flow hs ht (by simp) (still_flow hsess hp)

theorem Fencing.fenced (h : Fencing live a) (htrack : BoomPI.Session.Tracked a) : Fenced a := by
  have origin : ∀ raw e, raw ∈ delivered a.trace e → raw.origin = e := by
    intro raw e hm
    obtain ⟨o, ho, heq⟩ := List.mem_filterMap.mp hm
    cases o with
    | delivered before raw' =>
      simp only [Option.ite_none_right_eq_some, Option.some.injEq] at heq
      obtain ⟨⟨hr, rfl, -⟩, rfl⟩ := heq
      exact (h.met before _ ho hr).1
    | _ => cases heq
  refine ⟨fun before raw hm hr => (h.met before raw hm hr).1, ?_, ?_⟩
  · rintro before raw hm ⟨hr, -, -, hid, hne⟩
    have hmet := h.met before raw hm hr
    obtain ⟨first, hf, heq⟩ := hmet.2 hid
    exact ⟨first, hf, (origin first _ hf).trans hmet.1.symm, fun h => hne (h ▸ heq)⟩
  · intro ev hm hid
    have hwritten : ev.raw ∈ BoomPI.Session.written a.trace ev.epoch :=
      List.mem_filterMap.mpr ⟨_, hm, by simp [hid]⟩
    have hresp : ev.raw ∈ BoomPI.Session.response a.trace ev.epoch :=
      (htrack.inOrder ev.epoch).subset (List.mem_append_left _ hwritten)
    refine origin _ _ ?_
    rw [BoomPI.Session.response] at hresp
    revert hresp
    cases delivered a.trace ev.epoch with
    | nil => exact fun h => h
    | cons first rest =>
      intro hresp
      rcases List.mem_cons.mp hresp with rfl | hresp
      · exact List.mem_cons_self
      · exact List.mem_cons_of_mem _ (List.mem_of_mem_filter hresp)

/-- The adapter hands on what the provider enqueues; and in a run where every `Commit`
finds the channels cleared, a turn reads its own response only. -/
theorem fenced_of_cleared (hc : Contract P Opened live)
    (h : (served P Opened).ReachableUnder (Cleared live) a) : HandsOn P Opened a ∧ Fenced a := by
  refine ⟨hands_on hc h.reachable, ?_⟩
  have hfencing : Fencing live a := by
    refine h.invariant_with (I := fun a => Fencing live a)
      (J := fun a => CarriedBy live a ∧ BoomPI.Session.Tracked a)
      (fun _ hr => ⟨carriedBy hc hr.reachable, BoomPI.Session.tracked hr.reachable⟩) ?_
      fun s l t hj _ hi hclear hs => hi.move hc hj.1 hj.2 hclear (BoomPI.Session.step_move hs)
    rintro a ⟨s, ⟨p, hp, rfl⟩, rfl⟩
    have hnone : ∀ o, ¬ Remains (live p) [] o := by
      rintro o (h | ⟨ev, hm, -⟩)
      · exact hc.opened p o hp h
      · exact List.not_mem_nil hm
    exact ⟨⟨.nil, fun ev hm => absurd hm List.not_mem_nil⟩, fun o ho => absurd ho (hnone o),
      fun _ o ho => absurd ho (hnone o), fun _ _ hm => absurd hm List.not_mem_nil⟩
  exact hfencing.fenced (BoomPI.Session.tracked h.reachable)

end Actor

-- ---------------------------------------------------------------------------
-- A provider with a channel of four events
-- ---------------------------------------------------------------------------

theorem bounded_contract {capacity : Nat} (hc : Contract P Opened live) :
    Contract (bounded capacity P) Opened live :=
  ⟨hc.opened, hc.enter, fun k p events p' events' h =>
    hc.step k p events p' events' (Option.filter_eq_some_iff.mp h).1, hc.call, hc.cancel, hc.drain⟩

def lenient : Backend.Session (List Nat) ConversationEvent := bounded 4 BoomPI.Session.lenient

theorem lenient_contract : Contract lenient (· = []) fun open' o => o ∈ open' :=
  bounded_contract BoomPI.Session.lenient_contract

def opens : BoomPI.Session.Label (Step ConversationEvent) := .provider (.move (.opened none))

def emits (ev : ConversationEvent) : BoomPI.Session.Label (Step ConversationEvent) :=
  .provider (.move (.inner ev))

def offered : List (BoomPI.Session.Label (Step ConversationEvent)) :=
  [.provider (.move .take), .provider (.move .offer)]

def resumes : BoomPI.Session.Label (Step ConversationEvent) := .provider (.move .resume)

def commands (cmd : BoomPI.Session.Command) : List (BoomPI.Session.Label (Step ConversationEvent)) :=
  [.submit cmd, .poll, .command false, .reply {}]

/-- Start, append and commit turn `e`. -/
def commits (e : Nat) : List (BoomPI.Session.Label (Step ConversationEvent)) :=
  commands { op := .startTurn, epoch := e } ++
    commands { op := .appendPCM, epoch := e, pcm := List.replicate 640 0 } ++
    commands { op := .commit, epoch := e }

def cancels (e : Nat) : List (BoomPI.Session.Label (Step ConversationEvent)) :=
  [.submit { op := .cancelTurn, epoch := e }, .poll, .reply {}]

/-- The drain takes the event the goroutine is blocked with and finds no other, because the
goroutine has yet to run. The next one is of turn 1, and turn 2 reads it as its own. -/
theorem drain_leaves_cancelled_event :
    ∃ a, (served lenient (· = [])).Reachable a ∧ Contract lenient (· = []) (fun open' o => o ∈ open') ∧
      ¬ Fenced a := by
  obtain ⟨a, -, hreach, hp⟩ := (served lenient (· = [])).exists_of_run { session := { session := [] } }
    (List.flatten [[opens], commits 1,
      [emits { type := .started, responseID := "r1", origin := 1 },
        emits { type := .textDelta, responseID := "r1", text := "a", origin := 1 }],
      offered, cancels 1, commits 2, [resumes], offered, [.poll, .receive]])
    (fun a => a.trace.any fun
      | .delivered before raw => before.phase.responding && raw.origin != before.epoch
      | _ => false) ⟨_, ⟨[], rfl, rfl⟩, rfl⟩ (by decide +kernel)
  refine ⟨a, hreach, lenient_contract, fun h => ?_⟩
  obtain ⟨o, ho, hbad⟩ := List.any_eq_true.mp hp
  cases o with
  | delivered before raw =>
    simp only [Bool.and_eq_true, bne_iff_ne] at hbad
    exact hbad.2 (h.own before raw ho hbad.1)
  | _ => cases hbad

/-- A call returns only where it cancels, or where nothing is left of the responses. -/
def repliesDrained (a : Served (List Nat) ConversationEvent) :
    BoomPI.Session.Label (Step ConversationEvent) → Bool
  | .reply _ => (a.place matches .applying { op := .cancelTurn, .. }) ∨
      (a.session.session = [] ∧ upcoming a = [])
  | _ => true

/-- The goroutine runs while `Cancel` drains, and turn 2 reads its own response. -/
theorem fenced_drained : ∃ a : Served (List Nat) ConversationEvent,
    HandsOn lenient (· = []) a ∧ Fenced a ∧
      a.events.map (fun ev => (ev.epoch, ev.raw.origin)) = [(2, 2)] := by
  obtain ⟨a, hreach, hp⟩ := (served lenient (· = [])).exists_of_runIf
    repliesDrained
    (C := Cleared fun open' o => o ∈ open')
    (by
      rintro a l hc cmd out rfl hplace hop - - - - x hx
      rcases of_decide_eq_true hc with hcancel | ⟨hs, hup⟩
      · rw [hplace] at hcancel
        cases cmd
        cases hop
        cases hcancel
      · rw [hs, hup]
        refine ⟨fun o _ => ?_, fun o _ ev hev => absurd hev List.not_mem_nil⟩
        rintro (h | ⟨ev, hev, -⟩)
        · exact List.not_mem_nil h
        · exact List.not_mem_nil hev)
    { session := { session := [] } }
    (List.flatten [[opens], commits 1,
      [emits { type := .started, responseID := "r1", origin := 1 },
        emits { type := .textDelta, responseID := "r1", text := "a", origin := 1 }],
      offered, [.provider (.plan [{}, {}, {}, { moves := [.resume, .take, .offer] }])], cancels 1,
      commits 2, [emits { type := .started, responseID := "r2", origin := 2 }, resumes], offered,
      [.poll, .receive, .poll, .write]])
    (fun a => a.events.map (fun ev => (ev.epoch, ev.raw.origin)) = [(2, 2)])
    ⟨_, ⟨[], rfl, rfl⟩, rfl⟩ (by decide +kernel)
  exact ⟨a, (fenced_of_cleared lenient_contract hreach).1, (fenced_of_cleared lenient_contract hreach).2,
    of_decide_eq_true hp⟩

end BoomPI.Qwen.Pending
