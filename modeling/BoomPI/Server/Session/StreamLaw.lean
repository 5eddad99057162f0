import BoomPI.Server.Session.Delivery

/-!
# The stream law of the actor

Over any provider session and any order of channel operations, the trace of
`run` obeys the law the device handler and the provider rely on.
-/

namespace BoomPI.Session

open Backend (Error ConversationEvent EventType Call Outcomes)

variable {π κ : Type} {P : Backend.Session π κ} {Opened : π → Prop} {a b : Actor π}

-- ---------------------------------------------------------------------------
-- Audio before the commit
-- ---------------------------------------------------------------------------

/-- Each successful `Commit` comes after a successful `SendAudio` of its epoch. -/
def HeardBeforeCommit (t : List Obs) : Prop :=
  ∀ before o after, t = before ++ o :: after → ∀ e ∈ o.commits,
    ∃ pcm, .called (.sendAudio e pcm) none ∈ before

theorem HeardBeforeCommit.append {t os : List Obs} (h : HeardBeforeCommit t)
    (hos : ∀ o ∈ os, ∀ e ∈ o.commits, ∃ pcm, .called (.sendAudio e pcm) none ∈ t) :
    HeardBeforeCommit (t ++ os) := by
  intro before o after heq e he
  rcases Lts.log_split heq with ⟨mid, ht, -⟩ | ⟨mid, rfl, hnew⟩
  · exact h before o mid ht e he
  · obtain ⟨pcm, hm⟩ := hos o (by simp [hnew]) e he
    exact ⟨pcm, List.mem_append_left _ hm⟩

theorem ApplyCase.obs_commits {d : Bool} {out : Outcomes} {cmd : Command} {s : ActorState}
    {r : Applied} (h : ApplyCase d out cmd s r) {o : Obs} (ho : o ∈ r.obs out s cmd) {e : Nat}
    (he : e ∈ o.commits) : s.phase = .listening ∧ s.frames ≠ 0 ∧ e = s.epoch := by
  simp only [Applied.obs, List.mem_append, List.mem_map, List.mem_singleton] at ho
  rcases ho with ⟨c, hc, rfl⟩ | rfl
  · have hcommit : c = .commit e ∧ out.of c = none := by
      cases c <;> cases hout : out.of _ <;> simp_all [Obs.commits]
    obtain ⟨rfl, hout⟩ := hcommit
    cases h with
    | committed _ hl he' hf _ =>
      simp only [List.mem_singleton, Call.commit.injEq] at hc
      exact ⟨hl, hf, hc.trans he'⟩
    | commitFailed _ _ _ hfail => simp [Outcomes.of, hfail] at hout
    | cancelled _ _ _ _ hd => rcases hd with ⟨rfl, -⟩ | ⟨rfl, -⟩ <;> simp at hc
    | _ => simp at hc
  · cases he

theorem heard_before_commit (h : (machine P Opened).Reachable a) : HeardBeforeCommit a.trace := by
  refine h.invariant_with (I := fun a => HeardBeforeCommit a.trace) (fun _ => lawful) ?_
    fun s l t hl _ hi _ hs => ?_
  · rintro a ⟨p, -, rfl⟩ before o after heq
    simp at heq
  · cases step_move hs with
    | quiet _ ht _ => exact ht ▸ hi
    | expired _ _ _ ht | received _ _ _ _ _ _ _ ht | wrote _ _ _ _ ht | closed _ _ _ _ _ _ ht =>
      rw [ht]
      refine hi.append fun o ho e he => ?_
      rw [List.mem_singleton] at ho
      subst ho
      cases he
    | applied cmd out r hrun hc _ ht =>
      rw [ht, List.append_assoc]
      refine hi.append fun o ho e he => ?_
      obtain ⟨hp, hf, rfl⟩ := hc.obs_commits ho he
      exact (hl.sound (by simp [hrun])).frames hp hf

-- ---------------------------------------------------------------------------
-- Rejected events
-- ---------------------------------------------------------------------------

/-- An invalid event that met a waiting turn is behind it reported as the turn's `Error`,
unless the actor still holds that. -/
def Reported (t : List Obs) (pending : Option Event) : Prop :=
  ∀ before s raw after, t = before ++ .delivered s raw :: after → s.phase.responding = true →
    ∀ err ∈ validProviderEvent raw,
      .wrote (rejection s.epoch err) ∈ after ∨ rejection s.epoch err ∈ pending

theorem reported_of_none {os : List Obs} {pending : Option Event} (h : ∀ o ∈ os, o.rejects = none) :
    Reported os pending := by
  intro before s raw after heq hr err herr
  have hnone := h (.delivered s raw) (by simp [heq])
  simp [Obs.rejects, hr, Option.mem_def.mp herr] at hnone

theorem Reported.append {t os : List Obs} {pending pending' : Option Event} (h : Reported t pending)
    (hos : Reported os pending')
    (hkeeps : ∀ ev ∈ pending, ev.raw.type.terminal = true → .wrote ev ∈ os ∨ ev ∈ pending') :
    Reported (t ++ os) pending' := by
  intro before s raw after heq hr err herr
  rcases Lts.log_split heq with ⟨mid, ht, rfl⟩ | ⟨mid, -, hnew⟩
  · rcases h before s raw mid ht hr err herr with hw | hp
    · exact .inl (List.mem_append_left _ hw)
    · exact (hkeeps _ hp rfl).imp (List.mem_append_right _) id
  · exact hos mid s raw after hnew hr err herr

/-- A rejection leaves the turn idle, so no `Cancel` finds its `Error` still held. -/
theorem ApplyCase.keeps_terminal {d : Bool} {out : Outcomes} {cmd : Command} {s : ActorState}
    {r : Applied} (h : ApplyCase d out cmd s r) {ev : Event} (hev : ev ∈ s.pending)
    (hok : WroteOk s ev) (ht : ev.raw.type.terminal = true) : ev ∈ r.state.pending := by
  cases h with
  | cancelled hop hi =>
    refine Option.mem_filter_iff.mpr ⟨hev, ?_⟩
    rcases Phase.listening_or_responding hi with hl | hr
    · simpa using hok.listening hl
    · refine decide_eq_true fun heq => ?_
      rw [hok.opened hr heq] at ht
      cases ht
  | _ => exact hev

theorem AcceptCase.reported {raw : ConversationEvent} {s s' : ActorState} {event : Option Event}
    (h : AcceptCase raw s (event, s')) : Reported [.delivered s raw] event := by
  intro before s₁ raw₁ after heq hr err herr
  obtain ⟨rfl, heq⟩ := List.append_eq_singleton_iff.mp heq.symm |>.resolve_right (by simp)
  cases heq
  cases h with
  | ignored hn => simp [hn] at hr
  | invalid _ hv => exact .inr (Option.some.inj (hv.symm.trans herr) ▸ rfl)
  | foreign _ hv => simp [hv] at herr
  | accepted _ hv => simp [hv] at herr
  | ended _ hv => simp [hv] at herr

theorem reported (h : (machine P Opened).Reachable a) : Reported a.trace a.state.pending := by
  refine h.invariant_with (I := fun a => Reported a.trace a.state.pending) (fun _ => lawful) ?_
    fun s l t hl _ hi _ hs => ?_
  · rintro a ⟨p, -, rfl⟩
    exact reported_of_none (by simp)
  · cases step_move hs with
    | quiet hs ht _ => exact ht ▸ hs ▸ hi
    | expired _ _ hs ht =>
      rw [ht, hs]
      exact hi.append (reported_of_none (by simp [Obs.rejects])) fun ev hev _ => .inr hev
    | applied cmd out r hrun hc hs ht =>
      rw [ht, hs, List.append_assoc]
      refine hi.append (reported_of_none fun o ho => Applied.obs_rejects ho) fun ev hev hterm => ?_
      exact .inr (hc.keeps_terminal hev ((hl.sound (by simp [hrun])).pending ev hev).1 hterm)
    | received raw event s' _ hp hc hs ht =>
      rw [ht, hs]
      exact hi.append hc.reported (by simp [hp])
    | wrote event _ hp hs ht =>
      rw [ht, hs]
      refine hi.append (reported_of_none (by simp [Obs.rejects])) fun ev hev _ => .inl ?_
      rw [hp] at hev
      cases hev
      exact List.mem_singleton_self _
    | closed event _ hp _ hs _ ht =>
      rw [ht, hs]
      exact hi.append (reported_of_none (by simp [Obs.rejects])) (by simp [hp])

-- ---------------------------------------------------------------------------
-- The law
-- ---------------------------------------------------------------------------

/-- Everything the device handler and the provider may assume of the actor. The
pairwise fields relate an observation to every later one. -/
structure StreamLaw (a : Actor π) : Prop where
  /-- epochs of accepted `StartTurn` calls strictly increase -/
  starts_increase : a.trace.Pairwise fun o o' => ∀ e ∈ o.starts, ∀ e' ∈ o'.starts, e < e'
  /-- epochs written to `Events()` never decrease -/
  epochs_ordered : a.trace.Pairwise fun o o' =>
    ∀ ev ∈ o.writes, ∀ ev' ∈ o'.writes, ev.epoch ≤ ev'.epoch
  /-- one response ID for each epoch -/
  one_response : ∀ e, ∀ x ∈ written a.trace e, ∀ y ∈ written a.trace e,
    x.responseID = y.responseID
  /-- what is written of an epoch is a prefix of the response delivered for it -/
  in_order : ∀ e, written a.trace e <+: response a.trace e
  /-- only a cancelled turn, or one that rejected an invalid event, loses events of
  its response; what a shutdown can lose is the one event still held -/
  gap_free : ∀ e, (∀ o ∈ a.trace, ¬ o.cuts e) →
    response a.trace e = written a.trace e ++ held a.state e
  /-- a rejected event is reported as the `Error` of its turn, which no `Cancel` drops; what a
  shutdown can lose is the one still held -/
  reported : Reported a.trace a.state.pending
  /-- nothing of an epoch follows its `Done` or `Error` -/
  one_terminal : a.trace.Pairwise fun o o' =>
    ∀ ev ∈ o.writes, ∀ ev' ∈ o'.writes, ev.raw.type.terminal = true → ev.epoch ≠ ev'.epoch
  /-- nothing of an epoch follows its successful `Cancel` -/
  silent_after_cancel : a.trace.Pairwise fun o o' =>
    ∀ e ∈ o.cancels, ∀ ev ∈ o'.writes, ev.epoch ≠ e
  /-- a successful `Commit` comes after a successful `SendAudio` -/
  heard_before_commit : HeardBeforeCommit a.trace
  /-- no input after a successful `Commit`, so there is at most one -/
  no_input_after_commit : a.trace.Pairwise fun o o' =>
    ∀ e ∈ o.commits, ∀ e' ∈ o'.uses, e' ≠ e
  no_input_after_cancel : a.trace.Pairwise fun o o' =>
    ∀ e ∈ o.cancels, ∀ e' ∈ o'.uses, e' ≠ e
  no_input_after_terminal : a.trace.Pairwise fun o o' =>
    ∀ ev ∈ o.writes, ∀ e' ∈ o'.uses, ev.raw.type.terminal = true → ev.epoch ≠ e'
  no_input_after_start : a.trace.Pairwise fun o o' =>
    ∀ e ∈ o.starts, ∀ e' ∈ o'.uses, e ≤ e'

theorem stream_law (h : (machine P Opened).Reachable a) : StreamLaw a := by
  have hf := (lawful h).follows
  have ht := tracked h
  have order : ∀ e, written a.trace e <+: response a.trace e := fun e =>
    (List.prefix_append _ _).trans (ht.inOrder e)
  exact {
    starts_increase := hf.imp fun h => h.start
    epochs_ordered := hf.imp fun h => h.order
    one_response := fun e x hx y hy =>
      ofFirstID_sameID ((order e).subset hx) ((order e).subset hy)
    in_order := order
    gap_free := ht.whole
    reported := reported h
    one_terminal := hf.imp fun h => h.terminal
    silent_after_cancel := hf.imp fun h => h.silence
    heard_before_commit := heard_before_commit h
    no_input_after_commit := hf.imp fun h => h.committed
    no_input_after_cancel := hf.imp fun h => h.cancelled
    no_input_after_terminal := hf.imp fun h => h.ended
    no_input_after_start := hf.imp fun h => h.started }

def scripted : Backend.Session (List ConversationEvent) Unit where
  discarder := false
  enter _ script := script
  call
    | .drain, _, script, _ => some (script, [])
    | _, _, script, events => some (script, events)
  step
    | _, raw :: script, events => some (script, events ++ [raw])
    | _, [], _ => none

/-- An answer that is whole, and one whose second event has no text. -/
def twoAnswers : Actor (List ConversationEvent) :=
  { session := [{ type := .started, responseID := "r" }, { type := .done, responseID := "r" },
      { type := .started, responseID := "q" }, { type := .textDelta, responseID := "q" }] }

/-- A spoken turn, from `StartTurn` to the terminal event the device handler reads. -/
def spokenTurn (epoch : Nat) : List (Label Unit) :=
  [.submit { op := .startTurn, epoch }, .poll, .command false, .reply {},
    .submit { op := .appendPCM, epoch, pcm := List.replicate 640 0 },
    .poll, .command false, .reply {},
    .submit { op := .commit, epoch }, .poll, .command false, .reply {},
    .provider (), .poll, .receive, .poll, .write,
    .provider (), .poll, .receive, .poll, .write]

theorem stream_law_spokenTurn :
    ∃ a, (machine scripted fun _ => True).run twoAnswers (spokenTurn 1 ++ spokenTurn 2) = some a ∧
      a.events.map (fun event => (event.epoch, event.raw.type)) =
        [(1, .started), (1, .done), (2, .started), (2, .error)] ∧ StreamLaw a := by
  obtain ⟨a, hr, hreach, hp⟩ := (machine scripted fun _ => True).exists_of_run twoAnswers
    (spokenTurn 1 ++ spokenTurn 2) (fun a => a.events.map (fun event => (event.epoch, event.raw.type)) =
      [(1, .started), (1, .done), (2, .started), (2, .error)]) ⟨_, trivial, rfl⟩ (by decide +kernel)
  exact ⟨a, hr, by simpa using hp, stream_law hreach⟩

end BoomPI.Session
