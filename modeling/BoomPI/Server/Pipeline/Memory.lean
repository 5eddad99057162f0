import BoomPI.Server.Pipeline.Moves
import BoomPI.Server.Session.Follow

/-!
# Which turn a cancel takes out of memory

`lastResponseDiscardable` says that the last pair of the history may still be
taken back. It is cleared by the first PCM of the next turn, so a turn cancelled
before any of its PCM arrived takes back the pair of the turn before it.
-/

namespace BoomPI.Pipeline

open Backend (Error ConversationEvent EventType Call Outcomes)
open BoomPI.Session (Actor ActorState Label Command Operation Phase Place Applied ApplyCase AcceptCase call_map perform_one
  Move Aside Sound Lawful)

variable {cfg : Config} {act : Act} {s s' : Session} {events events' : List ConversationEvent}
  {a b : Actor Session} {l : Label Act} {result : Option Error}

-- ---------------------------------------------------------------------------
-- The invariant
-- ---------------------------------------------------------------------------

/-- The turn of epoch `e` is the newest one that got past listening. -/
def Current (st : ActorState) (e : Nat) : Prop :=
  (st.phase = .listening → e < st.epoch) ∧ (st.phase ≠ .listening → e = st.latest)

structure Running (cfg : Config) (st : ActorState) (s : Session) (r : Run) : Prop where
  current : Current st r.epoch
  early : r.stage.early = true → s.lastResponseDiscardable = false
  window : ∀ history, r.stage.window = some history →
    ∃ t, history = boundedHistory (s.history ++ [{ role := .user, content := t, epoch := r.epoch }]) cfg

structure Remembers (cfg : Config) (st : ActorState) (place : Place) (s : Session) : Prop where
  paired : Paired s.history
  flag : s.lastResponseDiscardable = true → s.history = [] ∨
    ∃ h e t v, Paired h ∧ s.history = h ++ pair e t v ∧ Current st e
  input : s.pcm ≠ [] → s.active = none ∧ s.lastResponseDiscardable = false
  running : ∀ r, s.active = some r → Running cfg st s r
  cancelling : ∀ c, s.cancelling = some c →
    (∃ cmd, place = .applying cmd ∧ cmd.op = .cancelTurn ∧ st.phase ≠ .idle ∧
      cmd.epoch = st.epoch) ∧
    (c.discardCompletedResponse = false →
      s.active = none ∧ s.lastResponseDiscardable = false)

variable {st st' : ActorState} {place place' : Place}

theorem Running.of_same {r : Run} (h : Running cfg st s r) (hs : Same s s') : Running cfg st s' r :=
  ⟨h.current, fun he => hs.flag ▸ h.early he, fun w hw => hs.history ▸ h.window w hw⟩

theorem Remembers.actor (h : Remembers cfg st place s) (hc : ∀ e, Current st e → Current st' e)
    (hp : ∀ c, s.cancelling = some c → place' = place ∧ st' = st) :
    Remembers cfg st' place' s := by
  refine ⟨h.paired, fun hf => ?_, h.input, fun r hr => ?_, fun c hcan => ?_⟩
  · refine (h.flag hf).imp_right ?_
    rintro ⟨h', e, t, v, hpair, heq, hcur⟩
    exact ⟨h', e, t, v, hpair, heq, hc e hcur⟩
  · obtain ⟨hcur, hearly, hwin⟩ := h.running r hr
    exact ⟨hc _ hcur, hearly, hwin⟩
  · obtain ⟨rfl, rfl⟩ := hp c hcan
    exact h.cancelling c hcan

theorem Remembers.runMove (h : Remembers cfg st place s) (m : RunMove cfg act s s') :
    Remembers cfg st place s' := by
  have same : Same s s' → (∀ r', s'.active = some r' → ∃ r, s.active = some r) →
      (∀ r', s'.active = some r' → Running cfg st s' r') → Remembers cfg st place s' := by
    intro hs hact hrun
    have none_of : s.active = none → s'.active = none := fun hn => by
      cases hact' : s'.active with
      | none => rfl
      | some r' =>
        obtain ⟨r, hr⟩ := hact r' hact'
        rw [hn] at hr
        cases hr
    refine ⟨hs.history ▸ h.paired, ?_, ?_, hrun, ?_⟩
    · rw [hs.flag, hs.history]
      exact h.flag
    · rw [hs.flag, hs.pcm]
      exact fun hp => ⟨none_of (h.input hp).1, (h.input hp).2⟩
    · rw [hs.flag, hs.cancelling]
      intro c hc
      obtain ⟨h1, h2⟩ := h.cancelling c hc
      exact ⟨h1, fun hd => ⟨none_of (h2 hd).1, (h2 hd).2⟩⟩
  cases m with
  | aside hs hact =>
    refine same hs (fun r' hr' => ?_) fun r' hr' => ?_
    · rcases hact with hact | hact
      · exact ⟨r', hact ▸ hr'⟩
      · rw [hact, Option.map_eq_some_iff] at hr'
        obtain ⟨r, hr, -⟩ := hr'
        exact ⟨r, hr⟩
    · rcases hact with hact | hact
      · exact (h.running r' (hact ▸ hr')).of_same hs
      · rw [hact, Option.map_eq_some_iff] at hr'
        obtain ⟨r, hr, rfl⟩ := hr'
        obtain ⟨h1, h2, h3⟩ := (h.running r hr).of_same hs
        exact ⟨h1, h2, h3⟩
  | going r r' hs hr hr' he hearly hwin =>
    have hrun := (h.running r hr).of_same hs
    refine same hs (fun _ _ => ⟨r, hr⟩) fun r'' hr'' => ?_
    rw [hr'] at hr''
    cases hr''
    exact ⟨he ▸ hrun.current, fun h => hrun.early (hearly h), fun w hw => he ▸ hrun.window w (hwin w hw)⟩
  | copied r t hs hr hstage hr' =>
    have hrun := (h.running r hr).of_same hs
    refine same hs (fun _ _ => ⟨r, hr⟩) fun r'' hr'' => ?_
    rw [hr'] at hr''
    cases hr''
    refine ⟨hrun.current, fun _ => hrun.early (by simp [hstage, Stage.early]), fun w hw => ⟨t, ?_⟩⟩
    cases hw
    rw [hs.history]
  | ended r hs hr hnone =>
    exact same hs (fun _ h => by simp [hnone] at h) fun _ h => by simp [hnone] at h
  | cleared r _ hr hstage hr' hhist hflag hpcm hcan =>
    refine ⟨hhist ▸ .nil, by simp [hflag], ?_, fun r'' hr'' => ?_, ?_⟩
    · rw [hpcm, hr']
      intro hp
      rw [(h.input hp).1] at hr
      cases hr
    · rw [hr'] at hr''
      cases hr''
      exact ⟨(h.running r hr).current, fun _ => hflag, fun w hw => by cases hw⟩
    · rw [hcan]
      intro c hc
      obtain ⟨h1, h2⟩ := h.cancelling c hc
      exact ⟨h1, fun hd => by rw [(h2 hd).1] at hr; cases hr⟩
  | remembered r history v _ hr hstage hr' hhist hflag hpcm hcan =>
    have hrun := h.running r hr
    obtain ⟨t, hw⟩ := hrun.window history (by simp [hstage, Stage.window])
    obtain ⟨h', hp', heq⟩ := boundedHistory_user h.paired cfg r.epoch t
    have hnew : s'.history = boundedHistory (h' ++ pair r.epoch t v) cfg := by
      rw [hhist, hw, heq, List.append_assoc]
      rfl
    refine ⟨hnew ▸ boundedHistory_paired hp' cfg _ _ _, fun _ => ?_, ?_, fun r'' hr'' => ?_, ?_⟩
    · rw [hnew]
      refine (boundedHistory_pair hp' cfg r.epoch t v).imp_right ?_
      rintro ⟨h'', hp'', heq⟩
      exact ⟨h'', r.epoch, t, v, hp'', heq, hrun.current⟩
    · rw [hpcm]
      intro hp
      rw [(h.input hp).1] at hr
      cases hr
    · rw [hr'] at hr''
      cases hr''
      exact ⟨hrun.current, by simp [Stage.early], fun w hw => by cases hw⟩
    · rw [hcan]
      intro c hc
      obtain ⟨h1, h2⟩ := h.cancelling c hc
      exact ⟨h1, fun hd => by rw [(h2 hd).1] at hr; cases hr⟩

-- ---------------------------------------------------------------------------
-- The calls of the actor
-- ---------------------------------------------------------------------------

theorem Remembers.of_rest (hp : Paired s.history) (ha : s.active = none)
    (hf : s.lastResponseDiscardable = false) (hc : s.cancelling = none) :
    Remembers cfg st place s :=
  ⟨hp, by simp [hf], fun _ => ⟨ha, hf⟩, by simp [ha], by simp [hc]⟩

/-- What discarding takes away is the last pair, and that is the current turn's. -/
theorem Remembers.discarded (h : Remembers cfg st place s) :
    s.discardCompletedResponseIfNeeded.history = s.history ∧
        ¬ (s.lastResponseDiscardable = true ∧ s.history ≠ []) ∨
      s.lastResponseDiscardable = true ∧ s.history ≠ [] ∧ ∃ e t v, Current st e ∧
        s.history = s.discardCompletedResponseIfNeeded.history ++ pair e t v := by
  cases hf : s.lastResponseDiscardable with
  | false => exact .inl ⟨by rw [discard_unset hf], by simp⟩
  | true =>
    rcases h.flag hf with h0 | ⟨h', e, t, v, -, heq, hcur⟩
    · exact .inl ⟨by rw [discard_empty h0], by simp [h0]⟩
    · refine .inr ⟨rfl, by simp [heq, pair], e, t, v, hcur, ?_⟩
      rw [discard_pair hf heq]
      exact heq

theorem Remembers.discard (h : Remembers cfg st place s) :
    Remembers cfg st place s.discardCompletedResponseIfNeeded ∧
      s.discardCompletedResponseIfNeeded.lastResponseDiscardable = false := by
  cases hf : s.lastResponseDiscardable with
  | false =>
    rw [discard_unset hf]
    exact ⟨h, hf⟩
  | true =>
    have hrun : ∀ r, s.active = some r → r.stage.window = none := fun r hr => by
      have := (h.running r hr).early
      cases hs : r.stage <;> simp_all [Stage.early, Stage.window]
    have keep : ∀ history, Paired history → Remembers cfg st place
        { s with history, lastResponseDiscardable := false } := fun history hp =>
      ⟨hp, by simp, fun hp => ⟨(h.input hp).1, rfl⟩,
        fun r hr => ⟨(h.running r hr).current, fun _ => rfl, fun w hw => by
          rw [hrun r hr] at hw
          cases hw⟩,
        fun c hc => ⟨(h.cancelling c hc).1, fun hd => ⟨((h.cancelling c hc).2 hd).1, rfl⟩⟩⟩
    rcases h.flag hf with h0 | ⟨h', e, t, v, hp, heq, -⟩
    · rw [discard_empty h0]
      exact ⟨h0 ▸ keep s.history h.paired, rfl⟩
    · rw [discard_pair hf heq]
      exact ⟨keep h' hp, rfl⟩

/-- `Cancel` returned nil: the session rests. -/
theorem Remembers.leaveCancel (h : Remembers cfg st place s) (hl : s.leaveCancel none = some s') :
    Paired s'.history ∧ s'.active = none ∧ s'.lastResponseDiscardable = false ∧
      s'.cancelling = none ∧ ∃ c, s.cancelling = some c ∧
      (s'.history = s.history ∧ ¬ (c.discardCompletedResponse = true ∧
        s.lastResponseDiscardable = true ∧ s.history ≠ []) ∨ c.discardCompletedResponse = true ∧
        s.lastResponseDiscardable = true ∧ s.history ≠ [] ∧
        ∃ e t v, Current st e ∧ s.history = s'.history ++ pair e t v) := by
  unfold Session.leaveCancel at hl
  split at hl
  · rename_i c hc _
    simp only [Option.ite_none_left_eq_some, Bool.not_eq_true, Option.isSome_eq_false_iff,
      Option.isNone_iff_eq_none] at hl
    obtain ⟨hact, hl⟩ := hl
    have h' : Remembers cfg st place { s with cancelling := none } :=
      ⟨h.paired, h.flag, h.input, by simp [hact], nofun⟩
    cases hd : c.discardCompletedResponse with
    | true =>
      rw [hd, if_pos rfl] at hl
      cases hl
      have hact' : ({ s with cancelling := none } : Session).discardCompletedResponseIfNeeded.active =
          none ∧ ({ s with cancelling := none } : Session).discardCompletedResponseIfNeeded.cancelling =
          none := by
        unfold Session.discardCompletedResponseIfNeeded
        split
        · exact ⟨hact, rfl⟩
        · exact ⟨hact, rfl⟩
      refine ⟨h'.discard.1.paired, hact'.1, h'.discard.2, hact'.2, c, hc, ?_⟩
      exact h'.discarded.imp (fun hx => ⟨hx.1, fun hy => hx.2 hy.2⟩) fun hx => ⟨hd, hx⟩
    | false =>
      rw [hd, if_neg (by simp)] at hl
      cases hl
      exact ⟨h.paired, hact, ((h.cancelling c hc).2 hd).2, rfl, c, hc, .inl ⟨rfl, by simp [hd]⟩⟩
  · cases ‹none = some _›
  · cases hl

theorem Remembers.cancelFailed (h : Remembers cfg st place s) {err : Error}
    (hl : s.leaveCancel (some err) = some s') :
    Remembers cfg st place' s' ∧ s'.history = s.history := by
  unfold Session.leaveCancel at hl
  split at hl
  · cases ‹some _ = none›
  · rw [Option.ite_none_right_eq_some] at hl
    obtain ⟨-, hl⟩ := hl
    cases hl
    exact ⟨⟨h.paired, h.flag, h.input, fun r hr => by
      obtain ⟨h1, h2, h3⟩ := h.running r hr
      exact ⟨h1, h2, h3⟩, nofun⟩, rfl⟩
  · cases hl

theorem Remembers.sendAudio (h : Remembers cfg st place s) {pcm : List UInt8}
    (hs : s.sendAudio pcm = some s') (hc : s.cancelling = none) :
    Remembers cfg st' place' s' ∧ s'.history = s.history := by
  unfold Session.sendAudio at hs
  simp only [Option.ite_none_left_eq_some, not_or, Bool.not_eq_true, Option.isSome_eq_false_iff,
    Option.isNone_iff_eq_none, Option.some.injEq] at hs
  obtain ⟨⟨-, -, -, hact, -⟩, rfl⟩ := hs
  refine ⟨.of_rest h.paired hact ?_ hc, rfl⟩
  by_cases hp : s.pcm = []
  · simp [hp]
  · simp [hp, (h.input hp).2]

theorem Remembers.commit (h : Remembers cfg st place s) {e : Nat} (hs : s.commit e = some s')
    (hc : s.cancelling = none) (hcur : Current st' e) :
    Remembers cfg st' place' s' ∧ s'.history = s.history := by
  unfold Session.commit at hs
  simp only [Option.ite_none_left_eq_some, not_or, Option.some.injEq] at hs
  obtain ⟨⟨-, -, hp⟩, rfl⟩ := hs
  have hf := (h.input hp).2
  refine ⟨⟨h.paired, by simp [hf], by simp, ?_, by simp [hc]⟩, rfl⟩
  rintro r ⟨⟩
  exact ⟨hcur, fun _ => hf, fun w hw => by cases hw⟩

theorem Remembers.enterCancel (h : Remembers cfg st place s) {cmd : Command}
    (hp : place' = .applying cmd ∧ cmd.op = .cancelTurn ∧ st.phase ≠ .idle ∧
      cmd.epoch = st.epoch) : Remembers cfg st place' s.enterCancel := by
  refine ⟨h.paired, h.flag, by simp [Session.enterCancel], fun r hr => ?_, ?_⟩
  · simp only [Session.enterCancel, Option.map_eq_some_iff] at hr
    obtain ⟨r, hr, rfl⟩ := hr
    obtain ⟨h1, h2, h3⟩ := h.running r hr
    exact ⟨h1, h2, h3⟩
  · rintro c ⟨⟩
    refine ⟨⟨cmd, hp⟩, fun hd => ?_⟩
    simp only [decide_eq_false_iff_not] at hd
    simpa [Session.enterCancel] using h.input hd

-- ---------------------------------------------------------------------------
-- The actor over the pipeline
-- ---------------------------------------------------------------------------

/-- How one step may change the history: it stays, a `Cancel` of the turn that wrote
the last pair removes that pair, the clear command empties it, or the answer of a turn
joins it and `boundedHistory` trims it. -/
inductive HistoryStep (cfg : Config) (a : Actor Session) (l : Label Act) (b : Actor Session) : Prop
  | kept : b.session.history = a.session.history → HistoryStep cfg a l b
  | cancelled (cmd : Command) (out : Outcomes) (t v : String) : l = .reply out →
      a.place = .applying cmd → cmd.op = .cancelTurn →
      a.session.history = b.session.history ++ pair cmd.epoch t v → HistoryStep cfg a l b
  | cleared (r : Run) : l = .provider .clear → a.session.active = some r → r.stage = .clearing →
      b.session.history = [] → HistoryStep cfg a l b
  | answered (r : Run) (t v : String) : l = .provider .remember → a.session.active = some r →
      b.session.history = boundedHistory (boundedHistory
        (a.session.history ++ [{ role := .user, content := t, epoch := r.epoch }]) cfg ++
        [{ role := .assistant, content := v, epoch := r.epoch }]) cfg → HistoryStep cfg a l b

/-- When `Cancel` of a listening turn returns without having met PCM of that turn, no
answer of an earlier turn is marked discardable. -/
def FreshInput (a : Actor Session) (l : Label Act) : Prop :=
  ∀ cmd out c, l = .reply out → a.place = .applying cmd → cmd.op = .cancelTurn →
    out.cancel = none → a.state.phase = .listening → cmd.epoch = a.state.epoch →
    a.session.cancelling = some c → c.discardCompletedResponse = true →
    a.session.lastResponseDiscardable = true → a.session.history = []

/-- A step that is no reply keeps the condition trivially. -/
theorem FreshInput.of_ne (h : ∀ out, l ≠ .reply out) : FreshInput a l :=
  fun _ out _ hl => absurd hl (h out)

/-- A command other than a `Cancel` of the current turn meets no `Cancel` under way. -/
theorem Remembers.no_cancelling {cmd : Command} (h : Remembers cfg st place s)
    (hp : place = .applying cmd)
    (hn : cmd.op = .cancelTurn → st.phase ≠ .idle → cmd.epoch ≠ st.epoch) : s.cancelling = none := by
  cases hc : s.cancelling with
  | none => rfl
  | some c =>
    obtain ⟨cmd', hp', hop, hi, he⟩ := (h.cancelling c hc).1
    rw [hp] at hp'
    cases hp'
    exact absurd he (hn hop hi)

theorem Remembers.no_cancelling_waiting (h : Remembers cfg st place s)
    (hp : place = .polling ∨ place = .selecting) : s.cancelling = none := by
  cases hc : s.cancelling with
  | none => rfl
  | some c =>
    obtain ⟨cmd, hp', -⟩ := (h.cancelling c hc).1
    rcases hp with rfl | rfl <;> cases hp'

theorem Remembers.quiet (h : Remembers cfg a.state a.place a.session) (hs : b.state = a.state)
    (hp : a.place = .polling ∨ a.place = .selecting ∨ b.place = a.place)
    (m : Aside (provider cfg) a l b) : Remembers cfg b.state b.place b.session := by
  rw [hs]
  have hplace : ∀ c, a.session.cancelling = some c → b.place = a.place ∧ a.state = a.state := by
    intro c hc
    rcases hp with hp | hp | hp
    · rw [h.no_cancelling_waiting (.inl hp)] at hc; cases hc
    · rw [h.no_cancelling_waiting (.inr hp)] at hc; cases hc
    · exact ⟨hp, rfl⟩
  cases m with
  | same hsess _ => exact hsess ▸ h.actor (fun _ => id) hplace
  | stepped k hk hp' => exact hp' ▸ h.runMove (step_runMove hk)
  | entered cmd c hp hp' hfirst hsess _ =>
    rw [hsess]
    cases c with
    | cancel e =>
      exact h.enterCancel ⟨hp', BoomPI.Session.firstCall_cancel hfirst⟩
    | _ => exact h.actor (fun _ => id) hplace

section Applied

variable {cmd : Command} {out : Outcomes} {r : Applied}

/-- A command that is no successful `Cancel` of the current turn. -/
theorem Remembers.applied (h : Remembers cfg st place s) (hp : place = .applying cmd)
    (hle : st.phase ≠ .idle → st.epoch = st.latest) (hc : ApplyCase true out cmd st r)
    (hn : ¬ (cmd.op = .cancelTurn ∧ st.phase ≠ .idle ∧ cmd.epoch = st.epoch ∧ out.cancel = none))
    (hperf : (provider cfg).perform out r.calls s events = some (s', events')) :
    Remembers cfg r.state .polling s' ∧ (s'.history = s.history ∨
      cmd.op = .cancelTurn ∧ ∃ t v, s.history = s'.history ++ pair cmd.epoch t v) := by
  have idle : cmd.op = .cancelTurn → st.phase = .idle → s.cancelling = none := fun _ hi =>
    h.no_cancelling hp fun _ hni => absurd hi hni
  have other : cmd.op ≠ .cancelTurn → s.cancelling = none := fun hop =>
    h.no_cancelling hp fun h => absurd h hop
  -- the memory is as it was and the actor at most counts a frame or starts a turn
  have keep : ∀ st', s.cancelling = none → (∀ e, Current st e → Current st' e) →
      Remembers cfg st' .polling s := fun st' hnone hcur =>
    h.actor hcur fun c hcan => by rw [hnone] at hcan; cases hcan
  cases hc with
  | refused _ hrefused =>
    cases hperf
    exact ⟨keep _ (h.no_cancelling hp hrefused) fun _ => id, .inl rfl⟩
  | started hop hi hlt =>
    cases hperf
    refine ⟨keep _ (other (by simp [hop])) fun e hcur => ⟨fun _ => ?_, by simp⟩, .inl rfl⟩
    have := hcur.2 (by simp [hi])
    dsimp only
    omega
  | audio hop _ _ ho =>
    have hcall := perform_one hperf
    simp only [provider, call, Outcomes.of, ho] at hcall
    obtain ⟨h1, h2⟩ := h.sendAudio (call_map hcall) (other (by simp [hop]))
    exact ⟨h1, .inl h2⟩
  | audioFailed hop _ _ ho =>
    have hcall := perform_one hperf
    simp only [provider, call, Outcomes.of, ho] at hcall
    cases hcall
    exact ⟨keep _ (other (by simp [hop])) fun _ => id, .inl rfl⟩
  | committed hop hl he _ ho =>
    have hcall := perform_one hperf
    simp only [provider, call, Outcomes.of, ho] at hcall
    have hcur : Current { st with phase := .thinking } cmd.epoch :=
      ⟨by simp, fun _ => he.trans (hle (by simp [hl]))⟩
    obtain ⟨h1, h2⟩ := h.commit (call_map hcall) (other (by simp [hop])) hcur
    exact ⟨h1, .inl h2⟩
  | commitFailed hop _ _ ho =>
    have hcall := perform_one hperf
    simp only [provider, call, Outcomes.of, ho] at hcall
    simp only [Option.ite_none_right_eq_some] at hcall
    obtain ⟨-, hcall⟩ := hcall
    cases hcall
    exact ⟨keep _ (other (by simp [hop])) fun _ => id, .inl rfl⟩
  | forgot hop hi he _ =>
    have hcall := perform_one hperf
    simp only [provider, call, Outcomes.of] at hcall
    cases ho : out.discardLastResponse with
    | some err => simp [ho] at hcall
    | none =>
      simp only [ho] at hcall
      cases hcall
      have hnone := idle hop hi
      have hnone' : s.discardCompletedResponseIfNeeded.cancelling = none := by
        unfold Session.discardCompletedResponseIfNeeded
        split <;> exact hnone
      refine ⟨h.discard.1.actor (fun _ => id) fun c hcan => ?_, h.discarded.imp And.left ?_⟩
      · rw [hnone'] at hcan
        cases hcan
      · rintro ⟨-, -, e, t, v, hcur, heq⟩
        have hep : e = cmd.epoch := (hcur.2 (by simp [hi])).trans he.symm
        exact ⟨hop, t, v, hep ▸ heq⟩
  | cancelFailed hop hi he ho =>
    have hcall := perform_one hperf
    simp only [provider, call, Outcomes.of, ho] at hcall
    have hfailed : Remembers cfg st .polling s' ∧ s'.history = s.history :=
      h.cancelFailed (call_map hcall)
    exact ⟨hfailed.1, .inl hfailed.2⟩
  | discardFailed hop hr he ho =>
    exact absurd ⟨hop, (BoomPI.Session.Phase.responding_ne hr).1, he, ho⟩ hn
  | cancelled hop hi he ho => exact absurd ⟨hop, hi, he, ho⟩ hn

/-- What follows a `Cancel` that returned nil finds nothing left to discard. -/
theorem perform_rest {cs : List Call} (hcs : cs = [] ∨ cs = [.discardLastResponse cmd.epoch])
    (hf : s.lastResponseDiscardable = false)
    (h : (provider cfg).perform out (cs ++ [.drain]) s events = some (s', events')) : s' = s := by
  obtain ⟨s1, events1, hdiscard, hdrain⟩ := BoomPI.Session.perform_append.mp h
  have hdrain := perform_one hdrain
  cases hdrain
  rcases hcs with rfl | rfl
  · cases hdiscard
    rfl
  · have hcall := perform_one hdiscard
    cases ho : out.discardLastResponse with
    | some err => simp [provider, call, Outcomes.of, ho] at hcall
    | none =>
      simp only [provider, call, Outcomes.of, ho] at hcall
      cases hcall
      exact discard_unset hf

/-- A successful `Cancel` of the current turn. -/
theorem Remembers.cancelled (h : Remembers cfg st place s)
    (hc : ApplyCase true out cmd st r) (hop : cmd.op = .cancelTurn) (hi : st.phase ≠ .idle)
    (he : cmd.epoch = st.epoch) (ho : out.cancel = none)
    (hperf : (provider cfg).perform out r.calls s events = some (s', events')) :
    Remembers cfg r.state .polling s' ∧ ∃ c, s.cancelling = some c ∧
      (s'.history = s.history ∧ ¬ (c.discardCompletedResponse = true ∧
        s.lastResponseDiscardable = true ∧ s.history ≠ []) ∨ c.discardCompletedResponse = true ∧
        s.lastResponseDiscardable = true ∧ s.history ≠ [] ∧
        ∃ e t v, Current st e ∧ s.history = s'.history ++ pair e t v) := by
  cases hc with
  | cancelled _ _ _ _ hd =>
    obtain ⟨s1, events1, hcall, hrest⟩ := BoomPI.Session.perform_cons.mp hperf
    have hcall : call (.cancel cmd.epoch) (out.of (.cancel cmd.epoch)) s events =
      some (s1, events1) := hcall
    simp only [call, Outcomes.of, ho] at hcall
    obtain ⟨hp, hact, hf, hnone, hhist⟩ := h.leaveCancel (call_map hcall)
    have := perform_rest (hd.imp And.left And.left) hf hrest
    subst this
    exact ⟨.of_rest hp hact hf hnone, hhist⟩
  | discardFailed _ _ _ _ hd _ =>
    obtain ⟨s1, events1, -, hrest⟩ := BoomPI.Session.perform_cons.mp hperf
    have hcall := perform_one hrest
    simp [provider, call, Outcomes.of, hd] at hcall
  | refused _ hrefused => exact absurd he (hrefused hop hi)
  | _ => simp_all

end Applied

-- ---------------------------------------------------------------------------
-- Every run
-- ---------------------------------------------------------------------------

theorem Current.received {raw : ConversationEvent} {event : Option BoomPI.Session.Event} {e : Nat}
    (hc : AcceptCase raw st (event, st')) (h : Current st e) : Current st' e := by
  cases hc with
  | ignored | foreign => exact h
  | invalid hr _ | ended hr _ _ _ =>
    exact ⟨nofun, fun _ => h.2 (BoomPI.Session.Phase.responding_ne hr).2⟩
  | accepted hr _ _ _ hr' =>
    exact ⟨fun hp => absurd hp (BoomPI.Session.Phase.responding_ne hr').2,
      fun _ => h.2 (BoomPI.Session.Phase.responding_ne hr).2⟩

theorem Remembers.historyStep (h : Remembers cfg a.state a.place a.session)
    (m : RunMove cfg act a.session b.session) (hl : l = .provider act) : HistoryStep cfg a l b := by
  cases m with
  | aside hs _ | going _ _ hs | copied _ _ hs | ended _ hs => exact .kept hs.history
  | cleared r hact hr hstage _ hhist => exact .cleared r (hact ▸ hl) hr hstage hhist
  | remembered r history v hact hr hstage _ hhist =>
    obtain ⟨t, hw⟩ := (h.running r hr).window history (by simp [hstage, Stage.window])
    exact .answered r t v (hact ▸ hl) hr (hw ▸ hhist)

/-- One step of the actor keeps the invariant, and its effect on the history is one of
the four exactly when the condition holds. -/
theorem Remembers.move (h : Remembers cfg a.state a.place a.session) (hl : Lawful a)
    (m : Move (provider cfg) a l b) :
    Remembers cfg b.state b.place b.session ∧ (HistoryStep cfg a l b ↔ FreshInput a l) := by
  -- a step that is no command: the memory is untouched and the actor is not in `apply`
  have outside : a.place = .selecting → b.session = a.session →
      (∀ e, Current a.state e → Current b.state e) →
      Remembers cfg b.state b.place b.session ∧ (HistoryStep cfg a l b ↔ FreshInput a l) := by
    intro hp hs hcur
    refine ⟨hs ▸ h.actor hcur fun c hc => ?_, fun _ => ?_, fun _ => .kept (by rw [hs])⟩
    · rw [h.no_cancelling_waiting (.inr hp)] at hc
      cases hc
    · intro cmd out c _ hp'
      rw [hp] at hp'
      cases hp'
  cases m with
  | quiet hs ht hplace haside hreply =>
    refine ⟨h.quiet hs hplace haside, fun _ => .of_ne hreply, fun _ => ?_⟩
    cases haside with
    | same hsess _ => exact .kept (by rw [hsess])
    | entered cmd c _ _ _ hsess _ =>
      refine .kept ?_
      rw [hsess]
      cases c <;> rfl
    | stepped k hk _ hl => exact (h.historyStep (step_runMove hk)) hl
  | expired cmd hp hs _ hsess _ => exact outside hp hsess (by rw [hs]; exact fun _ => id)
  | received raw event s' hp _ hc hs _ hsess _ =>
    refine outside hp hsess fun e he => ?_
    rw [hs]
    exact show Current s' e from he.received hc
  | wrote event hp _ hs _ hsess _ => exact outside hp hsess (by rw [hs]; exact fun _ => id)
  | closed event hp _ _ hs _ _ hsess _ => exact outside hp hsess (by rw [hs]; exact fun _ => id)
  | applied cmd out r hp hc hs _ hperf hlabel _ hp' =>
    rw [hp']
    have hsound := hl.sound (by simp [hp])
    by_cases hcancel : cmd.op = .cancelTurn ∧ a.state.phase ≠ .idle ∧ cmd.epoch = a.state.epoch ∧
        out.cancel = none
    · obtain ⟨hop, hi, he, ho⟩ := hcancel
      obtain ⟨hrem, c, hcan, hhist⟩ := h.cancelled hc hop hi he ho hperf
      refine ⟨hs ▸ hrem, ?_⟩
      rcases hhist with ⟨hhist, hkept⟩ | ⟨hd, hf, hne, e, t, v, hcur, heq⟩
      · refine ⟨fun _ => ?_, fun _ => .kept hhist⟩
        rintro cmd' out' c' - - - - - - hc' hd hf
        rw [hcan] at hc'
        cases hc'
        exact Decidable.not_not.mp fun hne => hkept ⟨hd, hf, hne⟩
      · refine ⟨fun hstep => ?_, fun hfresh => ?_⟩
        · -- a listening turn has no pair of its own to take back
          rintro cmd' out' c' - - - - hlis - - - -
          have hlt := hcur.1 hlis
          cases hstep with
          | kept hk => simp [hk, pair] at heq
          | cancelled cmd' out' t' v' _ hp'' _ heq' =>
            rw [hp] at hp''
            cases hp''
            rw [heq'] at heq
            have := (List.append_inj' heq rfl).2
            simp only [pair, List.cons.injEq, ChatMessage.mk.injEq] at this
            omega
          | cleared _ hl' => rw [hlabel] at hl'; cases hl'
          | answered _ _ _ hl' => rw [hlabel] at hl'; cases hl'
        · have hnl : a.state.phase ≠ .listening := fun hlis =>
            hne (hfresh cmd out c hlabel hp hop ho hlis he hcan hd hf)
          have hep : e = cmd.epoch := (hcur.2 hnl).trans ((hsound.current hi).symm.trans he.symm)
          exact .cancelled cmd out t v hlabel hp hop (hep ▸ heq)
    · obtain ⟨hrem, hhist⟩ := h.applied hp hsound.current hc hcancel hperf
      refine ⟨hs ▸ hrem, fun _ => ?_, fun _ => ?_⟩
      · rintro cmd' out' c hl' hpl hop ho hlis he - - -
        rw [hlabel] at hl'
        rw [hp] at hpl
        cases hl'
        cases hpl
        exact absurd ⟨hop, by simp [hlis], he, ho⟩ hcancel
      · rcases hhist with hhist | ⟨hop, t, v, heq⟩
        · exact .kept hhist
        · exact .cancelled cmd out t v hlabel hp hop heq

theorem remembers (h : (BoomPI.Session.machine (provider cfg) (· = {})).Reachable a) :
    Remembers cfg a.state a.place a.session := by
  refine h.invariant_with (I := fun a => Remembers cfg a.state a.place a.session)
    (fun _ => BoomPI.Session.lawful) ?_
    fun s l t hl _ hi _ hs => (hi.move hl (BoomPI.Session.step_move hs)).1
  rintro a ⟨p, rfl, rfl⟩
  exact .of_rest .nil rfl rfl rfl

/-- In every run, all steps change the history in one of the four ways if and only if
all steps meet the condition. -/
theorem memory_isolated_iff (cfg : Config) (ls : List (Label Act)) :
    (BoomPI.Session.machine (provider cfg) (· = {})).Along (HistoryStep cfg) { session := {} } ls ↔
      (BoomPI.Session.machine (provider cfg) (· = {})).Along (fun a l _ => FreshInput a l)
        { session := {} } ls := by
  refine Lts.Machine.along_iff (C := fun _ _ => True)
    (I := (BoomPI.Session.machine (provider cfg) (· = {})).Reachable) (.init ⟨{}, rfl, rfl⟩)
    (.of_forall fun _ _ _ => trivial) (fun a l b hr _ hs => ?_) fun a l b hr _ hs _ => hr.step hs
  exact ((remembers hr).move (BoomPI.Session.lawful hr) (BoomPI.Session.step_move hs)).2

-- ---------------------------------------------------------------------------
-- A turn cancelled before its first PCM
-- ---------------------------------------------------------------------------

/-- Turn 1 is answered to the end; turn 2 starts and is cancelled at once. -/
def cancelBeforeInput : List (Label Act) :=
  [.submit { op := .startTurn, epoch := 1 }, .poll, .command false, .reply {},
    .submit { op := .appendPCM, epoch := 1, pcm := List.replicate 640 0 },
    .poll, .command false, .reply {},
    .submit { op := .commit, epoch := 1 }, .poll, .command false, .reply {},
    .provider (.started "event-1"), .poll, .receive, .poll, .write,
    .provider (.heard (.ok "hi")), .provider .copy, .provider (.text "hello"),
    .poll, .receive, .poll, .write, .provider (.spoken (.ok "hello")), .provider .remember,
    .provider .done, .provider .finish, .poll, .receive, .poll, .write,
    .submit { op := .startTurn, epoch := 2 }, .poll, .command false, .reply {},
    .submit { op := .cancelTurn, epoch := 2 }, .poll]

/-- The `Cancel` of turn 2 removes the pair of turn 1. -/
theorem cancel_removes_earlier_pair :
    ∃ a b, (BoomPI.Session.machine (provider plainConfig) (· = {})).run { session := {} }
        cancelBeforeInput = some a ∧
      BoomPI.Session.step (provider plainConfig) a (.reply {}) = some b ∧
      a.place = .applying { op := .cancelTurn, epoch := 2 } ∧
      a.session.history = pair 1 "hi" "hello" ∧ b.session.history = [] ∧
      ¬ HistoryStep plainConfig a (.reply {}) b := by
  obtain ⟨a, hr, -, hp⟩ := (BoomPI.Session.machine (provider plainConfig) (· = {})).exists_of_run
    { session := {} } cancelBeforeInput
    (fun a => a.place = .applying { op := .cancelTurn, epoch := 2 } ∧
      a.session.history = pair 1 "hi" "hello" ∧
      (BoomPI.Session.step (provider plainConfig) a (.reply {})).map (·.session.history) = some [])
    ⟨_, rfl, rfl⟩ (by decide +kernel)
  obtain ⟨hplace, hhist, hstep⟩ := of_decide_eq_true hp
  rw [Option.map_eq_some_iff] at hstep
  obtain ⟨b, hb, hnil⟩ := hstep
  refine ⟨a, b, hr, hb, hplace, hhist, hnil, fun h => ?_⟩
  cases h with
  | kept h => simp [hnil, hhist, pair] at h
  | cancelled cmd out t v _ hp _ heq =>
    rw [hplace] at hp
    cases hp
    simp [hnil, hhist, pair] at heq
  | cleared _ hl => cases hl
  | answered _ _ _ hl => cases hl

end BoomPI.Pipeline
