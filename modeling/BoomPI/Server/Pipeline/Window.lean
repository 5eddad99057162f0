import BoomPI.Server.Consumer
import BoomPI.Server.Pipeline.Moves

/-!
# The history is whole pairs, at every moment of every session

`Windowed` is kept by every call and every step of the goroutines: the history
is a window of whole pairs, and so is what a running turn reasons over, up to the
user message it answers.
-/

namespace BoomPI.Pipeline

open Backend (Error ConversationEvent Call Consumer)

variable {cfg : Config} {act : Act} {s s' : Session} {events events' : List ConversationEvent}
  {h history : List ChatMessage} {c : Call} {result : Option Error} {e : Nat} {t v : String}
  {pcm : List UInt8}

/-- Whole pairs, no more than `MaxTurns` of them. -/
structure Window (cfg : Config) (h : List ChatMessage) : Prop where
  paired : Paired h
  bounded : h.length ≤ 2 * cfg.maxTurns

/-- What turn `e`, having heard `t`, reasons over: a window, and then the message. -/
def Request (cfg : Config) (e : Nat) (t : String) (history : List ChatMessage) : Prop :=
  ∃ h, Window cfg h ∧ history = h ++ [{ role := .user, content := t, epoch := e }]

def TakesPair (h h' : List ChatMessage) : Prop := h' = h ∨ ∃ e t v, h = h' ++ pair e t v

structure Windowed (cfg : Config) (s : Session) : Prop where
  history : Window cfg s.history
  request : ∀ r history, s.active = some r → r.stage.window = some history →
    ∃ t, Request cfg r.epoch t history

-- ---------------------------------------------------------------------------
-- Windows
-- ---------------------------------------------------------------------------

theorem Window.nil : Window cfg [] := ⟨.nil, Nat.zero_le _⟩

theorem Window.request (hw : Window cfg h) (e : Nat) (t : String) : Request cfg e t
    (boundedHistory (h ++ [{ role := .user, content := t, epoch := e }]) cfg) := by
  obtain ⟨h', hp, heq⟩ := boundedHistory_user hw.paired cfg e t
  have hlen := boundedHistory_length (h ++ [{ role := .user, content := t, epoch := e }]) cfg
  rw [heq, List.length_append] at hlen
  exact ⟨h', ⟨hp, Nat.le_of_add_right_le hlen⟩, heq⟩

theorem Request.answered (hr : Request cfg e t history) (v : String) : Window cfg
    (boundedHistory (history ++ [{ role := .assistant, content := v, epoch := e }]) cfg) := by
  obtain ⟨h, hw, rfl⟩ := hr
  refine ⟨?_, boundedHistory_length _ _⟩
  rw [List.append_assoc]
  exact boundedHistory_paired hw.paired cfg e t v

theorem Window.discard (hw : Window cfg s.history) :
    Window cfg s.discardCompletedResponseIfNeeded.history ∧
      TakesPair s.history s.discardCompletedResponseIfNeeded.history := by
  cases hf : s.lastResponseDiscardable with
  | false =>
    rw [discard_unset hf]
    exact ⟨hw, .inl rfl⟩
  | true =>
    by_cases hne : s.history = []
    · rw [discard_empty hne]
      exact ⟨hw, .inl rfl⟩
    · obtain ⟨h, e, t, v, hp, heq⟩ := hw.paired.last hne
      rw [discard_pair hf heq]
      have hlen := hw.bounded
      rw [heq, List.length_append] at hlen
      exact ⟨⟨hp, Nat.le_of_add_right_le hlen⟩, .inr ⟨e, t, v, heq⟩⟩

-- ---------------------------------------------------------------------------
-- What keeps them
-- ---------------------------------------------------------------------------

theorem Windowed.congr (hw : Windowed cfg s) (hh : s'.history = s.history)
    (ha : ∀ r', s'.active = some r' → r'.stage.window = none ∨
      ∃ r, s.active = some r ∧ r'.epoch = r.epoch ∧ r'.stage.window = r.stage.window) :
    Windowed cfg s' := by
  refine ⟨hh ▸ hw.history, fun r' history hr' hwin => ?_⟩
  rcases ha r' hr' with hn | ⟨r, hr, he, hsame⟩
  · rw [hn] at hwin
    cases hwin
  · rw [he]
    exact hw.request r history hr (hsame ▸ hwin)

theorem Windowed.runMove (hw : Windowed cfg s) (m : RunMove cfg act s s') : Windowed cfg s' := by
  cases m with
  | aside hs ha =>
    refine hw.congr hs.history fun r' hr' => .inr ?_
    rcases ha with ha | ha
    · exact ⟨r', ha ▸ hr', rfl, rfl⟩
    · rw [ha, Option.map_eq_some_iff] at hr'
      obtain ⟨r, hr, rfl⟩ := hr'
      exact ⟨r, hr, rfl, rfl⟩
  | going r r' hs hr hr' he _ hwin =>
    refine ⟨hs.history ▸ hw.history, fun r'' history h'' hw'' => ?_⟩
    rw [hr'] at h''
    cases h''
    rw [he]
    exact hw.request r history hr (hwin history hw'')
  | copied r t hs hr _ hr' =>
    refine ⟨hs.history ▸ hw.history, fun r'' history h'' hw'' => ?_⟩
    rw [hr'] at h''
    cases h''
    cases hw''
    exact ⟨t, hw.history.request r.epoch t⟩
  | cleared r _ _ _ hr' hh =>
    refine ⟨hh ▸ .nil, fun r'' history h'' hw'' => ?_⟩
    rw [hr'] at h''
    cases h''
    cases hw''
  | remembered r history v _ hr hst hr' hh =>
    refine ⟨?_, fun r'' history h'' hw'' => ?_⟩
    · obtain ⟨t, hreq⟩ := hw.request r history hr (by rw [hst]; rfl)
      rw [hh]
      exact hreq.answered v
    · rw [hr'] at h''
      cases h''
      cases hw''
  | ended r hs _ hr' =>
    refine hw.congr hs.history fun r' h' => ?_
    rw [hr'] at h'
    cases h'

theorem Windowed.discard (hw : Windowed cfg s) :
    Windowed cfg s.discardCompletedResponseIfNeeded :=
  ⟨hw.history.discard.1, by rw [discard_active]; exact hw.request⟩

theorem Windowed.enter (hw : Windowed cfg s) (c : Call) :
    Windowed cfg ((provider cfg).enter c s) := by
  cases c with
  | cancel =>
    refine hw.congr rfl fun r' hr' => .inr ?_
    obtain ⟨r, hr, rfl⟩ := Option.map_eq_some_iff.mp hr'
    exact ⟨r, hr, rfl, rfl⟩
  | sendAudio | commit | discardLastResponse | drain => exact hw

theorem Windowed.call (hw : Windowed cfg s) (hc : call c result s events = some (s', events')) :
    Windowed cfg s' ∧ TakesPair s.history s'.history := by
  have same (hh : s'.history = s.history) : TakesPair s.history s'.history := .inl hh
  cases c with
  | sendAudio e pcm =>
    cases result with
    | none =>
      simp only [BoomPI.Pipeline.call, Option.map_eq_some_iff] at hc
      obtain ⟨_, hsend, hc⟩ := hc
      cases hc
      rw [Session.sendAudio, Option.ite_none_left_eq_some] at hsend
      obtain ⟨-, hsend⟩ := hsend
      cases hsend
      exact ⟨hw.congr rfl fun r hr => .inr ⟨r, hr, rfl, rfl⟩, .inl rfl⟩
    | some err => cases hc; exact ⟨hw, .inl rfl⟩
  | commit e =>
    cases result with
    | none =>
      simp only [BoomPI.Pipeline.call, Option.map_eq_some_iff] at hc
      obtain ⟨_, hcommit, hc⟩ := hc
      cases hc
      rw [Session.commit, Option.ite_none_left_eq_some] at hcommit
      obtain ⟨-, hcommit⟩ := hcommit
      cases hcommit
      refine ⟨hw.congr rfl fun r hr => .inl ?_, .inl rfl⟩
      cases hr
      rfl
    | some err =>
      simp only [BoomPI.Pipeline.call, Option.ite_none_right_eq_some] at hc
      obtain ⟨-, hc⟩ := hc
      cases hc
      exact ⟨hw, .inl rfl⟩
  | cancel e =>
    simp only [BoomPI.Pipeline.call, Option.map_eq_some_iff] at hc
    obtain ⟨_, hleave, hc⟩ := hc
    cases hc
    have hleft : Windowed cfg { s with cancelling := none } :=
      hw.congr rfl fun r hr => .inr ⟨r, hr, rfl, rfl⟩
    unfold Session.leaveCancel at hleave
    split at hleave
    · rw [Option.ite_none_left_eq_some] at hleave
      obtain ⟨-, hleave⟩ := hleave
      cases hleave
      split
      · exact ⟨hleft.discard, hleft.history.discard.2⟩
      · exact ⟨hleft, .inl rfl⟩
    · rw [Option.ite_none_right_eq_some] at hleave
      obtain ⟨-, hleave⟩ := hleave
      cases hleave
      exact ⟨hleft, .inl rfl⟩
    · cases hleave
  | discardLastResponse e =>
    cases result with
    | none => cases hc; exact ⟨hw.discard, hw.history.discard.2⟩
    | some err => cases hc
  | drain => cases hc; exact ⟨hw, .inl rfl⟩

theorem windowed {a : Consumer Session}
    (h : (Consumer.machine (provider cfg) {}).Reachable a) : Windowed cfg a.session := by
  refine h.invariant (I := fun a => Windowed cfg a.session) ?_ ?_
  · rintro _ rfl
    exact ⟨.nil, nofun⟩
  rintro a l b hw hs
  cases l with
  | enter c =>
    obtain ⟨-, hp, -⟩ := Consumer.step_enter hs
    rw [hp]
    exact hw.enter c
  | returns result =>
    obtain ⟨c, s', events', -, hcall, rfl⟩ := Consumer.step_returns hs
    rw [Consumer.leave_session]
    exact (hw.call hcall).1
  | receive =>
    obtain ⟨event, events, -, -, rfl⟩ := Consumer.step_receive hs
    exact hw
  | session act =>
    obtain ⟨s', events', hstep, rfl⟩ := Consumer.step_session hs
    exact hw.runMove (step_runMove hstep)

theorem RunMove.request {r r' : Run} (m : RunMove cfg act s s') (hw : Windowed cfg s)
    (hr : s.active = some r) (hst : r.stage = .reading t) (hr' : s'.active = some r')
    (hst' : r'.stage = .responding history) : Request cfg r.epoch t history := by
  -- the run did not reason before the step
  have hno : r.stage.window ≠ some history := by simp [hst, Stage.window]
  cases m with
  | aside _ ha =>
    refine absurd ?_ hno
    rcases ha with ha | ha
    · rw [ha, hr] at hr'
      cases hr'
      simp [hst', Stage.window]
    · rw [ha, hr] at hr'
      cases hr'
      simp [show r.stage = .responding history from hst', Stage.window]
  | going r0 r1 _ h0 h1 _ _ hwin =>
    rw [hr] at h0
    rw [hr'] at h1
    cases h0
    cases h1
    exact absurd (hwin history (by simp [hst', Stage.window])) hno
  | copied r0 t0 _ h0 ht h1 =>
    rw [hr] at h0
    cases h0
    rw [hst] at ht
    cases ht
    rw [h1] at hr'
    cases hr'
    cases hst'
    exact hw.history.request r.epoch t
  | cleared _ _ _ _ h1 =>
    rw [h1] at hr'
    cases hr'
    cases hst'
  | remembered _ _ _ _ _ _ h1 =>
    rw [h1] at hr'
    cases hr'
    cases hst'
  | ended _ _ _ h1 =>
    rw [h1] at hr'
    cases hr'

/-- In every state the history is a window of whole pairs; what a turn reasons over is one,
followed by the message it just heard; and a call takes the newest pair off, or nothing. -/
theorem history_windowed (cfg : Config) {a : Consumer Session}
    (h : (Consumer.machine (provider cfg) {}).Reachable a) :
    Window cfg a.session.history ∧
      (∀ r history, a.session.active = some r → r.stage = .responding history →
        ∃ t, Request cfg r.epoch t history) ∧
      (∀ act b r t r' history, Consumer.step (provider cfg) a (.session act) = some b →
        a.session.active = some r → r.stage = .reading t → b.session.active = some r' →
        r'.stage = .responding history → Request cfg r.epoch t history) ∧
      ∀ result b, Consumer.step (provider cfg) a (.returns result) = some b →
        TakesPair a.session.history b.session.history := by
  have hw := windowed h
  refine ⟨hw.history, fun r history hr hst => hw.request r history hr (by rw [hst]; rfl), ?_, ?_⟩
  · intro act b r t r' history hs hr hst hr' hst'
    obtain ⟨s', events', hstep, rfl⟩ := Consumer.step_session (p := {}) hs
    exact (step_runMove hstep).request hw hr hst hr' hst'
  · intro result b hs
    obtain ⟨c, s', events', -, hcall, rfl⟩ := Consumer.step_returns (p := {}) hs
    rw [Consumer.leave_session]
    exact (hw.call hcall).2

def discardsAnswer : List (Consumer.Label Act) :=
  [.enter (.sendAudio 1 [0, 0]), .returns none, .enter (.commit 1), .returns none,
    .session (.started "event-1"), .session (.heard (.ok "hi")), .session .copy,
    .session (.text "hello"), .session (.spoken (.ok "hello")), .session .remember,
    .enter (.discardLastResponse 1)]

theorem history_windowed_discard : ∃ a, a.session.history = pair 1 "hi" "hello" ∧
    Window plainConfig a.session.history ∧
    ∀ b, Consumer.step (provider plainConfig) a (.returns none) = some b →
      TakesPair a.session.history b.session.history := by
  obtain ⟨a, -, ha, hp⟩ := (Consumer.machine (provider plainConfig) {}).exists_of_run
    { session := {} } discardsAnswer (fun a => a.session.history = pair 1 "hi" "hello") rfl
    (by decide +kernel)
  obtain ⟨hw, -, -, hcall⟩ := history_windowed plainConfig ha
  exact ⟨a, of_decide_eq_true hp, hw, hcall none⟩

end BoomPI.Pipeline
