import BoomPI.Server.Consumer
import BoomPI.Server.Pipeline
import BoomPI.Server.Qwen

/-!
# Ready for the next turn

Both sessions tell their consumer that a response has ended before they are
ready for the next one: `run` clears `activeDone` in a deferred function, and
the reader calls `finishResponse` after it has published the terminal event.
-/

namespace BoomPI.Pipeline

open Backend (Error Call Consumer)

def errActive : Error := .text "Qwen pipeline response is already active"

/-- What `SendAudio` returns. -/
def Session.sendAudioError (pcm : List UInt8) (s : Session) : Option Error :=
  if pcm = [] ∨ pcm.length % 2 ≠ 0 then
    some (.text "PCM must contain a non-empty whole number of 16-bit samples")
  else if s.closed then some (.text "Qwen pipeline session is closed")
  else if s.active.isSome then some errActive
  else if maxInputPCMBytes < s.pcm.length + pcm.length then
    some (.text "Qwen pipeline input exceeds 60 seconds")
  else none

/-- What `Commit` returns. -/
def Session.commitError (s : Session) : Option Error :=
  if s.closed then some (.text "Qwen pipeline session is closed")
  else if s.active.isSome then some errActive
  else if s.pcm = [] then some (.text "Qwen pipeline input audio is empty")
  else none

theorem sendAudio_isSome {s : Session} {pcm : List UInt8} :
    (s.sendAudio pcm).isSome ↔ s.sendAudioError pcm = none := by
  unfold Session.sendAudio Session.sendAudioError
  by_cases hp : pcm = [] <;> by_cases ho : pcm.length % 2 ≠ 0 <;> cases s.closed <;>
    cases s.active <;> by_cases hm : maxInputPCMBytes < s.pcm.length + pcm.length <;>
    simp [hp, ho, hm]

theorem commit_isSome {s : Session} {epoch : Nat} :
    (s.commit epoch).isSome ↔ s.commitError = none := by
  unfold Session.commit Session.commitError
  cases s.closed <;> cases s.active <;> by_cases hp : s.pcm = [] <;> simp [hp]

/-- `run` has published its terminal event and not yet cleared `activeDone`. -/
def Session.lingering (s : Session) : Bool :=
  s.closed = false ∧ s.active.any fun r => r.stage = .ending

/-- No run is active, or only its deferred functions are left. -/
def Session.Over (s : Session) : Prop := ∀ r, s.active = some r → r.stage = .ending

variable {cfg : Config} {s s' : Session} {events events' : List Backend.ConversationEvent} {act : Act}

theorem emit_tells {event : Backend.ConversationEvent} {t : Session}
    (h : (emit cfg event events).map (fun events => (t, events)) = some (s', events'))
    (ht : event.type.terminal = true → t.Over) :
    events' = events ∨ ∃ e, events' = events ++ [e] ∧ (e.type.terminal = true → s'.Over) := by
  simp only [emit, Option.map_eq_some_iff, Option.ite_none_right_eq_some, Option.some.injEq] at h
  obtain ⟨_, ⟨-, rfl⟩, heq⟩ := h
  cases heq
  exact .inr ⟨event, rfl, ht⟩

theorem runStep_tells {r : Run} (h : runStep cfg act r s events = some (s', events')) :
    events' = events ∨ ∃ e, events' = events ++ [e] ∧ (e.type.terminal = true → s'.Over) := by
  have ending (t : Session) (r' : Run) (hr : r'.stage = .ending) :
      Session.Over { t with active := some r' } := by
    rintro _ ⟨⟩
    exact hr
  unfold runStep at h
  simp only at h
  split at h
  case h_1 => exact emit_tells h nofun
  case h_5 =>
    rw [Option.ite_none_right_eq_some] at h
    exact emit_tells h.2 nofun
  case h_7 => exact emit_tells h nofun
  case h_8 | h_9 =>
    rw [Option.ite_none_left_eq_some] at h
    exact emit_tells h.2 nofun
  case h_15 => exact emit_tells h fun _ => ending _ _ rfl
  case h_16 => exact emit_tells h fun _ => ending _ _ rfl
  all_goals
    repeat' split at h
    all_goals cases h
    all_goals exact .inl rfl

theorem runStep_ending {r : Run} (hr : r.stage = .ending)
    (h : runStep cfg act r s events = some (s', events')) : s'.active = none := by
  cases act <;> simp [runStep, hr] at h
  obtain ⟨rfl, -⟩ := h
  rfl

theorem step_over (ho : s.Over) (h : step cfg act s events = some (s', events')) : s'.Over := by
  unfold step at h
  split at h
  · rw [Option.ite_none_right_eq_some] at h
    cases h.2
    exact ho
  · rw [Option.ite_none_right_eq_some] at h
    cases h.2
    exact ho
  · cases h
    intro r hr
    obtain ⟨r', hr', rfl⟩ := Option.map_eq_some_iff.mp hr
    exact ho r' hr'
  · split at h
    · rename_i r hr
      intro r' hr'
      rw [runStep_ending (ho r hr) h] at hr'
      cases hr'
    · cases h

theorem step_tells (h : step cfg act s events = some (s', events')) :
    events' = events ∨ ∃ e, events' = events ++ [e] ∧ (e.type.terminal = true → s'.Over) := by
  unfold step at h
  split at h
  · rw [Option.ite_none_right_eq_some] at h
    cases h.2
    exact .inl rfl
  · rw [Option.ite_none_right_eq_some] at h
    cases h.2
    exact .inl rfl
  · cases h
    exact .inl rfl
  · split at h
    · exact runStep_tells h
    · cases h

/-- No call but a successful `Commit` starts a run. -/
theorem call_over {c : Call} {result : Option Error} (hc : ∀ e, c = .commit e → result ≠ none)
    (ho : s.Over) (h : call c result s events = some (s', events')) : s'.Over := by
  unfold call at h
  split at h
  · simp only [Session.sendAudio, Option.map_eq_some_iff, Option.ite_none_left_eq_some,
      Option.some.injEq] at h
    obtain ⟨_, ⟨-, rfl⟩, heq⟩ := h
    cases heq
    exact ho
  · cases h
    exact ho
  · exact absurd rfl (hc _ rfl)
  · rw [Option.ite_none_right_eq_some] at h
    cases h.2
    exact ho
  · simp only [Option.map_eq_some_iff] at h
    obtain ⟨t, ht, heq⟩ := h
    cases heq
    unfold Session.leaveCancel at ht
    split at ht
    · split at ht <;> cases ht
      split
      · intro r hr
        rw [discard_active] at hr
        exact ho r hr
      · exact ho
    · split at ht <;> cases ht
      exact ho
    · cases ht
  · cases h
    intro r hr
    rw [discard_active] at hr
    exact ho r hr
  · cases h
  · cases h
    exact ho

theorem call_events {c : Call} {result : Option Error}
    (h : call c result s events = some (s', events')) : events' = events ∨ events' = [] := by
  unfold call at h
  split at h
  case h_2 | h_6 =>
    cases h
    exact .inl rfl
  case h_4 =>
    rw [Option.ite_none_right_eq_some] at h
    cases h.2
    exact .inl rfl
  case h_7 => cases h
  case h_8 =>
    cases h
    exact .inr rfl
  all_goals
    rw [Option.map_eq_some_iff] at h
    obtain ⟨_, -, heq⟩ := h
    cases heq
    exact .inl rfl

theorem tells (cfg : Config) :
    Consumer.Tells (provider cfg) (fun _ => True) fun _ => Session.Over where
  step _ h := ⟨trivial, fun ho => step_over ho h, step_tells h⟩
  enter {c s} _ := by
    refine ⟨trivial, fun ho => ?_⟩
    cases c with
    | cancel e =>
      intro r hr
      obtain ⟨r', hr', rfl⟩ := Option.map_eq_some_iff.mp hr
      exact ho r' hr'
    | _ => exact ho
  call _ h := ⟨trivial, call_events h, fun ho hc => call_over hc ho h⟩

theorem sendAudioError_active {pcm : List UInt8} (h : s.sendAudioError pcm = some errActive) :
    s.closed = false ∧ s.active.isSome = true := by
  unfold Session.sendAudioError at h
  split at h
  · exact absurd h (by decide)
  split at h
  · exact absurd h (by decide)
  split at h
  · exact ⟨Bool.eq_false_iff.mpr ‹_›, ‹_›⟩
  split at h <;> exact absurd h (by decide)

theorem commitError_active (h : s.commitError = some errActive) :
    s.closed = false ∧ s.active.isSome = true := by
  unfold Session.commitError at h
  split at h
  · exact absurd h (by decide)
  split at h
  · exact ⟨Bool.eq_false_iff.mpr ‹_›, ‹_›⟩
  split at h <;> exact absurd h (by decide)

/-- After the terminal event, the session refuses the next turn exactly while the
goroutine `run` has not cleared `activeDone`. -/
theorem refused_iff {a : Consumer Session}
    (h : (Consumer.machine (provider cfg) {}).Reachable a) (he : a.ended = true) :
    ((∃ pcm, a.session.sendAudioError pcm = some errActive) ∨
      a.session.commitError = some errActive) ↔ a.session.lingering = true := by
  have ho : a.session.Over := (Consumer.told_over (tells cfg) trivial h).2 (by simp [Consumer.told, he])
  generalize a.session = s at ho
  constructor
  · intro hr
    have hactive : s.closed = false ∧ s.active.isSome = true := by
      rcases hr with ⟨pcm, hr⟩ | hr
      · exact sendAudioError_active hr
      · exact commitError_active hr
    obtain ⟨r, hr⟩ := Option.isSome_iff_exists.mp hactive.2
    simp [Session.lingering, hactive.1, hr, ho r hr]
  · intro hl
    simp only [Session.lingering, Bool.decide_and, Bool.and_eq_true,
      decide_eq_true_eq, Option.any_eq_true] at hl
    obtain ⟨hc, r, hr, -⟩ := hl
    exact .inr (by simp [Session.commitError, hc, hr])

end BoomPI.Pipeline

namespace BoomPI.Qwen

open Backend (Error Call Consumer ConversationEvent)

def errActive : Error := .text "qwen response is already active"

/-- What the first lock section of `Commit` returns. `SendAudio` has no such check. -/
def Session.commitError (s : Session) : Option Error :=
  if s.responseRequested then some errActive else none

/-- The reader has published a terminal event, and `finishResponse` is still to come. -/
def Session.lingering (s : Session) : Bool :=
  s.responseRequested && s.reader.head?.any fun op => match op with
    | .finishResponse _ => true
    | _ => false

def Session.Over (s : Session) : Prop :=
  s.responseRequested = true → ∃ err rest, s.reader = .finishResponse err :: rest

/-- `finishResponse` follows every terminal event. -/
def Finishes : List ReaderOp → Prop
  | [] => True
  | .publish event :: rest | .publishing event _ :: rest =>
    (event.type.terminal = true → ∃ err rest', rest = .finishResponse err :: rest') ∧ Finishes rest
  | _ :: rest => Finishes rest

variable {n : Nat} {s s' : Session} {events events' : List ConversationEvent}

theorem enter_commit_refused {e : Nat} :
    (enter (.commit e) s).calling = .commit true ↔ s.commitError = some errActive := by
  unfold enter Session.commitError
  cases s.responseRequested <;> simp

theorem finishes_notes (items : List Item) {rest : List ReaderOp} (h : Finishes rest) :
    Finishes (items.map .note ++ rest) := by
  induction items with
  | nil => exact h
  | cons item items ih => exact ih

theorem finishes_audio (responseID : String) (pcms : List (List UInt8)) :
    Finishes (pcms.map fun pcm =>
      .publish { type := .audio, responseID, pcm, sampleRateHz := 24000 }) := by
  induction pcms with
  | nil => trivial
  | cons pcm pcms ih => exact ⟨nofun, ih⟩

theorem handleServerEvent_finishes (readyOK : Bool) (event : ServerEvent) :
    Finishes (handleServerEvent readyOK event) := by
  cases event with
  | error err =>
    show Finishes (if readyOK = true then _ else _)
    split
    · exact ⟨fun _ => ⟨_, _, rfl⟩, trivial⟩
    · trivial
  | itemAdded item =>
    have h : Finishes ((assistantItems [item]).map .note ++ []) := finishes_notes _ trivial
    rwa [List.append_nil] at h
  | audioDelta responseID pcm =>
    cases pcm with
    | error err => trivial
    | ok pcm =>
      show Finishes (if pcm = [] ∨ pcm.length % 2 ≠ 0 then _ else _)
      split
      · trivial
      · exact finishes_audio ..
  | responseDone id status output =>
    exact finishes_notes _ ⟨fun _ => ⟨_, _, rfl⟩, trivial⟩
  | responseCreated | textDelta => exact ⟨nofun, trivial⟩
  | sessionUpdated | other => trivial

theorem over_of_free (h : s.responseRequested = false) : s.Over := fun hr => by
  rw [h] at hr
  cases hr

theorem fail_over {err : Error} (h : s.responseRequested = false ∨ s.fatalErr = none) :
    (s.fail err).responseRequested = false := by
  unfold Session.fail
  split
  · rename_i hf
    refine h.resolve_right fun hn => ?_
    rw [hn] at hf
    cases hf
  · rfl

/-- What the session tells: it is over, or a `Commit` has just taken it. -/
def Told : Option Call → Session → Prop
  | some (.commit _), s => s.Over ∨ s.calling = .commit false
  | _, s => s.Over

theorem told_of_over {c : Option Call} (h : s.Over) : Told c s := by
  unfold Told
  split
  · exact .inl h
  · exact h

theorem told_mono {c : Option Call} (h : Told c s) (ho : s.Over → s'.Over)
    (hc : s.calling = .commit false → s'.calling = .commit false) : Told c s' := by
  unfold Told at h ⊢
  split
  · exact h.imp ho hc
  · simp_all

theorem finishes_tail {op : ReaderOp} {rest : List ReaderOp} (h : Finishes (op :: rest)) :
    Finishes rest := by
  cases op with
  | publish | publishing => exact h.2
  | _ => exact h

theorem readStep_tells (hf : Finishes s.reader) (h : readStep n s events = some (s', events')) :
    Finishes s'.reader ∧ (s.Over → s'.Over) ∧ s'.calling = s.calling ∧
      (events' = events ∨ ∃ e, events' = events ++ [e] ∧ (e.type.terminal = true → s'.Over)) := by
  unfold readStep at h
  split at h
  · cases h
  · rename_i hr
    cases h
    refine ⟨finishes_tail (hr ▸ hf), fun ho => over_of_free ?_, rfl, .inl rfl⟩
    exact Bool.eq_false_iff.mpr fun hreq => by simpa [hr] using ho hreq
  · rename_i hr
    cases h
    refine ⟨finishes_tail (hr ▸ hf), fun ho => over_of_free ?_, rfl, .inl rfl⟩
    exact Bool.eq_false_iff.mpr fun hreq => by simpa [hr] using ho hreq
  · rename_i hr
    rw [hr] at hf
    split at h <;> cases h
    · refine ⟨finishes_tail hf, fun ho => over_of_free ?_, rfl, .inl rfl⟩
      exact Bool.eq_false_iff.mpr fun hreq => by simpa [hr] using ho hreq
    · refine ⟨hf, fun ho => over_of_free ?_, rfl, .inl rfl⟩
      exact Bool.eq_false_iff.mpr fun hreq => by simpa [hr] using ho hreq
  · rename_i event ch rest hr
    rw [hr] at hf
    split at h <;> cases h
    refine ⟨finishes_tail hf, fun ho => over_of_free ?_, rfl, .inr ⟨event, rfl, fun ht _ => hf.1 ht⟩⟩
    exact Bool.eq_false_iff.mpr fun hreq => by simpa [hr] using ho hreq
  · rename_i hr
    cases h
    exact ⟨finishes_tail (hr ▸ hf), fun _ => over_of_free rfl, rfl, .inl rfl⟩
  · rename_i err rest hr
    cases h
    refine ⟨trivial, fun ho => over_of_free (fail_over (.inl ?_)), ?_, .inl rfl⟩
    · exact Bool.eq_false_iff.mpr fun hreq => by simpa [hr] using ho hreq
    · unfold Session.fail
      split <;> rfl

theorem fail_calling {err : Error} : (s.fail err).calling = s.calling := by
  unfold Session.fail
  split <;> rfl

theorem fail_reader {err : Error} : (s.fail err).reader = s.reader := by
  unfold Session.fail
  split <;> rfl

theorem fail_keeps_over {err : Error} (h : s.Over) : (s.fail err).Over := by
  unfold Session.fail
  split
  · exact h
  · exact over_of_free rfl

theorem step_tells {act : Act} (hf : Finishes s.reader)
    (h : step n act s events = some (s', events')) :
    Finishes s'.reader ∧ (s.Over → s'.Over) ∧
      (s.calling = .commit false → s'.calling = .commit false) ∧
      (events' = events ∨ ∃ e, events' = events ++ [e] ∧ (e.type.terminal = true → s'.Over)) := by
  unfold step at h
  split at h
  · split at h <;> cases h
    rename_i hr
    refine ⟨handleServerEvent_finishes .., fun ho => over_of_free ?_, id, .inl rfl⟩
    exact Bool.eq_false_iff.mpr fun hreq => by simpa [hr.1] using ho hreq
  · split at h <;> cases h
    exact ⟨(congrArg Finishes fail_reader).mpr hf, fail_keeps_over, fun hc => fail_calling.trans hc, .inl rfl⟩
  · obtain ⟨h1, h2, h3, h4⟩ := readStep_tells hf h
    exact ⟨h1, h2, h3.trans, h4⟩
  · split at h
    · rename_i hr
      split at h <;> cases h
      refine ⟨finishes_tail (hr ▸ hf), fun ho => over_of_free ?_, id, .inl rfl⟩
      exact Bool.eq_false_iff.mpr fun hreq => by simpa [hr] using ho hreq
    · cases h
  · split at h
    · rename_i hr
      split at h <;> cases h
      refine ⟨trivial, fun ho => over_of_free (fail_over (.inl ?_)),
        fun hc => Eq.trans fail_calling hc, .inl rfl⟩
      exact Bool.eq_false_iff.mpr fun hreq => by simpa [hr] using ho hreq
    · cases h
  · split at h <;> cases h
    exact ⟨hf, id, id, .inl rfl⟩
  · split at h
    · split at h
      · cases h
      split at h <;> cases h <;> exact ⟨hf, id, id, .inl rfl⟩
    · cases h
  · split at h <;> cases h
    exact ⟨(congrArg Finishes fail_reader).mpr hf, fail_keeps_over, fun hc => fail_calling.trans hc, .inl rfl⟩
  · split at h <;> cases h
    rename_i hc
    refine ⟨hf, id, fun hcommit => ?_, .inl rfl⟩
    rw [hc.1] at hcommit
    cases hcommit
  · cases h
    exact ⟨hf, id, id, .inl rfl⟩

theorem enqueueNow_over {batch : OutboundBatch} (h : s.enqueueNow n batch = some s') :
    s'.reader = s.reader ∧ s'.responseRequested = s.responseRequested := by
  unfold Session.enqueueNow at h
  split at h <;> cases h
  exact ⟨rfl, rfl⟩

theorem over_congr (hr : s'.reader = s.reader) (hq : s'.responseRequested = s.responseRequested)
    (h : s.Over) : s'.Over := fun hreq => by
  rw [hr]
  exact h (hq ▸ hreq)

theorem commit_over {e : Nat} {result : Option Error} (h : s.commit n e result = some s') :
    s'.reader = s.reader ∧
      (result ≠ none → s.Over ∨ s.calling = .commit false → s'.Over) := by
  unfold Session.commit at h
  split at h
  · exact ⟨(enqueueNow_over h).1, fun hn => absurd rfl hn⟩
  · cases h
    exact ⟨rfl, fun _ _ => over_of_free rfl⟩
  · rename_i hc
    cases h
    refine ⟨rfl, fun _ ho => ?_⟩
    refine over_congr (s := s) rfl rfl (ho.resolve_right fun hfree => ?_)
    rw [hc] at hfree
    cases hfree
  · cases h

theorem cancel_over {result : Option Error} (h : s.cancel result = some s') :
    s'.reader = s.reader ∧ s'.responseRequested = s.responseRequested := by
  unfold Session.cancel at h
  split at h
  · split at h <;> cases h
    exact ⟨rfl, rfl⟩
  · cases h
    exact ⟨rfl, rfl⟩
  · cases h
    exact ⟨rfl, rfl⟩
  · cases h
    exact ⟨rfl, rfl⟩
  · split at h <;> cases h
    exact ⟨rfl, rfl⟩
  · cases h
    exact ⟨rfl, rfl⟩
  · cases h

theorem discard_over {e : Nat} {result : Option Error}
    (h : s.discardLastResponse n e result = some s') :
    s'.reader = s.reader ∧ s'.responseRequested = s.responseRequested := by
  unfold Session.discardLastResponse at h
  dsimp only at h
  split at h
  · cases h
    exact ⟨rfl, rfl⟩
  · cases h
  · obtain ⟨hr, hq⟩ := enqueueNow_over h
    exact ⟨hr, hq⟩
  · cases h
    exact ⟨rfl, rfl⟩

theorem call_tells {c : Call} {result : Option Error} (hf : Finishes s.reader)
    (h : call n c result s events = some (s', events')) :
    Finishes s'.reader ∧ (events' = events ∨ events' = []) ∧
      (Told (some c) s → (∀ e, c = .commit e → result ≠ none) → s'.Over) := by
  unfold call at h
  split at h
  · split at h
    · cases h
    · rw [Option.map_eq_some_iff] at h
      obtain ⟨t, ht, heq⟩ := h
      cases heq
      obtain ⟨hr, hq⟩ := enqueueNow_over ht
      exact ⟨hr ▸ hf, .inl rfl, fun ho _ => over_congr hr hq ho⟩
  · cases h
    exact ⟨hf, .inl rfl, fun ho _ => ho⟩
  · rw [Option.map_eq_some_iff] at h
    obtain ⟨t, ht, heq⟩ := h
    cases heq
    obtain ⟨hr, ho⟩ := commit_over ht
    exact ⟨hr ▸ hf, .inl rfl, fun htold hc => ho (hc _ rfl) htold⟩
  · rw [Option.map_eq_some_iff] at h
    obtain ⟨t, ht, heq⟩ := h
    cases heq
    obtain ⟨hr, hq⟩ := cancel_over ht
    exact ⟨hr ▸ hf, .inl rfl, fun ho _ => over_congr hr hq ho⟩
  · rw [Option.map_eq_some_iff] at h
    obtain ⟨t, ht, heq⟩ := h
    cases heq
    obtain ⟨hr, hq⟩ := discard_over ht
    exact ⟨hr ▸ hf, .inl rfl, fun ho _ => over_congr hr hq ho⟩
  · cases h
    exact ⟨hf, .inr rfl, fun ho _ => ho⟩

theorem enter_tells {c : Call} (hf : Finishes s.reader) :
    Finishes (enter c s).reader ∧ (s.Over → Told (some c) (enter c s)) := by
  cases c with
  | commit e =>
    unfold enter
    dsimp only
    split
    · exact ⟨hf, fun ho => .inl ho⟩
    · exact ⟨hf, fun _ => .inr rfl⟩
  | cancel e =>
    unfold enter
    dsimp only
    split
    · exact ⟨hf, id⟩
    split
    · exact ⟨hf, id⟩
    · have hs : s.stopResponsePublish.reader = s.reader ∧
          s.stopResponsePublish.responseRequested = s.responseRequested := by
        unfold Session.stopResponsePublish
        split <;> exact ⟨rfl, rfl⟩
      exact ⟨hs.1 ▸ hf, fun ho => over_congr hs.1 hs.2 ho⟩
  | sendAudio | discardLastResponse | drain => exact ⟨hf, id⟩

theorem tells (n : Nat) : Consumer.Tells (provider n) (fun s => Finishes s.reader) Told where
  step hf h := by
    obtain ⟨h1, h2, h3, h4⟩ := step_tells hf h
    refine ⟨h1, fun ht => told_mono ht h2 h3, h4.imp_right ?_⟩
    rintro ⟨e, he, ht⟩
    exact ⟨e, he, fun hterm => told_of_over (ht hterm)⟩
  enter hf := enter_tells hf
  call hf h := call_tells hf h

/-- After the terminal event, the session refuses the next `Commit` exactly while its
reader has not called `finishResponse`. -/
theorem refused_iff {a : Consumer Session}
    (h : (Consumer.machine (provider n) {}).Reachable a) (he : a.ended = true)
    (hc : a.calling = none) :
    a.session.commitError = some errActive ↔ a.session.lingering = true := by
  have h0 : Finishes ({} : Session).reader := trivial
  have ho := (Consumer.told_over (tells n) h0 h).2 (by simp [Consumer.told, he])
  rw [hc] at ho
  generalize a.session = s at ho
  cases hr : s.responseRequested with
  | false => simp [Session.commitError, Session.lingering, hr]
  | true =>
    obtain ⟨err, rest, hreader⟩ := ho hr
    simp [Session.commitError, Session.lingering, hr, hreader]

end BoomPI.Qwen

namespace BoomPI.Backend

/-- A consumer that has received the terminal event of a response, and has not committed
or cancelled since, is refused as if that response were active exactly while the goroutine
that published the event has not cleared its own state. -/
theorem ready_iff (cfg : Pipeline.Config) (n : Nat) :
    (∀ a, (Consumer.machine (Pipeline.provider cfg) {}).Reachable a → a.ended = true →
      (((∀ pcm, a.session.sendAudioError pcm ≠ some Pipeline.errActive) ∧
        a.session.commitError ≠ some Pipeline.errActive) ↔ a.session.lingering = false)) ∧
    (∀ a, (Consumer.machine (Qwen.provider n) {}).Reachable a → a.ended = true →
      a.calling = none →
      (a.session.commitError ≠ some Qwen.errActive ↔ a.session.lingering = false)) := by
  constructor
  · intro a ha he
    rw [← Bool.not_eq_true, ← Pipeline.refused_iff ha he, not_or, not_exists]
  · intro a ha he hc
    rw [← Bool.not_eq_true, ← Qwen.refused_iff ha he hc]

-- ---------------------------------------------------------------------------
-- Runs
-- ---------------------------------------------------------------------------

def smallPipeline : Pipeline.Config := Pipeline.plainConfig

def failsRecognition : List (Consumer.Label Pipeline.Act) :=
  [.enter (.sendAudio 1 [0, 0]), .returns none, .enter (.commit 1), .returns none,
    .session (.started "event-1"), .receive, .session (.heard (.error .context)),
    .session .fail, .receive]

def responds : List (Consumer.Label Qwen.Act) :=
  [.enter (.commit 1), .returns none, .session .write,
    .session (.receive (.responseCreated "resp-1")), .session .read, .session .read, .receive,
    .session (.receive (.responseDone "resp-1" "completed" [])), .session .read, .session .read,
    .receive]

/-- Both sessions refuse the turn that follows the terminal event at once. -/
theorem refused_after_terminal :
    (∃ a, (Consumer.machine (Pipeline.provider smallPipeline) {}).Reachable a ∧
      a.ended = true ∧ a.calling = none ∧
      a.session.sendAudioError [0, 0] = some Pipeline.errActive) ∧
    (∃ a, (Consumer.machine (Qwen.provider 8) {}).Reachable a ∧
      a.ended = true ∧ a.calling = none ∧ a.session.commitError = some Qwen.errActive) := by
  constructor
  · obtain ⟨a, -, ha, hp⟩ := (Consumer.machine (Pipeline.provider smallPipeline) {}).exists_of_run
      { session := {} } failsRecognition
      (fun a => a.ended ∧ a.calling = none ∧
        a.session.sendAudioError [0, 0] = some Pipeline.errActive) rfl (by decide +kernel)
    exact ⟨a, ha, of_decide_eq_true hp⟩
  · obtain ⟨a, -, ha, hp⟩ := (Consumer.machine (Qwen.provider 8) {}).exists_of_run
      { session := {} } responds
      (fun a => a.ended ∧ a.calling = none ∧ a.session.commitError = some Qwen.errActive) rfl
      (by decide +kernel)
    exact ⟨a, ha, of_decide_eq_true hp⟩

/-- The next turn of each session once the goroutine has got there. -/
theorem ready_after_cleanup :
    (∃ a, (Consumer.machine (Pipeline.provider smallPipeline) {}).Reachable a ∧ a.ended = true ∧
      (∀ pcm, a.session.sendAudioError pcm ≠ some Pipeline.errActive) ∧
      a.session.commitError ≠ some Pipeline.errActive) ∧
    (∃ a, (Consumer.machine (Qwen.provider 8) {}).Reachable a ∧ a.ended = true ∧
      a.session.commitError ≠ some Qwen.errActive) := by
  obtain ⟨hpipeline, hqwen⟩ := ready_iff smallPipeline 8
  constructor
  · obtain ⟨a, -, ha, hp⟩ := (Consumer.machine (Pipeline.provider smallPipeline) {}).exists_of_run
      { session := {} } (failsRecognition ++ [.session .finish])
      (fun a => a.ended ∧ a.session.lingering = false) rfl (by decide +kernel)
    obtain ⟨he, hl⟩ := of_decide_eq_true hp
    exact ⟨a, ha, he, (hpipeline a ha he).mpr hl⟩
  · obtain ⟨a, -, ha, hp⟩ := (Consumer.machine (Qwen.provider 8) {}).exists_of_run
      { session := {} } (responds ++ [.session .read])
      (fun a => a.ended ∧ a.calling = none ∧ a.session.lingering = false) rfl (by decide +kernel)
    obtain ⟨he, hc, hl⟩ := of_decide_eq_true hp
    exact ⟨a, ha, he, (hqwen a ha he hc).mpr hl⟩

end BoomPI.Backend
