import BoomPI.Server.Session

/-!
# What one step of the actor can do

`apply_case` and `accept_case` read the two functions once; `step_move` puts
every channel operation of `run` into one of six moves on the state and the
trace. The invariants are proved from these, not from the code.
-/

namespace BoomPI.Session

open Backend (Error ConversationEvent EventType Call Outcomes)

variable {π κ : Type} {P : Backend.Session π κ} {a b : Actor π} {s s' : ActorState} {cmd : Command}
  {out : Outcomes} {p : π} {events : List ConversationEvent} {raw : ConversationEvent} {event : Option Event} {l : Label κ} {d : Bool}

/-- Every way `apply` can end. -/
inductive ApplyCase (d : Bool) (out : Outcomes) (cmd : Command) (s : ActorState) : Applied → Prop
  | refused {reply} : (cmd.op = .startTurn → reply ≠ none) →
      (cmd.op = .cancelTurn → s.phase ≠ .idle → cmd.epoch ≠ s.epoch) →
      (cmd.op = .cancelTurn → s.phase = .idle → d = true → cmd.epoch ≠ s.latest) →
      ApplyCase d out cmd s { reply, state := s }
  | started : cmd.op = .startTurn → s.phase = .idle → s.latest < cmd.epoch →
      ApplyCase d out cmd s
        { reply := none
          state := { s with
            phase := .listening, latest := cmd.epoch, epoch := cmd.epoch,
            responseID := "", frames := 0 } }
  | audio : cmd.op = .appendPCM → s.phase = .listening → cmd.epoch = s.epoch →
      out.sendAudio = none → ApplyCase d out cmd s
        { reply := none, state := { s with frames := s.frames + 1 }
          calls := [.sendAudio cmd.epoch cmd.pcm] }
  | audioFailed {err} : cmd.op = .appendPCM → s.phase = .listening → cmd.epoch = s.epoch →
      out.sendAudio = some err → ApplyCase d out cmd s
        { reply := some (.wrap "send audio" err), state := s
          calls := [.sendAudio cmd.epoch cmd.pcm] }
  | committed : cmd.op = .commit → s.phase = .listening → cmd.epoch = s.epoch → s.frames ≠ 0 →
      out.commit = none → ApplyCase d out cmd s
        { reply := none, state := { s with phase := .thinking }, calls := [.commit cmd.epoch] }
  | commitFailed {err} : cmd.op = .commit → s.phase = .listening → cmd.epoch = s.epoch →
      out.commit = some err → ApplyCase d out cmd s
        { reply := some (.wrap "commit audio" err), state := s, calls := [.commit cmd.epoch] }
  | forgot {reply} : cmd.op = .cancelTurn → s.phase = .idle → cmd.epoch = s.latest → d = true →
      ApplyCase d out cmd s { reply, state := s, calls := [.discardLastResponse cmd.epoch] }
  | cancelFailed {err} : cmd.op = .cancelTurn → s.phase ≠ .idle → cmd.epoch = s.epoch →
      out.cancel = some err → ApplyCase d out cmd s
        { reply := some (.wrap "cancel response" err), state := s, calls := [.cancel cmd.epoch] }
  | discardFailed {err} : cmd.op = .cancelTurn → s.phase.responding = true → cmd.epoch = s.epoch →
      out.cancel = none → out.discardLastResponse = some err → d = true → ApplyCase d out cmd s
        { reply := some (.wrap "discard cancelled response" err), state := s
          calls := [.cancel cmd.epoch, .discardLastResponse cmd.epoch] }
  | cancelled {discard} : cmd.op = .cancelTurn → s.phase ≠ .idle → cmd.epoch = s.epoch →
      out.cancel = none → (discard = [] ∧ ¬ (s.phase.responding = true ∧ d = true) ∨
        discard = [.discardLastResponse cmd.epoch] ∧ s.phase.responding = true ∧ d = true) →
      ApplyCase d out cmd s
        { reply := none
          state := { s with
            pending := s.pending.filter fun event => event.epoch ≠ s.epoch
            phase := .idle, epoch := 0, responseID := "", frames := 0 }
          calls := .cancel cmd.epoch :: (discard ++ [.drain]) }

theorem apply_case (d : Bool) (out : Outcomes) (cmd : Command) (s : ActorState) :
    ApplyCase d out cmd s (apply d out cmd s) := by
  unfold apply
  cases hop : cmd.op with
  | startTurn =>
    simp only
    split
    · exact .refused (fun _ => nofun) (by simp [hop]) (by simp [hop])
    · split
      · exact .refused (fun _ => nofun) (by simp [hop]) (by simp [hop])
      · exact .started hop (Decidable.not_not.mp ‹_›) (by omega)
  | appendPCM =>
    simp only
    split
    · exact .refused (by simp [hop]) (by simp [hop]) (by simp [hop])
    · split
      · exact .refused (by simp [hop]) (by simp [hop]) (by simp [hop])
      · rename_i hc
        simp only [ne_eq, not_or, Decidable.not_not] at hc
        split
        · exact .audioFailed hop hc.1 hc.2 ‹_›
        · exact .audio hop hc.1 hc.2 ‹_›
  | commit =>
    simp only
    split
    · exact .refused (by simp [hop]) (by simp [hop]) (by simp [hop])
    · split
      · exact .refused (by simp [hop]) (by simp [hop]) (by simp [hop])
      · rename_i hc
        simp only [ne_eq, not_or, Decidable.not_not] at hc
        split
        · exact .commitFailed hop hc.1 hc.2.1 ‹_›
        · exact .committed hop hc.1 hc.2.1 hc.2.2 ‹_›
  | cancelTurn =>
    simp only
    split
    · rename_i hidle
      split
      · exact .refused (by simp [hop]) (fun _ h => absurd hidle h) (fun _ _ _ => by omega)
      · split
        · exact .refused (by simp [hop]) (fun _ h => absurd hidle h) (fun _ _ _ => ‹_›)
        · rename_i he
          split
          · split <;> exact .forgot hop hidle (by simpa using he) ‹_›
          · exact .refused (by simp [hop]) (fun _ h => absurd hidle h)
              (fun _ _ hd => absurd hd ‹_›)
    · rename_i hidle
      split
      · exact .refused (by simp [hop]) (fun _ _ => by omega) (fun _ h => absurd h hidle)
      · split
        · exact .refused (by simp [hop]) (fun _ _ => ‹_›) (fun _ h => absurd h hidle)
        · rename_i he
          simp only [ne_eq, Decidable.not_not] at he
          split
          · exact .cancelFailed hop hidle he ‹_›
          · split
            · rename_i hd
              split
              · exact .discardFailed hop hd.1 he ‹_› ‹_› hd.2
              · exact .cancelled hop hidle he ‹_› (.inr ⟨rfl, hd⟩)
            · exact @ApplyCase.cancelled _ _ _ _ [] hop hidle he ‹_› (.inl ⟨rfl, ‹_›⟩)

/-- Every way `accept` can end. -/
inductive AcceptCase (raw : ConversationEvent) (s : ActorState) : Option Event × ActorState → Prop
  | ignored : s.phase.responding = false → AcceptCase raw s (none, s)
  | invalid {err} : s.phase.responding = true → validProviderEvent raw = some err →
      AcceptCase raw s
        (some { epoch := s.epoch, raw := { type := .error, err := some err } },
          { s with phase := .idle, responseID := "" })
  | foreign : s.phase.responding = true → validProviderEvent raw = none → s.responseID ≠ "" →
      raw.responseID ≠ "" → raw.responseID ≠ s.responseID → AcceptCase raw s (none, s)
  | accepted {id phase} : s.phase.responding = true → validProviderEvent raw = none →
      (s.responseID = "" ∧ id = raw.responseID ∨ s.responseID ≠ "" ∧ id = s.responseID ∧
        (raw.responseID = "" ∨ raw.responseID = s.responseID)) →
      raw.type.terminal = false → phase.responding = true → AcceptCase raw s
        (some { epoch := s.epoch, raw }, { s with phase, responseID := id })
  | ended : s.phase.responding = true → validProviderEvent raw = none →
      (s.responseID = "" ∨ raw.responseID = "" ∨ raw.responseID = s.responseID) →
      raw.type.terminal = true → AcceptCase raw s
        (some { epoch := s.epoch, raw }, { s with phase := .idle, responseID := "" })

theorem validProviderEvent_id (hv : validProviderEvent raw = none)
    (ht : raw.type.terminal = false) : raw.responseID ≠ "" := by
  simp only [validProviderEvent, ite_eq_left_iff, reduceCtorEq, imp_false, Bool.not_eq_true,
    Bool.not_eq_false] at hv
  intro hid
  cases h : raw.type <;> simp_all [EventType.terminal]

theorem adopt_eq (raw : ConversationEvent) (s : ActorState) : adopt raw s =
    { s with responseID := if s.responseID = "" then raw.responseID else s.responseID } := by
  unfold adopt
  split
  · rfl
  · rfl

theorem advance_terminal (s : ActorState) (h : raw.type.terminal = true) :
    advance raw s = { s with phase := .idle, responseID := "" } := by
  unfold advance
  rw [if_pos h]
  split
  · rfl
  · rfl

theorem advance_open (s : ActorState) (h : raw.type.terminal = false) :
    advance raw s = { s with phase := if raw.type = .audio then .speaking else s.phase } := by
  unfold advance
  rw [if_neg (by simp [h])]
  split
  · rfl
  · rfl

theorem accept_case (raw : ConversationEvent) (s : ActorState) :
    AcceptCase raw s (accept raw s) := by
  unfold accept
  split
  · exact .ignored (Bool.not_eq_true _ ▸ ‹_›)
  · rename_i hr
    replace hr : s.phase.responding = true := Decidable.not_not.mp hr
    split
    · exact .invalid hr ‹_›
    · rename_i hv
      rw [adopt_eq]
      by_cases hid : s.responseID = ""
      · simp only [hid, if_true, ne_eq, not_true_eq_false, and_false, if_false]
        cases ht : raw.type.terminal with
        | true =>
          rw [advance_terminal _ ht]
          exact .ended hr hv (.inl hid) ht
        | false =>
          rw [advance_open _ ht]
          exact .accepted hr hv (.inl ⟨hid, rfl⟩) ht (by dsimp only; split <;> first | rfl | exact hr)
      · simp only [hid, if_false]
        split
        · rename_i hf
          exact .foreign hr hv hid hf.1 hf.2
        · rename_i hf
          have hraw : raw.responseID = "" ∨ raw.responseID = s.responseID := by
            simpa [or_iff_not_imp_left] using hf
          cases ht : raw.type.terminal with
          | true =>
            rw [advance_terminal _ ht]
            exact .ended hr hv (.inr hraw) ht
          | false =>
            rw [advance_open _ ht]
            exact .accepted hr hv (.inr ⟨hid, rfl, hraw⟩) ht
              (by dsimp only; split <;> first | rfl | exact hr)

-- ---------------------------------------------------------------------------
-- One channel operation
-- ---------------------------------------------------------------------------

theorem perform_cons {c : Call} {cs : List Call} {w} :
    P.perform out (c :: cs) p events = some w ↔
      ∃ p' events', P.call c (out.of c) p events = some (p', events') ∧
        P.perform out cs p' events' = some w := by
  simp [Backend.Session.perform, Option.bind_eq_some_iff]

theorem perform_one {c : Call} {w} (h : P.perform out [c] p events = some w) :
    P.call c (out.of c) p events = some w := by
  obtain ⟨p', events', hcall, hnil⟩ := perform_cons.mp h
  cases hnil
  exact hcall

theorem call_map {f : Option π} {p' : π} {events' : List ConversationEvent}
    (h : f.map (·, events) = some (p', events')) : f = some p' := by
  rw [Option.map_eq_some_iff] at h
  obtain ⟨_, hf, h⟩ := h
  cases h
  exact hf

theorem perform_append {cs ds : List Call} {w} :
    P.perform out (cs ++ ds) p events = some w ↔
      ∃ p' events', P.perform out cs p events = some (p', events') ∧
        P.perform out ds p' events' = some w := by
  induction cs generalizing p events with
  | nil => simp [Backend.Session.perform]
  | cons c cs ih =>
    simp only [List.cons_append, perform_cons, ih]
    constructor
    · rintro ⟨p1, e1, hc, p2, e2, h1, h2⟩
      exact ⟨p2, e2, ⟨p1, e1, hc, h1⟩, h2⟩
    · rintro ⟨p2, e2, ⟨p1, e1, hc, h1⟩, h2⟩
      exact ⟨p1, e1, hc, p2, e2, h1, h2⟩

theorem firstCall_cancel {e : Nat} (h : firstCall d cmd s = some (.cancel e)) :
    cmd.op = .cancelTurn ∧ s.phase ≠ .idle ∧ cmd.epoch = s.epoch := by
  have hc := apply_case d {} cmd s
  generalize hr : apply d {} cmd s = r at hc
  rw [firstCall, hr] at h
  cases hc with
  | cancelFailed hop hp he => exact ⟨hop, hp, he⟩
  | discardFailed hop hp he => exact ⟨hop, (by intro h0; rw [h0] at hp; cases hp), he⟩
  | cancelled hop hp he => exact ⟨hop, hp, he⟩
  | _ => cases h

/-- What a step that leaves the state and the trace alone does to the provider. -/
inductive Aside (P : Backend.Session π κ) (a : Actor π) (l : Label κ) (b : Actor π) : Prop
  | same : b.session = a.session → b.provided = a.provided → Aside P a l b
  | entered (cmd : Command) (c : Call) : a.place = .polling ∨ a.place = .selecting →
      b.place = .applying cmd →
      firstCall P.discarder cmd a.state = some c → b.session = P.enter c a.session →
      b.provided = a.provided → Aside P a l b
  | stepped (k : κ) : P.step k a.session a.provided = some (b.session, b.provided) →
      b.place = a.place → l = .provider k → Aside P a l b

/-- The six things a step can do to the state and the trace. A stopped actor
only sees quiet steps. -/
inductive Move (P : Backend.Session π κ) (a : Actor π) (l : Label κ) (b : Actor π) : Prop
  | quiet : b.state = a.state → b.trace = a.trace →
      (a.place = .polling ∨ a.place = .selecting ∨ b.place = a.place) → Aside P a l b →
      (∀ out, l ≠ .reply out) → Move P a l b
  | expired (cmd : Command) : a.place = .selecting → b.state = a.state →
      b.trace = a.trace ++ [.replied a.state cmd (some .context)] → b.session = a.session →
      b.provided = a.provided → Move P a l b
  | applied (cmd : Command) (out : Outcomes) (r : Applied) : a.place = .applying cmd →
      ApplyCase P.discarder out cmd a.state r → b.state = r.state →
      b.trace = a.trace ++ (r.calls.map fun c => .called c (out.of c)) ++
        [.replied a.state cmd r.reply] →
      P.perform out r.calls a.session a.provided = some (b.session, b.provided) →
      l = .reply out → r = apply P.discarder out cmd a.state → b.place = .polling → Move P a l b
  | received (raw : ConversationEvent) (event : Option Event) (s' : ActorState) :
      a.place = .selecting → a.state.pending = none → AcceptCase raw a.state (event, s') →
      b.state = { s' with pending := event } →
      b.trace = a.trace ++ [.delivered a.state raw] → b.session = a.session →
      a.provided = raw :: b.provided → Move P a l b
  | wrote (event : Event) : a.place = .selecting → a.state.pending = some event →
      b.state = { a.state with pending := none } → b.trace = a.trace ++ [.wrote event] →
      b.session = a.session → b.provided = a.provided → Move P a l b
  | closed (event : Event) : a.place = .selecting → a.state.pending = none →
      reportClosedStream a.state = some event → b.state = a.state → b.place = .stopped →
      b.trace = a.trace ++ [.wrote event] → b.session = a.session → b.provided = a.provided →
      Move P a l b

theorem enter_aside (cmd : Command) (hp : a.place = .polling ∨ a.place = .selecting) (c : Actor π)
    (hs : c.state = a.state) (hq : c.session = a.session) (hv : c.provided = a.provided) :
    Aside P a l (enter P cmd c) := by
  cases hf : firstCall P.discarder cmd a.state with
  | none => exact .same (by simp [enter, hs, hf, hq]) hv
  | some call => exact .entered cmd call hp rfl hf (by simp [enter, hs, hf, hq]) hv

theorem step_move (h : step P a l = some b) : Move P a l b := by
  cases l with
  | submit cmd =>
    simp only [step, submit, Option.ite_none_left_eq_some] at h
    obtain ⟨-, -, h⟩ := h
    split at h <;> split at h <;> cases h <;>
      exact .quiet rfl rfl (.inr (.inr rfl)) (.same rfl rfl) nofun
  | poll =>
    simp only [step] at h
    split at h <;> cases h
    · exact .quiet rfl rfl (.inl ‹_›) (.same rfl rfl) nofun
    · exact .quiet rfl rfl (.inl ‹_›) (enter_aside _ (.inl ‹_›) _ rfl rfl rfl) nofun
  | urgent =>
    simp only [step] at h
    split at h <;> cases h
    exact .quiet rfl rfl (.inr (.inl ‹_›)) (enter_aside _ (.inr ‹_›) _ rfl rfl rfl) nofun
  | command expired =>
    simp only [step] at h
    split at h
    · split at h <;> cases h
      · exact .expired _ ‹_› rfl rfl rfl rfl
      · exact .quiet rfl rfl (.inr (.inl ‹_›)) (enter_aside _ (.inr ‹_›) _ rfl rfl rfl) nofun
    · cases h
  | receive =>
    simp only [step] at h
    split at h
    · rename_i raw rest hp hpend hprov
      cases h
      exact .received raw _ _ hp hpend (accept_case raw a.state) rfl rfl rfl hprov
    · cases h
  | closed =>
    simp only [step] at h
    split at h
    · rename_i hp hpend _
      rw [Option.ite_none_right_eq_some] at h
      obtain ⟨-, h⟩ := h
      split at h
      · split at h <;> cases h
        · exact .closed _ hp hpend ‹_› rfl rfl rfl rfl rfl
        · exact .quiet rfl rfl (.inr (.inl hp)) (.same rfl rfl) nofun
      · cases h; exact .quiet rfl rfl (.inr (.inl hp)) (.same rfl rfl) nofun
    · cases h
  | write =>
    simp only [step] at h
    split at h
    · split at h <;> cases h
      exact .wrote _ ‹_› ‹_› rfl rfl rfl rfl
    · cases h
  | stop =>
    simp only [step, Option.ite_none_right_eq_some] at h
    obtain ⟨hp, h⟩ := h
    cases h
    exact .quiet rfl rfl (.inr (.inl hp)) (.same rfl rfl) nofun
  | reply out =>
    simp only [step, leave] at h
    split at h
    · simp only [Option.bind_eq_bind, Option.bind_eq_some_iff] at h
      obtain ⟨w, hw, h⟩ := h
      cases h
      exact .applied _ out _ ‹_› (apply_case ..) rfl rfl hw rfl rfl rfl
    · cases h
  | consume =>
    simp only [step] at h
    split at h <;> cases h
    exact .quiet rfl rfl (.inr (.inr rfl)) (.same rfl rfl) nofun
  | provider k =>
    simp only [step, Option.ite_none_left_eq_some, Option.map_eq_some_iff] at h
    obtain ⟨-, w, hw, h⟩ := h
    cases h
    exact .quiet rfl rfl (.inr (.inr rfl)) (.stepped k hw rfl rfl) nofun
  | providerClose =>
    cases h
    exact .quiet rfl rfl (.inr (.inr rfl)) (.same rfl rfl) nofun

end BoomPI.Session
