import BoomPI.Lts
import BoomPI.Server.Backend

/-!
# One consumer of a provider session

The consumer makes one call at a time and receives from `Events()` in between.
`told_over` is the rule for what a terminal event says of the session behind it.
-/

namespace BoomPI.Backend

/-- `stale` counts the events in the channel that were there when the last `Commit`
returned nil; `ended` says that a later terminal event has been received, and that no
`Commit` has returned nil and no `Cancel` was made since. -/
structure Consumer (π : Type) where
  session : π
  events : List ConversationEvent := []
  calling : Option Call := none
  stale : Nat := 0
  ended : Bool := false
  deriving Repr

namespace Consumer

inductive Label (κ : Type)
  | enter (c : Call)
  | returns (result : Option Error)
  | receive
  | session (act : κ)

variable {π κ : Type}

def leave (a : Consumer π) (c : Call) (result : Option Error) (session : π)
    (events : List ConversationEvent) : Consumer π :=
  match c, result with
  | .commit _, none =>
    { a with session, events, calling := none, stale := events.length, ended := false }
  | _, _ => { a with session, events, calling := none, stale := min a.stale events.length }

def step (P : Session π κ) (a : Consumer π) : Label κ → Option (Consumer π)
  | .enter c =>
    match a.calling with
    | some _ => none
    | none => some { a with
        session := P.enter c a.session, calling := some c
        ended := match c with
          | .cancel _ => false
          | _ => a.ended }
  | .returns result => a.calling.bind fun c =>
    (P.call c result a.session a.events).map fun (session, events) =>
      a.leave c result session events
  | .receive =>
    match a.calling, a.events with
    | none, event :: events => some { a with
        events, stale := a.stale - 1
        ended := a.ended ∨ (a.stale = 0 ∧ event.type.terminal) }
    | _, _ => none
  | .session act => (P.step act a.session a.events).map fun (session, events) =>
    { a with session, events }

def machine (P : Session π κ) (session : π) : Lts.Machine (Consumer π) (Label κ) where
  Init a := a = { session }
  step := step P

/-- A terminal event of the last response is in the channel or has been received. -/
def told (a : Consumer π) : Bool := a.ended || (a.events.drop a.stale).any (·.type.terminal)

variable {P : Session π κ} {a a' : Consumer π} {p p' : π} {c : Call} {result : Option Error}
  {events events' : List ConversationEvent} {act : κ}

@[simp] theorem leave_session : (a.leave c result p events).session = p := by
  unfold leave
  split <;> rfl

@[simp] theorem leave_events : (a.leave c result p events).events = events := by
  unfold leave
  split <;> rfl

@[simp] theorem leave_calling : (a.leave c result p events).calling = none := by
  unfold leave
  split <;> rfl

theorem step_enter (h : (machine P p).step a (.enter c) = some a') :
    a.calling = none ∧ a'.session = P.enter c a.session ∧ a'.events = a.events ∧
      a'.calling = some c ∧ (∀ e, c = .cancel e → a'.ended = false) ∧
      (a'.ended = true → a.ended = true) ∧ a'.stale = a.stale := by
  simp only [machine, step] at h
  split at h <;> cases h
  rename_i hc
  refine ⟨hc, rfl, rfl, rfl, fun e he => by rw [he], fun hended => ?_, rfl⟩
  split at hended
  · cases hended
  · exact hended

theorem step_returns (h : (machine P p).step a (.returns result) = some a') :
    ∃ c p' events', a.calling = some c ∧
      P.call c result a.session a.events = some (p', events') ∧
      a' = a.leave c result p' events' := by
  simp only [machine, step, Option.bind_eq_some_iff, Option.map_eq_some_iff] at h
  obtain ⟨c, hc, ⟨p', events'⟩, hcall, rfl⟩ := h
  exact ⟨c, p', events', hc, hcall, rfl⟩

theorem step_receive (h : (machine P p).step a .receive = some a') :
    ∃ event events, a.calling = none ∧ a.events = event :: events ∧
      a' = { a with
        events, stale := a.stale - 1
        ended := a.ended ∨ (a.stale = 0 ∧ event.type.terminal) } := by
  simp only [machine, step] at h
  split at h <;> cases h
  rename_i event events hc he
  exact ⟨event, events, hc, he, rfl⟩

theorem step_session (h : (machine P p).step a (.session act) = some a') :
    ∃ p' events', P.step act a.session a.events = some (p', events') ∧
      a' = { a with session := p', events := events' } := by
  simp only [machine, step, Option.map_eq_some_iff] at h
  obtain ⟨⟨p', events'⟩, hstep, rfl⟩ := h
  exact ⟨p', events', hstep, rfl⟩

/-- What a terminal event says of its session, before (`none`) and during a call: `I` holds
once it is out, and is kept until a `Commit` returns nil. -/
structure Tells (P : Session π κ) (J : π → Prop) (I : Option Call → π → Prop) : Prop where
  step : ∀ {c p events act p' events'}, J p → P.step act p events = some (p', events') →
    J p' ∧ (I c p → I c p') ∧
      (events' = events ∨ ∃ e, events' = events ++ [e] ∧ (e.type.terminal = true → I c p'))
  enter : ∀ {c p}, J p → J (P.enter c p) ∧ (I none p → I (some c) (P.enter c p))
  call : ∀ {c result p events p' events'}, J p → P.call c result p events = some (p', events') →
    J p' ∧ (events' = events ∨ events' = []) ∧
      (I (some c) p → (∀ e, c = .commit e → result ≠ none) → I none p')

theorem told_append {event : ConversationEvent} (h : told { a with session := p, events := a.events ++ [event] } = true) :
    told a = true ∨ event.type.terminal = true := by
  simp only [told, List.drop_append, List.any_append, Bool.or_eq_true] at h
  rcases h with h | h | h
  · exact .inl (by simp [told, h])
  · exact .inl (by simp [told, h])
  · obtain ⟨e, he, ht⟩ := List.any_eq_true.mp h
    rw [List.mem_singleton.mp (List.mem_of_mem_drop he)] at ht
    exact .inr ht

theorem told_leave (he : events = a.events ∨ events = [])
    (h : told (a.leave c result p events) = true) :
    told a = true ∧ ∀ e, c = .commit e → result ≠ none := by
  have kept (ht : told { a with
      session := p, events, calling := none, stale := min a.stale events.length } = true) :
      told a = true := by
    rcases he with rfl | rfl
    · simp only [told, Bool.or_eq_true] at ht ⊢
      rcases Nat.le_total a.stale a.events.length with hle | hle
      · rwa [Nat.min_eq_left hle] at ht
      · rw [Nat.min_eq_right hle, List.drop_length] at ht
        exact .inl (ht.resolve_right nofun)
    · simp only [told, List.drop_nil, List.any_nil, Bool.or_false] at ht ⊢
      rw [ht, Bool.true_or]
  unfold leave at h
  split at h
  · simp [told] at h
  · rename_i hn
    exact ⟨kept h, fun e hc hr => hn e hc hr⟩

theorem told_receive {event : ConversationEvent} (he : a.events = event :: events)
    (h : told { a with
      events, stale := a.stale - 1
      ended := a.ended ∨ (a.stale = 0 ∧ event.type.terminal) } = true) : told a = true := by
  obtain ⟨session, _, calling, stale, ended⟩ := a
  cases he
  cases stale with
  | zero => simpa [told, or_assoc] using h
  | succ n => simpa [told] using h

theorem told_over {J : π → Prop} {I : Option Call → π → Prop} (ht : Tells P J I) (h0 : J p)
    (h : (machine P p).Reachable a) : J a.session ∧ (told a = true → I a.calling a.session) := by
  refine h.invariant (I := fun a => J a.session ∧ (told a = true → I a.calling a.session)) ?_ ?_
  · rintro _ rfl
    exact ⟨h0, nofun⟩
  rintro a l a' ⟨hJ, hI⟩ hs
  cases l with
  | enter c =>
    obtain ⟨hc, hp, he, hc', -, hended, hstale⟩ := step_enter hs
    obtain ⟨hJ', hI'⟩ := ht.enter (c := c) hJ
    rw [hp, hc']
    refine ⟨hJ', fun htold => hI' (hc ▸ hI ?_)⟩
    simp only [told, he, hstale, Bool.or_eq_true] at htold ⊢
    exact htold.imp_left hended
  | returns result =>
    obtain ⟨c, p', events', hc, hcall, rfl⟩ := step_returns hs
    obtain ⟨hJ', hevents, hI'⟩ := ht.call hJ hcall
    rw [leave_session, leave_calling]
    refine ⟨hJ', fun htold => ?_⟩
    obtain ⟨hwas, hn⟩ := told_leave hevents htold
    exact hI' (hc ▸ hI hwas) hn
  | receive =>
    obtain ⟨event, events, -, he, rfl⟩ := step_receive hs
    exact ⟨hJ, fun htold => hI (told_receive he htold)⟩
  | session act =>
    obtain ⟨p', events', hstep, rfl⟩ := step_session hs
    obtain ⟨hJ', hI', hevents⟩ := ht.step (c := a.calling) hJ hstep
    refine ⟨hJ', fun htold => ?_⟩
    rcases hevents with rfl | ⟨e, rfl, he⟩
    · exact hI' (hI htold)
    · rcases told_append htold with hwas | hterm
      · exact hI' (hI hwas)
      · exact he hterm

end Consumer

end BoomPI.Backend
