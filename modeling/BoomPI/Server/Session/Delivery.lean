import BoomPI.Server.Session.Follow

/-!
# What a turn writes of its response

A turn writes the response it adopted event by event and loses nothing of it
unless it is cancelled or rejects an invalid event: `Tracked` relates what was
written and what is held to what the provider delivered.
-/

namespace BoomPI.Session

open Backend (Error ConversationEvent EventType Call Outcomes)

variable {π κ : Type} {P : Backend.Session π κ} {Opened : π → Prop} {a b : Actor π}
  {s s' : ActorState} {o : Obs} {l : Label κ} {raw : ConversationEvent} {e : Nat} {t t' : List Obs}

-- ---------------------------------------------------------------------------
-- The lists of a trace
-- ---------------------------------------------------------------------------

theorem written_append : written (t ++ t') e = written t e ++ written t' e :=
  List.filterMap_append

theorem delivered_append : delivered (t ++ t') e = delivered t e ++ delivered t' e :=
  List.filterMap_append

theorem written_eq_nil (h : ∀ o ∈ t, o.writes = none) : written t e = [] := by
  rw [written, List.filterMap_eq_nil_iff]
  intro o ho
  cases o with
  | wrote ev => cases h _ ho
  | _ => rfl

theorem delivered_eq_nil (h : ∀ o ∈ t, ∀ before raw, o ≠ .delivered before raw) :
    delivered t e = [] := by
  rw [delivered, List.filterMap_eq_nil_iff]
  intro o ho
  cases o with
  | delivered before raw => exact absurd rfl (h _ ho before raw)
  | _ => rfl

/-- One more event joins the response when it is the first or shares its ID. -/
theorem ofFirstID_concat (l : List ConversationEvent) (raw : ConversationEvent) :
    ofFirstID (l ++ [raw]) =
      ofFirstID l ++ if ∀ first ∈ l.head?, raw.responseID = first.responseID then [raw] else [] := by
  cases l with
  | nil => simp [ofFirstID]
  | cons first rest =>
    simp only [List.cons_append, ofFirstID, List.filter_append, List.head?_cons, Option.mem_def,
      Option.some.injEq, forall_eq', List.cons.injEq, true_and]
    by_cases h : raw.responseID = first.responseID
    · simp [h]
    · simp [h]

theorem ofFirstID_sameID {l : List ConversationEvent} {x y : ConversationEvent}
    (hx : x ∈ ofFirstID l) (hy : y ∈ ofFirstID l) : x.responseID = y.responseID := by
  cases l with
  | nil => cases hx
  | cons first rest =>
    have head : ∀ z ∈ ofFirstID (first :: rest), z.responseID = first.responseID := by
      simp only [ofFirstID, List.mem_cons, List.mem_filter, decide_eq_true_eq]
      rintro z (rfl | ⟨-, hz⟩)
      · rfl
      · exact hz
    rw [head x hx, head y hy]

-- ---------------------------------------------------------------------------
-- The invariant
-- ---------------------------------------------------------------------------

/-- An observation that ends `e` before its response does. -/
def Obs.cuts (o : Obs) (e : Nat) : Prop := o.cancels = some e ∨ o.rejects = some e

/-- No observation delivers anything to `e` or cuts it. -/
structure Untouched (t : List Obs) (e : Nat) : Prop where
  delivered : delivered t e = []
  uncut : ∀ o ∈ t, ¬ o.cuts e

/-- What the ID of a turn says about the response delivered for it. -/
structure Waiting (t : List Obs) (e : Nat) (id : GoString) : Prop where
  uncut : ∀ o ∈ t, ¬ o.cuts e
  fresh : id = "" → delivered t e = []
  first : id ≠ "" → ∃ raw, (delivered t e).head? = some raw ∧ raw.responseID = id

structure Tracked (a : Actor π) : Prop where
  inOrder : ∀ e, written a.trace e ++ held a.state e <+: response a.trace e
  whole : ∀ e, (∀ o ∈ a.trace, ¬ o.cuts e) →
    response a.trace e = written a.trace e ++ held a.state e
  later : ∀ e, a.state.latest < e → Untouched a.trace e
  listening : a.state.phase = .listening →
    a.state.responseID = "" ∧ Untouched a.trace a.state.epoch
  waiting : a.state.phase.responding = true → Waiting a.trace a.state.epoch a.state.responseID

theorem held_none (h : s.pending = none) : held s e = [] := by
  rw [held, h]

theorem Untouched.append {os : List Obs} (h : Untouched t e) (hs : Untouched os e) :
    Untouched (t ++ os) e := by
  refine ⟨?_, fun o ho => (List.mem_append.mp ho).elim (h.uncut o) (hs.uncut o)⟩
  rw [delivered_append, h.delivered, hs.delivered, List.append_nil]

theorem Waiting.append {os : List Obs} {id : GoString} (h : Waiting t e id) (hs : Untouched os e) :
    Waiting (t ++ os) e id := by
  refine ⟨fun o ho => (List.mem_append.mp ho).elim (h.uncut o) (hs.uncut o), ?_, ?_⟩
  · rw [delivered_append, hs.delivered, List.append_nil]
    exact h.fresh
  · rw [delivered_append, hs.delivered, List.append_nil]
    exact h.first

theorem Untouched.waiting (h : Untouched t e) : Waiting t e "" :=
  ⟨h.uncut, fun _ => h.delivered, fun h => absurd rfl h⟩

theorem Tracked.keep {os : List Obs} (h : Tracked a) (ht : b.trace = a.trace ++ os)
    (hw : ∀ e, written os e = []) (hd : ∀ e, delivered os e = [])
    (hp : ∀ e, (∀ o ∈ os, ¬ o.cuts e) → held b.state e = held a.state e)
    (hle : ∀ e, held b.state e <+: held a.state e) :
    (∀ e, written b.trace e ++ held b.state e <+: response b.trace e) ∧
    (∀ e, (∀ o ∈ b.trace, ¬ o.cuts e) →
      response b.trace e = written b.trace e ++ held b.state e) := by
  have hresp : ∀ e, response b.trace e = response a.trace e := fun e => by
    rw [response, response, ht, delivered_append, hd, List.append_nil]
  have hwrit : ∀ e, written b.trace e = written a.trace e := fun e => by
    rw [ht, written_append, hw, List.append_nil]
  refine ⟨fun e => ?_, fun e hu => ?_⟩
  · rw [hresp, hwrit]
    exact ((List.prefix_append_right_inj _).mpr (hle e)).trans (h.inOrder e)
  · rw [ht] at hu
    rw [hresp, hwrit, hp e fun o ho => hu o (List.mem_append_right _ ho)]
    exact h.whole e fun o ho => hu o (List.mem_append_left _ ho)

section Applied

variable {d : Bool} {out : Outcomes} {cmd : Command} {r : Applied}

theorem Applied.obs_delivered : delivered (r.obs out s cmd) e = [] := by
  refine delivered_eq_nil fun o ho before raw heq => ?_
  simp only [Applied.obs, List.mem_append, List.mem_map, List.mem_singleton] at ho
  rcases ho with ⟨c, -, rfl⟩ | rfl
  · cases heq
  · cases heq

theorem Applied.obs_rejects (ho : o ∈ r.obs out s cmd) : o.rejects = none := by
  simp only [Applied.obs, List.mem_append, List.mem_map, List.mem_singleton] at ho
  rcases ho with ⟨c, -, rfl⟩ | rfl
  · rfl
  · rfl

/-- Only a successful `Cancel` of the turn cuts it, and it leaves the actor idle. -/
theorem ApplyCase.untouched (h : ApplyCase d out cmd s r) (hn : e = s.epoch → r.state.phase ≠ .idle) :
    Untouched (r.obs out s cmd) e := by
  refine ⟨Applied.obs_delivered, ?_⟩
  rintro o ho (hc | hr)
  · obtain ⟨hop, hi, he, hrep, rfl⟩ := Applied.obs_cancels ho hc
    cases h with
    | cancelled => exact hn rfl rfl
    | refused _ hr => exact hr hop hi he
    | _ => simp_all
  · rw [Applied.obs_rejects ho] at hr
    cases hr

theorem held_dropped {s' : ActorState} {e' : Nat}
    (hp : s'.pending = s.pending.filter fun event => event.epoch ≠ e') :
    Session.held s' e = if e = e' then [] else Session.held s e := by
  cases h : s.pending with
  | none => simp [Session.held, hp, h]
  | some ev =>
    by_cases hev : ev.epoch = e'
    · by_cases he : e = e'
      · simp [Session.held, hp, h, hev, he, Option.filter_some]
      · simp [Session.held, hp, h, hev, he, Option.filter_some, Ne.symm he]
    · by_cases he : e = e'
      · simp [Session.held, hp, h, hev, he, Option.filter_some]
      · simp [Session.held, hp, h, hev, he, Option.filter_some]

theorem ApplyCase.held_uncut (h : ApplyCase d out cmd s r)
    (hu : ∀ o ∈ r.obs out s cmd, ¬ o.cuts e) : held r.state e = held s e := by
  cases h with
  | cancelled hop hi he =>
    rw [@held_dropped s e _ s.epoch rfl, if_neg]
    rintro rfl
    exact hu (.replied s cmd none) (by simp [Applied.obs]) (.inl (by simp [Obs.cancels, hop, hi, he]))
  | _ => rfl

theorem ApplyCase.held_prefix (h : ApplyCase d out cmd s r) :
    Session.held r.state e <+: Session.held s e := by
  cases h with
  | cancelled =>
    rw [@held_dropped s e _ s.epoch rfl]
    split
    · exact List.nil_prefix
    · exact List.prefix_refl _
  | _ => exact List.prefix_refl _

theorem Tracked.applied (h : Tracked a) (hle : a.state.epoch ≤ a.state.latest)
    (hc : ApplyCase d out cmd a.state r) (hs : b.state = r.state)
    (ht : b.trace = a.trace ++ r.obs out a.state cmd) : Tracked b := by
  obtain ⟨horder, hwhole⟩ := h.keep ht (fun e => written_eq_nil fun o => Applied.obs_writes)
    (fun e => Applied.obs_delivered) (fun e hu => hs ▸ hc.held_uncut hu)
    (fun e => hs ▸ hc.held_prefix)
  have spared : ∀ e, (e = a.state.epoch → r.state.phase ≠ .idle) →
      Untouched (r.obs out a.state cmd) e := fun e => hc.untouched
  refine ⟨horder, hwhole, fun e he => ?_, fun hp => ?_, fun hp => ?_⟩
  · rw [ht]
    have hlt : a.state.latest < e := by
      rw [hs] at he
      exact Nat.lt_of_le_of_lt hc.latest_le he
    exact (h.later e hlt).append (spared _ fun heq => by omega)
  · rw [ht]
    rw [hs] at hp ⊢
    cases hc with
    | started hop hi hlt =>
      exact ⟨rfl, (h.later _ hlt).append (spared _ fun _ => by simp)⟩
    | committed => cases hp
    | cancelled => cases hp
    | _ => exact ⟨(h.listening hp).1, (h.listening hp).2.append (spared _ fun _ => Phase.listening_ne hp)⟩
  · rw [ht]
    rw [hs] at hp ⊢
    cases hc with
    | started => cases hp
    | committed _ hl =>
      have hlisten := h.listening hl
      exact hlisten.1 ▸ (hlisten.2.append (spared _ fun _ => by simp)).waiting
    | cancelled => cases hp
    | _ => exact (h.waiting hp).append (spared _ fun _ => (Phase.responding_ne hp).1)

end Applied

-- ---------------------------------------------------------------------------
-- Reading the provider
-- ---------------------------------------------------------------------------

theorem delivered_singleton : delivered [.delivered s raw] e =
    if s.phase.responding ∧ s.epoch = e ∧ raw.responseID ≠ "" then [raw] else [] := by
  by_cases h : s.phase.responding ∧ s.epoch = e ∧ raw.responseID ≠ ""
  · simp only [delivered, List.filterMap_cons, List.filterMap_nil, if_pos h]
  · simp only [delivered, List.filterMap_cons, List.filterMap_nil, if_neg h]

/-- Only an invalid event cuts the turn that waits. -/
theorem delivered_uncut (h : e ≠ s.epoch ∨ s.phase.responding = false ∨
    validProviderEvent raw = none) : ¬ (Obs.delivered s raw).cuts e := by
  rintro (hc | hr)
  · cases hc
  · simp only [Obs.rejects, Option.ite_none_right_eq_some, Option.some.injEq] at hr
    obtain ⟨⟨hp, hv⟩, rfl⟩ := hr
    rcases h with h | h | h
    · exact h rfl
    · simp [h] at hp
    · simp [h] at hv

theorem delivered_untouched (h : e ≠ s.epoch ∨ s.phase.responding = false) :
    Untouched [.delivered s raw] e := by
  refine ⟨?_, by simpa using delivered_uncut (h.imp_right .inl)⟩
  rw [delivered_singleton, if_neg]
  rintro ⟨hr, he, -⟩
  rcases h with h | h
  · exact h he.symm
  · simp [h] at hr

theorem delivered_written : written [.delivered s raw] e = [] := rfl

theorem Waiting.response_concat {id : GoString} (h : Waiting t s.epoch id)
    (hr : s.phase.responding = true) (hid : id = "" ∨ raw.responseID = "" ∨ raw.responseID = id) :
    response (t ++ [.delivered s raw]) s.epoch =
      response t s.epoch ++ if raw.responseID ≠ "" then [raw] else [] := by
  rw [response, delivered_append, delivered_singleton]
  by_cases hraw : raw.responseID = ""
  · simp [hraw, response]
  · rw [if_pos ⟨hr, rfl, hraw⟩, ofFirstID_concat, if_pos, if_pos hraw, response]
    intro first hfirst
    by_cases h0 : id = ""
    · rw [h.fresh h0] at hfirst
      cases hfirst
    · obtain ⟨first', hf, he⟩ := h.first h0
      rw [hf] at hfirst
      cases hfirst
      rw [he]
      exact (hid.resolve_left h0).resolve_left hraw

theorem Waiting.response_foreign {id : GoString} (h : Waiting t s.epoch id) (h0 : id ≠ "")
    (hne : raw.responseID ≠ id) : response (t ++ [.delivered s raw]) s.epoch = response t s.epoch := by
  obtain ⟨first, hf, he⟩ := h.first h0
  rw [response, delivered_append, delivered_singleton]
  split
  · rw [ofFirstID_concat, if_neg, List.append_nil, response]
    rw [hf]
    simpa [he] using hne
  · rw [List.append_nil, response]

theorem response_prefix : response t s.epoch <+: response (t ++ [.delivered s raw]) s.epoch := by
  rw [response, response, delivered_append, delivered_singleton]
  split
  · rw [ofFirstID_concat]
    exact List.prefix_append _ _
  · simp

theorem Waiting.concat {id id' : GoString} (h : Waiting t s.epoch id) (hr : s.phase.responding = true)
    (hv : validProviderEvent raw = none) (hraw : raw.responseID ≠ "")
    (hid : id = "" ∧ id' = raw.responseID ∨ id ≠ "" ∧ id' = id) :
    Waiting (t ++ [.delivered s raw]) s.epoch id' := by
  refine ⟨?_, ?_, ?_⟩
  · intro o ho
    rcases List.mem_append.mp ho with ho | ho
    · exact h.uncut o ho
    · rw [List.mem_singleton] at ho
      exact ho ▸ delivered_uncut (.inr (.inr hv))
  · rintro rfl
    rcases hid with ⟨-, h⟩ | ⟨h, h'⟩
    · exact absurd h.symm hraw
    · exact absurd h'.symm h
  · rw [delivered_append, delivered_singleton, if_pos ⟨hr, rfl, hraw⟩]
    intro _
    rcases hid with ⟨h0, rfl⟩ | ⟨h0, rfl⟩
    · exact ⟨raw, by simp [h.fresh h0], rfl⟩
    · obtain ⟨first, hf, he⟩ := h.first h0
      exact ⟨first, by simp [hf], he⟩

theorem Waiting.foreign {id : GoString} (h : Waiting t s.epoch id) (hv : validProviderEvent raw = none)
    (h0 : id ≠ "") : Waiting (t ++ [.delivered s raw]) s.epoch id := by
  refine ⟨?_, fun h => absurd h h0, fun _ => ?_⟩
  · intro o ho
    rcases List.mem_append.mp ho with ho | ho
    · exact h.uncut o ho
    · rw [List.mem_singleton] at ho
      exact ho ▸ delivered_uncut (.inr (.inr hv))
  · obtain ⟨first, hf, he⟩ := h.first h0
    exact ⟨first, by simp [delivered_append, hf], he⟩

section Received

variable {event : Option Event}

theorem AcceptCase.held_other (h : AcceptCase raw s (event, s'))
    (he : e ≠ s.epoch ∨ s.phase.responding = false) : held { s' with pending := event } e = [] := by
  cases hev : event with
  | none => rfl
  | some ev =>
    obtain ⟨hr, hep, -⟩ := h.handed (show ev ∈ event from hev)
    have hne : ev.epoch ≠ e := by
      rcases he with he | he
      · exact fun heq => he (heq.symm.trans hep)
      · simp [he] at hr
    simp [held, hne]

theorem AcceptCase.response (h : AcceptCase raw s (event, s')) (hr : s.phase.responding = true)
    (hw : Waiting t s.epoch s.responseID) (hwhole : response t s.epoch = written t s.epoch) :
    written t s.epoch ++ held { s' with pending := event } s.epoch <+:
        response (t ++ [.delivered s raw]) s.epoch ∧
      (¬ (Obs.delivered s raw).cuts s.epoch → response (t ++ [.delivered s raw]) s.epoch =
        written t s.epoch ++ held { s' with pending := event } s.epoch) ∧
      (s'.phase.responding = true → Waiting (t ++ [.delivered s raw]) s.epoch s'.responseID) := by
  cases h with
  | ignored hn => simp [hn] at hr
  | invalid _ hv =>
    have hcut : (Obs.delivered s raw).cuts s.epoch := .inr (by simp [Obs.rejects, hr, hv])
    refine ⟨?_, fun hn => absurd hcut hn, fun h => by cases h⟩
    rw [← hwhole]
    simpa [held] using response_prefix
  | foreign _ hv h0 _ hne =>
    rw [hw.response_foreign h0 hne, hwhole]
    exact ⟨by simp [held], fun _ => by simp [held], fun _ => hw.foreign hv h0⟩
  | accepted _ hv hid ht _ =>
    have hraw := validProviderEvent_id hv ht
    rw [hw.response_concat hr (hid.imp And.left fun h => h.2.2), hwhole]
    refine ⟨by simp [held, hraw], fun _ => by simp [held, hraw], fun _ => ?_⟩
    exact hw.concat hr hv hraw (hid.imp_right fun h => ⟨h.1, h.2.1⟩)
  | ended _ hv hid _ =>
    rw [hw.response_concat hr hid, hwhole]
    refine ⟨?_, fun _ => ?_, fun h => by cases h⟩
    · simp [held]
    · simp [held]

theorem Tracked.received (h : Tracked a) (hle : a.state.epoch ≤ a.state.latest)
    (hp : a.state.pending = none) (hc : AcceptCase raw a.state (event, s'))
    (hs : b.state = { s' with pending := event })
    (ht : b.trace = a.trace ++ [.delivered a.state raw]) : Tracked b := by
  obtain ⟨he, hl, -, -, hlisten⟩ := hc.epochs
  have hwrit : ∀ e, written b.trace e = written a.trace e := fun e => by
    rw [ht, written_append, delivered_written, List.append_nil]
  -- an epoch that does not wait for a response does not see the event
  have other : ∀ e, e ≠ a.state.epoch ∨ a.state.phase.responding = false →
      response b.trace e = response a.trace e ∧ held b.state e = [] := fun e hne => by
    refine ⟨?_, hs ▸ hc.held_other hne⟩
    rw [Session.response, Session.response, ht, delivered_append,
      (delivered_untouched hne).delivered, List.append_nil]
  have mine : ∀ e, a.state.phase.responding = true → e = a.state.epoch → _ := fun e hr _ =>
    hc.response hr (h.waiting hr) (by
      rw [h.whole _ (h.waiting hr).uncut, held_none hp, List.append_nil])
  refine ⟨fun e => ?_, fun e hu => ?_, fun e hlt => ?_, fun hph => ?_, fun hph => ?_⟩
  · by_cases hcase : e ≠ a.state.epoch ∨ a.state.phase.responding = false
    · rw [hwrit, (other e hcase).1, (other e hcase).2]
      simpa [held_none hp] using h.inOrder e
    · simp only [ne_eq, not_or, Decidable.not_not, Bool.not_eq_false] at hcase
      obtain ⟨rfl, hr⟩ := hcase
      rw [hwrit, hs, ht]
      exact (mine _ hr rfl).1
  · by_cases hcase : e ≠ a.state.epoch ∨ a.state.phase.responding = false
    · rw [hwrit, (other e hcase).1, (other e hcase).2, ← held_none (e := e) hp]
      exact h.whole e fun o ho => hu o (ht ▸ List.mem_append_left _ ho)
    · simp only [ne_eq, not_or, Decidable.not_not, Bool.not_eq_false] at hcase
      obtain ⟨rfl, hr⟩ := hcase
      rw [hwrit, hs, ht]
      exact (mine _ hr rfl).2.1 (hu _ (ht ▸ List.mem_append_right _ (List.mem_singleton_self _)))
  · rw [hs] at hlt
    have hlt : a.state.latest < e := hl ▸ hlt
    rw [ht]
    exact (h.later e hlt).append (delivered_untouched (.inl (by omega)))
  · rw [hs] at hph ⊢
    have hph := hlisten hph
    obtain ⟨hid, hu⟩ := h.listening hph
    have hn : a.state.phase.responding = false := by rw [hph]; rfl
    cases hc with
    | ignored => exact ⟨hid, ht ▸ hu.append (delivered_untouched (.inr hn))⟩
    | _ => simp_all
  · rw [hs] at hph ⊢
    rw [ht]
    have hr : a.state.phase.responding = true := by
      cases hc with
      | ignored => exact hph
      | _ => assumption
    exact he ▸ (mine _ hr rfl).2.2 hph

end Received

-- ---------------------------------------------------------------------------
-- Every run
-- ---------------------------------------------------------------------------

theorem written_singleton {event : Event} (h : s.pending = some event) :
    written [.wrote event] e = held s e := by
  by_cases hev : event.epoch = e ∧ event.raw.responseID ≠ ""
  · simp only [written, List.filterMap_cons, List.filterMap_nil, held, h, if_pos hev]
  · simp only [written, List.filterMap_cons, List.filterMap_nil, held, h, if_neg hev]

theorem Tracked.silent {os : List Obs} (h : Tracked a) (hs : b.state = a.state)
    (ht : b.trace = a.trace ++ os) (hw : ∀ e, written os e = []) (hu : ∀ e, Untouched os e) :
    Tracked b := by
  obtain ⟨horder, hwhole⟩ := h.keep ht hw (fun e => (hu e).delivered) (fun e _ => by rw [hs])
    (fun e => hs ▸ List.prefix_rfl)
  refine ⟨horder, hwhole, fun e he => ?_, fun hp => ?_, fun hp => ?_⟩
  · exact ht ▸ (h.later e (hs ▸ he)).append (hu e)
  · rw [hs] at hp ⊢
    exact ⟨(h.listening hp).1, ht ▸ (h.listening hp).2.append (hu _)⟩
  · rw [hs] at hp ⊢
    exact ht ▸ (h.waiting hp).append (hu _)

theorem wrote_untouched {event : Event} : Untouched [.wrote event] e := by
  refine ⟨rfl, fun o ho => ?_⟩
  rw [List.mem_singleton] at ho
  subst ho
  rintro (h | h) <;> cases h

theorem Tracked.wrote {event : Event} (h : Tracked a) (hp : a.state.pending = some event)
    (hs : b.state = { a.state with pending := none }) (ht : b.trace = a.trace ++ [.wrote event]) :
    Tracked b := by
  have hwrit : ∀ e, written b.trace e ++ held b.state e = written a.trace e ++ held a.state e :=
    fun e => by
      rw [ht, written_append, written_singleton hp, @held_none b.state e (by rw [hs]),
        List.append_nil]
  have hresp : ∀ e, response b.trace e = response a.trace e := fun e => by
    rw [response, response, ht, delivered_append, wrote_untouched.delivered, List.append_nil]
  refine ⟨fun e => ?_, fun e hu => ?_, fun e he => ?_, fun hph => ?_, fun hph => ?_⟩
  · rw [hwrit, hresp]
    exact h.inOrder e
  · rw [hwrit, hresp]
    exact h.whole e fun o ho => hu o (ht ▸ List.mem_append_left _ ho)
  · rw [hs] at he
    exact ht ▸ (h.later e he).append wrote_untouched
  · rw [hs] at hph ⊢
    exact ⟨(h.listening hph).1, ht ▸ (h.listening hph).2.append wrote_untouched⟩
  · rw [hs] at hph ⊢
    exact ht ▸ (h.waiting hph).append wrote_untouched

theorem Tracked.move (h : Tracked a) (hl : Lawful a) (m : Move P a l b) : Tracked b := by
  cases m with
  | quiet hs ht _ =>
    exact @Tracked.silent _ _ _ [] h hs (by simpa using ht) (fun _ => rfl) fun e => ⟨rfl, by simp⟩
  | expired cmd _ hs ht =>
    refine h.silent hs ht (fun _ => rfl) fun e => ⟨rfl, fun o ho => ?_⟩
    rw [List.mem_singleton] at ho
    subst ho
    rintro (h | h) <;> cases h
  | applied cmd out r hrun hc hs ht =>
    exact h.applied (hl.sound (by simp [hrun])).epoch_le hc hs (ht.trans (List.append_assoc ..))
  | received raw event s' hrun hp hc hs ht =>
    exact h.received (hl.sound (by simp [hrun])).epoch_le hp hc hs ht
  | wrote event _ hp hs ht => exact h.wrote hp hs ht
  | closed event _ hp hc hs _ ht =>
    obtain ⟨-, -, hid⟩ := reportClosedStream_eq hc
    exact h.silent hs ht (fun e => by simp [written, hid]) fun e => wrote_untouched

theorem tracked (h : (machine P Opened).Reachable a) : Tracked a := by
  refine h.invariant_with (fun _ => lawful) ?_ fun s l t hl _ hi _ hs => hi.move hl (step_move hs)
  rintro a ⟨p, -, rfl⟩
  refine ⟨fun e => List.nil_prefix, fun e _ => rfl, fun e _ => ⟨rfl, ?_⟩, ?_, ?_⟩
  · exact fun o ho => absurd ho List.not_mem_nil
  · exact fun h => by cases h
  · exact fun h => by cases h

end BoomPI.Session
