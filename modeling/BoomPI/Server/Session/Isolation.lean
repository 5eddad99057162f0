import BoomPI.Server.Session.Delivery

/-!
# Whose response a turn adopts

`accept` adopts the first response ID a committed turn meets. A provider that
keeps its contract leaves nothing of an earlier response behind a terminal
event or a `Cancel`; a turn that rejects an invalid event is neither fenced nor
drained, and its response is what a later turn can adopt.
-/

namespace BoomPI.Session

open Backend (Error ConversationEvent EventType Call Outcomes)

-- ---------------------------------------------------------------------------
-- The provider contract
-- ---------------------------------------------------------------------------

/-- No event of a response is queued behind its `Done` or `Error`. -/
def InOrder (events : List ConversationEvent) : Prop :=
  events.Pairwise fun ev ev' => ev.type.terminal = true → ev'.origin ≠ ev.origin

/-- Events are enqueued of responses in `before` only, and a response whose
`Done` or `Error` is enqueued is not in `after`. -/
structure Emits (before after : Nat → Prop) (events events' : List ConversationEvent) : Prop where
  queued : ∃ new, events' = events ++ new ∧ InOrder new ∧
    ∀ ev ∈ new, before ev.origin ∧ (ev.type.terminal = true → ¬ after ev.origin)
  live : ∀ o, after o → before o

/-- A successful `Commit` of epoch `o` creates its response. -/
def creates (c : Call) (result : Option Error) (o : Nat) : Prop :=
  c = .commit o ∧ result = none

/-- The interface contract of a provider: `live p o` says that the response created
by the `Commit` of epoch `o` may still emit events. -/
structure Contract (P : Backend.Session π κ) (Opened : π → Prop) (live : π → Nat → Prop) :
    Prop where
  opened : ∀ p o, Opened p → ¬ live p o
  enter : ∀ c p o, live (P.enter c p) o → live p o
  step : ∀ k p events p' events', P.step k p events = some (p', events') →
    Emits (live p) (live p') events events'
  call : ∀ c r p events p' events', P.call c r p events = some (p', events') → c ≠ .drain →
    Emits (fun o => live p o ∨ creates c r o) (live p') events events'
  cancel : ∀ e p events p' events', P.call (.cancel e) none p events = some (p', events') →
    ¬ live p' e
  drain : ∀ r p events p' events', P.call .drain r p events = some (p', events') →
    events' = [] ∧ ∀ o, live p' o → live p o

/-- Something of the response of epoch `o` can still reach the actor. -/
def Remains (live : Nat → Prop) (events : List ConversationEvent) (o : Nat) : Prop :=
  live o ∨ ∃ ev ∈ events, ev.origin = o

/-- What is queued of a response that has ended is in front of its last event. -/
structure Fifo (live : Nat → Prop) (events : List ConversationEvent) : Prop where
  inOrder : InOrder events
  ended : ∀ ev ∈ events, ev.type.terminal = true → ¬ live ev.origin

variable {π κ : Type} {P : Backend.Session π κ} {Opened : π → Prop} {live : π → Nat → Prop}
  {a b : Actor π} {l : Label κ} {s : ActorState} {out : Outcomes} {p p' : π}
  {before after : Nat → Prop} {events events' : List ConversationEvent} {o e : Nat}

theorem Emits.remains (h : Emits before after events events') (hr : Remains after events' o) :
    before o ∨ Remains before events o := by
  obtain ⟨new, rfl, -, hnew⟩ := h.queued
  rcases hr with hr | ⟨ev, hm, rfl⟩
  · exact .inl (h.live o hr)
  · rcases List.mem_append.mp hm with hm | hm
    · exact .inr (.inr ⟨ev, hm, rfl⟩)
    · exact .inl (hnew ev hm).1

theorem Emits.fifo (h : Emits before after events events') (hf : Fifo before events) :
    Fifo after events' := by
  obtain ⟨new, rfl, hin, hnew⟩ := h.queued
  refine ⟨?_, fun ev hm ht => ?_⟩
  · refine List.pairwise_append.mpr ⟨hf.inOrder, hin, fun x hx y hy ht heq => ?_⟩
    exact hf.ended x hx ht (heq ▸ (hnew y hy).1)
  · rcases List.mem_append.mp hm with hm | hm
    · exact fun hl => hf.ended ev hm ht (h.live _ hl)
    · exact (hnew ev hm).2 ht

theorem Fifo.over {raw : ConversationEvent} (h : Fifo after (raw :: events))
    (ht : raw.type.terminal = true) : ¬ Remains after events raw.origin := by
  rintro (hl | ⟨ev, hm, heq⟩)
  · exact h.ended raw List.mem_cons_self ht hl
  · exact List.rel_of_pairwise_cons h.inOrder hm ht heq

theorem Fifo.mono (h : Fifo before events) (hl : ∀ o, after o → before o) : Fifo after events :=
  ⟨h.inOrder, fun ev hm ht ho => h.ended ev hm ht (hl _ ho)⟩

theorem Fifo.tail {raw : ConversationEvent} (h : Fifo after (raw :: events)) : Fifo after events :=
  ⟨h.inOrder.of_cons, fun ev hm => h.ended ev (List.mem_cons_of_mem _ hm)⟩

-- ---------------------------------------------------------------------------
-- The calls of one command
-- ---------------------------------------------------------------------------

theorem Contract.perform (hc : Contract P Opened live) {cs : List Call}
    (h : P.perform out cs p events = some (p', events'))
    (hn : ∀ c ∈ cs, ∀ o, ¬ creates c (out.of c) o) (hf : Fifo (live p) events) :
    Fifo (live p') events' ∧ (∀ o, live p' o → live p o) ∧
      ∀ o, Remains (live p') events' o → Remains (live p) events o := by
  induction cs generalizing p events with
  | nil => cases h; exact ⟨hf, fun _ h => h, fun _ h => h⟩
  | cons c cs ih =>
    obtain ⟨p1, e1, hcall, hrest⟩ := perform_cons.mp h
    have hcs : ∀ d ∈ cs, ∀ o, ¬ creates d (out.of d) o := fun d hd =>
      hn d (List.mem_cons_of_mem _ hd)
    by_cases hd : c = .drain
    · subst hd
      obtain ⟨rfl, hl⟩ := hc.drain _ _ _ _ _ hcall
      have hf1 : Fifo (live p1) [] := ⟨.nil, fun ev hm => absurd hm List.not_mem_nil⟩
      obtain ⟨h1, h2, h3⟩ := ih hrest hcs hf1
      refine ⟨h1, fun o h => hl o (h2 o h), fun o h => ?_⟩
      rcases h3 o h with h | ⟨ev, hm, -⟩
      · exact .inl (hl o h)
      · exact absurd hm List.not_mem_nil
    · have hem := hc.call c _ _ _ _ _ hcall hd
      have hlive : ∀ o, live p o ∨ creates c (out.of c) o → live p o := fun o h =>
        h.resolve_right (hn c List.mem_cons_self o)
      have hem : Emits (live p) (live p1) events e1 := by
        obtain ⟨⟨new, rfl, hin, hnew⟩, hl⟩ := hem
        exact ⟨⟨new, rfl, hin, fun ev hm => ⟨hlive _ (hnew ev hm).1, (hnew ev hm).2⟩⟩,
          fun o h => hlive o (hl o h)⟩
      obtain ⟨h1, h2, h3⟩ := ih hrest hcs (hem.fifo hf)
      refine ⟨h1, fun o h => hem.live o (h2 o h), fun o h => ?_⟩
      exact (hem.remains (h3 o h)).elim .inl id

/-- A successful `Cancel` fences the response and drains what is queued. -/
theorem Contract.perform_cancelled (hc : Contract P Opened live) {discard : List Call}
    (h : P.perform out (.cancel e :: (discard ++ [.drain])) p events = some (p', events'))
    (ho : out.cancel = none) (hd : ∀ c ∈ discard, ∀ o, ¬ creates c (out.of c) o)
    (hf : Fifo (live p) events) : ¬ Remains (live p') events' e := by
  obtain ⟨p1, e1, hcancel, hrest⟩ := perform_cons.mp h
  obtain ⟨p2, e2, hdiscard, hdrain⟩ := perform_append.mp hrest
  obtain ⟨p3, e3, hdrain, hnil⟩ := perform_cons.mp hdrain
  cases hnil
  obtain ⟨rfl, hl⟩ := hc.drain _ _ _ _ _ hdrain
  have hem := hc.call _ _ _ _ _ _ hcancel (by simp)
  have hf1 : Fifo (live p1) e1 := hem.fifo ⟨hf.inOrder, fun ev hm ht => ?_⟩
  · have hnot := hc.cancel e p events p1 e1 (by simpa [Outcomes.of, ho] using hcancel)
    rintro (h | ⟨ev, hm, -⟩)
    · exact hnot ((hc.perform hdiscard hd hf1).2.1 e (hl e h))
    · exact absurd hm List.not_mem_nil
  · rintro (h | h)
    · exact hf.ended ev hm ht h
    · simp [creates] at h

-- ---------------------------------------------------------------------------
-- The invariant
-- ---------------------------------------------------------------------------

/-- Every event written with a response ID is of the response of its epoch. -/
def Isolated (a : Actor π) : Prop :=
  ∀ ev, Obs.wrote ev ∈ a.trace → ev.raw.responseID ≠ "" → ev.raw.origin = ev.epoch

/-- When a `Commit` succeeds, nothing remains of the response of a turn that ended
by rejecting an invalid event. -/
def Settled (live : π → Nat → Prop) (a : Actor π) (l : Label κ) : Prop :=
  ∀ cmd out, l = .reply out → a.place = .applying cmd → cmd.op = .commit → out.commit = none →
    a.state.phase = .listening → cmd.epoch = a.state.epoch → a.state.frames ≠ 0 →
    ∀ x ∈ a.trace, ∀ o ∈ x.rejects, ¬ Remains (live a.session) a.provided o

structure Isolating (live : π → Nat → Prop) (a : Actor π) : Prop where
  fifo : Fifo (live a.session) a.provided
  known : ∀ o, Remains (live a.session) a.provided o →
    o ≤ a.state.latest ∧ (a.state.phase = .listening → o ≠ a.state.epoch)
  ended : ∀ o, Remains (live a.session) a.provided o →
    a.state.phase.responding = true ∧ o = a.state.epoch ∨ ∃ x ∈ a.trace, x.rejects = some o
  waiting : a.state.phase.responding = true →
    ∀ o, Remains (live a.session) a.provided o → o = a.state.epoch
  pending : ∀ ev ∈ a.state.pending, ev.raw.responseID ≠ "" → ev.raw.origin = ev.epoch
  wrote : Isolated a

theorem Isolated.append {os : List Obs} (h : Isolated a) (ht : b.trace = a.trace ++ os)
    (hos : ∀ ev : Event, .wrote ev ∈ os → ev.raw.responseID ≠ "" → ev.raw.origin = ev.epoch) :
    Isolated b := by
  intro ev hm
  rw [ht] at hm
  rcases List.mem_append.mp hm with hm | hm
  · exact h ev hm
  · exact hos ev hm

theorem Isolating.fewer {os : List Obs} (h : Isolating live a) (hs : b.state = a.state)
    (ht : b.trace = a.trace ++ os)
    (hos : ∀ ev : Event, .wrote ev ∈ os → ev.raw.responseID ≠ "" → ev.raw.origin = ev.epoch)
    (hf : Fifo (live b.session) b.provided)
    (hr : ∀ o, Remains (live b.session) b.provided o → Remains (live a.session) a.provided o) :
    Isolating live b := by
  refine ⟨hf, fun o ho => ?_, fun o ho => ?_, fun hp o ho => ?_, ?_, h.wrote.append ht hos⟩
  · rw [hs]
    exact h.known o (hr o ho)
  · rw [hs, ht]
    refine (h.ended o (hr o ho)).imp_right ?_
    rintro ⟨x, hx, hrej⟩
    exact ⟨x, List.mem_append_left _ hx, hrej⟩
  · rw [hs] at hp ⊢
    exact h.waiting hp o (hr o ho)
  · rw [hs]
    exact h.pending

theorem Isolating.aside (hc : Contract P Opened live) (h : Isolating live a)
    (hs : b.state = a.state) (ht : b.trace = a.trace) (m : Aside P a l b) : Isolating live b := by
  have ht : b.trace = a.trace ++ [] := by rw [ht, List.append_nil]
  cases m with
  | same hp hv =>
    exact h.fewer hs ht (by simp) (by rw [hp, hv]; exact h.fifo) (by rw [hp, hv]; exact fun _ => id)
  | entered cmd c _ _ _ hp hv =>
    have hl : ∀ o, live b.session o → live a.session o := by
      rw [hp]
      exact hc.enter c a.session
    refine h.fewer hs ht (by simp) (by rw [hv]; exact h.fifo.mono hl) fun o ho => ?_
    rw [hv] at ho
    exact ho.imp_left (hl o)
  | stepped k hk =>
    have hem := hc.step _ _ _ _ _ hk
    exact h.fewer hs ht (by simp) (hem.fifo h.fifo) fun o ho => (hem.remains ho).elim .inl id

section Applied

variable {cmd : Command} {r : Applied}

/-- Only a successful `Commit` creates a response. -/
theorem ApplyCase.creates (h : ApplyCase P.discarder out cmd s r) :
    (∀ c ∈ r.calls, ∀ o, ¬ creates c (out.of c) o) ∨
      r.calls = [.commit cmd.epoch] ∧ out.commit = none := by
  cases h with
  | committed _ _ _ _ ho => exact .inr ⟨rfl, ho⟩
  | commitFailed _ _ _ ho => exact .inl (by simp [Session.creates, Outcomes.of, ho])
  | cancelled _ _ _ _ hd =>
    rcases hd with ⟨rfl, -⟩ | ⟨rfl, -⟩ <;> exact .inl (by simp [Session.creates])
  | _ => exact .inl (by simp [Session.creates])

theorem Isolating.applied (hc : Contract P Opened live) (h : Isolating live a)
    (hl : Sound a) (hset : Settled live a l) (hp : a.place = .applying cmd)
    (hcase : ApplyCase P.discarder out cmd a.state r) (hs : b.state = r.state)
    (ht : b.trace = a.trace ++ r.obs out a.state cmd)
    (hperf : P.perform out r.calls a.session a.provided = some (b.session, b.provided))
    (hlabel : l = .reply out) : Isolating live b := by
  have hwrote : Isolated b := h.wrote.append ht fun ev hm => by
    cases Applied.obs_writes hm
  have rejected : ∀ o, (∃ x ∈ a.trace, x.rejects = some o) → ∃ x ∈ b.trace, x.rejects = some o := by
    rintro o ⟨x, hx, hrej⟩
    exact ⟨x, ht ▸ List.mem_append_left _ hx, hrej⟩
  have hpend : ∀ ev ∈ b.state.pending, ev.raw.responseID ≠ "" → ev.raw.origin = ev.epoch :=
    fun ev hm => h.pending ev (hcase.pending (hs ▸ hm)).1
  rcases hcase.creates with hn | ⟨hcalls, ho⟩
  · obtain ⟨hf, -, hr⟩ := hc.perform hperf hn h.fifo
    refine ⟨hf, fun o ho => ?_, fun o ho => ?_, fun hresp o ho => ?_, hpend, hwrote⟩
    · have hk := h.known o (hr o ho)
      rw [hs]
      cases hcase with
      | started _ _ hlt => exact ⟨by dsimp only; omega, fun _ => by dsimp only; omega⟩
      | committed => exact ⟨hk.1, nofun⟩
      | cancelled => exact ⟨hk.1, nofun⟩
      | _ => exact hk
    · have he := h.ended o (hr o ho)
      rw [hs]
      cases hcase with
      | started _ hi _ =>
        refine .inr (rejected o (he.resolve_left ?_))
        simp [hi, Phase.responding]
      | committed _ hlis =>
        refine .inr (rejected o (he.resolve_left ?_))
        simp [hlis, Phase.responding]
      | cancelled _ _ heq hout hd =>
        refine .inr (rejected o (he.resolve_left ?_))
        rintro ⟨-, rfl⟩
        refine hc.perform_cancelled (heq ▸ hperf) hout ?_ h.fifo ho
        rcases hd with ⟨rfl, -⟩ | ⟨rfl, -⟩ <;> simp [Session.creates]
      | _ => exact he.imp_right (rejected o)
    · rw [hs] at hresp ⊢
      cases hcase with
      | started => cases hresp
      | committed _ _ _ _ hout => exact absurd ⟨rfl, hout⟩ (hn _ List.mem_cons_self _)
      | cancelled => cases hresp
      | _ => exact h.waiting hresp o (hr o ho)
  · cases hcase with
    | committed hop hlis heq hframes _ =>
      obtain ⟨p1, e1, hcommit, hnil⟩ := perform_cons.mp hperf
      cases hnil
      have hem := hc.call _ _ _ _ _ _ hcommit (by simp)
      have hnew : ∀ o, Remains (live b.session) b.provided o →
          o = a.state.epoch ∨ Remains (live a.session) a.provided o := by
        intro o ho
        rcases hem.remains ho with (ho | ho) | (ho | ho) | ho
        · exact .inr (.inl ho)
        · exact .inl (by simpa [creates, heq, eq_comm] using ho.1)
        · exact .inr (.inl ho)
        · exact .inl (by simpa [creates, heq, eq_comm] using ho.1)
        · exact .inr (.inr ho)
      have settled := hset cmd out hlabel hp hop ho hlis heq hframes
      have hrej : ∀ o, Remains (live a.session) a.provided o → False := fun o hrem => by
        rcases h.ended o hrem with ⟨hresp, -⟩ | ⟨x, hx, hrej⟩
        · simp [hlis, Phase.responding] at hresp
        · exact settled x hx o hrej hrem
      have hmine : ∀ o, Remains (live b.session) b.provided o → o = a.state.epoch := fun o ho =>
        (hnew o ho).resolve_right (hrej o)
      refine ⟨hem.fifo ⟨h.fifo.inOrder, fun ev hm _ _ => hrej _ (.inr ⟨ev, hm, rfl⟩)⟩,
        fun o ho => ?_, fun o ho => ?_, fun _ o ho => ?_, hpend, hwrote⟩
      · rw [hs]
        exact ⟨hmine o ho ▸ hl.epoch_le, nofun⟩
      · rw [hs]
        exact .inl ⟨rfl, hmine o ho⟩
      · rw [hs]
        exact hmine o ho
    | commitFailed _ _ _ hfail => rw [ho] at hfail; cases hfail
    | cancelled _ _ _ _ hd => simp at hcalls
    | _ => simp at hcalls

end Applied

theorem Isolating.received {raw : ConversationEvent} {event : Option Event} {s' : ActorState}
    (h : Isolating live a)
    (hc : AcceptCase raw a.state (event, s')) (hs : b.state = { s' with pending := event })
    (ht : b.trace = a.trace ++ [.delivered a.state raw]) (hsess : b.session = a.session)
    (hprov : a.provided = raw :: b.provided) : Isolating live b := by
  have hf := h.fifo
  rw [hprov, ← hsess] at hf
  have hr : ∀ o, Remains (live b.session) b.provided o →
      Remains (live a.session) a.provided o := fun o ho => by
    rw [hprov, ← hsess]
    exact ho.imp_right fun ⟨ev, hm, heq⟩ => ⟨ev, List.mem_cons_of_mem _ hm, heq⟩
  have hraw : Remains (live a.session) a.provided raw.origin :=
    .inr ⟨raw, hprov ▸ List.mem_cons_self, rfl⟩
  have hwrote : Isolated b := h.wrote.append ht (by simp)
  obtain ⟨he, hlat, -, -, hlisten⟩ := hc.epochs
  refine ⟨hf.tail, fun o ho => ?_, fun o ho => ?_, fun hph o ho => ?_, fun ev hev hid => ?_, hwrote⟩
  · rw [hs]
    exact ⟨hlat ▸ (h.known o (hr o ho)).1, fun hl => he ▸ (h.known o (hr o ho)).2 (hlisten hl)⟩
  · have hend := h.ended o (hr o ho)
    rw [hs, ht]
    have old : (∃ x ∈ a.trace, x.rejects = some o) →
        ∃ x ∈ a.trace ++ [.delivered a.state raw], x.rejects = some o := by
      rintro ⟨x, hx, hrej⟩
      exact ⟨x, List.mem_append_left _ hx, hrej⟩
    cases hc with
    | ignored | foreign => exact hend.imp_right old
    | invalid hresp hv =>
      rcases hend with ⟨-, rfl⟩ | hend
      · exact .inr ⟨.delivered a.state raw, by simp, by simp [Obs.rejects, hresp, hv]⟩
      · exact .inr (old hend)
    | accepted _ _ _ _ hresp' => exact hend.imp (fun h => ⟨hresp', h.2⟩) old
    | ended hresp _ _ hterm =>
      refine .inr (hend.elim ?_ old)
      rintro ⟨-, rfl⟩
      rw [← h.waiting hresp _ hraw] at ho
      exact absurd ho (hf.over hterm)
  · rw [hs] at hph ⊢
    have hresp : a.state.phase.responding = true := by
      cases hc with
      | ignored => exact hph
      | _ => assumption
    exact (h.waiting hresp o (hr o ho)).trans he.symm
  · rw [hs] at hev
    obtain ⟨hresp, hep, -⟩ := hc.handed (show ev ∈ event from hev)
    have hmine := h.waiting hresp _ hraw
    cases hc with
    | ignored | foreign => cases hev
    | invalid => cases hev; exact absurd rfl hid
    | accepted | ended => cases hev; exact hmine

-- ---------------------------------------------------------------------------
-- Every run
-- ---------------------------------------------------------------------------

theorem Isolating.move (hc : Contract P Opened live) (h : Isolating live a) (hl : Lawful a)
    (hset : Settled live a l) (m : Move P a l b) : Isolating live b := by
  cases m with
  | quiet hs ht _ haside => exact h.aside hc hs ht haside
  | expired cmd _ hs ht hp hv =>
    exact h.fewer hs ht (by simp) (by rw [hp, hv]; exact h.fifo) (by rw [hp, hv]; exact fun _ => id)
  | applied cmd out r hp hcase hs ht hperf hlabel =>
    exact h.applied hc (hl.sound (by simp [hp])) hset hp hcase hs
      (ht.trans (List.append_assoc ..)) hperf hlabel
  | received raw event s' _ _ hcase hs ht hsess hprov =>
    exact h.received hcase hs ht hsess hprov
  | wrote event _ hp hs ht hsess hv =>
    have hwrote : Isolated b := h.wrote.append ht (by simpa using h.pending event hp)
    refine ⟨?_, ?_, ?_, ?_, by simp [hs], hwrote⟩
    · rw [hsess, hv]
      exact h.fifo
    · rw [hsess, hv, hs]
      exact h.known
    · rw [hsess, hv, hs, ht]
      intro o ho
      refine (h.ended o ho).imp_right ?_
      rintro ⟨x, hx, hrej⟩
      exact ⟨x, List.mem_append_left _ hx, hrej⟩
    · rw [hsess, hv, hs]
      exact h.waiting
  | closed event _ _ hcl hs _ ht hsess hv =>
    have hid := (reportClosedStream_eq hcl).2.2
    exact h.fewer hs ht (by simp [hid]) (by rw [hsess, hv]; exact h.fifo)
      (by rw [hsess, hv]; exact fun _ => id)

/-- In a run where every `Commit` finds the rejected responses settled, a turn
writes events of its own response only. -/
theorem isolated_of_settled (hc : Contract P Opened live)
    (h : (machine P Opened).ReachableUnder (Settled live) a) : Isolated a := by
  refine (h.invariant_with (I := fun a => Isolating live a) (fun _ hr => lawful hr.reachable) ?_
    fun s l t hl _ hi hset hs => hi.move hc hl hset (step_move hs)).wrote
  rintro a ⟨p, hp, rfl⟩
  have hnone : ∀ o, ¬ Remains (live p) [] o := by
    rintro o (h | ⟨ev, hm, -⟩)
    · exact hc.opened p o hp h
    · exact List.not_mem_nil hm
  exact ⟨⟨.nil, fun ev hm => absurd hm List.not_mem_nil⟩, fun o ho => absurd ho (hnone o),
    fun o ho => absurd ho (hnone o), nofun, nofun, fun ev hm => absurd hm List.not_mem_nil⟩

-- ---------------------------------------------------------------------------
-- A provider that does all the contract allows
-- ---------------------------------------------------------------------------

/-- It emits any event of a response it has not ended; its state is the list of those. -/
def lenient : Backend.Session (List Nat) ConversationEvent where
  discarder := false
  enter _ open' := open'
  call
    | .commit e, none, open', events => some (e :: open', events)
    | .cancel e, none, open', events => some (open'.filter (· ≠ e), events)
    | .drain, _, open', _ => some (open', [])
    | _, _, open', events => some (open', events)
  step ev open' events :=
    if ev.origin ∈ open' then
      some (if ev.type.terminal then open'.filter (· ≠ ev.origin) else open', events ++ [ev])
    else none

theorem lenient_contract : Contract lenient (· = []) fun open' o => o ∈ open' := by
  refine ⟨?_, fun _ _ _ h => h, ?_, ?_, ?_, ?_⟩
  · rintro p o rfl
    exact List.not_mem_nil
  · intro ev p events p' events' h
    simp only [lenient, Option.ite_none_right_eq_some, Option.some.injEq, Prod.mk.injEq] at h
    obtain ⟨hm, rfl, rfl⟩ := h
    refine ⟨⟨[ev], rfl, List.pairwise_singleton _ _, ?_⟩, ?_⟩
    · simp only [List.forall_mem_singleton]
      exact ⟨hm, fun ht => by simp [ht]⟩
    · intro o ho
      split at ho
      · exact List.mem_of_mem_filter ho
      · exact ho
  · intro c r p events p' events' h hd
    have quiet : events' = events → (∀ o, o ∈ p' → o ∈ p ∨ creates c r o) →
        Emits (fun o => o ∈ p ∨ creates c r o) (fun o => o ∈ p') events events' := by
      rintro rfl hl
      exact ⟨⟨[], by simp, .nil, by simp⟩, hl⟩
    simp only [lenient] at h
    split at h <;> cases h
    · refine quiet rfl fun o ho => ?_
      rcases List.mem_cons.mp ho with rfl | ho
      · exact .inr ⟨rfl, rfl⟩
      · exact .inl ho
    · exact quiet rfl fun o ho => .inl (List.mem_of_mem_filter ho)
    · exact absurd rfl hd
    · exact quiet rfl fun o ho => .inl ho
  · intro e p events p' events' h
    cases h
    simp
  · intro r p events p' events' h
    cases h
    exact ⟨rfl, fun _ h => h⟩

/-- Start, append and commit turn `e`. -/
def commitTurn (e : Nat) : List (Label ConversationEvent) :=
  [.submit { op := .startTurn, epoch := e }, .poll, .command false, .reply {},
    .submit { op := .appendPCM, epoch := e, pcm := List.replicate 640 0 },
    .poll, .command false, .reply {},
    .submit { op := .commit, epoch := e }, .poll, .command false, .reply {}]

def answer (ev : ConversationEvent) : List (Label ConversationEvent) :=
  [.provider ev, .poll, .receive, .poll, .write]

/-- Turn 1 rejects an empty text delta; its response goes on and turn 2 adopts it. -/
theorem adopts_rejected_response :
    ∃ a, (machine lenient (· = [])).run { session := [] }
        (commitTurn 1 ++ answer { type := .textDelta, responseID := "r1", origin := 1 } ++
          commitTurn 2 ++ answer { type := .started, responseID := "r1", origin := 1 }) = some a ∧
      (machine lenient (· = [])).Reachable a ∧ Contract lenient (· = []) (fun open' o => o ∈ open') ∧
      ¬ Isolated a := by
  obtain ⟨a, hr, hreach, hp⟩ := (machine lenient (· = [])).exists_of_run { session := [] }
    (commitTurn 1 ++ answer { type := .textDelta, responseID := "r1", origin := 1 } ++
      commitTurn 2 ++ answer { type := .started, responseID := "r1", origin := 1 })
    (fun a => .wrote { epoch := 2, raw := { type := .started, responseID := "r1", origin := 1 } } ∈
      a.trace) ⟨_, rfl, rfl⟩ (by decide +kernel)
  refine ⟨a, hr, hreach, lenient_contract, fun h => ?_⟩
  have := h _ (of_decide_eq_true hp) (by decide)
  simp at this

/-- Two turns that end by themselves. -/
theorem isolated_twoTurns : ∃ a : Actor (List Nat), Isolated a ∧
    a.events.map (fun ev => (ev.epoch, ev.raw.origin)) = [(1, 1), (1, 1), (2, 2)] := by
  obtain ⟨a, hreach, hp⟩ := (machine lenient (· = [])).exists_of_runIf
    (fun a l => match l with | .reply _ => a.trace.all (fun o => o.rejects.isNone) | _ => true)
    (C := Settled fun open' o => o ∈ open')
    (by
      rintro a l hc cmd out rfl - - - - - - x hx o ho
      have hx := List.all_eq_true.mp hc x hx
      rw [Option.mem_def.mp ho] at hx
      cases hx)
    { session := [] }
    (commitTurn 1 ++ answer { type := .started, responseID := "r1", origin := 1 } ++
      answer { type := .done, responseID := "r1", origin := 1 } ++
      commitTurn 2 ++ answer { type := .started, responseID := "r2", origin := 2 })
    (fun a => a.events.map (fun ev => (ev.epoch, ev.raw.origin)) = [(1, 1), (1, 1), (2, 2)])
    ⟨_, rfl, rfl⟩ (by decide +kernel)
  exact ⟨a, isolated_of_settled lenient_contract hreach, of_decide_eq_true hp⟩

end BoomPI.Session
