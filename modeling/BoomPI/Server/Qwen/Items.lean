import BoomPI.Server.Qwen
import BoomPI.Server.Session.Follow

/-!
# Which item a cancel deletes

`lastAssistantItem` survives the start of a turn. A `Cancel` that reaches
`DiscardLastResponse` deletes an item of its own turn exactly when the turn's
response announced one after its `Commit`.
-/

namespace BoomPI.Qwen

open Backend (Error ConversationEvent EventType Call Outcomes)
open BoomPI.Session (Actor ActorState Label Command Operation Phase Place Applied ApplyCase AcceptCase call_map perform_one
  Move Aside Lawful)

variable {n : Nat} {act : Act} {s s' : Session} {events events' : List ConversationEvent}
  {a b : Actor Session} {l : Label Act} {result : Option Error} {item : Item} {e : Nat}
  {st st' : ActorState}

/-- The delete was enqueued, and perhaps written, on behalf of epoch `e`. -/
def Deletes (s : Session) (item : Item) (e : Nat) : Prop :=
  .itemDelete item e ∈ s.sent ∨ ∃ batch ∈ s.writes ++ s.urgentWrites, .itemDelete item e ∈ batch.events

/-- Every `conversation.item.delete` names an item of the response of its epoch. -/
def OwnDeletes (s : Session) : Prop := ∀ item e, Deletes s item e → item.response = e

/-- The memory of what was announced is the same and nothing more is deleted. -/
structure Keeps (s s' : Session) : Prop where
  item : s'.lastAssistantItem = s.lastAssistantItem
  announced : s'.announced = s.announced
  deletes : ∀ item e, Deletes s' item e → Deletes s item e

theorem Keeps.of_eq (hi : s'.lastAssistantItem = s.lastAssistantItem)
    (ha : s'.announced = s.announced) (hs : s'.sent = s.sent) (hw : s'.writes = s.writes)
    (hu : s'.urgentWrites = s.urgentWrites) : Keeps s s' := by
  refine ⟨hi, ha, fun item e => ?_⟩
  rw [Deletes, Deletes, hs, hw, hu]
  exact id

theorem Keeps.enqueue {batch : OutboundBatch} (hi : s'.lastAssistantItem = s.lastAssistantItem)
    (ha : s'.announced = s.announced) (hs : s'.sent = s.sent)
    (hw : ∀ x, x ∈ s'.writes ++ s'.urgentWrites → x ∈ s.writes ++ s.urgentWrites ∨ x = batch)
    (hb : ∀ item e, .itemDelete item e ∉ batch.events) : Keeps s s' := by
  refine ⟨hi, ha, ?_⟩
  rintro item e (h | ⟨x, hx, h⟩)
  · exact .inl (hs ▸ h)
  · rcases hw x hx with hx | rfl
    · exact .inr ⟨x, hx, h⟩
    · exact absurd h (hb item e)

theorem Keeps.dequeue {batch : OutboundBatch} (hi : s'.lastAssistantItem = s.lastAssistantItem)
    (ha : s'.announced = s.announced) (hs : ∀ x ∈ s'.sent, x ∈ s.sent ∨ x ∈ batch.events)
    (hb : batch ∈ s.writes ++ s.urgentWrites)
    (hw : ∀ x ∈ s'.writes ++ s'.urgentWrites, x ∈ s.writes ++ s.urgentWrites) : Keeps s s' := by
  refine ⟨hi, ha, ?_⟩
  rintro item e (h | ⟨x, hx, h⟩)
  · exact (hs _ h).imp id fun h => ⟨batch, hb, h⟩
  · exact .inr ⟨x, hw x hx, h⟩

theorem fail_keeps (err : Error) (s : Session) : Keeps s (s.fail err) := by
  unfold Session.fail
  split
  · exact .of_eq rfl rfl rfl rfl rfl
  · exact .of_eq rfl rfl rfl rfl rfl

def Session.noted (item : Item) (rest : List ReaderOp) (s : Session) : Session :=
  { s with
    lastAssistantItem := some item, reader := rest
    announced := { s.announced with
      since := s.announced.since ++ [item], kept := s.announced.kept ++ [item] } }

theorem step_keeps (h : step n act s events = some (s', events')) :
    Keeps s s' ∨ act = .read ∧ ∃ item rest, s.reader = .note item :: rest ∧
      s' = s.noted item rest := by
  cases act with
  | receive event =>
    simp only [step, Option.ite_none_right_eq_some] at h
    obtain ⟨-, h⟩ := h
    cases h
    exact .inl (.of_eq rfl rfl rfl rfl rfl)
  | readFailed err =>
    simp only [step, Option.ite_none_right_eq_some] at h
    obtain ⟨-, h⟩ := h
    cases h
    exact .inl (fail_keeps err s)
  | read =>
    simp only [step, readStep] at h
    split at h
    · cases h
    · cases h
      exact .inl (.of_eq rfl rfl rfl rfl rfl)
    · rename_i item rest hr
      cases h
      exact .inr ⟨rfl, item, rest, hr, rfl⟩
    · split at h <;> cases h <;> exact .inl (.of_eq rfl rfl rfl rfl rfl)
    · split at h <;> cases h
      exact .inl (.of_eq rfl rfl rfl rfl rfl)
    · cases h
      exact .inl (.of_eq rfl rfl rfl rfl rfl)
    · cases h
      obtain ⟨h1, h2, h3⟩ := fail_keeps ‹_› s
      exact .inl ⟨h1, h2, h3⟩
  | stopPublishing =>
    simp only [step] at h
    split at h
    · split at h <;> cases h
      exact .inl (.of_eq rfl rfl rfl rfl rfl)
    · cases h
  | publishFailed =>
    simp only [step] at h
    split at h
    · split at h <;> cases h
      obtain ⟨h1, h2, h3⟩ := fail_keeps ErrTransport s
      exact .inl ⟨h1, h2, h3⟩
    · cases h
  | writeUrgent =>
    simp only [step] at h
    split at h
    · rename_i batch rest hu
      cases h
      refine .inl (@Keeps.dequeue _ _ batch rfl rfl (fun x => List.mem_append.mp) (by simp [hu]) ?_)
      intro x hx
      simp only [List.mem_append, hu, List.mem_cons] at hx ⊢
      exact hx.imp id .inr
    · cases h
  | write =>
    simp only [step] at h
    split at h
    · rename_i batch rest hw
      rw [Option.ite_none_left_eq_some] at h
      obtain ⟨-, h⟩ := h
      have hb : batch ∈ s.writes ++ s.urgentWrites := by simp [hw]
      have hrest : ∀ x ∈ rest ++ s.urgentWrites, x ∈ s.writes ++ s.urgentWrites := by
        intro x hx
        rw [hw]
        exact List.mem_cons_of_mem _ hx
      split at h
      · cases h
        exact .inl (.dequeue rfl rfl (fun x => .inl) hb hrest)
      · cases h
        exact .inl (.dequeue rfl rfl (fun x => List.mem_append.mp) hb hrest)
    · cases h
  | writeFailed err =>
    simp only [step, Option.ite_none_left_eq_some] at h
    obtain ⟨-, h⟩ := h
    cases h
    exact .inl (fail_keeps err s)
  | enqueueCancel =>
    simp only [step, Option.ite_none_right_eq_some] at h
    obtain ⟨-, h⟩ := h
    cases h
    refine .inl (@Keeps.enqueue _ _ { events := [.responseCancel] } rfl rfl rfl ?_ (by simp))
    intro x hx
    simp only [List.mem_append, List.mem_singleton] at hx ⊢
    tauto
  | close =>
    cases h
    exact .inl (.of_eq rfl rfl rfl rfl rfl)

theorem enter_keeps (c : Call) (s : Session) : Keeps s (enter c s) := by
  unfold enter Session.stopResponsePublish
  split
  · split <;> exact .of_eq rfl rfl rfl rfl rfl
  · split
    · exact .of_eq rfl rfl rfl rfl rfl
    · split
      · exact .of_eq rfl rfl rfl rfl rfl
      · split <;> exact .of_eq rfl rfl rfl rfl rfl
  · exact .of_eq rfl rfl rfl rfl rfl

theorem enqueueNow_keeps {batch : OutboundBatch} (h : s.enqueueNow n batch = some s')
    (hb : ∀ item e, .itemDelete item e ∉ batch.events) : Keeps s s' := by
  simp only [Session.enqueueNow, Option.ite_none_right_eq_some] at h
  obtain ⟨-, h⟩ := h
  cases h
  refine @Keeps.enqueue _ _ batch rfl rfl rfl (fun x hx => ?_) hb
  simp only [List.mem_append, List.mem_singleton] at hx ⊢
  tauto

theorem cancel_keeps (h : s.cancel result = some s') : Keeps s s' := by
  unfold Session.cancel at h
  split at h
  · split at h <;> cases h
    refine @Keeps.enqueue _ _ { events := [.inputAudioClear] } rfl rfl rfl (fun x hx => ?_) (by simp)
    simp only [List.mem_append, List.mem_singleton] at hx ⊢
    tauto
  · cases h
    exact .of_eq rfl rfl rfl rfl rfl
  · cases h
    exact .of_eq rfl rfl rfl rfl rfl
  · cases h
    exact .of_eq rfl rfl rfl rfl rfl
  · split at h <;> cases h
    exact .of_eq rfl rfl rfl rfl rfl
  · cases h
    exact .of_eq rfl rfl rfl rfl rfl
  · cases h

theorem commit_failed_keeps {err : Error} (h : s.commit n e (some err) = some s') : Keeps s s' := by
  unfold Session.commit at h
  split at h
  · cases ‹some _ = none›
  · cases h
    exact .of_eq rfl rfl rfl rfl rfl
  · cases h
    exact .of_eq rfl rfl rfl rfl rfl
  · cases h

/-- The announcements once `Commit` of epoch `e` succeeded. -/
def Session.committed (e : Nat) (s : Session) : Session :=
  { s with announced := { s.announced with epoch := e, since := [] } }

theorem commit_keeps (h : s.commit n e none = some s') : Keeps (s.committed e) s' := by
  unfold Session.commit at h
  split at h
  · obtain ⟨h1, h2, h3⟩ := enqueueNow_keeps h (by simp)
    exact ⟨h1, h2, h3⟩
  · cases ‹none = some _›
  · cases ‹none = some _›
  · cases h

theorem sendAudio_keeps {pcm : List UInt8}
    (h : call n (.sendAudio e pcm) result s events = some (s', events')) : Keeps s s' := by
  cases result with
  | none =>
    simp only [call, Option.ite_none_left_eq_some, Option.map_eq_some_iff] at h
    obtain ⟨-, _, h, heq⟩ := h
    cases heq
    exact enqueueNow_keeps h (by simp)
  | some err =>
    cases h
    exact .of_eq rfl rfl rfl rfl rfl

/-- What `DiscardLastResponse` deletes is the item announced last. -/
theorem discard_deletes (h : s.discardLastResponse n e result = some s') :
    s'.lastAssistantItem = none ∧ s'.announced = { s.announced with kept := [] } ∧
      ∀ item e', Deletes s' item e' ↔ Deletes s item e' ∨
        result = none ∧ s.lastAssistantItem = some item ∧ e' = e := by
  unfold Session.discardLastResponse at h
  simp only at h
  split at h
  · rename_i hi
    cases h
    exact ⟨rfl, rfl, by simp [Deletes, hi]⟩
  · cases h
  · rename_i last hi
    simp only [Session.enqueueNow, Option.ite_none_right_eq_some] at h
    obtain ⟨-, h⟩ := h
    cases h
    refine ⟨rfl, rfl, fun item e' => ?_⟩
    simp only [Deletes, List.mem_append, List.mem_singleton, hi, Option.some.injEq, true_and]
    constructor
    · rintro (h | ⟨x, (hx | rfl) | hx, h⟩)
      · exact .inl (.inl h)
      · exact .inl (.inr ⟨x, .inl hx, h⟩)
      · simp only [List.mem_singleton, ClientEvent.itemDelete.injEq] at h
        exact .inr ⟨h.1.symm, h.2⟩
      · exact .inl (.inr ⟨x, .inr hx, h⟩)
    · rintro ((h | ⟨x, hx | hx, h⟩) | ⟨rfl, rfl⟩)
      · exact .inl h
      · exact .inr ⟨x, .inl (.inl hx), h⟩
      · exact .inr ⟨x, .inr hx, h⟩
      · exact .inr ⟨_, .inl (.inr rfl), by simp⟩
  · cases h
    exact ⟨rfl, rfl, by simp [Deletes]⟩

-- ---------------------------------------------------------------------------
-- The invariant
-- ---------------------------------------------------------------------------

/-- What is remembered of the announcements, and of which responses they are. -/
structure Announcing (st : ActorState) (s : Session) : Prop where
  last : s.lastAssistantItem = s.announced.kept.getLast?
  epoch_le : s.announced.epoch ≤ st.latest
  listening : st.phase = .listening → s.announced.epoch < st.epoch
  kept : ∀ item ∈ s.announced.kept, item.response ≤ s.announced.epoch
  old : s.announced.since = [] → ∀ item ∈ s.announced.kept, item.response < s.announced.epoch
  since : ∀ item ∈ s.announced.since, item.response = s.announced.epoch
  same : s.announced.kept ≠ [] → s.announced.since ≠ [] →
    s.announced.kept.getLast? = s.announced.since.getLast?

theorem Announcing.keeps (h : Announcing st s) (hk : Keeps s s') : Announcing st s' := by
  obtain ⟨h1, h2, h3, h4, h5, h6, h7⟩ := h
  constructor <;> rw [hk.announced]
  · rw [hk.item]
    exact h1
  all_goals assumption

theorem Announcing.actor (h : Announcing st s) (hl : st.latest ≤ st'.latest)
    (hp : st'.phase = .listening → s.announced.epoch < st'.epoch) : Announcing st' s :=
  ⟨h.last, Nat.le_trans h.epoch_le hl, hp, h.kept, h.old, h.since, h.same⟩

theorem Announcing.noted (h : Announcing st s) {rest : List ReaderOp}
    (hi : item.response = s.announced.epoch) : Announcing st (s.noted item rest) := by
  refine ⟨by simp [Session.noted], h.epoch_le, h.listening, fun x hx => ?_, by simp [Session.noted],
    fun x hx => ?_, by simp [Session.noted]⟩
  · rcases List.mem_append.mp hx with hx | hx
    · exact h.kept x hx
    · rw [List.mem_singleton.mp hx]
      exact Nat.le_of_eq hi
  · rcases List.mem_append.mp hx with hx | hx
    · exact h.since x hx
    · rw [List.mem_singleton.mp hx]
      exact hi

theorem Announcing.committed (h : Announcing st s) (hlt : s.announced.epoch < e)
    (hle : e ≤ st'.latest) (hp : st'.phase ≠ .listening) : Announcing st' (s.committed e) := by
  refine ⟨h.last, hle, fun h => absurd h hp, fun x hx => ?_, fun _ x hx => ?_,
    by simp [Session.committed], by simp [Session.committed]⟩
  · have := h.kept x hx
    simp only [Session.committed]
    omega
  · have := h.kept x hx
    simp only [Session.committed]
    omega

theorem Announcing.discarded (h : Announcing st s)
    (hd : s'.lastAssistantItem = none ∧ s'.announced = { s.announced with kept := [] }) :
    Announcing st s' := by
  obtain ⟨hi, ha⟩ := hd
  constructor <;> rw [ha]
  · rw [hi]
    rfl
  · exact h.epoch_le
  · exact h.listening
  · simp
  · simp
  · exact h.since
  · simp

/-- The item announced last is of epoch `e` exactly when the response of `e` announced
one after its `Commit`. -/
theorem Announcing.last_iff (h : Announcing st s) (hle : s.announced.epoch ≤ e) :
    (∀ item, s.lastAssistantItem = some item → item.response = e) ↔
      (s.announced.kept = [] ∨ s.announced.epoch = e ∧ s.announced.since ≠ []) := by
  rw [h.last]
  by_cases hk : s.announced.kept = []
  · simp [hk]
  · obtain ⟨item, hitem⟩ : ∃ item, s.announced.kept.getLast? = some item :=
      Option.isSome_iff_exists.mp (by simpa using hk)
    have hmem := List.mem_of_getLast? hitem
    simp only [hitem, Option.some.injEq, forall_eq', hk, false_or]
    by_cases hs : s.announced.since = []
    · have := h.old hs item hmem
      simp only [hs, ne_eq, not_true_eq_false, and_false, iff_false]
      omega
    · have hsame := h.same hk hs
      rw [hitem] at hsame
      rw [h.since item (List.mem_of_getLast? hsame.symm)]
      simp [hs]

-- ---------------------------------------------------------------------------
-- The actor over the session
-- ---------------------------------------------------------------------------

/-- A response announces its items after its `Commit` and before the next one. -/
def AnnouncesInTime (a : Actor Session) (l : Label Act) : Prop :=
  l = .provider .read → ∀ item rest, a.session.reader = .note item :: rest →
    item.response = a.session.announced.epoch

/-- The command reaches `DiscardLastResponse`, and it returns nil. -/
def Discards (st : ActorState) (cmd : Command) (out : Outcomes) : Prop :=
  cmd.op = .cancelTurn ∧ out.discardLastResponse = none ∧
    (st.phase = .idle ∧ cmd.epoch = st.latest ∨
      st.phase.responding = true ∧ cmd.epoch = st.epoch ∧ out.cancel = none)

/-- When `DiscardLastResponse` returns nil to a `Cancel`, the response of the cancelled
turn has announced an item since its `Commit`, or nothing was announced since the last
`DiscardLastResponse`. -/
def OwnItem (a : Actor Session) (l : Label Act) : Prop :=
  ∀ cmd out, l = .reply out → a.place = .applying cmd → Discards a.state cmd out →
    a.session.announced.kept = [] ∨
      a.session.announced.epoch = cmd.epoch ∧ a.session.announced.since ≠ []

theorem OwnDeletes.keeps (h : OwnDeletes s) (hk : Keeps s s') : OwnDeletes s' :=
  fun item e hd => h item e (hk.deletes item e hd)

theorem OwnDeletes.discard (h : OwnDeletes s) (hn : Announcing st s) (hle : s.announced.epoch ≤ e)
    (hd : s.discardLastResponse n e none = some s') : OwnDeletes s' ↔
      (s.announced.kept = [] ∨ s.announced.epoch = e ∧ s.announced.since ≠ []) := by
  obtain ⟨-, -, hdel⟩ := discard_deletes hd
  rw [← hn.last_iff hle]
  constructor
  · exact fun hown item hlast => hown item e ((hdel item e).mpr (.inr ⟨rfl, hlast, rfl⟩))
  · intro hown item e' hdelete
    rcases (hdel item e').mp hdelete with hold | ⟨-, hlast, rfl⟩
    · exact h item e' hold
    · exact hown item hlast

/-- What the calls of one command do to the memory of the announcements. -/
inductive CallsMove (n : Nat) (st : ActorState) (cmd : Command) (out : Outcomes) (r : Applied)
    (s s' : Session) : Prop
  | kept : Keeps s s' → ¬ Discards st cmd out → CallsMove n st cmd out r s s'
  | committed : Keeps (s.committed cmd.epoch) s' → ¬ Discards st cmd out → st.phase = .listening →
      cmd.epoch = st.epoch → r.state = { st with phase := .thinking } → CallsMove n st cmd out r s s'
  | discarded (t : Session) (result : Option Error) : Keeps s t →
      t.discardLastResponse n cmd.epoch result = some s' →
      (result = none ↔ Discards st cmd out) → (Discards st cmd out → st.phase ≠ .listening) →
      CallsMove n st cmd out r s s'

theorem calls_move {cmd : Command} {out : Outcomes} {r : Applied} (hc : ApplyCase true out cmd st r)
    (hp : (provider n).perform out r.calls s events = some (s', events')) :
    CallsMove n st cmd out r s s' := by
  have same : Keeps s s := .of_eq rfl rfl rfl rfl rfl
  have other : cmd.op ≠ .cancelTurn → ¬ Discards st cmd out := fun hop h => hop h.1
  have current : cmd.epoch = st.epoch → st.phase = .listening → ¬ Discards st cmd out := by
    rintro - hl ⟨-, -, ⟨hi, -⟩ | ⟨hr, -⟩⟩
    · simp [hl] at hi
    · simp [hl, Phase.responding] at hr
  have nolisten : Discards st cmd out → st.phase ≠ .listening := by
    rintro ⟨-, -, ⟨hi, -⟩ | ⟨hr, -⟩⟩ hl
    · simp [hl] at hi
    · simp [hl, Phase.responding] at hr
  cases hc with
  | refused _ hbusy hidle =>
    cases hp
    refine .kept same ?_
    rintro ⟨hop, -, ⟨hi, he⟩ | ⟨hr, he, -⟩⟩
    · exact hidle hop hi rfl he
    · exact hbusy hop (BoomPI.Session.Phase.responding_ne hr).1 he
  | started hop =>
    cases hp
    exact .kept same (other (by simp [hop]))
  | audio hop | audioFailed hop =>
    exact .kept (sendAudio_keeps (perform_one hp)) (other (by simp [hop]))
  | committed hop hl he _ ho =>
    have hcall := perform_one hp
    simp only [Outcomes.of, ho] at hcall
    exact .committed (commit_keeps (call_map hcall)) (other (by simp [hop])) hl he rfl
  | commitFailed hop _ _ ho =>
    have hcall := perform_one hp
    simp only [Outcomes.of, ho] at hcall
    exact .kept (commit_failed_keeps (call_map hcall)) (other (by simp [hop]))
  | forgot hop hi he _ =>
    have hcall := call_map (perform_one hp)
    refine .discarded s (out.discardLastResponse) same hcall ?_ nolisten
    exact ⟨fun ho => ⟨hop, ho, .inl ⟨hi, he⟩⟩, fun h => h.2.1⟩
  | cancelFailed _ hi _ ho =>
    refine .kept (cancel_keeps (call_map (perform_one hp))) ?_
    rintro ⟨-, -, ⟨h, -⟩ | ⟨-, -, h⟩⟩
    · exact hi h
    · rw [h] at ho
      cases ho
  | discardFailed hop hr he ho hd _ =>
    obtain ⟨t, _, hcancel, hrest⟩ := BoomPI.Session.perform_cons.mp hp
    refine .discarded t (out.discardLastResponse) (cancel_keeps (call_map hcancel))
      (call_map (perform_one hrest)) ?_ nolisten
    simp [hd, Discards]
  | cancelled hop hi he ho hd =>
    obtain ⟨t, events1, hcancel, hrest⟩ := BoomPI.Session.perform_cons.mp hp
    obtain ⟨t', events2, hdiscard, hdrain⟩ := BoomPI.Session.perform_append.mp hrest
    have hdrain := perform_one hdrain
    cases hdrain
    have hcancel := cancel_keeps (call_map hcancel)
    rcases hd with ⟨rfl, hn⟩ | ⟨rfl, hr, -⟩
    · cases hdiscard
      rcases BoomPI.Session.Phase.listening_or_responding hi with hl | hr
      · exact .kept hcancel (current he hl)
      · exact absurd ⟨hr, rfl⟩ hn
    · refine .discarded t (out.discardLastResponse) hcancel (call_map (perform_one hdiscard)) ?_
        nolisten
      exact ⟨fun h => ⟨hop, h, .inr ⟨hr, he, ho⟩⟩, fun h => h.2.1⟩

/-- One step keeps what is known of the announcements; its deletes are the turn's own
exactly when the condition holds. -/
theorem Announcing.move (h : Announcing a.state a.session) (hl : Lawful a)
    (hown : OwnDeletes a.session) (ha : AnnouncesInTime a l) (m : Move (provider n) a l b) :
    Announcing b.state b.session ∧ (OwnDeletes b.session ↔ OwnItem a l) := by
  -- a step that is no command deletes nothing
  have outside : a.place = .selecting → b.session = a.session → Announcing b.state a.session →
      Announcing b.state b.session ∧ (OwnDeletes b.session ↔ OwnItem a l) := by
    intro hp hs hb
    refine ⟨hs ▸ hb, fun _ => ?_, fun _ => hs ▸ hown⟩
    intro cmd out _ hp'
    rw [hp] at hp'
    cases hp'
  cases m with
  | quiet hs _ _ haside hreply =>
    have hitem : OwnItem a l := fun _ out hlabel => absurd hlabel (hreply out)
    rw [hs]
    cases haside with
    | same hsess _ => exact ⟨hsess ▸ h, fun _ => hitem, fun _ => hsess ▸ hown⟩
    | entered cmd c _ _ _ hsess _ =>
      have hk : Keeps a.session b.session := hsess ▸ enter_keeps c a.session
      exact ⟨h.keeps hk, fun _ => hitem, fun _ => hown.keeps hk⟩
    | stepped k hk _ hlabel =>
      rcases step_keeps hk with hk | ⟨rfl, item, rest, hr, hnoted⟩
      · exact ⟨h.keeps hk, fun _ => hitem, fun _ => hown.keeps hk⟩
      · rw [hnoted]
        exact ⟨h.noted (ha hlabel item rest hr), fun _ => hitem, fun _ => hown⟩
  | expired cmd hp hs _ hsess _ => exact outside hp hsess (hs ▸ h)
  | received raw event s' hp _ hc hs _ hsess _ =>
    obtain ⟨he, hlat, -, -, hlisten⟩ := hc.epochs
    refine outside hp hsess (h.actor ?_ fun hph => ?_)
    · rw [hs]
      exact Nat.le_of_eq hlat.symm
    · rw [hs] at hph ⊢
      exact he ▸ h.listening (hlisten hph)
  | wrote event hp _ hs _ hsess _ =>
    exact outside hp hsess (hs ▸ h.actor (Nat.le_refl _) h.listening)
  | closed event hp _ _ hs _ _ hsess _ => exact outside hp hsess (hs ▸ h)
  | applied cmd out r hp hc hs _ hperf hlabel =>
    have hsound := hl.sound (by simp [hp])
    have hitem : OwnItem a l ↔ (Discards a.state cmd out → a.session.announced.kept = [] ∨
        a.session.announced.epoch = cmd.epoch ∧ a.session.announced.since ≠ []) := by
      constructor
      · exact fun h => h cmd out hlabel hp
      · intro h cmd' out' hlabel' hp'
        rw [hlabel] at hlabel'
        rw [hp] at hp'
        cases hlabel'
        cases hp'
        exact h
    have hkeep : Announcing r.state a.session := by
      refine h.actor hc.latest_le fun hph => ?_
      cases hc with
      | started _ _ hlt => exact Nat.lt_of_le_of_lt h.epoch_le hlt
      | committed => cases hph
      | cancelled => cases hph
      | _ => exact h.listening hph
    rw [hs, hitem]
    cases calls_move hc hperf with
    | kept hk hn => exact ⟨hkeep.keeps hk, fun _ h => absurd h hn, fun _ => hown.keeps hk⟩
    | committed hk hn hlis he hr =>
      have hcur := hsound.current (BoomPI.Session.Phase.listening_ne hlis)
      refine ⟨?_, fun _ h => absurd h hn, fun _ item e' hd =>
        hown item e' (hk.deletes item e' hd)⟩
      refine (h.committed (he ▸ h.listening hlis) ?_ ?_).keeps hk
      · rw [hr]
        exact Nat.le_of_eq (he.trans hcur)
      · simp [hr]
    | discarded t result hk hd hiff hnl =>
      obtain ⟨hi, ha', hdel⟩ := discard_deletes hd
      refine ⟨(hkeep.keeps hk).discarded ⟨hi, ha'⟩, ?_⟩
      by_cases hdis : Discards a.state cmd out
      · have hres := hiff.mpr hdis
        subst hres
        have hle : a.session.announced.epoch ≤ cmd.epoch := by
          have := h.epoch_le
          rcases hdis.2.2 with ⟨-, he⟩ | ⟨hr, he, -⟩
          · omega
          · have := hsound.current (BoomPI.Session.Phase.responding_ne hr).1
            omega
        have := (hown.keeps hk).discard (h.keeps hk) (by rw [hk.announced]; exact hle) hd
        rw [this, hk.announced]
        exact ⟨fun h _ => h, fun h => h hdis⟩
      · refine ⟨fun _ h => absurd h hdis, fun _ item e' hdelete => ?_⟩
        rcases (hdel item e').mp hdelete with hold | ⟨hres, -⟩
        · exact hown item e' (hk.deletes item e' hold)
        · exact absurd (hiff.mp hres) hdis

/-- In every run in which responses announce their items in time, every delete names an
item of the turn it is for if and only if every step meets the condition. -/
theorem own_deletes_iff {ls : List (Label Act)}
    (h : (BoomPI.Session.machine (provider n) (· = {})).Along (fun a l _ => AnnouncesInTime a l)
      { session := {} } ls) :
    (BoomPI.Session.machine (provider n) (· = {})).Along (fun _ _ b => OwnDeletes b.session)
        { session := {} } ls ↔
      (BoomPI.Session.machine (provider n) (· = {})).Along (fun a l _ => OwnItem a l)
        { session := {} } ls := by
  have step : ∀ (a : Actor Session) l b, (BoomPI.Session.machine (provider n) (· = {})).Reachable a →
      Announcing a.state a.session → OwnDeletes a.session → AnnouncesInTime a l →
      BoomPI.Session.step (provider n) a l = some b →
      Announcing b.state b.session ∧ (OwnDeletes b.session ↔ OwnItem a l) :=
    fun a l b hr hn hown ha hs =>
      hn.move (BoomPI.Session.lawful hr) hown ha (BoomPI.Session.step_move hs)
  refine Lts.Machine.along_iff
    (I := fun a => (BoomPI.Session.machine (provider n) (· = {})).Reachable a ∧
      Announcing a.state a.session ∧ OwnDeletes a.session)
    ⟨.init ⟨{}, rfl, rfl⟩, ?_, ?_⟩ h ?_ ?_
  · exact ⟨rfl, Nat.le_refl _, nofun, by simp, by simp, by simp, by simp⟩
  · rintro item e (h | ⟨_, h, _⟩) <;> cases h
  · rintro a l b ⟨hr, hn, hown⟩ ha hs
    exact (step a l b hr hn hown ha hs).2
  · rintro a l b ⟨hr, hn, hown⟩ ha hs hb
    exact ⟨hr.step hs, (step a l b hr hn hown ha hs).1, hb⟩

-- ---------------------------------------------------------------------------
-- A turn cancelled before its first item
-- ---------------------------------------------------------------------------

/-- Start, append and commit turn `e`; the writer sends it. -/
def commitTurn (e : Nat) : List (Label Act) :=
  [.submit { op := .startTurn, epoch := e }, .poll, .command false, .reply {},
    .submit { op := .appendPCM, epoch := e, pcm := List.replicate 640 0 },
    .poll, .command false, .reply {}, .provider .write,
    .submit { op := .commit, epoch := e }, .poll, .command false, .reply {}, .provider .write]

/-- `Cancel` of turn `e` is called and its `response.cancel` sent. -/
def cancelTurn (e : Nat) : List (Label Act) :=
  [.submit { op := .cancelTurn, epoch := e }, .poll, .provider .enqueueCancel, .provider .write]

/-- The reader takes `k` steps for a server event. -/
def hear (event : ServerEvent) (k : Nat) : List (Label Act) :=
  .provider (.receive event) :: List.replicate k (.provider .read)

def handOn : List (Label Act) := [.poll, .receive, .poll, .write]

def answerItem : Item := { id := "item-1", role := "assistant", response := 1 }

/-- Turn 1 is answered to the end; turn 2 is cancelled before its response announced an item. -/
def cancelBeforeItem : List (Label Act) :=
  List.flatten [commitTurn 1, hear (.responseCreated "r1") 2, handOn,
    hear (.itemAdded answerItem) 1, hear (.responseDone "r1" "completed" [answerItem]) 4, handOn,
    commitTurn 2, cancelTurn 2, hear (.responseDone "r2" "cancelled" []) 1, [.provider .read],
    [.reply {}]]

/-- Turn 1 is cancelled after its response announced an item. -/
def cancelAfterItem : List (Label Act) :=
  List.flatten [commitTurn 1, hear (.itemAdded answerItem) 1, cancelTurn 1,
    hear (.responseDone "r1" "cancelled" [answerItem]) 3, [.reply {}]]

/-- A check that decides `AnnouncesInTime`. -/
def announcesInTime (a : Actor Session) (_ : Label Act) : Bool :=
  match a.session.reader with
  | .note item :: _ => item.response = a.session.announced.epoch
  | _ => true

theorem announcesInTime_iff (a : Actor Session) (l : Label Act) (h : announcesInTime a l = true) :
    AnnouncesInTime a l := by
  intro _ item rest hr
  simpa [announcesInTime, hr] using h

/-- The `Cancel` of turn 2 deletes the item of turn 1. -/
theorem cancel_deletes_earlier_item :
    (BoomPI.Session.machine (provider 8) (· = {})).Along (fun a l _ => AnnouncesInTime a l)
        { session := {} } cancelBeforeItem ∧
      ∃ a, (BoomPI.Session.machine (provider 8) (· = {})).run { session := {} } cancelBeforeItem =
        some a ∧ Deletes a.session answerItem 2 ∧ ¬ OwnDeletes a.session := by
  refine ⟨Lts.Machine.along_of_runIf announcesInTime_iff (by decide +kernel), ?_⟩
  obtain ⟨a, hr, -, hp⟩ := (BoomPI.Session.machine (provider 8) (· = {})).exists_of_run
    { session := {} } cancelBeforeItem
    (fun a => { events := [.itemDelete answerItem 2] } ∈ a.session.writes) ⟨_, rfl, rfl⟩
    (by decide +kernel)
  have hd : Deletes a.session answerItem 2 :=
    .inr ⟨_, List.mem_append_left _ (of_decide_eq_true hp), by simp⟩
  exact ⟨a, hr, hd, fun h => absurd (h answerItem 2 hd) (by decide)⟩

theorem own_deletes_cancelAfterItem :
    (BoomPI.Session.machine (provider 8) (· = {})).Along (fun _ _ b => OwnDeletes b.session)
        { session := {} } cancelAfterItem ↔
      (BoomPI.Session.machine (provider 8) (· = {})).Along (fun a l _ => OwnItem a l)
        { session := {} } cancelAfterItem :=
  own_deletes_iff (Lts.Machine.along_of_runIf announcesInTime_iff (by decide +kernel))

end BoomPI.Qwen
