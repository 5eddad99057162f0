import BoomPI.Server.Transport.Receive
import Mathlib.Data.List.Perm.Basic

/-!
# The receive delivery law

Messages are lost at two places: the pump drops what belongs to the saturated
turn, `Receive` what belongs to the congested one. What is lost belongs to a
turn whose congestion has been signalled, and every signal is one report.
-/

namespace BoomPI.Transport

open Lts (Machine)
open Protocol (Message)

variable {s t : Link} {l : LinkLabel} {m : Message} {es : List Entry}

-- ---------------------------------------------------------------------------
-- The views of a log that grows
-- ---------------------------------------------------------------------------

theorem arrivals_of_log (h : t.log = s.log ++ es) :
    t.arrivals = s.arrivals ++ es.filterMap Entry.arrived? := by
  rw [Link.arrivals, h, List.filterMap_append, Link.arrivals]

theorem drops_of_log (h : t.log = s.log ++ es) :
    t.drops = s.drops ++ es.filterMap Entry.dropped? := by
  rw [Link.drops, h, List.filterMap_append, Link.drops]

theorem returns_of_log (h : t.log = s.log ++ es) :
    t.returns = s.returns ++ es.filterMap Entry.returned? := by
  rw [Link.returns, h, List.filterMap_append, Link.returns]

theorem signals_of_log (h : t.log = s.log ++ es) :
    t.signals = s.signals ++ es.filterMap Entry.signalled? := by
  rw [Link.signals, h, List.filterMap_append, Link.signals]

theorem reports_of_log (h : t.log = s.log ++ es) :
    t.reports = s.reports ++ es.filterMap Entry.reported? := by
  rw [Link.reports, h, List.filterMap_append, Link.reports]

theorem LinkMove.grows (h : LinkMove s l t) : ∃ es, t.log = s.log ++ es := by
  cases h with
  | quiet h | leave _ h | release _ _ h | refuse _ _ _ h | keep _ h => exact ⟨[], by rw [h, List.append_nil]⟩
  | queue _ h | wait _ h | stale _ h | again _ _ _ h | signal _ _ _ h | report _ h | take _ h
  | discard _ h | hand _ h => exact ⟨_, h⟩

theorem LinkMove.cause_none (h : LinkMove s l t) (ht : t.cause = none) : s.cause = none := by
  cases h with
  | quiet _ _ _ _ _ h =>
    rcases h with h | h
    · rw [← h, ht]
    · rw [h, Option.or_eq_none_iff] at ht
      exact ht.1
  | refuse _ _ _ _ _ _ _ _ h =>
    rw [h, Option.or_eq_none_iff] at ht
    exact ht.1
  | _ => simp_all

-- ---------------------------------------------------------------------------
-- Where the messages are
-- ---------------------------------------------------------------------------

/-- What was returned and what is on its way, in the order of arrival. -/
def Link.Ordered (s : Link) : Prop := (s.returns ++ s.queued).Sublist s.arrivals

/-- On an open connection every message is returned, dropped or on its way. -/
def Link.Balanced (s : Link) : Prop :=
  s.cause = none → s.arrivals.Perm (s.returns ++ s.drops ++ s.queued)

theorem ordered_of_log (hr : t.returns = s.returns) (ha : t.arrivals = s.arrivals)
    (hq : t.queued.Sublist s.queued) (h : s.Ordered) : t.Ordered := by
  rw [Link.Ordered, hr, ha]
  exact ((List.Sublist.refl _).append hq).trans h

theorem ordered_step (hm : LinkMove s l t) (h : s.Ordered) : t.Ordered := by
  cases hm with
  | quiet hl hq | keep _ hl hq =>
    exact ordered_of_log (by rw [Link.returns, hl]; rfl) (by rw [Link.arrivals, hl]; rfl)
      (hq ▸ .refl _) h
  | leave _ hl hq =>
    exact ordered_of_log (by rw [Link.returns, hl]; rfl) (by rw [Link.arrivals, hl]; rfl) hq h
  | release _ _ hl hq =>
    exact ordered_of_log (by rw [Link.returns, hl]; rfl) (by rw [Link.arrivals, hl]; rfl)
      (hq ▸ .refl _) h
  | queue m hl hq | wait m hl hq =>
    have ha := h.append_right [m]
    rw [List.append_assoc] at ha
    rw [Link.Ordered, returns_of_log hl, arrivals_of_log hl, hq]
    exact (List.append_nil s.returns).symm ▸ ha
  | stale m hl hq =>
    rw [Link.Ordered, returns_of_log hl, arrivals_of_log hl, hq]
    exact (List.append_nil s.returns).symm ▸ h.trans (List.sublist_append_left _ _)
  | again m _ _ hl hq | signal m _ _ hl hq =>
    refine ordered_of_log ?_ ?_ (hq ▸ List.sublist_append_left _ _) h
    · exact (returns_of_log hl).trans (List.append_nil _)
    · exact (arrivals_of_log hl).trans (List.append_nil _)
  | refuse m _ _ hl hq =>
    exact ordered_of_log (by rw [Link.returns, hl]; rfl) (by rw [Link.arrivals, hl]; rfl)
      (hq ▸ List.sublist_append_left _ _) h
  | report c hl hq | take m hl hq =>
    refine ordered_of_log ?_ ?_ (hq ▸ .refl _) h
    · exact (returns_of_log hl).trans (List.append_nil _)
    · exact (arrivals_of_log hl).trans (List.append_nil _)
  | discard m hl hq =>
    refine ordered_of_log ?_ ?_ (hq ▸ List.sublist_cons_self _ _) h
    · exact (returns_of_log hl).trans (List.append_nil _)
    · exact (arrivals_of_log hl).trans (List.append_nil _)
  | hand m hl hq =>
    rw [Link.Ordered, hq, ← List.singleton_append, ← List.append_assoc] at h
    rw [Link.Ordered, returns_of_log hl, arrivals_of_log hl]
    exact (List.append_nil s.arrivals).symm ▸ h

theorem balanced_of_log (hl : t.log = s.log ++ es)
    (hq : (es.filterMap Entry.arrived? ++ s.queued).Perm
      (es.filterMap Entry.returned? ++ es.filterMap Entry.dropped? ++ t.queued))
    (h : s.arrivals.Perm (s.returns ++ s.drops ++ s.queued)) :
    t.arrivals.Perm (t.returns ++ t.drops ++ t.queued) := by
  rw [arrivals_of_log hl, returns_of_log hl, drops_of_log hl]
  rw [List.perm_iff_count] at hq h ⊢
  intro m
  have hq := hq m
  have h := h m
  simp only [List.count_append] at hq h ⊢
  omega

theorem balanced_step (hm : LinkMove s l t) (h : s.Balanced) : t.Balanced := by
  intro ht
  have h := h (hm.cause_none ht)
  cases hm with
  | quiet hl hq | release _ _ hl hq | keep _ hl hq =>
    exact balanced_of_log (hl.trans (List.append_nil _).symm) (hq ▸ .refl _) h
  | leave hc hl hq _ _ hcause => simp [← hcause, ht] at hc
  | refuse m _ _ hl hq _ _ _ hcause =>
    rw [hcause, Option.or_eq_none_iff] at ht
    cases ht.2
  | queue m hl hq | wait m hl hq =>
    exact balanced_of_log hl (hq ▸ List.perm_append_comm) h
  | stale m hl hq => exact balanced_of_log hl (hq ▸ .refl _) h
  | again m _ _ hl hq | signal m _ _ hl hq =>
    have hp : (t.queued ++ [m]).Perm ([m] ++ t.queued) := List.perm_append_comm
    exact balanced_of_log hl (hq ▸ hp) h
  | report c hl hq | take m hl hq => exact balanced_of_log hl (hq ▸ .refl _) h
  | discard m hl hq | hand m hl hq => exact balanced_of_log hl (hq ▸ .refl _) h

-- ---------------------------------------------------------------------------
-- Signals
-- ---------------------------------------------------------------------------

def Link.hasSignalled (s : Link) (id : TurnIdentity) : Prop := ∃ c ∈ s.signals, c.identity = id

/-- What was dropped, and what is dropped next, belongs to a turn that was signalled. -/
structure Link.Explained (s : Link) : Prop where
  drops : ∀ m ∈ s.drops, ∃ id, messageTurnIdentity m = some id ∧ s.hasSignalled id
  saturated : ∀ id, s.inbox.saturatedTurn = some id → s.hasSignalled id
  congested : ∀ id, s.inbox.congested = some id → s.hasSignalled id

theorem hasSignalled_of_log {id : TurnIdentity} (hl : t.log = s.log ++ es) (h : s.hasSignalled id) :
    t.hasSignalled id := by
  obtain ⟨c, hc, rfl⟩ := h
  refine ⟨c, ?_, rfl⟩
  rw [signals_of_log hl]
  exact List.mem_append_left _ hc

/-- The signals stay, the drops grow by what `hnew` explains. -/
theorem explained_of_log (hl : t.log = s.log ++ es)
    (hnew : ∀ m ∈ es.filterMap Entry.dropped?, ∃ id, messageTurnIdentity m = some id ∧
      t.hasSignalled id)
    (hs : ∀ id, t.inbox.saturatedTurn = some id →
      s.inbox.saturatedTurn = some id ∨ t.hasSignalled id)
    (hc : ∀ id, t.inbox.congested = some id → s.inbox.congested = some id ∨ t.hasSignalled id)
    (h : s.Explained) : t.Explained where
  drops m hm := by
    rw [drops_of_log hl, List.mem_append] at hm
    rcases hm with hm | hm
    · obtain ⟨id, hid, h⟩ := h.drops m hm
      exact ⟨id, hid, hasSignalled_of_log hl h⟩
    · exact hnew m hm
  saturated id hid := (hs id hid).elim (fun hid => hasSignalled_of_log hl (h.saturated id hid)) fun h => h
  congested id hid := (hc id hid).elim (fun hid => hasSignalled_of_log hl (h.congested id hid)) fun h => h

theorem explained_step (hm : LinkMove s l t) (h : s.Explained) : t.Explained := by
  cases hm with
  | quiet hl _ _ hs | leave _ hl _ _ hs | refuse m _ _ hl _ _ _ hs =>
    exact explained_of_log (hl.trans (List.append_nil _).symm) (by simp)
      (fun id hid => .inl (hs.saturated ▸ hid)) (fun id hid => .inl (hs.congested ▸ hid)) h
  | release m _ hl _ _ _ hs hc =>
    exact explained_of_log (hl.trans (List.append_nil _).symm) (by simp)
      (fun id hid => by rw [hs] at hid; cases hid) (fun id hid => .inl (hc ▸ hid)) h
  | queue m hl _ _ _ hs | wait m hl _ _ _ _ _ hs | take m hl _ _ hs | hand m hl _ _ hs =>
    exact explained_of_log hl (by simp [List.filterMap_cons, Entry.dropped?])
      (fun id hid => .inl (hs.saturated ▸ hid)) (fun id hid => .inl (hs.congested ▸ hid)) h
  | stale m hl _ _ _ hsome hid hs =>
    refine explained_of_log hl ?_ (fun id hid => .inl (hs.saturated ▸ hid))
      (fun id hid => .inl (hs.congested ▸ hid)) h
    obtain ⟨id, he⟩ := Option.isSome_iff_exists.mp hsome
    simpa [List.filterMap_cons, Entry.dropped?] using
      ⟨id, hid.trans he, hasSignalled_of_log hl (h.saturated id he)⟩
  | again m id _ hl _ _ _ hid hc hs hc' =>
    have hsig := hasSignalled_of_log hl (h.congested id hc)
    refine explained_of_log hl ?_ ?_ ?_ h
    · simpa [List.filterMap_cons, Entry.dropped?] using ⟨id, hid, hsig⟩
    · rintro i hi
      cases hs.symm.trans hi
      exact .inr hsig
    · rintro i hi
      cases hc'.symm.trans hi
      exact .inl hc
  | signal m c _ hl _ _ _ hid _ _ hs hc =>
    have hsig : t.hasSignalled c.identity := by
      refine ⟨c, ?_, rfl⟩
      rw [signals_of_log hl]
      exact List.mem_append_right _ (List.mem_cons_self ..)
    refine explained_of_log hl ?_ ?_ ?_ h
    · simpa [List.filterMap_cons, Entry.dropped?] using ⟨c.identity, hid, hsig⟩
    · rintro i hi
      cases hs.symm.trans hi
      exact .inr hsig
    · rintro i hi
      cases hc.symm.trans hi
      exact .inr hsig
  | report c hl _ _ _ hs hc =>
    exact explained_of_log hl (by simp [List.filterMap_cons, Entry.dropped?])
      (fun id hid => .inl (hs ▸ hid)) (fun id hid => .inl (hc ▸ hid)) h
  | discard m hl _ _ hsome hid hs =>
    refine explained_of_log hl ?_ (fun id hid => .inl (hs.saturated ▸ hid))
      (fun id hid => .inl (hs.congested ▸ hid)) h
    obtain ⟨id, he⟩ := Option.isSome_iff_exists.mp hsome
    simpa [List.filterMap_cons, Entry.dropped?] using
      ⟨id, hid.trans he, hasSignalled_of_log hl (h.congested id he)⟩
  | keep m hl _ _ _ hc hs =>
    refine explained_of_log (hl.trans (List.append_nil _).symm) (by simp)
      (fun id hid => .inl (hs ▸ hid)) (fun id hid => .inl ?_) h
    rcases hc with hc | ⟨hc, -⟩
    · exact hc ▸ hid
    · rw [hc] at hid
      cases hid

def Link.Accounted (s : Link) : Prop := s.signals = s.reports ++ s.inbox.congestion

theorem accounted_of_log (hl : t.log = s.log ++ es)
    (hq : s.inbox.congestion ++ es.filterMap Entry.signalled? =
      es.filterMap Entry.reported? ++ t.inbox.congestion) (h : s.Accounted) : t.Accounted := by
  rw [Link.Accounted, signals_of_log hl, reports_of_log hl, h, List.append_assoc, hq,
    List.append_assoc]

theorem accounted_step (hm : LinkMove s l t) (h : s.Accounted) : t.Accounted := by
  cases hm with
  | quiet hl _ _ hs | leave _ hl _ _ hs | refuse m _ _ hl _ _ _ hs =>
    exact accounted_of_log (hl.trans (List.append_nil _).symm)
      ((List.append_nil _).trans hs.congestion.symm) h
  | release m _ hl _ _ _ _ _ hs | keep m hl _ _ _ _ _ hs =>
    exact accounted_of_log (hl.trans (List.append_nil _).symm)
      ((List.append_nil _).trans hs.symm) h
  | queue m hl _ _ _ hs | wait m hl _ _ _ _ _ hs | stale m hl _ _ _ _ _ hs
  | take m hl _ _ hs | discard m hl _ _ _ _ hs | hand m hl _ _ hs =>
    exact accounted_of_log hl ((List.append_nil _).trans hs.congestion.symm) h
  | again m id _ hl _ _ _ _ _ _ _ hs =>
    exact accounted_of_log hl ((List.append_nil _).trans hs.symm) h
  | signal m c _ hl _ _ _ _ _ h0 _ _ hs => exact accounted_of_log hl (by rw [h0, hs]; rfl) h
  | report c hl _ _ hs => exact accounted_of_log hl (by rw [hs]; exact List.append_nil _) h

-- ---------------------------------------------------------------------------
-- After a signal
-- ---------------------------------------------------------------------------

/-- After a signal of the turn, a later turn's turn.start has been returned. -/
def Passed (c : TurnCongestionError) (log : List Entry) : Prop :=
  ∃ m, .returned m ∈ log ∧ fences c.identity m

/-- `m` was taken out of the queue, and where a signal of its turn came before that, a later
turn's turn.start had been returned in between. -/
def Due (m : Message) (past : List Entry) : Prop :=
  ∃ before gap, past = before ++ .taken m :: gap ∧ (∀ m', .taken m' ∉ gap) ∧
    ∀ pre c mid, before = pre ++ .signalled c :: mid → messageTurnIdentity m = some c.identity →
      Passed c mid

/-- Until a later turn's turn.start is let through, a signalled turn is congested, so nothing
of it is returned that is taken meanwhile. -/
structure Link.Fenced (s : Link) : Prop where
  congested : ∀ pre c post, s.log = pre ++ .signalled c :: post →
    s.inbox.congested = some c.identity ∨ Passed c post ∨
      ∃ m, s.receive = .returning m ∧ fences c.identity m
  holding : ∀ m, s.receive = .holding m → ∃ before gap, s.log = before ++ .taken m :: gap ∧
    (∀ m', .taken m' ∉ gap) ∧ ∀ m', .returned m' ∉ gap
  judged : ∀ m, s.receive = .returning m → Due m s.log
  silent : ∀ past m post, s.log = past ++ .returned m :: post → Due m past

theorem Passed.append {c : TurnCongestionError} {log : List Entry} (h : Passed c log)
    (es : List Entry) : Passed c (log ++ es) := by
  obtain ⟨m, hm, hf⟩ := h
  exact ⟨m, List.mem_append_left _ hm, hf⟩

theorem Due.append {past : List Entry} (h : Due m past) (hes : ∀ m', .taken m' ∉ es) :
    Due m (past ++ es) := by
  obtain ⟨before, gap, rfl, hgap, hdue⟩ := h
  refine ⟨before, gap ++ es, by simp, fun m' hm' => ?_, hdue⟩
  rcases List.mem_append.mp hm' with hm' | hm'
  · exact hgap m' hm'
  · exact hes m' hm'

theorem Link.Fenced.silent_of_log (h : s.Fenced) (hl : t.log = s.log ++ es)
    (hr : ∀ m, .returned m ∉ es) : ∀ past m post, t.log = past ++ .returned m :: post → Due m past := by
  intro past m post he
  rcases Lts.log_split (hl.symm.trans he) with ⟨mid, hm, rfl⟩ | ⟨mid, -, hm⟩
  · exact h.silent past m mid hm
  · exact absurd (by simp [hm]) (hr m)

/-- A step that takes and returns nothing and signals only what is then congested. -/
theorem fenced_of_log (hl : t.log = s.log ++ es) (htaken : ∀ m, .taken m ∉ es)
    (hr : ∀ m, .returned m ∉ es) (hnew : ∀ c, .signalled c ∈ es → t.inbox.congested = some c.identity)
    (hc : ∀ id, s.inbox.congested = some id → t.inbox.congested = some id) (hst : s.Steady t)
    (h : s.Fenced) : t.Fenced where
  congested pre c post he := by
    rcases Lts.log_split (hl.symm.trans he) with ⟨mid, hm, rfl⟩ | ⟨mid, -, hm⟩
    · rcases h.congested pre c mid hm with hcong | hp | ⟨m, hm, hf⟩
      · exact .inl (hc _ hcong)
      · exact .inr (.inl (hp.append es))
      · exact .inr (.inr ⟨m, (hst.returning m).mpr hm, hf⟩)
    · exact .inl (hnew c (by simp [hm]))
  holding m hm := by
    obtain ⟨before, gap, he, htake, hret⟩ := h.holding m (hst.holding m hm)
    refine ⟨before, gap ++ es, by simp [hl, he], fun m' hm' => ?_, fun m' hm' => ?_⟩
    · rcases List.mem_append.mp hm' with hm' | hm'
      · exact htake m' hm'
      · exact htaken m' hm'
    · rcases List.mem_append.mp hm' with hm' | hm'
      · exact hret m' hm'
      · exact hr m' hm'
  judged m hm := by
    rw [hl]
    exact (h.judged m ((hst.returning m).mp hm)).append htaken
  silent := h.silent_of_log hl hr

theorem fenced_of_take (hl : t.log = s.log ++ [.taken m]) (hc : t.inbox.congested = s.inbox.congested)
    (hs : s.receive = .selecting) (ht : t.receive = .holding m) (h : s.Fenced) : t.Fenced where
  congested pre c post he := by
    rcases Lts.log_split (hl.symm.trans he) with ⟨mid, hm, rfl⟩ | ⟨mid, -, hm⟩
    · rcases h.congested pre c mid hm with hcong | hp | ⟨m', hm', -⟩
      · exact .inl (hc.trans hcong)
      · exact .inr (.inl (hp.append _))
      · simp [hs] at hm'
    · cases mid <;> simp at hm
  holding m' hm' := by
    cases ht.symm.trans hm'
    exact ⟨s.log, [], hl, by simp, by simp⟩
  judged m' hm' := by simp [ht] at hm'
  silent := h.silent_of_log hl (by simp)

/-- `Receive` lets a message through: its turn is not congested. -/
theorem fenced_of_keep (hl : t.log = s.log)
    (hne : ∀ id, s.inbox.congested = some id → messageTurnIdentity m ≠ some id)
    (hc : t.inbox.congested = s.inbox.congested ∨
      t.inbox.congested = none ∧ ∀ id, s.inbox.congested = some id → fences id m)
    (hs : s.receive = .holding m) (ht : t.receive = .returning m) (h : s.Fenced) : t.Fenced where
  congested pre c post he := by
    rcases h.congested pre c post (hl.symm.trans he) with hcong | hp | ⟨m', hm', -⟩
    · rcases hc with hc | ⟨-, hf⟩
      · exact .inl (hc.trans hcong)
      · exact .inr (.inr ⟨m, ht, hf _ hcong⟩)
    · exact .inr (.inl hp)
    · simp [hs] at hm'
  holding m' hm' := by simp [ht] at hm'
  judged m' hm' := by
    cases ht.symm.trans hm'
    obtain ⟨before, gap, he, htake, hret⟩ := h.holding m hs
    refine ⟨before, gap, hl.trans he, htake, ?_⟩
    rintro pre c mid rfl hid
    rcases h.congested pre c (mid ++ .taken m :: gap) (by simp [he]) with hcong | ⟨m', hm', hf⟩ | ⟨m', hm', -⟩
    · exact absurd hid (hne _ hcong)
    · -- nothing has been returned since the message was taken
      refine ⟨m', ?_, hf⟩
      simpa [hret m'] using hm'
    · simp [hs] at hm'
  silent := hl ▸ h.silent

theorem fenced_of_hand (hl : t.log = s.log ++ [.returned m])
    (hc : t.inbox.congested = s.inbox.congested) (hs : s.receive = .returning m)
    (ht : t.receive = .idle) (h : s.Fenced) : t.Fenced where
  congested pre c post he := by
    rcases Lts.log_split (hl.symm.trans he) with ⟨mid, hm, rfl⟩ | ⟨mid, -, hm⟩
    · rcases h.congested pre c mid hm with hcong | hp | ⟨m', hm', hf⟩
      · exact .inl (hc.trans hcong)
      · exact .inr (.inl (hp.append _))
      · cases hs.symm.trans hm'
        exact .inr (.inl ⟨m, by simp, hf⟩)
    · cases mid <;> simp at hm
  holding m' hm' := by simp [ht] at hm'
  judged m' hm' := by simp [ht] at hm'
  silent past m' post he := by
    rcases Lts.log_split (hl.symm.trans he) with ⟨mid, hm, rfl⟩ | ⟨mid, hp, hm⟩
    · exact h.silent past m' mid hm
    · obtain ⟨rfl, rfl⟩ : mid = [] ∧ m = m' := by
        cases mid <;> simp_all
      rw [hp, List.append_nil]
      exact h.judged m hs

theorem fenced_step (hm : LinkMove s l t) (h : s.Fenced) : t.Fenced := by
  cases hm with
  | quiet hl _ _ hs _ _ hst | leave _ hl _ _ hs _ hst | refuse m _ _ hl _ _ _ hs _ hst =>
    exact fenced_of_log (hl.trans (List.append_nil _).symm) (by simp) (by simp) (by simp)
      (fun id hid => hs.congested.trans hid) hst h
  | release m _ hl _ _ _ _ hc _ _ hst =>
    exact fenced_of_log (hl.trans (List.append_nil _).symm) (by simp) (by simp) (by simp)
      (fun id hid => hc.trans hid) hst h
  | queue m hl _ _ _ hs _ hst | wait m hl _ _ _ _ _ hs _ hst | stale m hl _ _ _ _ _ hs _ hst
  | discard m hl _ _ _ _ hs _ _ hst =>
    exact fenced_of_log hl (by simp) (by simp) (by simp) (fun id hid => hs.congested.trans hid) hst h
  | again m id _ hl _ _ _ _ hc _ hc' _ _ hst =>
    exact fenced_of_log hl (by simp) (by simp) (by simp) (fun id hid => hc'.trans (hc.symm.trans hid))
      hst h
  | signal m c _ hl _ _ _ _ h0 _ _ hc _ _ hst =>
    exact fenced_of_log hl (by simp) (by simp) (by simpa using hc)
      (fun id hid => by rw [h0] at hid; cases hid) hst h
  | report c hl _ _ _ _ hc _ _ hst =>
    exact fenced_of_log hl (by simp) (by simp) (by simp) (fun id hid => hc.trans hid) hst h
  | take m hl _ _ hs _ _ hrs hrt => exact fenced_of_take hl hs.congested hrs hrt h
  | keep m hl _ _ hne hc _ _ _ _ hrs hrt => exact fenced_of_keep hl hne hc hrs hrt h
  | hand m hl _ _ hs _ _ hrs hrt => exact fenced_of_hand hl hs.congested hrs hrt h

-- ---------------------------------------------------------------------------
-- One signal for each turn
-- ---------------------------------------------------------------------------

/-- After a message of another turn that meets `p`, a turn does not come back. -/
def NoRecurrence (p : Message → Bool) (ms : List Message) : Prop :=
  ∀ a b c, [a, b, c].Sublist ms → p b = true → (messageTurnIdentity b).isSome = true →
    (messageTurnIdentity a).isSome = true → messageTurnIdentity a = messageTurnIdentity c →
    messageTurnIdentity b = messageTurnIdentity a

/-- A message of another turn has arrived after one of the turn. -/
def Behind (id : TurnIdentity) (ms : List Message) : Prop :=
  ∃ a b, [a, b].Sublist ms ∧ messageTurnIdentity a = some id ∧
    (messageTurnIdentity b).isSome = true ∧ messageTurnIdentity b ≠ some id

structure Link.Once (s : Link) : Prop where
  past : ∀ id, s.hasSignalled id → s.inbox.saturatedTurn = some id ∨ Behind id s.arrivals
  heard : ∀ id, s.hasSignalled id → ∃ m ∈ s.arrivals, messageTurnIdentity m = some id
  waiting : ∀ m, s.waiting = [m] → ∃ pre, s.arrivals = pre ++ [m]
  apart : ∀ m, s.waiting = [m] →
    s.inbox.saturatedTurn = none ∨ messageTurnIdentity m ≠ s.inbox.saturatedTurn
  fencing : ∀ m, s.full = none → s.waiting = [m] → (messageTurnIdentity m).isSome = true
  nodup : NoRecurrence (fun _ => true) s.arrivals →
    (s.signals.map TurnCongestionError.identity).Nodup

theorem Behind.mono {id : TurnIdentity} {ms ns : List Message} (h : Behind id ms)
    (hs : ms.Sublist ns) : Behind id ns := by
  obtain ⟨a, b, hab, h⟩ := h
  exact ⟨a, b, hab.trans hs, h⟩

theorem NoRecurrence.mono {p : Message → Bool} {ms ns : List Message} (h : NoRecurrence p ns)
    (hs : ms.Sublist ns) : NoRecurrence p ms :=
  fun a b c habc => h a b c (habc.trans hs)

theorem behind_of_last {id : TurnIdentity} {pre : List Message} {a : Message}
    (ha : a ∈ pre ++ [m]) (hid : messageTurnIdentity a = some id)
    (hm : (messageTurnIdentity m).isSome = true) (hne : messageTurnIdentity m ≠ some id) :
    Behind id (pre ++ [m]) := by
  refine ⟨a, m, ?_, hid, hm, hne⟩
  have ha : a ∈ pre := by
    rcases List.mem_append.mp ha with ha | ha
    · exact ha
    · cases List.mem_singleton.mp ha
      exact absurd hid hne
  exact (List.singleton_sublist.mpr ha).append (.refl [m])

theorem not_behind_of_last {id : TurnIdentity} {pre : List Message}
    (hr : NoRecurrence (fun _ => true) (pre ++ [m])) (hm : messageTurnIdentity m = some id) :
    ¬ Behind id (pre ++ [m]) := by
  rintro ⟨a, b, hab, ha, hb, hne⟩
  have hab : [a, b].Sublist pre := by
    rcases List.sublist_append_iff.mp hab with ⟨l₁, l₂, he, h₁, h₂⟩
    cases l₂ with
    | nil => simpa [he] using h₁
    | cons x l₂ =>
      obtain ⟨rfl, rfl⟩ : x = m ∧ l₂ = [] := by
        cases l₂ with
        | nil => simpa using h₂
        | cons y l₂ => simpa using h₂.length_le
      obtain ⟨-, hb⟩ := List.append_inj' (show [a] ++ [b] = l₁ ++ [x] from he) rfl
      cases hb
      exact absurd hm hne
  exact hne ((hr a b m (hab.append (.refl [m])) rfl hb (by simp [ha]) (ha.trans hm.symm)).trans ha)

theorem once_of_log (hl : t.log = s.log ++ es) (hsig : es.filterMap Entry.signalled? = [])
    (hs : t.inbox.saturatedTurn = s.inbox.saturatedTurn)
    (hw : ∀ m, t.waiting = [m] → (∃ pre, t.arrivals = pre ++ [m]) ∧
      (s.inbox.saturatedTurn = none ∨ messageTurnIdentity m ≠ s.inbox.saturatedTurn) ∧
      (t.full = none → (messageTurnIdentity m).isSome = true))
    (h : s.Once) : t.Once := by
  have hsigs : t.signals = s.signals := by rw [signals_of_log hl, hsig, List.append_nil]
  have hpre : s.arrivals.Sublist t.arrivals := by
    rw [arrivals_of_log hl]
    exact List.sublist_append_left _ _
  have hsigned : ∀ id, t.hasSignalled id → s.hasSignalled id := by
    intro id hid
    rwa [Link.hasSignalled, hsigs] at hid
  exact {
    past := fun id hid => (h.past id (hsigned id hid)).imp (hs.trans ·) (·.mono hpre)
    heard := fun id hid => by
      obtain ⟨m, hm, he⟩ := h.heard id (hsigned id hid)
      exact ⟨m, hpre.subset hm, he⟩
    waiting := fun m hm => (hw m hm).1
    apart := fun m hm => hs ▸ (hw m hm).2.1
    fencing := fun m hf hm => (hw m hm).2.2 hf
    nodup := fun hr => hsigs ▸ h.nodup (hr.mono hpre) }

theorem once_of_waiting (hl : t.log = s.log ++ es) (hsig : es.filterMap Entry.signalled? = [])
    (ha : es.filterMap Entry.arrived? = [])
    (hs : t.inbox.saturatedTurn = s.inbox.saturatedTurn) (hw : t.waiting = s.waiting)
    (hf : t.full = s.full) (h : s.Once) : t.Once := by
  refine once_of_log hl hsig hs ?_ h
  intro m hm
  rw [hw] at hm
  rw [arrivals_of_log hl, ha, List.append_nil, hf]
  exact ⟨h.waiting m hm, h.apart m hm, fun hf => h.fencing m hf hm⟩

/-- The saturated turn changes when the message that waited is of another turn. -/
theorem past_of_waiting (hw : s.waiting = [m]) (hm : (messageTurnIdentity m).isSome = true)
    (h : s.Once) {id : TurnIdentity} (hid : s.hasSignalled id) : Behind id s.arrivals := by
  rcases h.past id hid with hsat | hb
  · obtain ⟨pre, hpre⟩ := h.waiting m hw
    obtain ⟨a, ha, hid⟩ := h.heard id hid
    rw [hpre] at ha ⊢
    refine behind_of_last ha hid hm ?_
    rcases h.apart m hw with hnone | hne
    · rw [hnone] at hsat
      cases hsat
    · exact hsat ▸ hne
  · exact hb

theorem once_step (hm : LinkMove s l t) (h : s.Once) : t.Once := by
  cases hm with
  | quiet hl _ hw hs hf =>
    exact once_of_waiting (hl.trans (List.append_nil _).symm) rfl rfl hs.saturated hw hf h
  | leave _ hl _ hw hs | refuse m _ _ hl _ hw _ hs =>
    refine once_of_log (hl.trans (List.append_nil _).symm) rfl hs.saturated ?_ h
    intro m hm
    rw [hw] at hm
    cases hm
  | queue m hl _ _ hw hs | stale m hl _ _ hw _ _ hs =>
    refine once_of_log hl rfl hs.saturated ?_ h
    intro m hm
    rw [hw] at hm
    cases hm
  | wait m hl _ _ hw hne hfull hs =>
    refine once_of_log hl rfl hs.saturated ?_ h
    intro m' hm
    obtain ⟨⟩ := hw.symm.trans hm
    refine ⟨⟨s.arrivals, arrivals_of_log hl⟩, hne, fun hf => ?_⟩
    rcases hfull with hfull | hsome
    · rw [hf] at hfull
      cases hfull
    · exact hsome
  | report c hl _ hw _ hs _ hf => exact once_of_waiting hl rfl rfl hs hw hf h
  | discard m hl _ hw _ _ hs hf => exact once_of_waiting hl rfl rfl hs.saturated hw hf h
  | take m hl _ hw hs hf | hand m hl _ hw hs hf =>
    exact once_of_waiting hl rfl rfl hs.saturated hw hf h
  | keep m hl _ hw _ _ hs _ hf =>
    exact once_of_waiting (hl.trans (List.append_nil _).symm) rfl rfl hs hw hf h
  | release m hf hl _ hw hw' hs =>
    have hlog : t.log = s.log ++ [] := hl.trans (List.append_nil _).symm
    have hsig : t.signals = s.signals := (signals_of_log hlog).trans (List.append_nil _)
    have harr : t.arrivals = s.arrivals := (arrivals_of_log hlog).trans (List.append_nil _)
    have hsome := h.fencing m hf hw
    refine ⟨?_, ?_, by simp [hw'], by simp [hw'], by simp [hw'], by rw [hsig, harr]; exact h.nodup⟩
    · intro id hid
      rw [Link.hasSignalled, hsig] at hid
      exact .inr (harr ▸ past_of_waiting hw hsome h hid)
    · intro id hid
      rw [Link.hasSignalled, hsig] at hid
      exact harr ▸ h.heard id hid
  | again m id _ hl _ hw hw' hid _ hs =>
    have hsig : t.signals = s.signals := (signals_of_log hl).trans (List.append_nil _)
    have harr : t.arrivals = s.arrivals := (arrivals_of_log hl).trans (List.append_nil _)
    refine ⟨?_, ?_, by simp [hw'], by simp [hw'], by simp [hw'], by rw [hsig, harr]; exact h.nodup⟩
    · intro id hid'
      rw [Link.hasSignalled, hsig] at hid'
      exact .inr (harr ▸ past_of_waiting hw (by simp [hid]) h hid')
    · intro id hid
      rw [Link.hasSignalled, hsig] at hid
      exact harr ▸ h.heard id hid
  | signal m c _ hl _ hw hw' hid _ _ hs =>
    have hsig : t.signals = s.signals ++ [c] := signals_of_log hl
    have harr : t.arrivals = s.arrivals := (arrivals_of_log hl).trans (List.append_nil _)
    have hsome : (messageTurnIdentity m).isSome = true := by simp [hid]
    obtain ⟨pre, hpre⟩ := h.waiting m hw
    have hold : ∀ id, t.hasSignalled id → s.hasSignalled id ∨ id = c.identity := by
      rintro id ⟨c', hc', rfl⟩
      rw [hsig, List.mem_append, List.mem_singleton] at hc'
      exact hc'.imp (⟨c', ·, rfl⟩) (congrArg _)
    refine ⟨?_, ?_, by simp [hw'], by simp [hw'], by simp [hw'], ?_⟩
    · intro id hid'
      rcases hold id hid' with hid' | rfl
      · exact .inr (harr ▸ past_of_waiting hw hsome h hid')
      · exact .inl hs
    · intro id hid'
      rcases hold id hid' with hid' | rfl
      · exact harr ▸ h.heard id hid'
      · exact ⟨m, by simp [harr, hpre], hid⟩
    · intro hr
      rw [harr] at hr
      rw [hsig, List.map_append, List.nodup_append]
      refine ⟨h.nodup hr, by simp, ?_⟩
      rintro _ hold _ hnew rfl
      obtain rfl := List.mem_singleton.mp hnew
      obtain ⟨c', hc', he⟩ := List.mem_map.mp hold
      have hb := past_of_waiting hw hsome h ⟨c', hc', he⟩
      rw [hpre] at hb hr
      exact not_behind_of_last hr hid hb

-- ---------------------------------------------------------------------------
-- Reports
-- ---------------------------------------------------------------------------

theorem congestion_step (hm : LinkMove s l t) (h : s.inbox.congestion.length ≤ 1) :
    t.inbox.congestion.length ≤ 1 := by
  cases hm with
  | quiet _ _ _ hs | leave _ _ _ _ hs | queue _ _ _ _ _ hs | wait _ _ _ _ _ _ _ hs
  | stale _ _ _ _ _ _ _ hs | refuse _ _ _ _ _ _ _ hs | take _ _ _ _ hs | discard _ _ _ _ _ _ hs
  | hand _ _ _ _ hs =>
    exact hs.congestion ▸ h
  | release _ _ _ _ _ _ _ _ hs | again _ _ _ _ _ _ _ _ _ _ _ hs | keep _ _ _ _ _ _ _ hs =>
    exact hs ▸ h
  | signal _ _ _ _ _ _ _ _ _ _ _ _ hs => simp [hs]
  | report _ _ _ _ hs =>
    rw [hs, List.length_cons] at h
    exact Nat.le_of_succ_le h

/-- The first select of `Receive` empties the congestion channel. -/
theorem poll_empties (h : s.step .poll = some t) (ht : t.cause = none)
    (hone : s.inbox.congestion.length ≤ 1) : t.inbox.congestion = [] := by
  simp only [Link.step, Option.ite_none_right_eq_some, Option.some.injEq] at h
  obtain ⟨-, rfl⟩ := h
  rw [Link.poll] at ht ⊢
  split
  · rename_i hc
    simp [hc] at ht
  · rename_i hc
    simpa [hc, Link.report] using hone
  · assumption

theorem signals_mono (hm : LinkMove s l t) {c : TurnCongestionError} (hc : c ∈ s.signals) :
    c ∈ t.signals := by
  obtain ⟨es, hl⟩ := hm.grows
  rw [signals_of_log hl]
  exact List.mem_append_left _ hc

theorem reports_mono (hm : LinkMove s l t) {c : TurnCongestionError} (hc : c ∈ s.reports) :
    c ∈ t.reports := by
  obtain ⟨es, hl⟩ := hm.grows
  rw [reports_of_log hl]
  exact List.mem_append_left _ hc

theorem run_mono {ls : List LinkLabel} (hr : link.run s ls = some t) {c : TurnCongestionError}
    (hc : c ∈ s.reports) : c ∈ t.reports := by
  induction ls generalizing s with
  | nil => cases hr; exact hc
  | cons l ls ih =>
    rw [Machine.run_cons, Option.bind_eq_some_iff] at hr
    obtain ⟨u, hu, hr⟩ := hr
    exact ih hr (reports_mono (link_move hu) hc)

theorem run_cause_none {ls : List LinkLabel} (hr : link.run s ls = some t) (ht : t.cause = none) :
    s.cause = none := by
  induction ls generalizing s with
  | nil => cases hr; exact ht
  | cons l ls ih =>
    rw [Machine.run_cons, Option.bind_eq_some_iff] at hr
    obtain ⟨u, hu, hr⟩ := hr
    exact (link_move hu).cause_none (ih hr)

/-- Once `Receive` has been called again, every earlier signal is reported. -/
theorem reported_of_poll {ls : List LinkLabel} (hr : link.run s ls = some t) (ht : t.cause = none)
    (hp : .poll ∈ ls) (ha : s.Accounted) (hone : s.inbox.congestion.length ≤ 1)
    {c : TurnCongestionError} (hc : c ∈ s.signals) : c ∈ t.reports := by
  induction ls generalizing s with
  | nil => cases hp
  | cons l ls ih =>
    rw [Machine.run_cons, Option.bind_eq_some_iff] at hr
    obtain ⟨u, hu, hr⟩ := hr
    have hm := link_move hu
    rcases List.mem_cons.mp hp with rfl | hp
    · have hempty := poll_empties hu (run_cause_none hr ht) hone
      have hc := signals_mono hm hc
      rw [accounted_step hm ha, hempty, List.append_nil] at hc
      exact run_mono hr hc
    · exact ih hr hp (accounted_step hm ha) (congestion_step hm hone) (signals_mono hm hc)

-- ---------------------------------------------------------------------------
-- The law
-- ---------------------------------------------------------------------------

/-- What `Receive` makes of what arrived. -/
structure Link.Delivers (s : Link) : Prop where
  order : s.returns.Sublist s.arrivals
  lost : s.arrivals.Perm (s.returns ++ s.drops ++ s.queued) ∧
    ∀ m ∈ s.drops, ∃ c ∈ s.signals, messageTurnIdentity m = some c.identity
  /-- A signal becomes one report, when `Receive` is called again. -/
  reported : s.signals = s.reports ++ s.inbox.congestion ∧
    ∀ ls t, link.run s ls = some t → t.cause = none → .poll ∈ ls → ∀ c ∈ s.signals, c ∈ t.reports
  once : NoRecurrence (fun _ => true) s.arrivals →
    (s.signals.map TurnCongestionError.identity).Nodup
  /-- Nothing of a signalled turn is returned that `Receive` takes out of the queue between
  the signal and the return of a later turn's turn.start. -/
  silent : ∀ past m post, s.log = past ++ .returned m :: post → Due m past

theorem once_of_reachable (h : link.Reachable s) : s.Once := by
  refine h.invariant ?_ fun _ _ _ hi hs => once_step (link_move hs) hi
  rintro _ rfl
  exact ⟨nofun, nofun, nofun, nofun, nofun, fun _ => List.nodup_nil⟩

/-- Every message of an open connection is returned in order, or on its way, or lost with
a turn whose congestion is reported. -/
theorem receive_delivers (h : link.Reachable s) (hopen : s.cause = none) : s.Delivers := by
  have hord : s.Ordered :=
    h.invariant (by rintro _ rfl; exact .refl _) fun _ _ _ hi hs => ordered_step (link_move hs) hi
  have hbal : s.Balanced :=
    h.invariant (by rintro _ rfl; exact fun _ => .refl _)
      fun _ _ _ hi hs => balanced_step (link_move hs) hi
  have hexp : s.Explained :=
    h.invariant (by rintro _ rfl; exact ⟨nofun, nofun, nofun⟩)
      fun _ _ _ hi hs => explained_step (link_move hs) hi
  have hacc : s.Accounted :=
    h.invariant (by rintro _ rfl; rfl) fun _ _ _ hi hs => accounted_step (link_move hs) hi
  have hone : s.inbox.congestion.length ≤ 1 :=
    h.invariant (I := fun s => s.inbox.congestion.length ≤ 1) (by rintro _ rfl; exact Nat.zero_le 1)
      fun _ _ _ hi hs => congestion_step (link_move hs) hi
  have hfen : s.Fenced :=
    h.invariant (by rintro _ rfl; exact ⟨by simp, nofun, nofun, by simp⟩)
      fun _ _ _ hi hs => fenced_step (link_move hs) hi
  refine ⟨(List.sublist_append_left _ _).trans hord, ⟨hbal hopen, ?_⟩, ⟨hacc, ?_⟩,
    (once_of_reachable h).nodup, hfen.silent⟩
  · intro m hm
    obtain ⟨_, hid, c, hc, rfl⟩ := hexp.drops m hm
    exact ⟨c, hc, hid⟩
  · intro ls t hr ht hp c hc
    exact reported_of_poll hr ht hp hacc hone hc

-- ---------------------------------------------------------------------------
-- Runs
-- ---------------------------------------------------------------------------

/-- A message without payload of session 5: turn, stream and epoch are all `n`. -/
def messageOf (type : Protocol.ControlType) (n : Nat) : Message :=
  .control { type, deviceID := "", sessionID := 5, turnID := n, streamID := n, epoch := n }

def startOf : Nat → Message := messageOf .turnStart
def commitOf : Nat → Message := messageOf .turnCommit

/-- A message arrives and `readPump` puts it away. -/
def arrives (m : Message) : List LinkLabel := [.peer m, .pump]

def overflows (m : Message) : List LinkLabel := [.peer m, .pump, .pump]

/-- `Receive` with a report in its first select. -/
def receivesReport : List LinkLabel := [.call, .poll]

/-- `Receive` with a message in its second select. -/
def receivesMessage : List LinkLabel := [.call, .poll, .take, .discard, .hand]

def overflowOfThree : List LinkLabel :=
  arrives (startOf 1) ++ arrives (startOf 2) ++
    (List.replicate 30 (arrives (commitOf 3))).flatten ++ overflows (commitOf 3)

def settles : List LinkLabel := receivesReport ++ receivesMessage

/-- A turn reported. -/
theorem receive_delivers_reported :
    ∃ s, link.Reachable s ∧ s.cause = none ∧ s.Delivers ∧ s.drops = [commitOf 3] ∧
      s.reports.length = 1 := by
  obtain ⟨s, -, hr, hp⟩ := link.exists_of_run {} (overflowOfThree ++ settles)
    (fun s => s.cause = none ∧ s.drops = [commitOf 3] ∧ s.reports.length = 1) rfl
    (by decide +kernel)
  obtain ⟨hc, hd, hl⟩ := of_decide_eq_true hp
  exact ⟨s, hr, hc, receive_delivers hr hc, hd, hl⟩

/-- Whether a message of `a`'s turn comes after one of another turn that meets `p`. -/
def comesBack (p : Message → Bool) (a : Message) (ms : List Message) : Bool :=
  (ms.dropWhile fun b => !(p b && (messageTurnIdentity b).isSome &&
    messageTurnIdentity b ≠ messageTurnIdentity a)).tail.any
      fun c => messageTurnIdentity a = messageTurnIdentity c

def recurs (p : Message → Bool) : List Message → Bool
  | [] => false
  | a :: ms => ((messageTurnIdentity a).isSome && comesBack p a ms) || recurs p ms

theorem mem_tail_dropWhile {α : Type} {p : α → Bool} {b c : α} {ms : List α}
    (h : [b, c].Sublist ms) (hb : p b = false) : c ∈ (ms.dropWhile p).tail := by
  induction ms with
  | nil => cases h
  | cons x ms ih =>
    rw [List.dropWhile_cons]
    split
    · rename_i hx
      cases h with
      | cons _ h => exact ih h
      | cons_cons _ h => simp [hb] at hx
    · cases h with
      | cons _ h => exact h.subset (by simp)
      | cons_cons _ h => exact h.subset (by simp)

theorem noRecurrence_of_recurs {p : Message → Bool} {ms : List Message}
    (h : recurs p ms = false) : NoRecurrence p ms := by
  induction ms with
  | nil => exact fun _ _ _ h => nomatch h
  | cons x ms ih =>
    simp only [recurs, Bool.or_eq_false_iff, Bool.and_eq_false_imp] at h
    intro a b c hs hp hb ha hac
    cases hs with
    | cons _ hs => exact ih h.2 a b c hs hp hb ha hac
    | cons_cons _ hs =>
      by_contra hne
      have hc := mem_tail_dropWhile (p := fun b => !(p b && (messageTurnIdentity b).isSome &&
        messageTurnIdentity b ≠ messageTurnIdentity x)) hs (by simp [hp, hb, hne])
      have hnot := List.any_eq_false.mp (h.1 ha) c hc
      simp [hac] at hnot

/-- Turn 3 overflows, is reported, and overflows once more after turn 4 has. -/
theorem three_reported_twice :
    ∃ s, link.Reachable s ∧ s.cause = none ∧ NoRecurrence isTurnStart s.arrivals ∧
      ¬ (s.reports.map TurnCongestionError.identity).Nodup := by
  obtain ⟨s, -, hr, hp⟩ := link.exists_of_run {}
    (overflowOfThree ++ settles ++ arrives (commitOf 4) ++ overflows (commitOf 4) ++ settles ++
      arrives (commitOf 3) ++ overflows (commitOf 3) ++ receivesReport)
    (fun s => s.cause = none ∧ recurs isTurnStart s.arrivals = false ∧
      ¬ (s.reports.map TurnCongestionError.identity).Nodup) rfl (by decide +kernel)
  obtain ⟨hc, hrec, hn⟩ := of_decide_eq_true hp
  exact ⟨s, hr, hc, noRecurrence_of_recurs hrec, hn⟩

end BoomPI.Transport
