import BoomPI.Server.Pipeline.Window

/-!
# What a cancelled turn leaves behind

An observer follows the turn of the last `Commit`: the history it began with, the
events it put on `Events()`, and whether `Cancel` has returned nil since. `Follows`
says where the history and the events can stand at each point of the goroutine.
-/

namespace BoomPI.Pipeline

open Backend (Error ConversationEvent Call Consumer)
open Lts.Machine (Observed)

structure Turn where
  /-- the history when `Commit` returned -/
  before : List ChatMessage
  /-- what its goroutine has put on `Events()` -/
  emitted : List ConversationEvent := []
  heard : Option String := none
  /-- `Cancel` was called, or the session closed, while the goroutine ran -/
  stopped : Bool := false
  /-- `SendAudio` has returned nil since -/
  next : Bool := false
  /-- `Cancel` has returned nil since, and no `SendAudio` before it -/
  fenced : Bool := false
  deriving DecidableEq, Repr

def Turn.after (t : Turn) (act : Act) (events events' : List ConversationEvent) : Turn :=
  { t with
    emitted := t.emitted ++ events'.drop events.length
    heard := match act with
      | .heard (.ok transcript) => some transcript
      | _ => t.heard }

def note (turn : Option Turn) (a : Consumer Session) (l : Consumer.Label Act)
    (b : Consumer Session) : Option Turn :=
  match l with
  | .returns none =>
    match a.calling with
    | some (.commit _) => some { before := a.session.history }
    | some (.sendAudio _ _) => turn.map fun t => { t with next := true }
    | some (.cancel _) => turn.map fun t => { t with fenced := t.fenced ∨ t.next = false }
    | _ => turn
  | .enter (.cancel _) | .session .close =>
    turn.map fun t => { t with stopped := t.stopped ∨ a.session.active.isSome }
  | .session act => turn.map fun t => t.after act a.events b.events
  | _ => turn

/-- A session with one consumer, and the last turn it committed. -/
def watched (cfg : Config) : Lts.Machine (Observed (Consumer Session) (Option Turn))
    (Consumer.Label Act) :=
  (Consumer.machine (provider cfg) {}).observed none note

-- ---------------------------------------------------------------------------
-- The events of a turn
-- ---------------------------------------------------------------------------

/-- `EventStarted`, then text and audio. -/
def Opened (id : GoString) (events : List ConversationEvent) : Prop :=
  ∃ e content, events = e :: content ∧ e.type = .started ∧ e.responseID = id ∧
    ∀ e ∈ content, (e.type = .textDelta ∨ e.type = .audio) ∧ e.responseID = id

/-- Then one `EventDone` or `EventError`, the last of them. -/
def Complete (events : List ConversationEvent) : Prop :=
  ∃ id opened e, Opened id opened ∧ events = opened ++ [e] ∧
    ((e.type = .done ∧ e.responseID = id) ∨ e.type = .error)

def Begun (events : List ConversationEvent) : Prop :=
  events = [] ∨ (∃ id, Opened id events) ∨ Complete events

def Failed (events : List ConversationEvent) : Prop := ∃ e ∈ events, e.type = .error

variable {id : GoString} {evs : List ConversationEvent} {e : ConversationEvent}

theorem Opened.content (h : Opened id evs) (ht : e.type = .textDelta ∨ e.type = .audio)
    (hid : e.responseID = id) : Opened id (evs ++ [e]) := by
  obtain ⟨first, content, rfl, hs, hf, hc⟩ := h
  refine ⟨first, content ++ [e], rfl, hs, hf, fun x hx => ?_⟩
  rcases List.mem_append.mp hx with hx | hx
  · exact hc x hx
  · cases List.mem_singleton.mp hx
    exact ⟨ht, hid⟩

theorem Opened.not_failed (h : Opened id evs) : ¬ Failed evs := by
  obtain ⟨first, content, rfl, hs, -, hc⟩ := h
  rintro ⟨e, he, ht⟩
  rcases List.mem_cons.mp he with rfl | he
  · simp [hs] at ht
  · rcases (hc e he).1 with h | h <;> simp [h] at ht

-- ---------------------------------------------------------------------------
-- The history of a turn
-- ---------------------------------------------------------------------------

variable {cfg : Config} {act : Act} {s s' : Session} {events events' : List ConversationEvent}
  {t t' : Turn} {r r' : Run} {c : Call} {result : Option Error}

/-- The history is as it was at `Commit`. -/
structure Untouched (t : Turn) (s : Session) : Prop where
  flag : s.lastResponseDiscardable = false
  history : s.history = t.before

/-- The turn heard the command to clear the conversation. -/
def Clears (cfg : Config) (t : Turn) : Prop :=
  ∃ transcript, t.heard = some transcript ∧ isClearConversationCommand cfg transcript = true

structure Cleared (cfg : Config) (t : Turn) (s : Session) : Prop where
  flag : s.lastResponseDiscardable = false
  history : s.history = []
  command : Clears cfg t

/-- The turn left no pair, or one that can still be taken back. -/
def Settles (t : Turn) (s : Session) : Prop :=
  if s.lastResponseDiscardable then
    s.history = [] ∨ ∃ h e u v, s.history = h ++ pair e u v ∧ h <:+ t.before
  else s.history <:+ t.before

/-- What the turn reasons over. -/
def Reasons (t : Turn) (e : Nat) (history : List ChatMessage) : Prop :=
  ∃ h u, Paired h ∧ h <:+ t.before ∧ history = h ++ [{ role := .user, content := u, epoch := e }]

theorem Untouched.settles (h : Untouched t s) : Settles t s := by
  simp [Settles, h.flag, h.history]

theorem Cleared.settles (h : Cleared cfg t s) : Settles t s := by
  simp [Settles, h.flag, h.history]

/-- Taking a pair back leaves a part of what was there at `Commit`. -/
theorem Settles.discard (h : Settles t s) :
    s.discardCompletedResponseIfNeeded.lastResponseDiscardable = false ∧
      s.discardCompletedResponseIfNeeded.history <:+ t.before := by
  cases hf : s.lastResponseDiscardable with
  | false =>
    rw [discard_unset hf]
    exact ⟨hf, by simpa [Settles, hf] using h⟩
  | true =>
    simp only [Settles, hf, if_true] at h
    rcases h with h | ⟨h, e, u, v, heq, hsuffix⟩
    · rw [discard_empty h]
      exact ⟨rfl, by simp [h]⟩
    · rw [discard_pair hf heq]
      exact ⟨rfl, hsuffix⟩

theorem Settles.of_suffix (hf : s.lastResponseDiscardable = false) (h : s.history <:+ t.before) :
    Settles t s := by
  simpa [Settles, hf] using h

theorem Untouched.reasons (h : Untouched t s) (hp : Paired s.history) (e : Nat) (u : String) :
    Reasons t e (boundedHistory
      (s.history ++ [{ role := .user, content := u, epoch := e }]) cfg) := by
  obtain ⟨h', hp', heq⟩ := boundedHistory_user hp cfg e u
  have hs := boundedHistory_suffix (s.history ++ [{ role := .user, content := u, epoch := e }]) cfg
  rw [heq] at hs ⊢
  obtain ⟨k, hk⟩ := hs
  rw [← List.append_assoc] at hk
  exact ⟨h', u, hp', ⟨k, h.history ▸ List.append_cancel_right hk⟩, rfl⟩

theorem Reasons.settles {history : List ChatMessage} {e : Nat} {v : String}
    (h : Reasons t e history) (hf : s.lastResponseDiscardable = true)
    (hs : s.history = boundedHistory
      (history ++ [{ role := .assistant, content := v, epoch := e }]) cfg) : Settles t s := by
  obtain ⟨h', u, hp, hsuffix, rfl⟩ := h
  rw [List.append_assoc] at hs
  change s.history = boundedHistory (h' ++ pair e u v) cfg at hs
  simp only [Settles, hf, if_true]
  rcases boundedHistory_pair hp cfg e u v with h0 | ⟨h'', -, heq⟩
  · exact .inl (hs.trans h0)
  · have hpart := boundedHistory_suffix (h' ++ pair e u v) cfg
    rw [heq] at hpart
    obtain ⟨k, hk⟩ := hpart
    rw [← List.append_assoc] at hk
    exact .inr ⟨h'', e, u, v, hs.trans heq, .trans ⟨k, List.append_cancel_right hk⟩ hsuffix⟩

-- ---------------------------------------------------------------------------
-- Where the goroutine stands
-- ---------------------------------------------------------------------------

def Over (t : Turn) : Prop := Complete t.emitted ∨ (t.stopped = true ∧ Begun t.emitted)

def Told (t : Turn) (id : GoString) : Stage → Prop
  | .starting => t.emitted = []
  | .ending => Over t
  | _ => Opened id t.emitted

def Keeps (cfg : Config) (t : Turn) (e : Nat) (s : Session) : Stage → Prop
  | .starting | .recognizing | .reading _ => Untouched t s
  | .clearing => Untouched t s ∧ Clears cfg t
  | .responding history | .answered history _ => Untouched t s ∧ Reasons t e history
  | .confirming | .confirmed => Cleared cfg t s
  | .failing _ => Untouched t s ∨ Cleared cfg t s
  | .finishing | .ending => Settles t s

structure Going (cfg : Config) (t : Turn) (s : Session) (r : Run) : Prop where
  next : t.next = false
  fenced : t.fenced = false
  stopped : r.cancelled = true → t.stopped = true
  told : Told t r.responseID r.stage
  keeps : Keeps cfg t r.epoch s r.stage

structure Follows (cfg : Config) (t : Turn) (s : Session) : Prop where
  running : ∀ r, s.active = some r → Going cfg t s r
  isOver : s.active = none → Over t
  settles : s.active = none → t.next = false → Settles t s
  fenced : t.fenced = true → s.active = none ∧ s.lastResponseDiscardable = false ∧
    s.history <:+ t.before
  failed : Failed t.emitted → Untouched t s ∨ Cleared cfg t s
  fresh : t.next = false → s.pcm = [] ∧
    ∀ c, s.cancelling = some c → c.discardCompletedResponse = true

theorem Over.begun (h : Over t) : Begun t.emitted := h.elim (fun h => .inr (.inr h)) (·.2)

theorem Told.begun {stage : Stage} (h : Told t id stage) : Begun t.emitted := by
  cases stage with
  | starting => exact .inl h
  | ending => exact Over.begun h
  | _ => exact .inr (.inl ⟨id, h⟩)

theorem Told.of_opened {stage : Stage} (hs : stage ≠ .ending ∧ stage ≠ .starting)
    (h : Opened id t.emitted) : Told t id stage := by
  cases stage with
  | starting => exact absurd rfl hs.2
  | ending => exact absurd rfl hs.1
  | _ => exact h

theorem Told.not_failed {stage : Stage} (h : Told t id stage) (he : stage ≠ .ending) :
    ¬ Failed t.emitted := by
  cases stage with
  | starting =>
    rw [show t.emitted = [] from h]
    rintro ⟨e, he, -⟩
    cases he
  | ending => exact absurd rfl he
  | _ => exact Opened.not_failed h

theorem Keeps.settles {stage : Stage} {e : Nat} (h : Keeps cfg t e s stage) : Settles t s := by
  cases stage with
  | starting | recognizing | reading => exact Untouched.settles h
  | clearing | responding | answered => exact h.1.settles
  | confirming | confirmed => exact Cleared.settles h
  | failing => exact Or.elim h Untouched.settles Cleared.settles
  | finishing | ending => exact h

structure Alike (t : Turn) (s : Session) (t' : Turn) (s' : Session) : Prop where
  before : t'.before = t.before
  heard : t'.heard = t.heard
  flag : s'.lastResponseDiscardable = s.lastResponseDiscardable
  history : s'.history = s.history

theorem Untouched.alike (h : Untouched t s) (ha : Alike t s t' s') : Untouched t' s' :=
  ⟨ha.flag.trans h.flag, ha.history.trans (h.history.trans ha.before.symm)⟩

theorem Clears.alike (h : Clears cfg t) (ha : Alike t s t' s') : Clears cfg t' := by
  obtain ⟨transcript, hh, hc⟩ := h
  exact ⟨transcript, ha.heard.trans hh, hc⟩

theorem Cleared.alike (h : Cleared cfg t s) (ha : Alike t s t' s') : Cleared cfg t' s' :=
  ⟨ha.flag.trans h.flag, ha.history.trans h.history, h.command.alike ha⟩

theorem Settles.alike (h : Settles t s) (ha : Alike t s t' s') : Settles t' s' := by
  unfold Settles
  rw [ha.flag, ha.history, ha.before]
  exact h

theorem Keeps.alike {stage : Stage} {e : Nat} (h : Keeps cfg t e s stage) (ha : Alike t s t' s') :
    Keeps cfg t' e s' stage := by
  cases stage with
  | starting | recognizing | reading => exact Untouched.alike h ha
  | clearing => exact ⟨h.1.alike ha, h.2.alike ha⟩
  | responding | answered =>
    obtain ⟨hu, h', u, hp, hsuffix, heq⟩ := h
    exact ⟨hu.alike ha, h', u, hp, ha.before ▸ hsuffix, heq⟩
  | confirming | confirmed => exact Cleared.alike h ha
  | failing => exact h.imp (·.alike ha) (·.alike ha)
  | finishing | ending => exact Settles.alike h ha

-- ---------------------------------------------------------------------------
-- One step of the goroutine
-- ---------------------------------------------------------------------------

/-- The goroutine has gone on; what it stopped for, and the calls, are as they were. -/
theorem Follows.moved (h : Follows cfg t s) (r' : Run) (hr : s.active = some r) (hr' : s'.active = some r')
    (hsame : s'.pcm = s.pcm ∧ s'.cancelling = s.cancelling)
    (ht : t'.next = t.next ∧ t'.fenced = t.fenced ∧ t'.stopped = t.stopped)
    (hc : r'.cancelled = r.cancelled) (htold : Told t' r'.responseID r'.stage)
    (hkeeps : Keeps cfg t' r'.epoch s' r'.stage)
    (hfailed : Failed t'.emitted → Untouched t' s' ∨ Cleared cfg t' s') : Follows cfg t' s' := by
  have hg := h.running r hr
  obtain ⟨hn, hf, hst⟩ := ht
  refine ⟨fun r'' h'' => ?_, fun hnone => ?_, fun hnone => ?_, fun hfenced => ?_, hfailed, ?_⟩
  · rw [hr'] at h''
    cases h''
    exact ⟨hn ▸ hg.next, hf ▸ hg.fenced, fun hcan => hst ▸ hg.stopped (hc ▸ hcan), htold, hkeeps⟩
  · rw [hr'] at hnone
    cases hnone
  · rw [hr'] at hnone
    cases hnone
  · rw [hf, hg.fenced] at hfenced
    cases hfenced
  · rw [hn, hsame.1, hsame.2]
    exact h.fresh

theorem emit_eq {event : ConversationEvent} {f : Session}
    (h : (emit cfg event events).map (fun events => (f, events)) = some (s', events')) :
    s' = f ∧ events' = events ++ [event] := by
  obtain ⟨evs, he, heq⟩ := Option.map_eq_some_iff.mp h
  rw [emit, Option.ite_none_right_eq_some] at he
  obtain ⟨-, he⟩ := he
  cases he
  cases heq
  exact ⟨rfl, rfl⟩

theorem after_emit {event : ConversationEvent} :
    (t.after act events (events ++ [event])).emitted = t.emitted ++ [event] := by
  simp [Turn.after]

theorem after_quiet (hact : ∀ transcript, act ≠ .heard (.ok transcript)) :
    t.after act events events = t := by
  unfold Turn.after
  split
  · exact absurd rfl (hact _)
  · simp

theorem after_heard (hact : ∀ transcript, act ≠ .heard (.ok transcript)) :
    (t.after act events events').heard = t.heard := by
  unfold Turn.after
  split
  · exact absurd rfl (hact _)
  · rfl

/-- The turn has gone on to `stage`, silently. -/
theorem Follows.goto (h : Follows cfg t s) (hr : s.active = some r) (stage : Stage)
    (hact : ∀ transcript, act ≠ .heard (.ok transcript))
    (he : r.stage ≠ .ending) (htold : Told t r.responseID stage)
    (hkeeps : Keeps cfg t r.epoch s stage) :
    Follows cfg (t.after act events events) { s with active := some { r with stage } } := by
  rw [after_quiet hact]
  exact h.moved { r with stage } hr rfl ⟨rfl, rfl⟩ ⟨rfl, rfl, rfl⟩ rfl htold
    (hkeeps.alike ⟨rfl, rfl, rfl, rfl⟩) fun hf => absurd hf ((h.running r hr).told.not_failed he)

theorem Follows.puts (h : Follows cfg t s) (r' : Run) (hr : s.active = some r) (hr' : s'.active = some r')
    {event : ConversationEvent} (hact : ∀ transcript, act ≠ .heard (.ok transcript))
    (hs : s' = { s with active := some r' }) (hrun : r' = { r with stage := r'.stage })
    (hopen : Opened r.responseID t.emitted) (he : r'.stage ≠ .ending ∧ r'.stage ≠ .starting)
    (ht : event.type = .textDelta ∨ event.type = .audio) (hid : event.responseID = r.responseID)
    (hkeeps : Keeps cfg t r.epoch s r'.stage) :
    Follows cfg (t.after act events (events ++ [event])) s' := by
  have hopened : Opened r.responseID (t.after act events (events ++ [event])).emitted := by
    rw [after_emit]
    exact hopen.content ht hid
  have halike : Alike t s (t.after act events (events ++ [event])) s' := by
    rw [hs]
    exact ⟨rfl, after_heard hact, rfl, rfl⟩
  refine h.moved r' hr hr' (by rw [hs]; exact ⟨rfl, rfl⟩) ⟨rfl, rfl, rfl⟩ (by rw [hrun]) ?_ ?_
    fun hf => absurd hf hopened.not_failed
  · rw [hrun]
    exact .of_opened he hopened
  · rw [hrun]
    exact hkeeps.alike halike

theorem Follows.recognized (h : Follows cfg t s) (hr : s.active = some r) (stage : Stage)
    (ht : t' = { t with heard := t'.heard }) (hopen : Opened r.responseID t.emitted)
    (he : stage ≠ .ending ∧ stage ≠ .starting)
    (hkeeps : ∀ s' : Session, Untouched t s' → Keeps cfg t' r.epoch s' stage)
    (hs : Untouched t s) :
    Follows cfg t' (if r.realtime = true then
      { s with active := some { r with stage } }.startRealtimeASRPreparation
      else { s with active := some { r with stage } }) := by
  have htold : Told t' r.responseID stage := .of_opened he (by rw [ht]; exact hopen)
  have hnot : ¬ Failed t'.emitted := htold.not_failed he.1
  have hgone : t'.next = t.next ∧ t'.fenced = t.fenced ∧ t'.stopped = t.stopped := by
    rw [ht]
    exact ⟨rfl, rfl, rfl⟩
  split
  · obtain ⟨⟨h1, h2, h3, h4⟩, hact⟩ :=
      startRealtimeASRPreparation_same { s with active := some { r with stage } }
    exact h.moved { r with stage } hr hact ⟨h3, h4⟩ hgone rfl htold
      (hkeeps _ ⟨h2.trans hs.flag, h1.trans hs.history⟩) fun hf => absurd hf hnot
  · exact h.moved { r with stage } hr rfl ⟨rfl, rfl⟩ hgone rfl htold
      (hkeeps _ ⟨hs.flag, hs.history⟩) fun hf => absurd hf hnot

theorem Follows.ending (h : Follows cfg t s) (hr : s.active = some r)
    (hact : ∀ transcript, act ≠ .heard (.ok transcript))
    (hover : Over (t.after act events events'))
    (hfailed : Failed (t.after act events events').emitted → Untouched t s ∨ Cleared cfg t s) :
    Follows cfg (t.after act events events') { s with active := some { r with stage := .ending } } := by
  have halike : Alike t s (t.after act events events')
      { s with active := some { r with stage := .ending } } := ⟨rfl, after_heard hact, rfl, rfl⟩
  refine h.moved { r with stage := .ending } hr rfl ⟨rfl, rfl⟩ ⟨rfl, rfl, rfl⟩ rfl hover
    ?_ fun hf => (hfailed hf).imp (·.alike halike) (·.alike halike)
  exact (h.running r hr).keeps.settles.alike halike

theorem Follows.runStep (h : Follows cfg t s) (hp : Paired s.history) (hr : s.active = some r)
    (hs : runStep cfg act r s events = some (s', events')) :
    Follows cfg (t.after act events events') s' := by
  obtain ⟨hnext, hfenced, hstopped, htold, hkeeps⟩ := h.running r hr
  -- giving up after the last event that was put
  have gaveUp (hact : act = .giveUp) (hend : r.stage ≠ .ending) (hgive : r.cancelled = true) :
      Follows cfg (t.after act events events)
        { s with active := some { r with stage := .ending } } := by
    have hquiet : t.after act events events = t := after_quiet (by simp [hact])
    refine h.ending hr (by simp [hact]) ?_ fun hf => absurd (hquiet ▸ hf) (htold.not_failed hend)
    rw [hquiet]
    exact .inr ⟨hstopped hgive, htold.begun⟩
  unfold BoomPI.Pipeline.runStep at hs
  simp only at hs
  split at hs <;> rename_i hst <;> try rw [hst] at htold hkeeps
  · rename_i responseID
    obtain ⟨rfl, rfl⟩ := emit_eq hs
    have hopened : Opened responseID (t.after (.started responseID) events (events ++
        [{ type := .started, responseID, origin := r.epoch }])).emitted := by
      rw [after_emit, show t.emitted = [] from htold]
      exact ⟨_, [], rfl, rfl, rfl, nofun⟩
    exact h.moved { r with responseID, stage := .recognizing } hr rfl ⟨rfl, rfl⟩
      ⟨rfl, rfl, rfl⟩ rfl hopened ⟨hkeeps.flag, hkeeps.history⟩
      fun hf => absurd hf hopened.not_failed
  · rename_i transcript
    split at hs <;> rename_i hcommand <;> cases hs
    · exact h.recognized hr _ (by simp [Turn.after]) htold ⟨nofun, nofun⟩
        (fun s' hu => ⟨⟨hu.flag, hu.history⟩, transcript, rfl, hcommand⟩) hkeeps
    · exact h.recognized hr _ (by simp [Turn.after]) htold ⟨nofun, nofun⟩
        (fun s' hu => ⟨hu.flag, hu.history⟩) hkeeps
  · cases hs
    rw [after_quiet (by simp)]
    exact h.recognized hr _ rfl htold ⟨nofun, nofun⟩ (fun s' hu => .inl hu) hkeeps
  · cases hs
    rw [after_quiet (by simp)]
    exact h.moved { r with stage := .confirming } hr rfl ⟨rfl, rfl⟩ ⟨rfl, rfl, rfl⟩ rfl
      htold ⟨rfl, rfl, hkeeps.2⟩ fun hf => absurd hf (htold.not_failed nofun)
  · rw [Option.ite_none_right_eq_some] at hs
    obtain ⟨rfl, rfl⟩ := emit_eq hs.2
    exact h.puts { r with stage := .confirmed } hr rfl (by simp) rfl rfl htold
      ⟨nofun, nofun⟩ (.inl rfl) rfl hkeeps
  · rename_i transcript
    cases hs
    exact h.goto hr _ (by simp) (by simp [hst]) htold ⟨hkeeps, hkeeps.reasons hp r.epoch transcript⟩
  · obtain ⟨rfl, rfl⟩ := emit_eq hs
    exact h.puts r hr hr (by simp) (by rw [← hr]) rfl htold (by simp [hst]) (.inl rfl) rfl
      (hst ▸ hkeeps)
  · rw [Option.ite_none_left_eq_some] at hs
    obtain ⟨rfl, rfl⟩ := emit_eq hs.2
    exact h.puts r hr hr (by simp) (by rw [← hr]) rfl htold (by simp [hst]) (.inr rfl) rfl
      (hst ▸ hkeeps)
  · rw [Option.ite_none_left_eq_some] at hs
    obtain ⟨rfl, rfl⟩ := emit_eq hs.2
    exact h.puts r hr hr (by simp) (by rw [← hr]) rfl htold (by simp [hst]) (.inr rfl) rfl
      (hst ▸ hkeeps)
  · cases hs
    exact h.goto hr _ (by simp) (by simp [hst]) htold hkeeps
  · cases hs
    exact h.goto hr _ (by simp) (by simp [hst]) htold (.inl hkeeps.1)
  · cases hs
    exact h.goto hr _ (by simp) (by simp [hst]) htold hkeeps.settles
  · cases hs
    exact h.goto hr _ (by simp) (by simp [hst]) htold (.inr hkeeps)
  · cases hs
    rw [after_quiet (by simp)]
    exact h.moved { r with stage := .finishing } hr rfl ⟨rfl, rfl⟩ ⟨rfl, rfl, rfl⟩ rfl
      htold (hkeeps.2.settles rfl rfl) fun hf => absurd hf (htold.not_failed nofun)
  · obtain ⟨rfl, rfl⟩ := emit_eq hs
    refine h.ending hr (by simp) (.inl ?_) fun hf => ?_
    · rw [after_emit]
      exact ⟨r.responseID, t.emitted, _, htold, rfl, .inl ⟨rfl, rfl⟩⟩
    · rw [after_emit] at hf
      obtain ⟨e, he, herr⟩ := hf
      rcases List.mem_append.mp he with he | he
      · exact absurd ⟨e, he, herr⟩ (htold.not_failed nofun)
      · cases List.mem_singleton.mp he
        cases herr
  · obtain ⟨rfl, rfl⟩ := emit_eq hs
    refine h.ending hr (by simp) (.inl ?_) fun _ => hkeeps
    rw [after_emit]
    exact ⟨r.responseID, t.emitted, _, htold, rfl, .inr rfl⟩
  · split at hs <;> cases hs
    exact gaveUp rfl (by simp [hst]) ‹_›
  · split at hs <;> cases hs
    exact gaveUp rfl (by simp [hst]) ‹_›
  · split at hs <;> cases hs
    exact gaveUp rfl (by simp [hst]) ‹_›
  · split at hs <;> cases hs
    exact gaveUp rfl (by simp [hst]) ‹_›
  · cases hs
    rw [after_quiet (by simp)]
    exact ⟨nofun, fun _ => htold, fun _ _ => hkeeps.alike ⟨rfl, rfl, rfl, rfl⟩,
      fun hf => (by rw [hfenced] at hf; cases hf),
      fun hf => (h.failed hf).imp (·.alike ⟨rfl, rfl, rfl, rfl⟩) (·.alike ⟨rfl, rfl, rfl, rfl⟩),
      h.fresh⟩
  · cases hs

theorem Follows.aside (h : Follows cfg t s) (hs : s'.active = s.active ∧ s'.pcm = s.pcm)
    (hhist : s'.lastResponseDiscardable = s.lastResponseDiscardable ∧ s'.history = s.history)
    (hc : ∀ c, s'.cancelling = some c → s.cancelling = some c) : Follows cfg t s' := by
  have halike : Alike t s t s' := ⟨rfl, rfl, hhist.1, hhist.2⟩
  obtain ⟨ha, hp⟩ := hs
  refine ⟨fun r hr => ?_, fun hn => h.isOver (ha ▸ hn),
    fun hn hnext => (h.settles (ha ▸ hn) hnext).alike halike, fun hf => ?_,
    fun hf => (h.failed hf).imp (·.alike halike) (·.alike halike), fun hnext => ?_⟩
  · obtain ⟨h1, h2, h3, h4, h5⟩ := h.running r (ha ▸ hr)
    exact ⟨h1, h2, h3, h4, h5.alike halike⟩
  · rw [ha, hhist.1, hhist.2]
    exact h.fenced hf
  · exact ⟨hp.trans (h.fresh hnext).1, fun c h' => (h.fresh hnext).2 c (hc c h')⟩

/-- The context of the turn is cancelled, by `Cancel` or by `Close`. -/
theorem Follows.stopped (h : Follows cfg t s)
    (ha : s'.active = s.active.map fun r => { r with cancelled := true })
    (hhist : s'.lastResponseDiscardable = s.lastResponseDiscardable ∧ s'.history = s.history)
    (hfresh : t.next = false → s'.pcm = [] ∧
      ∀ c, s'.cancelling = some c → c.discardCompletedResponse = true) :
    Follows cfg { t with stopped := t.stopped ∨ s.active.isSome } s' := by
  have halike : Alike t s { t with stopped := t.stopped ∨ s.active.isSome } s' :=
    ⟨rfl, rfl, hhist.1, hhist.2⟩
  have hnone (hn : s'.active = none) : s.active = none := by
    rw [ha, Option.map_eq_none_iff] at hn
    exact hn
  have hover (h : Over t) : Over { t with stopped := t.stopped ∨ s.active.isSome } :=
    h.imp id fun hs => ⟨by simp [hs.1], hs.2⟩
  refine ⟨fun r hr => ?_, fun hn => hover (h.isOver (hnone hn)),
    fun hn hnext => (h.settles (hnone hn) hnext).alike halike, fun hf => ?_,
    fun hf => (h.failed hf).imp (·.alike halike) (·.alike halike), hfresh⟩
  · rw [ha, Option.map_eq_some_iff] at hr
    obtain ⟨r, hr, rfl⟩ := hr
    obtain ⟨h1, h2, h3, h4, h5⟩ := h.running r hr
    refine ⟨h1, h2, fun _ => by simp [hr], ?_, h5.alike halike⟩
    generalize r.stage = stage at h4
    cases stage with
    | ending => exact hover h4
    | _ => exact h4
  · obtain ⟨h1, h2, h3⟩ := h.fenced hf
    exact ⟨by rw [ha, h1]; rfl, hhist.1.trans h2, hhist.2 ▸ h3⟩

theorem Follows.step (h : Follows cfg t s) (hp : Paired s.history)
    (hs : step cfg act s events = some (s', events')) (hact : act ≠ .close) :
    Follows cfg (t.after act events events') s' := by
  unfold BoomPI.Pipeline.step at hs
  split at hs
  · rw [Option.ite_none_right_eq_some] at hs
    obtain ⟨-, hs⟩ := hs
    cases hs
    rw [after_quiet (by simp)]
    exact h.aside ⟨rfl, rfl⟩ ⟨rfl, rfl⟩ fun _ => id
  · rw [Option.ite_none_right_eq_some] at hs
    obtain ⟨-, hs⟩ := hs
    cases hs
    rw [after_quiet (by simp)]
    exact h.aside ⟨rfl, rfl⟩ ⟨rfl, rfl⟩ fun _ => id
  · exact absurd rfl hact
  · split at hs
    · exact h.runStep hp ‹_› hs
    · cases hs

-- ---------------------------------------------------------------------------
-- The calls
-- ---------------------------------------------------------------------------

/-- Input and a running turn exclude each other, and input ends what can be taken back. -/
structure Inputs (s : Session) : Prop where
  unheld : s.pcm ≠ [] → s.lastResponseDiscardable = false
  listening : s.active ≠ none → s.pcm = []

theorem Inputs.runMove (h : Inputs s) (m : RunMove cfg act s s') : Inputs s' := by
  cases m with
  | aside hs ha =>
    refine ⟨fun hp => hs.flag.trans (h.unheld (hs.pcm ▸ hp)), fun hn => hs.pcm.trans (h.listening ?_)⟩
    rcases ha with ha | ha
    · exact ha ▸ hn
    · rw [ha, ne_eq, Option.map_eq_none_iff] at hn
      exact hn
  | going r r' hs hr | copied r _ hs hr =>
    exact ⟨fun hp => hs.flag.trans (h.unheld (hs.pcm ▸ hp)),
      fun _ => hs.pcm.trans (h.listening (by simp [hr]))⟩
  | cleared r _ hr _ _ _ hf hpcm =>
    exact ⟨fun _ => hf, fun _ => hpcm.trans (h.listening (by simp [hr]))⟩
  | remembered r _ _ _ hr _ _ _ _ hpcm =>
    have hnil : s'.pcm = [] := hpcm.trans (h.listening (by simp [hr]))
    exact ⟨fun hp => absurd hnil hp, fun _ => hnil⟩
  | ended r hs _ hn =>
    exact ⟨fun hp => hs.flag.trans (h.unheld (hs.pcm ▸ hp)), fun hne => absurd hn hne⟩

theorem discard_same (s : Session) : s.discardCompletedResponseIfNeeded.pcm = s.pcm ∧
    s.discardCompletedResponseIfNeeded.cancelling = s.cancelling ∧
    s.discardCompletedResponseIfNeeded.active = s.active ∧
    s.discardCompletedResponseIfNeeded.lastResponseDiscardable = false := by
  unfold Session.discardCompletedResponseIfNeeded
  split
  · exact ⟨rfl, rfl, rfl, ‹_›⟩
  · exact ⟨rfl, rfl, rfl, rfl⟩

theorem Inputs.discard (h : Inputs s) : Inputs s.discardCompletedResponseIfNeeded := by
  obtain ⟨h1, -, h3, h4⟩ := discard_same s
  exact ⟨fun _ => h4, fun hn => h1.trans (h.listening (h3 ▸ hn))⟩

/-- `DiscardLastResponse`, during the turn or after it. -/
theorem Follows.discard (h : Follows cfg t s) : Follows cfg t s.discardCompletedResponseIfNeeded := by
  obtain ⟨hpcm, hcan, hact, hflag⟩ := discard_same s
  cases hf : s.lastResponseDiscardable with
  | false =>
    rw [discard_unset hf]
    exact h
  | true =>
    have held (hu : Untouched t s ∨ Cleared cfg t s) : False := by
      rcases hu with hu | hu <;> simp [hu.flag] at hf
    refine ⟨fun r hr => ?_, fun hn => h.isOver (hact ▸ hn), fun hn hnext => ?_, fun hfen => ?_,
      fun hfail => absurd (h.failed hfail) held, fun hnext => ?_⟩
    · obtain ⟨h1, h2, h3, h4, h5⟩ := h.running r (hact ▸ hr)
      refine ⟨h1, h2, h3, h4, ?_⟩
      have hset := h5.settles.discard
      generalize r.stage = stage at h5
      cases stage with
      | starting | recognizing | reading => exact (held (.inl h5)).elim
      | clearing | responding | answered => exact (held (.inl h5.1)).elim
      | confirming | confirmed => exact (held (.inr h5)).elim
      | failing => exact (held h5).elim
      | finishing | ending => exact .of_suffix hset.1 hset.2
    · have hset := (h.settles (hact ▸ hn) hnext).discard
      exact .of_suffix hset.1 hset.2
    · have := (h.fenced hfen).2.1
      rw [hf] at this
      cases this
    · rw [hpcm, hcan]
      exact h.fresh hnext

theorem Follows.sendAudio (h : Follows cfg t s) {pcm : List UInt8}
    (hs : s.sendAudio pcm = some s') : Follows cfg { t with next := true } s' := by
  rw [Session.sendAudio, Option.ite_none_left_eq_some] at hs
  obtain ⟨hguard, hs⟩ := hs
  cases hs
  simp only [not_or, Option.not_isSome_iff_eq_none] at hguard
  have hidle : s.active = none := hguard.2.2.2.1
  have hflag (hf : s.lastResponseDiscardable = false) :
      (if s.pcm = [] then false else s.lastResponseDiscardable) = false := by
    rw [hf, ite_self]
  refine ⟨fun r hr => ?_, fun _ => h.isOver hidle, by simp, fun hf => ?_, fun hf => ?_, by simp⟩
  · rw [show s.active = some r from hr] at hidle
    cases hidle
  · obtain ⟨h1, h2, h3⟩ := h.fenced hf
    exact ⟨h1, hflag h2, h3⟩
  · exact (h.failed hf).imp (fun hu => ⟨hflag hu.flag, hu.history⟩)
      fun hu => ⟨hflag hu.flag, hu.history, hu.command⟩

theorem Inputs.sendAudio (h : Inputs s) {pcm : List UInt8} (hs : s.sendAudio pcm = some s') :
    Inputs s' := by
  rw [Session.sendAudio, Option.ite_none_left_eq_some] at hs
  obtain ⟨hguard, hs⟩ := hs
  cases hs
  simp only [not_or, Option.not_isSome_iff_eq_none] at hguard
  refine ⟨fun _ => ?_, fun hn => absurd hguard.2.2.2.1 hn⟩
  by_cases hpcm : s.pcm = []
  · simp [hpcm]
  · simpa [hpcm] using h.unheld hpcm

theorem Follows.commit (hi : Inputs s) {e : Nat} (hs : s.commit e = some s')
    (hc : s.cancelling = none) : Follows cfg { before := s.history } s' := by
  rw [Session.commit, Option.ite_none_left_eq_some] at hs
  obtain ⟨hguard, hs⟩ := hs
  cases hs
  simp only [not_or] at hguard
  refine ⟨fun r hr => ?_, by simp, by simp, by simp, ?_, fun _ => ⟨rfl, fun c h => ?_⟩⟩
  · cases hr
    exact ⟨rfl, rfl, by simp, rfl, hi.unheld hguard.2.2, rfl⟩
  · rintro ⟨e, he, -⟩
    cases he
  · rw [show s.cancelling = some c from h] at hc
    cases hc

theorem Inputs.commit {e : Nat} (hs : s.commit e = some s') : Inputs s' := by
  rw [Session.commit, Option.ite_none_left_eq_some] at hs
  obtain ⟨-, hs⟩ := hs
  cases hs
  exact ⟨fun hp => absurd rfl hp, fun _ => rfl⟩

theorem Follows.enterCancel (h : Follows cfg t s) :
    Follows cfg { t with stopped := t.stopped ∨ s.active.isSome } s.enterCancel := by
  refine h.stopped rfl ⟨rfl, rfl⟩ fun hnext => ⟨rfl, fun c hc => ?_⟩
  cases hc
  simp [(h.fresh hnext).1]

theorem Inputs.enterCancel : Inputs s.enterCancel := ⟨fun hp => absurd rfl hp, fun _ => rfl⟩

theorem leaveCancel_cases (hs : s.leaveCancel result = some s') : ∃ c, s.cancelling = some c ∧
    (result = none → s.active = none) ∧
    s' = if result = none ∧ c.discardCompletedResponse = true then
      ({ s with cancelling := none } : Session).discardCompletedResponseIfNeeded
      else { s with cancelling := none } := by
  unfold Session.leaveCancel at hs
  split at hs
  · rename_i c hc
    rw [Option.ite_none_left_eq_some, Option.not_isSome_iff_eq_none] at hs
    obtain ⟨hidle, hs⟩ := hs
    cases hs
    exact ⟨c, hc, fun _ => hidle, by simp⟩
  · rename_i c _ hc
    rw [Option.ite_none_right_eq_some] at hs
    obtain ⟨-, hs⟩ := hs
    cases hs
    exact ⟨c, hc, nofun, by simp⟩
  · cases hs

theorem Follows.left (h : Follows cfg t s) : Follows cfg t { s with cancelling := none } :=
  h.aside ⟨rfl, rfl⟩ ⟨rfl, rfl⟩ nofun

/-- `Cancel` returns nil. -/
theorem Follows.cancelled (h : Follows cfg t s) (hs : s.leaveCancel none = some s') :
    Follows cfg { t with fenced := t.fenced ∨ t.next = false } s' := by
  obtain ⟨c, hcan, hidle, rfl⟩ := leaveCancel_cases hs
  -- what the fence adds
  have fence {s'' : Session} (h' : Follows cfg t s'') (hidle : s''.active = none)
      (hset : t.next = false → s''.lastResponseDiscardable = false ∧ s''.history <:+ t.before) :
      Follows cfg { t with fenced := t.fenced ∨ t.next = false } s'' := by
    refine ⟨fun r hr => ?_, h'.isOver, h'.settles, fun hf => ?_, fun hf => (h'.failed hf).imp
      (·.alike ⟨rfl, rfl, rfl, rfl⟩) (·.alike ⟨rfl, rfl, rfl, rfl⟩), h'.fresh⟩
    · rw [hidle] at hr
      cases hr
    · rcases of_decide_eq_true hf with hf | hnext
      · exact h'.fenced hf
      · exact ⟨hidle, hset hnext⟩
  split
  · obtain ⟨-, -, hact, -⟩ := discard_same { s with cancelling := none }
    exact fence h.left.discard (hact.trans (hidle rfl))
      fun hnext => (h.left.settles (hidle rfl) hnext).discard
  · rename_i hdiscard
    exact fence h.left (hidle rfl)
      fun hnext => absurd ⟨rfl, (h.fresh hnext).2 c hcan⟩ hdiscard

/-- `Cancel` returns the error of its context. -/
theorem Follows.cancelFailed (h : Follows cfg t s) {err : Error}
    (hs : s.leaveCancel (some err) = some s') : Follows cfg t s' := by
  obtain ⟨c, -, -, rfl⟩ := leaveCancel_cases hs
  simpa using h.left

theorem Inputs.leaveCancel (h : Inputs s) (hs : s.leaveCancel result = some s') :
    Inputs s' ∧ s'.cancelling = none ∧ s'.active = s.active := by
  have hleft : Inputs { s with cancelling := none } := ⟨h.unheld, h.listening⟩
  obtain ⟨c, -, -, rfl⟩ := leaveCancel_cases hs
  split
  · obtain ⟨-, hcan, hact, -⟩ := discard_same { s with cancelling := none }
    exact ⟨hleft.discard, hcan, hact⟩
  · exact ⟨hleft, rfl, rfl⟩

-- ---------------------------------------------------------------------------
-- Every run
-- ---------------------------------------------------------------------------

/-- The session, its consumer and the last turn it committed. -/
structure Watches (cfg : Config) (turn : Option Turn) (a : Consumer Session) : Prop where
  inputs : Inputs a.session
  calling : ∀ c, a.session.cancelling = some c → ∃ e, a.calling = some (.cancel e)
  idle : turn = none → a.session.active = none
  follows : ∀ t, turn = some t → Follows cfg t a.session

variable {a b : Consumer Session} {turn : Option Turn}

theorem Watches.congr (h : Watches cfg turn a) (hs : b.session = a.session)
    (hc : a.calling = none ∨ b.calling = a.calling) : Watches cfg turn b := by
  refine ⟨hs ▸ h.inputs, fun c hcan => ?_, fun hn => hs ▸ h.idle hn, fun t ht => hs ▸ h.follows t ht⟩
  obtain ⟨e, he⟩ := h.calling c (hs ▸ hcan)
  rcases hc with hc | hc
  · rw [he] at hc
    cases hc
  · exact ⟨e, hc.trans he⟩

theorem Watches.enter (h : Watches cfg turn a)
    (hs : (Consumer.machine (provider cfg) {}).step a (.enter c) = some b) :
    Watches cfg (note turn a (.enter c) b) b := by
  obtain ⟨hc, hp, -, hc', -⟩ := Consumer.step_enter hs
  cases c with
  | cancel e =>
    change b.session = a.session.enterCancel at hp
    refine ⟨hp ▸ .enterCancel, fun c _ => ⟨e, hc'⟩, fun hn => ?_, fun t ht => ?_⟩
    · rw [hp, Session.enterCancel, h.idle (Option.map_eq_none_iff.mp hn)]
      rfl
    · obtain ⟨t0, ht0, rfl⟩ := Option.map_eq_some_iff.mp ht
      exact hp ▸ (h.follows t0 ht0).enterCancel
  | sendAudio | commit | discardLastResponse | drain => exact h.congr hp (.inl hc)

theorem Watches.left (hi : Inputs s') (hcan : s'.cancelling = none)
    (hidle : turn = none → s'.active = none) (hf : ∀ t, turn = some t → Follows cfg t s') :
    Watches cfg turn (a.leave c result s' events') := by
  refine ⟨?_, fun x hx => ?_, ?_, ?_⟩ <;> simp only [Consumer.leave_session] at *
  · exact hi
  · rw [hcan] at hx
    cases hx
  · exact hidle
  · exact hf

theorem Watches.returns (h : Watches cfg turn a)
    (hs : (Consumer.machine (provider cfg) {}).step a (.returns result) = some b) :
    Watches cfg (note turn a (.returns result) b) b := by
  obtain ⟨c, s', events', hc, hcall, rfl⟩ := Consumer.step_returns hs
  have hcancel : (∀ e, c ≠ .cancel e) → a.session.cancelling = none := fun hne => by
    refine Option.eq_none_iff_forall_ne_some.mpr fun x hx => ?_
    obtain ⟨e, he⟩ := h.calling x hx
    rw [he] at hc
    cases hc
    exact hne e rfl
  -- a call that leaves everything as it was
  have quiet (hn : a.session.cancelling = none) : Watches cfg turn (a.leave c result a.session events') :=
    .left h.inputs hn h.idle h.follows
  cases c with
  | sendAudio e pcm =>
    have hn := hcancel (by simp)
    cases result with
    | some err =>
      cases hcall
      simpa only [note, hc] using quiet hn
    | none =>
      obtain ⟨x, hx, heq⟩ := Option.map_eq_some_iff.mp hcall
      cases heq
      have hcan : s'.cancelling = none ∧ s'.active = a.session.active := by
        rw [Session.sendAudio, Option.ite_none_left_eq_some] at hx
        obtain ⟨-, hx⟩ := hx
        cases hx
        exact ⟨hn, rfl⟩
      simp only [note, hc]
      refine .left (h.inputs.sendAudio hx) hcan.1 (fun ht => ?_) fun t ht => ?_
      · exact hcan.2.trans (h.idle (Option.map_eq_none_iff.mp ht))
      · obtain ⟨t0, ht0, rfl⟩ := Option.map_eq_some_iff.mp ht
        exact (h.follows t0 ht0).sendAudio hx
  | commit e =>
    have hn := hcancel (by simp)
    cases result with
    | some err =>
      change (if (a.session.commit e).isNone then some (a.session, a.events) else none) = _ at hcall
      rw [Option.ite_none_right_eq_some] at hcall
      obtain ⟨-, hcall⟩ := hcall
      cases hcall
      simpa only [note, hc] using quiet hn
    | none =>
      obtain ⟨x, hx, heq⟩ := Option.map_eq_some_iff.mp hcall
      cases heq
      have hcan : s'.cancelling = none := by
        rw [Session.commit, Option.ite_none_left_eq_some] at hx
        obtain ⟨-, hx⟩ := hx
        cases hx
        exact hn
      simp only [note, hc]
      refine .left (.commit hx) hcan (by simp) fun t ht => ?_
      cases ht
      exact .commit h.inputs hx hn
  | cancel e =>
    obtain ⟨x, hx, heq⟩ := Option.map_eq_some_iff.mp hcall
    cases heq
    obtain ⟨hi, hcan, hact⟩ := h.inputs.leaveCancel hx
    cases result with
    | some err =>
      simp only [note]
      exact .left hi hcan (fun ht => hact.trans (h.idle ht)) fun t ht => (h.follows t ht).cancelFailed hx
    | none =>
      simp only [note, hc]
      refine .left hi hcan (fun ht => hact.trans (h.idle (Option.map_eq_none_iff.mp ht))) fun t ht => ?_
      obtain ⟨t0, ht0, rfl⟩ := Option.map_eq_some_iff.mp ht
      exact (h.follows t0 ht0).cancelled hx
  | discardLastResponse e =>
    have hn := hcancel (by simp)
    cases result with
    | some err => cases hcall
    | none =>
      cases hcall
      obtain ⟨-, hcan, hact, -⟩ := discard_same a.session
      simp only [note, hc]
      exact .left h.inputs.discard (hcan.trans hn) (fun ht => hact.trans (h.idle ht))
        fun t ht => (h.follows t ht).discard
  | drain =>
    cases hcall
    have hnote : note turn a (.returns result) (a.leave .drain result a.session []) = turn := by
      cases result <;> simp [note, hc]
    rw [hnote]
    exact quiet (hcancel (by simp))

theorem Watches.session (h : Watches cfg turn a) (hp : Paired a.session.history)
    (hs : (Consumer.machine (provider cfg) {}).step a (.session act) = some b) :
    Watches cfg (note turn a (.session act) b) b := by
  obtain ⟨s', events', hstep, rfl⟩ := Consumer.step_session hs
  have hmove := step_runMove hstep
  have hcan : s'.cancelling = a.session.cancelling := by
    cases hmove with
    | aside hs | going _ _ hs | copied _ _ hs | ended _ hs => exact hs.cancelling
    | cleared _ _ _ _ _ _ _ _ hcan => exact hcan
    | remembered _ _ _ _ _ _ _ _ _ _ hcan => exact hcan
  refine ⟨h.inputs.runMove hmove, fun c hc => h.calling c (hcan ▸ hc), fun hn => ?_, fun t ht => ?_⟩
  · -- without a turn there is no goroutine
    have hidle := h.idle (by cases act <;> simpa [note] using hn)
    cases hmove with
    | aside _ ha => rcases ha with ha | ha <;> simp [ha, hidle]
    | going _ _ _ hr | copied _ _ _ hr | ended _ _ hr | cleared _ _ hr | remembered _ _ _ _ hr =>
      rw [hidle] at hr
      cases hr
  · by_cases hact : act = .close
    · subst hact
      obtain ⟨t0, ht0, rfl⟩ := Option.map_eq_some_iff.mp ht
      cases hstep
      exact (h.follows t0 ht0).stopped rfl ⟨rfl, rfl⟩ (h.follows t0 ht0).fresh
    · have hnote : note turn a (.session act) { a with session := s', events := events' } =
          turn.map fun t => t.after act a.events events' := by
        cases act <;> first | rfl | exact absurd rfl hact
      rw [hnote] at ht
      obtain ⟨t0, ht0, rfl⟩ := Option.map_eq_some_iff.mp ht
      exact (h.follows t0 ht0).step hp hstep hact

theorem watches {o : Observed (Consumer Session) (Option Turn)} (h : (watched cfg).Reachable o) :
    Watches cfg o.notes o.state := by
  refine Lts.Machine.observed_invariant (K := fun a turn => Watches cfg turn a) h
    (fun a ha => windowed ha) ?_ ?_
  · rintro _ rfl
    exact ⟨⟨fun h => absurd rfl h, fun _ => rfl⟩, nofun, fun _ => rfl, nofun⟩
  intro a turn l b hw _ hi hs
  cases l with
  | enter c => exact hi.enter hs
  | returns result => exact hi.returns hs
  | receive =>
    obtain ⟨event, events, hc, -, rfl⟩ := Consumer.step_receive hs
    exact hi.congr rfl (.inl hc)
  | session act => exact hi.session hw.history.paired hs

/-- What every turn leaves behind: its events are a complete sequence, or the beginning of one
if it was stopped; an error leaves the history as it was, but for the command to clear it; and
once `Cancel` has returned nil nothing is put any more, and the history is a part of what it
was at `Commit`. -/
theorem cancel_rolls_back (cfg : Config) {o : Observed (Consumer Session) (Option Turn)}
    {t : Turn} (h : (watched cfg).Reachable o) (ht : o.notes = some t) :
    Begun t.emitted ∧
      (o.state.session.active = none → t.stopped = false → Complete t.emitted) ∧
      (Failed t.emitted → o.state.session.history = t.before ∨
        (Clears cfg t ∧ o.state.session.history = [])) ∧
      (t.fenced = true → o.state.session.history <:+ t.before ∧
        ∀ act s' events', step cfg act o.state.session o.state.events = some (s', events') →
          events' = o.state.events) := by
  have hf := (watches h).follows t ht
  refine ⟨?_, fun hn hstop => (hf.isOver hn).resolve_right fun hs => ?_,
    fun hfail => (hf.failed hfail).imp (·.history) fun hc => ⟨hc.command, hc.history⟩,
    fun hfen => ⟨(hf.fenced hfen).2.2, fun act s' events' hs => ?_⟩⟩
  · cases hr : o.state.session.active with
    | none => exact (hf.isOver hr).begun
    | some r => exact (hf.running r hr).told.begun
  · rw [hstop] at hs
    cases hs.1
  · have hidle := (hf.fenced hfen).1
    unfold BoomPI.Pipeline.step at hs
    split at hs
    · rw [Option.ite_none_right_eq_some] at hs
      obtain ⟨-, hs⟩ := hs
      cases hs
      rfl
    · rw [Option.ite_none_right_eq_some] at hs
      obtain ⟨-, hs⟩ := hs
      cases hs
      rfl
    · cases hs
      rfl
    · rw [hidle] at hs
      cases hs

/-- A turn is cancelled between the commit of its answer and its `EventDone`. -/
def cancelsAnswer : List (Consumer.Label Act) :=
  [.enter (.sendAudio 1 [0, 0]), .returns none, .enter (.commit 1), .returns none,
    .session (.started "event-1"), .session (.heard (.ok "hi")), .session .copy,
    .session (.text "hello"), .session (.spoken (.ok "hello")), .session .remember,
    .enter (.cancel 1), .session .giveUp, .session .finish, .returns none]

theorem cancel_rolls_back_answer : ∃ (o : Observed (Consumer Session) (Option Turn)) (t : Turn),
    o.notes = some t ∧ t.fenced = true ∧
    t.before = [] ∧ t.emitted.length = 2 ∧ Begun t.emitted ∧
    o.state.session.history <:+ t.before := by
  obtain ⟨o, -, ho, hp⟩ := (watched plainConfig).exists_of_run ⟨{ session := {} }, none⟩
    cancelsAnswer (fun o => o.notes.any fun t => t.fenced ∧ t.before = [] ∧ t.emitted.length = 2)
    ⟨rfl, rfl⟩ (by decide +kernel)
  obtain ⟨t, ht, hf⟩ := (Option.any_eq_true _ _).mp hp
  obtain ⟨hfen, hb, hlen⟩ := of_decide_eq_true hf
  obtain ⟨hbegun, -, -, hfence⟩ := cancel_rolls_back plainConfig ho ht
  exact ⟨o, t, ht, hfen, hb, hlen, hbegun, (hfence hfen).1⟩

end BoomPI.Pipeline
