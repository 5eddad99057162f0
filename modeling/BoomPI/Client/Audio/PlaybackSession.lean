import BoomPI.Client.Audio.TtsRing

/-!
# Sessions of the playback

The record of a session is lawful when every event in it is, by what came before it.
`Kept` says where the ring, the flags and the playback thread stand against that
record; every step keeps it.
-/

namespace BoomPI.Audio

variable {s t : Playback} {q : List TtsSlot} {slot : TtsSlot} {pcm : List Sample} {e : PlaybackEvent}
  {events past : List PlaybackEvent} {bytes : List (BitVec 8)} {sequence : UInt64} {act : PlaybackAct}
  {discard failed finish ok : Bool}

def acceptedPcm (events : List PlaybackEvent) : List Sample :=
  events.flatMap fun
    | .accepted pcm => pcm
    | _ => []

def renderedSlots (events : List PlaybackEvent) : List TtsSlot :=
  events.flatMap fun
    | .render slot => [slot]
    | _ => []

def renderedPcm (events : List PlaybackEvent) : List Sample := pcmOf (renderedSlots events)

/-- Before the first slot: 180 ms of samples, or the end of the answer. -/
def Primed (past : List PlaybackEvent) : Prop :=
  kInitialTtsSlots * kTts24FrameSamples ≤ (acceptedPcm past).length ∨ .ended ∈ past

structure LawfulRender (past : List PlaybackEvent) (slot : TtsSlot) : Prop where
  inOrder : renderedPcm past ++ slot.pcm <+: acceptedPcm past
  before : ∀ x ∈ renderedSlots past, x.Full
  short : slot.Full ∨ .ended ∈ past
  first : renderedSlots past = [] → Primed past

/-- The reset at the end of a session: why it came, and what it reports. -/
structure LawfulReset (past : List PlaybackEvent) (failed : Bool) : Prop where
  cause : .ended ∈ past ∨ .dropped ∈ past ∨ .renderFailed ∈ past
  dropped : .dropped ∈ past → failed = false ∧ .backendDrop ∈ past
  undropped : .dropped ∉ past →
    (failed = true ↔ .renderFailed ∈ past ∨ .drainFailed ∈ past) ∧ (.renderFailed ∉ past → .drain ∈ past)

def Lawful (past : List PlaybackEvent) : PlaybackEvent → Prop
  | .accepted _ | .ended => .ended ∉ past
  | .render slot => LawfulRender past slot ∧ .drain ∉ past
  | .drain => .drain ∉ past ∧ (.dropped ∉ past →
      .ended ∈ past ∧ .renderFailed ∉ past ∧ renderedPcm past = acceptedPcm past)
  | .backendDrop => .dropped ∈ past ∨ .renderFailed ∈ past
  | .reset failed => LawfulReset past failed
  | .dropped | .renderFailed | .drainFailed => True

def LawfulRecord (events : List PlaybackEvent) : Prop :=
  ∀ past e rest, events = past ++ e :: rest → Lawful past e ∧ ∀ failed, .reset failed ∉ past

theorem LawfulRecord.snoc (h : LawfulRecord events) (he : Lawful events e)
    (hreset : ∀ failed, .reset failed ∉ events) : LawfulRecord (events ++ [e]) := by
  intro past e' rest heq
  rcases List.eq_nil_or_concat rest with rfl | ⟨rest, last, rfl⟩
  · obtain ⟨rfl, hlast⟩ := List.append_inj' heq rfl
    cases hlast
    exact ⟨he, hreset⟩
  · rw [List.concat_eq_append, ← List.cons_append, ← List.append_assoc] at heq
    exact h past e' rest (List.append_inj' heq rfl).1

@[simp] theorem acceptedPcm_append (a b : List PlaybackEvent) :
    acceptedPcm (a ++ b) = acceptedPcm a ++ acceptedPcm b := by
  simp [acceptedPcm]

@[simp] theorem renderedSlots_append (a b : List PlaybackEvent) :
    renderedSlots (a ++ b) = renderedSlots a ++ renderedSlots b := by
  simp [renderedSlots]

@[simp] theorem renderedPcm_append (a b : List PlaybackEvent) :
    renderedPcm (a ++ b) = renderedPcm a ++ renderedPcm b := by
  simp [renderedPcm]

-- ---------------------------------------------------------------------------
-- The invariant
-- ---------------------------------------------------------------------------

/-- Samples out of the ring that `Render` has not got yet. -/
def PlaybackThread.held : PlaybackThread → List Sample
  | .popped slot _ => slot.pcm
  | _ => []

/-- All is played: the answer has ended and the ring is empty. -/
def Playback.Over (s : Playback) (q : List TtsSlot) : Prop := s.ending = true ∧ q = []

structure Working (events : List PlaybackEvent) : Prop where
  renders : .renderFailed ∉ events
  drains : .drain ∉ events
  drainsFailed : .drainFailed ∉ events

/-- `FinishPlayback` before its backend call. -/
structure Finishing (s : Playback) (q : List TtsSlot) (discard failed : Bool) : Prop where
  drains : .drain ∉ s.events
  drainsFailed : .drainFailed ∉ s.events
  discards : discard = true → s.drop = true ∧ failed = false
  fails : discard = false → (failed = true ↔ .renderFailed ∈ s.events)
  isOver : discard = false → failed = false → s.Over q

/-- `FinishPlayback` behind its backend call, or in it. -/
structure Finished (s : Playback) (discard failed : Bool) : Prop where
  discards : discard = true → s.drop = true ∧ failed = false ∧ .backendDrop ∈ s.events
  fails : discard = false → (failed = true ↔ .renderFailed ∈ s.events ∨ .drainFailed ∈ s.events)
  drains : discard = false → .renderFailed ∉ s.events → .drain ∈ s.events
  cause : s.ending = true ∨ s.drop = true ∨ .renderFailed ∈ s.events

/-- What an active session has come to, by where the playback thread is. -/
def Playback.Stage (s : Playback) (q : List TtsSlot) : PlaybackThread → Prop
  | .top | .grace | .waiting =>
    Working s.events ∧ (∀ x ∈ renderedSlots s.events, x.Full) ∧
      (renderedSlots s.events = [] → s.playbackStarted = false)
  | .popped slot finish =>
    Working s.events ∧ (∀ x ∈ renderedSlots s.events, x.Full) ∧ (slot.Full ∨ finish = true) ∧
      (finish = true → s.Over q) ∧ (renderedSlots s.events = [] → Primed s.events)
  | .rendering finish =>
    Working s.events ∧ ((∀ x ∈ renderedSlots s.events, x.Full) ∨ finish = true) ∧
      (finish = true → s.Over q) ∧ renderedSlots s.events ≠ []
  | .finishing discard failed | .sampled discard failed => Finishing s q discard failed
  | .dropping discard failed => Finished s discard failed ∧ .drain ∉ s.events
  | .draining => .renderFailed ∉ s.events ∧ .drainFailed ∉ s.events ∧ .drain ∈ s.events ∧ s.ending = true
  | .resetting discard failed => Finished s discard failed

structure Kept (s : Playback) (q : List TtsSlot) : Prop where
  ringed : Ringed s q
  queued : s.queuedSamples = (pcmOf q).length
  lawful : LawfulRecord s.events
  inOrder : renderedPcm s.events ++ s.thread.held <+: acceptedPcm s.events
  done : s.isDone = !s.active
  idle : s.active = false → q = [] ∧ s.ending = false ∧ s.drop = false ∧
    s.playbackStarted = false ∧ s.rebuffering = false ∧ (s.thread = .top ∨ s.thread = .waiting)
  concluded : s.active = false → s.events = [] ∨ ∃ past, s.events = past ++ [.reset s.playbackFailed]
  ending : s.active = true → (s.ending = true ↔ .ended ∈ s.events)
  drop : s.active = true → (s.drop = true ↔ .dropped ∈ s.events)
  unreset : s.active = true → ∀ failed, .reset failed ∉ s.events
  flow : s.active = true → s.drop = false →
    renderedPcm s.events ++ s.thread.held ++ pcmOf q = acceptedPcm s.events
  stage : s.active = true → s.Stage q s.thread

theorem kept_init : Kept {} [] := by
  refine ⟨ringed_cleared rfl rfl, rfl, ?_, List.prefix_rfl, rfl, ?_, fun _ => .inl rfl, nofun, nofun,
    nofun, nofun, nofun⟩
  · intro past e rest heq
    simp at heq
  · exact fun _ => ⟨rfl, rfl, rfl, rfl, rfl, .inl rfl⟩

-- ---------------------------------------------------------------------------
-- The actor's steps
-- ---------------------------------------------------------------------------

def ByActor : PlaybackEvent → Bool
  | .accepted _ | .ended | .dropped => true
  | _ => false

theorem mem_snoc_byActor {x : PlaybackEvent} (he : ByActor e = true) (hx : ByActor x = false) :
    x ∈ events ++ [e] ↔ x ∈ events := by
  have : x ≠ e := by
    rintro rfl
    simp [he] at hx
  simp [this]

theorem renderedSlots_byActor (he : ByActor e = true) : renderedSlots (events ++ [e]) = renderedSlots events := by
  cases e <;> simp_all [ByActor, renderedSlots]

theorem Primed.snoc (h : Primed events) : Primed (events ++ [e]) := by
  rcases h with h | h
  · left
    rw [acceptedPcm_append, List.length_append]
    exact Nat.le_trans h (Nat.le_add_right _ _)
  · exact .inr (List.mem_append_left _ h)

theorem Working.quiet (h : Working events) (he : ByActor e = true) : Working (events ++ [e]) :=
  ⟨by rw [mem_snoc_byActor he rfl]; exact h.renders, by rw [mem_snoc_byActor he rfl]; exact h.drains,
    by rw [mem_snoc_byActor he rfl]; exact h.drainsFailed⟩

structure Beside (s t : Playback) (q q' : List TtsSlot) (e : PlaybackEvent) : Prop where
  quiet : ByActor e = true
  events : t.events = s.events ++ [e]
  thread : t.thread = s.thread
  playbackStarted : t.playbackStarted = s.playbackStarted
  active : t.active = s.active
  isDone : t.isDone = s.isDone
  ending : s.ending = true → t.ending = true
  drop : s.drop = true → t.drop = true
  isOver : s.Over q → t.Over q'

theorem Beside.finishing {q' : List TtsSlot} (hb : Beside s t q q' e) (h : Finishing s q discard failed) :
    Finishing t q' discard failed := by
  refine ⟨?_, ?_, fun hd => ⟨hb.drop (h.discards hd).1, (h.discards hd).2⟩, fun hd => ?_,
    fun hd hf => hb.isOver (h.isOver hd hf)⟩ <;> rw [hb.events, mem_snoc_byActor hb.quiet rfl]
  · exact h.drains
  · exact h.drainsFailed
  · exact h.fails hd

theorem Beside.finished {q' : List TtsSlot} (hb : Beside s t q q' e) (h : Finished s discard failed) :
    Finished t discard failed := by
  have hmem {x : PlaybackEvent} (hx : ByActor x = false) : x ∈ t.events ↔ x ∈ s.events := by
    rw [hb.events, mem_snoc_byActor hb.quiet hx]
  refine ⟨fun hd => ?_, fun hd => ?_, fun hd hr => ?_, ?_⟩
  · obtain ⟨hdrop, hf, hback⟩ := h.discards hd
    exact ⟨hb.drop hdrop, hf, (hmem rfl).mpr hback⟩
  · rw [hmem rfl, hmem rfl]
    exact h.fails hd
  · rw [hmem rfl] at hr ⊢
    exact h.drains hd hr
  · exact h.cause.imp hb.ending (.imp hb.drop (hmem rfl).mpr)

theorem Beside.stage {q' : List TtsSlot} (hb : Beside s t q q' e) {thread : PlaybackThread}
    (h : s.Stage q thread) : t.Stage q' thread := by
  have hmem {x : PlaybackEvent} (hx : ByActor x = false) : x ∈ t.events ↔ x ∈ s.events := by
    rw [hb.events, mem_snoc_byActor hb.quiet hx]
  have hslots : renderedSlots t.events = renderedSlots s.events := by
    rw [hb.events, renderedSlots_byActor hb.quiet]
  have hwork (hw : Working s.events) : Working t.events := hb.events ▸ hw.quiet hb.quiet
  cases thread with
  | top | grace | waiting =>
    exact ⟨hwork h.1, hslots ▸ h.2.1, fun hn => hb.playbackStarted.trans (h.2.2 (hslots ▸ hn))⟩
  | popped slot finish =>
    obtain ⟨hw, hfull, hslot, hover, hfirst⟩ := h
    exact ⟨hwork hw, hslots ▸ hfull, hslot, fun hf => hb.isOver (hover hf),
      fun hn => hb.events ▸ (hfirst (hslots ▸ hn)).snoc⟩
  | rendering finish =>
    obtain ⟨hw, hfull, hover, hslots'⟩ := h
    exact ⟨hwork hw, hslots ▸ hfull, fun hf => hb.isOver (hover hf), hslots ▸ hslots'⟩
  | finishing discard failed =>
    exact hb.finishing h
  | sampled discard failed =>
    exact hb.finishing h
  | dropping discard failed =>
    exact ⟨hb.finished h.1, mt (hmem rfl).mp h.2⟩
  | draining =>
    exact ⟨mt (hmem rfl).mp h.1, mt (hmem rfl).mp h.2.1, (hmem rfl).mpr h.2.2.1, hb.ending h.2.2.2⟩
  | resetting discard failed =>
    exact hb.finished h

theorem Kept.beside {q' : List TtsSlot} (h : Kept s q) (hb : Beside s t q q' e)
    (hactive : s.active = true) (hringed : Ringed t q') (hqueued : t.queuedSamples = (pcmOf q').length)
    (he : Lawful s.events e) (hending : t.ending = true ↔ .ended ∈ t.events)
    (hdrop : t.drop = true ↔ .dropped ∈ t.events)
    (hflow : t.drop = false → renderedPcm t.events ++ t.thread.held ++ pcmOf q' = acceptedPcm t.events) :
    Kept t q' := by
  have ht : t.active = true := hb.active.trans hactive
  have hunreset : ∀ failed, .reset failed ∉ t.events := fun failed => by
    rw [hb.events, mem_snoc_byActor hb.quiet rfl]
    exact h.unreset hactive failed
  refine ⟨hringed, hqueued, ?_, ?_, ?_, ?_, ?_, fun _ => hending, fun _ => hdrop, fun _ => hunreset,
    fun _ => hflow, fun _ => hb.thread ▸ hb.stage (h.stage hactive)⟩
  · exact hb.events ▸ h.lawful.snoc he (h.unreset hactive)
  · rw [hb.events, hb.thread, renderedPcm, renderedSlots_byActor hb.quiet, acceptedPcm_append]
    exact h.inOrder.trans (List.prefix_append _ _)
  · rw [hb.isDone, hb.active, h.done]
  · simp [ht]
  · simp [ht]

theorem length_samplesOf (bytes : List (BitVec 8)) : (samplesOf bytes).length = bytes.length / 2 := by
  fun_induction samplesOf bytes with
  | case1 low high bytes ih =>
    simp only [List.length_cons, ih]
    omega
  | case2 bytes hshort =>
    match bytes, hshort with
    | [], _ => rfl
    | [_], _ => simp
    | low :: high :: bytes, hshort => exact absurd rfl (hshort low high bytes)

theorem Kept.queueTts24k (h : Kept s q) (bytes : List (BitVec 8)) (sequence : UInt64) :
    ∃ q', Kept (s.queueTts24k bytes sequence).2 q' := by
  unfold Playback.queueTts24k
  dsimp only
  split
  case isTrue => exact ⟨q, h⟩
  split
  case isTrue => exact ⟨q, h⟩
  case isFalse hbytes haccept =>
    simp only [not_or, Bool.not_eq_true', Bool.not_eq_false, Bool.not_eq_true] at haccept
    obtain ⟨hactive, hending, hroom, -⟩ := haccept
    simp only [not_or, not_not] at hbytes
    have hpos : 0 < bytes.length := List.length_pos_iff.mpr hbytes.1
    have hlen := length_samplesOf bytes
    have hq := h.queued
    obtain ⟨q', tts, ttsTail, hcopy, hringed, hpcm⟩ :=
      h.ringed.copy (Nat.le_of_eq hlen) (by rw [hlen, ← hq]; omega)
    refine ⟨q', ?_⟩
    rw [hcopy]
    have hnotEnded : .ended ∉ s.events := fun hm => by
      simpa [hending] using (h.ending hactive).mpr hm
    refine h.beside (e := .accepted (samplesOf bytes)) ⟨rfl, rfl, rfl, rfl, rfl, rfl, id, id, ?_⟩
      hactive (hringed.congr rfl rfl) ?_ hnotEnded ?_ ?_ ?_
    · intro ho
      simp [Playback.Over, hending] at ho
    · simp [Playback.log, hpcm, hq, hlen]
    · simpa [Playback.log] using h.ending hactive
    · simpa [Playback.log] using h.drop hactive
    · intro hd
      have := h.flow hactive hd
      simp [Playback.log, renderedPcm, renderedSlots, acceptedPcm, hpcm] at this ⊢
      rw [← this]
      simp

theorem Kept.endPlayback (h : Kept s q) : Kept s.endPlayback.2 q := by
  unfold Playback.endPlayback
  split
  case isTrue => exact h
  case isFalse hgo =>
    simp only [not_or, Bool.not_eq_true', Bool.not_eq_false, Bool.not_eq_true] at hgo
    obtain ⟨hactive, hending⟩ := hgo
    have hnotEnded : .ended ∉ s.events := fun hm => by
      simpa [hending] using (h.ending hactive).mpr hm
    have hb : Beside s ({ s with ending := true }.log .ended) q q .ended :=
      ⟨rfl, rfl, rfl, rfl, rfl, rfl, fun _ => rfl, id, fun ho => by simp [Playback.Over, hending] at ho⟩
    refine h.beside hb hactive (h.ringed.congr rfl rfl) h.queued hnotEnded ?_ ?_ ?_
    · simp [Playback.log]
    · simpa [Playback.log] using h.drop hactive
    · intro hd
      simpa [Playback.log, renderedPcm, renderedSlots, acceptedPcm] using h.flow hactive hd

theorem Kept.dropPlayback (h : Kept s q) : ∃ q', Kept s.dropPlayback q' := by
  unfold Playback.dropPlayback
  split
  case isFalse => exact ⟨q, h⟩
  case isTrue hactive =>
    refine ⟨[], ?_⟩
    have hb : Beside s ({ s with drop := true }.clearQueue.log .dropped) q [] .dropped :=
      ⟨rfl, rfl, rfl, rfl, rfl, rfl, id, fun _ => rfl, fun ho => ⟨ho.1, rfl⟩⟩
    refine h.beside hb hactive (ringed_cleared rfl rfl) rfl trivial ?_ ?_ ?_
    · simpa [Playback.log, Playback.clearQueue] using h.ending hactive
    · simp [Playback.log, Playback.clearQueue]
    · simp [Playback.log, Playback.clearQueue]

theorem Kept.beginPlayback (h : Kept s q) (prepared : Bool) :
    ∃ q', Kept (s.beginPlayback prepared).2 q' := by
  unfold Playback.beginPlayback
  split
  case isTrue => exact ⟨q, h⟩
  case isFalse hidle =>
    have hidle : s.active = false := by simpa using hidle
    obtain ⟨rfl, hending, hdrop, hstarted, hrebuf, hthread⟩ := h.idle hidle
    have hempty : Ringed s.clearQueue [] := ringed_cleared rfl rfl
    refine ⟨[], ?_⟩
    split
    · refine ⟨hempty, rfl, h.lawful, h.inOrder, h.done, 
        fun _ => ⟨rfl, hending, hdrop, hstarted, hrebuf, hthread⟩, h.concluded, ?_, ?_, ?_, ?_, ?_⟩
      all_goals simp [Playback.clearQueue, hidle]
    · have hheld : s.thread.held = [] := by rcases hthread with ht | ht <;> rw [ht] <;> rfl
      refine ⟨hempty.congr rfl rfl, rfl, ?_, ?_, rfl, by simp, by simp, ?_, ?_, ?_, ?_, fun _ => ?_⟩
      · intro past e rest heq
        simp at heq
      · simp [Playback.clearQueue, hheld, renderedPcm, renderedSlots]
      · simp
      · simp
      · simp
      · simp [Playback.clearQueue, hheld, renderedPcm, renderedSlots, acceptedPcm]
      · have hwork : Working [] := ⟨by simp, by simp, by simp⟩
        simp only [Playback.clearQueue]
        rcases hthread with ht | ht <;> rw [ht] <;> exact ⟨hwork, by simp [renderedSlots], fun _ => rfl⟩

-- ---------------------------------------------------------------------------
-- The playback thread's steps
-- ---------------------------------------------------------------------------

theorem Playback.Stage.congr {thread : PlaybackThread} (h : s.Stage q thread)
    (hevents : t.events = s.events) (hending : t.ending = s.ending) (hdrop : t.drop = s.drop)
    (hstarted : t.playbackStarted = s.playbackStarted) : t.Stage q thread := by
  have hover : t.Over q ↔ s.Over q := by rw [Playback.Over, Playback.Over, hending]
  have hfinishing {d f : Bool} (h : Finishing s q d f) : Finishing t q d f :=
    ⟨hevents ▸ h.1, hevents ▸ h.2, hdrop ▸ h.3, hevents ▸ h.4, fun hd hf => hover.mpr (h.5 hd hf)⟩
  have hfinished {d f : Bool} (h : Finished s d f) : Finished t d f :=
    ⟨hevents ▸ hdrop ▸ h.1, hevents ▸ h.2, hevents ▸ h.3, hevents ▸ hdrop ▸ hending ▸ h.4⟩
  cases thread with
  | top | grace | waiting =>
    exact ⟨hevents ▸ h.1, hevents ▸ h.2.1, fun hn => hstarted.trans (h.2.2 (hevents ▸ hn))⟩
  | popped slot finish =>
    obtain ⟨hw, hfull, hslot, ho, hfirst⟩ := h
    exact ⟨hevents ▸ hw, hevents ▸ hfull, hslot, fun hf => hover.mpr (ho hf), hevents ▸ hfirst⟩
  | rendering finish =>
    obtain ⟨hw, hfull, ho, hslots⟩ := h
    exact ⟨hevents ▸ hw, hevents ▸ hfull, fun hf => hover.mpr (ho hf), hevents ▸ hslots⟩
  | finishing discard failed => exact hfinishing h
  | sampled discard failed => exact hfinishing h
  | dropping discard failed => exact ⟨hfinished h.1, hevents ▸ h.2⟩
  | draining =>
    rw [Playback.Stage, hevents, hending]
    exact h
  | resetting discard failed => exact hfinished h

theorem Kept.goes {thread : PlaybackThread} (h : Kept s q) (hactive : s.active = true)
    (hheld : thread.held = s.thread.held) (hstage : s.Stage q thread) :
    Kept { s with thread } q := by
  refine ⟨h.ringed.congr rfl rfl, h.queued, h.lawful, ?_, h.done, ?_, h.concluded, h.ending, h.drop,
    h.unreset, ?_, fun _ => hstage.congr rfl rfl rfl rfl⟩
  · simpa only [hheld] using h.inOrder
  · simp [hactive]
  · simpa only [hheld] using h.flow

def ByThread : PlaybackEvent → Bool
  | .render _ | .renderFailed | .drain | .drainFailed | .backendDrop => true
  | _ => false

theorem mem_snoc_byThread {x : PlaybackEvent} (he : ByThread e = true) (hx : ByThread x = false) :
    x ∈ events ++ [e] ↔ x ∈ events := by
  have : x ≠ e := by
    rintro rfl
    simp [he] at hx
  simp [this]

theorem acceptedPcm_byThread (he : ByThread e = true) : acceptedPcm (events ++ [e]) = acceptedPcm events := by
  cases e <;> simp_all [ByThread, acceptedPcm]

theorem Kept.logs {thread : PlaybackThread} (h : Kept s q) (hactive : s.active = true)
    (he : ByThread e = true) (hlawful : Lawful s.events e)
    (hheld : renderedPcm (s.events ++ [e]) ++ thread.held = renderedPcm s.events ++ s.thread.held)
    (hstage : (s.log e).Stage q thread) : Kept ({ s with thread }.log e) q := by
  refine ⟨h.ringed.congr rfl rfl, h.queued, h.lawful.snoc hlawful (h.unreset hactive), ?_, h.done, ?_, ?_,
    fun ha => ?_, fun ha => ?_, fun ha failed => ?_, fun ha hd => ?_,
    fun _ => hstage.congr rfl rfl rfl rfl⟩
  · simpa only [Playback.log, hheld, acceptedPcm_byThread he] using h.inOrder
  · simp [Playback.log, hactive]
  · simp [Playback.log, hactive]
  · exact (h.ending ha).trans (mem_snoc_byThread he rfl).symm
  · exact (h.drop ha).trans (mem_snoc_byThread he rfl).symm
  · exact fun hm => h.unreset ha failed ((mem_snoc_byThread he rfl).mp hm)
  · simpa only [Playback.log, hheld, acceptedPcm_byThread he] using h.flow ha hd

theorem Kept.active_of {thread : PlaybackThread} (h : Kept s q) (ht : s.thread = thread)
    (hbusy : thread ≠ .top ∧ thread ≠ .waiting) : s.active = true := by
  by_contra hidle
  obtain ⟨-, -, -, -, -, hor⟩ := h.idle (by simpa using hidle)
  rw [ht] at hor
  exact hor.elim hbusy.1 hbusy.2

theorem Kept.stage_at {thread : PlaybackThread} (h : Kept s q) (ht : s.thread = thread)
    (ha : s.active = true) : s.Stage q thread := by
  subst ht
  exact h.stage ha

theorem Kept.enter (h : Kept s q) (ht : s.thread = .top) :
    Kept { s with thread := if s.starved then .grace else .waiting } q := by
  by_cases ha : s.active = true
  · have hstage := h.stage ha
    rw [ht] at hstage
    split
    · exact h.goes ha (ht ▸ rfl) hstage
    · exact h.goes ha (ht ▸ rfl) hstage
  · have hidle : s.active = false := by simpa using ha
    have hnot : s.starved = false := by simp [Playback.starved, hidle]
    obtain ⟨hq, he, hd, hs, hr, -⟩ := h.idle hidle
    simp only [hnot, Bool.false_eq_true, if_false]
    refine ⟨h.ringed.congr rfl rfl, h.queued, h.lawful, ?_, h.done,
      fun _ => ⟨hq, he, hd, hs, hr, .inr rfl⟩, h.concluded, h.ending, h.drop, h.unreset, ?_, ?_⟩
    · have := h.inOrder
      rw [ht] at this
      exact this
    · simp [hidle]
    · simp [hidle]

theorem Kept.graceOver (h : Kept s q) (ht : s.thread = .grace) (rebuffering : Bool) :
    Kept { s with thread := .waiting, rebuffering } q := by
  have ha := h.active_of ht ⟨nofun, nofun⟩
  have hstage := h.stage ha
  rw [ht] at hstage
  have : Kept { s with thread := .waiting } q := h.goes ha (ht ▸ rfl) hstage
  exact ⟨this.ringed.congr rfl rfl, this.queued, this.lawful, this.inOrder, this.done, by simp [ha],
    by simp [ha], this.ending, this.drop, this.unreset, this.flow,
    fun ha => (this.stage ha).congr rfl rfl rfl rfl⟩

theorem Kept.active_of_ready (h : Kept s q) (hready : s.ready = true) : s.active = true := by
  by_contra hidle
  obtain ⟨-, -, hd, -⟩ := h.idle (by simpa using hidle)
  simp [Playback.ready, hd, hidle] at hready

theorem Ringed.empty_iff (h : Ringed s q) : s.tts.count = 0 ↔ q = [] := by
  rw [h.count, List.length_eq_zero_iff]

theorem Kept.pop (h : Kept s (slot :: q)) (ht : s.thread = .waiting) (hready : s.ready = true)
    (hdrop : s.drop = false) : Kept { s with
      rebuffering := false, playbackStarted := true
      queuedSamples := s.queuedSamples - slot.used, tts := s.tts.pop {}
      thread := .popped slot (s.ending && q.isEmpty) } q := by
  have ha := h.active_of_ready hready
  have hpop := h.ringed.pop
  have hflow := h.flow ha hdrop
  have hstage := h.stage ha
  rw [ht] at hflow hstage
  simp only [PlaybackThread.held, List.append_nil] at hflow
  obtain ⟨hwork, hfull, hstarted⟩ := hstage
  simp only [Playback.ready, hdrop, ha, Bool.false_or, Bool.true_and, Bool.or_eq_true,
    Bool.and_eq_true, decide_eq_true_eq, h.ringed.count, List.length_cons, h.ringed.front] at hready
  obtain ⟨⟨-, hfront⟩, hbuffer⟩ := hready.resolve_right (by simp)
  refine ⟨hpop.congr rfl rfl, ?_, h.lawful, ?_, h.done, by simp [ha], by simp [ha], h.ending, h.drop,
    h.unreset, fun _ _ => ?_, fun _ => ⟨hwork, hfull, ?_, fun hf => ?_, fun hn => ?_⟩⟩
  · simp [h.queued, TtsSlot.used]
  · rw [← hflow]
    exact ⟨pcmOf q, by simp [PlaybackThread.held]⟩
  · simpa [PlaybackThread.held] using hflow
  · rcases hfront with hslot | hend
    · exact .inl hslot
    · by_cases hq : q = []
      · exact .inr (by simp [hq, hend])
      · exact .inl (h.ringed.front_full hq)
  · simpa [Playback.Over] using hf
  · rw [hstarted hn] at hbuffer
    rcases (by simpa using hbuffer) with hprimed | hend
    · left
      rw [← hflow, renderedPcm, hn]
      simpa [h.queued] using hprimed
    · exact .inr ((h.ending ha).mp hend)

theorem Kept.wake (h : Kept s q) (ht : s.thread = .waiting) (hready : s.ready = true) :
    ∃ q', Kept s.wake q' := by
  have ha := h.active_of_ready hready
  have hstage := h.stage ha
  rw [ht] at hstage
  unfold Playback.wake
  split
  case isTrue hgo =>
    obtain ⟨hdrop, hcount⟩ := hgo
    have hdrop : s.drop = false := by simpa using hdrop
    cases q with
    | nil => exact absurd h.ringed.count hcount
    | cons slot q =>
      refine ⟨q, ?_⟩
      have hlast : decide ((s.tts.pop {}).count = 0) = q.isEmpty := by
        rw [h.ringed.pop.holds.count]
        cases q <;> rfl
      simp only [h.ringed.front, hlast]
      exact h.pop ht hready hdrop
  split
  case isTrue hnone hfin =>
    refine ⟨q, h.goes ha (ht ▸ rfl) ⟨hstage.1.drains, hstage.1.drainsFailed, fun hd => ⟨hd, rfl⟩,
      fun _ => ?_, fun hd _ => ?_⟩⟩
    · simpa using hstage.1.renders
    · have := hfin.resolve_left (by simp [hd])
      exact ⟨this.1, h.ringed.empty_iff.mp this.2⟩
  case isFalse => exact ⟨q, h.goes ha (ht ▸ rfl) hstage⟩

theorem Kept.render (h : Kept s q) (ht : s.thread = .popped slot finish) :
    Kept ({ s with thread := .rendering finish }.log (.render slot)) q := by
  have ha := h.active_of ht ⟨nofun, nofun⟩
  have hstage := h.stage ha
  have horder := h.inOrder
  rw [ht] at hstage horder
  obtain ⟨hwork, hfull, hslot, hover, hfirst⟩ := hstage
  have hslots : renderedSlots (s.events ++ [.render slot]) = renderedSlots s.events ++ [slot] := by
    simp [renderedSlots]
  have hended : finish = true → .ended ∈ s.events := fun hf => (h.ending ha).mp (hover hf).1
  refine h.logs ha rfl ⟨⟨horder, hfull, hslot.imp id hended, hfirst⟩, hwork.drains⟩ ?_ ⟨?_, ?_, hover, ?_⟩
  · rw [ht, renderedPcm, hslots]
    simp [PlaybackThread.held, renderedPcm]
  · refine ⟨?_, ?_, ?_⟩
    · simpa [Playback.log] using hwork.renders
    · simpa [Playback.log] using hwork.drains
    · simpa [Playback.log] using hwork.drainsFailed
  · refine hslot.imp (fun hs x hx => ?_) id
    simp only [Playback.log, hslots] at hx
    rcases List.mem_append.mp hx with hx | hx
    · exact hfull x hx
    · obtain rfl : x = slot := by simpa using hx
      exact hs
  · simp [Playback.log, hslots]

theorem Kept.rendered (h : Kept s q) (ht : s.thread = .rendering finish) :
    Kept { s with thread := if finish then .finishing false false else .top } q := by
  have ha := h.active_of ht ⟨nofun, nofun⟩
  have hstage := h.stage ha
  rw [ht] at hstage
  obtain ⟨hwork, hfull, hover, hslots⟩ := hstage
  cases finish with
  | true =>
    refine h.goes ha (ht ▸ rfl) ⟨hwork.drains, hwork.drainsFailed, nofun, fun _ => ?_, fun _ _ => hover rfl⟩
    simpa using hwork.renders
  | false =>
    exact h.goes ha (ht ▸ rfl) ⟨hwork, hfull.resolve_right nofun, fun hn => absurd hn hslots⟩

theorem Kept.renderFailed (h : Kept s q) (ht : s.thread = .rendering finish) :
    Kept ({ s with thread := .finishing false true }.log .renderFailed) q := by
  have ha := h.active_of ht ⟨nofun, nofun⟩
  have hstage := h.stage ha
  rw [ht] at hstage
  obtain ⟨hwork, -⟩ := hstage
  refine h.logs ha rfl trivial ?_ ⟨?_, ?_, nofun, fun _ => ?_, nofun⟩
  · simp [ht, PlaybackThread.held, renderedPcm, renderedSlots]
  · simpa [Playback.log] using hwork.drains
  · simpa [Playback.log] using hwork.drainsFailed
  · simp [Playback.log]

theorem Kept.sample (h : Kept s q) (ht : s.thread = .finishing discard failed) :
    Kept { s with thread := .sampled (discard || s.drop) (failed && !s.drop) } q := by
  have ha := h.active_of ht ⟨nofun, nofun⟩
  have hstage : Finishing s q discard failed := h.stage_at ht ha
  refine h.goes ha (ht ▸ rfl) ⟨hstage.drains, hstage.drainsFailed, fun hd => ?_, fun hd => ?_, fun hd hf => ?_⟩
  · have hdrop : s.drop = true := by
      rcases Bool.or_eq_true_iff.mp hd with hd | hd
      · exact (hstage.discards hd).1
      · exact hd
    simp [hdrop]
  · obtain ⟨hdis, hdrop⟩ := Bool.or_eq_false_iff.mp hd
    simpa [hdrop] using hstage.fails hdis
  · obtain ⟨hdis, hdrop⟩ := Bool.or_eq_false_iff.mp hd
    exact hstage.isOver hdis (by simpa [hdrop] using hf)

theorem Kept.callDrop (h : Kept s q) (ht : s.thread = .sampled discard failed)
    (hwhy : discard = true ∨ failed = true) :
    Kept ({ s with thread := .dropping discard failed }.log .backendDrop) q := by
  have ha := h.active_of ht ⟨nofun, nofun⟩
  have hstage : Finishing s q discard failed := h.stage_at ht ha
  have hfails (hd : discard = false) : failed = true ∧ .renderFailed ∈ s.events := by
    have hf := hwhy.resolve_left (by simp [hd])
    exact ⟨hf, (hstage.fails hd).mp hf⟩
  have hcause : s.drop = true ∨ .renderFailed ∈ s.events := by
    cases hd : discard with
    | true => exact .inl (hstage.discards hd).1
    | false => exact .inr (hfails hd).2
  refine h.logs ha rfl (hcause.imp (h.drop ha).mp id) ?_ ⟨⟨fun hd => ?_, fun hd => ?_, fun hd hr => ?_, ?_⟩, ?_⟩
  · simp [ht, PlaybackThread.held, renderedPcm, renderedSlots]
  · exact ⟨(hstage.discards hd).1, (hstage.discards hd).2, by simp [Playback.log]⟩
  · simpa [Playback.log, hstage.drainsFailed] using hstage.fails hd
  · exact absurd (by simpa [Playback.log] using (hfails hd).2) hr
  · exact .inr (hcause.imp id (by simp [Playback.log]))
  · simpa [Playback.log] using hstage.drains

theorem Kept.callDrain (h : Kept s q) (ht : s.thread = .sampled false false) :
    Kept ({ s with thread := .draining }.log .drain) q := by
  have ha := h.active_of ht ⟨nofun, nofun⟩
  have hstage : Finishing s q false false := h.stage_at ht ha
  obtain ⟨hend, rfl⟩ := hstage.isOver rfl rfl
  have hr : .renderFailed ∉ s.events := fun hm => by simpa using (hstage.fails rfl).mpr hm
  refine h.logs ha rfl ⟨hstage.drains, fun hd => ⟨(h.ending ha).mp hend, hr, ?_⟩⟩ ?_ ⟨?_, ?_, ?_, hend⟩
  · have hdrop : s.drop = false := by
      by_contra hdrop
      exact hd ((h.drop ha).mp (by simpa using hdrop))
    simpa [ht, PlaybackThread.held] using h.flow ha hdrop
  · simp [ht, PlaybackThread.held, renderedPcm, renderedSlots]
  · simpa [Playback.log] using hr
  · simpa [Playback.log] using hstage.drainsFailed
  · simp [Playback.log]

theorem Kept.dropped (h : Kept s q) (ht : s.thread = .dropping discard failed) :
    Kept { s with thread := .resetting discard failed } q := by
  have ha := h.active_of ht ⟨nofun, nofun⟩
  have hstage : Finished s discard failed ∧ _ := h.stage_at ht ha
  exact h.goes ha (ht ▸ rfl) hstage.1

theorem Kept.drained (h : Kept s q) (ht : s.thread = .draining) :
    Kept { s with thread := .resetting false false } q := by
  have ha := h.active_of ht ⟨nofun, nofun⟩
  have hstage := h.stage ha
  rw [ht] at hstage
  obtain ⟨hr, hd, hdrain, hend⟩ := hstage
  exact h.goes ha (ht ▸ rfl) ⟨nofun, fun _ => by simp [hr, hd], fun _ _ => hdrain, .inl hend⟩

theorem Kept.drainFailed (h : Kept s q) (ht : s.thread = .draining) :
    Kept ({ s with thread := .resetting false true }.log .drainFailed) q := by
  have ha := h.active_of ht ⟨nofun, nofun⟩
  have hstage := h.stage ha
  rw [ht] at hstage
  obtain ⟨hr, hd, hdrain, hend⟩ := hstage
  refine h.logs ha rfl trivial ?_ ⟨nofun, fun _ => ?_, fun _ _ => ?_, .inl hend⟩
  · simp [ht, PlaybackThread.held, renderedPcm, renderedSlots]
  · simp [Playback.log]
  · simpa [Playback.log] using hdrain

def Playback.concluded (s : Playback) (past : List PlaybackEvent) (failed : Bool) : Playback :=
  { s.clearQueue with
    active := false, ending := false, drop := false, playbackStarted := false
    rebuffering := false, playbackFailed := failed, isDone := true, thread := .top
    events := past ++ [.reset failed] }

theorem kept_concluded (hlawful : LawfulRecord past) (hunreset : ∀ failed, .reset failed ∉ past)
    (hreset : LawfulReset past failed) (horder : renderedPcm past <+: acceptedPcm past) :
    Kept (s.concluded past failed) [] := by
  refine ⟨ringed_cleared rfl rfl, rfl, hlawful.snoc hreset hunreset, ?_, rfl,
    fun _ => ⟨rfl, rfl, rfl, rfl, rfl, .inl rfl⟩, fun _ => .inr ⟨past, rfl⟩, nofun, nofun, nofun,
    nofun, nofun⟩
  simpa [Playback.concluded, PlaybackThread.held, renderedPcm, renderedSlots, acceptedPcm] using horder

theorem Finished.lawfulReset (h : Finished s discard failed) (hk : Kept s q) (ha : s.active = true)
    (hlate : (s.drop && !discard) = false) : LawfulReset s.events failed := by
  have hdrop : .dropped ∈ s.events → discard = true := fun hd => by
    simpa [(hk.drop ha).mpr hd] using hlate
  refine ⟨?_, fun hd => ?_, fun hd => ?_⟩
  · exact h.cause.imp (hk.ending ha).mp (.imp (hk.drop ha).mp id)
  · obtain ⟨-, hf, hback⟩ := h.discards (hdrop hd)
    exact ⟨hf, hback⟩
  · have hdis : discard = false := by
      by_contra hdis
      exact hd ((hk.drop ha).mp (h.discards (by simpa using hdis)).1)
    exact ⟨h.fails hdis, h.drains hdis⟩

theorem Kept.finishPlayback (h : Kept s q) (ht : s.thread = .resetting discard failed) :
    Kept (s.finishPlayback discard failed) [] := by
  have ha := h.active_of ht ⟨nofun, nofun⟩
  have hstage : Finished s discard failed := h.stage_at ht ha
  have horder := h.inOrder
  rw [ht] at horder
  simp only [PlaybackThread.held, List.append_nil] at horder
  unfold Playback.finishPlayback
  dsimp only
  cases hlate : s.drop && !discard with
  | false =>
    simp only [Bool.false_eq_true, if_false, Bool.not_false, Bool.and_true]
    exact kept_concluded h.lawful (h.unreset ha) (hstage.lawfulReset h ha hlate) horder
  | true =>
    -- the drop came while the backend drained or dropped for a failure
    have hdropped : .dropped ∈ s.events :=
      (h.drop ha).mp (Bool.and_eq_true_iff.mp hlate).1
    simp only [if_true, Bool.not_true, Bool.and_false]
    have hrecord : LawfulRecord (s.events ++ [.backendDrop]) :=
      h.lawful.snoc (.inl hdropped) (h.unreset ha)
    have hreset : LawfulReset (s.events ++ [.backendDrop]) false := by
      refine ⟨.inr (.inl (by simp [hdropped])), fun _ => ⟨rfl, by simp⟩, fun hn => ?_⟩
      exact absurd (by simp [hdropped]) hn
    have hunreset : ∀ failed, .reset failed ∉ s.events ++ [.backendDrop] := by
      simpa using h.unreset ha
    have hin : renderedPcm (s.events ++ [.backendDrop]) <+: acceptedPcm (s.events ++ [.backendDrop]) := by
      simpa [renderedPcm, renderedSlots, acceptedPcm] using horder
    exact kept_concluded hrecord hunreset hreset hin

-- ---------------------------------------------------------------------------
-- Every run
-- ---------------------------------------------------------------------------

theorem Kept.step (h : Kept s q) (hs : playback.step s act = some t) : ∃ q', Kept t q' := by
  cases act with
  | beginPlayback prepared => cases hs; exact h.beginPlayback prepared
  | queueTts24k bytes sequence => cases hs; exact h.queueTts24k bytes sequence
  | endPlayback => cases hs; exact ⟨q, h.endPlayback⟩
  | dropPlayback => cases hs; exact h.dropPlayback
  | enter =>
    simp only [playback, Playback.step] at hs
    split at hs
    case h_1 ht => cases hs; exact ⟨q, h.enter ht⟩
    case h_2 => cases hs
  | graceOver =>
    simp only [playback, Playback.step] at hs
    split at hs
    case h_1 ht => cases hs; exact ⟨q, h.graceOver ht _⟩
    case h_2 => cases hs
  | wake =>
    simp only [playback, Playback.step] at hs
    split at hs
    case h_1 ht =>
      split at hs
      case isTrue hready => cases hs; exact h.wake ht hready
      case isFalse => cases hs
    case h_2 => cases hs
  | call =>
    simp only [playback, Playback.step] at hs
    split at hs
    case h_1 slot finish ht => cases hs; exact ⟨q, h.render ht⟩
    case h_2 discard failed ht =>
      split at hs
      case isTrue hwhy => cases hs; exact ⟨q, h.callDrop ht (Bool.or_eq_true_iff.mp hwhy)⟩
      case isFalse hwhy =>
        obtain ⟨rfl, rfl⟩ : discard = false ∧ failed = false := by simpa using hwhy
        cases hs
        exact ⟨q, h.callDrain ht⟩
    case h_3 => cases hs
  | returned ok =>
    simp only [playback, Playback.step] at hs
    split at hs
    case h_1 finish ht =>
      cases ok with
      | true => cases hs; exact ⟨q, by simpa using h.rendered ht⟩
      | false =>
        simp only [Bool.not_false, Bool.or_true, if_true, Bool.false_eq_true, if_false] at hs
        cases hs
        exact ⟨q, h.renderFailed ht⟩
    case h_2 discard failed ht => cases hs; exact ⟨q, h.dropped ht⟩
    case h_3 ht =>
      cases ok with
      | true => cases hs; exact ⟨q, h.drained ht⟩
      | false => cases hs; exact ⟨q, h.drainFailed ht⟩
    case h_4 => cases hs
  | sample =>
    simp only [playback, Playback.step] at hs
    split at hs
    case h_1 discard failed ht => cases hs; exact ⟨q, h.sample ht⟩
    case h_2 => cases hs
  | finishPlayback =>
    simp only [playback, Playback.step] at hs
    split at hs
    case h_1 discard failed ht => cases hs; exact ⟨[], h.finishPlayback ht⟩
    case h_2 => cases hs

theorem kept (h : playback.Reachable s) : ∃ q, Kept s q := by
  refine Lts.Machine.Reachable.invariant (I := fun s => ∃ q, Kept s q) h (fun s h0 => ?_) ?_
  · rw [show s = {} from h0]
    exact ⟨[], kept_init⟩
  · rintro s act t ⟨q, hk⟩ hs
    exact hk.step hs

end BoomPI.Audio
