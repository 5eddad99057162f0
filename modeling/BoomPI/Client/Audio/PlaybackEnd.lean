import BoomPI.Progress
import BoomPI.Client.Audio.PlaybackSession

/-!
# Sessions come to their end

A session that is ended, dropped or fails is `Due`: the playback thread never waits
in it, and every step it takes brings the reset nearer, whatever the actor does in
between and however the backend's calls turn out.
-/

namespace BoomPI.Audio

variable {s t : Playback} {q : List TtsSlot} {act : PlaybackAct} {events past : List PlaybackEvent}
  {failed : Bool}

/-- In `FinishPlayback`. -/
def PlaybackThread.closing : PlaybackThread → Bool
  | .finishing .. | .sampled .. | .dropping .. | .draining | .resetting .. => true
  | _ => false

structure Due (s : Playback) : Prop where
  active : s.active = true
  why : s.ending = true ∨ s.drop = true ∨ s.thread.closing = true

def PlaybackAct.ofThread : PlaybackAct → Bool
  | .beginPlayback _ | .queueTts24k .. | .endPlayback | .dropPlayback => false
  | _ => true

def Playback.slotsLeft (s : Playback) : Nat := if s.drop then 0 else 5 * s.tts.count

/-- The steps the thread still takes, at most. -/
def Playback.stepsLeft (s : Playback) : Nat :=
  match s.thread with
  | .resetting .. => 1
  | .dropping .. | .draining => 2
  | .sampled .. => 3
  | .finishing .. => 4
  | .waiting => 5 + s.slotsLeft
  | .grace => 6 + s.slotsLeft
  | .top => 7 + s.slotsLeft
  | .rendering _ => 8 + s.slotsLeft
  | .popped .. => 9 + s.slotsLeft

/-- The thread's next step; `ok` is the answer of the call it waits for. -/
def Playback.next (s : Playback) (ok : Bool) : PlaybackAct :=
  match s.thread with
  | .top => .enter
  | .grace => .graceOver
  | .waiting => .wake
  | .popped .. | .sampled .. => .call
  | .rendering _ | .dropping .. | .draining => .returned ok
  | .finishing .. => .sample
  | .resetting .. => .finishPlayback

def Playback.Reset (s : Playback) : Prop :=
  s.active = false ∧ ∃ past, s.events = past ++ [.reset s.playbackFailed]

/-- Behind `EndPlayback` the wait is over at once. -/
theorem ready_of_ending (ha : s.active = true) (he : s.ending = true) : s.ready = true := by
  by_cases hc : s.tts.count = 0 <;> simp [Playback.ready, ha, he, hc]

theorem Due.next_enabled (h : Due s) (ok : Bool) : ∃ t, playback.step s (s.next ok) = some t := by
  simp only [playback, Playback.next]
  cases ht : s.thread with
  | waiting =>
    have hready : s.ready = true := by
      rcases h.why with he | hd | hc
      · exact ready_of_ending h.active he
      · simp [Playback.ready, hd]
      · simp [ht, PlaybackThread.closing] at hc
    exact ⟨s.wake, by simp [Playback.step, ht, hready]⟩
  | sampled discard failed =>
    simp only [Playback.step, ht]
    split <;> exact ⟨_, rfl⟩
  | top | grace | draining => exact ⟨_, by simp only [Playback.step, ht]; rfl⟩
  | popped slot finish => exact ⟨_, by simp only [Playback.step, ht]; rfl⟩
  | rendering finish => exact ⟨_, by simp only [Playback.step, ht]; rfl⟩
  | finishing discard failed => exact ⟨_, by simp only [Playback.step, ht]; rfl⟩
  | dropping discard failed => exact ⟨_, by simp only [Playback.step, ht]; rfl⟩
  | resetting discard failed => exact ⟨_, by simp only [Playback.step, ht]; rfl⟩

-- ---------------------------------------------------------------------------
-- Every step
-- ---------------------------------------------------------------------------

theorem copy_eq (s : Playback) (fuel : Nat) (pcm : List Sample) :
    ∃ tts ttsTail, s.copy fuel pcm = { s with tts, ttsTail } := by
  induction fuel generalizing s pcm with
  | zero => exact ⟨s.tts, s.ttsTail, rfl⟩
  | succ fuel ih =>
    unfold Playback.copy
    split
    · exact ⟨s.tts, s.ttsTail, rfl⟩
    · obtain ⟨tts, ttsTail, hopen⟩ := openSlot_eq s
      dsimp only
      rw [hopen]
      obtain ⟨tts', ttsTail', heq⟩ := ih { s with
        tts := tts.set (ttsTail - 1) ((Playback.last { s with tts, ttsTail }).append pcm), ttsTail } _
      exact ⟨tts', ttsTail', heq⟩

theorem stepsLeft_le (ht : t.thread = s.thread)
    (hslots : s.thread.closing = true ∨ t.slotsLeft ≤ s.slotsLeft) : t.stepsLeft ≤ s.stepsLeft := by
  unfold Playback.stepsLeft
  rw [ht]
  rcases hslots with hc | hslots
  · cases hs : s.thread <;> simp_all [PlaybackThread.closing]
  · cases s.thread <;> dsimp only <;> omega

/-- What the actor does keeps a session due, and brings nothing more to do. -/
theorem Due.actor (h : Due s) (hactor : act.ofThread = false) (hs : playback.step s act = some t) :
    Due t ∧ t.stepsLeft ≤ s.stepsLeft := by
  cases act with
  | beginPlayback prepared =>
    cases hs
    simp only [Playback.beginPlayback, h.active, if_true]
    exact ⟨h, Nat.le_refl _⟩
  | queueTts24k bytes sequence =>
    cases hs
    unfold Playback.queueTts24k
    dsimp only
    split
    case isTrue => exact ⟨h, Nat.le_refl _⟩
    split
    case isTrue => exact ⟨h, Nat.le_refl _⟩
    case isFalse haccept =>
      simp only [not_or, Bool.not_eq_true', Bool.not_eq_false, Bool.not_eq_true] at haccept
      obtain ⟨tts, ttsTail, heq⟩ := copy_eq s (bytes.length / 2) (samplesOf bytes)
      have hwhy := h.why.resolve_left (by simp [haccept.2.1])
      simp only [heq]
      refine ⟨⟨h.active, .inr hwhy⟩, stepsLeft_le rfl ?_⟩
      rcases hwhy with hd | hc
      · exact .inr (by simp [Playback.slotsLeft, Playback.log, hd])
      · exact .inl hc
  | endPlayback =>
    cases hs
    unfold Playback.endPlayback
    split
    · exact ⟨h, Nat.le_refl _⟩
    · exact ⟨⟨h.active, .inl rfl⟩, stepsLeft_le rfl (.inr (Nat.le_refl _))⟩
  | dropPlayback =>
    cases hs
    rw [Playback.dropPlayback, if_pos h.active]
    exact ⟨⟨h.active, .inr (.inl rfl)⟩, stepsLeft_le rfl (.inr (Nat.zero_le _))⟩
  | _ => simp [PlaybackAct.ofThread] at hactor

theorem reset_finishPlayback (s : Playback) (discard failed : Bool) :
    (s.finishPlayback discard failed).Reset := ⟨rfl, _, rfl⟩

/-- What the thread does brings the reset nearer. -/
theorem Due.thread (h : Due s) (hthread : act.ofThread = true)
    (hs : playback.step s act = some t) : t.Reset ∨ (Due t ∧ t.stepsLeft < s.stepsLeft) := by
  cases act with
  | enter =>
    simp only [playback, Playback.step] at hs
    split at hs
    case h_2 => cases hs
    case h_1 ht =>
      cases hs
      have hwhy : s.ending = true ∨ s.drop = true :=
        h.why.imp id fun hor => hor.resolve_right (by simp [ht, PlaybackThread.closing])
      refine .inr ⟨⟨h.active, hwhy.imp id .inl⟩, ?_⟩
      cases hst : s.starved <;> simp only [Playback.stepsLeft, ht]
      · exact Nat.add_lt_add_right (by decide) _
      · exact Nat.add_lt_add_right (by decide) _
  | graceOver =>
    simp only [playback, Playback.step] at hs
    split at hs
    case h_2 => cases hs
    case h_1 ht =>
      cases hs
      have hwhy : s.ending = true ∨ s.drop = true :=
        h.why.imp id fun hor => hor.resolve_right (by simp [ht, PlaybackThread.closing])
      refine .inr ⟨⟨h.active, hwhy.imp id .inl⟩, ?_⟩
      simp [Playback.stepsLeft, Playback.slotsLeft, ht]
  | wake =>
    simp only [playback, Playback.step] at hs
    split at hs
    case h_2 => cases hs
    case h_1 ht =>
      split at hs
      case isFalse => cases hs
      case isTrue hready =>
        cases hs
        have hwhy : s.ending = true ∨ s.drop = true :=
          h.why.imp id fun hor => hor.resolve_right (by simp [ht, PlaybackThread.closing])
        unfold Playback.wake
        split
        case isTrue hgo =>
          obtain ⟨hdrop, hcount⟩ := hgo
          have hdrop : s.drop = false := by simpa using hdrop
          refine .inr ⟨⟨h.active, .inl (hwhy.resolve_right (by simp [hdrop]))⟩, ?_⟩
          simp only [Playback.stepsLeft, Playback.slotsLeft, ht, hdrop, RingBuffer.pop]
          simp only [Bool.false_eq_true, if_false]
          omega
        split
        case isTrue =>
          exact .inr ⟨⟨h.active, .inr (.inr rfl)⟩, by simp [Playback.stepsLeft, ht]; omega⟩
        case isFalse hpop hfin =>
          simp only [not_or, not_and] at hfin
          have hend := hwhy.resolve_right hfin.1
          exact absurd ⟨by simpa using hfin.1, hfin.2 hend⟩ hpop
  | call =>
    simp only [playback, Playback.step] at hs
    split at hs
    case h_3 => cases hs
    case h_1 slot finish ht =>
      cases hs
      have hwhy : s.ending = true ∨ s.drop = true :=
        h.why.imp id fun hor => hor.resolve_right (by simp [ht, PlaybackThread.closing])
      refine .inr ⟨⟨h.active, hwhy.imp id .inl⟩, ?_⟩
      simp only [Playback.stepsLeft, ht, Playback.log]
      exact Nat.add_lt_add_right (by decide) _
    case h_2 discard failed ht =>
      split at hs <;> cases hs
      · exact .inr ⟨⟨h.active, .inr (.inr rfl)⟩, by simp [Playback.stepsLeft, ht, Playback.log]⟩
      · exact .inr ⟨⟨h.active, .inr (.inr rfl)⟩, by simp [Playback.stepsLeft, ht, Playback.log]⟩
  | returned ok =>
    simp only [playback, Playback.step] at hs
    split at hs
    case h_4 => cases hs
    case h_1 finish ht =>
      cases hs
      have hwhy : s.ending = true ∨ s.drop = true :=
        h.why.imp id fun hor => hor.resolve_right (by simp [ht, PlaybackThread.closing])
      cases ok <;> cases finish
      · exact .inr ⟨⟨h.active, .inr (.inr rfl)⟩, by simp [Playback.stepsLeft, ht]; omega⟩
      · exact .inr ⟨⟨h.active, .inr (.inr rfl)⟩, by simp [Playback.stepsLeft, ht]; omega⟩
      · refine .inr ⟨⟨h.active, hwhy.imp id .inl⟩, ?_⟩
        simp only [Playback.stepsLeft, ht]
        exact Nat.add_lt_add_right (by decide) _
      · exact .inr ⟨⟨h.active, .inr (.inr rfl)⟩, by simp [Playback.stepsLeft, ht]; omega⟩
    case h_2 discard failed ht =>
      cases hs
      exact .inr ⟨⟨h.active, .inr (.inr rfl)⟩, by simp [Playback.stepsLeft, ht]⟩
    case h_3 ht =>
      cases ok <;> cases hs
      · exact .inr ⟨⟨h.active, .inr (.inr rfl)⟩, by simp [Playback.stepsLeft, ht]⟩
      · exact .inr ⟨⟨h.active, .inr (.inr rfl)⟩, by simp [Playback.stepsLeft, ht]⟩
  | sample =>
    simp only [playback, Playback.step] at hs
    split at hs
    case h_2 => cases hs
    case h_1 discard failed ht =>
      cases hs
      exact .inr ⟨⟨h.active, .inr (.inr rfl)⟩, by simp [Playback.stepsLeft, ht]⟩
  | finishPlayback =>
    simp only [playback, Playback.step] at hs
    split at hs
    case h_2 => cases hs
    case h_1 discard failed ht =>
      cases hs
      exact .inl (reset_finishPlayback s discard failed)
  | _ => simp [PlaybackAct.ofThread] at hthread

theorem stepsLeft_pos (s : Playback) : 0 < s.stepsLeft := by
  unfold Playback.stepsLeft
  cases s.thread <;> dsimp only <;> omega

theorem due_progress : Lts.Machine.Progress playback (fun s => Due s ∧ ∃ q, Kept s q) Playback.Reset
    PlaybackAct.ofThread Playback.stepsLeft := by
  refine ⟨fun s _ => stepsLeft_pos s, ?_⟩
  rintro s act t ⟨hdue, q, hk⟩ hs
  have hkept := hk.step hs
  cases hact : act.ofThread with
  | true =>
    refine (hdue.thread hact hs).imp id fun ⟨hd, hlt⟩ => ⟨⟨hd, hkept⟩, ?_, fun _ => hlt⟩
    exact Nat.le_of_lt hlt
  | false =>
    obtain ⟨hd, hle⟩ := hdue.actor hact hs
    exact .inr ⟨⟨hd, hkept⟩, hle, nofun⟩

-- ---------------------------------------------------------------------------
-- The record of a finished session
-- ---------------------------------------------------------------------------

/-- Behind the end of the answer nothing is accepted, behind the drain nothing is rendered. -/
theorem LawfulRecord.all_rendered (h : LawfulRecord (past ++ [.reset failed]))
    (hdropped : .dropped ∉ past) (hfailed : .renderFailed ∉ past) :
    renderedPcm past = acceptedPcm past := by
  have hreset : LawfulReset past failed := (h past (.reset failed) [] rfl).1
  obtain ⟨a, b, rfl⟩ := List.append_of_mem ((hreset.undropped hdropped).2 hfailed)
  obtain ⟨-, hdrain⟩ := (h a .drain (b ++ [.reset failed]) (by simp)).1
  obtain ⟨hended, -, hall⟩ := hdrain fun hm => hdropped (List.mem_append_left _ hm)
  have behind : ∀ e ∈ b, ∃ b₁, Lawful (a ++ .drain :: b₁) e := by
    intro e he
    obtain ⟨b₁, b₂, rfl⟩ := List.append_of_mem he
    exact ⟨b₁, (h (a ++ .drain :: b₁) e (b₂ ++ [.reset failed]) (by simp)).1⟩
  have haccepted : acceptedPcm b = [] := by
    refine List.flatMap_eq_nil_iff.mpr fun e he => ?_
    obtain ⟨b₁, hlawful⟩ := behind e he
    cases e with
    | accepted pcm => exact absurd (List.mem_append_left _ hended) hlawful
    | _ => rfl
  have hrendered : renderedSlots b = [] := by
    refine List.flatMap_eq_nil_iff.mpr fun e he => ?_
    obtain ⟨b₁, hlawful⟩ := behind e he
    cases e with
    | render slot => exact absurd (List.mem_append_right a List.mem_cons_self) hlawful.2
    | _ => rfl
  have hr : renderedSlots (.drain :: b) = [] := hrendered
  have ha : acceptedPcm (.drain :: b) = [] := haccepted
  rw [renderedPcm_append, acceptedPcm_append, ha, renderedPcm.eq_1 (.drain :: b), hr, hall]
  simp

theorem queueTts24k_refused {bytes : List (BitVec 8)} {sequence : UInt64}
    (h : (s.queueTts24k bytes sequence).1 = false) : (s.queueTts24k bytes sequence).2 = s := by
  unfold Playback.queueTts24k at h ⊢
  dsimp only at h ⊢
  split
  case isTrue => rfl
  case isFalse hbytes =>
    rw [if_neg hbytes] at h
    split
    case isTrue => rfl
    case isFalse haccept =>
      rw [if_neg haccept] at h
      cases h

theorem queueTts24k_accepted {bytes : List (BitVec 8)} {sequence : UInt64}
    (h : (s.queueTts24k bytes sequence).1 = true) :
    (s.queueTts24k bytes sequence).2.events = s.events ++ [.accepted (samplesOf bytes)] := by
  obtain ⟨tts, ttsTail, heq⟩ := copy_eq s (bytes.length / 2) (samplesOf bytes)
  unfold Playback.queueTts24k at h ⊢
  dsimp only at h ⊢
  split
  case isTrue hbytes => simp only [if_pos hbytes, Bool.false_eq_true] at h
  case isFalse hbytes =>
    rw [if_neg hbytes] at h
    split
    case isTrue hrefuse => simp only [if_pos hrefuse, Bool.false_eq_true] at h
    case isFalse haccept =>
      rw [heq]
      rfl

/-- The ring loses no sample, whatever the threads do; behind `EndPlayback` it is played to
its end. -/
theorem tts_ring (h : playback.Reachable s) :
    (∃ q, Ringed s q ∧ s.queuedSamples = (q.map TtsSlot.used).sum ∧ s.tts.count ≤ kTtsSlots ∧
      (s.active = true → s.drop = false →
        renderedPcm s.events ++ s.thread.held ++ pcmOf q = acceptedPcm s.events)) ∧
    renderedPcm s.events <+: acceptedPcm s.events ∧
    (∀ past slot rest, s.events = past ++ .render slot :: rest → LawfulRender past slot) ∧
    (∀ bytes sequence, (s.queueTts24k bytes sequence).1 = false →
      (s.queueTts24k bytes sequence).2 = s) ∧
    (∀ bytes sequence, (s.queueTts24k bytes sequence).1 = true →
      (s.queueTts24k bytes sequence).2.events = s.events ++ [.accepted (samplesOf bytes)]) ∧
    (s.active = true → s.ending = true →
      s.ready = true ∧ (∀ ok, ∃ t, playback.step s (s.next ok) = some t) ∧
      ∀ ls t, playback.run s ls = some t → s.stepsLeft ≤ ls.countP PlaybackAct.ofThread →
        ∃ ks rest u, ls = ks ++ rest ∧ playback.run s ks = some u ∧ u.Reset ∧
          (.dropped ∉ u.events → .renderFailed ∉ u.events →
            renderedPcm u.events = acceptedPcm u.events)) := by
  obtain ⟨q, hk⟩ := kept h
  refine ⟨⟨q, hk.ringed, ?_, ?_, hk.flow⟩, ?_, ?_, ?_, ?_, ?_⟩
  · simp only [hk.queued, pcmOf, List.length_flatMap]
    rfl
  · exact hk.ringed.count ▸ hk.ringed.length_le
  · exact (List.prefix_append _ _).trans hk.inOrder
  · exact fun past slot rest heq => (hk.lawful past _ rest heq).1.1
  · exact fun bytes sequence hrefused => queueTts24k_refused hrefused
  · exact fun bytes sequence haccepted => queueTts24k_accepted haccepted
  · intro hactive hending
    have hdue : Due s := ⟨hactive, .inl hending⟩
    refine ⟨ready_of_ending hactive hending, hdue.next_enabled, fun ls t hrun hn => ?_⟩
    obtain ⟨ks, rest, u, hls, hu, hreset⟩ := due_progress.reaches ⟨hdue, q, hk⟩ hrun hn
    refine ⟨ks, rest, u, hls, hu, hreset, fun hdropped hfailed => ?_⟩
    obtain ⟨q', hk'⟩ := kept (h.run hu)
    obtain ⟨past, hpast⟩ := hreset.2
    have hall := hk'.lawful
    rw [hpast] at hall hdropped hfailed ⊢
    simp only [List.mem_append, not_or] at hdropped hfailed
    have := hall.all_rendered hdropped.1 hfailed.1
    simpa [renderedPcm, renderedSlots, acceptedPcm] using this

/-- 600 samples in two messages: the second one fills the first slot up and opens another. -/
def shortAnswer : List PlaybackAct :=
  [.beginPlayback true, .queueTts24k (.replicate 600 1) 7, .queueTts24k (.replicate 600 2) 8,
    .queueTts24k [3, 0] 8, .endPlayback, .enter, .wake, .call, .returned true, .enter, .wake, .call,
    .returned true, .sample, .call, .returned true, .finishPlayback]

theorem tts_ring_shortAnswer : ∃ s, playback.run {} shortAnswer = some s ∧
    (renderedSlots s.events).map TtsSlot.used = [480, 120] ∧
    renderedPcm s.events = .replicate 300 0x0101 ++ .replicate 300 0x0202 ∧
    renderedPcm s.events <+: acceptedPcm s.events := by
  obtain ⟨s, hrun, hreach, hpcm⟩ := Lts.Machine.exists_of_run playback {} shortAnswer
    (fun s => (renderedSlots s.events).map TtsSlot.used = [480, 120] ∧
      renderedPcm s.events = .replicate 300 0x0101 ++ .replicate 300 0x0202) rfl (by decide +kernel)
  obtain ⟨hused, hpcm⟩ := of_decide_eq_true hpcm
  exact ⟨s, hrun, hused, hpcm, (tts_ring hreach).2.1⟩

/-- Every session that is ended, dropped or fails comes to one reset, which reports what the
record says; no later session sees anything of it. -/
theorem playback_ends (h : playback.Reachable s) :
    LawfulRecord s.events ∧
    (Due s → (∀ ok, ∃ t, playback.step s (s.next ok) = some t) ∧
      ∀ ls t, playback.run s ls = some t → s.stepsLeft ≤ ls.countP PlaybackAct.ofThread →
        ∃ ks rest u, ls = ks ++ rest ∧ playback.run s ks = some u ∧ u.Reset) ∧
    (s.active = false → s.isDone = true ∧ s.ending = false ∧ s.drop = false ∧ Ringed s [] ∧
      s.queuedSamples = 0 ∧
      (s.events = [] ∨ ∃ past, s.events = past ++ [.reset s.playbackFailed] ∧
        LawfulReset past s.playbackFailed) ∧
      ((s.beginPlayback true).2 = { ({} : Playback) with
        active := true, isDone := false, thread := s.thread, nextTtsSequence := s.nextTtsSequence })) := by
  obtain ⟨q, hk⟩ := kept h
  refine ⟨hk.lawful, fun hdue => ⟨hdue.next_enabled, fun ls t hrun hn => ?_⟩, fun hidle => ?_⟩
  · exact due_progress.reaches ⟨hdue, q, hk⟩ hrun hn
  · obtain ⟨rfl, hending, hdrop, -⟩ := hk.idle hidle
    refine ⟨by rw [hk.done, hidle]; rfl, hending, hdrop, hk.ringed, hk.queued, ?_, ?_⟩
    · refine (hk.concluded hidle).imp id fun ⟨past, hpast⟩ => ⟨past, hpast, ?_⟩
      exact (hk.lawful past _ [] hpast).1
    · simp [Playback.beginPlayback, hidle, Playback.clearQueue]

/-- The user drops the answer while the backend drains it, and the drain fails for that. -/
def droppedInDrain : List PlaybackAct :=
  [.beginPlayback true, .queueTts24k [1, 0] 7, .endPlayback, .enter, .wake, .call, .returned true,
    .sample, .call, .dropPlayback, .returned false, .finishPlayback]

theorem playback_ends_dropped : ∃ s, playback.run {} droppedInDrain = some s ∧
    s.playbackFailed = false ∧ LawfulRecord s.events := by
  obtain ⟨s, hrun, hreach, hfailed⟩ := Lts.Machine.exists_of_run playback {} droppedInDrain
    (fun s => !s.playbackFailed) rfl (by decide +kernel)
  exact ⟨s, hrun, by simpa using hfailed, (playback_ends hreach).1⟩

end BoomPI.Audio
