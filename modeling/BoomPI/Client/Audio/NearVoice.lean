import BoomPI.Client.Audio.Gate

/-!
# The gate in every interleaving

The playback thread and the application store to the atomics at any moment, also
between the exchange that begins a frame's gate and the load that follows it. Every
frame the capture thread processes is `Gated` by the record of what came before it.
-/

namespace BoomPI.Audio

open Past (Since Ever)

variable {minDbfs : Int} {s t : Duplex} {b b' : Backend} {φ : Phase} {log : List Entry} {x : Entry}
  {p : Processed} {frame : CaptureFrame} {act : DuplexAct}

/-- Neither warm-up nor tail, and no session. -/
def Backend.Clear (b : Backend) : Prop := b.In .idle ∧ b.playbackSessionActive = false

/-- The frame being processed has taken the end off the atomic. -/
def Duplex.Taken (s : Duplex) : Prop := ∃ frame, s.capturing = some (true, frame)

structure Tracked (s : Duplex) : Prop where
  phase : ∃ φ, s.backend.In φ ∧ Follows φ s.backend.playbackSessionActive s.log
  application : s.application = [] ∨ s.application = interruptPlayback ∨
    s.backend.playbackInterrupted = true
  rendering : s.backend.playbackRenderStarted = true →
    Ever (fun x _ => x = .rendering) (· ≠ .prepared) s.log
  /-- until the gate has seen it, an interruption is on the atomic or in the frame -/
  interrupted : Interrupted s.log → s.backend.playbackInterrupted = true ∧
    (s.backend.playbackEnded = true ∨ s.Taken ∨ s.backend.Clear)
  begun : BegunInterrupted s.log → s.backend.playbackInterrupted = true ∧
    (s.Taken ∨ s.backend.Clear)
  fresh : ∀ ended frame, s.capturing = some (ended, frame) → frame.discontinuity = false
  gated : ∀ new p log, s.log = new ++ .processed p :: log → Gated p log

-- ---------------------------------------------------------------------------
-- The counters only
-- ---------------------------------------------------------------------------

structure SameGate (b b' : Backend) : Prop where
  armed : b'.aecWarmupArmed = b.aecWarmupArmed
  warmup : b'.aecWarmupRemaining = b.aecWarmupRemaining
  tail : b'.aecTailRemaining = b.aecTailRemaining
  session : b'.playbackSessionActive = b.playbackSessionActive

theorem SameGate.phase (h : SameGate b b') (hb : b.In φ) : b'.In φ := by
  cases φ <;> simpa only [Backend.In, h.armed, h.warmup, h.tail] using hb

theorem SameGate.clear (h : SameGate b b') (hc : b.Clear) : b'.Clear :=
  ⟨h.phase hc.1, h.session.trans hc.2⟩

theorem Backend.In.unique {φ' : Phase} (hb : b.In φ) (hb' : b.In φ') : φ = φ' := by
  cases φ <;> cases φ' <;> simp_all [Backend.In]

theorem sameGate_store (b : Backend) (store : Store) : SameGate b (b.store store) := by
  cases store <;> exact ⟨rfl, rfl, rfl, rfl⟩

theorem store_interrupted (store : Store) (h : b.playbackInterrupted = true) :
    (b.store store).playbackInterrupted = true := by
  cases store <;> simp [Backend.store, h]

theorem store_ended (store : Store) (h : b.playbackEnded = true) :
    (b.store store).playbackEnded = true := by
  cases store <;> simp [Backend.store, h]

theorem store_rendering {store : Store} (h : (b.store store).playbackRenderStarted = true) :
    b.playbackRenderStarted = true := by
  cases store <;> simp_all [Backend.store]

theorem gated_cons (x : Entry) (h : ∀ new p log', log = new ++ .processed p :: log' → Gated p log')
    (hx : ∀ p, x = .processed p → Gated p log) :
    ∀ new p log', x :: log = new ++ .processed p :: log' → Gated p log' := by
  intro new p log' heq
  cases new with
  | nil =>
    cases heq
    exact hx p rfl
  | cons y new =>
    cases heq
    exact h new p log' rfl

theorem Tracked.init : Tracked {} := by
  refine ⟨⟨.idle, ⟨rfl, rfl, rfl⟩, .init⟩, .inl rfl, by simp, ?_, ?_, by simp, ?_⟩
  · exact fun h => absurd h Past.not_ever_nil
  · exact fun h => absurd h Past.not_ever_nil
  · intro new p log heq
    simp at heq

theorem Tracked.untouched (h : Tracked s) (hs : SameGate s.backend b)
    (hi : s.backend.playbackInterrupted = true → b.playbackInterrupted = true)
    (he : s.backend.playbackEnded = true → b.playbackEnded = true)
    (hr : b.playbackRenderStarted = true → s.backend.playbackRenderStarted = true)
    {application player : List Store} {active : Bool}
    (happ : application = [] ∨ application = interruptPlayback ∨ b.playbackInterrupted = true) :
    Tracked { s with backend := b, application, player, active } := by
  obtain ⟨φ, hφ, hf⟩ := h.phase
  exact ⟨⟨φ, hs.phase hφ, by rw [hs.session]; exact hf⟩, happ, fun hren => h.rendering (hr hren),
    fun hint => ⟨hi (h.interrupted hint).1, (h.interrupted hint).2.imp he (.imp id hs.clear)⟩,
    fun hbeg => ⟨hi (h.begun hbeg).1, (h.begun hbeg).2.imp id hs.clear⟩, h.fresh, h.gated⟩

theorem Tracked.idle (h : Tracked s) {application player : List Store} {active : Bool}
    (happ : application = [] ∨ application = interruptPlayback ∨
      s.backend.playbackInterrupted = true) :
    Tracked { s with application, player, active } :=
  h.untouched ⟨rfl, rfl, rfl, rfl⟩ id id id happ

-- ---------------------------------------------------------------------------
-- Entries that say nothing of a frame
-- ---------------------------------------------------------------------------

@[simp] theorem interrupted_rendering : Interrupted (.rendering :: log) ↔ Interrupted log := by
  simp [Interrupted, Past.ever_cons]

@[simp] theorem interrupted_begun : Interrupted (.begun :: log) ↔ Interrupted log := by
  simp [Interrupted, Past.ever_cons]

@[simp] theorem interrupted_processed : Interrupted (.processed p :: log) ↔ Interrupted log := by
  simp [Interrupted, Past.ever_cons]

@[simp] theorem begun_rendering : BegunInterrupted (.rendering :: log) ↔ BegunInterrupted log := by
  simp [BegunInterrupted, Past.ever_cons]

@[simp] theorem begun_interrupted :
    BegunInterrupted (.interrupted :: log) ↔ BegunInterrupted log := by
  simp [BegunInterrupted, Past.ever_cons]

@[simp] theorem begun_processed : BegunInterrupted (.processed p :: log) ↔ BegunInterrupted log := by
  simp [BegunInterrupted, Past.ever_cons]

theorem Tracked.beginPlayback (h : Tracked s) (happ : s.application = [])
    (hcap : s.capturing = none) : Tracked { s with
      backend := s.backend.preparePlayback, active := true, log := .prepared :: s.log } := by
  refine ⟨⟨.waiting, ⟨rfl, rfl, rfl⟩, .prepared⟩, .inl happ, nofun, fun hint => ?_, fun hbeg => ?_,
    by simp [hcap], gated_cons .prepared h.gated (fun _ hp => nomatch hp)⟩
  · simp [Interrupted, Past.ever_cons] at hint
  · simp [BegunInterrupted, Past.ever_cons] at hbeg

theorem Tracked.render (h : Tracked s) : Tracked { s with
    backend := { s.backend with playbackRenderStarted := true }, log := .rendering :: s.log } := by
  obtain ⟨φ, hφ, hf⟩ := h.phase
  have hs : SameGate s.backend { s.backend with playbackRenderStarted := true } :=
    ⟨rfl, rfl, rfl, rfl⟩
  refine ⟨⟨φ, hs.phase hφ, hf.neutral (by simp) (by simp)⟩, h.application,
    fun _ => Past.ever_cons.mpr (.inl rfl), fun hint => ?_, fun hbeg => ?_, h.fresh,
    gated_cons .rendering h.gated (fun _ hp => nomatch hp)⟩
  · simp only [interrupted_rendering] at hint
    exact ⟨(h.interrupted hint).1, (h.interrupted hint).2.imp id (.imp id hs.clear)⟩
  · simp only [begun_rendering] at hbeg
    exact ⟨(h.begun hbeg).1, (h.begun hbeg).2.imp id hs.clear⟩

/-- `InterruptPlayback` publishes its end. -/
theorem Tracked.publish (h : Tracked s) (hi : s.backend.playbackInterrupted = true)
    (rest : List Store) : Tracked { s with
      backend := { s.backend with playbackEnded := true }, application := rest,
      log := .interrupted :: s.log } := by
  obtain ⟨φ, hφ, hf⟩ := h.phase
  have hs : SameGate s.backend { s.backend with playbackEnded := true } := ⟨rfl, rfl, rfl, rfl⟩
  refine ⟨⟨φ, hs.phase hφ, hf.neutral (by simp) (by simp)⟩, .inr (.inr hi), fun hr => ?_,
    fun _ => ⟨hi, .inl rfl⟩, fun hbeg => ?_, h.fresh, gated_cons .interrupted h.gated (fun _ hp => nomatch hp)⟩
  · exact Past.ever_cons.mpr (.inr ⟨nofun, h.rendering hr⟩)
  · simp only [begun_interrupted] at hbeg
    exact ⟨hi, (h.begun hbeg).2.imp id hs.clear⟩

theorem Tracked.store (h : Tracked s) (store : Store) {application player : List Store}
    (happ : application = [] ∨ application = interruptPlayback ∨
      (s.backend.store store).playbackInterrupted = true) :
    Tracked { s with backend := s.backend.store store, application, player } :=
  h.untouched (sameGate_store _ _) (store_interrupted store) (store_ended store) store_rendering happ

theorem Tracked.applicationStore {store : Store} {rest : List Store} (h : Tracked s)
    (happ : s.application = store :: rest) : Tracked { s with
      backend := s.backend.store store, application := rest,
      log := if store = .ended then .interrupted :: s.log else s.log } := by
  have hrest : store ≠ .interrupted → s.backend.playbackInterrupted = true := by
    intro hne
    rcases h.application with h0 | hfull | hi
    · simp [happ] at h0
    · simp [happ, interruptPlayback, hne] at hfull
    · exact hi
  cases store with
  | interrupted => exact h.store .interrupted (.inr (.inr rfl))
  | ended => exact h.publish (hrest nofun) rest
  | renderStopped => exact h.store .renderStopped (.inr (.inr (hrest nofun)))

-- ---------------------------------------------------------------------------
-- Frames
-- ---------------------------------------------------------------------------

theorem process_frame {period : Period} (h : b.process minDbfs period = some (b', frame)) :
    frame.discontinuity = false ∧ SameGate b b' ∧
      b'.playbackRenderStarted = b.playbackRenderStarted ∧
      b'.playbackInterrupted = b.playbackInterrupted ∧ b'.playbackEnded = b.playbackEnded := by
  simp only [Backend.process, Option.map_eq_some_iff] at h
  obtain ⟨⟨vad, fresh⟩, hu, heq⟩ := h
  cases heq
  refine ⟨?_, ⟨rfl, rfl, rfl, rfl⟩, rfl, rfl, rfl⟩
  simp only [updateVad] at hu
  split at hu
  · cases hu
  split at hu
  · cases hu; rfl
  split at hu
  · cases hu; rfl
  · cases hu; rfl

theorem Tracked.process {period : Period} (h : Tracked s) (hcap : s.capturing = none)
    (hp : s.backend.process minDbfs period = some (b, frame)) : Tracked { s with
      backend := { b with playbackEnded := false }
      capturing := some (b.playbackEnded, frame), log := .begun :: s.log } := by
  obtain ⟨φ, hφ, hf⟩ := h.phase
  obtain ⟨hd, hs, hr, hi, he⟩ := process_frame hp
  have hs' : SameGate s.backend { b with playbackEnded := false } :=
    ⟨hs.armed, hs.warmup, hs.tail, hs.session⟩
  have hnot : ¬ s.Taken := fun ⟨_, hk⟩ => by simp [hcap] at hk
  have hkeep : Interrupted s.log → b.playbackInterrupted = true ∧ (b.playbackEnded = true ∨
      Backend.Clear { b with playbackEnded := false }) := by
    intro hint
    obtain ⟨hset, hwhere⟩ := h.interrupted hint
    refine ⟨hi.trans hset, ?_⟩
    rcases hwhere with hend | htaken | hc
    · exact .inl (he.trans hend)
    · exact absurd htaken hnot
    · exact .inr (hs'.clear hc)
  refine ⟨⟨φ, hs'.phase hφ, ?_⟩, ?_, fun hren => ?_, fun hint => ?_, fun hbeg => ?_,
    fun ended fr heq => ?_, gated_cons .begun h.gated (fun _ hp => nomatch hp)⟩
  · rw [hs'.session]
    exact hf.neutral (by simp) (by simp)
  · rw [hi]
    exact h.application
  · rw [hr] at hren
    exact Past.ever_cons.mpr (.inr ⟨nofun, h.rendering hren⟩)
  · simp only [interrupted_begun] at hint
    obtain ⟨hset, hwhere⟩ := hkeep hint
    exact ⟨hset, .inr (hwhere.imp (fun hend => ⟨frame, by rw [hend]⟩) id)⟩
  · rcases Past.ever_cons.mp hbeg with ⟨-, hint⟩ | ⟨-, hbeg⟩
    · obtain ⟨hset, hwhere⟩ := hkeep hint
      exact ⟨hset, hwhere.imp (fun hend => ⟨frame, by rw [hend]⟩) id⟩
    · obtain ⟨hset, hwhere⟩ := h.begun hbeg
      exact ⟨hi.trans hset, .inr (hs'.clear (hwhere.resolve_left hnot))⟩
  · cases heq
    exact hd

theorem discontinuity_frame {ok : Bool} (hg : b.discontinuity ok = some (b', frame)) :
    frame = { discontinuity := true } ∧
      b'.playbackSessionActive = b.playbackSessionActive ∧
      b'.playbackRenderStarted = b.playbackRenderStarted ∧
      b'.playbackInterrupted = b.playbackInterrupted ∧ b'.playbackEnded = b.playbackEnded ∧
      (b.playbackSessionActive = false → SameGate b b') ∧
      (b.playbackSessionActive = true → b.aecTailRemaining = 0 → b'.In .waiting) := by
  simp only [Backend.discontinuity] at hg
  split at hg
  case isFalse => cases hg
  cases hg
  cases hs : b.playbackSessionActive with
  | true => exact ⟨rfl, by simp, by simp, by simp, by simp, nofun, fun _ ht => ⟨rfl, rfl, ht⟩⟩
  | false => exact ⟨rfl, hs, rfl, rfl, rfl, fun _ => ⟨rfl, rfl, rfl, rfl⟩, nofun⟩

theorem Follows.no_tail (hf : Follows φ true log) (hb : b.In φ) : b.aecTailRemaining = 0 := by
  cases φ with
  | tailing left => exact absurd (hf.tailing _ (hf.tailed left rfl).2).1 nofun
  | idle => exact hb.2.2
  | waiting => exact hb.2.2
  | warming left => exact hb.2.2

theorem Tracked.gap {ok : Bool} (h : Tracked s) (hcap : s.capturing = none)
    (hg : s.backend.discontinuity ok = some (b, frame)) : Tracked { s with
      backend := b, log := .processed { frame } :: s.log } := by
  obtain ⟨φ, hφ, hf⟩ := h.phase
  obtain ⟨rfl, hsess, hr, hi, he, hout, hin⟩ := discontinuity_frame hg
  have hnot : ¬ s.Taken := fun ⟨_, hk⟩ => by simp [hcap] at hk
  refine ⟨?_, ?_, fun hren => ?_, fun hint => ?_, fun hbeg => ?_, by simp [hcap],
    gated_cons _ h.gated fun p hp => ?_⟩
  · rw [hsess]
    cases hs : s.backend.playbackSessionActive with
    | true =>
      rw [hs] at hf
      exact ⟨.waiting, hin hs (hf.no_tail hφ), hf.gap rfl rfl rfl⟩
    | false =>
      rw [hs] at hf
      exact ⟨φ, (hout hs).phase hφ, hf.gap_outside rfl rfl rfl⟩
  · rw [hi]
    exact h.application
  · rw [hr] at hren
    exact Past.ever_cons.mpr (.inr ⟨nofun, h.rendering hren⟩)
  · simp only [interrupted_processed] at hint
    obtain ⟨hset, hwhere⟩ := h.interrupted hint
    refine ⟨hi.trans hset, ?_⟩
    rcases hwhere with hend | htaken | hc
    · exact .inl (he.trans hend)
    · exact absurd htaken hnot
    · exact .inr (.inr ((hout hc.2).clear hc))
  · simp only [begun_processed] at hbeg
    obtain ⟨hset, hwhere⟩ := h.begun hbeg
    have hc := hwhere.resolve_left hnot
    exact ⟨hi.trans hset, .inr ((hout hc.2).clear hc)⟩
  · cases hp
    exact gated_gap rfl rfl rfl rfl rfl rfl

theorem Tracked.gate {ok ended : Bool} {frame' : CaptureFrame} (h : Tracked s)
    (hcap : s.capturing = some (ended, frame))
    (hu : s.backend.updateNearVoice ended frame ok = some (b, frame')) : Tracked { s with
      backend := b, capturing := none
      log := .processed
        { frame := frame', rendering := s.backend.playbackRenderStarted,
          ended := s.backend.ending ended,
          vadReset := b.gateResets ≠ s.backend.gateResets } :: s.log } := by
  obtain ⟨φ, hφ, hf⟩ := h.phase
  have hd := h.fresh ended frame hcap
  obtain ⟨hb, rfl, hresets, hsess, hr, hi, he⟩ := updateNearVoice_phase hφ hu
  have htaken : s.Taken → ended = true := by
    rintro ⟨_, hk⟩
    rw [hcap] at hk
    cases hk
    rfl
  have hisNone : (s.backend.ending ended).isNone = !ended := by cases ended <;> rfl
  -- where the interruption is still to be seen, this frame sees it
  have hclear : s.backend.playbackInterrupted = true → s.Taken ∨ s.backend.Clear → b.Clear := by
    rintro hset (hk | hc)
    · have hend := htaken hk
      subst hend
      simp only [Backend.ending, hset, if_true, Phase.next] at hb
      exact ⟨hb, by simp [hsess]⟩
    · have hidle := hφ.unique hc.1
      subst hidle
      refine ⟨?_, by simp [hsess, hc.2]⟩
      cases ended with
      | false => simpa [Backend.ending, Phase.next] using hb
      | true => simpa [Backend.ending, hset, Phase.next] using hb
  refine ⟨⟨_, hb, ?_⟩, ?_, fun hren => ?_, fun hint => ?_, fun hbeg => ?_, by simp,
    gated_cons _ h.gated fun p hp => ?_⟩
  · rw [hsess, ← hisNone]
    exact hf.next hd rfl rfl
  · rw [hi]
    exact h.application
  · rw [hr] at hren
    exact Past.ever_cons.mpr (.inr ⟨by simp, h.rendering hren⟩)
  · simp only [interrupted_processed] at hint
    obtain ⟨hset, hwhere⟩ := h.interrupted hint
    exact ⟨hi.trans hset, hwhere.imp he.trans fun hk => .inr (hclear hset hk)⟩
  · simp only [begun_processed] at hbeg
    obtain ⟨hset, hwhere⟩ := h.begun hbeg
    exact ⟨hi.trans hset, .inr (hclear hset hwhere)⟩
  · cases hp
    refine hf.gated hd rfl ?_ h.rendering fun hbeg => ?_
    · rw [hresets]
      simp only [ne_eq, Nat.add_eq_left]
      cases (φ.next (s.backend.ending ended)
        (s.backend.playbackRenderStarted && frame.referenceActive)).2.2 <;> rfl
    · obtain ⟨hset, hwhere⟩ := h.begun hbeg
      cases hend : ended with
      | true => exact .inl (by simp [Backend.ending, hset])
      | false =>
        have hc := hwhere.resolve_left fun hk => by simp [htaken hk] at hend
        exact .inr ⟨by simp [Backend.ending], hφ.unique hc.1⟩

-- ---------------------------------------------------------------------------
-- Every step
-- ---------------------------------------------------------------------------

theorem Tracked.step (h : Tracked s) (hs : (duplex minDbfs).step s act = some t) : Tracked t := by
  cases act with
  | beginPlayback =>
    simp only [duplex, Duplex.step] at hs
    split at hs
    case isTrue hg => cases hs; exact h.beginPlayback hg.2.1 hg.2.2.2
    case isFalse => cases hs
  | render =>
    simp only [duplex, Duplex.step] at hs
    split at hs
    case isTrue hg => cases hs; exact h.render
    case isFalse => cases hs
  | drainPlayback | dropPlayback | finishPlayback =>
    simp only [duplex, Duplex.step] at hs
    split at hs
    case isTrue hg => cases hs; exact h.idle h.application
    case isFalse => cases hs
  | interruptPlayback =>
    simp only [duplex, Duplex.step] at hs
    split at hs
    case isTrue hg => cases hs; exact h.idle (.inr (.inl rfl))
    case isFalse => cases hs
  | applicationStore =>
    simp only [duplex, Duplex.step] at hs
    split at hs
    case h_1 => cases hs
    case h_2 store rest happ => cases hs; exact h.applicationStore happ
  | playerStore =>
    simp only [duplex, Duplex.step] at hs
    split at hs
    case h_1 => cases hs
    case h_2 store rest _ =>
      cases hs
      exact h.store store (h.application.imp id (.imp id (store_interrupted store)))
  | discontinuity ok =>
    simp only [duplex, Duplex.step] at hs
    split at hs
    case isFalse => cases hs
    case isTrue hcap =>
      obtain ⟨⟨b, frame⟩, hg, rfl⟩ := Option.map_eq_some_iff.mp hs
      exact h.gap hcap hg
  | process period =>
    simp only [duplex, Duplex.step] at hs
    split at hs
    case isFalse => cases hs
    case isTrue hcap =>
      obtain ⟨⟨b, frame⟩, hp, rfl⟩ := Option.map_eq_some_iff.mp hs
      exact h.process hcap hp
  | gate ok =>
    simp only [duplex, Duplex.step] at hs
    split at hs
    case h_1 => cases hs
    case h_2 ended frame hcap =>
      obtain ⟨⟨b, frame'⟩, hu, rfl⟩ := Option.map_eq_some_iff.mp hs
      exact h.gate hcap hu
  | resetListener =>
    simp only [duplex, Duplex.step] at hs
    split at hs
    case isFalse => cases hs
    case isTrue =>
      cases hs
      have hsame : SameGate s.backend { s.backend with vad := {} } := ⟨rfl, rfl, rfl, rfl⟩
      exact h.untouched hsame id id id h.application

theorem tracked (h : (duplex minDbfs).Reachable s) : Tracked s := by
  refine h.invariant (fun s h0 => ?_) fun s act t hi hs => hi.step hs
  rw [show s = {} from h0]
  exact .init

/-- A playback with its own sound on the reference and a voice in every frame. -/
def loudPlayback : List DuplexAct :=
  List.flatten [[.beginPlayback, .render], (List.replicate 32 [
    .process { speech := 1, inputDbfs := -20, referenceActive := true }, .gate true]).flatten]

/-- Of each frame, newest first: whether it is a near voice and resets the classifier. -/
def verdicts (log : List Entry) : List (Bool × Bool) :=
  log.flatMap fun
    | .processed p => [(p.frame.nearVoice, p.vadReset)]
    | _ => []

/-- One playback drains and its end is observed; the next one is interrupted at once. -/
def interruptedNext : List DuplexAct :=
  [.beginPlayback, .render, .drainPlayback, .playerStore,
    .process { speech := 0, inputDbfs := -20 }, .gate true, .playerStore, .finishPlayback,
    .beginPlayback, .interruptPlayback, .applicationStore, .applicationStore,
    .process { speech := 1, inputDbfs := -20 }, .gate true]

/-- The newest frame follows a playback that was begun after a natural end and interrupted. -/
def heardNext : List Entry → Bool
  | .processed p :: .begun :: .interrupted :: .prepared :: .processed q :: _ =>
    p.frame.nearVoice = true ∧ q.ended = some .natural
  | _ => false

end BoomPI.Audio
