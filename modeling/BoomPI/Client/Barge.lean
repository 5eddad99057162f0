import BoomPI.Blocks
import BoomPI.Client.VoiceClient

/-!
# The barge-in probe

What the frames were that `HandleBarge` saw since the last reset of the probe,
and what is muted meanwhile. Every method of the actor either resets the probe
or leaves it alone.
-/

namespace BoomPI.Client.VoiceClient

open Blocks (EndsIn)

-- ---------------------------------------------------------------------------
-- What a method does to the probe
-- ---------------------------------------------------------------------------

def VoiceState.speaking : VoiceState → Bool
  | .playingResponse | .drainingPlayback => true
  | _ => false

variable {cfg : ClientConfig} {a : Answers} {c c' c'' : VoiceClient} {frame : CaptureFrame}

/-- `ResetBargeProbe` was called. -/
structure Reset (c c' : VoiceClient) : Prop where
  probe : c'.bargeProbe = .idle
  frames : c'.bargeProbeFrames = 0
  cooldown : c'.bargeCooldownFrames = 0
  scales : ∃ scales, c'.playbackScales = c.playbackScales ++ scales ++ [1]

structure Kept (c c' : VoiceClient) : Prop where
  probe : c'.bargeProbe = c.bargeProbe
  frames : c'.bargeProbeFrames = c.bargeProbeFrames
  cooldown : c'.bargeCooldownFrames = c.bargeCooldownFrames
  scales : c'.playbackScales = c.playbackScales
  quiet : c.bargeProbe ≠ .idle → c'.bargeQuietFrames = c.bargeQuietFrames
  state : c.bargeProbe ≠ .idle → VoiceState.speaking c.state = true → VoiceState.speaking c'.state = true

def Carries (c c' : VoiceClient) : Prop := Reset c c' ∨ Kept c c'

theorem Kept.refl (c : VoiceClient) : Kept c c := ⟨rfl, rfl, rfl, rfl, fun _ => rfl, fun _ => id⟩

theorem Kept.trans (h : Kept c c') (h' : Kept c' c'') : Kept c c'' where
  probe := h'.probe.trans h.probe
  frames := h'.frames.trans h.frames
  cooldown := h'.cooldown.trans h.cooldown
  scales := h'.scales.trans h.scales
  quiet := fun hp => (h'.quiet (h.probe ▸ hp)).trans (h.quiet hp)
  state := fun hp hs => h'.state (h.probe ▸ hp) (h.state hp hs)

theorem Kept.reset (h : Kept c c') (h' : Reset c' c'') : Reset c c'' :=
  ⟨h'.probe, h'.frames, h'.cooldown, h.scales ▸ h'.scales⟩

theorem Reset.kept (h : Reset c c') (h' : Kept c' c'') : Reset c c'' :=
  ⟨h'.probe.trans h.probe, h'.frames.trans h.frames, h'.cooldown.trans h.cooldown,
    h'.scales ▸ h.scales⟩

theorem Reset.trans (h : Reset c c') (h' : Reset c' c'') : Reset c c'' := by
  obtain ⟨scales, hs⟩ := h.scales
  obtain ⟨scales', hs'⟩ := h'.scales
  exact ⟨h'.probe, h'.frames, h'.cooldown, scales ++ [1] ++ scales', by rw [hs', hs]; simp⟩

theorem Carries.refl (c : VoiceClient) : Carries c c := .inr (.refl c)

theorem Carries.trans (h : Carries c c') (h' : Carries c' c'') : Carries c c'' := by
  rcases h with h | h <;> rcases h' with h' | h'
  · exact .inl (h.trans h')
  · exact .inl (h.kept h')
  · exact .inl (h.reset h')
  · exact .inr (h.trans h')

theorem Carries.reset (h : Carries c c') (h' : Reset c' c'') : Reset c c'' := by
  rcases h with h | h
  · exact h.trans h'
  · exact h.reset h'

theorem Carries.idle (h : Carries c c') (hi : c.bargeProbe = .idle) : c'.bargeProbe = .idle := by
  rcases h with h | h
  · exact h.probe
  · exact h.probe.trans hi

theorem Kept.of_idle (hi : c.bargeProbe = .idle) (hp : c'.bargeProbe = c.bargeProbe)
    (hf : c'.bargeProbeFrames = c.bargeProbeFrames)
    (hc : c'.bargeCooldownFrames = c.bargeCooldownFrames)
    (hs : c'.playbackScales = c.playbackScales) : Kept c c' :=
  ⟨hp, hf, hc, hs, fun h => absurd hi h, fun h => absurd hi h⟩

theorem Kept.of_eq (hp : c'.bargeProbe = c.bargeProbe)
    (hf : c'.bargeProbeFrames = c.bargeProbeFrames)
    (hc : c'.bargeCooldownFrames = c.bargeCooldownFrames)
    (hs : c'.playbackScales = c.playbackScales) (hq : c'.bargeQuietFrames = c.bargeQuietFrames)
    (hst : c'.state = c.state) : Kept c c' :=
  ⟨hp, hf, hc, hs, fun _ => hq, fun _ h => hst ▸ h⟩

-- ---------------------------------------------------------------------------
-- The methods
-- ---------------------------------------------------------------------------

theorem resetBargeProbe_reset : Reset c c.resetBargeProbe :=
  ⟨rfl, rfl, rfl, [], by simp [resetBargeProbe, setPlaybackScale]⟩

theorem emit_kept (effect : Effect) : Kept c (c.emit effect) := .of_eq rfl rfl rfl rfl rfl rfl

theorem resetListener_kept : Kept c (c.resetListener a) := by
  unfold resetListener
  split
  · exact .refl c
  · exact .of_eq rfl rfl rfl rfl rfl rfl

theorem clearSubtitle_kept : Kept c c.clearSubtitle := .of_eq rfl rfl rfl rfl rfl rfl

theorem showText_kept (delta : String) : Kept c (c.showText delta) :=
  .of_eq rfl rfl rfl rfl rfl rfl

theorem markFirstResponseProgress_kept : Kept c c.markFirstResponseProgress := by
  unfold markFirstResponseProgress
  dsimp only
  split
  · exact .of_eq rfl rfl rfl rfl rfl rfl
  · exact .of_eq rfl rfl rfl rfl rfl rfl

theorem sendControl_kept (kind : ControlKind) (ids : WireIds) :
    Kept c (c.sendControl cfg kind ids).2 := by
  unfold sendControl
  dsimp only
  split
  · exact .of_eq rfl rfl rfl rfl rfl rfl
  · dsimp only [checkQueueCapacity]
    split
    · exact .of_eq rfl rfl rfl rfl rfl rfl
    · exact .of_eq rfl rfl rfl rfl rfl rfl

theorem sendAudio_kept (last : Bool) : Kept c (c.sendAudio frame last).2 := by
  unfold sendAudio
  dsimp only
  split
  · exact .refl c
  · dsimp only [checkQueueCapacity]
    split
    · exact .of_eq rfl rfl rfl rfl rfl rfl
    · exact .of_eq rfl rfl rfl rfl rfl rfl

theorem loseConnection_reset : Reset c (c.loseConnection a) := by
  unfold loseConnection
  refine Reset.kept (Reset.kept ?_ resetListener_kept) (.of_eq rfl rfl rfl rfl rfl rfl)
  exact ⟨rfl, rfl, rfl, [], by simp [emit, clearSubtitle, resetBargeTurn, resetBargeProbe,
    setPlaybackScale]⟩

theorem Kept.lose (h : Kept c c') : Reset c (c'.loseConnection a) := h.reset loseConnection_reset

theorem startConnect_carries (connects : Bool) : Carries c (c.startConnect cfg a connects) := by
  unfold startConnect
  dsimp only
  split
  · split
    · exact .inr (.of_eq rfl rfl rfl rfl rfl rfl)
    · exact .inl (Kept.lose (.of_eq rfl rfl rfl rfl rfl rfl))
  · exact .inl (Kept.lose (.of_eq rfl rfl rfl rfl rfl rfl))

theorem finishConnect_carries : Carries c (c.finishConnect cfg a) := by
  have hk : Kept c (c.sendControl cfg .hello {}).2 := sendControl_kept _ _
  unfold finishConnect
  split
  · exact .refl c
  · generalize c.sendControl cfg .hello {} = r at hk
    obtain ⟨ok, sent⟩ := r
    cases ok
    · exact .inl hk.lose
    · exact .inr (hk.trans (.of_eq rfl rfl rfl rfl rfl rfl))

theorem requestCancel_carries (kind : ControlKind) (ids : WireIds) (hi : c.bargeProbe = .idle) :
    Carries c (c.requestCancel cfg a kind ids) := by
  have hk : Kept c (c.sendControl cfg kind ids).2 := sendControl_kept _ _
  unfold requestCancel
  generalize c.sendControl cfg kind ids = r at hk
  obtain ⟨ok, sent⟩ := r
  cases ok
  · exact .inl hk.lose
  · exact .inr (hk.trans (.of_idle (hk.probe.trans hi) rfl rfl rfl rfl))

theorem giveUp_reset : Reset c c.giveUp :=
  ⟨rfl, rfl, rfl, [], by simp [giveUp, emit, resetBargeTurn, resetBargeProbe, setPlaybackScale]⟩

theorem admitBarge_reset : Reset c c.admitBarge :=
  ⟨rfl, rfl, rfl, [], by simp [admitBarge, emit, clearSubtitle, resetBargeProbe,
    setPlaybackScale]⟩

theorem Reset.carries (h : Reset c c') (h' : Carries c' c'') : Reset c c'' := by
  rcases h' with h' | h'
  · exact h.trans h'
  · exact h.kept h'

theorem abortCurrent_reset : Reset c (c.abortCurrent cfg a) := by
  rw [abortCurrent_eq]
  split
  · exact giveUp_reset.carries (requestCancel_carries _ _ rfl)
  · exact giveUp_reset.carries (requestCancel_carries _ _ rfl)

theorem confirmBarge_reset : Reset c (c.confirmBarge cfg a) :=
  admitBarge_reset.carries (requestCancel_carries _ _ rfl)

theorem Kept.abort (h : Kept c c') : Reset c (c'.abortCurrent cfg a) := h.reset abortCurrent_reset

theorem finishTurn_reset (normal : Bool) : Reset c (c.finishTurn a normal) := by
  unfold finishTurn
  refine Reset.kept (Reset.kept ?_ resetListener_kept) (.of_idle ?_ rfl rfl rfl rfl)
  · cases normal
    all_goals exact ⟨rfl, rfl, rfl, [], by simp [emit, clearSubtitle, advanceTurn, resetBargeTurn,
      resetBargeProbe, setPlaybackScale]⟩
  · cases normal
    all_goals exact resetListener_kept.probe

theorem sendAudioOrRecover_carries (last : Bool) :
    Carries c (c.sendAudioOrRecover cfg a frame last).2 := by
  have hk : Kept c (c.sendAudio frame last).2 := sendAudio_kept _
  unfold sendAudioOrRecover
  generalize c.sendAudio frame last = r at hk
  obtain ⟨outcome, sent⟩ := r
  cases outcome with
  | ok => exact .inr hk
  | backpressure => exact .inl hk.abort
  | rejected => exact .inl hk.lose

theorem waitForResponse_kept (hi : c.bargeProbe = .idle) : Kept c (c.waitForResponse a) :=
  .of_idle hi rfl rfl rfl rfl

theorem sendPreRoll_carries (ended : Bool) (pre : List CaptureFrame) :
    Carries c (c.sendPreRoll cfg a ended pre).2 := by
  induction pre generalizing c with
  | nil => exact .refl c
  | cons frame rest ih =>
    have hk : Carries c (c.sendAudioOrRecover cfg a frame (ended && rest.isEmpty)).2 :=
      sendAudioOrRecover_carries _
    unfold sendPreRoll
    generalize c.sendAudioOrRecover cfg a frame (ended && rest.isEmpty) = r at hk
    obtain ⟨ok, sent⟩ := r
    cases ok
    · exact hk
    · exact hk.trans ih

theorem requestResponse_carries (hi : c.bargeProbe = .idle) :
    Carries c (c.requestResponse cfg a) := by
  have hk : Kept c (c.sendControl cfg .turnCommit c.turnIds).2 := sendControl_kept _ _
  unfold requestResponse
  generalize c.sendControl cfg .turnCommit c.turnIds = r at hk
  obtain ⟨ok, sent⟩ := r
  cases ok
  · exact .inl hk.lose
  · exact .inr (hk.trans (waitForResponse_kept (hk.probe.trans hi)))

theorem commit_carries (hi : c.bargeProbe = .idle) : Carries c (c.commit cfg a frame) := by
  have hk : Carries c (c.sendAudioOrRecover cfg a frame true).2 := sendAudioOrRecover_carries _
  rw [commit_eq]
  generalize c.sendAudioOrRecover cfg a frame true = r at hk
  obtain ⟨ok, sent⟩ := r
  cases ok
  · exact hk
  · exact hk.trans (requestResponse_carries (hk.idle hi))

theorem Kept.commit (h : Kept c c') (hi : c.bargeProbe = .idle) :
    Carries c (c'.commit cfg a frame) :=
  .trans (.inr h) (commit_carries (h.probe.trans hi))

theorem sendBuffered_carries (ended : Bool) (hi : c.bargeProbe = .idle) :
    Carries c (c.sendBuffered cfg a ended) := by
  have hk : Carries c (c.sendPreRoll cfg a ended c.pre).2 := sendPreRoll_carries _ _
  unfold sendBuffered
  split
  · exact .inl loseConnection_reset
  generalize c.sendPreRoll cfg a ended c.pre = r at hk
  obtain ⟨ok, sent⟩ := r
  cases ok
  · exact hk
  · have hpre : Carries c { sent with pre := [] } := hk.trans (.inr (.of_eq rfl rfl rfl rfl rfl rfl))
    dsimp only
    split
    · exact hpre.trans (requestResponse_carries (hpre.idle hi))
    · exact hpre

theorem startTurn_carries (ended : Bool) (hi : c.bargeProbe = .idle) :
    Carries c (c.startTurn cfg a ended) := by
  have hk : Kept c (c.sendControl cfg .turnStart c.turnIds).2 := sendControl_kept _ _
  rw [startTurn_eq]
  split
  · exact .inl loseConnection_reset
  generalize c.sendControl cfg .turnStart c.turnIds = r at hk
  obtain ⟨ok, sent⟩ := r
  cases ok
  · exact .inl hk.lose
  · have hb : Kept c (sent.beginTurn a) :=
      hk.trans (.of_idle (hk.probe.trans hi) rfl rfl rfl rfl)
    exact .trans (.inr hb) (sendBuffered_carries _ (hb.probe.trans hi))

theorem Kept.startTurn (ended : Bool) (h : Kept c c') (hi : c.bargeProbe = .idle) :
    Carries c (c'.startTurn cfg a ended) :=
  .trans (.inr h) (startTurn_carries ended (h.probe.trans hi))

theorem Kept.finish (normal : Bool) (h : Kept c c') : Reset c (c'.finishTurn a normal) :=
  h.reset (finishTurn_reset normal)

theorem resumeAfterBarge_carries (hi : c.bargeProbe = .idle) :
    Carries c (c.resumeAfterBarge cfg a) := by
  unfold resumeAfterBarge
  split
  · exact .inl (finishTurn_reset _)
  · exact Kept.startTurn _ (.of_eq rfl rfl rfl rfl rfl rfl) hi

theorem completeCancel_carries (hi : c.bargeProbe = .idle) : Carries c (c.completeCancel cfg a) := by
  unfold completeCancel
  split
  · exact .inl (finishTurn_reset _)
  split
  · exact resumeAfterBarge_carries hi
  · exact .inl (Kept.finish _ (.of_eq rfl rfl rfl rfl rfl rfl))

theorem beginListening_kept (hi : c.bargeProbe = .idle) : Kept c (c.beginListening a) := by
  unfold beginListening
  refine Kept.trans ?_ resetListener_kept
  exact .of_idle hi rfl rfl rfl rfl

theorem Kept.listen (h : Kept c c') (hi : c.bargeProbe = .idle) :
    Kept c (c'.beginListening a) :=
  h.trans (beginListening_kept (h.probe.trans hi))

-- ---------------------------------------------------------------------------
-- The entries of the actor
-- ---------------------------------------------------------------------------

def ProbePlays (c : VoiceClient) : Prop :=
  c.bargeProbe ≠ .idle → VoiceState.speaking c.state = true

theorem ProbePlays.idle (h : ProbePlays c) (hs : VoiceState.speaking c.state = false) :
    c.bargeProbe = .idle := by
  by_contra hp
  rw [h hp] at hs
  cases hs

theorem handleError_carries (ids : WireIds) (code : String) (hp : ProbePlays c) :
    Carries c (c.handleError cfg a ids code) := by
  have hm : Kept c c.markFirstResponseProgress := markFirstResponseProgress_kept
  unfold handleError
  generalize hd : c.markFirstResponseProgress = d at hm
  have hst : d.state = c.state := by
    subst hd
    unfold markFirstResponseProgress
    dsimp only
    split <;> rfl
  dsimp only
  split
  · exact .inl hm.lose
  split
  · exact .inl hm.lose
  split
  · split
    · exact .inl hm.abort
    · exact .inr hm
  split
  · rename_i hpending
    have hi : c.bargeProbe = .idle := hp.idle (by rw [← hst, hpending]; rfl)
    exact .trans (.inr hm) (completeCancel_carries (hm.probe.trans hi))
  · exact .inl (hm.finish _)

theorem handleInbound_carries (event : Inbound) (hp : ProbePlays c) :
    Carries c (c.handleInbound cfg a event) := by
  have hm : Kept c c.markFirstResponseProgress := markFirstResponseProgress_kept
  have hst : c.markFirstResponseProgress.state = c.state := by
    unfold markFirstResponseProgress
    dsimp only
    split <;> rfl
  unfold handleInbound
  cases event with
  | helloAck ids =>
    refine .inr (Kept.trans ?_ (emit_kept _))
    refine Kept.trans ?_ resetListener_kept
    exact .of_eq rfl rfl rfl rfl rfl rfl
  | responseStart ids =>
    dsimp only
    split
    · exact .inr (.of_eq rfl rfl rfl rfl rfl rfl)
    · exact .inr (.of_eq rfl rfl rfl rfl rfl rfl)
  | textDelta ids text => exact .inr (hm.trans (showText_kept _))
  | audioStart ids =>
    dsimp only
    split
    · exact .inl ⟨rfl, rfl, rfl, [], by simp [resetBargeProbe, setPlaybackScale, emit, hm.scales]⟩
    · exact .inl hm.lose
  | pcm header audio =>
    dsimp only
    split
    · exact .inr (hm.trans (emit_kept _))
    · exact .inl hm.abort
  | done ids =>
    have hend : Kept c (if a.playbackActive then c.markFirstResponseProgress.emit .endPlayback
        else c.markFirstResponseProgress) := by
      split
      · exact hm.trans (emit_kept _)
      · exact hm
    dsimp only
    split
    · exact .inl hend.lose
    · exact .inr (hend.trans ⟨rfl, rfl, rfl, rfl, fun _ => rfl, fun _ _ => rfl⟩)
  | cancelled ids =>
    dsimp only
    split
    · rename_i hpending
      have hi : c.bargeProbe = .idle := hp.idle (by rw [← hst, hpending]; rfl)
      exact .trans (.inr hm) (completeCancel_carries (hm.probe.trans hi))
    · exact .inl (hm.finish _)
  | error ids code text => exact handleError_carries ids code hp

theorem handleEvent_carries (event : QueuedEvent) (hp : ProbePlays c) :
    Carries c (c.handleEvent cfg a event) := by
  have hwait : Kept c { c with stateDeadline := a.now + kResponseWait } :=
    .of_eq rfl rfl rfl rfl rfl rfl
  unfold handleEvent
  split
  · exact .inr (.of_eq rfl rfl rfl rfl rfl rfl)
  · exact handleError_carries _ _ hp
  · split
    · exact .refl c
    · exact .trans (.inr hwait) (handleInbound_carries _ hp)

theorem pollAction_carries (action : DeviceUiAction) : Carries c (c.pollAction cfg a action) := by
  unfold pollAction
  cases action with
  | wake =>
    dsimp only
    split
    · exact .inr (.of_eq rfl rfl rfl rfl rfl rfl)
    · exact .refl c
  | interrupt =>
    dsimp only
    split
    · exact .inl clearSubtitle_kept.abort
    · exact .refl c

theorem advanceDeadlines_carries (hp : ProbePlays c) : Carries c (c.advanceDeadlines cfg a).2 := by
  have hwake (hi : c.bargeProbe = .idle) : Carries c
      (({ c with state := .waitingForWake, pre := [] }.emit (.setState .idle)).resetListener a) := by
    refine .inr (Kept.trans ?_ resetListener_kept)
    exact .of_idle hi rfl rfl rfl rfl
  unfold advanceDeadlines
  split
  · split
    · exact .refl c
    · exact .inl loseConnection_reset
  split
  · exact .inl loseConnection_reset
  split
  · dsimp only
    split
    · exact .inr (.of_eq rfl rfl rfl rfl rfl rfl)
    · exact .inl (finishTurn_reset _)
  split
  · dsimp only
    split
    · rename_i hs
      exact hwake (hp.idle (by rw [hs]; rfl))
    · rename_i hs
      exact hwake (hp.idle (by rw [hs]; rfl))
    · exact .inl loseConnection_reset
    · exact .inl abortCurrent_reset
  split
  · exact .inr (.of_eq rfl rfl rfl rfl rfl rfl)
  · exact .refl c

theorem onGap_carries (hp : ProbePlays c) : Carries c (c.onGap cfg a) := by
  have hwake (hi : c.bargeProbe = .idle) : Carries c
      (({ { c with pre := [] }.emit .dropPlayback with state := .waitingForWake }.emit
        (.setState .idle)).resetListener a) := by
    refine .inr (Kept.trans ?_ resetListener_kept)
    exact .of_idle hi rfl rfl rfl rfl
  unfold onGap
  dsimp only
  split
  · rename_i hs
    exact .inr (.of_idle (hp.idle (by rw [hs]; rfl)) rfl rfl rfl rfl)
  · exact .inl (Kept.abort (.of_eq rfl rfl rfl rfl rfl rfl))
  · exact .inl (Kept.abort (.of_eq rfl rfl rfl rfl rfl rfl))
  · exact .inl (Kept.abort (.of_eq rfl rfl rfl rfl rfl rfl))
  · exact .inl (Kept.abort (.of_eq rfl rfl rfl rfl rfl rfl))
  · rename_i hs
    exact hwake (hp.idle (by rw [hs]; rfl))
  · rename_i hs
    exact hwake (hp.idle (by rw [hs]; rfl))
  · rename_i hs
    exact hwake (hp.idle (by rw [hs]; rfl))

-- ---------------------------------------------------------------------------
-- What the probe has heard
-- ---------------------------------------------------------------------------

/-- Whether `OnFrame` hands the frame to `HandleBarge`. -/
def handles (frame : CaptureFrame) (c : VoiceClient) : Bool :=
  ¬ frame.discontinuity ∧ frame.sequence = c.nextCaptureSequence ∧ c.turnIds.session ≠ 0 ∧
    VoiceState.speaking c.state

/-- What `HandleBarge` makes of a frame it is handed. -/
def verdict (cfg : ClientConfig) (frame : CaptureFrame) (c : VoiceClient) : BargeVerdict :=
  (c.judgeBarge cfg frame).1

/-- `ResetBargeProbe` was called between two states: nothing else restores the scale. -/
def resets (c c' : VoiceClient) : Bool :=
  (c'.playbackScales.drop c.playbackScales.length).contains 1

/-- The frames `HandleBarge` was handed since the last reset of the probe, and whether
that reset was a rejection. -/
structure Handled where
  frames : List CaptureFrame := []
  rejected : Bool := false
  deriving DecidableEq, Repr

def Handled.more (h : Handled) (frame : CaptureFrame) : Handled :=
  { h with frames := h.frames ++ [frame] }

def Handled.note (cfg : ClientConfig) (h : Handled) (c : VoiceClient) (l : Label)
    (c' : VoiceClient) : Handled :=
  match l with
  | .frame _ frame =>
    if handles frame c then
      if resets c c' then
        { rejected := cfg.bargeInEnabled && verdict cfg frame c = .rejected }
      else h.more frame
    else if resets c c' then {} else h
  | _ => if resets c c' then {} else h

/-- `ConfirmBarge` is reached. -/
def confirms (cfg : ClientConfig) (frame : CaptureFrame) (c : VoiceClient) : Prop :=
  handles frame c = true ∧ cfg.bargeInEnabled = true ∧ verdict cfg frame c = .confirmed

def quiet (frame : CaptureFrame) : Prop := frame.referenceActive = false

/-- So many frames of barge voice, behind the cooldown of a rejection. -/
def Candidate (cfg : ClientConfig) (rejected : Bool) (n : Nat) : List CaptureFrame → Prop :=
  EndsIn (fun frame => isBargeVoice cfg frame = true) n fun before =>
    rejected = true → kBargeRetryCooldownFrames ≤ before.length

/-- Behind a candidate at most so many frames, of which the last ones are quiet. -/
def Lowered (cfg : ClientConfig) (rejected : Bool) (frames quietFrames : Nat)
    (handled : List CaptureFrame) : Prop :=
  ∃ n, n + quietFrames ≤ frames ∧
    EndsIn quiet quietFrames (EndsIn (fun _ => True) n (Candidate cfg rejected kBargeCandidateFrames))
      handled

/-- Behind that so many quiet frames. -/
def Cleared (cfg : ClientConfig) (rejected : Bool) (n : Nat) : List CaptureFrame → Prop :=
  EndsIn quiet n (Lowered cfg rejected kBargeReferenceWaitFrames kBargeReferenceLowFrames)

/-- Behind that so many quiet frames of barge voice. -/
def Verified (cfg : ClientConfig) (rejected : Bool) (n : Nat) : List CaptureFrame → Prop :=
  EndsIn (fun frame => isBargeVoice cfg frame = true ∧ quiet frame) n
    (Cleared cfg rejected kBargeEchoClearFrames)

/-- What the counter of the probe stands for, phase by phase. -/
def Evidence (cfg : ClientConfig) (h : Handled) (c : VoiceClient) : Prop :=
  match c.bargeProbe with
  | .idle =>
    c.bargeCooldownFrames = (if h.rejected then kBargeRetryCooldownFrames - h.frames.length else 0) ∧
      (c.bargeCooldownFrames ≠ 0 → c.bargeProbeFrames = 0) ∧
      (c.bargeCooldownFrames = 0 → Candidate cfg h.rejected c.bargeProbeFrames h.frames) ∧
      c.bargeProbeFrames < kBargeCandidateFrames
  | .waitReferenceLow =>
    Lowered cfg h.rejected c.bargeProbeFrames c.bargeQuietFrames h.frames ∧
      c.bargeProbeFrames ≤ kBargeReferenceWaitFrames ∧ c.bargeQuietFrames < kBargeReferenceLowFrames
  | .clear =>
    Cleared cfg h.rejected c.bargeProbeFrames h.frames ∧ c.bargeProbeFrames < kBargeEchoClearFrames
  | .verify =>
    Verified cfg h.rejected c.bargeProbeFrames h.frames ∧ c.bargeProbeFrames < kBargeConfirmFrames

structure ProbeLaw (cfg : ClientConfig) (h : Handled) (c : VoiceClient) : Prop where
  plays : ProbePlays c
  scale : c.playbackScale = if c.bargeProbe = .idle then 1 else 0
  evidence : Evidence cfg h c

variable {h : Handled}

theorem Candidate.start {rejected : Bool} {handled : List CaptureFrame}
    (hback : rejected = true → kBargeRetryCooldownFrames ≤ handled.length) :
    Candidate cfg rejected 0 handled :=
  EndsIn.start hback

theorem ProbeLaw.of_reset (hr : Reset c c') : ProbeLaw cfg {} c' where
  plays := fun hp => absurd hr.probe hp
  scale := by
    obtain ⟨scales, hs⟩ := hr.scales
    simp [playbackScale, hs, hr.probe]
  evidence := by
    simp only [Evidence, hr.probe, hr.frames, hr.cooldown]
    exact ⟨rfl, fun _ => trivial, fun _ => Candidate.start nofun, by decide⟩

theorem ProbeLaw.of_kept (hl : ProbeLaw cfg h c) (hk : Kept c c') : ProbeLaw cfg h c' where
  plays := fun hp => hk.state (hk.probe ▸ hp) (hl.plays (hk.probe ▸ hp))
  scale := by
    rw [playbackScale, hk.scales, hk.probe]
    exact hl.scale
  evidence := by
    have he := hl.evidence
    unfold Evidence at he ⊢
    rw [hk.probe, hk.frames, hk.cooldown]
    cases hp : c.bargeProbe with
    | waitReferenceLow =>
      rw [hk.quiet (by rw [hp]; nofun)]
      simpa only [hp] using he
    | idle | clear | verify => simpa only [hp] using he

theorem Reset.resets (hr : Reset c c') : resets c c' = true := by
  obtain ⟨scales, hs⟩ := hr.scales
  simp [VoiceClient.resets, hs]

theorem Kept.resets (hk : Kept c c') : resets c c' = false := by
  simp [VoiceClient.resets, hk.scales]

/-- A step that hands `HandleBarge` no frame. -/
theorem ProbeLaw.carries (hl : ProbeLaw cfg h c) (hc : Carries c c') :
    ProbeLaw cfg (if resets c c' then {} else h) c' := by
  rcases hc with hr | hk
  · rw [hr.resets, if_pos rfl]
    exact .of_reset hr
  · rw [hk.resets]
    exact hl.of_kept hk

-- ---------------------------------------------------------------------------
-- A frame that is handed to the probe
-- ---------------------------------------------------------------------------

/-- The phase before a candidate: the cooldown, then consecutive frames of barge voice. -/
theorem judgeBarge_idle (hl : ProbeLaw cfg h c) (hs : VoiceState.speaking c.state = true)
    (hp : c.bargeProbe = .idle) : (c.judgeBarge cfg frame).1 = .goesOn ∧
      ProbeLaw cfg (h.more frame) (c.judgeBarge cfg frame).2 ∧
      resets c (c.judgeBarge cfg frame).2 = false := by
  obtain ⟨-, hscale, he⟩ := hl
  simp only [Evidence, hp] at he
  obtain ⟨hcool, hcount, hcand, hlt⟩ := he
  have hmore : (h.more frame).frames.length = h.frames.length + 1 := by simp [Handled.more]
  rw [hp, if_pos rfl] at hscale
  unfold judgeBarge
  simp only [hp]
  split
  · rename_i hne
    have hrej : h.rejected = true := by
      by_contra hn
      rw [if_neg hn] at hcool
      exact hne hcool
    rw [if_pos hrej] at hcool
    refine ⟨rfl, ⟨fun _ => hs, ?_, ?_⟩, by simp [resets]⟩
    · simpa [playbackScale, hp] using hscale
    · simp only [Evidence, hmore]
      refine ⟨?_, fun _ => hcount hne, fun hz => ?_, hlt⟩
      · simp only [Handled.more, hrej, if_true]
        omega
      · rw [hcount hne]
        exact Candidate.start fun _ => by rw [hmore]; omega
  rename_i hz
  have hback : h.rejected = true → kBargeRetryCooldownFrames ≤ h.frames.length := fun hrej => by
    rw [if_pos hrej] at hcool
    omega
  have hcool : c.bargeCooldownFrames =
      if (h.more frame).rejected then kBargeRetryCooldownFrames - (h.more frame).frames.length
      else 0 := by
    rw [hmore, hcool]
    show (if h.rejected = true then _ else _) = if h.rejected = true then _ else _
    split
    · have := hback (by assumption)
      omega
    · rfl
  have hz : c.bargeCooldownFrames = 0 := Decidable.not_not.mp hz
  split
  · refine ⟨rfl, ⟨fun _ => hs, by simpa [playbackScale] using hscale, ?_⟩, by simp [resets]⟩
    simp only [Evidence]
    refine ⟨hcool, fun _ => trivial, fun _ => Candidate.start fun hrej => ?_, by decide⟩
    have := hback hrej
    omega
  rename_i hvoice
  have hsnoc : Candidate cfg h.rejected (c.bargeProbeFrames + 1) (h.more frame).frames :=
    (hcand hz).snoc (Decidable.not_not.mp hvoice)
  split
  · rename_i hlt
    refine ⟨rfl, ⟨fun _ => hs, by simpa [playbackScale] using hscale, ?_⟩, by simp [resets]⟩
    simp only [Evidence]
    exact ⟨hcool, fun hne => absurd hz hne, fun _ => hsnoc, hlt⟩
  · rename_i hge
    have hsix : c.bargeProbeFrames + 1 = kBargeCandidateFrames :=
      Nat.le_antisymm hlt (Nat.le_of_not_lt hge)
    have hlow : Lowered cfg h.rejected 0 0 (h.more frame).frames :=
      ⟨0, Nat.le_refl _, EndsIn.start (EndsIn.start (hsix ▸ hsnoc))⟩
    refine ⟨rfl, ⟨fun _ => hs, ?_, ⟨hlow, Nat.zero_le _, Nat.zero_lt_succ _⟩⟩, ?_⟩
    · simp [playbackScale, setPlaybackScale]
    · simp [resets, setPlaybackScale, keepNewestPreRoll, resetBargeTurn]

/-- While the playback is muted a frame that is not rejected changes only the counters. -/
theorem ProbeLaw.counted {probe : BargeProbe} {n k : Nat} (hl : ProbeLaw cfg h c)
    (hs : VoiceState.speaking c.state = true) (hp : c.bargeProbe ≠ .idle) (hq : probe ≠ .idle)
    (he : Evidence cfg (h.more frame)
      { c with bargeProbe := probe, bargeProbeFrames := n, bargeQuietFrames := k }) :
    ProbeLaw cfg (h.more frame)
        { c with bargeProbe := probe, bargeProbeFrames := n, bargeQuietFrames := k } ∧
      resets c { c with bargeProbe := probe, bargeProbeFrames := n, bargeQuietFrames := k } =
        false := by
  refine ⟨⟨fun _ => hs, ?_, he⟩, by simp [resets]⟩
  have hscale := hl.scale
  rw [if_neg hp] at hscale
  rw [if_neg hq]
  exact hscale

/-- Waiting for the reference: any frame counts, and quiet ones are counted apart. -/
theorem judgeBarge_waitReferenceLow (hl : ProbeLaw cfg h c)
    (hs : VoiceState.speaking c.state = true) (hp : c.bargeProbe = .waitReferenceLow) :
    (c.judgeBarge cfg frame).1 = .rejected ∨ (c.judgeBarge cfg frame).1 = .goesOn ∧
      ProbeLaw cfg (h.more frame) (c.judgeBarge cfg frame).2 ∧
      resets c (c.judgeBarge cfg frame).2 = false := by
  have hne : c.bargeProbe ≠ .idle := by
    rw [hp]
    nofun
  have he := hl.evidence
  simp only [Evidence, hp] at he
  obtain ⟨⟨n, hn, hends⟩, hle, hlt⟩ := he
  unfold judgeBarge
  simp only [hp]
  split
  · exact .inl rfl
  rename_i hwait
  have hwait : c.bargeProbeFrames + 1 ≤ kBargeReferenceWaitFrames := Nat.le_of_not_lt hwait
  have hlow : Lowered cfg h.rejected (c.bargeProbeFrames + 1)
      (if frame.referenceActive then 0 else c.bargeQuietFrames + 1) (h.more frame).frames := by
    split
    · exact ⟨n + c.bargeQuietFrames + 1, by omega, EndsIn.start (hends.join.snoc trivial)⟩
    · rename_i hquiet
      exact ⟨n, by omega, hends.snoc (Bool.eq_false_iff.mpr hquiet)⟩
  have hthree : (if frame.referenceActive then 0 else c.bargeQuietFrames + 1) ≤
      kBargeReferenceLowFrames := by
    split
    · exact Nat.zero_le _
    · exact hlt
  generalize (if frame.referenceActive then 0 else c.bargeQuietFrames + 1) = k at hlow hthree ⊢
  refine .inr ?_
  split
  · rename_i hfew
    exact ⟨rfl, hl.counted hs hne (by simp : BargeProbe.waitReferenceLow ≠ .idle)
      ⟨hlow, hwait, hfew⟩⟩
  · rename_i hmany
    have hthree : k = kBargeReferenceLowFrames :=
      Nat.le_antisymm hthree (Nat.le_of_not_lt hmany)
    have hclear : Cleared cfg h.rejected 0 (h.more frame).frames := by
      obtain ⟨m, hm, hends⟩ := hlow
      rw [hthree] at hm hends
      exact EndsIn.start ⟨m, Nat.le_trans hm hwait, hends⟩
    exact ⟨rfl, hl.counted hs hne (by simp : BargeProbe.clear ≠ .idle)
      ⟨hclear, Nat.zero_lt_succ _⟩⟩

/-- The echo dies away: every frame has to be quiet. -/
theorem judgeBarge_clear (hl : ProbeLaw cfg h c) (hs : VoiceState.speaking c.state = true)
    (hp : c.bargeProbe = .clear) :
    (c.judgeBarge cfg frame).1 = .rejected ∨ (c.judgeBarge cfg frame).1 = .goesOn ∧
      ProbeLaw cfg (h.more frame) (c.judgeBarge cfg frame).2 ∧
      resets c (c.judgeBarge cfg frame).2 = false := by
  have hne : c.bargeProbe ≠ .idle := by
    rw [hp]
    nofun
  have he := hl.evidence
  simp only [Evidence, hp] at he
  obtain ⟨hclear, hlt⟩ := he
  unfold judgeBarge
  simp only [hp]
  split
  · exact .inl rfl
  rename_i hquiet
  have hmore : Cleared cfg h.rejected (c.bargeProbeFrames + 1) (h.more frame).frames :=
    hclear.snoc (Bool.eq_false_iff.mpr hquiet)
  refine .inr ?_
  split
  · rename_i hfew
    exact ⟨rfl, hl.counted hs hne (by simp : BargeProbe.clear ≠ .idle) ⟨hmore, hfew⟩⟩
  · rename_i hmany
    have hthree : c.bargeProbeFrames + 1 = kBargeEchoClearFrames :=
      Nat.le_antisymm hlt (Nat.le_of_not_lt hmany)
    have hverify : Verified cfg h.rejected 0 (h.more frame).frames :=
      EndsIn.start (hthree ▸ hmore)
    exact ⟨rfl, hl.counted hs hne (by simp : BargeProbe.verify ≠ .idle)
      ⟨hverify, Nat.zero_lt_succ _⟩⟩

/-- The utterance is verified: every frame has to be quiet and barge voice. -/
theorem judgeBarge_verify (hl : ProbeLaw cfg h c) (hs : VoiceState.speaking c.state = true)
    (hp : c.bargeProbe = .verify) :
    (c.judgeBarge cfg frame).1 = .rejected ∨
      ((c.judgeBarge cfg frame).1 = .goesOn ∧
        ProbeLaw cfg (h.more frame) (c.judgeBarge cfg frame).2 ∧
        resets c (c.judgeBarge cfg frame).2 = false) ∨
      ((c.judgeBarge cfg frame).1 = .confirmed ∧
        Verified cfg h.rejected kBargeConfirmFrames (h.more frame).frames) := by
  have hne : c.bargeProbe ≠ .idle := by
    rw [hp]
    nofun
  have he := hl.evidence
  simp only [Evidence, hp] at he
  obtain ⟨hverify, hlt⟩ := he
  unfold judgeBarge
  simp only [hp]
  split
  · exact .inl rfl
  rename_i hvoice
  rw [not_or, Decidable.not_not] at hvoice
  have hmore : Verified cfg h.rejected (c.bargeProbeFrames + 1) (h.more frame).frames :=
    hverify.snoc ⟨hvoice.2, Bool.eq_false_iff.mpr hvoice.1⟩
  refine .inr ?_
  split
  · rename_i hfew
    exact .inl ⟨rfl, hl.counted hs hne (by simp : BargeProbe.verify ≠ .idle) ⟨hmore, hfew⟩⟩
  · rename_i hmany
    have hthree : c.bargeProbeFrames + 1 = kBargeConfirmFrames :=
      Nat.le_antisymm hlt (Nat.le_of_not_lt hmany)
    exact .inr ⟨rfl, hthree ▸ hmore⟩

theorem ProbeLaw.judged (frame : CaptureFrame) (hl : ProbeLaw cfg h c) (hs : VoiceState.speaking c.state = true) :
    verdict cfg frame c = .rejected ∨
      (verdict cfg frame c = .goesOn ∧ ProbeLaw cfg (h.more frame) (c.judgeBarge cfg frame).2 ∧
        resets c (c.judgeBarge cfg frame).2 = false) ∨
      (verdict cfg frame c = .confirmed ∧
        Verified cfg h.rejected kBargeConfirmFrames (h.more frame).frames) := by
  cases hp : c.bargeProbe with
  | idle => exact .inr (.inl (judgeBarge_idle hl hs hp))
  | waitReferenceLow => exact (judgeBarge_waitReferenceLow hl hs hp).imp_right .inl
  | clear => exact (judgeBarge_clear hl hs hp).imp_right .inl
  | verify => exact judgeBarge_verify hl hs hp

theorem Kept.verdict (hk : Kept c c') : verdict cfg frame c' = verdict cfg frame c := by
  unfold VoiceClient.verdict judgeBarge
  rw [hk.probe]
  cases hp : c.bargeProbe with
  | idle =>
    dsimp only
    rw [hk.cooldown, hk.frames]
    repeat' split
    all_goals rfl
  | waitReferenceLow =>
    have hq := hk.quiet (by rw [hp]; nofun)
    dsimp only
    rw [hk.frames, hq]
    repeat' split
    all_goals rfl
  | clear | verify =>
    dsimp only
    rw [hk.frames]
    repeat' split
    all_goals rfl

/-- What `bufferFrame` leaves alone. -/
theorem bufferFrame_frame : (c.bufferFrame frame).state = c.state ∧
    (c.bufferFrame frame).turnIds = c.turnIds := by
  unfold bufferFrame savePreRoll
  dsimp only
  repeat' split
  all_goals exact ⟨rfl, rfl⟩

theorem bufferFrame_kept (frame : CaptureFrame) : Kept c (c.bufferFrame frame) := by
  unfold bufferFrame savePreRoll
  dsimp only
  repeat' split
  all_goals exact .of_eq rfl rfl rfl rfl rfl rfl

/-- `OnFrame` for a frame of the probe. -/
theorem onFrame_handled (hh : handles frame c = true) : c.onFrame cfg a frame =
    ({ c with nextCaptureSequence := frame.sequence + 1 }.bufferFrame frame).handleBarge cfg a
      frame := by
  simp only [handles, Bool.decide_and, Bool.and_eq_true, decide_eq_true_eq] at hh
  obtain ⟨hd, hseq, hsession, hs⟩ := hh
  have hstate : c.state = .playingResponse ∨ c.state = .drainingPlayback := by
    revert hs
    cases c.state <;> simp [VoiceState.speaking]
  rcases hstate with hstate | hstate
  · simp [onFrame, dispatchFrame, bufferFrame_frame, hd, hseq, hstate, hsession]
  · simp [onFrame, dispatchFrame, bufferFrame_frame, hd, hseq, hstate, hsession]

theorem trackBargeUtterance_kept : Kept c (c.trackBargeUtterance frame) := by
  unfold trackBargeUtterance
  dsimp only
  repeat' split
  all_goals exact .of_eq rfl rfl rfl rfl rfl rfl

theorem dispatchFrame_carries (hi : c.bargeProbe = .idle)
    (hs : VoiceState.speaking c.state = false) : Carries c (c.dispatchFrame cfg a frame) := by
  unfold dispatchFrame
  split
  · split
    · exact .inr (Kept.listen (.of_eq rfl rfl rfl rfl rfl rfl) hi)
    · split
      · exact .inr (beginListening_kept hi)
      · exact .refl c
  · split
    · exact startTurn_carries _ hi
    · exact .refl c
  · split
    · exact .inr (.of_eq rfl rfl rfl rfl rfl rfl)
    · dsimp only
      split
      · exact Kept.startTurn _ (.of_eq rfl rfl rfl rfl rfl rfl) hi
      · exact .inr (.of_eq rfl rfl rfl rfl rfl rfl)
  · split
    · exact commit_carries hi
    · split
      · exact Kept.commit (.of_eq rfl rfl rfl rfl rfl rfl) hi
      · exact sendAudioOrRecover_carries _
  · rename_i hstate
    rw [hstate] at hs
    cases hs
  · rename_i hstate
    rw [hstate] at hs
    cases hs
  · exact .inr trackBargeUtterance_kept
  · exact .refl c

theorem onFrame_carries (hp : ProbePlays c) (hh : handles frame c = false) :
    Carries c (c.onFrame cfg a frame) := by
  have hnext : Kept c { c with nextCaptureSequence := frame.sequence + 1 } :=
    .of_eq rfl rfl rfl rfl rfl rfl
  have hbuf := hnext.trans (bufferFrame_kept frame)
  unfold onFrame
  dsimp only
  split
  · exact .trans (.inr hnext) (onGap_carries hp)
  rename_i hgap
  split
  · split
    · exact .inr (hbuf.trans resetListener_kept)
    · exact .inr hbuf
  · rename_i hsession
    have hs : VoiceState.speaking c.state = false := by
      rw [bufferFrame_frame.2] at hsession
      simp only [not_or, Decidable.not_not] at hgap
      simpa [handles, hgap, hsession] using hh
    exact .trans (.inr hbuf) (dispatchFrame_carries (hbuf.probe.trans (hp.idle hs))
      (by rw [bufferFrame_frame.1]; exact hs))

/-- `HandleBarge` sets the scale before its last call at most. -/
theorem judgeBarge_scales : ∃ scales,
    (c.judgeBarge cfg frame).2.playbackScales = c.playbackScales ++ scales := by
  unfold judgeBarge
  cases c.bargeProbe with
  | idle =>
    dsimp only
    repeat' split
    all_goals first
      | exact ⟨[], (List.append_nil _).symm⟩
      | exact ⟨[0], rfl⟩
  | waitReferenceLow | clear | verify =>
    dsimp only
    repeat' split
    all_goals exact ⟨[], (List.append_nil _).symm⟩

theorem Reset.of_scales {scales : List Nat} (hr : Reset c' c'')
    (hs : c'.playbackScales = c.playbackScales ++ scales) : Reset c c'' := by
  obtain ⟨scales', hs'⟩ := hr.scales
  exact ⟨hr.probe, hr.frames, hr.cooldown, scales ++ scales', by simp [hs', hs]⟩

theorem ProbeLaw.of_rejected : ProbeLaw cfg { rejected := true } c.rejectBargeProbe where
  plays := fun hp => absurd rfl hp
  scale := by simp [playbackScale, rejectBargeProbe, resetBargeProbe, resetBargeTurn,
    setPlaybackScale]
  evidence := ⟨rfl, fun _ => rfl, fun hz => absurd hz (by simp [rejectBargeProbe,
    kBargeRetryCooldownFrames]), Nat.zero_lt_succ _⟩

theorem ProbeLaw.handleBarge (hl : ProbeLaw cfg h c) (hs : VoiceState.speaking c.state = true) :
    ProbeLaw cfg (if resets c (c.handleBarge cfg a frame) then
        { rejected := cfg.bargeInEnabled && verdict cfg frame c = .rejected }
      else h.more frame) (c.handleBarge cfg a frame) := by
  obtain ⟨scales, hscales⟩ : ∃ scales, (c.judgeBarge cfg frame).2.playbackScales =
    c.playbackScales ++ scales := judgeBarge_scales
  have hj := hl.judged frame hs
  unfold VoiceClient.handleBarge
  split
  · rename_i hoff
    rw [resetBargeProbe_reset.resets, if_pos rfl, Bool.eq_false_iff.mpr hoff]
    exact .of_reset resetBargeProbe_reset
  rename_i hon
  rw [Decidable.not_not.mp hon]
  unfold verdict at hj ⊢
  generalize c.judgeBarge cfg frame = r at hj hscales ⊢
  obtain ⟨v, d⟩ := r
  rcases hj with hv | ⟨hv, hlaw, hno⟩ | ⟨hv, -⟩ <;> simp only at hv <;> subst hv
  · have hreset : resets c d.rejectBargeProbe = true := by
      simp only at hscales
      simp [resets, rejectBargeProbe, resetBargeProbe, resetBargeTurn, setPlaybackScale, hscales]
    dsimp only
    rw [hreset, if_pos rfl]
    exact .of_rejected
  · dsimp only at hno ⊢
    rw [hno]
    exact hlaw
  · have hreset : Reset c (d.confirmBarge cfg a) := confirmBarge_reset.of_scales hscales
    dsimp only
    rw [hreset.resets, if_pos rfl]
    exact .of_reset hreset

-- ---------------------------------------------------------------------------
-- Runs
-- ---------------------------------------------------------------------------

theorem answered_kept : Kept c (c.answered a) := .of_eq rfl rfl rfl rfl rfl rfl

theorem Kept.push (event : QueuedEvent) (h : Kept c c') : Kept c (c'.push event) := by
  refine h.trans ?_
  unfold VoiceClient.push
  split
  · exact .of_eq rfl rfl rfl rfl rfl rfl
  · exact .of_eq rfl rfl rfl rfl rfl rfl

theorem hear_kept (link : Link) (r : Transport × Transport.Outcome) : Kept c (c.hear link r) := by
  obtain ⟨transport, outcome⟩ := r
  cases outcome with
  | dropped => exact .of_eq rfl rfl rfl rfl rfl rfl
  | emit event => exact Kept.push _ (.of_eq rfl rfl rfl rfl rfl rfl)
  | protocolError why => exact Kept.push _ (.of_eq rfl rfl rfl rfl rfl rfl)

/-- Every step resets the probe or leaves it alone, unless it hands it a frame. -/
theorem step_carries {l : Label} (hp : ProbePlays c) (hs : step cfg c l = some c')
    (hl : ∀ a frame, l = .frame a frame → handles frame c = false) : Carries c c' := by
  have hm := step_moves hs
  cases l with
  | opened =>
    obtain ⟨link, -, -, rfl⟩ := hm
    exact .inr (.of_eq rfl rfl rfl rfl rfl rfl)
  | ping =>
    obtain ⟨link, -, rfl⟩ := hm
    exact .inr (.push _ (.refl c))
  | text e | binary e =>
    obtain ⟨link, -, rfl⟩ := hm
    exact .inr (hear_kept _ _)
  | failed why =>
    obtain ⟨link, -, rfl⟩ := hm
    exact .inr (Kept.push _ (.of_eq rfl rfl rfl rfl rfl rfl))
  | connect a connects =>
    obtain ⟨-, rfl⟩ := hm
    exact startConnect_carries _
  | finishConnect a =>
    subst hm
    exact .trans (.inr answered_kept) finishConnect_carries
  | event a =>
    obtain ⟨event, events, -, -, rfl⟩ := hm
    refine .trans (.inr ?_) (handleEvent_carries _ hp)
    exact .of_eq rfl rfl rfl rfl rfl rfl
  | action a action =>
    subst hm
    exact .trans (.inr answered_kept) (pollAction_carries _)
  | overflowed a =>
    subst hm
    exact .inl loseConnection_reset
  | deadlines a =>
    subst hm
    exact .trans (.inr answered_kept) (advanceDeadlines_carries hp)
  | frame a frame =>
    subst hm
    exact .trans (.inr answered_kept) (onFrame_carries hp (hl a frame rfl))
  | skip frame =>
    subst hm
    exact .inr (.of_eq rfl rfl rfl rfl rfl rfl)

theorem step_law {l : Label} (hl : ProbeLaw cfg h c) (hs : step cfg c l = some c') :
    ProbeLaw cfg (h.note cfg c l c') c' := by
  by_cases hh : ∃ a frame, l = .frame a frame ∧ handles frame c = true
  · obtain ⟨a, frame, rfl, hh⟩ := hh
    obtain rfl := step_moves hs
    have hanswered : handles frame (c.answered a) = true := hh
    rw [onFrame_handled hanswered]
    generalize hd : ({ c.answered a with nextCaptureSequence := frame.sequence + 1 } :
      VoiceClient).bufferFrame frame = d
    have hk : Kept c d := by
      rw [← hd]
      refine Kept.trans ?_ (bufferFrame_kept frame)
      exact .of_eq rfl rfl rfl rfl rfl rfl
    have hstate : VoiceState.speaking d.state = true := by
      rw [← hd, bufferFrame_frame.1]
      simp only [handles, Bool.decide_and, Bool.and_eq_true, decide_eq_true_eq] at hh
      exact hh.2.2.2
    have hlaw : ProbeLaw cfg _ (d.handleBarge cfg a frame) := (hl.of_kept hk).handleBarge hstate
    rw [hk.verdict] at hlaw
    simp only [Handled.note, hh, if_true]
    simp only [resets, hk.scales] at hlaw ⊢
    exact hlaw
  · have hother {a : Answers} {frame : CaptureFrame} (he : l = .frame a frame) :
        handles frame c = false := by
      by_contra hn
      exact hh ⟨a, frame, he, Bool.not_eq_false _ ▸ hn⟩
    have hnote : h.note cfg c l c' = if resets c c' then {} else h := by
      cases l with
      | frame a frame => simp [Handled.note, hother rfl]
      | _ => rfl
    rw [hnote]
    exact hl.carries (step_carries hl.plays hs fun a frame he => hother he)

theorem Verified.blocks {rejected : Bool} {handled : List CaptureFrame}
    (hv : Verified cfg rejected kBargeConfirmFrames handled) :
    ∃ before candidate wait low echo words : List CaptureFrame,
      handled = before ++ candidate ++ wait ++ low ++ echo ++ words ∧
      (candidate.length = 6 ∧ ∀ f ∈ candidate, isBargeVoice cfg f = true) ∧
      (wait ++ low).length ≤ 15 ∧ (low.length = 3 ∧ ∀ f ∈ low, f.referenceActive = false) ∧
      (echo.length = 3 ∧ ∀ f ∈ echo, f.referenceActive = false) ∧
      (words.length = 3 ∧ ∀ f ∈ words, isBargeVoice cfg f = true ∧ f.referenceActive = false) ∧
      (rejected = true → 15 ≤ before.length) := by
  obtain ⟨_, words, rfl, ⟨_, echo, rfl, ⟨n, hn, _, low, rfl, ⟨_, wait, rfl, ⟨before, candidate, rfl,
    hback, hcand⟩, hwait, -⟩, hlow⟩, hecho⟩, hwords⟩ := hv
  exact ⟨before, candidate, wait, low, echo, words, rfl, hcand,
    by rw [List.length_append, hwait, hlow.1]; exact hn, hlow, hecho, hwords, hback⟩

theorem Candidate.length_le {n : Nat} {handled : List CaptureFrame}
    (hc : Candidate cfg true n handled) : kBargeRetryCooldownFrames + n ≤ handled.length :=
  EndsIn.length_le hc fun _ hback => hback rfl

theorem Lowered.length_le {n k : Nat} {handled : List CaptureFrame}
    (hl : Lowered cfg true n k handled) :
    kBargeRetryCooldownFrames + kBargeCandidateFrames ≤ handled.length := by
  obtain ⟨m, -, hends⟩ := hl
  have := hends.length_le fun _ hwait => hwait.length_le fun _ hc => Candidate.length_le hc
  omega

theorem Cleared.length_le {n : Nat} {handled : List CaptureFrame}
    (hc : Cleared cfg true n handled) :
    kBargeRetryCooldownFrames + kBargeCandidateFrames ≤ handled.length :=
  Nat.le_of_add_right_le (EndsIn.length_le hc fun _ => Lowered.length_le)

theorem Verified.length_le {n : Nat} {handled : List CaptureFrame}
    (hv : Verified cfg true n handled) :
    kBargeRetryCooldownFrames + kBargeCandidateFrames ≤ handled.length :=
  Nat.le_of_add_right_le (EndsIn.length_le hv fun _ => Cleared.length_le)

theorem ProbeLaw.cooldown (hl : ProbeLaw cfg h c) (hr : h.rejected = true)
    (hle : h.frames.length ≤ kBargeRetryCooldownFrames) :
    c.bargeProbe = .idle ∧ c.bargeProbeFrames = 0 ∧
      c.bargeCooldownFrames = kBargeRetryCooldownFrames - h.frames.length := by
  have hfew : ¬ kBargeRetryCooldownFrames + kBargeCandidateFrames ≤ h.frames.length := fun hn => by
    have := Nat.le_trans hn hle
    exact absurd this (by decide)
  have he := hl.evidence
  unfold Evidence at he
  rw [hr] at he
  cases hp : c.bargeProbe with
  | idle =>
    simp only [hp, if_true] at he
    obtain ⟨hcool, hzero, hcand, -⟩ := he
    refine ⟨rfl, ?_, hcool⟩
    by_cases hz : c.bargeCooldownFrames = 0
    · have := (hcand hz).length_le
      omega
    · exact hzero hz
  | waitReferenceLow =>
    simp only [hp] at he
    exact absurd he.1.length_le hfew
  | clear =>
    simp only [hp] at he
    exact absurd he.1.length_le hfew
  | verify =>
    simp only [hp] at he
    exact absurd he.1.length_le hfew

/-- In every run: the probe runs only while a response is played, and exactly then the
playback is muted; a barge is confirmed only on the complete evidence of consecutive frames;
and the frames after a rejection are not counted. -/
theorem barge_probe_sound (cfg : ClientConfig) {o : Lts.Machine.Observed VoiceClient Handled}
    (h : ((machine cfg).observed {} (Handled.note cfg)).Reachable o) :
    (o.state.bargeProbe ≠ .idle →
      (o.state.state = .playingResponse ∨ o.state.state = .drainingPlayback) ∧
        o.state.playbackScale = 0) ∧
    (o.state.bargeProbe = .idle → o.state.playbackScale = 1) ∧
    (∀ frame, confirms cfg frame o.state →
      ∃ before candidate wait low echo words : List CaptureFrame,
        o.notes.frames ++ [frame] = before ++ candidate ++ wait ++ low ++ echo ++ words ∧
        (candidate.length = 6 ∧ ∀ f ∈ candidate, isBargeVoice cfg f = true) ∧
        (wait ++ low).length ≤ 15 ∧ (low.length = 3 ∧ ∀ f ∈ low, f.referenceActive = false) ∧
        (echo.length = 3 ∧ ∀ f ∈ echo, f.referenceActive = false) ∧
        (words.length = 3 ∧ ∀ f ∈ words, isBargeVoice cfg f = true ∧ f.referenceActive = false) ∧
        (o.notes.rejected = true → 15 ≤ before.length)) ∧
    (o.notes.rejected = true → o.notes.frames.length ≤ 15 →
      o.state.bargeProbe = .idle ∧ o.state.bargeProbeFrames = 0 ∧
        o.state.bargeCooldownFrames = 15 - o.notes.frames.length) := by
  have hl : ProbeLaw cfg o.notes o.state := by
    refine Lts.Machine.observed_invariant (J := fun _ => True) (K := fun s g => ProbeLaw cfg g s) h
      (fun _ _ => trivial) (fun s hinit => ?_) fun s g l t _ _ hl hs => step_law hl hs
    obtain ⟨origin, rfl⟩ := hinit
    exact ⟨fun hp => absurd rfl hp, rfl, rfl, fun _ => rfl, fun _ => Candidate.start nofun,
      Nat.zero_lt_succ _⟩
  refine ⟨fun hp => ⟨?_, ?_⟩, fun hp => ?_, fun frame hc => ?_, fun hr hle => ?_⟩
  · have hplays := hl.plays hp
    revert hplays
    cases o.state.state <;> simp [VoiceState.speaking]
  · exact hl.scale.trans (if_neg hp)
  · exact hl.scale.trans (if_pos hp)
  · obtain ⟨hh, -, hv⟩ := hc
    have hstate : VoiceState.speaking o.state.state = true := by
      simp only [handles, Bool.decide_and, Bool.and_eq_true, decide_eq_true_eq] at hh
      exact hh.2.2.2
    rcases hl.judged frame hstate with hno | ⟨hno, -⟩ | ⟨-, hverified⟩
    · rw [hv] at hno
      cases hno
    · rw [hv] at hno
      cases hno
    · exact hverified.blocks
  · exact hl.cooldown hr hle

-- ---------------------------------------------------------------------------
-- A run
-- ---------------------------------------------------------------------------

def sampleConfig : ClientConfig where
  deviceId := "00000000-0000-4000-8000-000000000001"
  deviceToken := "tokentokentokentokentokentokentoken"
  bargeInEnabled := true
  bargeMinDbfs := -40

def sampleTurn : WireIds := { session := 5, turn := 1, stream := 1, epoch := 1 }

def sampleResponse : WireIds := { sampleTurn with stream := 9 }

/-- A message for the device of `sampleConfig`, and the step that handles its event. -/
def answer (ids : WireIds) (payload : Transport.Payload) : List Label :=
  [.text { deviceId := sampleConfig.deviceId, ids, payload }, .event {}]

def sampleFrame (n : Nat) : CaptureFrame := { sequence := .ofNat n }

/-- Connects, is woken by a touch, and sends a turn of two frames. -/
def sampleTurnRun : List Label :=
  List.flatten [[.connect {} true, .opened, .finishConnect {}],
    answer { session := 5, epoch := 1 } (.helloAck 16000 24000 20),
    [.action {} .wake, .frame {} (sampleFrame 0),
      .frame {} { sampleFrame 1 with vadStarted := true },
      .frame {} { sampleFrame 2 with vadEnded := true }]]

def samplePlayback : List Label :=
  List.flatten [answer sampleResponse (.responseStart "r"),
    answer sampleResponse (.audioStart "r" 24000)]

/-- Near voice over the playback, the reference dying away, and the voice again. -/
def sampleBarge : List Label :=
  List.flatten [
    (List.range 6).map fun n => .frame {}
      { sampleFrame (3 + n) with nearVoice := true, voiceDbfs := -20, referenceActive := true },
    (List.range 6).map fun n => .frame {} (sampleFrame (9 + n)),
    (List.range 2).map fun n => .frame {}
      { sampleFrame (15 + n) with nearVoice := true, voiceDbfs := -20 }]

def sampleVoice : CaptureFrame := { sampleFrame 17 with nearVoice := true, voiceDbfs := -20 }

instance (cfg : ClientConfig) (frame : CaptureFrame) (c : VoiceClient) :
    Decidable (confirms cfg frame c) :=
  inferInstanceAs (Decidable (_ ∧ _ ∧ _))

/-- A barge that the next frame confirms. -/
theorem barge_probe_confirmed : ∃ o : Lts.Machine.Observed VoiceClient Handled,
    o.state.bargeProbe ≠ .idle ∧ o.state.playbackScale = 0 ∧
    confirms sampleConfig sampleVoice o.state ∧
    ∃ before candidate wait low echo words : List CaptureFrame,
      o.notes.frames ++ [sampleVoice] = before ++ candidate ++ wait ++ low ++ echo ++ words ∧
        candidate.length = 6 ∧ words.length = 3 := by
  obtain ⟨o, -, hreach, hp⟩ := Lts.Machine.exists_of_run
    ((machine sampleConfig).observed {} (Handled.note sampleConfig)) ⟨{}, {}⟩
    (sampleTurnRun ++ samplePlayback ++ sampleBarge)
    (fun o => decide (o.state.bargeProbe = .verify ∧ confirms sampleConfig sampleVoice o.state))
    ⟨⟨0, rfl⟩, rfl⟩ (by decide +kernel)
  obtain ⟨hprobe, hc⟩ := of_decide_eq_true hp
  have hne : o.state.bargeProbe ≠ .idle := by
    rw [hprobe]
    nofun
  obtain ⟨hplays, -, hconfirm, -⟩ := barge_probe_sound sampleConfig hreach
  obtain ⟨before, candidate, wait, low, echo, words, heq, hcand, -, -, -, hwords, -⟩ := hconfirm _ hc
  exact ⟨o, hne, (hplays hne).2, hc, before, candidate, wait, low, echo, words, heq, hcand.1,
    hwords.1⟩

end BoomPI.Client.VoiceClient
