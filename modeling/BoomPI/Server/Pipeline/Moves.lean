import BoomPI.Server.Pipeline.History

/-!
# What one step of the pipeline does to the history

`RunMove` lists the ways a step of the session's goroutines can change the
history, the discard flag and the stage of the run.
-/

namespace BoomPI.Pipeline

open Backend (ConversationEvent)

variable {cfg : Config} {act : Act} {s s' : Session} {events events' : List ConversationEvent}

def Stage.early : Stage → Bool
  | .finishing | .failing _ | .ending => false
  | _ => true

def Stage.window : Stage → Option (List ChatMessage)
  | .responding history | .answered history _ => some history
  | _ => none

structure Same (s s' : Session) : Prop where
  history : s'.history = s.history
  flag : s'.lastResponseDiscardable = s.lastResponseDiscardable
  pcm : s'.pcm = s.pcm
  cancelling : s'.cancelling = s.cancelling

inductive RunMove (cfg : Config) (act : Act) (s s' : Session) : Prop
  | aside : Same s s' → (s'.active = s.active ∨
      s'.active = s.active.map fun r => { r with cancelled := true }) → RunMove cfg act s s'
  | going (r r' : Run) : Same s s' → s.active = some r → s'.active = some r' →
      r'.epoch = r.epoch → (r'.stage.early = true → r.stage.early = true) →
      (∀ history, r'.stage.window = some history → r.stage.window = some history) →
      RunMove cfg act s s'
  | copied (r : Run) (t : String) : Same s s' → s.active = some r → r.stage = .reading t →
      s'.active = some { r with stage := .responding (boundedHistory
        (s.history ++ [{ role := .user, content := t, epoch := r.epoch }]) cfg) } →
      RunMove cfg act s s'
  | cleared (r : Run) : act = .clear → s.active = some r → r.stage = .clearing →
      s'.active = some { r with stage := .confirming } → s'.history = [] →
      s'.lastResponseDiscardable = false → s'.pcm = s.pcm → s'.cancelling = s.cancelling →
      RunMove cfg act s s'
  | remembered (r : Run) (history : List ChatMessage) (v : String) : act = .remember →
      s.active = some r → r.stage = .answered history v →
      s'.active = some { r with stage := .finishing } →
      s'.history = boundedHistory
        (history ++ [{ role := .assistant, content := v, epoch := r.epoch }]) cfg →
      s'.lastResponseDiscardable = true → s'.pcm = s.pcm → s'.cancelling = s.cancelling →
      RunMove cfg act s s'
  | ended (r : Run) : Same s s' → s.active = some r → s'.active = none → RunMove cfg act s s'

theorem startRealtimeASRPreparation_same (s : Session) :
    Same s s.startRealtimeASRPreparation ∧ s.startRealtimeASRPreparation.active = s.active := by
  unfold Session.startRealtimeASRPreparation
  split
  · exact ⟨⟨rfl, rfl, rfl, rfl⟩, rfl⟩
  · exact ⟨⟨rfl, rfl, rfl, rfl⟩, rfl⟩

theorem recognized_move {r : Run} {stage : Stage} (hr : s.active = some r)
    (he : r.stage = .recognizing) (hw : stage.window = none) :
    RunMove cfg act s (if r.realtime = true then
      { s with active := some { r with stage } }.startRealtimeASRPreparation
      else { s with active := some { r with stage } }) := by
  split
  · obtain ⟨⟨h1, h2, h3, h4⟩, hact⟩ :=
      startRealtimeASRPreparation_same { s with active := some { r with stage } }
    exact .going r { r with stage } ⟨h1, h2, h3, h4⟩ hr hact rfl (by simp [he, Stage.early])
      (by simp [hw])
  · exact .going r { r with stage } ⟨rfl, rfl, rfl, rfl⟩ hr rfl rfl (by simp [he, Stage.early])
      (by simp [hw])

theorem emit_map {event : ConversationEvent} {t : Session}
    (h : (emit cfg event events).map (fun events => (t, events)) = some (s', events')) : s' = t := by
  rw [Option.map_eq_some_iff] at h
  obtain ⟨_, -, h⟩ := h
  cases h
  rfl

theorem runStep_move {r : Run} (hr : s.active = some r)
    (h : runStep cfg act r s events = some (s', events')) : RunMove cfg act s s' := by
  have same : Same s s := ⟨rfl, rfl, rfl, rfl⟩
  -- the goroutine moves on to a stage that no longer holds a history
  have goto : ∀ stage : Stage, stage.window = none → (stage.early = true → r.stage.early = true) →
      RunMove cfg act s { s with active := some { r with stage } } := fun stage hw he =>
    .going r { r with stage } ⟨rfl, rfl, rfl, rfl⟩ hr rfl rfl he (by simp [hw])
  unfold runStep at h
  simp only at h
  split at h
  · rename_i responseID hs
    have := emit_map h
    subst this
    exact .going r { r with responseID, stage := .recognizing } ⟨rfl, rfl, rfl, rfl⟩ hr rfl rfl
      (by simp [hs, Stage.early]) (by simp [Stage.window])
  · rename_i transcript hs
    split at h <;> cases h <;> exact recognized_move hr hs rfl
  · rename_i err hs
    cases h
    exact recognized_move hr hs rfl
  · rename_i hs
    cases h
    exact .cleared r rfl hr hs rfl rfl rfl rfl rfl
  · rename_i delta hs
    rw [Option.ite_none_right_eq_some] at h
    have := emit_map h.2
    subst this
    exact goto _ rfl (by simp [hs, Stage.early])
  · rename_i transcript hs
    cases h
    exact .copied r transcript ⟨rfl, rfl, rfl, rfl⟩ hr hs rfl
  · have := emit_map h
    subst this
    exact .aside same (.inl rfl)
  · rw [Option.ite_none_left_eq_some] at h
    have := emit_map h.2
    subst this
    exact .aside same (.inl rfl)
  · rw [Option.ite_none_left_eq_some] at h
    have := emit_map h.2
    subst this
    exact .aside same (.inl rfl)
  · rename_i answer history hs
    cases h
    exact .going r { r with stage := .answered history answer } ⟨rfl, rfl, rfl, rfl⟩ hr rfl rfl
      (by simp [hs, Stage.early]) (by simp [hs, Stage.window])
  · rename_i err history hs
    cases h
    exact goto _ rfl (by simp [Stage.early])
  · cases h
    exact goto _ rfl (by simp [Stage.early])
  · cases h
    exact goto _ rfl (by simp [Stage.early])
  · rename_i history answer hs
    cases h
    exact .remembered r history answer rfl hr hs rfl rfl rfl rfl rfl
  · have := emit_map h
    subst this
    exact goto _ rfl (by simp [Stage.early])
  · have := emit_map h
    subst this
    exact goto _ rfl (by simp [Stage.early])
  · split at h <;> cases h
    exact goto _ rfl (by simp [Stage.early])
  · split at h <;> cases h
    exact goto _ rfl (by simp [Stage.early])
  · split at h <;> cases h
    exact goto _ rfl (by simp [Stage.early])
  · split at h <;> cases h
    exact goto _ rfl (by simp [Stage.early])
  · cases h
    exact .ended r ⟨rfl, rfl, rfl, rfl⟩ hr rfl
  · cases h

theorem step_runMove (h : step cfg act s events = some (s', events')) : RunMove cfg act s s' := by
  unfold step at h
  split at h
  · rw [Option.ite_none_right_eq_some] at h
    obtain ⟨-, h⟩ := h
    cases h
    exact .aside ⟨rfl, rfl, rfl, rfl⟩ (.inl rfl)
  · rw [Option.ite_none_right_eq_some] at h
    obtain ⟨-, h⟩ := h
    cases h
    exact .aside ⟨rfl, rfl, rfl, rfl⟩ (.inl rfl)
  · cases h
    exact .aside ⟨rfl, rfl, rfl, rfl⟩ (.inr rfl)
  · split at h
    · exact runStep_move ‹_› h
    · cases h

end BoomPI.Pipeline
