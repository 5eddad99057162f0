import Mathlib.Algebra.Order.Ring.Nat
import BoomPI.Cadence
import BoomPI.Server.Device.Hold

/-!
# The clock of the downlink

When the frames of a response are sent: what the pacer keeps is the deadline its
rule computes from the send times, and the forwarder sends no frame before it.
-/

namespace BoomPI.Device

open Backend (Error)
open Cadence (deadline OnTime Rule)
open Protocol
open Session (Event)
open Transport (SendAt SendLabel enqueue)

/-- Up to a full frame late, the next deadline is the cadence or the minimum spacing. -/
theorem nextPacedFrameDeadline_some {due sent : Time} (h : sent < due + outputFrameDuration) :
    nextPacedFrameDeadline (some due) sent =
      max (due + outputFrameDuration) (sent + minimumOutputFrameSpacing) := by
  simp only [nextPacedFrameDeadline, if_neg (Nat.not_le.mpr h)]
  split
  · exact (Nat.max_eq_right (Nat.le_of_lt ‹_›)).symm
  · exact (Nat.max_eq_left (Nat.not_lt.mp ‹_›)).symm

theorem nextPacedFrameDeadline_late {due sent : Time} (h : due + outputFrameDuration ≤ sent) :
    nextPacedFrameDeadline (some due) sent = sent + outputFrameDuration :=
  if_pos h

/-- The rule keeps the media clock, and catches up no faster than the minimum spacing. -/
theorem nextPacedFrameDeadline_rule :
    Rule outputFrameDuration minimumOutputFrameSpacing nextPacedFrameDeadline where
  first _ := rfl
  spaced {due sent} h := by
    rcases Nat.lt_or_ge sent (due + outputFrameDuration) with hlt | hle
    · rw [nextPacedFrameDeadline_some hlt]
      exact Nat.le_max_right ..
    · rw [nextPacedFrameDeadline_late hle]
      exact Nat.add_le_add_left (by decide) _
  within {due sent} h := by
    rcases Nat.lt_or_ge sent (due + outputFrameDuration) with hlt | hle
    · rw [nextPacedFrameDeadline_some hlt]
      exact Nat.max_le.mpr ⟨Nat.add_le_add_right h _, Nat.add_le_add_left (by decide) _⟩
    · rw [nextPacedFrameDeadline_late hle]
  steady {due sent} h := by
    rcases Nat.lt_or_ge sent (due + outputFrameDuration) with hlt | hle
    · rw [nextPacedFrameDeadline_some hlt]
      exact Nat.le_max_left ..
    · rw [nextPacedFrameDeadline_late hle]
      exact Nat.add_le_add_right h _
  rebase h := nextPacedFrameDeadline_late h

-- ---------------------------------------------------------------------------
-- When frames are sent
-- ---------------------------------------------------------------------------

/-- The send times of the frames of a response, newest first: a step of the forwarder
begins a response or queues a frame. -/
def noteFrame (sends : List Time) (now : Time) (f : ForwardAt) (l : ForwardLabel)
    (f' : ForwardAt) : List Time :=
  match f, l, f' with
  | .received _, _, .control _ (.responseStart _) _ => []
  | .sending _ _ (.frame ..), .send .put, _ => now :: sends
  | _, _, _ => sends

def frameTimes (sends : List Time) (s : Sys) (l : Label) (t : Sys) : List Time :=
  match l with
  | .forward l => noteFrame sends s.conn.now s.forward l t.forward
  | _ => sends

def ForwardAt.framing : ForwardAt → Bool
  | .frame | .sending _ _ (.frame ..) => true
  | _ => false

structure Clocked (c : Conn) (p : PacedDownlink) (f : ForwardAt) (sends : List Time) : Prop where
  onTime : OnTime nextPacedFrameDeadline sends
  kept : p.epoch ≠ 0 → p.nextFrameAt = deadline nextPacedFrameDeadline sends
  due : f.framing = true → ∀ due ∈ p.nextFrameAt, due ≤ c.now
  live : f.framing = true → f = .frame ∨ p.epoch ≠ 0

variable {c c' : Conn} {p p' : PacedDownlink} {f f' : ForwardAt} {sends : List Time}

theorem Clocked.keep (hk : Clocked c p f sends) (he : p'.epoch = p.epoch)
    (hn : p'.nextFrameAt = p.nextFrameAt) (hf : f'.framing = false) : Clocked c' p' f' sends where
  onTime := hk.onTime
  kept h := hn.trans (hk.kept (he ▸ h))
  due h := by rw [hf] at h; cases h
  live h := by rw [hf] at h; cases h

theorem Clocked.reset (hk : Clocked c p f sends) (hf : f'.framing = false) :
    Clocked c' p.reset f' sends where
  onTime := hk.onTime
  kept h := absurd rfl h
  due h := by rw [hf] at h; cases h
  live h := by rw [hf] at h; cases h

theorem Clocked.later (hk : Clocked c p f sends) (hn : c.now ≤ c'.now) : Clocked c' p f sends where
  onTime := hk.onTime
  kept := hk.kept
  due h due hd := (hk.due h due hd).trans hn
  live := hk.live

theorem Clocked.sending {s : SendAt} {message : Outbound} {job : Job}
    (hk : Clocked c p (.sending s message job) sends)
    (hf : (ForwardAt.sending s message job).framing = true) : p.epoch ≠ 0 :=
  (hk.live hf).resolve_left (by simp)

theorem closeAligned_clock : (closeAligned p).epoch = p.epoch ∧
    (closeAligned p).nextFrameAt = p.nextFrameAt := by
  unfold closeAligned
  split <;> exact ⟨rfl, rfl⟩

theorem Clocked.top (hk : Clocked c p .top sends) (hf : f'.framing = false) :
    Clocked c (closeAligned (dropStale c.turn p)) f' sends := by
  unfold dropStale
  split
  · have hr : Clocked c p.reset .top sends := hk.reset rfl
    exact hr.keep closeAligned_clock.1 closeAligned_clock.2 hf
  · exact hk.keep closeAligned_clock.1 closeAligned_clock.2 hf

def Forwarded.Clocked (sends : List Time) (r : Forwarded) : Prop :=
  Device.Clocked r.1 r.2.1 r.2.2 sends

theorem finishPacedResponse_clocked (hk : Clocked c p .finish sends) :
    (finishPacedResponse c p).Clocked sends := by
  unfold finishPacedResponse
  split
  · exact hk.keep rfl rfl rfl
  · exact hk.reset rfl

theorem sendNextPacedFrame_clocked (hk : Clocked c p .frame sends) :
    (sendNextPacedFrame c p).Clocked sends := by
  unfold sendNextPacedFrame
  split
  · exact hk.reset rfl
  · rename_i h
    dsimp only
    split
    · exact hk.keep rfl rfl rfl
    · refine ⟨hk.onTime, hk.kept, fun _ => hk.due rfl, fun _ => .inr ?_⟩
      simp only [writable, PacedDownlink.belongsTo, not_or, not_not] at h
      grind

theorem forwardEvent_clocked {turn : ActiveTurn} {event : Event}
    (hk : Clocked c p (.received event) sends) :
    (forwardEvent c p turn event).Clocked
      (noteFrame sends c.now (.received event) .next (forwardEvent c p turn event).2.2) := by
  unfold forwardEvent
  repeat' split
  case h_1.isFalse => exact ⟨trivial, fun _ => rfl, nofun, nofun⟩
  all_goals exact hk.keep rfl rfl rfl

theorem forwardAudio_clocked {turn : ActiveTurn} {event : Event}
    (hk : Clocked c p (.audio turn event) sends) :
    (forwardAudio c p turn event).Clocked sends := by
  unfold forwardAudio
  split
  · exact hk.keep rfl rfl rfl
  · dsimp only
    split <;> exact hk.keep rfl rfl rfl

theorem sendControlIfActive_clocked {turn : ActiveTurn} {body : Body} {pcm : List UInt8}
    (hk : Clocked c p (.control turn body pcm) sends) :
    (sendControlIfActive c p turn body pcm).Clocked sends := by
  unfold sendControlIfActive
  split <;> exact hk.keep rfl rfl rfl

theorem afterSend_clocked {s : SendAt} {message : Outbound} {job : Job}
    (hk : Clocked c p (.sending s message job) sends) :
    Clocked (c.put message) (afterSend c p job).1 (afterSend c p job).2
      (noteFrame sends c.now (.sending s message job) (.send .put) (afterSend c p job).2) := by
  cases job with
  | frame turn payload final =>
    have hlive := hk.sending rfl
    have hf : (if final then ForwardAt.finish else .top).framing = false := by
      cases final <;> rfl
    refine ⟨⟨fun due hdue => hk.due rfl due ?_, hk.onTime⟩, fun _ => ?_, fun h => ?_, fun h => ?_⟩
    · rw [hk.kept hlive]
      exact hdue
    · simp only [afterSend, noteFrame, deadline, hk.kept hlive]
    · exact absurd (hf.symm.trans h) (by simp)
    · exact absurd (hf.symm.trans h) (by simp)
  | control | done => exact hk.keep rfl rfl rfl
  | error => exact hk.reset rfl

theorem afterFailure_clocked {job : Job} {err : Error} (hk : Clocked c p (.failed job err) sends) :
    Clocked c (afterFailure c p err job).1 (afterFailure c p err job).2 sends := by
  unfold afterFailure
  repeat' split
  case h_2.isFalse | h_3.isFalse => exact hk.reset rfl
  all_goals exact hk.keep rfl rfl rfl

theorem noteFrame_sending {now : Time} {s : SendAt} {message : Outbound} {job : Job}
    {l : SendLabel} (hl : l ≠ .put) :
    noteFrame sends now (.sending s message job) (.send l) f' = sends := by
  cases job <;> cases l <;> first | rfl | exact absurd rfl hl

theorem Clocked.failed {s : SendAt} {message : Outbound} {job : Job} {err : Error}
    {l : SendLabel} (hk : Clocked c p (.sending s message job) sends) (hl : l ≠ .put) :
    Clocked c p (.failed job err)
      (noteFrame sends c.now (.sending s message job) (.send l) (.failed job err)) := by
  rw [noteFrame_sending hl]
  exact hk.keep rfl rfl rfl

theorem forwardStep_clocked {l : ForwardLabel} {r : Forwarded} (hk : Clocked c p f sends)
    (hr : forwardStep c p f l = some r) :
    r.Clocked (noteFrame sends c.now f l r.2.2) := by
  unfold forwardStep at hr
  split at hr
  case h_1 =>
    cases hr
    refine hk.top ?_
    split <;> rfl
  case h_2 => cases hr; exact finishPacedResponse_clocked hk
  case h_3 =>
    split at hr <;> cases hr
    · exact hk.keep rfl rfl rfl
    · rename_i hn
      refine ⟨hk.onTime, hk.kept, fun _ due hd => ?_, fun _ => .inl rfl⟩
      rw [hn] at hd
      cases hd
    · rename_i hn
      split
      · rename_i hle
        refine ⟨hk.onTime, hk.kept, fun _ due hd => ?_, fun _ => .inl rfl⟩
        rw [hn] at hd
        exact Option.some.inj hd ▸ hle
      · exact hk.keep rfl rfl rfl
  case h_4 => cases hr; exact sendNextPacedFrame_clocked hk
  case h_9 =>
    split at hr <;> cases hr
    · exact hk.keep rfl rfl rfl
    · exact forwardEvent_clocked hk
  case h_10 => cases hr; exact sendControlIfActive_clocked hk
  case h_11 => cases hr; exact forwardAudio_clocked hk
  case h_14 =>
    rename_i s message job l
    obtain ⟨result, hq, rfl⟩ := Option.map_eq_some_iff.mp hr
    cases s <;> cases l <;> simp only [enqueue, reduceCtorEq] at hq
    case first.encodeFailed =>
      obtain ⟨err, -, rfl⟩ := Option.map_eq_some_iff.mp hq
      exact hk.failed (by simp)
    case first.offer =>
      split at hq <;> cases hq
      rw [noteFrame_sending (by simp)]
      cases job with
      | frame => exact ⟨hk.onTime, hk.kept, fun _ => hk.due rfl, fun _ => .inr (hk.sending rfl)⟩
      | _ => exact hk.keep rfl rfl rfl
    case second.put =>
      split at hq <;> cases hq
      exact afterSend_clocked hk
    all_goals
      split at hq <;> cases hq
      exact hk.failed (by simp)
  case h_15 => cases hr; exact afterFailure_clocked hk
  case h_13 => cases hr; exact hk.keep rfl rfl rfl
  case h_17 => cases hr; exact hk.reset rfl
  case h_16 =>
    split at hr <;> cases hr
    · exact hk.keep rfl rfl rfl
    · exact hk.reset rfl
  case h_7 =>
    split at hr <;> cases hr
    exact hk.keep rfl rfl rfl
  case h_12 =>
    split at hr <;> cases hr <;> exact hk.keep rfl rfl rfl
  case h_5 | h_6 | h_8 =>
    split at hr <;> cases hr
    exact hk.keep rfl rfl rfl
  case h_18 => cases hr

-- ---------------------------------------------------------------------------
-- The session
-- ---------------------------------------------------------------------------

theorem takeCongestion_now {r : Handled} (h : takeCongestion c = some r) : r.1.now = c.now := by
  unfold takeCongestion at h
  split at h <;> cases h
  rfl

theorem take_now {r : Handled} (h : take c = some r) : r.1.now = c.now := by
  unfold take at h
  split at h <;> cases h
  rfl

theorem handleStep_now {h : HandleAt} {l : HandleLabel} {r : Handled}
    (hr : handleStep c h l = some r) : r.1.now = c.now := by
  unfold handleStep at hr
  split at hr
  case h_1 =>
    split at hr <;> cases hr
    · rfl
    · cases ht : takeCongestion c with
      | none => rfl
      | some r => exact takeCongestion_now ht
  case h_3 => exact takeCongestion_now hr
  case h_4 => exact take_now hr
  case h_5 =>
    cases hr
    unfold handleTurnCongestion
    repeat' split
    all_goals rfl
  case h_14 =>
    split at hr
    · cases hr
    · split at hr <;> cases hr <;> rfl
  case h_17 =>
    cases hr
    unfold fence
    split <;> rfl
  case h_30 =>
    obtain ⟨result, -, rfl⟩ := Option.map_eq_some_iff.mp hr
    cases result <;> rfl
  case h_31 => cases hr
  all_goals first
    | cases hr; rfl
    | split at hr <;> cases hr <;> rfl

def Sys.Clocked (s : Sys) (sends : List Time) : Prop :=
  Device.Clocked s.conn s.pacer s.forward sends

theorem clocked_step {s t : Sys} {l : Label} (hk : s.Clocked sends) (hs : step s l = some t) :
    t.Clocked (frameTimes sends s l t) := by
  cases l with
  | forward l =>
    rw [step, Option.map_eq_some_iff] at hs
    obtain ⟨r, hr, rfl⟩ := hs
    exact (forwardStep_clocked hk hr).later (Nat.le_refl _)
  | handle l =>
    rw [step, Option.map_eq_some_iff] at hs
    obtain ⟨r, hr, rfl⟩ := hs
    exact hk.later (Nat.le_of_eq (handleStep_now hr).symm)
  | peer | writePump | emit =>
    rw [step] at hs
    split at hs <;> cases hs
    exact hk.later (Nat.le_refl _)
  | readPump =>
    rw [step] at hs
    split at hs
    · cases hs
    · rw [Option.map_eq_some_iff] at hs
      obtain ⟨r, -, rfl⟩ := hs
      exact hk.later (Nat.le_refl _)
  | tick elapsed =>
    cases hs
    exact hk.later (Nat.le_add_right ..)
  | closeEvents | disconnect | idle =>
    cases hs
    exact hk.later (Nat.le_refl _)

/-- The machine with the send times of the current response. -/
abbrev timed : Lts.Machine (Lts.Machine.Observed Sys (List Time)) Label :=
  machine.observed [] frameTimes

theorem clocked_reachable {o : Lts.Machine.Observed Sys (List Time)} (h : timed.Reachable o) :
    o.state.Clocked o.notes := by
  refine Lts.Machine.observed_invariant (J := fun _ => True) h (fun _ _ => trivial) ?_ ?_
  · rintro s ⟨deviceID, deviceUUID, sessionID, -, -, -, -, rfl⟩
    exact ⟨trivial, nofun, nofun, nofun⟩
  · intro s sends l t _ _ hk hs
    exact clocked_step hk hs

/-- In every run, for every frame of the response: the frames before it were sent at least
15 ms apart, it was sent no earlier than 20 ms for each of them after the first, its
deadline is the one the rule gave, and the next one is 15 to 20 ms away, and 20 ms where
the frame was a full frame late. What the pacer waits for is that next deadline. -/
theorem downlink_clock {o : Lts.Machine.Observed Sys (List Time)} (h : timed.Reachable o) :
    (o.notes.IsChain fun later earlier => earlier + minimumOutputFrameSpacing ≤ later) ∧
    (∀ sent earlier, (sent :: earlier) <:+ o.notes →
      (∀ first ∈ earlier.getLast?, first + earlier.length * outputFrameDuration ≤ sent) ∧
      (∀ due ∈ deadline nextPacedFrameDeadline earlier, due ≤ sent) ∧
      ∃ next, deadline nextPacedFrameDeadline (sent :: earlier) = some next ∧
        sent + minimumOutputFrameSpacing ≤ next ∧ next ≤ sent + outputFrameDuration ∧
        ∀ due ∈ deadline nextPacedFrameDeadline earlier, due + outputFrameDuration ≤ sent →
          next = sent + outputFrameDuration) ∧
    (o.state.pacer.epoch ≠ 0 →
      o.state.pacer.nextFrameAt = deadline nextPacedFrameDeadline o.notes) := by
  have hk := clocked_reachable h
  have hle : minimumOutputFrameSpacing ≤ outputFrameDuration := by decide
  refine ⟨nextPacedFrameDeadline_rule.isChain hle hk.onTime, ?_, hk.kept⟩
  intro sent earlier hsuffix
  have honTime := hk.onTime.suffix hsuffix
  refine ⟨fun first hf => nextPacedFrameDeadline_rule.first_le honTime hf, honTime.1, _, rfl, ?_⟩
  obtain ⟨hlow, hhigh⟩ := nextPacedFrameDeadline_rule.bounds hle honTime rfl
  refine ⟨hlow, hhigh, fun due hd hlate => ?_⟩
  rw [Option.mem_def.mp hd]
  exact nextPacedFrameDeadline_late hlate

/-- Two frames of a response, the second one 25 ms after the first. -/
def twoFrames : List Label :=
  let queues : List Label := [.forward (.send .offer), .forward (.send .put)]
  let sends : List Label := [.forward .next, .forward .next, .forward .next] ++ queues
  let audio := { epoch := 1, raw := {
    type := .audio, responseID := "r", pcm := List.replicate 1920 0, sampleRateHz := 24000 } }
  List.flatten [speaks 1, takes (responseStarted 1), [.forward .next], queues, takes audio,
    [.forward .next, .forward .next], queues, sends,
    [.forward .next, .forward .next, .tick 25000000, .forward .timer], sends]

theorem downlink_clock_twoFrames : ∃ o, timed.run ⟨session, []⟩ twoFrames = some o ∧
    o.notes = [25000000, 0] ∧
    deadline nextPacedFrameDeadline o.notes = some 40000000 ∧
    o.notes.IsChain fun later earlier => earlier + minimumOutputFrameSpacing ≤ later := by
  obtain ⟨o, hrun, hr, ho⟩ := Lts.Machine.exists_of_run timed ⟨session, []⟩ twoFrames
    (fun o => o.notes = [25000000, 0]) ⟨session_init, rfl⟩ (by decide +kernel)
  have ho := of_decide_eq_true ho
  exact ⟨o, hrun, ho, by rw [ho]; rfl, (downlink_clock hr).1⟩

end BoomPI.Device
