import Mathlib.Data.List.Induction
import BoomPI.Blocks
import BoomPI.Client.Audio.Backend

/-!
# An utterance starts with the sixth voiced frame and ends with the 35th silent one

The two millisecond counters of `updateVad` are run lengths of the frames heard
since `ResetVad`; which of them counts depends on whether an utterance is open.
-/

namespace BoomPI.Audio

open Blocks (runLength)

variable {minDbfs : Int} {v v' : Vad} {frame : CaptureFrame} {x : Heard} {heard : List Heard}
  {frames : List CaptureFrame}

def Heard.loud (minDbfs : Int) (x : Heard) : Bool := x.webrtcVoice && minDbfs ≤ x.inputDbfs

def Heard.quiet (x : Heard) : Bool := !x.webrtcVoice

inductive Edge
  | started
  | ended
  deriving DecidableEq, Repr

def CaptureFrame.edges (frame : CaptureFrame) : List Edge :=
  (if frame.vadStarted then [.started] else []) ++ if frame.vadEnded then [.ended] else []

def edges (frames : List CaptureFrame) : List Edge := frames.flatMap CaptureFrame.edges

def InSpeech (frames : List CaptureFrame) : Prop := (edges frames).getLast? = some .started

/-- Frame after frame from `ResetVad` on. -/
def listen (minDbfs : Int) (heard : List Heard) : Option (Vad × List CaptureFrame) :=
  heard.foldlM (fun (v, frames) x => (updateVad minDbfs v x).map fun (v, frame) =>
    (v, frames ++ [frame])) ({}, [])

structure Hysteresis (minDbfs : Int) (heard : List Heard) (frames : List CaptureFrame) : Prop where
  one_each : frames.length = heard.length
  starts : ∀ (i : Nat) frame, frames[i]? = some frame → (frame.vadStarted = true ↔
    ¬ InSpeech (frames.take i) ∧ runLength (Heard.loud minDbfs) (heard.take (i + 1)) = 6)
  ends : ∀ (i : Nat) frame, frames[i]? = some frame → (frame.vadEnded = true ↔
    InSpeech (frames.take i) ∧ runLength Heard.quiet (heard.take (i + 1)) = 35)
  alternate : ∀ (k : Nat) edge, (edges frames)[k]? = some edge →
    edge = if k % 2 = 0 then .started else .ended
  /-- 120 ms of loud voice before an utterance is announced -/
  utterance : ∀ (i : Nat) frame, frames[i]? = some frame → frame.vadStarted = true →
    ∃ front block, heard.take (i + 1) = front ++ block ∧ kVadStartMs ≤ kFrameMs * block.length ∧
      ∀ x ∈ block, x.loud minDbfs = true
  /-- 700 ms without voice before its end is -/
  pause : ∀ (i : Nat) frame, frames[i]? = some frame → frame.vadEnded = true →
    ∃ front block, heard.take (i + 1) = front ++ block ∧ kVadEndMs ≤ kFrameMs * block.length ∧
      ∀ x ∈ block, x.quiet = true

-- ---------------------------------------------------------------------------
-- One frame
-- ---------------------------------------------------------------------------

theorem listen_concat (h : listen minDbfs (heard ++ [x]) = some (v', frames)) :
    ∃ v front frame, listen minDbfs heard = some (v, front) ∧
      updateVad minDbfs v x = some (v', frame) ∧ frames = front ++ [frame] := by
  simp only [listen, List.foldlM_append, List.foldlM_cons, List.foldlM_nil, bind_pure,
    Option.bind_eq_bind, Option.bind_eq_some_iff, Option.map_eq_some_iff] at h
  obtain ⟨⟨v, front⟩, hfront, ⟨w, frame⟩, hu, heq⟩ := h
  cases heq
  exact ⟨v, front, frame, hfront, hu, rfl⟩

@[simp] theorem Vad.count_inSpeech (v : Vad) (b : Bool) : (v.count b).inSpeech = v.inSpeech := by
  cases b <;> rfl

theorem updateVad_eq (hu : updateVad minDbfs v x = some (v', frame)) :
    frame.vadNow = v.vadNow minDbfs x ∧
    (frame.vadStarted = true ↔
      v.inSpeech = false ∧ kVadStartMs ≤ (v.count (v.vadNow minDbfs x)).speechMs) ∧
    (frame.vadEnded = true ↔
      v.inSpeech = true ∧ kVadEndMs ≤ (v.count (v.vadNow minDbfs x)).silenceMs) ∧
    v'.speechMs = (v.count (v.vadNow minDbfs x)).speechMs ∧
    v'.silenceMs = (v.count (v.vadNow minDbfs x)).silenceMs ∧
    v'.inSpeech = if v.inSpeech then !frame.vadEnded else frame.vadStarted := by
  simp only [updateVad, Vad.count_inSpeech] at hu
  split at hu
  case isTrue => cases hu
  split at hu
  case isTrue hs =>
    cases hu
    simp [hs]
  split at hu
  case isTrue hs he =>
    cases hu
    simp [he]
  case isFalse hs he =>
    cases hu
    cases hv : v.inSpeech <;> simp_all

-- ---------------------------------------------------------------------------
-- The counters are run lengths
-- ---------------------------------------------------------------------------

/-- Where the classifier stands after the frames. -/
structure Tracks (minDbfs : Int) (heard : List Heard) (frames : List CaptureFrame) (v : Vad) :
    Prop where
  length : frames.length = heard.length
  inSpeech : v.inSpeech = true ↔ InSpeech frames
  idle : v.inSpeech = false → v.speechMs = kFrameMs * runLength (Heard.loud minDbfs) heard ∧
    runLength (Heard.loud minDbfs) heard < 6
  speaking : v.inSpeech = true → v.silenceMs = kFrameMs * runLength Heard.quiet heard ∧
    runLength Heard.quiet heard < 35

theorem Heard.not_quiet (h : x.loud minDbfs = true) : x.quiet = false := by
  simp only [Heard.loud, Bool.and_eq_true] at h
  simp [Heard.quiet, h.1]

theorem Tracks.started (ht : Tracks minDbfs heard frames v)
    (hu : updateVad minDbfs v x = some (v', frame)) : frame.vadStarted = true ↔
      ¬ InSpeech frames ∧ runLength (Heard.loud minDbfs) (heard ++ [x]) = 6 := by
  rw [(updateVad_eq hu).2.1, ← ht.inSpeech]
  cases hv : v.inSpeech with
  | true => simp
  | false =>
    obtain ⟨hms, hlt⟩ := ht.idle hv
    have hnow : v.vadNow minDbfs x = x.loud minDbfs := by simp [Vad.vadNow, hv, Heard.loud]
    rw [Blocks.runLength_concat, hnow]
    cases x.loud minDbfs with
    | false => simp [Vad.count, kVadStartMs]
    | true =>
      simp only [Vad.count, hms, kVadStartMs, kFrameMs, if_true]
      simp
      omega

theorem Tracks.ended (ht : Tracks minDbfs heard frames v)
    (hu : updateVad minDbfs v x = some (v', frame)) : frame.vadEnded = true ↔
      InSpeech frames ∧ runLength Heard.quiet (heard ++ [x]) = 35 := by
  rw [(updateVad_eq hu).2.2.1, ← ht.inSpeech]
  cases hv : v.inSpeech with
  | false => simp
  | true =>
    obtain ⟨hms, hlt⟩ := ht.speaking hv
    have hnow : v.vadNow minDbfs x = !x.quiet := by simp [Vad.vadNow, hv, Heard.quiet]
    rw [Blocks.runLength_concat, hnow]
    cases x.quiet with
    | false => simp [Vad.count, kVadEndMs]
    | true =>
      simp only [Vad.count, hms, kVadEndMs, kFrameMs, Bool.not_true]
      simp
      omega

theorem edges_concat : edges (frames ++ [frame]) = edges frames ++ frame.edges := by
  simp [edges]

theorem inSpeech_concat (hone : ¬ (frame.vadStarted = true ∧ frame.vadEnded = true)) :
    InSpeech (frames ++ [frame]) ↔
      if frame.vadStarted then True else if frame.vadEnded then False else InSpeech frames := by
  unfold InSpeech
  rw [edges_concat, CaptureFrame.edges]
  cases hs : frame.vadStarted <;> cases he : frame.vadEnded <;> simp_all

theorem Vad.count_speechMs (v : Vad) (b : Bool) : (v.count b).speechMs =
    if b then min (v.speechMs + kFrameMs) kVadStartMs else 0 := by
  cases b <;> rfl

theorem Vad.count_silenceMs (v : Vad) (b : Bool) : (v.count b).silenceMs =
    if b then 0 else min (v.silenceMs + kFrameMs) kVadEndMs := by
  cases b <;> rfl

theorem Vad.vadNow_idle (hv : v.inSpeech = false) : v.vadNow minDbfs x = x.loud minDbfs := by
  simp [Vad.vadNow, hv, Heard.loud]

theorem Vad.vadNow_speaking (hv : v.inSpeech = true) : v.vadNow minDbfs x = !x.quiet := by
  simp [Vad.vadNow, hv, Heard.quiet]

theorem Tracks.step (ht : Tracks minDbfs heard frames v)
    (hu : updateVad minDbfs v x = some (v', frame)) :
    Tracks minDbfs (heard ++ [x]) (frames ++ [frame]) v' := by
  have hs := ht.started hu
  have he := ht.ended hu
  have hone : ¬ (frame.vadStarted = true ∧ frame.vadEnded = true) := fun h =>
    (hs.mp h.1).1 (he.mp h.2).1
  obtain ⟨-, -, -, hspeech, hsilence, hin⟩ := updateVad_eq hu
  rw [Vad.count_speechMs] at hspeech
  rw [Vad.count_silenceMs] at hsilence
  rw [← ht.inSpeech, Blocks.runLength_concat] at hs he
  cases hv : v.inSpeech with
  | false =>
    obtain ⟨hms, hlt⟩ := ht.idle hv
    have hnoend : frame.vadEnded = false := by
      cases h : frame.vadEnded
      · rfl
      · exact absurd (he.mp h).1 (by simp [hv])
    rw [Vad.vadNow_idle hv] at hspeech hsilence
    refine ⟨by simp [ht.length], ?_, fun hv' => ?_, fun hv' => ?_⟩
    · rw [inSpeech_concat hone, ← ht.inSpeech, hin, hv, hnoend]
      simp
    · rw [hin, hv] at hv'
      rw [hms] at hspeech
      rw [Blocks.runLength_concat]
      cases hx : x.loud minDbfs with
      | false => simp [hspeech, hx]
      | true =>
        have hshort : runLength (Heard.loud minDbfs) heard + 1 ≠ 6 := fun h =>
          absurd (hs.mpr ⟨by simp [hv], by simpa [hx] using h⟩) (by simpa using hv')
        simp only [hx, if_true, kFrameMs, kVadStartMs] at hspeech ⊢
        omega
    · rw [hin, hv] at hv'
      have hloud : x.loud minDbfs = true := by
        cases hx : x.loud minDbfs with
        | true => rfl
        | false => exact absurd (hs.mp hv').2 (by simp [hx])
      rw [Blocks.runLength_concat, Heard.not_quiet hloud, hsilence, hloud]
      simp
  | true =>
    obtain ⟨hms, hlt⟩ := ht.speaking hv
    have hnostart : frame.vadStarted = false := by
      cases h : frame.vadStarted
      · rfl
      · exact absurd hv (hs.mp h).1
    rw [Vad.vadNow_speaking hv] at hspeech hsilence
    refine ⟨by simp [ht.length], ?_, fun hv' => ?_, fun hv' => ?_⟩
    · rw [inSpeech_concat hone, ← ht.inSpeech, hin, hv, hnostart]
      cases frame.vadEnded <;> simp
    · rw [hin, hv] at hv'
      have hquiet : x.quiet = true := by
        cases hx : x.quiet with
        | true => rfl
        | false => exact absurd (he.mp (by simpa using hv')).2 (by simp [hx])
      have hloud : x.loud minDbfs = false := by
        cases hx : x.loud minDbfs with
        | false => rfl
        | true => exact absurd hquiet (by simp [Heard.not_quiet hx])
      rw [Blocks.runLength_concat, hloud, hspeech, hquiet]
      simp
    · rw [hin, hv] at hv'
      rw [hms] at hsilence
      rw [Blocks.runLength_concat]
      cases hx : x.quiet with
      | false => simp [hsilence, hx]
      | true =>
        have hshort : runLength Heard.quiet heard + 1 ≠ 35 := fun h =>
          absurd (he.mpr ⟨hv, by simpa [hx] using h⟩) (by simpa using hv')
        simp only [hx, if_true, kFrameMs, kVadEndMs, Bool.not_true] at hsilence ⊢
        simp at hsilence
        omega

theorem Tracks.reset : Tracks minDbfs [] [] {} := by
  constructor <;> simp [InSpeech, edges]

theorem tracks (h : listen minDbfs heard = some (v, frames)) : Tracks minDbfs heard frames v := by
  induction heard using List.reverseRec generalizing v frames with
  | nil =>
    cases h
    exact .reset
  | append_singleton heard x ih =>
    obtain ⟨v, front, frame, hfront, hu, rfl⟩ := listen_concat h
    exact (ih hfront).step hu

-- ---------------------------------------------------------------------------
-- The frames of a whole run
-- ---------------------------------------------------------------------------

/-- What one frame says of the frames before it and of all that was heard, each one does. -/
theorem listen_each (P : List CaptureFrame → List Heard → CaptureFrame → Prop)
    (hstep : ∀ heard frames v x v' frame, Tracks minDbfs heard frames v →
      updateVad minDbfs v x = some (v', frame) → P frames (heard ++ [x]) frame)
    (h : listen minDbfs heard = some (v, frames)) (i : Nat) (frame : CaptureFrame)
    (hi : frames[i]? = some frame) : P (frames.take i) (heard.take (i + 1)) frame := by
  induction heard using List.reverseRec generalizing v frames with
  | nil =>
    cases h
    simp at hi
  | append_singleton heard x ih =>
    obtain ⟨v, front, new, hfront, hu, rfl⟩ := listen_concat h
    have ht := tracks hfront
    have hlt : i < (front ++ [new]).length := List.getElem?_eq_some_iff.mp hi |>.1
    rw [List.length_append, List.length_singleton] at hlt
    rcases Nat.lt_succ_iff_lt_or_eq.mp hlt with hold | rfl
    · rw [List.getElem?_append_left hold] at hi
      rw [List.take_append_of_le_length (Nat.le_of_lt hold),
        List.take_append_of_le_length (by rw [← ht.length]; exact hold)]
      exact ih hfront hi
    · rw [List.getElem?_concat_length] at hi
      cases hi
      rw [List.take_left, List.take_of_length_le (by simp [ht.length])]
      exact hstep _ _ _ _ _ _ ht hu

def Alternate (l : List Edge) : Prop :=
  ∀ (k : Nat) edge, l[k]? = some edge → edge = if k % 2 = 0 then .started else .ended

theorem Alternate.getLast? {l : List Edge} (h : Alternate l) :
    l.getLast? = some .started ↔ l.length % 2 = 1 := by
  rw [List.getLast?_eq_getElem?]
  cases hl : l.length with
  | zero => simp [List.length_eq_zero_iff.mp hl]
  | succ n =>
    have hlt : n < l.length := by omega
    have := h n l[n] (List.getElem?_eq_getElem hlt)
    rw [Nat.add_sub_cancel, List.getElem?_eq_getElem hlt, this]
    split <;> simp <;> omega

theorem Alternate.concat {l : List Edge} {edge : Edge} (h : Alternate l)
    (he : edge = .started ↔ l.getLast? ≠ some .started) : Alternate (l ++ [edge]) := by
  intro k e hk
  rw [Ne, h.getLast?] at he
  rcases Nat.lt_or_ge k l.length with hlt | hge
  · rw [List.getElem?_append_left hlt] at hk
    exact h k e hk
  · obtain rfl : k = l.length := by
      have := List.getElem?_eq_some_iff.mp hk |>.1
      simp at this
      omega
    rw [List.getElem?_concat_length] at hk
    cases hk
    cases edge with
    | started => simp [Nat.mod_two_ne_one.mp (he.mp rfl)]
    | ended =>
      have : l.length % 2 = 1 := by simpa using he
      simp [this]

theorem listen_alternate (h : listen minDbfs heard = some (v, frames)) : Alternate (edges frames) := by
  induction heard using List.reverseRec generalizing v frames with
  | nil =>
    cases h
    simp [Alternate, edges]
  | append_singleton heard x ih =>
    obtain ⟨v, front, frame, hfront, hu, rfl⟩ := listen_concat h
    have ht := tracks hfront
    have hs := ht.started hu
    have he := ht.ended hu
    rw [edges_concat, CaptureFrame.edges]
    cases hstart : frame.vadStarted with
    | true =>
      have hidle := (hs.mp hstart).1
      have hnoend : frame.vadEnded = false := by
        cases hend : frame.vadEnded
        · rfl
        · exact absurd (he.mp hend).1 hidle
      rw [hnoend]
      exact (ih hfront).concat (by simpa [InSpeech] using hidle)
    | false =>
      cases hend : frame.vadEnded with
      | true => exact (ih hfront).concat (by simpa [InSpeech] using (he.mp hend).1)
      | false => simpa using ih hfront

theorem vad_hysteresis (h : listen minDbfs heard = some (v, frames)) :
    Hysteresis minDbfs heard frames := by
  have hstarts : ∀ (i : Nat) frame, frames[i]? = some frame → (frame.vadStarted = true ↔
      ¬ InSpeech (frames.take i) ∧ runLength (Heard.loud minDbfs) (heard.take (i + 1)) = 6) :=
    listen_each (fun frames heard frame => frame.vadStarted = true ↔
      ¬ InSpeech frames ∧ runLength (Heard.loud minDbfs) heard = 6)
      (fun _ _ _ _ _ _ ht hu => ht.started hu) h
  have hends : ∀ (i : Nat) frame, frames[i]? = some frame → (frame.vadEnded = true ↔
      InSpeech (frames.take i) ∧ runLength Heard.quiet (heard.take (i + 1)) = 35) :=
    listen_each (fun frames heard frame => frame.vadEnded = true ↔
      InSpeech frames ∧ runLength Heard.quiet heard = 35)
      (fun _ _ _ _ _ _ ht hu => ht.ended hu) h
  refine ⟨(tracks h).length, hstarts, hends, listen_alternate h, fun i frame hi hs => ?_, fun i frame hi he => ?_⟩
  · have hrun := ((hstarts i frame hi).mp hs).2
    obtain ⟨front, block, heq, -, hlen, hall⟩ :=
      Blocks.runLength_endsIn (Heard.loud minDbfs) (heard.take (i + 1))
    exact ⟨front, block, heq, by rw [hlen, hrun]; decide, hall⟩
  · have hrun := ((hends i frame hi).mp he).2
    obtain ⟨front, block, heq, -, hlen, hall⟩ :=
      Blocks.runLength_endsIn Heard.quiet (heard.take (i + 1))
    exact ⟨front, block, heq, by rw [hlen, hrun]; decide, hall⟩

/-- Six loud frames, 35 quiet ones. -/
def oneUtterance : List Heard :=
  List.replicate 6 { speech := 1, inputDbfs := -20 } ++ List.replicate 35 { speech := 0 }

theorem vad_hysteresis_oneUtterance :
    ∃ v frames, listen (-35) oneUtterance = some (v, frames) ∧ edges frames = [.started, .ended] ∧
      Hysteresis (-35) oneUtterance frames := by
  have hrun : (listen (-35) oneUtterance).map (fun p => edges p.2) = some [.started, .ended] := by
    decide +kernel
  obtain ⟨⟨v, frames⟩, h, hedges⟩ := Option.map_eq_some_iff.mp hrun
  exact ⟨v, frames, h, hedges, vad_hysteresis h⟩

end BoomPI.Audio
