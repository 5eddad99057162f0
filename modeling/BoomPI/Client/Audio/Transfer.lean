import Mathlib.Data.List.Basic

/-!
# The ALSA transfer loops

`WritePlayback` and `ReadCapture20ms`, by what the driver answers round after round.
A write goes on behind the frames the driver has taken, also after a recovery; a read
starts over after one.
-/

namespace BoomPI.Audio

def kCaptureChannels : Nat := 4
def kPlaybackChannels : Nat := 2
def kCapture48Frames : Nat := 960

def EINTR : Int := 4
def EPIPE : Int := 32
def ESTRPIPE : Int := 86

def isXrun (rc : Int) : Bool := rc = -EPIPE || rc = -ESTRPIPE

-- ---------------------------------------------------------------------------
-- Playback
-- ---------------------------------------------------------------------------

/-- What one round of `WritePlayback` meets. -/
structure WriteAnswer where
  /-- `playback_interrupted` in front of the write -/
  interruptedBefore : Bool := false
  rc : Int
  /-- `playback_interrupted` behind it -/
  interrupted : Bool := false
  /-- what `snd_pcm_recover` returns -/
  recovered : Int := 0
  deriving DecidableEq, Repr

/-- A call of `snd_pcm_writei`: the samples handed over, and its result. -/
structure WriteCall where
  samples : List Int16
  rc : Int
  deriving DecidableEq, Repr

def WriteCall.accepted (c : WriteCall) : List Int16 := c.samples.take (kPlaybackChannels * c.rc.toNat)

structure Written where
  ok : Bool
  error : Option (String × Int) := none
  calls : List WriteCall := []
  deriving DecidableEq, Repr

def Written.behind (call : WriteCall) (w : Written) : Written := { w with calls := call :: w.calls }

def Written.accepted (w : Written) : List Int16 := w.calls.flatMap WriteCall.accepted

def stereo (mono : List Int16) : List Int16 := mono.flatMap fun sample => [sample, sample]

/-- The loop; `none` while it waits for the next answer. -/
def writeFrom (samples : List Int16) (frames : Nat) : Nat → List WriteAnswer → Option Written
  | offset, [] => if offset < frames then none else some { ok := true }
  | offset, x :: answers =>
    if offset < frames then
      if x.interruptedBefore then some { ok := false }
      else
        let call : WriteCall :=
          { samples := (samples.drop (kPlaybackChannels * offset)).take
              (kPlaybackChannels * (frames - offset)),
            rc := x.rc }
        Option.map (Written.behind call) <|
          if 0 < x.rc then writeFrom samples frames (offset + x.rc.toNat) answers
          else if x.interrupted then some { ok := false }
          else if x.rc = -EINTR then writeFrom samples frames offset answers
          else if isXrun x.rc then
            if x.recovered < 0 then
              some { ok := false, error := some ("ALSA playback recovery", x.recovered) }
            else writeFrom samples frames offset answers
          else some { ok := false, error := some ("ALSA playback write", x.rc) }
    else some { ok := true }

def writePlayback (mono : List Int16) (answers : List WriteAnswer) : Option Written :=
  writeFrom (stereo mono) mono.length 0 answers

-- ---------------------------------------------------------------------------
-- Capture
-- ---------------------------------------------------------------------------

/-- What one round of `ReadCapture20ms` meets. -/
structure ReadAnswer where
  rc : Int
  /-- the samples a transfer put into the buffer -/
  samples : List Int16 := []
  /-- `capture_interrupted` behind the read -/
  interrupted : Bool := false
  /-- what `snd_pcm_recover` returns -/
  recovered : Int := 0
  deriving DecidableEq, Repr

/-- A call of `snd_pcm_readi`: the frames asked for, its result, and whether the loop
recovered from it. -/
structure ReadCall where
  request : Nat
  rc : Int
  samples : List Int16 := []
  recovered : Bool := false
  deriving DecidableEq, Repr

/-- The driver delivers whole frames, and no more than asked for. -/
structure ReadCall.Granted (c : ReadCall) : Prop where
  count : c.rc.toNat ≤ c.request
  samples : c.samples.length = kCaptureChannels * c.rc.toNat

structure Captured where
  ok : Bool
  error : Option (String × Int) := none
  discontinuity : Bool
  capture48 : List Int16
  calls : List ReadCall := []
  deriving DecidableEq, Repr

def Captured.behind (call : ReadCall) (r : Captured) : Captured := { r with calls := call :: r.calls }

/-- `samples` written into the buffer at `pos`. -/
def overwrite (buffer : List Int16) (pos : Nat) (samples : List Int16) : List Int16 :=
  buffer.take pos ++ samples ++ buffer.drop (pos + samples.length)

/-- The loop; `none` while it waits for the next answer. -/
def readFrom : (offset : Nat) → (discontinuity : Bool) → (capture48 : List Int16) → List ReadAnswer →
    Option Captured
  | offset, discontinuity, capture48, [] =>
    if offset < kCapture48Frames then none else some { ok := true, discontinuity, capture48 }
  | offset, discontinuity, capture48, x :: answers =>
    if offset < kCapture48Frames then
      let call : ReadCall := { request := kCapture48Frames - offset, rc := x.rc }
      if 0 < x.rc then
        (readFrom (offset + x.rc.toNat) discontinuity
          (overwrite capture48 (kCaptureChannels * offset) x.samples) answers).map
            (.behind { call with samples := x.samples })
      else if x.interrupted then some { ok := false, discontinuity, capture48, calls := [call] }
      else if x.rc = -EINTR then (readFrom offset discontinuity capture48 answers).map (.behind call)
      else if isXrun x.rc then
        if x.recovered < 0 then
          some { ok := false, error := some ("ALSA capture recovery", x.recovered), discontinuity, capture48,
                 calls := [call] }
        else (readFrom 0 true capture48 answers).map (.behind { call with recovered := true })
      else
        some { ok := false, error := some ("ALSA capture read", x.rc), discontinuity, capture48,
               calls := [call] }
    else some { ok := true, discontinuity, capture48 }

/-- `capture48` is the buffer as the last period left it, `discontinuity` the variable of the
caller. -/
def readCapture20ms (opened discontinuity : Bool) (capture48 : List Int16) (answers : List ReadAnswer) :
    Option Captured :=
  if opened then readFrom 0 false capture48 answers
  else some { ok := false, discontinuity, capture48 }

variable {samples kept rest : List Int16} {frames offset n : Nat} {w : Written} {r : Captured}
  {call : WriteCall} {calls : List ReadCall} {discontinuity : Bool} {capture48 : List Int16}

-- ---------------------------------------------------------------------------
-- What the driver takes
-- ---------------------------------------------------------------------------

/-- The driver took a beginning of `rest`, and all of it when the write succeeded. -/
structure Written.Takes (w : Written) (rest : List Int16) : Prop where
  begins : w.accepted <+: rest
  whole : w.ok = true → w.accepted = rest

theorem Written.accepted_behind (call : WriteCall) (w : Written) :
    (w.behind call).accepted = call.accepted ++ w.accepted := rfl

theorem Written.Takes.behind (h : w.Takes (rest.drop n)) (hc : call.accepted = rest.take n) :
    (w.behind call).Takes rest where
  begins := by
    rw [accepted_behind, hc]
    conv_rhs => rw [← List.take_append_drop n rest]
    exact (List.prefix_append_right_inj _).mpr h.begins
  whole := by
    intro hok
    rw [accepted_behind, hc, h.whole hok, List.take_append_drop]

theorem accepted_failed (h : ¬ 0 < call.rc) : call.accepted = [] := by
  have hzero : call.rc.toNat = 0 := by omega
  rw [WriteCall.accepted, hzero, Nat.mul_zero, List.take_zero]

theorem Written.Takes.failed (h : w.Takes rest) (hc : ¬ 0 < call.rc) : (w.behind call).Takes rest :=
  h.behind (n := 0) (accepted_failed hc)

theorem Written.Takes.stopped (error : Option (String × Int)) (rest : List Int16) :
    ({ ok := false, error } : Written).Takes rest where
  begins := List.nil_prefix
  whole := nofun

theorem writeFrom_takes (hlength : samples.length = kPlaybackChannels * frames) (answers : List WriteAnswer) :
    ∀ offset w, writeFrom samples frames offset answers = some w →
      w.Takes (samples.drop (kPlaybackChannels * offset)) := by
  have hdone : ∀ offset, ¬ offset < frames →
      ({ ok := true } : Written).Takes (samples.drop (kPlaybackChannels * offset)) := by
    intro offset hoffset
    have hnil : samples.drop (kPlaybackChannels * offset) = [] := by
      rw [List.drop_eq_nil_iff, hlength]
      exact Nat.mul_le_mul_left _ (Nat.not_lt.mp hoffset)
    rw [hnil]
    exact ⟨List.nil_prefix, fun _ => rfl⟩
  induction answers with
  | nil =>
    intro offset w hw
    rw [writeFrom] at hw
    split at hw
    · exact nomatch hw
    · rename_i hoffset
      obtain rfl := Option.some.inj hw
      exact hdone offset hoffset
  | cons x answers ih =>
    intro offset w hw
    rw [writeFrom] at hw
    split at hw
    · rename_i hoffset
      -- a request reaches to the end of the frames
      have hrequest : (samples.drop (kPlaybackChannels * offset)).take
          (kPlaybackChannels * (frames - offset)) = samples.drop (kPlaybackChannels * offset) := by
        apply List.take_of_length_le
        apply Nat.le_of_eq
        rw [List.length_drop, hlength, Nat.mul_sub]
      rw [hrequest] at hw
      split at hw
      · obtain rfl := Option.some.inj hw
        exact .stopped none _
      · obtain ⟨w', hw', rfl⟩ := Option.map_eq_some_iff.mp hw
        split at hw'
        · rename_i hrc
          have htakes := ih _ _ hw'
          have hdrop : samples.drop (kPlaybackChannels * (offset + x.rc.toNat)) =
              (samples.drop (kPlaybackChannels * offset)).drop (kPlaybackChannels * x.rc.toNat) := by
            rw [List.drop_drop, Nat.mul_add]
          rw [hdrop] at htakes
          exact htakes.behind rfl
        · rename_i hrc
          refine Written.Takes.failed ?_ hrc
          split at hw'
          · obtain rfl := Option.some.inj hw'
            exact .stopped none _
          · split at hw'
            · exact ih _ _ hw'
            · split at hw'
              · split at hw'
                · obtain rfl := Option.some.inj hw'
                  exact .stopped _ _
                · exact ih _ _ hw'
              · obtain rfl := Option.some.inj hw'
                exact .stopped _ _
    · rename_i hoffset
      obtain rfl := Option.some.inj hw
      exact hdone offset hoffset

theorem stereo_length (mono : List Int16) : (stereo mono).length = kPlaybackChannels * mono.length := by
  induction mono with
  | nil => rfl
  | cons sample mono ih =>
    have hcons : (stereo (sample :: mono)).length = (stereo mono).length + 2 := by simp [stereo]
    rw [hcons, ih, List.length_cons, Nat.mul_succ]
    rfl

theorem writePlayback_takes {mono : List Int16} {answers : List WriteAnswer}
    (h : writePlayback mono answers = some w) : w.Takes (stereo mono) :=
  writeFrom_takes (stereo_length mono) answers 0 w h

-- ---------------------------------------------------------------------------
-- What the buffer holds
-- ---------------------------------------------------------------------------

/-- The samples behind the last recovery; `kept` are those from before the calls. -/
def runOf (kept : List Int16) (calls : List ReadCall) : List Int16 :=
  calls.foldl (fun run c => if c.recovered then [] else run ++ c.samples) kept

theorem runOf_quiet (h : ∀ c ∈ calls, c.recovered = false) :
    runOf kept calls = kept ++ calls.flatMap ReadCall.samples := by
  induction calls generalizing kept with
  | nil => exact (List.append_nil kept).symm
  | cons c calls ih =>
    rw [List.forall_mem_cons] at h
    rw [runOf, List.foldl_cons, h.1, ← runOf, ih h.2, List.flatMap_cons, ← List.append_assoc]
    rfl

theorem runOf_recovered {before behind : List ReadCall} {c : ReadCall} (hc : c.recovered = true)
    (h : ∀ c ∈ behind, c.recovered = false) :
    runOf kept (before ++ c :: behind) = behind.flatMap ReadCall.samples := by
  rw [runOf, List.foldl_append, List.foldl_cons, hc, if_pos rfl, ← runOf, runOf_quiet h, List.nil_append]

theorem take_overwrite {buffer : List Int16} {pos : Nat} (hpos : pos ≤ buffer.length) :
    (overwrite buffer pos samples).take (pos + samples.length) = buffer.take pos ++ samples := by
  have hlength : (buffer.take pos ++ samples).length = pos + samples.length := by
    rw [List.length_append, List.length_take, Nat.min_eq_left hpos]
  rw [overwrite, ← hlength, List.take_left]

theorem length_overwrite {buffer : List Int16} {pos : Nat} (h : pos + samples.length ≤ buffer.length) :
    (overwrite buffer pos samples).length = buffer.length := by
  rw [overwrite, List.length_append, List.length_append, List.length_take, List.length_drop]
  omega

/-- What a read leaves behind, `kept` being in the buffer when it goes on. -/
structure Captured.Keeps (r : Captured) (discontinuity : Bool) (kept : List Int16) : Prop where
  discontinuity : r.discontinuity = (discontinuity || r.calls.any (·.recovered))
  run : r.ok = true → r.capture48 = runOf kept r.calls
  length : r.capture48.length = kCaptureChannels * kCapture48Frames

theorem Captured.Keeps.stopped (error : Option (String × Int)) (call : ReadCall) (hc : call.recovered = false)
    (hlength : capture48.length = kCaptureChannels * kCapture48Frames) :
    Captured.Keeps { ok := false, error, discontinuity, capture48, calls := [call] } discontinuity kept where
  discontinuity := by simp [hc]
  run := nofun
  length := hlength

/-- A call that delivered `call.samples`, none if it failed. -/
theorem Captured.Keeps.behind {call : ReadCall} (hc : call.recovered = false)
    (h : r.Keeps discontinuity (kept ++ call.samples)) : (r.behind call).Keeps discontinuity kept where
  discontinuity := by
    have hdiscontinuity := h.discontinuity
    simpa [Captured.behind, hc] using hdiscontinuity
  run := by
    intro hok
    have hrun := h.run hok
    simpa [Captured.behind, runOf, hc] using hrun
  length := h.length

theorem Captured.Keeps.recovered {call : ReadCall} (hc : call.recovered = true) (h : r.Keeps true []) :
    (r.behind call).Keeps discontinuity kept where
  discontinuity := by
    have hdiscontinuity := h.discontinuity
    simpa [Captured.behind, hc] using hdiscontinuity
  run := by
    intro hok
    have hrun := h.run hok
    simpa [Captured.behind, runOf, hc] using hrun
  length := h.length

theorem readFrom_keeps (answers : List ReadAnswer) : ∀ offset discontinuity capture48 r,
    offset ≤ kCapture48Frames → capture48.length = kCaptureChannels * kCapture48Frames →
      readFrom offset discontinuity capture48 answers = some r → (∀ c ∈ r.calls, c.Granted) →
        r.Keeps discontinuity (capture48.take (kCaptureChannels * offset)) := by
  have hdone : ∀ offset discontinuity (capture48 : List Int16), offset ≤ kCapture48Frames →
      ¬ offset < kCapture48Frames → capture48.length = kCaptureChannels * kCapture48Frames →
        Captured.Keeps { ok := true, discontinuity, capture48 } discontinuity
          (capture48.take (kCaptureChannels * offset)) := by
    intro offset discontinuity capture48 hle hoffset hlength
    have hwhole : capture48.take (kCaptureChannels * offset) = capture48 := by
      rw [Nat.le_antisymm hle (Nat.not_lt.mp hoffset), ← hlength, List.take_length]
    exact ⟨by simp, fun _ => hwhole.symm, hlength⟩
  induction answers with
  | nil =>
    intro offset discontinuity capture48 r hle hlength hr _
    rw [readFrom] at hr
    split at hr
    · exact nomatch hr
    · rename_i hoffset
      obtain rfl := Option.some.inj hr
      exact hdone offset discontinuity capture48 hle hoffset hlength
  | cons x answers ih =>
    intro offset discontinuity capture48 r hle hlength hr hgranted
    rw [readFrom] at hr
    split at hr
    · rename_i hoffset
      dsimp only at hr
      split at hr
      · rename_i hrc
        obtain ⟨r', hr', rfl⟩ := Option.map_eq_some_iff.mp hr
        rw [Captured.behind, List.forall_mem_cons] at hgranted
        obtain ⟨hcount, hsamples⟩ := hgranted.1
        dsimp only at hcount hsamples
        have hpos : kCaptureChannels * offset + x.samples.length ≤ capture48.length := by
          rw [hsamples, hlength, ← Nat.mul_add]
          exact Nat.mul_le_mul_left _ (by omega)
        have hkeeps := ih _ _ _ r' (by omega) ((length_overwrite hpos).trans hlength) hr' hgranted.2
        rw [Nat.mul_add, ← hsamples, take_overwrite (by omega)] at hkeeps
        exact hkeeps.behind rfl
      · split at hr
        · obtain rfl := Option.some.inj hr
          exact .stopped none _ rfl hlength
        · split at hr
          · obtain ⟨r', hr', rfl⟩ := Option.map_eq_some_iff.mp hr
            rw [Captured.behind, List.forall_mem_cons] at hgranted
            have hkeeps := ih _ _ _ r' hle hlength hr' hgranted.2
            refine Captured.Keeps.behind rfl ?_
            rwa [List.append_nil]
          · split at hr
            · split at hr
              · obtain rfl := Option.some.inj hr
                exact .stopped _ _ rfl hlength
              · obtain ⟨r', hr', rfl⟩ := Option.map_eq_some_iff.mp hr
                rw [Captured.behind, List.forall_mem_cons] at hgranted
                exact .recovered rfl (ih _ _ _ r' (Nat.zero_le _) hlength hr' hgranted.2)
            · obtain rfl := Option.some.inj hr
              exact .stopped _ _ rfl hlength
    · rename_i hoffset
      obtain rfl := Option.some.inj hr
      exact hdone offset discontinuity capture48 hle hoffset hlength

theorem readCapture20ms_keeps {opened : Bool} {answers : List ReadAnswer}
    (hlength : capture48.length = kCaptureChannels * kCapture48Frames)
    (h : readCapture20ms opened discontinuity capture48 answers = some r)
    (hgranted : ∀ c ∈ r.calls, c.Granted) : r.Keeps (!opened && discontinuity) [] := by
  rw [readCapture20ms] at h
  cases opened with
  | true => exact readFrom_keeps answers 0 false capture48 r (Nat.zero_le _) hlength h hgranted
  | false =>
    obtain rfl := Option.some.inj h
    exact ⟨by simp, nofun, hlength⟩

/-- Two frames with an interrupted call, an underrun and a short transfer in between. -/
def sampleWrites : List WriteAnswer := [{ rc := -EINTR }, { rc := 1 }, { rc := -EPIPE }, { rc := 1 }]

def halfPeriod (sample : Int16) : List Int16 := List.replicate (kCaptureChannels * 480) sample

def sampleReads : List ReadAnswer :=
  [{ rc := 480, samples := halfPeriod 7 }, { rc := -EPIPE }, { rc := 480, samples := halfPeriod 1 },
    { rc := 480, samples := halfPeriod 2 }]

def silence : List Int16 := List.replicate (kCaptureChannels * kCapture48Frames) 0

end BoomPI.Audio
