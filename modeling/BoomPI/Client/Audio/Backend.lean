import BoomPI.Lts

/-!
# The audio backend: voice activity and the near-voice gate

`rv1106/audio_backend.cpp`. The capture thread classifies one 20 ms frame after
the other; the gate keeps the speaker's own sound from counting as a near voice.
It learns about the playback through three atomics, which the playback thread and
the application write while a frame is being processed. The vendor libraries
(WebRTC VAD, 3A, Snowboy) answer with what a `Period` holds.
-/

namespace BoomPI.Audio

def kFrameMs : Nat := 20
def kVadStartMs : Nat := 120
def kVadEndMs : Nat := 700
def kAecWarmupFrames : Nat := 30
def kAecTailFrames : Nat := 15

abbrev VoiceFrame16k := Vector Int16 320

/-- A frame for the application; the levels on an integer scale. -/
structure CaptureFrame where
  pcm : VoiceFrame16k := .replicate 320 0
  sequence : UInt64 := 0
  inputDbfs : Int := -120
  voiceDbfs : Int := -120
  wake : Bool := false
  vadNow : Bool := false
  vadStarted : Bool := false
  vadEnded : Bool := false
  discontinuity : Bool := false
  actorOverrun : Bool := false
  nearVoice : Bool := false
  referenceActive : Bool := false
  deriving DecidableEq, Repr

-- ---------------------------------------------------------------------------
-- Voice activity
-- ---------------------------------------------------------------------------

/-- `vad_speech_ms`, `vad_silence_ms` and `vad_in_speech`, as `ResetVad` leaves them. -/
structure Vad where
  speechMs : Nat := 0
  silenceMs : Nat := 0
  inSpeech : Bool := false
  deriving DecidableEq, Repr

/-- What `ProcessCapture20ms` knows of a frame when it calls `UpdateVad`; `speech` is
what `WebRtcVad_Process` returns. -/
structure Heard where
  speech : Int
  inputDbfs : Int := -120
  voiceDbfs : Int := -120
  wake : Bool := false
  referenceActive : Bool := false
  deriving DecidableEq, Repr

def Heard.webrtcVoice (x : Heard) : Bool := x.speech = 1

/-- The threshold admits an utterance; inside one the classifier alone decides. -/
def Vad.vadNow (v : Vad) (minDbfs : Int) (x : Heard) : Bool :=
  if v.inSpeech then x.webrtcVoice else x.webrtcVoice && minDbfs ≤ x.inputDbfs

def Vad.count (v : Vad) (vadNow : Bool) : Vad :=
  if vadNow then { v with speechMs := min (v.speechMs + kFrameMs) kVadStartMs, silenceMs := 0 }
  else { v with speechMs := 0, silenceMs := min (v.silenceMs + kFrameMs) kVadEndMs }

/-- `UpdateVad`, on the fresh frame. -/
def updateVad (minDbfs : Int) (v : Vad) (x : Heard) : Option (Vad × CaptureFrame) :=
  if x.speech < 0 then none
  else
    let vadNow := v.vadNow minDbfs x
    let frame : CaptureFrame :=
      { inputDbfs := x.inputDbfs, voiceDbfs := x.voiceDbfs, wake := x.wake,
        referenceActive := x.referenceActive, vadNow }
    let v := v.count vadNow
    if v.inSpeech = false ∧ kVadStartMs ≤ v.speechMs then
      some ({ v with inSpeech := true }, { frame with vadStarted := true })
    else if v.inSpeech = true ∧ kVadEndMs ≤ v.silenceMs then
      some ({ v with inSpeech := false }, { frame with vadEnded := true })
    else some (v, frame)

-- ---------------------------------------------------------------------------
-- The near-voice gate
-- ---------------------------------------------------------------------------

/-- `AudioBackend::Impl`. The three flags before the last field are its atomics;
`gateResets` is a ghost: how often the gate has called `ResetVad`. -/
structure Backend where
  vad : Vad := {}
  aecWarmupRemaining : Nat := 0
  aecTailRemaining : Nat := 0
  delayedInputDbfs : Int := -120
  delayedReferenceActive : Bool := false
  playbackSessionActive : Bool := false
  aecWarmupArmed : Bool := false
  playbackRenderStarted : Bool := false
  playbackInterrupted : Bool := false
  playbackEnded : Bool := false
  gateResets : Nat := 0
  deriving DecidableEq, Repr

/-- What the microphones, the reference and the vendor libraries give in 20 ms. -/
structure Period where
  speech : Int
  inputDbfs : Int := -120
  voiceDbfs : Int := -120
  referenceActive : Bool := false
  wake : Bool := false
  processed : VoiceFrame16k := .replicate 320 0
  deriving DecidableEq, Repr

/-- `ProcessCapture20ms` up to the gate. The 3A output is one period behind, so the level
and the reference of the period before belong to it. -/
def Backend.process (b : Backend) (minDbfs : Int) (p : Period) : Option (Backend × CaptureFrame) :=
  let x : Heard :=
    { speech := p.speech, inputDbfs := b.delayedInputDbfs, voiceDbfs := p.voiceDbfs, wake := p.wake,
      referenceActive := b.delayedReferenceActive }
  (updateVad minDbfs b.vad x).map fun (vad, frame) =>
    ({ b with vad, delayedInputDbfs := p.inputDbfs, delayedReferenceActive := p.referenceActive },
      { frame with pcm := p.processed })

/-- `ProcessCapture20ms(true, …)`; `ok` is whether the front end could be reset. -/
def Backend.discontinuity (b : Backend) (ok : Bool) : Option (Backend × CaptureFrame) :=
  let b :=
    if b.playbackSessionActive then { b with aecWarmupArmed := true, aecWarmupRemaining := 0 } else b
  if ok then
    some ({ b with vad := {}, delayedInputDbfs := -120, delayedReferenceActive := false },
      { discontinuity := true })
  else none

def Backend.resetVad (b : Backend) (ok : Bool) : Option Backend :=
  if ok then some { b with vad := {}, gateResets := b.gateResets + 1 } else none

/-- The first half of `UpdateNearVoice`, after the exchange gave `ended`: the new state and
whether the frame is suppressed already. -/
def Backend.observe (b : Backend) (ended : Bool) (frame : CaptureFrame) : Backend × Bool :=
  if ended then
    let b :=
      { b with playbackSessionActive := false, aecWarmupArmed := false, aecWarmupRemaining := 0 }
    if b.playbackInterrupted then ({ b with aecTailRemaining := 0 }, false)
    else ({ b with aecTailRemaining := kAecTailFrames }, true)
  else if b.aecWarmupArmed then
    if b.playbackRenderStarted ∧ frame.referenceActive then
      ({ b with aecWarmupArmed := false, aecWarmupRemaining := kAecWarmupFrames }, true)
    else (b, true)
  else (b, false)

def Backend.countWarmup (b : Backend) (ok : Bool) : Option Backend :=
  if b.aecWarmupRemaining ≠ 0 then
    let b := { b with aecWarmupRemaining := b.aecWarmupRemaining - 1 }
    if b.aecWarmupRemaining = 0 then b.resetVad ok else some b
  else some b

def Backend.countTail (b : Backend) (ok : Bool) : Option Backend :=
  if b.aecTailRemaining ≠ 0 then
    let b := { b with aecTailRemaining := b.aecTailRemaining - 1 }
    if b.aecTailRemaining = 0 then b.resetVad ok else some b
  else some b

/-- `UpdateNearVoice` from the exchange on; `ok` is what `ResetVad` answers. -/
def Backend.updateNearVoice (b : Backend) (ended : Bool) (frame : CaptureFrame) (ok : Bool) :
    Option (Backend × CaptureFrame) :=
  let (b, suppress) := b.observe ended frame
  let suppress := suppress || b.aecWarmupRemaining ≠ 0
  (b.countWarmup ok).bind fun b =>
    let suppress := suppress || b.aecTailRemaining ≠ 0
    (b.countTail ok).map fun b => (b, { frame with nearVoice := !suppress && frame.vadNow })

/-- `PreparePlayback`, on the capture thread between two frames. -/
def Backend.preparePlayback (b : Backend) : Backend :=
  { b with
    playbackSessionActive := true, aecWarmupArmed := true, aecWarmupRemaining := 0,
    aecTailRemaining := 0, playbackEnded := false, playbackInterrupted := false,
    playbackRenderStarted := false }

-- ---------------------------------------------------------------------------
-- Three threads
-- ---------------------------------------------------------------------------

inductive Store
  | interrupted
  | ended
  | renderStopped
  deriving DecidableEq, Repr

def Backend.store (b : Backend) : Store → Backend
  | .interrupted => { b with playbackInterrupted := true }
  | .ended => { b with playbackEnded := true }
  | .renderStopped => { b with playbackRenderStarted := false }

/-- The stores of `InterruptPlayback`, of `DrainPlayback` and of `DropPlayback`, in order. -/
def interruptPlayback : List Store := [.interrupted, .ended, .renderStopped]
def drainPlayback : List Store := [.ended, .renderStopped]
def dropPlayback : List Store := [.ended, .renderStopped]

inductive Ending
  | natural
  | interrupted
  deriving DecidableEq, Repr

/-- A frame the capture thread has processed: what the gate read of the atomics, and
whether it reset the classifier. -/
structure Processed where
  frame : CaptureFrame
  rendering : Bool := false
  ended : Option Ending := none
  vadReset : Bool := false
  deriving DecidableEq, Repr

/-- What happened, for the record. `interrupted`: `InterruptPlayback` has published its end. -/
inductive Entry
  | prepared
  | rendering
  | interrupted
  | begun
  | processed (p : Processed)
  deriving DecidableEq, Repr

/-- The capture thread with the frame it is processing, the stores the application and
the playback thread have yet to make, and the record, newest entry first. -/
structure Duplex where
  backend : Backend := {}
  capturing : Option (Bool × CaptureFrame) := none
  application : List Store := []
  player : List Store := []
  active : Bool := false
  log : List Entry := []
  deriving DecidableEq, Repr

inductive DuplexAct
  | beginPlayback
  | render
  | drainPlayback
  | dropPlayback
  | interruptPlayback
  | applicationStore
  | playerStore
  | finishPlayback
  | discontinuity (ok : Bool)
  | process (p : Period)
  | gate (ok : Bool)
  | resetListener
  deriving DecidableEq, Repr

def Backend.ending (b : Backend) (ended : Bool) : Option Ending :=
  if ended then some (if b.playbackInterrupted then .interrupted else .natural) else none

def Duplex.step (minDbfs : Int) (s : Duplex) : DuplexAct → Option Duplex
  -- the engine prepares while no playback is active, between two frames
  | .beginPlayback =>
    if s.active = false ∧ s.application = [] ∧ s.player = [] ∧ s.capturing = none then
      some { s with
        backend := s.backend.preparePlayback, active := true, log := .prepared :: s.log }
    else none
  | .render =>
    if s.active = true ∧ s.player = [] then
      some { s with
        backend := { s.backend with playbackRenderStarted := true }, log := .rendering :: s.log }
    else none
  | .drainPlayback =>
    if s.active = true ∧ s.player = [] then some { s with player := drainPlayback } else none
  | .dropPlayback =>
    if s.active = true ∧ s.player = [] then some { s with player := dropPlayback } else none
  | .interruptPlayback =>
    if s.active = true ∧ s.application = [] then some { s with application := interruptPlayback }
    else none
  | .applicationStore =>
    match s.application with
    | [] => none
    | store :: rest => some { s with
        backend := s.backend.store store, application := rest,
        log := if store = .ended then .interrupted :: s.log else s.log }
  | .playerStore =>
    match s.player with
    | [] => none
    | store :: rest => some { s with backend := s.backend.store store, player := rest }
  | .finishPlayback =>
    if s.active = true ∧ s.application = [] ∧ s.player = [] then some { s with active := false }
    else none
  | .discontinuity ok =>
    if s.capturing = none then
      (s.backend.discontinuity ok).map fun (backend, frame) =>
        { s with backend, log := .processed { frame } :: s.log }
    else none
  | .process p =>
    if s.capturing = none then
      (s.backend.process minDbfs p).map fun (backend, frame) =>
        { s with
          backend := { backend with playbackEnded := false }
          capturing := some (backend.playbackEnded, frame), log := .begun :: s.log }
    else none
  | .gate ok =>
    match s.capturing with
    | none => none
    | some (ended, frame) =>
      (s.backend.updateNearVoice ended frame ok).map fun (backend, frame) =>
        { s with
          backend, capturing := none
          log := .processed
            { frame, rendering := s.backend.playbackRenderStarted, ended := s.backend.ending ended,
              vadReset := backend.gateResets ≠ s.backend.gateResets } :: s.log }
  | .resetListener =>
    if s.capturing = none then some { s with backend := { s.backend with vad := {} } } else none

def duplex (minDbfs : Int) : Lts.Machine Duplex DuplexAct where
  Init s := s = {}
  step := Duplex.step minDbfs

end BoomPI.Audio
