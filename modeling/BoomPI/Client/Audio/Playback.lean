import BoomPI.Lts
import BoomPI.RingBuffer

/-!
# The playback thread and its ring

The downlink half of `audio_engine.cpp`: the actor begins a playback, queues PCM,
ends and drops it under the mutex; the playback thread takes one slot after the
other out of the ring and calls the backend outside the mutex. A step is what a
thread does while it holds the mutex, or one end of a backend call, so a drop can
come while a call blocks. What the backend answers is part of the label.
-/

namespace BoomPI.Audio

def kTts24FrameSamples : Nat := 480
abbrev kTtsSlots : Nat := 75
def kInitialTtsSlots : Nat := 9
def kRebufferTtsSlots : Nat := 2

abbrev Sample := BitVec 16

/-- `pcm[0..used)`; what is behind it stays zero. -/
structure TtsSlot where
  pcm : List Sample := []
  fits : pcm.length ≤ kTts24FrameSamples := by decide
  deriving DecidableEq, Repr

def TtsSlot.used (slot : TtsSlot) : Nat := slot.pcm.length

def samplesOf : List (BitVec 8) → List Sample
  | low :: high :: bytes => (high ++ low) :: samplesOf bytes
  | _ => []

inductive PlaybackThread
  /-- before it locks the mutex for its next slot -/
  | top
  /-- in `wait_for(lock, kRebufferGrace, ..)` -/
  | grace
  /-- in `wait(lock, ..)` -/
  | waiting
  /-- with a slot out of the ring, before `Render` -/
  | popped (slot : TtsSlot) (finish : Bool)
  | rendering (finish : Bool)
  /-- `FinishPlayback`: before the first lock -/
  | finishing (discard failed : Bool)
  /-- before the backend call -/
  | sampled (discard failed : Bool)
  | dropping (discard failed : Bool)
  | draining
  /-- before the last lock -/
  | resetting (discard failed : Bool)
  deriving DecidableEq, Repr

inductive PlaybackEvent
  | accepted (pcm : List Sample)
  | ended
  | dropped
  | render (slot : TtsSlot)
  | renderFailed
  | drain
  | drainFailed
  | backendDrop
  | reset (failed : Bool)
  deriving DecidableEq, Repr

structure Playback where
  tts : RingBuffer TtsSlot kTtsSlots := .cleared {}
  ttsTail : Fin kTtsSlots := 0
  queuedSamples : Nat := 0
  nextTtsSequence : UInt64 := 0
  active : Bool := false
  ending : Bool := false
  playbackStarted : Bool := false
  rebuffering : Bool := false
  drop : Bool := false
  sequenceSet : Bool := false
  isDone : Bool := true
  playbackFailed : Bool := false
  thread : PlaybackThread := .top
  /-- of the session begun last -/
  events : List PlaybackEvent := []
  deriving DecidableEq, Repr

def Playback.clearQueue (s : Playback) : Playback :=
  { s with tts := .cleared {}, ttsTail := 0, queuedSamples := 0 }

def Playback.log (s : Playback) (e : PlaybackEvent) : Playback := { s with events := s.events ++ [e] }

-- ---------------------------------------------------------------------------
-- The actor
-- ---------------------------------------------------------------------------

/-- `BeginPlayback`; `prepared` is what the capture thread makes of `PreparePlayback`. -/
def Playback.beginPlayback (s : Playback) (prepared : Bool) : Bool × Playback :=
  if s.active then (false, s)
  else if !prepared then (false, s.clearQueue)
  else (true,
    { s.clearQueue with
      sequenceSet := false, ending := false, drop := false, playbackStarted := false
      rebuffering := false, active := true, playbackFailed := false, isDone := false
      events := [] })

def Playback.last (s : Playback) : TtsSlot := s.tts.slots[s.ttsTail - 1]

def TtsSlot.append (slot : TtsSlot) (pcm : List Sample) : TtsSlot where
  pcm := slot.pcm ++ pcm.take (kTts24FrameSamples - slot.used)
  fits := by
    have := slot.fits
    simp only [List.length_append, List.length_take, used]
    omega

/-- A slot behind the full ones, where there is none to fill up. -/
def Playback.openSlot (s : Playback) : Playback :=
  if s.tts.count = 0 ∨ s.last.used = kTts24FrameSamples then
    { s with tts := s.tts.grow, ttsTail := s.ttsTail + 1 }
  else s

/-- `while (source < samples)`: each round fills the last slot up, or opens one. -/
def Playback.copy (s : Playback) : Nat → List Sample → Playback
  | 0, _ => s
  | fuel + 1, pcm =>
    if pcm = [] then s
    else
      let s := s.openSlot
      let slot := s.last
      let s := { s with tts := s.tts.set (s.ttsTail - 1) (slot.append pcm) }
      s.copy fuel (pcm.drop (kTts24FrameSamples - slot.used))

def Playback.queueTts24k (s : Playback) (bytes : List (BitVec 8)) (sequence : UInt64) :
    Bool × Playback :=
  let samples := bytes.length / 2
  if bytes = [] ∨ bytes.length % 2 ≠ 0 then (false, s)
  else if !s.active ∨ s.ending ∨ kTtsSlots * kTts24FrameSamples - s.queuedSamples < samples ∨
      (s.sequenceSet ∧ sequence ≠ s.nextTtsSequence) then (false, s)
  else
    let s := (s.copy samples (samplesOf bytes)).log (.accepted (samplesOf bytes))
    (true, { s with
      queuedSamples := s.queuedSamples + samples, sequenceSet := true
      nextTtsSequence := sequence + 1 })

def Playback.endPlayback (s : Playback) : Bool × Playback :=
  if !s.active ∨ s.ending then (false, s)
  else (true, { s with ending := true }.log .ended)

/-- `DropPlayback`; `InterruptPlayback` makes a blocked call of the backend return. -/
def Playback.dropPlayback (s : Playback) : Playback :=
  if s.active then ({ s with drop := true }.clearQueue).log .dropped else s

-- ---------------------------------------------------------------------------
-- The playback thread
-- ---------------------------------------------------------------------------

/-- The condition for the 30 ms of grace. -/
def Playback.starved (s : Playback) : Bool :=
  s.active && s.playbackStarted && s.tts.count = 0 && !s.ending && !s.drop && !s.rebuffering

/-- The condition `PlaybackLoop` waits for. -/
def Playback.ready (s : Playback) : Bool :=
  let initialReady := kInitialTtsSlots * kTts24FrameSamples ≤ s.queuedSamples
  let resumeReady := kRebufferTtsSlots * kTts24FrameSamples ≤ s.queuedSamples
  let bufferReady : Bool :=
    if s.playbackStarted then !s.rebuffering || resumeReady || s.ending
    else initialReady || s.ending
  s.drop || (s.active &&
    ((s.tts.count ≠ 0 && (s.tts.front.used = kTts24FrameSamples || s.ending) && bufferReady) ||
      (s.ending && s.tts.count = 0)))

def Playback.wake (s : Playback) : Playback :=
  if !s.drop ∧ s.tts.count ≠ 0 then
    let slot := s.tts.front
    let s := { s with
      rebuffering := false, playbackStarted := true
      queuedSamples := s.queuedSamples - slot.used, tts := s.tts.pop {} }
    { s with thread := .popped slot (s.ending && s.tts.count = 0) }
  else if s.drop ∨ (s.ending ∧ s.tts.count = 0) then { s with thread := .finishing s.drop false }
  else { s with thread := .top }

/-- The last lock of `FinishPlayback`. -/
def Playback.finishPlayback (s : Playback) (discard failed : Bool) : Playback :=
  let late := s.drop && !discard
  let failed := failed && !late
  let s := if late then s.log .backendDrop else s
  { (s.clearQueue).log (.reset failed) with
    active := false, ending := false, drop := false, playbackStarted := false
    rebuffering := false, playbackFailed := failed, isDone := true, thread := .top }

inductive PlaybackAct
  | beginPlayback (prepared : Bool)
  | queueTts24k (bytes : List (BitVec 8)) (sequence : UInt64)
  | endPlayback
  | dropPlayback
  /-- the playback thread comes to its waits -/
  | enter
  | graceOver
  | wake
  /-- it calls the backend -/
  | call
  /-- and the call returns -/
  | returned (ok : Bool)
  /-- the first lock of `FinishPlayback` -/
  | sample
  | finishPlayback
  deriving DecidableEq, Repr

def Playback.step (s : Playback) : PlaybackAct → Option Playback
  | .beginPlayback prepared => some (s.beginPlayback prepared).2
  | .queueTts24k bytes sequence => some (s.queueTts24k bytes sequence).2
  | .endPlayback => some s.endPlayback.2
  | .dropPlayback => some s.dropPlayback
  | .enter =>
    match s.thread with
    | .top => some { s with thread := if s.starved then .grace else .waiting }
    | _ => none
  | .graceOver =>
    match s.thread with
    | .grace =>
      -- still nothing after 30 ms, or something came
      let isOver := s.tts.count = 0 && !s.ending && !s.drop
      some { s with thread := .waiting, rebuffering := s.rebuffering || isOver }
    | _ => none
  | .wake =>
    match s.thread with
    | .waiting => if s.ready then some s.wake else none
    | _ => none
  | .call =>
    match s.thread with
    | .popped slot finish => some ({ s with thread := .rendering finish }.log (.render slot))
    | .sampled discard failed =>
      if discard || failed then
        some ({ s with thread := .dropping discard failed }.log .backendDrop)
      else some ({ s with thread := .draining }.log .drain)
    | _ => none
  | .returned ok =>
    match s.thread with
    | .rendering finish =>
      let s := if ok then s else s.log .renderFailed
      some { s with thread := if finish || !ok then .finishing false (!ok) else .top }
    | .dropping discard failed => some { s with thread := .resetting discard failed }
    | .draining =>
      let s := if ok then s else s.log .drainFailed
      some { s with thread := .resetting false (!ok) }
    | _ => none
  | .sample =>
    match s.thread with
    | .finishing discard failed =>
      some { s with thread := .sampled (discard || s.drop) (failed && !s.drop) }
    | _ => none
  | .finishPlayback =>
    match s.thread with
    | .resetting discard failed => some (s.finishPlayback discard failed)
    | _ => none

def playback : Lts.Machine Playback PlaybackAct where
  Init s := s = {}
  step := Playback.step

end BoomPI.Audio
