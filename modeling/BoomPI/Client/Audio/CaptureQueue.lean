import BoomPI.Client.Audio.Backend
import BoomPI.Lts
import BoomPI.RingBuffer
import Mathlib.Data.List.Chain
import Mathlib.Data.List.Induction

/-!
# The capture queue

Four slots between the capture thread and the application's actor. A frame that
does not fit, or that the backend marks as discontinuous, clears the queue and is
marked. `RunCaptureCommand` hands a command to the capture thread, which executes
it between two frames.
-/

namespace BoomPI.Audio

abbrev kCaptureSlots : Nat := 4

/-- `CaptureCommand`, `kNone` apart. -/
inductive CaptureCommand
  | resetListener
  | preparePlayback
  deriving DecidableEq, Repr

/-- Where the capture thread is in `CaptureLoop`: before `ApplyCaptureCommand`, in the
backend with a command, with its result, past the command, in `ReadCapture20ms` and
`ProcessCapture20ms`, with their frame if they succeeded, before the queue's lock with the
frame, behind it, or about to report a failure. -/
inductive CaptureThread
  | top
  | applying (command : CaptureCommand)
  | applied (command : CaptureCommand) (succeeded : Bool)
  | between
  | reading
  | captured (frame : Option CaptureFrame)
  | pushing (frame : CaptureFrame)
  | pushed
  | failing
  | exited
  deriving DecidableEq, Repr

/-- The capture side of `AudioEngine::Impl`, its thread, and the command the actor waits for. -/
structure Engine where
  capture : RingBuffer CaptureFrame kCaptureSlots := .cleared {}
  captureCommand : Option CaptureCommand := none
  commandSucceeded : Bool := false
  captureSequence : UInt64 := 0
  captureFailed : Bool := false
  stop : Bool := false
  thread : CaptureThread := .top
  waiting : Option CaptureCommand := none
  deriving DecidableEq, Repr

def CaptureFrame.clearDecisions (frame : CaptureFrame) : CaptureFrame :=
  { frame with
    wake := false, vadNow := false, vadStarted := false, vadEnded := false, nearVoice := false }

namespace Engine

variable {s t : Engine}

def clearCaptureQueue (s : Engine) : Engine := { s with capture := .cleared {} }

def clearQueuedListenerDecisions (s : Engine) : Engine :=
  { s with capture := s.capture.update CaptureFrame.clearDecisions }

/-- A frame as the queue keeps it; `full` says that there is no room for it. -/
def kept (frame : CaptureFrame) (full : Bool) : CaptureFrame :=
  if frame.discontinuity ∨ full then
    { frame with discontinuity := true, actorOverrun := ! frame.discontinuity }
  else frame

def full (s : Engine) : Bool := s.capture.count = kCaptureSlots

/-- `CaptureLoop` under the queue's lock. -/
def enqueue (s : Engine) (frame : CaptureFrame) : Engine :=
  let cleared := if frame.discontinuity ∨ s.full then s.clearCaptureQueue else s
  { cleared with capture := cleared.capture.push (kept frame s.full) }

/-- The second lock of `ApplyCaptureCommand`. -/
def applyCommand (s : Engine) (command : CaptureCommand) (succeeded : Bool) : Engine :=
  let cleared := if command = .resetListener then s.clearQueuedListenerDecisions else s
  { cleared with
    commandSucceeded := succeeded, captureCommand := none
    thread := if succeeded then .between else .failing }

/-- A step of the capture thread that only reads and writes the engine. -/
def threadStep (s : Engine) : Option Engine :=
  match s.thread with
  | .top =>
    if s.captureFailed then some { s with thread := .failing }
    else match s.captureCommand with
    | none => some { s with thread := .between }
    | some command => some { s with thread := .applying command }
  | .applied command succeeded => some (s.applyCommand command succeeded)
  | .between => some { s with thread := if s.stop then .exited else .reading }
  | .captured frame =>
    if s.stop then some { s with thread := .exited }
    else match frame with
    | some frame =>
      some { s with
        captureSequence := s.captureSequence + 1
        thread := .pushing { frame with sequence := s.captureSequence } }
    | none => some { s with thread := .failing }
  | .pushing frame => some { s.enqueue frame with thread := .pushed }
  | .pushed => some { s with thread := if s.stop then .exited else .top }
  | .failing => some { s with captureFailed := true, thread := .exited }
  | .applying _ | .reading | .exited => none

def released (s : Engine) : Bool := s.stop ∨ s.captureFailed ∨ s.captureCommand = none

/-- `Capture` returns a frame. -/
def delivers (s : Engine) : Bool := ¬ s.stop ∧ ¬ s.captureFailed ∧ s.capture.count ≠ 0

def accepts (s : Engine) : Bool := ¬ s.stop ∧ ¬ s.captureFailed ∧ s.captureCommand = none

/-- What `RunCaptureCommand` returns once it is released. -/
def succeeds (s : Engine) : Bool :=
  ¬ s.stop ∧ ¬ s.captureFailed ∧ s.captureCommand = none ∧ s.commandSucceeded

end Engine

/-- `thread` is the capture thread on its own, `applied` and `read` are the backend's
results, `capture`, `call`, `timeout` and `returns` are the actor's, and `stop` is `Close`. -/
inductive EngineLabel
  | thread
  | applied (succeeded : Bool)
  | read (frame : Option CaptureFrame)
  | capture
  | call (command : CaptureCommand)
  | timeout
  | returns
  | stop
  deriving DecidableEq, Repr

def Engine.step (s : Engine) : EngineLabel → Option Engine
  | .thread => s.threadStep
  | .applied succeeded =>
    match s.thread with
    | .applying command => some { s with thread := .applied command succeeded }
    | _ => none
  | .read frame => if s.thread = .reading then some { s with thread := .captured frame } else none
  | .capture =>
    if s.waiting.isSome then none
    else if s.delivers then some { s with capture := s.capture.pop {} }
    else some s
  | .call command =>
    if s.waiting.isSome then none
    else if s.accepts then some { s with captureCommand := some command, waiting := some command }
    else some s
  -- the command cannot be executed between two frames any more
  | .timeout => if s.waiting.isSome ∧ ¬ s.released then some { s with captureFailed := true, waiting := none } else none
  | .returns => if s.waiting.isSome ∧ s.released then some { s with waiting := none } else none
  | .stop => some { s with stop := true }

def engine : Lts.Machine Engine EngineLabel where
  Init s := s = {}
  step := Engine.step

-- ---------------------------------------------------------------------------
-- What happens to the frames
-- ---------------------------------------------------------------------------

/-- `captured` has the frame of the backend with its number, and whether it met a full
queue; `returned` the place of the frame among those captured, and the frame. -/
inductive CaptureNote
  | captured (frame : CaptureFrame) (full : Bool)
  | cleared
  | called (command : CaptureCommand)
  | finished (command : CaptureCommand) (succeeded : Bool)
  | returned (place : Nat) (frame : CaptureFrame)
  deriving DecidableEq, Repr

def CaptureNote.captured? : CaptureNote → Option (CaptureFrame × Bool)
  | .captured frame full => some (frame, full)
  | _ => none

def CaptureNote.returned? : CaptureNote → Option (Nat × CaptureFrame)
  | .returned place frame => some (place, frame)
  | _ => none

def captures (log : List CaptureNote) : List (CaptureFrame × Bool) := log.filterMap CaptureNote.captured?

def returns (log : List CaptureNote) : List (Nat × CaptureFrame) := log.filterMap CaptureNote.returned?

def Engine.oldest (s : Engine) (log : List CaptureNote) : Nat := (captures log).length - s.capture.count

def Engine.notes (s : Engine) (log : List CaptureNote) : EngineLabel → List CaptureNote
  | .thread =>
    match s.thread with
    | .pushing frame => [.captured frame s.full]
    | .applied .resetListener _ => [.cleared]
    | _ => []
  | .capture => if s.delivers then [.returned (s.oldest log) s.capture.front] else []
  | .call command => if s.accepts then [.called command] else []
  | .timeout => s.waiting.toList.map fun command => .finished command false
  | .returns => s.waiting.toList.map fun command => .finished command s.succeeds
  | _ => []

def Engine.note (log : List CaptureNote) (s : Engine) (l : EngineLabel) (_ : Engine) : List CaptureNote :=
  log ++ s.notes log l

-- ---------------------------------------------------------------------------
-- The frames of a log
-- ---------------------------------------------------------------------------

variable {s t : Engine} {log pre post : List CaptureNote} {note : CaptureNote} {frame : CaptureFrame} {k : Nat}

@[simp] theorem clearDecisions_idem (frame : CaptureFrame) :
    frame.clearDecisions.clearDecisions = frame.clearDecisions := rfl

@[simp] theorem captures_append : captures (pre ++ post) = captures pre ++ captures post := by
  simp [captures]

@[simp] theorem returns_append : returns (pre ++ post) = returns pre ++ returns post := by
  simp [returns]

/-- What the queue has kept of the frames, the ones taken and dropped included. -/
def keep (frames : List CaptureFrame) : CaptureNote → List CaptureFrame
  | .captured frame full => frames ++ [Engine.kept frame full]
  | .cleared => frames.map CaptureFrame.clearDecisions
  | _ => frames

def keptFrames (log : List CaptureNote) : List CaptureFrame := log.foldl keep []

@[simp] theorem keptFrames_snoc : keptFrames (log ++ [note]) = keep (keptFrames log) note := by
  simp [keptFrames]

@[simp] theorem length_keptFrames : (keptFrames log).length = (captures log).length := by
  induction log using List.reverseRecOn with
  | nil => rfl
  | append_singleton log note ih =>
    rw [keptFrames_snoc, captures_append, List.length_append, ← ih]
    cases note with
    | captured => exact List.length_append
    | cleared => exact List.length_map _
    | called | finished | returned => rfl

theorem keptFrames_capture (h : (keptFrames log)[k]? = some frame) : ∃ c, (captures log)[k]? = some c ∧
    (frame = Engine.kept c.1 c.2 ∨ frame = (Engine.kept c.1 c.2).clearDecisions) := by
  induction log using List.reverseRecOn generalizing frame with
  | nil => simp [keptFrames] at h
  | append_singleton log note ih =>
    rw [keptFrames_snoc] at h
    have hold : ∀ {frame}, (keptFrames log)[k]? = some frame → ∃ c, (captures (log ++ [note]))[k]? = some c ∧
        (frame = Engine.kept c.1 c.2 ∨ frame = (Engine.kept c.1 c.2).clearDecisions) := by
      intro frame h
      obtain ⟨c, hc, hframe⟩ := ih h
      refine ⟨c, ?_, hframe⟩
      rw [captures_append, List.getElem?_append_left (List.getElem?_eq_some_iff.mp hc).1, hc]
    cases note with
    | captured frame' full =>
      rcases Nat.lt_or_ge k (keptFrames log).length with hk | hk
      · rw [keep, List.getElem?_append_left hk] at h
        exact hold h
      · rw [keep, List.getElem?_append_right hk, List.getElem?_singleton, Option.ite_none_right_eq_some] at h
        obtain ⟨hk', hframe⟩ := h
        have hlen : (captures log).length ≤ k := length_keptFrames ▸ hk
        refine ⟨(frame', full), ?_, .inl (Option.some.inj hframe).symm⟩
        rw [captures_append, List.getElem?_append_right hlen]
        rw [length_keptFrames] at hk'
        rw [hk']
        rfl
    | cleared =>
      simp only [keep, List.getElem?_map, Option.map_eq_some_iff] at h
      obtain ⟨frame, h, rfl⟩ := h
      obtain ⟨c, hc, hframe⟩ := hold h
      refine ⟨c, hc, .inr ?_⟩
      rcases hframe with rfl | rfl <;> rfl
    | called | finished | returned => exact hold h

theorem keptFrames_cleared (hk : k < (captures pre).length)
    (h : (keptFrames (pre ++ .cleared :: post))[k]? = some frame) : frame.clearDecisions = frame := by
  induction post using List.reverseRecOn generalizing frame with
  | nil =>
    rw [keptFrames_snoc] at h
    simp only [keep, List.getElem?_map, Option.map_eq_some_iff] at h
    obtain ⟨frame, -, rfl⟩ := h
    rfl
  | append_singleton post note ih =>
    rw [← List.cons_append, ← List.append_assoc, keptFrames_snoc] at h
    cases note with
    | captured =>
      have hlt : k < (keptFrames (pre ++ .cleared :: post)).length := by
        rw [length_keptFrames, captures_append, List.length_append]
        exact Nat.lt_add_right _ hk
      rw [keep, List.getElem?_append_left hlt] at h
      exact ih h
    | cleared =>
      simp only [keep, List.getElem?_map, Option.map_eq_some_iff] at h
      obtain ⟨frame, -, rfl⟩ := h
      rfl
    | called | finished | returned => exact ih h

def ReturnsKept (log : List CaptureNote) : Prop :=
  ∀ pre place frame post, log = pre ++ .returned place frame :: post → (keptFrames pre)[place]? = some frame

theorem ReturnsKept.snoc (h : ReturnsKept log)
    (hn : ∀ place frame, note = .returned place frame → (keptFrames log)[place]? = some frame) :
    ReturnsKept (log ++ [note]) := by
  intro pre place frame post heq
  rcases Lts.log_split_snoc heq with ⟨-, rfl, rfl⟩ | ⟨rest, -, rfl⟩
  · exact hn _ _ rfl
  · exact h _ _ _ _ rfl

theorem ReturnsKept.mem (h : ReturnsKept log) {r : Nat × CaptureFrame} (hr : r ∈ returns log) :
    ∃ pre post, log = pre ++ post ∧ (keptFrames pre)[r.1]? = some r.2 := by
  obtain ⟨note, hnote, hsome⟩ := List.mem_filterMap.mp hr
  cases note with
  | returned place frame =>
    cases hsome
    obtain ⟨pre, post, rfl⟩ := List.append_of_mem hnote
    exact ⟨pre, _, rfl, h _ _ _ _ rfl⟩
  | _ => cases hsome

/-- A frame returned is a captured one as the queue kept it, its decisions cleared or not. -/
theorem ReturnsKept.captured (h : ReturnsKept log) {r : Nat × CaptureFrame} (hr : r ∈ returns log) :
    ∃ c, (captures log)[r.1]? = some c ∧
      (r.2 = Engine.kept c.1 c.2 ∨ r.2 = (Engine.kept c.1 c.2).clearDecisions) := by
  obtain ⟨pre, post, rfl, hkept⟩ := h.mem hr
  obtain ⟨c, hc, hframe⟩ := keptFrames_capture hkept
  refine ⟨c, ?_, hframe⟩
  rw [captures_append, List.getElem?_append_left (List.getElem?_eq_some_iff.mp hc).1, hc]

theorem kept_sequence (frame : CaptureFrame) (full : Bool) :
    (Engine.kept frame full).sequence = frame.sequence := by
  unfold Engine.kept
  split <;> rfl

-- ---------------------------------------------------------------------------
-- The steps
-- ---------------------------------------------------------------------------

/-- The frame that waits for the queue. -/
def CaptureThread.frame? : CaptureThread → Option CaptureFrame
  | .pushing frame => some frame
  | _ => none

/-- The frames are numbered in `uint64`, the one that waits included. -/
def Numbered (s : Engine) (n : Nat) : Prop :=
  match s.thread.frame? with
  | some frame => frame.sequence = .ofNat n ∧ s.captureSequence = .ofNat (n + 1)
  | none => s.captureSequence = .ofNat n

theorem numbered_same (hs : s.thread.frame? = none) (ht : t.thread.frame? = none)
    (hseq : t.captureSequence = s.captureSequence) {n : Nat} (hn : Numbered s n) : Numbered t n := by
  simp only [Numbered, hs, ht] at hn ⊢
  exact hseq.trans hn

inductive QueueMove (s : Engine) (log : List CaptureNote) (t : Engine) : List CaptureNote → Prop
  | push (frame : CaptureFrame) : s.thread = .pushing frame → t.capture = (s.enqueue frame).capture →
      (∀ n, Numbered s n → Numbered t (n + 1)) → QueueMove s log t [.captured frame s.full]
  | clear : t.capture = s.capture.update CaptureFrame.clearDecisions → (∀ n, Numbered s n → Numbered t n) →
      QueueMove s log t [.cleared]
  | pop : s.delivers = true → t = { s with capture := s.capture.pop {} } →
      QueueMove s log t [.returned (s.oldest log) s.capture.front]
  | quiet (notes : List CaptureNote) : t.capture = s.capture → (∀ n, Numbered s n → Numbered t n) →
      (∀ note ∈ notes, note.captured? = none ∧ note.returned? = none ∧ note ≠ .cleared) →
      QueueMove s log t notes

theorem QueueMove.aside {notes : List CaptureNote} (hc : t.capture = s.capture) (hs : s.thread.frame? = none)
    (ht : t.thread.frame? = none) (hseq : t.captureSequence = s.captureSequence)
    (hnotes : notes = []) : QueueMove s log t notes := by
  refine .quiet notes hc (fun _ => numbered_same hs ht hseq) ?_
  simp [hnotes]

theorem threadStep_queue (hs : s.threadStep = some t) : QueueMove s log t (s.notes log .thread) := by
  unfold Engine.threadStep at hs
  unfold Engine.notes
  cases hthread : s.thread with
  | top =>
    rw [hthread] at hs
    dsimp only at hs
    split at hs
    · cases hs
      exact .aside rfl (by rw [hthread]; rfl) rfl rfl rfl
    · split at hs
      · cases hs
        exact .aside rfl (by rw [hthread]; rfl) rfl rfl rfl
      · cases hs
        exact .aside rfl (by rw [hthread]; rfl) rfl rfl rfl
  | applied command succeeded =>
    rw [hthread] at hs
    cases hs
    have hnone : (s.applyCommand command succeeded).thread.frame? = none := by
      cases succeeded <;> rfl
    cases command with
    | resetListener =>
      exact .clear rfl fun _ => numbered_same (s := s) (by rw [hthread]; rfl) hnone rfl
    | preparePlayback => exact .aside rfl (by rw [hthread]; rfl) hnone rfl rfl
  | between =>
    rw [hthread] at hs
    cases hs
    refine .aside rfl (by rw [hthread]; rfl) ?_ rfl rfl
    dsimp only
    split <;> rfl
  | captured frame =>
    rw [hthread] at hs
    dsimp only at hs
    split at hs
    · cases hs
      exact .aside rfl (by rw [hthread]; rfl) rfl rfl rfl
    · cases frame with
      | none =>
        cases hs
        exact .aside rfl (by rw [hthread]; rfl) rfl rfl rfl
      | some frame =>
        cases hs
        refine .quiet [] rfl (fun n hn => ?_) (by simp)
        simp only [Numbered, hthread, CaptureThread.frame?] at hn ⊢
        rw [hn]
        exact ⟨rfl, by simp⟩
  | pushing frame =>
    rw [hthread] at hs
    cases hs
    refine .push frame hthread rfl fun n hn => ?_
    simp only [Numbered, hthread, CaptureThread.frame?] at hn ⊢
    have hseq : (s.enqueue frame).captureSequence = s.captureSequence := by
      unfold Engine.enqueue
      dsimp only
      split <;> rfl
    exact hseq.trans hn.2
  | pushed =>
    rw [hthread] at hs
    cases hs
    refine .aside rfl (by rw [hthread]; rfl) ?_ rfl rfl
    dsimp only
    split <;> rfl
  | failing =>
    rw [hthread] at hs
    cases hs
    exact .aside rfl (by rw [hthread]; rfl) rfl rfl rfl
  | applying | reading | exited =>
    rw [hthread] at hs
    cases hs

theorem step_queue (log : List CaptureNote) {l : EngineLabel} (hs : s.step l = some t) : QueueMove s log t (s.notes log l) := by
  have hsame : ∀ {t : Engine}, t.thread = s.thread → t.captureSequence = s.captureSequence →
      ∀ n, Numbered s n → Numbered t n := by
    intro t hthread hseq n hn
    simpa [Numbered, hthread, hseq] using hn
  cases l with
  | thread => exact threadStep_queue hs
  | applied succeeded =>
    simp only [Engine.step] at hs
    split at hs
    · rename_i command hthread
      cases hs
      exact .aside rfl (by rw [hthread]; rfl) rfl rfl rfl
    · cases hs
  | read frame =>
    simp only [Engine.step, Option.ite_none_right_eq_some, Option.some.injEq] at hs
    obtain ⟨hthread, rfl⟩ := hs
    exact .aside rfl (by rw [hthread]; rfl) rfl rfl rfl
  | capture =>
    simp only [Engine.step, Option.ite_none_left_eq_some] at hs
    obtain ⟨-, hs⟩ := hs
    unfold Engine.notes
    dsimp only
    split at hs
    · rename_i hd
      rw [if_pos hd]
      cases hs
      exact .pop hd rfl
    · rename_i hd
      rw [if_neg hd]
      cases hs
      exact .quiet [] rfl (fun _ hn => hn) (by simp)
  | call command =>
    simp only [Engine.step, Option.ite_none_left_eq_some] at hs
    obtain ⟨-, hs⟩ := hs
    unfold Engine.notes
    dsimp only
    split at hs
    · rename_i hd
      rw [if_pos hd]
      cases hs
      exact .quiet _ rfl (hsame rfl rfl) (by simp [CaptureNote.captured?, CaptureNote.returned?])
    · rename_i hd
      rw [if_neg hd]
      cases hs
      exact .quiet [] rfl (fun _ hn => hn) (by simp)
  | timeout | returns =>
    simp only [Engine.step, Option.ite_none_right_eq_some, Option.some.injEq] at hs
    obtain ⟨-, rfl⟩ := hs
    refine .quiet _ rfl (hsame rfl rfl) ?_
    cases s.waiting <;> simp [Engine.notes, CaptureNote.captured?, CaptureNote.returned?]
  | stop =>
    cases hs
    exact .quiet [] rfl (hsame rfl rfl) (by simp)

-- ---------------------------------------------------------------------------
-- The queue and the log
-- ---------------------------------------------------------------------------

/-- Loss between two frames returned one after the other is marked. -/
def Marked (a b : Nat × CaptureFrame) : Prop :=
  b.2.sequence = a.2.sequence + 1 ∨ b.2.discontinuity = true

/-- The queue is the newest part of what was kept. -/
structure Holding (s : Engine) (log : List CaptureNote) : Prop where
  count : s.capture.count ≤ (captures log).length
  holds : RingBuffer.Holds {} s.capture ((keptFrames log).drop (s.oldest log))
  numbered : Numbered s (captures log).length
  sequence : ∀ (i : Nat) (c : CaptureFrame × Bool), (captures log)[i]? = some c → c.1.sequence = .ofNat i
  lawful : ReturnsKept log
  before : ∀ r ∈ returns log, r.1 < s.oldest log
  places : ((returns log).map Prod.fst).Pairwise (· < ·)
  next : ∀ r ∈ (returns log).getLast?, r.1 + 1 = s.oldest log ∨
    ∃ frame, (keptFrames log)[s.oldest log]? = some frame ∧ frame.discontinuity = true
  chain : (returns log).IsChain Marked

theorem holding_init : Holding {} [] where
  count := Nat.le_refl _
  holds := .cleared ({} : CaptureFrame)
  numbered := rfl
  sequence := by simp [captures]
  lawful := by simp [ReturnsKept]
  before := by simp [returns]
  places := by simp [returns]
  next := by simp [returns]
  chain := by simp [returns]

theorem Holding.oldest_le (h : Holding s log) : s.oldest log + s.capture.count = (captures log).length :=
  Nat.sub_add_cancel h.count

theorem Holding.count_le (h : Holding s log) : s.capture.count ≤ kCaptureSlots := by
  have hle := h.holds.length_le
  rwa [← h.holds.count] at hle

theorem Holding.quiet (h : Holding s log) (hc : t.capture = s.capture) (hn : ∀ n, Numbered s n → Numbered t n)
    {notes : List CaptureNote}
    (hq : ∀ note ∈ notes, note.captured? = none ∧ note.returned? = none ∧ note ≠ .cleared) :
    Holding t (log ++ notes) := by
  induction notes using List.reverseRecOn with
  | nil =>
    have holdest : t.oldest log = s.oldest log := by rw [Engine.oldest, hc, Engine.oldest]
    rw [List.append_nil]
    exact { h with
      count := hc ▸ h.count, holds := by rw [holdest, hc]; exact h.holds, numbered := hn _ h.numbered
      before := holdest ▸ h.before, next := holdest ▸ h.next }
  | append_singleton notes note ih =>
    have hi := ih fun note hnote => hq note (List.mem_append_left _ hnote)
    obtain ⟨hcap, hret, hclear⟩ := hq note (List.mem_append_right _ (List.mem_singleton_self _))
    have hcaps : captures (log ++ (notes ++ [note])) = captures (log ++ notes) := by
      simp [captures, hcap]
    have hrets : returns (log ++ (notes ++ [note])) = returns (log ++ notes) := by
      simp [returns, hret]
    have hkept : keptFrames (log ++ (notes ++ [note])) = keptFrames (log ++ notes) := by
      rw [← List.append_assoc, keptFrames_snoc]
      cases note with
      | captured => cases hcap
      | cleared => exact absurd rfl hclear
      | called | finished | returned => rfl
    have holdest : t.oldest (log ++ (notes ++ [note])) = t.oldest (log ++ notes) := by
      rw [Engine.oldest, hcaps, Engine.oldest]
    refine ⟨hcaps ▸ hi.count, ?_, hcaps ▸ hi.numbered, hcaps ▸ hi.sequence, ?_, ?_, hrets ▸ hi.places, ?_,
      hrets ▸ hi.chain⟩
    · rw [hkept, holdest]
      exact hi.holds
    · rw [← List.append_assoc]
      refine hi.lawful.snoc ?_
      rintro place frame rfl
      cases hret
    · rw [hrets, holdest]
      exact hi.before
    · rw [hrets, holdest, hkept]
      exact hi.next

theorem captures_captured {full : Bool} : captures [.captured frame full] = [(frame, full)] := rfl

theorem returns_captured {full : Bool} : returns [.captured frame full] = [] := rfl

theorem isChain_snoc {α : Type} {R : α → α → Prop} {xs : List α} {x : α} (h : xs.IsChain R)
    (hlast : ∀ y ∈ xs.getLast?, R y x) : (xs ++ [x]).IsChain R := by
  refine List.isChain_append.mpr ⟨h, List.isChain_singleton x, ?_⟩
  intro y hy z hz
  cases hz
  exact hlast y hy

/-- A frame is queued, alone where it does not follow the one before it. -/
theorem Holding.push (h : Holding s log) (hthread : s.thread = .pushing frame)
    (hc : t.capture = (s.enqueue frame).capture) (hn : ∀ n, Numbered s n → Numbered t (n + 1)) :
    Holding t (log ++ [.captured frame s.full]) := by
  have hnumbered := h.numbered
  simp only [Numbered, hthread, CaptureThread.frame?] at hnumbered
  have hold := h.oldest_le
  have hcaps : (captures (log ++ [.captured frame s.full])).length = (captures log).length + 1 := by
    simp [captures_captured]
  have hrets : returns (log ++ [.captured frame s.full]) = returns log := by simp [returns_captured]
  have hkept : keptFrames (log ++ [.captured frame s.full]) = keptFrames log ++ [Engine.kept frame s.full] := by
    rw [keptFrames_snoc, keep]
  have hseq : ∀ (i : Nat) (c : CaptureFrame × Bool), (captures (log ++ [.captured frame s.full]))[i]? = some c →
      c.1.sequence = .ofNat i := by
    intro i c hi
    rw [captures_append, captures_captured] at hi
    rcases Nat.lt_or_ge i (captures log).length with hlt | hge
    · rw [List.getElem?_append_left hlt] at hi
      exact h.sequence i c hi
    · rw [List.getElem?_append_right hge, List.getElem?_singleton, Option.ite_none_right_eq_some] at hi
      obtain ⟨heq, hi⟩ := hi
      cases hi
      rw [hnumbered.1, Nat.le_antisymm hge (Nat.sub_eq_zero_iff_le.mp heq)]
  have hlawful : ReturnsKept (log ++ [.captured frame s.full]) := h.lawful.snoc (by simp)
  have hnext : Numbered t (captures (log ++ [.captured frame s.full])).length := by
    rw [hcaps]
    exact hn _ h.numbered
  by_cases hclear : frame.discontinuity = true ∨ s.full = true
  · -- the queue is cleared, and the frame is marked
    have hcapture : t.capture = RingBuffer.push (.cleared {}) (Engine.kept frame s.full) := by
      rw [hc]
      simp only [Engine.enqueue, if_pos hclear, Engine.clearCaptureQueue]
    have hcount : t.capture.count = 1 := by rw [hcapture]; rfl
    have holdest : t.oldest (log ++ [.captured frame s.full]) = (captures log).length := by
      rw [Engine.oldest, hcaps, hcount, Nat.add_sub_cancel]
    have hmarked : (Engine.kept frame s.full).discontinuity = true := by
      rw [Engine.kept, if_pos hclear]
    have hlast : (keptFrames (log ++ [.captured frame s.full]))[(captures log).length]? =
        some (Engine.kept frame s.full) := by
      rw [hkept, ← length_keptFrames, List.getElem?_append_right (Nat.le_refl _), Nat.sub_self]
      rfl
    refine ⟨by rw [hcount, hcaps]; exact Nat.le_add_left _ _, ?_, hnext, hseq, hlawful, ?_, hrets ▸ h.places, ?_,
      hrets ▸ h.chain⟩
    · rw [holdest, hkept, ← length_keptFrames, List.drop_left, hcapture]
      exact (RingBuffer.Holds.cleared ({} : CaptureFrame)).push (by decide) _
    · rw [hrets, holdest]
      exact fun r hr => Nat.lt_of_lt_of_le (h.before r hr) (Nat.sub_le _ _)
    · rw [holdest]
      exact fun _ _ => .inr ⟨_, hlast, hmarked⟩
  · have hcapture : t.capture = s.capture.push (Engine.kept frame s.full) := by
      rw [hc]
      simp only [Engine.enqueue, if_neg hclear]
    have hroom : s.capture.count < kCaptureSlots := by
      refine Nat.lt_of_le_of_ne h.count_le fun heq => hclear (.inr ?_)
      rw [Engine.full, decide_eq_true heq]
    have hcount : t.capture.count = s.capture.count + 1 := by rw [hcapture]; rfl
    have holdest : t.oldest (log ++ [.captured frame s.full]) = s.oldest log := by
      rw [Engine.oldest, hcaps, hcount, Engine.oldest, Nat.add_sub_add_right]
    refine ⟨by rw [hcount, hcaps]; exact Nat.succ_le_succ h.count, ?_, hnext, hseq, hlawful, ?_, hrets ▸ h.places, ?_,
      hrets ▸ h.chain⟩
    · rw [holdest, hkept, hcapture, List.drop_append_of_le_length (by rw [length_keptFrames]; omega)]
      exact h.holds.push (by rw [← h.holds.count]; exact hroom) _
    · rw [hrets, holdest]
      exact h.before
    · rw [hrets, holdest]
      intro r hr
      refine (h.next r hr).imp_right ?_
      rintro ⟨frame', hget, hmark⟩
      refine ⟨frame', ?_, hmark⟩
      rw [hkept, List.getElem?_append_left (List.getElem?_eq_some_iff.mp hget).1, hget]

theorem Holding.clear (h : Holding s log) (hc : t.capture = s.capture.update CaptureFrame.clearDecisions)
    (hn : ∀ n, Numbered s n → Numbered t n) : Holding t (log ++ [.cleared]) := by
  have hcaps : captures (log ++ [.cleared]) = captures log := by simp [captures, CaptureNote.captured?]
  have hrets : returns (log ++ [.cleared]) = returns log := by simp [returns, CaptureNote.returned?]
  have hcount : t.capture.count = s.capture.count := by
    rw [hc, (h.holds.update CaptureFrame.clearDecisions).count, h.holds.count, List.length_map]
  have holdest : t.oldest (log ++ [.cleared]) = s.oldest log := by
    rw [Engine.oldest, hcaps, hcount, Engine.oldest]
  refine ⟨by rw [hcaps, hcount]; exact h.count, ?_, hcaps ▸ hn _ h.numbered, hcaps ▸ h.sequence,
    h.lawful.snoc (by simp), ?_, hrets ▸ h.places, ?_, hrets ▸ h.chain⟩
  · rw [holdest, keptFrames_snoc, keep, ← List.map_drop, hc]
    exact h.holds.update _
  · rw [hrets, holdest]
    exact h.before
  · rw [hrets, holdest]
    intro r hr
    refine (h.next r hr).imp_right ?_
    rintro ⟨frame, hget, hmark⟩
    refine ⟨frame.clearDecisions, ?_, hmark⟩
    rw [keptFrames_snoc, keep, List.getElem?_map, hget]
    rfl

/-- `Capture` takes the oldest frame. -/
theorem Holding.pop (h : Holding s log) (hd : s.delivers = true) :
    Holding { s with capture := s.capture.pop {} } (log ++ [.returned (s.oldest log) s.capture.front]) := by
  have hpos : s.capture.count ≠ 0 := by
    simp only [Engine.delivers, Bool.decide_and, Bool.and_eq_true, decide_eq_true_eq] at hd
    exact hd.2.2
  have hold := h.oldest_le
  have hlt : s.oldest log < (keptFrames log).length := by
    rw [length_keptFrames]
    omega
  have hdrop := List.drop_eq_getElem_cons hlt
  have hholds := h.holds
  rw [hdrop] at hholds
  have hfront : (keptFrames log)[s.oldest log]? = some s.capture.front := by
    rw [hholds.front]
    exact List.getElem?_eq_getElem hlt
  have hcaps : captures (log ++ [.returned (s.oldest log) s.capture.front]) = captures log := by
    simp [captures, CaptureNote.captured?]
  have hrets : returns (log ++ [.returned (s.oldest log) s.capture.front]) =
      returns log ++ [(s.oldest log, s.capture.front)] := by
    simp [returns, CaptureNote.returned?]
  have hkept : keptFrames (log ++ [.returned (s.oldest log) s.capture.front]) = keptFrames log := by
    rw [keptFrames_snoc]
    rfl
  have holdest : Engine.oldest { s with capture := s.capture.pop {} }
      (log ++ [.returned (s.oldest log) s.capture.front]) = s.oldest log + 1 := by
    rw [Engine.oldest, hcaps]
    change (captures log).length - (s.capture.count - 1) = _
    omega
  refine ⟨?_, ?_, hcaps ▸ h.numbered, hcaps ▸ h.sequence, h.lawful.snoc ?_, ?_, ?_, ?_, ?_⟩
  · rw [hcaps]
    exact Nat.le_trans (Nat.sub_le _ _) h.count
  · rw [holdest, hkept]
    exact hholds.pop
  · intro place frame heq
    cases heq
    exact hfront
  · rw [hrets, holdest]
    intro r hr
    rcases List.mem_append.mp hr with hr | hr
    · exact Nat.lt_succ_of_lt (h.before r hr)
    · rw [List.mem_singleton.mp hr]
      exact Nat.lt_succ_self _
  · rw [hrets, List.map_append, List.pairwise_append]
    refine ⟨h.places, List.pairwise_singleton .., ?_⟩
    intro place hplace new hnew
    obtain ⟨r, hr, rfl⟩ := List.mem_map.mp hplace
    rw [List.mem_singleton.mp hnew]
    exact h.before r hr
  · rw [hrets, holdest, List.getLast?_concat]
    rintro r ⟨⟩
    exact .inl rfl
  · rw [hrets]
    refine isChain_snoc h.chain fun r hr => ?_
    rcases h.next r hr with hnext | ⟨frame, hget, hmark⟩
    · obtain ⟨c, hc, hframe⟩ := keptFrames_capture hfront
      obtain ⟨c', hc', hframe'⟩ := h.lawful.captured (List.mem_of_getLast? hr)
      have hseq : s.capture.front.sequence = .ofNat (s.oldest log) := by
        rw [← h.sequence _ c hc, ← kept_sequence c.1 c.2]
        rcases hframe with hf | hf
        · rw [hf]
        · rw [hf]
          rfl
      have hseq' : r.2.sequence = .ofNat r.1 := by
        rw [← h.sequence _ c' hc', ← kept_sequence c'.1 c'.2]
        rcases hframe' with hf | hf
        · rw [hf]
        · rw [hf]
          rfl
      left
      rw [hseq, hseq', ← hnext]
      simp
    · rw [hfront] at hget
      cases hget
      exact .inr hmark

theorem Holding.step {l : EngineLabel} (h : Holding s log) (hs : s.step l = some t) :
    Holding t (log ++ s.notes log l) := by
  have hm := step_queue log hs
  generalize s.notes log l = notes at hm ⊢
  cases hm with
  | push frame hthread hc hn => exact h.push hthread hc hn
  | clear hc hn => exact h.clear hc hn
  | pop hd ht =>
    subst ht
    exact h.pop hd
  | quiet _ hc hn hq => exact h.quiet hc hn hq

-- ---------------------------------------------------------------------------
-- Commands
-- ---------------------------------------------------------------------------

def CaptureNote.ofCall : CaptureNote → Bool
  | .called _ | .finished .. => true
  | _ => false

/-- The command the thread has read and not yet taken away. -/
def CaptureThread.command? : CaptureThread → Option CaptureCommand
  | .applying command | .applied command _ => some command
  | _ => none

/-- The log ends inside a call of `command`, which has cleared the decisions if it was
executed and is to clear them. -/
def Calling (command : CaptureCommand) (executed : Prop) (log : List CaptureNote) : Prop :=
  ∃ before during, log = before ++ .called command :: during ∧ (∀ note ∈ during, note.ofCall = false) ∧
    (executed → command = .resetListener → .cleared ∈ during)

theorem calling_called (command : CaptureCommand) (log : List CaptureNote) {executed : Prop} (h : ¬ executed) :
    Calling command executed (log ++ [.called command]) :=
  ⟨log, [], rfl, by simp, fun he => absurd he h⟩

theorem Calling.append {command : CaptureCommand} {executed executed' : Prop} {notes : List CaptureNote}
    (h : Calling command executed log) (hn : ∀ note ∈ notes, note.ofCall = false)
    (he : executed' → executed ∨ (command = .resetListener → .cleared ∈ notes)) :
    Calling command executed' (log ++ notes) := by
  obtain ⟨before, during, rfl, hduring, hcleared⟩ := h
  refine ⟨before, during ++ notes, by simp, ?_, ?_⟩
  · intro note hnote
    exact (List.mem_append.mp hnote).elim (hduring note) (hn note)
  · intro hexecuted hcommand
    rcases he hexecuted with he | he
    · exact List.mem_append_left _ (hcleared he hcommand)
    · exact List.mem_append_right _ (he hcommand)

/-- A call that returned true was executed in between. -/
def Executed (log : List CaptureNote) : Prop :=
  ∀ pre command post, log = pre ++ .finished command true :: post → Calling command True pre

theorem Executed.append {notes : List CaptureNote} (h : Executed log)
    (hn : ∀ note ∈ notes, ∀ command, note ≠ .finished command true) : Executed (log ++ notes) := by
  induction notes using List.reverseRecOn with
  | nil =>
    rw [List.append_nil]
    exact h
  | append_singleton notes note ih =>
    have hi := ih fun note hnote => hn note (List.mem_append_left _ hnote)
    intro pre command post heq
    rw [← List.append_assoc] at heq
    rcases Lts.log_split_snoc heq with ⟨-, -, rfl⟩ | ⟨rest, -, hlog⟩
    · exact absurd rfl (hn _ (List.mem_append_right _ (List.mem_singleton_self _)) command)
    · exact hi pre command rest hlog

theorem Executed.finished {command : CaptureCommand} {ok : Bool} (h : Executed log)
    (hc : ok = true → Calling command True log) : Executed (log ++ [.finished command ok]) := by
  intro pre command' post heq
  rcases Lts.log_split_snoc heq with ⟨-, rfl, hnote⟩ | ⟨rest, -, rfl⟩
  · cases hnote
    exact hc rfl
  · exact h pre command' rest rfl

structure Commanded (s : Engine) (log : List CaptureNote) : Prop where
  thread : ∀ command, s.thread.command? = some command → s.captureCommand = some command
  waiting : ∀ command, s.waiting = some command → Calling command (s.captureCommand = none) log
  pending : ∀ command other, s.waiting = some command → s.captureCommand = some other → other = command
  executed : Executed log

theorem commanded_init : Commanded {} [] where
  thread := by simp [CaptureThread.command?]
  waiting := by simp
  pending := by simp
  executed := by simp [Executed]

theorem threadStep_command (log : List CaptureNote) (hs : s.threadStep = some t) :
    (∃ command ok, s.thread = .applied command ok ∧ t = s.applyCommand command ok) ∨
    (t.captureCommand = s.captureCommand ∧ t.waiting = s.waiting ∧
      (∀ command, t.thread.command? = some command → s.captureCommand = some command) ∧
      ∀ note ∈ s.notes log .thread, note.ofCall = false) := by
  unfold Engine.threadStep at hs
  unfold Engine.notes
  cases hthread : s.thread with
  | top =>
    rw [hthread] at hs
    dsimp only at hs
    right
    split at hs
    · cases hs
      simp [CaptureThread.command?]
    · split at hs
      · cases hs
        simp [CaptureThread.command?]
      · rename_i command hcommand
        cases hs
        refine ⟨rfl, rfl, ?_, by simp⟩
        intro other hother
        cases hother
        exact hcommand
  | applied command succeeded =>
    rw [hthread] at hs
    cases hs
    exact .inl ⟨command, succeeded, rfl, rfl⟩
  | between | pushed =>
    rw [hthread] at hs
    cases hs
    refine .inr ⟨rfl, rfl, ?_, by simp⟩
    dsimp only
    split <;> simp [CaptureThread.command?]
  | captured frame =>
    rw [hthread] at hs
    dsimp only at hs
    right
    split at hs
    · cases hs
      simp [CaptureThread.command?]
    · cases frame <;> cases hs <;> simp [CaptureThread.command?]
  | pushing frame =>
    rw [hthread] at hs
    cases hs
    have hsame : (s.enqueue frame).captureCommand = s.captureCommand ∧ (s.enqueue frame).waiting = s.waiting := by
      unfold Engine.enqueue
      dsimp only
      split <;> exact ⟨rfl, rfl⟩
    exact .inr ⟨hsame.1, hsame.2, by simp [CaptureThread.command?], by simp [CaptureNote.ofCall]⟩
  | failing =>
    rw [hthread] at hs
    cases hs
    simp [CaptureThread.command?]
  | applying | reading | exited =>
    rw [hthread] at hs
    cases hs

theorem Commanded.aside {notes : List CaptureNote} (h : Commanded s log) (hc : t.captureCommand = s.captureCommand)
    (hw : t.waiting = s.waiting)
    (ht : ∀ command, t.thread.command? = some command → s.captureCommand = some command)
    (hn : ∀ note ∈ notes, note.ofCall = false) : Commanded t (log ++ notes) where
  thread command hcommand := hc.trans (ht command hcommand)
  waiting command hwaiting := (h.waiting command (hw ▸ hwaiting)).append hn (by rw [hc]; exact .inl)
  pending command other hwaiting hother := h.pending command other (hw ▸ hwaiting) (hc ▸ hother)
  executed := h.executed.append (by
    rintro note hnote command rfl
    cases hn _ hnote)

/-- The second half of `ApplyCaptureCommand` takes the command away, its decisions cleared. -/
theorem Commanded.apply {command : CaptureCommand} {ok : Bool} (h : Commanded s log)
    (hthread : s.thread = .applied command ok) :
    Commanded (s.applyCommand command ok) (log ++ s.notes log .thread) := by
  have hpending : s.captureCommand = some command := h.thread command (by rw [hthread]; rfl)
  have hnotes : s.notes log .thread = if command = .resetListener then [.cleared] else [] := by
    simp only [Engine.notes, hthread]
    cases command <;> rfl
  have hof : ∀ note ∈ s.notes log .thread, note.ofCall = false := by
    rw [hnotes]
    cases command <;> simp [CaptureNote.ofCall]
  have hwaits : (s.applyCommand command ok).waiting = s.waiting := by cases command <;> rfl
  refine ⟨?_, ?_, ?_, h.executed.append ?_⟩
  · cases ok <;> simp [Engine.applyCommand, CaptureThread.command?]
  · intro other hwaiting
    rw [hwaits] at hwaiting
    refine (h.waiting other hwaiting).append hof fun _ => .inr ?_
    rw [← h.pending other command hwaiting hpending, hnotes]
    intro heq
    simp [heq]
  · intro _ _ _ hother
    cases hother
  · rintro note hnote other rfl
    cases hof _ hnote

theorem Commanded.step {l : EngineLabel} (h : Commanded s log) (hs : s.step l = some t) :
    Commanded t (log ++ s.notes log l) := by
  cases l with
  | thread =>
    rcases threadStep_command log hs with ⟨command, ok, hthread, rfl⟩ | ⟨hc, hw, ht, hn⟩
    · exact h.apply hthread
    · exact h.aside hc hw ht hn
  | applied succeeded =>
    simp only [Engine.step] at hs
    split at hs
    · rename_i command hthread
      cases hs
      refine h.aside rfl rfl ?_ (by simp [Engine.notes])
      intro other hother
      cases hother
      exact h.thread command (by rw [hthread]; rfl)
    · cases hs
  | read frame =>
    simp only [Engine.step, Option.ite_none_right_eq_some, Option.some.injEq] at hs
    obtain ⟨-, rfl⟩ := hs
    exact h.aside rfl rfl (by simp [CaptureThread.command?]) (by simp [Engine.notes])
  | capture =>
    have hn : ∀ note ∈ s.notes log .capture, note.ofCall = false := by
      simp only [Engine.notes]
      split <;> simp [CaptureNote.ofCall]
    simp only [Engine.step, Option.ite_none_left_eq_some] at hs
    obtain ⟨-, hs⟩ := hs
    split at hs
    · cases hs
      exact h.aside rfl rfl h.thread hn
    · cases hs
      exact h.aside rfl rfl h.thread hn
  | call command =>
    simp only [Engine.step, Option.ite_none_left_eq_some] at hs
    obtain ⟨-, hs⟩ := hs
    unfold Engine.notes
    dsimp only
    split at hs
    · rename_i ha
      rw [if_pos ha]
      cases hs
      have hnone : s.captureCommand = none := by
        simp only [Engine.accepts, Bool.decide_and, Bool.and_eq_true, decide_eq_true_eq] at ha
        exact ha.2.2
      refine ⟨?_, ?_, ?_, h.executed.append (by simp)⟩
      · intro other hother
        have hsome := h.thread other hother
        rw [hnone] at hsome
        cases hsome
      · intro other hother
        cases hother
        exact calling_called command log (by simp)
      · intro other other' hwaiting hother
        cases hwaiting
        exact (Option.some.inj hother).symm
    · rename_i ha
      rw [if_neg ha]
      cases hs
      exact h.aside rfl rfl h.thread (by simp)
  | timeout =>
    simp only [Engine.step, Option.ite_none_right_eq_some, Option.some.injEq] at hs
    obtain ⟨-, rfl⟩ := hs
    refine ⟨h.thread, by simp, by simp, h.executed.append ?_⟩
    simp [Engine.notes]
  | returns =>
    simp only [Engine.step, Option.ite_none_right_eq_some, Option.some.injEq] at hs
    obtain ⟨⟨hwaits, -⟩, rfl⟩ := hs
    obtain ⟨command, hcommand⟩ := Option.isSome_iff_exists.mp hwaits
    refine ⟨h.thread, by simp, by simp, ?_⟩
    simp only [Engine.notes, hcommand, Option.toList_some, List.map_cons, List.map_nil]
    refine h.executed.finished fun hok => ?_
    simp only [Engine.succeeds, Bool.decide_and, Bool.and_eq_true, decide_eq_true_eq] at hok
    have hcalling := h.waiting command hcommand
    rw [← List.append_nil log]
    exact hcalling.append (by simp) fun _ => .inl hok.2.2.1
  | stop =>
    cases hs
    exact h.aside rfl rfl h.thread (by simp [Engine.notes])

-- ---------------------------------------------------------------------------
-- Every run
-- ---------------------------------------------------------------------------

/-- What the queue promises of its log: no frame is returned twice or out of order, one that
does not follow the frame returned before it is marked, each is a captured frame of which
at most the decisions are missing, and after a reset that succeeded those of the frames
captured before the call are. -/
structure QueuePromise (log : List CaptureNote) : Prop where
  once : ((returns log).map Prod.fst).Pairwise (· < ·)
  marked : (returns log).IsChain Marked
  kept : ∀ r ∈ returns log, ∃ c, (captures log)[r.1]? = some c ∧
    (r.2 = Engine.kept c.1 c.2 ∨ r.2 = (Engine.kept c.1 c.2).clearDecisions)
  reset : ∀ pre post, log = pre ++ .finished .resetListener true :: post →
    ∃ before during, pre = before ++ .called .resetListener :: during ∧
      (∀ note ∈ during, note.ofCall = false) ∧
      ∀ r ∈ returns post, r.1 < (captures before).length → r.2.clearDecisions = r.2

/-- The decisions of what was captured before the call are gone once it has returned. -/
theorem ReturnsKept.reset (h : ReturnsKept log) (he : Executed log)
    (heq : log = pre ++ .finished .resetListener true :: post) :
    ∃ before during, pre = before ++ .called .resetListener :: during ∧
      (∀ note ∈ during, note.ofCall = false) ∧
      ∀ r ∈ returns post, r.1 < (captures before).length → r.2.clearDecisions = r.2 := by
  obtain ⟨before, during, rfl, hduring, hcleared⟩ := he _ _ _ heq
  refine ⟨before, during, rfl, hduring, ?_⟩
  intro r hr hlt
  obtain ⟨inside, rest, rfl⟩ := List.append_of_mem (hcleared trivial rfl)
  obtain ⟨note, hnote, hsome⟩ := List.mem_filterMap.mp hr
  cases note with
  | returned place frame =>
    cases hsome
    obtain ⟨later, last, rfl⟩ := List.append_of_mem hnote
    have hkept := h (before ++ .called .resetListener :: inside ++ .cleared ::
      (rest ++ .finished .resetListener true :: later)) place frame last (by simp [heq])
    refine keptFrames_cleared ?_ hkept
    rw [captures_append, List.length_append]
    exact Nat.lt_add_right _ hlt
  | _ => cases hsome

/-- The queue keeps its promise in every run of the thread and the actor. -/
theorem capture_queue {o : Lts.Machine.Observed Engine (List CaptureNote)}
    (h : (engine.observed [] Engine.note).Reachable o) : QueuePromise o.notes := by
  have hinv : Holding o.state o.notes ∧ Commanded o.state o.notes := by
    refine Lts.Machine.observed_invariant (J := fun _ => True)
      (K := fun s log => Holding s log ∧ Commanded s log) h (fun _ _ => trivial) ?_ ?_
    · rintro s rfl
      exact ⟨holding_init, commanded_init⟩
    · intro s log l t _ _ hs hstep
      exact ⟨hs.1.step hstep, hs.2.step hstep⟩
  obtain ⟨hholding, hcommanded⟩ := hinv
  exact {
    once := hholding.places
    marked := hholding.chain
    kept := fun _ => hholding.lawful.captured
    reset := fun _ _ => hholding.lawful.reset hcommanded.executed }

/-- A frame of the backend, from the top of the loop to the queue. -/
def sampleCapture (frame : CaptureFrame) : List EngineLabel :=
  [.thread, .thread, .read (some frame), .thread, .thread, .thread]

/-- Five frames of a wake word, a reset while the fifth waits, and the actor takes it. -/
def sampleReset : List EngineLabel :=
  List.flatten [(List.replicate 5 (sampleCapture { wake := true })).flatten,
    [.call .resetListener, .thread, .applied true, .thread, .returns, .capture]]

def marksOf (frame : CaptureFrame) : UInt64 × List Bool :=
  (frame.sequence, [frame.discontinuity, frame.actorOverrun, frame.wake])

/-- The fifth frame is returned: the four before it are lost, and it is marked for that and
no longer wakes. -/
theorem capture_queue_overrun :
    ∃ o, (engine.observed [] Engine.note).Reachable o ∧ QueuePromise o.notes ∧
      (returns o.notes).map (fun r => (r.1, marksOf r.2)) = [(4, 4, [true, true, false])] := by
  obtain ⟨o, -, hreach, hp⟩ := Lts.Machine.exists_of_run (engine.observed [] Engine.note) ⟨{}, []⟩
    sampleReset
    (fun o => decide ((returns o.notes).map (fun r => (r.1, marksOf r.2)) = [(4, 4, [true, true, false])]))
    ⟨rfl, rfl⟩ (by decide +kernel)
  exact ⟨o, hreach, capture_queue hreach, of_decide_eq_true hp⟩

end BoomPI.Audio
