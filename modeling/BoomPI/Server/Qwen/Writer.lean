import Mathlib.Data.List.Forall2
import BoomPI.Server.Consumer
import BoomPI.Server.Qwen

/-!
# The writer goroutine, select by select

`Qwen.step` takes a batch and writes it in one step. Here the writer stands
between its two selects, holds a batch before it compares generations, and writes
one event at a time. A cancelled input is fenced off while the inner select never
prefers audio of the current generation to a waiting `input_audio_buffer.clear`.
-/

namespace BoomPI.Qwen

open Backend (Error ConversationEvent Call Consumer)
open Lts.Machine (Observed)

-- ---------------------------------------------------------------------------
-- The writer
-- ---------------------------------------------------------------------------

/-- Where the goroutine `writer` stands. -/
inductive Writer
  | selecting                            -- before the outer select
  | waiting                              -- its default was taken
  | holding (batch : OutboundBatch)      -- before the generation is compared
  | writing (events : List ClientEvent)
  | stopped
  deriving DecidableEq, Repr

inductive WriterAct
  | takeUrgent                           -- the outer select
  | skipUrgent                           -- its default
  | receiveUrgent                        -- the inner select
  | receive
  | leave                                -- the session is closed
  | compare
  | write
  | writeFailed (err : Error)
  deriving Repr

structure WritingSession where
  session : Session := {}
  writer : Writer := .selecting
  deriving DecidableEq, Repr

def writerStep (act : WriterAct) (s : Session) (w : Writer) : Option (Session × Writer) :=
  match act, w with
  | .takeUrgent, .selecting | .receiveUrgent, .waiting =>
    match s.urgentWrites with
    | batch :: rest => some ({ s with urgentWrites := rest }, .holding batch)
    | [] => none
  | .skipUrgent, .selecting => if s.urgentWrites = [] then some (s, .waiting) else none
  | .receive, .waiting =>
    match s.writes with
    | batch :: rest => some ({ s with writes := rest }, .holding batch)
    | [] => none
  | .leave, .waiting => if s.closed then some (s, .stopped) else none
  | .compare, .holding batch =>
    if batch.inputAudio ∧ batch.inputGeneration ≠ s.inputGeneration then some (s, .selecting)
    else some (s, .writing batch.events)
  | .write, .writing (event :: rest) => some ({ s with sent := s.sent ++ [event] }, .writing rest)
  | .write, .writing [] => some (s, .selecting)
  | .writeFailed err, .writing (_ :: _) =>
    some (if s.closed then s else s.fail err, .stopped)
  | _, _ => none

/-- What the goroutines may do: those of `Qwen.step`, but for its writer, and the writer. -/
inductive WritingAct
  | other (act : Act)
  | writer (act : WriterAct)
  deriving Repr

def Act.ofWriter : Act → Bool
  | .writeUrgent | .write | .writeFailed _ => true
  | _ => false

def writingStep (queueSize : Nat) (act : WritingAct) (s : WritingSession)
    (events : List ConversationEvent) : Option (WritingSession × List ConversationEvent) :=
  match act with
  | .other act =>
    if act.ofWriter then none
    else (step queueSize act s.session events).map fun (session, events) =>
      ({ s with session }, events)
  | .writer act => (writerStep act s.session s.writer).map fun (session, writer) =>
      ({ session, writer }, events)

def writingProvider (queueSize : Nat) : Backend.Session WritingSession WritingAct where
  discarder := true
  enter c s := { s with session := enter c s.session }
  call c result s events := (call queueSize c result s.session events).map
    fun (session, events) => ({ s with session }, events)
  step := writingStep queueSize

-- ---------------------------------------------------------------------------
-- What is written
-- ---------------------------------------------------------------------------

/-- Every batch and every event on the wire is noted with the number of listening
`Cancel`s that had begun when it was enqueued; a `clear` counts its own. -/
structure Notes where
  cancels : Nat := 0
  writes : List Nat := []
  urgent : List Nat := []
  held : Nat := 0
  wire : List (ClientEvent × Nat) := []
  deriving DecidableEq, Repr

def Notes.written (n : Notes) (act : WriterAct) (w : Writer) : Notes :=
  match act, w with
  | .takeUrgent, _ | .receiveUrgent, _ =>
    { n with held := n.urgent.headD 0, urgent := n.urgent.tail }
  | .receive, _ => { n with held := n.writes.headD 0, writes := n.writes.tail }
  | .write, .writing (event :: _) => { n with wire := n.wire ++ [(event, n.held)] }
  | _, _ => n

/-- Another step may have enqueued. -/
def Notes.enqueued (n : Notes) (s s' : Session) : Notes :=
  { n with
    writes := n.writes ++ List.replicate (s'.writes.length - s.writes.length) n.cancels
    urgent := n.urgent ++ List.replicate (s'.urgentWrites.length - s.urgentWrites.length) n.cancels }

def note (n : Notes) (a : Consumer WritingSession) (l : Consumer.Label WritingAct)
    (b : Consumer WritingSession) : Notes :=
  match l with
  | .enter (.cancel _) =>
    if a.session.session.responseRequested then n else { n with cancels := n.cancels + 1 }
  | .session (.writer act) => n.written act a.session.writer
  | _ => n.enqueued a.session.session b.session.session

def noted (queueSize : Nat) : Lts.Machine (Observed (Consumer WritingSession) Notes)
    (Consumer.Label WritingAct) :=
  (Consumer.machine (writingProvider queueSize) {}).observed {} note

/-- Audio before a `clear` was enqueued before that `Cancel`, audio after it is of a later
input. -/
def InOrder (x y : ClientEvent × Nat) : Prop :=
  match x.1, y.1 with
  | .inputAudioAppend _, .inputAudioClear => x.2 < y.2
  | .inputAudioClear, .inputAudioAppend _ => x.2 ≤ y.2
  | _, _ => True

instance (x y : ClientEvent × Nat) : Decidable (InOrder x y) := by
  unfold InOrder
  split <;> infer_instance

/-- The inner select leaves audio of the current input behind a waiting `clear`. -/
def ClearsFirst (o : Observed (Consumer WritingSession) Notes) (l : Consumer.Label WritingAct) :
    Prop :=
  l = .session (.writer .receive) → ∀ batch rest, o.state.session.session.writes = batch :: rest →
    batch.inputAudio = true →
    batch.inputGeneration = o.state.session.session.inputGeneration →
    o.state.session.session.urgentWrites = []

-- ---------------------------------------------------------------------------
-- The queues
-- ---------------------------------------------------------------------------

variable {n : Notes} {s s' : Session} {w w' : Writer} {queueSize : Nat} {act : Act} {c : Call}
  {result : Option Error} {events events' : List ConversationEvent} {batch : OutboundBatch}
  {k : Nat}

def ClientEvent.isInput : ClientEvent → Bool
  | .inputAudioAppend _ | .inputAudioClear => true
  | _ => false

def OutboundBatch.Plain (batch : OutboundBatch) : Prop :=
  batch.inputAudio = false ∧ ∀ e ∈ batch.events, e.isInput = false

def OutboundBatch.Audio (batch : OutboundBatch) (k : Nat) : Prop :=
  batch.inputAudio = true ∧ batch.inputGeneration = k ∧ ∃ pcm, batch.events = [.inputAudioAppend pcm]

/-- What `SendAudio` enqueues. -/
def audioBatch (pcm : List UInt8) (generation : Nat) : OutboundBatch :=
  { events := [.inputAudioAppend pcm], inputAudio := true, inputGeneration := generation }

def clearBatch : OutboundBatch := { events := [.inputAudioClear] }

/-- A waiting batch and the number noted with it, after so many `Cancel`s; `clearing` says
that the last of them has not enqueued its `clear`. -/
def Ready (cancels : Nat) (clearing : Prop) (batch : OutboundBatch) (k : Nat) : Prop :=
  batch.Plain ∨ (batch.Audio k ∧ k ≤ cancels ∧ (clearing → k < cancels))

theorem Ready.mono {cancels : Nat} {p q : Prop} (h : Ready cancels p batch k) (hqp : q → p) :
    Ready cancels q batch k :=
  h.imp_right fun ⟨ha, hle, hlt⟩ => ⟨ha, hle, fun hq => hlt (hqp hq)⟩

theorem Ready.ne_clear {cancels : Nat} {p : Prop} (h : Ready cancels p batch k) :
    batch ≠ clearBatch := by
  rintro rfl
  rcases h with h | h
  · have := h.2 .inputAudioClear (by simp [clearBatch])
    cases this
  · cases h.1.1

/-- What everything but input does to the queues: a plain batch at most. -/
structure Calm (s s' : Session) : Prop where
  urgent : s'.urgentWrites = s.urgentWrites
  generation : s'.inputGeneration = s.inputGeneration
  calling : s'.calling = .clearInput → s.calling = .clearInput
  writes : s'.writes = s.writes ∨ ∃ batch : OutboundBatch, s'.writes = s.writes ++ [batch] ∧ batch.Plain

theorem Calm.of_eq (hu : s'.urgentWrites = s.urgentWrites)
    (hg : s'.inputGeneration = s.inputGeneration) (hw : s'.writes = s.writes)
    (hc : s'.calling = .clearInput → s.calling = .clearInput) : Calm s s' :=
  ⟨hu, hg, hc, .inl hw⟩

theorem fail_calm (err : Error) (s : Session) : Calm s (s.fail err) := by
  unfold Session.fail
  split <;> exact .of_eq rfl rfl rfl id

theorem Calm.reader {reader : List ReaderOp} (h : Calm s s') : Calm s { s' with reader } :=
  ⟨h.urgent, h.generation, h.calling, h.writes⟩

theorem step_calm (hact : act.ofWriter = false)
    (h : step queueSize act s events = some (s', events')) : Calm s s' := by
  cases act with
  | receive event =>
    rw [step, Option.ite_none_right_eq_some] at h
    cases h.2
    exact .of_eq rfl rfl rfl id
  | readFailed err =>
    rw [step, Option.ite_none_right_eq_some] at h
    cases h.2
    exact fail_calm err s
  | read =>
    rw [step] at h
    unfold readStep at h
    split at h
    · cases h
    · cases h
      exact .of_eq rfl rfl rfl id
    · cases h
      exact .of_eq rfl rfl rfl id
    · split at h <;> cases h <;> exact .of_eq rfl rfl rfl id
    · split at h <;> cases h
      exact .of_eq rfl rfl rfl id
    · cases h
      exact .of_eq rfl rfl rfl id
    · cases h
      exact (fail_calm _ s).reader
  | stopPublishing =>
    simp only [step] at h
    split at h
    · rw [Option.ite_none_right_eq_some] at h
      cases h.2
      exact .of_eq rfl rfl rfl id
    · cases h
  | publishFailed =>
    simp only [step] at h
    split at h
    · rw [Option.ite_none_right_eq_some] at h
      cases h.2
      exact (fail_calm _ s).reader
    · cases h
  | enqueueCancel =>
    rw [step, Option.ite_none_right_eq_some] at h
    cases h.2
    refine ⟨rfl, rfl, nofun, .inr ⟨_, rfl, rfl, ?_⟩⟩
    simp [ClientEvent.isInput]
  | close =>
    cases h
    exact .of_eq rfl rfl rfl id
  | writeUrgent | write | writeFailed => cases hact

/-- A call that returns: a clear or audio is enqueued, or nothing of input. -/
inductive Returned (s s' : Session) (c : Call) (result : Option Error) : Prop
  | calm : Calm s s' → ((∃ e, c = .cancel e) → s'.calling ≠ .clearInput) → Returned s s' c result
  | audio (e : Nat) (pcm : List UInt8) : c = .sendAudio e pcm →
      s' = { s with writes := s.writes ++ [audioBatch pcm s.inputGeneration] } →
      Returned s s' c result
  | clear : s.calling = .clearInput →
      s' = { s with calling := .none, urgentWrites := s.urgentWrites ++ [clearBatch] } →
      Returned s s' c result

theorem enqueueNow_eq (h : s.enqueueNow queueSize batch = some s') :
    s' = { s with writes := s.writes ++ [batch] } := by
  rw [Session.enqueueNow, Option.ite_none_right_eq_some] at h
  cases h.2
  rfl

theorem call_returned (h : call queueSize c result s events = some (s', events')) :
    Returned s s' c result := by
  cases c with
  | sendAudio e pcm =>
    cases result with
    | some err =>
      cases h
      exact .calm (.of_eq rfl rfl rfl id) nofun
    | none =>
      simp only [call, Option.ite_none_left_eq_some, Option.map_eq_some_iff] at h
      obtain ⟨-, x, hx, heq⟩ := h
      cases heq
      exact .audio e pcm rfl (enqueueNow_eq hx)
  | commit e =>
    simp only [call, Option.map_eq_some_iff] at h
    obtain ⟨x, hx, heq⟩ := h
    cases heq
    unfold Session.commit at hx
    split at hx
    · rw [enqueueNow_eq hx]
      refine .calm ⟨rfl, rfl, nofun, .inr ⟨_, rfl, rfl, ?_⟩⟩ nofun
      simp [ClientEvent.isInput]
    · cases hx
      exact .calm (.of_eq rfl rfl rfl nofun) nofun
    · cases hx
      exact .calm (.of_eq rfl rfl rfl nofun) nofun
    · cases hx
  | cancel e =>
    simp only [call, Option.map_eq_some_iff] at h
    obtain ⟨x, hx, heq⟩ := h
    cases heq
    unfold Session.cancel at hx
    split at hx
    · rename_i hc
      rw [Option.ite_none_right_eq_some] at hx
      cases hx.2
      exact .clear hc rfl
    · cases hx
      exact .calm (.of_eq rfl rfl rfl nofun) fun _ => nofun
    · cases hx
      exact .calm (.of_eq rfl rfl rfl nofun) fun _ => nofun
    · cases hx
      exact .calm (.of_eq rfl rfl rfl nofun) fun _ => nofun
    · rw [Option.ite_none_right_eq_some] at hx
      cases hx.2
      exact .calm (.of_eq rfl rfl rfl nofun) fun _ => nofun
    · cases hx
      exact .calm (.of_eq rfl rfl rfl nofun) fun _ => nofun
    · cases hx
  | discardLastResponse e =>
    simp only [call, Option.map_eq_some_iff] at h
    obtain ⟨x, hx, heq⟩ := h
    cases heq
    unfold Session.discardLastResponse at hx
    dsimp only at hx
    split at hx
    · cases hx
      exact .calm (.of_eq rfl rfl rfl id) nofun
    · cases hx
    · rw [enqueueNow_eq hx]
      refine .calm ⟨rfl, rfl, id, .inr ⟨_, rfl, rfl, ?_⟩⟩ nofun
      simp [ClientEvent.isInput]
    · cases hx
      exact .calm (.of_eq rfl rfl rfl id) nofun
  | drain =>
    cases h
    exact .calm (.of_eq rfl rfl rfl id) nofun

-- ---------------------------------------------------------------------------
-- The invariant
-- ---------------------------------------------------------------------------

/-- The `clear` the writer holds. -/
def Writer.clears (held : Nat) : Writer → List Nat
  | .holding batch => if batch = clearBatch then [held] else []
  | .writing events => if .inputAudioClear ∈ events then [held] else []
  | _ => []

/-- The numbers of the `clear`s that are not on the wire yet. -/
def unwritten (n : Notes) (s : Session) (w : Writer) : List Nat :=
  w.clears n.held ++ n.urgent ++ if s.calling = .clearInput then [n.cancels] else []

def Holds (n : Notes) (s : Session) (w : Writer) : Prop :=
  match w with
  | .holding batch => batch = clearBatch ∨ batch.Plain ∨
      (batch.Audio n.held ∧ n.held ≤ n.cancels ∧
        (n.held = n.cancels → s.urgentWrites = [] ∧ s.calling ≠ .clearInput))
  | .writing events => events = [.inputAudioClear] ∨ (∀ e ∈ events, e.isInput = false) ∨
      ((∃ pcm, events = [.inputAudioAppend pcm]) ∧ n.held ≤ n.cancels ∧
        (∀ k ∈ unwritten n s w, n.held < k) ∧ ∀ k, (.inputAudioClear, k) ∈ n.wire → k ≤ n.held)
  | _ => True

structure Fencing (n : Notes) (s : Session) (w : Writer) : Prop where
  counts : s.inputGeneration = n.cancels
  writes : List.Forall₂ (Ready n.cancels (s.calling = .clearInput)) s.writes n.writes
  urgent : List.Forall₂ (fun batch _ => batch = clearBatch) s.urgentWrites n.urgent
  bounded : ∀ k ∈ unwritten n s w, k ≤ n.cancels
  holds : Holds n s w
  clears : ∀ k, (.inputAudioClear, k) ∈ n.wire → k ≤ n.cancels
  audio : ∀ pcm g, (.inputAudioAppend pcm, g) ∈ n.wire →
    g ≤ n.cancels ∧ ∀ k ∈ unwritten n s w, g < k
  wire : n.wire.Pairwise InOrder

theorem mem_unwritten : k ∈ unwritten n s w ↔ k ∈ w.clears n.held ∨ k ∈ n.urgent ∨
    (s.calling = .clearInput ∧ k = n.cancels) := by
  unfold unwritten
  split <;> rename_i hc <;> simp [hc]

/-- Fewer `clear`s are on their way, and what the writer holds is the same. -/
theorem Holds.mono {n' : Notes} (h : Holds n s w)
    (hn : n'.held = n.held ∧ n'.cancels = n.cancels ∧ n'.wire = n.wire)
    (hu : ∀ k ∈ unwritten n' s' w, k ∈ unwritten n s w)
    (hs : s.urgentWrites = [] ∧ s.calling ≠ .clearInput →
      s'.urgentWrites = [] ∧ s'.calling ≠ .clearInput) : Holds n' s' w := by
  obtain ⟨h1, h2, h3⟩ := hn
  cases w with
  | holding batch =>
    refine h.imp_right (Or.imp_right fun ⟨ha, hle, hlast⟩ => ?_)
    rw [h1, h2]
    exact ⟨ha, hle, fun he => hs (hlast he)⟩
  | writing events =>
    refine h.imp_right (Or.imp_right fun ⟨ha, hle, hlt, hwire⟩ => ?_)
    rw [h1, h2, h3]
    exact ⟨ha, hle, fun k hk => hlt k (hu k hk), hwire⟩
  | selecting | waiting | stopped => trivial

/-- The queues have changed; no `clear` is new. -/
theorem Fencing.queued {n' : Notes} (h : Fencing n s w)
    (hn : n'.held = n.held ∧ n'.cancels = n.cancels ∧ n'.wire = n.wire)
    (hg : s'.inputGeneration = s.inputGeneration)
    (hw : List.Forall₂ (Ready n.cancels (s'.calling = .clearInput)) s'.writes n'.writes)
    (hq : List.Forall₂ (fun batch _ => batch = clearBatch) s'.urgentWrites n'.urgent)
    (hu : ∀ k ∈ unwritten n' s' w, k ∈ unwritten n s w)
    (hs : s.urgentWrites = [] ∧ s.calling ≠ .clearInput →
      s'.urgentWrites = [] ∧ s'.calling ≠ .clearInput) : Fencing n' s' w := by
  have hholds := h.holds.mono hn hu hs
  obtain ⟨h1, h2, h3⟩ := hn
  refine ⟨?_, h2 ▸ hw, hq, fun k hk => ?_, hholds, ?_, ?_, ?_⟩
  · rw [hg, h2]
    exact h.counts
  · rw [h2]
    exact h.bounded k (hu k hk)
  · rw [h3, h2]
    exact h.clears
  · rw [h3, h2]
    exact fun pcm g hg => ⟨(h.audio pcm g hg).1, fun k hk => (h.audio pcm g hg).2 k (hu k hk)⟩
  · rw [h3]
    exact h.wire

theorem forall₂_concat {α β : Type} {R : α → β → Prop} {xs : List α} {ys : List β} {x : α} {y : β}
    (h : List.Forall₂ R xs ys) (hr : R x y) : List.Forall₂ R (xs ++ [x]) (ys ++ [y]) :=
  List.rel_append h (.cons hr .nil)

theorem enqueued_writes (h : s'.writes = s.writes ++ [batch]) :
    (n.enqueued s s').writes = n.writes ++ [n.cancels] := by
  simp [Notes.enqueued, h]

theorem Fencing.calm (h : Fencing n s w) (hs : Calm s s') :
    Fencing (n.enqueued s s') s' w := by
  have hurgent : (n.enqueued s s').urgent = n.urgent := by simp [Notes.enqueued, hs.urgent]
  refine h.queued ⟨rfl, rfl, rfl⟩ hs.generation ?_ ?_ (fun k hk => ?_)
    fun ⟨hnil, hc⟩ => ⟨hs.urgent.trans hnil, fun hc' => hc (hs.calling hc')⟩
  · have hold := h.writes.imp fun _ _ hr => hr.mono hs.calling
    rcases hs.writes with he | ⟨batch, he, hplain⟩
    · simpa [Notes.enqueued, he] using hold
    · rw [he, enqueued_writes he]
      exact forall₂_concat hold (.inl hplain)
  · rw [hurgent, hs.urgent]
    exact h.urgent
  · rw [mem_unwritten, hurgent] at hk
    rw [mem_unwritten]
    exact hk.imp id (Or.imp id fun ⟨hc, he⟩ => ⟨hs.calling hc, he⟩)

theorem Fencing.returned (h : Fencing n s w) (hs : Returned s s' c result)
    (hc : s.calling = .clearInput → ∃ e, c = .cancel e) : Fencing (n.enqueued s s') s' w := by
  cases hs with
  | calm hs _ => exact h.calm hs
  | audio e pcm hcall heq =>
    have hidle : s.calling ≠ .clearInput := fun hclear => by
      obtain ⟨e', he'⟩ := hc hclear
      rw [hcall] at he'
      cases he'
    have hwrites : s'.writes = s.writes ++ [audioBatch pcm s.inputGeneration] := by rw [heq]
    have hurgent : (n.enqueued s s').urgent = n.urgent := by simp [Notes.enqueued, heq]
    refine h.queued ⟨rfl, rfl, rfl⟩ (by rw [heq]) ?_ (by rw [hurgent, heq]; exact h.urgent)
      (fun k hk => ?_) (by rw [heq]; exact id)
    · rw [enqueued_writes hwrites, hwrites]
      refine forall₂_concat (by rw [heq]; exact h.writes) (.inr ⟨⟨rfl, h.counts, pcm, rfl⟩, ?_⟩)
      exact ⟨Nat.le_refl _, fun hclear => absurd (by rwa [heq] at hclear) hidle⟩
    · rw [mem_unwritten, hurgent, heq] at hk
      exact mem_unwritten.mpr hk
  | clear hclear heq =>
    have hwrites : (n.enqueued s s').writes = n.writes := by simp [Notes.enqueued, heq]
    have hurgent : (n.enqueued s s').urgent = n.urgent ++ [n.cancels] := by
      simp [Notes.enqueued, heq]
    refine h.queued ⟨rfl, rfl, rfl⟩ (by rw [heq]) ?_ ?_ (fun k hk => ?_)
      fun hs => absurd hclear hs.2
    · rw [hwrites, heq]
      exact h.writes.imp fun _ _ hr => hr.mono nofun
    · rw [hurgent, heq]
      exact forall₂_concat h.urgent rfl
    · rw [mem_unwritten, hurgent, List.mem_append, List.mem_singleton, heq] at hk
      rw [mem_unwritten]
      rcases hk with hk | (hk | hk) | ⟨hk, -⟩
      · exact .inl hk
      · exact .inr (.inl hk)
      · exact .inr (.inr ⟨hclear, hk⟩)
      · cases hk

/-- A `Cancel` begins while no response is requested. -/
theorem Fencing.cancels (h : Fencing n s w) : Fencing
    { n with cancels := n.cancels + 1 }
    { s with calling := .clearInput, inputGeneration := s.inputGeneration + 1 } w := by
  have hu : ∀ k ∈ unwritten { n with cancels := n.cancels + 1 }
      { s with calling := .clearInput, inputGeneration := s.inputGeneration + 1 } w,
      k ∈ unwritten n s w ∨ k = n.cancels + 1 := fun k hk => by
    rw [mem_unwritten] at hk ⊢
    exact hk.elim (fun hk => .inl (.inl hk)) fun hk => hk.elim (fun hk => .inl (.inr (.inl hk)))
      fun hk => .inr hk.2
  refine ⟨congrArg (· + 1) h.counts, ?_, h.urgent, fun k hk => ?_, ?_,
    fun k hk => Nat.le_succ_of_le (h.clears k hk), fun pcm g hg => ?_, h.wire⟩
  · exact h.writes.imp fun _ _ hr => hr.imp_right fun ⟨ha, hle, _⟩ =>
      ⟨ha, Nat.le_succ_of_le hle, fun _ => Nat.lt_succ_of_le hle⟩
  · rcases hu k hk with hk | rfl
    · exact Nat.le_succ_of_le (h.bounded k hk)
    · exact Nat.le_refl _
  · have hholds := h.holds
    cases w with
    | holding batch =>
      refine hholds.imp_right (Or.imp_right fun ⟨ha, hle, _⟩ => ?_)
      refine ⟨ha, Nat.le_succ_of_le hle, fun he => ?_⟩
      exact absurd he (Nat.ne_of_lt (Nat.lt_succ_of_le hle))
    | writing events =>
      refine hholds.imp_right (Or.imp_right fun ⟨ha, hle, hlt, hwire⟩ => ?_)
      refine ⟨ha, Nat.le_succ_of_le hle, fun k hk => ?_, hwire⟩
      rcases hu k hk with hk | rfl
      · exact hlt k hk
      · exact Nat.lt_succ_of_le hle
    | selecting | waiting | stopped => trivial
  · obtain ⟨hle, hlt⟩ := h.audio pcm g hg
    refine ⟨Nat.le_succ_of_le hle, fun k hk => ?_⟩
    rcases hu k hk with hk | rfl
    · exact hlt k hk
    · exact Nat.lt_succ_of_le hle

-- ---------------------------------------------------------------------------
-- The writer's steps
-- ---------------------------------------------------------------------------

theorem Fencing.taken (h : Fencing n s w) {rest : List OutboundBatch} (hw : w.clears n.held = [])
    (hq : s.urgentWrites = batch :: rest) :
    Fencing { n with held := n.urgent.headD 0, urgent := n.urgent.tail }
      { s with urgentWrites := rest } (.holding batch) := by
  obtain ⟨k, ks, hbatch, hrest, hks⟩ := List.forall₂_cons_left_iff.mp (hq ▸ h.urgent)
  subst hbatch
  have hu : ∀ x, x ∈ unwritten { n with held := n.urgent.headD 0, urgent := n.urgent.tail }
      { s with urgentWrites := rest } (.holding clearBatch) → x ∈ unwritten n s w := fun x hx => by
    rw [mem_unwritten] at hx ⊢
    rw [hw, hks]
    simpa [hks, Writer.clears, or_assoc] using hx
  refine ⟨h.counts, h.writes, ?_, fun k hk => h.bounded k (hu k hk), .inl rfl, h.clears,
    fun pcm g hg => ⟨(h.audio pcm g hg).1, fun k hk => (h.audio pcm g hg).2 k (hu k hk)⟩, h.wire⟩
  rw [hks]
  exact hrest

theorem Fencing.received (h : Fencing n s w) {rest : List OutboundBatch} (hw : w.clears n.held = [])
    (hq : s.writes = batch :: rest)
    (hfirst : batch.inputAudio = true → batch.inputGeneration = s.inputGeneration →
      s.urgentWrites = []) :
    Fencing { n with held := n.writes.headD 0, writes := n.writes.tail }
      { s with writes := rest } (.holding batch) := by
  obtain ⟨k, ks, hready, hrest, hks⟩ := List.forall₂_cons_left_iff.mp (hq ▸ h.writes)
  have hu : ∀ x, x ∈ unwritten { n with held := n.writes.headD 0, writes := n.writes.tail }
      { s with writes := rest } (.holding batch) → x ∈ unwritten n s w := fun x hx => by
    rw [mem_unwritten] at hx ⊢
    rw [hw]
    simpa [Writer.clears, hready.ne_clear] using hx
  refine ⟨h.counts, ?_, h.urgent, fun k hk => h.bounded k (hu k hk), .inr ?_, h.clears,
    fun pcm g hg => ⟨(h.audio pcm g hg).1, fun k hk => (h.audio pcm g hg).2 k (hu k hk)⟩, h.wire⟩
  · rw [hks]
    exact hrest
  · refine hready.imp_right fun ⟨ha, hle, hlt⟩ => ?_
    simp only [hks, List.headD_cons]
    refine ⟨ha, hle, fun hlast => ⟨hfirst ha.1 ?_, fun hc => ?_⟩⟩
    · rw [ha.2.1, hlast, h.counts]
    · exact absurd hlast (Nat.ne_of_lt (hlt hc))

theorem Fencing.free (h : Fencing n s w) (hw : w'.clears n.held = []) (hholds : Holds n s w') :
    Fencing n s w' := by
  have hu : ∀ k ∈ unwritten n s w', k ∈ unwritten n s w := fun k hk => by
    rw [mem_unwritten, hw] at hk
    rw [mem_unwritten]
    exact hk.elim nofun .inr
  exact ⟨h.counts, h.writes, h.urgent, fun k hk => h.bounded k (hu k hk), hholds, h.clears,
    fun pcm g hg => ⟨(h.audio pcm g hg).1, fun k hk => (h.audio pcm g hg).2 k (hu k hk)⟩, h.wire⟩

theorem Fencing.compared (h : Fencing n s (.holding batch))
    (hc : ¬ (batch.inputAudio ∧ batch.inputGeneration ≠ s.inputGeneration)) :
    Fencing n s (.writing batch.events) := by
  rcases h.holds with rfl | hplain | ⟨haudio, hle, hlast⟩
  · have hsame : unwritten n s (.writing clearBatch.events) = unwritten n s (.holding clearBatch) := by
      simp [unwritten, Writer.clears, clearBatch]
    exact ⟨h.counts, h.writes, h.urgent, hsame ▸ h.bounded, .inl rfl, h.clears, hsame ▸ h.audio,
      h.wire⟩
  · refine h.free (if_neg fun hmem => ?_) (.inr (.inl hplain.2))
    exact absurd (hplain.2 _ hmem) nofun
  · obtain ⟨ha, hg, pcm, hevents⟩ := haudio
    have hcurrent : n.held = n.cancels := by
      rw [← hg, ← h.counts]
      exact Decidable.not_not.mp fun hne => hc ⟨ha, hne⟩
    obtain ⟨hnil, hidle⟩ := hlast hcurrent
    have hclears : Writer.clears n.held (.writing batch.events) = [] := by
      simp [Writer.clears, hevents]
    refine h.free hclears (.inr (.inr ⟨⟨pcm, hevents⟩, hle, fun k hk => ?_, fun k hk => ?_⟩))
    · -- no `clear` is on its way
      have hurgent : n.urgent = [] := List.forall₂_nil_left_iff.mp (hnil ▸ h.urgent)
      rw [mem_unwritten, hclears, hurgent] at hk
      rcases hk with hk | hk | ⟨hk, -⟩
      · cases hk
      · cases hk
      · exact absurd hk hidle
    · rw [hcurrent]
      exact h.clears k hk

theorem inOrder_of_plain {x y : ClientEvent × Nat} (h : y.1.isInput = false) : InOrder x y := by
  obtain ⟨x, i⟩ := x
  obtain ⟨y, k⟩ := y
  cases y with
  | inputAudioAppend | inputAudioClear => cases h
  | _ => cases x <;> trivial

/-- An event goes out: the last of its batch if it is input. -/
theorem Fencing.wrote {event : ClientEvent} {rest : List ClientEvent}
    (h : Fencing n s (.writing (event :: rest))) : Fencing
    { n with wire := n.wire ++ [(event, n.held)] } { s with sent := s.sent ++ [event] }
    (.writing rest) := by
  have hmem : ∀ x, x ∈ n.wire ++ [(event, n.held)] ↔ x ∈ n.wire ∨ x = (event, n.held) := by simp
  -- the writer is left with nothing of input
  have goes (hrest : ∀ e ∈ rest, e.isInput = false)
      (hclear : event = .inputAudioClear → n.held ≤ n.cancels)
      (haudio : ∀ pcm, event = .inputAudioAppend pcm → n.held ≤ n.cancels ∧
        ∀ k ∈ unwritten n s (.writing (event :: rest)), n.held < k)
      (horder : ∀ x ∈ n.wire, InOrder x (event, n.held)) : Fencing
      { n with wire := n.wire ++ [(event, n.held)] } { s with sent := s.sent ++ [event] }
      (.writing rest) := by
    have hu : ∀ k, k ∈ unwritten { n with wire := n.wire ++ [(event, n.held)] }
        { s with sent := s.sent ++ [event] } (.writing rest) →
        k ∈ unwritten n s (.writing (event :: rest)) := fun k hk => by
      rw [mem_unwritten] at hk ⊢
      refine hk.imp_left fun hk => ?_
      rw [Writer.clears, if_neg fun hm => by cases hrest _ hm] at hk
      cases hk
    refine ⟨h.counts, h.writes, h.urgent, fun k hk => h.bounded k (hu k hk), .inr (.inl hrest),
      fun k hk => ?_, fun pcm g hg => ?_, List.pairwise_append.mpr ⟨h.wire, by simp, ?_⟩⟩
    · rcases (hmem _).mp hk with hk | hk
      · exact h.clears k hk
      · cases hk
        exact hclear rfl
    · rcases (hmem _).mp hg with hg | hg
      · exact ⟨(h.audio pcm g hg).1, fun k hk => (h.audio pcm g hg).2 k (hu k hk)⟩
      · cases hg
        exact ⟨(haudio pcm rfl).1, fun k hk => (haudio pcm rfl).2 k (hu k hk)⟩
    · intro x hx y hy
      cases List.mem_singleton.mp hy
      exact horder x hx
  rcases h.holds with hone | hplain | ⟨⟨pcm, hone⟩, hle, hlt, hwire⟩
  · cases hone
    have hheld : n.held ∈ unwritten n s (.writing [.inputAudioClear]) := by
      simp [mem_unwritten, Writer.clears]
    refine goes nofun (fun _ => h.bounded _ hheld) nofun fun x hx => ?_
    obtain ⟨e, g⟩ := x
    cases e with
    | inputAudioAppend pcm => exact (h.audio pcm g hx).2 _ hheld
    | _ => trivial
  · have hevent := hplain event List.mem_cons_self
    refine goes (fun e he => hplain e (List.mem_cons_of_mem _ he)) ?_ ?_
      fun x _ => inOrder_of_plain hevent
    · rintro rfl
      cases hevent
    · rintro pcm rfl
      cases hevent
  · cases hone
    refine goes nofun nofun (fun _ _ => ⟨hle, hlt⟩) fun x hx => ?_
    obtain ⟨e, g⟩ := x
    cases e with
    | inputAudioClear => exact hwire g hx
    | _ => trivial

theorem Fencing.failed (h : Fencing n s w) (err : Error) :
    Fencing n (if s.closed then s else s.fail err) .stopped := by
  have hfree : Fencing n s .stopped := h.free rfl trivial
  split
  · exact hfree
  · have hcalm := fail_calm err s
    have hwrites : (s.fail err).writes = s.writes := by
      unfold Session.fail
      split <;> rfl
    have hsame : n.enqueued s (s.fail err) = n := by simp [Notes.enqueued, hcalm.urgent, hwrites]
    exact hsame ▸ hfree.calm hcalm

theorem Fencing.writerStep {act : WriterAct} (h : Fencing n s w)
    (hfirst : act = .receive → ∀ batch rest, s.writes = batch :: rest → batch.inputAudio = true →
      batch.inputGeneration = s.inputGeneration → s.urgentWrites = [])
    (hs : writerStep act s w = some (s', w')) : Fencing (n.written act w) s' w' := by
  unfold BoomPI.Qwen.writerStep at hs
  split at hs
  · split at hs <;> cases hs
    exact h.taken rfl ‹_›
  · split at hs <;> cases hs
    exact h.taken rfl ‹_›
  · rw [Option.ite_none_right_eq_some] at hs
    cases hs.2
    exact h.free rfl trivial
  · split at hs <;> cases hs
    rename_i hq
    exact h.received rfl hq fun ha hg => hfirst rfl _ _ hq ha hg
  · rw [Option.ite_none_right_eq_some] at hs
    cases hs.2
    exact h.free rfl trivial
  · split at hs <;> cases hs
    · exact h.free rfl trivial
    · exact h.compared ‹_›
  · cases hs
    exact h.wrote
  · cases hs
    exact h.free rfl trivial
  · cases hs
    exact h.failed _
  · cases hs

-- ---------------------------------------------------------------------------
-- Every run
-- ---------------------------------------------------------------------------

structure Fenced (a : Consumer WritingSession) (n : Notes) : Prop where
  fencing : Fencing n a.session.session a.session.writer
  calling : a.session.session.calling = .clearInput → ∃ e, a.calling = some (.cancel e)

theorem enter_calm (h : ∀ e, c ≠ .cancel e) : Calm s (enter c s) ∧ (enter c s).writes = s.writes := by
  cases c with
  | commit e =>
    unfold enter
    dsimp only
    split <;> exact ⟨.of_eq rfl rfl rfl nofun, rfl⟩
  | cancel e => exact absurd rfl (h e)
  | sendAudio | discardLastResponse | drain => exact ⟨.of_eq rfl rfl rfl id, rfl⟩

theorem Fenced.entered {a b : Consumer WritingSession} (h : Fenced a n)
    (hs : (Consumer.machine (writingProvider queueSize) {}).step a (.enter c) = some b) :
    Fenced b (note n a (.enter c) b) := by
  obtain ⟨hc, hp, -, hc', -⟩ := Consumer.step_enter hs
  change b.session = { a.session with session := enter c a.session.session } at hp
  have hidle : a.session.session.calling ≠ .clearInput := fun hclear => by
    obtain ⟨e, he⟩ := h.calling hclear
    rw [he] at hc
    cases hc
  -- a call that does not cancel input
  have calm (hcalm : Calm a.session.session (enter c a.session.session))
      (hw : (enter c a.session.session).writes = a.session.session.writes) : Fenced b n := by
    have hsame : n.enqueued a.session.session (enter c a.session.session) = n := by
      simp [Notes.enqueued, hcalm.urgent, hw]
    rw [← hsame]
    refine ⟨?_, fun hclear => absurd (hcalm.calling ?_) hidle⟩ <;> rw [hp] at *
    · exact h.fencing.calm hcalm
    · exact hclear
  by_cases hcancel : ∃ e, c = .cancel e
  · obtain ⟨e, rfl⟩ := hcancel
    cases hr : a.session.session.responseRequested with
    | false =>
      have henter : enter (.cancel e) a.session.session = { a.session.session with
          calling := .clearInput, inputGeneration := a.session.session.inputGeneration + 1 } := by
        simp [enter, hr]
      simp only [note, hr, Bool.false_eq_true, if_false]
      refine ⟨?_, fun _ => ⟨e, hc'⟩⟩
      rw [hp, henter]
      exact h.fencing.cancels
    | true =>
      simp only [note, hr, if_true]
      have hcalm : Calm a.session.session (enter (.cancel e) a.session.session) ∧
          (enter (.cancel e) a.session.session).writes = a.session.session.writes := by
        unfold enter Session.stopResponsePublish
        simp only [hr, Bool.true_eq_false, if_false]
        split
        · exact ⟨.of_eq rfl rfl rfl nofun, rfl⟩
        · split <;> exact ⟨.of_eq rfl rfl rfl nofun, rfl⟩
      exact calm hcalm.1 hcalm.2
  · obtain ⟨hcalm, hw⟩ := enter_calm (s := a.session.session) fun e he => hcancel ⟨e, he⟩
    have hnote : note n a (.enter c) b = n.enqueued a.session.session b.session.session := by
      cases c <;> first | rfl | exact absurd ⟨_, rfl⟩ hcancel
    have hsame : n.enqueued a.session.session b.session.session = n := by
      simp [Notes.enqueued, hp, hcalm.urgent, hw]
    rw [hnote, hsame]
    exact calm hcalm hw

theorem Fenced.returned {a b : Consumer WritingSession} (h : Fenced a n)
    (hs : (Consumer.machine (writingProvider queueSize) {}).step a (.returns result) = some b) :
    Fenced b (note n a (.returns result) b) := by
  obtain ⟨c, p, events', hc, hcall, rfl⟩ := Consumer.step_returns hs
  obtain ⟨⟨s', evs⟩, hcall, heq⟩ := Option.map_eq_some_iff.mp hcall
  cases heq
  have hcancel (hclear : a.session.session.calling = .clearInput) : ∃ e, c = .cancel e := by
    obtain ⟨e, he⟩ := h.calling hclear
    rw [he] at hc
    cases hc
    exact ⟨e, rfl⟩
  have hreturned := call_returned hcall
  have hfencing := h.fencing.returned hreturned hcancel
  have hidle : s'.calling ≠ .clearInput := fun hclear => by
    cases hreturned with
    | calm hcalm hne => exact hne (hcancel (hcalm.calling hclear)) hclear
    | audio e pcm hsend heq =>
      rw [heq] at hclear
      obtain ⟨e', he'⟩ := hcancel hclear
      rw [hsend] at he'
      cases he'
    | clear _ heq =>
      rw [heq] at hclear
      cases hclear
  refine ⟨?_, fun hclear => ?_⟩
  · simp only [note, Consumer.leave_session]
    exact hfencing
  · rw [Consumer.leave_session] at hclear
    exact absurd hclear hidle

theorem writerStep_calling {act : WriterAct} (h : writerStep act s w = some (s', w')) :
    s'.calling = s.calling := by
  unfold writerStep at h
  split at h
  case h_9 =>
    cases h
    split
    · rfl
    · unfold Session.fail
      split <;> rfl
  all_goals first
    | (cases h; rfl)
    | (split at h <;> cases h <;> rfl)
    | cases h

theorem Fenced.session {a b : Consumer WritingSession} {act : WritingAct} (h : Fenced a n)
    (hfirst : ClearsFirst ⟨a, n⟩ (.session act))
    (hs : (Consumer.machine (writingProvider queueSize) {}).step a (.session act) = some b) :
    Fenced b (note n a (.session act) b) := by
  obtain ⟨p, events', hstep, rfl⟩ := Consumer.step_session hs
  cases act with
  | other act =>
    rw [writingProvider] at hstep
    simp only [writingStep, Option.ite_none_left_eq_some, Option.map_eq_some_iff] at hstep
    obtain ⟨hact, ⟨s', evs⟩, hstep, heq⟩ := hstep
    cases heq
    have hcalm := step_calm (Bool.eq_false_iff.mpr hact) hstep
    exact ⟨h.fencing.calm hcalm, fun hclear => h.calling (hcalm.calling hclear)⟩
  | writer act =>
    obtain ⟨⟨s', w'⟩, hwriter, heq⟩ := Option.map_eq_some_iff.mp hstep
    cases heq
    refine ⟨h.fencing.writerStep (fun hact => hfirst (by rw [hact])) hwriter, fun hclear => ?_⟩
    exact h.calling ((writerStep_calling hwriter).symm.trans hclear)

theorem fenced {o : Observed (Consumer WritingSession) Notes}
    (h : (noted queueSize).ReachableUnder ClearsFirst o) : Fenced o.state o.notes := by
  refine h.invariant (I := fun o => Fenced o.state o.notes) ?_ ?_
  · rintro ⟨a, n⟩ ⟨rfl, rfl⟩
    refine ⟨⟨rfl, .nil, .nil, nofun, trivial, nofun, nofun, .nil⟩, nofun⟩
  rintro ⟨a, n⟩ l ⟨b, n'⟩ hf hfirst hs
  obtain ⟨hs, hn⟩ := Lts.Machine.observed_step hs
  rw [hn]
  cases l with
  | enter c => exact hf.entered hs
  | returns result => exact hf.returned hs
  | receive =>
    obtain ⟨event, events, hc, -, rfl⟩ := Consumer.step_receive hs
    have hsame : n.enqueued a.session.session a.session.session = n := by simp [Notes.enqueued]
    change Fenced _ (n.enqueued a.session.session a.session.session)
    rw [hsame]
    exact ⟨hf.fencing, hf.calling⟩
  | session act => exact hf.session hfirst hs

/-- While the inner select prefers a waiting `clear` to audio of the current input, every
`clear` parts the audio on the wire: the cancelled input before it, later input after it. -/
theorem clear_fences (queueSize : Nat) {o : Observed (Consumer WritingSession) Notes}
    (h : (noted queueSize).ReachableUnder ClearsFirst o) : o.notes.wire.Pairwise InOrder :=
  (fenced h).fencing.wire

-- ---------------------------------------------------------------------------
-- Runs
-- ---------------------------------------------------------------------------

def sends (e : Nat) : List (Consumer.Label WritingAct) :=
  [.enter (.sendAudio e [0, 0]), .returns none]

def cancelsInput (e : Nat) : List (Consumer.Label WritingAct) :=
  [.enter (.cancel e), .returns none]

def writes (acts : List WriterAct) : List (Consumer.Label WritingAct) :=
  acts.map fun act => .session (.writer act)

/-- The writer passes its outer select, and finds a `clear` and audio of the next turn at
the inner one. -/
def betweenSelects : List (Consumer.Label WritingAct) :=
  List.flatten [sends 1, writes [.skipUrgent, .receive, .compare, .write, .write, .skipUrgent],
    cancelsInput 1, sends 2,
    writes [.receive, .compare, .write, .write, .takeUrgent, .compare, .write]]

/-- The `clear` of the first turn removes the audio of the second. -/
theorem clear_after_next_input : ∃ o : Observed (Consumer WritingSession) Notes,
    (noted 8).Reachable o ∧ o.notes.wire = [(.inputAudioAppend [0, 0], 0),
      (.inputAudioAppend [0, 0], 1), (.inputAudioClear, 1)] ∧ ¬ o.notes.wire.Pairwise InOrder := by
  obtain ⟨o, -, ho, hp⟩ := (noted 8).exists_of_run ⟨{ session := {} }, {}⟩ betweenSelects
    (fun o => o.notes.wire = [(.inputAudioAppend [0, 0], 0), (.inputAudioAppend [0, 0], 1),
      (.inputAudioClear, 1)] ∧ ¬ o.notes.wire.Pairwise InOrder) ⟨rfl, rfl⟩ (by decide +kernel)
  exact ⟨o, ho, of_decide_eq_true hp⟩

def atOuterSelect : List (Consumer.Label WritingAct) :=
  List.flatten [sends 1, writes [.skipUrgent, .receive, .compare, .write, .write], cancelsInput 1,
    sends 2,
    writes [.takeUrgent, .compare, .write, .write, .skipUrgent, .receive, .compare, .write]]

def clearsFirst (o : Observed (Consumer WritingSession) Notes) : Consumer.Label WritingAct → Bool
  | .session (.writer .receive) => o.state.session.session.urgentWrites = []
  | _ => true

theorem clearsFirst_sound {o : Observed (Consumer WritingSession) Notes}
    {l : Consumer.Label WritingAct} (h : clearsFirst o l = true) : ClearsFirst o l := by
  rintro rfl batch rest - - -
  exact of_decide_eq_true h

theorem clear_fences_atOuterSelect : ∃ o : Observed (Consumer WritingSession) Notes,
    o.notes.wire = [(.inputAudioAppend [0, 0], 0), (.inputAudioClear, 1),
      (.inputAudioAppend [0, 0], 1)] ∧ o.notes.wire.Pairwise InOrder := by
  obtain ⟨o, ho, hp⟩ := (noted 8).exists_of_runIf clearsFirst (fun _ _ => clearsFirst_sound)
    ⟨{ session := {} }, {}⟩ atOuterSelect
    (fun o => o.notes.wire = [(.inputAudioAppend [0, 0], 0), (.inputAudioClear, 1),
      (.inputAudioAppend [0, 0], 1)]) ⟨rfl, rfl⟩ (by decide +kernel)
  exact ⟨o, of_decide_eq_true hp, clear_fences 8 ho⟩

end BoomPI.Qwen
