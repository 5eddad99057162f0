import BoomPI.Server.Asr

/-!
# What a stream is fed

A stream belongs to the utterance it is fed with: the session lets go of it when
the utterance is committed, cancelled or no longer fed into it, and an utterance
that found no stream at its first frame feeds none. So a stream that is committed
took the frames of one turn and a finish.
-/

namespace BoomPI.Asr

-- ---------------------------------------------------------------------------
-- What changes of a stream
-- ---------------------------------------------------------------------------

structure Stream.Grows (st st' : Stream) : Prop where
  returned : st.preparation = .returned → st'.preparation = .returned
  accepted : st.accepted <+: st'.accepted
  finished : st.finishQueued = true → st'.finishQueued = true ∧ st'.accepted = st.accepted

structure Stream.Quiet (st st' : Stream) : Prop where
  returned : st.preparation = .returned → st'.preparation = .returned
  accepted : st'.accepted = st.accepted
  finishQueued : st'.finishQueued = st.finishQueued

/-- What the writer did so far, as long as it goes on or has written the finish. -/
structure Stream.Sound (st : Stream) : Prop where
  fresh : st.preparation ≠ .returned →
    st.accepted = [] ∧ st.commands = [] ∧ st.written = [] ∧ st.finishQueued = false
  written : st.writing = true ∨ .finish ∈ st.written → st.written ++ st.commands = st.accepted
  writing : st.writing = true → .finish ∉ st.written
  unfinished : st.finishQueued = false → .finish ∉ st.accepted

namespace Stream

variable {st st' : Stream}

theorem Grows.refl (st : Stream) : Grows st st := ⟨id, List.prefix_rfl, fun h => ⟨h, rfl⟩⟩

theorem Grows.trans {st'' : Stream} (h : Grows st st') (h' : Grows st' st'') : Grows st st'' := by
  refine ⟨fun ho => h'.returned (h.returned ho), h.accepted.trans h'.accepted, fun hf => ?_⟩
  obtain ⟨hf, ha⟩ := h.finished hf
  obtain ⟨hf, ha'⟩ := h'.finished hf
  exact ⟨hf, ha'.trans ha⟩

theorem Quiet.grows (h : Quiet st st') : Grows st st' :=
  ⟨h.returned, h.accepted ▸ List.prefix_rfl, fun hf => ⟨h.finishQueued.trans hf, h.accepted⟩⟩

theorem queue_sound (c : Command) (hs : st.Sound) (hover : st.preparation = .returned)
    (hc : st.finishQueued = false → c ≠ .finish) : (st.queue c).Sound := by
  refine ⟨fun hn => absurd hover hn, fun h => ?_, hs.writing, fun hf hmem => ?_⟩
  · have := hs.written h
    simp [queue, ← this]
  · rcases List.mem_append.mp hmem with hmem | hmem
    · exact hs.unfinished hf hmem
    · exact hc hf (List.mem_singleton.mp hmem).symm

theorem Sound.congr (hs : st.Sound) (hover : st.preparation = .returned → st'.preparation = .returned)
    (hcommands : st'.commands = st.commands) (hf : st'.finishQueued = st.finishQueued)
    (hwriting : st'.writing = true → st.writing = true) (haccepted : st'.accepted = st.accepted)
    (hwritten : st'.written = st.written) : st'.Sound := by
  refine ⟨fun hn => ?_, fun h => ?_, fun h => ?_, ?_⟩
  · rw [haccepted, hcommands, hwritten, hf]
    exact hs.fresh fun ho => hn (hover ho)
  · rw [haccepted, hcommands, hwritten]
    rw [hwritten] at h
    exact hs.written (h.imp_left hwriting)
  · rw [hwritten]
    exact hs.writing (hwriting h)
  · rw [haccepted, hf]
    exact hs.unfinished

theorem append_cases {pcm : List UInt8} {branch : Branch} {ok : Bool}
    (h : st.append pcm branch = some (ok, st')) :
    (ok = false ∧ st.Quiet st' ∧ (st.Sound → st'.Sound)) ∨
    (ok = true ∧ st.finishQueued = false ∧ st' = st.queue (.audio pcm)) := by
  unfold append at h
  split at h
  · cases h
    exact .inl ⟨rfl, ⟨id, rfl, rfl⟩, id⟩
  rename_i hgo
  cases branch with
  | command =>
    simp only [Option.ite_none_right_eq_some, Option.some.injEq, Prod.mk.injEq] at h
    obtain ⟨-, rfl, rfl⟩ := h
    exact .inr ⟨rfl, by simpa using fun hn => hgo (.inr (.inr hn)), rfl⟩
  | writerDone =>
    simp only [Option.ite_none_right_eq_some, Option.some.injEq, Prod.mk.injEq] at h
    obtain ⟨-, rfl, rfl⟩ := h
    exact .inl ⟨rfl, ⟨id, rfl, rfl⟩, fun hs => hs.congr id rfl rfl id rfl rfl⟩
  | stopped =>
    simp only [Option.ite_none_right_eq_some, Option.some.injEq, Prod.mk.injEq] at h
    obtain ⟨-, rfl, rfl⟩ := h
    exact .inl ⟨rfl, ⟨id, rfl, rfl⟩, id⟩
  | default =>
    simp only [Option.ite_none_left_eq_some, Option.some.injEq, Prod.mk.injEq] at h
    obtain ⟨-, rfl, rfl⟩ := h
    exact .inl ⟨rfl, ⟨id, rfl, rfl⟩, id⟩
  | done => cases h

/-- The input of a stream is over, without a finish. -/
structure Refused (st st' : Stream) : Prop where
  preparation : st'.preparation = st.preparation
  accepted : st'.accepted = st.accepted
  finishQueued : st'.finishQueued = true

theorem Sound.refused (hs : st.Sound) (hover : st.preparation = .returned) {writerDone : Bool} :
    Sound { st with finishQueued := true, writerDone } :=
  ⟨fun hn => absurd hover hn, hs.written, hs.writing, nofun⟩

theorem commit_cases {ctxDone : Bool} {branch : Branch} {ok : Bool} (hover : st.preparation = .returned)
    (h : st.commit ctxDone branch = some (ok, st')) :
    (ok = false ∧ st.Refused st' ∧ (st.Sound → st'.Sound)) ∨
    (ok = true ∧ st.finishQueued = false ∧ st' = { st with finishQueued := true }.queue .finish) := by
  unfold commit at h
  split at h
  · rename_i hf
    cases h
    exact .inl ⟨rfl, ⟨rfl, rfl, hf⟩, id⟩
  rename_i hf
  have hf : st.finishQueued = false := by simpa using hf
  cases branch with
  | command =>
    simp only [Option.ite_none_right_eq_some, Option.some.injEq, Prod.mk.injEq] at h
    obtain ⟨-, rfl, rfl⟩ := h
    exact .inr ⟨rfl, hf, rfl⟩
  | writerDone | done | stopped =>
    simp only [Option.ite_none_right_eq_some, Option.some.injEq, Prod.mk.injEq] at h
    obtain ⟨-, rfl, rfl⟩ := h
    exact .inl ⟨rfl, ⟨rfl, rfl, rfl⟩, fun hs => hs.refused hover⟩
  | default => cases h

theorem write_quiet {ok : Bool} (h : st.write ok = some st') :
    st.Quiet st' ∧ (st.Sound → st'.Sound) := by
  unfold write at h
  rw [Option.ite_none_left_eq_some, Decidable.not_not] at h
  obtain ⟨hwriting, h⟩ := h
  cases hc : st.commands with
  | nil => simp [hc] at h
  | cons c commands =>
    simp only [hc, Option.some.injEq] at h
    subst h
    refine ⟨⟨id, rfl, rfl⟩, fun hs => ?_⟩
    have hwritten := hs.written (.inl hwriting)
    rw [hc] at hwritten
    have hopen := hs.writing hwriting
    have hfresh : st.preparation = .returned := by
      by_contra hn
      have := (hs.fresh hn).2.1
      simp [hc] at this
    cases ok with
    | true =>
      refine ⟨fun hn => absurd hfresh hn, fun _ => by simpa using hwritten, fun h => ?_, hs.unfinished⟩
      simp only [not_true_eq_false, or_false, decide_not, Bool.not_eq_true',
        decide_eq_false_iff_not] at h
      simpa [hopen] using fun hn => h hn.symm
    | false =>
      refine ⟨fun hn => absurd hfresh hn, fun h => ?_, fun h => by simp at h, hs.unfinished⟩
      simp [hopen] at h

end Stream

-- ---------------------------------------------------------------------------
-- What changes of the streams
-- ---------------------------------------------------------------------------

namespace Session

def Grows (s s' : Session) : Prop :=
  ∀ (i : Nat) (st : Stream), s.streams[i]? = some st → ∃ st', s'.streams[i]? = some st' ∧ st.Grows st'

def Quiet (s s' : Session) : Prop :=
  ∀ (i : Nat) (st : Stream), s.streams[i]? = some st → ∃ st', s'.streams[i]? = some st' ∧ st.Quiet st'

def Sound (s : Session) : Prop := ∀ (i : Nat) (st : Stream), s.streams[i]? = some st → st.Sound

variable {s s' s'' : Session} {i j : Nat} {st st' : Stream} {f : Stream → Stream}

theorem modify_streams : (s.modify i f).streams[j]? =
    s.streams[j]?.map fun st => if i = j then f st else st := by
  rw [modify, List.getElem?_modify]
  rfl

theorem Quiet.of_streams (h : s'.streams = s.streams) : Quiet s s' :=
  fun _ st hi => ⟨st, h ▸ hi, ⟨id, rfl, rfl⟩⟩

theorem Quiet.grows (h : Quiet s s') : Grows s s' := by
  intro i st hi
  obtain ⟨st', hi', hq⟩ := h i st hi
  exact ⟨st', hi', hq.grows⟩

theorem Quiet.trans (h : Quiet s s') (h' : Quiet s' s'') : Quiet s s'' := by
  intro i st hi
  obtain ⟨st', hi', hq⟩ := h i st hi
  obtain ⟨st'', hi'', hq'⟩ := h' i st' hi'
  exact ⟨st'', hi'', fun ho => hq'.returned (hq.returned ho), hq'.accepted.trans hq.accepted,
    hq'.finishQueued.trans hq.finishQueued⟩

theorem Quiet.modify (hi : s.streams[i]? = some st) (hq : st.Quiet (f st)) :
    Quiet s (s.modify i f) := by
  intro j st' hj
  rw [modify_streams, hj]
  by_cases hij : i = j
  · subst hij
    rw [hi] at hj
    cases hj
    exact ⟨_, rfl, by simpa using hq⟩
  · exact ⟨st', by simp [hij], ⟨id, rfl, rfl⟩⟩

theorem Grows.modify (hi : s.streams[i]? = some st) (hg : st.Grows (f st)) :
    Grows s (s.modify i f) := by
  intro j st' hj
  rw [modify_streams, hj]
  by_cases hij : i = j
  · subst hij
    rw [hi] at hj
    cases hj
    exact ⟨_, rfl, by simpa using hg⟩
  · exact ⟨st', by simp [hij], .refl st'⟩

theorem Quiet.launch : Quiet s s.launchRealtimeASRPreparation := by
  intro i st hi
  refine ⟨st, ?_, ⟨id, rfl, rfl⟩⟩
  have hlt : i < s.streams.length := (List.getElem?_eq_some_iff.mp hi).1
  rw [launchRealtimeASRPreparation, List.getElem?_append_left hlt]
  exact hi

theorem Sound.modify (hs : s.Sound) (hi : s.streams[i]? = some st) (hf : st.Sound → (f st).Sound) :
    (s.modify i f).Sound := by
  intro j st' hj
  rw [modify_streams, Option.map_eq_some_iff] at hj
  obtain ⟨st'', hj, rfl⟩ := hj
  split
  · rename_i hij
    subst hij
    rw [hi] at hj
    cases hj
    exact hf (hs _ _ hi)
  · exact hs _ _ hj

theorem Sound.launch (hs : s.Sound) : s.launchRealtimeASRPreparation.Sound := by
  intro i st hi
  rw [launchRealtimeASRPreparation, List.getElem?_append] at hi
  split at hi
  · exact hs i st hi
  · obtain rfl : st = {} := by
      cases hn : i - s.streams.length with
      | zero => simpa [hn] using hi.symm
      | succ n => simp [hn] at hi
    exact ⟨fun _ => ⟨rfl, rfl, rfl, rfl⟩, fun _ => rfl, nofun, nofun⟩

end Session

-- ---------------------------------------------------------------------------
-- The turns of a session
-- ---------------------------------------------------------------------------

/-- An observer's notes: the frames of the utterance at hand and of the committed turn, which
turn each stream was fed by, and where the transcript of each turn came from. -/
structure Notes where
  turn : Nat := 0
  frames : List (List UInt8) := []
  running : List (List UInt8) := []
  fed : List (Nat × Nat) := []
  used : List (List (List UInt8) × Source) := []
  deriving DecidableEq, Repr

def note (n : Notes) (s : Session) (l : Label) (s' : Session) : Notes :=
  match l with
  | .sendAudio pcm => if (s.sendAudio pcm).isSome then { n with frames := n.frames ++ [pcm] } else n
  | .append _ =>
    match s.call, s'.call with
    | .appending i _, .idle => { n with fed := n.fed ++ [(n.turn, i)] }
    | _, _ => n
  | .commit =>
    if s.commit.isSome then { n with running := n.frames, frames := [], turn := n.turn + 1 } else n
  | .cancel => { n with frames := [], turn := n.turn + 1 }
  | .read true =>
    match s.run.bind (·.asr) with
    | some i => { n with used := n.used ++ [(n.running, .realtime i)] }
    | none => n
  | .transcribe =>
    match s.run with
    | some r => { n with used := n.used ++ [(n.running, .batch r.pcm)] }
    | none => n
  | _ => n

def Call.feeding : Call → Option Nat
  | .appending i _ | .disabling i => some i
  | _ => none

/-- The frames of the utterance that its stream took so far. -/
def Notes.spoken (n : Notes) (c : Call) : List (List UInt8) :=
  if c.feeding.isSome then n.frames.dropLast else n.frames

structure Utterance (n : Notes) (s : Session) : Prop where
  pcm : s.pcm = n.frames.flatten
  frames : ∀ f ∈ n.frames, f ≠ []
  closed : s.closed = true → s.asr = none
  streamed : s.pcm ≠ [] → s.turnBatchOnly = false → s.closed = false → s.asr ≠ none
  asr : ∀ i, s.asr = some i → ∃ st, s.streams[i]? = some st ∧ st.preparation = .returned ∧
    st.finishQueued = false ∧
    st.accepted = if s.turnBatchOnly then [] else (n.spoken s.call).map Command.audio
  turn : ∀ i, s.asr = some i → ∀ t, (t, i) ∈ n.fed → t = n.turn
  feeding : ∀ i, s.call.feeding = some i → s.run = none ∧ s.asr = some i ∧ s.turnBatchOnly = false
  last : ∀ i pcm, s.call = .appending i pcm → n.frames.getLast? = some pcm

/-- The stream of a turn. -/
def Handed (running : List (List UInt8)) (st : Stream) : Stage → Prop
  | .starting | .committing => st.accepted = running.map .audio ∧ st.finishQueued = false
  | .reading => st.accepted = running.map .audio ++ [.finish] ∧ st.finishQueued = true
  | _ => True

def Heard (n : Notes) (done : Bool) (asr : Option Nat) : Stage → Prop
  | .reading => asr.isSome = true
  | .closing true | .replacing true => ∃ i, asr = some i ∧ (n.running, .realtime i) ∈ n.used
  | .recognized .none => done = true
  | .recognized source => (n.running, source) ∈ n.used
  | _ => True

structure Turn (n : Notes) (s : Session) : Prop where
  pcm : ∀ r, s.run = some r → r.pcm = n.running.flatten
  asr : ∀ r i, s.run = some r → r.asr = some i → s.asr ≠ some i ∧
    ∃ st, s.streams[i]? = some st ∧ st.preparation = .returned ∧ Handed n.running st r.stage
  heard : ∀ r, s.run = some r → Heard n (r.cancelled || s.ctxDone) r.asr r.stage

def UsedBy (s : Session) (frames : List (List UInt8)) : Source → Prop
  | .realtime i => ∃ st, s.streams[i]? = some st ∧ st.finishQueued = true ∧
      st.accepted = frames.map .audio ++ [.finish]
  | .batch pcm => pcm = frames.flatten
  | .none => False

structure Past (n : Notes) (s : Session) : Prop where
  once : ∀ t t' i, (t, i) ∈ n.fed → (t', i) ∈ n.fed → t = t'
  fed : ∀ t i, (t, i) ∈ n.fed → ∃ st, s.streams[i]? = some st ∧ st.accepted ≠ []
  used : ∀ frames source, (frames, source) ∈ n.used → UsedBy s frames source

structure Law (n : Notes) (s : Session) : Prop where
  sound : s.Sound
  utterance : Utterance n s
  turn : Turn n s
  past : Past n s

variable {n : Notes} {s s' : Session} {i : Nat} {st st' : Stream} {f : Stream → Stream}
  {pcm : List UInt8} {branch : Branch} {ok : Bool}

theorem Past.grows (hp : Past n s) (hg : s.Grows s') : Past n s' := by
  refine ⟨hp.once, fun t i hf => ?_, fun frames source hu => ?_⟩
  · obtain ⟨st, hi, hne⟩ := hp.fed t i hf
    obtain ⟨st', hi', hst⟩ := hg i st hi
    exact ⟨st', hi', fun hn => hne (List.prefix_nil.mp (hn ▸ hst.accepted))⟩
  · have hu := hp.used frames source hu
    cases source with
    | realtime i =>
      obtain ⟨st, hi, hfinish, ha⟩ := hu
      obtain ⟨st', hi', hst⟩ := hg i st hi
      obtain ⟨hfinish, ha'⟩ := hst.finished hfinish
      exact ⟨st', hi', hfinish, ha'.trans ha⟩
    | batch | none => exact hu

structure Alike (s s' : Session) : Prop where
  pcm : s'.pcm = s.pcm
  asr : s'.asr = s.asr
  turnBatchOnly : s'.turnBatchOnly = s.turnBatchOnly
  closed : s'.closed = s.closed
  run : s.run = none → s'.run = none
  feeding : s'.call.feeding = s.call.feeding
  call : ∀ i pcm, s'.call = .appending i pcm → s.call = .appending i pcm

theorem Utterance.alike (hu : Utterance n s) (hq : s.Quiet s') (ha : Alike s s') :
    Utterance n s' where
  pcm := ha.pcm.trans hu.pcm
  frames := hu.frames
  closed := by
    rw [ha.closed, ha.asr]
    exact hu.closed
  streamed := by
    rw [ha.pcm, ha.turnBatchOnly, ha.closed, ha.asr]
    exact hu.streamed
  asr i hi := by
    obtain ⟨st, hst, hover, hf, haccepted⟩ := hu.asr i (ha.asr ▸ hi)
    obtain ⟨st', hst', hquiet⟩ := hq i st hst
    refine ⟨st', hst', hquiet.returned hover, hquiet.finishQueued.trans hf, hquiet.accepted.trans ?_⟩
    rw [ha.turnBatchOnly, Notes.spoken, ha.feeding]
    exact haccepted
  turn i hi := hu.turn i (ha.asr ▸ hi)
  feeding i hi := by
    obtain ⟨hrun, hasr, hbatch⟩ := hu.feeding i (ha.feeding ▸ hi)
    exact ⟨ha.run hrun, ha.asr.trans hasr, ha.turnBatchOnly.trans hbatch⟩
  last i pcm hc := hu.last i pcm (ha.call i pcm hc)

def SameTurn (n : Notes) (s s' : Session) : Prop :=
  ∀ r', s'.run = some r' → ∃ r, s.run = some r ∧ r'.pcm = r.pcm ∧ r'.asr = r.asr ∧
    (∀ st, Handed n.running st r.stage → Handed n.running st r'.stage) ∧
    (Heard n (r.cancelled || s.ctxDone) r.asr r.stage →
      Heard n (r'.cancelled || s'.ctxDone) r'.asr r'.stage)

theorem Turn.alike (ht : Turn n s) (hq : s.Quiet s') (hasr : s'.asr = s.asr)
    (hr : SameTurn n s s') : Turn n s' := by
  refine ⟨fun r' h => ?_, fun r' i h hi => ?_, fun r' h => ?_⟩
  · obtain ⟨r, hrun, hpcm, -⟩ := hr r' h
    exact hpcm.trans (ht.pcm r hrun)
  · obtain ⟨r, hrun, -, hasr', hhanded, -⟩ := hr r' h
    obtain ⟨hne, st, hst, hover, hstage⟩ := ht.asr r i hrun (hasr' ▸ hi)
    obtain ⟨st', hst', hquiet⟩ := hq i st hst
    refine ⟨hasr ▸ hne, st', hst', hquiet.returned hover, hhanded st' ?_⟩
    cases hs : r.stage with
    | starting | committing | reading =>
      rw [hs] at hstage
      exact ⟨hquiet.accepted.trans hstage.1, hquiet.finishQueued.trans hstage.2⟩
    | closing | replacing | batching | recognized => trivial
  · obtain ⟨r, hrun, -, -, -, hheard⟩ := hr r' h
    exact hheard (ht.heard r hrun)

theorem Law.alike (hl : Law n s) (hs : s.Sound → s'.Sound) (hq : s.Quiet s') (ha : Alike s s')
    (hr : SameTurn n s s') : Law n s' :=
  ⟨hs hl.sound, hl.utterance.alike hq ha, hl.turn.alike hq ha.asr hr, hl.past.grows hq.grows⟩

theorem Heard.mono {done done' : Bool} {asr : Option Nat} {stage : Stage}
    (h : Heard n done asr stage) (hd : done = true → done' = true) : Heard n done' asr stage := by
  cases stage with
  | recognized source =>
    cases source with
    | none => exact hd h
    | realtime | batch => exact h
  | closing ok | replacing ok => cases ok <;> exact h
  | starting | committing | reading | batching => exact h

theorem SameTurn.of_eq (hrun : s'.run = s.run) (hdone : s.ctxDone = true → s'.ctxDone = true) :
    SameTurn n s s' := by
  intro r h
  refine ⟨r, hrun ▸ h, rfl, rfl, fun _ => id, fun hh => hh.mono fun hd => ?_⟩
  rcases Bool.or_eq_true_iff.mp hd with hd | hd
  · simp [hd]
  · simp [hdone hd]

-- ---------------------------------------------------------------------------
-- Goroutines and connections of a stream
-- ---------------------------------------------------------------------------

theorem streamStep_quiet {l : Label} (hs : streamStep i st s l = some s')
    (hl : ∀ j, l ≠ .prepared j) :
    ∃ f, s' = s.modify i f ∧ st.Quiet (f st) ∧ (st.Sound → (f st).Sound) := by
  cases l with
  | opened j =>
    simp only [streamStep, Option.ite_none_right_eq_some, Option.some.injEq] at hs
    obtain ⟨hp, rfl⟩ := hs
    refine ⟨_, rfl, ⟨fun ho => ?_, rfl, rfl⟩, fun h => ?_⟩
    · rw [hp] at ho
      cases ho
    · obtain ⟨haccepted, hcommands, hwritten, hf⟩ := h.fresh (by rw [hp]; nofun)
      exact ⟨fun _ => ⟨haccepted, hcommands, hwritten, hf⟩, fun _ => by
        simp [haccepted, hcommands, hwritten], fun _ => by simp [hwritten], h.unfinished⟩
  | openFailed j =>
    simp only [streamStep, Option.ite_none_right_eq_some, Option.some.injEq] at hs
    obtain ⟨hp, rfl⟩ := hs
    refine ⟨_, rfl, ⟨fun ho => ?_, rfl, rfl⟩, fun h => h.congr (fun ho => ?_) rfl rfl id rfl rfl⟩
    all_goals
      rw [hp] at ho
      cases ho
  | prepared j => exact absurd rfl (hl j)
  | closeSurplus j =>
    simp only [streamStep, Option.ite_none_right_eq_some, Option.some.injEq] at hs
    obtain ⟨-, rfl⟩ := hs
    exact ⟨_, rfl, ⟨fun _ => rfl, rfl, rfl⟩, fun h => h.congr (fun _ => rfl) rfl rfl id rfl rfl⟩
  | write j ok =>
    simp only [streamStep, Option.map_eq_some_iff] at hs
    obtain ⟨st', hw, rfl⟩ := hs
    obtain ⟨hquiet, hsound⟩ := Stream.write_quiet hw
    exact ⟨_, rfl, hquiet, hsound⟩
  | stopWriter j =>
    simp only [streamStep, Option.ite_none_right_eq_some, Option.some.injEq] at hs
    obtain ⟨-, rfl⟩ := hs
    exact ⟨_, rfl, ⟨id, rfl, rfl⟩, fun h => h.congr id rfl rfl nofun rfl rfl⟩
  | lost j =>
    simp only [streamStep, Option.ite_none_left_eq_some, Option.some.injEq] at hs
    obtain ⟨-, rfl⟩ := hs
    exact ⟨_, rfl, ⟨id, rfl, rfl⟩, fun h => h.congr id rfl rfl id rfl rfl⟩
  | _ => cases hs

theorem Law.streamStep {l : Label} (hlaw : Law n s) (hi : s.streams[i]? = some st)
    (hs : streamStep i st s l = some s') (hl : ∀ j, l ≠ .prepared j) : Law n s' := by
  obtain ⟨f, rfl, hquiet, hsound⟩ := streamStep_quiet hs hl
  exact hlaw.alike (fun h => h.modify hi hsound) (.modify hi hquiet)
    ⟨rfl, rfl, rfl, rfl, id, rfl, fun _ _ => id⟩ (.of_eq rfl id)

theorem Law.keep (hl : Law n s) (hi : s.streams[i]? = some st) (hover : st.preparation = .returned)
    (haccepted : st.accepted = []) (hf : st.finishQueued = false) (hnone : s.asr = none)
    (hopen : s.closed = false) (hrun : ∀ r, s.run = some r → r.asr ≠ some i) :
    Law n { s with asr := some i } := by
  obtain ⟨hsound, hu, ht, hp⟩ := hl
  have hunfed (t : Nat) : (t, i) ∉ n.fed := by
    intro hmem
    obtain ⟨st', hi', hne⟩ := hp.fed t i hmem
    rw [hi] at hi'
    cases hi'
    exact hne haccepted
  have hidle : s.call.feeding = none := by
    cases hc : s.call.feeding with
    | none => rfl
    | some j =>
      have := (hu.feeding j hc).2.1
      rw [hnone] at this
      cases this
  refine ⟨hsound, ?_, ?_, ⟨hp.once, hp.fed, hp.used⟩⟩
  · refine { hu with
      closed := fun hc => ?_
      streamed := nofun
      asr := fun j hj => ?_
      turn := fun j hj t ht => ?_
      feeding := fun j hj => ?_ }
    · rw [hopen] at hc
      cases hc
    · cases hj
      refine ⟨st, hi, hover, hf, haccepted.trans ?_⟩
      split
      · rfl
      · -- what was spoken without a stream is not streamed any more
        rename_i hbatch
        have hpcm : s.pcm = [] := by
          by_contra hne
          exact hu.streamed hne (by simpa using hbatch) hopen hnone
        have hframes : n.frames = [] := by
          rw [hu.pcm] at hpcm
          cases hn : n.frames with
          | nil => rfl
          | cons f rest =>
            rw [hn, List.flatten_cons, List.append_eq_nil_iff] at hpcm
            exact absurd hpcm.1 (hu.frames f (by simp [hn]))
        simp [Notes.spoken, hframes]
    · cases hj
      exact absurd ht (hunfed t)
    · have hj : s.call.feeding = some j := hj
      rw [hidle] at hj
      cases hj
  · refine ⟨ht.pcm, fun r j hr hj => ?_, ht.heard⟩
    obtain ⟨-, hst⟩ := ht.asr r j hr hj
    exact ⟨fun heq => hrun r hr (Option.some.inj heq ▸ hj), hst⟩

theorem Law.prepared (hl : Law n s) (hi : s.streams[i]? = some st) (hp : st.preparation ≠ .returned) :
    Law n (s.prepared i ok) := by
  obtain ⟨haccepted, -, -, hf⟩ := (hl.sound i st hi).fresh hp
  have hover (p : Preparation) : Law n ({ s with asrPreparing := false }.modify i
      fun st => { st with preparation := p }) :=
    hl.alike (fun h => Session.Sound.modify (s := { s with asrPreparing := false }) h hi fun h =>
        h.congr (fun ho => absurd ho hp) rfl rfl id rfl rfl)
      (Session.Quiet.modify (s := { s with asrPreparing := false }) hi
        ⟨fun ho => absurd ho hp, rfl, rfl⟩)
      ⟨rfl, rfl, rfl, rfl, id, rfl, fun _ _ => id⟩ (.of_eq rfl id)
  unfold Session.prepared
  dsimp only
  by_cases hkeep : ok = true ∧ ¬ s.closed = true ∧ s.asr = none
  case neg =>
    rw [if_neg hkeep]
    exact hover _
  case pos =>
    have hp' : (if ok = true ∧ ¬ (ok = true ∧ ¬ s.closed = true ∧ s.asr = none) then
        Preparation.surplus else .returned) = .returned := if_neg fun h => h.2 hkeep
    rw [if_pos hkeep, hp']
    obtain ⟨-, hopen, hnone⟩ := hkeep
    have hopen : s.closed = false := by simpa using hopen
    have hi' : ({ s with asrPreparing := false }.modify i
        fun st => { st with preparation := .returned }).streams[i]? =
        some { st with preparation := .returned } := by
      simp [Session.modify_streams, hi]
    refine (hover .returned).keep hi' rfl haccepted hf hnone hopen fun r hr hasr => ?_
    obtain ⟨-, st', hst', hover', -⟩ := hl.turn.asr r i hr hasr
    rw [hi] at hst'
    cases hst'
    exact hp hover'

-- ---------------------------------------------------------------------------
-- The calls
-- ---------------------------------------------------------------------------

/-- A frame is fed into the stream; it is spoken without one; or the stream was lost. -/
theorem sendAudio_cases (hs : s.sendAudio pcm = some s') : pcm ≠ [] ∧ s.closed = false ∧
    s.run = none ∧
    ((∃ i, s.asr = some i ∧ s.turnBatchOnly = false ∧
        s' = { s with pcm := s.pcm ++ pcm, call := .appending i pcm }) ∨
      ((s.asr = none ∨ s.turnBatchOnly = true) ∧
        s' = { s with pcm := s.pcm ++ pcm, turnBatchOnly := true, call := .idle }) ∨
      (s.asr = none ∧ s.pcm ≠ [] ∧ s.turnBatchOnly = false)) := by
  unfold Session.sendAudio at hs
  simp only [Option.ite_none_left_eq_some, not_or, Option.some.injEq] at hs
  obtain ⟨⟨hpcm, -, hopen, hrun, -⟩, rfl⟩ := hs
  refine ⟨hpcm, by simpa using hopen, by simpa using hrun, ?_⟩
  cases hasr : s.asr with
  | some i =>
    cases hbatch : s.turnBatchOnly with
    | false => exact .inl ⟨i, rfl, rfl, by simp⟩
    | true => exact .inr (.inl ⟨.inr rfl, by simp⟩)
  | none =>
    by_cases hfirst : s.pcm = []
    · exact .inr (.inl ⟨.inl rfl, by simp [hfirst]⟩)
    · cases hbatch : s.turnBatchOnly with
      | false => exact .inr (.inr ⟨rfl, hfirst, rfl⟩)
      | true => exact .inr (.inl ⟨.inl rfl, by simp⟩)

theorem Utterance.frames_snoc (hu : Utterance n s) (hpcm : pcm ≠ []) :
    ∀ f ∈ n.frames ++ [pcm], f ≠ [] := by
  intro f hf
  rcases List.mem_append.mp hf with hf | hf
  · exact hu.frames f hf
  · exact List.mem_singleton.mp hf ▸ hpcm

theorem Turn.none (hrun : s.run = none) : Turn n s := by
  constructor
  all_goals
    rw [hrun]
    nofun

theorem Law.sendAudio (hl : Law n s) (hidle : s.call = .idle) (hs : s.sendAudio pcm = some s') :
    Law { n with frames := n.frames ++ [pcm] } s' := by
  obtain ⟨hpcm, hopen, hrun, hcases⟩ := sendAudio_cases hs
  obtain ⟨hsound, hu, -, hp⟩ := hl
  have hspoken : n.spoken s.call = n.frames := by simp [Notes.spoken, hidle, Call.feeding]
  rcases hcases with ⟨i, hasr, hbatch, rfl⟩ | ⟨hbatch, rfl⟩ | ⟨hasr, hne, hbatch⟩
  · refine ⟨hsound, ?_, .none hrun, ⟨hp.once, hp.fed, hp.used⟩⟩
    refine { hu with
      pcm := by simp [hu.pcm]
      frames := hu.frames_snoc hpcm
      streamed := fun _ _ _ => by simp [hasr]
      asr := fun j hj => ?_
      feeding := fun j hj => ?_
      last := fun j pcm hc => ?_ }
    · obtain ⟨st, hst, hover, hf, haccepted⟩ := hu.asr j hj
      refine ⟨st, hst, hover, hf, haccepted.trans ?_⟩
      rw [hspoken]
      simp [Notes.spoken, Call.feeding]
    · cases hj
      exact ⟨hrun, hasr, hbatch⟩
    · cases hc
      simp
  · refine ⟨hsound, ?_, .none hrun, ⟨hp.once, hp.fed, hp.used⟩⟩
    refine { hu with
      pcm := by simp [hu.pcm]
      frames := hu.frames_snoc hpcm
      streamed := nofun
      asr := fun j hj => ?_
      feeding := nofun
      last := nofun }
    obtain ⟨st, hst, hover, hf, haccepted⟩ := hu.asr j hj
    have hasr : s.asr = some j := hj
    simp only [hasr, reduceCtorEq, false_or] at hbatch
    exact ⟨st, hst, hover, hf, by simpa [hbatch] using haccepted⟩
  · exact absurd hasr (hu.streamed hne hbatch hopen)

theorem Law.append (hl : Law n s) (hc : s.call = .appending i pcm) (hi : s.streams[i]? = some st) :
    Law { n with fed := n.fed ++ [(n.turn, i)] }
      { s.modify i fun _ => st.queue (.audio pcm) with call := .idle } := by
  obtain ⟨hsound, hu, -, hp⟩ := hl
  have hfeeding : s.call.feeding = some i := by rw [hc]; rfl
  obtain ⟨hrun, hasr, hbatch⟩ := hu.feeding i hfeeding
  obtain ⟨st', hi', hover, hf, haccepted⟩ := hu.asr i hasr
  rw [hi] at hi'
  cases hi'
  have hlast : n.frames.dropLast ++ [pcm] = n.frames :=
    List.dropLast_append_getLast? pcm (hu.last i pcm hc)
  have hqueued : (st.queue (.audio pcm)).accepted = n.frames.map .audio := by
    rw [← hlast]
    simp [Stream.queue, haccepted, hbatch, Notes.spoken, hfeeding]
  have hat : (s.modify i fun _ => st.queue (.audio pcm)).streams[i]? =
      some (st.queue (.audio pcm)) := by simp [Session.modify_streams, hi]
  have hgrows : s.Grows (s.modify i fun _ => st.queue (.audio pcm)) :=
    .modify hi ⟨id, List.prefix_append .., fun hn => by rw [hf] at hn; cases hn⟩
  have hpast : Past n (s.modify i fun _ => st.queue (.audio pcm)) := hp.grows hgrows
  refine ⟨hsound.modify hi fun h => Stream.queue_sound _ h hover (fun _ => nofun), ?_, .none hrun, ?_⟩
  · refine { hu with
      asr := fun j hj => ?_
      turn := fun j hj t ht => ?_
      feeding := nofun
      last := nofun }
    · obtain rfl : i = j := Option.some.inj (hasr.symm.trans hj)
      refine ⟨st.queue (.audio pcm), hat, hover, hf, hqueued.trans ?_⟩
      simp [Session.modify, hbatch, Notes.spoken, Call.feeding]
    · rcases List.mem_append.mp ht with ht | ht
      · exact hu.turn j hj t ht
      · simp only [List.mem_singleton, Prod.mk.injEq] at ht
        exact ht.1
  · refine ⟨fun t t' j ht ht' => ?_, fun t j ht => ?_, hpast.used⟩
    · simp only [List.mem_append, List.mem_singleton, Prod.mk.injEq] at ht ht'
      rcases ht with ht | ⟨rfl, rfl⟩ <;> rcases ht' with ht' | ⟨rfl, hj⟩
      · exact hp.once t t' j ht ht'
      · exact hu.turn i hasr t (hj ▸ ht)
      · exact (hu.turn j hasr t' ht').symm
      · rfl
    · rcases List.mem_append.mp ht with ht | ht
      · exact hpast.fed t j ht
      · simp only [List.mem_singleton, Prod.mk.injEq] at ht
        obtain ⟨-, rfl⟩ := ht
        exact ⟨_, hat, by simp [Stream.queue]⟩

theorem Law.disable (hl : Law n s) (hc : s.call = .disabling i) :
    Law n (s.disableRealtimeASR i) := by
  obtain ⟨hsound, hu, -, hp⟩ := hl
  obtain ⟨hrun, hasr, -⟩ := hu.feeding i (by rw [hc]; rfl)
  unfold Session.disableRealtimeASR
  rw [if_pos hasr]
  refine ⟨hsound, ?_, .none hrun, ⟨hp.once, hp.fed, hp.used⟩⟩
  exact { hu with
    closed := fun _ => rfl
    streamed := nofun
    asr := nofun
    turn := nofun
    feeding := nofun
    last := nofun }

theorem Law.launch (hl : Law n s) :
    Law n { s with asrPreparing := true }.launchRealtimeASRPreparation :=
  hl.alike (fun h => Session.Sound.launch (s := { s with asrPreparing := true }) h)
    (Session.Quiet.launch (s := { s with asrPreparing := true }))
    ⟨rfl, rfl, rfl, rfl, id, rfl, fun _ _ => id⟩ (.of_eq rfl id)

theorem Law.unfed (hl : Law n s) (hi : s.asr = some i) (hu : s.pcm = [] ∨ s.turnBatchOnly = true)
    (hidle : s.call.feeding = none) : ∃ st, s.streams[i]? = some st ∧ st.preparation = .returned ∧
      st.finishQueued = false ∧ st.accepted = [] ∧ ∀ t, (t, i) ∉ n.fed := by
  obtain ⟨st, hst, hover, hf, haccepted⟩ := hl.utterance.asr i hi
  have hempty : st.accepted = [] := by
    rw [haccepted]
    split
    · rfl
    · rename_i hbatch
      have hpcm : s.pcm = [] := hu.resolve_right hbatch
      rw [hl.utterance.pcm, List.flatten_eq_nil_iff] at hpcm
      have hframes : n.frames = [] := List.eq_nil_iff_forall_not_mem.mpr fun f hf =>
        hl.utterance.frames f hf (hpcm f hf)
      simp [Notes.spoken, hidle, hframes]
  refine ⟨st, hst, hover, hf, hempty, fun t hmem => ?_⟩
  obtain ⟨st', hst', hne⟩ := hl.past.fed t i hmem
  rw [hst] at hst'
  cases hst'
  exact hne hempty

/-- A new utterance; a stream that the last one was fed into is let go. -/
theorem Law.next {asr : Option Nat} {call : Call} {run : Option Run} {ctxDone closed : Bool}
    {running : List (List UInt8)} (hl : Law n s) (hidle : s.call.feeding = none)
    (hasr : ∀ i, asr = some i → s.asr = some i ∧ (s.pcm = [] ∨ s.turnBatchOnly = true))
    (hclosed : closed = true → asr = none) (hcall : call.feeding = none)
    (hturn : Turn { n with running, frames := [], turn := n.turn + 1 }
      { s with pcm := [], turnBatchOnly := false, asr, call, run, ctxDone, closed }) :
    Law { n with running, frames := [], turn := n.turn + 1 }
      { s with pcm := [], turnBatchOnly := false, asr, call, run, ctxDone, closed } := by
  refine ⟨hl.sound, ?_, hturn, ⟨hl.past.once, hl.past.fed, hl.past.used⟩⟩
  constructor
  case pcm => rfl
  case frames => exact fun f hf => absurd hf (by simp)
  case closed => exact hclosed
  case streamed => exact fun hn => absurd rfl hn
  case asr =>
    intro i hi
    obtain ⟨hasr, hpcm⟩ := hasr i hi
    obtain ⟨st, hst, hover, hf, haccepted, -⟩ := hl.unfed hasr hpcm hidle
    exact ⟨st, hst, hover, hf, by simp [haccepted, Notes.spoken]⟩
  case turn =>
    intro i hi t ht
    obtain ⟨hasr, hpcm⟩ := hasr i hi
    obtain ⟨-, -, -, -, -, hunfed⟩ := hl.unfed hasr hpcm hidle
    exact absurd ht (hunfed t)
  case feeding =>
    intro i hi
    have hi : call.feeding = some i := hi
    rw [hcall] at hi
    cases hi
  case last =>
    intro i pcm hc
    have hc : call = .appending i pcm := hc
    rw [hc] at hcall
    cases hcall

/-- The stream that `Commit` hands over. -/
def Session.handed (s : Session) : Option Nat := if s.turnBatchOnly then none else s.asr

/-- `Commit` before it launches a preparation. -/
def Session.committed (s : Session) : Session :=
  { s with
    pcm := [], asr := if s.turnBatchOnly then s.asr else none, turnBatchOnly := false
    run := some { pcm := s.pcm, asr := s.handed } }

/-- The stream that `Cancel` takes. -/
def Session.taken (s : Session) : Option Nat :=
  if s.pcm ≠ [] ∧ ¬ s.turnBatchOnly then s.asr else none

/-- `Cancel` before it launches a preparation. -/
def Session.dropped (s : Session) : Session :=
  { s with
    asr := if s.pcm ≠ [] ∧ ¬ s.turnBatchOnly then none else s.asr, pcm := []
    turnBatchOnly := false, call := .cancelling s.taken s.run.isSome }

theorem commit_eq : s.commit =
    if s.closed ∨ s.run.isSome ∨ s.pcm = [] then none
    else some (if s.handed = none ∧ s.committed.asr = none ∧ ¬ s.asrPreparing then
        { s.committed with asrPreparing := true }.launchRealtimeASRPreparation
      else s.committed) := rfl

theorem cancel_eq : s.cancel =
    if s.taken.isSome ∧ ¬ s.asrPreparing then
      { s.dropped with asrPreparing := true }.launchRealtimeASRPreparation
    else s.dropped := rfl

theorem Law.committed (hl : Law n s) (hidle : s.call = .idle) :
    Law { n with running := n.frames, frames := [], turn := n.turn + 1 } s.committed := by
  have hfeeding : s.call.feeding = none := by rw [hidle]; rfl
  unfold Session.committed
  refine Law.next hl hfeeding (fun i hi => ?_) (fun hc => ?_) hfeeding ⟨fun r hr => ?_,
    fun r i hr hi => ?_, fun r hr => ?_⟩
  · cases hbatch : s.turnBatchOnly with
    | true => exact ⟨by simpa [hbatch] using hi, .inr rfl⟩
    | false => simp [hbatch] at hi
  · simp [hl.utterance.closed hc]
  · cases hr
    exact hl.utterance.pcm
  · cases hr
    cases hbatch : s.turnBatchOnly with
    | true => simp [Session.handed, hbatch] at hi
    | false =>
      simp only [Session.handed, hbatch, Bool.false_eq_true, if_false] at hi
      obtain ⟨st, hst, hover, hf, haccepted⟩ := hl.utterance.asr i hi
      refine ⟨by simp, st, hst, hover, ?_, hf⟩
      simpa [hbatch, Notes.spoken, hfeeding] using haccepted
  · cases hr
    trivial

theorem Law.commit (hl : Law n s) (hidle : s.call = .idle) (hs : s.commit = some s') :
    Law { n with running := n.frames, frames := [], turn := n.turn + 1 } s' := by
  rw [commit_eq, Option.ite_none_left_eq_some, Option.some.injEq] at hs
  obtain ⟨-, rfl⟩ := hs
  split
  · exact (hl.committed hidle).launch
  · exact hl.committed hidle

theorem Law.dropped (hl : Law n s) (hidle : s.call = .idle) :
    Law { n with frames := [], turn := n.turn + 1 } s.dropped := by
  unfold Session.dropped
  refine Law.next hl (by rw [hidle]; rfl) (fun i hi => ?_) (fun hc => ?_) rfl
    ⟨hl.turn.pcm, fun r i hr hi => ?_, hl.turn.heard⟩
  · rw [Option.ite_none_left_eq_some] at hi
    refine ⟨hi.2, ?_⟩
    by_cases hpcm : s.pcm = []
    · exact .inl hpcm
    · exact .inr (by simpa [hpcm] using hi.1)
  · simp [hl.utterance.closed hc]
  · obtain ⟨hne, hst⟩ := hl.turn.asr r i hr hi
    refine ⟨fun hn => ?_, hst⟩
    rw [Option.ite_none_left_eq_some] at hn
    exact hne hn.2

theorem Law.cancel (hl : Law n s) (hidle : s.call = .idle) :
    Law { n with frames := [], turn := n.turn + 1 } s.cancel := by
  rw [cancel_eq]
  split
  · exact (hl.dropped hidle).launch
  · exact hl.dropped hidle

theorem Law.close (hl : Law n s) : Law n s.close := by
  obtain ⟨hsound, hu, ht, hp⟩ := hl
  unfold Session.close
  split
  · exact ⟨hsound, hu, ht, hp⟩
  have hdone : Turn n { s with ctxDone := true } :=
    ht.alike (.of_streams rfl) rfl (.of_eq rfl fun _ => rfl)
  refine ⟨hsound, ?_, ⟨ht.pcm, fun r i hr hi => ⟨nofun, (ht.asr r i hr hi).2⟩, hdone.heard⟩,
    ⟨hp.once, hp.fed, hp.used⟩⟩
  refine { hu with
    closed := fun _ => rfl
    streamed := fun _ _ => nofun
    asr := nofun
    turn := nofun
    feeding := fun j hj => ?_
    last := fun j pcm hc => ?_ }
  · cases hasr : s.asr <;> simp [hasr, Call.feeding] at hj
  · cases hasr : s.asr <;> simp [hasr] at hc

-- ---------------------------------------------------------------------------
-- A turn
-- ---------------------------------------------------------------------------

variable {r : Run}

theorem Law.finish (hl : Law n s) (hr : s.run = some r) (hstage : r.stage = .committing)
    (hi : r.asr = some i) (hst : s.streams[i]? = some st)
    (hs : st.commit (r.cancelled || s.ctxDone) branch = some (ok, st')) :
    Law n { s.modify i fun _ => st' with
      run := some { r with stage := if ok then .reading else .closing false } } := by
  obtain ⟨hsound, hu, ht, hp⟩ := hl
  obtain ⟨hapart, st₀, hst₀, hover, hhanded⟩ := ht.asr r i hr hi
  rw [hst] at hst₀
  cases hst₀
  rw [hstage] at hhanded
  obtain ⟨haccepted, hf⟩ := hhanded
  have hgrows : st.Grows st' := by
    rcases Stream.commit_cases hover hs with ⟨-, hrefused, -⟩ | ⟨-, -, rfl⟩
    · exact ⟨fun _ => hrefused.preparation.trans hover, hrefused.accepted ▸ List.prefix_rfl,
        fun hn => by simp [hf] at hn⟩
    · exact ⟨id, List.prefix_append .., fun hn => by simp [hf] at hn⟩
  have hat : (s.modify i fun _ => st').streams[i]? = some st' := by
    simp [Session.modify_streams, hst]
  have hpast : Past n (s.modify i fun _ => st') := hp.grows (.modify hst hgrows)
  refine ⟨hsound.modify hst ?_, ?_, ⟨fun r' hr' => ?_, fun r' j hr' hj => ?_, fun r' hr' => ?_⟩,
    ⟨hpast.once, hpast.fed, hpast.used⟩⟩
  · rcases Stream.commit_cases hover hs with ⟨-, -, hsound⟩ | ⟨-, -, rfl⟩
    · exact hsound
    · exact fun h => Stream.queue_sound .finish (h.refused hover) hover nofun
  · refine { hu with
      asr := fun j hj => ?_
      feeding := fun j hj => ?_ }
    · obtain ⟨st₁, hst₁, hrest⟩ := hu.asr j hj
      have hij : i ≠ j := fun hij => hapart (hij ▸ hj)
      exact ⟨st₁, by simp [Session.modify_streams, hst₁, hij], hrest⟩
    · have hrun := (hu.feeding j hj).1
      rw [hr] at hrun
      cases hrun
  · cases hr'
    exact ht.pcm r hr
  · cases hr'
    have hij : i = j := Option.some.inj (hi.symm.trans hj)
    subst hij
    refine ⟨hapart, st', hat, hgrows.returned hover, ?_⟩
    rcases Stream.commit_cases hover hs with ⟨rfl, -, -⟩ | ⟨rfl, -, rfl⟩
    · trivial
    · exact ⟨congrArg (· ++ [Command.finish]) haccepted, rfl⟩
  · cases hr'
    cases ok with
    | true => exact Option.isSome_of_eq_some hi
    | false => trivial

theorem Law.uses {source : Source} {stage : Stage} (hl : Law n s) (hr : s.run = some r)
    (hu : UsedBy s n.running source) (hhanded : ∀ st, Handed n.running st stage)
    (hheard : ∀ n', (n'.running, source) ∈ n'.used →
      Heard n' (r.cancelled || s.ctxDone) r.asr stage) :
    Law { n with used := n.used ++ [(n.running, source)] }
      { s with run := some { r with stage } } := by
  obtain ⟨hsound, hutter, ht, hp⟩ := hl
  refine ⟨hsound, { hutter with feeding := fun i hi => ?_ }, ⟨fun r' hr' => ?_, fun r' i hr' hi => ?_,
    fun r' hr' => ?_⟩, ⟨hp.once, hp.fed, fun frames source' hmem => ?_⟩⟩
  · have hrun := (hutter.feeding i hi).1
    rw [hr] at hrun
    cases hrun
  · cases hr'
    exact ht.pcm r hr
  · cases hr'
    obtain ⟨hne, st, hst, hover, -⟩ := ht.asr r i hr hi
    exact ⟨hne, st, hst, hover, hhanded st⟩
  · cases hr'
    exact hheard _ (by simp)
  · rcases List.mem_append.mp hmem with hmem | hmem
    · exact hp.used frames source' hmem
    · simp only [List.mem_singleton, Prod.mk.injEq] at hmem
      obtain ⟨rfl, rfl⟩ := hmem
      exact hu

theorem Law.read (hl : Law n s) (hr : s.run = some r) (hstage : r.stage = .reading)
    (hi : r.asr = some i) :
    Law { n with used := n.used ++ [(n.running, .realtime i)] }
      { s with run := some { r with stage := .closing true } } := by
  obtain ⟨-, st, hst, -, hhanded⟩ := hl.turn.asr r i hr hi
  rw [hstage] at hhanded
  exact hl.uses hr ⟨st, hst, hhanded.2, hhanded.1⟩ (fun _ => trivial) fun _ hu => ⟨i, hi, hu⟩

theorem Law.transcribe (hl : Law n s) (hr : s.run = some r) :
    Law { n with used := n.used ++ [(n.running, .batch r.pcm)] }
      { s with run := some { r with stage := .recognized (.batch r.pcm) } } :=
  hl.uses hr (hl.turn.pcm r hr) (fun _ => trivial) fun _ hu => hu

theorem Law.goesOn {stage : Stage} (hl : Law n s) (hr : s.run = some r)
    (hhanded : ∀ st, Handed n.running st r.stage → Handed n.running st stage)
    (hheard : Heard n (r.cancelled || s.ctxDone) r.asr r.stage →
      Heard n (r.cancelled || s.ctxDone) r.asr stage) :
    Law n { s with run := some { r with stage } } := by
  refine hl.alike id (.of_streams rfl) ⟨rfl, rfl, rfl, rfl, fun hn => ?_, rfl, fun _ _ => id⟩ ?_
  · rw [hr] at hn
    cases hn
  · intro r' hr'
    cases hr'
    exact ⟨r, hr, rfl, rfl, hhanded, hheard⟩

theorem Law.over (hl : Law n s) : Law n { s with run := none } :=
  hl.alike id (.of_streams rfl) ⟨rfl, rfl, rfl, rfl, fun _ => rfl, rfl, fun _ _ => id⟩ nofun

theorem Law.start (hl : Law n s) : Law n s.startRealtimeASRPreparation := by
  unfold Session.startRealtimeASRPreparation
  split
  · exact hl
  · exact hl.launch

/-- `stream.Close()` -/
theorem Law.closes (hl : Law n s) : Law n (s.modify i Stream.close) := by
  cases hi : s.streams[i]? with
  | none =>
    have hsame : s.modify i Stream.close = s := by
      rw [Session.modify, List.modify_eq_self (List.getElem?_eq_none_iff.mp hi)]
    rw [hsame]
    exact hl
  | some st =>
    exact hl.alike (fun h => h.modify hi fun h => h.congr id rfl rfl id rfl rfl)
      (.modify hi ⟨id, rfl, rfl⟩) ⟨rfl, rfl, rfl, rfl, id, rfl, fun _ _ => id⟩ (.of_eq rfl id)

theorem Law.calls {call : Call} (hl : Law n s) (hfrom : s.call.feeding = none)
    (hto : call.feeding = none) : Law n { s with call } := by
  refine hl.alike id (.of_streams rfl) ⟨rfl, rfl, rfl, rfl, id, hto.trans hfrom.symm, fun i pcm hc => ?_⟩
    (.of_eq rfl id)
  have hc : call = .appending i pcm := hc
  rw [hc] at hto
  cases hto

theorem Law.cancelled (hl : Law n s) :
    Law n { s with run := s.run.map fun r => { r with cancelled := true } } := by
  refine hl.alike id (.of_streams rfl) ⟨rfl, rfl, rfl, rfl, fun hn => by rw [hn]; rfl, rfl,
    fun _ _ => id⟩ fun r' hr' => ?_
  obtain ⟨r, hr, rfl⟩ := Option.map_eq_some_iff.mp hr'
  exact ⟨r, hr, rfl, rfl, fun _ => id, fun hh => hh.mono fun _ => rfl⟩

theorem Law.runStep {l : Label} (hl : Law n s) (hr : s.run = some r)
    (hs : runStep r s l = some s') : Law (note n s l s') s' := by
  cases l with
  | started ok =>
    simp only [Asr.runStep, Option.ite_none_left_eq_some, Decidable.not_not] at hs
    obtain ⟨hstage, hs⟩ := hs
    cases ok with
    | true =>
      cases hs
      refine hl.goesOn hr (fun st h => ?_) fun _ => ?_
      · rw [hstage] at h
        split
        · exact h
        · trivial
      · split <;> trivial
    | false =>
      simp only [Bool.false_eq_true, if_false, Option.ite_none_right_eq_some, Option.some.injEq] at hs
      obtain ⟨-, rfl⟩ := hs
      exact hl.over
  | finish branch =>
    simp only [Asr.runStep] at hs
    split at hs
    · rename_i i hstage hasr
      split at hs
      · rename_i ok st' hcommit
        cases hs
        obtain ⟨st, hst, hcommit⟩ := Option.bind_eq_some_iff.mp hcommit
        exact hl.finish hr hstage hasr hst hcommit
      · cases hs
    · cases hs
  | read ok =>
    simp only [Asr.runStep, Option.ite_none_right_eq_some, Option.some.injEq] at hs
    obtain ⟨hstage, rfl⟩ := hs
    cases ok with
    | true =>
      have hheard := hl.turn.heard r hr
      rw [hstage] at hheard
      obtain ⟨i, hi⟩ := Option.isSome_iff_exists.mp hheard
      simpa [note, hr, hi] using hl.read hr hstage hi
    | false => exact hl.goesOn hr (fun _ _ => trivial) fun _ => trivial
  | closeAsr =>
    simp only [Asr.runStep] at hs
    split at hs
    · rename_i ok i hstage hasr
      cases hs
      refine Law.goesOn (hl.closes (i := i)) hr (fun _ _ => trivial) fun h => ?_
      rw [hstage] at h
      cases ok <;> exact h
    · cases hs
  | replace =>
    simp only [Asr.runStep] at hs
    split at hs
    · rename_i ok i hstage hasr
      cases hs
      refine Law.start (hl.goesOn hr (fun st h => ?_) fun h => ?_)
      · cases ok <;> trivial
      · rw [hstage] at h
        cases ok with
        | true =>
          obtain ⟨j, hj, hused⟩ := h
          rw [hasr] at hj
          cases hj
          exact hused
        | false => trivial
    · cases hs
  | transcribe =>
    simp only [Asr.runStep, Option.ite_none_right_eq_some, Option.some.injEq] at hs
    obtain ⟨-, rfl⟩ := hs
    simpa [note, hr] using hl.transcribe hr
  | giveUp =>
    simp only [Asr.runStep, Option.ite_none_right_eq_some, Option.some.injEq] at hs
    obtain ⟨⟨-, hdone⟩, rfl⟩ := hs
    exact hl.goesOn hr (fun _ _ => trivial) fun _ => Bool.or_eq_true_iff.mpr hdone
  | ended =>
    simp only [Asr.runStep] at hs
    split at hs
    · cases hs
      exact hl.over
    · cases hs
  | _ => cases hs

theorem Law.step {l : Label} (hl : Law n s) (hs : step s l = some s') : Law (note n s l s') s' := by
  cases l with
  | sendAudio pcm =>
    simp only [Asr.step, Option.ite_none_right_eq_some, Option.some.injEq] at hs
    obtain ⟨hidle, rfl⟩ := hs
    cases hsend : s.sendAudio pcm with
    | none => simpa [note, hsend] using hl
    | some s' => simpa [note, hsend] using hl.sendAudio hidle hsend
  | commit =>
    simp only [Asr.step, Option.ite_none_right_eq_some, Option.some.injEq] at hs
    obtain ⟨hidle, rfl⟩ := hs
    cases hcommit : s.commit with
    | none => simpa [note, hcommit] using hl
    | some s' => simpa [note, hcommit] using hl.commit hidle hcommit
  | cancel =>
    simp only [Asr.step, Option.ite_none_right_eq_some, Option.some.injEq] at hs
    obtain ⟨hidle, rfl⟩ := hs
    exact hl.cancel hidle
  | close =>
    simp only [Asr.step, Option.ite_none_right_eq_some, Option.some.injEq] at hs
    obtain ⟨hidle, rfl⟩ := hs
    exact hl.close
  | append branch =>
    simp only [Asr.step] at hs
    split at hs
    case h_2 => cases hs
    rename_i i pcm hcall
    split at hs
    case h_2 => cases hs
    rename_i ok st' happend
    cases hs
    obtain ⟨st, hi, happend⟩ := Option.bind_eq_some_iff.mp happend
    rcases Stream.append_cases happend with ⟨rfl, hquiet, hsound⟩ | ⟨rfl, -, rfl⟩
    · -- the stream is given up next
      have hsound' (h : s.Sound) : (s.modify i fun _ => st').Sound := h.modify hi hsound
      have hquiet' : s.Quiet (s.modify i fun _ => st') := .modify hi hquiet
      have hkept : Law n { s.modify i fun _ => st' with call := .disabling i } := by
        refine hl.alike hsound' hquiet' ⟨rfl, rfl, rfl, rfl, id, ?_, fun _ _ => nofun⟩ (.of_eq rfl id)
        rw [hcall]
        rfl
      simpa [note, hcall] using hkept
    · simpa [note, hcall] using hl.append hcall hi
  | disable =>
    simp only [Asr.step] at hs
    split at hs
    · rename_i i hcall
      cases hs
      exact hl.disable hcall
    · cases hs
  | closeStream =>
    simp only [Asr.step] at hs
    split at hs
    · rename_i i hcall
      cases hs
      have hfeeding : s.call.feeding = none := by rw [hcall]; rfl
      exact Law.calls (hl.closes (i := i)) hfeeding rfl
    · rename_i i active hcall
      cases hs
      have hfeeding : s.call.feeding = none := by rw [hcall]; rfl
      exact Law.calls (hl.closes (i := i)) hfeeding rfl
    · cases hs
  | cancelRun =>
    simp only [Asr.step] at hs
    split at hs
    · rename_i hcall
      cases hs
      have hfeeding : s.call.feeding = none := by rw [hcall]; rfl
      exact Law.calls hl.cancelled hfeeding rfl
    · rename_i hcall
      cases hs
      exact hl.calls (by rw [hcall]; rfl) rfl
    · cases hs
  | cancelled done =>
    simp only [Asr.step, Option.ite_none_right_eq_some, Option.some.injEq] at hs
    obtain ⟨⟨hcall, -⟩, rfl⟩ := hs
    exact hl.calls (by rw [hcall]; rfl) rfl
  | ctxDone =>
    cases hs
    exact hl.alike id (.of_streams rfl) ⟨rfl, rfl, rfl, rfl, id, rfl, fun _ _ => id⟩
      (.of_eq rfl fun _ => rfl)
  | prepared i =>
    simp only [Asr.step] at hs
    split at hs
    case h_2 => cases hs
    rename_i st hi
    simp only [Asr.streamStep] at hs
    split at hs
    · rename_i hp
      cases hs
      exact hl.prepared hi (by rw [hp]; nofun)
    · rename_i hp
      cases hs
      exact hl.prepared hi (by rw [hp]; nofun)
    · cases hs
  | opened i | openFailed i | closeSurplus i | write i _ | stopWriter i | lost i =>
    simp only [Asr.step] at hs
    split at hs
    · exact hl.streamStep (by assumption) hs nofun
    · cases hs
  | started _ | finish _ | read _ | closeAsr | replace | transcribe | giveUp | ended =>
    simp only [Asr.step] at hs
    split at hs
    · exact hl.runStep (by assumption) hs
    · cases hs

theorem observed_law {o : Lts.Machine.Observed Session Notes}
    (h : (machine.observed {} note).Reachable o) : Law o.notes o.state := by
  refine Lts.Machine.observed_invariant (J := fun _ => True) (K := fun s n => Law n s) h
    (fun _ _ => trivial) ?_ fun s n l s' _ _ hl hs => hl.step hs
  rintro _ rfl
  refine ⟨fun i st hi => ?_, ⟨rfl, nofun, nofun, fun hn => absurd rfl hn, nofun, nofun, nofun, nofun⟩,
    .none rfl, ⟨nofun, nofun, nofun⟩⟩
  cases i with
  | zero =>
    cases hi
    exact ⟨fun _ => ⟨rfl, rfl, rfl, rfl⟩, fun _ => rfl, nofun, nofun⟩
  | succ i => simp at hi

/-- Whatever the order of calls, preparations, failures and turns: a transcript of a realtime
stream is that of the frames of one turn and a finish, and the batch service is sent all of
one turn. -/
theorem transcript_integrity {o : Lts.Machine.Observed Session Notes}
    (h : (machine.observed {} note).Reachable o) :
    (∀ frames i, (frames, .realtime i) ∈ o.notes.used → ∃ st, o.state.streams[i]? = some st ∧
      st.accepted = frames.map .audio ++ [.finish] ∧
      (.finish ∈ st.written → st.written = frames.map .audio ++ [.finish])) ∧
    (∀ frames pcm, (frames, .batch pcm) ∈ o.notes.used → pcm = frames.flatten) ∧
    (∀ r source, o.state.run = some r → r.stage = .recognized source →
      (o.notes.running, source) ∈ o.notes.used ∨
        source = .none ∧ (r.cancelled = true ∨ o.state.ctxDone = true)) ∧
    (∀ t t' i, (t, i) ∈ o.notes.fed → (t', i) ∈ o.notes.fed → t = t') := by
  have hl := observed_law h
  refine ⟨fun frames i hu => ?_, fun frames pcm hu => hl.past.used frames _ hu,
    fun r source hr hstage => ?_, hl.past.once⟩
  · obtain ⟨st, hst, hf, haccepted⟩ := hl.past.used frames _ hu
    refine ⟨st, hst, haccepted, fun hw => ?_⟩
    -- nothing is queued behind the finish
    have hwritten := (hl.sound i st hst).written (.inr hw)
    rw [haccepted] at hwritten
    rcases List.eq_nil_or_concat st.commands with hnil | ⟨rest, c, hc⟩
    · rwa [hnil, List.append_nil] at hwritten
    · rw [hc, List.concat_eq_append, ← List.append_assoc] at hwritten
      have hbefore := (List.append_inj' hwritten rfl).1
      have hmem : .finish ∈ frames.map Command.audio := hbefore ▸ List.mem_append_left _ hw
      simp at hmem
  · have hheard := hl.turn.heard r hr
    rw [hstage] at hheard
    cases source with
    | none => exact .inr ⟨rfl, Bool.or_eq_true_iff.mp hheard⟩
    | realtime | batch => exact .inl hheard

/-- A turn that its stream recognises, and one of which the stream took nothing. -/
theorem transcript_integrity_recognized : ∃ o, (machine.observed {} note).Reachable o ∧
    (∃ st, o.state.streams[0]? = some st ∧
      st.accepted = [[1, 2], [3, 4]].map .audio ++ [.finish] ∧
      (.finish ∈ st.written → st.written = [[1, 2], [3, 4]].map .audio ++ [.finish])) ∧
    [5, 6] = ([[5, 6]] : List (List UInt8)).flatten := by
  obtain ⟨o, -, hreach, hp⟩ := Lts.Machine.exists_of_run (machine.observed {} note) ⟨{}, {}⟩
    [.opened 0, .prepared 0, .sendAudio [1, 2], .append .command, .sendAudio [3, 4],
      .append .command, .commit, .started true, .finish .command, .write 0 true, .read true,
      .closeAsr, .replace, .ended, .sendAudio [5, 6], .opened 1, .prepared 1, .commit,
      .started true, .transcribe]
    (fun o => decide (o.notes.used = [([[1, 2], [3, 4]], .realtime 0), ([[5, 6]], .batch [5, 6])]))
    ⟨rfl, rfl⟩ (by decide +kernel)
  have hused := of_decide_eq_true hp
  obtain ⟨hrealtime, hbatch, -, -⟩ := transcript_integrity hreach
  exact ⟨o, hreach, hrealtime _ 0 (by simp [hused]), hbatch [[5, 6]] [5, 6] (by simp [hused])⟩

end BoomPI.Asr
