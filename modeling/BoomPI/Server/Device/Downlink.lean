import Mathlib.Data.List.Induction
import BoomPI.Server.Device.Reframing
import BoomPI.Server.Device.System

/-!
# The downlink of a response

Whole runs of the forwarder over the events of one response: what its messages
say in which order, and that the run can always be driven to response.done.
-/

namespace BoomPI.Device

open Backend (Error EventType)
open Protocol
open Transport (SendAt SendLabel enqueue encodable)
open BoomPI.Session (Event)

-- ---------------------------------------------------------------------------
-- Messages in order
-- ---------------------------------------------------------------------------

variable {turn : ActiveTurn} {r : GoString} {h h' : Heard} {out : List Outbound} {m : Outbound}

theorem hears_rec {P : Heard → List Outbound → Prop} (h0 : P {} [])
    (hstep : ∀ h out m h', P h out → h.hear turn r m = some h' → P h' (out ++ [m]))
    (hh : hears turn r out = some h) : P h out := by
  induction out using List.reverseRecOn generalizing h with
  | nil =>
    cases hh
    exact h0
  | append_singleton out m ih =>
    rw [hears, List.foldlM_append] at hh
    obtain ⟨h1, hout, hm⟩ := Option.bind_eq_some_iff.mp hh
    apply hstep h1 out m h (ih hout)
    simpa using hm

theorem framesOf_control (out : List Outbound) (reply : Reply) :
    framesOf (out ++ [.control reply]) = framesOf out := by
  simp [framesOf]

theorem framesOf_pcm (out : List Outbound) (header : PCMHeader) (payload : List UInt8) :
    framesOf (out ++ [.pcm header payload]) = framesOf out ++ [(header, payload)] := by
  simp [framesOf]

theorem getElem?_concat {α : Type} {xs : List α} {x y : α} {i : Nat} :
    (xs ++ [x])[i]? = some y ↔ xs[i]? = some y ∨ (i = xs.length ∧ x = y) := by
  rcases Nat.lt_trichotomy i xs.length with hi | rfl | hi
  · rw [List.getElem?_append_left hi]
    simp [Nat.ne_of_lt hi]
  · simp
  · rw [List.getElem?_eq_none (by simp; omega), List.getElem?_eq_none (Nat.le_of_lt hi)]
    simp
    omega

inductive Spoken (r : GoString) (h : Heard) : Body → Heard → Prop
  | start : h.done = false → Spoken r h (.responseStart r) { h with started := true }
  | text (piece : GoString) : h.done = false →
      Spoken r h (.textDelta r piece) { h with texts := h.texts ++ [piece] }
  | announce : h.done = false →
      Spoken r h (.audioStart r outputSampleRateHz) { h with announced := true }
  | done : h.done = false → Spoken r h (.responseDone r) { h with done := true }

theorem say_spoken {body : Body} (hs : h.say r body = some h') : Spoken r h body h' := by
  cases body <;>
    simp only [Heard.say, Option.ite_none_right_eq_some, Option.some.injEq, reduceCtorEq] at hs
  · obtain ⟨⟨rfl, -, hd⟩, rfl⟩ := hs
    exact .start (by simpa using hd)
  · obtain ⟨⟨rfl, -, hd⟩, rfl⟩ := hs
    exact .text _ (by simpa using hd)
  · obtain ⟨⟨rfl, rfl, -, -, hd⟩, rfl⟩ := hs
    exact .announce (by simpa using hd)
  · obtain ⟨⟨rfl, -, hd⟩, rfl⟩ := hs
    exact .done (by simpa using hd)

theorem hear_control {reply : Reply} (hm : h.hear turn r (.control reply) = some h') :
    Spoken r h reply.body h' := by
  rw [Heard.hear, Option.ite_none_right_eq_some] at hm
  exact say_spoken hm.2

structure Framed (turn : ActiveTurn) (h : Heard) (header : PCMHeader) (payload : List UInt8) :
    Prop where
  announced : h.announced = true
  running : h.ended = false
  undone : h.done = false
  kind : header.version = Version ∧ header.kind = AudioKindDownlink ∧
    header.audioFormat = AudioFormatPCM16LE ∧ header.channels = 1 ∧
    header.sampleRateHz = outputSampleRateHz
  ids : header.deviceUUID = turn.deviceUUID ∧ header.sessionID = turn.sessionID ∧
    header.turnID = turn.turnID ∧ header.streamID = turn.downlinkStream ∧ header.epoch = turn.epoch
  sequence : header.sequence = uint32 h.payloads.length
  payloadLen : header.payloadLen = payload.length
  flags : header.flags =
    (if uint32 h.payloads.length = 0 then 1 else 0) + (if header.fin then 2 else 0)
  nonempty : payload.length ≠ 0
  fits : payload.length ≤ outputFrameBytes
  aligned : payload.length % pcmBytesPerSample = 0
  full : header.fin = false → payload.length = outputFrameBytes

theorem hear_pcm {header : PCMHeader} {payload : List UInt8}
    (hm : h.hear turn r (.pcm header payload) = some h') :
    Framed turn h header payload ∧
      h' = { h with payloads := h.payloads ++ [payload], ended := header.fin } := by
  rw [Heard.hear, Heard.frame, Option.ite_none_right_eq_some, Option.some.injEq] at hm
  obtain ⟨⟨ha, he, hd, hv, hk, hfmt, hch, hrate, hdev, hsess, hturn, hstream, hepoch, hseq, hlen,
    hflags, hne, hfit, hal, hfull⟩, rfl⟩ := hm
  exact ⟨⟨ha, by simpa using he, by simpa using hd, ⟨hv, hk, hfmt, hch, hrate⟩,
    ⟨hdev, hsess, hturn, hstream, hepoch⟩, hseq, hlen, hflags, hne, hfit, hal,
    by simpa using hfull⟩, rfl⟩

theorem Framed.start {header : PCMHeader} {payload : List UInt8}
    (hf : Framed turn h header payload) : header.start = decide (uint32 h.payloads.length = 0) := by
  rw [PCMHeader.start, hf.flags]
  by_cases h0 : uint32 h.payloads.length = 0 <;> cases header.fin <;> simp [h0]

/-- The frames sent so far, counted in `uint32`. -/
structure Frames (turn : ActiveTurn) (h : Heard) (frames : List (PCMHeader × List UInt8)) : Prop where
  payloads : frames.map Prod.snd = h.payloads
  sequence : ∀ i header payload, frames[i]? = some (header, payload) →
    header.sequence = uint32 i ∧ header.start = decide (uint32 i = 0)
  fin : ∀ i header payload, frames[i]? = some (header, payload) →
    (header.fin = true ↔ h.ended = true ∧ i + 1 = frames.length)
  nonempty : h.ended = true → frames ≠ []
  payload : ∀ header payload, (header, payload) ∈ frames →
    pcmBytesPerSample ≤ payload.length ∧ payload.length ≤ outputFrameBytes ∧
      payload.length % pcmBytesPerSample = 0
  full : ∀ header payload, (header, payload) ∈ frames → header.fin = false →
    payload.length = outputFrameBytes

theorem Frames.pcm {frames : List (PCMHeader × List UInt8)} {header : PCMHeader}
    {payload : List UInt8} (hi : Frames turn h frames) (hf : Framed turn h header payload) :
    Frames turn { h with payloads := h.payloads ++ [payload], ended := header.fin }
      (frames ++ [(header, payload)]) := by
  have hlen : h.payloads.length = frames.length := by rw [← hi.payloads, List.length_map]
  refine ⟨by simp [hi.payloads], ?_, ?_, fun _ => by simp, ?_, ?_⟩
  · intro i header' payload' hget
    rcases getElem?_concat.mp hget with hget | ⟨rfl, heq⟩
    · exact hi.sequence i header' payload' hget
    · cases heq
      exact ⟨hlen ▸ hf.sequence, hlen ▸ hf.start⟩
  · intro i header' payload' hget
    rcases getElem?_concat.mp hget with hget | ⟨rfl, heq⟩
    · have hlt : i < frames.length := (List.getElem?_eq_some_iff.mp hget).1
      rw [hi.fin i header' payload' hget, hf.running]
      simp
      omega
    · cases heq
      simp
  · intro header' payload' hmem
    rcases List.mem_append.mp hmem with hmem | hmem
    · exact hi.payload header' payload' hmem
    · cases List.mem_singleton.mp hmem
      have hne := hf.nonempty
      have hal := hf.aligned
      refine ⟨?_, hf.fits, hal⟩
      unfold pcmBytesPerSample at hal ⊢
      omega
  · intro header' payload' hmem
    rcases List.mem_append.mp hmem with hmem | hmem
    · exact hi.full header' payload' hmem
    · cases List.mem_singleton.mp hmem
      exact hf.full

theorem hears_frames (hh : hears turn r out = some h) : Frames turn h (framesOf out) := by
  refine hears_rec (P := fun h out => Frames turn h (framesOf out)) ⟨rfl, ?_, ?_, nofun, ?_, ?_⟩
    ?_ hh
  · exact fun _ _ _ => nofun
  · exact fun _ _ _ => nofun
  · exact fun _ _ => nofun
  · exact fun _ _ => nofun
  · intro h out m h' hi hm
    cases m with
    | control reply =>
      rw [framesOf_control]
      obtain ⟨h1, h2, h3, h4, h5, h6⟩ := hi
      have hs := hear_control hm
      generalize reply.body = body at hs
      cases hs <;> exact ⟨h1, h2, h3, h4, h5, h6⟩
    | pcm header payload =>
      rw [framesOf_pcm]
      obtain ⟨hf, rfl⟩ := hear_pcm hm
      exact hi.pcm hf

structure Ordered (r : GoString) (h : Heard) (out : List Outbound) : Prop where
  announced : h.announced = true → ∃ (i : Nat) (reply : Reply),
    out[i]? = some (.control reply) ∧ reply.body = .audioStart r outputSampleRateHz
  audio : ∀ (i : Nat) header payload, out[i]? = some (.pcm header payload) →
    ∃ (j : Nat) (reply : Reply), j < i ∧ out[j]? = some (.control reply) ∧
      reply.body = .audioStart r outputSampleRateHz
  done : h.done = true ↔ ∃ reply : Reply, .control reply ∈ out ∧ reply.body = .responseDone r
  last : ∀ (i : Nat) (reply : Reply), out[i]? = some (.control reply) →
    reply.body = .responseDone r → i + 1 = out.length

theorem hear_undone (hm : h.hear turn r m = some h') : h.done = false := by
  cases m with
  | control reply =>
    have hs := hear_control hm
    generalize reply.body = body at hs
    cases hs <;> assumption
  | pcm header payload => exact (hear_pcm hm).1.undone

theorem Ordered.append (hi : Ordered r h out) (hm : h.hear turn r m = some h') :
    Ordered r h' (out ++ [m]) := by
  have hundone : ∀ reply : Reply, .control reply ∈ out → reply.body ≠ .responseDone r := by
    intro reply hmem hb
    have hd := hi.done.mpr ⟨reply, hmem, hb⟩
    rw [hear_undone hm] at hd
    cases hd
  have hold {i : Nat} {x : Outbound} (h : out[i]? = some x) : (out ++ [m])[i]? = some x :=
    getElem?_concat.mpr (.inl h)
  refine ⟨?_, ?_, ?_, ?_⟩
  · intro ha
    cases m with
    | pcm header payload =>
      obtain ⟨hf, rfl⟩ := hear_pcm hm
      obtain ⟨i, reply, hget, hb⟩ := hi.announced ha
      exact ⟨i, reply, hold hget, hb⟩
    | control reply =>
      have hs := hear_control hm
      generalize hbody : reply.body = body at hs
      cases hs with
      | announce => exact ⟨out.length, reply, getElem?_concat.mpr (.inr ⟨rfl, rfl⟩), hbody⟩
      | start | text | done =>
        obtain ⟨i, reply', hget, hb⟩ := hi.announced ha
        exact ⟨i, reply', hold hget, hb⟩
  · intro i header payload hget
    rcases getElem?_concat.mp hget with hget | ⟨rfl, rfl⟩
    · obtain ⟨j, reply, hlt, hj, hb⟩ := hi.audio i header payload hget
      exact ⟨j, reply, hlt, hold hj, hb⟩
    · obtain ⟨j, reply, hj, hb⟩ := hi.announced (hear_pcm hm).1.announced
      exact ⟨j, reply, (List.getElem?_eq_some_iff.mp hj).1, hold hj, hb⟩
  · cases m with
    | pcm header payload =>
      obtain ⟨hf, rfl⟩ := hear_pcm hm
      simpa using hi.done
    | control reply =>
      have hs := hear_control hm
      generalize hbody : reply.body = body at hs
      cases hs with
      | done => exact ⟨fun _ => ⟨reply, by simp, hbody⟩, fun _ => rfl⟩
      | start | text | announce => 
        refine ⟨fun hd => ?_, ?_⟩
        · obtain ⟨reply', hmem, hb⟩ := hi.done.mp hd
          exact ⟨reply', by simp [hmem], hb⟩
        · rintro ⟨reply', hmem, hb⟩
          rcases List.mem_append.mp hmem with hmem | hmem
          · exact absurd hb (hundone reply' hmem)
          · cases List.mem_singleton.mp hmem
            rw [hbody] at hb
            cases hb
  · intro i reply hget hb
    rcases getElem?_concat.mp hget with hget | ⟨rfl, rfl⟩
    · exact absurd hb (hundone reply (List.mem_of_getElem? hget))
    · simp

theorem hears_ordered (hh : hears turn r out = some h) : Ordered r h out := by
  refine hears_rec (P := Ordered r) ⟨nofun, ?_, ?_, ?_⟩ (fun h out m h' => Ordered.append) hh
  · exact fun _ _ _ => nofun
  · simp
  · exact fun _ _ => nofun

-- ---------------------------------------------------------------------------
-- Runs
-- ---------------------------------------------------------------------------

variable {c₀ c : Conn} {p : PacedDownlink} {deltas : List Delta} {doneAt : Option (List UInt8)}
  {t : ActiveTurn} {stage : Stage} {left : List Event} {f : ForwardAt} {s s' : Response}

structure Reframed (c₀ : Conn) (r : GoString) (deltas : List Delta) (s : Response) (h : Heard)
    (stage : Stage) : Prop where
  before : s.before ≤ s.conn.sent.length
  heard : hears c₀.turn r s.out = some h
  opened : Opened c₀ s.conn
  place : s.forward.Reframes c₀ r deltas s.doneAt s.conn.turn s.pacer h stage
    (s.conn.actor.events ++ s.script)

theorem wireBytes_flatten (hh : hears turn r out = some h) : wireBytes out = h.payloads.flatten := by
  rw [← (hears_frames hh).payloads, wireBytes, List.flatMap_def]

theorem hears_full (hh : hears turn r out = some h) (he : h.ended = false) :
    h.payloads.flatten.length = outputFrameBytes * h.payloads.length := by
  refine hears_rec (P := fun h _ => h.ended = false →
    h.payloads.flatten.length = outputFrameBytes * h.payloads.length) (fun _ => rfl) ?_ hh he
  intro h _ m h' hi hm
  cases m with
  | pcm header payload => exact full_of_frame (by rw [Heard.hear] at hm; exact hm) hi
  | control reply =>
    have hs := hear_control hm
    generalize reply.body = body at hs
    cases hs <;> exact hi

theorem Reframed.of_steady (hi : Reframed c₀ r deltas s h stage) (hb : s'.before = s.before)
    (hs : s'.conn.sent = s.conn.sent) (ho : Opened c₀ s'.conn) (hd : s'.doneAt = s.doneAt)
    (ht : s'.conn.turn = s.conn.turn) (hp : s'.pacer = s.pacer) (hf : s'.forward = s.forward)
    (hl : s'.conn.actor.events ++ s'.script = s.conn.actor.events ++ s.script) :
    Reframed c₀ r deltas s' h stage := by
  refine ⟨by rw [hb, hs]; exact hi.before, ?_, ho, ?_⟩
  · rw [Response.out, hb, hs]
    exact hi.heard
  · rw [hf, hd, ht, hp, hl]
    exact hi.place

theorem response_step_forward {l : ForwardLabel} (hl : l ≠ .send .encodeFailed) :
    s.step (.forward l) = (forwardStep s.conn s.pacer s.forward l).map fun x => { s with
      conn := x.1, pacer := x.2.1, forward := x.2.2
      doneAt := if s.forward.finishes? then some (wireBytes s.out) else s.doneAt } := by
  rw [Response.step]
  exact fun h => hl (by rw [h])

/-- Every way a response can move. -/
inductive ResponseMove (s : Response) : ResponseLabel → Response → Prop
  | emit {e : Event} {script : List Event} : s.script = e :: script →
      ResponseMove s .emit { s with script, conn.actor.events := s.conn.actor.events ++ [e] }
  | tick (elapsed : Nat) : ResponseMove s (.tick elapsed) { s with conn.now := s.conn.now + elapsed }
  | writePump : s.conn.written < s.conn.sent.length →
      ResponseMove s .writePump { s with conn.written := s.conn.written + 1 }
  | forward {l : ForwardLabel} {x : Forwarded} : l ≠ .send .encodeFailed →
      forwardStep s.conn s.pacer s.forward l = some x → ResponseMove s (.forward l) { s with
        conn := x.1, pacer := x.2.1, forward := x.2.2
        doneAt := if s.forward.finishes? then some (wireBytes s.out) else s.doneAt }

theorem response_move {l : ResponseLabel} (hs : s.step l = some s') : ResponseMove s l s' := by
  cases l with
  | emit =>
    cases hscript : s.script with
    | nil => simp [Response.step, hscript] at hs
    | cons e script =>
      simp only [Response.step, hscript, Option.ite_none_right_eq_some, Option.some.injEq] at hs
      obtain ⟨-, rfl⟩ := hs
      exact .emit hscript
  | tick elapsed =>
    cases hs
    exact .tick elapsed
  | writePump =>
    simp only [Response.step, Option.ite_none_right_eq_some, Option.some.injEq] at hs
    obtain ⟨hlt, rfl⟩ := hs
    exact .writePump hlt
  | forward l =>
    have hl : l ≠ .send .encodeFailed := by
      rintro rfl
      cases hs
    rw [response_step_forward hl, Option.map_eq_some_iff] at hs
    obtain ⟨x, hx, rfl⟩ := hs
    exact .forward hl hx

theorem Reframed.step {l : ResponseLabel} (hi : Reframed c₀ r deltas s h stage)
    (hv : ∀ d ∈ deltas, d.valid = true) (hf : Fresh c₀) (hs : s.step l = some s') :
    ∃ h' stage', Reframed c₀ r deltas s' h' stage' := by
  have ho := hi.opened
  cases response_move hs with
  | emit hscript =>
    refine ⟨h, stage, hi.of_steady rfl rfl ⟨ho.done, ho.eventsClosed, ho.ctx, ho.fresh⟩
      rfl rfl rfl rfl ?_⟩
    rw [hscript, List.append_assoc]
    rfl
  | tick | writePump =>
    exact ⟨h, stage, hi.of_steady rfl rfl ⟨ho.done, ho.eventsClosed, ho.ctx, ho.fresh⟩
      rfl rfl rfl rfl rfl⟩
  | forward hl hx =>
    obtain ⟨h', stage', hsay, ho', hp⟩ := forward_advances hi.place hv hf.active hf.epoch ho
      (hears_full hi.heard) hl hx
    rw [← wireBytes_flatten hi.heard] at hp
    refine ⟨h', stage', ?_, ?_, ho', hp⟩
    · rcases hsay with ⟨hsent, -⟩ | ⟨m, hsent, -⟩ <;> simp [hsent] <;> have := hi.before <;> omega
    · rw [Response.out]
      rcases hsay with ⟨hsent, rfl⟩ | ⟨m, hsent, hm⟩
      · simp only [hsent]
        exact hi.heard
      · simp only [hsent, List.drop_append_of_le_length hi.before]
        exact hears_append hi.heard hm

theorem Reframed.init (hf : Fresh c) :
    Reframed c r deltas
      { conn := c, script := responseEvents c.turn.epoch r deltas, before := c.sent.length } {}
      .waiting := by
  have hdone : c.done none = false := by
    have h := hf.ctx
    simp only [Conn.done, Bool.decide_or, Bool.or_eq_false_iff, decide_eq_false_iff_not] at h ⊢
    exact ⟨h.1, h.2.1, by simp⟩
  refine ⟨Nat.le_refl _, by simp [Response.out, hears], ⟨hdone, hf.eventsClosed, fun _ => rfl, hf.ctx⟩, ?_⟩
  refine .inl ⟨⟨⟨?_, rfl, rfl, rfl⟩, rfl⟩, by simp [hf.events, Stage.left]⟩
  have h1 := hf.outputSequence
  have h2 := hf.outputStarted
  change c.turn = { c.turn with outputSequence := 0, outputStarted := false }
  rw [← h1, ← h2]

theorem reframed_reachable (hf : Fresh c) (hv : ∀ d ∈ deltas, d.valid = true)
    (hs : (response c r deltas).Reachable s) : ∃ h stage, Reframed c r deltas s h stage := by
  apply hs.invariant (I := fun s => ∃ h stage, Reframed c r deltas s h stage)
  · rintro _ rfl
    exact ⟨{}, .waiting, .init hf⟩
  · rintro s l t ⟨h, stage, hi⟩ hst
    exact hi.step hv hf hst

-- ---------------------------------------------------------------------------
-- How much is on the wire
-- ---------------------------------------------------------------------------

/-- No more than the audio, and one more sample in the last frame. -/
def Fits (deltas : List Delta) (h : Heard) : Prop :=
  h.payloads.flatten.length ≤
    (audioOf deltas).length + (if h.ended then pcmBytesPerSample else 0)

theorem audioOf_taken (deltas : List Delta) (stage : Stage) :
    (audioOf (stage.taken deltas)).length ≤ (audioOf deltas).length := by
  cases stage with
  | waiting => exact Nat.zero_le _
  | finished => exact Nat.le_refl _
  | speaking count =>
    have h := congrArg (fun ds => (audioOf ds).length) (List.take_append_drop count deltas)
    simp only [audioOf, List.flatMap_append, List.length_append] at h
    simp only [Stage.taken, audioOf]
    omega

theorem Accounts.fits {audio wire pending : List UInt8} {ended fin : Bool}
    (ha : Accounts audio wire pending ended doneAt fin)
    (hal : pending.length % pcmBytesPerSample = 0) :
    wire.length ≤ audio.length + (if ended then pcmBytesPerSample else 0) := by
  cases ha with
  | open_ h | closing h =>
    rw [← h, List.length_append]
    omega
  | silent h _ _ hlast =>
    have hsum := congrArg List.length h
    rw [List.length_append, List.length_append, silence_length] at hsum
    cases hended : ended with
    | true =>
      rw [if_pos rfl]
      omega
    | false =>
      have hne : pending.length ≠ 0 := by
        intro h0
        have := hlast (List.length_eq_zero_iff.mp h0)
        rw [hended] at this
        cases this
      unfold pcmBytesPerSample at *
      rw [if_neg nofun]
      omega

/-- What holds of the pacer's account and is not undone by looking back holds everywhere. -/
structure Account (c₀ : Conn) (r : GoString) (deltas : List Delta) (doneAt : Option (List UInt8))
    (P : Heard → Prop) : Prop where
  silent : P {}
  paced : ∀ {p h stage}, Paced c₀ r deltas doneAt p h stage → P h
  ending : ∀ {h}, Ending c₀ r deltas doneAt h → P h
  said : ∀ {h h' body}, Spoken r h body h' → P h' → P h
  frame : ∀ {h header payload}, Framed c₀.turn h header payload →
    P { h with payloads := h.payloads ++ [payload], ended := header.fin } → P h

section
variable {P : Heard → Prop} (ha : Account c₀ r deltas doneAt P)
include ha

theorem Account.idling (hi : Idling c₀ r deltas doneAt t p h stage) : P h := by
  by_cases hs : stage = .waiting
  · subst hs
    rw [hi.waiting.2]
    exact ha.silent
  · exact ha.paced (hi.paced hs)

theorem Account.looping (hl : Looping c₀ r deltas doneAt t p h stage left) : P h :=
  hl.elim (fun h => ha.idling h.1.toIdling) fun h => ha.ending h.1

theorem Account.before (hm : h.hear c₀.turn r m = some h') (h' : P h') : P h := by
  cases m with
  | control reply => exact ha.said (hear_control hm) h'
  | pcm header payload =>
    obtain ⟨hframe, rfl⟩ := hear_pcm hm
    exact ha.frame hframe h'

theorem Account.place (hp : f.Reframes c₀ r deltas doneAt t p h stage left) : P h := by
  cases f with
  | top => exact ha.looping hp
  | pace => exact ha.looping hp.1
  | selecting deadline =>
    cases deadline with
    | none => exact ha.looping hp.1
    | some => exact ha.looping hp
  | finish | received => exact ha.idling hp.1
  | frame => exact ha.idling hp.1.toIdling
  | control =>
    obtain ⟨h', hs, -, -, hi, -⟩ := hp
    exact ha.said (say_spoken hs) (ha.idling hi.toIdling)
  | audio =>
    obtain ⟨-, -, -, -, hundone, -, hpaced, -⟩ := hp
    exact ha.said (.announce hundone) (ha.paced hpaced)
  | sending s m job =>
    cases job with
    | control =>
      obtain ⟨h', hs, -, hi, -⟩ := hp
      exact ha.before hs (ha.idling hi.toIdling)
    | frame =>
      obtain ⟨h', hs, -, -, -, -, -, hi, -⟩ := hp
      exact ha.before hs (ha.idling hi)
    | done =>
      obtain ⟨h', hs, -, -, -, hi⟩ := hp
      exact ha.idling hi
    | error => exact hp.elim
  | finished | finishedStop => exact ha.ending hp.1
  | _ => exact hp.elim

end

theorem fits_account : Account c₀ r deltas doneAt (Fits deltas) := by
  refine ⟨Nat.zero_le _, fun hp => ?_, fun he => he.accounts.fits rfl, fun hs hf => ?_, fun hframe hf => ?_⟩
  · exact Nat.le_trans (hp.accounts.fits hp.aligned) (Nat.add_le_add_right (audioOf_taken deltas _) _)
  · cases hs <;> exact hf
  · have hne := hframe.nonempty
    have hal := hframe.aligned
    simp only [Fits, List.flatten_append, List.flatten_singleton, List.length_append] at hf ⊢
    unfold pcmBytesPerSample at *
    split at hf <;> omega

theorem ForwardAt.Reframes.fits (hp : f.Reframes c₀ r deltas doneAt t p h stage left) :
    Fits deltas h :=
  fits_account.place hp

def Told (deltas : List Delta) (h : Heard) : Prop := ∀ text ∈ h.texts, text ∈ textsOf deltas

theorem told_account : Account c₀ r deltas doneAt (Told deltas) := by
  refine ⟨by simp [Told], fun {p h stage} hp => ?_, fun he => ?_, fun hs hf => ?_, fun _ hf => hf⟩
  · intro text hmem
    rw [hp.texts] at hmem
    cases stage with
    | waiting => simp [Stage.taken, textsOf] at hmem
    | speaking count => exact (List.take_sublist count deltas).filterMap _ |>.subset hmem
    | finished => exact hmem
  · intro text hmem
    rwa [he.texts] at hmem
  · cases hs with
    | text piece _ => exact fun text hmem => hf text (List.mem_append_left _ hmem)
    | start | announce | done => exact hf

theorem ForwardAt.Reframes.told (hp : f.Reframes c₀ r deltas doneAt t p h stage left) :
    Told deltas h :=
  told_account.place hp

def ForwardAt.holds : ForwardAt → Bool
  | .received _ | .control .. | .audio .. | .sending .. => true
  | _ => false

/-- Once response.done is queued, nothing is left and nothing is in hand. -/
theorem ForwardAt.Reframes.done (hp : f.Reframes c₀ r deltas doneAt t p h stage left)
    (hd : h.done = true) : f.holds = false ∧ Ending c₀ r deltas doneAt h ∧ left = [] := by
  have hno {t p stage} (hi : Idling c₀ r deltas doneAt t p h stage) : False := by
    have hu := hi.undone
    rw [hd] at hu
    cases hu
  have hloop (hl : Looping c₀ r deltas doneAt t p h stage left) :
      Ending c₀ r deltas doneAt h ∧ left = [] :=
    hl.elim (fun h => (hno h.1.toIdling).elim) fun h => ⟨h.1, h.2.2.2⟩
  cases f with
  | top => exact ⟨rfl, hloop hp⟩
  | pace => exact ⟨rfl, hloop hp.1⟩
  | selecting deadline =>
    cases deadline with
    | none => exact ⟨rfl, hloop hp.1⟩
    | some => exact ⟨rfl, hloop hp⟩
  | finish | received => exact (hno hp.1).elim
  | frame => exact (hno hp.1.toIdling).elim
  | control =>
    obtain ⟨h', hs, hu, -⟩ := hp
    cases say_spoken hs <;> simp_all
  | audio =>
    obtain ⟨-, -, -, -, hu, -⟩ := hp
    rw [hd] at hu
    cases hu
  | sending s m job =>
    obtain ⟨-, -, h', hs⟩ := sending_turn hp
    have hu := hear_undone hs
    rw [hd] at hu
    cases hu
  | finished | finishedStop => exact ⟨rfl, hp.1, hp.2.1⟩
  | _ => exact hp.elim

theorem ForwardAt.Reframes.ending (hp : f.Reframes c₀ r deltas doneAt t p h stage left)
    (hd : h.done = true) : Ending c₀ r deltas doneAt h :=
  (hp.done hd).2.1

-- ---------------------------------------------------------------------------
-- Whole responses
-- ---------------------------------------------------------------------------

def finishedBy (r : GoString) (out : List Outbound) : Bool :=
  out.any fun
    | .control reply => reply.body = .responseDone r
    | .pcm .. => false

/-- The frames of a response in the order of the wire, and what stands around them. -/
structure WellFramed (r : GoString) (out : List Outbound) : Prop where
  sequence : ∀ i header payload, (framesOf out)[i]? = some (header, payload) →
    header.sequence = i ∧ (header.start = true ↔ i = 0)
  fin : ∀ i header payload, (framesOf out)[i]? = some (header, payload) → header.fin = true →
    i + 1 = (framesOf out).length
  payload : ∀ header payload, (header, payload) ∈ framesOf out →
    pcmBytesPerSample ≤ payload.length ∧ payload.length ≤ outputFrameBytes ∧
      payload.length % pcmBytesPerSample = 0
  full : ∀ header payload, (header, payload) ∈ framesOf out → header.fin = false →
    payload.length = outputFrameBytes
  announced : ∀ (i : Nat) header payload, out[i]? = some (.pcm header payload) →
    ∃ (j : Nat) (reply : Reply), j < i ∧ out[j]? = some (.control reply) ∧
      reply.body = .audioStart r outputSampleRateHz
  last : ∀ (i : Nat) (reply : Reply), out[i]? = some (.control reply) →
    reply.body = .responseDone r → i + 1 = out.length

structure Complete (turn : ActiveTurn) (r : GoString) (deltas : List Delta) (doneAt : Option (List UInt8))
    (out : List Outbound) : Prop where
  fin : ∀ i header payload, (framesOf out)[i]? = some (header, payload) →
    (header.fin = true ↔ i + 1 = (framesOf out).length)
  audio : wireBytes out = audioOf deltas ++
    if audioOf deltas ≠ [] ∧ doneAt = some (audioOf deltas) then silence else []
  silent : audioOf deltas = [] → framesOf out = []
  texts : ∃ h, hears turn r out = some h ∧ h.texts = textsOf deltas

theorem finishedBy_iff (hh : hears turn r out = some h) : finishedBy r out = true ↔ h.done = true := by
  rw [(hears_ordered hh).done, finishedBy, List.any_eq_true]
  constructor
  · rintro ⟨m, hmem, hm⟩
    cases m with
    | control reply => exact ⟨reply, hmem, of_decide_eq_true hm⟩
    | pcm => cases hm
  · rintro ⟨reply, hmem, hb⟩
    exact ⟨.control reply, hmem, decide_eq_true hb⟩

theorem frames_wire (hh : hears turn r out = some h) (he : h.ended = true) :
    outputFrameBytes * (h.payloads.length - 1) + pcmBytesPerSample ≤ h.payloads.flatten.length := by
  refine hears_rec (P := fun h _ => (h.ended = false →
      h.payloads.flatten.length = outputFrameBytes * h.payloads.length) ∧
    (h.ended = true → outputFrameBytes * (h.payloads.length - 1) + pcmBytesPerSample ≤
      h.payloads.flatten.length)) ⟨fun _ => rfl, nofun⟩ ?_ hh |>.2 he
  intro h _ m h' hi hm
  cases m with
  | control reply =>
    have hs := hear_control hm
    generalize reply.body = body at hs
    cases hs <;> exact hi
  | pcm header payload =>
    have hfull := full_of_frame (by rw [Heard.hear] at hm; exact hm) hi.1
    obtain ⟨hf, rfl⟩ := hear_pcm hm
    refine ⟨hfull, fun _ => ?_⟩
    have hwire := hi.1 hf.running
    have hne := hf.nonempty
    have hal := hf.aligned
    simp only [List.length_append, List.length_singleton, Nat.add_sub_cancel, List.flatten_append,
      List.flatten_singleton, hwire]
    unfold pcmBytesPerSample at *
    omega

/-- A response of less than 2³² full frames numbers its frames in `uint32`. -/
theorem Reframed.count (hi : Reframed c₀ r deltas s h stage)
    (hlen : (audioOf deltas).length < outputFrameBytes * 2 ^ 32) :
    h.payloads.length ≤ 2 ^ 32 ∧ (h.ended = false → h.payloads.length < 2 ^ 32) := by
  have hfits := hi.place.fits
  rw [Fits] at hfits
  have hpos : 0 < outputFrameBytes := by decide
  cases he : h.ended with
  | false =>
    rw [hears_full hi.heard he, he] at hfits
    have hlt : h.payloads.length < 2 ^ 32 := Nat.lt_of_mul_lt_mul_left (Nat.lt_of_le_of_lt hfits hlen)
    exact ⟨Nat.le_of_lt hlt, fun _ => hlt⟩
  | true =>
    have hwire := frames_wire hi.heard he
    rw [he, if_pos rfl] at hfits
    have hle : outputFrameBytes * (h.payloads.length - 1) ≤ (audioOf deltas).length := by omega
    have hlt := Nat.lt_of_mul_lt_mul_left (Nat.lt_of_le_of_lt hle hlen)
    exact ⟨by omega, nofun⟩

theorem Reframed.wellFramed (hi : Reframed c₀ r deltas s h stage)
    (hlen : (audioOf deltas).length < outputFrameBytes * 2 ^ 32) : WellFramed r s.out := by
  have hframes := hears_frames hi.heard
  have hordered := hears_ordered hi.heard
  refine ⟨?_, ?_, hframes.payload, hframes.full, hordered.audio, hordered.last⟩
  · intro i header payload hget
    obtain ⟨hseq, hstart⟩ := hframes.sequence i header payload hget
    have hcount : (framesOf s.out).length ≤ 2 ^ 32 := by
      rw [← List.length_map (f := Prod.snd), hframes.payloads]
      exact (hi.count hlen).1
    have hlt := (List.getElem?_eq_some_iff.mp hget).1
    have hu : uint32 i = i := Nat.mod_eq_of_lt (Nat.lt_of_lt_of_le hlt hcount)
    rw [hu] at hseq hstart
    exact ⟨hseq, by rw [hstart, decide_eq_true_iff]⟩
  · intro i header payload hget hfin
    exact ((hframes.fin i header payload hget).mp hfin).2

theorem Ending.audio (he : Ending c₀ r deltas doneAt h) (hl : h.ended = true ∨ h.payloads = []) :
    h.payloads.flatten = audioOf deltas ++
      if audioOf deltas ≠ [] ∧ doneAt = some (audioOf deltas) then silence else [] := by
  have ha := he.accounts
  generalize hwire : h.payloads.flatten = wire at ha
  generalize hended : h.ended = ended at ha hl
  cases ha with
  | @closing done ha _ hdone _ =>
    rw [List.append_nil] at ha
    rw [if_neg, List.append_nil, ha]
    rintro ⟨hne, hsome⟩
    rcases hl with hl | hl
    · exact (hdone hl).1 (Option.some.inj hsome)
    · rw [hl] at hwire
      exact hne (ha ▸ hwire.symm)
  | silent ha hne _ _ =>
    rw [List.append_nil] at ha
    rw [if_pos ⟨hne, rfl⟩, ha]

theorem Reframed.last (hi : Reframed c₀ r deltas s h stage)
    (hlen : (audioOf deltas).length < outputFrameBytes * 2 ^ 32) (hd : h.done = true) :
    h.ended = true ∨ h.payloads = [] := by
  rcases (hi.place.ending hd).last with he | h0
  · exact .inl he
  · cases he : h.ended with
    | true => exact .inl rfl
    | false =>
      have hlt := (hi.count hlen).2 he
      rw [uint32, Nat.mod_eq_of_lt hlt] at h0
      exact .inr (List.length_eq_zero_iff.mp h0)

theorem Reframed.complete (hi : Reframed c₀ r deltas s h stage)
    (hlen : (audioOf deltas).length < outputFrameBytes * 2 ^ 32) (hd : h.done = true) :
    Complete c₀.turn r deltas s.doneAt s.out := by
  have hframes := hears_frames hi.heard
  have he := hi.place.ending hd
  have hlast := hi.last hlen hd
  have haudio := he.audio hlast
  rw [← wireBytes_flatten hi.heard] at haudio
  refine ⟨?_, haudio, ?_, h, hi.heard, he.texts⟩
  · intro i header payload hget
    rw [hframes.fin i header payload hget]
    rcases hlast with hended | hnone
    · simp [hended]
    · have hlt := (List.getElem?_eq_some_iff.mp hget).1
      rw [← List.length_map (f := Prod.snd), hframes.payloads, hnone] at hlt
      cases hlt
  · intro hsilent
    rw [hsilent, if_neg (fun h => h.1 rfl)] at haudio
    cases hf : framesOf s.out with
    | nil => rfl
    | cons frame rest =>
      have hmin := (hframes.payload frame.1 frame.2 (by simp [hf])).1
      rw [wireBytes, hf, List.flatMap_cons] at haudio
      rw [(List.append_eq_nil_iff.mp haudio).1] at hmin
      cases hmin

-- ---------------------------------------------------------------------------
-- Progress
-- ---------------------------------------------------------------------------

def ForwardAt.held : ForwardAt → List UInt8
  | .received event | .audio _ event => event.raw.pcm
  | .control _ _ pcm | .sending _ _ (.control _ pcm) => pcm
  | _ => []

def ForwardAt.rank : ForwardAt → Nat
  | .received _ => 16
  | .audio .. => 15
  | .control .. => 14
  | .sending .first _ (.control ..) => 13
  | .sending .second _ (.control ..) => 12
  | .selecting (some _) => 11
  | .top => 10
  | .pace => 9
  | .selecting none => 8
  | .frame => 7
  | .sending .first _ (.frame ..) => 6
  | .sending .second _ (.frame ..) => 5
  | .finish => 4
  | .sending .first _ (.done _) => 3
  | .sending .second _ (.done _) => 2
  | _ => 0

/-- What is left to do: events, bytes, the way to the next of them, messages to write. -/
def work (script : List Event) (x : Forwarded) : Nat :=
  40 * ((x.1.actor.events ++ script).length +
      ((x.1.actor.events ++ script).map fun event => event.raw.pcm.length).sum +
      max 2 (x.2.1.pending.length + x.2.2.held.length)) +
    2 * x.2.2.rank + (x.1.sent.length - x.1.written)

structure Ready (script : List Event) (c : Conn) (p : PacedDownlink) (f : ForwardAt) : Prop where
  room : c.room = true
  pace : ∀ at_, p.nextFrameAt = some at_ → at_ ≤ c.now
  timer : ∀ deadline, f = .selecting (some deadline) → deadline ≤ c.now
  events : c.actor.events = [] → script = []

def Works (script : List Event) (c : Conn) (p : PacedDownlink) (f : ForwardAt) : Prop :=
  ∃ l x, l ≠ .send .encodeFailed ∧ forwardStep c p f l = some x ∧
    work script x < work script (c, p, f)

/-- The buffer with what is on its way to it. -/
def Forwarded.load (x : Forwarded) : Nat := max 2 (x.2.1.pending.length + x.2.2.held.length)

theorem work_lt {script : List Event} {x y : Forwarded}
    (he : x.1.actor.events = y.1.actor.events) (hs : x.1.sent = y.1.sent)
    (hw : x.1.written = y.1.written) (hb : Forwarded.load x ≤ Forwarded.load y)
    (hr : x.2.2.rank < y.2.2.rank) : work script x < work script y := by
  unfold Forwarded.load at hb
  simp only [work, he, hs, hw]
  omega

theorem top_works (script : List Event) : Works script c p .top := by
  refine ⟨.next, _, nofun, rfl, work_lt rfl rfl rfl ?_ ?_⟩
  · have hw : (closeAligned (dropStale c.turn p)).pending.length ≤ max 2 p.pending.length := by
      unfold closeAligned
      split
      · exact Nat.le_max_left _ _
      · unfold dropStale
        split
        · exact Nat.zero_le _
        · exact Nat.le_max_right _ _
    have hheld : ∀ b : Prop, [Decidable b] → (if b then ForwardAt.finish else .pace).held = [] := by
      intro b _
      split <;> rfl
    simp only [Forwarded.load, hheld]
    exact Nat.max_le.mpr ⟨Nat.le_max_left _ _, hw⟩
  · dsimp only
    split <;> decide

theorem pace_works {script : List Event} (hr : Ready script c p .pace) : Works script c p .pace := by
  cases hf : p.frameReady with
  | false =>
    exact ⟨.next, (c, p, .selecting none), nofun, by simp [forwardStep, hf],
      work_lt rfl rfl rfl (Nat.le_refl _) (by simp [ForwardAt.rank])⟩
  | true =>
    refine ⟨.next, (c, p, .frame), nofun, ?_, work_lt rfl rfl rfl (Nat.le_refl _) (by simp [ForwardAt.rank])⟩
    cases ht : p.nextFrameAt with
    | none => simp [forwardStep, hf, ht]
    | some at_ => simp [forwardStep, hf, ht, hr.pace at_ ht]

theorem finish_works {script : List Event} (hi : Idling c₀ r deltas doneAt c.turn p h stage)
    (hf : Finishing p h stage) (ha : c₀.turn.active = true) : Works script c p .finish :=
  ⟨.next, _, nofun, congrArg some (finish_sends hi hf ha),
    work_lt rfl rfl rfl (Nat.le_refl _) (by simp [ForwardAt.rank])⟩

theorem frame_works {script : List Event} (hi : Unfinished c₀ r deltas doneAt c.turn p h stage)
    (hr : p.frameReady = true) (ha : c₀.turn.active = true) : Works script c p .frame :=
  ⟨.next, _, nofun, congrArg some (frame_sends hi hr ha),
    work_lt rfl rfl rfl (Nat.le_refl _) (by simp [ForwardAt.rank])⟩

theorem select_works {script : List Event}
    (hi : Unfinished c₀ r deltas doneAt c.turn p h stage)
    (hl : c.actor.events ++ script = stage.left c₀.turn.epoch r deltas)
    (hx : p.exhausted = false) (hf : p.frameReady = false)
    (hr : Ready script c p (.selecting none)) : Works script c p (.selecting none) := by
  simp only [PacedDownlink.exhausted, PacedDownlink.frameReady, decide_eq_false_iff_not, not_or,
    not_and, Nat.not_le] at hx hf
  have hdone : p.providerDone = false := by
    cases hd : p.providerDone with
    | false => rfl
    | true => exact absurd (hx hd) (hf.2 hd)
  have hreads : p.reads = true := by
    have hle : outputFrameBytes ≤ downlinkReadResumeBytes := by decide
    simp only [PacedDownlink.reads, decide_eq_true_eq]
    exact .inr (by omega)
  have hne : c.actor.events ≠ [] := by
    intro h0
    rw [h0, hr.events h0] at hl
    cases stage with
    | waiting => cases hl
    | speaking => simp [Stage.left] at hl
    | finished =>
      have hp := (hi.paced (by simp)).providerDone
      rw [hdone] at hp
      cases hp
  cases hevents : c.actor.events with
  | nil => exact absurd hevents hne
  | cons event events =>
    refine ⟨.event, ({ c with actor := { c.actor with events } }, p, .received event), by simp,
      by simp [forwardStep, hreads, hevents], ?_⟩
    simp only [work, hevents, ForwardAt.held, ForwardAt.rank, List.cons_append, List.length_cons,
      List.map_cons, List.sum_cons, List.length_nil]
    omega

theorem received_works {script : List Event} {event : Event}
    (hi : Idling c₀ r deltas doneAt c.turn p h stage) (hr : p.reads = true)
    (hl : event :: left = stage.left c₀.turn.epoch r deltas) (hv : ∀ d ∈ deltas, d.valid = true)
    (hf : Fresh c₀) : Works script c p (.received event) := by
  obtain ⟨hepoch, hconn, stage', hnext⟩ := received_reframes hi hr hl hv hf.epoch
  refine ⟨.next, forwardEvent c p c.turn event, nofun, ?_, ?_⟩
  · rw [forwardStep, if_neg (by simp [hepoch, hi.active, hf.active])]
  have hbr : Forwarded.load (forwardEvent c p c.turn event) ≤
      Forwarded.load (c, p, .received event) ∧
      (forwardEvent c p c.turn event).2.2.rank < 16 := by
    revert hnext
    unfold forwardEvent
    repeat' split
    all_goals
      intro hnext
      first
      | exact hnext.elim
      | exact ⟨by simp [Forwarded.load, ForwardAt.held, PacedDownlink.begin, PacedDownlink.reset] <;> omega,
          by simp [ForwardAt.rank]⟩
  exact work_lt (by rw [hconn]) (by rw [hconn]) (by rw [hconn]) hbr.1 hbr.2

theorem control_works {script : List Event} {turn : ActiveTurn} {body : Body} {pcm : List UInt8} :
    Works script c p (.control turn body pcm) := by
  refine ⟨.next, _, nofun, rfl, ?_⟩
  rw [sendControlIfActive]
  split
  · exact work_lt rfl rfl rfl (Nat.le_refl _) (by simp [ForwardAt.rank])
  · exact work_lt rfl rfl rfl (by simp [Forwarded.load, ForwardAt.held]) (by simp [ForwardAt.rank])

theorem audio_works {script : List Event} {turn : ActiveTurn} {event : Event} :
    Works script c p (.audio turn event) := by
  refine ⟨.next, _, nofun, rfl, ?_⟩
  rw [forwardAudio]
  split
  · exact work_lt rfl rfl rfl (by simp [Forwarded.load, ForwardAt.held]; omega)
      (by simp [ForwardAt.rank])
  · dsimp only
    split
    · exact work_lt rfl rfl rfl (by simp [Forwarded.load, ForwardAt.held])
        (by simp [ForwardAt.rank])
    · exact work_lt rfl rfl rfl (Nat.le_refl _) (by simp [ForwardAt.rank])

theorem says_encodable (hs : Says c₀ r h m h') (hf : Fresh c₀) : encodable m = true := by
  cases m with
  | control => rfl
  | pcm header payload =>
    obtain ⟨hframe, -⟩ := hear_pcm hs
    obtain ⟨hv, hk, hfmt, hch, hrate⟩ := hframe.kind
    obtain ⟨hdev, hsess, hturn, hstream, hepoch⟩ := hframe.ids
    obtain ⟨hids, hidt, hidd⟩ := hf.ids
    have hne := hframe.nonempty
    have hmax : ¬ MaxPCMPayloadBytes < payload.length :=
      Nat.not_lt.mpr (Nat.le_trans hframe.fits (by decide))
    have hal : payload.length % 2 = 0 := hframe.aligned
    have hflags : ¬ 8 ≤ header.flags := by
      rw [hframe.flags]
      split <;> split <;> decide
    simp only [encodable, PCMHeader.validate, firstError]
    simp [hv, hk, hfmt, hch, hrate, hdev, hsess, hturn, hstream, hepoch, hids, hidt, hidd,
      hf.epoch, hf.deviceUUID, hframe.payloadLen, hne, hmax, hal, hflags, outputSampleRateHz]

/-- A queued message has still to be written, which is less work than to queue it. -/
theorem work_put {script : List Event} {x : PacedDownlink × ForwardAt} {f : ForwardAt}
    (hw : 40 * Forwarded.load (c, x) + 2 * x.2.rank + 1 < 40 * Forwarded.load (c, p, f) + 2 * f.rank) :
    work script (c.put m, x) < work script (c, p, f) := by
  have hsent : (c.put m).sent.length - (c.put m).written ≤ c.sent.length - c.written + 1 := by
    simp only [Conn.put, List.length_append, List.length_singleton]
    omega
  have hevents : (c.put m).actor.events = c.actor.events := rfl
  simp only [Forwarded.load] at hw
  simp only [work, hevents]
  omega

theorem put_works {script : List Event} {job : Job}
    (hp : (ForwardAt.sending .second m job).Reframes c₀ r deltas doneAt c.turn p h stage left) :
    work script (c.put m, afterSend c p job) < work script (c, p, .sending .second m job) := by
  apply work_put
  cases job with
  | control turn pcm =>
    simp only [afterSend, Forwarded.load, ForwardAt.held, ForwardAt.rank, List.length_append,
      List.length_nil]
    omega
  | frame turn payload final =>
    obtain ⟨h', hs, -, -, rfl, rfl, hready, -⟩ := hp
    cases hf : p.final with
    | true =>
      simp only [afterSend, Forwarded.load, ForwardAt.held, ForwardAt.rank, List.length_drop, if_true,
        List.length_nil]
      omega
    | false =>
      -- the buffer holds more than a frame
      have hfull : outputFrameBytes ≤ p.pending.length := by
        simp only [PacedDownlink.frameReady, PacedDownlink.final, decide_eq_true_eq,
          decide_eq_false_iff_not, not_and, Nat.not_le] at hready hf
        rcases hready with hready | ⟨hd, -⟩
        · exact hready
        · exact Nat.le_of_lt (hf hd)
      have hlen := payload_length p
      have hout : outputFrameBytes = 960 := by decide
      simp only [afterSend, Forwarded.load, ForwardAt.held, ForwardAt.rank, List.length_drop,
        List.length_nil, Bool.false_eq_true, if_false]
      omega
  | done turn =>
    simp only [afterSend, Forwarded.load, ForwardAt.held, ForwardAt.rank, List.length_nil]
    omega
  | error => exact hp.elim

theorem sending_works {script : List Event} {s : SendAt} {job : Job}
    (hp : (ForwardAt.sending s m job).Reframes c₀ r deltas doneAt c.turn p h stage left)
    (hf : Fresh c₀) (ho : Opened c₀ c) (hr : c.room = true) :
    Works script c p (.sending s m job) := by
  obtain ⟨hact, hctx, h', hs⟩ := sending_turn hp
  cases s with
  | second => exact ⟨.send .put, _, by simp, by simp [forwardStep, enqueue, hr], put_works hp⟩
  | first =>
    have hdone : c.done job.ctx = false := by
      rw [hctx]
      exact ho.running (hact.trans hf.active)
    refine ⟨.send .offer, (c, p, .sending .second m job), by simp,
      by simp [forwardStep, enqueue, hdone, says_encodable hs hf], ?_⟩
    refine work_lt rfl rfl rfl ?_ ?_
    · cases job <;> exact Nat.le_refl _
    · cases job with
      | error => exact hp.elim
      | _ => simp [ForwardAt.rank]

theorem forward_works {script : List Event}
    (hp : f.Reframes c₀ r deltas doneAt c.turn p h stage (c.actor.events ++ script))
    (hd : h.done = false) (hv : ∀ d ∈ deltas, d.valid = true) (hf : Fresh c₀) (ho : Opened c₀ c)
    (hr : Ready script c p f) : Works script c p f := by
  cases f with
  | top => exact top_works script
  | finish => exact finish_works hp.1 hp.2.1 hf.active
  | pace => exact pace_works hr
  | frame => exact frame_works hp.1 hp.2.1 hf.active
  | selecting deadline =>
    cases deadline with
    | some at_ =>
      exact ⟨.timer, (c, p, .top), nofun, by simp [forwardStep, hr.timer at_ rfl],
        work_lt rfl rfl rfl (Nat.le_refl _) (by simp [ForwardAt.rank])⟩
    | none =>
      obtain ⟨hl, hx, hready⟩ := hp
      rcases hl with ⟨hi, hleft⟩ | ⟨he, -⟩
      · exact select_works hi hleft hx hready hr
      · have := he.done
        rw [hd] at this
        cases this
  | received event => exact received_works hp.1 hp.2.1 hp.2.2 hv hf
  | control => exact control_works
  | audio => exact audio_works
  | sending s m job => exact sending_works hp hf ho hr.room
  | finished | finishedStop =>
    have := hp.1.done
    rw [hd] at this
    cases this
  | _ => exact hp.elim

-- ---------------------------------------------------------------------------
-- Completion
-- ---------------------------------------------------------------------------

def Response.work (s : Response) : Nat := Device.work s.script (s.conn, s.pacer, s.forward)

def Response.drained (s : Response) : Response :=
  { s with conn.written := max s.conn.written s.conn.sent.length }

theorem run_drained (s : Response) : ∃ ls, (response c r deltas).run s ls = some s.drained := by
  induction hn : s.conn.sent.length - s.conn.written generalizing s with
  | zero =>
    have hmax : max s.conn.written s.conn.sent.length = s.conn.written := by omega
    refine ⟨[], ?_⟩
    rw [Response.drained, hmax]
    rfl
  | succ n ih =>
    have hlt : s.conn.written < s.conn.sent.length := by omega
    obtain ⟨ls, hls⟩ := ih { s with conn.written := s.conn.written + 1 } (by dsimp only; omega)
    refine ⟨.writePump :: ls, ?_⟩
    have hstep : (response c r deltas).step s .writePump =
        some { s with conn.written := s.conn.written + 1 } := if_pos hlt
    have hmax : max (s.conn.written + 1) s.conn.sent.length =
        max s.conn.written s.conn.sent.length := by omega
    rw [Lts.Machine.run_cons, hstep]
    refine hls.trans ?_
    simp only [Response.drained, hmax]

/-- Time passes until no deadline of the forwarder is ahead. -/
def Response.waited (s : Response) : Response :=
  let deadline : Nat := match s.forward with
    | .selecting (some deadline) => deadline
    | _ => 0
  { s with conn.now := s.conn.now + (s.pacer.nextFrameAt.getD 0 + deadline) }

theorem run_emitted (s : Response) : ∃ ls s', (response c r deltas).run s ls = some s' ∧
    (s'.conn.actor.events = [] → s'.script = []) ∧
    s'.conn.actor.events ++ s'.script = s.conn.actor.events ++ s.script ∧
    s'.conn.sent = s.conn.sent ∧ s'.conn.written = s.conn.written ∧ s'.conn.now = s.conn.now ∧
    s'.pacer = s.pacer ∧ s'.forward = s.forward := by
  cases hevents : s.conn.actor.events with
  | cons event events => exact ⟨[], s, rfl, by simp [hevents], by rw [hevents], rfl, rfl, rfl, rfl, rfl⟩
  | nil =>
    cases hscript : s.script with
    | nil => exact ⟨[], s, rfl, fun _ => hscript, by simp [hevents, hscript], rfl, rfl, rfl, rfl, rfl⟩
    | cons event script =>
      refine ⟨[.emit], { s with script, conn.actor.events := [event] }, ?_, nofun, rfl, rfl, rfl, rfl,
        rfl, rfl⟩
      have hcap : 0 < Session.eventCapacity := by decide
      rw [Lts.Machine.run_cons]
      simp [response, Response.step, hscript, hevents, hcap]

/-- The writer, the clock and the actor can be brought to where they hold nothing up. -/
theorem exists_ready (s : Response) : ∃ ls s', (response c r deltas).run s ls = some s' ∧
    Ready s'.script s'.conn s'.pacer s'.forward ∧ s'.work ≤ s.work := by
  obtain ⟨pumps, hpumps⟩ := run_drained (c := c) (r := r) s
  obtain ⟨emits, s', hemits, hevents, hleft, hsent, hwritten, hnow, hpacer, hforward⟩ :=
    run_emitted (c := c) (r := r) s.drained.waited
  have htick : ∃ n, (response c r deltas).run s.drained [.tick n] = some s.drained.waited :=
    ⟨_, rfl⟩
  obtain ⟨n, htick⟩ := htick
  refine ⟨pumps ++ ([.tick n] ++ emits), s', ?_, ⟨?_, ?_, ?_, hevents⟩, ?_⟩
  · rw [Lts.Machine.run_append, hpumps, Option.bind_some, Lts.Machine.run_append, htick]
    exact hemits
  · have hcap : 0 < Transport.sendQueueCapacity := by decide
    simp only [Conn.room, hsent, hwritten, Response.waited, Response.drained, decide_eq_true_eq]
    omega
  · intro at_ hat
    have hpace : s.pacer.nextFrameAt = some at_ := hpacer ▸ hat
    rw [hnow]
    simp only [Response.waited, Response.drained, hpace, Option.getD_some]
    exact Nat.le_trans (Nat.le_add_right _ _) (Nat.le_add_left _ _)
  · intro deadline hdeadline
    have hselect : s.forward = .selecting (some deadline) := hforward ▸ hdeadline
    rw [hnow]
    simp only [Response.waited, Response.drained, hselect]
    exact Nat.le_trans (Nat.le_add_left _ _) (Nat.le_add_left _ _)
  · have hunsent : s'.conn.sent.length - s'.conn.written ≤ s.conn.sent.length - s.conn.written := by
      rw [hsent, hwritten]
      simp only [Response.waited, Response.drained]
      omega
    simp only [Response.work, Device.work, hleft, hpacer, hforward]
    simp only [Response.waited, Response.drained]
    omega

theorem exists_done (hf : Fresh c) (hv : ∀ d ∈ deltas, d.valid = true)
    (hs : (response c r deltas).Reachable s) : ∃ ls s' h stage,
      (response c r deltas).run s ls = some s' ∧ Reframed c r deltas s' h stage ∧ h.done = true := by
  induction hn : s.work using Nat.strongRecOn generalizing s with
  | _ n ih =>
    obtain ⟨ls, s₁, hrun, hready, hle⟩ := exists_ready (c := c) (r := r) s
    have hs₁ := hs.run hrun
    obtain ⟨h, stage, hi⟩ := reframed_reachable hf hv hs₁
    cases hd : h.done with
    | true => exact ⟨ls, s₁, h, stage, hrun, hi, hd⟩
    | false =>
      obtain ⟨l, x, hl, hx, hlt⟩ := forward_works hi.place hd hv hf hi.opened hready
      have hstep : (response c r deltas).step s₁ (.forward l) = some { s₁ with
          conn := x.1, pacer := x.2.1, forward := x.2.2
          doneAt := if s₁.forward.finishes? then some (wireBytes s₁.out) else s₁.doneAt } :=
        (response_step_forward hl).trans (by rw [hx]; rfl)
      obtain ⟨ks, s', h', stage', hks, hi', hd'⟩ :=
        ih _ (hn ▸ Nat.lt_of_lt_of_le hlt hle) (hs₁.step hstep) rfl
      refine ⟨ls ++ .forward l :: ks, s', h', stage', ?_, hi', hd'⟩
      rw [Lts.Machine.run_append, hrun, Option.bind_some, Lts.Machine.run_cons, hstep]
      exact hks

-- ---------------------------------------------------------------------------
-- The main result
-- ---------------------------------------------------------------------------

variable {responseID : GoString}

/-- In every run the frames are numbered from 0, full but the last, marked and announced,
and the forwarder does not give up; what is on the wire at response.done is the
provider's audio; and every run can be continued to response.done. -/
theorem response_reframed (hf : Fresh c) (hv : ∀ d ∈ deltas, d.valid = true)
    (hlen : (audioOf deltas).length < outputFrameBytes * 2 ^ 32)
    (hs : (response c responseID deltas).Reachable s) :
    WellFramed responseID s.out ∧ (∀ err, s.forward ≠ .exited err) ∧
      (finishedBy responseID s.out = true →
        Complete c.turn responseID deltas s.doneAt s.out) ∧
      ∃ ls s', (response c responseID deltas).run s ls = some s' ∧
        finishedBy responseID s'.out = true := by
  obtain ⟨h, stage, hi⟩ := reframed_reachable hf hv hs
  obtain ⟨ls, s', h', stage', hrun, hi', hd'⟩ := exists_done hf hv hs
  refine ⟨hi.wellFramed hlen, ?_, fun hd => ?_, ls, s', hrun, (finishedBy_iff hi'.heard).mpr hd'⟩
  · intro err herr
    have hp := hi.place
    rw [herr] at hp
    exact hp
  · exact hi.complete hlen ((finishedBy_iff hi.heard).mp hd)

/-- The connection of the device after it has spoken turn 1. -/
def spoken : Conn := ((machine.run session (speaks 1)).getD session).conn

theorem fresh_spoken : Fresh spoken := by
  constructor <;> decide +kernel

def sampleDeltas : List Delta :=
  [.audio (List.replicate 1000 7), .text "hi", .audio (List.replicate 920 9)]

theorem sampleDeltas_valid : ∀ d ∈ sampleDeltas, d.valid = true := by decide +kernel

theorem sampleDeltas_short : (audioOf sampleDeltas).length < outputFrameBytes * 2 ^ 32 := by
  decide +kernel

theorem response_reframed_sample : ∃ s, (response spoken "r" sampleDeltas).Reachable s ∧
    finishedBy "r" s.out = true ∧ WellFramed "r" s.out ∧
    Complete spoken.turn "r" sampleDeltas s.doneAt s.out := by
  have hinit : (response spoken "r" sampleDeltas).Reachable _ := .init rfl
  obtain ⟨-, -, -, ls, s, hrun, hd⟩ :=
    response_reframed fresh_spoken sampleDeltas_valid sampleDeltas_short hinit
  have hs := hinit.run hrun
  obtain ⟨hw, -, hc, -⟩ :=
    response_reframed fresh_spoken sampleDeltas_valid sampleDeltas_short hs
  exact ⟨s, hs, hd, hw, hc hd⟩

-- ---------------------------------------------------------------------------
-- More than 2³² frames
-- ---------------------------------------------------------------------------

/-- A response of `n` frames. -/
def longAudio (n : Nat) : List Delta :=
  List.replicate n (.audio (List.replicate outputFrameBytes 0))

theorem longAudio_valid (n : Nat) : ∀ d ∈ longAudio n, d.valid = true := by
  intro d hd
  rw [List.eq_of_mem_replicate hd]
  decide +kernel

theorem longAudio_length (n : Nat) : (audioOf (longAudio n)).length = outputFrameBytes * n := by
  induction n with
  | zero => rfl
  | succ n ih =>
    have hsplit : audioOf (longAudio (n + 1)) =
        List.replicate outputFrameBytes 0 ++ audioOf (longAudio n) := rfl
    rw [hsplit, List.length_append, ih, List.length_replicate, Nat.mul_succ, Nat.add_comm]

theorem Accounts.covers {audio wire : List UInt8} {ended : Bool}
    (ha : Accounts audio wire [] ended doneAt true) : audio.length ≤ wire.length := by
  cases ha with
  | closing h =>
    apply Nat.le_of_eq
    rw [← h, List.append_nil]
  | silent h =>
    rw [List.append_nil] at h
    rw [h, List.length_append]
    exact Nat.le_add_right _ _

theorem flatten_length_le {α : Type} {xss : List (List α)} {n : Nat}
    (h : ∀ xs ∈ xss, xs.length ≤ n) : xss.flatten.length ≤ n * xss.length := by
  induction xss with
  | nil => exact Nat.zero_le _
  | cons xs xss ih =>
    have h1 := h xs (List.mem_cons_self ..)
    have h2 := ih fun ys hys => h ys (List.mem_cons_of_mem _ hys)
    rw [List.flatten_cons, List.length_append, List.length_cons, Nat.mul_succ]
    omega

/-- The header's sequence number is a `uint32`. -/
theorem long_response_wraps {n : Nat} (hn : 2 ^ 32 < n) (hf : Fresh c) : ∃ s,
    (response c responseID (longAudio n)).Reachable s ∧ finishedBy responseID s.out = true ∧
      ¬ WellFramed responseID s.out := by
  have hinit : (response c responseID (longAudio n)).Reachable _ := .init rfl
  obtain ⟨ls, s, h, stage, hrun, hi, hd⟩ := exists_done hf (longAudio_valid n) hinit
  refine ⟨s, hinit.run hrun, (finishedBy_iff hi.heard).mpr hd, fun hw => ?_⟩
  have hframes := hears_frames hi.heard
  have hcover := (hi.place.ending hd).accounts.covers
  have hwire : h.payloads.flatten.length ≤ outputFrameBytes * h.payloads.length := by
    apply flatten_length_le
    intro payload hmem
    rw [← hframes.payloads] at hmem
    obtain ⟨frame, hframe, rfl⟩ := List.mem_map.mp hmem
    exact (hframes.payload frame.1 frame.2 hframe).2.1
  rw [longAudio_length] at hcover
  have hcount : n ≤ h.payloads.length :=
    Nat.le_of_mul_le_mul_left (Nat.le_trans hcover hwire) (by decide)
  rw [← hframes.payloads, List.length_map] at hcount
  obtain ⟨frame, hget⟩ : ∃ frame, (framesOf s.out)[2 ^ 32]? = some frame :=
    ⟨_, List.getElem?_eq_getElem (Nat.lt_of_lt_of_le hn hcount)⟩
  have hseq := (hw.sequence (2 ^ 32) frame.1 frame.2 hget).1
  rw [(hframes.sequence (2 ^ 32) frame.1 frame.2 hget).1] at hseq
  cases hseq

theorem response_sequence_wraps : ∃ s,
    (response spoken "r" (longAudio (2 ^ 32 + 1))).Reachable s ∧ finishedBy "r" s.out = true ∧
      ¬ WellFramed "r" s.out :=
  long_response_wraps (Nat.lt_succ_self _) fresh_spoken

end BoomPI.Device
