import BoomPI.Server.Device.Response
import BoomPI.Server.Device.Pacing

/-!
# Downlink reframing

The deltas of a response are cut into frames of 20 ms while the pacing timer and
the events race. What is on the wire and what is pending always add up to the
audio taken so far; the last frame is decided when Done and an empty buffer meet.
-/

namespace BoomPI.Device

open Backend (Error EventType)
open Protocol
open Transport (SendAt SendLabel enqueue)
open BoomPI.Session (Event)

-- ---------------------------------------------------------------------------
-- What is heard
-- ---------------------------------------------------------------------------

variable {turn : ActiveTurn} {r : GoString} {h h' : Heard} {out : List Outbound} {m : Outbound}

theorem hears_append (h0 : hears turn r out = some h) (hm : h.hear turn r m = some h') :
    hears turn r (out ++ [m]) = some h' := by
  rw [hears, List.foldlM_append]
  rw [hears] at h0
  simp [h0, hm]

theorem full_of_frame {header : PCMHeader} {payload : List UInt8}
    (hf : h.frame turn header payload = some h')
    (hfull : h.ended = false → h.payloads.flatten.length = outputFrameBytes * h.payloads.length) :
    h'.ended = false → h'.payloads.flatten.length = outputFrameBytes * h'.payloads.length := by
  rw [Heard.frame, Option.ite_none_right_eq_some, Option.some.injEq] at hf
  obtain ⟨⟨-, hended, -, -, -, -, -, -, -, -, -, -, -, -, -, -, -, -, -, hlast⟩, rfl⟩ := hf
  intro he
  have hlen : payload.length = outputFrameBytes := hlast (by simpa using he)
  simp [hfull (by simpa using hended), hlen, Nat.mul_succ]

-- ---------------------------------------------------------------------------
-- How far the response has come
-- ---------------------------------------------------------------------------

/-- The events the forwarder has taken: none, Started with some deltas, all. -/
inductive Stage
  | waiting
  | speaking (count : Nat)
  | finished
  deriving DecidableEq, Repr

def Stage.taken (deltas : List Delta) : Stage → List Delta
  | .waiting => []
  | .speaking count => deltas.take count
  | .finished => deltas

def Stage.left (epoch : Nat) (r : GoString) (deltas : List Delta) : Stage → List Event
  | .waiting => responseEvents epoch r deltas
  | .speaking count => (deltas.drop count).map (Delta.event epoch r) ++ [doneEvent epoch r]
  | .finished => []

def silence : List UInt8 := List.replicate pcmBytesPerSample 0

theorem silence_length : silence.length = pcmBytesPerSample := List.length_replicate

/-- What is on the wire and what is pending add up to the audio, and after Done to the
audio with one silent sample where all of it was on the wire by then. -/
inductive Accounts (audio : List UInt8) (wire pending : List UInt8) (ended : Bool) :
    Option (List UInt8) → Bool → Prop
  | open_ {doneAt} : wire ++ pending = audio → ended = false → Accounts audio wire pending ended doneAt false
  | closing {done} : wire ++ pending = audio → done.length ≤ wire.length →
      (ended = true → done ≠ audio ∧ pending = []) → (pending = [] → ended = false → done = wire) →
      Accounts audio wire pending ended (some done) true
  | silent : wire ++ pending = audio ++ silence → audio ≠ [] → (ended = true → pending = []) →
      (pending = [] → ended = true) → Accounts audio wire pending ended (some audio) true

structure Paced (c₀ : Conn) (r : GoString) (deltas : List Delta) (doneAt : Option (List UInt8))
    (p : PacedDownlink) (h : Heard) (stage : Stage) : Prop where
  started : h.started = true
  owner : p.belongsTo c₀.turn = true
  responseID : p.responseID = r
  wireFrames : p.wireFrames = uint32 h.payloads.length
  providerDone : p.providerDone = decide (stage = .finished)
  texts : h.texts = textsOf (stage.taken deltas)
  announced : h.announced = (stage.taken deltas).any Delta.isAudio
  aligned : p.pending.length % pcmBytesPerSample = 0
  accounts : Accounts (audioOf (stage.taken deltas)) h.payloads.flatten p.pending h.ended doneAt
    p.providerDone

structure Idling (c₀ : Conn) (r : GoString) (deltas : List Delta) (doneAt : Option (List UInt8))
    (t : ActiveTurn) (p : PacedDownlink) (h : Heard) (stage : Stage) : Prop where
  turn : t = { c₀.turn with
    outputSequence := uint32 h.payloads.length, outputStarted := h.announced }
  undone : h.done = false
  pacer : if stage = .waiting then p = {} ∧ h = {} else Paced c₀ r deltas doneAt p h stage

structure Unfinished (c₀ : Conn) (r : GoString) (deltas : List Delta) (doneAt : Option (List UInt8))
    (t : ActiveTurn) (p : PacedDownlink) (h : Heard) (stage : Stage) : Prop
    extends Idling c₀ r deltas doneAt t p h stage where
  running : h.ended = false

structure Finishing (p : PacedDownlink) (h : Heard) (stage : Stage) : Prop where
  stage : stage = .finished
  pending : p.pending = []
  last : h.ended = true ∨ p.wireFrames = 0

def Says (c₀ : Conn) (r : GoString) (h : Heard) (m : Outbound) (h' : Heard) : Prop :=
  h.hear c₀.turn r m = some h'

/-- The turn a copy stands for. -/
def Copies (c₀ : Conn) (turn : ActiveTurn) : Prop :=
  turn.identity = c₀.turn.identity ∧ turn.downlinkCtx = c₀.turn.downlinkCtx

structure Ending (c₀ : Conn) (r : GoString) (deltas : List Delta) (doneAt : Option (List UInt8))
    (h : Heard) : Prop where
  done : h.done = true
  texts : h.texts = textsOf deltas
  announced : h.announced = deltas.any Delta.isAudio
  last : h.ended = true ∨ uint32 h.payloads.length = 0
  accounts : Accounts (audioOf deltas) h.payloads.flatten [] h.ended doneAt true

/-- At the head of the loop: on its way, or past response.done. -/
def Looping (c₀ : Conn) (r : GoString) (deltas : List Delta) (doneAt : Option (List UInt8))
    (t : ActiveTurn) (p : PacedDownlink) (h : Heard) (stage : Stage) (left : List Event) : Prop :=
  (Unfinished c₀ r deltas doneAt t p h stage ∧ left = stage.left c₀.turn.epoch r deltas) ∨
    (Ending c₀ r deltas doneAt h ∧ p = {} ∧ t.active = false ∧ left = [])

def PacedDownlink.exhausted (p : PacedDownlink) : Bool := p.providerDone ∧ p.pending.length = 0

def ForwardAt.Reframes (c₀ : Conn) (r : GoString) (deltas : List Delta)
    (doneAt : Option (List UInt8)) (t : ActiveTurn) (p : PacedDownlink) (h : Heard) (stage : Stage)
    (left : List Event) : ForwardAt → Prop
  | .top | .selecting (some _) => Looping c₀ r deltas doneAt t p h stage left
  | .pace => Looping c₀ r deltas doneAt t p h stage left ∧ p.exhausted = false
  | .selecting none =>
    Looping c₀ r deltas doneAt t p h stage left ∧ p.exhausted = false ∧ p.frameReady = false
  | .finish =>
    Idling c₀ r deltas doneAt t p h stage ∧ Finishing p h stage ∧ left = []
  | .frame =>
    Unfinished c₀ r deltas doneAt t p h stage ∧ p.frameReady = true ∧
      left = stage.left c₀.turn.epoch r deltas
  | .received event =>
    Idling c₀ r deltas doneAt t p h stage ∧ p.reads = true ∧
      event :: left = stage.left c₀.turn.epoch r deltas
  | .control turn body pcm => ∃ h',
    h.say r body = some h' ∧ h'.done = false ∧ Copies c₀ turn ∧
      Unfinished c₀ r deltas doneAt t { p with pending := p.pending ++ pcm } h' stage ∧
      left = stage.left c₀.turn.epoch r deltas
  | .audio turn event =>
    Copies c₀ turn ∧ event.raw.responseID = r ∧ event.raw.sampleRateHz = outputSampleRateHz ∧
      t = { c₀.turn with
        outputSequence := uint32 h.payloads.length, outputStarted := h.announced } ∧
      h.done = false ∧ h.ended = false ∧
      Paced c₀ r deltas doneAt { p with pending := p.pending ++ event.raw.pcm }
        { h with announced := true } stage ∧
      left = stage.left c₀.turn.epoch r deltas
  | .sending _ m (.control turn pcm) => ∃ h',
    Says c₀ r h m h' ∧ Copies c₀ turn ∧
      Unfinished c₀ r deltas doneAt t { p with pending := p.pending ++ pcm } h' stage ∧
      left = stage.left c₀.turn.epoch r deltas
  | .sending _ m (.frame turn payload final) => ∃ h',
    Says c₀ r h m h' ∧ Copies c₀ turn ∧ stage ≠ .waiting ∧
      payload = p.payload ∧ final = p.final ∧ p.frameReady = true ∧
      Idling c₀ r deltas doneAt t
        { p with
          pending := p.pending.drop payload.length
          wireFrames := uint32 (p.wireFrames + 1) } h' stage ∧
      p.final = h'.ended ∧
      (final = true → Finishing { p with pending := p.pending.drop payload.length } h' stage ∧
        left = []) ∧
      left = stage.left c₀.turn.epoch r deltas
  | .sending _ m (.done turn) => ∃ h',
    Says c₀ r h m h' ∧ Copies c₀ turn ∧ Ending c₀ r deltas doneAt h' ∧ left = [] ∧
      Idling c₀ r deltas doneAt t p h stage
  | .finished turn =>
    Ending c₀ r deltas doneAt h ∧ left = [] ∧ Copies c₀ turn ∧ t.identity = c₀.turn.identity ∧
      t.active = true
  | .finishedStop _ => Ending c₀ r deltas doneAt h ∧ left = [] ∧ t.active = false
  | _ => False

-- ---------------------------------------------------------------------------
-- One step
-- ---------------------------------------------------------------------------

variable {c₀ c : Conn} {p : PacedDownlink} {deltas : List Delta} {doneAt : Option (List UInt8)}
  {t : ActiveTurn} {stage : Stage} {left script : List Event} {f : ForwardAt}

/-- Nothing is closed, and the turn's context runs while the turn does. -/
structure Opened (c₀ c : Conn) : Prop where
  done : c.done none = false
  eventsClosed : c.actor.eventsClosed = false
  ctx : c.turn.active = true → c.cancelled = c₀.cancelled
  fresh : c₀.done c₀.turn.downlinkCtx = false

/-- A step of the forwarder says nothing or one message, and reaches its assertion. -/
def Advances (c₀ : Conn) (r : GoString) (deltas : List Delta) (doneAt : Option (List UInt8))
    (script : List Event) (c : Conn) (h : Heard) (x : Forwarded) : Prop :=
  ∃ h' stage', ((x.1.sent = c.sent ∧ h' = h) ∨ ∃ m, x.1.sent = c.sent ++ [m] ∧ Says c₀ r h m h') ∧
    Opened c₀ x.1 ∧
    x.2.2.Reframes c₀ r deltas doneAt x.1.turn x.2.1 h' stage' (x.1.actor.events ++ script)

theorem Advances.quiet {x : Forwarded} (stage' : Stage) (hs : x.1.sent = c.sent) (ho : Opened c₀ x.1)
    (hf : x.2.2.Reframes c₀ r deltas doneAt x.1.turn x.2.1 h stage' (x.1.actor.events ++ script)) :
    Advances c₀ r deltas doneAt script c h x :=
  ⟨h, stage', .inl ⟨hs, rfl⟩, ho, hf⟩

theorem Idling.active (hi : Idling c₀ r deltas doneAt t p h stage) : t.active = c₀.turn.active := by
  rw [hi.turn]

theorem Idling.copies (hi : Idling c₀ r deltas doneAt t p h stage) : Copies c₀ t := by
  rw [hi.turn]
  exact ⟨rfl, rfl⟩

theorem Idling.paced (hi : Idling c₀ r deltas doneAt t p h stage) (hs : stage ≠ .waiting) :
    Paced c₀ r deltas doneAt p h stage := by
  have hp := hi.pacer
  rwa [if_neg hs] at hp

theorem Idling.waiting (hi : Idling c₀ r deltas doneAt t p h .waiting) : p = {} ∧ h = {} := hi.pacer

theorem Idling.stage_ne (hi : Idling c₀ r deltas doneAt t p h stage)
    (hp : p.pending ≠ [] ∨ p.providerDone = true) : stage ≠ .waiting := by
  rintro rfl
  obtain ⟨rfl, -⟩ := hi.waiting
  simp at hp

theorem Paced.belongs (hp : Paced c₀ r deltas doneAt p h stage) (hc : Copies c₀ t)  :
    p.belongsTo t = true := by
  obtain ⟨h0, he, ht⟩ := belongsTo_iff.mp hp.owner
  refine belongsTo_iff.mpr ⟨h0, ?_, ?_⟩
  · rw [he]
    exact (identity_epoch hc.1).symm
  · rw [ht]
    exact (congrArg Transport.TurnIdentity.turnID hc.1).symm

theorem hear_reply (hc : Copies c₀ t) (hd : t.deviceID = c₀.turn.deviceID)
    (hs : t.downlinkStream = c₀.turn.downlinkStream) (body : Body) :
    h.hear c₀.turn r (c.reply t body) = h.say r body := by
  have h1 := congrArg Transport.TurnIdentity.sessionID hc.1
  have h2 := congrArg Transport.TurnIdentity.turnID hc.1
  have h3 := congrArg Transport.TurnIdentity.epoch hc.1
  simp only [ActiveTurn.identity] at h1 h2 h3
  simp [Heard.hear, Conn.reply, hd, hs, h1, h2, h3]

-- ---------------------------------------------------------------------------
-- The head of the loop
-- ---------------------------------------------------------------------------

theorem Paced.ended (hp : Paced c₀ r deltas doneAt p h stage) (hs : stage ≠ .finished) :
    h.ended = false := by
  have ha := hp.accounts
  rw [hp.providerDone, decide_eq_false hs] at ha
  cases ha with
  | open_ _ he => exact he

theorem Idling.running (hi : Idling c₀ r deltas doneAt t p h stage) (hs : stage ≠ .finished) :
    Unfinished c₀ r deltas doneAt t p h stage := by
  refine ⟨hi, ?_⟩
  by_cases hw : stage = .waiting
  · subst hw
    rw [hi.waiting.2]
  · exact (hi.paced hw).ended hs

theorem dropStale_idling (hi : Idling c₀ r deltas doneAt t p h stage)
    (ha : c₀.turn.active = true) : dropStale t p = p := by
  rw [dropStale, if_neg]
  rintro ⟨h0, hn⟩
  have hs : stage ≠ .waiting := by
    rintro rfl
    rw [hi.waiting.1] at h0
    exact h0 rfl
  have hb := (hi.paced hs).belongs hi.copies
  simp [hi.active, ha, hb] at hn

theorem uint32_ne_zero {n : Nat} (h : uint32 n ≠ 0) : n ≠ 0 := by
  rintro rfl
  exact h rfl

theorem closeAligned_running (hi : Unfinished c₀ r deltas doneAt t p h stage)
    (hfull : h.payloads.flatten.length = outputFrameBytes * h.payloads.length)
    (hd : p.providerDone = true) (hp : p.pending.length = 0) (hw : p.wireFrames ≠ 0) :
    Unfinished c₀ r deltas doneAt t { p with pending := silence } h stage := by
  have hs : stage ≠ .waiting := hi.stage_ne (.inr hd)
  have hpaced := hi.paced hs
  have hnil : p.pending = [] := List.length_eq_zero_iff.mp hp
  have hwire : h.payloads.flatten ≠ [] := by
    have hn : h.payloads.length ≠ 0 := uint32_ne_zero (hpaced.wireFrames ▸ hw)
    intro h0
    rw [h0, List.length_nil, eq_comm, Nat.mul_eq_zero] at hfull
    exact hfull.elim (by decide) hn
  have haccounts : Accounts (audioOf (stage.taken deltas)) h.payloads.flatten silence h.ended doneAt
      p.providerDone := by
    have ha := hpaced.accounts
    rw [hd, hnil] at ha
    rw [hd]
    cases ha with
    | closing ha _ _ hsame =>
      rw [List.append_nil] at ha
      rw [hsame rfl hi.running, ha]
      refine .silent rfl (ha ▸ hwire) ?_ ?_
      · intro he
        rw [hi.running] at he
        cases he
      · intro h0
        exact absurd h0 (by decide)
    | silent _ _ _ he => exact absurd (he rfl) (by simp [hi.running])
  refine ⟨⟨hi.turn, hi.undone, ?_⟩, hi.running⟩
  rw [if_neg hs]
  exact ⟨hpaced.started, hpaced.owner, hpaced.responseID, hpaced.wireFrames, hpaced.providerDone,
    hpaced.texts, hpaced.announced, (by rw [silence_length]; rfl), haccounts⟩

theorem Finishing.of_running (hi : Unfinished c₀ r deltas doneAt t p h stage) (hd : p.providerDone = true)
    (hp : p.pending.length = 0) (hw : p.wireFrames = 0) : Finishing p h stage := by
  have hs := hi.stage_ne (.inr hd)
  have hf := (hi.paced hs).providerDone
  rw [hd] at hf
  exact ⟨of_decide_eq_true hf.symm, List.length_eq_zero_iff.mp hp, .inr hw⟩

theorem top_advances (hi : Unfinished c₀ r deltas doneAt c.turn p h stage)
    (hl : c.actor.events ++ script = stage.left c₀.turn.epoch r deltas)
    (ha : c₀.turn.active = true) (ho : Opened c₀ c)
    (hfull : h.payloads.flatten.length = outputFrameBytes * h.payloads.length) :
    Advances c₀ r deltas doneAt script c h
      (c, closeAligned (dropStale c.turn p),
        if (closeAligned (dropStale c.turn p)).providerDone ∧
          (closeAligned (dropStale c.turn p)).pending.length = 0 then .finish else .pace) := by
  rw [dropStale_idling hi.toIdling ha]
  refine .quiet stage rfl ho ?_
  rw [closeAligned]
  split
  · rename_i hclose
    have hi' := closeAligned_running hi hfull hclose.1 hclose.2.1 hclose.2.2
    rw [if_neg (fun hn => absurd (silence_length.symm.trans hn.2) (by decide))]
    exact ⟨.inl ⟨hi', hl⟩, by simp [PacedDownlink.exhausted, pcmBytesPerSample]⟩
  · rename_i hopen
    dsimp only
    split
    · rename_i hfin
      have hw : p.wireFrames = 0 := by
        by_contra hw
        exact hopen ⟨hfin.1, hfin.2, hw⟩
      have hf := Finishing.of_running hi hfin.1 hfin.2 hw
      exact ⟨hi.toIdling, hf, by rw [hl, hf.stage]; rfl⟩
    · rename_i hfin
      exact ⟨.inl ⟨hi, hl⟩, decide_eq_false hfin⟩

-- ---------------------------------------------------------------------------
-- A frame
-- ---------------------------------------------------------------------------

theorem isAudio_of_audioOf (ha : audioOf deltas ≠ []) : deltas.any Delta.isAudio = true := by
  obtain ⟨d, hd, hne⟩ : ∃ d ∈ deltas, d.pcm ≠ [] := by
    by_contra hn
    simp only [not_exists, not_and, Decidable.not_not] at hn
    exact ha (List.flatMap_eq_nil_iff.mpr hn)
  refine List.any_eq_true.mpr ⟨d, hd, ?_⟩
  cases d with
  | audio => rfl
  | text => exact absurd rfl hne

theorem Paced.announced_of_pending (hp : Paced c₀ r deltas doneAt p h stage) (hne : p.pending ≠ []) :
    h.announced = true := by
  rw [hp.announced]
  apply isAudio_of_audioOf
  have ha := hp.accounts
  generalize p.providerDone = fin at ha
  cases ha with
  | open_ ha _ | closing ha => exact ha ▸ fun h0 => hne (List.append_eq_nil_iff.mp h0).2
  | silent _ ha => exact ha

theorem payload_append (p : PacedDownlink) :
    p.payload ++ p.pending.drop p.payload.length = p.pending :=
  List.prefix_iff_eq_append.mp (List.take_prefix _ _)

theorem payload_length (p : PacedDownlink) :
    p.payload.length = min outputFrameBytes p.pending.length := List.length_take

theorem drop_payload_eq_nil (p : PacedDownlink) :
    p.pending.drop p.payload.length = [] ↔ p.pending.length ≤ outputFrameBytes := by
  rw [List.drop_eq_nil_iff, payload_length]
  omega

theorem Accounts.frame {audio wire : List UInt8}
    (ha : Accounts audio wire p.pending false doneAt p.providerDone) (hne : p.pending ≠ []) :
    Accounts audio (wire ++ p.payload) (p.pending.drop p.payload.length) p.final doneAt
      p.providerDone := by
  have hsum : wire ++ p.payload ++ p.pending.drop p.payload.length = wire ++ p.pending := by
    rw [List.append_assoc, payload_append]
  have hfin : p.providerDone = true → (p.final = true ↔ p.pending.drop p.payload.length = []) := by
    intro hd
    rw [drop_payload_eq_nil, PacedDownlink.final, hd]
    simp
  generalize hfd : p.providerDone = fin at ha hfin
  cases ha with
  | open_ ha => exact .open_ (hsum.trans ha) (by simp [PacedDownlink.final, hfd])
  | @closing done ha hlen _ _ =>
    refine .closing (hsum.trans ha) ?_ ?_ ?_
    · rw [List.length_append]
      exact Nat.le_trans hlen (Nat.le_add_right _ _)
    · intro he
      refine ⟨?_, (hfin rfl).mp he⟩
      rintro rfl
      have hpos : 0 < p.pending.length := List.length_pos_iff.mpr hne
      have := congrArg List.length ha
      rw [List.length_append] at this
      omega
    · intro h0 he
      rw [(hfin rfl).mpr h0] at he
      cases he
  | silent ha hnil _ _ =>
    exact .silent (hsum.trans ha) hnil (hfin rfl).mp (hfin rfl).mpr

theorem frame_says (hi : Unfinished c₀ r deltas doneAt c.turn p h stage) (hr : p.frameReady = true) :
    Says c₀ r h (downlinkPCM c c.turn p.payload p.final)
      { h with payloads := h.payloads ++ [p.payload], ended := p.final } := by
  have hne : p.pending ≠ [] := fun h0 => frameReady_pending hr (by rw [h0]; rfl)
  have hpaced := hi.paced (hi.stage_ne (.inl hne))
  have hpos : 0 < p.pending.length := List.length_pos_iff.mpr hne
  have hlen := payload_length p
  have hmax : p.payload.length ≤ outputFrameBytes := hlen ▸ Nat.min_le_left _ _
  have hmin : p.payload.length ≠ 0 := by
    have : 0 < outputFrameBytes := by decide
    omega
  have hlast : p.final = false → p.payload.length = outputFrameBytes := by
    intro hf
    simp only [PacedDownlink.frameReady, PacedDownlink.final, decide_eq_true_eq,
      decide_eq_false_iff_not] at hr hf
    rw [hlen]
    rcases hr with hr | ⟨hd, -⟩
    · exact Nat.min_eq_left hr
    · exact Nat.min_eq_left (Nat.le_of_lt (Nat.lt_of_not_le fun hle => hf ⟨hd, hle⟩))
  have hturn := hi.turn
  have hfin : ((if uint32 h.payloads.length = 0 then 1 else 0) +
      (if p.final then 2 else 0) : Nat).testBit 1 = p.final := by
    cases p.final <;> split <;> rfl
  rw [Says, downlinkPCM, Heard.hear, Heard.frame, hturn, if_pos]
  · simp only [PCMHeader.fin, hfin]
  · refine ⟨hpaced.announced_of_pending hne, by simp [hi.running], by simp [hi.undone], rfl, rfl, rfl,
      rfl, rfl, rfl, rfl, rfl, rfl, rfl, rfl, rfl, ?_, hmin, hmax, aligned_payload hpaced.aligned, ?_⟩
    · simp only [PCMHeader.fin, hfin]
    · simp only [PCMHeader.fin, hfin, Bool.not_eq_true]
      exact hlast

theorem uint32_succ (n : Nat) : uint32 (uint32 n + 1) = uint32 (n + 1) := Nat.mod_add_mod n _ 1

theorem aligned_drop {xs : List UInt8} {n : Nat} (hx : xs.length % pcmBytesPerSample = 0)
    (hn : n % pcmBytesPerSample = 0) : (xs.drop n).length % pcmBytesPerSample = 0 := by
  rw [List.length_drop]
  exact Nat.sub_mod_eq_zero_of_mod_eq (hx.trans hn.symm)

theorem frame_idling (hi : Unfinished c₀ r deltas doneAt t p h stage) (hr : p.frameReady = true) :
    Idling c₀ r deltas doneAt { t with outputSequence := uint32 (t.outputSequence + 1) }
      { p with
        pending := p.pending.drop p.payload.length, wireFrames := uint32 (p.wireFrames + 1) }
      { h with payloads := h.payloads ++ [p.payload], ended := p.final } stage := by
  have hne : p.pending ≠ [] := fun h0 => frameReady_pending hr (by rw [h0]; rfl)
  have hs := hi.stage_ne (.inl hne)
  have hpaced := hi.paced hs
  refine ⟨?_, hi.undone, ?_⟩
  · rw [hi.turn]
    simp [uint32_succ]
  · rw [if_neg hs]
    have ha := hpaced.accounts
    rw [hi.running] at ha
    refine ⟨hpaced.started, hpaced.owner, hpaced.responseID, ?_, hpaced.providerDone, hpaced.texts,
      hpaced.announced, aligned_drop hpaced.aligned (aligned_payload hpaced.aligned), ?_⟩
    · simp [hpaced.wireFrames, uint32_succ]
    · simpa using ha.frame hne

theorem frame_finishing (hi : Unfinished c₀ r deltas doneAt t p h stage) (hr : p.frameReady = true)
    (hf : p.final = true) :
    Finishing { p with pending := p.pending.drop p.payload.length }
      { h with payloads := h.payloads ++ [p.payload], ended := p.final } stage := by
  have hne : p.pending ≠ [] := fun h0 => frameReady_pending hr (by rw [h0]; rfl)
  have hp := (hi.paced (hi.stage_ne (.inl hne))).providerDone
  simp only [PacedDownlink.final, decide_eq_true_eq] at hf
  rw [hf.1] at hp
  exact ⟨of_decide_eq_true hp.symm, (drop_payload_eq_nil p).mpr hf.2, .inl (by simpa [PacedDownlink.final] using hf)⟩

theorem frame_sends (hi : Unfinished c₀ r deltas doneAt c.turn p h stage) (hr : p.frameReady = true)
    (ha : c₀.turn.active = true) :
    sendNextPacedFrame c p =
      (c.setTurn { c.turn with outputSequence := uint32 (c.turn.outputSequence + 1) }, p,
        .sending .first
          (downlinkPCM (c.setTurn { c.turn with outputSequence := uint32 (c.turn.outputSequence + 1) })
            c.turn p.payload p.final)
          (.frame c.turn p.payload p.final)) := by
  have hpend := frameReady_pending hr
  have hpaced := hi.paced (hi.stage_ne (.inl fun h0 => hpend (by rw [h0]; rfl)))
  have hw : writable c.turn p = true :=
    writable_iff.mpr ⟨hi.active.trans ha, hpaced.belongs hi.copies⟩
  rw [sendNextPacedFrame, if_neg (by simp [hpend, hw])]
  simp only [validateDownlinkPCM_payload hpend hpaced.aligned]

theorem frame_advances (hi : Unfinished c₀ r deltas doneAt c.turn p h stage)
    (hr : p.frameReady = true) (hl : c.actor.events ++ script = stage.left c₀.turn.epoch r deltas)
    (ha : c₀.turn.active = true) (ho : Opened c₀ c) :
    Advances c₀ r deltas doneAt script c h (sendNextPacedFrame c p) := by
  have hs : stage ≠ .waiting :=
    hi.stage_ne (.inl fun h0 => frameReady_pending hr (by rw [h0]; rfl))
  rw [frame_sends hi hr ha]
  refine .quiet stage rfl ⟨ho.done, ho.eventsClosed, ho.ctx, ho.fresh⟩ ?_
  refine ⟨_, frame_says hi hr, hi.copies, hs, rfl, rfl, hr, frame_idling hi hr, rfl, fun hf => ?_, hl⟩
  have hfin := frame_finishing hi hr hf
  refine ⟨hfin, hl.trans ?_⟩
  rw [hfin.stage]
  rfl

-- ---------------------------------------------------------------------------
-- An event
-- ---------------------------------------------------------------------------

theorem take_succ_of_drop {d : Delta} {rest : List Delta} {n : Nat}
    (h : deltas.drop n = d :: rest) :
    deltas.take (n + 1) = deltas.take n ++ [d] ∧ deltas.drop (n + 1) = rest := by
  have hget : deltas[n]? = some d := by
    rw [← List.head?_drop, h]
    rfl
  refine ⟨?_, ?_⟩
  · rw [List.take_add_one, hget]
    rfl
  · rw [← List.drop_drop, h]
    rfl

theorem Paced.matches (hp : Paced c₀ r deltas doneAt p h stage) (hc : Copies c₀ t) :
    p.matches t r = true := by
  simp [PacedDownlink.matches, hp.belongs hc, hp.responseID]

theorem Idling.epoch (hi : Idling c₀ r deltas doneAt t p h stage) : t.epoch = c₀.turn.epoch := by
  rw [hi.turn]

/-- Started: the pacer begins. -/
theorem started_reframes (hi : Idling c₀ r deltas doneAt t p h .waiting) (h0 : c₀.turn.epoch ≠ 0)
    (hl : left = Stage.left c₀.turn.epoch r deltas (.speaking 0)) :
    (ForwardAt.control t (.responseStart r) []).Reframes c₀ r deltas doneAt t (p.begin t r) h
      (.speaking 0) left := by
  obtain ⟨rfl, rfl⟩ := hi.waiting
  refine ⟨{ started := true }, by simp [Heard.say], rfl, hi.copies, ?_, hl⟩
  refine ⟨⟨hi.turn, rfl, ?_⟩, rfl⟩
  rw [if_neg nofun]
  refine ⟨rfl, ?_, rfl, rfl, rfl, rfl, rfl, rfl, .open_ rfl rfl⟩
  rw [belongsTo_iff]
  have hne : t.epoch ≠ 0 := hi.epoch ▸ h0
  exact ⟨hne, hi.epoch, congrArg Transport.TurnIdentity.turnID hi.copies.1⟩

theorem Paced.open_ {n : Nat} (hp : Paced c₀ r deltas doneAt p h (.speaking n)) :
    p.providerDone = false ∧ h.payloads.flatten ++ p.pending = audioOf (deltas.take n) ∧
      h.ended = false := by
  have hd : p.providerDone = false := hp.providerDone
  have ha := hp.accounts
  rw [hd] at ha
  cases ha with
  | open_ ha he => exact ⟨hd, ha, he⟩

theorem text_reframes {n : Nat} {piece : GoString} {rest : List Delta}
    (hi : Idling c₀ r deltas doneAt t p h (.speaking n)) (hd : deltas.drop n = .text piece :: rest)
    (hl : left = Stage.left c₀.turn.epoch r deltas (.speaking (n + 1))) :
    (ForwardAt.control t (.textDelta r piece) []).Reframes c₀ r deltas doneAt t p h
      (.speaking (n + 1)) left := by
  have hp := hi.paced nofun
  obtain ⟨hfin, ha, he⟩ := hp.open_
  have htake := (take_succ_of_drop hd).1
  refine ⟨{ h with texts := h.texts ++ [piece] }, by simp [Heard.say, hp.started, hi.undone],
    hi.undone, hi.copies, ⟨⟨hi.turn, hi.undone, ?_⟩, he⟩, hl⟩
  rw [if_neg nofun, List.append_nil]
  refine ⟨hp.started, hp.owner, hp.responseID, hp.wireFrames, hp.providerDone, ?_, ?_, hp.aligned, ?_⟩
  · simp [hp.texts, Stage.taken, htake, textsOf, Delta.text?]
  · simp [hp.announced, Stage.taken, htake, Delta.isAudio]
  · dsimp only
    rw [hfin]
    exact .open_ (by simp [ha, Stage.taken, htake, audioOf, Delta.pcm]) he

theorem audio_reframes {n : Nat} {pcm : List UInt8} {rest : List Delta}
    (hi : Idling c₀ r deltas doneAt t p h (.speaking n)) (hd : deltas.drop n = .audio pcm :: rest)
    (hv : (Delta.audio pcm).valid = true)
    (hl : left = Stage.left c₀.turn.epoch r deltas (.speaking (n + 1))) :
    (ForwardAt.audio t ((Delta.audio pcm).event c₀.turn.epoch r)).Reframes c₀ r deltas doneAt t p h
      (.speaking (n + 1)) left := by
  have hp := hi.paced nofun
  obtain ⟨hfin, ha, he⟩ := hp.open_
  have htake := (take_succ_of_drop hd).1
  simp only [Delta.valid, decide_eq_true_eq] at hv
  refine ⟨hi.copies, rfl, rfl, hi.turn, hi.undone, he, ?_, hl⟩
  refine ⟨hp.started, hp.owner, hp.responseID, hp.wireFrames, hp.providerDone, ?_, ?_, ?_, ?_⟩
  · simp [hp.texts, Stage.taken, htake, textsOf, Delta.text?]
  · simp [Stage.taken, htake, Delta.isAudio]
  · exact aligned_append hp.aligned hv.2.1
  · dsimp only
    rw [hfin]
    exact .open_ (by simp [← List.append_assoc, ha, Stage.taken, htake, audioOf, Delta.pcm,
      Delta.event]) he

theorem done_reframes {n : Nat} (hi : Idling c₀ r deltas doneAt t p h (.speaking n))
    (hn : deltas.length ≤ n) (hl : left = []) :
    (ForwardAt.top).Reframes c₀ r deltas (some h.payloads.flatten) t
      { p with responseID := r, providerDone := true } h .finished left := by
  have hp := hi.paced nofun
  obtain ⟨-, ha, he⟩ := hp.open_
  have htake : deltas.take n = deltas := List.take_of_length_le hn
  rw [htake] at ha
  have htexts := hp.texts
  have hannounced := hp.announced
  simp only [Stage.taken, htake] at htexts hannounced
  refine .inl ⟨⟨⟨hi.turn, hi.undone, ?_⟩, he⟩, hl⟩
  rw [if_neg nofun]
  refine ⟨hp.started, hp.owner, rfl, hp.wireFrames, rfl, htexts, hannounced, hp.aligned, ?_⟩
  refine .closing ha (Nat.le_refl _) ?_ fun _ _ => rfl
  intro hended
  rw [he] at hended
  cases hended

theorem reads_pending (hr : p.reads = true) (h0 : p.epoch ≠ 0) :
    p.pending.length ≤ downlinkReadResumeBytes := by
  simpa [PacedDownlink.reads, h0] using hr

theorem buffered {pcm : List UInt8} (hp : p.pending.length ≤ downlinkReadResumeBytes)
    (hv : (Delta.audio pcm).valid = true) :
    ¬ downlinkMaxBufferedBytes < p.pending.length + pcm.length := by
  simp only [Delta.valid, decide_eq_true_eq] at hv
  have hsum : downlinkReadResumeBytes + maxProviderAudioDeltaBytes = downlinkMaxBufferedBytes := by
    decide
  omega

theorem validateProviderAudio_valid {pcm : List UInt8} (hv : (Delta.audio pcm).valid = true) :
    validateProviderAudio outputSampleRateHz pcm = none := by
  simp only [Delta.valid, decide_eq_true_eq] at hv
  obtain ⟨h0, hal, hmax⟩ := hv
  rw [validateProviderAudio, if_neg]
  simp [h0, hal, hmax]

theorem received_reframes {event : Event} (hi : Idling c₀ r deltas doneAt t p h stage)
    (hr : p.reads = true) (hl : event :: left = stage.left c₀.turn.epoch r deltas)
    (hv : ∀ d ∈ deltas, d.valid = true) (h0 : c₀.turn.epoch ≠ 0) :
    event.epoch = t.epoch ∧ (forwardEvent c p t event).1 = c ∧ ∃ stage',
      (forwardEvent c p t event).2.2.Reframes c₀ r deltas
        (if event.raw.type = .done then some h.payloads.flatten else doneAt) t
        (forwardEvent c p t event).2.1 h stage' left := by
  cases stage with
  | waiting =>
    obtain ⟨rfl, rfl⟩ := List.cons_eq_cons.mp hl
    refine ⟨hi.epoch.symm, by simp [(forwardEvent_calm c p t _).1], .speaking 0, ?_⟩
    have hp : p.epoch = 0 := by rw [hi.waiting.1]
    simp only [forwardEvent, startedEvent, hp, ne_eq, not_true_eq_false, if_false, reduceCtorEq]
    exact started_reframes hi h0 rfl
  | speaking n =>
    have hp := hi.paced (by simp)
    have hm := hp.matches hi.copies
    cases hd : deltas.drop n with
    | nil =>
      rw [Stage.left, hd] at hl
      obtain ⟨rfl, rfl⟩ := List.cons_eq_cons.mp hl
      refine ⟨hi.epoch.symm, by simp [(forwardEvent_calm c p t _).1], .finished, ?_⟩
      simp only [forwardEvent, doneEvent, hm, not_true_eq_false, if_false, if_true]
      exact done_reframes hi (List.drop_eq_nil_iff.mp hd) rfl
    | cons d rest =>
      rw [Stage.left, hd] at hl
      obtain ⟨rfl, rfl⟩ := List.cons_eq_cons.mp hl
      have hrest := (take_succ_of_drop hd).2
      have hleft : rest.map (Delta.event c₀.turn.epoch r) ++ [doneEvent c₀.turn.epoch r] =
          Stage.left c₀.turn.epoch r deltas (.speaking (n + 1)) := by rw [Stage.left, hrest]
      refine ⟨?_, by simp [(forwardEvent_calm c p t _).1], .speaking (n + 1), ?_⟩
      · cases d <;> exact hi.epoch.symm
      cases d with
      | text piece =>
        simp only [forwardEvent, Delta.event, hm, not_true_eq_false, if_false, reduceCtorEq]
        exact text_reframes hi hd hleft
      | audio pcm =>
        have hvd := hv (.audio pcm) (List.mem_of_mem_drop (hd ▸ List.mem_cons_self ..))
        have hpend := reads_pending hr (belongsTo_iff.mp hp.owner).1
        simp only [forwardEvent, Delta.event, validateProviderAudio_valid hvd, hm, not_true_eq_false,
          if_false, buffered hpend hvd, reduceCtorEq]
        exact audio_reframes hi hd hvd hleft
  | finished => cases hl

theorem sameActiveTurn_copies (ht : Copies c₀ turn) (hc : Copies c₀ t) (ha : t.active = true) :
    sameActiveTurn t turn = true :=
  sameActiveTurn_iff.mpr ⟨ha, hc.1.trans ht.1.symm⟩

theorem Idling.reply (hi : Idling c₀ r deltas doneAt c.turn p h' stage) (body : Body) :
    h.hear c₀.turn r (c.reply c.turn body) = h.say r body := by
  refine hear_reply hi.copies ?_ ?_ body <;> rw [hi.turn]

/-- `sendControlIfActive`. -/
theorem control_advances {body : Body} {pcm : List UInt8}
    (hp : (ForwardAt.control turn body pcm).Reframes c₀ r deltas doneAt c.turn p h stage
      (c.actor.events ++ script)) (ha : c₀.turn.active = true) (ho : Opened c₀ c) :
    Advances c₀ r deltas doneAt script c h (sendControlIfActive c p turn body pcm) := by
  obtain ⟨h', hsay, hd, hcopies, hi, hl⟩ := hp
  rw [sendControlIfActive, if_pos (sameActiveTurn_copies hcopies hi.copies (hi.active.trans ha))]
  refine .quiet stage rfl ⟨ho.done, ho.eventsClosed, ho.ctx, ho.fresh⟩ ?_
  exact ⟨h', (hi.toIdling.reply body).trans hsay, hi.copies, hi, hl⟩

/-- The lock of `EventAudio`. -/
theorem audio_advances {event : Event}
    (hp : (ForwardAt.audio turn event).Reframes c₀ r deltas doneAt c.turn p h stage
      (c.actor.events ++ script)) (ha : c₀.turn.active = true) (ho : Opened c₀ c) :
    Advances c₀ r deltas doneAt script c h (forwardAudio c p turn event) := by
  obtain ⟨hcopies, hid, hrate, hturn, hd, he, hpaced, hl⟩ := hp
  have hs : stage ≠ .waiting := by
    rintro rfl
    exact absurd hpaced.announced nofun
  have hc : Copies c₀ c.turn := by
    rw [hturn]
    exact ⟨rfl, rfl⟩
  have hact : c.turn.active = true := by rw [hturn]; exact ha
  have hstarted : c.turn.outputStarted = h.announced := by rw [hturn]
  have hidling : Idling c₀ r deltas doneAt { c.turn with outputStarted := true }
      { p with pending := p.pending ++ event.raw.pcm } { h with announced := true } stage := by
    refine ⟨by rw [hturn], hd, ?_⟩
    rw [if_neg hs]
    exact hpaced
  rw [forwardAudio, if_neg (by simp [sameActiveTurn_copies hcopies hc hact])]
  dsimp only
  have ho' : Opened c₀ (c.setTurn { c.turn with outputStarted := true }) :=
    ⟨ho.done, ho.eventsClosed, ho.ctx, ho.fresh⟩
  cases hann : h.announced with
  | true =>
    rw [if_pos (hstarted.trans hann)]
    have hsame : ({ h with announced := true } : Heard) = h := by rw [← hann]
    rw [hsame] at hidling
    exact .quiet stage rfl ho' (.inl ⟨⟨hidling, he⟩, hl⟩)
  | false =>
    rw [if_neg (by simp [hstarted, hann])]
    refine .quiet stage rfl ho' ⟨{ h with announced := true }, ?_, hd, hc, ⟨hidling, he⟩, hl⟩
    have hstart : h.started = true := hpaced.started
    simp [Heard.say, hid, hrate, hstart, hann, hd]

-- ---------------------------------------------------------------------------
-- Sending
-- ---------------------------------------------------------------------------

theorem Idling.nextFrameAt (hi : Idling c₀ r deltas doneAt t p h stage) (hs : stage ≠ .waiting)
    (at_ : Option Time) : Idling c₀ r deltas doneAt t { p with nextFrameAt := at_ } h stage := by
  have hp := hi.paced hs
  refine ⟨hi.turn, hi.undone, ?_⟩
  rw [if_neg hs]
  exact ⟨hp.started, hp.owner, hp.responseID, hp.wireFrames, hp.providerDone, hp.texts, hp.announced,
    hp.aligned, hp.accounts⟩

/-- The turn is active at every send. -/
theorem sending_turn {s : SendAt} {job : Job}
    (hp : (ForwardAt.sending s m job).Reframes c₀ r deltas doneAt t p h stage left) :
    t.active = c₀.turn.active ∧ job.ctx = c₀.turn.downlinkCtx ∧ ∃ h', Says c₀ r h m h' := by
  cases job with
  | control =>
    obtain ⟨h', hs, hc, hi, -⟩ := hp
    exact ⟨hi.active, hc.2, h', hs⟩
  | frame =>
    obtain ⟨h', hs, hc, -, -, -, -, hi, -⟩ := hp
    exact ⟨hi.active, hc.2, h', hs⟩
  | done =>
    obtain ⟨h', hs, hc, -, -, hi⟩ := hp
    exact ⟨hi.active, hc.2, h', hs⟩
  | error => exact hp.elim

theorem Opened.running (ho : Opened c₀ c) (ha : c.turn.active = true) :
    c.done c₀.turn.downlinkCtx = false := by
  have hf := ho.fresh
  have hd := ho.done
  simp only [Conn.done, Bool.decide_or, Bool.or_eq_false_iff, decide_eq_false_iff_not] at hf hd ⊢
  rw [ho.ctx ha]
  exact ⟨hd.1, hd.2.1, hf.2.2⟩

theorem put_advances {job : Job}
    (hp : (ForwardAt.sending .second m job).Reframes c₀ r deltas doneAt c.turn p h stage
      (c.actor.events ++ script)) (ha : c₀.turn.active = true) (ho : Opened c₀ c) :
    Advances c₀ r deltas doneAt script c h (c.put m, afterSend c p job) := by
  have ho' : Opened c₀ (c.put m) := ⟨ho.done, ho.eventsClosed, ho.ctx, ho.fresh⟩
  cases job with
  | control turn pcm =>
    obtain ⟨h', hs, -, hi, hl⟩ := hp
    exact ⟨h', stage, .inr ⟨m, rfl, hs⟩, ho', .inl ⟨hi, hl⟩⟩
  | frame turn payload final =>
    obtain ⟨h', hs, -, hw, -, rfl, -, hi, hfin, hlast, hl⟩ := hp
    refine ⟨h', stage, .inr ⟨m, rfl, hs⟩, ho', ?_⟩
    have hi' := hi.nextFrameAt hw (some (nextPacedFrameDeadline p.nextFrameAt c.now))
    cases hf : p.final with
    | true =>
      obtain ⟨hlast, hnil⟩ := hlast hf
      simp only [afterSend, if_true]
      exact ⟨hi', ⟨hlast.stage, hlast.pending, .inl (hfin.symm.trans hf)⟩, hnil⟩
    | false => exact .inl ⟨⟨hi', hfin.symm.trans hf⟩, hl⟩
  | done turn =>
    obtain ⟨h', hs, hc, he, hl, hi⟩ := hp
    exact ⟨h', stage, .inr ⟨m, rfl, hs⟩, ho', he, hl, hc, hi.copies.1, hi.active.trans ha⟩
  | error => exact hp.elim

theorem send_advances {s : SendAt} {job : Job} {l : SendLabel} {x : Forwarded}
    (hp : (ForwardAt.sending s m job).Reframes c₀ r deltas doneAt c.turn p h stage
      (c.actor.events ++ script)) (ha : c₀.turn.active = true) (ho : Opened c₀ c)
    (hl : l ≠ .encodeFailed) (hr : forwardStep c p (.sending s m job) (.send l) = some x) :
    Advances c₀ r deltas doneAt script c h x := by
  obtain ⟨hact, hctx, -⟩ := sending_turn hp
  have hdone : c.done job.ctx = false := by
    rw [hctx]
    exact ho.running (hact.trans ha)
  simp only [forwardStep, Option.map_eq_some_iff] at hr
  obtain ⟨result, hq, rfl⟩ := hr
  cases s <;> cases l <;>
    simp only [enqueue, hdone, reduceCtorEq, Bool.false_eq_true, and_false, if_false,
      not_false_eq_true, and_true, Option.ite_none_right_eq_some, Option.some.injEq] at hq
  · exact absurd rfl hl
  · obtain ⟨-, rfl⟩ := hq
    refine .quiet stage rfl ho ?_
    cases job <;> exact hp
  · obtain ⟨-, rfl⟩ := hq
    exact put_advances hp ha ho

-- ---------------------------------------------------------------------------
-- The end
-- ---------------------------------------------------------------------------

theorem finish_sends (hi : Idling c₀ r deltas doneAt c.turn p h stage) (hf : Finishing p h stage)
    (ha : c₀.turn.active = true) :
    finishPacedResponse c p =
      (c.count, p, .sending .first (c.reply c.turn (.responseDone p.responseID)) (.done c.turn)) := by
  obtain ⟨rfl, -, -⟩ := hf
  have hp := hi.paced nofun
  rw [finishPacedResponse,
    if_pos (writable_iff.mpr ⟨hi.active.trans ha, hp.belongs hi.copies⟩)]

theorem finish_advances (hi : Idling c₀ r deltas doneAt c.turn p h stage) (hf : Finishing p h stage)
    (hl : c.actor.events ++ script = []) (ha : c₀.turn.active = true) (ho : Opened c₀ c) :
    Advances c₀ r deltas doneAt script c h (finishPacedResponse c p) := by
  rw [finish_sends hi hf ha]
  obtain ⟨rfl, hnil, hlast⟩ := hf
  have hp := hi.paced nofun
  refine .quiet .finished rfl ⟨ho.done, ho.eventsClosed, ho.ctx, ho.fresh⟩ ?_
  refine ⟨{ h with done := true }, ?_, hi.copies, ?_, hl, hi⟩
  · rw [Says, hi.reply]
    simp [Heard.say, hp.responseID, hp.started, hi.undone]
  · have hacc := hp.accounts
    rw [hnil, hp.providerDone] at hacc
    refine ⟨rfl, hp.texts, hp.announced, hlast.imp_right fun hw => ?_, hacc⟩
    rw [← hp.wireFrames]
    exact hw

theorem finished_advances
    (hp : (ForwardAt.finished turn).Reframes c₀ r deltas doneAt c.turn p h stage
      (c.actor.events ++ script)) (ho : Opened c₀ c) :
    Advances c₀ r deltas doneAt script c h
      (if sameActiveTurn c.turn turn then
        (c.setTurn { c.turn with active := false }, p, .finishedStop c.turn)
      else (c, p.reset, .top)) := by
  obtain ⟨he, hl, hc, hid, hact⟩ := hp
  rw [if_pos (sameActiveTurn_iff.mpr ⟨hact, hid.trans hc.1.symm⟩)]
  exact .quiet stage rfl ⟨ho.done, ho.eventsClosed, nofun, ho.fresh⟩ ⟨he, hl, rfl⟩

theorem finishedStop_advances
    (hp : (ForwardAt.finishedStop turn).Reframes c₀ r deltas doneAt c.turn p h stage
      (c.actor.events ++ script)) (ho : Opened c₀ c) :
    Advances c₀ r deltas doneAt script c h (c.stop turn.downlinkCtx, p.reset, .top) := by
  obtain ⟨he, hl, hact⟩ := hp
  have hdone : (c.stop turn.downlinkCtx).done none = false := by
    simpa [Conn.done, Conn.stop] using ho.done
  refine .quiet stage rfl ⟨hdone, ho.eventsClosed, ?_, ho.fresh⟩ (.inr ⟨he, rfl, hact, hl⟩)
  intro ha
  exact absurd (hact.symm.trans ha) nofun

theorem select_advances {deadline : Option Time} {l : ForwardLabel} {x : Forwarded}
    (hp : (ForwardAt.selecting deadline).Reframes c₀ r deltas doneAt c.turn p h stage
      (c.actor.events ++ script)) (ho : Opened c₀ c)
    (hr : forwardStep c p (.selecting deadline) l = some x) :
    Advances c₀ r deltas doneAt script c h x := by
  cases l with
  | stopped => simp [forwardStep, ho.done] at hr
  | closed => simp [forwardStep, ho.eventsClosed] at hr
  | timer =>
    cases deadline with
    | none => cases hr
    | some at_ =>
      rw [forwardStep, Option.ite_none_right_eq_some, Option.some.injEq] at hr
      obtain ⟨-, rfl⟩ := hr
      exact .quiet stage rfl ho hp
  | event =>
    have hp : Looping c₀ r deltas doneAt c.turn p h stage (c.actor.events ++ script) := by
      cases deadline with
      | none => exact hp.1
      | some => exact hp
    simp only [forwardStep] at hr
    split at hr
    · rename_i event events hreads hevents
      cases hr
      rcases hp with ⟨hi, hleft⟩ | ⟨-, -, -, hleft⟩
      · rw [hevents] at hleft
        exact .quiet stage rfl ⟨ho.done, ho.eventsClosed, ho.ctx, ho.fresh⟩
          ⟨hi.toIdling, hreads, hleft⟩
      · rw [hevents] at hleft
        cases hleft
    · cases hr
  | next | send => cases deadline <;> cases hr

theorem pace_advances {l : ForwardLabel} {x : Forwarded}
    (hp : (ForwardAt.pace).Reframes c₀ r deltas doneAt c.turn p h stage (c.actor.events ++ script))
    (ho : Opened c₀ c) (hr : forwardStep c p .pace l = some x) :
    Advances c₀ r deltas doneAt script c h x := by
  have hready (hready : p.frameReady = true) :
      (ForwardAt.frame).Reframes c₀ r deltas doneAt c.turn p h stage (c.actor.events ++ script) := by
    rcases hp.1 with ⟨hi, hleft⟩ | ⟨-, rfl, -⟩
    · exact ⟨hi, hready, hleft⟩
    · exact absurd hready (by decide)
  cases l <;> simp only [forwardStep, reduceCtorEq] at hr
  split at hr
  · rename_i hf
    cases hr
    exact .quiet stage rfl ho ⟨hp.1, hp.2, hf⟩
  · rename_i hf _
    cases hr
    exact .quiet stage rfl ho (hready hf)
  · rename_i frameAt hf _
    cases hr
    by_cases hdue : frameAt ≤ c.now
    · rw [if_pos hdue]
      exact .quiet stage rfl ho (hready hf)
    · rw [if_neg hdue]
      exact .quiet stage rfl ho hp.1

theorem forward_advances {l : ForwardLabel} {x : Forwarded}
    (hp : f.Reframes c₀ r deltas doneAt c.turn p h stage (c.actor.events ++ script))
    (hv : ∀ d ∈ deltas, d.valid = true) (ha : c₀.turn.active = true) (h0 : c₀.turn.epoch ≠ 0)
    (ho : Opened c₀ c)
    (hfull : h.ended = false → h.payloads.flatten.length = outputFrameBytes * h.payloads.length)
    (hl : l ≠ .send .encodeFailed) (hr : forwardStep c p f l = some x) :
    Advances c₀ r deltas (if f.finishes? then some h.payloads.flatten else doneAt) script c h x := by
  cases f with
  | top =>
    change Advances c₀ r deltas doneAt script c h x
    cases l <;> simp only [forwardStep, reduceCtorEq, Option.some.injEq] at hr
    subst hr
    rcases hp with ⟨hi, hleft⟩ | ⟨he, rfl, hact, hleft⟩
    · exact top_advances hi hleft ha ho (hfull hi.running)
    · exact .quiet stage rfl ho ⟨.inr ⟨he, rfl, hact, hleft⟩, rfl⟩
  | finish =>
    cases l <;> simp only [forwardStep, reduceCtorEq, Option.some.injEq] at hr
    subst hr
    exact finish_advances hp.1 hp.2.1 hp.2.2 ha ho
  | pace => exact pace_advances hp ho hr
  | frame =>
    cases l <;> simp only [forwardStep, reduceCtorEq, Option.some.injEq] at hr
    subst hr
    exact frame_advances hp.1 hp.2.1 hp.2.2 ha ho
  | selecting deadline => exact select_advances hp ho hr
  | received event =>
    cases l <;> simp only [forwardStep, reduceCtorEq] at hr
    obtain ⟨hi, hreads, hleft⟩ := hp
    obtain ⟨hepoch, hconn, stage', hnext⟩ := received_reframes hi hreads hleft hv h0
    rw [if_neg (by simp [hepoch, hi.active, ha]), Option.some.injEq] at hr
    subst hr
    refine .quiet stage' (by rw [hconn]) (by rwa [hconn]) ?_
    rw [hconn]
    simpa only [ForwardAt.finishes?, decide_eq_true_eq] using hnext
  | control turn body pcm =>
    cases l <;> simp only [forwardStep, reduceCtorEq, Option.some.injEq] at hr
    subst hr
    exact control_advances hp ha ho
  | audio turn event =>
    cases l <;> simp only [forwardStep, reduceCtorEq, Option.some.injEq] at hr
    subst hr
    exact audio_advances hp ha ho
  | sending s m job =>
    cases l with
    | send l =>
      exact send_advances hp ha ho (fun h => hl (by rw [h])) hr
    | _ => cases hr
  | finished turn =>
    cases l <;> simp only [forwardStep, reduceCtorEq] at hr
    rw [← apply_ite some, Option.some.injEq] at hr
    subst hr
    exact finished_advances hp ho
  | finishedStop turn =>
    cases l <;> simp only [forwardStep, reduceCtorEq, Option.some.injEq] at hr
    subst hr
    exact finishedStop_advances hp ho
  | _ => exact hp.elim

end BoomPI.Device
