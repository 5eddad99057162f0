import BoomPI.Client.Envelope
import BoomPI.Json.Parse
import BoomPI.Json.Spell

/-!
# What the transport lets through

Everything the transport hands to the application between one accepted
turn.start and the next, beside the control messages that left in between. The
peer may send any bytes in any order.
-/

namespace BoomPI.Client.Transport

open Json (Text Value)

/-- What is noted of a step: a control message that was sent, or an event with the
callback that emitted it. -/
inductive Entry
  | sent (kind : ControlKind)
  | text (event : Inbound)
  | binary (event : Inbound)
  deriving DecidableEq, Repr

/-- The transport with all that happened since the last accepted turn.start. -/
structure Watched where
  transport : Transport
  log : List Entry := []
  deriving DecidableEq, Repr

inductive Watch
  | send (c : Control) (capacity : QueueCapacity)
  | sendPcm (h : Pcm64Header) (pcm : List UInt8) (capacity : QueueCapacity)
  | onText (json : List UInt8)
  | onBinary (bytes : List UInt8)
  deriving DecidableEq, Repr

def Outcome.entries (entry : Inbound → Entry) : Outcome → List Entry
  | .emit event => [entry event]
  | _ => []

def Watched.step (cjson : Text → Option Value) (w : Watched) : Watch → Watched
  | .send c capacity =>
    match w.transport.send c capacity with
    | (_, true, transport) =>
      { transport, log := if c.kind = .turnStart then [] else w.log ++ [.sent c.kind] }
    | (_, false, transport) => { w with transport }
  | .sendPcm h pcm capacity => { w with transport := (w.transport.sendPcm h pcm capacity).2.2 }
  | .onText json =>
    let (transport, outcome) := w.transport.onTextBytes cjson json
    { transport, log := w.log ++ outcome.entries .text }
  | .onBinary bytes =>
    let (transport, outcome) := w.transport.onBinary bytes
    { transport, log := w.log ++ outcome.entries .binary }

def watch (cjson : Text → Option Value) : Lts.Machine Watched Watch where
  Init w := machine.Init w.transport ∧ w.log = []
  step w l := some (w.step cjson l)

-- ---------------------------------------------------------------------------
-- The law
-- ---------------------------------------------------------------------------

structure Heard where
  committed : Bool := false
  cancelled : Bool := false
  started : Bool := false
  stream : UInt32 := 0
  announced : Bool := false
  frames : Nat := 0
  ended : Bool := false
  broken : Bool := false
  done : Bool := false
  deriving DecidableEq, Repr

/-- Content of the response that was announced, before its end and any cancellation. -/
def Heard.live (turn : WireIds) (h : Heard) (ids : WireIds) : Bool :=
  h.started ∧ ¬ h.cancelled ∧ ¬ h.done ∧ ids.sameTurn turn ∧ ids.stream = h.stream

/-- What may follow. A discontinuity is the error that `OnBinary` emits. -/
def Heard.hear (turn : WireIds) (h : Heard) : Entry → Option Heard
  | .sent .turnCommit => some { h with committed := true }
  | .sent .turnCancel | .sent .responseCancel => some { h with cancelled := true }
  | .sent _ => some h
  | .text (.responseStart ids) =>
    if h.committed ∧ ¬ h.started ∧ ¬ h.cancelled ∧ ¬ h.done ∧ ids.sameTurn turn ∧ ids.stream ≠ 0 then
      some { h with started := true, stream := ids.stream }
    else none
  | .text (.textDelta ids _) => if h.live turn ids then some h else none
  | .text (.audioStart ids) =>
    if h.live turn ids ∧ ¬ h.announced then some { h with announced := true } else none
  | .text (.done ids) =>
    if ¬ h.done ∧ ids.sameTurn turn ∧ (h.started → ids.stream = h.stream) ∧
        (h.started ∨ h.cancelled) ∧
        (h.announced → ¬ h.ended → h.cancelled ∨ h.broken) then
      some { h with done := true }
    else none
  | .text (.helloAck _) | .text (.cancelled _) | .text (.error ..) => some h
  | .binary (.pcm header _) =>
    if h.live turn header.ids ∧ h.announced ∧ ¬ h.ended ∧ ¬ h.broken ∧
        header.sequence.toNat = h.frames ∧ (h.frames = 0 ↔ header.flags &&& 1 ≠ 0) then
      some { h with frames := h.frames + 1, ended := header.flags &&& 2 ≠ 0 }
    else none
  | .binary (.error ..) => some { h with broken := true }
  | .text (.pcm ..) | .binary _ => none

def hears (turn : WireIds) (log : List Entry) : Option Heard := log.foldlM (Heard.hear turn) {}

theorem hears_append {turn : WireIds} {log more : List Entry} : hears turn (log ++ more) =
    (hears turn log).bind fun h => more.foldlM (Heard.hear turn) h := by
  rw [hears, List.foldlM_append]
  rfl

-- ---------------------------------------------------------------------------
-- The flags
-- ---------------------------------------------------------------------------

/-- The flags of the transport say what has been heard. -/
structure Follows (s : Transport) (h : Heard) : Prop where
  turn : s.active = true → s.turn.valid = true ∧ s.turn.session = s.session
  response : s.response.valid = true → s.response.sameTurn s.turn = true ∧
    s.response.session = s.session
  fresh : s.response.valid = false → s.audioStarted = false ∧ s.audioEnded = false ∧
    s.downlinkSequence = 0
  committed : s.committed = true → h.committed = true
  cancelled : s.active = true → h.cancelled = s.responseCancelSent
  started : h.started = true → s.response.valid = true ∧ h.stream = s.response.stream
  heard : s.response.valid = true → h.started = true ∨ h.cancelled = true
  announced : h.announced = s.audioStarted
  frames : h.frames = s.downlinkSequence.toNat
  ended : h.ended = s.audioEnded
  unbroken : s.response.valid = false → h.broken = false
  broken : s.active = true → h.broken = true → s.discardDownlink = true
  discarded : s.active = true → s.discardDownlink = true → h.broken = true ∨ h.cancelled = true
  done : h.done = true → s.active = false

def Obeys (turn : WireIds) (h : Heard) (entry : Inbound → Entry) (r : Transport × Outcome) : Prop :=
  ∃ h', (r.2.entries entry).foldlM (Heard.hear turn) h = some h' ∧ r.1.Follows h'

variable {s : Transport} {h : Heard} {c : Control} {e : Envelope} {ids : WireIds}

theorem Follows.quiet {entry : Inbound → Entry} {o : Outcome} (hf : s.Follows h)
    (ho : o.entries entry = []) : Obeys s.turn h entry (s, o) :=
  ⟨h, by rw [ho]; rfl, hf⟩

theorem Obeys.emit {entry : Inbound → Entry} {event : Inbound} {t : Transport} {turn : WireIds}
    (h' : Heard) (hh : h.hear turn (entry event) = some h') (hf : t.Follows h') :
    Obeys turn h entry (t, .emit event) :=
  ⟨h', by simp [Outcome.entries, hh], hf⟩

theorem Follows.inactive {t : Transport} (hf : s.Follows h) (ha : t.active = false)
    (hr : t.response = s.response) (ht : t.turn = s.turn) (hsession : t.session = s.session)
    (hc : t.committed = s.committed) (hs : t.audioStarted = s.audioStarted)
    (he : t.audioEnded = s.audioEnded) (hd : t.downlinkSequence = s.downlinkSequence) :
    t.Follows h := by
  have never {P : Prop} (hn : t.active = true) : P := by
    rw [ha] at hn
    cases hn
  refine ⟨fun hn => never hn, ?_, ?_, ?_, fun hn => never hn, ?_, ?_, ?_, ?_, ?_, ?_,
    fun hn => never hn, fun hn => never hn, fun _ => ha⟩
  · rw [hr, ht, hsession]
    exact hf.response
  · rw [hr, hs, he, hd]
    exact hf.fresh
  · rw [hc]
    exact hf.committed
  · rw [hr]
    exact hf.started
  · rw [hr]
    exact hf.heard
  · exact hf.announced.trans hs.symm
  · rw [hd]
    exact hf.frames
  · exact hf.ended.trans he.symm
  · rw [hr]
    exact hf.unbroken

theorem sameTurn_iff {i j : WireIds} : i.sameTurn j = true ↔
    i.session = j.session ∧ i.turn = j.turn ∧ i.epoch = j.epoch := by
  simp [WireIds.sameTurn]

theorem valid_iff {i : WireIds} : i.valid = true ↔
    i.session ≠ 0 ∧ i.turn ≠ 0 ∧ i.stream ≠ 0 ∧ i.epoch ≠ 0 := by
  simp [WireIds.valid]

theorem Follows.live (hf : s.Follows h) (ha : s.active = true) (hv : s.response.valid = true)
    (hd : s.discarding s.response = false) : h.live s.turn s.response = true := by
  have hcancel : s.responseCancelSent = false ∧ s.discardDownlink = false := by
    simpa [discarding, hv, WireIds.sameIds, WireIds.sameTurn] using hd
  have hn : h.cancelled = false := (hf.cancelled ha).trans hcancel.1
  have hstarted : h.started = true := (hf.heard hv).resolve_right (by rw [hn]; nofun)
  have hdone : h.done = false := Bool.eq_false_iff.mpr fun hd => by
    rw [hf.done hd] at ha
    cases ha
  simp [Heard.live, hstarted, hn, hdone, (hf.response hv).1, (hf.started hstarted).2]

theorem onResponse_obeys (payload : Payload) (hf : s.Follows h) :
    Obeys s.turn h .text (s.onResponse ids payload) := by
  unfold onResponse
  split
  · exact hf.quiet rfl
  split
  · exact hf.quiet rfl
  rename_i hn
  simp only [not_or, Decidable.not_not] at hn
  obtain ⟨ha, hv, rfl⟩ := hn
  have hdone : h.done = false := Bool.eq_false_iff.mpr fun hd => by
    rw [hf.done hd] at ha
    cases ha
  cases payload with
  | textDelta responseId text =>
    dsimp only
    split
    · exact hf.quiet rfl
    rename_i hd
    split
    · exact hf.quiet rfl
    split
    · exact hf.quiet rfl
    split
    · exact hf.quiet rfl
    · have hlive := hf.live ha hv (Bool.eq_false_iff.mpr hd)
      exact .emit h (by simp [Heard.hear, hlive]) hf
  | audioStart responseId sampleRateHz =>
    dsimp only
    split
    · exact hf.quiet rfl
    rename_i hd
    split
    · exact hf.quiet rfl
    split
    · exact hf.quiet rfl
    · rename_i hcontract
      simp only [not_or] at hcontract
      have hlive := hf.live ha hv (Bool.eq_false_iff.mpr hd)
      have hannounced : h.announced = false := hf.announced.trans (Bool.eq_false_iff.mpr hcontract.2.1)
      refine .emit ({ h with announced := true }) (by simp [Heard.hear, hlive, hannounced]) ?_
      refine { hf with fresh := fun hn => ?_, announced := rfl }
      rw [hv] at hn
      cases hn
  | done responseId =>
    dsimp only
    split
    · exact hf.quiet rfl
    split
    · exact hf.quiet rfl
    · rename_i hcontract
      simp only [not_or, not_and, Decidable.not_not] at hcontract
      have hstream : h.started = true → s.response.stream = h.stream := fun hs => (hf.started hs).2.symm
      have hend : h.announced = true → h.ended = false → h.cancelled = true ∨ h.broken = true := by
        intro hannounced hended
        have hdiscarding := hcontract.2 (hf.announced ▸ hannounced)
          (Bool.eq_false_iff.mp (hf.ended ▸ hended))
        have hor : s.responseCancelSent = true ∨ s.discardDownlink = true := by
          simpa [discarding, hv, WireIds.sameIds, WireIds.sameTurn] using hdiscarding
        rcases hor with hc | hd
        · exact .inl ((hf.cancelled ha).trans hc)
        · exact (hf.discarded ha hd).symm
      refine .emit ({ h with done := true }) ?_ ?_
      · rw [Heard.hear, if_pos]
        refine ⟨by simp [hdone], (hf.response hv).1, hstream, hf.heard hv, fun h1 h2 => ?_⟩
        exact hend h1 (Bool.eq_false_iff.mpr h2)
      · have hoff : Follows { s with
            active := false, responseDone := true
            discardDownlink := s.discardDownlink && s.responseCancelSent } h :=
          hf.inactive rfl rfl rfl rfl rfl rfl rfl rfl
        exact { hoff with done := fun _ => rfl }
  | _ => exact hf.quiet rfl

theorem responseStart_obeys {responseId : String} (hf : s.Follows h)
    (hp : e.payload = .responseStart responseId) (hd : e.deviceId = s.deviceId) :
    Obeys s.turn h .text (s.onText e) := by
  rw [onText, if_neg (fun hn => hn hd), hp]
  dsimp only
  split
  · exact hf.quiet rfl
  split
  · exact hf.quiet rfl
  rename_i hn
  simp only [not_or, Decidable.not_not] at hn
  obtain ⟨ha, hcommitted, hv, hturn, hstream⟩ := hn
  replace hv : s.response.valid = false := Bool.eq_false_iff.mpr hv
  split
  · exact hf.quiet rfl
  have hstarted : h.started = false := Bool.eq_false_iff.mpr fun hs => by
    rw [(hf.started hs).1] at hv
    cases hv
  have hdone : h.done = false := Bool.eq_false_iff.mpr fun hd => by
    rw [hf.done hd] at ha
    cases ha
  obtain ⟨hs, he, hq⟩ := hf.fresh hv
  obtain ⟨hvalid, hsession⟩ := hf.turn ha
  obtain ⟨h1, h2, h3⟩ := sameTurn_iff.mp hturn
  have hids : e.ids.valid = true := by
    obtain ⟨v1, v2, -, v4⟩ := valid_iff.mp hvalid
    exact valid_iff.mpr ⟨h1 ▸ v1, h2 ▸ v2, hstream, h3 ▸ v4⟩
  have never {P : Prop} (hn : e.ids.valid = false) : P := by
    rw [hids] at hn
    cases hn
  cases hc : s.responseCancelSent with
  | true =>
    have hcancelled : h.cancelled = true := (hf.cancelled ha).trans hc
    refine ⟨h, rfl, hf.turn, fun _ => ⟨hturn, h1.trans hsession⟩, fun hn => never hn, hf.committed,
      fun _ => hcancelled, fun hn => ?_, fun _ => .inr hcancelled,
      hf.announced.trans hs, hf.frames.trans (by rw [hq]), hf.ended.trans he, fun hn => never hn,
      fun _ _ => rfl, fun _ _ => .inr hcancelled, hf.done⟩
    rw [hstarted] at hn
    cases hn
  | false =>
    have hcancelled : h.cancelled = false := (hf.cancelled ha).trans hc
    have hbroken : h.broken = false := hf.unbroken hv
    refine .emit ({ h with started := true, stream := e.ids.stream }) ?_ ?_
    · simp [Heard.hear, hf.committed hcommitted, hstarted, hcancelled, hdone, hturn, hstream]
    · refine ⟨hf.turn, fun _ => ⟨hturn, h1.trans hsession⟩, fun hn => never hn, hf.committed,
        fun _ => hcancelled, fun _ => ⟨hids, rfl⟩, fun _ => .inl rfl,
        hf.announced.trans hs, hf.frames.trans (by rw [hq]), hf.ended.trans he,
        fun hn => never hn, fun _ hn => ?_, nofun, hf.done⟩
      rw [hbroken] at hn
      cases hn

theorem onText_obeys (hf : s.Follows h) : Obeys s.turn h .text (s.onText e) := by
  by_cases hd : e.deviceId = s.deviceId
  case neg =>
    rw [onText, if_pos hd]
    exact hf.quiet rfl
  cases hp : e.payload with
  | responseStart responseId => exact responseStart_obeys hf hp hd
  | helloAck inputSampleRateHz outputSampleRateHz inputFrameMs =>
    rw [onText, if_neg (fun hn => hn hd), hp]
    dsimp only
    split
    · exact hf.quiet rfl
    split
    · exact hf.quiet rfl
    rename_i hn _
    simp only [not_or, Decidable.not_not] at hn
    have hzero : s.session = 0 := hn.1
    -- without a session no turn has begun
    refine .emit h rfl { hf with turn := fun ha => ?_, response := fun hv => ?_ }
    · obtain ⟨hv, hs⟩ := hf.turn ha
      exact absurd (hs.trans hzero) (valid_iff.mp hv).1
    · exact absurd ((hf.response hv).2.trans hzero) (valid_iff.mp hv).1
  | cancelled reason =>
    rw [onText, if_neg (fun hn => hn hd), hp]
    dsimp only
    have hoff : Follows { s with
        active := false, responseDone := false, responseCancelSent := false
        discardDownlink := false } h := hf.inactive rfl rfl rfl rfl rfl rfl rfl rfl
    repeat' split
    all_goals first | exact hf.quiet rfl | exact .emit h rfl hoff
  | error code message =>
    rw [onText, if_neg (fun hn => hn hd), hp]
    dsimp only
    split
    · exact hf.quiet rfl
    split
    · exact hf.quiet rfl
    split
    · exact hf.quiet rfl
    refine .emit h rfl ?_
    generalize decide (s.active = true ∧ e.ids.sameTurn s.turn = true ∧ e.ids.stream ≠ 0) = turnError
    cases turnError with
    | true => exact hf.inactive (Bool.and_false _) rfl rfl rfl rfl rfl rfl rfl
    | false =>
      have hsame : { s with active := s.active && !false } = s := by
        rw [Bool.not_false, Bool.and_true]
      rw [hsame]
      exact hf
  | textDelta | audioStart | done | unsupported =>
    rw [onText, if_neg (fun hn => hn hd), hp]
    exact onResponse_obeys _ hf

theorem Follows.playing (hf : s.Follows h) (hs : s.audioStarted = true)
    (hstale : ¬ s.isStale s.response = true) : s.response.valid = true ∧ s.active = true := by
  have hv : s.response.valid = true := by
    cases hv : s.response.valid with
    | true => rfl
    | false => rw [(hf.fresh hv).1] at hs; cases hs
  obtain ⟨hturn, hsession⟩ := hf.response hv
  have hepoch : s.turn.epoch ≠ 0 :=
    (sameTurn_iff.mp hturn).2.2 ▸ (valid_iff.mp hv).2.2.2
  refine ⟨hv, ?_⟩
  -- a response of an ended turn is stale
  cases ha : s.active with
  | true => rfl
  | false =>
    refine absurd ?_ hstale
    simp [isStale, hsession, hepoch, (sameTurn_iff.mp hturn).2.2, hv, ha, WireIds.sameIds,
      WireIds.sameTurn]

theorem onPcm_obeys {header : Pcm64Header} {audio : List UInt8} (hf : s.Follows h) :
    Obeys s.turn h .binary (s.onPcm header audio) := by
  unfold onPcm
  split
  · exact hf.quiet rfl
  rename_i hpass
  split
  · exact hf.quiet rfl
  rename_i hn
  simp only [not_or, Decidable.not_not] at hpass hn
  obtain ⟨hstarted, hended, hseq, hmax, hids, hflag⟩ := hn
  obtain ⟨hstale, hdiscarding⟩ := hpass
  rw [hids] at hstale hdiscarding
  obtain ⟨hv, ha⟩ := hf.playing hstarted hstale
  have hlive := hf.live ha hv (Bool.eq_false_iff.mpr hdiscarding)
  have hd : s.discardDownlink = false := by
    have : s.responseCancelSent = false ∧ s.discardDownlink = false := by
      simpa [discarding, hv, WireIds.sameIds, WireIds.sameTurn] using hdiscarding
    exact this.2
  have hbroken : h.broken = false := Bool.eq_false_iff.mpr fun hb => by
    rw [hf.broken ha hb] at hd
    cases hd
  split
  · refine .emit { h with broken := true } rfl { hf with
      unbroken := fun hn => ?_, broken := fun _ _ => rfl, discarded := fun _ _ => .inl rfl }
    rw [hv] at hn
    cases hn
  · have hnext : (s.downlinkSequence + 1).toNat = s.downlinkSequence.toNat + 1 := by
      have hlt : s.downlinkSequence.toNat ≠ maxUint32.toNat := fun he => hmax (UInt32.toNat_inj.mp he)
      have hbound := s.downlinkSequence.toNat_lt
      rw [UInt32.toNat_add, UInt32.toNat_one, Nat.mod_eq_of_lt]
      change s.downlinkSequence.toNat ≠ 4294967295 at hlt
      omega
    refine .emit { h with frames := h.frames + 1, ended := header.flags &&& 2 ≠ 0 } ?_ { hf with
      fresh := fun hn => ?_, frames := ?_, ended := rfl }
    · rw [Heard.hear, if_pos]
      refine ⟨hids ▸ hlive, hf.announced.trans hstarted, ?_, by simp [hbroken], ?_, ?_⟩
      · rw [hf.ended]
        exact hended
      · rw [hseq, hf.frames]
      · rw [hf.frames, ← hflag, ← UInt32.toNat_inj]
        rfl
    · rw [hv] at hn
      cases hn
    · rw [hnext, hf.frames]

theorem onBinary_obeys {bytes : List UInt8} (hf : s.Follows h) :
    Obeys s.turn h .binary (s.onBinary bytes) := by
  unfold onBinary
  split
  · exact hf.quiet rfl
  · exact onPcm_obeys hf

theorem onTextBytes_obeys {cjson : Text → Option Value} {json : List UInt8} (hf : s.Follows h) :
    Obeys s.turn h .text (s.onTextBytes cjson json) := by
  unfold onTextBytes
  split
  · exact hf.quiet rfl
  unfold onJson
  split
  · exact hf.quiet rfl
  split
  · exact hf.quiet rfl
  have ignored {e : ParsedEnvelope} {exact : Bool} {why : String} :
      Obeys s.turn h .text (s, if s.ignores e exact then .dropped else .protocolError why) := by
    split <;> exact hf.quiet rfl
  split
  · exact ignored
  split
  · exact ignored
  · exact onText_obeys hf

-- ---------------------------------------------------------------------------
-- The calls of the actor
-- ---------------------------------------------------------------------------

theorem sent_follows (hf : s.Follows h) (hk : c.kind ≠ .turnStart) :
    ∃ h', h.hear (s.sent c).turn (.sent c.kind) = some h' ∧ (s.sent c).Follows h' := by
  unfold sent
  cases hkind : c.kind with
  | hello => exact ⟨h, rfl, hf⟩
  | turnStart => exact absurd hkind hk
  | turnCommit => exact ⟨_, rfl, { hf with committed := fun _ => rfl }⟩
  | turnCancel | responseCancel =>
    exact ⟨_, rfl, { hf with
      cancelled := fun _ => rfl, heard := fun _ => .inr rfl, discarded := fun _ _ => .inr rfl }⟩

theorem turnStart_follows (hk : c.kind = .turnStart) (ha : s.admits c = some true) :
    (s.sent c).Follows {} := by
  obtain ⟨-, hv, -, hs, -⟩ := (admits_turnStart hk).mp ha
  simp only [sent, hk]
  exact ⟨fun _ => ⟨hv, hs⟩, nofun, fun _ => ⟨rfl, rfl, rfl⟩, nofun, fun _ => rfl, nofun, nofun, rfl,
    rfl, rfl, fun _ => rfl, fun _ => nofun, fun _ => nofun, nofun⟩

theorem sendPcm_follows {header : Pcm64Header} {pcm : List UInt8} {capacity : QueueCapacity}
    (hf : s.Follows h) : (s.sendPcm header pcm capacity).2.2.Follows h ∧
      (s.sendPcm header pcm capacity).2.2.turn = s.turn := by
  unfold sendPcm
  split
  · exact ⟨hf, rfl⟩
  split
  · exact ⟨hf, rfl⟩
  · exact ⟨hf, rfl⟩
  · exact ⟨{ hf with }, rfl⟩

theorem send_cases (s : Transport) (c : Control) (capacity : QueueCapacity) :
    (∃ result, s.send c capacity = (result, false, s)) ∨
      (s.admits c = some true ∧ s.send c capacity = (true, true, s.sent c)) := by
  unfold send
  split
  · exact .inl ⟨_, rfl⟩
  · exact .inl ⟨_, rfl⟩
  · rename_i ha
    split
    · exact .inr ⟨ha, rfl⟩
    · exact .inl ⟨_, rfl⟩

/-- What has been noted obeys the law, and the flags say so. -/
def Watched.Lawful (w : Watched) : Prop :=
  ∃ h, hears w.transport.turn w.log = some h ∧ w.transport.Follows h

theorem Obeys.lawful {entry : Inbound → Entry} {r : Transport × Outcome} {log : List Entry}
    (hr : Obeys s.turn h entry r) (hlog : hears s.turn log = some h) (ht : r.1.turn = s.turn) :
    Watched.Lawful { transport := r.1, log := log ++ r.2.entries entry } := by
  obtain ⟨h', hfold, hf⟩ := hr
  refine ⟨h', ?_, hf⟩
  rw [ht, hears_append, hlog]
  exact hfold

theorem onTextBytes_turn {cjson : Text → Option Value} {json : List UInt8} :
    (s.onTextBytes cjson json).1.turn = s.turn := by
  unfold onTextBytes onJson
  repeat' split
  all_goals first | rfl | exact onText_steady.turn

theorem Watched.Lawful.step {cjson : Text → Option Value} {w : Watched} (hw : w.Lawful) (l : Watch) :
    (w.step cjson l).Lawful := by
  obtain ⟨h, hlog, hf⟩ := hw
  cases l with
  | send c capacity =>
    unfold Watched.step
    rcases send_cases w.transport c capacity with ⟨result, hs⟩ | ⟨ha, hs⟩
    · simp only [hs]
      exact ⟨h, hlog, hf⟩
    simp only [hs]
    by_cases hk : c.kind = .turnStart
    · rw [if_pos hk]
      exact ⟨{}, rfl, turnStart_follows hk ha⟩
    · rw [if_neg hk]
      obtain ⟨h', hhear, hf'⟩ := sent_follows hf hk
      have ht : (w.transport.sent c).turn = w.transport.turn := by
        unfold sent
        cases hkind : c.kind <;> first | rfl | exact absurd hkind hk
      refine ⟨h', ?_, hf'⟩
      show hears (w.transport.sent c).turn _ = _
      rw [ht] at hhear ⊢
      rw [hears_append, hlog]
      simpa using hhear
  | sendPcm header pcm capacity =>
    obtain ⟨hf', ht⟩ := sendPcm_follows hf
    refine ⟨h, ?_, hf'⟩
    show hears (w.transport.sendPcm header pcm capacity).2.2.turn w.log = _
    rw [ht, hlog]
  | onText json => exact (onTextBytes_obeys hf).lawful hlog onTextBytes_turn
  | onBinary bytes => exact (onBinary_obeys hf).lawful hlog onBinary_steady.turn

theorem fresh_follows {deviceId : String} {uuid : List UInt8} :
    Follows { deviceId, uuid } {} :=
  ⟨nofun, nofun, fun _ => ⟨rfl, rfl, rfl⟩, nofun, nofun, nofun, nofun, rfl, rfl, rfl,
    fun _ => rfl, nofun, nofun, nofun⟩

/-- Whatever the application sends and the peer sends, what is emitted between one accepted
turn.start and the next obeys the law of one response. -/
theorem emission_law (cjson : Text → Option Value) {w : Watched} (h : (watch cjson).Reachable w) :
    ∃ heard, hears w.transport.turn w.log = some heard := by
  have hw : w.Lawful := by
    refine h.invariant (I := Watched.Lawful) ?_ fun w l w' hw hs => ?_
    · rintro ⟨_, _⟩ ⟨⟨deviceId, uuid, -, rfl⟩, rfl⟩
      exact ⟨{}, rfl, fresh_follows⟩
    · cases hs
      exact hw.step l
  obtain ⟨heard, hlog, -⟩ := hw
  exact ⟨heard, hlog⟩

-- ---------------------------------------------------------------------------
-- A run
-- ---------------------------------------------------------------------------

/-- A text message of the peer to device `…1`, on stream 9. -/
def message (type : Text) (ids : WireIds) (payload : List (Text × Value)) : Text :=
  let member (name : Text) (value : Value) := (name.map Json.Item.of, value)
  let string (text : Text) : Value := .string (text.map Json.Item.of)
  let number (n : UInt32) : Value := .number (.ofNat n.toNat)
  (Json.object (Wire.Field.all.map fun f => member f.name (match f with
    | .version => number 1
    | .type => string type
    | .messageID => string ['m']
    | .deviceID => string "00000000-0000-4000-8000-000000000001".toList
    | .sessionID => number ids.session
    | .turnID => number ids.turn
    | .streamID => number ids.stream
    | .epoch => number ids.epoch
    | .payload => Json.object (payload.map fun (name, value) => member name value)))).text

def helloAckText : Text :=
  message ['h', 'e', 'l', 'l', 'o', '.', 'a', 'c', 'k'] { session := 5, epoch := 1 } [
    (Wire.inputRateKey, .number (.ofNat 16000)), (Wire.outputRateKey, .number (.ofNat 24000)),
    (Wire.inputFrameKey, .number (.ofNat 20))]

def sampleIds : WireIds := { session := 5, turn := 1, stream := 1, epoch := 1 }

def responseStartText : Text :=
  message ['r', 'e', 's', 'p', 'o', 'n', 's', 'e', '.', 's', 't', 'a', 'r', 't']
    { sampleIds with stream := 9 } [(Wire.responseIdKey, .string [Json.Item.of 'r'])]

/-- A text is decoded and handled. -/
theorem step_encode {cjson : Text → Option Value} {w : Watched} {json : Text} :
    w.step cjson (.onText (Utf8.encode json)) =
      { transport := (w.transport.onJson cjson json).1
        log := w.log ++ (w.transport.onJson cjson json).2.entries .text } := by
  simp [Watched.step, onTextBytes]

def control (kind : ControlKind) : Watch :=
  .send { kind, messageId := "m", ids := sampleIds } .available

def parsed (text : Text) : Option Value := (Json.document text).map (·.value)

/-- A turn that is answered and then cancelled. -/
theorem emission_law_answered : ∃ w, (watch parsed).Reachable w ∧
    w.log = [.sent .turnCommit, .text (.responseStart { sampleIds with stream := 9 }),
      .sent .turnCancel] ∧
    ∃ heard, hears w.transport.turn w.log = some heard := by
  have hrun : ((watch parsed).run {
      transport := {
        deviceId := "00000000-0000-4000-8000-000000000001"
        uuid := [0, 0, 0, 0, 0, 0, 64, 0, 128, 0, 0, 0, 0, 0, 0, 1] } } [
      .onText (Utf8.encode helloAckText), control .turnStart,
      .sendPcm { flags := 3, ids := sampleIds } [0, 0] .available, control .turnCommit,
      .onText (Utf8.encode responseStartText), control .turnCancel]).map (fun w => w.log) =
    some [.sent .turnCommit, .text (.responseStart { sampleIds with stream := 9 }),
      .sent .turnCancel] := by
    simp only [Lts.Machine.run_cons, Lts.Machine.run_nil, watch, Option.bind_some, step_encode]
    decide +kernel
  obtain ⟨w, hw, hlog⟩ := Option.map_eq_some_iff.mp hrun
  have hreach : (watch parsed).Reachable w :=
    Lts.Machine.Reachable.run (.init ⟨⟨_, _, by decide +kernel, rfl⟩, rfl⟩) hw
  exact ⟨w, hreach, hlog, emission_law parsed hreach⟩

end BoomPI.Client.Transport
