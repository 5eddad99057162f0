import BoomPI.Server.Device.Hold

/-!
# The pacer and the turn it mirrors

The pacer belongs to the forwarder, the turn to the reader. The forwarder
compares the two only at the head of its loop and then may wait in its select
while the reader replaces the turn. As long as no `EventStarted` meets the
pacer of another turn, no error of the forwarder comes from it.
-/

namespace BoomPI.Device

open Backend (Error EventType)
open Protocol
open Transport (SendAt SendLabel TurnIdentity enqueue)
open BoomPI.Session (Event)

-- ---------------------------------------------------------------------------
-- Commits
-- ---------------------------------------------------------------------------

/-- A turn that is about to be stored has not been committed. -/
def HandleAt.Uncommitted (c : Conn) : HandleAt → Prop
  | .drawing turn _ | .starting turn _ _ => turn.sessionID = c.turn.sessionID
  | .started turn | .startStore turn =>
    turn.sessionID = c.turn.sessionID ∧ turn.epoch ∉ c.actor.committed ∧ turn.epoch ≠ 0
  | .flushing turn _ | .commitStore turn _ =>
    turn.epoch ∉ c.actor.committed ∧ turn.epoch ≤ c.actor.latest
  | _ => True

theorem uncommitted_of_calm {c : Conn} {h : HandleAt} (hc : h.calm = true) : h.Uncommitted c := by
  cases h <;> trivial

structure Commits (c : Conn) (h : HandleAt) : Prop where
  old : ∀ e ∈ c.actor.committed, e ≤ c.actor.latest
  begun : c.turn.active = true → c.turn.epoch ≤ c.actor.latest
  first : c.turn.active = true → c.turn.inputCommitted = false →
    c.turn.epoch ∉ c.actor.committed
  nonzero : c.turn.epoch ≠ 0
  place : h.Uncommitted c

variable {c c' : Conn} {h h' : HandleAt} {f f' : ForwardAt} {p p' : PacedDownlink}
  {turn : ActiveTurn} {P : List Event} {event : Event}

theorem identity_sessionID {t u : ActiveTurn} (h : t.identity = u.identity) :
    t.sessionID = u.sessionID := congrArg TurnIdentity.sessionID h

theorem HandleAt.Uncommitted.tame (hh : h.Uncommitted c) (ht : c.Tame c') : h.Uncommitted c' := by
  have hs := identity_sessionID ht.identity
  cases h with
  | drawing | starting => exact Eq.trans hh hs.symm
  | started | startStore => exact ⟨hh.1.trans hs.symm, ht.committed ▸ hh.2.1, hh.2.2⟩
  | flushing | commitStore => exact ⟨ht.committed ▸ hh.1, ht.latest ▸ hh.2⟩
  | _ => trivial

theorem Conn.Tame.wasActive (ht : c.Tame c') (ha : c'.turn.active = true) :
    c.turn.active = true := by
  cases hoff : c.turn.active with
  | true => rfl
  | false => rw [ht.active hoff] at ha; cases ha

theorem Commits.tame (hk : Commits c h) (ht : c.Tame c') (hp : h'.Uncommitted c') :
    Commits c' h' := by
  have he := identity_epoch ht.identity
  refine ⟨?_, fun ha => ?_, fun ha hi => ?_, ?_, hp⟩
  · rw [ht.committed, ht.latest]
    exact hk.old
  · rw [he, ht.latest]
    exact hk.begun (ht.wasActive ha)
  · rw [he, ht.committed]
    exact hk.first (ht.wasActive ha) (ht.inputCommitted ▸ hi)
  · rw [he]
    exact hk.nonzero

theorem Commits.reader (hk : Commits c h) (hh : Held c h) (hm : HandleMove c h c' h') :
    Commits c' h' := by
  have stay : c.Tame c := (Conn.Steady.refl c).tame
  have next : c.Tame c.count := (Conn.Steady.count c).tame
  have place := hk.place
  have holds := hh.holds
  cases hm with
  | calm _ hc hs => exact hk.tame hs.tame (uncommitted_of_calm hc)
  | draw => exact hk.tame stay rfl
  | drawn => exact hk.tame stay place
  | @started turn envelope downlinkStream hlt =>
    refine ⟨fun e he => Nat.le_trans (hk.old e he) (Nat.le_of_lt hlt),
      fun ha => Nat.le_trans (hk.begun ha) (Nat.le_of_lt hlt), hk.first, hk.nonzero, place,
      fun he => Nat.not_le_of_lt hlt (hk.old _ he), Nat.ne_of_gt (Nat.zero_lt_of_lt hlt)⟩
  | startStop => exact hk.tame ⟨rfl, id, rfl, rfl, rfl, rfl⟩ place
  | startStore =>
    exact ⟨hk.old, fun _ => Nat.le_of_eq holds.2.1, fun _ _ => place.2.1, place.2.2, trivial⟩
  | flush ha hi => exact hk.tame stay ⟨hk.first ha hi, hk.begun ha⟩
  | flushed => exact hk.tame stay place
  | notStarted hc | notFlushed hc | notRetired hc | fail hc =>
    exact hk.tame stay (uncommitted_of_calm hc)
  | @commitStore turn =>
    have he : turn.epoch = c.turn.epoch := identity_epoch holds.1
    refine ⟨fun e hm => ?_, fun _ => place.2, nofun, ?_, trivial⟩
    · rcases List.mem_cons.mp hm with rfl | hm
      · exact place.2
      · exact hk.old e hm
    · show turn.epoch ≠ 0
      rw [he]
      exact hk.nonzero
  | fenced => exact hk.tame (fence_tame c _) trivial
  | retire => exact hk.tame ⟨rfl, fun _ => rfl, rfl, rfl, rfl, rfl⟩ trivial
  | put hc => exact hk.tame ⟨rfl, id, rfl, rfl, rfl, rfl⟩ (uncommitted_of_calm hc)
  | retireStop => exact hk.tame ⟨rfl, id, rfl, rfl, rfl, rfl⟩ trivial
  | cancelled | retireSend | congested | rejected | farewell => exact hk.tame next trivial
  | _ => exact hk.tame stay trivial

-- ---------------------------------------------------------------------------
-- The events of a turn
-- ---------------------------------------------------------------------------

def firstOf (events : List Event) (epoch : Nat) : Option Event :=
  events.find? fun event => event.epoch = epoch

/-- What the actor may emit next: the deltas of a turn and its Done follow its Started
and carry its response ID. -/
def follows (before : List Event) (event : Event) : Bool :=
  match event.raw.type, firstOf before event.epoch with
  | .started, none => true
  | .started, some first => first.raw.type = .started
  | .textDelta, some first | .audio, some first | .done, some first =>
    first.raw.type = .started ∧ first.raw.responseID = event.raw.responseID
  | .textDelta, none | .audio, none | .done, none => false
  | .error, _ | .unknown _, _ => true

/-- The actor emits events of turns it was asked to commit, in order. -/
def disciplined (s : Sys) : Label → Bool
  | .emit event => event.epoch ∈ s.conn.actor.committed ∧ follows s.conn.actor.emitted event
  | _ => true

/-- No `EventStarted` of the active turn meets the pacer of another turn. -/
def unparked (s : Sys) : Label → Bool
  | .forward .next => match s.forward with
    | .received event =>
      ¬ (s.conn.turn.active ∧ event.epoch = s.conn.turn.epoch ∧ event.raw.type = .started) ∨
        s.pacer.epoch = 0 ∨ s.pacer.belongsTo s.conn.turn
    | _ => true
  | _ => true

def unmixed (s : Sys) (l : Label) : Bool := disciplined s l && unparked s l

theorem firstOf_append (before : List Event) (event : Event) (epoch : Nat) :
    firstOf (before ++ [event]) epoch =
      (firstOf before epoch).or (if event.epoch = epoch then some event else none) := by
  unfold firstOf
  rw [List.find?_append]
  by_cases he : event.epoch = epoch
  · simp [he]
  · simp [he]

theorem firstOf_none {events : List Event} {epoch : Nat}
    (hn : ∀ event ∈ events, event.epoch ≠ epoch) : firstOf events epoch = none := by
  refine List.find?_eq_none.mpr fun event hm => ?_
  simpa using hn event hm

-- ---------------------------------------------------------------------------
-- The pacer
-- ---------------------------------------------------------------------------

theorem belongsTo_iff : p.belongsTo turn = true ↔
    p.epoch ≠ 0 ∧ p.epoch = turn.epoch ∧ p.turnID = turn.turnID := by
  simp [PacedDownlink.belongsTo]

/-- `P` are the events the forwarder has dealt with. -/
structure Mirrors (c : Conn) (p : PacedDownlink) (P : List Event) : Prop where
  begun : p.epoch ≠ 0 → ∃ event ∈ P, event.epoch = p.epoch
  mirrors : c.turn.active = true → ∀ first, firstOf P c.turn.epoch = some first →
    first.raw.type = .started →
      p.belongsTo c.turn = true ∧ p.responseID = first.raw.responseID
  aligned : p.pending.length % pcmBytesPerSample = 0

/-- The pacer may be reset: it does not mirror the active turn. -/
def Idle (c : Conn) (P : List Event) : Prop :=
  c.turn.active = true → ∀ first, firstOf P c.turn.epoch = some first →
    first.raw.type ≠ .started

/-- The pacer belongs to the turn a job was made for. -/
def Paces (c : Conn) (p : PacedDownlink) (turn : ActiveTurn) : Prop :=
  p.belongsTo turn = true ∧ turn.sessionID = c.turn.sessionID

def Job.Mirrors (c : Conn) (p : PacedDownlink) (P : List Event) : Job → Prop
  | .control _ pcm => pcm.length % pcmBytesPerSample = 0
  | .frame turn payload _ => Paces c p turn ∧ payload.length % pcmBytesPerSample = 0
  | .done turn => Paces c p turn
  | .error => Idle c P

def ForwardAt.Mirrors (c : Conn) (p : PacedDownlink) (P : List Event) : ForwardAt → Prop
  | .frame => p.pending.length ≠ 0
  | .received _ => p.reads = true
  | .control _ _ pcm => pcm.length % pcmBytesPerSample = 0
  | .audio _ event => event.raw.pcm.length % pcmBytesPerSample = 0
  | .sending _ _ job | .failed job _ => job.Mirrors c p P
  | .finished turn => Paces c p turn
  | .errorStop _ | .finishedStop _ => Idle c P
  | _ => True

def ForwardAt.holding : ForwardAt → List Event
  | .received event => [event]
  | _ => []

theorem Mirrors.reset (p : PacedDownlink) (hi : Idle c P) : Mirrors c p.reset P :=
  ⟨fun h0 => absurd rfl h0, fun ha first hf hs => absurd hs (hi ha first hf), rfl⟩

theorem Mirrors.idle (hm : Mirrors c p P)
    (hn : c.turn.active = true → p.belongsTo c.turn = false) : Idle c P := by
  intro ha first hf hs
  have hb := (hm.mirrors ha first hf hs).1
  rw [hn ha] at hb
  cases hb

theorem Mirrors.idle_of_lost (hm : Mirrors c p P) (hp : Paces c p turn)
    (hn : sameActiveTurn c.turn turn = false) : Idle c P := by
  refine hm.idle fun ha => Bool.eq_false_iff.mpr fun hb => ?_
  obtain ⟨-, he, ht⟩ := belongsTo_iff.mp hb
  obtain ⟨⟨-, he', ht'⟩, hsession⟩ := hp.imp_left belongsTo_iff.mp
  have hsame : sameActiveTurn c.turn turn = true := by
    simp [sameActiveTurn, sameTurn, ha, hsession, ← he, ← ht, he', ht']
  rw [hn] at hsame
  cases hsame

theorem Mirrors.same (hm : Mirrors c p P) (he : p'.epoch = p.epoch) (ht : p'.turnID = p.turnID)
    (hr : p'.responseID = p.responseID)
    (ha : p'.pending.length % pcmBytesPerSample = 0) : Mirrors c p' P := by
  refine ⟨fun h0 => ?_, fun hon first hf hs => ?_, ha⟩
  · rw [he] at h0 ⊢
    exact hm.begun h0
  · obtain ⟨hb, hid⟩ := hm.mirrors hon first hf hs
    refine ⟨?_, hr.trans hid⟩
    rw [belongsTo_iff, he, ht]
    exact belongsTo_iff.mp hb

theorem aligned_append {xs ys : List UInt8} (hx : xs.length % pcmBytesPerSample = 0)
    (hy : ys.length % pcmBytesPerSample = 0) : (xs ++ ys).length % pcmBytesPerSample = 0 := by
  rw [List.length_append, Nat.add_mod, hx, hy]
  rfl

theorem aligned_payload (ha : p.pending.length % pcmBytesPerSample = 0) :
    p.payload.length % pcmBytesPerSample = 0 := by
  simp only [PacedDownlink.payload, List.length_take, pcmBytesPerSample, outputFrameBytes,
    outputSampleRateHz] at ha ⊢
  omega

theorem Mirrors.buffer {pcm : List UInt8} (hm : Mirrors c p P)
    (ha : pcm.length % pcmBytesPerSample = 0) :
    Mirrors c { p with pending := p.pending ++ pcm } P :=
  hm.same rfl rfl rfl (aligned_append hm.aligned ha)

theorem Mirrors.refresh (hm : Mirrors c p P) :
    Mirrors c (closeAligned (dropStale c.turn p)) P := by
  have dropped : Mirrors c (dropStale c.turn p) P := by
    unfold dropStale
    split
    · rename_i hd
      refine .reset p (hm.idle fun ha => ?_)
      exact Bool.eq_false_iff.mpr (hd.2.resolve_left fun hoff => hoff ha)
    · exact hm
  unfold closeAligned
  split
  · refine dropped.same rfl rfl rfl ?_
    rw [List.length_replicate, Nat.mod_self]
  · exact dropped

-- ---------------------------------------------------------------------------
-- One event
-- ---------------------------------------------------------------------------

/-- An event that changes nothing: of another turn, or no first event of this one. -/
theorem Mirrors.skip (hm : Mirrors c p P)
    (hs : c.turn.active = true → event.epoch = c.turn.epoch →
      firstOf P c.turn.epoch ≠ none ∨ event.raw.type ≠ .started) :
    Mirrors c p (P ++ [event]) := by
  refine ⟨fun h0 => ?_, fun ha first hf hstart => ?_, hm.aligned⟩
  · obtain ⟨ev, hev, he⟩ := hm.begun h0
    exact ⟨ev, List.mem_append_left _ hev, he⟩
  · rw [firstOf_append] at hf
    cases hfirst : firstOf P c.turn.epoch with
    | some first' =>
      rw [hfirst, Option.some_or] at hf
      cases hf
      exact hm.mirrors ha first hfirst hstart
    | none =>
      rw [hfirst, Option.none_or, Option.ite_none_right_eq_some] at hf
      obtain ⟨he, ⟨⟩⟩ := hf
      exact absurd hstart ((hs ha he).resolve_left fun hne => hne hfirst)

theorem Mirrors.begin (h0 : c.turn.epoch ≠ 0)
    (he : event.epoch = c.turn.epoch) (hn : firstOf P c.turn.epoch = none) :
    Mirrors c (p.begin c.turn event.raw.responseID) (P ++ [event]) := by
  refine ⟨fun _ => ⟨event, by simp, he⟩, fun _ first hf _ => ?_, rfl⟩
  rw [firstOf_append, hn, if_pos he] at hf
  cases hf
  exact ⟨belongsTo_iff.mpr ⟨h0, rfl, rfl⟩, rfl⟩

/-- What `follows` says of an event of the active turn. -/
theorem Mirrors.matches (hm : Mirrors c p P) (ha : c.turn.active = true)
    (he : event.epoch = c.turn.epoch) (hf : follows P event = true)
    (ht : event.raw.type = .textDelta ∨ event.raw.type = .audio ∨ event.raw.type = .done) :
    firstOf P c.turn.epoch ≠ none ∧ p.matches c.turn event.raw.responseID = true := by
  unfold follows at hf
  rw [he] at hf
  cases hfirst : firstOf P c.turn.epoch with
  | none =>
    rw [hfirst] at hf
    rcases ht with ht | ht | ht <;> rw [ht] at hf <;> cases hf
  | some first =>
    have hstart : first.raw.type = .started ∧ first.raw.responseID = event.raw.responseID := by
      rw [hfirst] at hf
      rcases ht with ht | ht | ht <;> rw [ht] at hf <;> simpa using hf
    obtain ⟨hb, hid⟩ := hm.mirrors ha first hfirst hstart.1
    refine ⟨nofun, ?_⟩
    simp [PacedDownlink.matches, hb, hid, hstart.2]

theorem forwardEvent_mirrors (hm : Mirrors c p P) (h0 : c.turn.epoch ≠ 0)
    (ha : c.turn.active = true) (he : event.epoch = c.turn.epoch) (hf : follows P event = true)
    (hc : event.raw.type = .started → p.epoch = 0 ∨ p.belongsTo c.turn = true) :
    Mirrors c (forwardEvent c p c.turn event).2.1 (P ++ [event]) ∧
      (forwardEvent c p c.turn event).2.2.Mirrors c (forwardEvent c p c.turn event).2.1
        (P ++ [event]) := by
  unfold forwardEvent
  split
  · rename_i ht
    split
    · rename_i hp
      refine ⟨hm.skip fun _ _ => .inl fun hn => ?_, trivial⟩
      obtain ⟨-, hpe, -⟩ := belongsTo_iff.mp ((hc ht).resolve_left hp)
      obtain ⟨ev, hev, hee⟩ := hm.begun hp
      have hnone := List.find?_eq_none.mp hn ev hev
      simp [hee, hpe] at hnone
    · rename_i hp
      refine ⟨.begin h0 he ?_, rfl⟩
      cases hfirst : firstOf P c.turn.epoch with
      | none => rfl
      | some first =>
        have hstart : first.raw.type = .started := by
          rw [follows, ht, he, hfirst] at hf
          simpa using hf
        exact absurd (belongsTo_iff.mp (hm.mirrors ha first hfirst hstart).1).1 hp
  · rename_i ht
    obtain ⟨hfirst, hmatch⟩ := hm.matches ha he hf (.inl ht)
    rw [if_neg (by simp [hmatch])]
    exact ⟨hm.skip fun _ _ => .inl hfirst, rfl⟩
  · rename_i ht
    obtain ⟨hfirst, hmatch⟩ := hm.matches ha he hf (.inr (.inl ht))
    split
    · exact ⟨hm.skip fun _ _ => .inl hfirst, trivial⟩
    · rename_i hvalid
      rw [if_neg (by simp [hmatch])]
      split
      · exact ⟨hm.skip fun _ _ => .inl hfirst, trivial⟩
      · refine ⟨hm.skip fun _ _ => .inl hfirst, ?_⟩
        unfold validateProviderAudio at hvalid
        split at hvalid
        · cases hvalid
        · rename_i hn
          simp only [not_or, Decidable.not_not] at hn
          exact hn.2.2.1
  · rename_i ht
    obtain ⟨hfirst, hmatch⟩ := hm.matches ha he hf (.inr (.inr ht))
    rw [if_neg (by simp [hmatch])]
    have hid : event.raw.responseID = p.responseID := by
      simp only [PacedDownlink.matches, Bool.decide_and, Bool.decide_eq_true, Bool.and_eq_true,
        decide_eq_true_eq] at hmatch
      exact hmatch.2.symm
    exact ⟨(hm.skip fun _ _ => .inl hfirst).same rfl rfl hid hm.aligned, trivial⟩
  · rename_i ht
    exact ⟨hm.skip fun _ _ => .inr (by rw [ht]; nofun), trivial⟩
  · rename_i ht
    exact ⟨hm.skip fun _ _ => .inr (by rw [ht]; nofun), trivial⟩

-- ---------------------------------------------------------------------------
-- The forwarder
-- ---------------------------------------------------------------------------

/-- How the turn may change while the pacer stays: it may end, or be replaced by one
without events. -/
structure Conn.Yields (P : List Event) (c c' : Conn) : Prop where
  session : c'.turn.sessionID = c.turn.sessionID
  turn : c'.turn.active = true →
    c.turn.active = true ∧ c'.turn.identity = c.turn.identity ∨
      ∀ event ∈ P, event.epoch ≠ c'.turn.epoch

theorem Conn.Tame.yields (ht : c.Tame c') : c.Yields P c' :=
  ⟨identity_sessionID ht.identity, fun ha => .inl ⟨ht.wasActive ha, ht.identity⟩⟩

theorem Mirrors.yields (hm : Mirrors c p P) (hy : c.Yields P c') : Mirrors c' p P := by
  refine ⟨hm.begun, fun ha first hf hs => ?_, hm.aligned⟩
  rcases hy.turn ha with ⟨hon, hid⟩ | hnone
  · have he := identity_epoch hid
    have ht : c'.turn.turnID = c.turn.turnID := congrArg TurnIdentity.turnID hid
    obtain ⟨hb, hr⟩ := hm.mirrors hon first (he ▸ hf) hs
    rw [belongsTo_iff, he, ht]
    exact ⟨belongsTo_iff.mp hb, hr⟩
  · rw [firstOf_none hnone] at hf
    cases hf

theorem Idle.yields (hi : Idle c P) (hy : c.Yields P c') : Idle c' P := by
  intro ha first hf
  rcases hy.turn ha with ⟨hon, hid⟩ | hnone
  · exact hi hon first (identity_epoch hid ▸ hf)
  · rw [firstOf_none hnone] at hf
    cases hf

theorem Paces.yields (hp : Paces c p turn) (hy : c.Yields P c') : Paces c' p turn :=
  ⟨hp.1, hp.2.trans hy.session.symm⟩

theorem Job.Mirrors.yields {job : Job} (hj : job.Mirrors c p P) (hy : c.Yields P c') :
    job.Mirrors c' p P := by
  cases job with
  | control => exact hj
  | frame => exact ⟨hj.1.yields hy, hj.2⟩
  | done => exact Paces.yields hj hy
  | error => exact Idle.yields hj hy

theorem ForwardAt.Mirrors.yields (hf : f.Mirrors c p P) (hy : c.Yields P c') :
    f.Mirrors c' p P := by
  cases f with
  | sending | failed => exact Job.Mirrors.yields hf hy
  | finished => exact Paces.yields hf hy
  | errorStop | finishedStop => exact Idle.yields hf hy
  | frame | received | control | audio => exact hf
  | _ => trivial

theorem writable_iff : writable turn p = true ↔ turn.active = true ∧ p.belongsTo turn = true := by
  simp [writable]

theorem Mirrors.idle_of_unwritable (hm : Mirrors c p P) (hn : ¬ writable c.turn p = true) :
    Idle c P :=
  hm.idle fun ha => Bool.eq_false_iff.mpr fun hb => hn (writable_iff.mpr ⟨ha, hb⟩)

/-- The pacer and the place a step of the forwarder leads to mirror the turn it leaves. -/
def Forwarded.Mirrors (P : List Event) (r : Forwarded) : Prop :=
  Device.Mirrors r.1 r.2.1 P ∧ r.2.2.Mirrors r.1 r.2.1 P

theorem finishPacedResponse_mirrors (hm : Mirrors c p P) :
    Forwarded.Mirrors P (finishPacedResponse c p) := by
  unfold finishPacedResponse
  split
  · rename_i hw
    have hy : c.Yields P c.count := (Conn.Steady.count c).tame.yields
    exact ⟨hm.yields hy, (writable_iff.mp hw).2, rfl⟩
  · rename_i hw
    exact ⟨.reset p (hm.idle_of_unwritable hw), trivial⟩

theorem sendNextPacedFrame_mirrors (hm : Mirrors c p P) (hp : p.pending.length ≠ 0) :
    Forwarded.Mirrors P (sendNextPacedFrame c p) := by
  unfold sendNextPacedFrame
  split
  · rename_i hn
    exact ⟨.reset p (hm.idle_of_unwritable (hn.resolve_left hp)), trivial⟩
  · rename_i hn
    have hw := (writable_iff.mp (Decidable.not_not.mp (not_or.mp hn).2)).2
    have hy : c.Yields P (c.setTurn { c.turn with
        outputSequence := uint32 (c.turn.outputSequence + 1) }) :=
      Conn.Tame.yields ⟨rfl, id, rfl, rfl, rfl, rfl⟩
    dsimp only
    split
    · exact ⟨hm.yields hy, ⟨hw, rfl⟩, aligned_payload hm.aligned⟩
    · exact ⟨hm.yields hy, ⟨hw, rfl⟩, aligned_payload hm.aligned⟩

theorem forwardAudio_mirrors (hm : Mirrors c p P)
    (ha : event.raw.pcm.length % pcmBytesPerSample = 0) :
    Forwarded.Mirrors P (forwardAudio c p turn event) := by
  unfold forwardAudio
  split
  · exact ⟨hm, trivial⟩
  · have hy : c.Yields P (c.setTurn { c.turn with outputStarted := true }) :=
      Conn.Tame.yields ⟨rfl, id, rfl, rfl, rfl, rfl⟩
    dsimp only
    split
    · exact ⟨(hm.buffer ha).yields hy, trivial⟩
    · exact ⟨hm.yields hy, ha⟩

theorem sendControlIfActive_mirrors {body : Body} {pcm : List UInt8} (hm : Mirrors c p P)
    (ha : pcm.length % pcmBytesPerSample = 0) :
    Forwarded.Mirrors P (sendControlIfActive c p turn body pcm) := by
  unfold sendControlIfActive
  split
  · exact ⟨hm.yields (Conn.Steady.count c).tame.yields, ha⟩
  · exact ⟨hm.buffer ha, trivial⟩

theorem afterSend_mirrors {job : Job} (hm : Mirrors c p P) (hj : job.Mirrors c p P) :
    Mirrors c (afterSend c p job).1 P ∧
      (afterSend c p job).2.Mirrors c (afterSend c p job).1 P := by
  cases job with
  | control turn pcm => exact ⟨hm.buffer hj, trivial⟩
  | frame turn payload final =>
    refine ⟨hm.same rfl rfl rfl ?_, ?_⟩
    · have ha := hm.aligned
      have hb := hj.2
      simp only [afterSend, List.length_drop, pcmBytesPerSample] at ha hb ⊢
      omega
    · unfold afterSend
      dsimp only
      split <;> trivial
  | done turn => exact ⟨hm, hj⟩
  | error => exact ⟨.reset p hj, trivial⟩

theorem afterFailure_mirrors {job : Job} {err : Error} (hm : Mirrors c p P)
    (hj : job.Mirrors c p P) :
    Mirrors c (afterFailure c p err job).1 P ∧
      (afterFailure c p err job).2.Mirrors c (afterFailure c p err job).1 P := by
  unfold afterFailure
  cases job with
  | control turn pcm =>
    dsimp only
    split
    · exact ⟨hm, trivial⟩
    · exact ⟨hm.buffer hj, trivial⟩
  | frame turn =>
    dsimp only
    split
    · exact ⟨hm, trivial⟩
    · exact ⟨.reset p (hm.idle_of_lost hj.1 (Bool.eq_false_iff.mpr ‹_›)), trivial⟩
  | done turn =>
    dsimp only
    split
    · exact ⟨hm, trivial⟩
    · exact ⟨.reset p (hm.idle_of_lost hj (Bool.eq_false_iff.mpr ‹_›)), trivial⟩
  | error => exact ⟨hm, trivial⟩

theorem idle_inactive (hn : c.turn.active = false) : Idle c P := fun ha => by
  rw [hn] at ha
  cases ha

theorem frameReady_pending (h : p.frameReady = true) : p.pending.length ≠ 0 := by
  rcases of_decide_eq_true h with hfull | hlast
  · exact Nat.ne_of_gt (Nat.lt_of_lt_of_le (by decide) hfull)
  · exact hlast.2

theorem forwardStep_mirrors {l : ForwardLabel} {r : Forwarded} (hm : Mirrors c p P)
    (hf : f.Mirrors c p P) (hq : f.holding = []) (hr : forwardStep c p f l = some r) :
    Forwarded.Mirrors P r := by
  cases f with
  | received event => cases hq
  | top =>
    cases l with
    | next =>
      cases hr
      refine ⟨hm.refresh, ?_⟩
      dsimp only
      split <;> trivial
    | _ => cases hr
  | finish =>
    cases l with
    | next =>
      cases hr
      exact finishPacedResponse_mirrors hm
    | _ => cases hr
  | pace =>
    cases l with
    | next =>
      simp only [forwardStep] at hr
      split at hr
      · cases hr
        exact ⟨hm, trivial⟩
      · rename_i hready _
        cases hr
        exact ⟨hm, frameReady_pending hready⟩
      · rename_i hready _
        cases hr
        refine ⟨hm, ?_⟩
        dsimp only
        split
        · exact frameReady_pending hready
        · trivial
    | _ => cases hr
  | frame =>
    cases l with
    | next =>
      cases hr
      exact sendNextPacedFrame_mirrors hm hf
    | _ => cases hr
  | selecting deadline =>
    cases l with
    | stopped =>
      simp only [forwardStep, Option.ite_none_right_eq_some] at hr
      obtain ⟨-, ⟨⟩⟩ := hr
      exact ⟨hm, trivial⟩
    | timer =>
      cases deadline with
      | none => cases hr
      | some deadline =>
        simp only [forwardStep, Option.ite_none_right_eq_some] at hr
        obtain ⟨-, ⟨⟩⟩ := hr
        exact ⟨hm, trivial⟩
    | event =>
      simp only [forwardStep] at hr
      split at hr
      · rename_i hreads _
        cases hr
        exact ⟨hm.yields (Conn.Tame.yields ⟨rfl, id, rfl, rfl, rfl, rfl⟩), hreads⟩
      · cases hr
    | closed =>
      simp only [forwardStep, Option.ite_none_right_eq_some] at hr
      obtain ⟨-, ⟨⟩⟩ := hr
      exact ⟨hm, trivial⟩
    | _ => cases hr
  | control turn body pcm =>
    cases l with
    | next =>
      cases hr
      exact sendControlIfActive_mirrors hm hf
    | _ => cases hr
  | audio turn event =>
    cases l with
    | next =>
      cases hr
      exact forwardAudio_mirrors hm hf
    | _ => cases hr
  | error turn =>
    cases l with
    | next =>
      simp only [forwardStep] at hr
      split at hr
      · cases hr
        exact ⟨hm.yields (Conn.Tame.yields ⟨rfl, fun _ => rfl, rfl, rfl, rfl, rfl⟩),
          idle_inactive rfl⟩
      · cases hr
        exact ⟨hm, trivial⟩
    | _ => cases hr
  | errorStop turn =>
    cases l with
    | next =>
      cases hr
      have hy : c.Yields P (c.stop turn.downlinkCtx).count :=
        Conn.Tame.yields ⟨rfl, id, rfl, rfl, rfl, rfl⟩
      exact ⟨hm.yields hy, Idle.yields hf hy⟩
    | _ => cases hr
  | sending s m job =>
    cases l with
    | send l =>
      rw [forwardStep, Option.map_eq_some_iff] at hr
      obtain ⟨result, -, rfl⟩ := hr
      cases result with
      | waiting => exact ⟨hm, hf⟩
      | queued =>
        obtain ⟨hm', hf'⟩ := afterSend_mirrors hm hf
        have hy : c.Yields P (c.put m) := Conn.Tame.yields ⟨rfl, id, rfl, rfl, rfl, rfl⟩
        exact ⟨hm'.yields hy, hf'.yields hy⟩
      | failed err => exact ⟨hm, hf⟩
    | _ => cases hr
  | failed job err =>
    cases l with
    | next =>
      cases hr
      exact afterFailure_mirrors hm hf
    | _ => cases hr
  | finished turn =>
    cases l with
    | next =>
      simp only [forwardStep] at hr
      split at hr
      · cases hr
        exact ⟨hm.yields (Conn.Tame.yields ⟨rfl, fun _ => rfl, rfl, rfl, rfl, rfl⟩),
          idle_inactive rfl⟩
      · rename_i hlost
        cases hr
        exact ⟨.reset p (hm.idle_of_lost hf (Bool.eq_false_iff.mpr hlost)), trivial⟩
    | _ => cases hr
  | finishedStop turn =>
    cases l with
    | next =>
      cases hr
      exact ⟨.reset p (Idle.yields hf (Conn.Tame.yields ⟨rfl, id, rfl, rfl, rfl, rfl⟩)), trivial⟩
    | _ => cases hr
  | exited err => cases hr

theorem received_mirrors {l : ForwardLabel} {r : Forwarded} (hm : Mirrors c p P)
    (h0 : c.turn.epoch ≠ 0) (hlaw : follows P event = true)
    (hclear : c.turn.active = true → event.epoch = c.turn.epoch → event.raw.type = .started →
      p.epoch = 0 ∨ p.belongsTo c.turn = true)
    (hr : forwardStep c p (.received event) l = some r) :
    Forwarded.Mirrors (P ++ [event]) r := by
  cases l with
  | next =>
    simp only [forwardStep] at hr
    split at hr
    · rename_i hn
      cases hr
      refine ⟨hm.skip fun ha he => ?_, trivial⟩
      exact absurd he (hn.resolve_left fun hoff => hoff ha)
    · rename_i hn
      simp only [not_or, Decidable.not_not] at hn
      cases hr
      have hc : (forwardEvent c p c.turn event).1 = c := (forwardEvent_calm ..).1
      rw [Forwarded.Mirrors, hc]
      exact forwardEvent_mirrors hm h0 hn.1 hn.2 hlaw (hclear hn.1 hn.2)
  | _ => cases hr

-- ---------------------------------------------------------------------------
-- The session
-- ---------------------------------------------------------------------------

theorem HandleMove.yields (hk : Commits c h) (hh : Held c h)
    (hp : ∀ event ∈ P, event.epoch ∈ c.actor.committed) (hm : HandleMove c h c' h') :
    c.Yields P c' := by
  have place := hk.place
  cases hm with
  | calm _ _ hc => exact hc.tame.yields
  | startStore =>
    exact ⟨place.1, fun _ => .inr fun event hev he => place.2.1 (he ▸ hp event hev)⟩
  | commitStore =>
    exact ⟨identity_sessionID hh.holds.1,
      fun _ => .inr fun event hev he => place.1 (he ▸ hp event hev)⟩
  | fenced => exact (fence_tame c _).yields
  | retire => exact Conn.Tame.yields ⟨rfl, fun _ => rfl, rfl, rfl, rfl, rfl⟩
  | _ => exact ⟨rfl, fun ha => .inl ⟨ha, rfl⟩⟩

theorem HandleMove.events (hm : HandleMove c h c' h') :
    c'.actor.emitted = c.actor.emitted ∧ c'.actor.events = c.actor.events ∧
      ∀ e ∈ c.actor.committed, e ∈ c'.actor.committed := by
  cases hm with
  | calm _ _ _ ha =>
    rw [ha]
    exact ⟨rfl, rfl, fun _ => id⟩
  | commitStore => exact ⟨rfl, rfl, fun _ => List.mem_cons_of_mem _⟩
  | fenced =>
    unfold fence
    split <;> exact ⟨rfl, rfl, fun _ => id⟩
  | _ => exact ⟨rfl, rfl, fun _ => id⟩

def Forwarded.Quiet (c : Conn) (r : Forwarded) : Prop :=
  r.1.actor = c.actor ∧ r.2.2.holding = []

theorem finishPacedResponse_quiet : Forwarded.Quiet c (finishPacedResponse c p) := by
  unfold finishPacedResponse
  split <;> exact ⟨rfl, rfl⟩

theorem sendNextPacedFrame_quiet : Forwarded.Quiet c (sendNextPacedFrame c p) := by
  unfold sendNextPacedFrame
  split
  · exact ⟨rfl, rfl⟩
  · dsimp only
    split <;> exact ⟨rfl, rfl⟩

theorem forwardEvent_quiet : Forwarded.Quiet c (forwardEvent c p turn event) := by
  unfold forwardEvent
  repeat' split
  all_goals exact ⟨rfl, rfl⟩

theorem forwardAudio_quiet : Forwarded.Quiet c (forwardAudio c p turn event) := by
  unfold forwardAudio
  split
  · exact ⟨rfl, rfl⟩
  · dsimp only
    split <;> exact ⟨rfl, rfl⟩

theorem sendControlIfActive_quiet {body : Body} {pcm : List UInt8} :
    Forwarded.Quiet c (sendControlIfActive c p turn body pcm) := by
  unfold sendControlIfActive
  split <;> exact ⟨rfl, rfl⟩

theorem afterSend_holding {job : Job} : (afterSend c p job).2.holding = [] := by
  cases job with
  | frame turn payload final => cases final <;> rfl
  | _ => rfl

theorem afterFailure_holding {job : Job} {err : Error} :
    (afterFailure c p err job).2.holding = [] := by
  unfold afterFailure
  repeat' split
  all_goals rfl

theorem forwardStep_events {l : ForwardLabel} {r : Forwarded}
    (hr : forwardStep c p f l = some r) :
    Forwarded.Quiet c r ∨ ∃ event events, c.actor.events = event :: events ∧
      r.1.actor = { c.actor with events } ∧ r.2.2 = .received event ∧ f.holding = [] := by
  unfold forwardStep at hr
  split at hr
  case h_7 =>
    split at hr
    · rename_i heq
      cases hr
      exact .inr ⟨_, _, heq, rfl, rfl, rfl⟩
    · cases hr
  all_goals refine .inl ?_
  case h_1 =>
    cases hr
    refine ⟨rfl, ?_⟩
    dsimp only
    split <;> rfl
  case h_2 => cases hr; exact finishPacedResponse_quiet
  case h_3 =>
    split at hr <;> cases hr
    · exact ⟨rfl, rfl⟩
    · exact ⟨rfl, rfl⟩
    · refine ⟨rfl, ?_⟩
      dsimp only
      split <;> rfl
  case h_4 => cases hr; exact sendNextPacedFrame_quiet
  case h_9 =>
    split at hr <;> cases hr
    · exact ⟨rfl, rfl⟩
    · exact forwardEvent_quiet
  case h_10 => cases hr; exact sendControlIfActive_quiet
  case h_11 => cases hr; exact forwardAudio_quiet
  case h_14 =>
    rw [Option.map_eq_some_iff] at hr
    obtain ⟨result, -, rfl⟩ := hr
    cases result with
    | queued => exact ⟨rfl, afterSend_holding⟩
    | _ => exact ⟨rfl, rfl⟩
  case h_15 => cases hr; exact ⟨rfl, afterFailure_holding⟩
  all_goals
    repeat' split at hr
    all_goals first | (cases hr; exact ⟨rfl, rfl⟩) | cases hr

structure Unmixed (s : Sys) : Prop where
  commits : Commits s.conn s.handle
  orderly : ∀ before event after, s.conn.actor.emitted = before ++ event :: after →
    follows before event = true
  issued : ∀ event ∈ s.conn.actor.emitted, event.epoch ∈ s.conn.actor.committed
  mirrors : ∃ P, s.conn.actor.emitted = P ++ s.forward.holding ++ s.conn.actor.events ∧
    Mirrors s.conn s.pacer P ∧ s.forward.Mirrors s.conn s.pacer P

theorem Unmixed.reader {s t : Sys} (hi : Unmixed s) (hk : Known s)
    (hm : HandleMove s.conn s.handle t.conn t.handle) (hf : t.forward = s.forward)
    (hp : t.pacer = s.pacer) : Unmixed t := by
  obtain ⟨hemitted, hevents, hcommitted⟩ := hm.events
  obtain ⟨P, hP, hmir, hplace⟩ := hi.mirrors
  have hold : ∀ event ∈ P, event.epoch ∈ s.conn.actor.committed := fun event he =>
    hi.issued event (by rw [hP]; simp [he])
  have hy := hm.yields hi.commits hk.held hold
  refine ⟨hi.commits.reader hk.held hm, hemitted ▸ hi.orderly,
    fun event he => hcommitted _ (hi.issued event (hemitted ▸ he)), P, ?_, ?_, ?_⟩
  · rw [hemitted, hevents, hf]
    exact hP
  · rw [hp]
    exact hmir.yields hy
  · rw [hp, hf]
    exact hplace.yields hy

theorem Unmixed.forwarder {l : ForwardLabel} {s t : Sys} (hi : Unmixed s)
    (hclear : unparked s (.forward l) = true)
    (hr : forwardStep s.conn s.pacer s.forward l = some (t.conn, t.pacer, t.forward))
    (hm : ForwardMove s.conn s.forward t.conn t.forward) (hh : t.handle = s.handle) :
    Unmixed t := by
  obtain ⟨P, hP, hmir, hplace⟩ := hi.mirrors
  have ht := hm.tame
  have hcommits : Commits t.conn t.handle := by
    rw [hh]
    exact hi.commits.tame ht (hi.commits.place.tame ht)
  have hnext : Forwarded.Mirrors (P ++ s.forward.holding) (t.conn, t.pacer, t.forward) := by
    cases hq : s.forward with
    | received event =>
      rw [hq] at hr hP
      refine received_mirrors hmir hi.commits.nonzero
        (hi.orderly P event s.conn.actor.events (by simpa [ForwardAt.holding] using hP)) ?_ hr
      cases l with
      | next => simpa [unparked, hq, imp_iff_not_or, or_assoc] using hclear
      | _ => cases hr
    | _ =>
      rw [hq] at hr hplace
      show Forwarded.Mirrors (P ++ []) _
      rw [List.append_nil]
      exact forwardStep_mirrors hmir hplace rfl hr
  have hsplit : t.conn.actor.emitted = s.conn.actor.emitted ∧
      t.conn.actor.committed = s.conn.actor.committed ∧ t.conn.actor.emitted =
        P ++ s.forward.holding ++ t.forward.holding ++ t.conn.actor.events := by
    rcases forwardStep_events hr with ⟨hactor, hhold⟩ | ⟨event, events, heq, hactor, hrec, hhold⟩
    · dsimp only at hactor hhold
      rw [hactor, hhold, hP]
      simp
    · dsimp only at hactor hrec
      rw [hactor, hrec, hP, heq, hhold]
      simp [ForwardAt.holding]
  refine ⟨hcommits, hsplit.1 ▸ hi.orderly, ?_, P ++ s.forward.holding, hsplit.2.2, hnext⟩
  rw [hsplit.1, hsplit.2.1]
  exact hi.issued

theorem Unmixed.outside {s t : Sys} (hi : Unmixed s) (hc : s.conn.Steady t.conn)
    (hemitted : t.conn.actor.emitted = s.conn.actor.emitted)
    (hevents : t.conn.actor.events = s.conn.actor.events) (hh : t.handle = s.handle)
    (hf : t.forward = s.forward) (hp : t.pacer = s.pacer) : Unmixed t := by
  obtain ⟨P, hP, hmir, hplace⟩ := hi.mirrors
  refine ⟨?_, hemitted ▸ hi.orderly, ?_, P, ?_, ?_, ?_⟩
  · rw [hh]
    exact hi.commits.tame hc.tame (hi.commits.place.tame hc.tame)
  · rw [hemitted, hc.committed]
    exact hi.issued
  · rw [hemitted, hevents, hf]
    exact hP
  · rw [hp]
    exact hmir.yields hc.tame.yields
  · rw [hp, hf]
    exact hplace.yields hc.tame.yields

theorem Unmixed.emit {s t : Sys} (hi : Unmixed s) (hclear : disciplined s (.emit event) = true)
    (hs : step s (.emit event) = some t) : Unmixed t := by
  rw [step] at hs
  split at hs
  · cases hs
  cases hs
  obtain ⟨hcommitted, hfollows⟩ := of_decide_eq_true hclear
  obtain ⟨P, hP, hmir, hplace⟩ := hi.mirrors
  have hy {c' : Conn} (hc : s.conn.Tame c') : s.conn.Yields P c' := hc.yields
  refine ⟨hi.commits.tame ⟨rfl, id, rfl, rfl, rfl, rfl⟩
      (hi.commits.place.tame ⟨rfl, id, rfl, rfl, rfl, rfl⟩), fun before ev after heq => ?_,
    fun ev hev => ?_, P, ?_, hmir.yields (hy ⟨rfl, id, rfl, rfl, rfl, rfl⟩),
    hplace.yields (hy ⟨rfl, id, rfl, rfl, rfl, rfl⟩)⟩
  · rcases Lts.log_split_snoc heq with ⟨-, rfl, rfl⟩ | ⟨mid, -, heq⟩
    · exact hfollows
    · exact hi.orderly before _ mid heq
  · rcases List.mem_append.mp hev with hev | hev
    · exact hi.issued ev hev
    · rw [List.mem_singleton.mp hev]
      exact hcommitted
  · show s.conn.actor.emitted ++ [event] = _
    rw [hP, List.append_assoc]

theorem Unmixed.step {s t : Sys} {l : Label} (hi : Unmixed s) (hk : Known s)
    (hclear : unmixed s l = true) (hs : step s l = some t) : Unmixed t := by
  rw [unmixed, Bool.and_eq_true] at hclear
  cases l with
  | emit event => exact hi.emit hclear.1 hs
  | handle l =>
    rw [Device.step, Option.map_eq_some_iff] at hs
    obtain ⟨r, hr, rfl⟩ := hs
    have hi' : Unmixed { s with conn := r.1, handle := r.2 } :=
      hi.reader hk (handle_move hr) rfl rfl
    exact hi'.outside (.stopWorker ..) rfl rfl rfl rfl rfl
  | forward l =>
    rw [Device.step, Option.map_eq_some_iff] at hs
    obtain ⟨r, hr, rfl⟩ := hs
    have hi' : Unmixed { s with conn := r.1, pacer := r.2.1, forward := r.2.2 } :=
      hi.forwarder hclear.2 hr (forward_move hk.speaks hr) rfl
    exact hi'.outside (.stopWorker ..) rfl rfl rfl rfl rfl
  | peer | writePump =>
    rw [Device.step] at hs
    split at hs <;> cases hs
    exact hi.outside ⟨rfl, rfl, rfl, rfl, rfl, rfl, rfl, rfl⟩ rfl rfl rfl rfl rfl
  | readPump =>
    rw [Device.step] at hs
    split at hs
    · cases hs
    · rw [Option.map_eq_some_iff] at hs
      obtain ⟨r, -, rfl⟩ := hs
      exact hi.outside ⟨rfl, rfl, rfl, rfl, rfl, rfl, rfl, rfl⟩ rfl rfl rfl rfl rfl
  | tick | closeEvents | disconnect | idle =>
    cases hs
    exact hi.outside ⟨rfl, rfl, rfl, rfl, rfl, rfl, rfl, rfl⟩ rfl rfl rfl rfl rfl

theorem unmixed_reachable {s : Sys}
    (h : machine.ReachableUnder (fun s l => unmixed s l = true) s) : Unmixed s := by
  refine h.invariant_with (I := Unmixed) (fun _ => known) ?_
    fun s l t hk _ hi hc hs => hi.step hk hc hs
  rintro s ⟨deviceID, deviceUUID, sessionID, -, -, -, -, rfl⟩
  exact ⟨⟨nofun, nofun, nofun, Nat.one_ne_zero, trivial⟩, fun before event after heq => by
    simp [opened, Conn.put, Conn.count] at heq, nofun, [], rfl,
    ⟨fun h0 => absurd rfl h0, nofun, rfl⟩, trivial⟩

-- ---------------------------------------------------------------------------
-- Errors of the forwarder
-- ---------------------------------------------------------------------------

/-- The error of a step of the forwarder that has nothing to do with an earlier turn. -/
inductive Cause (s : Sys) (err : Error) : Prop
  /-- a send failed: its message does not encode, or its context is done -/
  | send {job} : s.forward = .failed job err → Cause s err
  | closed {deadline} : s.forward = .selecting deadline → s.conn.actor.eventsClosed = true →
      Cause s err
  | audio {event : Event} : s.forward = .received event →
      validateProviderAudio event.raw.sampleRateHz event.raw.pcm = some err → Cause s err
  /-- two EventStarted of one turn -/
  | duplicate {event first : Event} {before after} : s.forward = .received event →
      s.conn.actor.emitted = before ++ event :: after → event.raw.type = .started →
      first ∈ before → first.epoch = event.epoch → first.raw.type = .started → Cause s err

theorem firstOf_some {events : List Event} {epoch : Nat} {first : Event}
    (hf : firstOf events epoch = some first) : first ∈ events ∧ first.epoch = epoch :=
  ⟨List.mem_of_find?_eq_some hf, by simpa using List.find?_some hf⟩

theorem Mirrors.started (hm : Mirrors c p P) (hp : p.epoch ≠ 0)
    (hb : p.belongsTo c.turn = true) : ∃ first, firstOf P c.turn.epoch = some first := by
  obtain ⟨-, hpe, -⟩ := belongsTo_iff.mp hb
  obtain ⟨ev, hev, hee⟩ := hm.begun hp
  cases hf : firstOf P c.turn.epoch with
  | some first => exact ⟨first, rfl⟩
  | none =>
    have hnone := List.find?_eq_none.mp hf ev hev
    simp [hee, hpe] at hnone

/-- An `EventStarted` that meets a pacer in use is the second one of its turn. -/
theorem Unmixed.second_started {s : Sys} (hi : Unmixed s) (hq : s.forward = .received event)
    (he : event.epoch = s.conn.turn.epoch) (ht : event.raw.type = .started)
    (hclear : s.pacer.epoch = 0 ∨ s.pacer.belongsTo s.conn.turn = true)
    (hp : s.pacer.epoch ≠ 0) :
    ∃ before after first, s.conn.actor.emitted = before ++ event :: after ∧ first ∈ before ∧
      first.epoch = event.epoch ∧ first.raw.type = .started := by
  obtain ⟨P, hP, hm, -⟩ := hi.mirrors
  rw [hq] at hP
  have hsplit : s.conn.actor.emitted = P ++ event :: s.conn.actor.events := by
    simpa [ForwardAt.holding] using hP
  have hf := hi.orderly _ _ _ hsplit
  obtain ⟨first, hfirst⟩ := hm.started hp (hclear.resolve_left hp)
  obtain ⟨hmem, hepoch⟩ := firstOf_some hfirst
  refine ⟨P, s.conn.actor.events, first, hsplit, hmem, hepoch.trans he.symm, ?_⟩
  rw [follows, ht, he, hfirst] at hf
  simpa using hf

/-- An event of the active turn fails only for what it is itself. -/
theorem Unmixed.event_cause {s : Sys} (hi : Unmixed s) (hq : s.forward = .received event)
    (ha : s.conn.turn.active = true) (he : event.epoch = s.conn.turn.epoch)
    (hclear : event.raw.type = .started →
      s.pacer.epoch = 0 ∨ s.pacer.belongsTo s.conn.turn = true) {err : Error}
    (hx : (forwardEvent s.conn s.pacer s.conn.turn event).2.2 = .exited (some err)) :
    Cause s err := by
  obtain ⟨P, hP, hm, hplace⟩ := hi.mirrors
  rw [hq] at hP hplace
  have hsplit : s.conn.actor.emitted = P ++ event :: s.conn.actor.events := by
    simpa [ForwardAt.holding] using hP
  have hf := hi.orderly _ _ _ hsplit
  unfold forwardEvent at hx
  split at hx
  · rename_i ht
    split at hx
    · rename_i hp
      obtain ⟨before, after, first, heq, hmem, hepoch, hstart⟩ :=
        hi.second_started hq he ht (hclear ht) hp
      exact .duplicate hq heq ht hmem hepoch hstart
    · cases hx
  · rename_i ht
    rw [if_neg (by simp [(hm.matches ha he hf (.inl ht)).2])] at hx
    cases hx
  · rename_i ht
    split at hx
    · rename_i hv
      cases hx
      exact .audio hq hv
    · rename_i hv
      obtain ⟨-, hmatch⟩ := hm.matches ha he hf (.inr (.inl ht))
      rw [if_neg (by simp [hmatch]), if_neg] at hx
      · cases hx
      -- the gate left room for one delta
      have hreads : s.pacer.reads = true := hplace
      have hlen : event.raw.pcm.length ≤ maxProviderAudioDeltaBytes := by
        unfold validateProviderAudio at hv
        split at hv
        · cases hv
        · rename_i hn
          simp only [not_or, Nat.not_lt] at hn
          exact hn.2.2.2
      have hp : s.pacer.epoch ≠ 0 := by
        have hb := (of_decide_eq_true hmatch).1
        exact (belongsTo_iff.mp hb).1
      have hgate := (of_decide_eq_true hreads).resolve_left hp
      have hmax : downlinkReadResumeBytes + maxProviderAudioDeltaBytes =
          downlinkMaxBufferedBytes := rfl
      omega
  · rename_i ht
    rw [if_neg (by simp [(hm.matches ha he hf (.inr (.inr ht))).2])] at hx
    cases hx
  · cases hx
  · cases hx

theorem finishPacedResponse_stays {err : Option Error} :
    (finishPacedResponse c p).2.2 ≠ .exited err := by
  unfold finishPacedResponse
  split <;> nofun

theorem sendNextPacedFrame_stays {err : Option Error} :
    (sendNextPacedFrame c p).2.2 ≠ .exited err := by
  unfold sendNextPacedFrame
  split
  · nofun
  · dsimp only
    split <;> nofun

theorem forwardAudio_stays {err : Option Error} :
    (forwardAudio c p turn event).2.2 ≠ .exited err := by
  unfold forwardAudio
  split
  · nofun
  · dsimp only
    split <;> nofun

theorem sendControlIfActive_stays {body : Body} {pcm : List UInt8} {err : Option Error} :
    (sendControlIfActive c p turn body pcm).2.2 ≠ .exited err := by
  unfold sendControlIfActive
  split <;> nofun

theorem afterSend_stays {job : Job} {err : Option Error} :
    (afterSend c p job).2 ≠ .exited err := by
  cases job with
  | frame turn payload final => cases final <;> nofun
  | _ => nofun

theorem afterFailure_exit {job : Job} {err err' : Error}
    (hx : (afterFailure c p err job).2 = .exited (some err')) : err' = err := by
  unfold afterFailure at hx
  repeat' split at hx
  all_goals cases hx <;> rfl

/-- The places from which the forwarder ends with an error. -/
theorem exit_of_step {l : ForwardLabel} {r : Forwarded} {err : Error}
    (hr : forwardStep c p f l = some r) (hx : r.2.2 = .exited (some err)) :
    (∃ job, f = .failed job err) ∨
    (∃ deadline, f = .selecting deadline ∧ c.actor.eventsClosed = true) ∨
    ∃ event, f = .received event ∧ l = .next ∧ c.turn.active = true ∧
      event.epoch = c.turn.epoch ∧ (forwardEvent c p c.turn event).2.2 = .exited (some err) := by
  unfold forwardStep at hr
  split at hr
  case h_1 =>
    cases hr
    dsimp only at hx
    split at hx <;> cases hx
  case h_2 =>
    cases hr
    exact absurd hx finishPacedResponse_stays
  case h_3 =>
    split at hr <;> cases hr
    · cases hx
    · cases hx
    · dsimp only at hx
      split at hx <;> cases hx
  case h_4 =>
    cases hr
    exact absurd hx sendNextPacedFrame_stays
  case h_8 =>
    rw [Option.ite_none_right_eq_some] at hr
    obtain ⟨hclosed, ⟨⟩⟩ := hr
    exact .inr (.inl ⟨_, rfl, hclosed.2.2⟩)
  case h_9 =>
    split at hr <;> cases hr
    · cases hx
    · rename_i hn
      simp only [not_or, Decidable.not_not] at hn
      exact .inr (.inr ⟨_, rfl, rfl, hn.1, hn.2, hx⟩)
  case h_10 =>
    cases hr
    exact absurd hx sendControlIfActive_stays
  case h_11 =>
    cases hr
    exact absurd hx forwardAudio_stays
  case h_14 =>
    rw [Option.map_eq_some_iff] at hr
    obtain ⟨result, -, rfl⟩ := hr
    cases result with
    | queued => exact absurd hx afterSend_stays
    | _ => cases hx
  case h_15 =>
    cases hr
    obtain rfl := afterFailure_exit hx
    exact .inl ⟨_, rfl⟩
  all_goals
    repeat' split at hr
    all_goals first | (cases hr; cases hx) | cases hr

theorem validateDownlinkPCM_payload (h0 : p.pending.length ≠ 0)
    (ha : p.pending.length % pcmBytesPerSample = 0) : validateDownlinkPCM p.payload = none := by
  have hmax : p.payload.length ≤ outputFrameBytes := by
    rw [PacedDownlink.payload, List.length_take]
    exact Nat.min_le_left _ _
  have hpos : p.payload.length ≠ 0 := by
    rw [PacedDownlink.payload, List.length_take]
    have : 0 < outputFrameBytes := by decide
    omega
  rw [validateDownlinkPCM, if_neg]
  simp only [not_or, Nat.not_lt, Decidable.not_not]
  exact ⟨hpos, hmax, aligned_payload ha⟩

/-- In every run in which no `EventStarted` meets the pacer of an earlier turn, no error
of the forwarder comes from an earlier turn, and the first `EventStarted` of the active
turn is forwarded. -/
theorem unmixed_errors {s t : Sys} {l : ForwardLabel}
    (h : machine.ReachableUnder (fun s l => unmixed s l = true) s)
    (hc : unmixed s (.forward l) = true) (hs : machine.step s (.forward l) = some t) :
    (∀ err, t.forward = .exited (some err) → Cause s err) ∧
    (s.forward = .frame → ∀ job err, t.forward ≠ .failed job err) ∧
    (∀ event, s.forward = .received event → s.conn.turn.active = true →
      event.epoch = s.conn.turn.epoch → event.raw.type = .started →
      (∀ before after, s.conn.actor.emitted = before ++ event :: after →
        ∀ first ∈ before, first.epoch = event.epoch → first.raw.type ≠ .started) →
      t.forward = .control s.conn.turn (.responseStart event.raw.responseID) []) := by
  have hi := unmixed_reachable h
  rw [unmixed, Bool.and_eq_true] at hc
  change step s (.forward l) = some t at hs
  rw [Device.step, Option.map_eq_some_iff] at hs
  obtain ⟨r, hr, rfl⟩ := hs
  have clear (event : Event) (hq : s.forward = .received event) (hl : l = .next)
      (ha : s.conn.turn.active = true) (he : event.epoch = s.conn.turn.epoch)
      (ht : event.raw.type = .started) :
      s.pacer.epoch = 0 ∨ s.pacer.belongsTo s.conn.turn = true := by
    subst hl
    simpa [unparked, hq, ha, he, ht] using hc.2
  refine ⟨fun err hx => ?_, fun hq job err hx => ?_, fun event hq ha he ht hfirst => ?_⟩
  · rcases exit_of_step hr hx with ⟨job, hf⟩ | ⟨deadline, hf, hclosed⟩ |
      ⟨event, hf, hl, ha, he, hx⟩
    · exact .send hf
    · exact .closed hf hclosed
    · exact hi.event_cause hf ha he (clear event hf hl ha he) hx
  · rw [hq] at hr
    obtain ⟨P, -, hm, hplace⟩ := hi.mirrors
    rw [hq] at hplace
    cases l with
    | next =>
      cases hr
      dsimp only at hx
      unfold sendNextPacedFrame at hx
      rw [validateDownlinkPCM_payload hplace hm.aligned] at hx
      split at hx <;> cases hx
    | _ => cases hr
  · rw [hq] at hr
    cases l with
    | next =>
      have hp : s.pacer.epoch = 0 := by
        by_contra hp
        obtain ⟨before, after, first, heq, hmem, hepoch, hstart⟩ :=
          hi.second_started hq he ht (clear event hq rfl ha he ht) hp
        exact hfirst before after heq first hmem hepoch hstart
      simp only [forwardStep, ha, he, not_true_eq_false, ne_eq, or_self, ↓reduceIte,
        Option.some.injEq] at hr
      subst hr
      simp [forwardEvent, ht, hp]
    | _ => cases hr

/-- Turn 1 is cancelled after its response.start and turn 2 is committed; `parked` says
what the forwarder does in between. -/
def twoTurns (parked : List Label) : List Label :=
  List.flatten [speaks 1, takes (responseStarted 1), offers, [.forward (.send .put)], parked,
    cancels 1, queues, speaks 2]

theorem unmixed_errors_secondTurn : ∃ s t,
    machine.ReachableUnder (fun s l => unmixed s l = true) s ∧
    s.conn.actor.emitted = [responseStarted 1, responseStarted 2] ∧
    machine.step s (.forward .next) = some t ∧
    t.forward = .control s.conn.turn (.responseStart "r") [] := by
  obtain ⟨s, hr, hp⟩ := machine.exists_of_runIf unmixed (fun _ _ h => h) session
    (List.flatten [twoTurns [],
      [.emit (responseStarted 2), .forward .next, .forward .next, .forward .event]])
    (fun s => s.conn.actor.emitted = [responseStarted 1, responseStarted 2] ∧
      s.forward = .received (responseStarted 2) ∧ s.conn.turn.active = true ∧
      s.conn.turn.epoch = 2 ∧ unmixed s (.forward .next) = true ∧
      (machine.step s (.forward .next)).isSome = true) session_init (by decide +kernel)
  obtain ⟨hemitted, hq, ha, he, hc, hstep⟩ := of_decide_eq_true hp
  obtain ⟨t, ht⟩ := Option.isSome_iff_exists.mp hstep
  refine ⟨s, t, hr, hemitted, ht,
    (unmixed_errors hr hc ht).2.2 _ hq ha he.symm rfl fun before after heq first hf hfirst => ?_⟩
  rw [hemitted] at heq
  rcases List.cons_eq_append_iff.mp heq with ⟨rfl, -⟩ | ⟨before', rfl, heq'⟩
  · cases hf
  · rcases List.cons_eq_append_iff.mp heq' with ⟨rfl, -⟩ | ⟨before'', rfl, heq''⟩
    · rw [List.mem_singleton.mp hf] at hfirst
      cases hfirst
    · simp at heq''

/-- The forwarder waits in its select with the pacer of turn 1 while the reader cancels
that turn and starts the next. -/
theorem started_meets_stale_pacer :
    ∃ s, machine.ReachableUnder (fun s l => disciplined s l = true) s ∧
      s.conn.actor.emitted = [responseStarted 1, responseStarted 2] ∧
      s.forward = .exited (some (.text "provider emitted duplicate response.start")) := by
  obtain ⟨s, hr, hp⟩ := machine.exists_of_runIf disciplined (fun _ _ h => h) session
    (List.flatten [twoTurns [.forward .next, .forward .next],
      [.emit (responseStarted 2), .forward .event, .forward .next]])
    (fun s => s.conn.actor.emitted = [responseStarted 1, responseStarted 2] ∧
      s.forward = .exited (some (.text "provider emitted duplicate response.start")))
    session_init (by decide +kernel)
  obtain ⟨hemitted, hexit⟩ := of_decide_eq_true hp
  exact ⟨s, hr, hemitted, hexit⟩

end BoomPI.Device
