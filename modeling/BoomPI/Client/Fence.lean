import BoomPI.Client.Backlog
import BoomPI.Client.Barge

/-!
# The cancel fence

What one connection has sent and handled, in order: turns begin with growing
identities, a turn is cancelled once at most, and no turn begins while a cancel
is unanswered. What the actor holds true of the transport's turn and of the
events that wait for it.
-/

namespace BoomPI.Client.VoiceClient

open BoomPI.Client.Transport (Emits Wanes Follows)

-- ---------------------------------------------------------------------------
-- The trace of a connection
-- ---------------------------------------------------------------------------

/-- A message the actor sent, or an event it handled. -/
inductive Entry
  | sent (kind : ControlKind) (ids : WireIds)
  | handled (event : QueuedEvent)
  deriving DecidableEq, Repr

def Effect.entry : Effect → Option Entry
  | .sent kind ids => some (.sent kind ids)
  | _ => none

/-- The control messages sent so far. -/
def sends (c : VoiceClient) : List Entry := c.effects.filterMap Effect.entry

/-- Notes of the connection at hand. An event is handled before anything is sent for it. -/
def noteTrace (trace : List Entry) (c : VoiceClient) (l : Label) (c' : VoiceClient) :
    List Entry :=
  match l with
  | .connect .. => []
  | .event _ =>
    trace ++ (c.events.head?.map Entry.handled).toList ++ c'.sends.drop c.sends.length
  | _ => trace ++ c'.sends.drop c.sends.length

def Entry.start : Entry → Option WireIds
  | .sent .turnStart ids => some ids
  | _ => none

def Entry.cancel : Entry → Option WireIds
  | .sent .turnCancel ids | .sent .responseCancel ids => some ids
  | _ => none

/-- The answers to a cancel: `kCancelled`, or an error that ends the turn. -/
def Entry.answers (turn : WireIds) : Entry → Bool
  | .handled (.inbound event) => event.ending.any (·.sameTurn turn)
  | _ => false

def starts (trace : List Entry) : List WireIds := trace.filterMap Entry.start
def cancels (trace : List Entry) : List WireIds := trace.filterMap Entry.cancel

def Entry.await (awaited : Option WireIds) (entry : Entry) : Option WireIds :=
  match entry.cancel with
  | some ids => some ids
  | none => awaited.filter fun ids => ! entry.answers ids

/-- The cancel that is not answered yet. -/
def awaited (trace : List Entry) : Option WireIds := trace.foldl Entry.await none

/-- Every identity of a later turn is greater. -/
def Below (i j : WireIds) : Prop := i.turn < j.turn ∧ i.stream < j.stream ∧ i.epoch < j.epoch

structure Told (trace : List Entry) : Prop where
  grow : (starts trace).Pairwise Below
  once : (cancels trace).Pairwise fun i j => i.turn < j.turn
  fence : ∀ before entry, before ++ [entry] <+: trace →
    entry.start.isSome = true ∨ entry.cancel.isSome = true → awaited before = none

variable {trace more : List Entry} {entry : Entry} {ids : WireIds}

@[simp] theorem starts_append : starts (trace ++ more) = starts trace ++ starts more :=
  List.filterMap_append

@[simp] theorem cancels_append : cancels (trace ++ more) = cancels trace ++ cancels more :=
  List.filterMap_append

theorem awaited_snoc : awaited (trace ++ [entry]) = entry.await (awaited trace) := by
  simp [awaited, List.foldl_append]

theorem Told.nil : Told [] := ⟨.nil, .nil, fun before entry h => by simp at h⟩

theorem Told.snoc (h : Told trace) (hgrow : ∀ i ∈ starts trace, ∀ j ∈ starts [entry], Below i j)
    (honce : ∀ i ∈ cancels trace, ∀ j ∈ cancels [entry], i.turn < j.turn)
    (hfence : entry.start.isSome = true ∨ entry.cancel.isSome = true → awaited trace = none) :
    Told (trace ++ [entry]) := by
  have hsingle {R : WireIds → WireIds → Prop} {f : Entry → Option WireIds} :
      ([entry].filterMap f).Pairwise R := by
    cases hf : f entry with
    | none => simp [hf]
    | some ids => simp [hf]
  refine ⟨?_, ?_, fun before other hpre hother => ?_⟩
  · rw [starts_append, List.pairwise_append]
    exact ⟨h.grow, hsingle, hgrow⟩
  · rw [cancels_append, List.pairwise_append]
    exact ⟨h.once, hsingle, honce⟩
  · rcases List.prefix_concat_iff.mp hpre with heq | hpre
    · obtain ⟨rfl, he⟩ := List.append_inj' heq rfl
      rw [(List.cons.inj he).1] at hother
      exact hfence hother
    · exact h.fence before other hpre hother

theorem Told.other (h : Told trace) (hs : entry.start = none) (hc : entry.cancel = none) :
    Told (trace ++ [entry]) :=
  h.snoc (by simp [starts, hs]) (by simp [cancels, hc]) (by simp [hs, hc])

theorem Told.awaits {before : List Entry} (h : Told trace) (hi : entry.cancel = some ids)
    (hpre : before ++ entry :: more <+: trace) (hnone : ∀ e ∈ more, e.answers ids = false) :
    awaited (before ++ entry :: more) = some ids := by
  induction more using List.reverseRecOn with
  | nil => simp [awaited_snoc, Entry.await, hi]
  | append_singleton more last ih =>
    have hsplit : before ++ entry :: (more ++ [last]) = (before ++ entry :: more) ++ [last] := by simp
    rw [hsplit] at hpre ⊢
    have hold := ih ((List.prefix_append _ _).trans hpre) fun e he => hnone e (by simp [he])
    have hlast : last.cancel = none := by
      by_contra hn
      have := h.fence _ last hpre (.inr (Option.isSome_iff_ne_none.mpr hn))
      rw [hold] at this
      cases this
    rw [awaited_snoc, hold, Entry.await, hlast]
    simp [hnone last]

-- ---------------------------------------------------------------------------
-- The actor and the transport
-- ---------------------------------------------------------------------------

def VoiceState.inTurn : VoiceState → Bool
  | .waitingForWake | .waitingForSpeech | .waitingForFollowUp => false
  | _ => true

def backlog (c : VoiceClient) : List Inbound := c.events.filterMap QueuedEvent.ofTurn

def helloAcks (c : VoiceClient) : List WireIds := c.events.filterMap QueuedEvent.helloAck

/-- A turn may begin: nothing waits and nothing can be emitted. -/
structure Ready (trace : List Entry) (t : Transport) (c : VoiceClient) : Prop where
  backlog : c.backlog = []
  inactive : t.active = false
  closed : t.responseDone = true → t.responseCancelSent = false
  turn : c.turnIds.turn = t.turn.turn + 1
  stream : c.turnIds.stream = t.turn.stream + 1
  awaited : awaited trace = none

structure InTurn (trace : List Entry) (t : Transport) (c : VoiceClient) : Prop where
  turn : c.turnIds = t.turn
  ordered : Ordered t c.backlog
  uncancelled : c.state ≠ .cancelPending → t.responseCancelSent = false ∧
    (∀ ids, .cancelled ids ∉ c.backlog) ∧ ∀ i ∈ cancels trace, i.turn < t.turn.turn
  draining : c.state = .drainingPlayback → c.backlog = [] ∧ t.active = false
  awaited : ∀ i, awaited trace = some i → c.state = .cancelPending ∧ i.sameTurn t.turn = true

structure Linked (trace : List Entry) (t : Transport) (c : VoiceClient) : Prop where
  follows : ∃ h, t.Follows h
  calm : t.active = true → t.responseDone = false
  starts : ∀ i ∈ starts trace, i.turn ≤ t.turn.turn ∧ i.stream ≤ t.turn.stream ∧ i.epoch ≤ t.turn.epoch
  cancels : ∀ i ∈ cancels trace, i.turn ≤ t.turn.turn
  acks : c.helloAcks.length ≤ 1 ∧ ∀ ids ∈ c.helloAcks, ids.session ≠ 0 ∧ ids.session = t.session

structure Offline (trace : List Entry) (t : Transport) (c : VoiceClient) : Prop where
  state : c.state = .waitingForWake
  backlog : c.backlog = []
  turn : t.turn = {}
  inactive : t.active = false
  responseDone : t.responseDone = false
  awaited : awaited trace = none

structure Online (t : Transport) (c : VoiceClient) : Prop where
  session : c.turnIds.session = t.session
  acks : c.helloAcks = []

def Phase (trace : List Entry) (t : Transport) (c : VoiceClient) : Prop :=
  if c.turnIds.session = 0 then Offline trace t c
  else Online t c ∧ if VoiceState.inTurn c.state then InTurn trace t c else Ready trace t c

def Law (trace : List Entry) (c : VoiceClient) : Prop :=
  Told trace ∧ match c.link with
  | none => c.turnIds = {} ∧ c.events = [] ∧ c.state = .waitingForWake
  | some link => Linked trace link.transport c ∧ Phase trace link.transport c

-- ---------------------------------------------------------------------------
-- What changes nothing of it
-- ---------------------------------------------------------------------------

structure SameStage (s t : Transport) : Prop where
  turn : t.turn = s.turn
  session : t.session = s.session
  active : t.active = s.active
  responseDone : t.responseDone = s.responseDone
  cancelSent : t.responseCancelSent = s.responseCancelSent
  follows : (∃ h, s.Follows h) → ∃ h, t.Follows h

def SameLink : Option Link → Option Link → Prop
  | none, none => True
  | some link, some link' => SameStage link.transport link'.transport
  | _, _ => False

structure Alike (c c' : VoiceClient) : Prop where
  link : SameLink c.link c'.link
  events : c'.events = c.events
  turnIds : c'.turnIds = c.turnIds
  state : c'.state = c.state

structure Still (c c' : VoiceClient) : Prop extends Alike c c' where
  sends : c'.sends = c.sends

variable {cfg : ClientConfig} {a : Answers} {c c' c'' : VoiceClient} {s t : Transport}
  {frame : CaptureFrame} {kind : ControlKind}

theorem SameStage.refl (t : Transport) : SameStage t t := ⟨rfl, rfl, rfl, rfl, rfl, id⟩

theorem SameStage.trans {u : Transport} (h : SameStage s t) (h' : SameStage t u) : SameStage s u :=
  ⟨h'.turn.trans h.turn, h'.session.trans h.session, h'.active.trans h.active,
    h'.responseDone.trans h.responseDone, h'.cancelSent.trans h.cancelSent,
    fun hf => h'.follows (h.follows hf)⟩

theorem SameLink.refl (link : Option Link) : SameLink link link := by
  cases link with
  | none => trivial
  | some link => exact SameStage.refl _

theorem SameLink.trans {k l m : Option Link} (h : SameLink k l) (h' : SameLink l m) :
    SameLink k m := by
  cases l with
  | none => cases k <;> cases m <;> trivial
  | some l =>
    cases k with
    | none => exact h.elim
    | some k =>
      cases m with
      | none => exact h'.elim
      | some m => exact SameStage.trans h h'

theorem Still.refl (c : VoiceClient) : Still c c := ⟨⟨.refl _, rfl, rfl, rfl⟩, rfl⟩

theorem Still.trans (h : Still c c') (h' : Still c' c'') : Still c c'' :=
  ⟨⟨h.link.trans h'.link, h'.events.trans h.events, h'.turnIds.trans h.turnIds,
    h'.state.trans h.state⟩, h'.sends.trans h.sends⟩

theorem Still.of_eq (hlink : c'.link = c.link) (hevents : c'.events = c.events)
    (hturn : c'.turnIds = c.turnIds) (hstate : c'.state = c.state) (hsends : c'.sends = c.sends) :
    Still c c' :=
  ⟨⟨hlink ▸ .refl _, hevents, hturn, hstate⟩, hsends⟩

theorem Alike.backlog (h : Alike c c') : c'.backlog = c.backlog := by
  rw [VoiceClient.backlog, h.events, VoiceClient.backlog]

theorem Alike.helloAcks (h : Alike c c') : c'.helloAcks = c.helloAcks := by
  rw [VoiceClient.helloAcks, h.events, VoiceClient.helloAcks]

theorem Ready.alike (hr : Ready trace s c) (hstage : SameStage s t) (hs : Alike c c') :
    Ready trace t c' where
  backlog := hs.backlog.trans hr.backlog
  inactive := hstage.active.trans hr.inactive
  closed := by
    rw [hstage.responseDone, hstage.cancelSent]
    exact hr.closed
  turn := by
    rw [hs.turnIds, hstage.turn]
    exact hr.turn
  stream := by
    rw [hs.turnIds, hstage.turn]
    exact hr.stream
  awaited := hr.awaited

theorem SameStage.ordered {events : List Inbound} (hstage : SameStage s t)
    (ho : Ordered s events) : Ordered t events :=
  ho.mono hstage.turn (fun ha => hstage.active ▸ ha)
    fun he => ⟨hstage.active.trans he.1, hstage.responseDone.trans he.2⟩

theorem InTurn.alike (hi : InTurn trace s c) (hstage : SameStage s t) (hs : Alike c c') :
    InTurn trace t c' where
  turn := hs.turnIds.trans (hi.turn.trans hstage.turn.symm)
  ordered := hs.backlog ▸ hstage.ordered hi.ordered
  uncancelled := by
    rw [hs.state, hs.backlog, hstage.cancelSent, hstage.turn]
    exact hi.uncancelled
  draining := by
    rw [hs.state, hs.backlog, hstage.active]
    exact hi.draining
  awaited := by
    rw [hs.state, hstage.turn]
    exact hi.awaited

theorem Offline.alike (ho : Offline trace s c) (hstage : SameStage s t) (hs : Alike c c') :
    Offline trace t c' :=
  ⟨hs.state.trans ho.state, hs.backlog.trans ho.backlog, hstage.turn.trans ho.turn,
    hstage.active.trans ho.inactive, hstage.responseDone.trans ho.responseDone, ho.awaited⟩

theorem Phase.alike (hp : Phase trace s c) (hstage : SameStage s t) (hs : Alike c c') :
    Phase trace t c' := by
  unfold Phase at hp ⊢
  rw [hs.turnIds, hs.state]
  split
  · rename_i hz
    rw [if_pos hz] at hp
    exact hp.alike hstage hs
  · rename_i hz
    rw [if_neg hz] at hp
    obtain ⟨⟨hsession, hnone⟩, hp⟩ := hp
    refine ⟨⟨?_, hs.helloAcks.trans hnone⟩, ?_⟩
    · rw [hs.turnIds, hsession, hstage.session]
    split
    · rename_i hin
      rw [if_pos hin] at hp
      exact hp.alike hstage hs
    · rename_i hout
      rw [if_neg hout] at hp
      exact hp.alike hstage hs

theorem Linked.alike (hl : Linked trace s c) (hstage : SameStage s t) (hs : Alike c c') :
    Linked trace t c' where
  follows := hstage.follows hl.follows
  calm := by
    rw [hstage.active, hstage.responseDone]
    exact hl.calm
  starts := by
    rw [hstage.turn]
    exact hl.starts
  cancels := by
    rw [hstage.turn]
    exact hl.cancels
  acks := by
    rw [hs.helloAcks, hstage.session]
    exact hl.acks

theorem Law.alike (hl : Law trace c) (hs : Alike c c') : Law trace c' := by
  obtain ⟨htold, hl⟩ := hl
  refine ⟨htold, ?_⟩
  have hlink := hs.link
  cases hc : c.link <;> cases hc' : c'.link <;> rw [hc, hc'] at hlink <;> rw [hc] at hl
  case none.none =>
    exact ⟨hs.turnIds.trans hl.1, hs.events.trans hl.2.1, hs.state.trans hl.2.2⟩
  case some.some => exact ⟨hl.1.alike hlink hs, hl.2.alike hlink hs⟩
  all_goals cases hlink

theorem Law.still (hl : Law trace c) (hs : Still c c') : Law trace c' := hl.alike hs.toAlike

theorem Linked.congr (hl : Linked trace t c) (hevents : c'.events = c.events) : Linked trace t c' :=
  { hl with acks := by rw [helloAcks, hevents]; exact hl.acks }

theorem Online.congr (ho : Online t c) (hevents : c'.events = c.events)
    (hsession : c'.turnIds.session = c.turnIds.session) : Online t c' :=
  ⟨hsession.trans ho.session, by rw [helloAcks, hevents]; exact ho.acks⟩

theorem Ready.congr (hr : Ready trace t c) (hevents : c'.events = c.events)
    (hturn : c'.turnIds = c.turnIds) : Ready trace t c' :=
  ⟨by rw [VoiceClient.backlog, hevents]; exact hr.backlog, hr.inactive, hr.closed,
    hturn ▸ hr.turn, hturn ▸ hr.stream, hr.awaited⟩

theorem Law.inTurn (hl : Law trace c) (hin : VoiceState.inTurn c.state = true) :
    ∃ link, c.link = some link ∧ Linked trace link.transport c ∧ c.turnIds.session ≠ 0 ∧
      Online link.transport c ∧ InTurn trace link.transport c := by
  obtain ⟨-, hl⟩ := hl
  cases hlink : c.link with
  | none =>
    rw [hlink] at hl
    rw [hl.2.2] at hin
    cases hin
  | some link =>
    rw [hlink] at hl
    obtain ⟨hl, hp⟩ := hl
    unfold Phase at hp
    split at hp
    · rw [hp.state] at hin
      cases hin
    · rename_i hsession
      exact ⟨link, rfl, hl, hsession, hp.1, hp.2⟩

theorem Law.of_inTurn {link : Link} (ht : Told trace) (hlink : c.link = some link)
    (hl : Linked trace link.transport c) (hsession : c.turnIds.session ≠ 0)
    (ho : Online link.transport c) (hin : VoiceState.inTurn c.state = true)
    (hi : InTurn trace link.transport c) : Law trace c := by
  refine ⟨ht, ?_⟩
  rw [hlink]
  refine ⟨hl, ?_⟩
  rw [Phase, if_neg hsession, if_pos hin]
  exact ⟨ho, hi⟩

theorem Law.ready (hl : Law trace c) (hout : VoiceState.inTurn c.state = false)
    (hsession : c.turnIds.session ≠ 0) :
    ∃ link, c.link = some link ∧ Linked trace link.transport c ∧
      Online link.transport c ∧ Ready trace link.transport c := by
  obtain ⟨-, hl⟩ := hl
  cases hlink : c.link with
  | none =>
    rw [hlink] at hl
    exact absurd (by rw [hl.1]) hsession
  | some link =>
    rw [hlink] at hl
    obtain ⟨hl, hp⟩ := hl
    rw [Phase, if_neg hsession, if_neg (by simp [hout])] at hp
    exact ⟨link, rfl, hl, hp.1, hp.2⟩

theorem Law.of_ready {link : Link} (ht : Told trace) (hlink : c.link = some link)
    (hl : Linked trace link.transport c) (hsession : c.turnIds.session ≠ 0)
    (ho : Online link.transport c) (hout : VoiceState.inTurn c.state = false)
    (hr : Ready trace link.transport c) : Law trace c := by
  refine ⟨ht, ?_⟩
  rw [hlink]
  refine ⟨hl, ?_⟩
  rw [Phase, if_neg hsession, if_neg (by simp [hout])]
  exact ⟨ho, hr⟩

theorem awaited_other {i : WireIds} (hc : entry.cancel = none)
    (h : awaited (trace ++ [entry]) = some i) : awaited trace = some i := by
  rw [awaited_snoc, Entry.await, hc] at h
  exact (Option.filter_eq_some_iff.mp h).1

theorem awaited_other_none (hc : entry.cancel = none) (h : awaited trace = none) :
    awaited (trace ++ [entry]) = none := by
  rw [awaited_snoc, Entry.await, hc, h]
  rfl

theorem Linked.other (hl : Linked trace t c) (hs : entry.start = none) (hc : entry.cancel = none) :
    Linked (trace ++ [entry]) t c :=
  { hl with
    starts := by simpa [VoiceClient.starts, hs] using hl.starts
    cancels := by simpa [VoiceClient.cancels, hc] using hl.cancels }

theorem InTurn.other (hi : InTurn trace t c) (hc : entry.cancel = none) :
    InTurn (trace ++ [entry]) t c :=
  { hi with
    uncancelled := by simpa [cancels, hc] using hi.uncancelled
    awaited := fun i hw => hi.awaited i (awaited_other hc hw) }

theorem Phase.other (hp : Phase trace t c) (hc : entry.cancel = none) :
    Phase (trace ++ [entry]) t c := by
  unfold Phase at hp ⊢
  split
  · rename_i hz
    rw [if_pos hz] at hp
    exact { hp with awaited := awaited_other_none hc hp.awaited }
  rename_i hz
  rw [if_neg hz] at hp
  obtain ⟨hon, hp⟩ := hp
  refine ⟨hon, ?_⟩
  split
  · rename_i hin
    rw [if_pos hin] at hp
    exact hp.other hc
  · rename_i hout
    rw [if_neg hout] at hp
    exact { hp with awaited := awaited_other_none hc hp.awaited }

theorem Law.other (hl : Law trace c) (hs : entry.start = none) (hc : entry.cancel = none) :
    Law (trace ++ [entry]) c := by
  obtain ⟨ht, hl⟩ := hl
  refine ⟨ht.other hs hc, ?_⟩
  cases hlink : c.link with
  | none =>
    rw [hlink] at hl
    exact hl
  | some link =>
    rw [hlink] at hl
    exact ⟨hl.1.other hs hc, hl.2.other hc⟩

def Steps (trace : List Entry) (c c' : VoiceClient) : Prop :=
  ∃ more, c'.sends = c.sends ++ more ∧ Law (trace ++ more) c'

theorem Law.steps (hl : Law trace c) (hs : Still c c') : Steps trace c c' :=
  ⟨[], by simp [hs.sends], by simpa using hl.still hs⟩

theorem Steps.trans (h : Steps trace c c') (h' : ∀ trace', Law trace' c' → Steps trace' c' c'') :
    Steps trace c c'' := by
  obtain ⟨more, hsends, hl⟩ := h
  obtain ⟨more', hsends', hl'⟩ := h' _ hl
  exact ⟨more ++ more', by rw [hsends', hsends, List.append_assoc], by rwa [← List.append_assoc]⟩

-- ---------------------------------------------------------------------------
-- Methods that change nothing of it
-- ---------------------------------------------------------------------------

theorem emit_still (effect : Effect) (he : Effect.entry effect = none) : Still c (c.emit effect) :=
  .of_eq rfl rfl rfl rfl (by simp [sends, emit, he])

theorem Still.emit (h : Still c c') (effect : Effect) (he : Effect.entry effect = none) :
    Still c (c'.emit effect) :=
  h.trans (emit_still effect he)

theorem resetListener_still : Still c (c.resetListener a) := by
  unfold resetListener
  split
  · exact .refl c
  · exact .of_eq rfl rfl rfl rfl rfl

theorem clearSubtitle_still : Still c c.clearSubtitle :=
  .of_eq rfl rfl rfl rfl (emit_still (.setText [] []) rfl).sends

theorem Still.clear (h : Still c c') : Still c c'.clearSubtitle := h.trans clearSubtitle_still

theorem showText_still (delta : String) : Still c (c.showText delta) := by
  unfold showText
  refine Still.emit ?_ _ rfl
  exact .of_eq rfl rfl rfl rfl rfl

theorem markFirstResponseProgress_still : Still c c.markFirstResponseProgress := by
  unfold markFirstResponseProgress
  dsimp only
  split
  · exact Still.clear (.of_eq rfl rfl rfl rfl rfl)
  · exact .of_eq rfl rfl rfl rfl rfl

theorem Still.of_effects (effects : List Effect) (hlink : c'.link = c.link)
    (hevents : c'.events = c.events) (hturn : c'.turnIds = c.turnIds) (hstate : c'.state = c.state)
    (heffects : c'.effects = c.effects ++ effects) (hnone : effects.filterMap Effect.entry = []) :
    Still c c' :=
  .of_eq hlink hevents hturn hstate (by simp [VoiceClient.sends, heffects, hnone])

theorem giveUp_still : Still c c.giveUp := by
  unfold giveUp resetBargeTurn resetBargeProbe setPlaybackScale emit
  exact .of_effects [.dropPlayback] rfl rfl rfl rfl rfl rfl

theorem admitBarge_still : Still c c.admitBarge := by
  unfold admitBarge clearSubtitle resetBargeProbe setPlaybackScale emit
  exact .of_effects [.dropPlayback, .setText [] []] rfl rfl rfl rfl (List.append_assoc ..) rfl

theorem bufferFrame_still (frame : CaptureFrame) : Still c (c.bufferFrame frame) := by
  unfold bufferFrame savePreRoll
  dsimp only
  repeat' split
  all_goals exact .of_eq rfl rfl rfl rfl rfl

theorem trackBargeUtterance_still : Still c (c.trackBargeUtterance frame) := by
  unfold trackBargeUtterance
  dsimp only
  repeat' split
  all_goals exact .of_eq rfl rfl rfl rfl rfl

theorem judgeBarge_still : Still c (c.judgeBarge cfg frame).2 := by
  unfold judgeBarge
  cases c.bargeProbe with
  | idle | waitReferenceLow | clear | verify =>
    dsimp only
    repeat' split
    all_goals exact .of_eq rfl rfl rfl rfl rfl

theorem loseConnection_spec : (c.loseConnection a).link = none ∧ (c.loseConnection a).events = [] ∧
    (c.loseConnection a).turnIds = {} ∧ (c.loseConnection a).state = .waitingForWake ∧
    (c.loseConnection a).effects = c.effects ++ [.dropPlayback, .setText [] [], .setState .offline] := by
  cases hr : a.resetListener
  all_goals simp [loseConnection, resetListener, hr, emit, clearSubtitle, resetBargeProbe,
    resetBargeTurn, setPlaybackScale]

/-- The connection is given up; its trace goes no further. -/
theorem loseConnection_law (ht : Told trace) : Law trace (c.loseConnection a) := by
  obtain ⟨hlink, hevents, hturn, hstate, -⟩ := loseConnection_spec (c := c) (a := a)
  refine ⟨ht, ?_⟩
  rw [hlink]
  exact ⟨hturn, hevents, hstate⟩

theorem loseConnection_steps (ht : Told trace) : Steps trace c (c.loseConnection a) := by
  obtain ⟨-, -, -, -, heffects⟩ := loseConnection_spec (c := c) (a := a)
  refine ⟨[], by simp [sends, heffects, Effect.entry], ?_⟩
  rw [List.append_nil]
  exact loseConnection_law ht

-- ---------------------------------------------------------------------------
-- Messages
-- ---------------------------------------------------------------------------

structure Sent (kind : ControlKind) (ids : WireIds) (c c' : VoiceClient) : Prop where
  link : ∃ link control, c.link = some link ∧ link.transport.admits control = some true ∧
    control.kind = kind ∧ control.ids = ids ∧
    c'.link = some { link with transport := link.transport.sent control }
  events : c'.events = c.events
  turnIds : c'.turnIds = c.turnIds
  state : c'.state = c.state
  sends : c'.sends = c.sends ++ [.sent kind ids]

theorem admits_unsent {control : Control} (h : s.admits control = some false) :
    control.kind = .responseCancel := by
  unfold Transport.admits at h
  split at h
  · cases h
  cases hk : control.kind with
  | responseCancel => rfl
  | _ =>
    simp only [hk] at h
    split at h <;> cases h

/-- Refused; not sent, as the response is cancelled already; or sent. -/
theorem sendControl_cases (cfg : ClientConfig) (kind : ControlKind) (ids : WireIds)
    (c : VoiceClient) :
    ((c.sendControl cfg kind ids).1 = false ∧ Still c (c.sendControl cfg kind ids).2) ∨
    ((c.sendControl cfg kind ids).1 = true ∧ kind = .responseCancel ∧
      Still c (c.sendControl cfg kind ids).2) ∨
    ((c.sendControl cfg kind ids).1 = true ∧ Sent kind ids c (c.sendControl cfg kind ids).2) := by
  unfold sendControl
  dsimp only
  split
  · exact .inl ⟨rfl, .of_eq rfl rfl rfl rfl rfl⟩
  rename_i link hlink
  dsimp only [checkQueueCapacity]
  generalize hcontrol : Control.mk kind _ ids _ = control
  obtain ⟨rfl, rfl⟩ : control.kind = kind ∧ control.ids = ids := by
    subst hcontrol
    exact ⟨rfl, rfl⟩
  generalize (if link.state = .connected then c.capacities.headD .available else .unavailable) =
    capacity
  rcases Transport.send_cases link.transport control capacity with
    ⟨result, hsend⟩ | ⟨hadmits, hsend⟩
  · rw [hsend]
    cases result with
    | false => exact .inl ⟨rfl, .of_eq rfl rfl rfl rfl rfl⟩
    | true =>
      refine .inr (.inl ⟨rfl, ?_, .of_eq rfl rfl rfl rfl rfl⟩)
      unfold Transport.send at hsend
      split at hsend
      · cases hsend
      · exact admits_unsent (by assumption)
      · split at hsend <;> cases hsend
  · rw [hsend]
    refine .inr (.inr ⟨rfl, ⟨link, control, hlink, hadmits, rfl, rfl, rfl⟩, rfl, rfl, rfl, ?_⟩)
    simp [sends, emit, Effect.entry]

theorem sameStage_sendPcm (header : Pcm64Header) (pcm : List UInt8) (capacity : QueueCapacity) :
    SameStage t (t.sendPcm header pcm capacity).2.2 := by
  refine ⟨?_, ?_, ?_, ?_, ?_, fun ⟨h, hf⟩ => ⟨h, (Transport.sendPcm_follows hf).1⟩⟩
  all_goals
    unfold Transport.sendPcm
    split
    · rfl
    · cases capacity <;> rfl

theorem sendAudio_still (last : Bool) : Still c (c.sendAudio frame last).2 := by
  unfold sendAudio
  dsimp only
  split
  · exact .refl c
  rename_i link hlink
  dsimp only [checkQueueCapacity]
  split
  · rename_i transport hsend
    refine Still.emit ?_ _ rfl
    refine ⟨⟨?_, rfl, rfl, rfl⟩, rfl⟩
    rw [hlink]
    have hstage : SameStage link.transport (_, _, transport).2.2 := hsend ▸ sameStage_sendPcm _ _ _
    exact hstage
  · exact .of_eq rfl rfl rfl rfl rfl

-- ---------------------------------------------------------------------------
-- Cancels
-- ---------------------------------------------------------------------------

theorem admits_cancel {control : Control} (h : t.admits control = some true)
    (hk : control.kind.cancellation = true) : control.ids.sameTurn t.turn = true := by
  unfold Transport.admits at h
  split at h
  · cases h
  cases hkind : control.kind with
  | turnCancel =>
    simp only [hkind, Option.ite_none_left_eq_some, not_or, Decidable.not_not] at h
    exact (Bool.and_eq_true_iff.mp h.1.2.2).1
  | responseCancel =>
    simp only [hkind, Option.ite_none_left_eq_some, not_or, Decidable.not_not] at h
    exact h.1.1
  | hello | turnStart | turnCommit =>
    rw [hkind] at hk
    cases hk

theorem sent_cancel {control : Control} (hk : control.kind.cancellation = true) :
    t.sent control = { t with responseCancelSent := true } := by
  unfold Transport.sent
  cases hkind : control.kind with
  | turnCancel | responseCancel => rfl
  | hello | turnStart | turnCommit =>
    rw [hkind] at hk
    cases hk

theorem Linked.sent {control : Control} {d : VoiceClient} (hl : Linked trace t c)
    (hk : control.kind ≠ .turnStart)
    (hturn : ∀ i, Entry.cancel (.sent control.kind control.ids) = some i → i.turn ≤ t.turn.turn)
    (hevents : d.events = c.events) :
    Linked (trace ++ [.sent control.kind control.ids]) (t.sent control) d := by
  obtain ⟨⟨h, hf⟩, hcalm, hstarts, hcancels, hacks⟩ := hl
  have hstart : VoiceClient.starts [.sent control.kind control.ids] = [] := by
    cases hkind : control.kind <;> first | rfl | exact absurd hkind hk
  have hsame : (t.sent control).turn = t.turn ∧ (t.sent control).active = t.active ∧
      (t.sent control).responseDone = t.responseDone ∧ (t.sent control).session = t.session := by
    unfold Transport.sent
    cases hkind : control.kind <;> first | exact ⟨rfl, rfl, rfl, rfl⟩ | exact absurd hkind hk
  obtain ⟨h', -, hf'⟩ := Transport.sent_follows hf hk
  refine ⟨⟨h', hf'⟩, ?_, ?_, ?_, ?_⟩
  · rw [hsame.2.1, hsame.2.2.1]
    exact hcalm
  · rw [starts_append, hstart, List.append_nil, hsame.1]
    exact hstarts
  · rw [cancels_append, hsame.1]
    intro i hi
    rcases List.mem_append.mp hi with hi | hi
    · exact hcancels i hi
    · simp only [VoiceClient.cancels, List.mem_filterMap, List.mem_singleton] at hi
      obtain ⟨_, rfl, hi⟩ := hi
      exact hturn i hi
  · rw [helloAcks, hevents, hsame.2.2.2]
    exact hacks

theorem cancelled_law {d : VoiceClient} {deadline : Nat} (hk : kind.cancellation = true)
    (hl : Law trace c) (hin : VoiceState.inTurn c.state = true) (hne : c.state ≠ .cancelPending)
    (hs : Sent kind ids c d) :
    Law (trace ++ [.sent kind ids]) { d with state := .cancelPending, stateDeadline := deadline } := by
  obtain ⟨link, hlink, hlinked, hsession, honline, hturn⟩ := hl.inTurn hin
  obtain ⟨link', control, hlink', hadmits, rfl, rfl, hd⟩ := hs.link
  obtain rfl : link' = link := Option.some.inj (hlink'.symm.trans hlink)
  have hsame := admits_cancel hadmits hk
  obtain ⟨hsent, hnone, hbefore⟩ := hturn.uncancelled hne
  have hids : control.ids.turn = link'.transport.turn.turn := (Transport.sameTurn_iff.mp hsame).2.1
  have hcancel : Entry.cancel (.sent control.kind control.ids) = some control.ids := by
    cases hkind : control.kind <;> rw [hkind] at hk <;> first | rfl | cases hk
  have hstart : Entry.start (.sent control.kind control.ids) = none := by
    cases hkind : control.kind <;> rw [hkind] at hk <;> first | rfl | cases hk
  have hkind : control.kind ≠ .turnStart := fun hn => by
    rw [hn] at hk
    cases hk
  have hback : d.backlog = c.backlog := by rw [backlog, backlog, hs.events]
  refine .of_inTurn ?_ hd (hlinked.sent hkind ?_ hs.events) ?_ ?_ rfl ?_
  · refine hl.1.snoc (by simp [starts, hstart]) (fun i hi j hj => ?_) fun _ => ?_
    · simp only [cancels, List.filterMap_cons, hcancel, List.filterMap_nil,
        List.mem_singleton] at hj
      rw [hj, hids]
      exact hbefore i hi
    · cases hw : awaited trace with
      | none => rfl
      | some i => exact absurd (hturn.awaited i hw).1 hne
  · intro i hi
    rw [hcancel] at hi
    cases hi
    exact hids ▸ UInt32.le_refl _
  · exact hs.turnIds ▸ hsession
  · rw [sent_cancel hk]
    exact ⟨by rw [hs.turnIds]; exact honline.session,
      by rw [helloAcks, hs.events]; exact honline.acks⟩
  · rw [sent_cancel hk]
    refine ⟨hs.turnIds.trans hturn.turn, ?_, fun hn => absurd rfl hn, nofun, fun i hi => ⟨rfl, ?_⟩⟩
    · show Ordered _ d.backlog
      rw [hback]
      exact hturn.ordered.mono rfl id id
    · rw [awaited_snoc, Entry.await, hcancel] at hi
      exact Option.some.inj hi ▸ hsame

theorem pending_law {deadline : Nat} (hl : Law trace c) (hin : VoiceState.inTurn c.state = true) :
    Law trace { c with state := .cancelPending, stateDeadline := deadline } := by
  obtain ⟨link, hlink, hlinked, hsession, honline, hturn⟩ := hl.inTurn hin
  exact .of_inTurn hl.1 hlink { hlinked with } hsession { honline with } rfl
    ⟨hturn.turn, hturn.ordered, fun hn => absurd rfl hn, nofun,
      fun i hi => ⟨rfl, (hturn.awaited i hi).2⟩⟩

theorem requestCancel_steps (hk : kind.cancellation = true) (hl : Law trace c)
    (hin : VoiceState.inTurn c.state = true) (hne : c.state ≠ .cancelPending) :
    Steps trace c (c.requestCancel cfg a kind ids) := by
  have hcases := sendControl_cases cfg kind ids c
  unfold requestCancel
  generalize c.sendControl cfg kind ids = r at hcases
  obtain ⟨ok, d⟩ := r
  rcases hcases with ⟨rfl, hs⟩ | ⟨rfl, -, hs⟩ | ⟨rfl, hs⟩
  · exact (hl.steps hs).trans fun _ hl => loseConnection_steps hl.1
  · refine ⟨[], hs.sends.trans (List.append_nil _).symm, ?_⟩
    rw [List.append_nil]
    exact pending_law (hl.still hs) (hs.state ▸ hin)
  · exact ⟨[.sent kind ids], hs.sends, cancelled_law hk hl hin hne hs⟩

theorem abortCurrent_steps (hl : Law trace c) (hin : VoiceState.inTurn c.state = true)
    (hne : c.state ≠ .cancelPending) : Steps trace c (c.abortCurrent cfg a) := by
  have hgive : Still c c.giveUp := giveUp_still
  rw [abortCurrent_eq]
  generalize c.giveUp = d at hgive ⊢
  split
  · refine (hl.steps hgive).trans fun _ hl => ?_
    exact requestCancel_steps rfl hl (hgive.state ▸ hin) (hgive.state ▸ hne)
  · refine (hl.steps hgive).trans fun _ hl => ?_
    exact requestCancel_steps rfl hl (hgive.state ▸ hin) (hgive.state ▸ hne)

theorem confirmBarge_steps (hl : Law trace c) (hin : VoiceState.inTurn c.state = true)
    (hne : c.state ≠ .cancelPending) : Steps trace c (c.confirmBarge cfg a) := by
  have hbegun : Still c c.admitBarge := admitBarge_still
  rw [confirmBarge_eq]
  generalize c.admitBarge = d at hbegun ⊢
  refine (hl.steps hbegun).trans fun _ hl => ?_
  exact requestCancel_steps rfl hl (hbegun.state ▸ hin) (hbegun.state ▸ hne)

-- ---------------------------------------------------------------------------
-- The end of a turn
-- ---------------------------------------------------------------------------

/-- The turn is over: nothing of it waits and nothing can be emitted. -/
structure Over (trace : List Entry) (t : Transport) (c : VoiceClient) : Prop where
  turn : c.turnIds = t.turn
  backlog : c.backlog = []
  inactive : t.active = false
  closed : t.responseDone = true → t.responseCancelSent = false
  awaited : awaited trace = none

theorem Over.advance (ho : Over trace t c) : Ready trace t c.advanceTurn :=
  ⟨ho.backlog, ho.inactive, ho.closed, by rw [← ho.turn]; rfl, by rw [← ho.turn]; rfl, ho.awaited⟩

theorem finishTurn_spec (normal : Bool) : (c.finishTurn a normal).link = c.link ∧
    (c.finishTurn a normal).events = c.events ∧
    (c.finishTurn a normal).turnIds = c.advanceTurn.turnIds ∧
    (c.finishTurn a normal).state = .waitingForFollowUp ∧
    (c.finishTurn a normal).sends = c.sends := by
  cases normal <;> cases hr : a.resetListener
  all_goals simp [finishTurn, resetListener, hr, emit, clearSubtitle, resetBargeProbe,
    resetBargeTurn, setPlaybackScale, advanceTurn, sends, Effect.entry]

theorem finishTurn_steps {link : Link} (normal : Bool) (ht : Told trace) (hlink : c.link = some link)
    (hl : Linked trace link.transport c) (hsession : c.turnIds.session ≠ 0)
    (hon : Online link.transport c) (ho : Over trace link.transport c) :
    Steps trace c (c.finishTurn a normal) := by
  obtain ⟨hlink', hevents, hturn, hstate, hsends⟩ := finishTurn_spec (c := c) (a := a) normal
  generalize c.finishTurn a normal = d at hlink' hevents hturn hstate hsends ⊢
  have hsession' : d.turnIds.session = c.turnIds.session := by rw [hturn]; rfl
  refine ⟨[], by simpa using hsends, ?_⟩
  rw [List.append_nil]
  exact .of_ready ht (hlink'.trans hlink) (hl.congr hevents) (hsession' ▸ hsession)
    (hon.congr hevents hsession') (by rw [hstate]; rfl) (ho.advance.congr hevents hturn)

-- ---------------------------------------------------------------------------
-- A new turn
-- ---------------------------------------------------------------------------

theorem uint32_lt_succ {n : UInt32} (h : n + 1 ≠ 0) : n < n + 1 := by
  have hne : (n + 1).toNat ≠ 0 := fun hz => h (UInt32.toNat_inj.mp hz)
  rw [UInt32.lt_iff_toNat_lt]
  rw [UInt32.toNat_add, UInt32.toNat_one] at hne ⊢
  have := n.toNat_lt
  omega

theorem Ready.below {control : Control} {i : WireIds} (hr : Ready trace t c)
    (hk : control.kind = .turnStart) (hids : control.ids = c.turnIds)
    (ha : t.admits control = some true)
    (hi : i.turn ≤ t.turn.turn ∧ i.stream ≤ t.turn.stream ∧ i.epoch ≤ t.turn.epoch) :
    Below i c.turnIds := by
  obtain ⟨-, hvalid, -, -, -, hepoch⟩ := (Transport.admits_turnStart hk).mp ha
  rw [hids] at hvalid hepoch
  obtain ⟨-, hturn, hstream, hne⟩ := Transport.valid_iff.mp hvalid
  have hturn' := uint32_lt_succ (hr.turn ▸ hturn)
  have hstream' := uint32_lt_succ (hr.stream ▸ hstream)
  refine ⟨hr.turn ▸ UInt32.lt_of_le_of_lt hi.1 hturn', hr.stream ▸ UInt32.lt_of_le_of_lt hi.2.1 hstream',
    UInt32.lt_of_le_of_lt hi.2.2 ?_⟩
  by_cases hz : t.turn.epoch = 0
  · rw [hz]
    exact UInt32.pos_iff_ne_zero.mpr hne
  · exact UInt32.not_le.mp (hepoch hz)

theorem sent_turnStart {control : Control} (hk : control.kind = .turnStart) :
    (t.sent control).turn = control.ids ∧ (t.sent control).session = t.session ∧
      (t.sent control).responseDone = false ∧ (t.sent control).responseCancelSent = false := by
  unfold Transport.sent
  rw [hk]
  exact ⟨rfl, rfl, rfl, rfl⟩

theorem begun_law {link : Link} {d : VoiceClient} (ht : Told trace) (hlink : c.link = some link)
    (hl : Linked trace link.transport c) (hsession : c.turnIds.session ≠ 0)
    (hon : Online link.transport c) (hr : Ready trace link.transport c)
    (hs : Sent .turnStart c.turnIds c d) :
    Law (trace ++ [.sent .turnStart c.turnIds]) (d.beginTurn a) := by
  obtain ⟨link', control, hlink', hadmits, hk, hids, hd⟩ := hs.link
  obtain rfl : link' = link := Option.some.inj (hlink'.symm.trans hlink)
  have hbelow {i : WireIds} := hr.below (i := i) hk hids hadmits
  obtain ⟨hturn, hsession', hdone, hcancel⟩ := sent_turnStart (t := link'.transport) hk
  have hfollows := Transport.turnStart_follows hk hadmits
  have hnext : link'.transport.turn.turn < c.turnIds.turn :=
    (hbelow ⟨UInt32.le_refl _, UInt32.le_refl _, UInt32.le_refl _⟩).1
  have hback : (d.beginTurn a).backlog = [] := by
    rw [backlog, beginTurn, emit, hs.events]
    exact hr.backlog
  have hacks : (d.beginTurn a).helloAcks = c.helloAcks := by
    rw [helloAcks, beginTurn, emit, hs.events]
    rfl
  have hids' : (d.beginTurn a).turnIds = c.turnIds := hs.turnIds
  rw [hids] at hturn
  generalize link'.transport.sent control = t' at hd hturn hsession' hdone hcancel hfollows
  refine .of_inTurn ?_ hd ?_ (hids' ▸ hsession) ?_ rfl ?_
  · refine ht.snoc (fun i hi j hj => ?_) (by simp [cancels, Entry.cancel]) fun _ => hr.awaited
    simp only [starts, List.filterMap_cons, Entry.start, List.filterMap_nil, List.mem_singleton] at hj
    exact hj ▸ hbelow (hl.starts i hi)
  · refine ⟨⟨{}, hfollows⟩, fun _ => hdone, fun i hi => ?_, fun i hi => ?_, ?_⟩
    · rw [hturn]
      rcases List.mem_append.mp (starts_append ▸ hi) with hi | hi
      · obtain ⟨h1, h2, h3⟩ := hbelow (hl.starts i hi)
        exact ⟨UInt32.le_of_lt h1, UInt32.le_of_lt h2, UInt32.le_of_lt h3⟩
      · simp only [starts, List.filterMap_cons, Entry.start, List.filterMap_nil,
          List.mem_singleton] at hi
        exact hi ▸ ⟨UInt32.le_refl _, UInt32.le_refl _, UInt32.le_refl _⟩
    · rw [hturn]
      rw [cancels_append, show cancels [.sent .turnStart c.turnIds] = [] from rfl,
        List.append_nil] at hi
      exact UInt32.le_trans (hl.cancels i hi) (UInt32.le_of_lt hnext)
    · rw [hacks, hsession']
      exact hl.acks
  · exact ⟨by rw [hids', hsession']; exact hon.session, hacks.trans hon.acks⟩
  · refine ⟨hids'.trans hturn.symm, by rw [hback]; trivial, fun _ => ⟨hcancel, ?_, ?_⟩, by rintro ⟨⟩, ?_⟩
    · simp [hback]
    · intro i hi
      rw [cancels_append, show cancels [.sent .turnStart c.turnIds] = [] from rfl,
        List.append_nil] at hi
      exact hturn ▸ UInt32.lt_of_le_of_lt (hl.cancels i hi) hnext
    · rw [awaited_snoc, hr.awaited]
      intro i hi
      cases hi

theorem Law.goesOn (hl : Law trace c) (hin : VoiceState.inTurn c.state = true)
    (hne : c.state ≠ .cancelPending) (hlink : c'.link = c.link) (hevents : c'.events = c.events)
    (hturn : c'.turnIds = c.turnIds) (hin' : VoiceState.inTurn c'.state = true)
    (hdrain : c'.state ≠ .drainingPlayback) : Law trace c' := by
  obtain ⟨link, hl', hlinked, hsession, hon, hi⟩ := hl.inTurn hin
  have hback : c'.backlog = c.backlog := by rw [backlog, backlog, hevents]
  refine .of_inTurn hl.1 (hlink.trans hl') (hlinked.congr hevents) (hturn ▸ hsession)
    (hon.congr hevents (by rw [hturn])) hin' ⟨hturn.trans hi.turn, hback ▸ hi.ordered, fun _ => ?_,
      fun hn => absurd hn hdrain, fun i hw => ?_⟩
  · rw [hback]
    exact hi.uncancelled hne
  · exact absurd (hi.awaited i hw).1 hne

theorem committed_law {d : VoiceClient} (hl : Law trace c) (hin : VoiceState.inTurn c.state = true)
    (hs : Sent .turnCommit ids c d) : Law (trace ++ [.sent .turnCommit ids]) d := by
  obtain ⟨link, hlink, hlinked, hsession, hon, hi⟩ := hl.inTurn hin
  obtain ⟨link', control, hlink', -, hk, rfl, hd⟩ := hs.link
  obtain rfl : link' = link := Option.some.inj (hlink'.symm.trans hlink)
  obtain ⟨h, hf⟩ := hlinked.follows
  obtain ⟨h', -, hf'⟩ := Transport.sent_follows hf (c := control) (by rw [hk]; nofun)
  have hback : d.backlog = c.backlog := by rw [backlog, backlog, hs.events]
  have hsent : link'.transport.sent control = { link'.transport with committed := true } := by
    unfold Transport.sent
    rw [hk]
  rw [hsent] at hd hf'
  refine Law.other ?_ rfl rfl
  refine .of_inTurn hl.1 hd { hlinked.congr hs.events with follows := ⟨h', hf'⟩ }
    (hs.turnIds ▸ hsession) { hon.congr hs.events (by rw [hs.turnIds]) with } (hs.state ▸ hin) ?_
  refine ⟨hs.turnIds.trans hi.turn, hback ▸ hi.ordered.mono rfl id id, ?_, ?_, ?_⟩
  · rw [hs.state, hback]
    exact hi.uncancelled
  · rw [hs.state, hback]
    exact hi.draining
  · rw [hs.state]
    exact hi.awaited

theorem requestResponse_steps (hl : Law trace c) (hin : VoiceState.inTurn c.state = true)
    (hne : c.state ≠ .cancelPending) : Steps trace c (c.requestResponse cfg a) := by
  have hcases := sendControl_cases cfg .turnCommit c.turnIds c
  unfold requestResponse
  generalize c.sendControl cfg .turnCommit c.turnIds = r at hcases
  obtain ⟨ok, d⟩ := r
  rcases hcases with ⟨rfl, hs⟩ | ⟨rfl, hk, hs⟩ | ⟨rfl, hs⟩
  · exact (hl.steps hs).trans fun _ hl => loseConnection_steps hl.1
  · cases hk
  · have hd := committed_law hl hin hs
    have hwait : Law (trace ++ [.sent .turnCommit c.turnIds]) (d.waitForResponse a) :=
      hd.goesOn (hs.state ▸ hin) (hs.state ▸ hne) rfl rfl rfl rfl nofun
    exact ⟨_, (emit_still _ rfl).sends.trans hs.sends, hwait⟩

theorem sendAudioOrRecover_steps (cfg : ClientConfig) (a : Answers) (frame : CaptureFrame)
    (last : Bool) (hl : Law trace c)
    (hin : VoiceState.inTurn c.state = true) (hne : c.state ≠ .cancelPending) :
    Steps trace c (c.sendAudioOrRecover cfg a frame last).2 ∧
      ((c.sendAudioOrRecover cfg a frame last).1 = true →
        Still c (c.sendAudioOrRecover cfg a frame last).2) := by
  have hs : Still c (c.sendAudio frame last).2 := sendAudio_still last
  unfold sendAudioOrRecover
  generalize c.sendAudio frame last = r at hs
  obtain ⟨outcome, d⟩ := r
  have hd := hl.still hs
  cases outcome with
  | ok => exact ⟨hl.steps hs, fun _ => hs⟩
  | backpressure =>
    refine ⟨(hl.steps hs).trans fun _ hl => ?_, nofun⟩
    exact abortCurrent_steps hl (hs.state ▸ hin) (hs.state ▸ hne)
  | rejected => exact ⟨(hl.steps hs).trans fun _ hl => loseConnection_steps hl.1, nofun⟩

theorem sendPreRoll_steps (cfg : ClientConfig) (a : Answers) (ended : Bool) (pre : List CaptureFrame) (hl : Law trace c)
    (hin : VoiceState.inTurn c.state = true) (hne : c.state ≠ .cancelPending) :
    Steps trace c (c.sendPreRoll cfg a ended pre).2 ∧
      ((c.sendPreRoll cfg a ended pre).1 = true → Still c (c.sendPreRoll cfg a ended pre).2) := by
  induction pre generalizing c with
  | nil => exact ⟨hl.steps (.refl c), fun _ => .refl c⟩
  | cons frame rest ih =>
    have hframe := sendAudioOrRecover_steps cfg a frame (ended && rest.isEmpty) hl hin hne
    unfold sendPreRoll
    generalize c.sendAudioOrRecover cfg a frame (ended && rest.isEmpty) = r at hframe
    obtain ⟨ok, d⟩ := r
    cases ok
    · exact ⟨hframe.1, by simp⟩
    · have hs : Still c d := hframe.2 rfl
      obtain ⟨hrest, hok⟩ := ih (hl.still hs) (hs.state ▸ hin) (hs.state ▸ hne)
      refine ⟨?_, fun h => hs.trans (hok h)⟩
      obtain ⟨more, hsends, hl'⟩ := hrest
      exact ⟨more, hs.sends ▸ hsends, hl'⟩

theorem Steps.since (h : Steps trace c' c'') (hs : c'.sends = c.sends) : Steps trace c c'' := by
  obtain ⟨more, hsends, hl⟩ := h
  exact ⟨more, hs ▸ hsends, hl⟩

theorem Still.steps (hs : Still c c') (h : Steps trace c' c'') : Steps trace c c'' :=
  h.since hs.sends

theorem commit_steps (hl : Law trace c) (hin : VoiceState.inTurn c.state = true)
    (hne : c.state ≠ .cancelPending) : Steps trace c (c.commit cfg a frame) := by
  obtain ⟨hframe, hok⟩ := sendAudioOrRecover_steps cfg a frame true hl hin hne
  rw [commit_eq]
  generalize c.sendAudioOrRecover cfg a frame true = r at hframe hok
  obtain ⟨ok, d⟩ := r
  cases ok
  · exact hframe
  · have hs : Still c d := hok rfl
    exact hs.steps (requestResponse_steps (hl.still hs) (hs.state ▸ hin) (hs.state ▸ hne))

theorem sendBuffered_steps (cfg : ClientConfig) (a : Answers) (ended : Bool) (hl : Law trace c)
    (hin : VoiceState.inTurn c.state = true) (hne : c.state ≠ .cancelPending) :
    Steps trace c (c.sendBuffered cfg a ended) := by
  obtain ⟨hpre, hok⟩ := sendPreRoll_steps cfg a ended c.pre hl hin hne
  unfold sendBuffered
  split
  · exact loseConnection_steps hl.1
  generalize c.sendPreRoll cfg a ended c.pre = r at hpre hok
  obtain ⟨ok, d⟩ := r
  cases ok
  · exact hpre
  · have hs : Still c { d with pre := [] } := (hok rfl).trans (.of_eq rfl rfl rfl rfl rfl)
    dsimp only
    split
    · exact hs.steps (requestResponse_steps (hl.still hs) (hs.state ▸ hin) (hs.state ▸ hne))
    · exact hl.steps hs

theorem startTurn_steps {link : Link} (ended : Bool) (ht : Told trace) (hlink : c.link = some link)
    (hl : Linked trace link.transport c) (hsession : c.turnIds.session ≠ 0)
    (hon : Online link.transport c) (hr : Ready trace link.transport c) :
    Steps trace c (c.startTurn cfg a ended) := by
  have hcases := sendControl_cases cfg .turnStart c.turnIds c
  rw [startTurn_eq, if_neg hsession]
  generalize c.sendControl cfg .turnStart c.turnIds = r at hcases
  obtain ⟨ok, d⟩ := r
  rcases hcases with ⟨rfl, hs⟩ | ⟨rfl, hk, hs⟩ | ⟨rfl, hs⟩
  · exact hs.steps (loseConnection_steps ht)
  · cases hk
  · have hbegun := begun_law (a := a) ht hlink hl hsession hon hr hs
    obtain ⟨more, hsends, hl'⟩ := sendBuffered_steps cfg a ended hbegun rfl nofun
    have hd : (d.beginTurn a).sends = c.sends ++ [.sent .turnStart c.turnIds] :=
      (emit_still _ rfl).sends.trans hs.sends
    exact ⟨.sent .turnStart c.turnIds :: more, by rw [hsends, hd]; simp, by simpa using hl'⟩

theorem resumeAfterBarge_steps {link : Link} (ht : Told trace) (hlink : c.link = some link)
    (hl : Linked trace link.transport c) (hsession : c.turnIds.session ≠ 0)
    (hon : Online link.transport c) (ho : Over trace link.transport c) :
    Steps trace c (c.resumeAfterBarge cfg a) := by
  unfold resumeAfterBarge
  split
  · exact finishTurn_steps false ht hlink hl hsession hon ho
  · dsimp only
    generalize hd : advanceTurn _ = d
    obtain ⟨hlink', hevents, hturn, heffects⟩ : d.link = c.link ∧ d.events = c.events ∧
        d.turnIds = c.advanceTurn.turnIds ∧ d.effects = c.effects ++ [.dropPlayback] := by
      rw [← hd]
      unfold advanceTurn emit
      exact ⟨rfl, rfl, rfl, rfl⟩
    have hsession' : d.turnIds.session = c.turnIds.session := by rw [hturn]; rfl
    have hsends : d.sends = c.sends := by simp [sends, heffects, Effect.entry]
    refine Steps.since ?_ hsends
    exact startTurn_steps _ ht (hlink'.trans hlink) (hl.congr hevents) (hsession' ▸ hsession)
      (hon.congr hevents hsession') (ho.advance.congr hevents hturn)

theorem completeCancel_steps {link : Link} (ht : Told trace) (hlink : c.link = some link)
    (hl : Linked trace link.transport c) (hsession : c.turnIds.session ≠ 0)
    (hon : Online link.transport c) (ho : Over trace link.transport c) :
    Steps trace c (c.completeCancel cfg a) := by
  unfold completeCancel
  split
  · exact finishTurn_steps false ht hlink hl hsession hon ho
  split
  · exact resumeAfterBarge_steps ht hlink hl hsession hon ho
  · exact finishTurn_steps false ht hlink (hl.congr rfl) hsession (hon.congr rfl rfl)
      ⟨ho.turn, ho.backlog, ho.inactive, ho.closed, ho.awaited⟩

-- ---------------------------------------------------------------------------
-- Events
-- ---------------------------------------------------------------------------

variable {event : QueuedEvent} {events : List QueuedEvent} {e : Inbound}

theorem Law.pop (hl : Law trace c) (he : c.events = event :: events) :
    Law trace { c with events } := by
  obtain ⟨ht, hl⟩ := hl
  refine ⟨ht, ?_⟩
  have hback : c.backlog = event.ofTurn.toList ++ backlog { c with events } := by
    rw [backlog, backlog, he]
    cases hof : event.ofTurn <;> simp [hof]
  have hacks : c.helloAcks = event.helloAck.toList ++ helloAcks { c with events } := by
    rw [helloAcks, helloAcks, he]
    cases hof : event.helloAck <;> simp [hof]
  have hnil (hn : c.backlog = []) : backlog { c with events } = [] :=
    (List.append_eq_nil_iff.mp (hback ▸ hn)).2
  cases hlink : c.link with
  | none =>
    rw [hlink, he] at hl
    cases hl.2.1
  | some link =>
    rw [hlink] at hl
    obtain ⟨hl, hp⟩ := hl
    refine ⟨{ hl with acks := ?_ }, ?_⟩
    · obtain ⟨hlen, hsession⟩ := hl.acks
      rw [hacks] at hlen hsession
      rw [List.length_append] at hlen
      exact ⟨Nat.le_trans (Nat.le_add_left _ _) hlen,
        fun ids hids => hsession ids (List.mem_append_right _ hids)⟩
    unfold Phase at hp ⊢
    dsimp only at hp ⊢
    split at hp
    · rename_i hz
      rw [if_pos hz]
      exact { hp with backlog := hnil hp.backlog }
    rename_i hsession
    obtain ⟨hon, hp⟩ := hp
    rw [if_neg hsession]
    refine ⟨⟨hon.session, (List.append_eq_nil_iff.mp (hacks ▸ hon.acks)).2⟩, ?_⟩
    split at hp
    · rename_i hin
      rw [if_pos hin]
      refine { hp with ordered := ?_, uncancelled := fun hne => ?_, draining := fun hdrain => ?_ }
      · have ho := hp.ordered
        rw [hback] at ho
        cases hof : event.ofTurn with
        | none =>
          rw [hof] at ho
          exact ho
        | some e =>
          rw [hof] at ho
          exact ho.2.2.2
      · obtain ⟨hsent, hnone, hbefore⟩ := hp.uncancelled hne
        rw [hback] at hnone
        exact ⟨hsent, fun ids hids => hnone ids (List.mem_append_right _ hids), hbefore⟩
      · obtain ⟨hback, ha⟩ := hp.draining hdrain
        exact ⟨hnil hback, ha⟩
    · rename_i hout
      rw [if_neg hout]
      exact { hp with backlog := hnil hp.backlog }

/-- The turn of the connection at hand is over. -/
def IsOver (trace : List Entry) (c : VoiceClient) : Prop :=
  ∀ link, c.link = some link → Over trace link.transport c

theorem Still.isOver (hs : Still c c') (ho : IsOver trace c) : IsOver trace c' := by
  intro link' hlink'
  have hlink := hs.link
  rw [hlink'] at hlink
  cases hc : c.link with
  | none =>
    rw [hc] at hlink
    exact hlink.elim
  | some link =>
    rw [hc] at hlink
    have hstage : SameStage link.transport link'.transport := hlink
    have ho := ho link hc
    refine ⟨hs.turnIds.trans (ho.turn.trans hstage.turn.symm), hs.backlog.trans ho.backlog,
      hstage.active.trans ho.inactive, ?_, ho.awaited⟩
    rw [hstage.responseDone, hstage.cancelSent]
    exact ho.closed

theorem Law.finish (normal : Bool) (hl : Law trace c) (hin : VoiceState.inTurn c.state = true)
    (ho : IsOver trace c) : Steps trace c (c.finishTurn a normal) := by
  obtain ⟨link, hlink, hlinked, hsession, hon, -⟩ := hl.inTurn hin
  exact finishTurn_steps normal hl.1 hlink hlinked hsession hon (ho link hlink)

theorem Law.complete (hl : Law trace c) (hin : VoiceState.inTurn c.state = true)
    (ho : IsOver trace c) : Steps trace c (c.completeCancel cfg a) := by
  obtain ⟨link, hlink, hlinked, hsession, hon, -⟩ := hl.inTurn hin
  exact completeCancel_steps hl.1 hlink hlinked hsession hon (ho link hlink)

/-- What is known when an event of the turn is handled. -/
structure Popped (trace : List Entry) (e : Inbound) (c : VoiceClient) : Prop where
  inTurn : VoiceState.inTurn c.state = true
  sameTurn : ∀ ids, e.turnIds = some ids → ids.sameTurn c.turnIds = true
  cancelled : ∀ ids, e = .cancelled ids → c.state = .cancelPending
  done : e.isDone = true → c.state ≠ .cancelPending → c.backlog = [] ∧
    ∀ link, c.link = some link → link.transport.active = false
  ending : e.ending.isSome = true → IsOver trace c

theorem turnIds_of_ending (h : e.ending = some ids) : e.turnIds = some ids := by
  cases e with
  | error ids' code text =>
    simp only [Inbound.ending, Option.ite_none_right_eq_some] at h
    simpa [Inbound.turnIds, h.1.1] using h.2
  | cancelled => exact h
  | _ => cases h

theorem Law.waiting (hl : Law trace c) (hb : c.backlog ≠ []) :
    VoiceState.inTurn c.state = true := by
  obtain ⟨-, hl⟩ := hl
  cases hlink : c.link with
  | none =>
    rw [hlink] at hl
    exact absurd (by rw [backlog, hl.2.1]; rfl) hb
  | some link =>
    rw [hlink] at hl
    have hp := hl.2
    unfold Phase at hp
    split at hp
    · exact absurd hp.backlog hb
    · split at hp
      · assumption
      · exact absurd hp.2.backlog hb

theorem awaited_answered {i : WireIds} (ha : ∀ i, awaited trace = some i → i.sameTurn t.turn = true)
    (he : e.ending = some i) (hi : i.sameTurn t.turn = true) :
    awaited (trace ++ [.handled (.inbound e)]) = none := by
  rw [awaited_snoc]
  cases hw : awaited trace with
  | none => rfl
  | some j =>
    obtain ⟨h1, h2, h3⟩ := Transport.sameTurn_iff.mp (ha j hw)
    obtain ⟨k1, k2, k3⟩ := Transport.sameTurn_iff.mp hi
    have hsame : i.sameTurn j = true :=
      Transport.sameTurn_iff.mpr ⟨k1.trans h1.symm, k2.trans h2.symm, k3.trans h3.symm⟩
    simp [Entry.await, Entry.cancel, Entry.answers, he, hsame]

theorem Law.popped (hl : Law trace c) (he : c.events = event :: events)
    (hof : event.ofTurn = some e) : Popped (trace ++ [.handled event]) e { c with events } := by
  have hback : c.backlog = e :: backlog { c with events } := by
    rw [backlog, backlog, he]
    simp [hof]
  obtain rfl : event = .inbound e := by
    cases event with
    | heartbeat => cases hof
    | inbound event =>
      simp only [QueuedEvent.ofTurn, Option.ite_none_right_eq_some, Option.some.injEq] at hof
      rw [hof.2]
  have hin := hl.waiting (by rw [hback]; nofun)
  obtain ⟨link, hlink, hlinked, hsession, hon, hi⟩ := hl.inTurn hin
  have ho := hi.ordered
  rw [hback] at ho
  obtain ⟨hsame, hend, hdone, -⟩ := ho
  refine ⟨hin, fun ids hids => hi.turn ▸ hsame ids hids, ?_, ?_, ?_⟩
  · rintro ids rfl
    by_contra hne
    exact (hi.uncancelled hne).2.1 ids (by simp [hback])
  · intro hd hne
    obtain ⟨ha, hcases⟩ := hdone hd
    refine ⟨?_, fun link' hlink' => Option.some.inj (hlink.symm.trans hlink') ▸ ha⟩
    rcases hcases with hnil | ⟨ids, hids⟩
    · exact hnil
    · exact absurd (by rw [hback, hids]; simp) ((hi.uncancelled hne).2.1 ids)
  · intro hending link' hlink'
    obtain rfl : link = link' := Option.some.inj (hlink.symm.trans hlink')
    obtain ⟨hnil, ha, hd⟩ := hend hending
    refine ⟨hi.turn, hnil, ha, fun hn => ?_, ?_⟩
    · rw [hd] at hn
      cases hn
    · obtain ⟨ids, hids⟩ := Option.isSome_iff_exists.mp hending
      exact awaited_answered (fun i hw => (hi.awaited i hw).2) hids
        (hsame ids (turnIds_of_ending hids))

theorem handleError_steps {code : String} (text : String) (hl : Law trace c)
    (hp : ids.turn ≠ 0 → Popped trace (.error ids code text) c) :
    Steps trace c (c.handleError cfg a ids code) := by
  have hm : Still c c.markFirstResponseProgress := markFirstResponseProgress_still
  unfold handleError
  generalize c.markFirstResponseProgress = d at hm ⊢
  have hd := hl.still hm
  dsimp only
  split
  · exact hm.steps (loseConnection_steps hl.1)
  split
  · exact hm.steps (loseConnection_steps hl.1)
  rename_i hne
  have hp := hp hne
  have hin : VoiceState.inTurn d.state = true := hm.state ▸ hp.inTurn
  split
  · split
    · exact hm.steps (abortCurrent_steps hd hin (by assumption))
    · exact hl.steps hm
  rename_i hcode
  have hover : IsOver trace d := hm.isOver (hp.ending (by simp [Inbound.ending, hne, hcode]))
  split
  · exact hm.steps (hd.complete hin hover)
  · exact hm.steps (hd.finish false hin hover)

/-- What is known when hello.ack is handled. -/
structure Greeted (ids : WireIds) (c : VoiceClient) : Prop where
  offline : c.turnIds.session = 0
  acks : c.helloAcks = []
  session : ids.session ≠ 0
  link : ∃ link, c.link = some link ∧ ids.session = link.transport.session

theorem Law.greeted (hl : Law trace c) (hg : Greeted ids c) (hlink : c'.link = c.link)
    (hevents : c'.events = c.events) (hstate : c'.state = c.state)
    (hturn : c'.turnIds = { session := ids.session, turn := 1, stream := 1, epoch := ids.epoch }) :
    Law trace c' := by
  obtain ⟨ht, hl⟩ := hl
  obtain ⟨link, hc, hids⟩ := hg.link
  rw [hc] at hl
  obtain ⟨hl, hp⟩ := hl
  rw [Phase, if_pos hg.offline] at hp
  have hacks : c'.helloAcks = [] := by
    rw [helloAcks, hevents]
    exact hg.acks
  have hback : c'.backlog = [] := by
    rw [backlog, hevents]
    exact hp.backlog
  refine .of_ready ht (hlink.trans hc) (hl.congr hevents) (by rw [hturn]; exact hg.session)
    ⟨by rw [hturn]; exact hids, hacks⟩ (by rw [hstate, hp.state]; rfl)
    ⟨hback, hp.inactive, fun hn => ?_, ?_, ?_, hp.awaited⟩
  · rw [hp.responseDone] at hn
    cases hn
  · rw [hturn, hp.turn]
    rfl
  · rw [hturn, hp.turn]
    rfl

/-- The response is over and is still played. -/
theorem Law.drain (hl : Law trace c) (hin : VoiceState.inTurn c.state = true)
    (hne : c.state ≠ .cancelPending) (hback : c.backlog = [])
    (ha : ∀ link, c.link = some link → link.transport.active = false) (hlink : c'.link = c.link)
    (hevents : c'.events = c.events) (hturn : c'.turnIds = c.turnIds)
    (hstate : c'.state = .drainingPlayback) : Law trace c' := by
  obtain ⟨link, hc, hlinked, hsession, hon, hi⟩ := hl.inTurn hin
  have hback' : c'.backlog = c.backlog := by rw [backlog, backlog, hevents]
  refine .of_inTurn hl.1 (hlink.trans hc) (hlinked.congr hevents) (hturn ▸ hsession)
    (hon.congr hevents (by rw [hturn])) (by rw [hstate]; rfl) ⟨hturn.trans hi.turn, hback' ▸ hi.ordered,
      fun _ => ?_, fun _ => ⟨hback'.trans hback, ha link hc⟩, fun i hw => ?_⟩
  · rw [hback']
    exact hi.uncancelled hne
  · exact absurd (hi.awaited i hw).1 hne

theorem greet_steps (hl : Law trace c) (hg : Greeted ids c) :
    Steps trace c (c.handleInbound cfg a (.helloAck ids)) := by
  unfold handleInbound
  dsimp only
  refine Steps.since (Law.steps ?_ (Still.emit resetListener_still _ rfl)) ?_
  · exact hl.greeted hg rfl rfl rfl rfl
  · rfl

theorem play_steps (hl : Law trace c) (hin : VoiceState.inTurn c.state = true)
    (hne : c.state ≠ .cancelPending) : Steps trace c (c.handleInbound cfg a (.audioStart ids)) := by
  have hm : Still c c.markFirstResponseProgress := markFirstResponseProgress_still
  unfold handleInbound
  dsimp only
  generalize c.markFirstResponseProgress = d at hm ⊢
  have hd := hl.still hm
  split
  · refine hm.steps ⟨[], ?_, ?_⟩
    · simp [sends, resetBargeProbe, setPlaybackScale, emit, Effect.entry]
    · rw [List.append_nil]
      dsimp only [resetBargeProbe, setPlaybackScale, emit]
      exact hd.goesOn (hm.state ▸ hin) (hm.state ▸ hne) rfl rfl rfl rfl (by simp)
  · exact hm.steps (loseConnection_steps hl.1)

theorem drain_steps (hl : Law trace c) (hp : Popped trace (.done ids) c)
    (hne : c.state ≠ .cancelPending) : Steps trace c (c.handleInbound cfg a (.done ids)) := by
  obtain ⟨hback, ha⟩ := hp.done rfl hne
  have hm : Still c c.markFirstResponseProgress := markFirstResponseProgress_still
  have hlink : c.markFirstResponseProgress.link = c.link := by
    unfold markFirstResponseProgress
    dsimp only
    split <;> rfl
  unfold handleInbound
  dsimp only
  generalize c.markFirstResponseProgress = d at hm hlink ⊢
  generalize hx : (if a.playbackActive = true then d.emit .endPlayback else d) = x
  have hs : Still c x := by
    rw [← hx]
    split
    · exact hm.emit _ rfl
    · exact hm
  have hlink' : x.link = c.link := by
    rw [← hx, ← hlink]
    split <;> rfl
  split
  · exact hs.steps (loseConnection_steps hl.1)
  · refine hs.steps ⟨[], ?_, ?_⟩
    · simp [sends, emit, Effect.entry]
    · unfold emit
      rw [List.append_nil]
      exact (hl.still hs).drain (hs.state ▸ hp.inTurn) (hs.state ▸ hne) (hs.backlog.trans hback)
        (hlink' ▸ ha) rfl rfl rfl rfl

theorem handleInbound_steps (hl : Law trace c) (hp : e.turnIds.isSome = true → Popped trace e c)
    (hne : e.isCancelled = false → e.turnIds.isSome = true → c.state ≠ .cancelPending)
    (hhello : ∀ ids, e = .helloAck ids → Greeted ids c) :
    Steps trace c (c.handleInbound cfg a e) := by
  have hm : Still c c.markFirstResponseProgress := markFirstResponseProgress_still
  have hd := hl.still hm
  cases e with
  | helloAck ids => exact greet_steps hl (hhello ids rfl)
  | responseStart ids =>
    have hs : Still c { c with responseIds := ids } := .of_eq rfl rfl rfl rfl rfl
    unfold handleInbound
    dsimp only
    split
    · exact hl.steps hs
    · exact hl.steps hs.clear
  | textDelta ids text => exact hl.steps (hm.trans (showText_still _))
  | audioStart ids => exact play_steps hl (hp rfl).inTurn (hne rfl rfl)
  | pcm header audio =>
    have hin := hm.state ▸ (hp rfl).inTurn
    have hne := hm.state ▸ hne rfl rfl
    unfold handleInbound
    dsimp only
    split
    · exact hl.steps (hm.emit _ rfl)
    · exact hm.steps (abortCurrent_steps hd hin hne)
  | done ids => exact drain_steps hl (hp rfl) (hne rfl rfl)
  | cancelled ids =>
    have hin := hm.state ▸ (hp rfl).inTurn
    have hover := hm.isOver ((hp rfl).ending rfl)
    unfold handleInbound
    dsimp only
    split
    · exact hm.steps (hd.complete hin hover)
    · exact hm.steps (hd.finish false hin hover)
  | error ids code text =>
    exact handleError_steps text hl fun hne => hp (by simp [Inbound.turnIds, hne])

theorem Popped.still (hp : Popped trace e c) (hs : Still c c') : Popped trace e c' := by
  refine ⟨hs.state ▸ hp.inTurn, fun ids hids => hs.turnIds ▸ hp.sameTurn ids hids,
    fun ids he => hs.state ▸ hp.cancelled ids he, fun hd hne => ?_, fun he => hs.isOver (hp.ending he)⟩
  obtain ⟨hback, ha⟩ := hp.done hd (hs.state ▸ hne)
  refine ⟨hs.backlog.trans hback, fun link' hlink' => ?_⟩
  have hlink := hs.link
  rw [hlink'] at hlink
  cases hc : c.link with
  | none =>
    rw [hc] at hlink
    exact hlink.elim
  | some link =>
    rw [hc] at hlink
    have hstage : SameStage link.transport link'.transport := hlink
    exact hstage.active.trans (ha link hc)

theorem Law.linked (hl : Law trace c) (he : c.events ≠ []) : ∃ link, c.link = some link ∧
    Linked trace link.transport c ∧ Phase trace link.transport c := by
  obtain ⟨-, hl⟩ := hl
  cases hlink : c.link with
  | none =>
    rw [hlink] at hl
    exact absurd hl.2.1 he
  | some link =>
    rw [hlink] at hl
    exact ⟨link, rfl, hl⟩

theorem Law.greeting (hl : Law trace c) (he : c.events = .inbound (.helloAck ids) :: events) :
    Greeted ids { c with events } := by
  have hacks : c.helloAcks = ids :: helloAcks { c with events } := by
    rw [helloAcks, helloAcks, he]
    rfl
  obtain ⟨link, hlink, hl, hp⟩ := hl.linked (by rw [he]; nofun)
  obtain ⟨hlen, hsession⟩ := hl.acks
  rw [hacks] at hlen hsession
  obtain ⟨hne, hids⟩ := hsession ids (by simp)
  refine ⟨?_, ?_, hne, link, hlink, hids⟩
  · by_contra hon
    rw [Phase, if_neg hon] at hp
    rw [hp.1.acks] at hacks
    cases hacks
  · simpa using hlen

theorem handleEvent_steps (hl : Law trace c) (he : c.events = event :: events) :
    Steps (trace ++ [.handled event]) c (({ c with events }.answered a).handleEvent cfg a event) := by
  have hlaw : Law (trace ++ [.handled event]) { c with events } := (hl.pop he).other rfl rfl
  have hans : Still { c with events } ({ c with events }.answered a) := .of_eq rfl rfl rfl rfl rfl
  have hsends : ({ c with events }.answered a).sends = c.sends := rfl
  have hpop {e : Inbound} (hof : event.ofTurn = some e) := (hl.popped he hof).still hans
  have hgreet {ids : WireIds} (hg : event = .inbound (.helloAck ids)) :
      Greeted ids ({ c with events }.answered a) := by
    have hgreeted := hl.greeting (hg ▸ he)
    exact ⟨hgreeted.offline, hgreeted.acks, hgreeted.session, hgreeted.link⟩
  replace hlaw := hlaw.still hans
  generalize { c with events }.answered a = d at hlaw hsends hpop hgreet ⊢
  refine Steps.since ?_ hsends
  unfold handleEvent
  split
  · exact hlaw.steps (.of_eq rfl rfl rfl rfl rfl)
  · rename_i ids code text
    exact handleError_steps text hlaw fun hne => hpop (by
      simp [QueuedEvent.ofTurn, Inbound.turnIds, hne])
  · rename_i event _
    split
    · exact hlaw.steps (.refl d)
    rename_i hgo
    have hwait : Still d { d with stateDeadline := a.now + kResponseWait } :=
      .of_eq rfl rfl rfl rfl rfl
    refine hwait.steps (handleInbound_steps (hlaw.still hwait) (fun hi => ?_) (fun hc hi hn => ?_)
      fun ids hg => ?_)
    · exact (hpop (by simp [QueuedEvent.ofTurn, hi])).still hwait
    · exact hgo ⟨hn, by simp [hc]⟩
    · have hgreeted := hgreet (congrArg QueuedEvent.inbound hg)
      exact ⟨hgreeted.offline, hgreeted.acks, hgreeted.session, hgreeted.link⟩

-- ---------------------------------------------------------------------------
-- Touch, deadlines and frames
-- ---------------------------------------------------------------------------

theorem Law.waits (hl : Law trace c) (hout : VoiceState.inTurn c.state = false)
    (hsession : c.turnIds.session ≠ 0) (hlink : c'.link = c.link) (hevents : c'.events = c.events)
    (hturn : c'.turnIds = c.turnIds) (hout' : VoiceState.inTurn c'.state = false) :
    Law trace c' := by
  obtain ⟨link, hc, hlinked, hon, hr⟩ := hl.ready hout hsession
  exact .of_ready hl.1 (hlink.trans hc) (hlinked.congr hevents) (hturn ▸ hsession)
    (hon.congr hevents (by rw [hturn])) hout' (hr.congr hevents hturn)

theorem pollAction_steps (action : DeviceUiAction) (hl : Law trace c) :
    Steps trace c (c.pollAction cfg a action) := by
  unfold pollAction
  cases action with
  | wake =>
    dsimp only
    split
    · exact hl.steps (.of_eq rfl rfl rfl rfl rfl)
    · exact hl.steps (.refl c)
  | interrupt =>
    dsimp only
    split
    · rename_i hs
      have hclear : Still c c.clearSubtitle := clearSubtitle_still
      refine hclear.steps (abortCurrent_steps (hl.still hclear) ?_ ?_)
      · rw [hclear.state]
        rcases hs with hs | hs <;> rw [hs] <;> rfl
      · rw [hclear.state]
        rcases hs with hs | hs <;> rw [hs] <;> nofun
    · exact hl.steps (.refl c)

theorem wake_steps (hl : Law trace c) (hout : VoiceState.inTurn c.state = false)
    (hsession : c.turnIds.session ≠ 0) : Steps trace c
      (({ c with state := .waitingForWake, pre := [] }.emit (.setState .idle)).resetListener a) := by
  have hw : Law trace { c with state := .waitingForWake, pre := [] } :=
    hl.waits hout hsession rfl rfl rfl rfl
  exact (hw.steps ((emit_still _ rfl).trans resetListener_still)).since rfl

/-- A response that is played to its end is over. -/
theorem Law.drained (hl : Law trace c) (hdrain : c.state = .drainingPlayback) : IsOver trace c := by
  intro link' hlink'
  obtain ⟨link, hlink, -, -, -, hi⟩ := hl.inTurn (by rw [hdrain]; rfl)
  obtain rfl : link = link' := Option.some.inj (hlink.symm.trans hlink')
  have hne : c.state ≠ .cancelPending := by
    rw [hdrain]
    nofun
  obtain ⟨hback, ha⟩ := hi.draining hdrain
  refine ⟨hi.turn, hback, ha, fun _ => (hi.uncancelled hne).1, ?_⟩
  cases hw : awaited trace with
  | none => rfl
  | some i => exact absurd (hi.awaited i hw).1 hne

theorem advanceDeadlines_steps (hl : Law trace c) : Steps trace c (c.advanceDeadlines cfg a).2 := by
  unfold advanceDeadlines
  split
  · split
    · exact hl.steps (.refl c)
    · exact loseConnection_steps hl.1
  rename_i hsession
  split
  · exact loseConnection_steps hl.1
  split
  · rename_i hdrain
    have hin : VoiceState.inTurn c.state = true := by
      rw [hdrain.1]
      rfl
    dsimp only
    split
    · exact hl.steps (.of_eq rfl rfl rfl rfl rfl)
    · exact hl.finish true hin (hl.drained hdrain.1)
  split
  · dsimp only
    split
    · rename_i hs
      exact wake_steps hl (by rw [hs]; rfl) hsession
    · rename_i hs
      exact wake_steps hl (by rw [hs]; rfl) hsession
    · exact loseConnection_steps hl.1
    · rename_i hwake _ hspeech hfollow hpending
      have hin : VoiceState.inTurn c.state = true := by
        cases hs : c.state with
        | waitingForWake => exact absurd hs hwake.1
        | waitingForSpeech => exact absurd hs hspeech
        | waitingForFollowUp => exact absurd hs hfollow
        | _ => rfl
      exact abortCurrent_steps hl hin hpending
  split
  · refine hl.steps (Still.emit ?_ _ rfl)
    exact .of_eq rfl rfl rfl rfl rfl
  · exact hl.steps (.refl c)

theorem Law.sleep (hl : Law trace c) (hout : VoiceState.inTurn c.state = false)
    (hlink : c'.link = c.link) (hevents : c'.events = c.events) (hturn : c'.turnIds = c.turnIds)
    (hstate : c'.state = .waitingForWake) : Law trace c' := by
  by_cases hsession : c.turnIds.session = 0
  · have hwake : c.state = .waitingForWake := by
      obtain ⟨-, hl⟩ := hl
      cases hc : c.link with
      | none =>
        rw [hc] at hl
        exact hl.2.2
      | some link =>
        rw [hc] at hl
        have hp := hl.2
        rw [Phase, if_pos hsession] at hp
        exact hp.state
    refine ⟨hl.1, ?_⟩
    obtain ⟨-, hl⟩ := hl
    rw [hlink]
    cases hc : c.link with
    | none =>
      rw [hc] at hl
      exact ⟨hturn.trans hl.1, hevents.trans hl.2.1, hstate⟩
    | some link =>
      rw [hc] at hl
      obtain ⟨hl, hp⟩ := hl
      refine ⟨hl.congr hevents, ?_⟩
      rw [Phase, if_pos hsession] at hp
      rw [Phase, hturn, if_pos hsession]
      exact ⟨hstate, by rw [backlog, hevents]; exact hp.backlog, hp.turn, hp.inactive,
        hp.responseDone, hp.awaited⟩
  · exact hl.waits hout hsession hlink hevents hturn (by rw [hstate]; rfl)

theorem onGap_steps (hl : Law trace c) : Steps trace c (c.onGap cfg a) := by
  have hpre : Still c { c with pre := [] } := .of_eq rfl rfl rfl rfl rfl
  have habort (hin : VoiceState.inTurn c.state = true) (hne : c.state ≠ .cancelPending) :
      Steps trace c ({ c with pre := [] }.abortCurrent cfg a) :=
    hpre.steps (abortCurrent_steps (hl.still hpre) hin hne)
  have hsleep (hout : VoiceState.inTurn c.state = false) : Steps trace c
      (({ { c with pre := [] }.emit .dropPlayback with state := .waitingForWake }.emit
        (.setState .idle)).resetListener a) := by
    refine Steps.since (Law.steps ?_ (Still.trans (emit_still _ rfl) resetListener_still)) ?_
    · exact hl.sleep hout rfl rfl rfl rfl
    · exact (emit_still .dropPlayback rfl).sends
  unfold onGap
  dsimp only
  split
  -- a cancel goes on
  · exact hl.steps (.of_eq rfl rfl rfl rfl rfl)
  iterate 4
    · rename_i hs
      exact habort (by rw [hs]; rfl) (by rw [hs]; nofun)
  all_goals
    rename_i hs
    exact hsleep (by rw [hs]; rfl)

theorem Law.start (ended : Bool) (hl : Law trace c) (hout : VoiceState.inTurn c.state = false)
    (hsession : c.turnIds.session ≠ 0) : Steps trace c (c.startTurn cfg a ended) := by
  obtain ⟨link, hlink, hlinked, hon, hr⟩ := hl.ready hout hsession
  exact startTurn_steps ended hl.1 hlink hlinked hsession hon hr

theorem beginListening_steps (hl : Law trace c) (hout : VoiceState.inTurn c.state = false)
    (hsession : c.turnIds.session ≠ 0) : Steps trace c (c.beginListening a) := by
  unfold beginListening
  refine Steps.since (Law.steps ?_ (Still.trans (emit_still _ rfl) resetListener_still)) ?_
  · exact hl.waits hout hsession rfl rfl rfl rfl
  · rfl

theorem handleBarge_steps (hl : Law trace c) (hin : VoiceState.inTurn c.state = true)
    (hne : c.state ≠ .cancelPending) : Steps trace c (c.handleBarge cfg a frame) := by
  have hj : Still c (c.judgeBarge cfg frame).2 := judgeBarge_still
  unfold handleBarge
  split
  · exact hl.steps (.of_eq rfl rfl rfl rfl rfl)
  generalize c.judgeBarge cfg frame = r at hj
  obtain ⟨v, d⟩ := r
  cases v with
  | goesOn => exact hl.steps hj
  | rejected => exact hl.steps (hj.trans (.of_eq rfl rfl rfl rfl rfl))
  | confirmed =>
    exact hj.steps (confirmBarge_steps (hl.still hj) (hj.state ▸ hin) (hj.state ▸ hne))

theorem dispatchFrame_steps (hl : Law trace c) (hsession : c.turnIds.session ≠ 0) :
    Steps trace c (c.dispatchFrame cfg a frame) := by
  unfold dispatchFrame
  split
  -- waiting for the wake word or a touch
  · rename_i hs
    have hout : VoiceState.inTurn c.state = false := by rw [hs]; rfl
    split
    · have hmanual : Still c { c with manualWakePending := false } := .of_eq rfl rfl rfl rfl rfl
      exact hmanual.steps (beginListening_steps (hl.still hmanual) hout hsession)
    · split
      · exact beginListening_steps hl hout hsession
      · exact hl.steps (.refl c)
  -- waiting for speech
  · rename_i hs
    split
    · exact hl.start false (by rw [hs]; rfl) hsession
    · exact hl.steps (.refl c)
  -- waiting for a follow-up
  · rename_i hs
    split
    · exact hl.steps (.of_eq rfl rfl rfl rfl rfl)
    · have hcount : Still c { c with followUpNearFrames := c.followUpNearFrames + 1 } :=
        .of_eq rfl rfl rfl rfl rfl
      dsimp only
      split
      · exact hcount.steps ((hl.still hcount).start false
          (show VoiceState.inTurn c.state = false by rw [hs]; rfl) hsession)
      · exact hl.steps hcount
  -- capturing
  · rename_i hs
    have hin : VoiceState.inTurn c.state = true := by rw [hs]; rfl
    have hne : c.state ≠ .cancelPending := by rw [hs]; nofun
    split
    · exact commit_steps hl hin hne
    · split
      · have hended : Still c { c with bargeEnded := false } := .of_eq rfl rfl rfl rfl rfl
        exact hended.steps (commit_steps (hl.still hended) hin hne)
      · exact (sendAudioOrRecover_steps cfg a frame false hl hin hne).1
  -- playing
  · rename_i hs
    exact handleBarge_steps hl (by rw [hs]; rfl) (by rw [hs]; nofun)
  · rename_i hs
    exact handleBarge_steps hl (by rw [hs]; rfl) (by rw [hs]; nofun)
  -- a cancel is pending
  · exact hl.steps trackBargeUtterance_still
  · exact hl.steps (.refl c)

theorem onFrame_steps (hl : Law trace c) : Steps trace c (c.onFrame cfg a frame) := by
  have hnext : Still c { c with nextCaptureSequence := frame.sequence + 1 } :=
    .of_eq rfl rfl rfl rfl rfl
  have hbuf := hnext.trans (bufferFrame_still frame)
  unfold onFrame
  dsimp only
  split
  · exact hnext.steps (onGap_steps (hl.still hnext))
  split
  · split
    · exact hl.steps (hbuf.trans resetListener_still)
    · exact hl.steps hbuf
  · exact hbuf.steps (dispatchFrame_steps (hl.still hbuf) (by assumption))

-- ---------------------------------------------------------------------------
-- The transport's callbacks
-- ---------------------------------------------------------------------------

/-- What a callback queues: at most one event, which the transport emits. -/
structure Queues (s t : Transport) (c c' : VoiceClient) : Prop where
  wanes : s.Wanes t
  follows : ∃ h, t.Follows h
  link : ∃ link', c'.link = some link' ∧ link'.transport = t
  turnIds : c'.turnIds = c.turnIds
  state : c'.state = c.state
  sends : c'.sends = c.sends
  events : c'.events = c.events ∨ ∃ event, c'.events = c.events ++ [event] ∧
    ∀ e, event = .inbound e → s.Emits t e

theorem Queues.backlog (hq : Queues s t c c') : c'.backlog = c.backlog ∨
    ∃ e, c'.backlog = c.backlog ++ [e] ∧ s.Emits t e ∧ e.turnIds.isSome = true := by
  rcases hq.events with he | ⟨event, he, hemits⟩
  · exact .inl (by rw [VoiceClient.backlog, he, VoiceClient.backlog])
  cases event with
  | heartbeat => exact .inl (by simp [VoiceClient.backlog, he, QueuedEvent.ofTurn])
  | inbound e =>
    by_cases hi : e.turnIds.isSome = true
    · exact .inr ⟨e, by simp [VoiceClient.backlog, he, QueuedEvent.ofTurn, hi], hemits e rfl, hi⟩
    · exact .inl (by simp [VoiceClient.backlog, he, QueuedEvent.ofTurn, hi])

theorem Queues.helloAcks (hq : Queues s t c c') : c'.helloAcks = c.helloAcks ∨
    ∃ ids, c'.helloAcks = c.helloAcks ++ [ids] ∧ s.session = 0 ∧ ids.session ≠ 0 ∧
      t.session = ids.session := by
  rcases hq.events with he | ⟨event, he, hemits⟩
  · exact .inl (by rw [VoiceClient.helloAcks, he, VoiceClient.helloAcks])
  cases event with
  | heartbeat => exact .inl (by simp [VoiceClient.helloAcks, he, QueuedEvent.helloAck])
  | inbound e =>
    cases e with
    | helloAck ids =>
      refine .inr ⟨ids, by simp [VoiceClient.helloAcks, he, QueuedEvent.helloAck], ?_⟩
      cases hemits _ rfl with
      | helloAck h1 h2 h3 => exact ⟨h1, h2, h3⟩
      | body _ hbody => cases hbody
    | _ => exact .inl (by simp [VoiceClient.helloAcks, he, QueuedEvent.helloAck])

theorem Ready.queues (hr : Ready trace s c) (hq : Queues s t c c') : Ready trace t c' where
  backlog := by
    rcases hq.backlog with hb | ⟨e, -, he, hi⟩
    · exact hb.trans hr.backlog
    · rcases he.running hi with ha | ⟨hd, hc, -⟩
      · simp [hr.inactive] at ha
      · simp [hr.closed hd] at hc
  inactive := hq.wanes.inactive hr.inactive
  closed hd := by
    rcases hq.wanes.responseDone hd with hd | ha
    · exact hq.wanes.uncancelled (hr.closed hd)
    · simp [hr.inactive] at ha
  turn := by rw [hq.turnIds, hq.wanes.turn, hr.turn]
  stream := by rw [hq.turnIds, hq.wanes.turn, hr.stream]
  awaited := hr.awaited

theorem InTurn.queues (hi : InTurn trace s c) (hq : Queues s t c c') : InTurn trace t c' where
  turn := by rw [hq.turnIds, hq.wanes.turn, hi.turn]
  ordered := by
    rcases hq.backlog with hb | ⟨e, hb, he, hturn⟩
    · exact hb ▸ hi.ordered.wanes hq.wanes
    · exact hb ▸ hi.ordered.snoc hq.wanes he hturn
  uncancelled hne := by
    obtain ⟨hsent, hback, hless⟩ := hi.uncancelled (hq.state ▸ hne)
    refine ⟨hq.wanes.uncancelled hsent, fun ids hmem => ?_, hq.wanes.turn ▸ hless⟩
    rcases hq.backlog with hb | ⟨e, hb, he, -⟩
    · exact hback ids (hb ▸ hmem)
    · simp only [hb, List.mem_append, List.mem_singleton] at hmem
      rcases hmem with hmem | rfl
      · exact hback ids hmem
      · cases he with
        | body _ hbody => cases hbody
        | cancelled _ hcancel => simp [hsent] at hcancel
  draining hdrain := by
    have hdrain : c.state = .drainingPlayback := hq.state ▸ hdrain
    obtain ⟨hback, ha⟩ := hi.draining hdrain
    refine ⟨?_, hq.wanes.inactive ha⟩
    rcases hq.backlog with hb | ⟨e, -, he, hturn⟩
    · exact hb.trans hback
    · rcases he.running hturn with hact | ⟨-, hc, -⟩
      · simp [ha] at hact
      · simp [(hi.uncancelled (by simp [hdrain])).1] at hc
  awaited i hw := by
    rw [hq.state, hq.wanes.turn]
    exact hi.awaited i hw

theorem Offline.queues (ho : Offline trace s c) (hq : Queues s t c c') : Offline trace t c' where
  state := hq.state.trans ho.state
  backlog := by
    rcases hq.backlog with hb | ⟨e, -, he, hi⟩
    · exact hb.trans ho.backlog
    · rcases he.running hi with ha | ⟨hd, -⟩
      · simp [ho.inactive] at ha
      · simp [ho.responseDone] at hd
  turn := hq.wanes.turn.trans ho.turn
  inactive := hq.wanes.inactive ho.inactive
  responseDone := Bool.eq_false_iff.mpr fun hd => by
    rcases hq.wanes.responseDone hd with hd | ha
    · simp [ho.responseDone] at hd
    · simp [ho.inactive] at ha
  awaited := ho.awaited

theorem Online.queues (ho : Online s c) (hsession : c.turnIds.session ≠ 0)
    (hq : Queues s t c c') : Online t c' := by
  have hs : s.session ≠ 0 := ho.session ▸ hsession
  refine ⟨?_, ?_⟩
  · rw [hq.turnIds, ho.session, hq.wanes.session hs]
  · rcases hq.helloAcks with hb | ⟨ids, -, hz, -⟩
    · exact hb.trans ho.acks
    · exact absurd hz hs

theorem Linked.queues (hl : Linked trace s c) (hq : Queues s t c c') : Linked trace t c' where
  follows := hq.follows
  calm := hq.wanes.calm
  starts := hq.wanes.turn ▸ hl.starts
  cancels := hq.wanes.turn ▸ hl.cancels
  acks := by
    obtain ⟨hlen, hacks⟩ := hl.acks
    have hold : ∀ ids ∈ c.helloAcks, ids.session ≠ 0 ∧ ids.session = t.session := fun ids hmem => by
      obtain ⟨hne, hids⟩ := hacks ids hmem
      exact ⟨hne, hids.trans (hq.wanes.session (hids ▸ hne)).symm⟩
    rcases hq.helloAcks with hb | ⟨ids, hb, hz, hne, ht⟩
    · exact hb ▸ ⟨hlen, hold⟩
    · -- the first acknowledgement of the session
      have hnone : c.helloAcks = [] := List.eq_nil_iff_forall_not_mem.mpr fun i hmem => by
        obtain ⟨hi, hsession⟩ := hacks i hmem
        exact hi (hsession.trans hz)
      rw [hb, hnone]
      exact ⟨by simp, by simp [hne, ht]⟩

theorem Law.queues {link : Link} (hl : Law trace c) (hc : c.link = some link)
    (hq : Queues link.transport t c c') : Law trace c' := by
  obtain ⟨ht, hl⟩ := hl
  rw [hc] at hl
  obtain ⟨hl, hp⟩ := hl
  obtain ⟨link', hc', rfl⟩ := hq.link
  refine ⟨ht, ?_⟩
  rw [hc']
  refine ⟨hl.queues hq, ?_⟩
  unfold Phase at hp ⊢
  rw [hq.turnIds, hq.state]
  split
  · rename_i hz
    rw [if_pos hz] at hp
    exact hp.queues hq
  · rename_i hz
    rw [if_neg hz] at hp
    refine ⟨hp.1.queues hz hq, ?_⟩
    split
    · rename_i hin
      rw [if_pos hin] at hp
      exact hp.2.queues hq
    · rename_i hout
      rw [if_neg hout] at hp
      exact hp.2.queues hq

theorem push_events (event : QueuedEvent) : (c.push event).events = c.events ∨
    (c.push event).events = c.events ++ [event] := by
  unfold push
  split
  · exact .inl rfl
  · exact .inr rfl

theorem push_still (event : QueuedEvent) : (c.push event).link = c.link ∧
    (c.push event).turnIds = c.turnIds ∧ (c.push event).state = c.state ∧
    (c.push event).sends = c.sends := by
  unfold push
  split <;> exact ⟨rfl, rfl, rfl, rfl⟩

theorem push_queues {link' : Link} {event : QueuedEvent} (hw : s.Wanes t) (hf : ∃ h, t.Follows h)
    (ht : link'.transport = t) (he : ∀ e, event = .inbound e → Emits s t e) :
    Queues s t c ({ c with link := some link' }.push event) := by
  obtain ⟨hlink, hturn, hstate, hsends⟩ := push_still (c := { c with link := some link' }) event
  refine ⟨hw, hf, ⟨link', hlink, ht⟩, hturn, hstate, hsends, ?_⟩
  rcases push_events (c := { c with link := some link' }) event with h | h
  · exact .inl h
  · exact .inr ⟨event, h, he⟩

theorem hear_queues {link : Link} {r : Transport × Transport.Outcome} (hf : ∃ h, r.1.Follows h)
    (hr : Transport.Comes s r) : Queues s r.1 c (c.hear link r) := by
  obtain ⟨t, outcome⟩ := r
  obtain ⟨hw, he⟩ := hr
  cases outcome with
  | dropped => exact ⟨hw, hf, ⟨_, rfl, rfl⟩, rfl, rfl, rfl, .inl rfl⟩
  | emit event =>
    refine push_queues hw hf rfl fun e heq => ?_
    cases heq
    exact he event rfl
  | protocolError why =>
    refine push_queues hw hf rfl fun e heq => ?_
    cases heq
    exact .session rfl

theorem Law.hears {link : Link} {r : Transport × Transport.Outcome} (hl : Law trace c)
    (hc : c.link = some link) (hf : ∀ h, link.transport.Follows h → ∃ h', r.1.Follows h')
    (hr : ∀ h, link.transport.Follows h →
      (link.transport.active = true → link.transport.responseDone = false) →
      Transport.Comes link.transport r) : Steps trace c (c.hear link r) := by
  have hlinked := hl.2
  rw [hc] at hlinked
  obtain ⟨⟨⟨h, hfollows⟩, hcalm, -⟩, -⟩ := hlinked
  have hq : Queues link.transport r.1 c (c.hear link r) :=
    hear_queues (hf h hfollows) (hr h hfollows hcalm)
  exact ⟨[], by simp [hq.sends], by simpa using hl.queues hc hq⟩

-- ---------------------------------------------------------------------------
-- Connections
-- ---------------------------------------------------------------------------

theorem startConnect_law {connects : Bool} (hl : Law trace c) (hlink : c.link = none) :
    Law [] (c.startConnect cfg a connects) := by
  obtain ⟨-, hl⟩ := hl
  rw [hlink] at hl
  obtain ⟨hturn, hevents, hstate⟩ := hl
  unfold startConnect
  dsimp only
  split
  · split
    · rename_i uuid _ _
      refine ⟨Told.nil, ⟨⟨{}, Transport.fresh_follows⟩, nofun, nofun, nofun, ?_⟩, ?_⟩
      · simp [helloAcks, hevents]
      · rw [Phase, if_pos (by rw [hturn])]
        exact ⟨hstate, by simp [backlog, hevents], rfl, rfl, rfl, rfl⟩
    · exact loseConnection_law .nil
  · exact loseConnection_law .nil

theorem hello_law {d : VoiceClient} (hl : Law trace c) (hs : Sent .hello ids c d) :
    Law (trace ++ [.sent .hello ids]) d := by
  obtain ⟨link, control, hlink, -, hk, -, hd⟩ := hs.link
  have hsent : link.transport.sent control = link.transport := by
    unfold Transport.sent
    rw [hk]
  refine (hl.alike ⟨?_, hs.events, hs.turnIds, hs.state⟩).other rfl rfl
  rw [hlink, hd, hsent]
  exact SameStage.refl link.transport

theorem finishConnect_steps (hl : Law trace c) : Steps trace c (c.finishConnect cfg a) := by
  have hcases := sendControl_cases cfg .hello {} c
  unfold finishConnect
  split
  · exact hl.steps (.refl c)
  generalize c.sendControl cfg .hello {} = r at hcases
  obtain ⟨ok, d⟩ := r
  rcases hcases with ⟨rfl, hs⟩ | ⟨rfl, hk, hs⟩ | ⟨rfl, hs⟩
  · exact hs.steps (loseConnection_steps hl.1)
  · cases hk
  · exact ⟨_, hs.sends, (hello_law hl hs).still (.of_eq rfl rfl rfl rfl rfl)⟩

-- ---------------------------------------------------------------------------
-- Runs
-- ---------------------------------------------------------------------------

theorem pushed_steps {link link' : Link} {event : QueuedEvent} (hl : Law trace c)
    (hlink : c.link = some link) (hsame : link'.transport = link.transport)
    (he : ∀ e, event = .inbound e → Emits link.transport link.transport e) :
    Steps trace c ({ c with link := some link' }.push event) := by
  have hlinked := hl.2
  rw [hlink] at hlinked
  obtain ⟨⟨hfollows, hcalm, -⟩, -⟩ := hlinked
  have hq := push_queues (c := c) (.refl hcalm) hfollows hsame he
  exact ⟨[], by simp [hq.sends], by simpa using hl.queues hlink hq⟩

theorem answered_still : Still c (c.answered a) := .of_eq rfl rfl rfl rfl rfl

theorem Law.step {l : Label} (hl : Law trace c) (hs : step cfg c l = some c') :
    Law (noteTrace trace c l c') c' := by
  have hnote (h : Steps trace c c') : Law (trace ++ c'.sends.drop c.sends.length) c' := by
    obtain ⟨more, hsends, hl⟩ := h
    rw [hsends, List.drop_left]
    exact hl
  have hans (a : Answers) : Law trace (c.answered a) := hl.still answered_still
  have hmoves := step_moves hs
  cases l with
  | opened =>
    obtain ⟨link, hlink, -, rfl⟩ := hmoves
    refine hnote (hl.steps ⟨⟨?_, rfl, rfl, rfl⟩, rfl⟩)
    rw [hlink]
    exact SameStage.refl link.transport
  | ping =>
    obtain ⟨link, hlink, rfl⟩ := hmoves
    have hping : Steps trace c ({ c with link := some link }.push .heartbeat) :=
      pushed_steps hl hlink rfl nofun
    rw [← hlink] at hping
    exact hnote hping
  | text e =>
    obtain ⟨link, hlink, rfl⟩ := hmoves
    refine hnote (hl.hears hlink (fun h hf => ?_) fun h hf hcalm => Transport.onText_comes hf hcalm)
    obtain ⟨h', -, hf'⟩ := Transport.onText_obeys (e := e) hf
    exact ⟨h', hf'⟩
  | binary bytes =>
    obtain ⟨link, hlink, rfl⟩ := hmoves
    refine hnote (hl.hears hlink (fun h hf => ?_) fun h hf hcalm => Transport.onBinary_comes hf hcalm)
    have hobeys : Transport.Obeys link.transport.turn h .binary (link.transport.onBinary bytes) :=
      Transport.onBinary_obeys hf
    obtain ⟨h', -, hf'⟩ := hobeys
    exact ⟨h', hf'⟩
  | failed why =>
    obtain ⟨link, hlink, rfl⟩ := hmoves
    refine hnote (pushed_steps hl hlink rfl fun e heq => ?_)
    cases heq
    exact .session rfl
  | connect a connects =>
    obtain ⟨hlink, rfl⟩ := hmoves
    exact startConnect_law hl hlink
  | event a =>
    obtain ⟨event, events, hevents, -, rfl⟩ := hmoves
    have hsteps : Steps (trace ++ [.handled event]) c
        (({ c with events }.answered a).handleEvent cfg a event) := handleEvent_steps hl hevents
    obtain ⟨more, hsends, hl'⟩ := hsteps
    simpa [noteTrace, hevents, hsends] using hl'
  | finishConnect a =>
    obtain rfl := hmoves
    exact hnote (answered_still.steps (finishConnect_steps (hans a)))
  | action a action =>
    obtain rfl := hmoves
    exact hnote (answered_still.steps (pollAction_steps action (hans a)))
  | overflowed a =>
    obtain rfl := hmoves
    exact hnote (loseConnection_steps hl.1)
  | deadlines a =>
    obtain rfl := hmoves
    exact hnote (answered_still.steps (advanceDeadlines_steps (hans a)))
  | frame a frame =>
    obtain rfl := hmoves
    exact hnote (answered_still.steps (onFrame_steps (hans a)))
  | skip frame =>
    obtain rfl := hmoves
    exact hnote (hl.steps (.of_eq rfl rfl rfl rfl rfl))

def content : Inbound → Option WireIds
  | .responseStart ids | .textDelta ids _ | .audioStart ids | .done ids => some ids
  | .pcm header _ => some header.ids
  | .helloAck _ | .cancelled _ | .error .. => none

/-- The content of a turn that was cancelled is popped and forgotten. -/
theorem Law.forgets {event : Inbound} {events : List QueuedEvent} {i : WireIds} (hl : Law trace c)
    (he : c.events = .inbound event :: events) (hcontent : content event = some ids)
    (hi : i ∈ cancels trace) (hsame : ids.sameTurn i = true)
    (hs : VoiceClient.step cfg c (.event a) = some c') :
    c' = { c with events, capacities := a.capacities } := by
  have hturn : event.turnIds = some ids ∧ event.isCancelled = false := by
    cases event with
    | responseStart | textDelta | audioStart | done | pcm => exact ⟨hcontent, rfl⟩
    | helloAck | cancelled | error => cases hcontent
  have hback : c.backlog = event :: backlog { c with events } := by
    simp [backlog, he, QueuedEvent.ofTurn, hturn.1]
  obtain ⟨link, -, -, -, -, hturns⟩ := hl.inTurn (hl.waiting (by rw [hback]; nofun))
  have hstate : c.state = .cancelPending := by
    by_contra hne
    have hbefore := (hturns.uncancelled hne).2.2 i hi
    have ho := hturns.ordered
    rw [hback] at ho
    have hids : ids.turn = link.transport.turn.turn :=
      (Transport.sameTurn_iff.mp (ho.1 ids hturn.1)).2.1
    rw [← hids, (Transport.sameTurn_iff.mp hsame).2.1] at hbefore
    exact absurd hbefore (UInt32.lt_irrefl _)
  obtain ⟨event', events', he', -, rfl⟩ := step_moves hs
  rw [he] at he'
  cases he'
  unfold handleEvent
  cases event with
  | error => cases hcontent
  | _ => exact if_pos ⟨hstate, by simp [hturn.2]⟩

/-- On every connection the identities of turns grow, every turn is cancelled once at most,
no turn begins before the cancel of an earlier one is answered, and what still arrives of a
cancelled turn's response changes nothing. -/
theorem cancel_fence (cfg : ClientConfig) {o : Lts.Machine.Observed VoiceClient (List Entry)}
    (h : ((machine cfg).observed [] noteTrace).Reachable o) :
    (starts o.notes).Pairwise Below ∧
    (cancels o.notes).Pairwise (fun i j => i.turn < j.turn) ∧
    (∀ before between cancel i ids, Entry.cancel cancel = some i →
      before ++ cancel :: between ++ [.sent .turnStart ids] <+: o.notes →
      ∃ event, .handled (.inbound event) ∈ between ∧ event.ending.any (·.sameTurn i) = true) ∧
    (∀ event events ids i, o.state.events = .inbound event :: events → content event = some ids →
      i ∈ cancels o.notes → ids.sameTurn i = true →
      ∀ a c', step cfg o.state (.event a) = some c' →
        c' = { o.state with events, capacities := a.capacities }) := by
  have hl : Law o.notes o.state := by
    refine Lts.Machine.observed_invariant (J := fun _ => True) (K := fun c trace => Law trace c) h
      (fun _ _ => trivial) ?_ fun c trace l c' _ _ hl hs => hl.step hs
    rintro _ ⟨origin, rfl⟩
    exact ⟨.nil, rfl, rfl, rfl⟩
  refine ⟨hl.1.grow, hl.1.once, fun before between cancel i ids hi hpre => ?_,
    fun event events ids i he hcontent hi hsame a c' hs => hl.forgets he hcontent hi hsame hs⟩
  have hnone := hl.1.fence _ _ hpre (.inl rfl)
  by_contra hno
  have hawaits : awaited (before ++ cancel :: between) = some i := by
    refine hl.1.awaits hi ((List.prefix_append _ _).trans hpre) fun e he => ?_
    refine Bool.eq_false_iff.mpr fun ha => hno ?_
    cases e with
    | sent => cases ha
    | handled event =>
      cases event with
      | heartbeat => cases ha
      | inbound event => exact ⟨event, he, ha⟩
  rw [hnone] at hawaits
  cases hawaits

-- ---------------------------------------------------------------------------
-- A run
-- ---------------------------------------------------------------------------

def sampleCancel : List Label :=
  [.text { deviceId := sampleConfig.deviceId, ids := sampleResponse, payload := .textDelta "r" "x" },
    .action {} .interrupt]

/-- The cancel is answered, and more near voice begins the next turn. -/
def sampleFollowUp : List Label :=
  List.flatten [[.event {}], answer sampleResponse (.cancelled "user"),
    (List.range 20).map fun n => .frame {} { sampleFrame (3 + n) with nearVoice := true }]

def sampleText : Inbound := .textDelta sampleResponse "x"

/-- A cancelled turn: what waits of it is forgotten, and the next turn is begun after the
answer only. -/
theorem cancel_fence_answered :
    (∃ o, ((machine sampleConfig).observed [] noteTrace).Reachable o ∧
      cancels o.notes = [sampleResponse] ∧ o.state.events = [.inbound sampleText] ∧
      ∀ a c', step sampleConfig o.state (.event a) = some c' →
        c' = { o.state with events := [], capacities := a.capacities }) ∧
    ∃ o, ((machine sampleConfig).observed [] noteTrace).Reachable o ∧ ∃ before between ids,
      o.notes = before ++ .sent .responseCancel sampleResponse :: between ++ [.sent .turnStart ids] ∧
      (∃ event, .handled (.inbound event) ∈ between ∧
        event.ending.any (·.sameTurn sampleResponse) = true) := by
  constructor
  · obtain ⟨o, -, hreach, hp⟩ := Lts.Machine.exists_of_run
      ((machine sampleConfig).observed [] noteTrace) ⟨{}, []⟩
      (sampleTurnRun ++ samplePlayback ++ sampleCancel)
      (fun o => decide (cancels o.notes = [sampleResponse] ∧ o.state.events = [.inbound sampleText]))
      ⟨⟨0, rfl⟩, rfl⟩ (by decide +kernel)
    obtain ⟨hcancels, hevents⟩ := of_decide_eq_true hp
    obtain ⟨-, -, -, hforgets⟩ := cancel_fence sampleConfig hreach
    exact ⟨o, hreach, hcancels, hevents,
      hforgets sampleText [] sampleResponse sampleResponse hevents rfl (by simp [hcancels]) rfl⟩
  · obtain ⟨o, -, hreach, hp⟩ := Lts.Machine.exists_of_run
      ((machine sampleConfig).observed [] noteTrace) ⟨{}, []⟩
      (List.flatten [sampleTurnRun, samplePlayback, sampleCancel, sampleFollowUp])
      (fun o => decide (o.notes = o.notes.take 6 ++
        .sent .responseCancel sampleResponse :: [.handled (.inbound sampleText),
          .handled (.inbound (.cancelled sampleResponse))] ++
        [.sent .turnStart { session := 5, turn := 2, stream := 2, epoch := 2 }]))
      ⟨⟨0, rfl⟩, rfl⟩ (by decide +kernel)
    have hnotes := of_decide_eq_true hp
    obtain ⟨-, -, hfence, -⟩ := cancel_fence sampleConfig hreach
    exact ⟨o, hreach, _, _, _, hnotes, hfence _ _ _ _ _ rfl ⟨[], by rw [List.append_nil, ← hnotes]⟩⟩

end BoomPI.Client.VoiceClient
