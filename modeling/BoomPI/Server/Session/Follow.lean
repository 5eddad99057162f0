import BoomPI.Server.Session.Moves
import BoomPI.Server.Session.Trace

/-!
# Which observations can follow which

The invariant keeps, for every past observation, what the state still knows
about it (`Past`); that is enough to see which observations can come after it
(`Follows`), and a step only adds observations that can.
-/

namespace BoomPI.Session

open Backend (Error ConversationEvent EventType Call Outcomes)

variable {π κ : Type} {P : Backend.Session π κ} {Opened : π → Prop} {a b : Actor π}
  {s s' : ActorState} {o o' : Obs} {l : Label κ}

/-- `o'` may come after `o`, at any distance. -/
structure Follows (o o' : Obs) : Prop where
  start : ∀ e ∈ o.starts, ∀ e' ∈ o'.starts, e < e'
  order : ∀ ev ∈ o.writes, ∀ ev' ∈ o'.writes, ev.epoch ≤ ev'.epoch
  response : ∀ ev ∈ o.writes, ∀ ev' ∈ o'.writes, ev.epoch = ev'.epoch →
    ev.raw.responseID ≠ "" → ev'.raw.responseID ≠ "" → ev.raw.responseID = ev'.raw.responseID
  terminal : ∀ ev ∈ o.writes, ∀ ev' ∈ o'.writes, ev.raw.type.terminal = true →
    ev.epoch ≠ ev'.epoch
  silence : ∀ e ∈ o.cancels, ∀ ev ∈ o'.writes, ev.epoch ≠ e
  committed : ∀ e ∈ o.commits, ∀ e' ∈ o'.uses, e' ≠ e
  cancelled : ∀ e ∈ o.cancels, ∀ e' ∈ o'.uses, e' ≠ e
  started : ∀ e ∈ o.starts, ∀ e' ∈ o'.uses, e ≤ e'
  ended : ∀ ev ∈ o.writes, ∀ e' ∈ o'.uses, ev.raw.type.terminal = true → ev.epoch ≠ e'

/-- What the state still knows about an event written, or about to be. -/
structure WroteOk (s : ActorState) (ev : Event) : Prop where
  le : ev.epoch ≤ s.latest
  listening : s.phase = .listening → ev.epoch ≠ s.epoch
  opened : s.phase.responding = true → ev.epoch = s.epoch → ev.raw.type.terminal = false
  response : s.phase.responding = true → ev.epoch = s.epoch → ev.raw.responseID ≠ "" →
    ev.raw.responseID = s.responseID

/-- What the state still knows about a past observation. -/
structure Past (s : ActorState) (o : Obs) : Prop where
  start : ∀ e ∈ o.starts, e ≤ s.latest
  wrote : ∀ ev ∈ o.writes, WroteOk s ev
  cancel : ∀ e ∈ o.cancels, e ≤ s.latest ∧ (s.phase ≠ .idle → s.epoch ≠ e)
  commit : ∀ e ∈ o.commits, e ≤ s.latest ∧ (s.phase = .listening → s.epoch ≠ e)

/-- The invariant of a running actor. -/
structure Sound (a : Actor π) : Prop where
  epoch_le : a.state.epoch ≤ a.state.latest
  current : a.state.phase ≠ .idle → a.state.epoch = a.state.latest
  past : ∀ o ∈ a.trace, Past a.state o
  pending : ∀ ev ∈ a.state.pending, WroteOk a.state ev ∧ ∀ o ∈ a.trace, Follows o (.wrote ev)
  frames : a.state.phase = .listening → a.state.frames ≠ 0 →
    ∃ pcm, Obs.called (.sendAudio a.state.epoch pcm) none ∈ a.trace

-- ---------------------------------------------------------------------------
-- What a past observation still allows
-- ---------------------------------------------------------------------------

theorem Phase.listening_or_responding {p : Phase} (h : p ≠ .idle) :
    p = .listening ∨ p.responding = true := by
  cases p <;> simp_all [Phase.responding]

theorem Phase.listening_ne {p : Phase} (h : p = .listening) : p ≠ .idle := by
  simp [h]

theorem Phase.responding_ne {p : Phase} (h : p.responding = true) :
    p ≠ .idle ∧ p ≠ .listening := by
  cases p <;> simp_all [Phase.responding]

theorem Follows.of_silent (hs : o'.starts = none) (hw : o'.writes = none) (hu : o'.uses = none) :
    Follows o o' := by
  constructor <;> simp [hs, hw, hu]

theorem Follows.called_replied (c : Call) (r : Option Error) (cmd : Command) (reply : Option Error) :
    Follows (.called c r) (.replied s cmd reply) := by
  constructor <;> simp [Obs.starts, Obs.writes, Obs.cancels, Obs.uses]

theorem Past.of_eq (h : Past s o) (hp : s'.phase = s.phase) (hl : s'.latest = s.latest)
    (he : s'.epoch = s.epoch) (hr : s'.responseID = s.responseID) : Past s' o := by
  obtain ⟨h1, h2, h3, h4⟩ := h
  refine ⟨hl ▸ h1, fun ev hev => ?_, by rw [hp, hl, he]; exact h3, by rw [hp, hl, he]; exact h4⟩
  obtain ⟨w1, w2, w3, w4⟩ := h2 ev hev
  exact ⟨by rw [hl]; exact w1, by rw [hp, he]; exact w2, by rw [hp, he]; exact w3,
    by rw [hp, he, hr]; exact w4⟩

theorem Past.idle (h : Past s o) (hp : s'.phase = .idle) (hl : s'.latest = s.latest) :
    Past s' o := by
  obtain ⟨h1, h2, h3, h4⟩ := h
  refine ⟨hl ▸ h1, fun ev hev => ?_, fun e he => ?_, fun e he => ?_⟩
  · exact ⟨hl ▸ (h2 ev hev).le, by simp [hp], by simp [hp, Phase.responding],
      by simp [hp, Phase.responding]⟩
  · exact ⟨hl ▸ (h3 e he).1, by simp [hp]⟩
  · exact ⟨hl ▸ (h4 e he).1, by simp [hp]⟩

theorem Past.listen (h : Past s o) (hp : s'.phase = .listening) (hl : s.latest < s'.latest)
    (he : s'.epoch = s'.latest) : Past s' o := by
  obtain ⟨h1, h2, h3, h4⟩ := h
  refine ⟨fun e hm => Nat.le_of_lt (Nat.lt_of_le_of_lt (h1 e hm) hl), fun ev hev => ?_,
    fun e hm => ?_, fun e hm => ?_⟩
  · have := (h2 ev hev).le
    exact ⟨by omega, fun _ => by omega, by simp [hp, Phase.responding],
      by simp [hp, Phase.responding]⟩
  · have := (h3 e hm).1
    exact ⟨by omega, fun _ => by omega⟩
  · have := (h4 e hm).1
    exact ⟨by omega, fun _ => by omega⟩

/-- Committing a turn: nothing of it has been written yet. -/
theorem Past.think (h : Past s o) (hs : s.phase = .listening) (hp : s'.phase = .thinking)
    (hl : s'.latest = s.latest) (he : s'.epoch = s.epoch) : Past s' o := by
  obtain ⟨h1, h2, h3, h4⟩ := h
  refine ⟨hl ▸ h1, fun ev hev => ?_, fun e hm => ?_, fun e hm => ?_⟩
  · have hn := (h2 ev hev).listening hs
    exact ⟨hl ▸ (h2 ev hev).le, by simp [hp], fun _ h => absurd (h.trans he) hn,
      fun _ h => absurd (h.trans he) hn⟩
  · exact ⟨hl ▸ (h3 e hm).1, fun _ => he ▸ (h3 e hm).2 (by simp [hs])⟩
  · exact ⟨hl ▸ (h4 e hm).1, by simp [hp]⟩

theorem Past.respond (h : Past s o) (hs : s.phase.responding = true)
    (hp : s'.phase.responding = true) (hl : s'.latest = s.latest) (he : s'.epoch = s.epoch)
    (hr : s.responseID ≠ "" → s'.responseID = s.responseID) : Past s' o := by
  obtain ⟨h1, h2, h3, h4⟩ := h
  have hidle := (Phase.responding_ne hs).1
  have hlisten := (Phase.responding_ne hp).2
  refine ⟨hl ▸ h1, fun ev hev => ?_, fun e hm => ?_, fun e hm => ?_⟩
  · obtain ⟨w1, -, w3, w4⟩ := h2 ev hev
    refine ⟨hl ▸ w1, fun h => absurd h hlisten, fun _ h => w3 hs (h.trans he), fun _ h hne => ?_⟩
    have hid := w4 hs (h.trans he) hne
    rw [hid, hr (hid ▸ hne)]
  · exact ⟨hl ▸ (h3 e hm).1, fun _ => he ▸ (h3 e hm).2 hidle⟩
  · exact ⟨hl ▸ (h4 e hm).1, fun h => absurd h hlisten⟩

theorem Past.follows_event (h : Past s o) (hc : s.epoch = s.latest) (hidle : s.phase ≠ .idle)
    {ev : Event} (he : ev.epoch = s.epoch)
    (hid : s.phase.responding = true → s.responseID ≠ "" → ev.raw.responseID ≠ "" →
      ev.raw.responseID = s.responseID) : Follows o (.wrote ev) := by
  have current : ∀ w ∈ o.writes, w.epoch = ev.epoch → s.phase.responding = true := by
    intro w hw heq
    rcases Phase.listening_or_responding hidle with hl | hr
    · exact absurd (heq.trans he) ((h.wrote w hw).listening hl)
    · exact hr
  refine ⟨by simp [Obs.starts], ?_, ?_, ?_, ?_, by simp [Obs.uses], by simp [Obs.uses],
    by simp [Obs.uses], by simp [Obs.uses]⟩ <;>
    simp only [Obs.writes, Option.mem_def, Option.some.injEq, forall_eq']
  · intro w hw
    rw [he, hc]
    exact (h.wrote w hw).le
  · intro w hw heq hne hne'
    have hr := current w hw heq
    have hws := (h.wrote w hw).response hr (heq.trans he) hne
    rw [hws, hid hr (hws ▸ hne) hne']
  · intro w hw ht heq
    have := (h.wrote w hw).opened (current w hw heq) (heq.trans he)
    simp [ht] at this
  · intro e hm heq
    exact (h.cancel e hm).2 hidle (he ▸ heq)

theorem Past.follows_input (h : Past s o) (hc : s.epoch = s.latest) (hs : s.phase = .listening)
    {c : Call} {r : Option Error} (hu : c.input = some s.epoch) : Follows o (.called c r) := by
  refine ⟨by simp [Obs.starts], by simp [Obs.writes], by simp [Obs.writes], by simp [Obs.writes],
    by simp [Obs.writes], ?_, ?_, ?_, ?_⟩ <;>
    simp only [Obs.uses, hu, Option.mem_def, Option.some.injEq, forall_eq']
  · exact fun e hm => (h.commit e hm).2 hs
  · exact fun e hm => (h.cancel e hm).2 (by simp [hs])
  · exact fun e hm => hc ▸ h.start e hm
  · exact fun ev hm _ => (h.wrote ev hm).listening hs

theorem Past.follows_start (h : Past s o) {cmd : Command} (hlt : s.latest < cmd.epoch)
    {reply : Option Error} : Follows o (.replied s' cmd reply) := by
  refine ⟨?_, by simp [Obs.writes], by simp [Obs.writes], by simp [Obs.writes],
    by simp [Obs.writes], by simp [Obs.uses], by simp [Obs.uses], by simp [Obs.uses],
    by simp [Obs.uses]⟩
  intro e he e' he'
  have hle := h.start e he
  have : e' = cmd.epoch := by
    simp only [Obs.starts] at he'
    split at he' <;> simp_all
  omega

-- ---------------------------------------------------------------------------
-- The invariant
-- ---------------------------------------------------------------------------

theorem Sound.append {os : List Obs} (hs : Sound a) (hl : a.trace.Pairwise Follows)
    (ht : b.trace = a.trace ++ os) (hf : ∀ o, Past a.state o → ∀ o' ∈ os, Follows o o')
    (ho : os.Pairwise Follows) : b.trace.Pairwise Follows := by
  rw [ht, List.pairwise_append]
  exact ⟨hl, ho, fun o h o' h' => hf o (hs.past o h) o' h'⟩

theorem Sound.past_append {os : List Obs} (hs : Sound a) (ht : b.trace = a.trace ++ os)
    (hm : ∀ o, Past a.state o → Past b.state o) (hn : ∀ o ∈ os, Past b.state o) :
    ∀ o ∈ b.trace, Past b.state o := by
  intro o h
  rw [ht, List.mem_append] at h
  rcases h with h | h
  · exact hm o (hs.past o h)
  · exact hn o h

theorem called_past (c : Call) (r : Option Error) (h : c.input = none) : Past s (.called c r) := by
  constructor <;> simp [Obs.starts, Obs.writes, Obs.cancels, Obs.commits]
  cases c <;> simp [Call.input] at h <;> cases r <;> simp

theorem applied_follows {d : Bool} {out : Outcomes} {cmd : Command} {r : Applied}
    (hc : s.phase ≠ .idle → s.epoch = s.latest) (h : ApplyCase d out cmd s r) (hp : Past s o) :
    ∀ o' ∈ (r.calls.map fun c => Obs.called c (out.of c)) ++ [.replied s cmd r.reply],
      Follows o o' := by
  have silent : ∀ reply, (cmd.op = .startTurn → reply ≠ none) →
      Follows o (.replied s cmd reply) := by
    intro reply hr
    refine .of_silent ?_ rfl rfl
    cases reply with
    | none => simpa [Obs.starts] using hr
    | some err => rfl
  have quiet : ∀ c : Call, c.input = none → ∀ r, Follows o (.called c r) :=
    fun c hi r => .of_silent rfl rfl hi
  cases h with
  | refused hr _ => simpa using silent _ hr
  | started hop hi hlt => simpa using hp.follows_start hlt
  | audio hop hl he _ | audioFailed hop hl he _ =>
    simp only [List.map_cons, List.map_nil, List.cons_append, List.nil_append, List.forall_mem_cons]
    exact ⟨hp.follows_input (hc (by simp [hl])) hl (by simp [Call.input, he]),
      silent _ (by simp [hop]), by simp⟩
  | committed hop hl he _ _ | commitFailed hop hl he _ =>
    simp only [List.map_cons, List.map_nil, List.cons_append, List.nil_append, List.forall_mem_cons]
    exact ⟨hp.follows_input (hc (by simp [hl])) hl (by simp [Call.input, he]),
      silent _ (by simp [hop]), by simp⟩
  | forgot hop _ _ _ | cancelFailed hop _ _ _ =>
    simp only [List.map_cons, List.map_nil, List.cons_append, List.nil_append, List.forall_mem_cons]
    exact ⟨quiet _ rfl _, silent _ (by simp [hop]), by simp⟩
  | discardFailed hop _ _ _ _ _ =>
    simp only [List.map_cons, List.map_nil, List.cons_append, List.nil_append, List.forall_mem_cons]
    exact ⟨quiet _ rfl _, quiet _ rfl _, silent _ (by simp [hop]), by simp⟩
  | cancelled hop _ _ _ hd =>
    rcases hd with ⟨rfl, -⟩ | ⟨rfl, -⟩ <;>
      simp only [List.map_cons, List.map_nil, List.cons_append, List.nil_append,
        List.forall_mem_cons]
    · exact ⟨quiet _ rfl _, quiet _ rfl _, silent _ (by simp [hop]), by simp⟩
    · exact ⟨quiet _ rfl _, quiet _ rfl _, quiet _ rfl _, silent _ (by simp [hop]), by simp⟩

theorem applied_pairwise {d : Bool} {out : Outcomes} {cmd : Command} {r : Applied}
    (h : ApplyCase d out cmd s r) :
    ((r.calls.map fun c => Obs.called c (out.of c)) ++ [Obs.replied s cmd r.reply]).Pairwise
      Follows := by
  have quiet : ∀ (o : Obs) (c : Call), c.input = none → ∀ r, Follows o (.called c r) :=
    fun o c hi r => .of_silent rfl rfl hi
  cases h with
  | cancelled _ _ _ _ hd =>
    rcases hd with ⟨rfl, -⟩ | ⟨rfl, -⟩ <;>
      simp [Follows.called_replied, quiet _ .drain rfl, quiet _ (.discardLastResponse cmd.epoch) rfl]
  | _ => simp [Follows.called_replied, quiet _ (.discardLastResponse cmd.epoch) rfl]

-- ---------------------------------------------------------------------------
-- Steps keep it
-- ---------------------------------------------------------------------------

theorem Past.of_silent (hs : o.starts = none) (hw : o.writes = none) (hc : o.cancels = none)
    (hm : o.commits = none) : Past s o := by
  constructor <;> simp [hs, hw, hc, hm]

theorem Past.wroteOk {ev : Event} (h : Past s (.wrote ev)) : WroteOk s ev := h.wrote ev rfl

theorem WroteOk.past {ev : Event} (h : WroteOk s ev) : Past s (.wrote ev) := by
  refine ⟨by simp [Obs.starts], ?_, by simp [Obs.cancels], by simp [Obs.commits]⟩
  rintro _ ⟨⟩
  exact h

/-- An accepted event still held can follow what neither writes nor cancels it. -/
theorem Follows.before_wrote {ev : Event} (hw : o.writes = none)
    (hc : ∀ e ∈ o.cancels, ev.epoch ≠ e) : Follows o (.wrote ev) := by
  refine ⟨by simp [Obs.starts], by simp [hw], by simp [hw], by simp [hw], ?_, by simp [Obs.uses],
    by simp [Obs.uses], by simp [Obs.uses], by simp [hw]⟩
  rintro e he _ ⟨⟩
  exact hc e he

def Applied.obs (r : Applied) (out : Outcomes) (s : ActorState) (cmd : Command) : List Obs :=
  (r.calls.map fun c => .called c (out.of c)) ++ [.replied s cmd r.reply]

section Applied

variable {d : Bool} {out : Outcomes} {cmd : Command} {r : Applied}

theorem ApplyCase.past (h : ApplyCase d out cmd s r) (hp : Past s o) : Past r.state o := by
  cases h with
  | started _ _ hlt => exact hp.listen rfl hlt rfl
  | committed _ hl _ _ _ => exact hp.think hl rfl rfl rfl
  | cancelled => exact hp.idle rfl rfl
  | _ => exact hp.of_eq rfl rfl rfl rfl

theorem ApplyCase.epoch_le (h : ApplyCase d out cmd s r) (hs : s.epoch ≤ s.latest) :
    r.state.epoch ≤ r.state.latest := by
  cases h with
  | started => exact Nat.le_refl _
  | cancelled => exact Nat.zero_le _
  | _ => exact hs

theorem ApplyCase.latest_le (h : ApplyCase d out cmd s r) : s.latest ≤ r.state.latest := by
  cases h with
  | started _ _ hlt => exact Nat.le_of_lt hlt
  | _ => exact Nat.le_refl _

theorem ApplyCase.current (h : ApplyCase d out cmd s r)
    (hs : s.phase ≠ .idle → s.epoch = s.latest) :
    r.state.phase ≠ .idle → r.state.epoch = r.state.latest := by
  cases h with
  | started => exact fun _ => rfl
  | committed _ hl _ _ _ => exact fun _ => hs (by simp [hl])
  | cancelled => exact fun h => absurd rfl h
  | _ => exact hs

theorem ApplyCase.obs_past (h : ApplyCase d out cmd s r) (hle : s.epoch ≤ s.latest) :
    ∀ o ∈ r.obs out s cmd, Past r.state o := by
  have audio : ∀ e pcm x t, Past t (.called (.sendAudio e pcm) x) :=
    fun e pcm x t => .of_silent rfl rfl rfl rfl
  have failed : ∀ e err t, Past t (.called (.commit e) (some err)) :=
    fun e err t => .of_silent rfl rfl rfl rfl
  have refused : ∀ err t, Past t (.replied s cmd (some err)) :=
    fun err t => .of_silent rfl rfl rfl rfl
  have plain : cmd.op ≠ .startTurn → cmd.op ≠ .cancelTurn ∨ s.phase = .idle →
      ∀ reply t, Past t (.replied s cmd reply) := by
    intro h1 h2 reply t
    cases reply with
    | some err => exact refused err t
    | none =>
      refine .of_silent ?_ rfl ?_ rfl
      · simp [Obs.starts, h1]
      · rcases h2 with h2 | h2 <;> simp [Obs.cancels, h2]
  cases h with
  | @refused reply hstart hcancel =>
    simp only [Applied.obs, List.map_nil, List.nil_append, List.forall_mem_singleton]
    cases reply with
    | some err => exact refused err _
    | none =>
      refine .of_silent ?_ rfl ?_ rfl
      · simpa [Obs.starts] using hstart
      · simp only [Obs.cancels, ite_eq_right_iff]
        exact fun h => absurd h.2.2 (hcancel h.1 h.2.1)
  | started hop _ _ =>
    simp only [Applied.obs, List.map_nil, List.nil_append, List.forall_mem_singleton]
    refine ⟨?_, by simp [Obs.writes], by simp [Obs.cancels, hop], by simp [Obs.commits]⟩
    simp [Obs.starts, hop]
  | audio hop _ _ _ =>
    simp only [Applied.obs, List.map_cons, List.map_nil, List.cons_append, List.nil_append,
      List.forall_mem_cons]
    exact ⟨audio _ _ _ _, plain (by simp [hop]) (by simp [hop]) _ _, by simp⟩
  | audioFailed =>
    simp only [Applied.obs, List.map_cons, List.map_nil, List.cons_append, List.nil_append,
      List.forall_mem_cons]
    exact ⟨audio _ _ _ _, refused _ _, by simp⟩
  | committed hop _ he _ ho =>
    simp only [Applied.obs, List.map_cons, List.map_nil, List.cons_append, List.nil_append,
      List.forall_mem_cons]
    refine ⟨⟨by simp [Obs.starts], by simp [Obs.writes], by simp [Obs.cancels], ?_⟩,
      plain (by simp [hop]) (by simp [hop]) _ _, by simp⟩
    simp only [Outcomes.of, ho, Obs.commits, Option.mem_def, Option.some.injEq, forall_eq']
    exact ⟨he ▸ hle, nofun⟩
  | commitFailed _ _ _ ho =>
    simp only [Applied.obs, List.map_cons, List.map_nil, List.cons_append, List.nil_append,
      List.forall_mem_cons, Outcomes.of, ho]
    exact ⟨failed _ _ _, refused _ _, by simp⟩
  | forgot hop hi _ _ =>
    simp only [Applied.obs, List.map_cons, List.map_nil, List.cons_append, List.nil_append,
      List.forall_mem_cons]
    exact ⟨called_past _ _ rfl, plain (by simp [hop]) (.inr hi) _ _, by simp⟩
  | cancelFailed =>
    simp only [Applied.obs, List.map_cons, List.map_nil, List.cons_append, List.nil_append,
      List.forall_mem_cons]
    exact ⟨called_past _ _ rfl, refused _ _, by simp⟩
  | discardFailed =>
    simp only [Applied.obs, List.map_cons, List.map_nil, List.cons_append, List.nil_append,
      List.forall_mem_cons]
    exact ⟨called_past _ _ rfl, called_past _ _ rfl, refused _ _, by simp⟩
  | cancelled hop hi he _ hd =>
    have replied : Past { s with
        pending := s.pending.filter fun event => event.epoch ≠ s.epoch
        phase := .idle, epoch := 0, responseID := "", frames := 0 } (.replied s cmd none) := by
      refine ⟨by simp [Obs.starts, hop], by simp [Obs.writes], ?_, by simp [Obs.commits]⟩
      simp only [Obs.cancels, hop, hi, he, ne_eq, not_false_eq_true, and_self, if_true,
        Option.mem_def, Option.some.injEq, forall_eq']
      exact ⟨hle, by simp⟩
    rcases hd with ⟨rfl, -⟩ | ⟨rfl, -⟩ <;>
      simp only [Applied.obs, List.map_cons, List.map_nil, List.cons_append, List.nil_append,
        List.forall_mem_cons]
    · exact ⟨called_past _ _ rfl, called_past _ _ rfl, replied, by simp⟩
    · exact ⟨called_past _ _ rfl, called_past _ _ rfl,
        called_past _ _ rfl, replied, by simp⟩

theorem Applied.obs_writes (ho : o ∈ r.obs out s cmd) : o.writes = none := by
  simp only [Applied.obs, List.mem_append, List.mem_map, List.mem_singleton] at ho
  rcases ho with ⟨c, -, rfl⟩ | rfl
  · rfl
  · rfl

theorem Applied.obs_cancels {e : Nat} (ho : o ∈ r.obs out s cmd) (he : e ∈ o.cancels) :
    cmd.op = .cancelTurn ∧ s.phase ≠ .idle ∧ cmd.epoch = s.epoch ∧ r.reply = none ∧ e = s.epoch := by
  simp only [Applied.obs, List.mem_append, List.mem_map, List.mem_singleton] at ho
  rcases ho with ⟨c, -, rfl⟩ | rfl
  · cases he
  · cases hr : r.reply with
    | some err => simp [Obs.cancels, hr] at he
    | none =>
      simp only [Obs.cancels, hr, Option.mem_def, Option.ite_none_right_eq_some] at he
      obtain ⟨⟨h1, h2, h3⟩, h4⟩ := he
      cases h4
      exact ⟨h1, h2, h3, rfl, h3⟩

/-- A command drops the held event or leaves it; only a cancelled turn loses it. -/
theorem ApplyCase.pending (h : ApplyCase d out cmd s r) {ev : Event} (hev : ev ∈ r.state.pending) :
    ev ∈ s.pending ∧ ∀ o ∈ r.obs out s cmd, Follows o (.wrote ev) := by
  have kept : ∀ ev ∈ r.state.pending, ev ∈ s.pending := by
    intro ev hev
    cases h with
    | cancelled => exact ((Option.mem_filter_iff).mp hev).1
    | _ => exact hev
  refine ⟨kept ev hev, fun o ho => .before_wrote (Applied.obs_writes ho) fun e he heq => ?_⟩
  obtain ⟨hop, hi, hc, hr, rfl⟩ := Applied.obs_cancels ho he
  cases h with
  | refused _ hn => exact hn hop hi hc
  | cancelled =>
    have := ((Option.mem_filter_iff).mp hev).2
    simp [heq] at this
  | _ => simp_all

theorem ApplyCase.frames (h : ApplyCase d out cmd s r) (hp : r.state.phase = .listening)
    (hf : r.state.frames ≠ 0) : (s.phase = .listening ∧ r.state.epoch = s.epoch ∧ s.frames ≠ 0) ∨
      ∃ pcm, .called (.sendAudio r.state.epoch pcm) none ∈ r.obs out s cmd := by
  cases h with
  | started => exact absurd rfl hf
  | audio _ hl he ho => exact .inr ⟨cmd.pcm, by simp [Applied.obs, he, Outcomes.of, ho]⟩
  | committed => cases hp
  | cancelled => cases hp
  | _ => exact .inl ⟨hp, rfl, hf⟩

theorem Sound.applied (h : Sound a) (hc : ApplyCase d out cmd a.state r) (hs : b.state = r.state)
    (ht : b.trace = a.trace ++ r.obs out a.state cmd) : Sound b := by
  refine ⟨?_, ?_, ?_, ?_, ?_⟩
  · rw [hs]
    exact hc.epoch_le h.epoch_le
  · rw [hs]
    exact hc.current h.current
  · exact h.past_append ht (fun o ho => hs ▸ hc.past ho) (hs ▸ hc.obs_past h.epoch_le)
  · intro ev hev
    rw [hs] at hev ⊢
    obtain ⟨hold, hnew⟩ := hc.pending hev
    refine ⟨(hc.past (h.pending ev hold).1.past).wroteOk, ?_⟩
    rw [ht]
    intro o ho
    rcases List.mem_append.mp ho with ho | ho
    · exact (h.pending ev hold).2 o ho
    · exact hnew o ho
  · intro hp hf
    rw [hs] at hp hf ⊢
    rw [ht]
    rcases hc.frames hp hf with ⟨hl, he, hf⟩ | ⟨pcm, hm⟩
    · obtain ⟨pcm, hm⟩ := h.frames hl hf
      exact ⟨pcm, List.mem_append_left _ (he ▸ hm)⟩
    · exact ⟨pcm, List.mem_append_right _ hm⟩

end Applied

theorem Sound.of_eq (h : Sound a) (hs : b.state = a.state) (ht : b.trace = a.trace) : Sound b := by
  obtain ⟨h1, h2, h3, h4, h5⟩ := h
  exact ⟨by rw [hs]; exact h1, by rw [hs]; exact h2, by rw [hs, ht]; exact h3,
    by rw [hs, ht]; exact h4, by rw [hs, ht]; exact h5⟩

theorem Sound.expired {cmd : Command} (h : Sound a) (hs : b.state = a.state)
    (ht : b.trace = a.trace ++ [.replied a.state cmd (some .context)]) : Sound b := by
  refine ⟨hs ▸ h.epoch_le, hs ▸ h.current, ?_, fun ev hev => ?_, ?_⟩
  · refine h.past_append ht (fun o ho => hs ▸ ho) ?_
    simp only [List.forall_mem_singleton]
    exact .of_silent rfl rfl rfl rfl
  · rw [hs] at hev ⊢
    refine ⟨(h.pending ev hev).1, ?_⟩
    rw [ht]
    intro o ho
    rcases List.mem_append.mp ho with ho | ho
    · exact (h.pending ev hev).2 o ho
    · rw [List.mem_singleton] at ho
      exact ho ▸ .before_wrote rfl (by simp [Obs.cancels])
  · rw [hs, ht]
    intro hp hf
    obtain ⟨pcm, hm⟩ := h.frames hp hf
    exact ⟨pcm, List.mem_append_left _ hm⟩

section Accepted

variable {raw : ConversationEvent} {event : Option Event}

theorem AcceptCase.past (h : AcceptCase raw s (event, s')) (hp : Past s o) : Past s' o := by
  cases h with
  | ignored => exact hp
  | foreign => exact hp
  | invalid | ended => exact hp.idle rfl rfl
  | accepted hr _ hid _ hr' =>
    refine hp.respond hr hr' rfl rfl fun hne => ?_
    rcases hid with ⟨h, -⟩ | ⟨-, h, -⟩
    · exact absurd h hne
    · exact h

theorem AcceptCase.epochs (h : AcceptCase raw s (event, s')) :
    s'.epoch = s.epoch ∧ s'.latest = s.latest ∧ s'.frames = s.frames ∧
      (s'.phase ≠ .idle → s.phase ≠ .idle) ∧ (s'.phase = .listening → s.phase = .listening) := by
  cases h with
  | ignored | foreign => exact ⟨rfl, rfl, rfl, id, id⟩
  | invalid | ended => exact ⟨rfl, rfl, rfl, fun h => absurd rfl h, nofun⟩
  | accepted hr _ _ _ hr' =>
    exact ⟨rfl, rfl, rfl, fun _ => (Phase.responding_ne hr).1,
      fun h => absurd h (Phase.responding_ne hr').2⟩

theorem AcceptCase.handed (h : AcceptCase raw s (event, s')) {ev : Event} (hev : ev ∈ event) :
    s.phase.responding = true ∧ ev.epoch = s.epoch ∧
      (s.responseID ≠ "" → ev.raw.responseID ≠ "" → ev.raw.responseID = s.responseID) ∧
      (s'.phase.responding = true → ev.raw.type.terminal = false ∧
        (ev.raw.responseID ≠ "" → ev.raw.responseID = s'.responseID)) ∧
      s'.phase ≠ .listening := by
  cases h with
  | ignored | foreign => cases hev
  | invalid hr _ => cases hev; exact ⟨hr, rfl, by simp, by simp [Phase.responding], by simp⟩
  | ended hr _ hid _ =>
    cases hev
    refine ⟨hr, rfl, fun h1 h2 => ?_, by simp [Phase.responding], by simp⟩
    rcases hid with h | h | h
    · exact absurd h h1
    · exact absurd h h2
    · exact h
  | accepted hr _ hid hterm hr' =>
    cases hev
    rcases hid with ⟨h, rfl⟩ | ⟨-, rfl, h⟩
    · exact ⟨hr, rfl, fun hn => absurd h hn, fun _ => ⟨hterm, fun _ => rfl⟩,
        (Phase.responding_ne hr').2⟩
    · exact ⟨hr, rfl, fun _ hn => h.resolve_left hn, fun _ => ⟨hterm, fun hn => h.resolve_left hn⟩,
        (Phase.responding_ne hr').2⟩

theorem Sound.received (h : Sound a) (hc : AcceptCase raw a.state (event, s'))
    (hs : b.state = { s' with pending := event })
    (ht : b.trace = a.trace ++ [.delivered a.state raw]) : Sound b := by
  obtain ⟨he, hl, hf, hidle, hlisten⟩ := hc.epochs
  have hpast : ∀ o, Past a.state o → Past b.state o := fun o ho => by
    rw [hs]
    exact (hc.past ho).of_eq rfl rfl rfl rfl
  refine ⟨?_, ?_, ?_, ?_, ?_⟩
  · rw [hs]
    exact he ▸ hl ▸ h.epoch_le
  · rw [hs]
    exact fun hp => he ▸ hl ▸ h.current (hidle hp)
  · refine h.past_append ht hpast ?_
    simp only [List.forall_mem_singleton]
    exact .of_silent rfl rfl rfl rfl
  · rw [hs]
    intro ev hev
    obtain ⟨hr, hep, hid, hopen, hnl⟩ := hc.handed hev
    have hcur := h.current (Phase.responding_ne hr).1
    refine ⟨⟨by rw [hep, hcur]; exact Nat.le_of_eq hl.symm, fun hp => absurd hp hnl,
      fun hp _ => (hopen hp).1, fun hp _ => (hopen hp).2⟩, ?_⟩
    rw [ht]
    intro o ho
    rcases List.mem_append.mp ho with ho | ho
    · exact (h.past o ho).follows_event hcur (Phase.responding_ne hr).1 hep fun _ => hid
    · rw [List.mem_singleton] at ho
      subst ho
      exact .before_wrote rfl (by simp [Obs.cancels])
  · rw [hs, ht]
    intro hp hf'
    obtain ⟨pcm, hm⟩ := h.frames (hlisten hp) (hf ▸ hf')
    exact ⟨pcm, List.mem_append_left _ (he ▸ hm)⟩

end Accepted

theorem Sound.wrote {event : Event} (h : Sound a) (hp : a.state.pending = some event)
    (hs : b.state = { a.state with pending := none }) (ht : b.trace = a.trace ++ [.wrote event]) :
    Sound b := by
  have hpast : ∀ o, Past a.state o → Past b.state o := fun o ho => by
    rw [hs]
    exact ho.of_eq rfl rfl rfl rfl
  refine ⟨hs ▸ h.epoch_le, hs ▸ h.current, ?_, by simp [hs], ?_⟩
  · refine h.past_append ht hpast ?_
    simp only [List.forall_mem_singleton]
    exact hpast _ (h.pending event hp).1.past
  · rw [hs, ht]
    intro hl hf
    obtain ⟨pcm, hm⟩ := h.frames hl hf
    exact ⟨pcm, List.mem_append_left _ hm⟩

-- ---------------------------------------------------------------------------
-- Every run
-- ---------------------------------------------------------------------------

/-- What a run of the actor keeps; a stopped actor only keeps its trace. -/
structure Lawful (a : Actor π) : Prop where
  follows : a.trace.Pairwise Follows
  sound : a.place ≠ .stopped → Sound a

theorem reportClosedStream_eq {event : Event} (h : reportClosedStream s = some event) :
    s.phase ≠ .idle ∧ event.epoch = s.epoch ∧ event.raw.responseID = "" := by
  simp only [reportClosedStream, Option.ite_none_left_eq_some, Option.some.injEq] at h
  obtain ⟨hp, rfl⟩ := h
  exact ⟨hp, rfl, rfl⟩

theorem Lawful.move (h : Lawful a) (m : Move P a l b) : Lawful b := by
  cases m with
  | quiet hs ht hplace =>
    refine ⟨ht ▸ h.follows, fun hb => (h.sound fun ha => hb ?_).of_eq hs ht⟩
    rcases hplace with hp | hp | hp
    · rw [ha] at hp; cases hp
    · rw [ha] at hp; cases hp
    · exact hp.trans ha
  | expired cmd hrun hs ht =>
    have hsound := h.sound (by simp [hrun])
    refine ⟨hsound.append h.follows ht (fun o _ => ?_) (by simp), fun _ => hsound.expired hs ht⟩
    simp only [List.forall_mem_singleton]
    exact .of_silent rfl rfl rfl
  | applied cmd out r hrun hc hs ht =>
    have hsound := h.sound (by simp [hrun])
    rw [List.append_assoc] at ht
    exact ⟨hsound.append h.follows ht (fun o ho => applied_follows hsound.current hc ho)
      (applied_pairwise hc), fun _ => hsound.applied hc hs ht⟩
  | received raw event s' hrun _ hc hs ht =>
    have hsound := h.sound (by simp [hrun])
    refine ⟨hsound.append h.follows ht (fun o _ => ?_) (by simp),
      fun _ => hsound.received hc hs ht⟩
    simp only [List.forall_mem_singleton]
    exact .of_silent rfl rfl rfl
  | wrote event hrun hp hs ht =>
    have hsound := h.sound (by simp [hrun])
    refine ⟨?_, fun _ => hsound.wrote hp hs ht⟩
    rw [ht, List.pairwise_append]
    refine ⟨h.follows, List.pairwise_singleton _ _, fun o ho o' ho' => ?_⟩
    rw [List.mem_singleton] at ho'
    exact ho' ▸ (hsound.pending event hp).2 o ho
  | closed event hrun _ hc _ hstop ht =>
    have hsound := h.sound (by simp [hrun])
    obtain ⟨hidle, he, hid⟩ := reportClosedStream_eq hc
    refine ⟨hsound.append h.follows ht (fun o ho => ?_) (by simp), fun hb => absurd hstop hb⟩
    simp only [List.forall_mem_singleton]
    exact ho.follows_event (hsound.current hidle) hidle he fun _ _ hn => absurd hid hn

theorem lawful (h : (machine P Opened).Reachable a) : Lawful a := by
  refine h.invariant ?_ fun s l t hi hs => hi.move (step_move hs)
  rintro a ⟨p, -, rfl⟩
  refine ⟨.nil, fun _ => ⟨Nat.le_refl 0, ?_, ?_, ?_, ?_⟩⟩
  · exact fun h => absurd rfl h
  · exact fun o ho => absurd ho (List.not_mem_nil)
  · exact fun ev hev => by cases hev
  · exact fun h => by cases h

end BoomPI.Session
