import BoomPI.Server.Device.Hold

/-!
# The downlink fence

Once the server has acknowledged the end of a turn, nothing of its response
may follow. The acknowledgement is sent after the turn's context is stopped,
and a send that has not passed the first select of `enqueue` fails. The second
select may still choose the free slot over the stopped context.
-/

namespace BoomPI.Device

open Backend (Error)
open Protocol
open Transport (SendAt SendLabel TurnIdentity)

/-- No response content of a turn follows the acknowledgement of its end. -/
def Fenced (sent : List Outbound) : Prop :=
  sent.Pairwise fun a b => acks a = true → content b = true →
    outboundIdentity a ≠ outboundIdentity b

/-- An acknowledgement is queued while the forwarder is not in the second select of
`enqueue` with content of the same turn. -/
def unobstructed (s : Sys) : Label → Bool
  | .handle (.send .put) => match s.handle, s.forward with
    | .sending .second a _, .sending .second b _ =>
      ¬ (acks a ∧ content b ∧ outboundIdentity a = outboundIdentity b)
    | _, _ => true
  | _ => true

-- ---------------------------------------------------------------------------
-- Content on its way
-- ---------------------------------------------------------------------------

def Stopped (c : Conn) (job : Job) : Prop := ∃ epoch, job.ctx = some epoch ∧ epoch ∈ c.cancelled

def HandleAt.stopping : HandleAt → Bool
  | .retireStop _ => true
  | _ => false

/-- The turn a job sends for is active, or the reader is about to stop it. -/
def Running (c : Conn) (h : HandleAt) (m : Outbound) (job : Job) : Prop :=
  outboundIdentity m = c.turn.identity ∧ job.ctx = some c.turn.epoch ∧
    (c.turn.active = true ∨ h.stopping = true)

/-- Content is on its way only for a running turn, or under a stopped context. -/
def Speaking (c : Conn) (h : HandleAt) : ForwardAt → Prop
  | .sending _ m job => content m = true → Stopped c job ∨ Running c h m job
  | _ => True

theorem Stopped.mono {c c' : Conn} {job : Job} (h : Stopped c job)
    (hc : ∀ e ∈ c.cancelled, e ∈ c'.cancelled) : Stopped c' job := by
  obtain ⟨e, hj, he⟩ := h
  exact ⟨e, hj, hc e he⟩

theorem Stopped.done {c : Conn} {job : Job} (h : Stopped c job) : c.done job.ctx = true := by
  obtain ⟨e, hj, he⟩ := h
  simp [Conn.done, hj, he]

theorem mem_stop {c : Conn} {ctx : Option Nat} {e : Nat} (h : e ∈ c.cancelled) :
    e ∈ (c.stop ctx).cancelled := by
  simp [Conn.stop, h]

theorem Speaking.silent {c : Conn} {h : HandleAt} {f : ForwardAt} (hf : f.calm = true) :
    Speaking c h f := by
  cases f <;> trivial

theorem Speaking.of_lands {c : Conn} {h : HandleAt} {f : ForwardAt} {job : Job}
    (hl : job.Lands f) : Speaking c h f := by
  cases job with
  | done => cases hl; trivial
  | _ => exact .silent hl

theorem Running.outside {c c' : Conn} {h : HandleAt} {m : Outbound} {job : Job}
    (hr : Running c h m job) (hc : c.Steady c') : Running c' h m job := by
  obtain ⟨hid, hctx, hrun⟩ := hr
  exact ⟨hid.trans hc.identity.symm, by rw [hctx, identity_epoch hc.identity],
    hc.active ▸ hrun⟩

theorem Speaking.outside {c c' : Conn} {h : HandleAt} {f : ForwardAt} (hs : Speaking c h f)
    (hc : c.Steady c') : Speaking c' h f := by
  cases f with
  | sending s m job =>
    intro hm
    exact (hs hm).imp (·.mono fun e he => hc.cancelled ▸ he) (·.outside hc)
  | _ => trivial

theorem Job.Carries.spoken {turn : ActiveTurn} {m : Outbound} {job : Job}
    (h : job.Carries turn m) : outboundIdentity m = turn.identity ∧ job.ctx = turn.downlinkCtx := by
  cases job with
  | control | frame | done =>
    obtain ⟨-, hctx, -, -, hid⟩ := h
    exact ⟨hid, hctx⟩
  | error => cases h

theorem Speaking.forwarder {c c' : Conn} {h : HandleAt} {f f' : ForwardAt} (hs : Speaking c h f)
    (hh : Held c h) (hm : ForwardMove c f c' f') : Speaking c' h f' := by
  cases hm with
  | calm _ hf => exact .silent hf
  | speak _ hc ha hj =>
    intro _
    obtain ⟨hid, hctx⟩ := hj.spoken
    exact .inr ⟨hid.trans hc.identity.symm,
      by rw [hctx, hh.ctx ha, identity_epoch hc.identity], .inl (hc.active.trans ha)⟩
  | offer => exact hs
  | put hl => exact .of_lands hl
  | errorSend =>
    intro hm
    cases hm
  | _ => trivial

theorem HandleMove.stays_cancelled {c c' : Conn} {h h' : HandleAt} (hm : HandleMove c h c' h') :
    ∀ e ∈ c.cancelled, e ∈ c'.cancelled := by
  intro e he
  cases hm with
  | calm _ _ hc => exact hc.cancelled ▸ he
  | startStop | retireStop => exact mem_stop he
  | fenced =>
    unfold fence
    split
    · exact mem_stop he
    · exact he
  | _ => exact he

theorem Running.reader {c c' : Conn} {h h' : HandleAt} {m : Outbound} {job : Job}
    (hr : Running c h m job) (hh : Held c h) (hm : HandleMove c h c' h') :
    Stopped c' job ∨ Running c' h' m job := by
  obtain ⟨hid, hctx, hrun⟩ := hr
  have holds := hh.holds
  have active (hs : h.stopping = false) : c.turn.active = true :=
    hrun.resolve_right fun hstop => by rw [hs] at hstop; cases hstop
  cases hm with
  | @calm h _ _ hcalm _ hc =>
    have hon := active (by cases h <;> trivial)
    exact .inr ⟨hid.trans hc.identity.symm, by rw [hctx, identity_epoch hc.identity],
      .inl (hc.active.trans hon)⟩
  | startStore =>
    have hon := active rfl
    rw [holds.2.2.1] at hon
    cases hon
  | commitStore =>
    exact .inr ⟨hid.trans holds.1.symm, by rw [hctx, ← identity_epoch holds.1], .inl holds.2.1⟩
  | @fenced turn =>
    have heq : fence c turn = c.retire.stop c.turn.downlinkCtx :=
      if_pos (sameTurn_iff.mpr (Eq.symm holds))
    refine .inl ⟨c.turn.epoch, hctx, ?_⟩
    rw [heq, hh.ctx (active rfl)]
    exact List.mem_cons_self
  | retire => exact .inr ⟨hid, hctx, .inr rfl⟩
  | @retireStop turn =>
    refine .inl ⟨c.turn.epoch, hctx, ?_⟩
    rw [holds.2.2, identity_epoch holds.1]
    exact List.mem_cons_self
  | _ => exact .inr ⟨hid, hctx, .inl (active rfl)⟩

theorem Speaking.reader {c c' : Conn} {h h' : HandleAt} {f : ForwardAt} (hs : Speaking c h f)
    (hh : Held c h) (hm : HandleMove c h c' h') : Speaking c' h' f := by
  cases f with
  | sending s m job =>
    intro hcontent
    rcases hs hcontent with hstop | hrun
    · exact .inl (hstop.mono hm.stays_cancelled)
    · exact hrun.reader hh hm
  | _ => trivial

-- ---------------------------------------------------------------------------
-- An acknowledged turn
-- ---------------------------------------------------------------------------

/-- The reader will not store the turn `id`. -/
def HandleAt.Leaves (id : TurnIdentity) : HandleAt → Prop
  | .started turn | .startStore turn | .flushing turn _ | .commitStore turn _ =>
    turn.identity ≠ id
  | _ => True

/-- Content of the turn `id` stands before the first select, under a stopped context. -/
def ForwardAt.Barred (c : Conn) (id : TurnIdentity) : ForwardAt → Prop
  | .sending s m job =>
    content m = true → outboundIdentity m = id → s = .first ∧ Stopped c job
  | _ => True

/-- The turn `id` has ended: it cannot become active again, and its content does not
reach the second select. -/
structure Ended (c : Conn) (h : HandleAt) (f : ForwardAt) (id : TurnIdentity) : Prop where
  passed : Passed c id
  inactive : c.turn.identity = id → c.turn.active = false
  leaves : h.Leaves id
  barred : f.Barred c id

variable {c c' : Conn} {h h' : HandleAt} {f f' : ForwardAt} {id : TurnIdentity}

theorem leaves_of_calm (hc : h.calm = true) : h.Leaves id := by
  cases h <;> trivial

theorem barred_of_calm (hc : f.calm = true) : f.Barred c id := by
  cases f <;> trivial

theorem ForwardAt.Barred.mono (hb : f.Barred c id)
    (hc : ∀ e ∈ c.cancelled, e ∈ c'.cancelled) : f.Barred c' id := by
  cases f with
  | sending s m job => exact fun hm hid => (hb hm hid).imp_right fun hstop => hstop.mono hc
  | _ => trivial

theorem Ended.tame (he : Ended c h f id) (ht : c.Tame c') (hl : h'.Leaves id)
    (hb : f'.Barred c' id) : Ended c' h' f' id := by
  refine ⟨?_, fun hid => ht.active (he.inactive (ht.identity.symm.trans hid)), hl, hb⟩
  rw [Passed, ht.latest]
  exact he.passed

theorem Ended.outside (he : Ended c h f id) (hc : c.Steady c') : Ended c' h f id :=
  he.tame hc.tame he.leaves (he.barred.mono fun _ hm => hc.cancelled ▸ hm)

theorem Ended.forwarder (he : Ended c h f id) (hm : ForwardMove c f c' f') : Ended c' h f' id := by
  refine he.tame hm.tame he.leaves ?_
  have hb := he.barred
  cases hm with
  | calm _ hf => exact barred_of_calm hf
  | speak _ _ hon hj =>
    intro _ hid
    rw [he.inactive (hj.spoken.1.symm.trans hid)] at hon
    cases hon
  | offer hdone =>
    intro hm hid
    rw [(hb hm hid).2.done] at hdone
    cases hdone
  | @put _ job _ hl =>
    cases job with
    | done => cases hl; trivial
    | _ => exact barred_of_calm hl
  | errorSend =>
    intro hm
    cases hm
  | _ => trivial

theorem Ended.reader (he : Ended c h f id) (hh : Held c h) (hm : HandleMove c h c' h') :
    Ended c' h' f id := by
  have holds := hh.holds
  have hl := he.leaves
  have hb := he.barred.mono hm.stays_cancelled
  have stay : c.Tame c := (Conn.Steady.refl c).tame
  cases hm with
  | calm _ hcalm hc => exact he.tame hc.tame (leaves_of_calm hcalm) hb
  | started hlt =>
    refine ⟨he.passed.imp_right fun hp => Nat.le_trans hp (Nat.le_of_lt hlt), he.inactive, ?_, hb⟩
    rintro rfl
    exact he.passed.elim holds.1 (Nat.not_le_of_lt hlt)
  | startStop => exact he.tame ⟨rfl, fun h => h, rfl, rfl, rfl, rfl⟩ hl hb
  | startStore => exact ⟨he.passed, fun hid => absurd hid hl, trivial, hb⟩
  | flush hon =>
    refine he.tame stay (fun hid => ?_) hb
    rw [he.inactive hid] at hon
    cases hon
  | flushed => exact he.tame stay hl hb
  | commitStore => exact ⟨he.passed, fun hid => absurd hid hl, trivial, hb⟩
  | @fenced turn => exact he.tame (fence_tame c turn) trivial hb
  | retire => exact he.tame ⟨rfl, fun _ => rfl, rfl, rfl, rfl, rfl⟩ trivial hb
  | notStarted hcalm | notFlushed hcalm | notRetired hcalm | fail hcalm =>
    exact he.tame stay (leaves_of_calm hcalm) hb
  | put hcalm => exact he.tame ⟨rfl, fun h => h, rfl, rfl, rfl, rfl⟩ (leaves_of_calm hcalm) hb
  | _ => exact he.tame ⟨rfl, fun h => h, rfl, rfl, rfl, rfl⟩ trivial hb

-- ---------------------------------------------------------------------------
-- The fence
-- ---------------------------------------------------------------------------

structure Sealed (s : Sys) : Prop where
  speaking : Speaking s.conn s.handle s.forward
  ended : ∀ a ∈ s.conn.sent, acks a = true →
    Ended s.conn s.handle s.forward (outboundIdentity a)
  fenced : Fenced s.conn.sent

theorem Fenced.append {sent : List Outbound} {m : Outbound} (h : Fenced sent)
    (hm : content m = true → ∀ a ∈ sent, acks a = true →
      outboundIdentity a ≠ outboundIdentity m) : Fenced (sent ++ [m]) := by
  refine List.pairwise_append.mpr ⟨h, List.pairwise_singleton .., fun a ha b hb hack hcontent => ?_⟩
  rw [List.mem_singleton] at hb
  subst hb
  exact hm hcontent a ha hack

theorem handleStep_second {m : Outbound} {answer : Answer} {l : HandleLabel} {r : Handled}
    (hr : handleStep c (.sending .second m answer) l = some r) :
    r.1 = c ∨ l = .send .put ∧ r.1 = c.put m := by
  cases l with
  | send l =>
    rw [handleStep, Option.map_eq_some_iff] at hr
    obtain ⟨result, hq, rfl⟩ := hr
    cases l with
    | put =>
      rw [Transport.enqueue, Option.ite_none_right_eq_some] at hq
      obtain ⟨-, ⟨⟩⟩ := hq
      exact .inr ⟨rfl, rfl⟩
    | cancelled =>
      rw [Transport.enqueue, Option.ite_none_right_eq_some] at hq
      obtain ⟨-, ⟨⟩⟩ := hq
      exact .inl rfl
    | _ => cases hq
  | _ => cases hr

/-- An acknowledged turn has ended, unless its content is in the second select. -/
theorem ended_of_ack {m : Outbound} {answer : Answer} (hk : Held c (.sending .second m answer))
    (hs : Speaking c (.sending .second m answer) f) (hm : acks m = true)
    (hclear : ∀ b job, f = .sending .second b job → content b = true →
      outboundIdentity m ≠ outboundIdentity b) (hc : h'.calm = true) :
    Ended (c.put m) h' f (outboundIdentity m) := by
  obtain ⟨hid, hoff⟩ := hk.holds.2 hm
  refine ⟨hid ▸ hk.passed, fun _ => hoff, leaves_of_calm hc, ?_⟩
  cases f with
  | sending s b job =>
    intro hb heq
    cases s with
    | first =>
      refine ⟨rfl, (hs hb).resolve_right ?_⟩
      rintro ⟨-, -, hon | ⟨⟨⟩⟩⟩
      rw [hoff] at hon
      cases hon
    | second => exact absurd heq.symm (hclear b job rfl hb)
  | _ => trivial

theorem HandleMove.sent (hm : HandleMove c h c' h') :
    c'.sent = c.sent ∨ ∃ m answer, h = .sending .second m answer ∧ c' = c.put m ∧
      h'.calm = true := by
  cases hm with
  | calm _ _ hc => exact .inl hc.sent
  | fenced =>
    refine .inl ?_
    unfold fence
    split <;> rfl
  | put hc => exact .inr ⟨_, _, rfl, rfl, hc⟩
  | _ => exact .inl rfl

theorem ForwardMove.sent (hm : ForwardMove c f c' f') :
    c'.sent = c.sent ∨ ∃ m job, f = .sending .second m job ∧ c' = c.put m := by
  cases hm with
  | calm _ _ hc | speak _ hc => exact .inl hc.sent
  | put => exact .inr ⟨_, _, rfl, rfl⟩
  | _ => exact .inl rfl

theorem mem_put {a m : Outbound} (h : a ∈ (c.put m).sent) : a ∈ c.sent ∨ a = m := by
  simpa [Conn.put] using h

theorem Sealed.forwarder {s t : Sys} (hi : Sealed s) (hk : Known s)
    (hm : ForwardMove s.conn s.forward t.conn t.forward) (hh : t.handle = s.handle) :
    Sealed t := by
  refine ⟨hh ▸ hi.speaking.forwarder hk.held hm, fun a ha hack => ?_, ?_⟩
  · rw [hh]
    refine (hi.ended a ?_ hack).forwarder hm
    rcases hm.sent with hsent | ⟨m, job, hf, hput⟩
    · exact hsent ▸ ha
    · rcases mem_put (hput ▸ ha) with ha | rfl
      · exact ha
      · have hbears := hk.bears
        rw [hf] at hbears
        rw [hbears.acks] at hack
        cases hack
  · rcases hm.sent with hsent | ⟨m, job, hf, hput⟩
    · exact hsent ▸ hi.fenced
    · rw [hput]
      refine hi.fenced.append fun hm a ha hack heq => ?_
      have hbarred := (hi.ended a ha hack).barred
      rw [hf] at hbarred
      obtain ⟨⟨⟩, -⟩ := hbarred hm heq.symm

theorem Sealed.reader {s t : Sys} {l : HandleLabel} (hi : Sealed s) (hk : Known s)
    (hclear : unobstructed s (.handle l) = true)
    (hs : handleStep s.conn s.handle l = some (t.conn, t.handle))
    (hm : HandleMove s.conn s.handle t.conn t.handle) (hf : t.forward = s.forward) :
    Sealed t := by
  rcases hm.sent with hsent | ⟨m, answer, hh, hput, hcalm⟩
  · refine ⟨hf ▸ hi.speaking.reader hk.held hm, fun a ha hack => ?_, hsent ▸ hi.fenced⟩
    rw [hf]
    exact (hi.ended a (hsent ▸ ha) hack).reader hk.held hm
  · rw [hh] at hs
    obtain heq | ⟨rfl, -⟩ := handleStep_second hs
    · have hlen := congrArg List.length (congrArg Conn.sent (heq.symm.trans hput))
      simp [Conn.put] at hlen
    have hheld := hk.held
    have hspeak := hi.speaking
    rw [hh] at hheld hspeak
    refine ⟨hf ▸ hi.speaking.reader hk.held hm, fun a ha hack => ?_, ?_⟩
    · rcases mem_put (hput ▸ ha) with ha | rfl
      · rw [hf]
        exact (hi.ended a ha hack).reader hk.held hm
      · rw [hput, hf]
        refine ended_of_ack hheld hspeak hack (fun b job hb hcontent heq => ?_) hcalm
        simp [unobstructed, hh, hb, hack, hcontent, heq] at hclear
    · rw [hput]
      refine hi.fenced.append fun hcontent => ?_
      rw [hheld.holds.1] at hcontent
      cases hcontent

theorem Sealed.outside {s t : Sys} (hi : Sealed s) (hc : s.conn.Steady t.conn)
    (hh : t.handle = s.handle) (hf : t.forward = s.forward) : Sealed t := by
  refine ⟨?_, fun a ha hack => ?_, hc.sent ▸ hi.fenced⟩
  · rw [hh, hf]
    exact hi.speaking.outside hc
  · rw [hh, hf]
    exact (hi.ended a (hc.sent ▸ ha) hack).outside hc

theorem Sealed.step {s t : Sys} {l : Label} (hi : Sealed s) (hk : Known s)
    (hclear : unobstructed s l = true) (hs : step s l = some t) : Sealed t := by
  cases step_move hk.speaks hs with
  | outside hc hh hf => exact hi.outside hc hh hf
  | @reader l c hr hm hc hf =>
    have hi' : Sealed { t with conn := c } := hi.reader (t := { t with conn := c }) hk hclear hr hm hf
    exact hi'.outside (hc ▸ .stopWorker c _) rfl rfl
  | @forwarder l c _ hm hc hh =>
    have hi' : Sealed { t with conn := c } := hi.forwarder (t := { t with conn := c }) hk hm hh
    exact hi'.outside (hc ▸ .stopWorker c _) rfl rfl

/-- In every run in which no acknowledgement is queued while the forwarder offers
content of that turn to the queue, the fence holds. -/
theorem fenced_of_unobstructed {s : Sys}
    (h : machine.ReachableUnder (fun s l => unobstructed s l = true) s) : Fenced s.conn.sent := by
  refine (h.invariant_with (I := Sealed) (fun _ => known) ?_
    fun s l t hk _ hi hc hs => hi.step hk hc hs).fenced
  rintro s ⟨deviceID, deviceUUID, sessionID, -, -, -, -, rfl⟩
  refine ⟨trivial, fun a ha hack => ?_, List.pairwise_singleton ..⟩
  rw [List.mem_singleton.mp ha] at hack
  cases hack

instance (sent : List Outbound) : Decidable (Fenced sent) :=
  inferInstanceAs (Decidable (List.Pairwise _ _))

/-- A turn cancelled before its response starts: the fence has something to hold. -/
theorem fenced_cancelledTurn : ∃ s, machine.ReachableUnder (fun s l => unobstructed s l = true) s ∧
    s.conn.sent.any acks = true ∧ s.conn.sent.any content = true ∧ Fenced s.conn.sent := by
  obtain ⟨s, hr, hp⟩ := machine.exists_of_runIf unobstructed (fun _ _ h => h) session
    (List.flatten [speaks 1, takes (responseStarted 1), offers, [.forward (.send .put)], cancels 1,
      queues])
    (fun s => s.conn.sent.any acks ∧ s.conn.sent.any content) session_init (by decide +kernel)
  simp only [Bool.decide_and, Bool.decide_eq_true, Bool.and_eq_true] at hp
  exact ⟨s, hr, hp.1, hp.2, fenced_of_unobstructed hr⟩

/-- The forwarder stands in the second select with response.start while the turn is
cancelled and acknowledged; the select then takes the free slot. -/
theorem content_follows_acknowledgement :
    ∃ s, machine.Reachable s ∧ ¬ Fenced s.conn.sent := by
  obtain ⟨s, -, hr, hp⟩ := machine.exists_of_run session
    (List.flatten [speaks 1, takes (responseStarted 1), offers, cancels 1, queues,
      [.forward (.send .put)]])
    (fun s => ¬ Fenced s.conn.sent) session_init (by decide +kernel)
  exact ⟨s, hr, by simpa using hp⟩

end BoomPI.Device
