import BoomPI.Server.Device.Moves

/-!
# What the reader's copies of the turn stand for

The reader copies the turn, releases the lock and acts on the copy. `Held`
says what each copy still means while the forwarder runs: only the reader
replaces the turn, and nobody but the reader makes it active.
-/

namespace BoomPI.Device

open Backend (Error)
open Protocol
open Transport (TurnIdentity)

/-- An identity no later turn.start can have: the actor has passed its epoch. -/
def Passed (c : Conn) (id : TurnIdentity) : Prop := id.turnID = 0 ∨ id.epoch ≤ c.actor.latest

def HandleAt.Holds (c : Conn) : HandleAt → Prop
  | .drawing _ envelope | .starting _ envelope _ =>
    envelope.turnID ≠ 0 ∧ c.turn.active = false
  | .started turn =>
    turn.turnID ≠ 0 ∧ turn.epoch = c.actor.latest ∧ c.turn.active = false
  | .startStore turn =>
    turn.turnID ≠ 0 ∧ turn.epoch = c.actor.latest ∧ c.turn.active = false ∧
      turn.downlinkCtx = some turn.epoch
  | .flushing turn _ | .commitStore turn _ =>
    turn.identity = c.turn.identity ∧ turn.active = true ∧ turn.downlinkCtx = some turn.epoch
  | .fencing turn _ => turn.identity = c.turn.identity
  | .cancelling turn _ | .retireCancel turn =>
    turn.identity = c.turn.identity ∧ c.turn.active = false
  | .retireStop turn =>
    turn.identity = c.turn.identity ∧ c.turn.active = false ∧ turn.downlinkCtx = some turn.epoch
  | .sending _ m _ =>
    content m = false ∧
      (acks m = true → outboundIdentity m = c.turn.identity ∧ c.turn.active = false)
  | _ => True

theorem HandleAt.holds_of_calm {c : Conn} {h : HandleAt} (hc : h.calm = true) : h.Holds c := by
  cases h <;> trivial

structure Held (c : Conn) (h : HandleAt) : Prop where
  passed : Passed c c.turn.identity
  ctx : c.turn.active = true → c.turn.downlinkCtx = some c.turn.epoch
  holds : h.Holds c

-- ---------------------------------------------------------------------------
-- The other goroutines
-- ---------------------------------------------------------------------------

structure Conn.Tame (c c' : Conn) : Prop where
  identity : c'.turn.identity = c.turn.identity
  active : c.turn.active = false → c'.turn.active = false
  ctx : c'.turn.downlinkCtx = c.turn.downlinkCtx
  latest : c'.actor.latest = c.actor.latest
  inputCommitted : c'.turn.inputCommitted = c.turn.inputCommitted
  committed : c'.actor.committed = c.actor.committed

theorem Conn.Steady.tame {c c' : Conn} (h : c.Steady c') : c.Tame c' :=
  ⟨h.identity, fun ha => h.active.trans ha, h.ctx, h.latest, h.inputCommitted, h.committed⟩

theorem ForwardMove.tame {c c' : Conn} {f f' : ForwardAt} (h : ForwardMove c f c' f') :
    c.Tame c' := by
  cases h with
  | calm _ _ hs | speak _ hs => exact hs.tame
  | errorRetire | doneRetire => exact ⟨rfl, fun _ => rfl, rfl, rfl, rfl, rfl⟩
  | _ => exact ⟨rfl, id, rfl, rfl, rfl, rfl⟩

theorem identity_epoch {t u : ActiveTurn} (h : t.identity = u.identity) : t.epoch = u.epoch :=
  congrArg TurnIdentity.epoch h

theorem HandleAt.Holds.tame {c c' : Conn} {h : HandleAt} (hh : h.Holds c) (ht : c.Tame c') :
    h.Holds c' := by
  cases h with
  | drawing | starting => exact ⟨hh.1, ht.active hh.2⟩
  | started => exact ⟨hh.1, hh.2.1.trans ht.latest.symm, ht.active hh.2.2⟩
  | startStore => exact ⟨hh.1, hh.2.1.trans ht.latest.symm, ht.active hh.2.2.1, hh.2.2.2⟩
  | flushing | commitStore => exact ⟨hh.1.trans ht.identity.symm, hh.2⟩
  | fencing => exact Eq.trans hh ht.identity.symm
  | cancelling | retireCancel => exact ⟨hh.1.trans ht.identity.symm, ht.active hh.2⟩
  | retireStop => exact ⟨hh.1.trans ht.identity.symm, ht.active hh.2.1, hh.2.2⟩
  | sending =>
    refine ⟨hh.1, fun ha => ?_⟩
    obtain ⟨hid, hoff⟩ := hh.2 ha
    exact ⟨hid.trans ht.identity.symm, ht.active hoff⟩
  | _ => trivial

theorem Held.tame {c c' : Conn} {h h' : HandleAt} (hh : Held c h) (ht : c.Tame c')
    (hholds : h'.Holds c') : Held c' h' := by
  refine ⟨?_, fun ha => ?_, hholds⟩
  · rw [Passed, ht.identity, ht.latest]
    exact hh.passed
  · have hon : c.turn.active = true := by
      cases hoff : c.turn.active with
      | true => rfl
      | false => rw [ht.active hoff] at ha; cases ha
    rw [ht.ctx, hh.ctx hon, identity_epoch ht.identity]

theorem Held.outside {c c' : Conn} {h : HandleAt} (hh : Held c h) (ht : c.Tame c') : Held c' h :=
  hh.tame ht (hh.holds.tame ht)

-- ---------------------------------------------------------------------------
-- The reader
-- ---------------------------------------------------------------------------

theorem fence_tame (c : Conn) (turn : ActiveTurn) : c.Tame (fence c turn) := by
  unfold fence
  split
  · exact ⟨rfl, fun _ => rfl, rfl, rfl, rfl, rfl⟩
  · exact ⟨rfl, id, rfl, rfl, rfl, rfl⟩

theorem fence_inactive {c : Conn} {turn : ActiveTurn} (h : turn.identity = c.turn.identity) :
    (fence c turn).turn.active = false := by
  unfold fence
  rw [if_pos (sameTurn_iff.mpr h.symm)]
  rfl

theorem Held.reader {c c' : Conn} {h h' : HandleAt} (hh : Held c h) (hm : HandleMove c h c' h') :
    Held c' h' := by
  have stay : c.Tame c := (Conn.Steady.refl c).tame
  have next : c.Tame c.count := (Conn.Steady.count c).tame
  have holds := hh.holds
  cases hm with
  | calm _ hc hs => exact hh.tame hs.tame (HandleAt.holds_of_calm hc)
  | draw ha h0 => exact hh.tame stay ⟨h0, ha⟩
  | drawn => exact hh.tame stay holds
  | started hlt =>
    exact ⟨hh.passed.imp_right fun hp => Nat.le_trans hp (Nat.le_of_lt hlt), hh.ctx,
      holds.1, rfl, holds.2⟩
  | startStop =>
    exact hh.tame ⟨rfl, id, rfl, rfl, rfl, rfl⟩ ⟨holds.1, holds.2.1, holds.2.2, rfl⟩
  | startStore => exact ⟨.inr (Nat.le_of_eq holds.2.1), fun _ => holds.2.2.2, trivial⟩
  | flush ha => exact hh.tame stay ⟨rfl, ha, hh.ctx ha⟩
  | flushed => exact hh.tame stay holds
  | notStarted hc | notFlushed hc | notRetired hc | fail hc =>
    exact hh.tame stay (HandleAt.holds_of_calm hc)
  | @commitStore turn =>
    refine ⟨?_, fun _ => holds.2.2, trivial⟩
    show Passed c turn.identity
    rw [holds.1]
    exact hh.passed
  | late ha => exact hh.tame stay ⟨rfl, ha⟩
  | cancel ha => exact hh.tame stay rfl
  | @fenced turn =>
    have ht := fence_tame c turn
    exact hh.tame ht ⟨Eq.trans holds ht.identity.symm, fence_inactive holds⟩
  | cancelled | retireSend => exact hh.tame next ⟨rfl, fun _ => holds⟩
  | retire ha => exact hh.tame ⟨rfl, fun _ => rfl, rfl, rfl, rfl, rfl⟩ ⟨rfl, rfl, hh.ctx ha⟩
  | retireStop => exact hh.tame ⟨rfl, id, rfl, rfl, rfl, rfl⟩ ⟨holds.1, holds.2.1⟩
  | congested _ _ _ hr | rejected _ hr | farewell _ hr =>
    exact hh.tame next ⟨hr.1, fun ha => by rw [hr.2] at ha; cases ha⟩
  | offer => exact hh.tame stay holds
  | put hc => exact hh.tame ⟨rfl, id, rfl, rfl, rfl, rfl⟩ (HandleAt.holds_of_calm hc)

-- ---------------------------------------------------------------------------
-- What the forwarder sends
-- ---------------------------------------------------------------------------

def Job.Bears (m : Outbound) : Job → Prop
  | .control .. | .frame .. => content m = true ∧ terminal m = false
  | .done turn => content m = true ∧ terminal m = true ∧ outboundIdentity m = turn.identity
  | .error => content m = false ∧ acks m = false

def ForwardAt.Holds : ForwardAt → Prop
  | .sending _ m job => job.Bears m
  | _ => True

theorem Job.Bears.acks {m : Outbound} {job : Job} (h : job.Bears m) : acks m = false := by
  have speaks : content m = true → Device.acks m = false := fun hc =>
    Bool.eq_false_iff.mpr fun ha => by rw [content_of_acks ha] at hc; cases hc
  cases job with
  | control | frame | done => exact speaks h.1
  | error => exact h.2

theorem Job.Carries.bears {turn : ActiveTurn} {m : Outbound} {job : Job}
    (h : job.Carries turn m) : job.Bears m := by
  cases job with
  | control | frame =>
    obtain ⟨-, -, hc, ht, -⟩ := h
    exact ⟨hc, ht⟩
  | done =>
    obtain ⟨ht, -, hc, hterm, hid⟩ := h
    exact ⟨hc, hterm, hid.trans ht.symm⟩
  | error => cases h

theorem holds_of_calm {f : ForwardAt} (hc : f.calm = true) : f.Holds := by
  cases f <;> trivial

theorem ForwardAt.Holds.forwarder {c c' : Conn} {f f' : ForwardAt} (hf : f.Holds)
    (hm : ForwardMove c f c' f') : f'.Holds := by
  cases hm with
  | calm _ hc => exact holds_of_calm hc
  | speak _ _ _ hj => exact hj.bears
  | offer => exact hf
  | @put _ job _ hl =>
    cases job with
    | done => cases hl; trivial
    | _ => exact holds_of_calm hl
  | errorSend => exact ⟨rfl, rfl⟩
  | _ => trivial

-- ---------------------------------------------------------------------------
-- Every step
-- ---------------------------------------------------------------------------

/-- One step of the session: the reader, the forwarder, or neither. -/
inductive SysMove (s t : Sys) : Label → Prop
  | outside {l} : s.conn.Steady t.conn → t.handle = s.handle → t.forward = s.forward →
      t.pacer = s.pacer → SysMove s t l
  | reader {l c} : handleStep s.conn s.handle l = some (c, t.handle) →
      HandleMove s.conn s.handle c t.handle → t.conn = c.stopWorker t.handle.stops →
      t.forward = s.forward → t.pacer = s.pacer → SysMove s t (.handle l)
  | forwarder {l c} : forwardStep s.conn s.pacer s.forward l = some (c, t.pacer, t.forward) →
      ForwardMove s.conn s.forward c t.forward → t.conn = c.stopWorker t.forward.stops →
      t.handle = s.handle → SysMove s t (.forward l)

theorem Conn.Steady.stopWorker (c : Conn) (stops : Bool) : c.Steady (c.stopWorker stops) :=
  ⟨rfl, rfl, rfl, rfl, rfl, rfl, rfl, rfl⟩

theorem step_move {s t : Sys} {l : Label} (hf : s.forward.Speaks) (hs : step s l = some t) :
    SysMove s t l := by
  cases l with
  | handle l =>
    rw [step, Option.map_eq_some_iff] at hs
    obtain ⟨r, hr, rfl⟩ := hs
    exact .reader hr (handle_move hr) rfl rfl rfl
  | forward l =>
    rw [step, Option.map_eq_some_iff] at hs
    obtain ⟨r, hr, rfl⟩ := hs
    exact .forwarder hr (forward_move hf hr) rfl rfl
  | peer | writePump | emit =>
    rw [step] at hs
    split at hs <;> cases hs
    exact .outside ⟨rfl, rfl, rfl, rfl, rfl, rfl, rfl, rfl⟩ rfl rfl rfl
  | readPump =>
    rw [step] at hs
    split at hs
    · cases hs
    · rw [Option.map_eq_some_iff] at hs
      obtain ⟨r, -, rfl⟩ := hs
      exact .outside ⟨rfl, rfl, rfl, rfl, rfl, rfl, rfl, rfl⟩ rfl rfl rfl
  | tick | closeEvents | disconnect | idle =>
    cases hs
    exact .outside ⟨rfl, rfl, rfl, rfl, rfl, rfl, rfl, rfl⟩ rfl rfl rfl

theorem step_speaks {s t : Sys} {l : Label} (hf : s.forward.Speaks) (hs : step s l = some t) :
    t.forward.Speaks := by
  cases l with
  | forward l =>
    rw [step, Option.map_eq_some_iff] at hs
    obtain ⟨r, hr, rfl⟩ := hs
    exact forwardStep_speaks hr
  | handle l =>
    rw [step, Option.map_eq_some_iff] at hs
    obtain ⟨r, hr, rfl⟩ := hs
    exact hf
  | peer | writePump | emit =>
    rw [step] at hs
    split at hs <;> cases hs
    exact hf
  | readPump =>
    rw [step] at hs
    split at hs
    · cases hs
    · rw [Option.map_eq_some_iff] at hs
      obtain ⟨r, -, rfl⟩ := hs
      exact hf
  | tick | closeEvents | disconnect | idle =>
    cases hs
    exact hf

/-- What is known of every reachable state. -/
structure Known (s : Sys) : Prop where
  speaks : s.forward.Speaks
  bears : s.forward.Holds
  held : Held s.conn s.handle

theorem Known.step {s t : Sys} {l : Label} (hk : Known s) (hs : step s l = some t) : Known t := by
  refine ⟨step_speaks hk.speaks hs, ?_, ?_⟩
  · cases step_move hk.speaks hs with
    | outside _ _ hf => exact hf ▸ hk.bears
    | reader _ _ _ hf => exact hf ▸ hk.bears
    | forwarder _ hm => exact hk.bears.forwarder hm
  cases step_move hk.speaks hs with
  | outside hc hh => exact hh ▸ hk.held.outside hc.tame
  | reader _ hm hc => exact hc ▸ (hk.held.reader hm).outside (Conn.Steady.stopWorker ..).tame
  | forwarder _ hm hc hh =>
    exact hc ▸ hh ▸ (hk.held.outside hm.tame).outside (Conn.Steady.stopWorker ..).tame

theorem known {C : Sys → Label → Prop} {s : Sys} (h : machine.ReachableUnder C s) : Known s := by
  refine h.invariant ?_ fun s l t hk _ hs => hk.step hs
  rintro s ⟨deviceID, deviceUUID, sessionID, -, -, -, -, rfl⟩
  exact ⟨trivial, trivial, .inl rfl, nofun, trivial⟩

end BoomPI.Device
