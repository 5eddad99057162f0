import BoomPI.Server.Device.Hold
import Mathlib.Data.Bool.Basic

/-!
# One terminal per turn

A turn ends for the client with response.done or with one error of its own.
The errors come from four functions in two goroutines. The ledger of an
identity counts the terminals that are queued, those on their way, and the
one an active turn may still produce.
-/

namespace BoomPI.Device

open Backend (Error)
open Protocol
open Transport (SendAt SendLabel TurnIdentity TurnCongestionError)
open BoomPI.Session (Event)

/-- A terminal of the turn `id`. -/
def ends (id : TurnIdentity) (m : Outbound) : Bool := terminal m ∧ outboundIdentity m = id

def OneTerminal (sent : List Outbound) : Prop := ∀ id, sent.countP (ends id) ≤ 1

-- ---------------------------------------------------------------------------
-- The ledger
-- ---------------------------------------------------------------------------

/-- The forwarder is about to send the error of the turn it has retired. -/
def ForwardAt.owes (id : TurnIdentity) : ForwardAt → Bool
  | .errorStop turn => turn.identity = id
  | .sending _ m .error => ends id m
  | _ => false

/-- The reader is about to send an error. -/
def HandleAt.owes (id : TurnIdentity) : HandleAt → Bool
  | .retireStop turn | .retireCancel turn => turn.identity = id
  | .sending _ m _ => ends id m
  | _ => false

/-- The response.done of the turn is queued, and the turn not yet retired. -/
def ForwardAt.finishes (id : TurnIdentity) : ForwardAt → Bool
  | .finished turn => turn.identity = id
  | _ => false

def Conn.unfinished (c : Conn) (f : ForwardAt) (id : TurnIdentity) : Bool :=
  c.turn.active ∧ c.turn.identity = id ∧ ¬ f.finishes id

def ledger (c : Conn) (h : HandleAt) (f : ForwardAt) (id : TurnIdentity) : Nat :=
  c.sent.countP (ends id) + (f.owes id).toNat + (h.owes id).toNat + (c.unfinished f id).toNat

/-- The identity has had no terminal, none is on its way, and it is not active. -/
def unanswered (s : Sys) (id : TurnIdentity) : Bool := ledger s.conn s.handle s.forward id = 0

/-- When a step keeps the rule: an identity gets one turn.start or one report of
congestion, the response of a turn ends before the reader retires it, and no commit
brings back a turn that has ended. -/
def accountable (s : Sys) : Label → Bool
  | .handle _ => match s.handle with
    | .congested congestion =>
      (s.conn.turn.active ∧ congestion.turnID = s.conn.turn.turnID ∧
        congestion.epoch = s.conn.turn.epoch) ∨
      unanswered s { s.conn.turn.identity with
        turnID := congestion.turnID, epoch := congestion.epoch }
    | .rejecting envelope =>
      ¬ identified envelope ∨ unanswered s { s.conn.turn.identity with
        turnID := envelope.turnID, epoch := envelope.epoch }
    | .startStore turn => unanswered s turn.identity
    | .commitStore .. => s.conn.turn.active
    | .retiring _ => ¬ s.forward.finishes s.conn.turn.identity
    | _ => true
  | .forward (.send .put) => match s.forward with
    | .sending _ _ (.done turn) =>
      sameActiveTurn s.conn.turn turn ∨ unanswered s turn.identity
    | _ => true
  | _ => true

variable {c c' : Conn} {h h' : HandleAt} {f f' : ForwardAt} {id : TurnIdentity}

theorem ends_of_quiet {m : Outbound} (hc : content m = false)
    (h0 : (outboundIdentity m).turnID = 0) : ends id m = false := by
  cases m with
  | control r =>
    obtain ⟨body, _, _, _, turnID, _, _⟩ := r
    cases body with
    | error => simp [ends, terminal, show turnID = 0 from h0]
    | responseDone => cases hc
    | _ => rfl
  | pcm => cases hc

theorem ends_identity {m : Outbound} (he : ends id m = true) : outboundIdentity m = id := by
  simp only [ends, Bool.decide_and, Bool.decide_eq_true, Bool.and_eq_true, decide_eq_true_eq] at he
  exact he.2

theorem owes_of_calm (hc : h.calm = true) : h.owes id = false := by
  cases h <;> trivial

theorem forward_owes_of_calm (id : TurnIdentity) (hc : f.calm = true) : f.owes id = false ∧ f.finishes id = false := by
  cases f <;> first | exact ⟨rfl, rfl⟩ | cases hc

theorem countP_put (c : Conn) (m : Outbound) (id : TurnIdentity) :
    (c.put m).sent.countP (ends id) = c.sent.countP (ends id) + (ends id m).toNat := by
  rw [Conn.put, List.countP_append, List.countP_singleton]
  cases ends id m <;> rfl

theorem unfinished_steady (hc : c.Steady c') (f : ForwardAt) (id : TurnIdentity) :
    c'.unfinished f id = c.unfinished f id := by
  simp only [Conn.unfinished, hc.active, hc.identity]

theorem unfinished_inactive (hc : c.turn.active = false) : c.unfinished f id = false := by
  simp [Conn.unfinished, hc]

theorem unfinished_congr (f f' : ForwardAt) (hf : f.finishes id = false) (hf' : f'.finishes id = false) :
    c.unfinished f id = c.unfinished f' id := by
  simp only [Conn.unfinished, hf, hf']

theorem ledger_steady (hc : c.Steady c') (h : HandleAt) (f : ForwardAt) (id : TurnIdentity) :
    ledger c' h f id = ledger c h f id := by
  simp only [ledger, hc.sent, unfinished_steady hc]

-- ---------------------------------------------------------------------------
-- The forwarder
-- ---------------------------------------------------------------------------

theorem ledger_forward (hsent : c'.sent.countP (ends id) + (f'.owes id).toNat +
      (c'.unfinished f' id).toNat ≤
    c.sent.countP (ends id) + (f.owes id).toNat + (c.unfinished f id).toNat) :
    ledger c' h f' id ≤ ledger c h f id := by
  unfold ledger
  omega

theorem unfinished_done {m : Outbound} {turn : ActiveTurn} (hend : ends id m = true)
    (hm : outboundIdentity m = turn.identity) (hsame : sameActiveTurn c.turn turn = true) :
    (c.put m).unfinished (.finished turn) id = false ∧
      c.unfinished (.sending .second m (.done turn)) id = true := by
  obtain ⟨hon, hid⟩ := sameActiveTurn_iff.mp hsame
  have heq : turn.identity = id := hm.symm.trans (ends_identity hend)
  constructor
  · simp [Conn.unfinished, ForwardAt.finishes, heq]
  · simp only [Conn.unfinished, ForwardAt.finishes, hon, hid, heq]
    rfl

theorem ledger_put_done {m : Outbound} {turn : ActiveTurn}
    (hm : outboundIdentity m = turn.identity)
    (hok : sameActiveTurn c.turn turn = true ∨
      ledger c h (.sending .second m (.done turn)) turn.identity = 0)
    (hle : ledger c h (.sending .second m (.done turn)) id ≤ 1) :
    ledger (c.put m) h (.finished turn) id ≤ 1 := by
  have hsent := countP_put c m id
  cases hend : ends id m with
  | false =>
    have hun : ((c.put m).unfinished (.finished turn) id).toNat ≤
        (c.unfinished (.sending .second m (.done turn)) id).toNat := by
      refine Bool.toNat_le_toNat (Bool.le_iff_imp.mpr fun hopen => ?_)
      simp only [Conn.unfinished, Bool.decide_and, Bool.decide_eq_true, Bool.and_eq_true] at hopen ⊢
      exact ⟨hopen.1, hopen.2.1, rfl⟩
    refine Nat.le_trans (ledger_forward ?_) hle
    rw [hsent, hend]
    exact Nat.add_le_add (Nat.le_refl _) hun
  | true =>
    have heq : turn.identity = id := hm.symm.trans (ends_identity hend)
    rcases hok with hsame | hzero
    · obtain ⟨hclosed, hopen⟩ := unfinished_done hend hm hsame
      refine Nat.le_trans (ledger_forward ?_) hle
      rw [hsent, hend, hclosed, hopen]
      simp [ForwardAt.owes]
    · rw [heq] at hzero
      unfold ledger at hzero ⊢
      have hclosed : (c.put m).unfinished (.finished turn) id = false := by
        simp [Conn.unfinished, ForwardAt.finishes, heq]
      have hquiet : (ForwardAt.finished turn).owes id = false := rfl
      rw [hsent, hend, hclosed, hquiet]
      simp only [Bool.toNat_true, Bool.toNat_false]
      omega

theorem ledger_forwarder (hb : f.Holds) (hm : ForwardMove c f c' f')
    (hok : ∀ m turn, f = .sending .second m (.done turn) → c' = c.put m →
      sameActiveTurn c.turn turn = true ∨ ledger c h f turn.identity = 0)
    (hle : ledger c h f id ≤ 1) : ledger c' h f' id ≤ 1 := by
  cases hm with
  | calm hf hf' hc =>
    rw [ledger_steady hc]
    obtain ⟨ho, hfin⟩ := forward_owes_of_calm id hf
    obtain ⟨ho', hfin'⟩ := forward_owes_of_calm id hf'
    refine Nat.le_trans (ledger_forward (Nat.le_of_eq ?_)) hle
    rw [ho, ho', unfinished_congr _ _ hfin hfin']
  | @speak _ _ m job hf hc _ hj =>
    rw [ledger_steady hc]
    obtain ⟨ho, hfin⟩ := forward_owes_of_calm id hf
    refine Nat.le_trans (ledger_forward (Nat.le_of_eq ?_)) hle
    have ho' : (ForwardAt.sending .first m job).owes id = false := by
      cases job with
      | error => cases hj
      | _ => rfl
    rw [ho, ho', unfinished_congr _ (.sending .first m job) hfin rfl]
  | @offer m job =>
    refine Nat.le_trans (ledger_forward ?_) hle
    cases job <;> exact Nat.le_refl _
  | @put m job f' hl =>
    cases job with
    | done turn =>
      cases hl
      exact ledger_put_done hb.2.2 (hok m turn rfl rfl) hle
    | error =>
      obtain ⟨ho', hfin'⟩ := forward_owes_of_calm id hl
      refine Nat.le_trans (ledger_forward ?_) hle
      rw [countP_put, ho', unfinished_congr _ (.sending .second m .error) hfin' rfl]
      exact Nat.le_refl _
    | _ =>
      obtain ⟨ho', hfin'⟩ := forward_owes_of_calm id hl
      refine Nat.le_trans (ledger_forward ?_) hle
      have hend : ends id m = false := by simp [ends, hb.2]
      rw [countP_put, ho', hend, unfinished_congr _ .top hfin' rfl]
      exact Nat.le_refl _
  | @fail s m job err =>
    refine Nat.le_trans (ledger_forward ?_) hle
    exact Nat.add_le_add_right (Nat.le_add_right _ _) _
  | @errorRetire turn hon =>
    refine Nat.le_trans (ledger_forward ?_) hle
    have hun : c.unfinished (.error turn) id = decide (c.turn.identity = id) := by
      simp [Conn.unfinished, ForwardAt.finishes, hon]
    rw [hun, unfinished_inactive rfl]
    exact Nat.le_refl _
  | @errorSend turn code message =>
    refine Nat.le_trans (ledger_forward ?_) hle
    refine Nat.add_le_add_right (Nat.add_le_add_left (Bool.toNat_le_toNat (Bool.le_iff_imp.mpr fun ho => ?_)) _) _
    exact decide_eq_true (ends_identity ho)
  | doneRetire =>
    refine Nat.le_trans (ledger_forward ?_) hle
    rw [unfinished_inactive rfl]
    exact Nat.le_add_right _ _
  | @doneLost turn hlost =>
    refine Nat.le_trans (ledger_forward ?_) hle
    refine Nat.add_le_add_left (Bool.toNat_le_toNat (Bool.le_iff_imp.mpr fun hopen => ?_)) _
    simp only [Conn.unfinished, Bool.decide_and, Bool.decide_eq_true, Bool.and_eq_true,
      decide_eq_true_eq] at hopen ⊢
    refine ⟨hopen.1, hopen.2.1, ?_⟩
    simp only [ForwardAt.finishes, decide_eq_true_eq]
    rintro rfl
    rw [sameActiveTurn_iff.mpr ⟨hopen.1, hopen.2.1⟩] at hlost
    cases hlost
  | doneStop => exact hle

-- ---------------------------------------------------------------------------
-- The reader
-- ---------------------------------------------------------------------------

theorem ledger_read (hsent : c'.sent.countP (ends id) + (h'.owes id).toNat +
      (c'.unfinished f id).toNat ≤
    c.sent.countP (ends id) + (h.owes id).toNat + (c.unfinished f id).toNat) :
    ledger c' h' f id ≤ ledger c h f id := by
  unfold ledger
  omega

/-- A move that leaves the turn and the queue alone, and owes no more than before. -/
theorem ledger_still (hc : c.Steady c') (ho : h'.owes id = true → h.owes id = true) :
    ledger c' h' f id ≤ ledger c h f id := by
  rw [ledger_steady hc]
  refine ledger_read (Nat.add_le_add_right (Nat.add_le_add_left ?_ _) _)
  exact Bool.toNat_le_toNat (Bool.le_iff_imp.mpr ho)

/-- A report for an identity without an entry makes its first one. -/
theorem ledger_report {m : Outbound} (hq : content m = false)
    (hok : (outboundIdentity m).turnID ≠ 0 → ledger c h f (outboundIdentity m) = 0)
    (hle : ledger c h f id ≤ 1) :
    ledger c.count (.sending .first m .report) f id ≤ 1 := by
  rw [ledger_steady (.count c)]
  cases hend : ends id m with
  | false =>
    refine Nat.le_trans (ledger_still (.refl c) fun ho => ?_) hle
    rw [HandleAt.owes, hend] at ho
    cases ho
  | true =>
    have heq := ends_identity hend
    have hzero : ledger c h f id = 0 := by
      rw [← heq]
      refine hok fun h0 => ?_
      rw [ends_of_quiet hq h0] at hend
      cases hend
    unfold ledger at hzero ⊢
    have ho : (HandleAt.sending .first m .report).owes id = true := hend
    rw [ho, Bool.toNat_true]
    omega

theorem ledger_reader {p : PacedDownlink} {l : HandleLabel} (hk : Known ⟨c, h, f, p⟩)
    (hok : accountable ⟨c, h, f, p⟩ (.handle l) = true) (hm : HandleMove c h c' h')
    (hle : ledger c h f id ≤ 1) : ledger c' h' f id ≤ 1 := by
  have holds := hk.held.holds
  cases hm with
  | calm _ hcalm hc =>
    refine Nat.le_trans (ledger_still hc fun ho => ?_) hle
    rw [owes_of_calm hcalm] at ho
    cases ho
  | notStarted hcalm | notFlushed hcalm | notRetired hcalm | fail hcalm =>
    refine Nat.le_trans (ledger_still (.refl c) fun ho => ?_) hle
    rw [owes_of_calm hcalm] at ho
    cases ho
  | startStop => exact Nat.le_trans (ledger_read (Nat.le_refl _)) hle
  | started => exact Nat.le_trans (ledger_read (Nat.le_refl _)) hle
  | @startStore turn =>
    have hzero : ledger c (.startStore turn) f turn.identity = 0 := of_decide_eq_true hok
    by_cases hid : turn.identity = id
    · rw [hid] at hzero
      unfold ledger at hzero ⊢
      have hun := Bool.toNat_le ((c.setTurn turn).unfinished f id)
      simp only [HandleAt.owes, Conn.setTurn, Bool.toNat_false] at hzero ⊢
      simp only [Conn.setTurn] at hun
      omega
    · refine Nat.le_trans (ledger_read ?_) hle
      have hun : (c.setTurn turn).unfinished f id = false := by
        simp [Conn.unfinished, Conn.setTurn, hid]
      rw [hun]
      exact Nat.le_add_right _ _
  | @commitStore turn =>
    refine Nat.le_trans (ledger_read ?_) hle
    refine Nat.add_le_add_left (Bool.toNat_le_toNat (Bool.le_iff_imp.mpr fun hopen => ?_)) _
    have hid : ActiveTurn.identity { turn with inputCommitted := true } = c.turn.identity := holds.1
    have hon : c.turn.active = true := hok
    simp only [Conn.unfinished, hid] at hopen
    simpa [Conn.unfinished, hon] using (of_decide_eq_true hopen).2
  | @fenced turn =>
    have hsent : (fence c turn).sent = c.sent := by
      unfold fence
      split <;> rfl
    refine Nat.le_trans (ledger_read ?_) hle
    rw [hsent, unfinished_inactive (fence_inactive holds)]
    exact Nat.le_add_right _ _
  | retire hon =>
    refine Nat.le_trans (ledger_read ?_) hle
    have hfin : f.finishes c.turn.identity = false := by simpa [accountable] using hok
    have hun : c.unfinished f id = decide (c.turn.identity = id) := by
      by_cases hid : c.turn.identity = id
      · simp [Conn.unfinished, hon, ← hid, hfin]
      · simp [Conn.unfinished, hid]
    rw [hun, unfinished_inactive rfl]
    exact Nat.le_refl _
  | retireStop => exact Nat.le_trans (ledger_read (Nat.le_refl _)) hle
  | @retireSend turn =>
    refine Nat.le_trans (ledger_still (h := .retireCancel turn) (.count c) fun ho => ?_) hle
    exact decide_eq_true (ends_identity ho)
  | @congested congestion m hother _ hid hr =>
    refine ledger_report hr.1 (fun _ => ?_) hle
    rw [hid]
    simp only [accountable, Bool.decide_or, Bool.or_eq_true, decide_eq_true_eq] at hok
    refine of_decide_eq_true (hok.resolve_left ?_)
    rintro ⟨hon, hturn, hepoch⟩
    exact hother ⟨hon, hturn.symm, hepoch.symm⟩
  | rejected hid hr =>
    refine ledger_report hr.1 (fun h0 => ?_) hle
    obtain ⟨hnamed, heq⟩ := hid h0
    rw [heq]
    simpa [accountable, hnamed, unanswered] using hok
  | farewell h0 hr =>
    refine Nat.le_trans (ledger_still (.count c) fun ho => ?_) hle
    rw [HandleAt.owes, ends_of_quiet hr.1 h0] at ho
    cases ho
  | offer => exact hle
  | @put m answer _ hcalm =>
    refine Nat.le_trans (ledger_read ?_) hle
    rw [countP_put, owes_of_calm hcalm]
    exact Nat.le_refl _
  | @cancelled turn envelope =>
    refine Nat.le_trans (ledger_still (h := .cancelling turn envelope) (.count c) fun ho => ?_) hle
    simp [HandleAt.owes, ends, terminal, Conn.reply] at ho
  | _ => exact Nat.le_trans (ledger_still (.refl c) nofun) hle

/-- Only the free slot of the second select puts a message on the queue. -/
theorem forwardStep_put {p : PacedDownlink} {m : Outbound} {job : Job} {l : ForwardLabel}
    {r : Forwarded} (hr : forwardStep c p (.sending .second m job) l = some r)
    (hput : r.1 = c.put m) : l = .send .put := by
  cases l with
  | send l =>
    rw [forwardStep, Option.map_eq_some_iff] at hr
    obtain ⟨result, hq, rfl⟩ := hr
    cases l with
    | put => rfl
    | cancelled =>
      rw [Transport.enqueue, Option.ite_none_right_eq_some] at hq
      obtain ⟨-, ⟨⟩⟩ := hq
      have hlen := congrArg List.length (congrArg Conn.sent hput)
      simp [Conn.put] at hlen
    | _ => cases hq
  | _ => cases hr

/-- In every run whose steps are accountable, each identity gets at most one terminal. -/
theorem oneTerminal_of_accountable {s : Sys}
    (h : machine.ReachableUnder (fun s l => accountable s l = true) s) :
    OneTerminal s.conn.sent := by
  have hledger : ∀ id, ledger s.conn s.handle s.forward id ≤ 1 := by
    refine h.invariant_with (I := fun s => ∀ id, ledger s.conn s.handle s.forward id ≤ 1)
      (fun _ => known) ?_ fun s l t hk _ hi hok hs id => ?_
    · rintro s ⟨deviceID, deviceUUID, sessionID, -, -, -, -, rfl⟩ id
      exact Nat.zero_le _
    · cases step_move hk.speaks hs with
      | outside hc hh hf =>
        rw [hh, hf, ledger_steady hc]
        exact hi id
      | @reader l c hr hm hc hf =>
        rw [hf, hc, ledger_steady (.stopWorker c _)]
        exact ledger_reader hk hok hm (hi id)
      | @forwarder l c hr hm hc hh =>
        rw [hh, hc, ledger_steady (.stopWorker c _)]
        refine ledger_forwarder hk.bears hm (fun m turn hf hput => ?_) (hi id)
        rw [hf] at hr
        obtain rfl := forwardStep_put hr hput
        simpa [accountable, unanswered, hf] using hok
  exact fun id => Nat.le_trans (by unfold ledger; omega) (hledger id)

def responseDone (n : Nat) : Event := { epoch := n, raw := { type := .done, responseID := "r" } }

/-- An answered turn: one terminal, which is its response.done. -/
theorem oneTerminal_answeredTurn :
    ∃ s, machine.ReachableUnder (fun s l => accountable s l = true) s ∧
      s.conn.sent.any (ends { sessionID := 5, turnID := 1, epoch := 1 }) = true ∧
      OneTerminal s.conn.sent := by
  obtain ⟨s, hr, hp⟩ := machine.exists_of_runIf accountable (fun _ _ h => h) session
    (List.flatten [speaks 1, takes (responseStarted 1), offers, [.forward (.send .put)],
      takes (responseDone 1), [.forward .next], offers,
      [.forward (.send .put), .forward .next, .forward .next]])
    (fun s => s.conn.sent.any (ends { sessionID := 5, turnID := 1, epoch := 1 }))
    session_init (by decide +kernel)
  exact ⟨s, hr, hp, oneTerminal_of_accountable hr⟩

/-- A PCM frame without START retires the turn while its queue overflows; the
congestion is reported for the turn that has already had its error. -/
def overflows : List Label :=
  List.flatten [receives (startMessage 1),
    [.handle (.random 9), .handle (.returns none), .handle .next, .handle .next],
    [.peer (pcmMessage 1 0 0), .readPump, .handle .next, .handle .message],
    (List.replicate 33 [.peer (pcmMessage 1 0 1), .readPump]).flatten,
    List.replicate 5 (.handle .next), [.handle (.returns none)], queues,
    List.replicate 2 (.handle .next), queues]

theorem two_errors_of_one_turn :
    ∃ s, machine.Reachable s ∧ ¬ OneTerminal s.conn.sent := by
  obtain ⟨s, -, hr, hp⟩ := machine.exists_of_run session overflows
    (fun s => s.conn.sent.countP (ends { sessionID := 5, turnID := 1, epoch := 1 }) = 2)
    session_init (by decide +kernel)
  refine ⟨s, hr, fun h => ?_⟩
  have hle := h { sessionID := 5, turnID := 1, epoch := 1 }
  rw [of_decide_eq_true hp] at hle
  exact absurd hle (by decide)

end BoomPI.Device
