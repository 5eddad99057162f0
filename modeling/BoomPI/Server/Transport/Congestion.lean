import BoomPI.Server.Transport.Delivery

/-!
# Congestion stays in its turn

A message that finds the queue full is charged to its turn, unless the turn that
overflowed before it is still being dealt with: its report waits in the channel,
or the turn.start behind it has not been returned.
-/

namespace BoomPI.Transport

open Lts (Machine)
open Protocol (Message)

variable {s t : Link} {l : LinkLabel} {m : Message}

def Link.sent (s : Link) : List Message := s.arrivals ++ s.inbox.wire

/-- The next message of a peer whose turns begin with turn.start, one after the other. -/
def Link.follows (s : Link) (m : Message) : Bool :=
  match messageTurnIdentity m with
  | none => false
  | some id =>
    s.sent.getLast?.bind messageTurnIdentity = some id ∨
      (isTurnStart m ∧ s.sent.all fun a => (messageTurnIdentity a).all fun i => i.epoch < id.epoch)

def streamed (s : Link) : LinkLabel → Bool
  | .peer m => s.follows m
  | _ => true

/-- The earlier overflow is dealt with when a message finds the queue full. -/
def settled (s : Link) : LinkLabel → Bool
  | .pump => match s.full with
    | some m => s.inbox.congested = messageTurnIdentity m ∨
      (s.inbox.congested = none ∧ s.inbox.congestion = [])
    | none => true
  | _ => true

-- ---------------------------------------------------------------------------
-- The stream
-- ---------------------------------------------------------------------------

theorem sent_of_log (es : List Entry) (hl : t.log = s.log ++ es)
    (ha : es.filterMap Entry.arrived? = []) (hw : t.inbox.wire = s.inbox.wire) :
    t.sent = s.sent := by
  rw [Link.sent, arrivals_of_log hl, ha, hw, List.append_nil, Link.sent]

theorem signal_wire {i j : Inbox} {id : TurnIdentity} (h : i.signalTurnCongestion id m = some j) :
    j.wire = i.wire := by
  rcases signal_eq_some h with ⟨-, rfl⟩ | ⟨c, -, -, -, rfl⟩ <;> rfl

theorem sent_overflow (s : Link) (m : Message) : (s.overflow m).sent = s.sent := by
  rw [Link.overflow]
  split
  · rfl
  · split
    · rfl
    · rename_i j hj
      have hwire := signal_wire hj
      refine sent_of_log ((j.congestion.drop s.inbox.congestion.length).map .signalled ++
        [.dropped m]) (List.append_assoc ..) ?_ hwire
      rw [List.filterMap_append, List.filterMap_map]
      simp [Function.comp_def, Entry.arrived?, List.filterMap_cons]

theorem sent_read {w : List Message} (hw : s.inbox.wire = m :: w) :
    (Link.read { s with inbox.wire := w } m).sent = s.sent := by
  have h (t : Link) (es : List Entry) (hl : t.log = s.log ++ es)
      (he : es.filterMap Entry.arrived? = [m]) (ht : t.inbox.wire = w) : t.sent = s.sent := by
    rw [Link.sent, arrivals_of_log hl, he, ht, Link.sent, hw, List.append_assoc]
    rfl
  rw [Link.read]
  split
  · exact h _ _ rfl rfl rfl
  · split
    · exact h _ _ rfl rfl rfl
    · split <;> exact h _ _ rfl rfl rfl

theorem sent_discard (s : Link) (m : Message) : (s.discard m).sent = s.sent := by
  rw [Link.discard]
  rcases discardCongested_cases m s.inbox with ⟨he, -, -⟩ | ⟨-, he | ⟨he, -⟩⟩ <;> rw [he]
  · exact sent_of_log [.dropped m] rfl rfl rfl
  · rfl
  · rfl

theorem sent_report (s : Link) (c : TurnCongestionError) (rest : List TurnCongestionError) :
    (s.report c rest).sent = s.sent :=
  sent_of_log [.reported c] rfl rfl rfl

theorem sent_step (h : s.step l = some t) :
    t.sent = s.sent ∨ ∃ m, l = .peer m ∧ t.sent = s.sent ++ [m] := by
  cases l with
  | peer m =>
    simp only [Link.step, Option.ite_none_right_eq_some, Option.some.injEq] at h
    obtain ⟨-, rfl⟩ := h
    exact .inr ⟨m, rfl, by rw [Link.sent, Link.sent, List.append_assoc]; rfl⟩
  | cancel =>
    cases h
    exact .inl rfl
  | pump =>
    simp only [Link.step, Link.pump] at h
    split at h
    · cases h
      exact .inl (sent_overflow s _)
    · rename_i hw
      cases h
      exact .inl (sent_read hw)
    · rw [Link.fence, Option.ite_none_right_eq_some, Option.some.injEq] at h
      obtain ⟨-, rfl⟩ := h
      exact .inl rfl
    · cases h
  | poll =>
    simp only [Link.step, Option.ite_none_right_eq_some, Option.some.injEq] at h
    obtain ⟨-, rfl⟩ := h
    rw [Link.poll]
    split
    · exact .inl rfl
    · exact .inl (sent_report ..)
    · exact .inl rfl
  | report =>
    simp only [Link.step] at h
    split at h
    · cases h
      exact .inl (sent_report ..)
    · cases h
  | take =>
    simp only [Link.step] at h
    split at h
    · rename_i m _ _ _
      cases h
      exact .inl (sent_of_log [.taken m] rfl rfl rfl)
    · cases h
  | hand =>
    simp only [Link.step] at h
    split at h
    · rename_i m _
      cases h
      exact .inl (sent_of_log [.returned m] rfl rfl rfl)
    · cases h
  | discard =>
    simp only [Link.step] at h
    split at h
    · cases h
      exact .inl (sent_discard s _)
    · cases h
  | leave | call | expire | fail =>
    simp only [Link.step, Option.ite_none_right_eq_some, Option.some.injEq] at h
    obtain ⟨-, rfl⟩ := h
    exact .inl rfl

/-- Of two messages the later one is of the same turn or of a later epoch. -/
def Later (a b : Message) : Prop :=
  ∃ i j, messageTurnIdentity a = some i ∧ messageTurnIdentity b = some j ∧
    (i = j ∨ i.epoch < j.epoch)

/-- The messages of a stream name their turns, and the turns come one after the other. -/
structure Link.Streamed (s : Link) : Prop where
  named : ∀ m ∈ s.sent, (messageTurnIdentity m).isSome = true
  later : s.sent.Pairwise Later

theorem streamed_step (h : s.step l = some t) (hc : streamed s l = true) (hs : s.Streamed) :
    t.Streamed := by
  rcases sent_step h with he | ⟨m, rfl, he⟩
  · exact ⟨he ▸ hs.named, he ▸ hs.later⟩
  rw [streamed, Link.follows] at hc
  cases hid : messageTurnIdentity m with
  | none => simp [hid] at hc
  | some id =>
    refine ⟨?_, ?_⟩
    · intro a ha
      rw [he] at ha
      rcases List.mem_append.mp ha with ha | ha
      · exact hs.named a ha
      · cases List.mem_singleton.mp ha
        simp [hid]
    rw [he, List.pairwise_append]
    refine ⟨hs.later, List.pairwise_singleton _ _, ?_⟩
    intro a ha b hb
    cases List.mem_singleton.mp hb
    obtain ⟨i, hi⟩ := Option.isSome_iff_exists.mp (hs.named a ha)
    simp only [hid, decide_eq_true_eq] at hc
    rcases hc with hlast | ⟨-, hall⟩
    · -- the turn of the last message goes on
      obtain ⟨last, hget, hlid⟩ := Option.bind_eq_some_iff.mp hlast
      obtain ⟨pre, hpre⟩ := List.getLast?_eq_some_iff.mp hget
      have hp := hs.later
      rw [hpre, List.pairwise_append] at hp
      rw [hpre] at ha
      rcases List.mem_append.mp ha with ha | ha
      · obtain ⟨i, j, hi, hj, hij⟩ := hp.2.2 a ha last (List.mem_singleton_self _)
        cases hlid.symm.trans hj
        exact ⟨i, id, hi, hid, hij⟩
      · cases List.mem_singleton.mp ha
        exact ⟨id, id, hlid, hid, .inl rfl⟩
    · have hlt := List.all_eq_true.mp hall a ha
      exact ⟨i, id, hi, hid, .inr (by simpa [hi] using hlt)⟩

theorem noRecurrence_of_later {ms : List Message} (h : ms.Pairwise Later) :
    NoRecurrence (fun _ => true) ms := by
  intro a b c hs _ _ _ hac
  have hp := h.sublist hs
  simp only [List.pairwise_cons, List.mem_cons, List.not_mem_nil, or_false, forall_eq_or_imp,
    forall_eq] at hp
  obtain ⟨⟨⟨i, j, hi, hj, hij⟩, -⟩, ⟨⟨j', k, hj', hk, hjk⟩, -⟩⟩ := hp
  cases hj.symm.trans hj'
  cases hi.symm.trans (hac.trans hk)
  rcases hij with rfl | hij
  · rw [hi, hj]
  · rcases hjk with rfl | hjk
    · rw [hi, hj]
    · exact absurd hjk (Nat.lt_asymm hij)

-- ---------------------------------------------------------------------------
-- The connection stays open
-- ---------------------------------------------------------------------------

theorem refused_of_cause (hm : LinkMove s l t) (ht : t.cause = some .queueFull)
    (hs : s.cause ≠ some .queueFull) :
    l = .pump ∧ ∃ m, s.full = some m ∧ (messageTurnIdentity m = none ∨
      (s.inbox.congested.isSome = true ∧ s.inbox.congested ≠ messageTurnIdentity m) ∨
      (s.inbox.congested = none ∧ s.inbox.congestion ≠ [])) := by
  cases hm with
  | quiet _ _ _ _ _ hc _ =>
    rcases hc with hc | hc
    · exact absurd (hc.symm.trans ht) hs
    · cases h : s.cause with
      | none => simp [hc, h] at ht
      | some cause => exact absurd (h.trans (by simpa [hc, h] using ht)) hs
  | refuse m hl hf _ _ _ hwhy => exact ⟨hl, m, hf, hwhy⟩
  | leave _ _ _ _ _ hc | queue _ _ _ _ _ _ hc | wait _ _ _ _ _ _ _ _ hc
  | stale _ _ _ _ _ _ _ _ hc | release _ _ _ _ _ _ _ _ _ hc | again _ _ _ _ _ _ _ _ _ _ _ _ hc
  | signal _ _ _ _ _ _ _ _ _ _ _ _ _ hc | report _ _ _ _ _ _ _ _ hc | take _ _ _ _ _ _ hc
  | discard _ _ _ _ _ _ _ _ hc | keep _ _ _ _ _ _ _ _ _ hc | hand _ _ _ _ _ _ hc => exact absurd (hc.symm.trans ht) hs

/-- The stream law, and an overflow only when the earlier one is dealt with. -/
def orderly (s : Link) (l : LinkLabel) : Bool := streamed s l && settled s l

theorem streamed_of_reachable {C : Link → LinkLabel → Prop} (hC : ∀ s l, C s l → streamed s l = true)
    (h : link.ReachableUnder C s) : s.Streamed := by
  refine h.invariant ?_ fun s l t hi hc hs => streamed_step hs (hC s l hc) hi
  rintro _ rfl
  exact ⟨nofun, List.Pairwise.nil⟩

/-- A message of a stream that finds the queue full closes the connection only while an
earlier overflow is not dealt with. -/
theorem open_step (h : s.step l = some t) (hset : settled s l = true) (hs : s.Streamed)
    (ho : s.Once) (hc : s.cause ≠ some .queueFull) : t.cause ≠ some .queueFull := by
  intro ht
  obtain ⟨rfl, m, hf, hwhy⟩ := refused_of_cause (link_move h) ht hc
  simp only [settled, hf, decide_eq_true_eq] at hset
  obtain ⟨pre, hpre⟩ := ho.waiting m (by simp [Link.waiting, hf])
  have hm : (messageTurnIdentity m).isSome = true := hs.named m (by simp [Link.sent, hpre])
  rcases hwhy with hnone | ⟨hsome, hne⟩ | ⟨hnone, hfull⟩
  · simp [hnone] at hm
  · rcases hset with he | ⟨hnone, -⟩
    · exact hne he
    · simp [hnone] at hsome
  · rcases hset with he | ⟨-, hempty⟩
    · simp [← he, hnone] at hm
    · exact hfull hempty

/-- Turns that overflow one after the other, each when the one before is dealt with, leave
the connection open: each is reported once, and what is lost is theirs. -/
theorem congestion_local (h : link.ReachableUnder (fun s l => orderly s l = true) s) :
    s.cause ≠ some .queueFull ∧ (s.signals.map TurnCongestionError.identity).Nodup ∧
      (s.cause = none → s.Delivers) := by
  have hC : ∀ s l, orderly s l = true → streamed s l = true := by
    intro s l hc
    rw [orderly, Bool.and_eq_true] at hc
    exact hc.1
  have hs := streamed_of_reachable hC h
  have ho := once_of_reachable h.reachable
  refine ⟨?_, ho.nodup ?_, receive_delivers h.reachable⟩
  · refine h.invariant_with (I := fun s => s.cause ≠ some .queueFull)
      (J := fun s => s.Streamed ∧ s.Once)
      (fun s hs => ⟨streamed_of_reachable hC hs, once_of_reachable hs.reachable⟩) ?_ ?_
    · rintro _ rfl
      exact nofun
    · intro s l t hJ _ hi hc hstep
      rw [orderly, Bool.and_eq_true] at hc
      exact open_step hstep hc.2 hJ.1 hJ.2 hi
  · exact (noRecurrence_of_later hs.later).mono (List.sublist_append_left _ _)

-- ---------------------------------------------------------------------------
-- Runs
-- ---------------------------------------------------------------------------

def overflowOf (n : Nat) : List LinkLabel :=
  List.flatten [arrives (startOf n), (List.replicate 31 (arrives (commitOf n))).flatten,
    overflows (commitOf n)]

/-- `Receive` drops what is left of a reported turn and returns the next turn.start. -/
def drains (n : Nat) : List LinkLabel :=
  List.flatten [[.call], (List.replicate n [.poll, .take, .discard]).flatten, [.pump],
    [.poll, .take, .discard, .hand]]

/-- Two turns overflow; the second one when the first is dealt with. -/
theorem congestion_local_twoTurns :
    ∃ s, link.ReachableUnder (fun s l => orderly s l = true) s ∧ s.cause ≠ some .queueFull ∧
      (s.signals.map TurnCongestionError.identity).Nodup ∧ s.reports.length = 2 ∧
      s.returns = [startOf 2] := by
  obtain ⟨s, hr, hp⟩ := link.exists_of_runIf orderly (fun _ _ h => h) {}
    (List.flatten [overflowOf 1, receivesReport, arrives (startOf 2), drains 32,
      (List.replicate 32 (arrives (commitOf 2))).flatten, overflows (commitOf 2), receivesReport])
    (fun s => s.reports.length = 2 ∧ s.returns = [startOf 2]) rfl (by decide +kernel)
  obtain ⟨hl, hret⟩ := of_decide_eq_true hp
  obtain ⟨hc, hn, -⟩ := congestion_local hr
  exact ⟨s, hr, hc, hn, hl, hret⟩

/-- The second turn overflows behind what is left of the first: the connection closes. -/
theorem second_overflow_closes :
    ∃ s, link.ReachableUnder (fun s l => streamed s l = true) s ∧ s.cause = some .queueFull := by
  obtain ⟨s, hr, hp⟩ := link.exists_of_runIf streamed (fun _ _ h => h) {}
    (List.flatten [overflowOf 1, arrives (startOf 2), receivesReport,
      [.call, .poll, .take, .discard, .pump], overflows (commitOf 2)])
    (fun s => s.cause = some .queueFull) rfl (by decide +kernel)
  exact ⟨s, hr, of_decide_eq_true hp⟩

end BoomPI.Transport
