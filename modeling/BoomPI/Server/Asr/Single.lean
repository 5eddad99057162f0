import BoomPI.Server.Asr.Integrity

/-!
# One stream at a time

Who answers for a stream that is open or being opened: the goroutine that
prepares it, the session that keeps it, the turn it was handed to, or the call
that is about to close it. As long as `Cancel` takes no stream, and every turn
closes the stream it was handed, there is one such stream at most.
-/

namespace BoomPI.Asr

/-- The stream of the turn is still to be closed. -/
def Stage.holds : Stage → Bool
  | .starting | .committing | .reading | .closing _ => true
  | .replacing _ | .batching | .recognized _ => false

def Call.closes : Call → Option Nat
  | .closing i => some i
  | .cancelling stream _ => stream
  | _ => none

/-- Someone answers for stream `i`. -/
inductive Held (s : Session) (i : Nat) : Prop
  | kept : s.asr = some i → Held s i
  | turn {r} : s.run = some r → r.asr = some i → r.stage.holds = true → Held s i
  | call : s.call.closes = some i → Held s i
  | preparing {st} : s.streams[i]? = some st → st.preparation ≠ .returned → Held s i

structure Single (s : Session) : Prop where
  held : ∀ i, s.live i = true → Held s i
  sole : ∀ i j, Held s i → Held s j → i = j
  preparing : ∀ (i : Nat) (st : Stream), s.streams[i]? = some st → st.preparation ≠ .returned →
    s.asrPreparing = true ∨ s.closed = true
  failed : ∀ (i : Nat) (st : Stream), s.streams[i]? = some st → st.preparation = .failed →
    st.live = false
  call : ∀ i, s.call.closes = some i → s.run = none ∨ s.closed = true

/-- `Cancel` takes no stream from an utterance, and no turn with a stream is given up before
its first event. -/
def Careful (s : Session) : Label → Prop
  | .cancel => s.taken = none
  | .started false => ∀ r, s.run = some r → r.asr = none
  | _ => True

variable {n : Notes} {s s' : Session} {i j : Nat} {st st' : Stream} {f : Stream → Stream} {r : Run}

-- ---------------------------------------------------------------------------
-- Streams
-- ---------------------------------------------------------------------------

theorem live_iff : s.live i = true ↔ ∃ st, s.streams[i]? = some st ∧ st.live = true := by
  unfold Session.live
  cases s.streams[i]? <;> simp

structure Fades (st st' : Stream) : Prop where
  live : st'.live = true → st.live = true
  back : st'.preparation ≠ .returned → st.preparation ≠ .returned
  kept : st'.live = true → st.preparation ≠ .returned → st'.preparation ≠ .returned
  failed : st'.preparation = .failed → st.live = false ∨ st'.live = false

theorem Fades.of_stopped (hstopped : st'.stopped = true)
    (hback : st'.preparation ≠ .returned → st.preparation ≠ .returned) : Fades st st' := by
  have hdead : st'.live = false := by simp [Stream.live, hstopped]
  refine ⟨fun h => ?_, hback, fun h => ?_, fun _ => .inr hdead⟩
  · simp [hdead] at h
  · simp [hdead] at h

theorem Fades.of_eq (hstopped : st'.stopped = st.stopped) (hbroken : st.broken = true → st'.broken = true)
    (hp : st'.preparation = st.preparation) (hfailed : st.preparation = .failed → st.live = false) :
    Fades st st' := by
  refine ⟨fun h => ?_, fun h => hp ▸ h, fun _ h => hp ▸ h, fun h => .inl (hfailed (hp ▸ h))⟩
  simp only [Stream.live, Bool.and_eq_true, Bool.not_eq_true'] at h ⊢
  exact ⟨hstopped ▸ h.1, Bool.eq_false_iff.mpr fun hb => by simp [hbroken hb] at h⟩

theorem at_modify (hi : s.streams[i]? = some st) (hj : (s.modify i f).streams[j]? = some st') :
    (i = j ∧ st' = f st) ∨ (i ≠ j ∧ s.streams[j]? = some st') := by
  rw [Session.modify_streams, Option.map_eq_some_iff] at hj
  obtain ⟨st'', hj, rfl⟩ := hj
  by_cases hij : i = j
  · subst hij
    rw [hi] at hj
    cases hj
    exact .inl ⟨rfl, if_pos rfl⟩
  · exact .inr ⟨hij, by rw [if_neg hij]; exact hj⟩

theorem Held.modify (hi : s.streams[i]? = some st) (hf : Fades st (f st))
    (hlive : (s.modify i f).live j = true) (h : Held s j) : Held (s.modify i f) j := by
  cases h with
  | kept h => exact .kept h
  | turn h h1 h2 => exact .turn h h1 h2
  | call h => exact .call h
  | preparing hj hp =>
    by_cases hij : i = j
    · subst hij
      rw [hi] at hj
      cases hj
      have hat : (s.modify i f).streams[i]? = some (f st) := by simp [Session.modify_streams, hi]
      refine .preparing hat (hf.kept ?_ hp)
      obtain ⟨st', hst', hl⟩ := live_iff.mp hlive
      rw [hat] at hst'
      exact Option.some.inj hst' ▸ hl
    · exact .preparing (by simp [Session.modify_streams, hj, hij]) hp

theorem Held.of_modify (hi : s.streams[i]? = some st) (hf : Fades st (f st))
    (h : Held (s.modify i f) j) : Held s j := by
  cases h with
  | kept h => exact .kept h
  | turn h h1 h2 => exact .turn h h1 h2
  | call h => exact .call h
  | preparing hj hp =>
    rcases at_modify hi hj with ⟨rfl, rfl⟩ | ⟨-, hj⟩
    · exact .preparing hi (hf.back hp)
    · exact .preparing hj hp

theorem Single.modify (h : Single s) (hi : s.streams[i]? = some st) (hf : Fades st (f st)) :
    Single (s.modify i f) := by
  refine ⟨fun j hj => ?_, fun j k hj hk => h.sole j k (hj.of_modify hi hf) (hk.of_modify hi hf),
    fun j st' hj hp => ?_, fun j st' hj hp => ?_, h.call⟩
  · refine Held.modify hi hf hj (h.held j ?_)
    obtain ⟨st', hst', hl⟩ := live_iff.mp hj
    rcases at_modify hi hst' with ⟨rfl, rfl⟩ | ⟨-, hst'⟩
    · exact live_iff.mpr ⟨st, hi, hf.live hl⟩
    · exact live_iff.mpr ⟨st', hst', hl⟩
  · rcases at_modify hi hj with ⟨rfl, rfl⟩ | ⟨-, hj⟩
    · exact h.preparing i st hi (hf.back hp)
    · exact h.preparing j st' hj hp
  · rcases at_modify hi hj with ⟨rfl, rfl⟩ | ⟨-, hj⟩
    · rcases hf.failed hp with hl | hl
      · exact Bool.eq_false_iff.mpr fun hn => by simp [hf.live hn] at hl
      · exact hl
    · exact h.failed j st' hj hp

theorem Single.of_held (h : Single s) (hstreams : s'.streams = s.streams)
    (hpreparing : s'.asrPreparing = s.asrPreparing) (hclosed : s.closed = true → s'.closed = true)
    (hheld : ∀ i, s.live i = true → Held s i → Held s' i) (hback : ∀ i, Held s' i → Held s i)
    (hcall : ∀ i, s'.call.closes = some i → s'.run = none ∨ s'.closed = true) : Single s' := by
  have hlive (i : Nat) : s'.live i = s.live i := by rw [Session.live, hstreams, Session.live]
  refine ⟨fun i hi => ?_, fun i j hi hj => h.sole i j (hback i hi) (hback j hj), ?_, ?_, hcall⟩
  · rw [hlive] at hi
    exact hheld i hi (h.held i hi)
  · rw [hstreams, hpreparing]
    exact fun i st hi hp => (h.preparing i st hi hp).imp_right hclosed
  · rw [hstreams]
    exact h.failed

theorem Single.launch (h : Single s) (hnone : ∀ i, ¬ Held s i) :
    Single { s with asrPreparing := true }.launchRealtimeASRPreparation := by
  have hnew {j : Nat} (st : Stream) (hj : ({ s with asrPreparing := true
      }.launchRealtimeASRPreparation).streams[j]? = some st) :
      (j = s.streams.length ∧ st = {}) ∨ s.streams[j]? = some st := by
    rw [Session.launchRealtimeASRPreparation, List.getElem?_append] at hj
    split at hj
    · exact .inr hj
    · rename_i hge
      cases hn : j - s.streams.length with
      | zero =>
        rw [hn] at hj
        exact .inl ⟨Nat.le_antisymm (Nat.sub_eq_zero_iff_le.mp hn) (Nat.not_lt.mp hge),
          (Option.some.inj hj).symm⟩
      | succ k => simp [hn] at hj
  have honly {j : Nat} (hj : Held { s with asrPreparing := true }.launchRealtimeASRPreparation j) :
      j = s.streams.length := by
    cases hj with
    | kept hj => exact (hnone j (.kept hj)).elim
    | turn hr hj hs => exact (hnone j (.turn hr hj hs)).elim
    | call hj => exact (hnone j (.call hj)).elim
    | preparing hj hp =>
      rcases hnew _ hj with ⟨hj, -⟩ | hj
      · exact hj
      · exact (hnone j (.preparing hj hp)).elim
  refine ⟨fun j hj => ?_, fun j k hj hk => (honly hj).trans (honly hk).symm, fun _ _ _ _ => .inl rfl,
    fun j st hj hp => ?_, h.call⟩
  · obtain ⟨st, hst, hl⟩ := live_iff.mp hj
    rcases hnew st hst with ⟨-, rfl⟩ | hst'
    · exact .preparing hst (by simp)
    · exact (hnone j (h.held j (live_iff.mpr ⟨st, hst', hl⟩))).elim
  · rcases hnew st hj with ⟨-, rfl⟩ | hj
    · cases hp
    · exact h.failed j st hj hp

-- ---------------------------------------------------------------------------
-- Steps of a stream
-- ---------------------------------------------------------------------------

theorem streamStep_fades {l : Label} (hs : streamStep i st s l = some s')
    (hl : ∀ j, l ≠ .prepared j) (hfailed : st.preparation = .failed → st.live = false) :
    ∃ f, s' = s.modify i f ∧ Fades st (f st) := by
  cases l with
  | opened j =>
    simp only [streamStep, Option.ite_none_right_eq_some, Option.some.injEq] at hs
    obtain ⟨hp, rfl⟩ := hs
    exact ⟨_, rfl, id, fun _ => by simp [hp], fun _ _ => by simp, by simp⟩
  | openFailed j =>
    simp only [streamStep, Option.ite_none_right_eq_some, Option.some.injEq] at hs
    obtain ⟨hp, rfl⟩ := hs
    exact ⟨_, rfl, .of_stopped rfl fun _ => by simp [hp]⟩
  | prepared j => exact absurd rfl (hl j)
  | closeSurplus j =>
    simp only [streamStep, Option.ite_none_right_eq_some, Option.some.injEq] at hs
    obtain ⟨-, rfl⟩ := hs
    exact ⟨_, rfl, .of_stopped rfl fun hn => absurd rfl hn⟩
  | write j ok =>
    simp only [streamStep, Option.map_eq_some_iff] at hs
    obtain ⟨st', hw, rfl⟩ := hs
    unfold Stream.write at hw
    split at hw
    · cases hw
    · split at hw
      · cases hw
      · cases hw
        exact ⟨_, rfl, .of_eq rfl (fun hb => by simp [hb]) rfl hfailed⟩
  | stopWriter j =>
    simp only [streamStep, Option.ite_none_right_eq_some, Option.some.injEq] at hs
    obtain ⟨-, rfl⟩ := hs
    exact ⟨_, rfl, .of_eq rfl id rfl hfailed⟩
  | lost j =>
    simp only [streamStep, Option.ite_none_left_eq_some, Option.some.injEq] at hs
    obtain ⟨-, rfl⟩ := hs
    exact ⟨_, rfl, .of_eq rfl (fun _ => rfl) rfl hfailed⟩
  | _ => cases hs

/-- The session keeps the stream; there is none; or the session is closed. -/
theorem prepared_eq {ok : Bool} (hnone : ok = true → s.closed = false → s.asr = none) :
    ∃ asr p, s.prepared i ok = { s with asrPreparing := false, asr }.modify i
        (fun st => { st with preparation := p }) ∧
      ((asr = some i ∧ p = .returned) ∨ (asr = s.asr ∧ p = .returned ∧ ok = false) ∨
        (asr = s.asr ∧ p = .surplus ∧ s.closed = true)) := by
  refine ⟨_, _, rfl, ?_⟩
  cases ok with
  | false => exact .inr (.inl ⟨by simp, by simp, rfl⟩)
  | true =>
    cases hclosed : s.closed with
    | true => exact .inr (.inr ⟨by simp, by simp, rfl⟩)
    | false => exact .inl ⟨by simp [hnone rfl hclosed], by simp [hnone rfl hclosed]⟩

theorem Single.prepared {ok : Bool} (h : Single s) (hl : Law n s) (hi : s.streams[i]? = some st)
    (hp : st.preparation = if ok then .opened else .failed) : Single (s.prepared i ok) := by
  have hover : st.preparation ≠ .returned := by
    rw [hp]
    cases ok <;> nofun
  have hheld : Held s i := .preparing hi hover
  have hnone : ok = true → s.closed = false → s.asr = none := by
    intro _ _
    cases hasr : s.asr with
    | none => rfl
    | some k =>
      obtain ⟨st', hst', hover', -⟩ := hl.utterance.asr k hasr
      rw [h.sole k i (.kept hasr) hheld, hi] at hst'
      exact absurd (Option.some.inj hst' ▸ hover') hover
  obtain ⟨asr, p, heq, hcases⟩ := prepared_eq (i := i) hnone
  rw [heq]
  have hfailed : p ≠ .failed := by
    rcases hcases with ⟨-, rfl⟩ | ⟨-, rfl, -⟩ | ⟨-, rfl, -⟩ <;> nofun
  have hold {j : Nat} {st' : Stream} (hj : ({ s with asrPreparing := false, asr }.modify i
      fun st => { st with preparation := p }).streams[j]? = some st') :
      (j = i ∧ st' = { st with preparation := p }) ∨ (j ≠ i ∧ s.streams[j]? = some st') := by
    rcases at_modify (s := { s with asrPreparing := false, asr }) hi hj with ⟨rfl, rfl⟩ | ⟨hij, hj⟩
    · exact .inl ⟨rfl, rfl⟩
    · exact .inr ⟨fun hn => hij hn.symm, hj⟩
  have hsole {j : Nat} (hj : Held s j) : j = i := h.sole j i hj hheld
  have honly {j : Nat} (hj : Held ({ s with asrPreparing := false, asr }.modify i
      fun st => { st with preparation := p }) j) : j = i := by
    cases hj with
    | kept hj =>
      have hj : asr = some j := hj
      rcases hcases with ⟨rfl, -⟩ | ⟨rfl, -⟩ | ⟨rfl, -⟩
      · exact (Option.some.inj hj).symm
      · exact hsole (.kept hj)
      · exact hsole (.kept hj)
    | turn hr hj hs => exact hsole (.turn hr hj hs)
    | call hj => exact hsole (.call hj)
    | preparing hj hp =>
      rcases hold hj with ⟨rfl, -⟩ | ⟨-, hj⟩
      · rfl
      · exact hsole (.preparing hj hp)
  refine ⟨fun j hj => ?_, fun j k hj hk => (honly hj).trans (honly hk).symm, fun j st' hj hpre => ?_,
    fun j st' hj hpre => ?_, h.call⟩
  · obtain ⟨st', hst', hlive⟩ := live_iff.mp hj
    have hlive' : s.live j = true := by
      rcases hold hst' with ⟨rfl, rfl⟩ | ⟨-, hst'⟩
      · exact live_iff.mpr ⟨st, hi, hlive⟩
      · exact live_iff.mpr ⟨st', hst', hlive⟩
    obtain rfl := hsole (h.held j hlive')
    rcases hcases with ⟨rfl, -⟩ | ⟨-, -, rfl⟩ | ⟨-, rfl, -⟩
    · exact .kept rfl
    · have hdead := h.failed j st hi (by simpa using hp)
      obtain ⟨st₁, hst₁, hl₁⟩ := live_iff.mp hlive'
      rw [hi] at hst₁
      rw [← Option.some.inj hst₁, hdead] at hl₁
      cases hl₁
    · rcases hold hst' with ⟨-, rfl⟩ | ⟨hne, -⟩
      · exact .preparing hst' nofun
      · exact absurd rfl hne
  · rcases hold hj with ⟨rfl, rfl⟩ | ⟨hne, hj⟩
    · rcases hcases with ⟨-, rfl⟩ | ⟨-, rfl, -⟩ | ⟨-, -, hclosed⟩
      · exact absurd rfl hpre
      · exact absurd rfl hpre
      · exact .inr hclosed
    · exact absurd (hsole (.preparing hj hpre)) hne
  · rcases hold hj with ⟨-, rfl⟩ | ⟨-, hj⟩
    · exact absurd hpre hfailed
    · exact h.failed j st' hj hpre

-- ---------------------------------------------------------------------------
-- Steps of a turn
-- ---------------------------------------------------------------------------

theorem append_same {pcm : List UInt8} {branch : Branch} {ok : Bool}
    (h : st.append pcm branch = some (ok, st')) :
    st'.stopped = st.stopped ∧ st'.broken = st.broken ∧ st'.preparation = st.preparation := by
  unfold Stream.append at h
  repeat' split at h
  all_goals
    cases h
    try exact ⟨rfl, rfl, rfl⟩

theorem commit_same {ctxDone : Bool} {branch : Branch} {ok : Bool}
    (h : st.commit ctxDone branch = some (ok, st')) :
    st'.stopped = st.stopped ∧ st'.broken = st.broken ∧ st'.preparation = st.preparation := by
  unfold Stream.commit at h
  dsimp only at h
  repeat' split at h
  all_goals
    cases h
    try exact ⟨rfl, rfl, rfl⟩

theorem Single.goesOn {stage : Stage} (h : Single s) (hr : s.run = some r)
    (hstage : r.asr.isSome = true → r.stage.holds = stage.holds) :
    Single { s with run := some { r with stage } } := by
  refine h.of_held rfl rfl id (fun i _ hi => ?_) (fun i hi => ?_) fun i hi => ?_
  · cases hi with
    | kept hi => exact .kept hi
    | turn hr' hi hs =>
      rw [hr] at hr'
      cases hr'
      exact .turn rfl hi (hstage (Option.isSome_of_eq_some hi) ▸ hs)
    | call hi => exact .call hi
    | preparing hi hp => exact .preparing hi hp
  · cases hi with
    | kept hi => exact .kept hi
    | turn hr' hi hs =>
      cases hr'
      exact .turn hr hi ((hstage (Option.isSome_of_eq_some hi)).trans hs)
    | call hi => exact .call hi
    | preparing hi hp => exact .preparing hi hp
  · rcases h.call i hi with hn | hc
    · rw [hr] at hn
      cases hn
    · exact .inr hc

theorem Single.over (h : Single s) (hno : ∀ r i, s.run = some r → r.asr = some i → r.stage.holds = false) :
    Single { s with run := none } := by
  refine h.of_held rfl rfl id (fun i _ hi => ?_) (fun i hi => ?_) fun _ _ => .inl rfl
  · cases hi with
    | kept hi => exact .kept hi
    | turn hr hi hs =>
      rw [hno _ i hr hi] at hs
      cases hs
    | call hi => exact .call hi
    | preparing hi hp => exact .preparing hi hp
  · cases hi with
    | kept hi => exact .kept hi
    | turn hr => cases hr
    | call hi => exact .call hi
    | preparing hi hp => exact .preparing hi hp

theorem close_live : (s.modify i Stream.close).live i = false := by
  rw [Session.live, Session.modify_streams]
  cases s.streams[i]? <;> simp [Stream.close, Stream.live]

theorem Single.closes (h : Single s) : Single (s.modify i Stream.close) := by
  cases hi : s.streams[i]? with
  | none =>
    rw [Session.modify, List.modify_eq_self (List.getElem?_eq_none_iff.mp hi)]
    exact h
  | some st => exact h.modify hi (.of_stopped rfl fun hn => hn)

theorem Single.start (h : Single s) (hrun : s.run ≠ none)
    (hno : ∀ r i, s.run = some r → r.asr = some i → r.stage.holds = false) :
    Single s.startRealtimeASRPreparation := by
  unfold Session.startRealtimeASRPreparation
  split
  · exact h
  rename_i hgo
  simp only [not_or, Bool.not_eq_true, Option.isSome_eq_false_iff, Option.isNone_iff_eq_none] at hgo
  obtain ⟨hopen, hnone, hidle⟩ := hgo
  refine h.launch fun j hj => ?_
  cases hj with
  | kept hj => simp [hnone] at hj
  | turn hr hj hs => simp [hno _ j hr hj] at hs
  | call hj => rcases h.call j hj with hn | hc <;> simp_all
  | preparing hj hp => rcases h.preparing j _ hj hp with hn | hc <;> simp_all

theorem Single.runStep {l : Label} (h : Single s) (hr : s.run = some r)
    (hc : Careful s l) (hs : runStep r s l = some s') : Single s' := by
  cases l with
  | started ok =>
    simp only [Asr.runStep, Option.ite_none_left_eq_some, Decidable.not_not] at hs
    obtain ⟨hstage, hs⟩ := hs
    cases ok with
    | true =>
      cases hs
      refine h.goesOn hr fun ha => ?_
      rw [hstage, if_pos ha]
      rfl
    | false =>
      simp only [Bool.false_eq_true, if_false, Option.ite_none_right_eq_some, Option.some.injEq] at hs
      obtain ⟨-, rfl⟩ := hs
      refine h.over fun r i hr hi => ?_
      rw [hc r hr] at hi
      cases hi
  | finish branch =>
    simp only [Asr.runStep] at hs
    split at hs
    case h_2 => cases hs
    rename_i i hstage hasr
    split at hs
    case h_2 => cases hs
    rename_i ok st' hcommit
    cases hs
    obtain ⟨st, hst, hcommit⟩ := Option.bind_eq_some_iff.mp hcommit
    obtain ⟨hstopped, hbroken, hp⟩ := commit_same hcommit
    have hmodify : Single (s.modify i fun _ => st') :=
      h.modify hst (.of_eq hstopped (fun hb => hbroken.trans hb) hp (h.failed i st hst))
    refine hmodify.goesOn hr fun _ => ?_
    rw [hstage]
    cases ok <;> rfl
  | read ok =>
    simp only [Asr.runStep, Option.ite_none_right_eq_some, Option.some.injEq] at hs
    obtain ⟨hstage, rfl⟩ := hs
    exact h.goesOn hr fun _ => by rw [hstage]; rfl
  | closeAsr =>
    simp only [Asr.runStep] at hs
    split at hs
    case h_2 => cases hs
    rename_i ok i hstage hasr
    cases hs
    refine Single.of_held (h.closes (i := i)) rfl rfl id (fun j hj hheld => ?_) (fun j hj => ?_) fun j hj => ?_
    · cases hheld with
      | kept hi => exact .kept hi
      | turn hr' hi hs =>
        have hr' : s.run = some _ := hr'
        rw [hr] at hr'
        cases hr'
        rw [hasr] at hi
        cases hi
        rw [close_live] at hj
        cases hj
      | call hi => exact .call hi
      | preparing hi hp => exact .preparing hi hp
    · cases hj with
      | kept hi => exact .kept hi
      | turn hr' hi hs =>
        cases hr'
        cases hs
      | call hi => exact .call hi
      | preparing hi hp => exact .preparing hi hp
    · rcases h.call j hj with hn | hc
      · rw [hr] at hn
        cases hn
      · exact .inr hc
  | replace =>
    simp only [Asr.runStep] at hs
    split at hs
    case h_2 => cases hs
    rename_i ok i hstage hasr
    cases hs
    have hgone : Single { s with run := some { r with
        stage := if ok then .recognized (.realtime i) else .batching } } := by
      refine h.goesOn hr fun _ => ?_
      rw [hstage]
      cases ok <;> rfl
    refine hgone.start (by simp) fun r' j hr' _ => ?_
    cases hr'
    cases ok <;> rfl
  | transcribe =>
    simp only [Asr.runStep, Option.ite_none_right_eq_some, Option.some.injEq] at hs
    obtain ⟨⟨hstage, -⟩, rfl⟩ := hs
    exact h.goesOn hr fun _ => by rw [hstage]; rfl
  | giveUp =>
    simp only [Asr.runStep, Option.ite_none_right_eq_some, Option.some.injEq] at hs
    obtain ⟨⟨hstage, -⟩, rfl⟩ := hs
    exact h.goesOn hr fun _ => by rw [hstage]; rfl
  | ended =>
    simp only [Asr.runStep] at hs
    split at hs
    · rename_i source hstage
      cases hs
      refine h.over fun r' i hr' _ => ?_
      rw [hr] at hr'
      cases hr'
      rw [hstage]
      rfl
    · cases hs
  | _ => cases hs

-- ---------------------------------------------------------------------------
-- The calls
-- ---------------------------------------------------------------------------

/-- Steps of a call that change neither the turn nor who answers for a stream. -/
theorem Single.calls (h : Single s) (hstreams : s'.streams = s.streams)
    (hpreparing : s'.asrPreparing = s.asrPreparing) (hclosed : s'.closed = s.closed)
    (hasr : s'.asr = s.asr) (hrun : s'.run = s.run) (hcall : s'.call.closes = s.call.closes) :
    Single s' := by
  refine h.of_held hstreams hpreparing (fun hc => hclosed.trans hc) (fun i _ hi => ?_)
    (fun i hi => ?_) fun i hi => ?_
  · cases hi with
    | kept hi => exact .kept (hasr.trans hi)
    | turn hr hi hs => exact .turn (hrun.trans hr) hi hs
    | call hi => exact .call (hcall.trans hi)
    | preparing hi hp => exact .preparing (hstreams ▸ hi) hp
  · cases hi with
    | kept hi => exact .kept (hasr ▸ hi)
    | turn hr hi hs => exact .turn (hrun ▸ hr) hi hs
    | call hi => exact .call (hcall ▸ hi)
    | preparing hi hp => exact .preparing (hstreams ▸ hi) hp
  · rw [hrun, hclosed]
    exact h.call i (hcall ▸ hi)

theorem Single.sendAudio {pcm : List UInt8} (h : Single s) (hl : Law n s) (hidle : s.call = .idle)
    (hs : s.sendAudio pcm = some s') : Single s' := by
  have hcloses : s.call.closes = none := by rw [hidle]; rfl
  obtain ⟨-, hopen, -, ⟨i, -, -, rfl⟩ | ⟨-, rfl⟩ | ⟨hasr, hne, hbatch⟩⟩ := sendAudio_cases hs
  · exact h.calls rfl rfl rfl rfl rfl hcloses.symm
  · exact h.calls rfl rfl rfl rfl rfl hcloses.symm
  · exact absurd hasr (hl.utterance.streamed hne hbatch hopen)

/-- A stream that does not take a frame is closed by the call that fed it. -/
theorem Single.disable (h : Single s) (hl : Law n s) (hc : s.call = .disabling i) :
    Single (s.disableRealtimeASR i) := by
  obtain ⟨hrun, hasr, -⟩ := hl.utterance.feeding i (by rw [hc]; rfl)
  unfold Session.disableRealtimeASR
  rw [if_pos hasr]
  refine h.of_held rfl rfl id (fun j _ hj => ?_) (fun j hj => ?_) fun _ _ => .inl hrun
  · cases hj with
    | kept hj => exact .call (hasr.symm.trans hj)
    | turn hr hj hs => exact .turn hr hj hs
    | call hj =>
      rw [hc] at hj
      cases hj
    | preparing hj hp => exact .preparing hj hp
  · cases hj with
    | kept hj => cases hj
    | turn hr hj hs => exact .turn hr hj hs
    | call hj => exact .kept (hasr.trans hj)
    | preparing hj hp => exact .preparing hj hp

theorem Single.commit (h : Single s) (hidle : s.call = .idle) (hs : s.commit = some s') :
    Single s' := by
  have hcloses : s.call.closes = none := by rw [hidle]; rfl
  rw [commit_eq, Option.ite_none_left_eq_some, Option.some.injEq] at hs
  obtain ⟨hgo, rfl⟩ := hs
  simp only [not_or, Bool.not_eq_true, Option.isSome_eq_false_iff, Option.isNone_iff_eq_none] at hgo
  obtain ⟨hopen, hrun, -⟩ := hgo
  have hcommitted : Single s.committed := by
    refine h.of_held rfl rfl id (fun j _ hj => ?_) (fun j hj => ?_) fun j hj => ?_
    · cases hj with
      | kept hj =>
        cases hb : s.turnBatchOnly with
        | true => exact .kept (by simpa [Session.committed, hb] using hj)
        | false => exact .turn rfl (by simpa [Session.handed, hb] using hj) rfl
      | turn hr =>
        rw [hrun] at hr
        cases hr
      | call hj => exact .call hj
      | preparing hj hp => exact .preparing hj hp
    · cases hj with
      | kept hj =>
        simp only [Session.committed] at hj
        split at hj
        · exact .kept hj
        · cases hj
      | turn hr hj hs =>
        cases hr
        simp only [Session.handed] at hj
        split at hj
        · cases hj
        · exact .kept hj
      | call hj => exact .call hj
      | preparing hj hp => exact .preparing hj hp
    · have hj : s.call.closes = some j := hj
      rw [hcloses] at hj
      cases hj
  split
  case isFalse => exact hcommitted
  rename_i hlaunch
  refine hcommitted.launch fun j hj => ?_
  cases hj with
  | kept hj =>
    rw [hlaunch.2.1] at hj
    cases hj
  | turn hr hj =>
    cases hr
    rw [hlaunch.1] at hj
    cases hj
  | call hj =>
    have hj : s.call.closes = some j := hj
    rw [hcloses] at hj
    cases hj
  | preparing hj hp =>
    rcases h.preparing j _ hj hp with hn | hc
    · exact hlaunch.2.2 hn
    · rw [hopen] at hc
      cases hc

theorem Single.cancel (h : Single s) (hidle : s.call = .idle) (hc : s.taken = none) :
    Single s.cancel := by
  rw [cancel_eq, hc, if_neg (by simp)]
  refine h.calls rfl rfl rfl ?_ rfl ?_
  · simp only [Session.taken, ite_eq_right_iff] at hc
    simp only [Session.dropped]
    split
    · exact (hc (by assumption)).symm
    · rfl
  · rw [hidle]
    exact hc

theorem Single.close (h : Single s) (hidle : s.call = .idle) : Single s.close := by
  unfold Session.close
  split
  · exact h
  refine h.of_held rfl rfl (fun _ => rfl) (fun j _ hj => ?_) (fun j hj => ?_) fun _ _ => .inr rfl
  · cases hj with
    | kept hj => exact .call (by simp [hj, Call.closes])
    | turn hr hj hs => exact .turn hr hj hs
    | call hj =>
      rw [hidle] at hj
      cases hj
    | preparing hj hp => exact .preparing hj hp
  · cases hj with
    | kept hj => cases hj
    | turn hr hj hs => exact .turn hr hj hs
    | call hj =>
      cases hasr : s.asr with
      | none => simp [hasr, Call.closes] at hj
      | some k => exact .kept (by simpa [hasr, Call.closes] using hj)
    | preparing hj hp => exact .preparing hj hp

theorem Single.closeStream {call : Call} (h : Single s) (hc : s.call.closes = some i)
    (hcall : call.closes = none) : Single { s.modify i Stream.close with call } := by
  refine Single.of_held (h.closes (i := i)) rfl rfl id (fun j hlive hj => ?_) (fun j hj => ?_) fun j hj => ?_
  · cases hj with
    | kept hj => exact .kept hj
    | turn hr hj hs => exact .turn hr hj hs
    | call hj =>
      have hj : s.call.closes = some j := hj
      rw [hc] at hj
      cases hj
      rw [close_live] at hlive
      cases hlive
    | preparing hj hp => exact .preparing hj hp
  · cases hj with
    | kept hj => exact .kept hj
    | turn hr hj hs => exact .turn hr hj hs
    | call hj =>
      have hj : call.closes = some j := hj
      rw [hcall] at hj
      cases hj
    | preparing hj hp => exact .preparing hj hp
  · have hj : call.closes = some j := hj
    rw [hcall] at hj
    cases hj

theorem Single.cancelled (h : Single s) :
    Single { s with run := s.run.map fun r => { r with cancelled := true } } := by
  cases hr : s.run with
  | none =>
    exact h.calls rfl rfl rfl rfl hr.symm rfl
  | some r =>
    refine h.of_held rfl rfl id (fun j _ hj => ?_) (fun j hj => ?_) fun j hj => ?_
    · cases hj with
      | kept hj => exact .kept hj
      | turn hr' hj hs =>
        rw [hr] at hr'
        cases hr'
        exact .turn rfl hj hs
      | call hj => exact .call hj
      | preparing hj hp => exact .preparing hj hp
    · cases hj with
      | kept hj => exact .kept hj
      | turn hr' hj hs =>
        cases hr'
        exact .turn hr hj hs
      | call hj => exact .call hj
      | preparing hj hp => exact .preparing hj hp
    · rcases h.call j hj with hn | hc
      · rw [hr] at hn
        cases hn
      · exact .inr hc

theorem Single.step {l : Label} (h : Single s) (hl : Law n s) (hc : Careful s l)
    (hs : step s l = some s') : Single s' := by
  cases l with
  | sendAudio pcm =>
    simp only [Asr.step, Option.ite_none_right_eq_some, Option.some.injEq] at hs
    obtain ⟨hidle, rfl⟩ := hs
    cases hsend : s.sendAudio pcm with
    | none => exact h
    | some s' => exact h.sendAudio hl hidle hsend
  | commit =>
    simp only [Asr.step, Option.ite_none_right_eq_some, Option.some.injEq] at hs
    obtain ⟨hidle, rfl⟩ := hs
    cases hcommit : s.commit with
    | none => exact h
    | some s' => exact h.commit hidle hcommit
  | cancel =>
    simp only [Asr.step, Option.ite_none_right_eq_some, Option.some.injEq] at hs
    obtain ⟨hidle, rfl⟩ := hs
    exact h.cancel hidle hc
  | close =>
    simp only [Asr.step, Option.ite_none_right_eq_some, Option.some.injEq] at hs
    obtain ⟨hidle, rfl⟩ := hs
    exact h.close hidle
  | append branch =>
    simp only [Asr.step] at hs
    split at hs
    case h_2 => cases hs
    rename_i i pcm hcall
    split at hs
    case h_2 => cases hs
    rename_i ok st' happend
    cases hs
    obtain ⟨st, hi, happend⟩ := Option.bind_eq_some_iff.mp happend
    obtain ⟨hstopped, hbroken, hp⟩ := append_same happend
    have hmodify : Single (s.modify i fun _ => st') :=
      h.modify hi (.of_eq hstopped (fun hb => hbroken.trans hb) hp (h.failed i st hi))
    refine hmodify.calls rfl rfl rfl rfl rfl ?_
    rw [show (s.modify i fun _ => st').call = s.call from rfl, hcall]
    cases ok <;> rfl
  | disable =>
    simp only [Asr.step] at hs
    split at hs
    · rename_i i hcall
      cases hs
      exact h.disable hl hcall
    · cases hs
  | closeStream =>
    simp only [Asr.step] at hs
    split at hs
    · rename_i i hcall
      cases hs
      exact h.closeStream (by rw [hcall]; rfl) rfl
    · rename_i i active hcall
      cases hs
      exact h.closeStream (by rw [hcall]; rfl) rfl
    · cases hs
  | cancelRun =>
    simp only [Asr.step] at hs
    split at hs
    · rename_i hcall
      cases hs
      refine Single.calls h.cancelled rfl rfl rfl rfl rfl ?_
      show none = s.call.closes
      rw [hcall]
      rfl
    · rename_i hcall
      cases hs
      exact h.calls rfl rfl rfl rfl rfl (by rw [hcall]; rfl)
    · cases hs
  | cancelled done =>
    simp only [Asr.step, Option.ite_none_right_eq_some, Option.some.injEq] at hs
    obtain ⟨⟨hcall, -⟩, rfl⟩ := hs
    exact h.calls rfl rfl rfl rfl rfl (by rw [hcall]; rfl)
  | ctxDone =>
    cases hs
    exact h.calls rfl rfl rfl rfl rfl rfl
  | prepared i =>
    simp only [Asr.step] at hs
    split at hs
    case h_2 => cases hs
    rename_i st hi
    simp only [Asr.streamStep] at hs
    split at hs
    · rename_i hp
      cases hs
      exact h.prepared hl hi hp
    · rename_i hp
      cases hs
      exact h.prepared hl hi hp
    · cases hs
  | opened i | openFailed i | closeSurplus i | write i _ | stopWriter i | lost i =>
    simp only [Asr.step] at hs
    split at hs
    · rename_i st hi
      obtain ⟨f, rfl, hf⟩ := streamStep_fades hs (by simp) (h.failed _ st hi)
      exact h.modify hi hf
    · cases hs
  | started _ | finish _ | read _ | closeAsr | replace | transcribe | giveUp | ended =>
    simp only [Asr.step] at hs
    split at hs
    · exact h.runStep (by assumption) hc hs
    · cases hs

/-- The stream that `Open` prepares. -/
theorem Single.initial : Single {} := by
  have honly {i : Nat} {st : Stream} (hi : ({} : Session).streams[i]? = some st) :
      i = 0 ∧ st = {} := by
    cases i with
    | zero => exact ⟨rfl, (Option.some.inj hi).symm⟩
    | succ i => simp at hi
  have hheld {i : Nat} (h : Held {} i) : i = 0 := by
    cases h with
    | kept h => cases h
    | turn h => cases h
    | call h => cases h
    | preparing h _ => exact (honly h).1
  refine ⟨fun i hi => ?_, fun i j hi hj => (hheld hi).trans (hheld hj).symm, fun _ _ _ _ => .inl rfl,
    fun i st hi hp => ?_, nofun⟩
  · obtain ⟨st, hst, -⟩ := live_iff.mp hi
    obtain ⟨-, rfl⟩ := honly hst
    exact .preparing hst nofun
  · obtain ⟨-, rfl⟩ := honly hi
    cases hp

theorem exists_law (h : machine.Reachable s) : ∃ n, Law n s := by
  obtain ⟨n, ho⟩ := Lts.Machine.exists_observed h {} note
  exact ⟨n, observed_law ho⟩

/-- In every run of careful steps one stream at most is open or being opened. -/
theorem single_asr (h : machine.ReachableUnder Careful s) :
    ∀ i j, s.live i = true → s.live j = true → i = j := by
  have hsingle : Single s := by
    refine h.invariant_with (J := fun s => ∃ n, Law n s) (fun s hr => exists_law hr.reachable) ?_
      fun s l s' hl _ hi hc hs => ?_
    · rintro _ rfl
      exact .initial
    · obtain ⟨n, hl⟩ := hl
      exact hi.step hl hc hs
  exact fun i j hi hj => hsingle.sole i j (hsingle.held i hi) (hsingle.held j hj)

-- ---------------------------------------------------------------------------
-- Runs
-- ---------------------------------------------------------------------------

def sampleFrame : List UInt8 := [1, 2]

def sampleUtterance : List Label :=
  [.opened 0, .prepared 0, .sendAudio sampleFrame, .append .command]

def sampleTurn : List Label :=
  [.commit, .started true, .finish .command, .write 0 true, .write 0 true, .read true]

def sampleReplacement : List Label := [.closeAsr, .replace, .opened 1, .prepared 1, .ended]

def careful (s : Session) : Label → Bool
  | .cancel => s.taken.isNone
  | .started false => (s.run.bind (·.asr)).isNone
  | _ => true

theorem careful_sound {l : Label} (h : careful s l = true) : Careful s l := by
  cases l with
  | cancel => exact Option.isNone_iff_eq_none.mp h
  | started ok =>
    cases ok with
    | true => trivial
    | false =>
      intro r hr
      simpa [careful, hr] using h
  | _ => trivial

theorem single_asr_replaced : ∃ s, machine.ReachableUnder Careful s ∧ s.live 1 = true ∧
    ∀ i, s.live i = true → i = 1 := by
  obtain ⟨s, hreach, hp⟩ := machine.exists_of_runIf careful (fun _ _ => careful_sound) {}
    (sampleUtterance ++ sampleTurn ++ sampleReplacement) (·.live 1) rfl (by decide +kernel)
  exact ⟨s, hreach, hp, fun i hi => single_asr hreach i 1 hi hp⟩

/-- `Cancel` has a stream opened before it closes the one it took; and a turn that is
cancelled before its first event leaves its stream open. -/
theorem single_asr_fails :
    (∃ s, machine.Reachable s ∧ s.call = .cancelling (some 0) false ∧ s.live 0 = true ∧
      s.live 1 = true) ∧
    (∃ s, machine.Reachable s ∧ s.call = .idle ∧ s.live 0 = true ∧ s.live 1 = true) ∧
    ¬ ∀ s, machine.Reachable s → ∀ i j, s.live i = true → s.live j = true → i = j := by
  obtain ⟨s, -, hs, hp⟩ := machine.exists_of_run {} (List.flatten [sampleUtterance, [.cancel, .opened 1]])
    (fun s => decide (s.call = .cancelling (some 0) false ∧ s.live 0 = true ∧ s.live 1 = true))
    rfl (by decide +kernel)
  obtain ⟨t, -, ht, hq⟩ := machine.exists_of_run {}
    (List.flatten [sampleUtterance,
      [.commit, .cancel, .cancelRun, .started false, .cancelled true, .sendAudio sampleFrame,
        .commit, .opened 1]])
    (fun s => decide (s.call = .idle ∧ s.live 0 = true ∧ s.live 1 = true)) rfl (by decide +kernel)
  have hp := of_decide_eq_true hp
  have hq := of_decide_eq_true hq
  exact ⟨⟨s, hs, hp⟩, ⟨t, ht, hq⟩, fun h => absurd (h s hs 0 1 hp.2.1 hp.2.2) nofun⟩

end BoomPI.Asr
