import BoomPI.Past
import BoomPI.Client.Audio.Backend

/-!
# What the gate is for

Most of the time a frame's voice counts. Behind a prepared playback it does not
until the reference has been heard for 30 frames, and behind a playback that has
ended by itself not for 15 frames. `Phase` says where in this a frame is; it is the
two counters and the flag of `UpdateNearVoice` without the combinations they never
take. `Follows` ties it to the record of what happened.
-/

namespace BoomPI.Audio

open Past (Since Ever)

-- ---------------------------------------------------------------------------
-- The phases
-- ---------------------------------------------------------------------------

inductive Phase
  | idle
  | waiting                 -- for the reference of a prepared playback
  | warming (left : Nat)    -- `left + 1` frames of the warm-up remain
  | tailing (left : Nat)    -- `left + 1` frames of the tail remain
  deriving DecidableEq, Repr

/-- A frame: the next phase, whether the frame is suppressed and whether the classifier
is reset on it. -/
def Phase.next (ended : Option Ending) (opening : Bool) : Phase → Phase × Bool × Bool
  | φ => match ended, φ with
    | some .interrupted, _ => (.idle, false, false)
    | some .natural, _ => (.tailing 13, true, false)
    | none, .waiting => (if opening then .warming 28 else .waiting, true, false)
    | none, .warming 0 => (.idle, true, true)
    | none, .warming (left + 1) => (.warming left, true, false)
    | none, .tailing 0 => (.idle, true, true)
    | none, .tailing (left + 1) => (.tailing left, true, false)
    | none, .idle => (.idle, false, false)

/-- A voice counts on a frame that observes an interruption, and outside the suppressions. -/
theorem Phase.next_open {φ : Phase} {e : Option Ending} {opening : Bool} :
    (φ.next e opening).2.1 = false ↔ e = some .interrupted ∨ e = none ∧ φ = .idle := by
  cases e with
  | some e => cases e <;> simp [Phase.next]
  | none =>
    cases φ with
    | idle | waiting => simp [Phase.next]
    | warming left | tailing left => cases left <;> simp [Phase.next]

/-- The counters stand for the phase. -/
def Backend.In (b : Backend) : Phase → Prop
  | .idle => b.aecWarmupArmed = false ∧ b.aecWarmupRemaining = 0 ∧ b.aecTailRemaining = 0
  | .waiting => b.aecWarmupArmed = true ∧ b.aecWarmupRemaining = 0 ∧ b.aecTailRemaining = 0
  | .warming left =>
    b.aecWarmupArmed = false ∧ b.aecWarmupRemaining = left + 1 ∧ b.aecTailRemaining = 0
  | .tailing left =>
    b.aecWarmupArmed = false ∧ b.aecWarmupRemaining = 0 ∧ b.aecTailRemaining = left + 1

variable {b b' : Backend} {φ φ' : Phase} {frame frame' : CaptureFrame} {ended ok : Bool}

theorem updateNearVoice_phase (hb : b.In φ)
    (hu : b.updateNearVoice ended frame ok = some (b', frame')) :
    let r := φ.next (b.ending ended) (b.playbackRenderStarted && frame.referenceActive)
    b'.In r.1 ∧ frame' = { frame with nearVoice := !r.2.1 && frame.vadNow } ∧
      b'.gateResets = b.gateResets + r.2.2.toNat ∧
      b'.playbackSessionActive = (b.playbackSessionActive && !ended) ∧
      b'.playbackRenderStarted = b.playbackRenderStarted ∧
      b'.playbackInterrupted = b.playbackInterrupted ∧ b'.playbackEnded = b.playbackEnded := by
  cases ended with
  | true =>
    cases hi : b.playbackInterrupted with
    | true =>
      simp [Backend.updateNearVoice, Backend.observe, Backend.countWarmup, Backend.countTail, hi] at hu
      obtain ⟨rfl, rfl⟩ := hu
      simp [Backend.ending, hi, Phase.next, Backend.In]
    | false =>
      simp [Backend.updateNearVoice, Backend.observe, Backend.countWarmup, Backend.countTail, hi,
        kAecTailFrames] at hu
      obtain ⟨rfl, rfl⟩ := hu
      simp [Backend.ending, hi, Phase.next, Backend.In]
  | false =>
    cases φ with
    | idle =>
      obtain ⟨ha, hw, ht⟩ := hb
      simp [Backend.updateNearVoice, Backend.observe, Backend.countWarmup, Backend.countTail, ha, hw,
        ht] at hu
      obtain ⟨rfl, rfl⟩ := hu
      simp [Backend.ending, Phase.next, Backend.In, ha, hw, ht]
    | waiting =>
      obtain ⟨ha, hw, ht⟩ := hb
      cases ho : b.playbackRenderStarted && frame.referenceActive with
      | true =>
        have ho' := Bool.and_eq_true_iff.mp ho
        simp [Backend.updateNearVoice, Backend.observe, Backend.countWarmup, Backend.countTail, ha, ht,
          ho', kAecWarmupFrames] at hu
        obtain ⟨rfl, rfl⟩ := hu
        simp [Backend.ending, Phase.next, Backend.In, ho']
      | false =>
        have ho' : ¬ (b.playbackRenderStarted = true ∧ frame.referenceActive = true) := by
          simpa using ho
        simp [Backend.updateNearVoice, Backend.observe, Backend.countWarmup, Backend.countTail, ha, hw,
          ht, ho'] at hu
        obtain ⟨rfl, rfl⟩ := hu
        simp [Backend.ending, Phase.next, Backend.In, ha, hw, ht]
    | warming left =>
      obtain ⟨ha, hw, ht⟩ := hb
      cases left with
      | zero =>
        cases ok with
        | false =>
          simp [Backend.updateNearVoice, Backend.observe, Backend.countWarmup, Backend.resetVad, ha,
            hw] at hu
        | true =>
          simp [Backend.updateNearVoice, Backend.observe, Backend.countWarmup, Backend.countTail,
            Backend.resetVad, ha, hw, ht] at hu
          obtain ⟨rfl, rfl⟩ := hu
          simp [Backend.ending, Phase.next, Backend.In]
      | succ left =>
        simp [Backend.updateNearVoice, Backend.observe, Backend.countWarmup, Backend.countTail, ha, hw,
          ht] at hu
        obtain ⟨rfl, rfl⟩ := hu
        simp [Backend.ending, Phase.next, Backend.In]
    | tailing left =>
      obtain ⟨ha, hw, ht⟩ := hb
      cases left with
      | zero =>
        cases ok with
        | false =>
          simp [Backend.updateNearVoice, Backend.observe, Backend.countWarmup, Backend.countTail,
            Backend.resetVad, ha, hw, ht] at hu
        | true =>
          simp [Backend.updateNearVoice, Backend.observe, Backend.countWarmup, Backend.countTail,
            Backend.resetVad, ha, hw, ht] at hu
          obtain ⟨rfl, rfl⟩ := hu
          simp [Backend.ending, Phase.next, Backend.In]
      | succ left =>
        simp [Backend.updateNearVoice, Backend.observe, Backend.countWarmup, Backend.countTail, ha, hw,
          ht] at hu
        obtain ⟨rfl, rfl⟩ := hu
        simp [Backend.ending, Phase.next, Backend.In]

-- ---------------------------------------------------------------------------
-- The record
-- ---------------------------------------------------------------------------

def Entry.ending : Entry → Option Ending
  | .processed p => p.ended
  | _ => none

def Entry.discontinuity : Entry → Bool
  | .processed p => p.frame.discontinuity
  | _ => false

def Entry.counted : Entry → Bool
  | .processed p => !p.frame.discontinuity
  | _ => false

/-- A frame with the reference on it, while the playback renders. -/
def Entry.opening : Entry → Bool
  | .processed p => p.rendering && p.frame.referenceActive
  | _ => false

def NoEnd (x : Entry) : Prop := x.ending = none

/-- A playback has been prepared, and no frame has observed its end. -/
def Playing (log : List Entry) : Prop := Ever (fun x _ => x = .prepared) NoEnd log

/-- What starts the wait for the reference: a new playback, or a gap in the session. -/
def Arms (x : Entry) (log : List Entry) : Prop :=
  x = .prepared ∨ x.discontinuity = true ∧ NoEnd x ∧ Playing log

/-- The first frame with the reference on it, of those that wait for one. -/
def Opens (x : Entry) (log : List Entry) : Prop :=
  x.opening = true ∧ NoEnd x ∧ Ever Arms (fun x => NoEnd x ∧ x.opening = false) log

def Natural (x : Entry) (_ : List Entry) : Prop := x.ending = some .natural

def Undisturbed (x : Entry) : Prop := x ≠ .prepared ∧ x.discontinuity = false ∧ NoEnd x

def Quiet (x : Entry) : Prop := x ≠ .prepared ∧ NoEnd x

def NotInterrupted (x : Entry) : Prop := x.ending ≠ some .interrupted

def Phase.warmupLeft : Phase → Nat
  | .warming left => left + 1
  | _ => 0

def Phase.tailLeft : Phase → Nat
  | .tailing left => left + 1
  | _ => 0

/-- What the phase and `playback_session_active` know of the record. -/
structure Follows (φ : Phase) (session : Bool) (log : List Entry) : Prop where
  playing : session = true ↔ Playing log
  inside : φ = .waiting ∨ φ.warmupLeft ≠ 0 → session = true
  waiting : φ = .waiting ↔ Ever Arms (fun x => NoEnd x ∧ x.opening = false) log
  warming : ∀ n, Since Entry.counted Opens Undisturbed n log →
    φ = if n ≤ 28 then .warming (28 - n) else .idle
  warmed : ∀ left, φ = .warming left →
    left ≤ 28 ∧ Since Entry.counted Opens Undisturbed (28 - left) log
  tailing : ∀ n, Since Entry.counted Natural Quiet n log →
    session = false ∧ φ = if n ≤ 13 then .tailing (13 - n) else .idle
  tailed : ∀ left, φ = .tailing left →
    left ≤ 13 ∧ Since Entry.counted Natural Quiet (13 - left) log
  warmup : Ever Arms NoEnd log → φ = .waiting ∨
    ∃ m, Since Entry.counted (fun x _ => x.opening = true) Undisturbed m log ∧
      29 ≤ φ.warmupLeft + m
  tail : ∀ n, Since Entry.counted Natural NotInterrupted n log → φ = .waiting ∨
    29 ≤ φ.warmupLeft + n ∧ φ.warmupLeft ≠ 0 ∨ 14 ≤ φ.tailLeft + n

variable {session : Bool} {log : List Entry} {p : Processed} {x : Entry}

theorem Ever.playing (h : Ever Arms NoEnd log) : Playing log := by
  obtain ⟨n, h⟩ := h
  induction h with
  | @here x log h =>
    rcases h with rfl | ⟨-, hx, h⟩
    · exact Past.ever_cons.mpr (.inl rfl)
    · exact Past.ever_cons.mpr (.inr ⟨hx, h⟩)
  | tick hq _ _ ih => exact Past.ever_cons.mpr (.inr ⟨hq, ih⟩)
  | skip _ hc _ _ => cases hc

theorem Follows.init : Follows .idle false [] := by
  constructor <;> simp [Phase.warmupLeft, Playing, Past.not_ever_nil, Past.not_since_nil]

theorem Follows.neutral (h : Follows φ session log) (hx : x ≠ .prepared) (hf : ∀ p, x ≠ .processed p) :
    Follows φ session (x :: log) := by
  have hend : x.ending = none := by cases x <;> simp_all [Entry.ending]
  have hdis : x.discontinuity = false := by cases x <;> simp_all [Entry.discontinuity]
  have hcount : x.counted = false := by cases x <;> simp_all [Entry.counted]
  have hopen : x.opening = false := by cases x <;> simp_all [Entry.opening]
  have harms : ∀ log, ¬ Arms x log := by simp [Arms, hx, hdis]
  have hopens : ∀ log, ¬ Opens x log := by simp [Opens, hopen]
  have hnat : ∀ log, ¬ Natural x log := by simp [Natural, hend]
  have hw : ∀ n, Since Entry.counted Opens Undisturbed n (x :: log) ↔
      Since Entry.counted Opens Undisturbed n log := fun n =>
    Past.since_skip (hopens log) ⟨hx, hdis, hend⟩ hcount
  have ht : ∀ n, Since Entry.counted Natural Quiet n (x :: log) ↔
      Since Entry.counted Natural Quiet n log := fun n =>
    Past.since_skip (hnat log) ⟨hx, hend⟩ hcount
  refine ⟨?_, h.inside, ?_, fun n => ?_, fun k => ?_, fun n => ?_, fun k => ?_, ?_, fun n => ?_⟩
  · rw [h.playing, Playing, Playing, Past.ever_cons]
    simp [hx, NoEnd, hend]
  · rw [h.waiting, Past.ever_cons]
    simp [harms, NoEnd, hend, hopen]
  · rw [hw]
    exact h.warming n
  · rw [hw]
    exact h.warmed k
  · rw [ht]
    exact h.tailing n
  · rw [ht]
    exact h.tailed k
  · rw [Past.ever_cons]
    simp only [harms, NoEnd, hend, false_or, true_and]
    intro he
    refine (h.warmup he).imp_right fun ⟨m, hm, hle⟩ => ⟨m, ?_, hle⟩
    exact .skip ⟨hx, hdis, hend⟩ hcount hm
  · rw [Past.since_skip (hnat log) (by simp [NotInterrupted, hend]) hcount]
    exact h.tail n

theorem Follows.prepared : Follows .waiting true (.prepared :: log) := by
  have hw : ∀ n, ¬ Since Entry.counted Opens Undisturbed n (.prepared :: log) := fun n => by
    simp [Past.since_cons, Undisturbed, Opens, Entry.opening]
  have ht : ∀ n, ¬ Since Entry.counted Natural Quiet n (.prepared :: log) := fun n => by
    simp [Past.since_cons, Quiet, Natural, Entry.ending]
  refine ⟨?_, fun _ => rfl, ?_, fun n hn => absurd hn (hw n), nofun, fun n hn => absurd hn (ht n),
    nofun, fun _ => .inl rfl, fun _ _ => .inl rfl⟩
  · simp [Playing, Past.ever_cons]
  · simp [Past.ever_cons, Arms]

/-- A gap inside the session: the wait for the reference begins again. -/
theorem Follows.gap (h : Follows φ true log) (hd : p.frame.discontinuity = true)
    (he : p.ended = none) (hr : p.frame.referenceActive = false) :
    Follows .waiting true (.processed p :: log) := by
  have hplay : Playing log := h.playing.mp rfl
  have harms : Arms (.processed p) log := .inr ⟨hd, he, hplay⟩
  have hcut : ¬ Undisturbed (.processed p) := by simp [Undisturbed, Entry.discontinuity, hd]
  have hw : ∀ n, ¬ Since Entry.counted Opens Undisturbed n (.processed p :: log) := fun n => by
    simp [Past.since_cut hcut, Opens, Entry.opening, hr]
  have ht : ∀ n, ¬ Since Entry.counted Natural Quiet n (.processed p :: log) := fun n hn => by
    rw [Past.since_skip (by simp [Natural, Entry.ending, he]) ⟨nofun, he⟩
      (by simp [Entry.counted, hd])] at hn
    exact absurd (h.tailing n hn).1 nofun
  refine ⟨?_, fun _ => rfl, ?_, fun n hn => absurd hn (hw n), nofun, fun n hn => absurd hn (ht n),
    nofun, fun _ => .inl rfl, fun _ _ => .inl rfl⟩
  · simp only [true_iff]
    exact Past.ever_cons.mpr (.inr ⟨he, hplay⟩)
  · simp only [true_iff]
    exact Past.ever_cons.mpr (.inl harms)

theorem Follows.gap_outside (h : Follows φ false log) (hd : p.frame.discontinuity = true)
    (he : p.ended = none) (hr : p.frame.referenceActive = false) :
    Follows φ false (.processed p :: log) := by
  have hplay : ¬ Playing log := fun hp => nomatch h.playing.mpr hp
  have hin := mt h.inside (by simp)
  rw [not_or, not_not] at hin
  have hcount : (Entry.processed p).counted = false := by simp [Entry.counted, hd]
  have hopen : (Entry.processed p).opening = false := by simp [Entry.opening, hr]
  have harms : ¬ Arms (.processed p) log := by simp [Arms, hplay]
  have hwait : ¬ Ever Arms (fun x => NoEnd x ∧ x.opening = false) log :=
    fun hw => hin.1 (h.waiting.mpr hw)
  have hnat : ¬ Natural (.processed p) log := by simp [Natural, Entry.ending, he]
  have hcut : ¬ Undisturbed (.processed p) := by simp [Undisturbed, Entry.discontinuity, hd]
  have ht : ∀ n, Since Entry.counted Natural Quiet n (.processed p :: log) ↔
      Since Entry.counted Natural Quiet n log := fun n => Past.since_skip hnat ⟨nofun, he⟩ hcount
  refine ⟨?_, h.inside, ?_, fun n hn => ?_, fun k hk => ?_, fun n => ?_, fun k => ?_, ?_, fun n => ?_⟩
  · simp only [Bool.false_eq_true, false_iff]
    rw [Playing, Past.ever_cons]
    exact fun hp => hp.elim nofun fun hp => hplay hp.2
  · rw [Past.ever_cons]
    simp [harms, hwait, hin.1]
  · simp [Past.since_cut hcut, Opens, hopen] at hn
  · simp [hk, Phase.warmupLeft] at hin
  · rw [ht]
    exact h.tailing n
  · rw [ht]
    exact h.tailed k
  · rw [Past.ever_cons]
    rintro (ha | ⟨-, ha⟩)
    · exact absurd ha harms
    · exact absurd (Ever.playing ha) hplay
  · rw [Past.since_skip hnat (by simp [NotInterrupted, Entry.ending, he]) hcount]
    exact h.tail n

theorem Follows.ending (φ : Phase) (hd : p.frame.discontinuity = false) {e : Ending}
    (he : p.ended = some e) (opening : Bool) :
    Follows (φ.next (some e) opening).1 false (.processed p :: log) := by
  have hcount : (Entry.processed p).counted = true := by simp [Entry.counted, hd]
  have hend : ¬ NoEnd (.processed p) := by simp [NoEnd, Entry.ending, he]
  have hwait : ¬ Ever Arms (fun x => NoEnd x ∧ x.opening = false) (.processed p :: log) := by
    simp [Past.ever_cons, Arms, hend]
  have hwarm : ∀ n, ¬ Since Entry.counted Opens Undisturbed n (.processed p :: log) := fun n => by
    simp [Past.since_cut (fun hu => hend hu.2.2 : ¬ Undisturbed (.processed p)), Opens, hend]
  have htail : ∀ n, Since Entry.counted Natural Quiet n (.processed p :: log) ↔
      n = 0 ∧ e = .natural := fun n => by
    simp [Past.since_cut (fun hu => hend hu.2 : ¬ Quiet (.processed p)), Natural, Entry.ending, he]
  have hplay : ¬ Playing (.processed p :: log) := by simp [Playing, Past.ever_cons, hend]
  have hnow : ¬ Ever Arms NoEnd (.processed p :: log) := fun hp => hplay (Ever.playing hp)
  cases e with
  | interrupted =>
    refine ⟨by simpa [Phase.next] using hplay, by simp [Phase.next, Phase.warmupLeft],
      by simpa [Phase.next] using hwait, fun n hn => absurd hn (hwarm n), nofun,
      fun n hn => ?_, nofun, fun hp => absurd hp hnow, fun n hn => ?_⟩
    · simp [htail] at hn
    · have hcut : ¬ NotInterrupted (.processed p) := by simp [NotInterrupted, Entry.ending, he]
      simp [Past.since_cut hcut, Natural, Entry.ending, he] at hn
  | natural =>
    refine ⟨by simpa [Phase.next] using hplay, by simp [Phase.next, Phase.warmupLeft],
      by simpa [Phase.next] using hwait, fun n hn => absurd hn (hwarm n), nofun,
      fun n hn => ?_, fun left hk => ?_, fun hp => absurd hp hnow,
      fun n hn => .inr (.inr (by simp [Phase.next, Phase.tailLeft]))⟩
    · obtain ⟨rfl, -⟩ := (htail n).mp hn
      exact ⟨rfl, rfl⟩
    · simp only [Phase.next, Phase.tailing.injEq] at hk
      subst hk
      exact ⟨Nat.le_refl _, (htail _).mpr ⟨rfl, rfl⟩⟩

theorem Follows.plain (h : Follows φ session log) (hd : p.frame.discontinuity = false)
    (he : p.ended = none) :
    Follows (φ.next none (p.rendering && p.frame.referenceActive)).1 session (.processed p :: log) := by
  have hcount : (Entry.processed p).counted = true := by simp [Entry.counted, hd]
  have hend : NoEnd (.processed p) := by simp [NoEnd, Entry.ending, he]
  have harms : ¬ Arms (.processed p) log := by simp [Arms, Entry.discontinuity, hd]
  have hnat : ¬ Natural (.processed p) log := by simp [Natural, Entry.ending, he]
  have hund : Undisturbed (.processed p) := ⟨nofun, hd, hend⟩
  have hquiet : Quiet (.processed p) := ⟨nofun, hend⟩
  have hwait : Ever Arms (fun x => NoEnd x ∧ x.opening = false) (.processed p :: log) ↔
      (Entry.processed p).opening = false ∧ φ = .waiting := by
    rw [Past.ever_cons, h.waiting]
    simp [harms, hend]
  have hopens : Opens (.processed p) log ↔ (Entry.processed p).opening = true ∧ φ = .waiting := by
    rw [Opens, h.waiting]
    simp [hend]
  have hwarm : ∀ n, Since Entry.counted Opens Undisturbed n (.processed p :: log) ↔
      (n = 0 ∧ (Entry.processed p).opening = true ∧ φ = .waiting) ∨
        ∃ m, n = m + 1 ∧ Since Entry.counted Opens Undisturbed m log := fun n => by
    rw [Past.since_cons, hopens, if_pos hcount]
    simp [hund]
  have htail : ∀ n, Since Entry.counted Natural Quiet n (.processed p :: log) ↔
      ∃ m, n = m + 1 ∧ Since Entry.counted Natural Quiet m log := fun n =>
    Past.since_tick hnat hquiet hcount
  have hopen : (p.rendering && p.frame.referenceActive) = (Entry.processed p).opening := rfl
  rw [hopen]
  generalize hop : (Entry.processed p).opening = opening at hwait hopens hwarm
  constructor
  case playing =>
    rw [h.playing, Playing, Playing, Past.ever_cons]
    simp [hend]
  case inside =>
    intro hin
    refine h.inside ?_
    match φ, opening with
    | .waiting, _ => exact .inl rfl
    | .warming _, _ => exact .inr (by simp [Phase.warmupLeft])
    | .tailing 0, _ | .tailing (_ + 1), _ | .idle, _ => simp [Phase.next, Phase.warmupLeft] at hin
  case waiting =>
    rw [hwait]
    match φ, opening with
    | .waiting, true | .waiting, false | .warming 0, _ | .warming (_ + 1), _ | .tailing 0, _
    | .tailing (_ + 1), _ | .idle, _ => simp [Phase.next]
  case warming =>
    intro n hn
    rcases (hwarm n).mp hn with ⟨rfl, rfl, rfl⟩ | ⟨m, rfl, hm⟩
    · rfl
    · rw [h.warming m hm]
      rcases Nat.lt_trichotomy m 28 with hlt | rfl | hgt
      · obtain ⟨k, hk⟩ : ∃ k, 28 - m = k + 1 := ⟨27 - m, by omega⟩
        rw [if_pos (by omega), if_pos (by omega), hk]
        simp only [Phase.next, Phase.warming.injEq]
        omega
      · rfl
      · rw [if_neg (by omega), if_neg (by omega)]
        rfl
  case warmed =>
    intro left hk
    rw [hwarm]
    cases φ with
    | waiting =>
      cases opening with
      | false => simp [Phase.next] at hk
      | true =>
        obtain rfl : 28 = left := by simpa [Phase.next] using hk
        exact ⟨Nat.le_refl _, .inl ⟨rfl, rfl, rfl⟩⟩
    | warming k =>
      cases k with
      | zero => simp [Phase.next] at hk
      | succ k =>
        obtain rfl : k = left := by simpa [Phase.next] using hk
        obtain ⟨hle, hm⟩ := h.warmed (k + 1) rfl
        exact ⟨by omega, .inr ⟨_, by omega, hm⟩⟩
    | tailing k => cases k <;> simp [Phase.next] at hk
    | idle => simp [Phase.next] at hk
  case tailing =>
    intro n hn
    obtain ⟨m, rfl, hm⟩ := (htail n).mp hn
    obtain ⟨hs, hφ⟩ := h.tailing m hm
    refine ⟨hs, ?_⟩
    rw [hφ]
    rcases Nat.lt_trichotomy m 13 with hlt | rfl | hgt
    · obtain ⟨k, hk⟩ : ∃ k, 13 - m = k + 1 := ⟨12 - m, by omega⟩
      rw [if_pos (by omega), if_pos (by omega), hk]
      simp only [Phase.next, Phase.tailing.injEq]
      omega
    · rfl
    · rw [if_neg (by omega), if_neg (by omega)]
      rfl
  case tailed =>
    intro left hk
    rw [htail]
    cases φ with
    | waiting => cases opening <;> simp [Phase.next] at hk
    | warming k => cases k <;> simp [Phase.next] at hk
    | tailing k =>
      cases k with
      | zero => simp [Phase.next] at hk
      | succ k =>
        obtain rfl : k = left := by simpa [Phase.next] using hk
        obtain ⟨hle, hm⟩ := h.tailed (k + 1) rfl
        exact ⟨by omega, _, by omega, hm⟩
    | idle => simp [Phase.next] at hk
  case warmup =>
    rw [Past.ever_cons]
    rintro (ha | ⟨-, ha⟩)
    · exact absurd ha harms
    rcases h.warmup ha with rfl | ⟨m, hm, hle⟩
    · cases opening with
      | true => exact .inr ⟨0, .here hop, Nat.le_refl _⟩
      | false => exact .inl rfl
    · cases φ with
      | waiting =>
        cases opening with
        | true => exact .inr ⟨0, .here hop, Nat.le_refl _⟩
        | false => exact .inl rfl
      | warming k =>
        refine .inr ⟨m + 1, .tick hund hcount hm, ?_⟩
        cases k <;> simp [Phase.next, Phase.warmupLeft] at hle ⊢ <;> omega
      | tailing k =>
        refine .inr ⟨m + 1, .tick hund hcount hm, ?_⟩
        cases k <;> simp [Phase.next, Phase.warmupLeft] at hle ⊢ <;> omega
      | idle =>
        refine .inr ⟨m + 1, .tick hund hcount hm, ?_⟩
        simp [Phase.next, Phase.warmupLeft] at hle ⊢
        omega
  case tail =>
    intro n hn
    rw [Past.since_tick hnat (by simp [NotInterrupted, Entry.ending, he]) hcount] at hn
    obtain ⟨m, rfl, hm⟩ := hn
    have := h.tail m hm
    match φ, opening with
    | .waiting, true | .waiting, false | .warming 0, _ | .warming (_ + 1), _ | .tailing 0, _
    | .tailing (_ + 1), _ | .idle, _ =>
      simp [Phase.next, Phase.warmupLeft, Phase.tailLeft] at this ⊢
      try omega

theorem Follows.next {e : Option Ending} {opening : Bool} (h : Follows φ session log)
    (hd : p.frame.discontinuity = false) (he : p.ended = e)
    (ho : (p.rendering && p.frame.referenceActive) = opening) :
    Follows (φ.next e opening).1 (session && e.isNone) (.processed p :: log) := by
  subst ho
  cases e with
  | none => simpa using h.plain hd he
  | some e => simpa using Follows.ending φ hd he (p.rendering && p.frame.referenceActive)

-- ---------------------------------------------------------------------------
-- What holds of a frame
-- ---------------------------------------------------------------------------

/-- `InterruptPlayback` has published its end, and no playback has been prepared since. -/
def Interrupted (log : List Entry) : Prop :=
  Ever (fun x _ => x = .interrupted) (· ≠ .prepared) log

/-- The gate has begun a frame in such a time. -/
def BegunInterrupted (log : List Entry) : Prop :=
  Ever (fun x log => x = .begun ∧ Interrupted log) (· ≠ .prepared) log

/-- The gate on the frame `p`, with `log` before it. -/
structure Gated (p : Processed) (log : List Entry) : Prop where
  voiced : p.frame.nearVoice = true → p.frame.vadNow = true
  /-- 30 frames from one with the reference on it, and since the last wait for one began -/
  warmup : Ever Arms NoEnd log → p.ended = none → p.frame.nearVoice = true →
    ∃ n, Since Entry.counted (fun x _ => x.opening = true) Undisturbed n log ∧ 29 ≤ n
  rendering : p.rendering = true → Ever (fun x _ => x = .rendering) (· ≠ .prepared) log
  ended : p.ended = some .natural → p.frame.nearVoice = false
  /-- 15 frames from the one that observes a natural end -/
  tail : ∀ n, Since Entry.counted Natural NotInterrupted n log → p.ended ≠ some .interrupted →
    p.frame.nearVoice = true → 14 ≤ n
  /-- the classifier is reset on the 30th frame of the one and the 15th of the other -/
  resets : p.vadReset = true ↔ p.ended = none ∧ p.frame.discontinuity = false ∧
    (Since Entry.counted Opens Undisturbed 28 log ∨ Since Entry.counted Natural Quiet 13 log)
  interrupted : BegunInterrupted log → p.frame.nearVoice = p.frame.vadNow ∧ p.vadReset = false ∧
    p.ended ≠ some .natural

theorem Follows.reset_iff (h : Follows φ session log) (opening : Bool) :
    (φ.next p.ended opening).2.2 = true ↔ p.ended = none ∧
      (Since Entry.counted Opens Undisturbed 28 log ∨ Since Entry.counted Natural Quiet 13 log) := by
  constructor
  · intro hr
    match he : p.ended, φ with
    | some .interrupted, _ | some .natural, _ | none, .waiting | none, .idle => simp [Phase.next, he] at hr
    | none, .warming (k + 1) | none, .tailing (k + 1) => simp [Phase.next, he] at hr
    | none, .warming 0 => exact ⟨rfl, .inl (h.warmed 0 rfl).2⟩
    | none, .tailing 0 => exact ⟨rfl, .inr (h.tailed 0 rfl).2⟩
  · rintro ⟨he, hw | ht⟩
    · rw [h.warming 28 hw, he]
      rfl
    · rw [(h.tailing 13 ht).2, he]
      rfl

theorem Follows.gated (h : Follows φ session log) (hd : p.frame.discontinuity = false)
    (hn : p.frame.nearVoice =
      (!(φ.next p.ended (p.rendering && p.frame.referenceActive)).2.1 && p.frame.vadNow))
    (hv : p.vadReset = (φ.next p.ended (p.rendering && p.frame.referenceActive)).2.2)
    (hr : p.rendering = true → Ever (fun x _ => x = .rendering) (· ≠ .prepared) log)
    (hi : BegunInterrupted log → p.ended = some .interrupted ∨ p.ended = none ∧ φ = .idle) :
    Gated p log := by
  have hidle : p.frame.nearVoice = true → p.ended ≠ some .interrupted →
      p.ended = none ∧ φ = .idle := by
    intro hnear he
    rw [hnear] at hn
    have hopen := (Bool.and_eq_true_iff.mp hn.symm).1
    rw [Bool.not_eq_true', Phase.next_open] at hopen
    exact hopen.resolve_left he
  refine ⟨fun hnear => ?_, fun harms he hnear => ?_, hr, fun he => ?_, fun n hs he hnear => ?_, ?_,
    fun hb => ?_⟩
  · rw [hnear] at hn
    exact (Bool.and_eq_true_iff.mp hn.symm).2
  · obtain ⟨-, rfl⟩ := hidle hnear (by simp [he])
    rcases h.warmup harms with hφ | ⟨n, hs, hle⟩
    · cases hφ
    · exact ⟨n, hs, by simpa [Phase.warmupLeft] using hle⟩
  · rw [hn, he]
    simp [Phase.next]
  · obtain ⟨-, rfl⟩ := hidle hnear he
    simpa [Phase.warmupLeft, Phase.tailLeft] using h.tail n hs
  · rw [hv, h.reset_iff]
    simp [hd]
  · rcases hi hb with he | ⟨he, rfl⟩
    · simp [hn, hv, he, Phase.next]
    · simp [hn, hv, he, Phase.next]

/-- A gap: nothing is said of a voice. -/
theorem gated_gap (hd : p.frame.discontinuity = true) (hn : p.frame.nearVoice = false)
    (hvad : p.frame.vadNow = false) (hv : p.vadReset = false) (hr : p.rendering = false)
    (he : p.ended = none) : Gated p log := by
  constructor <;> simp [*]

end BoomPI.Audio
