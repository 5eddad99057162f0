import Mathlib.Algebra.Order.Monoid.Defs
import Mathlib.Algebra.Order.Monoid.Unbundled.Basic
import Mathlib.Data.List.Chain

/-!
# Deadlines that are recomputed from what was sent

A rule computes the next deadline from the previous one and from the time of the
send that met it. Sends are listed newest first. A rule that keeps to a period
without catching up faster than a minimum spacing bounds every list of sends that
are on time: from below by the period, and between two sends by the spacing.
-/

namespace Cadence

universe u

variable {T : Type u}

/-- The deadline after some sends; there is none before the first. -/
def deadline (next : Option T → T → T) : List T → Option T
  | [] => none
  | sent :: earlier => some (next (deadline next earlier) sent)

section

variable [LE T] (next : Option T → T → T)

def OnTime : List T → Prop
  | [] => True
  | sent :: earlier => (∀ due ∈ deadline next earlier, due ≤ sent) ∧ OnTime earlier

theorem OnTime.suffix {next : Option T → T → T} {sends l : List T} (h : OnTime next sends)
    (hl : l <:+ sends) : OnTime next l := by
  induction sends with
  | nil =>
    rw [List.suffix_nil.mp hl]
    trivial
  | cons sent earlier ih =>
    rcases List.suffix_cons_iff.mp hl with rfl | hl
    · exact h
    · exact ih h.2 hl

end

structure Rule [AddCommMonoid T] [PartialOrder T] (period spacing : T)
    (next : Option T → T → T) : Prop where
  first : ∀ sent, next none sent = sent + period
  spaced : ∀ {due sent}, due ≤ sent → sent + spacing ≤ next (some due) sent
  within : ∀ {due sent}, due ≤ sent → next (some due) sent ≤ sent + period
  steady : ∀ {due sent}, due ≤ sent → due + period ≤ next (some due) sent
  rebase : ∀ {due sent}, due + period ≤ sent → next (some due) sent = sent + period

variable [AddCommMonoid T] [PartialOrder T] [IsOrderedAddMonoid T] {period spacing : T}
  {next : Option T → T → T} {sends earlier : List T} {sent d : T}

namespace Rule

theorem bounds (hr : Rule period spacing next) (hle : spacing ≤ period)
    (h : OnTime next (sent :: earlier)) (hd : deadline next (sent :: earlier) = some d) :
    sent + spacing ≤ d ∧ d ≤ sent + period := by
  obtain ⟨hdue, -⟩ := h
  simp only [deadline, Option.some.injEq] at hd
  subst hd
  cases hp : deadline next earlier with
  | none =>
    rw [hr.first]
    exact ⟨add_le_add_right hle _, le_rfl⟩
  | some due =>
    have hdue := hdue due hp
    exact ⟨hr.spaced hdue, hr.within hdue⟩

theorem isChain (hr : Rule period spacing next) (hle : spacing ≤ period) (h : OnTime next sends) :
    sends.IsChain fun later earlier => earlier + spacing ≤ later := by
  induction sends with
  | nil => exact .nil
  | cons sent earlier ih =>
    have ih := ih h.2
    cases earlier with
    | nil => exact .singleton _
    | cons before earlier =>
      exact .cons_cons ((hr.bounds hle h.2 rfl).1.trans (h.1 _ rfl)) ih

/-- The deadline after `n` sends is `n` periods after the first of them. -/
theorem deadline_first (hr : Rule period spacing next) (h : OnTime next sends) {first : T}
    (hf : first ∈ sends.getLast?) (hd : d ∈ deadline next sends) :
    first + sends.length • period ≤ d := by
  induction sends generalizing d with
  | nil => cases hf
  | cons sent earlier ih =>
    obtain ⟨hdue, h⟩ := h
    obtain rfl : next (deadline next earlier) sent = d := Option.some.inj hd
    cases earlier with
    | nil =>
      obtain rfl : sent = first := Option.some.inj hf
      rw [List.length_singleton, one_nsmul, deadline, hr.first]
    | cons before earlier =>
      have ih := ih h (by simpa using hf) rfl
      calc first + (sent :: before :: earlier).length • period
          = first + (before :: earlier).length • period + period := by
            rw [List.length_cons, succ_nsmul, add_assoc]
        _ ≤ next (deadline next earlier) before + period := add_le_add_left ih _
        _ ≤ _ := hr.steady (hdue _ rfl)

/-- A send is as many periods after the first one as there are sends between. -/
theorem first_le (hr : Rule period spacing next) (h : OnTime next (sent :: earlier)) {first : T}
    (hf : first ∈ earlier.getLast?) : first + earlier.length • period ≤ sent := by
  obtain ⟨hdue, h⟩ := h
  cases earlier with
  | nil => cases hf
  | cons before earlier => exact (hr.deadline_first h hf rfl).trans (hdue _ rfl)

end Rule

end Cadence
