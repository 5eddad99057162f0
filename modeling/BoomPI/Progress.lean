import BoomPI.Lts

/-!
# Runs that must get somewhere

A measure bounds how many steps of one kind a run can take before it reaches its
goal: those steps lower it, and no other step raises it.
-/

namespace Lts.Machine

universe u v

variable {S : Type u} {L : Type v} {M : Machine S L} {s t : S} {ls : List L}

/-- While `I` holds, a step gets to `Goal` or keeps `I`; `steps` counts what is left. -/
structure Progress (M : Machine S L) (I Goal : S → Prop) (counts : L → Bool) (steps : S → Nat) :
    Prop where
  pos : ∀ s, I s → 0 < steps s
  step : ∀ s l t, I s → M.step s l = some t →
    Goal t ∨ (I t ∧ steps t ≤ steps s ∧ (counts l = true → steps t < steps s))

theorem Progress.reaches {I Goal : S → Prop} {counts : L → Bool} {steps : S → Nat}
    (h : Progress M I Goal counts steps) (hI : I s) (hr : M.run s ls = some t)
    (hn : steps s ≤ ls.countP counts) :
    ∃ ks rest u, ls = ks ++ rest ∧ M.run s ks = some u ∧ Goal u := by
  induction ls generalizing s with
  | nil => exact absurd hn (Nat.not_le.mpr (h.pos s hI))
  | cons l ls ih =>
    rw [run_cons, Option.bind_eq_some_iff] at hr
    obtain ⟨u, hu, hr⟩ := hr
    rcases h.step s l u hI hu with hgoal | ⟨hIu, hle, hlt⟩
    · exact ⟨[l], ls, u, rfl, by simp [run_cons, hu], hgoal⟩
    · have hleft : steps u ≤ ls.countP counts := by
        cases hl : counts l with
        | true =>
          have := hlt hl
          simp only [List.countP_cons, hl, if_true] at hn
          omega
        | false =>
          simp only [List.countP_cons, hl, Bool.false_eq_true, if_false] at hn
          omega
      obtain ⟨ks, rest, v, rfl, hks, hv⟩ := ih hIu hr hleft
      exact ⟨l :: ks, rest, v, rfl, by rw [run_cons, hu]; exact hks, hv⟩

end Lts.Machine
