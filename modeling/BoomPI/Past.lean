/-!
# So many entries ago

A log is a list, newest entry first. `Since P q n` says that something held `n`
counted entries ago and that every entry since then is harmless.
-/

namespace Past

variable {α : Type} {count : α → Bool} {P : α → List α → Prop} {q : α → Prop} {n : Nat} {x : α}
  {l : List α}

/-- `P` held of an entry and of those before it, and `q` of every entry since, of which
`n` are counted. -/
inductive Since (count : α → Bool) (P : α → List α → Prop) (q : α → Prop) : Nat → List α → Prop
  | here {x : α} {l : List α} : P x l → Since count P q 0 (x :: l)
  | tick {x : α} {l : List α} {n : Nat} : q x → count x = true → Since count P q n l →
      Since count P q (n + 1) (x :: l)
  | skip {x : α} {l : List α} {n : Nat} : q x → count x = false → Since count P q n l →
      Since count P q n (x :: l)

/-- `Since`, however many entries ago. -/
def Ever (P : α → List α → Prop) (q : α → Prop) (l : List α) : Prop :=
  ∃ n, Since (fun _ => true) P q n l

theorem not_since_nil : ¬ Since count P q n [] := nofun

theorem since_cons : Since count P q n (x :: l) ↔ (n = 0 ∧ P x l) ∨
    q x ∧ if count x then ∃ m, n = m + 1 ∧ Since count P q m l else Since count P q n l := by
  constructor
  · intro h
    cases h with
    | here h => exact .inl ⟨rfl, h⟩
    | tick hq hc h => exact .inr ⟨hq, by rw [if_pos hc]; exact ⟨_, rfl, h⟩⟩
    | skip hq hc h => exact .inr ⟨hq, by simpa [hc] using h⟩
  · rintro (⟨rfl, h⟩ | ⟨hq, h⟩)
    · exact .here h
    · cases hc : count x with
      | true =>
        rw [if_pos hc] at h
        obtain ⟨m, rfl, h⟩ := h
        exact .tick hq hc h
      | false => exact .skip hq hc (by simpa [hc] using h)

/-- An entry that is neither what is looked for, nor harmful, nor counted. -/
theorem since_skip (hP : ¬ P x l) (hq : q x) (hc : count x = false) :
    Since count P q n (x :: l) ↔ Since count P q n l := by
  simp [since_cons, hP, hq, hc]

theorem since_tick (hP : ¬ P x l) (hq : q x) (hc : count x = true) :
    Since count P q n (x :: l) ↔ ∃ m, n = m + 1 ∧ Since count P q m l := by
  simp [since_cons, hP, hq, hc]

theorem since_cut (hq : ¬ q x) : Since count P q n (x :: l) ↔ n = 0 ∧ P x l := by
  simp [since_cons, hq]

theorem Ever.since (h : Ever P q l) (count : α → Bool) : ∃ n, Since count P q n l := by
  obtain ⟨n, h⟩ := h
  induction h with
  | here h => exact ⟨0, .here h⟩
  | @tick x l n hq _ _ ih =>
    obtain ⟨m, hm⟩ := ih
    cases hc : count x with
    | true => exact ⟨m + 1, .tick hq hc hm⟩
    | false => exact ⟨m, .skip hq hc hm⟩
  | skip _ hc _ _ => cases hc

theorem not_ever_nil : ¬ Ever P q [] := fun ⟨_, h⟩ => not_since_nil h

theorem ever_cons : Ever P q (x :: l) ↔ P x l ∨ q x ∧ Ever P q l := by
  constructor
  · rintro ⟨n, h⟩
    cases h with
    | here h => exact .inl h
    | tick hq _ h => exact .inr ⟨hq, _, h⟩
    | skip _ hc _ => cases hc
  · rintro (h | ⟨hq, n, h⟩)
    · exact ⟨0, .here h⟩
    · exact ⟨n + 1, .tick hq rfl h⟩

end Past
