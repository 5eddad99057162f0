import BoomPI.Server.Pipeline

/-!
# The history window keeps whole pairs

The history is a list of pairs, a user message and the answer of the same turn.
`boundedHistory` drops pairs from the front, never half of one.
-/

namespace BoomPI.Pipeline

variable {h : List ChatMessage} {e : Nat} {t v : String} {cfg : Config}

def pair (e : Nat) (t v : String) : List ChatMessage :=
  [{ role := .user, content := t, epoch := e }, { role := .assistant, content := v, epoch := e }]

inductive Paired : List ChatMessage → Prop
  | nil : Paired []
  | cons (e : Nat) (t v : String) {rest} : Paired rest → Paired (pair e t v ++ rest)

theorem Paired.append {h' : List ChatMessage} (hp : Paired h) (hp' : Paired h') : Paired (h ++ h') := by
  induction hp with
  | nil => exact hp'
  | cons e t v _ ih =>
    rw [List.append_assoc]
    exact .cons e t v ih

theorem Paired.concat (hp : Paired h) : Paired (h ++ pair e t v) :=
  hp.append (.cons e t v .nil)

theorem Paired.last (hp : Paired h) (hne : h ≠ []) : ∃ h' e t v, Paired h' ∧ h = h' ++ pair e t v := by
  induction hp with
  | nil => exact absurd rfl hne
  | cons e t v hrest ih =>
    rename_i rest
    cases rest with
    | nil => exact ⟨[], e, t, v, .nil, by simp⟩
    | cons m ms =>
      obtain ⟨h', e', t', v', hp', heq⟩ := ih (by simp)
      exact ⟨pair e t v ++ h', e', t', v', .cons e t v hp', by rw [heq, List.append_assoc]⟩

theorem Paired.drop (hp : Paired h) (k : Nat) : Paired (h.drop (2 * k)) := by
  induction hp generalizing k with
  | nil => simpa using Paired.nil
  | cons e t v hrest ih =>
    cases k with
    | zero => exact .cons e t v hrest
    | succ k => simpa [pair, Nat.mul_succ] using ih k

theorem Paired.length_even (hp : Paired h) : h.length % 2 = 0 := by
  induction hp with
  | nil => rfl
  | cons e t v _ ih => simp [pair]; omega

theorem dropOrphans_user {rest : List ChatMessage} {m : ChatMessage} (hm : m.role = .user) :
    dropOrphans (m :: rest) = m :: rest := by
  cases rest with
  | nil => rfl
  | cons n rest => simp [dropOrphans, hm]

theorem dropOverBudget_pairs (hp : Paired h) (budget : Nat) (tail : List ChatMessage) :
    (∃ h', Paired h' ∧ dropOverBudget budget (h ++ tail) = h' ++ tail) ∨
      dropOverBudget budget (h ++ tail) = dropOverBudget budget tail := by
  induction hp with
  | nil => exact .inr rfl
  | cons e t v hrest ih =>
    rename_i rest
    by_cases hb : budget < estimateHistoryTokens (pair e t v ++ rest ++ tail)
    · have : dropOverBudget budget (pair e t v ++ rest ++ tail) = dropOverBudget budget (rest ++ tail) := by
        simp only [pair, List.cons_append, List.nil_append, dropOverBudget]
        rw [if_pos (by simpa [pair] using hb)]
        simp
      rw [this]
      exact ih
    · refine .inl ⟨pair e t v ++ rest, .cons e t v hrest, ?_⟩
      simp only [pair, List.cons_append, List.nil_append, dropOverBudget]
      rw [if_neg (by simpa [pair] using hb)]

theorem dropOrphans_pairs (hp : Paired h) {tail : List ChatMessage}
    (ht : dropOrphans tail = tail) : dropOrphans (h ++ tail) = h ++ tail := by
  cases hp with
  | nil => exact ht
  | cons e t v _ => exact dropOrphans_user rfl

theorem window_even (hp : Paired h) (cfg : Config) {tail : List ChatMessage} {m : ChatMessage}
    (hm : tail.getLast? = some m) (hlen : tail.length = if m.role = .user then 1 else 2) :
    ∃ k, (h ++ tail).length - maxMessages cfg.maxTurns (h ++ tail) = 2 * k ∧ 2 * k ≤ h.length := by
  have hlast : (h ++ tail).getLast? = some m := by
    rw [List.getLast?_append, hm]
    rfl
  have heven := hp.length_even
  have hturns := cfg.one_le_maxTurns
  simp only [maxMessages, hlast, Option.map_some, Option.some.injEq, List.length_append, hlen]
  by_cases hr : m.role = .user
  · simp only [hr, if_true]
    refine ⟨(h.length + 1 - if cfg.maxTurns * 2 - 1 < 2 then 1 else cfg.maxTurns * 2 - 1) / 2, ?_⟩
    split <;> omega
  · simp only [hr, if_false]
    refine ⟨(h.length + 2 - if cfg.maxTurns * 2 < 2 then 1 else cfg.maxTurns * 2) / 2, ?_⟩
    split <;> omega

theorem boundedHistory_eq (hp : Paired h) (cfg : Config) {tail : List ChatMessage} {m : ChatMessage}
    (hm : tail.getLast? = some m) (hlen : tail.length = if m.role = .user then 1 else 2)
    (ht : dropOrphans tail = tail) : ∃ h', Paired h' ∧ boundedHistory (h ++ tail) cfg =
      dropOverBudget (contextBudget cfg.maxContextTokens cfg.instructions) (h' ++ tail) := by
  obtain ⟨k, hk, hle⟩ := window_even hp cfg hm hlen
  have hne : h ++ tail ≠ [] := by
    intro h0
    rw [List.append_eq_nil_iff.mp h0 |>.2] at hm
    cases hm
  refine ⟨h.drop (2 * k), hp.drop k, ?_⟩
  simp only [boundedHistory, if_neg hne, hk, List.drop_append_of_le_length hle,
    dropOrphans_pairs (hp.drop k) ht]

/-- Before the answer: whole pairs and the new user message. -/
theorem boundedHistory_user (hp : Paired h) (cfg : Config) (e : Nat) (t : String) :
    ∃ h', Paired h' ∧ boundedHistory (h ++ [{ role := .user, content := t, epoch := e }]) cfg =
      h' ++ [{ role := .user, content := t, epoch := e }] := by
  obtain ⟨h', hp', heq⟩ := @boundedHistory_eq _ hp cfg
    [{ role := .user, content := t, epoch := e }] _ rfl rfl rfl
  rw [heq]
  rcases dropOverBudget_pairs hp' _ _ with ⟨h'', hp'', h⟩ | h
  · exact ⟨h'', hp'', h⟩
  · exact ⟨[], .nil, h⟩

/-- After the answer: whole pairs, the new one last, unless it alone exceeds the budget. -/
theorem boundedHistory_pair (hp : Paired h) (cfg : Config) (e : Nat) (t v : String) :
    boundedHistory (h ++ pair e t v) cfg = [] ∨
      ∃ h', Paired h' ∧ boundedHistory (h ++ pair e t v) cfg = h' ++ pair e t v := by
  obtain ⟨h', hp', heq⟩ := @boundedHistory_eq _ hp cfg (pair e t v) _ rfl rfl rfl
  rw [heq]
  rcases dropOverBudget_pairs hp' _ (pair e t v) with ⟨h'', hp'', h⟩ | h
  · exact .inr ⟨h'', hp'', h⟩
  · by_cases hb : contextBudget cfg.maxContextTokens cfg.instructions <
        estimateHistoryTokens (pair e t v)
    · refine .inl (h.trans ?_)
      simp only [pair, dropOverBudget]
      rw [if_pos (by simpa [pair] using hb)]
      simp
    · refine .inr ⟨[], .nil, h.trans ?_⟩
      simp only [pair, dropOverBudget]
      rw [if_neg (by simpa [pair] using hb)]
      rfl

theorem boundedHistory_paired (hp : Paired h) (cfg : Config) (e : Nat) (t v : String) :
    Paired (boundedHistory (h ++ pair e t v) cfg) := by
  rcases boundedHistory_pair hp cfg e t v with h0 | ⟨h', hp', heq⟩
  · rw [h0]
    exact .nil
  · rw [heq]
    exact hp'.concat

theorem discard_pair {s : Session} (hf : s.lastResponseDiscardable = true)
    (hs : s.history = h ++ pair e t v) : s.discardCompletedResponseIfNeeded =
      { s with history := h, lastResponseDiscardable := false } := by
  have h1 : s.history.getLast? = some { role := .assistant, content := v, epoch := e } := by
    rw [hs, pair, List.getLast?_append]
    rfl
  have h2 : s.history.dropLast = h ++ [{ role := .user, content := t, epoch := e }] := by
    rw [hs, pair, List.dropLast_append_of_ne_nil (by simp)]
    rfl
  simp [Session.discardCompletedResponseIfNeeded, hf, h1, h2]

theorem discard_unset {s : Session} (hf : s.lastResponseDiscardable = false) :
    s.discardCompletedResponseIfNeeded = s := by
  simp [Session.discardCompletedResponseIfNeeded, hf]

theorem discard_empty {s : Session} (hs : s.history = []) :
    s.discardCompletedResponseIfNeeded = { s with lastResponseDiscardable := false } := by
  cases hf : s.lastResponseDiscardable with
  | false => rw [discard_unset hf]; cases s; simp_all
  | true => cases s; simp_all [Session.discardCompletedResponseIfNeeded]

-- ---------------------------------------------------------------------------
-- What is dropped, and how much
-- ---------------------------------------------------------------------------

theorem dropOrphans_suffix (h : List ChatMessage) : dropOrphans h <:+ h := by
  induction h with
  | nil => exact List.suffix_rfl
  | cons m rest ih =>
    cases rest with
    | nil => exact List.suffix_rfl
    | cons n rest =>
      simp only [dropOrphans]
      split
      · exact ih.trans (List.suffix_cons m _)
      · exact List.suffix_rfl

theorem dropOverBudget_suffix (budget : Nat) (h : List ChatMessage) :
    dropOverBudget budget h <:+ h := by
  fun_induction dropOverBudget budget h with
  | case1 m n rest _ _ ih => exact ih.trans (List.suffix_append [m, n] rest)
  | case2 m n rest _ _ ih => exact ih.trans (List.suffix_cons m _)
  | case3 | case4 => exact List.suffix_rfl

theorem boundedHistory_suffix (h : List ChatMessage) (cfg : Config) : boundedHistory h cfg <:+ h := by
  unfold boundedHistory
  split
  · exact List.nil_suffix
  · exact (dropOverBudget_suffix _ _).trans ((dropOrphans_suffix _).trans (List.drop_suffix _ _))

theorem maxMessages_le (cfg : Config) (h : List ChatMessage) :
    maxMessages cfg.maxTurns h ≤ 2 * cfg.maxTurns := by
  have := cfg.one_le_maxTurns
  simp only [maxMessages]
  split <;> split <;> omega

theorem boundedHistory_length (h : List ChatMessage) (cfg : Config) :
    (boundedHistory h cfg).length ≤ 2 * cfg.maxTurns := by
  unfold boundedHistory
  split
  · exact Nat.zero_le _
  · have h1 := (dropOverBudget_suffix (contextBudget cfg.maxContextTokens cfg.instructions)
      (dropOrphans (h.drop (h.length - maxMessages cfg.maxTurns h)))).length_le
    have h2 := (dropOrphans_suffix (h.drop (h.length - maxMessages cfg.maxTurns h))).length_le
    have h3 := maxMessages_le cfg h
    rw [List.length_drop] at h2
    exact Nat.le_trans h1 (by omega)

end BoomPI.Pipeline
