import BoomPI.Server.Pipeline.History

/-!
# What the history window keeps

`boundedHistory` cuts by count, drops an orphan answer and then drops exchanges
until the rest fits the token budget. On a history of whole exchanges the first
two never touch the newest exchange; the last one does, where a question and its
answer alone exceed the budget.
-/

namespace BoomPI.Pipeline

variable {h rest : List ChatMessage} {u a m : ChatMessage} {cfg : Config} {budget k : Nat}

/-- Complete user/assistant pairs, and at most one user message after them. -/
inductive Exchanges : List ChatMessage → Prop
  | nil : Exchanges []
  | asked (u : ChatMessage) : u.role = .user → Exchanges [u]
  | answered (u a : ChatMessage) {rest : List ChatMessage} : u.role = .user →
      a.role = .assistant → Exchanges rest → Exchanges (u :: a :: rest)

/-- The newest message, with the question where it is an answer. -/
def newestExchange : List ChatMessage → List ChatMessage
  | _ :: _ :: m :: rest => newestExchange (m :: rest)
  | h => h

/-- What the window `r` of the history `h` is meant to be. -/
structure Retained (cfg : Config) (h r : List ChatMessage) : Prop where
  newest_part : r <:+ h
  keeps_newest : r.getLast? = h.getLast?
  count : r.length ≤ 2 * cfg.maxTurns
  count_asked : r.getLast?.map (·.role) = some .user → r.length ≤ 2 * cfg.maxTurns - 1
  starts : ∀ m ∈ r.head?, m.role = .user ∨ r.length = 1
  fits : estimateHistoryTokens r ≤ contextBudget cfg.maxContextTokens cfg.instructions ∨
    ∀ r', r' <:+ r → newestExchange h <:+ r' → r' = r
  settled : boundedHistory r cfg = r

/-- Where the newest exchange has its answer, it alone is within the budget. -/
def NewestFits (cfg : Config) (h : List ChatMessage) : Prop :=
  h.getLast?.map (·.role) = some .assistant →
    estimateHistoryTokens (newestExchange h) ≤ contextBudget cfg.maxContextTokens cfg.instructions

-- ---------------------------------------------------------------------------
-- Exchanges
-- ---------------------------------------------------------------------------

theorem newestExchange_suffix (h : List ChatMessage) : newestExchange h <:+ h := by
  fun_induction newestExchange h with
  | case1 u a m rest ih => exact ih.trans (List.suffix_append [u, a] (m :: rest))
  | case2 => exact List.suffix_rfl

theorem newestExchange_answered (hne : rest ≠ []) :
    newestExchange (u :: a :: rest) = newestExchange rest := by
  cases rest with
  | nil => exact absurd rfl hne
  | cons m rest => rfl

theorem getLast?_answered (hne : rest ≠ []) : (u :: a :: rest).getLast? = rest.getLast? := by
  cases rest with
  | nil => exact absurd rfl hne
  | cons m rest => simp

theorem Exchanges.newest (he : Exchanges h) (hne : h ≠ []) :
    (∃ u, u.role = .user ∧ newestExchange h = [u] ∧ h.getLast? = some u) ∨
      ∃ u a, u.role = .user ∧ a.role = .assistant ∧ newestExchange h = [u, a] ∧
        h.getLast? = some a := by
  induction he with
  | nil => exact absurd rfl hne
  | asked u hu => exact .inl ⟨u, hu, rfl, rfl⟩
  | @answered u a rest hu ha hrest ih =>
    by_cases hr : rest = []
    · subst hr
      exact .inr ⟨u, a, hu, ha, rfl, rfl⟩
    · simpa only [newestExchange_answered hr, getLast?_answered hr] using ih hr

theorem Exchanges.head (he : Exchanges h) : ∀ m ∈ h.head?, m.role = .user := by
  cases he with
  | nil => simp
  | asked u hu => simpa using hu
  | answered u a hu _ _ => simpa using hu

/-- With an answer in it, the newest exchange has an even number of messages before it. -/
theorem Exchanges.parity (he : Exchanges h) (hne : h ≠ []) :
    if h.getLast?.map (·.role) = some .user then h.length % 2 = 1 else h.length % 2 = 0 := by
  induction he with
  | nil => exact absurd rfl hne
  | asked u hu => simp [hu]
  | @answered u a rest hu ha hrest ih =>
    by_cases hr : rest = []
    · simp [hr, ha]
    · have := ih hr
      rw [getLast?_answered hr]
      simp only [List.length_cons]
      split <;> simp_all <;> omega

theorem Exchanges.drop (he : Exchanges h) (hk : 2 * k < h.length) :
    Exchanges (h.drop (2 * k)) ∧ newestExchange (h.drop (2 * k)) = newestExchange h := by
  induction he generalizing k with
  | nil => simp at hk
  | asked u hu =>
    obtain rfl : k = 0 := by simp at hk; omega
    exact ⟨.asked u hu, rfl⟩
  | @answered u a rest hu ha hrest ih =>
    cases k with
    | zero => exact ⟨.answered u a hu ha hrest, rfl⟩
    | succ k =>
      have hlt : 2 * k < rest.length := by simp only [List.length_cons] at hk; omega
      have hr : rest ≠ [] := List.ne_nil_of_length_pos (by omega)
      have := ih hlt
      simpa [Nat.mul_succ, newestExchange_answered hr] using this

theorem Exchanges.dropOrphans (he : Exchanges h) : dropOrphans h = h := by
  cases he with
  | nil => rfl
  | asked u hu => exact dropOrphans_user hu
  | answered u a hu _ _ => exact dropOrphans_user hu

-- ---------------------------------------------------------------------------
-- The token loop
-- ---------------------------------------------------------------------------

theorem Exchanges.dropOverBudget_answered (hu : u.role = .user) (ha : a.role = .assistant) :
    dropOverBudget budget (u :: a :: rest) =
      if budget < estimateHistoryTokens (u :: a :: rest) then dropOverBudget budget rest
      else u :: a :: rest := by
  simp [dropOverBudget, hu, ha]

theorem estimateHistoryTokens_suffix {r : List ChatMessage} (hs : r <:+ h) :
    estimateHistoryTokens r ≤ estimateHistoryTokens h := by
  obtain ⟨older, rfl⟩ := hs
  simp [estimateHistoryTokens]

/-- An answer too long for the budget is dropped with its question, and all before it. -/
theorem Exchanges.dropOverBudget_nil (he : Exchanges h)
    (ha : h.getLast?.map (·.role) = some .assistant)
    (hb : budget < estimateHistoryTokens (newestExchange h)) : dropOverBudget budget h = [] := by
  induction he with
  | nil => rfl
  | asked u hu => simp [hu] at ha
  | @answered u a rest hu ha' hrest ih =>
    have hover : budget < estimateHistoryTokens (u :: a :: rest) :=
      Nat.lt_of_lt_of_le hb (estimateHistoryTokens_suffix (newestExchange_suffix _))
    rw [dropOverBudget_answered hu ha', if_pos hover]
    by_cases hr : rest = []
    · rw [hr]
      rfl
    · rw [getLast?_answered hr] at ha
      rw [newestExchange_answered hr] at hb
      exact ih ha hb

/-- Otherwise the loop ends with whole exchanges, the newest among them, and it ends
for a reason. -/
theorem Exchanges.dropOverBudget (he : Exchanges h)
    (hfit : h.getLast?.map (·.role) = some .assistant →
      estimateHistoryTokens (newestExchange h) ≤ budget) :
    Exchanges (dropOverBudget budget h) ∧
      newestExchange (Pipeline.dropOverBudget budget h) = newestExchange h ∧
      (estimateHistoryTokens (Pipeline.dropOverBudget budget h) ≤ budget ∨
        Pipeline.dropOverBudget budget h = newestExchange h) := by
  induction he with
  | nil => exact ⟨.nil, rfl, .inr rfl⟩
  | asked u hu => exact ⟨.asked u hu, rfl, .inr rfl⟩
  | @answered u a rest hu ha hrest ih =>
    rw [dropOverBudget_answered hu ha]
    split
    case isFalse hle => exact ⟨.answered u a hu ha hrest, rfl, .inl (Nat.le_of_not_lt hle)⟩
    case isTrue hover =>
      have hr : rest ≠ [] := by
        rintro rfl
        exact Nat.not_lt.mpr (hfit (by simp [ha])) hover
      rw [getLast?_answered hr, newestExchange_answered hr] at hfit
      simpa only [newestExchange_answered hr] using ih hfit

theorem dropOverBudget_within (hle : estimateHistoryTokens h ≤ budget) :
    dropOverBudget budget h = h := by
  fun_cases dropOverBudget budget h with
  | case1 _ _ _ hlt | case2 _ _ _ hlt => exact absurd hlt (Nat.not_lt.mpr hle)
  | case3 | case4 => rfl

-- ---------------------------------------------------------------------------
-- The window
-- ---------------------------------------------------------------------------

theorem Exchanges.cut (he : Exchanges h) (hne : h ≠ []) (cfg : Config) :
    ∃ k, h.length - maxMessages cfg.maxTurns h = 2 * k ∧ 2 * k < h.length := by
  have hp := he.parity hne
  have hpos := List.length_pos_iff.mpr hne
  have hturns := cfg.one_le_maxTurns
  refine ⟨(h.length - maxMessages cfg.maxTurns h) / 2, ?_⟩
  simp only [maxMessages]
  split at hp <;> rename_i hrole <;> simp only [hrole, if_true, if_false] <;> split <;> omega

theorem Exchanges.boundedHistory (he : Exchanges h) (hne : h ≠ []) (cfg : Config) :
    ∃ k, boundedHistory h cfg = Pipeline.dropOverBudget
        (contextBudget cfg.maxContextTokens cfg.instructions) (h.drop (2 * k)) ∧
      2 * k < h.length ∧ h.length - 2 * k ≤ maxMessages cfg.maxTurns h := by
  obtain ⟨k, hk, hlt⟩ := he.cut hne cfg
  refine ⟨k, ?_, hlt, by omega⟩
  simp only [Pipeline.boundedHistory, if_neg hne, hk, (he.drop hlt).1.dropOrphans]

theorem maxMessages_asked (hm : h.getLast?.map (·.role) = some .user) (hturns : 1 ≤ cfg.maxTurns) :
    maxMessages cfg.maxTurns h = 2 * cfg.maxTurns - 1 := by
  simp only [maxMessages, hm, if_true]
  split <;> omega

theorem maxMessages_last {r : List ChatMessage} (hr : r.getLast? = h.getLast?) :
    maxMessages cfg.maxTurns r = maxMessages cfg.maxTurns h := by
  simp only [maxMessages, hr]

/-- A history of whole exchanges is its own window where nothing has to go. -/
theorem Exchanges.boundedHistory_self (he : Exchanges h)
    (hlen : h.length ≤ maxMessages cfg.maxTurns h)
    (hb : estimateHistoryTokens h ≤ contextBudget cfg.maxContextTokens cfg.instructions ∨
      h.length ≤ 1) : Pipeline.boundedHistory h cfg = h := by
  by_cases hne : h = []
  · simp [Pipeline.boundedHistory, hne]
  · have hcut : h.length - maxMessages cfg.maxTurns h = 0 := Nat.sub_eq_zero_of_le hlen
    simp only [Pipeline.boundedHistory, if_neg hne, hcut, List.drop_zero, he.dropOrphans]
    cases hb with
    | inl hle => exact dropOverBudget_within hle
    | inr hone =>
      cases h with
      | nil => rfl
      | cons m rest =>
        cases rest with
        | nil => rfl
        | cons m' rest => simp at hone

theorem Exchanges.last_eq {r : List ChatMessage} (he : Exchanges h) (hne : h ≠ [])
    (hr : newestExchange r = newestExchange h) : r.getLast? = h.getLast? := by
  have hlast : ∀ l : List ChatMessage, newestExchange l ≠ [] →
      (newestExchange l).getLast? = l.getLast? := by
    intro l hl
    obtain ⟨older, holder⟩ := newestExchange_suffix l
    conv_rhs => rw [← holder, List.getLast?_append_of_ne_nil _ hl]
  have hnew : newestExchange h ≠ [] := by
    rcases he.newest hne with ⟨u, -, hu, -⟩ | ⟨u, a, -, -, hua, -⟩ <;> simp [*]
  rw [← hlast r (hr ▸ hnew), hr, hlast h hnew]

theorem Exchanges.retained (he : Exchanges h) (hfit : NewestFits cfg h) :
    Retained cfg h (Pipeline.boundedHistory h cfg) := by
  by_cases hne : h = []
  · subst hne
    exact ⟨List.suffix_rfl, rfl, Nat.zero_le _, nofun, by simp [Pipeline.boundedHistory],
      .inr fun r' hr' _ => List.suffix_nil.mp hr', rfl⟩
  obtain ⟨k, heq, hlt, hmax⟩ := he.boundedHistory hne cfg
  obtain ⟨hdrop, hnew⟩ := he.drop hlt
  have hlastd : (h.drop (2 * k)).getLast? = h.getLast? := he.last_eq hne hnew
  have hfit' : (h.drop (2 * k)).getLast?.map (·.role) = some .assistant →
      estimateHistoryTokens (newestExchange (h.drop (2 * k))) ≤
        contextBudget cfg.maxContextTokens cfg.instructions := by
    rwa [hlastd, hnew]
  obtain ⟨hkept, hnew', hend⟩ := hdrop.dropOverBudget hfit'
  rw [← heq] at hkept hnew' hend
  rw [hnew] at hnew' hend
  have hlast := he.last_eq hne hnew'
  have hlen : (Pipeline.boundedHistory h cfg).length ≤ maxMessages cfg.maxTurns h := by
    have := (dropOverBudget_suffix (contextBudget cfg.maxContextTokens cfg.instructions)
      (h.drop (2 * k))).length_le
    rw [← heq, List.length_drop] at this
    exact Nat.le_trans this hmax
  refine ⟨boundedHistory_suffix h cfg, hlast, boundedHistory_length h cfg, fun hm => ?_,
    fun m hm => .inl (hkept.head m hm), hend.imp_right fun hr r' hs hn => ?_, ?_⟩
  · rw [hlast] at hm
    exact Nat.le_trans hlen (Nat.le_of_eq (maxMessages_asked hm cfg.one_le_maxTurns))
  · rw [hr] at hs ⊢
    exact hs.eq_of_length_le hn.length_le
  · refine hkept.boundedHistory_self (by rwa [maxMessages_last hlast]) ?_
    rcases hend with hle | hr
    · exact .inl hle
    · rw [hr]
      rcases he.newest hne with ⟨u, -, hu, -⟩ | ⟨u, a, -, ha, hua, hl⟩
      · exact .inr (by simp [hu])
      · exact .inl (hfit (by simp [hl, ha]))

/-- The window is what it is meant to be exactly where the newest exchange fits the
budget or waits for its answer. -/
theorem boundedHistory_retained (cfg : Config) (he : Exchanges h) :
    Retained cfg h (boundedHistory h cfg) ↔ NewestFits cfg h := by
  refine ⟨fun hr ha => Nat.le_of_not_lt fun hover => ?_, he.retained⟩
  have hne : h ≠ [] := by
    rintro rfl
    simp at ha
  obtain ⟨k, heq, hlt, -⟩ := he.boundedHistory hne cfg
  obtain ⟨hdrop, hnew⟩ := he.drop hlt
  have hnil : boundedHistory h cfg = [] := by
    rw [heq]
    refine hdrop.dropOverBudget_nil ?_ (by rwa [hnew])
    rw [he.last_eq hne hnew]
    exact ha
  have hlast := hr.keeps_newest
  rw [hnil] at hlast
  rw [← hlast] at ha
  simp at ha

def question (t : String) : ChatMessage := { role := .user, content := t }

def answer (t : String) : ChatMessage := { role := .assistant, content := t }

def twoTurns : Config :=
  { plainConfig with maxTurns := 2, maxContextTokens := 4096, one_le_maxTurns := by decide }

def threeQuestions : List ChatMessage :=
  [question "u1", answer "a1", question "u2", answer "a2", question "u3"]

theorem boundedHistory_retained_twoTurns :
    Retained twoTurns threeQuestions [question "u2", answer "a2", question "u3"] := by
  have he : Exchanges threeQuestions :=
    .answered _ _ rfl rfl (.answered _ _ rfl rfl (.asked _ rfl))
  have hr := (boundedHistory_retained twoTurns he).mpr (by simp [NewestFits, threeQuestions, question])
  have hw : boundedHistory threeQuestions twoTurns =
      [question "u2", answer "a2", question "u3"] := by decide
  rwa [hw] at hr

theorem estimateTextTokens_replicate (n : Nat) :
    estimateTextTokens (String.ofList (List.replicate n '答')) = 2 * n := by
  simp [estimateTextTokens, List.countP_replicate]

/-- An answer of 300 characters in a context of 1024 tokens. -/
def longAnswer : ChatMessage := answer (String.ofList (List.replicate 300 '答'))

theorem longAnswer_forgotten : ¬ ∀ cfg h, Exchanges h → Retained cfg h (boundedHistory h cfg) := by
  intro hall
  let cfg : Config := { plainConfig with maxContextTokens := 1024 }
  have dropped (a : ChatMessage) (ha : a.role = .assistant)
      (hover : 512 < estimateHistoryTokens [question "?", a]) :
      boundedHistory [question "?", a] cfg = [] := by
    have he : Exchanges [question "?", a] := .answered _ _ rfl ha .nil
    have hbudget : contextBudget cfg.maxContextTokens cfg.instructions = 512 := by decide
    simpa [boundedHistory, maxMessages, ha, dropOrphans, question, cfg, plainConfig] using
      he.dropOverBudget_nil (by simp [ha]) (hbudget ▸ hover)
  have hover : 512 < estimateHistoryTokens [question "?", longAnswer] := by
    have htokens : estimateTextTokens longAnswer.content = 2 * 300 := estimateTextTokens_replicate 300
    simp only [estimateHistoryTokens, List.map_cons, htokens, List.sum_cons]
    omega
  have hlast := (hall cfg _ (.answered (question "?") longAnswer rfl rfl .nil)).keeps_newest
  rw [dropped longAnswer rfl hover] at hlast
  simp at hlast

end BoomPI.Pipeline
