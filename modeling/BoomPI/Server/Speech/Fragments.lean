import BoomPI.Server.Speech.Lossless

/-!
# How much is sent at once

`streamingTTSFragments` cuts what goes into the filter; what comes out of it can be
more, since the filter lets go in one piece what it held back over several fragments.
-/

namespace BoomPI.Speech

open Thinning (Loses)

variable {u : Tables} {f : TextFilter} {value : Char} {input out inner text current : List Char}
  {n : Nat}

def maxTTSFragmentUnits : Nat := 1600

/-- What the provider takes in one `input_text_buffer.append`. -/
def providerLimit : Nat := 2000

def ttsRuneUnits (r : Char) : Nat := if 127 < r.toNat then 2 else 1

def units (text : List Char) : Nat := (text.map ttsRuneUnits).sum

/-- The loop of `streamingTTSFragments`; `current` is `delta[start:index]`. -/
def fragmentsFrom (n : Nat) (current : List Char) : List Char → List (List Char)
  | [] => [current]
  | r :: delta =>
    if maxTTSFragmentUnits < n + ttsRuneUnits r then
      current :: fragmentsFrom (ttsRuneUnits r) [r] delta
    else fragmentsFrom (n + ttsRuneUnits r) (current ++ [r]) delta

def streamingTTSFragments (delta : List Char) : List (List Char) :=
  if delta = [] then [] else fragmentsFrom 0 [] delta

inductive Message
  | append (text : List Char)
  | finish
  deriving DecidableEq, Repr

def appendText (u : Tables) (text : List Char) : List Message :=
  if text.all u.isSpace then [] else [.append text]

/-- `writeServerCommitText`, from the filter's state on. A run that fails or is cancelled
sends the first of these messages only; one that sends no text ends in an error. -/
def writeServerCommitText (u : Tables) (f : TextFilter) (synthesized : Bool) :
    List (List Char) → List Message
  | [] =>
    let last := appendText u (finish u f)
    last ++ if synthesized || last ≠ [] then [.finish] else []
  | fragment :: fragments =>
    if fragment = [] then writeServerCommitText u f synthesized fragments
    else
      let r := write u f fragment
      let sent := if r.2 = [] then [] else appendText u r.2
      sent ++ writeServerCommitText u r.1 (synthesized || sent ≠ []) fragments

def speak (u : Tables) (deltas : List (List Char)) : List Message :=
  writeServerCommitText u {} false (deltas.flatMap streamingTTSFragments)

-- ---------------------------------------------------------------------------
-- Units
-- ---------------------------------------------------------------------------

@[simp] theorem units_nil : units [] = 0 := rfl

@[simp] theorem units_append (text more : List Char) : units (text ++ more) = units text + units more := by
  simp [units]

@[simp] theorem units_cons (value : Char) (text : List Char) :
    units (value :: text) = ttsRuneUnits value + units text := by
  simp [units]

theorem units_le_of_sublist (h : out.Sublist text) : units out ≤ units text := by
  induction h with
  | slnil => exact Nat.le_refl _
  | cons value _ ih => exact Nat.le_trans ih (by simp)
  | cons_cons value _ ih => simpa using ih

theorem units_le_of_loses {p : Char → Prop} (h : Loses p text out) : units out ≤ units text :=
  units_le_of_sublist h.sublist

-- ---------------------------------------------------------------------------
-- Cutting
-- ---------------------------------------------------------------------------

theorem fragmentsFrom_flatten (n : Nat) (current delta : List Char) :
    (fragmentsFrom n current delta).flatten = current ++ delta := by
  induction delta generalizing n current with
  | nil => simp [fragmentsFrom]
  | cons r delta ih =>
    unfold fragmentsFrom
    split <;> simp [ih]

theorem ttsRuneUnits_le (r : Char) : ttsRuneUnits r ≤ 2 := by
  unfold ttsRuneUnits
  split <;> decide

theorem fragmentsFrom_units (hcurrent : units current = n) (hn : n ≤ maxTTSFragmentUnits)
    (delta : List Char) : ∀ fragment ∈ fragmentsFrom n current delta,
      units fragment ≤ maxTTSFragmentUnits := by
  induction delta generalizing n current with
  | nil => simpa [fragmentsFrom, hcurrent] using hn
  | cons r delta ih =>
    have hr := ttsRuneUnits_le r
    unfold fragmentsFrom
    split
    · have : ∀ fragment ∈ fragmentsFrom (ttsRuneUnits r) [r] delta,
          units fragment ≤ maxTTSFragmentUnits := ih (by simp) (Nat.le_trans hr (by decide))
      simpa [hcurrent, hn] using this
    case isFalse h => exact ih (by simp [hcurrent]) (Nat.not_lt.mp h)

theorem streamingTTSFragments_flatten (delta : List Char) :
    (streamingTTSFragments delta).flatten = delta := by
  unfold streamingTTSFragments
  split
  case isTrue h => exact h.symm
  case isFalse => exact fragmentsFrom_flatten 0 [] delta

theorem streamingTTSFragments_units (delta : List Char) :
    ∀ fragment ∈ streamingTTSFragments delta, units fragment ≤ maxTTSFragmentUnits := by
  unfold streamingTTSFragments
  split
  case isTrue => simp
  case isFalse => exact fragmentsFrom_units units_nil (Nat.zero_le _) delta

-- ---------------------------------------------------------------------------
-- What a rune can let go
-- ---------------------------------------------------------------------------

/-- What a later `Write` may still let out inside the line: a link's target never. -/
def TextFilter.kept (f : TextFilter) : List Char :=
  match f.linkState with
  | .linkTarget => '[' :: f.linkLabel ++ [']']
  | _ => f.pending

/-- The same with the line prefix. -/
def TextFilter.heldBack (f : TextFilter) : List Char := f.kept ++ f.linePrefix

@[simp] theorem kept_relined (f : TextFilter) (lineStart skipLine : Bool) (linePrefix : List Char) :
    ({ f with lineStart, skipLine, linePrefix } : TextFilter).kept = f.kept := rfl

theorem kept_normal (h : f.linkState = .normal) : f.kept = f.pending := by
  simp [TextFilter.kept, h]

theorem kept_label (h : f.linkState = .linkLabel) : f.kept = '[' :: f.linkLabel := by
  simp [TextFilter.kept, TextFilter.pending, h]

theorem kept_after (h : f.linkState = .afterLinkLabel) : f.kept = '[' :: f.linkLabel ++ [']'] := by
  simp [TextFilter.kept, TextFilter.pending, h]

theorem kept_target (h : f.linkState = .linkTarget) : f.kept = '[' :: f.linkLabel ++ [']'] := by
  simp [TextFilter.kept, h]

theorem plain_units (u : Tables) (value : Char) (hn : f.linkState = .normal) (hlabel : f.linkLabel = []) :
    units (writePlainRune u f value).2 + units (writePlainRune u f value).1.kept ≤
      units f.kept + units [value] := by
  have step := writePlainRune_spec u value hn
  rw [kept_normal hn]
  by_cases hopens : value = '[' ∧ f.escaped = false
  · obtain ⟨rfl, hescaped⟩ := hopens
    obtain ⟨hstate, -, -, hloses⟩ := step.opens rfl hescaped
    have := units_le_of_loses hloses
    simpa [kept_label hstate, step.linkLabel, hlabel, pending_normal hn, hescaped] using this
  · obtain ⟨hstate, hloses⟩ := step.stays fun h => by simpa [h] using hopens
    simpa [kept_normal hstate] using units_le_of_loses hloses

theorem Settled.step_units (h : Settled input out f) (u : Tables) (value : Char) :
    units (writeInlineRune u f value).2 + units (writeInlineRune u f value).1.kept ≤
      units f.kept + units [value] := by
  cases h with
  | normal linkState linkLabel =>
    simpa only [writeInlineRune, linkState] using plain_units u value linkState linkLabel
  | link base builders stars escaped =>
    cases builders with
    | label depth linkState =>
      simp only [writeInlineRune, linkState, kept_label linkState]
      split
      · simp [TextFilter.kept, TextFilter.pending, Nat.add_assoc]
      split
      · simp [TextFilter.kept, TextFilter.pending, Nat.add_assoc]
      case isFalse ho hc =>
        obtain rfl : value = ']' := by simpa using hc
        split <;> simp [TextFilter.kept, TextFilter.pending, Nat.add_assoc]
    | after linkState linkLabel linkTarget =>
      simp only [writeInlineRune, linkState, kept_after linkState]
      split
      · simp [TextFilter.kept]
      · generalize hg : (emitRune u (emitRune u
          { f with linkLabel := [], linkState := .normal } '[').1 ']').1 = g
        have hn : g.linkState = .normal := hg ▸ rfl
        have hpending : g.kept = [] := by
          subst hg
          simp [TextFilter.kept, TextFilter.pending, emitRune, stars, escaped]
        have plain := plain_units u value hn (hg ▸ rfl)
        simp only [hpending, units_nil, Nat.zero_add] at plain
        simp only [andThen_fst, andThen_snd, hg, emitRune_snd, units_append]
        simp only [units_cons, units_nil] at plain ⊢
        omega
    | target depth linkState linkLabel opened linkDepth =>
      simp only [writeInlineRune, linkState, kept_target linkState]
      split
      · simp [TextFilter.kept]
      split
      · split
        · generalize hg : ({ f with
            linkDepth := 0, linkLabel := [], linkTarget := [], linkState := .normal } : TextFilter) = g
          have hn : g.linkState = .normal := hg ▸ rfl
          have hpending : g.pending = [] := by
            subst hg
            simp [TextFilter.pending, stars, escaped]
          have text : PlainText g (f.linkLabel.filter fun c => c ≠ '[' ∧ c ≠ ']') _ :=
            each_writePlainRune u hn (by simp)
          have hlabel := units_le_of_sublist (List.filter_sublist
            (p := fun c => c ≠ '[' ∧ c ≠ ']') (l := f.linkLabel))
          have hall := units_le_of_loses text.loses
          simp only [hpending, List.nil_append, units_append] at hall
          rw [kept_normal text.linkState]
          simp only [units_append, units_cons, units_nil]
          omega
        · simp [TextFilter.kept]
      · simp [TextFilter.kept]

theorem Settled.steps_units (h : Settled input out f) (u : Tables) (text : List Char) :
    units (writeInlineText u f text).2 + units (writeInlineText u f text).1.kept ≤
      units f.kept + units text := by
  induction text generalizing input out f with
  | nil => simp [writeInlineText]
  | cons value text ih =>
    have head := h.step_units u value
    have tail := ih (h.step (u := u) value)
    simp only [writeInlineText, each_cons, andThen_fst, andThen_snd, units_append, units_cons,
      units_nil] at head tail ⊢
    omega

theorem Settled.flushPrefix_units (h : Settled input out f) (u : Tables) :
    units (Speech.flushPrefix u f).2 + units (Speech.flushPrefix u f).1.kept ≤ units f.heldBack := by
  unfold Speech.flushPrefix
  split
  case isTrue hp =>
    have spoken : replaceLinePrefix (f.linePrefix.dropWhile isBlank).length
        (f.linePrefix.dropWhile isBlank) <:+ f.linePrefix :=
      (replaceLinePrefix_suffix _ _).trans (List.dropWhile_suffix _)
    have hall := h.steps_units u (replaceLinePrefix (f.linePrefix.dropWhile isBlank).length
      (f.linePrefix.dropWhile isBlank))
    have := units_le_of_sublist spoken.sublist
    simp only [andThen_fst, andThen_snd, List.append_nil, TextFilter.heldBack, units_append]
    exact Nat.le_trans hall (Nat.add_le_add_left this _)
  case isFalse => simp [TextFilter.heldBack]

theorem Settled.lineRune_units (h : Settled input out f) (u : Tables) (value : Char) :
    units (writeLineRune u f value).2 + units (writeLineRune u f value).1.kept ≤
      units f.kept + units [value] := by
  have := h.step_units u value
  simp only [writeLineRune, andThen_fst, andThen_snd, List.append_nil]
  split <;> simpa using this

theorem writeLineRune_linePrefix (u : Tables) (f : TextFilter) (value : Char) :
    (writeLineRune u f value).1.linePrefix = f.linePrefix := by
  simp only [writeLineRune, andThen_fst]
  split <;> exact (writeInlineRune_line u f value).linePrefix

theorem Spoken.step_units (h : Spoken input out f) (u : Tables) (value : Char) :
    units (writeRune u f value).2 + units (writeRune u f value).1.heldBack ≤
      units f.heldBack + units [value] := by
  cases h with
  | fenced skipLine =>
    rw [writeRune, if_pos skipLine]
    split <;> simp [TextFilter.heldBack]
  | line inner skipLine held prefixed start marks settled =>
    rw [writeRune, if_neg (by simp [skipLine])]
    split
    case isTrue hstart =>
      obtain ⟨-, hn, hf⟩ := start hstart.1
      split
      · dsimp only
        split <;> simp [TextFilter.heldBack, Nat.add_assoc]
      · obtain ⟨hflush, hl, hp, hs⟩ := settled.flushPrefix (u := u) (fun _ => ⟨hn, hf⟩) marks
        have flush := settled.flushPrefix_units u
        have line := hflush.lineRune_units u value
        simp only [andThen_fst, andThen_snd, TextFilter.heldBack, writeLineRune_linePrefix, hp,
          units_append, List.append_nil] at flush line ⊢
        omega
    case isFalse hstart =>
      have line := settled.lineRune_units u value
      simp only [TextFilter.heldBack, writeLineRune_linePrefix, units_append] at line ⊢
      omega

theorem Spoken.write_units (h : Spoken input out f) (u : Tables) (text : List Char) :
    units (write u f text).2 + units (write u f text).1.heldBack ≤ units f.heldBack + units text := by
  induction text generalizing input out f with
  | nil => simp [write]
  | cons value text ih =>
    have head := h.step_units u value
    have tail := ih (h.step (u := u) value)
    simp only [write, each_cons, andThen_fst, andThen_snd, units_append, units_cons, units_nil]
      at head tail ⊢
    omega

theorem writeInlineText_normal (u : Tables) (hn : f.linkState = .normal) (htext : '[' ∉ text) :
    (writeInlineText u f text).1.linkState = .normal := by
  induction text generalizing f with
  | nil => exact hn
  | cons value text ih =>
    refine ih ?_ fun h => htext (List.mem_cons_of_mem _ h)
    have hvalue : value ≠ '[' := fun h => htext (by simp [h])
    simpa only [writeInlineRune, hn] using
      ((writePlainRune_spec u value hn).stays fun h => absurd h hvalue).1

theorem flushPrefix_linkState (u : Tables) (start : f.linePrefix ≠ [] → f.linkState = .normal)
    (marks : ∀ c ∈ f.linePrefix, isTTSLinePrefixRune c = true) :
    (flushPrefix u f).1.linkState = f.linkState := by
  unfold flushPrefix
  split
  case isTrue hp =>
    refine (writeInlineText_normal u (start hp) fun h => ?_).trans (start hp).symm
    have hmem := ((replaceLinePrefix_suffix _ _).trans (List.dropWhile_suffix _)).subset h
    exact absurd (marks _ hmem) (by decide)
  case isFalse => rfl

/-- `Finish` lets out a target as well. -/
theorem Spoken.finish_units (h : Spoken input out f) (u : Tables) :
    units (Speech.finish u f) ≤ units f.pending + units f.linePrefix := by
  cases h with
  | line inner skipLine held prefixed start marks settled =>
    obtain ⟨hflush, -, hp, -⟩ := settled.flushPrefix (u := u) (fun h => (start (prefixed h)).2) marks
    have hstate := flushPrefix_linkState u (fun h => (start (prefixed h)).2.1) marks
    have hrest : units (Speech.finish u (Speech.flushPrefix u f).1) ≤
        units (Speech.flushPrefix u f).1.pending := units_le_of_loses (hflush.finish_loses hp)
    rw [finish_flushPrefix, units_append]
    by_cases hempty : f.linePrefix = []
    · have hnone : Speech.flushPrefix u f = ({ f with lineStart := false }, []) := by
        simp [Speech.flushPrefix, hempty, Written.andThen]
      simp only [hnone, units_nil, Nat.zero_add] at hrest ⊢
      exact Nat.le_trans hrest (Nat.le_add_right _ _)
    · obtain ⟨-, hn, -⟩ := start (prefixed hempty)
      have flush := settled.flushPrefix_units u
      rw [kept_normal (hstate.trans hn), TextFilter.heldBack, units_append, kept_normal hn] at flush
      omega
  | fenced skipLine lineStart linePrefix linkState linkLabel linkTarget escaped fenced thins =>
    refine Nat.le_trans (units_le_of_loses (finish_pending linePrefix ?_ ?_)) (Nat.le_add_right _ _)
    · simp [escaped]
    · simp [linkState]

/-- At every fragment what is held back leaves room for it, and at the end what is held back
is no more than the provider takes. -/
def Roomy (u : Tables) : TextFilter → List (List Char) → Prop
  | f, [] => units f.pending + units f.linePrefix ≤ providerLimit
  | f, fragment :: fragments =>
    units f.heldBack + units fragment ≤ providerLimit ∧ Roomy u (write u f fragment).1 fragments

instance Roomy.decidable (u : Tables) (f : TextFilter) (fragments : List (List Char)) :
    Decidable (Roomy u f fragments) :=
  match fragments with
  | [] => inferInstanceAs (Decidable (_ ≤ _))
  | fragment :: fragments =>
    have := Roomy.decidable u (write u f fragment).1 fragments
    inferInstanceAs (Decidable (_ ∧ _))

theorem mem_appendText (h : .append text ∈ appendText u out) : text = out := by
  unfold appendText at h
  split at h
  · simp at h
  · simpa using h

theorem Spoken.messages (h : Spoken input out f) (synthesized : Bool) {fragments : List (List Char)}
    (hroom : Roomy u f fragments) :
    ∀ text, .append text ∈ writeServerCommitText u f synthesized fragments →
      units text ≤ providerLimit := by
  induction fragments generalizing input out f synthesized with
  | nil =>
    intro text ht
    have hlast : .append text ∈ appendText u (Speech.finish u f) := by
      rcases List.mem_append.mp ht with ht | ht
      · exact ht
      · split at ht <;> simp at ht
    rw [mem_appendText hlast]
    exact Nat.le_trans (h.finish_units u) hroom
  | cons fragment fragments ih =>
    obtain ⟨hfit, hroom⟩ := hroom
    intro text ht
    unfold writeServerCommitText at ht
    split at ht
    case isTrue hempty =>
      subst hempty
      exact ih h synthesized hroom text ht
    case isFalse =>
      rcases List.mem_append.mp ht with ht | ht
      · split at ht
        case isTrue => simp at ht
        case isFalse =>
          rw [mem_appendText ht]
          have := h.write_units u fragment
          omega
      · exact ih (h.steps fragment) _ hroom text ht

/-- Cutting loses no rune and bounds what goes into the filter. Where what is held back
always leaves room for the next fragment, everything sent is within the provider's limit. -/
theorem appends_within_limit (u : Tables) (deltas : List (List Char)) :
    ((deltas.flatMap streamingTTSFragments).flatten = deltas.flatten ∧
      ∀ fragment ∈ deltas.flatMap streamingTTSFragments, units fragment ≤ maxTTSFragmentUnits) ∧
    (Roomy u {} (deltas.flatMap streamingTTSFragments) →
      ∀ text, .append text ∈ speak u deltas → units text ≤ providerLimit) := by
  refine ⟨⟨?_, ?_⟩, fun hroom => spoken_init.messages false hroom⟩
  · induction deltas with
    | nil => rfl
    | cons delta deltas ih => simp [streamingTTSFragments_flatten, ih]
  · intro fragment h
    obtain ⟨delta, -, h⟩ := List.mem_flatMap.mp h
    exact streamingTTSFragments_units delta fragment h

def asciiTables : Tables := ⟨fun c => isBlank c || isNewline c, isAsciiPunct, Char.isDigit⟩

theorem appends_within_limit_link :
    .append "你好 ".toList ∈ speak asciiTables ["你好 [a](".toList, "b)".toList] ∧
      units "你好 ".toList ≤ providerLimit :=
  have hsent : .append "你好 ".toList ∈ speak asciiTables ["你好 [a](".toList, "b)".toList] := by
    decide +kernel
  ⟨hsent, (appends_within_limit asciiTables ["你好 [a](".toList, "b)".toList]).2
    (by decide +kernel) _ hsent⟩

theorem write_openLabel (u : Tables) (hlabel : f.linkState = .linkLabel) (hline : f.skipLine = false)
    (htext : '[' ∉ text ∧ ']' ∉ text) :
    write u f text = ({ f with linkLabel := f.linkLabel ++ text }, []) := by
  induction text generalizing f with
  | nil => simp [write]
  | cons value text ih =>
    have ho : value ≠ '[' := fun h => htext.1 (by simp [h])
    have hc : value ≠ ']' := fun h => htext.2 (by simp [h])
    have hstep : writeRune u f value = ({ f with linkLabel := f.linkLabel ++ [value] }, []) := by
      simp [writeRune, hline, hlabel, writeLineRune, writeInlineRune, ho, hc, Written.andThen]
    have := ih (f := { f with linkLabel := f.linkLabel ++ [value] }) hlabel hline
      ⟨fun h => htext.1 (List.mem_cons_of_mem _ h), fun h => htext.2 (List.mem_cons_of_mem _ h)⟩
    simp only [write] at this
    simp [write, hstep, Written.andThen, this]

theorem openLabel_messages (u : Tables) (hlabel : f.linkState = .linkLabel) (hline : f.skipLine = false)
    (synthesized : Bool) {fragments : List (List Char)}
    (hplain : ∀ fragment ∈ fragments, '[' ∉ fragment ∧ ']' ∉ fragment) :
    writeServerCommitText u f synthesized fragments =
      writeServerCommitText u { f with linkLabel := f.linkLabel ++ fragments.flatten } synthesized [] := by
  induction fragments generalizing f with
  | nil => simp
  | cons fragment fragments ih =>
    have htail := fun more hm => hplain more (List.mem_cons_of_mem _ hm)
    rw [writeServerCommitText.eq_def u f synthesized (fragment :: fragments)]
    dsimp only
    split
    case isTrue hempty => simpa [hempty] using ih hlabel hline htail
    case isFalse =>
      rw [write_openLabel u hlabel hline (hplain fragment List.mem_cons_self)]
      simpa using ih (f := { f with linkLabel := f.linkLabel ++ fragment }) hlabel hline htail

/-- A bracket that is never closed goes out in one piece with all that follows. -/
theorem speak_openLabel (u : Tables) (hspace : u.isSpace '[' = false) (label : List Char)
    (hlabel : '[' ∉ label ∧ ']' ∉ label) : .append ('[' :: label) ∈ speak u [['['], label] := by
  have hplain : ∀ fragment ∈ streamingTTSFragments label, '[' ∉ fragment ∧ ']' ∉ fragment := by
    intro fragment hf
    have hmem : ∀ c ∈ fragment, c ∈ label := fun c hc =>
      streamingTTSFragments_flatten label ▸ List.mem_flatten.mpr ⟨fragment, hf, hc⟩
    exact ⟨fun h => hlabel.1 (hmem _ h), fun h => hlabel.2 (hmem _ h)⟩
  have hspeak : speak u [['['], label] =
      writeServerCommitText u { lineStart := false, linkState := .linkLabel, linkLabelDepth := 1 }
        false (streamingTTSFragments label) := by
    simp only [speak, List.flatMap_cons, List.flatMap_nil, List.append_nil]
    rfl
  rw [hspeak, openLabel_messages u rfl rfl false hplain, streamingTTSFragments_flatten]
  refine List.mem_append_left _ ?_
  simp [appendText, finish, flushPrefix, flushStars, Written.andThen, hspace]

theorem units_replicate (n : Nat) (value : Char) :
    units (List.replicate n value) = n * ttsRuneUnits value := by
  simp [units]

/-- Eleven hundred runes behind a bracket that is never closed. -/
theorem openBracket_exceeds :
    ¬ ∀ text, .append text ∈ speak asciiTables [['['], List.replicate 1100 '中'] →
      units text ≤ providerLimit := by
  intro hall
  have hplain (c : Char) (hc : c ≠ '中') : c ∉ List.replicate 1100 '中' :=
    fun h => hc (List.eq_of_mem_replicate h)
  have hle := hall _ (speak_openLabel asciiTables rfl _
    ⟨hplain '[' (by decide), hplain ']' (by decide)⟩)
  rw [units_cons, units_replicate] at hle
  exact absurd hle (by decide)

end BoomPI.Speech
