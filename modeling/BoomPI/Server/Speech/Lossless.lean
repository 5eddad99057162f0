import BoomPI.Server.Speech.Link

/-!
# The filter loses no content

Over the runes of a line stand the lines: a prefix is held back until it is known
whether the line is fenced. `Spoken` carries both through every rune, and `Finish`
lets out all that is left.
-/

namespace BoomPI.Speech

open Thinning (Loses Thins)

variable {u : Tables} {f : TextFilter} {value : Char} {input out inner text rest : List Char}

/-- The answer's deltas through `Write`, one after another. -/
def writeAll (u : Tables) : TextFilter → List (List Char) → Written
  | f, [] => (f, [])
  | f, delta :: deltas => (write u f delta).andThen fun f => writeAll u f deltas

def filtered (u : Tables) (deltas : List (List Char)) : List Char :=
  (writeAll u {} deltas).2 ++ finish u (writeAll u {} deltas).1

-- ---------------------------------------------------------------------------
-- The line prefix
-- ---------------------------------------------------------------------------

theorem linePrefixMark_suffix (h : linePrefixMark text = some rest) : rest <:+ text := by
  unfold linePrefixMark at h
  split at h
  case h_1 => cases h
  case h_2 value text =>
    have tail {l : List Char} (hl : l <:+ text) : l <:+ value :: text := hl.trans (List.suffix_cons _ _)
    split at h
    · cases h
      exact tail (List.dropWhile_suffix _)
    split at h
    · split at h <;> cases h
      exact tail (List.dropWhile_suffix _)
    split at h
    · cases h
      exact tail (List.suffix_refl _)
    split at h
    · split at h
      case h_1 stop more hstop =>
        split at h <;> cases h
        refine tail (.trans (List.suffix_cons stop _) ?_)
        exact hstop ▸ List.dropWhile_suffix _
      case h_2 => cases h
    · cases h

theorem linePrefixGroup_suffix (h : linePrefixGroup text = some rest) : rest <:+ text := by
  obtain ⟨behind, hmark, h⟩ := Option.bind_eq_some_iff.mp h
  refine .trans ?_ (linePrefixMark_suffix hmark)
  split at h
  case h_1 value more =>
    split at h <;> cases h
    exact (List.dropWhile_suffix _).trans (List.suffix_cons _ _)
  case h_2 => cases h

theorem replaceLinePrefix_suffix (fuel : Nat) (text : List Char) : replaceLinePrefix fuel text <:+ text := by
  induction fuel generalizing text with
  | zero => exact List.suffix_refl _
  | succ fuel ih =>
    unfold replaceLinePrefix
    split
    case h_1 rest hrest => exact (ih rest).trans (linePrefixGroup_suffix hrest)
    case h_2 => exact List.suffix_refl _

theorem soft_of_prefixRune (h : isTTSLinePrefixRune value = true) :
    Soft value ∧ value ≠ '\\' ∧ isNewline value = false := by
  unfold isTTSLinePrefixRune at h
  rcases Bool.or_eq_true_iff.mp h with h | h
  · have hd : value.isDigit = true := by
      simpa [Char.isDigit, Char.le_def] using h
    refine ⟨.inr (.inr (.inl hd)), ?_, ?_⟩
    · rintro rfl
      simp at hd
    · by_contra hn
      have : value = '\n' ∨ value = '\r' := by simpa [isNewline, or_iff_not_imp_left] using hn
      rcases this with rfl | rfl <;> simp at hd
  · have marks : (" \t#>-+*`.)".toList.all fun c =>
        decide ((isBlank c || isAsciiPunct c) = true ∧ c ≠ '\\' ∧ isNewline c = false)) = true := by decide
    obtain ⟨hsoft, h⟩ := of_decide_eq_true (List.all_eq_true.mp marks value (by simpa using h))
    refine ⟨?_, h⟩
    rcases Bool.or_eq_true_iff.mp hsoft with h | h
    · exact .inl h
    · exact .punct h

-- ---------------------------------------------------------------------------
-- Lines
-- ---------------------------------------------------------------------------

theorem lastLine_newline (h : isNewline value = true) : lastLine (text ++ [value]) = [] := by
  simp [lastLine, h]

theorem lastLine_append (h : ∀ c ∈ rest, isNewline c = false) :
    lastLine (text ++ rest) = lastLine text ++ rest := by
  unfold lastLine
  rw [List.reverse_append, List.takeWhile_append_of_pos (by simpa using h)]
  simp

theorem Escapes.newline {escaped : Bool} (h : Escapes (input ++ [value]) escaped)
    (hv : isNewline value = true) : escaped = false := by
  have hslash : value ≠ '\\' := by
    rintro rfl
    simp [isNewline] at hv
  rcases h with h | ⟨front, k, h⟩
  · simpa [hslash] using h
  · cases k with
    | zero =>
      obtain rfl : value = ')' := by simpa using (List.append_inj' h rfl).2
      simp [isNewline] at hv
    | succ k =>
      rw [List.replicate_succ', ← List.cons_append, ← List.append_assoc] at h
      exact absurd (by simpa using (List.append_inj' h rfl).2) hslash

theorem Settled.relined (h : Settled input out f) (lineStart skipLine : Bool) (linePrefix : List Char) :
    Settled input out { f with lineStart, skipLine, linePrefix } := by
  cases h with
  | normal linkState linkLabel linkTarget stars escaped thins =>
    exact .normal linkState linkLabel linkTarget stars escaped thins
  | link base builders stars escaped held front thins =>
    refine .link base ?_ stars escaped held front thins
    cases builders with
    | label depth linkState opened linkLabelDepth linkTarget =>
      exact .label depth linkState opened linkLabelDepth linkTarget
    | after linkState linkLabel linkTarget => exact .after linkState linkLabel linkTarget
    | target depth linkState linkLabel opened linkDepth =>
      exact .target depth linkState linkLabel opened linkDepth

theorem Settled.skip (h : Settled input out f) (hn : f.linkState = .normal) (hf : f.escaped = false)
    (htext : ∀ c ∈ text, Soft c ∧ c ≠ '\\') : Settled (input ++ text) out f := by
  cases h with
  | link _ builders => cases builders <;> simp_all
  | normal linkState linkLabel linkTarget stars escaped thins =>
    refine .normal linkState linkLabel linkTarget stars ?_ ?_
    · rcases List.eq_nil_or_concat text with rfl | ⟨init, c, rfl⟩
      · simpa using escaped
      · left
        have : c ≠ '\\' := (htext c (by simp)).2
        rw [hf, List.concat_eq_append, ← List.append_assoc, escapes_append_singleton]
        simp [this]
    · have hgone : Loses Soft text [] := .all fun c hc => (htext c hc).1
      have := thins.append droppable_persists (Thins.soft (.refl _ _) hgone)
      simpa using this

inductive Spoken (input out : List Char) (f : TextFilter) : Prop
  | line (inner : List Char) (skipLine : f.skipLine = false) (held : input = inner ++ f.linePrefix)
      (prefixed : f.linePrefix ≠ [] → f.lineStart = true)
      (start : f.lineStart = true → lastLine inner = [] ∧ f.linkState = .normal ∧ f.escaped = false)
      (marks : ∀ c ∈ f.linePrefix, isTTSLinePrefixRune c = true) (settled : Settled inner out f)
  | fenced (skipLine : f.skipLine = true) (lineStart : f.lineStart = false)
      (linePrefix : f.linePrefix = []) (linkState : f.linkState = .normal)
      (linkLabel : f.linkLabel = []) (linkTarget : f.linkTarget = []) (escaped : f.escaped = false)
      (fenced : FenceLine (lastLine input)) (thins : Thins Droppable [] input (out ++ f.pending))

theorem spoken_init : Spoken [] [] {} :=
  .line [] rfl rfl nofun (fun _ => ⟨rfl, rfl, rfl⟩) nofun
    (.normal rfl rfl rfl nofun (.inl rfl) .nil)

theorem writeInlineText_line (u : Tables) (f : TextFilter) (text : List Char) :
    SameLine f (writeInlineText u f text).1 := by
  induction text generalizing f with
  | nil => exact .refl
  | cons value text ih => exact (writeInlineRune_line u f value).trans (ih _)

/-- The line prefix let out: the blanks and marks at its start are dropped. -/
theorem Settled.flushPrefix (h : Settled inner out f)
    (start : f.linePrefix ≠ [] → f.linkState = .normal ∧ f.escaped = false)
    (marks : ∀ c ∈ f.linePrefix, isTTSLinePrefixRune c = true) :
    Settled (inner ++ f.linePrefix) (out ++ (flushPrefix u f).2) (flushPrefix u f).1 ∧
      (flushPrefix u f).1.lineStart = false ∧ (flushPrefix u f).1.linePrefix = [] ∧
      (flushPrefix u f).1.skipLine = f.skipLine := by
  unfold Speech.flushPrefix
  by_cases hp : f.linePrefix = []
  · simp only [hp, ne_eq, not_true, if_false, andThen_fst, andThen_snd, List.append_nil]
    exact ⟨h.relined false f.skipLine [], trivial, trivial, trivial⟩
  · obtain ⟨hn, hf⟩ := start hp
    simp only [ne_eq, hp, not_false_iff, if_true, andThen_fst, andThen_snd, List.append_nil]
    generalize hs : replaceLinePrefix _ (f.linePrefix.dropWhile isBlank) = spoken
    obtain ⟨dropped, hdropped⟩ : spoken <:+ f.linePrefix :=
      hs ▸ (replaceLinePrefix_suffix _ _).trans (List.dropWhile_suffix _)
    have hskip : Settled (inner ++ dropped) out f := by
      refine h.skip hn hf fun c hc => ?_
      obtain ⟨hsoft, hslash, -⟩ := soft_of_prefixRune (marks c (hdropped ▸ List.mem_append_left _ hc))
      exact ⟨hsoft, hslash⟩
    have hsteps := (hskip.steps (u := u) spoken).relined false
      (writeInlineText u f spoken).1.skipLine []
    refine ⟨?_, trivial, trivial, (writeInlineText_line u f spoken).skipLine⟩
    rw [← hdropped, ← List.append_assoc]
    exact hsteps

theorem Settled.lineRune (h : Settled inner out f) (lineStart : f.lineStart = false)
    (linePrefix : f.linePrefix = []) (skipLine : f.skipLine = false) (value : Char) :
    Spoken (inner ++ [value]) (out ++ (writeLineRune u f value).2) (writeLineRune u f value).1 := by
  have line := writeInlineRune_line u f value
  have hstep := h.step (u := u) value
  unfold writeLineRune
  simp only [andThen_fst, andThen_snd, List.append_nil]
  split
  case isTrue hv =>
    obtain ⟨hv, hn⟩ := hv
    refine .line (inner ++ [value]) (line.skipLine.trans skipLine) ?_ (fun _ => rfl) (fun _ => ?_) ?_
      (hstep.relined true _ _)
    · simp [line.linePrefix, linePrefix]
    · refine ⟨lastLine_newline hv, hn, ?_⟩
      cases hstep with
      | normal _ _ _ _ escaped => exact escaped.newline hv
      | link _ _ _ escaped => exact escaped
    · simp [line.linePrefix, linePrefix]
  case isFalse =>
    have hl : (writeInlineRune u f value).1.lineStart = false := line.lineStart.trans lineStart
    refine .line (inner ++ [value]) (line.skipLine.trans skipLine) ?_ ?_ ?_ ?_ hstep
    · simp [line.linePrefix, linePrefix]
    · simp [line.linePrefix, linePrefix]
    · simp [hl]
    · simp [line.linePrefix, linePrefix]

theorem Spoken.step (h : Spoken input out f) (value : Char) :
    Spoken (input ++ [value]) (out ++ (writeRune u f value).2) (writeRune u f value).1 := by
  cases h with
  | fenced skipLine lineStart linePrefix linkState linkLabel linkTarget escaped fenced thins =>
    rw [writeRune, if_pos skipLine]
    split
    case isTrue hv =>
      have hsoft : Soft value := .inr (.inl hv)
      have hall := thins.append droppable_persists (.drop (.inl hsoft) .nil)
      refine .line (input ++ [value]) rfl (by simp [linePrefix]) (fun _ => rfl)
        (fun _ => ⟨lastLine_newline hv, linkState, escaped⟩) (by simp [linePrefix])
        (.normal linkState linkLabel linkTarget (by simp [escaped]) (.inl ?_) ?_)
      · have : value ≠ '\\' := by
          rintro rfl
          simp [isNewline] at hv
        simp [escaped, this]
      · simpa [TextFilter.pending] using hall
    case isFalse hv =>
      have hlast : lastLine (input ++ [value]) = lastLine input ++ [value] :=
        lastLine_append (by simpa using hv)
      have hgone : Droppable input value [] := .inr (.inl (fenced.append [value]))
      refine .fenced skipLine lineStart linePrefix linkState linkLabel linkTarget escaped ?_ ?_
      · exact hlast ▸ fenced.append [value]
      · simpa using thins.append droppable_persists (.drop hgone .nil)
  | line inner skipLine held prefixed start marks settled =>
    have hskip : ¬ f.skipLine = true := by simp [skipLine]
    rw [writeRune, if_neg hskip]
    split
    case isTrue hstart =>
      obtain ⟨hlast, hn, hf⟩ := start hstart.1
      split
      case isTrue hv =>
        have hmarks : ∀ c ∈ f.linePrefix ++ [value], isTTSLinePrefixRune c = true := by
          simpa [or_imp, forall_and] using ⟨marks, hv⟩
        dsimp only
        split
        case isTrue hfence =>
          have hinput : input ++ [value] = inner ++ (f.linePrefix ++ [value]) := by simp [held]
          have hline : lastLine (input ++ [value]) = f.linePrefix ++ [value] := by
            rw [hinput, lastLine_append fun c hc => (soft_of_prefixRune (hmarks c hc)).2.2, hlast]
            rfl
          have hgone : Loses Soft (f.linePrefix ++ [value]) [] :=
            .all fun c hc => (soft_of_prefixRune (hmarks c hc)).1
          have hall := settled.thins.append droppable_persists (Thins.soft (.refl _ _) hgone)
          cases settled with
          | link _ builders => cases builders <;> simp_all
          | normal _ linkLabel linkTarget =>
            refine .fenced rfl rfl rfl hn linkLabel linkTarget hf ?_ ?_
            · rw [hline]
              exact List.isPrefixOf_iff_prefix.mp hfence
            · simpa [hinput, TextFilter.pending] using hall
        case isFalse hfence =>
          refine .line inner skipLine (by simp [held]) (fun _ => hstart.1) start hmarks ?_
          simpa using settled.relined f.lineStart f.skipLine (f.linePrefix ++ [value])
      case isFalse hv =>
        obtain ⟨hflush, hl, hp, hs⟩ := settled.flushPrefix (u := u) (fun _ => ⟨hn, hf⟩) marks
        have := hflush.lineRune (u := u) hl hp (hs.trans skipLine) value
        simpa [held] using this
    case isFalse hstart =>
      have hl : f.lineStart = false := by
        by_contra hl
        have hl : f.lineStart = true := by simpa using hl
        obtain ⟨-, hn, hf⟩ := start hl
        exact hstart ⟨hl, hn, by simp [hf]⟩
      have hp : f.linePrefix = [] := by
        by_contra hp
        simp [prefixed hp] at hl
      have := settled.lineRune (u := u) hl hp skipLine value
      simpa [held, hp] using this

theorem Spoken.steps (h : Spoken input out f) (text : List Char) :
    Spoken (input ++ text) (out ++ (write u f text).2) (write u f text).1 := by
  induction text generalizing input out f with
  | nil => simpa [write] using h
  | cons value text ih => simpa [write] using ih (h.step value)

theorem Spoken.deltas (h : Spoken input out f) (deltas : List (List Char)) :
    Spoken (input ++ deltas.flatten) (out ++ (writeAll u f deltas).2) (writeAll u f deltas).1 := by
  induction deltas generalizing input out f with
  | nil => simpa [writeAll] using h
  | cons delta deltas ih => simpa [writeAll] using ih (h.steps delta)

-- ---------------------------------------------------------------------------
-- `Finish`
-- ---------------------------------------------------------------------------

theorem finish_flushPrefix (u : Tables) (f : TextFilter) :
    finish u f = (flushPrefix u f).2 ++ finish u (flushPrefix u f).1 := by
  have hl : (flushPrefix u f).1.lineStart = false := rfl
  have hp : (flushPrefix u f).1.linePrefix = [] := by
    unfold flushPrefix
    split
    · rfl
    case isFalse h => simpa using h
  have hagain : flushPrefix u (flushPrefix u f).1 = ((flushPrefix u f).1, []) := by
    rw [flushPrefix.eq_def u (flushPrefix u f).1, if_neg (by simp [hp])]
    simp [Written.andThen, ← hl]
  simp only [finish, hagain, Written.andThen, List.append_assoc, List.nil_append]

/-- Without a line prefix `Finish` lets out what is held back. -/
theorem finish_pending (hp : f.linePrefix = []) (hstars : f.escaped = true → f.stars = 0)
    (hlink : f.linkState ≠ .normal → f.stars = 0 ∧ f.escaped = false) :
    Loses Soft f.pending (finish u f) := by
  have hempty : flushPrefix u f = ({ f with lineStart := false }, []) := by
    simp [flushPrefix, hp, Written.andThen]
  cases hs : f.linkState with
  | normal =>
    cases hf : f.escaped with
    | false =>
      have := flushStars_loses u { f with lineStart := false } '\x00' true
      simpa [pending_normal hs, finish, hempty, hs, hf] using this
    | true =>
      have hz := hstars hf
      have : finish u f = ['\\'] := by simp [finish, hempty, hs, hf, flushStars, hz]
      simpa [pending_normal hs, hf, hz, this] using Loses.refl (p := Soft) ['\\']
  | linkLabel =>
    obtain ⟨hz, hf⟩ := hlink (by simp [hs])
    have : finish u f = f.pending := by
      simp [finish, hempty, hs, hf, flushStars, hz, TextFilter.pending]
    exact this ▸ .refl _
  | afterLinkLabel =>
    obtain ⟨hz, hf⟩ := hlink (by simp [hs])
    have : finish u f = f.pending := by
      simp [finish, hempty, hs, hf, flushStars, hz, TextFilter.pending]
    exact this ▸ .refl _
  | linkTarget =>
    obtain ⟨hz, hf⟩ := hlink (by simp [hs])
    have : finish u f = f.pending := by
      simp [finish, hempty, hs, hf, flushStars, hz, TextFilter.pending]
    exact this ▸ .refl _

theorem Settled.finish_loses (h : Settled input out f) (hp : f.linePrefix = []) :
    Loses Soft f.pending (Speech.finish u f) := by
  refine finish_pending hp ?_ ?_
  all_goals cases h with
  | normal linkState _ _ stars => simp_all
  | link _ builders stars escaped => simp_all

theorem Settled.finish (h : Settled input out f) (hp : f.linePrefix = []) :
    Thins Droppable [] input (out ++ Speech.finish u f) :=
  Thins.soft h.thins ((Loses.refl out).append (h.finish_loses hp))

theorem Spoken.finish (h : Spoken input out f) :
    Thins Droppable [] input (out ++ Speech.finish u f) := by
  cases h with
  | line inner skipLine held prefixed start marks settled =>
    obtain ⟨hflush, -, hp, -⟩ := settled.flushPrefix (u := u) (fun h => (start (prefixed h)).2) marks
    have := hflush.finish (u := u) hp
    rwa [List.append_assoc, ← finish_flushPrefix, ← held] at this
  | fenced skipLine lineStart linePrefix linkState linkLabel linkTarget escaped fenced thins =>
    refine Thins.soft thins ((Loses.refl out).append (finish_pending linePrefix ?_ ?_))
    · simp [escaped]
    · simp [linkState]

/-- However the answer is cut into deltas, what is spoken of it is its text in order, without
white space, digits and punctuation of ASCII at most, fenced lines, and the targets of
completed links. -/
theorem filter_loses_no_content (u : Tables) (deltas : List (List Char)) :
    (filtered u deltas).Sublist deltas.flatten ∧
      Thins Droppable [] deltas.flatten (filtered u deltas) := by
  have h : Thins Droppable [] deltas.flatten (filtered u deltas) := by
    simpa [filtered] using (spoken_init.deltas deltas).finish (u := u)
  exact ⟨h.sublist, h⟩

end BoomPI.Speech
