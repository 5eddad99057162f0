import BoomPI.Thinning
import BoomPI.Server.Speech

/-!
# What one rune does inside a line

Between two runes the filter holds some of the text back: stars, a backslash, an
open link. `pending` is that text as it came. Outside a link a rune and what was
held back lose nothing but soft runes.
-/

namespace BoomPI.Speech

open Thinning (Loses)

variable {u : Tables} {f g : TextFilter} {value next : Char} {text : List Char} {atEnd : Bool}

def isAsciiPunct (c : Char) : Bool :=
  (33 ≤ c.toNat && c.toNat ≤ 47) || (58 ≤ c.toNat && c.toNat ≤ 64) ||
    (91 ≤ c.toNat && c.toNat ≤ 96) || (123 ≤ c.toNat && c.toNat ≤ 126)

/-- White space, an ASCII digit or ASCII punctuation. -/
def Soft (c : Char) : Prop := isBlank c ∨ isNewline c ∨ c.isDigit ∨ isAsciiPunct c

def TextFilter.pending (f : TextFilter) : List Char :=
  match f.linkState with
  | .normal => List.replicate f.stars '*' ++ if f.escaped then ['\\'] else []
  | .linkLabel => '[' :: f.linkLabel
  | .afterLinkLabel => '[' :: f.linkLabel ++ [']']
  | .linkTarget => '[' :: f.linkLabel ++ "](".toList ++ f.linkTarget

/-- Everything the stars and the spacing do not touch. -/
structure SameText (f g : TextFilter) : Prop where
  lineStart : g.lineStart = f.lineStart
  skipLine : g.skipLine = f.skipLine
  linePrefix : g.linePrefix = f.linePrefix
  escaped : g.escaped = f.escaped
  linkState : g.linkState = f.linkState
  linkDepth : g.linkDepth = f.linkDepth
  linkLabelDepth : g.linkLabelDepth = f.linkLabelDepth
  linkLabel : g.linkLabel = f.linkLabel
  linkTarget : g.linkTarget = f.linkTarget

structure SameLine (f g : TextFilter) : Prop where
  lineStart : g.lineStart = f.lineStart
  skipLine : g.skipLine = f.skipLine
  linePrefix : g.linePrefix = f.linePrefix

theorem SameText.refl : SameText f f := ⟨rfl, rfl, rfl, rfl, rfl, rfl, rfl, rfl, rfl⟩

theorem SameText.trans {h : TextFilter} (a : SameText f g) (b : SameText g h) : SameText f h :=
  ⟨b.1.trans a.1, b.2.trans a.2, b.3.trans a.3, b.4.trans a.4, b.5.trans a.5, b.6.trans a.6,
    b.7.trans a.7, b.8.trans a.8, b.9.trans a.9⟩

theorem SameText.line (h : SameText f g) : SameLine f g := ⟨h.lineStart, h.skipLine, h.linePrefix⟩

theorem SameLine.refl : SameLine f f := ⟨rfl, rfl, rfl⟩

theorem SameLine.trans {h : TextFilter} (a : SameLine f g) (b : SameLine g h) : SameLine f h :=
  ⟨b.1.trans a.1, b.2.trans a.2, b.3.trans a.3⟩

-- ---------------------------------------------------------------------------
-- Emitting
-- ---------------------------------------------------------------------------

@[simp] theorem andThen_fst (r : Written) (k : TextFilter → Written) :
    (r.andThen k).1 = (k r.1).1 := rfl

@[simp] theorem andThen_snd (r : Written) (k : TextFilter → Written) :
    (r.andThen k).2 = r.2 ++ (k r.1).2 := rfl

@[simp] theorem each_nil (step : TextFilter → Char → Written) : each step f [] = (f, []) := rfl

@[simp] theorem each_cons (step : TextFilter → Char → Written) :
    each step f (value :: text) = (step f value).andThen fun f => each step f text := rfl

@[simp] theorem emitRune_snd : (emitRune u f value).2 = [value] := rfl

@[simp] theorem emitRune_stars : (emitRune u f value).1.stars = f.stars := rfl

theorem emitRune_same : SameText f (emitRune u f value).1 :=
  ⟨rfl, rfl, rfl, rfl, rfl, rfl, rfl, rfl, rfl⟩

theorem each_emitRune (text : List Char) :
    SameText f (each (emitRune u) f text).1 ∧ (each (emitRune u) f text).2 = text := by
  induction text generalizing f with
  | nil => exact ⟨.refl, rfl⟩
  | cons value text ih =>
    obtain ⟨hs, ho⟩ := ih (f := (emitRune u f value).1)
    exact ⟨emitRune_same.trans hs, by simp [ho]⟩

theorem flushStars_spec (u : Tables) (f : TextFilter) (next : Char) (atEnd : Bool) :
    SameText f (flushStars u f next atEnd).1 ∧ (flushStars u f next atEnd).1.stars = 0 ∧
      ((flushStars u f next atEnd).2 = [] ∨
        (flushStars u f next atEnd).2 = List.replicate f.stars '*') := by
  unfold flushStars
  split
  case isTrue h0 => exact ⟨.refl, h0, .inl rfl⟩
  dsimp only
  split
  · exact ⟨⟨rfl, rfl, rfl, rfl, rfl, rfl, rfl, rfl, rfl⟩, rfl, .inl rfl⟩
  split
  · exact ⟨⟨rfl, rfl, rfl, rfl, rfl, rfl, rfl, rfl, rfl⟩, rfl, .inl rfl⟩
  · obtain ⟨hs, ho⟩ := each_emitRune (u := u) (f := f) (List.replicate f.stars '*')
    refine ⟨?_, rfl, .inr ho⟩
    exact hs.trans ⟨rfl, rfl, rfl, rfl, rfl, rfl, rfl, rfl, rfl⟩

theorem Soft.punct {c : Char} (h : isAsciiPunct c = true) : Soft c := .inr (.inr (.inr h))

theorem soft_star : Soft '*' := .punct (by decide)

theorem flushStars_loses (u : Tables) (f : TextFilter) (next : Char) (atEnd : Bool) :
    Loses Soft (List.replicate f.stars '*') (flushStars u f next atEnd).2 := by
  rcases (flushStars_spec u f next atEnd).2.2 with h | h <;> rw [h]
  · exact .all fun c hc => List.eq_of_mem_replicate hc ▸ soft_star
  · exact .refl _

-- ---------------------------------------------------------------------------
-- A rune outside a link
-- ---------------------------------------------------------------------------

structure Plain (f : TextFilter) (value : Char) (r : Written) : Prop where
  line : SameLine f r.1
  linkDepth : r.1.linkDepth = f.linkDepth
  linkLabel : r.1.linkLabel = f.linkLabel
  linkTarget : r.1.linkTarget = f.linkTarget
  escaped : r.1.escaped = (!f.escaped && value = '\\')
  stars : r.1.escaped = true → r.1.stars = 0
  /-- it opens a link, and what was held back is settled -/
  opens : value = '[' → f.escaped = false → r.1.linkState = .linkLabel ∧ r.1.linkLabelDepth = 1 ∧
    r.1.stars = 0 ∧ Loses Soft (List.replicate f.stars '*') r.2
  stays : (value = '[' → f.escaped = true) → r.1.linkState = .normal ∧
    Loses Soft (f.pending ++ [value]) (r.2 ++ r.1.pending)

theorem pending_normal (h : f.linkState = .normal) :
    f.pending = List.replicate f.stars '*' ++ if f.escaped then ['\\'] else [] := by
  simp [TextFilter.pending, h]

theorem stays_of {r : Written} (hl : r.1.linkState = .normal) (hs : r.1.stars = 0)
    (he : r.1.escaped = false) (h : Loses Soft (f.pending ++ [value]) r.2) :
    r.1.linkState = .normal ∧ Loses Soft (f.pending ++ [value]) (r.2 ++ r.1.pending) := by
  refine ⟨hl, ?_⟩
  simpa [pending_normal hl, hs, he] using h

theorem writePlainRune_spec (u : Tables) (value : Char) (hn : f.linkState = .normal) :
    Plain f value (writePlainRune u f value) := by
  obtain ⟨hsame, hzero, -⟩ := flushStars_spec u f value false
  have hloses := flushStars_loses u f value false
  have hpend := pending_normal hn
  unfold writePlainRune
  split
  case isTrue hesc =>
    have hwritten : Loses Soft (f.pending ++ [value]) ((flushStars u f value false).2 ++
        ((if isMarkdownEscape value then [] else ['\\']) ++ [value])) := by
      rw [hpend, if_pos hesc, List.append_assoc]
      refine hloses.append ?_
      split
      · exact .drop (.punct (by decide)) (.refl _)
      · exact .refl _
    split
    case isTrue hm =>
      have hs : SameText f (emitRune u (flushStars u f value false).1 value).1 :=
        hsame.trans emitRune_same
      refine ⟨⟨hs.1, hs.2, hs.3⟩, hs.linkDepth, hs.linkLabel, hs.linkTarget, by simp [hesc], nofun,
        fun _ h => by simp [hesc] at h, fun _ => stays_of (hs.linkState.trans hn) hzero rfl ?_⟩
      simpa [hm] using hwritten
    case isFalse hm =>
      have hs : SameText f
          (emitRune u (emitRune u (flushStars u f value false).1 '\\').1 value).1 :=
        hsame.trans (emitRune_same.trans emitRune_same)
      refine ⟨⟨hs.1, hs.2, hs.3⟩, hs.linkDepth, hs.linkLabel, hs.linkTarget, by simp [hesc], nofun,
        fun _ h => by simp [hesc] at h, fun _ => stays_of (hs.linkState.trans hn) hzero rfl ?_⟩
      simpa [hm] using hwritten
  case isFalse hesc =>
    rw [if_neg hesc, List.append_nil] at hpend
    have hne : f.escaped = false := by simpa using hesc
    have hout : Loses Soft (f.pending ++ [value]) ((flushStars u f value false).2 ++ [value]) := by
      rw [hpend]
      exact hloses.append (.refl _)
    split
    case isTrue hv =>
      refine ⟨⟨hsame.1, hsame.2, hsame.3⟩, hsame.linkDepth, hsame.linkLabel, hsame.linkTarget,
        by simp [hv, hne], fun _ => hzero, fun h => by simp [hv] at h,
        fun _ => ⟨hsame.linkState.trans hn, ?_⟩⟩
      subst hv
      simpa [TextFilter.pending, hsame.linkState, hn, hzero] using hout
    split
    case isTrue hv hb =>
      exact ⟨⟨hsame.1, hsame.2, hsame.3⟩, hsame.linkDepth, hsame.linkLabel, hsame.linkTarget,
        by simpa [hv] using hsame.escaped.trans hne, fun _ => hzero,
        fun _ _ => ⟨rfl, rfl, hzero, by simpa using hloses⟩, fun h => absurd (h hb) hesc⟩
    split
    case isTrue hv hb ht =>
      refine ⟨hsame.line, hsame.linkDepth, hsame.linkLabel, hsame.linkTarget,
        by simp [hv, hne, hsame.escaped], fun _ => hzero, fun h => absurd h hb,
        fun _ => stays_of (hsame.linkState.trans hn) hzero (hsame.escaped.trans hne) ?_⟩
      subst ht
      rw [hpend]
      simpa using hloses.append (.drop (.punct (by decide)) .nil : Loses Soft [backtick] [])
    split
    case isTrue hv hb ht hstar =>
      refine ⟨⟨rfl, rfl, rfl⟩, rfl, rfl, rfl, by simp [hv, hne], fun h => by simp [hne] at h,
        fun h => absurd h hb, fun _ => ⟨hn, ?_⟩⟩
      subst hstar
      rw [hpend]
      simpa [TextFilter.pending, hn, hne, List.replicate_succ'] using
        Loses.refl (List.replicate f.stars '*' ++ ['*'])
    case isFalse hv hb ht hstar =>
      have hs : SameText f (emitRune u (flushStars u f value false).1 value).1 :=
        hsame.trans emitRune_same
      exact ⟨⟨hs.1, hs.2, hs.3⟩, hs.linkDepth, hs.linkLabel, hs.linkTarget,
        by simp [hv, hne, hs.escaped], fun _ => hzero, fun h => absurd h hb,
        fun _ => stays_of (hs.linkState.trans hn) hzero (hs.escaped.trans hne) (by simpa using hout)⟩

/-- A text without `[` outside a link. -/
structure PlainText (f : TextFilter) (text : List Char) (r : Written) : Prop where
  line : SameLine f r.1
  linkState : r.1.linkState = .normal
  linkLabel : r.1.linkLabel = f.linkLabel
  linkTarget : r.1.linkTarget = f.linkTarget
  stars : (f.escaped = true → f.stars = 0) → r.1.escaped = true → r.1.stars = 0
  loses : Loses Soft (f.pending ++ text) (r.2 ++ r.1.pending)

theorem each_writePlainRune (u : Tables) (hn : f.linkState = .normal) (htext : '[' ∉ text) :
    PlainText f text (each (writePlainRune u) f text) := by
  induction text generalizing f with
  | nil => exact ⟨.refl, hn, rfl, rfl, id, by simpa using Loses.refl f.pending⟩
  | cons value text ih =>
    have hvalue : value ≠ '[' := fun h => htext (by simp [h])
    have head := writePlainRune_spec u value hn
    obtain ⟨hnormal, hloses⟩ := head.stays fun h => absurd h hvalue
    have tail := ih hnormal fun h => htext (List.mem_cons_of_mem _ h)
    refine ⟨head.line.trans tail.line, tail.linkState, tail.linkLabel.trans head.linkLabel,
      tail.linkTarget.trans head.linkTarget, fun _ => tail.stars head.stars, ?_⟩
    have hhead := hloses.append (Loses.refl (p := Soft) text)
    have htail := (Loses.refl (p := Soft) (writePlainRune u f value).2).append tail.loses
    simp only [List.append_assoc, List.singleton_append] at hhead
    simpa using hhead.trans htail

theorem writeInlineRune_line (u : Tables) (f : TextFilter) (value : Char) :
    SameLine f (writeInlineRune u f value).1 := by
  unfold writeInlineRune
  split
  case h_1 hn => exact (writePlainRune_spec u value hn).line
  case h_2 =>
    repeat' split
    all_goals exact ⟨rfl, rfl, rfl⟩
  case h_3 =>
    split
    · exact ⟨rfl, rfl, rfl⟩
    simp only [andThen_fst]
    refine .trans ?_ (writePlainRune_spec u value ?_).line
    · exact ⟨rfl, rfl, rfl⟩
    · rfl
  case h_4 =>
    split
    · exact ⟨rfl, rfl, rfl⟩
    split
    case isFalse => exact ⟨rfl, rfl, rfl⟩
    split
    case isFalse => exact ⟨rfl, rfl, rfl⟩
    refine .trans ?_ (each_writePlainRune u ?_ ?_).line
    · exact ⟨rfl, rfl, rfl⟩
    · rfl
    · simp

end BoomPI.Speech
