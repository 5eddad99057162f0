import BoomPI.Server.Speech.Inline

/-!
# Links across runes

`Settled` is what the filter owes between two runes of a line: what it wrote and
what it holds back is the text without runes it may drop, and an open link stands
whole in what it holds back. A target goes only when its link completes.
-/

namespace BoomPI.Speech

open Thinning (Loses Thins Persists)

variable {u : Tables} {f : TextFilter} {value opening closing c : Char}
  {input out pre post more text label target : List Char} {depth : Nat}

/-- The depth behind the text, unless it closes more than was open. -/
def depthAfter (opening closing : Char) : Nat → List Char → Option Nat
  | depth, [] => some depth
  | depth, c :: text =>
    if c = opening then depthAfter opening closing (depth + 1) text
    else if c = closing then
      match depth with
      | 0 => none
      | depth + 1 => depthAfter opening closing depth text
    else depthAfter opening closing depth text

def Balanced (opening closing : Char) (text : List Char) : Prop :=
  depthAfter opening closing 0 text = some 0

def escapes (text : List Char) : Bool := text.foldl (fun odd c => c = '\\' && !odd) false

/-- A closing parenthesis with backslashes behind it at most. -/
def AfterParen (text : List Char) : Prop :=
  ∃ front k, text = front ++ ')' :: List.replicate k '\\'

/-- What comes next stands unescaped. A parenthesis that closed a link may have let out a
label with a backslash at its end. -/
def Unescaped (text : List Char) : Prop := escapes text = false ∨ AfterParen text

/-- The rune stands in the target of a completed `[label](target)`. -/
def InTarget (pre : List Char) (c : Char) (post : List Char) : Prop :=
  ∃ front label before behind back, pre = front ++ '[' :: label ++ ']' :: '(' :: before ∧
    post = behind ++ ')' :: back ∧ Unescaped front ∧ Balanced '[' ']' label ∧
    Balanced '(' ')' (before ++ c :: behind)

/-- A line whose first runes behind blanks are a fence. -/
def FenceLine (line : List Char) : Prop := fence <+: line.dropWhile isBlank

def lastLine (text : List Char) : List Char :=
  (text.reverse.takeWhile fun c => !isNewline c).reverse

def firstLine (text : List Char) : List Char := text.takeWhile fun c => !isNewline c

def OnFenceLine (pre : List Char) (c : Char) (post : List Char) : Prop :=
  FenceLine (lastLine pre ++ c :: firstLine post)

/-- What the filter may take out of the text. -/
def Droppable (pre : List Char) (c : Char) (post : List Char) : Prop :=
  Soft c ∨ OnFenceLine pre c post ∨ InTarget pre c post

-- ---------------------------------------------------------------------------
-- Depths and backslashes
-- ---------------------------------------------------------------------------

theorem depthAfter_append (opening closing : Char) (depth : Nat) (text more : List Char) :
    depthAfter opening closing depth (text ++ more) =
      (depthAfter opening closing depth text).bind fun depth =>
        depthAfter opening closing depth more := by
  induction text generalizing depth with
  | nil => rfl
  | cons c text ih =>
    simp only [List.cons_append, depthAfter]
    split
    · exact ih _
    split
    · cases depth with
      | zero => rfl
      | succ depth => exact ih _
    · exact ih _

theorem depthAfter_opening (h : depthAfter opening closing 0 text = some depth) :
    depthAfter opening closing 0 (text ++ [opening]) = some (depth + 1) := by
  simp [depthAfter_append, h, depthAfter]

theorem depthAfter_closing (hne : closing ≠ opening)
    (h : depthAfter opening closing 0 text = some (depth + 1)) :
    depthAfter opening closing 0 (text ++ [closing]) = some depth := by
  simp [depthAfter_append, h, depthAfter, hne]

theorem depthAfter_other (ho : c ≠ opening) (hc : c ≠ closing)
    (h : depthAfter opening closing 0 text = some depth) :
    depthAfter opening closing 0 (text ++ [c]) = some depth := by
  simp [depthAfter_append, h, depthAfter, ho, hc]

@[simp] theorem escapes_append_singleton (text : List Char) (c : Char) :
    escapes (text ++ [c]) = (c = '\\' && !escapes text) := by
  simp [escapes]

theorem AfterParen.append_backslash (h : AfterParen text) : AfterParen (text ++ ['\\']) := by
  obtain ⟨front, k, rfl⟩ := h
  exact ⟨front, k + 1, by simp [List.replicate_succ']⟩

theorem afterParen_paren (text : List Char) : AfterParen (text ++ [')']) := ⟨text, 0, by simp⟩

def Escapes (input : List Char) (escaped : Bool) : Prop :=
  escaped = escapes input ∨ AfterParen input

theorem Escapes.append (h : Escapes input f.escaped) (value : Char) :
    Escapes (input ++ [value]) (!f.escaped && value = '\\') := by
  by_cases hv : value = '\\'
  · subst hv
    rcases h with h | h
    · exact .inl (by simp [h])
    · exact .inr h.append_backslash
  · exact .inl (by simp [hv])

theorem Escapes.unescaped (h : Escapes input f.escaped) (hf : f.escaped = false) :
    Unescaped input := h.imp (fun h => h.symm.trans hf) id

-- ---------------------------------------------------------------------------
-- Droppable runes
-- ---------------------------------------------------------------------------

theorem dropWhile_append_of_prefix (p : Char → Bool) {l : List Char} (hl : l ≠ [])
    (h : l <+: text.dropWhile p) (more : List Char) : l <+: (text ++ more).dropWhile p := by
  induction text with
  | nil => exact absurd (List.prefix_nil.mp h) hl
  | cons c text ih =>
    simp only [List.cons_append, List.dropWhile_cons] at h ⊢
    split
    case isTrue hc => exact ih (by simpa [hc] using h)
    case isFalse hc =>
      simp only [hc] at h
      exact h.trans (List.prefix_append (c :: text) more)

theorem FenceLine.append (h : FenceLine text) (more : List Char) : FenceLine (text ++ more) :=
  dropWhile_append_of_prefix isBlank (by simp [fence]) h more

theorem firstLine_append (text more : List Char) :
    ∃ rest, firstLine (text ++ more) = firstLine text ++ rest := by
  induction text with
  | nil => exact ⟨firstLine more, rfl⟩
  | cons c text ih =>
    obtain ⟨rest, ih⟩ := ih
    unfold firstLine at ih ⊢
    simp only [List.cons_append, List.takeWhile_cons]
    split
    · exact ⟨rest, by simp [ih]⟩
    · exact ⟨[], rfl⟩

theorem droppable_persists : Persists Droppable := by
  rintro pre c post more (h | h | h)
  · exact .inl h
  · obtain ⟨rest, hrest⟩ := firstLine_append post more
    refine .inr (.inl ?_)
    simpa [OnFenceLine, hrest] using h.append rest
  · obtain ⟨front, label, before, behind, back, hpre, hpost, h⟩ := h
    exact .inr (.inr ⟨front, label, before, behind, back ++ more, hpre, by simp [hpost], h⟩)

theorem droppable_of_soft (pre : List Char) (c : Char) (post : List Char) (h : Soft c) :
    Droppable pre c post := .inl h

theorem thins_target (front : List Char) (hfront : Unescaped front) (hlabel : Balanced '[' ']' label)
    (before : List Char) (htarget : Balanced '(' ')' (before ++ target)) :
    Thins Droppable (front ++ '[' :: label ++ ']' :: '(' :: before) (target ++ [')']) [] := by
  induction target generalizing before with
  | nil => exact .drop (.inl (.punct (by decide))) .nil
  | cons c target ih =>
    refine .drop (.inr (.inr ⟨front, label, before, target, [], rfl, rfl, hfront, hlabel, htarget⟩)) ?_
    simpa using ih (before ++ [c]) (by simpa using htarget)

-- ---------------------------------------------------------------------------
-- Between two runes of a line
-- ---------------------------------------------------------------------------

inductive InLink (f : TextFilter) : Prop
  | label (depth : Nat) (linkState : f.linkState = .linkLabel)
      (opened : depthAfter '[' ']' 0 f.linkLabel = some depth)
      (linkLabelDepth : f.linkLabelDepth = depth + 1) (linkTarget : f.linkTarget = [])
  | after (linkState : f.linkState = .afterLinkLabel) (linkLabel : Balanced '[' ']' f.linkLabel)
      (linkTarget : f.linkTarget = [])
  | target (depth : Nat) (linkState : f.linkState = .linkTarget)
      (linkLabel : Balanced '[' ']' f.linkLabel)
      (opened : depthAfter '(' ')' 0 f.linkTarget = some depth)
      (linkDepth : f.linkDepth = depth + 1)

inductive Settled (input out : List Char) (f : TextFilter) : Prop
  | normal (linkState : f.linkState = .normal) (linkLabel : f.linkLabel = [])
      (linkTarget : f.linkTarget = []) (stars : f.escaped = true → f.stars = 0)
      (escaped : Escapes input f.escaped) (thins : Thins Droppable [] input (out ++ f.pending))
  | link (base : List Char) (builders : InLink f) (stars : f.stars = 0)
      (escaped : f.escaped = false) (held : input = base ++ f.pending) (front : Unescaped base)
      (thins : Thins Droppable [] base out)

theorem Thins.soft {pre l out out' : List Char} (h : Thins Droppable pre l out)
    (hl : Loses Soft out out') : Thins Droppable pre l out' := h.loses droppable_of_soft hl

theorem Settled.thins (h : Settled input out f) : Thins Droppable [] input (out ++ f.pending) := by
  cases h with
  | normal _ _ _ _ _ thins => exact thins
  | link base _ _ _ held _ thins =>
    rw [held]
    exact thins.append droppable_persists (.refl _ _)

theorem Settled.plain (linkState : f.linkState = .normal) (linkLabel : f.linkLabel = [])
    (linkTarget : f.linkTarget = []) (escaped : Escapes input f.escaped)
    (thins : Thins Droppable [] input (out ++ f.pending)) (value : Char) :
    Settled (input ++ [value]) (out ++ (writePlainRune u f value).2) (writePlainRune u f value).1 := by
  have step := writePlainRune_spec u value linkState
  by_cases hopens : value = '[' ∧ f.escaped = false
  · obtain ⟨rfl, hescaped⟩ := hopens
    obtain ⟨hstate, hdepth, hstars, hloses⟩ := step.opens rfl hescaped
    have hpending : (writePlainRune u f '[').1.pending = ['['] := by
      simp [TextFilter.pending, hstate, step.linkLabel, linkLabel]
    refine .link input (.label 0 hstate ?_ hdepth ?_) hstars ?_ (by rw [hpending])
      (escaped.unescaped hescaped) (Thins.soft thins ?_)
    · simp [step.linkLabel, linkLabel, depthAfter]
    · simp [step.linkTarget, linkTarget]
    · simp [step.escaped, hescaped]
    · simpa [pending_normal linkState, hescaped] using (Loses.refl out).append hloses
  · obtain ⟨hstate, hloses⟩ := step.stays fun h => by simpa [h] using hopens
    refine .normal hstate (step.linkLabel.trans linkLabel) (step.linkTarget.trans linkTarget)
      step.stars (step.escaped ▸ escaped.append value) ?_
    have hall := thins.append droppable_persists (.refl _ [value])
    refine Thins.soft hall ?_
    simpa using (Loses.refl out).append hloses

theorem Settled.grow {g : TextFilter} {base : List Char} (builders : InLink g) (stars : g.stars = 0)
    (escaped : g.escaped = false) (held : input = base ++ f.pending)
    (pending : g.pending = f.pending ++ [value]) (front : Unescaped base)
    (thins : Thins Droppable [] base out) : Settled (input ++ [value]) (out ++ []) g :=
  .link base builders stars escaped (by simp [held, pending]) front (by simpa using thins)

/-- The label of a completed link is let out, its target is not. -/
theorem Settled.complete {base : List Char} (linkState : f.linkState = .linkTarget)
    (linkLabel : Balanced '[' ']' f.linkLabel) (linkTarget : Balanced '(' ')' f.linkTarget)
    (stars : f.stars = 0) (escaped : f.escaped = false) (held : input = base ++ f.pending)
    (front : Unescaped base) (thins : Thins Droppable [] base out)
    {g : TextFilter} (hstate : g.linkState = .normal) (hlabel : g.linkLabel = [])
    (htarget : g.linkTarget = []) (hstars : g.stars = f.stars) (hescaped : g.escaped = f.escaped) :
    let r := each (writePlainRune u) g (f.linkLabel.filter fun c => c ≠ '[' ∧ c ≠ ']')
    Settled (input ++ [')']) (out ++ r.2) r.1 := by
  intro r
  have text : PlainText g _ r := each_writePlainRune u hstate (by simp)
  have hpending : g.pending = [] := by
    simp [pending_normal hstate, hstars, stars, hescaped, escaped]
  have hspoken : Loses Soft f.linkLabel (r.2 ++ r.1.pending) := by
    refine (Loses.filter (fun c => c ≠ '[' ∧ c ≠ ']') fun c _ hc => ?_).trans
      (by simpa [hpending] using text.loses)
    have : c = '[' ∨ c = ']' := by simpa [Classical.not_not, or_iff_not_imp_left] using hc
    rcases this with rfl | rfl <;> exact .punct (by decide)
  have hlink : Loses Soft ('[' :: f.linkLabel ++ "](".toList) (r.2 ++ r.1.pending) := by
    have hend : Loses Soft "](".toList [] := .drop (.punct (by decide)) (.drop (.punct (by decide)) .nil)
    simpa using (Loses.drop (.punct (by decide)) hspoken : Loses Soft ('[' :: f.linkLabel) _).append hend
  refine .normal text.linkState (text.linkLabel.trans hlabel) (text.linkTarget.trans htarget)
    (text.stars fun _ => hstars.trans stars) (.inr (afterParen_paren input)) ?_
  have hall := thins.append droppable_persists ((Thins.soft (.refl base _) hlink).append
    droppable_persists (by
      simpa using thins_target base front linkLabel [] (by simpa using linkTarget)))
  simpa [held, TextFilter.pending, linkState] using hall

theorem Settled.step (h : Settled input out f) (value : Char) :
    Settled (input ++ [value]) (out ++ (writeInlineRune u f value).2) (writeInlineRune u f value).1 := by
  cases h with
  | normal linkState linkLabel linkTarget _ escaped thins =>
    simpa only [writeInlineRune, linkState] using
      Settled.plain (u := u) linkState linkLabel linkTarget escaped thins value
  | link base builders stars escaped held front thins =>
    cases builders with
    | label depth linkState opened linkLabelDepth linkTarget =>
      simp only [writeInlineRune, linkState]
      split
      case isTrue hv =>
        subst hv
        refine .grow (.label _ rfl (depthAfter_opening opened) ?_ linkTarget) stars escaped held ?_
          front thins
        · simp [linkLabelDepth]
        · simp [TextFilter.pending, linkState]
      split
      case isTrue ho hc =>
        refine .grow (.label _ rfl (depthAfter_other ho hc opened) linkLabelDepth linkTarget) stars
          escaped held ?_ front thins
        simp [TextFilter.pending, linkState]
      case isFalse ho hc =>
        obtain rfl : value = ']' := by simpa using hc
        cases depth with
        | zero =>
          rw [if_neg (by simp [linkLabelDepth])]
          refine .grow (.after rfl opened linkTarget) stars escaped held ?_ front thins
          simp [TextFilter.pending, linkState]
        | succ depth =>
          rw [if_pos (by simp [linkLabelDepth])]
          refine .grow (.label _ rfl (depthAfter_closing (by decide) opened) ?_ linkTarget) stars
            escaped held ?_ front thins
          · simp [linkLabelDepth]
          · simp [TextFilter.pending, linkState]
    | after linkState linkLabel linkTarget =>
      simp only [writeInlineRune, linkState]
      split
      case isTrue hv =>
        subst hv
        refine .grow (.target 0 rfl linkLabel ?_ rfl) stars escaped held ?_ front thins
        · simp [linkTarget, depthAfter]
        · simp [TextFilter.pending, linkState, linkTarget]
      case isFalse =>
        -- the label stood for itself: it is let out, and the rune is one outside a link
        have hin : input = base ++ '[' :: f.linkLabel ++ [']'] := by
          simp [held, TextFilter.pending, linkState]
        have hall : Thins Droppable [] input (out ++ '[' :: f.linkLabel ++ [']']) := by
          have := thins.append droppable_persists (.refl _ ('[' :: f.linkLabel ++ [']']))
          simpa [hin] using this
        have plain : Settled (input ++ [value]) (out ++ '[' :: f.linkLabel ++ [']'] ++ _) _ :=
          .plain (f := (emitRune u (emitRune u { f with linkLabel := [], linkState := .normal } '[').1 ']').1)
            (u := u) rfl rfl linkTarget (.inl ?_) ?_ value
        · simpa using plain
        · simp only [hin, escapes_append_singleton]
          simp [emitRune, escaped]
        · simpa [TextFilter.pending, emitRune, stars, escaped] using hall
    | target depth linkState linkLabel opened linkDepth =>
      simp only [writeInlineRune, linkState]
      split
      case isTrue hv =>
        subst hv
        refine .grow (.target _ rfl linkLabel (depthAfter_opening opened) ?_) stars escaped held ?_
          front thins
        · simp [linkDepth]
        · simp [TextFilter.pending, linkState]
      split
      case isTrue ho hc =>
        subst hc
        cases depth with
        | zero =>
          rw [if_pos (by simp [linkDepth])]
          exact .complete linkState linkLabel opened stars escaped held front thins rfl rfl rfl rfl rfl
        | succ depth =>
          rw [if_neg (by simp [linkDepth])]
          refine .grow (.target _ rfl linkLabel (depthAfter_closing (by decide) opened) ?_) stars
            escaped held ?_ front thins
          · simp [linkDepth]
          · simp [TextFilter.pending, linkState]
      case isFalse ho hc =>
        refine .grow (.target _ rfl linkLabel (depthAfter_other ho hc opened) linkDepth) stars escaped
          held ?_ front thins
        simp [TextFilter.pending, linkState]

theorem Settled.steps (h : Settled input out f) (text : List Char) :
    Settled (input ++ text) (out ++ (writeInlineText u f text).2) (writeInlineText u f text).1 := by
  induction text generalizing input out f with
  | nil => simpa [writeInlineText] using h
  | cons value text ih => simpa [writeInlineText] using ih (h.step value)

end BoomPI.Speech
