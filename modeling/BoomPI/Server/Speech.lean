import Mathlib.Algebra.Order.Ring.Nat
import Mathlib.Data.List.Basic

/-!
# The text the synthesizer speaks

`tts_text.go`, with the splitting in `streamingTTSFragments` and the sending in
`writeServerCommitText`: an answer comes as deltas, each is cut into fragments,
and a filter takes the Markdown out of them before they are sent. A text is a
list of runes; a function that writes to a `strings.Builder` returns what it
wrote.
-/

namespace BoomPI.Speech

/-- The tables of package `unicode`. -/
structure Tables where
  isSpace : Char → Bool
  isPunct : Char → Bool
  isDigit : Char → Bool

inductive LinkState
  | normal
  | linkLabel
  | afterLinkLabel
  | linkTarget
  deriving DecidableEq, Repr

/-- `ttsTextFilter`; `linePrefix` is its `prefix`. -/
structure TextFilter where
  lineStart : Bool := true
  skipLine : Bool := false
  escaped : Bool := false
  stars : Nat := 0
  starBoundary : Bool := false
  emphasisStars : Nat := 0
  boundary : Bool := true
  linkState : LinkState := .normal
  linkDepth : Nat := 0
  linkLabelDepth : Nat := 0
  linePrefix : List Char := []
  linkLabel : List Char := []
  linkTarget : List Char := []
  lastNonSpace : Char := '\x00'
  deriving DecidableEq, Repr

abbrev Written := TextFilter × List Char

def Written.andThen (r : Written) (k : TextFilter → Written) : Written :=
  ((k r.1).1, r.2 ++ (k r.1).2)

def each (step : TextFilter → Char → Written) : TextFilter → List Char → Written
  | f, [] => (f, [])
  | f, value :: text => (step f value).andThen fun f => each step f text

def backtick : Char := '\x60'

def isNewline (value : Char) : Bool := value = '\n' || value = '\r'

def isBlank (value : Char) : Bool := value = ' ' || value = '\t'

def isMarkdownEscape (value : Char) : Bool :=
  "!\"#$%&'()*+,-./:;<=>?@[\\]^_`\x7b|\x7d~".toList.contains value

def isTTSLinePrefixRune (value : Char) : Bool :=
  ('0' ≤ value && value ≤ '9') || " \t#>-+*`.)".toList.contains value

-- ---------------------------------------------------------------------------
-- The line prefix
-- ---------------------------------------------------------------------------

/-- One of `>+`, `#{1,6}`, `[-*+]` and `[0-9]+[.)]`: what is left behind it. -/
def linePrefixMark (text : List Char) : Option (List Char) :=
  match text with
  | [] => none
  | value :: rest =>
    if value = '>' then some (rest.dropWhile (· = '>'))
    else if value = '#' then
      if (text.takeWhile (· = '#')).length ≤ 6 then some (rest.dropWhile (· = '#')) else none
    else if value = '-' ∨ value = '*' ∨ value = '+' then some rest
    else if value.isDigit then
      match rest.dropWhile Char.isDigit with
      | stop :: rest => if stop = '.' ∨ stop = ')' then some rest else none
      | [] => none
    else none

/-- A mark with the blanks behind it. -/
def linePrefixGroup (text : List Char) : Option (List Char) :=
  (linePrefixMark text).bind fun rest =>
    match rest with
    | value :: rest => if isBlank value then some (rest.dropWhile isBlank) else none
    | [] => none

/-- `ttsLinePrefix.ReplaceAllString(text, "")`: the groups at the start of the text are
taken off, each at least two runes long. -/
def replaceLinePrefix : Nat → List Char → List Char
  | 0, text => text
  | fuel + 1, text =>
    match linePrefixGroup text with
    | some rest => replaceLinePrefix fuel rest
    | none => text

-- ---------------------------------------------------------------------------
-- Runes
-- ---------------------------------------------------------------------------

section

variable (u : Tables)

def emitRune (f : TextFilter) (value : Char) : Written :=
  ({ f with
      boundary := u.isSpace value || u.isPunct value
      lastNonSpace := if u.isSpace value then f.lastNonSpace else value }, [value])

def flushStars (f : TextFilter) (next : Char) (atEnd : Bool) : Written :=
  if f.stars = 0 then (f, [])
  else
    let r : Written :=
      if f.emphasisStars ≠ 0 ∧ f.stars = f.emphasisStars then ({ f with emphasisStars := 0 }, [])
      else if f.emphasisStars = 0 ∧ f.starBoundary ∧ ¬ atEnd ∧ ¬ u.isSpace next ∧ f.stars ≤ 3 ∧
          ¬ (u.isDigit f.lastNonSpace ∧ u.isDigit next) then
        ({ f with emphasisStars := f.stars }, [])
      else each (emitRune u) f (List.replicate f.stars '*')
    ({ r.1 with stars := 0 }, r.2)

/-- `writeInlineRune` outside a link. -/
def writePlainRune (f : TextFilter) (value : Char) : Written :=
  if f.escaped then
    ((flushStars u f value false).andThen fun f =>
      (if isMarkdownEscape value then (f, []) else emitRune u f '\\' : Written).andThen fun f =>
        emitRune u f value).andThen fun f => ({ f with escaped := false }, [])
  else if value = '\\' then
    (flushStars u f value false).andThen fun f => ({ f with escaped := true }, [])
  else if value = '[' then
    (flushStars u f value false).andThen fun f =>
      ({ f with linkState := .linkLabel, linkLabelDepth := 1 }, [])
  else if value = backtick then flushStars u f value false
  else if value = '*' then
    ({ f with
        starBoundary := if f.stars = 0 then f.boundary else f.starBoundary
        stars := f.stars + 1 }, [])
  else (flushStars u f value false).andThen fun f => emitRune u f value

/-- `writeInlineRune`. The label of a completed link goes through `writeInlineText`; with
its brackets taken out it cannot begin another link, so each of its runes is plain. -/
def writeInlineRune (f : TextFilter) (value : Char) : Written :=
  match f.linkState with
  | .normal => writePlainRune u f value
  | .linkLabel =>
    if value = '[' then
      ({ f with linkLabelDepth := f.linkLabelDepth + 1, linkLabel := f.linkLabel ++ [value] }, [])
    else if value ≠ ']' then ({ f with linkLabel := f.linkLabel ++ [value] }, [])
    else if 1 < f.linkLabelDepth then
      ({ f with linkLabelDepth := f.linkLabelDepth - 1, linkLabel := f.linkLabel ++ [value] }, [])
    else ({ f with linkState := .afterLinkLabel }, [])
  | .afterLinkLabel =>
    if value = '(' then ({ f with linkState := .linkTarget, linkDepth := 1 }, [])
    else
      let label := f.linkLabel
      (((emitRune u { f with linkLabel := [], linkState := .normal } '[').andThen fun f =>
        (f, label)).andThen fun f => emitRune u f ']').andThen fun f => writePlainRune u f value
  | .linkTarget =>
    if value = '(' then
      ({ f with linkDepth := f.linkDepth + 1, linkTarget := f.linkTarget ++ [value] }, [])
    else if value = ')' then
      if f.linkDepth - 1 = 0 then
        each (writePlainRune u)
          { f with linkDepth := 0, linkLabel := [], linkTarget := [], linkState := .normal }
          (f.linkLabel.filter fun c => c ≠ '[' ∧ c ≠ ']')
      else ({ f with linkDepth := f.linkDepth - 1, linkTarget := f.linkTarget ++ [value] }, [])
    else ({ f with linkTarget := f.linkTarget ++ [value] }, [])

def writeInlineText (f : TextFilter) (text : List Char) : Written := each (writeInlineRune u) f text

def flushPrefix (f : TextFilter) : Written :=
  (if f.linePrefix ≠ [] then
    let text := f.linePrefix.dropWhile isBlank
    (writeInlineText u f (replaceLinePrefix text.length text)).andThen fun f =>
      ({ f with linePrefix := [] }, [])
  else (f, []) : Written).andThen fun f => ({ f with lineStart := false }, [])

def fence : List Char := [backtick, backtick, backtick]

/-- `writeRune` behind the line prefix. -/
def writeLineRune (f : TextFilter) (value : Char) : Written :=
  (writeInlineRune u f value).andThen fun f =>
    (if isNewline value ∧ f.linkState = .normal then { f with lineStart := true } else f, [])

def writeRune (f : TextFilter) (value : Char) : Written :=
  if f.skipLine then
    (if isNewline value then { f with skipLine := false, lineStart := true } else f, [])
  else if f.lineStart ∧ f.linkState = .normal ∧ ¬ f.escaped then
    if isTTSLinePrefixRune value then
      let f := { f with linePrefix := f.linePrefix ++ [value] }
      if fence.isPrefixOf (f.linePrefix.dropWhile isBlank) then
        ({ f with linePrefix := [], skipLine := true, lineStart := false }, [])
      else (f, [])
    else (flushPrefix u f).andThen fun f => writeLineRune u f value
  else writeLineRune u f value

def write (f : TextFilter) (text : List Char) : Written := each (writeRune u) f text

def finish (f : TextFilter) : List Char :=
  ((flushPrefix u f).andThen fun f =>
    (f, if f.linkState = .normal then []
      else ['['] ++ f.linkLabel ++ (if f.linkState = .linkLabel then [] else [']']) ++
        if f.linkState = .linkTarget then '(' :: f.linkTarget else [])).andThen (fun f =>
    (if f.escaped then emitRune u f '\\' else (f, []) : Written)) |>.andThen (fun f =>
    flushStars u f '\x00' true) |>.2

end

end BoomPI.Speech
