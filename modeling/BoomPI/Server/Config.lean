import BoomPI.GoText

/-!
# Scalars of the configuration file

`parseScalar`: what stands behind a key, with a comment stripped from it. The
stripping looks for quotes everywhere in a value, the parsing only in front of it.
-/

namespace BoomPI.Config

open GoText (Text isSpace trimSpace trimRight quote unquote)
open Utf8 (encode)

-- ---------------------------------------------------------------------------
-- Comments
-- ---------------------------------------------------------------------------

inductive Quote
  | none
  | single
  | double
  deriving DecidableEq, Repr

/-- The variables of the loop. -/
structure Scan where
  quote : Quote := .none
  escaped : Bool := false
  previous : Option Char := none
  deriving DecidableEq, Repr

def Scan.step (s : Scan) (current : Char) : Scan :=
  match s.quote with
  | .double =>
    if s.escaped then { s with escaped := false, previous := some current }
    else if current = '\\' then { s with escaped := true, previous := some current }
    else if current = '"' then { s with quote := .none, previous := some current }
    else { s with previous := some current }
  | .single =>
    if current = '\'' then { s with quote := .none, previous := some current }
    else { s with previous := some current }
  | .none =>
    if current = '\'' then { s with quote := .single, previous := some current }
    else if current = '"' then { s with quote := .double, previous := some current }
    else { s with previous := some current }

def Scan.comment (s : Scan) (current : Char) : Bool :=
  s.quote = .none && current = '#' && s.previous.all isSpace

def stripFrom (s : Scan) : Text → Except String Text
  | [] => if s.quote = .none then .ok [] else .error "unterminated quoted scalar"
  | current :: rest =>
    if s.comment current then .ok []
    else (stripFrom (s.step current) rest).map (current :: ·)

def stripInlineComment (value : Text) : Except String Text := stripFrom {} value

-- ---------------------------------------------------------------------------
-- Scalars
-- ---------------------------------------------------------------------------

/-- `strings.ReplaceAll(s, "''", "'")` -/
def replaceQuotes : Text → Text
  | [] => []
  | '\'' :: '\'' :: rest => '\'' :: replaceQuotes rest
  | c :: rest => c :: replaceQuotes rest

def special : List Char := ['[', ']', '{', '}', '&', '*', '!', '|', '>']

/-- `parseScalar` once the comment is off; the bytes of the scalar. -/
def parseValue (value : Text) : Except String (List UInt8) :=
  match value with
  | [] => .error "value is empty"
  | '"' :: _ =>
    match unquote value with
    | some parsed => .ok parsed
    | none => .error "invalid double-quoted scalar"
  | '\'' :: inner =>
    if inner.getLast? = some '\'' then .ok (encode (replaceQuotes inner.dropLast))
    else .error "invalid single-quoted scalar"
  | _ =>
    if value.any fun c => c ∈ special then .error "only plain or quoted scalar values are supported"
    else .ok (encode value)

def parseScalar (raw : Text) : Except String (List UInt8) := do
  parseValue (trimSpace (← stripInlineComment (trimSpace raw)))

-- ---------------------------------------------------------------------------
-- Written forms
-- ---------------------------------------------------------------------------

/-- A value as it is written, with a comment behind it or without. -/
def written (form : Text) : Option Text → Text
  | none => form
  | some comment => form ++ ' ' :: '#' :: ' ' :: comment

def single (s : Text) : Text :=
  '\'' :: (s.flatMap (fun c => if c = '\'' then ['\'', '\''] else [c]) ++ ['\''])

structure Plain (s : Text) : Prop where
  nonempty : s ≠ []
  trimmed : trimSpace s = s
  head : ∀ c ∈ s.head?, c ≠ '\'' ∧ c ≠ '"' ∧ c ≠ '#'
  special : ∀ c ∈ s, c ∉ special
  noComment : ∀ before blank behind, s = before ++ blank :: '#' :: behind → isSpace blank = false

/-- Inside of double quotes: a backslash takes the next character with it. -/
inductive Escaped : Text → Prop
  | nil : Escaped []
  | plain {c : Char} {s : Text} (hquote : c ≠ '"') (hslash : c ≠ '\\') (h : Escaped s) : Escaped (c :: s)
  | pair (c : Char) {s : Text} (h : Escaped s) : Escaped ('\\' :: c :: s)

inductive Closed : Text → Prop
  | nil : Closed []
  | plain {c : Char} {s : Text} (hsingle : c ≠ '\'') (hdouble : c ≠ '"') (h : Closed s) : Closed (c :: s)
  | single {body s : Text} (hbody : '\'' ∉ body) (h : Closed s) : Closed ('\'' :: (body ++ '\'' :: s))
  | double {body s : Text} (hbody : Escaped body) (h : Closed s) : Closed ('"' :: (body ++ '"' :: s))

variable {s t form : Text} {c : Char} {st : Scan}

-- ---------------------------------------------------------------------------
-- Stripping
-- ---------------------------------------------------------------------------

def clean (s : Scan) : Text → Bool
  | [] => true
  | c :: rest => !s.comment c && clean (s.step c) rest

theorem clean_append : clean st (s ++ t) = (clean st s && clean (s.foldl Scan.step st) t) := by
  induction s generalizing st with
  | nil => rfl
  | cons c s ih => simp [clean, ih, Bool.and_assoc]

theorem stripFrom_append (h : clean st s = true) :
    stripFrom st (s ++ t) = (stripFrom (s.foldl Scan.step st) t).map (s ++ ·) := by
  induction s generalizing st with
  | nil =>
    rw [List.nil_append, List.foldl_nil]
    cases stripFrom st t <;> rfl
  | cons c s ih =>
    simp only [clean, Bool.and_eq_true, Bool.not_eq_true'] at h
    rw [List.cons_append, stripFrom, h.1, ih h.2, List.foldl_cons]
    cases stripFrom (s.foldl Scan.step (st.step c)) t <;> simp [Except.map]

theorem parseScalar_of_stripped (h : stripInlineComment (trimSpace s) = .ok t) :
    parseScalar s = parseValue (trimSpace t) := by
  rw [parseScalar, h]
  rfl

structure Stands (form : Text) : Prop where
  clean : clean {} form = true
  closed : (form.foldl Scan.step {}).quote = .none
  trimmed : trimSpace form = form
  head : ∃ c rest, form = c :: rest ∧ isSpace c = false

/-- What stands in front of a comment begins with no blank, and what follows it is read to
its last character that is none. -/
theorem trimSpace_comment (hhead : ∃ c rest, form = c :: rest ∧ isSpace c = false) (comment : Text) :
    trimSpace (form ++ ' ' :: '#' :: comment) = form ++ ' ' :: '#' :: trimRight comment := by
  obtain ⟨c, rest, rfl, hc⟩ := hhead
  have hhash : (rest ++ [' ']) ++ '#' :: comment = rest ++ ' ' :: '#' :: comment := by simp
  rw [List.cons_append, GoText.trimSpace_cons hc, ← hhash, GoText.trimRight_append (by decide)]
  simp

theorem trimSpace_blank (htrim : trimSpace form = form)
    (hhead : ∃ c rest, form = c :: rest ∧ isSpace c = false) :
    trimSpace (form ++ [' ']) = form := by
  obtain ⟨c, rest, rfl, hc⟩ := hhead
  have hnone : trimSpace (c :: rest) = trimRight (c :: rest) := by
    rw [GoText.trimSpace_cons hc]
    exact (@GoText.trimRight_append [] rest c hc).symm
  have hblank : trimSpace (c :: rest ++ [' ']) = trimRight (c :: rest ++ [' ']) := by
    rw [List.cons_append, GoText.trimSpace_cons hc]
    exact (@GoText.trimRight_append [] (rest ++ [' ']) c hc).symm
  rw [hblank, GoText.trimRight_blanks (by decide), ← hnone, htrim]

theorem Stands.parse (h : Stands form) (comment : Option Text) :
    parseScalar (written form comment) = parseValue form := by
  cases comment with
  | none =>
    have hstrip : stripInlineComment (trimSpace form) = .ok form := by
      have happend := @stripFrom_append form [] {} h.clean
      rw [List.append_nil, stripFrom, if_pos h.closed] at happend
      rw [h.trimmed, stripInlineComment, happend]
      simp [Except.map]
    rw [written, parseScalar_of_stripped hstrip, h.trimmed]
  | some comment =>
    have hstrip : stripInlineComment (trimSpace (form ++ ' ' :: '#' :: ' ' :: comment)) =
        .ok (form ++ [' ']) := by
      have happend := @stripFrom_append form (' ' :: '#' :: trimRight (' ' :: comment)) {} h.clean
      have hblank : stripFrom (form.foldl Scan.step {}) (' ' :: '#' :: trimRight (' ' :: comment)) =
          .ok [' '] := by
        simp [stripFrom, Scan.comment, Scan.step, h.closed, Except.map, show isSpace ' ' = true by decide]
      rw [trimSpace_comment h.head, stripInlineComment, happend, hblank]
      rfl
    rw [written, parseScalar_of_stripped hstrip, trimSpace_blank h.trimmed h.head]

-- ---------------------------------------------------------------------------
-- Quotes
-- ---------------------------------------------------------------------------

structure Inside (q : Quote) (s : Scan) : Prop where
  quote : s.quote = q
  escaped : s.escaped = false

/-- The text takes the loop from one kind to another, and no comment begins in it. -/
def Passes (q q' : Quote) (s : Text) : Prop :=
  ∀ st, Inside q st → clean st s = true ∧ Inside q' (s.foldl Scan.step st)

variable {q q' q'' : Quote}

theorem Passes.nil : Passes q q [] := fun _ h => ⟨rfl, h⟩

theorem Passes.append (h : Passes q q' s) (h' : Passes q' q'' t) : Passes q q'' (s ++ t) := by
  intro st hst
  obtain ⟨hclean, hinside⟩ := h st hst
  obtain ⟨hclean', hinside'⟩ := h' _ hinside
  constructor
  · rw [clean_append, hclean, hclean']
    rfl
  · rwa [List.foldl_append]

theorem Passes.one (h : ∀ st, Inside q st → st.comment c = false ∧ Inside q' (st.step c)) :
    Passes q q' [c] := by
  intro st hst
  obtain ⟨hcomment, hinside⟩ := h st hst
  exact ⟨by simp [clean, hcomment], hinside⟩

theorem Passes.cons (h : Passes q q' [c]) (h' : Passes q' q'' s) : Passes q q'' (c :: s) := h.append h'

theorem Passes.flatMap {f : Char → Text} (h : ∀ c ∈ s, Passes q q (f c)) : Passes q q (s.flatMap f) := by
  induction s with
  | nil => exact .nil
  | cons c s ih =>
    rw [List.forall_mem_cons] at h
    rw [List.flatMap_cons]
    exact h.1.append (ih h.2)

theorem opens_single : Passes .none .single ['\''] := by
  apply Passes.one
  rintro ⟨_, _, previous⟩ ⟨rfl, rfl⟩
  exact ⟨rfl, rfl, rfl⟩

theorem opens_double : Passes .none .double ['"'] := by
  apply Passes.one
  rintro ⟨_, _, previous⟩ ⟨rfl, rfl⟩
  exact ⟨rfl, rfl, rfl⟩

theorem closes_single : Passes .single .none ['\''] := by
  apply Passes.one
  rintro ⟨_, _, previous⟩ ⟨rfl, rfl⟩
  exact ⟨rfl, rfl, rfl⟩

theorem closes_double : Passes .double .none ['"'] := by
  apply Passes.one
  rintro ⟨_, _, previous⟩ ⟨rfl, rfl⟩
  exact ⟨rfl, rfl, rfl⟩

theorem stays_single (hc : c ≠ '\'') : Passes .single .single [c] := by
  apply Passes.one
  rintro ⟨_, _, previous⟩ ⟨rfl, rfl⟩
  exact ⟨rfl, by simp [Scan.step, hc], by simp [Scan.step, hc]⟩

theorem body_single (h : '\'' ∉ s) : Passes .single .single s := by
  induction s with
  | nil => exact .nil
  | cons c s ih =>
    rw [List.mem_cons, not_or] at h
    exact (stays_single (Ne.symm h.1)).cons (ih h.2)

theorem body_double (h : Escaped s) : Passes .double .double s := by
  induction h with
  | nil => exact .nil
  | plain hquote hslash h ih =>
    refine Passes.cons (.one ?_) ih
    rintro ⟨_, _, previous⟩ ⟨rfl, rfl⟩
    exact ⟨rfl, by simp [Scan.step, hquote, hslash], by simp [Scan.step, hquote, hslash]⟩
  | pair c h ih =>
    -- behind the backslash the loop is inside of an escape, so both characters go together
    have hpair : Passes .double .double ['\\', c] := by
      rintro ⟨_, _, previous⟩ ⟨rfl, rfl⟩
      exact ⟨rfl, rfl, rfl⟩
    exact hpair.append ih

theorem segment_single (h : '\'' ∉ s) : Passes .none .none ('\'' :: (s ++ ['\''])) :=
  opens_single.cons ((body_single h).append closes_single)

theorem segment_double (h : Escaped s) : Passes .none .none ('"' :: (s ++ ['"'])) :=
  opens_double.cons ((body_double h).append closes_double)

theorem single_passes (s : Text) : Passes .none .none (single s) := by
  refine opens_single.cons (Passes.append (.flatMap fun c _ => ?_) closes_single)
  split
  · exact closes_single.cons opens_single
  · rename_i hc
    exact stays_single hc

theorem Escaped.append (h : Escaped s) (h' : Escaped t) : Escaped (s ++ t) := by
  induction h with
  | nil => exact h'
  | plain hquote hslash h ih => exact .plain hquote hslash ih
  | pair c h ih => exact .pair c ih

theorem escaped_hexText (k v : Nat) : Escaped (GoText.hexText k v) := by
  have hall : ∀ c ∈ GoText.lowerhex, c ≠ '"' ∧ c ≠ '\\' := by simp [GoText.lowerhex]
  have hplain : ∀ s : Text, (∀ c ∈ s, c ∈ GoText.lowerhex) → Escaped s := by
    intro s hs
    induction s with
    | nil => exact .nil
    | cons c s ih =>
      rw [List.forall_mem_cons] at hs
      exact .plain (hall c hs.1).1 (hall c hs.1).2 (ih hs.2)
  exact hplain _ fun c hc => GoText.mem_hexText hc

theorem escaped_quoteRune (printable : Char → Bool) (c : Char) : Escaped (GoText.quoteRune printable c) := by
  rw [GoText.quoteRune]
  split
  · exact .pair c .nil
  · rename_i h
    split
    · exact .plain (not_or.mp h).1 (not_or.mp h).2 .nil
    · split
      · exact .pair _ .nil
      · split
        · exact .pair _ (escaped_hexText 2 _)
        · split
          · exact .pair _ (escaped_hexText 4 _)
          · exact .pair _ (escaped_hexText 8 _)

theorem quote_passes (printable : Char → Bool) (s : Text) : Passes .none .none (quote printable s) := by
  apply segment_double
  induction s with
  | nil => exact .nil
  | cons c s ih =>
    rw [List.flatMap_cons]
    exact (escaped_quoteRune printable c).append ih

-- ---------------------------------------------------------------------------
-- Closed texts
-- ---------------------------------------------------------------------------

theorem Closed.inside (h : Closed s) : ∀ st, Inside .none st → Inside .none (s.foldl Scan.step st) := by
  induction h with
  | nil =>
    intro st hst
    exact hst
  | plain hsingle hdouble h ih =>
    rintro ⟨_, _, previous⟩ ⟨rfl, rfl⟩
    refine ih _ ⟨?_, ?_⟩
    · simp [Scan.step, hsingle, hdouble]
    · simp [Scan.step, hsingle, hdouble]
  | @single body s hbody h ih =>
    intro st hst
    have hsegment := (segment_single hbody st hst).2
    have happend : '\'' :: (body ++ '\'' :: s) = '\'' :: (body ++ ['\'']) ++ s := by simp
    rw [happend, List.foldl_append]
    exact ih _ hsegment
  | @double body s hbody h ih =>
    intro st hst
    have hsegment := (segment_double hbody st hst).2
    have happend : '"' :: (body ++ '"' :: s) = '"' :: (body ++ ['"']) ++ s := by simp
    rw [happend, List.foldl_append]
    exact ih _ hsegment

/-- What is left of a text whose quotes are all closed, from inside of one. -/
inductive Closes : Quote → Bool → Text → Prop
  | none {s : Text} (h : Closed s) : Closes .none false s
  | single {body s : Text} (hbody : '\'' ∉ body) (h : Closed s) : Closes .single false (body ++ '\'' :: s)
  | double {body s : Text} (hbody : Escaped body) (h : Closed s) : Closes .double false (body ++ '"' :: s)
  | escaped {body s : Text} (c : Char) (hbody : Escaped body) (h : Closed s) :
    Closes .double true (c :: (body ++ '"' :: s))

theorem closes_of_scan (hend : (s.foldl Scan.step st).quote = .none)
    (hst : st.escaped = true → st.quote = .double) : Closes st.quote st.escaped s := by
  induction s generalizing st with
  | nil =>
    obtain ⟨_, escaped, previous⟩ := st
    obtain rfl : _ = Quote.none := hend
    cases escaped with
    | false => exact .none .nil
    | true => exact absurd (hst rfl) nofun
  | cons c s ih =>
    obtain ⟨q, escaped, previous⟩ := st
    rw [List.foldl_cons] at hend
    have hnext := ih hend
    cases q with
    | none =>
      cases escaped with
      | true => exact absurd (hst rfl) nofun
      | false =>
        by_cases hsingle : c = '\''
        · subst hsingle
          cases hnext nofun with
          | single hbody h => exact .none (.single hbody h)
        · by_cases hdouble : c = '"'
          · subst hdouble
            cases hnext nofun with
            | double hbody h => exact .none (.double hbody h)
          · simp only [Scan.step, hsingle, hdouble, if_false] at hnext
            cases hnext nofun with
            | none h => exact .none (.plain hsingle hdouble h)
    | single =>
      cases escaped with
      | true => exact absurd (hst rfl) nofun
      | false =>
        by_cases hsingle : c = '\''
        · subst hsingle
          cases hnext nofun with
          | none h => exact @Closes.single [] s nofun h
        · simp only [Scan.step, hsingle, if_false] at hnext
          obtain ⟨body, rest, rfl, hbody, h⟩ : ∃ body rest, s = body ++ '\'' :: rest ∧
              '\'' ∉ body ∧ Closed rest := by
            cases hnext nofun with
            | single hbody h => exact ⟨_, _, rfl, hbody, h⟩
          refine @Closes.single (c :: body) rest ?_ h
          rw [List.mem_cons, not_or]
          exact ⟨Ne.symm hsingle, hbody⟩
    | double =>
      cases escaped with
      | true =>
        cases hnext nofun with
        | double hbody h => exact .escaped c hbody h
      | false =>
        by_cases hslash : c = '\\'
        · subst hslash
          cases hnext (fun _ => rfl) with
          | escaped c hbody h => exact @Closes.double ('\\' :: c :: _) _ (.pair c hbody) h
        · by_cases hdouble : c = '"'
          · subst hdouble
            cases hnext nofun with
            | none h => exact @Closes.double [] s .nil h
          · simp only [Scan.step, hslash, hdouble, if_false, Bool.false_eq_true] at hnext
            obtain ⟨body, rest, rfl, hbody, h⟩ : ∃ body rest, s = body ++ '"' :: rest ∧
                Escaped body ∧ Closed rest := by
              cases hnext nofun with
              | double hbody h => exact ⟨_, _, rfl, hbody, h⟩
            exact @Closes.double (c :: body) rest (.plain hdouble hslash hbody) h

theorem closed_iff : Closed s ↔ (s.foldl Scan.step {}).quote = .none := by
  constructor
  · intro h
    exact (h.inside {} ⟨rfl, rfl⟩).quote
  · intro hend
    cases closes_of_scan hend nofun with
    | none h => exact h

-- ---------------------------------------------------------------------------
-- The forms
-- ---------------------------------------------------------------------------

theorem Passes.stands (hc : isSpace c = false) (h : Passes .none .none (c :: (s ++ [c]))) :
    Stands (c :: (s ++ [c])) where
  clean := (h {} ⟨rfl, rfl⟩).1
  closed := (h {} ⟨rfl, rfl⟩).2.quote
  trimmed := by
    rw [GoText.trimSpace_cons hc, GoText.trimRight_append hc, GoText.trimRight_nil]
  head := ⟨c, _, rfl, hc⟩

theorem replaceQuotes_doubled (s : Text) :
    replaceQuotes (s.flatMap fun c => if c = '\'' then ['\'', '\''] else [c]) = s := by
  induction s with
  | nil => rfl
  | cons c s ih =>
    rw [List.flatMap_cons]
    by_cases hc : c = '\''
    · subst hc
      rw [if_pos rfl, List.cons_append, List.cons_append, List.nil_append, replaceQuotes, ih]
    · rw [if_neg hc, List.singleton_append, replaceQuotes, ih]
      rintro _ rfl
      exact absurd rfl hc

theorem parseValue_single (s : Text) : parseValue (single s) = .ok (encode s) := by
  have hlast : ∀ inner : Text, (inner ++ ['\'']).getLast? = some '\'' := fun inner => List.getLast?_concat
  rw [single, parseValue, if_pos (hlast _), List.dropLast_concat, replaceQuotes_doubled]

theorem parseValue_quote (printable : Char → Bool) (s : Text) :
    parseValue (quote printable s) = .ok (encode s) := by
  have hunquote := GoText.unquote_quote printable s
  rw [quote] at hunquote ⊢
  rw [parseValue, hunquote]

theorem parseValue_plain (hhead : c ≠ '"' ∧ c ≠ '\'') (hspecial : ∀ d ∈ c :: s, d ∉ special) :
    parseValue (c :: s) = .ok (encode (c :: s)) := by
  rw [parseValue]
  · rw [if_neg]
    simpa using hspecial
  · nofun
  · rintro _ ⟨rfl, rfl⟩
    exact hhead.1 rfl
  · rintro _ ⟨rfl, rfl⟩
    exact hhead.2 rfl

theorem parseValue_ok {bytes : List UInt8} (hhead : c ≠ '"' ∧ c ≠ '\'')
    (h : parseValue (c :: s) = .ok bytes) : bytes = encode (c :: s) := by
  rw [parseValue] at h
  · split at h
    · exact nomatch h
    · exact (Except.ok.inj h).symm
  · nofun
  · rintro _ ⟨rfl, rfl⟩
    exact hhead.1 rfl
  · rintro _ ⟨rfl, rfl⟩
    exact hhead.2 rfl

theorem Plain.first (h : Plain s) : ∃ c rest, s = c :: rest ∧ isSpace c = false := by
  cases s with
  | nil => exact absurd rfl h.nonempty
  | cons c s => exact ⟨c, s, rfl, GoText.head_of_trimmed h.trimmed⟩

theorem foldl_previous (s : Text) : (s.foldl Scan.step {}).previous = s.getLast? := by
  have hstep : ∀ (st : Scan) c, (st.step c).previous = some c := by
    intro st c
    rw [Scan.step]
    split <;> (repeat' split) <;> rfl
  rcases List.eq_nil_or_concat s with rfl | ⟨s, c, rfl⟩
  · rfl
  · simp [hstep]

theorem Plain.clean (h : Plain s) : clean {} s = true := by
  have hall : ∀ behind before, s = before ++ behind →
      Config.clean (before.foldl Scan.step {}) behind = true := by
    intro behind
    induction behind with
    | nil =>
      intro before _
      rfl
    | cons c behind ih =>
      intro before heq
      have hnext := ih (before ++ [c]) (by simp [heq])
      rw [List.foldl_append] at hnext
      simp only [Config.clean, Bool.and_eq_true, Bool.not_eq_true']
      refine ⟨?_, hnext⟩
      by_contra hcomment
      simp only [Scan.comment, Bool.not_eq_false, Bool.and_eq_true, decide_eq_true_eq,
        foldl_previous] at hcomment
      obtain ⟨⟨-, rfl⟩, hprevious⟩ := hcomment
      rcases List.eq_nil_or_concat before with rfl | ⟨before, blank, rfl⟩
      · exact (h.head '#' (by simp [heq])).2.2 rfl
      · have hblank := h.noComment before blank behind (by simp [heq])
        simp [hblank] at hprevious
  exact hall s [] rfl

theorem Plain.parse_closed (h : Plain s) (hclosed : Closed s) (comment : Option Text) :
    parseScalar (written s comment) = .ok (encode s) := by
  have hstands : Stands s :=
    { clean := h.clean, closed := closed_iff.mp hclosed, trimmed := h.trimmed, head := h.first }
  rw [hstands.parse comment]
  obtain ⟨c, rest, rfl, -⟩ := h.first
  have hhead := h.head c rfl
  exact parseValue_plain ⟨hhead.2.1, hhead.1⟩ h.special

/-- With a quote left open, the `#` of a comment stands in quotes and stays. -/
theorem strip_open (hquote : st.quote ≠ .none) (comment : Text) :
    (∃ message, stripFrom st (' ' :: '#' :: comment) = .error message) ∨
      ∃ more, stripFrom st (' ' :: '#' :: comment) = .ok (' ' :: '#' :: more) := by
  have hblank : (st.step ' ').quote ≠ .none := by
    obtain ⟨q, escaped, previous⟩ := st
    cases q with
    | none => exact absurd rfl hquote
    | single => exact nofun
    | double => cases escaped <;> exact nofun
  have hcomment : (st.step ' ').comment '#' = false := by simp [Scan.comment, hblank]
  have hfirst : st.comment ' ' = false := by simp [Scan.comment]
  rw [stripFrom, hfirst, stripFrom, hcomment]
  cases hmore : stripFrom ((st.step ' ').step '#') comment with
  | error message => exact .inl ⟨message, rfl⟩
  | ok more => exact .inr ⟨more, rfl⟩

theorem Plain.parse_open (h : Plain s) (hopen : ¬ Closed s) (comment : Option Text) :
    parseScalar (written s comment) ≠ .ok (encode s) := by
  have hquote : (s.foldl Scan.step {}).quote ≠ .none := fun hclosed => hopen (closed_iff.mpr hclosed)
  cases comment with
  | none =>
    have happend := @stripFrom_append s [] {} h.clean
    rw [List.append_nil, stripFrom, if_neg hquote] at happend
    rw [written, parseScalar, h.trimmed, stripInlineComment, happend]
    exact nofun
  | some comment =>
    have happend := @stripFrom_append s (' ' :: '#' :: trimRight (' ' :: comment)) {} h.clean
    rw [written, parseScalar, trimSpace_comment h.first, stripInlineComment, happend]
    rcases strip_open hquote (trimRight (' ' :: comment)) with ⟨message, hstrip⟩ | ⟨more, hstrip⟩
    · rw [hstrip]
      exact nofun
    · rw [hstrip]
      change parseValue (trimSpace (s ++ ' ' :: '#' :: more)) ≠ _
      rw [trimSpace_comment h.first]
      obtain ⟨c, rest, rfl, -⟩ := h.first
      have hhead := h.head c rfl
      intro hparse
      have hsame := Utf8.encode_injective (parseValue_ok ⟨hhead.2.1, hhead.1⟩ hparse)
      have hlength := congrArg List.length hsame
      simp at hlength

/-- A string is read back from its quoted forms always, and from its plain form just when
its quotes are closed. -/
theorem scalar_forms (printable : Char → Bool) (s : Text) (comment : Option Text) :
    (parseScalar (written (single s) comment) = .ok (encode s) ∧
        parseScalar (written (quote printable s) comment) = .ok (encode s) ∧
        (Plain s → parseScalar (written s comment) = .ok (encode s))) ↔
      (Plain s → Closed s) := by
  constructor
  · rintro ⟨-, -, hplain⟩ hs
    by_contra hopen
    exact hs.parse_open hopen comment (hplain hs)
  · intro hclosed
    refine ⟨?_, ?_, ?_⟩
    · have hstands : Stands (single s) := Passes.stands (by decide) (single_passes s)
      rw [hstands.parse comment]
      exact parseValue_single s
    · have hstands : Stands (quote printable s) := Passes.stands (by decide) (quote_passes printable s)
      rw [hstands.parse comment]
      exact parseValue_quote printable s
    · intro hs
      exact hs.parse_closed (hclosed hs) comment

def prose : Text := ['i', 't', '\'', 's', ' ', 'm', 'e']

theorem prose_rejected : Plain prose ∧ parseScalar prose = .error "unterminated quoted scalar" ∧
    parseScalar (written prose (some ['d', 'o', 'n', '\'', 't'])) =
      .ok (encode (written prose (some ['d', 'o', 'n', '\'', 't']))) := by
  refine ⟨⟨nofun, rfl, by simp [prose], by simp [prose, special], ?_⟩, rfl, rfl⟩
  intro before blank behind heq
  have hmem : '#' ∈ prose := by simp [heq]
  exact absurd hmem (by decide)

end BoomPI.Config
