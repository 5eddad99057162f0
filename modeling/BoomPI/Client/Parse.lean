import BoomPI.Client.Envelope
import BoomPI.Wire.RoundTrip

/-!
# Messages the client can parse

The two scans of a text, by its tree, and what `ParseEnvelope` makes of an
envelope as the server spells it.
-/

namespace BoomPI.Client

open Json (Text Value Tree Item Cat Stops)

variable {c : Cat} {s : Text} {b : Bool}

-- ---------------------------------------------------------------------------
-- Escaped NULs
-- ---------------------------------------------------------------------------

/-- The item `\u0000`. -/
def isNul (i : Item) : Bool := i.text = ['\\', 'u', '0', '0', '0', '0']

def labelStrings : (kind : Json.Kind) → Json.Label kind → List (List Item)
  | .array, _ => []
  | .object, key => [key.items]

def strings {c : Cat} : Tree c → List (List Item)
  | .string items => [items]
  | .group _ body => strings body
  | .last kind _ label _ value _ => labelStrings kind label ++ strings value
  | .more kind _ label _ value _ rest => labelStrings kind label ++ strings value ++ strings rest
  | _ => []

def hasNul (t : Tree c) : Bool := (strings t).any fun items => items.any isNul

theorem escapedNul_append {p : Text} (h : ∀ c ∈ p, c ≠ '"') : escapedNul false (p ++ s) = escapedNul false s := by
  induction p with
  | nil => rfl
  | cons c p ih =>
    rw [List.forall_mem_cons] at h
    rw [List.cons_append, escapedNul, decide_eq_false h.1, ih h.2]

theorem escapedNul_item (i : Item) : escapedNul true (i.text ++ s) = (isNul i || escapedNul true s) := by
  cases i with
  | plain c h =>
    have hnul : isNul (.plain c h) = false := by simp [isNul, Item.text]
    simp only [Json.isPlain, Bool.and_eq_true, decide_eq_true_eq] at h
    rw [hnul, Bool.false_or, Item.text, List.singleton_append]
    rw [escapedNul]
    · exact h.1.1
    · rintro _ _ _ _ _ rfl
      exact absurd rfl h.1.2
    · rintro _ _ rfl
      exact absurd rfl h.1.2
  | escape e => cases e <;> rfl
  | unicode a b c d =>
    rw [Item.text, List.cons_append, List.cons_append, List.cons_append, List.cons_append,
      List.cons_append, List.cons_append, List.nil_append, escapedNul]
    simp [isNul, Item.text]

theorem escapedNul_spell (items : List Item) :
    escapedNul true (Json.spell items ++ '"' :: s) = (items.any isNul || escapedNul false s) := by
  induction items with
  | nil => rfl
  | cons i items ih =>
    rw [Json.spell, List.flatMap_cons, ← Json.spell, List.append_assoc, escapedNul_item, ih,
      List.any_cons, Bool.or_assoc]

theorem escapedNul_quoted (items : List Item) :
    escapedNul false (Json.quoted items ++ s) = (items.any isNul || escapedNul false s) := by
  rw [Json.quoted, List.cons_append, List.append_assoc]
  exact escapedNul_spell items

theorem space_quote (gap : Json.Space) : ∀ c ∈ gap.val, c ≠ '"' := by
  rintro c hc rfl
  exact absurd (List.all_eq_true.mp gap.property _ hc) (by decide)

theorem escapedNul_label (kind : Json.Kind) (label : Json.Label kind) :
    escapedNul false (label.text kind ++ s) =
      ((labelStrings kind label).any (fun items => items.any isNul) || escapedNul false s) := by
  cases kind with
  | array => rfl
  | object =>
    simp only [Json.Label.text, List.append_assoc, labelStrings, List.any_cons, List.any_nil, Bool.or_false]
    rw [escapedNul_append (space_quote label.before), escapedNul_quoted,
      escapedNul_append (space_quote label.after)]
    rfl

theorem escapedNul_text (t : Tree c) : ∀ s, escapedNul false (t.text ++ s) = (hasNul t || escapedNul false s) := by
  induction t with
  | word w => intro s; cases w <;> rfl
  | number n =>
    intro s
    refine escapedNul_append fun c hc => ?_
    rintro rfl
    exact absurd (List.all_eq_true.mp (Json.isNumber_numeric n.property) _ hc) (by decide)
  | string items =>
    intro s
    rw [Tree.text, escapedNul_quoted]
    simp [hasNul, strings]
  | group kind body ih =>
    intro s
    rw [Tree.text, List.cons_append, escapedNul,
      show decide (kind.opening = '"') = false by cases kind <;> rfl, ih]
    rfl
  | close kind gap =>
    intro s
    rw [Tree.text, List.append_assoc, escapedNul_append (space_quote gap), List.singleton_append,
      escapedNul, show decide (kind.closing = '"') = false by cases kind <;> rfl]
    rfl
  | last kind first label before value after ih =>
    intro s
    simp only [Tree.text, List.append_assoc, hasNul, strings, List.any_append, List.singleton_append,
      escapedNul_label, escapedNul_append (space_quote before), ih, escapedNul_append (space_quote after),
      escapedNul, show decide (kind.closing = '"') = false by cases kind <;> rfl, Bool.or_assoc]
  | more kind first label before value after rest ih ih' =>
    intro s
    simp only [Tree.text, List.append_assoc, hasNul, strings, List.any_append, List.cons_append,
      escapedNul_label, escapedNul_append (space_quote before), ih, escapedNul_append (space_quote after),
      escapedNul, show decide (',' = '"') = false by decide, ih', Bool.or_assoc]

-- ---------------------------------------------------------------------------
-- Numbers
-- ---------------------------------------------------------------------------

def isPoint (c : Char) : Bool := c = '.' || c = 'e' || c = 'E'

def integral {c : Cat} : Tree c → Bool
  | .number n => n.val.all Char.isDigit
  | .group _ body => integral body
  | .last _ _ _ _ value _ => integral value
  | .more _ _ _ _ value _ rest => integral value && integral rest
  | _ => true

def numbers {c : Cat} : Tree c → List Json.Number
  | .number n => [n]
  | .group _ body => numbers body
  | .last _ _ _ _ value _ => numbers value
  | .more _ _ _ _ value _ rest => numbers value ++ numbers rest
  | _ => []

theorem integral_numbers (t : Tree c) : integral t = (numbers t).all fun n => n.val.all Char.isDigit := by
  induction t with
  | number n => simp [integral, numbers]
  | group kind body ih => exact ih
  | last kind first label before value after ih => exact ih
  | more kind first label before value after rest ih ih' =>
    simp only [integral, numbers, ih, ih', List.all_append]
  | _ => rfl

abbrev scan (inNumber : Bool) (s : Text) : Bool := nonIntegerNumber false false inNumber s

theorem scan_cons {c : Char} (h : c ≠ '"' ∧ c ≠ '-' ∧ isPoint c = false) :
    scan b (c :: s) = scan c.isDigit s := by
  simp only [isPoint, Bool.or_eq_false_iff, decide_eq_false_iff_not] at h
  obtain ⟨hquote, hminus, ⟨hdot, he⟩, hE⟩ := h
  simp [scan, nonIntegerNumber, hquote, hminus, hdot, he, hE]

theorem scan_resets (h : Stops isPoint s) : scan b s = scan false s := by
  cases s with
  | nil => rfl
  | cons c s =>
    have hc : isPoint c = false := h c rfl
    simp only [isPoint, Bool.or_eq_false_iff, decide_eq_false_iff_not] at hc
    simp [scan, nonIntegerNumber, hc]

theorem scan_gap (gap : Json.Space) (h : Stops isPoint s) : scan b (gap.val ++ s) = scan false s := by
  obtain ⟨gap, hgap⟩ := gap
  dsimp only
  induction gap generalizing b with
  | nil => exact scan_resets h
  | cons c gap ih =>
    rw [List.all_cons, Bool.and_eq_true] at hgap
    have hc := hgap.1
    simp only [Json.isSpace, Bool.or_eq_true, decide_eq_true_eq] at hc
    have hplain : c ≠ '"' ∧ c ≠ '-' ∧ isPoint c = false := by
      rcases hc with ((rfl | rfl) | rfl) | rfl <;> decide
    rw [List.cons_append, scan_cons hplain]
    exact ih hgap.2

theorem digit_plain {c : Char} (h : c.isDigit = true) : c ≠ '"' ∧ c ≠ '-' ∧ isPoint c = false := by
  refine ⟨?_, ?_, ?_⟩
  · rintro rfl
    exact absurd h (by decide)
  · rintro rfl
    exact absurd h (by decide)
  · by_contra hpoint
    simp only [isPoint, Bool.not_eq_false, Bool.or_eq_true, decide_eq_true_eq] at hpoint
    rcases hpoint with (rfl | rfl) | rfl <;> exact absurd h (by decide)

theorem scan_digits {p : Text} (hp : p.all Char.isDigit = true) (h : Stops isPoint s) :
    scan b (p ++ s) = scan false s := by
  induction p generalizing b with
  | nil => exact scan_resets h
  | cons c p ih =>
    rw [List.all_cons, Bool.and_eq_true] at hp
    rw [List.cons_append, scan_cons (digit_plain hp.1)]
    exact ih hp.2

theorem scan_item (i : Item) :
    nonIntegerNumber true false false (i.text ++ s) = nonIntegerNumber true false false s := by
  have hstring : ∀ {c : Char} {s : Text}, c ≠ '"' → c ≠ '\\' →
      nonIntegerNumber true false false (c :: s) = nonIntegerNumber true false false s := by
    intro c s hquote hslash
    simp [nonIntegerNumber, hquote, hslash]
  cases i with
  | plain c h =>
    simp only [Json.isPlain, Bool.and_eq_true, decide_eq_true_eq] at h
    exact hstring h.1.1 h.1.2
  | escape e => cases e <;> rfl
  | unicode a b c d =>
    have hhex : ∀ h : Json.Hex, h.val ≠ '"' ∧ h.val ≠ '\\' := by
      rintro ⟨c, hc⟩
      constructor
      · rintro rfl
        exact absurd hc (by decide)
      · rintro rfl
        exact absurd hc (by decide)
    change nonIntegerNumber true false false (a.val :: b.val :: c.val :: d.val :: s) = _
    rw [hstring (hhex a).1 (hhex a).2, hstring (hhex b).1 (hhex b).2, hstring (hhex c).1 (hhex c).2,
      hstring (hhex d).1 (hhex d).2]

theorem scan_quoted (items : List Item) : scan b (Json.quoted items ++ s) = scan false s := by
  have hspell : nonIntegerNumber true false false (Json.spell items ++ '"' :: s) = scan false s := by
    induction items with
    | nil => rfl
    | cons i items ih =>
      rw [Json.spell, List.flatMap_cons, ← Json.spell, List.append_assoc, scan_item, ih]
  rw [Json.quoted, List.cons_append, List.append_assoc]
  exact hspell

theorem value_stops (v : Value) : Stops isPoint (v.text ++ s) := by
  cases v with
  | word w => cases w <;> exact .cons rfl
  | number n =>
    obtain ⟨c, t, heq, hc⟩ := Json.number_head n
    rw [Tree.text, heq]
    refine .cons ?_
    by_contra hpoint
    simp only [isPoint, Bool.not_eq_false, Bool.or_eq_true, decide_eq_true_eq] at hpoint
    rcases hpoint with (rfl | rfl) | rfl <;> simp at hc
  | string items => exact .cons rfl
  | group kind body => cases kind <;> exact .cons rfl

theorem gap_stops (gap : Json.Space) (h : Stops isPoint s) : Stops isPoint (gap.val ++ s) := by
  obtain ⟨gap, hgap⟩ := gap
  cases gap with
  | nil => exact h
  | cons c gap =>
    rw [List.all_cons, Bool.and_eq_true] at hgap
    have hc := hgap.1
    simp only [Json.isSpace, Bool.or_eq_true, decide_eq_true_eq] at hc
    rcases hc with ((rfl | rfl) | rfl) | rfl <;> exact .cons rfl

theorem scan_label (kind : Json.Kind) (label : Json.Label kind) (h : Stops isPoint s) :
    scan b (label.text kind ++ s) = scan false s := by
  cases kind with
  | array => exact scan_resets h
  | object =>
    obtain ⟨before, items, after⟩ := label
    have hquote : Stops isPoint (Json.quoted items ++ (after.val ++ ':' :: s)) := .cons rfl
    have hcolon : Stops isPoint (':' :: s) := .cons rfl
    simp only [Json.Label.text, List.append_assoc, List.singleton_append]
    rw [scan_gap before hquote, scan_quoted, scan_gap after hcolon]
    exact scan_cons (by decide)

theorem scan_closing (kind : Json.Kind) : scan b (kind.closing :: s) = scan false s := by
  cases kind <;> exact scan_cons (by decide)

theorem scan_point {p : Text} (hp : p.all Char.isDigit = true) (hne : p ≠ []) {point : Char}
    (h : isPoint point = true) : scan b (p ++ point :: s) = true := by
  induction p generalizing b with
  | nil => exact absurd rfl hne
  | cons c p ih =>
    rw [List.all_cons, Bool.and_eq_true] at hp
    rw [List.cons_append, scan_cons (digit_plain hp.1), hp.1]
    cases p with
    | nil =>
      simp only [isPoint, Bool.or_eq_true, decide_eq_true_eq] at h
      rcases h with (rfl | rfl) | rfl <;> rfl
    | cons c' p => exact ih hp.2 nofun

theorem exponent_point {e : Char} (h : Json.isExponent (e :: s) = true) : isPoint e = true := by
  simp only [Json.isExponent, Bool.and_eq_true, Bool.or_eq_true, decide_eq_true_eq] at h
  rcases h.1 with rfl | rfl <;> rfl

theorem fraction_point {f : Char} (h : Json.isFraction (f :: s) = true) : isPoint f = true := by
  by_cases hdot : f = '.'
  · rw [hdot]
    rfl
  · rw [Json.isFraction] at h
    · exact exponent_point h
    · rintro rest heq
      exact hdot (List.cons.inj heq).1

theorem unsigned_split (h : Json.isUnsigned s = true) :
    ∃ digits fraction, s = digits ++ fraction ∧ digits ≠ [] ∧ digits.all Char.isDigit = true ∧
      Json.isFraction fraction = true := by
  cases s with
  | nil => simp [Json.isUnsigned] at h
  | cons c s =>
    by_cases hzero : c = '0'
    · subst hzero
      exact ⟨['0'], s, rfl, by simp, rfl, h⟩
    · rw [Json.isUnsigned, Bool.and_eq_true] at h
      · refine ⟨c :: s.takeWhile Char.isDigit, s.dropWhile Char.isDigit, ?_, by simp, ?_, h.2⟩
        · rw [List.cons_append, List.takeWhile_append_dropWhile]
        · rw [List.all_cons, h.1, List.all_takeWhile]
          rfl
      · exact hzero

/-- What a number is: signed, digits alone, or digits with more behind them. -/
theorem number_split (n : Json.Number) :
    (∃ rest, n.val = '-' :: rest) ∨ n.val.all Char.isDigit = true ∨
      ∃ digits point rest, n.val = digits ++ point :: rest ∧ digits ≠ [] ∧
        digits.all Char.isDigit = true ∧ isPoint point = true := by
  obtain ⟨text, hn⟩ := n
  dsimp only
  by_cases hminus : ∃ rest, text = '-' :: rest
  · exact .inl hminus
  · have hunsigned : Json.isUnsigned text = true := by
      rw [Json.isNumber] at hn
      · exact hn
      · rintro rest rfl
        exact hminus ⟨rest, rfl⟩
    obtain ⟨digits, fraction, rfl, hne, hall, hfraction⟩ := unsigned_split hunsigned
    cases fraction with
    | nil =>
      rw [List.append_nil]
      exact .inr (.inl hall)
    | cons point rest => exact .inr (.inr ⟨digits, point, rest, rfl, hne, hall, fraction_point hfraction⟩)

def isNonInteger (c : Char) : Bool := c = '-' || isPoint c

theorem isNonInteger_iff {c : Char} : isNonInteger c = true ↔ c = '-' ∨ c = '.' ∨ c = 'e' ∨ c = 'E' := by
  simp [isNonInteger, isPoint, or_assoc]

theorem number_nonInteger (n : Json.Number) : n.val.any isNonInteger = !n.val.all Char.isDigit := by
  rcases number_split n with ⟨rest, heq⟩ | hall | ⟨digits, point, rest, heq, -, -, hpoint⟩
  · rw [heq]
    rfl
  · rw [hall, Bool.not_true, List.any_eq_false]
    intro c hc
    obtain ⟨-, hminus, hpoint⟩ := digit_plain (List.all_eq_true.mp hall c hc)
    simp [isNonInteger, hminus, hpoint]
  · have hdigit : point.isDigit = false := by
      simp only [isPoint, Bool.or_eq_true, decide_eq_true_eq] at hpoint
      rcases hpoint with (rfl | rfl) | rfl <;> rfl
    simp [heq, isNonInteger, hpoint, hdigit]

theorem scan_number (n : Json.Number) (h : Stops isPoint s) :
    scan b (n.val ++ s) = (!n.val.all Char.isDigit || scan false s) := by
  rcases number_split n with ⟨rest, heq⟩ | hall | ⟨digits, point, rest, heq, hne, hall, hpoint⟩
  · rw [heq]
    rfl
  · rw [scan_digits hall h, hall]
    rfl
  · have hsome : n.val.any isNonInteger = true := by
      simp [heq, isNonInteger, hpoint]
    rw [← number_nonInteger, hsome, Bool.true_or, heq, List.append_assoc, List.cons_append]
    exact scan_point hall hne hpoint

theorem scan_text (t : Tree c) : ∀ b s, Stops isPoint s →
    scan b (t.text ++ s) = (!integral t || scan false s) := by
  induction t with
  | word w =>
    intro b s _
    cases w <;> cases b <;> rfl
  | number n =>
    intro b s h
    exact scan_number n h
  | string items =>
    intro b s _
    exact scan_quoted items
  | group kind body ih =>
    intro b s h
    have hopen : scan b (kind.opening :: (body.text ++ s)) = scan false (body.text ++ s) := by
      cases kind <;> exact scan_cons (by decide)
    exact hopen.trans (ih false s h)
  | close kind gap =>
    intro b s _
    have hclosing : Stops isPoint (kind.closing :: s) := by cases kind <;> exact .cons rfl
    rw [Tree.text, List.append_assoc, List.singleton_append, scan_gap gap hclosing]
    exact scan_closing kind
  | last kind first label before value after ih =>
    intro b s _
    have hclosing : Stops isPoint (kind.closing :: s) := by cases kind <;> exact .cons rfl
    simp only [Tree.text, List.append_assoc, List.singleton_append]
    rw [scan_label kind label (gap_stops before (value_stops value)), scan_gap before (value_stops value),
      ih false _ (gap_stops after hclosing), scan_gap after hclosing, scan_closing]
    rfl
  | more kind first label before value after rest ih ih' =>
    intro b s h
    have hcomma : ∀ s, Stops isPoint (',' :: s) := fun s => .cons rfl
    simp only [Tree.text, List.append_assoc, List.cons_append]
    rw [scan_label kind label (gap_stops before (value_stops value)), scan_gap before (value_stops value),
      ih false _ (gap_stops after (hcomma _)), scan_gap after (hcomma _), scan_cons (by decide), ih' _ s h,
      integral, Bool.not_and, Bool.or_assoc]

-- ---------------------------------------------------------------------------
-- Whole texts
-- ---------------------------------------------------------------------------

theorem scan_document (d : Json.Document) : scan false d.text = !integral d.value := by
  have hafter : ∀ b, scan b d.after.val = false := by
    intro b
    have := scan_gap (b := b) d.after .nil
    rwa [List.append_nil] at this
  have hstops : Stops isPoint d.after.val := by
    have := gap_stops d.after .nil
    rwa [List.append_nil] at this
  rw [Json.Document.text, List.append_assoc, scan_gap d.before (value_stops d.value),
    scan_text d.value false _ hstops, hafter, Bool.or_false]

theorem escapedNul_document (d : Json.Document) : escapedNul false d.text = hasNul d.value := by
  have hafter : escapedNul false d.after.val = false := by
    have := escapedNul_append (s := []) (space_quote d.after)
    rwa [List.append_nil] at this
  rw [Json.Document.text, List.append_assoc, escapedNul_append (space_quote d.before),
    escapedNul_text, hafter, Bool.or_false]

/-- The two scans reject a JSON text for what its numbers, and its strings and keys, are
spelled with, and for nothing else of it. -/
theorem scans_agree (d : Json.Document) :
    (nonIntegerNumber false false false d.text = true ↔
      ∃ n ∈ numbers d.value, ∃ c ∈ n.val, c = '-' ∨ c = '.' ∨ c = 'e' ∨ c = 'E') ∧
      (escapedNul false d.text = true ↔
        ∃ items ∈ strings d.value, ∃ i ∈ items, i.text = ['\\', 'u', '0', '0', '0', '0']) := by
  constructor
  · have hnumber : ∀ n : Json.Number, n.val.all Char.isDigit = !n.val.any isNonInteger := by
      intro n
      rw [number_nonInteger, Bool.not_not]
    have hscan : nonIntegerNumber false false false d.text = !integral d.value := scan_document d
    rw [hscan, integral_numbers]
    simp only [hnumber, Bool.not_eq_true', List.all_eq_false, Bool.not_eq_true', Bool.not_eq_false,
      List.any_eq_true, isNonInteger_iff]
  · rw [escapedNul_document, hasNul]
    simp [isNul]

-- ---------------------------------------------------------------------------
-- Objects
-- ---------------------------------------------------------------------------

theorem strings_bodyOf (ms : List (List Item × Value)) : ∀ m first,
    strings (Json.bodyOf first m ms) = (m :: ms).flatMap fun m => m.1 :: strings m.2 := by
  induction ms with
  | nil =>
    intro m first
    simp [Json.bodyOf, strings, labelStrings, Json.Key.of]
  | cons m' ms ih =>
    intro m first
    simp only [Json.bodyOf, strings, ih m' false]
    simp [labelStrings, Json.Key.of]

theorem strings_object (ms : List (List Item × Value)) :
    strings (Json.object ms) = ms.flatMap fun m => m.1 :: strings m.2 := by
  cases ms with
  | nil => rfl
  | cons m ms => exact strings_bodyOf ms m true

theorem integral_bodyOf (ms : List (List Item × Value)) : ∀ m first,
    integral (Json.bodyOf first m ms) = (m :: ms).all fun m => integral m.2 := by
  induction ms with
  | nil =>
    intro m first
    simp [Json.bodyOf, integral]
  | cons m' ms ih =>
    intro m first
    simp only [Json.bodyOf, integral, ih m' false]
    rfl

theorem integral_object (ms : List (List Item × Value)) :
    integral (Json.object ms) = ms.all fun m => integral m.2 := by
  cases ms with
  | nil => rfl
  | cons m ms => exact integral_bodyOf ms m true

theorem hasNul_object (ms : List (List Item × Value)) :
    hasNul (Json.object ms) = ms.any fun m => m.1.any isNul || hasNul m.2 := by
  rw [hasNul, strings_object, List.any_flatMap]
  rfl

-- ---------------------------------------------------------------------------
-- Envelopes
-- ---------------------------------------------------------------------------

open Wire (ControlEnvelope Field byteLength)

/-- How deep cJSON reads. -/
def cjsonNestingLimit : Nat := 1000

/-- cJSON reads every JSON text whose strings have neither an escaped NUL nor half of a
surrogate pair in them. -/
structure ReadsJSON (cjson : Text → Option Value) : Prop where
  reads : ∀ d : Json.Document, d.value.depth ≤ cjsonNestingLimit → hasNul d.value = false →
    (∀ items ∈ strings d.value, ∀ i ∈ items, i.surrogate = none) → cjson d.text = some d.value

variable {cjson : Text → Option Value} {e : ControlEnvelope} {write : Char → Item} {v object : Value}
  {name key : Text}

theorem requireItem_spelled (f : Field) :
    requireItem (e.spelled write v) f.name = .ok (e.value write v f) := by
  rw [requireItem, Wire.members_spelled]
  cases f <;> rfl

theorem requireUint32_ok {n : UInt32} (h : requireItem object name = .ok (.number (.ofNat n.toNat))) :
    requireUint32 object name = .ok n := by
  have hdigits := Json.toDigits_digits n.toNat
  have hvalue : Nat.ofDigitChars 10 (Nat.toDigits 10 n.toNat) 0 = n.toNat := Nat.ofDigitChars_ten_toDigits
  simp only [requireUint32, h, bind, Except.bind, Json.Number.ofNat, hdigits, hvalue, n.toNat_lt,
    and_self, if_true, UInt32.ofNat_toNat]

theorem requireString_items {items : List Item} (h : requireItem object name = .ok (.string items)) :
    requireString object name = .ok (String.ofList (Json.decode items)) := by
  simp only [requireString, h, bind, Except.bind]

theorem requireString_ok {s : Text} (hw : ∀ c, (write c).Writes c)
    (h : requireItem object name = .ok (.string (s.map write))) :
    requireString object name = .ok (String.ofList s) := by
  rw [requireString_items h, Json.decode_map hw]

theorem utf8ByteSize_ofList (s : Text) : (String.ofList s).utf8ByteSize = byteLength s := by
  rw [← Wire.byteLength_toList, String.toList_ofList]

theorem requireBounded_ok {s : Text} {n : Nat} (hw : ∀ c, (write c).Writes c)
    (h : requireItem object name = .ok (.string (s.map write))) (hs : 1 ≤ byteLength s ∧ byteLength s ≤ n) :
    requireBounded object name 1 n = .ok (String.ofList s) := by
  have hwithin : Transport.within (String.ofList s) 1 n = true := by
    rw [Transport.within, utf8ByteSize_ofList, decide_eq_true_eq]
    exact hs
  simp only [requireBounded, requireString_ok hw h, bind, Except.bind, hwithin, if_true]

/-- The strings of the envelope, of the lengths the client admits. -/
structure Admitted (e : ControlEnvelope) : Prop where
  version : e.version = 1
  type : (1 ≤ byteLength e.type ∧ byteLength e.type ≤ 64) ∧ e.type.all Wire.isVisibleASCII = true
  messageID : 1 ≤ byteLength e.messageID ∧ byteLength e.messageID ≤ 64
  deviceID : 1 ≤ byteLength e.deviceID ∧ byteLength e.deviceID ≤ 64

def parsed (e : ControlEnvelope) (payload : Value) : ParsedEnvelope where
  type := String.ofList e.type
  deviceId := String.ofList e.deviceID
  ids := { session := e.sessionID, turn := e.turnID, stream := e.streamID, epoch := e.epoch }
  payload := payload

theorem requireExact_spelled :
    requireExactObject (e.spelled write v) (Field.all.map Field.name) = .ok () := by
  have hexact : requireExactObject (e.spelled write v) (Field.all.map Field.name) =
      exactFrom (Field.all.map Field.name) [] (Wire.members (e.spelled write v)) := rfl
  rw [hexact, Wire.members_spelled]
  rfl

theorem parseEnvelope_spelled (hc : cjson (e.spelled write v).text = some (e.spelled write v))
    (hw : ∀ c, (write c).Writes c) (hobj : ∃ body, v = .group .object body) (he : Admitted e)
    (hnul : hasNul (e.spelled write v) = false) (hint : integral (e.spelled write v) = true)
    (hsize : byteLength (e.spelled write v).text ≤ Wire.maxControlMessageBytes) :
    parseEnvelope cjson (e.spelled write v).text = .ok (parsed e v) := by
  obtain ⟨body, rfl⟩ := hobj
  have hitem : ∀ f : Field, requireItem (e.spelled write (.group .object body)) f.name =
      .ok (e.value write (.group .object body) f) := fun f => requireItem_spelled f
  have hone : ¬ ((e.spelled write (.group .object body)).text = [] ∨
      Wire.maxControlMessageBytes < byteLength (e.spelled write (.group .object body)).text) :=
    not_or.mpr ⟨nofun, Nat.not_lt.mpr hsize⟩
  have hscan : escapedNul false (e.spelled write (.group .object body)).text = false := by
    have := escapedNul_text (e.spelled write (.group .object body)) []
    rw [List.append_nil, hnul] at this
    exact this
  have hnumbers : nonIntegerNumber false false false (e.spelled write (.group .object body)).text = false := by
    have := scan_text (e.spelled write (.group .object body)) false [] .nil
    rw [List.append_nil, hint] at this
    exact this
  have hversion : requireUint32 (e.spelled write (.group .object body)) Field.version.name = .ok 1 := by
    refine requireUint32_ok ((hitem .version).trans ?_)
    rw [ControlEnvelope.value, he.version]
    rfl
  have htype := requireBounded_ok hw (hitem .type) he.type.1
  have hmessage := requireBounded_ok hw (hitem .messageID) he.messageID
  have hdevice := requireBounded_ok hw (hitem .deviceID) he.deviceID
  have hsession := requireUint32_ok (hitem .sessionID)
  have hturn := requireUint32_ok (hitem .turnID)
  have hstream := requireUint32_ok (hitem .streamID)
  have hepoch := requireUint32_ok (hitem .epoch)
  rw [parseEnvelope, if_neg hone, hscan, if_neg Bool.false_ne_true, hc]
  simp only [hnumbers, if_neg Bool.false_ne_true, requireExact_spelled, hversion, htype, hmessage, hdevice,
    hsession, hturn, hstream, hepoch, hitem .payload, bind, Except.bind, String.toList_ofList, he.type.2,
    ControlEnvelope.value, not_true, if_false, ne_eq]
  rfl

end BoomPI.Client
