import BoomPI.Json.Syntax

/-!
# Reading a JSON text

A parser by recursive descent. It finds the tree of every text that has one, and
finds no other.
-/

namespace Json

-- ---------------------------------------------------------------------------
-- The parser
-- ---------------------------------------------------------------------------

def space (s : Text) : Space × Text :=
  (⟨s.takeWhile isSpace, List.all_takeWhile⟩, s.dropWhile isSpace)

def items : Text → Option (List Item × Text)
  | [] => none
  | '"' :: rest => some ([], rest)
  | '\\' :: 'u' :: a :: b :: c :: d :: rest =>
    if h : (hexDigit a).isSome ∧ (hexDigit b).isSome ∧ (hexDigit c).isSome ∧ (hexDigit d).isSome then
      (items rest).map fun (is, r) =>
        (.unicode ⟨a, h.1⟩ ⟨b, h.2.1⟩ ⟨c, h.2.2.1⟩ ⟨d, h.2.2.2⟩ :: is, r)
    else none
  | '\\' :: e :: rest =>
    match Escape.ofLetter e with
    | some e => (items rest).map fun (is, r) => (.escape e :: is, r)
    | none => none
  | c :: rest =>
    if h : isPlain c = true then (items rest).map fun (is, r) => (.plain c h :: is, r) else none

def number (s : Text) : Option (Value × Text) :=
  if h : isNumber (s.takeWhile isNumeric) = true then some (.number ⟨_, h⟩, s.dropWhile isNumeric)
  else none

def scalar (s : Text) : Option (Value × Text) :=
  match [Word.null, .true, .false].find? fun w => w.text.isPrefixOf s with
  | some w => some (.word w, s.drop w.text.length)
  | none => number s

def label : (kind : Kind) → Text → Option (Label kind × Text)
  | .array, s => some ((), s)
  | .object, s =>
    match (space s).2 with
    | '"' :: rest =>
      (items rest).bind fun (is, r) =>
        match (space r).2 with
        | ':' :: r' => some ({ before := (space s).1, items := is, after := (space r).1 : Key }, r')
        | _ => none
    | _ => none

/-- An entry and what follows it, given the readers of values and of further entries. -/
def entry (value : Text → Option (Value × Text)) (kind : Kind) (first : Bool)
    (rest : Text → Option (Tree (.body kind false) × Text)) (s : Text) :
    Option (Tree (.body kind first) × Text) :=
  (label kind s).bind fun (label, s) =>
    (value (space s).2).bind fun (v, s') =>
      match (space s').2 with
      | [] => none
      | c :: s'' =>
        if c = ',' then
          (rest s'').map fun (body, r) => (.more kind first label (space s).1 v (space s').1 body, r)
        else if c = kind.closing then some (.last kind first label (space s).1 v (space s').1, s'')
        else none

/-- A value, given the readers of what stands in brackets. -/
def first (inside : (kind : Kind) → Text → Option (Tree (.body kind true) × Text)) :
    Text → Option (Value × Text)
  | [] => none
  | c :: rest =>
    if c = '{' then (inside .object rest).map fun (body, r) => (.group .object body, r)
    else if c = '[' then (inside .array rest).map fun (body, r) => (.group .array body, r)
    else if c = '"' then (items rest).map fun (is, r) => (.string is, r)
    else scalar (c :: rest)

/-- The first value of a text, or the rest of an array or object. -/
def parse : Nat → (c : Cat) → Text → Option (Tree c × Text)
  | 0, _, _ => none
  | n + 1, .value, s => first (fun kind => parse n (.body kind true)) s
  | n + 1, .body kind true, s =>
    if (space s).2.head? = some kind.closing then some (.close kind (space s).1, (space s).2.tail)
    else entry (parse n .value) kind true (parse n (.body kind false)) s
  | n + 1, .body kind false, s => entry (parse n .value) kind false (parse n (.body kind false)) s

def document (s : Text) : Option Document :=
  (parse s.length .value (space s).2).bind fun (value, rest) =>
    if h : rest.all isSpace = true then some { before := (space s).1, value, after := ⟨rest, h⟩ }
    else none

-- ---------------------------------------------------------------------------
-- Only texts of the grammar
-- ---------------------------------------------------------------------------

variable {s r rest : Text} {c : Cat}

theorem space_sound (s : Text) : s = (space s).1.val ++ (space s).2 :=
  List.takeWhile_append_dropWhile.symm

theorem letter_ofLetter {c : Char} {e : Escape} (h : Escape.ofLetter c = some e) : e.letter = c := by
  unfold Escape.ofLetter at h
  split at h <;> cases h <;> rfl

theorem items_sound {is : List Item} (h : items s = some (is, r)) : s = spell is ++ '"' :: r := by
  induction s using items.induct generalizing is with
  | case1 => cases h
  | case2 rest =>
    cases h
    rfl
  | case3 a b c d rest hx ih =>
    rw [items, dif_pos hx, Option.map_eq_some_iff] at h
    obtain ⟨⟨is', r'⟩, hi, heq⟩ := h
    cases heq
    rw [ih hi]
    rfl
  | case4 a b c d rest hx =>
    rw [items, dif_neg hx] at h
    cases h
  | case5 e rest hu e' he ih =>
    simp only [items, he, Option.map_eq_some_iff] at h
    obtain ⟨⟨is', r'⟩, hi, heq⟩ := h
    cases heq
    rw [ih hi, ← letter_ofLetter he]
    rfl
  | case6 e rest hu he =>
    simp only [items, he] at h
    cases h
  | case7 c rest h1 h2 h3 hp ih =>
    simp only [items, dif_pos hp, Option.map_eq_some_iff] at h
    obtain ⟨⟨is', r'⟩, hi, heq⟩ := h
    cases heq
    rw [ih hi]
    rfl
  | case8 c rest h1 h2 h3 hp =>
    simp only [items, dif_neg hp] at h
    cases h

theorem number_sound {v : Value} (h : number s = some (v, r)) : s = v.text ++ r := by
  unfold number at h
  split at h <;> cases h
  exact List.takeWhile_append_dropWhile.symm

theorem scalar_sound {v : Value} (h : scalar s = some (v, r)) : s = v.text ++ r := by
  unfold scalar at h
  split at h
  · rename_i w hw
    cases h
    have hp := List.find?_some hw
    exact (List.prefix_iff_eq_append.mp (List.isPrefixOf_iff_prefix.mp hp)).symm
  · exact number_sound h

theorem label_sound {kind : Kind} {l : Label kind} (h : label kind s = some (l, r)) :
    s = l.text kind ++ r := by
  cases kind with
  | array =>
    cases h
    rfl
  | object =>
    rw [label] at h
    split at h
    · rename_i rest hs
      rw [Option.bind_eq_some_iff] at h
      obtain ⟨⟨is, r'⟩, hi, h⟩ := h
      dsimp only at h
      split at h <;> cases h
      rename_i hr
      calc s = (space s).1.val ++ '"' :: rest := hs ▸ space_sound s
        _ = (space s).1.val ++ '"' :: (spell is ++ '"' :: ((space r').1.val ++ ':' :: r)) := by
          rw [items_sound hi, ← hr, ← space_sound r']
        _ = _ := by simp [Label.text, quoted]
    · cases h

theorem entry_sound {value : Text → Option (Value × Text)} {kind : Kind} {first : Bool}
    {more : Text → Option (Tree (.body kind false) × Text)} {t : Tree (.body kind first)}
    (hv : ∀ s v r, value s = some (v, r) → s = v.text ++ r)
    (hm : ∀ s t r, more s = some (t, r) → s = t.text ++ r)
    (h : entry value kind first more s = some (t, r)) : s = t.text ++ r := by
  rw [entry, Option.bind_eq_some_iff] at h
  obtain ⟨⟨l, s₁⟩, hl, h⟩ := h
  rw [Option.bind_eq_some_iff] at h
  obtain ⟨⟨v, s₂⟩, hval, h⟩ := h
  have hs : s = l.text kind ++ ((space s₁).1.val ++ (v.text ++ ((space s₂).1.val ++ (space s₂).2))) := by
    rw [← space_sound s₂, ← hv _ _ _ hval, ← space_sound s₁]
    exact label_sound hl
  dsimp only at h
  split at h
  · cases h
  · rename_i c s₃ hc
    simp only [hc] at hs
    split at h
    · rename_i hcomma
      obtain ⟨⟨body, r'⟩, hb, heq⟩ := Option.map_eq_some_iff.mp h
      cases heq
      rw [hs, hm _ _ _ hb, hcomma]
      simp [Tree.text]
    · split at h <;> cases h
      rename_i hclose
      rw [hs, hclose]
      simp [Tree.text]

theorem first_sound {inside : (kind : Kind) → Text → Option (Tree (.body kind true) × Text)}
    {v : Value} (hb : ∀ kind s t r, inside kind s = some (t, r) → s = t.text ++ r)
    (h : first inside s = some (v, r)) : s = v.text ++ r := by
  cases s with
  | nil => cases h
  | cons c rest =>
    rw [first] at h
    split at h
    · rename_i hc
      obtain ⟨⟨body, r'⟩, hbody, heq⟩ := Option.map_eq_some_iff.mp h
      cases heq
      rw [hc, hb _ _ _ _ hbody]
      rfl
    · split at h
      · rename_i hc
        obtain ⟨⟨body, r'⟩, hbody, heq⟩ := Option.map_eq_some_iff.mp h
        cases heq
        rw [hc, hb _ _ _ _ hbody]
        rfl
      · split at h
        · rename_i hc
          obtain ⟨⟨is, r'⟩, hi, heq⟩ := Option.map_eq_some_iff.mp h
          cases heq
          rw [hc, items_sound hi]
          simp [Tree.text, quoted]
        · exact scalar_sound h

theorem parse_sound {n : Nat} {t : Tree c} (h : parse n c s = some (t, r)) : s = t.text ++ r := by
  induction n generalizing c s r with
  | zero => cases h
  | succ n ih =>
    have further : ∀ {kind first} {t : Tree (.body kind first)},
        entry (parse n .value) kind first (parse n (.body kind false)) s = some (t, r) →
        s = t.text ++ r := fun h => entry_sound (fun _ _ _ => ih) (fun _ _ _ => ih) h
    match c, t, h with
    | .value, t, h => exact first_sound (fun _ _ _ _ => ih) h
    | .body kind true, t, h =>
      rw [parse] at h
      split at h
      · rename_i hclose
        have hs := space_sound s
        rw [← List.cons_head?_tail hclose] at hs
        cases h
        calc s = (space s).1.val ++ kind.closing :: (space s).2.tail := hs
          _ = _ := by simp [Tree.text]
      · exact further h
    | .body kind false, t, h => exact further h

theorem document_sound {d : Document} (h : document s = some d) : s = d.text := by
  rw [document, Option.bind_eq_some_iff] at h
  obtain ⟨⟨v, rest⟩, hv, h⟩ := h
  dsimp only at h
  split at h <;> cases h
  calc s = (space s).1.val ++ (space s).2 := space_sound s
    _ = (space s).1.val ++ (v.text ++ rest) := by rw [← parse_sound hv]
    _ = _ := by simp [Document.text]

-- ---------------------------------------------------------------------------
-- Every text of the grammar
-- ---------------------------------------------------------------------------

def Stops (p : Char → Bool) (s : Text) : Prop := ∀ c ∈ s.head?, p c = false

theorem Stops.nil {p : Char → Bool} : Stops p [] := nofun

theorem Stops.cons {p : Char → Bool} {c : Char} (h : p c = false) : Stops p (c :: s) := by
  rintro _ ⟨⟩
  exact h

theorem takeWhile_stops {p : Char → Bool} {t : Text} (ht : t.all p = true) (h : Stops p s) :
    (t ++ s).takeWhile p = t ∧ (t ++ s).dropWhile p = s := by
  have ht : ∀ c ∈ t, p c = true := List.all_eq_true.mp ht
  rw [List.takeWhile_append_of_pos ht, List.dropWhile_append_of_pos ht]
  cases s with
  | nil => simp
  | cons c s =>
    have hc : p c = false := h c rfl
    simp [hc]

theorem space_append (gap : Space) (h : Stops isSpace s) : space (gap.val ++ s) = (gap, s) := by
  obtain ⟨ht, hd⟩ := takeWhile_stops gap.property h
  exact Prod.ext (Subtype.ext ht) hd

theorem ofLetter_letter (e : Escape) : Escape.ofLetter e.letter = some e := by
  cases e <;> rfl

theorem items_spell (is : List Item) : items (spell is ++ '"' :: r) = some (is, r) := by
  induction is with
  | nil => rfl
  | cons i is ih =>
    rw [spell, List.flatMap_cons, List.append_assoc, ← spell]
    cases i with
    | plain c hc =>
      have hq : c ≠ '"' ∧ c ≠ '\\' := by
        simp only [isPlain, Bool.and_eq_true, decide_eq_true_eq] at hc
        exact hc.1
      rw [Item.text, List.singleton_append, items.eq_5 _ _ (fun h => hq.1 h) (fun _ _ _ _ _ h => absurd h hq.2)
        (fun _ _ h => absurd h hq.2)]
      · rw [dif_pos hc, ih]
        rfl
    | escape e =>
      have hu : e.letter ≠ 'u' := by cases e <;> decide
      rw [Item.text, List.cons_append, List.singleton_append,
        items.eq_4 _ _ fun _ _ _ _ _ h _ => hu h]
      simp only [ofLetter_letter, ih]
      rfl
    | unicode a b c d =>
      rw [Item.text]
      simp only [List.cons_append, List.nil_append, items, a.property, b.property, c.property,
        d.property, and_self, dif_pos, ih]
      rfl

theorem isDigits_numeric (h : isDigits s = true) : s.all isNumeric = true := by
  simp only [isDigits, Bool.and_eq_true, List.all_eq_true] at h
  refine List.all_eq_true.mpr fun c hc => ?_
  simp [isNumeric, h.2 c hc]

theorem all_digits_numeric : (s.takeWhile Char.isDigit).all isNumeric = true := by
  refine List.all_eq_true.mpr fun c hc => ?_
  have hd : c.isDigit = true := List.all_eq_true.mp List.all_takeWhile c hc
  simp [isNumeric, hd]

theorem isExponent_numeric (h : isExponent s = true) : s.all isNumeric = true := by
  cases s with
  | nil => rfl
  | cons e rest =>
    simp only [isExponent, Bool.and_eq_true, Bool.or_eq_true, decide_eq_true_eq] at h
    have hrest : rest.all isNumeric = true := by
      obtain ⟨-, h⟩ := h
      split at h
      · simpa [isNumeric] using isDigits_numeric h
      · simpa [isNumeric] using isDigits_numeric h
      · exact isDigits_numeric h
    rw [List.all_cons, hrest, Bool.and_true]
    rcases h.1 with rfl | rfl <;> rfl

theorem isFraction_numeric (h : isFraction s = true) : s.all isNumeric = true := by
  unfold isFraction at h
  split at h
  · rename_i rest
    rw [Bool.and_eq_true] at h
    rw [List.all_cons, ← List.takeWhile_append_dropWhile (p := Char.isDigit) (l := rest),
      List.all_append, all_digits_numeric, isExponent_numeric h.2]
    rfl
  · exact isExponent_numeric h

theorem isUnsigned_numeric (h : isUnsigned s = true) : s.all isNumeric = true := by
  unfold isUnsigned at h
  split at h
  · cases h
  · rw [List.all_cons, isFraction_numeric h]
    rfl
  · rename_i c rest _
    rw [Bool.and_eq_true] at h
    rw [List.all_cons, ← List.takeWhile_append_dropWhile (p := Char.isDigit) (l := rest),
      List.all_append, all_digits_numeric, isFraction_numeric h.2]
    simp [isNumeric, h.1]

theorem isNumber_numeric (h : isNumber s = true) : s.all isNumeric = true := by
  unfold isNumber at h
  split at h
  · rw [List.all_cons, isUnsigned_numeric h]
    rfl
  · exact isUnsigned_numeric h

theorem number_head (n : Number) : ∃ c s, n.val = c :: s ∧ (c = '-' ∨ c.isDigit = true) := by
  obtain ⟨s, h⟩ := n
  unfold isNumber at h
  split at h
  · exact ⟨_, _, rfl, .inl rfl⟩
  · unfold isUnsigned at h
    split at h
    · cases h
    · exact ⟨_, _, rfl, .inr rfl⟩
    · rw [Bool.and_eq_true] at h
      exact ⟨_, _, rfl, .inr h.1⟩

theorem number_append (n : Number) (h : Stops isNumeric s) :
    number (n.val ++ s) = some (.number n, s) := by
  obtain ⟨ht, hd⟩ := takeWhile_stops (isNumber_numeric n.property) h
  simp only [number, ht, hd, n.property, dif_pos]

theorem sign_or_digit {c : Char} (h : c = '-' ∨ c.isDigit = true) :
    isSpace c = false ∧ c ≠ ']' ∧ c ≠ '}' ∧ c ≠ '{' ∧ c ≠ '[' ∧ c ≠ '"' ∧ c ≠ 'n' ∧ c ≠ 't' ∧ c ≠ 'f' := by
  rcases h with rfl | h
  · decide
  · refine ⟨?_, ?_, ?_, ?_, ?_, ?_, ?_, ?_, ?_⟩
    · refine Bool.eq_false_iff.mpr fun hs => ?_
      simp only [isSpace, Bool.or_eq_true, decide_eq_true_eq] at hs
      rcases hs with ((rfl | rfl) | rfl) | rfl <;> cases h
    all_goals rintro rfl; cases h

theorem scalar_number (n : Number) (h : Stops isNumeric s) :
    scalar (n.val ++ s) = some (.number n, s) := by
  have hnone : [Word.null, .true, .false].find? (fun w => w.text.isPrefixOf (n.val ++ s)) = none := by
    obtain ⟨c, t, heq, hc⟩ := number_head n
    obtain ⟨-, -, -, -, -, -, hn, ht, hf⟩ := sign_or_digit hc
    simp [heq, Word.text, hn.symm, ht.symm, hf.symm]
  rw [scalar, hnone]
  exact number_append n h

theorem scalar_word (w : Word) : scalar (w.text ++ s) = some (.word w, s) := by
  cases w <;> rfl

theorem value_head (v : Value) : ∃ c s, v.text = c :: s ∧ isSpace c = false ∧ c ≠ ']' ∧ c ≠ '}' := by
  cases v with
  | word w => cases w <;> exact ⟨_, _, rfl, by decide, by decide, by decide⟩
  | number n =>
    obtain ⟨c, s, heq, hc⟩ := number_head n
    obtain ⟨h1, h2, h3, -⟩ := sign_or_digit hc
    exact ⟨c, s, heq, h1, h2, h3⟩
  | string is => exact ⟨_, _, rfl, by decide, by decide, by decide⟩
  | group kind body => cases kind <;> exact ⟨_, _, rfl, by decide, by decide, by decide⟩

theorem value_stops (v : Value) : Stops isSpace (v.text ++ s) := by
  obtain ⟨c, t, heq, hc, -⟩ := value_head v
  rw [heq]
  exact .cons hc

theorem label_append {kind : Kind} (l : Label kind) : label kind (l.text kind ++ s) = some (l, s) := by
  cases kind with
  | array => rfl
  | object =>
    obtain ⟨before, is, after⟩ := l
    have hquote : space (before.val ++ '"' :: (spell is ++ '"' :: (after.val ++ ':' :: s))) =
        (before, '"' :: (spell is ++ '"' :: (after.val ++ ':' :: s))) :=
      space_append before (.cons rfl)
    have hcolon : space (after.val ++ ':' :: s) = (after, ':' :: s) := space_append after (.cons rfl)
    simp only [Label.text, quoted, List.append_assoc, List.cons_append, List.nil_append]
    rw [label, hquote]
    simp only [items_spell, Option.bind_some, hcolon]

theorem entry_open {kind : Kind} (l : Label kind) (before : Space) (v : Value) :
    (space (l.text kind ++ (before.val ++ (v.text ++ s)))).2.head? ≠ some kind.closing := by
  cases kind with
  | array =>
    obtain ⟨c, t, heq, -, hc, -⟩ := value_head v
    rw [show Label.text .array l = [] from rfl, List.nil_append, space_append before (value_stops v), heq]
    exact fun h => hc (Option.some.inj h)
  | object =>
    obtain ⟨gap, is, after⟩ := l
    have hquote : space (gap.val ++ '"' :: (spell is ++ '"' :: (after.val ++ ':' ::
        (before.val ++ (v.text ++ s))))) = (gap, _) := space_append gap (.cons rfl)
    simp only [Label.text, quoted, List.append_assoc, List.cons_append, List.nil_append, hquote]
    exact nofun

theorem stops_numeric (gap : Space) {c : Char} (hc : isNumeric c = false) :
    Stops isNumeric (gap.val ++ c :: s) := by
  obtain ⟨gap, hgap⟩ := gap
  cases gap with
  | nil => exact .cons hc
  | cons d gap =>
    refine .cons ?_
    have hd : isSpace d = true := List.all_eq_true.mp hgap d List.mem_cons_self
    simp only [isSpace, Bool.or_eq_true, decide_eq_true_eq] at hd
    rcases hd with ((rfl | rfl) | rfl) | rfl <;> rfl

section Entry

variable {value : Text → Option (Value × Text)} {kind : Kind}
  {further : Text → Option (Tree (.body kind false) × Text)} (open' : Bool) (l : Label kind)
  (before after : Space) (v : Value)

theorem entry_last
    (hv : value (v.text ++ (after.val ++ kind.closing :: s)) = some (v, after.val ++ kind.closing :: s)) :
    entry value kind open' further
      (l.text kind ++ (before.val ++ (v.text ++ (after.val ++ kind.closing :: s)))) =
      some (.last kind open' l before v after, s) := by
  have hafter : space (after.val ++ kind.closing :: s) = (after, kind.closing :: s) :=
    space_append after (.cons (by cases kind <;> rfl))
  have hcomma : kind.closing ≠ ',' := by cases kind <;> decide
  simp only [entry, label_append, Option.bind_some, space_append before (value_stops v), hv, hafter,
    if_neg hcomma, if_true]

theorem entry_more {body : Tree (.body kind false)} {t : Text}
    (hv : value (v.text ++ (after.val ++ ',' :: t)) = some (v, after.val ++ ',' :: t))
    (hb : further t = some (body, s)) :
    entry value kind open' further (l.text kind ++ (before.val ++ (v.text ++ (after.val ++ ',' :: t)))) =
      some (.more kind open' l before v after body, s) := by
  have hafter : space (after.val ++ ',' :: t) = (after, ',' :: t) := space_append after (.cons rfl)
  simp only [entry, label_append, Option.bind_some, space_append before (value_stops v), hv, hafter,
    if_true, hb, Option.map_some]

end Entry

/-- With fuel for its length the text of a tree is read back, whatever follows. -/
theorem parse_text (t : Tree c) : ∀ n s, t.text.length ≤ n → (c = .value → Stops isNumeric s) →
    parse n c (t.text ++ s) = some (t, s) := by
  induction t with
  | word w =>
    intro n s hn _
    cases n with
    | zero => cases w <;> simp [Tree.text, Word.text] at hn
    | succ n =>
      rw [parse, ← scalar_word w]
      cases w <;> rfl
  | number m =>
    intro n s hn hs
    obtain ⟨c, t, heq, hc⟩ := number_head m
    obtain ⟨-, -, -, h1, h2, h3, -⟩ := sign_or_digit hc
    cases n with
    | zero => simp [Tree.text, heq] at hn
    | succ n =>
      have hscalar := scalar_number m (hs rfl)
      rw [Tree.text]
      rw [heq] at hscalar ⊢
      rw [parse, List.cons_append, first, if_neg h1, if_neg h2, if_neg h3]
      exact hscalar
  | string is =>
    intro n s hn _
    cases n with
    | zero => simp [Tree.text, quoted] at hn
    | succ n =>
      have hitems : items (spell is ++ ['"'] ++ s) = some (is, s) := by
        rw [List.append_assoc]
        exact items_spell is
      rw [Tree.text, quoted, parse, List.cons_append, first, if_neg (by decide), if_neg (by decide),
        if_pos rfl, hitems]
      rfl
  | group kind body ih =>
    intro n s hn _
    cases n with
    | zero => simp [Tree.text] at hn
    | succ n =>
      have hbody := ih n s (by simpa [Tree.text] using hn) nofun
      cases kind with
      | object =>
        rw [Tree.text, parse, List.cons_append, first, if_pos (show Kind.object.opening = '{' from rfl),
          hbody]
        rfl
      | array =>
        rw [Tree.text, parse, List.cons_append, first,
          if_neg (show Kind.array.opening ≠ '{' by decide),
          if_pos (show Kind.array.opening = '[' from rfl), hbody]
        rfl
  | close kind gap =>
    intro n s hn _
    cases n with
    | zero => simp [Tree.text] at hn
    | succ n =>
      have hgap : space (gap.val ++ kind.closing :: s) = (gap, kind.closing :: s) :=
        space_append gap (.cons (by cases kind <;> rfl))
      rw [Tree.text, List.append_assoc, List.singleton_append, parse, hgap]
      exact if_pos rfl
  | last kind open' l before v after ih =>
    intro n s hn _
    cases n with
    | zero => simp [Tree.text] at hn
    | succ n =>
      have hv := ih n (after.val ++ kind.closing :: s) (by simp [Tree.text] at hn; omega)
        fun _ => stops_numeric after (by cases kind <;> rfl)
      have htext : (Tree.last kind open' l before v after).text ++ s =
          l.text kind ++ (before.val ++ (v.text ++ (after.val ++ kind.closing :: s))) := by
        simp [Tree.text]
      rw [htext]
      cases open' with
      | false => exact entry_last false l before after v hv
      | true =>
        rw [parse, if_neg (entry_open l before v)]
        exact entry_last true l before after v hv
  | more kind open' l before v after body ihv ihb =>
    intro n s hn _
    cases n with
    | zero => simp [Tree.text] at hn
    | succ n =>
      have hv := ihv n (after.val ++ ',' :: (body.text ++ s)) (by simp [Tree.text] at hn; omega)
        fun _ => stops_numeric after rfl
      have hb := ihb n s (by simp [Tree.text] at hn; omega) nofun
      have htext : (Tree.more kind open' l before v after body).text ++ s =
          l.text kind ++ (before.val ++ (v.text ++ (after.val ++ ',' :: (body.text ++ s)))) := by
        simp [Tree.text]
      rw [htext]
      cases open' with
      | false => exact entry_more false l before after v hv hb
      | true =>
        rw [parse, if_neg (entry_open l before v)]
        exact entry_more true l before after v hv hb

theorem document_text (d : Document) : document d.text = some d := by
  obtain ⟨before, v, after⟩ := d
  have hstops : Stops isNumeric after.val := by
    obtain ⟨after, hafter⟩ := after
    cases after with
    | nil => exact .nil
    | cons c after =>
      have hc : isSpace c = true := List.all_eq_true.mp hafter c List.mem_cons_self
      refine .cons ?_
      simp only [isSpace, Bool.or_eq_true, decide_eq_true_eq] at hc
      rcases hc with ((rfl | rfl) | rfl) | rfl <;> rfl
  have htext : Document.text ⟨before, v, after⟩ = before.val ++ (v.text ++ after.val) := by
    simp [Document.text]
  have hspace : space (before.val ++ (v.text ++ after.val)) = (before, v.text ++ after.val) :=
    space_append before (value_stops v)
  have hv := parse_text v (before.val ++ (v.text ++ after.val)).length after.val
    (by simp only [List.length_append]; omega) fun _ => hstops
  rw [htext, document, hspace, hv]
  exact dif_pos after.property

theorem document_iff {d : Document} : document s = some d ↔ s = d.text :=
  ⟨document_sound, fun h => h ▸ document_text d⟩

end Json
