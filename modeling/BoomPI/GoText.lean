import Mathlib.Tactic.Ring
import BoomPI.Utf8

/-!
# Go texts

`strings.TrimSpace`, and `strconv.Quote` with `strconv.Unquote` of what it writes.
-/

namespace GoText

abbrev Text := List Char

variable {s t : Text} {c : Char}

-- ---------------------------------------------------------------------------
-- Blanks
-- ---------------------------------------------------------------------------

/-- `unicode.IsSpace` -/
def isSpace (c : Char) : Bool :=
  0x09 ≤ c.toNat && c.toNat ≤ 0x0d || c.toNat = 0x20 || c.toNat = 0x85 || c.toNat = 0xa0 ||
    c.toNat = 0x1680 || 0x2000 ≤ c.toNat && c.toNat ≤ 0x200a || c.toNat = 0x2028 || c.toNat = 0x2029 ||
    c.toNat = 0x202f || c.toNat = 0x205f || c.toNat = 0x3000

def trimLeft (s : Text) : Text := s.dropWhile isSpace

def trimRight (s : Text) : Text := (s.reverse.dropWhile isSpace).reverse

/-- `strings.TrimSpace` -/
def trimSpace (s : Text) : Text := trimRight (trimLeft s)

theorem trimRight_append (hc : isSpace c = false) : trimRight (s ++ c :: t) = s ++ c :: trimRight t := by
  have hreverse : (s ++ c :: t).reverse = t.reverse ++ (c :: s.reverse) := by simp
  have hstays : (c :: s.reverse).dropWhile isSpace = c :: s.reverse := by simp [hc]
  rw [trimRight, hreverse, List.dropWhile_append, hstays, trimRight]
  split
  · rename_i h
    rw [List.isEmpty_iff.mp h]
    simp
  · simp

theorem trimRight_nil : trimRight [] = [] := rfl

theorem trimRight_blanks (ht : t.all isSpace = true) : trimRight (s ++ t) = trimRight s := by
  have hblank : ∀ c ∈ t.reverse, isSpace c = true := by
    intro c hc
    exact List.all_eq_true.mp ht c (List.mem_reverse.mp hc)
  rw [trimRight, List.reverse_append, List.dropWhile_append_of_pos hblank, trimRight]

theorem trimSpace_cons (hc : isSpace c = false) : trimSpace (c :: s) = c :: trimRight s := by
  have hstays : trimLeft (c :: s) = c :: s := by simp [trimLeft, hc]
  rw [trimSpace, hstays]
  exact @trimRight_append [] s c hc

theorem trimSpace_ends {c' : Char} (hc : isSpace c = false) (hc' : isSpace c' = false) (hs : s = t ++ [c'])
    (hhead : s.head? = some c) : trimSpace s = s := by
  have hleft : trimLeft s = s := by
    rw [trimLeft, ← List.cons_head?_tail hhead, List.dropWhile_cons_of_neg (by simp [hc])]
  rw [trimSpace, hleft, hs, trimRight_append hc', trimRight_nil]

theorem head_of_trimmed (h : trimSpace (c :: s) = c :: s) : isSpace c = false := by
  by_contra hblank
  rw [Bool.not_eq_false] at hblank
  have htrim : trimSpace (c :: s) = trimRight (trimLeft s) := by
    simp [trimSpace, trimLeft, hblank]
  have hright : ∀ t, (trimRight t).length ≤ t.length := by
    intro t
    have := (List.dropWhile_suffix isSpace (l := t.reverse)).length_le
    simpa [trimRight] using this
  have hleft : (trimLeft s).length ≤ s.length := (List.dropWhile_suffix isSpace).length_le
  have hlength := congrArg List.length (htrim.symm.trans h)
  have := hright (trimLeft s)
  rw [List.length_cons] at hlength
  omega

-- ---------------------------------------------------------------------------
-- Hexadecimal digits
-- ---------------------------------------------------------------------------

def lowerhex : List Char :=
  ['0', '1', '2', '3', '4', '5', '6', '7', '8', '9', 'a', 'b', 'c', 'd', 'e', 'f']

def unhex (c : Char) : Option Nat :=
  if '0' ≤ c ∧ c ≤ '9' then some (c.toNat - 0x30)
  else if 'a' ≤ c ∧ c ≤ 'f' then some (c.toNat - 0x61 + 10)
  else if 'A' ≤ c ∧ c ≤ 'F' then some (c.toNat - 0x41 + 10)
  else none

theorem unhex_lowerhex (n : Nat) : unhex (lowerhex.getD (n % 16) '0') = some (n % 16) := by
  have hall : ∀ m : Fin 16, unhex (lowerhex.getD m '0') = some m.val := by decide
  exact hall ⟨n % 16, Nat.mod_lt n (by decide)⟩

/-- The last `k` digits of a number. -/
def hexText : Nat → Nat → Text
  | 0, _ => []
  | k + 1, v => lowerhex.getD (v / 16 ^ k % 16) '0' :: hexText k v

theorem mem_hexText {k v : Nat} (h : c ∈ hexText k v) : c ∈ lowerhex := by
  have hall : ∀ m : Fin 16, lowerhex.getD m '0' ∈ lowerhex := by decide
  induction k with
  | zero => exact absurd h (List.not_mem_nil)
  | succ k ih =>
    rcases List.mem_cons.mp h with rfl | h
    · exact hall ⟨v / 16 ^ k % 16, Nat.mod_lt _ (by decide)⟩
    · exact ih h

/-- Reads `k` digits behind those of `v`. -/
def readHex : Nat → Nat → Text → Option (Nat × Text)
  | 0, v, s => some (v, s)
  | _ + 1, _, [] => none
  | k + 1, v, c :: s =>
    match unhex c with
    | none => none
    | some x => readHex k (v * 16 + x) s

theorem readHex_hexText (k v n : Nat) :
    readHex k v (hexText k n ++ s) = some (v * 16 ^ k + n % 16 ^ k, s) := by
  induction k generalizing v with
  | zero => simp [readHex, hexText, Nat.mod_one]
  | succ k ih =>
    have hdigits : n % 16 ^ (k + 1) = n % 16 ^ k + 16 ^ k * (n / 16 ^ k % 16) := by
      rw [Nat.pow_succ, Nat.mod_mul]
    rw [hexText, List.cons_append, readHex, unhex_lowerhex]
    dsimp only
    rw [ih, hdigits]
    congr 2
    ring

-- ---------------------------------------------------------------------------
-- Quoting
-- ---------------------------------------------------------------------------

/-- `strconv.IsPrint`; `printable` is its table behind Latin-1. -/
def isPrint (printable : Char → Bool) (c : Char) : Bool :=
  if c.toNat ≤ 0xff then 0x20 ≤ c.toNat && c.toNat < 0x7f || 0xa1 ≤ c.toNat && c.toNat ≠ 0xad
  else printable c

def letters : List (Nat × Char) :=
  [(0x07, 'a'), (0x08, 'b'), (0x0c, 'f'), (0x0a, 'n'), (0x0d, 'r'), (0x09, 't'), (0x0b, 'v')]

variable (printable : Char → Bool)

def quoteRune (c : Char) : Text :=
  if c = '"' ∨ c = '\\' then ['\\', c]
  else if isPrint printable c then [c]
  else match letters.lookup c.toNat with
  | some letter => ['\\', letter]
  | none =>
    if c.toNat < 0x20 ∨ c.toNat = 0x7f then '\\' :: 'x' :: hexText 2 c.toNat
    else if c.toNat < 0x10000 then '\\' :: 'u' :: hexText 4 c.toNat
    else '\\' :: 'U' :: hexText 8 c.toNat

/-- `strconv.Quote` -/
def quote (s : Text) : Text := '"' :: (s.flatMap (quoteRune printable) ++ ['"'])

/-- The character with code `v`, in bytes. -/
def rune (v : Nat × Text) : Option (List UInt8 × Text) :=
  if v.1.isValidChar then some (String.utf8EncodeChar (Char.ofNat v.1), v.2) else none

def octalDigit (c : Char) : Option Nat := if '0' ≤ c ∧ c ≤ '7' then some (c.toNat - 0x30) else none

def octal (c : Char) : Text → Option (List UInt8 × Text)
  | d :: e :: rest => do
    let v := (← octalDigit c) * 64 + (← octalDigit d) * 8 + (← octalDigit e)
    if 255 < v then none else some ([.ofNat v], rest)
  | _ => none

def unquoteEscape (c : Char) (rest : Text) : Option (List UInt8 × Text) :=
  match letters.find? fun l => l.2 = c with
  | some (code, _) => some ([.ofNat code], rest)
  | none =>
    if c = 'x' then (readHex 2 0 rest).map fun v => ([.ofNat v.1], v.2)
    else if c = 'u' then (readHex 4 0 rest).bind rune
    else if c = 'U' then (readHex 8 0 rest).bind rune
    else if c = '\\' ∨ c = '"' then some (String.utf8EncodeChar c, rest)
    else octal c rest

/-- `strconv.UnquoteChar` in double quotes; the bytes it stands for. -/
def unquoteChar : Text → Option (List UInt8 × Text)
  | [] => none
  | c :: rest =>
    if c = '"' then none
    else if c ≠ '\\' then some (String.utf8EncodeChar c, rest)
    else match rest with
    | [] => none
    | c :: rest => unquoteEscape c rest

/-- The loop of `strconv.Unquote` behind the opening quote. -/
def unquoteFrom : Nat → Text → Option (List UInt8)
  | 0, _ => none
  | _ + 1, [] => none
  | fuel + 1, c :: rest =>
    if c = '"' then if rest = [] then some [] else none
    else if c = '\n' then none
    else match unquoteChar (c :: rest) with
    | none => none
    | some (bytes, rest) => (unquoteFrom fuel rest).map (bytes ++ ·)

/-- `strconv.Unquote` of a text that starts with a double quote. -/
def unquote (s : Text) : Option (List UInt8) := unquoteFrom s.tail.length s.tail

theorem encodeChar_ascii (h : c.toNat < 0x80) : String.utf8EncodeChar c = [.ofNat c.toNat] := by
  have hle : c.val.toNat ≤ 0x7f := Nat.le_of_lt_succ h
  simp only [String.utf8EncodeChar, hle, if_true]
  rfl

theorem rune_toNat (c : Char) : rune (c.toNat, s) = some (String.utf8EncodeChar c, s) := by
  have hvalid : c.toNat.isValidChar := c.valid
  rw [rune, if_pos hvalid, Char.ofNat_toNat]

theorem toNat_lt (c : Char) : c.toNat < 16 ^ 8 := by
  have hvalid : c.toNat.isValidChar := c.valid
  rw [Nat.isValidChar] at hvalid
  omega

theorem letters_find {code : Nat} {letter : Char} (h : letters.lookup code = some letter) :
    letters.find? (fun l => l.2 = letter) = some (code, letter) ∧ code < 0x20 := by
  have hall : ∀ p ∈ letters, letters.find? (fun l => l.2 = p.2) = some p ∧ p.1 < 0x20 := by decide
  obtain ⟨before, behind, heq, -⟩ := List.lookup_eq_some_iff.mp h
  have hmem : (code, letter) ∈ letters := by simp [heq]
  exact hall (code, letter) hmem

theorem unquoteEscape_of_none {letter : Char} (h : (letters.find? fun l => l.2 = letter) = none) :
    unquoteEscape letter s =
      if letter = 'x' then (readHex 2 0 s).map fun v => ([.ofNat v.1], v.2)
      else if letter = 'u' then (readHex 4 0 s).bind rune
      else if letter = 'U' then (readHex 8 0 s).bind rune
      else if letter = '\\' ∨ letter = '"' then some (String.utf8EncodeChar letter, s)
      else octal letter s := by
  rw [unquoteEscape, h]

theorem unquoteChar_quoteRune (c : Char) :
    unquoteChar (quoteRune printable c ++ s) = some (String.utf8EncodeChar c, s) := by
  rw [quoteRune]
  split
  · rename_i h
    rcases h with rfl | rfl <;> rfl
  · rename_i hquote
    obtain ⟨hquote, hslash⟩ := not_or.mp hquote
    split
    · simp [unquoteChar, hquote, hslash]
    · split
      · rename_i letter hletter
        obtain ⟨hfind, hlt⟩ := letters_find hletter
        change unquoteEscape letter s = _
        rw [unquoteEscape, hfind, @encodeChar_ascii c (by omega)]
      · split
        · rename_i h
          have hmod : c.toNat % 16 ^ 2 = c.toNat := Nat.mod_eq_of_lt (by omega)
          have hread := @readHex_hexText s 2 0 c.toNat
          rw [hmod, Nat.zero_mul, Nat.zero_add] at hread
          change unquoteEscape 'x' (hexText 2 c.toNat ++ s) = _
          rw [unquoteEscape_of_none (by decide), if_pos rfl, hread,
            @encodeChar_ascii c (by omega)]
          rfl
        · split
          · rename_i h
            have hmod : c.toNat % 16 ^ 4 = c.toNat := Nat.mod_eq_of_lt (by omega)
            have hread := @readHex_hexText s 4 0 c.toNat
            rw [hmod, Nat.zero_mul, Nat.zero_add] at hread
            change unquoteEscape 'u' (hexText 4 c.toNat ++ s) = _
            rw [unquoteEscape_of_none (by decide), if_neg (by decide), if_pos rfl, hread]
            exact rune_toNat c
          · have hmod : c.toNat % 16 ^ 8 = c.toNat := Nat.mod_eq_of_lt (toNat_lt c)
            have hread := @readHex_hexText s 8 0 c.toNat
            rw [hmod, Nat.zero_mul, Nat.zero_add] at hread
            change unquoteEscape 'U' (hexText 8 c.toNat ++ s) = _
            rw [unquoteEscape_of_none (by decide), if_neg (by decide), if_neg (by decide), if_pos rfl, hread]
            exact rune_toNat c

theorem quoteRune_head (c : Char) :
    ∃ head tail, quoteRune printable c = head :: tail ∧ head ≠ '"' ∧ head ≠ '\n' := by
  rw [quoteRune]
  split
  · exact ⟨_, _, rfl, by decide, by decide⟩
  · rename_i hquote
    split
    · rename_i hprint
      refine ⟨_, _, rfl, (not_or.mp hquote).1, ?_⟩
      rintro rfl
      simp [isPrint] at hprint
    · split
      · exact ⟨_, _, rfl, by decide, by decide⟩
      · split
        · exact ⟨_, _, rfl, by decide, by decide⟩
        · split
          · exact ⟨_, _, rfl, by decide, by decide⟩
          · exact ⟨_, _, rfl, by decide, by decide⟩

theorem unquoteFrom_quote (s : Text) : ∀ fuel, (s.flatMap (quoteRune printable) ++ ['"']).length ≤ fuel →
    unquoteFrom fuel (s.flatMap (quoteRune printable) ++ ['"']) = some (Utf8.encode s) := by
  induction s with
  | nil =>
    intro fuel hfuel
    have hpos : 0 < fuel := hfuel
    obtain ⟨fuel, rfl⟩ : ∃ n, fuel = n + 1 := ⟨fuel - 1, by omega⟩
    rfl
  | cons c s ih =>
    intro fuel hfuel
    obtain ⟨head, tail, heq, hquote, hline⟩ := quoteRune_head printable c
    have hchar := @unquoteChar_quoteRune (s.flatMap (quoteRune printable) ++ ['"']) printable c
    rw [List.flatMap_cons, List.append_assoc] at hfuel ⊢
    rw [heq, List.cons_append] at hfuel hchar ⊢
    rw [List.length_cons, List.length_append] at hfuel
    obtain ⟨fuel, rfl⟩ : ∃ n, fuel = n + 1 := ⟨fuel - 1, by omega⟩
    rw [unquoteFrom, if_neg hquote, if_neg hline, hchar]
    dsimp only
    rw [ih fuel (by omega)]
    rfl

/-- What `Quote` wrote, `Unquote` reads. -/
theorem unquote_quote (s : Text) : unquote (quote printable s) = some (Utf8.encode s) :=
  unquoteFrom_quote printable s _ (Nat.le_refl _)

end GoText
