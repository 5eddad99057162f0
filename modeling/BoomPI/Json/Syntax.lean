import Mathlib.Data.List.Basic

/-!
# JSON texts

A JSON text with all its spelling. A `Tree` keeps the whitespace and the escapes
it was written with, and there is one for the texts of the grammar only.
-/

namespace Json

abbrev Text := List Char

-- ---------------------------------------------------------------------------
-- Whitespace and numbers
-- ---------------------------------------------------------------------------

def isSpace (c : Char) : Bool := c = ' ' || c = '\t' || c = '\n' || c = '\r'

abbrev Space := { s : Text // s.all isSpace = true }

def isDigits (s : Text) : Bool := !s.isEmpty && s.all Char.isDigit

def isExponent : Text → Bool
  | [] => true
  | e :: rest =>
    (e = 'e' || e = 'E') &&
      match rest with
      | '+' :: digits | '-' :: digits => isDigits digits
      | digits => isDigits digits

def isFraction : Text → Bool
  | '.' :: rest => isDigits (rest.takeWhile Char.isDigit) && isExponent (rest.dropWhile Char.isDigit)
  | rest => isExponent rest

def isUnsigned : Text → Bool
  | [] => false
  | '0' :: rest => isFraction rest
  | c :: rest => c.isDigit && isFraction (rest.dropWhile Char.isDigit)

def isNumber : Text → Bool
  | '-' :: rest => isUnsigned rest
  | rest => isUnsigned rest

abbrev Number := { n : Text // isNumber n = true }

def isNumeric (c : Char) : Bool := c.isDigit || c = '-' || c = '+' || c = '.' || c = 'e' || c = 'E'

-- ---------------------------------------------------------------------------
-- Strings
-- ---------------------------------------------------------------------------

def isPlain (c : Char) : Bool := c ≠ '"' && c ≠ '\\' && 0x20 ≤ c.toNat

inductive Escape
  | quote
  | backslash
  | slash
  | b
  | f
  | n
  | r
  | t
  deriving DecidableEq, Repr

def Escape.letter : Escape → Char
  | .quote => '"'
  | .backslash => '\\'
  | .slash => '/'
  | .b => 'b'
  | .f => 'f'
  | .n => 'n'
  | .r => 'r'
  | .t => 't'

def Escape.ofLetter : Char → Option Escape
  | '"' => some .quote
  | '\\' => some .backslash
  | '/' => some .slash
  | 'b' => some .b
  | 'f' => some .f
  | 'n' => some .n
  | 'r' => some .r
  | 't' => some .t
  | _ => none

def Escape.value : Escape → Char
  | .quote => '"'
  | .backslash => '\\'
  | .slash => '/'
  | .b => Char.ofNat 0x08
  | .f => Char.ofNat 0x0c
  | .n => '\n'
  | .r => '\r'
  | .t => '\t'

def hexDigit (c : Char) : Option Nat :=
  if c.isDigit then some (c.toNat - 0x30)
  else if 'a' ≤ c ∧ c ≤ 'f' then some (c.toNat - 0x61 + 10)
  else if 'A' ≤ c ∧ c ≤ 'F' then some (c.toNat - 0x41 + 10)
  else none

abbrev Hex := { c : Char // (hexDigit c).isSome = true }

def Hex.value (h : Hex) : Nat := (hexDigit h.val).get h.property

inductive Item
  | plain (c : Char) (h : isPlain c = true)
  | escape (e : Escape)
  | unicode (a b c d : Hex)
  deriving DecidableEq, Repr

def Item.text : Item → Text
  | .plain c _ => [c]
  | .escape e => ['\\', e.letter]
  | .unicode a b c d => ['\\', 'u', a.val, b.val, c.val, d.val]

/-- The code unit of `\uXXXX`. -/
def codeUnit (a b c d : Hex) : Nat :=
  ((a.value * 16 + b.value) * 16 + c.value) * 16 + d.value

def isHigh (u : Nat) : Bool := 0xd800 ≤ u && u < 0xdc00
def isLow (u : Nat) : Bool := 0xdc00 ≤ u && u < 0xe000

def replacement : Char := Char.ofNat 0xfffd

def Item.surrogate : Item → Option Nat
  | .unicode a b c d =>
    let u := codeUnit a b c d
    if isHigh u || isLow u then some u else none
  | _ => none

def Item.value : Item → Char
  | .plain c _ => c
  | .escape e => e.value
  | .unicode a b c d => Char.ofNat (codeUnit a b c d)

def pair (high low : Nat) : Char := Char.ofNat (0x10000 + (high - 0xd800) * 0x400 + (low - 0xdc00))

/-- The string some items spell; a surrogate without its other half becomes U+FFFD. -/
def decodeFrom : Option Nat → List Item → Text
  | none, [] => []
  | some _, [] => [replacement]
  | high, item :: rest =>
    match item.surrogate, high with
    | none, none => item.value :: decodeFrom none rest
    | none, some _ => replacement :: item.value :: decodeFrom none rest
    | some u, none => if isHigh u then decodeFrom (some u) rest else replacement :: decodeFrom none rest
    | some u, some h =>
      if isHigh u then replacement :: decodeFrom (some u) rest else pair h u :: decodeFrom none rest

def decode : List Item → Text := decodeFrom none

def spell (items : List Item) : Text := items.flatMap Item.text

def quoted (items : List Item) : Text := '"' :: (spell items ++ ['"'])

-- ---------------------------------------------------------------------------
-- Trees
-- ---------------------------------------------------------------------------

inductive Word
  | null
  | true
  | false
  deriving DecidableEq, Repr

def Word.text : Word → Text
  | .null => ['n', 'u', 'l', 'l']
  | .true => ['t', 'r', 'u', 'e']
  | .false => ['f', 'a', 'l', 's', 'e']

inductive Kind
  | array
  | object
  deriving DecidableEq, Repr

def Kind.opening : Kind → Char
  | .array => '['
  | .object => '{'

def Kind.closing : Kind → Char
  | .array => ']'
  | .object => '}'

structure Key where
  before : Space
  items : List Item
  after : Space
  deriving DecidableEq, Repr

/-- What stands in front of an entry: in an object its key. -/
def Label : Kind → Type
  | .array => Unit
  | .object => Key

def Label.text : (kind : Kind) → Label kind → Text
  | .array, _ => []
  | .object, key => key.before.val ++ quoted key.items ++ key.after.val ++ [':']

def Label.key : (kind : Kind) → Label kind → Option Text
  | .array, _ => none
  | .object, key => some (decode key.items)

/-- A value, or what is left of the inside of an array or object, its closing bracket
included; `first` when nothing of it has been written. -/
inductive Cat
  | value
  | body (kind : Kind) (first : Bool)
  deriving DecidableEq, Repr

inductive Tree : Cat → Type
  | word (w : Word) : Tree .value
  | number (n : Number) : Tree .value
  | string (items : List Item) : Tree .value
  | group (kind : Kind) (body : Tree (.body kind true)) : Tree .value
  | close (kind : Kind) (gap : Space) : Tree (.body kind true)
  | last (kind : Kind) (first : Bool) (label : Label kind) (before : Space) (value : Tree .value)
      (after : Space) : Tree (.body kind first)
  | more (kind : Kind) (first : Bool) (label : Label kind) (before : Space) (value : Tree .value)
      (after : Space) (rest : Tree (.body kind false)) : Tree (.body kind first)

abbrev Value := Tree .value

namespace Tree

def text {c : Cat} : Tree c → Text
  | .word w => w.text
  | .number n => n.val
  | .string items => quoted items
  | .group kind body => kind.opening :: body.text
  | .close kind gap => gap.val ++ [kind.closing]
  | .last kind _ label before value after =>
    label.text kind ++ before.val ++ value.text ++ after.val ++ [kind.closing]
  | .more kind _ label before value after rest =>
    label.text kind ++ before.val ++ value.text ++ after.val ++ ',' :: rest.text

def depth {c : Cat} : Tree c → Nat
  | .group _ body => body.depth + 1
  | .last _ _ _ _ value _ => value.depth
  | .more _ _ _ _ value _ rest => max value.depth rest.depth
  | _ => 0

def entries {c : Cat} : Tree c → List (Option Text × Value)
  | .last kind _ label _ value _ => [(label.key kind, value)]
  | .more kind _ label _ value _ rest => (label.key kind, value) :: rest.entries
  | _ => []

def keys {c : Cat} (t : Tree c) : List Text := t.entries.filterMap Prod.fst

def noDuplicates {c : Cat} : Tree c → Bool
  | .group _ body => decide body.keys.Nodup && body.noDuplicates
  | .last _ _ _ _ value _ => value.noDuplicates
  | .more _ _ _ _ value _ rest => value.noDuplicates && rest.noDuplicates
  | _ => true

end Tree

inductive Token
  | word (w : Word)
  | number (n : Text)
  | string (s : Text)
  | delim (c : Char)
  deriving DecidableEq, Repr

namespace Tree

def tokens {c : Cat} : Tree c → List Token
  | .word w => [.word w]
  | .number n => [.number n.val]
  | .string items => [.string (decode items)]
  | .group kind body => .delim kind.opening :: body.tokens
  | .close kind _ => [.delim kind.closing]
  | .last kind _ label _ value _ =>
    (label.key kind).toList.map .string ++ value.tokens ++ [.delim kind.closing]
  | .more kind _ label _ value _ rest =>
    (label.key kind).toList.map .string ++ value.tokens ++ rest.tokens

end Tree

structure Document where
  before : Space
  value : Value
  after : Space

def Document.text (d : Document) : Text := d.before.val ++ d.value.text ++ d.after.val

end Json
