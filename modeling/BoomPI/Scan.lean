import Mathlib.Algebra.Order.Ring.Nat
import Mathlib.Data.List.TakeWhile

/-!
# Words and numbers in C strings

What `operator>>` of a C++ stream and the directives of `sscanf` take off a string of
bytes in the C locale, and what is written for them to read: words between blanks, and
numbers in decimal.
-/

namespace Scan

variable {s t w : List UInt8} {c : UInt8} {n : Nat}

-- ---------------------------------------------------------------------------
-- Reading
-- ---------------------------------------------------------------------------

/-- `isspace` -/
def isSpace (c : UInt8) : Bool := c = 0x20 ∨ (0x09 ≤ c ∧ c ≤ 0x0d)

def isDigit (c : UInt8) : Bool := 0x30 ≤ c ∧ c ≤ 0x39

def skipSpaces (s : List UInt8) : List UInt8 := s.dropWhile isSpace

/-- A word of at most `width` characters, and what follows it. -/
def wordWithin (width : Nat) (s : List UInt8) : Option (List UInt8 × List UInt8) :=
  let s := skipSpaces s
  let w := (s.takeWhile fun c => ! isSpace c).take width
  if w = [] then none else some (w, s.drop w.length)

def word (s : List UInt8) : Option (List UInt8 × List UInt8) := wordWithin s.length s

def value (ds : List UInt8) : Nat := ds.foldl (fun v d => v * 10 + (d.toNat - 0x30)) 0

def sign : List UInt8 → Bool × List UInt8
  | 0x2d :: s => (true, s)
  | 0x2b :: s => (false, s)
  | s => (false, s)

/-- An optionally signed decimal number: whether it is negative, its magnitude, and what
follows it. -/
def number (s : List UInt8) : Option (Bool × Nat × List UInt8) :=
  let (negative, s) := sign (skipSpaces s)
  let ds := s.takeWhile isDigit
  if ds = [] then none else some (negative, value ds, s.drop ds.length)

def literal (l s : List UInt8) : Option (List UInt8) := if l <+: s then some (s.drop l.length) else none

-- ---------------------------------------------------------------------------
-- Writing
-- ---------------------------------------------------------------------------

/-- `std::to_string`, `%d` of a number that is not negative -/
def decimal (n : Nat) : List UInt8 := (Nat.toDigits 10 n).map fun c => UInt8.ofNat c.toNat

def Blank (s : List UInt8) : Prop := ∀ c ∈ s.head?, isSpace c = true

theorem blank_nil : Blank [] := by simp [Blank]

theorem blank_cons (h : isSpace c = true) : Blank (c :: s) := by simp [Blank, h]

theorem skipSpaces_cons (h : isSpace c = false) : skipSpaces (c :: s) = c :: s := by simp [skipSpaces, h]

theorem skipSpaces_blank (h : isSpace c = true) : skipSpaces (c :: s) = skipSpaces s := by simp [skipSpaces, h]

theorem takeWhile_word (hw : ∀ c ∈ w, isSpace c = false) (ht : Blank t) :
    (w ++ t).takeWhile (fun c => ! isSpace c) = w := by
  induction w with
  | nil =>
    cases t with
    | nil => rfl
    | cons c t => simp [ht c rfl]
  | cons c w ih =>
    have hc : isSpace c = false := hw c List.mem_cons_self
    simp [hc, ih fun c h => hw c (List.mem_cons_of_mem _ h)]

theorem wordWithin_append {width : Nat} (hn : w ≠ []) (hw : ∀ c ∈ w, isSpace c = false) (hlen : w.length ≤ width)
    (ht : Blank t) : wordWithin width (w ++ t) = some (w, t) := by
  have hskip : skipSpaces (w ++ t) = w ++ t := by
    cases w with
    | nil => exact absurd rfl hn
    | cons c w => exact skipSpaces_cons (hw c List.mem_cons_self)
  simp [wordWithin, hskip, takeWhile_word hw ht, List.take_of_length_le hlen, hn]

theorem word_append (hn : w ≠ []) (hw : ∀ c ∈ w, isSpace c = false) (ht : Blank t) :
    word (w ++ t) = some (w, t) :=
  wordWithin_append hn hw (by simp) ht

theorem wordWithin_blank {width : Nat} (h : isSpace c = true) : wordWithin width (c :: s) = wordWithin width s := by
  simp [wordWithin, skipSpaces_blank h]

theorem word_blank_append (h : isSpace c = true) (hn : w ≠ []) (hw : ∀ c ∈ w, isSpace c = false) (ht : Blank t) :
    word (c :: (w ++ t)) = some (w, t) := by
  rw [word, wordWithin_blank h]
  exact wordWithin_append hn hw (by simp; omega) ht

theorem word_blanks (h : ∀ c ∈ s, isSpace c = true) : word s = none := by
  have hskip : skipSpaces s = [] := List.dropWhile_eq_nil_iff.mpr h
  simp [word, wordWithin, hskip]

theorem digit_byte : ∀ n : Fin 10, isDigit (UInt8.ofNat (Nat.digitChar n).toNat) = true ∧
    (UInt8.ofNat (Nat.digitChar n).toNat).toNat - 0x30 = n := by decide

theorem digit_isSpace : ∀ c, isDigit c = true → isSpace c = false := by
  intro c h
  simp only [isDigit, decide_eq_true_eq, UInt8.le_iff_toNat_le] at h
  simp only [isSpace, decide_eq_false_iff_not, not_or, ← UInt8.toNat_inj, UInt8.le_iff_toNat_le]
  have h1 : (0x30 : UInt8).toNat = 48 := rfl
  have h2 : (0x20 : UInt8).toNat = 32 := rfl
  have h3 : (0x0d : UInt8).toNat = 13 := rfl
  omega

theorem decimal_of_lt (h : n < 10) : decimal n = [UInt8.ofNat (Nat.digitChar n).toNat] := by
  rw [decimal, Nat.toDigits_of_lt_base h]
  rfl

theorem decimal_of_le (h : 10 ≤ n) : decimal n = decimal (n / 10) ++ [UInt8.ofNat (Nat.digitChar (n % 10)).toNat] := by
  rw [decimal, Nat.toDigits_of_base_le (by decide) h, List.map_append]
  rfl

theorem decimal_digits (n : Nat) : decimal n ≠ [] ∧ ∀ c ∈ decimal n, isDigit c = true := by
  induction n using Nat.strongRecOn with
  | _ n ih =>
    by_cases h : n < 10
    · rw [decimal_of_lt h]
      simpa using (digit_byte ⟨n, h⟩).1
    · obtain ⟨-, hall⟩ := ih (n / 10) (by omega)
      have hlast := (digit_byte ⟨n % 10, Nat.mod_lt _ (by decide)⟩).1
      rw [decimal_of_le (Nat.le_of_not_lt h)]
      refine ⟨by simp, fun c hc => ?_⟩
      rcases List.mem_append.mp hc with hc | hc
      · exact hall c hc
      · rw [List.mem_singleton.mp hc]
        exact hlast

theorem value_decimal (n : Nat) : value (decimal n) = n := by
  induction n using Nat.strongRecOn with
  | _ n ih =>
    by_cases h : n < 10
    · have hdigit := (digit_byte ⟨n, h⟩).2
      rw [decimal_of_lt h]
      simpa [value] using hdigit
    · have hdigit := (digit_byte ⟨n % 10, Nat.mod_lt _ (by decide)⟩).2
      have hrest := ih (n / 10) (by omega)
      rw [decimal_of_le (Nat.le_of_not_lt h)]
      simp only [value, List.foldl_append, List.foldl_cons, List.foldl_nil] at hrest ⊢
      simp only [hrest, hdigit]
      omega

theorem length_decimal {k : Nat} (hk : 0 < k) (h : n < 10 ^ k) : (decimal n).length ≤ k := by
  rw [decimal, List.length_map]
  exact (Nat.length_toDigits_le_iff (by decide) hk).mpr h

theorem sign_digits (hn : w ≠ []) (hw : ∀ c ∈ w, isDigit c = true) : sign (w ++ t) = (false, w ++ t) := by
  cases w with
  | nil => exact absurd rfl hn
  | cons c w =>
    have hc := hw c List.mem_cons_self
    simp only [List.cons_append]
    unfold sign
    split
    · rename_i heq
      cases heq
      cases hc
    · rename_i heq
      cases heq
      cases hc
    · rfl

theorem number_decimal (ht : ∀ c ∈ t.head?, isDigit c = false) : number (decimal n ++ t) = some (false, n, t) := by
  obtain ⟨hn, hall⟩ := decimal_digits n
  have hskip : skipSpaces (decimal n ++ t) = decimal n ++ t := by
    cases hd : decimal n with
    | nil => exact absurd hd hn
    | cons c w =>
      rw [hd] at hall
      exact skipSpaces_cons (digit_isSpace c (hall c List.mem_cons_self))
  have htake : (decimal n ++ t).takeWhile isDigit = decimal n := by
    rw [List.takeWhile_append_of_pos hall]
    cases t with
    | nil => simp
    | cons c t => simp [ht c rfl]
  simp [number, hskip, sign_digits hn hall, htake, hn, value_decimal]

theorem number_blank (h : isSpace c = true) : number (c :: s) = number s := by
  simp [number, skipSpaces_blank h]

theorem literal_append (l s : List UInt8) : literal l (l ++ s) = some s := by
  simp [literal]

end Scan
