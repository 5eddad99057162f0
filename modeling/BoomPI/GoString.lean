import BoomPI.Utf8

/-!
# Go strings

A Go string is bytes, which need not be UTF-8. A range over it yields the
characters and, for each byte that begins none, `utf8.RuneError`.
-/

namespace Utf8

variable {bytes : List UInt8} {text : List Char}

/-- `utf8.DecodeRune`, where it does not fail. -/
def decodeRune (bytes : List UInt8) : Option Char := bytes.toByteArray.utf8DecodeChar? 0

theorem decodeRune_encodeChar (c : Char) (rest : List UInt8) :
    decodeRune (String.utf8EncodeChar c ++ rest) = some c := by
  rw [decodeRune, List.toByteArray_append]
  exact ByteArray.utf8DecodeChar?_utf8EncodeChar_append

theorem decodeRune_some {c : Char} (h : decodeRune bytes = some c) :
    ∃ rest, bytes = String.utf8EncodeChar c ++ rest := by
  obtain ⟨rest, heq⟩ := ByteArray.exists_of_utf8DecodeChar?_eq_some h
  refine ⟨rest.data.toList, ?_⟩
  have := congrArg (fun b => b.data.toList) heq
  simpa using this

/-- The runes, behind `skip` more bytes of the last one. `none` is an error of one byte. -/
def runesFrom : Nat → List UInt8 → List (Option Char)
  | _, [] => []
  | skip + 1, _ :: bytes => runesFrom skip bytes
  | 0, byte :: bytes =>
    match decodeRune (byte :: bytes) with
    | some c => some c :: runesFrom (c.utf8Size - 1) bytes
    | none => none :: runesFrom 0 bytes

def runes (bytes : List UInt8) : List (Option Char) := runesFrom 0 bytes

@[simp] theorem runes_nil : runes [] = [] := rfl

theorem runesFrom_skip (skipped rest : List UInt8) : runesFrom skipped.length (skipped ++ rest) = runes rest := by
  induction skipped with
  | nil => rfl
  | cons byte skipped ih => exact ih

theorem runes_char (c : Char) (rest : List UInt8) :
    runes (String.utf8EncodeChar c ++ rest) = some c :: runes rest := by
  have hdecode := decodeRune_encodeChar c rest
  have hlength := String.length_utf8EncodeChar c
  obtain ⟨lead, more, heq, -, -⟩ := encodeChar_split c
  rw [heq] at hdecode hlength ⊢
  have hmore : c.utf8Size - 1 = more.length := by
    rw [← hlength, List.length_cons, Nat.add_sub_cancel]
  rw [List.cons_append] at hdecode ⊢
  rw [runes, runesFrom, hdecode]
  dsimp only
  rw [hmore, runesFrom_skip]

theorem runes_error {byte : UInt8} (h : decodeRune (byte :: bytes) = none) :
    runes (byte :: bytes) = none :: runes bytes := by
  rw [runes, runesFrom, h]
  rfl

/-- Bytes are none, a character and bytes, or a byte that begins none and bytes. -/
theorem bytes_rec {P : List UInt8 → Prop} (nil : P [])
    (char : ∀ c rest, P rest → P (String.utf8EncodeChar c ++ rest))
    (error : ∀ byte rest, decodeRune (byte :: rest) = none → P rest → P (byte :: rest)) (bytes : List UInt8) :
    P bytes := by
  induction hn : bytes.length using Nat.strongRecOn generalizing bytes with
  | ind n ih =>
    cases bytes with
    | nil => exact nil
    | cons byte rest =>
      cases hd : decodeRune (byte :: rest) with
      | none => exact error byte rest hd (ih rest.length (by simp [← hn]) rest rfl)
      | some c =>
        obtain ⟨behind, heq⟩ := decodeRune_some hd
        have hlength := congrArg List.length heq
        have hpos := c.utf8Size_pos
        rw [List.length_append, String.length_utf8EncodeChar, hn] at hlength
        rw [heq]
        exact char c behind (ih behind.length (by omega) behind rfl)

theorem runes_encode (text : List Char) : runes (encode text) = text.map some := by
  induction text with
  | nil => rfl
  | cons c text ih => rw [encode_cons, runes_char, ih, List.map_cons]

-- ---------------------------------------------------------------------------
-- Texts
-- ---------------------------------------------------------------------------

/-- The text of the runes: an error reads as U+FFFD. -/
def lossy (bytes : List UInt8) : List Char := (runes bytes).map fun rune => rune.getD '\uFFFD'

/-- `utf8.Valid` -/
def valid (bytes : List UInt8) : Bool := (runes bytes).all Option.isSome

@[simp] theorem lossy_encode (text : List Char) : lossy (encode text) = text := by
  simp [lossy, runes_encode, Function.comp_def]

@[simp] theorem valid_encode (text : List Char) : valid (encode text) = true := by
  simp [valid, runes_encode]

theorem encode_lossy (h : valid bytes = true) : encode (lossy bytes) = bytes := by
  induction bytes using bytes_rec with
  | nil => rfl
  | char c rest ih =>
    have hrest : valid rest = true := by simpa [valid, runes_char] using h
    have hlossy : lossy (String.utf8EncodeChar c ++ rest) = c :: lossy rest := by simp [lossy, runes_char]
    rw [hlossy, encode_cons, ih hrest]
  | error byte rest hd _ => simp [valid, runes_error hd] at h

theorem valid_iff : valid bytes = true ↔ ∃ text, bytes = encode text := by
  constructor
  · intro h
    exact ⟨lossy bytes, (encode_lossy h).symm⟩
  · rintro ⟨text, rfl⟩
    exact valid_encode text

theorem length_le_lossy (bytes : List UInt8) : bytes.length ≤ size (lossy bytes) ∧
    (bytes.length = size (lossy bytes) → valid bytes = true) := by
  induction bytes using bytes_rec with
  | nil => exact ⟨Nat.le_refl _, fun _ => rfl⟩
  | char c rest ih =>
    have hlossy : lossy (String.utf8EncodeChar c ++ rest) = c :: lossy rest := by simp [lossy, runes_char]
    have hvalid : valid (String.utf8EncodeChar c ++ rest) = valid rest := by simp [valid, runes_char]
    rw [hlossy, hvalid, List.length_append, String.length_utf8EncodeChar, size_cons]
    exact ⟨Nat.add_le_add_left ih.1 _, fun h => ih.2 (Nat.add_left_cancel h)⟩
  | error byte rest hd ih =>
    have hlossy : lossy (byte :: rest) = '\uFFFD' :: lossy rest := by simp [lossy, runes_error hd]
    have hsize : '\uFFFD'.utf8Size = 3 := by decide
    rw [hlossy, size_cons, hsize, List.length_cons]
    refine ⟨by omega, fun h => ?_⟩
    omega

end Utf8

structure GoString where
  bytes : List UInt8
  deriving DecidableEq, Repr

namespace GoString

def ofString (s : String) : GoString := ⟨Utf8.encode s.toList⟩

instance : Coe String GoString := ⟨ofString⟩

def text (s : GoString) : String := String.ofList (Utf8.lossy s.bytes)

def valid (s : GoString) : Bool := Utf8.valid s.bytes

variable {s : GoString} {t t' : String}

@[simp] theorem text_ofString (t : String) : (ofString t).text = t := by
  simp [text, ofString]

@[simp] theorem valid_ofString (t : String) : (ofString t).valid = true := Utf8.valid_encode _

theorem ofString_text (h : s.valid = true) : ofString s.text = s := by
  simp [ofString, text, Utf8.encode_lossy h]

theorem valid_iff : s.valid = true ↔ ofString s.text = s := by
  refine ⟨ofString_text, fun h => ?_⟩
  rw [← h]
  exact valid_ofString _

@[simp] theorem ofString_inj : ofString t = ofString t' ↔ t = t' := by
  refine ⟨fun h => ?_, congrArg ofString⟩
  rw [← text_ofString t, h, text_ofString]

@[simp] theorem bytes_ofString (t : String) : (ofString t).bytes = Utf8.encode t.toList := rfl

theorem ne_empty : s ≠ "" ↔ s.bytes ≠ [] := by
  rw [not_iff_not]
  refine ⟨fun h => by rw [h]; rfl, fun h => ?_⟩
  obtain ⟨bytes⟩ := s
  rw [GoString.mk.injEq]
  exact h

theorem utf8ByteSize_text (s : GoString) : s.text.utf8ByteSize = Utf8.size (Utf8.lossy s.bytes) := by
  have hbytes := Utf8.encode_toList s.text
  rw [text, String.toList_ofList] at hbytes
  rw [Utf8.size, hbytes, text, Array.length_toList]
  rfl

theorem length_le_text (s : GoString) : s.bytes.length ≤ s.text.utf8ByteSize := by
  rw [utf8ByteSize_text]
  exact (Utf8.length_le_lossy s.bytes).1

theorem length_text : s.text.utf8ByteSize = s.bytes.length ↔ s.valid = true := by
  rw [utf8ByteSize_text]
  refine ⟨fun h => (Utf8.length_le_lossy s.bytes).2 h.symm, fun h => ?_⟩
  rw [Utf8.size, Utf8.encode_lossy h]

end GoString
