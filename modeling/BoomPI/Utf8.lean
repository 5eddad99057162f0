import Mathlib.Data.List.Basic

/-!
# UTF-8

Texts as their bytes, and where the bytes of a text may be cut.
-/

namespace Utf8

def encode (text : List Char) : List UInt8 := text.flatMap String.utf8EncodeChar

def decode (data : List UInt8) : Option (List Char) := data.toByteArray.utf8Decode?.map Array.toList

variable {text : List Char} {data : List UInt8}

theorem toByteArray_encode (text : List Char) : (encode text).toByteArray = text.utf8Encode := rfl

@[simp] theorem decode_encode (text : List Char) : decode (encode text) = some text := by
  rw [decode, toByteArray_encode, List.utf8Decode?_utf8Encode]
  rfl

theorem encode_decode (h : decode data = some text) : encode text = data := by
  obtain ⟨chars, hc, rfl⟩ := Option.map_eq_some_iff.mp h
  have hsome : data.toByteArray.utf8Decode?.isSome = true := by rw [hc]; rfl
  have hget : data.toByteArray.utf8Decode?.get hsome = chars := Option.get_of_eq_some hsome hc
  have hbytes : chars.toList.utf8Encode = data.toByteArray := by
    rw [← hget]
    exact ByteArray.utf8Encode_get_utf8Decode?
  rw [← toByteArray_encode] at hbytes
  simpa using congrArg (fun b => b.data.toList) hbytes

theorem encode_append (s t : List Char) : encode (s ++ t) = encode s ++ encode t :=
  List.flatMap_append

theorem encode_cons (c : Char) (s : List Char) : encode (c :: s) = String.utf8EncodeChar c ++ encode s :=
  List.flatMap_cons

theorem encode_injective : Function.Injective encode := by
  intro s t h
  have := congrArg decode h
  simpa using this

theorem encode_toList (s : String) : encode s.toList = s.toUTF8.data.toList := by
  have := congrArg (fun b => b.data.toList) (toByteArray_encode s.toList)
  simpa using this

-- ---------------------------------------------------------------------------
-- Characters in bytes
-- ---------------------------------------------------------------------------

def continues (byte : UInt8) : Bool := byte &&& 0xc0 = 0x80

theorem continues_ofNat (n : Nat) : continues (.ofNat (n % 64 + 0x80)) = true := by
  have hall : ∀ m : Fin 64, continues (.ofNat (m + 0x80)) = true := by decide
  exact hall ⟨n % 64, Nat.mod_lt n (by decide)⟩

theorem leads_ofNat {n : Nat} (h : n < 0x80 ∨ 0xc0 ≤ n ∧ n < 0x100) : continues (.ofNat n) = false := by
  have hall : ∀ m : Fin 256, (m.val < 0x80 ∨ 0xc0 ≤ m.val) → continues (.ofNat m) = false := by
    decide +kernel
  exact hall ⟨n, by omega⟩ (by dsimp only; omega)

theorem encodeChar_split (c : Char) : ∃ lead rest, String.utf8EncodeChar c = lead :: rest ∧
    continues lead = false ∧ rest.all continues = true := by
  fun_cases String.utf8EncodeChar c with
  | case1 v h => exact ⟨_, _, rfl, leads_ofNat (.inl (by omega)), rfl⟩
  | case2 v h h' =>
    refine ⟨_, _, rfl, leads_ofNat (.inr (by omega)), ?_⟩
    simp only [List.all_cons, List.all_nil, continues_ofNat, Bool.and_self]
  | case3 v h h' h'' =>
    refine ⟨_, _, rfl, leads_ofNat (.inr (by omega)), ?_⟩
    simp only [List.all_cons, List.all_nil, continues_ofNat, Bool.and_self]
  | case4 v h h' h'' =>
    refine ⟨_, _, rfl, leads_ofNat (.inr (by omega)), ?_⟩
    simp only [List.all_cons, List.all_nil, continues_ofNat, Bool.and_self]

theorem dropWhile_encode {bytes : List UInt8} (h : bytes.all continues = true) :
    (bytes ++ encode text).dropWhile continues = encode text := by
  induction bytes with
  | nil =>
    cases text with
    | nil => rfl
    | cons c text =>
      obtain ⟨lead, rest, heq, hlead, -⟩ := encodeChar_split c
      rw [encode_cons, heq, List.nil_append, List.cons_append, List.dropWhile_cons, hlead]
      rfl
  | cons byte bytes ih =>
    rw [List.all_cons, Bool.and_eq_true] at h
    rw [List.cons_append, List.dropWhile_cons, h.1]
    exact ih h.2

-- ---------------------------------------------------------------------------
-- Sizes
-- ---------------------------------------------------------------------------

def size (text : List Char) : Nat := (encode text).length

@[simp] theorem size_nil : size [] = 0 := rfl

@[simp] theorem size_cons (c : Char) (s : List Char) : size (c :: s) = c.utf8Size + size s := by
  simp [size, encode_cons]

@[simp] theorem size_append (s t : List Char) : size (s ++ t) = size s + size t := by
  simp [size, encode_append]

@[simp] theorem size_reverse (s : List Char) : size s.reverse = size s := by
  induction s with
  | nil => rfl
  | cons c s ih => simp [ih, Nat.add_comm]

/-- The longest beginning of at most `limit` bytes. -/
def front : Nat → List Char → List Char
  | _, [] => []
  | limit, c :: rest => if c.utf8Size ≤ limit then c :: front (limit - c.utf8Size) rest else []

/-- The longest end of at most `limit` bytes. -/
def back (limit : Nat) (text : List Char) : List Char := (front limit text.reverse).reverse

variable {n : Nat} {p q more : List Char} {c : Char}

theorem front_of_fits (h : size text ≤ n) : front n text = text := by
  induction text generalizing n with
  | nil => rfl
  | cons c text ih =>
    rw [size_cons] at h
    rw [front, if_pos (by omega), ih (by omega)]

theorem front_of_split (hp : size p ≤ n) (hc : n < size p + c.utf8Size) : front n (p ++ c :: q) = p := by
  induction p generalizing n with
  | nil =>
    rw [size_nil, Nat.zero_add] at hc
    rw [List.nil_append, front, if_neg (Nat.not_le.mpr hc)]
  | cons c' p ih =>
    rw [size_cons] at hp hc
    rw [List.cons_append, front, if_pos (by omega), ih (by omega) (by omega)]

/-- The character at byte `n`. -/
theorem exists_split (h : n < size text) :
    ∃ p c q, text = p ++ c :: q ∧ size p ≤ n ∧ n < size p + c.utf8Size := by
  induction text generalizing n with
  | nil => exact absurd h (Nat.not_lt_zero n)
  | cons c text ih =>
    by_cases hc : n < c.utf8Size
    · exact ⟨[], c, text, rfl, Nat.zero_le n, by simpa using hc⟩
    · rw [size_cons] at h
      obtain ⟨p, c', q, rfl, hp, hlt⟩ := @ih (n - c.utf8Size) (by omega)
      refine ⟨c :: p, c', q, rfl, ?_, ?_⟩
      · rw [size_cons]
        omega
      · rw [size_cons]
        omega

theorem size_front (n : Nat) (text : List Char) : size (front n text) ≤ n := by
  induction text generalizing n with
  | nil => exact Nat.zero_le n
  | cons c text ih =>
    have := ih (n - c.utf8Size)
    rw [front]
    split
    · rw [size_cons]
      omega
    · exact Nat.zero_le n

theorem front_begins (n : Nat) (text : List Char) : front n text <+: text := by
  induction text generalizing n with
  | nil => exact List.nil_prefix
  | cons c text ih =>
    rw [front]
    split
    · exact (List.prefix_cons_inj c).mpr (ih _)
    · exact List.nil_prefix

theorem back_ends (n : Nat) (text : List Char) : back n text <:+ text := by
  have := List.reverse_suffix.mpr (front_begins n text.reverse)
  rwa [List.reverse_reverse] at this

theorem back_of_fits (h : size text ≤ n) : back n text = text := by
  rw [← size_reverse] at h
  rw [back, front_of_fits h, List.reverse_reverse]

theorem back_of_split (hq : size q ≤ n) (hc : n < size q + c.utf8Size) : back n (p ++ c :: q) = q := by
  have hreverse : (p ++ c :: q).reverse = q.reverse ++ c :: p.reverse := by simp
  rw [back, hreverse, front_of_split, List.reverse_reverse]
  · rwa [size_reverse]
  · rwa [size_reverse]

/-- The character `n` bytes from the end. -/
theorem exists_split_back (h : n < size text) :
    ∃ p c q, text = p ++ c :: q ∧ size q ≤ n ∧ n < size q + c.utf8Size := by
  rw [← size_reverse] at h
  obtain ⟨q, c, p, heq, hq, hc⟩ := exists_split h
  refine ⟨p.reverse, c, q.reverse, ?_, ?_, ?_⟩
  · rw [← List.reverse_reverse text, heq]
    simp
  · rwa [size_reverse]
  · rwa [size_reverse]

/-- The end of a text is the end of what is kept of it, however it goes on. -/
theorem back_append (n : Nat) (text more : List Char) :
    back n (back n text ++ more) = back n (text ++ more) := by
  by_cases hfits : size text ≤ n
  · rw [back_of_fits hfits]
  · obtain ⟨p, c, q, rfl, hq, hc⟩ := exists_split_back (Nat.not_le.mp hfits)
    rw [back_of_split hq hc, List.append_assoc, List.cons_append]
    by_cases hmore : size (q ++ more) ≤ n
    · rw [back_of_fits hmore, back_of_split hmore]
      rw [size_append]
      omega
    · obtain ⟨p', c', q', heq, hq', hc'⟩ := exists_split_back (Nat.not_le.mp hmore)
      have hlonger : p ++ c :: (p' ++ c' :: q') = (p ++ c :: p') ++ c' :: q' := by simp
      rw [heq, back_of_split hq' hc', hlonger, back_of_split hq' hc']

-- ---------------------------------------------------------------------------
-- Cuts
-- ---------------------------------------------------------------------------

/-- The last `n` bytes without those of a character that began before them. -/
theorem dropWhile_back (n : Nat) (text : List Char) :
    ((encode text).drop (size text - n)).dropWhile continues = encode (back n text) := by
  by_cases hfits : size text ≤ n
  · rw [Nat.sub_eq_zero_of_le hfits, back_of_fits hfits]
    exact @dropWhile_encode text [] rfl
  · obtain ⟨p, c, q, rfl, hq, hc⟩ := exists_split_back (Nat.not_le.mp hfits)
    obtain ⟨lead, rest, heq, -, hrest⟩ := encodeChar_split c
    have hlength : c.utf8Size = rest.length + 1 := by
      rw [← String.length_utf8EncodeChar, heq, List.length_cons]
    -- inside of the character, behind its first byte
    have hdrop : size (p ++ c :: q) - n = (encode p).length + ((c.utf8Size + size q - n - 1) + 1) := by
      rw [size_append, size_cons]
      change size p + _ - n = size p + _
      omega
    have hle : c.utf8Size + size q - n - 1 ≤ rest.length := by omega
    rw [back_of_split hq hc, hdrop, encode_append, encode_cons, heq, List.drop_length_add_append,
      List.cons_append, List.drop_succ_cons, List.drop_append_of_le_length hle]
    apply dropWhile_encode
    rw [List.all_eq_true] at hrest ⊢
    intro byte hbyte
    exact hrest byte (List.mem_of_mem_drop hbyte)

/-- From byte `n` back to where its character begins. -/
theorem takeWhile_front (h : n < size text) :
    (((encode text).take (n + 1)).reverse.takeWhile continues).length = n - size (front n text) := by
  obtain ⟨p, c, q, rfl, hp, hc⟩ := exists_split h
  obtain ⟨lead, rest, heq, hlead, hrest⟩ := encodeChar_split c
  have hlength : c.utf8Size = rest.length + 1 := by
    rw [← String.length_utf8EncodeChar, heq, List.length_cons]
  have htake : n + 1 = (encode p).length + ((n - size p) + 1) := by
    change n + 1 = size p + _
    omega
  have hle : n - size p ≤ rest.length := by omega
  have hall : ∀ byte ∈ (rest.take (n - size p)).reverse, continues byte = true := by
    intro byte hbyte
    exact List.all_eq_true.mp hrest byte (List.mem_of_mem_take (List.mem_reverse.mp hbyte))
  rw [front_of_split hp hc, htake, encode_append, encode_cons, heq, List.take_length_add_append,
    List.cons_append, List.take_succ_cons, List.take_append_of_le_length hle, List.reverse_append,
    List.reverse_cons, List.append_assoc, List.takeWhile_append_of_pos hall, List.singleton_append, List.takeWhile_cons, hlead]
  simp [hle]

theorem take_front (n : Nat) (text : List Char) :
    (encode text).take (size (front n text)) = encode (front n text) := by
  have hprefix := front_begins n text
  generalize front n text = p at hprefix ⊢
  obtain ⟨rest, rfl⟩ := hprefix
  rw [encode_append]
  exact List.take_left

theorem drop_front (n : Nat) (text : List Char) :
    (encode text).drop (size (front n text)) = encode (text.drop (front n text).length) := by
  have hprefix := front_begins n text
  generalize front n text = p at hprefix ⊢
  obtain ⟨rest, rfl⟩ := hprefix
  rw [encode_append, List.drop_left]
  exact List.drop_left

end Utf8
