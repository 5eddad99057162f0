import Mathlib.Algebra.Order.Ring.Nat
import Mathlib.Data.List.Basic

/-!
# Base64

Bytes, sextets and their digits, with padding. A list of sextets stands for whole
bytes where the bits its padding drops are zero; only those have an encoding.
-/

namespace Base64

abbrev Sextet := Fin 64

def pad : UInt8 := 0x3d

-- ---------------------------------------------------------------------------
-- Digits
-- ---------------------------------------------------------------------------

def digit (v : Sextet) : UInt8 :=
  if v < 26 then UInt8.ofNat (0x41 + v)
  else if v < 52 then UInt8.ofNat (0x61 + (v - 26))
  else if v < 62 then UInt8.ofNat (0x30 + (v - 52))
  else if v = 62 then 0x2b
  else 0x2f

def value (c : UInt8) : Option Sextet :=
  if 0x41 ≤ c ∧ c ≤ 0x5a then some (Fin.ofNat 64 (c.toNat - 0x41))
  else if 0x61 ≤ c ∧ c ≤ 0x7a then some (Fin.ofNat 64 (c.toNat - 0x61 + 26))
  else if 0x30 ≤ c ∧ c ≤ 0x39 then some (Fin.ofNat 64 (c.toNat - 0x30 + 52))
  else if c = 0x2b then some 62
  else if c = 0x2f then some 63
  else none

def zero : Sextet := 0

@[simp] theorem value_digit (v : Sextet) : value (digit v) = some v := by
  revert v
  decide

@[simp] theorem value_pad : value pad = none := by decide

theorem byte_forall {P : UInt8 → Prop} (h : ∀ n : Fin 256, P (UInt8.ofNat n)) (c : UInt8) : P c := by
  have hc := h ⟨c.toNat, c.toNat_lt⟩
  rwa [UInt8.ofNat_toNat] at hc

theorem digit_of_value {c : UInt8} {v : Sextet} (h : value c = some v) : digit v = c := by
  have hall : ∀ c, ((value c).all fun v => digit v = c) = true := byte_forall (by decide +kernel)
  simpa [h] using hall c

theorem exists_sextets {text : List UInt8} (h : ∀ c ∈ text, (value c).isSome = true) :
    ∃ ss : List Sextet, text = ss.map digit := by
  induction text with
  | nil => exact ⟨[], rfl⟩
  | cons c text ih =>
    simp only [List.forall_mem_cons] at h
    obtain ⟨v, hv⟩ := Option.isSome_iff_exists.mp h.1
    obtain ⟨ss, rfl⟩ := ih h.2
    exact ⟨v :: ss, by rw [List.map_cons, digit_of_value hv]⟩

@[simp] theorem filterMap_digits (ss : List Sextet) : (ss.map digit).filterMap value = ss := by
  induction ss with
  | nil => rfl
  | cons v ss ih => rw [List.map_cons, List.filterMap_cons, value_digit, ih]

-- ---------------------------------------------------------------------------
-- Bytes and sextets
-- ---------------------------------------------------------------------------

/-- The sextets over a byte and over two neighbours. -/
def first (a : UInt8) : Sextet := Fin.ofNat 64 (a.toNat / 4)
def second (a b : UInt8) : Sextet := Fin.ofNat 64 (a.toNat % 4 * 16 + b.toNat / 16)
def third (b c : UInt8) : Sextet := Fin.ofNat 64 (b.toNat % 16 * 4 + c.toNat / 64)
def fourth (c : UInt8) : Sextet := Fin.ofNat 64 c.toNat

def high (p q : Sextet) : UInt8 := UInt8.ofNat (p * 4 + q / 16)
def middle (q r : Sextet) : UInt8 := UInt8.ofNat (q % 16 * 16 + r / 4)
def low (r s : Sextet) : UInt8 := UInt8.ofNat (r % 4 * 64 + s)

/-- The sextets of some bytes; what is missing of the last one is zero. -/
def sextets : List UInt8 → List Sextet
  | a :: b :: c :: rest => first a :: second a b :: third b c :: fourth c :: sextets rest
  | [a, b] => [first a, second a b, third b 0]
  | [a] => [first a, second a 0]
  | [] => []

def bytes : List Sextet → List UInt8
  | p :: q :: r :: s :: rest => high p q :: middle q r :: low r s :: bytes rest
  | [p, q, r] => [high p q, middle q r]
  | [p, q] => [high p q]
  | [_] => []
  | [] => []

/-- The bits that the padding drops are zero. -/
def Whole : List Sextet → Prop
  | _ :: _ :: _ :: _ :: rest => Whole rest
  | [_, _, r] => r.val % 4 = 0
  | [_, q] => q.val % 16 = 0
  | [_] => False
  | [] => True

def encode (bs : List UInt8) : List UInt8 :=
  (sextets bs).map digit ++ List.replicate ((3 - bs.length % 3) % 3) pad

def decode (text : List UInt8) : List UInt8 := bytes (text.filterMap value)

section

variable (a b c : UInt8) (p q r s : Sextet)

@[simp] theorem high_first : high (first a) (second a b) = a := by
  have ha := a.toNat_lt
  have hb := b.toNat_lt
  rw [← UInt8.toNat_inj]
  simp only [high, first, second, Fin.ofNat, UInt8.toNat_ofNat']
  omega

@[simp] theorem middle_second : middle (second a b) (third b c) = b := by
  have hb := b.toNat_lt
  have hc := c.toNat_lt
  rw [← UInt8.toNat_inj]
  simp only [middle, second, third, Fin.ofNat, UInt8.toNat_ofNat']
  omega

@[simp] theorem low_third : low (third b c) (fourth c) = c := by
  have hc := c.toNat_lt
  rw [← UInt8.toNat_inj]
  simp only [low, third, fourth, Fin.ofNat, UInt8.toNat_ofNat']
  omega

@[simp] theorem first_high : first (high p q) = p := by
  have hp := p.isLt
  have hq := q.isLt
  apply Fin.ext
  simp only [high, first, Fin.ofNat, UInt8.toNat_ofNat']
  omega

@[simp] theorem second_high : second (high p q) (middle q r) = q := by
  have hp := p.isLt
  have hq := q.isLt
  have hr := r.isLt
  apply Fin.ext
  simp only [high, middle, second, Fin.ofNat, UInt8.toNat_ofNat']
  omega

@[simp] theorem third_middle : third (middle q r) (low r s) = r := by
  have hq := q.isLt
  have hr := r.isLt
  have hs := s.isLt
  apply Fin.ext
  simp only [middle, low, third, Fin.ofNat, UInt8.toNat_ofNat']
  omega

@[simp] theorem fourth_low : fourth (low r s) = s := by
  have hr := r.isLt
  have hs := s.isLt
  apply Fin.ext
  simp only [low, fourth, Fin.ofNat, UInt8.toNat_ofNat']
  omega

variable {q r}

theorem second_zero (h : q.val % 16 = 0) : second (high p q) 0 = q := by
  have hp := p.isLt
  have hq := q.isLt
  apply Fin.ext
  simp only [high, second, Fin.ofNat, UInt8.toNat_ofNat', UInt8.toNat_zero]
  omega

theorem third_zero (h : r.val % 4 = 0) : third (middle q r) 0 = r := by
  have hq := q.isLt
  have hr := r.isLt
  apply Fin.ext
  simp only [middle, third, Fin.ofNat, UInt8.toNat_ofNat', UInt8.toNat_zero]
  omega

end

theorem bytes_sextets (bs : List UInt8) : bytes (sextets bs) = bs := by
  fun_induction sextets bs with
  | case1 a b c rest ih => simp [bytes, ih]
  | case2 a b => simp [bytes]
  | case3 a => simp [bytes]
  | case4 => rfl

theorem sextets_bytes {ss : List Sextet} (h : Whole ss) : sextets (bytes ss) = ss := by
  fun_induction bytes ss with
  | case1 p q r s rest ih => simp [sextets, ih h]
  | case2 p q r => simp [sextets, third_zero h]
  | case3 p q => simp [sextets, second_zero _ h]
  | case4 => exact h.elim
  | case5 => rfl

theorem whole_sextets (bs : List UInt8) : Whole (sextets bs) := by
  fun_induction sextets bs with
  | case1 a b c rest ih => exact ih
  | case2 a b =>
    simp only [Whole, third, Fin.ofNat, UInt8.toNat_zero]
    omega
  | case3 a =>
    simp only [Whole, second, Fin.ofNat, UInt8.toNat_zero]
    omega
  | case4 => trivial

theorem bytes_zero {ss : List Sextet} (h3 : ss.length % 4 = 3) : ∃ last, bytes (ss ++ [zero]) = bytes ss ++ [last] := by
  fun_induction bytes ss with
  | case1 p q r s rest ih =>
    have hrest : rest.length % 4 = 3 := by
      simp only [List.length_cons] at h3
      omega
    obtain ⟨last, hlast⟩ := ih hrest
    exact ⟨last, by simp [bytes, hlast]⟩
  | case2 p q r => exact ⟨low r zero, rfl⟩
  | case3 | case4 | case5 => simp at h3

/-- Of three sextets in a last group only the last one can be loose. -/
theorem whole_iff {ss : List Sextet} (h3 : ss.length % 4 = 3) :
    Whole ss ↔ ∀ r ∈ ss.getLast?, r.val % 4 = 0 := by
  fun_induction Whole ss with
  | case1 p q r s rest ih =>
    have hrest : rest.length % 4 = 3 := by
      simp only [List.length_cons] at h3
      omega
    rw [ih hrest]
    cases rest with
    | nil => simp at hrest
    | cons => simp
  | case2 => simp
  | case3 | case4 | case5 => simp at h3

theorem length_bytes (ss : List Sextet) : (bytes ss).length = ss.length * 3 / 4 := by
  fun_induction bytes ss with
  | case1 p q r s rest ih =>
    simp only [List.length_cons, ih]
    omega
  | _ => simp

/-- Decoding undoes encoding, so a text is the encoding of one list of bytes only. -/
theorem decode_encode (bs : List UInt8) : decode (encode bs) = bs := by
  simp [decode, encode, bytes_sextets]

theorem encode_injective : Function.Injective encode :=
  Function.LeftInverse.injective decode_encode

/-- The encodings with one padding character are the whole texts of that shape. -/
theorem encode_bytes {ss : List Sextet} (h : Whole ss) (h3 : ss.length % 4 = 3) :
    encode (bytes ss) = ss.map digit ++ [pad] := by
  have hlen : (3 - (bytes ss).length % 3) % 3 = 1 := by
    rw [length_bytes]
    omega
  rw [encode, sextets_bytes h, hlen]
  rfl

end Base64
