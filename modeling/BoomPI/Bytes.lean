import Mathlib.Algebra.Order.Ring.Nat
import Mathlib.Data.List.Induction

/-!
# Fixed layouts of bytes

Unsigned numbers in network byte order, and buffers written and read at fixed
offsets. A buffer whose writes follow one another without a gap is the
concatenation of what was written.
-/

namespace Bytes

-- ---------------------------------------------------------------------------
-- Network byte order
-- ---------------------------------------------------------------------------

/-- The last `n` bytes of `v`, the most significant first. -/
def toBE : Nat → Nat → List UInt8
  | 0, _ => []
  | n + 1, v => toBE n (v / 256) ++ [UInt8.ofNat v]

def ofBE (bytes : List UInt8) : Nat := bytes.foldl (fun v byte => v * 256 + byte.toNat) 0

variable {n v : Nat} {bytes : List UInt8} {byte : UInt8}

@[simp] theorem toBE_length : (toBE n v).length = n := by
  induction n generalizing v with
  | zero => rfl
  | succ n ih => simp [toBE, ih]

theorem ofBE_concat : ofBE (bytes ++ [byte]) = ofBE bytes * 256 + byte.toNat := by
  simp [ofBE]

theorem ofBE_lt (bytes : List UInt8) : ofBE bytes < 256 ^ bytes.length := by
  induction bytes using List.reverseRecOn with
  | nil => decide
  | append_singleton bytes byte ih =>
    have hbyte := byte.toNat_lt
    rw [ofBE_concat, List.length_append, List.length_singleton, Nat.pow_succ]
    omega

theorem ofBE_toBE (h : v < 256 ^ n) : ofBE (toBE n v) = v := by
  induction n generalizing v with
  | zero =>
    rw [Nat.lt_one_iff.mp h]
    rfl
  | succ n ih =>
    have hdiv : v / 256 < 256 ^ n := Nat.div_lt_of_lt_mul (by rwa [Nat.pow_succ, Nat.mul_comm] at h)
    rw [toBE, ofBE_concat, ih hdiv, UInt8.toNat_ofNat']
    omega

theorem toBE_ofBE (bytes : List UInt8) : toBE bytes.length (ofBE bytes) = bytes := by
  induction bytes using List.reverseRecOn with
  | nil => rfl
  | append_singleton bytes byte ih =>
    have hbyte := byte.toNat_lt
    have hdiv : (ofBE bytes * 256 + byte.toNat) / 256 = ofBE bytes := by omega
    have hlow : UInt8.ofNat (ofBE bytes * 256 + byte.toNat) = byte := by
      apply UInt8.toNat_inj.mp
      rw [UInt8.toNat_ofNat']
      omega
    rw [List.length_append, List.length_singleton, ofBE_concat, toBE, hdiv, ih, hlow]

-- ---------------------------------------------------------------------------
-- Offsets
-- ---------------------------------------------------------------------------

/-- The bytes from `i` up to `j`. -/
def slice (bytes : List UInt8) (i j : Nat) : List UInt8 := (bytes.drop i).take (j - i)

variable {i j k : Nat} {front field back : List UInt8}

theorem slice_length (h : j ≤ bytes.length) : (slice bytes i j).length = j - i := by
  rw [slice, List.length_take, List.length_drop]
  omega

theorem slice_append_slice (hij : i ≤ j) (hjk : j ≤ k) :
    slice bytes i j ++ slice bytes j k = slice bytes i k := by
  have hk : k - i = (j - i) + (k - j) := by omega
  have hj : i + (j - i) = j := by omega
  rw [slice, slice, slice, hk, List.take_add, List.drop_drop, hj]

theorem slice_zero : slice bytes 0 j = bytes.take j := rfl

/-- What was written after `front` is read back there. -/
theorem slice_append (front field back : List UInt8) (hi : front.length = i) (hj : j = i + field.length) :
    slice (front ++ (field ++ back)) i j = field := by
  subst hi hj
  simp [slice]

/-- Writing `field` at an offset of a buffer. -/
def store (buffer : List UInt8) (offset : Nat) (field : List UInt8) : List UInt8 :=
  buffer.take offset ++ field ++ buffer.drop (offset + field.length)

def fill : List UInt8 → List (Nat × List UInt8) → List UInt8
  | buffer, [] => buffer
  | buffer, (offset, field) :: fields => fill (store buffer offset field) fields

def Contiguous : Nat → List (Nat × List UInt8) → Prop
  | _, [] => True
  | at_, (offset, field) :: fields => offset = at_ ∧ Contiguous (at_ + field.length) fields

theorem store_append (hi : front.length = i) :
    store (front ++ back) i field = front ++ field ++ back.drop field.length := by
  subst hi
  simp [store]

variable {fields : List (Nat × List UInt8)}

theorem fill_contiguous (front back : List UInt8) (hc : Contiguous i fields) (hi : front.length = i) :
    fill (front ++ back) fields =
      front ++ (fields.flatMap Prod.snd ++ back.drop (fields.flatMap Prod.snd).length) := by
  induction fields generalizing i front back with
  | nil => simp [fill]
  | cons first fields ih =>
    obtain ⟨offset, field⟩ := first
    obtain ⟨rfl, hc⟩ := hc
    have hlen : (front ++ field).length = offset + field.length := by
      rw [List.length_append, hi]
    rw [fill, store_append hi, ih _ _ hc hlen]
    simp

theorem slice_of_mem (front : List UInt8) {offset : Nat} (hc : Contiguous i fields)
    (hm : (offset, field) ∈ fields) (hi : front.length = i) :
    slice (front ++ (fields.flatMap Prod.snd ++ back)) offset (offset + field.length) = field := by
  induction fields generalizing i front with
  | nil => cases hm
  | cons first fields ih =>
    obtain ⟨at_, bytes⟩ := first
    obtain ⟨rfl, hc⟩ := hc
    rw [List.flatMap_cons, List.append_assoc]
    rcases List.mem_cons.mp hm with heq | hm
    · cases heq
      exact slice_append _ _ _ hi rfl
    · rw [← List.append_assoc front]
      exact ih _ hc hm (by rw [List.length_append, hi])

theorem flatMap_slice (hc : Contiguous i fields) (hlen : i + (fields.flatMap Prod.snd).length = j)
    (hread : ∀ offset field, (offset, field) ∈ fields →
      field = slice bytes offset (offset + field.length)) :
    fields.flatMap Prod.snd = slice bytes i j := by
  induction fields generalizing i with
  | nil =>
    subst hlen
    simp [slice]
  | cons first fields ih =>
    obtain ⟨at_, field⟩ := first
    obtain ⟨rfl, hc⟩ := hc
    simp only [List.flatMap_cons, List.length_append] at hlen
    have hfirst := hread at_ field (List.mem_cons_self ..)
    have hrest := ih hc (by omega) fun offset field hm => hread offset field (List.mem_cons_of_mem _ hm)
    rw [List.flatMap_cons, hrest]
    dsimp only
    rw [hfirst]
    have hlen' : (slice bytes at_ (at_ + field.length)).length = field.length := by rw [← hfirst]
    rw [hlen']
    exact slice_append_slice (Nat.le_add_right _ _) (by omega)

theorem getD_of_slice (h : slice bytes i (i + 1) = [byte]) : bytes.getD i 0 = byte := by
  rw [slice, Nat.add_sub_cancel_left] at h
  cases hd : bytes.drop i with
  | nil =>
    rw [hd] at h
    cases h
  | cons first rest =>
    rw [hd] at h
    cases h
    rw [List.getD_eq_getElem?_getD, ← List.head?_drop, hd]
    rfl

theorem slice_getD (h : i < bytes.length) : slice bytes i (i + 1) = [bytes.getD i 0] := by
  rw [slice, Nat.add_sub_cancel_left, List.drop_eq_getElem_cons h, List.getD_eq_getElem?_getD,
    List.getElem?_eq_getElem h]
  rfl

end Bytes
