import BoomPI.Wire.Pcm

/-!
# Device ids

The canonical UUID of a device, read by `ParseDeviceUUID` on the server and by
`IsValidDeviceId` and `ParseUuid` on the client. Strings are their bytes.
-/

namespace BoomPI.Wire

open Bytes
open Backend (Error)

def dash : UInt8 := 0x2d
def zeroDigit : UInt8 := 0x30

def isDigit (c : UInt8) : Bool := 0x30 ≤ c ∧ c ≤ 0x39
def isLowerHexLetter (c : UInt8) : Bool := 0x61 ≤ c ∧ c ≤ 0x66
def isUpperHexLetter (c : UInt8) : Bool := 0x41 ≤ c ∧ c ≤ 0x46

def isLowerHex (c : UInt8) : Bool := isDigit c || isLowerHexLetter c

-- ---------------------------------------------------------------------------
-- The server
-- ---------------------------------------------------------------------------

/-- A digit of `hex.DecodeString`. -/
def fromHexChar (c : UInt8) : Option Nat :=
  if isDigit c then some (c.toNat - 0x30)
  else if isLowerHexLetter c then some (c.toNat - 0x61 + 10)
  else if isUpperHexLetter c then some (c.toNat - 0x41 + 10)
  else none

/-- `hex.DecodeString` -/
def hexDecode : List UInt8 → Option (List UInt8)
  | [] => some []
  | [_] => none
  | high :: low :: rest =>
    match fromHexChar high, fromHexChar low with
    | some h, some l => (hexDecode rest).map (UInt8.ofNat (h * 16 + l) :: ·)
    | _, _ => none

def dashed (value : List UInt8) : Bool :=
  value.length = 36 ∧ value.getD 8 0 = dash ∧ value.getD 13 0 = dash ∧ value.getD 18 0 = dash ∧
    value.getD 23 0 = dash

def compact (value : List UInt8) : List UInt8 :=
  slice value 0 8 ++ slice value 9 13 ++ slice value 14 18 ++ slice value 19 23 ++ slice value 24 36

/-- `ParseDeviceUUID`. It ranges over runes; one from 0x80 on is no digit, nor is the
byte it begins with. -/
def parseDeviceUUID (value : List UInt8) : Except Error DeviceUUID :=
  if ¬ dashed value then .error (.text "must be a canonical UUID")
  else if ¬ (compact value).all isLowerHex then
    .error (.text "must use lowercase canonical UUID hexadecimal")
  else match hexDecode (compact value) with
  | none => .error (.text "must be a canonical UUID")
  | some decoded =>
    if h : decoded.length ≠ 16 then .error (.text "must be a canonical UUID")
    else if decoded = Protocol.nilUUID then .error (.text "must not be the nil UUID")
    else .ok ⟨decoded, Decidable.not_not.mp h⟩

-- ---------------------------------------------------------------------------
-- The client
-- ---------------------------------------------------------------------------

def separator (index : Nat) : Bool := index = 8 ∨ index = 13 ∨ index = 18 ∨ index = 23

/-- The loop of `IsValidDeviceId`. -/
def digitsFrom (index : Nat) (nonzero : Bool) : List UInt8 → Bool
  | [] => nonzero
  | digit :: rest =>
    if separator index then digitsFrom (index + 1) nonzero rest
    else if ¬ isLowerHex digit then false
    else digitsFrom (index + 1) (nonzero || digit ≠ zeroDigit) rest

def isValidDeviceId (value : List UInt8) : Bool := dashed value && digitsFrom 0 false value

/-- The loop of `ParseUuid`. -/
def nibbles (high : Option Nat) (out : List UInt8) : List UInt8 → Option (List UInt8)
  | [] => if out.length = 16 then some out else none
  | c :: rest =>
    if c = dash then nibbles high out rest
    else
      let digit :=
        if isDigit c then some (c.toNat - 0x30)
        else if isLowerHexLetter c then some (c.toNat - 0x61 + 10)
        else none
      match digit, high with
      | none, _ => none
      | some d, none => nibbles (some d) out rest
      | some d, some h => nibbles none (out ++ [UInt8.ofNat (h * 16 + d)]) rest

def parseUuid (value : List UInt8) : Option (List UInt8) :=
  if ¬ isValidDeviceId value then none else nibbles none [] value

-- ---------------------------------------------------------------------------
-- The digits
-- ---------------------------------------------------------------------------

variable {value xs ys : List UInt8} {c : UInt8} {index : Nat} {nonzero : Bool}

def hexValue (c : UInt8) : Nat := if isDigit c then c.toNat - 0x30 else c.toNat - 0x61 + 10

theorem fromHexChar_lower (hc : isLowerHex c = true) : fromHexChar c = some (hexValue c) := by
  unfold isLowerHex at hc
  unfold fromHexChar hexValue
  cases hd : isDigit c with
  | true => rfl
  | false =>
    rw [hd, Bool.false_or] at hc
    simp [hc]

theorem lower_ne_dash (hc : isLowerHex c = true) : c ≠ dash := by
  rintro rfl
  exact absurd hc (by decide)

theorem hexValue_lt (hc : isLowerHex c = true) : hexValue c < 16 := by
  simp only [isLowerHex, isDigit, isLowerHexLetter, Bool.or_eq_true, decide_eq_true_eq,
    UInt8.le_iff_toNat_le] at hc
  unfold hexValue
  split
  · rename_i hd
    simp only [isDigit, decide_eq_true_eq, UInt8.le_iff_toNat_le] at hd
    have h1 : (0x39 : UInt8).toNat = 57 := rfl
    omega
  · rename_i hd
    simp only [isDigit, decide_eq_true_eq, UInt8.le_iff_toNat_le] at hd
    have h1 : (0x66 : UInt8).toNat = 102 := rfl
    omega

theorem hexValue_eq_zero (hc : isLowerHex c = true) : hexValue c = 0 ↔ c = zeroDigit := by
  simp only [isLowerHex, isDigit, isLowerHexLetter, Bool.or_eq_true, decide_eq_true_eq,
    UInt8.le_iff_toNat_le] at hc
  have hz : zeroDigit.toNat = 48 := rfl
  have h0 : (0x30 : UInt8).toNat = 48 := rfl
  rw [← UInt8.toNat_inj, hz]
  unfold hexValue
  split
  · rename_i hd
    simp only [isDigit, decide_eq_true_eq, UInt8.le_iff_toNat_le] at hd
    omega
  · rename_i hd
    simp only [isDigit, decide_eq_true_eq, UInt8.le_iff_toNat_le] at hd
    have h1 : (0x61 : UInt8).toNat = 97 := rfl
    omega

def pairs : List UInt8 → List UInt8
  | [] => []
  | [_] => []
  | high :: low :: rest => UInt8.ofNat (hexValue high * 16 + hexValue low) :: pairs rest

theorem pairs_length (xs : List UInt8) : (pairs xs).length = xs.length / 2 := by
  induction xs using pairs.induct with
  | case1 => rfl
  | case2 => simp [pairs]
  | case3 high low rest ih =>
    simp only [pairs, List.length_cons, ih]
    omega

theorem hexDecode_lower (hx : xs.all isLowerHex = true) (he : xs.length % 2 = 0) :
    hexDecode xs = some (pairs xs) := by
  induction xs using pairs.induct with
  | case1 => rfl
  | case2 => exact absurd he (by simp)
  | case3 high low rest ih =>
    simp only [List.all_cons, Bool.and_eq_true] at hx
    have hrest : rest.length % 2 = 0 := by
      simp only [List.length_cons] at he
      omega
    simp [hexDecode, fromHexChar_lower hx.1, fromHexChar_lower hx.2.1, ih hx.2.2 hrest, pairs]

theorem pairs_eq_zero (hx : xs.all isLowerHex = true) (he : xs.length % 2 = 0) :
    pairs xs = List.replicate (xs.length / 2) 0 ↔ xs.any (· ≠ zeroDigit) = false := by
  induction xs using pairs.induct with
  | case1 => simp [pairs]
  | case2 => exact absurd he (by simp)
  | case3 high low rest ih =>
    simp only [List.all_cons, Bool.and_eq_true] at hx
    have hrest : rest.length % 2 = 0 := by
      simp only [List.length_cons] at he
      omega
    have hhalf : (high :: low :: rest).length / 2 = rest.length / 2 + 1 := by
      simp only [List.length_cons]
      omega
    have hh := hexValue_lt hx.1
    have hl := hexValue_lt hx.2.1
    have hzero : UInt8.ofNat (hexValue high * 16 + hexValue low) = 0 ↔
        high = zeroDigit ∧ low = zeroDigit := by
      rw [← hexValue_eq_zero hx.1, ← hexValue_eq_zero hx.2.1, ← UInt8.toNat_inj,
        UInt8.toNat_ofNat', UInt8.toNat_zero]
      omega
    rw [hhalf, List.replicate_succ, pairs, List.cons.injEq, hzero, ih hx.2.2 hrest]
    simp [and_assoc]

-- ---------------------------------------------------------------------------
-- The client's loops
-- ---------------------------------------------------------------------------

theorem nibbles_filter (high : Option Nat) (out xs : List UInt8) :
    nibbles high out xs = nibbles high out (xs.filter (· ≠ dash)) := by
  induction xs generalizing high out with
  | nil => rfl
  | cons c xs ih =>
    by_cases hc : c = dash
    · rw [nibbles, if_pos hc, ih, List.filter_cons_of_neg (by simpa using hc)]
    · rw [nibbles, if_neg hc, List.filter_cons_of_pos (by simpa using hc), nibbles, if_neg hc]
      dsimp only
      split
      · rfl
      · exact ih ..
      · exact ih ..

theorem nibbles_lower (out : List UInt8) (hx : xs.all isLowerHex = true) (he : xs.length % 2 = 0) :
    nibbles none out xs = if (out ++ pairs xs).length = 16 then some (out ++ pairs xs) else none := by
  induction xs using pairs.induct generalizing out with
  | case1 => simp [nibbles, pairs]
  | case2 => exact absurd he (by simp)
  | case3 high low rest ih =>
    simp only [List.all_cons, Bool.and_eq_true] at hx
    have hrest : rest.length % 2 = 0 := by
      simp only [List.length_cons] at he
      omega
    have hdigit {c : UInt8} (hc : isLowerHex c = true) :
        (if isDigit c then some (c.toNat - 0x30)
          else if isLowerHexLetter c then some (c.toNat - 0x61 + 10) else none) =
        some (hexValue c) := by
      have h := fromHexChar_lower hc
      unfold fromHexChar at h
      split at h
      · rename_i hd
        rw [if_pos hd, h]
      · rename_i hd
        rw [isLowerHex, Bool.or_eq_true] at hc
        have hletter := hc.resolve_left hd
        rw [if_neg hd, if_pos hletter]
        rwa [if_pos hletter] at h
    rw [nibbles, if_neg (lower_ne_dash hx.1)]
    simp only [hdigit hx.1]
    rw [nibbles, if_neg (lower_ne_dash hx.2.1)]
    simp only [hdigit hx.2.1]
    rw [ih _ hx.2.2 hrest]
    simp [pairs]

theorem digitsFrom_digits (hs : ∀ k, k < xs.length → separator (index + k) = false) :
    digitsFrom index nonzero (xs ++ ys) = (xs.all isLowerHex &&
      digitsFrom (index + xs.length) (nonzero || xs.any (· ≠ zeroDigit)) ys) := by
  induction xs generalizing index nonzero with
  | nil => simp
  | cons c xs ih =>
    have h0 : separator index = false := hs 0 (by simp)
    have hrest : ∀ k, k < xs.length → separator (index + 1 + k) = false := by
      intro k hk
      have h := hs (k + 1) (by simpa using hk)
      rwa [Nat.add_comm k 1, ← Nat.add_assoc] at h
    have hlen : index + 1 + xs.length = index + (c :: xs).length := by
      rw [List.length_cons]
      omega
    rw [List.cons_append, digitsFrom, if_neg (by simp [h0])]
    cases hc : isLowerHex c with
    | false => simp [hc]
    | true =>
      rw [if_neg (by simp), ih hrest, hlen]
      simp [hc, Bool.or_assoc]

theorem digitsFrom_separator (hs : separator index = true) :
    digitsFrom index nonzero (c :: ys) = digitsFrom (index + 1) nonzero ys := by
  rw [digitsFrom, if_pos hs]

-- ---------------------------------------------------------------------------
-- The groups
-- ---------------------------------------------------------------------------

theorem dashed_length (hd : dashed value = true) : value.length = 36 := by
  simp only [dashed, decide_eq_true_eq] at hd
  exact hd.1

theorem dashed_groups (hd : dashed value = true) :
    value = slice value 0 8 ++ dash :: (slice value 9 13 ++ dash :: (slice value 14 18 ++
      dash :: (slice value 19 23 ++ dash :: slice value 24 36))) := by
  have hlen := dashed_length hd
  simp only [dashed, decide_eq_true_eq] at hd
  obtain ⟨-, h8, h13, h18, h23⟩ := hd
  have join {i j k : Nat} (hj : value.getD j 0 = dash) (hlt : j < 36) (hij : i ≤ j)
      (hjk : j + 1 ≤ k) : slice value i j ++ dash :: slice value (j + 1) k = slice value i k := by
    have hone : dash :: slice value (j + 1) k = slice value j k := by
      rw [← slice_append_slice (Nat.le_succ j) hjk, slice_getD (by rw [hlen]; exact hlt), hj]
      rfl
    rw [hone, slice_append_slice hij (Nat.le_of_succ_le hjk)]
  rw [join h23 (by decide) (by decide) (by decide), join h18 (by decide) (by decide) (by decide),
    join h13 (by decide) (by decide) (by decide), join h8 (by decide) (by decide) (by decide),
    slice_zero, List.take_of_length_le (Nat.le_of_eq hlen)]

theorem compact_length (hd : dashed value = true) : (compact value).length = 32 := by
  have hlen := dashed_length hd
  simp only [compact, List.length_append]
  rw [slice_length (by omega), slice_length (by omega), slice_length (by omega),
    slice_length (by omega), slice_length (by omega)]

theorem digitsFrom_compact (hd : dashed value = true) :
    digitsFrom 0 false value =
      ((compact value).all isLowerHex && (compact value).any (· ≠ zeroDigit)) := by
  have hlen := dashed_length hd
  have group {i j : Nat} {nonzero : Bool} (rest : List UInt8) (hij : i ≤ j) (hj : j ≤ 36)
      (hs : ∀ k, k < j - i → separator (i + k) = false) :
      digitsFrom i nonzero (slice value i j ++ rest) = ((slice value i j).all isLowerHex &&
        digitsFrom j (nonzero || (slice value i j).any (· ≠ zeroDigit)) rest) := by
    have hl : (slice value i j).length = j - i := slice_length (by rw [hlen]; exact hj)
    have hi : i + (j - i) = j := by omega
    rw [digitsFrom_digits (by rw [hl]; exact hs), hl, hi]
  conv_lhs => rw [dashed_groups hd]
  rw [group _ (by decide) (by decide) (by decide), digitsFrom_separator (by decide),
    group _ (by decide) (by decide) (by decide), digitsFrom_separator (by decide),
    group _ (by decide) (by decide) (by decide), digitsFrom_separator (by decide),
    group _ (by decide) (by decide) (by decide), digitsFrom_separator (by decide),
    ← List.append_nil (slice value 24 36), group _ (by decide) (by decide) (by decide)]
  simp [compact, digitsFrom, Bool.and_assoc, Bool.or_assoc]

theorem filter_compact (hd : dashed value = true) (hx : (compact value).all isLowerHex = true) :
    value.filter (· ≠ dash) = compact value := by
  have keep {xs : List UInt8} (hx : xs.all isLowerHex = true) : xs.filter (· ≠ dash) = xs := by
    rw [List.filter_eq_self]
    intro c hc
    exact decide_eq_true (lower_ne_dash (List.all_eq_true.mp hx c hc))
  have drop (rest : List UInt8) : (dash :: rest).filter (· ≠ dash) = rest.filter (· ≠ dash) :=
    List.filter_cons_of_neg (by simp)
  simp only [compact, List.all_append, Bool.and_eq_true] at hx
  obtain ⟨⟨⟨⟨h0, h1⟩, h2⟩, h3⟩, h4⟩ := hx
  conv_lhs => rw [dashed_groups hd]
  rw [List.filter_append, drop, List.filter_append, drop, List.filter_append, drop,
    List.filter_append, drop, keep h0, keep h1, keep h2, keep h3, keep h4]
  simp [compact]

-- ---------------------------------------------------------------------------
-- Both sides
-- ---------------------------------------------------------------------------

theorem isValidDeviceId_iff : isValidDeviceId value = true ↔
    dashed value = true ∧ (compact value).all isLowerHex = true ∧
      (compact value).any (· ≠ zeroDigit) = true := by
  rw [isValidDeviceId, Bool.and_eq_true]
  constructor
  · rintro ⟨hd, hv⟩
    rw [digitsFrom_compact hd, Bool.and_eq_true] at hv
    exact ⟨hd, hv⟩
  · rintro ⟨hd, hv⟩
    rw [digitsFrom_compact hd, Bool.and_eq_true]
    exact ⟨hd, hv⟩

theorem parseUuid_eq (hv : isValidDeviceId value = true) :
    parseUuid value = some (pairs (compact value)) := by
  obtain ⟨hd, hx, -⟩ := isValidDeviceId_iff.mp hv
  have hlen := compact_length hd
  rw [parseUuid, if_neg (by simp [hv]), nibbles_filter, filter_compact hd hx,
    nibbles_lower [] hx (by rw [hlen]), if_pos]
  · rfl
  · rw [List.nil_append, pairs_length, hlen]

theorem parseDeviceUUID_ok {uuid : DeviceUUID} : parseDeviceUUID value = .ok uuid ↔
    isValidDeviceId value = true ∧ uuid.val = pairs (compact value) := by
  rw [isValidDeviceId_iff, parseDeviceUUID]
  cases hd : dashed value with
  | false => exact ⟨nofun, fun h => nomatch h.1.1⟩
  | true =>
    have hlen := compact_length hd
    cases hx : (compact value).all isLowerHex with
    | false => exact ⟨nofun, fun h => nomatch h.1.2.1⟩
    | true =>
      have hpairs : (pairs (compact value)).length = 16 := by rw [pairs_length, hlen]
      have hnil : pairs (compact value) = Protocol.nilUUID ↔
          (compact value).any (· ≠ zeroDigit) = false := by
        rw [← pairs_eq_zero hx (by rw [hlen]), hlen]
        rfl
      rw [if_neg (by simp), if_neg (by simp), hexDecode_lower hx (by rw [hlen])]
      simp only [hpairs, ne_eq, not_true_eq_false, dite_false]
      by_cases hz : pairs (compact value) = Protocol.nilUUID
      · rw [if_pos hz, hnil.mp hz]
        exact ⟨nofun, fun h => nomatch h.1.2.2⟩
      · have hany : (compact value).any (· ≠ zeroDigit) = true := by
          rw [← Bool.not_eq_false]
          exact fun h => hz (hnil.mpr h)
        rw [if_neg hz, hany]
        refine ⟨?_, ?_⟩
        · rintro ⟨⟩
          simp
        · rintro ⟨-, heq⟩
          exact congrArg _ (Subtype.ext heq.symm)

/-- The server and the client accept the same device ids and read the same bytes. -/
theorem parseDeviceUUID_iff {uuid : DeviceUUID} :
    parseDeviceUUID value = .ok uuid ↔ parseUuid value = some uuid.val := by
  rw [parseDeviceUUID_ok]
  constructor
  · rintro ⟨hv, heq⟩
    rw [parseUuid_eq hv, heq]
  · intro hp
    have hv : isValidDeviceId value = true := by
      by_contra hv
      rw [parseUuid, if_pos hv] at hp
      cases hp
    rw [parseUuid_eq hv] at hp
    exact ⟨hv, (Option.some.inj hp).symm⟩

theorem parseUuid_length {uuid : List UInt8} (hp : parseUuid value = some uuid) :
    uuid.length = 16 ∧ uuid ≠ Protocol.nilUUID := by
  have hv : isValidDeviceId value = true := by
    by_contra hv
    rw [parseUuid, if_pos hv] at hp
    cases hp
  obtain ⟨hd, hx, hany⟩ := isValidDeviceId_iff.mp hv
  have hlen := compact_length hd
  rw [parseUuid_eq hv] at hp
  cases hp
  refine ⟨by rw [pairs_length, hlen], fun hz => ?_⟩
  have hnone := (pairs_eq_zero hx (by rw [hlen])).mp (by rw [hz, hlen]; rfl)
  rw [hany] at hnone
  cases hnone

end BoomPI.Wire
