import BoomPI.Json.Syntax
import Mathlib.Data.List.TakeWhile

/-!
# Writers

What the writers of JSON texts share: strings spelled character by character,
objects without whitespace, and a tree spelled anew.
-/

namespace Json

-- ---------------------------------------------------------------------------
-- Escapes by code unit
-- ---------------------------------------------------------------------------

def lowerDigits : List Char :=
  ['0', '1', '2', '3', '4', '5', '6', '7', '8', '9', 'a', 'b', 'c', 'd', 'e', 'f']

theorem lowerDigits_isSome : ∀ n : Fin 16, (hexDigit (lowerDigits.getD n '0')).isSome = true := by decide

def Hex.lower (n : Nat) : Hex := ⟨lowerDigits.getD (Fin.ofNat 16 n) '0', lowerDigits_isSome _⟩

theorem Hex.lower_value (n : Nat) : (Hex.lower n).value = n % 16 := by
  have h : ∀ n : Fin 16, (hexDigit (lowerDigits.getD n '0')).get (lowerDigits_isSome n) = n.val := by decide
  exact h _

/-- `\uXXXX`, in lower case. -/
def Item.ofUnit (u : Nat) : Item :=
  .unicode (.lower (u / 4096)) (.lower (u / 256)) (.lower (u / 16)) (.lower u)

theorem codeUnit_lower {u : Nat} (h : u < 65536) :
    codeUnit (.lower (u / 4096)) (.lower (u / 256)) (.lower (u / 16)) (.lower u) = u := by
  simp only [codeUnit, Hex.lower_value]
  omega

-- ---------------------------------------------------------------------------
-- Strings
-- ---------------------------------------------------------------------------

def Item.Writes (i : Item) (c : Char) : Prop := i.surrogate = none ∧ i.value = c

theorem ofUnit_writes {c : Char} (h : c.toNat < 65536) : (Item.ofUnit c.toNat).Writes c := by
  have hv : Nat.isValidChar c.toNat := c.valid
  have hs : ¬ (isHigh c.toNat || isLow c.toNat) = true := by
    simp only [isHigh, isLow, Bool.or_eq_true, Bool.and_eq_true, decide_eq_true_eq]
    rcases hv with hv | ⟨hv, -⟩ <;> omega
  simp only [Item.Writes, Item.ofUnit, Item.surrogate, Item.value, codeUnit_lower h, if_neg hs,
    Char.ofNat_toNat, and_self]

theorem plain_writes {c : Char} (h : isPlain c = true) : (Item.plain c h).Writes c := ⟨rfl, rfl⟩

theorem escape_writes (e : Escape) : (Item.escape e).Writes e.value := ⟨rfl, rfl⟩

theorem decode_writes {α : Type} {write : α → Item} {read : α → Char} (h : ∀ a, (write a).Writes (read a))
    (s : List α) : decode (s.map write) = s.map read := by
  induction s with
  | nil => rfl
  | cons a s ih =>
    obtain ⟨hs, hv⟩ := h a
    simp only [List.map_cons, decode, decodeFrom, hs, hv]
    exact congrArg (read a :: ·) ih

theorem decode_map {write : Char → Item} (h : ∀ c, (write c).Writes c) (s : Text) :
    decode (s.map write) = s := by
  have hmap : decode (s.map write) = s.map id := decode_writes h s
  rw [hmap, List.map_id]

/-- Every character as it is, one that needs an escape by its code unit. -/
def Item.of (c : Char) : Item := if h : isPlain c = true then .plain c h else .ofUnit c.toNat

theorem of_writes (c : Char) : (Item.of c).Writes c := by
  unfold Item.of
  split
  · rename_i h
    exact plain_writes h
  · rename_i h
    refine ofUnit_writes ?_
    simp only [isPlain, Bool.and_eq_true, decide_eq_true_eq, not_and, Nat.not_le, and_imp] at h
    by_cases hq : c = '"'
    · subst hq
      decide
    · by_cases hb : c = '\\'
      · subst hb
        decide
      · exact Nat.lt_trans (h hq hb) (by decide : 0x20 < 65536)

theorem spell_of {s : Text} (h : s.all isPlain = true) : spell (s.map Item.of) = s := by
  induction s with
  | nil => rfl
  | cons c s ih =>
    rw [List.all_cons, Bool.and_eq_true] at h
    rw [List.map_cons, spell, List.flatMap_cons, ← spell, ih h.2, Item.of, dif_pos h.1]
    rfl

-- ---------------------------------------------------------------------------
-- Numbers
-- ---------------------------------------------------------------------------

theorem toDigits_head {n : Nat} (hn : n ≠ 0) : ∃ c s, Nat.toDigits 10 n = c :: s ∧ c ≠ '0' := by
  induction n using Nat.strongRecOn with
  | _ n ih =>
    by_cases h : n < 10
    · refine ⟨n.digitChar, [], Nat.toDigits_of_lt_base h, ?_⟩
      have : ∀ n : Fin 10, n.val ≠ 0 → n.val.digitChar ≠ '0' := by decide
      exact this ⟨n, h⟩ hn
    · obtain ⟨c, s, heq, hc⟩ := ih (n / 10) (by omega) (by omega)
      refine ⟨c, s ++ [(n % 10).digitChar], ?_, hc⟩
      rw [Nat.toDigits_of_base_le (by decide) (by omega), heq]
      rfl

theorem toDigits_digits (n : Nat) : (Nat.toDigits 10 n).all Char.isDigit = true :=
  List.all_eq_true.mpr fun _ hc => Nat.isDigit_of_mem_toDigits (by decide) (by decide) hc

theorem isNumber_toDigits (n : Nat) : isNumber (Nat.toDigits 10 n) = true := by
  by_cases hn : n = 0
  · subst hn
    rfl
  · obtain ⟨c, s, heq, hc⟩ := toDigits_head hn
    have hall := toDigits_digits n
    rw [heq, List.all_cons, Bool.and_eq_true] at hall
    have hsign : c ≠ '-' := by
      rintro rfl
      exact absurd hall.1 (by decide)
    have hrest : s.dropWhile Char.isDigit = [] :=
      List.dropWhile_eq_nil_iff.mpr (List.all_eq_true.mp hall.2)
    rw [heq, isNumber]
    · rw [isUnsigned]
      · rw [hall.1, hrest]
        rfl
      · rintro rfl
        exact hc rfl
    · rintro _ ⟨⟩
      exact hsign rfl

def Number.ofNat (n : Nat) : Number := ⟨Nat.toDigits 10 n, isNumber_toDigits n⟩

-- ---------------------------------------------------------------------------
-- Objects
-- ---------------------------------------------------------------------------

def tight : Space := ⟨[], rfl⟩

def Key.of (items : List Item) : Key := { before := tight, items, after := tight }

def bodyOf (first : Bool) (m : List Item × Value) : List (List Item × Value) → Tree (.body .object first)
  | [] => .last .object first (Key.of m.1) tight m.2 tight
  | m' :: ms => .more .object first (Key.of m.1) tight m.2 tight (bodyOf false m' ms)

def objectBody : List (List Item × Value) → Tree (.body .object true)
  | [] => .close .object tight
  | m :: ms => bodyOf true m ms

def object (ms : List (List Item × Value)) : Value := .group .object (objectBody ms)

def memberText (m : List Item × Value) : Text := quoted m.1 ++ ':' :: m.2.text

variable {m : List Item × Value} {ms : List (List Item × Value)} {first : Bool}

theorem bodyOf_text : (bodyOf first m ms).text =
    (((m :: ms).map memberText).intersperse [',']).flatten ++ ['}'] := by
  induction ms generalizing m first with
  | nil => simp [bodyOf, Tree.text, Label.text, Key.of, tight, Kind.closing, memberText]
  | cons m' ms ih =>
    simp [bodyOf, Tree.text, ih, Label.text, Key.of, tight, memberText]

theorem objectBody_text : (objectBody ms).text = ((ms.map memberText).intersperse [',']).flatten ++ ['}'] := by
  cases ms with
  | nil => rfl
  | cons m ms => exact bodyOf_text

theorem object_text : (object ms).text = '{' :: (((ms.map memberText).intersperse [',']).flatten ++ ['}']) := by
  rw [object, Tree.text, objectBody_text]
  rfl

theorem bodyOf_entries : (bodyOf first m ms).entries =
    (m :: ms).map fun m => (some (decode m.1), m.2) := by
  induction ms generalizing m first with
  | nil => rfl
  | cons m' ms ih =>
    simp only [bodyOf, Tree.entries, ih]
    rfl

theorem objectBody_entries : (objectBody ms).entries = ms.map fun m => (some (decode m.1), m.2) := by
  cases ms with
  | nil => rfl
  | cons m ms => exact bodyOf_entries

theorem objectBody_keys : (objectBody ms).keys = ms.map fun m => decode m.1 := by
  rw [Tree.keys, objectBody_entries, List.filterMap_map]
  induction ms with
  | nil => rfl
  | cons m ms ih =>
    rw [List.filterMap_cons, List.map_cons, ih]
    rfl

theorem bodyOf_depth {n : Nat} : (bodyOf first m ms).depth ≤ n ↔ ∀ m' ∈ m :: ms, m'.2.depth ≤ n := by
  induction ms generalizing m first with
  | nil => simp only [bodyOf, Tree.depth, List.forall_mem_singleton]
  | cons m' ms ih => simp only [bodyOf, Tree.depth, Nat.max_le, ih, List.forall_mem_cons]

theorem object_depth {n : Nat} : (object ms).depth ≤ n + 1 ↔ ∀ m ∈ ms, m.2.depth ≤ n := by
  rw [object, Tree.depth, Nat.succ_le_succ_iff]
  cases ms with
  | nil => simp [objectBody, Tree.depth]
  | cons m ms => exact bodyOf_depth

theorem bodyOf_noDuplicates : (bodyOf first m ms).noDuplicates = true ↔
    ∀ m' ∈ m :: ms, m'.2.noDuplicates = true := by
  induction ms generalizing m first with
  | nil => simp only [bodyOf, Tree.noDuplicates, List.forall_mem_singleton]
  | cons m' ms ih => simp only [bodyOf, Tree.noDuplicates, Bool.and_eq_true, ih, List.forall_mem_cons]

theorem object_noDuplicates : (object ms).noDuplicates = true ↔
    (ms.map fun m => decode m.1).Nodup ∧ ∀ m ∈ ms, m.2.noDuplicates = true := by
  rw [object, Tree.noDuplicates, Bool.and_eq_true, decide_eq_true_eq, objectBody_keys]
  refine and_congr_right fun _ => ?_
  cases ms with
  | nil => simp [objectBody, Tree.noDuplicates]
  | cons m ms => exact bodyOf_noDuplicates

-- ---------------------------------------------------------------------------
-- A tree spelled anew
-- ---------------------------------------------------------------------------

def Label.respell (f : Item → Item) : (kind : Kind) → Label kind → Label kind
  | .array, _ => ()
  | .object, key => Key.of (key.items.map f)

/-- The tree without whitespace, its strings written by `f`. -/
def Tree.respell (f : Item → Item) {c : Cat} : Tree c → Tree c
  | .word w => .word w
  | .number n => .number n
  | .string items => .string (items.map f)
  | .group kind body => .group kind (body.respell f)
  | .close kind _ => .close kind tight
  | .last kind first label _ value _ =>
    .last kind first (label.respell f kind) tight (value.respell f) tight
  | .more kind first label _ value _ rest =>
    .more kind first (label.respell f kind) tight (value.respell f) tight (rest.respell f)

/-- What `f` writes says the same. -/
def Keeps (f : Item → Item) : Prop := ∀ i, (f i).surrogate = i.surrogate ∧ (f i).value = i.value

section

variable {f : Item → Item} {c : Cat}

theorem decodeFrom_respell (hf : Keeps f) (items : List Item) (high : Option Nat) :
    decodeFrom high (items.map f) = decodeFrom high items := by
  induction items generalizing high with
  | nil => rfl
  | cons i items ih =>
    obtain ⟨hs, hv⟩ := hf i
    cases high <;> simp only [List.map_cons, decodeFrom, hs, hv, ih]

theorem key_respell (hf : Keeps f) (kind : Kind) (label : Label kind) :
    (label.respell f kind).key kind = label.key kind := by
  cases kind with
  | array => rfl
  | object => exact congrArg some (decodeFrom_respell hf _ none)

theorem tokens_respell (hf : Keeps f) (t : Tree c) : (t.respell f).tokens = t.tokens := by
  induction t with
  | word | number | close => rfl
  | string items => simp only [Tree.respell, Tree.tokens, decode, decodeFrom_respell hf]
  | group kind body ih => simp only [Tree.respell, Tree.tokens, ih]
  | last kind first label before value after ih =>
    simp only [Tree.respell, Tree.tokens, ih, key_respell hf]
  | more kind first label before value after rest ih ih' =>
    simp only [Tree.respell, Tree.tokens, ih, ih', key_respell hf]

theorem depth_respell (t : Tree c) : (t.respell f).depth = t.depth := by
  induction t with
  | word | number | string | close => rfl
  | group kind body ih => simp only [Tree.respell, Tree.depth, ih]
  | last kind first label before value after ih => simp only [Tree.respell, Tree.depth, ih]
  | more kind first label before value after rest ih ih' =>
    simp only [Tree.respell, Tree.depth, ih, ih']

theorem keys_respell (hf : Keeps f) (t : Tree c) : (t.respell f).keys = t.keys := by
  have h : ∀ {c} (t : Tree c), (t.respell f).entries = t.entries.map fun (key, v) => (key, v.respell f) := by
    intro c t
    induction t with
    | word | number | string | group | close => rfl
    | last kind first label before value after =>
      simp only [Tree.respell, Tree.entries, key_respell hf, List.map_cons, List.map_nil]
    | more kind first label before value after rest _ ih =>
      simp only [Tree.respell, Tree.entries, key_respell hf, ih, List.map_cons]
  rw [Tree.keys, h, List.filterMap_map]
  rfl

theorem noDuplicates_respell (hf : Keeps f) (t : Tree c) :
    (t.respell f).noDuplicates = t.noDuplicates := by
  induction t with
  | word | number | string | close => rfl
  | group kind body ih => simp only [Tree.respell, Tree.noDuplicates, ih, keys_respell hf]
  | last kind first label before value after ih =>
    simp only [Tree.respell, Tree.noDuplicates, ih]
  | more kind first label before value after rest ih ih' =>
    simp only [Tree.respell, Tree.noDuplicates, ih, ih']

end

end Json
