import BoomPI.Wire.Control
import Mathlib.Data.List.Induction

/-!
# What `DecodeControl` accepts

The four passes over a message come to one statement about its members. Against
the envelopes of the protocol it accepts more: a member in another case is no
unknown field, and goes into the field it is a variant of.
-/

namespace BoomPI.Wire

open Backend (Error)
open GoText (trimSpace)
open Json (Text Value Tree Item Document Cat isSpace)

variable {α β : Type} {x : Except Error α} {s t : Text} {c : Cat} {v : Value} {e : ControlEnvelope}
  {data : List UInt8} {d : Document} {f : Field}

theorem bind_ok {g : α → Except Error β} {b : β} :
    x.bind g = .ok b ↔ ∃ a, x = .ok a ∧ g a = .ok b := by
  cases x <;> simp [Except.bind]

theorem mapError_ok {g : Error → Error} {a : α} : x.mapError g = .ok a ↔ x = .ok a := by
  cases x <;> simp [Except.mapError]

theorem map_ok {g : α → β} {b : β} : x.map g = .ok b ↔ ∃ a, x = .ok a ∧ g a = b := by
  cases x <;> simp [Except.map]

-- ---------------------------------------------------------------------------
-- Duplicate keys
-- ---------------------------------------------------------------------------

theorem value_keys (v : Value) : v.keys = [] := by cases v <;> rfl

theorem keys_last {kind : Json.Kind} {first : Bool} {label : Json.Label kind} {before after : Json.Space} :
    (Tree.last kind first label before v after).keys = (label.key kind).toList := by
  cases h : label.key kind <;> simp [Tree.keys, Tree.entries, h]

theorem keys_more {kind : Json.Kind} {first : Bool} {label : Json.Label kind} {before after : Json.Space}
    {rest : Tree (.body kind false)} :
    (Tree.more kind first label before v after rest).keys = (label.key kind).toList ++ rest.keys := by
  cases h : label.key kind <;> simp [Tree.keys, Tree.entries, h]

/-- The walk succeeds when no object of the value repeats a key, and the object it is in
none of those it has seen. -/
theorem walkJSONValue_ok (t : Tree c) : ∀ seen, walkJSONValue t seen = .ok () ↔
    t.noDuplicates = true ∧ t.keys.Nodup ∧ ∀ key ∈ t.keys, key ∉ seen := by
  induction t with
  | word | number | string | close => simp [walkJSONValue, Tree.noDuplicates, Tree.keys, Tree.entries]
  | group kind body ih =>
    intro seen
    simp [walkJSONValue, ih [], Tree.noDuplicates, value_keys, and_comm]
  | last kind first label before value after ih =>
    intro seen
    rw [walkJSONValue, keys_last]
    cases label.key kind with
    | none => simp [ih, value_keys, Tree.noDuplicates]
    | some key =>
      by_cases hseen : key ∈ seen
      · simp [hseen]
      · simp [ih, value_keys, hseen, Tree.noDuplicates]
  | more kind first label before value after rest ihv ihr =>
    intro seen
    rw [walkJSONValue, keys_more]
    cases label.key kind with
    | none => simp [bind, bind_ok, ihv, ihr, value_keys, Tree.noDuplicates, and_assoc]
    | some key =>
      by_cases hseen : key ∈ seen
      · simp [hseen]
      · have hnew : (∀ k ∈ rest.keys, k ∉ key :: seen) ↔ key ∉ rest.keys ∧ ∀ k ∈ rest.keys, k ∉ seen := by
          constructor
          · intro h
            exact ⟨fun hk => h key hk List.mem_cons_self, fun k hk hs => h k hk (List.mem_cons_of_mem _ hs)⟩
          · rintro ⟨h1, h2⟩ k hk hs
            rcases List.mem_cons.mp hs with rfl | hs
            · exact h1 hk
            · exact h2 k hk hs
        simp only [hseen, if_false, bind, bind_ok, ihv, ihr, value_keys, Tree.noDuplicates, hnew]
        simp [hseen, and_assoc, and_left_comm]

theorem rejectDuplicateJSONKeys_ok :
    rejectDuplicateJSONKeys s = .ok () ↔ ∃ d, Json.document s = some d ∧ d.value.noDuplicates = true := by
  unfold rejectDuplicateJSONKeys Json.document
  cases hp : Json.parse s.length .value (Json.space s).2 with
  | none => simp
  | some p =>
    obtain ⟨v, rest⟩ := p
    have hwalk := walkJSONValue_ok v []
    simp only [value_keys, List.nodup_nil, true_and] at hwalk
    simp only [Option.bind_some]
    cases hw : walkJSONValue v [] with
    | error err =>
      rw [hw] at hwalk
      have hno : v.noDuplicates = false := by simpa using hwalk
      by_cases hrest : rest.all isSpace = true
      · simp only [hrest, dif_pos]
        simp [hno]
      · simp [hrest]
    | ok u =>
      have hyes : v.noDuplicates = true := by
        rw [hw] at hwalk
        simpa using hwalk
      by_cases hrest : rest.all isSpace = true
      · simp [ensureJSONEOF, hrest, hyes]
      · have heof : ensureJSONEOF rest ≠ .ok () := by
          rw [ensureJSONEOF, if_neg hrest]
          split <;> exact nofun
        simp [hrest, heof]

-- ---------------------------------------------------------------------------
-- The members
-- ---------------------------------------------------------------------------

def isNull : Value → Bool
  | .word .null => true
  | _ => false

def fitsUint (bits : Nat) : Value → Bool
  | .word .null => true
  | .number n => (parseUint n.val bits).isSome
  | _ => false

def fits : Field → Value → Bool
  | .version, v => fitsUint 8 v
  | .sessionID, v | .turnID, v | .streamID, v | .epoch, v => fitsUint 32 v
  | .type, v | .messageID, v | .deviceID, v =>
    match v with
    | .word .null | .string _ => true
    | _ => false
  | .payload, _ => true

/-- The last member that goes into a field and says something; `null` does not, except
as a payload. -/
def lastOf (ms : List (Text × Value)) (f : Field) : Option Value :=
  ((ms.filter fun m => fieldOf m.1 = some f ∧ (f = .payload ∨ isNull m.2 = false)).map Prod.snd).getLast?

def numberOf : Option Value → Nat
  | some (.number n) => Nat.ofDigitChars 10 n.val 0
  | _ => 0

def stringOf : Option Value → Text
  | some (.string items) => Json.decode items
  | _ => []

def said (ms : List (Text × Value)) : ControlEnvelope where
  version := .ofNat (numberOf (lastOf ms .version))
  type := stringOf (lastOf ms .type)
  messageID := stringOf (lastOf ms .messageID)
  deviceID := stringOf (lastOf ms .deviceID)
  sessionID := .ofNat (numberOf (lastOf ms .sessionID))
  turnID := .ofNat (numberOf (lastOf ms .turnID))
  streamID := .ofNat (numberOf (lastOf ms .streamID))
  epoch := .ofNat (numberOf (lastOf ms .epoch))
  payload := ((lastOf ms .payload).map Tree.text).getD []

variable {ms : List (Text × Value)} {m : Text × Value} {bits n : Nat} {g : Field}

theorem lastOf_concat : lastOf (ms ++ [m]) f =
    if fieldOf m.1 = some f ∧ (f = .payload ∨ isNull m.2 = false) then some m.2 else lastOf ms f := by
  rw [lastOf, List.filter_append, List.map_append]
  split
  · rename_i h
    simp [h]
  · rename_i h
    simp [h, lastOf]

theorem parseUint_some (h : parseUint s bits = some n) :
    s ≠ [] ∧ s.all Char.isDigit = true ∧ Nat.ofDigitChars 10 s 0 = n ∧ n < 2 ^ bits := by
  simp only [parseUint, Option.ite_none_right_eq_some, Option.some.injEq] at h
  obtain ⟨⟨h1, h2, h3⟩, rfl⟩ := h
  exact ⟨h1, h2, rfl, h3⟩

theorem unmarshalUint_fits (h : fitsUint bits v = true) : unmarshalUint bits v =
    .ok (if isNull v then none else some (numberOf (some v))) := by
  cases v with
  | word w => cases w <;> first | rfl | cases h
  | number n =>
    obtain ⟨parsed, hp⟩ := Option.isSome_iff_exists.mp h
    simp [unmarshalUint, hp, isNull, numberOf, (parseUint_some hp).2.2.1]
  | string items => cases h
  | group kind body => cases h

theorem unmarshalUint_unfit (h : fitsUint bits v = false) : unmarshalUint bits v = .error ErrType := by
  cases v with
  | word w => cases w <;> first | rfl | cases h
  | number n =>
    have hn : parseUint n.val bits = none := Option.not_isSome_iff_eq_none.mp (Bool.eq_false_iff.mp h)
    simp [unmarshalUint, hn]
  | string items => rfl
  | group kind body => rfl

theorem unmarshalString_fits (h : fits .type v = true) : unmarshalString v =
    .ok (if isNull v then none else some (stringOf (some v))) := by
  cases v with
  | word w => cases w <;> first | rfl | cases h
  | number n => cases h
  | string items => rfl
  | group kind body => cases h

theorem unmarshalString_unfit (h : fits .type v = false) : unmarshalString v = .error ErrType := by
  cases v with
  | word w => cases w <;> first | rfl | cases h
  | number n => rfl
  | string items => cases h
  | group kind body => rfl

theorem unmarshalField_fits (hf : fieldOf m.1 = some f) (h : fits f m.2 = true) :
    unmarshalField (said ms) f m.2 = .ok (said (ms ++ [m])) := by
  cases f with
  | version | sessionID | turnID | streamID | epoch =>
    rw [unmarshalField, unmarshalUint_fits h]
    cases hnull : isNull m.2 <;> simp [Except.map, said, lastOf_concat, hf, hnull]
  | type | messageID | deviceID =>
    rw [unmarshalField, unmarshalString_fits h]
    cases hnull : isNull m.2 <;> simp [Except.map, said, lastOf_concat, hf, hnull]
  | payload => simp [unmarshalField, said, lastOf_concat, hf]

theorem unmarshalField_unfit (h : fits f v = false) : unmarshalField e f v = .error ErrType := by
  cases f with
  | version | sessionID | turnID | streamID | epoch =>
    rw [unmarshalField, unmarshalUint_unfit h]
    rfl
  | type | messageID | deviceID =>
    rw [unmarshalField, unmarshalString_unfit h]
    rfl
  | payload => cases h

/-- Decoding into the struct succeeds when every member goes into some field. -/
theorem unmarshalMembers_ok : ms.foldlM unmarshalMember {} = .ok e ↔
    (∀ m ∈ ms, ∃ f, fieldOf m.1 = some f ∧ fits f m.2 = true) ∧ e = said ms := by
  induction ms using List.reverseRecOn generalizing e with
  | nil =>
    constructor
    · intro h
      exact ⟨by simp, (Except.ok.inj h).symm⟩
    · rintro ⟨-, rfl⟩
      rfl
  | append_singleton ms m ih =>
    rw [List.foldlM_append]
    simp only [bind, bind_ok, ih, List.foldlM_cons, List.foldlM_nil]
    constructor
    · rintro ⟨e₀, ⟨hms, rfl⟩, e₁, hm, heq⟩
      cases heq
      rw [unmarshalMember] at hm
      cases hf : fieldOf m.1 with
      | none =>
        rw [hf] at hm
        cases hm
      | some f =>
        simp only [hf] at hm
        cases hfit : fits f m.2 with
        | false =>
          rw [unmarshalField_unfit hfit] at hm
          cases hm
        | true =>
          rw [unmarshalField_fits hf hfit] at hm
          refine ⟨fun m' hm' => ?_, (Except.ok.inj hm).symm⟩
          rcases List.mem_append.mp hm' with hm' | hm'
          · exact hms m' hm'
          · rw [List.mem_singleton.mp hm']
            exact ⟨f, hf, hfit⟩
    · rintro ⟨hms, rfl⟩
      obtain ⟨f, hf, hfit⟩ := hms m (by simp)
      refine ⟨said ms, ⟨fun m' hm' => hms m' (List.mem_append_left _ hm'), rfl⟩, _, ?_, rfl⟩
      rw [unmarshalMember]
      simp only [hf]
      exact unmarshalField_fits hf hfit

-- ---------------------------------------------------------------------------
-- Raw members
-- ---------------------------------------------------------------------------

theorem visible_not_space {c : Char} (h : isVisibleASCII c = true) : GoText.isSpace c = false := by
  simp only [isVisibleASCII, Bool.and_eq_true, decide_eq_true_eq] at h
  simp only [GoText.isSpace, Bool.or_eq_false_iff, Bool.and_eq_false_iff, decide_eq_false_iff_not]
  omega

theorem digit_visible {c : Char} (h : c.isDigit = true) : isVisibleASCII c = true := by
  simp only [Char.isDigit, Bool.and_eq_true, decide_eq_true_eq, ge_iff_le, UInt32.le_iff_toNat_le] at h
  have h0 : '0'.val.toNat = 48 := rfl
  have h9 : '9'.val.toNat = 57 := rfl
  simp only [isVisibleASCII, Bool.and_eq_true, decide_eq_true_eq, Char.toNat]
  omega

theorem numeric_visible {c : Char} (h : Json.isNumeric c = true) : isVisibleASCII c = true := by
  simp only [Json.isNumeric, Bool.or_eq_true, decide_eq_true_eq] at h
  rcases h with ((((h | rfl) | rfl) | rfl) | rfl) | rfl
  · exact digit_visible h
  all_goals rfl

theorem trimSpace_number (n : Json.Number) : trimSpace n.val = n.val := by
  have hspace : ∀ c ∈ n.val, GoText.isSpace c = false := fun c hc =>
    visible_not_space (numeric_visible (List.all_eq_true.mp (Json.isNumber_numeric n.property) c hc))
  obtain ⟨c, s, heq, -⟩ := Json.number_head n
  have hne : n.val ≠ [] := heq ▸ List.cons_ne_nil c s
  have hlast : n.val = n.val.dropLast ++ [n.val.getLast hne] := (List.dropLast_append_getLast hne).symm
  refine GoText.trimSpace_ends (c := c) (hspace c ?_) (hspace _ (List.getLast_mem hne)) hlast (heq ▸ rfl)
  rw [heq]
  exact List.mem_cons_self

/-- A value begins with a visible character: a brace if it is an object, a digit or a
minus sign if it is a number. -/
theorem value_visible (v : Value) : ∃ c s, v.text = c :: s ∧ isVisibleASCII c = true ∧
    (c = '{' → ∃ body, v = .group .object body) ∧ (c.isDigit = true → ∃ n, v = .number n) := by
  have other : ∀ c : Char, c ≠ '{' → c.isDigit = false →
      (c = '{' → ∃ body, v = .group .object body) ∧ (c.isDigit = true → ∃ n, v = .number n) :=
    fun c h1 h2 => ⟨fun h => absurd h h1, fun h => absurd (h2.symm.trans h) nofun⟩
  cases v with
  | word w =>
    cases w with
    | null => exact ⟨_, _, rfl, rfl, other 'n' (by decide) rfl⟩
    | true => exact ⟨_, _, rfl, rfl, other 't' (by decide) rfl⟩
    | false => exact ⟨_, _, rfl, rfl, other 'f' (by decide) rfl⟩
  | number n =>
    obtain ⟨c, s, heq, hc⟩ := Json.number_head n
    refine ⟨c, s, heq, ?_, fun h => absurd h (Json.sign_or_digit hc).2.2.2.1, fun _ => ⟨n, rfl⟩⟩
    rcases hc with rfl | hc
    · rfl
    · exact digit_visible hc
  | string items => exact ⟨_, _, rfl, rfl, other '"' (by decide) rfl⟩
  | group kind body =>
    cases kind with
    | array => exact ⟨_, _, rfl, rfl, other '[' (by decide) rfl⟩
    | object => exact ⟨_, _, rfl, rfl, fun _ => ⟨body, rfl⟩, nofun⟩

def Plain (v : Value) (bits n : Nat) : Prop :=
  ∃ m : Json.Number, v = .number m ∧ m.val.all Char.isDigit = true ∧
    Nat.ofDigitChars 10 m.val 0 = n ∧ n < 2 ^ bits

theorem parseUint_number {m : Json.Number} (hd : m.val.all Char.isDigit = true) :
    parseUint m.val bits = some n ↔ Nat.ofDigitChars 10 m.val 0 = n ∧ n < 2 ^ bits := by
  have hne : m.val ≠ [] := by
    obtain ⟨c, s, heq, -⟩ := Json.number_head m
    rw [heq]
    exact List.cons_ne_nil c s
  constructor
  · intro h
    exact (parseUint_some h).2.2
  · rintro ⟨rfl, h⟩
    exact if_pos ⟨hne, hd, h⟩

theorem decodeJSONUint32_ok : decodeJSONUint32 v.text = .ok n ↔ Plain v 32 n := by
  obtain ⟨c, s, heq, hvis, -, hnum⟩ := value_visible v
  have htrim := GoText.trimSpace_cons (s := s) (visible_not_space hvis)
  have htext : trimSpace v.text = c :: GoText.trimRight s := heq ▸ htrim
  constructor
  · intro h
    simp only [decodeJSONUint32, htext, List.cons_ne_nil, if_false] at h
    split at h
    · cases h
    · rename_i hdigits
      have hdigits := Decidable.not_not.mp hdigits
      obtain ⟨m, rfl⟩ := hnum (List.all_eq_true.mp hdigits c List.mem_cons_self)
      rw [← htext, Tree.text, trimSpace_number] at hdigits h
      split at h <;> cases h
      rename_i hp
      obtain ⟨hn, hlt⟩ := (parseUint_number hdigits).mp hp
      exact ⟨m, rfl, hdigits, hn, hlt⟩
  · rintro ⟨m, rfl, hd, hn, hlt⟩
    have htrim : trimSpace (Tree.number m).text = m.val := trimSpace_number m
    have hp := (parseUint_number hd).mpr ⟨hn, hlt⟩
    have hne : m.val ≠ [] := (parseUint_some hp).1
    simp [decodeJSONUint32, htrim, hne, hd, hp]

theorem body_ends (t : Tree c) : ∀ kind first, c = .body kind first → ∃ s, t.text = s ++ [kind.closing] := by
  induction t with
  | word | number | string | group => rintro kind first ⟨⟩
  | close kind gap =>
    rintro _ _ ⟨⟩
    exact ⟨_, rfl⟩
  | last kind first label before value after =>
    rintro _ _ ⟨⟩
    exact ⟨_, rfl⟩
  | more kind first label before value after rest _ ih =>
    rintro _ _ ⟨⟩
    obtain ⟨s, hs⟩ := ih kind false rfl
    exact ⟨label.text kind ++ before.val ++ value.text ++ after.val ++ ',' :: s, by simp [Tree.text, hs]⟩

theorem document_value (v : Value) : Json.document v.text = some ⟨⟨[], rfl⟩, v, ⟨[], rfl⟩⟩ := by
  have h := Json.document_text ⟨⟨[], rfl⟩, v, ⟨[], rfl⟩⟩
  simpa [Document.text] using h

/-- The text of an object that is not too deep and repeats no key is a payload, and no
other value's is. -/
theorem validatePayload_value (hdepth : v.depth ≤ maxNestingDepth) (hdup : v.noDuplicates = true) :
    validatePayload v.text = none ↔ ∃ body, v = .group .object body := by
  have hvalid : jsonValid v.text = true := by simp [jsonValid, readJSON, document_value, hdepth]
  have hkeys : rejectDuplicateJSONKeys v.text = .ok () :=
    rejectDuplicateJSONKeys_ok.mpr ⟨_, document_value v, hdup⟩
  constructor
  · intro h
    obtain ⟨c, s, heq, hvis, hobj, -⟩ := value_visible v
    have htrim := GoText.trimSpace_cons (s := s) (visible_not_space hvis)
    refine hobj ?_
    rw [validatePayload, heq, htrim] at h
    by_contra hc
    simp [hc] at h
  · rintro ⟨body, rfl⟩
    obtain ⟨s, hs⟩ := body_ends body .object true rfl
    have hends : (Tree.group .object body).text = ('{' :: s) ++ ['}'] := by
      rw [Tree.text, hs]
      rfl
    have htrim : trimSpace (Tree.group .object body).text = (Tree.group .object body).text :=
      GoText.trimSpace_ends (c := '{') rfl rfl hends rfl
    have hlast : (Tree.group .object body).text.getLast? = some '}' := by
      rw [hends]
      exact List.getLast?_concat ..
    have hlen : ¬ (Tree.group .object body).text.length < 2 := by
      rw [hends]
      simp
    have hhead : (Tree.group .object body).text.head? = some '{' := rfl
    rw [validatePayload, htrim, hvalid, hkeys, hlast, hhead]
    simp [hlen]

-- ---------------------------------------------------------------------------
-- Members by their names
-- ---------------------------------------------------------------------------

theorem lookup_iff {γ : Type} {l : List (Text × γ)} (hn : (l.map Prod.fst).Nodup) {key : Text} {x : γ} :
    l.lookup key = some x ↔ (key, x) ∈ l := by
  induction l with
  | nil => simp
  | cons m l ih =>
    obtain ⟨k, y⟩ := m
    rw [List.map_cons, List.nodup_cons] at hn
    by_cases hk : key = k
    · subst hk
      rw [List.lookup_cons_self]
      constructor
      · rintro ⟨⟩
        exact List.mem_cons_self
      · intro h
        rcases List.mem_cons.mp h with heq | h
        · cases heq
          rfl
        · exact absurd (List.mem_map_of_mem (f := Prod.fst) h) hn.1
    · rw [List.lookup_cons, beq_false_of_ne hk, ih hn.2, List.mem_cons]
      simp [hk]

theorem members_keys {body : Tree (.body .object true)} :
    (members (.group .object body)).map Prod.fst = body.keys := by
  rw [members, List.map_filterMap, Tree.keys]
  congr 1
  funext entry
  obtain ⟨key, value⟩ := entry
  cases key <;> rfl

theorem entry_mem (t : Tree c) {key : Option Text} (h : (key, v) ∈ t.entries) :
    v.depth ≤ t.depth ∧ (t.noDuplicates = true → v.noDuplicates = true) := by
  induction t with
  | word | number | string | group | close => cases h
  | last kind first label before value after =>
    rw [Tree.entries, List.mem_singleton] at h
    cases h
    exact ⟨Nat.le_refl _, id⟩
  | more kind first label before value after rest _ ih =>
    rw [Tree.entries, List.mem_cons] at h
    simp only [Tree.depth, Tree.noDuplicates, Bool.and_eq_true]
    rcases h with h | h
    · cases h
      exact ⟨Nat.le_max_left _ _, And.left⟩
    · exact ⟨Nat.le_trans (ih h).1 (Nat.le_max_right _ _), fun hd => (ih h).2 hd.2⟩

theorem members_mem {w : Value} (h : m ∈ members w) :
    m.2.depth ≤ w.depth ∧ (w.noDuplicates = true → m.2.noDuplicates = true) := by
  unfold members at h
  split at h
  · rename_i body
    obtain ⟨⟨key, value⟩, hm, heq⟩ := List.mem_filterMap.mp h
    obtain ⟨k, -, rfl⟩ := Option.map_eq_some_iff.mp heq
    obtain ⟨hd, hn⟩ := entry_mem body hm
    simp only [Tree.depth, Tree.noDuplicates, Bool.and_eq_true]
    exact ⟨Nat.le_succ_of_le hd, fun h => hn h.2⟩
  · cases h

theorem mem_all (f : Field) : f ∈ Field.all := by cases f <;> decide

theorem name_injective (h : f.name = g.name) : f = g := by
  revert h
  cases f <;> cases g <;> first | exact fun _ => rfl | exact fun h => absurd h (by decide)

theorem requireFields_ok {fields : List (Text × Text)} :
    requireFields fields = .ok () ↔ ∀ f : Field, (fields.lookup f.name).isSome = true := by
  unfold requireFields
  cases h : Field.all.find? fun f => (fields.lookup f.name).isNone with
  | none =>
    rw [List.find?_eq_none] at h
    refine ⟨fun _ f => ?_, fun _ => rfl⟩
    have := h f (mem_all f)
    simpa [Option.isSome_iff_ne_none] using this
  | some f =>
    have := List.find?_some h
    constructor
    · exact nofun
    · intro hall
      have hf := hall f
      rw [Option.isNone_iff_eq_none.mp this] at hf
      cases hf

theorem numericFields_ok {fields : List (Text × Text)} :
    (∃ numbers, numericFields fields = .ok numbers ∧ numbers.all (fun (f, n) => n = e.number f) = true) ↔
      ∀ f ∈ Field.numeric, decodeJSONUint32 ((fields.lookup f.name).getD []) = .ok (e.number f) := by
  unfold numericFields
  induction Field.numeric with
  | nil => simp [pure, Except.pure]
  | cons f fs ih =>
    rw [List.forall_mem_cons, ← ih]
    simp only [List.mapM_cons, bind, bind_ok]
    constructor
    · rintro ⟨numbers, ⟨p, hp, rest, hrest, heq⟩, hall⟩
      cases heq
      rw [List.all_cons, Bool.and_eq_true] at hall
      refine ⟨?_, rest, hrest, hall.2⟩
      split at hp <;> cases hp
      rename_i n hn
      have h : n = e.number f := of_decide_eq_true hall.1
      rw [hn, h]
    · rintro ⟨hf, rest, hrest, hall⟩
      refine ⟨(f, e.number f) :: rest, ⟨(f, e.number f), ?_, rest, hrest, rfl⟩, ?_⟩
      · rw [hf]
      · simp [hall]

-- ---------------------------------------------------------------------------
-- Envelopes
-- ---------------------------------------------------------------------------

/-- One JSON object in valid UTF-8 that repeats no key, of a length in range. -/
structure Message (data : List UInt8) (d : Document) : Prop where
  size : 1 ≤ data.length ∧ data.length ≤ maxControlMessageBytes
  text : data = Utf8.encode d.text
  object : ∃ body, d.value = .group .object body
  distinct : d.value.noDuplicates = true

structure ControlEnvelope.Valid (e : ControlEnvelope) : Prop where
  version : e.version = 1
  type : 1 ≤ byteLength e.type ∧ byteLength e.type ≤ 64 ∧ ∀ c ∈ e.type, isVisibleASCII c = true
  messageID : trimSpace e.messageID ≠ [] ∧ byteLength e.messageID ≤ 64
  deviceID : ∃ uuid, parseDeviceUUID (Utf8.encode e.deviceID) = .ok uuid

def ControlEnvelope.Has (e : ControlEnvelope) (v : Value) : Field → Prop
  | .type => ∃ items, v = .string items ∧ Json.decode items = e.type
  | .messageID => ∃ items, v = .string items ∧ Json.decode items = e.messageID
  | .deviceID => ∃ items, v = .string items ∧ Json.decode items = e.deviceID
  | .payload => v.text = e.payload ∧ ∃ body, v = .group .object body
  | f => Plain v 32 (e.number f)

/-- The envelope a message of the protocol is: its nine members, by their names. -/
def Denotes (data : List UInt8) (e : ControlEnvelope) : Prop :=
  ∃ d, Message data d ∧ (∀ key, key ∈ (members d.value).map Prod.fst ↔ ∃ f : Field, f.name = key) ∧
    (∀ f v, (f.name, v) ∈ members d.value → e.Has v f) ∧ e.Valid

/-- What `DecodeControl` makes of a message: all nine members there, every member in some
field, the last of each field said, the numbers by their names as well. -/
structure Decodes (d : Document) (e : ControlEnvelope) : Prop where
  shallow : d.value.depth ≤ maxNestingDepth
  named : ∀ f : Field, f.name ∈ (members d.value).map Prod.fst
  fit : ∀ m ∈ members d.value, ∃ f, fieldOf m.1 = some f ∧ fits f m.2 = true
  said : e = said (members d.value)
  numbers : ∀ f ∈ Field.numeric, ∀ v, (f.name, v) ∈ members d.value → Plain v 32 (e.number f)
  payload : ∃ v, lastOf (members d.value) .payload = some v ∧ ∃ body, v = .group .object body
  valid : e.Valid

theorem validate_ok : e.validate = none ↔ e.Valid ∧ validatePayload e.payload = none := by
  have hlen : ∀ s : Text, s ≠ [] ↔ 1 ≤ byteLength s := by
    intro s
    cases s with
    | nil => simp [byteLength, Utf8.encode]
    | cons c s =>
      have hc : 0 < c.utf8Size := Char.utf8Size_pos c
      simp only [byteLength, Utf8.encode, List.flatMap_cons, List.length_append,
        String.length_utf8EncodeChar]
      constructor
      · intro _
        omega
      · exact fun _ => List.cons_ne_nil c s
  constructor
  · intro h
    unfold ControlEnvelope.validate at h
    split at h
    · cases h
    split at h
    · cases h
    split at h
    · cases h
    split at h
    · cases h
    rename_i hversion htype hid _ uuid hdevice
    simp only [validASCIIField, Bool.not_eq_true, decide_eq_false_iff_not, not_not, List.all_eq_true] at htype
    rw [not_or, Nat.not_lt] at hid
    refine ⟨⟨?_, ⟨(hlen _).mp htype.1, htype.2.1, htype.2.2⟩, hid, uuid, hdevice⟩, h⟩
    exact UInt8.toNat_inj.mp (Decidable.not_not.mp hversion)
  · rintro ⟨⟨hversion, htype, hid, uuid, hdevice⟩, h⟩
    have htype' : validASCIIField e.type 64 = true := by
      simp only [validASCIIField, decide_eq_true_eq, List.all_eq_true]
      exact ⟨(hlen _).mpr htype.1, htype.2.1, htype.2.2⟩
    have hversion' : e.version.toNat = Protocol.Version := by
      rw [hversion]
      rfl
    unfold ControlEnvelope.validate
    rw [if_neg (not_not.mpr hversion'), if_neg (not_not.mpr htype'),
      if_neg (not_or.mpr ⟨hid.1, Nat.not_lt.mpr hid.2⟩), hdevice]
    exact h

theorem unmarshalFields_ok {body : Tree (.body .object true)} (hobj : d.value = .group .object body) :
    unmarshalFields d = .ok ((members d.value).map fun (key, value) => (key, value.text)) := by
  rw [unmarshalFields, hobj]

theorem lookup_texts (hn : (ms.map Prod.fst).Nodup) {key : Text} {raw : Text} :
    (ms.map fun (key, value) => (key, value.text)).lookup key = some raw ↔
      ∃ v, (key, v) ∈ ms ∧ v.text = raw := by
  have hn' : ((ms.map fun (key, value) => (key, value.text)).map Prod.fst).Nodup := by
    rw [List.map_map]
    exact hn
  rw [lookup_iff hn', List.mem_map]
  constructor
  · rintro ⟨⟨k, v⟩, hm, heq⟩
    cases heq
    exact ⟨v, hm, rfl⟩
  · rintro ⟨v, hm, rfl⟩
    exact ⟨_, hm, rfl⟩

theorem Message.nodup (h : Message data d) : ((members d.value).map Prod.fst).Nodup := by
  obtain ⟨body, hobj⟩ := h.object
  have hdup := h.distinct
  rw [hobj, Tree.noDuplicates, Bool.and_eq_true] at hdup
  rw [hobj, members_keys]
  exact of_decide_eq_true hdup.1

theorem Message.decode (h : Message data d) : Utf8.decode data = some d.text := by
  rw [h.text]
  exact Utf8.decode_encode _

theorem Message.unique {d' : Document} (h : Message data d) (h' : Message data d') : d = d' := by
  have htext := h.decode.symm.trans h'.decode
  have hdoc := Json.document_text d
  rw [Option.some.inj htext, Json.document_text d'] at hdoc
  exact (Option.some.inj hdoc).symm

theorem Message.passes (h : Message data d) : decodeControl data = .ok e ↔
    d.value.depth ≤ maxNestingDepth ∧ (∀ f : Field, f.name ∈ (members d.value).map Prod.fst) ∧
      (∀ f ∈ Field.numeric, ∀ v, (f.name, v) ∈ members d.value → Plain v 32 (e.number f)) ∧
      unmarshalEnvelope d = .ok e ∧ e.validate = none := by
  obtain ⟨body, hobj⟩ := h.object
  have hsize : ¬ (data.length = 0 ∨ maxControlMessageBytes < data.length) := by
    have := h.size
    omega
  have hkeys : rejectDuplicateJSONKeys d.text = .ok () :=
    rejectDuplicateJSONKeys_ok.mpr ⟨d, Json.document_text d, h.distinct⟩
  have hread : readJSON d.text = .ok d ↔ d.value.depth ≤ maxNestingDepth := by
    simp [readJSON, Json.document_text]
  have hread' : ∀ d', readJSON d.text = .ok d' → d' = d := by
    intro d' hd'
    simp only [readJSON, Json.document_text] at hd'
    split at hd' <;> cases hd'
    rfl
  have hnames : requireFields ((members d.value).map fun (key, value) => (key, value.text)) = .ok () ↔
      ∀ f : Field, f.name ∈ (members d.value).map Prod.fst := by
    rw [requireFields_ok]
    refine forall_congr' fun f => ?_
    rw [Option.isSome_iff_exists, List.mem_map]
    constructor
    · rintro ⟨raw, hraw⟩
      obtain ⟨v, hm, -⟩ := (lookup_texts h.nodup).mp hraw
      exact ⟨_, hm, rfl⟩
    · rintro ⟨⟨k, v⟩, hm, hk⟩
      exact ⟨v.text, (lookup_texts h.nodup).mpr ⟨v, hk ▸ hm, rfl⟩⟩
  have hnumbers : (∀ f : Field, f.name ∈ (members d.value).map Prod.fst) →
      ((∀ f ∈ Field.numeric, decodeJSONUint32
        ((((members d.value).map fun (key, value) => (key, value.text)).lookup f.name).getD []) =
          .ok (e.number f)) ↔
      ∀ f ∈ Field.numeric, ∀ v, (f.name, v) ∈ members d.value → Plain v 32 (e.number f)) := by
    intro hall
    refine forall_congr' fun f => imp_congr_right fun _ => ?_
    obtain ⟨⟨k, v⟩, hm, hk⟩ := List.mem_map.mp (hall f)
    have hm : (f.name, v) ∈ members d.value := hk ▸ hm
    rw [(lookup_texts h.nodup).mpr ⟨v, hm, rfl⟩, Option.getD_some, decodeJSONUint32_ok]
    constructor
    · intro hp v' hm'
      have := (lookup_iff h.nodup).mpr hm
      rw [(lookup_iff h.nodup).mpr hm'] at this
      cases this
      exact hp
    · exact fun hp => hp v hm
  constructor
  · intro hok
    rw [decodeControl, if_neg hsize, h.decode] at hok
    simp only [decodeControlText, bind, bind_ok, mapError_ok] at hok
    obtain ⟨_, -, d', hd', fields, hfields, _, hreq, numbers, hnum, env, henv, hok⟩ := hok
    obtain rfl := hread' d' hd'
    rw [unmarshalFields_ok hobj] at hfields
    cases hfields
    split at hok
    · cases hok
    · rename_i hall
      split at hok <;> cases hok
      rename_i hvalid
      have hall := Decidable.not_not.mp hall
      have hreq := hnames.mp hreq
      exact ⟨hread.mp hd', hreq, (hnumbers hreq).mp (numericFields_ok.mp ⟨_, hnum, hall⟩), henv, hvalid⟩
  · rintro ⟨hdepth, hreq, hnum, henv, hvalid⟩
    obtain ⟨numbers, hnumeric, hall⟩ := numericFields_ok.mpr ((hnumbers hreq).mpr hnum)
    rw [decodeControl, if_neg hsize, h.decode]
    simp only [decodeControlText, bind, bind_ok, mapError_ok]
    refine ⟨(), hkeys, d, hread.mpr hdepth, _, unmarshalFields_ok hobj, (), hnames.mpr hreq, numbers,
      hnumeric, e, henv, ?_⟩
    rw [if_neg (not_not.mpr hall), hvalid]

theorem Message.decodes (h : Message data d) : decodeControl data = .ok e ↔ Decodes d e := by
  rw [h.passes, unmarshalEnvelope, unmarshalMembers_ok, validate_ok]
  have hpayload : ∀ v, lastOf (members d.value) .payload = some v → d.value.depth ≤ maxNestingDepth →
      (validatePayload v.text = none ↔ ∃ body, v = .group .object body) := by
    intro v hv hdepth
    obtain ⟨m, hm, rfl⟩ := List.mem_map.mp (List.mem_of_getLast? hv)
    obtain ⟨h1, h2⟩ := members_mem (List.mem_of_mem_filter hm)
    exact validatePayload_value (Nat.le_trans h1 hdepth) (h2 h.distinct)
  constructor
  · rintro ⟨hdepth, hnamed, hnum, ⟨hfit, rfl⟩, hvalid, hpay⟩
    refine ⟨hdepth, hnamed, hfit, rfl, hnum, ?_, hvalid⟩
    cases hv : lastOf (members d.value) .payload with
    | none =>
      rw [show (said (members d.value)).payload = [] by simp [said, hv]] at hpay
      cases hpay
    | some v =>
      rw [show (said (members d.value)).payload = v.text by simp [said, hv]] at hpay
      exact ⟨v, rfl, (hpayload v hv hdepth).mp hpay⟩
  · rintro ⟨hdepth, hnamed, hfit, rfl, hnum, ⟨v, hv, hobj⟩, hvalid⟩
    refine ⟨hdepth, hnamed, hnum, ⟨hfit, rfl⟩, hvalid, ?_⟩
    rw [show (said (members d.value)).payload = v.text by simp [said, hv]]
    exact (hpayload v hv hdepth).mpr hobj

theorem decodeControl_message (h : decodeControl data = .ok e) : ∃ d, Message data d := by
  unfold decodeControl at h
  split at h
  · cases h
  rename_i hsize
  split at h
  · cases h
  rename_i text htext
  simp only [decodeControlText, bind, bind_ok, mapError_ok] at h
  obtain ⟨_, hkeys, d, hread, fields, hfields, _, hreq, -⟩ := h
  obtain ⟨d', hd', hdup⟩ := rejectDuplicateJSONKeys_ok.mp hkeys
  have hdoc : d' = d := by
    simp only [readJSON, hd'] at hread
    split at hread <;> cases hread
    rfl
  subst hdoc
  refine ⟨d', by omega, ?_, ?_, hdup⟩
  · rw [← Json.document_sound hd']
    exact (Utf8.encode_decode htext).symm
  · unfold unmarshalFields at hfields
    split at hfields
    · rename_i body hobj
      exact ⟨body, hobj⟩
    · cases hfields
      exact absurd (requireFields_ok.mp hreq .version) (by decide)
    · cases hfields

-- ---------------------------------------------------------------------------
-- The protocol's envelopes
-- ---------------------------------------------------------------------------

theorem fieldOf_name (f : Field) : fieldOf f.name = some f := by cases f <;> decide

def Exact (ms : List (Text × Value)) : Prop := ∀ m ∈ ms, ∃ f : Field, f.name = m.1

/-- With the nine members only, the last of a field is the one of its name. -/
theorem lastOf_exact (hex : Exact ms) (hn : (ms.map Prod.fst).Nodup) (hm : (f.name, v) ∈ ms) :
    lastOf ms f = if f = .payload ∨ isNull v = false then some v else none := by
  have only : ∀ m ∈ ms, fieldOf m.1 = some f → m.2 = v := by
    rintro ⟨k, w⟩ hkm hf
    obtain ⟨g, rfl⟩ := hex _ hkm
    rw [fieldOf_name, Option.some.injEq] at hf
    subst hf
    have := (lookup_iff hn).mpr hm
    rw [(lookup_iff hn).mpr hkm] at this
    exact Option.some.inj this
  unfold lastOf
  split
  · rename_i hsays
    generalize hl : (ms.filter fun m => fieldOf m.1 = some f ∧ (f = .payload ∨ isNull m.2 = false)).map
      Prod.snd = l
    have hv : v ∈ l := by
      rw [← hl]
      exact List.mem_map.mpr ⟨_, List.mem_filter.mpr ⟨hm, by simp [fieldOf_name, hsays]⟩, rfl⟩
    have hall : ∀ w ∈ l, w = v := by
      intro w hw
      rw [← hl] at hw
      obtain ⟨m, hm, rfl⟩ := List.mem_map.mp hw
      rw [List.mem_filter, decide_eq_true_eq] at hm
      exact only m hm.1 hm.2.1
    rw [List.getLast?_eq_some_getLast (List.ne_nil_of_mem hv)]
    exact congrArg some (hall _ (List.getLast_mem _))
  · rename_i hsays
    rw [List.getLast?_eq_none_iff, List.map_eq_nil_iff, List.filter_eq_nil_iff]
    intro m hm hf
    rw [decide_eq_true_eq] at hf
    exact hsays (only m hm hf.1 ▸ hf.2)

theorem Plain.said {lo : Option Value} (h : Plain v 32 n) (hl : lo = some v) : numberOf lo = n := by
  obtain ⟨m, rfl, -, hn, -⟩ := h
  rw [hl]
  exact hn

theorem Plain.fits (h : Plain v 32 n) (hlt : n < 2 ^ bits) : fitsUint bits v = true := by
  obtain ⟨m, rfl, hd, hn, -⟩ := h
  rw [fitsUint, (parseUint_number hd).mpr ⟨hn, hlt⟩]
  rfl

theorem Plain.visible (h : Plain v 32 n) : isNull v = false := by
  obtain ⟨m, rfl, -⟩ := h
  rfl

/-- An envelope of the protocol is read as what it denotes, unless it nests too deep. -/
theorem Message.decodes_of_has (h : Message data d) (hdepth : d.value.depth ≤ maxNestingDepth)
    (hkeys : ∀ key, key ∈ (members d.value).map Prod.fst ↔ ∃ f : Field, f.name = key)
    (hhas : ∀ f v, (f.name, v) ∈ members d.value → e.Has v f) (hvalid : e.Valid) : Decodes d e := by
  have hex : Exact (members d.value) := fun m hm => (hkeys m.1).mp (List.mem_map_of_mem hm)
  have hmember : ∀ f : Field, ∃ v, (f.name, v) ∈ members d.value ∧ e.Has v f ∧
      lastOf (members d.value) f = if f = .payload ∨ isNull v = false then some v else none := by
    intro f
    obtain ⟨⟨k, v⟩, hm, hk⟩ := List.mem_map.mp ((hkeys f.name).mpr ⟨f, rfl⟩)
    have hm : (f.name, v) ∈ members d.value := hk ▸ hm
    exact ⟨v, hm, hhas f v hm, lastOf_exact hex h.nodup hm⟩
  have hversion : e.version.toNat < 2 ^ 8 := e.version.toNat_lt
  have hfits : ∀ f v, e.Has v f → Wire.fits f v = true := by
    intro f v hv
    cases f with
    | version => exact Plain.fits hv hversion
    | sessionID => exact Plain.fits hv e.sessionID.toNat_lt
    | turnID => exact Plain.fits hv e.turnID.toNat_lt
    | streamID => exact Plain.fits hv e.streamID.toNat_lt
    | epoch => exact Plain.fits hv e.epoch.toNat_lt
    | type | messageID | deviceID =>
      obtain ⟨items, rfl, -⟩ := hv
      rfl
    | payload => rfl
  have number : ∀ f ∈ Field.numeric, numberOf (lastOf (members d.value) f) = e.number f ∧
      ∀ v, (f.name, v) ∈ members d.value → Plain v 32 (e.number f) := by
    intro f hf
    obtain ⟨v, hm, hv, hlast⟩ := hmember f
    have hplain : ∀ v, e.Has v f → Plain v 32 (e.number f) := by
      intro v hv
      cases f <;> first | exact hv | exact absurd hf (by decide)
    have hnull : isNull v = false := (hplain v hv).visible
    rw [if_pos (.inr hnull)] at hlast
    exact ⟨(hplain v hv).said hlast, fun v hm => hplain v (hhas f v hm)⟩
  have text : ∀ f (s : Text), (∀ v, e.Has v f → ∃ items, v = .string items ∧ Json.decode items = s) →
      stringOf (lastOf (members d.value) f) = s := by
    intro f s hs
    obtain ⟨v, hm, hv, hlast⟩ := hmember f
    obtain ⟨items, rfl, rfl⟩ := hs v hv
    rw [hlast, if_pos (.inr rfl)]
    rfl
  obtain ⟨v, hm, ⟨hpay, body, rfl⟩, hlast⟩ := hmember .payload
  rw [if_pos (.inl rfl)] at hlast
  refine ⟨hdepth, fun f => (hkeys f.name).mpr ⟨f, rfl⟩, fun m hm => ?_, ?_, fun f hf => (number f hf).2,
    ⟨_, hlast, body, rfl⟩, hvalid⟩
  · obtain ⟨f, hf⟩ := hex m hm
    refine ⟨f, hf ▸ fieldOf_name f, hfits f m.2 (hhas f m.2 ?_)⟩
    rw [hf]
    exact hm
  · rw [Wire.said]
    have h1 := (number .version (by decide)).1
    have h2 := (number .sessionID (by decide)).1
    have h3 := (number .turnID (by decide)).1
    have h4 := (number .streamID (by decide)).1
    have h5 := (number .epoch (by decide)).1
    have h6 := text .type e.type fun _ => id
    have h7 := text .messageID e.messageID fun _ => id
    have h8 := text .deviceID e.deviceID fun _ => id
    rw [h1, h2, h3, h4, h5, h6, h7, h8, hlast]
    simp only [ControlEnvelope.number, Option.map_some, Option.getD_some, hpay, UInt8.ofNat_toNat,
      UInt32.ofNat_toNat]

theorem Decodes.has (h : Decodes d e) (hex : Exact (members d.value))
    (hn : ((members d.value).map Prod.fst).Nodup) (hm : (f.name, v) ∈ members d.value) : e.Has v f := by
  have hlast := lastOf_exact hex hn hm
  have hfit : fits f v = true := by
    obtain ⟨g, hg, hfit⟩ := h.fit _ hm
    rw [fieldOf_name, Option.some.injEq] at hg
    exact hg ▸ hfit
  have text : ∀ s : Text, fits .type v = true → stringOf (lastOf (members d.value) f) = s → f ≠ .payload →
      s ≠ [] → ∃ items, v = .string items ∧ Json.decode items = s := by
    rintro s hfit rfl hf hne
    rw [hlast] at hne ⊢
    cases v with
    | word w =>
      cases w with
      | null =>
        rw [if_neg (by simp [hf, isNull])] at hne
        exact absurd rfl hne
      | true => cases hfit
      | false => cases hfit
    | number => cases hfit
    | string items => exact ⟨items, rfl, by simp [isNull, stringOf]⟩
    | group => cases hfit
  cases f with
  | version | sessionID | turnID | streamID | epoch => exact h.numbers _ (by decide) v hm
  | type =>
    refine text e.type hfit (by rw [h.said]; rfl) nofun fun hnil => ?_
    have := h.valid.type.1
    rw [hnil] at this
    cases this
  | messageID =>
    refine text e.messageID hfit (by rw [h.said]; rfl) nofun fun hnil => ?_
    have := h.valid.messageID.1
    rw [hnil] at this
    exact this rfl
  | deviceID =>
    refine text e.deviceID hfit (by rw [h.said]; rfl) nofun fun hnil => ?_
    obtain ⟨uuid, huuid⟩ := h.valid.deviceID
    rw [hnil] at huuid
    cases huuid
  | payload =>
    obtain ⟨w, hw, body, rfl⟩ := h.payload
    rw [if_pos (.inl rfl)] at hlast
    obtain rfl := Option.some.inj (hlast.symm.trans hw)
    have hpayload : (Wire.said (members d.value)).payload = (Tree.group .object body).text := by
      rw [Wire.said, hlast]
      rfl
    exact ⟨(h.said ▸ hpayload).symm, body, rfl⟩

/-- A message that is accepted although it has a member besides the nine: every such member
is one of them in another case. -/
def Variant (data : List UInt8) : Prop :=
  ∃ d, Message data d ∧ Decodes d (said (members d.value)) ∧
    ∃ m ∈ members d.value, ∀ f : Field, f.name ≠ m.1

/-- An envelope that nests deeper than `encoding/json` reads. -/
def TooDeep (data : List UInt8) : Prop :=
  ∃ d e, Message data d ∧ Denotes data e ∧ maxNestingDepth < d.value.depth

/-- `DecodeControl` reads the envelopes of the protocol as what they denote, and no other
message, exactly when the message is none of these two. -/
theorem decodes_envelopes_iff : (∀ e, decodeControl data = .ok e ↔ Denotes data e) ↔
    ¬ Variant data ∧ ¬ TooDeep data := by
  constructor
  · intro h
    constructor
    · rintro ⟨d, hd, hdec, m, hm, hvar⟩
      obtain ⟨d', hd', hkeys, -, -⟩ := (h _).mp (hd.decodes.mpr hdec)
      obtain rfl := hd.unique hd'
      obtain ⟨f, hf⟩ := (hkeys m.1).mp (List.mem_map_of_mem hm)
      exact hvar f hf
    · rintro ⟨d, e, hd, hden, hdeep⟩
      have hdec := hd.decodes.mp ((h e).mpr hden)
      exact absurd hdec.shallow (Nat.not_le.mpr hdeep)
  · rintro ⟨hvar, hdeep⟩ e
    constructor
    · intro hok
      obtain ⟨d, hd⟩ := decodeControl_message hok
      have hdec := hd.decodes.mp hok
      have hex : Exact (members d.value) := by
        intro m hm
        by_contra hno
        exact hvar ⟨d, hd, hdec.said ▸ hdec, m, hm, fun f hf => hno ⟨f, hf⟩⟩
      refine ⟨d, hd, fun key => ⟨fun hk => ?_, ?_⟩, fun f v hm => hdec.has hex hd.nodup hm, hdec.valid⟩
      · obtain ⟨m, hm, rfl⟩ := List.mem_map.mp hk
        exact hex m hm
      · rintro ⟨f, rfl⟩
        exact hdec.named f
    · rintro ⟨d, hd, hkeys, hhas, hvalid⟩
      have hdepth : d.value.depth ≤ maxNestingDepth := by
        by_contra hdepth
        exact hdeep ⟨d, e, hd, ⟨d, hd, hkeys, hhas, hvalid⟩, Nat.not_le.mp hdepth⟩
      exact hd.decodes.mpr (hd.decodes_of_has hdepth hkeys hhas hvalid)

theorem decodeControl_encode (h : 1 ≤ byteLength s ∧ byteLength s ≤ maxControlMessageBytes) :
    decodeControl (Utf8.encode s) = decodeControlText s := by
  rw [byteLength] at h
  rw [decodeControl, if_neg (by omega), Utf8.decode_encode]

theorem Denotes.keys (h : Denotes (Utf8.encode s) e) : ∃ d, Json.document s = some d ∧
    ∀ m ∈ members d.value, ∃ f : Field, f.name = m.1 := by
  obtain ⟨d, hd, hkeys, -, -⟩ := h
  refine ⟨d, ?_, fun m hm => (hkeys m.1).mp (List.mem_map_of_mem hm)⟩
  have htext := hd.decode
  rw [Utf8.decode_encode, Option.some.injEq] at htext
  rw [htext]
  exact Json.document_text d

def sampleID : Text :=
  List.replicate 8 '0' ++ '-' :: List.replicate 4 '0' ++ '-' :: List.replicate 4 '0' ++ '-' ::
    List.replicate 4 '0' ++ '-' :: List.replicate 11 '0' ++ ['1']

def variantMessage : Text :=
  objectText [(Field.version.name, ['1']), (Field.type.name, literal ['h', 'e', 'l', 'l', 'o']),
    (Field.messageID.name, literal ['1']), (Field.deviceID.name, literal sampleID),
    (Field.sessionID.name, ['0']), (Field.turnID.name, ['0']), (Field.streamID.name, ['0']),
    (Field.epoch.name, ['0']), (Field.payload.name, ['{', '}']),
    (['T', 'y', 'p', 'e'], literal ['b', 'y', 'e'])]

/-- The message is accepted, and its type is not that of the member "type". -/
theorem variant_message_accepted : ∃ e, decodeControl (Utf8.encode variantMessage) = .ok e ∧
    e.type = ['b', 'y', 'e'] ∧ ¬ Denotes (Utf8.encode variantMessage) e := by
  have hok : (decodeControlText variantMessage).map (·.type) = .ok ['b', 'y', 'e'] := by decide +kernel
  obtain ⟨e, he, htype⟩ := map_ok.mp hok
  refine ⟨e, ?_, htype, fun hden => ?_⟩
  · rw [decodeControl_encode (by decide +kernel)]
    exact he
  · obtain ⟨d, hd, hkeys⟩ := hden.keys
    have hextra : (Json.document variantMessage).all fun d =>
        (members d.value).any fun m => Field.all.all fun f => f.name ≠ m.1 := by decide +kernel
    rw [hd] at hextra
    obtain ⟨m, hm, hvar⟩ := List.any_eq_true.mp hextra
    obtain ⟨f, hf⟩ := hkeys m hm
    exact of_decide_eq_true (List.all_eq_true.mp hvar f (mem_all f)) hf

end BoomPI.Wire
