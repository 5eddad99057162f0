import BoomPI.Client.Message
import BoomPI.Wire.Envelope

/-!
# Both writers are read back

`EncodeControl` and the client's `Send` spell the nine members of an envelope in
one order. `DecodeControl` reads back whatever is spelled like this, as long as
it nests no deeper than `encoding/json` reads; the braces around the payload
count.
-/

namespace BoomPI.Wire

open GoText (trimSpace)
open Json (Text Value Tree Item Document Escape)

variable {e : ControlEnvelope} {v : Value} {write : Char → Item} {data : List UInt8} {d : Document}
  {s t : Text}

-- ---------------------------------------------------------------------------
-- Spelled envelopes
-- ---------------------------------------------------------------------------

/-- The members that spell an envelope, a string character by character. -/
def ControlEnvelope.value (e : ControlEnvelope) (write : Char → Item) (payload : Value) : Field → Value
  | .version => .number (.ofNat e.version.toNat)
  | .type => .string (e.type.map write)
  | .messageID => .string (e.messageID.map write)
  | .deviceID => .string (e.deviceID.map write)
  | .sessionID => .number (.ofNat e.sessionID.toNat)
  | .turnID => .number (.ofNat e.turnID.toNat)
  | .streamID => .number (.ofNat e.streamID.toNat)
  | .epoch => .number (.ofNat e.epoch.toNat)
  | .payload => payload

def ControlEnvelope.spelled (e : ControlEnvelope) (write : Char → Item) (payload : Value) : Value :=
  Json.object (Field.all.map fun f => (f.name.map Item.of, e.value write payload f))

theorem name_plain (f : Field) : f.name.all Json.isPlain = true := by cases f <;> rfl

theorem object_literal (ms : List (Text × Value)) (h : ∀ m ∈ ms, m.1.all Json.isPlain = true) :
    (Json.object (ms.map fun (key, value) => (key.map Item.of, value))).text =
      objectText (ms.map fun (key, value) => (key, value.text)) := by
  rw [Json.object_text, objectText, List.map_map, List.map_map]
  congr 4
  refine List.map_congr_left fun m hm => ?_
  simp only [Function.comp, Json.memberText, Json.quoted, Json.spell_of (h m hm), literal]

theorem spelled_text : (e.spelled write v).text =
    objectText (Field.all.map fun f => (f.name, (e.value write v f).text)) := by
  have hplain : ∀ m ∈ Field.all.map fun f => (f.name, e.value write v f), m.1.all Json.isPlain = true := by
    intro m hm
    obtain ⟨f, -, rfl⟩ := List.mem_map.mp hm
    exact name_plain f
  have h := object_literal _ hplain
  rw [List.map_map, List.map_map] at h
  exact h

theorem members_object (ms : List (List Item × Value)) :
    members (Json.object ms) = ms.map fun m => (Json.decode m.1, m.2) := by
  rw [Json.object, members, Json.objectBody_entries, List.filterMap_map]
  induction ms with
  | nil => rfl
  | cons m ms ih =>
    rw [List.filterMap_cons, List.map_cons, ih]
    rfl

theorem members_spelled : members (e.spelled write v) =
    Field.all.map fun f => (f.name, e.value write v f) := by
  rw [ControlEnvelope.spelled, members_object, List.map_map]
  refine List.map_congr_left fun f _ => ?_
  simp only [Function.comp, Json.decode_map Json.of_writes]

theorem mem_spelled {f : Field} {w : Value} :
    (f.name, w) ∈ members (e.spelled write v) ↔ w = e.value write v f := by
  rw [members_spelled, List.mem_map]
  constructor
  · rintro ⟨g, -, heq⟩
    rw [Prod.mk.injEq] at heq
    rw [← name_injective heq.1, heq.2]
  · rintro rfl
    exact ⟨f, mem_all f, rfl⟩

theorem plain_ofNat {n bits : Nat} (h : n < 2 ^ bits) : Plain (.number (.ofNat n)) bits n :=
  ⟨_, rfl, Json.toDigits_digits n, Nat.ofDigitChars_ten_toDigits, h⟩

theorem value_has (hw : ∀ c, (write c).Writes c) {body : Tree (.body .object true)}
    (hpay : e.payload = (Tree.group .object body).text) (f : Field) :
    e.Has (e.value write (.group .object body) f) f := by
  have hstring : ∀ s : Text, ∃ items, Tree.string (s.map write) = .string items ∧ Json.decode items = s :=
    fun s => ⟨_, rfl, Json.decode_map hw s⟩
  cases f with
  | version => exact plain_ofNat (Nat.lt_trans e.version.toNat_lt (by decide))
  | type => exact hstring _
  | messageID => exact hstring _
  | deviceID => exact hstring _
  | sessionID => exact plain_ofNat e.sessionID.toNat_lt
  | turnID => exact plain_ofNat e.turnID.toNat_lt
  | streamID => exact plain_ofNat e.streamID.toNat_lt
  | epoch => exact plain_ofNat e.epoch.toNat_lt
  | payload => exact ⟨hpay.symm, body, rfl⟩

theorem value_depth (e : ControlEnvelope) (write : Char → Item) {n : Nat} : (∀ f, (e.value write v f).depth ≤ n) ↔ v.depth ≤ n := by
  constructor
  · intro h
    exact h .payload
  · intro h f
    cases f <;> first | exact h | exact Nat.zero_le n

theorem spelled_depth {n : Nat} : (e.spelled write v).depth ≤ n + 1 ↔ v.depth ≤ n := by
  rw [ControlEnvelope.spelled, Json.object_depth, List.forall_mem_map, ← value_depth e write]
  exact ⟨fun h f => h f (mem_all f), fun h f _ => h f⟩

theorem names_nodup : (Field.all.map Field.name).Nodup := by decide

theorem spelled_noDuplicates (h : v.noDuplicates = true) : (e.spelled write v).noDuplicates = true := by
  rw [ControlEnvelope.spelled, Json.object_noDuplicates, List.map_map, List.forall_mem_map]
  constructor
  · simp only [Function.comp_def, Json.decode_map Json.of_writes]
    exact names_nodup
  · intro f _
    cases f <;> first | exact h | rfl

theorem decode_spelled (hw : ∀ c, (write c).Writes c) {body : Tree (.body .object true)} (hvalid : e.Valid)
    (hpay : e.payload = (Tree.group .object body).text)
    (hdup : (Tree.group .object body).noDuplicates = true)
    (hdepth : (Tree.group .object body).depth < maxNestingDepth)
    (hsize : byteLength (e.spelled write (.group .object body)).text ≤ maxControlMessageBytes) :
    decodeControl (Utf8.encode (e.spelled write (.group .object body)).text) = .ok e := by
  have htext : (⟨Json.tight, e.spelled write (.group .object body), Json.tight⟩ : Document).text =
      (e.spelled write (.group .object body)).text := by simp [Document.text, Json.tight]
  have hm : Message (Utf8.encode (e.spelled write (.group .object body)).text)
      ⟨Json.tight, e.spelled write (.group .object body), Json.tight⟩ := by
    refine ⟨⟨?_, hsize⟩, by rw [htext], ⟨_, rfl⟩, spelled_noDuplicates hdup⟩
    refine List.length_pos_of_ne_nil fun hnil => ?_
    have hdecode := Utf8.decode_encode (e.spelled write (.group .object body)).text
    rw [hnil] at hdecode
    cases hdecode
  refine hm.decodes.mpr (hm.decodes_of_has ?_ ?_ ?_ hvalid)
  · exact spelled_depth.mpr (Nat.le_of_lt_succ hdepth)
  · intro key
    rw [members_spelled, List.map_map, List.mem_map]
    constructor
    · rintro ⟨f, -, hf⟩
      exact ⟨f, hf⟩
    · rintro ⟨f, hf⟩
      exact ⟨f, mem_all f, hf⟩
  · intro f w hw'
    rw [mem_spelled.mp hw']
    exact value_has hw hpay f

-- ---------------------------------------------------------------------------
-- Whitespace around a payload
-- ---------------------------------------------------------------------------

theorem space_unicode {c : Char} (h : Json.isSpace c = true) : GoText.isSpace c = true := by
  simp only [Json.isSpace, Bool.or_eq_true, decide_eq_true_eq] at h
  rcases h with ((rfl | rfl) | rfl) | rfl <;> rfl

theorem value_ends (v : Value) : ∃ s c, v.text = s ++ [c] ∧ GoText.isSpace c = false := by
  cases v with
  | word w =>
    cases w with
    | null => exact ⟨['n', 'u', 'l'], 'l', rfl, rfl⟩
    | true => exact ⟨['t', 'r', 'u'], 'e', rfl, rfl⟩
    | false => exact ⟨['f', 'a', 'l', 's'], 'e', rfl, rfl⟩
  | number n =>
    obtain ⟨c, s, heq, -⟩ := Json.number_head n
    have hne : n.val ≠ [] := heq ▸ List.cons_ne_nil c s
    refine ⟨n.val.dropLast, n.val.getLast hne, (List.dropLast_append_getLast hne).symm, ?_⟩
    exact visible_not_space (numeric_visible
      (List.all_eq_true.mp (Json.isNumber_numeric n.property) _ (List.getLast_mem hne)))
  | string items => exact ⟨'"' :: Json.spell items, '"', rfl, rfl⟩
  | group kind body =>
    obtain ⟨s, hs⟩ := body_ends body kind true rfl
    refine ⟨kind.opening :: s, kind.closing, ?_, ?_⟩
    · rw [Tree.text, hs]
      rfl
    · cases kind <;> rfl

theorem trimSpace_document (d : Document) : trimSpace d.text = d.value.text := by
  have hspace : ∀ gap : Json.Space, ∀ c ∈ gap.val, GoText.isSpace c = true := fun gap c hc =>
    space_unicode (List.all_eq_true.mp gap.property c hc)
  obtain ⟨c, s, hfirst, hvisible, -⟩ := value_visible d.value
  obtain ⟨t, c', hlast, hend⟩ := value_ends d.value
  have hdrop : GoText.trimLeft d.text = d.value.text ++ d.after.val := by
    rw [GoText.trimLeft, Document.text, List.append_assoc, List.dropWhile_append_of_pos (hspace d.before), hfirst,
      List.cons_append, List.dropWhile_cons_of_neg (by simp [visible_not_space hvisible])]
  have hafter : d.after.val.all GoText.isSpace = true := List.all_eq_true.mpr (hspace d.after)
  rw [trimSpace, hdrop, GoText.trimRight_blanks hafter, hlast, GoText.trimRight_append hend, GoText.trimRight_nil]

/-- What `Validate` wants of a payload that is JSON. -/
theorem validatePayload_document (hd : d.value.depth ≤ maxNestingDepth) :
    validatePayload d.text = none ↔
      d.value.noDuplicates = true ∧ ∃ body, d.value = .group .object body := by
  have htrim : trimSpace d.value.text = d.value.text := by
    have := trimSpace_document ⟨Json.tight, d.value, Json.tight⟩
    simpa [Document.text, Json.tight] using this
  have hsame : validatePayload d.text = validatePayload d.value.text := by
    rw [validatePayload, validatePayload, trimSpace_document, htrim]
  rw [hsame]
  constructor
  · intro h
    have hdup : d.value.noDuplicates = true := by
      unfold validatePayload at h
      rw [htrim] at h
      dsimp only at h
      split at h
      · cases h
      split at h
      · cases h
      · rename_i hkeys
        obtain ⟨d', hd', hdup⟩ := rejectDuplicateJSONKeys_ok.mp hkeys
        rw [document_value, Option.some.injEq] at hd'
        subst hd'
        exact hdup
    exact ⟨hdup, (validatePayload_value hd hdup).mp h⟩
  · rintro ⟨hdup, hobj⟩
    exact (validatePayload_value hd hdup).mpr hobj

-- ---------------------------------------------------------------------------
-- EncodeControl
-- ---------------------------------------------------------------------------

theorem escapeRune_writes (c : Char) : (escapeRune c).Writes c := by
  unfold escapeRune
  split
  · rename_i h
    exact Json.plain_writes h.1
  rename_i hsafe
  split
  · rename_i h
    exact h ▸ Json.escape_writes .quote
  split
  · rename_i h
    exact h ▸ Json.escape_writes .backslash
  rename_i hquote hslash
  have hlow : c.toNat < 65536 := by
    simp only [Json.isPlain, htmlSafe, Bool.and_eq_true, decide_eq_true_eq] at hsafe
    by_contra hc
    refine hsafe ⟨⟨⟨hquote, hslash⟩, by omega⟩, ⟨⟨⟨?_, ?_⟩, ?_⟩, by omega⟩, by omega⟩
    all_goals
      rintro rfl
      exact hc (by decide)
  split
  · rename_i h
    exact (Char.toNat_inj.mp h : c = Escape.b.value) ▸ Json.escape_writes .b
  split
  · rename_i h
    exact (Char.toNat_inj.mp h : c = Escape.f.value) ▸ Json.escape_writes .f
  split
  · rename_i h
    exact h ▸ Json.escape_writes .n
  split
  · rename_i h
    exact h ▸ Json.escape_writes .r
  split
  · rename_i h
    exact h ▸ Json.escape_writes .t
  · exact Json.ofUnit_writes hlow

theorem escapeHTML_keeps : Json.Keeps escapeHTML := by
  intro i
  cases i with
  | plain c h =>
    by_cases hsafe : htmlSafe c = true
    · simp [escapeHTML, hsafe]
    · have hlow : c.toNat < 65536 := by
        simp only [htmlSafe, Bool.and_eq_true, decide_eq_true_eq] at hsafe
        by_contra hc
        refine hsafe ⟨⟨⟨⟨?_, ?_⟩, ?_⟩, by omega⟩, by omega⟩
        all_goals
          rintro rfl
          exact hc (by decide)
      simp only [escapeHTML, hsafe]
      exact Json.ofUnit_writes hlow
  | escape | unicode => exact ⟨rfl, rfl⟩

/-- The payload as `json.Marshal` writes it. -/
def marshalled (d : Document) : Value := d.value.respell escapeHTML

theorem appendCompact_ok : appendCompact s = .ok t ↔
    ∃ d, Json.document s = some d ∧ d.value.depth ≤ maxNestingDepth ∧ (marshalled d).text = t := by
  rw [appendCompact, map_ok]
  refine exists_congr fun d => ?_
  rw [← and_assoc]
  refine and_congr_left fun _ => ?_
  unfold readJSON
  cases Json.document s with
  | none => simp
  | some d' =>
    dsimp only
    split
    · rename_i hdepth
      constructor
      · rintro ⟨⟩
        exact ⟨rfl, hdepth⟩
      · rintro ⟨⟨⟩, -⟩
        rfl
    · rename_i hdepth
      constructor
      · exact nofun
      · rintro ⟨⟨⟩, h⟩
        exact absurd h hdepth

theorem encodeControl_ok : encodeControl e = .ok data ↔ ∃ d, Json.document e.payload = some d ∧
    d.value.depth ≤ maxNestingDepth ∧ d.value.noDuplicates = true ∧
    (∃ body, d.value = .group .object body) ∧ e.Valid ∧
    byteLength (e.spelled escapeRune (marshalled d)).text ≤ maxControlMessageBytes ∧
    data = Utf8.encode (e.spelled escapeRune (marshalled d)).text := by
  have hmarshal : ∀ d, objectText (Field.all.map fun f => (f.name, e.fieldText (marshalled d).text f)) =
      (e.spelled escapeRune (marshalled d)).text := by
    intro d
    rw [spelled_text]
    refine congrArg objectText (List.map_congr_left fun f _ => ?_)
    cases f <;> rfl
  constructor
  · intro h
    unfold encodeControl at h
    split at h
    · cases h
    rename_i hvalid
    split at h
    · cases h
    rename_i encoded hencoded
    split at h
    · cases h
    rename_i hsize
    cases h
    rw [ControlEnvelope.marshal, map_ok] at hencoded
    obtain ⟨p, hp, rfl⟩ := hencoded
    obtain ⟨d, hd, hdepth, rfl⟩ := appendCompact_ok.mp (mapError_ok.mp hp)
    obtain ⟨hvalid, hpay⟩ := validate_ok.mp hvalid
    rw [Json.document_sound hd, validatePayload_document hdepth] at hpay
    rw [hmarshal] at hsize ⊢
    exact ⟨d, hd, hdepth, hpay.1, hpay.2, hvalid, Nat.not_lt.mp hsize, rfl⟩
  · rintro ⟨d, hd, hdepth, hdup, hobj, hvalid, hsize, rfl⟩
    have hpay : validatePayload e.payload = none := by
      rw [Json.document_sound hd, validatePayload_document hdepth]
      exact ⟨hdup, hobj⟩
    have hencoded : e.marshal = .ok (e.spelled escapeRune (marshalled d)).text := by
      rw [ControlEnvelope.marshal, map_ok]
      exact ⟨_, mapError_ok.mpr (appendCompact_ok.mpr ⟨d, hd, hdepth, rfl⟩), hmarshal d⟩
    rw [encodeControl, validate_ok.mpr ⟨hvalid, hpay⟩, hencoded]
    exact if_neg (Nat.not_lt.mpr hsize)

-- ---------------------------------------------------------------------------
-- Read back
-- ---------------------------------------------------------------------------

/-- Two JSON texts that differ in whitespace and in the spelling of strings at most. -/
def SameJSON (s t : Text) : Prop :=
  ∃ d d', Json.document s = some d ∧ Json.document t = some d' ∧ d.value.tokens = d'.value.tokens

/-- The payload leaves room for the braces of the message around it. -/
def Shallow (payload : Text) : Prop :=
  ∀ d, Json.document payload = some d → d.value.depth < maxNestingDepth

theorem ControlEnvelope.Valid.payload (h : e.Valid) (payload : Text) : { e with payload }.Valid :=
  ⟨h.version, h.type, h.messageID, h.deviceID⟩

theorem decode_encodeControl (h : encodeControl e = .ok data) (hshallow : Shallow e.payload) :
    ∃ payload, decodeControl data = .ok { e with payload } ∧ SameJSON e.payload payload := by
  obtain ⟨d, hd, -, hdup, ⟨body, hobj⟩, hvalid, hsize, rfl⟩ := encodeControl_ok.mp h
  have hbody : marshalled d = .group .object (body.respell escapeHTML) := by
    rw [marshalled, hobj]
    rfl
  have hdepth : (marshalled d).depth < maxNestingDepth := by
    rw [marshalled, Json.depth_respell]
    exact hshallow d hd
  have hdup' : (marshalled d).noDuplicates = true := by
    rw [marshalled, Json.noDuplicates_respell escapeHTML_keeps]
    exact hdup
  refine ⟨(marshalled d).text, ?_, d, _, hd, document_value _, ?_⟩
  · rw [hbody] at hdepth hdup' hsize ⊢
    exact decode_spelled (e := { e with payload := _ }) escapeRune_writes (hvalid.payload _) rfl hdup' hdepth hsize
  · exact (Json.tokens_respell escapeHTML_keeps d.value).symm

-- ---------------------------------------------------------------------------
-- What the client sends
-- ---------------------------------------------------------------------------

theorem byteLength_toList (s : String) : byteLength s.toList = s.utf8ByteSize := by
  have h : (Utf8.encode s.toList).toByteArray = s.toByteArray := String.utf8Encode_toList
  rw [← String.size_toByteArray, ← h, List.size_toByteArray, byteLength]

theorem length_le_byteLength (s : Text) : s.length ≤ byteLength s ∧ byteLength s ≤ 4 * s.length := by
  induction s with
  | nil => exact ⟨Nat.le_refl _, Nat.le_refl _⟩
  | cons c s ih =>
    have hpos := c.utf8Size_pos
    have hle := c.utf8Size_le_four
    simp only [byteLength, Utf8.encode, List.flatMap_cons, List.length_append, List.length_cons,
      String.length_utf8EncodeChar] at ih ⊢
    omega

theorem quoted_length (items : List Item) : (Json.quoted items).length ≤ 6 * items.length + 2 := by
  have hspell : (Json.spell items).length ≤ 6 * items.length := by
    induction items with
    | nil => exact Nat.le_refl _
    | cons i items ih =>
      have hi : i.text.length ≤ 6 := by cases i <;> simp [Item.text]
      rw [Json.spell] at ih ⊢
      rw [List.flatMap_cons, List.length_append, List.length_cons]
      omega
  simp only [Json.quoted, List.length_cons, List.length_append, List.length_nil]
  omega

@[simp] theorem byteLength_append (s t : Text) : byteLength (s ++ t) = byteLength s + byteLength t := by
  simp only [byteLength, Utf8.encode_append, List.length_append]

theorem byteLength_cons (c : Char) (s : Text) : byteLength (c :: s) = c.utf8Size + byteLength s := by
  simp only [byteLength, Utf8.encode, List.flatMap_cons, List.length_append, String.length_utf8EncodeChar]

theorem objectText_byteLength (ms : List (Text × Text)) :
    byteLength (objectText ms) ≤ 2 + (ms.map fun m => byteLength m.1 + byteLength m.2 + 4).sum := by
  have hmark : ('{'.utf8Size = 1 ∧ '}'.utf8Size = 1) ∧ '"'.utf8Size = 1 ∧ ':'.utf8Size = 1 ∧ ','.utf8Size = 1 := by
    decide
  have hnil : byteLength [] = 0 := rfl
  have hmember : ∀ key value : Text,
      byteLength (literal key ++ ':' :: value) = byteLength key + byteLength value + 3 := by
    intro key value
    simp only [literal, byteLength_append, byteLength_cons, hmark, hnil]
    omega
  have hbody : byteLength ((ms.map fun m => literal m.1 ++ ':' :: m.2).intersperse [',']).flatten ≤
      (ms.map fun m => byteLength m.1 + byteLength m.2 + 4).sum := by
    induction ms with
    | nil => exact Nat.le_refl _
    | cons m ms ih =>
      cases ms with
      | nil =>
        simp only [List.map_cons, List.map_nil, List.intersperse_singleton, List.flatten_cons,
          List.flatten_nil, List.append_nil, List.sum_cons, List.sum_nil, hmember]
        omega
      | cons m' ms =>
        simp only [List.map_cons, List.intersperse_cons_cons, List.flatten_cons, byteLength_append,
          List.sum_cons, hmember, byteLength_cons, hmark, hnil] at ih ⊢
        omega
  have htext : byteLength (objectText ms) =
      byteLength ((ms.map fun m => literal m.1 ++ ':' :: m.2).intersperse [',']).flatten + 2 := by
    simp only [objectText, byteLength_cons, byteLength_append, hmark, hnil]
    omega
  omega

theorem toDigits_byteLength {n : Nat} (h : n < 2 ^ 32) : byteLength (Nat.toDigits 10 n) ≤ 40 := by
  have hlen : (Nat.toDigits 10 n).length ≤ 10 :=
    (Nat.length_toDigits_le_iff (by decide) (by decide)).mpr (Nat.lt_trans h (by decide))
  have := (length_le_byteLength (Nat.toDigits 10 n)).2
  omega

theorem number_byteLength {f : Field} (hf : f ∈ Field.numeric) :
    byteLength (e.value write v f).text ≤ 40 := by
  cases f with
  | version => exact toDigits_byteLength (Nat.lt_trans e.version.toNat_lt (by decide))
  | sessionID => exact toDigits_byteLength e.sessionID.toNat_lt
  | turnID => exact toDigits_byteLength e.turnID.toNat_lt
  | streamID => exact toDigits_byteLength e.streamID.toNat_lt
  | epoch => exact toDigits_byteLength e.epoch.toNat_lt
  | type | messageID | deviceID | payload => exact absurd hf (by decide)

theorem name_byteLength (f : Field) : byteLength f.name ≤ 10 := by cases f <;> decide

theorem members_byteLength {text : Field → Text} {n : Nat}
    (h : ∀ f, f ≠ .payload → byteLength (text f) ≤ n) :
    byteLength (objectText (Field.all.map fun f => (f.name, text f))) ≤
      8 * n + byteLength (text .payload) + 128 := by
  have htext := objectText_byteLength (Field.all.map fun f => (f.name, text f))
  have hname := name_byteLength
  have hmember : ∀ f, f ≠ .payload → byteLength f.name + byteLength (text f) + 4 ≤ n + 14 := by
    intro f hf
    have := h f hf
    have := hname f
    omega
  have h1 := hmember .version nofun
  have h2 := hmember .type nofun
  have h3 := hmember .messageID nofun
  have h4 := hmember .deviceID nofun
  have h5 := hmember .sessionID nofun
  have h6 := hmember .turnID nofun
  have h7 := hmember .streamID nofun
  have h8 := hmember .epoch nofun
  have h9 := hname .payload
  simp only [Field.all, List.map_cons, List.map_nil, List.sum_cons, List.sum_nil] at htext ⊢
  omega

section

variable {s : Client.Transport} {c : Client.Control} {capacity : Client.QueueCapacity}

open Client (quote quoteByte quoteByte_writes)

theorem quote_byteLength (value : String) {n : Nat} (h : value.utf8ByteSize ≤ n) :
    byteLength (quote value) ≤ 24 * n + 8 := by
  have hq := quoted_length (value.toList.map quoteByte)
  have hlen := (length_le_byteLength value.toList).1
  have hbytes := (length_le_byteLength (quote value)).2
  rw [byteLength_toList] at hlen
  rw [List.length_map] at hq
  rw [quote] at hbytes ⊢
  omega

def payloadBody (c : Client.Control) : Tree (.body .object true) :=
  match c.kind with
  | .hello =>
    Json.objectBody [(deviceTokenKey.map Item.of, .string (c.deviceToken.toList.map quoteByte))]
  | .turnStart => Json.objectBody [(sampleRateKey.map Item.of, .number (.ofNat 16000))]
  | .turnCommit | .turnCancel | .responseCancel => Json.objectBody []

theorem payloadBody_text (c : Client.Control) : (Tree.group .object (payloadBody c)).text = c.payload := by
  have hone : ∀ (key : Text) (v : Value), key.all Json.isPlain = true →
      (Json.object [(key.map Item.of, v)]).text = objectText [(key, v.text)] := by
    intro key v hkey
    exact object_literal [(key, v)] (by simpa using hkey)
  unfold payloadBody Client.Control.payload
  cases c.kind with
  | hello => exact hone _ _ rfl
  | turnStart => exact hone _ _ rfl
  | turnCommit | turnCancel | responseCancel => rfl

theorem payloadBody_depth (c : Client.Control) : (Tree.group .object (payloadBody c)).depth ≤ 1 ∧
    (Tree.group .object (payloadBody c)).noDuplicates = true := by
  unfold payloadBody
  cases c.kind <;>
    exact ⟨Json.object_depth.mpr (by simp [Tree.depth]),
      Json.object_noDuplicates.mpr ⟨by simp, by simp [Tree.noDuplicates]⟩⟩

theorem payload_byteLength (h : c.kind = .hello → c.deviceToken.utf8ByteSize ≤ 256) :
    byteLength c.payload ≤ 7000 := by
  unfold Client.Control.payload
  cases hk : c.kind with
  | hello =>
    have htext := objectText_byteLength [(deviceTokenKey, quote c.deviceToken)]
    have hquote := quote_byteLength c.deviceToken (h hk)
    have hkey : byteLength deviceTokenKey = 12 := by decide
    simp only [List.map_cons, List.map_nil, List.sum_cons, List.sum_nil] at htext
    simp only
    omega
  | turnStart | turnCommit | turnCancel | responseCancel => exact Nat.le_of_ble_eq_true rfl

theorem json_spelled (s : Client.Transport) (c : Client.Control) :
    s.json c = ((s.envelope c).spelled quoteByte (.group .object (payloadBody c))).text := by
  have htype : (Tree.string (c.kind.type.map quoteByte)).text = literal c.kind.type := by
    cases c.kind <;> rfl
  rw [spelled_text]
  simp only [Client.Transport.json, Field.all, List.map_cons, List.map_nil, ControlEnvelope.value,
    payloadBody_text, Client.Transport.envelope, htype]
  rfl

theorem json_byteLength (hid : s.deviceId.utf8ByteSize ≤ 36) (ha : s.admits c = some true) :
    byteLength (s.json c) ≤ maxControlMessageBytes := by
  have hmember : ∀ f, f ≠ .payload →
      byteLength ((s.envelope c).value quoteByte (.group .object (payloadBody c)) f).text ≤ 1544 := by
    have hdevice := quote_byteLength s.deviceId hid
    intro f hf
    cases f with
    | version | sessionID | turnID | streamID | epoch =>
      exact Nat.le_trans (number_byteLength (by decide)) (by decide)
    | type =>
      change byteLength (Json.quoted (c.kind.type.map quoteByte)) ≤ 1544
      cases c.kind <;> exact Nat.le_of_ble_eq_true rfl
    | messageID => exact quote_byteLength c.messageId (Client.admits_messageId ha).2
    | deviceID => exact Nat.le_trans hdevice (by decide)
    | payload => exact absurd rfl hf
  have hpayload : byteLength c.payload ≤ 7000 := payload_byteLength fun hk =>
    (of_decide_eq_true (Client.admits_hello hk ha)).2.1
  have htext := members_byteLength hmember
  rw [json_spelled, spelled_text]
  simp only [ControlEnvelope.value, payloadBody_text] at htext
  have hmax : maxControlMessageBytes = 65536 := rfl
  exact Nat.le_trans htext (by omega)

theorem deviceID_valid {value : List UInt8} (h : isValidDeviceId value = true) :
    ∃ uuid, parseDeviceUUID value = .ok uuid := by
  have hp := parseUuid_eq h
  exact ⟨⟨_, (parseUuid_length hp).1⟩, parseDeviceUUID_iff.mpr hp⟩

theorem type_visible (kind : Client.ControlKind) :
    1 ≤ byteLength kind.type ∧ byteLength kind.type ≤ 64 ∧ ∀ ch ∈ kind.type, isVisibleASCII ch = true := by
  have hall : kind.type.all isVisibleASCII = true := by cases kind <;> decide
  refine ⟨?_, ?_, List.all_eq_true.mp hall⟩
  · cases kind <;> decide
  · cases kind <;> decide

theorem envelope_valid (hid : isValidDeviceId (Utf8.encode s.deviceId.toList) = true)
    (hvisible : ∀ ch ∈ c.messageId.toList, isVisibleASCII ch = true) (ha : s.admits c = some true) :
    (s.envelope c).Valid := by
  obtain ⟨hpos, hmax⟩ := Client.admits_messageId ha
  refine ⟨rfl, type_visible c.kind, ⟨?_, ?_⟩, ?_⟩
  · have hne : c.messageId.toList ≠ [] := by
      intro hnil
      rw [← byteLength_toList, hnil] at hpos
      cases hpos
    obtain ⟨ch, rest, heq⟩ := List.exists_cons_of_ne_nil hne
    have ht := GoText.trimSpace_cons (s := rest) (visible_not_space (hvisible ch (heq ▸ List.mem_cons_self)))
    simp only [Client.Transport.envelope, heq, ht]
    exact List.cons_ne_nil ch _
  · rw [← byteLength_toList] at hmax
    exact hmax
  · exact deviceID_valid hid

theorem decode_json (hid : isValidDeviceId (Utf8.encode s.deviceId.toList) = true)
    (hvisible : ∀ ch ∈ c.messageId.toList, isVisibleASCII ch = true) (ha : s.admits c = some true) :
    decodeControl (Utf8.encode (s.json c)) = .ok (s.envelope c) := by
  obtain ⟨hdepth, hdup⟩ := payloadBody_depth c
  have hbytes : s.deviceId.utf8ByteSize ≤ 36 := by
    have hdashed := (isValidDeviceId_iff.mp hid).1
    rw [dashed, decide_eq_true_eq] at hdashed
    rw [← byteLength_toList]
    exact Nat.le_of_eq hdashed.1
  have hsize := json_byteLength hbytes ha
  rw [json_spelled] at hsize ⊢
  exact decode_spelled quoteByte_writes (envelope_valid hid hvisible ha) (payloadBody_text c).symm hdup
    (Nat.lt_of_le_of_lt hdepth (by decide)) hsize

theorem parseHelloDeviceToken_payload (hk : c.kind = .hello)
    (htoken : Client.isValidDeviceToken c.deviceToken = true) :
    parseHelloDeviceToken c.payload = .ok c.deviceToken.toList := by
  have hne : c.deviceToken.toList ≠ [] := by
    intro hnil
    have hmin := (of_decide_eq_true htoken).1
    rw [← byteLength_toList, hnil] at hmin
    exact absurd hmin (by decide)
  have hbody : Tree.group .object (payloadBody c) =
      Json.object [(deviceTokenKey.map Item.of, .string (c.deviceToken.toList.map quoteByte))] := by
    rw [payloadBody, hk]
    rfl
  rw [parseHelloDeviceToken, ← payloadBody_text, document_value, Option.map_some, hbody, members_object]
  simp only [List.map_cons, List.map_nil, Json.decode_map Json.of_writes, Json.decode_map quoteByte_writes]
  simp [hne]

end

/-- Both writers are read back: what `EncodeControl` makes of an envelope whose payload
leaves room for the braces around it, and every control the client sends. -/
theorem control_roundtrip :
    (∀ e data, encodeControl e = .ok data → Shallow e.payload →
      ∃ payload, decodeControl data = .ok { e with payload } ∧ SameJSON e.payload payload) ∧
    ∀ (s : Client.Transport) (c : Client.Control) (capacity : Client.QueueCapacity),
      isValidDeviceId (Utf8.encode s.deviceId.toList) = true →
      (∀ ch ∈ c.messageId.toList, isVisibleASCII ch = true) → (s.send c capacity).2.1 = true →
      decodeControl (Utf8.encode (s.json c)) = .ok (s.envelope c) ∧
        (c.kind = .hello → parseHelloDeviceToken (s.envelope c).payload = .ok c.deviceToken.toList) := by
  constructor
  · intro e data h hshallow
    exact decode_encodeControl h hshallow
  · intro s c capacity hid hvisible hsend
    have ha := Client.send_admits hsend
    refine ⟨decode_json hid hvisible ha, fun hk => ?_⟩
    exact parseHelloDeviceToken_payload hk (Client.admits_hello hk ha)

-- ---------------------------------------------------------------------------
-- The deepest payload
-- ---------------------------------------------------------------------------

/-- `n` arrays in each other. -/
def nest : Nat → Value
  | 0 => .word .null
  | n + 1 => .group .array (.last .array true () Json.tight (nest n) Json.tight)

theorem nest_text (n : Nat) : byteLength (nest n).text = 2 * n + 4 := by
  have hmark : '['.utf8Size = 1 ∧ ']'.utf8Size = 1 := by decide
  induction n with
  | zero => rfl
  | succ n ih =>
    have htext : (nest (n + 1)).text = '[' :: ((nest n).text ++ [']']) := by
      simp [nest, Tree.text, Json.Label.text, Json.Kind.opening, Json.Kind.closing, Json.tight]
    rw [htext, byteLength_cons, byteLength_append, ih, hmark.1]
    change 1 + (2 * n + 4 + 1) = 2 * (n + 1) + 4
    omega

theorem nest_depth (n : Nat) : (nest n).depth = n ∧ (nest n).noDuplicates = true := by
  induction n with
  | zero => exact ⟨rfl, rfl⟩
  | succ n ih =>
    obtain ⟨hdepth, hdup⟩ := ih
    refine ⟨congrArg (· + 1) hdepth, ?_⟩
    simpa [nest, Tree.noDuplicates, Tree.keys, Tree.entries, Json.Label.key] using hdup

theorem nest_respell (n : Nat) : (nest n).respell escapeHTML = nest n := by
  induction n with
  | zero => rfl
  | succ n ih =>
    simp only [nest, Tree.respell, ih]
    rfl

/-- An object around `n` arrays. -/
def deepPayload (n : Nat) : Value := Json.object [([Item.of 'a'], nest n)]

theorem deepPayload_depth (n : Nat) : (deepPayload n).depth = n + 1 := congrArg (· + 1) (nest_depth n).1

def deepEnvelope (n : Nat) : ControlEnvelope where
  version := 1
  type := ['h', 'e', 'l', 'l', 'o']
  messageID := ['1']
  deviceID := sampleID
  payload := (deepPayload n).text

theorem deepEnvelope_encodes {n : Nat} (h : n < maxNestingDepth) :
    encodeControl (deepEnvelope n) = .ok
      (Utf8.encode ((deepEnvelope n).spelled escapeRune (deepPayload n)).text) := by
  have hsame : marshalled ⟨Json.tight, deepPayload n, Json.tight⟩ = deepPayload n := by
    simp only [marshalled, deepPayload, Json.object, Json.objectBody, Json.bodyOf, Tree.respell, nest_respell]
    rfl
  have hmember : ∀ f, f ≠ .payload →
      byteLength ((deepEnvelope n).value escapeRune (deepPayload n) f).text ≤ 40 := by
    intro f hf
    cases f with
    | type | messageID | deviceID => exact Nat.le_of_ble_eq_true rfl
    | version | sessionID | turnID | streamID | epoch => exact number_byteLength (by decide)
    | payload => exact absurd rfl hf
  have hpayload : byteLength (deepPayload n).text = 2 * n + 10 := by
    rw [deepPayload, Json.object_text]
    have hmark : '{'.utf8Size = 1 ∧ '}'.utf8Size = 1 ∧ ':'.utf8Size = 1 := by decide
    have hkey : byteLength (Json.quoted [Item.of 'a']) = 3 := by decide
    have hnil : byteLength [] = 0 := rfl
    simp only [List.map_cons, List.map_nil, List.intersperse_singleton, List.flatten_cons, List.flatten_nil,
      List.append_nil, Json.memberText, byteLength_cons, byteLength_append, nest_text, hmark, hkey, hnil]
    omega
  have htext := members_byteLength hmember
  have hid : isValidDeviceId (Utf8.encode sampleID) = true := by decide +kernel
  refine encodeControl_ok.mpr ⟨_, document_value _, ?_, ?_, ⟨_, rfl⟩, ?_, ?_, ?_⟩
  · exact Nat.le_trans (Nat.le_of_eq (deepPayload_depth n)) h
  · refine Json.object_noDuplicates.mpr ⟨by simp, ?_⟩
    simpa using (nest_depth n).2
  · exact ⟨rfl, type_visible .hello, (by decide : trimSpace ['1'] ≠ [] ∧ byteLength ['1'] ≤ 64),
      deviceID_valid hid⟩
  · rw [Json.tight] at hsame
    rw [hsame, spelled_text]
    have hmax : maxControlMessageBytes = 65536 := rfl
    have hlimit : maxNestingDepth = 10000 := rfl
    simp only [ControlEnvelope.value, hpayload] at htext
    exact Nat.le_trans htext (by omega)
  · rw [Json.tight] at hsame
    rw [hsame]

def sampleClient : Client.Transport := { deviceId := String.ofList sampleID, uuid := [] }

def sampleHello : Client.Control where
  kind := .hello
  messageId := "1"
  ids := {}
  deviceToken := String.ofList (List.replicate 30 'a' ++ ['"', '\\'])

theorem control_roundtrip_sample :
    (∃ data payload, encodeControl (deepEnvelope 0) = .ok data ∧
      decodeControl data = .ok { deepEnvelope 0 with payload }) ∧
    decodeControl (Utf8.encode (sampleClient.json sampleHello)) = .ok (sampleClient.envelope sampleHello) := by
  have hencodes := deepEnvelope_encodes (by decide : 0 < maxNestingDepth)
  have hshallow : Shallow (deepEnvelope 0).payload := by
    intro d hd
    have hdoc := document_value (deepPayload 0)
    rw [show (deepEnvelope 0).payload = (deepPayload 0).text from rfl, hdoc, Option.some.injEq] at hd
    rw [← hd]
    decide
  obtain ⟨payload, hdecode, -⟩ := control_roundtrip.1 _ _ hencodes hshallow
  refine ⟨⟨_, payload, hencodes, hdecode⟩, ?_⟩
  exact (control_roundtrip.2 sampleClient sampleHello .available (by decide +kernel)
    (List.all_eq_true.mp (by decide +kernel)) (by decide +kernel)).1

/-- A payload of exactly the depth that `encoding/json` reads is encoded, and the message
around it is not read. -/
theorem deep_payload_refused : ∃ e data d, encodeControl e = .ok data ∧
    Json.document e.payload = some d ∧ d.value.depth ≤ maxNestingDepth ∧
    ∀ e', decodeControl data ≠ .ok e' := by
  have hdepth := deepPayload_depth 9999
  refine ⟨deepEnvelope 9999, _, _, deepEnvelope_encodes (by decide), document_value _,
    Nat.le_of_eq hdepth, fun e' h => ?_⟩
  obtain ⟨d, hd⟩ := decodeControl_message h
  have htext := hd.decode
  rw [Utf8.decode_encode, Option.some.injEq] at htext
  have hdoc := Json.document_text d
  rw [← htext, document_value, Option.some.injEq] at hdoc
  have hshallow := (hd.decodes.mp h).shallow
  rw [← hdoc] at hshallow
  have hpayload : (deepPayload 9999).depth ≤ 9999 := spelled_depth.mp hshallow
  omega

end BoomPI.Wire
