import BoomPI.Client.Parse
import BoomPI.Server.Device.Downlink
import BoomPI.Server.Device.Encode

/-!
# The messages of a response, end to end

What the forwarder sends for a response, as bytes, and what the client makes of
these bytes. The server forwards the provider's strings as they come, but for bytes
that are no UTF-8; the client bounds them and refuses an escaped NUL.
-/

namespace BoomPI.Dialogue

open Json (Text Value Tree Item)
open Wire (ControlEnvelope Field byteLength appendString escapeRune escapeHTML maxControlMessageBytes
  responseIdKey textKey sampleRateKey codeKey messageKey)
open Protocol (Body Reply Outbound)
open Device (Delta escape quoteString encodeReply replyEnvelope bodyType bodyPayload messageName)

variable {r : Reply} {body : Body} {s : Text}

-- ---------------------------------------------------------------------------
-- Strings
-- ---------------------------------------------------------------------------

theorem escapeHTML_escapeRune (c : Char) : escapeHTML (escapeRune c) = escapeRune c := by
  unfold escapeRune
  split
  · rename_i h
    simp [escapeHTML, h.2]
  · repeat' split
    all_goals rfl

theorem ofUnit_byteLength (u : Nat) : byteLength (Item.ofUnit u).text = 6 := by
  have hdigit : ∀ n : Fin 16, (Json.lowerDigits.getD n '0').utf8Size = 1 := by decide
  have hlower : ∀ n, (Json.Hex.lower n).val.utf8Size = 1 := fun n => hdigit _
  simp only [Item.ofUnit, Item.text, Wire.byteLength_cons, hlower]
  rfl

theorem escapeRune_byteLength (c : Char) : byteLength (escapeRune c).text ≤ 6 * c.utf8Size := by
  have hpos := c.utf8Size_pos
  have hescape : ∀ e : Json.Escape, byteLength (Item.escape e).text = 2 := by
    intro e
    cases e <;> rfl
  unfold escapeRune
  split
  · simp only [Item.text, Wire.byteLength_cons]
    change c.utf8Size + 0 ≤ _
    omega
  repeat' split
  all_goals first
    | (rw [hescape]; omega)
    | (rw [ofUnit_byteLength]; omega)

theorem isNul_value {i : Item} (h : Client.isNul i = true) : i.value.toNat = 0 := by
  have htext : i.text = ['\\', 'u', '0', '0', '0', '0'] := of_decide_eq_true h
  cases i with
  | plain c h => cases htext
  | escape e => exact absurd (congrArg List.length htext) (by simp [Item.text])
  | unicode a b c d =>
    have hzero : ∀ h : Json.Hex, h.val = '0' → h.value = 0 := by
      rintro ⟨_, hx⟩ rfl
      rfl
    simp only [Item.text, List.cons.injEq, and_true, true_and] at htext
    obtain ⟨ha, hb, hc, hd⟩ := htext
    rw [Item.value, Json.codeUnit, hzero a ha, hzero b hb, hzero c hc, hzero d hd]
    rfl

theorem isNul_escapeRune (c : Char) : Client.isNul (escapeRune c) = decide (c.toNat = 0) := by
  by_cases hc : c.toNat = 0
  · have hnul : c = Char.ofNat 0 := Char.toNat_inj.mp hc
    subst hnul
    decide
  · rw [decide_eq_false hc]
    by_contra hnul
    have := isNul_value ((Bool.not_eq_false _).mp hnul)
    rw [(Wire.escapeRune_writes c).2] at this
    exact hc this

/-- The text has no U+0000 in it. -/
def nulFree (s : Text) : Bool := s.all fun c => c.toNat ≠ 0

/-- The character a rune is read as. -/
def runeChar (rune : Option Char) : Char := rune.getD '\uFFFD'

theorem escape_writes (rune : Option Char) : (escape rune).Writes (runeChar rune) := by
  cases rune with
  | none => exact Json.ofUnit_writes (c := '\uFFFD') (by decide)
  | some c => exact Wire.escapeRune_writes c

theorem escapeHTML_escape (rune : Option Char) : escapeHTML (escape rune) = escape rune := by
  cases rune with
  | none => rfl
  | some c => exact escapeHTML_escapeRune c

theorem isNul_escape (rune : Option Char) : Client.isNul (escape rune) = decide ((runeChar rune).toNat = 0) := by
  cases rune with
  | none => decide
  | some c => exact isNul_escapeRune c

theorem escape_byteLength (rune : Option Char) : byteLength (escape rune).text ≤ 6 * (runeChar rune).utf8Size := by
  cases rune with
  | none => decide
  | some c => exact escapeRune_byteLength c

theorem spell_byteLength (runes : List (Option Char)) :
    byteLength (Json.spell (runes.map escape)) ≤ 6 * byteLength (runes.map runeChar) := by
  induction runes with
  | nil => exact Nat.le_refl _
  | cons rune runes ih =>
    have := escape_byteLength rune
    rw [List.map_cons, List.map_cons, Json.spell, List.flatMap_cons, ← Json.spell, Wire.byteLength_append,
      Wire.byteLength_cons]
    omega

theorem quoted_byteLength (runes : List (Option Char)) :
    byteLength (Json.quoted (runes.map escape)) ≤ 6 * byteLength (runes.map runeChar) + 2 := by
  have := spell_byteLength runes
  have hquote : '"'.utf8Size = 1 := by decide
  simp only [Json.quoted, Wire.byteLength_cons, Wire.byteLength_append, hquote]
  change 1 + (_ + (1 + 0)) ≤ _
  omega

theorem any_isNul (runes : List (Option Char)) :
    (runes.map escape).any Client.isNul = ! nulFree (runes.map runeChar) := by
  rw [nulFree, List.any_map, List.all_map]
  induction runes with
  | nil => rfl
  | cons rune runes ih =>
    rw [List.any_cons, List.all_cons, ih, Function.comp, Function.comp, isNul_escape]
    by_cases hc : (runeChar rune).toNat = 0 <;> simp [hc]

theorem map_escapeRune (s : Text) : s.map escapeRune = (s.map some).map escape ∧ (s.map some).map runeChar = s := by
  rw [List.map_map, List.map_map]
  exact ⟨rfl, List.map_id s⟩

theorem toList_text (s : GoString) : s.text.toList = (Utf8.runes s.bytes).map runeChar := String.toList_ofList

theorem appendString_byteLength (s : Text) : byteLength (appendString s) ≤ 6 * byteLength s + 2 := by
  obtain ⟨hescape, hread⟩ := map_escapeRune s
  have := quoted_byteLength (s.map some)
  rwa [← hescape, hread] at this

-- ---------------------------------------------------------------------------
-- Payloads
-- ---------------------------------------------------------------------------

def spoken : Body → Bool
  | .responseStart _ | .textDelta .. | .responseDone _ | .error .. => true
  | .audioStart _ sampleRateHz => sampleRateHz = Device.outputSampleRateHz
  | _ => false

def stringsOf : Body → List GoString
  | .responseStart responseID | .responseDone responseID | .audioStart responseID _ => [responseID]
  | .textDelta responseID text => [responseID, text]
  | .error code message _ => [code, message]
  | _ => []

def quotedValue (s : GoString) : Value := .string ((Utf8.runes s.bytes).map escape)

def payloadMembers : Body → List (Text × Value)
  | .responseStart responseID | .responseDone responseID => [(responseIdKey, quotedValue responseID)]
  | .textDelta responseID text => [(responseIdKey, quotedValue responseID), (textKey, quotedValue text)]
  | .audioStart responseID sampleRateHz =>
    [(responseIdKey, quotedValue responseID), (sampleRateKey, .number (.ofNat sampleRateHz.toNat))]
  | .error code message _ => [(codeKey, quotedValue code), (messageKey, quotedValue message)]
  | _ => []

def payloadValue (body : Body) : Value :=
  Json.object ((payloadMembers body).map fun (key, value) => (key.map Item.of, value))

theorem payload_text (h : spoken body = true) : (payloadValue body).text = bodyPayload body := by
  have hplain : ∀ m ∈ payloadMembers body, m.1.all Json.isPlain = true := by
    intro m hm
    cases body with
    | responseStart | responseDone =>
      simp only [payloadMembers, List.mem_singleton] at hm
      subst hm
      rfl
    | textDelta | audioStart | error =>
      simp only [payloadMembers, List.mem_cons, List.not_mem_nil, or_false] at hm
      rcases hm with rfl | rfl <;> rfl
    | helloAck | cancelled => cases h
  rw [payloadValue, Wire.object_literal _ hplain]
  cases body with
  | responseStart | responseDone | textDelta | error => rfl
  | audioStart responseID sampleRateHz =>
    have hrate : sampleRateHz = 24000 := of_decide_eq_true h
    subst hrate
    rfl
  | helloAck | cancelled => cases h

theorem payloadMembers_scalar (body : Body) : ∀ m ∈ payloadMembers body,
    (∃ s, m.2 = quotedValue s) ∨ ∃ n, m.2 = .number (.ofNat n) := by
  intro m hm
  cases body with
  | responseStart | responseDone =>
    rw [List.mem_singleton.mp hm]
    exact .inl ⟨_, rfl⟩
  | textDelta | error =>
    rcases List.mem_cons.mp hm with rfl | hm
    · exact .inl ⟨_, rfl⟩
    · rw [List.mem_singleton.mp hm]
      exact .inl ⟨_, rfl⟩
  | audioStart =>
    rcases List.mem_cons.mp hm with rfl | hm
    · exact .inl ⟨_, rfl⟩
    · rw [List.mem_singleton.mp hm]
      exact .inr ⟨_, rfl⟩
  | helloAck | cancelled => cases hm

theorem payload_respell (body : Body) : (payloadValue body).respell escapeHTML = payloadValue body := by
  have hquoted : ∀ s : GoString, (quotedValue s).respell escapeHTML = quotedValue s := by
    intro s
    simp only [quotedValue, Tree.respell, List.map_map]
    exact congrArg Tree.string (List.map_congr_left fun rune _ => escapeHTML_escape rune)
  have hid : responseIdKey.map (escapeHTML ∘ Item.of) = responseIdKey.map Item.of := rfl
  have htext : textKey.map (escapeHTML ∘ Item.of) = textKey.map Item.of := rfl
  have hrate : sampleRateKey.map (escapeHTML ∘ Item.of) = sampleRateKey.map Item.of := rfl
  have hcode : codeKey.map (escapeHTML ∘ Item.of) = codeKey.map Item.of := rfl
  have hmessage : messageKey.map (escapeHTML ∘ Item.of) = messageKey.map Item.of := rfl
  cases body <;>
    simp [payloadValue, payloadMembers, Json.object, Json.objectBody, Json.bodyOf, Tree.respell,
      Json.Label.respell, Json.Key.of, hquoted, hid, htext, hrate, hcode, hmessage]

theorem payload_depth (body : Body) : (payloadValue body).depth ≤ 1 ∧ (payloadValue body).noDuplicates = true := by
  have hid : Json.decode (responseIdKey.map Item.of) = responseIdKey := Json.decode_map Json.of_writes _
  have htext : Json.decode (textKey.map Item.of) = textKey := Json.decode_map Json.of_writes _
  have hrate : Json.decode (sampleRateKey.map Item.of) = sampleRateKey := Json.decode_map Json.of_writes _
  have hcode : Json.decode (codeKey.map Item.of) = codeKey := Json.decode_map Json.of_writes _
  have hmessage : Json.decode (messageKey.map Item.of) = messageKey := Json.decode_map Json.of_writes _
  constructor
  · refine Json.object_depth.mpr ?_
    cases body <;> simp [payloadMembers, quotedValue, Tree.depth]
  · refine Json.object_noDuplicates.mpr ?_
    cases body <;> simp [payloadMembers, quotedValue, Tree.noDuplicates, hid, htext, hrate, hcode, hmessage]
    all_goals decide

-- ---------------------------------------------------------------------------
-- Encoded replies
-- ---------------------------------------------------------------------------

/-- The bounds of the protocol on the strings of a response. -/
def bounded : Body → Bool
  | .responseStart responseID | .responseDone responseID | .audioStart responseID _ =>
    Client.Transport.within responseID.text 1 128
  | .textDelta responseID text =>
    Client.Transport.within responseID.text 1 128 && Client.Transport.within text.text 1 4096
  | .error code message _ => Client.Transport.within code 1 64 && Client.Transport.within message 1 512
  | _ => true

theorem within_byteLength {value : String} {m n : Nat} (h : Client.Transport.within value m n = true) :
    m ≤ byteLength value.toList ∧ byteLength value.toList ≤ n := by
  rw [Wire.byteLength_toList]
  exact of_decide_eq_true h

theorem quotedValue_byteLength {value : GoString} {m n : Nat} (h : Client.Transport.within value.text m n = true) :
    byteLength (quoteString value) ≤ 6 * n + 2 := by
  have hbytes := quoted_byteLength (Utf8.runes value.bytes)
  have hle := (within_byteLength h).2
  rw [toList_text] at hle
  rw [quoteString]
  omega

theorem payload_byteLength (hs : spoken body = true) (hb : bounded body = true) :
    byteLength (bodyPayload body) ≤ 25500 := by
  have hid : byteLength responseIdKey = 11 := by decide
  have htext : byteLength textKey = 4 := by decide
  have hrate : byteLength sampleRateKey = 14 := by decide
  have hcode : byteLength codeKey = 4 := by decide
  have hmessage : byteLength messageKey = 7 := by decide
  have hone : ∀ responseID : GoString, Client.Transport.within responseID.text 1 128 = true →
      byteLength (quoteString responseID) ≤ 770 := by
    intro responseID h
    exact quotedValue_byteLength h
  cases body with
  | responseStart responseID | responseDone responseID =>
    have hobject := Wire.objectText_byteLength [(responseIdKey, quoteString responseID)]
    have := hone responseID hb
    simp only [List.map_cons, List.map_nil, List.sum_cons, List.sum_nil] at hobject
    exact Nat.le_trans hobject (by omega)
  | textDelta responseID text =>
    rw [bounded, Bool.and_eq_true] at hb
    have hobject := Wire.objectText_byteLength [(responseIdKey, quoteString responseID), (textKey, quoteString text)]
    have := hone responseID hb.1
    have htext' : byteLength (quoteString text) ≤ 6 * 4096 + 2 := quotedValue_byteLength hb.2
    simp only [List.map_cons, List.map_nil, List.sum_cons, List.sum_nil] at hobject
    exact Nat.le_trans hobject (by omega)
  | audioStart responseID sampleRateHz =>
    have hrate' : sampleRateHz = 24000 := of_decide_eq_true hs
    subst hrate'
    have hobject := Wire.objectText_byteLength [(responseIdKey, quoteString responseID),
      (sampleRateKey, Nat.toDigits 10 24000)]
    have := hone responseID hb
    have hdigits := Wire.toDigits_byteLength (by decide : 24000 < 2 ^ 32)
    simp only [List.map_cons, List.map_nil, List.sum_cons, List.sum_nil] at hobject
    exact Nat.le_trans hobject (by omega)
  | error code message path =>
    rw [bounded, Bool.and_eq_true] at hb
    have hobject := Wire.objectText_byteLength [(codeKey, quoteString code), (messageKey, quoteString message)]
    have hcode' : byteLength (quoteString code) ≤ 6 * 64 + 2 :=
      quotedValue_byteLength (by rw [GoString.text_ofString]; exact hb.1)
    have hmessage' : byteLength (quoteString message) ≤ 6 * 512 + 2 :=
      quotedValue_byteLength (by rw [GoString.text_ofString]; exact hb.2)
    simp only [List.map_cons, List.map_nil, List.sum_cons, List.sum_nil] at hobject
    exact Nat.le_trans hobject (by omega)
  | helloAck | cancelled => cases hs

theorem ascii_byteLength (h : ∀ c ∈ s, c.toNat < 128) : byteLength s = s.length := by
  induction s with
  | nil => rfl
  | cons c s ih =>
    rw [List.forall_mem_cons] at h
    have hsize : c.utf8Size = 1 := by
      have hle : c.val ≤ 0x7f := UInt32.le_iff_toNat_le.mpr (Nat.le_of_lt_succ h.1)
      simp [Char.utf8Size, hle]
    rw [Wire.byteLength_cons, ih h.2, hsize, List.length_cons, Nat.add_comm]

theorem messageName_visible (n : Nat) : ∀ c ∈ messageName n, Wire.isVisibleASCII c = true := by
  intro c hc
  rcases List.mem_append.mp hc with hc | hc
  · have hname : ['s', 'e', 'r', 'v', 'e', 'r', '-'].all Wire.isVisibleASCII = true := by decide
    exact List.all_eq_true.mp hname c hc
  · exact Wire.digit_visible (List.all_eq_true.mp (Json.toDigits_digits _) c hc)

theorem visible_ascii {c : Char} (h : Wire.isVisibleASCII c = true) : c.toNat < 128 ∧ c.toNat ≠ 0 := by
  simp only [Wire.isVisibleASCII, Bool.and_eq_true, decide_eq_true_eq] at h
  omega

theorem messageName_byteLength (n : Nat) : 1 ≤ byteLength (messageName n) ∧ byteLength (messageName n) ≤ 64 := by
  have hdigits : (Nat.toDigits 10 (n % 2 ^ 64)).length ≤ 20 :=
    (Nat.length_toDigits_le_iff (by decide) (by decide)).mpr
      (Nat.lt_trans (Nat.mod_lt n (by decide)) (by decide))
  have hlen : (messageName n).length = 7 + (Nat.toDigits 10 (n % 2 ^ 64)).length := by
    rw [messageName, List.length_append]
    rfl
  rw [ascii_byteLength fun c hc => (visible_ascii (messageName_visible n c hc)).1]
  omega

theorem bodyType_visible (body : Body) : (1 ≤ byteLength (bodyType body) ∧ byteLength (bodyType body) ≤ 20) ∧
    ∀ c ∈ bodyType body, Wire.isVisibleASCII c = true := by
  have hall : (bodyType body).all Wire.isVisibleASCII = true := by cases body <;> rfl
  refine ⟨?_, List.all_eq_true.mp hall⟩
  cases body <;> simp only [bodyType] <;> decide

theorem replyEnvelope_valid (hid : Wire.isValidDeviceId (Utf8.encode r.deviceID.toList) = true) :
    (replyEnvelope r).Valid := by
  obtain ⟨⟨hmin, hmax⟩, hvisible⟩ := bodyType_visible r.body
  refine ⟨rfl, ⟨hmin, Nat.le_trans hmax (by decide), hvisible⟩, ⟨?_, (messageName_byteLength r.messageID).2⟩,
    Wire.deviceID_valid hid⟩
  have ht := GoText.trimSpace_cons (c := 's')
    (s := ['e', 'r', 'v', 'e', 'r', '-'] ++ Nat.toDigits 10 (r.messageID % 2 ^ 64)) rfl
  exact fun hnil => List.cons_ne_nil _ _ (ht.symm.trans hnil)

def replyValue (r : Reply) : Value := (replyEnvelope r).spelled escapeRune (payloadValue r.body)

theorem payload_object (body : Body) : ∃ inside, payloadValue body = .group .object inside := ⟨_, rfl⟩

theorem deviceID_byteLength (hid : Wire.isValidDeviceId (Utf8.encode s) = true) : byteLength s = 36 := by
  have hdashed := (Wire.isValidDeviceId_iff.mp hid).1
  rw [Wire.dashed, decide_eq_true_eq] at hdashed
  exact hdashed.1

theorem reply_byteLength (hid : Wire.isValidDeviceId (Utf8.encode r.deviceID.toList) = true)
    (hs : spoken r.body = true) (hb : bounded r.body = true) :
    byteLength (replyValue r).text ≤ maxControlMessageBytes := by
  have hstring : ∀ s : Text, byteLength s ≤ 64 → byteLength (Tree.string (s.map escapeRune)).text ≤ 386 := by
    intro s h
    have := appendString_byteLength s
    change byteLength (appendString s) ≤ 386
    omega
  have hmember : ∀ f, f ≠ .payload →
      byteLength ((replyEnvelope r).value escapeRune (payloadValue r.body) f).text ≤ 386 := by
    intro f hf
    cases f with
    | version | sessionID | turnID | streamID | epoch =>
      exact Nat.le_trans (Wire.number_byteLength (by decide)) (by decide)
    | type => exact hstring _ (Nat.le_trans (bodyType_visible r.body).1.2 (by decide))
    | messageID => exact hstring _ (messageName_byteLength r.messageID).2
    | deviceID => exact hstring _ (Nat.le_trans (Nat.le_of_eq (deviceID_byteLength hid)) (by decide))
    | payload => exact absurd rfl hf
  have htext := Wire.members_byteLength hmember
  have hpayload := payload_byteLength hs hb
  simp only [ControlEnvelope.value, payload_text hs] at htext
  rw [replyValue, Wire.spelled_text]
  have hmax : maxControlMessageBytes = 65536 := rfl
  simp only [ControlEnvelope.value]
  exact Nat.le_trans htext (by omega)

theorem encodeReply_ok (hid : Wire.isValidDeviceId (Utf8.encode r.deviceID.toList) = true)
    (hs : spoken r.body = true) {data : List UInt8} : encodeReply r = .ok data ↔
      byteLength (replyValue r).text ≤ maxControlMessageBytes ∧ data = Utf8.encode (replyValue r).text := by
  have hdoc : Json.document (replyEnvelope r).payload = some ⟨⟨[], rfl⟩, payloadValue r.body, ⟨[], rfl⟩⟩ := by
    change Json.document (bodyPayload r.body) = _
    rw [← payload_text hs]
    exact Wire.document_value _
  have hsame : Wire.marshalled ⟨⟨[], rfl⟩, payloadValue r.body, ⟨[], rfl⟩⟩ = payloadValue r.body :=
    payload_respell r.body
  rw [encodeReply, Wire.mapError_ok, Wire.encodeControl_ok]
  constructor
  · rintro ⟨d, hd, -, -, -, -, hsize, rfl⟩
    rw [hdoc, Option.some.injEq] at hd
    subst hd
    rw [hsame] at hsize ⊢
    exact ⟨hsize, rfl⟩
  · rintro ⟨hsize, rfl⟩
    obtain ⟨hdepth, hdup⟩ := payload_depth r.body
    refine ⟨_, hdoc, Nat.le_trans hdepth (by decide), hdup, payload_object r.body, replyEnvelope_valid hid, ?_, ?_⟩
    · rw [hsame]
      exact hsize
    · rw [hsame]
      rfl

-- ---------------------------------------------------------------------------
-- What the client reads
-- ---------------------------------------------------------------------------

open Client (parsed integral strings)

theorem digitsFrom_nonzero {bytes : List UInt8} : ∀ {index nonzero}, Wire.digitsFrom index nonzero bytes = true →
    ∀ n, bytes[n]? = some 0 → Wire.separator (index + n) = true := by
  induction bytes with
  | nil =>
    intro index nonzero _ n hn
    simp at hn
  | cons b bytes ih =>
    intro index nonzero h n hn
    rw [Wire.digitsFrom] at h
    split at h
    · rename_i hsep
      cases n with
      | zero => exact hsep
      | succ n =>
        have := ih h n (by simpa using hn)
        rwa [Nat.add_right_comm] at this
    · split at h
      · cases h
      · rename_i hhex
        cases n with
        | zero =>
          simp only [List.getElem?_cons_zero, Option.some.injEq] at hn
          subst hn
          exact absurd (by decide) hhex
        | succ n =>
          have := ih h n (by simpa using hn)
          rwa [Nat.add_right_comm] at this

theorem deviceID_nulFree (hid : Wire.isValidDeviceId (Utf8.encode s) = true) : nulFree s = true := by
  refine List.all_eq_true.mpr fun c hc => decide_eq_true fun hzero => ?_
  have hnul : c = Char.ofNat 0 := Char.toNat_inj.mp hzero
  subst hnul
  have hmem : (0 : UInt8) ∈ Utf8.encode s := List.mem_flatMap.mpr ⟨_, hc, by decide⟩
  obtain ⟨n, hn⟩ := List.mem_iff_getElem?.mp hmem
  rw [Wire.isValidDeviceId, Bool.and_eq_true, Wire.dashed, decide_eq_true_eq] at hid
  obtain ⟨⟨-, h8, h13, h18, h23⟩, hdigits⟩ := hid
  have hsep := digitsFrom_nonzero hdigits n hn
  have hget : (Utf8.encode s).getD n 0 = 0 := by
    rw [List.getD_eq_getElem?_getD, hn]
    rfl
  rw [Nat.zero_add, Wire.separator, decide_eq_true_eq] at hsep
  have hdash : (0 : UInt8) ≠ Wire.dash := by decide
  rcases hsep with rfl | rfl | rfl | rfl
  · exact hdash (hget.symm.trans h8)
  · exact hdash (hget.symm.trans h13)
  · exact hdash (hget.symm.trans h18)
  · exact hdash (hget.symm.trans h23)

theorem visible_nulFree (h : ∀ c ∈ s, Wire.isVisibleASCII c = true) : nulFree s = true :=
  List.all_eq_true.mpr fun c hc => decide_eq_true (visible_ascii (h c hc)).2

theorem plain_not_nul {key : Text} (h : key.all Json.isPlain = true) : (key.map Item.of).any Client.isNul = false := by
  rw [List.any_map, List.any_eq_false]
  intro c hc hnul
  have hplain := List.all_eq_true.mp h c hc
  rw [Function.comp, Item.of, dif_pos hplain] at hnul
  exact absurd (congrArg List.length (of_decide_eq_true hnul)) (by simp [Item.text])

theorem hasNul_reply (hid : Wire.isValidDeviceId (Utf8.encode r.deviceID.toList) = true) :
    Client.hasNul (replyValue r) = ! (stringsOf r.body).all fun s => nulFree s.text.toList := by
  have hrunes : ∀ runes : List (Option Char), Client.hasNul (Tree.string (runes.map escape)) = ! nulFree (runes.map runeChar) := by
    intro runes
    rw [← any_isNul]
    simp [Client.hasNul, strings]
  have hstring : ∀ s : Text, Client.hasNul (Tree.string (s.map escapeRune)) = ! nulFree s := by
    intro s
    obtain ⟨hescape, hread⟩ := map_escapeRune s
    rw [hescape, hrunes, hread]
  have hnumber : ∀ n, Client.hasNul (Tree.number n) = false := fun n => rfl
  have hmembers : Client.hasNul (replyValue r) = Client.hasNul (payloadValue r.body) := by
    rw [replyValue, ControlEnvelope.spelled, Client.hasNul_object, List.any_map]
    have htype := visible_nulFree (bodyType_visible r.body).2
    have hmessage := visible_nulFree (messageName_visible r.messageID)
    have hdevice := deviceID_nulFree hid
    simp only [Function.comp_def, plain_not_nul (Wire.name_plain _), Bool.false_or, Field.all, List.any_cons,
      List.any_nil, ControlEnvelope.value, hstring, hnumber, Bool.or_false]
    change (! nulFree (bodyType r.body) || (! nulFree (messageName r.messageID) ||
      (! nulFree r.deviceID.toList || _))) = _
    rw [htype, hmessage, hdevice]
    rfl
  have hquoted : ∀ s : GoString, Client.hasNul (quotedValue s) = ! nulFree s.text.toList := by
    intro s
    rw [quotedValue, hrunes, toList_text]
  have hid' : responseIdKey.all Json.isPlain = true := rfl
  have htext : textKey.all Json.isPlain = true := rfl
  have hrate : sampleRateKey.all Json.isPlain = true := rfl
  have hcode : codeKey.all Json.isPlain = true := rfl
  have hmessage : messageKey.all Json.isPlain = true := rfl
  rw [hmembers, payloadValue, Client.hasNul_object, List.any_map]
  cases r.body <;>
    simp only [payloadMembers, stringsOf, List.any_cons, List.any_nil, List.all_cons, List.all_nil,
      Function.comp_def, plain_not_nul hid', plain_not_nul htext, plain_not_nul hrate,
      plain_not_nul hcode, plain_not_nul hmessage, hquoted, hnumber,
      Bool.or_false, Bool.false_or, Bool.and_true, Bool.not_and, Bool.not_true]

theorem reply_surrogates (r : Reply) : ∀ items ∈ strings (replyValue r), ∀ i ∈ items, i.surrogate = none := by
  have hkey : ∀ s : Text, ∀ i ∈ s.map Item.of, i.surrogate = none := by
    intro s i hi
    obtain ⟨c, -, rfl⟩ := List.mem_map.mp hi
    exact (Json.of_writes c).1
  have hrunes : ∀ runes : List (Option Char), ∀ i ∈ runes.map escape, i.surrogate = none := by
    intro runes i hi
    obtain ⟨rune, -, rfl⟩ := List.mem_map.mp hi
    exact (escape_writes rune).1
  have hpayload : ∀ items ∈ strings (payloadValue r.body), ∀ i ∈ items, i.surrogate = none := by
    intro items hitems
    rw [payloadValue, Client.strings_object, List.mem_flatMap] at hitems
    obtain ⟨m, hm, hitems⟩ := hitems
    obtain ⟨⟨key, v⟩, hmem, rfl⟩ := List.mem_map.mp hm
    rcases List.mem_cons.mp hitems with rfl | hitems
    · exact hkey key
    · rcases payloadMembers_scalar _ _ hmem with ⟨s, rfl⟩ | ⟨n, rfl⟩
      · rw [List.mem_singleton.mp hitems]
        exact hrunes _
      · cases hitems
  intro items hitems
  rw [replyValue, ControlEnvelope.spelled, Client.strings_object, List.mem_flatMap] at hitems
  obtain ⟨m, hm, hitems⟩ := hitems
  obtain ⟨f, -, rfl⟩ := List.mem_map.mp hm
  rcases List.mem_cons.mp hitems with rfl | hitems
  · exact hkey f.name
  · cases f with
    | version | sessionID | turnID | streamID | epoch => cases hitems
    | type | messageID | deviceID =>
      rw [List.mem_singleton.mp hitems, (map_escapeRune _).1]
      exact hrunes _
    | payload => exact hpayload items hitems

theorem reply_integral (r : Reply) : integral (replyValue r) = true := by
  have hnumber : ∀ n : Nat, integral (Tree.number (.ofNat n)) = true := Json.toDigits_digits
  have hpayload : integral (payloadValue r.body) = true := by
    rw [payloadValue, Client.integral_object, List.all_map, List.all_eq_true]
    rintro ⟨key, v⟩ hm
    rcases payloadMembers_scalar _ _ hm with ⟨s, rfl⟩ | ⟨n, rfl⟩
    · rfl
    · exact hnumber n
  rw [replyValue, ControlEnvelope.spelled, Client.integral_object, List.all_map, List.all_eq_true]
  intro f _
  cases f with
  | version | sessionID | turnID | streamID | epoch => exact hnumber _
  | type | messageID | deviceID => rfl
  | payload => exact hpayload

variable {cjson : Text → Option Value} {t : Client.Transport}

theorem parse_reply (hc : Client.ReadsJSON cjson) (hid : Wire.isValidDeviceId (Utf8.encode r.deviceID.toList) = true)
    (hsize : byteLength (replyValue r).text ≤ maxControlMessageBytes)
    (hnul : (stringsOf r.body).all (fun s => nulFree s.text.toList) = true) :
    Client.parseEnvelope cjson (replyValue r).text = .ok (parsed (replyEnvelope r) (payloadValue r.body)) := by
  have hnul' : Client.hasNul (replyValue r) = false := by
    rw [hasNul_reply hid, hnul]
    rfl
  have hdepth : (replyValue r).depth ≤ 2 := Wire.spelled_depth.mpr (payload_depth r.body).1
  have htext : (⟨Json.tight, replyValue r, Json.tight⟩ : Json.Document).text = (replyValue r).text := by
    simp [Json.Document.text, Json.tight]
  have hread : cjson (replyValue r).text = some (replyValue r) := by
    rw [← htext]
    exact hc.reads _ (Nat.le_trans hdepth (by decide)) hnul' (reply_surrogates r)
  obtain ⟨⟨hmin, hmax⟩, hvisible⟩ := bodyType_visible r.body
  have hdevice : byteLength r.deviceID.toList = 36 := deviceID_byteLength hid
  refine Client.parseEnvelope_spelled hread Wire.escapeRune_writes (payload_object r.body) ?_ hnul'
    (reply_integral r) hsize
  refine ⟨rfl, ⟨⟨hmin, Nat.le_trans hmax (by decide)⟩, List.all_eq_true.mpr hvisible⟩,
    messageName_byteLength r.messageID, ?_⟩
  change 1 ≤ byteLength r.deviceID.toList ∧ byteLength r.deviceID.toList ≤ 64
  omega

theorem parse_nul (hid : Wire.isValidDeviceId (Utf8.encode r.deviceID.toList) = true)
    (hsize : byteLength (replyValue r).text ≤ maxControlMessageBytes)
    (hnul : (stringsOf r.body).all (fun s => nulFree s.text.toList) = false) :
    Client.parseEnvelope cjson (replyValue r).text = .error "escaped NUL is not allowed in JSON strings" := by
  have hone : ¬ ((replyValue r).text = [] ∨ maxControlMessageBytes < byteLength (replyValue r).text) :=
    not_or.mpr ⟨nofun, Nat.not_lt.mpr hsize⟩
  have hscan := Client.escapedNul_text (replyValue r) []
  rw [List.append_nil, hasNul_reply hid, hnul, Bool.not_false, Bool.true_or] at hscan
  rw [Client.parseEnvelope, if_neg hone, hscan, if_pos rfl]

def replyIds (r : Reply) : Client.WireIds where
  session := .ofNat r.sessionID
  turn := .ofNat r.turnID
  stream := .ofNat r.streamID
  epoch := .ofNat r.epoch

def replyPayload : Body → Client.Transport.Payload
  | .responseStart responseID => .responseStart responseID.text
  | .textDelta responseID text => .textDelta responseID.text text.text
  | .audioStart responseID sampleRateHz => .audioStart responseID.text (.ofNat sampleRateHz.toNat)
  | .responseDone responseID => .done responseID.text
  | .error code message _ => .error code message
  | _ => .unsupported

theorem requireItem_payload {key : Text} {v : Value} (h : (payloadMembers body).lookup key = some v) :
    Client.requireItem (payloadValue body) key = .ok v := by
  have hmembers : Wire.members (payloadValue body) = payloadMembers body := by
    rw [payloadValue, Wire.members_object, List.map_map]
    refine (List.map_congr_left fun m _ => ?_).trans (List.map_id _)
    simp only [Function.comp, Json.decode_map Json.of_writes, id]
  rw [Client.requireItem, hmembers, h]

theorem requireString_payload {key : Text} {value : GoString}
    (h : (payloadMembers body).lookup key = some (quotedValue value)) :
    Client.requireString (payloadValue body) key = .ok value.text := by
  have := Client.requireString_items (requireItem_payload h)
  rwa [Json.decode_writes escape_writes] at this

theorem schema_reply (hs : spoken r.body = true) :
    (if (parsed (replyEnvelope r) (payloadValue r.body)).known then
      Client.requireExactObject (payloadValue r.body) (parsed (replyEnvelope r) (payloadValue r.body)).names
    else .ok ()) = .ok () ∧
    (parsed (replyEnvelope r) (payloadValue r.body)).fields = .ok (replyPayload r.body) := by
  obtain ⟨body, messageID, deviceID, sessionID, turnID, streamID, epoch⟩ := r
  refine ⟨?_, ?_⟩
  · cases body <;> first | rfl | cases hs
  generalize he : parsed (replyEnvelope ⟨body, messageID, deviceID, sessionID, turnID, streamID, epoch⟩)
    (payloadValue body) = e
  have hpayload : e.payload = payloadValue body := by rw [← he]; rfl
  cases body with
  | responseStart responseID =>
    have hfield := requireString_payload (rfl : (payloadMembers (.responseStart responseID)).lookup responseIdKey = _)
    rw [Client.ParsedEnvelope.fields_start (by rw [← he]; rfl), hpayload, hfield]
    rfl
  | responseDone responseID =>
    have hfield := requireString_payload (rfl : (payloadMembers (.responseDone responseID)).lookup responseIdKey = _)
    rw [Client.ParsedEnvelope.fields_done (by rw [← he]; rfl), hpayload, hfield]
    rfl
  | textDelta responseID text =>
    have hfield := requireString_payload (rfl : (payloadMembers (.textDelta responseID text)).lookup responseIdKey = _)
    have htext := requireString_payload (rfl : (payloadMembers (.textDelta responseID text)).lookup textKey = _)
    rw [Client.ParsedEnvelope.fields_text (by rw [← he]; rfl), hpayload, hfield, htext]
    rfl
  | audioStart responseID sampleRateHz =>
    have hrate : sampleRateHz = 24000 := of_decide_eq_true hs
    subst hrate
    have hfield := requireString_payload (rfl : (payloadMembers (.audioStart responseID 24000)).lookup responseIdKey = _)
    have hitem := requireItem_payload (rfl : (payloadMembers (.audioStart responseID 24000)).lookup sampleRateKey = _)
    have hnumber : Client.requireUint32 (payloadValue (.audioStart responseID 24000)) sampleRateKey = .ok 24000 :=
      Client.requireUint32_ok hitem
    rw [Client.ParsedEnvelope.fields_audio (by rw [← he]; rfl), hpayload, hfield, hnumber]
    rfl
  | error code message path =>
    have hcode := requireString_payload (rfl : (payloadMembers (.error code message path)).lookup codeKey = _)
    have hmessage := requireString_payload (rfl : (payloadMembers (.error code message path)).lookup messageKey = _)
    rw [GoString.text_ofString] at hcode hmessage
    rw [Client.ParsedEnvelope.fields_error (by rw [← he]; rfl), hpayload, hcode, hmessage]
    rfl
  | helloAck | cancelled => cases hs

end BoomPI.Dialogue
