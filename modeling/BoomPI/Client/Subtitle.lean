import BoomPI.Client.VoiceClient

/-!
# The subtitle

`ShowText` keeps the end of what was said and shows it on two lines. The bytes it
keeps are the longest end of the text of at most 126 bytes, the first line is the
longest beginning of these of at most 63, and the second is cut to 63 again.
-/

namespace BoomPI.Client.VoiceClient

open Utf8 (encode front back size)

variable {text window : List Char} {c : VoiceClient}

theorem utf8Cut_encode (text : List Char) (limit : Nat) :
    utf8Cut (encode text) limit = size (front limit text) := by
  rw [utf8Cut]
  split
  · rename_i h
    rw [Utf8.front_of_fits h]
    rfl
  · rename_i h
    have hrun := @Utf8.takeWhile_front text limit (Nat.not_le.mp h)
    have hle := Utf8.size_front limit text
    rw [hrun]
    omega

-- ---------------------------------------------------------------------------
-- The text since the last `ClearSubtitle`
-- ---------------------------------------------------------------------------

/-- `text` is what `ShowText` was called with since `ClearSubtitle`, whatever else the
client did that leaves the subtitle alone. -/
inductive Received : List Char → VoiceClient → Prop
  | clear (c : VoiceClient) : Received [] c.clearSubtitle
  | delta {text : List Char} {c : VoiceClient} (delta : String) (h : Received text c) :
    Received (text ++ delta.toList) (c.showText delta)
  | other {text : List Char} {c c' : VoiceClient} (h : Received text c) (hs : c'.subtitle = c.subtitle) :
    Received text c'

def rest (window : List Char) : List Char := window.drop (front 63 window).length

theorem front_rest (window : List Char) : front 63 window ++ rest window = window := by
  have hbegins := Utf8.front_begins 63 window
  rw [rest]
  generalize front 63 window = p at hbegins ⊢
  obtain ⟨q, rfl⟩ := hbegins
  rw [List.drop_left]

theorem showText_subtitle (hs : c.subtitle = encode (back 126 text)) (delta : String) :
    (c.showText delta).subtitle = encode (back 126 (text ++ delta.toList)) := by
  have hwindow : c.subtitle ++ delta.toUTF8.data.toList = encode (back 126 text ++ delta.toList) := by
    rw [hs, Utf8.encode_append, Utf8.encode_toList]
  have hcut := Utf8.dropWhile_back 126 (back 126 text ++ delta.toList)
  simp only [showText, emit, hwindow]
  rw [← Utf8.back_append]
  split
  · exact hcut
  · rename_i h
    rw [Utf8.back_of_fits (Nat.not_lt.mp h)]

theorem Received.subtitle (h : Received text c) : c.subtitle = encode (back 126 text) := by
  induction h with
  | clear c => rfl
  | delta delta h ih => exact showText_subtitle ih delta
  | other h hs ih => exact hs.trans ih

theorem showText_effects (h : Received text c) (delta : String) :
    (c.showText delta).effects = c.effects ++
      [.setText (encode (front 63 (back 126 (text ++ delta.toList))))
        (encode (front 63 (rest (back 126 (text ++ delta.toList)))))] := by
  have hsubtitle := (h.delta delta).subtitle
  have hlines : (c.showText delta).effects = c.effects ++
      [.setText ((c.showText delta).subtitle.take (utf8Cut (c.showText delta).subtitle 63))
        (((c.showText delta).subtitle.drop (utf8Cut (c.showText delta).subtitle 63)).take
          (utf8Cut ((c.showText delta).subtitle.drop (utf8Cut (c.showText delta).subtitle 63)) 63))] := rfl
  rw [hlines, hsubtitle, utf8Cut_encode, Utf8.take_front, Utf8.drop_front, ← rest, utf8Cut_encode,
    Utf8.take_front]

-- ---------------------------------------------------------------------------
-- What is cut off
-- ---------------------------------------------------------------------------

/-- The last two lines shown are of at most 63 bytes each and, one behind the other, the
end of `text`. -/
def ShowsEnd (text : List Char) (c : VoiceClient) : Prop :=
  ∃ effects first second, c.effects = effects ++ [.setText (encode first) (encode second)] ∧
    size first ≤ 63 ∧ size second ≤ 63 ∧ first ++ second <:+ text

theorem showsEnd_iff (h : Received text c) (delta : String) :
    ShowsEnd (text ++ delta.toList) (c.showText delta) ↔
      front 63 (back 126 (text ++ delta.toList)) ++ front 63 (rest (back 126 (text ++ delta.toList))) <:+
        text ++ delta.toList := by
  have heffects := showText_effects h delta
  constructor
  · rintro ⟨effects, first, second, heq, -, -, hends⟩
    rw [heffects] at heq
    obtain ⟨-, hlast⟩ := List.append_inj' heq rfl
    simp only [List.cons.injEq, Effect.setText.injEq, and_true] at hlast
    rwa [Utf8.encode_injective hlast.1, Utf8.encode_injective hlast.2]
  · intro hends
    exact ⟨_, _, _, heffects, Utf8.size_front 63 _, Utf8.size_front 63 _, hends⟩

theorem showsEnd_first (c : VoiceClient) (delta : String) :
    ShowsEnd delta.toList (c.clearSubtitle.showText delta) ↔
      front 63 (back 126 delta.toList) ++ front 63 (rest (back 126 delta.toList)) <:+ delta.toList :=
  showsEnd_iff (.clear c) delta

def cutOff (window : List Char) : Nat := (rest window).length - (front 63 (rest window)).length

/-- The text goes on as it did `n` characters earlier. -/
def Repeats (n : Nat) (text : List Char) : Prop := text.drop n <+: text

theorem repeats_zero (text : List Char) : Repeats 0 text := List.prefix_rfl

theorem cutOff_fits (h : size (rest window) ≤ 63) : cutOff window = 0 := by
  rw [cutOff, Utf8.front_of_fits h, Nat.sub_self]

theorem lines_cutOff (window : List Char) : ∃ lost, lost.length = cutOff window ∧
    window = front 63 window ++ front 63 (rest window) ++ lost := by
  obtain ⟨lost, hlost⟩ := Utf8.front_begins 63 (rest window)
  refine ⟨lost, ?_, ?_⟩
  · have := congrArg List.length hlost
    rw [List.length_append] at this
    rw [cutOff]
    omega
  · rw [List.append_assoc, hlost, front_rest]

/-- The lines are an end of the window where it repeats itself, or nothing is cut off. -/
theorem lines_suffix_iff (hw : window <:+ text) :
    front 63 window ++ front 63 (rest window) <:+ text ↔ Repeats (cutOff window) window := by
  obtain ⟨lost, hlength, heq⟩ := lines_cutOff window
  generalize front 63 window ++ front 63 (rest window) = lines at heq ⊢
  have hlines : lines.length + lost.length = window.length := by
    rw [heq, List.length_append]
  have hdrop : (window.drop lost.length).length = lines.length := by
    rw [List.length_drop]
    omega
  rw [← hlength, Repeats]
  constructor
  · intro hends
    have hle : lines.length ≤ window.length := by omega
    have hwindow : lines <:+ window := List.suffix_of_suffix_length_le hends hw hle
    have hbehind : window.drop lost.length <:+ lines :=
      List.suffix_of_suffix_length_le (List.drop_suffix lost.length window) hwindow (Nat.le_of_eq hdrop)
    have hsame : window.drop lost.length = lines := hbehind.eq_of_length hdrop
    rw [hsame, heq]
    exact List.prefix_append lines lost
  · intro hrepeats
    have hbegins : lines <+: window := by
      rw [heq]
      exact List.prefix_append lines lost
    have hsame : window.drop lost.length = lines :=
      (List.prefix_of_prefix_length_le hrepeats hbegins (Nat.le_of_eq hdrop)).eq_of_length hdrop
    rw [← hsame]
    exact (List.drop_suffix lost.length window).trans hw

/-- The lines show the end of the text as long as the second line takes what the first
one leaves of the window. -/
theorem subtitle_end (h : Received text c) (delta : String) :
    ShowsEnd (text ++ delta.toList) (c.showText delta) ↔
      size (rest (back 126 (text ++ delta.toList))) ≤ 63 ∨
        Repeats (cutOff (back 126 (text ++ delta.toList))) (back 126 (text ++ delta.toList)) := by
  rw [showsEnd_iff h, lines_suffix_iff (Utf8.back_ends 126 _)]
  constructor
  · exact .inr
  · rintro (hfits | hrepeats)
    · rw [cutOff_fits hfits]
      exact repeats_zero _
    · exact hrepeats

def line (c : Char) : String := String.ofList (List.replicate 20 c)

theorem subtitle_end_lines :
    ShowsEnd ((line '山').toList ++ (line '水').toList ++ (line '月').toList)
      ((((VoiceClient.clearSubtitle {}).showText (line '山')).showText (line '水')).showText (line '月')) := by
  have htwo : Received ((line '山').toList ++ (line '水').toList)
      (((VoiceClient.clearSubtitle {}).showText (line '山')).showText (line '水')) :=
    .delta (line '水') (.delta (line '山') (.clear {}))
  refine (subtitle_end htwo (line '月')).mpr (.inl ?_)
  simp only [line, String.toList_ofList]
  decide +kernel

/-- 62 letters, a character of three bytes and 61 letters: the window is 126 bytes, and the
newest one is on neither line. -/
def longDelta : String := String.ofList (List.replicate 62 'a' ++ '中' :: List.replicate 60 'b' ++ ['z'])

theorem longDelta_lines :
    ¬ front 63 (back 126 longDelta.toList) ++ front 63 (rest (back 126 longDelta.toList)) <:+
      longDelta.toList := by
  have htext : longDelta.toList = List.replicate 62 'a' ++ '中' :: List.replicate 60 'b' ++ ['z'] :=
    String.toList_ofList
  rw [htext]
  decide +kernel

theorem longDelta_cut : ¬ ShowsEnd longDelta.toList ((VoiceClient.clearSubtitle {}).showText longDelta) := by
  rw [showsEnd_first]
  exact longDelta_lines

end BoomPI.Client.VoiceClient
