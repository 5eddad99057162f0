import BoomPI.Client.Audio.Playback

/-!
# The ring of slots

`Ringed s q`: the ring holds the slots `q`, of which all but the newest are full.
`QueueTts24k` appends its samples to theirs, however they are cut; the thread takes
the oldest one off.
-/

namespace BoomPI.Audio

variable {s : Playback} {q : List TtsSlot} {slot : TtsSlot} {pcm : List Sample}
  {bytes : List (BitVec 8)} {sequence : UInt64}

def TtsSlot.Full (slot : TtsSlot) : Prop := slot.used = kTts24FrameSamples

instance (slot : TtsSlot) : Decidable slot.Full := inferInstanceAs (Decidable (_ = _))

def pcmOf (q : List TtsSlot) : List Sample := q.flatMap (·.pcm)

@[simp] theorem pcmOf_nil : pcmOf [] = [] := rfl

@[simp] theorem pcmOf_cons (slot : TtsSlot) (q : List TtsSlot) : pcmOf (slot :: q) = slot.pcm ++ pcmOf q := rfl

@[simp] theorem pcmOf_append (p q : List TtsSlot) : pcmOf (p ++ q) = pcmOf p ++ pcmOf q := by
  simp [pcmOf]

structure Ringed (s : Playback) (q : List TtsSlot) : Prop where
  holds : RingBuffer.Holds {} s.tts q
  tail : s.ttsTail = s.tts.tail
  full : ∀ slot ∈ q.dropLast, slot.Full
  filled : ∀ slot ∈ q, slot.pcm ≠ []

theorem Ringed.length_le (h : Ringed s q) : q.length ≤ kTtsSlots := h.holds.length_le

theorem Ringed.count (h : Ringed s q) : s.tts.count = q.length := h.holds.count

theorem ringed_cleared (h : s.tts = .cleared {}) (ht : s.ttsTail = 0) : Ringed s [] := by
  refine ⟨h ▸ .cleared _, ?_, nofun, nofun⟩
  rw [h, ht]
  rfl

theorem Ringed.congr {t : Playback} (h : Ringed s q) (htts : t.tts = s.tts)
    (htail : t.ttsTail = s.ttsTail) : Ringed t q :=
  ⟨htts ▸ h.holds, by rw [htail, htts, h.tail], h.full, h.filled⟩

theorem Ringed.front (h : Ringed s (slot :: q)) : s.tts.front = slot := h.holds.front

theorem Ringed.pop (h : Ringed s (slot :: q)) : Ringed { s with tts := s.tts.pop {} } q := by
  refine ⟨h.holds.pop, ?_, fun other hq => h.full other ?_, fun other hq => h.filled other ?_⟩
  · exact h.tail.trans h.holds.tail_pop.symm
  · cases q with
    | nil => cases hq
    | cons x q => exact List.mem_cons_of_mem _ hq
  · exact List.mem_cons_of_mem _ hq

theorem Ringed.front_full (h : Ringed s (slot :: q)) (hq : q ≠ []) : slot.Full := by
  refine h.full slot ?_
  cases q with
  | nil => exact absurd rfl hq
  | cons x q => exact List.mem_cons_self

theorem length_pcmOf_full (h : ∀ slot ∈ q, slot.Full) : (pcmOf q).length = kTts24FrameSamples * q.length := by
  induction q with
  | nil => rfl
  | cons slot q ih =>
    have hs : slot.pcm.length = kTts24FrameSamples := h slot List.mem_cons_self
    have hq := ih fun other ho => h other (List.mem_cons_of_mem _ ho)
    simp only [pcmOf_cons, List.length_append, hs, hq, List.length_cons]
    exact Nat.add_comm _ _

-- ---------------------------------------------------------------------------
-- Copying
-- ---------------------------------------------------------------------------

theorem TtsSlot.append_pcm (slot : TtsSlot) (pcm : List Sample) :
    (slot.append pcm).pcm = slot.pcm ++ pcm.take (kTts24FrameSamples - slot.used) := rfl

theorem Ringed.last (h : Ringed s (q ++ [slot])) : s.last = slot := by
  unfold Playback.last
  simp only [h.tail]
  exact h.holds.back

structure Roomy (s : Playback) (init : List TtsSlot) (slot : TtsSlot) : Prop where
  holds : RingBuffer.Holds {} s.tts (init ++ [slot])
  tail : s.ttsTail = s.tts.tail
  last : s.last = slot
  full : ∀ x ∈ init, x.Full
  filled : ∀ x ∈ init, x.pcm ≠ []
  room : ¬ slot.Full

theorem Ringed.grown (h : Ringed s q) (hall : ∀ x ∈ q, x.Full)
    (hroom : (pcmOf q).length < kTtsSlots * kTts24FrameSamples) :
    Roomy { s with tts := s.tts.grow, ttsTail := s.ttsTail + 1 } q {} := by
  have hlt : q.length < kTtsSlots := by
    rw [length_pcmOf_full hall, Nat.mul_comm] at hroom
    exact Nat.lt_of_mul_lt_mul_right hroom
  have hgrown : RingBuffer.Holds {} s.tts.grow (q ++ [({} : TtsSlot)]) := h.holds.grow hlt
  have htail : s.ttsTail + 1 = s.tts.grow.tail :=
    (congrArg (· + 1) h.tail).trans (RingBuffer.tail_grow _).symm
  refine ⟨hgrown, htail, ?_, hall, h.filled, by decide⟩
  unfold Playback.last
  simp only [htail]
  exact hgrown.back

theorem Ringed.openSlot (h : Ringed s q)
    (hroom : (pcmOf q).length < kTtsSlots * kTts24FrameSamples) :
    ∃ init slot, Roomy s.openSlot init slot ∧ pcmOf (init ++ [slot]) = pcmOf q := by
  unfold Playback.openSlot
  rcases List.eq_nil_or_concat q with rfl | ⟨init, slot, rfl⟩
  · rw [if_pos (.inl h.count)]
    exact ⟨[], {}, h.grown nofun hroom, rfl⟩
  · rw [List.concat_eq_append] at h hroom ⊢
    have hinit : ∀ x ∈ init, x.Full := fun x hx => h.full x (by simpa using hx)
    by_cases hs : slot.Full
    · rw [if_pos (.inr (by rw [h.last]; exact hs))]
      refine ⟨init ++ [slot], {}, h.grown (fun x hx => ?_) hroom, by simp⟩
      rcases List.mem_append.mp hx with hx | hx
      · exact hinit x hx
      · obtain rfl : x = slot := by simpa using hx
        exact hs
    · have hpos : s.tts.count ≠ 0 := by simp [h.count]
      rw [if_neg (by rw [h.last]; exact fun hor => hor.elim hpos hs)]
      exact ⟨init, slot, ⟨h.holds, h.tail, h.last, hinit, fun x hx => h.filled x (by simp [hx]), hs⟩, rfl⟩

theorem openSlot_eq (s : Playback) :
    ∃ tts ttsTail, s.openSlot = { s with tts, ttsTail } := by
  unfold Playback.openSlot
  split
  · exact ⟨_, _, rfl⟩
  · exact ⟨s.tts, s.ttsTail, rfl⟩

theorem Roomy.fill {init : List TtsSlot} (h : Roomy s init slot) (hpcm : pcm ≠ []) :
    Ringed { s with tts := s.tts.set (s.ttsTail - 1) (slot.append pcm) } (init ++ [slot.append pcm]) := by
  have hlt : 0 < kTts24FrameSamples - slot.used := by
    have hfits := slot.fits
    have hroom := h.room
    simp only [TtsSlot.Full, TtsSlot.used] at hroom ⊢
    omega
  refine ⟨?_, h.tail, by simpa using h.full, fun x hx => ?_⟩
  · simp only [h.tail]
    exact h.holds.setBack _
  rcases List.mem_append.mp hx with hx | hx
  · exact h.filled x hx
  · obtain rfl : x = slot.append pcm := by simpa using hx
    rw [TtsSlot.append_pcm]
    intro hnil
    rcases List.take_eq_nil_iff.mp (List.append_eq_nil_iff.mp hnil).2 with h0 | h0
    · exact absurd h0 (Nat.ne_of_gt hlt)
    · exact hpcm h0

theorem Ringed.copy {fuel : Nat} (h : Ringed s q) (hfuel : pcm.length ≤ fuel)
    (hroom : (pcmOf q).length + pcm.length ≤ kTtsSlots * kTts24FrameSamples) :
    ∃ q' tts ttsTail, s.copy fuel pcm = { s with tts, ttsTail } ∧
      Ringed { s with tts, ttsTail } q' ∧ pcmOf q' = pcmOf q ++ pcm := by
  induction fuel generalizing s q pcm with
  | zero =>
    obtain rfl : pcm = [] := List.eq_nil_of_length_eq_zero (Nat.le_zero.mp hfuel)
    exact ⟨q, s.tts, s.ttsTail, rfl, h, by simp⟩
  | succ fuel ih =>
    unfold Playback.copy
    split
    case isTrue hnil => exact ⟨q, s.tts, s.ttsTail, rfl, h, by simp [hnil]⟩
    case isFalse hne =>
      have hpos := List.length_pos_iff.mpr hne
      obtain ⟨init, slot, hopen, hq⟩ := h.openSlot (by omega)
      obtain ⟨tts₀, tail₀, hsame⟩ := openSlot_eq s
      have hfill := hopen.fill hne
      dsimp only
      rw [hopen.last]
      have hroom' : 0 < kTts24FrameSamples - slot.used := by
        have hfits := slot.fits
        have := hopen.room
        simp only [TtsSlot.Full, TtsSlot.used] at this ⊢
        omega
      have htotal : pcmOf (init ++ [slot.append pcm]) ++ pcm.drop (kTts24FrameSamples - slot.used) =
          pcmOf q ++ pcm := by
        rw [← hq]
        simp [TtsSlot.append_pcm]
      have hrest : (pcm.drop (kTts24FrameSamples - slot.used)).length ≤ fuel := by
        rw [List.length_drop]
        omega
      obtain ⟨q', tts, ttsTail, heq, hringed, hpcm⟩ := ih hfill hrest
        (by rw [← List.length_append, htotal, List.length_append]; exact hroom)
      refine ⟨q', tts, ttsTail, ?_, ?_, hpcm.trans htotal⟩
      · rw [heq, hsame]
      · exact hringed.congr rfl rfl

end BoomPI.Audio
