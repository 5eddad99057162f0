import BoomPI.Client.Audio.Backend

/-!
# Frames into vendor blocks

`rockchip_voice_dsp.cpp`: the product works on frames of 320 samples, the vendor's
3A on blocks of 256. Two FIFOs carry what is left over from call to call. Every
block but the last of an input is handed over in the call that completes it, so
what the FIFOs hold together is always one frame.
-/

namespace BoomPI.Audio

def kVendorBlockSamples : Nat := 256
def kInputFifoFrames : Nat := 512
def kOutputFifoSamples : Nat := 640
def kVendorOutputBytes : Nat := 512
def kVoiceFrameSamples : Nat := 320

abbrev Channels := List Int16

structure Planes where
  micLeft : VoiceFrame16k
  micRight : VoiceFrame16k
  referenceLeft : VoiceFrame16k
  referenceRight : VoiceFrame16k

/-- The frame as the input FIFO takes it; production has one reference channel. -/
def Planes.interleaved (p : Planes) (twoReferences : Bool) : List Channels :=
  List.ofFn fun i : Fin 320 => [p.micLeft[i], p.micRight[i], p.referenceLeft[i]] ++
    if twoReferences then [p.referenceRight[i]] else []

/-- `rkaudio_preprocess_short`: from the handle's state and a block, the new state, the
number of bytes it reports and the block it wrote. -/
structure Vendor (σ : Type) where
  process : σ → List Channels → σ × Nat × Vector Int16 256

/-- `RockchipVoiceDsp`; the counts are the lengths of the FIFOs. -/
structure VoiceDsp (σ : Type) where
  handle : Option σ := none
  inputFifo : List Channels := []
  outputFifo : List Int16 := []

/-- The vendor alone: its state and its output over whole blocks. -/
def Vendor.over {σ : Type} (v : Vendor σ) : σ → List (List Channels) → σ × List Int16
  | handle, [] => (handle, [])
  | handle, block :: blocks =>
    let run := v.process handle block
    let rest := v.over run.1 blocks
    (rest.1, run.2.2.toList ++ rest.2)

section

variable {σ : Type}

/-- `Open`, once the vendor has given out a handle: the output is primed with one frame. -/
def VoiceDsp.opened (handle : σ) : VoiceDsp σ :=
  { handle := some handle, outputFifo := List.replicate kVoiceFrameSamples 0 }

/-- `Close`. -/
def VoiceDsp.closed : VoiceDsp σ := {}

variable (v : Vendor σ) (twoReferences : Bool)

/-- `while (input_count_ >= kVendorBlockSamples)`; `none` where it closes and fails. -/
def vendorLoop : Nat → σ → List Channels → List Int16 → Option (σ × List Channels × List Int16)
  | 0, handle, input, output => some (handle, input, output)
  | fuel + 1, handle, input, output =>
    if kVendorBlockSamples ≤ input.length then
      let run := v.process handle (input.take kVendorBlockSamples)
      if run.2.1 ≠ kVendorOutputBytes ∨ kOutputFifoSamples - kVendorBlockSamples < output.length then
        none
      else
        vendorLoop fuel run.1 (input.drop kVendorBlockSamples) (output ++ run.2.2.toList)
    else some (handle, input, output)

/-- `Process`: what it returns, the frame it writes and what it leaves. -/
def VoiceDsp.process (d : VoiceDsp σ) (p : Planes) : Bool × List Int16 × VoiceDsp σ :=
  let silence := List.replicate kVoiceFrameSamples 0
  match d.handle with
  | none => (false, silence, d)
  | some handle =>
    if kInputFifoFrames - kVoiceFrameSamples < d.inputFifo.length then (false, silence, d)
    else
      let input := d.inputFifo ++ p.interleaved twoReferences
      match vendorLoop v input.length handle input d.outputFifo with
      | none => (false, silence, .closed)
      | some (handle, input, output) =>
        if output.length < kVoiceFrameSamples then (false, silence, .closed)
        else
          (true, output.take kVoiceFrameSamples,
            { handle := some handle, inputFifo := input,
              outputFifo := output.drop kVoiceFrameSamples })

/-- One call after another: whether each succeeded and what it wrote, and what they leave. -/
def VoiceDsp.processAll : VoiceDsp σ → List Planes → List (Bool × List Int16) × VoiceDsp σ
  | d, [] => ([], d)
  | d, p :: frames =>
    let call := d.process v twoReferences p
    let rest := call.2.2.processAll frames
    ((call.1, call.2.1) :: rest.1, rest.2)

/-- The calls after `Open`. -/
def VoiceDsp.run (handle : σ) (frames : List Planes) : List (Bool × List Int16) × VoiceDsp σ :=
  (opened handle).processAll v twoReferences frames

end

-- ---------------------------------------------------------------------------
-- The FIFOs
-- ---------------------------------------------------------------------------

variable {σ : Type} {v : Vendor σ} {handle : σ} {d : VoiceDsp σ}
  {input : List Channels} {output : List Int16}

/-- The vendor's contract: it reports 512 bytes for every block. -/
def Vendor.Whole (v : Vendor σ) : Prop :=
  ∀ handle block, block.length = kVendorBlockSamples →
    (v.process handle block).2.1 = kVendorOutputBytes

@[simp] theorem length_interleaved (p : Planes) (twoReferences : Bool) :
    (p.interleaved twoReferences).length = kVoiceFrameSamples :=
  List.length_ofFn

theorem Vendor.over_append (v : Vendor σ) (handle : σ) (blocks more : List (List Channels)) :
    v.over handle (blocks ++ more) =
      ((v.over (v.over handle blocks).1 more).1,
        (v.over handle blocks).2 ++ (v.over (v.over handle blocks).1 more).2) := by
  induction blocks generalizing handle with
  | nil => rfl
  | cons block blocks ih => simp [Vendor.over, ih]

theorem Vendor.length_over (v : Vendor σ) (handle : σ) (blocks : List (List Channels)) :
    (v.over handle blocks).2.length = kVendorBlockSamples * blocks.length := by
  induction blocks generalizing handle with
  | nil => rfl
  | cons block blocks ih =>
    simp only [Vendor.over, List.length_append, ih, Vector.length_toList, List.length_cons,
      Nat.mul_succ, kVendorBlockSamples]
    exact Nat.add_comm ..

theorem length_flatten_blocks {blocks : List (List Channels)}
    (h : ∀ b ∈ blocks, b.length = kVendorBlockSamples) :
    blocks.flatten.length = kVendorBlockSamples * blocks.length := by
  induction blocks with
  | nil => rfl
  | cons block blocks ih =>
    simp only [List.forall_mem_cons] at h
    simp only [List.flatten_cons, List.length_append, h.1, ih h.2, List.length_cons, Nat.mul_succ]
    exact Nat.add_comm ..

/-- The loop hands over all whole blocks: with no more than two frames in the FIFOs the
output FIFO has room for what the vendor makes of them. -/
theorem vendorLoop_spec (hv : v.Whole) (fuel : Nat) (handle : σ) (input : List Channels)
    (output : List Int16) (hfuel : input.length ≤ fuel)
    (hroom : input.length + output.length = 2 * kVoiceFrameSamples) :
    ∃ blocks rest, (∀ b ∈ blocks, b.length = kVendorBlockSamples) ∧
      input = blocks.flatten ++ rest ∧ rest.length < kVendorBlockSamples ∧
      vendorLoop v fuel handle input output =
        some ((v.over handle blocks).1, rest, output ++ (v.over handle blocks).2) := by
  induction fuel generalizing handle input output with
  | zero =>
    obtain rfl : input = [] := List.eq_nil_of_length_eq_zero (Nat.le_zero.mp hfuel)
    exact ⟨[], [], by simp, rfl, by decide, by simp [vendorLoop, Vendor.over]⟩
  | succ fuel ih =>
    unfold vendorLoop
    split
    case isFalse hlt =>
      exact ⟨[], input, by simp, rfl, Nat.not_le.mp hlt, by simp [Vendor.over]⟩
    case isTrue hle =>
      let block := input.take kVendorBlockSamples
      let run := v.process handle block
      have hblock : block.length = kVendorBlockSamples := by
        simp only [block, List.length_take, Nat.min_eq_left hle]
      have hout : ¬ kOutputFifoSamples - kVendorBlockSamples < output.length := by
        simp only [kVoiceFrameSamples, kOutputFifoSamples, kVendorBlockSamples] at hroom hle ⊢
        omega
      have hfuel' : (input.drop kVendorBlockSamples).length ≤ fuel := by
        simp only [List.length_drop, kVendorBlockSamples] at hle ⊢
        omega
      have hroom' : (input.drop kVendorBlockSamples).length + (output ++ run.2.2.toList).length =
          2 * kVoiceFrameSamples := by
        simp only [List.length_drop, List.length_append, Vector.length_toList,
          kVendorBlockSamples] at hle ⊢
        omega
      obtain ⟨blocks, rest, hblocks, hinput, hrest, hloop⟩ := ih run.1 _ _ hfuel' hroom'
      refine ⟨block :: blocks, rest, ?_, ?_, hrest, ?_⟩
      · simpa [hblock] using hblocks
      · simp only [List.flatten_cons, List.append_assoc, ← hinput, block, List.take_append_drop]
      · rw [if_neg (by simp [hv handle _ hblock, block, hout]), hloop]
        simp [Vendor.over, run, block]

/-- What is in the FIFOs after `n` calls that were given `input` and wrote `output`, when
the vendor has had `blocks`. -/
structure VoiceDsp.Between (v : Vendor σ) (handle : σ) (n : Nat) (input : List Channels)
    (output : List Int16) (blocks : List (List Channels)) (d : VoiceDsp σ) : Prop where
  whole : ∀ b ∈ blocks, b.length = kVendorBlockSamples
  input_eq : blocks.flatten ++ d.inputFifo = input
  output_eq : output ++ d.outputFifo =
    List.replicate kVoiceFrameSamples 0 ++ (v.over handle blocks).2
  handle_eq : d.handle = some (v.over handle blocks).1
  short : d.inputFifo.length < kVendorBlockSamples
  given : input.length = kVoiceFrameSamples * n
  written : output.length = kVoiceFrameSamples * n

namespace VoiceDsp.Between

variable {n : Nat} {blocks : List (List Channels)}

theorem init (v : Vendor σ) (handle : σ) : (opened handle).Between v handle 0 [] [] [] where
  whole := by simp
  input_eq := rfl
  output_eq := by simp [opened, Vendor.over]
  handle_eq := rfl
  short := show 0 < kVendorBlockSamples by decide
  given := rfl
  written := rfl

theorem fill (h : d.Between v handle n input output blocks) :
    d.inputFifo.length + d.outputFifo.length = kVoiceFrameSamples := by
  have hin := congrArg List.length h.input_eq
  have hout := congrArg List.length h.output_eq
  simp only [List.length_append, length_flatten_blocks h.whole, h.given] at hin
  simp only [List.length_append, v.length_over, h.written, List.length_replicate] at hout
  omega

theorem cycle (h : d.Between v handle n input output blocks) :
    d.inputFifo.length = 64 * (n % 4) := by
  have hin := congrArg List.length h.input_eq
  have hshort := h.short
  simp only [List.length_append, length_flatten_blocks h.whole, h.given, kVoiceFrameSamples,
    kVendorBlockSamples] at hin hshort
  omega

theorem process (hv : v.Whole) (h : d.Between v handle n input output blocks)
    (twoReferences : Bool) (p : Planes) :
    ∃ frame d' blocks', d.process v twoReferences p = (true, frame, d') ∧
      frame.length = kVoiceFrameSamples ∧
      d'.Between v handle (n + 1) (input ++ p.interleaved twoReferences) (output ++ frame)
        (blocks ++ blocks') := by
  have hfill := h.fill
  have hroom : ¬ kInputFifoFrames - kVoiceFrameSamples < d.inputFifo.length := by
    rw [h.cycle]
    simp only [kInputFifoFrames, kVoiceFrameSamples]
    omega
  obtain ⟨more, rest, hmore, hinput, hrest, hloop⟩ :=
    vendorLoop_spec hv _ (v.over handle blocks).1 (d.inputFifo ++ p.interleaved twoReferences)
      d.outputFifo (Nat.le_refl _) (by simp only [List.length_append, length_interleaved]; omega)
  let made := d.outputFifo ++ (v.over (v.over handle blocks).1 more).2
  have hmade : ¬ made.length < kVoiceFrameSamples := by
    have hlen := congrArg List.length hinput
    simp only [List.length_append, length_interleaved, length_flatten_blocks hmore] at hlen
    simp only [made, List.length_append, v.length_over, kVendorBlockSamples,
      kVoiceFrameSamples] at hrest hlen hfill ⊢
    omega
  have hframe : (made.take kVoiceFrameSamples).length = kVoiceFrameSamples := by
    simp only [List.length_take, Nat.min_eq_left (Nat.not_lt.mp hmade)]
  refine ⟨made.take kVoiceFrameSamples,
    { handle := some (v.over (v.over handle blocks).1 more).1, inputFifo := rest,
      outputFifo := made.drop kVoiceFrameSamples }, more, ?_, hframe, ?_⟩
  · simp only [VoiceDsp.process, h.handle_eq, if_neg hroom, hloop]
    exact if_neg hmade
  · constructor
    case whole => simpa [or_imp, forall_and] using ⟨h.whole, hmore⟩
    case input_eq => simp [← h.input_eq, hinput]
    case output_eq =>
      simp only [List.append_assoc, List.take_append_drop, Vendor.over_append, made]
      simp only [← List.append_assoc, h.output_eq]
    case handle_eq => simp only [Vendor.over_append]
    case short => exact hrest
    case given => simp only [List.length_append, h.given, length_interleaved, Nat.mul_succ]
    case written => simp only [List.length_append, h.written, hframe, Nat.mul_succ]

theorem processAll (hv : v.Whole) (twoReferences : Bool) (frames : List Planes)
    (h : d.Between v handle n input output blocks) :
    ∃ blocks', (∀ result ∈ (d.processAll v twoReferences frames).1,
        result.1 = true ∧ result.2.length = kVoiceFrameSamples) ∧
      (d.processAll v twoReferences frames).1.length = frames.length ∧
      (d.processAll v twoReferences frames).2.Between v handle (n + frames.length)
        (input ++ frames.flatMap (·.interleaved twoReferences))
        (output ++ ((d.processAll v twoReferences frames).1.map (·.2)).flatten)
        (blocks ++ blocks') := by
  induction frames generalizing n input output blocks d with
  | nil => exact ⟨[], by simp [VoiceDsp.processAll], rfl, by simpa [VoiceDsp.processAll] using h⟩
  | cons p frames ih =>
    obtain ⟨frame, d', more, hcall, hframe, h'⟩ := h.process hv twoReferences p
    obtain ⟨rest, hall, hlen, hend⟩ := ih h'
    refine ⟨more ++ rest, ?_, ?_, ?_⟩
    · simpa [VoiceDsp.processAll, hcall, hframe] using hall
    · simp [VoiceDsp.processAll, hcall, hlen]
    · simpa [VoiceDsp.processAll, hcall, Nat.add_assoc, Nat.add_comm 1] using hend

end VoiceDsp.Between

/-- For every number of calls after `Open` no check of the FIFOs fails, and what is written is
one frame of silence and then what the vendor makes of the blocks of the input, in order:
what is still missing of either is in the FIFOs. -/
theorem reblocked {σ : Type} (v : Vendor σ) (hv : v.Whole) (twoReferences : Bool) (handle : σ)
    (frames : List Planes) :
    ∃ blocks : List (List Channels),
      (∀ b ∈ blocks, b.length = kVendorBlockSamples) ∧
      (∀ result ∈ (VoiceDsp.run v twoReferences handle frames).1,
        result.1 = true ∧ result.2.length = kVoiceFrameSamples) ∧
      (VoiceDsp.run v twoReferences handle frames).1.length = frames.length ∧
      (VoiceDsp.run v twoReferences handle frames).2.inputFifo.length =
        64 * (frames.length % 4) ∧
      (VoiceDsp.run v twoReferences handle frames).2.inputFifo.length +
          (VoiceDsp.run v twoReferences handle frames).2.outputFifo.length =
        kVoiceFrameSamples ∧
      frames.flatMap (·.interleaved twoReferences) =
        blocks.flatten ++ (VoiceDsp.run v twoReferences handle frames).2.inputFifo ∧
      ((VoiceDsp.run v twoReferences handle frames).1.map (·.2)).flatten ++
          (VoiceDsp.run v twoReferences handle frames).2.outputFifo =
        List.replicate kVoiceFrameSamples 0 ++ (v.over handle blocks).2 := by
  obtain ⟨blocks, hall, hlen, h⟩ :=
    (VoiceDsp.Between.init v handle).processAll hv twoReferences frames
  simp only [List.nil_append, Nat.zero_add] at h
  exact ⟨blocks, h.whole, hall, hlen, h.cycle, h.fill, h.input_eq.symm, h.output_eq⟩

def passThrough : Vendor Unit where
  process _ block := ((), kVendorOutputBytes, Vector.ofFn fun i => (block.getD i []).headD 0)

/-- Frames whose samples count on from one frame to the next. -/
def ramp (n : Nat) : Planes :=
  let samples := Vector.ofFn fun i : Fin 320 => Int16.ofNat (320 * n + i)
  ⟨samples, samples, samples, samples⟩

theorem reblocked_passThrough : ∃ blocks : List (List Channels), blocks.length = 6 ∧
    ((VoiceDsp.run passThrough false () ((List.range 5).map ramp)).1.map (·.2)).flatten ++
        (VoiceDsp.run passThrough false () ((List.range 5).map ramp)).2.outputFifo =
      List.replicate kVoiceFrameSamples 0 ++ (passThrough.over () blocks).2 := by
  have hwhole : passThrough.Whole := fun _ _ _ => rfl
  obtain ⟨blocks, hblocks, -, -, hin, -, hinput, houtput⟩ :=
    reblocked passThrough hwhole false () ((List.range 5).map ramp)
  refine ⟨blocks, ?_, houtput⟩
  have hsamples := congrArg List.length hinput
  have hgiven : (((List.range 5).map ramp).flatMap (·.interleaved false)).length = 1600 := by
    simp [List.range_succ, kVoiceFrameSamples]
  rw [hgiven, List.length_append, length_flatten_blocks hblocks, hin] at hsamples
  simp only [List.length_map, List.length_range, kVendorBlockSamples] at hsamples
  omega

end BoomPI.Audio
