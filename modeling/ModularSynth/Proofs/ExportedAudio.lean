-- What audio is as bytes. A WAV file that is written sample by sample and a buffer that is filled
-- chunk by chunk hold the same samples, and the frames can be read from them.
import Mathlib
import ModularSynth.Audio.Writing

namespace ModularSynth

/-! ## Bytes -/

theorem overwriteAt_append (before old after new : List UInt8) (same : new.length = old.length) :
    overwriteAt (before ++ old ++ after) before.length new = before ++ new ++ after := by
  unfold overwriteAt
  rw [List.append_assoc before, List.take_left, same, ← List.drop_drop, List.drop_left,
    List.drop_left]

theorem littleEndian_bytes32 (w : UInt32) : littleEndian (bytes32 w) = w.toNat := by
  have bound := w.toNat_lt
  simp only [littleEndian, bytes32, List.foldr_cons, List.foldr_nil, UInt32.toNat_toUInt8,
    UInt32.toNat_shiftRight, UInt32.reduceToNat, Nat.reduceMod, Nat.shiftRight_eq_div_pow]
  omega

theorem numberAt_append (before after : List UInt8) (w : UInt32) :
    numberAt (before ++ bytes32 w ++ after) before.length = w.toNat := by
  unfold numberAt
  rw [List.append_assoc, List.drop_left, ← littleEndian_bytes32 w]
  rfl

theorem Frame.ofBits_bits (frame : Frame) : Frame.ofBits frame.bits = frame := by
  simp [Frame.ofBits, Frame.bits]

namespace Audio

theorem raw_cons (frame : Frame) (rest : Audio) (format : SampleFormat) :
    raw (frame :: rest) format = format.frameBytes frame ++ raw rest format :=
  List.flatMap_cons

theorem raw_length (audio : Audio) (format : SampleFormat) :
    (raw audio format).length = audio.length * format.frameSize := by
  induction audio with
  | nil => simp [raw]
  | cons frame rest ih =>
    rw [raw_cons, List.length_append, format.frameBytes_length, ih, List.length_cons,
      Nat.succ_mul, Nat.add_comm]

/-- The words of float samples are the bits of the signals. -/
theorem wordPairs_raw (audio : Audio) :
    wordPairs (raw audio .float32) = audio.map Frame.bits := by
  induction audio with
  | nil => rfl
  | cons frame rest ih =>
    have left := littleEndian_bytes32 frame.left.toBits
    have right := littleEndian_bytes32 frame.right.toBits
    change (UInt32.ofNat (littleEndian (bytes32 frame.left.toBits)),
      UInt32.ofNat (littleEndian (bytes32 frame.right.toBits))) :: wordPairs (raw rest .float32) = _
    rw [left, right, ih, UInt32.ofNat_toNat, UInt32.ofNat_toNat]
    rfl

/-! ## Buffers -/

theorem copyFrame_eq {format : SampleFormat} {chunk : List UInt8} (frame : Frame)
    (whole : chunk.length = format.frameSize) :
    copyFrame format frame chunk = format.frameBytes frame := by
  have left := format.sampleBytes_length frame.left
  have right := format.sampleBytes_length frame.right
  obtain ⟨first, second, rfl, firsts⟩ : ∃ first second, chunk = first ++ second ∧
      first.length = format.sampleSize :=
    ⟨chunk.take format.sampleSize, chunk.drop format.sampleSize,
      (List.take_append_drop _ _).symm, by
        rw [List.length_take, whole, SampleFormat.frameSize]
        omega⟩
  have seconds : second.length = format.sampleSize := by
    rw [List.length_append, SampleFormat.frameSize] at whole
    omega
  have started := overwriteAt_append [] first second (format.sampleBytes frame.left) (by omega)
  have ended := overwriteAt_append (format.sampleBytes frame.left) second []
    (format.sampleBytes frame.right) (by omega)
  simp only [List.nil_append, List.length_nil, List.append_nil] at started ended
  unfold copyFrame
  rw [started, ← left, ended]
  rfl

theorem frameSize_pos (format : SampleFormat) : 0 < format.frameSize := by
  cases format <;> decide

/-- Going from chunk to chunk does what copying all whole frames at once does. -/
theorem copyFrames_eq (format : SampleFormat) (audio : Audio) (buffer : List UInt8) :
    copyFrames format audio buffer = audio.copyInto format buffer := by
  induction audio generalizing buffer with
  | nil => simp [copyFrames, copyInto, raw]
  | cons frame rest ih =>
    have positive := frameSize_pos format
    rw [copyFrames]
    by_cases short : buffer.length < format.frameSize
    · rw [if_pos short]
      simp [copyInto, Nat.div_eq_of_lt short, raw]
    · have whole : (buffer.take format.frameSize).length = format.frameSize := by
        rw [List.length_take]
        omega
      have chunks : buffer.length / format.frameSize =
          (buffer.length - format.frameSize) / format.frameSize + 1 := by
        rw [Nat.div_eq_sub_div positive (by omega)]
      rw [if_neg short, ih, copyFrame_eq frame whole]
      simp only [copyInto, List.length_cons, List.length_drop, chunks, Nat.add_min_add_right,
        List.take_succ_cons, raw_cons, List.append_assoc, List.drop_drop, Nat.succ_mul,
        Nat.add_comm format.frameSize]

/-- A buffer of the right size is written over from its start to its end. -/
theorem copied_eq_raw (audio : Audio) (format : SampleFormat) :
    audio.copied format = audio.raw format := by
  unfold copied
  rw [copyFrames_eq]
  simp [copyInto, Nat.mul_div_cancel _ (frameSize_pos format)]

/-- What is written over, and what stays. -/
theorem copyInto_parts (audio : Audio) (format : SampleFormat) (buffer : List UInt8) :
    let count := min audio.length (buffer.length / format.frameSize)
    let result := (audio.copyInto format buffer).2
    result.length = buffer.length ∧
      result.take (count * format.frameSize) = raw (audio.take count) format ∧
      result.drop (count * format.frameSize) = buffer.drop (count * format.frameSize) := by
  intro count result
  have written : (raw (audio.take count) format).length = count * format.frameSize := by
    rw [raw_length, List.length_take, Nat.min_eq_left (Nat.min_le_left _ _)]
  have room : count * format.frameSize ≤ buffer.length :=
    Nat.le_trans (Nat.mul_le_mul_right _ (Nat.min_le_right _ _)) (Nat.div_mul_le_self _ _)
  have parts : result = raw (audio.take count) format ++ buffer.drop (count * format.frameSize) :=
    rfl
  refine ⟨?_, ?_, ?_⟩
  · rw [parts, List.length_append, written, List.length_drop]
    omega
  · rw [parts, List.take_left' written]
  · rw [parts, List.drop_left' written]

/-! ## WAV files -/

theorem SizesFit.mono {format : SampleFormat} {size less : Nat} (fits : SizesFit format size)
    (le : less ≤ size) : SizesFit format less := by
  unfold SizesFit riffSize at fits ⊢
  omega

/-- What of the header does not tell a size. -/
def headerMiddle (format : SampleFormat) : List UInt8 :=
  tag "WAVE" ++ (tag "fmt " ++ bytes32 (wavFormat format).length.toUInt32 ++ wavFormat format) ++
    tag "data"

theorem tag_length : ∀ name ∈ ["RIFF", "WAVE", "fmt ", "data"], (tag name).length = 4 := by
  decide +kernel

theorem headerMiddle_length (format : SampleFormat) :
    (headerMiddle format).length = riffSize format 0 - 4 := by
  simp [headerMiddle, tag_length, riffSize, bytes32]
  omega

/-- The header tells two sizes: of what comes after the first, and of the samples. -/
theorem wavHeader_eq (format : SampleFormat) (dataSize : Nat) :
    wavHeader format dataSize = tag "RIFF" ++ bytes32 (riffSize format dataSize).toUInt32 ++
      (headerMiddle format ++ bytes32 dataSize.toUInt32) := by
  simp [wavHeader, riffSize, headerMiddle]

theorem beforeData_length (format : SampleFormat) (size : UInt32) :
    (tag "RIFF" ++ bytes32 size ++ headerMiddle format).length = riffSize format 0 + 4 := by
  simp [tag_length, headerMiddle_length, riffSize, bytes32]
  omega

theorem wavHeader_length (format : SampleFormat) (dataSize : Nat) :
    (wavHeader format dataSize).length = riffSize format 0 + 8 := by
  rw [wavHeader_eq, ← List.append_assoc, List.length_append, beforeData_length]
  rfl

theorem wav_length (audio : Audio) (format : SampleFormat) :
    (audio.wav format).length = riffSize format (audio.length * format.frameSize) + 8 := by
  unfold wav
  rw [List.length_append, wavHeader_length, raw_length]
  unfold riffSize
  omega

theorem riffSize_add (format : SampleFormat) (dataSize : Nat) :
    riffSize format dataSize = riffSize format 0 + dataSize := by
  unfold riffSize
  omega

/-- The first size tells where the file ends. -/
theorem numberAt_riff {audio : Audio} {format : SampleFormat}
    (fits : SizesFit format (audio.length * format.frameSize)) :
    numberAt (audio.wav format) 4 + 8 = (audio.wav format).length := by
  have found := numberAt_append (tag "RIFF")
    (headerMiddle format ++ bytes32 (audio.length * format.frameSize).toUInt32 ++ audio.raw format)
    (riffSize format (audio.length * format.frameSize)).toUInt32
  rw [tag_length _ (by decide), UInt32.toNat_ofNat_of_lt' fits] at found
  rw [wav_length, ← found, wav, wavHeader_eq]
  simp only [List.append_assoc]

/-- The last field of the header tells how many bytes the samples have. -/
theorem numberAt_data {audio : Audio} {format : SampleFormat}
    (fits : SizesFit format (audio.length * format.frameSize)) :
    numberAt (audio.wav format)
        ((wavHeader format (audio.length * format.frameSize)).length - 4) =
      audio.length * format.frameSize := by
  have small : audio.length * format.frameSize < UInt32.size := by
    unfold SizesFit riffSize at fits
    omega
  have found := numberAt_append
    (tag "RIFF" ++ bytes32 (riffSize format (audio.length * format.frameSize)).toUInt32 ++
      headerMiddle format) (audio.raw format) (audio.length * format.frameSize).toUInt32
  rw [UInt32.toNat_ofNat_of_lt' small, beforeData_length] at found
  rw [wavHeader_length, ← found, wav, wavHeader_eq]
  simp only [List.append_assoc]
  rfl

end Audio

namespace WavLibrary.Lawful

variable {File Error : Type} {library : WavLibrary File Error}
  {Holds : File → SampleFormat → List UInt8 → Prop} (lawful : library.Lawful Holds)
include lawful

theorem writeFrame {format : SampleFormat} {file : File} {samples : List UInt8} (frame : Frame)
    (holds : Holds file format samples)
    (fits : Audio.SizesFit format (samples.length + format.frameSize)) :
    ∃ next, library.writeFrame format file frame = .ok next ∧
      Holds next format (samples ++ format.frameBytes frame) := by
  unfold WavLibrary.writeFrame SampleFormat.frameBytes
  rw [← List.append_assoc]
  cases format with
  | pcm16 =>
    obtain ⟨half, first, held⟩ := lawful.writeInteger (Frame.toInt16 frame.left) holds
      (fits.mono (Nat.add_le_add_left (by decide) _))
    obtain ⟨next, second, held⟩ := lawful.writeInteger (Frame.toInt16 frame.right) held
      (fits.mono (by rw [List.length_append, Nat.add_assoc]; exact Nat.le_refl _))
    exact ⟨next, by simp only [first, second, bind, Except.bind], held⟩
  | float32 =>
    obtain ⟨half, first, held⟩ := lawful.writeFloat frame.left holds
      (fits.mono (Nat.add_le_add_left (by decide) _))
    obtain ⟨next, second, held⟩ := lawful.writeFloat frame.right held
      (fits.mono (by rw [List.length_append, Nat.add_assoc]; exact Nat.le_refl _))
    exact ⟨next, by simp only [first, second, bind, Except.bind], held⟩

theorem writeFrames {format : SampleFormat} {file : File} {samples : List UInt8} (audio : Audio)
    (holds : Holds file format samples)
    (fits : Audio.SizesFit format (samples.length + audio.length * format.frameSize)) :
    ∃ last, audio.foldlM (library.writeFrame format) file = .ok last ∧
      Holds last format (samples ++ audio.raw format) := by
  induction audio generalizing file samples with
  | nil => exact ⟨file, rfl, by simpa [Audio.raw] using holds⟩
  | cons frame rest ih =>
    rw [List.length_cons, Nat.succ_mul] at fits
    obtain ⟨next, wrote, held⟩ := lawful.writeFrame frame holds (fits.mono (by omega))
    obtain ⟨last, later, held⟩ := ih held (by
      rw [List.length_append, format.frameBytes_length]
      exact fits.mono (by omega))
    refine ⟨last, ?_, ?_⟩
    · rw [List.foldlM_cons, wrote]
      exact later
    · rw [Audio.raw_cons, ← List.append_assoc]
      exact held

/-- Sample by sample, the file becomes the header and all samples. -/
theorem wavFile {audio : Audio} {format : SampleFormat}
    (fits : Audio.SizesFit format (audio.length * format.frameSize)) :
    library.wavFile audio format = .ok (audio.wav format) := by
  obtain ⟨file, created, holds⟩ := lawful.create format
  obtain ⟨last, wrote, held⟩ := lawful.writeFrames audio holds (by simpa using fits)
  have size := audio.raw_length format
  have closed := lawful.close held (by simpa [size] using fits) (by simp [size])
  unfold WavLibrary.wavFile
  simp only [created, wrote, bind, Except.bind]
  rw [closed, List.nil_append, size]
  rfl

end WavLibrary.Lawful

namespace OpenWav

theorem blankHeader_eq (format : SampleFormat) :
    blankHeader format =
      Audio.tag "RIFF" ++ bytes32 0 ++ (Audio.headerMiddle format ++ bytes32 0) := by
  simp [blankHeader, Audio.headerMiddle]

/-- Such samples have been written so far. -/
def Holds (file : OpenWav) (format : SampleFormat) (samples : List UInt8) : Prop :=
  file = ⟨format, blankHeader format ++ samples, samples.length.toUInt32⟩

theorem Holds.append {file : OpenWav} {format : SampleFormat} {samples : List UInt8}
    (holds : file.Holds format samples) (sample : List UInt8) :
    (file.append sample).Holds format (samples ++ sample) := by
  rw [holds]
  simp [Holds, OpenWav.append, Nat.toUInt32]

/-- At the end the sizes stand where the zeros were. -/
theorem Holds.finished {file : OpenWav} {format : SampleFormat} {samples : List UInt8}
    (holds : file.Holds format samples) :
    file.finished = Audio.wavHeader format samples.length ++ samples := by
  have riff : (Audio.tag "RIFF").length = 4 := Audio.tag_length _ (by decide)
  have size : (blankHeader format).length = Audio.riffSize format 0 + 8 := by
    rw [blankHeader_eq, ← Audio.wavHeader_length format 0, Audio.wavHeader_eq]
    simp [bytes32]
  have rest : (Audio.riffSize format 0).toUInt32 + samples.length.toUInt32 =
      (Audio.riffSize format samples.length).toUInt32 := by
    rw [Audio.riffSize_add format samples.length]
    exact (UInt32.ofNat_add _ _).symm
  have first := overwriteAt_append (Audio.tag "RIFF") (bytes32 0)
    (Audio.headerMiddle format ++ bytes32 0 ++ samples)
    (bytes32 (Audio.riffSize format samples.length).toUInt32) rfl
  have second := overwriteAt_append (Audio.tag "RIFF" ++
      bytes32 (Audio.riffSize format samples.length).toUInt32 ++ Audio.headerMiddle format)
    (bytes32 0) samples (bytes32 samples.length.toUInt32) rfl
  rw [riff] at first
  rw [Audio.beforeData_length] at second
  rw [holds]
  simp only [OpenWav.finished, size, Nat.add_sub_cancel, rest]
  rw [blankHeader_eq, Audio.wavHeader_eq]
  simp only [List.append_assoc] at first second ⊢
  rw [first]
  exact second

theorem library_lawful : library.Lawful Holds where
  create format := ⟨⟨format, blankHeader format, 0⟩, rfl, by simp [Holds]⟩
  writeInteger {file samples} x holds _ :=
    ⟨file.append (bytes16 x.toUInt16), by rw [holds]; rfl, holds.append _⟩
  writeFloat {file samples} x holds _ :=
    ⟨file.append (bytes32 x.toBits), by rw [holds]; rfl, holds.append _⟩
  close {file format samples} holds fits whole := by
    have small : samples.length < UInt32.size := by
      unfold Audio.SizesFit Audio.riffSize at fits
      omega
    have frames : file.dataSize.toNat % file.format.frameSize = 0 := by
      rw [holds]
      exact (congrArg (· % format.frameSize) (UInt32.toNat_ofNat_of_lt' small)).trans
        (Nat.mod_eq_zero_of_dvd whole)
    rw [← holds.finished]
    exact if_pos frames

end OpenWav

/-- The exports of audio agree, whatever lawful library writes the WAV file. Written sample by
sample, the file is the header and then exactly the samples that are copied into a buffer of
their size. The header tells the size of all that follows its first two fields, and at its end
the size of the samples. Float samples read as words are the bits of the frames, and give them
back. Into a buffer of any length go as many whole frames as there are and as fit; their number
is told, and the bytes after them stay. -/
theorem exports_agree {File Error : Type} {library : WavLibrary File Error}
    {Holds : File → SampleFormat → List UInt8 → Prop} (lawful : library.Lawful Holds)
    (audio : Audio) (format : SampleFormat)
    (fits : Audio.SizesFit format (audio.length * format.frameSize)) :
    let header := Audio.wavHeader format (audio.length * format.frameSize)
    library.wavFile audio format = .ok (audio.wav format) ∧
    audio.wav format = header ++ audio.copied format ∧
    audio.copied format = audio.raw format ∧
    numberAt (audio.wav format) 4 + 8 = (audio.wav format).length ∧
    numberAt (audio.wav format) (header.length - 4) =
      audio.length * (match format with | .pcm16 => 4 | .float32 => 8) ∧
    wordPairs (audio.copied .float32) = audio.map Frame.bits ∧
    (wordPairs (audio.copied .float32)).map Frame.ofBits = audio ∧
    ∀ buffer, Audio.copyFrames format audio buffer = audio.copyInto format buffer ∧
      let (count, result) := Audio.copyFrames format audio buffer
      count = min audio.length (buffer.length / format.frameSize) ∧
      result.length = buffer.length ∧
      result.take (count * format.frameSize) = Audio.copied (audio.take count) format ∧
      result.drop (count * format.frameSize) = buffer.drop (count * format.frameSize) := by
  intro header
  have words : wordPairs (audio.copied .float32) = audio.map Frame.bits := by
    rw [Audio.copied_eq_raw, Audio.wordPairs_raw]
  refine ⟨lawful.wavFile fits, ?_, audio.copied_eq_raw format, Audio.numberAt_riff fits, ?_, words,
    ?_, fun buffer => ⟨Audio.copyFrames_eq format audio buffer, ?_⟩⟩
  · rw [Audio.copied_eq_raw]
    rfl
  · rw [Audio.numberAt_data fits]
    cases format <;> rfl
  · rw [words, List.map_map, funext (f := Frame.ofBits ∘ Frame.bits) Frame.ofBits_bits]
    exact List.map_id' audio
  · obtain ⟨size, written, kept⟩ := audio.copyInto_parts format buffer
    rw [Audio.copyFrames_eq]
    refine ⟨rfl, size, ?_, kept⟩
    rw [Audio.copied_eq_raw]
    exact written

/-- Two frames, one of them louder than whole numbers can tell. -/
def twoFrames : Audio := [⟨0.5, -0.25⟩, ⟨1.5, 0.0⟩]

theorem exports_agree_two_frames :
    Audio.SizesFit .float32 (twoFrames.length * SampleFormat.float32.frameSize) ∧
    OpenWav.library.wavFile twoFrames .float32 = .ok (twoFrames.wav .float32) ∧
    numberAt (twoFrames.wav .float32) 4 = 76 ∧
    wordPairs (twoFrames.copied .float32) =
      [(0x3f000000, 0xbe800000), (0x3fc00000, 0x00000000)] ∧
    Audio.copyFrames .float32 twoFrames [1, 2, 3, 4, 5, 6, 7, 8, 9, 10, 11, 12] =
      (1, [0x00, 0x00, 0x00, 0x3f, 0x00, 0x00, 0x80, 0xbe, 9, 10, 11, 12]) := by
  have fits : Audio.SizesFit .float32 (twoFrames.length * SampleFormat.float32.frameSize) := by
    decide
  obtain ⟨written, -, -, size, -, words, -, copies⟩ :=
    exports_agree OpenWav.library_lawful twoFrames .float32 fits
  refine ⟨fits, written, Nat.add_right_cancel (size.trans ?_), words.trans ?_, ?_⟩
  · decide +kernel
  · decide +kernel
  · rw [(copies _).1]
    decide +kernel

end ModularSynth
