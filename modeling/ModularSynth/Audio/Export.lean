-- Audio as bytes: raw samples, samples copied into a buffer of any size, and WAV files.
-- A WAV file is a header followed by exactly the raw samples.
import ModularSynth.Audio.Frame
import ModularSynth.Song

namespace ModularSynth

/-! ## Words -/

/-- A word of 16 bits, low byte first. -/
def bytes16 (w : UInt16) : List UInt8 :=
  [w.toUInt8, (w >>> 8).toUInt8]

/-- A word of 32 bits, low byte first. -/
def bytes32 (w : UInt32) : List UInt8 :=
  [w.toUInt8, (w >>> 8).toUInt8, (w >>> 16).toUInt8, (w >>> 24).toUInt8]

/-! ## Samples -/

/-- How a sample is stored: as a whole number of 16 bits, or as it is. -/
inductive SampleFormat
  | pcm16
  | float32
  deriving DecidableEq, Repr, Inhabited

namespace SampleFormat

/-- The number of bytes of a sample. -/
def sampleSize : SampleFormat → Nat
  | .pcm16 => 2
  | .float32 => 4

/-- The number of bytes of a frame. -/
def frameSize (format : SampleFormat) : Nat :=
  2 * format.sampleSize

def sampleBytes (format : SampleFormat) (x : Signal) : List UInt8 :=
  match format with
  | .pcm16 => bytes16 (Frame.toInt16 x).toUInt16
  | .float32 => bytes32 x.toBits

/-- The bytes of a frame, left before right. -/
def frameBytes (format : SampleFormat) (frame : Frame) : List UInt8 :=
  format.sampleBytes frame.left ++ format.sampleBytes frame.right

theorem sampleBytes_length (format : SampleFormat) (x : Signal) :
    (format.sampleBytes x).length = format.sampleSize := by
  cases format <;> rfl

theorem frameBytes_length (format : SampleFormat) (frame : Frame) :
    (format.frameBytes frame).length = format.frameSize := by
  simp [frameBytes, sampleBytes_length, frameSize, Nat.two_mul]

end SampleFormat

namespace Audio

/-- The samples of audio, one after the other. -/
def raw (audio : Audio) (format : SampleFormat) : List UInt8 :=
  audio.flatMap format.frameBytes

/-- Copy as many whole frames into a buffer as fit. Gives their number and the buffer. -/
def copyInto (audio : Audio) (format : SampleFormat) (buffer : List UInt8) :
    Nat × List UInt8 :=
  let count := min audio.length (buffer.length / format.frameSize)
  (count, raw (audio.take count) format ++ buffer.drop (count * format.frameSize))

/-! ## WAV -/

def tag (name : String) : List UInt8 :=
  name.toUTF8.toList

/-- What the header says of the format. Whole numbers take the short form; floats take
the extensible one, with both speakers and the identifier of float samples. -/
def wavFormat (format : SampleFormat) : List UInt8 :=
  let rate := sampleRate.toUInt32
  let common (code : UInt16) :=
    bytes16 code ++ bytes16 2 ++ bytes32 rate ++ bytes32 (rate * format.frameSize.toUInt32) ++
      bytes16 format.frameSize.toUInt16 ++ bytes16 (format.sampleSize * 8).toUInt16
  match format with
  | .pcm16 => common 1
  | .float32 =>
    common 0xFFFE ++ bytes16 22 ++ bytes16 32 ++ bytes32 3 ++
      [0x03, 0x00, 0x00, 0x00, 0x00, 0x00, 0x10, 0x00,
        0x80, 0x00, 0x00, 0xaa, 0x00, 0x38, 0x9b, 0x71]

/-- The header of a WAV file for so many bytes of samples. -/
def wavHeader (format : SampleFormat) (dataSize : Nat) : List UInt8 :=
  let description := wavFormat format
  let rest := 4 + (8 + description.length) + (8 + dataSize)
  tag "RIFF" ++ bytes32 rest.toUInt32 ++ tag "WAVE" ++
    tag "fmt " ++ bytes32 description.length.toUInt32 ++ description ++
    tag "data" ++ bytes32 dataSize.toUInt32

def wav (audio : Audio) (format : SampleFormat) : List UInt8 :=
  wavHeader format (audio.length * format.frameSize) ++ raw audio format

end Audio

end ModularSynth
