-- Audio on its way into bytes. A WAV file is written sample by sample, with the help of a library
-- that knows the form of such files; a buffer is filled chunk by chunk, one frame in each.
import ModularSynth.Audio.Export

namespace ModularSynth

/-- Bytes with others written over them from a place on. -/
def overwriteAt (bytes : List UInt8) (place : Nat) (new : List UInt8) : List UInt8 :=
  bytes.take place ++ new ++ bytes.drop (place + new.length)

/-! ## WAV files -/

namespace Audio

/-- The size of a WAV file after its first two fields, for so many bytes of samples. -/
def riffSize (format : SampleFormat) (dataSize : Nat) : Nat :=
  4 + (8 + (wavFormat format).length) + (8 + dataSize)

/-- Can the sizes in the header of a WAV file be told in 32 bits? -/
def SizesFit (format : SampleFormat) (dataSize : Nat) : Prop :=
  riffSize format dataSize < UInt32.size

instance (format : SampleFormat) (dataSize : Nat) : Decidable (SizesFit format dataSize) :=
  inferInstanceAs (Decidable (_ < _))

end Audio

/-- A library that writes WAV files: a file is begun, takes samples, and is closed. -/
structure WavLibrary (File Error : Type) where
  create : SampleFormat → Except Error File
  writeInteger : File → Int16 → Except Error File
  writeFloat : File → Signal → Except Error File
  /-- Gives the bytes of the file. -/
  close : File → Except Error (List UInt8)

namespace WavLibrary

variable {File Error : Type} (library : WavLibrary File Error)

/-- Write the samples of a frame, left before right. -/
def writeFrame (format : SampleFormat) (file : File) (frame : Frame) : Except Error File :=
  match format with
  | .pcm16 => do
    let file ← library.writeInteger file (Frame.toInt16 frame.left)
    library.writeInteger file (Frame.toInt16 frame.right)
  | .float32 => do
    let file ← library.writeFloat file frame.left
    library.writeFloat file frame.right

/-- The WAV file of audio. -/
def wavFile (audio : Audio) (format : SampleFormat) : Except Error (List UInt8) := do
  let file ← library.create format
  let file ← audio.foldlM (library.writeFrame format) file
  library.close file

/-- What a library for WAV files promises, where `Holds file format samples` says that a file
has been begun in a format and that the samples which it has taken have these bytes. It takes
samples of its format while their size fits into the header, low byte first. A file that is
closed after whole frames is the header and then the samples. -/
structure Lawful (Holds : File → SampleFormat → List UInt8 → Prop) : Prop where
  create (format : SampleFormat) : ∃ file, library.create format = .ok file ∧ Holds file format []
  writeInteger {file : File} {samples : List UInt8} (x : Int16) :
    Holds file .pcm16 samples → Audio.SizesFit .pcm16 (samples.length + 2) →
      ∃ next, library.writeInteger file x = .ok next ∧
        Holds next .pcm16 (samples ++ bytes16 x.toUInt16)
  writeFloat {file : File} {samples : List UInt8} (x : Signal) :
    Holds file .float32 samples → Audio.SizesFit .float32 (samples.length + 4) →
      ∃ next, library.writeFloat file x = .ok next ∧
        Holds next .float32 (samples ++ bytes32 x.toBits)
  close {file : File} {format : SampleFormat} {samples : List UInt8} :
    Holds file format samples → Audio.SizesFit format samples.length →
      format.frameSize ∣ samples.length →
        library.close file = .ok (Audio.wavHeader format samples.length ++ samples)

end WavLibrary

/-! ## A library that writes in place -/

/-- A WAV file that is being written: the bytes so far, with zeros for the sizes in the header,
and the size of the samples. -/
structure OpenWav where
  format : SampleFormat
  bytes : List UInt8
  dataSize : UInt32
  deriving DecidableEq, Inhabited

inductive WavError
  | wrongFormat
  | unfinishedFrame
  deriving DecidableEq, Repr, Inhabited

namespace OpenWav

/-- The header as long as nobody knows the sizes. -/
def blankHeader (format : SampleFormat) : List UInt8 :=
  let description := Audio.wavFormat format
  Audio.tag "RIFF" ++ bytes32 0 ++ Audio.tag "WAVE" ++
    Audio.tag "fmt " ++ bytes32 description.length.toUInt32 ++ description ++
    Audio.tag "data" ++ bytes32 0

def append (file : OpenWav) (sample : List UInt8) : OpenWav :=
  { file with
    bytes := file.bytes ++ sample
    dataSize := file.dataSize + sample.length.toUInt32 }

/-- The bytes with the sizes filled in: the first after the first tag, the second at the end of
the header. -/
def finished (file : OpenWav) : List UInt8 :=
  let headerSize := (blankHeader file.format).length
  let restSize := (headerSize - 8).toUInt32 + file.dataSize
  overwriteAt (overwriteAt file.bytes 4 (bytes32 restSize)) (headerSize - 4)
    (bytes32 file.dataSize)

/-- The library whose files are written at once; the sizes are filled in at the end. -/
def library : WavLibrary OpenWav WavError where
  create format := .ok ⟨format, blankHeader format, 0⟩
  writeInteger file x :=
    match file.format with
    | .pcm16 => .ok (file.append (bytes16 x.toUInt16))
    | .float32 => .error .wrongFormat
  writeFloat file x :=
    match file.format with
    | .pcm16 => .error .wrongFormat
    | .float32 => .ok (file.append (bytes32 x.toBits))
  close file :=
    if file.dataSize.toNat % file.format.frameSize = 0 then .ok file.finished
    else .error .unfinishedFrame

end OpenWav

/-! ## Buffers -/

namespace Audio

/-- Copy a frame into a chunk: the left sample to its start, the right one behind it. -/
def copyFrame (format : SampleFormat) (frame : Frame) (chunk : List UInt8) : List UInt8 :=
  overwriteAt (overwriteAt chunk 0 (format.sampleBytes frame.left)) format.sampleSize
    (format.sampleBytes frame.right)

/-- Copy frames into the chunks of a buffer, until there are no more of one or the other. Gives
the number of frames and the buffer. -/
def copyFrames (format : SampleFormat) : Audio → List UInt8 → Nat × List UInt8
  | [], buffer => (0, buffer)
  | frame :: rest, buffer =>
    if buffer.length < format.frameSize then (0, buffer)
    else
      let (count, later) := copyFrames format rest (buffer.drop format.frameSize)
      (count + 1, copyFrame format frame (buffer.take format.frameSize) ++ later)

/-- The samples of audio, copied into a buffer of zeros that they fill. -/
def copied (audio : Audio) (format : SampleFormat) : List UInt8 :=
  (copyFrames format audio (List.replicate (audio.length * format.frameSize) 0)).2

end Audio

/-! ## Reading -/

/-- The number that bytes stand for, low byte first. -/
def littleEndian (bytes : List UInt8) : Nat :=
  bytes.foldr (fun b n => b.toNat + 256 * n) 0

/-- The number in the four bytes at a place. -/
def numberAt (bytes : List UInt8) (place : Nat) : Nat :=
  littleEndian ((bytes.drop place).take 4)

/-- The bits of the samples of a frame. -/
def Frame.bits (frame : Frame) : UInt32 × UInt32 :=
  (frame.left.toBits, frame.right.toBits)

def Frame.ofBits (bits : UInt32 × UInt32) : Frame :=
  ⟨.ofBits bits.1, .ofBits bits.2⟩

/-- Bytes read as pairs of words of 32 bits. -/
def wordPairs : List UInt8 → List (UInt32 × UInt32)
  | a :: b :: c :: d :: e :: f :: g :: h :: rest =>
    (.ofNat (littleEndian [a, b, c, d]), .ofNat (littleEndian [e, f, g, h])) :: wordPairs rest
  | _ => []

end ModularSynth
