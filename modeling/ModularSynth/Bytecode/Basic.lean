-- The program that a machine runs: a byte for each unit, with zero at the end of each
-- instrument, and beside it the operands that the units take in turn.
namespace ModularSynth

/-- Where a recording starts in the sample table and how it loops, in samples. -/
structure SampleOffset where
  start : UInt32
  /-- Counted from `start`. -/
  loopStart : UInt16
  loopLength : UInt16
  deriving DecidableEq, Repr, Inhabited

/-- A compiled patch. -/
structure Bytecode where
  opcodes : List UInt8 := []
  operands : List UInt8 := []
  delayTimes : Array UInt16 := #[]
  sampleOffsets : Array SampleOffset := #[]
  /-- The bit with as many voices after it as its number tells whether the next voice
  plays the same instrument again. -/
  polyphony : UInt32 := 0
  voices : Nat := 0
  deriving DecidableEq, Repr, Inhabited

def maxVoices : Nat := 32

/-- A voice has this many places for units. -/
def maxUnits : Nat := 63

/-- An operand can number this many samples. -/
def maxSamples : Nat := 256

/-- Why a patch cannot be compiled. -/
inductive CompileError
  | tooManyVoices (voices : Nat)
  | noVoices (instrument : Nat)
  | tooManyUnits (instrument : Nat)
  | tooManySamples
  | unsupportedUnit (kindName : String)
  deriving DecidableEq, Repr, Inhabited

def CompileError.message : CompileError → String
  | .tooManyVoices voices =>
    s!"Sointu does not support more than 32 concurrent voices; patch uses {voices}"
  | .noVoices instrument => s!"Instrument {instrument} must have at least 1 voice"
  | .tooManyUnits instrument => s!"Instrument {instrument} has over 63 units"
  | .tooManySamples => "Patch uses over 256 samples"
  | .unsupportedUnit kindName => s!"VM is not configured to support unit type \"{kindName}\""

end ModularSynth
