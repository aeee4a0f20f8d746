-- How far a machine got, and why it could not go on.
import ModularSynth.Catalogue.UnitKind

namespace ModularSynth

/-- How far rendering got: the frames that are done, and the time that has passed, which
differs from their number only where the speed changes. -/
structure Progress where
  samples : Nat := 0
  time : Int := 0
  deriving DecidableEq, Repr, Inhabited

/-- Why a machine could not go on. -/
inductive RenderFault
  | stackUnderflow
  | stackNotEmpty (depth : Nat)
  | invalidOpcode (opcode : UInt8)
  | operandsEnded
  | opcodesEnded
  | tooManyUnits
  | delayLinesExhausted
  | invalidDelayTime (index : Nat)
  | invalidSample (index : Nat)
  | invalidSendTarget (address : UInt16)
  | invalidChannel (channel : Nat)
  | nonFinite (kind : UnitKind)
  /-- A core of several has given no answer. -/
  | workerLost
  deriving DecidableEq, Repr, Inhabited

def hexWord (w : UInt16) : String :=
  let digits := Nat.toDigits 16 w.toNat
  "0x" ++ String.ofList (List.replicate (4 - digits.length) '0' ++ digits)

def RenderFault.message : RenderFault → String
  | .stackUnderflow => "stack underflow"
  | .stackNotEmpty depth => s!"stack not empty, {depth} signals left"
  | .invalidOpcode opcode => s!"invalid opcode {opcode}"
  | .operandsEnded => "operand stream ended prematurely"
  | .opcodesEnded => "opcode stream ended before all voices were played"
  | .tooManyUnits => "instrument has more units than voices can hold"
  | .delayLinesExhausted => "patch uses more delay lines than were allocated"
  | .invalidDelayTime index => s!"delay time index {index} out of range"
  | .invalidSample index => s!"sample number {index} out of range"
  | .invalidSendTarget address => s!"send address {hexWord address} does not point at a unit"
  | .invalidChannel channel => s!"output channel {channel} out of range"
  | .nonFinite kind => s!"{kind.name} produced a value that is not finite"
  | .workerLost => "worker thread is gone"

/-- A fault and how far rendering got before it. -/
structure RenderError where
  progress : Progress
  fault : RenderFault
  deriving DecidableEq, Repr, Inhabited

def RenderError.message (e : RenderError) : String :=
  s!"{e.fault.message} after {e.progress.samples} samples (time {e.progress.time})"

end ModularSynth
