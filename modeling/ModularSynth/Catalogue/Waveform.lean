-- The waveforms of an oscillator, by the number its `type` parameter holds.
namespace ModularSynth

/-- The waveforms of an oscillator. -/
inductive Waveform
  | sine
  | trisaw
  | pulse
  | gate
  | sample
  deriving DecidableEq, Repr, Inhabited

namespace Waveform

/-- The waveform a parameter value selects. -/
def ofNumber? (n : Int) : Option Waveform :=
  if n = 0 then some .sine
  else if n = 1 then some .trisaw
  else if n = 2 then some .pulse
  else if n = 3 then some .gate
  else if n = 4 then some .sample
  else none

/-- The bit that selects the waveform in an oscillator's flags. -/
def flag : Waveform → Nat
  | .sine => 0x40
  | .trisaw => 0x20
  | .pulse => 0x10
  | .gate => 0x04
  | .sample => 0x80

end Waveform

end ModularSynth
