-- The curves that units bend signals with. Sums, products and quotients are taken in
-- single precision; powers, sines and roundings in double precision and then cut down.
import ModularSynth.Audio.Frame

namespace ModularSynth.Signal

/-- A parameter between 0 and 1 as the speed of a change: the greater, the slower. -/
def speedOf (x : Signal) : Signal :=
  (Float.exp2 (-24.0 * x).toFloat).toFloat32

/-- A signal in steps, which are the coarser the lower the resolution. -/
def crush (x resolution : Signal) : Signal :=
  let step := speedOf resolution
  (x / step).toFloat.round.toFloat32 * step

/-- A signal bent towards or away from the extremes. -/
def bend (x amount : Signal) : Signal :=
  x * amount / (1.0 - amount + (2.0 * amount - 1.0) * x.abs)

/-- The factor for a parameter that spans 40 decibels either way. -/
def decibels (x : Signal) : Signal :=
  (Float.pow 2.0 ((x * 2.0 - 1.0).toFloat * 6.643856189774724)).toFloat32

/-- A parameter between 0 and 1 spread from -1 to 1. -/
def bipolar (x : Signal) : Signal :=
  x * 2.0 - 1.0

/-- The whole part of a signal, as 32 bits can hold it. -/
def whole (x : Signal) : Int32 :=
  x.toInt32

/-- The level of a note as a signal: note 64 is zero. -/
def ofNote (note : UInt8) : Signal :=
  note.toFloat32 / 64.0 - 1.0

/-- The factor between a note and note zero: twelve notes double it. -/
def noteRatio (note : UInt8) : Signal :=
  (Float.exp2 (note.toFloat * 0.083333333333)).toFloat32

end ModularSynth.Signal
