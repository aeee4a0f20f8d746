-- How busy a synth is: the time it took to render against the time it rendered.
import ModularSynth.Song

namespace ModularSynth

/-- The load of rendering so many samples in so many nanoseconds: one if it took exactly
as long as the samples last, and zero if there are none. -/
def measuredLoad (nanoseconds samples : Nat) : Float :=
  if samples = 0 then 0.0
  else
    let second := 1000000000
    let elapsed := (nanoseconds / second).toFloat + (nanoseconds % second).toFloat / 1.0e9
    elapsed / (samples.toFloat / sampleRate.toFloat)

end ModularSynth
