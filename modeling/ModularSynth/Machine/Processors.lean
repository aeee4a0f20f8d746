-- The units that remember something from frame to frame. Each is one step from what it
-- remembers, its parameters and its input to what it remembers next and its output.
import ModularSynth.Machine.Shaping
import ModularSynth.Machine.State

namespace ModularSynth

open Signal

/-! ## Envelopes -/

namespace Envelope

/-- The stages of an envelope, as a cell holds them. -/
def attackStage : Signal := 0.0

/-- The stage in which the level falls to the sustain level. -/
def decayStage : Signal := 1.0

/-- The stage after the note has been let go. -/
def releaseStage : Signal := 3.0

/-- The speeds and levels of an envelope. -/
structure Params where
  attack : Signal
  decay : Signal
  sustain : Signal
  release : Signal

/-- The next stage and level. -/
def step (p : Params) (held : Bool) (stage level : Signal) : Signal × Signal :=
  let stage := if held then stage else releaseStage
  if stage == attackStage then
    let level := level + speedOf p.attack
    if level ≥ 1.0 then (decayStage, 1.0) else (stage, level)
  else if stage == decayStage then
    let level := level - speedOf p.decay
    (stage, if level ≤ p.sustain then p.sustain else level)
  else if stage == releaseStage then
    let level := level - speedOf p.release
    (stage, if level ≤ 0.0 then 0.0 else level)
  else (stage, level)

end Envelope

/-! ## Holds -/

/-- A sample held for some time: the next phase, the held sample and so the output. A new
sample is taken when the phase has run out. -/
def holdStep (frequency phase held input : Signal) : Signal × Signal :=
  let phase := phase - frequency * frequency
  if phase ≤ 0.0 then (phase + 1.0, input) else (phase, held)

/-! ## Filters -/

namespace Filter

/-- Does the filter take part of this flag? -/
def has (flags flag : UInt8) : Bool :=
  flags &&& flag == flag

/-- What a filter lets out of its three bands. -/
def output (flags : UInt8) (low band high : Signal) : Signal :=
  let out := 0.0
  let out := if has flags 0x40 then out + low else out
  let out := if has flags 0x20 then out + band else out
  let out := if has flags 0x10 then out + high else out
  let out := if has flags 0x08 then out - band else out
  if has flags 0x04 then out - high else out

/-- The next low and band signals, and the output. -/
def step (frequency resonance : Signal) (flags : UInt8) (low band input : Signal) :
    Signal × Signal × Signal :=
  let speed := frequency * frequency
  let low := low + speed * band
  let high := input - low - resonance * band
  let band := band + speed * high
  (low, band, output flags low band high)

end Filter

/-! ## Compressors -/

namespace Compressor

/-- The parameters of a compressor. -/
structure Params where
  attack : Signal
  release : Signal
  inverseGain : Signal
  threshold : Signal
  ratio : Signal

/-- The level that a compressor follows, given the square of its input. -/
def follow (p : Params) (level input : Signal) : Signal :=
  let speed := speedOf (if input < level then p.release else p.attack)
  level + (input - level) * speed

/-- The factor for the signal at a level. -/
def gain (p : Params) (level : Signal) : Signal :=
  let threshold := p.threshold * p.threshold
  let gain :=
    if level > threshold then
      (Float.pow (threshold / level).toFloat (p.ratio / 2.0).toFloat).toFloat32
    else 1.0
  gain / p.inverseGain

end Compressor

/-! ## Speed -/

/-- How far the time moves beyond one frame, and what is left over of it for the next. -/
def speedStep (leftover input : Signal) : Int × Signal :=
  let shift := leftover + (Float.exp2 (input * 2.206896551724138).toFloat - 1.0).toFloat32
  let frames := whole (shift + 1.5) - 1
  (frames.toInt, shift - frames.toFloat32)

/-! ## Channels -/

/-- Run a step on each of the first `channels` signals, left first. The step is given the
number of the channel. -/
def eachChannel (step : Nat → Slot → Signal → Slot × Signal) (slot : Slot) :
    (channels : Nat) → (channel : Nat) → List Signal → Slot × List Signal
  | n + 1, channel, x :: s =>
    let (slot, y) := step channel slot x
    let (slot, s) := eachChannel step slot n (channel + 1) s
    (slot, y :: s)
  | _, _, s => (slot, s)

/-- The hold on a channel. The phases come first in memory, then the held samples. -/
def holdChannel (frequency : Signal) (channel : Nat) (slot : Slot) (x : Signal) : Slot × Signal :=
  let (phase, held) := holdStep frequency (slot.cell channel) (slot.cell (2 + channel)) x
  ((slot.setCell (2 + channel) held).setCell channel phase, held)

/-- The filter on a channel. The low signals come first in memory, then the bands. -/
def filterChannel (frequency resonance : Signal) (flags : UInt8) (channel : Nat) (slot : Slot)
    (x : Signal) : Slot × Signal :=
  let (low, band, y) :=
    Filter.step frequency resonance flags (slot.cell channel) (slot.cell (2 + channel)) x
  ((slot.setCell channel low).setCell (2 + channel) band, y)

end ModularSynth
