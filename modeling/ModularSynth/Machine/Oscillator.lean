-- Oscillators. Each channel sounds up to four times at once, in unison. The phase of a
-- sounding moves on by its pitch and by what was sent to the frequency port, and only a
-- recording does not wrap it. A gate remembers its level in the cell of the third phase.
import ModularSynth.Audio.SampleTable
import ModularSynth.Machine.Shaping
import ModularSynth.Machine.State

namespace ModularSynth

open Signal

/-- The parameters of an oscillator in one frame. -/
structure Oscillator where
  transpose : Signal
  detune : Signal
  phase : Signal
  color : Signal
  shape : Signal
  gain : Signal
  flags : UInt8
  note : Note
  /-- What was sent to the frequency port. -/
  frequency : Signal
  /-- The sixteen steps of a gate. -/
  gateBits : UInt16
  /-- The recording and the table it lies in, if the oscillator plays one. -/
  recording : SampleOffset
  samples : SampleTable

namespace Oscillator

/-! ## Flags -/

/-- Is a flag of the oscillator set? -/
def has (flags flag : UInt8) : Bool :=
  flags &&& flag != 0

def isRecording (flags : UInt8) : Bool := has flags 0x80

/-- Is the oscillator a slow one, whose pitch does not follow the note? -/
def isSlow (flags : UInt8) : Bool := has flags 0x08

/-- Is the oscillator a gate, whose signal is not bent? -/
def isGate (flags : UInt8) : Bool := has flags 0x04

/-- How many soundings there are besides the first. -/
def unison (flags : UInt8) : Nat := (flags &&& 3).toNat

/-! ## Phases -/

/-- How far a phase moves in a frame. -/
def phaseStep (o : Oscillator) (detune : Signal) : Signal :=
  let pitch := (64.0 * bipolar o.transpose + detune).toFloat
  let pitch := if isSlow o.flags then pitch else pitch + o.note.toFloat
  let speed := Float.exp2 (pitch * 0.083333333333)
  let speed := speed * (if isSlow o.flags then 0.000038 else 0.000092696138)
  (speed + o.frequency.toFloat).toFloat32

/-- The place in memory of the phase of a sounding. -/
def phaseCell (channel sounding : Nat) : Nat :=
  channel + sounding * 2

/-- Move the phase of a sounding on. -/
def moveOn (o : Oscillator) (channel sounding : Nat) (detune : Signal) (slot : Slot) : Slot :=
  let cell := phaseCell channel sounding
  slot.setCell cell (slot.cell cell + o.phaseStep detune)

/-- A phase without its whole part; phases above -1 come to lie between 0 and 1. -/
def wrap (phase : Signal) : Signal :=
  phase - (whole (phase + 1.0) - 1).toFloat32

/-! ## Waves -/

/-- The index of the sample that a phase plays. From the start of the loop on it goes
around. -/
def sampleIndex (offset : SampleOffset) (phase : Signal) : Int :=
  let index := (phase * 84.28074964676522 + 0.5).toInt64.toInt
  let loopStart : Int := offset.loopStart.toNat
  let index :=
    if index ≥ loopStart then
      (index - loopStart).tmod (max offset.loopLength.toNat 1) + loopStart
    else index
  index + offset.start.toNat

/-- A sine that takes up the part of the phase below the color. -/
def sine (phase color : Signal) : Signal :=
  if phase < color then
    (Float.sin (2.0 * 3.141592653589793 * (phase / color).toFloat)).toFloat32
  else 0.0

/-- A ramp that turns around at the color. -/
def trisaw (phase color : Signal) : Signal :=
  if phase ≥ color then (1.0 - phase) / (1.0 - color) * 2.0 - 1.0
  else phase / color * 2.0 - 1.0

/-- High below the color, low from there on. -/
def pulse (phase color : Signal) : Signal :=
  if phase ≥ color then -1.0 else 1.0

/-- The step of a gate at a phase, as zero or one. -/
def gateStep (bits : UInt16) (phase : Signal) : Signal :=
  let step := (whole (phase * 16.0 + 0.5)).toUInt32 &&& 15
  ((bits.toUInt32 >>> step) &&& 1).toFloat32

/-- A gate follows its steps with a delay. -/
def gateFollow (memory step : Signal) : Signal :=
  step + 0.99609375 * (memory - step)

/-- The wave at a phase, whose whole part is gone, and the memory of the gate after it. -/
def wave (o : Oscillator) (phase memory : Signal) : Signal × Signal :=
  if has o.flags 0x40 then (sine phase o.color, memory)
  else if has o.flags 0x20 then (trisaw phase o.color, memory)
  else if has o.flags 0x10 then (pulse phase o.color, memory)
  else if isGate o.flags then
    let level := gateFollow memory (gateStep o.gateBits phase)
    (level, level)
  else (0.0, memory)

/-- The output of a wave: bent, unless it is a gate's, and made louder or softer. -/
def shaped (o : Oscillator) (x : Signal) : Signal :=
  if isGate o.flags then x * o.gain else bend x o.shape * o.gain

/-! ## Soundings -/

/-- One sounding of a channel: the memory after it and its output. `phase` is added to the
phase in memory. -/
def sound (o : Oscillator) (channel sounding : Nat) (detune phase : Signal) (slot : Slot) :
    Slot × Signal :=
  let slot := o.moveOn channel sounding detune slot
  let cell := phaseCell channel sounding
  if isRecording o.flags then
    (slot, o.shaped (o.samples.read (sampleIndex o.recording (slot.cell cell + phase))))
  else
    let slot := slot.setCell cell (wrap (slot.cell cell))
    let place := slot.cell cell + phase
    let place := place - (whole place).toFloat32
    let (x, memory) := o.wave place (slot.cell (4 + channel))
    (slot.setCell (4 + channel) memory, o.shaped x)

/-- The soundings of a channel from one on, of which `more` follow: the memory, the phase
and the output after them. Between soundings the phase moves on by a twelfth, and the
detuning halves and changes sides. -/
def soundAll (o : Oscillator) (channel : Nat) :
    (more sounding : Nat) → (detune phase output : Signal) → Slot → Slot × Signal × Signal
  | more, sounding, detune, phase, output, slot =>
    let (slot, x) := o.sound channel sounding detune phase slot
    let output := output + x
    match more with
    | 0 => (slot, phase, output)
    | more + 1 =>
      soundAll o channel more (sounding + 1) (-detune * 0.5) (phase + 0.08333333) output slot

/-- The channels from one on: the memory and the phase after them, and their outputs, last
on top. The phase goes on from channel to channel and the detuning changes sides. -/
def channels (o : Oscillator) :
    (count channel : Nat) → (detune phase : Signal) → Slot → List Signal →
      Slot × Signal × List Signal
  | 0, _, _, phase, slot, outputs => (slot, phase, outputs)
  | count + 1, channel, detune, phase, slot, outputs =>
    let (slot, phase, x) := o.soundAll channel (unison o.flags) 0 detune phase 0.0 slot
    channels o count (channel + 1) (-detune) phase slot (x :: outputs)

/-- A frame of an oscillator: the memory and the phase after it, and the outputs on top of a
stack. -/
def run (o : Oscillator) (count : Nat) (slot : Slot) (stack : List Signal) :
    Slot × Signal × List Signal :=
  o.channels count 0 (bipolar o.detune) o.phase slot stack

/-- What is left in memory if the recording is missing: the first phase has moved. -/
def abandoned (o : Oscillator) (slot : Slot) : Slot :=
  o.moveOn 0 0 (bipolar o.detune) slot

end Oscillator

end ModularSynth
