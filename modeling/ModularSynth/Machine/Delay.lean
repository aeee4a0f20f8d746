-- Delays. A channel is the sum of what its lines took in some time ago; each line then
-- takes in the signal and, damped, part of what it gave out.
import ModularSynth.Machine.Fault
import ModularSynth.Machine.Shaping
import ModularSynth.Machine.State

namespace ModularSynth

open Signal

/-- The parameters of a delay in one frame. -/
structure Delay where
  pregain : Signal
  dry : Signal
  feedback : Signal
  damp : Signal
  /-- What was sent to the delay time port. -/
  modulation : Signal
  /-- The factor by which a delay that tracks notes is shorter, if it does. -/
  tracking : Option Signal
  clock : UInt16
  times : Array UInt16

namespace Delay

/-- How many samples ago a line of this delay time is read. -/
def distance (d : Delay) (time : UInt16) : UInt16 :=
  let delay := time.toFloat32 + d.modulation * 32767.0
  let delay := match d.tracking with
    | some ratio => delay / ratio
    | none => delay
  (whole (delay + 0.5)).toUInt32.toUInt16

def read (d : Delay) (line : DelayLine) (time : UInt16) : Signal :=
  line.sample (d.clock - d.distance time)

/-- A line after it gave something out and took a signal in. -/
def write (d : Delay) (signal delayed : Signal) (line : DelayLine) : DelayLine :=
  let damped := d.damp * line.damped + (1.0 - d.damp) * delayed
  { line with damped }.setSample d.clock (d.feedback * damped + d.pregain * d.pregain * signal)

/-- The place of a delay among the delay times and lines. -/
structure Cursor where
  time : Nat
  line : Nat

/-- So many lines of a channel, added to an output. On a fault the lines before it have
been written. -/
def runLines (d : Delay) (signal : Signal) :
    (count : Nat) → Cursor → (output : Signal) → Array DelayLine →
      Array DelayLine × Except RenderFault (Cursor × Signal)
  | 0, place, output, lines => (lines, .ok (place, output))
  | count + 1, place, output, lines =>
    match lines[place.line]? with
    | none => (lines, .error .delayLinesExhausted)
    | some line =>
      match d.times[place.time]? with
      | none => (lines, .error (.invalidDelayTime place.time))
      | some time =>
        let delayed := d.read line time
        runLines d signal count ⟨place.time + 1, place.line + 1⟩ (output + delayed)
          (lines.modify place.line (d.write signal delayed))

/-- The output of a channel without its constant part, whose memory is in a line. -/
def centered (output : Signal) (line : DelayLine) : Signal :=
  output + (0.99609375 * line.dcOutput - line.dcInput)

/-- A channel of a delay with so many lines; there must be at least one. -/
def runChannel (d : Delay) (count : Nat) (place : Cursor) (signal : Signal)
    (lines : Array DelayLine) : Array DelayLine × Except RenderFault (Cursor × Signal) :=
  match d.runLines signal count place (d.dry * signal) lines with
  | (lines, .error fault) => (lines, .error fault)
  | (lines, .ok (place, output)) =>
    if count = 0 then (lines, .error .delayLinesExhausted)
    else
      match lines[place.line - 1]? with
      | none => (lines, .error .delayLinesExhausted)
      | some last =>
        let y := centered output last
        (lines.modify (place.line - 1) fun line => { line with dcOutput := y, dcInput := output },
          .ok (place, y))

end Delay

end ModularSynth
