-- Running a single unit. It takes its operands, empties the ports that modulate them and
-- changes the stack and what the machine remembers. When a unit fails, what has been
-- changed up to there stays changed.
import ModularSynth.Bytecode.SendAddress
import ModularSynth.Catalogue.Parameter
import ModularSynth.Catalogue.StackEffect
import ModularSynth.Machine.Delay
import ModularSynth.Machine.Oscillator
import ModularSynth.Machine.Processors
import ModularSynth.Machine.Stack

namespace ModularSynth

open Signal

/-- What a machine runs: a bytecode, the recordings it plays, and whether a signal that is
no finite number is a fault. -/
structure Program where
  bytecode : Bytecode
  samples : SampleTable := {}
  trap : Bool := false
  deriving Inhabited

/-- The middle of a frame: the machine, the stack, the operands to come, the next delay
line, and the time so far. -/
structure Moment where
  machine : Machine
  stack : Stack
  operands : List UInt8
  line : Nat
  time : Int
  /-- An array for the parameters of units. Each unit writes its own over the first ones, and
  nothing empties the array between units or frames. -/
  scratch : List Signal
  deriving Inhabited

/-- The array of parameters when rendering starts. -/
def Moment.scratchStart : List Signal := List.replicate 8 0.0

/-- Steps of a machine, which may fail and leave behind what they changed. -/
abbrev Exec := EStateM RenderFault Moment

/-- A unit about to run. -/
structure RunningUnit where
  kind : UnitKind
  stereo : Bool
  voice : Nat
  slot : Nat
  note : Note
  /-- Whether the note of the voice is still held. -/
  held : Bool
  /-- The bytes of the leading operands. -/
  leading : List UInt8
  /-- The leading operands as parameters, with what was sent to their ports, and after them
  what earlier units have left in the array. -/
  params : List Signal
  /-- The operands after the leading ones. -/
  extras : List UInt8

namespace RunningUnit

def channels (u : RunningUnit) : Nat :=
  if u.stereo then 2 else 1

def param (u : RunningUnit) (i : Nat) : Signal :=
  u.params[i]?.getD 0.0

def byte (u : RunningUnit) (i : Nat) : UInt8 :=
  u.leading[i]?.getD 0

def extra (u : RunningUnit) (i : Nat) : UInt8 :=
  u.extras[i]?.getD 0

/-! ## Changing parts of the moment -/

def onStack (f : Stack → Stack) : Exec Unit :=
  modify fun s => { s with stack := f s.stack }

/-- Change the machine by the stack, from which so many signals are then taken. -/
def consume (count : Nat) (f : Stack → Machine → Machine) : Exec Unit :=
  modify fun s => { s with machine := f s.stack s.machine, stack := s.stack.drop count }

/-- Change the memory of the unit and the stack. -/
def onSlot (u : RunningUnit) (f : Slot → Stack → Slot × Stack) : Exec Unit :=
  modify fun s =>
    let (slot, stack) := f (s.machine.slot u.voice u.slot) s.stack
    { s with machine := s.machine.adjustSlot u.voice u.slot fun _ => slot, stack }

/-! ## The bus -/

/-- Mix the signals on top of the stack into a channel of the bus and, in stereo, the one
after it. -/
def mixTop (u : RunningUnit) (channel : Nat) (gain : Signal) (stack : Stack) (m : Machine) :
    Machine :=
  match u.stereo, stack with
  | false, a :: _ => m.mixInto channel (gain * a)
  | true, a :: b :: _ => (m.mixInto channel (gain * a)).mixInto (channel + 1) (gain * b)
  | _, _ => m

/-- The channel of the bus that the unit names, if it and those after it exist. -/
def busChannel (u : RunningUnit) : Exec Nat :=
  let channel := (u.extra 0).toNat
  if channel + u.channels > 8 then throw (.invalidChannel channel) else pure channel

/-- Move the signal of a channel of the bus to the stack. -/
def takeChannel (channel : Nat) : Exec Unit :=
  modify fun s =>
    { s with stack := s.machine.channel channel :: s.stack, machine := s.machine.silence channel }

/-! ## Units with operands of their own -/

def noise (u : RunningUnit) : (channels : Nat) → Moment → Moment
  | 0, s => s
  | n + 1, s =>
    let (x, machine) := s.machine.random
    noise u n { s with machine, stack := bend x (u.param 0) * u.param 1 :: s.stack }

/-- Send the signals on top of the stack to ports of a unit, from a port on. -/
def deposit (amount : Signal) : (channels port : Nat) → Stack → Slot → Slot
  | n + 1, port, x :: stack, slot =>
    deposit amount n (port + 1) stack (slot.addToPort port (x * amount))
  | _, _, _, slot => slot

def send (u : RunningUnit) : Exec Unit := do
  let address : SendAddress := (u.extra 0).toUInt16 ||| (u.extra 1).toUInt16 <<< 8
  let voice := address.voice?.getD u.voice
  if address.place = 0 ∨ maxVoices ≤ voice then throw (.invalidSendTarget address)
  else
    modify fun s =>
      { s with
        machine := s.machine.adjustSlot voice (address.place - 1)
          (deposit (bipolar (u.param 0)) u.channels address.port s.stack)
        stack := if address.pops then s.stack.drop u.channels else s.stack }

/-- The oscillator that the unit is in this frame. -/
def oscillator (u : RunningUnit) (p : Program) (recording : SampleOffset) (slot : Slot) :
    Oscillator where
  transpose := u.param 0
  detune := u.param 1
  phase := u.param 2
  color := u.param 3
  shape := u.param 4
  gain := u.param 5
  flags := u.extra 0
  note := u.note
  frequency := slot.port 6
  gateBits := (u.byte 3).toUInt16 ||| (u.byte 4).toUInt16 <<< 8
  recording
  samples := p.samples

/-- An oscillator. Its color names the recording, if it plays one. The phase that it has
gone on to stays in the array of parameters. -/
def runOscillator (u : RunningUnit) (p : Program) : Exec Unit := do
  let number := (u.byte 3).toNat
  match Oscillator.isRecording (u.extra 0), p.bytecode.sampleOffsets[number]? with
  | true, none =>
    u.onSlot fun slot stack => ((u.oscillator p default slot).abandoned slot, stack)
    throw (.invalidSample number)
  | _, recording =>
    modify fun s =>
      let slot := s.machine.slot u.voice u.slot
      let (slot, phase, stack) :=
        (u.oscillator p (recording.getD default) slot).run u.channels slot s.stack
      { s with
        machine := s.machine.adjustSlot u.voice u.slot fun _ => slot.clearPort 6
        stack, scratch := s.scratch.set 2 phase }

/-- The channels of a delay, lowest signal of the stack first. -/
def delayChannels (d : Delay) (count : Nat) (place : Delay.Cursor) (lines : Array DelayLine) :
    List Signal → Array DelayLine × Except RenderFault (Delay.Cursor × List Signal)
  | [] => (lines, .ok (place, []))
  | x :: rest =>
    match delayChannels d count place lines rest with
    | (lines, .error fault) => (lines, .error fault)
    | (lines, .ok (place, ys)) =>
      match d.runChannel count place x lines with
      | (lines, .error fault) => (lines, .error fault)
      | (lines, .ok (place, y)) => (lines, .ok (place, y :: ys))

/-- The delay that the unit is in this frame. -/
def delay (u : RunningUnit) (p : Program) (m : Machine) : Delay where
  pregain := u.param 0
  dry := u.param 1
  feedback := u.param 2
  damp := u.param 3
  modulation := (m.slot u.voice u.slot).port 4
  tracking := if u.extra 1 % 2 = 0 then some (noteRatio u.note) else none
  clock := m.clock.toUInt16
  times := p.bytecode.delayTimes

def runDelay (u : RunningUnit) (p : Program) : Exec Unit := fun s =>
  let d := u.delay p s.machine
  let count := ((u.extra 1).toNat + 1) / 2
  let { machine, stack, operands, line, time, scratch } := s
  let { bus, seed, clock, voices, lines } := machine
  match delayChannels d count ⟨(u.extra 0).toNat, line⟩ lines (stack.take u.channels) with
  | (lines, .error fault) =>
    .error fault
      { machine := { bus, seed, clock, voices, lines }, stack, operands, line, time, scratch }
  | (lines, .ok (place, ys)) =>
    let machine := { bus, seed, clock, voices, lines : Machine }
    .ok ()
      { machine := machine.adjustSlot u.voice u.slot (·.clearPort 4)
        stack := ys ++ stack.drop u.channels
        operands, line := place.line, time, scratch }

/-- A compressor: the factor for the signal on top of the stack, on each channel. -/
def compressor (u : RunningUnit) (slot : Slot) (stack : Stack) : Slot × Stack :=
  let p : Compressor.Params := ⟨u.param 0, u.param 1, u.param 2, u.param 3, u.param 4⟩
  let input := match u.stereo, stack with
    | false, a :: _ => a * a
    | true, a :: b :: _ => a * a + b * b
    | _, _ => 0.0
  let level := Compressor.follow p (slot.cell 0) input
  (slot.setCell 0 level, stack.pushAll u.channels (Compressor.gain p level))

/-- An envelope: its level on each channel. -/
def envelope (u : RunningUnit) (slot : Slot) (stack : Stack) : Slot × Stack :=
  let p : Envelope.Params := ⟨u.param 0, u.param 1, u.param 2, u.param 3⟩
  let (stage, level) := Envelope.step p u.held (slot.cell 0) (slot.cell 1)
  ((slot.setCell 0 stage).setCell 1 level, stack.pushAll u.channels (level * u.param 4))

/-- What has been sent to a receiver, and its empty ports. -/
def receive (u : RunningUnit) (slot : Slot) (stack : Stack) : Slot × Stack :=
  if u.stereo then ((slot.clearPort 1).clearPort 0, slot.port 0 :: slot.port 1 :: stack)
  else (slot.clearPort 0, slot.port 0 :: stack)

/-- A change of speed: the time moves by more or less than a frame. -/
def speed (u : RunningUnit) : Exec Unit :=
  modify fun s =>
    match s.stack with
    | [] => s
    | x :: stack =>
      let (frames, leftover) := speedStep ((s.machine.slot u.voice u.slot).cell 0) x
      { s with
        machine := s.machine.adjustSlot u.voice u.slot (·.setCell 0 leftover)
        stack, time := s.time + frames }

/-! ## All units -/

def run (u : RunningUnit) (p : Program) : Exec Unit :=
  match u.kind with
  | .add => onStack (Stack.combine (· + ·) u.stereo)
  | .addp => onStack (Stack.combinePop (· + ·) u.stereo)
  | .mul => onStack (Stack.combine (· * ·) u.stereo)
  | .mulp => onStack (Stack.combinePop (· * ·) u.stereo)
  | .xch => onStack (Stack.exchange u.stereo)
  | .push => onStack (Stack.duplicate u.stereo)
  | .pop => onStack (·.drop u.channels)
  | .pan => onStack (Stack.pan (u.param 0) u.stereo)
  | .sync => pure ()
  | .distort => onStack (Stack.mapTop (bend · (u.param 0)) u.channels)
  | .gain => onStack (Stack.mapTop (· * u.param 0) u.channels)
  | .invgain => onStack (Stack.mapTop (· / u.param 0) u.channels)
  | .dbgain => onStack (Stack.mapTop (· * decibels (u.param 0)) u.channels)
  | .clip => onStack (Stack.mapTop clip u.channels)
  | .crush => onStack (Stack.mapTop (crush · (u.param 0)) u.channels)
  | .loadval => onStack (Stack.pushAll u.channels (bipolar (u.param 0)))
  | .loadnote => onStack (Stack.pushAll u.channels (ofNote u.note))
  | .out => consume u.channels (u.mixTop 0 (u.param 0))
  | .outaux =>
    consume u.channels fun stack m =>
      u.mixTop 2 (u.param 1) stack (u.mixTop 0 (u.param 0) stack m)
  | .aux => do
    let channel ← u.busChannel
    consume u.channels (u.mixTop channel (u.param 0))
  | .input => do
    let channel ← u.busChannel
    if u.stereo then takeChannel (channel + 1)
    takeChannel channel
  | .noise => modify (u.noise u.channels)
  | .envelope => u.onSlot u.envelope
  | .compressor => u.onSlot u.compressor
  | .receive => u.onSlot u.receive
  | .hold => u.onSlot fun slot => eachChannel (holdChannel (u.param 0)) slot u.channels 0
  | .filter =>
    u.onSlot fun slot =>
      eachChannel (filterChannel (u.param 0) (u.param 1) (u.extra 0)) slot u.channels 0
  | .speed => u.speed
  | .send => u.send
  | .oscillator => u.runOscillator p
  | .delay => u.runDelay p

end RunningUnit

end ModularSynth
