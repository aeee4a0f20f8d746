-- Running a bytecode frame by frame. A frame runs the units of every instrument once for
-- each of its voices, in order, and must end with the stack at its floor. Rendering stops
-- when it has enough frames, when the time is up, or at the first fault. Units run in the
-- ordinary way unless another one is given.
import ModularSynth.Machine.Execute

namespace ModularSynth

/-! ## Units -/

/-- Split off exactly so many elements, if there are as many. -/
def splitExactly {α : Type} : Nat → List α → Option (List α × List α)
  | 0, xs => some ([], xs)
  | _ + 1, [] => none
  | n + 1, x :: xs => (splitExactly n xs).map fun (taken, rest) => (x :: taken, rest)

namespace Program

/-- How many signals a unit must find on the stack. Those that steer time do not care for
stereo. -/
def stackNeed (kind : UnitKind) (stereo : Bool) : Nat :=
  match kind with
  | .speed => 1
  | .sync => 0
  | kind => (kind.stackEffect stereo).inputs

/-- The parameters of a unit: its leading operands, to which its ports are added. -/
def params (slot : Slot) (leading : List UInt8) : List Signal :=
  leading.zipIdx.map fun (b, i) => b.toFloat32 / 128.0 + slot.port i

def takeOperands (count : Nat) : Exec (List UInt8) := do
  match splitExactly count (← get).operands with
  | none => throw .operandsEnded
  | some (taken, rest) =>
    modify fun s => { s with operands := rest }
    return taken

/-- A fault if the signal on top of the stack is no finite number. -/
def trapTop (p : Program) (kind : UnitKind) : Exec Unit := do
  match p.trap, (← get).stack with
  | true, x :: _ => if x.isFinite then pure () else throw (.nonFinite kind)
  | _, _ => pure ()

/-- Run the unit of an opcode byte. -/
def runUnit (p : Program) (voice slot : Nat) (op : UInt8)
    (run : RunningUnit → Exec Unit := (·.run p)) : Exec Unit := do
  match UnitKind.ofOpcode? (op >>> 1).toNat with
  | none => throw (.invalidOpcode op)
  | some kind =>
    let stereo := op % 2 == 1
    if maxUnits ≤ slot then throw .tooManyUnits
    if (← get).stack.length < stackNeed kind stereo then throw .stackUnderflow
    let leading ← takeOperands kind.operandCount
    let s ← get
    let v := s.machine.voice voice
    let params := params (v.slot slot) leading ++ s.scratch.drop kind.operandCount
    let (note, held) := (v.note, v.sustain)
    modify fun s =>
      { s with
        machine := s.machine.adjustSlot voice slot (·.clearPorts kind.operandCount)
        scratch := params }
    let extras ← takeOperands kind.extraOperandCount
    run { kind, stereo, voice, slot, note, held, leading, params, extras }
    p.trapTop kind

/-! ## Voices -/

/-- Run the units of a voice, from one on. Gives the opcodes after the end of its
instrument. -/
def runUnits (p : Program) (voice slot : Nat) :
    List UInt8 → (run : RunningUnit → Exec Unit := (·.run p)) → Exec (List UInt8)
  | [], _ => throw .opcodesEnded
  | op :: rest, run => do
    if op >>> 1 = 0 then return rest
    else
      p.runUnit voice slot op run
      runUnits p voice (slot + 1) rest run

/-- Does the voice with so many after it play the same instrument as the next one? -/
def repeats (p : Program) (left : Nat) : Bool :=
  (p.bytecode.polyphony >>> left.toUInt32) % 2 == 1

/-- Run voices from one on, of which there are so many left. -/
def runVoices (p : Program) : (left voice : Nat) → List UInt8 →
    (run : RunningUnit → Exec Unit := (·.run p)) → Exec Unit
  | 0, _, _, _ => pure ()
  | left + 1, voice, opcodes, run => do
    let operands := (← get).operands
    let rest ← p.runUnits voice 0 opcodes run
    if p.repeats left then
      modify fun s => { s with operands }
      runVoices p left (voice + 1) opcodes run
    else runVoices p left (voice + 1) rest run

/-! ## Frames -/

/-- Run all voices, and check that the stack ends at its floor. -/
def runFrame (p : Program) (run : RunningUnit → Exec Unit := (·.run p)) : Exec Unit := do
  p.runVoices p.bytecode.voices 0 p.bytecode.opcodes run
  let depth := (← get).stack.length
  if depth < Stack.floor then throw .stackUnderflow
  if Stack.floor < depth then throw (.stackNotEmpty (depth - Stack.floor))

/-- What rendering leaves behind. -/
structure Rendering where
  machine : Machine
  /-- The frames that are done. -/
  frames : Audio
  progress : Progress
  fault : Option RenderFault
  deriving Inhabited

/-- Render frames from one on: at most so many, and none once the time is up. `done` are
the frames before, last first. -/
def renderFrom (p : Program) (maxTime : Int) :
    (frames : Nat) → Machine → Stack → (scratch : List Signal) → Progress →
      (done : List Frame) → (run : RunningUnit → Exec Unit := (·.run p)) → Rendering
  | 0, machine, _, _, progress, done, _ => ⟨machine, done.reverse, progress, none⟩
  | frames + 1, machine, stack, scratch, progress, done, run =>
    if progress.time < maxTime then
      match (p.runFrame run).run
        ⟨machine, stack, p.bytecode.operands, 0, progress.time, scratch⟩ with
      | .ok _ s =>
        renderFrom p maxTime frames s.machine.advance s.stack s.scratch
          ⟨progress.samples + 1, s.time + 1⟩ (s.machine.output :: done) run
      | .error fault s => ⟨s.machine, done.reverse, { progress with time := s.time }, some fault⟩
    else ⟨machine, done.reverse, progress, none⟩

/-- Render at most so many frames, in no more than the time. -/
def render (p : Program) (machine : Machine) (frames : Nat) (maxTime : Int)
    (run : RunningUnit → Exec Unit := (·.run p)) : Rendering :=
  p.renderFrom maxTime frames machine Stack.start Moment.scratchStart {} [] run

end Program

end ModularSynth
