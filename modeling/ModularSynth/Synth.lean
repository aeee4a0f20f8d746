-- A synth that plays a patch: it starts and lets go of notes, takes a new patch while it
-- plays, and renders into a buffer.
import ModularSynth.Bytecode.Assembly
import ModularSynth.Machine.Render

namespace ModularSynth

/-- What a render call reports: how far it got, and why it could not go on. -/
structure RenderReport where
  progress : Progress
  fault : Option RenderFault := none
  deriving DecidableEq, Repr, Inhabited

namespace RenderReport

/-- The report as an error, if rendering failed. -/
def result (r : RenderReport) : Except RenderError Progress :=
  match r.fault with
  | none => .ok r.progress
  | some fault => .error ⟨r.progress, fault⟩

end RenderReport

/-- How a synth is made, apart from the patch. -/
structure SynthOptions where
  /-- Is a signal that is no finite number a fault? -/
  trap : Bool := false
  samples : SampleTable := {}
  deriving Inhabited

/-- A synth on one core. -/
structure Synth where
  program : Program
  machine : Machine
  deriving Inhabited

namespace Synth

/-- A synth for a patch, with as many delay lines as the patch asks for. -/
def create (options : SynthOptions) (patch : Patch) (bpm : Nat) : Except CompileError Synth := do
  let bytecode ← Bytecode.compile patch .all bpm
  return {
    program := { bytecode, samples := options.samples, trap := options.trap }
    machine := .fresh patch.numDelayLines }

def trigger (s : Synth) (voice : Nat) (note : Note) : Synth :=
  { s with machine := s.machine.trigger voice note }

/-- Let go of the note of a voice. -/
def release (s : Synth) (voice : Nat) : Synth :=
  { s with machine := s.machine.release voice }

/-- Take a bytecode in the place of the one that was played. What units remember is kept
if the units are the same. -/
def load (s : Synth) (bytecode : Bytecode) (delayLines : Nat) : Synth :=
  let machine := s.machine.reserveLines delayLines
  { program := { s.program with bytecode }
    machine :=
      if bytecode.opcodes = s.program.bytecode.opcodes then machine else machine.refresh }

def update (s : Synth) (patch : Patch) (bpm : Nat) : Except CompileError Synth := do
  return s.load (← Bytecode.compile patch .all bpm) patch.numDelayLines

/-- Render into a buffer until it is full or the time is up. The buffer is written over as
far as frames are done. -/
def render (s : Synth) (buffer : Audio) (maxTime : Int) : Synth × Audio × RenderReport :=
  let { program, machine } := s
  let r := program.render machine buffer.length maxTime
  ({ program, machine := r.machine }, buffer.overwrite r.frames, ⟨r.progress, r.fault⟩)

/-- The number of load figures given when there is room for so many. -/
def loadCount (_ : Synth) (room : Nat) : Nat :=
  min room 1

end Synth

end ModularSynth
