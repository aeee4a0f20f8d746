-- Rendering plays no keys. Whatever bytecode runs, in whatever state and whether or not it
-- ends in a fault, every voice keeps its note and whether that is held.
import ModularSynth.Proofs.FrameRuns
import ModularSynth.Proofs.UnitRuns
import ModularSynth.Synth

namespace ModularSynth

/-- The keys of all voices are as they were. -/
def SameKeys (s s' : Moment) : Prop :=
  s.machine.SameNotes s'.machine

theorem SameKeys.lasting : Lasting SameKeys where
  refl s := .refl s.machine
  trans h h' := Machine.SameNotes.trans h h'
  operands s _ := .refl s.machine
  ready s _ _ _ _ := .adjustSlot s.machine _ _ _

theorem RunningUnit.run_keeps (u : RunningUnit) (p : Program) : Preserves SameKeys (u.run p) := by
  intro s
  exact (u.run_ends p s).mono (fun _ _ h => h.notes) (fun _ _ h => h.1.notes)

theorem Program.runFrame_keeps (p : Program) : Preserves SameKeys p.runFrame :=
  runFrame_preserves SameKeys.lasting p fun _ _ _ _ u _ => u.run_keeps p

/-- A render call plays no keys. -/
theorem Synth.render_keeps (s : Synth) (buffer : Audio) (maxTime : Int) :
    s.machine.SameNotes (s.render buffer maxTime).1.machine := by
  have frame : ∀ t, s.machine.SameNotes t.machine → Ends s.program.runFrame t
      (fun _ t' => s.machine.SameNotes t'.machine) fun _ t' => s.machine.SameNotes t'.machine :=
    fun t before => (s.program.runFrame_keeps t).mono (fun _ _ => before.trans) fun _ _ =>
      before.trans
  exact s.program.render_keeps frame (fun _ before => before.trans (.of_voices rfl))
    (.refl s.machine) buffer.length maxTime

end ModularSynth
