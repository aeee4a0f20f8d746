-- How many signals each kind of unit takes from the stack and how many it leaves.
import ModularSynth.Catalogue.UnitKind

namespace ModularSynth

/-- The signals a unit takes from the stack, and those it leaves in their place. -/
structure StackEffect where
  inputs : Nat
  outputs : Nat
  deriving DecidableEq, Repr, Inhabited

namespace StackEffect

def none : StackEffect := ⟨0, 0⟩

/-- The change in the number of signals. -/
def change (e : StackEffect) : Int :=
  (e.outputs : Int) - e.inputs

/-- The same effect on each of two channels. -/
def double (e : StackEffect) : StackEffect :=
  ⟨2 * e.inputs, 2 * e.outputs⟩

end StackEffect

/-- The stack effect of a kind on one channel. A send that pops is the business of
`PatchUnit.stackEffect`. -/
def UnitKind.monoEffect : UnitKind → StackEffect
  | .add | .mul | .xch => ⟨2, 2⟩
  | .addp | .mulp => ⟨2, 1⟩
  | .aux | .out | .outaux | .pop | .speed => ⟨1, 0⟩
  | .clip | .crush | .dbgain | .delay | .distort | .filter | .gain | .hold | .invgain | .send
  | .sync => ⟨1, 1⟩
  | .compressor | .pan | .push => ⟨1, 2⟩
  | .envelope | .input | .loadnote | .loadval | .noise | .oscillator | .receive => ⟨0, 1⟩

/-- The stack effect of a kind in mono or stereo. Panning a stereo signal keeps it
stereo, and the kinds that steer time have no stereo form. -/
def UnitKind.stackEffect (kind : UnitKind) (stereo : Bool) : StackEffect :=
  match stereo, kind with
  | false, kind => kind.monoEffect
  | true, .pan => ⟨2, 2⟩
  | true, .speed | true, .sync => .none
  | true, kind => kind.monoEffect.double

end ModularSynth
