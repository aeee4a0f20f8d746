-- A walk over the units of an instrument that counts the signals on the stack and
-- reports where there are too few, and what is left at the end.
import ModularSynth.Patch.Basic

namespace ModularSynth

/-- A problem on the signal stack of an instrument. None of them keeps a patch from
being compiled. -/
inductive StackAdvisory
  | underflow (unit need available : Nat)
  | leftover (count : Nat)
  deriving DecidableEq, Repr, Inhabited

def StackAdvisory.message : StackAdvisory → String
  | .underflow unit need available =>
    s!"Unit {unit} needs {need} signals on the stack, but there are only {available}"
  | .leftover count => s!"Instrument leaves {count} signals on the stack"

namespace Instrument

/-- Walk on from a unit's index with so many signals on the stack. A unit that lacks
signals is reported, and counts as if they had been there. -/
def walkStack (index depth : Nat) : List PatchUnit → List StackAdvisory
  | [] => if depth > 0 then [.leftover depth] else []
  | u :: rest =>
    let effect := u.stackEffect
    let left := max depth effect.inputs - effect.inputs
    let later := walkStack (index + 1) (left + effect.outputs) rest
    if effect.inputs > depth then .underflow index effect.inputs depth :: later else later

/-- The problems on the signal stack of an instrument. -/
def stackCheck (i : Instrument) : List StackAdvisory :=
  walkStack 0 0 i.units

end Instrument

end ModularSynth
