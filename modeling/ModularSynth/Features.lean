-- What a machine must be able to do: everything, or no more than one patch needs. A
-- machine made for a patch numbers the kinds of units in the order in which the patch
-- first uses them, known kinds or not.
import ModularSynth.Patch.Basic

namespace ModularSynth

/-- What a patch needs of a machine. Lists stand for sets, except that the kinds come in
the order of their first use. -/
structure NecessaryFeatures where
  kinds : List String := []
  /-- The values that parameters take, as kind, parameter and value. -/
  values : List (String × String × Int) := []
  /-- The parameters that sends reach, as kind and parameter. -/
  modulations : List (String × String) := []
  globalSend : Bool := false
  polyphony : Bool := false
  deriving DecidableEq, Repr, Inhabited

namespace NecessaryFeatures

/-- The values that the parameters of an active unit take. -/
def valuesOf (u : PatchUnit) : List (String × String × Int) :=
  match u.kind? with
  | none => []
  | some kind => kind.params.map fun p => (kind.name, p.name, u.param p.name)

/-- The parameter that an active send reaches, as kind and parameter, and whether it takes
a global address. A send that finds no unit, or no port there, reaches none. -/
def modulationOf? (patch : Patch) (instrument : Nat) (u : PatchUnit) :
    Option ((String × String) × Bool) := do
  if u.kind? ≠ some .send then none
  let (targetInstrument, targetUnit) ← patch.findUnit (u.param "target")
  let target ← patch.unit? targetInstrument targetUnit
  let kind ← target.kind?
  if u.param "port" < 0 then none
  let port ← kind.ports[(u.param "port").toNat]?
  return ((target.kindName, port.name), targetInstrument ≠ instrument ∨ u.param "voice" > 0)

def ofPatch (patch : Patch) : NecessaryFeatures :=
  let active := patch.instruments.zipIdx.flatMap fun (i, index) =>
    (i.units.filter (·.isActive)).map fun u => (index, u)
  let modulations := active.filterMap fun (index, u) => modulationOf? patch index u
  { kinds := (active.map (·.2.kindName)).eraseDups
    values := active.flatMap (valuesOf ·.2)
    modulations := modulations.map (·.1)
    globalSend := modulations.any (·.2)
    polyphony := patch.instruments.any (·.numVoices > 1) }

end NecessaryFeatures

/-- What a machine can do. -/
inductive Features
  | all
  | only (necessary : NecessaryFeatures)
  deriving DecidableEq, Repr, Inhabited

namespace Features

/-- The names of the kinds of units, in the order of their opcodes. -/
def kinds : Features → List String
  | .all => UnitKind.all.map (·.name)
  | .only f => f.kinds

/-- The opcode byte of a kind in mono, if the machine has the kind. -/
def opcode? (f : Features) (kindName : String) : Option UInt8 :=
  match f with
  | .all => (UnitKind.ofName? kindName).map fun kind => (kind.opcode * 2).toUInt8
  | .only f => (f.kinds.findIdx? (· == kindName)).map fun index => ((index + 1) * 2).toUInt8

/-- The number of leading operands of a kind; none if there is no such kind. -/
def operandCount (_ : Features) (kindName : String) : Nat :=
  ((UnitKind.ofName? kindName).map (·.operandCount)).getD 0

def port? (_ : Features) (kindName param : String) : Option Nat :=
  UnitKind.ofName? kindName >>= (·.port? param)

def supportsValue (f : Features) (kindName param : String) (value : Int) : Bool :=
  match f with
  | .all => true
  | .only f => f.values.contains (kindName, param, value)

/-- Can a parameter take a value other than this one? -/
def supportsOtherValue (f : Features) (kindName param : String) (value : Int) : Bool :=
  match f with
  | .all => true
  | .only f => f.values.any fun (k, p, v) => k == kindName && p == param && v != value

def supportsModulation (f : Features) (kindName param : String) : Bool :=
  match f with
  | .all => true
  | .only f => f.modulations.contains (kindName, param)

/-- Can an instrument have more than one voice? -/
def supportsPolyphony : Features → Bool
  | .all => true
  | .only f => f.polyphony

/-- Can a send leave its voice? -/
def supportsGlobalSend : Features → Bool
  | .all => true
  | .only f => f.globalSend

end Features

end ModularSynth
