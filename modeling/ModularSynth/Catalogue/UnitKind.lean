-- The kinds of unit an instrument is built from. They are listed in the order of
-- their names, and the place in this order, counted from one, is a kind's opcode
-- when every kind is available. Opcode zero is free to end an instrument.
namespace ModularSynth

/-- The kinds of unit, in the order of their names. -/
inductive UnitKind
  | add | addp | aux | clip | compressor | crush | dbgain | delay | distort | envelope | filter
  | gain | hold | input | invgain | loadnote | loadval | mul | mulp | noise | oscillator | out
  | outaux | pan | pop | push | receive | send | speed | sync | xch
  deriving DecidableEq, Repr, Inhabited

namespace UnitKind

def all : List UnitKind :=
  [.add, .addp, .aux, .clip, .compressor, .crush, .dbgain, .delay, .distort, .envelope, .filter,
    .gain, .hold, .input, .invgain, .loadnote, .loadval, .mul, .mulp, .noise, .oscillator, .out,
    .outaux, .pan, .pop, .push, .receive, .send, .speed, .sync, .xch]

/-- The name a patch uses for a kind. -/
def name : UnitKind → String
  | .add => "add"
  | .addp => "addp"
  | .aux => "aux"
  | .clip => "clip"
  | .compressor => "compressor"
  | .crush => "crush"
  | .dbgain => "dbgain"
  | .delay => "delay"
  | .distort => "distort"
  | .envelope => "envelope"
  | .filter => "filter"
  | .gain => "gain"
  | .hold => "hold"
  | .input => "in"
  | .invgain => "invgain"
  | .loadnote => "loadnote"
  | .loadval => "loadval"
  | .mul => "mul"
  | .mulp => "mulp"
  | .noise => "noise"
  | .oscillator => "oscillator"
  | .out => "out"
  | .outaux => "outaux"
  | .pan => "pan"
  | .pop => "pop"
  | .push => "push"
  | .receive => "receive"
  | .send => "send"
  | .speed => "speed"
  | .sync => "sync"
  | .xch => "xch"

/-- The kind with a name, if there is one. -/
def ofName? (name : String) : Option UnitKind :=
  all.find? (·.name == name)

/-- The place of a kind in the order, counted from zero. -/
def index (kind : UnitKind) : Nat :=
  kind.ctorIdx

/-- The opcode of a kind when every kind is available. -/
def opcode (kind : UnitKind) : Nat :=
  kind.index + 1

/-- The kind behind an opcode, if there is one. -/
def ofOpcode? : Nat → Option UnitKind
  | 0 => none
  | n + 1 => all[n]?

theorem mem_all (kind : UnitKind) : kind ∈ all := by
  cases kind <;> decide

theorem all_getElem_index (kind : UnitKind) : all[kind.index]? = some kind := by
  cases kind <;> rfl

/-- Names come back as the kind they belong to. -/
theorem ofName?_name (kind : UnitKind) : ofName? kind.name = some kind := by
  cases kind <;> decide

/-- Opcodes come back as the kind they belong to. -/
theorem ofOpcode?_opcode (kind : UnitKind) : ofOpcode? kind.opcode = some kind :=
  all_getElem_index kind

theorem name_of_ofName? {name : String} {kind : UnitKind} (h : ofName? name = some kind) :
    kind.name = name := by
  have := List.find?_some h
  simpa using this

end UnitKind

end ModularSynth
