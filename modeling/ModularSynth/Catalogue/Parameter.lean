-- The parameters of every kind of unit. Their order matters twice: the modulated
-- ones are a unit's leading operands in this order, and each parameter that a send
-- can reach gets the next port number.
import ModularSynth.Catalogue.UnitKind

namespace ModularSynth

/-- How a parameter gets its value: from the patch alone, from the patch and from
sends, or from sends alone. -/
inductive ParameterRole
  | stored
  | modulated
  | port
  deriving DecidableEq, Repr, Inhabited

/-- A parameter of a kind of unit. A parameter whose `max` lies below its `min` has no
range. -/
structure Parameter where
  name : String
  min : Int
  max : Int
  neutral : Int
  role : ParameterRole
  deriving DecidableEq, Repr, Inhabited

namespace Parameter

/-- A parameter that the patch alone sets. -/
def stored (name : String) (min max : Int) : Parameter :=
  ⟨name, min, max, min, .stored⟩

/-- A parameter that the patch sets and sends add to. -/
def modulated (name : String) (min max : Int) (neutral : Int := min) : Parameter :=
  ⟨name, min, max, neutral, .modulated⟩

/-- A knob from 0 to 128. -/
def knob (name : String) (neutral : Int := 0) : Parameter :=
  modulated name 0 128 neutral

/-- A parameter that only sends can reach. -/
def port (name : String) : Parameter :=
  ⟨name, 0, -1, 0, .port⟩

/-- Does the patch hold a value for the parameter? -/
def canSet (p : Parameter) : Bool :=
  p.role != .port

/-- Can a send reach the parameter? -/
def canModulate (p : Parameter) : Bool :=
  p.role != .stored

/-- Is the value one of a unit's leading operands? -/
def isOperand (p : Parameter) : Bool :=
  p.role == .modulated

/-- The nearest value in range. -/
def clamp (p : Parameter) (value : Int) : Int :=
  if p.max < p.min then value else Min.min (Max.max value p.min) p.max

/-- The channel count of a unit, as a parameter. -/
def stereo : Parameter :=
  stored "stereo" 0 1

/-- The largest number a 32-bit signed parameter holds. -/
def largest : Int := 2147483647

end Parameter

namespace UnitKind

open Parameter in
/-- The parameters of a kind, in order. -/
def params : UnitKind → List Parameter
  | .aux => [stereo, knob "gain", stored "channel" 0 6]
  | .compressor =>
    [stereo, knob "attack", knob "release", knob "invgain", knob "threshold", knob "ratio"]
  | .crush => [stereo, knob "resolution"]
  | .dbgain => [stereo, knob "decibels" 64]
  | .delay =>
    [stereo, knob "pregain", knob "dry", knob "feedback", knob "damp", stored "notetracking" 0 2,
      port "delaytime"]
  | .distort => [stereo, knob "drive" 64]
  | .envelope =>
    [stereo, knob "attack", knob "decay", knob "sustain", knob "release", knob "gain"]
  | .filter =>
    [stereo, knob "frequency", knob "resonance" 128, stored "lowpass" 0 1,
      stored "bandpass" (-1) 1, stored "highpass" (-1) 1]
  | .gain | .out => [stereo, knob "gain"]
  | .hold => [stereo, knob "holdfreq"]
  | .input => [stereo, stored "channel" 0 6]
  | .invgain => [stereo, knob "invgain"]
  | .loadval => [stereo, knob "value"]
  | .noise => [stereo, knob "shape" 64, knob "gain"]
  | .oscillator =>
    [stereo, knob "transpose" 64, knob "detune" 64, knob "phase", knob "color", knob "shape" 64,
      knob "gain", port "frequency", stored "type" 0 4, stored "lfo" 0 1, stored "unison" 0 3,
      stored "samplestart" 0 1720329, stored "loopstart" 0 65535, stored "looplength" 0 65535]
  | .outaux => [stereo, knob "outgain", knob "auxgain"]
  | .pan => [stereo, knob "panning" 64]
  | .receive => [stereo, port "left", port "right"]
  | .send =>
    [stereo, knob "amount" 64, stored "voice" 0 32, stored "target" 0 largest,
      stored "port" 0 7, stored "sendpop" 0 1]
  | .speed | .sync => []
  | .add | .addp | .clip | .loadnote | .mul | .mulp | .pop | .push | .xch => [stereo]

def param? (kind : UnitKind) (name : String) : Option Parameter :=
  kind.params.find? (·.name == name)

/-- The parameters a send can reach, by port number. -/
def ports (kind : UnitKind) : List Parameter :=
  kind.params.filter (·.canModulate)

def port? (kind : UnitKind) (name : String) : Option Nat :=
  kind.ports.findIdx? (·.name == name)

def operandParams (kind : UnitKind) : List Parameter :=
  kind.params.filter (·.isOperand)

/-- How many leading operands a unit of a kind has. -/
def operandCount (kind : UnitKind) : Nat :=
  kind.operandParams.length

/-- How many operands follow the leading ones. -/
def extraOperandCount : UnitKind → Nat
  | .aux | .input | .filter | .oscillator => 1
  | .delay | .send => 2
  | _ => 0

end UnitKind

end ModularSynth
