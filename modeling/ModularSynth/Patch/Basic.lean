-- Patches: instruments made of units. A unit that is disabled or has no kind is as good
-- as not there. Voices are numbered over the whole patch, instrument by instrument.
import ModularSynth.Total
import ModularSynth.Catalogue.Parameter
import ModularSynth.Catalogue.StackEffect
import ModularSynth.Patch.Settings

namespace ModularSynth

/-! ## Units -/

/-- One processing step of an instrument. -/
structure PatchUnit where
  /-- The name of the unit's kind. -/
  kindName : String := ""
  /-- A number other than zero makes the unit a target of sends. -/
  id : Int := 0
  settings : Settings := {}
  /-- The delay times of a delay. -/
  varArgs : List Int := []
  disabled : Bool := false
  comment : String := ""
  deriving DecidableEq, Inhabited

namespace PatchUnit

/-- The value of a parameter; zero if the unit does not set it. -/
def param (u : PatchUnit) (name : String) : Int :=
  u.settings.get name

/-- Does the unit work on two channels? -/
def isStereo (u : PatchUnit) : Bool :=
  u.param "stereo" == 1

/-- Does the unit take part at all? -/
def isActive (u : PatchUnit) : Bool :=
  !u.disabled && u.kindName != ""

/-- The kind of the unit, if its name is that of one. -/
def kind? (u : PatchUnit) : Option UnitKind :=
  UnitKind.ofName? u.kindName

/-- The kind of an active unit. -/
def activeKind? (u : PatchUnit) : Option UnitKind :=
  if u.isActive then u.kind? else none

/-- Is the unit an active one of this kind? -/
def isActiveOf (u : PatchUnit) (kind : UnitKind) : Bool :=
  u.activeKind? == some kind

/-- The unit's effect on the signal stack. A send that pops leaves nothing. -/
def stackEffect (u : PatchUnit) : StackEffect :=
  match u.activeKind? with
  | none => .none
  | some kind =>
    let effect := kind.stackEffect u.isStereo
    if kind = .send ∧ u.param "sendpop" = 1 then { effect with outputs := 0 } else effect

/-- The change in the number of signals on the stack. -/
def stackChange (u : PatchUnit) : Int :=
  u.stackEffect.change

/-- How many signals must be on the stack before the unit runs. -/
def stackNeed (u : PatchUnit) : Nat :=
  u.stackEffect.inputs

end PatchUnit

/-! ## Instruments -/

/-- A sound source with units of its own, played by one or more voices. -/
structure Instrument where
  name : String := ""
  comment : String := ""
  numVoices : Nat := 1
  mute : Bool := false
  /-- The set of cores that render the instrument, as a bit mask less one, so that zero
  stands for the first core alone. -/
  coreMaskLessOne : UInt32 := 0
  units : List PatchUnit := []
  deriving DecidableEq, Inhabited

namespace Instrument

/-- The number of cores that the core mask reaches. -/
def numCores (i : Instrument) : Nat :=
  Nat.log2 (i.coreMaskLessOne.toNat + 1) + 1

/-- The number of delay lines that the active delays of one voice ask for. -/
def delayLinesPerVoice (i : Instrument) : Nat :=
  total ((i.units.filter (·.isActiveOf .delay)).map (·.varArgs.length))

end Instrument

/-! ## Patches -/

/-- A list of instruments. -/
structure Patch where
  instruments : List Instrument := []
  deriving DecidableEq, Inhabited

namespace Patch

/-- The number of voices of all instruments. -/
def numVoices (p : Patch) : Nat :=
  total (p.instruments.map (·.numVoices))

/-- The number of delay lines a machine holds for the patch. -/
def numDelayLines (p : Patch) : Nat :=
  total (p.instruments.map fun i => i.delayLinesPerVoice * i.numVoices)

/-- The number of cores the patch asks for, at least one. -/
def numCores (p : Patch) : Nat :=
  (p.instruments.map (·.numCores)).foldl max 1

/-- The number of the first voice of an instrument. -/
def firstVoice (p : Patch) (instrument : Nat) : Nat :=
  total ((p.instruments.take instrument).map (·.numVoices))

/-- The index of the element in which a position lies, where each element takes up as
many positions as `sizes` has for it. -/
def ownerOf : List Nat → Nat → Option Nat
  | [], _ => none
  | size :: sizes, position =>
    if position < size then some 0 else (ownerOf sizes (position - size)).map (· + 1)

/-- The instrument that plays a voice. -/
def instrumentForVoice (p : Patch) (voice : Nat) : Option Nat :=
  ownerOf (p.instruments.map (·.numVoices)) voice

/-- Can a send reach the unit by this id? -/
def answersTo (id : Int) (u : PatchUnit) : Bool :=
  u.id == id && u.isActive

/-- The instrument and unit with an id; zero is no id. -/
def findUnit (p : Patch) (id : Int) : Option (Nat × Nat) :=
  if id = 0 then none
  else go 0 p.instruments
where
  go (index : Nat) : List Instrument → Option (Nat × Nat)
    | [] => none
    | i :: rest =>
      match i.units.findIdx? (answersTo id) with
      | some u => some (index, u)
      | none => go (index + 1) rest

/-- The unit at a place of the patch. -/
def unit? (p : Patch) (instrument unit : Nat) : Option PatchUnit :=
  p.instruments[instrument]? >>= (·.units[unit]?)

end Patch

end ModularSynth
