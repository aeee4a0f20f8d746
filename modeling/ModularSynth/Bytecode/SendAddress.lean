-- The addresses of sends. An address names a port of a unit, either in the voice that
-- sends or in one of all voices, and says whether the sent signal leaves the stack. The
-- places of units are counted from one, so that a place of zero belongs to no unit.
namespace ModularSynth

/-- The address of a send. -/
abbrev SendAddress := UInt16

namespace SendAddress

/-- Marks an address that names a voice. -/
def globalBit : UInt16 := 0x8000

/-- Marks a send that takes its signal off the stack. -/
def popBit : UInt16 := 0x8

/-- The addresses that name voices are counted from here. -/
def globalBase : UInt16 := 0x8010

/-- The distance between the addresses of a unit in a voice and in the next one. -/
def voiceStride : UInt16 := 0x400

/-- Where sends go that find no unit: port 7, which no unit reads, of a place in the last
voice. -/
def scratch : SendAddress := 0xFFF7

/-! ## Taking an address apart -/

/-- Does the address name a voice? -/
def isGlobal (a : SendAddress) : Bool :=
  a &&& globalBit != 0

/-- Does the send take its signal off the stack? -/
def pops (a : SendAddress) : Bool :=
  a &&& popBit != 0

/-- The address within a voice, or within all voices if it names one. -/
def inner (a : SendAddress) : UInt16 :=
  if a.isGlobal then a - globalBase else a

/-- The voice that the address names, if it does. -/
def voice? (a : SendAddress) : Option Nat :=
  if a.isGlobal then some (a.inner >>> 10).toNat else none

/-- The place of the unit, counted from one. -/
def place (a : SendAddress) : Nat :=
  ((a.inner &&& 0x1F0) >>> 4).toNat

def port (a : SendAddress) : Nat :=
  (a.inner &&& 7).toNat

/-- The wording of an address in a listing, where units are counted from zero. -/
def describe (a : SendAddress) : String :=
  let voice := match a.voice? with
    | some voice => s!"voice={voice} "
    | none => ""
  let pop := if a.pops then " pop" else ""
  s!"{voice}unit={(a.place : Int) - 1} port={a.port}{pop}"

end SendAddress

end ModularSynth
