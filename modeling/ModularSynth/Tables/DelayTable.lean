-- The delay times of all delays of a patch in one table, in which delays with the same
-- times share their place.
import ModularSynth.Song
import ModularSynth.Tables.SuperArray

namespace ModularSynth.DelayTable

def longest : Int := 65535

/-- A delay time given in 48ths of a beat, in samples. The speed is taken as a signed
word of 64 bits, and what is far too low keeps its last 32 bits. -/
def syncedTime (bpm : Nat) (time : Int) : Int :=
  let speed := Int.bmod (max bpm 1 : Nat) (1 <<< 64)
  let samples := (((sampleRate : Int) * 60 * time).tdiv 48).tdiv speed
  Int.bmod (min samples longest) (1 <<< 32)

/-- The delay times of a unit in samples; none if it is no active delay. -/
def unitTimes (bpm : Nat) (u : PatchUnit) : List Int :=
  if u.isActiveOf .delay then
    if u.param "notetracking" = 2 then u.varArgs.map (syncedTime bpm) else u.varArgs
  else []

/-- Cut a list into parts of the given lengths. -/
def parts {α : Type} : List Nat → List α → List (List α)
  | [], _ => []
  | n :: ns, xs => xs.take n :: parts ns (xs.drop n)

/-- The table of delay times, and for each unit of each instrument where its times
begin. Units that are no active delay begin at zero. -/
def ofPatch (patch : Patch) (bpm : Nat) : List UInt16 × List (List Nat) :=
  let arrays := patch.instruments.flatMap fun i => i.units.map (unitTimes bpm)
  let (table, starts) := SuperArray.find arrays
  (table.map UInt16.ofInt, parts (patch.instruments.map (·.units.length)) starts)

end ModularSynth.DelayTable
