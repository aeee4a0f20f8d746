-- Dividing a patch among cores. Each core gets the instruments whose core mask names it,
-- in the order of the patch; instruments that name no core go to the first. A core
-- numbers the voices of its own instruments anew.
import ModularSynth.Patch.Basic
import ModularSynth.Bytecode.Basic

namespace ModularSynth

/-- No patch is divided among more cores. -/
def maxCores : Nat := 4

/-- For each core and each voice of the patch, the number of the voice on that core. -/
abbrev VoiceMapping := List (List (Option Nat))

/-- A patch divided among cores. -/
structure CoreSplit where
  patches : List Patch
  mapping : VoiceMapping
  /-- For each core, where in the patch its instruments come from. -/
  instruments : List (List Nat)
  deriving DecidableEq, Inhabited

namespace CoreSplit

/-- Does an instrument play on a core, of which there are so many? -/
def playsOn (cores core : Nat) (i : Instrument) : Bool :=
  let bits := (i.coreMaskLessOne + 1).toNat % 1 <<< cores
  if bits = 0 then core == 0 else bits.testBit core

/-- The instruments of a core, with their places in the patch. -/
def placedOn (cores core : Nat) (patch : Patch) : List (Instrument × Nat) :=
  patch.instruments.zipIdx.filter fun (i, _) => playsOn cores core i

/-- The number on a core of a voice, of which `before` are counted among the instruments
before. -/
def localVoice (plays : Instrument → Bool) (before : Nat) : List Instrument → Nat → Option Nat
  | [], _ => none
  | i :: rest, voice =>
    if voice < i.numVoices then if plays i then some (before + voice) else none
    else
      localVoice plays (if plays i then before + i.numVoices else before) rest
        (voice - i.numVoices)

/-- The number of cores that a patch is divided among. -/
def coreCount (patch : Patch) : Nat :=
  max (min patch.numCores maxCores) 1

def ofPatch (patch : Patch) : CoreSplit :=
  let cores := coreCount patch
  let placed := (List.range cores).map fun core => placedOn cores core patch
  { patches := placed.map fun is => ⟨is.map (·.1)⟩
    mapping := (List.range cores).map fun core =>
      (List.range maxVoices).map (localVoice (playsOn cores core) 0 patch.instruments)
    instruments := placed.map fun is => is.map (·.2) }

/-- An error of a core's patch, with the instrument named by its place in the whole
patch. -/
def wholeError (places : List Nat) : CompileError → CompileError
  | .noVoices instrument => .noVoices (places[instrument]?.getD instrument)
  | .tooManyUnits instrument => .tooManyUnits (places[instrument]?.getD instrument)
  | e => e

/-- Make something of the patch of each core. The first error counts, and names an
instrument of the whole patch. -/
def forEachCore {α : Type} (split : CoreSplit) (make : Patch → Except CompileError α) :
    Except CompileError (List α) :=
  (split.patches.zip split.instruments).mapM fun (patch, places) =>
    (make patch).mapError (wholeError places)

end CoreSplit

end ModularSynth
