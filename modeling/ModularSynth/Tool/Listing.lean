-- The listings that the tool puts out: of a song, with its bytecode and its notes, and of
-- the machine, with the opcode of every kind of unit.
import ModularSynth.Bytecode.Assembly
import ModularSynth.Bytecode.Listing
import ModularSynth.Playback
import ModularSynth.Tool.Options

namespace ModularSynth

/-! ## The machine -/

namespace Listing

/-- The line of a kind of unit: its opcode, its operands, those beside the leading ones,
and its name. -/
def kindLine (name : String) : String :=
  let opcode := (Features.all.opcode? name).getD 0
  let extra := (UnitKind.ofOpcode? (opcode >>> 1).toNat).map (·.extraOperandCount)
  s!"{hexByte opcode} {Features.all.operandCount name} {extra.getD 0} {name}\n"

/-- The opcodes of all kinds of units. -/
def machine : String :=
  "; opcode transforms operands name\n" ++ String.join (Features.all.kinds.map kindLine)

/-! ## Songs -/

/-- The number of cores that a song is compiled for. -/
def cores (o : ToolOptions) (song : Song) : Nat :=
  if o.singleThread then 1 else song.patch.numCores

/-- What is written in front: the target, the tempo and the features of a song. -/
def songHeader (o : ToolOptions) (song : Song) : String :=
  let target := (o.architecture.getD .host).name
  let system := ((o.operatingSystem.map .ofWord).getD .host : OperatingSystem).name
  let format := match o.sampleFormat with
    | .pcm16 => "int16"
    | .float32 => "float32"
  let kinds := " ".intercalate (NecessaryFeatures.ofPatch song.patch).kinds
  s!"; arch={target} os={system} output={format} rowsync={o.rowSync} cores={cores o song}\n" ++
    s!"; bpm={song.bpm} rowsperbeat={song.rowsPerBeat} samplesperrow={song.samplesPerRow} " ++
    s!"rows={song.score.lengthInRows}\n" ++
    s!"; features: {kinds}\n"

/-- A line with a number in front and numbers after it. -/
def numberedLine (index : Nat) (ns : List Nat) : String :=
  "  " ++ padLeft 3 ' ' (toString index) ++ ": " ++ " ".intercalate (ns.map toString) ++ "\n"

/-- A line for each list of numbers, counted from zero. -/
def numberedLines (lists : List (List Nat)) : String :=
  String.join (lists.zipIdx.map fun (ns, index) => numberedLine index ns)

def notes (table : PatternTable) : String :=
  "patterns:\n" ++ numberedLines (table.patterns.map (·.map (·.toNat))) ++
    "orders:\n" ++ numberedLines (table.orders.map (·.map (·.toNat)))

end Listing

def Song.listing (song : Song) (o : ToolOptions) : Except PlayError String := do
  song.validate.mapError .invalidSong
  let bytecode ← (Bytecode.compile song.patch .all song.bpm).mapError .compile
  let table ← (PatternTable.ofSong song).mapError .patterns
  return Listing.songHeader o song ++ bytecode.listing ++ Listing.notes table

end ModularSynth
