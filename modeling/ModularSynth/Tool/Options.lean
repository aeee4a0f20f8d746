-- The options of the command line tool.
import ModularSynth.Audio.Export
import ModularSynth.Files.Path

namespace ModularSynth

/-! ## Targets -/

/-- A processor that music is compiled for. -/
inductive Architecture
  | x86
  | amd64
  | wasm
  deriving DecidableEq, Repr, Inhabited

namespace Architecture

def all : List Architecture := [.x86, .amd64, .wasm]

def name : Architecture → String
  | .x86 => "386"
  | .amd64 => "amd64"
  | .wasm => "wasm"

def ofName? (name : String) : Option Architecture :=
  all.find? fun a => a.name == name

/-- What is said of a name that no architecture has. -/
def unknownMessage (name : String) : String :=
  s!"unknown architecture {name}, expected 386, amd64 or wasm"

def host : Architecture := .amd64

end Architecture

/-- An operating system that music is compiled for. -/
inductive OperatingSystem
  | windows
  | darwin
  | linux
  deriving DecidableEq, Repr, Inhabited

namespace OperatingSystem

def name : OperatingSystem → String
  | .windows => "windows"
  | .darwin => "darwin"
  | .linux => "linux"

/-- The operating system that a word means. Those that are not known are taken for linux. -/
def ofWord (word : String) : OperatingSystem :=
  if word == "windows" then .windows
  else if word == "darwin" || word == "macos" then .darwin
  else .linux

def host : OperatingSystem := .linux

end OperatingSystem

/-! ## Options -/

/-- What the user asks of the tool. -/
structure ToolOptions where
  /-- Do not change files that are there. -/
  safe : Bool := false
  /-- List files that would change, and write none. -/
  list : Bool := false
  /-- Write everything to standard output. -/
  stdout : Bool := false
  /-- Put out the opcodes of the machine. -/
  library : Bool := false
  json : Bool := false
  yaml : Bool := false
  templates : Option Path := none
  output : Option Path := none
  /-- The extensions of files to put out, with commas between them. -/
  extensions : Option String := none
  architecture : Option Architecture := none
  operatingSystem : Option String := none
  pcm16 : Bool := false
  singleThread : Bool := false
  version : Bool := false
  rowSync : Bool := false
  verbose : Nat := 0
  paths : List Path := []
  deriving DecidableEq, Repr, Inhabited

/-- A character that is blank, in any script. -/
def isSpacing (c : Char) : Bool :=
  let n := c.toNat
  (0x09 ≤ n && n ≤ 0x0d) || n == 0x20 || n == 0x85 || n == 0xa0 || n == 0x1680 ||
    (0x2000 ≤ n && n ≤ 0x200a) || n == 0x2028 || n == 0x2029 || n == 0x202f || n == 0x205f ||
    n == 0x3000

def trimSpacing (text : List Char) : List Char :=
  ((text.dropWhile isSpacing).reverse.dropWhile isSpacing).reverse

namespace ToolOptions

def compiles (o : ToolOptions) : Bool :=
  !o.json && !o.yaml

/-- Are files with this extension put out? -/
def keeps (o : ToolOptions) (extension : String) : Bool :=
  match o.extensions with
  | none => true
  | some wanted =>
    (partsBetween ',' wanted.toList).any fun part => trimSpacing part == extension.toList

/-- The form in which samples are written. -/
def sampleFormat (o : ToolOptions) : SampleFormat :=
  if o.pcm16 then .pcm16 else .float32

end ToolOptions

end ModularSynth
