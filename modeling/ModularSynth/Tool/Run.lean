-- Running the tool: each song is read, and what is made of it is put out. A file whose
-- contents would stay the same is not written again.
import ModularSynth.Files.Host
import ModularSynth.Tool.Artifact

namespace ModularSynth

variable {m : Type → Type} [Monad m]

/-- A step of the tool, which may fail. -/
abbrev ToolM (m : Type → Type) := ExceptT ToolError m

/-- An operation of the system, whose failure is one of the tool. -/
def ofHost (operation : m (Except FileError α)) (failure : FileError → ToolError) : ToolM m α :=
  ExceptT.mk do return (← operation).mapError failure

namespace ToolOptions

variable (o : ToolOptions) (host : Host m)

/-! ## Where files go -/

/-- The directory and the name that the user gives for files, as far as there are any. -/
def outputPlace : ToolM m (Option Path × Option String) := do
  match o.output with
  | none => return (none, none)
  | some p =>
    if p.endsWithSlash || (← host.isDirectory p) then return (some p, none)
    else return (p.parent?.filter (·.text != ""), p.fileName?)

/-- Where a file made from an input goes. -/
def outputPath (input : Path) (extension : String) : ToolM m Path := do
  let (directory?, name?) ← o.outputPlace host
  let directory ← match directory? with
    | some directory => pure directory
    | none => ofHost host.workingDirectory .workingDirectory
  let name := (name?.or input.fileName?).getD ""
  return directory.child (stemOf name ++ "." ++ extension)

/-! ## Putting out -/

def print (bytes : List UInt8) : ToolM m Unit :=
  ofHost (host.print bytes) .output

/-- Write a file, in a directory that is made if it is missing. -/
def store (path : Path) (contents : List UInt8) : ToolM m Unit := do
  if let some directory := path.parent? then
    ofHost (host.createDirectories directory) (.createDirectory directory)
  ofHost (host.writeFile path contents) (.writeFile path)

/-- Put out a file made from an input: write it, or what the options ask for instead. -/
def putOut (input : Path) (a : Artifact) : ToolM m Unit := do
  if o.stdout then print host a.contents
  else
    let path ← o.outputPath host input a.extension
    match ← host.readFile path with
    | .ok old =>
      if old = a.contents then return
      if o.safe && !o.list then throw (.wouldOverwrite path)
    | .error _ => pure ()
    if o.list then print host (path.text ++ "\n").toUTF8.toList
    else store host path a.contents

/-- Read a song and put out what is made of it. -/
def processSong (samples : SampleTable) (input : Path) : ToolM m Unit := do
  let contents ← ofHost (host.readFile input) (.unreadable input)
  match Song.ofFile? contents with
  | none => throw .noSong
  | some song =>
    match o.artifactsOf samples song with
    | .error e => throw (.song e)
    | .ok artifacts => artifacts.forM fun a => o.putOut host input a

/-! ## Inputs -/

/-- The song files among the names of a directory: those in YAML, then those in JSON, each
in the order of their names. -/
def songNames (names : List String) : List String :=
  let named extension :=
    (names.filter fun name => extensionOf? name == some extension).mergeSort fun a b =>
      decide (a ≤ b)
  named "yml" ++ named "json"

/-- The songs that a path stands for: itself, or those of a directory. -/
def songsAt (p : Path) : ToolM m (List Path) := do
  if ← host.isDirectory p then
    let names ← ofHost (host.listDirectory p) (.listDirectory p)
    return (songNames names).map p.child
  else return [p]

/-! ## Running -/

/-- Take a step. The number of failures is one if it fails, and the user is told why. -/
def attempt (introduction : String) (step : ToolM m Unit) : m Nat := do
  match ← step.run with
  | .ok () => return 0
  | .error e =>
    host.report (introduction ++ e.message)
    return 1

/-- Take a step for each of a list and add up the failures. -/
def sumFailures (step : α → m Nat) : List α → m Nat
  | [] => return 0
  | a :: rest => do
    let failures ← step a
    return failures + (← sumFailures step rest)

/-- What the files that are no song's are named after. -/
def libraryPath : Path := ⟨"sointu"⟩

/-- Put out what is asked for besides songs. -/
def processLibrary : m Nat :=
  sumFailures (fun a => attempt host "Could not output the library: " (o.putOut host libraryPath a))
    o.libraryArtifacts

/-- Process all songs that a path stands for. -/
def processPath (samples : SampleTable) (p : Path) : m Nat := do
  match ← (songsAt host p).run with
  | .error e =>
    host.report e.message
    return 1
  | .ok songs =>
    sumFailures (fun song =>
      attempt host s!"Could not process {song.text}: " (o.processSong host samples song)) songs

/-- Do what the options ask for. Gives the number of failures. -/
def run (samples : SampleTable) : m Nat := do
  match o.templates with
  | some directory =>
    host.report (ToolError.templates directory).message
    return 1
  | none =>
    let failures ← o.processLibrary host
    return failures + (← sumFailures (o.processPath host samples) o.paths)

end ToolOptions

end ModularSynth
