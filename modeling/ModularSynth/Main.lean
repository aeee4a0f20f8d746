-- The command line tool: it compiles songs into listings and audio, or converts them
-- between formats.
import ModularSynth.Tool.Arguments
import ModularSynth.Tool.Run

namespace ModularSynth.Main

/-! ## The system -/

/-- The error with a number, which systems count up or down, and with these words. -/
def errorOfCode (code : UInt32) (details : String) : FileError :=
  let number := (min code (0 - code)).toNat
  let known : List FileError :=
    [.noSuchFile, .fileExists, .notADirectory, .isADirectory, .nameTooLong]
  (known.find? (·.code? == some number)).getD (.other details number)

/-- The error of a file operation that failed. -/
def fileError : IO.Error → FileError
  | .noFileOrDirectory _ code details => errorOfCode code details
  | .alreadyExists _ code details => errorOfCode code details
  | .inappropriateType _ code details => errorOfCode code details
  | .permissionDenied _ code details => errorOfCode code details
  | .invalidArgument _ code details => errorOfCode code details
  | .otherError code details => errorOfCode code details
  | e => .other (toString e) 0

/-- The result of a file operation, whether it failed or not. -/
def attempt (operation : IO α) : IO (Except FileError α) := do
  match ← operation.toBaseIO with
  | .ok a => return .ok a
  | .error e => return .error (fileError e)

/-- Does a path lead to a directory? -/
def isDirectory (p : Path) : IO Bool := do
  match ← attempt (IO.FS.realPath p.text) with
  | .ok found => found.isDir
  | .error _ => return false

/-- The names of what is in a directory. -/
def listDirectory (p : Path) : IO (List String) := do
  let directory ← IO.FS.realPath p.text
  return (← directory.readDir).toList.map (·.fileName)

def readFile (p : Path) : IO ByteArray :=
  IO.FS.readBinFile p.text

/-- The system that the program runs on. -/
def host : Host IO where
  workingDirectory := attempt do return ⟨(← IO.currentDir).toString⟩
  isDirectory := isDirectory
  readFile p := attempt do return (← readFile p).toList
  listDirectory p := attempt (listDirectory p)
  createDirectory p := attempt (IO.FS.createDir p.text)
  writeFile p contents := attempt (IO.FS.writeBinFile p.text ⟨contents.toArray⟩)
  print bytes := attempt do (← IO.getStdout).write ⟨bytes.toArray⟩
  report text := IO.eprintln text

/-- The recorded samples of the first table that is found; none if there is none. -/
def loadSamples : List String → IO SampleTable
  | [] => return {}
  | p :: rest => do
    match ← attempt (readFile ⟨p⟩) with
    | .ok contents => return .ofFile contents
    | .error _ => loadSamples rest

/-! ## The program -/

def usage : String :=
  "Compiles songs (.yml or .json) into bytecode listings and rendered audio\n\n" ++
  "  -n           never overwrite files; fail if a file exists and would change\n" ++
  "  -l           do not write files; list the files that would change\n" ++
  "  -s           do not write files; write to standard output\n" ++
  "  -a           put out the opcode table of the machine\n" ++
  "  -j           convert songs to JSON\n" ++
  "  -y           convert songs to YAML\n" ++
  "  -t DIR       directory of templates; there are none yet\n" ++
  "  -o PATH      directory or file name of the output\n" ++
  "  -e LIST      extensions to put out, with commas between them\n" ++
  "  --arch NAME  target architecture: 386, amd64 or wasm\n" ++
  "  --os NAME    target operating system: windows, darwin or linux\n" ++
  "  -i           16-bit integer audio instead of floats\n" ++
  "  -f           render on a single core\n" ++
  "  -r           write the current row as sync channel 0\n" ++
  "  -v           print the version\n" ++
  "  -h           print this help\n"

def version : String := "0.1.0"

/-- Do what the options ask for; gives the exit code. -/
def start (o : ToolOptions) : IO UInt32 := do
  if o.version then
    IO.println version
    return 0
  if o.paths.isEmpty && !o.library then
    IO.print usage
    return 0
  let samples ← loadSamples (SampleTable.searchPaths (← IO.getEnv "SystemRoot"))
  let failures ← o.run host samples
  return if failures > 0 then 1 else 0

end ModularSynth.Main

def main (words : List String) : IO UInt32 := do
  match ModularSynth.ToolOptions.ofWords words with
  | .ok o => ModularSynth.Main.start o
  | .error .helpWanted =>
    IO.print ModularSynth.Main.usage
    return 0
  | .error .versionWanted =>
    IO.println ModularSynth.Main.version
    return 0
  | .error e =>
    IO.eprintln ("error: " ++ e.message)
    return 1
