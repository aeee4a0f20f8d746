-- What a tool needs of the system around it, and a system that lives in memory.
import ModularSynth.Files.Disk

namespace ModularSynth

/-- A system that a tool runs on. -/
structure Host (m : Type → Type) where
  workingDirectory : m (Except FileError Path)
  isDirectory : Path → m Bool
  readFile : Path → m (Except FileError (List UInt8))
  /-- The names of what is in a directory, in any order. -/
  listDirectory : Path → m (Except FileError (List String))
  /-- Make one directory. -/
  createDirectory : Path → m (Except FileError Unit)
  writeFile : Path → List UInt8 → m (Except FileError Unit)
  /-- Write to standard output. -/
  print : List UInt8 → m (Except FileError Unit)
  /-- Tell the user of an error. -/
  report : String → m Unit

namespace Host

variable {m : Type → Type} [Monad m] (host : Host m)

/-- Make a directory, unless it is there already. -/
def ensureDirectory (p : Path) : m (Except FileError Unit) := do
  match ← host.createDirectory p with
  | .ok () => return .ok ()
  | .error e => return if ← host.isDirectory p then .ok () else .error e

/-- Make the first of the given directories, each of which lies in the next. -/
def ensureDirectories : List Path → m (Except FileError Unit)
  | [] => return .error .noSuchFile
  | p :: outer =>
    if p.text == "" then return .ok ()
    else do
      match ← host.ensureDirectory p with
      | .error .noSuchFile =>
        match ← ensureDirectories outer with
        | .ok () => host.ensureDirectory p
        | .error e => return .error e
      | result => return result

/-- Make a directory and those around it, as far as they are missing. -/
def createDirectories (p : Path) : m (Except FileError Unit) :=
  host.ensureDirectories p.ancestors

end Host

/-! ## A system in memory -/

/-- A run of a tool: the disk, what was written to standard output, and the errors that
the user was told of, last first. -/
structure Session where
  disk : Disk
  output : List UInt8 := []
  reports : List String := []
  deriving Inhabited

namespace Session

/-- Change the disk, if that can be done. -/
def change (operation : Disk → Except FileError Disk) : StateM Session (Except FileError Unit) :=
  fun s =>
    match operation s.disk with
    | .ok disk => (.ok (), { s with disk })
    | .error e => (.error e, s)

/-- The system whose state is a session. -/
def host : Host (StateM Session) where
  workingDirectory := do return .ok (← get).disk.workingDirectory
  isDirectory p := do return (← get).disk.isDirectory p
  readFile p := do return (← get).disk.readFile p
  listDirectory p := do return (← get).disk.listDirectory p
  createDirectory p := change (·.createDirectory p)
  writeFile p contents := change (·.writeFile p contents)
  print bytes := do
    modify fun s => { s with output := s.output ++ bytes }
    return .ok ()
  report text := modify fun s => { s with reports := text :: s.reports }

end Session

end ModularSynth
