-- A disk as a map from places to files and directories, and what can be done with it.
-- Every file can be read and written, and there are no links. Names and paths must not be
-- too long.
import ModularSynth.Files.Path

namespace ModularSynth

/-! ## Errors -/

/-- Why a file or directory cannot be used. -/
inductive FileError
  | noSuchFile
  | fileExists
  | notADirectory
  | isADirectory
  | nameTooLong
  /-- A path holds the character zero, so that no system can be asked for it. -/
  | zeroInPath
  /-- What else a system may say, with its own number. -/
  | other (text : String) (code : Nat)
  deriving DecidableEq, Repr, Inhabited

namespace FileError

def text : FileError → String
  | .noSuchFile => "No such file or directory"
  | .fileExists => "File exists"
  | .notADirectory => "Not a directory"
  | .isADirectory => "Is a directory"
  | .nameTooLong => "File name too long"
  | .zeroInPath => "file name contained an unexpected NUL byte"
  | .other text _ => text

/-- The number of an error, if it comes from a system. -/
def code? : FileError → Option Nat
  | .noSuchFile => some 2
  | .fileExists => some 17
  | .notADirectory => some 20
  | .isADirectory => some 21
  | .nameTooLong => some 36
  | .zeroInPath => none
  | .other _ code => some code

def message (e : FileError) : String :=
  match e.code? with
  | some code => s!"{e.text} (os error {code})"
  | none => e.text

end FileError

/-! ## Disks -/

/-- A place on a disk: the names on the way to it, last first. The root has none. -/
abbrev Place := List String

/-- What may be at a place. -/
inductive DiskEntry
  | directory
  | file (contents : List UInt8)
  deriving DecidableEq, Inhabited

/-- The contents of a disk: of two entries for a place, the first counts. -/
structure Disk where
  entries : List (Place × DiskEntry) := []
  /-- The place that paths which are not absolute start from. -/
  workingPlace : Place := []
  deriving Inhabited

namespace Disk

/-- What is at a place. The root is always a directory. -/
def find? (d : Disk) (place : Place) : Option DiskEntry :=
  if place = [] then some .directory else d.entries.lookup place

/-- The disk with an entry at a place. -/
def put (d : Disk) (place : Place) (entry : DiskEntry) : Disk :=
  { d with entries := (place, entry) :: d.entries }

theorem find?_put_self (d : Disk) {place : Place} (h : place ≠ []) (entry : DiskEntry) :
    (d.put place entry).find? place = some entry := by
  simp [find?, put, h]

/-- An entry changes nothing elsewhere. -/
theorem find?_put_of_ne (d : Disk) {place other : Place} (h : other ≠ place) (entry : DiskEntry) :
    (d.put place entry).find? other = d.find? other := by
  have hb : (other == place) = false := by simpa using h
  simp [find?, put, List.lookup_cons, hb]

def workingDirectory (d : Disk) : Path :=
  if d.workingPlace = [] then ⟨"/"⟩
  else ⟨d.workingPlace.reverse.foldl (fun text name => text ++ "/" ++ name) ""⟩

/-! ## Following paths -/

/-- Must there be a directory at a place for a path to go on from there? If there is none,
why not? -/
def requireDirectory (d : Disk) (place : Place) : Except FileError Unit :=
  match d.find? place with
  | some .directory => .ok ()
  | some (.file _) => .error .notADirectory
  | none => .error .noSuchFile

def nameLimit : Nat := 255

def pathLimit : Nat := 4095

/-- The place that the parts of a path lead to from a place. -/
def follow (d : Disk) : Place → List (List Char) → Except FileError Place
  | place, [] => .ok place
  | place, part :: parts => do
    d.requireDirectory place
    if Path.isIdle part then d.follow place parts
    else if part = ['.', '.'] then d.follow (place.drop 1) parts
    else
      let name := String.ofList part
      if nameLimit < name.utf8ByteSize then .error .nameTooLong
      else d.follow (name :: place) parts

/-- The place that a path leads to, whether there is something or not. -/
def locate (d : Disk) (p : Path) : Except FileError Place :=
  if p.text == "" then .error .noSuchFile
  else if p.text.toList.contains (Char.ofNat 0) then .error .zeroInPath
  else if pathLimit < p.text.utf8ByteSize then .error .nameTooLong
  else d.follow (if p.isAbsolute then [] else d.workingPlace) p.parts

/-- What a path leads to. -/
def entry (d : Disk) (p : Path) : Except FileError DiskEntry := do
  match d.find? (← d.locate p) with
  | some e => .ok e
  | none => .error .noSuchFile

/-! ## Operations -/

/-- Does a path lead to a directory? -/
def isDirectory (d : Disk) (p : Path) : Bool :=
  match d.entry p with
  | .ok .directory => true
  | _ => false

def readFile (d : Disk) (p : Path) : Except FileError (List UInt8) := do
  match ← d.entry p with
  | .file contents => .ok contents
  | .directory => .error .isADirectory

/-- The name of a place, if it lies in a directory. -/
def nameIn? (directory place : Place) : Option String :=
  match place with
  | name :: parent => if parent = directory then some name else none
  | [] => none

/-- The names of what is in a directory, in no certain order. -/
def listDirectory (d : Disk) (p : Path) : Except FileError (List String) := do
  match ← d.entry p with
  | .file _ => .error .notADirectory
  | .directory =>
    let directory ← d.locate p
    .ok (d.entries.filterMap fun e => nameIn? directory e.1).eraseDups

/-- Make a directory in one that is there. -/
def createDirectory (d : Disk) (p : Path) : Except FileError Disk := do
  let place ← d.locate p
  match d.find? place with
  | some _ => .error .fileExists
  | none => .ok (d.put place .directory)

/-- Write a file, in the place of one that was there or as a new one. -/
def writeFile (d : Disk) (p : Path) (contents : List UInt8) : Except FileError Disk := do
  let place ← d.locate p
  match d.find? place with
  | some .directory => .error .isADirectory
  | _ => .ok (d.put place (.file contents))

end Disk

end ModularSynth
