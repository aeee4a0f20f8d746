-- Paths of files as texts. Parts stand between slashes; empty parts and single dots say
-- nothing, except a single dot at the start and the empty part before the first slash of
-- an absolute path.
namespace ModularSynth

/-- A path, absolute or from the working directory on. -/
structure Path where
  text : String
  deriving DecidableEq, Repr, Inhabited

/-- The parts of a text between separators; there is at least one. -/
def partsBetween (separator : Char) : List Char → List (List Char)
  | [] => [[]]
  | c :: rest =>
    if c = separator then [] :: partsBetween separator rest
    else
      match partsBetween separator rest with
      | [] => [[c]]
      | part :: parts => (c :: part) :: parts

/-- A text of parts with separators between them. -/
def joinParts (separator : Char) : List (List Char) → List Char
  | [] => []
  | [part] => part
  | part :: parts => part ++ separator :: joinParts separator parts

theorem partsBetween_ne_nil (separator : Char) (text : List Char) :
    partsBetween separator text ≠ [] := by
  cases text with
  | nil => simp [partsBetween]
  | cons c rest =>
    rw [partsBetween]
    split
    · simp
    · split <;> simp

namespace Path

def parts (p : Path) : List (List Char) :=
  partsBetween '/' p.text.toList

def isAbsolute (p : Path) : Bool :=
  p.text.toList.head? == some '/'

/-- Does the path end with a slash? -/
def endsWithSlash (p : Path) : Bool :=
  p.text.toList.getLast? == some '/'

/-- A part that says nothing where it does not come first. -/
def isIdle (part : List Char) : Bool :=
  part == [] || part == ['.']

/-- Parts without those at the end that say nothing. The first part stays. -/
def trimParts : List (List Char) → List (List Char)
  | [] => []
  | first :: rest => first :: (rest.reverse.dropWhile isIdle).reverse

/-- The parts up to the last one that names something, split before it. The root and the
empty path name nothing. -/
def split? (p : Path) : Option (List (List Char) × List Char) :=
  let parts := trimParts p.parts
  match parts.getLast? with
  | none => none
  | some last => if last == [] then none else some (parts.dropLast, last)

/-- The last part, if it is a name. -/
def fileName? (p : Path) : Option String :=
  match p.split? with
  | none => none
  | some (_, last) =>
    if last == ['.'] || last == ['.', '.'] then none else some (String.ofList last)

/-- The path without its last part. A path of one part leaves the empty path. -/
def parent? (p : Path) : Option Path :=
  match p.split? with
  | none => none
  | some (before, _) =>
    match trimParts before with
    | [[]] => some ⟨"/"⟩
    | parts => some ⟨String.ofList (joinParts '/' parts)⟩

/-- The path, its parent, the parent of that, and so on. `fuel` bounds their number. -/
def ancestorsWithin : (fuel : Nat) → Path → List Path
  | 0, _ => []
  | fuel + 1, p =>
    p :: match p.parent? with
      | none => []
      | some parent => ancestorsWithin fuel parent

/-- The path, its parent, the parent of that, and so on. -/
def ancestors (p : Path) : List Path :=
  ancestorsWithin (p.text.length + 1) p

/-- The path of a name in a directory. -/
def child (directory : Path) (name : String) : Path :=
  if directory.text == "" || directory.endsWithSlash then ⟨directory.text ++ name⟩
  else ⟨directory.text ++ "/" ++ name⟩

end Path

/-! ## Stems and extensions -/

/-- The stem of a file name, and what follows its last dot. A dot at the start is part of
the stem, and two dots are a stem. -/
def splitExtension (name : String) : String × Option String :=
  if name == ".." then (name, none)
  else
    match (partsBetween '.' name.toList).reverse with
    | extension :: before =>
      if before == [] || before == [[]] then (name, none)
      else (String.ofList (joinParts '.' before.reverse), some (String.ofList extension))
    | [] => (name, none)

def stemOf (name : String) : String :=
  (splitExtension name).1

def extensionOf? (name : String) : Option String :=
  (splitExtension name).2

end ModularSynth
