-- Reading records from a document, whatever its format: a format says how a value of it
-- is taken for a text, a number, a list, a map or a record, and the rest is the same for
-- all.
--
-- A record stands with the names of its fields, or in some formats as their values in
-- order. Each field may be named in more than one way but only once, and names that no
-- field has are passed over. Values in order may stop early, but there are none beyond the
-- last field.
namespace ModularSynth.SongFile

/-- A reading of a document. It fails if the document is not as it should be, or if more
references within it have to be followed than the number that is left. -/
abbrev Reading := StateT Nat Option

namespace Reading

def follow : Reading Unit := fun left =>
  match left with
  | 0 => none
  | left + 1 => some ((), left)

/-- The outcome of a reading that may follow so many references. -/
def within (limit : Nat) (r : Reading β) : Option β :=
  (r.run limit).map (·.1)

end Reading

/-- A record as it stands in a document: with names, or as values in order. -/
inductive RecordForm (α : Type)
  | named (members : List (String × α))
  | inOrder (values : List α)

/-- How a format takes its values apart. -/
structure Document (α : Type) where
  text : α → Reading String
  flag : α → Reading Bool
  /-- A number from zero on. -/
  natural : α → Reading Nat
  /-- A number with a sign. -/
  integer : α → Reading Int
  items : α → Reading (List α)
  /-- The entries of a map, whose keys must be texts. -/
  members : α → Reading (List (String × α))
  record : α → Reading (RecordForm α)

/-- The names of a field; the first is the one it is written with. -/
structure FieldName where
  name : String
  otherName : String
  deriving Repr

/-- The fields of a record that a document sets, by the names they are written with. -/
abbrev Fields (α : Type) := List (String × α)

namespace RecordForm

/-- The fields set by members with names, after those already set. -/
def setNamed (names : List FieldName) (set : Fields α) : List (String × α) → Option (Fields α)
  | [] => some set
  | (key, v) :: rest =>
    match names.find? (fun f => f.name == key || f.otherName == key) with
    | none => setNamed names set rest
    | some f =>
      if (set.lookup f.name).isSome then none else setNamed names ((f.name, v) :: set) rest

def fields? (names : List FieldName) : RecordForm α → Option (Fields α)
  | .named members => setNamed names [] members
  | .inOrder values =>
    if values.length ≤ names.length then some ((names.map (·.name)).zip values) else none

end RecordForm

namespace Document

variable {α β : Type}

def fields (d : Document α) (names : List FieldName) (a : α) : Reading (Fields α) := do
  (← d.record a).fields? names

/-- The value of a field, or what stands for it if it is not set. -/
def field (fields : Fields α) (name : String) (missing : β) (read : α → Reading β) : Reading β :=
  match fields.lookup name with
  | none => return missing
  | some a => read a

/-- A number of at most so many bits. -/
def word (d : Document α) (bits : Nat) (a : α) : Reading Nat := do
  let n ← d.natural a
  if n < 1 <<< bits then return n else failure

/-- A signed number of 32 bits. -/
def int32 (d : Document α) (a : α) : Reading Int := do
  let n ← d.integer a
  if -0x80000000 ≤ n ∧ n ≤ 0x7fffffff then return n else failure

def list (d : Document α) (read : α → Reading β) (a : α) : Reading (List β) := do
  (← d.items a).mapM read

def map (d : Document α) (read : α → Reading β) (a : α) : Reading (List (String × β)) := do
  (← d.members a).mapM fun (key, v) => do return (key, ← read v)

end Document

end ModularSynth.SongFile
