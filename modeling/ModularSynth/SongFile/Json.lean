-- Songs as JSON values, both ways. What is written leaves out names and comments that
-- are empty, flags that are off, and ids, core masks and delay times that say nothing;
-- what is read is taken apart by the format's own rules: a text is a string, a number an
-- integer, and nothing else will do.
import ModularSynth.Json.Value
import ModularSynth.SongFile.Fields

namespace ModularSynth.SongFile

open ModularSynth.Json

/-! ## Reading -/

/-- The members of an object, whose names must be texts. -/
def namedMembers? (members : List (Option String × Value)) : Option (List (String × Value)) :=
  members.mapM fun (name, v) => name.map (·, v)

/-- How JSON values are taken apart. A record may be an object or an array. -/
def jsonDocument : Document Value where
  text
    | .text (some s) => return s
    | _ => failure
  flag
    | .bool b => return b
    | _ => failure
  natural
    | .integer n => if 0 ≤ n then return n.toNat else failure
    | _ => failure
  integer
    | .integer n => return n
    | _ => failure
  items
    | .array items => return items
    | _ => failure
  members
    | .object members => namedMembers? members
    | _ => failure
  record
    | .object members => do return .named (← namedMembers? members)
    | .array values => return .inOrder values
    | _ => failure

/-- What is read from a JSON value, in which there are no references. -/
def ofJson? (read : Value → Reading β) (v : Value) : Option β :=
  (read v).within 0

/-! ## Writing -/

/-- A member, unless it is left out. -/
def memberUnless (leaveOut : Bool) (name : String) (value : Value) : List (String × Value) :=
  if leaveOut then [] else [(name, value)]

def integers (ns : List Int) : Value :=
  .array (ns.map .integer)

def settingsToJson (s : Settings) : Value :=
  .record (s.entries.map fun e => (e.1, .integer e.2))

def unitToJson (u : PatchUnit) : Value :=
  .record <|
    memberUnless (u.kindName == "") "type" (.string u.kindName) ++
    memberUnless (u.id == 0) "id" (.integer u.id) ++
    [("parameters", settingsToJson u.settings)] ++
    memberUnless u.varArgs.isEmpty "varargs" (integers u.varArgs) ++
    memberUnless (!u.disabled) "disabled" (.bool u.disabled) ++
    memberUnless (u.comment == "") "comment" (.string u.comment)

def instrumentToJson (i : Instrument) : Value :=
  .record <|
    memberUnless (i.name == "") "name" (.string i.name) ++
    memberUnless (i.comment == "") "comment" (.string i.comment) ++
    [("numvoices", .natural i.numVoices)] ++
    memberUnless (!i.mute) "mute" (.bool i.mute) ++
    memberUnless (i.coreMaskLessOne == 0) "threadmaskm1" (.natural i.coreMaskLessOne.toNat) ++
    [("units", .array (i.units.map unitToJson))]

def patchToJson (p : Patch) : Value :=
  .array (p.instruments.map instrumentToJson)

def trackToJson (t : Track) : Value :=
  .record <|
    [("numvoices", .natural t.numVoices)] ++
    memberUnless (!t.effect) "effect" (.bool t.effect) ++
    [("order", integers t.order.entries),
      ("patterns", .array (t.patterns.map fun p => .array (p.notes.map (.natural ·.toNat))))]

def scoreToJson (s : Score) : Value :=
  .record
    [("tracks", .array (s.tracks.map trackToJson)),
      ("rowsperpattern", .natural s.rowsPerPattern), ("length", .natural s.length)]

def songToJson (s : Song) : Value :=
  .record
    [("bpm", .natural s.bpm), ("rowsperbeat", .natural s.rowsPerBeat),
      ("score", scoreToJson s.score), ("patch", patchToJson s.patch)]

end ModularSynth.SongFile
