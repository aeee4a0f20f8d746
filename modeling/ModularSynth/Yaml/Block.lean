-- Values as YAML text in block style: every item and every entry has a line of its own.
-- What belongs to an item or an entry lies two columns deeper, but the dashes of a
-- sequence that is an entry's value stand below its key.
import ModularSynth.Json.Value
import ModularSynth.Yaml.Scalar

namespace ModularSynth.Yaml

open ModularSynth.Json (Value)

/-- How much deeper a block lies than the one around it. -/
def depth : Nat := 2

/-- Start a line at a column, unless one has begun. -/
def startLine (column : Nat) (out : String) : String :=
  let out := if out.isEmpty || out.back?.any isBreak then out else out.push '\n'
  out ++ String.ofList (List.replicate column ' ')

/-- The longest key in bytes that may stand before a colon. -/
def shortKeyLimit : Nat := 128

/-- May a key stand before a colon? Otherwise it needs a mark of its own. -/
def isShortKey (key : String) : Bool :=
  key.utf8ByteSize ≤ shortKeyLimit && !key.toList.any isBreak

/-- The text of a value that starts no block. Further lines of a text stand in a column. -/
def inlineText? (column : Nat) : Value → Option String
  | .null => some "null"
  | .bool b => some (if b then "true" else "false")
  | .integer n => some (toString n)
  | .real => some "0.0"
  | .text content => some (writeText column (content.getD ""))
  | .array [] => some "[]"
  | .object [] => some "\x7b\x7d"
  | _ => none

mutual

/-- Append a value where the line has come to a column. -/
def appendBlock (column : Nat) (out : String) : Value → String
  | .array items => if items.isEmpty then out ++ "[]" else appendItems column true out items
  | .object entries =>
    if entries.isEmpty then out ++ "\x7b\x7d" else appendEntries column true out entries
  | v => out ++ (inlineText? column v).getD ""

/-- Append the items of a sequence whose dashes stand in a column. -/
def appendItems (column : Nat) (first : Bool) (out : String) : List Value → String
  | [] => out
  | v :: rest =>
    let out := if first then out else startLine column out
    appendItems column false (appendBlock (column + depth) (out ++ "- ") v) rest

/-- Append the entries of a mapping whose keys stand in a column. -/
def appendEntries (column : Nat) (first : Bool) (out : String) :
    List (Option String × Value) → String
  | [] => out
  | (key, v) :: rest =>
    let key := key.getD ""
    let out := if first then out else startLine column out
    let name := writeText (column + depth) key
    let out :=
      if isShortKey key then appendValue column (out ++ name ++ ":") v
      else appendBlock (column + depth) (startLine column (out ++ "? " ++ name) ++ ": ") v
    appendEntries column false out rest

/-- Append the value of an entry after the colon. -/
def appendValue (column : Nat) (out : String) : Value → String
  | .array items =>
    if items.isEmpty then out ++ " []" else appendItems column true (startLine column out) items
  | .object entries =>
    if entries.isEmpty then out ++ " \x7b\x7d"
    else appendEntries (column + depth) true (startLine (column + depth) out) entries
  | v => out ++ " " ++ (inlineText? (column + depth) v).getD ""

end

def render (v : Value) : String :=
  startLine 0 (appendBlock 0 "" v)

end ModularSynth.Yaml
