-- JSON values and their compact text. Members keep the order they are written in, and
-- a name may stand more than once; what that means is up to whoever reads the value.
namespace ModularSynth.Json

/-- A JSON value. A string has no content if its bytes or escapes are no text: such a
string may stand only where nothing reads it. A number with a fraction or an exponent,
and minus zero, is `real`; nothing reads one, so its digits are not kept. -/
inductive Value
  | null
  | bool (value : Bool)
  | integer (value : Int)
  | real
  | text (content : Option String)
  | array (items : List Value)
  | object (members : List (Option String × Value))
  deriving Inhabited

namespace Value

def string (s : String) : Value :=
  .text (some s)

def natural (n : Nat) : Value :=
  .integer n

/-- An object with named members. -/
def record (members : List (String × Value)) : Value :=
  .object (members.map fun m => (some m.1, m.2))

/-! ## Compact text -/

def hexDigit (n : Nat) : Char :=
  if n < 10 then Char.ofNat (0x30 + n) else Char.ofNat (0x57 + n)

/-- How a character stands in a string. Control characters have an escape of their own or
are written by number. -/
def escape (c : Char) : String :=
  if c = '"' then "\\\""
  else if c = '\\' then "\\\\"
  else if c = '\n' then "\\n"
  else if c = '\r' then "\\r"
  else if c = '\t' then "\\t"
  else if c.toNat = 0x08 then "\\b"
  else if c.toNat = 0x0c then "\\f"
  else if c.toNat < 0x20 then
    "\\u00" ++ String.ofList [hexDigit (c.toNat / 16), hexDigit (c.toNat % 16)]
  else c.toString

def quote (s : String) : String :=
  s.foldl (fun out c => out ++ escape c) "\"" ++ "\""

mutual

/-- Append the text of a value. A string without content is written as an empty one. -/
def appendTo (out : String) : Value → String
  | .null => out ++ "null"
  | .bool true => out ++ "true"
  | .bool false => out ++ "false"
  | .integer n => out ++ toString n
  | .real => out ++ "0.0"
  | .text content => out ++ quote (content.getD "")
  | .array items => appendItems (out ++ "[") true items ++ "]"
  | .object members => appendMembers (out ++ "\x7b") true members ++ "\x7d"

/-- Append items with commas between them. -/
def appendItems (out : String) (first : Bool) : List Value → String
  | [] => out
  | v :: rest => appendItems (appendTo (if first then out else out ++ ",") v) false rest

/-- Append members with commas between them. -/
def appendMembers (out : String) (first : Bool) : List (Option String × Value) → String
  | [] => out
  | (name, v) :: rest =>
    let out := if first then out else out ++ ","
    appendMembers (appendTo (out ++ quote (name.getD "") ++ ":") v) false rest

end

/-- The compact text of a value: no blanks, members in order. -/
def render (v : Value) : String :=
  appendTo "" v

end Value

end ModularSynth.Json
