-- Songs as YAML nodes. A plain scalar is a number or a flag if it spells one, and a text
-- in any case; a quoted one is a text only. A node that is not there is an empty list or
-- map. Records are mappings. An alias is followed where its node is read, so what nothing
-- reads is not followed.
import ModularSynth.SongFile.Fields
import ModularSynth.Yaml.Node
import ModularSynth.Yaml.Numeral

namespace ModularSynth.SongFile

open ModularSynth.Yaml

/-- The tag of whole numbers. -/
def integerTag : TagBytes := "tag:yaml.org,2002:int".toUTF8.toList

def flagTag : TagBytes := "tag:yaml.org,2002:bool".toUTF8.toList

/-- The text of a scalar that may be read as a value with this tag: a plain one, or a
literal one that has the tag. -/
def valueText? (valueTag : TagBytes) : Node → Option String
  | .scalar _ text .plain => some text
  | .scalar (some tag) text .literal => if tag == valueTag then some text else none
  | _ => none

/-- Is the node not there, or no more than a place for one? -/
def isAbsent : Node → Bool
  | .scalar _ text .plain => text.isEmpty
  | _ => false

/-- The text of a scalar of any style. -/
def scalarText? : Node → Option String
  | .scalar _ text _ => some text
  | _ => none

/-- The node that a node stands for. -/
def resolve (g : Graph) : Node → Reading Node
  | .alias number => do
    Reading.follow
    return g.target number
  | n => return n

/-- The entries of a node; its keys must be texts. -/
def entriesOf (g : Graph) (n : Node) : Reading (List (String × Node)) := do
  match ← resolve g n with
  | .mapping entries => entries.mapM fun (k, v) => do return (← scalarText? (← resolve g k), v)
  | n => if isAbsent n then return [] else failure

/-- How the nodes of a document are taken apart. -/
def yamlDocument (g : Graph) : Document Node where
  text n := do scalarText? (← resolve g n)
  flag n := do flag? (← valueText? flagTag (← resolve g n))
  natural n := do Yaml.natural? (← valueText? integerTag (← resolve g n)).toList
  integer n := do Yaml.integer? (← valueText? integerTag (← resolve g n)).toList
  items n := do
    match ← resolve g n with
    | .sequence items => return items
    | n => if isAbsent n then return [] else failure
  members := entriesOf g
  record n := do return .named (← entriesOf g n)

def songOfGraph? (g : Graph) : Option Song :=
  ((yamlDocument g).song g.root).within g.followLimit

end ModularSynth.SongFile
