-- The nodes of a YAML document. An alias stands for the node with its anchor; anchors are
-- numbered as they come, and a number stands for the node that took it last.
import ModularSynth.Yaml.Lexer

namespace ModularSynth.Yaml

/-- A node of a document. Tags of collections are of no use here and are not kept. -/
inductive Node
  | scalar (tag : Option TagBytes) (text : String) (style : ScalarStyle)
  | sequence (items : List Node)
  | mapping (entries : List (Node × Node))
  | alias (number : Nat)
  deriving Inhabited

/-- A document: its root, and the nodes that aliases stand for, by number. -/
structure Graph where
  root : Node
  targets : List (Nat × Node)
  deriving Inhabited

namespace Node

def empty : Node :=
  .scalar none "" .plain

mutual

/-- How many parts a node is made of: itself and the parts of what it holds. A collection
has a part for its end. -/
def size : Node → Nat
  | .scalar .. => 1
  | .alias _ => 1
  | .sequence items => sizeOfItems items + 2
  | .mapping entries => sizeOfEntries entries + 2

/-- How many parts the items of a sequence are made of. -/
def sizeOfItems : List Node → Nat
  | [] => 0
  | item :: rest => size item + sizeOfItems rest

/-- How many parts the entries of a mapping are made of. -/
def sizeOfEntries : List (Node × Node) → Nat
  | [] => 0
  | (key, value) :: rest => size key + size value + sizeOfEntries rest

end

end Node

/-! ## Parsing -/

/-- A node with an anchor: the number of the anchor, when the node began, and the node. -/
structure Target where
  began : Nat
  number : Nat
  node : Node

/-- The tokens to come, the anchors so far with their numbers, and the nodes that have
them. -/
structure Parsing where
  tokens : List Token
  anchors : List (String × Nat) := []
  began : Nat := 0
  targets : List Target := []

/-- A parser, which may fail. -/
abbrev Parser := StateT Parsing Option

namespace Parser

def peek : Parser (Option Token) := do
  return (← get).tokens.head?

def skip : Parser Unit :=
  modify fun s => { s with tokens := s.tokens.drop 1 }

def next (t : Token) : Parser Bool := do
  return (← peek) == some t

/-- Is the next token one of these? -/
def nextIn (ts : List Token) : Parser Bool := do
  return (← peek).any ts.contains

/-- A number for the anchor of a node that begins: as many as there are names so far. -/
def numberAnchor (name : String) : Parser Nat := do
  let s ← get
  let number := s.anchors.length
  set { s with anchors := (name, number) :: s.anchors.filter (·.1 != name) }
  return number

/-- Begin a node; gives when it began and the number of its anchor. -/
def beginNode (anchor : Option String) : Parser (Nat × Option Nat) := do
  let began := (← get).began
  modify fun s => { s with began := began + 1 }
  match anchor with
  | none => return (began, none)
  | some name => return (began, some (← numberAnchor name))

def endNode (start : Nat × Option Nat) (node : Node) : Parser Node := do
  match start with
  | (began, some number) =>
    modify fun s => { s with targets := ⟨began, number, node⟩ :: s.targets }
    return node
  | _ => return node

/-- The namespaces that tag handles stand for. -/
abbrev Handles := List (String × TagBytes)

/-- The tag that a handle and a suffix name. -/
def tagOf? (handles : Handles) (handle : String) (suffix : TagBytes) : Option TagBytes :=
  if handle.isEmpty then some suffix
  else (handles.lookup handle).map (· ++ suffix)

/-- The anchor and the tag before a node, in either order. -/
def properties (handles : Handles) : Parser (Option String × Option TagBytes) := do
  match ← peek with
  | some (.anchor name) =>
    skip
    match ← peek with
    | some (.tag handle suffix) => skip; return (some name, some (← tagOf? handles handle suffix))
    | _ => return (some name, none)
  | some (.tag handle suffix) =>
    skip
    match ← peek with
    | some (.anchor name) => skip; return (some name, some (← tagOf? handles handle suffix))
    | _ => return (none, some (← tagOf? handles handle suffix))
  | _ => return (none, none)

mutual

/-- A node. `block` says whether it may be a block collection, and `indentless` whether it
may be a sequence without indentation of its own. `fuel` bounds the number of steps. -/
def node (handles : Handles) : (fuel : Nat) → (block indentless : Bool) → Parser Node
  | 0, _, _ => failure
  | fuel + 1, block, indentless => do
    if let some (.alias name) ← peek then
      skip
      modify fun s => { s with began := s.began + 1 }
      let number ← (← get).anchors.lookup name
      return .alias number
    let (anchor, tag) ← properties handles
    let start ← beginNode anchor
    match ← peek with
    | some .blockEntry =>
      if indentless then endNode start (.sequence (← indentlessItems handles fuel []))
      else if anchor.isSome || tag.isSome then endNode start (.scalar tag "" .plain)
      else failure
    | some (.scalar text style) => skip; endNode start (.scalar tag text style)
    | some .flowSequenceStart =>
      skip
      endNode start (.sequence (← flowItems handles fuel true []))
    | some .flowMappingStart =>
      skip
      endNode start (.mapping (← flowEntries handles fuel true []))
    | some .blockSequenceStart =>
      if block then
        skip
        endNode start (.sequence (← blockItems handles fuel []))
      else if anchor.isSome || tag.isSome then endNode start (.scalar tag "" .plain)
      else failure
    | some .blockMappingStart =>
      if block then
        skip
        endNode start (.mapping (← blockEntries handles fuel []))
      else if anchor.isSome || tag.isSome then endNode start (.scalar tag "" .plain)
      else failure
    | _ =>
      if anchor.isSome || tag.isSome then endNode start (.scalar tag "" .plain) else failure

/-- A node that is empty before one of these tokens. -/
def nodeUnless (handles : Handles) :
    (fuel : Nat) → (block indentless : Bool) → List Token → Parser Node
  | 0, _, _, _ => failure
  | fuel + 1, block, indentless, ends => do
    if ← nextIn ends then
      modify fun s => { s with began := s.began + 1 }
      return .empty
    else node handles fuel block indentless

/-- The items of a block sequence; `items` are those before, last first. -/
def blockItems (handles : Handles) : (fuel : Nat) → List Node → Parser (List Node)
  | 0, _ => failure
  | fuel + 1, items => do
    match ← peek with
    | some .blockEntry =>
      skip
      let item ← nodeUnless handles fuel true false [.blockEntry, .blockEnd]
      blockItems handles fuel (item :: items)
    | some .blockEnd => skip; return items.reverse
    | _ => failure

/-- The items of a block sequence that has no indentation of its own. -/
def indentlessItems (handles : Handles) : (fuel : Nat) → List Node → Parser (List Node)
  | 0, _ => failure
  | fuel + 1, items => do
    if ← next .blockEntry then
      skip
      let item ← nodeUnless handles fuel true false [.blockEntry, .key, .value, .blockEnd]
      indentlessItems handles fuel (item :: items)
    else return items.reverse

def blockEntries (handles : Handles) :
    (fuel : Nat) → List (Node × Node) → Parser (List (Node × Node))
  | 0, _ => failure
  | fuel + 1, entries => do
    match ← peek with
    | some .key =>
      skip
      let k ← nodeUnless handles fuel true true [.key, .value, .blockEnd]
      let v ← blockValue handles fuel
      blockEntries handles fuel ((k, v) :: entries)
    | some .blockEnd => skip; return entries.reverse
    | _ => failure

/-- The value after a key of a block mapping. -/
def blockValue (handles : Handles) : (fuel : Nat) → Parser Node
  | 0 => failure
  | fuel + 1 => do
    if ← next .value then
      skip
      nodeUnless handles fuel true true [.key, .value, .blockEnd]
    else return .empty

/-- The items of a sequence between brackets. A key there makes a mapping of one entry. -/
def flowItems (handles : Handles) : (fuel : Nat) → (first : Bool) → List Node → Parser (List Node)
  | 0, _, _ => failure
  | fuel + 1, first, items => do
    if ← next .flowSequenceEnd then skip; return items.reverse
    if !first then
      if ← next .flowEntry then skip else failure
    match ← peek with
    | some .key =>
      skip
      let start ← beginNode none
      let k ←
        if ← nextIn [.value, .flowEntry, .flowSequenceEnd] then skip; pure Node.empty
        else node handles fuel false false
      let v ←
        if ← next .value then
          skip
          nodeUnless handles fuel false false [.flowEntry, .flowSequenceEnd]
        else pure .empty
      let entry ← endNode start (.mapping [(k, v)])
      flowItems handles fuel false (entry :: items)
    | some .flowSequenceEnd => skip; return items.reverse
    | _ =>
      let item ← node handles fuel false false
      flowItems handles fuel false (item :: items)

/-- The entries of a mapping between braces. A node without a colon is a key without a
value. -/
def flowEntries (handles : Handles) :
    (fuel : Nat) → (first : Bool) → List (Node × Node) → Parser (List (Node × Node))
  | 0, _, _ => failure
  | fuel + 1, first, entries => do
    if ← next .flowMappingEnd then skip; return entries.reverse
    if !first then
      if ← next .flowEntry then skip else failure
    match ← peek with
    | some .key =>
      skip
      let k ← nodeUnless handles fuel false false [.value, .flowEntry, .flowMappingEnd]
      let v ←
        if ← next .value then
          skip
          nodeUnless handles fuel false false [.flowEntry, .flowMappingEnd]
        else pure .empty
      flowEntries handles fuel false ((k, v) :: entries)
    | some .flowMappingEnd => skip; return entries.reverse
    | _ =>
      let k ← node handles fuel false false
      flowEntries handles fuel false ((k, .empty) :: entries)

end

/-! ## Documents -/

def commonHandles : Handles :=
  [("!", "!".toUTF8.toList), ("!!", "tag:yaml.org,2002:".toUTF8.toList)]

/-- The directives before a document. There is at most one version, which must be known,
and one base for each handle. -/
def directives (versionSeen : Bool) (handles : Handles) :
    List Token → Option (Bool × Handles × List Token)
  | .version major minor :: rest =>
    if versionSeen || major != 1 || (minor != 1 && minor != 2) then none
    else directives true handles rest
  | .tagHandle handle base :: rest =>
    if (handles.lookup handle).isSome then none
    else directives versionSeen ((handle, base) :: handles) rest
  | rest => some (versionSeen, handles, rest)

/-- The root of a document. It may be missing after the mark that starts a document. -/
def root (handles : Handles) (marked : Bool) : Parser Node := do
  let s ← get
  match s.tokens with
  | [] | .version .. :: _ | .tagHandle .. :: _ | .documentStart :: _ | .documentEnd :: _ =>
    if marked then return .empty else failure
  | tokens => node handles (4 * tokens.length + 4) true false

end Parser

/-- The document that tokens spell, if there is no more than one. -/
def Graph.ofTokens? (tokens : List Token) : Option Graph := do
  if tokens.isEmpty then return ⟨.empty, []⟩
  let (versionSeen, handles, rest) ← Parser.directives false [] tokens
  let marked := rest.head? == some .documentStart
  if !marked && (versionSeen || !handles.isEmpty) then none
  let rest := if marked then rest.drop 1 else rest
  let (root, s) ← (Parser.root (handles ++ Parser.commonHandles) marked).run { tokens := rest }
  if !s.tokens.all (· == .documentEnd) then none
  let targets := s.targets.mergeSort fun a b => b.began ≤ a.began
  return ⟨root, targets.map fun t => (t.number, t.node)⟩

/-- The document of a text, if it is well formed. -/
def Graph.ofText? (text : List Char) : Option Graph :=
  tokens? text >>= Graph.ofTokens?

namespace Graph

/-- How many aliases may be followed for each part of a document. Aliases inside of what
others stand for are followed over and over, so a short document could keep a reader busy
for long. -/
def followsPerPart : Nat := 100

/-- How many aliases may be followed when the document is read. -/
def followLimit (g : Graph) : Nat :=
  followsPerPart * g.root.size

/-- The node that a number stands for. -/
def target (g : Graph) (number : Nat) : Node :=
  (g.targets.lookup number).getD .empty

end Graph

end ModularSynth.Yaml
