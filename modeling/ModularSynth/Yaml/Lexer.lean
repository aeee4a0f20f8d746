-- Cutting a YAML text into tokens. Indentation opens and closes blocks. Whether a node is
-- a key shows only when a colon follows it on the same line, so the place before a node
-- that could be one is kept, and the key's tokens are put there once the colon is found.
import ModularSynth.Yaml.Token

namespace ModularSynth.Yaml

/-- A place where a key may begin: the number of tokens before it. -/
structure KeyPlace where
  tokens : Nat
  start : Cursor
  /-- A node in the first column of a block must be a key. -/
  required : Bool
  deriving Inhabited

/-- A text being cut into tokens. -/
structure Lexer where
  cursor : Cursor
  tokens : Array Token := #[]
  /-- The column of the innermost block, before the first one -1, and those of the blocks
  around it. -/
  indent : Int := -1
  outerIndents : List Int := []
  /-- May a key begin here? -/
  keyAllowed : Bool := true
  /-- The last place where a key may begin, outside of brackets and inside of each pair
  around here, innermost first. -/
  keyPlaces : List (Option KeyPlace) := [none]
  deriving Inhabited

namespace Lexer

def inFlow (l : Lexer) : Bool :=
  !(l.keyPlaces.drop 1).isEmpty

def push (l : Lexer) (t : Token) : Lexer :=
  { l with tokens := l.tokens.push t }

def skip (l : Lexer) (count : Nat) : Lexer :=
  { l with cursor := l.cursor.skip count }

/-! ## Keys -/

/-- A key must end on its line and within so many bytes. -/
def keyLimit : Nat := 1024

/-- Can what begins at a place still be a key, now that the colon after it is found? -/
def reaches (l : Lexer) (k : KeyPlace) : Bool :=
  k.start.line == l.cursor.line && l.cursor.offset ≤ k.start.offset + keyLimit

/-- Give up the innermost place where a key may begin. -/
def dropKey (l : Lexer) : Option Lexer :=
  match l.keyPlaces with
  | some k :: rest => if k.required then none else some { l with keyPlaces := none :: rest }
  | _ => some l

/-- Keep the place before a node, if a key may begin there. -/
def keepKey (l : Lexer) : Option Lexer := do
  if !l.keyAllowed then return l
  let required := !l.inFlow && l.indent == (l.cursor.column : Int)
  let l ← l.dropKey
  return { l with
    keyPlaces := some ⟨l.tokens.size, l.cursor, required⟩ :: l.keyPlaces.drop 1 }

/-! ## Indentation -/

/-- Open a block at a column that lies deeper than the innermost one. Its token is put
where the tokens number so many. -/
def openBlock (l : Lexer) (column : Nat) (place : Nat) (t : Token) : Lexer :=
  if l.inFlow || l.indent ≥ (column : Int) then l
  else
    { l with
      outerIndents := l.indent :: l.outerIndents
      indent := column
      tokens := l.tokens.insertIdxIfInBounds place t }

/-- Close the blocks that lie deeper than a column. -/
def closeBlocks (l : Lexer) (column : Int) : Lexer :=
  if l.inFlow then l else go l l.outerIndents
where
  go (l : Lexer) : List Int → Lexer
    | [] => l
    | outer :: rest =>
      if l.indent > column then
        go { l with indent := outer, outerIndents := rest, tokens := l.tokens.push .blockEnd } rest
      else l

/-! ## Between tokens -/

/-- Skip blanks, comments and line breaks, and a byte order mark at the start of a line. A
tab may not stand where a key may begin, except between brackets. -/
def skipGap : (fuel : Nat) → Lexer → Lexer
  | 0, l => l
  | fuel + 1, l =>
    let c := l.cursor
    let c := if c.column == 0 && c.at? byteOrderMark then c.skip 1 else c
    let c := c.skipWhile fun x => x == ' ' || (x == '\t' && (l.inFlow || !l.keyAllowed))
    let c := if c.at? '#' then c.skipWhile (!isBreak ·) else c
    if c.breakAt 0 then
      skipGap fuel { l with cursor := c.skipBreak, keyAllowed := l.keyAllowed || !l.inFlow }
    else { l with cursor := c }

/-! ## Single tokens -/

/-- Leave all blocks, for what stands between documents. -/
def leaveBlocks (l : Lexer) : Option Lexer := do
  let l ← (l.closeBlocks (-1)).dropKey
  return { l with keyAllowed := false }

/-- A mark that starts or ends a document. -/
def takeMark (l : Lexer) (t : Token) : Option Lexer := do
  return ((← l.leaveBlocks).push t).skip 3

/-- An opening bracket. -/
def openFlow (l : Lexer) (t : Token) : Option Lexer := do
  let l ← l.keepKey
  return ({ l with keyPlaces := none :: l.keyPlaces, keyAllowed := true }.push t).skip 1

/-- A closing bracket. -/
def closeFlow (l : Lexer) (t : Token) : Option Lexer := do
  let l ← l.dropKey
  let keyPlaces := if l.inFlow then l.keyPlaces.drop 1 else l.keyPlaces
  return ({ l with keyPlaces, keyAllowed := false }.push t).skip 1

/-- A comma between brackets. -/
def takeFlowEntry (l : Lexer) : Option Lexer := do
  return ({ (← l.dropKey) with keyAllowed := true }.push .flowEntry).skip 1

/-- A dash before an item. -/
def takeBlockEntry (l : Lexer) : Option Lexer := do
  if !l.inFlow && !l.keyAllowed then none
  let l := l.openBlock l.cursor.column l.tokens.size .blockSequenceStart
  return ({ (← l.dropKey) with keyAllowed := true }.push .blockEntry).skip 1

/-- A question mark before a key. -/
def takeKey (l : Lexer) : Option Lexer := do
  if !l.inFlow && !l.keyAllowed then none
  let l := l.openBlock l.cursor.column l.tokens.size .blockMappingStart
  let l ← l.dropKey
  return ({ l with keyAllowed := !l.inFlow }.push .key).skip 1

/-- A colon before a value whose key, if there is one, stands after a question mark. -/
def takeLooseValue (l : Lexer) : Option Lexer := do
  if !l.inFlow && !l.keyAllowed then none
  let l := l.openBlock l.cursor.column l.tokens.size .blockMappingStart
  return ({ l with keyAllowed := !l.inFlow }.push .value).skip 1

/-- A colon before a value. What began at the place kept before is its key, unless that is
too far back. -/
def takeValue (l : Lexer) : Option Lexer := do
  match l.keyPlaces with
  | some k :: rest =>
    if l.reaches k then
      let l := { l with tokens := l.tokens.insertIdxIfInBounds k.tokens .key }
      let l := l.openBlock k.start.column k.tokens .blockMappingStart
      return ({ l with keyPlaces := none :: rest, keyAllowed := false }.push .value).skip 1
    else (← l.dropKey).takeLooseValue
  | _ => l.takeLooseValue

def takeReference (l : Lexer) (token : String → Token) : Option Lexer := do
  let l ← l.keepKey
  let (name, cursor) ← (l.cursor.skip 1).takeName
  return { l with cursor, keyAllowed := false }.push (token name)

def takeTag (l : Lexer) : Option Lexer := do
  let l ← l.keepKey
  let (handle, suffix, cursor) ← l.cursor.takeTag l.inFlow
  return { l with cursor, keyAllowed := false }.push (.tag handle suffix)

def takeBlockScalar (l : Lexer) (literal : Bool) : Option Lexer := do
  let l ← l.dropKey
  let (text, cursor) ← (l.cursor.skip 1).takeBlock literal l.indent
  return { l with cursor, keyAllowed := true }.push
    (.scalar (String.ofList text) (if literal then .literal else .folded))

def takeQuoted (l : Lexer) (single : Bool) : Option Lexer := do
  let l ← l.keepKey
  let c := l.cursor.skip 1
  let (text, cursor) ← c.takeQuoted single c.steps []
  return { l with cursor, keyAllowed := false }.push
    (.scalar (String.ofList text) (if single then .singleQuoted else .doubleQuoted))

/-- A plain scalar. A key may begin after it if it ends at a line break. -/
def takePlain (l : Lexer) : Option Lexer := do
  let l ← l.keepKey
  let c := l.cursor
  let (text, broken, cursor) ←
    c.takePlain l.inFlow (l.indent + 1).toNat c.steps [] {}
  return { l with cursor, keyAllowed := broken }.push (.scalar (String.ofList text) .plain)

/-! ## All tokens -/

/-- May a plain scalar begin here? -/
def plainStarts (l : Lexer) (x : Char) : Bool :=
  !("-?:,[]\x7b\x7d#&*!|>'\"%@\x60".contains x || isBlank x || isBreak x) ||
    (x == '-' && !l.cursor.blankAt 1) ||
    (!l.inFlow && (x == '?' || x == ':') && !l.cursor.gapAt 1)

/-- Take the next token, which begins with the character here. -/
def takeToken (l : Lexer) (x : Char) : Option Lexer :=
  let c := l.cursor
  if c.column == 0 && x == '%' then do
    let l ← l.leaveBlocks
    let (token, cursor) ← c.takeDirective
    return { l with cursor }.push token
  else if c.atDocumentMark then l.takeMark (if x == '-' then .documentStart else .documentEnd)
  else if x == '[' then l.openFlow .flowSequenceStart
  else if x == '\x7b' then l.openFlow .flowMappingStart
  else if x == ']' then l.closeFlow .flowSequenceEnd
  else if x == '\x7d' then l.closeFlow .flowMappingEnd
  else if x == ',' then l.takeFlowEntry
  else if x == '-' && c.gapAt 1 then l.takeBlockEntry
  else if x == '?' && (l.inFlow || c.gapAt 1) then l.takeKey
  else if x == ':' && (l.inFlow || c.gapAt 1) then l.takeValue
  else if x == '*' then l.takeReference .alias
  else if x == '&' then l.takeReference .anchor
  else if x == '!' then l.takeTag
  else if x == '|' && !l.inFlow then l.takeBlockScalar true
  else if x == '>' && !l.inFlow then l.takeBlockScalar false
  else if x == '\'' then l.takeQuoted true
  else if x == '"' then l.takeQuoted false
  else if l.plainStarts x then l.takePlain
  else none

/-- Take tokens up to the end of the text. -/
def takeAll : (fuel : Nat) → Lexer → Option Lexer
  | 0, _ => none
  | fuel + 1, l => do
    let l := l.skipGap l.cursor.steps
    let l := l.closeBlocks l.cursor.column
    match l.cursor.peek 0 with
    | none => l.leaveBlocks
    | some x => takeAll fuel (← l.takeToken x)

end Lexer

/-- The tokens of a text, if it is well formed. -/
def tokens? (text : List Char) : Option (List Token) := do
  if !text.all isAllowed then none
  let l ← Lexer.takeAll (text.length + 1) { cursor := .ofText text }
  return l.tokens.toList

end ModularSynth.Yaml
