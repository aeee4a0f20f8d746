-- The tokens of a YAML text, and how those with contents are read: scalars of each style,
-- names, tags and directives. A tag is a string of bytes, since escapes in it may spell
-- bytes that are no text.
import ModularSynth.Yaml.Cursor

namespace ModularSynth.Yaml

/-- How a scalar is written. -/
inductive ScalarStyle
  | plain
  | singleQuoted
  | doubleQuoted
  | literal
  | folded
  deriving DecidableEq, Repr, Inhabited

/-- The bytes of a tag. -/
abbrev TagBytes := List UInt8

/-- A token of a YAML text. -/
inductive Token
  | version (major minor : Nat)
  | tagHandle (handle : String) (base : TagBytes)
  | documentStart
  | documentEnd
  | blockSequenceStart
  | blockMappingStart
  | blockEnd
  | flowSequenceStart
  | flowSequenceEnd
  | flowMappingStart
  | flowMappingEnd
  | blockEntry
  | flowEntry
  | key
  | value
  | alias (name : String)
  | anchor (name : String)
  | tag (handle : String) (suffix : TagBytes)
  | scalar (text : String) (style : ScalarStyle)
  deriving DecidableEq, Repr, Inhabited

namespace Cursor

/-! ## Blanks inside scalars -/

/-- Blanks between two parts of a scalar. On one line they are spaces; over lines they are
the first break and those after it. -/
structure Gap where
  spaces : List Char := []
  broken : Bool := false
  firstBreak : List Char := []
  laterBreaks : List Char := []

namespace Gap

/-- What stands between the parts: the spaces, or for a single break a space, or the breaks
after the first. -/
def folded (g : Gap) : List Char :=
  if g.broken then
    if g.firstBreak == ['\n'] then if g.laterBreaks.isEmpty then [' '] else g.laterBreaks
    else g.firstBreak ++ g.laterBreaks
  else g.spaces

end Gap

/-- Blanks and line breaks from here on. A tab at the start of a line may not stand before
the column given. -/
def takeGap (noTabBefore : Nat) : (fuel : Nat) → Gap → Cursor → Option (Gap × Cursor)
  | 0, g, c => some (g, c)
  | fuel + 1, g, c =>
    if c.blankAt 0 then
      if g.broken && c.column < noTabBefore && c.at? '\t' then none
      else
        let spaces := if g.broken then g.spaces else g.spaces ++ c.rest.take 1
        takeGap noTabBefore fuel { g with spaces } (c.skip 1)
    else if c.breakAt 0 then
      let (b, c) := c.takeBreak
      let g :=
        if g.broken then { g with laterBreaks := g.laterBreaks ++ b }
        else { g with broken := true, firstBreak := b }
      takeGap noTabBefore fuel g c
    else some (g, c)

/-! ## Plain scalars -/

/-- A character that ends a plain scalar between brackets. -/
def isFlowIndicator (c : Char) : Bool :=
  c == ',' || c == '[' || c == ']' || c == '\x7b' || c == '\x7d'

/-- The characters of a plain scalar up to a blank or to what ends it. Between brackets, a
colon may not stand right before an indicator. -/
def takePlainRun (flow : Bool) : List Char → Option (List Char)
  | [] => some []
  | x :: rest =>
    if isBlank x || isBreak x then some []
    else if x == ':' && flow && rest.head?.any (fun y => isFlowIndicator y || y == '?') then none
    else if x == ':' && rest.head?.all (fun y => isBlank y || isBreak y) then some []
    else if flow && isFlowIndicator x then some []
    else (takePlainRun flow rest).map (x :: ·)

/-- A plain scalar from a part on: its text, whether a line break follows its last part,
and the place after it. -/
def takePlain (flow : Bool) (indent : Nat) :
    (fuel : Nat) → (text : List Char) → Gap → Cursor → Option (List Char × Bool × Cursor)
  | 0, _, _, _ => none
  | fuel + 1, text, g, c =>
    if c.atDocumentMark || c.at? '#' then some (text, g.broken, c)
    else do
      let run ← takePlainRun flow c.rest
      let text := if run.isEmpty then text else text ++ g.folded ++ run
      let g := if run.isEmpty then g else {}
      let c := c.skip run.length
      if c.blankAt 0 || c.breakAt 0 then
        let (g, c) ← c.takeGap indent c.steps {}
        if !flow && c.column < indent then some (text, g.broken, c)
        else takePlain flow indent fuel text g c
      else some (text, g.broken, c)

/-! ## Quoted scalars -/

/-- The character that an escape of one letter stands for. -/
def escaped? (c : Char) : Option Char :=
  match c with
  | '0' => some (Char.ofNat 0)
  | 'a' => some (Char.ofNat 0x07)
  | 'b' => some (Char.ofNat 0x08)
  | 't' | '\t' => some '\t'
  | 'n' => some '\n'
  | 'v' => some (Char.ofNat 0x0b)
  | 'f' => some (Char.ofNat 0x0c)
  | 'r' => some '\r'
  | 'e' => some (Char.ofNat 0x1b)
  | ' ' => some ' '
  | '"' => some '"'
  | '/' => some '/'
  | '\\' => some '\\'
  | 'N' => some (Char.ofNat 0x85)
  | '_' => some (Char.ofNat 0xa0)
  | 'L' => some (Char.ofNat 0x2028)
  | 'P' => some (Char.ofNat 0x2029)
  | _ => none

/-- The number of digits of an escape by number. -/
def escapeDigits? (c : Char) : Option Nat :=
  match c with
  | 'x' => some 2
  | 'u' => some 4
  | 'U' => some 8
  | _ => none

def hexDigit? (c : Char) : Option Nat :=
  if c.isDigit then some (c.toNat - 0x30)
  else if 'a' ≤ c ∧ c ≤ 'f' then some (c.toNat - 0x57)
  else if 'A' ≤ c ∧ c ≤ 'F' then some (c.toNat - 0x37)
  else none

/-- The number that exactly so many hexadecimal digits spell. -/
def hexNumber? (count : Nat) (s : List Char) : Option Nat := do
  let digits := s.take count
  if digits.length < count then none
  digits.foldlM (fun n c => (hexDigit? c).map (n * 16 + ·)) 0

/-- The character of a number, if there is one. -/
def charOf? (n : Nat) : Option Char :=
  if n < 0xd800 ∨ (0xdfff < n ∧ n ≤ 0x10ffff) then some (Char.ofNat n) else none

/-- Where a run of a quoted scalar ended: at its quote or a blank, or at an escaped line
break. -/
inductive RunEnd
  | stopped
  | lineJoined

/-- The characters of a quoted scalar up to a blank, its closing quote, or an escaped line
break, which is skipped. `run` are those before, last first. -/
def takeQuotedRun (single : Bool) :
    (fuel : Nat) → (run : List Char) → Cursor → Option (List Char × RunEnd × Cursor)
  | 0, _, _ => none
  | fuel + 1, run, c =>
    match c.peek 0 with
    | none => some (run.reverse, .stopped, c)
    | some x =>
      if isBlank x || isBreak x then some (run.reverse, .stopped, c)
      else if single then
        if x == '\'' then
          if c.peek 1 == some '\'' then takeQuotedRun single fuel ('\'' :: run) (c.skip 2)
          else some (run.reverse, .stopped, c)
        else takeQuotedRun single fuel (x :: run) (c.skip 1)
      else if x == '"' then some (run.reverse, .stopped, c)
      else if x == '\\' then
        if c.breakAt 1 then some (run.reverse, .lineJoined, (c.skip 1).skipBreak)
        else do
          let e ← c.peek 1
          match escapeDigits? e with
          | some count =>
            let y ← hexNumber? count (c.rest.drop 2) >>= charOf?
            takeQuotedRun single fuel (y :: run) (c.skip (2 + count))
          | none =>
            let y ← escaped? e
            takeQuotedRun single fuel (y :: run) (c.skip 2)
      else takeQuotedRun single fuel (x :: run) (c.skip 1)

/-- A quoted scalar from a part on, and the place after its closing quote. -/
def takeQuoted (single : Bool) :
    (fuel : Nat) → (text : List Char) → Cursor → Option (List Char × Cursor)
  | 0, _, _ => none
  | fuel + 1, text, c =>
    if c.atDocumentMark || c.rest.isEmpty then none
    else do
      let (run, stop, c) ← c.takeQuotedRun single c.steps []
      let text := text ++ run
      if c.at? (if single then '\'' else '"') then some (text, c.skip 1)
      else
        let g : Gap := match stop with
          | .stopped => {}
          | .lineJoined => { broken := true }
        let (g, c) ← c.takeGap 0 c.steps g
        takeQuoted single fuel (text ++ g.folded) c

/-! ## Block scalars -/

/-- What becomes of the line breaks at the end of a block scalar: all but one go, all go,
or all stay. -/
inductive Chomping
  | clip
  | strip
  | keep
  deriving DecidableEq

/-- How a block scalar's header asks for its breaks to be treated. -/
def chomping? (c : Char) : Option Chomping :=
  if c == '+' then some .keep else if c == '-' then some .strip else none

/-- The indentation that a header names, from 1 to 9. -/
def headerIndent? (c : Char) : Option Nat :=
  if c.isDigit && c != '0' then some (c.toNat - 0x30) else none

/-- The header of a block scalar: its chomping and the indentation it names, zero if it
names none. They may come in either order. -/
def takeBlockHeader (c : Cursor) : Option (Chomping × Nat × Cursor) :=
  match c.peek 0 >>= chomping? with
  | some chomping =>
    if (c.peek 1).any Char.isDigit then do
      let n ← c.peek 1 >>= headerIndent?
      return (chomping, n, c.skip 2)
    else some (chomping, 0, c.skip 1)
  | none =>
    if (c.peek 0).any Char.isDigit then do
      let n ← c.peek 0 >>= headerIndent?
      match c.peek 1 >>= chomping? with
      | some chomping => return (chomping, n, c.skip 2)
      | none => return (.clip, n, c.skip 1)
    else some (.clip, 0, c)

/-- Empty lines of a block scalar from here on, and the indentation of the line after
them. With an indentation of zero it is yet to be found; `deepest` is the deepest so
far. -/
def takeBlockBreaks (indent : Nat) :
    (fuel : Nat) → (deepest : Nat) → (breaks : List Char) → Cursor →
      Option (List Char × Nat × Cursor)
  | 0, _, _, _ => none
  | fuel + 1, deepest, breaks, c =>
    let spaces := (c.rest.takeWhile (· == ' ')).length
    let c := c.skip (if indent = 0 then spaces else min spaces (indent - c.column))
    let deepest := max deepest c.column
    if (indent = 0 || c.column < indent) && c.at? '\t' then none
    else if c.breakAt 0 then
      let (b, c) := c.takeBreak
      takeBlockBreaks indent fuel deepest (breaks ++ b) c
    else some (breaks, deepest, c)

/-- The state of a block scalar between lines. -/
structure BlockText where
  text : List Char := []
  lastBreak : List Char := []
  emptyLines : List Char := []
  /-- Did the last line start with a blank? -/
  indented : Bool := false

/-- The lines of a block scalar from one on. -/
def takeBlockLines (literal : Bool) (indent : Nat) :
    (fuel : Nat) → BlockText → Cursor → Option (BlockText × Cursor)
  | 0, _, _ => none
  | fuel + 1, b, c =>
    if c.column == indent && !c.rest.isEmpty then do
      let indented := c.blankAt 0
      let joint :=
        if !literal && b.lastBreak == ['\n'] && !b.indented && !indented then
          (if b.emptyLines.isEmpty then [' '] else []) ++ b.emptyLines
        else b.lastBreak ++ b.emptyLines
      let (line, c) := c.span fun x => !isBreak x
      let (lastBreak, c) := c.takeBreak
      let (emptyLines, _, c) ← c.takeBlockBreaks indent c.steps 0 []
      takeBlockLines literal indent fuel
        { text := b.text ++ joint ++ line, lastBreak, emptyLines, indented } c
    else some (b, c)

/-- A block scalar after its indicator, inside of a block with the given indentation. -/
def takeBlock (literal : Bool) (outer : Int) (c : Cursor) : Option (List Char × Cursor) := do
  let (chomping, named, c) ← c.takeBlockHeader
  let c := c.skipWhile isBlank
  let c := if c.at? '#' then c.skipWhile (!isBreak ·) else c
  if !c.lineEndAt 0 then none
  let c := c.skipBreak
  let indent := if named = 0 then 0 else if outer ≥ 0 then outer.toNat + named else named
  let (emptyLines, deepest, c) ← c.takeBlockBreaks indent c.steps 0 []
  let indent := if indent = 0 then max (max deepest (outer + 1).toNat) 1 else indent
  let (b, c) ← c.takeBlockLines literal indent c.steps { emptyLines }
  let tail := match chomping with
    | .strip => []
    | .clip => b.lastBreak
    | .keep => b.lastBreak ++ b.emptyLines
  return (b.text ++ tail, c)

/-! ## Names and tags -/

/-- The name of an anchor or alias after its indicator. -/
def takeName (c : Cursor) : Option (String × Cursor) :=
  let (name, c) := c.span isNameChar
  let ends := c.gapAt 0 || (c.peek 0).any fun x => "?:,]\x7d%@\x60".contains x
  if name.isEmpty || !ends then none else some (String.ofList name, c)

/-- A character that may stand in a tag as it is. -/
def isTagChar (verbatim : Bool) (c : Char) : Bool :=
  isNameChar c || ";/?:@&=+$.!~*'()".contains c || (verbatim && ",[]".contains c)

/-- A byte written as two hexadecimal digits after a percent sign. -/
def takeEscapedByte (c : Cursor) : Option (UInt8 × Cursor) := do
  if !c.at? '%' then none
  let n ← hexNumber? 2 (c.rest.drop 1)
  return (n.toUInt8, c.skip 3)

/-- How many bytes follow the first one of a character. -/
def furtherBytes? (first : UInt8) : Option Nat :=
  if first < 0x80 then some 0
  else if first < 0xc0 then none
  else if first < 0xe0 then some 1
  else if first < 0xf0 then some 2
  else if first < 0xf8 then some 3
  else none

/-- So many further bytes of a character. -/
def takeFurtherBytes : (count : Nat) → (bytes : TagBytes) → Cursor → Option (TagBytes × Cursor)
  | 0, bytes, c => some (bytes, c)
  | count + 1, bytes, c => do
    let (b, c) ← c.takeEscapedByte
    if b < 0x80 || 0xc0 ≤ b then none
    takeFurtherBytes count (bytes ++ [b]) c

/-- The bytes of an escaped character. Their number and kinds must fit together, but they
need not be the shortest for a character, nor stand for one at all. -/
def takeEscapedChar (c : Cursor) : Option (TagBytes × Cursor) := do
  let (first, c) ← c.takeEscapedByte
  c.takeFurtherBytes (← furtherBytes? first) [first]

/-- The bytes of a tag from here on. -/
def takeTagText (verbatim : Bool) :
    (fuel : Nat) → (bytes : TagBytes) → Cursor → Option (TagBytes × Cursor)
  | 0, bytes, c => some (bytes, c)
  | fuel + 1, bytes, c =>
    let (run, c) := c.span (isTagChar verbatim)
    let bytes := bytes ++ run.map fun x => x.toNat.toUInt8
    if c.at? '%' then do
      let (escaped, c) ← c.takeEscapedChar
      takeTagText verbatim fuel (bytes ++ escaped) c
    else some (bytes, c)

/-- The part of a tag that counts: a byte of zero ends it. -/
def significant (bytes : TagBytes) : TagBytes :=
  bytes.takeWhile (· != 0)

/-- A handle from its exclamation mark on: the mark, a name, and perhaps another mark. -/
def takeHandle (c : Cursor) : List Char × Cursor :=
  let (name, d) := (c.skip 1).span isNameChar
  if d.at? '!' then ('!' :: name ++ ['!'], d.skip 1) else ('!' :: name, d)

/-- A tag, from its exclamation mark on: its handle and what follows that. A mark with
nothing to it is a tag without a handle. -/
def takeTag (flow : Bool) (c : Cursor) : Option (String × TagBytes × Cursor) := do
  let (handle, suffix, c) ←
    if c.peek 1 == some '<' then do
      let (bytes, d) ← (c.skip 2).takeTagText true c.steps []
      if bytes.isEmpty || !d.at? '>' then none
      some ("", significant bytes, d.skip 1)
    else do
      let (handle, d) := c.takeHandle
      if handle.length > 1 && handle.getLast? == some '!' then
        let (bytes, d) ← d.takeTagText false d.steps []
        if bytes.isEmpty then none
        some (String.ofList handle, significant bytes, d)
      else
        let name := (handle.drop 1).map fun x => x.toNat.toUInt8
        let (bytes, d) ← d.takeTagText false d.steps name
        match significant bytes with
        | [] => some ("", ['!'.toNat.toUInt8], d)
        | suffix => some ("!", suffix, d)
  if c.gapAt 0 || (flow && c.at? ',') then some (handle, suffix, c) else none

/-! ## Directives -/

/-- A number of at most nine digits. -/
def takeVersionNumber (c : Cursor) : Option (Nat × Cursor) :=
  let (digits, c) := c.span Char.isDigit
  if digits.isEmpty || digits.length > 9 then none
  else some (digits.foldl (fun n d => n * 10 + (d.toNat - 0x30)) 0, c)

/-- A directive, from its percent sign on, with the rest of its line. -/
def takeDirective (c : Cursor) : Option (Token × Cursor) := do
  let (name, c) := (c.skip 1).span isNameChar
  if name.isEmpty || !c.gapAt 0 then none
  let (token, c) ←
    if name == "YAML".toList then do
      let (major, c) ← (c.skipWhile isBlank).takeVersionNumber
      if !c.at? '.' then none
      let (minor, c) ← (c.skip 1).takeVersionNumber
      some (Token.version major minor, c)
    else if name == "TAG".toList then do
      let c := c.skipWhile isBlank
      if !c.at? '!' then none
      let (handle, c) := c.takeHandle
      if handle.length > 1 && handle.getLast? != some '!' then none
      if !c.blankAt 0 then none
      let c := c.skipWhile isBlank
      let (base, c) ← c.takeTagText true c.steps []
      if base.isEmpty || !c.gapAt 0 then none
      some (Token.tagHandle (String.ofList handle) (significant base), c)
    else none
  let c := c.skipWhile isBlank
  let c := if c.at? '#' then c.skipWhile (!isBreak ·) else c
  if c.lineEndAt 0 then some (token, c.skipBreak) else none

end Cursor

end ModularSynth.Yaml
