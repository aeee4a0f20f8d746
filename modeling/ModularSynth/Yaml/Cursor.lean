-- A place in a YAML text. Line breaks are carriage return, line feed, both together, next
-- line, and the line and paragraph separators. Columns count characters, offsets bytes.
import ModularSynth.Total

namespace ModularSynth.Yaml

/-! ## Characters -/

def isBlank (c : Char) : Bool :=
  c == ' ' || c == '\t'

/-- A character that ends a line. -/
def isBreak (c : Char) : Bool :=
  c == '\n' || c == '\r' || c.toNat == 0x85 || c.toNat == 0x2028 || c.toNat == 0x2029

/-- A character that may stand in a name. -/
def isNameChar (c : Char) : Bool :=
  c.isAlphanum || c == '_' || c == '-'

/-- A character that may stand in a YAML text at all. -/
def isAllowed (c : Char) : Bool :=
  let n := c.toNat
  n == 0x09 || n == 0x0a || n == 0x0d || (0x20 ≤ n && n ≤ 0x7e) || n == 0x85 ||
    (0xa0 ≤ n && n ≤ 0xd7ff) || (0xe000 ≤ n && n ≤ 0xfffd) || 0x10000 ≤ n

/-- The mark that may stand at the start of a line. -/
def byteOrderMark : Char := Char.ofNat 0xfeff

/-! ## Places -/

def byteLength (text : List Char) : Nat :=
  total (text.map Char.utf8Size)

/-- The rest of a text, and how far into it that is. -/
structure Cursor where
  rest : List Char
  /-- The length of the whole text in bytes. -/
  size : Nat
  /-- How many bytes lie before this place. -/
  offset : Nat := 0
  line : Nat := 0
  column : Nat := 0
  deriving Inhabited

namespace Cursor

/-- The place at the start of a text. -/
def ofText (text : List Char) : Cursor :=
  { rest := text, size := byteLength text }

/-- How many steps of at least one character each can be taken from here on, with one more
to find that there is nothing left. -/
def steps (c : Cursor) : Nat :=
  c.size - c.offset + 1

/-- The character at a distance, if the text goes so far. -/
def peek (c : Cursor) (distance : Nat) : Option Char :=
  c.rest[distance]?

/-- Does the text go on with this character? -/
def at? (c : Cursor) (x : Char) : Bool :=
  c.peek 0 == some x

/-- Is there a space or a tab at a distance? -/
def blankAt (c : Cursor) (distance : Nat) : Bool :=
  (c.peek distance).any isBlank

/-- Is there a line break at a distance? -/
def breakAt (c : Cursor) (distance : Nat) : Bool :=
  (c.peek distance).any isBreak

/-- Is there a line break or the end of the text at a distance? -/
def lineEndAt (c : Cursor) (distance : Nat) : Bool :=
  (c.peek distance).all isBreak

/-- Is there a space, a tab, a line break or the end of the text at a distance? -/
def gapAt (c : Cursor) (distance : Nat) : Bool :=
  (c.peek distance).all fun x => isBlank x || isBreak x

/-- The place so many characters further on the same line. -/
def skip (c : Cursor) (count : Nat) : Cursor :=
  { c with
    rest := c.rest.drop count
    offset := c.offset + byteLength (c.rest.take count)
    column := c.column + count }

/-- The characters from here on that pass a test, and the place after them. They must not
end the line. -/
def span (c : Cursor) (test : Char → Bool) : List Char × Cursor :=
  let taken := c.rest.takeWhile test
  (taken, c.skip taken.length)

/-- The place after characters that pass a test. -/
def skipWhile (c : Cursor) (test : Char → Bool) : Cursor :=
  (c.span test).2

/-- The place at the start of the next line, after a break of so many bytes. -/
def nextLine (c : Cursor) (rest : List Char) (bytes : Nat) : Cursor :=
  { c with rest, offset := c.offset + bytes, line := c.line + 1, column := 0 }

/-- The place at the start of the next line, and the break before it as it stands in a
value. -/
def takeBreak (c : Cursor) : List Char × Cursor :=
  match c.rest with
  | '\r' :: '\n' :: rest => (['\n'], c.nextLine rest 2)
  | x :: rest =>
    if isBreak x then
      let kept := if x.toNat == 0x2028 || x.toNat == 0x2029 then x else '\n'
      ([kept], c.nextLine rest x.utf8Size)
    else ([], c)
  | [] => ([], c)

/-- The place at the start of the next line. -/
def skipBreak (c : Cursor) : Cursor :=
  c.takeBreak.2

/-- Does a mark that starts or ends a document stand here? -/
def atDocumentMark (c : Cursor) : Bool :=
  c.column == 0 && (['-', '-', '-'].isPrefixOf c.rest || ['.', '.', '.'].isPrefixOf c.rest) &&
    c.gapAt 3

end Cursor

end ModularSynth.Yaml
