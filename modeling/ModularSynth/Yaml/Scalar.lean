-- How a text is written as a scalar. A text that could be taken for something else, or
-- that has indicators in the wrong places, is quoted; one of several lines is written
-- line by line if it can be. Lines are never folded.
import ModularSynth.Yaml.Cursor
import ModularSynth.Yaml.Numeral
import ModularSynth.Yaml.Token

namespace ModularSynth.Yaml

/-! ## What styles allow -/

/-- A character that may be written as it is. -/
def isPrintable (c : Char) : Bool :=
  let n := c.toNat
  n == 0x0a || (0x20 ≤ n && n ≤ 0x7e) || (0xa0 ≤ n && n ≤ 0xd7ff) ||
    (0xe000 ≤ n && n ≤ 0xfffd && n != 0xfeff) || 0x10000 ≤ n

/-- Do two characters that follow each other pass a test? -/
def anyPair (test : Char → Char → Bool) (text : List Char) : Bool :=
  (text.zip (text.drop 1)).any fun (a, b) => test a b

/-- Does a space stand beside a line break? Such a space would be lost. -/
def hasSpaceAtBreak (text : List Char) : Bool :=
  anyPair (fun a b => (a == ' ' && isBreak b) || (isBreak a && b == ' ')) text

/-- Does a space stand before a line break? -/
def hasSpaceBeforeBreak (text : List Char) : Bool :=
  anyPair (fun a b => a == ' ' && isBreak b) text

/-- A first character that would start something else than a plain scalar. -/
def isIndicator (c : Char) : Bool :=
  "#,[]\x7b\x7d&*!|>'\"%@\x60".contains c

/-- Does the text start like something else than a plain scalar? -/
def startsAsOther (text : List Char) : Bool :=
  match text with
  | [] => false
  | c :: rest =>
    isIndicator c || ((c == '?' || c == '-') && rest.head?.all (· == ' ')) ||
      ['-', '-', '-'].isPrefixOf text || ['.', '.', '.'].isPrefixOf text

/-- Does the text hold what would end a plain scalar: a colon before a gap, or a space
before a hash? -/
def holdsEnd (text : List Char) : Bool :=
  text.getLast? == some ':' ||
    anyPair (fun a b => (a == ':' && b == ' ') || (a == ' ' && b == '#')) text

/-- May a text be written without quotes? -/
def allowsPlain (text : List Char) : Bool :=
  text.all (fun c => isPrintable c && !isBreak c) && text.head? != some ' ' &&
    text.getLast? != some ' ' && !startsAsOther text && !holdsEnd text

/-- May a text be written in single quotes? -/
def allowsSingleQuotes (text : List Char) : Bool :=
  text.all isPrintable && !hasSpaceAtBreak text

/-- May a text be written line by line? -/
def allowsLiteral (text : List Char) : Bool :=
  text.all isPrintable && !hasSpaceBeforeBreak text && text.getLast? != some ' '

/-- The style in which a text is written. -/
def styleOf (text : String) : ScalarStyle :=
  let cs := text.toList
  if cs.contains '\n' then
    if allowsLiteral cs then .literal else .doubleQuoted
  else if !isAmbiguous text && allowsPlain cs then .plain
  else if allowsSingleQuotes cs then .singleQuoted
  else .doubleQuoted

/-! ## Writing -/

def hexDigit (n : Nat) : Char :=
  if n < 10 then Char.ofNat ('0'.toNat + n) else Char.ofNat ('A'.toNat + (n - 10))

/-- So many hexadecimal digits of a number. -/
def hexDigits (count n : Nat) : List Char :=
  (List.range count).reverse.map fun i => hexDigit (n >>> (4 * i) % 16)

/-- The letter that stands for a character after a backslash. -/
def escapeLetter? (c : Char) : Option Char :=
  ([(0x00, '0'), (0x07, 'a'), (0x08, 'b'), (0x09, 't'), (0x0a, 'n'), (0x0b, 'v'), (0x0c, 'f'),
    (0x0d, 'r'), (0x1b, 'e'), (0x22, '"'), (0x5c, '\\'), (0x85, 'N'), (0xa0, '_'),
    (0x2028, 'L'), (0x2029, 'P')] : List (Nat × Char)).lookup c.toNat

def escape (c : Char) : List Char :=
  if isPrintable c && !isBreak c && c != '"' && c != '\\' then [c]
  else
    match escapeLetter? c with
    | some letter => ['\\', letter]
    | none =>
      let n := c.toNat
      if n ≤ 0xff then '\\' :: 'x' :: hexDigits 2 n
      else if n ≤ 0xffff then '\\' :: 'u' :: hexDigits 4 n
      else '\\' :: 'U' :: hexDigits 8 n

/-- A text with the lines after breaks indented. A line that is empty is not, unless the
text ends there and `closes` says that something follows. -/
def indentLines (indent : Nat) (closes : Bool) : (atBreak : Bool) → List Char → List Char
  | atBreak, [] => if atBreak && closes then List.replicate indent ' ' else []
  | atBreak, c :: rest =>
    if isBreak c then c :: indentLines indent closes true rest
    else
      (if atBreak then List.replicate indent ' ' else []) ++
        c :: indentLines indent closes false rest

/-- A text in single quotes, with quotes in it written twice. -/
def singleQuoted (indent : Nat) (text : List Char) : List Char :=
  '\'' :: indentLines indent true false
    (text.flatMap fun c => if c == '\'' then ['\'', '\''] else [c]) ++ ['\'']

def doubleQuoted (text : List Char) : List Char :=
  '"' :: text.flatMap escape ++ ['"']

/-- What is said of a literal scalar before its first line: the depth of its lines if the
first one does not show it, and what becomes of the breaks at its end. -/
def literalHeader (text : List Char) : List Char :=
  let depth := if text.head?.any fun c => c == ' ' || isBreak c then ['2'] else []
  let chomping := match text.reverse with
    | [] => ['-']
    | [c] => if isBreak c then ['+'] else ['-']
    | c :: d :: _ => if !isBreak c then ['-'] else if isBreak d then ['+'] else []
  '|' :: depth ++ chomping

def literal (indent : Nat) (text : List Char) : List Char :=
  literalHeader text ++ '\n' :: indentLines indent false true text

/-- A text as a scalar, whose further lines are so deep. -/
def writeText (indent : Nat) (text : String) : String :=
  let cs := text.toList
  String.ofList <|
    match styleOf text with
    | .plain => cs
    | .singleQuoted => singleQuoted indent cs
    | .literal => literal indent cs
    | _ => doubleQuoted cs

end ModularSynth.Yaml
