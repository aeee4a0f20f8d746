-- Plain scalars that stand for numbers and flags. A whole number may have a sign and the
-- mark of its base; a decimal one has no leading zero. A fraction must lie within the
-- range of double precision.
namespace ModularSynth.Yaml

/-! ## Whole numbers -/

/-- The value of a digit in any base up to sixteen. -/
def digitValue? (c : Char) : Option Nat :=
  if '0' ≤ c ∧ c ≤ '9' then some (c.toNat - '0'.toNat)
  else if 'a' ≤ c ∧ c ≤ 'f' then some (c.toNat - 'a'.toNat + 10)
  else if 'A' ≤ c ∧ c ≤ 'F' then some (c.toNat - 'A'.toNat + 10)
  else none

/-- The number that digits spell after those of a number. -/
def appendDigits? (base : Nat) : (number : Nat) → List Char → Option Nat
  | n, [] => some n
  | n, c :: rest =>
    match digitValue? c with
    | some d => if d < base then appendDigits? base (n * base + d) rest else none
    | none => none

/-- The number that digits spell. There must be at least one. -/
def digits? (base : Nat) : List Char → Option Nat
  | [] => none
  | text => appendDigits? base 0 text

/-- The number that a text without sign spells. -/
def magnitude? : List Char → Option Nat
  | '0' :: 'x' :: text => digits? 16 text
  | '0' :: 'o' :: text => digits? 8 text
  | '0' :: 'b' :: text => digits? 2 text
  | '0' :: _ :: _ => none
  | text => digits? 10 text

/-- A number from zero on. It may have a plus sign. -/
def natural? : List Char → Option Nat
  | '+' :: text => magnitude? text
  | text => magnitude? text

/-- A number with or without a sign. -/
def integer? : List Char → Option Int
  | '+' :: text => (magnitude? text).map Int.ofNat
  | '-' :: text => (magnitude? text).map fun n => -(n : Int)
  | text => (magnitude? text).map Int.ofNat

/-! ## Flags -/

/-- The spellings of a flag that is on. -/
def onWords : List String := ["true", "True", "TRUE"]

/-- The spellings of a flag that is off. -/
def offWords : List String := ["false", "False", "FALSE"]

def flag? (text : String) : Option Bool :=
  if onWords.contains text then some true
  else if offWords.contains text then some false
  else none

/-! ## Fractions -/

/-- Half a step above the largest number of double precision. -/
def doubleLimit : Nat :=
  (1 <<< 1024) - (1 <<< 970)

/-- Is `n · 10^e` rounded to a number of double precision? -/
def withinDouble (n : Nat) (e : Int) : Bool :=
  let digits := (Nat.toDigits 10 n).length
  n == 0 || digits + e < 309 ||
    (digits + e == 309 &&
      if 0 ≤ e then n * Nat.pow 10 e.toNat < doubleLimit
      else n < doubleLimit * Nat.pow 10 (-e).toNat)

/-- Decimal digits at the start of a text, and what follows them. -/
def spanDigits (text : List Char) : List Char × List Char :=
  text.span Char.isDigit

/-- The exponent that a text spells after a fraction. -/
def exponent? : List Char → Option Int
  | [] => some 0
  | c :: text =>
    if c == 'e' || c == 'E' then
      match text with
      | '+' :: text => (digits? 10 text).map Int.ofNat
      | '-' :: text => (digits? 10 text).map fun n => -(n : Int)
      | text => (digits? 10 text).map Int.ofNat
    else none

/-- Does a text without sign spell a decimal number within double precision? Digits may
be missing on one side of the point, and the point may be missing. -/
def isDecimal (text : List Char) : Bool :=
  let (whole, rest) := spanDigits text
  let (part, rest) := match rest with
    | '.' :: rest => spanDigits rest
    | rest => ([], rest)
  match digits? 10 (whole ++ part), exponent? rest with
  | some n, some e => withinDouble n (e - part.length)
  | _, _ => false

/-- The spellings of what is no finite number. -/
def boundlessWords : List String :=
  [".inf", ".Inf", ".INF", "+.inf", "+.Inf", "+.INF", "-.inf", "-.Inf", "-.INF",
    ".nan", ".NaN", ".NAN"]

def isFraction : List Char → Bool
  | '+' :: text => isDecimal text
  | '-' :: text => isDecimal text
  | text => isDecimal text

/-! ## Scalars that are no text -/

/-- Decimal digits of which the first is a leading zero. They are no number, but come close. -/
def isPadded (text : List Char) : Bool :=
  let digits := match text with
    | '+' :: rest => rest
    | '-' :: rest => rest
    | rest => rest
  digits.length > 1 && digits.head? == some '0' && digits.all Char.isDigit

/-- Does a number fit into 128 bits, with or without a sign? -/
def fitsWideWord : Int → Bool
  | .ofNat n => n < 1 <<< 128
  | .negSucc n => n < 1 <<< 127

/-- Would a plain scalar be taken for a number? -/
def isNumeral (text : String) : Bool :=
  let cs := text.toList
  (integer? cs).any fitsWideWord || isPadded cs || isFraction cs || boundlessWords.contains text

def nothingWords : List String := ["", "~", "null", "Null", "NULL"]

/-- Would a plain scalar be taken for something else than a text? Words such as `yes` and
`off` are texts. -/
def isAmbiguous (text : String) : Bool :=
  nothingWords.contains text || (flag? text).isSome || isNumeral text

end ModularSynth.Yaml
