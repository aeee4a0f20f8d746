-- Reading JSON from bytes. The whole input must be one value with blanks around it.
-- Inside a string the bytes need not be text, and an escape may name half a pair: the
-- string then has no content, and it is for the reader of the value to refuse it.
import ModularSynth.Json.Value

namespace ModularSynth.Json

/-- A byte that may stand between tokens. -/
def isBlank (b : UInt8) : Bool :=
  b == 0x20 || b == 0x0a || b == 0x0d || b == 0x09

def skipBlanks (s : List UInt8) : List UInt8 :=
  s.dropWhile isBlank

/-! ## Strings -/

/-- A part of a string: a byte of text as it stands, or a code unit named by an escape. -/
inductive Piece
  | byte (b : UInt8)
  | codeUnit (u : Nat)

def hexValue? (b : UInt8) : Option Nat :=
  if 0x30 ≤ b ∧ b ≤ 0x39 then some (b.toNat - 0x30)
  else if 0x41 ≤ b ∧ b ≤ 0x46 then some (b.toNat - 0x37)
  else if 0x61 ≤ b ∧ b ≤ 0x66 then some (b.toNat - 0x57)
  else none

/-- The byte that a one-letter escape stands for. -/
def simpleEscape? (b : UInt8) : Option UInt8 :=
  if b = 0x22 ∨ b = 0x5c ∨ b = 0x2f then some b
  else if b = 0x62 then some 0x08
  else if b = 0x66 then some 0x0c
  else if b = 0x6e then some 0x0a
  else if b = 0x72 then some 0x0d
  else if b = 0x74 then some 0x09
  else none

/-- The pieces up to the closing quote, last first, and what follows it. -/
def lexString (pieces : List Piece) : List UInt8 → Option (List Piece × List UInt8)
  | [] => none
  | b :: rest =>
    if b = 0x22 then some (pieces, rest)
    else if b < 0x20 then none
    else if b = 0x5c then
      match rest with
      | [] => none
      | e :: rest =>
        if e = 0x75 then
          match rest with
          | h₃ :: h₂ :: h₁ :: h₀ :: rest =>
            match hexValue? h₃, hexValue? h₂, hexValue? h₁, hexValue? h₀ with
            | some d₃, some d₂, some d₁, some d₀ =>
              lexString (.codeUnit (((d₃ * 16 + d₂) * 16 + d₁) * 16 + d₀) :: pieces) rest
            | _, _, _, _ => none
          | _ => none
        else
          match simpleEscape? e with
          | some c => lexString (.byte c :: pieces) rest
          | none => none
    else lexString (.byte b :: pieces) rest

/-- Is the code unit the first half of a pair? -/
def isHighHalf (u : Nat) : Bool := 0xd800 ≤ u && u ≤ 0xdbff

/-- Is the code unit the second half of a pair? -/
def isLowHalf (u : Nat) : Bool := 0xdc00 ≤ u && u ≤ 0xdfff

/-- The bytes that pieces spell. Halves of pairs must stand in pairs. -/
def spell (bytes : ByteArray) : List Piece → Option ByteArray
  | [] => some bytes
  | .byte b :: rest => spell (bytes.push b) rest
  | .codeUnit u :: .codeUnit v :: rest =>
    if isHighHalf u then
      if isLowHalf v then
        let c := Char.ofNat (0x10000 + (u - 0xd800) * 0x400 + (v - 0xdc00))
        spell (bytes ++ c.toString.toUTF8) rest
      else none
    else if isLowHalf u then none
    else spell (bytes ++ (Char.ofNat u).toString.toUTF8) (.codeUnit v :: rest)
  | .codeUnit u :: rest =>
    if isHighHalf u || isLowHalf u then none
    else spell (bytes ++ (Char.ofNat u).toString.toUTF8) rest

/-- The text of pieces given last first, if they spell one. -/
def textOf? (pieces : List Piece) : Option String :=
  spell ByteArray.empty pieces.reverse >>= String.fromUTF8?

/-! ## Numbers -/

def isDigit (b : UInt8) : Bool := 0x30 ≤ b && b ≤ 0x39

/-- The number that digits spell. -/
def ofDigits (digits : List UInt8) : Nat :=
  digits.foldl (fun n d => n * 10 + (d.toNat - 0x30)) 0

/-- Digits, of which there must be at least one, and what follows. -/
def lexDigits (s : List UInt8) : Option (List UInt8 × List UInt8) :=
  match s.takeWhile isDigit with
  | [] => none
  | digits => some (digits, s.dropWhile isDigit)

/-- What follows a fraction, and whether there was one. -/
def skipFraction (s : List UInt8) : Option (Bool × List UInt8) :=
  match s with
  | 0x2e :: rest => (lexDigits rest).map fun (_, rest) => (true, rest)
  | s => some (false, s)

/-- What follows an exponent, and whether there was one. -/
def skipExponent (s : List UInt8) : Option (Bool × List UInt8) :=
  match s with
  | e :: rest =>
    if e = 0x65 ∨ e = 0x45 then
      let rest := match rest with
        | sign :: more => if sign = 0x2b ∨ sign = 0x2d then more else rest
        | [] => rest
      (lexDigits rest).map fun (_, rest) => (true, rest)
    else some (false, s)
  | [] => some (false, [])

/-- A number. No digit follows a leading zero. -/
def lexNumber (s : List UInt8) : Option (Value × List UInt8) := do
  let (negative, s) := match s with
    | 0x2d :: rest => (true, rest)
    | s => (false, s)
  let (digits, rest) ← lexDigits s
  if digits.length > 1 ∧ digits.head? = some 0x30 then none
  let (fraction, rest) ← skipFraction rest
  let (exponent, rest) ← skipExponent rest
  let n := ofDigits digits
  if fraction || exponent || (negative && n == 0) then some (.real, rest)
  else some (.integer (if negative then -(n : Int) else n), rest)

/-! ## Values -/

/-- Drop a word that must come next. -/
def expect (word : List UInt8) (value : Value) (s : List UInt8) : Option (Value × List UInt8) :=
  if word.isPrefixOf s then some (value, s.drop word.length) else none

mutual

/-- A value and what follows it. `fuel` bounds the number of steps. -/
def readValue : (fuel : Nat) → List UInt8 → Option (Value × List UInt8)
  | 0, _ => none
  | fuel + 1, s =>
    match skipBlanks s with
    | [] => none
    | b :: rest =>
      if b = 0x22 then
        (lexString [] rest).map fun (pieces, rest) => (.text (textOf? pieces), rest)
      else if b = 0x5b then
        match skipBlanks rest with
        | 0x5d :: rest => some (.array [], rest)
        | rest => readItems fuel [] rest
      else if b = 0x7b then
        match skipBlanks rest with
        | 0x7d :: rest => some (.object [], rest)
        | rest => readMembers fuel [] rest
      else if b = 0x6e then expect [0x75, 0x6c, 0x6c] .null rest
      else if b = 0x74 then expect [0x72, 0x75, 0x65] (.bool true) rest
      else if b = 0x66 then expect [0x61, 0x6c, 0x73, 0x65] (.bool false) rest
      else lexNumber (b :: rest)

/-- The items from one on up to the closing bracket; `items` are those before, last first. -/
def readItems : (fuel : Nat) → List Value → List UInt8 → Option (Value × List UInt8)
  | 0, _, _ => none
  | fuel + 1, items, s =>
    match readValue fuel s with
    | none => none
    | some (v, rest) =>
      match skipBlanks rest with
      | 0x2c :: rest => readItems fuel (v :: items) rest
      | 0x5d :: rest => some (.array (v :: items).reverse, rest)
      | _ => none

/-- The members from one on up to the closing brace; `members` are those before, last
first. -/
def readMembers :
    (fuel : Nat) → List (Option String × Value) → List UInt8 → Option (Value × List UInt8)
  | 0, _, _ => none
  | fuel + 1, members, s =>
    match skipBlanks s with
    | 0x22 :: rest =>
      match lexString [] rest with
      | none => none
      | some (pieces, rest) =>
        match skipBlanks rest with
        | 0x3a :: rest =>
          match readValue fuel rest with
          | none => none
          | some (v, rest) =>
            match skipBlanks rest with
            | 0x2c :: rest => readMembers fuel ((textOf? pieces, v) :: members) rest
            | 0x7d :: rest => some (.object ((textOf? pieces, v) :: members).reverse, rest)
            | _ => none
        | _ => none
    | _ => none

end

/-- The value that bytes spell, if they spell exactly one. -/
def Value.ofBytes? (bytes : List UInt8) : Option Value := do
  let (v, rest) ← readValue (2 * bytes.length + 2) bytes
  if (skipBlanks rest).isEmpty then some v else none

end ModularSynth.Json
