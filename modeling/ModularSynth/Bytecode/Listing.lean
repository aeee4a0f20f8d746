-- The listing of a bytecode: a line for each unit with its operands, and the tables. It
-- reads opcodes as they are numbered when every kind of unit is available, and stops at
-- the first one that is no kind. Operands that are missing at the end read as zero.
import ModularSynth.Catalogue.Parameter
import ModularSynth.Bytecode.Basic
import ModularSynth.Bytecode.SendAddress

namespace ModularSynth

namespace Listing

/-! ## Numbers -/

/-- A text after as many blanks as make it at least so wide. -/
def padLeft (width : Nat) (fill : Char) (s : String) : String :=
  String.ofList (List.replicate (width - s.length) fill) ++ s

/-- Numbers in brackets. -/
def numbers (ns : List Nat) : String :=
  "[" ++ ", ".intercalate (ns.map toString) ++ "]"

def hexByte (b : UInt8) : String :=
  "0x" ++ padLeft 2 '0' (String.ofList (Nat.toDigits 16 b.toNat))

def binaryWord (w : UInt32) : String :=
  padLeft 32 '0' (String.ofList (Nat.toDigits 2 w.toNat))

/-! ## Lines -/

/-- What a line says of the operands that follow the leading ones. -/
def extras (kind : UnitKind) (operands : List UInt8) : String :=
  let first := operands[0]?.getD 0
  let second := operands[1]?.getD 0
  match kind with
  | .oscillator | .filter => " flags=" ++ hexByte first
  | .aux | .input => " channel=" ++ toString first
  | .delay =>
    s!" index={first} lines={(second.toNat + 1) / 2} notetracking={second % 2 == 0}"
  | .send => " " ++ SendAddress.describe (first.toUInt16 ||| second.toUInt16 <<< 8)
  | _ => ""

def unitLine (unit : Nat) (kind : UnitKind) (stereo : Bool) (operands : List UInt8) : String :=
  let leading := operands.take kind.operandCount
  "    " ++ padLeft 2 ' ' (toString unit) ++ ": " ++ kind.name ++
    (if stereo then " stereo" else "") ++
    (if leading.isEmpty then "" else " " ++ numbers (leading.map (·.toNat))) ++
    extras kind (operands.drop kind.operandCount)

/-- The lines of the opcodes from one on. -/
def unitLines (instrument unit : Nat) (operands : List UInt8) : List UInt8 → List String
  | [] => []
  | op :: rest =>
    if op = 0 then s!"end instrument {instrument}" :: unitLines (instrument + 1) 0 operands rest
    else
      match UnitKind.ofOpcode? (op >>> 1).toNat with
      | none => ["    " ++ padLeft 2 ' ' (toString unit) ++ s!": invalid opcode {op}"]
      | some kind =>
        unitLine unit kind (op % 2 == 1) operands ::
          unitLines instrument (unit + 1)
            (operands.drop (kind.operandCount + kind.extraOperandCount)) rest

def sampleLine (number : Nat) (s : SampleOffset) : String :=
  s!"sample {number}: start={s.start} loopstart={s.loopStart} looplength={s.loopLength}"

end Listing

open Listing in
/-- The lines of the listing of a bytecode. -/
def Bytecode.listingLines (b : Bytecode) : List String :=
  unitLines 0 0 b.operands b.opcodes ++
  ["delay times: " ++ numbers (b.delayTimes.toList.map (·.toNat))] ++
  b.sampleOffsets.toList.zipIdx.map (fun (s, number) => sampleLine number s) ++
  ["polyphony: " ++ binaryWord b.polyphony, s!"voices: {b.voices}"]

def Bytecode.listing (b : Bytecode) : String :=
  String.join (b.listingLines.map (· ++ "\n"))

end ModularSynth
