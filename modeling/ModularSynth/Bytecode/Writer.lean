-- Writing the operands of a patch in one pass. The address of a send whose target has been seen
-- is complete when it is written. Any other one is written as far as it is known, and its place
-- is kept; the label of the target adds what is missing there when it comes. What is known and
-- what is missing within an instrument is forgotten at its end.
import ModularSynth.Bytecode.Assembly

namespace ModularSynth

/-- What an address is counted from: a unit of the same instrument, or one of any. -/
inductive Symbol
  | inVoice (id : Int)
  | anywhere (id : Int)
  deriving DecidableEq, Repr, Inhabited

namespace Symbol

/-- Does the symbol mean a unit of the same instrument only? -/
def isInner : Symbol → Bool
  | .inVoice _ => true
  | .anywhere _ => false

end Symbol

/-- A step in writing a patch. -/
inductive Emission
  | operand (byte : UInt8)
  | address (symbol : Symbol) (offset : UInt16)
  | label (label : UnitLabel)
  /-- The end of an instrument. -/
  | finish
  deriving DecidableEq, Repr, Inhabited

/-- Operands being written: the bytes so far, the addresses of the symbols that have been seen,
last first, and the places of the addresses that still wait for a symbol. -/
structure Writer where
  bytes : List UInt8 := []
  known : List (Symbol × UInt16) := []
  waiting : List (Symbol × Nat) := []
  deriving Repr, Inhabited

namespace Writer

/-- Add to the address that stands at a place. -/
def addAt (bytes : List UInt8) (place : Nat) (more : UInt16) : List UInt8 :=
  match bytes[place]?, bytes[place + 1]? with
  | some low, some high =>
    let address := (low.toUInt16 ||| high.toUInt16 <<< 8) + more
    (bytes.set place address.toUInt8).set (place + 1) (address >>> 8).toUInt8
  | _, _ => bytes

/-- Give a symbol its address, also where it has been waited for. -/
def define (w : Writer) (symbol : Symbol) (address : UInt16) : Writer where
  bytes := (w.waiting.filter (·.1 == symbol)).foldl (fun bytes x => addAt bytes x.2 address) w.bytes
  known := (symbol, address) :: w.known
  waiting := w.waiting.filter (·.1 != symbol)

/-- Write an address that is counted from a symbol. -/
def refer (w : Writer) (symbol : Symbol) (offset : UInt16) : Writer :=
  match w.known.lookup symbol with
  | some address => { w with bytes := w.bytes ++ Assembly.addressBytes (offset + address) }
  | none =>
    { w with
      bytes := w.bytes ++ Assembly.addressBytes offset
      waiting := w.waiting ++ [(symbol, w.bytes.length)] }

def step (w : Writer) : Emission → Writer
  | .operand byte => { w with bytes := w.bytes ++ [byte] }
  | .address symbol offset => w.refer symbol offset
  | .label l => (w.define (.inVoice l.id) l.localAddress).define (.anywhere l.id) l.globalAddress
  | .finish =>
    { w with
      known := w.known.filter (!·.1.isInner)
      waiting := w.waiting.filter (!·.1.isInner) }

/-- Write one thing after the other. -/
def run (w : Writer) (emissions : List Emission) : Writer :=
  emissions.foldl step w

end Writer

namespace Emission

/-- The emissions of an address; one that is fixed is no more than its bytes. -/
def ofReference : Reference → List Emission
  | .fixed a => (Assembly.addressBytes a).map .operand
  | .inVoice _ id offset => [.address (.inVoice id) offset]
  | .anywhere id offset => [.address (.anywhere id) offset]

def ofInstruction (i : Instruction) : List Emission :=
  i.operands.map .operand ++ (i.address.map ofReference).getD []

/-- The emissions of a unit: its label comes before its instructions. -/
def ofUnit (a : AssembledUnit) : List Emission :=
  (a.label.map .label).toList ++ a.instructions.flatMap ofInstruction

/-- The emissions of the units of an instrument. -/
def ofInstrument (units : List AssembledUnit) : List Emission :=
  units.flatMap ofUnit ++ [.finish]

/-- The places of the bytes of addresses that are counted from a symbol, from a place on. -/
def addressPlaces (place : Nat) : List Emission → List Nat
  | [] => []
  | .operand _ :: rest => addressPlaces (place + 1) rest
  | .address .. :: rest => place :: (place + 1) :: addressPlaces (place + 2) rest
  | _ :: rest => addressPlaces place rest

end Emission

/-- What is written of a patch for a machine with the given features, step by step. -/
def Bytecode.emissions (patch : Patch) (features : Features) (bpm : Nat) :
    Except CompileError (List Emission) := do
  let (instruments, _) ← Assembly.assembleInstruments patch features 0 0 []
    (patch.instruments.zip (DelayTable.ofPatch patch bpm).2)
  return instruments.flatMap Emission.ofInstrument

end ModularSynth
