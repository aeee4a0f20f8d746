-- Assembling a patch. First every active unit becomes instructions, in which sends still
-- name their target by its id; then the ids are resolved. Each unit with an id sets a
-- label at the place of its first instruction. A send means the last label with its id
-- up to and including its own unit, or else the first one after it.
import ModularSynth.Features
import ModularSynth.Catalogue.Waveform
import ModularSynth.Bytecode.Basic
import ModularSynth.Bytecode.SendAddress
import ModularSynth.Tables.DelayTable

namespace ModularSynth

/-! ## Labels and references -/

/-- The place of a unit with an id: its instrument, the first voice of that, and the
number of instructions before the unit. -/
structure UnitLabel where
  id : Int
  instrument : Nat
  firstVoice : Nat
  slot : Nat
  deriving DecidableEq, Repr, Inhabited

namespace UnitLabel

/-- The address of the unit's first port within its voice. -/
def localAddress (l : UnitLabel) : SendAddress :=
  ((l.slot + 1) * 16).toUInt16

/-- The address of the unit's first port in the first voice of its instrument. -/
def globalAddress (l : UnitLabel) : UInt16 :=
  l.localAddress + 16 + l.firstVoice.toUInt16 * SendAddress.voiceStride

end UnitLabel

/-- What a send names: a fixed address, or an offset to a unit of its own instrument or of
any. -/
inductive Reference
  | fixed (address : SendAddress)
  | inVoice (instrument : Nat) (id : Int) (offset : UInt16)
  | anywhere (id : Int) (offset : UInt16)
  deriving DecidableEq, Repr, Inhabited

namespace Reference

/-- The address a reference stands for, given the label that a test finds. -/
def resolve (find : (UnitLabel → Bool) → Option UnitLabel) : Reference → SendAddress
  | .fixed address => address
  | .inVoice instrument id offset =>
    match find fun l => l.id == id && l.instrument == instrument with
    | some l => offset + l.localAddress
    | none => offset
  | .anywhere id offset =>
    match find fun l => l.id == id with
    | some l => offset + l.globalAddress
    | none => offset

end Reference

/-! ## Instructions -/

/-- An opcode byte with its operands, of which an address may be the last. -/
structure Instruction where
  opcode : UInt8
  operands : List UInt8
  address : Option Reference := none
  deriving DecidableEq, Repr, Inhabited

/-- The instructions of a unit, and the label before them if the unit has an id. -/
structure AssembledUnit where
  label : Option UnitLabel
  instructions : List Instruction
  deriving DecidableEq, Repr, Inhabited

namespace Assembly

/-- A number as an operand, of which the last eight bits are kept. -/
def operand (n : Int) : UInt8 :=
  UInt8.ofInt n

/-- The leading operands of a unit. A unit of no known kind has none. -/
def leadingOperands (u : PatchUnit) : List UInt8 :=
  match u.kind? with
  | some kind => kind.operandParams.map fun p => operand (u.param p.name)
  | none => []

def waveform? (u : PatchUnit) : Option Waveform :=
  Waveform.ofNumber? (u.param "type")

/-- The recording that a sample oscillator plays. A loop has at least one sample. -/
def sampleOffset (u : PatchUnit) : SampleOffset :=
  let length := UInt16.ofInt (u.param "looplength")
  { start := UInt32.ofInt (u.param "samplestart")
    loopStart := UInt16.ofInt (u.param "loopstart")
    loopLength := if length = 0 then 1 else length }

/-- The flags of an oscillator: its waveform, whether it is slow, and its unison. -/
def oscillatorFlags (u : PatchUnit) : Int :=
  ((waveform? u).map (·.flag)).getD 0 + (if u.param "lfo" = 1 then 0x08 else 0) + u.param "unison"

def oscillatorOperands (u : PatchUnit) (color : Int) : List UInt8 :=
  [u.param "transpose", u.param "detune", u.param "phase", color, u.param "shape",
    u.param "gain", oscillatorFlags u].map operand

/-- The flags of a filter: which bands it lets through, and which it takes away. -/
def filterFlags (u : PatchUnit) : Int :=
  (if u.param "lowpass" = 1 then 0x40 else 0) +
  (if u.param "bandpass" = 1 then 0x20 else 0) +
  (if u.param "highpass" = 1 then 0x10 else 0) +
  (if u.param "bandpass" = -1 then 0x08 else 0) +
  (if u.param "highpass" = -1 then 0x04 else 0)

/-- The number of delay lines of a delay on each channel. -/
def linesPerChannel (u : PatchUnit) : Nat :=
  if u.isStereo then u.varArgs.length / 2 else u.varArgs.length

/-- The count operand of a delay: odd unless it tracks notes. -/
def lineCount (u : PatchUnit) : Int :=
  linesPerChannel u * 2 - 1 + u.param "notetracking" % 2

/-! ## Sends -/

def sendPort (u : PatchUnit) : UInt16 :=
  UInt16.ofInt (u.param "port" % 8)

/-- The bit of a send that takes its signal off the stack. -/
def sendPop (u : PatchUnit) : UInt16 :=
  if u.param "sendpop" = 1 then SendAddress.popBit else 0

/-- The voices of a target's instrument that a send reaches: one, or all of them. -/
def sendVoices (u : PatchUnit) (targetVoices : Nat) : List Nat :=
  let voice := u.param "voice"
  if voice > 0 then [(voice - 1).toNat] else List.range targetVoices

/-- References to one unit in each of some voices; the last takes the signal off the
stack if any does. -/
def voiceReferences (u : PatchUnit) : List Nat → List Reference
  | [] => []
  | voice :: rest =>
    let offset := sendPort u + SendAddress.globalBit + voice.toUInt16 * SendAddress.voiceStride
    let offset := if rest.isEmpty then offset + sendPop u else offset
    .anywhere (u.param "target") offset :: voiceReferences u rest

/-- What a send in an instrument names. A send to the same voice needs one address, one
that leaves its voice needs an address for each voice that it reaches. -/
def sendReferences (patch : Patch) (instrument : Nat) (u : PatchUnit) : List Reference :=
  let id := u.param "target"
  match patch.findUnit id with
  | none => [.fixed (SendAddress.scratch ||| sendPop u)]
  | some (target, _) =>
    if target = instrument ∧ u.param "voice" = 0 then
      [.inVoice instrument id (sendPort u + sendPop u)]
    else
      let voices := (patch.instruments[target]?.map (·.numVoices)).getD 0
      voiceReferences u (sendVoices u voices)

/-! ## Units -/

/-- Add a recording to the table unless it is there, and give its number. -/
def numberSample (samples : List SampleOffset) (offset : SampleOffset) :
    List SampleOffset × Nat :=
  match samples.findIdx? (· == offset) with
  | some number => (samples, number)
  | none => (samples ++ [offset], samples.length)

/-- What assembling needs to know about a unit's surroundings. -/
structure Place where
  instrument : Nat
  firstVoice : Nat
  /-- Where the unit's delay times begin. -/
  delayStart : Nat

/-- The instructions of a unit, and the recordings known after it. A delay without lines
has none. -/
def instructions (patch : Patch) (place : Place) (opcode : UInt8) (u : PatchUnit)
    (samples : List SampleOffset) : Except CompileError (List Instruction × List SampleOffset) :=
  let leading := leadingOperands u
  match u.kind? with
  | some .oscillator =>
    if waveform? u = some .sample then
      let (samples, number) := numberSample samples (sampleOffset u)
      if number < maxSamples then .ok ([⟨opcode, oscillatorOperands u number, none⟩], samples)
      else .error .tooManySamples
    else .ok ([⟨opcode, oscillatorOperands u (u.param "color"), none⟩], samples)
  | some .delay =>
    if linesPerChannel u = 0 then .ok ([], samples)
    else
      .ok ([⟨opcode, leading ++ [operand place.delayStart, operand (lineCount u)], none⟩], samples)
  | some .aux | some .input =>
    .ok ([⟨opcode, leading ++ [operand (u.param "channel")], none⟩], samples)
  | some .filter => .ok ([⟨opcode, leading ++ [operand (filterFlags u)], none⟩], samples)
  | some .send =>
    .ok ((sendReferences patch place.instrument u).map fun r => ⟨opcode, leading, some r⟩, samples)
  | _ => .ok ([⟨opcode, leading, none⟩], samples)

/-- The units of an instrument from one on, the number of instructions before it given.
Units that are not active leave nothing behind. -/
def assembleUnits (patch : Patch) (features : Features) (instrument firstVoice slot : Nat)
    (samples : List SampleOffset) :
    List (PatchUnit × Nat) → Except CompileError (List AssembledUnit × List SampleOffset)
  | [] => .ok ([], samples)
  | (u, delayStart) :: rest =>
    if u.isActive then do
      let some opcode := features.opcode? u.kindName
        | .error (.unsupportedUnit u.kindName)
      let opcode := opcode + UInt8.ofInt (u.param "stereo")
      let (code, samples) ← instructions patch ⟨instrument, firstVoice, delayStart⟩ opcode u samples
      let label := if u.id = 0 then none else some ⟨u.id, instrument, firstVoice, slot⟩
      let slot := slot + code.length
      if slot > maxUnits then .error (.tooManyUnits instrument)
      else
        let (units, samples) ←
          assembleUnits patch features instrument firstVoice slot samples rest
        return (⟨label, code⟩ :: units, samples)
    else assembleUnits patch features instrument firstVoice slot samples rest

/-- The instruments of a patch from one on, the number of voices before it given. -/
def assembleInstruments (patch : Patch) (features : Features) (instrument firstVoice : Nat)
    (samples : List SampleOffset) :
    List (Instrument × List Nat) →
      Except CompileError (List (List AssembledUnit) × List SampleOffset)
  | [] => .ok ([], samples)
  | (i, delayStarts) :: rest =>
    if i.numVoices < 1 then .error (.noVoices instrument)
    else do
      let (units, samples) ← assembleUnits patch features instrument firstVoice 0 samples
        (i.units.zip delayStarts)
      let (later, samples) ← assembleInstruments patch features (instrument + 1)
        (firstVoice + i.numVoices) samples rest
      return (units :: later, samples)

/-! ## Resolving -/

/-- The bytes of an address, low byte first. -/
def addressBytes (a : SendAddress) : List UInt8 :=
  [a.toUInt8, (a >>> 8).toUInt8]

def instructionBytes (find : (UnitLabel → Bool) → Option UnitLabel) (i : Instruction) :
    List UInt8 :=
  match i.address with
  | none => i.operands
  | some r => i.operands ++ addressBytes (r.resolve find)

/-- The operands of units, given the labels before them, last first. -/
def operandBytes (before : List UnitLabel) : List AssembledUnit → List UInt8
  | [] => []
  | u :: rest =>
    let before := u.label.toList ++ before
    let after := rest.filterMap (·.label)
    let find := fun test => before.find? test <|> after.find? test
    u.instructions.flatMap (instructionBytes find) ++ operandBytes before rest

/-- The opcode bytes of an instrument, with zero at the end. -/
def opcodeBytes (units : List AssembledUnit) : List UInt8 :=
  (units.flatMap fun u => u.instructions.map (·.opcode)) ++ [0]

/-- For each voice, whether the next one plays the same instrument. -/
def repeats (patch : Patch) : List Bool :=
  patch.instruments.flatMap fun i => List.replicate (i.numVoices - 1) true ++ [false]

/-- The word whose bits are given, highest first. -/
def wordOfBits (bits : List Bool) : UInt32 :=
  bits.foldl (fun w b => w <<< 1 ||| (if b then 1 else 0)) 0

end Assembly

/-- Compile a patch for a machine with the given features, at a speed in beats per
minute. -/
def Bytecode.compile (patch : Patch) (features : Features) (bpm : Nat) :
    Except CompileError Bytecode := do
  if patch.numVoices > maxVoices then .error (.tooManyVoices patch.numVoices)
  else
    let (delayTimes, delayStarts) := DelayTable.ofPatch patch bpm
    let (instruments, samples) ← Assembly.assembleInstruments patch features 0 0 []
      (patch.instruments.zip delayStarts)
    return {
      opcodes := instruments.flatMap Assembly.opcodeBytes
      operands := Assembly.operandBytes [] instruments.flatten
      delayTimes := delayTimes.toArray
      sampleOffsets := samples.toArray
      polyphony := Assembly.wordOfBits (Assembly.repeats patch)
      voices := patch.numVoices }

end ModularSynth
