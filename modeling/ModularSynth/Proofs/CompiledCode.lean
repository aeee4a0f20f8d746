-- The two streams of a bytecode taken apart again: one block for each instrument, made of
-- opcodes with the operands that belong to each. Streams in which every opcode has exactly
-- its own operands come apart in one way only.
import ModularSynth.Bytecode.Listing
import ModularSynth.Total

namespace ModularSynth

/-- The number of operands of a unit of a kind. -/
def UnitKind.width (kind : UnitKind) : Nat :=
  kind.operandCount + kind.extraOperandCount

/-! ## Compiled units -/

/-- An opcode byte and the operands that belong to it. -/
structure CompiledUnit where
  opcode : UInt8
  operands : List UInt8
  deriving DecidableEq, Repr, Inhabited

namespace CompiledUnit

/-- The kind that an opcode byte stands for. -/
def kindOf? (op : UInt8) : Option UnitKind :=
  UnitKind.ofOpcode? (op >>> 1).toNat

/-- The number of operands that an opcode byte takes. -/
def widthOf (op : UInt8) : Nat :=
  ((kindOf? op).map (·.width)).getD 0

/-- The kind of a compiled unit. -/
def kind? (c : CompiledUnit) : Option UnitKind :=
  kindOf? c.opcode

/-- Does the unit work on two channels? -/
def stereo (c : CompiledUnit) : Bool :=
  c.opcode % 2 == 1

/-- The number of channels. -/
def channels (c : CompiledUnit) : Nat :=
  if c.stereo then 2 else 1

/-- The unit is of a kind and has as many operands as this kind takes. -/
def Framed (c : CompiledUnit) : Prop :=
  ∃ kind, c.kind? = some kind ∧ c.operands.length = kind.width

theorem Framed.length {c : CompiledUnit} (h : c.Framed) :
    c.operands.length = widthOf c.opcode := by
  obtain ⟨kind, hk, hl⟩ := h
  unfold kind? at hk
  simp [widthOf, hk, hl]

/-- No unit has the opcode that ends an instrument. -/
theorem Framed.opcode_ne {c : CompiledUnit} (h : c.Framed) : c.opcode >>> 1 ≠ 0 := by
  obtain ⟨kind, hk, _⟩ := h
  intro h0
  simp [kind?, kindOf?, h0, UnitKind.ofOpcode?] at hk

end CompiledUnit

/-! ## Blocks -/

/-- The compiled units of an instrument. -/
abbrev CodeBlock := List CompiledUnit

namespace CodeBlock

/-- The opcode bytes of a block. -/
def opcodes (block : CodeBlock) : List UInt8 :=
  block.map (·.opcode)

/-- The operands of a block, unit by unit. -/
def operands (block : CodeBlock) : List UInt8 :=
  block.flatMap (·.operands)

/-- Every unit of the block has its own operands. -/
def Framed (block : CodeBlock) : Prop :=
  ∀ c ∈ block, c.Framed

/-- The opcodes of blocks, with zero at the end of each. -/
def opcodeStream (blocks : List CodeBlock) : List UInt8 :=
  blocks.flatMap fun block => block.opcodes ++ [0]

/-- The operands of blocks. -/
def operandStream (blocks : List CodeBlock) : List UInt8 :=
  blocks.flatMap operands

@[simp]
theorem opcodeStream_cons (block : CodeBlock) (rest : List CodeBlock) :
    opcodeStream (block :: rest) = block.opcodes ++ 0 :: opcodeStream rest := by
  simp [opcodeStream]

@[simp]
theorem operandStream_cons (block : CodeBlock) (rest : List CodeBlock) :
    operandStream (block :: rest) = block.operands ++ operandStream rest := by
  simp [operandStream]

@[simp]
theorem operands_cons (c : CompiledUnit) (block : CodeBlock) :
    operands (c :: block) = c.operands ++ operands block := by
  simp [operands]

@[simp]
theorem opcodes_cons (c : CompiledUnit) (block : CodeBlock) :
    opcodes (c :: block) = c.opcode :: opcodes block := by
  simp [opcodes]

theorem operands_append (a b : CodeBlock) : operands (a ++ b) = operands a ++ operands b := by
  simp [operands]

/-- The operands of a framed block are as many as its opcodes take. -/
theorem Framed.operands_length {block : CodeBlock} (h : Framed block) :
    (operands block).length = total (block.opcodes.map CompiledUnit.widthOf) := by
  induction block with
  | nil => rfl
  | cons c block ih =>
    rw [operands_cons, opcodes_cons, List.length_append, List.map_cons, total_cons,
      (h c List.mem_cons_self).length, ih fun c' hc' => h c' (List.mem_cons_of_mem _ hc')]

theorem operandStream_length {blocks : List CodeBlock} (h : ∀ block ∈ blocks, Framed block) :
    (operandStream blocks).length =
      total (((opcodeStream blocks).filter (· != 0)).map CompiledUnit.widthOf) := by
  induction blocks with
  | nil => rfl
  | cons block rest ih =>
    have framed := h block List.mem_cons_self
    have nonzero : block.opcodes.filter (· != 0) = block.opcodes := by
      rw [List.filter_eq_self]
      intro op hop
      obtain ⟨c, hc, rfl⟩ := List.mem_map.mp hop
      have := (framed c hc).opcode_ne
      simp only [bne_iff_ne, ne_eq]
      rintro h0
      exact this (by rw [h0]; rfl)
    rw [operandStream_cons, opcodeStream_cons, List.length_append, framed.operands_length,
      ih fun b hb => h b (List.mem_cons_of_mem _ hb), List.filter_append, nonzero]
    simp

end CodeBlock

/-! ## Taking streams apart -/

/-- The blocks of a stream of opcodes, each unit with its operands from the other stream. -/
def CodeBlock.decode : List UInt8 → List UInt8 → List CodeBlock
  | [], _ => []
  | op :: rest, operands =>
    if op >>> 1 = 0 then [] :: decode rest operands
    else
      let width := CompiledUnit.widthOf op
      match decode rest (operands.drop width) with
      | [] => [[⟨op, operands.take width⟩]]
      | block :: blocks => (⟨op, operands.take width⟩ :: block) :: blocks

/-- The blocks of a bytecode. -/
def Bytecode.blocks (b : Bytecode) : List CodeBlock :=
  CodeBlock.decode b.opcodes b.operands

namespace CodeBlock

theorem decode_block {block : CodeBlock} (h : Framed block) (rest more : List UInt8) :
    decode (block.opcodes ++ 0 :: rest) (operands block ++ more) = block :: decode rest more := by
  induction block with
  | nil => simp [opcodes, operands, decode]
  | cons c block ih =>
    have framed := h c List.mem_cons_self
    have later : Framed block := fun c' hc' => h c' (List.mem_cons_of_mem _ hc')
    rw [opcodes_cons, operands_cons, List.cons_append, List.append_assoc, decode]
    simp only [framed.opcode_ne, if_false, ← framed.length, List.drop_left, List.take_left,
      ih later]

/-- Streams of framed blocks come apart into these blocks. -/
theorem decode_streams {blocks : List CodeBlock} (h : ∀ block ∈ blocks, Framed block) :
    decode (opcodeStream blocks) (operandStream blocks) = blocks := by
  induction blocks with
  | nil => rfl
  | cons block rest ih =>
    rw [opcodeStream_cons, operandStream_cons, decode_block (h block List.mem_cons_self),
      ih fun b hb => h b (List.mem_cons_of_mem _ hb)]

end CodeBlock

/-! ## The listing -/

namespace Listing

/-- The line of a compiled unit, from its own operands. -/
def lineOf (slot : Nat) (c : CompiledUnit) : String :=
  match c.kind? with
  | some kind => unitLine slot kind c.stereo c.operands
  | none => ""

/-- The lines of a block, from a slot on. -/
def blockLines : Nat → CodeBlock → List String
  | _, [] => []
  | slot, c :: block => lineOf slot c :: blockLines (slot + 1) block

/-- The lines of blocks, from an instrument on. Each block has a line for each of its units
and one for its end. -/
def allLines : Nat → List CodeBlock → List String
  | _, [] => []
  | instrument, block :: rest =>
    blockLines 0 block ++ s!"end instrument {instrument}" :: allLines (instrument + 1) rest

theorem extras_append (kind : UnitKind) {xs : List UInt8} (more : List UInt8)
    (h : xs.length = kind.extraOperandCount) : extras kind (xs ++ more) = extras kind xs := by
  cases kind
  case aux | input | filter | oscillator =>
    obtain ⟨a, rfl⟩ := List.length_eq_one_iff.mp h
    rfl
  case delay | send =>
    match xs, h with
    | [_, _], _ => rfl
  all_goals rfl

/-- A line shows nothing of the operands after its own. -/
theorem unitLine_append (slot : Nat) (kind : UnitKind) (stereo : Bool) {xs : List UInt8}
    (more : List UInt8) (h : xs.length = kind.width) :
    unitLine slot kind stereo (xs ++ more) = unitLine slot kind stereo xs := by
  unfold UnitKind.width at h
  unfold unitLine
  rw [List.take_append_of_le_length (by omega), List.drop_append_of_le_length (by omega),
    extras_append kind more (by rw [List.length_drop]; omega)]

theorem unitLines_block {block : CodeBlock} (h : block.Framed) (instrument slot : Nat)
    (rest more : List UInt8) :
    unitLines instrument slot (block.operands ++ more) (block.opcodes ++ 0 :: rest) =
      blockLines slot block ++
        s!"end instrument {instrument}" :: unitLines (instrument + 1) 0 more rest := by
  induction block generalizing slot with
  | nil => simp [CodeBlock.opcodes, CodeBlock.operands, unitLines, blockLines]
  | cons c block ih =>
    have later : CodeBlock.Framed block := fun c' hc' => h c' (List.mem_cons_of_mem _ hc')
    have framed := h c List.mem_cons_self
    have nonzero : c.opcode ≠ 0 := fun h0 => framed.opcode_ne (by rw [h0]; rfl)
    obtain ⟨kind, hk, hl⟩ := framed
    have hk' : UnitKind.ofOpcode? (c.opcode >>> 1).toNat = some kind := hk
    rw [CodeBlock.opcodes_cons, CodeBlock.operands_cons, List.cons_append, List.append_assoc,
      unitLines]
    simp only [nonzero, if_false, hk', blockLines, List.cons_append]
    rw [unitLine_append slot kind _ _ hl, show kind.operandCount + kind.extraOperandCount =
      c.operands.length from hl.symm, List.drop_left, ih later]
    simp [lineOf, hk, CompiledUnit.stereo]

/-- The listing of framed blocks has the line of each unit, and when it gets past them, it has
taken their operands and no more. -/
theorem unitLines_streams {blocks : List CodeBlock} (h : ∀ block ∈ blocks, block.Framed)
    (instrument : Nat) (rest more : List UInt8) :
    unitLines instrument 0 (CodeBlock.operandStream blocks ++ more)
        (CodeBlock.opcodeStream blocks ++ rest) =
      allLines instrument blocks ++ unitLines (instrument + blocks.length) 0 more rest := by
  induction blocks generalizing instrument with
  | nil => rfl
  | cons block blocks ih =>
    rw [CodeBlock.opcodeStream_cons, CodeBlock.operandStream_cons, List.append_assoc,
      List.append_assoc, List.cons_append, unitLines_block (h block List.mem_cons_self),
      ih (fun b hb => h b (List.mem_cons_of_mem _ hb)), allLines, List.append_assoc,
      List.cons_append, List.length_cons, Nat.add_right_comm, Nat.add_assoc]

theorem blockLines_length (slot : Nat) (block : CodeBlock) :
    (blockLines slot block).length = block.length := by
  induction block generalizing slot with
  | nil => rfl
  | cons c block ih => simp [blockLines, ih]

theorem allLines_length (instrument : Nat) (blocks : List CodeBlock) :
    (allLines instrument blocks).length = (CodeBlock.opcodeStream blocks).length := by
  induction blocks generalizing instrument with
  | nil => rfl
  | cons block rest ih =>
    simp [allLines, blockLines_length, ih, CodeBlock.opcodes]

end Listing

end ModularSynth
