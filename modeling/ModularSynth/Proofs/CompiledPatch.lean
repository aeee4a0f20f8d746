-- The blocks of a compiled patch: one for each instrument, short enough for a voice, of
-- units that each have their own operands.
import ModularSynth.Proofs.CatalogueRanges
import ModularSynth.Proofs.Linked

namespace ModularSynth

theorem UnitKind.index_lt (kind : UnitKind) : kind.index < 31 := by
  cases kind <;> decide

namespace Assembly

theorem operand_toNat (n : Int) : (operand n).toNat = (n % 256).toNat := by
  unfold operand UInt8.ofInt
  simp
  omega

theorem opcodeByte_mod (kind : UnitKind) (u : PatchUnit) :
    ((opcodeByte kind u).toNat : Int) = (2 * kind.opcode + u.param "stereo") % 256 := by
  have added := operand_toNat (u.param "stereo")
  unfold operand at added
  unfold opcodeByte
  rw [UInt8.toNat_add, added, Nat.toUInt8, UInt8.toNat_ofNat']
  omega

/-- The byte of a unit stands for its kind and its channels just if its stereo parameter fits. -/
theorem opcodeByte_own (kind : UnitKind) (u : PatchUnit) :
    ((opcodeByte kind u >>> 1).toNat = kind.opcode ∧
      (opcodeByte kind u % 2 == 1) = u.isStereo) ↔ u.StereoFits := by
  have byte := opcodeByte_mod kind u
  have lt := kind.index_lt
  have half : (opcodeByte kind u >>> 1).toNat = (opcodeByte kind u).toNat / 2 := by
    simp [UInt8.toNat_shiftRight, Nat.shiftRight_eq_div_pow]
  have bit : opcodeByte kind u % 2 = 1 ↔ (opcodeByte kind u).toNat % 2 = 1 := by
    rw [← UInt8.toNat_inj, UInt8.toNat_mod]
    rfl
  unfold PatchUnit.StereoFits PatchUnit.isStereo
  rw [half, Bool.eq_iff_iff, beq_iff_eq, beq_iff_eq, bit]
  unfold UnitKind.opcode at *
  omega

/-- A parameter that does not fit is carried into the opcode. -/
example : opcodeByte .loadval { kindName := "loadval", settings := .ofEntries [("stereo", 2)] } =
    opcodeByte .mul { kindName := "mul", settings := .ofEntries [] } := by
  decide +kernel

theorem kindOf?_of_fits (kind : UnitKind) {u : PatchUnit} (fits : u.StereoFits) :
    CompiledUnit.kindOf? (opcodeByte kind u) = some kind := by
  rw [CompiledUnit.kindOf?, ((opcodeByte_own kind u).mpr fits).1]
  exact UnitKind.ofOpcode?_opcode kind

/-- The byte of a unit in mono or stereo stands for its kind. -/
theorem kindOf?_opcodeByte (kind : UnitKind) {u : PatchUnit}
    (h : u.param "stereo" = 0 ∨ u.param "stereo" = 1) :
    CompiledUnit.kindOf? (opcodeByte kind u) = some kind :=
  kindOf?_of_fits kind (.of_flag h)

theorem opcodeByte_stereo (kind : UnitKind) {u : PatchUnit}
    (h : u.param "stereo" = 0 ∨ u.param "stereo" = 1) :
    (opcodeByte kind u % 2 == 1) = u.isStereo :=
  ((opcodeByte_own kind u).mpr (.of_flag h)).2

end Assembly

open Assembly

/-! ## The code of a unit -/

/-- A compiled unit stems from an active unit of some kind at some place of a patch. -/
structure CodeOf (patch : Patch) (bpm : Nat) (b : Bytecode) (i k : Nat) (u : PatchUnit)
    (kind : UnitKind) (c : CompiledUnit) : Prop where
  unit : patch.unit? i k = some u
  active : u.isActive = true
  named : u.kind? = some kind
  made : ∃ delayStart found known code instruction find,
    ((DelayTable.ofPatch patch bpm).2[i]? >>= (·[k]?)) = some delayStart ∧
      known <+: b.sampleOffsets.toList ∧
      instructions patch ⟨i, patch.firstVoice i, delayStart⟩ (opcodeByte kind u) u found =
        .ok (code, known) ∧
      instruction ∈ code ∧ c = ⟨instruction.opcode, instructionBytes find instruction⟩

namespace CodeOf

variable {patch : Patch} {bpm : Nat} {b : Bytecode} {i k : Nat} {u : PatchUnit}
  {kind : UnitKind} {c : CompiledUnit}

theorem opcode (h : CodeOf patch bpm b i k u kind c) : c.opcode = opcodeByte kind u := by
  obtain ⟨_, _, _, _, instruction, _, -, -, code, hi, rfl⟩ := h.made
  exact ((instructions_shape h.active h.named code).2.2 instruction hi).1

theorem own_kind (h : CodeOf patch bpm b i k u kind c) (fits : u.StereoFits) :
    c.kind? = some kind := by
  rw [CompiledUnit.kind?, h.opcode]
  exact kindOf?_of_fits kind fits

theorem own_stereo (h : CodeOf patch bpm b i k u kind c) (fits : u.StereoFits) :
    c.stereo = u.isStereo := by
  rw [CompiledUnit.stereo, h.opcode]
  exact ((opcodeByte_own kind u).mpr fits).2

theorem kind_eq (h : CodeOf patch bpm b i k u kind c) (flags : patch.StereoFlags) :
    c.kind? = some kind :=
  h.own_kind (flags.fits.of_unit h.unit h.active)

theorem stereo_eq (h : CodeOf patch bpm b i k u kind c) (flags : patch.StereoFlags) :
    c.stereo = u.isStereo :=
  h.own_stereo (flags.fits.of_unit h.unit h.active)

theorem length (h : CodeOf patch bpm b i k u kind c) : c.operands.length = kind.width := by
  obtain ⟨_, _, _, _, instruction, find, -, -, code, hi, rfl⟩ := h.made
  exact ((instructions_shape h.active h.named code).2.2 instruction hi).2 find

/-- A unit on the bus names its channel. -/
theorem channel_operands (h : CodeOf patch bpm b i k u kind c)
    (hk : kind = .aux ∨ kind = .input) :
    c.operands = leadingOperands u ++ [operand (u.param "channel")] := by
  obtain ⟨_, _, _, _, instruction, find, -, -, code, hi, rfl⟩ := h.made
  have hkind := h.named
  rcases hk with rfl | rfl <;>
  · simp only [instructions, hkind, Except.ok.injEq, Prod.mk.injEq] at code
    rw [← code.1] at hi
    rw [List.mem_singleton.mp hi]
    rfl

/-- A delay names where its times begin, and how many it has on each channel. -/
theorem delay_operands (h : CodeOf patch bpm b i k u .delay c) :
    ∃ delayStart, ((DelayTable.ofPatch patch bpm).2[i]? >>= (·[k]?)) = some delayStart ∧
      linesPerChannel u ≠ 0 ∧
      c.operands = leadingOperands u ++ [operand delayStart, operand (lineCount u)] := by
  obtain ⟨delayStart, _, _, _, instruction, find, hd, -, code, hi, rfl⟩ := h.made
  refine ⟨delayStart, hd, ?_⟩
  simp only [instructions, h.named] at code
  split at code
  · simp only [Except.ok.injEq, Prod.mk.injEq] at code
    rw [← code.1] at hi
    cases hi
  · rename_i lines
    simp only [Except.ok.injEq, Prod.mk.injEq] at code
    rw [← code.1] at hi
    rw [List.mem_singleton.mp hi]
    exact ⟨lines, rfl⟩

/-- An oscillator that plays a recording names it in the place of its color. -/
theorem oscillator_operands (h : CodeOf patch bpm b i k u .oscillator c) :
    if waveform? u = some .sample then
      ∃ number, number < maxSamples ∧ b.sampleOffsets[number]? = some (sampleOffset u) ∧
        c.operands = oscillatorOperands u number
    else c.operands = oscillatorOperands u (u.param "color") := by
  obtain ⟨_, found, known, _, instruction, find, -, hl, code, hi, rfl⟩ := h.made
  simp only [instructions, h.named] at code
  split at code
  · rename_i sample
    rw [if_pos sample]
    split at code
    · rename_i few
      simp only [Except.ok.injEq, Prod.mk.injEq] at code
      obtain ⟨rfl, rfl⟩ := code
      rw [List.mem_singleton.mp hi]
      refine ⟨_, few, ?_, rfl⟩
      obtain ⟨more, hm⟩ := hl
      have stands := numberSample_getElem? found (sampleOffset u)
      have hlt := (List.getElem?_eq_some_iff.mp stands).1
      rw [← Array.getElem?_toList, ← hm, List.getElem?_append_left hlt, stands]
    · cases code
  · rename_i other
    rw [if_neg other]
    simp only [Except.ok.injEq, Prod.mk.injEq] at code
    rw [← code.1] at hi
    rw [List.mem_singleton.mp hi]
    rfl

end CodeOf

/-! ## Blocks -/

namespace Compiled

variable {patch : Patch} {bpm : Nat} {b : Bytecode} {assembled : List (List AssembledUnit)}

/-- Every compiled unit comes from an active unit of the patch, in the same instrument. -/
theorem code_of (h : Compiled patch bpm b assembled) {i : Nat} {block : CodeBlock}
    (hb : (linkBlocks [] assembled)[i]? = some block) {c : CompiledUnit} (hc : c ∈ block) :
    ∃ k u kind, CodeOf patch bpm b i k u kind c := by
  rw [linkBlocks_getElem?] at hb
  obtain ⟨units, hu, rfl⟩ := Option.map_eq_some_iff.mp hb
  obtain ⟨a, ha, instruction, hi, find, rfl⟩ := mem_linkUnits hc
  obtain ⟨k, u, delayStart, found, known, hk, hd, he, hl⟩ := h.unit_of hu ha
  obtain ⟨kind, hkind, code⟩ := he.code
  exact ⟨k, u, kind, hk, he.active, hkind, delayStart, found, known, a.instructions, instruction,
    find, hd, hl, code, hi, rfl⟩

/-- Where all stereo parameters fit, the blocks are framed. -/
theorem framed_of_fits (h : Compiled patch bpm b assembled) (fits : patch.StereoFits) :
    ∀ block ∈ linkBlocks [] assembled, block.Framed := by
  intro block hb
  obtain ⟨i, hi⟩ := List.mem_iff_getElem?.mp hb
  intro c hc
  obtain ⟨k, u, kind, code⟩ := h.code_of hi hc
  exact ⟨kind, code.own_kind (fits.of_unit code.unit code.active), code.length⟩

theorem opcodes_eq (h : Compiled patch bpm b assembled) :
    b.opcodes = CodeBlock.opcodeStream (linkBlocks [] assembled) := by
  rw [h.opcodes, opcodeBytes_flatMap []]

theorem operands_eq (h : Compiled patch bpm b assembled) :
    b.operands = CodeBlock.operandStream (linkBlocks [] assembled) := by
  rw [h.operands, operandBytes_flatten]

/-- The streams of a compiled patch come apart into the blocks of its instruments. -/
theorem blocks_of_fits (h : Compiled patch bpm b assembled) (fits : patch.StereoFits) :
    b.blocks = linkBlocks [] assembled := by
  rw [Bytecode.blocks, h.opcodes_eq, h.operands_eq,
    CodeBlock.decode_streams (h.framed_of_fits fits)]

theorem blocks_eq (h : Compiled patch bpm b assembled) (flags : patch.StereoFlags) :
    b.blocks = linkBlocks [] assembled :=
  h.blocks_of_fits flags.fits

theorem blocks_framed (h : Compiled patch bpm b assembled) (flags : patch.StereoFlags) :
    ∀ block ∈ b.blocks, block.Framed := by
  rw [h.blocks_eq flags]
  exact h.framed_of_fits flags.fits

theorem blocks_length (h : Compiled patch bpm b assembled) (flags : patch.StereoFlags) :
    b.blocks.length = patch.instruments.length := by
  rw [h.blocks_eq flags, linkBlocks_length, h.length]

theorem linked_short (h : Compiled patch bpm b assembled) :
    ∀ block ∈ linkBlocks [] assembled, block.length ≤ maxUnits := by
  intro block hb
  obtain ⟨i, hi⟩ := List.mem_iff_getElem?.mp hb
  rw [linkBlocks_getElem?] at hi
  obtain ⟨units, hu, rfl⟩ := Option.map_eq_some_iff.mp hi
  rw [linkUnits_length]
  exact h.fits hu

theorem block_short (h : Compiled patch bpm b assembled) (flags : patch.StereoFlags) :
    ∀ block ∈ b.blocks, block.length ≤ maxUnits := by
  rw [h.blocks_eq flags]
  exact h.linked_short

theorem streams (h : Compiled patch bpm b assembled) (flags : patch.StereoFlags) :
    b.opcodes = CodeBlock.opcodeStream b.blocks ∧
      b.operands = CodeBlock.operandStream b.blocks := by
  rw [h.blocks_eq flags]
  exact ⟨h.opcodes_eq, h.operands_eq⟩

/-- The block of an instrument has the opcodes of its units in order. -/
theorem block_opcodes (h : Compiled patch bpm b assembled) (flags : patch.StereoFlags) {i : Nat}
    {instrument : Instrument} (hi : patch.instruments[i]? = some instrument) :
    ∃ block, b.blocks[i]? = some block ∧
      block.opcodes = instrument.units.flatMap (unitOpcodes patch i) := by
  obtain ⟨_, units, _, _, -, hu, -, same, hs, -⟩ := h.of_instrument hi
  refine ⟨_, by rw [h.blocks_eq flags, linkBlocks_getElem?, hu]; rfl, ?_⟩
  refine List.append_cancel_right ((linkUnits_opcodes _ _ units).trans ?_)
  rw [opcodeBytes, hs.opcodes, same]

/-- A patch has opcodes of a kind only where it has active units of this kind. -/
theorem kind_of_opcode (h : Compiled patch bpm b assembled) (flags : patch.StereoFlags)
    {op : UInt8} (hop : op ∈ b.opcodes) {kind : UnitKind}
    (hk : CompiledUnit.kindOf? op = some kind) :
    ∃ instrument ∈ patch.instruments, ∃ u ∈ instrument.units, u.activeKind? = some kind := by
  rw [h.opcodes] at hop
  obtain ⟨units, hu, hop⟩ := List.mem_flatMap.mp hop
  obtain ⟨i, hi⟩ := List.mem_iff_getElem?.mp hu
  unfold opcodeBytes at hop
  rcases List.mem_append.mp hop with own | last
  · obtain ⟨a, ha, hop⟩ := List.mem_flatMap.mp own
    obtain ⟨k, u, _, _, _, place, -, emits, -⟩ := h.unit_of hi ha
    obtain ⟨instrument, hinst, hu⟩ := Option.bind_eq_some_iff.mp place
    obtain ⟨named, same, code⟩ := emits.code
    obtain ⟨instruction, hinstr, rfl⟩ := List.mem_map.mp hop
    rw [((instructions_shape emits.active same code).2.2 instruction hinstr).1,
      kindOf?_opcodeByte named (flags.of_unit place emits.active)] at hk
    refine ⟨instrument, List.mem_of_getElem? hinst, u, List.mem_of_getElem? hu, ?_⟩
    rw [PatchUnit.activeKind?_of_active emits.active, same, hk]
  · rw [List.mem_singleton.mp last] at hk
    cases hk

end Compiled

/-- A patch whose second instrument delays what two voices of the first one send to it. -/
def echoPatch : Patch where
  instruments := [
    { numVoices := 2
      units := [
        { kindName := "loadval", settings := .ofEntries [("value", 128)] },
        { kindName := "send"
          settings := .ofEntries [("amount", 128), ("target", 1), ("sendpop", 1)] }] },
    { units := [
        { kindName := "receive", id := 1, settings := .ofEntries [] },
        { kindName := "delay", settings := .ofEntries [("dry", 128)], varArgs := [100, 200] },
        { kindName := "out", settings := .ofEntries [("gain", 64)] }] }]

end ModularSynth
