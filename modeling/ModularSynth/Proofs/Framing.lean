-- The compiler, the machine and the listing take the streams of a bytecode apart in the same
-- way. What the compiler writes for a unit is what a machine and a listing read of it, byte
-- for byte; so a machine that runs a compiled patch never loses its place in the streams, and
-- never meets a channel, a recording or a delay time that is not there.
import ModularSynth.Proofs.FrameRuns
import ModularSynth.Proofs.VoiceSchedule

namespace ModularSynth

open Assembly

/-- The faults of a machine that has lost its place in a bytecode, or that finds in it what
does not exist. -/
def RenderFault.Malformed : RenderFault → Prop
  | .opcodesEnded | .operandsEnded | .invalidOpcode _ | .tooManyUnits => True
  | .invalidChannel _ | .invalidSample _ | .invalidDelayTime _ => True
  | _ => False

/-! ## Operands in range -/

namespace Assembly

/-- The flags of an oscillator tell a recording from the other waveforms. -/
theorem waveform_of_isRecording {u : PatchUnit} (unison : 0 ≤ u.param "unison" ∧ u.param "unison" ≤ 3)
    (h : Oscillator.isRecording (operand (oscillatorFlags u)) = true) :
    waveform? u = some .sample := by
  have plain : ∀ wave : Option Waveform, wave ≠ some .sample → ∀ slow : Bool, ∀ n : Fin 4,
      Oscillator.isRecording (operand (((wave.map (·.flag)).getD 0 : Nat) +
        (if slow then 0x08 else 0) + (n.val : Int))) = false := by
    intro wave hw
    rcases wave with _ | wave
    · decide
    · cases wave <;> first | exact absurd rfl hw | decide
  by_contra other
  have := plain (waveform? u) other (decide (u.param "lfo" = 1)) ⟨(u.param "unison").toNat, by omega⟩
  simp only [decide_eq_true_eq, Int.toNat_of_nonneg unison.1] at this
  rw [oscillatorFlags, this] at h
  cases h

/-- The delay lines that a count operand stands for are no more than the unit has. -/
theorem lineCount_le {u : PatchUnit} (lines : linesPerChannel u ≠ 0) :
    ((operand (lineCount u)).toNat + 1) / 2 ≤ linesPerChannel u := by
  rw [operand_toNat]
  unfold lineCount
  rcases Int.emod_two_eq (u.param "notetracking") with h | h <;> rw [h] <;> omega

end Assembly

/-! ## What compiled code can do wrong -/

theorem RunningUnit.Runs.operands {r : RunningUnit} {c : CompiledUnit} {kind : UnitKind}
    {leading extras : List UInt8} (h : r.Runs c) (hk : c.kind? = some kind)
    (ho : c.operands = leading ++ extras) (hl : leading.length = kind.operandCount) :
    r.kind = kind ∧ r.leading = leading ∧ r.extras = extras := by
  have same : r.kind = kind := Option.some.inj (h.kind.symm.trans hk)
  refine ⟨same, ?_, ?_⟩
  · rw [h.leading, same, ho, ← hl, List.take_left]
  · rw [h.extras, same, ho, ← hl, List.drop_left]

theorem RunningUnit.channels_le (r : RunningUnit) : r.channels ≤ 2 := by
  unfold channels
  split <;> decide

namespace DelayTable

theorem unitTimes_length {bpm : Nat} {u : PatchUnit} (h : u.activeKind? = some .delay) :
    (unitTimes bpm u).length = u.varArgs.length := by
  rw [unitTimes, if_pos (by simp [PatchUnit.isActiveOf, h])]
  split <;> simp

end DelayTable

namespace CodeOf

variable {patch : Patch} {bpm : Nat} {i k : Nat} {u : PatchUnit} {kind : UnitKind}
  {c : CompiledUnit} {b : Bytecode} {p : Program} {r : RunningUnit}

/-- The channels that a unit names exist. -/
theorem channel_exists (h : CodeOf patch bpm p.bytecode i k u kind c) (inside : patch.InCatalogue)
    (runs : r.Runs c) (channel : Nat) : ¬ r.CanFail p (.invalidChannel channel) := by
  rintro ⟨hk, rfl, beyond⟩
  have same : r.kind = kind := Option.some.inj (runs.kind.symm.trans (h.kind_eq inside.stereoFlags))
  rw [same] at hk
  have range := (inside.of_unit h.unit h.active).param_bounds h.named "channel" 0 6
    (by rcases hk with rfl | rfl <;> decide) (by decide)
  obtain ⟨-, -, extras⟩ := runs.operands (h.kind_eq inside.stereoFlags) (h.channel_operands hk)
    (leadingOperands_length h.named)
  have channel : (r.extra 0).toNat = (u.param "channel").toNat := by
    rw [RunningUnit.extra, extras, List.getElem?_cons_zero, Option.getD_some, operand_toNat]
    omega
  have := r.channels_le
  omega

/-- The recording that an oscillator plays is in the table. -/
theorem sample_exists (h : CodeOf patch bpm p.bytecode i k u kind c) (inside : patch.InCatalogue)
    (runs : r.Runs c) (number : Nat) : ¬ r.CanFail p (.invalidSample number) := by
  rintro ⟨hk, recording, rfl, beyond⟩
  have same : r.kind = kind := Option.some.inj (runs.kind.symm.trans (h.kind_eq inside.stereoFlags))
  obtain rfl : kind = .oscillator := same.symm.trans hk
  have operands := h.oscillator_operands
  have split : ∀ color, c.operands = oscillatorOperands u color →
      r.leading = (oscillatorOperands u color).take 6 ∧
        r.extras = [operand (oscillatorFlags u)] := fun color ho =>
    (runs.operands (h.kind_eq inside.stereoFlags)
      (show c.operands = (oscillatorOperands u color).take 6 ++ [operand (oscillatorFlags u)] from
        ho) rfl).2
  split at operands
  · obtain ⟨number, few, found, ho⟩ := operands
    have byte : (r.byte 3).toNat = number := by
      rw [RunningUnit.byte, (split number ho).1]
      unfold maxSamples at few
      show (operand number).toNat = number
      rw [operand_toNat]
      omega
    rw [byte] at beyond
    rw [Array.getElem?_eq_none beyond] at found
    cases found
  · rename_i other
    refine other (waveform_of_isRecording ?_ ?_)
    · exact (inside.of_unit h.unit h.active).param_bounds h.named "unison" 0 3 (by decide) (by decide)
    · rw [RunningUnit.extra, (split _ operands).2] at recording
      exact recording

/-- The place and the number of lines that a delay reads are those of its code, without their high
bits. -/
theorem delay_reads (h : CodeOf patch bpm b i k u .delay c) (flags : patch.StereoFlags)
    {start : Nat} (ho : c.operands = leadingOperands u ++ [operand start, operand (lineCount u)])
    (runs : r.Runs c) :
    (r.extra 0).toNat = start % 256 ∧
      r.lineCount = ((operand (lineCount u)).toNat + 1) / 2 := by
  obtain ⟨-, -, extras⟩ := runs.operands (h.kind_eq flags) ho (leadingOperands_length h.named)
  constructor
  · rw [RunningUnit.extra, extras, List.getElem?_cons_zero, Option.getD_some, operand_toNat]
    omega
  · rw [RunningUnit.lineCount, RunningUnit.extra, extras]
    rfl

/-- A delay has times for the lines of all its channels. -/
theorem delay_lines_le (h : CodeOf patch bpm b i k u .delay c) (flags : patch.StereoFlags)
    (runs : r.Runs c) {count : Nat} (few : count ≤ linesPerChannel u) :
    r.channels * count ≤ u.varArgs.length := by
  rw [RunningUnit.channels, runs.stereo, h.stereo_eq flags]
  unfold linesPerChannel at few
  split <;> rename_i stereo <;> simp only [stereo, if_true, Bool.false_eq_true, if_false] at few
  · omega
  · omega

/-- The times of a delay stand in the table from the place on that its code names, unless the
place does not fit into a byte. -/
theorem delay_table (h : CodeOf patch bpm b i k u .delay c)
    (table : b.delayTimes = (DelayTable.ofPatch patch bpm).1.toArray) :
    ∃ start, ((DelayTable.ofPatch patch bpm).2[i]? >>= (·[k]?)) = some start ∧
      linesPerChannel u ≠ 0 ∧
      c.operands = leadingOperands u ++ [operand start, operand (lineCount u)] ∧
      ∀ j < u.varArgs.length,
        b.delayTimes[start + j]? = ((DelayTable.unitTimes bpm u).map UInt16.ofInt)[j]? := by
  obtain ⟨start, hs, lines, ho⟩ := h.delay_operands
  have length : (DelayTable.unitTimes bpm u).length = u.varArgs.length :=
    DelayTable.unitTimes_length ((PatchUnit.activeKind?_of_active h.active).trans h.named)
  refine ⟨start, hs, lines, ho, fun j hj => ?_⟩
  have stands := DelayTable.prefix_of_start h.unit hs (List.length_pos_iff.mp (by omega))
  have few : j < ((DelayTable.unitTimes bpm u).map UInt16.ofInt).length := by
    rw [List.length_map, length]
    exact hj
  rw [table, List.getElem?_toArray, ← List.getElem?_drop, List.getElem?_eq_getElem few]
  exact List.prefix_iff_getElem?.mp stands j few

/-- The delay times that a delay reads are in the table. -/
theorem delay_times_exist (h : CodeOf patch bpm p.bytecode i k u kind c)
    (flags : patch.StereoFlags)
    (table : p.bytecode.delayTimes = (DelayTable.ofPatch patch bpm).1.toArray)
    (runs : r.Runs c) (index : Nat) : ¬ r.CanFail p (.invalidDelayTime index) := by
  rintro ⟨hk, missing, inside⟩
  have same : r.kind = kind := Option.some.inj (runs.kind.symm.trans (h.kind_eq flags))
  obtain rfl : kind = .delay := same.symm.trans hk
  obtain ⟨start, -, lines, ho, stands⟩ := h.delay_table table
  obtain ⟨place, count⟩ := h.delay_reads flags ho runs
  have all := h.delay_lines_le flags runs (count ▸ lineCount_le lines)
  have some_times : 0 < u.varArgs.length := by
    unfold linesPerChannel at lines
    split at lines <;> omega
  -- The last of the delay's own times is in the table, and the delay reads no place after it.
  have last := stands (u.varArgs.length - 1) (by omega)
  have few : u.varArgs.length - 1 < ((DelayTable.unitTimes bpm u).map UInt16.ofInt).length := by
    rw [List.length_map, DelayTable.unitTimes_length
      ((PatchUnit.activeKind?_of_active h.active).trans h.named)]
    omega
  rw [List.getElem?_eq_getElem few] at last
  have := (Array.getElem?_eq_some_iff.mp last).1
  omega

end CodeOf

namespace Compiled

variable {patch : Patch} {bpm : Nat} {assembled : List (List AssembledUnit)} {p : Program}

/-- No code of a patch that keeps to the catalogue raises a fault of a malformed bytecode. -/
theorem not_malformed (h : Compiled patch bpm p.bytecode assembled) (inside : patch.InCatalogue)
    {block : CodeBlock} (hb : block ∈ p.bytecode.blocks) {c : CompiledUnit} (hc : c ∈ block)
    {e : RenderFault} (raises : c.CanRaise p e) : ¬ e.Malformed := by
  rw [h.blocks_eq inside.stereoFlags] at hb
  obtain ⟨i, hi⟩ := List.mem_iff_getElem?.mp hb
  obtain ⟨k, u, kind, code⟩ := h.code_of hi hc
  rcases raises with rfl | ⟨kind, rfl⟩ | ⟨r, runs, fails⟩
  · exact id
  · exact id
  · cases e
    case invalidChannel => exact fun _ => code.channel_exists inside runs _ fails
    case invalidSample => exact fun _ => code.sample_exists inside runs _ fails
    case invalidDelayTime =>
      exact fun _ => code.delay_times_exist inside.stereoFlags h.delayTimes runs _ fails
    all_goals first | exact id | exact fails.elim

end Compiled

namespace Program

variable {patch : Patch} {bpm : Nat} {assembled : List (List AssembledUnit)}

theorem playVoices_ends (p : Program) (h : Compiled patch bpm p.bytecode assembled)
    (inside : patch.InCatalogue) (voices : List Nat) (s : Moment) :
    Ends (forM voices (p.playVoice patch)) s (fun _ _ => True) (fun e _ => ¬ e.Malformed) := by
  induction voices generalizing s with
  | nil => trivial
  | cons v voices ih =>
    rw [List.forM_cons, Ends.bind_iff]
    cases hi : patch.instrumentForVoice v with
    | none =>
      rw [playVoice, hi]
      exact ih s
    | some i =>
      refine (p.playVoice_ends h inside.stereoFlags hi s).mono (fun _ s' _ => ih s') ?_
      rintro e s' ⟨block, hb, c, hc, raises⟩
      exact h.not_malformed inside hb hc raises

theorem runFrame_ends (p : Program) (h : Compiled patch bpm p.bytecode assembled)
    (inside : patch.InCatalogue) {s : Moment} (ho : s.operands = p.bytecode.operands) :
    Ends p.runFrame s (fun _ _ => True) (fun e _ => ¬ e.Malformed) := by
  have voices : Ends (p.runVoices p.bytecode.voices 0 p.bytecode.opcodes) s (fun _ _ => True)
      (fun e _ => ¬ e.Malformed) := by
    unfold Ends
    rw [p.runVoices_all h inside.stereoFlags ho]
    exact p.playVoices_ends h inside _ s
  unfold runFrame
  simp only [Ends.bind_iff, Ends.get_iff]
  refine voices.mono (fun _ s' _ => ?_) (fun _ _ h => h)
  split
  · exact id
  · split
    · exact id
    · trivial

/-- Whatever the machine remembers and however long it renders, it does not fault on a
malformed bytecode. -/
theorem renderFrom_fault (p : Program) (h : Compiled patch bpm p.bytecode assembled)
    (inside : patch.InCatalogue) (maxTime : Int) (frames : Nat) (m : Machine) (stack : Stack)
    (scratch : List Signal) (progress : Progress) (done : List Frame) :
    ∀ e ∈ (p.renderFrom maxTime frames m stack scratch progress done).fault, ¬ e.Malformed := by
  apply p.renderFrom_ends (I := fun _ _ _ _ _ _ => True)
    (Q := fun r => ∀ e ∈ r.fault, ¬ e.Malformed)
  · rintro _ _ _ _ _ _ _ - e ⟨⟩
  · rintro _ _ _ _ _ _ _ -
    refine (p.runFrame_ends h inside rfl).mono (fun _ _ _ => trivial) ?_
    rintro fault _ sound e ⟨⟩
    exact sound
  · trivial

end Program

/-- A compiled patch is framed alike for everything that reads it. Its opcodes are a block for
each instrument, of at most 63 bytes that stand for kinds; its operands are as many as these
opcodes take; the listing has a line for each opcode, from exactly its own operands, and takes
all of them; and no machine, in whatever state, loses its place in it. -/
theorem compile_framed {patch : Patch} {bpm : Nat} {b : Bytecode}
    (compiled : Bytecode.compile patch .all bpm = .ok b) (inside : patch.InCatalogue) :
    b.blocks.length = patch.instruments.length ∧
    (∀ block ∈ b.blocks, block.length ≤ 63 ∧ ∀ c ∈ block, c.opcode ≠ 0 ∧
      ∃ kind, CompiledUnit.kindOf? c.opcode = some kind ∧
        c.operands.length = kind.operandCount + kind.extraOperandCount) ∧
    b.opcodes = b.blocks.flatMap (fun block => block.map (·.opcode) ++ [0]) ∧
    b.operands = b.blocks.flatMap (fun block => block.flatMap (·.operands)) ∧
    b.operands.length = total ((b.opcodes.filter (· != 0)).map CompiledUnit.widthOf) ∧
    (Listing.unitLines 0 0 b.operands b.opcodes).length = b.opcodes.length ∧
    (∀ rest more, Listing.unitLines 0 0 (b.operands ++ more) (b.opcodes ++ rest) =
      Listing.allLines 0 b.blocks ++ Listing.unitLines b.blocks.length 0 more rest) ∧
    ∀ (p : Program) (machine : Machine) (frames : Nat) (maxTime : Int), p.bytecode = b →
      ∀ fault, (p.render machine frames maxTime).fault = some fault → ¬ fault.Malformed := by
  obtain ⟨assembled, h⟩ := Bytecode.compile_ok compiled
  have flags := inside.stereoFlags
  have framed := h.blocks_framed flags
  obtain ⟨opcodes, operands⟩ := h.streams flags
  have lines : ∀ rest more, Listing.unitLines 0 0 (b.operands ++ more) (b.opcodes ++ rest) =
      Listing.allLines 0 b.blocks ++ Listing.unitLines b.blocks.length 0 more rest := by
    intro rest more
    rw [opcodes, operands, Listing.unitLines_streams framed, Nat.zero_add]
  refine ⟨h.blocks_length flags, fun block hb => ⟨h.block_short flags block hb, fun c hc => ?_⟩,
    opcodes, operands, ?_, ?_, lines, ?_⟩
  · obtain ⟨kind, hk, hl⟩ := framed block hb c hc
    exact ⟨fun h0 => (framed block hb c hc).opcode_ne (by rw [h0]; rfl), kind, hk, hl⟩
  · rw [opcodes, operands]
    exact CodeBlock.operandStream_length framed
  · have all := lines [] []
    rw [List.append_nil, List.append_nil] at all
    rw [all, List.length_append, Listing.allLines_length, ← opcodes]
    rfl
  · rintro p machine frames maxTime rfl fault hf
    exact p.renderFrom_fault h inside maxTime frames machine _ _ _ _ fault hf

theorem compile_framed_echo :
    ∃ b, Bytecode.compile echoPatch .all 100 = .ok b ∧ b.blocks.length = 2 ∧
      b.opcodes = [34, 56, 0, 54, 16, 44, 0] ∧ b.operands.length = 11 ∧
      ∀ (p : Program) (machine : Machine) (frames : Nat) (maxTime : Int), p.bytecode = b →
        ∀ fault, (p.render machine frames maxTime).fault = some fault → ¬ fault.Malformed := by
  obtain ⟨b, compiled, opcodes, operands⟩ : ∃ b, Bytecode.compile echoPatch .all 100 = .ok b ∧
      b.opcodes = [34, 56, 0, 54, 16, 44, 0] ∧ b.operands.length = 11 := ⟨_, rfl, rfl, rfl⟩
  obtain ⟨blocks, -, -, -, -, -, -, sound⟩ := compile_framed compiled (by decide +kernel)
  exact ⟨b, compiled, blocks, opcodes, operands, sound⟩

end ModularSynth
