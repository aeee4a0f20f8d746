-- The order in which a machine plays voices. The bits of a bytecode say which voices share
-- an instrument with the next one; a machine that goes back to the start of a block or on to
-- the next one by these bits plays every voice once, each with the block of its instrument.
import ModularSynth.Proofs.CodeRuns
import ModularSynth.Proofs.CompiledPatch
import ModularSynth.Proofs.Voices

namespace ModularSynth

/-! ## Bits -/

namespace Assembly

theorem testBit_foldr (bits : List Bool) (h : bits.length ≤ 32) (j : Nat) :
    (bits.foldr (fun b (w : UInt32) => w <<< 1 ||| (if b then 1 else 0)) 0).toNat.testBit j =
      bits[j]?.getD false := by
  induction bits generalizing j with
  | nil => simp
  | cons b bits ih =>
    rw [List.length_cons] at h
    rw [List.foldr_cons, UInt32.toNat_or, UInt32.toNat_shiftLeft, Nat.testBit_or,
      Nat.testBit_mod_two_pow]
    cases j with
    | zero => cases b <;> simp
    | succ j =>
      have low : (if b then (1 : UInt32) else 0).toNat.testBit (j + 1) = false := by
        cases b <;> simp [Nat.testBit_succ]
      rw [low, Bool.or_false, List.getElem?_cons_succ, ← ih (by omega) j]
      by_cases hj : j + 1 < 32
      · simp [hj, Nat.testBit_shiftLeft]
      · have beyond : bits[j]?.getD false = false := by
          rw [List.getElem?_eq_none (by omega)]
          rfl
        rw [ih (by omega) j, beyond]
        simp [hj]

/-- The bit of a word with so many bits after it is the one given at its place. -/
theorem testBit_wordOfBits (bits : List Bool) (h : bits.length ≤ 32) (j : Nat) :
    (wordOfBits bits).toNat.testBit j = bits.reverse[j]?.getD false := by
  rw [wordOfBits, List.foldl_eq_foldr_reverse]
  exact testBit_foldr bits.reverse (by simpa using h) j

end Assembly

theorem Program.repeats_eq (p : Program) {left : Nat} (h : left < 32) :
    p.repeats left = p.bytecode.polyphony.toNat.testBit left := by
  unfold repeats
  rw [Nat.testBit_eq_decide_div_mod_eq, ← Nat.shiftRight_eq_div_pow]
  have word : ((p.bytecode.polyphony >>> left.toUInt32) % 2).toNat =
      p.bytecode.polyphony.toNat >>> left % 2 := by
    rw [UInt32.toNat_mod, UInt32.toNat_shiftRight]
    have : left.toUInt32.toNat % 32 = left := by
      simp only [Nat.toUInt32, UInt32.toNat_ofNat']
      omega
    rw [this]
    rfl
  rw [← word, Bool.eq_iff_iff, beq_iff_eq, decide_eq_true_iff, ← UInt32.toNat_inj]
  rfl

/-! ## Marks of voices -/

namespace Assembly

/-- The mark of a voice says whether the next voice plays the same instrument. -/
theorem marks_getElem? {sizes : List Nat} (pos : ∀ n ∈ sizes, 1 ≤ n) {v : Nat}
    (hv : v < total sizes) :
    (sizes.flatMap fun n => List.replicate (n - 1) true ++ [false])[v]? =
      some (decide (v + 1 < total sizes ∧ Patch.ownerOf sizes v = Patch.ownerOf sizes (v + 1))) := by
  induction sizes generalizing v with
  | nil => simp at hv
  | cons n sizes ih =>
    have here := pos n List.mem_cons_self
    have later : ∀ n ∈ sizes, 1 ≤ n := fun n hn => pos n (List.mem_cons_of_mem _ hn)
    rw [total_cons] at hv
    rw [List.flatMap_cons, total_cons, Patch.ownerOf, Patch.ownerOf]
    by_cases inside : v + 1 < n
    · rw [List.getElem?_append_left (by simp; omega), List.getElem?_append_left (by simp; omega),
        List.getElem?_replicate_of_lt (by omega), if_pos (by omega), if_pos inside]
      simp only [and_true, decide_eq_true (show v + 1 < n + total sizes by omega)]
    · by_cases last : v < n
      · rw [List.getElem?_append_left (by simp; omega),
          List.getElem?_append_right (by simp; omega), if_pos last, if_neg inside,
          List.length_replicate, show v - (n - 1) = 0 by omega, List.getElem?_cons_zero,
          Option.some_inj, eq_comm, decide_eq_false_iff_not]
        rintro ⟨-, same⟩
        obtain ⟨j, -, hj⟩ := Option.map_eq_some_iff.mp same.symm
        omega
      · have length : (List.replicate (n - 1) true ++ [false]).length = n := by simp; omega
        rw [List.getElem?_append_right (by omega), if_neg last, if_neg inside, length,
          ih later (by omega), Option.some_inj, decide_eq_decide,
          show v + 1 - n = v - n + 1 by omega, show v + 1 < n + total sizes ↔
            v - n + 1 < total sizes by omega]
        exact and_congr_right fun _ =>
          (Option.map_injective (fun a b h => Nat.succ.inj h)).eq_iff.symm

theorem marks_length {sizes : List Nat} (pos : ∀ n ∈ sizes, 1 ≤ n) :
    (sizes.flatMap fun n => List.replicate (n - 1) true ++ [false]).length = total sizes := by
  induction sizes with
  | nil => rfl
  | cons n sizes ih =>
    have here := pos n List.mem_cons_self
    rw [List.flatMap_cons, List.length_append, ih fun n hn => pos n (List.mem_cons_of_mem _ hn),
      total_cons]
    simp
    omega

theorem repeats_eq_marks (patch : Patch) :
    repeats patch = (patch.instruments.map (·.numVoices)).flatMap fun n =>
      List.replicate (n - 1) true ++ [false] := by
  rw [List.flatMap_map]
  rfl

end Assembly

namespace Compiled

variable {patch : Patch} {bpm : Nat} {b : Bytecode} {assembled : List (List AssembledUnit)}

theorem voices_pos (h : Compiled patch bpm b assembled) :
    ∀ n ∈ patch.instruments.map (·.numVoices), 1 ≤ n := by
  intro n hn
  obtain ⟨instrument, hi, rfl⟩ := List.mem_map.mp hn
  obtain ⟨i, hi⟩ := List.mem_iff_getElem?.mp hi
  obtain ⟨_, _, _, _, -, -, hv, -⟩ := h.of_instrument hi
  exact hv

theorem repeats_length (h : Compiled patch bpm b assembled) :
    (Assembly.repeats patch).length = patch.numVoices := by
  rw [Assembly.repeats_eq_marks, Assembly.marks_length h.voices_pos, Patch.numVoices]

/-- The bit of a voice says whether the next voice plays the same instrument. -/
theorem testBit_polyphony (h : Compiled patch bpm b assembled) {v : Nat}
    (hv : v < patch.numVoices) :
    b.polyphony.toNat.testBit (patch.numVoices - 1 - v) =
      decide (v + 1 < patch.numVoices ∧
        patch.instrumentForVoice v = patch.instrumentForVoice (v + 1)) := by
  rw [h.polyphony, Assembly.testBit_wordOfBits _ (by rw [h.repeats_length]; exact h.few),
    List.getElem?_reverse (by rw [h.repeats_length]; omega), h.repeats_length,
    show patch.numVoices - 1 - (patch.numVoices - 1 - v) = v by omega, Assembly.repeats_eq_marks,
    Assembly.marks_getElem? h.voices_pos hv]
  rfl

theorem testBit_polyphony_above (h : Compiled patch bpm b assembled) {j : Nat}
    (hj : patch.numVoices ≤ j) : b.polyphony.toNat.testBit j = false := by
  rw [h.polyphony, Assembly.testBit_wordOfBits _ (by rw [h.repeats_length]; exact h.few),
    List.getElem?_eq_none (by rw [List.length_reverse, h.repeats_length]; exact hj)]
  rfl

end Compiled

/-! ## Blocks of voices -/

namespace Bytecode

/-- Does the voice with so many after it play the same block as the next one? -/
def shares (b : Bytecode) (left : Nat) : Bool :=
  (b.polyphony >>> left.toUInt32) % 2 == 1

/-- The numbers of the blocks that so many voices play in turn, from a block on. -/
def blockNumbers (b : Bytecode) : (left block : Nat) → List Nat
  | 0, _ => []
  | left + 1, block =>
    block :: blockNumbers b left (if b.shares left then block else block + 1)

end Bytecode

section Blocks

variable {patch : Patch} {bpm : Nat} {b : Bytecode} {assembled : List (List AssembledUnit)}

/-- The bit of a voice tells the instrument of the next one. -/
theorem Compiled.next_voice (h : Compiled patch bpm b assembled) {left voice i : Nat}
    (hn : voice + (left + 2) = patch.numVoices) (hi : patch.instrumentForVoice voice = some i) :
    patch.instrumentForVoice (voice + 1) = some (if b.shares (left + 1) then i else i + 1) := by
  have few := h.few
  unfold maxVoices at few
  have bit : b.shares (left + 1) = decide (voice + 1 < patch.numVoices ∧
      patch.instrumentForVoice voice = patch.instrumentForVoice (voice + 1)) := by
    rw [← h.testBit_polyphony (by omega), show patch.numVoices - 1 - voice = left + 1 by omega]
    exact Program.repeats_eq { bytecode := b } (by omega)
  rw [bit]
  by_cases same : patch.instrumentForVoice voice = patch.instrumentForVoice (voice + 1)
  · rw [if_pos (decide_eq_true ⟨by omega, same⟩), ← same, hi]
  · rw [if_neg (by simp [same])]
    have inside : voice + 1 < total (patch.instruments.map (·.numVoices)) := by
      unfold Patch.numVoices at hn
      omega
    apply (Patch.ownerOf_succ h.voices_pos hi inside).resolve_left
    intro still
    exact same (hi.trans still.symm)

/-- Each voice of a compiled patch plays the block of its instrument. -/
theorem Compiled.blockNumbers_eq (h : Compiled patch bpm b assembled) (left voice i : Nat)
    (hn : voice + (left + 1) = patch.numVoices) (hi : patch.instrumentForVoice voice = some i) :
    (b.blockNumbers (left + 1) i).map some =
      (List.range' voice (left + 1)).map patch.instrumentForVoice := by
  induction left generalizing voice i with
  | zero =>
    rw [List.range'_succ, List.map_cons, hi]
    rfl
  | succ left ih =>
    rw [Bytecode.blockNumbers, List.range'_succ, List.map_cons, List.map_cons, hi]
    congr 1
    exact ih (voice + 1) _ (by omega) (h.next_voice hn hi)

/-- The blocks that the voices of a compiled patch play are those of their instruments. -/
theorem Compiled.blockNumbers_all (h : Compiled patch bpm b assembled) :
    (b.blockNumbers b.voices 0).map some =
      (List.range patch.numVoices).map patch.instrumentForVoice := by
  rw [h.voices, List.range_eq_range']
  cases hn : patch.numVoices with
  | zero => rfl
  | succ left =>
    have some_voice : patch.instruments.map (·.numVoices) ≠ [] := by
      intro none
      rw [Patch.numVoices, none] at hn
      cases hn
    have first := Patch.ownerOf_zero some_voice h.voices_pos
    exact h.blockNumbers_eq left 0 0 (by omega) first

theorem Compiled.blockNumber_of_voice (h : Compiled patch bpm b assembled) (voice : Nat) :
    (b.blockNumbers b.voices 0)[voice]? = patch.instrumentForVoice voice := by
  have all := congrArg (·[voice]?) h.blockNumbers_all
  simp only [List.getElem?_map] at all
  by_cases inside : voice < patch.numVoices
  · rw [List.getElem?_range inside, Option.map_some] at all
    obtain ⟨i, hi, same⟩ := Option.map_eq_some_iff.mp all
    rw [hi, same]
  · have outside : (List.range patch.numVoices)[voice]? = none := by
      rw [List.getElem?_eq_none_iff, List.length_range]
      exact Nat.le_of_not_lt inside
    rw [outside, Option.map_none, Option.map_eq_none_iff] at all
    have beyond := mt (patch.instrumentForVoice_isSome_iff voice).mp inside
    rw [all, Option.not_isSome_iff_eq_none.mp beyond]

end Blocks

/-! ## Playing the voices in turn -/

namespace Program

/-- Play a voice with the first of some blocks, from its first opcode and operand. -/
def playBlock (p : Program) (voice : Nat) : List CodeBlock → Exec Unit
  | [] => pure ()
  | block :: later => do
    modify fun s => { s with operands := CodeBlock.operandStream (block :: later) }
    p.runOpcodes voice 0 block.opcodes

/-- Play a voice with the block of its instrument. -/
def playVoice (p : Program) (patch : Patch) (voice : Nat) : Exec Unit :=
  match patch.instrumentForVoice voice with
  | none => pure ()
  | some i => p.playBlock voice (p.bytecode.blocks.drop i)

/-- Playing a block of framed code is what the machine does with its part of the stream, and
leaves the operands of the blocks after it. -/
theorem runUnits_playBlock (p : Program) (voice : Nat) {block : CodeBlock}
    {later : List CodeBlock} (framed : block.Framed) {s : Moment}
    (ho : s.operands = CodeBlock.operandStream (block :: later)) :
    (p.runUnits voice 0 (CodeBlock.opcodeStream (block :: later))).run s =
      (p.playBlock voice (block :: later) >>= fun _ => pure (CodeBlock.opcodeStream later)).run s := by
  have nonzero : ∀ op ∈ block.opcodes, op >>> 1 ≠ 0 := by
    intro op hop
    obtain ⟨c, hc, rfl⟩ := List.mem_map.mp hop
    exact (framed c hc).opcode_ne
  have unchanged : { s with operands := CodeBlock.operandStream (block :: later) } = s := by
    rw [← ho]
  rw [CodeBlock.opcodeStream_cons, p.runUnits_block voice 0 nonzero, playBlock]
  simp only [EStateM.run_bind, EStateM.run_modify, unchanged]

theorem playBlock_ends (p : Program) (voice : Nat) {block : CodeBlock} {later : List CodeBlock}
    (framed : block.Framed) (short : block.length ≤ maxUnits) (s : Moment) :
    Ends (p.playBlock voice (block :: later)) s
      (fun _ s' => s'.operands = CodeBlock.operandStream later)
      (fun e _ => ∃ c ∈ block, c.CanRaise p e) := by
  rw [playBlock, Ends.bind_iff, Ends.modify_iff]
  exact p.runOpcodes_ends framed voice 0 (by omega) (CodeBlock.operandStream_cons _ _)

section Schedule

variable (p : Program) {patch : Patch} {bpm : Nat} {assembled : List (List AssembledUnit)}
  (h : Compiled patch bpm p.bytecode assembled) (flags : patch.StereoFlags)
include h flags

/-- The code of a voice and of the instruments after it. -/
theorem blocks_of_voice {voice i : Nat} (hi : patch.instrumentForVoice voice = some i) :
    ∃ block, p.bytecode.blocks.drop i = block :: p.bytecode.blocks.drop (i + 1) ∧
      block.Framed ∧ block.length ≤ maxUnits := by
  have hlt : i < p.bytecode.blocks.length := by
    have := Patch.ownerOf_lt hi
    rw [List.length_map] at this
    rw [h.blocks_length flags]
    exact this
  exact ⟨_, List.drop_eq_getElem_cons hlt, h.blocks_framed flags _ (List.getElem_mem hlt),
    h.block_short flags _ (List.getElem_mem hlt)⟩

/-- A voice takes the operands of its block and no more. -/
theorem playVoice_ends {voice i : Nat} (hi : patch.instrumentForVoice voice = some i)
    (s : Moment) :
    Ends (p.playVoice patch voice) s
      (fun _ s' => s'.operands = CodeBlock.operandStream (p.bytecode.blocks.drop (i + 1)))
      (fun e _ => ∃ block ∈ p.bytecode.blocks, ∃ c ∈ block, c.CanRaise p e) := by
  obtain ⟨block, hb, framed, short⟩ := p.blocks_of_voice h flags hi
  have mem : block ∈ p.bytecode.blocks :=
    List.mem_of_mem_drop (hb ▸ List.mem_cons_self : block ∈ p.bytecode.blocks.drop i)
  rw [playVoice, hi]
  simp only [hb]
  exact (p.playBlock_ends voice framed short s).mono (fun _ _ h => h)
    (fun e _ h => ⟨block, mem, h⟩)

/-- After a voice the machine goes back to the start of its block or on to the next one. -/
theorem runVoices_step (left voice i : Nat) (hi : patch.instrumentForVoice voice = some i)
    (s : Moment) :
    (p.runVoices (left + 1) voice (CodeBlock.opcodeStream (p.bytecode.blocks.drop i))).run
        { s with operands := CodeBlock.operandStream (p.bytecode.blocks.drop i) } =
      match (p.playVoice patch voice).run s with
      | .error e s' => .error e s'
      | .ok _ s' =>
        if p.repeats left then
          (p.runVoices left (voice + 1) (CodeBlock.opcodeStream (p.bytecode.blocks.drop i))).run
            { s' with operands := CodeBlock.operandStream (p.bytecode.blocks.drop i) }
        else
          (p.runVoices left (voice + 1)
            (CodeBlock.opcodeStream (p.bytecode.blocks.drop (i + 1)))).run s' := by
  obtain ⟨block, hb, framed, -⟩ := p.blocks_of_voice h flags hi
  have reset : (p.playBlock voice (block :: p.bytecode.blocks.drop (i + 1))).run
      { s with operands := CodeBlock.operandStream (block :: p.bytecode.blocks.drop (i + 1)) } =
      (p.playBlock voice (block :: p.bytecode.blocks.drop (i + 1))).run s := rfl
  rw [playVoice, hi, runVoices]
  simp only [hb, EStateM.run_bind, EStateM.run_get]
  rw [p.runUnits_playBlock voice framed rfl, EStateM.run_bind, reset]
  cases (p.playBlock voice (block :: p.bytecode.blocks.drop (i + 1))).run s with
  | error e s' => rfl
  | ok _ s' =>
    simp only [EStateM.run_pure]
    split <;> rfl

/-- From the first voice on that has not played, the machine plays every voice with the block
of its instrument. -/
theorem runVoices_schedule (left voice i : Nat) (hn : voice + (left + 1) = patch.numVoices)
    (hi : patch.instrumentForVoice voice = some i) (s : Moment) :
    (p.runVoices (left + 1) voice (CodeBlock.opcodeStream (p.bytecode.blocks.drop i))).run
        { s with operands := CodeBlock.operandStream (p.bytecode.blocks.drop i) } =
      (forM (List.range' voice (left + 1)) (p.playVoice patch)).run s := by
  induction left generalizing voice i s with
  | zero =>
    rw [p.runVoices_step h flags 0 voice i hi, List.range'_succ, List.forM_cons, EStateM.run_bind]
    cases (p.playVoice patch voice).run s with
    | error e s' => rfl
    | ok _ s' =>
      have bit : p.repeats 0 = false := by
        rw [p.repeats_eq (by decide), show 0 = patch.numVoices - 1 - voice by omega,
          h.testBit_polyphony (by omega)]
        exact decide_eq_false (by omega)
      simp only [bit]
      rfl
  | succ left ih =>
    have ends := p.playVoice_ends h flags hi s
    have next : patch.instrumentForVoice (voice + 1) =
        some (if p.repeats (left + 1) then i else i + 1) := h.next_voice hn hi
    rw [p.runVoices_step h flags (left + 1) voice i hi, List.range'_succ, List.forM_cons,
      EStateM.run_bind]
    cases hr : (p.playVoice patch voice).run s with
    | error e s' => rfl
    | ok _ s' =>
      have resumed := ih (voice + 1) _ (by omega) next s'
      cases bit : p.repeats (left + 1) with
      | true =>
        rw [bit] at resumed
        exact resumed
      | false =>
        rw [bit] at resumed
        simp only [Bool.false_eq_true, if_false] at resumed ⊢
        rwa [← ends.of_ok hr] at resumed

/-- From the start of both streams, the machine plays all voices in order. -/
theorem runVoices_all {s : Moment} (ho : s.operands = p.bytecode.operands) :
    (p.runVoices p.bytecode.voices 0 p.bytecode.opcodes).run s =
      (forM (List.range patch.numVoices) (p.playVoice patch)).run s := by
  obtain ⟨opcodes, operands⟩ := h.streams flags
  rw [h.voices]
  cases hn : patch.numVoices with
  | zero => rfl
  | succ left =>
    have some_voice : patch.instruments.map (·.numVoices) ≠ [] := by
      intro none
      rw [Patch.numVoices, none] at hn
      cases hn
    have whole := p.runVoices_schedule h flags left 0 0 (by omega)
      (Patch.ownerOf_zero some_voice h.voices_pos) s
    rw [List.drop_zero, ← opcodes, ← operands, ← ho] at whole
    rw [List.range_eq_range']
    exact whole

end Schedule

/-- After the voices, a frame only checks the stack. -/
theorem runVoices_of_runFrame (p : Program) {s s' : Moment} (h : p.runFrame.run s = .ok () s') :
    (p.runVoices p.bytecode.voices 0 p.bytecode.opcodes).run s = .ok () s' := by
  unfold runFrame at h
  rw [EStateM.run_bind] at h
  cases hv : (p.runVoices p.bytecode.voices 0 p.bytecode.opcodes).run s with
  | error e s₁ =>
    rw [hv] at h
    cases h
  | ok _ s₁ =>
    rw [hv] at h
    simp only [EStateM.run_bind, EStateM.run_get] at h
    split at h <;> split at h <;> cases h
    rfl

end Program

/-- A compiled patch plays its voices in order. The bits of the bytecode say which voices play
the same instrument as the next one; and in every frame the machine plays every voice once,
with all the code of its instrument, from the first opcode and operand on. -/
theorem compile_plays_voices_in_order {patch : Patch} {bpm : Nat} {b : Bytecode}
    (compiled : Bytecode.compile patch .all bpm = .ok b) (flags : patch.StereoFlags) :
    b.voices = patch.numVoices ∧ patch.numVoices ≤ 32 ∧
    (∀ v < patch.numVoices, b.polyphony.toNat.testBit (patch.numVoices - 1 - v) = true ↔
      v + 1 < patch.numVoices ∧
        patch.instrumentForVoice v = patch.instrumentForVoice (v + 1)) ∧
    (∀ j, patch.numVoices ≤ j → b.polyphony.toNat.testBit j = false) ∧
    b.opcodes = CodeBlock.opcodeStream b.blocks ∧
    b.operands = CodeBlock.operandStream b.blocks ∧
    (∀ v < patch.numVoices, ∃ i instrument block, patch.instrumentForVoice v = some i ∧
      patch.instruments[i]? = some instrument ∧ b.blocks[i]? = some block ∧ block.Framed ∧
      block.opcodes = instrument.units.flatMap (Assembly.unitOpcodes patch i)) ∧
    ∀ (p : Program) (s : Moment), p.bytecode = b → s.operands = b.operands →
      (p.runVoices b.voices 0 b.opcodes).run s =
        (forM (List.range patch.numVoices) (p.playVoice patch)).run s ∧
      ∀ s', p.runFrame.run s = .ok () s' →
        (forM (List.range patch.numVoices) (p.playVoice patch)).run s = .ok () s' := by
  obtain ⟨assembled, h⟩ := Bytecode.compile_ok compiled
  obtain ⟨opcodes, operands⟩ := h.streams flags
  refine ⟨h.voices, h.few, fun v hv => ?_, fun j hj => h.testBit_polyphony_above hj, opcodes,
    operands, fun v hv => ?_, ?_⟩
  · rw [h.testBit_polyphony hv, decide_eq_true_iff]
  · obtain ⟨i, hi⟩ := Option.isSome_iff_exists.mp (patch.instrumentForVoice_isSome_iff v |>.mpr hv)
    have hlt := Patch.ownerOf_lt hi
    rw [List.length_map] at hlt
    obtain ⟨block, hb, code⟩ := h.block_opcodes flags (List.getElem?_eq_getElem hlt)
    exact ⟨i, _, block, hi, List.getElem?_eq_getElem hlt, hb,
      h.blocks_framed flags block (List.mem_of_getElem? hb), code⟩
  · rintro p s rfl ho
    have all := p.runVoices_all h flags ho
    refine ⟨all, fun s' hf => ?_⟩
    rw [← all]
    exact p.runVoices_of_runFrame hf

theorem compile_plays_voices_in_order_echo :
    ∃ b, Bytecode.compile echoPatch .all 100 = .ok b ∧ b.voices = 3 ∧ b.polyphony = 4 ∧
      ∀ (p : Program) (s : Moment), p.bytecode = b → s.operands = b.operands →
        (p.runVoices b.voices 0 b.opcodes).run s =
          (forM [0, 1, 2] (p.playVoice echoPatch)).run s := by
  obtain ⟨b, compiled, polyphony⟩ : ∃ b, Bytecode.compile echoPatch .all 100 = .ok b ∧
      b.polyphony = 4 := ⟨_, rfl, by decide +kernel⟩
  obtain ⟨voices, -, -, -, -, -, -, plays⟩ :=
    compile_plays_voices_in_order compiled (by decide +kernel)
  exact ⟨b, compiled, voices, polyphony, fun p s hb ho => (plays p s hb ho).1⟩

end ModularSynth
