-- The recordings of a patch. Each stands in the table once, however many oscillators play it, and
-- an oscillator finds its own by a byte of its code to which nothing that is sent to it is added.
import Mathlib.Data.List.Dedup
import Mathlib.Data.List.Perm.Basic
import ModularSynth.Proofs.Framing
import ModularSynth.Proofs.Limits
import ModularSynth.Proofs.SendTargets

namespace ModularSynth

open Assembly

/-! ## What a patch asks for -/

/-- Is the unit an active oscillator that plays a recording? -/
def PatchUnit.PlaysRecording (u : PatchUnit) : Prop :=
  u.activeKind? = some .oscillator ∧ u.param "type" = 4

instance : DecidablePred PatchUnit.PlaysRecording :=
  fun u => inferInstanceAs (Decidable (u.activeKind? = some .oscillator ∧ u.param "type" = 4))

namespace Patch

/-- The recordings that the oscillators of a patch ask for, oscillator by oscillator. -/
def recordingsAsked (patch : Patch) : List SampleOffset :=
  ((patch.instruments.flatMap (·.units)).filter (·.PlaysRecording)).map sampleOffset

/-- The number of different recordings that the oscillators of a patch ask for. -/
def differentRecordings (patch : Patch) : Nat :=
  patch.recordingsAsked.dedup.length

end Patch

namespace Assembly

theorem waveform?_eq_sample {u : PatchUnit} :
    waveform? u = some .sample ↔ u.param "type" = 4 := by
  unfold waveform? Waveform.ofNumber?
  constructor
  · intro h
    repeat' split at h
    all_goals first | assumption | cases h
  · intro h
    rw [h]
    rfl

/-- A loop is at least one sample long, even if the unit says that it is none. -/
theorem sampleOffset_loop (u : PatchUnit) :
    (sampleOffset u).loopLength.toNat = max (UInt16.ofInt (u.param "looplength")).toNat 1 := by
  unfold sampleOffset
  simp only
  generalize UInt16.ofInt (u.param "looplength") = length
  split
  · rename_i none
    rw [none]
    rfl
  · rename_i some
    have : length.toNat ≠ 0 := fun zero => some (UInt16.toNat_inj.mp zero)
    omega

end Assembly

theorem PatchUnit.recording?_eq_some {u : PatchUnit} {offset : SampleOffset} :
    u.recording? = some offset ↔ u.PlaysRecording ∧ sampleOffset u = offset := by
  unfold recording? PlaysRecording
  simp only [waveform?_eq_sample]
  split
  · rename_i plays
    simp [plays]
  · rename_i other
    simp [other]

namespace Patch

theorem mem_recordingsAsked {patch : Patch} {offset : SampleOffset} :
    offset ∈ patch.recordingsAsked ↔
      ∃ i k u, patch.unit? i k = some u ∧ u.PlaysRecording ∧ sampleOffset u = offset := by
  unfold recordingsAsked
  simp only [List.mem_map, List.mem_filter, List.mem_flatMap, decide_eq_true_eq]
  constructor
  · rintro ⟨u, ⟨⟨instrument, hi, hu⟩, plays⟩, same⟩
    obtain ⟨i, hi⟩ := List.mem_iff_getElem?.mp hi
    obtain ⟨k, hk⟩ := List.mem_iff_getElem?.mp hu
    exact ⟨i, k, u, Option.bind_eq_some_iff.mpr ⟨instrument, hi, hk⟩, plays, same⟩
  · rintro ⟨i, k, u, hu, plays, same⟩
    obtain ⟨instrument, hi, hk⟩ := Option.bind_eq_some_iff.mp hu
    exact ⟨u, ⟨⟨instrument, List.mem_of_getElem? hi, List.mem_of_getElem? hk⟩, plays⟩, same⟩

/-- The table has exactly the recordings that the patch asks for. -/
theorem mem_recordings {patch : Patch} {offset : SampleOffset} :
    offset ∈ patch.recordings ↔ offset ∈ patch.recordingsAsked := by
  unfold recordings recordingsAsked
  rw [mem_addRecordings]
  simp only [PatchUnit.recording?_eq_some, List.not_mem_nil, false_or, List.mem_map,
    List.mem_filter, decide_eq_true_eq, and_assoc]

theorem recordings_length (patch : Patch) :
    patch.recordings.length = patch.differentRecordings := by
  have once : patch.recordings.Nodup := nodup_addRecordings List.nodup_nil _
  apply List.Perm.length_eq
  rw [List.perm_ext_iff_of_nodup once (List.nodup_dedup _)]
  intro offset
  rw [mem_recordings, List.mem_dedup]

end Patch

/-! ## The table of a compiled patch -/

namespace Assembly

section Tables

variable {patch : Patch} {instrument firstVoice slot : Nat} {samples later : List SampleOffset}

theorem Emits.recordings {delayStart : Nat} {u : PatchUnit} {a : AssembledUnit}
    (h : Emits patch instrument firstVoice slot u delayStart samples a later)
    (few : samples.length ≤ maxSamples) :
    later = addRecording samples u ∧ later.length ≤ maxSamples := by
  obtain ⟨kind, hk, code⟩ := h.code
  rcases instructions_room patch ⟨instrument, firstVoice, delayStart⟩ (opcodeByte kind u)
    h.active hk few with ⟨_, made, room⟩ | ⟨full, -⟩
  · rw [code] at made
    cases made
    exact ⟨rfl, room⟩
  · rw [code] at full
    cases full

/-- The recordings known after an instrument are those of its units and those known before. -/
theorem Assembles.recordings {units : List (PatchUnit × Nat)} {assembled : List AssembledUnit}
    (h : Assembles patch instrument firstVoice slot samples units assembled later)
    (few : samples.length ≤ maxSamples) :
    later = addRecordings samples (units.map (·.1)) ∧ later.length ≤ maxSamples := by
  induction h with
  | nil => exact ⟨rfl, few⟩
  | @skip _ _ _ u _ _ _ inactive _ ih =>
    rw [List.map_cons, addRecordings_cons, addRecording_inactive _ inactive]
    exact ih few
  | emit head _ ih =>
    obtain ⟨same, room⟩ := head.recordings few
    rw [List.map_cons, addRecordings_cons, ← same]
    exact ih room

theorem AssemblesAll.recordings {instruments : List (Instrument × List Nat)}
    {assembled : List (List AssembledUnit)}
    (h : AssemblesAll patch instrument firstVoice samples instruments assembled later)
    (few : samples.length ≤ maxSamples)
    (starts : ∀ x ∈ instruments, (x.1.units.zip x.2).map (·.1) = x.1.units) :
    later = addRecordings samples ((instruments.map (·.1)).flatMap (·.units)) ∧
      later.length ≤ maxSamples := by
  induction h with
  | nil => exact ⟨rfl, few⟩
  | cons _ head _ ih =>
    obtain ⟨same, room⟩ := head.recordings few
    rw [starts _ List.mem_cons_self] at same
    rw [List.map_cons, List.flatMap_cons, addRecordings_append, ← same]
    exact ih room fun x hx => starts x (List.mem_cons_of_mem _ hx)

end Tables

/-- With up to four soundings, the flags of an oscillator that plays a recording say so. -/
theorem isRecording_of_waveform {u : PatchUnit}
    (unison : 0 ≤ u.param "unison" ∧ u.param "unison" ≤ 3) (sample : waveform? u = some .sample) :
    Oscillator.isRecording (operand (oscillatorFlags u)) = true := by
  have set : ∀ slow : Bool, ∀ n : Fin 4, Oscillator.isRecording
      (operand ((Waveform.sample.flag : Nat) + (if slow then 0x08 else 0) + (n.val : Int))) =
        true := by
    decide
  have here := set (decide (u.param "lfo" = 1)) ⟨(u.param "unison").toNat, by omega⟩
  simp only [decide_eq_true_eq, Int.toNat_of_nonneg unison.1] at here
  rw [oscillatorFlags, sample]
  exact here

end Assembly

/-- The table of a compiled patch has each recording once, and no more than a byte can number. -/
theorem Compiled.recordings {patch : Patch} {bpm : Nat} {b : Bytecode}
    {assembled : List (List AssembledUnit)} (h : Compiled patch bpm b assembled) :
    b.sampleOffsets.toList = patch.recordings ∧ b.sampleOffsets.size ≤ maxSamples := by
  obtain ⟨same, room⟩ := h.units.recordings (Nat.zero_le _) (DelayTable.units_zip patch bpm)
  rw [DelayTable.instruments_zip] at same
  exact ⟨same, room⟩

/-! ## Playing a recording -/

/-- Run an oscillator on a recording. -/
def RunningUnit.play (r : RunningUnit) (p : Program) (recording : SampleOffset) : Exec Unit :=
  modify fun s =>
    let slot := s.machine.slot r.voice r.slot
    let (slot, phase, stack) := (r.oscillator p recording slot).run r.channels slot s.stack
    { s with
      machine := s.machine.adjustSlot r.voice r.slot fun _ => slot.clearPort 6
      stack, scratch := s.scratch.set 2 phase }

/-- An oscillator plays the recording whose number its byte is, whatever has been sent to it. -/
theorem RunningUnit.run_recording {r : RunningUnit} {p : Program} {recording : SampleOffset}
    (kind : r.kind = .oscillator)
    (known : p.bytecode.sampleOffsets[(r.byte 3).toNat]? = some recording) :
    r.run p = r.play p recording := by
  unfold run
  rw [kind]
  unfold runOscillator play
  simp only [known]
  split
  · rename_i none
    cases none
  · rfl

section Oscillators

variable {patch : Patch} {bpm : Nat} {b : Bytecode} {i k : Nat} {u : PatchUnit} {c : CompiledUnit}

/-- The code of an oscillator that plays a recording has the number of its own recording in the
place of its color, and whatever runs this code plays that. -/
theorem CodeOf.own_recording (h : CodeOf patch bpm b i k u .oscillator c)
    (flags : patch.StereoFlags) (sample : u.param "type" = 4)
    (unison : 0 ≤ u.param "unison" ∧ u.param "unison" ≤ 3) :
    ∃ number, c.operands[3]? = some number ∧
      b.sampleOffsets[number.toNat]? = some (sampleOffset u) ∧
      ∀ (r : RunningUnit) (p : Program), r.Runs c → p.bytecode = b →
        r.byte 3 = number ∧ Oscillator.isRecording (r.extra 0) = true ∧
          r.run p = r.play p (sampleOffset u) := by
  have waveform := waveform?_eq_sample.mpr sample
  have operands := h.oscillator_operands
  rw [if_pos waveform] at operands
  obtain ⟨number, few, found, operands⟩ := operands
  have byte : (operand number).toNat = number := by
    unfold maxSamples at few
    rw [operand_toNat]
    omega
  refine ⟨operand number, ?_, ?_, ?_⟩
  · rw [operands]
    rfl
  · rw [byte]
    exact found
  · rintro r p runs rfl
    obtain ⟨kind, leading, extras⟩ := runs.operands (h.kind_eq flags)
      (show c.operands = (oscillatorOperands u number).take 6 ++ [operand (oscillatorFlags u)] from
        operands) rfl
    have third : r.byte 3 = operand number := by
      rw [RunningUnit.byte, leading]
      rfl
    refine ⟨third, ?_, ?_⟩
    · rw [RunningUnit.extra, extras]
      exact isRecording_of_waveform unison waveform
    · apply RunningUnit.run_recording kind
      rw [third, byte]
      exact found

end Oscillators

/-! ## Own recordings -/

/-- Every active unit asks for up to three soundings besides the first. -/
def Patch.UnisonInRange (patch : Patch) : Prop :=
  patch.EachActive fun u => 0 ≤ u.param "unison" ∧ u.param "unison" ≤ 3

instance (patch : Patch) : Decidable patch.UnisonInRange :=
  inferInstanceAs (Decidable (patch.EachActive fun u =>
    0 ≤ u.param "unison" ∧ u.param "unison" ≤ 3))

/-- Among patches that break no other limit, those with too many recordings are refused. -/
theorem Bytecode.compile_tooManySamples {patch : Patch} {bpm : Nat}
    (only : ∀ e, Bytecode.compile patch .all bpm = .error e → e = .tooManySamples) :
    Bytecode.compile patch .all bpm = .error .tooManySamples ↔ 256 < patch.differentRecordings := by
  rw [← patch.recordings_length]
  constructor
  · intro refused
    exact Bytecode.compile_error refused
  · intro many
    cases made : Bytecode.compile patch .all bpm with
    | ok b =>
      have unbroken := (Bytecode.compiles_iff patch bpm).mp ⟨b, made⟩
      exact absurd many (unbroken .tooManySamples)
    | error e => rw [only e made]

/-- Recordings are told apart. The table of a compiled patch has at most 256, each once, with a loop
of at least one sample, and each is asked for by some oscillator. An active oscillator that plays a
recording has code of its own at its slot, whose fourth operand is the number of its own recording
and of no other; and what runs this code takes that number from the operand, to which nothing sent
is added, and plays the recording. A patch that is not refused for another reason is refused just if
its oscillators ask for more than 256 different recordings. -/
theorem recordings_told_apart (patch : Patch) (bpm : Nat) :
    (∀ b, Bytecode.compile patch .all bpm = .ok b → patch.StereoFlags → patch.UnisonInRange →
      b.sampleOffsets.size ≤ 256 ∧ b.sampleOffsets.toList.Nodup ∧
      (∀ offset ∈ b.sampleOffsets.toList, 1 ≤ offset.loopLength.toNat ∧
        ∃ i k u, patch.unit? i k = some u ∧ u.PlaysRecording ∧ sampleOffset u = offset) ∧
      ∀ i k u, patch.unit? i k = some u → u.PlaysRecording →
        ∃ before c after number, b.blocks[i]? = some (before ++ c :: after) ∧
          before.length = patch.slotOf i k ∧ c.kind? = some .oscillator ∧
          c.operands[3]? = some number ∧
          (∀ n, b.sampleOffsets[n]? = some (sampleOffset u) ↔ n = number.toNat) ∧
          ∀ (r : RunningUnit) (p : Program), r.Runs c → p.bytecode = b →
            r.byte 3 = number ∧ Oscillator.isRecording (r.extra 0) = true ∧
              r.run p = r.play p (sampleOffset u)) ∧
    ((∀ e, Bytecode.compile patch .all bpm = .error e → e = .tooManySamples) →
      (Bytecode.compile patch .all bpm = .error .tooManySamples ↔
        256 < patch.differentRecordings)) := by
  refine ⟨?_, Bytecode.compile_tooManySamples⟩
  intro b compiled flags unison
  obtain ⟨assembled, h⟩ := Bytecode.compile_ok compiled
  obtain ⟨table, room⟩ := h.recordings
  have once : b.sampleOffsets.toList.Nodup := by
    rw [table]
    exact nodup_addRecordings List.nodup_nil _
  refine ⟨room, once, ?_, ?_⟩
  · intro offset known
    rw [table, Patch.mem_recordings, Patch.mem_recordingsAsked] at known
    obtain ⟨i, k, u, hu, plays, rfl⟩ := known
    exact ⟨sampleOffset_loop u ▸ Nat.le_max_right _ _, i, k, u, hu, plays, rfl⟩
  · rintro i k u hu ⟨oscillator, sample⟩
    obtain ⟨active, named⟩ := PatchUnit.activeKind?_eq_some oscillator
    obtain ⟨kind, before, code, after, hk, block, slot, count, -, stems⟩ :=
      h.code_of_unit flags hu active
    obtain rfl : kind = .oscillator := Option.some.inj (hk.symm.trans named)
    have single : code.length = 1 := by
      rw [count, Patch.emittedCount, oscillator]
    obtain ⟨c, rfl⟩ := List.length_eq_one_iff.mp single
    have own := stems c (List.mem_singleton_self c)
    obtain ⟨number, operand, found, runs⟩ :=
      own.own_recording flags sample (unison.of_unit hu active)
    refine ⟨before, c, after, number, block, slot, own.kind_eq flags, operand, ?_, runs⟩
    intro n
    constructor
    · intro again
      obtain ⟨inside, same⟩ := List.getElem?_eq_some_iff.mp
        ((Array.getElem?_toList ..).trans again)
      obtain ⟨inside', same'⟩ := List.getElem?_eq_some_iff.mp
        ((Array.getElem?_toList ..).trans found)
      exact once.getElem_inj_iff.mp (same.trans same'.symm)
    · rintro rfl
      exact found

/-- A patch in which the second of three oscillators plays another recording than the others. -/
def tapePatch : Patch where
  instruments := [
    { units := [
        { kindName := "oscillator"
          settings := .ofEntries [("type", 4), ("samplestart", 100), ("looplength", 50)] },
        { kindName := "oscillator"
          settings := .ofEntries [("type", 4), ("samplestart", 900), ("unison", 3)] }] },
    { units := [
        { kindName := "oscillator"
          settings := .ofEntries [("type", 4), ("samplestart", 100), ("looplength", 50)] }] }]

theorem recordings_told_apart_tape :
    ∃ b, Bytecode.compile tapePatch .all 100 = .ok b ∧ tapePatch.StereoFlags ∧
      tapePatch.UnisonInRange ∧ b.sampleOffsets = #[⟨100, 0, 50⟩, ⟨900, 0, 1⟩] ∧
      (∃ before c after, b.blocks[1]? = some (before ++ c :: after) ∧ c.operands[3]? = some 0) ∧
      Bytecode.compile tapePatch .all 100 ≠ .error .tooManySamples := by
  obtain ⟨b, compiled, table⟩ : ∃ b, Bytecode.compile tapePatch .all 100 = .ok b ∧
      b.sampleOffsets = #[⟨100, 0, 50⟩, ⟨900, 0, 1⟩] := ⟨_, rfl, by decide +kernel⟩
  have flags : tapePatch.StereoFlags := by decide +kernel
  have unison : tapePatch.UnisonInRange := by decide +kernel
  obtain ⟨accepted, refused⟩ := recordings_told_apart tapePatch 100
  obtain ⟨-, -, -, own⟩ := accepted b compiled flags unison
  obtain ⟨before, c, after, number, block, -, -, operand, place, -⟩ := own 1 0
    { kindName := "oscillator"
      settings := .ofEntries [("type", 4), ("samplestart", 100), ("looplength", 50)] }
    rfl (by decide +kernel)
  refine ⟨b, compiled, flags, unison, table, ⟨before, c, after, block, ?_⟩, ?_⟩
  · have first : (0 : UInt8).toNat = number.toNat := (place 0).mp (by rw [table]; decide +kernel)
    rw [operand, ← UInt8.toNat_inj.mp first]
  · intro full
    have many := (refused (by simp [compiled])).mp full
    exact absurd many (by decide +kernel)

end ModularSynth
