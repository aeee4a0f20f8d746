-- Units as themselves. The compiler adds the whole stereo parameter of a unit to its opcode byte,
-- whose lowest bit alone stands for stereo, while all else that reads the parameter compares it
-- with one. So a unit is compiled and executed as what it is just where both readings agree.
import ModularSynth.Proofs.Framing
import ModularSynth.Proofs.SendTargets
import ModularSynth.Proofs.Turns

namespace ModularSynth

open Assembly

/-! ## Units in their slots -/

namespace Patch

/-- Every slot that an instrument needs is needed by one of its units. -/
theorem exists_unit_in_slot {patch : Patch} {i slot : Nat} {instrument : Instrument}
    (hi : patch.instruments[i]? = some instrument)
    (inside : slot < patch.countOf i instrument.units) :
    ∃ k u, patch.unit? i k = some u ∧ u.isActive = true ∧ patch.slotOf i k ≤ slot ∧
      slot < patch.slotOf i k + patch.emittedCount i u := by
  obtain ⟨k, u, hu, lower, upper⟩ := exists_owner (patch.emittedCount i) inside
  have first : total ((instrument.units.take k).map (patch.emittedCount i)) = patch.slotOf i k := by
    rw [slotOf, hi]
    rfl
  rw [first] at lower upper
  refine ⟨k, u, by rw [unit?, hi]; exact hu, ?_, lower, upper⟩
  by_contra inactive
  rw [Assembly.emittedCount_inactive patch i (Bool.eq_false_iff.mpr inactive)] at upper
  omega

end Patch

namespace Compiled

variable {patch : Patch} {bpm : Nat} {b : Bytecode} {assembled : List (List AssembledUnit)}

/-- What is compiled at a slot of an instrument is the code of the unit that needs the slot. -/
theorem unit_in_slot (h : Compiled patch bpm b assembled) {i slot : Nat} {block : CodeBlock}
    (hb : (linkBlocks [] assembled)[i]? = some block) {c : CompiledUnit}
    (hc : block[slot]? = some c) :
    ∃ k u kind, patch.slotOf i k ≤ slot ∧ slot < patch.slotOf i k + patch.emittedCount i u ∧
      CodeOf patch bpm b i k u kind c := by
  have inside := (List.getElem?_eq_some_iff.mp hc).1
  have linked := hb
  rw [linkBlocks_getElem?] at linked
  obtain ⟨units, hu, rfl⟩ := Option.map_eq_some_iff.mp linked
  obtain ⟨instrument, _, _, _, hi, -, same, emits, -⟩ := h.instrument_of hu
  rw [linkUnits_length, emits.count, same] at inside
  obtain ⟨k, u, place, active, lower, upper⟩ := Patch.exists_unit_in_slot hi inside
  obtain ⟨kind, before, code, after, -, hb', length, count, -, own⟩ := h.linked_of_unit place active
  have stands := Option.some.inj (hb.symm.trans hb')
  rw [stands, List.getElem?_append_right (by omega), length,
    List.getElem?_append_left (by omega)] at hc
  exact ⟨k, u, kind, lower, upper, own c (List.mem_of_getElem? hc)⟩

/-- The opcodes of a compiled patch are those of its units in order, with an end after each
instrument. -/
theorem opcodes_units (h : Compiled patch bpm b assembled) :
    b.opcodes = patch.instruments.zipIdx.flatMap fun (instrument, i) =>
      instrument.units.flatMap (unitOpcodes patch i) ++ [0] := by
  rw [h.opcodes, List.flatMap_def, List.flatMap_def]
  congr 1
  apply List.ext_getElem?
  intro i
  rw [List.getElem?_map, List.getElem?_map, List.getElem?_zipIdx, Nat.zero_add]
  cases hi : patch.instruments[i]? with
  | none =>
    have outside : assembled[i]? = none := by
      rw [List.getElem?_eq_none_iff, h.length]
      exact List.getElem?_eq_none_iff.mp hi
    rw [outside]
    rfl
  | some instrument =>
    obtain ⟨_, units, _, _, -, hu, -, same, emits, -⟩ := h.of_instrument hi
    rw [hu]
    simp only [Option.map_some, opcodeBytes, emits.opcodes, same]

section Fits

variable (h : Compiled patch bpm b assembled) (fits : patch.StereoFits)
include h fits

/-- What stands at a site is the code that the instrument of the voice has in the slot. -/
theorem code_at_site {x : Site} (hx : x ∈ b.sites) :
    ∃ i block, patch.instrumentForVoice x.voice = some i ∧
      (linkBlocks [] assembled)[i]? = some block ∧ block[x.slot]? = some x.code := by
  unfold Bytecode.sites Bytecode.sitesFrom at hx
  obtain ⟨⟨i, voice⟩, plays, hx⟩ := List.mem_flatMap.mp hx
  obtain ⟨⟨code, slot⟩, stands, rfl⟩ := List.mem_map.mp hx
  rw [List.mem_zipIdx_iff_getElem?] at plays stands
  have owner := (h.blockNumber_of_voice voice).symm.trans plays
  rw [h.blocks_of_fits fits] at stands
  cases hb : (linkBlocks [] assembled)[i]? with
  | none =>
    rw [hb] at stands
    cases stands
  | some block =>
    rw [hb] at stands
    exact ⟨i, block, owner, hb, stands⟩

/-- What stands at a site is the code of the unit that needs this slot of the voice. -/
theorem unit_at_site {x : Site} (hx : x ∈ b.sites) :
    ∃ i k u kind, patch.instrumentForVoice x.voice = some i ∧ patch.slotOf i k ≤ x.slot ∧
      x.slot < patch.slotOf i k + patch.emittedCount i u ∧
      CodeOf patch bpm b i k u kind x.code := by
  obtain ⟨i, block, owner, hb, stands⟩ := h.code_at_site fits hx
  obtain ⟨k, u, kind, lower, upper, own⟩ := h.unit_in_slot hb stands
  exact ⟨i, k, u, kind, owner, lower, upper, own⟩

/-- A frame gives its units their turns in the order of the sites, up to the one that fails. -/
theorem frame_turns {p : Program} (hp : p.bytecode = b) {s : Moment} (ho : s.operands = b.operands) :
    Ends p.runFrame s (fun _ _ => (p.turns s).map (·.site) = b.sites)
      (fun _ _ => (p.turns s).map (·.site) <+: b.sites) := by
  subst hp
  have blocks := h.blocks_of_fits fits
  exact p.turns_sites (blocks ▸ h.framed_of_fits fits) (blocks ▸ h.linked_short)
    ⟨blocks ▸ h.opcodes_eq, blocks ▸ h.operands_eq⟩ ho

theorem site_of_turn {p : Program} (hp : p.bytecode = b) {s : Moment} (ho : s.operands = b.operands)
    {t : Turn} (ht : t ∈ p.turns s) : t.site ∈ b.sites := by
  have turns := h.frame_turns fits hp ho
  have some_sites : (p.turns s).map (·.site) <+: b.sites := by
    unfold Ends at turns
    split at turns
    · exact turns ▸ List.prefix_refl _
    · exact turns
  exact some_sites.subset (List.mem_map_of_mem ht)

/-- Whoever has a turn in a frame is the unit that needs its slot, on as many channels. -/
theorem unit_of_turn {p : Program} (hp : p.bytecode = b) {s : Moment} (ho : s.operands = b.operands)
    {t : Turn} (ht : t ∈ p.turns s) :
    ∃ i k u, patch.instrumentForVoice t.unit.voice = some i ∧
      patch.slotOf i k ≤ t.unit.slot ∧ t.unit.slot < patch.slotOf i k + patch.emittedCount i u ∧
      CodeOf patch bpm b i k u t.unit.kind t.site.code ∧ t.unit.stereo = u.isStereo := by
  obtain ⟨i, k, u, kind, owner, lower, upper, own⟩ :=
    h.unit_at_site fits (h.site_of_turn fits hp ho ht)
  have ready := (p.turns_ready ht).runs
  have unit_fits := fits.of_unit own.unit own.active
  have same : t.unit.kind = kind := Option.some.inj (ready.kind.symm.trans (own.own_kind unit_fits))
  subst same
  exact ⟨i, k, u, owner, lower, upper, own, ready.stereo.trans (own.own_stereo unit_fits)⟩

end Fits

end Compiled

/-! ## Compiled as themselves -/

/-- The opcodes of a compiled patch are those of its active units in order. The byte of a unit is
twice its opcode, with the lowest byte of the stereo parameter added; so it stands for the unit and
its channels just if that byte is the flag that the parameter is read as. Where this is so of all
units, each unit that a machine executes is the one that needs its slot, on the channels that the
compiler has counted, and a delay has as many lines on each. -/
theorem units_compiled_as_themselves {patch : Patch} {bpm : Nat} {b : Bytecode}
    (compiled : Bytecode.compile patch .all bpm = .ok b) :
    (b.opcodes = patch.instruments.zipIdx.flatMap fun (instrument, i) =>
      instrument.units.flatMap (unitOpcodes patch i) ++ [0]) ∧
    (∀ i k u, patch.unit? i k = some u → u.isActive = true → ∃ kind, u.kind? = some kind ∧
      ∀ op ∈ unitOpcodes patch i u,
        (op.toNat : Int) = (2 * kind.opcode + u.param "stereo") % 256 ∧
        ((op >>> 1).toNat = kind.index + 1 ∧ (op % 2 == 1) = u.isStereo ↔ u.StereoFits)) ∧
    (patch.StereoFits → ∀ (p : Program) (s : Moment), p.bytecode = b → s.operands = b.operands →
      ∀ t ∈ p.turns s, ∃ i k u, patch.instrumentForVoice t.unit.voice = some i ∧
        patch.unit? i k = some u ∧ u.activeKind? = some t.unit.kind ∧
        patch.slotOf i k ≤ t.unit.slot ∧
        t.unit.slot < patch.slotOf i k + patch.emittedCount i u ∧
        t.opcode ∈ unitOpcodes patch i u ∧ t.unit.stereo = u.isStereo ∧
        (t.unit.kind = .delay → linesPerChannel u = u.varArgs.length / t.unit.channels ∧
          t.unit.extra 1 = operand (lineCount u))) := by
  obtain ⟨assembled, h⟩ := Bytecode.compile_ok compiled
  refine ⟨h.opcodes_units, ?_, ?_⟩
  · intro i k u hu active
    obtain ⟨kind, _, _, _, named, -⟩ := h.linked_of_unit hu active
    refine ⟨kind, named, fun op hop => ?_⟩
    unfold unitOpcodes at hop
    rw [PatchUnit.activeKind?_of_active active, named] at hop
    rw [List.eq_of_mem_replicate hop]
    exact ⟨opcodeByte_mod kind u, opcodeByte_own kind u⟩
  · intro fits p s hp ho t ht
    obtain ⟨i, k, u, owner, lower, upper, own, stereo⟩ := h.unit_of_turn fits hp ho ht
    have kind : u.activeKind? = some t.unit.kind := by
      rw [PatchUnit.activeKind?_of_active own.active, own.named]
    refine ⟨i, k, u, owner, own.unit, kind, lower, upper, ?_, stereo, ?_⟩
    · rw [unitOpcodes, kind]
      refine List.mem_replicate.mpr ⟨by omega, ?_⟩
      exact own.opcode
    · intro delay
      have ready := (p.turns_ready ht).runs
      rw [delay] at own
      obtain ⟨start, -, -, code⟩ := own.delay_operands
      have own_kind := own.own_kind (fits.of_unit own.unit own.active)
      obtain ⟨-, -, extras⟩ := ready.operands own_kind code (leadingOperands_length own.named)
      constructor
      · unfold linesPerChannel RunningUnit.channels
        rw [stereo]
        cases u.isStereo with
        | true => rfl
        | false => exact (Nat.div_one _).symm
      · unfold RunningUnit.extra
        rw [extras]
        rfl

/-- A patch in stereo and in mono, not all of it said with zero and one. -/
def widePatch : Patch where
  instruments := [
    { units := [
        { kindName := "loadval", settings := .ofEntries [("value", 128), ("stereo", 1)] },
        { kindName := "delay", settings := .ofEntries [("stereo", 1)], varArgs := [100, 200] },
        { kindName := "out", settings := .ofEntries [("gain", 64), ("stereo", 1)] },
        { kindName := "loadval", settings := .ofEntries [("value", 0), ("stereo", 256)] },
        { kindName := "out", settings := .ofEntries [("gain", 64), ("stereo", -512)] }] }]

theorem units_compiled_as_themselves_wide :
    ∃ b, Bytecode.compile widePatch .all 100 = .ok b ∧
      b.opcodes = [35, 17, 45, 34, 44, 0] ∧ widePatch.StereoFits ∧
      ∀ (p : Program) (s : Moment), p.bytecode = b → s.operands = b.operands →
        ∀ t ∈ p.turns s, ∃ i k u, widePatch.instrumentForVoice t.unit.voice = some i ∧
          widePatch.unit? i k = some u ∧ u.activeKind? = some t.unit.kind ∧
          t.unit.stereo = u.isStereo := by
  obtain ⟨b, compiled, opcodes⟩ : ∃ b, Bytecode.compile widePatch .all 100 = .ok b ∧
      b.opcodes = [35, 17, 45, 34, 44, 0] := ⟨_, rfl, by decide +kernel⟩
  have fits : widePatch.StereoFits := by decide +kernel
  obtain ⟨-, -, executed⟩ := units_compiled_as_themselves compiled
  refine ⟨b, compiled, opcodes, fits, ?_⟩
  intro p s hp ho t ht
  obtain ⟨i, k, u, owner, place, kind, -, -, -, stereo, -⟩ := executed fits p s hp ho t ht
  exact ⟨i, k, u, owner, place, kind, stereo⟩

end ModularSynth
