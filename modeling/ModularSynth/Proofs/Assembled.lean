-- What a successful assembly is made of: for each active unit, in order, its instructions
-- and its label, at the slot after the instructions of the units before it.
import ModularSynth.Bytecode.Assembly
import ModularSynth.Proofs.SuperArray
import ModularSynth.Proofs.CompiledCode

namespace ModularSynth

/-- What a step of a computation that succeeds has given. -/
theorem bind_eq_ok {ε α β : Type} {x : Except ε α} {f : α → Except ε β} {b : β}
    (h : (x >>= f) = .ok b) : ∃ a, x = .ok a ∧ f a = .ok b := by
  cases x with
  | error e => cases h
  | ok a => exact ⟨a, rfl, h⟩

/-! ## Slots -/

namespace Patch

/-- How many instructions a unit becomes. A send that leaves its voice becomes one for each
voice that it reaches, and a delay without lines becomes none. -/
def emittedCount (patch : Patch) (instrument : Nat) (u : PatchUnit) : Nat :=
  match u.activeKind? with
  | none => 0
  | some .delay => if Assembly.linesPerChannel u = 0 then 0 else 1
  | some .send =>
    match patch.findUnit (u.param "target") with
    | none => 1
    | some (target, _) =>
      if (target = instrument ∧ u.param "voice" = 0) ∨ 0 < u.param "voice" then 1
      else (patch.instruments[target]?.map (·.numVoices)).getD 0
  | some _ => 1

/-- The number of instructions of some units. -/
def countOf (patch : Patch) (instrument : Nat) (units : List PatchUnit) : Nat :=
  total (units.map (patch.emittedCount instrument))

/-- The slot of a unit: the number of instructions before its own. -/
def slotOf (patch : Patch) (instrument unit : Nat) : Nat :=
  patch.countOf instrument (((patch.instruments[instrument]?.map (·.units)).getD []).take unit)

end Patch

theorem PatchUnit.activeKind?_of_active {u : PatchUnit} (h : u.isActive = true) :
    u.activeKind? = u.kind? := by
  simp [activeKind?, h]

theorem PatchUnit.activeKind?_eq_some {u : PatchUnit} {kind : UnitKind}
    (h : u.activeKind? = some kind) : u.isActive = true ∧ u.kind? = some kind := by
  unfold activeKind? at h
  split at h
  · rename_i active
    exact ⟨active, h⟩
  · cases h

namespace Assembly

/-! ## The instructions of one unit -/

/-- The opcode byte of a unit when every kind is available. -/
def opcodeByte (kind : UnitKind) (u : PatchUnit) : UInt8 :=
  (kind.opcode * 2).toUInt8 + UInt8.ofInt (u.param "stereo")

/-- The opcode bytes that a unit becomes when every kind is available. -/
def unitOpcodes (patch : Patch) (instrument : Nat) (u : PatchUnit) : List UInt8 :=
  match u.activeKind? with
  | none => []
  | some kind => List.replicate (patch.emittedCount instrument u) (opcodeByte kind u)

theorem voiceReferences_length (u : PatchUnit) (voices : List Nat) :
    (voiceReferences u voices).length = voices.length := by
  induction voices with
  | nil => rfl
  | cons voice rest ih => simp [voiceReferences, ih]

theorem sendReferences_length (patch : Patch) (instrument : Nat) {u : PatchUnit}
    (h : u.activeKind? = some .send) :
    (sendReferences patch instrument u).length = patch.emittedCount instrument u := by
  simp only [sendReferences, Patch.emittedCount, h]
  cases patch.findUnit (u.param "target") with
  | none => rfl
  | some found =>
    by_cases hl : found.1 = instrument ∧ u.param "voice" = 0
    · simp [hl]
    · by_cases hv : 0 < u.param "voice"
      · simp [hl, hv, voiceReferences_length, sendVoices]
      · simp [hl, hv, voiceReferences_length, sendVoices]

/-- A recording stays at its number while others are added. -/
theorem numberSample_prefix (samples : List SampleOffset) (offset : SampleOffset) :
    samples <+: (numberSample samples offset).1 := by
  unfold numberSample
  split
  · exact List.prefix_refl _
  · exact List.prefix_append _ _

/-- A recording stands in the table at its number. -/
theorem numberSample_getElem? (samples : List SampleOffset) (offset : SampleOffset) :
    (numberSample samples offset).1[(numberSample samples offset).2]? = some offset := by
  unfold numberSample
  split
  · rename_i number h
    obtain ⟨hlt, found, -⟩ := List.findIdx?_eq_some_iff_getElem.mp h
    rw [List.getElem?_eq_getElem hlt, eq_of_beq found]
  · simp

theorem leadingOperands_length {u : PatchUnit} {kind : UnitKind} (h : u.kind? = some kind) :
    (leadingOperands u).length = kind.operandCount := by
  simp [leadingOperands, h, UnitKind.operandCount]

/-- However a unit is assembled, it becomes as many instructions as it should, each with its
opcode and as many operands as its kind takes, and no recording loses its number. -/
theorem instructions_shape {patch : Patch} {place : Place} {opcode : UInt8} {u : PatchUnit}
    {kind : UnitKind} {samples known : List SampleOffset} {code : List Instruction}
    (active : u.isActive = true) (hk : u.kind? = some kind)
    (h : instructions patch place opcode u samples = .ok (code, known)) :
    code.length = patch.emittedCount place.instrument u ∧ samples <+: known ∧
      ∀ i ∈ code, i.opcode = opcode ∧ ∀ find, (instructionBytes find i).length = kind.width := by
  have hak : u.activeKind? = some kind := by rw [PatchUnit.activeKind?_of_active active, hk]
  have leading := leadingOperands_length hk
  cases kind
  case send =>
    simp only [instructions, hk, Except.ok.injEq, Prod.mk.injEq] at h
    obtain ⟨rfl, rfl⟩ := h
    refine ⟨by rw [List.length_map, sendReferences_length patch _ hak], List.prefix_refl _, ?_⟩
    intro i hi
    obtain ⟨r, -, rfl⟩ := List.mem_map.mp hi
    exact ⟨rfl, fun find => by simp [instructionBytes, addressBytes, leading]; rfl⟩
  case delay =>
    simp only [instructions, hk] at h
    simp only [Patch.emittedCount, hak]
    split at h
    · rename_i hl
      simp only [Except.ok.injEq, Prod.mk.injEq] at h
      obtain ⟨rfl, rfl⟩ := h
      exact ⟨by simp [hl], List.prefix_refl _, by simp⟩
    · rename_i hl
      simp only [Except.ok.injEq, Prod.mk.injEq] at h
      obtain ⟨rfl, rfl⟩ := h
      refine ⟨by simp [hl], List.prefix_refl _, fun i hi => ?_⟩
      rw [List.mem_singleton.mp hi]
      exact ⟨rfl, fun find => by simp [instructionBytes, leading]; rfl⟩
  case oscillator =>
    simp only [instructions, hk] at h
    simp only [Patch.emittedCount, hak]
    split at h
    · split at h
      · simp only [Except.ok.injEq, Prod.mk.injEq] at h
        obtain ⟨rfl, rfl⟩ := h
        refine ⟨rfl, numberSample_prefix _ _, fun i hi => ?_⟩
        rw [List.mem_singleton.mp hi]
        exact ⟨rfl, fun find => rfl⟩
      · cases h
    · simp only [Except.ok.injEq, Prod.mk.injEq] at h
      obtain ⟨rfl, rfl⟩ := h
      refine ⟨rfl, List.prefix_refl _, fun i hi => ?_⟩
      rw [List.mem_singleton.mp hi]
      exact ⟨rfl, fun find => rfl⟩
  all_goals
    simp only [instructions, hk, Except.ok.injEq, Prod.mk.injEq] at h
    simp only [Patch.emittedCount, hak]
    obtain ⟨rfl, rfl⟩ := h
    refine ⟨rfl, List.prefix_refl _, fun i hi => ?_⟩
    rw [List.mem_singleton.mp hi]
    exact ⟨rfl, fun find => by simp [instructionBytes, leading]; rfl⟩

/-- A unit of an instrument, with the slot and the recordings it finds, and what it leaves. -/
structure Emits (patch : Patch) (instrument firstVoice slot : Nat) (u : PatchUnit)
    (delayStart : Nat) (samples : List SampleOffset) (a : AssembledUnit)
    (known : List SampleOffset) : Prop where
  active : u.isActive = true
  code : ∃ kind, u.kind? = some kind ∧
    instructions patch ⟨instrument, firstVoice, delayStart⟩ (opcodeByte kind u) u samples =
      .ok (a.instructions, known)
  label : a.label = if u.id = 0 then none else some ⟨u.id, instrument, firstVoice, slot⟩
  fits : slot + a.instructions.length ≤ maxUnits

section Emits

variable {patch : Patch} {instrument firstVoice slot delayStart : Nat} {u : PatchUnit}
  {samples known : List SampleOffset} {a : AssembledUnit}

theorem Emits.count (h : Emits patch instrument firstVoice slot u delayStart samples a known) :
    a.instructions.length = patch.emittedCount instrument u := by
  obtain ⟨kind, hk, hc⟩ := h.code
  exact (instructions_shape h.active hk hc).1

theorem Emits.opcodes (h : Emits patch instrument firstVoice slot u delayStart samples a known) :
    a.instructions.map (·.opcode) = unitOpcodes patch instrument u := by
  obtain ⟨kind, hk, hc⟩ := h.code
  obtain ⟨count, -, shape⟩ := instructions_shape h.active hk hc
  rw [unitOpcodes, PatchUnit.activeKind?_of_active h.active, hk]
  refine List.eq_replicate_iff.mpr ⟨by rw [List.length_map, count], fun op hop => ?_⟩
  obtain ⟨i, hi, rfl⟩ := List.mem_map.mp hop
  exact (shape i hi).1

theorem Emits.samples_prefix
    (h : Emits patch instrument firstVoice slot u delayStart samples a known) :
    samples <+: known := by
  obtain ⟨kind, hk, hc⟩ := h.code
  exact (instructions_shape h.active hk hc).2.1

end Emits

/-! ## The units of an instrument -/

/-- How the units of an instrument become instructions, from a slot and the recordings known
there on. Units that are not active are passed over. -/
inductive Assembles (patch : Patch) (instrument firstVoice : Nat) :
    Nat → List SampleOffset → List (PatchUnit × Nat) → List AssembledUnit →
      List SampleOffset → Prop
  | nil {slot : Nat} {samples : List SampleOffset} :
    Assembles patch instrument firstVoice slot samples [] [] samples
  | skip {slot : Nat} {samples later : List SampleOffset} {u : PatchUnit} {delayStart : Nat}
    {units : List (PatchUnit × Nat)} {assembled : List AssembledUnit}
    (inactive : u.isActive = false)
    (rest : Assembles patch instrument firstVoice slot samples units assembled later) :
    Assembles patch instrument firstVoice slot samples ((u, delayStart) :: units) assembled later
  | emit {slot : Nat} {samples known later : List SampleOffset} {u : PatchUnit}
    {delayStart : Nat} {a : AssembledUnit} {units : List (PatchUnit × Nat)}
    {assembled : List AssembledUnit}
    (head : Emits patch instrument firstVoice slot u delayStart samples a known)
    (rest : Assembles patch instrument firstVoice (slot + a.instructions.length) known units
      assembled later) :
    Assembles patch instrument firstVoice slot samples ((u, delayStart) :: units)
      (a :: assembled) later

theorem assembleUnits_ok {patch : Patch} {instrument firstVoice slot : Nat}
    {samples later : List SampleOffset} {units : List (PatchUnit × Nat)}
    {assembled : List AssembledUnit}
    (h : assembleUnits patch .all instrument firstVoice slot samples units =
      .ok (assembled, later)) :
    Assembles patch instrument firstVoice slot samples units assembled later := by
  induction units generalizing slot samples assembled with
  | nil =>
    simp only [assembleUnits, Except.ok.injEq, Prod.mk.injEq] at h
    obtain ⟨rfl, rfl⟩ := h
    exact .nil
  | cons head rest ih =>
    obtain ⟨u, delayStart⟩ := head
    rw [assembleUnits] at h
    by_cases active : u.isActive = true
    · have hop : Features.all.opcode? u.kindName =
          u.kind?.map fun kind => (kind.opcode * 2).toUInt8 := rfl
      simp only [active, if_true, hop] at h
      cases hk : u.kind? with
      | none => simp [hk] at h
      | some kind =>
        simp only [hk, Option.map_some] at h
        obtain ⟨⟨code, known⟩, made, h⟩ := bind_eq_ok h
        split at h
        · cases h
        · rename_i fits
          obtain ⟨tail, ht, h⟩ := bind_eq_ok h
          cases h
          exact .emit ⟨active, ⟨kind, hk, made⟩, rfl, Nat.le_of_not_lt fits⟩ (ih ht)
    · simp only [active, if_false, Bool.false_eq_true] at h
      exact .skip (by simpa using active) (ih h)

section Assembles

variable {patch : Patch} {instrument firstVoice slot : Nat} {samples later : List SampleOffset}
  {units : List (PatchUnit × Nat)} {assembled : List AssembledUnit}

theorem Assembles.samples_prefix
    (h : Assembles patch instrument firstVoice slot samples units assembled later) :
    samples <+: later := by
  induction h with
  | nil => exact List.prefix_refl _
  | skip _ _ ih => exact ih
  | emit head _ ih => exact head.samples_prefix.trans ih

/-- Units that are not active become no instructions. -/
theorem emittedCount_inactive (patch : Patch) (instrument : Nat) {u : PatchUnit}
    (h : u.isActive = false) : patch.emittedCount instrument u = 0 := by
  simp [Patch.emittedCount, PatchUnit.activeKind?, h]

theorem countOf_take_succ (patch : Patch) (instrument k : Nat) (u : PatchUnit) (d : Nat)
    (units : List (PatchUnit × Nat)) :
    patch.countOf instrument ((((u, d) :: units).take (k + 1)).map (·.1)) =
      patch.emittedCount instrument u + patch.countOf instrument ((units.take k).map (·.1)) := by
  simp only [Patch.countOf, List.take_succ_cons, List.map_cons, total_cons]

/-- The instructions of the units come after each other, without gaps. -/
theorem Assembles.count
    (h : Assembles patch instrument firstVoice slot samples units assembled later) :
    total (assembled.map (·.instructions.length)) =
      patch.countOf instrument (units.map (·.1)) := by
  induction h with
  | nil => rfl
  | skip inactive _ ih =>
    simp only [Patch.countOf, List.map_cons, total_cons,
      emittedCount_inactive patch instrument inactive, Nat.zero_add] at ih ⊢
    exact ih
  | emit head _ ih =>
    simp only [Patch.countOf, List.map_cons, total_cons] at ih ⊢
    rw [ih, head.count]

/-- The opcodes of an instrument are those of its units in order. -/
theorem Assembles.opcodes
    (h : Assembles patch instrument firstVoice slot samples units assembled later) :
    (assembled.flatMap fun a => a.instructions.map (·.opcode)) =
      (units.map (·.1)).flatMap (unitOpcodes patch instrument) := by
  induction h with
  | nil => rfl
  | skip inactive _ ih =>
    rw [List.map_cons, List.flatMap_cons, ih]
    simp [unitOpcodes, PatchUnit.activeKind?, inactive]
  | emit head _ ih =>
    rw [List.map_cons, List.flatMap_cons, List.flatMap_cons, ih, head.opcodes]

/-- All instructions of an instrument find a slot. -/
theorem Assembles.fits
    (h : Assembles patch instrument firstVoice slot samples units assembled later)
    (hs : slot ≤ maxUnits) :
    slot + total (assembled.map (·.instructions.length)) ≤ maxUnits := by
  induction h with
  | nil => simpa using hs
  | skip _ _ ih => exact ih hs
  | emit head _ ih =>
    rw [List.map_cons, total_cons]
    have := ih head.fits
    omega

/-- An active unit stands among the assembled ones, after the instructions of the units
before it. -/
theorem Assembles.of_unit
    (h : Assembles patch instrument firstVoice slot samples units assembled later) {k : Nat}
    {u : PatchUnit} {delayStart : Nat} (hk : units[k]? = some (u, delayStart))
    (active : u.isActive = true) :
    ∃ before a after found known, assembled = before ++ a :: after ∧
      total (before.map (·.instructions.length)) =
        patch.countOf instrument ((units.take k).map (·.1)) ∧
      Emits patch instrument firstVoice
        (slot + patch.countOf instrument ((units.take k).map (·.1))) u delayStart found a known ∧
      known <+: later := by
  induction h generalizing k with
  | nil => simp at hk
  | @skip _ _ _ u' d units _ inactive _ ih =>
    cases k with
    | zero =>
      simp only [List.getElem?_cons_zero, Option.some.injEq, Prod.mk.injEq] at hk
      rw [hk.1, active] at inactive
      cases inactive
    | succ k =>
      obtain ⟨before, a, after, found, known, ha, hb, he, hl⟩ := ih (by simpa using hk)
      rw [countOf_take_succ, emittedCount_inactive patch instrument inactive, Nat.zero_add]
      exact ⟨before, a, after, found, known, ha, hb, he, hl⟩
  | @emit _ _ known _ u' d a' units _ head rest ih =>
    cases k with
    | zero =>
      simp only [List.getElem?_cons_zero, Option.some.injEq, Prod.mk.injEq] at hk
      obtain ⟨rfl, rfl⟩ := hk
      exact ⟨[], a', _, _, known, rfl, rfl, head, rest.samples_prefix⟩
    | succ k =>
      obtain ⟨before, a, after, found, known', ha, hb, he, hl⟩ := ih (by simpa using hk)
      refine ⟨a' :: before, a, after, found, known', by rw [ha]; rfl, ?_, ?_, hl⟩
      · rw [countOf_take_succ, ← head.count, List.map_cons, total_cons, hb]
      · rw [countOf_take_succ, ← head.count, ← Nat.add_assoc]
        exact he

/-- Every assembled unit comes from an active one. -/
theorem Assembles.unit_of
    (h : Assembles patch instrument firstVoice slot samples units assembled later)
    {a : AssembledUnit} (ha : a ∈ assembled) :
    ∃ k u delayStart found known, units[k]? = some (u, delayStart) ∧
      Emits patch instrument firstVoice
        (slot + patch.countOf instrument ((units.take k).map (·.1))) u delayStart found a known ∧
      known <+: later := by
  induction h with
  | nil => simp at ha
  | @skip _ _ _ u' d units _ inactive _ ih =>
    obtain ⟨k, u, delayStart, found, known, hk, he, hl⟩ := ih ha
    refine ⟨k + 1, u, delayStart, found, known, hk, ?_, hl⟩
    rw [countOf_take_succ, emittedCount_inactive patch instrument inactive, Nat.zero_add]
    exact he
  | @emit _ _ _ _ u' d a' units _ head rest ih =>
    rcases List.mem_cons.mp ha with rfl | ha
    · exact ⟨0, u', d, _, _, rfl, head, rest.samples_prefix⟩
    · obtain ⟨k, u, delayStart, found, known, hk, he, hl⟩ := ih ha
      refine ⟨k + 1, u, delayStart, found, known, hk, ?_, hl⟩
      rw [countOf_take_succ, ← head.count, ← Nat.add_assoc]
      exact he

end Assembles

/-! ## The instruments of a patch -/

/-- How instruments from a number on become instructions, the number of voices before them
and the recordings known there given. -/
inductive AssemblesAll (patch : Patch) :
    Nat → Nat → List SampleOffset → List (Instrument × List Nat) → List (List AssembledUnit) →
      List SampleOffset → Prop
  | nil {instrument firstVoice : Nat} {samples : List SampleOffset} :
    AssemblesAll patch instrument firstVoice samples [] [] samples
  | cons {instrument firstVoice : Nat} {samples known later : List SampleOffset}
    {i : Instrument} {delayStarts : List Nat} {instruments : List (Instrument × List Nat)}
    {assembled : List AssembledUnit} {others : List (List AssembledUnit)}
    (voices : 1 ≤ i.numVoices)
    (head : Assembles patch instrument firstVoice 0 samples (i.units.zip delayStarts) assembled
      known)
    (rest : AssemblesAll patch (instrument + 1) (firstVoice + i.numVoices) known instruments
      others later) :
    AssemblesAll patch instrument firstVoice samples ((i, delayStarts) :: instruments)
      (assembled :: others) later

theorem assembleInstruments_ok {patch : Patch} {instrument firstVoice : Nat}
    {samples later : List SampleOffset} {instruments : List (Instrument × List Nat)}
    {assembled : List (List AssembledUnit)}
    (h : assembleInstruments patch .all instrument firstVoice samples instruments =
      .ok (assembled, later)) :
    AssemblesAll patch instrument firstVoice samples instruments assembled later := by
  induction instruments generalizing instrument firstVoice samples assembled with
  | nil =>
    simp only [assembleInstruments, Except.ok.injEq, Prod.mk.injEq] at h
    obtain ⟨rfl, rfl⟩ := h
    exact .nil
  | cons head rest ih =>
    obtain ⟨i, delayStarts⟩ := head
    rw [assembleInstruments] at h
    split at h
    · cases h
    · rename_i voices
      obtain ⟨units, hu, h⟩ := bind_eq_ok h
      obtain ⟨others, ho, h⟩ := bind_eq_ok h
      cases h
      exact .cons (by omega) (assembleUnits_ok hu) (ih ho)

section AssemblesAll

variable {patch : Patch} {instrument firstVoice : Nat} {samples later : List SampleOffset}
  {instruments : List (Instrument × List Nat)} {assembled : List (List AssembledUnit)}

theorem AssemblesAll.length
    (h : AssemblesAll patch instrument firstVoice samples instruments assembled later) :
    assembled.length = instruments.length := by
  induction h with
  | nil => rfl
  | cons _ _ _ ih => rw [List.length_cons, List.length_cons, ih]

theorem AssemblesAll.samples_prefix
    (h : AssemblesAll patch instrument firstVoice samples instruments assembled later) :
    samples <+: later := by
  induction h with
  | nil => exact List.prefix_refl _
  | cons _ head _ ih => exact head.samples_prefix.trans ih

/-- Every instrument has voices, and its units are assembled with the number of the first of
these. -/
theorem AssemblesAll.of_instrument
    (h : AssemblesAll patch instrument firstVoice samples instruments assembled later) {j : Nat}
    {i : Instrument} {delayStarts : List Nat} (hj : instruments[j]? = some (i, delayStarts)) :
    ∃ units found known, assembled[j]? = some units ∧ 1 ≤ i.numVoices ∧
      Assembles patch (instrument + j)
        (firstVoice + total ((instruments.take j).map (·.1.numVoices))) 0 found
        (i.units.zip delayStarts) units known ∧ known <+: later := by
  induction h generalizing j with
  | nil => simp at hj
  | @cons instrument firstVoice _ _ _ i' d instruments _ _ voices head rest ih =>
    cases j with
    | zero =>
      simp only [List.getElem?_cons_zero, Option.some.injEq, Prod.mk.injEq] at hj
      obtain ⟨rfl, rfl⟩ := hj
      exact ⟨_, _, _, rfl, voices, head, rest.samples_prefix⟩
    | succ j =>
      obtain ⟨units, found, known, hu, hv, ha, hl⟩ := ih (by simpa using hj)
      refine ⟨units, found, known, by simpa using hu, hv, ?_, hl⟩
      rw [List.take_succ_cons, List.map_cons, total_cons, ← Nat.add_assoc firstVoice,
        show instrument + (j + 1) = instrument + 1 + j by omega]
      exact ha

end AssemblesAll

end Assembly

/-! ## Whole patches -/

/-- What is known of a patch that has been compiled for all features: its units as they were
assembled, instrument by instrument. -/
structure Compiled (patch : Patch) (bpm : Nat) (b : Bytecode)
    (assembled : List (List AssembledUnit)) : Prop where
  few : patch.numVoices ≤ maxVoices
  units : Assembly.AssemblesAll patch 0 0 []
    (patch.instruments.zip (DelayTable.ofPatch patch bpm).2) assembled b.sampleOffsets.toList
  opcodes : b.opcodes = assembled.flatMap Assembly.opcodeBytes
  operands : b.operands = Assembly.operandBytes [] assembled.flatten
  delayTimes : b.delayTimes = (DelayTable.ofPatch patch bpm).1.toArray
  polyphony : b.polyphony = Assembly.wordOfBits (Assembly.repeats patch)
  voices : b.voices = patch.numVoices

theorem Bytecode.compile_ok {patch : Patch} {bpm : Nat} {b : Bytecode}
    (h : Bytecode.compile patch .all bpm = .ok b) : ∃ assembled, Compiled patch bpm b assembled := by
  unfold Bytecode.compile at h
  split at h
  · cases h
  · rename_i few
    obtain ⟨made, hm, whole⟩ := bind_eq_ok h
    cases whole
    exact ⟨made.1, by omega, Assembly.assembleInstruments_ok hm, rfl, rfl, rfl, rfl, rfl⟩

namespace Compiled

variable {patch : Patch} {bpm : Nat} {b : Bytecode} {assembled : List (List AssembledUnit)}

/-- The units of an instrument, as they were assembled. -/
theorem of_instrument (h : Compiled patch bpm b assembled) {i : Nat} {instrument : Instrument}
    (hi : patch.instruments[i]? = some instrument) :
    ∃ delayStarts units found known, (DelayTable.ofPatch patch bpm).2[i]? = some delayStarts ∧
      assembled[i]? = some units ∧ 1 ≤ instrument.numVoices ∧
      (instrument.units.zip delayStarts).map (·.1) = instrument.units ∧
      Assembly.Assembles patch i (patch.firstVoice i) 0 found (instrument.units.zip delayStarts)
        units known ∧ known <+: b.sampleOffsets.toList := by
  obtain ⟨delayStarts, hd, hl, -⟩ := DelayTable.starts_of_instrument bpm hi
  have hz : (patch.instruments.zip (DelayTable.ofPatch patch bpm).2)[i]? =
      some (instrument, delayStarts) := List.getElem?_zip_eq_some.mpr ⟨hi, hd⟩
  obtain ⟨units, found, known, hu, hv, ha, hk⟩ := h.units.of_instrument hz
  refine ⟨delayStarts, units, found, known, hd, hu, hv, List.map_fst_zip (by omega), ?_, hk⟩
  have before : total (((patch.instruments.zip (DelayTable.ofPatch patch bpm).2).take i).map
      (·.1.numVoices)) = patch.firstVoice i := by
    have same : (patch.instruments.zip (DelayTable.ofPatch patch bpm).2).map (·.1) =
        patch.instruments :=
      List.map_fst_zip (by simp [DelayTable.ofPatch, DelayTable.parts_length])
    rw [Patch.firstVoice, ← same, ← List.map_take, List.map_map, same]
    rfl
  rw [before, Nat.zero_add, Nat.zero_add] at ha
  exact ha

theorem length (h : Compiled patch bpm b assembled) :
    assembled.length = patch.instruments.length := by
  rw [h.units.length, List.length_zip, DelayTable.ofPatch, DelayTable.parts_length,
    List.length_map, Nat.min_self]

/-- An active unit stands in its instrument at its slot. -/
theorem of_unit (h : Compiled patch bpm b assembled) {i k : Nat} {u : PatchUnit}
    (hu : patch.unit? i k = some u) (active : u.isActive = true) :
    ∃ before a after delayStart found known, assembled[i]? = some (before ++ a :: after) ∧
      total (before.map (·.instructions.length)) = patch.slotOf i k ∧
      ((DelayTable.ofPatch patch bpm).2[i]? >>= (·[k]?)) = some delayStart ∧
      Assembly.Emits patch i (patch.firstVoice i) (patch.slotOf i k) u delayStart found a known ∧
      known <+: b.sampleOffsets.toList := by
  obtain ⟨instrument, hi, hk⟩ := Option.bind_eq_some_iff.mp hu
  obtain ⟨delayStarts, units, found, known, hd, ha, -, same, hs, hl⟩ := h.of_instrument hi
  have slot : patch.countOf i (((instrument.units.zip delayStarts).take k).map (·.1)) =
      patch.slotOf i k := by
    rw [List.map_take, same, Patch.slotOf, hi]
    rfl
  have hlt : k < (instrument.units.zip delayStarts).length := by
    rw [← List.length_map (f := Prod.fst), same]
    exact (List.getElem?_eq_some_iff.mp hk).1
  obtain ⟨delayStart, hz⟩ : ∃ delayStart,
      (instrument.units.zip delayStarts)[k]? = some (u, delayStart) := by
    rw [List.getElem?_eq_getElem hlt]
    have := List.getElem?_map (f := Prod.fst) (l := instrument.units.zip delayStarts) (i := k)
    rw [same, hk, List.getElem?_eq_getElem hlt] at this
    simp only [Option.map_some, Option.some.injEq] at this
    exact ⟨_, congrArg some (Prod.ext this.symm rfl)⟩
  obtain ⟨before, a, after, found', known', rfl, hb, he, hl'⟩ := hs.of_unit hz active
  rw [Nat.zero_add, slot] at he
  exact ⟨before, a, after, delayStart, found', known', ha, hb.trans slot,
    Option.bind_eq_some_iff.mpr ⟨delayStarts, hd, (List.getElem?_zip_eq_some.mp hz).2⟩, he,
    hl'.trans hl⟩

/-- Assembled units are those of some instrument. -/
theorem instrument_of (h : Compiled patch bpm b assembled) {i : Nat} {units : List AssembledUnit}
    (hi : assembled[i]? = some units) :
    ∃ instrument delayStarts found known, patch.instruments[i]? = some instrument ∧
      (DelayTable.ofPatch patch bpm).2[i]? = some delayStarts ∧
      (instrument.units.zip delayStarts).map (·.1) = instrument.units ∧
      Assembly.Assembles patch i (patch.firstVoice i) 0 found (instrument.units.zip delayStarts)
        units known ∧ known <+: b.sampleOffsets.toList := by
  have hlt : i < patch.instruments.length := by
    rw [← h.length]
    exact (List.getElem?_eq_some_iff.mp hi).1
  have here := List.getElem?_eq_getElem hlt
  obtain ⟨delayStarts, units', found, known, hd, hu, -, same, hs, hl⟩ := h.of_instrument here
  rw [hi] at hu
  cases hu
  exact ⟨_, delayStarts, found, known, here, hd, same, hs, hl⟩

/-- Every assembled unit comes from an active unit of its instrument, at that unit's slot and
with the place of that unit's delay times. -/
theorem unit_of (h : Compiled patch bpm b assembled) {i : Nat} {units : List AssembledUnit}
    (hi : assembled[i]? = some units) {a : AssembledUnit} (ha : a ∈ units) :
    ∃ k u delayStart found known, patch.unit? i k = some u ∧
      ((DelayTable.ofPatch patch bpm).2[i]? >>= (·[k]?)) = some delayStart ∧
      Assembly.Emits patch i (patch.firstVoice i) (patch.slotOf i k) u delayStart found a known ∧
      known <+: b.sampleOffsets.toList := by
  obtain ⟨instrument, delayStarts, found, known, hinst, hd, same, hs, hl⟩ := h.instrument_of hi
  obtain ⟨k, u, delayStart, found', known', hk, he, hl'⟩ := hs.unit_of ha
  obtain ⟨hku, hkd⟩ := List.getElem?_zip_eq_some.mp hk
  refine ⟨k, u, delayStart, found', known', ?_, ?_, ?_, hl'.trans hl⟩
  · exact Option.bind_eq_some_iff.mpr ⟨instrument, hinst, hku⟩
  · exact Option.bind_eq_some_iff.mpr ⟨delayStarts, hd, hkd⟩
  · rw [Nat.zero_add, List.map_take, same] at he
    rw [Patch.slotOf, hinst]
    exact he

/-- The instructions of an instrument find a slot each. -/
theorem fits (h : Compiled patch bpm b assembled) {i : Nat} {units : List AssembledUnit}
    (hi : assembled[i]? = some units) :
    total (units.map (·.instructions.length)) ≤ maxUnits := by
  obtain ⟨_, _, _, _, -, -, -, hs, -⟩ := h.instrument_of hi
  have room := hs.fits (Nat.zero_le _)
  omega

end Compiled

end ModularSynth
