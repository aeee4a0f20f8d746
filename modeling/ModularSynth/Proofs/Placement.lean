-- Where the units of a patch come to stand, for a machine with any features. A unit of no known
-- kind that the machine has an opcode for is one instruction without operands.
import ModularSynth.Proofs.Sends
import ModularSynth.Proofs.SendTargets

namespace ModularSynth

open Assembly

/-! ## Instructions of a unit -/

/-- The opcode byte that a machine has for a unit. -/
def Features.unitByte (features : Features) (u : PatchUnit) : UInt8 :=
  (features.opcode? u.kindName).getD 0 + UInt8.ofInt (u.param "stereo")

namespace Patch

/-- How many instructions a unit becomes, its kind known or not. -/
def codeCount (patch : Patch) (instrument : Nat) (u : PatchUnit) : Nat :=
  if u.isActive ∧ u.kind? = none then 1 else patch.emittedCount instrument u

/-- The number of instructions before those of a unit. -/
def codeSlot (patch : Patch) (instrument unit : Nat) : Nat :=
  total ((((patch.instruments[instrument]?.map (·.units)).getD []).take unit).map
    (patch.codeCount instrument))

/-- The label of a unit. -/
def codeLabel (patch : Patch) (i k : Nat) (u : PatchUnit) : UnitLabel :=
  ⟨u.id, i, patch.firstVoice i, patch.codeSlot i k⟩

/-- The opcode of each instruction of a unit, with the number of its operand bytes. -/
def codeShape (patch : Patch) (features : Features) (instrument : Nat) (u : PatchUnit) :
    List (UInt8 × Nat) :=
  List.replicate (patch.codeCount instrument u)
    (features.unitByte u, (u.kind?.map (·.width)).getD 0)

theorem codeCount_inactive (patch : Patch) (instrument : Nat) {u : PatchUnit}
    (h : u.isActive = false) : patch.codeCount instrument u = 0 := by
  rw [codeCount, if_neg (by simp [h]), emittedCount_inactive patch instrument h]

theorem codeCount_known (patch : Patch) (instrument : Nat) {u : PatchUnit} {kind : UnitKind}
    (h : u.kind? = some kind) : patch.codeCount instrument u = patch.emittedCount instrument u := by
  rw [codeCount, if_neg (by simp [h])]

end Patch

namespace Assembly

/-- An assembled unit is made of an active unit for a machine with some features, at a slot of
an instrument. -/
structure Placed (patch : Patch) (features : Features) (instrument firstVoice slot : Nat)
    (u : PatchUnit) (a : AssembledUnit) : Prop where
  active : u.isActive = true
  code : ∃ delayStart samples known,
    instructions patch ⟨instrument, firstVoice, delayStart⟩ (features.unitByte u) u samples =
      .ok (a.instructions, known)
  label : a.label = if u.id = 0 then none else some ⟨u.id, instrument, firstVoice, slot⟩
  fits : slot + a.instructions.length ≤ maxUnits

section Placed

variable {patch : Patch} {features : Features} {instrument firstVoice slot : Nat} {u : PatchUnit}
  {a : AssembledUnit}

theorem Placed.shape (h : Placed patch features instrument firstVoice slot u a) :
    a.instructions.length = patch.codeCount instrument u ∧
      ∀ i ∈ a.instructions, i.opcode = features.unitByte u ∧ ∀ find,
        (instructionBytes find i).length = (u.kind?.map (·.width)).getD 0 := by
  obtain ⟨delayStart, samples, known, code⟩ := h.code
  cases hk : u.kind? with
  | some kind =>
    obtain ⟨count, -, shape⟩ := instructions_shape h.active hk code
    exact ⟨by rw [count, Patch.codeCount_known patch instrument hk], shape⟩
  | none =>
    simp only [instructions, hk, leadingOperands, Except.ok.injEq, Prod.mk.injEq] at code
    rw [← code.1, Patch.codeCount, if_pos ⟨h.active, hk⟩]
    refine ⟨rfl, fun i hi => ?_⟩
    rw [List.mem_singleton.mp hi]
    exact ⟨rfl, fun find => rfl⟩

theorem Placed.linked_shape (h : Placed patch features instrument firstVoice slot u a)
    (find : (UnitLabel → Bool) → Option UnitLabel) :
    (a.linked find).map (fun c => (c.opcode, c.operands.length)) =
      patch.codeShape features instrument u := by
  obtain ⟨count, shape⟩ := h.shape
  rw [AssembledUnit.linked, List.map_map]
  refine List.eq_replicate_iff.mpr ⟨by rw [List.length_map, count], fun c hc => ?_⟩
  obtain ⟨i, hi, rfl⟩ := List.mem_map.mp hc
  obtain ⟨opcode, width⟩ := shape i hi
  exact Prod.ext opcode (width find)

/-- The references of a unit are those that a send makes. -/
theorem Placed.reference (h : Placed patch features instrument firstVoice slot u a)
    {i : Instruction} (hi : i ∈ a.instructions) {r : Reference} (hr : i.address = some r) :
    r ∈ sendReferences patch instrument u := by
  obtain ⟨delayStart, samples, known, code⟩ := h.code
  -- a unit that is no send has no reference in its only instruction
  have single : ∀ op operands, a.instructions = [⟨op, operands, none⟩] → False := by
    intro op operands same
    rw [same, List.mem_singleton] at hi
    rw [hi] at hr
    cases hr
  cases hk : u.kind? with
  | none =>
    simp only [instructions, hk, Except.ok.injEq, Prod.mk.injEq] at code
    exact (single _ _ code.1.symm).elim
  | some kind =>
    cases kind
    case send =>
      simp only [instructions, hk, Except.ok.injEq, Prod.mk.injEq] at code
      rw [← code.1] at hi
      obtain ⟨made, mem, rfl⟩ := List.mem_map.mp hi
      cases hr
      exact mem
    case delay =>
      simp only [instructions, hk] at code
      split at code <;> simp only [Except.ok.injEq, Prod.mk.injEq] at code
      · rw [← code.1] at hi
        cases hi
      · exact (single _ _ code.1.symm).elim
    case oscillator =>
      simp only [instructions, hk] at code
      split at code
      · split at code
        · simp only [Except.ok.injEq, Prod.mk.injEq] at code
          exact (single _ _ code.1.symm).elim
        · cases code
      · simp only [Except.ok.injEq, Prod.mk.injEq] at code
        exact (single _ _ code.1.symm).elim
    all_goals
      simp only [instructions, hk, Except.ok.injEq, Prod.mk.injEq] at code
      exact (single _ _ code.1.symm).elim

/-- The code of a send is an opcode for each of its references. -/
theorem Placed.send_linked (h : Placed patch features instrument firstVoice slot u a)
    (hk : u.kind? = some .send) (find : (UnitLabel → Bool) → Option UnitLabel) :
    a.linked find = sendCode (features.unitByte u) (operand (u.param "amount"))
      ((sendReferences patch instrument u).map (·.resolve find)) := by
  obtain ⟨delayStart, samples, known, code⟩ := h.code
  have leading : leadingOperands u = [operand (u.param "amount")] := by
    rw [leadingOperands, hk]
    rfl
  simp only [instructions, hk, Except.ok.injEq, Prod.mk.injEq, leading] at code
  rw [AssembledUnit.linked, ← code.1, sendCode, List.map_map, List.map_map]
  rfl

end Placed

/-! ## The units of an instrument -/

/-- The active units of an instrument are assembled one after the other, from a slot on. -/
inductive PlacedFrom (patch : Patch) (features : Features) (instrument firstVoice : Nat) :
    Nat → List PatchUnit → List AssembledUnit → Prop
  | nil {slot : Nat} : PlacedFrom patch features instrument firstVoice slot [] []
  | skip {slot : Nat} {u : PatchUnit} {units : List PatchUnit} {assembled : List AssembledUnit}
    (inactive : u.isActive = false)
    (rest : PlacedFrom patch features instrument firstVoice slot units assembled) :
    PlacedFrom patch features instrument firstVoice slot (u :: units) assembled
  | place {slot : Nat} {u : PatchUnit} {a : AssembledUnit} {units : List PatchUnit}
    {assembled : List AssembledUnit}
    (head : Placed patch features instrument firstVoice slot u a)
    (rest : PlacedFrom patch features instrument firstVoice (slot + a.instructions.length) units
      assembled) :
    PlacedFrom patch features instrument firstVoice slot (u :: units) (a :: assembled)

theorem assembleUnits_placed {patch : Patch} {features : Features} {instrument firstVoice slot : Nat}
    {samples later : List SampleOffset} {units : List (PatchUnit × Nat)}
    {assembled : List AssembledUnit}
    (h : assembleUnits patch features instrument firstVoice slot samples units =
      .ok (assembled, later)) :
    PlacedFrom patch features instrument firstVoice slot (units.map (·.1)) assembled := by
  induction units generalizing slot samples assembled with
  | nil =>
    simp only [assembleUnits, Except.ok.injEq, Prod.mk.injEq] at h
    rw [← h.1]
    exact .nil
  | cons head rest ih =>
    obtain ⟨u, delayStart⟩ := head
    rw [assembleUnits] at h
    by_cases active : u.isActive = true
    · simp only [active, if_true] at h
      cases supported : features.opcode? u.kindName with
      | none => simp [supported] at h
      | some opcode =>
        simp only [supported] at h
        obtain ⟨⟨code, known⟩, made, h⟩ := bind_eq_ok h
        split at h
        · cases h
        · rename_i fits
          obtain ⟨tail, ht, h⟩ := bind_eq_ok h
          cases h
          have byte : features.unitByte u = opcode + UInt8.ofInt (u.param "stereo") := by
            rw [Features.unitByte, supported]
            rfl
          exact .place ⟨active, ⟨delayStart, samples, known, byte ▸ made⟩, rfl,
            Nat.le_of_not_lt fits⟩ (ih ht)
    · simp only [active, if_false, Bool.false_eq_true] at h
      exact .skip (by simpa using active) (ih h)

section PlacedFrom

variable {patch : Patch} {features : Features} {instrument firstVoice slot : Nat}
  {units : List PatchUnit} {assembled : List AssembledUnit}

/-- An active unit stands among the assembled ones, after the instructions of the units
before it. -/
theorem PlacedFrom.of_unit
    (h : PlacedFrom patch features instrument firstVoice slot units assembled) {k : Nat}
    {u : PatchUnit} (hk : units[k]? = some u) (active : u.isActive = true) :
    ∃ before a after, assembled = before ++ a :: after ∧
      total (before.map (·.instructions.length)) =
        total ((units.take k).map (patch.codeCount instrument)) ∧
      Placed patch features instrument firstVoice
        (slot + total ((units.take k).map (patch.codeCount instrument))) u a := by
  induction h generalizing k with
  | nil => simp at hk
  | @skip _ u' _ _ inactive _ ih =>
    cases k with
    | zero =>
      cases hk
      rw [active] at inactive
      cases inactive
    | succ k =>
      rw [List.take_succ_cons, List.map_cons, total_cons, Patch.codeCount_inactive _ _ inactive,
        Nat.zero_add]
      exact ih hk
  | @place _ u' a' _ _ head _ ih =>
    cases k with
    | zero =>
      cases hk
      exact ⟨[], a', _, rfl, rfl, head⟩
    | succ k =>
      obtain ⟨before, a, after, rfl, slots, placed⟩ := ih hk
      rw [List.take_succ_cons, List.map_cons, total_cons, ← head.shape.1]
      refine ⟨a' :: before, a, after, rfl, ?_, ?_⟩
      · rw [List.map_cons, total_cons, slots]
      · rw [← Nat.add_assoc]
        exact placed

/-- Every assembled unit is made of an active one. -/
theorem PlacedFrom.unit_of
    (h : PlacedFrom patch features instrument firstVoice slot units assembled) {a : AssembledUnit}
    (ha : a ∈ assembled) : ∃ u slot, Placed patch features instrument firstVoice slot u a := by
  induction h with
  | nil => cases ha
  | skip _ _ ih => exact ih ha
  | place head _ ih =>
    rcases List.mem_cons.mp ha with rfl | later
    · exact ⟨_, _, head⟩
    · exact ih later

/-- The labels carry the ids of the units in order. -/
theorem PlacedFrom.label_ids
    (h : PlacedFrom patch features instrument firstVoice slot units assembled) :
    (labels assembled).map (·.id) =
      (units.filter fun u => u.isActive && u.id != 0).map (·.id) := by
  induction h with
  | nil => rfl
  | skip inactive _ ih => rw [ih, List.filter_cons_of_neg (by simp [inactive])]
  | @place _ u _ _ _ head _ ih =>
    rw [labels_cons, List.map_append, ih, head.label]
    by_cases zero : u.id = 0
    · rw [if_pos zero, List.filter_cons_of_neg (by simp [zero])]
      rfl
    · rw [if_neg zero, List.filter_cons_of_pos (by simp [zero, head.active])]
      rfl

/-- The code of an instrument has the opcodes and operands that its units need. -/
theorem PlacedFrom.linked_shape
    (h : PlacedFrom patch features instrument firstVoice slot units assembled)
    (before later : List UnitLabel) :
    (linkUnits before later assembled).map (fun c => (c.opcode, c.operands.length)) =
      units.flatMap (patch.codeShape features instrument) := by
  induction h generalizing before with
  | nil => rfl
  | skip inactive _ ih =>
    rw [ih, List.flatMap_cons, Patch.codeShape, Patch.codeCount_inactive _ _ inactive]
    rfl
  | place head _ ih => rw [linkUnits, List.map_append, ih, head.linked_shape, List.flatMap_cons]

end PlacedFrom

/-! ## The instruments of a patch -/

theorem assembleInstruments_placed {patch : Patch} {features : Features}
    {instrument firstVoice : Nat} {samples later : List SampleOffset}
    {instruments : List (Instrument × List Nat)} {assembled : List (List AssembledUnit)}
    (h : assembleInstruments patch features instrument firstVoice samples instruments =
      .ok (assembled, later)) :
    assembled.length = instruments.length ∧
      ∀ j i delayStarts, instruments[j]? = some (i, delayStarts) → 1 ≤ i.numVoices ∧
        ∃ units, assembled[j]? = some units ∧
          PlacedFrom patch features (instrument + j)
            (firstVoice + total ((instruments.take j).map (·.1.numVoices))) 0
            ((i.units.zip delayStarts).map (·.1)) units := by
  induction instruments generalizing instrument firstVoice samples assembled with
  | nil =>
    simp only [assembleInstruments, Except.ok.injEq, Prod.mk.injEq] at h
    rw [← h.1]
    exact ⟨rfl, fun j i d hj => by cases hj⟩
  | cons head rest ih =>
    rw [assembleInstruments] at h
    split at h
    · cases h
    · rename_i voices
      obtain ⟨units, hu, h⟩ := bind_eq_ok h
      obtain ⟨others, ho, h⟩ := bind_eq_ok h
      cases h
      obtain ⟨length, each⟩ := ih ho
      refine ⟨by rw [List.length_cons, List.length_cons, length], fun j i d hj => ?_⟩
      cases j with
      | zero =>
        cases hj
        exact ⟨Nat.le_of_not_lt voices, units.1, rfl, assembleUnits_placed hu⟩
      | succ j =>
        obtain ⟨some_voice, units', hu', placed⟩ := each j i d hj
        refine ⟨some_voice, units', hu', ?_⟩
        rw [List.take_succ_cons, List.map_cons, total_cons, ← Nat.add_assoc firstVoice,
          show instrument + (j + 1) = instrument + 1 + j by omega]
        exact placed

end Assembly

/-- What is known of a patch that has been compiled for a machine with some features. -/
structure CompiledFor (patch : Patch) (features : Features) (bpm : Nat) (b : Bytecode)
    (assembled : List (List AssembledUnit)) : Prop where
  made : ∃ samples, assembleInstruments patch features 0 0 []
    (patch.instruments.zip (DelayTable.ofPatch patch bpm).2) = .ok (assembled, samples)
  opcodes : b.opcodes = CodeBlock.opcodeStream (linkBlocks [] assembled)
  operands : b.operands = CodeBlock.operandStream (linkBlocks [] assembled)

theorem Bytecode.compile_for {patch : Patch} {features : Features} {bpm : Nat} {b : Bytecode}
    (h : Bytecode.compile patch features bpm = .ok b) :
    ∃ assembled, CompiledFor patch features bpm b assembled := by
  unfold Bytecode.compile at h
  split at h
  · cases h
  · obtain ⟨made, hm, whole⟩ := bind_eq_ok h
    cases whole
    exact ⟨made.1, ⟨made.2, hm⟩, opcodeBytes_flatMap _ _, operandBytes_flatten _ _⟩

namespace CompiledFor

variable {patch : Patch} {features : Features} {bpm : Nat} {b : Bytecode}
  {assembled : List (List AssembledUnit)}

theorem length (h : CompiledFor patch features bpm b assembled) :
    assembled.length = patch.instruments.length := by
  obtain ⟨samples, made⟩ := h.made
  rw [(assembleInstruments_placed made).1, List.length_zip, DelayTable.ofPatch,
    DelayTable.parts_length, List.length_map, Nat.min_self]

/-- The units of an instrument stand in its block from slot zero on. -/
theorem of_instrument (h : CompiledFor patch features bpm b assembled) {i : Nat}
    {instrument : Instrument} (hi : patch.instruments[i]? = some instrument) :
    ∃ units, assembled[i]? = some units ∧
      PlacedFrom patch features i (patch.firstVoice i) 0 instrument.units units := by
  obtain ⟨samples, made⟩ := h.made
  obtain ⟨delayStarts, hd, hl, -⟩ := DelayTable.starts_of_instrument bpm hi
  obtain ⟨-, units, hu, placed⟩ := (assembleInstruments_placed made).2 i instrument delayStarts
    (List.getElem?_zip_eq_some.mpr ⟨hi, hd⟩)
  have same : (patch.instruments.zip (DelayTable.ofPatch patch bpm).2).map (·.1) =
      patch.instruments :=
    List.map_fst_zip (by simp [DelayTable.ofPatch, DelayTable.parts_length])
  have before : total (((patch.instruments.zip (DelayTable.ofPatch patch bpm).2).take i).map
      (·.1.numVoices)) = patch.firstVoice i := by
    rw [Patch.firstVoice, ← same, ← List.map_take, List.map_map, same]
    rfl
  rw [before, Nat.zero_add, Nat.zero_add, List.map_fst_zip (by omega)] at placed
  exact ⟨units, hu, placed⟩

theorem instrument_of (h : CompiledFor patch features bpm b assembled) {i : Nat}
    {units : List AssembledUnit} (hi : assembled[i]? = some units) :
    ∃ instrument, patch.instruments[i]? = some instrument ∧
      PlacedFrom patch features i (patch.firstVoice i) 0 instrument.units units := by
  have hlt : i < patch.instruments.length := by
    rw [← h.length]
    exact (List.getElem?_eq_some_iff.mp hi).1
  have here := List.getElem?_eq_getElem hlt
  obtain ⟨units', hu, placed⟩ := h.of_instrument here
  rw [hi] at hu
  cases hu
  exact ⟨_, here, placed⟩

/-- An active unit stands in its instrument at its slot. -/
theorem of_unit (h : CompiledFor patch features bpm b assembled) {i k : Nat} {u : PatchUnit}
    (hu : patch.unit? i k = some u) (active : u.isActive = true) :
    ∃ before a after, assembled[i]? = some (before ++ a :: after) ∧
      total (before.map (·.instructions.length)) = patch.codeSlot i k ∧
      Placed patch features i (patch.firstVoice i) (patch.codeSlot i k) u a := by
  obtain ⟨instrument, hi, hk⟩ := Option.bind_eq_some_iff.mp hu
  obtain ⟨units, ha, placed⟩ := h.of_instrument hi
  obtain ⟨before, a, after, rfl, slots, stands⟩ := placed.of_unit hk active
  have slot : total ((instrument.units.take k).map (patch.codeCount i)) = patch.codeSlot i k := by
    rw [Patch.codeSlot, hi]
    rfl
  rw [Nat.zero_add, slot] at stands
  exact ⟨before, a, after, ha, slots.trans slot, stands⟩

/-- The blocks have the opcodes and operands that the units need. -/
theorem shape (h : CompiledFor patch features bpm b assembled) :
    (linkBlocks [] assembled).map (·.map fun c => (c.opcode, c.operands.length)) =
      patch.instruments.zipIdx.map fun (instrument, i) =>
        instrument.units.flatMap (patch.codeShape features i) := by
  apply List.ext_getElem?
  intro i
  rw [List.getElem?_map, linkBlocks_getElem?, List.getElem?_map, List.getElem?_zipIdx]
  cases hi : patch.instruments[i]? with
  | none =>
    have outside : assembled[i]? = none := by
      rw [List.getElem?_eq_none_iff] at hi ⊢
      exact h.length ▸ hi
    rw [outside]
    rfl
  | some instrument =>
    obtain ⟨units, hu, placed⟩ := h.of_instrument hi
    simp only [hu, Option.map_some, placed.linked_shape, Nat.zero_add]

/-! ## Labels -/

theorem label_ids (h : CompiledFor patch features bpm b assembled) :
    (labels assembled.flatten).map (·.id) = patch.ids := by
  have each : assembled.map (fun units => (labels units).map (·.id)) =
      patch.instruments.map fun i =>
        (i.units.filter fun u => u.isActive && u.id != 0).map (·.id) := by
    apply List.ext_getElem?
    intro i
    rw [List.getElem?_map, List.getElem?_map]
    cases hi : patch.instruments[i]? with
    | none =>
      rw [List.getElem?_eq_none_iff] at hi
      rw [List.getElem?_eq_none (h.length ▸ hi)]
      rfl
    | some instrument =>
      obtain ⟨units, hu, placed⟩ := h.of_instrument hi
      rw [hu, Option.map_some, placed.label_ids, Option.map_some]
  rw [Patch.ids, List.flatMap_def, ← each, labels, List.filterMap_flatten, List.map_flatten,
    List.map_map]
  rfl

theorem label_mem (h : CompiledFor patch features bpm b assembled) {i k : Nat} {u : PatchUnit}
    (hu : patch.unit? i k = some u) (active : u.isActive = true) (hid : u.id ≠ 0) :
    patch.codeLabel i k u ∈ labels assembled.flatten := by
  obtain ⟨before, a, after, ha, -, placed⟩ := h.of_unit hu active
  refine List.mem_filterMap.mpr ⟨a, List.mem_flatten.mpr ⟨_, List.mem_of_getElem? ha, by simp⟩, ?_⟩
  rw [placed.label, if_neg hid]
  rfl

/-- Where ids are unique, a test for the id of a unit finds the label of that unit from
everywhere. -/
theorem finds_label (h : CompiledFor patch features bpm b assembled) (unique : patch.IdsUnique)
    {i : Nat} {pre post : List AssembledUnit} {a : AssembledUnit}
    (hi : assembled[i]? = some (pre ++ a :: post)) {ti tk : Nat} {t : PatchUnit}
    (ht : patch.unit? ti tk = some t) (active : t.isActive = true) (hid : t.id ≠ 0)
    {test : UnitLabel → Bool} (passes : test (patch.codeLabel ti tk t) = true)
    (only : ∀ l, test l = true → l.id = t.id) :
    finder assembled i pre a post test = some (patch.codeLabel ti tk t) := by
  have around : ∀ l, (l ∈ a.label.toList ++ ((labels pre).reverse ++
        ((labels (assembled.take i).flatten).reverse ++ [])) ∨
      l ∈ labels post ++ labels (assembled.drop (i + 1)).flatten) ↔
      l ∈ labels assembled.flatten := by
    intro l
    rw [Compiled.mem_around hi, labels]
    simp only [List.mem_filterMap, List.mem_flatten]
    grind
  have nodup : ((labels assembled.flatten).map (·.id)).Nodup := by
    rw [h.label_ids]
    exact unique
  have mem := h.label_mem ht active hid
  refine nearest_eq passes ((around _).mpr mem) fun l hl pass => ?_
  exact List.inj_on_of_nodup_map nodup ((around l).mp hl) mem (only l pass)

end CompiledFor

end ModularSynth
