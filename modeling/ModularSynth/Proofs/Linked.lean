-- The code that assembled units become once their references are resolved. Each reference
-- is resolved on its own, from the labels before and after its unit, so that the code of a
-- patch comes apart into one block for each instrument.
import ModularSynth.Proofs.Assembled

namespace ModularSynth

/-- The compiled units of an assembled one, given how labels are found. -/
def AssembledUnit.linked (find : (UnitLabel → Bool) → Option UnitLabel) (a : AssembledUnit) :
    CodeBlock :=
  a.instructions.map fun i => ⟨i.opcode, Assembly.instructionBytes find i⟩

namespace Assembly

/-! ## Linking -/

/-- The labels of units, in order. -/
def labels (units : List AssembledUnit) : List UnitLabel :=
  units.filterMap (·.label)

/-- The first label of those before that passes a test, or else of those after. -/
def nearest (before after : List UnitLabel) (test : UnitLabel → Bool) : Option UnitLabel :=
  before.find? test <|> after.find? test

/-- The code of the units of an instrument, given the labels before them, last first, and
those of the instruments after it. -/
def linkUnits (before later : List UnitLabel) : List AssembledUnit → CodeBlock
  | [] => []
  | a :: rest =>
    a.linked (nearest (a.label.toList ++ before) (labels rest ++ later)) ++
      linkUnits (a.label.toList ++ before) later rest

/-- The blocks of instruments, given the labels before them, last first. -/
def linkBlocks (before : List UnitLabel) : List (List AssembledUnit) → List CodeBlock
  | [] => []
  | units :: rest =>
    linkUnits before (labels rest.flatten) units ::
      linkBlocks ((labels units).reverse ++ before) rest

theorem labels_cons (a : AssembledUnit) (units : List AssembledUnit) :
    labels (a :: units) = a.label.toList ++ labels units := by
  cases h : a.label <;> simp [labels, h]

theorem labels_append (units more : List AssembledUnit) :
    labels (units ++ more) = labels units ++ labels more := by
  simp [labels]

theorem reverse_labels_cons (a : AssembledUnit) (units : List AssembledUnit)
    (before : List UnitLabel) :
    (labels (a :: units)).reverse ++ before =
      (labels units).reverse ++ (a.label.toList ++ before) := by
  rw [labels_cons, List.reverse_append, List.append_assoc]
  cases a.label <;> rfl

/-! ## The streams -/

/-- The operands of units are those of their code, unit by unit. -/
theorem operandBytes_append (before : List UnitLabel) (units more : List AssembledUnit) :
    operandBytes before (units ++ more) =
      (linkUnits before (labels more) units).operands ++
        operandBytes ((labels units).reverse ++ before) more := by
  induction units generalizing before with
  | nil => rfl
  | cons a rest ih =>
    rw [List.cons_append, operandBytes, ih, linkUnits, CodeBlock.operands_append,
      reverse_labels_cons, ← List.append_assoc]
    congr 2
    rw [← labels_append, AssembledUnit.linked, CodeBlock.operands, List.flatMap_map]
    rfl

theorem operandBytes_flatten (before : List UnitLabel) (instruments : List (List AssembledUnit)) :
    operandBytes before instruments.flatten =
      CodeBlock.operandStream (linkBlocks before instruments) := by
  induction instruments generalizing before with
  | nil => rfl
  | cons units rest ih =>
    rw [List.flatten_cons, operandBytes_append, ih, linkBlocks, CodeBlock.operandStream_cons]

theorem linkUnits_opcodes (before later : List UnitLabel) (units : List AssembledUnit) :
    (linkUnits before later units).opcodes ++ [0] = opcodeBytes units := by
  unfold opcodeBytes
  congr 1
  induction units generalizing before with
  | nil => rfl
  | cons a rest ih =>
    rw [linkUnits, CodeBlock.opcodes, List.map_append, ← CodeBlock.opcodes, ← CodeBlock.opcodes,
      ih, List.flatMap_cons, CodeBlock.opcodes, AssembledUnit.linked, List.map_map]
    rfl

theorem opcodeBytes_flatMap (before : List UnitLabel) (instruments : List (List AssembledUnit)) :
    instruments.flatMap opcodeBytes = CodeBlock.opcodeStream (linkBlocks before instruments) := by
  induction instruments generalizing before with
  | nil => rfl
  | cons units rest ih =>
    rw [List.flatMap_cons, ih ((labels units).reverse ++ before), linkBlocks,
      CodeBlock.opcodeStream_cons, ← linkUnits_opcodes before (labels rest.flatten) units]
    simp

/-! ## Single blocks and units -/

theorem linkBlocks_length (before : List UnitLabel) (instruments : List (List AssembledUnit)) :
    (linkBlocks before instruments).length = instruments.length := by
  induction instruments generalizing before with
  | nil => rfl
  | cons units rest ih => rw [linkBlocks, List.length_cons, List.length_cons, ih]

theorem linkBlocks_getElem? (before : List UnitLabel) (instruments : List (List AssembledUnit))
    (i : Nat) :
    (linkBlocks before instruments)[i]? = instruments[i]?.map fun units =>
      linkUnits ((labels (instruments.take i).flatten).reverse ++ before)
        (labels (instruments.drop (i + 1)).flatten) units := by
  induction instruments generalizing before i with
  | nil => simp [linkBlocks]
  | cons units rest ih =>
    cases i with
    | zero => rfl
    | succ i =>
      rw [linkBlocks, List.getElem?_cons_succ, ih, List.getElem?_cons_succ, List.take_succ_cons,
        List.flatten_cons, labels_append, List.reverse_append, List.append_assoc,
        List.drop_succ_cons]

theorem linkUnits_length (before later : List UnitLabel) (units : List AssembledUnit) :
    (linkUnits before later units).length = total (units.map (·.instructions.length)) := by
  induction units generalizing before with
  | nil => rfl
  | cons a rest ih =>
    rw [linkUnits, List.length_append, ih, AssembledUnit.linked, List.length_map, List.map_cons,
      total_cons]

/-- The code of a unit stands after that of the units before it. -/
theorem linkUnits_append (before later : List UnitLabel) (units : List AssembledUnit)
    (a : AssembledUnit) (rest : List AssembledUnit) :
    linkUnits before later (units ++ a :: rest) =
      linkUnits before (labels (a :: rest) ++ later) units ++
        (a.linked (nearest (a.label.toList ++ ((labels units).reverse ++ before))
          (labels rest ++ later)) ++
        linkUnits (a.label.toList ++ ((labels units).reverse ++ before)) later rest) := by
  induction units generalizing before with
  | nil => rfl
  | cons c units ih =>
    rw [List.cons_append, linkUnits, ih, linkUnits, labels_append, reverse_labels_cons,
      List.append_assoc, List.append_assoc]

/-- All code of linked units comes from their instructions. -/
theorem mem_linkUnits {before later : List UnitLabel} {units : List AssembledUnit}
    {c : CompiledUnit} (h : c ∈ linkUnits before later units) :
    ∃ a ∈ units, ∃ i ∈ a.instructions, ∃ find, c = ⟨i.opcode, instructionBytes find i⟩ := by
  induction units generalizing before with
  | nil => cases h
  | cons a rest ih =>
    rcases List.mem_append.mp h with h | h
    · obtain ⟨i, hi, rfl⟩ := List.mem_map.mp h
      exact ⟨a, List.mem_cons_self, i, hi, _, rfl⟩
    · obtain ⟨c, hc, found⟩ := ih h
      exact ⟨c, List.mem_cons_of_mem _ hc, found⟩

/-- A test that a single label passes finds this label, wherever it stands. -/
theorem nearest_eq {before after : List UnitLabel} {test : UnitLabel → Bool} {l : UnitLabel}
    (passes : test l = true) (mem : l ∈ before ∨ l ∈ after)
    (only : ∀ l', l' ∈ before ∨ l' ∈ after → test l' = true → l' = l) :
    nearest before after test = some l := by
  unfold nearest
  cases hb : before.find? test with
  | some l' =>
    have := only l' (.inl (List.mem_of_find?_eq_some hb)) (List.find?_some hb)
    simp [this]
  | none =>
    have absent : l ∉ before := fun h => by
      have := List.find?_eq_none.mp hb l h
      exact this passes
    cases ha : after.find? test with
    | some l' =>
      have := only l' (.inr (List.mem_of_find?_eq_some ha)) (List.find?_some ha)
      simp [this]
    | none =>
      exact absurd passes (List.find?_eq_none.mp ha l (mem.resolve_left absent))

end Assembly

end ModularSynth
