-- The emissions of a patch, written in one pass, are its operands as they are linked from the
-- labels before and after each unit. Symbols and labels agree on every address, within an
-- instrument and across instruments.
import ModularSynth.Proofs.OnePass

namespace ModularSynth

open Assembly

/-! ## Symbols and labels -/

/-- Within an instrument, symbols have the addresses of the first labels that they mean. -/
structure Agrees (instrument : Nat) (address? : Symbol → Option UInt16) (ls : List UnitLabel) :
    Prop where
  inner : ∀ id, address? (.inVoice id) =
    (ls.find? fun l => l.id == id && l.instrument == instrument).map (·.localAddress)
  outer : ∀ id, address? (.anywhere id) = (ls.find? fun l => l.id == id).map (·.globalAddress)

namespace Agrees

variable {n : Nat} {address? : Symbol → Option UInt16} {ls : List UnitLabel}

theorem nil : Agrees n (fun _ => none) [] :=
  ⟨fun _ => rfl, fun _ => rfl⟩

theorem label (h : Agrees n address? ls) {l : UnitLabel} (hl : l.instrument = n) :
    Agrees n (Symbol.labelled l address?) (l :: ls) := by
  constructor <;> intro id
  · by_cases same : l.id = id
    · simp [Symbol.labelled, same, hl]
    · rw [Symbol.labelled, if_neg (Ne.symm same), h.inner, List.find?_cons_of_neg (by simp [same])]
  · by_cases same : l.id = id
    · simp [Symbol.labelled, same]
    · rw [Symbol.labelled, if_neg (Ne.symm same), h.outer, List.find?_cons_of_neg (by simp [same])]

/-- Outside an instrument, no symbol within it has an address. -/
theorem outside (h : Agrees n address? ls) {m : Nat} (others : ∀ l ∈ ls, l.instrument ≠ m) :
    Agrees m (Symbol.outside address?) ls := by
  constructor <;> intro id
  · have none : ls.find? (fun l => l.id == id && l.instrument == m) = none :=
      List.find?_eq_none.mpr fun l hl => by simp [others l hl]
    rw [none]
    rfl
  · exact h.outer id

theorem nearest_inner {later? : Symbol → Option UInt16} {before after : List UnitLabel}
    (hb : Agrees n address? before) (ha : Agrees n later? after) (id : Int) :
    (address? (.inVoice id) <|> later? (.inVoice id)) =
      (nearest before after fun l => l.id == id && l.instrument == n).map (·.localAddress) := by
  rw [hb.inner, ha.inner, nearest]
  cases before.find? fun l => l.id == id && l.instrument == n <;> rfl

theorem nearest_outer {later? : Symbol → Option UInt16} {before after : List UnitLabel}
    (hb : Agrees n address? before) (ha : Agrees n later? after) (id : Int) :
    (address? (.anywhere id) <|> later? (.anywhere id)) =
      (nearest before after fun l => l.id == id).map (·.globalAddress) := by
  rw [hb.outer, ha.outer, nearest]
  cases before.find? fun l => l.id == id <;> rfl

end Agrees

/-- A reference from an instrument finds one of some labels. -/
def Reference.HasLabel (instrument : Nat) (ls : List UnitLabel) : Reference → Prop
  | .fixed _ => True
  | .inVoice i id _ => i = instrument ∧ ∃ l ∈ ls, l.id = id ∧ l.instrument = instrument
  | .anywhere id _ => ∃ l ∈ ls, l.id = id

theorem Reference.HasLabel.mono {n : Nat} {ls more : List UnitLabel} {r : Reference}
    (h : r.HasLabel n ls) (mem : ∀ l ∈ ls, l ∈ more) : r.HasLabel n more := by
  cases r with
  | fixed a => trivial
  | inVoice instrument id offset =>
    obtain ⟨same, l, hl, fits⟩ := h
    exact ⟨same, l, mem l hl, fits⟩
  | anywhere id offset =>
    obtain ⟨l, hl, fits⟩ := h
    exact ⟨l, mem l hl, fits⟩

theorem Assembly.nearest_isSome {before after : List UnitLabel} (test : UnitLabel → Bool)
    {l : UnitLabel} (mem : l ∈ before ∨ l ∈ after) (passes : test l = true) :
    ∃ found, nearest before after test = some found := by
  unfold nearest
  cases hb : before.find? test with
  | some found => exact ⟨found, rfl⟩
  | none =>
    have later := mem.resolve_left fun h => List.find?_eq_none.mp hb l h passes
    cases ha : after.find? test with
    | some found => exact ⟨found, rfl⟩
    | none => exact (List.find?_eq_none.mp ha l later passes).elim

namespace Emission

/-! ## Instructions -/

@[simp]
theorem next_operands (bytes : List UInt8) (es : List Emission) :
    next (bytes.map .operand ++ es) = next es := by
  induction bytes with
  | nil => rfl
  | cons byte rest ih => exact ih

@[simp]
theorem next_ofReference (r : Reference) (es : List Emission) :
    next (ofReference r ++ es) = next es := by
  cases r with
  | fixed a => exact next_operands _ es
  | inVoice instrument id offset => rfl
  | anywhere id offset => rfl

@[simp]
theorem next_ofInstruction (i : Instruction) (es : List Emission) :
    next (ofInstruction i ++ es) = next es := by
  rw [ofInstruction, List.append_assoc, next_operands]
  cases i.address with
  | none => rfl
  | some r => exact next_ofReference r es

@[simp]
theorem next_instructions (code : List Instruction) (es : List Emission) :
    next (code.flatMap ofInstruction ++ es) = next es := by
  induction code with
  | nil => rfl
  | cons i rest ih => rw [List.flatMap_cons, List.append_assoc, next_ofInstruction, ih]

theorem linked?_operands (known : List (Symbol × UInt16)) (bytes : List UInt8)
    (es : List Emission) :
    linked? known (bytes.map .operand ++ es) = (linked? known es).map (bytes ++ ·) := by
  induction bytes with
  | nil => simp
  | cons byte rest ih =>
    rw [List.map_cons, List.cons_append, linked?, ih, Option.map_map]
    rfl

section Linked

variable {n : Nat} {known : List (Symbol × UInt16)} {es : List Emission}
  {before after : List UnitLabel}

/-- A reference becomes the address that its label gives it. -/
theorem linked?_ofReference (hb : Agrees n (known.lookup ·) before) (ha : Agrees n (next es) after)
    {r : Reference} (has : r.HasLabel n (before ++ after)) :
    linked? known (ofReference r ++ es) =
      (linked? known es).map (addressBytes (r.resolve (nearest before after)) ++ ·) := by
  cases r with
  | fixed a => exact linked?_operands known _ es
  | inVoice instrument id offset =>
    obtain ⟨rfl, l, mem, same, here⟩ := has
    obtain ⟨found, near⟩ := nearest_isSome (fun l => l.id == id && l.instrument == instrument)
      (List.mem_append.mp mem) (by simp [same, here])
    have address : (known.lookup (.inVoice id) <|> next es (.inVoice id)) =
        some found.localAddress := by
      rw [hb.nearest_inner ha, near]
      rfl
    rw [ofReference, List.singleton_append, linked?, address, Reference.resolve, near]
    cases linked? known es <;> rfl
  | anywhere id offset =>
    obtain ⟨l, mem, same⟩ := has
    obtain ⟨found, near⟩ := nearest_isSome (fun l => l.id == id) (List.mem_append.mp mem)
      (by simp [same])
    have address : (known.lookup (.anywhere id) <|> next es (.anywhere id)) =
        some found.globalAddress := by
      rw [hb.nearest_outer ha, near]
      rfl
    rw [ofReference, List.singleton_append, linked?, address, Reference.resolve, near]
    cases linked? known es <;> rfl

theorem linked?_ofInstruction (hb : Agrees n (known.lookup ·) before)
    (ha : Agrees n (next es) after) {i : Instruction}
    (has : ∀ r, i.address = some r → r.HasLabel n (before ++ after)) :
    linked? known (ofInstruction i ++ es) =
      (linked? known es).map (instructionBytes (nearest before after) i ++ ·) := by
  rw [ofInstruction, List.append_assoc, linked?_operands, instructionBytes]
  cases hr : i.address with
  | none => rfl
  | some r =>
    have reference := linked?_ofReference hb ha (has r hr)
    simp only [Option.map_some, Option.getD_some]
    rw [reference, Option.map_map]
    simp [Function.comp_def]

theorem linked?_instructions (hb : Agrees n (known.lookup ·) before)
    (ha : Agrees n (next es) after) {code : List Instruction}
    (has : ∀ i ∈ code, ∀ r, i.address = some r → r.HasLabel n (before ++ after)) :
    linked? known (code.flatMap ofInstruction ++ es) =
      (linked? known es).map
        (code.flatMap (instructionBytes (nearest before after)) ++ ·) := by
  induction code with
  | nil => simp
  | cons i rest ih =>
    have later : Agrees n (next (rest.flatMap ofInstruction ++ es)) after := by
      rwa [next_instructions]
    rw [List.flatMap_cons, List.append_assoc,
      linked?_ofInstruction hb later (has i List.mem_cons_self),
      ih fun j hj => has j (List.mem_cons_of_mem _ hj), Option.map_map]
    simp [Function.comp_def]

end Linked

/-! ## Units and instruments -/

/-- The labels and references of assembled units belong to an instrument, and every reference
has a label among all labels. -/
structure Belongs (instrument : Nat) (all : List UnitLabel) (units : List AssembledUnit) : Prop where
  labels : ∀ a ∈ units, ∀ l, a.label = some l → l.instrument = instrument
  references : ∀ a ∈ units, ∀ i ∈ a.instructions, ∀ r, i.address = some r →
    r.HasLabel instrument all

theorem Belongs.tail {n : Nat} {all : List UnitLabel} {a : AssembledUnit}
    {units : List AssembledUnit} (h : Belongs n all (a :: units)) : Belongs n all units :=
  ⟨fun a ha => h.labels a (List.mem_cons_of_mem _ ha),
    fun a ha => h.references a (List.mem_cons_of_mem _ ha)⟩

theorem Belongs.mem_labels {n : Nat} {all : List UnitLabel} {units : List AssembledUnit}
    (h : Belongs n all units) {l : UnitLabel} (hl : l ∈ Assembly.labels units) :
    l.instrument = n := by
  obtain ⟨a, ha, label⟩ := List.mem_filterMap.mp hl
  exact h.labels a ha l label

/-- What comes after a unit and its label. -/
theorem next_ofUnit {n : Nat} {a : AssembledUnit} {es : List Emission} {later : List UnitLabel}
    (here : ∀ l, a.label = some l → l.instrument = n) (h : Agrees n (next es) later) :
    Agrees n (next (ofUnit a ++ es)) (a.label.toList ++ later) := by
  unfold ofUnit
  cases hl : a.label with
  | none => simpa using h
  | some l =>
    have labelled := h.label (here l hl)
    simpa [next] using labelled

theorem next_units {n : Nat} {all : List UnitLabel} {units : List AssembledUnit}
    {es : List Emission} {later : List UnitLabel} (hu : Belongs n all units)
    (h : Agrees n (next es) later) :
    Agrees n (next (units.flatMap ofUnit ++ es)) (Assembly.labels units ++ later) := by
  induction units with
  | nil => exact h
  | cons a rest ih =>
    rw [List.flatMap_cons, List.append_assoc, labels_cons, List.append_assoc]
    exact next_ofUnit (hu.labels a List.mem_cons_self) (ih hu.tail)

theorem lookup_cons_eq (s : Symbol) (address : UInt16) (known : List (Symbol × UInt16))
    (symbol : Symbol) :
    ((s, address) :: known).lookup symbol =
      if symbol = s then some address else known.lookup symbol := by
  rw [List.lookup_cons]
  by_cases same : symbol = s
  · rw [if_pos same, same, beq_self_eq_true]
  · rw [if_neg same, beq_false_of_ne same]

theorem lookup_label (l : UnitLabel) (known : List (Symbol × UInt16)) :
    (fun symbol => List.lookup symbol
      ((.anywhere l.id, l.globalAddress) :: (.inVoice l.id, l.localAddress) :: known)) =
      Symbol.labelled l (known.lookup ·) := by
  funext symbol
  cases symbol <;> simp [lookup_cons_eq, Symbol.labelled]

/-- At the end of an instrument, the symbols within it are forgotten. -/
theorem lookup_finish (known : List (Symbol × UInt16)) :
    (fun symbol => List.lookup symbol (known.filter (!·.1.isInner))) =
      Symbol.outside (known.lookup ·) := by
  funext symbol
  unfold Symbol.outside
  induction known with
  | nil => simp
  | cons x rest ih =>
    obtain ⟨s, address⟩ := x
    dsimp only
    rw [lookup_cons_eq]
    cases inner : s.isInner with
    | true =>
      rw [List.filter_cons_of_neg (by simp [inner]), ih]
      by_cases same : symbol = s
      · rw [if_pos (same ▸ inner), if_pos (same ▸ inner)]
      · rw [if_neg same]
    | false =>
      rw [List.filter_cons_of_pos (by simp [inner]), lookup_cons_eq, ih]
      by_cases same : symbol = s
      · rw [if_pos same, if_pos same, same, inner]
        rfl
      · rw [if_neg same, if_neg same]

/-- From its label on, the address of a unit is known. -/
theorem linked?_label {n : Nat} {a : AssembledUnit} {before : List UnitLabel}
    {known : List (Symbol × UInt16)} (here : ∀ l, a.label = some l → l.instrument = n)
    (hb : Agrees n (known.lookup ·) before) (es : List Emission) :
    ∃ known' : List (Symbol × UInt16), Agrees n (known'.lookup ·) (a.label.toList ++ before) ∧
      linked? known (ofUnit a ++ es) =
        linked? known' (a.instructions.flatMap ofInstruction ++ es) := by
  unfold ofUnit
  cases hl : a.label with
  | none => exact ⟨known, hb, rfl⟩
  | some l =>
    refine ⟨(.anywhere l.id, l.globalAddress) :: (.inVoice l.id, l.localAddress) :: known, ?_, rfl⟩
    rw [lookup_label]
    exact hb.label (here l hl)

/-- The units of an instrument become the operands of their code. -/
theorem linked?_units {n : Nat} {all before later : List UnitLabel} {units : List AssembledUnit}
    {known : List (Symbol × UInt16)} {es : List Emission} {tail : List UInt8}
    (hu : Belongs n all units)
    (around : ∀ l ∈ all, l ∈ before ∨ l ∈ Assembly.labels units ++ later)
    (hb : Agrees n (known.lookup ·) before) (hl : Agrees n (next es) later)
    (rest : ∀ known : List (Symbol × UInt16),
      Agrees n (known.lookup ·) ((Assembly.labels units).reverse ++ before) →
      linked? known es = some tail) :
    linked? known (units.flatMap ofUnit ++ es) =
      some ((linkUnits before later units).operands ++ tail) := by
  induction units generalizing known before with
  | nil => exact rest known hb
  | cons a units ih =>
    have after : Agrees n (next (units.flatMap ofUnit ++ es)) (Assembly.labels units ++ later) :=
      next_units hu.tail hl
    obtain ⟨known', now, labelled⟩ := linked?_label (hu.labels a List.mem_cons_self) hb
      (units.flatMap ofUnit ++ es)
    have near : ∀ l ∈ all, l ∈ (a.label.toList ++ before) ++ (Assembly.labels units ++ later) := by
      intro l mem
      have := around l mem
      rw [labels_cons] at this
      simp only [List.mem_append] at this ⊢
      tauto
    have linked := ih hu.tail (fun l mem => List.mem_append.mp (near l mem)) now
      fun known'' agrees => rest known'' (by rwa [reverse_labels_cons])
    rw [List.flatMap_cons, List.append_assoc, labelled, linked?_instructions now after fun i hi r hr =>
      (hu.references a List.mem_cons_self i hi r hr).mono near, linked, linkUnits,
      CodeBlock.operands_append, List.append_assoc, AssembledUnit.linked,
      CodeBlock.operands.eq_def (List.map _ _), List.flatMap_map]
    rfl

/-- The labels of later instruments belong to none before them. -/
theorem not_here {n : Nat} {all : List UnitLabel} {rest : List (List AssembledUnit)}
    (belong : ∀ k units, rest[k]? = some units → Belongs (n + 1 + k) all units) :
    ∀ l ∈ Assembly.labels rest.flatten, l.instrument ≠ n := by
  intro l hl
  obtain ⟨a, ha, label⟩ := List.mem_filterMap.mp hl
  obtain ⟨units, hu, mem⟩ := List.mem_flatten.mp ha
  obtain ⟨k, hk⟩ := List.mem_iff_getElem?.mp hu
  have := (belong k units hk).labels a mem l label
  omega

theorem next_instruments {n : Nat} {all : List UnitLabel} {instruments : List (List AssembledUnit)}
    (belong : ∀ k units, instruments[k]? = some units → Belongs (n + k) all units) :
    Agrees n (next (instruments.flatMap ofInstrument)) (Assembly.labels instruments.flatten) := by
  induction instruments generalizing n with
  | nil => exact .nil
  | cons units rest ih =>
    have others : ∀ k units, rest[k]? = some units → Belongs (n + 1 + k) all units := by
      intro k units hk
      rw [show n + 1 + k = n + (k + 1) by omega]
      exact belong (k + 1) units hk
    rw [List.flatMap_cons, ofInstrument, List.append_assoc, List.flatten_cons, labels_append]
    exact next_units (belong 0 units rfl) ((ih others).outside (not_here others))

/-- Writing a patch from an instrument on gives the operands of its blocks. -/
theorem linked?_instruments {n : Nat} {all before : List UnitLabel}
    {instruments : List (List AssembledUnit)} {known : List (Symbol × UInt16)}
    (belong : ∀ k units, instruments[k]? = some units → Belongs (n + k) all units)
    (around : ∀ l ∈ all, l ∈ before ∨ l ∈ Assembly.labels instruments.flatten)
    (earlier : ∀ l ∈ before, l.instrument < n) (hb : Agrees n (known.lookup ·) before) :
    linked? known (instruments.flatMap ofInstrument) =
      some (CodeBlock.operandStream (linkBlocks before instruments)) := by
  induction instruments generalizing n before known with
  | nil => rfl
  | cons units rest ih =>
    have here : Belongs n all units := belong 0 units rfl
    have others : ∀ k units, rest[k]? = some units → Belongs (n + 1 + k) all units := by
      intro k units hk
      rw [show n + 1 + k = n + (k + 1) by omega]
      exact belong (k + 1) units hk
    have later : Agrees n (next (.finish :: rest.flatMap ofInstrument))
        (Assembly.labels rest.flatten) :=
      (next_instruments others).outside (not_here others)
    rw [List.flatMap_cons, ofInstrument, List.append_assoc, linkBlocks,
      CodeBlock.operandStream_cons]
    refine linked?_units here (fun l mem => ?_) hb later fun known' agrees => ?_
    · have := around l mem
      rwa [List.flatten_cons, labels_append] at this
    · have before_next : ∀ l ∈ (Assembly.labels units).reverse ++ before, l.instrument < n + 1 := by
        intro l hl
        rcases List.mem_append.mp hl with own | old
        · rw [here.mem_labels (List.mem_reverse.mp own)]
          exact Nat.lt_succ_self n
        · exact Nat.lt_succ_of_lt (earlier l old)
      rw [List.singleton_append, linked?]
      refine ih others (fun l mem => ?_) before_next ?_
      · have := around l mem
        rw [List.flatten_cons, labels_append] at this
        simp only [List.mem_append, List.mem_reverse] at this ⊢
        tauto
      · rw [lookup_finish]
        exact agrees.outside fun l hl => Nat.ne_of_lt (before_next l hl)

end Emission

end ModularSynth
