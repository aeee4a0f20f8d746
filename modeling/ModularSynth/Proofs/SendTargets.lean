-- How a compiled send finds its target. Where ids are unique, the one unit with the id of a
-- send is what the patch finds by it, and its label is the one that the reference resolves to,
-- wherever the two units stand.
import Mathlib.Data.List.Nodup
import ModularSynth.Proofs.CompiledPatch

namespace ModularSynth

/-! ## Unique ids -/

namespace Patch

/-- The ids of the active units, in order. -/
def ids (patch : Patch) : List Int :=
  patch.instruments.flatMap fun i =>
    (i.units.filter fun u => u.isActive && u.id != 0).map (·.id)

/-- No two active units have the same id. -/
def IdsUnique (patch : Patch) : Prop :=
  patch.ids.Nodup

instance (patch : Patch) : Decidable patch.IdsUnique :=
  inferInstanceAs (Decidable patch.ids.Nodup)

variable {patch : Patch}

theorem mem_unit_ids {i : Instrument} {k : Nat} {u : PatchUnit} (hk : i.units[k]? = some u)
    (active : u.isActive = true) (hid : u.id ≠ 0) :
    u.id ∈ (i.units.filter fun u => u.isActive && u.id != 0).map (·.id) :=
  List.mem_map.mpr ⟨u, List.mem_filter.mpr ⟨List.mem_of_getElem? hk, by simp [active, hid]⟩, rfl⟩

/-- Units of one instrument with the same id are the same unit. -/
theorem unit_place_unique {units : List PatchUnit}
    (h : ((units.filter fun u => u.isActive && u.id != 0).map (·.id)).Nodup) {k l : Nat}
    {u w : PatchUnit} (hk : units[k]? = some u) (hl : units[l]? = some w)
    (hu : u.isActive = true) (hw : w.isActive = true) (same : u.id = w.id) (hid : u.id ≠ 0) :
    k = l := by
  have apart := List.pairwise_iff_getElem.mp (List.pairwise_filter.mp (List.pairwise_map.mp h))
  obtain ⟨klt, rfl⟩ := List.getElem?_eq_some_iff.mp hk
  obtain ⟨llt, rfl⟩ := List.getElem?_eq_some_iff.mp hl
  rcases Nat.lt_trichotomy k l with lt | rfl | gt
  · exact absurd same (apart k l klt llt lt (by simp [hu, hid]) (by simp [hw, ← same, hid]))
  · rfl
  · exact absurd same.symm (apart l k llt klt gt (by simp [hw, ← same, hid]) (by simp [hu, hid]))

theorem IdsUnique.place_unique (h : patch.IdsUnique) {i j k l : Nat} {u w : PatchUnit}
    (hi : patch.unit? i k = some u) (hj : patch.unit? j l = some w) (hu : u.isActive = true)
    (hw : w.isActive = true) (same : u.id = w.id) (hid : u.id ≠ 0) : i = j ∧ k = l := by
  obtain ⟨each, apart⟩ := List.nodup_flatMap.mp h
  obtain ⟨a, ha, hk⟩ := Option.bind_eq_some_iff.mp hi
  obtain ⟨b, hb, hl⟩ := Option.bind_eq_some_iff.mp hj
  have disjoint := List.pairwise_iff_getElem.mp apart
  have mem_a := mem_unit_ids hk hu hid
  have mem_b := mem_unit_ids hl hw (same ▸ hid)
  rw [← same] at mem_b
  obtain ⟨hi, rfl⟩ := List.getElem?_eq_some_iff.mp ha
  obtain ⟨hj, rfl⟩ := List.getElem?_eq_some_iff.mp hb
  rcases Nat.lt_trichotomy i j with lt | rfl | gt
  · exact (disjoint i j hi hj lt mem_a mem_b).elim
  · exact ⟨rfl, unit_place_unique (each _ (List.getElem_mem hi)) hk hl hu hw same hid⟩
  · exact (disjoint j i hj hi gt mem_b mem_a).elim

/-! ## Finding units -/

theorem findUnit_go_some {id : Int} {instruments : List Instrument} {index i k : Nat}
    (h : findUnit.go id index instruments = some (i, k)) :
    ∃ j instrument u, i = index + j ∧ instruments[j]? = some instrument ∧
      instrument.units[k]? = some u ∧ answersTo id u = true := by
  induction instruments generalizing index with
  | nil => cases h
  | cons instrument rest ih =>
    rw [findUnit.go] at h
    split at h
    · rename_i k' hk
      simp only [Option.some.injEq, Prod.mk.injEq] at h
      obtain ⟨rfl, rfl⟩ := h
      obtain ⟨hlt, found, -⟩ := List.findIdx?_eq_some_iff_getElem.mp hk
      exact ⟨0, instrument, _, rfl, rfl, List.getElem?_eq_getElem hlt, found⟩
    · obtain ⟨j, instrument', u, rfl, hj, hk, found⟩ := ih h
      exact ⟨j + 1, instrument', u, by omega, hj, hk, found⟩

theorem findUnit_go_isSome {id : Int} {instruments : List Instrument} {index j k : Nat}
    {instrument : Instrument} {u : PatchUnit} (hj : instruments[j]? = some instrument)
    (hk : instrument.units[k]? = some u) (found : answersTo id u = true) :
    (findUnit.go id index instruments).isSome = true := by
  induction instruments generalizing index j with
  | nil => cases hj
  | cons first rest ih =>
    rw [findUnit.go]
    split
    · rfl
    · rename_i none
      cases j with
      | zero =>
        cases hj
        have := List.findIdx?_eq_none_iff.mp none u (List.mem_of_getElem? hk)
        rw [this] at found
        cases found
      | succ j => exact ih hj

/-- What a patch finds by an id is an active unit with this id. -/
theorem findUnit_some {id : Int} {i k : Nat} (h : patch.findUnit id = some (i, k)) :
    ∃ u, patch.unit? i k = some u ∧ u.isActive = true ∧ u.id = id ∧ id ≠ 0 := by
  rw [findUnit] at h
  split at h
  · cases h
  · rename_i nonzero
    obtain ⟨j, instrument, u, rfl, hj, hk, answers⟩ := findUnit_go_some h
    simp only [answersTo, Bool.and_eq_true, beq_iff_eq] at answers
    exact ⟨u, Option.bind_eq_some_iff.mpr ⟨instrument, by rwa [Nat.zero_add], hk⟩, answers.2,
      answers.1, nonzero⟩

/-- Where ids are unique, the patch finds a unit by its id. -/
theorem findUnit_eq (h : patch.IdsUnique) {i k : Nat} {u : PatchUnit}
    (hu : patch.unit? i k = some u) (active : u.isActive = true) (hid : u.id ≠ 0) :
    patch.findUnit u.id = some (i, k) := by
  obtain ⟨instrument, hi, hk⟩ := Option.bind_eq_some_iff.mp hu
  have answers : answersTo u.id u = true := by simp [answersTo, active]
  have finds : (patch.findUnit u.id).isSome = true := by
    rw [findUnit, if_neg hid]
    exact findUnit_go_isSome (j := i) hi hk answers
  obtain ⟨⟨i', k'⟩, found⟩ := Option.isSome_iff_exists.mp finds
  obtain ⟨w, hw, active', same, -⟩ := findUnit_some found
  obtain ⟨rfl, rfl⟩ := h.place_unique hu hw active active' same.symm hid
  exact found

end Patch

/-! ## Labels -/

namespace Assembly

/-- How a unit of an instrument finds labels: first among its own and those before it, then
among those after it. -/
def finder (assembled : List (List AssembledUnit)) (i : Nat) (pre : List AssembledUnit)
    (a : AssembledUnit) (post : List AssembledUnit) : (UnitLabel → Bool) → Option UnitLabel :=
  nearest (a.label.toList ++ ((labels pre).reverse ++
      ((labels (assembled.take i).flatten).reverse ++ [])))
    (labels post ++ labels (assembled.drop (i + 1)).flatten)

end Assembly

open Assembly

namespace Compiled

variable {patch : Patch} {bpm : Nat} {b : Bytecode} {assembled : List (List AssembledUnit)}

/-- The labels around a unit, with its own, are all labels of the patch. -/
theorem mem_around {i : Nat} {pre post : List AssembledUnit} {a : AssembledUnit}
    (hi : assembled[i]? = some (pre ++ a :: post)) (l : UnitLabel) :
    (l ∈ a.label.toList ++ ((labels pre).reverse ++
        ((labels (assembled.take i).flatten).reverse ++ [])) ∨
      l ∈ labels post ++ labels (assembled.drop (i + 1)).flatten) ↔
    ∃ units ∈ assembled, ∃ x ∈ units, x.label = some l := by
  have split : assembled = assembled.take i ++ (pre ++ a :: post) :: assembled.drop (i + 1) := by
    obtain ⟨hlt, here⟩ := List.getElem?_eq_some_iff.mp hi
    rw [← here, ← List.drop_eq_getElem_cons hlt, List.take_append_drop]
  have all : (∃ units ∈ assembled, ∃ x ∈ units, x.label = some l) ↔
      l ∈ labels assembled.flatten := by
    simp only [labels, List.mem_filterMap, List.mem_flatten]
    constructor
    · rintro ⟨us, hus, x, hx, hl⟩
      exact ⟨x, ⟨us, hus, hx⟩, hl⟩
    · rintro ⟨x, ⟨us, hus, hx⟩, hl⟩
      exact ⟨us, hus, x, hx, hl⟩
  rw [all]
  conv_rhs => rw [split, List.flatten_append, List.flatten_cons]
  simp only [labels_append, labels_cons, List.mem_append, List.mem_reverse, List.append_nil]
  tauto

/-- The label of a unit. -/
def labelAt (patch : Patch) (i k : Nat) (u : PatchUnit) : UnitLabel :=
  ⟨u.id, i, patch.firstVoice i, patch.slotOf i k⟩

/-- Every label is that of an active unit with an id. -/
theorem label_of (h : Compiled patch bpm b assembled) {units : List AssembledUnit}
    (hu : units ∈ assembled) {x : AssembledUnit} (hx : x ∈ units) {l : UnitLabel}
    (hl : x.label = some l) :
    ∃ i k u, patch.unit? i k = some u ∧ u.isActive = true ∧ u.id ≠ 0 ∧ l = labelAt patch i k u := by
  obtain ⟨i, hi⟩ := List.mem_iff_getElem?.mp hu
  obtain ⟨k, u, delayStart, found, known, hk, -, emits, -⟩ := h.unit_of hi hx
  have label := emits.label
  rw [hl] at label
  split at label
  · cases label
  · rename_i nonzero
    cases label
    exact ⟨i, k, u, hk, emits.active, nonzero, rfl⟩

/-- A test for the id of a unit finds the label of that unit from everywhere. -/
theorem nearest_label (h : Compiled patch bpm b assembled) (unique : patch.IdsUnique) {i : Nat}
    {pre post : List AssembledUnit} {a : AssembledUnit}
    (hi : assembled[i]? = some (pre ++ a :: post)) {ti tk : Nat} {t : PatchUnit}
    (ht : patch.unit? ti tk = some t) (active : t.isActive = true) (hid : t.id ≠ 0)
    {test : UnitLabel → Bool} (passes : test (labelAt patch ti tk t) = true)
    (only : ∀ l, test l = true → l.id = t.id) :
    finder assembled i pre a post test = some (labelAt patch ti tk t) := by
  refine nearest_eq passes ?_ ?_
  · obtain ⟨before, x, after, _, _, _, hx, -, -, emits, -⟩ := h.of_unit ht active
    refine (mem_around hi _).mpr ⟨_, List.mem_of_getElem? hx, x, by simp, ?_⟩
    rw [emits.label, if_neg hid]
    rfl
  · intro l hl pass
    obtain ⟨units, hu, x, hx, hxl⟩ := (mem_around hi l).mp hl
    obtain ⟨j, k, u, huk, hactive, -, rfl⟩ := h.label_of hu hx hxl
    have same : t.id = u.id := (only _ pass).symm
    obtain ⟨rfl, rfl⟩ := unique.place_unique ht huk active hactive same hid
    rw [ht] at huk
    cases huk
    rfl

/-- The code of an active unit stands in the block of its instrument at the unit's slot, with
the labels of the patch around it. -/
theorem linked_at (h : Compiled patch bpm b assembled) {i k : Nat} {u : PatchUnit}
    (hu : patch.unit? i k = some u) (active : u.isActive = true) :
    ∃ pre a post before after delayStart found known,
      assembled[i]? = some (pre ++ a :: post) ∧
      (linkBlocks [] assembled)[i]? =
        some (before ++ (a.linked (finder assembled i pre a post) ++ after)) ∧
      before.length = patch.slotOf i k ∧
      ((DelayTable.ofPatch patch bpm).2[i]? >>= (·[k]?)) = some delayStart ∧
      Emits patch i (patch.firstVoice i) (patch.slotOf i k) u delayStart found a known ∧
      known <+: b.sampleOffsets.toList := by
  obtain ⟨pre, a, post, delayStart, found, known, hi, slot, starts, emits, known_of⟩ :=
    h.of_unit hu active
  have block : (linkBlocks [] assembled)[i]? =
      some (linkUnits ((labels (assembled.take i).flatten).reverse ++ [])
        (labels (assembled.drop (i + 1)).flatten) (pre ++ a :: post)) := by
    rw [linkBlocks_getElem?, hi]
    rfl
  rw [linkUnits_append] at block
  exact ⟨pre, a, post, _, _, delayStart, found, known, hi, block,
    by rw [linkUnits_length, slot], starts, emits, known_of⟩

theorem code_at (h : Compiled patch bpm b assembled) (flags : patch.StereoFlags) {i k : Nat}
    {u : PatchUnit} (hu : patch.unit? i k = some u) (active : u.isActive = true) :
    ∃ pre a post before after delayStart found known,
      assembled[i]? = some (pre ++ a :: post) ∧
      b.blocks[i]? = some (before ++ (a.linked (finder assembled i pre a post) ++ after)) ∧
      before.length = patch.slotOf i k ∧
      ((DelayTable.ofPatch patch bpm).2[i]? >>= (·[k]?)) = some delayStart ∧
      Emits patch i (patch.firstVoice i) (patch.slotOf i k) u delayStart found a known ∧
      known <+: b.sampleOffsets.toList := by
  rw [h.blocks_eq flags]
  exact h.linked_at hu active

/-- The code of an active unit starts at the slot of the unit and ends within the voice, and
every opcode in it stems from this unit. -/
theorem linked_of_unit (h : Compiled patch bpm b assembled) {i k : Nat} {u : PatchUnit}
    (hu : patch.unit? i k = some u) (active : u.isActive = true) :
    ∃ kind before code after, u.kind? = some kind ∧
      (linkBlocks [] assembled)[i]? = some (before ++ (code ++ after)) ∧
      before.length = patch.slotOf i k ∧ code.length = patch.emittedCount i u ∧
      patch.slotOf i k + code.length ≤ 63 ∧ ∀ c ∈ code, CodeOf patch bpm b i k u kind c := by
  obtain ⟨pre, a, post, before, after, delayStart, found, known, -, block, slot, starts, emits,
    known_of⟩ := h.linked_at hu active
  obtain ⟨kind, hk, code⟩ := emits.code
  have length : (a.linked (finder assembled i pre a post)).length = a.instructions.length := by
    rw [AssembledUnit.linked, List.length_map]
  refine ⟨kind, before, _, after, hk, block, slot, by rw [length, emits.count],
    by rw [length]; exact emits.fits, fun c hc => ?_⟩
  obtain ⟨instruction, hi, rfl⟩ := List.mem_map.mp hc
  exact ⟨hu, active, hk, delayStart, found, known, a.instructions, instruction, _, starts,
    known_of, code, hi, rfl⟩

theorem code_of_unit (h : Compiled patch bpm b assembled) (flags : patch.StereoFlags) {i k : Nat}
    {u : PatchUnit} (hu : patch.unit? i k = some u) (active : u.isActive = true) :
    ∃ kind before code after, u.kind? = some kind ∧
      b.blocks[i]? = some (before ++ (code ++ after)) ∧ before.length = patch.slotOf i k ∧
      code.length = patch.emittedCount i u ∧ patch.slotOf i k + code.length ≤ 63 ∧
      ∀ c ∈ code, CodeOf patch bpm b i k u kind c := by
  rw [h.blocks_eq flags]
  exact h.linked_of_unit hu active

end Compiled

end ModularSynth
