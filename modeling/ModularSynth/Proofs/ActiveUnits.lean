-- Units that are not active are as good as not there. A patch without them compiles to the same
-- bytecode or fails with the same error, needs the same of a machine, holds as many delay lines
-- and finds the same units by their ids. Taking units away moves the others up, so what is known
-- of a unit by its index is followed through every table under the unit's new index.
import Mathlib.Data.List.InsertIdx
import ModularSynth.Proofs.SendTargets

namespace ModularSynth

/-! ## The rank of an element -/

section Rank

variable {β : Type} {keep : β → Bool}

/-- How many of the elements before an index pass a test. -/
def rank (keep : β → Bool) (xs : List β) (n : Nat) : Nat :=
  ((xs.take n).filter keep).length

theorem rank_cons (x : β) (xs : List β) (n : Nat) :
    rank keep (x :: xs) (n + 1) = (if keep x then 1 else 0) + rank keep xs n := by
  by_cases h : keep x <;> simp [rank, h, Nat.add_comm]

theorem rank_append (xs ys : List β) {n : Nat} (h : n ≤ xs.length) :
    rank keep (xs ++ ys) n = rank keep xs n := by
  rw [rank, List.take_append_of_le_length h, rank]

/-- An element that passes the test has a lower rank than all later indices. -/
theorem rank_lt {xs : List β} {x : β} {m n : Nat} (hx : xs[m]? = some x) (hk : keep x = true)
    (h : m < n) : rank keep xs m < rank keep xs n := by
  obtain ⟨d, rfl⟩ := Nat.exists_eq_add_of_lt h
  rw [rank, rank, Nat.add_right_comm, List.take_add, List.take_add_one, hx]
  simp [hk]

theorem rank_injective {xs : List β} {x y : β} {m n : Nat} (hx : xs[m]? = some x)
    (hy : xs[n]? = some y) (kx : keep x = true) (ky : keep y = true)
    (same : rank keep xs m = rank keep xs n) : m = n := by
  rcases Nat.lt_trichotomy m n with lt | eq | gt
  · have := rank_lt hx kx lt
    omega
  · exact eq
  · have := rank_lt hy ky gt
    omega

/-- An element that passes the test stands at its rank among those that do. -/
theorem getElem?_rank {xs : List β} {x : β} {n : Nat} (hx : xs[n]? = some x)
    (hk : keep x = true) : (xs.filter keep)[rank keep xs n]? = some x := by
  obtain ⟨lt, rfl⟩ := List.getElem?_eq_some_iff.mp hx
  have around : xs.filter keep =
      (xs.take n).filter keep ++ xs[n] :: (xs.drop (n + 1)).filter keep := by
    rw [← List.filter_cons_of_pos hk, ← List.filter_append, ← List.drop_eq_getElem_cons lt,
      List.take_append_drop]
  rw [around, rank, List.getElem?_append_right (Nat.le_refl _), Nat.sub_self]
  rfl

/-- Elements that pass the test are numbered by their ranks. -/
theorem zipIdx_filter (keep : β → Bool) (xs : List β) :
    (xs.filter keep).zipIdx =
      (xs.zipIdx.filter (keep ·.1)).map fun (x, n) => (x, rank keep xs n) := by
  induction xs using List.reverseRecOn with
  | nil => rfl
  | append_singleton xs x ih =>
    have before : ((xs.zipIdx.filter (keep ·.1)).map fun (x, n) => (x, rank keep xs n)) =
        (xs.zipIdx.filter (keep ·.1)).map fun (y, n) => (y, rank keep (xs ++ [x]) n) := by
      apply List.map_congr_left
      intro y h
      have lt := (List.mem_zipIdx' (List.mem_of_mem_filter h)).1
      simp only [rank_append xs [x] lt.le]
    have last : rank keep (xs ++ [x]) xs.length = (xs.filter keep).length := by
      rw [rank_append xs [x] (Nat.le_refl _), rank, List.take_length]
    by_cases hk : keep x
    · simp [List.zipIdx_append, ih, before, hk, last]
    · simp [List.zipIdx_append, ih, before, hk]

theorem findIdx?_filter {test : β → Bool} (h : ∀ x, test x = true → keep x = true)
    (xs : List β) : (xs.filter keep).findIdx? test = (xs.findIdx? test).map (rank keep xs) := by
  induction xs with
  | nil => rfl
  | cons x xs ih =>
    by_cases ht : test x
    · simp [List.findIdx?_cons, h x ht, ht, rank]
    · have moved : (rank keep (x :: xs) ∘ fun n => n + 1) =
          fun n => (if keep x then 1 else 0) + rank keep xs n := by
        funext n
        exact rank_cons x xs n
      by_cases hk : keep x
      · simp [List.findIdx?_cons, ht, hk, ih, moved, Function.comp_def, Nat.add_comm]
      · simp [List.findIdx?_cons, ht, hk, ih, moved]

end Rank

/-! ## The search with other numbers -/

namespace SuperArray

variable {α : Type}

/-- The piece with other numbers for its arrays. -/
def Piece.renumber (number : Nat → Nat) (p : Piece α) : Piece α :=
  ⟨p.content, p.starts.map fun (n, start) => (number n, start)⟩

variable [DecidableEq α] (number : Nat → Nat)

theorem Piece.renumber_join (a b : Piece α) :
    (a.join b).renumber number = (a.renumber number).join (b.renumber number) := by
  simp [join, renumber]

omit [DecidableEq α] in
/-- An array is found by its new number where it was by its old one, if no other array of the piece
gets the same number. -/
theorem Piece.lookup_renumber {number : Nat → Nat} {p : Piece α} {n : Nat}
    (apart : ∀ m ∈ p.numbers, number n = number m → n = m) :
    (p.renumber number).starts.lookup (number n) = p.starts.lookup n := by
  obtain ⟨content, starts⟩ := p
  simp only [renumber]
  simp only [numbers] at apart
  induction starts with
  | nil => rfl
  | cons first starts ih =>
    obtain ⟨m, start⟩ := first
    rw [List.map_cons, List.forall_mem_cons] at apart
    have same : (number n == number m) = (n == m) := by
      by_cases h : n = m
      · rw [h, beq_self_eq_true, beq_self_eq_true]
      · rw [beq_false_of_ne h, beq_false_of_ne fun r => h (apart.1 r)]
    rw [List.map_cons, List.lookup_cons, List.lookup_cons, ih apart.2, same]

/-- The search looks at what pieces hold, not at the numbers. -/
theorem choose_renumber (ps : List (Piece α)) :
    choose (ps.map (·.renumber number)) = choose ps := by
  have same : candidates (ps.map (·.renumber number)) = candidates ps := by
    simp [candidates, List.zipIdx_map, List.flatMap_map, List.filterMap_map, Piece.renumber]
  unfold choose
  rw [same, List.length_map]

theorem joinAt_renumber (ps : List (Piece α)) (left right : Nat) :
    joinAt (ps.map (·.renumber number)) left right =
      (joinAt ps left right).map (·.renumber number) := by
  unfold joinAt
  rw [List.getElem?_map, List.getElem?_map]
  cases ps[left]? with
  | none => rfl
  | some a =>
    cases ps[right]? with
    | none => rfl
    | some b =>
      simp only [Option.map_some]
      rw [← Piece.renumber_join, ← List.map_set, List.eraseIdx_map]

theorem joinMany_renumber (n : Nat) (ps : List (Piece α)) :
    joinMany n (ps.map (·.renumber number)) = (joinMany n ps).map (·.renumber number) := by
  induction n generalizing ps with
  | zero => rfl
  | succ n ih =>
    simp only [joinMany, choose_renumber, joinAt_renumber]
    exact ih _

omit number in
/-- A join brings in no numbers. -/
theorem joinMany_numbers {P : Nat → Prop} (n : Nat) {ps : List (Piece α)}
    (h : ∀ p ∈ ps, ∀ m ∈ p.numbers, P m) : ∀ p ∈ joinMany n ps, ∀ m ∈ p.numbers, P m := by
  induction n generalizing ps with
  | zero => exact h
  | succ n ih =>
    refine ih fun p hp => ?_
    unfold joinAt at hp
    split at hp
    · rename_i a b ha hb
      rcases List.mem_or_eq_of_mem_set (List.mem_of_mem_eraseIdx hp) with hp | rfl
      · exact h p hp
      · intro m hm
        rw [Piece.numbers_join] at hm
        rcases List.mem_append.mp hm with hm | hm
        · exact h a (List.mem_of_getElem? ha) m hm
        · exact h b (List.mem_of_getElem? hb) m hm
    · exact h p hp

omit number in
/-- Only arrays that are not empty are joined. -/
theorem joined_numbers {arrays : List (List α)} {n : Nat} (h : n ∈ (joined arrays).numbers) :
    ∃ array, arrays[n]? = some array ∧ array ≠ [] := by
  have first : ∀ p ∈ pieces arrays, ∀ m ∈ p.numbers,
      ∃ array, arrays[m]? = some array ∧ array ≠ [] := by
    intro p hp m hm
    obtain ⟨⟨array, n⟩, there, made⟩ := List.mem_filterMap.mp hp
    simp only at made
    split at made
    · cases made
    · rename_i full
      cases made
      cases List.mem_singleton.mp hm
      exact ⟨array, List.mem_zipIdx_iff_getElem?.mp there, by simpa using full⟩
  simp only [joined] at h
  cases some_piece : (joinMany ((pieces arrays).length - 1) (pieces arrays)).head? with
  | none => simp [some_piece, Piece.numbers] at h
  | some p =>
    rw [some_piece] at h
    exact joinMany_numbers _ first p (List.mem_of_mem_head? some_piece) n h

section Filter

variable {β : Type} {keep : β → Bool} {f : β → List α}

/-- The search over fewer arrays goes through the same pieces, with ranks in place of numbers. -/
theorem joined_filter (empty : ∀ x, keep x = false → f x = []) (xs : List β) :
    joined ((xs.filter keep).map f) = (joined (xs.map f)).renumber (rank keep xs) := by
  have start : pieces ((xs.filter keep).map f) =
      (pieces (xs.map f)).map (·.renumber (rank keep xs)) := by
    unfold pieces
    rw [List.zipIdx_map, List.zipIdx_map, zipIdx_filter, List.filterMap_map, List.filterMap_map,
      List.filterMap_map, List.filterMap_filter, List.map_filterMap]
    apply List.filterMap_congr
    rintro ⟨x, n⟩ -
    by_cases hk : keep x
    · by_cases none : f x = [] <;> simp [hk, none, Piece.single, Piece.renumber]
    · simp [hk, empty x (by simpa using hk)]
  simp only [joined, start, List.length_map, joinMany_renumber, List.head?_map]
  cases (joinMany ((pieces (xs.map f)).length - 1) (pieces (xs.map f))).head? <;> rfl

/-- Where the array of an element begins. -/
def startOf (arrays : List (List α)) (n : Nat) : Nat :=
  ((joined arrays).starts.lookup n).getD 0

/-- An array begins at the same place with the new number as with the old one. -/
theorem startOf_rank (empty : ∀ x, keep x = false → f x = []) {xs : List β} {x : β} {n : Nat}
    (hx : xs[n]? = some x) (hk : keep x = true) :
    startOf ((xs.filter keep).map f) (rank keep xs n) = startOf (xs.map f) n := by
  -- Ranks tell only elements that are kept apart; no other element has a number in the result.
  have apart : ∀ m ∈ (joined (xs.map f)).numbers, rank keep xs n = rank keep xs m → n = m := by
    intro m hm
    obtain ⟨array, there, full⟩ := joined_numbers hm
    rw [List.getElem?_map] at there
    obtain ⟨y, hy, rfl⟩ := Option.map_eq_some_iff.mp there
    have ky : keep y = true := by
      by_contra h
      exact full (empty y (by simpa using h))
    exact rank_injective hx hy hk ky
  unfold startOf
  rw [joined_filter empty, Piece.lookup_renumber apart]

/-- Each element stands beside the place where its array begins. -/
theorem zip_starts (xs : List β) (f : β → List α) :
    xs.zip (find (xs.map f)).2 = xs.zipIdx.map fun (x, n) => (x, startOf (xs.map f) n) := by
  symm
  refine List.zip_of_prod ?_ ?_
  · rw [List.map_map]
    exact List.zipIdx_map_fst 0 xs
  · rw [List.map_map, find, List.length_map, List.range_eq_range', ← List.zipIdx_map_snd,
      List.map_map]
    rfl

/-- Arrays that are empty may be left out: the search finds the same array and the same places of
the others. -/
theorem find_filter (empty : ∀ x, keep x = false → f x = []) (xs : List β) :
    (find ((xs.filter keep).map f)).1 = (find (xs.map f)).1 ∧
      (xs.filter keep).zip (find ((xs.filter keep).map f)).2 =
        (xs.zip (find (xs.map f)).2).filter (keep ·.1) := by
  constructor
  · simp only [find, joined_filter empty, Piece.renumber]
  · rw [zip_starts, zip_starts, zipIdx_filter, List.map_map, List.filter_map]
    apply List.map_congr_left
    rintro ⟨x, n⟩ h
    obtain ⟨there, hk⟩ := List.mem_filter.mp h
    simp only [Function.comp_apply]
    rw [startOf_rank empty (List.mem_zipIdx_iff_getElem?.mp there) hk]

end Filter

end SuperArray

/-! ## Patches without inactive units -/

/-- The instrument without its inactive units. -/
def Instrument.activeOnly (i : Instrument) : Instrument :=
  { i with units := i.units.filter (·.isActive) }

namespace Patch

/-- The patch without its inactive units. -/
def activeOnly (p : Patch) : Patch :=
  ⟨p.instruments.map (·.activeOnly)⟩

/-- How many active units of an instrument stand before one of its units. -/
def activeBefore (p : Patch) (instrument unit : Nat) : Nat :=
  rank (·.isActive) ((p.instruments[instrument]?.map (·.units)).getD []) unit

variable (p : Patch)

@[simp]
theorem activeOnly_numVoices : p.activeOnly.numVoices = p.numVoices := by
  simp only [numVoices, activeOnly, List.map_map]
  rfl

theorem activeOnly_instrument (i : Nat) :
    p.activeOnly.instruments[i]? = p.instruments[i]?.map (·.activeOnly) :=
  List.getElem?_map

/-- An active unit stands where as many active units are before it. -/
theorem activeOnly_unit? {i k : Nat} {u : PatchUnit} (hu : p.unit? i k = some u)
    (active : u.isActive = true) : p.activeOnly.unit? i (p.activeBefore i k) = some u := by
  obtain ⟨instrument, hi, hk⟩ := Option.bind_eq_some_iff.mp hu
  refine Option.bind_eq_some_iff.mpr ⟨instrument.activeOnly, ?_, ?_⟩
  · rw [activeOnly_instrument, hi]
    rfl
  · rw [activeBefore, hi]
    exact getElem?_rank hk active

theorem findUnit_go_activeOnly (id : Int) (index : Nat) (instruments : List Instrument) :
    findUnit.go id index (instruments.map (·.activeOnly)) =
      (findUnit.go id index instruments).map fun (i, k) =>
        (i, rank (·.isActive) ((instruments[i - index]?.map (·.units)).getD []) k) := by
  induction instruments generalizing index with
  | nil => rfl
  | cons instrument rest ih =>
    have answers : ∀ u, answersTo id u = true → u.isActive = true := by
      intro u h
      exact (Bool.and_eq_true_iff.mp h).2
    rw [List.map_cons, findUnit.go, findUnit.go, Instrument.activeOnly, findIdx?_filter answers]
    cases instrument.units.findIdx? (answersTo id) with
    | some k => simp
    | none =>
      simp only [Option.map_none, ih]
      cases found : findUnit.go id (index + 1) rest with
      | none => rfl
      | some place =>
        -- The unit is in a later instrument, whose index counts from the first of the list.
        obtain ⟨j, _, _, after, -⟩ := findUnit_go_some found
        have here : place.1 - index = place.1 - (index + 1) + 1 := by omega
        simp only [Option.map_some, here, List.getElem?_cons_succ]

/-- A send finds the same unit, at its new index. -/
theorem findUnit_activeOnly (id : Int) :
    p.activeOnly.findUnit id = (p.findUnit id).map fun (i, k) => (i, p.activeBefore i k) := by
  unfold findUnit
  split
  · rfl
  · exact findUnit_go_activeOnly id 0 p.instruments

end Patch

/-! ## The table of delay times -/

namespace DelayTable

theorem unitTimes_inactive (bpm : Nat) {u : PatchUnit} (h : u.isActive = false) :
    unitTimes bpm u = [] := by
  simp [unitTimes, PatchUnit.isActiveOf, PatchUnit.activeKind?, h]

/-- An instrument without its inactive units, whose other units keep the places of their delay
times. -/
def LeavesOut (whole part : Instrument × List Nat) : Prop :=
  part.1 = whole.1.activeOnly ∧
    part.1.units.zip part.2 = (whole.1.units.zip whole.2).filter (·.1.isActive)

/-- If the kept units of all instruments together keep their starts, those of each instrument do. -/
theorem parts_leavesOut {instruments : List Instrument} {starts starts' : List Nat}
    (all : (instruments.flatMap (·.units)).length = starts.length)
    (all' : (instruments.flatMap (·.activeOnly.units)).length = starts'.length)
    (same : (instruments.flatMap (·.activeOnly.units)).zip starts' =
      ((instruments.flatMap (·.units)).zip starts).filter (·.1.isActive)) :
    List.Forall₂ LeavesOut (instruments.zip (parts (instruments.map (·.units.length)) starts))
      ((instruments.map (·.activeOnly)).zip
        (parts (instruments.map (·.activeOnly.units.length)) starts')) := by
  induction instruments generalizing starts starts' with
  | nil => exact .nil
  | cons i rest ih =>
    simp only [List.flatMap_cons, List.length_append] at all all'
    -- Both lists are cut after the units of the first instrument.
    have cut : i.units.length = (starts.take i.units.length).length := by
      rw [List.length_take]
      omega
    have cut' : i.activeOnly.units.length = (starts'.take i.activeOnly.units.length).length := by
      rw [List.length_take]
      omega
    rw [List.flatMap_cons, List.flatMap_cons, ← List.take_append_drop i.units.length starts,
      ← List.take_append_drop i.activeOnly.units.length starts', List.zip_append cut,
      List.zip_append cut', List.filter_append] at same
    have kept : ((i.units.zip (starts.take i.units.length)).filter (·.1.isActive)).length =
        i.activeOnly.units.length := by
      have fst := List.map_fst_zip cut.le
      rw [← List.length_map (f := Prod.fst), ← Function.comp_def PatchUnit.isActive,
        ← List.filter_map, fst]
      rfl
    obtain ⟨here, later⟩ := List.append_inj same (by
      rw [List.length_zip, kept, ← cut', Nat.min_self])
    refine .cons ⟨rfl, here⟩ (ih ?_ ?_ later)
    · simp only [List.length_drop]
      omega
    · simp only [List.length_drop]
      omega

/-- The table of delay times is the same, and every unit keeps its place in it. -/
theorem ofPatch_activeOnly (patch : Patch) (bpm : Nat) :
    (ofPatch patch.activeOnly bpm).1 = (ofPatch patch bpm).1 ∧
      List.Forall₂ LeavesOut (patch.instruments.zip (ofPatch patch bpm).2)
        (patch.activeOnly.instruments.zip (ofPatch patch.activeOnly bpm).2) := by
  have arrays : (patch.instruments.flatMap fun i => i.units.map (unitTimes bpm)) =
      (patch.instruments.flatMap (·.units)).map (unitTimes bpm) := List.map_flatMap.symm
  have arrays' : (patch.activeOnly.instruments.flatMap fun i => i.units.map (unitTimes bpm)) =
      ((patch.instruments.flatMap (·.units)).filter (·.isActive)).map (unitTimes bpm) := by
    rw [List.filter_flatMap, List.map_flatMap, Patch.activeOnly, List.flatMap_map]
    rfl
  obtain ⟨table, places⟩ := SuperArray.find_filter (fun _ => unitTimes_inactive bpm)
    (patch.instruments.flatMap (·.units))
  have length : ∀ arrays : List (List Int), (SuperArray.find arrays).2.length = arrays.length := by
    intro arrays
    rw [SuperArray.find, List.length_map, List.length_range]
  simp only [ofPatch, arrays, arrays']
  refine ⟨by rw [table], ?_⟩
  rw [List.filter_flatMap] at places ⊢
  rw [Patch.activeOnly, List.map_map]
  exact parts_leavesOut (by rw [length, List.length_map]) (by rw [length, List.length_map]; rfl)
    places

end DelayTable

/-! ## The compiler -/

namespace Assembly

variable (patch : Patch) (features : Features)

theorem sendReferences_activeOnly (instrument : Nat) (u : PatchUnit) :
    sendReferences patch.activeOnly instrument u = sendReferences patch instrument u := by
  simp only [sendReferences, Patch.findUnit_activeOnly]
  cases patch.findUnit (u.param "target") with
  | none => rfl
  | some place =>
    simp only [Option.map_some, Patch.activeOnly_instrument, Option.map_map]
    rfl

theorem instructions_activeOnly (place : Place) (opcode : UInt8) (u : PatchUnit)
    (samples : List SampleOffset) :
    instructions patch.activeOnly place opcode u samples =
      instructions patch place opcode u samples := by
  unfold instructions
  rw [sendReferences_activeOnly]

/-- Inactive units take no slot and no label. -/
theorem assembleUnits_activeOnly (instrument firstVoice slot : Nat) (samples : List SampleOffset)
    (units : List (PatchUnit × Nat)) :
    assembleUnits patch.activeOnly features instrument firstVoice slot samples
        (units.filter (·.1.isActive)) =
      assembleUnits patch features instrument firstVoice slot samples units := by
  induction units generalizing slot samples with
  | nil => rfl
  | cons head rest ih =>
    obtain ⟨u, delayStart⟩ := head
    by_cases active : u.isActive
    · rw [List.filter_cons, if_pos active, assembleUnits, assembleUnits]
      simp only [instructions_activeOnly, ih]
    · rw [List.filter_cons, if_neg active, assembleUnits, if_neg active, ih]

theorem assembleInstruments_activeOnly (instrument firstVoice : Nat) (samples : List SampleOffset)
    {whole part : List (Instrument × List Nat)} (h : List.Forall₂ DelayTable.LeavesOut whole part) :
    assembleInstruments patch.activeOnly features instrument firstVoice samples part =
      assembleInstruments patch features instrument firstVoice samples whole := by
  induction h generalizing instrument firstVoice samples with
  | nil => rfl
  | @cons a b _ _ head _ ih =>
    obtain ⟨i, delayStarts⟩ := a
    obtain ⟨i', delayStarts'⟩ := b
    obtain ⟨rfl, same⟩ := head
    rw [assembleInstruments, assembleInstruments]
    simp only at same
    simp only [same, assembleUnits_activeOnly, ih]
    rfl

end Assembly

theorem Bytecode.compile_activeOnly (patch : Patch) (features : Features) (bpm : Nat) :
    compile patch.activeOnly features bpm = compile patch features bpm := by
  obtain ⟨table, places⟩ := DelayTable.ofPatch_activeOnly patch bpm
  have repeats : Assembly.repeats patch.activeOnly = Assembly.repeats patch := by
    rw [Assembly.repeats, Patch.activeOnly, List.flatMap_map]
    rfl
  unfold compile
  simp only [Patch.activeOnly_numVoices, table, repeats,
    Assembly.assembleInstruments_activeOnly patch features 0 0 [] places]

/-! ## What a patch asks for -/

namespace Patch

/-- The active units of all instruments in order, each with the index of its instrument. -/
def activeUnits (patch : Patch) : List (Nat × PatchUnit) :=
  patch.instruments.zipIdx.flatMap fun x => (x.1.units.filter (·.isActive)).map fun u => (x.2, u)

variable {patch : Patch}

theorem mem_activeUnits {i : Nat} {u : PatchUnit} :
    (i, u) ∈ patch.activeUnits ↔ u.isActive = true ∧ ∃ k, patch.unit? i k = some u := by
  simp only [activeUnits, List.mem_flatMap, List.mem_map, List.mem_filter]
  constructor
  · rintro ⟨⟨instrument, j⟩, hi, w, ⟨hu, active⟩, same⟩
    cases same
    obtain ⟨k, hk⟩ := List.mem_iff_getElem?.mp hu
    exact ⟨active, k, Option.bind_eq_some_iff.mpr
      ⟨instrument, List.mem_zipIdx_iff_getElem?.mp hi, hk⟩⟩
  · rintro ⟨active, k, hu⟩
    obtain ⟨instrument, hi, hk⟩ := Option.bind_eq_some_iff.mp hu
    exact ⟨(instrument, i), List.mem_zipIdx_iff_getElem?.mpr hi, u,
      ⟨List.mem_of_getElem? hk, active⟩, rfl⟩

theorem activeOnly_activeUnits (patch : Patch) :
    patch.activeOnly.activeUnits = patch.activeUnits := by
  simp only [activeUnits, activeOnly, Instrument.activeOnly, List.zipIdx_map, List.flatMap_map,
    Prod.map_fst, Prod.map_snd, List.filter_filter, Bool.and_self, id_eq]

end Patch

namespace NecessaryFeatures

/-- All that a patch needs is read off its active units, the polyphony apart. -/
theorem ofPatch_eq (patch : Patch) :
    ofPatch patch =
      { kinds := (patch.activeUnits.map (·.2.kindName)).eraseDups
        values := patch.activeUnits.flatMap (valuesOf ·.2)
        modulations :=
          (patch.activeUnits.filterMap fun x => modulationOf? patch x.1 x.2).map (·.1)
        globalSend := (patch.activeUnits.filterMap fun x => modulationOf? patch x.1 x.2).any (·.2)
        polyphony := patch.instruments.any (·.numVoices > 1) } :=
  rfl

theorem modulationOf?_activeOnly (patch : Patch) (i : Nat) (u : PatchUnit) :
    modulationOf? patch.activeOnly i u = modulationOf? patch i u := by
  simp only [modulationOf?, Patch.findUnit_activeOnly]
  cases found : patch.findUnit (u.param "target") with
  | none => rfl
  | some place =>
    obtain ⟨t, there, active, -⟩ := Patch.findUnit_some found
    have moved := patch.activeOnly_unit? there active
    simp only [Option.map_some, Option.bind_eq_bind, Option.bind_some, there, moved]

theorem ofPatch_activeOnly (patch : Patch) : ofPatch patch.activeOnly = ofPatch patch := by
  have polyphony : (patch.activeOnly.instruments.any (·.numVoices > 1)) =
      patch.instruments.any (·.numVoices > 1) := by
    rw [Patch.activeOnly, List.any_map]
    rfl
  simp only [ofPatch_eq, Patch.activeOnly_activeUnits, modulationOf?_activeOnly, polyphony]

end NecessaryFeatures

theorem Patch.numDelayLines_activeOnly (patch : Patch) :
    patch.activeOnly.numDelayLines = patch.numDelayLines := by
  have lines : ∀ i : Instrument, i.activeOnly.delayLinesPerVoice = i.delayLinesPerVoice := by
    intro i
    have both : ∀ u : PatchUnit, (u.isActiveOf .delay && u.isActive) = u.isActiveOf .delay := by
      intro u
      by_cases active : u.isActive <;>
        simp [PatchUnit.isActiveOf, PatchUnit.activeKind?, active]
    simp only [Instrument.delayLinesPerVoice, Instrument.activeOnly, List.filter_filter, both]
  simp only [numDelayLines, activeOnly, List.map_map, Function.comp_def, lines]
  rfl

/-- Inactive units leave nothing behind. Without them a patch compiles for any features and at any
speed to the same bytecode, or fails with the same error; it needs the same features and as many
delay lines; and every id finds the same unit, which is an active one and has moved up by the
inactive units before it. -/
theorem inactive_units_leave_nothing (patch : Patch) (features : Features) (bpm : Nat) :
    Bytecode.compile patch.activeOnly features bpm = Bytecode.compile patch features bpm ∧
      NecessaryFeatures.ofPatch patch.activeOnly = NecessaryFeatures.ofPatch patch ∧
      patch.activeOnly.numDelayLines = patch.numDelayLines ∧
      ∀ id, match patch.findUnit id with
        | none => patch.activeOnly.findUnit id = none
        | some (i, k) =>
          patch.activeOnly.findUnit id = some (i, patch.activeBefore i k) ∧
            ∃ u, patch.unit? i k = some u ∧ u.isActive = true ∧ u.id = id ∧
              patch.activeOnly.unit? i (patch.activeBefore i k) = some u := by
  refine ⟨Bytecode.compile_activeOnly patch features bpm,
    NecessaryFeatures.ofPatch_activeOnly patch, patch.numDelayLines_activeOnly, fun id => ?_⟩
  have moved := patch.findUnit_activeOnly id
  cases found : patch.findUnit id with
  | none =>
    rw [found] at moved
    exact moved
  | some place =>
    rw [found] at moved
    obtain ⟨u, there, active, named, -⟩ := Patch.findUnit_some found
    exact ⟨moved, u, there, active, named, patch.activeOnly_unit? there active⟩

end ModularSynth
