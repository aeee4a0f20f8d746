-- The array that the greedy search makes holds nothing but the arrays it was given. A join
-- takes two pieces out of the list and puts one in, which is no longer than both together and
-- in which every place still belongs to one of the arrays.
import Mathlib.Data.List.Perm.Basic
import ModularSynth.Proofs.SuperArray

namespace ModularSynth

namespace SuperArray

variable {α : Type} [DecidableEq α]

/-! ## Pieces without gaps -/

namespace Piece

/-- Every place of a piece lies in one of the arrays that it was joined from. -/
def Covered (arrays : List (List α)) (p : Piece α) : Prop :=
  ∀ place < p.content.length, ∃ number start array, (number, start) ∈ p.starts ∧
    arrays[number]? = some array ∧ start ≤ place ∧ place < start + array.length

omit [DecidableEq α] in
theorem covered_single {arrays : List (List α)} {number : Nat} {array : List α}
    (h : arrays[number]? = some array) : (single number array).Covered arrays := by
  intro place inside
  refine ⟨number, 0, array, List.mem_singleton_self _, h, Nat.zero_le _, ?_⟩
  rw [Nat.zero_add]
  exact inside

/-- The second of two joined pieces goes on where the first one ends, unless it lies in it. -/
theorem shift_add_overlap {a b : Piece α}
    (more : overlap a.content b.content < b.content.length) :
    shift a.content b.content + overlap a.content b.content = a.content.length := by
  have inside := shift_le a.content b.content
  unfold overlap at more ⊢
  omega

theorem Covered.join {arrays : List (List α)} {a b : Piece α} (ha : a.Covered arrays)
    (hb : b.Covered arrays) : (a.join b).Covered arrays := by
  intro place inside
  by_cases first : place < a.content.length
  · obtain ⟨number, start, array, mem, there, covers⟩ := ha place first
    exact ⟨number, start, array, List.mem_append_left _ mem, there, covers⟩
  · -- the place lies in what the join has appended of `b`
    have size : place < a.content.length +
        (b.content.length - overlap a.content b.content) := by
      simpa [Piece.join] using inside
    have ends := shift_add_overlap (a := a) (b := b) (by omega)
    obtain ⟨number, start, array, mem, there, covers⟩ :=
      hb (place - shift a.content b.content) (by omega)
    refine ⟨number, start + shift a.content b.content, array, ?_, there, by omega, by omega⟩
    exact List.mem_append_right _ (List.mem_map.mpr ⟨(number, start), mem, rfl⟩)

theorem join_length_le (a b : Piece α) :
    (a.join b).content.length ≤ a.content.length + b.content.length := by
  simp [Piece.join]

end Piece

/-! ## One join -/

/-- A join takes two pieces out of the list and puts in what they make together. -/
theorem joinAt_perm {ps : List (Piece α)} {left right : Nat} (h : Places ps left right) :
    ∃ a b others, ps[left]? = some a ∧ ps[right]? = some b ∧ ps.Perm (a :: b :: others) ∧
      (joinAt ps left right).Perm (a.join b :: others) := by
  obtain ⟨hl, hr, apart⟩ := h
  have out : ps.Perm (ps[left] :: ps.eraseIdx left) := (List.getElem_cons_eraseIdx_perm hl).symm
  have mem : ps[right] ∈ ps.eraseIdx left :=
    List.mem_eraseIdx_iff_getElem.mpr ⟨right, hr, Ne.symm apart, rfl⟩
  have rest := List.perm_cons_erase mem
  refine ⟨ps[left], ps[right], (ps.eraseIdx left).erase ps[right], List.getElem?_eq_getElem hl,
    List.getElem?_eq_getElem hr, out.trans (rest.cons _), ?_⟩
  have made : joinAt ps left right = (ps.set left (ps[left].join ps[right])).eraseIdx right := by
    simp only [joinAt, List.getElem?_eq_getElem hl, List.getElem?_eq_getElem hr]
  have put := List.set_perm_cons_eraseIdx hl (ps[left].join ps[right])
  have taken := List.getElem_cons_eraseIdx_perm
    (show right < (ps.set left (ps[left].join ps[right])).length by simpa using hr)
  rw [List.getElem_set_ne apart, ← made] at taken
  have both := taken.trans (put.trans ((rest.cons _).trans (List.Perm.swap _ _ _)))
  exact both.cons_inv

/-- The numbers of the arrays in pieces. -/
def allNumbers (ps : List (Piece α)) : List Nat :=
  ps.flatMap (·.numbers)

/-- The length of all pieces together. -/
def allLength (ps : List (Piece α)) : Nat :=
  total (ps.map (·.content.length))

omit [DecidableEq α] in
theorem allLength_perm {ps qs : List (Piece α)} (h : ps.Perm qs) : allLength ps = allLength qs :=
  total_perm (h.map _)

/-- A join loses no number and gives none twice. -/
theorem joinAt_allNumbers {ps : List (Piece α)} {left right : Nat} (h : Places ps left right) :
    (allNumbers (joinAt ps left right)).Perm (allNumbers ps) := by
  obtain ⟨a, b, others, -, -, before, after⟩ := joinAt_perm h
  have same : allNumbers (a.join b :: others) = allNumbers (a :: b :: others) := by
    simp [allNumbers]
  calc
    (allNumbers (joinAt ps left right)).Perm (allNumbers (a.join b :: others)) :=
      after.flatMap_right _
    _ = allNumbers (a :: b :: others) := same
    (allNumbers (a :: b :: others)).Perm (allNumbers ps) := (before.flatMap_right _).symm

theorem joinAt_allLength {ps : List (Piece α)} {left right : Nat} (h : Places ps left right) :
    allLength (joinAt ps left right) ≤ allLength ps := by
  obtain ⟨a, b, others, -, -, before, after⟩ := joinAt_perm h
  rw [allLength_perm after, allLength_perm before]
  have shorter := a.join_length_le b
  simp only [allLength, List.map_cons, total_cons]
  omega

theorem joinAt_covered {arrays : List (List α)} {ps : List (Piece α)} {left right : Nat}
    (h : Places ps left right) (covered : ∀ p ∈ ps, p.Covered arrays) :
    ∀ p ∈ joinAt ps left right, p.Covered arrays := by
  obtain ⟨a, b, others, -, -, before, after⟩ := joinAt_perm h
  have each : ∀ p ∈ a :: b :: others, p.Covered arrays := fun p hp =>
    covered p (before.mem_iff.mpr hp)
  intro p hp
  rcases List.mem_cons.mp (after.mem_iff.mp hp) with rfl | other
  · exact (each a (by simp)).join (each b (by simp))
  · exact each p (by simp [other])

/-! ## The whole search -/

/-- The piece that is left holds the numbers of all pieces, is no longer than they are together,
and has no place that belongs to no array. -/
theorem joinMany_tight {arrays : List (List α)} (n : Nat) {ps : List (Piece α)}
    (hn : ps.length = n + 1) (covered : ∀ p ∈ ps, p.Covered arrays) :
    ∃ whole, joinMany n ps = [whole] ∧ whole.Covered arrays ∧
      whole.numbers.Perm (allNumbers ps) ∧ whole.content.length ≤ allLength ps := by
  induction n generalizing ps with
  | zero =>
    obtain ⟨p, rfl⟩ := List.length_eq_one_iff.mp hn
    exact ⟨p, rfl, covered p List.mem_cons_self, by simp [allNumbers], by simp [allLength]⟩
  | succ n ih =>
    have places := choose_places (show 2 ≤ ps.length by omega)
    obtain ⟨whole, made, cover, numbers, short⟩ := ih (by rw [joinAt_length places]; omega)
      (joinAt_covered places covered)
    exact ⟨whole, made, cover, numbers.trans (joinAt_allNumbers places),
      short.trans (joinAt_allLength places)⟩

omit [DecidableEq α] in
theorem pieces_covered (arrays : List (List α)) : ∀ p ∈ pieces arrays, p.Covered arrays := by
  intro p hp
  obtain ⟨⟨array, number⟩, there, made⟩ := List.mem_filterMap.mp hp
  simp only at made
  split at made
  · cases made
  · cases made
    exact Piece.covered_single (List.mem_zipIdx_iff_getElem?.mp there)

omit [DecidableEq α] in
/-- The search starts with the arrays that are not empty. -/
theorem pieces_eq (arrays : List (List α)) :
    pieces arrays = (arrays.zipIdx.filter (!·.1.isEmpty)).map fun a => .single a.2 a.1 := by
  unfold pieces
  induction arrays.zipIdx with
  | nil => rfl
  | cons first rest ih =>
    obtain ⟨array, number⟩ := first
    cases array with
    | nil => exact ih
    | cons x xs => exact congrArg (Piece.single number (x :: xs) :: ·) ih

omit [DecidableEq α] in
theorem allNumbers_pieces (arrays : List (List α)) :
    allNumbers (pieces arrays) = (arrays.zipIdx.filter (!·.1.isEmpty)).map (·.2) := by
  rw [pieces_eq, allNumbers, List.flatMap_map]
  exact List.flatMap_pure_eq_map _ _

omit [DecidableEq α] in
theorem allNumbers_pieces_nodup (arrays : List (List α)) : (allNumbers (pieces arrays)).Nodup := by
  rw [allNumbers_pieces]
  refine List.Nodup.sublist (List.filter_sublist.map _) ?_
  rw [List.zipIdx_map_snd]
  exact List.nodup_range'

omit [DecidableEq α] in
/-- An empty array is in none of the pieces. -/
theorem notMem_allNumbers_pieces {arrays : List (List α)} {number : Nat}
    (h : arrays[number]? = some []) : number ∉ allNumbers (pieces arrays) := by
  rw [allNumbers_pieces]
  intro mem
  obtain ⟨⟨array, n⟩, kept, rfl⟩ := List.mem_map.mp mem
  obtain ⟨there, full⟩ := List.mem_filter.mp kept
  rw [List.mem_zipIdx_iff_getElem?.mp there] at h
  cases h
  cases full

omit [DecidableEq α] in
theorem allLength_pieces_le (arrays : List (List α)) :
    allLength (pieces arrays) ≤ total (arrays.map List.length) := by
  have lengths : (pieces arrays).map (·.content.length) =
      (arrays.zipIdx.filter (!·.1.isEmpty)).map (·.1.length) := by
    rw [pieces_eq, List.map_map]
    rfl
  have all : arrays.map List.length = arrays.zipIdx.map (·.1.length) := by
    conv_lhs => rw [← List.zipIdx_map_fst 0 arrays, List.map_map]
    rfl
  rw [allLength, lengths, all]
  exact total_le_of_sublist (List.filter_sublist.map _)

/-- Where each array begins can be read off the pieces it is in. -/
theorem lookup_starts {starts : List (Nat × Nat)} (apart : (starts.map (·.1)).Nodup)
    {number start : Nat} (h : (number, start) ∈ starts) : starts.lookup number = some start := by
  obtain ⟨before, after, rfl⟩ := List.append_of_mem h
  refine List.lookup_eq_some_iff.mpr ⟨before, after, rfl, fun p hp => ?_⟩
  rw [List.map_append, List.map_cons, List.nodup_append] at apart
  exact bne_iff_ne.mpr (apart.2.2 p.1 (List.mem_map_of_mem hp) number List.mem_cons_self).symm

/-- What is known of the piece that the search ends with. -/
theorem joined_tight (arrays : List (List α)) :
    (joined arrays).Covered arrays ∧
      (joined arrays).numbers.Perm (allNumbers (pieces arrays)) ∧
      (joined arrays).content.length ≤ total (arrays.map List.length) := by
  cases none : pieces arrays with
  | nil =>
    have nothing : joined arrays = ⟨[], []⟩ := by simp [joined, none, joinMany]
    rw [nothing]
    exact ⟨fun place inside => absurd inside (Nat.not_lt_zero _), List.Perm.refl _, Nat.zero_le _⟩
  | cons first rest =>
    rw [← none]
    obtain ⟨whole, made, cover, numbers, short⟩ := joinMany_tight ((pieces arrays).length - 1)
      (show (pieces arrays).length = _ by simp [none]) (pieces_covered arrays)
    have same : joined arrays = whole := by simp [joined, made]
    rw [same]
    exact ⟨cover, numbers, short.trans (allLength_pieces_le arrays)⟩

/-- An empty array begins at zero. -/
theorem find_start_empty {arrays : List (List α)} {number : Nat}
    (h : arrays[number]? = some []) : (find arrays).2[number]? = some 0 := by
  have inside := (List.getElem?_eq_some_iff.mp h).1
  have numbers := (joined_tight arrays).2.1
  have lost : (joined arrays).starts.lookup number = none := by
    rw [List.lookup_eq_none_iff]
    intro p hp
    have other : number ≠ p.1 := fun same => notMem_allNumbers_pieces h
      (numbers.mem_iff.mp (List.mem_map.mpr ⟨p, hp, same.symm⟩))
    exact bne_iff_ne.mpr other
  simp [find, inside, lost]

/-- The array that holds all given ones holds each of them where it says and has nothing else in
it: an array that is not empty stands at its start, an empty one starts at zero, every place
belongs to the run of one of the arrays, and all of it is no longer than the arrays together. -/
theorem find_tight (arrays : List (List α)) :
    (find arrays).2.length = arrays.length ∧
    (∀ (number : Nat) (array : List α), arrays[number]? = some array →
      ∃ start, (find arrays).2[number]? = some start ∧
        ((find arrays).1.drop start).take array.length = array ∧ (array = [] → start = 0)) ∧
    (∀ place < (find arrays).1.length, ∃ (number start : Nat) (array : List α),
      arrays[number]? = some array ∧ (find arrays).2[number]? = some start ∧
        start ≤ place ∧ place < start + array.length) ∧
    (find arrays).1.length ≤ total (arrays.map List.length) := by
  obtain ⟨cover, numbers, short⟩ := joined_tight arrays
  have apart := numbers.nodup_iff.mpr (allNumbers_pieces_nodup arrays)
  have starts_at : ∀ number < arrays.length,
      (find arrays).2[number]? = some (((joined arrays).starts.lookup number).getD 0) :=
    fun number inside => by simp [find, inside]
  refine ⟨by simp [find], ?_, ?_, short⟩
  · intro number array there
    cases array with
    | nil => exact ⟨0, find_start_empty there, rfl, fun _ => rfl⟩
    | cons x xs =>
      obtain ⟨start, stands, whole⟩ := prefix_find there (List.cons_ne_nil x xs)
      exact ⟨start, stands, (List.prefix_iff_eq_take.mp whole).symm,
        fun empty => absurd empty (List.cons_ne_nil x xs)⟩
  · intro place inside
    obtain ⟨number, start, array, mem, there, covers⟩ := cover place inside
    refine ⟨number, start, array, there, ?_, covers⟩
    rw [starts_at number (List.getElem?_eq_some_iff.mp there).1, lookup_starts apart mem]
    rfl

/-- Three arrays that overlap, one of them within another, and an empty one. -/
example : find [[4, 5, 6], [1, 2, 3], [], [3, 4], [5]] = ([1, 2, 3, 4, 5, 6], [3, 0, 0, 2, 4]) := by
  decide

end SuperArray

end ModularSynth
