-- When the greedy search makes a shortest array. Two pieces overlap as much as any array allows
-- that holds both, so two arrays are joined in the best way; and where one of the arrays holds all
-- the others, no join makes anything that does not lie in it.
import ModularSynth.Proofs.TightArray

namespace ModularSynth

namespace SuperArray

variable {α : Type} [DecidableEq α]

/-! ## The longest overlap -/

/-- No position at which two arrays agree comes before their shift. -/
theorem shift_le_of_agree {a b : List α} {s : Nat} (h : agree (a.drop s) b = true) :
    shift a b ≤ s := by
  induction a generalizing s with
  | nil => exact Nat.zero_le s
  | cons x xs ih =>
    rw [shift]
    split
    · exact Nat.zero_le s
    · cases s with
      | zero => contradiction
      | succ s => exact Nat.succ_le_succ (ih h)

theorem overlap_le_left (a b : List α) : overlap a b ≤ a.length := by
  unfold overlap
  omega

theorem overlap_le_right (a b : List α) : overlap a b ≤ b.length :=
  Nat.min_le_right _ _

/-- An array that lies in another one overlaps it with its whole length. -/
theorem overlap_contained {a b : List α} (h : b <:+: a) : overlap a b = b.length := by
  obtain ⟨before, after, rfl⟩ := h
  have agreed : agree ((before ++ b ++ after).drop before.length) b = true := by
    rw [List.append_assoc, List.drop_left, agree_iff]
    exact .inr (List.prefix_append _ _)
  have early := shift_le_of_agree agreed
  unfold overlap
  simp only [List.length_append]
  omega

/-- An array that overlaps another one with its whole length begins it. -/
theorem prefix_of_overlap {a b : List α} (all : a.length ≤ overlap a b) : a <+: b := by
  have inside := shift_le a b
  have short := all.trans (overlap_le_right a b)
  have first : shift a b = 0 := by
    unfold overlap at all
    omega
  have agreed := agree_shift a b
  rw [first, List.drop_zero, agree_iff] at agreed
  rcases agreed with h | h
  · exact h
  · rw [h.eq_of_length (Nat.le_antisymm h.length_le short)]

/-- Where both arrays lie in some array, the first one no later than the second one, this array
is at least as long as the two joined. -/
theorem length_add_le {a b t : List α} {i j : Nat} (first : a <+: t.drop i) (later : b <+: t.drop j)
    (order : i ≤ j) (inside : j ≤ t.length) : a.length + b.length ≤ t.length + overlap a b := by
  have agreed : agree (a.drop (j - i)) b = true := by
    have rest := first.drop (j - i)
    rw [List.drop_drop, Nat.add_sub_of_le order] at rest
    rw [agree_iff]
    exact List.prefix_or_prefix_of_prefix rest later
  have early := shift_le_of_agree agreed
  have short := first.length_le
  have short' := later.length_le
  rw [List.length_drop] at short short'
  unfold overlap
  omega

omit [DecidableEq α] in
theorem exists_prefix_drop {a t : List α} (h : a <:+: t) : ∃ i ≤ t.length, a <+: t.drop i := by
  obtain ⟨before, after, rfl⟩ := h
  refine ⟨before.length, by simp, ?_⟩
  rw [List.append_assoc, List.drop_left]
  exact List.prefix_append _ _

/-- No array that holds two others is shorter than the two joined where they overlap most. -/
theorem length_add_le_of_both {a b t : List α} (ha : a <:+: t) (hb : b <:+: t) :
    a.length + b.length ≤ t.length + max (overlap a b) (overlap b a) := by
  obtain ⟨i, hi, first⟩ := exists_prefix_drop ha
  obtain ⟨j, hj, second⟩ := exists_prefix_drop hb
  rcases Nat.le_total i j with order | order
  · have := length_add_le first second order hj
    omega
  · have := length_add_le second first order hi
    omega

/-! ## The best pair -/

theorem best_ge (first : Candidate) (cs : List Candidate) :
    ∀ c ∈ first :: cs, c.amount ≤ (best first cs).amount := by
  induction cs generalizing first with
  | nil => simp [best]
  | cons d rest ih =>
    rw [best]
    intro c hc
    have now := ih (if d.amount > first.amount then d else first)
    rw [List.forall_mem_cons] at now
    rw [List.mem_cons, List.mem_cons] at hc
    rcases hc with rfl | rfl | later
    · exact le_trans (by split <;> omega) now.1
    · exact le_trans (by split <;> omega) now.1
    · exact now.2 c later

/-- The candidates are the pairs of different places, each with the overlap of its pieces. -/
theorem mem_candidates_iff {ps : List (Piece α)} {c : Candidate} :
    c ∈ candidates ps ↔ c.left ≠ c.right ∧ ∃ a b, ps[c.left]? = some a ∧ ps[c.right]? = some b ∧
      c.amount = overlap a.content b.content := by
  obtain ⟨left, right, amount⟩ := c
  unfold candidates
  simp only [List.mem_flatMap, List.mem_filterMap, Prod.exists, List.mem_zipIdx_iff_getElem?]
  constructor
  · rintro ⟨a, i, hi, b, j, hj, made⟩
    split at made
    · cases made
    · rename_i apart
      cases made
      exact ⟨apart, a, b, hi, hj, rfl⟩
  · rintro ⟨apart, a, b, hi, hj, rfl⟩
    exact ⟨a, left, hi, b, right, hj, if_neg apart⟩

/-- While few pieces are left, no two of them overlap more than those that are joined next. -/
theorem overlap_le_chosen {ps : List (Piece α)} (few : ps.length < searchLimit) {a b : Piece α}
    (ha : ps[(choose ps).1]? = some a) (hb : ps[(choose ps).2]? = some b) {i j : Nat}
    {x y : Piece α} (apart : i ≠ j) (hx : ps[i]? = some x) (hy : ps[j]? = some y) :
    overlap x.content y.content ≤ overlap a.content b.content := by
  have mem : ⟨i, j, overlap x.content y.content⟩ ∈ candidates ps :=
    mem_candidates_iff.mpr ⟨apart, x, y, hx, hy, rfl⟩
  unfold choose at ha hb
  rw [if_pos few] at ha hb
  cases all : candidates ps with
  | nil =>
    rw [all] at mem
    cases mem
  | cons c rest =>
    rw [all] at ha hb mem
    have most := best_ge c rest _ mem
    have chosen : best c rest ∈ candidates ps := all ▸ best_mem c rest
    obtain ⟨-, a', b', ha', hb', amount⟩ := mem_candidates_iff.mp chosen
    simp only at ha hb
    rw [ha] at ha'
    rw [hb] at hb'
    cases ha'
    cases hb'
    exact amount ▸ most

/-! ## One array that holds all -/

/-- One of the pieces is an array in which all the others lie. -/
def Within (whole : List α) (ps : List (Piece α)) : Prop :=
  (∃ p ∈ ps, p.content = whole) ∧ ∀ p ∈ ps, p.content <:+: whole

theorem Piece.join_contained {a b : Piece α} (h : b.content <:+: a.content) :
    (a.join b).content = a.content := by
  unfold join
  simp only [overlap_contained h, List.drop_length, List.append_nil]

theorem Piece.join_of_overlap {a b : Piece α}
    (all : a.content.length ≤ overlap a.content b.content) : (a.join b).content = b.content := by
  have exact_length := Nat.le_antisymm (overlap_le_left a.content b.content) all
  unfold join
  simp only [exact_length]
  exact List.prefix_iff_eq_append.mp (prefix_of_overlap all)

/-- Joining the two pieces that overlap most makes nothing that does not lie in the whole array.
The whole one overlaps every other piece completely, so if the first of the two is not the whole
one, it is where the second one begins. -/
theorem joinAt_within {whole : List α} {ps : List (Piece α)} (within : Within whole ps)
    (two : 2 ≤ ps.length) (few : ps.length < searchLimit) :
    Within whole (joinAt ps (choose ps).1 (choose ps).2) := by
  obtain ⟨a, b, others, ha, hb, before, after⟩ := joinAt_perm (choose_places two)
  obtain ⟨⟨p, hp, rfl⟩, inside⟩ := within
  have inside_a := inside a (before.mem_iff.mpr (by simp))
  have inside_b := inside b (before.mem_iff.mpr (by simp))
  have joined : (a.join b).content <:+: p.content ∧
      ((a.join b).content = p.content ∨ p ∈ others) := by
    by_cases first : a.content = p.content
    · have same : (a.join b).content = p.content := by
        rw [Piece.join_contained (first ▸ inside_b), first]
      exact ⟨same ▸ List.infix_rfl, .inl same⟩
    · obtain ⟨k, hk⟩ := List.mem_iff_getElem?.mp hp
      have apart : k ≠ (choose ps).1 := by
        rintro rfl
        rw [hk] at ha
        cases ha
        exact first rfl
      have most := overlap_le_chosen few ha hb apart hk ha
      rw [overlap_contained inside_a] at most
      have same := Piece.join_of_overlap most
      refine ⟨same ▸ inside_b, ?_⟩
      have elsewhere : p ∈ a :: b :: others := before.mem_iff.mp hp
      simp only [List.mem_cons] at elsewhere
      rcases elsewhere with rfl | rfl | other
      · exact absurd rfl first
      · exact .inl same
      · exact .inr other
  refine ⟨?_, ?_⟩
  · rcases joined.2 with same | other
    · exact ⟨a.join b, after.mem_iff.mpr (by simp), same⟩
    · exact ⟨p, after.mem_iff.mpr (by simp [other]), rfl⟩
  · intro q hq
    rcases List.mem_cons.mp (after.mem_iff.mp hq) with rfl | other
    · exact joined.1
    · exact inside q (before.mem_iff.mpr (by simp [other]))

theorem joinMany_within {whole : List α} (n : Nat) {ps : List (Piece α)}
    (within : Within whole ps) (hn : ps.length = n + 1) (few : ps.length < searchLimit) :
    ∃ p, joinMany n ps = [p] ∧ p.content = whole := by
  induction n generalizing ps with
  | zero =>
    obtain ⟨p, rfl⟩ := List.length_eq_one_iff.mp hn
    obtain ⟨⟨q, hq, same⟩, -⟩ := within
    rw [List.mem_singleton] at hq
    exact ⟨p, rfl, hq ▸ same⟩
  | succ n ih =>
    have two : 2 ≤ ps.length := by omega
    have less : (joinAt ps (choose ps).1 (choose ps).2).length = n + 1 := by
      rw [joinAt_length (choose_places two)]
      omega
    exact ih (joinAt_within within two few) less (less.trans_lt (by omega))

omit [DecidableEq α] in
theorem pieces_length (arrays : List (List α)) :
    (pieces arrays).length = (arrays.filter (!·.isEmpty)).length := by
  have kept : (arrays.zipIdx.filter (!·.1.isEmpty)).map (·.1) = arrays.filter (!·.isEmpty) := by
    conv_rhs => rw [← List.zipIdx_map_fst 0 arrays, List.filter_map]
    rfl
  rw [pieces_eq, List.length_map, ← kept, List.length_map]

omit [DecidableEq α] in
theorem mem_pieces {arrays : List (List α)} {array : List α} :
    (∃ p ∈ pieces arrays, p.content = array) ↔ array ∈ arrays ∧ array ≠ [] := by
  rw [pieces_eq]
  constructor
  · rintro ⟨p, hp, rfl⟩
    obtain ⟨⟨array, number⟩, kept, rfl⟩ := List.mem_map.mp hp
    obtain ⟨there, full⟩ := List.mem_filter.mp kept
    refine ⟨List.mem_of_getElem? (List.mem_zipIdx_iff_getElem?.mp there), ?_⟩
    simpa [Piece.single] using full
  · rintro ⟨mem, full⟩
    obtain ⟨number, there⟩ := List.mem_iff_getElem?.mp mem
    refine ⟨.single number array, List.mem_map.mpr ⟨(array, number), ?_, rfl⟩, rfl⟩
    exact List.mem_filter.mpr ⟨List.mem_zipIdx_iff_getElem?.mpr there, by simpa using full⟩

/-- Arrays that lie in another one of them take up no room: the array that holds them all is that
one, in whatever order they are given and however many of them overlap alike. -/
theorem find_contained {arrays : List (List α)} {whole : List α} (mem : whole ∈ arrays)
    (contained : ∀ array ∈ arrays, array <:+: whole)
    (few : (arrays.filter (!·.isEmpty)).length < 1000) : (find arrays).1 = whole := by
  rw [← pieces_length] at few
  have inside : ∀ p ∈ pieces arrays, p.content <:+: whole := by
    intro p hp
    exact contained _ (mem_pieces.mp ⟨p, hp, rfl⟩).1
  by_cases full : whole = []
  · have none : pieces arrays = [] := by
      rw [List.eq_nil_iff_forall_not_mem]
      intro p hp
      obtain ⟨there, some_item⟩ := mem_pieces.mp ⟨p, hp, rfl⟩
      have empty := contained _ there
      rw [full, List.infix_nil] at empty
      exact some_item empty
    simp [find, joined, none, joinMany, full]
  · have within : Within whole (pieces arrays) := ⟨mem_pieces.mpr ⟨mem, full⟩, inside⟩
    obtain ⟨p, hp, -⟩ := within.1
    have some_piece := List.length_pos_of_mem hp
    obtain ⟨q, made, same⟩ := joinMany_within ((pieces arrays).length - 1) within (by omega) few
    simp [find, joined, made, same]

/-- The first of the pairs that overlap most are two short arrays, and next the whole array comes
behind its own beginning. -/
theorem find_contained_tied :
    (find [[1, 2], [2, 3], [1, 2], [], [1, 2, 3]]).1 = [1, 2, 3] :=
  find_contained (by decide) (by decide) (by decide)

/-! ## Two arrays -/

/-- Every array lies in the one that holds them all. -/
theorem infix_find {arrays : List (List α)} {array : List α} (h : array ∈ arrays) :
    array <:+: (find arrays).1 := by
  by_cases empty : array = []
  · rw [empty]
    exact List.nil_infix
  · obtain ⟨number, there⟩ := List.mem_iff_getElem?.mp h
    obtain ⟨start, -, stands⟩ := prefix_find there empty
    exact stands.isInfix.trans (List.drop_suffix _ _).isInfix

/-- Two arrays are joined where they overlap most, whichever of them comes first there. -/
theorem find_pair_length {a b : List α} (ha : a ≠ []) (hb : b ≠ []) :
    (find [a, b]).1.length + max (overlap a b) (overlap b a) = a.length + b.length := by
  have both : pieces [a, b] = [.single 0 a, .single 1 b] := by
    simp [pieces, ha, hb]
  have pairs : candidates [Piece.single 0 a, .single 1 b] =
      [⟨0, 1, overlap a b⟩, ⟨1, 0, overlap b a⟩] := rfl
  have left := overlap_le_right a b
  have right := overlap_le_right b a
  unfold find joined
  simp only [both, List.length_cons, List.length_nil, joinMany, choose, searchLimit, pairs, best]
  by_cases more : overlap b a > overlap a b
  · simp [more, joinAt, Piece.join, Piece.single]
    omega
  · simp [more, joinAt, Piece.join, Piece.single]
    omega

/-- The array that holds two others is a shortest one of all in which both lie. -/
theorem find_pair_shortest (a b : List α) :
    a <:+: (find [a, b]).1 ∧ b <:+: (find [a, b]).1 ∧
      ∀ t, a <:+: t → b <:+: t → (find [a, b]).1.length ≤ t.length := by
  refine ⟨infix_find (by simp), infix_find (by simp), ?_⟩
  intro t in_a in_b
  by_cases full : a ≠ [] ∧ b ≠ []
  · have length := find_pair_length full.1 full.2
    have least := length_add_le_of_both in_a in_b
    omega
  · -- with one of them empty, the other one is all there is
    obtain ⟨-, -, short⟩ := joined_tight [a, b]
    have long_a := in_a.length_le
    have long_b := in_b.length_le
    have empty : a = [] ∨ b = [] := by
      by_contra none
      exact full (not_or.mp none)
    simp only [List.map_cons, List.map_nil, total_cons, total_nil] at short
    change (joined [a, b]).content.length ≤ t.length
    rcases empty with rfl | rfl
    · rw [List.length_nil] at short
      omega
    · rw [List.length_nil] at short
      omega

/-- One of two arrays within the other, and two that overlap at either end. -/
example : (find [[2, 3], [1, 2, 3, 4]]).1 = [1, 2, 3, 4] ∧
    (find [[1, 2, 3], [3, 4, 1, 2]]).1 = [3, 4, 1, 2, 3] := by
  decide

end SuperArray

end ModularSynth
