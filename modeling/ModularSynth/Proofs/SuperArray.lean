-- The array that a greedy search makes holds every array it was given, at the place that
-- the search remembers for it. Joining two pieces keeps what both of them hold, and every
-- join leaves one piece less.
import Mathlib.Data.List.Infix
import ModularSynth.Tables.DelayTable

namespace ModularSynth

namespace SuperArray

section Search

variable {α : Type} [DecidableEq α]

/-! ## Overlaps -/

/-- Two arrays agree if one of them begins with the other. -/
theorem agree_iff (a b : List α) : agree a b = true ↔ a <+: b ∨ b <+: a := by
  induction a generalizing b with
  | nil => simp [agree]
  | cons x xs ih =>
    cases b with
    | nil => simp [agree]
    | cons y ys =>
      rw [agree, Bool.and_eq_true, beq_iff_eq, ih, List.cons_prefix_cons, List.cons_prefix_cons]
      constructor
      · rintro ⟨rfl, h | h⟩
        · exact .inl ⟨rfl, h⟩
        · exact .inr ⟨rfl, h⟩
      · rintro (⟨rfl, h⟩ | ⟨rfl, h⟩)
        · exact ⟨rfl, .inl h⟩
        · exact ⟨rfl, .inr h⟩

theorem shift_le (a b : List α) : shift a b ≤ a.length := by
  induction a with
  | nil => exact Nat.le_refl 0
  | cons x xs ih =>
    rw [shift]
    split
    · exact Nat.zero_le _
    · exact Nat.succ_le_succ ih

theorem agree_shift (a b : List α) : agree (a.drop (shift a b)) b = true := by
  induction a with
  | nil => rfl
  | cons x xs ih =>
    rw [shift]
    split
    · assumption
    · exact ih

/-! ## Pieces -/

namespace Piece

/-- The second of two joined pieces begins at their shift. -/
theorem prefix_join (a b : Piece α) :
    b.content <+: (a.join b).content.drop (shift a.content b.content) := by
  have agreed := (agree_iff _ _).mp (agree_shift a.content b.content)
  unfold join
  rw [List.drop_append_of_le_length (shift_le _ _)]
  generalize hs : shift a.content b.content = s at *
  rcases agreed with ⟨rest, hr⟩ | h
  · have inside : overlap a.content b.content = (a.content.drop s).length := by
      rw [overlap, hs, ← hr, List.length_append, List.length_drop]
      exact Nat.min_eq_left (Nat.le_add_right _ _)
    rw [inside, ← hr, List.drop_left]
  · exact h.trans (List.prefix_append _ _)

/-- Each of the arrays in a piece stands in it where it should. -/
def Holds (arrays : List (List α)) (p : Piece α) : Prop :=
  ∀ number start, (number, start) ∈ p.starts →
    ∃ array, arrays[number]? = some array ∧ array <+: p.content.drop start

theorem Holds.join {arrays : List (List α)} {a b : Piece α} (ha : a.Holds arrays)
    (hb : b.Holds arrays) : (a.join b).Holds arrays := by
  intro number start h
  rcases List.mem_append.mp h with h | h
  · obtain ⟨array, hn, hp⟩ := ha number start h
    refine ⟨array, hn, hp.trans ?_⟩
    exact List.IsPrefix.drop (List.prefix_append a.content _) start
  · obtain ⟨⟨n, s⟩, hs, he⟩ := List.mem_map.mp h
    simp only [Prod.mk.injEq] at he
    obtain ⟨rfl, rfl⟩ := he
    obtain ⟨array, hn, hp⟩ := hb n s hs
    refine ⟨array, hn, hp.trans ?_⟩
    rw [Nat.add_comm, ← List.drop_drop]
    exact List.IsPrefix.drop (prefix_join a b) s

/-- The numbers of the arrays in a piece. -/
def numbers (p : Piece α) : List Nat :=
  p.starts.map (·.1)

@[simp]
theorem numbers_join (a b : Piece α) : (a.join b).numbers = a.numbers ++ b.numbers := by
  simp [numbers, join]

end Piece

/-! ## One join -/

/-- Two different places of a list. -/
def Places (pieces : List (Piece α)) (left right : Nat) : Prop :=
  left < pieces.length ∧ right < pieces.length ∧ left ≠ right

theorem candidates_places {ps : List (Piece α)} {c : Candidate} (h : c ∈ candidates ps) :
    Places ps c.left c.right := by
  unfold candidates at h
  obtain ⟨⟨a, i⟩, hi, h⟩ := List.mem_flatMap.mp h
  obtain ⟨⟨b, j⟩, hj, h⟩ := List.mem_filterMap.mp h
  simp only at h
  split at h
  · cases h
  · rename_i hij
    cases h
    exact ⟨(List.mem_zipIdx' hi).1, (List.mem_zipIdx' hj).1, hij⟩

theorem best_mem (first : Candidate) (cs : List Candidate) : best first cs ∈ first :: cs := by
  induction cs generalizing first with
  | nil => exact List.mem_singleton_self _
  | cons c rest ih =>
    rw [best]
    have h := ih (if c.amount > first.amount then c else first)
    rcases List.mem_cons.mp h with h | h
    · rw [h]
      split
      · exact List.mem_cons_of_mem _ List.mem_cons_self
      · exact List.mem_cons_self
    · exact List.mem_cons_of_mem _ (List.mem_cons_of_mem _ h)

/-- The two places to join next are different places of the list. -/
theorem choose_places {ps : List (Piece α)} (h : 2 ≤ ps.length) :
    Places ps (choose ps).1 (choose ps).2 := by
  have first : Places ps 0 1 := ⟨by omega, by omega, by decide⟩
  unfold choose
  split
  · split
    · exact first
    · rename_i c rest hc
      exact candidates_places (hc ▸ best_mem c rest)
  · exact first

section Join

variable {ps : List (Piece α)} {left right : Nat}

theorem joinAt_length (h : Places ps left right) : (joinAt ps left right).length = ps.length - 1 := by
  obtain ⟨hl, hr, -⟩ := h
  simp only [joinAt, List.getElem?_eq_getElem hl, List.getElem?_eq_getElem hr]
  rw [List.length_eraseIdx_of_lt (by simpa using hr), List.length_set]

theorem joinAt_holds {arrays : List (List α)} (h : Places ps left right)
    (held : ∀ p ∈ ps, p.Holds arrays) : ∀ p ∈ joinAt ps left right, p.Holds arrays := by
  obtain ⟨hl, hr, -⟩ := h
  simp only [joinAt, List.getElem?_eq_getElem hl, List.getElem?_eq_getElem hr]
  intro p hp
  rcases List.mem_or_eq_of_mem_set (List.mem_of_mem_eraseIdx hp) with hp | rfl
  · exact held p hp
  · exact (held _ (List.getElem_mem hl)).join (held _ (List.getElem_mem hr))

/-- No array is lost by a join. -/
theorem joinAt_numbers (h : Places ps left right) {number : Nat}
    (hn : ∃ p ∈ ps, number ∈ p.numbers) : ∃ p ∈ joinAt ps left right, number ∈ p.numbers := by
  obtain ⟨hl, hr, hne⟩ := h
  simp only [joinAt, List.getElem?_eq_getElem hl, List.getElem?_eq_getElem hr]
  have joined : ps[left].join ps[right] ∈ (ps.set left (ps[left].join ps[right])).eraseIdx right :=
    List.mem_eraseIdx_iff_getElem?.mpr ⟨left, hne, by simp [hl]⟩
  obtain ⟨p, hp, hn⟩ := hn
  obtain ⟨i, hi, rfl⟩ := List.getElem_of_mem hp
  by_cases hil : i = left
  · subst hil
    exact ⟨_, joined, by simp [hn]⟩
  · by_cases hir : i = right
    · subst hir
      exact ⟨_, joined, by simp [hn]⟩
    · refine ⟨ps[i], List.mem_eraseIdx_iff_getElem?.mpr ⟨i, hir, ?_⟩, hn⟩
      rw [List.getElem?_set_ne (Ne.symm hil), List.getElem?_eq_getElem hi]

end Join

/-! ## The whole search -/

/-- Pieces that are joined until one is left still hold what they held. -/
theorem joinMany_spec {arrays : List (List α)} (n : Nat) {ps : List (Piece α)}
    (hn : ps.length = n + 1) (held : ∀ p ∈ ps, p.Holds arrays) :
    ∃ whole, joinMany n ps = [whole] ∧ whole.Holds arrays ∧
      ∀ number, (∃ p ∈ ps, number ∈ p.numbers) → number ∈ whole.numbers := by
  induction n generalizing ps with
  | zero =>
    obtain ⟨p, rfl⟩ := List.length_eq_one_iff.mp hn
    exact ⟨p, rfl, held p List.mem_cons_self, by simp⟩
  | succ n ih =>
    have places := choose_places (show 2 ≤ ps.length by omega)
    obtain ⟨whole, hw, hh, hm⟩ := ih (by rw [joinAt_length places]; omega)
      (joinAt_holds places held)
    exact ⟨whole, hw, hh, fun number h => hm number (joinAt_numbers places h)⟩

omit [DecidableEq α] in
theorem pieces_holds (arrays : List (List α)) : ∀ p ∈ pieces arrays, p.Holds arrays := by
  intro p hp
  obtain ⟨⟨array, number⟩, hm, h⟩ := List.mem_filterMap.mp hp
  simp only at h
  split at h
  · cases h
  · cases h
    intro n s hs
    simp only [Piece.single, List.mem_singleton, Prod.mk.injEq] at hs
    obtain ⟨rfl, rfl⟩ := hs
    exact ⟨array, List.mem_zipIdx_iff_getElem?.mp hm, List.prefix_refl _⟩

omit [DecidableEq α] in
theorem pieces_numbers {arrays : List (List α)} {number : Nat} {array : List α}
    (h : arrays[number]? = some array) (hne : array ≠ []) :
    ∃ p ∈ pieces arrays, number ∈ p.numbers := by
  refine ⟨.single number array, List.mem_filterMap.mpr ⟨(array, number), ?_, ?_⟩, ?_⟩
  · exact List.mem_zipIdx_iff_getElem?.mpr h
  · simp [hne]
  · simp [Piece.numbers, Piece.single]

/-- Every array that is not empty stands in the joined array at the place found for it. -/
theorem prefix_find {arrays : List (List α)} {number : Nat} {array : List α}
    (h : arrays[number]? = some array) (hne : array ≠ []) :
    ∃ start, (find arrays).2[number]? = some start ∧ array <+: (find arrays).1.drop start := by
  have present := pieces_numbers h hne
  have some_piece : 0 < (pieces arrays).length := by
    obtain ⟨p, hp, -⟩ := present
    exact List.length_pos_of_mem hp
  obtain ⟨whole, hw, held, kept⟩ := joinMany_spec ((pieces arrays).length - 1)
    (by omega) (pieces_holds arrays)
  have hj : joined arrays = whole := by simp [joined, hw]
  obtain ⟨start, hs⟩ : ∃ start, whole.starts.lookup number = some start := by
    obtain ⟨⟨n, s⟩, hm, rfl⟩ := List.mem_map.mp (kept number present)
    cases hl : whole.starts.lookup n with
    | some start => exact ⟨start, rfl⟩
    | none => exact absurd (List.lookup_eq_none_iff.mp hl _ hm) (by simp)
  have hlt := (List.getElem?_eq_some_iff.mp h).1
  refine ⟨start, by simp [find, hj, hs, hlt], ?_⟩
  obtain ⟨pre, post, hsplit, -⟩ := List.lookup_eq_some_iff.mp hs
  obtain ⟨array', ha', hp⟩ := held number start (by rw [hsplit]; simp)
  rw [h] at ha'
  cases ha'
  simpa [find, hj] using hp

end Search

end SuperArray

/-! ## The delay times of units -/

namespace DelayTable

theorem parts_length {α : Type} (ns : List Nat) (xs : List α) :
    (parts ns xs).length = ns.length := by
  induction ns generalizing xs with
  | nil => rfl
  | cons n ns ih => rw [parts, List.length_cons, List.length_cons, ih]

theorem parts_getElem? {α : Type} {ns : List Nat} {xs : List α} {i n : Nat}
    (h : ns[i]? = some n) :
    (parts ns xs)[i]? = some ((xs.drop (total (ns.take i))).take n) := by
  induction ns generalizing i xs with
  | nil => simp at h
  | cons m ns ih =>
    cases i with
    | zero =>
      simp only [List.getElem?_cons_zero, Option.some.injEq] at h
      simp [parts, h]
    | succ i =>
      rw [parts, List.getElem?_cons_succ, ih (by simpa using h), List.drop_drop,
        List.take_succ_cons, total_cons]

/-- Where an element of a list of lists stands when all lists are put together. -/
theorem flatMap_getElem? {α β : Type} {xs : List α} {f : α → List β} {i k : Nat} {x : α}
    (h : xs[i]? = some x) (hk : k < (f x).length) :
    (xs.flatMap f)[total ((xs.take i).map fun y => (f y).length) + k]? = (f x)[k]? := by
  induction xs generalizing i with
  | nil => simp at h
  | cons y xs ih =>
    cases i with
    | zero =>
      simp only [List.getElem?_cons_zero, Option.some.injEq] at h
      subst h
      rw [List.flatMap_cons, List.take_zero, List.map_nil, total_nil, Nat.zero_add,
        List.getElem?_append_left hk]
    | succ i =>
      rw [List.flatMap_cons, List.take_succ_cons, List.map_cons, total_cons, Nat.add_assoc,
        List.getElem?_append_right (Nat.le_add_right _ _), Nat.add_sub_cancel_left,
        ih (by simpa using h)]

theorem le_flatMap_length {α β : Type} {xs : List α} {f : α → List β} {i : Nat} {x : α}
    (h : xs[i]? = some x) :
    total ((xs.take i).map fun y => (f y).length) + (f x).length ≤ (xs.flatMap f).length := by
  induction xs generalizing i with
  | nil => simp at h
  | cons y xs ih =>
    rw [List.flatMap_cons, List.length_append]
    cases i with
    | zero =>
      simp only [List.getElem?_cons_zero, Option.some.injEq] at h
      subst h
      simp
    | succ i =>
      have := ih (i := i) (by simpa using h)
      rw [List.take_succ_cons, List.map_cons, total_cons]
      omega

/-- The delay times of all units, which the table is made of. -/
def allTimes (patch : Patch) (bpm : Nat) : List (List Int) :=
  patch.instruments.flatMap fun i => i.units.map (unitTimes bpm)

/-- Where the delay times of each unit of an instrument begin is where they begin among those of
all units. -/
theorem starts_of_units {patch : Patch} (bpm : Nat) {i : Nat} {instrument : Instrument}
    (hi : patch.instruments[i]? = some instrument) :
    ∃ starts, (ofPatch patch bpm).2[i]? = some starts ∧
      starts.length = instrument.units.length ∧
      ∀ (k : Nat) (u : PatchUnit), instrument.units[k]? = some u →
        ∃ number : Nat, (allTimes patch bpm)[number]? = some (unitTimes bpm u) ∧
          starts[k]? = (SuperArray.find (allTimes patch bpm)).2[number]? := by
  let before := total ((patch.instruments.map (·.units.length)).take i)
  have before_eq : total ((patch.instruments.take i).map fun i =>
      (i.units.map (unitTimes bpm)).length) = before := by
    simp only [List.length_map, before, List.map_take]
  have inside : before + instrument.units.length ≤
      (SuperArray.find (allTimes patch bpm)).2.length := by
    have := le_flatMap_length (f := fun i : Instrument => i.units.map (unitTimes bpm)) hi
    rw [before_eq, List.length_map] at this
    rwa [SuperArray.find, List.length_map, List.length_range]
  refine ⟨((SuperArray.find (allTimes patch bpm)).2.drop before).take instrument.units.length,
    parts_getElem? (by simp [hi]), by rw [List.length_take, List.length_drop]; omega, ?_⟩
  intro k u hk
  have hlt := (List.getElem?_eq_some_iff.mp hk).1
  refine ⟨before + k, ?_, by rw [List.getElem?_take_of_lt hlt, List.getElem?_drop]⟩
  rw [← before_eq, allTimes, flatMap_getElem? hi (by simpa using hlt), List.getElem?_map, hk]
  rfl

/-- Every unit has a place in the table, and from there on stand its delay times. -/
theorem starts_of_instrument {patch : Patch} (bpm : Nat) {i : Nat} {instrument : Instrument}
    (hi : patch.instruments[i]? = some instrument) :
    ∃ starts, (ofPatch patch bpm).2[i]? = some starts ∧
      starts.length = instrument.units.length ∧
      ∀ (k : Nat) (u : PatchUnit), instrument.units[k]? = some u → ∃ start, starts[k]? = some start ∧
        (unitTimes bpm u ≠ [] →
          (unitTimes bpm u).map UInt16.ofInt <+: (ofPatch patch bpm).1.drop start) := by
  obtain ⟨starts, hs, length, each⟩ := starts_of_units bpm hi
  refine ⟨starts, hs, length, ?_⟩
  intro k u hk
  obtain ⟨number, there, place⟩ := each k u hk
  by_cases hne : unitTimes bpm u = []
  · have hlt := (List.getElem?_eq_some_iff.mp hk).1
    exact ⟨_, List.getElem?_eq_getElem (by omega), fun h => absurd hne h⟩
  · obtain ⟨start, found, hp⟩ := SuperArray.prefix_find there hne
    refine ⟨start, place.trans found, fun _ => ?_⟩
    have := hp.map UInt16.ofInt
    rwa [List.map_drop] at this

theorem prefix_of_start {patch : Patch} {bpm i k start : Nat} {u : PatchUnit}
    (hu : patch.unit? i k = some u)
    (hs : ((ofPatch patch bpm).2[i]? >>= (·[k]?)) = some start) (hne : unitTimes bpm u ≠ []) :
    (unitTimes bpm u).map UInt16.ofInt <+: (ofPatch patch bpm).1.drop start := by
  obtain ⟨instrument, hi, hk⟩ := Option.bind_eq_some_iff.mp hu
  obtain ⟨starts, hstarts, -, each⟩ := starts_of_instrument bpm hi
  obtain ⟨start', hs', hp⟩ := each k u hk
  rw [hstarts, Option.bind_eq_bind, Option.bind_some, hs', Option.some_inj] at hs
  exact hs ▸ hp hne

end DelayTable

end ModularSynth
