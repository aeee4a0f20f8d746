-- Why no pattern stands in the table twice, and none for nothing. A pattern gets an entry of its
-- own only where it clashes with every entry before it, and two entries that clash still do so when
-- other patterns are merged into them and the rows left open become releases.
import Mathlib.Data.List.Nodup
import ModularSynth.Proofs.PatternCover

namespace ModularSynth.PatternTable

/-! ## Clashes -/

theorem Cell.compatible_comm (n m : Cell) : n.compatible m = m.compatible n := by
  cases n with
  | none => cases m <;> rfl
  | some n =>
    cases m with
    | none => rfl
    | some m => exact Bool.beq_comm

/-- A cell still clashes with what it has clashed with when another one is merged into it. An open
cell can become a hold or a release, and clashes with notes alone. -/
theorem Cell.clashes_merge {n m other : Cell} (h : n.compatible m = true)
    (clash : n.compatible other = false) : Cell.compatible (m <|> n) other = false := by
  cases m with
  | none => exact clash
  | some m =>
    cases n with
    | some n => simpa [compatible, show n = m by simpa [compatible] using h] using clash
    | none =>
      cases other with
      | none => cases clash
      | some k =>
        have quiet : m ≤ Note.hold := by simpa [compatible] using h
        have sounds : Note.hold < k := by simpa [compatible] using clash
        have other_note : m ≠ k := by
          rintro rfl
          exact UInt8.not_le.mpr sounds quiet
        exact beq_eq_false_iff_ne.mpr other_note

/-- Cells that clash have different notes in the end. -/
theorem Cell.filled_ne {n m : Cell} (clash : n.compatible m = false) :
    n.getD Note.release ≠ m.getD Note.release := by
  -- an open cell, which becomes a release, clashes with a note
  have sounds : ∀ k : Note, Note.hold < k → Note.release ≠ k := by
    rintro k sounds rfl
    exact absurd sounds (by decide)
  cases n with
  | none =>
    cases m with
    | none => cases clash
    | some m => exact sounds m (by simpa [compatible] using clash)
  | some n =>
    cases m with
    | none => exact (sounds n (by simpa [compatible] using clash)).symm
    | some m => simpa [compatible] using clash

/-- No pattern can stand for both. -/
def Clash (a b : List Cell) : Prop :=
  compatible a b = false

theorem Clash.symm {a b : List Cell} (h : Clash a b) : Clash b a := by
  unfold Clash compatible at *
  induction a generalizing b with
  | nil => cases h
  | cons n a ih =>
    cases b with
    | nil => cases h
    | cons m b =>
      simp only [List.zip_cons_cons, List.all_cons, Bool.and_eq_false_iff] at h ⊢
      rw [Cell.compatible_comm m n]
      exact h.imp id ih

theorem Clash.merge {existing candidate other : List Cell}
    (hl : existing.length = candidate.length) (h : compatible existing candidate)
    (clash : Clash existing other) : Clash (merge existing candidate) other := by
  induction existing generalizing candidate other with
  | nil => cases clash
  | cons n existing ih =>
    cases candidate with
    | nil => cases hl
    | cons m candidate =>
      cases other with
      | nil => cases clash
      | cons k other =>
        simp only [Clash, compatible, List.zip_cons_cons, List.all_cons,
          Bool.and_eq_false_iff] at clash
        simp only [compatible, List.zip_cons_cons, List.all_cons, Bool.and_eq_true] at h
        simp only [Clash, compatible, PatternTable.merge, List.zipWith_cons_cons,
          List.zip_cons_cons, List.all_cons, Bool.and_eq_false_iff]
        exact clash.imp (Cell.clashes_merge h.1) (ih (Nat.succ.inj hl) h.2)

theorem Clash.filled_ne {a b : List Cell} (clash : Clash a b) :
    a.map (·.getD Note.release) ≠ b.map (·.getD Note.release) := by
  unfold Clash compatible at clash
  induction a generalizing b with
  | nil => cases clash
  | cons n a ih =>
    cases b with
    | nil => cases clash
    | cons m b =>
      simp only [List.zip_cons_cons, List.all_cons, Bool.and_eq_false_iff] at clash
      simp only [List.map_cons, ne_eq, List.cons.injEq, not_and_or]
      exact clash.imp Cell.filled_ne ih

/-! ## Entries that clash -/

/-- What is in a table to which a pattern has been added. -/
theorem mem_add {table : List (List Cell)} {p entry : List Cell} (h : entry ∈ (add table p).1) :
    entry ∈ table ∨ entry = p ∨ ∃ old ∈ table, compatible old p ∧ entry = merge old p := by
  induction table with
  | nil => exact .inr (.inl (List.mem_singleton.mp h))
  | cons existing rest ih =>
    unfold add at h
    by_cases hc : compatible existing p
    · rw [if_pos hc] at h
      rcases List.mem_cons.mp h with rfl | h
      · exact .inr (.inr ⟨existing, List.mem_cons_self, hc, rfl⟩)
      · exact .inl (List.mem_cons_of_mem _ h)
    · rw [if_neg hc] at h
      rcases List.mem_cons.mp h with rfl | h
      · exact .inl List.mem_cons_self
      · rcases ih h with inside | same | ⟨old, member, fits, same⟩
        · exact .inl (List.mem_cons_of_mem _ inside)
        · exact .inr (.inl same)
        · exact .inr (.inr ⟨old, List.mem_cons_of_mem _ member, fits, same⟩)

section Entries

variable {rows : Nat} {table : List (List Cell)} (ht : HaveRows rows table)
  (apart : table.Pairwise Clash)
include ht apart

theorem add_apart {p : List Cell} (hp : p.length = rows) : (add table p).1.Pairwise Clash := by
  induction table with
  | nil => exact List.pairwise_singleton _ _
  | cons existing rest ih =>
    obtain ⟨he, hr⟩ := List.forall_mem_cons.mp ht
    obtain ⟨first, others⟩ := List.pairwise_cons.mp apart
    unfold add
    by_cases hc : compatible existing p
    · rw [if_pos hc]
      refine List.pairwise_cons.mpr ⟨?_, others⟩
      intro other member
      exact (first other member).merge (he.trans hp.symm) hc
    · rw [if_neg hc]
      refine List.pairwise_cons.mpr ⟨?_, ih hr others⟩
      intro other member
      rcases mem_add member with inside | rfl | ⟨old, inside, fits, rfl⟩
      · exact first other inside
      · exact Bool.eq_false_iff.mpr hc
      · exact ((first old inside).symm.merge ((hr old inside).trans hp.symm) fits).symm

theorem addAll_apart {patterns : List (List Cell)} (hp : HaveRows rows patterns) :
    (addAll table patterns).1.Pairwise Clash := by
  induction patterns generalizing table with
  | nil => exact apart
  | cons p rest ih =>
    obtain ⟨hp, hr⟩ := List.forall_mem_cons.mp hp
    exact ih (add_grown ht hp).rows (add_apart ht apart hp) hr

theorem addTracks_apart {tracks : List (List (List Cell))}
    (hp : ∀ patterns ∈ tracks, HaveRows rows patterns) :
    (addTracks table tracks).1.Pairwise Clash := by
  induction tracks generalizing table with
  | nil => exact apart
  | cons patterns rest ih =>
    obtain ⟨hp, hr⟩ := List.forall_mem_cons.mp hp
    exact ih (addAll_holds ht hp).1.rows (addAll_apart ht apart hp) hr

end Entries

/-! ## Entries in use -/

/-- A place of the table was there before, or is that of the pattern that has been added. -/
theorem add_used {table : List (List Cell)} {p : List Cell} {place : Nat}
    (h : place < (add table p).1.length) : place < table.length ∨ place = (add table p).2 := by
  induction table generalizing place with
  | nil =>
    simp only [add, List.length_singleton] at h ⊢
    omega
  | cons existing rest ih =>
    unfold add at h ⊢
    by_cases hc : compatible existing p
    · rw [if_pos hc] at h ⊢
      exact .inl h
    · rw [if_neg hc] at h ⊢
      cases place with
      | zero => exact .inl (Nat.succ_pos _)
      | succ place =>
        exact (ih (Nat.lt_of_succ_lt_succ h)).imp Nat.succ_lt_succ (congrArg (· + 1))

theorem addAll_used {table patterns : List (List Cell)} {place : Nat}
    (h : place < (addAll table patterns).1.length) :
    place < table.length ∨ place ∈ (addAll table patterns).2 := by
  induction patterns generalizing table with
  | nil => exact .inl h
  | cons p rest ih =>
    unfold addAll
    rcases ih h with before | used
    · rcases add_used before with before | rfl
      · exact .inl before
      · exact .inr List.mem_cons_self
    · exact .inr (List.mem_cons_of_mem _ used)

/-- A place of the table was there before, or some track plays it. -/
theorem addTracks_used {table : List (List Cell)} {tracks : List (List (List Cell))} {place : Nat}
    (h : place < (addTracks table tracks).1.length) :
    place < table.length ∨ ∃ places ∈ (addTracks table tracks).2, place ∈ places := by
  induction tracks generalizing table with
  | nil => exact .inl h
  | cons patterns rest ih =>
    unfold addTracks
    rcases ih h with before | ⟨places, member, used⟩
    · rcases addAll_used before with before | used
      · exact .inl before
      · exact .inr ⟨_, List.mem_cons_self, used⟩
    · exact .inr ⟨places, List.mem_cons_of_mem _ member, used⟩

/-! ## The silent pattern -/

/-- If there is a silent pattern, the first one is silent. -/
theorem silentFirst_first {patterns : List (List Note)} {orders : List (List Nat)} {place : Nat}
    {pattern : List Note} (h : (silentFirst patterns orders).1[place]? = some pattern)
    (silent : ∀ n ∈ pattern, n = Note.release) :
    ∃ first, (silentFirst patterns orders).1[0]? = some first ∧ ∀ n ∈ first, n = Note.release := by
  obtain ⟨rename, twice, -, same, _⟩ := silentFirst_renames patterns orders
  have there : patterns[rename place]? = some pattern := by
    rw [← same, twice]
    exact h
  unfold silentFirst
  cases hs : patterns.findIdx? (·.all (· == Note.release)) with
  | none =>
    have loud := List.findIdx?_eq_none_iff.mp hs pattern (List.mem_of_getElem? there)
    simp only [List.all_eq_false, beq_iff_eq] at loud
    obtain ⟨n, hn, sounds⟩ := loud
    exact absurd (silent n hn) sounds
  | some place' =>
    obtain ⟨inside, quiet, -⟩ := List.findIdx?_eq_some_iff_getElem.mp hs
    have head : 0 < patterns.length := Nat.zero_lt_of_lt inside
    have moved := swapPlaces_getElem? head inside place'
    have first : (if place' = 0 then place' else if place' = place' then 0 else place') = 0 := by
      split <;> simp_all
    rw [first, List.getElem?_eq_getElem inside] at moved
    refine ⟨_, moved, ?_⟩
    simpa using quiet

/-! ## The table -/

/-- Where places are only exchanged, entries that differ still do. -/
theorem nodup_of_renamed {α : Type} {xs ys : List α} {rename : Nat → Nat}
    (back : ∀ place, ys[place]? = xs[rename place]?) (twice : Function.Involutive rename)
    (h : xs.Nodup) : ys.Nodup := by
  rw [List.nodup_iff_getElem?_ne_getElem?]
  intro i j before inside equal
  have there : rename i < xs.length := by
    have here := back i
    rw [List.getElem?_eq_getElem (by omega)] at here
    exact (List.getElem?_eq_some_iff.mp here.symm).1
  rw [back, back] at equal
  exact Nat.ne_of_lt before (twice.injective ((List.getElem?_inj there h).mp equal))

section Encoded

variable {song : Song} {table : PatternTable} (encoded : ofSong song = .ok table)
  (pos : 0 < song.score.rowsPerPattern)
include encoded pos

/-- The patterns are the entries that have been added, in another order. -/
theorem ofSong_entries : ∃ rename : Nat → Nat, Function.Involutive rename ∧
    table.orders = (addTracks [] (song.score.tracks.map (trackPatterns song.score))).2.map
      (·.map fun place => (rename place).toUInt8) ∧
    ∀ place, table.patterns[place]? =
      ((addTracks [] (song.score.tracks.map (trackPatterns song.score))).1.map
        (·.map (·.getD Note.release)))[rename place]? := by
  obtain ⟨-, -, rename, twice, orders, patterns⟩ := ofSong_ok encoded pos
  refine ⟨rename, twice, orders, fun place => ?_⟩
  rw [List.getElem?_map, ← patterns, twice]

theorem ofSong_nodup : table.patterns.Nodup := by
  obtain ⟨rename, twice, -, back⟩ := ofSong_entries encoded pos
  have empty : HaveRows song.score.rowsPerPattern [] := fun _ h => nomatch h
  have apart := addTracks_apart empty .nil (tracks_haveRows song.score)
  refine nodup_of_renamed back twice ?_
  exact List.pairwise_map.mpr (apart.imp Clash.filled_ne)

theorem ofSong_rows {pattern : List Note} (member : pattern ∈ table.patterns) :
    pattern.length = song.score.rowsPerPattern := by
  obtain ⟨rename, -, -, back⟩ := ofSong_entries encoded pos
  obtain ⟨place, there⟩ := List.mem_iff_getElem?.mp member
  rw [back] at there
  obtain ⟨entry, added, rfl⟩ := List.mem_map.mp (List.mem_of_getElem? there)
  rw [List.length_map]
  exact (addTracks_score song.score).1 entry added

theorem ofSong_played {place : Nat} (inside : place < table.patterns.length) :
    ∃ order ∈ table.orders, ∃ entry ∈ order, entry.toNat = place := by
  obtain ⟨rename, twice, orders, back⟩ := ofSong_entries encoded pos
  have there := back place
  rw [List.getElem?_eq_getElem inside] at there
  have added := (List.getElem?_eq_some_iff.mp there.symm).1
  rw [List.length_map] at added
  rcases addTracks_used added with before | ⟨order, member, plays⟩
  · cases before
  · refine ⟨_, orders ▸ List.mem_map_of_mem member, _, List.mem_map_of_mem plays, ?_⟩
    rw [twice]
    exact ofSong_byte encoded pos inside

/-- An order has an entry for each pattern of its track, and each one is a place of the table. -/
theorem ofSong_order {order : List UInt8} (member : order ∈ table.orders) :
    order.length = song.score.length ∧ ∀ entry ∈ order, entry.toNat < table.patterns.length := by
  obtain ⟨-, -, rename, -, orders, patterns⟩ := ofSong_ok encoded pos
  rw [orders] at member
  obtain ⟨places, added, rfl⟩ := List.mem_map.mp member
  obtain ⟨track, ht⟩ := List.mem_iff_getElem?.mp added
  obtain ⟨cells, hc, stand⟩ := forall₂_getElem? (addTracks_score song.score).2.flip ht
  constructor
  · obtain ⟨track, -, rfl⟩ := List.mem_map.mp (List.mem_of_getElem? hc)
    rw [List.length_map, stand.length_eq, trackPatterns_eq, List.length_map, List.length_range]
  · intro entry plays
    obtain ⟨place, named, rfl⟩ := List.mem_map.mp plays
    obtain ⟨position, hposition⟩ := List.mem_iff_getElem?.mp named
    obtain ⟨_, -, cells, held, -⟩ := forall₂_getElem? stand.flip hposition
    have there := patterns place
    rw [held] at there
    have inside := (List.getElem?_eq_some_iff.mp there).1
    rw [ofSong_byte encoded pos inside]
    exact inside

/-- A silent pattern is at the first place: one that is silent is there, and it is the same. -/
theorem ofSong_silent {place : Nat} {pattern : List Note}
    (there : table.patterns[place]? = some pattern) (silent : ∀ n ∈ pattern, n = Note.release) :
    place = 0 := by
  obtain ⟨entries, places, -, -, patterns, -⟩ := ofSong_parts encoded pos
  have same := there
  rw [patterns] at same
  obtain ⟨first, head, quiet⟩ := silentFirst_first same silent
  rw [← patterns] at head
  have alike : pattern = first := by
    rw [List.eq_replicate_of_mem silent, List.eq_replicate_of_mem quiet,
      ofSong_rows encoded pos (List.mem_of_getElem? there),
      ofSong_rows encoded pos (List.mem_of_getElem? head)]
  have inside := (List.getElem?_eq_some_iff.mp there).1
  refine (List.getElem?_inj inside (ofSong_nodup encoded pos)).mp ?_
  rw [there, head, alike]

end Encoded

/-- The patterns of a table are different and as long as those of the song, each one is played by
some track, all that is played is there, and a silent one comes first. -/
theorem table_distinct_and_tight {song : Song} {table : PatternTable}
    (encoded : ofSong song = .ok table) :
    table.patterns.Nodup ∧
      (∀ pattern ∈ table.patterns, pattern.length = song.score.rowsPerPattern) ∧
      table.patterns.length ≤ 256 ∧
      (∀ place < table.patterns.length,
        ∃ order ∈ table.orders, ∃ entry ∈ order, entry.toNat = place) ∧
      (∀ order ∈ table.orders, ∀ entry ∈ order, entry.toNat < table.patterns.length) ∧
      table.orders.length = song.score.tracks.length ∧
      (0 < song.score.rowsPerPattern → ∀ order ∈ table.orders, order.length = song.score.length) ∧
      ∀ place pattern, table.patterns[place]? = some pattern →
        (∀ n ∈ pattern, n = Note.release) → place = 0 := by
  rcases Nat.eq_zero_or_pos song.score.rowsPerPattern with none | pos
  · -- without rows there are no patterns, and the orders are empty
    unfold ofSong at encoded
    simp only [if_pos none] at encoded
    cases encoded
    simp [none]
  · obtain ⟨-, few, rename, -, orders, -⟩ := ofSong_ok encoded pos
    refine ⟨ofSong_nodup encoded pos, fun _ => ofSong_rows encoded pos, few,
      fun _ => ofSong_played encoded pos, ?_, ?_, ?_, fun _ _ => ofSong_silent encoded pos⟩
    · intro order member
      exact (ofSong_order encoded pos member).2
    · rw [orders, List.length_map, (addTracks_score song.score).2.length_eq, List.length_map]
    · intro _ order member
      exact (ofSong_order encoded pos member).1

/-- A song whose silent pattern is not the first that is met. -/
def pausingSong : Song where
  score := {
    rowsPerPattern := 2
    length := 2
    tracks := [
      { numVoices := 1, order := ⟨[0, 1]⟩, patterns := [⟨[64, 1]⟩, ⟨[0, 0]⟩] },
      { numVoices := 1, order := ⟨[0, 0]⟩, patterns := [⟨[72, 0]⟩] }] }

theorem table_distinct_and_tight_pausing :
    ∃ table, ofSong pausingSong = .ok table ∧
      table.patterns = [[0, 0], [64, 1], [72, 0]] ∧ table.orders = [[1, 0], [2, 2]] ∧
      table.patterns.Nodup ∧
      (∀ place < table.patterns.length,
        ∃ order ∈ table.orders, ∃ entry ∈ order, entry.toNat = place) ∧
      ∀ place pattern, table.patterns[place]? = some pattern →
        (∀ n ∈ pattern, n = Note.release) → place = 0 := by
  obtain ⟨table, encoded, patterns, orders⟩ : ∃ table, ofSong pausingSong = .ok table ∧
      table.patterns = [[0, 0], [64, 1], [72, 0]] ∧ table.orders = [[1, 0], [2, 2]] :=
    ⟨_, rfl, rfl, rfl⟩
  obtain ⟨distinct, -, -, played, -, -, -, silent⟩ := table_distinct_and_tight encoded
  exact ⟨table, encoded, patterns, orders, distinct, played, silent⟩

end ModularSynth.PatternTable
