-- Why sharing patterns loses nothing. An entry of the table stands for every pattern that
-- was ever put there: it has the same notes, and where a row of the pattern does not
-- matter, it lets go or holds. What is added later keeps this.
import Mathlib.Data.List.Forall2
import ModularSynth.Proofs.ScoreNotes

namespace ModularSynth.PatternTable

/-! ## Standing for a pattern -/

/-- Does a cell of an entry stand for a cell of a pattern? -/
def Cell.StandsFor (entry cell : Cell) : Prop :=
  match cell with
  | some n => entry = some n
  | none => ∀ n ∈ entry, n ≤ Note.hold

/-- Does an entry stand for a pattern, row by row? -/
def StandsFor (entry pattern : List Cell) : Prop :=
  List.Forall₂ Cell.StandsFor entry pattern

theorem Cell.StandsFor.refl (cell : Cell) : cell.StandsFor cell := by
  cases cell with
  | none => exact fun _ h => nomatch h
  | some n => rfl

theorem StandsFor.refl (pattern : List Cell) : StandsFor pattern pattern :=
  List.forall₂_same.mpr fun cell _ => .refl cell

/-- The merged cell stands for the one that comes in. -/
theorem Cell.standsFor_incoming {n m : Cell} (h : n.compatible m) :
    Cell.StandsFor (m <|> n) m := by
  cases m with
  | some m => rfl
  | none =>
    intro y hy
    cases n with
    | none => cases hy
    | some n =>
      cases hy
      simpa [compatible] using h

/-- The merged cell stands for all that the old one stood for. -/
theorem Cell.StandsFor.merge {n m cell : Cell} (h : n.compatible m) (hn : n.StandsFor cell) :
    Cell.StandsFor (m <|> n) cell := by
  cases m with
  | none => exact hn
  | some m =>
    cases n with
    | some n => simpa [compatible, show n = m by simpa [compatible] using h] using hn
    | none =>
      cases cell with
      | some c => cases hn
      | none =>
        rintro y hy
        cases hy
        simpa [compatible] using h

theorem merge_standsFor {existing candidate : List Cell}
    (hl : existing.length = candidate.length) (h : compatible existing candidate) :
    StandsFor (merge existing candidate) candidate := by
  induction existing generalizing candidate with
  | nil =>
    rw [List.length_eq_zero_iff.mp hl.symm]
    exact .nil
  | cons n existing ih =>
    cases candidate with
    | nil => cases hl
    | cons m candidate =>
      simp only [compatible, List.zip_cons_cons, List.all_cons, Bool.and_eq_true] at h
      exact .cons (Cell.standsFor_incoming h.1) (ih (Nat.succ.inj hl) h.2)

theorem StandsFor.merge {existing candidate pattern : List Cell}
    (hl : existing.length = candidate.length) (h : compatible existing candidate)
    (hs : StandsFor existing pattern) : StandsFor (merge existing candidate) pattern := by
  induction hs generalizing candidate with
  | nil => exact .nil
  | cons hn _ ih =>
    cases candidate with
    | nil => cases hl
    | cons m candidate =>
      simp only [compatible, List.zip_cons_cons, List.all_cons, Bool.and_eq_true] at h
      exact .cons (hn.merge h.1) (ih (Nat.succ.inj hl) h.2)

/-! ## Growing the table -/

/-- Does the entry at a place stand for a pattern? -/
def Holds (table : List (List Cell)) (place : Nat) (pattern : List Cell) : Prop :=
  ∃ entry, table[place]? = some entry ∧ StandsFor entry pattern

/-- All patterns of a list have so many rows. -/
def HaveRows (rows : Nat) (patterns : List (List Cell)) : Prop :=
  ∀ pattern ∈ patterns, pattern.length = rows

/-- A table that has come from another by adding patterns: each place still stands for what
it stood for. -/
structure Grown (rows : Nat) (table table' : List (List Cell)) : Prop where
  rows : HaveRows rows table'
  keeps : ∀ place pattern, Holds table place pattern → Holds table' place pattern

theorem Grown.refl {rows : Nat} {table : List (List Cell)} (h : HaveRows rows table) :
    Grown rows table table :=
  ⟨h, fun _ _ => id⟩

theorem Grown.trans {rows : Nat} {a b c : List (List Cell)} (h : Grown rows a b)
    (h' : Grown rows b c) : Grown rows a c :=
  ⟨h'.rows, fun place pattern hp => h'.keeps place pattern (h.keeps place pattern hp)⟩

@[simp]
theorem holds_zero {entry : List Cell} {table : List (List Cell)} {pattern : List Cell} :
    Holds (entry :: table) 0 pattern ↔ StandsFor entry pattern := by
  simp [Holds]

@[simp]
theorem holds_succ {entry : List Cell} {table : List (List Cell)} {place : Nat}
    {pattern : List Cell} :
    Holds (entry :: table) (place + 1) pattern ↔ Holds table place pattern := by
  simp [Holds]

theorem add_grown {rows : Nat} {table : List (List Cell)} {p : List Cell}
    (ht : HaveRows rows table) (hp : p.length = rows) : Grown rows table (add table p).1 := by
  induction table with
  | nil => exact ⟨by simpa [HaveRows, add] using hp, fun place pattern h => by simp [Holds] at h⟩
  | cons existing rest ih =>
    obtain ⟨he, hr⟩ := List.forall_mem_cons.mp ht
    unfold add
    by_cases hc : compatible existing p
    · have merged : (merge existing p).length = rows := by simp [merge, he, hp]
      rw [if_pos hc]
      refine ⟨List.forall_mem_cons.mpr ⟨merged, hr⟩, fun place pattern h => ?_⟩
      cases place with
      | zero => exact holds_zero.mpr ((holds_zero.mp h).merge (he.trans hp.symm) hc)
      | succ place => exact holds_succ.mpr (holds_succ.mp h)
    · rw [if_neg hc]
      refine ⟨List.forall_mem_cons.mpr ⟨he, (ih hr).rows⟩, fun place pattern h => ?_⟩
      cases place with
      | zero => exact holds_zero.mpr (holds_zero.mp h)
      | succ place => exact holds_succ.mpr ((ih hr).keeps place pattern (holds_succ.mp h))

theorem add_holds {rows : Nat} {table : List (List Cell)} {p : List Cell}
    (ht : HaveRows rows table) (hp : p.length = rows) :
    Holds (add table p).1 (add table p).2 p := by
  induction table with
  | nil => exact holds_zero.mpr (.refl p)
  | cons existing rest ih =>
    obtain ⟨he, hr⟩ := List.forall_mem_cons.mp ht
    unfold add
    by_cases hc : compatible existing p
    · rw [if_pos hc]
      exact holds_zero.mpr (merge_standsFor (he.trans hp.symm) hc)
    · rw [if_neg hc]
      exact holds_succ.mpr (ih hr)

/-- Patterns added in turn: the table has grown, and each stands at its place, whatever came
after it. -/
theorem addAll_holds {rows : Nat} {table : List (List Cell)} {patterns : List (List Cell)}
    (ht : HaveRows rows table) (hp : HaveRows rows patterns) :
    Grown rows table (addAll table patterns).1 ∧
      List.Forall₂ (Holds (addAll table patterns).1) (addAll table patterns).2 patterns := by
  induction patterns generalizing table with
  | nil => exact ⟨.refl ht, .nil⟩
  | cons p rest ih =>
    obtain ⟨hp, hr⟩ := List.forall_mem_cons.mp hp
    have first := add_grown ht hp
    obtain ⟨later, places⟩ := ih first.rows hr
    exact ⟨first.trans later, .cons (later.keeps _ _ (add_holds ht hp)) places⟩

theorem addTracks_holds {rows : Nat} {table : List (List Cell)}
    {tracks : List (List (List Cell))} (ht : HaveRows rows table)
    (hp : ∀ patterns ∈ tracks, HaveRows rows patterns) :
    Grown rows table (addTracks table tracks).1 ∧
      List.Forall₂ (List.Forall₂ (Holds (addTracks table tracks).1))
        (addTracks table tracks).2 tracks := by
  induction tracks generalizing table with
  | nil => exact ⟨.refl ht, .nil⟩
  | cons patterns rest ih =>
    obtain ⟨hp, hr⟩ := List.forall_mem_cons.mp hp
    obtain ⟨first, places⟩ := addAll_holds ht hp
    obtain ⟨later, orders⟩ := ih first.rows hr
    exact ⟨first.trans later, .cons (places.imp fun place p => later.keeps place p) orders⟩

/-! ## The silent pattern -/

theorem swapPlaces_getElem? {α : Type} {xs : List α} {i j : Nat} (hi : i < xs.length)
    (hj : j < xs.length) (k : Nat) :
    (swapPlaces xs i j)[if k = i then j else if k = j then i else k]? = xs[k]? := by
  unfold swapPlaces
  rw [List.getElem?_eq_getElem hi, List.getElem?_eq_getElem hj]
  simp only [List.getElem?_set, List.length_set]
  grind

theorem swapPlaces_length {α : Type} (xs : List α) (i j : Nat) :
    (swapPlaces xs i j).length = xs.length := by
  unfold swapPlaces
  split <;> simp

/-- Putting the silent pattern first renames the places of all orders alike. Renaming twice changes
nothing. -/
theorem silentFirst_renames (patterns : List (List Note)) (orders : List (List Nat)) :
    ∃ rename : Nat → Nat, Function.Involutive rename ∧
      (silentFirst patterns orders).2 = orders.map (·.map rename) ∧
      (∀ place, (silentFirst patterns orders).1[rename place]? = patterns[place]?) ∧
      (silentFirst patterns orders).1.length = patterns.length := by
  unfold silentFirst
  cases hs : patterns.findIdx? (·.all (· == Note.release)) with
  | none => exact ⟨id, fun _ => rfl, by simp, fun _ => rfl, rfl⟩
  | some silent =>
    obtain ⟨found, -⟩ := List.findIdx?_eq_some_iff_getElem.mp hs
    refine ⟨_, ?_, rfl, swapPlaces_getElem? (by omega) found, swapPlaces_length _ _ _⟩
    intro place
    grind

/-! ## The notes of the table -/

theorem forall₂_getElem? {α β : Type} {R : α → β → Prop} {xs : List α} {ys : List β}
    (h : List.Forall₂ R xs ys) {i : Nat} {y : β} (hy : ys[i]? = some y) :
    ∃ x, xs[i]? = some x ∧ R x y := by
  induction h generalizing i with
  | nil => simp at hy
  | cons hr _ ih =>
    cases i with
    | zero =>
      cases hy
      exact ⟨_, rfl, hr⟩
    | succ i => exact ih hy

/-- The table of a song holds the entries that its tracks have come to, and the orders name their
places, once the silent pattern has been put first. -/
theorem ofSong_parts {song : Song} {table : PatternTable} (h : ofSong song = .ok table)
    (rows : 0 < song.score.rowsPerPattern) :
    ∃ entries places,
      addTracks [] (song.score.tracks.map (trackPatterns song.score)) = (entries, places) ∧
      entries.length ≤ capacity ∧
      table.patterns = (silentFirst (entries.map (·.map (·.getD Note.release))) places).1 ∧
      table.orders = (silentFirst (entries.map (·.map (·.getD Note.release))) places).2.map
        (·.map Nat.toUInt8) ∧
      table.rowsPerPattern = song.score.rowsPerPattern := by
  unfold ofSong at h
  simp only [if_neg (show song.score.rowsPerPattern ≠ 0 by omega)] at h
  split at h
  · cases h
  · rename_i few
    cases h
    exact ⟨_, _, rfl, Nat.le_of_not_lt few, rfl, rfl, rfl⟩

/-- What is in the table of a song: for each track, a list of places; the pattern at each of
them is that of an entry of cells. -/
theorem ofSong_ok {song : Song} {table : PatternTable} (h : ofSong song = .ok table)
    (rows : 0 < song.score.rowsPerPattern) :
    table.rowsPerPattern = song.score.rowsPerPattern ∧ table.patterns.length ≤ capacity ∧
      ∃ rename : Nat → Nat, Function.Involutive rename ∧
        table.orders =
          (addTracks [] (song.score.tracks.map (trackPatterns song.score))).2.map
            (·.map fun place => (rename place).toUInt8) ∧
        ∀ place, table.patterns[rename place]? =
          ((addTracks [] (song.score.tracks.map (trackPatterns song.score))).1[place]?).map
            (·.map (·.getD Note.release)) := by
  obtain ⟨entries, places, added, few, hpatterns, horders, same⟩ := ofSong_parts h rows
  obtain ⟨rename, twice, orders, patterns, length⟩ :=
    silentFirst_renames (entries.map (·.map (·.getD Note.release))) places
  rw [added]
  refine ⟨same, ?_, rename, twice, ?_, fun place => ?_⟩
  · rw [hpatterns, length, List.length_map]
    exact few
  · rw [horders, orders]
    simp [Function.comp_def]
  · rw [hpatterns, patterns, List.getElem?_map]

/-- A place of the table is a byte. -/
theorem ofSong_byte {song : Song} {table : PatternTable} (h : ofSong song = .ok table)
    (rows : 0 < song.score.rowsPerPattern) {place : Nat} (inside : place < table.patterns.length) :
    place.toUInt8.toNat = place := by
  obtain ⟨-, few, -⟩ := ofSong_ok h rows
  unfold capacity at few
  exact Nat.mod_eq_of_lt (by omega)

theorem trackPatterns_haveRows (score : Score) (track : Track) :
    HaveRows score.rowsPerPattern (trackPatterns score track) := by
  intro pattern hp
  rw [trackPatterns_eq] at hp
  obtain ⟨position, -, rfl⟩ := List.mem_map.mp hp
  simp

theorem tracks_haveRows (score : Score) : ∀ patterns ∈ score.tracks.map (trackPatterns score),
    HaveRows score.rowsPerPattern patterns := by
  intro patterns hp
  obtain ⟨track, -, rfl⟩ := List.mem_map.mp hp
  exact trackPatterns_haveRows score track

/-- The table of the whole score has entries of so many rows, and every track finds its patterns
there. -/
theorem addTracks_score (score : Score) :
    HaveRows score.rowsPerPattern (addTracks [] (score.tracks.map (trackPatterns score))).1 ∧
      List.Forall₂ (List.Forall₂ (Holds (addTracks [] (score.tracks.map (trackPatterns score))).1))
        (addTracks [] (score.tracks.map (trackPatterns score))).2
        (score.tracks.map (trackPatterns score)) := by
  have empty : HaveRows score.rowsPerPattern [] := fun _ hm => nomatch hm
  obtain ⟨grown, places⟩ := addTracks_holds empty (tracks_haveRows score)
  exact ⟨grown.rows, places⟩

theorem Cell.StandsFor.asGood {notes : Nat → Note} {row : Nat} {cell : Cell}
    (h : cell.StandsFor (cellAt notes row)) : AsGood notes row (cell.getD Note.release) := by
  unfold cellAt at h
  split at h
  · rename_i silent
    refine .inr ⟨silent.1, silent.2, ?_⟩
    cases cell with
    | none => decide
    | some n => exact h n rfl
  · rw [show cell = some _ from h]
    exact .inl rfl

/-- The table gives back the notes of every track, as good as they were. -/
theorem note_ofSong {song : Song} {table : PatternTable} (h : ofSong song = .ok table)
    {t row : Nat} {track : Track} (ht : song.score.tracks[t]? = some track)
    (hr : row < song.score.lengthInRows) :
    AsGood (song.score.trackNote track) row (table.note t row) := by
  have pos : 0 < song.score.rowsPerPattern := by
    unfold Score.lengthInRows at hr
    exact Nat.pos_of_ne_zero fun h0 => by simp [h0] at hr
  have position : row / song.score.rowsPerPattern < song.score.length :=
    Nat.div_lt_of_lt_mul hr
  have inside : row % song.score.rowsPerPattern < song.score.rowsPerPattern := Nat.mod_lt _ pos
  obtain ⟨rows, -, rename, -, orders, patterns⟩ := ofSong_ok h pos
  -- from the track to the pattern that it plays, and to the row of that
  obtain ⟨places, hplaces, stand⟩ := forall₂_getElem? (addTracks_score song.score).2
    (show _ = some (trackPatterns song.score track) by rw [List.getElem?_map, ht]; rfl)
  rw [trackPatterns_eq] at stand
  obtain ⟨place, hplace, entry, hentry, stand⟩ := forall₂_getElem? stand
    (by rw [List.getElem?_map, List.getElem?_range position]; rfl)
  obtain ⟨cell, hcell, stand⟩ := forall₂_getElem? stand
    (by rw [List.getElem?_map, List.getElem?_range inside]; rfl)
  simp only [Nat.div_add_mod'] at stand
  have named : table.patterns[rename place]? = some (entry.map (·.getD Note.release)) := by
    rw [patterns, hentry]
    rfl
  have byte := ofSong_byte h pos (List.getElem?_eq_some_iff.mp named).1
  have read : table.note t row = cell.getD Note.release := by
    unfold note
    simp only [rows, Nat.max_eq_left pos, orders, List.getElem?_map, hplaces, Option.map_some,
      Option.bind_eq_bind, Option.bind_some, hplace, byte, named, hcell, Option.getD_some]
  rw [read]
  exact stand.asGood

/-! ## The round trip -/

theorem getElem?_flatten (score : Score) (track : Track) {row : Nat}
    (hr : row < score.length * score.rowsPerPattern) :
    (flatten track score.length score.rowsPerPattern)[row]? = some (score.trackNote track row) := by
  rw [flatten_eq, List.getElem?_map, List.getElem?_range hr]
  rfl

/-- The last note before a row that is no hold, in the flattened notes. -/
theorem lastNote_flatten (score : Score) (track : Track) {row : Nat}
    (hr : row < score.length * score.rowsPerPattern) :
    (((flatten track score.length score.rowsPerPattern).take row).filter (· ≠ Note.hold)).getLast? =
      lastNote (score.trackNote track) row := by
  rw [flatten_eq, ← List.map_take, List.take_range, Nat.min_eq_left (Nat.le_of_lt hr)]
  rfl

/-- The table of a song gives back the flattened notes of all its tracks, whichever patterns
came to share an entry. Only after a release, where a hold and a release sound the same, one
of them may stand for the other. -/
theorem table_gives_back_notes {song : Song} {table : PatternTable}
    (encoded : ofSong song = .ok table) :
    ∀ t track, song.score.tracks[t]? = some track →
      let notes := flatten track song.score.length song.score.rowsPerPattern
      notes.length = song.score.length * song.score.rowsPerPattern ∧
      ∀ row n, notes[row]? = some n →
        if n ≤ Note.hold ∧ ((notes.take row).filter (· ≠ Note.hold)).getLast? = some Note.release then
          table.note t row = 0 ∨ table.note t row = 1
        else table.note t row = n := by
  intro t track ht notes
  have length : notes.length = song.score.length * song.score.rowsPerPattern := by
    show (flatten track _ _).length = _
    rw [flatten_eq, List.length_map, List.length_range]
  refine ⟨length, fun row n hn => ?_⟩
  have hr : row < song.score.length * song.score.rowsPerPattern :=
    length ▸ (List.getElem?_eq_some_iff.mp hn).1
  obtain rfl : song.score.trackNote track row = n :=
    Option.some.inj ((getElem?_flatten song.score track hr).symm.trans hn)
  have good := note_ofSong encoded ht (show row < song.score.lengthInRows by
    rwa [Score.lengthInRows, Nat.mul_comm])
  rw [lastNote_flatten song.score track hr]
  split
  · rename_i silent
    have quiet : table.note t row ≤ Note.hold := by
      rcases good with same | ⟨-, -, quiet⟩
      · rw [same]
        exact silent.1
      · exact quiet
    rcases Note.cases (table.note t row) with h | h | h
    · exact .inl h
    · exact .inr h
    · exact absurd quiet (UInt8.not_le.mpr h)
  · rename_i sounding
    rcases good with same | ⟨released, quiet, -⟩
    · exact same
    · exact absurd ⟨quiet, released⟩ sounding

/-- A song whose first track rests where the second one holds its note. The two patterns share
an entry, so the first track holds there as well. -/
def restingSong : Song where
  score := {
    rowsPerPattern := 2
    length := 2
    tracks := [
      { numVoices := 1, order := ⟨[0, -1]⟩, patterns := [⟨[64, 0]⟩] },
      { numVoices := 1, order := ⟨[0, 1]⟩, patterns := [⟨[70]⟩, ⟨[]⟩] }] }

theorem table_gives_back_notes_resting :
    ∃ table, ofSong restingSong = .ok table ∧ table.patterns.length = 3 ∧
      table.note 0 0 = 64 ∧ (table.note 0 2 = 0 ∨ table.note 0 2 = 1) ∧
      table.note 1 0 = 70 ∧ table.note 1 2 = 1 := by
  obtain ⟨table, encoded, patterns⟩ :
      ∃ table, ofSong restingSong = .ok table ∧ table.patterns.length = 3 := ⟨_, rfl, rfl⟩
  have back := table_gives_back_notes encoded
  obtain ⟨-, first⟩ := back 0 _ rfl
  obtain ⟨-, second⟩ := back 1 _ rfl
  exact ⟨table, encoded, patterns, first 0 64 rfl, first 2 0 rfl, second 0 70 rfl, second 2 1 rfl⟩

end ModularSynth.PatternTable
