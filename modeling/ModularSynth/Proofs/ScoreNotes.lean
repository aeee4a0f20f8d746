-- The notes of a track as its score means them, row by row, and what of them matters: the
-- note-ons, and the last note that is no hold. The cells of the pattern table are read off
-- from these notes.
import Mathlib.Data.List.Basic
import ModularSynth.Tables.PatternTable

namespace ModularSynth

/-! ## The notes of a score -/

/-- The note that a track has in a row of a position. A position past the order, a negative
entry and an entry without a pattern are all release; rows past the end of a pattern hold. -/
def Track.noteAt (track : Track) (position row : Nat) : Note :=
  match track.order.entries[position]? with
  | none => Note.release
  | some entry =>
    if entry < 0 then Note.release
    else
      match track.patterns[entry.toNat]? with
      | none => Note.release
      | some pattern => pattern.notes[row]?.getD Note.hold

/-- The note of a track in a row of the song. A hold in the first row lets go. -/
def Score.trackNote (score : Score) (track : Track) (row : Nat) : Note :=
  let note := track.noteAt (row / score.rowsPerPattern) (row % score.rowsPerPattern)
  if row = 0 ∧ note = Note.hold then Note.release else note

/-- The note-ons among the first rows. -/
def noteOns (notes : Nat → Note) (rows : Nat) : List Note :=
  ((List.range rows).map notes).filter (Note.hold < ·)

/-- The last note of the first rows that is no hold. -/
def lastNote (notes : Nat → Note) (rows : Nat) : Option Note :=
  (((List.range rows).map notes).filter (· ≠ Note.hold)).getLast?

theorem noteOns_succ (notes : Nat → Note) (rows : Nat) :
    noteOns notes (rows + 1) =
      noteOns notes rows ++ if Note.hold < notes rows then [notes rows] else [] := by
  unfold noteOns
  rw [List.range_succ, List.map_append, List.filter_append]
  congr 1
  by_cases h : Note.hold < notes rows <;> simp [h]

theorem noteOns_rest {notes : Nat → Note} {rows : Nat} (h : notes rows ≤ Note.hold) :
    noteOns notes (rows + 1) = noteOns notes rows := by
  rw [noteOns_succ, if_neg (UInt8.not_lt.mpr h), List.append_nil]

theorem lastNote_succ (notes : Nat → Note) (rows : Nat) :
    lastNote notes (rows + 1) =
      if notes rows = Note.hold then lastNote notes rows else some (notes rows) := by
  unfold lastNote
  rw [List.range_succ, List.map_append, List.filter_append]
  by_cases h : notes rows = Note.hold <;> simp [h]

/-- A note is a release, a hold or a note-on. -/
theorem Note.cases (n : Note) : n = Note.release ∨ n = Note.hold ∨ Note.hold < n := by
  unfold Note.release Note.hold
  grind

/-- Is a note as good as the one that is due in a row? Where the last note is a release and
none starts, holding and letting go are the same. -/
def AsGood (notes : Nat → Note) (row : Nat) (n : Note) : Prop :=
  n = notes row ∨
    lastNote notes row = some Note.release ∧ notes row ≤ Note.hold ∧ n ≤ Note.hold

namespace PatternTable

/-! ## Flattening -/

theorem notesAt_eq (track : Track) (rows position : Nat) :
    notesAt track rows position = (List.range rows).map (track.noteAt position) := by
  unfold notesAt Order.get
  refine List.map_congr_left fun row _ => ?_
  unfold Track.noteAt
  cases ho : track.order.entries[position]? with
  | none => simp
  | some entry =>
    by_cases he : entry < 0
    · simp [he, show ¬ 0 ≤ entry by omega]
    · simp only [Option.getD_some, if_neg he, if_pos (show 0 ≤ entry by omega)]
      cases track.patterns[entry.toNat]? <;> rfl

/-- The rows of the positions of a song, one after the other. -/
theorem flatMap_rows {α : Type} (rows count : Nat) (f : Nat → Nat → α) :
    (List.range count).flatMap (fun position => (List.range rows).map (f position)) =
      (List.range (count * rows)).map fun row => f (row / rows) (row % rows) := by
  induction count with
  | zero => simp
  | succ count ih =>
    rw [List.range_succ, List.flatMap_append, ih, Nat.succ_mul, List.range_add, List.map_append]
    congr 1
    simp only [List.flatMap_singleton, List.map_map]
    refine List.map_congr_left fun row hr => ?_
    have lt : row < rows := List.mem_range.mp hr
    have pos : 0 < rows := by omega
    rw [Function.comp, Nat.add_comm, Nat.add_mul_div_right _ _ pos, Nat.div_eq_of_lt lt,
      Nat.add_mul_mod_self_right, Nat.mod_eq_of_lt lt, Nat.zero_add]

/-- Flattening gives the notes of the track, row by row. -/
theorem flatten_eq (score : Score) (track : Track) (length : Nat) :
    flatten track length score.rowsPerPattern =
      (List.range (length * score.rowsPerPattern)).map (score.trackNote track) := by
  have written := flatMap_rows score.rowsPerPattern length track.noteAt
  unfold flatten
  rw [show notesAt track score.rowsPerPattern =
      fun position => (List.range score.rowsPerPattern).map (track.noteAt position) from
    funext (notesAt_eq track _), written]
  cases length * score.rowsPerPattern with
  | zero => rfl
  | succ n =>
    rw [List.range_succ_eq_map, List.map_cons, List.map_cons, releaseFirst]
    simp [Score.trackNote]

/-! ## Cells -/

/-- The cell for a row of notes: nothing if the last note before is a release and this one
starts none. -/
def cellAt (notes : Nat → Note) (row : Nat) : Cell :=
  if lastNote notes row = some Note.release ∧ notes row ≤ Note.hold then none
  else some (notes row)

theorem cells_eq (notes : Nat → Note) (start count : Nat) :
    cells (lastNote notes start = some Note.release) ((List.range' start count).map notes) =
      (List.range' start count).map (cellAt notes) := by
  induction count generalizing start with
  | zero => rfl
  | succ count ih =>
    rw [List.range'_succ, List.map_cons, List.map_cons, cells, ← ih, lastNote_succ]
    unfold cellAt
    by_cases h : lastNote notes start = some Note.release ∧ notes start ≤ Note.hold
    · rcases Note.cases (notes start) with hn | hn | hn
      · simp [h, hn, Note.release, Note.hold]
      · simp [h, hn]
      · exact absurd h.2 (UInt8.not_le.mpr hn)
    · simp only [decide_eq_true_eq, if_neg h]
      by_cases hn : notes start = Note.hold
      · have sounding : lastNote notes start ≠ some Note.release :=
          fun hl => h ⟨hl, UInt8.le_of_eq hn⟩
        simp [hn, sounding, show Note.hold ≠ Note.release by decide]
      · simp [hn]

theorem split_eq (rows count : Nat) (f : Nat → Cell) :
    split rows count ((List.range (count * rows)).map f) =
      (List.range count).map fun position =>
        (List.range rows).map fun row => f (position * rows + row) := by
  induction count generalizing f with
  | zero => rfl
  | succ count ih =>
    have first : ((List.range rows).map f).length = rows := by simp
    rw [split, Nat.succ_mul, Nat.add_comm, List.range_add, List.map_append,
      List.take_left' first, List.drop_left' first, List.map_map, ih, List.range_succ_eq_map,
      List.map_cons, List.map_map]
    congr 1
    · simp
    · refine List.map_congr_left fun position _ => List.map_congr_left fun row _ => ?_
      simp only [Function.comp, Nat.succ_mul]
      congr 1
      omega

/-- The patterns of a track cut its cells into positions. -/
theorem trackPatterns_eq (score : Score) (track : Track) :
    trackPatterns score track =
      (List.range score.length).map fun position =>
        (List.range score.rowsPerPattern).map fun row =>
          cellAt (score.trackNote track) (position * score.rowsPerPattern + row) := by
  have marked := cells_eq (score.trackNote track) 0 (score.length * score.rowsPerPattern)
  rw [← List.range_eq_range'] at marked
  rw [trackPatterns, flatten_eq, ← split_eq, ← marked]
  rfl

end PatternTable

end ModularSynth
