-- The notes of a song as a table of different patterns and, for each track, the order in
-- which it plays them. After a release it does not matter whether a row holds or
-- releases, so patterns that differ only there share an entry.
import ModularSynth.Song

namespace ModularSynth

/-- Why the notes of a song cannot be put into a table. -/
inductive PatternError
  | tooManyPatterns (count : Nat)
  deriving DecidableEq, Repr, Inhabited

def PatternError.message : PatternError → String
  | .tooManyPatterns count =>
    s!"The pattern table would need {count} unique patterns, but at most 256 are supported"

/-- The notes of a song: different patterns of one length, and the order of each track. -/
structure PatternTable where
  patterns : List (List Note)
  orders : List (List UInt8)
  rowsPerPattern : Nat
  deriving DecidableEq, Repr, Inhabited

namespace PatternTable

/-- The number of patterns an order entry can name. -/
def capacity : Nat := 256

/-- The note that a track plays in a row of the song; a release where there is none. -/
def note (t : PatternTable) (track row : Nat) : Note :=
  let rows := max t.rowsPerPattern 1
  let found := do
    let order ← t.orders[track]?
    let pattern ← order[row / rows]?
    let notes ← t.patterns[pattern.toNat]?
    notes[row % rows]?
  found.getD Note.release

/-! ## Flattening -/

/-- The notes of a track at a position of the song. A rest is all releases. -/
def notesAt (track : Track) (rows position : Nat) : List Note :=
  let entry := track.order.get position
  let pattern := if 0 ≤ entry then track.patterns[entry.toNat]? else none
  (List.range rows).map fun row =>
    match pattern with
    | some p => p.get row
    | none => Note.release

/-- Nothing can be held before the first row. -/
def releaseFirst : List Note → List Note
  | [] => []
  | n :: rest => (if n = Note.hold then Note.release else n) :: rest

/-- All notes of a track, row by row. -/
def flatten (track : Track) (length rows : Nat) : List Note :=
  releaseFirst ((List.range length).flatMap (notesAt track rows))

/-! ## Rows that do not matter -/

/-- A row of a pattern in the making: its note, or nothing where a hold and a release
sound the same. -/
abbrev Cell := Option Note

/-- Cells for notes. `silent` says whether the last note before them was a release. -/
def cells (silent : Bool) : List Note → List Cell
  | [] => []
  | n :: rest =>
    if silent ∧ n ≤ Note.hold then none :: cells true rest
    else some n :: cells (n = Note.release) rest

/-- Can one row stand for both cells? A cell that does not matter can become a hold or a
release, but no note. -/
def Cell.compatible : Cell → Cell → Bool
  | some n, some m => n == m
  | none, some m => m ≤ Note.hold
  | some n, none => n ≤ Note.hold
  | none, none => true

/-- Can one pattern stand for both? -/
def compatible (existing candidate : List Cell) : Bool :=
  (existing.zip candidate).all fun (n, m) => n.compatible m

/-- The pattern that stands for both of two compatible ones. -/
def merge (existing candidate : List Cell) : List Cell :=
  existing.zipWith (fun n m => m <|> n) candidate

/-! ## The table -/

/-- Add a pattern to a table: to the first entry that can stand for both, or as a new
entry. Gives the table and the place in it. -/
def add : List (List Cell) → List Cell → List (List Cell) × Nat
  | [], p => ([p], 0)
  | existing :: rest, p =>
    if compatible existing p then (merge existing p :: rest, 0)
    else let (rest, place) := add rest p; (existing :: rest, place + 1)

/-- Add patterns in turn. Gives the table and the place of each. -/
def addAll (table : List (List Cell)) : List (List Cell) → List (List Cell) × List Nat
  | [] => (table, [])
  | p :: rest =>
    let (table, place) := add table p
    let (table, places) := addAll table rest
    (table, place :: places)

/-- Cut rows into patterns. -/
def split (rows : Nat) : Nat → List Cell → List (List Cell)
  | 0, _ => []
  | count + 1, cells => cells.take rows :: split rows count (cells.drop rows)

/-- The patterns of a track in the order it plays them. -/
def trackPatterns (score : Score) (track : Track) : List (List Cell) :=
  split score.rowsPerPattern score.length
    (cells false (flatten track score.length score.rowsPerPattern))

/-- Add the patterns of tracks in turn. Gives the table and the places for each track. -/
def addTracks (table : List (List Cell)) :
    List (List (List Cell)) → List (List Cell) × List (List Nat)
  | [] => (table, [])
  | patterns :: rest =>
    let (table, places) := addAll table patterns
    let (table, orders) := addTracks table rest
    (table, places :: orders)

def swapPlaces {α : Type} (xs : List α) (i j : Nat) : List α :=
  match xs[i]?, xs[j]? with
  | some x, some y => (xs.set i y).set j x
  | _, _ => xs

/-- Put the silent pattern first, if there is one; it is likely the most common. -/
def silentFirst (patterns : List (List Note)) (orders : List (List Nat)) :
    List (List Note) × List (List Nat) :=
  match patterns.findIdx? (·.all (· == Note.release)) with
  | none => (patterns, orders)
  | some silent =>
    let rename := fun place => if place = 0 then silent else if place = silent then 0 else place
    (swapPlaces patterns 0 silent, orders.map (·.map rename))

/-- The pattern table of a song. Rows that still do not matter become releases. -/
def ofSong (song : Song) : Except PatternError PatternTable :=
  let score := song.score
  if score.rowsPerPattern = 0 then
    .ok ⟨[], score.tracks.map fun _ => [], 0⟩
  else
    let (table, orders) := addTracks [] (score.tracks.map (trackPatterns score))
    if table.length > capacity then .error (.tooManyPatterns table.length)
    else
      let patterns := table.map fun p => p.map (·.getD Note.release)
      let (patterns, orders) := silentFirst patterns orders
      .ok ⟨patterns, orders.map (·.map Nat.toUInt8), score.rowsPerPattern⟩

end PatternTable

end ModularSynth
