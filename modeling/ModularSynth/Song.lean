-- Songs: a score of tracks, played by a patch. Each track plays its own block of
-- voices; the blocks follow each other in the order of the tracks.
import ModularSynth.Total
import ModularSynth.Patch.Basic

namespace ModularSynth

/-- Everything is rendered at this many frames per second. -/
def sampleRate : Nat := 44100

/-- A byte of a pattern: a note to play, or one of the two below. -/
abbrev Note := UInt8

/-- Lets go of the voice that a track plays. -/
def Note.release : Note := 0

/-- Leaves the voice that a track plays as it is. -/
def Note.hold : Note := 1

/-! ## Tracks -/

/-- The notes of some rows of a track. Rows past the end hold. -/
structure Pattern where
  notes : List Note := []
  deriving DecidableEq, Inhabited

namespace Pattern

def get (p : Pattern) (row : Nat) : Note :=
  p.notes[row]?.getD Note.hold

/-- Set the note of a row, with holds up to it if the pattern is shorter. -/
def set (p : Pattern) (row : Nat) (note : Note) : Pattern :=
  ⟨(p.notes ++ List.replicate (row + 1 - p.notes.length) Note.hold).set row note⟩

/-- The number of rows the pattern holds. -/
def length (p : Pattern) : Nat :=
  p.notes.length

end Pattern

/-- Which pattern a track plays at each position of the song. An entry below zero is a
rest, and so is a position past the end. -/
structure Order where
  entries : List Int := []
  deriving DecidableEq, Inhabited

namespace Order

/-- The entry at a position; a rest past the end. -/
def get (o : Order) (position : Nat) : Int :=
  o.entries[position]?.getD (-1)

def length (o : Order) : Nat :=
  o.entries.length

end Order

/-- The patterns of a track and the order they are played in. -/
structure Track where
  numVoices : Nat := 0
  /-- A hint for editors. -/
  effect : Bool := false
  order : Order := {}
  patterns : List Pattern := []
  deriving DecidableEq, Inhabited

/-! ## Scores -/

/-- The arrangement of the notes of a song. -/
structure Score where
  tracks : List Track := []
  rowsPerPattern : Nat := 0
  /-- The length of the song in patterns. -/
  length : Nat := 0
  deriving DecidableEq, Inhabited

namespace Score

-- The sums and the product below are meant for scores in which they fit into 64 bits. Where one
-- does not, a program that checks its arithmetic stops.

/-- The number of voices of all tracks, meant to be below 2^64. -/
def numVoices (s : Score) : Nat :=
  total (s.tracks.map (·.numVoices))

/-- The first voice of a track: the number of voices of the tracks before it, meant to be below
2^64. -/
def firstVoice (s : Score) (track : Nat) : Nat :=
  total ((s.tracks.take track).map (·.numVoices))

/-- The length of the song in rows, meant to be below 2^64. -/
def lengthInRows (s : Score) : Nat :=
  s.rowsPerPattern * s.length

end Score

/-! ## Songs -/

/-- Why a song cannot be played. -/
inductive SongError
  | invalidBpm
  | invalidRowsPerBeat
  | invalidRowsPerPattern
  | noTracks
  | tooManyTrackVoices (score patch : Nat)
  deriving DecidableEq, Repr, Inhabited

def SongError.message : SongError → String
  | .invalidBpm => "BPM should be > 0"
  | .invalidRowsPerBeat => "Rows per beat should be > 0"
  | .invalidRowsPerPattern => "Rows per pattern should be > 0"
  | .noTracks => "Song contains no tracks"
  | .tooManyTrackVoices score patch =>
    s!"Tracks use {score} voices, but the patch only has {patch}"

/-- A complete song. -/
structure Song where
  bpm : Nat := 0
  rowsPerBeat : Nat := 0
  score : Score := {}
  patch : Patch := {}
  deriving DecidableEq, Inhabited

namespace Song

/-- Fill in what song files may leave out: four rows per beat, and the length of the
first track's order. -/
def withDefaults (s : Song) : Song :=
  { s with
    rowsPerBeat := if s.rowsPerBeat = 0 then 4 else s.rowsPerBeat
    score := { s.score with
      length :=
        if s.score.length = 0 then (s.score.tracks.head?.map (·.order.length)).getD 0
        else s.score.length } }

/-- The number of frames of a row at the song's speed, of whose rows per minute the last 64 bits
count. -/
def samplesPerRow (s : Song) : Nat :=
  sampleRate * 60 / max (s.bpm * s.rowsPerBeat % UInt64.size) 1

/-- Can the song be played? The first reason against it counts. -/
def validate (s : Song) : Except SongError Unit :=
  if s.bpm < 1 then .error .invalidBpm
  else if s.rowsPerBeat < 1 then .error .invalidRowsPerBeat
  else if s.score.rowsPerPattern < 1 then .error .invalidRowsPerPattern
  else if s.score.tracks.isEmpty then .error .noTracks
  else if s.score.numVoices > s.patch.numVoices then
    .error (.tooManyTrackVoices s.score.numVoices s.patch.numVoices)
  else .ok ()

end Song

end ModularSynth
