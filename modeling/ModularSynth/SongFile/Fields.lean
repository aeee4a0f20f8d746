-- What a song file holds: the fields of songs and their parts, with the values that
-- stand for missing ones.
import ModularSynth.Song
import ModularSynth.SongFile.Document

namespace ModularSynth.SongFile

/-! ## Field names -/

/-- The fields of a song, in order. -/
def songFields : List FieldName :=
  [⟨"bpm", "BPM"⟩, ⟨"rowsperbeat", "RowsPerBeat"⟩, ⟨"score", "Score"⟩, ⟨"patch", "Patch"⟩]

/-- The fields of a score, in order. -/
def scoreFields : List FieldName :=
  [⟨"tracks", "Tracks"⟩, ⟨"rowsperpattern", "RowsPerPattern"⟩, ⟨"length", "Length"⟩]

/-- The fields of a track, in order. -/
def trackFields : List FieldName :=
  [⟨"numvoices", "NumVoices"⟩, ⟨"effect", "Effect"⟩, ⟨"order", "Order"⟩, ⟨"patterns", "Patterns"⟩]

/-- The fields of an instrument, in order. -/
def instrumentFields : List FieldName :=
  [⟨"name", "Name"⟩, ⟨"comment", "Comment"⟩, ⟨"numvoices", "NumVoices"⟩, ⟨"mute", "Mute"⟩,
    ⟨"threadmaskm1", "ThreadMaskM1"⟩, ⟨"units", "Units"⟩]

/-- The fields of a unit, in order. -/
def unitFields : List FieldName :=
  [⟨"type", "Type"⟩, ⟨"id", "ID"⟩, ⟨"parameters", "Parameters"⟩, ⟨"varargs", "VarArgs"⟩,
    ⟨"disabled", "Disabled"⟩, ⟨"comment", "Comment"⟩]

/-! ## Reading -/

namespace Document

variable {α : Type} (d : Document α)

/-- The parameter values of a unit. The last of a name stays. -/
def settings (a : α) : Reading Settings := do
  return (Settings.ofEntries (← d.map d.int32 a)).foldLegacy

def unit (a : α) : Reading PatchUnit := do
  let fs ← d.fields unitFields a
  return {
    kindName := ← field fs "type" "" d.text
    id := ← field fs "id" 0 d.int32
    settings := ← field fs "parameters" (default : Settings) d.settings
    varArgs := ← field fs "varargs" [] (d.list d.int32)
    disabled := ← field fs "disabled" false d.flag
    comment := ← field fs "comment" "" d.text }

def instrument (a : α) : Reading Instrument := do
  let fs ← d.fields instrumentFields a
  return {
    name := ← field fs "name" "" d.text
    comment := ← field fs "comment" "" d.text
    numVoices := ← field fs "numvoices" 1 (d.word 64)
    mute := ← field fs "mute" false d.flag
    coreMaskLessOne := (← field fs "threadmaskm1" 0 (d.word 32)).toUInt32
    units := ← field fs "units" [] (d.list d.unit) }

def patch (a : α) : Reading Patch := do
  return ⟨← d.list d.instrument a⟩

def pattern (a : α) : Reading Pattern := do
  return ⟨(← d.list (d.word 8) a).map (·.toUInt8)⟩

def order (a : α) : Reading Order := do
  return ⟨← d.list d.int32 a⟩

def track (a : α) : Reading Track := do
  let fs ← d.fields trackFields a
  return {
    numVoices := ← field fs "numvoices" 0 (d.word 64)
    effect := ← field fs "effect" false d.flag
    order := ← field fs "order" {} d.order
    patterns := ← field fs "patterns" [] (d.list d.pattern) }

def score (a : α) : Reading Score := do
  let fs ← d.fields scoreFields a
  return {
    tracks := ← field fs "tracks" [] (d.list d.track)
    rowsPerPattern := ← field fs "rowsperpattern" 0 (d.word 64)
    length := ← field fs "length" 0 (d.word 64) }

/-- A song as it stands in the file. -/
def song (a : α) : Reading Song := do
  let fs ← d.fields songFields a
  return {
    bpm := ← field fs "bpm" 0 (d.word 64)
    rowsPerBeat := ← field fs "rowsperbeat" 0 (d.word 64)
    score := ← field fs "score" {} d.score
    patch := ← field fs "patch" {} d.patch }

end Document

end ModularSynth.SongFile
