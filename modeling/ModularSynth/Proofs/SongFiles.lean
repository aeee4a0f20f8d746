-- Song files, there and back. A song is written as JSON that is read back as the song, with what
-- files may leave out filled in; and a song that was read, from JSON or from YAML, has nothing left
-- to fill in or to fold, so that it comes back as it is.
import ModularSynth.Proofs.WrittenSongs
import ModularSynth.SongFile.Read
import ModularSynth.SongFile.Write

namespace ModularSynth

namespace Song

/-! ## Defaults -/

theorem withDefaults_fits {s : Song} (fits : s.Fits)
    (length : IsWord64 s.withDefaults.score.length) : s.withDefaults.Fits := by
  refine ⟨fits.bpm, ?_, ⟨fits.score.tracks, fits.score.rowsPerPattern, length⟩, fits.patch⟩
  unfold withDefaults
  dsimp only
  split
  · decide
  · exact fits.rowsPerBeat

/-- What has been filled in is not filled in again. -/
theorem withDefaults_withDefaults (s : Song) : s.withDefaults.withDefaults = s.withDefaults := by
  obtain ⟨bpm, rowsPerBeat, ⟨tracks, rowsPerPattern, length⟩, patch⟩ := s
  unfold withDefaults
  simp only [mk.injEq, Score.mk.injEq, true_and, and_true]
  constructor
  · split
    · rfl
    · rfl
  · split
    · split
      · rfl
      · rfl
    · rfl

/-! ## There and back -/

open SongFile

/-- A song is read back from its JSON text, with what files may leave out filled in. -/
theorem ofFile?_json {s : Song} (fits : s.Fits) (folded : s.IsFolded) :
    Song.ofFile? s.json.toUTF8.toList = some s.withDefaults := by
  have value : Json.Value.ofBytes? s.json.toUTF8.toList = some (songToJson s) :=
    Json.ofBytes?_render (spelled_song s)
  have read : songOfJson? s.json.toUTF8.toList = some s := by
    unfold songOfJson?
    rw [value]
    exact (reads_song fits folded).within 0
  unfold Song.ofFile?
  rw [read]
  rfl

/-- What is read from a file fits its fields and has been folded, before it is filled in. -/
theorem read_of_ofFile? {contents : List UInt8} {s : Song} (h : Song.ofFile? contents = some s) :
    ∃ r : Song, r.Fits ∧ r.IsFolded ∧ s = r.withDefaults := by
  unfold Song.ofFile? at h
  obtain ⟨r, read, rfl⟩ := Option.map_eq_some_iff.mp h
  suffices r.Fits ∧ r.IsFolded from ⟨r, this.1, this.2, rfl⟩
  rcases Option.or_eq_some_iff.mp read with json | ⟨-, yaml⟩
  · unfold songOfJson? at json
    obtain ⟨v, -, given⟩ := Option.bind_eq_some_iff.mp json
    exact (jsonDocument.yields_song v).within given
  · unfold songOfYaml? at yaml
    obtain ⟨text, -, given⟩ := Option.bind_eq_some_iff.mp yaml
    obtain ⟨g, -, given⟩ := Option.bind_eq_some_iff.mp given
    exact ((yamlDocument g).yields_song g.root).within given

/-- Song files, there and back. Any song whose numbers fit its fields, and whose units set no name
of old patches, is read back from its JSON text as it is with the defaults filled in. And whatever a
file holds, the song that is read from it is read back from its own JSON text just as it is: missing
fields, old filter bands and defaults have all been seen to, once and for all. (The length of a song
in memory is always a number of 64 bits.) -/
theorem song_files_round_trip :
    (∀ s : Song, s.Fits → s.IsFolded →
      Song.ofFile? s.json.toUTF8.toList = some s.withDefaults) ∧
    ∀ contents s, Song.ofFile? contents = some s → IsWord64 s.score.length →
      Song.ofFile? s.json.toUTF8.toList = some s := by
  refine ⟨fun s fits folded => ofFile?_json fits folded, ?_⟩
  intro contents s read length
  obtain ⟨r, fits, folded, rfl⟩ := read_of_ofFile? read
  rw [ofFile?_json (withDefaults_fits fits length) folded, withDefaults_withDefaults]

/-- A song file that leaves out much, with a filter from an old patch. -/
def oldFile : String :=
  "\x7b\"BPM\": 90, \"score\": \x7b\"rowsperpattern\": 2, \"tracks\": [" ++
    "\x7b\"order\": [0, -1, 0], \"patterns\": [[64, 1]]\x7d]\x7d, \"patch\": [" ++
    "\x7b\"units\": [\x7b\"type\": \"filter\", \"parameters\": " ++
    "\x7b\"negbandpass\": 2, \"bandpass\": 1\x7d\x7d]\x7d]\x7d"

/-- The song in that file. -/
def oldSong : Song where
  bpm := 90
  rowsPerBeat := 4
  score := {
    tracks := [{ order := ⟨[0, -1, 0]⟩, patterns := [⟨[64, 1]⟩] }]
    rowsPerPattern := 2
    length := 3 }
  patch := ⟨[{ units := [{ kindName := "filter", settings := .ofEntries [("bandpass", -1)] }] }]⟩

/-- A song with a comment to be quoted, on four cores. -/
def quotedSong : Song where
  patch := ⟨[{
    comment := "say \"la\"\n"
    coreMaskLessOne := 14
    units := [{
      id := -7
      settings := .ofEntries [("drive", 64)]
      varArgs := [5]
      disabled := true }] }]⟩

theorem song_files_round_trip_old :
    Song.ofFile? oldFile.toUTF8.toList = some oldSong ∧ oldSong.score.length = 3 ∧
      Song.ofFile? oldSong.json.toUTF8.toList = some oldSong ∧ quotedSong.Fits ∧
      quotedSong.IsFolded ∧
      Song.ofFile? quotedSong.json.toUTF8.toList = some { quotedSong with rowsPerBeat := 4 } := by
  have read : Song.ofFile? oldFile.toUTF8.toList = some oldSong := by decide +kernel
  have fits : quotedSong.Fits := by
    refine ⟨by decide, by decide, ⟨?_, by decide, by decide⟩, ?_⟩
    · intro t mem
      cases mem
    · intro i mem
      rw [List.mem_singleton.mp mem]
      refine ⟨by decide, ?_⟩
      intro u mem
      rw [List.mem_singleton.mp mem]
      exact ⟨by decide, by decide, by decide⟩
  have folded : quotedSong.IsFolded := by
    intro i mem u mem'
    rw [List.mem_singleton.mp mem] at mem'
    rw [List.mem_singleton.mp mem']
    decide
  exact ⟨read, rfl, song_files_round_trip.2 _ _ read (by decide), fits, folded,
    song_files_round_trip.1 quotedSong fits folded⟩

end Song

end ModularSynth
