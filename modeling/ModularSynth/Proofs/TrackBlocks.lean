-- Tracks keep to their own voices. In every row a track lets go of and triggers no voice but those
-- of its own block, whatever its notes are, so that no track disturbs what another one plays. Only
-- a track without voices has no block to keep to: it plays on the first voice after the blocks of
-- the tracks before it.
import ModularSynth.Proofs.PlayedScore

namespace ModularSynth

/-- The voice that an event is about. -/
def NoteEvent.voice : NoteEvent → Nat
  | .release voice => voice
  | .trigger voice _ => voice

namespace Playback

/-- What a row does on behalf of one of some tracks, given the notes of the row, the first voice of
all these tracks and the voices that they play. -/
def trackEvents (notes : Nat → Note) (first : Nat) (tracks : List Track) (voices : List Nat)
    (t : Nat) : List NoteEvent :=
  match tracks[t]?, voices[t]? with
  | some track, some current =>
    (noteEvents (first + total ((tracks.take t).map (·.numVoices))) track.numVoices current
      (notes t)).1
  | _, _ => []

/-! ## One track -/

/-- The voice is one of a block, or the one at its place if the block is empty. -/
def Within (first count voice : Nat) : Prop :=
  first ≤ voice ∧ voice < first + max count 1

section Track

variable {first count current voice : Nat}

theorem Within.inside (h : Within first count voice) (pos : 0 < count) :
    first ≤ voice ∧ voice < first + count := by
  unfold Within at h
  omega

theorem Within.eq_first (h : Within first 0 voice) : voice = first := by
  unfold Within at h
  omega

theorem nextVoice_within (h : Within first count current) :
    Within first count (nextVoice first count current) := by
  unfold Within nextVoice at *
  split <;> omega

/-- The events of a note, and the voice that the track plays then, stay where the track was. -/
theorem noteEvents_within (h : Within first count current) (n : Note) :
    (∀ e ∈ (noteEvents first count current n).1, Within first count e.voice) ∧
      Within first count (noteEvents first count current n).2 := by
  rcases n.cases with rfl | rfl | sounds
  · rw [noteEvents_release]
    simpa [NoteEvent.voice] using h
  · rw [noteEvents_hold]
    simpa using h
  · rw [noteEvents_noteOn sounds]
    simpa [NoteEvent.voice] using And.intro h (nextVoice_within h)

/-- A track does nothing just if it holds. -/
theorem noteEvents_eq_nil (n : Note) :
    (noteEvents first count current n).1 = [] ↔ n = Note.hold := by
  rcases n.cases with rfl | rfl | sounds
  · rw [noteEvents_release]
    simp [Note.release, Note.hold]
  · simp [noteEvents_hold]
  · have : n ≠ Note.hold := fun h => by simp [h] at sounds
    simp [noteEvents_noteOn sounds, this]

end Track

/-! ## All tracks -/

/-- Each track plays a voice of its block, where the blocks of the tracks follow each other. -/
def AllWithin : (first : Nat) → List Track → List Nat → Prop
  | first, t :: tracks, current :: voices =>
    Within first t.numVoices current ∧ AllWithin (first + t.numVoices) tracks voices
  | _, [], [] => True
  | _, _, _ => False

section Tracks

variable {notes : Nat → Note} {track first : Nat} {tracks : List Track} {voices : List Nat}

namespace AllWithin

/-- Before the first row each track plays the first voice of its block. -/
theorem start (tracks : List Track) (first : Nat) :
    AllWithin first tracks ((List.range tracks.length).map fun i =>
      first + total ((tracks.take i).map (·.numVoices))) := by
  induction tracks generalizing first with
  | nil => trivial
  | cons t tracks ih =>
    rw [List.length_cons, List.range_succ_eq_map, List.map_cons, List.map_map]
    have later := ih (first + t.numVoices)
    simp only [Nat.add_assoc] at later
    refine ⟨?_, by simpa [Function.comp_def] using later⟩
    simp only [Within, List.take_zero, List.map_nil, total_nil]
    omega

/-- The events of a row leave each track in its block. -/
theorem step (h : AllWithin first tracks voices) (notes : Nat → Note) (track : Nat) :
    AllWithin first tracks (rowEvents notes track first tracks voices).2 := by
  induction tracks generalizing track first voices with
  | nil =>
    cases voices with
    | nil => trivial
    | cons _ _ => cases h
  | cons t tracks ih =>
    cases voices with
    | nil => cases h
    | cons current voices =>
      exact ⟨(noteEvents_within h.1 (notes track)).2, ih h.2 (track + 1)⟩

/-- A track plays a voice of its block. -/
theorem block (h : AllWithin first tracks voices) {i : Nat} {t : Track} (ht : tracks[i]? = some t) :
    ∃ current, voices[i]? = some current ∧
      Within (first + total ((tracks.take i).map (·.numVoices))) t.numVoices current := by
  induction tracks generalizing first voices i with
  | nil => simp at ht
  | cons t' tracks ih =>
    cases voices with
    | nil => cases h
    | cons current voices =>
      cases i with
      | zero =>
        cases ht
        exact ⟨current, rfl, h.1⟩
      | succ i =>
        have later := ih h.2 ht
        rw [Nat.add_assoc first] at later
        exact later

end AllWithin

/-- The events of a row are those of its tracks in turn. -/
theorem rowEvents_eq (h : AllWithin first tracks voices) (notes : Nat → Note) (track : Nat) :
    (rowEvents notes track first tracks voices).1 =
      (List.range tracks.length).flatMap
        (trackEvents (fun i => notes (track + i)) first tracks voices) := by
  induction tracks generalizing track first voices with
  | nil => cases voices <;> rfl
  | cons t tracks ih =>
    cases voices with
    | nil => cases h
    | cons current voices =>
      have later : ∀ i, trackEvents (fun i => notes (track + i)) first (t :: tracks)
          (current :: voices) (i + 1) =
          trackEvents (fun i => notes (track + 1 + i)) (first + t.numVoices) tracks voices i := by
        intro i
        simp only [trackEvents, List.getElem?_cons_succ, List.take_succ_cons, List.map_cons,
          total_cons, Nat.add_assoc, Nat.add_comm 1]
      rw [rowEvents, List.length_cons, List.range_succ_eq_map, List.flatMap_cons, List.flatMap_map]
      simp only [later]
      rw [← ih h.2 (track + 1)]
      simp [trackEvents]

end Tracks

/-! ## Whole songs -/

variable {song : Song} {patterns : PatternTable}

theorem start_within (synth : AnySynth) (release : Bool) :
    AllWithin 0 song.score.tracks (start song synth release).voices := by
  have blocks := AllWithin.start song.score.tracks 0
  simp only [Nat.zero_add] at blocks
  exact blocks

theorem finishRow_voices {row : Nat} {s s' : Progression}
    (finished : finishRow song row s = .ok s') : s'.voices = s.voices := by
  unfold finishRow at finished
  split at finished
  · cases finished
  · cases finished
  · cases finished
    rfl

/-- Each track is in its block before every row that is reached. -/
theorem playRows_within {rows row : Nat} {s s' : Progression}
    (h : AllWithin 0 song.score.tracks s.voices)
    (played : playRows song patterns rows row s = .ok s') :
    AllWithin 0 song.score.tracks s'.voices := by
  induction rows generalizing row s with
  | zero =>
    cases played
    exact h
  | succ rows ih =>
    obtain ⟨after, finished, later⟩ := bind_eq_ok played
    apply ih _ later
    rw [finishRow_voices finished]
    exact h.step (patterns.note · row) 0

theorem total_take_mono (ns : List Nat) {i j : Nat} (h : i ≤ j) :
    total (ns.take i) ≤ total (ns.take j) := by
  obtain ⟨d, rfl⟩ := Nat.exists_eq_add_of_le h
  rw [List.take_add, total_append]
  omega

/-- The block of a track lies before those of all later tracks. -/
theorem firstVoice_later {score : Score} {i j : Nat} {t : Track} (hi : score.tracks[i]? = some t)
    (h : i < j) : score.firstVoice i + t.numVoices ≤ score.firstVoice j := by
  have next : score.firstVoice (i + 1) = score.firstVoice i + t.numVoices := by
    simp [Score.firstVoice, List.take_add_one, hi]
  rw [← next]
  simp only [Score.firstVoice, List.map_take]
  exact total_take_mono _ h

/-- Every track of a song that is played keeps to its own voices, in every row and on any synth.
The events of a row are those on behalf of its tracks in turn, and a track without events is one
that holds. A track that has voices addresses those of its block only, which are voices of the
patch; one that has none addresses the voice after the blocks before it. So the block of a track
is disturbed by no other track, except that a track without voices which stands before it may
address its first voice. -/
theorem rows_keep_to_blocks {song : Song} {patterns : PatternTable} {synth : AnySynth}
    {release : Bool} {r : Nat} {s : Progression} (valid : song.validate = .ok ())
    (reached : playRows song patterns r 0 (start song synth release) = .ok s) :
    let events := trackEvents (patterns.note · r) 0 song.score.tracks s.voices
    (startRow song patterns r s).synth =
        ((List.range song.score.tracks.length).flatMap events).foldl AnySynth.apply s.synth ∧
      (∀ t track, song.score.tracks[t]? = some track →
        (events t = [] ↔ patterns.note t r = Note.hold) ∧
        ∀ e ∈ events t,
          (0 < track.numVoices → song.score.firstVoice t ≤ e.voice ∧
            e.voice < song.score.firstVoice t + track.numVoices ∧ e.voice < song.patch.numVoices) ∧
          (track.numVoices = 0 → e.voice = song.score.firstVoice t)) ∧
      ∀ t track voice, song.score.tracks[t]? = some track → song.score.firstVoice t ≤ voice →
        voice < song.score.firstVoice t + track.numVoices →
        ∀ t' ≠ t, ∀ e ∈ events t', e.voice = voice →
          voice = song.score.firstVoice t ∧ t' < t ∧
            ∃ other, song.score.tracks[t']? = some other ∧ other.numVoices = 0 := by
  intro events
  have inside := playRows_within (start_within synth release) reached
  have own : ∀ t track, song.score.tracks[t]? = some track →
      (events t = [] ↔ patterns.note t r = Note.hold) ∧
        ∀ e ∈ events t, Within (song.score.firstVoice t) track.numVoices e.voice := by
    intro t track ht
    obtain ⟨current, hc, within⟩ := inside.block ht
    have here : events t = (noteEvents (song.score.firstVoice t) track.numVoices current
        (patterns.note t r)).1 := by
      simp only [events, trackEvents, ht, hc, Nat.zero_add, Score.firstVoice]
    rw [Nat.zero_add] at within
    rw [here]
    exact ⟨noteEvents_eq_nil _, (noteEvents_within within _).1⟩
  refine ⟨?_, ?_, ?_⟩
  · have turns := rowEvents_eq inside (patterns.note · r) 0
    simp only [Nat.zero_add] at turns
    simp only [startRow]
    rw [turns]
  · intro t track ht
    obtain ⟨silent, within⟩ := own t track ht
    refine ⟨silent, fun e he => ⟨fun pos => ?_, fun none => ?_⟩⟩
    · obtain ⟨low, high⟩ := (within e he).inside pos
      have last := firstVoice_later ht (List.getElem?_eq_some_iff.mp ht).1
      have all : song.score.firstVoice song.score.tracks.length = song.score.numVoices := by
        rw [Score.firstVoice, List.take_length, Score.numVoices]
      have few := song.validate_voices valid
      exact ⟨low, high, by omega⟩
    · have there := within e he
      rw [none] at there
      exact there.eq_first
  · intro t track voice ht low high t' apart e he same
    obtain ⟨other, ht'⟩ : ∃ other, song.score.tracks[t']? = some other := by
      cases ho : song.score.tracks[t']? with
      | some other => exact ⟨other, rfl⟩
      | none => simp [events, trackEvents, ho] at he
    have there := (own t' other ht').2 e he
    rw [same] at there
    unfold Within at there
    rcases Nat.lt_or_gt_of_ne apart with before | after
    · have order := firstVoice_later ht' before
      exact ⟨by omega, before, other, ht', by omega⟩
    · have order := firstVoice_later ht after
      omega

/-- A song whose second track has no voices, but notes. -/
def voicelessSong : Song where
  bpm := 1323000
  rowsPerBeat := 1
  score := {
    rowsPerPattern := 2
    length := 1
    tracks := [
      { numVoices := 2, order := ⟨[0]⟩, patterns := [⟨[64, 66]⟩] },
      { numVoices := 0, order := ⟨[0]⟩, patterns := [⟨[68, 69]⟩] },
      { numVoices := 1, order := ⟨[0]⟩, patterns := [⟨[70, 1]⟩] }] }
  patch := { instruments := [{ numVoices := 3, units := [
    { kindName := "loadnote", settings := .ofEntries [] },
    { kindName := "out", settings := .ofEntries [("gain", 64)] }] }] }

theorem rows_keep_to_blocks_voiceless :
    ∃ patterns synth s, PatternTable.ofSong voicelessSong = .ok patterns ∧
      Synth.create {} voicelessSong.patch voicelessSong.bpm = .ok synth ∧
      playRows voicelessSong patterns 1 0 (start voicelessSong (.single synth) true) = .ok s ∧
      let events := trackEvents (patterns.note · 1) 0 voicelessSong.score.tracks s.voices
      events 0 ≠ [] ∧ (∀ e ∈ events 0, e.voice < 2) ∧
        events 1 ≠ [] ∧ (∀ e ∈ events 1, e.voice = 2) ∧ events 2 = [] := by
  have runs : ((PatternTable.ofSong voicelessSong).toOption.bind fun patterns =>
      (Synth.create {} voicelessSong.patch voicelessSong.bpm).toOption.bind fun synth =>
        (playRows voicelessSong patterns 1 0
          (start voicelessSong (.single synth) true)).toOption).isSome = true := by decide +kernel
  have notes : (PatternTable.ofSong voicelessSong).toOption.map
      (fun patterns => (patterns.note 0 1, patterns.note 1 1, patterns.note 2 1)) =
        some (66, 69, 1) := by
    decide +kernel
  cases encoded : PatternTable.ofSong voicelessSong with
  | error e =>
    rw [encoded] at runs
    cases runs
  | ok patterns =>
    cases accepted : Synth.create {} voicelessSong.patch voicelessSong.bpm with
    | error e =>
      rw [encoded, accepted] at runs
      cases runs
    | ok synth =>
      rw [encoded, accepted] at runs
      rw [encoded] at notes
      cases reached : playRows voicelessSong patterns 1 0
          (start voicelessSong (.single synth) true) with
      | error e => simp [Except.toOption, reached] at runs
      | ok s =>
        obtain ⟨-, own, -⟩ := rows_keep_to_blocks rfl reached
        obtain ⟨sounds, first⟩ := own 0 _ rfl
        obtain ⟨plays, second⟩ := own 1 _ rfl
        obtain ⟨holds, -⟩ := own 2 _ rfl
        simp only [Except.toOption, Option.map_some, Option.some.injEq, Prod.mk.injEq] at notes
        obtain ⟨note0, note1, note2⟩ := notes
        refine ⟨patterns, synth, s, rfl, rfl, reached, ?_, ?_, ?_, ?_, ?_⟩
        · rw [ne_eq, sounds, note0]
          decide
        · intro e he
          exact ((first e he).1 (by decide)).2.1
        · rw [ne_eq, plays, note1]
          decide
        · intro e he
          exact (second e he).2 rfl
        · rw [holds, note2]
          rfl

end Playback

end ModularSynth
