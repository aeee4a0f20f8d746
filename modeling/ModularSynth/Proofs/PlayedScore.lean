-- Playing a song realises its score. The table of patterns may hold where the score lets
-- go, and rendering goes on between the rows; still, before every row each voice plays
-- what it would if the notes of the score were played and nothing else.
import ModularSynth.Proofs.Assembled
import ModularSynth.Proofs.KeysKept
import ModularSynth.Proofs.PatternCover
import ModularSynth.Proofs.TrackVoices

namespace ModularSynth

open Playback NoteEvent

/-! ## The score alone -/

/-- The notes of the tracks of a score, row by row. -/
def Score.notes (score : Score) (t row : Nat) : Note :=
  match score.tracks[t]? with
  | none => Note.release
  | some track => score.trackNote track row

theorem Score.notes_eq (score : Score) {t : Nat} {track : Track}
    (ht : score.tracks[t]? = some track) : score.notes t = score.trackNote track := by
  funext row
  rw [notes, ht]

/-- The keys after the first rows of a score, if its notes are played and nothing else, and
the voices that the tracks have come to. -/
def Score.keysAfter (score : Score) : (rows : Nat) → Keyboard × List Nat
  | 0 => (fun _ => {}, firstVoices score)
  | rows + 1 =>
    let (keys, voices) := score.keysAfter rows
    let (events, voices) := rowEvents (score.notes · rows) 0 0 score.tracks voices
    (pressAll keys events, voices)

theorem Score.keysAfter_sounding {score : Score} (p : Playable 0 score.tracks) (rows : Nat) :
    AllSounding score.notes rows (score.keysAfter rows).1 0 0 score.tracks
      (score.keysAfter rows).2 := by
  induction rows with
  | zero =>
    have start : AllSounding score.notes 0 _ 0 0 score.tracks _ := .start score.tracks 0 0
    simp only [Nat.zero_add] at start
    exact start
  | succ rows ih => exact ih.step p

/-! ## A single synth -/

theorem Machine.fresh_key (lines : Nat) : (Machine.fresh lines).key = fun _ => {} := by
  funext v
  have voice : (Machine.fresh lines).voice v = {} := by
    simp only [Machine.voice, Machine.fresh, Vector.getElem?_replicate]
    split <;> rfl
  rw [Machine.key, voice]

/-- The keys of a synth that plays on one core. -/
def AnySynth.HasKeys (s : AnySynth) (keys : Keyboard) : Prop :=
  ∃ synth : Synth, s = .single synth ∧ synth.machine.key = keys

namespace AnySynth.HasKeys

variable {s : AnySynth} {keys : Keyboard}

theorem apply (h : s.HasKeys keys) (e : NoteEvent) : (s.apply e).HasKeys (e.press keys) := by
  obtain ⟨synth, rfl, rfl⟩ := h
  cases e with
  | release voice => exact ⟨_, rfl, synth.machine.key_release voice⟩
  | trigger voice note => exact ⟨_, rfl, synth.machine.key_trigger voice note⟩

theorem applyAll (h : s.HasKeys keys) (events : List NoteEvent) :
    (events.foldl AnySynth.apply s).HasKeys (pressAll keys events) := by
  induction events generalizing s keys with
  | nil => exact h
  | cons e events ih => exact ih (h.apply e)

theorem render (h : s.HasKeys keys) (buffer : Audio) (maxTime : Int) :
    (s.render buffer maxTime).1.HasKeys keys := by
  obtain ⟨synth, rfl, rfl⟩ := h
  exact ⟨_, rfl, funext (synth.render_keeps buffer maxTime)⟩

/-- To let go of voices before anything is played changes nothing. -/
theorem releaseAll (h : s.HasKeys fun _ => {}) (voices : List Nat) :
    (voices.foldl AnySynth.release s).HasKeys fun _ => {} := by
  induction voices generalizing s with
  | nil => exact h
  | cons voice voices ih =>
    refine ih ?_
    have released := h.apply (.release voice)
    rwa [press_release_silent rfl] at released

end AnySynth.HasKeys

namespace Playback

/-! ## Rows -/

theorem renderRow_keeps {samples tries rowTime : Nat} {synth synth' : AnySynth}
    {done done' : List Audio} {keys : Keyboard} (h : synth.HasKeys keys)
    (rendered : renderRow samples tries rowTime synth done = .ok (some (synth', done'))) :
    synth'.HasKeys keys := by
  induction tries generalizing rowTime synth done with
  | zero =>
    rw [renderRow] at rendered
    split at rendered
    · cases rendered
    · cases rendered
      exact h
  | succ tries ih =>
    rw [renderRow] at rendered
    split at rendered
    · simp only at rendered
      split at rendered
      · cases rendered
      · exact ih (h.render _ _) rendered
    · cases rendered
      exact h

/-- The middle of a song at which the first rows of its score have been played. -/
structure Realises (score : Score) (rows : Nat) (s : Progression) : Prop where
  keys : s.synth.HasKeys (score.keysAfter rows).1
  voices : s.voices = (score.keysAfter rows).2

variable {song : Song} {patterns : PatternTable}

theorem start_realises {synth : AnySynth} (h : synth.HasKeys fun _ => {}) (release : Bool) :
    Realises song.score 0 (start song synth release) := by
  refine ⟨?_, rfl⟩
  cases release
  · exact h
  · exact h.releaseAll _

/-- The events of a row, with its notes from the table, are as good as those of the score. -/
theorem startRow_realises (encoded : PatternTable.ofSong song = .ok patterns)
    (p : Playable 0 song.score.tracks) {row : Nat} (hr : row < song.score.lengthInRows)
    {s : Progression} (h : Realises song.score row s) :
    Realises song.score (row + 1) (startRow song patterns row s) := by
  have good : ∀ i < song.score.tracks.length,
      AsGood (song.score.notes (0 + i)) row (patterns.note (0 + i) row) := by
    intro i hi
    have track := List.getElem?_eq_getElem hi
    rw [Nat.zero_add, song.score.notes_eq track]
    exact PatternTable.note_ofSong encoded track hr
  obtain ⟨sameKeys, sameVoices⟩ :=
    (song.score.keysAfter_sounding p row).asGood p (patterns.note · row) good
  have keys := h.keys.applyAll
    (rowEvents (patterns.note · row) 0 0 song.score.tracks s.voices).1
  rw [h.voices, sameKeys] at keys
  refine ⟨?_, ?_⟩
  · unfold startRow
    rw [h.voices]
    exact keys
  · unfold startRow
    rw [h.voices]
    exact sameVoices

theorem finishRow_realises {rows row : Nat} {s s' : Progression}
    (h : Realises song.score rows s) (finished : finishRow song row s = .ok s') :
    Realises song.score rows s' := by
  unfold finishRow at finished
  split at finished
  · cases finished
  · cases finished
  · rename_i rendered
    cases finished
    exact ⟨renderRow_keeps h.keys rendered, h.voices⟩

/-- To play rows in one go is to play the first of them and then the others. -/
theorem playRows_add (count more row : Nat) (s : Progression) :
    playRows song patterns (count + more) row s =
      playRows song patterns count row s >>= playRows song patterns more (row + count) := by
  induction count generalizing row s with
  | zero => rw [Nat.zero_add]; rfl
  | succ count ih =>
    rw [Nat.succ_add, playRows, playRows]
    cases finishRow song row (startRow song patterns row s) with
    | error e => rfl
    | ok s' =>
      have later := ih (row + 1) s'
      rw [show row + 1 + count = row + (count + 1) by omega] at later
      exact later

theorem playRows_realises (encoded : PatternTable.ofSong song = .ok patterns)
    (p : Playable 0 song.score.tracks) {rows : Nat} (hr : rows ≤ song.score.lengthInRows)
    {s s' : Progression} (h : Realises song.score 0 s)
    (played : playRows song patterns rows 0 s = .ok s') : Realises song.score rows s' := by
  induction rows generalizing s' with
  | zero =>
    cases played
    exact h
  | succ rows ih =>
    rw [playRows_add rows 1, Nat.zero_add] at played
    obtain ⟨before, hp, last⟩ := bind_eq_ok played
    obtain ⟨after, finished, ended⟩ := bind_eq_ok last
    cases ended
    have started := startRow_realises encoded p hr (ih (Nat.le_of_succ_le hr) hp)
    exact finishRow_realises started finished

end Playback

/-! ## Songs -/

theorem Synth.create_ok {options : SynthOptions} {patch : Patch} {bpm : Nat} {synth : Synth}
    (h : Synth.create options patch bpm = .ok synth) :
    patch.numVoices ≤ maxVoices ∧ synth.machine = .fresh patch.numDelayLines := by
  unfold Synth.create at h
  obtain ⟨bytecode, made, whole⟩ := bind_eq_ok h
  cases whole
  obtain ⟨assembled, compiled⟩ := Bytecode.compile_ok made
  exact ⟨compiled.few, rfl⟩

theorem Song.validate_voices {song : Song} (valid : song.validate = .ok ()) :
    song.score.numVoices ≤ song.patch.numVoices := by
  unfold Song.validate at valid
  split_ifs at valid with _ _ _ _ few
  exact Nat.le_of_not_lt few

/-- A song realises its score, on any patch that compiles and however its rows are rendered.
When the events of a row have happened, each voice plays and holds what it would if the notes
of the score were played and nothing else; and a track is at the voice that its note-ons so
far have brought it to, which plays the latest of them, and is held if the last note is a
note-on, while no other voice of its block is held. -/
theorem played_keys_realise_score {song : Song} {options : SynthOptions}
    {patterns : PatternTable} {synth : Synth} {release : Bool} {r : Nat} {s : Progression}
    (valid : song.validate = .ok ()) (voiced : ∀ track ∈ song.score.tracks, 1 ≤ track.numVoices)
    (encoded : PatternTable.ofSong song = .ok patterns)
    (accepted : Synth.create options song.patch song.bpm = .ok synth)
    (row : r < song.score.lengthInRows)
    (reached : playRows song patterns r 0 (start song (.single synth) release) = .ok s) :
    ∃ playing, (startRow song patterns r s).synth = .single playing ∧
      (∀ v, playing.machine.key v = (song.score.keysAfter (r + 1)).1 v) ∧
      ∀ t track, song.score.tracks[t]? = some track →
        let notes := song.score.trackNote track
        let first := song.score.firstVoice t
        let k := (noteOns notes (r + 1)).length
        let voice := first + k % track.numVoices
        (∀ v, first ≤ v → v < first + track.numVoices → v ≠ voice →
          (playing.machine.voice v).sustain = false) ∧
        ((playing.machine.voice voice).sustain = true ↔
          ∃ n, lastNote notes (r + 1) = some n ∧ Note.hold < n) ∧
        (0 < k → (noteOns notes (r + 1))[k - 1]? = some (playing.machine.voice voice).note) := by
  obtain ⟨few, fresh⟩ := Synth.create_ok accepted
  have voices := song.validate_voices valid
  have p : Playable 0 song.score.tracks :=
    ⟨voiced, by rw [Nat.zero_add]; exact voices.trans few⟩
  have initial : (AnySynth.single synth).HasKeys fun _ => {} :=
    ⟨synth, rfl, by rw [fresh, Machine.fresh_key]⟩
  have before := playRows_realises encoded p row.le (start_realises initial release) reached
  obtain ⟨playing, single, keys⟩ := (startRow_realises encoded p row before).keys
  refine ⟨playing, single, congrFun keys, fun t track ht => ?_⟩
  obtain ⟨current, sounding⟩ := (song.score.keysAfter_sounding p (r + 1)).block ht
  rw [← keys, Nat.zero_add, Nat.zero_add] at sounding
  obtain ⟨place, others, held, note⟩ := sounding
  rw [song.score.notes_eq ht] at place held note
  change current = song.score.firstVoice t + _ at place
  subst place
  refine ⟨others, held, fun pos => ?_⟩
  rw [← List.getLast?_eq_getElem?]
  cases hl : (noteOns (song.score.trackNote track) (r + 1)).getLast? with
  | none => simp [List.getLast?_eq_none_iff.mp hl] at pos
  | some n => rw [← note n hl]; rfl

/-- A song whose tracks share a pattern: while the first one holds its last note, the second
one rests, and since that has let go before, it may as well hold. -/
def sharingSong : Song where
  bpm := 1323000
  rowsPerBeat := 1
  score := {
    rowsPerPattern := 2
    length := 2
    tracks := [
      { numVoices := 2, order := ⟨[0, 1]⟩, patterns := [⟨[64, 66]⟩, ⟨[]⟩] },
      { numVoices := 1, order := ⟨[0, -1]⟩, patterns := [⟨[70, 0]⟩] }] }
  patch := { instruments := [{ numVoices := 3, units := [
    { kindName := "loadnote", settings := .ofEntries [] },
    { kindName := "out", settings := .ofEntries [("gain", 64)] }] }] }

theorem played_keys_realise_score_sharing :
    ∃ patterns synth s playing, PatternTable.ofSong sharingSong = .ok patterns ∧
      Synth.create {} sharingSong.patch sharingSong.bpm = .ok synth ∧
      playRows sharingSong patterns 3 0 (start sharingSong (.single synth) true) = .ok s ∧
      (startRow sharingSong patterns 3 s).synth = .single playing ∧
      playing.machine.key 0 = ⟨66, true⟩ ∧ playing.machine.key 1 = ⟨64, false⟩ ∧
      playing.machine.key 2 = ⟨70, false⟩ := by
  have runs : ((PatternTable.ofSong sharingSong).toOption.bind fun patterns =>
      (Synth.create {} sharingSong.patch sharingSong.bpm).toOption.bind fun synth =>
        (playRows sharingSong patterns 3 0
          (start sharingSong (.single synth) true)).toOption).isSome = true := by decide +kernel
  cases encoded : PatternTable.ofSong sharingSong with
  | error e =>
    rw [encoded] at runs
    cases runs
  | ok patterns =>
    cases accepted : Synth.create {} sharingSong.patch sharingSong.bpm with
    | error e =>
      rw [encoded, accepted] at runs
      cases runs
    | ok synth =>
      rw [encoded, accepted] at runs
      cases reached : playRows sharingSong patterns 3 0
          (start sharingSong (.single synth) true) with
      | error e =>
        simp [Except.toOption, reached] at runs
      | ok s =>
        obtain ⟨playing, single, keys, -⟩ := played_keys_realise_score rfl (by decide) encoded
          accepted (by decide) reached
        exact ⟨patterns, synth, s, playing, rfl, rfl, reached, single, (keys 0).trans rfl,
          (keys 1).trans rfl, (keys 2).trans rfl⟩

end ModularSynth
