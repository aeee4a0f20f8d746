-- The voices of the tracks while a score is played. A track goes around its block of
-- voices, one further with each note-on; at most the voice it has come to is held, and no
-- track touches the block of another. So rows that do not matter may hold or let go.
import ModularSynth.Playback
import ModularSynth.Proofs.MachineState
import ModularSynth.Proofs.ScoreNotes

namespace ModularSynth

/-! ## Events on keys -/

/-- What is played on each voice. -/
abbrev Keyboard := Nat → Key

namespace NoteEvent

/-- What an event does to the keys of a machine. Voices that it does not have stay as they
are. -/
def press (e : NoteEvent) (keys : Keyboard) (v : Nat) : Key :=
  match e with
  | .release voice =>
    if voice = v ∧ v < maxVoices then { keys v with sustain := false } else keys v
  | .trigger voice note => if voice = v ∧ v < maxVoices then ⟨note, true⟩ else keys v

/-- What events in turn do to the keys. -/
def pressAll (keys : Keyboard) (events : List NoteEvent) : Keyboard :=
  events.foldl (fun keys e => e.press keys) keys

@[simp]
theorem pressAll_append (keys : Keyboard) (events later : List NoteEvent) :
    pressAll keys (events ++ later) = pressAll (pressAll keys events) later :=
  List.foldl_append

/-- To let go of a key that is not held changes nothing. -/
theorem press_release_silent {keys : Keyboard} {voice : Nat}
    (h : (keys voice).sustain = false) : (NoteEvent.release voice).press keys = keys := by
  funext v
  simp only [press]
  split
  · rename_i hv
    obtain ⟨rfl, -⟩ := hv
    rw [← h]
  · rfl

end NoteEvent

namespace Machine

theorem key_release (m : Machine) (v : Nat) :
    (m.release v).key = (NoteEvent.release v).press m.key := by
  funext w
  simp only [NoteEvent.press]
  unfold key release
  rw [voice_adjustVoice]
  split <;> rfl

theorem key_trigger (m : Machine) (v : Nat) (note : Note) :
    (m.trigger v note).key = (NoteEvent.trigger v note).press m.key := by
  funext w
  simp only [NoteEvent.press]
  unfold key trigger
  rw [voice_adjustVoice]
  split <;> rfl

end Machine

namespace Playback

open NoteEvent

/-! ## One track -/

/-- Where a track is after some rows of its notes: it has gone around its voices once for each
note-on, only the voice it has come to may be held, that one is held if the last note is a
note-on, and it plays the latest note-on. -/
structure Sounding (notes : Nat → Note) (rows : Nat) (keys : Keyboard)
    (first count current : Nat) : Prop where
  place : current = first + (noteOns notes rows).length % count
  others : ∀ v, first ≤ v → v < first + count → v ≠ current → (keys v).sustain = false
  held : (keys current).sustain = true ↔ ∃ n ∈ lastNote notes rows, Note.hold < n
  note : ∀ n ∈ (noteOns notes rows).getLast?, (keys current).note = n

section Track

variable {notes : Nat → Note} {rows : Nat} {keys : Keyboard} {first count current : Nat}

theorem noteEvents_release :
    noteEvents first count current Note.release = ([.release current], current) := rfl

theorem noteEvents_hold : noteEvents first count current Note.hold = ([], current) := rfl

theorem noteEvents_noteOn {n : Note} (hn : Note.hold < n) :
    noteEvents first count current n =
      ([.release current, .trigger (nextVoice first count current) n],
        nextVoice first count current) := by
  have hold : n ≠ Note.hold := fun h => by simp [h] at hn
  have release : n ≠ Note.release := fun h => by simp [h, Note.release, Note.hold] at hn
  simp [noteEvents, hold, release]

theorem nextVoice_eq (first : Nat) (pos : 0 < count) (k : Nat) :
    nextVoice first count (first + k % count) = first + (k + 1) % count := by
  have lt := Nat.mod_lt k pos
  rw [nextVoice, ← Nat.mod_add_mod]
  by_cases h : k % count + 1 = count
  · rw [if_pos (by omega), h, Nat.mod_self, Nat.add_zero]
  · have within : k % count + 1 < count := by omega
    rw [if_neg (by omega), Nat.mod_eq_of_lt within, Nat.add_assoc]

namespace Sounding

/-- The voice that a track plays is one of its block. -/
theorem inside (h : Sounding notes rows keys first count current) (pos : 0 < count) :
    first ≤ current ∧ current < first + count := by
  have lt := Nat.mod_lt (noteOns notes rows).length pos
  rw [h.place]
  omega

/-- Only the keys of the block matter. -/
theorem congr {keys' : Keyboard} (h : Sounding notes rows keys first count current)
    (pos : 0 < count) (same : ∀ v, first ≤ v → v < first + count → keys' v = keys v) :
    Sounding notes rows keys' first count current := by
  obtain ⟨low, high⟩ := h.inside pos
  refine ⟨h.place, fun v hl hh hv => ?_, ?_, ?_⟩
  · rw [same v hl hh]
    exact h.others v hl hh hv
  · rw [same current low high]
    exact h.held
  · rw [same current low high]
    exact h.note

/-- The events of a track touch no keys but those of its block. -/
theorem frame (h : Sounding notes rows keys first count current) (pos : 0 < count) (n : Note)
    {v : Nat} (hv : v < first ∨ first + count ≤ v) :
    pressAll keys (noteEvents first count current n).1 v = keys v := by
  obtain ⟨low, high⟩ := h.inside pos
  have here : ¬ (current = v ∧ v < maxVoices) := by omega
  rcases n.cases with rfl | rfl | hn
  · simp [noteEvents_release, pressAll, press, here]
  · rfl
  · have next := nextVoice_eq first pos (noteOns notes rows).length
    rw [← h.place] at next
    have lt := Nat.mod_lt ((noteOns notes rows).length + 1) pos
    have there : ¬ (nextVoice first count current = v ∧ v < maxVoices) := by omega
    simp [noteEvents_noteOn hn, pressAll, press, here, there]

/-- A note that is as good as the one that is due does the same. -/
theorem asGood (h : Sounding notes rows keys first count current) {n : Note}
    (good : AsGood notes rows n) :
    pressAll keys (noteEvents first count current n).1 =
        pressAll keys (noteEvents first count current (notes rows)).1 ∧
      (noteEvents first count current n).2 = (noteEvents first count current (notes rows)).2 := by
  rcases good with rfl | ⟨silent, due, may⟩
  · exact ⟨rfl, rfl⟩
  · have released : (keys current).sustain = false := by
      rw [← Bool.not_eq_true, h.held, silent]
      rintro ⟨m, hm, hlt⟩
      cases hm
      exact absurd hlt (by decide)
    have idle : ∀ m : Note, m ≤ Note.hold →
        pressAll keys (noteEvents first count current m).1 = keys ∧
          (noteEvents first count current m).2 = current := by
      intro m hm
      rcases m.cases with rfl | rfl | hn
      · exact ⟨press_release_silent released, rfl⟩
      · exact ⟨rfl, rfl⟩
      · exact absurd hm (UInt8.not_le.mpr hn)
    exact ⟨(idle n may).1.trans (idle _ due).1.symm, (idle n may).2.trans (idle _ due).2.symm⟩

/-- The events of a row bring a track to where it is after that row. -/
theorem step (h : Sounding notes rows keys first count current) (pos : 0 < count)
    (few : first + count ≤ maxVoices) :
    Sounding notes (rows + 1) (pressAll keys (noteEvents first count current (notes rows)).1)
      first count (noteEvents first count current (notes rows)).2 := by
  obtain ⟨low, high⟩ := h.inside pos
  rcases (notes rows).cases with hn | hn | hn
  · have rest : notes rows ≤ Note.hold := by rw [hn]; decide
    have sounds : notes rows ≠ Note.hold := by rw [hn]; decide
    have key : pressAll keys [.release current] current = { keys current with sustain := false } :=
      if_pos ⟨rfl, by omega⟩
    rw [hn, noteEvents_release]
    refine ⟨?_, fun v hl hh hv => ?_, ?_, ?_⟩
    · rw [noteOns_rest rest]
      exact h.place
    · exact (congrArg Key.sustain (if_neg fun hc => hv hc.1.symm)).trans (h.others v hl hh hv)
    · rw [key, lastNote_succ, if_neg sounds]
      simp [hn, Note.release, Note.hold]
    · rw [key, noteOns_rest rest]
      exact h.note
  · have rest : notes rows ≤ Note.hold := UInt8.le_of_eq hn
    rw [hn, noteEvents_hold]
    refine ⟨?_, h.others, ?_, ?_⟩
    · rw [noteOns_rest rest]
      exact h.place
    · rw [lastNote_succ, if_pos hn]
      exact h.held
    · rw [noteOns_rest rest]
      exact h.note
  · rw [noteEvents_noteOn hn]
    have sounds : notes rows ≠ Note.hold := fun hh => by simp [hh] at hn
    have next := nextVoice_eq first pos (noteOns notes rows).length
    have lt := Nat.mod_lt ((noteOns notes rows).length + 1) pos
    rw [← h.place] at next
    generalize nextVoice first count current = voice at next
    have key : pressAll keys [.release current, .trigger voice (notes rows)] voice =
        ⟨notes rows, true⟩ := if_pos ⟨rfl, by omega⟩
    refine ⟨?_, fun v hl hh hv => ?_, ?_, ?_⟩
    · rw [noteOns_succ, if_pos hn, List.length_append]
      exact next
    · have left : pressAll keys [.release current, .trigger voice (notes rows)] v =
          (NoteEvent.release current).press keys v := if_neg fun hc => hv hc.1.symm
      rw [left]
      by_cases hc : current = v
      · exact congrArg Key.sustain (if_pos ⟨hc, by omega⟩)
      · exact (congrArg Key.sustain (if_neg fun h' => hc h'.1)).trans
          (h.others v hl hh (Ne.symm hc))
    · rw [key, lastNote_succ, if_neg sounds]
      simp [hn]
    · rw [key, noteOns_succ, if_pos hn, List.getLast?_append]
      simp

end Sounding

end Track

/-! ## All tracks -/

/-- Where tracks are, from one on, whose blocks of voices follow each other. -/
def AllSounding (notes : Nat → Nat → Note) (rows : Nat) (keys : Keyboard) :
    (track first : Nat) → List Track → List Nat → Prop
  | track, first, t :: tracks, current :: voices =>
    Sounding (notes track) rows keys first t.numVoices current ∧
      AllSounding notes rows keys (track + 1) (first + t.numVoices) tracks voices
  | _, _, [], [] => True
  | _, _, _, _ => False

/-- The tracks have voices, and the machine has all of these. -/
structure Playable (first : Nat) (tracks : List Track) : Prop where
  voiced : ∀ t ∈ tracks, 0 < t.numVoices
  few : first + total (tracks.map (·.numVoices)) ≤ maxVoices

section Tracks

variable {notes : Nat → Nat → Note} {rows : Nat} {keys : Keyboard} {track first : Nat}
  {t : Track} {tracks : List Track} {voices : List Nat}

theorem Playable.head (p : Playable first (t :: tracks)) :
    0 < t.numVoices ∧ first + t.numVoices ≤ maxVoices := by
  have few := p.few
  rw [List.map_cons, total_cons] at few
  exact ⟨p.voiced t List.mem_cons_self, by omega⟩

theorem Playable.tail (p : Playable first (t :: tracks)) :
    Playable (first + t.numVoices) tracks := by
  have few := p.few
  rw [List.map_cons, total_cons] at few
  exact ⟨fun t' h => p.voiced t' (List.mem_cons_of_mem _ h), by omega⟩

namespace AllSounding

/-- Only the keys from the first block on matter. -/
theorem congr {keys' : Keyboard} (h : AllSounding notes rows keys track first tracks voices)
    (p : Playable first tracks) (same : ∀ v, first ≤ v → keys' v = keys v) :
    AllSounding notes rows keys' track first tracks voices := by
  induction tracks generalizing track first voices with
  | nil => cases voices <;> exact h
  | cons t tracks ih =>
    cases voices with
    | nil => cases h
    | cons current voices =>
      refine ⟨h.1.congr p.head.1 fun v hv _ => same v hv, ih h.2 p.tail fun v hv => ?_⟩
      exact same v (by omega)

/-- The tracks after the first are where they were once the events of that have happened. -/
theorem after {current : Nat} (n : Note)
    (h : AllSounding notes rows keys track first (t :: tracks) (current :: voices))
    (p : Playable first (t :: tracks)) :
    AllSounding notes rows (pressAll keys (noteEvents first t.numVoices current n).1) (track + 1)
      (first + t.numVoices) tracks voices :=
  h.2.congr p.tail fun _ hv => h.1.frame p.head.1 n (.inr hv)

/-- The events of a row touch no keys before the first block. -/
theorem frame (h : AllSounding notes rows keys track first tracks voices)
    (p : Playable first tracks) (played : Nat → Note) {v : Nat} (hv : v < first) :
    pressAll keys (rowEvents played track first tracks voices).1 v = keys v := by
  induction tracks generalizing track first voices keys with
  | nil => cases voices <;> rfl
  | cons t tracks ih =>
    cases voices with
    | nil => cases h
    | cons current voices =>
      rw [rowEvents, pressAll_append, ih (h.after _ p) p.tail (by omega)]
      exact h.1.frame p.head.1 _ (.inl hv)

/-- Notes that are as good as those that are due do the same. -/
theorem asGood (h : AllSounding notes rows keys track first tracks voices)
    (p : Playable first tracks) (played : Nat → Note)
    (good : ∀ i < tracks.length, AsGood (notes (track + i)) rows (played (track + i))) :
    pressAll keys (rowEvents played track first tracks voices).1 =
        pressAll keys (rowEvents (notes · rows) track first tracks voices).1 ∧
      (rowEvents played track first tracks voices).2 =
        (rowEvents (notes · rows) track first tracks voices).2 := by
  induction tracks generalizing track first voices keys with
  | nil => cases voices <;> exact ⟨rfl, rfl⟩
  | cons t tracks ih =>
    cases voices with
    | nil => cases h
    | cons current voices =>
      obtain ⟨keysHead, voiceHead⟩ := h.1.asGood (good 0 (Nat.succ_pos _))
      obtain ⟨keysTail, voicesTail⟩ := ih (h.after (notes track rows) p) p.tail fun i hi => by
        have := good (i + 1) (Nat.succ_lt_succ hi)
        rwa [show track + (i + 1) = track + 1 + i by omega] at this
      simp only [Nat.add_zero] at keysHead voiceHead
      simp only [rowEvents, pressAll_append]
      rw [keysHead, keysTail, voiceHead, voicesTail]
      exact ⟨rfl, rfl⟩

/-- The events of a row bring all tracks to where they are after that row. -/
theorem step (h : AllSounding notes rows keys track first tracks voices)
    (p : Playable first tracks) :
    AllSounding notes (rows + 1)
      (pressAll keys (rowEvents (notes · rows) track first tracks voices).1) track first tracks
      (rowEvents (notes · rows) track first tracks voices).2 := by
  induction tracks generalizing track first voices keys with
  | nil =>
    cases voices with
    | nil => trivial
    | cons _ _ => cases h
  | cons t tracks ih =>
    cases voices with
    | nil => cases h
    | cons current voices =>
      have head := h.1.step p.head.1 p.head.2
      have tail := h.after (notes track rows) p
      simp only [rowEvents, pressAll_append]
      refine ⟨head.congr p.head.1 fun v _ hv => ?_, ih tail p.tail⟩
      exact tail.frame p.tail _ hv

/-- Each track is where it should be, on the voices after those of the tracks before it. -/
theorem block (h : AllSounding notes rows keys track first tracks voices) {i : Nat}
    (ht : tracks[i]? = some t) :
    ∃ current, Sounding (notes (track + i)) rows keys
      (first + total ((tracks.take i).map (·.numVoices))) t.numVoices current := by
  induction tracks generalizing track first voices i with
  | nil => simp at ht
  | cons t' tracks ih =>
    cases voices with
    | nil => cases h
    | cons current voices =>
      cases i with
      | zero =>
        cases ht
        exact ⟨current, h.1⟩
      | succ i =>
        have later := ih h.2 ht
        rw [Nat.add_right_comm, Nat.add_assoc first] at later
        exact later

/-- Before the first row each track is at the first voice of its block, with no key held. -/
theorem start (tracks : List Track) (track first : Nat) :
    AllSounding notes 0 (fun _ => {}) track first tracks
      ((List.range tracks.length).map fun i =>
        first + total ((tracks.take i).map (·.numVoices))) := by
  induction tracks generalizing track first with
  | nil => trivial
  | cons t tracks ih =>
    rw [List.length_cons, List.range_succ_eq_map, List.map_cons, List.map_map]
    refine ⟨⟨by simp [noteOns], fun _ _ _ _ => rfl, by simp [lastNote], by simp [noteOns]⟩, ?_⟩
    have later := ih (track + 1) (first + t.numVoices)
    simp only [Nat.add_assoc] at later
    simpa [Function.comp_def] using later

end AllSounding

end Tracks

end Playback

end ModularSynth
