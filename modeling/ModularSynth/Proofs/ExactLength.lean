-- Songs without speed units. Each row is rendered in one call, which has a frame for every sample of
-- the row, on one core as on several, in whatever order these deliver. So the length of the audio
-- is known from the score and the tempo, and no row ever runs out of tries.
import ModularSynth.Proofs.RenderBounds
import ModularSynth.Proofs.WorkerOrders

namespace ModularSynth

/-! ## Synths that keep pace -/

def SynthCall.event? : SynthCall → Option NoteEvent
  | .play event => some event
  | .render .. => none

namespace AnySynth

/-- The synth after some calls. -/
def afterAll (s : AnySynth) (calls : List SynthCall) : AnySynth :=
  calls.foldl (fun s call => (s.call call).synth) s

/-- None of the cores has speed units, and there is at least one core. -/
def Paced : AnySynth → Prop
  | .single s => SpeedFree s.program.bytecode.opcodes
  | .parallel e => e.SpeedFree ∧ e.Numbered ∧ e.synths ≠ []

/-- A render call for so many samples can give these frames, and succeeds with all of them. -/
def Gives (s : AnySynth) (samples : Nat) (frames : Audio) : Prop :=
  ∃ s', s.RendersTo (.silent samples) samples (s', frames, ⟨⟨samples, samples⟩, none⟩)

variable {s s' : AnySynth}

theorem afterAll_append (s : AnySynth) (first later : List SynthCall) :
    s.afterAll (first ++ later) = (s.afterAll first).afterAll later :=
  List.foldl_append

theorem afterAll_play (s : AnySynth) (events : List NoteEvent) :
    s.afterAll (events.map .play) = events.foldl AnySynth.apply s := by
  unfold afterAll
  rw [List.foldl_map]
  rfl

theorem Gives.length {samples : Nat} {frames : Audio} (h : s.Gives samples frames) :
    frames.length = samples := by
  obtain ⟨s', rendered⟩ := h
  rw [rendered.length]
  exact List.length_replicate

theorem Paced.call (paced : s.Paced) (call : SynthCall) : (s.call call).synth.Paced := by
  cases s with
  | single s =>
    cases call with
    | render buffer maxTime => exact paced
    | play event => cases event <;> exact paced
  | parallel e =>
    obtain ⟨slow, numbered, some_core⟩ := paced
    rw [Ensemble.call_synth]
    refine ⟨slow.after numbered call, numbered.after call, ?_⟩
    apply List.ne_nil_of_length_pos
    rw [Ensemble.after_length numbered]
    exact List.length_pos_iff.mpr some_core

theorem Paced.afterAll (paced : s.Paced) (calls : List SynthCall) : (s.afterAll calls).Paced := by
  induction calls generalizing s with
  | nil => exact paced
  | cons call calls ih => exact ih (paced.call call)

/-- Synths for a patch without active speed units keep pace. -/
theorem paced_of_create {engine : Engine} {options : SynthOptions} {patch : Patch} {bpm : Nat}
    (flags : patch.StereoFlags)
    (none : ∀ instrument ∈ patch.instruments, ∀ u ∈ instrument.units,
      u.activeKind? ≠ some .speed)
    (made : AnySynth.create engine options patch bpm = .ok s) : s.Paced := by
  unfold AnySynth.create at made
  cases engine with
  | single =>
    simp only at made
    cases created : Synth.create options patch bpm with
    | error e =>
      rw [created] at made
      cases made
    | ok synth =>
      rw [created] at made
      cases made
      obtain ⟨b, hb, rfl⟩ := Synth.create_compiled created
      obtain ⟨assembled, compiled⟩ := Bytecode.compile_ok hb
      exact compiled.speedFree flags none
  | parallel =>
    simp only at made
    cases created : Ensemble.create options patch bpm with
    | error e =>
      rw [created] at made
      cases made
    | ok e =>
      rw [created] at made
      cases made
      exact ⟨Ensemble.speedFree_of_create created flags none,
        Ensemble.numbered_of_create created, (Ensemble.Reached.create created).some_core⟩

/-- A call without a fault has as many frames, and takes as much time, as it may. -/
theorem Paced.report (paced : s.Paced) {buffer written : Audio} {maxTime : Int}
    {report : RenderReport} (h : s.RendersTo buffer maxTime (s', written, report))
    (fine : report.fault = none) :
    let k := min buffer.length maxTime.toNat
    report = ⟨⟨k, k⟩, none⟩ := by
  intro k
  cases h with
  | single s => exact Synth.render_paced paced fine
  | @parallel e _ _ results order =>
    obtain ⟨slow, -, some_core⟩ := paced
    have faults := e.away.gather_fault fine
    apply e.away.gather_alike buffer.length
    · exact fun none => some_core (List.map_eq_nil_iff.mp none)
    · rw [order.length_eq]
      simp [Ensemble.coreResults, Ensemble.away]
    · intro r hr
      obtain ⟨s, hs, reported⟩ := Ensemble.mem_coreResults maxTime (order.mem_iff.mp hr)
      have own := faults r hr
      rw [reported] at own ⊢
      have rendered := Synth.render_paced (slow s hs) own
      rw [show (Audio.silent buffer.length).length = buffer.length from List.length_replicate]
        at rendered
      exact rendered

end AnySynth

/-! ## The calls that a song makes -/

namespace Playback

section Calls

variable (song : Song) (patterns : PatternTable)

/-- The voices that the tracks play before a row. -/
def voicesBefore : (row : Nat) → List Nat
  | 0 => firstVoices song.score
  | row + 1 => (rowEvents (patterns.note · row) 0 0 song.score.tracks (voicesBefore row)).2

/-- The events of a row. -/
def eventsOf (row : Nat) : List NoteEvent :=
  (rowEvents (patterns.note · row) 0 0 song.score.tracks (voicesBefore song patterns row)).1

/-- What happens before a song starts. -/
def startEvents (release : Bool) : List NoteEvent :=
  if release then (List.range maxVoices).map .release else []

/-- The calls of a row: its events, and one call for all its samples. -/
def callsOf (row : Nat) : List SynthCall :=
  (eventsOf song patterns row).map .play ++
    [.render (.silent song.samplesPerRow) song.samplesPerRow]

/-- The calls up to the moment in which a row is rendered. -/
def callsUntil (release : Bool) (row : Nat) : List SynthCall :=
  (startEvents release).map .play ++ (List.range row).flatMap (callsOf song patterns) ++
    (eventsOf song patterns row).map .play

/-- The events of these calls are those of the rows so far, in order. -/
theorem events_callsUntil (release : Bool) (row : Nat) :
    (callsUntil song patterns release row).filterMap (·.event?) =
      startEvents release ++ (List.range (row + 1)).flatMap (eventsOf song patterns) := by
  have played : ∀ events : List NoteEvent,
      (events.map SynthCall.play).filterMap (·.event?) = events := by
    intro events
    rw [List.filterMap_map]
    exact List.filterMap_some
  have each : ∀ row, (callsOf song patterns row).filterMap (·.event?) =
      eventsOf song patterns row := by
    intro row
    rw [callsOf, List.filterMap_append, played]
    exact List.append_nil _
  unfold callsUntil
  rw [List.filterMap_append, List.filterMap_append, played, played, List.filterMap_flatMap,
    List.range_succ, List.flatMap_append, List.flatMap_singleton, List.append_assoc]
  simp only [each]

theorem startRow_synth {row : Nat} {s : Progression}
    (at_row : s.voices = voicesBefore song patterns row) :
    (startRow song patterns row s).synth =
      s.synth.afterAll ((eventsOf song patterns row).map .play) := by
  rw [AnySynth.afterAll_play, eventsOf, ← at_row]
  rfl

theorem startRow_voices {row : Nat} {s : Progression}
    (at_row : s.voices = voicesBefore song patterns row) :
    (startRow song patterns row s).voices = voicesBefore song patterns (row + 1) := by
  rw [voicesBefore, ← at_row]
  rfl

theorem start_synth (synth : AnySynth) (release : Bool) :
    (start song synth release).synth = synth.afterAll ((startEvents release).map .play) := by
  rw [AnySynth.afterAll_play]
  cases release with
  | false => rfl
  | true =>
    change (List.range maxVoices).foldl AnySynth.release synth =
      ((List.range maxVoices).map NoteEvent.release).foldl AnySynth.apply synth
    rw [List.foldl_map]
    rfl

end Calls

/-! ## Rows -/

/-- A row of a synth that keeps pace is rendered in one call, unless that fails. -/
theorem RowTo.paced {samples tries : Nat} {synth : AnySynth} {done : List Audio}
    {outcome : Except RenderError (Option (AnySynth × List Audio))} (pos : 0 < samples)
    (paced : synth.Paced) (h : RowTo samples (tries + 1) 0 synth done outcome) :
    (∃ e, outcome = .error e) ∨
      ∃ frames, synth.Gives samples frames ∧ outcome =
        .ok (some ((synth.render (.silent samples) samples).1, frames :: done)) := by
  cases h with
  | full late => omega
  | fault _ _ failed => exact .inl ⟨_, rfl⟩
  | @goOn _ _ _ synth' _ audio report progress _ _ rendered succeeded rest =>
    rw [Int.natCast_zero, Int.sub_zero] at rendered
    have fine : report.fault = none := by
      unfold RenderReport.result at succeeded
      cases fault : report.fault with
      | none => rfl
      | some fault =>
        rw [fault] at succeeded
        cases succeeded
    have whole := paced.report rendered fine
    have length := rendered.length
    simp only [Audio.silent, List.length_replicate, Int.toNat_natCast, Nat.min_self] at whole length
    subst whole
    have reached : progress = ⟨samples, samples⟩ := (Except.ok.inj succeeded).symm
    subst reached
    simp only at rest
    cases rest with
    | full _ =>
      refine .inr ⟨audio, ⟨synth', rendered⟩, ?_⟩
      rw [← rendered.synth_eq, List.take_of_length_le (Nat.le_of_eq length)]
    | outOfTries early => omega
    | fault early => omega
    | goOn early => omega

/-- A row of no samples is over at once. -/
theorem RowTo.empty {tries : Nat} {synth : AnySynth} {done : List Audio}
    {outcome : Except RenderError (Option (AnySynth × List Audio))}
    (h : RowTo 0 tries 0 synth done outcome) : outcome = .ok (some (synth, done)) := by
  cases h with
  | full _ => rfl
  | outOfTries early => omega
  | fault early => omega
  | goOn early => omega

section Rows

variable {song : Song} {patterns : PatternTable}

/-- Rows of a synth that keeps pace give a piece of audio each. It is rendered after the calls of
the rows before it and the events of its own. -/
theorem RowsTo.paced (pos : 0 < song.samplesPerRow) {count row : Nat} {s : Progression}
    {outcome : Except PlayError Progression} (paced : s.synth.Paced)
    (at_row : s.voices = voicesBefore song patterns row)
    (h : RowsTo song patterns count row s outcome) :
    (∃ e, outcome = .error (.render e)) ∨
      ∃ (s' : Progression) (pieces : List Audio), outcome = .ok s' ∧
        s'.done = pieces.reverse ++ s.done ∧ pieces.length = count ∧
        ∀ i piece, pieces[i]? = some piece →
          (s.synth.afterAll ((List.range' row i).flatMap (callsOf song patterns) ++
            (eventsOf song patterns (row + i)).map .play)).Gives song.samplesPerRow piece := by
  induction count generalizing row s with
  | zero =>
    cases h
    refine .inr ⟨s, [], rfl, rfl, rfl, ?_⟩
    intro i piece none
    cases none
  | succ count ih =>
    have started := startRow_synth song patterns at_row
    have in_pace : (startRow song patterns row s).synth.Paced := started ▸ paced.afterAll _
    cases h with
    | fault failed => exact .inl ⟨_, rfl⟩
    | stalled out =>
      rcases out.paced pos in_pace with ⟨e, none⟩ | ⟨frames, -, none⟩
      · cases none
      · cases none
    | @goOn _ _ _ synth done _ rendered rest =>
      rcases rendered.paced pos in_pace with ⟨e, none⟩ | ⟨frames, given, came⟩
      · cases none
      · cases came
        rw [started] at given rest
        have called : ((s.synth.afterAll ((eventsOf song patterns row).map .play)).render
            (.silent song.samplesPerRow) song.samplesPerRow).1 =
              s.synth.afterAll (callsOf song patterns row) := by
          rw [callsOf, AnySynth.afterAll_append]
          rfl
        rw [called] at rest
        rcases ih (s := ⟨_, _, _⟩) (paced.afterAll _) (startRow_voices song patterns at_row)
          rest with failed | ⟨s', pieces, ended, done, length, each⟩
        · exact .inl failed
        · refine .inr ⟨s', frames :: pieces, ended, ?_, congrArg _ length, ?_⟩
          · rw [done, List.reverse_cons, List.append_assoc]
            rfl
          · intro i piece hi
            cases i with
            | zero =>
              cases hi
              exact given
            | succ i =>
              have later : ((s.synth.afterAll (callsOf song patterns row)).afterAll
                  ((List.range' (row + 1) i).flatMap (callsOf song patterns) ++
                    (eventsOf song patterns (row + 1 + i)).map .play)).Gives
                      song.samplesPerRow piece := each i piece hi
              rw [← AnySynth.afterAll_append, ← List.append_assoc, Nat.add_assoc,
                Nat.add_comm 1 i] at later
              rwa [List.range'_succ, List.flatMap_cons]

/-- The rows of a song, from its start on. -/
theorem RowsTo.from_start {synth : AnySynth} {release : Bool} (pos : 0 < song.samplesPerRow)
    (paced : synth.Paced) {count : Nat} {outcome : Except PlayError Progression}
    (h : RowsTo song patterns count 0 (start song synth release) outcome) :
    (∃ e, outcome = .error (.render e)) ∨
      ∃ (s' : Progression) (pieces : List Audio), outcome = .ok s' ∧
        s'.done.reverse.flatten = pieces.flatten ∧ pieces.length = count ∧
        ∀ i piece, pieces[i]? = some piece →
          (synth.afterAll (callsUntil song patterns release i)).Gives song.samplesPerRow piece := by
  have starts := start_synth song synth release
  have in_pace : (start song synth release).synth.Paced := starts ▸ paced.afterAll _
  rcases h.paced pos in_pace rfl with failed | ⟨s', pieces, ended, done, length, each⟩
  · exact .inl failed
  · refine .inr ⟨s', pieces, ended, ?_, length, fun i piece hi => ?_⟩
    · rw [done]
      change (pieces.reverse ++ []).reverse.flatten = _
      rw [List.append_nil, List.reverse_reverse]
    · have given := each i piece hi
      rw [starts, ← AnySynth.afterAll_append, ← List.append_assoc, Nat.zero_add,
        ← List.range_eq_range'] at given
      exact given

theorem RowsTo.empty (none : song.samplesPerRow = 0) {count row : Nat} {s : Progression}
    {outcome : Except PlayError Progression} (h : RowsTo song patterns count row s outcome) :
    ∃ s', outcome = .ok s' ∧ s'.done = s.done := by
  induction count generalizing row s with
  | zero =>
    cases h
    exact ⟨s, rfl, rfl⟩
  | succ count ih =>
    cases h with
    | fault rendered =>
      rw [none] at rendered
      cases rendered.empty
    | stalled rendered =>
      rw [none] at rendered
      cases rendered.empty
    | goOn rendered rest =>
      rw [none] at rendered
      cases rendered.empty
      obtain ⟨s', ended, done⟩ := ih rest
      exact ⟨s', ended, done⟩

end Rows

end Playback

/-- In pieces of one length, the place of a frame tells its piece. -/
theorem Audio.getElem?_flatten {pieces : List Audio} {n : Nat} (pos : 0 < n)
    (even : ∀ piece ∈ pieces, piece.length = n) (f : Nat) :
    pieces.flatten[f]? = pieces[f / n]?.bind fun piece => piece[f % n]? := by
  induction pieces generalizing f with
  | nil => rfl
  | cons piece rest ih =>
    have here := even piece List.mem_cons_self
    rw [List.flatten_cons]
    by_cases inside : f < n
    · rw [List.getElem?_append_left (by omega), Nat.div_eq_of_lt inside, Nat.mod_eq_of_lt inside]
      rfl
    · have later := ih (fun piece h => even piece (List.mem_cons_of_mem _ h)) (f - n)
      rw [List.getElem?_append_right (by omega), here, later,
        show f / n = (f - n) / n + 1 by rw [← Nat.add_div_right _ pos, Nat.sub_add_cancel (by omega)],
        show f % n = (f - n) % n by rw [Nat.mod_eq_sub_mod (by omega)]]
      rfl

theorem Audio.flatten_length {pieces : List Audio} {n : Nat}
    (even : ∀ piece ∈ pieces, piece.length = n) : pieces.flatten.length = pieces.length * n := by
  rw [List.length_flatten, List.map_congr_left even, List.map_const', List.sum_replicate_nat]

/-- Frames of pieces that synths give, one piece each. -/
theorem Audio.flatten_given {pieces : List Audio} {n : Nat} {synth : Nat → AnySynth} (pos : 0 < n)
    (each : ∀ i piece, pieces[i]? = some piece → (synth i).Gives n piece) :
    pieces.flatten.length = pieces.length * n ∧ ∀ f < pieces.flatten.length,
      ∃ frames, (synth (f / n)).Gives n frames ∧ pieces.flatten[f]? = frames[f % n]? := by
  have even : ∀ piece ∈ pieces, piece.length = n := by
    intro piece hp
    obtain ⟨i, hi⟩ := List.mem_iff_getElem?.mp hp
    exact (each i piece hi).length
  refine ⟨Audio.flatten_length even, fun f hf => ?_⟩
  have inside : f / n < pieces.length := by
    rw [Audio.flatten_length even] at hf
    exact Nat.div_lt_of_lt_mul (by rwa [Nat.mul_comm])
  refine ⟨pieces[f / n], each _ _ (List.getElem?_eq_getElem inside), ?_⟩
  rw [Audio.getElem?_flatten pos even, List.getElem?_eq_getElem inside]
  rfl

/-! ## Whole songs -/

section Whole

variable {song : Song} {engine : Engine} {options : SynthOptions} {release : Bool}

theorem Song.prepared_ok {patterns : PatternTable} {synth : AnySynth}
    (made : song.prepared engine options = .ok (patterns, synth)) :
    PatternTable.ofSong song = .ok patterns ∧
      AnySynth.create engine options song.patch song.bpm = .ok synth := by
  unfold Song.prepared at made
  obtain ⟨_, -, made⟩ := bind_eq_ok made
  obtain ⟨patterns', encoded, made⟩ := bind_eq_ok made
  obtain ⟨synth', created, made⟩ := bind_eq_ok made
  cases made
  constructor
  · cases came : PatternTable.ofSong song with
    | error e =>
      rw [came] at encoded
      cases encoded
    | ok patterns =>
      rw [came] at encoded
      cases encoded
      rfl
  · cases came : AnySynth.create engine options song.patch song.bpm with
    | error e =>
      rw [came] at created
      cases created
    | ok synth =>
      rw [came] at created
      cases created
      rfl

theorem Song.prepared_not_stalled (pattern row : Nat) :
    song.prepared engine options ≠ .error (.stalled pattern row) := by
  unfold Song.prepared
  cases song.validate with
  | error e => simp [Except.mapError, bind, Except.bind]
  | ok _ =>
    cases PatternTable.ofSong song with
    | error e => simp [Except.mapError, bind, Except.bind]
    | ok patterns =>
      cases AnySynth.create engine options song.patch song.bpm with
      | error e => simp [Except.mapError, bind, Except.bind]
      | ok synth => simp [Except.mapError, bind, Except.bind, pure, Except.pure]

end Whole

/-- A song without active speed units is as long as its score says, on one core and on several, in
whatever order these deliver. If it can be played to its end, there are as many frames as rows times
samples per row. Each frame is one of a single call that renders its row, and before that call the
synth has been told the events of the rows up to this one, each in its turn, and no others. No row
ever runs out of tries. -/
theorem songs_have_exact_length {song : Song} {engine : Engine} {options : SynthOptions}
    {release : Bool} (flags : song.patch.StereoFlags)
    (slow : ∀ instrument ∈ song.patch.instruments, ∀ u ∈ instrument.units,
      u.activeKind? ≠ some .speed) :
    song.PlaysTo engine options release (song.play engine options release) ∧
    ∀ outcome, song.PlaysTo engine options release outcome →
      (∀ pattern row, outcome ≠ .error (.stalled pattern row)) ∧
      ∀ audio, outcome = .ok audio →
        audio.length = song.score.length * song.score.rowsPerPattern * song.samplesPerRow ∧
        ∃ patterns synth, PatternTable.ofSong song = .ok patterns ∧
          AnySynth.create engine options song.patch song.bpm = .ok synth ∧
          ∀ f < audio.length,
            let row := f / song.samplesPerRow
            let calls := Playback.callsUntil song patterns release row
            calls.filterMap (·.event?) = Playback.startEvents release ++
              (List.range (row + 1)).flatMap (Playback.eventsOf song patterns) ∧
            ∃ frames, (synth.afterAll calls).Gives song.samplesPerRow frames ∧
              audio[f]? = frames[f % song.samplesPerRow]? := by
  refine ⟨song.playsTo_play engine options release, ?_⟩
  intro outcome played
  cases played with
  | refused failed =>
    refine ⟨?_, fun audio done => by cases done⟩
    rintro pattern row same
    cases same
    exact Song.prepared_not_stalled pattern row failed
  | @played patterns synth outcome made rows =>
    obtain ⟨encoded, created⟩ := Song.prepared_ok made
    have paced := AnySynth.paced_of_create flags slow created
    rcases Nat.eq_zero_or_pos song.samplesPerRow with none | pos
    · obtain ⟨s', rfl, done⟩ := rows.empty none
      have silent : s'.done.reverse.flatten = [] := by
        rw [done]
        rfl
      refine ⟨?_, ?_⟩
      · rintro pattern row ⟨⟩
      · rintro audio ⟨⟩
        beta_reduce
        rw [silent, none]
        refine ⟨rfl, patterns, synth, encoded, created, ?_⟩
        intro f impossible
        cases impossible
    · rcases rows.from_start pos paced with ⟨e, rfl⟩ | ⟨s', pieces, rfl, whole, length, each⟩
      · refine ⟨?_, ?_⟩
        · rintro pattern row ⟨⟩
        · rintro audio ⟨⟩
      · obtain ⟨total, frames⟩ := Audio.flatten_given pos each
        rw [length, Score.lengthInRows, Nat.mul_comm song.score.rowsPerPattern] at total
        refine ⟨?_, ?_⟩
        · rintro pattern row ⟨⟩
        · rintro audio ⟨⟩
          beta_reduce
          rw [whole]
          refine ⟨total, patterns, synth, encoded, created, ?_⟩
          intro f hf row calls
          exact ⟨Playback.events_callsUntil song patterns release row, frames f hf⟩

/-- Two tracks, each on a core of its own. -/
def duoSong : Song where
  bpm := 1323000
  rowsPerBeat := 1
  score := {
    rowsPerPattern := 3
    length := 2
    tracks := [
      { numVoices := 1, order := ⟨[0, -1]⟩, patterns := [⟨[64, 1, 0]⟩] },
      { numVoices := 1, order := ⟨[0, 0]⟩, patterns := [⟨[70]⟩] }] }
  patch := Ensemble.twoTones

theorem songs_have_exact_length_duo :
    duoSong.validate = .ok () ∧ ∃ audio, duoSong.play .parallel {} true = .ok audio ∧
      audio.length = 6 * 2 := by
  refine ⟨rfl, ?_⟩
  have plays : (duoSong.play .parallel {} true).toOption.isSome = true := by decide +kernel
  obtain ⟨played, each⟩ := @songs_have_exact_length duoSong .parallel {} true (by decide +kernel)
    (by decide +kernel)
  cases came : duoSong.play .parallel {} true with
  | error e =>
    rw [came] at plays
    cases plays
  | ok audio =>
    rw [came] at played
    obtain ⟨-, whole⟩ := each _ played
    exact ⟨audio, rfl, (whole audio rfl).1⟩

end ModularSynth
