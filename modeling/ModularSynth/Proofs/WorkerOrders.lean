-- Playback on workers. What the cores have rendered is mixed in the order in which it comes in, and
-- that order may be another one in every call. It matters to the sums of the frames alone: the synths
-- go on from the same state, whatever the order.
import ModularSynth.Proofs.CoreStreams
import Mathlib.Data.List.Nodup

namespace ModularSynth

/-! ## Results in any order -/

namespace Ensemble

/-- An ensemble while its synths are out at work. -/
def away (e : Ensemble) : Ensemble :=
  { e with synths := e.synths.map fun _ => default }

theorem render_eq_gather (e : Ensemble) (buffer : Audio) (maxTime : Int) :
    e.render buffer maxTime =
      e.away.gather buffer.length (coreResults e.synths buffer.length maxTime) := rfl

theorem foldl_take_places (results : List CoreResult) (g : Gathered) :
    (results.foldl Gathered.take g).synths =
      results.foldl (fun synths r => synths.set r.core r.synth) g.synths := by
  induction results generalizing g with
  | nil => rfl
  | cons r rest ih =>
    rw [List.foldl_cons, List.foldl_cons, ih]
    rfl

/-- Synths that come back from different cores can be put into their places in any order. -/
theorem foldl_set_perm {first second : List CoreResult} (same : first.Perm second)
    (once : (first.map (·.core)).Nodup) (synths : List Synth) :
    first.foldl (fun synths r => synths.set r.core r.synth) synths =
      second.foldl (fun synths r => synths.set r.core r.synth) synths := by
  apply same.foldl_eq'
  intro a ha b hb synths
  by_cases core : a.core = b.core
  · rw [List.inj_on_of_nodup_map once ha hb core]
  · exact List.set_comm _ _ core

theorem coreResults_cores (synths : List Synth) (frames : Nat) (maxTime : Int) :
    (coreResults synths frames maxTime).map (·.core) = List.range synths.length := by
  unfold coreResults
  rw [List.map_map, List.range_eq_range']
  exact List.zipIdx_map_snd 0 synths

/-- In whatever order the cores deliver, the ensemble goes on from the same state. -/
theorem gather_any_order (e : Ensemble) (buffer : Audio) (maxTime : Int)
    {results : List CoreResult}
    (order : results.Perm (coreResults e.synths buffer.length maxTime)) :
    (e.away.gather buffer.length results).1 = (e.render buffer maxTime).1 := by
  have once : ((coreResults e.synths buffer.length maxTime).map (·.core)).Nodup := by
    rw [coreResults_cores]
    exact List.nodup_range
  rw [render_eq_gather]
  unfold gather
  simp only [foldl_take_places, foldl_set_perm order.symm once]

theorem gather_length (e : Ensemble) (frames : Nat) (results : List CoreResult) :
    (e.gather frames results).2.1.length = frames := by
  unfold gather
  simp only [foldl_take_buffer, foldl_mix_length]
  exact List.length_replicate

/-- A call that has no fault has had none on any core. -/
theorem gather_fault (e : Ensemble) {frames : Nat} {results : List CoreResult}
    (fine : (e.gather frames results).2.2.fault = none) :
    ∀ r ∈ results, r.report.fault = none := by
  unfold gather at fine
  simp only at fine
  cases known : (results.foldl Gathered.take
      ({ synths := e.synths, buffer := .silent frames } : Gathered)).fault with
  | some fault =>
    rw [known] at fine
    cases fine
  | none => exact (foldl_take_fault results _ known).2

end Ensemble

/-! ## Render calls -/

/-- What a render call can come to. Several cores deliver in any order. -/
inductive AnySynth.RendersTo : AnySynth → Audio → Int → AnySynth × Audio × RenderReport → Prop
  | single (s : Synth) (buffer : Audio) (maxTime : Int) :
    RendersTo (.single s) buffer maxTime ((AnySynth.single s).render buffer maxTime)
  | parallel {e : Ensemble} {buffer : Audio} {maxTime : Int} {results : List CoreResult} :
    results.Perm (Ensemble.coreResults e.synths buffer.length maxTime) →
      RendersTo (.parallel e) buffer maxTime
        (.parallel (e.away.gather buffer.length results).1,
          (e.away.gather buffer.length results).2)

namespace AnySynth

variable {s s' : AnySynth} {buffer written : Audio} {maxTime : Int} {report : RenderReport}

theorem rendersTo_render (s : AnySynth) (buffer : Audio) (maxTime : Int) :
    s.RendersTo buffer maxTime (s.render buffer maxTime) := by
  cases s with
  | single s => exact .single s buffer maxTime
  | parallel e => exact .parallel (.refl _)

/-- The order does not matter to the synth that goes on. -/
theorem RendersTo.synth_eq (h : s.RendersTo buffer maxTime (s', written, report)) :
    s' = (s.render buffer maxTime).1 := by
  cases h with
  | single => rfl
  | @parallel e _ _ results order =>
    exact congrArg AnySynth.parallel (e.gather_any_order buffer maxTime order)

theorem RendersTo.length (h : s.RendersTo buffer maxTime (s', written, report)) :
    written.length = buffer.length := by
  cases h with
  | single s => exact (s.render_untouched buffer maxTime).1
  | @parallel e _ _ results _ => exact e.away.gather_length buffer.length results

end AnySynth

/-! ## Songs -/

namespace Playback

/-- What the rendering of a row can come to, as `renderRow` gives it for one order. -/
inductive RowTo (samples : Nat) : (tries rowTime : Nat) → AnySynth → (done : List Audio) →
    Except RenderError (Option (AnySynth × List Audio)) → Prop
  | full {tries rowTime : Nat} {synth : AnySynth} {done : List Audio} :
    samples ≤ rowTime → RowTo samples tries rowTime synth done (.ok (some (synth, done)))
  | outOfTries {rowTime : Nat} {synth : AnySynth} {done : List Audio} :
    rowTime < samples → RowTo samples 0 rowTime synth done (.ok none)
  | fault {tries rowTime : Nat} {synth synth' : AnySynth} {done : List Audio} {audio : Audio}
    {report : RenderReport} {e : RenderError} :
    rowTime < samples →
      synth.RendersTo (.silent samples) ((samples : Int) - rowTime) (synth', audio, report) →
        report.result = .error e → RowTo samples (tries + 1) rowTime synth done (.error e)
  | goOn {tries rowTime : Nat} {synth synth' : AnySynth} {done : List Audio} {audio : Audio}
    {report : RenderReport} {progress : Progress}
    {outcome : Except RenderError (Option (AnySynth × List Audio))} :
    rowTime < samples →
      synth.RendersTo (.silent samples) ((samples : Int) - rowTime) (synth', audio, report) →
        report.result = .ok progress →
          RowTo samples tries (rowTime + progress.time.toNat) synth'
            (audio.take progress.samples :: done) outcome →
            RowTo samples (tries + 1) rowTime synth done outcome

theorem rowTo_renderRow (samples tries rowTime : Nat) (synth : AnySynth) (done : List Audio) :
    RowTo samples tries rowTime synth done (renderRow samples tries rowTime synth done) := by
  induction tries generalizing rowTime synth done with
  | zero =>
    unfold renderRow
    split
    · next early => exact .outOfTries early
    · next late => exact .full (Nat.le_of_not_lt late)
  | succ tries ih =>
    unfold renderRow
    split
    · next early =>
      have call := synth.rendersTo_render (.silent samples) ((samples : Int) - rowTime)
      simp only
      split
      · next e failed => exact .fault early call failed
      · next progress succeeded => exact .goOn early call succeeded (ih _ _ _)
    · next late => exact .full (Nat.le_of_not_lt late)

/-- What the playing of rows can come to, as `playRows` gives it for one order. -/
inductive RowsTo (song : Song) (patterns : PatternTable) : (count row : Nat) → Progression →
    Except PlayError Progression → Prop
  | done {row : Nat} {s : Progression} : RowsTo song patterns 0 row s (.ok s)
  | fault {count row : Nat} {s : Progression} {e : RenderError} :
    RowTo song.samplesPerRow maxTries 0 (startRow song patterns row s).synth s.done (.error e) →
      RowsTo song patterns (count + 1) row s (.error (.render e))
  | stalled {count row : Nat} {s : Progression} :
    RowTo song.samplesPerRow maxTries 0 (startRow song patterns row s).synth s.done (.ok none) →
      RowsTo song patterns (count + 1) row s
        (.error (.stalled (row / song.score.rowsPerPattern) (row % song.score.rowsPerPattern)))
  | goOn {count row : Nat} {s : Progression} {synth : AnySynth} {done : List Audio}
    {outcome : Except PlayError Progression} :
    RowTo song.samplesPerRow maxTries 0 (startRow song patterns row s).synth s.done
        (.ok (some (synth, done))) →
      RowsTo song patterns count (row + 1) { startRow song patterns row s with synth, done }
        outcome →
        RowsTo song patterns (count + 1) row s outcome

theorem rowsTo_playRows (song : Song) (patterns : PatternTable) (count row : Nat)
    (s : Progression) : RowsTo song patterns count row s (playRows song patterns count row s) := by
  induction count generalizing row s with
  | zero => exact .done
  | succ count ih =>
    have rendered := rowTo_renderRow song.samplesPerRow maxTries 0
      (startRow song patterns row s).synth (startRow song patterns row s).done
    unfold playRows finishRow
    cases came : renderRow song.samplesPerRow maxTries 0 (startRow song patterns row s).synth
        (startRow song patterns row s).done with
    | error e =>
      rw [came] at rendered
      exact .fault rendered
    | ok result =>
      rw [came] at rendered
      cases result with
      | none => exact .stalled rendered
      | some result => exact .goOn rendered (ih _ _)

end Playback

namespace Song

variable (song : Song) (engine : Engine) (options : SynthOptions) (release : Bool)

/-- What is made of a song before it is played: its table of patterns and a synth. -/
def prepared : Except PlayError (PatternTable × AnySynth) := do
  song.validate.mapError .invalidSong
  let patterns ← (PatternTable.ofSong song).mapError .patterns
  let synth ← (AnySynth.create engine options song.patch song.bpm).mapError .compile
  return (patterns, synth)

/-- What the playing of a song can come to, as `play` gives it for one order. -/
inductive PlaysTo : Except PlayError Audio → Prop
  | refused {e : PlayError} : song.prepared engine options = .error e → PlaysTo (.error e)
  | played {patterns : PatternTable} {synth : AnySynth}
    {outcome : Except PlayError Playback.Progression} :
    song.prepared engine options = .ok (patterns, synth) →
      Playback.RowsTo song patterns song.score.lengthInRows 0
        (Playback.start song synth release) outcome →
        PlaysTo (outcome.map (·.done.reverse.flatten))

theorem play_eq : song.play engine options release =
    song.prepared engine options >>= fun (patterns, synth) =>
      Playback.playPatterns synth song patterns release := by
  unfold play prepared
  cases song.validate with
  | error e => rfl
  | ok _ =>
    cases PatternTable.ofSong song with
    | error e => rfl
    | ok patterns =>
      cases AnySynth.create engine options song.patch song.bpm with
      | error e => rfl
      | ok synth => rfl

theorem playsTo_play :
    song.PlaysTo engine options release (song.play engine options release) := by
  rw [play_eq]
  cases made : song.prepared engine options with
  | error e => exact .refused made
  | ok both =>
    obtain ⟨patterns, synth⟩ := both
    have rows := Playback.rowsTo_playRows song patterns song.score.lengthInRows 0
      (Playback.start song synth release)
    have whole : Playback.playPatterns synth song patterns release =
        (Playback.playRows song patterns song.score.lengthInRows 0
          (Playback.start song synth release)).map (·.done.reverse.flatten) := by
      unfold Playback.playPatterns
      cases Playback.playRows song patterns song.score.lengthInRows 0
          (Playback.start song synth release) with
      | error e => rfl
      | ok s => rfl
    change song.PlaysTo engine options release (Playback.playPatterns synth song patterns release)
    rw [whole]
    exact .played made rows

end Song

end ModularSynth
