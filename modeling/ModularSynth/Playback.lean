-- Playing a song from start to end. In each row, tracks first let go of notes and start
-- new ones, going around the voices of their block; then the row is rendered, in more
-- than one call if the speed changes.
import ModularSynth.Ensemble.Basic
import ModularSynth.Tables.PatternTable

namespace ModularSynth

/-! ## Either kind of synth -/

/-- Whether a song is played on one core or on as many as its patch asks for. -/
inductive Engine
  | single
  | parallel
  deriving DecidableEq, Repr, Inhabited

namespace Engine

/-- The name of the kind of synth. -/
def name : Engine → String
  | .single => "interpreter"
  | .parallel => "parallel interpreter"

/-- Do the core masks of instruments count? -/
def supportsParallelism : Engine → Bool
  | .single => false
  | .parallel => true

end Engine

/-- A synth of either kind. -/
inductive AnySynth
  | single (synth : Synth)
  | parallel (ensemble : Ensemble)
  deriving Inhabited

namespace AnySynth

def create (engine : Engine) (options : SynthOptions) (patch : Patch) (bpm : Nat) :
    Except CompileError AnySynth :=
  match engine with
  | .single => .single <$> Synth.create options patch bpm
  | .parallel => .parallel <$> Ensemble.create options patch bpm

def trigger (s : AnySynth) (voice : Nat) (note : Note) : AnySynth :=
  match s with
  | .single s => .single (s.trigger voice note)
  | .parallel e => .parallel (e.trigger voice note)

/-- Let go of the note of a voice. -/
def release (s : AnySynth) (voice : Nat) : AnySynth :=
  match s with
  | .single s => .single (s.release voice)
  | .parallel e => .parallel (e.release voice)

/-- Take a new patch. An ensemble that cannot is left as it was. -/
def update (s : AnySynth) (patch : Patch) (bpm : Nat) : Except CompileError AnySynth :=
  match s with
  | .single s => .single <$> s.update patch bpm
  | .parallel e =>
    match e.update patch bpm with
    | (e, none) => .ok (.parallel e)
    | (_, some error) => .error error

/-- Render into a buffer until it is full or the time is up. -/
def render (s : AnySynth) (buffer : Audio) (maxTime : Int) : AnySynth × Audio × RenderReport :=
  match s with
  | .single s => let (s, audio, report) := s.render buffer maxTime; (.single s, audio, report)
  | .parallel e => let (e, audio, report) := e.render buffer maxTime; (.parallel e, audio, report)

def numCores : AnySynth → Nat
  | .single _ => 1
  | .parallel e => e.synths.length

/-- The number of load figures given when there is room for so many. -/
def loadCount (s : AnySynth) (room : Nat) : Nat :=
  match s with
  | .single s => s.loadCount room
  | .parallel e => e.loadCount room

end AnySynth

/-! ## Errors -/

/-- Why a song cannot be played to its end. -/
inductive PlayError
  | invalidSong (source : SongError)
  | compile (source : CompileError)
  | patterns (source : PatternError)
  | render (source : RenderError)
  | stalled (pattern row : Nat)
  deriving DecidableEq, Repr, Inhabited

def PlayError.message : PlayError → String
  | .invalidSong source => s!"Invalid song: {source.message}"
  | .compile source => s!"Could not compile the patch: {source.message}"
  | .patterns source => s!"Could not encode the patterns: {source.message}"
  | .render source => s!"Rendering failed: {source.message}"
  | .stalled pattern row =>
    s!"Row {row} of pattern {pattern} does not advance; the song is likely slowed down too much"

/-! ## Events -/

/-- What a row does to a voice. -/
inductive NoteEvent
  | release (voice : Nat)
  | trigger (voice : Nat) (note : Note)
  deriving DecidableEq, Repr, Inhabited

def AnySynth.apply (s : AnySynth) : NoteEvent → AnySynth
  | .release voice => s.release voice
  | .trigger voice note => s.trigger voice note

namespace Playback

/-- The voice after one in a block of voices. -/
def nextVoice (first count current : Nat) : Nat :=
  if current + 1 ≥ first + count then first else current + 1

/-- What a note does on a track whose block of voices is given, and the voice that the
track plays then. -/
def noteEvents (first count current : Nat) (note : Note) : List NoteEvent × Nat :=
  if note = Note.hold then ([], current)
  else if note = Note.release then ([.release current], current)
  else
    let next := nextVoice first count current
    ([.release current, .trigger next note], next)

/-- What a row of notes does on the tracks from one on, of which the first voices are given.
Gives the events in order and the voices that the tracks play then. -/
def rowEvents (notes : Nat → Note) :
    (track first : Nat) → List Track → List Nat → List NoteEvent × List Nat
  | track, first, t :: tracks, current :: voices =>
    let (events, current) := noteEvents first t.numVoices current (notes track)
    let (later, voices) := rowEvents notes (track + 1) (first + t.numVoices) tracks voices
    (events ++ later, current :: voices)
  | _, _, _, _ => ([], [])

/-- The voice that each track begins with. -/
def firstVoices (score : Score) : List Nat :=
  (List.range score.tracks.length).map score.firstVoice

/-! ## Rows -/

/-- No row is rendered in more calls. -/
def maxTries : Nat := 100

/-- Render the rest of a row of so many samples. `done` are the pieces of audio before,
last first. Gives no synth if the tries run out. -/
def renderRow (samples : Nat) :
    (tries rowTime : Nat) → AnySynth → (done : List Audio) →
      Except RenderError (Option (AnySynth × List Audio))
  | tries, rowTime, synth, done =>
    if rowTime < samples then
      match tries with
      | 0 => .ok none
      | tries + 1 =>
        let (synth, audio, report) :=
          synth.render (.silent samples) ((samples : Int) - (rowTime : Int))
        match report.result with
        | .error e => .error e
        | .ok progress =>
          renderRow samples tries (rowTime + progress.time.toNat) synth
            (audio.take progress.samples :: done)
    else .ok (some (synth, done))

/-- The middle of a song: the voices that the tracks play, the synth, and the pieces of audio
so far, last first. -/
structure Progression where
  voices : List Nat
  synth : AnySynth
  done : List Audio
  deriving Inhabited

/-- Where a song starts. With `release`, every voice is let go first. -/
def start (song : Song) (synth : AnySynth) (release : Bool) : Progression where
  voices := firstVoices song.score
  synth := if release then (List.range maxVoices).foldl AnySynth.release synth else synth
  done := []

/-- Let the events of a row happen. -/
def startRow (song : Song) (patterns : PatternTable) (row : Nat) (s : Progression) : Progression :=
  let (events, voices) := rowEvents (patterns.note · row) 0 0 song.score.tracks s.voices
  { s with voices, synth := events.foldl AnySynth.apply s.synth }

/-- Render a row whose events have happened. -/
def finishRow (song : Song) (row : Nat) (s : Progression) : Except PlayError Progression :=
  match renderRow song.samplesPerRow maxTries 0 s.synth s.done with
  | .error e => .error (.render e)
  | .ok none =>
    let rows := song.score.rowsPerPattern
    .error (.stalled (row / rows) (row % rows))
  | .ok (some (synth, done)) => .ok { s with synth, done }

/-- Play rows from one on, of which there are so many. -/
def playRows (song : Song) (patterns : PatternTable) :
    (count row : Nat) → Progression → Except PlayError Progression
  | 0, _, s => .ok s
  | count + 1, row, s => do
    let s ← finishRow song row (startRow song patterns row s)
    playRows song patterns count (row + 1) s

/-- Play the patterns of a song on a synth. -/
def playPatterns (synth : AnySynth) (song : Song) (patterns : PatternTable) (release : Bool) :
    Except PlayError Audio := do
  let s ← playRows song patterns song.score.lengthInRows 0 (start song synth release)
  return s.done.reverse.flatten

end Playback

/-- Play a song from start to end. -/
def Song.play (song : Song) (engine : Engine) (options : SynthOptions) (release : Bool) :
    Except PlayError Audio := do
  song.validate.mapError .invalidSong
  let patterns ← (PatternTable.ofSong song).mapError .patterns
  let synth ← (AnySynth.create engine options song.patch song.bpm).mapError .compile
  Playback.playPatterns synth song patterns release

end ModularSynth
