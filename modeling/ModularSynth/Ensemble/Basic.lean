-- A synth for each core. Voices are started and let go on every core that plays them.
-- Rendering mixes what the cores give, frame by frame, as far as each of them got; the
-- call got as far as the slowest.
import ModularSynth.Ensemble.Split
import ModularSynth.Synth

namespace ModularSynth

/-- Synths that play the parts of a patch side by side. -/
structure Ensemble where
  options : SynthOptions
  synths : List Synth
  mapping : VoiceMapping
  deriving Inhabited

/-- What a core gives back after rendering. -/
structure CoreResult where
  core : Nat
  synth : Synth
  frames : Audio
  report : RenderReport
  deriving Inhabited

namespace Ensemble

/-- A synth for each core of a patch. -/
def create (options : SynthOptions) (patch : Patch) (bpm : Nat) : Except CompileError Ensemble := do
  let split := CoreSplit.ofPatch patch
  let synths ← split.forEachCore (Synth.create options · bpm)
  return { options, synths, mapping := split.mapping }

/-- Change the synths that play a voice. The change is given the number of the voice
there. -/
def onVoice (e : Ensemble) (voice : Nat) (f : Synth → Nat → Synth) : Ensemble :=
  { e with
    synths := e.synths.zipWith (fun s numbers =>
      match numbers[voice]? with
      | some (some number) => f s number
      | _ => s) e.mapping }

def trigger (e : Ensemble) (voice : Nat) (note : Note) : Ensemble :=
  e.onVoice voice (·.trigger · note)

/-- Let go of the note of a voice. -/
def release (e : Ensemble) (voice : Nat) : Ensemble :=
  e.onVoice voice (·.release ·)

/-! ## Taking a new patch -/

/-- Give the synths their parts of a patch, one after the other. A part that does not compile
ends it: the synths before have taken theirs, the others stay as they are. -/
def updateEach (bpm : Nat) :
    List Synth → List (Patch × List Nat) → List Synth × Option CompileError
  | s :: synths, (part, places) :: parts =>
    match s.update part bpm with
    | .error error => (s :: synths, some (CoreSplit.wholeError places error))
    | .ok s =>
      let (synths, error) := updateEach bpm synths parts
      (s :: synths, error)
  | synths, _ => (synths, none)

/-- Take a new patch. If voices change their cores, every synth is made anew; else each
takes its part, once all parts are known to compile. Gives the ensemble as it is left, also
where it cannot take the patch. -/
def update (e : Ensemble) (patch : Patch) (bpm : Nat) : Ensemble × Option CompileError :=
  let split := CoreSplit.ofPatch patch
  if split.mapping ≠ e.mapping then
    match split.forEachCore (Synth.create e.options · bpm) with
    | .error error => (e, some error)
    | .ok synths => ({ e with synths, mapping := split.mapping }, none)
  else
    match split.forEachCore (Bytecode.compile · .all bpm) with
    | .error error => (e, some error)
    | .ok _ =>
      let (synths, error) := updateEach bpm e.synths (split.patches.zip split.instruments)
      ({ e with synths }, error)

/-! ## Rendering -/

/-- Mix frames into the start of a buffer. -/
def mix : (buffer frames : Audio) → Audio
  | a :: buffer, b :: frames => (a + b) :: mix buffer frames
  | buffer, _ => buffer

/-- How far both of two renderings got. -/
def slowest (a b : Progress) : Progress :=
  ⟨min a.samples b.samples, min a.time b.time⟩

/-- What is known after some of the cores have given their results. -/
structure Gathered where
  synths : List Synth
  buffer : Audio
  progress : Option Progress := none
  fault : Option RenderFault := none

/-- Take in the result of a core. The first fault counts. -/
def Gathered.take (g : Gathered) (r : CoreResult) : Gathered :=
  { synths := g.synths.set r.core r.synth
    buffer := mix g.buffer (r.frames.take r.report.progress.samples)
    progress := some <| match g.progress with
      | none => r.report.progress
      | some p => slowest p r.report.progress
    fault := g.fault <|> r.report.fault }

/-- Take in the results of the cores in the order in which they come. A core that gives
none is a fault. -/
def gather (e : Ensemble) (frames : Nat) (results : List CoreResult) :
    Ensemble × Audio × RenderReport :=
  let start : Gathered := { synths := e.synths, buffer := .silent frames }
  let g := results.foldl Gathered.take start
  let lost := if results.length < e.synths.length then some .workerLost else none
  ({ e with synths := g.synths }, g.buffer, ⟨g.progress.getD {}, g.fault <|> lost⟩)

def coreResults (synths : List Synth) (frames : Nat) (maxTime : Int) : List CoreResult :=
  synths.zipIdx.map fun (s, core) =>
    let (s, rendered, report) := s.render (.silent frames) maxTime
    ⟨core, s, rendered, report⟩

/-- Render into a buffer until it is full or the time is up. All of the buffer is written
over, with silence past what the cores give. -/
def render (e : Ensemble) (buffer : Audio) (maxTime : Int) : Ensemble × Audio × RenderReport :=
  let { options, synths, mapping } := e
  let frames := buffer.length
  gather { options, synths := synths.map fun _ => default, mapping } frames
    (coreResults synths frames maxTime)

/-- The number of load figures given when there is room for so many. -/
def loadCount (e : Ensemble) (room : Nat) : Nat :=
  min e.synths.length room

end Ensemble

end ModularSynth
