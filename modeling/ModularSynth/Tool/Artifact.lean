-- What the tool makes of a song: a listing and audio, or the song in another format.
import ModularSynth.SongFile.Read
import ModularSynth.SongFile.Write
import ModularSynth.Files.Disk
import ModularSynth.Tool.Listing

namespace ModularSynth

/-! ## Errors -/

/-- Why the tool fails. -/
inductive ToolError
  | unreadable (path : Path) (cause : FileError)
  | noSong
  | song (cause : PlayError)
  | templates (directory : Path)
  | wouldOverwrite (path : Path)
  | createDirectory (path : Path) (cause : FileError)
  | writeFile (path : Path) (cause : FileError)
  | listDirectory (path : Path) (cause : FileError)
  | output (cause : FileError)
  | workingDirectory (cause : FileError)
  deriving DecidableEq, Repr, Inhabited

def ToolError.message : ToolError → String
  | .unreadable path cause => s!"Could not read {path.text}: {cause.message}"
  | .noSong => "Song could not be parsed"
  | .song cause => cause.message
  | .templates directory => s!"Templates are not supported, but {directory.text} was given"
  | .wouldOverwrite path => s!"File {path.text} would be overwritten"
  | .createDirectory path cause => s!"Could not create directory {path.text}: {cause.message}"
  | .writeFile path cause => s!"Could not write {path.text}: {cause.message}"
  | .listDirectory path cause => s!"Could not list {path.text}: {cause.message}"
  | .output cause => s!"Could not write to standard output: {cause.message}"
  | .workingDirectory cause =>
    "Could not get the working directory, give an output directory explicitly: " ++ cause.message

/-! ## Artifacts -/

/-- A file to put out, before it is known where. -/
structure Artifact where
  /-- The extension without its dot. -/
  extension : String
  contents : List UInt8
  deriving DecidableEq, Repr, Inhabited

namespace Artifact

def ofText (extension text : String) : Artifact :=
  ⟨extension, text.toUTF8.toList⟩

end Artifact

namespace ToolOptions

/-- On what kind of synth a song is played. -/
def engineFor (o : ToolOptions) (song : Song) : Engine :=
  if o.singleThread || song.patch.numCores == 1 then .single else .parallel

/-- The audio of a song as a file. -/
def audioOf (o : ToolOptions) (samples : SampleTable) (song : Song) :
    Except PlayError Artifact := do
  let audio ← song.play (o.engineFor song) { samples } true
  return ⟨"wav", audio.wav o.sampleFormat⟩

/-- What a song is compiled into. The listing must be possible even if it is not put out. -/
def compiled (o : ToolOptions) (samples : SampleTable) (song : Song) :
    Except PlayError (List Artifact) := do
  let listing ← song.listing o
  let audio ← if o.keeps "wav" then do pure [← o.audioOf samples song] else pure []
  return (if o.keeps "lst" then [.ofText "lst" listing] else []) ++ audio

def converted (o : ToolOptions) (song : Song) : List Artifact :=
  (if o.json then [.ofText "json" song.json] else []) ++
    if o.yaml then [.ofText "yml" song.yaml] else []

def artifactsOf (o : ToolOptions) (samples : SampleTable) (song : Song) :
    Except PlayError (List Artifact) :=
  if o.compiles then o.compiled samples song else .ok (o.converted song)

/-- What is put out besides songs: the listing of the machine. -/
def libraryArtifacts (o : ToolOptions) : List Artifact :=
  if o.library && o.keeps "lst" then [.ofText "lst" Listing.machine] else []

end ToolOptions

end ModularSynth
