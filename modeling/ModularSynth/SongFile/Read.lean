-- Reading song files: as JSON, or if that fails as YAML. What many files leave out is
-- filled in afterwards.
import ModularSynth.Json.Parser
import ModularSynth.SongFile.Json
import ModularSynth.SongFile.Yaml

namespace ModularSynth

namespace SongFile

/-- The song that a JSON text holds. -/
def songOfJson? (contents : List UInt8) : Option Song :=
  Json.Value.ofBytes? contents >>= ofJson? jsonDocument.song

/-- The song that a YAML text holds. -/
def songOfYaml? (contents : List UInt8) : Option Song := do
  let text ← String.fromUTF8? ⟨contents.toArray⟩
  songOfGraph? (← Yaml.Graph.ofText? text.toList)

end SongFile

def Song.ofFile? (contents : List UInt8) : Option Song :=
  ((SongFile.songOfJson? contents).or (SongFile.songOfYaml? contents)).map Song.withDefaults

end ModularSynth
