-- Writing song files, as JSON on one line or as YAML in block style.
import ModularSynth.SongFile.Json
import ModularSynth.Yaml.Block

namespace ModularSynth.Song

def json (s : Song) : String :=
  (SongFile.songToJson s).render

def yaml (s : Song) : String :=
  Yaml.render (SongFile.songToJson s)

end ModularSynth.Song
