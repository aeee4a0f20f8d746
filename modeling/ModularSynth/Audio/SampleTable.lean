-- The table of recorded samples that oscillators can play, as the bytes of its file.
import ModularSynth.Audio.Frame

namespace ModularSynth

/-- Recorded samples, 16 bits each, low byte first. -/
structure SampleTable where
  bytes : ByteArray := ByteArray.empty
  deriving Inhabited

namespace SampleTable

/-- No more than this many bytes of a file are read. -/
def maxSize : Nat := 3440660

/-- The table in the contents of a file. -/
def ofFile (contents : ByteArray) : SampleTable :=
  ⟨contents.extract 0 maxSize⟩

def isEmpty (t : SampleTable) : Bool :=
  t.bytes.size == 0

/-- The word whose low and high byte are given, as a signed number. -/
def word (low high : UInt8) : Int16 :=
  (low.toUInt16 ||| (high.toUInt16 <<< 8)).toInt16

/-- The sample at an index, between -1 and 1; silence outside the table. -/
def read (t : SampleTable) (index : Int) : Signal :=
  if 0 ≤ index then
    let start := index.toNat * 2
    match t.bytes[start]?, t.bytes[start + 1]? with
    | some low, some high => (word low high).toFloat32 / 32767.0
    | _, _ => 0.0
  else 0.0

/-- A path under a directory; the empty directory adds nothing. -/
def under (directory path : String) : String :=
  if directory.isEmpty || directory.endsWith "/" then directory ++ path
  else directory ++ "/" ++ path

/-- The places where the table is looked for, in order: the working directory, and the
driver directories of the system if its root is known. -/
def searchPaths (systemRoot : Option String) : List String :=
  "gm.dls" ::
    match systemRoot with
    | none => []
    | some root => ["system32", "SysWOW64"].map fun d => under root (d ++ "/drivers/gm.dls")

end SampleTable

end ModularSynth
