-- What a machine remembers from frame to frame: the bus, the seed of its noise, the
-- clock of its delays, the voices with a place for each unit, and the delay lines. A
-- place out of range reads as fresh, and a change to one is no change.
import ModularSynth.Audio.Frame
import ModularSynth.Bytecode.Basic
import ModularSynth.Song

namespace ModularSynth

/-- Change one element of a vector. -/
def adjust {α : Type} {n : Nat} (v : Vector α n) (i : Nat) (f : α → α) : Vector α n :=
  ⟨v.toArray.modify i f, by simp⟩

/-! ## Voices -/

/-- What a unit of a voice remembers, and what sends have brought to its ports. -/
structure Slot where
  cells : Vector Signal 8 := Vector.replicate 8 0.0
  ports : Vector Signal 8 := Vector.replicate 8 0.0

namespace Slot

instance : Inhabited Slot := ⟨{}⟩

def cell (s : Slot) (i : Nat) : Signal :=
  s.cells[i]?.getD 0.0

def setCell (s : Slot) (i : Nat) (x : Signal) : Slot :=
  { s with cells := s.cells.setIfInBounds i x }

/-- What has been sent to a port. -/
def port (s : Slot) (i : Nat) : Signal :=
  s.ports[i]?.getD 0.0

def clearPort (s : Slot) (i : Nat) : Slot :=
  { s with ports := s.ports.setIfInBounds i 0.0 }

/-- Add a signal to a port. What is sent past the last port is lost. -/
def addToPort (s : Slot) (i : Nat) (x : Signal) : Slot :=
  { s with ports := adjust s.ports i (· + x) }

def clearPorts (s : Slot) : Nat → Slot
  | 0 => s
  | n + 1 => (s.clearPorts n).clearPort n

end Slot

/-- A voice: the note it plays, whether the note is still held, and its units. -/
structure Voice where
  note : Note := 0
  sustain : Bool := false
  slots : Vector Slot maxUnits := Vector.replicate maxUnits {}

namespace Voice

instance : Inhabited Voice := ⟨{}⟩

def slot (v : Voice) (i : Nat) : Slot :=
  v.slots[i]?.getD {}

/-- A voice that starts to play a note, with nothing left of what it played before. -/
def playing (note : Note) : Voice :=
  { note, sustain := true }

/-- The voice with its note let go. -/
def released (v : Voice) : Voice :=
  { v with sustain := false }

def refreshed (v : Voice) : Voice :=
  { note := v.note, sustain := v.sustain }

end Voice

/-! ## Delay lines -/

/-- The number of samples a delay line holds, as many as a delay time can count. -/
def delayLineLength : Nat := 65536

/-- The last samples that a delay took in, in a ring, and the memory of its filters. -/
structure DelayLine where
  ring : Vector Signal delayLineLength := Vector.replicate delayLineLength 0.0
  damped : Signal := 0.0
  dcInput : Signal := 0.0
  dcOutput : Signal := 0.0

namespace DelayLine

instance : Inhabited DelayLine := ⟨{}⟩

/-- The sample at a time of the clock. -/
def sample (l : DelayLine) (time : UInt16) : Signal :=
  l.ring.get ⟨time.toNat, UInt16.toNat_lt time⟩

/-- Put a sample at a time of the clock. -/
def setSample (l : DelayLine) (time : UInt16) (x : Signal) : DelayLine :=
  { l with ring := l.ring.set time.toNat x (UInt16.toNat_lt time) }

end DelayLine

/-! ## Machines -/

/-- What a machine remembers. -/
structure Machine where
  /-- Channels shared by all voices; the first two are what is heard. -/
  bus : Vector Signal 8 := Vector.replicate 8 0.0
  seed : UInt32 := 1
  /-- The number of frames so far, by which delays find their samples. -/
  clock : UInt32 := 0
  voices : Vector Voice maxVoices := Vector.replicate maxVoices {}
  lines : Array DelayLine := #[]

namespace Machine

instance : Inhabited Machine := ⟨{}⟩

/-- A machine in which nothing has happened, with so many delay lines. -/
def fresh (lines : Nat) : Machine :=
  { lines := Array.replicate lines {} }

def voice (m : Machine) (v : Nat) : Voice :=
  m.voices[v]?.getD {}

/-- The memory of a unit of a voice. -/
def slot (m : Machine) (v s : Nat) : Slot :=
  (m.voice v).slot s

def adjustVoice (m : Machine) (v : Nat) (f : Voice → Voice) : Machine :=
  { m with voices := adjust m.voices v f }

/-- Change the memory of a unit of a voice. -/
def adjustSlot (m : Machine) (v s : Nat) (f : Slot → Slot) : Machine :=
  m.adjustVoice v fun voice => { voice with slots := adjust voice.slots s f }

def trigger (m : Machine) (v : Nat) (note : Note) : Machine :=
  m.adjustVoice v fun _ => .playing note

/-- Let go of the note of a voice. -/
def release (m : Machine) (v : Nat) : Machine :=
  m.adjustVoice v (·.released)

/-- Forget what the units of all voices remember. -/
def refresh (m : Machine) : Machine :=
  { m with voices := m.voices.map (·.refreshed) }

/-- Have at least so many delay lines. -/
def reserveLines (m : Machine) (count : Nat) : Machine :=
  { m with lines := m.lines ++ Array.replicate (count - m.lines.size) {} }

/-- The signal on a channel of the bus. -/
def channel (m : Machine) (i : Nat) : Signal :=
  m.bus[i]?.getD 0.0

/-- Mix a signal into a channel of the bus. -/
def mixInto (m : Machine) (i : Nat) (x : Signal) : Machine :=
  { m with bus := adjust m.bus i (· + x) }

def silence (m : Machine) (i : Nat) : Machine :=
  { m with bus := m.bus.setIfInBounds i 0.0 }

/-- The next random number between -1 and 1. -/
def random (m : Machine) : Signal × Machine :=
  let seed := m.seed * 16007
  (seed.toInt32.toFloat32 / (-2147483648.0), { m with seed })

def output (m : Machine) : Frame :=
  ⟨m.channel 0, m.channel 1⟩

/-- The machine after its frame has been taken off the bus. -/
def advance (m : Machine) : Machine :=
  { (m.silence 0).silence 1 with clock := m.clock + 1 }

end Machine

end ModularSynth
