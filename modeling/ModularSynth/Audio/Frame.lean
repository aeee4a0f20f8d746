-- Stereo frames of audio and the bytes they are stored as.
namespace ModularSynth

/-- The value of a signal. -/
abbrev Signal := Float32

namespace Signal

/-- The greater of two signals; a signal that is no number gives way to the other. -/
def greater (a b : Signal) : Signal :=
  if a.isNaN then b else if b.isNaN then a else if a < b then b else a

/-- The lesser of two signals; a signal that is no number gives way to the other. -/
def lesser (a b : Signal) : Signal :=
  if a.isNaN then b else if b.isNaN then a else if b < a then b else a

/-- The nearest signal between -1 and 1. -/
def clip (x : Signal) : Signal :=
  lesser (greater x (-1.0)) 1.0

end Signal

/-- A left and a right sample. -/
structure Frame where
  left : Signal
  right : Signal
  deriving Inhabited

namespace Frame

def silence : Frame := ⟨0.0, 0.0⟩

def mono (x : Signal) : Frame := ⟨x, x⟩

def add (a b : Frame) : Frame := ⟨a.left + b.left, a.right + b.right⟩

instance : Add Frame := ⟨Frame.add⟩

def scale (a : Frame) (k : Signal) : Frame := ⟨a.left * k, a.right * k⟩

instance : HMul Frame Signal Frame := ⟨Frame.scale⟩

def isFinite (a : Frame) : Bool :=
  a.left.isFinite && a.right.isFinite

/-- A signal as a whole number of 16 bits. It is clipped first and then cut off toward
zero. -/
def toInt16 (x : Signal) : Int16 :=
  (x.clip * 32767.0).toInt16

end Frame

/-- Frames in the order they are heard. -/
abbrev Audio := List Frame

namespace Audio

def silent (frames : Nat) : Audio :=
  List.replicate frames .silence

/-- A buffer whose first frames are written over. -/
def overwrite (buffer frames : Audio) : Audio :=
  frames.take buffer.length ++ buffer.drop frames.length

end Audio

end ModularSynth
