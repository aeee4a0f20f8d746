-- The signal stack, topmost signal first, and what the units do to it that need nothing
-- else. Of a stereo signal the left channel is on top. A stack that is too short is left
-- as it is.
import ModularSynth.Machine.Shaping

namespace ModularSynth

/-- Signals, topmost first. -/
abbrev Stack := List Signal

namespace Stack

/-- At the bottom of the stack stand this many zeros, and a frame must end with exactly
as many signals. -/
def floor : Nat := 4

/-- The stack at the start. -/
def start : Stack := List.replicate floor 0.0

/-- Put the same signal on each channel. -/
def pushAll (channels : Nat) (x : Signal) (s : Stack) : Stack :=
  List.replicate channels x ++ s

/-- Change the topmost signals. -/
def mapTop (f : Signal → Signal) : Nat → Stack → Stack
  | n + 1, x :: s => f x :: mapTop f n s
  | _, s => s

/-- Change the topmost signals by those below them: in stereo, each channel by its own. -/
def combine (f : Signal → Signal → Signal) (stereo : Bool) (s : Stack) : Stack :=
  match stereo, s with
  | false, a :: b :: s => f a b :: b :: s
  | true, a :: b :: c :: d :: s => f a c :: f b d :: c :: d :: s
  | _, s => s

/-- Take the topmost signals off and change those below by them. -/
def combinePop (f : Signal → Signal → Signal) (stereo : Bool) (s : Stack) : Stack :=
  match stereo, s with
  | false, a :: b :: s => f b a :: s
  | true, a :: b :: c :: d :: s => f c a :: f d b :: s
  | _, s => s

/-- Exchange the topmost signals with those below them. -/
def exchange (stereo : Bool) (s : Stack) : Stack :=
  match stereo, s with
  | false, a :: b :: s => b :: a :: s
  | true, a :: b :: c :: d :: s => c :: d :: a :: b :: s
  | _, s => s

/-- Put a copy of the topmost signals on top. -/
def duplicate (stereo : Bool) (s : Stack) : Stack :=
  match stereo, s with
  | false, a :: s => a :: a :: s
  | true, a :: b :: s => a :: b :: a :: b :: s
  | _, s => s

/-- Spread a signal between left and right. A mono signal becomes stereo. -/
def pan (panning : Signal) (stereo : Bool) (s : Stack) : Stack :=
  match stereo, s with
  | false, a :: s => a * (1.0 - panning) :: a * panning :: s
  | true, a :: b :: s => a * (1.0 - panning) :: b * panning :: s
  | _, s => s

end Stack

end ModularSynth
