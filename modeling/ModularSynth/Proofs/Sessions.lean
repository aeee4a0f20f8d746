-- A synth in use. It is made for a patch, and from then on it is told in any order to play notes,
-- to take another patch and to render. A patch that does not compile is refused and changes nothing.
import ModularSynth.Proofs.FrameStarts
import ModularSynth.Proofs.Updates

namespace ModularSynth

/-! ## Requests -/

/-- What a synth is asked for. -/
inductive SynthRequest
  | trigger (voice : Nat) (note : Note)
  | release (voice : Nat)
  | update (patch : Patch) (bpm : Nat)
  | render (buffer : Audio) (maxTime : Int)

/-- A synth, with the patch and the tempo that it plays. -/
structure SynthSession where
  patch : Patch
  bpm : Nat
  synth : Synth

namespace SynthSession

/-- The session after a request. -/
def serve (x : SynthSession) : SynthRequest → SynthSession
  | .trigger voice note => { x with synth := x.synth.trigger voice note }
  | .release voice => { x with synth := x.synth.release voice }
  | .update patch bpm =>
    match x.synth.update patch bpm with
    | .ok synth => ⟨patch, bpm, synth⟩
    | .error _ => x
  | .render buffer maxTime => { x with synth := (x.synth.render buffer maxTime).1 }

/-- The session after some requests. -/
def serveAll (x : SynthSession) (requests : List SynthRequest) : SynthSession :=
  requests.foldl serve x

/-- The moments in which the frames of a request start. -/
def starts (x : SynthSession) : SynthRequest → List Moment
  | .render buffer maxTime => x.synth.program.starts x.synth.machine buffer.length maxTime
  | _ => []

/-- What requests can bring about. -/
inductive Reached (options : SynthOptions) : SynthSession → Prop
  | create {patch : Patch} {bpm : Nat} {synth : Synth} :
    Synth.create options patch bpm = .ok synth → Reached options ⟨patch, bpm, synth⟩
  | serve {x : SynthSession} (request : SynthRequest) :
    Reached options x → Reached options (x.serve request)

end SynthSession

/-! ## Taking a patch -/

theorem Voice.fresh_slot (note : Note) (sustain : Bool) (slot : Nat) :
    Voice.slot { note, sustain } slot = {} := by
  unfold Voice.slot
  by_cases inside : slot < maxUnits
  · simp [inside]
  · simp [inside]

namespace Synth

theorem update_compiled {s s' : Synth} {patch : Patch} {bpm : Nat}
    (h : s.update patch bpm = .ok s') :
    ∃ b, Bytecode.compile patch .all bpm = .ok b ∧ s' = s.load b patch.numDelayLines := by
  unfold Synth.update at h
  obtain ⟨b, compiled, h⟩ := bind_eq_ok h
  cases h
  exact ⟨b, compiled, rfl⟩

/-- A new patch changes nothing on the bus. -/
theorem load_bus (s : Synth) (b : Bytecode) (lines : Nat) :
    (s.load b lines).machine.bus = s.machine.bus := by
  unfold load
  simp only
  split
  · rfl
  · rfl

/-- With the same opcodes, the voices stay as they are. -/
theorem load_same (s : Synth) {b : Bytecode} (lines : Nat)
    (same : b.opcodes = s.program.bytecode.opcodes) :
    (s.load b lines).machine.voices = s.machine.voices := by
  unfold load
  simp only
  rw [if_pos same]
  rfl

/-- With other opcodes, no unit remembers anything. -/
theorem load_other (s : Synth) {b : Bytecode} (lines : Nat)
    (other : b.opcodes ≠ s.program.bytecode.opcodes) (voice slot : Nat) :
    (s.load b lines).machine.slot voice slot = {} := by
  unfold load
  simp only
  rw [if_neg other]
  unfold Machine.slot Machine.voice Machine.refresh
  simp only [Vector.getElem?_map]
  cases (s.machine.reserveLines lines).voices[voice]? with
  | none => exact Voice.fresh_slot 0 false slot
  | some v => exact Voice.fresh_slot v.note v.sustain slot

end Synth

namespace SynthSession

variable {options : SynthOptions} {x : SynthSession}

theorem serve_update_of_ok {patch : Patch} {bpm : Nat} {synth : Synth}
    (updated : x.synth.update patch bpm = .ok synth) :
    x.serve (.update patch bpm) = ⟨patch, bpm, synth⟩ := by
  unfold serve
  simp only
  rw [updated]

/-- A patch is refused, or the synth plays its bytecode from then on. -/
theorem serve_update (x : SynthSession) (patch : Patch) (bpm : Nat) :
    x.serve (.update patch bpm) = x ∨ ∃ b, Bytecode.compile patch .all bpm = .ok b ∧
      x.synth.update patch bpm = .ok (x.synth.load b patch.numDelayLines) ∧
        x.serve (.update patch bpm) = ⟨patch, bpm, x.synth.load b patch.numDelayLines⟩ := by
  cases updated : x.synth.update patch bpm with
  | error e =>
    left
    unfold serve
    simp only
    rw [updated]
  | ok synth =>
    right
    obtain ⟨b, compiled, rfl⟩ := Synth.update_compiled updated
    exact ⟨b, compiled, rfl, serve_update_of_ok updated⟩

/-- A synth always plays the bytecode of its patch. -/
theorem Reached.compiled (h : Reached options x) :
    Bytecode.compile x.patch .all x.bpm = .ok x.synth.program.bytecode := by
  induction h with
  | create made =>
    obtain ⟨b, compiled, rfl⟩ := Synth.create_compiled made
    exact compiled
  | @serve x request _ ih =>
    cases request with
    | trigger voice note => exact ih
    | release voice => exact ih
    | render buffer maxTime => exact ih
    | update patch bpm =>
      rcases x.serve_update patch bpm with same | ⟨b, compiled, -, served⟩
      · rw [same]
        exact ih
      · rw [served]
        exact compiled

theorem starts_operands (x : SynthSession) (request : SynthRequest) :
    ∀ s ∈ x.starts request, s.operands = x.synth.program.bytecode.operands := by
  intro s hs
  cases request with
  | render buffer maxTime => exact (x.synth.program.starts_operands _ _ _ s hs).1
  | trigger | release | update => cases hs

theorem Reached.serveAll (h : Reached options x) (requests : List SynthRequest) :
    Reached options (x.serveAll requests) := by
  induction requests generalizing x with
  | nil => exact h
  | cons request rest ih => exact ih (h.serve request)

/-- What a synth takes for a fault is settled when it is made. -/
theorem Reached.trap (h : Reached options x) : x.synth.program.trap = options.trap := by
  induction h with
  | create made =>
    obtain ⟨b, -, rfl⟩ := Synth.create_compiled made
    rfl
  | @serve x request _ ih =>
    cases request with
    | trigger voice note => exact ih
    | release voice => exact ih
    | render buffer maxTime => exact ih
    | update patch bpm =>
      rcases x.serve_update patch bpm with same | ⟨b, -, -, served⟩
      · rw [same]
        exact ih
      · rw [served]
        exact ih

end SynthSession

end ModularSynth
