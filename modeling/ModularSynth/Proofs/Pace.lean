-- How fast machines go. Only speed units move the time, other than by one for each frame. So
-- machines without them give equally many frames for the same time.
import ModularSynth.Proofs.CompiledPatch
import ModularSynth.Proofs.UnitFrames
import ModularSynth.Synth

namespace ModularSynth

/-- None of the opcodes is that of a speed unit. -/
def SpeedFree (opcodes : List UInt8) : Prop :=
  ∀ op ∈ opcodes, CompiledUnit.kindOf? op ≠ some .speed

instance (opcodes : List UInt8) : Decidable (SpeedFree opcodes) :=
  inferInstanceAs (Decidable (∀ op ∈ opcodes, _))

/-- A patch has speed opcodes only where it has active speed units. -/
theorem Compiled.speedFree {patch : Patch} {bpm : Nat} {b : Bytecode}
    {assembled : List (List AssembledUnit)} (h : Compiled patch bpm b assembled)
    (flags : patch.StereoFlags)
    (none : ∀ instrument ∈ patch.instruments, ∀ u ∈ instrument.units,
      u.activeKind? ≠ some .speed) : SpeedFree b.opcodes := by
  intro op hop hk
  obtain ⟨instrument, hi, u, hu, active⟩ := h.kind_of_opcode flags hop hk
  exact none instrument hi u hu active

/-! ## Frames -/

/-- Two moments have the same time. -/
def SameTime (s s' : Moment) : Prop :=
  s'.time = s.time

theorem SameTime.lasting : Lasting SameTime where
  refl _ := rfl
  trans h h' := h'.trans h
  operands _ _ := rfl
  ready _ _ _ _ _ := rfl

namespace Program

/-- Without speed units a frame keeps the time. -/
theorem runFrame_time (p : Program) (slow : SpeedFree p.bytecode.opcodes) :
    Preserves SameTime p.runFrame := by
  apply runFrame_preserves SameTime.lasting
  rintro op hop kind hk u rfl s
  have other : u.kind ≠ .speed := by
    intro speed
    rw [speed] at hk
    exact slow op hop hk
  exact (u.run_leaves p s).mono (fun _ _ leaves => leaves.time other) fun _ _ leaves =>
    leaves.time other

/-! ## Renderings -/

/-- The samples that a rendering counts are its frames, of which there are no more than it may
have. -/
theorem renderFrom_counts (p : Program) (maxTime : Int) (frames : Nat) (m : Machine)
    (stack : Stack) (scratch : List Signal) (progress : Progress) (done : List Frame)
    (counted : progress.samples = done.length) :
    let r := p.renderFrom maxTime frames m stack scratch progress done
    r.progress.samples = r.frames.length ∧ r.frames.length ≤ done.length + frames := by
  apply p.renderFrom_ends
    (I := fun left _ _ _ now before =>
      now.samples = before.length ∧ before.length + left = done.length + frames)
    (Q := fun r => r.progress.samples = r.frames.length ∧ r.frames.length ≤ done.length + frames)
  · rintro left _ _ _ now before ⟨counted, room⟩ -
    rw [List.length_reverse]
    exact ⟨counted, by omega⟩
  · rintro left _ _ _ now before ⟨counted, room⟩ -
    refine .intro (fun _ s _ => ?_) fun _ s _ => ?_
    · rw [List.length_cons]
      exact ⟨congrArg (· + 1) counted, by omega⟩
    · rw [List.length_reverse]
      exact ⟨counted, by omega⟩
  · exact ⟨counted, rfl⟩

/-- Without speed units, a rendering that gets to its end has a frame for each unit of time, until
it has enough. -/
theorem renderFrom_paced (p : Program) (slow : SpeedFree p.bytecode.opcodes) (maxTime : Int)
    (frames : Nat) (m : Machine) (stack : Stack) (scratch : List Signal) (progress : Progress)
    (done : List Frame)
    (fine : (p.renderFrom maxTime frames m stack scratch progress done).fault = none) :
    (p.renderFrom maxTime frames m stack scratch progress done).frames.length =
      done.length + min frames (maxTime - progress.time).toNat := by
  revert fine
  apply p.renderFrom_ends
    (I := fun left _ _ _ now before => before.length + min left (maxTime - now.time).toNat =
      done.length + min frames (maxTime - progress.time).toNat)
    (Q := fun r => r.fault = none →
      r.frames.length = done.length + min frames (maxTime - progress.time).toNat)
  · intro left _ _ _ now before paced ended _
    rw [List.length_reverse]
    omega
  · intro left _ _ _ now before paced time
    refine (p.runFrame_time slow _).mono (fun _ s kept => ?_) fun _ _ _ fine => by cases fine
    rw [List.length_cons, show s.time = now.time from kept]
    dsimp only
    omega
  · rfl

end Program

end ModularSynth
