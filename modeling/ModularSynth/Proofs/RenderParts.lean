-- Rendering in parts. Two render calls in turn, the second with the time that is left, do the
-- same as one call for all frames: every frame begins with an empty stack, and what a call starts
-- afresh, the time and the array of parameters, no frame reads.
import ModularSynth.Proofs.Lockstep
import ModularSynth.Proofs.StackDepth
import ModularSynth.Synth

namespace ModularSynth

/-- Progress made after other progress. -/
def Progress.plus (first later : Progress) : Progress :=
  ⟨first.samples + later.samples, first.time + later.time⟩

@[simp]
theorem Progress.plus_zero (progress : Progress) : progress.plus {} = progress := by
  simp [plus]

namespace Program

/-- A rendering that goes on after another one. -/
def Rendering.append (first later : Rendering) : Rendering :=
  ⟨later.machine, first.frames ++ later.frames, first.progress.plus later.progress, later.fault⟩

/-! ## Later renderings -/

/-- A rendering that follows on frames is one that starts afresh with the time that is left. -/
theorem renderFrom_later (p : Program) (maxTime : Int) (frames : Nat) (m : Machine) (stack : Stack)
    (scratch fresh : List Signal) (before progress : Progress) (earlier done : List Frame) :
    p.renderFrom maxTime frames m stack scratch (before.plus progress) (done ++ earlier) =
      Rendering.append ⟨m, earlier.reverse, before, none⟩
        (p.renderFrom (maxTime - before.time) frames m stack fresh progress done) := by
  induction frames generalizing m stack scratch fresh progress done with
  | zero => simp [renderFrom, Rendering.append]
  | succ frames ih =>
    have alike : Moment.Alike before.time
        ⟨m, stack, p.bytecode.operands, 0, progress.time, fresh⟩
        ⟨m, stack, p.bytecode.operands, 0, (before.plus progress).time, scratch⟩ :=
      ⟨scratch, by simp only [Progress.plus, Int.add_comm before.time]⟩
    have frame := p.runFrame_keepsPace before.time _ _ alike
    rw [renderFrom, renderFrom]
    by_cases time : progress.time < maxTime - before.time
    · rw [if_pos (show (before.plus progress).time < maxTime by simp only [Progress.plus]; omega),
        if_pos time]
      cases hr : p.runFrame.run ⟨m, stack, p.bytecode.operands, 0, progress.time, fresh⟩ with
      | ok _ s =>
        rw [hr] at frame
        obtain ⟨_, there, scratch', rfl⟩ := frame.of_ok
        rw [there]
        have next : (⟨(before.plus progress).samples + 1, s.time + before.time + 1⟩ : Progress) =
            before.plus ⟨progress.samples + 1, s.time + 1⟩ := by
          simp only [Progress.plus, Progress.mk.injEq]
          omega
        simp only [next, ← List.cons_append]
        exact ih _ _ _ _ _ _
      | error fault s =>
        rw [hr] at frame
        obtain ⟨_, there, scratch', rfl⟩ := frame.of_error
        rw [there]
        simp [Rendering.append, Progress.plus, Int.add_comm]
    · rw [if_neg (show ¬ (before.plus progress).time < maxTime by simp only [Progress.plus]; omega),
        if_neg time]
      simp [Rendering.append]

/-- Once the time is up, nothing is rendered. -/
theorem renderFrom_idle (p : Program) {maxTime : Int} {progress : Progress}
    (up : ¬ progress.time < maxTime) (frames : Nat) (m : Machine) (stack : Stack)
    (scratch : List Signal) (done : List Frame) :
    p.renderFrom maxTime frames m stack scratch progress done =
      ⟨m, done.reverse, progress, none⟩ := by
  cases frames with
  | zero => rfl
  | succ frames => rw [renderFrom, if_neg up]

/-- A rendering without a fault gives all frames, or the time is up. -/
theorem renderFrom_length (p : Program) (maxTime : Int) (frames : Nat) (m : Machine)
    (stack : Stack) (scratch : List Signal) (progress : Progress) (done : List Frame)
    (fine : (p.renderFrom maxTime frames m stack scratch progress done).fault = none) :
    (p.renderFrom maxTime frames m stack scratch progress done).frames.length =
        done.length + frames ∨
      (p.renderFrom maxTime frames m stack scratch progress done).frames.length ≤
          done.length + frames ∧
        maxTime ≤ (p.renderFrom maxTime frames m stack scratch progress done).progress.time := by
  revert fine
  apply p.renderFrom_ends
    (I := fun left _ _ _ _ before => before.length + left = done.length + frames)
    (Q := fun r => r.fault = none → r.frames.length = done.length + frames ∨
      r.frames.length ≤ done.length + frames ∧ maxTime ≤ r.progress.time)
  · intro left _ _ _ now before room ended _
    rw [List.length_reverse]
    rcases ended with none | late
    · exact .inl (by omega)
    · exact .inr ⟨by omega, late⟩
  · intro left _ _ _ now before room _
    refine .intro (fun _ s _ => ?_) fun _ _ _ fine => by cases fine
    rw [List.length_cons]
    omega
  · rfl

/-- After a rendering without a fault that has fewer frames than it may have, the machine has no
time left for more. -/
theorem render_full_or_idle (p : Program) {frames : Nat} {m : Machine} {maxTime : Int}
    (fine : (p.render m frames maxTime).fault = none) :
    (p.render m frames maxTime).frames.length = frames ∨
      (p.render m frames maxTime).frames.length ≤ frames ∧ ∀ m' more,
        (p.render m' more (maxTime - (p.render m frames maxTime).progress.time)).frames = [] := by
  unfold render at fine ⊢
  rcases p.renderFrom_length maxTime frames m Stack.start Moment.scratchStart {} [] fine with
    full | ⟨few, up⟩
  · left
    simpa using full
  · refine .inr ⟨by simpa using few, fun m' more => ?_⟩
    rw [p.renderFrom_idle (by simp; omega)]
    rfl

section Parts

variable (p : Program) {patch : Patch} {bpm : Nat} {assembled : List (List AssembledUnit)}
  (h : Compiled patch bpm p.bytecode assembled) (inside : patch.InCatalogue)
  (safe : patch.NoUnderflow)
include h inside safe

/-- A rendering is its first frames, and then those that the machine renders afresh. -/
theorem renderFrom_append (maxTime : Int) (frames more : Nat) (m : Machine)
    (scratch : List Signal) (progress : Progress) (done : List Frame)
    (fine : (p.renderFrom maxTime frames m Stack.start scratch progress done).fault = none) :
    p.renderFrom maxTime (frames + more) m Stack.start scratch progress done =
      (p.renderFrom maxTime frames m Stack.start scratch progress done).append
        (p.render (p.renderFrom maxTime frames m Stack.start scratch progress done).machine more
          (maxTime -
            (p.renderFrom maxTime frames m Stack.start scratch progress done).progress.time)) := by
  induction frames generalizing m scratch progress done with
  | zero =>
    have later := p.renderFrom_later maxTime more m Stack.start scratch Moment.scratchStart progress
      {} done []
    rw [Progress.plus_zero] at later
    rw [Nat.zero_add]
    exact later
  | succ frames ih =>
    rw [Nat.succ_add]
    simp only [renderFrom] at fine ⊢
    by_cases time : progress.time < maxTime
    · have frame := p.runFrame_above h inside safe
        (s := ⟨m, Stack.start, p.bytecode.operands, 0, progress.time, scratch⟩) rfl rfl
      rw [if_pos time] at fine ⊢
      cases hr : p.runFrame.run ⟨m, Stack.start, p.bytecode.operands, 0, progress.time, scratch⟩ with
      | ok _ s =>
        rw [hr] at fine
        simp only [(frame.of_ok hr).1] at fine ⊢
        rw [if_pos time]
        exact ih _ _ _ _ fine
      | error fault s =>
        rw [hr] at fine
        cases fine
    · rw [if_neg time, if_neg time, render, p.renderFrom_idle (by simp; omega)]
      simp [Rendering.append]

end Parts

end Program

/-- Two buffers are written over one after the other, if the frames for the first fill it or there
are none for the second. -/
theorem Audio.overwrite_append (x y first later : Audio)
    (h : first.length = x.length ∨ first.length ≤ x.length ∧ later = []) :
    overwrite (x ++ y) (first ++ later) = overwrite x first ++ overwrite y later := by
  unfold overwrite
  rcases h with full | ⟨few, rfl⟩
  · have fits : (x ++ y).length = first.length + y.length := by simp [full]
    have gone : (first ++ later).length = x.length + later.length := by simp [full]
    rw [fits, gone, List.take_length_add_append, List.drop_length_add_append]
    simp [← full]
  · simp [List.take_of_length_le, few, Nat.le_add_right_of_le few, List.drop_append_of_le_length few]

/-- Rendering does not depend on how it is cut into calls. Where no unit of a patch lacks signals,
a call that has no fault and one after it for the time that is left fill two buffers as one call
fills both together: the same frames, the same synth, the same fault if there is one, and the
samples and times of the two calls add up. For a frame ends with the stack it began with, and does
the same whatever has been left in the array of parameters. -/
theorem render_in_parts {patch : Patch} {bpm : Nat} {b : Bytecode}
    (compiled : Bytecode.compile patch .all bpm = .ok b) (inside : patch.InCatalogue)
    (safe : patch.NoUnderflow) {s : Synth} (hs : s.program.bytecode = b) :
    (∀ (x y : Audio) (maxTime : Int) (s₁ s₂ : Synth) (x' y' : Audio) (first later : RenderReport),
      s.render x maxTime = (s₁, x', first) → first.fault = none →
      s₁.render y (maxTime - first.progress.time) = (s₂, y', later) →
      s.render (x ++ y) maxTime =
        (s₂, x' ++ y', ⟨first.progress.plus later.progress, later.fault⟩)) ∧
    ∀ t : Moment, t.operands = b.operands → t.stack = Stack.start →
      Ends s.program.runFrame t (fun _ t' => t'.stack = Stack.start) (fun _ _ => True) ∧
      ∀ scratch, EndsAlike 0 (s.program.runFrame.run t)
        (s.program.runFrame.run { t with scratch }) := by
  obtain ⟨assembled, h⟩ := Bytecode.compile_ok compiled
  subst hs
  obtain ⟨p, m⟩ := s
  refine ⟨?_, fun t ho stack => ⟨?_, fun scratch => ?_⟩⟩
  · rintro x y maxTime s₁ s₂ x' y' first later hx fine hy
    cases hx
    cases hy
    have whole := p.renderFrom_append h inside safe maxTime x.length y.length m
      Moment.scratchStart {} [] fine
    have filled := Audio.overwrite_append x y _ _ ((p.render_full_or_idle fine).imp_right
      fun idle => ⟨idle.1, idle.2 (p.render m x.length maxTime).machine y.length⟩)
    unfold Synth.render
    simp only [List.length_append]
    rw [Program.render, whole, Program.Rendering.append, ← filled]
    rfl
  · exact (p.runFrame_above h inside safe ho stack).mono (fun _ _ ends => ends.1) fun _ _ _ => trivial
  · exact p.runFrame_keepsPace 0 _ _ ⟨scratch, by simp⟩

theorem render_in_parts_echo :
    ∃ s : Synth, Synth.create {} echoPatch 100 = .ok s ∧
      (s.render (.silent 2) 10).2.2.fault = none ∧
      ∀ (s₂ : Synth) (y' : Audio) (later : RenderReport),
        (s.render (.silent 2) 10).1.render (.silent 3)
            (10 - (s.render (.silent 2) 10).2.2.progress.time) = (s₂, y', later) →
          s.render (.silent 5) 10 = (s₂, (s.render (.silent 2) 10).2.1 ++ y',
            ⟨(s.render (.silent 2) 10).2.2.progress.plus later.progress, later.fault⟩) := by
  obtain ⟨b, compiled⟩ : ∃ b, Bytecode.compile echoPatch .all 100 = .ok b := ⟨_, rfl⟩
  obtain ⟨s, made, hs, fine⟩ : ∃ s : Synth, Synth.create {} echoPatch 100 = .ok s ∧
      s.program.bytecode = b ∧ (s.render (.silent 2) 10).2.2.fault = none := by
    have made : ∃ s, Synth.create {} echoPatch 100 = .ok s ∧
        (s.render (.silent 2) 10).2.2.fault = none := ⟨_, rfl, by decide +kernel⟩
    obtain ⟨s, made, fine⟩ := made
    refine ⟨s, made, ?_, fine⟩
    rw [Synth.create, compiled] at made
    cases made
    rfl
  refine ⟨s, made, fine, fun s₂ y' later hy => ?_⟩
  exact (render_in_parts compiled (by decide +kernel) (by decide +kernel) hs).1 (.silent 2)
    (.silent 3) 10 _ s₂ _ y' _ later rfl fine hy

end ModularSynth
