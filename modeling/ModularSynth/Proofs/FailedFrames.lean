-- What a failed call reports. The frames before the one that fails are written and counted, and a
-- call for just these does the same without a fault. The time alone may go further: a speed unit
-- moves it in its turn, and what it has moved in the frame that fails is not taken back.
import ModularSynth.Proofs.CoreRender
import ModularSynth.Proofs.FrameStarts
import ModularSynth.Proofs.Turns
import ModularSynth.Proofs.UnitFrames

namespace ModularSynth

/-! ## Moving the time -/

/-- By how much the turn of a unit moves the time. -/
def Turn.moves (t : Turn) : Int :=
  match t.unit.kind, t.moment.stack with
  | .speed, x :: _ => (speedStep ((t.moment.machine.slot t.unit.voice t.unit.slot).cell 0) x).1
  | _, _ => 0

/-- By how much turns move the time. -/
def totalMoves : List Turn → Int
  | [] => 0
  | t :: ts => t.moves + totalMoves ts

theorem totalMoves_append (ts us : List Turn) :
    totalMoves (ts ++ us) = totalMoves ts + totalMoves us := by
  induction ts with
  | nil => exact (Int.zero_add _).symm
  | cons t ts ih => rw [List.cons_append, totalMoves, totalMoves, ih, Int.add_assoc]

/-- The time has moved as far as turns move it. -/
def MovesTime (ts : List Turn) (s s' : Moment) : Prop :=
  s'.time = s.time + totalMoves ts

namespace Program

variable (p : Program)

theorem turn_moves (t : Turn) :
    Ends (t.unit.run p) t.moment (fun _ s => MovesTime [t] t.moment s)
      (fun _ s => MovesTime [t] t.moment s) := by
  have single : totalMoves [t] = t.moves := Int.add_zero _
  unfold MovesTime
  rw [single]
  by_cases speed : t.unit.kind = .speed
  · unfold RunningUnit.run
    simp only [speed, RunningUnit.speed, Ends.modify_iff, Turn.moves]
    cases t.moment.stack with
    | nil => exact (Int.add_zero _).symm
    | cons x stack => rfl
  · have still : t.moves = 0 := by
      unfold Turn.moves
      split
      · rename_i hk _
        exact absurd hk speed
      · rfl
    rw [still, Int.add_zero]
    exact (t.unit.run_leaves p t.moment).mono (fun _ _ leaves => leaves.time speed)
      fun _ _ leaves => leaves.time speed

theorem moves_addUp : AddsUp p MovesTime MovesTime where
  idle := by
    have same : MovesTime [] = SameTime := by
      funext s s'
      simp [MovesTime, totalMoves, SameTime]
    rw [same]
    exact SameTime.lasting
  append first later := by
    unfold MovesTime at *
    rw [later, first, totalMoves_append, Int.add_assoc]
  stop first := first
  fail first later := by
    unfold MovesTime at *
    rw [later, first, totalMoves_append, Int.add_assoc]
  turn t _ := p.turn_moves t

/-- A frame moves the time by what the turns of its units do, even if it fails. -/
theorem runFrame_moves (s : Moment) :
    Ends p.runFrame s (fun _ s' => s'.time = s.time + totalMoves (p.turns s))
      (fun _ s' => s'.time = s.time + totalMoves (p.turns s)) :=
  runFrame_addsUp p.moves_addUp s

/-! ## Renderings that fail -/

/-- A rendering that fails is one of fewer frames that does not, and the frame after those. -/
theorem renderFrom_failed (maxTime : Int) (frames : Nat) (m : Machine) (stack : Stack)
    (scratch : List Signal) (progress : Progress) (done : List Frame) {e : RenderFault}
    (failed : (p.renderFrom maxTime frames m stack scratch progress done).fault = some e) :
    let r := p.renderFrom maxTime frames m stack scratch progress done
    ∃ fine start t, fine < frames ∧ r.progress.samples = progress.samples + fine ∧
      (p.startsFrom maxTime frames (p.opening m stack scratch progress.time)).getLast? =
        some start ∧
      p.runFrame.run start = .error e t ∧ r.progress.time = t.time ∧
      p.renderFrom maxTime fine m stack scratch progress done =
        ⟨start.machine, r.frames, ⟨r.progress.samples, start.time⟩, none⟩ := by
  induction frames generalizing m stack scratch progress done with
  | zero => cases failed
  | succ frames ih =>
    simp only [renderFrom] at failed ⊢
    by_cases time : progress.time < maxTime
    · have opens : (p.opening m stack scratch progress.time).time < maxTime := time
      rw [if_pos time] at failed ⊢
      cases hr : p.runFrame.run ⟨m, stack, p.bytecode.operands, 0, progress.time, scratch⟩ with
      | error fault t =>
        have ran : p.runFrame.run (p.opening m stack scratch progress.time) = .error fault t := hr
        rw [hr] at failed
        cases failed
        rw [p.startsFrom_of_error opens ran]
        exact ⟨0, _, t, Nat.succ_pos _, rfl, rfl, ran, rfl, rfl⟩
      | ok _ t =>
        have ran : p.runFrame.run (p.opening m stack scratch progress.time) = .ok () t := hr
        rw [hr] at failed
        obtain ⟨fine, start, t', few, samples, last, stops, reached, short⟩ := ih _ _ _ _ _ failed
        change (p.startsFrom maxTime frames (p.next t)).getLast? = some start at last
        refine ⟨fine + 1, start, t', Nat.succ_lt_succ few, ?_, ?_, stops, reached, ?_⟩
        · simp only [samples]
          omega
        · rw [p.startsFrom_of_ok opens ran, List.getLast?_cons, last, Option.getD_some]
        · simp only [renderFrom]
          rw [if_pos time]
          simp only [hr, short]
    · rw [if_neg time] at failed
      cases failed

theorem render_until_fault (m : Machine) (frames : Nat) (maxTime : Int) {e : RenderFault}
    (failed : (p.render m frames maxTime).fault = some e) :
    let r := p.render m frames maxTime
    r.progress.samples < frames ∧ ∃ start t, (p.starts m frames maxTime).getLast? = some start ∧
      p.runFrame.run start = .error e t ∧ r.progress.time = t.time ∧
      p.render m r.progress.samples maxTime =
        ⟨start.machine, r.frames, ⟨r.progress.samples, start.time⟩, none⟩ := by
  obtain ⟨fine, start, t, few, samples, last, stops, time, short⟩ :=
    p.renderFrom_failed maxTime frames m Stack.start Moment.scratchStart {} [] failed
  change (p.render m frames maxTime).progress.samples = 0 + fine at samples
  rw [Nat.zero_add] at samples
  subst samples
  exact ⟨few, start, t, last, stops, time, short⟩

end Program

/-- A call that fails reports the frames before the one that has failed, and leaves the buffer after
them as it was. A call for just these frames writes the same, has no fault, and leaves the synth as
the frame that fails finds it. The time reported is the time of that call and what the units of the
frame that fails have moved it by; without speed units this is nothing. -/
theorem failed_render_progress {s s' : Synth} {buffer written : Audio} {maxTime : Int}
    {progress : Progress} {e : RenderFault}
    (failed : s.render buffer maxTime = (s', written, ⟨progress, some e⟩)) :
    progress.samples < buffer.length ∧ written.length = buffer.length ∧
    written.drop progress.samples = buffer.drop progress.samples ∧
    ∃ start, (s.program.starts s.machine buffer.length maxTime).getLast? = some start ∧
      s.program.fault? start = some e ∧
      (∀ short : Audio, short.length = progress.samples →
        s.render short maxTime = (⟨s.program, start.machine⟩, written.take progress.samples,
          ⟨⟨progress.samples, start.time⟩, none⟩)) ∧
      progress.time = start.time + totalMoves (s.program.turns start) ∧
      (SpeedFree s.program.bytecode.opcodes → progress.time = start.time) := by
  have fault := congrArg (·.2.2.fault) failed
  have reported := congrArg (·.2.2.progress) failed
  have buffers := congrArg (·.2.1) failed
  simp only at fault reported buffers
  obtain ⟨length, untouched⟩ := s.render_untouched buffer maxTime
  have first := s.render_reported buffer maxTime
  rw [reported, buffers] at untouched first
  rw [buffers] at length
  obtain ⟨few, start, t, last, stops, time, cut⟩ :=
    s.program.render_until_fault s.machine buffer.length maxTime fault
  rw [show (s.program.render s.machine buffer.length maxTime).progress = progress from reported]
    at few time cut
  refine ⟨few, length, untouched, start, last, Program.fault?_eq_some.mpr ⟨t, stops⟩, ?_, ?_, ?_⟩
  · intro short fits
    have full : (s.piece buffer.length maxTime).length = progress.samples := by
      rw [← (s.piece_counts buffer.length maxTime).1]
      exact congrArg (·.samples) reported
    unfold Synth.render Audio.overwrite
    simp only [fits, cut, first]
    unfold Synth.piece at full ⊢
    rw [← full, List.take_length, ← fits.trans full.symm, List.drop_length, List.append_nil]
  · rw [time]
    exact (s.program.runFrame_moves start).of_error stops
  · intro slow
    rw [time]
    exact (s.program.runFrame_time slow start).of_error stops

/-- A signal is divided by what a send takes away from one. In the second frame nothing is left. -/
def vanishingPatch : Patch where
  instruments := [
    { units := [
        { kindName := "loadval", settings := .ofEntries [("value", 128)] },
        { kindName := "invgain", id := 1, settings := .ofEntries [("invgain", 128)] },
        { kindName := "out", settings := .ofEntries [("gain", 128)] },
        { kindName := "loadval", settings := .ofEntries [("value", 0)] },
        { kindName := "send"
          settings := .ofEntries [("amount", 128), ("target", 1), ("sendpop", 1)] }] }]

theorem failed_render_progress_vanishing :
    ∃ s s' written machine, Synth.create { trap := true } vanishingPatch 100 = .ok s ∧
      s.render (.silent 3) 3 = (s', written, ⟨⟨1, 1⟩, some (.nonFinite .invgain)⟩) ∧
      written.drop 1 = Audio.silent 2 ∧
      s.render (.silent 1) 3 = (⟨s.program, machine⟩, written.take 1, ⟨⟨1, 1⟩, none⟩) := by
  obtain ⟨s, made, report, slow⟩ : ∃ s, Synth.create { trap := true } vanishingPatch 100 = .ok s ∧
      (s.render (.silent 3) 3).2.2 = ⟨⟨1, 1⟩, some (.nonFinite .invgain)⟩ ∧
      SpeedFree s.program.bytecode.opcodes := ⟨_, rfl, by decide +kernel, by decide +kernel⟩
  obtain ⟨s', written, failed⟩ : ∃ s' written,
      s.render (.silent 3) 3 = (s', written, ⟨⟨1, 1⟩, some (.nonFinite .invgain)⟩) := by
    refine ⟨(s.render (.silent 3) 3).1, (s.render (.silent 3) 3).2.1, ?_⟩
    rw [← report]
  obtain ⟨-, -, untouched, start, -, -, short, -, paced⟩ := failed_render_progress failed
  have again := short (.silent 1) rfl
  rw [← paced slow] at again
  exact ⟨s, s', written, start.machine, made, failed, untouched, again⟩

end ModularSynth
