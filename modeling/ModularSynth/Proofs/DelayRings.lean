-- What delay lines give back. The clock goes around in their rings, and what a line takes in stands
-- there until the clock comes back to its place. So a delay that looks some frames back finds what it
-- took in then, however often the clock has gone around, and is heard so.
import ModularSynth.Proofs.LineAccesses

namespace ModularSynth

/-! ## The clock -/

theorem clock_back (clock : UInt16) {d : Nat} (some_back : 1 ≤ d) :
    clock + 1 - UInt16.ofNat d = clock - UInt16.ofNat (d - 1) := by
  apply UInt16.toNat_inj.mp
  simp only [UInt16.toNat_sub, UInt16.toNat_add, UInt16.toNat_ofNat', UInt16.toNat_one]
  omega

theorem clock_back_ne (clock : UInt16) {d : Nat} (some_back : 1 ≤ d) (ring : d < 65536) :
    clock - UInt16.ofNat d ≠ clock := by
  intro same
  have numbers := congrArg UInt16.toNat same
  have := UInt16.toNat_lt clock
  simp only [UInt16.toNat_sub, UInt16.toNat_ofNat'] at numbers
  omega

theorem LineAccess.age_bounds (a : LineAccess) : 1 ≤ a.age ∧ a.age ≤ 65536 := by
  unfold age
  have := UInt16.toNat_lt a.shift
  split
  · omega
  · rename_i some
    have : a.shift.toNat ≠ 0 := fun zero => some (UInt16.toNat_inj.mp zero)
    omega

theorem LineAccess.ofNat_age (a : LineAccess) : UInt16.ofNat a.age = a.shift := by
  unfold age
  split
  · rename_i none
    rw [none]
    rfl
  · exact UInt16.ofNat_toNat

/-! ## What machines recall -/

namespace Program

/-- What stands in the delay lines of a machine after some frames: as far back as a ring reaches,
what the lines have taken in in the frame then, and nothing from before the first frame. -/
structure Recalls (p : Program) (frames : List Moment) (m : Machine) : Prop where
  clock : m.clock = UInt32.ofNat frames.length
  before : ∀ {i ring d}, rings m.lines i = some ring → frames.length < d → d ≤ 65536 →
    ring (m.clock.toUInt16 - UInt16.ofNat d) = 0.0
  since : ∀ {i ring d s x}, rings m.lines i = some ring → 1 ≤ d → d ≤ 65536 →
    d ≤ frames.length → frames[frames.length - d]? = some s → x ∈ p.lineAccesses s →
      x.2.line = i → ring (m.clock.toUInt16 - UInt16.ofNat d) = x.2.taken

namespace Recalls

variable {p : Program} {frames : List Moment} {m : Machine} {s t : Moment}

theorem fresh (p : Program) (lines : Nat) : p.Recalls [] (.fresh lines) where
  clock := rfl
  before {i ring d} stands _ _ := by
    unfold rings at stands
    obtain ⟨line, hl, rfl⟩ := Option.map_eq_some_iff.mp stands
    unfold Machine.fresh at hl
    rw [Array.getElem?_replicate] at hl
    split at hl
    · cases hl
      exact Vector.getElem_replicate _
    · cases hl
  since _ _ _ few := by
    rw [List.length_nil] at few
    omega

/-- What is played is nothing to delay lines. -/
theorem of_same (h : p.Recalls frames m) {m' : Machine} (lines : m'.lines = m.lines)
    (clock : m'.clock = m.clock) : p.Recalls frames m' where
  clock := clock.trans h.clock
  before := by
    rw [lines, clock]
    exact h.before
  since := by
    rw [lines, clock]
    exact h.since

/-- A frame is recalled, and those before it from one frame farther back. -/
theorem frame (h : p.Recalls frames s.machine) (uses : p.FrameUses s t) :
    p.Recalls (frames ++ [s]) t.machine.advance := by
  have clock : t.machine.advance.clock = s.machine.clock + 1 := congrArg (· + 1) uses.clock
  have time : t.machine.advance.clock.toUInt16 = s.machine.clock.toUInt16 + 1 := by
    rw [clock, UInt32.toUInt16_add]
    rfl
  have lines : t.machine.advance.lines = t.machine.lines := rfl
  refine ⟨?_, ?_, ?_⟩
  · rw [clock, h.clock, List.length_append, List.length_singleton, UInt32.ofNat_add]
    rfl
  · intro i ring' d after early far
    rw [List.length_append, List.length_singleton] at early
    obtain ⟨ring, stands, kept, -⟩ := uses.ring_of after
    rw [time, clock_back _ (by omega), kept _ (clock_back_ne _ (by omega) (by omega))]
    exact h.before stands (by omega) (by omega)
  · intro i ring' d s' x after back far late then_ used line
    rw [List.length_append, List.length_singleton] at late then_
    obtain ⟨ring, stands, kept, taken⟩ := uses.ring_of after
    rw [time, clock_back _ back]
    by_cases last : d = 1
    · -- The frame itself: its access is what stands where the clock has been.
      subst last
      rw [Nat.add_sub_cancel, List.getElem?_concat_length] at then_
      cases then_
      have here := taken x used line
      rw [Nat.sub_self, show UInt16.ofNat 0 = 0 from rfl, UInt16.sub_zero]
      exact here
    · rw [List.getElem?_append_left (by omega)] at then_
      rw [kept _ (clock_back_ne _ (by omega) (by omega))]
      apply h.since stands (by omega) (by omega) (by omega) _ used line
      rw [← then_]
      congr 1
      omega

/-- What a line gives out is what it has taken in so many frames ago, if there have been as many. -/
theorem given (h : p.Recalls frames s.machine) (uses : p.FrameUses s t)
    {x : LineUser × LineAccess} (hx : x ∈ p.lineAccesses s) :
    (frames.length < x.2.age → x.2.given = 0.0) ∧
      ∀ s' y, x.2.age ≤ frames.length → frames[frames.length - x.2.age]? = some s' →
        y ∈ p.lineAccesses s' → y.2.line = x.2.line → x.2.given = y.2.taken := by
  obtain ⟨ring, stands, read, -⟩ := uses.access hx
  obtain ⟨back, far⟩ := x.2.age_bounds
  rw [← x.2.ofNat_age] at read
  constructor
  · intro early
    rw [read]
    exact h.before stands early far
  · intro s' y late then_ used line
    rw [read]
    exact h.since stands back far late then_ used line

end Recalls

/-! ## Renderings -/

/-- Frames have come to their end one after the other, and each has recalled those before it. -/
structure Recorded (p : Program) (frames : List Moment) (m : Machine) : Prop where
  recalls : p.Recalls frames m
  each : ∀ n s, frames[n]? = some s → p.Recalls (frames.take n) s.machine ∧
    ∃ t, p.FrameUses s t

namespace Recorded

variable {p : Program} {frames : List Moment} {s t : Moment}

theorem frame (h : p.Recorded frames s.machine) (uses : p.FrameUses s t) :
    p.Recorded (frames ++ [s]) t.machine.advance := by
  refine ⟨h.recalls.frame uses, ?_⟩
  intro n s' hs
  by_cases earlier : n < frames.length
  · rw [List.getElem?_append_left earlier] at hs
    rw [List.take_append_of_le_length earlier.le]
    exact h.each n s' hs
  · have inside := (List.getElem?_eq_some_iff.mp hs).1
    rw [List.length_append, List.length_singleton] at inside
    obtain rfl : n = frames.length := by omega
    rw [List.getElem?_concat_length] at hs
    cases hs
    rw [List.take_left]
    exact ⟨h.recalls, t, uses⟩

/-- A rendering that does not fail goes on with the record, frame by frame. -/
theorem renderFrom
    (uses : ∀ {s t}, s.operands = p.bytecode.operands → s.line = 0 →
      p.runFrame.run s = .ok () t → p.FrameUses s t)
    (maxTime : Int) (count : Nat) {m₀ : Machine} (stack₀ : Stack) (scratch₀ : List Signal)
    (progress : Progress) (done : List Frame) (h : p.Recorded frames m₀)
    (whole : (p.renderFrom maxTime count m₀ stack₀ scratch₀ progress done).fault = none) :
    p.Recorded (frames ++ p.startsFrom maxTime count (p.opening m₀ stack₀ scratch₀ progress.time))
      (p.renderFrom maxTime count m₀ stack₀ scratch₀ progress done).machine := by
  revert whole
  -- Between two frames, those that are recorded and those to come are all there are.
  apply p.renderFrom_ends
    (I := fun left m stack scratch now _ => ∃ before, p.Recorded before m ∧
      before ++ p.startsFrom maxTime left (p.opening m stack scratch now.time) =
        frames ++ p.startsFrom maxTime count (p.opening m₀ stack₀ scratch₀ progress.time))
    (Q := fun r => r.fault = none → p.Recorded
      (frames ++ p.startsFrom maxTime count (p.opening m₀ stack₀ scratch₀ progress.time)) r.machine)
  · rintro left m stack scratch now _ ⟨before, recorded, all⟩ ended _
    rwa [← all, p.startsFrom_ended ended, List.append_nil]
  · rintro left m stack scratch now _ ⟨before, recorded, all⟩ time
    refine .intro (fun _ t hr => ?_) fun _ _ _ whole => by cases whole
    have ran : p.runFrame.run (p.opening m stack scratch now.time) = .ok () t := hr
    have opens : (p.opening m stack scratch now.time).time < maxTime := time
    have here : p.Recorded before (p.opening m stack scratch now.time).machine := recorded
    refine ⟨_, here.frame (uses rfl rfl ran), ?_⟩
    rw [← all, p.startsFrom_of_ok opens ran, List.append_assoc]
    rfl
  · exact ⟨frames, h, rfl⟩

end Recorded

end Program

/-! ## What a synth has played -/

namespace Synth

/-- What a synth has played of a patch since it was made, told by the moments in which its frames
have started. Between renderings, none of which has failed, notes have been played and let go of. -/
inductive Played (options : SynthOptions) (patch : Patch) (bpm : Nat) :
    Synth → List Moment → Prop
  | create {s : Synth} : Synth.create options patch bpm = .ok s → Played options patch bpm s []
  | trigger {s : Synth} {frames : List Moment} (voice : Nat) (note : Note) :
    Played options patch bpm s frames → Played options patch bpm (s.trigger voice note) frames
  | release {s : Synth} {frames : List Moment} (voice : Nat) :
    Played options patch bpm s frames → Played options patch bpm (s.release voice) frames
  | render {s : Synth} {frames : List Moment} (buffer : Audio) (maxTime : Int) :
    Played options patch bpm s frames → (s.render buffer maxTime).2.2.fault = none →
      Played options patch bpm (s.render buffer maxTime).1
        (frames ++ s.program.starts s.machine buffer.length maxTime)

theorem Played.recorded {options : SynthOptions} {patch : Patch} {bpm : Nat} {s : Synth}
    {frames : List Moment} (h : Played options patch bpm s frames) (flags : patch.StereoFlags) :
    Bytecode.compile patch .all bpm = .ok s.program.bytecode ∧
      s.program.Recorded frames s.machine := by
  induction h with
  | create made =>
    obtain ⟨b, compiled, rfl⟩ := Synth.create_compiled made
    refine ⟨compiled, .fresh _ _, ?_⟩
    intro n s hs
    cases hs
  | trigger voice note _ ih => exact ⟨ih.1, ih.2.recalls.of_same rfl rfl, ih.2.each⟩
  | release voice _ ih => exact ⟨ih.1, ih.2.recalls.of_same rfl rfl, ih.2.each⟩
  | @render s frames buffer maxTime _ whole ih =>
    obtain ⟨compiled, recorded⟩ := ih
    obtain ⟨assembled, code⟩ := Bytecode.compile_ok compiled
    refine ⟨compiled, ?_⟩
    apply recorded.renderFrom _ maxTime buffer.length Stack.start Moment.scratchStart {} [] whole
    intro s t operands first ran
    exact Program.runFrame_uses (code.blocks_framed flags) (code.block_short flags)
      (code.streams flags) operands first ran

end Synth

end ModularSynth
