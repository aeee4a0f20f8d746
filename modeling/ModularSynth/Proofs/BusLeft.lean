-- What calls leave on the two channels of the bus that are heard. A frame that comes to its end is
-- taken off the bus. A frame that fails is not: what its units have put there stays, through
-- whatever the synth is asked for, until a later frame has been added to it and heard.
import ModularSynth.Proofs.CoreRender
import ModularSynth.Proofs.FrameStarts
import ModularSynth.Proofs.Sessions

namespace ModularSynth

/-! ## The channels that are heard -/

/-- Nothing is on the channels that are heard. -/
def Machine.Quiet (m : Machine) : Prop :=
  m.channel 0 = 0.0 ∧ m.channel 1 = 0.0

theorem Machine.advance_quiet (m : Machine) : m.advance.Quiet := by
  unfold Quiet advance silence channel
  simp

theorem Machine.Quiet.output {m : Machine} (h : m.Quiet) : m.output = .silence := by
  unfold Machine.output Frame.silence
  rw [h.1, h.2]

theorem Machine.channel_of_bus {m m' : Machine} (same : m'.bus = m.bus) (i : Nat) :
    m'.channel i = m.channel i := by
  unfold channel
  rw [same]

theorem Machine.Quiet.of_bus {m m' : Machine} (h : m.Quiet) (same : m'.bus = m.bus) : m'.Quiet := by
  unfold Quiet
  rw [Machine.channel_of_bus same, Machine.channel_of_bus same]
  exact h

namespace Program

variable (p : Program)

/-! ## Renderings -/

/-- Only the first frame of a rendering can find something there. -/
theorem starts_quiet (m : Machine) (frames : Nat) (maxTime : Int) :
    ∀ s ∈ (p.starts m frames maxTime).tail, s.machine.Quiet := by
  intro s hs
  have chain := p.startsFrom_chain maxTime frames (p.opening m Stack.start Moment.scratchStart 0)
  unfold starts at hs
  cases all : p.startsFrom maxTime frames (p.opening m Stack.start Moment.scratchStart 0) with
  | nil =>
    rw [all] at hs
    cases hs
  | cons first rest =>
    rw [all] at hs chain
    rw [List.tail_cons] at hs
    rcases List.mem_iff_append.mp hs with ⟨before, after, rfl⟩
    rw [← List.cons_append] at chain
    obtain ⟨t, -, next⟩ := chain.rel_getLast_head_of_append (by simp) (by simp)
    rw [List.head_cons] at next
    rw [next]
    exact t.machine.advance_quiet

/-- A rendering that fails leaves the machine as the frame that has failed has left it. -/
theorem render_failed {m : Machine} {frames : Nat} {maxTime : Int} {e : RenderFault}
    (failed : (p.render m frames maxTime).fault = some e) :
    ∃ s t, (p.starts m frames maxTime).getLast? = some s ∧ p.runFrame.run s = .error e t ∧
      (p.render m frames maxTime).machine = t.machine := by
  rw [render_fault_last] at failed
  obtain ⟨s, last, fault⟩ := Option.bind_eq_some_iff.mp failed
  obtain ⟨t, ran⟩ := fault?_eq_some.mp fault
  refine ⟨s, t, last, ran, ?_⟩
  rw [render_machine, last, Option.map_some, Option.getD_some, leaves_of_error ran]

/-- A rendering that does not fail has taken all of its frames off the bus, or has no frames. -/
theorem render_fine {m : Machine} {frames : Nat} {maxTime : Int}
    (fine : (p.render m frames maxTime).fault = none) :
    (p.render m frames maxTime).machine.Quiet ∨
      (p.render m frames maxTime).frames = [] ∧ (p.render m frames maxTime).machine = m := by
  rw [render_fault_last] at fine
  rw [render_machine, render_frames]
  cases last : (p.starts m frames maxTime).getLast? with
  | none =>
    rw [List.getLast?_eq_none_iff.mp last]
    exact .inr ⟨rfl, rfl⟩
  | some s =>
    left
    rw [last] at fine
    obtain ⟨t, ran⟩ := fault?_eq_none.mp fine
    rw [Option.map_some, Option.getD_some, leaves_of_ok ran]
    exact t.machine.advance_quiet

end Program

/-! ## Patches off the bus -/

/-- No active unit of the patch is on the bus. -/
def Patch.OffBus (patch : Patch) : Prop :=
  ∀ instrument ∈ patch.instruments, ∀ u ∈ instrument.units, u.activeKind?.any UnitKind.onBus = false

instance (patch : Patch) : Decidable patch.OffBus :=
  inferInstanceAs (Decidable (∀ instrument ∈ patch.instruments, ∀ u ∈ instrument.units, _))

/-- Two moments have the same bus. -/
def SameBus (s s' : Moment) : Prop :=
  s'.machine.bus = s.machine.bus

theorem SameBus.lasting : Lasting SameBus where
  refl _ := rfl
  trans h h' := h'.trans h
  operands _ _ := rfl
  ready _ _ _ _ _ := rfl

namespace Program

section OffBus

variable (p : Program) {patch : Patch} {bpm : Nat} {assembled : List (List AssembledUnit)}
  (h : Compiled patch bpm p.bytecode assembled) (flags : patch.StereoFlags) (off : patch.OffBus)
include h flags off

/-- A frame without units on the bus leaves the bus as it is. -/
theorem runFrame_bus : Preserves SameBus p.runFrame := by
  apply runFrame_preserves SameBus.lasting
  rintro op hop kind hk u rfl s
  have other : u.kind.onBus = false := by
    obtain ⟨instrument, hi, unit, hu, active⟩ := h.kind_of_opcode flags hop hk
    have here := off instrument hi unit hu
    rw [active] at here
    exact here
  exact (u.run_leaves p s).mono (fun _ _ leaves => leaves.bus other) fun _ _ leaves =>
    leaves.bus other

/-- So what is heard of it is what it has found there. -/
theorem frame_off_bus {s : Moment} {f : Frame} (heard : p.frame? s = some f) :
    f = s.machine.output := by
  obtain ⟨t, ran, rfl⟩ := frame?_eq_some.mp heard
  have kept : t.machine.bus = s.machine.bus := (p.runFrame_bus h flags off s).of_ok ran
  unfold Machine.output
  rw [Machine.channel_of_bus kept, Machine.channel_of_bus kept]

/-- Then the first frame of a rendering is what is on the bus before, and the others are silent. -/
theorem render_off_bus (m : Machine) (frames : Nat) (maxTime : Int) :
    (∀ f ∈ (p.render m frames maxTime).frames.head?, f = m.output) ∧
      ∀ f ∈ (p.render m frames maxTime).frames.tail, f = .silence := by
  have quiet := p.starts_quiet m frames maxTime
  have chain : (p.starts m frames maxTime).IsChain p.Follows := p.startsFrom_chain maxTime frames _
  have first : ∀ s ∈ (p.starts m frames maxTime).head?, s.machine = m := by
    intro s hs
    rw [p.startsFrom_first maxTime frames _ s hs]
    rfl
  rw [render_frames]
  cases all : p.starts m frames maxTime with
  | nil => simp
  | cons s rest =>
    rw [all] at quiet chain first
    have later : ∀ f ∈ rest.filterMap p.frame?, f = .silence := by
      intro f hf
      obtain ⟨s', hs', hf⟩ := List.mem_filterMap.mp hf
      rw [p.frame_off_bus h flags off hf]
      exact (quiet s' hs').output
    cases hf : p.frame? s with
    | some f =>
      rw [List.filterMap_cons_some hf]
      refine ⟨?_, later⟩
      rintro _ ⟨⟩
      rw [p.frame_off_bus h flags off hf, first s rfl]
    | none =>
      -- A frame that fails is the last.
      have last : rest = [] := by
        cases rest with
        | nil => rfl
        | cons s' rest =>
          obtain ⟨f, heard⟩ := (List.IsChain.rel chain).frame
          rw [hf] at heard
          cases heard
      rw [List.filterMap_cons_none hf, last]
      simp

end OffBus

end Program

/-! ## Calls in turn -/

namespace SynthSession

/-- No call has failed since a frame was last heard, or since the synth was made. -/
inductive Settled (options : SynthOptions) : SynthSession → Prop
  | create {patch : Patch} {bpm : Nat} {synth : Synth} :
    Synth.create options patch bpm = .ok synth → Settled options ⟨patch, bpm, synth⟩
  | serve {x : SynthSession} {request : SynthRequest} : Settled options x →
    (∀ buffer maxTime, request = .render buffer maxTime →
      (x.synth.render buffer maxTime).2.2.fault = none) → Settled options (x.serve request)
  | heard {x : SynthSession} {buffer : Audio} {maxTime : Int} : Reached options x →
    (x.synth.render buffer maxTime).2.2.fault = none →
    (x.synth.render buffer maxTime).2.2.progress.samples ≠ 0 →
      Settled options (x.serve (.render buffer maxTime))

/-- Only rendering changes the bus. -/
theorem serve_bus (x : SynthSession) {request : SynthRequest}
    (other : ∀ buffer maxTime, request ≠ .render buffer maxTime) :
    (x.serve request).synth.machine.bus = x.synth.machine.bus := by
  cases request with
  | trigger voice note => rfl
  | release voice => rfl
  | render buffer maxTime => exact absurd rfl (other buffer maxTime)
  | update patch bpm =>
    rcases x.serve_update patch bpm with same | ⟨b, -, -, served⟩
    · rw [same]
    · rw [served]
      exact x.synth.load_bus b patch.numDelayLines

theorem Settled.quiet {options : SynthOptions} {x : SynthSession} (h : x.Settled options) :
    x.synth.machine.Quiet := by
  induction h with
  | create made =>
    obtain ⟨b, -, rfl⟩ := Synth.create_compiled made
    exact ⟨rfl, rfl⟩
  | @serve x request _ fine ih =>
    by_cases rendering : ∃ buffer maxTime, request = .render buffer maxTime
    · obtain ⟨buffer, maxTime, rfl⟩ := rendering
      rcases x.synth.program.render_fine (fine buffer maxTime rfl) with quiet | ⟨-, idle⟩
      · exact quiet
      · have same : (x.serve (.render buffer maxTime)).synth.machine = x.synth.machine := idle
        rw [same]
        exact ih
    · have other : ∀ buffer maxTime, request ≠ .render buffer maxTime := by
        intro buffer maxTime same
        exact rendering ⟨buffer, maxTime, same⟩
      exact ih.of_bus (x.serve_bus other)
  | @heard x buffer maxTime _ fine some_frames =>
    rcases x.synth.program.render_fine fine with quiet | ⟨idle, -⟩
    · exact quiet
    · have counted := (x.synth.piece_counts buffer.length maxTime).1
      have none : x.synth.piece buffer.length maxTime = [] := idle
      rw [none] at counted
      exact absurd counted some_frames

/-- Between calls nothing is on the channels that are heard, unless a call has failed and no frame
has been heard since. A call that fails leaves there what the frame that has failed has left, which
is what its units have put there if it is not the first frame of the call. Nothing but rendering
takes that away, neither notes nor a new patch; so it is in the next frame that is heard, and is all
of that frame if the new patch has no units on the bus. From then on there is silence. -/
theorem heard_channels_between_calls {options : SynthOptions} {x : SynthSession}
    (reached : x.Reached options) :
    (x.Settled options → x.synth.machine.channel 0 = 0.0 ∧ x.synth.machine.channel 1 = 0.0) ∧
    (∀ (buffer : Audio) (maxTime : Int) (e : RenderFault),
      (x.synth.render buffer maxTime).2.2.fault = some e → ∃ s t,
        (x.synth.program.starts x.synth.machine buffer.length maxTime).getLast? = some s ∧
        x.synth.program.runFrame.run s = .error e t ∧
        (x.serve (.render buffer maxTime)).synth.machine = t.machine) ∧
    (∀ (buffer : Audio) (maxTime : Int),
      ∀ s ∈ (x.synth.program.starts x.synth.machine buffer.length maxTime).tail,
        s.machine.channel 0 = 0.0 ∧ s.machine.channel 1 = 0.0) ∧
    (∀ request, (∀ buffer maxTime, request ≠ .render buffer maxTime) →
      (x.serve request).synth.machine.bus = x.synth.machine.bus) ∧
    (x.patch.StereoFlags → x.patch.OffBus → ∀ (frames : Nat) (maxTime : Int),
      (∀ f ∈ (x.synth.piece frames maxTime).head?, f = x.synth.machine.output) ∧
        ∀ f ∈ (x.synth.piece frames maxTime).tail, f = .silence) := by
  refine ⟨Settled.quiet, ?_, ?_, ?_, ?_⟩
  · intro buffer maxTime e failed
    exact x.synth.program.render_failed failed
  · intro buffer maxTime
    exact x.synth.program.starts_quiet x.synth.machine buffer.length maxTime
  · intro request other
    exact x.serve_bus other
  · intro flags off frames maxTime
    obtain ⟨assembled, h⟩ := Bytecode.compile_ok reached.compiled
    exact x.synth.program.render_off_bus h flags off x.synth.machine frames maxTime

/-- A unit that is heard, and one that leaves a signal on the stack. -/
def spillingPatch : Patch where
  instruments := [
    { units := [
        { kindName := "loadval", settings := .ofEntries [("value", 128)] },
        { kindName := "out", settings := .ofEntries [("gain", 128)] },
        { kindName := "push", settings := .ofEntries [] }] }]

/-- What a frame has put on the bus before it has failed is heard with a patch that has no units. -/
theorem heard_channels_between_calls_spilling : ∃ x : SynthSession, x.Reached {} ∧ ¬ x.Settled {} ∧
    x.patch.instruments = [] ∧ (x.synth.piece 2 2).length = 2 ∧
      (∀ f ∈ (x.synth.piece 2 2).head?, f = ⟨1.0, 0.0⟩) ∧
      ∀ f ∈ (x.synth.piece 2 2).tail, f = .silence := by
  obtain ⟨s, made, patch, heard, frames⟩ : ∃ s, Synth.create {} spillingPatch 100 = .ok s ∧
      let x := ((mk spillingPatch 100 s).serve (.render (.silent 1) 1)).serve (.update ⟨[]⟩ 100)
      x.patch.instruments.length = 0 ∧
        (x.synth.machine.channel 0 = 1.0 ∧ x.synth.machine.channel 1 = 0.0) ∧
        (x.synth.piece 2 2).length = 2 :=
    ⟨_, rfl, by decide +kernel, by decide +kernel, by decide +kernel⟩
  have reached := Reached.serve (.update ⟨[]⟩ 100) (.serve (.render (.silent 1) 1) (.create made))
  have empty := List.length_eq_zero_iff.mp patch
  obtain ⟨settled, -, -, -, off⟩ := heard_channels_between_calls reached
  have left : ¬ (1.0 : Signal) = 0.0 := by decide +kernel
  obtain ⟨first, later⟩ := off (by intro i hi; rw [empty] at hi; cases hi)
    (by intro i hi; rw [empty] at hi; cases hi) 2 2
  refine ⟨_, reached, ?_, empty, frames, ?_, later⟩
  · intro quiet
    exact left (heard.1.symm.trans (settled quiet).1)
  · intro f hf
    rw [first f hf]
    unfold Machine.output
    rw [heard.1, heard.2]

end SynthSession

end ModularSynth
