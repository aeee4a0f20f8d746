-- What the trap sees. After every unit it looks at the topmost signal, so what a unit takes from the
-- top of the stack is a finite number. What lies below the top is not looked at, as the right one of
-- two channels, nor is what is added up on the bus. A frame that is heard is spoilt by these or not
-- at all.
import ModularSynth.Proofs.BusLeft
import ModularSynth.Proofs.Turns
import ModularSynth.Proofs.UnitFrames

namespace ModularSynth

/-- A finite number. -/
def Signal.Proper (x : Signal) : Prop :=
  x.isFinite = true

instance (x : Signal) : Decidable x.Proper :=
  inferInstanceAs (Decidable (_ = _))

theorem Signal.proper_zero : Signal.Proper 0.0 := by decide +kernel

/-! ## Mixes -/

/-- A signal that is mixed into a channel of the bus. -/
structure Mix where
  channel : Nat
  /-- What is on the channel before. -/
  before : Signal
  gain : Signal
  signal : Signal
  /-- Is the signal from below the top of the stack? -/
  below : Bool

namespace Mix

/-- What is on the channel after. -/
def after (m : Mix) : Signal :=
  m.before + m.gain * m.signal

/-- The signal is no finite number, and the trap has not seen it. -/
def Unseen (m : Mix) : Prop :=
  m.below = true ∧ ¬ m.signal.Proper

/-- The sum is no finite number, though what is added is one. -/
def Overflows (m : Mix) : Prop :=
  m.before.Proper ∧ m.signal.Proper ∧ ¬ m.after.Proper

instance (m : Mix) : Decidable m.Overflows :=
  inferInstanceAs (Decidable (_ ∧ _ ∧ _))

/-- The ways in which a channel can be spoilt. -/
def Spoils (m : Mix) : Prop :=
  m.Unseen ∨ m.Overflows

end Mix

namespace RunningUnit

/-- The mixes of the signals on top of the stack into a channel of the bus and, in stereo, the one
after it. -/
def topMixes (u : RunningUnit) (channel : Nat) (gain : Signal) (stack : Stack) (m : Machine) :
    List Mix :=
  match u.stereo, stack with
  | false, a :: _ => [⟨channel, m.channel channel, gain, a, false⟩]
  | true, a :: b :: _ =>
    [⟨channel, m.channel channel, gain, a, false⟩,
      ⟨channel + 1, (m.mixInto channel (gain * a)).channel (channel + 1), gain, b, true⟩]
  | _, _ => []

/-- The mixes that a unit makes. -/
def mixes (u : RunningUnit) (stack : Stack) (m : Machine) : List Mix :=
  match u.kind with
  | .out => u.topMixes 0 (u.param 0) stack m
  | .outaux =>
    u.topMixes 0 (u.param 0) stack m ++
      u.topMixes 2 (u.param 1) stack (u.mixTop 0 (u.param 0) stack m)
  | .aux =>
    let channel := (u.extra 0).toNat
    if channel + u.channels > 8 then [] else u.topMixes channel (u.param 0) stack m
  | _ => []

/-- What is heard on the left is always from the top of the stack. -/
theorem topMixes_left {u : RunningUnit} {channel : Nat} {gain : Signal} {stack : Stack}
    {m : Machine} {mix : Mix} (h : mix ∈ u.topMixes channel gain stack m) (left : mix.channel = 0) :
    mix.below = false := by
  unfold topMixes at h
  split at h
  · rw [List.mem_singleton.mp h]
  · rcases List.mem_cons.mp h with rfl | h
    · rfl
    · rw [List.mem_singleton.mp h] at left
      cases left
  · cases h

theorem mixes_left {u : RunningUnit} {stack : Stack} {m : Machine} {mix : Mix}
    (h : mix ∈ u.mixes stack m) (left : mix.channel = 0) : mix.below = false := by
  unfold mixes at h
  split at h
  · exact topMixes_left h left
  · rcases List.mem_append.mp h with h | h
    · exact topMixes_left h left
    · exact topMixes_left h left
  · simp only at h
    split at h
    · cases h
    · exact topMixes_left h left
  · cases h

end RunningUnit

/-! ## Channels -/

namespace Machine

variable {m : Machine} {c : Nat}

theorem channel_mixInto (m : Machine) (i c : Nat) (x : Signal) :
    (m.mixInto i x).channel c = if i = c ∧ c < 8 then m.channel c + x else m.channel c := by
  unfold channel mixInto
  simp only [adjust_getElem?]
  by_cases same : i = c
  · by_cases inside : c < 8 <;> simp [same, inside]
  · simp [same]

theorem channel_silence (m : Machine) (i c : Nat) :
    (m.silence i).channel c = if i = c then 0.0 else m.channel c := by
  unfold channel silence
  simp only [Vector.getElem?_setIfInBounds]
  by_cases same : i = c
  · subst same
    by_cases inside : i < 8 <;> simp [inside]
  · simp [same]

theorem silence_proper (proper : (m.channel c).Proper) (i : Nat) :
    ((m.silence i).channel c).Proper := by
  rw [channel_silence]
  split
  · exact Signal.proper_zero
  · exact proper

/-- A mix that does not spoil its channel keeps it proper. -/
theorem mixInto_proper (proper : (m.channel c).Proper) (mix : Mix)
    (before : mix.before = m.channel mix.channel)
    (signal : mix.below = false → mix.signal.Proper) (fine : mix.channel = c → ¬ mix.Spoils) :
    ((m.mixInto mix.channel (mix.gain * mix.signal)).channel c).Proper := by
  rw [channel_mixInto]
  split
  · next here =>
    by_contra spoilt
    apply fine here.1
    by_cases sound : mix.signal.Proper
    · refine .inr ⟨?_, sound, ?_⟩
      · rw [before, here.1]
        exact proper
      · unfold Mix.after
        rw [before, here.1]
        exact spoilt
    · refine .inl ⟨?_, sound⟩
      rw [← Bool.not_eq_false]
      exact fun top => sound (signal top)
  · exact proper

end Machine

/-- The topmost signal is a finite number. -/
def Stack.TopProper (s : Stack) : Prop :=
  ∀ x ∈ s.head?, x.Proper

theorem Stack.start_proper : Stack.start.TopProper := by
  rintro x ⟨⟩
  exact Signal.proper_zero

namespace RunningUnit

variable (u : RunningUnit) {stack : Stack} {m : Machine} {c : Nat}

theorem mixTop_proper {channel : Nat} {gain : Signal} (top : stack.TopProper)
    (proper : (m.channel c).Proper)
    (fine : ∀ mix ∈ u.topMixes channel gain stack m, mix.channel = c → ¬ mix.Spoils) :
    ((u.mixTop channel gain stack m).channel c).Proper := by
  unfold topMixes at fine
  unfold mixTop
  cases stereo : u.stereo with
  | false =>
    simp only [stereo] at fine ⊢
    cases stack with
    | nil => exact proper
    | cons a rest =>
      exact Machine.mixInto_proper proper ⟨channel, m.channel channel, gain, a, false⟩ rfl
        (fun _ => top a rfl) (fine _ List.mem_cons_self)
  | true =>
    simp only [stereo] at fine ⊢
    cases stack with
    | nil => exact proper
    | cons a rest =>
      cases rest with
      | nil => exact proper
      | cons b rest =>
        have left := Machine.mixInto_proper proper ⟨channel, m.channel channel, gain, a, false⟩ rfl
          (fun _ => top a rfl) (fine _ List.mem_cons_self)
        exact Machine.mixInto_proper left
          ⟨channel + 1, (m.mixInto channel (gain * a)).channel (channel + 1), gain, b, true⟩ rfl
          (fun impossible => by cases impossible)
          (fine _ (List.mem_cons_of_mem _ List.mem_cons_self))

/-- However a unit ends, a channel stays proper that none of its mixes spoils. -/
theorem run_channel (p : Program) {s : Moment} (top : s.stack.TopProper)
    (proper : (s.machine.channel c).Proper)
    (fine : ∀ mix ∈ u.mixes s.stack s.machine, mix.channel = c → ¬ mix.Spoils) :
    Ends (u.run p) s (fun _ t => (t.machine.channel c).Proper)
      fun _ t => (t.machine.channel c).Proper := by
  cases off : u.kind.onBus with
  | false =>
    apply (u.run_leaves p s).mono
    · intro _ t leaves
      rw [Machine.channel_of_bus (leaves.bus off)]
      exact proper
    · intro _ t leaves
      rw [Machine.channel_of_bus (leaves.bus off)]
      exact proper
  | true =>
    have kinds : u.kind = .out ∨ u.kind = .outaux ∨ u.kind = .aux ∨ u.kind = .input := by
      revert off
      cases u.kind <;> decide
    unfold mixes at fine
    unfold run
    rcases kinds with hk | hk | hk | hk <;> simp only [hk] at fine ⊢
    · exact u.mixTop_proper top proper fine
    · obtain ⟨first, second⟩ := List.forall_mem_append.mp fine
      exact u.mixTop_proper top (u.mixTop_proper top proper first) second
    · unfold busChannel
      by_cases beyond : (u.extra 0).toNat + u.channels > 8
      · simp only [beyond, if_true]
        exact proper
      · simp only [beyond, if_false] at fine ⊢
        exact u.mixTop_proper top proper fine
    · unfold busChannel
      by_cases beyond : (u.extra 0).toNat + u.channels > 8
      · simp only [beyond, if_true]
        exact proper
      · simp only [beyond, if_false]
        cases u.stereo with
        | false => exact Machine.silence_proper proper _
        | true => exact Machine.silence_proper (Machine.silence_proper proper _) _

end RunningUnit

/-! ## Frames -/

/-- The mixes of a turn. -/
def Turn.mixes (t : Turn) : List Mix :=
  t.unit.mixes t.moment.stack t.moment.machine

/-- In some turns, a channel has stayed proper that none of their mixes spoils. -/
def ChannelKept (c : Nat) (ts : List Turn) (s s' : Moment) : Prop :=
  (∀ t ∈ ts, t.moment.stack.TopProper) →
    (∀ t ∈ ts, ∀ mix ∈ t.mixes, mix.channel = c → ¬ mix.Spoils) →
      (s.machine.channel c).Proper → (s'.machine.channel c).Proper

namespace Program

variable (p : Program)

theorem channels_addUp (c : Nat) : AddsUp p (ChannelKept c) (ChannelKept c) where
  idle := {
    refl := fun _ _ _ proper => proper
    trans := fun first later tops fine proper => later tops fine (first tops fine proper)
    operands := fun _ _ _ _ proper => proper
    ready := fun _ _ _ _ _ _ _ proper => proper }
  append first later tops fine proper := by
    obtain ⟨tops, tops'⟩ := List.forall_mem_append.mp tops
    obtain ⟨fine, fine'⟩ := List.forall_mem_append.mp fine
    exact later tops' fine' (first tops fine proper)
  stop kept := kept
  fail first later tops fine proper := by
    obtain ⟨tops, tops'⟩ := List.forall_mem_append.mp tops
    obtain ⟨fine, fine'⟩ := List.forall_mem_append.mp fine
    exact later tops' fine' (first tops fine proper)
  turn t _ := by
    by_cases proper : (t.moment.machine.channel c).Proper ∧ t.moment.stack.TopProper ∧
        ∀ mix ∈ t.mixes, mix.channel = c → ¬ mix.Spoils
    · obtain ⟨proper, top, fine⟩ := proper
      apply (t.unit.run_channel p top proper fine).mono
      · intro _ _ kept _ _ _
        exact kept
      · intro _ _ kept _ _ _
        exact kept
    · have given : ∀ s, ChannelKept c [t] t.moment s := by
        intro s tops fine before
        exact absurd ⟨before, tops t List.mem_cons_self, fine t List.mem_cons_self⟩ proper
      exact .intro (fun _ s _ => given s) fun _ s _ => given s

variable {p} (trap : p.trap = true)
include trap

/-- The trap sees to it that every unit that does not fail leaves a finite number on top. -/
theorem top_kept : KeptByTurns p (·.stack.TopProper) where
  lasting := {
    refl := fun _ top => top
    trans := fun first later top => later (first top)
    operands := fun _ _ top => top
    ready := fun _ _ _ _ _ top => top }
  perform u s _ := by
    have checked : ∀ t, Ends (p.trapTop u.kind) t (fun _ t' => t'.stack.TopProper)
        fun _ _ => True := by
      intro t
      unfold trapTop
      simp only [Ends.bind_iff, Ends.get_iff, trap]
      cases stands : t.stack with
      | nil =>
        simp only [Ends.pure_iff, stands]
        intro x none
        cases none
      | cons x rest =>
        by_cases finite : x.isFinite = true
        · simp only [finite, if_true, Ends.pure_iff, stands]
          rintro _ ⟨⟩
          exact finite
        · simp only [finite]
          trivial
    unfold perform
    rw [Ends.bind_iff]
    exact .intro (fun _ s _ => checked s) fun _ _ _ => trivial

/-- However a frame ends, a channel stays proper that none of its mixes spoils. -/
theorem runFrame_channel {s : Moment} {c : Nat} (top : s.stack.TopProper)
    (proper : (s.machine.channel c).Proper)
    (fine : ∀ t ∈ p.turns s, ∀ mix ∈ t.mixes, mix.channel = c → ¬ mix.Spoils) :
    Ends p.runFrame s (fun _ t => t.stack.TopProper ∧ (t.machine.channel c).Proper)
      fun _ t => (t.machine.channel c).Proper := by
  obtain ⟨tops, ends⟩ := turns_keep (top_kept trap) top
  apply (ends.and (runFrame_addsUp (p.channels_addUp c) s)).mono
  · rintro _ t ⟨top, kept⟩
    exact ⟨top, kept tops fine proper⟩
  · rintro _ t ⟨-, kept⟩
    exact kept tops fine proper

/-- In every frame of a rendering, the topmost signal is a finite number whenever a unit has its turn. -/
theorem starts_top (m : Machine) (frames : Nat) (maxTime : Int) :
    ∀ s ∈ p.starts m frames maxTime, ∀ t ∈ p.turns s, t.moment.stack.TopProper := by
  have each : ∀ s ∈ p.starts m frames maxTime, s.stack.TopProper := by
    apply p.starts_induction (·.stack.TopProper) m frames maxTime Stack.start_proper
    rintro s s' ⟨t, ran, rfl⟩ top
    have after : t.stack.TopProper := (turns_keep (top_kept trap) top).2.of_ok ran
    exact after
  intro s hs
  exact (turns_keep (top_kept trap) (each s hs)).1

omit trap in
theorem Machine.advance_proper {m : Machine} {c : Nat} (proper : (m.channel c).Proper) :
    (m.advance.channel c).Proper :=
  Machine.silence_proper (Machine.silence_proper proper 0) 1

/-- From frame to frame, a channel stays proper that no mix spoils. -/
theorem startsFrom_channel {c : Nat} (maxTime : Int) (frames : Nat) {s : Moment}
    (top : s.stack.TopProper) (proper : (s.machine.channel c).Proper)
    (fine : ∀ s' ∈ p.startsFrom maxTime frames s, ∀ t ∈ p.turns s', ∀ mix ∈ t.mixes,
      mix.channel = c → ¬ mix.Spoils) :
    (∀ s' ∈ p.startsFrom maxTime frames s, ∀ t, p.runFrame.run s' = .ok () t →
      (t.machine.channel c).Proper) ∧
    ((((p.startsFrom maxTime frames s).getLast?.map p.leaves).getD s.machine).channel c).Proper := by
  induction frames generalizing s with
  | zero => exact ⟨List.forall_mem_nil _, proper⟩
  | succ frames ih =>
    by_cases time : s.time < maxTime
    · cases ran : p.runFrame.run s with
      | error e t =>
        rw [p.startsFrom_of_error time ran] at fine ⊢
        have frame := runFrame_channel trap top proper (fine s List.mem_cons_self)
        refine ⟨List.forall_mem_singleton.mpr fun t' ok => ?_, ?_⟩
        · rw [ran] at ok
          cases ok
        · change ((p.leaves s).channel c).Proper
          rw [leaves_of_error ran]
          exact frame.of_error ran
      | ok _ t =>
        rw [p.startsFrom_leaves time ran]
        rw [p.startsFrom_of_ok time ran] at fine ⊢
        obtain ⟨top', kept⟩ :=
          (runFrame_channel trap top proper (fine s List.mem_cons_self)).of_ok ran
        have goes_on := @ih (p.next t) top' (Machine.advance_proper kept)
          fun s' h => fine s' (List.mem_cons_of_mem _ h)
        refine ⟨List.forall_mem_cons.mpr ⟨fun t' ok => ?_, goes_on.1⟩, goes_on.2⟩
        rw [ran] at ok
        cases ok
        exact kept
    · rw [p.startsFrom_ended (.inr (Int.not_lt.mp time))]
      exact ⟨List.forall_mem_nil _, proper⟩

end Program

/-! ## Sessions -/

theorem Machine.fresh_proper (lines c : Nat) : ((fresh lines).channel c).Proper := by
  have silent : (fresh lines).channel c = 0.0 := by
    unfold channel fresh
    by_cases inside : c < 8 <;> simp [inside]
  rw [silent]
  exact Signal.proper_zero

namespace SynthSession

/-- The mixes that a request leads to. -/
def mixes (x : SynthSession) (request : SynthRequest) : List Mix :=
  (x.starts request).flatMap fun s => (x.synth.program.turns s).flatMap (·.mixes)

/-- The mixes that some requests lead to. -/
def mixHistory : SynthSession → List SynthRequest → List Mix
  | _, [] => []
  | x, request :: rest => x.mixes request ++ (x.serve request).mixHistory rest

theorem mixHistory_append (x : SynthSession) (first later : List SynthRequest) :
    x.mixHistory (first ++ later) =
      x.mixHistory first ++ (x.serveAll first).mixHistory later := by
  induction first generalizing x with
  | nil => rfl
  | cons request rest ih =>
    rw [List.cons_append, mixHistory, mixHistory, ih, List.append_assoc]
    rfl

/-- What is mixed into the left channel is always from the top of the stack. -/
theorem mixHistory_left (x : SynthSession) (requests : List SynthRequest) :
    ∀ mix ∈ x.mixHistory requests, mix.channel = 0 → mix.below = false := by
  induction requests generalizing x with
  | nil => exact List.forall_mem_nil _
  | cons request rest ih =>
    refine List.forall_mem_append.mpr ⟨?_, ih _⟩
    intro mix h left
    obtain ⟨s, -, h⟩ := List.mem_flatMap.mp h
    obtain ⟨t, -, h⟩ := List.mem_flatMap.mp h
    exact RunningUnit.mixes_left h left

theorem fine_of_mixes {x : SynthSession} {request : SynthRequest} {c : Nat}
    (fine : ∀ mix ∈ x.mixes request, mix.channel = c → ¬ mix.Spoils) :
    ∀ s ∈ x.starts request, ∀ t ∈ x.synth.program.turns s, ∀ mix ∈ t.mixes,
      mix.channel = c → ¬ mix.Spoils := by
  intro s hs t ht mix hm
  exact fine mix (List.mem_flatMap.mpr ⟨s, hs, List.mem_flatMap.mpr ⟨t, ht, hm⟩⟩)

section Trapped

variable {options : SynthOptions} {x : SynthSession} (reached : x.Reached options)
  (trap : options.trap = true)
include reached trap

/-- A call leaves a channel proper that no mix of it spoils, after every frame and in the end. -/
theorem call_channel {c : Nat} (proper : (x.synth.machine.channel c).Proper) {buffer : Audio}
    {maxTime : Int} (fine : ∀ mix ∈ x.mixes (.render buffer maxTime),
      mix.channel = c → ¬ mix.Spoils) :
    (∀ s ∈ x.starts (.render buffer maxTime), ∀ t, x.synth.program.runFrame.run s = .ok () t →
      (t.machine.channel c).Proper) ∧
    ((x.serve (.render buffer maxTime)).synth.machine.channel c).Proper := by
  obtain ⟨frames, last⟩ := Program.startsFrom_channel (reached.trap.trans trap) maxTime
    buffer.length (s := x.synth.program.opening x.synth.machine Stack.start Moment.scratchStart 0)
    Stack.start_proper proper (fine_of_mixes fine)
  refine ⟨frames, ?_⟩
  have machine := x.synth.program.render_machine x.synth.machine buffer.length maxTime
  change ((x.synth.program.render x.synth.machine buffer.length maxTime).machine.channel c).Proper
  rw [machine]
  exact last

theorem serve_channel {c : Nat} (proper : (x.synth.machine.channel c).Proper)
    {request : SynthRequest} (fine : ∀ mix ∈ x.mixes request, mix.channel = c → ¬ mix.Spoils) :
    ((x.serve request).synth.machine.channel c).Proper := by
  by_cases renders : ∃ buffer maxTime, request = .render buffer maxTime
  · obtain ⟨buffer, maxTime, rfl⟩ := renders
    exact (call_channel reached trap proper fine).2
  · have same : (x.serve request).synth.machine.bus = x.synth.machine.bus :=
      x.serve_bus fun buffer maxTime render => renders ⟨buffer, maxTime, render⟩
    rw [Machine.channel_of_bus same]
    exact proper

theorem serveAll_channel {c : Nat} (proper : (x.synth.machine.channel c).Proper)
    {requests : List SynthRequest}
    (fine : ∀ mix ∈ x.mixHistory requests, mix.channel = c → ¬ mix.Spoils) :
    ((x.serveAll requests).synth.machine.channel c).Proper := by
  induction requests generalizing x with
  | nil => exact proper
  | cons request rest ih =>
    obtain ⟨here, later⟩ := List.forall_mem_append.mp fine
    exact ih (reached.serve request) (serve_channel reached trap proper here) later

/-- The frames of a call are proper on a channel that no mix of the session spoils. -/
theorem piece_channel {c : Nat} (proper : (x.synth.machine.channel c).Proper) {buffer : Audio}
    {maxTime : Int} (fine : ∀ mix ∈ x.mixes (.render buffer maxTime),
      mix.channel = c → ¬ mix.Spoils) :
    ∀ f ∈ x.synth.piece buffer.length maxTime, ∃ t : Moment, t.machine.output = f ∧
      (t.machine.channel c).Proper := by
  intro f hf
  unfold Synth.piece at hf
  rw [Program.render_frames] at hf
  obtain ⟨s, hs, heard⟩ := List.mem_filterMap.mp hf
  obtain ⟨t, ran, rfl⟩ := Program.frame?_eq_some.mp heard
  exact ⟨t, rfl, (call_channel reached trap proper fine).1 s hs t ran⟩

end Trapped

end SynthSession

/-- What the trap guards. In a synth that takes signals that are no finite numbers for faults, the
topmost signal is a finite number whenever a unit has its turn. So the left channel of a frame that
is written is finite, unless a sum on this channel of the bus has overflowed since the synth was
made; and so is the right channel, unless a sum has overflowed there, or the right one of two
signals, at which the trap does not look, was no finite number when it was mixed in. -/
theorem trap_guards_frames {options : SynthOptions} {patch : Patch} {bpm : Nat} {synth : Synth}
    (made : Synth.create options patch bpm = .ok synth) (trap : options.trap = true)
    (requests : List SynthRequest) (buffer : Audio) (maxTime : Int) :
    let made : SynthSession := ⟨patch, bpm, synth⟩
    let x := made.serveAll requests
    let call := x.synth.render buffer maxTime
    let history := made.mixHistory (requests ++ [.render buffer maxTime])
    (∀ s ∈ x.starts (.render buffer maxTime), ∀ t ∈ x.synth.program.turns s,
      t.moment.stack.TopProper) ∧
    ∀ f ∈ call.2.1.take call.2.2.progress.samples,
      (f.left.Proper ∨ ∃ mix ∈ history, mix.channel = 0 ∧ mix.Overflows) ∧
      (f.right.Proper ∨ ∃ mix ∈ history, mix.channel = 1 ∧ (mix.Unseen ∨ mix.Overflows)) := by
  intro first x call history
  have started : first.Reached options := .create made
  have reached : x.Reached options := started.serveAll requests
  have fresh : ∀ c, (synth.machine.channel c).Proper := by
    obtain ⟨b, -, rfl⟩ := Synth.create_compiled made
    exact Machine.fresh_proper _
  have frames : ∀ c, (∀ mix ∈ history, mix.channel = c → ¬ mix.Spoils) →
      ∀ f ∈ x.synth.piece buffer.length maxTime, ∃ t : Moment, t.machine.output = f ∧
        (t.machine.channel c).Proper := by
    intro c fine
    change ∀ mix ∈ first.mixHistory (requests ++ [.render buffer maxTime]), _ at fine
    rw [SynthSession.mixHistory_append] at fine
    obtain ⟨before, here⟩ := List.forall_mem_append.mp fine
    apply SynthSession.piece_channel reached trap
    · exact SynthSession.serveAll_channel started trap (fresh c) before
    · exact (List.forall_mem_append.mp here).1
  refine ⟨?_, ?_⟩
  · exact Program.starts_top (reached.trap.trans trap) _ _ _
  · intro f hf
    change f ∈ (x.synth.render buffer maxTime).2.1.take _ at hf
    rw [Synth.render_reported] at hf
    constructor
    · by_contra spoilt
      obtain ⟨improper, none⟩ := not_or.mp spoilt
      obtain ⟨t, rfl, proper⟩ := frames 0 (by
        rintro mix hm left (⟨below, -⟩ | overflows)
        · rw [first.mixHistory_left _ mix hm left] at below
          cases below
        · exact none ⟨mix, hm, left, overflows⟩) f hf
      exact improper proper
    · by_contra spoilt
      obtain ⟨improper, none⟩ := not_or.mp spoilt
      obtain ⟨t, rfl, proper⟩ := frames 1 (by
        intro mix hm right spoils
        exact none ⟨mix, hm, right, spoils⟩) f hf
      exact improper proper

/-- The left channel is bent from one to one. The right one is bent from zero, which is a quotient of
zeros. -/
def bentPatch : Patch where
  instruments := [
    { units := [
        { kindName := "loadval", settings := .ofEntries [("value", 64)] },
        { kindName := "loadval", settings := .ofEntries [("value", 128)] },
        { kindName := "distort", settings := .ofEntries [("drive", 128), ("stereo", 1)] },
        { kindName := "out", settings := .ofEntries [("gain", 128), ("stereo", 1)] }] }]

/-- The call succeeds, and its frame is finite on the left alone. -/
theorem trap_guards_frames_bent : ∃ (synth : Synth) (f : Frame),
    Synth.create { trap := true } bentPatch 100 = .ok synth ∧
    (synth.render (.silent 1) 1).2.2 = ⟨⟨1, 1⟩, none⟩ ∧
    (synth.render (.silent 1) 1).2.1 = [f] ∧ f.left.Proper ∧ ¬ f.right.Proper ∧
    ∃ mix ∈ SynthSession.mixHistory ⟨bentPatch, 100, synth⟩ [.render (.silent 1) 1],
      mix.channel = 1 ∧ mix.Unseen := by
  obtain ⟨synth, made, report, one, bent, sound⟩ : ∃ synth,
      Synth.create { trap := true } bentPatch 100 = .ok synth ∧
      (synth.render (.silent 1) 1).2.2 = ⟨⟨1, 1⟩, none⟩ ∧
      (synth.render (.silent 1) 1).2.1.length = 1 ∧
      (∀ f ∈ (synth.render (.silent 1) 1).2.1, f.left.Proper ∧ ¬ f.right.Proper) ∧
      ∀ mix ∈ SynthSession.mixHistory ⟨bentPatch, 100, synth⟩ [.render (.silent 1) 1],
        ¬ mix.Overflows :=
    ⟨_, rfl, by decide +kernel, by decide +kernel, by decide +kernel, by decide +kernel⟩
  obtain ⟨f, rendered⟩ := List.length_eq_one_iff.mp one
  obtain ⟨left, right⟩ := bent f (rendered ▸ List.mem_singleton_self f)
  obtain ⟨-, frames⟩ := trap_guards_frames made rfl [] (.silent 1) 1
  have heard : f ∈ (synth.render (.silent 1) 1).2.1.take
      (synth.render (.silent 1) 1).2.2.progress.samples := by
    rw [rendered, report]
    exact List.mem_singleton_self f
  obtain ⟨mix, here, channel, unseen | overflows⟩ := (frames f heard).2.resolve_left right
  · exact ⟨synth, f, made, report, rendered, left, right, mix, here, channel, unseen⟩
  · exact absurd overflows (sound mix here)

end ModularSynth
