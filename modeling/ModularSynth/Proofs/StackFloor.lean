-- What frames leave of the bottom of the stack. The zeros there are put down once for a rendering,
-- and a unit that reaches below the signals of its own instrument can write over them; then later
-- frames start with what it has written. Code whose units only read there leaves them alone.
import ModularSynth.Proofs.FrameStarts
import ModularSynth.Proofs.Lockstep
import ModularSynth.Proofs.StackDepth

namespace ModularSynth

/-! ## What units write -/

namespace Stack

/-- A combined signal is written over the topmost one, and the other is only read. -/
theorem combine_rewrites (f : Signal → Signal → Signal) (stereo : Bool) :
    Replaces (combine f stereo) ⟨if stereo then 2 else 1, if stereo then 2 else 1⟩ := by
  intro taken below h
  match stereo, taken, below, h with
  | false, [a], [], _ => exact ⟨[a], rfl, rfl⟩
  | false, [a], b :: below, _ => exact ⟨[f a b], rfl, rfl⟩
  | true, [a, b], [], _ => exact ⟨[a, b], rfl, rfl⟩
  | true, [a, b], [c], _ => exact ⟨[a, b], rfl, rfl⟩
  | true, [a, b], c :: d :: below, _ => exact ⟨[f a c, f b d], rfl, rfl⟩

/-- A copy is put on top of what it is a copy of. -/
theorem duplicate_rewrites (stereo : Bool) {stack : Stack}
    (enough : (if stereo then 2 else 1) ≤ stack.length) :
    ∃ given : Stack, given.length = (if stereo then 2 else 1) ∧
      duplicate stereo stack = given ++ stack := by
  match stereo, stack, enough with
  | false, a :: stack, _ => exact ⟨[a], rfl, rfl⟩
  | true, a :: b :: stack, _ => exact ⟨[a, b], rfl, rfl⟩

end Stack

namespace RunningUnit

/-- The signals that a unit takes off the stack or writes over, and what stands there instead.
Signals that it only reads are none of them. -/
def rewrite (u : RunningUnit) : StackEffect :=
  match u.kind with
  | .add | .mul => ⟨u.channels, u.channels⟩
  | .push | .compressor => ⟨0, u.channels⟩
  | .send => ⟨if u.address.pops then u.channels else 0, 0⟩
  | _ => u.effect

/-- What a unit does not take off the stack or write over, it reads and leaves there. -/
theorem rewrite_le (u : RunningUnit) :
    ∃ read, u.effect.inputs = u.rewrite.inputs + read ∧
      u.effect.outputs = u.rewrite.outputs + read := by
  refine ⟨u.effect.inputs - u.rewrite.inputs, ?_⟩
  unfold rewrite effect channels
  cases u.kind <;> cases u.stereo <;> cases u.address.pops <;> decide

/-- A run that finds so many signals on the stack changes no more of it than an effect says. -/
def Rewrites (x : Exec Unit) (need : Nat) (e : StackEffect) : Prop :=
  ∀ s : Moment, need ≤ s.stack.length →
    Ends x s (fun _ s' => ∃ given : Stack, given.length = e.outputs ∧
      s'.stack = given ++ s.stack.drop e.inputs) (fun _ _ => True)

theorem send_rewrites (u : RunningUnit) :
    Rewrites u.send u.channels ⟨if u.address.pops then u.channels else 0, 0⟩ := by
  intro s _
  unfold send
  simp only
  rw [show (u.extra 0).toUInt16 ||| (u.extra 1).toUInt16 <<< 8 = u.address from rfl]
  split
  · trivial
  · simp only [Ends.modify_iff]
    cases u.address.pops
    · exact ⟨[], rfl, rfl⟩
    · exact ⟨[], rfl, rfl⟩

/-- No unit writes below what it rewrites. -/
theorem run_rewrites (u : RunningUnit) (p : Program) :
    Rewrites (u.run p) u.effect.inputs u.rewrite := by
  intro s enough
  have few : u.rewrite.inputs ≤ s.stack.length := by
    obtain ⟨read, inputs, -⟩ := u.rewrite_le
    omega
  have depth : u.effect.inputs = Program.stackNeed u.kind u.stereo := u.effect_inputs
  cases hk : u.kind
  case add | mul =>
    simp only [rewrite, run, hk] at few ⊢
    exact (Stack.combine_rewrites _ _).apply few
  case push =>
    have need : (if u.stereo then 2 else 1) ≤ s.stack.length := by
      rw [hk] at depth
      rw [depth] at enough
      cases hs : u.stereo <;> rw [hs] at enough <;> exact enough
    simp only [rewrite, run, hk]
    exact Stack.duplicate_rewrites u.stereo need
  case compressor =>
    simp only [rewrite, run, hk]
    exact ⟨List.replicate u.channels _, List.length_replicate, rfl⟩
  case send =>
    simp only [rewrite, run, effect, hk] at enough ⊢
    exact u.send_rewrites s enough
  all_goals
    have same : u.rewrite = u.effect := by
      unfold rewrite
      rw [hk]
    rw [same]
    exact u.run_plays p s enough

end RunningUnit

/-! ## Code that keeps the floor -/

/-- What a compiled unit rewrites. It does not depend on when the unit runs. -/
def CompiledUnit.rewrite (c : CompiledUnit) : StackEffect :=
  match c.kind? with
  | some kind => (c.running kind default 0 0).rewrite
  | none => .none

/-- What a block rewrites, unit by unit. -/
def CodeBlock.rewrites (block : CodeBlock) : List StackEffect :=
  block.map (·.rewrite)

/-- Every unit of a bytecode rewrites only signals of its own instrument. It may read those
below. -/
def Bytecode.KeepsFloor (b : Bytecode) : Prop :=
  ∀ block ∈ b.blocks, (StackEffect.depthAfter block.rewrites 0).isSome = true

instance (b : Bytecode) : Decidable b.KeepsFloor :=
  inferInstanceAs (Decidable (∀ block ∈ b.blocks, _))

theorem CompiledUnit.rewrite_eq {c : CompiledUnit} {kind : UnitKind} (h : c.kind? = some kind)
    (s : Moment) (voice slot : Nat) : c.rewrite = (c.running kind s voice slot).rewrite := by
  rw [rewrite, h]
  rfl

theorem CompiledUnit.rewrite_le (c : CompiledUnit) :
    ∃ read, c.effect.inputs = c.rewrite.inputs + read ∧
      c.effect.outputs = c.rewrite.outputs + read := by
  unfold effect rewrite
  cases c.kind? with
  | none => exact ⟨0, rfl, rfl⟩
  | some kind => exact (c.running kind default 0 0).rewrite_le

/-- Units that find all their signals on the stack find those that they rewrite. -/
theorem CodeBlock.rewrites_depth (block : CodeBlock) {depth left : Nat}
    (runs : StackEffect.depthAfter block.effects depth = some left) :
    StackEffect.depthAfter block.rewrites depth = some left := by
  induction block generalizing depth with
  | nil => exact runs
  | cons c block ih =>
    obtain ⟨read, inputs, outputs⟩ := c.rewrite_le
    rw [effects, List.map_cons, StackEffect.depthAfter] at runs
    rw [rewrites, List.map_cons, StackEffect.depthAfter]
    by_cases enough : c.effect.inputs ≤ depth
    · rw [if_pos enough] at runs
      rw [if_pos (by omega), show depth - c.rewrite.inputs + c.rewrite.outputs =
        depth - c.effect.inputs + c.effect.outputs by omega]
      exact ih runs
    · rw [if_neg enough] at runs
      cases runs

/-- Where no unit lacks signals, all of them keep to the signals of their instruments. -/
theorem Compiled.keepsFloor {patch : Patch} {bpm : Nat} {b : Bytecode}
    {assembled : List (List AssembledUnit)} (h : Compiled patch bpm b assembled)
    (inside : patch.InCatalogue) (safe : patch.NoUnderflow) : b.KeepsFloor := by
  intro block hb
  obtain ⟨i, hi⟩ := List.mem_iff_getElem?.mp hb
  have hlt : i < patch.instruments.length := by
    rw [← h.blocks_length inside.stereoFlags]
    exact (List.getElem?_eq_some_iff.mp hi).1
  have runs := h.block_effects inside safe (List.getElem?_eq_getElem hlt) hi
  rw [block.rewrites_depth runs]
  rfl

/-! ## Running code -/

namespace Program

/-- A framed unit leaves a stack as it is, if the signals that it rewrites stand above. -/
theorem runUnit_upon (p : Program) {c : CompiledUnit} (framed : c.Framed) {slot : Nat}
    (hs : slot < maxUnits) (voice : Nat) {s : Moment} {more : List UInt8}
    (ho : s.operands = c.operands ++ more) {base : Stack} {depth : Nat}
    (above : s.Above base depth) (enough : c.rewrite.inputs ≤ depth) :
    Ends (p.runUnit voice slot c.opcode) s
      (fun _ s' => s'.operands = more ∧
        s'.Above base (depth - c.rewrite.inputs + c.rewrite.outputs))
      (fun _ _ => True) := by
  obtain ⟨kind, hk, hl⟩ := framed
  rw [c.rewrite_eq hk s voice slot] at enough ⊢
  unfold Ends
  rw [p.runUnit_framed hk hl hs voice ho]
  by_cases need : s.stack.length < stackNeed kind c.stereo
  · rw [if_pos need]
    trivial
  · rw [if_neg need]
    change Ends _ _ _ _
    rw [Ends.bind_iff]
    have inputs : (c.running kind s voice slot).effect.inputs = stackNeed kind c.stereo :=
      (c.running kind s voice slot).effect_inputs
    have steady := (c.running kind s voice slot).run_ends p
      { s.ready kind voice slot more with scratch := (c.running kind s voice slot).params }
    have rewrites := (c.running kind s voice slot).run_rewrites p
      { s.ready kind voice slot more with scratch := (c.running kind s voice slot).params }
      (show _ ≤ s.stack.length by omega)
    apply (steady.and rewrites).mono
    · rintro _ s' ⟨steady, given, outputs, stack'⟩
      apply (p.trapTop_ends kind s').mono
      · rintro _ _ rfl
        rw [← outputs]
        exact ⟨steady.operands, above.replace enough stack'⟩
      · intro _ _ _
        trivial
    · intro _ _ _
      trivial

/-- A framed block leaves a stack as it is, if its units rewrite only signals above. -/
theorem runOpcodes_upon (p : Program) {block : CodeBlock} (framed : block.Framed)
    (voice slot : Nat) (hs : slot + block.length ≤ maxUnits) {s : Moment} {more : List UInt8}
    (ho : s.operands = block.operands ++ more) {base : Stack} {depth left : Nat}
    (above : s.Above base depth)
    (runs : StackEffect.depthAfter block.rewrites depth = some left) :
    Ends (p.runOpcodes voice slot block.opcodes) s (fun _ s' => s'.Above base left)
      (fun _ _ => True) := by
  induction block generalizing slot s depth with
  | nil =>
    cases runs
    exact above
  | cons c block ih =>
    rw [CodeBlock.opcodes_cons, runOpcodes, Ends.bind_iff]
    rw [CodeBlock.operands_cons, List.append_assoc] at ho
    rw [List.length_cons] at hs
    rw [CodeBlock.rewrites, List.map_cons, StackEffect.depthAfter] at runs
    by_cases enough : c.rewrite.inputs ≤ depth
    · rw [if_pos enough] at runs
      apply (p.runUnit_upon (framed c List.mem_cons_self) (by omega) voice ho above enough).mono
      · rintro _ s' ⟨operands, above'⟩
        exact ih (fun c' h' => framed c' (List.mem_cons_of_mem _ h')) (slot + 1) (by omega)
          operands above' runs
      · intro _ _ _
        trivial
    · rw [if_neg enough] at runs
      cases runs

section Frames

variable (p : Program) {patch : Patch} {bpm : Nat} {assembled : List (List AssembledUnit)}
  (h : Compiled patch bpm p.bytecode assembled) (flags : patch.StereoFlags)
  (keeps : p.bytecode.KeepsFloor)
include h flags keeps

/-- A voice leaves the stack that it finds, and what it puts on top. -/
theorem playVoice_upon (voice : Nat) (s : Moment) :
    Ends (p.playVoice patch voice) s (fun _ s' => s.stack <:+ s'.stack) (fun _ _ => True) := by
  unfold playVoice
  cases hi : patch.instrumentForVoice voice with
  | none => exact List.suffix_rfl
  | some i =>
    obtain ⟨block, blocks, framed, short⟩ := p.blocks_of_voice h flags hi
    have member : block ∈ p.bytecode.blocks := by
      apply List.mem_of_mem_drop (i := i)
      rw [blocks]
      exact List.mem_cons_self
    obtain ⟨left, runs⟩ := Option.isSome_iff_exists.mp (keeps block member)
    simp only [blocks, playBlock, Ends.bind_iff, Ends.modify_iff]
    apply (p.runOpcodes_upon framed voice 0 (by omega) (CodeBlock.operandStream_cons _ _)
      (Moment.Above.top _) runs).mono
    · rintro _ s' ⟨top, -, stack⟩
      exact ⟨top, stack.symm⟩
    · intro _ _ _
      trivial

theorem playVoices_upon (voices : List Nat) (s : Moment) :
    Ends (forM voices (p.playVoice patch)) s (fun _ s' => s.stack <:+ s'.stack)
      (fun _ _ => True) := by
  induction voices generalizing s with
  | nil => exact List.suffix_rfl
  | cons voice voices ih =>
    rw [List.forM_cons, Ends.bind_iff]
    apply (p.playVoice_upon h flags keeps voice s).mono
    · intro _ s' first
      apply (ih s').mono
      · intro _ s'' later
        exact first.trans later
      · intro _ _ _
        trivial
    · intro _ _ _
      trivial

/-- A frame that comes to its end leaves the bottom of the stack as it has found it. -/
theorem runFrame_upon {s t : Moment} (ho : s.operands = p.bytecode.operands)
    (bottom : s.stack.length = Stack.floor) (ran : p.runFrame.run s = .ok () t) :
    t.stack = s.stack := by
  have voices := p.runVoices_of_runFrame ran
  rw [p.runVoices_all h flags ho] at voices
  have upon : s.stack <:+ t.stack := (p.playVoices_upon h flags keeps _ s).of_ok voices
  have depth : t.stack.length = Stack.floor := (p.runFrame_depth s).of_ok ran
  exact (upon.eq_of_length (bottom.trans depth.symm)).symm

/-- Then every frame starts from the zeros. -/
theorem starts_zeros (m : Machine) (frames : Nat) (maxTime : Int) :
    ∀ s ∈ p.starts m frames maxTime, s.stack = Stack.start := by
  have each : ∀ s ∈ p.starts m frames maxTime,
      s.operands = p.bytecode.operands ∧ s.stack = Stack.start := by
    apply p.starts_induction
      (fun s => s.operands = p.bytecode.operands ∧ s.stack = Stack.start)
    · exact ⟨rfl, rfl⟩
    · rintro s s' ⟨t, ran, rfl⟩ ⟨operands, stack⟩
      have bottom : s.stack.length = Stack.floor := by
        rw [stack]
        exact List.length_replicate
      have kept := p.runFrame_upon h flags keeps operands bottom ran
      exact ⟨rfl, kept.trans stack⟩
  intro s hs
  exact (each s hs).2

end Frames

end Program

/-- A rendering starts with four zeros on the stack, and every frame of it starts with four signals.
Those are what the frame before has left, so they are zeros again in every frame of a patch in which
no unit writes below the signals of its instrument; units may read there. That holds of every patch
in which no unit lacks signals. Nothing but the machine and these four signals makes a difference to
a frame. -/
theorem frames_start_from_floor {patch : Patch} {bpm : Nat} {b : Bytecode}
    (compiled : Bytecode.compile patch .all bpm = .ok b) (p : Program) (hp : p.bytecode = b)
    (m : Machine) (frames : Nat) (maxTime : Int) :
    (0 < frames → 0 < maxTime → ∃ s, (p.starts m frames maxTime).head? = some s ∧
      s.machine = m ∧ s.stack = [0.0, 0.0, 0.0, 0.0]) ∧
    (∀ s ∈ p.starts m frames maxTime, s.stack.length = 4) ∧
    (p.starts m frames maxTime).IsChain (fun s s' => ∃ t, p.runFrame.run s = .ok () t ∧
      s'.stack = t.stack ∧ s'.machine = t.machine.advance) ∧
    (p.render m frames maxTime).frames = (p.starts m frames maxTime).filterMap p.frame? ∧
    (∀ (m' : Machine) (frames' : Nat) (maxTime' : Int), ∀ s ∈ p.starts m frames maxTime,
      ∀ s' ∈ p.starts m' frames' maxTime', s'.machine = s.machine → s'.stack = s.stack →
        EndsAlike (s'.time - s.time) (p.runFrame.run s) (p.runFrame.run s') ∧
          p.frame? s' = p.frame? s) ∧
    (patch.StereoFlags → b.KeepsFloor →
      ∀ s ∈ p.starts m frames maxTime, s.stack = [0.0, 0.0, 0.0, 0.0]) ∧
    (patch.InCatalogue → patch.NoUnderflow → b.KeepsFloor) := by
  obtain ⟨assembled, h⟩ := Bytecode.compile_ok compiled
  subst hp
  refine ⟨?_, p.starts_depth m frames maxTime, ?_, p.render_frames m frames maxTime, ?_, ?_,
    fun inside safe => h.keepsFloor inside safe⟩
  · intro some_frames some_time
    obtain ⟨frames, rfl⟩ := Nat.exists_eq_succ_of_ne_zero (Nat.pos_iff_ne_zero.mp some_frames)
    refine ⟨p.opening m Stack.start Moment.scratchStart 0, ?_, rfl, rfl⟩
    unfold Program.starts Program.startsFrom
    rw [if_pos (show (p.opening m Stack.start Moment.scratchStart 0).time < maxTime from some_time)]
    rfl
  · apply (p.startsFrom_chain maxTime frames _).imp
    rintro s s' ⟨t, ran, rfl⟩
    exact ⟨t, ran, rfl, rfl⟩
  · intro m' frames' maxTime' s hs s' hs' machine stack
    have alike : s.Alike (s'.time - s.time) s' := by
      obtain ⟨operands, line⟩ := p.starts_operands m frames maxTime s hs
      obtain ⟨operands', line'⟩ := p.starts_operands m' frames' maxTime' s' hs'
      refine ⟨s'.scratch, ?_⟩
      rw [← machine, ← stack, operands, ← operands', line, ← line']
      simp
    have same := p.runFrame_keepsPace _ s s' alike
    refine ⟨same, ?_⟩
    unfold Program.frame?
    cases ran : p.runFrame.run s with
    | ok _ t =>
      rw [ran] at same
      obtain ⟨t', ran', _, rfl⟩ := same.of_ok
      rw [ran']
    | error e t =>
      rw [ran] at same
      obtain ⟨t', ran', -⟩ := same.of_error
      rw [ran']
  · intro flags keeps
    exact p.starts_zeros h flags keeps m frames maxTime

/-- A unit that adds what stands at the bottom of the stack, which it only reads. -/
def leaningPatch : Patch where
  instruments := [
    { units := [
        { kindName := "loadval", settings := .ofEntries [("value", 128)] },
        { kindName := "add", settings := .ofEntries [] },
        { kindName := "out", settings := .ofEntries [("gain", 128)] }] }]

theorem frames_start_from_floor_leaning :
    ∃ b, Bytecode.compile leaningPatch .all 100 = .ok b ∧ ¬ leaningPatch.NoUnderflow ∧
      ∀ (p : Program) (m : Machine) (frames : Nat) (maxTime : Int), p.bytecode = b →
        ∀ s ∈ p.starts m frames maxTime, s.stack = [0.0, 0.0, 0.0, 0.0] := by
  obtain ⟨b, compiled, keeps⟩ : ∃ b, Bytecode.compile leaningPatch .all 100 = .ok b ∧
      b.KeepsFloor := ⟨_, rfl, by decide +kernel⟩
  refine ⟨b, compiled, by decide +kernel, ?_⟩
  intro p m frames maxTime hp
  obtain ⟨-, -, -, -, -, zeros, -⟩ := frames_start_from_floor compiled p hp m frames maxTime
  exact zeros (by decide +kernel) keeps

/-- A unit that adds to what stands at the bottom of the stack, which the next frame starts with. -/
def sinkingPatch : Patch where
  instruments := [
    { units := [
        { kindName := "push", settings := .ofEntries [] },
        { kindName := "out", settings := .ofEntries [("gain", 128)] },
        { kindName := "loadval", settings := .ofEntries [("value", 128)] },
        { kindName := "addp", settings := .ofEntries [] }] }]

example : ((Synth.create {} sinkingPatch 100).toOption.map fun s =>
    (s.program.starts s.machine 3 3).map (·.stack)) =
    some [[0.0, 0.0, 0.0, 0.0], [1.0, 0.0, 0.0, 0.0], [2.0, 0.0, 0.0, 0.0]] := by
  decide +kernel

end ModularSynth
