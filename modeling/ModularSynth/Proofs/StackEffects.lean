-- What the units do to the stack when they run. Each kind takes its inputs off the top, puts
-- its outputs in their place, and touches nothing below; so code whose stack effects never ask
-- for more than is there runs without an underflow, over whatever stack.
import ModularSynth.Proofs.CodeRuns

namespace ModularSynth

/-! ## Stack effects in turn -/

namespace StackEffect

/-- The number of signals after some effects in turn, if none of them lacks signals. -/
def depthAfter : List StackEffect → Nat → Option Nat
  | [], depth => some depth
  | e :: rest, depth =>
    if e.inputs ≤ depth then depthAfter rest (depth - e.inputs + e.outputs) else Option.none

theorem depthAfter_append (first later : List StackEffect) (depth : Nat) :
    depthAfter (first ++ later) depth = depthAfter first depth >>= depthAfter later := by
  induction first generalizing depth with
  | nil => rfl
  | cons e rest ih =>
    rw [List.cons_append, depthAfter, depthAfter]
    split
    · exact ih _
    · rfl

end StackEffect

/-! ## Changes of the stack -/

namespace Stack

/-- A change of the stack takes the inputs of an effect off the top and puts its outputs in
their place. What stands below stays. -/
def Replaces (f : Stack → Stack) (e : StackEffect) : Prop :=
  ∀ taken below : Stack, taken.length = e.inputs →
    ∃ given : Stack, given.length = e.outputs ∧ f (taken ++ below) = given ++ below

theorem Replaces.apply {f : Stack → Stack} {e : StackEffect} (h : Replaces f e) {stack : Stack}
    (enough : e.inputs ≤ stack.length) :
    ∃ given : Stack, given.length = e.outputs ∧ f stack = given ++ stack.drop e.inputs := by
  obtain ⟨given, length, same⟩ := h (stack.take e.inputs) (stack.drop e.inputs)
    (List.length_take_of_le enough)
  rw [List.take_append_drop] at same
  exact ⟨given, length, same⟩

theorem combine_replaces (f : Signal → Signal → Signal) (stereo : Bool) :
    Replaces (combine f stereo) (UnitKind.add.stackEffect stereo) := by
  intro taken below h
  match stereo, taken, h with
  | false, [a, b], _ => exact ⟨[f a b, b], rfl, rfl⟩
  | true, [a, b, c, d], _ => exact ⟨[f a c, f b d, c, d], rfl, rfl⟩

theorem combinePop_replaces (f : Signal → Signal → Signal) (stereo : Bool) :
    Replaces (combinePop f stereo) (UnitKind.addp.stackEffect stereo) := by
  intro taken below h
  match stereo, taken, h with
  | false, [a, b], _ => exact ⟨[f b a], rfl, rfl⟩
  | true, [a, b, c, d], _ => exact ⟨[f c a, f d b], rfl, rfl⟩

theorem exchange_replaces (stereo : Bool) :
    Replaces (exchange stereo) (UnitKind.xch.stackEffect stereo) := by
  intro taken below h
  match stereo, taken, h with
  | false, [a, b], _ => exact ⟨[b, a], rfl, rfl⟩
  | true, [a, b, c, d], _ => exact ⟨[c, d, a, b], rfl, rfl⟩

theorem duplicate_replaces (stereo : Bool) :
    Replaces (duplicate stereo) (UnitKind.push.stackEffect stereo) := by
  intro taken below h
  match stereo, taken, h with
  | false, [a], _ => exact ⟨[a, a], rfl, rfl⟩
  | true, [a, b], _ => exact ⟨[a, b, a, b], rfl, rfl⟩

theorem pan_replaces (panning : Signal) (stereo : Bool) :
    Replaces (pan panning stereo) (UnitKind.pan.stackEffect stereo) := by
  intro taken below h
  match stereo, taken, h with
  | false, [a], _ => exact ⟨[a * (1.0 - panning), a * panning], rfl, rfl⟩
  | true, [a, b], _ => exact ⟨[a * (1.0 - panning), b * panning], rfl, rfl⟩

theorem drop_replaces (n : Nat) : Replaces (·.drop n) ⟨n, 0⟩ := by
  intro taken below h
  obtain rfl : taken.length = n := h
  exact ⟨[], rfl, List.drop_left⟩

theorem pushAll_replaces (n : Nat) (x : Signal) : Replaces (pushAll n x) ⟨0, n⟩ := by
  intro taken below h
  obtain rfl : taken = [] := List.length_eq_zero_iff.mp h
  exact ⟨List.replicate n x, List.length_replicate, rfl⟩

theorem mapTop_replaces (f : Signal → Signal) (n : Nat) : Replaces (mapTop f n) ⟨n, n⟩ := by
  intro taken below h
  induction n generalizing taken with
  | zero =>
    obtain rfl : taken = [] := List.length_eq_zero_iff.mp h
    exact ⟨[], rfl, rfl⟩
  | succ n ih =>
    obtain ⟨x, taken, rfl⟩ := List.exists_cons_of_length_eq_add_one h
    obtain ⟨given, length, same⟩ := ih taken (Nat.succ.inj h)
    exact ⟨f x :: given, congrArg (· + 1) length, congrArg (f x :: ·) same⟩

end Stack

theorem eachChannel_replaces (step : Nat → Slot → Signal → Slot × Signal) (slot : Slot)
    (n channel : Nat) :
    Stack.Replaces (fun stack => (eachChannel step slot n channel stack).2) ⟨n, n⟩ := by
  intro taken below h
  induction n generalizing taken slot channel with
  | zero =>
    obtain rfl : taken = [] := List.length_eq_zero_iff.mp h
    exact ⟨[], rfl, rfl⟩
  | succ n ih =>
    obtain ⟨x, taken, rfl⟩ := List.exists_cons_of_length_eq_add_one h
    obtain ⟨given, length, same⟩ := ih (step channel slot x).1 (channel + 1) taken (Nat.succ.inj h)
    exact ⟨(step channel slot x).2 :: given, congrArg (· + 1) length,
      congrArg ((step channel slot x).2 :: ·) same⟩

/-- An oscillator puts a signal for each channel on top of the stack. -/
theorem Oscillator.channels_outputs (o : Oscillator) (count channel : Nat) (detune phase : Signal)
    (slot : Slot) (outputs : List Signal) :
    ∃ given : Stack, given.length = count ∧
      (o.channels count channel detune phase slot outputs).2.2 = given ++ outputs := by
  induction count generalizing channel detune phase slot outputs with
  | zero => exact ⟨[], rfl, rfl⟩
  | succ count ih =>
    obtain ⟨given, length, same⟩ := ih (channel + 1) (-detune)
      (o.soundAll channel (unison o.flags) 0 detune phase 0.0 slot).2.1
      (o.soundAll channel (unison o.flags) 0 detune phase 0.0 slot).1
      ((o.soundAll channel (unison o.flags) 0 detune phase 0.0 slot).2.2 :: outputs)
    refine ⟨given ++ [(o.soundAll channel (unison o.flags) 0 detune phase 0.0 slot).2.2], ?_, ?_⟩
    · rw [List.length_append, length, List.length_singleton]
    · rw [List.append_assoc]
      exact same

/-- The stack effect of a kind as the machine runs it. The kinds that steer time do not care for
stereo. -/
def UnitKind.playedEffect (kind : UnitKind) (stereo : Bool) : StackEffect :=
  match kind with
  | .speed => ⟨1, 0⟩
  | .sync => .none
  | kind => kind.stackEffect stereo

namespace RunningUnit

/-- A delay gives a signal for each that it gets. -/
theorem delayChannels_length (d : Delay) (count : Nat) (place : Delay.Cursor)
    (lines : Array DelayLine) (xs : List Signal) :
    ∀ place' ys, (delayChannels d count place lines xs).2 = .ok (place', ys) →
      ys.length = xs.length := by
  induction xs with
  | nil =>
    rintro place' ys ⟨⟩
    rfl
  | cons x rest ih =>
    intro place' ys h
    rw [delayChannels] at h
    rcases hr : delayChannels d count place lines rest with ⟨lines', e | ⟨place₁, ys₁⟩⟩
    · rw [hr] at h
      cases h
    · rw [hr] at h ih
      simp only at h
      rcases hc : d.runChannel count place₁ x lines' with ⟨lines'', e | ⟨place₂, y⟩⟩
      · rw [hc] at h
        cases h
      · rw [hc] at h
        cases h
        exact congrArg (· + 1) (ih _ _ rfl)

/-! ## Units -/

/-- The stack effect of a unit as the machine runs it. A send takes its signal off if its address
says so. -/
def effect (u : RunningUnit) : StackEffect :=
  match u.kind with
  | .send => ⟨u.channels, if u.address.pops then 0 else u.channels⟩
  | kind => kind.playedEffect u.stereo

/-- A machine asks for as many signals as the unit takes. -/
theorem effect_inputs (u : RunningUnit) :
    u.effect.inputs = Program.stackNeed u.kind u.stereo := by
  unfold effect Program.stackNeed channels
  cases u.kind <;> cases u.stereo <;> rfl

/-- A run takes the inputs of an effect off the stack and puts its outputs in their place. -/
def Plays (x : Exec Unit) (e : StackEffect) : Prop :=
  ∀ s : Moment, e.inputs ≤ s.stack.length →
    Ends x s (fun _ s' => ∃ given : Stack, given.length = e.outputs ∧
      s'.stack = given ++ s.stack.drop e.inputs) (fun _ _ => True)

namespace Plays

theorem onStack {f : Stack → Stack} {e : StackEffect} (h : Stack.Replaces f e) :
    Plays (onStack f) e := fun _ enough => h.apply enough

theorem onSlot (u : RunningUnit) {f : Slot → Stack → Slot × Stack} {e : StackEffect}
    (h : ∀ slot, Stack.Replaces (fun stack => (f slot stack).2) e) : Plays (u.onSlot f) e :=
  fun _ enough => (h _).apply enough

theorem consume (n : Nat) (f : Stack → Machine → Machine) : Plays (consume n f) ⟨n, 0⟩ :=
  fun _ _ => ⟨[], rfl, rfl⟩

/-- What a unit looks up before it plays may fail, but changes nothing. -/
theorem after {α : Type} {x : Exec α} {next : α → Exec Unit} {e : StackEffect}
    (look : ∀ s, Ends x s (fun _ s' => s' = s) (fun _ _ => True)) (h : ∀ a, Plays (next a) e) :
    Plays (x >>= next) e := by
  intro s enough
  rw [Ends.bind_iff]
  refine (look s).mono (fun a s' same => ?_) (fun _ _ h => h)
  subst same
  exact h a s' enough

end Plays

theorem noise_stack (u : RunningUnit) (n : Nat) (s : Moment) :
    ∃ given : Stack, given.length = n ∧ (u.noise n s).stack = given ++ s.stack := by
  induction n generalizing s with
  | zero => exact ⟨[], rfl, rfl⟩
  | succ n ih =>
    obtain ⟨given, length, same⟩ := ih { s with
      machine := s.machine.random.2
      stack := Signal.bend s.machine.random.1 (u.param 0) * u.param 1 :: s.stack }
    refine ⟨given ++ [Signal.bend s.machine.random.1 (u.param 0) * u.param 1], ?_, ?_⟩
    · rw [List.length_append, length, List.length_singleton]
    · rw [List.append_assoc]
      exact same

theorem busChannel_same (u : RunningUnit) (s : Moment) :
    Ends u.busChannel s (fun _ s' => s' = s) (fun _ _ => True) := by
  unfold busChannel
  simp only
  split
  · trivial
  · rfl

theorem compressor_replaces (u : RunningUnit) (slot : Slot) :
    Stack.Replaces (fun stack => (u.compressor slot stack).2)
      (UnitKind.compressor.stackEffect u.stereo) := by
  intro taken below h
  refine ⟨List.replicate u.channels _ ++ taken, ?_, (List.append_assoc _ _ _).symm⟩
  rw [List.length_append, List.length_replicate, h, channels]
  cases u.stereo <;> rfl

theorem envelope_replaces (u : RunningUnit) (slot : Slot) :
    Stack.Replaces (fun stack => (u.envelope slot stack).2)
      (UnitKind.envelope.stackEffect u.stereo) := by
  intro taken below h
  obtain rfl : taken = [] := by
    cases hs : u.stereo <;> rw [hs] at h <;> exact List.length_eq_zero_iff.mp h
  refine ⟨List.replicate u.channels _, ?_, rfl⟩
  rw [List.length_replicate, channels]
  cases u.stereo <;> rfl

theorem receive_replaces (u : RunningUnit) (slot : Slot) :
    Stack.Replaces (fun stack => (u.receive slot stack).2)
      (UnitKind.receive.stackEffect u.stereo) := by
  intro taken below h
  unfold receive
  cases hs : u.stereo <;> rw [hs] at h <;>
    obtain rfl : taken = [] := List.length_eq_zero_iff.mp h
  · exact ⟨[slot.port 0], rfl, rfl⟩
  · exact ⟨[slot.port 0, slot.port 1], rfl, rfl⟩

theorem send_plays (u : RunningUnit) :
    Plays u.send ⟨u.channels, if u.address.pops then 0 else u.channels⟩ := by
  intro s enough
  unfold send
  simp only
  rw [show (u.extra 0).toUInt16 ||| (u.extra 1).toUInt16 <<< 8 = u.address from rfl]
  split
  · trivial
  · simp only [Ends.modify_iff]
    cases u.address.pops
    · exact ⟨s.stack.take u.channels, List.length_take_of_le enough,
        (List.take_append_drop _ _).symm⟩
    · exact ⟨[], rfl, rfl⟩

theorem speed_plays (u : RunningUnit) : Plays u.speed ⟨1, 0⟩ := by
  intro s enough
  unfold speed
  rw [Ends.modify_iff]
  cases hs : s.stack with
  | nil =>
    rw [hs] at enough
    cases enough
  | cons x stack => exact ⟨[], rfl, rfl⟩

theorem runOscillator_plays (u : RunningUnit) (p : Program) :
    Plays (u.runOscillator p) ⟨0, u.channels⟩ := by
  intro s _
  unfold runOscillator
  simp only
  split
  · simp only [Ends.bind_iff, Ends.throw_iff]
    trivial
  · exact Oscillator.channels_outputs _ _ _ _ _ _ _

theorem runDelay_plays (u : RunningUnit) (p : Program) :
    Plays (u.runDelay p) ⟨u.channels, u.channels⟩ := by
  intro s enough
  have length := delayChannels_length (u.delay p s.machine) (((u.extra 1).toNat + 1) / 2)
    ⟨(u.extra 0).toNat, s.line⟩ s.machine.lines (s.stack.take u.channels)
  unfold Ends runDelay EStateM.run
  simp only
  rcases h : delayChannels (u.delay p s.machine) (((u.extra 1).toNat + 1) / 2)
    ⟨(u.extra 0).toNat, s.line⟩ s.machine.lines (s.stack.take u.channels) with
    ⟨lines', e | ⟨place', ys⟩⟩
  · trivial
  · rw [h] at length
    exact ⟨ys, (length _ _ rfl).trans (List.length_take_of_le enough), rfl⟩

/-- Every kind of unit changes the stack as its effect says. -/
theorem run_plays (u : RunningUnit) (p : Program) : Plays (u.run p) u.effect := by
  -- A kind has its effect written once for a channel, so the effect of each kind only
  -- computes when it is known whether the unit is in stereo.
  have number : u.channels = if u.stereo then 2 else 1 := rfl
  cases hk : u.kind <;> cases hs : u.stereo <;> simp only [hs] at number <;>
    simp only [run, effect, UnitKind.playedEffect, hk, hs, number]
  case add.false | add.true | mul.false | mul.true => exact .onStack (Stack.combine_replaces _ _)
  case addp.false | addp.true | mulp.false | mulp.true =>
    exact .onStack (Stack.combinePop_replaces _ _)
  case xch.false | xch.true => exact .onStack (Stack.exchange_replaces _)
  case push.false | push.true => exact .onStack (Stack.duplicate_replaces _)
  case pop.false | pop.true => exact .onStack (Stack.drop_replaces _)
  case pan.false | pan.true => exact .onStack (Stack.pan_replaces _ _)
  case loadval.false | loadval.true | loadnote.false | loadnote.true =>
    exact .onStack (Stack.pushAll_replaces _ _)
  case distort.false | distort.true | gain.false | gain.true | invgain.false | invgain.true
    | dbgain.false | dbgain.true | clip.false | clip.true | crush.false | crush.true =>
    exact .onStack (Stack.mapTop_replaces _ _)
  case out.false | out.true | outaux.false | outaux.true => exact .consume _ _
  case aux.false | aux.true => exact .after u.busChannel_same fun _ => .consume _ _
  case input.false =>
    exact .after u.busChannel_same fun channel s _ => ⟨[s.machine.channel channel], rfl, rfl⟩
  case input.true =>
    exact .after u.busChannel_same fun channel s _ => ⟨[_, s.machine.channel (channel + 1)], rfl, rfl⟩
  case noise.false | noise.true => exact fun s _ => u.noise_stack _ s
  case envelope.false | envelope.true =>
    exact .onSlot _ fun slot => hs ▸ u.envelope_replaces slot
  case compressor.false | compressor.true =>
    exact .onSlot _ fun slot => hs ▸ u.compressor_replaces slot
  case receive.false | receive.true => exact .onSlot _ fun slot => hs ▸ u.receive_replaces slot
  case hold.false | hold.true | filter.false | filter.true =>
    exact .onSlot _ fun slot => eachChannel_replaces _ slot _ _
  case speed.false | speed.true => exact u.speed_plays
  case sync.false | sync.true => exact fun s _ => ⟨[], rfl, rfl⟩
  case send.false | send.true => exact number ▸ u.send_plays
  case oscillator.false | oscillator.true =>
    have plays := u.runOscillator_plays p
    rw [number] at plays
    exact plays
  case delay.false | delay.true =>
    have plays := u.runDelay_plays p
    rw [number] at plays
    exact plays

end RunningUnit

/-! ## Code -/

/-- The faults of a stack: one that is too short for a unit, or too long at the end. -/
def RenderFault.OfStack : RenderFault → Prop
  | .stackUnderflow | .stackNotEmpty _ => True
  | _ => False

/-- So many signals stand on top of a stack that stays as it is. -/
def Moment.Above (s : Moment) (base : Stack) (depth : Nat) : Prop :=
  ∃ top : Stack, top.length = depth ∧ s.stack = top ++ base

namespace Moment.Above

variable {s s' : Moment} {base given : Stack} {depth taken : Nat}

theorem depth_le (h : s.Above base depth) : depth ≤ s.stack.length := by
  obtain ⟨top, rfl, stack⟩ := h
  rw [stack, List.length_append]
  omega

/-- Signals on top are taken, and others put there. -/
theorem replace (h : s.Above base depth) (enough : taken ≤ depth)
    (stack : s'.stack = given ++ s.stack.drop taken) :
    s'.Above base (depth - taken + given.length) := by
  obtain ⟨top, rfl, before⟩ := h
  refine ⟨given ++ top.drop taken, ?_, ?_⟩
  · rw [List.length_append, List.length_drop, Nat.add_comm]
  · rw [stack, before, List.drop_append_of_le_length enough, List.append_assoc]

end Moment.Above

/-- The stack effect of a compiled unit. It does not depend on when the unit runs. -/
def CompiledUnit.effect (c : CompiledUnit) : StackEffect :=
  match c.kind? with
  | some kind => (c.running kind default 0 0).effect
  | none => .none

/-- The stack effects of a block, unit by unit. -/
def CodeBlock.effects (block : CodeBlock) : List StackEffect :=
  block.map (·.effect)

theorem CompiledUnit.effect_eq {c : CompiledUnit} {kind : UnitKind} (h : c.kind? = some kind)
    (s : Moment) (voice slot : Nat) : c.effect = (c.running kind s voice slot).effect := by
  rw [effect, h]
  rfl

/-- No unit fails for want of signals once it runs. -/
theorem RunningUnit.CanFail.not_ofStack {u : RunningUnit} {p : Program} {e : RenderFault}
    (h : u.CanFail p e) : ¬ e.OfStack := by
  cases e <;> first | exact id | exact h.elim

namespace Program

/-- A framed unit that finds its signals on a stack leaves what stands below them. -/
theorem runUnit_above (p : Program) {c : CompiledUnit} (framed : c.Framed) {slot : Nat}
    (hs : slot < maxUnits) (voice : Nat) {s : Moment} {more : List UInt8}
    (ho : s.operands = c.operands ++ more) {base : Stack} {depth : Nat}
    (above : s.Above base depth) (enough : c.effect.inputs ≤ depth) :
    Ends (p.runUnit voice slot c.opcode) s
      (fun _ s' => s'.operands = more ∧
        s'.Above base (depth - c.effect.inputs + c.effect.outputs))
      (fun e _ => ¬ e.OfStack) := by
  obtain ⟨kind, hk, hl⟩ := framed
  rw [c.effect_eq hk s voice slot] at enough ⊢
  have deep := above.depth_le
  have need : ¬ s.stack.length < stackNeed kind c.stereo := by
    have : (c.running kind s voice slot).effect.inputs = stackNeed kind c.stereo :=
      (c.running kind s voice slot).effect_inputs
    omega
  unfold Ends
  rw [p.runUnit_framed hk hl hs voice ho, if_neg need]
  change Ends _ _ _ _
  rw [Ends.bind_iff]
  have steady := (c.running kind s voice slot).run_ends p
    { s.ready kind voice slot more with scratch := (c.running kind s voice slot).params }
  have plays := (c.running kind s voice slot).run_plays p
    { s.ready kind voice slot more with scratch := (c.running kind s voice slot).params }
    (show _ ≤ s.stack.length by omega)
  refine (steady.and plays).mono (fun _ s' h => ?_) (fun e _ h => h.1.2.not_ofStack)
  obtain ⟨steady, given, outputs, stack'⟩ := h
  refine (p.trapTop_ends kind s').mono ?_ ?_
  · rintro _ _ rfl
    rw [← outputs]
    exact ⟨steady.operands, above.replace enough stack'⟩
  · rintro e _ ⟨rfl, -⟩
    exact id

/-- A framed block whose effects lack no signals runs without a fault of the stack, and leaves
as many signals as its effects say. -/
theorem runOpcodes_above (p : Program) {block : CodeBlock} (framed : block.Framed)
    (voice slot : Nat) (hs : slot + block.length ≤ maxUnits) {s : Moment} {more : List UInt8}
    (ho : s.operands = block.operands ++ more) {base : Stack} {depth left : Nat}
    (above : s.Above base depth)
    (runs : StackEffect.depthAfter block.effects depth = some left) :
    Ends (p.runOpcodes voice slot block.opcodes) s (fun _ s' => s'.Above base left)
      (fun e _ => ¬ e.OfStack) := by
  induction block generalizing slot s depth with
  | nil =>
    cases runs
    exact above
  | cons c block ih =>
    rw [CodeBlock.opcodes_cons, runOpcodes, Ends.bind_iff]
    rw [CodeBlock.operands_cons, List.append_assoc] at ho
    rw [List.length_cons] at hs
    rw [CodeBlock.effects, List.map_cons, StackEffect.depthAfter] at runs
    split at runs
    · rename_i enough
      refine (p.runUnit_above (framed c List.mem_cons_self) (by omega) voice ho above enough).mono
        (fun _ s' h => ?_) (fun _ _ h => h)
      exact ih (fun c' h' => framed c' (List.mem_cons_of_mem _ h')) (slot + 1) (by omega) h.1 h.2
        runs
    · cases runs

end Program

end ModularSynth
