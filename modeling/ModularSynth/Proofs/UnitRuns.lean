-- What a single unit can do when it runs. Whatever kind of unit it is, it takes no operands
-- beyond its own and plays no notes; and only a few kinds can fail, each in its own way.
import ModularSynth.Proofs.Ends
import ModularSynth.Proofs.MachineState

namespace ModularSynth

open Signal

/-- What no unit changes: the operands to come and the notes of the voices. -/
structure Moment.Steady (s s' : Moment) : Prop where
  operands : s'.operands = s.operands
  notes : s.machine.SameNotes s'.machine

theorem Moment.Steady.refl (s : Moment) : s.Steady s := ⟨rfl, .refl _⟩

theorem Moment.Steady.trans {a b c : Moment} (h : a.Steady b) (h' : b.Steady c) : a.Steady c :=
  ⟨h'.operands.trans h.operands, h.notes.trans h'.notes⟩

theorem Moment.Steady.of_voices {s s' : Moment} (ho : s'.operands = s.operands)
    (hv : s'.machine.voices = s.machine.voices) : s.Steady s' :=
  ⟨ho, .of_voices hv⟩

theorem Moment.Steady.of_slot {s s' : Moment} {v q : Nat} {f : Slot → Slot}
    (ho : s'.operands = s.operands)
    (hv : s'.machine.voices = (s.machine.adjustSlot v q f).voices) : s.Steady s' :=
  ⟨ho, .trans (.adjustSlot _ v q f) (.of_voices hv)⟩

namespace RunningUnit

/-! ## The faults of each kind -/

/-- The address that a send names. -/
def address (u : RunningUnit) : SendAddress :=
  (u.extra 0).toUInt16 ||| (u.extra 1).toUInt16 <<< 8

/-- The number of delay lines of a delay on each channel. -/
def lineCount (u : RunningUnit) : Nat :=
  ((u.extra 1).toNat + 1) / 2

/-- The faults that a unit can run into, given its operands. -/
def CanFail (u : RunningUnit) (p : Program) : RenderFault → Prop
  | .invalidChannel channel =>
    (u.kind = .aux ∨ u.kind = .input) ∧ channel = (u.extra 0).toNat ∧ 8 < channel + u.channels
  | .invalidSendTarget address =>
    u.kind = .send ∧ address = u.address ∧
      (u.address.place = 0 ∨ maxVoices ≤ u.address.voice?.getD u.voice)
  | .invalidSample number =>
    u.kind = .oscillator ∧ Oscillator.isRecording (u.extra 0) ∧ number = (u.byte 3).toNat ∧
      p.bytecode.sampleOffsets.size ≤ number
  | .invalidDelayTime index =>
    u.kind = .delay ∧ p.bytecode.delayTimes.size ≤ index ∧
      index < (u.extra 0).toNat + u.channels * u.lineCount
  | .delayLinesExhausted => u.kind = .delay
  | _ => False

/-! ## Parts of units -/

theorem mixTop_voices (u : RunningUnit) (channel : Nat) (gain : Signal) (stack : Stack)
    (m : Machine) : (u.mixTop channel gain stack m).voices = m.voices := by
  unfold mixTop
  split <;> rfl

theorem noise_steady (u : RunningUnit) (n : Nat) (s : Moment) : s.Steady (u.noise n s) := by
  induction n generalizing s with
  | zero => exact .refl s
  | succ n ih =>
    have drawn : s.Steady { s with
        machine := s.machine.random.2
        stack := bend s.machine.random.1 (u.param 0) * u.param 1 :: s.stack } :=
      .of_voices rfl rfl
    exact drawn.trans (ih _)

theorem onSlot_steady (u : RunningUnit) (f : Slot → Stack → Slot × Stack) (s : Moment)
    (failed : RenderFault → Moment → Prop) :
    Ends (u.onSlot f) s (fun _ s' => s.Steady s') failed :=
  .of_slot rfl rfl

theorem busChannel_ends (u : RunningUnit) (p : Program) (s : Moment)
    (hk : u.kind = .aux ∨ u.kind = .input) :
    Ends u.busChannel s (fun _ s' => s' = s) (fun e s' => s' = s ∧ u.CanFail p e) := by
  unfold busChannel
  by_cases h : (u.extra 0).toNat + u.channels > 8
  · simp only [h, if_true, Ends.throw_iff]
    exact ⟨trivial, hk, rfl, h⟩
  · simp only [h, if_false, Ends.pure_iff]

end RunningUnit

/-! ## Delays -/

namespace Delay

/-- So many delay times have been read from a place on, or one of them is missing. -/
def Read {α : Type} (d : Delay) (start count : Nat) : Except RenderFault (Cursor × α) → Prop
  | .ok (place, _) => place.time = start + count
  | .error e =>
    e = .delayLinesExhausted ∨
      ∃ i, e = .invalidDelayTime i ∧ d.times.size ≤ i ∧ i < start + count

theorem Read.error_mono {α β : Type} {d : Delay} {start count start' count' : Nat}
    {e : RenderFault} (h : d.Read (α := α) start count (.error e))
    (hle : start + count ≤ start' + count') :
    d.Read (α := β) start' count' (.error e) :=
  h.imp id fun ⟨i, hi, hs, hb⟩ => ⟨i, hi, hs, Nat.lt_of_lt_of_le hb hle⟩

/-- A channel of a delay reads as many delay times in turn as it has lines. -/
theorem runLines_read (d : Delay) (signal : Signal) (count : Nat) (place : Cursor)
    (output : Signal) (lines : Array DelayLine) :
    d.Read place.time count (d.runLines signal count place output lines).2 := by
  induction count generalizing place output lines with
  | zero => simp [runLines, Read]
  | succ count ih =>
    unfold runLines
    cases hl : lines[place.line]? with
    | none => exact .inl rfl
    | some line =>
      cases ht : d.times[place.time]? with
      | none => exact .inr ⟨place.time, rfl, by simpa using ht, by omega⟩
      | some time =>
        have step := ih ⟨place.time + 1, place.line + 1⟩ (output + d.read line time)
          (lines.modify place.line (d.write signal (d.read line time)))
        simp only at step ⊢
        rcases h : (d.runLines signal count ⟨place.time + 1, place.line + 1⟩
          (output + d.read line time)
          (lines.modify place.line (d.write signal (d.read line time)))).2 with e | ⟨place', y⟩
        · rw [h] at step
          exact step.error_mono (by omega)
        · rw [h] at step
          simp only [Read] at step ⊢
          omega

theorem runChannel_read (d : Delay) (count : Nat) (place : Cursor) (signal : Signal)
    (lines : Array DelayLine) :
    d.Read place.time count (d.runChannel count place signal lines).2 := by
  have step := d.runLines_read signal count place (d.dry * signal) lines
  unfold runChannel
  rcases h : d.runLines signal count place (d.dry * signal) lines with ⟨lines', e | ⟨place', y⟩⟩
  · rw [h] at step
    exact step
  · rw [h] at step
    by_cases hc : count = 0
    · simp [hc, Read]
    · cases hl : lines'[place'.line - 1]? with
      | none => simp [hc, hl, Read]
      | some last => simpa [hc, hl, Read] using step

end Delay

namespace RunningUnit

theorem delayChannels_read (d : Delay) (count : Nat) (place : Delay.Cursor)
    (lines : Array DelayLine) (xs : List Signal) :
    d.Read place.time (xs.length * count) (delayChannels d count place lines xs).2 := by
  induction xs with
  | nil => simp [delayChannels, Delay.Read]
  | cons x rest ih =>
    unfold delayChannels
    rw [List.length_cons, Nat.succ_mul]
    rcases h : delayChannels d count place lines rest with ⟨lines', e | ⟨place', ys⟩⟩
    · rw [h] at ih
      exact ih.error_mono (by omega)
    · rw [h] at ih
      have step := d.runChannel_read count place' x lines'
      simp only [Delay.Read] at ih
      rw [ih] at step
      simp only
      rcases hc : d.runChannel count place' x lines' with ⟨lines'', e | ⟨place'', y⟩⟩
      · rw [hc] at step
        exact step.error_mono (by omega)
      · rw [hc] at step
        simp only [Delay.Read] at step ⊢
        omega

theorem runDelay_ends (u : RunningUnit) (p : Program) (s : Moment) (hk : u.kind = .delay) :
    Ends (u.runDelay p) s (fun _ s' => s.Steady s') (fun e s' => s.Steady s' ∧ u.CanFail p e) := by
  have place := delayChannels_read (u.delay p s.machine) u.lineCount ⟨(u.extra 0).toNat, s.line⟩
    s.machine.lines (s.stack.take u.channels)
  have few : (s.stack.take u.channels).length ≤ u.channels := List.length_take_le _ _
  unfold Ends runDelay EStateM.run
  simp only
  rw [show ((u.extra 1).toNat + 1) / 2 = u.lineCount from rfl]
  rcases h : delayChannels (u.delay p s.machine) u.lineCount ⟨(u.extra 0).toNat, s.line⟩
    s.machine.lines (s.stack.take u.channels) with ⟨lines', e | ⟨place', ys⟩⟩
  · rw [h] at place
    refine ⟨.of_voices rfl rfl, ?_⟩
    rcases place with rfl | ⟨i, rfl, hs, hb⟩
    · exact hk
    · refine ⟨hk, hs, Nat.lt_of_lt_of_le hb ?_⟩
      exact Nat.add_le_add_left (Nat.mul_le_mul_right _ few) _
  · exact .trans (.of_voices rfl rfl) (.of_slot rfl rfl)

/-! ## Sends and oscillators -/

theorem send_ends (u : RunningUnit) (p : Program) (s : Moment) (hk : u.kind = .send) :
    Ends u.send s (fun _ s' => s.Steady s') (fun e s' => s.Steady s' ∧ u.CanFail p e) := by
  unfold send
  simp only
  rw [show (u.extra 0).toUInt16 ||| (u.extra 1).toUInt16 <<< 8 = u.address from rfl]
  split
  · rename_i h
    exact ⟨.refl s, hk, rfl, h⟩
  · exact .of_slot rfl rfl

theorem runOscillator_ends (u : RunningUnit) (p : Program) (s : Moment)
    (hk : u.kind = .oscillator) :
    Ends (u.runOscillator p) s (fun _ s' => s.Steady s')
      (fun e s' => s.Steady s' ∧ u.CanFail p e) := by
  unfold runOscillator
  simp only
  split
  · rename_i hr hn
    simp only [Ends.bind_iff]
    refine Ends.mono (u.onSlot_steady _ s fun _ _ => False) (fun _ s' hs => ?_) (by simp)
    exact ⟨hs, hk, hr, rfl, by simpa using hn⟩
  · exact .of_slot rfl rfl

/-! ## All units -/

/-- Whatever a unit does, the operands to come and the notes stay as they are, and if it
fails, then in a way of its kind. -/
theorem run_ends (u : RunningUnit) (p : Program) (s : Moment) :
    Ends (u.run p) s (fun _ s' => s.Steady s') (fun e s' => s.Steady s' ∧ u.CanFail p e) := by
  cases hk : u.kind <;> simp only [run, hk]
  case noise => exact u.noise_steady _ s
  case speed =>
    simp only [speed, Ends.modify_iff]
    split
    · exact .refl s
    · exact .of_slot rfl rfl
  case send => exact u.send_ends p s hk
  case delay => exact u.runDelay_ends p s hk
  case oscillator => exact u.runOscillator_ends p s hk
  case aux =>
    simp only [Ends.bind_iff]
    refine Ends.mono (u.busChannel_ends p s (.inl hk)) (fun channel s' hs => ?_) ?_
    · subst hs
      exact .of_voices rfl (u.mixTop_voices _ _ _ _)
    · rintro e s' ⟨rfl, he⟩
      exact ⟨.refl _, he⟩
  case input =>
    simp only [Ends.bind_iff]
    refine Ends.mono (u.busChannel_ends p s (.inr hk)) (fun channel s' hs => ?_) ?_
    · subst hs
      split
      · exact .of_voices rfl rfl
      · exact .of_voices rfl rfl
    · rintro e s' ⟨rfl, he⟩
      exact ⟨.refl _, he⟩
  case out => exact .of_voices rfl (u.mixTop_voices _ _ _ _)
  case outaux => exact .of_voices rfl ((u.mixTop_voices _ _ _ _).trans (u.mixTop_voices _ _ _ _))
  case sync => exact .refl s
  case envelope | compressor | receive | hold | filter => exact u.onSlot_steady _ s _
  all_goals exact .of_voices rfl rfl

end RunningUnit

/-! ## Opcodes -/

namespace Program

theorem splitExactly_length {α : Type} {n : Nat} {xs taken rest : List α}
    (h : splitExactly n xs = some (taken, rest)) : taken.length = n := by
  induction n generalizing xs taken with
  | zero =>
    cases h
    rfl
  | succ n ih =>
    cases xs with
    | nil => cases h
    | cons x xs =>
      rw [splitExactly] at h
      obtain ⟨⟨taken', rest'⟩, found, same⟩ := Option.map_eq_some_iff.mp h
      cases same
      exact congrArg (· + 1) (ih found)

/-- Taking operands leaves the stack as it is, and gives as many as asked for. -/
theorem takeOperands_ends (count : Nat) (s : Moment) :
    Ends (takeOperands count) s (fun taken t => taken.length = count ∧ t.stack = s.stack)
      (fun _ _ => True) := by
  unfold takeOperands
  simp only [Ends.bind_iff, Ends.get_iff]
  split
  · trivial
  · rename_i taken rest found
    exact ⟨splitExactly_length found, rfl⟩

theorem takeOperands_length (count : Nat) (s : Moment) :
    Ends (takeOperands count) s (fun taken _ => taken.length = count) (fun _ _ => True) :=
  (takeOperands_ends count s).mono (fun _ _ taken => taken.1) fun _ _ _ => trivial

/-- Make the unit of an opcode byte ready to run: take its operands, and empty the ports that
modulate it. -/
def prepare (voice slot : Nat) (op : UInt8) : Exec RunningUnit := do
  match UnitKind.ofOpcode? (op >>> 1).toNat with
  | none => throw (.invalidOpcode op)
  | some kind =>
    let stereo := op % 2 == 1
    if maxUnits ≤ slot then throw .tooManyUnits
    if (← get).stack.length < stackNeed kind stereo then throw .stackUnderflow
    let leading ← takeOperands kind.operandCount
    let s ← get
    let v := s.machine.voice voice
    let params := params (v.slot slot) leading ++ s.scratch.drop kind.operandCount
    modify fun s =>
      { s with
        machine := s.machine.adjustSlot voice slot (·.clearPorts kind.operandCount)
        scratch := params }
    let extras ← takeOperands kind.extraOperandCount
    return { kind, stereo, voice, slot, note := v.note, held := v.sustain, leading, params, extras }

/-- Run a unit that is ready, and check the signal that it leaves on top of the stack. -/
def perform (p : Program) (u : RunningUnit) : Exec Unit := do
  u.run p
  p.trapTop u.kind

/-- An opcode makes its unit ready and runs it. -/
theorem runUnit_eq (p : Program) (voice slot : Nat) (op : UInt8) :
    p.runUnit voice slot op = (prepare voice slot op >>= p.perform) := by
  unfold runUnit prepare
  cases UnitKind.ofOpcode? (op >>> 1).toNat with
  | none => rfl
  | some kind =>
    by_cases many : maxUnits ≤ slot
    · simp only [many, if_true]
      rfl
    · simp only [many, if_false, bind_assoc]
      congr 1
      funext s
      by_cases underflow : s.stack.length < stackNeed kind (op % 2 == 1)
      · simp only [underflow, if_true]
        rfl
      · simp only [underflow, if_false, bind_assoc, pure_bind]
        rfl

end Program

end ModularSynth
