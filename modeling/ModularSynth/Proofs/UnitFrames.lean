-- What a unit leaves alone when it runs, and when it fails. Only a speed unit moves the time, only
-- the units on the bus change it, and no unit changes what other units remember: a send adds to
-- the ports of a unit, but what that unit remembers is its own.
import ModularSynth.Proofs.FrameRuns
import ModularSynth.Proofs.UnitRuns

namespace ModularSynth

/-- Does a kind of unit put signals on the bus or take them off? -/
def UnitKind.onBus : UnitKind → Bool
  | .out | .outaux | .aux | .input => true
  | _ => false

/-! ## What units remember -/

namespace Slot

theorem cells_clearPorts (s : Slot) (count : Nat) : (s.clearPorts count).cells = s.cells := by
  induction count with
  | zero => rfl
  | succ count ih => exact ih

theorem cells_deposit (amount : Signal) (channels port : Nat) (stack : Stack) (s : Slot) :
    (RunningUnit.deposit amount channels port stack s).cells = s.cells := by
  induction channels generalizing port stack s with
  | zero => rfl
  | succ channels ih =>
    cases stack with
    | nil => rfl
    | cons x stack => exact ih (port + 1) stack _

end Slot

namespace Machine

theorem slot_of_voices {m m' : Machine} (h : m'.voices = m.voices) (v q : Nat) :
    m'.slot v q = m.slot v q := by
  unfold slot voice
  rw [h]

/-- A change that keeps what a unit remembers keeps what all units remember. -/
theorem cells_adjustSlot (m : Machine) (v s : Nat) {f : Slot → Slot}
    (keeps : ∀ slot, (f slot).cells = slot.cells) (w q : Nat) :
    ((m.adjustSlot v s f).slot w q).cells = (m.slot w q).cells := by
  rw [slot_adjustSlot]
  split
  · exact keeps _
  · rfl

end Machine

/-- Units in other places than one remember what they did. -/
def OtherCells (voice slot : Nat) (s s' : Moment) : Prop :=
  ∀ w q, ¬ (w = voice ∧ q = slot) → (s'.machine.slot w q).cells = (s.machine.slot w q).cells

theorem OtherCells.lasting (voice slot : Nat) : Lasting (OtherCells voice slot) where
  refl _ _ _ _ := rfl
  trans first later w q other := (later w q other).trans (first w q other)
  operands _ _ _ _ _ := rfl
  ready s v t count _ w q _ :=
    s.machine.cells_adjustSlot v t (fun s => s.cells_clearPorts count) w q

/-! ## Units -/

/-- What a unit of a kind leaves alone, when it runs in a slot of a voice. -/
structure Leaves (kind : UnitKind) (voice slot : Nat) (s s' : Moment) : Prop where
  time : kind ≠ .speed → s'.time = s.time
  bus : kind.onBus = false → s'.machine.bus = s.machine.bus
  cells : OtherCells voice slot s s'

namespace Leaves

variable {kind : UnitKind} {voice slot : Nat} {s s' : Moment}

/-- Apart from the time and the bus, only parts that are no voices have changed. -/
theorem of_voices (time : s'.time = s.time)
    (bus : kind.onBus = false → s'.machine.bus = s.machine.bus)
    (voices : s'.machine.voices = s.machine.voices) : Leaves kind voice slot s s' where
  time _ := time
  bus := bus
  cells w q _ := by rw [Machine.slot_of_voices voices]

/-- Of the voices, only the unit's own slot has changed. -/
theorem of_slot {f : Slot → Slot} (time : kind ≠ .speed → s'.time = s.time)
    (bus : s'.machine.bus = s.machine.bus)
    (voices : s'.machine.voices = (s.machine.adjustSlot voice slot f).voices) :
    Leaves kind voice slot s s' where
  time := time
  bus _ := bus
  cells w q other := by
    rw [Machine.slot_of_voices voices, Machine.slot_adjustSlot, if_neg]
    rintro ⟨rfl, rfl, -⟩
    exact other ⟨rfl, rfl⟩

theorem lasting (kind : UnitKind) (voice slot : Nat) : Lasting (Leaves kind voice slot) where
  refl s := .of_voices rfl (fun _ => rfl) rfl
  trans {a b c} first later := by
    refine ⟨?_, ?_, ?_⟩
    · intro slow
      exact (later.time slow).trans (first.time slow)
    · intro off
      exact (later.bus off).trans (first.bus off)
    · exact (OtherCells.lasting voice slot).trans first.cells later.cells
  operands s _ := .of_voices rfl (fun _ => rfl) rfl
  ready s v t count scratch := ⟨fun _ => rfl, fun _ => rfl,
    (OtherCells.lasting voice slot).ready s v t count scratch⟩

end Leaves

namespace RunningUnit

variable (u : RunningUnit)

theorem noise_leaves (n : Nat) (s : Moment) :
    Leaves u.kind u.voice u.slot s (u.noise n s) := by
  induction n generalizing s with
  | zero => exact (Leaves.lasting ..).refl s
  | succ n ih =>
    unfold noise
    apply (Leaves.lasting ..).trans _ (ih _)
    exact .of_voices rfl (fun _ => rfl) rfl

theorem busChannel_preserves {R : Moment → Moment → Prop} (h : Lasting R) :
    Preserves R u.busChannel := by
  unfold busChannel
  apply Preserves.ite
  · exact .throw h _
  · exact .pure h _

theorem send_leaves : Preserves (Leaves u.kind u.voice u.slot) u.send := by
  unfold send
  apply Preserves.ite
  · exact .throw (Leaves.lasting ..) _
  · apply Preserves.modify
    intro s
    refine ⟨fun _ => rfl, fun _ => rfl, ?_⟩
    intro voice slot _
    apply s.machine.cells_adjustSlot
    intro target
    exact Slot.cells_deposit _ _ _ _ target

theorem speed_leaves (hk : u.kind = .speed) : Preserves (Leaves u.kind u.voice u.slot) u.speed := by
  unfold speed
  apply Preserves.modify
  intro s
  split
  · exact (Leaves.lasting ..).refl s
  · exact .of_slot (fun slow => absurd hk slow) rfl rfl

theorem runOscillator_leaves (p : Program) :
    Preserves (Leaves u.kind u.voice u.slot) (u.runOscillator p) := by
  unfold runOscillator
  simp only
  split
  · apply Preserves.bind (Leaves.lasting ..)
    · exact .modify fun s => .of_slot (fun _ => rfl) rfl rfl
    · intro _
      exact .throw (Leaves.lasting ..) _
  · exact .modify fun s => .of_slot (fun _ => rfl) rfl rfl

theorem runDelay_leaves (p : Program) :
    Preserves (Leaves u.kind u.voice u.slot) (u.runDelay p) := by
  rintro ⟨⟨bus, seed, clock, voices, lines⟩, stack, operands, line, time, scratch⟩
  unfold Ends runDelay EStateM.run
  simp only
  rcases delayChannels (u.delay p ⟨bus, seed, clock, voices, lines⟩)
    (((u.extra 1).toNat + 1) / 2) ⟨(u.extra 0).toNat, line⟩ lines (stack.take u.channels) with
    ⟨lines', e | ⟨place, ys⟩⟩
  · exact .of_voices rfl (fun _ => rfl) rfl
  · exact .of_slot (fun _ => rfl) rfl rfl

/-- Every unit leaves alone what is not its own. -/
theorem run_leaves (p : Program) : Preserves (Leaves u.kind u.voice u.slot) (u.run p) := by
  have lasting := Leaves.lasting u.kind u.voice u.slot
  have onBus : u.kind.onBus = true → ∀ {s s' : Moment}, s'.time = s.time →
      s'.machine.voices = s.machine.voices → Leaves u.kind u.voice u.slot s s' := by
    intro on s s' time voices
    exact .of_voices time (fun off => by rw [on] at off; cases off) voices
  unfold run
  cases hk : u.kind <;> simp only [hk] at lasting onBus ⊢
  case speed => exact hk ▸ u.speed_leaves hk
  case sync => exact .pure lasting _
  case noise => exact .modify fun s => hk ▸ u.noise_leaves _ s
  case out => exact .modify fun s => onBus rfl rfl (u.mixTop_voices _ _ _ _)
  case outaux =>
    apply Preserves.modify
    intro s
    exact onBus rfl rfl ((u.mixTop_voices _ _ _ _).trans (u.mixTop_voices _ _ _ _))
  case aux =>
    apply Preserves.bind lasting (u.busChannel_preserves lasting)
    intro channel
    exact .modify fun s => onBus rfl rfl (u.mixTop_voices _ _ _ _)
  case input =>
    apply Preserves.bind lasting (u.busChannel_preserves lasting)
    intro channel
    apply Preserves.ite
    · apply Preserves.bind lasting
      · exact .modify fun s => onBus rfl rfl rfl
      · intro _
        exact .modify fun s => onBus rfl rfl rfl
    · exact .modify fun s => onBus rfl rfl rfl
  case send => exact hk ▸ u.send_leaves
  case oscillator => exact hk ▸ u.runOscillator_leaves p
  case delay => exact hk ▸ u.runDelay_leaves p
  case envelope | compressor | receive | hold | filter =>
    exact .modify fun s => .of_slot (fun _ => rfl) rfl rfl
  all_goals exact .modify fun s => .of_voices rfl (fun _ => rfl) rfl

end RunningUnit

/-- An opcode changes what its own unit remembers, and no other. -/
theorem Program.runUnit_cells (p : Program) (voice slot : Nat) (op : UInt8) :
    Preserves (OtherCells voice slot) (p.runUnit voice slot op) := by
  apply runUnit_keeps (OtherCells.lasting voice slot)
  rintro kind - u - rfl rfl s
  exact (u.run_leaves p s).mono (fun _ _ leaves => leaves.cells) fun _ _ leaves => leaves.cells

end ModularSynth
