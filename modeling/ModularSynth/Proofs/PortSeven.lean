-- Port 7 of a unit and the voices that no instrument plays. Sends can reach both, but no unit reads
-- port 7, and a voice is read only while it is run. So units do the same in two machines that
-- differ in nothing else, and leave machines that differ in nothing else.
import ModularSynth.Proofs.Sends
import ModularSynth.Proofs.TwoRuns
import ModularSynth.Proofs.UnitFrames

namespace ModularSynth

/-! ## Slots -/

namespace Slot

/-- Two units remember the same and have got the same at all ports but port 7. -/
structure HeardAlike (s t : Slot) : Prop where
  cells : t.cells = s.cells
  ports : ∀ i, i ≠ 7 → t.port i = s.port i

theorem HeardAlike.refl (s : Slot) : s.HeardAlike s :=
  ⟨rfl, fun _ _ => rfl⟩

/-- The slot with some other signal at port 7. -/
def setSeven (s : Slot) (x : Signal) : Slot :=
  { s with ports := s.ports.set 7 x }

theorem setSeven_port (s : Slot) (x : Signal) {i : Nat} (h : i ≠ 7) :
    (s.setSeven x).port i = s.port i := by
  unfold port setSeven
  rw [Vector.getElem?_set_ne (by decide) (Ne.symm h)]

theorem heardAlike_setSeven (s : Slot) (x : Signal) : s.HeardAlike (s.setSeven x) :=
  ⟨rfl, fun _ h => s.setSeven_port x h⟩

theorem HeardAlike.eq_setSeven {s t : Slot} (h : s.HeardAlike t) : t = s.setSeven (t.port 7) := by
  obtain ⟨cells, ports⟩ := t
  have same : ports = s.ports.set 7 (port ⟨cells, ports⟩ 7) := by
    apply Vector.ext
    intro i hi
    by_cases seven : i = 7
    · subst seven
      simp [port]
    · have there := h.ports i seven
      unfold port at there
      rw [Vector.getElem_set_ne _ _ (Ne.symm seven)]
      simpa [hi] using there
  rw [setSeven, ← same]
  have := h.cells
  simp only at this
  rw [this]

theorem clearPort_setSeven (s : Slot) (x : Signal) {i : Nat} (h : i ≠ 7) :
    (s.setSeven x).clearPort i = (s.clearPort i).setSeven x := by
  unfold clearPort setSeven
  simp only [Slot.mk.injEq, true_and]
  apply Vector.ext
  intro j hj
  simp only [Vector.getElem_setIfInBounds, Vector.getElem_set]
  grind

theorem HeardAlike.clearPort {s t : Slot} (h : s.HeardAlike t) (i : Nat) :
    (s.clearPort i).HeardAlike (t.clearPort i) := by
  constructor
  · exact h.cells
  · intro j other
    rw [port_clearPort, port_clearPort, h.ports j other]

theorem HeardAlike.clearPorts {s t : Slot} (h : s.HeardAlike t) (count : Nat) :
    (s.clearPorts count).HeardAlike (t.clearPorts count) := by
  constructor
  · rw [cells_clearPorts, cells_clearPorts, h.cells]
  · intro i other
    rw [port_clearPorts, port_clearPorts, h.ports i other]

/-- Sending the same to alike slots leaves them alike. -/
theorem HeardAlike.deposit {s t : Slot} (h : s.HeardAlike t) (amount : Signal)
    (channels port : Nat) (stack : Stack) :
    (RunningUnit.deposit amount channels port stack s).HeardAlike
      (RunningUnit.deposit amount channels port stack t) := by
  constructor
  · rw [cells_deposit, cells_deposit, h.cells]
  · intro i other
    rw [RunningUnit.port_deposit, RunningUnit.port_deposit, h.ports i other]

/-- What is sent to port 7 goes nowhere else, also in stereo. -/
theorem heardAlike_deposit_seven (amount : Signal) (channels : Nat) (stack : Stack) (s : Slot) :
    (RunningUnit.deposit amount channels 7 stack s).HeardAlike s := by
  constructor
  · rw [cells_deposit]
  · intro i other
    rw [RunningUnit.port_deposit, if_neg (by omega)]

/-- A step of a unit that takes no notice of port 7. -/
def Ignores {α : Type} (f : Slot → Slot × α) : Prop :=
  ∀ s x, f (s.setSeven x) = ((f s).1.setSeven x, (f s).2)

end Slot

/-! ## Machines -/

namespace Machine

/-- Two machines that differ at most in port 7 of units and in the voices from some number on. -/
structure HeardAlike (voices : Nat) (m n : Machine) : Prop where
  bus : n.bus = m.bus
  seed : n.seed = m.seed
  clock : n.clock = m.clock
  lines : n.lines = m.lines
  keys : ∀ v < voices, n.key v = m.key v
  slots : ∀ v < voices, ∀ q, (m.slot v q).HeardAlike (n.slot v q)

namespace HeardAlike

variable {voices : Nat} {m n : Machine}

theorem refl (voices : Nat) (m : Machine) : m.HeardAlike voices m :=
  ⟨rfl, rfl, rfl, rfl, fun _ _ => rfl, fun _ _ _ => .refl _⟩

theorem adjustSlot (h : m.HeardAlike voices n) {v q : Nat} {f g : Slot → Slot}
    (alike : v < voices → (f (m.slot v q)).HeardAlike (g (n.slot v q))) :
    (m.adjustSlot v q f).HeardAlike voices (n.adjustSlot v q g) := by
  refine ⟨h.bus, h.seed, h.clock, h.lines, ?_, ?_⟩
  · intro w hw
    rw [SameNotes.adjustSlot, SameNotes.adjustSlot, h.keys w hw]
  · intro w hw r
    rw [slot_adjustSlot, slot_adjustSlot]
    split
    · rename_i here
      obtain ⟨rfl, rfl, -, -⟩ := here
      exact alike hw
    · exact h.slots w hw r

/-- What is sent to port 7 is not noticed. -/
theorem adjustSlot_right (h : m.HeardAlike voices n) {v q : Nat} {f : Slot → Slot}
    (alike : ∀ slot, (f slot).HeardAlike slot) : (m.adjustSlot v q f).HeardAlike voices n := by
  refine ⟨h.bus, h.seed, h.clock, h.lines, ?_, ?_⟩
  · intro w hw
    rw [SameNotes.adjustSlot, h.keys w hw]
  · intro w hw r
    have before := h.slots w hw r
    rw [slot_adjustSlot]
    split
    · have changed := alike (m.slot w r)
      exact ⟨before.cells.trans changed.cells,
        fun i other => (before.ports i other).trans (changed.ports i other)⟩
    · exact before

theorem adjustVoice (h : m.HeardAlike voices n) (v : Nat) {f : Voice → Voice}
    (keys : ∀ a b : Voice, a.note = b.note → a.sustain = b.sustain →
      (f a).note = (f b).note ∧ (f a).sustain = (f b).sustain)
    (slots : ∀ (a b : Voice) q, (a.slot q).HeardAlike (b.slot q) →
      ((f a).slot q).HeardAlike ((f b).slot q)) :
    (m.adjustVoice v f).HeardAlike voices (n.adjustVoice v f) := by
  refine ⟨h.bus, h.seed, h.clock, h.lines, ?_, ?_⟩
  · intro w hw
    have before := h.keys w hw
    simp only [key, Key.mk.injEq] at before ⊢
    rw [voice_adjustVoice, voice_adjustVoice]
    split
    · exact keys _ _ before.1 before.2
    · exact before
  · intro w hw q
    unfold slot
    rw [voice_adjustVoice, voice_adjustVoice]
    split
    · exact slots _ _ q (h.slots w hw q)
    · exact h.slots w hw q

theorem mixInto (h : m.HeardAlike voices n) (i : Nat) (x : Signal) :
    (m.mixInto i x).HeardAlike voices (n.mixInto i x) :=
  ⟨congrArg (adjust · i (· + x)) h.bus, h.seed, h.clock, h.lines, h.keys, h.slots⟩

theorem silence (h : m.HeardAlike voices n) (i : Nat) :
    (m.silence i).HeardAlike voices (n.silence i) :=
  ⟨congrArg (·.setIfInBounds i 0.0) h.bus, h.seed, h.clock, h.lines, h.keys, h.slots⟩

theorem withLines (h : m.HeardAlike voices n) (lines : Array DelayLine) :
    HeardAlike voices { m with lines } { n with lines } :=
  ⟨h.bus, h.seed, h.clock, rfl, h.keys, h.slots⟩

theorem channel (h : m.HeardAlike voices n) (i : Nat) : n.channel i = m.channel i := by
  unfold Machine.channel
  rw [h.bus]

theorem random (h : m.HeardAlike voices n) :
    n.random.1 = m.random.1 ∧ m.random.2.HeardAlike voices n.random.2 := by
  unfold Machine.random
  simp only
  rw [h.seed]
  exact ⟨rfl, h.bus, rfl, h.clock, h.lines, h.keys, h.slots⟩

end HeardAlike

end Machine

/-! ## Moments -/

/-- Two moments that differ at most in what is not heard of their machines. -/
def Moment.HeardAlike (voices : Nat) (s t : Moment) : Prop :=
  ∃ m, s.machine.HeardAlike voices m ∧ t = { s with machine := m }

namespace Oscillator

/-! ## Oscillators -/

theorem sound_ignores (o : Oscillator) (channel sounding : Nat) (detune phase : Signal) :
    Slot.Ignores (o.sound channel sounding detune phase) := by
  intro s x
  unfold sound
  simp only
  split <;> rfl

theorem soundAll_ignores (o : Oscillator) (channel more sounding : Nat)
    (detune phase output : Signal) :
    Slot.Ignores (o.soundAll channel more sounding detune phase output) := by
  intro s x
  induction more generalizing s sounding detune phase output with
  | zero =>
    unfold soundAll
    rw [o.sound_ignores]
  | succ more ih =>
    unfold soundAll
    rw [o.sound_ignores]
    exact ih _ _ _ _ _

theorem channels_ignores (o : Oscillator) (count channel : Nat) (detune phase : Signal)
    (outputs : List Signal) :
    Slot.Ignores (o.channels count channel detune phase · outputs) := by
  intro s x
  induction count generalizing s channel detune phase outputs with
  | zero => rfl
  | succ count ih =>
    simp only [channels]
    rw [o.soundAll_ignores]
    exact ih _ _ _ _ _

theorem run_ignores (o : Oscillator) (count : Nat) (stack : List Signal) :
    Slot.Ignores (o.run count · stack) :=
  o.channels_ignores count 0 _ _ stack

end Oscillator

theorem eachChannel_ignores {step : Nat → Slot → Signal → Slot × Signal}
    (ignores : ∀ channel y, Slot.Ignores (step channel · y)) (channels channel : Nat)
    (stack : List Signal) : Slot.Ignores (eachChannel step · channels channel stack) := by
  intro s x
  induction channels generalizing s channel stack with
  | zero => rfl
  | succ channels ih =>
    cases stack with
    | nil => rfl
    | cons y stack =>
      have first := ignores channel y s x
      have later := ih (channel + 1) stack (step channel s y).1
      dsimp only at first later
      simp only [eachChannel]
      rw [first]
      dsimp only
      rw [later]

namespace RunningUnit

/-! ## Units -/

section Units

variable (u : RunningUnit) {voices : Nat}

/-- A unit that changes its memory and the stack, and takes no notice of port 7. -/
theorem onSlot_heardAlike (own : u.voice < voices) {f : Slot → Stack → Slot × Stack}
    (ignores : ∀ stack, Slot.Ignores (f · stack)) :
    SideBySide (Moment.HeardAlike voices) (u.onSlot f) (u.onSlot f) := by
  apply SideBySide.modify
  rintro s _ ⟨m, alike, rfl⟩
  have slots := (alike.slots u.voice own u.slot).eq_setSeven
  have same := ignores s.stack (s.machine.slot u.voice u.slot) ((m.slot u.voice u.slot).port 7)
  dsimp only at same ⊢
  rw [slots, same]
  refine ⟨_, alike.adjustSlot fun _ => ?_, rfl⟩
  exact Slot.heardAlike_setSeven _ _

theorem consume_heardAlike (count : Nat) {f : Stack → Machine → Machine}
    (keeps : ∀ stack m n, m.HeardAlike voices n → (f stack m).HeardAlike voices (f stack n)) :
    SideBySide (Moment.HeardAlike voices) (consume count f) (consume count f) := by
  apply SideBySide.modify
  rintro s _ ⟨m, alike, rfl⟩
  exact ⟨_, keeps s.stack _ _ alike, rfl⟩

theorem onStack_heardAlike (f : Stack → Stack) :
    SideBySide (Moment.HeardAlike voices) (onStack f) (onStack f) := by
  apply SideBySide.modify
  rintro s _ ⟨m, alike, rfl⟩
  exact ⟨m, alike, rfl⟩

theorem mixTop_heardAlike (channel : Nat) (gain : Signal) (stack : Stack) (m n : Machine)
    (alike : m.HeardAlike voices n) :
    (u.mixTop channel gain stack m).HeardAlike voices (u.mixTop channel gain stack n) := by
  unfold mixTop
  split
  · exact alike.mixInto _ _
  · exact (alike.mixInto _ _).mixInto _ _
  · exact alike

theorem busChannel_heardAlike :
    SideBySide (Moment.HeardAlike voices) u.busChannel u.busChannel := by
  unfold busChannel
  exact .ite (.throw _) (.pure _)

theorem takeChannel_heardAlike (channel : Nat) :
    SideBySide (Moment.HeardAlike voices) (takeChannel channel) (takeChannel channel) := by
  apply SideBySide.modify
  rintro s _ ⟨m, alike, rfl⟩
  simp only
  rw [alike.channel]
  exact ⟨_, alike.silence channel, rfl⟩

theorem noise_succ (count : Nat) (s : Moment) :
    u.noise (count + 1) s = u.noise count { s with
      machine := s.machine.random.2
      stack := Signal.bend s.machine.random.1 (u.param 0) * u.param 1 :: s.stack } := rfl

theorem noise_heardAlike (count : Nat) (s t : Moment) (alike : s.HeardAlike voices t) :
    (u.noise count s).HeardAlike voices (u.noise count t) := by
  induction count generalizing s t with
  | zero => exact alike
  | succ count ih =>
    obtain ⟨m, alike, rfl⟩ := alike
    obtain ⟨drawn, random⟩ := alike.random
    rw [noise_succ, noise_succ]
    apply ih
    exact ⟨m.random.2, random, by rw [drawn]⟩

theorem speed_heardAlike (own : u.voice < voices) :
    SideBySide (Moment.HeardAlike voices) u.speed u.speed := by
  apply SideBySide.modify
  rintro ⟨machine, stack, operands, line, time, scratch⟩ _ ⟨m, alike, rfl⟩
  have slots := (alike.slots u.voice own u.slot).eq_setSeven
  cases stack with
  | nil => exact ⟨m, alike, rfl⟩
  | cons x stack =>
    have leftover : (m.slot u.voice u.slot).cell 0 = (machine.slot u.voice u.slot).cell 0 := by
      rw [slots]
      rfl
    dsimp only at leftover ⊢
    rw [leftover]
    refine ⟨_, alike.adjustSlot fun _ => ?_, rfl⟩
    dsimp only at slots
    rw [slots]
    exact Slot.heardAlike_setSeven _ _

theorem send_heardAlike : SideBySide (Moment.HeardAlike voices) u.send u.send := by
  unfold send
  refine .ite (.throw _) (.modify ?_)
  rintro s _ ⟨m, alike, rfl⟩
  refine ⟨_, alike.adjustSlot fun inside => ?_, rfl⟩
  exact (alike.slots _ inside _).deposit _ _ _ _

theorem oscillator_setSeven (p : Program) (recording : SampleOffset) (slot : Slot) (x : Signal) :
    u.oscillator p recording (slot.setSeven x) = u.oscillator p recording slot := by
  unfold oscillator
  rw [slot.setSeven_port x (by decide)]

theorem runOscillator_heardAlike (p : Program) (own : u.voice < voices) :
    SideBySide (Moment.HeardAlike voices) (u.runOscillator p) (u.runOscillator p) := by
  rintro s _ ⟨m, alike, rfl⟩
  have slots := (alike.slots u.voice own u.slot).eq_setSeven
  unfold runOscillator
  simp only
  split
  · refine .error ⟨_, alike.adjustSlot fun _ => ?_, rfl⟩
    dsimp only
    rw [slots, oscillator_setSeven]
    exact Slot.heardAlike_setSeven _ _
  · refine .ok ?_
    dsimp only
    generalize p.bytecode.sampleOffsets[(u.byte 3).toNat]? = recording
    have same := (u.oscillator p (recording.getD default)
      (s.machine.slot u.voice u.slot)).run_ignores u.channels s.stack
        (s.machine.slot u.voice u.slot) ((m.slot u.voice u.slot).port 7)
    dsimp only at same
    rw [slots, oscillator_setSeven, same, Slot.clearPort_setSeven _ _ (by decide)]
    refine ⟨_, alike.adjustSlot fun _ => ?_, rfl⟩
    exact Slot.heardAlike_setSeven _ _

theorem runDelay_heardAlike (p : Program) (own : u.voice < voices) :
    SideBySide (Moment.HeardAlike voices) (u.runDelay p) (u.runDelay p) := by
  rintro ⟨machine, stack, operands, line, time, scratch⟩ _ ⟨m, alike, rfl⟩
  have same : u.delay p m = u.delay p machine := by
    unfold delay
    rw [alike.clock, (alike.slots u.voice own u.slot).ports 4 (by decide)]
  have lines := alike.lines
  unfold runDelay EStateM.run
  dsimp only at lines ⊢
  rw [same, lines]
  rcases delayChannels (u.delay p machine) (((u.extra 1).toNat + 1) / 2)
    ⟨(u.extra 0).toNat, line⟩ machine.lines (stack.take u.channels) with ⟨rings, e | ⟨place, ys⟩⟩
  · exact .error ⟨_, alike.withLines rings, rfl⟩
  · refine .ok ⟨_, (alike.withLines rings).adjustSlot fun _ => ?_, rfl⟩
    exact ((alike.withLines rings).slots u.voice own u.slot).clearPort 4

theorem receive_ignores (stack : Stack) : Slot.Ignores (u.receive · stack) := by
  intro s x
  have zero : 0 ≠ 7 := by decide
  have one : 1 ≠ 7 := by decide
  unfold receive
  split
  · simp only [Slot.clearPort_setSeven _ _ zero, Slot.clearPort_setSeven _ _ one,
      Slot.setSeven_port _ _ zero, Slot.setSeven_port _ _ one]
  · simp only [Slot.clearPort_setSeven _ _ zero, Slot.setSeven_port _ _ zero]

/-- A unit does the same in machines that differ in nothing that is heard. -/
theorem run_heardAlike (p : Program) (own : u.voice < voices) :
    SideBySide (Moment.HeardAlike voices) (u.run p) (u.run p) := by
  unfold run
  cases u.kind <;> simp only
  case sync => exact .pure _
  case noise => exact .modify (u.noise_heardAlike _)
  case out => exact consume_heardAlike _ fun _ _ _ => u.mixTop_heardAlike _ _ _ _ _
  case outaux =>
    apply consume_heardAlike
    intro stack m n alike
    exact u.mixTop_heardAlike _ _ _ _ _ (u.mixTop_heardAlike _ _ _ _ _ alike)
  case aux =>
    apply SideBySide.bind u.busChannel_heardAlike
    intro channel
    exact consume_heardAlike _ fun _ _ _ => u.mixTop_heardAlike _ _ _ _ _
  case input =>
    apply SideBySide.bind u.busChannel_heardAlike
    intro channel
    apply SideBySide.ite
    · exact .bind (takeChannel_heardAlike _) fun _ => takeChannel_heardAlike _
    · exact takeChannel_heardAlike _
  case envelope => exact u.onSlot_heardAlike own fun _ _ _ => rfl
  case compressor => exact u.onSlot_heardAlike own fun _ _ _ => rfl
  case receive => exact u.onSlot_heardAlike own u.receive_ignores
  case hold =>
    apply u.onSlot_heardAlike own
    intro stack
    exact eachChannel_ignores (fun _ _ _ _ => rfl) _ _ _
  case filter =>
    apply u.onSlot_heardAlike own
    intro stack
    exact eachChannel_ignores (fun _ _ _ _ => rfl) _ _ _
  case speed => exact u.speed_heardAlike own
  case send => exact u.send_heardAlike
  case oscillator => exact u.runOscillator_heardAlike p own
  case delay => exact u.runDelay_heardAlike p own
  all_goals exact onStack_heardAlike _

end Units

end RunningUnit

end ModularSynth
