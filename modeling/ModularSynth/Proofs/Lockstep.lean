-- Two runs side by side, of which one is later than the other and finds other parameters left
-- by earlier units. No unit reads the time or a parameter that is not its own, so both runs do
-- the same: frame by frame, whatever bytecode runs and whether or not it ends in a fault.
import ModularSynth.Proofs.TwoRuns

namespace ModularSynth

/-- The second moment is the first one, so much later and with other parameters left by earlier
units. -/
def Moment.Alike (later : Int) (s t : Moment) : Prop :=
  ∃ scratch, t = { s with time := s.time + later, scratch }

theorem Moment.Alike.matching (later : Int) : Matching (Moment.Alike later) where
  stack := by
    rintro s _ ⟨scratch, rfl⟩
    rfl
  operands := by
    rintro s _ ⟨scratch, rfl⟩
    rfl
  take := by
    rintro s _ operands ⟨scratch, rfl⟩
    exact ⟨scratch, rfl⟩

/-- Two runs come to the same: both get to their ends with the same value or both stop at the same
fault, in moments that are alike. -/
abbrev EndsAlike {α : Type} (later : Int) :
    EStateM.Result RenderFault Moment α → EStateM.Result RenderFault Moment α → Prop :=
  BothEnd (Moment.Alike later)

/-- From moments that are alike, two programs come to the same. -/
abbrev KeepPace {α : Type} (later : Int) (x y : Exec α) : Prop :=
  SideBySide (Moment.Alike later) x y

namespace RunningUnit

/-! ## The parameters of a unit -/

/-- The unit without the parameters that earlier units have left. -/
def own (u : RunningUnit) : RunningUnit :=
  { u with params := u.params.take u.kind.operandCount }

theorem own_param {u : RunningUnit} {i : Nat} (h : i < u.kind.operandCount) :
    u.own.param i = u.param i := by
  simp [own, param, h]

theorem own_noise (u : RunningUnit) (hk : u.kind = .noise) (n : Nat) (s : Moment) :
    u.own.noise n s = u.noise n s := by
  induction n generalizing s with
  | zero => rfl
  | succ n ih =>
    simp only [noise]
    rw [ih, own_param (by rw [hk]; decide), own_param (by rw [hk]; decide)]

/-- No unit reads a parameter that is not its own. -/
theorem own_run (u : RunningUnit) (p : Program) : u.own.run p = u.run p := by
  have param : ∀ i < u.kind.operandCount, u.own.param i = u.param i := fun i hi => own_param hi
  have kind : u.own.kind = u.kind := rfl
  unfold run
  rw [kind]
  cases hk : u.kind <;> rw [hk] at param <;> simp only
  case noise =>
    exact congrArg modify (funext fun s => u.own_noise hk _ s)
  case distort | gain | invgain | dbgain | crush | loadval | pan | out | hold =>
    rw [param 0 (by decide)]
    rfl
  case outaux =>
    rw [param 0 (by decide), param 1 (by decide)]
    rfl
  case aux =>
    rw [param 0 (by decide)]
    rfl
  case filter =>
    rw [param 0 (by decide), param 1 (by decide)]
    rfl
  case envelope =>
    have same : u.own.envelope = u.envelope := by
      funext slot stack
      unfold envelope
      simp only [param 0 (by decide), param 1 (by decide), param 2 (by decide),
        param 3 (by decide), param 4 (by decide)]
      rfl
    rw [same]
    rfl
  case compressor =>
    have same : u.own.compressor = u.compressor := by
      funext slot stack
      unfold compressor
      simp only [param 0 (by decide), param 1 (by decide), param 2 (by decide),
        param 3 (by decide), param 4 (by decide)]
      rfl
    rw [same]
    rfl
  case send =>
    unfold send
    rw [param 0 (by decide)]
    rfl
  case oscillator =>
    have same : u.own.oscillator p = u.oscillator p := by
      funext recording slot
      unfold oscillator
      simp only [param 0 (by decide), param 1 (by decide), param 2 (by decide),
        param 3 (by decide), param 4 (by decide), param 5 (by decide)]
      rfl
    unfold runOscillator
    rw [same]
    rfl
  case delay =>
    have same : u.own.delay p = u.delay p := by
      funext m
      unfold delay
      simp only [param 0 (by decide), param 1 (by decide), param 2 (by decide),
        param 3 (by decide)]
      rfl
    unfold runDelay
    rw [same]
    rfl
  all_goals rfl

/-! ## Units in step -/

theorem noise_alike (u : RunningUnit) (n : Nat) {later : Int} {s t : Moment}
    (alike : s.Alike later t) : (u.noise n s).Alike later (u.noise n t) := by
  induction n generalizing s t with
  | zero => exact alike
  | succ n ih =>
    obtain ⟨scratch, rfl⟩ := alike
    exact ih ⟨scratch, rfl⟩

theorem busChannel_keepsPace (u : RunningUnit) (later : Int) :
    KeepPace later u.busChannel u.busChannel := by
  unfold busChannel
  simp only
  exact .ite (.throw _) (.pure _)

theorem runOscillator_keepsPace (u : RunningUnit) (p : Program) (later : Int) :
    KeepPace later (u.runOscillator p) (u.runOscillator p) := by
  rintro s _ ⟨scratch, rfl⟩
  unfold runOscillator
  simp only
  split
  · exact .error ⟨_, rfl⟩
  · exact .ok ⟨_, rfl⟩

theorem runDelay_keepsPace (u : RunningUnit) (p : Program) (later : Int) :
    KeepPace later (u.runDelay p) (u.runDelay p) := by
  rintro ⟨⟨bus, seed, clock, voices, lines⟩, stack, operands, line, time, left⟩ _ ⟨scratch, rfl⟩
  unfold runDelay EStateM.run
  simp only
  rcases delayChannels (u.delay p ⟨bus, seed, clock, voices, lines⟩)
    (((u.extra 1).toNat + 1) / 2) ⟨(u.extra 0).toNat, line⟩ lines (stack.take u.channels) with
    ⟨lines', e | ⟨place, ys⟩⟩
  · exact .error ⟨_, rfl⟩
  · exact .ok ⟨_, rfl⟩

theorem onStack_keepsPace (f : Stack → Stack) (later : Int) :
    KeepPace later (onStack f) (onStack f) := by
  rintro s _ ⟨scratch, rfl⟩
  exact .ok ⟨scratch, rfl⟩

theorem consume_keepsPace (count : Nat) (f : Stack → Machine → Machine) (later : Int) :
    KeepPace later (consume count f) (consume count f) := by
  rintro s _ ⟨scratch, rfl⟩
  exact .ok ⟨scratch, rfl⟩

theorem onSlot_keepsPace (u : RunningUnit) (f : Slot → Stack → Slot × Stack) (later : Int) :
    KeepPace later (u.onSlot f) (u.onSlot f) := by
  rintro s _ ⟨scratch, rfl⟩
  exact .ok ⟨scratch, rfl⟩

theorem takeChannel_keepsPace (channel : Nat) (later : Int) :
    KeepPace later (takeChannel channel) (takeChannel channel) := by
  rintro s _ ⟨scratch, rfl⟩
  exact .ok ⟨scratch, rfl⟩

theorem send_keepsPace (u : RunningUnit) (later : Int) : KeepPace later u.send u.send := by
  unfold send
  simp only
  refine .ite (.throw _) (.modify ?_)
  rintro s _ ⟨scratch, rfl⟩
  exact ⟨scratch, rfl⟩

/-- A change of speed moves the time on from wherever it is. -/
theorem speed_keepsPace (u : RunningUnit) (later : Int) : KeepPace later u.speed u.speed := by
  rintro s _ ⟨scratch, rfl⟩
  refine .ok ?_
  cases hs : s.stack with
  | nil =>
    simp only [hs]
    exact ⟨scratch, by rw [hs]⟩
  | cons x stack =>
    simp only [hs]
    exact ⟨scratch, by simp only [Int.add_right_comm]⟩

/-- A unit does the same whatever the time is and whatever earlier units have left. -/
theorem run_keepsPace (u : RunningUnit) (p : Program) (later : Int) :
    KeepPace later (u.run p) (u.run p) := by
  unfold run
  cases u.kind <;> simp only
  case sync => exact .pure _
  case noise => exact .modify fun s t alike => u.noise_alike _ alike
  case out | outaux => exact consume_keepsPace _ _ later
  case aux =>
    exact .bind (u.busChannel_keepsPace later) fun _ => consume_keepsPace _ _ later
  case input =>
    refine .bind (u.busChannel_keepsPace later) fun channel => .ite ?_ ?_
    · exact .bind (takeChannel_keepsPace _ later) fun _ => takeChannel_keepsPace _ later
    · exact takeChannel_keepsPace _ later
  case envelope | compressor | receive | hold | filter => exact u.onSlot_keepsPace _ later
  case speed => exact u.speed_keepsPace later
  case send => exact u.send_keepsPace later
  case oscillator => exact u.runOscillator_keepsPace p later
  case delay => exact u.runDelay_keepsPace p later
  all_goals exact onStack_keepsPace _ later

end RunningUnit

/-! ## Frames in step -/

namespace Program

/-- Units that differ only in what earlier units have left do the same. -/
theorem run_congr (p : Program) (u : RunningUnit) {own : List Signal}
    (h : own.length = u.kind.operandCount) (left left' : List Signal) :
    RunningUnit.run { u with params := own ++ left } p =
      RunningUnit.run { u with params := own ++ left' } p := by
  rw [← RunningUnit.own_run, ← RunningUnit.own_run { u with params := own ++ left' }]
  simp only [RunningUnit.own, ← h, List.take_left]

theorem runUnit_keepsPace (p : Program) (voice slot : Nat) (op : UInt8) (later : Int) :
    KeepPace later (p.runUnit voice slot op) (p.runUnit voice slot op) := by
  apply p.runUnit_sideBySide (Moment.Alike.matching later)
  · rintro s _ kind leading ⟨scratch, rfl⟩ length
    exact ⟨_, rfl⟩
  · rintro s _ kind stereo leading extras ⟨scratch, rfl⟩ length
    have own : (params ((s.machine.voice voice).slot slot) leading).length =
        kind.operandCount := by
      rw [params, List.length_map, List.length_zipIdx, length]
    have same := p.run_congr (s.unit kind stereo voice slot leading extras) own
      (s.scratch.drop kind.operandCount) (scratch.drop kind.operandCount)
    have paced := (s.unit kind stereo voice slot leading extras).run_keepsPace p later
    exact same ▸ paced

/-- A frame does the same whatever the time is and whatever earlier frames have left in the array
of parameters. -/
theorem runFrame_keepsPace (p : Program) (later : Int) :
    KeepPace later p.runFrame p.runFrame :=
  p.runFrame_sideBySide (Moment.Alike.matching later) fun voice _ slot op =>
    p.runUnit_keepsPace voice slot op later

end Program

end ModularSynth
