-- The times that a delay plays. The code of a delay names in one byte where its times begin in
-- the table, and in another how many lines it has. While both numbers fit, the delay runs as if
-- its own times were the whole table, whatever other delays the patch has; a number that does
-- not fit loses its high bits.
import ModularSynth.Proofs.Framing
import ModularSynth.Proofs.SendTargets

namespace ModularSynth

open Assembly

/-! ## A part of a table -/

namespace Delay

/-- The same cursor, so many delay times further on. -/
def Cursor.later (place : Cursor) (start : Nat) : Cursor :=
  { place with time := start + place.time }

/-- So many entries of a table, from one on, stand in the table of a delay from a place on. -/
def Holds (d : Delay) (start : Nat) (times : Array UInt16) (first count : Nat) : Prop :=
  ∀ j, first ≤ j → j < first + count →
    ∃ time, times[j]? = some time ∧ d.times[start + j]? = some time

theorem Holds.part {d : Delay} {start first count first' count' : Nat} {times : Array UInt16}
    (h : d.Holds start times first count) (hf : first ≤ first')
    (hc : first' + count' ≤ first + count) : d.Holds start times first' count' :=
  fun j hlo hhi => h j (by omega) (by omega)

/-- The delay with another table. -/
def withTimes (d : Delay) (times : Array UInt16) : Delay :=
  { d with times }

/-- What some lines come to, with the cursor so many delay times further on. -/
def later {α : Type} (start : Nat) :
    Array DelayLine × Except RenderFault (Cursor × α) →
      Array DelayLine × Except RenderFault (Cursor × α)
  | (lines, .ok (place, a)) => (lines, .ok (place.later start, a))
  | (lines, .error fault) => (lines, .error fault)

variable (d : Delay) {start : Nat} {times : Array UInt16}

/-- Lines that find their times in a part of a table run as they do on this part alone. -/
theorem runLines_part (signal : Signal) (count : Nat) (place : Cursor) (output : Signal)
    (lines : Array DelayLine) (holds : d.Holds start times place.time count) :
    d.runLines signal count (place.later start) output lines =
      later start ((d.withTimes times).runLines signal count place output lines) := by
  induction count generalizing place output lines with
  | zero => rfl
  | succ count ih =>
    obtain ⟨time, here, there⟩ := holds place.time (Nat.le_refl _) (by omega)
    have here' : (d.withTimes times).times[place.time]? = some time := here
    rw [runLines, runLines]
    simp only [Cursor.later, here', there]
    cases lines[place.line]? with
    | none => rfl
    | some line =>
      exact ih ⟨place.time + 1, place.line + 1⟩ _ _ (holds.part (Nat.le_succ _) (by simp; omega))

theorem runChannel_part (count : Nat) (place : Cursor) (signal : Signal)
    (lines : Array DelayLine) (holds : d.Holds start times place.time count) :
    d.runChannel count (place.later start) signal lines =
      later start ((d.withTimes times).runChannel count place signal lines) := by
  unfold runChannel
  rw [d.runLines_part signal count place _ lines holds,
    show (d.withTimes times).dry = d.dry from rfl]
  rcases (d.withTimes times).runLines signal count place (d.dry * signal) lines with
    ⟨lines', e | ⟨place', y⟩⟩
  · rfl
  · simp only [later]
    rw [show (place'.later start).line = place'.line from rfl]
    by_cases none : count = 0
    · rw [if_pos none, if_pos none]
    · rw [if_neg none, if_neg none]
      cases lines'[place'.line - 1]? <;> rfl

end Delay

namespace RunningUnit

theorem delayChannels_part (d : Delay) (start : Nat) (times : Array UInt16) (count : Nat)
    (place : Delay.Cursor) (lines : Array DelayLine) (xs : List Signal)
    (holds : d.Holds start times place.time (xs.length * count)) :
    delayChannels d count (place.later start) lines xs =
      Delay.later start (delayChannels (d.withTimes times) count place lines xs) := by
  induction xs with
  | nil => rfl
  | cons x rest ih =>
    rw [List.length_cons, Nat.succ_mul] at holds
    have before := ih (holds.part (Nat.le_refl _) (by omega))
    have read := delayChannels_read (d.withTimes times) count place lines rest
    rw [delayChannels, delayChannels, before]
    rcases h : delayChannels (d.withTimes times) count place lines rest with
      ⟨lines', e | ⟨place', ys⟩⟩
    · rfl
    · rw [h] at read
      simp only [Delay.Read] at read
      simp only [Delay.later]
      rw [d.runChannel_part count place' x lines' (holds.part (by omega) (by omega))]
      rcases (d.withTimes times).runChannel count place' x lines' with ⟨lines'', e | ⟨place'', y⟩⟩
        <;> rfl

end RunningUnit

/-- The program with another table of delay times. -/
def Program.withDelayTimes (p : Program) (times : Array UInt16) : Program :=
  { p with bytecode := { p.bytecode with delayTimes := times } }

/-- The unit with its delay times at the start of the table. -/
def RunningUnit.fromStart (u : RunningUnit) : RunningUnit :=
  { u with extras := [0, u.extra 1] }

/-- A delay whose times are a part of the table runs as it does on this part alone. -/
theorem RunningUnit.runDelay_part (u : RunningUnit) (p : Program) {times : Array UInt16}
    (holds : ∀ j < u.channels * u.lineCount, ∃ time, times[j]? = some time ∧
      p.bytecode.delayTimes[(u.extra 0).toNat + j]? = some time) :
    u.runDelay p = u.fromStart.runDelay (p.withDelayTimes times) := by
  funext s
  obtain ⟨⟨bus, seed, clock, voices, lines⟩, stack, operands, line, time, scratch⟩ := s
  have few : (stack.take u.channels).length ≤ u.channels := List.length_take_le _ _
  have part := fun d => delayChannels_part d (u.extra 0).toNat times u.lineCount ⟨0, line⟩ lines
    (stack.take u.channels)
  unfold runDelay
  rw [show ((u.extra 1).toNat + 1) / 2 = u.lineCount from rfl,
    show ((u.fromStart.extra 1).toNat + 1) / 2 = u.lineCount from rfl,
    show u.fromStart.channels = u.channels from rfl]
  simp only
  rw [show u.fromStart.delay (p.withDelayTimes times) ⟨bus, seed, clock, voices, lines⟩ =
      (u.delay p ⟨bus, seed, clock, voices, lines⟩).withTimes times from rfl,
    show (⟨(u.fromStart.extra 0).toNat, line⟩ : Delay.Cursor) = ⟨0, line⟩ from rfl,
    show (⟨(u.extra 0).toNat, line⟩ : Delay.Cursor) =
      Delay.Cursor.later ⟨0, line⟩ (u.extra 0).toNat from rfl,
    part _ fun j _ hj => holds j (by
      have := Nat.mul_le_mul_right u.lineCount few
      simp only at hj
      omega)]
  rcases delayChannels ((u.delay p ⟨bus, seed, clock, voices, lines⟩).withTimes times) u.lineCount
    ⟨0, line⟩ lines (stack.take u.channels) with ⟨lines', e | ⟨place', ys⟩⟩ <;> rfl

/-! ## The operands of a delay -/

namespace Assembly

/-- The count of a delay is even if it tracks notes and odd if it does not, also when it has
lost high bits. -/
theorem lineCount_even (u : PatchUnit) :
    (operand (lineCount u)).toNat % 2 = 0 ↔ u.param "notetracking" % 2 = 1 := by
  rw [operand_toNat]
  unfold lineCount
  rcases Int.emod_two_eq (u.param "notetracking") with h | h <;> rw [h] <;> omega

/-- The count of a delay stands for all its lines just if it fits. -/
theorem lineCount_fits {u : PatchUnit} (lines : 1 ≤ linesPerChannel u) :
    ((operand (lineCount u)).toNat + 1) / 2 = linesPerChannel u ↔ lineCount u < 256 := by
  rw [operand_toNat]
  unfold lineCount
  rcases Int.emod_two_eq (u.param "notetracking") with h | h <;> rw [h] <;> omega

end Assembly

/-! ## What a delay plays -/

/-- The opcode of a delay whose times begin at the start of the table. -/
def CompiledUnit.fromStart (c : CompiledUnit) : CompiledUnit :=
  { c with operands := c.operands.take 4 ++ [0, c.operands[5]?.getD 0] }

/-- If a delay runs on a part of the table as on the whole, so does its opcode. -/
theorem Program.runUnit_part (p : Program) {c : CompiledUnit} (hk : c.kind? = some .delay)
    (hl : c.operands.length = UnitKind.delay.width) {times : Array UInt16}
    (part : ∀ r : RunningUnit, r.Runs c →
      r.runDelay p = r.fromStart.runDelay (p.withDelayTimes times))
    {slot : Nat} (hs : slot < maxUnits) (voice : Nat) {s : Moment} {more : List UInt8}
    (ho : s.operands = c.operands ++ more) (enough : stackNeed .delay c.stereo ≤ s.stack.length) :
    (p.runUnit voice slot c.opcode).run s =
      ((p.withDelayTimes times).runUnit voice slot c.opcode).run
        { s with operands := c.fromStart.operands ++ more } := by
  obtain ⟨opcode, operands⟩ := c
  match operands, hl with
  | [pregain, dry, feedback, damp, index, count], hl =>
    have here := (p.runUnit_framed hk hl hs voice ho).trans (if_neg (Nat.not_lt.mpr enough))
    have there := ((p.withDelayTimes times).runUnit_framed
      (c := ⟨opcode, [pregain, dry, feedback, damp, 0, count]⟩)
      (s := { s with operands := [pregain, dry, feedback, damp, 0, count] ++ more })
      hk rfl hs voice rfl).trans (if_neg (Nat.not_lt.mpr enough))
    have same := part
      (CompiledUnit.running ⟨opcode, [pregain, dry, feedback, damp, index, count]⟩ .delay s voice
        slot) ⟨hk, rfl, rfl, rfl⟩
    exact here.trans (Eq.trans
      (congrArg (fun x : Exec Unit => (x >>= fun _ => p.trapTop .delay).run _) same) there.symm)

/-- Every delay with lines has an opcode whose operands name the place of its times in the table
and its number of lines, each modulo 256, and its own times stand at that place. If both numbers
are below 256, the machine runs exactly its lines on its own times, as if no other delay had any;
if one of them is not, the machine reads it as another number. -/
theorem compile_delay_times {patch : Patch} {bpm : Nat} {b : Bytecode}
    (compiled : Bytecode.compile patch .all bpm = .ok b) (flags : patch.StereoFlags) {i k : Nat}
    {u : PatchUnit} (hu : patch.unit? i k = some u) (delay : u.activeKind? = some .delay)
    (lines : 1 ≤ linesPerChannel u) :
    ∃ start before c after,
      ((DelayTable.ofPatch patch bpm).2[i]? >>= (·[k]?)) = some start ∧
      b.blocks[i]? = some (before ++ c :: after) ∧ before.length = patch.slotOf i k ∧
      c.operands = leadingOperands u ++ [operand start, operand (lineCount u)] ∧
      ((operand (lineCount u)).toNat % 2 = 0 ↔ u.param "notetracking" % 2 = 1) ∧
      (∀ j < u.varArgs.length,
        b.delayTimes[start + j]? = ((DelayTable.unitTimes bpm u).map UInt16.ofInt)[j]?) ∧
      (∀ r : RunningUnit, r.Runs c →
        (r.extra 0).toNat = start % 256 ∧
        r.lineCount = ((lineCount u % 256).toNat + 1) / 2 ∧
        (r.lineCount = linesPerChannel u ↔ lineCount u < 256) ∧
        (start < 256 → lineCount u < 256 →
          ∀ channel line, channel < r.channels → line < r.lineCount →
            b.delayTimes[(r.extra 0).toNat + channel * r.lineCount + line]? =
              ((DelayTable.unitTimes bpm u).map UInt16.ofInt)[
                channel * linesPerChannel u + line]?)) ∧
      (start < 256 → lineCount u < 256 →
        ∀ (p : Program) (voice slot : Nat) (s : Moment) (more : List UInt8), p.bytecode = b →
          slot < maxUnits → s.operands = c.operands ++ more → c.channels ≤ s.stack.length →
          (p.runUnit voice slot c.opcode).run s =
            ((p.withDelayTimes ((DelayTable.unitTimes bpm u).map UInt16.ofInt).toArray).runUnit
              voice slot c.opcode).run { s with operands := c.fromStart.operands ++ more }) := by
  obtain ⟨assembled, h⟩ := Bytecode.compile_ok compiled
  obtain ⟨active, hk⟩ := PatchUnit.activeKind?_eq_some delay
  obtain ⟨kind, before, code, after, named, block, slot, count, -, stems⟩ :=
    h.code_of_unit flags hu active
  obtain rfl : kind = .delay := Option.some.inj (named.symm.trans hk)
  have single : code.length = 1 := by
    rw [count, Patch.emittedCount, delay]
    exact if_neg (by omega)
  obtain ⟨c, rfl⟩ := List.length_eq_one_iff.mp single
  have code := stems c (List.mem_singleton_self c)
  have hc := code.kind_eq flags
  obtain ⟨start, hs, -, ho, stands⟩ := code.delay_table h.delayTimes
  have index : ∀ r : RunningUnit, r.Runs c → (r.extra 0).toNat = start % 256 :=
    fun r runs => (code.delay_reads flags ho runs).1
  have lineCount_eq : ∀ r : RunningUnit, r.Runs c →
      r.lineCount = ((operand (lineCount u)).toNat + 1) / 2 :=
    fun r runs => (code.delay_reads flags ho runs).2
  have all : ∀ r : RunningUnit, r.Runs c → lineCount u < 256 → r.lineCount = linesPerChannel u :=
    fun r runs fits => (lineCount_eq r runs).trans ((lineCount_fits lines).mpr fits)
  have own : ∀ r : RunningUnit, r.Runs c → lineCount u < 256 →
      r.channels * r.lineCount ≤ u.varArgs.length :=
    fun r runs fits => code.delay_lines_le flags runs (all r runs fits).le
  refine ⟨start, before, c, after, hs, block, slot, ho, lineCount_even u, stands,
    fun r runs => ⟨index r runs, ?_, ?_, fun start_fits count_fits => ?_⟩,
    fun start_fits count_fits => ?_⟩
  · rw [lineCount_eq r runs, operand_toNat]
  · rw [lineCount_eq r runs, lineCount_fits lines]
  · intro channel line hc hl
    rw [index r runs, Nat.mod_eq_of_lt start_fits, ← all r runs count_fits, Nat.add_assoc]
    refine stands _ (Nat.lt_of_lt_of_le ?_ (own r runs count_fits))
    have := Nat.mul_le_mul_right r.lineCount (Nat.succ_le_of_lt hc)
    rw [Nat.succ_mul] at this
    omega
  · rintro p voice slot s more rfl hslot operands enough
    refine p.runUnit_part hc code.length (fun r runs => r.runDelay_part p fun j hj => ?_) hslot
      voice operands ?_
    · have few : j < ((DelayTable.unitTimes bpm u).map UInt16.ofInt).length := by
        rw [List.length_map, DelayTable.unitTimes_length delay]
        exact Nat.lt_of_lt_of_le hj (own r runs count_fits)
      refine ⟨_, by rw [List.getElem?_toArray, List.getElem?_eq_getElem few], ?_⟩
      rw [index r runs, Nat.mod_eq_of_lt start_fits,
        stands j (Nat.lt_of_lt_of_le hj (own r runs count_fits)), List.getElem?_eq_getElem few]
    · unfold CompiledUnit.channels at enough
      cases hs : c.stereo <;> rw [hs] at enough <;> exact enough

theorem compile_delay_times_echo :
    ∃ b before c after, Bytecode.compile echoPatch .all 100 = .ok b ∧
      b.blocks[1]? = some (before ++ c :: after) ∧ before.length = 1 ∧
      (∀ r : RunningUnit, r.Runs c → r.lineCount = 2) ∧
      ∀ (p : Program) (s : Moment) (more : List UInt8), p.bytecode = b →
        s.operands = c.operands ++ more → c.channels ≤ s.stack.length →
        (p.runUnit 2 1 c.opcode).run s =
          ((p.withDelayTimes #[100, 200]).runUnit 2 1 c.opcode).run
            { s with operands := c.fromStart.operands ++ more } := by
  obtain ⟨b, compiled⟩ : ∃ b, Bytecode.compile echoPatch .all 100 = .ok b := ⟨_, rfl⟩
  obtain ⟨start, before, c, after, hs, block, slot, -, -, -, reads, runs⟩ :=
    compile_delay_times compiled (by decide +kernel)
      (show echoPatch.unit? 1 1 = some _ from rfl) (by decide +kernel) (by decide +kernel)
  obtain rfl : start = 0 := by
    have : ((DelayTable.ofPatch echoPatch 100).2[1]? >>= (·[1]?)) = some 0 := rfl
    exact Option.some.inj (hs.symm.trans this)
  exact ⟨b, before, c, after, compiled, block, slot, fun r hr => (reads r hr).2.1,
    fun p s more hp => runs (by decide) (by decide +kernel) p 2 1 s more hp (by decide)⟩

end ModularSynth
