-- What moves the phases of an oscillator. A phase moves by the tuning of its sounding and by nothing
-- else, whatever the shape of the wave; but the third sounding of a gate keeps its phase where the
-- gate remembers its level, and the one overwrites the other.
import Mathlib.Logic.Function.Iterate
import ModularSynth.Machine.Oscillator

namespace ModularSynth

open Signal

/-! ## Tunings -/

/-- What moves the phases of an oscillator in a frame. -/
structure Tuning where
  transpose : Signal
  detune : Signal
  slow : Bool
  note : Note
  frequency : Signal

namespace Tuning

variable (t : Tuning)

/-- How far a phase moves in a frame. -/
def step (detune : Signal) : Signal :=
  let pitch := (64.0 * bipolar t.transpose + detune).toFloat
  let pitch := if t.slow then pitch else pitch + t.note.toFloat
  let speed := Float.exp2 (pitch * 0.083333333333)
  let speed := speed * (if t.slow then 0.000038 else 0.000092696138)
  (speed + t.frequency.toFloat).toFloat32

/-- The detuning changes sides from channel to channel. Within a channel it also halves, from
sounding to sounding. -/
def detuning (channel sounding : Nat) : Signal :=
  (fun d : Signal => -d * 0.5)^[sounding] ((fun d : Signal => -d)^[channel] (bipolar t.detune))

/-- The phase of a sounding in the next frame. -/
def move (channel sounding : Nat) (phase : Signal) : Signal :=
  Oscillator.wrap (phase + t.step (t.detuning channel sounding))

end Tuning

/-! ## Cells -/

namespace Slot

theorem cell_setCell (s : Slot) (i c : Nat) (x : Signal) :
    (s.setCell i x).cell c = if i = c ∧ c < 8 then x else s.cell c := by
  unfold cell setCell
  simp only [Vector.getElem?_setIfInBounds]
  by_cases same : i = c
  · subst same
    by_cases inside : i < 8 <;> simp [inside]
  · simp [same]

/-- What a cell holds can be put into it again. -/
theorem cell_setCell_self (s : Slot) (i c : Nat) : (s.setCell i (s.cell i)).cell c = s.cell c := by
  rw [cell_setCell]
  split
  · next here => rw [here.1]
  · rfl

end Slot

namespace Oscillator

variable (o : Oscillator)

def tuning : Tuning where
  transpose := o.transpose
  detune := o.detune
  slow := isSlow o.flags
  note := o.note
  frequency := o.frequency

/-- The cell in which a gate remembers its level on a channel. -/
def gateCell (channel : Nat) : Nat :=
  4 + channel

/-- A gate shares one of its cells with a phase, and nothing else does. -/
theorem phaseCell_eq_gateCell {channel sounding : Nat} :
    phaseCell channel sounding = gateCell channel ↔ sounding = 2 := by
  unfold phaseCell gateCell
  omega

theorem unison_le (flags : UInt8) : unison flags ≤ 3 := by
  unfold unison
  rw [UInt8.toNat_and]
  exact Nat.and_le_right

/-! ## Soundings -/

/-- Only a gate changes what is remembered of levels. -/
theorem wave_memory (plain : isGate o.flags = false) (phase memory : Signal) :
    (o.wave phase memory).2 = memory := by
  unfold wave
  split
  · rfl
  · split
    · rfl
    · split
      · rfl
      · rw [plain]
        rfl

/-- The memory after a phase has moved and lost its whole part. -/
def wrapped (channel sounding : Nat) (detune : Signal) (slot : Slot) : Slot :=
  let moved := o.moveOn channel sounding detune slot
  moved.setCell (phaseCell channel sounding) (wrap (moved.cell (phaseCell channel sounding)))

theorem wrapped_cell {c : Nat} (inside : c < 8) (channel sounding : Nat) (detune : Signal)
    (slot : Slot) :
    (o.wrapped channel sounding detune slot).cell c =
      if phaseCell channel sounding = c then wrap (slot.cell c + o.phaseStep detune)
      else slot.cell c := by
  unfold wrapped moveOn
  simp only [Slot.cell_setCell]
  by_cases here : phaseCell channel sounding = c
  · simp only [here, inside, and_self, if_true]
  · simp only [here, false_and, if_false]

variable {o} (waves : isRecording o.flags = false)
include waves

/-- Apart from what is heard, a sounding moves its phase and lets the gate remember its level. -/
theorem sound_eq (channel sounding : Nat) (detune phase : Signal) (slot : Slot) :
    ∃ place, (o.sound channel sounding detune phase slot).1 =
      let moved := o.wrapped channel sounding detune slot
      moved.setCell (gateCell channel) (o.wave place (moved.cell (gateCell channel))).2 := by
  unfold sound
  simp only [waves, Bool.false_eq_true, if_false]
  exact ⟨_, rfl⟩

/-- A sounding moves its phase and no other, unless a gate remembers its level there. -/
theorem sound_cell {channel sounding c : Nat} (detune phase : Signal) (slot : Slot) (inside : c < 8)
    (apart : ¬ (isGate o.flags = true ∧ gateCell channel = c)) :
    (o.sound channel sounding detune phase slot).1.cell c =
      if phaseCell channel sounding = c then wrap (slot.cell c + o.phaseStep detune)
      else slot.cell c := by
  obtain ⟨place, same⟩ := sound_eq waves channel sounding detune phase slot
  rw [same, ← o.wrapped_cell inside]
  simp only
  cases gate : isGate o.flags with
  | false => rw [o.wave_memory gate, Slot.cell_setCell_self]
  | true =>
    rw [Slot.cell_setCell, if_neg]
    rintro ⟨memory, -⟩
    exact apart ⟨gate, memory⟩

/-- The third sounding of a gate does not keep its phase. Where this has moved to is taken for the
level of the gate, and the level that follows from it is left in its place. -/
theorem gate_sound_cell {channel : Nat} (detune phase : Signal) (slot : Slot) (inside : channel < 2)
    (gate : isGate o.flags = true)
    (only : has o.flags 0x40 = false ∧ has o.flags 0x20 = false ∧ has o.flags 0x10 = false) :
    ∃ step, (o.sound channel 2 detune phase slot).1.cell (phaseCell channel 2) =
      gateFollow (wrap (slot.cell (phaseCell channel 2) + o.phaseStep detune)) step := by
  have shared : phaseCell channel 2 = gateCell channel := phaseCell_eq_gateCell.mpr rfl
  have room : gateCell channel < 8 := by
    unfold gateCell
    omega
  obtain ⟨place, same⟩ := sound_eq waves channel 2 detune phase slot
  have moved := o.wrapped_cell room channel 2 detune slot
  rw [if_pos shared] at moved
  rw [same, shared]
  simp only [Slot.cell_setCell, room, and_self, if_true, moved]
  unfold wave
  simp only [only, gate, Bool.false_eq_true, if_false, if_true]
  exact ⟨_, rfl⟩

/-- The soundings of a channel from one on move their phases, each by its own detuning, and no
others. -/
theorem soundAll_cell {channel c : Nat} (more sounding : Nat) (detune phase output : Signal)
    (slot : Slot) (inside : c < 8) (apart : ¬ (isGate o.flags = true ∧ gateCell channel = c)) :
    (∀ j ≤ more, phaseCell channel (sounding + j) = c →
      (o.soundAll channel more sounding detune phase output slot).1.cell c =
        wrap (slot.cell c + o.phaseStep ((fun d : Signal => -d * 0.5)^[j] detune))) ∧
    ((∀ j ≤ more, phaseCell channel (sounding + j) ≠ c) →
      (o.soundAll channel more sounding detune phase output slot).1.cell c = slot.cell c) := by
  have first : (o.sound channel sounding detune phase slot).1.cell c = _ :=
    sound_cell waves detune phase slot inside apart
  induction more generalizing sounding detune phase output slot with
  | zero =>
    unfold soundAll
    refine ⟨?_, ?_⟩
    · intro j none here
      obtain rfl : j = 0 := Nat.le_zero.mp none
      exact first.trans (if_pos here)
    · intro other
      exact first.trans (if_neg (other 0 (Nat.le_refl 0)))
  | succ more ih =>
    unfold soundAll
    simp only
    obtain ⟨own, others⟩ := ih (sounding + 1) (-detune * 0.5) (phase + 0.08333333)
      (output + (o.sound channel sounding detune phase slot).2)
      (o.sound channel sounding detune phase slot).1
      (sound_cell waves _ _ _ inside apart)
    refine ⟨?_, ?_⟩
    · intro j few here
      cases j with
      | zero =>
        rw [others, first]
        · exact if_pos here
        · intro j _ same
          unfold phaseCell at here same
          omega
      | succ j =>
        rw [own j (by omega) (by rw [Nat.add_right_comm]; exact here), first, if_neg]
        · rfl
        · intro same
          unfold phaseCell at here same
          omega
    · intro other
      rw [others, first]
      · exact if_neg (other 0 (Nat.zero_le _))
      · intro j few
        rw [Nat.add_right_comm]
        exact other (j + 1) (by omega)

/-- The channels from one on, of the two that there are, move their phases and no others. -/
theorem channels_cell (count channel : Nat) (detune phase : Signal) (slot : Slot)
    (outputs : List Signal) (two : channel + count ≤ 2) {i j : Nat} (hi : i < 2)
    (hj : j ≤ unison o.flags) (apart : ¬ (isGate o.flags = true ∧ j = 2)) :
    (∀ n < count, channel + n = i →
      (o.channels count channel detune phase slot outputs).1.cell (phaseCell i j) =
        wrap (slot.cell (phaseCell i j) + o.phaseStep
          ((fun d : Signal => -d * 0.5)^[j] ((fun d : Signal => -d)^[n] detune)))) ∧
    ((∀ n < count, channel + n ≠ i) →
      (o.channels count channel detune phase slot outputs).1.cell (phaseCell i j) =
        slot.cell (phaseCell i j)) := by
  induction count generalizing channel detune phase slot outputs with
  | zero =>
    refine ⟨?_, fun _ => rfl⟩
    intro n none
    exact absurd none (Nat.not_lt_zero n)
  | succ count ih =>
    have room : phaseCell i j < 8 := by
      have := unison_le o.flags
      unfold phaseCell
      omega
    have alone : ¬ (isGate o.flags = true ∧ gateCell channel = phaseCell i j) := by
      rintro ⟨gate, memory⟩
      apply apart ⟨gate, ?_⟩
      unfold gateCell phaseCell at memory
      omega
    obtain ⟨own, others⟩ := soundAll_cell waves (unison o.flags) 0 detune phase 0.0 slot room alone
    unfold channels
    simp only
    obtain ⟨later, rest⟩ := ih (channel + 1) (-detune)
      (o.soundAll channel (unison o.flags) 0 detune phase 0.0 slot).2.1
      (o.soundAll channel (unison o.flags) 0 detune phase 0.0 slot).1
      ((o.soundAll channel (unison o.flags) 0 detune phase 0.0 slot).2.2 :: outputs) (by omega)
    have elsewhere : channel ≠ i → ∀ k ≤ unison o.flags, phaseCell channel (0 + k) ≠ phaseCell i j := by
      intro other k _ same
      unfold phaseCell at same
      omega
    refine ⟨?_, ?_⟩
    · intro n few here
      cases n with
      | zero =>
        rw [Nat.add_zero] at here
        subst here
        rw [rest, own j hj (by rw [Nat.zero_add])]
        · rfl
        · intro n _
          omega
      | succ n =>
        rw [later n (by omega) (by omega), others (elsewhere (by omega))]
        rfl
    · intro other
      rw [rest, others (elsewhere (other 0 (by omega)))]
      intro n few
      have := other (n + 1) (by omega)
      omega

/-- In a frame, each phase that does not lie where a gate remembers its level moves by the tuning of
the oscillator. -/
theorem run_cell {count : Nat} (two : count ≤ 2) (slot : Slot) (stack : List Signal) {i j : Nat}
    (hi : i < count) (hj : j ≤ unison o.flags) (apart : ¬ (isGate o.flags = true ∧ j = 2)) :
    (o.run count slot stack).1.cell (phaseCell i j) =
      o.tuning.move i j (slot.cell (phaseCell i j)) := by
  obtain ⟨own, -⟩ := channels_cell waves count 0 (bipolar o.detune) o.phase slot stack
    (by omega) (show i < 2 by omega) hj apart
  exact own i hi (Nat.zero_add i)

end Oscillator

end ModularSynth
