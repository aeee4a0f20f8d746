-- The loop of a frame, one opcode after the other. The machine reads on until all voices have come
-- to the end of their instrument, and may jump back at each end. But every end uses up a voice, and
-- between two ends there are no more opcodes than the longest instrument has. So a frame comes to
-- its end, or fails, after so many readings at most.
import ModularSynth.Proofs.Turns
import ModularSynth.Proofs.VoiceCode

namespace ModularSynth

/-! ## The longest instrument -/

/-- How many opcodes at most stand in a row without an end. -/
def longestBlock : List UInt8 → Nat
  | [] => 0
  | op :: rest => max (firstCode (op :: rest)).length (longestBlock rest)

theorem firstCode_length_le (ops : List UInt8) : (firstCode ops).length ≤ longestBlock ops := by
  cases ops with
  | nil => exact Nat.le_refl 0
  | cons op rest => exact Nat.le_max_left _ _

theorem longestBlock_suffix {later ops : List UInt8} (h : later <:+ ops) :
    longestBlock later ≤ longestBlock ops := by
  induction ops with
  | nil =>
    rw [List.suffix_nil.mp h]
  | cons op rest ih =>
    rcases List.suffix_cons_iff.mp h with rfl | h
    · exact Nat.le_refl _
    · exact Nat.le_trans (ih h) (Nat.le_max_right _ _)

theorem laterCode_suffix (ops : List UInt8) : laterCode ops <:+ ops :=
  (List.drop_suffix _ _).trans (List.dropWhile_suffix _)

theorem firstCode_end {op : UInt8} (last : op >>> 1 = 0) (rest : List UInt8) :
    firstCode (op :: rest) = [] := by
  simp [firstCode, endsInstrument, last]

theorem firstCode_unit {op : UInt8} (unit : op >>> 1 ≠ 0) (rest : List UInt8) :
    firstCode (op :: rest) = op :: firstCode rest := by
  simp [firstCode, endsInstrument, unit]

/-! ## Reading opcodes -/

/-- Where a machine is in its opcodes. The next voice may have to start where this one did. -/
structure Reader where
  /-- The place of the opcode that is read next. -/
  place : Nat
  voice : Nat
  slot : Nat
  /-- The number of voices that have not come to their end. -/
  left : Nat
  /-- The place where the voice began, and the operands that there were. -/
  start : Nat
  operands : List UInt8

namespace Program

variable (p : Program)

/-- Read an opcode, and run the unit if it is that of a unit. -/
def read (r : Reader) : Exec Reader := do
  match p.bytecode.opcodes[r.place]? with
  | none => throw .opcodesEnded
  | some op =>
    if op >>> 1 = 0 then
      if p.repeats (r.left - 1) then
        modify fun s => { s with operands := r.operands }
        return ⟨r.start, r.voice + 1, 0, r.left - 1, r.start, r.operands⟩
      else
        let operands := (← get).operands
        return ⟨r.place + 1, r.voice + 1, 0, r.left - 1, r.place + 1, operands⟩
    else
      p.runUnit r.voice r.slot op
      return { r with place := r.place + 1, slot := r.slot + 1 }

/-- Read until no voices are left, but at most so often. Gives whether there are none left. -/
def readAll : (count : Nat) → Reader → Exec Bool
  | 0, r => pure (r.left == 0)
  | count + 1, r => if r.left = 0 then pure true else do readAll count (← p.read r)

/-- The reader at the start of a frame. -/
def firstReader : Reader :=
  ⟨0, 0, 0, p.bytecode.voices, 0, p.bytecode.operands⟩

/-- What is left of a frame when a voice is in the middle of its opcodes. -/
def goOn (left voice slot : Nat) (ops start operands : List UInt8) : Exec Unit := do
  let rest ← p.runUnits voice slot ops
  if p.repeats left then
    modify fun s => { s with operands }
    p.runVoices left (voice + 1) start
  else p.runVoices left (voice + 1) rest

theorem runVoices_goOn (left voice : Nat) (ops : List UInt8) (s : Moment) :
    (p.runVoices (left + 1) voice ops).run s = (p.goOn left voice 0 ops ops s.operands).run s :=
  rfl

theorem readAll_none (count : Nat) {r : Reader} (none : r.left = 0) (s : Moment) :
    (p.readAll count r).run s = .ok true s := by
  cases count with
  | zero => simp [readAll, none]
  | succ count => simp [readAll, none]

/-- If the voices after this one can be read, the rest of this voice can be read with as many more
readings as it has opcodes, and one for its end. -/
theorem readAll_goOn (left : Nat) {enough : Nat}
    (later : ∀ voice place count s, enough ≤ count →
      (p.readAll count ⟨place, voice, 0, left, place, s.operands⟩).run s =
        (p.runVoices left voice (p.bytecode.opcodes.drop place) >>= fun _ => pure true).run s)
    (voice start : Nat) (operands : List UInt8) {ops : List UInt8} (slot place count : Nat)
    (s : Moment) (code : p.bytecode.opcodes.drop place = ops)
    (many : (firstCode ops).length + 1 + enough ≤ count) :
    (p.readAll count ⟨place, voice, slot, left + 1, start, operands⟩).run s =
      (p.goOn left voice slot ops (p.bytecode.opcodes.drop start) operands >>= fun _ =>
        pure true).run s := by
  obtain ⟨count, rfl⟩ : ∃ more, count = more + 1 := ⟨count - 1, by omega⟩
  induction ops generalizing slot place count s with
  | nil =>
    have none : p.bytecode.opcodes[place]? = none := by
      rw [← List.head?_drop, code]
      rfl
    simp only [readAll, read, none, goOn, runUnits]
    rfl
  | cons op rest ih =>
    have here : p.bytecode.opcodes[place]? = some op := by
      rw [← List.head?_drop, code]
      rfl
    have next : p.bytecode.opcodes.drop (place + 1) = rest := by
      rw [← List.drop_drop, code, List.drop_one, List.tail_cons]
    by_cases last : op >>> 1 = 0
    · rw [firstCode_end last, List.length_nil] at many
      have fewer : enough ≤ count := by omega
      cases again : p.repeats left with
      | true =>
        have back := later (voice + 1) start count { s with operands } fewer
        simp only [readAll, read, here, last, goOn, runUnits]
        simp only [Nat.succ_ne_zero, if_false, if_true, Nat.add_sub_cancel, again]
        exact back
      | false =>
        have on := later (voice + 1) (place + 1) count s fewer
        rw [next] at on
        simp only [readAll, read, here, last, goOn, runUnits]
        simp only [Nat.succ_ne_zero, if_false, if_true, Nat.add_sub_cancel, again]
        exact on
    · rw [firstCode_unit last, List.length_cons] at many
      obtain ⟨more, rfl⟩ : ∃ more, count = more + 1 := ⟨count - 1, by omega⟩
      rw [readAll, if_neg (Nat.succ_ne_zero left)]
      simp only [read, here, last, if_false, goOn, runUnits, EStateM.run_bind]
      cases (p.runUnit voice slot op).run s with
      | error e s' => rfl
      | ok _ s' =>
        have on := ih (slot + 1) (place + 1) s' next more (by omega)
        rw [goOn, EStateM.run_bind, EStateM.run_bind] at on
        exact on

/-- Voices are read to their end within the longest instrument, with its end, for each of them. -/
theorem readAll_voices (left voice place count : Nat) (s : Moment)
    (many : left * (longestBlock p.bytecode.opcodes + 1) ≤ count) :
    (p.readAll count ⟨place, voice, 0, left, place, s.operands⟩).run s =
      (p.runVoices left voice (p.bytecode.opcodes.drop place) >>= fun _ => pure true).run s := by
  induction left generalizing voice place count s with
  | zero => exact p.readAll_none count rfl s
  | succ left ih =>
    have short := Nat.le_trans (firstCode_length_le _)
      (longestBlock_suffix (List.drop_suffix place p.bytecode.opcodes))
    rw [Nat.succ_mul] at many
    rw [p.readAll_goOn left ih voice place s.operands 0 place count s rfl (by omega)]
    rw [EStateM.run_bind, EStateM.run_bind, p.runVoices_goOn]

/-- A frame is read to its end within the longest instrument, with its end, for each voice. -/
theorem readAll_frame {s : Moment} (ho : s.operands = p.bytecode.operands) :
    (p.readAll (p.bytecode.voices * (longestBlock p.bytecode.opcodes + 1)) p.firstReader).run s =
      (p.runVoices p.bytecode.voices 0 p.bytecode.opcodes >>= fun _ => pure true).run s := by
  have voices := p.readAll_voices p.bytecode.voices 0 0 _ s (Nat.le_refl _)
  rw [ho] at voices
  exact voices

/-! ## Units that are run -/

theorem turnsOfVoice_length (voice slot : Nat) (ops : List UInt8) (s : Moment) :
    (p.turnsOfVoice voice slot ops s).length ≤ (firstCode ops).length := by
  induction ops generalizing slot s with
  | nil => exact Nat.le_refl 0
  | cons op rest ih =>
    unfold turnsOfVoice
    by_cases last : op >>> 1 = 0
    · rw [if_pos last]
      exact Nat.zero_le _
    · rw [if_neg last, firstCode_unit last, List.length_cons]
      cases (prepare voice slot op).run s with
      | error e t => exact Nat.zero_le _
      | ok u t =>
        simp only [List.length_cons]
        cases (p.perform u).run t with
        | error e s' => exact Nat.succ_le_succ (Nat.zero_le _)
        | ok _ s' => exact Nat.succ_le_succ (ih (slot + 1) s')

theorem runUnits_rest (voice slot : Nat) (ops : List UInt8) (s : Moment) :
    Ends (p.runUnits voice slot ops) s (fun rest _ => rest = laterCode ops) fun _ _ => True := by
  rw [Ends.congr (p.runUnits_firstCode voice slot ops s), Ends.bind_iff]
  unfold Ends
  split
  · split
    · rfl
    · trivial
  · trivial

theorem turnsOfVoices_length {longest : Nat} (left voice : Nat) {ops : List UInt8} (s : Moment)
    (short : longestBlock ops ≤ longest) :
    (p.turnsOfVoices left voice ops s).length ≤ left * longest := by
  induction left generalizing voice ops s with
  | zero => exact Nat.zero_le _
  | succ left ih =>
    have units := p.turnsOfVoice_length voice 0 ops s
    have first := firstCode_length_le ops
    unfold turnsOfVoices
    rw [List.length_append, Nat.succ_mul]
    cases ran : (p.runUnits voice 0 ops).run s with
    | error e s' =>
      rw [List.length_nil]
      omega
    | ok rest s' =>
      have rest_eq := (p.runUnits_rest voice 0 ops s).of_ok ran
      have later := Nat.le_trans (longestBlock_suffix (laterCode_suffix ops)) short
      rw [← rest_eq] at later
      cases p.repeats left with
      | true =>
        have := ih (voice + 1) { s' with operands := s.operands } short
        simp only [if_true]
        omega
      | false =>
        have := ih (voice + 1) s' later
        simp only [Bool.false_eq_true, if_false]
        omega

/-- A frame runs no more units than the longest instrument has, for each voice. -/
theorem turns_length (s : Moment) :
    (p.turns s).length ≤ p.bytecode.voices * longestBlock p.bytecode.opcodes :=
  p.turnsOfVoices_length _ _ s (Nat.le_refl _)

end Program

end ModularSynth
