-- The phases of oscillators from frame to frame. In each frame a phase moves by the tuning that its
-- oscillator has then; so what a session has made of it follows from the tunings in the frames of
-- the session, and from when its voice has started to play. The third sounding of a gate has no phase
-- of its own.
import ModularSynth.Proofs.FrameStarts
import ModularSynth.Proofs.OwnOpcodes
import ModularSynth.Proofs.Recordings
import ModularSynth.Proofs.Sessions
import ModularSynth.Proofs.Tunings
import ModularSynth.Proofs.UnitFrames

namespace ModularSynth

open Assembly

/-! ## Turns of oscillators -/

/-- The phase of a sounding of a unit. -/
def Machine.phase (m : Machine) (voice slot channel sounding : Nat) : Signal :=
  (m.slot voice slot).cell (Oscillator.phaseCell channel sounding)

/-- What moves the phases of an oscillator, given what it remembers. -/
def RunningUnit.tuning (u : RunningUnit) (slot : Slot) : Tuning where
  transpose := u.param 0
  detune := u.param 1
  slow := Oscillator.isSlow (u.extra 0)
  note := u.note
  frequency := slot.port 6

namespace Turn

/-- Is it the turn of the unit in a slot of a voice? -/
def isAt (t : Turn) (voice slot : Nat) : Bool :=
  t.unit.voice == voice && t.unit.slot == slot

def tuning (t : Turn) : Tuning :=
  t.unit.tuning (t.moment.machine.slot t.unit.voice t.unit.slot)

/-- The unit is an oscillator, which plays no recording, and keeps the phase of a sounding. In a gate,
the third sounding keeps none. -/
structure Moves (t : Turn) (channel sounding : Nat) : Prop where
  voice : t.unit.voice < maxVoices
  slot : t.unit.slot < maxUnits
  kind : t.unit.kind = .oscillator
  waves : Oscillator.isRecording (t.unit.extra 0) = false
  inside : channel < t.unit.channels
  sounds : sounding ≤ Oscillator.unison (t.unit.extra 0)
  apart : ¬ (Oscillator.isGate (t.unit.extra 0) = true ∧ sounding = 2)

/-- The turn moves the phase by its tuning, and cannot fail. -/
theorem Moves.run {t : Turn} {i j : Nat} (h : t.Moves i j) (p : Program) :
    ∃ s, (t.unit.run p).run t.moment = .ok () s ∧
      s.machine.phase t.unit.voice t.unit.slot i j =
        t.tuning.move i j (t.moment.machine.phase t.unit.voice t.unit.slot i j) := by
  unfold RunningUnit.run
  rw [h.kind]
  unfold RunningUnit.runOscillator
  simp only [h.waves]
  refine ⟨_, rfl, ?_⟩
  have moved := Oscillator.run_cell
    (o := t.unit.oscillator p ((p.bytecode.sampleOffsets[(t.unit.byte 3).toNat]?).getD default)
      (t.moment.machine.slot t.unit.voice t.unit.slot))
    h.waves t.unit.channels_le (t.moment.machine.slot t.unit.voice t.unit.slot) t.moment.stack
    h.inside h.sounds h.apart
  unfold Machine.phase
  rw [Machine.slot_adjustSlot, if_pos ⟨rfl, rfl, h.voice, h.slot⟩]
  exact moved

end Turn

/-! ## Frames -/

namespace Program

variable (p : Program)

/-- The tunings of the turns that the unit in a slot of a voice has in a frame. -/
def tunings (s : Moment) (voice slot : Nat) : List Tuning :=
  ((p.turns s).filter (·.isAt voice slot)).map (·.tuning)

/-- Whoever has a turn in a slot of a voice moves the phase of a sounding. -/
def Moves (s : Moment) (voice slot channel sounding : Nat) : Prop :=
  ∀ t ∈ p.turns s, t.isAt voice slot = true → t.Moves channel sounding

end Program

/-- In some turns, phases have moved by the tunings of these turns. -/
def PhasesMoved (ts : List Turn) (s s' : Moment) : Prop :=
  ∀ voice slot channel sounding,
    (∀ t ∈ ts, t.isAt voice slot = true → t.Moves channel sounding) →
      s'.machine.phase voice slot channel sounding =
        ((ts.filter (·.isAt voice slot)).map (·.tuning)).foldl
          (fun phase tuning => tuning.move channel sounding phase)
          (s.machine.phase voice slot channel sounding)

theorem Machine.phase_of_cells {m m' : Machine} {voice slot : Nat}
    (same : (m'.slot voice slot).cells = (m.slot voice slot).cells) (channel sounding : Nat) :
    m'.phase voice slot channel sounding = m.phase voice slot channel sounding := by
  unfold Machine.phase Slot.cell
  rw [same]

theorem PhasesMoved.append {ts us : List Turn} {a b c : Moment} (first : PhasesMoved ts a b)
    (later : PhasesMoved us b c) : PhasesMoved (ts ++ us) a c := by
  intro v q i j moves
  obtain ⟨here, there⟩ := List.forall_mem_append.mp moves
  rw [later v q i j there, first v q i j here, List.filter_append, List.map_append,
    List.foldl_append]

/-- A unit moves its own phases, and those of other units stay. -/
theorem PhasesMoved.turn {t : Turn} {s : Moment}
    (leaves : Leaves t.unit.kind t.unit.voice t.unit.slot t.moment s)
    (own : ∀ i j, t.Moves i j → s.machine.phase t.unit.voice t.unit.slot i j =
      t.tuning.move i j (t.moment.machine.phase t.unit.voice t.unit.slot i j)) :
    PhasesMoved [t] t.moment s := by
  intro v q i j moves
  rw [List.filter_cons, List.filter_nil]
  cases here : t.isAt v q with
  | true =>
    obtain ⟨rfl, rfl⟩ : t.unit.voice = v ∧ t.unit.slot = q := by
      simpa [Turn.isAt] using here
    exact own i j (moves t List.mem_cons_self here)
  | false =>
    apply Machine.phase_of_cells
    apply leaves.cells
    rintro ⟨rfl, rfl⟩
    simp [Turn.isAt] at here

namespace Program

variable (p : Program)

theorem phases_addUp : AddsUp p PhasesMoved PhasesMoved where
  idle := {
    refl := fun _ _ _ _ _ _ => rfl
    trans := fun first later v q i j h => (later v q i j h).trans (first v q i j h)
    operands := fun _ _ _ _ _ _ _ => rfl
    ready := fun s v q count _ w r i j _ => Machine.phase_of_cells
      (s.machine.cells_adjustSlot v q (fun slot => slot.cells_clearPorts count) w r) i j }
  append first later := first.append later
  stop moved := moved
  fail first later := first.append later
  turn t _ := by
    have leaves := t.unit.run_leaves p t.moment
    unfold Ends at leaves ⊢
    cases ran : (t.unit.run p).run t.moment with
    | ok _ s =>
      rw [ran] at leaves
      apply PhasesMoved.turn leaves
      intro i j moves
      obtain ⟨s', same, moved⟩ := moves.run p
      rw [ran] at same
      cases same
      exact moved
    | error e s =>
      rw [ran] at leaves
      apply PhasesMoved.turn leaves
      intro i j moves
      obtain ⟨s', same, -⟩ := moves.run p
      rw [ran] at same
      cases same

/-- However a frame ends, the phases that its turns move have moved by their tunings. -/
theorem leaves_phase {s : Moment} {voice slot channel sounding : Nat}
    (moves : p.Moves s voice slot channel sounding) :
    (p.leaves s).phase voice slot channel sounding =
      (p.tunings s voice slot).foldl (fun phase tuning => tuning.move channel sounding phase)
        (s.machine.phase voice slot channel sounding) := by
  have frame := runFrame_addsUp p.phases_addUp s
  unfold Ends at frame
  cases ran : p.runFrame.run s with
  | ok _ t =>
    rw [ran] at frame
    rw [leaves_of_ok ran]
    exact frame voice slot channel sounding moves
  | error e t =>
    rw [ran] at frame
    rw [leaves_of_error ran]
    exact frame voice slot channel sounding moves

/-- From frame to frame, a phase moves by the tuning of each. -/
theorem startsFrom_phase {voice slot channel sounding : Nat} (maxTime : Int) (frames : Nat)
    (s : Moment)
    (moves : ∀ s' ∈ p.startsFrom maxTime frames s, p.Moves s' voice slot channel sounding) :
    (((p.startsFrom maxTime frames s).getLast?.map p.leaves).getD s.machine).phase
        voice slot channel sounding =
      ((p.startsFrom maxTime frames s).flatMap (p.tunings · voice slot)).foldl
        (fun phase tuning => tuning.move channel sounding phase)
        (s.machine.phase voice slot channel sounding) := by
  induction frames generalizing s with
  | zero => rfl
  | succ frames ih =>
    by_cases time : s.time < maxTime
    · cases ran : p.runFrame.run s with
      | error e t =>
        rw [p.startsFrom_of_error time ran] at moves ⊢
        have here := p.leaves_phase (moves s List.mem_cons_self)
        rw [List.flatMap_singleton, ← here]
        rfl
      | ok _ t =>
        rw [p.startsFrom_leaves time ran]
        rw [p.startsFrom_of_ok time ran] at moves ⊢
        have here := p.leaves_phase (moves s List.mem_cons_self)
        have left : (p.next t).machine = p.leaves s := (leaves_of_ok ran).symm
        rw [List.flatMap_cons, List.foldl_append, ← here, ← left]
        exact ih (p.next t) fun s' h => moves s' (List.mem_cons_of_mem _ h)
    · rw [p.startsFrom_ended (.inr (Int.not_lt.mp time))]
      rfl

/-- What a rendering makes of a phase. -/
theorem render_phase {m : Machine} {frames : Nat} {maxTime : Int}
    {voice slot channel sounding : Nat}
    (moves : ∀ s ∈ p.starts m frames maxTime, p.Moves s voice slot channel sounding) :
    (p.render m frames maxTime).machine.phase voice slot channel sounding =
      ((p.starts m frames maxTime).flatMap (p.tunings · voice slot)).foldl
        (fun phase tuning => tuning.move channel sounding phase)
        (m.phase voice slot channel sounding) := by
  rw [p.render_machine m frames maxTime]
  exact p.startsFrom_phase maxTime frames _ moves

end Program

/-! ## Sessions -/

/-- What happens to the phases of a unit. They start anew when the voice starts to play a note or
the unit forgets all that it remembers, and a frame moves them. -/
inductive PhaseChange
  | reset
  | frame (tuning : Tuning)

/-- The phase of a sounding after a change. -/
def PhaseChange.apply (channel sounding : Nat) : Signal → PhaseChange → Signal
  | _, .reset => 0.0
  | phase, .frame tuning => tuning.move channel sounding phase

theorem Slot.cell_fresh (c : Nat) : Slot.cell {} c = 0.0 := by
  unfold Slot.cell
  by_cases inside : c < 8
  · simp [inside]
  · simp [inside]

theorem Machine.slot_trigger (m : Machine) (voice : Nat) (note : Note) (v q : Nat) :
    (m.trigger voice note).slot v q = if voice = v then {} else m.slot v q := by
  unfold Machine.slot Machine.trigger
  rw [voice_adjustVoice]
  by_cases same : voice = v
  · rw [if_pos same]
    by_cases inside : v < maxVoices
    · rw [if_pos ⟨same, inside⟩]
      exact Voice.fresh_slot note true q
    · rw [if_neg (fun h => inside h.2)]
      unfold Machine.voice
      rw [Vector.getElem?_eq_none (Nat.le_of_not_lt inside)]
      exact Voice.fresh_slot 0 false q
  · rw [if_neg same, if_neg (fun h => same h.1)]

theorem Machine.slot_release (m : Machine) (voice v q : Nat) :
    (m.release voice).slot v q = m.slot v q := by
  unfold Machine.slot Machine.release
  rw [voice_adjustVoice]
  split <;> rfl

namespace SynthSession

/-- What a request does to the phases of the unit in a slot of a voice. -/
def phaseChanges (x : SynthSession) (voice slot : Nat) : SynthRequest → List PhaseChange
  | .trigger v _ => if v = voice then [.reset] else []
  | .release _ => []
  | .update patch bpm =>
    match Bytecode.compile patch .all bpm with
    | .error _ => []
    | .ok b => if b.opcodes = x.synth.program.bytecode.opcodes then [] else [.reset]
  | .render buffer maxTime =>
    ((x.synth.program.starts x.synth.machine buffer.length maxTime).flatMap
      (x.synth.program.tunings · voice slot)).map .frame

theorem serve_phase (x : SynthSession) (request : SynthRequest) {voice slot channel sounding : Nat}
    (moves : ∀ s ∈ x.starts request, x.synth.program.Moves s voice slot channel sounding) :
    (x.serve request).synth.machine.phase voice slot channel sounding =
      (x.phaseChanges voice slot request).foldl (PhaseChange.apply channel sounding)
        (x.synth.machine.phase voice slot channel sounding) := by
  cases request with
  | trigger v note =>
    unfold serve Synth.trigger phaseChanges Machine.phase
    simp only [Machine.slot_trigger]
    by_cases same : v = voice
    · rw [if_pos same, if_pos same]
      exact Slot.cell_fresh _
    · rw [if_neg same, if_neg same]
      rfl
  | release v =>
    unfold serve Synth.release Machine.phase
    simp only [Machine.slot_release]
    rfl
  | update patch bpm =>
    unfold serve Synth.update phaseChanges
    simp only
    cases compiled : Bytecode.compile patch .all bpm with
    | error e => rfl
    | ok b =>
      change ((x.synth.load b patch.numDelayLines).machine.phase _ _ _ _) = _
      by_cases same : b.opcodes = x.synth.program.bytecode.opcodes
      · simp only [if_pos same]
        unfold Machine.phase
        rw [Machine.slot_of_voices (x.synth.load_same _ same)]
        rfl
      · simp only [if_neg same]
        unfold Machine.phase
        rw [x.synth.load_other _ same]
        exact Slot.cell_fresh _
  | render buffer maxTime =>
    have moved := x.synth.program.render_phase moves
    unfold serve phaseChanges
    simp only
    rw [List.foldl_map]
    exact moved

/-- What some requests do to the phases of the unit in a slot of a voice. -/
def phaseHistory (voice slot : Nat) : SynthSession → List SynthRequest → List PhaseChange
  | _, [] => []
  | x, request :: rest =>
    x.phaseChanges voice slot request ++ (x.serve request).phaseHistory voice slot rest

/-- Something is true of the patch whenever something is asked for. -/
def Throughout (holds : Patch → Prop) : SynthSession → List SynthRequest → Prop
  | _, [] => True
  | x, request :: rest => holds x.patch ∧ (x.serve request).Throughout holds rest

end SynthSession

/-! ## Oscillators of a patch -/

/-- The unit in a slot of a voice is an oscillator, which plays no recording, and keeps the phase of a
sounding. In a gate, the third sounding keeps none. -/
structure Patch.HasPhase (patch : Patch) (voice slot channel sounding : Nat) : Prop where
  stereo : patch.StereoFits
  unit : ∃ i k u, patch.instrumentForVoice voice = some i ∧ patch.unit? i k = some u ∧
    patch.slotOf i k = slot ∧ u.activeKind? = some .oscillator ∧ u.param "type" ≠ 4 ∧
    (0 ≤ u.param "unison" ∧ u.param "unison" ≤ 3) ∧ channel < (if u.isStereo then 2 else 1) ∧
    (sounding : Int) ≤ u.param "unison" ∧ ¬ (u.param "type" = 3 ∧ sounding = 2)

namespace Assembly

/-- What a machine reads from the flags of an oscillator. -/
theorem oscillatorFlags_reads {u : PatchUnit} (unison : 0 ≤ u.param "unison" ∧ u.param "unison" ≤ 3) :
    Oscillator.unison (operand (oscillatorFlags u)) = (u.param "unison").toNat ∧
      (Oscillator.isGate (operand (oscillatorFlags u)) = true → waveform? u = some .gate) := by
  have each : ∀ slow : Bool, ∀ n : Fin 4, ∀ wave : Option Waveform,
      let flags := operand (((wave.map (·.flag)).getD 0 : Nat) + (if slow then 0x08 else 0) +
        (n.val : Int))
      Oscillator.unison flags = n.val ∧ (Oscillator.isGate flags = true → wave = some .gate) := by
    intro slow n wave
    revert slow n
    rcases wave with _ | wave
    · decide
    · cases wave <;> decide
  have here := each (decide (u.param "lfo" = 1)) ⟨(u.param "unison").toNat, by omega⟩ (waveform? u)
  simp only [decide_eq_true_eq, Int.toNat_of_nonneg unison.1] at here
  exact here

theorem waveform?_eq_gate {u : PatchUnit} (gate : waveform? u = some .gate) :
    u.param "type" = 3 := by
  unfold waveform? Waveform.ofNumber? at gate
  repeat' split at gate
  all_goals first | assumption | cases gate

end Assembly

/-! ## One turn in a frame -/

/-- Where no two elements are chosen, one that is chosen is the only one. -/
theorem filter_of_apart {α : Type} {chosen : α → Bool} {l : List α}
    (apart : l.Pairwise fun x y => ¬ (chosen x = true ∧ chosen y = true)) {a : α} (ha : a ∈ l)
    (here : chosen a = true) : l.filter chosen = [a] := by
  induction l with
  | nil => cases ha
  | cons x rest ih =>
    obtain ⟨first, later⟩ := List.pairwise_cons.mp apart
    rcases List.mem_cons.mp ha with rfl | behind
    · rw [List.filter_cons_of_pos here]
      congr 1
      rw [List.filter_eq_nil_iff]
      intro y hy again
      exact first y hy ⟨here, again⟩
    · rw [List.filter_cons_of_neg]
      · exact ih later behind
      · intro again
        exact first a behind ⟨again, here⟩

namespace Compiled

variable {patch : Patch} {bpm : Nat} {b : Bytecode} {assembled : List (List AssembledUnit)}

/-- The slot of an oscillator of the patch is a site. -/
theorem site_of_phase (h : Compiled patch bpm b assembled) {voice slot channel sounding : Nat}
    (has : patch.HasPhase voice slot channel sounding) :
    ∃ x ∈ b.sites, x.voice = voice ∧ x.slot = slot := by
  obtain ⟨i, k, u, owner, hu, rfl, oscillator, -⟩ := has.unit
  obtain ⟨active, -⟩ := PatchUnit.activeKind?_eq_some oscillator
  obtain ⟨kind, before, code, after, -, hb, first, count, -, -⟩ := h.linked_of_unit hu active
  have single : code.length = 1 := by
    rw [count, Patch.emittedCount, oscillator]
  obtain ⟨c, rfl⟩ := List.length_eq_one_iff.mp single
  refine ⟨⟨voice, patch.slotOf i k, c⟩, ?_, rfl, rfl⟩
  unfold Bytecode.sites Bytecode.sitesFrom
  refine List.mem_flatMap.mpr ⟨(i, voice), ?_, ?_⟩
  · rw [List.mem_zipIdx_iff_getElem?, h.blockNumber_of_voice]
    exact owner
  · refine List.mem_map.mpr ⟨(c, patch.slotOf i k), ?_, rfl⟩
    rw [List.mem_zipIdx_iff_getElem?, h.blocks_of_fits has.stereo, hb, Option.getD_some,
      List.getElem?_append_right (by omega), first, Nat.sub_self]
    rfl

/-- The turns of an oscillator of the patch are turns that move its phases. -/
theorem moves (h : Compiled patch bpm b assembled) {voice slot channel sounding : Nat}
    (has : patch.HasPhase voice slot channel sounding) {p : Program} (hp : p.bytecode = b)
    {s : Moment} (ho : s.operands = b.operands) : p.Moves s voice slot channel sounding := by
  intro t ht here
  obtain ⟨rfl, rfl⟩ : t.unit.voice = voice ∧ t.unit.slot = slot := by
    simpa [Turn.isAt] using here
  obtain ⟨i, k, u, owner, hu, place, oscillator, wave, unison, inside, sounds, apart⟩ := has.unit
  obtain ⟨active, named⟩ := PatchUnit.activeKind?_eq_some oscillator
  obtain ⟨i', block, owner', hb, stands⟩ :=
    h.code_at_site has.stereo (h.site_of_turn has.stereo hp ho ht)
  change patch.instrumentForVoice t.unit.voice = some i' at owner'
  change block[t.unit.slot]? = some t.site.code at stands
  obtain rfl : i' = i := Option.some.inj (owner'.symm.trans owner)
  obtain ⟨kind, before, code, after, hk, hb', first, count, -, own⟩ := h.linked_of_unit hu active
  obtain rfl : kind = .oscillator := Option.some.inj (hk.symm.trans named)
  obtain rfl : block = before ++ (code ++ after) := Option.some.inj (hb.symm.trans hb')
  have single : code.length = 1 := by
    rw [count, Patch.emittedCount, oscillator]
  obtain ⟨c, rfl⟩ := List.length_eq_one_iff.mp single
  have code : t.site.code = c := by
    rw [List.getElem?_append_right (by omega), first, place, Nat.sub_self] at stands
    exact (Option.some.inj stands).symm
  have own := own c (List.mem_singleton_self c)
  have fits := has.stereo.of_unit hu active
  have ready := (p.turns_ready ht).runs
  rw [code] at ready
  have operands := own.oscillator_operands
  rw [if_neg (fun sample => wave (waveform?_eq_sample.mp sample))] at operands
  obtain ⟨kind, -, extras⟩ := ready.operands (own.own_kind fits)
    (show c.operands = (oscillatorOperands u (u.param "color")).take 6 ++
      [operand (oscillatorFlags u)] from operands) rfl
  have flags : t.unit.extra 0 = operand (oscillatorFlags u) := by
    rw [RunningUnit.extra, extras]
    rfl
  obtain ⟨reads, gate⟩ := oscillatorFlags_reads unison
  refine ⟨?_, ?_, kind, ?_, ?_, ?_, ?_⟩
  · have voices := (patch.instrumentForVoice_isSome_iff t.unit.voice).mp (Option.isSome_of_eq_some owner)
    have := h.few
    omega
  · have short := h.linked_short _ (List.mem_of_getElem? hb)
    have := (List.getElem?_eq_some_iff.mp stands).1
    omega
  · rw [flags, Bool.eq_false_iff]
    intro recording
    exact wave (waveform?_eq_sample.mp (waveform_of_isRecording unison recording))
  · rw [RunningUnit.channels, ready.stereo, own.own_stereo fits]
    exact inside
  · rw [flags, reads]
    omega
  · rintro ⟨is_gate, third⟩
    rw [flags] at is_gate
    exact apart ⟨waveform?_eq_gate (gate is_gate), third⟩

/-- In a frame that does not fail, an oscillator of the patch has one turn. -/
theorem tunings_once (h : Compiled patch bpm b assembled) {voice slot channel sounding : Nat}
    (has : patch.HasPhase voice slot channel sounding) {p : Program} (hp : p.bytecode = b)
    {s t : Moment} (ho : s.operands = b.operands) (ran : p.runFrame.run s = .ok () t) :
    ∃ tuning, p.tunings s voice slot = [tuning] := by
  have turns := (h.frame_turns has.stereo hp ho).of_ok ran
  obtain ⟨x, hx, here⟩ := h.site_of_phase has
  have apart := b.sites_apart
  rw [← turns] at hx apart
  obtain ⟨turn, ht, rfl⟩ := List.mem_map.mp hx
  have once : (p.turns s).Pairwise fun x y =>
      ¬ (x.isAt voice slot = true ∧ y.isAt voice slot = true) := by
    apply (List.pairwise_map.mp apart).imp
    intro x y other both
    simp only [Turn.isAt, Bool.and_eq_true, beq_iff_eq] at both
    obtain ⟨⟨first, place⟩, second, place'⟩ := both
    rcases other with voices | slots
    · exact voices (first.trans second.symm)
    · exact slots (place.trans place'.symm)
  have alone : (p.turns s).filter (·.isAt voice slot) = [turn] := by
    apply filter_of_apart once ht
    simp only [Turn.isAt, Bool.and_eq_true, beq_iff_eq]
    exact here
  refine ⟨turn.tuning, ?_⟩
  unfold Program.tunings
  rw [alone]
  rfl

end Compiled

/-! ## Phases and tunings -/

namespace SynthSession

variable {options : SynthOptions} {x : SynthSession} {voice slot channel sounding : Nat}

/-- A request changes a phase as its history says. -/
theorem Reached.phase (reached : x.Reached options)
    (has : x.patch.HasPhase voice slot channel sounding) (request : SynthRequest) :
    (x.serve request).synth.machine.phase voice slot channel sounding =
      (x.phaseChanges voice slot request).foldl (PhaseChange.apply channel sounding)
        (x.synth.machine.phase voice slot channel sounding) := by
  obtain ⟨_, compiled⟩ := Bytecode.compile_ok reached.compiled
  apply x.serve_phase request
  intro s hs
  exact compiled.moves has rfl (x.starts_operands request s hs)

/-- So do all requests, one after the other. -/
theorem Reached.phaseHistory {requests : List SynthRequest} (reached : x.Reached options)
    (has : x.Throughout (·.HasPhase voice slot channel sounding) requests) :
    (x.serveAll requests).synth.machine.phase voice slot channel sounding =
      (x.phaseHistory voice slot requests).foldl (PhaseChange.apply channel sounding)
        (x.synth.machine.phase voice slot channel sounding) := by
  induction requests generalizing x with
  | nil => rfl
  | cons request rest ih =>
    obtain ⟨here, later⟩ := has
    have served := ih (.serve request reached) later
    unfold SynthSession.phaseHistory
    rw [List.foldl_append, ← reached.phase here request, ← served]
    rfl

end SynthSession

/-- The phases of oscillators do not depend on the shape of their waves. In a session, an oscillator
that plays no recording moves the phase of each of its soundings once in a frame, by the tuning that
it has then; the third sounding of a gate is left out. So what some requests make of a phase is told
by where it was before, by the tunings in all their frames and by when the voice has started to play
or the units have forgotten everything. Two sessions in which these are the same have the same phase
in the end, whatever else is different in the patches that they play. -/
theorem phases_follow_tunings {options : SynthOptions} {x : SynthSession}
    {voice slot channel sounding : Nat} (reached : x.Reached options)
    (has : x.patch.HasPhase voice slot channel sounding) :
    (∀ s t, s.operands = x.synth.program.bytecode.operands →
      x.synth.program.runFrame.run s = .ok () t →
        ∃ tuning, x.synth.program.tunings s voice slot = [tuning] ∧
          t.machine.phase voice slot channel sounding =
            tuning.move channel sounding (s.machine.phase voice slot channel sounding)) ∧
    ∀ requests, x.Throughout (·.HasPhase voice slot channel sounding) requests →
      (x.serveAll requests).synth.machine.phase voice slot channel sounding =
        (x.phaseHistory voice slot requests).foldl (PhaseChange.apply channel sounding)
          (x.synth.machine.phase voice slot channel sounding) ∧
      ∀ (options' : SynthOptions) (y : SynthSession) (requests' : List SynthRequest),
        y.Reached options' → y.Throughout (·.HasPhase voice slot channel sounding) requests' →
          y.synth.machine.phase voice slot channel sounding =
            x.synth.machine.phase voice slot channel sounding →
          y.phaseHistory voice slot requests' = x.phaseHistory voice slot requests →
            (y.serveAll requests').synth.machine.phase voice slot channel sounding =
              (x.serveAll requests).synth.machine.phase voice slot channel sounding := by
  refine ⟨?_, ?_⟩
  · intro s t operands ran
    obtain ⟨_, compiled⟩ := Bytecode.compile_ok reached.compiled
    obtain ⟨tuning, once⟩ := compiled.tunings_once has rfl operands ran
    have moved := x.synth.program.leaves_phase (compiled.moves has rfl operands)
    rw [Program.leaves_of_ok ran, once] at moved
    exact ⟨tuning, once, moved⟩
  · intro requests throughout
    have whole := reached.phaseHistory throughout
    refine ⟨whole, ?_⟩
    intro options' y requests' reached' throughout' first same
    rw [reached'.phaseHistory throughout', whole, first, same]

/-- A gate that sounds four times on each of two channels. -/
def choirPatch : Patch where
  instruments := [
    { units := [
        { kindName := "oscillator"
          settings := .ofEntries [("type", 3), ("color", 85), ("unison", 3), ("stereo", 1),
            ("transpose", 76), ("detune", 70), ("gain", 128)] },
        { kindName := "out", settings := .ofEntries [("gain", 64), ("stereo", 1)] }] }]

/-- The last sounding of a gate on the right, over two frames of a note. -/
theorem phases_follow_tunings_choir :
    ∃ x : SynthSession, x.Reached {} ∧ x.patch = choirPatch ∧ x.patch.HasPhase 0 0 1 3 ∧
      (∃ s t tuning, x.synth.program.runFrame.run s = .ok () t ∧
        x.synth.program.tunings s 0 0 = [tuning] ∧
          t.machine.phase 0 0 1 3 = tuning.move 1 3 (s.machine.phase 0 0 1 3)) ∧
      let requests := [.trigger 0 64, .render (.silent 2) 2]
      (x.serveAll requests).synth.machine.phase 0 0 1 3 =
        (x.phaseHistory 0 0 requests).foldl (PhaseChange.apply 1 3)
          (x.synth.machine.phase 0 0 1 3) := by
  obtain ⟨synth, made, first⟩ : ∃ synth, Synth.create {} choirPatch 100 = .ok synth ∧
      synth.program.fault? (synth.program.opening synth.machine Stack.start
        Moment.scratchStart 0) = none := ⟨_, rfl, by decide +kernel⟩
  have has : choirPatch.HasPhase 0 0 1 3 := by
    refine ⟨by decide +kernel, 0, 0, _, rfl, rfl, rfl, ?_⟩
    decide +kernel
  obtain ⟨t, ran⟩ := Program.fault?_eq_none.mp first
  have reached : SynthSession.Reached {} ⟨choirPatch, 100, synth⟩ := .create made
  obtain ⟨frame, session⟩ := phases_follow_tunings reached has
  obtain ⟨tuning, once, moved⟩ := frame _ t rfl ran
  exact ⟨_, reached, rfl, has, ⟨_, t, tuning, ran, once, moved⟩,
    (session [.trigger 0 64, .render (.silent 2) 2] ⟨has, has, trivial⟩).1⟩

end ModularSynth
