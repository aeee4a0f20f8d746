-- Whose memory the slots of a synth hold. What a unit remembers stays in its slot when a synth
-- takes a patch with the same opcodes. As long as each voice goes on to play what it has played,
-- every unit finds in its slot only what units of its own opcode have left there.
import ModularSynth.Proofs.FrameStarts
import ModularSynth.Proofs.Sessions
import ModularSynth.Proofs.UnitFrames
import ModularSynth.Proofs.VoiceCode

namespace ModularSynth

/-! ## What units leave -/

/-- A slot holds what units of an opcode have left there, one after the other, from a fresh slot on.
What is sent to the ports in between makes no difference. -/
inductive LeftBy (op : UInt8) : Slot → Prop
  | fresh : LeftBy op {}
  | sent {slot slot' : Slot} : LeftBy op slot → slot'.cells = slot.cells → LeftBy op slot'
  | done {p : Program} {voice place : Nat} {s t : Moment} :
    LeftBy op (s.machine.slot voice place) → (p.runUnit voice place op).run s = .ok () t →
      LeftBy op (t.machine.slot voice place)
  | failed {p : Program} {voice place : Nat} {s t : Moment} {e : RenderFault} :
    LeftBy op (s.machine.slot voice place) → (p.runUnit voice place op).run s = .error e t →
      LeftBy op (t.machine.slot voice place)

theorem LeftBy.runUnit {op : UInt8} {voice place : Nat} {s : Moment}
    (h : LeftBy op (s.machine.slot voice place)) (p : Program) :
    Ends (p.runUnit voice place op) s (fun _ t => LeftBy op (t.machine.slot voice place))
      fun _ t => LeftBy op (t.machine.slot voice place) := by
  unfold Ends
  cases ran : (p.runUnit voice place op).run s with
  | ok _ t => exact .done h ran
  | error e t => exact .failed h ran

/-! ## Envelopes -/

namespace Envelope

/-- The stages of an envelope. -/
def IsStage (x : Signal) : Prop :=
  x = attackStage ∨ x = decayStage ∨ x = releaseStage

instance (x : Signal) : Decidable (IsStage x) :=
  inferInstanceAs (Decidable (_ ∨ _ ∨ _))

theorem step_stage (p : Params) (held : Bool) {stage : Signal} (level : Signal)
    (h : IsStage stage) : IsStage (step p held stage level).1 := by
  have next : IsStage (if held then stage else releaseStage) := by
    cases held
    · exact .inr (.inr rfl)
    · exact h
  unfold step
  generalize (if held then stage else releaseStage) = now at next ⊢
  simp only
  split
  · split
    · exact .inr (.inl rfl)
    · exact next
  · split
    · exact next
    · split
      · exact next
      · exact next

/-- The slot of an envelope says which stage it is in. -/
def Staged (slot : Slot) : Prop :=
  IsStage (slot.cell 0)

theorem Staged.congr {slot slot' : Slot} (h : Staged slot) (same : slot'.cells = slot.cells) :
    Staged slot' := by
  unfold Staged Slot.cell
  rw [same]
  exact h

/-- A slot holds a stage if it has held one before. -/
def KeepsStage (voice place : Nat) (s s' : Moment) : Prop :=
  Staged (s.machine.slot voice place) → Staged (s'.machine.slot voice place)

theorem KeepsStage.lasting (voice place : Nat) : Lasting (KeepsStage voice place) where
  refl _ h := h
  trans first later h := later (first h)
  operands _ _ h := h
  ready s v t count _ h :=
    h.congr (s.machine.cells_adjustSlot v t (fun s => s.cells_clearPorts count) voice place)

theorem run_keepsStage (u : RunningUnit) (hk : u.kind = .envelope) (p : Program) :
    Preserves (KeepsStage u.voice u.slot) (u.run p) := by
  unfold RunningUnit.run
  rw [hk]
  apply Preserves.modify
  intro s staged
  rw [Machine.slot_adjustSlot]
  split
  · have next := step_stage ⟨u.param 0, u.param 1, u.param 2, u.param 3⟩ u.held
      ((s.machine.slot u.voice u.slot).cell 1) staged
    have holds : ∀ (slot : Slot) (x y : Signal), ((slot.setCell 0 x).setCell 1 y).cell 0 = x := by
      intro slot x y
      simp [Slot.cell, Slot.setCell]
    unfold Staged RunningUnit.envelope
    simp only [holds]
    exact next
  · exact staged

end Envelope

/-- Where envelopes have been at work, there is a stage. -/
theorem LeftBy.staged {op : UInt8} (hk : CompiledUnit.kindOf? op = some .envelope) {slot : Slot}
    (h : LeftBy op slot) : Envelope.Staged slot := by
  have runs : ∀ (p : Program) (voice place : Nat),
      Preserves (Envelope.KeepsStage voice place) (p.runUnit voice place op) := by
    intro p voice place
    apply Program.runUnit_keeps (Envelope.KeepsStage.lasting voice place)
    intro kind named u same
    rintro rfl rfl
    rw [hk] at named
    cases named
    exact Envelope.run_keepsStage u same p
  induction h with
  | fresh => exact .inl rfl
  | sent _ same ih => exact ih.congr same
  | done _ ran ih => exact (runs _ _ _ _).of_ok ran ih
  | failed _ ran ih => exact (runs _ _ _ _).of_error ran ih

/-! ## Machines -/

/-- In the slots of each voice is what the opcodes of its code have left. -/
def Machine.OwnedBy (m : Machine) (code : Nat → List UInt8) : Prop :=
  ∀ voice place op, (code voice)[place]? = some op → LeftBy op (m.slot voice place)

namespace Machine.OwnedBy

variable {m m' : Machine} {code : Nat → List UInt8}

theorem of_voices (h : m.OwnedBy code) (same : m'.voices = m.voices) : m'.OwnedBy code := by
  intro voice place op hop
  rw [Machine.slot_of_voices same]
  exact h voice place op hop

/-- A slot may be made fresh at any time. -/
theorem of_slots (h : m.OwnedBy code)
    (slots : ∀ voice place, m'.slot voice place = m.slot voice place ∨ m'.slot voice place = {}) :
    m'.OwnedBy code := by
  intro voice place op hop
  rcases slots voice place with same | fresh
  · rw [same]
    exact h voice place op hop
  · rw [fresh]
    exact .fresh

theorem of_fresh (fresh : ∀ voice place, m.slot voice place = {}) : m.OwnedBy code := by
  intro voice place op _
  rw [fresh]
  exact .fresh

theorem trigger (h : m.OwnedBy code) (voice : Nat) (note : Note) :
    (m.trigger voice note).OwnedBy code := by
  apply h.of_slots
  intro v place
  unfold Machine.trigger Machine.slot
  rw [Machine.voice_adjustVoice]
  split
  · exact .inr (Voice.fresh_slot note true place)
  · exact .inl rfl

theorem release (h : m.OwnedBy code) (voice : Nat) : (m.release voice).OwnedBy code := by
  apply h.of_slots
  intro v place
  unfold Machine.release Machine.slot
  rw [Machine.voice_adjustVoice]
  split
  · exact .inl rfl
  · exact .inl rfl

end Machine.OwnedBy

theorem Machine.fresh_slot (lines voice place : Nat) : (fresh lines).slot voice place = {} := by
  unfold Machine.slot Machine.voice Machine.fresh
  by_cases inside : voice < maxVoices
  · simp only [Vector.getElem?_replicate, inside, if_true, Option.getD_some]
    exact Voice.fresh_slot 0 false place
  · simp only [Vector.getElem?_replicate, inside, if_false, Option.getD_none]
    exact Voice.fresh_slot 0 false place

/-! ## Runs -/

namespace Program

variable (p : Program) {code : Nat → List UInt8}

/-- Whatever a run comes to, all slots still hold what their opcodes have left. -/
def KeepsOwners {α : Type} (code : Nat → List UInt8) (x : Exec α) : Prop :=
  ∀ s : Moment, s.machine.OwnedBy code →
    Ends x s (fun _ t => t.machine.OwnedBy code) fun _ t => t.machine.OwnedBy code

theorem runUnit_owned {voice place : Nat} {op : UInt8} (own : (code voice)[place]? = some op) :
    KeepsOwners code (p.runUnit voice place op) := by
  intro s owned
  have both : ∀ t : Moment, LeftBy op (t.machine.slot voice place) → OtherCells voice place s t →
      t.machine.OwnedBy code := by
    intro t here others w q op' hop
    by_cases same : w = voice ∧ q = place
    · obtain ⟨rfl, rfl⟩ := same
      rw [own] at hop
      cases hop
      exact here
    · exact .sent (owned w q op' hop) (others w q same)
  exact (((owned voice place op own).runUnit p).and (p.runUnit_cells voice place op s)).mono
    (fun _ t h => both t h.1 h.2) fun _ t h => both t h.1 h.2

theorem runOpcodes_owned (voice place : Nat) {ops : List UInt8}
    (own : ∀ k op, ops[k]? = some op → (code voice)[place + k]? = some op) :
    KeepsOwners code (p.runOpcodes voice place ops) := by
  induction ops generalizing place with
  | nil =>
    intro s owned
    exact owned
  | cons op rest ih =>
    intro s owned
    have later : KeepsOwners code (p.runOpcodes voice (place + 1) rest) := by
      apply ih
      intro k op' hop
      rw [Nat.add_assoc, Nat.add_comm 1 k]
      exact own (k + 1) op' hop
    rw [runOpcodes, Ends.bind_iff]
    apply (p.runUnit_owned (own 0 op rfl) s owned).mono
    · intro _ t owned'
      exact later t owned'
    · intro _ _ owned'
      exact owned'

/-- A voice runs the units of its code, and goes on behind it. -/
theorem runUnits_owned (voice : Nat) {ops : List UInt8} (own : code voice = firstCode ops)
    (s : Moment) (owned : s.machine.OwnedBy code) :
    Ends (p.runUnits voice 0 ops) s (fun rest t => rest = laterCode ops ∧ t.machine.OwnedBy code)
      fun _ t => t.machine.OwnedBy code := by
  have units : KeepsOwners code (p.runOpcodes voice 0 (firstCode ops)) := by
    apply p.runOpcodes_owned
    intro k op hop
    rw [own, Nat.zero_add]
    exact hop
  rw [Ends.congr (p.runUnits_firstCode voice 0 ops s), Ends.bind_iff]
  apply (units s owned).mono
  · intro _ t owned'
    split
    · exact ⟨rfl, owned'⟩
    · exact owned'
  · intro _ _ owned'
    exact owned'

theorem runVoices_owned (left voice : Nat) {ops : List UInt8}
    (own : ∀ k c, (p.codesFrom left ops)[k]? = some c → code (voice + k) = c) :
    KeepsOwners code (p.runVoices left voice ops) := by
  induction left generalizing voice ops with
  | zero =>
    intro s owned
    exact owned
  | succ left ih =>
    intro s owned
    have here : code voice = firstCode ops := own 0 _ rfl
    have next : ∀ k c, (p.codesFrom left (if p.repeats left then ops else laterCode ops))[k]? =
        some c → code (voice + 1 + k) = c := by
      intro k c hc
      rw [Nat.add_assoc, Nat.add_comm 1 k]
      exact own (k + 1) c hc
    unfold runVoices
    simp only [Ends.bind_iff, Ends.get_iff]
    apply (p.runUnits_owned voice here s owned).mono
    · rintro _ t ⟨rfl, owned'⟩
      cases repeated : p.repeats left with
      | true =>
        rw [repeated] at next
        simp only [if_true, Ends.bind_iff, Ends.modify_iff]
        exact ih (voice + 1) next _ owned'
      | false =>
        rw [repeated] at next
        exact ih (voice + 1) next t owned'
    · intro _ _ owned'
      exact owned'

/-- What the voices play that a program has. -/
def Plays (code : Nat → List UInt8) : Prop :=
  ∀ v < p.bytecode.voices, code v = p.code v

theorem runFrame_owned (plays : p.Plays code) : KeepsOwners code p.runFrame := by
  intro s owned
  have codes : ∀ k c, (p.codesFrom p.bytecode.voices p.bytecode.opcodes)[k]? = some c →
      code (0 + k) = c := by
    intro k c hc
    have inside : k < p.bytecode.voices := by
      rw [← p.codesFrom_length p.bytecode.voices p.bytecode.opcodes]
      exact (List.getElem?_eq_some_iff.mp hc).1
    rw [Nat.zero_add, plays k inside, Program.code, hc]
    rfl
  unfold runFrame
  rw [Ends.bind_iff]
  apply (p.runVoices_owned p.bytecode.voices 0 codes s owned).mono
  · intro _ t owned'
    simp only [Ends.bind_iff, Ends.get_iff]
    split
    · exact owned'
    · split
      · exact owned'
      · exact owned'
  · intro _ _ owned'
    exact owned'

/-- Then all slots do so whenever a frame starts. -/
theorem starts_owned (plays : p.Plays code) {m : Machine} (owned : m.OwnedBy code) (frames : Nat)
    (maxTime : Int) : ∀ s ∈ p.starts m frames maxTime, s.machine.OwnedBy code := by
  apply p.starts_induction (·.machine.OwnedBy code) m frames maxTime owned
  rintro s s' ⟨t, ran, rfl⟩ before
  have after : t.machine.OwnedBy code := (p.runFrame_owned plays s before).of_ok ran
  exact after.of_voices rfl

end Program

/-! ## Sessions -/

namespace SynthSession

/-- Since its units were last fresh, each voice has played the same code whenever it was there. -/
inductive HasPlayed (options : SynthOptions) : (Nat → List UInt8) → SynthSession → Prop
  | create {code : Nat → List UInt8} {patch : Patch} {bpm : Nat} {synth : Synth} :
    Synth.create options patch bpm = .ok synth → synth.program.Plays code →
      HasPlayed options code ⟨patch, bpm, synth⟩
  | serve {code : Nat → List UInt8} {x : SynthSession} {request : SynthRequest} :
    HasPlayed options code x → (∀ patch bpm, request ≠ .update patch bpm) →
      HasPlayed options code (x.serve request)
  | update {code code' : Nat → List UInt8} {x : SynthSession} {patch : Patch} {bpm : Nat}
    {synth : Synth} : HasPlayed options code x → x.synth.update patch bpm = .ok synth →
      (synth.program.bytecode.opcodes = x.synth.program.bytecode.opcodes → code' = code) →
        synth.program.Plays code' → HasPlayed options code' ⟨patch, bpm, synth⟩

namespace HasPlayed

variable {options : SynthOptions} {code : Nat → List UInt8} {x : SynthSession}

theorem plays (h : x.HasPlayed options code) : x.synth.program.Plays code := by
  induction h with
  | create _ plays => exact plays
  | @serve _ x request _ other ih =>
    cases request with
    | trigger voice note => exact ih
    | release voice => exact ih
    | render buffer maxTime => exact ih
    | update patch bpm => exact absurd rfl (other patch bpm)
  | update _ _ _ plays => exact plays

/-- Then all slots hold what the voices there have left. -/
theorem owned (h : x.HasPlayed options code) : x.synth.machine.OwnedBy code := by
  induction h with
  | create made _ =>
    obtain ⟨b, -, rfl⟩ := Synth.create_compiled made
    exact .of_fresh (Machine.fresh_slot _)
  | @serve code x request before other ih =>
    cases request with
    | trigger voice note => exact ih.trigger voice note
    | release voice => exact ih.release voice
    | render buffer maxTime =>
      apply x.synth.program.render_keeps (I := (·.OwnedBy code)) _ _ ih
      · intro s
        exact x.synth.program.runFrame_owned before.plays s
      · intro m owned
        exact owned.of_voices rfl
    | update patch bpm => exact absurd rfl (other patch bpm)
  | @update code code' x patch bpm synth _ updated keeps _ ih =>
    obtain ⟨b, -, rfl⟩ := Synth.update_compiled updated
    by_cases kept : b.opcodes = x.synth.program.bytecode.opcodes
    · rw [keeps kept]
      exact ih.of_voices (x.synth.load_same _ kept)
    · exact .of_fresh (x.synth.load_other _ kept)

end HasPlayed

/-- Each update that has kept the opcodes has left each voice with what it plays, if it was there
both before and after. -/
inductive Steady (options : SynthOptions) : SynthSession → Prop
  | create {patch : Patch} {bpm : Nat} {synth : Synth} : patch.StereoFlags →
    Synth.create options patch bpm = .ok synth → Steady options ⟨patch, bpm, synth⟩
  | serve {x : SynthSession} {request : SynthRequest} : Steady options x →
    (∀ patch bpm synth, request = .update patch bpm → x.synth.update patch bpm = .ok synth →
      patch.StereoFlags ∧ (synth.program.bytecode.opcodes = x.synth.program.bytecode.opcodes →
        ∀ v < x.synth.program.bytecode.voices, v < synth.program.bytecode.voices →
          synth.program.code v = x.synth.program.code v)) →
      Steady options (x.serve request)

namespace Steady

variable {options : SynthOptions} {x : SynthSession}

theorem reached (h : x.Steady options) : x.Reached options := by
  induction h with
  | create _ made => exact .create made
  | serve _ _ ih => exact .serve _ ih

theorem flags (h : x.Steady options) : x.patch.StereoFlags := by
  induction h with
  | create flags _ => exact flags
  | @serve x request _ steady ih =>
    cases request with
    | trigger voice note => exact ih
    | release voice => exact ih
    | render buffer maxTime => exact ih
    | update patch bpm =>
      rcases x.serve_update patch bpm with same | ⟨b, -, updated, served⟩
      · rw [same]
        exact ih
      · rw [served]
        exact (steady patch bpm _ rfl updated).1

/-- Then a voice plays the same even if it was gone for some patches in between. All patches with
the same opcodes have as many instruments, so what it has played before it was gone, and plays when
it is there again, is what the last one plays. -/
theorem hasPlayed (h : x.Steady options) : x.HasPlayed options x.synth.program.home := by
  induction h with
  | create _ made => exact .create made fun v hv => Compiled.home_of_lt v hv
  | @serve x request before steady ih =>
    cases request with
    | trigger voice note => exact .serve ih (by rintro _ _ ⟨⟩)
    | release voice => exact .serve ih (by rintro _ _ ⟨⟩)
    | render buffer maxTime => exact .serve ih (by rintro _ _ ⟨⟩)
    | update patch bpm =>
      rcases x.serve_update patch bpm with refused | ⟨b, compiled, updated, served⟩
      · rw [refused]
        exact ih
      · rw [served]
        obtain ⟨flags, same⟩ := steady patch bpm _ rfl updated
        apply HasPlayed.update ih updated
        · intro kept
          obtain ⟨_, h⟩ := Bytecode.compile_ok before.reached.compiled
          obtain ⟨_, h'⟩ := Bytecode.compile_ok compiled
          funext voice
          exact h.home_same h' before.flags flags kept (same kept) voice
        · intro v hv
          exact Compiled.home_of_lt v hv

end Steady

/-- What units remember is kept just if a new patch has the same opcodes. Then each voice plays,
before and after, the opcodes of its instrument in the one stream; so it plays the same if its
instrument is at the same place of both patches. As long as each voice has played the same code
whenever it was there, no unit ever finds in its slot what a unit of another opcode has left there,
neither between calls nor when a frame starts; and an envelope finds a stage of its own. It is enough
that each update that has kept the opcodes has left the voices that were there before and after with
what they play. -/
theorem update_keeps_units {options : SynthOptions} {x : SynthSession}
    (reached : x.Reached options) :
    (x.patch.StereoFlags → ∀ v i, x.patch.instrumentForVoice v = some i →
      ∃ block, x.synth.program.bytecode.blocks[i]? = some block ∧
        block.opcodes = x.synth.program.code v) ∧
    (∀ (patch : Patch) (bpm : Nat) (synth : Synth), x.synth.update patch bpm = .ok synth →
      (synth.program.bytecode.opcodes ≠ x.synth.program.bytecode.opcodes →
        ∀ v place, synth.machine.slot v place = {}) ∧
      (synth.program.bytecode.opcodes = x.synth.program.bytecode.opcodes →
        synth.machine.voices = x.synth.machine.voices ∧
        ∀ v i j, x.patch.instrumentForVoice v = some i → patch.instrumentForVoice v = some j →
          x.synth.program.code v = instrumentCode x.synth.program.bytecode.opcodes i ∧
          synth.program.code v = instrumentCode x.synth.program.bytecode.opcodes j)) ∧
    (∀ code, x.HasPlayed options code → x.synth.program.Plays code ∧
      ∀ v place op, (code v)[place]? = some op →
        (LeftBy op (x.synth.machine.slot v place) ∧ ∀ (frames : Nat) (maxTime : Int),
          ∀ s ∈ x.synth.program.starts x.synth.machine frames maxTime,
            LeftBy op (s.machine.slot v place)) ∧
        (CompiledUnit.kindOf? op = some .envelope →
          (x.synth.machine.slot v place).cell 0 = 0.0 ∨
            (x.synth.machine.slot v place).cell 0 = 1.0 ∨
              (x.synth.machine.slot v place).cell 0 = 3.0)) ∧
    (x.Steady options → x.HasPlayed options x.synth.program.home) := by
  obtain ⟨assembled, h⟩ := Bytecode.compile_ok reached.compiled
  refine ⟨?_, ?_, ?_, Steady.hasPlayed⟩
  · intro flags v i hi
    have hlt : i < x.synth.program.bytecode.blocks.length := by
      have inside := Patch.ownerOf_lt hi
      rw [List.length_map] at inside
      rw [h.blocks_length flags]
      exact inside
    refine ⟨_, List.getElem?_eq_getElem hlt, ?_⟩
    rw [h.code_eq hi, (h.streams flags).1]
    exact (CodeBlock.instrumentCode_stream (h.blocks_framed flags)
      (List.getElem?_eq_getElem hlt)).symm
  · intro patch bpm synth updated
    obtain ⟨b, compiled, rfl⟩ := Synth.update_compiled updated
    obtain ⟨_, h'⟩ := Bytecode.compile_ok compiled
    refine ⟨x.synth.load_other _, ?_⟩
    intro kept
    refine ⟨x.synth.load_same _ kept, ?_⟩
    intro v i j hi hj
    have new : (x.synth.load b patch.numDelayLines).program.code v = instrumentCode b.opcodes j :=
      Compiled.code_eq h' hj
    have same : b.opcodes = x.synth.program.bytecode.opcodes := kept
    rw [new, same]
    exact ⟨h.code_eq hi, rfl⟩
  · intro code played
    refine ⟨played.plays, ?_⟩
    intro v place op hop
    have left := played.owned v place op hop
    refine ⟨⟨left, ?_⟩, left.staged⟩
    intro frames maxTime s hs
    exact x.synth.program.starts_owned played.plays played.owned frames maxTime s hs v place op hop

/-- Two instruments that share some voices, one that holds a signal and one with an envelope. -/
def sharedPatch (first second gain : Nat) : Patch where
  instruments := [
    { numVoices := first
      units := [
        { kindName := "loadval", settings := .ofEntries [("value", 128)] },
        { kindName := "hold", settings := .ofEntries [("holdfreq", 64)] },
        { kindName := "pop", settings := .ofEntries [] }] },
    { numVoices := second
      units := [
        { kindName := "loadval", settings := .ofEntries [("value", 128)] },
        { kindName := "envelope", settings := .ofEntries [("attack", 64), ("decay", 64),
          ("sustain", 128), ("release", 64), ("gain", 128)] },
        { kindName := "out", settings := .ofEntries [("gain", gain)] },
        { kindName := "pop", settings := .ofEntries [] }] }]

/-- An envelope is at work, and its instrument gets louder. -/
theorem update_keeps_units_louder : ∃ x : SynthSession, x.Steady {} ∧
    x.patch = sharedPatch 1 2 128 ∧ (x.synth.program.home 2)[1]? = some 20 ∧
      CompiledUnit.kindOf? 20 = some .envelope ∧ LeftBy 20 (x.synth.machine.slot 2 1) := by
  obtain ⟨s, b, made, compiled, codes, place⟩ : ∃ s b,
      Synth.create {} (sharedPatch 1 2 64) 100 = .ok s ∧
      Bytecode.compile (sharedPatch 1 2 128) .all 100 = .ok b ∧
      (∀ v < s.program.bytecode.voices,
        ({ s.program with bytecode := b } : Program).code v = s.program.code v) ∧
      (({ s.program with bytecode := b } : Program).home 2)[1]? = some 20 :=
    ⟨_, _, rfl, rfl, by decide +kernel, by decide +kernel⟩
  let x := ((mk (sharedPatch 1 2 64) 100 s).serve (.trigger 2 64)).serve (.render (.silent 2) 2)
  have played : x.Steady {} := by
    refine .serve (.serve (.create (by decide +kernel) made) ?_) ?_
    · rintro patch bpm synth ⟨⟩
    · rintro patch bpm synth ⟨⟩
  have updated := x.synth.update_of_compiles compiled
  have louder : Steady {} ⟨sharedPatch 1 2 128, 100,
      x.synth.load b (sharedPatch 1 2 128).numDelayLines⟩ := by
    rw [← serve_update_of_ok updated]
    refine .serve played ?_
    rintro patch bpm synth ⟨⟩ taken
    obtain rfl := Except.ok.inj (updated.symm.trans taken)
    exact ⟨by decide +kernel, fun _ v hv _ => codes v hv⟩
  obtain ⟨-, -, owned, played⟩ := update_keeps_units louder.reached
  exact ⟨_, louder, rfl, place, by decide, ((owned _ (played louder)).2 2 1 20 place).1.1⟩

/-- A voice goes over from one instrument to the other. The opcodes are the same, so its units find
what those of the other instrument have left, and the envelope is in no stage. -/
theorem update_keeps_units_shared : ∃ x : SynthSession, x.Reached {} ∧ ∃ synth,
    x.synth.update (sharedPatch 1 2 128) 100 = .ok synth ∧
      synth.machine.voices = x.synth.machine.voices ∧
      1 < x.synth.program.bytecode.voices ∧ 1 < synth.program.bytecode.voices ∧
      synth.program.code 1 ≠ x.synth.program.code 1 ∧
      (synth.program.code 1)[1]?.bind CompiledUnit.kindOf? = some .envelope ∧
      ¬ Envelope.IsStage ((synth.machine.slot 1 1).cell 0) := by
  obtain ⟨s, b, made, compiled, same, voices, code, kind, stage⟩ : ∃ s b,
      Synth.create {} (sharedPatch 2 1 128) 100 = .ok s ∧
      Bytecode.compile (sharedPatch 1 2 128) .all 100 = .ok b ∧
      b.opcodes = s.program.bytecode.opcodes ∧ (1 < s.program.bytecode.voices ∧ 1 < b.voices) ∧
      ({ s.program with bytecode := b } : Program).code 1 ≠ s.program.code 1 ∧
      (({ s.program with bytecode := b } : Program).code 1)[1]?.bind CompiledUnit.kindOf? =
        some .envelope ∧
      ¬ Envelope.IsStage ((((s.trigger 1 64).render (.silent 1) 1).1.machine.slot 1 1).cell 0) :=
    ⟨_, _, rfl, rfl, by decide +kernel, by decide +kernel, by decide +kernel, by decide +kernel,
      by decide +kernel⟩
  have kept := ((s.trigger 1 64).render (.silent 1) 1).1.load_same
    (sharedPatch 1 2 128).numDelayLines same
  refine ⟨_, .serve (.render (.silent 1) 1) (.serve (.trigger 1 64) (.create made)), _,
    ((s.trigger 1 64).render (.silent 1) 1).1.update_of_compiles compiled, kept, voices.1, voices.2,
    code, kind, ?_⟩
  rw [Machine.slot_of_voices kept]
  exact stage

end SynthSession

end ModularSynth
