-- What is never heard: what sends have brought to port 7 of any unit, and all that is in voices
-- that no instrument plays. Sends that find no unit go there, so a synth that drops what they send
-- answers every call like one that delivers it.
import ModularSynth.Proofs.CoreStreams
import ModularSynth.Proofs.PortSeven
import ModularSynth.Proofs.SendDelivery

namespace ModularSynth

/-! ## Calls and answers -/

namespace Synth

/-- Render with a synth whose units run in a given way. -/
def renderBy (run : Program → RunningUnit → Exec Unit) (s : Synth) (buffer : Audio)
    (maxTime : Int) : Synth × Audio × RenderReport :=
  let r := s.program.render s.machine buffer.length maxTime (run s.program)
  ({ s with machine := r.machine }, buffer.overwrite r.frames, ⟨r.progress, r.fault⟩)

theorem renderBy_run : renderBy (fun p u => u.run p) = render := rfl

/-- The synth after a call, and its answer to it. Only rendering has one. -/
def answer (render : Synth → Audio → Int → Synth × Audio × RenderReport) (s : Synth) :
    SynthCall → Synth × Option (Audio × RenderReport)
  | .play (.release voice) => (s.release voice, none)
  | .play (.trigger voice note) => (s.trigger voice note, none)
  | .render buffer maxTime => ((render s buffer maxTime).1, some (render s buffer maxTime).2)

/-- The synth after some calls, and its answers to them. -/
def answers (render : Synth → Audio → Int → Synth × Audio × RenderReport) (s : Synth) :
    List SynthCall → Synth × List (Option (Audio × RenderReport))
  | [] => (s, [])
  | call :: calls =>
    let (s', first) := answer render s call
    let (s'', later) := answers render s' calls
    (s'', first :: later)

end Synth

/-! ## Frames -/

theorem Moment.HeardAlike.matching (voices : Nat) : Matching (Moment.HeardAlike voices) where
  stack := by
    rintro s _ ⟨m, -, rfl⟩
    rfl
  operands := by
    rintro s _ ⟨m, -, rfl⟩
    rfl
  take := by
    rintro s _ operands ⟨m, alike, rfl⟩
    exact ⟨m, alike, rfl⟩

namespace Program

/-- No parameter of a unit is modulated by port 7. -/
theorem operandCount_le_six (kind : UnitKind) : kind.operandCount ≤ 6 := by
  cases kind <;> decide

theorem params_heardAlike {s t : Slot} (alike : s.HeardAlike t) {leading : List UInt8}
    (few : leading.length ≤ 6) : params t leading = params s leading := by
  unfold params
  apply List.map_congr_left
  rintro ⟨byte, i⟩ mem
  have inside := List.snd_lt_of_mem_zipIdx mem
  simp only
  rw [alike.ports i (by omega)]

section Units

variable {voices : Nat} {run run' : RunningUnit → Exec Unit}
  (units : ∀ u : RunningUnit, u.voice < voices →
    SideBySide (Moment.HeardAlike voices) (run u) (run' u))
include units

theorem runUnit_heardAlike (p : Program) {voice : Nat} (own : voice < voices) (slot : Nat)
    (op : UInt8) :
    SideBySide (Moment.HeardAlike voices) (p.runUnit voice slot op run)
      (p.runUnit voice slot op run') := by
  have same : ∀ {s t} kind {leading : List UInt8}, Moment.HeardAlike voices s t →
      leading.length = UnitKind.operandCount kind →
      params ((t.machine.voice voice).slot slot) leading =
        params ((s.machine.voice voice).slot slot) leading := by
    rintro s _ kind leading ⟨m, alike, rfl⟩ length
    exact params_heardAlike (alike.slots voice own slot) (length ▸ operandCount_le_six kind)
  apply p.runUnit_sideBySide (Moment.HeardAlike.matching voices)
  · intro s t kind leading related length
    have params := same kind related length
    obtain ⟨m, alike, rfl⟩ := related
    refine ⟨m.adjustSlot voice slot (·.clearPorts kind.operandCount),
      alike.adjustSlot fun _ => ?_, ?_⟩
    · exact (alike.slots voice own slot).clearPorts _
    · simp only [Moment.readied, params]
  · intro s t kind stereo leading extras related length
    have params := same kind related length
    obtain ⟨m, alike, rfl⟩ := related
    have key := alike.keys voice own
    simp only [Machine.key, Key.mk.injEq] at key
    have unit : Moment.unit { s with machine := m } kind stereo voice slot leading extras =
        s.unit kind stereo voice slot leading extras := by
      simp only [Moment.unit, params, key.1, key.2]
    rw [unit]
    exact units _ own

/-- No voice beyond the last one is ever run. -/
theorem runFrame_heardAlike (p : Program) (all : p.bytecode.voices = voices) :
    SideBySide (Moment.HeardAlike voices) (p.runFrame run) (p.runFrame run') :=
  p.runFrame_sideBySide (Moment.HeardAlike.matching voices) fun _ inside slot op =>
    p.runUnit_heardAlike units (all ▸ inside) slot op

end Units

end Program

/-! ## Rendering -/

/-- Two renderings that differ at most in what is not heard of their machines. -/
structure Program.Rendering.HeardAlike (voices : Nat) (r r' : Program.Rendering) : Prop where
  machine : r.machine.HeardAlike voices r'.machine
  frames : r'.frames = r.frames
  progress : r'.progress = r.progress
  fault : r'.fault = r.fault

namespace Machine.HeardAlike

variable {voices : Nat} {m n : Machine}

theorem output (h : m.HeardAlike voices n) : n.output = m.output := by
  unfold Machine.output
  rw [h.channel, h.channel]

theorem advance (h : m.HeardAlike voices n) : m.advance.HeardAlike voices n.advance := by
  have quiet := (h.silence 0).silence 1
  refine ⟨quiet.bus, quiet.seed, ?_, quiet.lines, quiet.keys, quiet.slots⟩
  unfold Machine.advance
  simp only
  rw [h.clock]

theorem trigger (h : m.HeardAlike voices n) (v : Nat) (note : Note) :
    (m.trigger v note).HeardAlike voices (n.trigger v note) := by
  apply h.adjustVoice
  · intro a b _ _
    exact ⟨rfl, rfl⟩
  · intro a b q _
    exact .refl _

/-- What happens on a voice beyond the last one is not heard. -/
theorem beyond (m : Machine) {v : Nat} (h : voices ≤ v) (f : Voice → Voice) :
    (m.adjustVoice v f).HeardAlike voices m := by
  refine ⟨rfl, rfl, rfl, rfl, ?_, ?_⟩
  · intro w hw
    unfold key
    rw [voice_adjustVoice, if_neg (by omega)]
  · intro w hw q
    unfold slot
    rw [voice_adjustVoice, if_neg (by omega)]
    exact .refl _

theorem release (h : m.HeardAlike voices n) (v : Nat) :
    (m.release v).HeardAlike voices (n.release v) := by
  apply h.adjustVoice
  · intro a b note _
    exact ⟨note, rfl⟩
  · intro a b q alike
    exact alike

end Machine.HeardAlike

theorem Program.renderFrom_heardAlike {p : Program} {run run' : RunningUnit → Exec Unit}
    (maxTime : Int)
    (units : ∀ u : RunningUnit, u.voice < p.bytecode.voices →
      SideBySide (Moment.HeardAlike p.bytecode.voices) (run u) (run' u))
    (frames : Nat) {m n : Machine} (alike : m.HeardAlike p.bytecode.voices n) (stack : Stack)
    (scratch : List Signal) (progress : Progress) (done : List Frame) :
    (p.renderFrom maxTime frames m stack scratch progress done run).HeardAlike p.bytecode.voices
      (p.renderFrom maxTime frames n stack scratch progress done run') := by
  induction frames generalizing m n stack scratch progress done with
  | zero => exact ⟨alike, rfl, rfl, rfl⟩
  | succ frames ih =>
    unfold renderFrom
    split
    · have frame := p.runFrame_heardAlike units rfl
        ⟨m, stack, p.bytecode.operands, 0, progress.time, scratch⟩ _ ⟨n, alike, rfl⟩
      dsimp only at frame
      revert frame
      generalize (p.runFrame run).run _ = r
      generalize (p.runFrame run').run _ = r'
      rintro (⟨⟨m', alike', rfl⟩⟩ | ⟨⟨m', alike', rfl⟩⟩)
      · simp only
        rw [alike'.output]
        exact ih alike'.advance _ _ _ _
      · exact ⟨alike', rfl, rfl, rfl⟩
    · exact ⟨alike, rfl, rfl, rfl⟩

/-- Synths with the same program whose units keep each other's pace give the same answers. -/
theorem Synth.answers_heardAlike {run run' : Program → RunningUnit → Exec Unit} {p : Program}
    (units : ∀ u : RunningUnit, u.voice < p.bytecode.voices →
      SideBySide (Moment.HeardAlike p.bytecode.voices) (run p u) (run' p u))
    (calls : List SynthCall) {m n : Machine} (alike : m.HeardAlike p.bytecode.voices n) :
    (answers (renderBy run') ⟨p, n⟩ calls).2 = (answers (renderBy run) ⟨p, m⟩ calls).2 ∧
      (answers (renderBy run) ⟨p, m⟩ calls).1.machine.HeardAlike p.bytecode.voices
        (answers (renderBy run') ⟨p, n⟩ calls).1.machine := by
  induction calls generalizing m n with
  | nil => exact ⟨rfl, alike⟩
  | cons call calls ih =>
    unfold answers
    simp only
    rcases call with (voice | ⟨voice, note⟩) | ⟨buffer, maxTime⟩
    · obtain ⟨same, after⟩ := ih (alike.release voice)
      exact ⟨congrArg (none :: ·) same, after⟩
    · obtain ⟨same, after⟩ := ih (alike.trigger voice note)
      exact ⟨congrArg (none :: ·) same, after⟩
    · have rendered := Program.renderFrom_heardAlike maxTime units buffer.length alike Stack.start
        Moment.scratchStart {} []
      obtain ⟨same, after⟩ := ih rendered.machine
      refine ⟨?_, after⟩
      unfold answer renderBy Program.render
      simp only
      rw [rendered.frames, rendered.progress, rendered.fault]
      exact congrArg (_ :: ·) same

/-! ## Sends that find no unit -/

namespace RunningUnit

/-- Is the unit a send to the address of sends that find no unit? -/
def IsStray (u : RunningUnit) : Prop :=
  u.kind = .send ∧ (u.address = 0xFFF7 ∨ u.address = 0xFFFF)

instance (u : RunningUnit) : Decidable u.IsStray :=
  inferInstanceAs (Decidable (_ ∧ _))

/-- Run a unit, but have a stray send deliver nothing. It still takes its signal off the stack. -/
def runUndelivered (p : Program) (u : RunningUnit) : Exec Unit :=
  if u.IsStray then
    modify fun s => { s with stack := if u.address.pops then s.stack.drop u.channels else s.stack }
  else u.run p

/-- A stray send delivers to port 7 of a slot of the last voice. -/
theorem IsStray.target {u : RunningUnit} (h : u.IsStray) :
    u.address.voice? = some 31 ∧ u.address.place = 30 ∧ u.address.port = 7 := by
  rcases h.2 with same | same
  · rw [same]
    decide
  · rw [same]
    decide

theorem run_undelivered (u : RunningUnit) (p : Program) (voices : Nat) (own : u.voice < voices) :
    SideBySide (Moment.HeardAlike voices) (u.run p) (u.runUndelivered p) := by
  unfold runUndelivered
  split
  · rename_i stray
    obtain ⟨voice, place, port⟩ := stray.target
    have send : u.run p = u.send := by
      unfold run
      rw [stray.1]
    rintro s _ ⟨m, alike, rfl⟩
    rw [send, send_run, voice, place, port, if_neg (by simp [maxVoices])]
    refine .ok ⟨m, alike.adjustSlot_right fun slot => ?_, rfl⟩
    exact slot.heardAlike_deposit_seven _ _ _
  · exact u.run_heardAlike p own

end RunningUnit

/-- A synth in which stray sends deliver nothing. -/
def Synth.renderUndelivered : Synth → Audio → Int → Synth × Audio × RenderReport :=
  renderBy fun p u => u.runUndelivered p

open Assembly

/-- A send that finds no unit is compiled to one opcode with the address for such sends. -/
theorem Compiled.stray_send {patch : Patch} {bpm : Nat} {b : Bytecode}
    {assembled : List (List AssembledUnit)} (h : Compiled patch bpm b assembled)
    (flags : patch.StereoFlags) {i k : Nat} {u : PatchUnit} (hu : patch.unit? i k = some u)
    (send : u.activeKind? = some .send) (lost : patch.findUnit (u.param "target") = none) :
    ∃ before after, b.blocks[i]? = some (before ++
        (sendCode (opcodeByte .send u) (operand (u.param "amount"))
          [if u.param "sendpop" = 1 then 0xFFFF else 0xFFF7] ++ after)) ∧
      before.length = patch.slotOf i k := by
  obtain ⟨active, kind⟩ := PatchUnit.activeKind?_eq_some send
  obtain ⟨pre, a, post, before, after, _, _, _, -, block, slot, -, emits, -⟩ :=
    h.code_at flags hu active
  refine ⟨before, after, ?_, slot⟩
  rw [block, emits.send_linked kind, sendReferences]
  simp only [lost, List.map_cons, List.map_nil, Reference.resolve, sendPop]
  split <;> rfl

/-- What sends have brought to port 7 of units, and all that is in voices that the patch does not
have, is never heard: synths that differ only there give the same answers to the same calls, frames,
progress and faults alike, and go on to differ only there. So a synth in which the sends that find
no unit deliver nothing gives the same answers as one in which they do. -/
theorem compile_unheard {patch : Patch} {bpm : Nat} {b : Bytecode}
    (compiled : Bytecode.compile patch .all bpm = .ok b) (inside : patch.InCatalogue) (p : Program)
    (plays : p.bytecode = b) :
    (∀ m n : Machine, m.HeardAlike patch.numVoices n → ∀ calls,
      (Synth.answers Synth.render ⟨p, n⟩ calls).2 = (Synth.answers Synth.render ⟨p, m⟩ calls).2 ∧
        (Synth.answers Synth.render ⟨p, m⟩ calls).1.machine.HeardAlike patch.numVoices
          (Synth.answers Synth.render ⟨p, n⟩ calls).1.machine) ∧
    (∀ i k u, patch.unit? i k = some u → u.activeKind? = some .send →
      patch.findUnit (u.param "target") = none →
      ∃ before after, b.blocks[i]? = some (before ++
          (sendCode (opcodeByte .send u) (operand (u.param "amount"))
            [if u.param "sendpop" = 1 then 0xFFFF else 0xFFF7] ++ after)) ∧
        before.length = patch.slotOf i k) ∧
    ∀ m calls, (Synth.answers Synth.renderUndelivered ⟨p, m⟩ calls).2 =
      (Synth.answers Synth.render ⟨p, m⟩ calls).2 := by
  obtain ⟨assembled, h⟩ := Bytecode.compile_ok compiled
  have voices : patch.numVoices = p.bytecode.voices := by rw [plays, h.voices]
  rw [voices]
  refine ⟨?_, ?_, ?_⟩
  · intro m n alike calls
    rw [← Synth.renderBy_run]
    exact Synth.answers_heardAlike (fun u own => u.run_heardAlike p own) calls alike
  · intro i k u hu send lost
    exact h.stray_send inside.stereoFlags hu send lost
  · intro m calls
    rw [← Synth.renderBy_run]
    exact (Synth.answers_heardAlike (fun u own => u.run_undelivered p _ own) calls (.refl _ m)).1

/-- A patch with a send to no unit. -/
def lostSendPatch : Patch where
  instruments := [
    { units := [
        { kindName := "loadval", settings := .ofEntries [("value", 128)] },
        { kindName := "send"
          settings := .ofEntries [("amount", 128), ("target", 9), ("sendpop", 1)] },
        { kindName := "loadval", settings := .ofEntries [("value", 96)] },
        { kindName := "out", settings := .ofEntries [("gain", 64)] }] }]

theorem compile_unheard_stray :
    ∃ b, Bytecode.compile lostSendPatch .all 100 = .ok b ∧
      (∀ p : Program, p.bytecode = b → ∀ calls,
        (Synth.answers Synth.render ⟨p, .fresh 0⟩ calls).2 =
          (Synth.answers Synth.render
            ⟨p, ((Machine.fresh 0).trigger 5 64).adjustSlot 0 1
              (RunningUnit.deposit 0.5 2 7 [1.0, 2.0])⟩ calls).2) ∧
      (∃ before after, b.blocks[0]? = some (before ++ (sendCode 56 128 [0xFFFF] ++ after)) ∧
        before.length = 1) ∧
      ∀ p : Program, p.bytecode = b → ∀ calls,
        (Synth.answers Synth.renderUndelivered ⟨p, .fresh 0⟩ calls).2 =
          (Synth.answers Synth.render ⟨p, .fresh 0⟩ calls).2 := by
  obtain ⟨b, compiled⟩ : ∃ b, Bytecode.compile lostSendPatch .all 100 = .ok b := ⟨_, rfl⟩
  have unheard := fun p plays => compile_unheard compiled (by decide +kernel) p plays
  refine ⟨b, compiled, ?_, ?_, ?_⟩
  · intro p plays calls
    have other : ((Machine.fresh 0).trigger 5 64).HeardAlike lostSendPatch.numVoices (.fresh 0) :=
      .beyond _ (by decide) _
    exact ((unheard p plays).1 _ _ (other.adjustSlot_right
      fun slot => slot.heardAlike_deposit_seven _ _ _) calls).1
  · obtain ⟨before, after, block, slot⟩ :=
      (unheard ⟨b, {}, false⟩ rfl).2.1 0 1 _ rfl (by decide) rfl
    refine ⟨before, after, ?_, slot⟩
    rw [block]
    rfl
  · intro p plays calls
    exact (unheard p plays).2.2 _ calls

end ModularSynth
