-- The walk over the units of a patch that counts signals says what the stack of a machine comes
-- to. The catalogue and the machine describe the stack effect of every unit on their own; where
-- the walk finds no underflow they agree, unit by unit, voice by voice and frame by frame.
import ModularSynth.Patch.StackCheck
import ModularSynth.Proofs.FrameRuns
import ModularSynth.Proofs.SendDelivery
import ModularSynth.Proofs.StackEffects
import ModularSynth.Proofs.VoiceSchedule

namespace ModularSynth

open Assembly

/-! ## The walk over the units -/

namespace StackAdvisory

/-- Does the advisory say that a unit lacks signals? -/
def isUnderflow : StackAdvisory → Bool
  | .underflow .. => true
  | .leftover _ => false

/-- The signals that an advisory says are left at the end. -/
def leftCount : StackAdvisory → Nat
  | .underflow .. => 0
  | .leftover count => count

end StackAdvisory

namespace Instrument

/-- The signals that the walk over an instrument says are left at the end. -/
def leftover (i : Instrument) : Nat :=
  total (i.stackCheck.map (·.leftCount))

/-- Where no unit lacks signals, the walk finds the depth that the effects of the units have in
turn. -/
theorem walkStack_depthAfter {index depth : Nat} {units : List PatchUnit}
    (safe : ∀ a ∈ walkStack index depth units, a.isUnderflow = false) :
    StackEffect.depthAfter (units.map (·.stackEffect)) depth =
      some (total ((walkStack index depth units).map (·.leftCount))) := by
  induction units generalizing index depth with
  | nil =>
    rw [walkStack]
    split
    · rfl
    · rename_i empty
      rw [Nat.eq_zero_of_not_pos empty]
      rfl
  | cons u rest ih =>
    rw [walkStack] at safe ⊢
    by_cases lacks : u.stackEffect.inputs > depth
    · rw [if_pos lacks] at safe
      cases safe _ List.mem_cons_self
    · rw [if_neg lacks] at safe ⊢
      rw [List.map_cons, StackEffect.depthAfter, if_pos (by omega)]
      rw [Nat.max_eq_left (by omega)] at safe ⊢
      exact ih safe

end Instrument

namespace Patch

/-- The walks over the instruments find no unit that lacks signals. -/
def NoUnderflow (patch : Patch) : Prop :=
  ∀ i ∈ patch.instruments, ∀ a ∈ i.stackCheck, a.isUnderflow = false

instance (patch : Patch) : Decidable patch.NoUnderflow :=
  inferInstanceAs (Decidable (∀ i ∈ patch.instruments, ∀ a ∈ i.stackCheck, a.isUnderflow = false))

/-- The signals that all voices together leave on the stack, by the walks over their
instruments. -/
def leftover (patch : Patch) : Nat :=
  total (patch.instruments.map fun i => i.numVoices * i.leftover)

end Patch

/-! ## Sends -/

namespace Reference

/-- Does the address or the offset of a reference take the signal off the stack? -/
def pops : Reference → Bool
  | .fixed address => address.pops
  | .inVoice _ _ offset | .anywhere _ offset => SendAddress.pops offset

end Reference

theorem SendAddress.pops_congr {a b : SendAddress} (h : a.toNat % 16 = b.toNat % 16) :
    a.pops = b.pops := by
  rw [Bool.eq_iff_iff, pops_iff, pops_iff]
  omega

theorem UnitLabel.localAddress_mod (l : UnitLabel) : l.localAddress.toNat % 16 = 0 := by
  simp only [localAddress, Nat.toUInt16, UInt16.toNat_ofNat']
  omega

theorem UnitLabel.globalAddress_mod (l : UnitLabel) : l.globalAddress.toNat % 16 = 0 := by
  have := l.localAddress_mod
  simp only [globalAddress, UInt16.toNat_add, UInt16.toNat_mul,
    show (16 : UInt16).toNat = 16 from rfl, show SendAddress.voiceStride.toNat = 1024 from rfl]
  omega

namespace Reference

/-- The address that a reference holds, or its offset to that of a unit. -/
def offset : Reference → UInt16
  | .fixed address => address
  | .inVoice _ _ offset | .anywhere _ offset => offset

/-- The places of units are multiples of 16. -/
theorem resolve_mod (find : (UnitLabel → Bool) → Option UnitLabel) (r : Reference) :
    (r.resolve find).toNat % 16 = r.offset.toNat % 16 := by
  cases r with
  | fixed address => rfl
  | inVoice instrument id offset =>
    simp only [resolve, Reference.offset]
    cases find fun l => l.id == id && l.instrument == instrument with
    | none => rfl
    | some l =>
      have := l.localAddress_mod
      rw [UInt16.toNat_add]
      omega
  | anywhere id offset =>
    simp only [resolve, Reference.offset]
    cases find fun l => l.id == id with
    | none => rfl
    | some l =>
      have := l.globalAddress_mod
      rw [UInt16.toNat_add]
      omega

/-- An address pops just if its offset does. -/
theorem resolve_pops (find : (UnitLabel → Bool) → Option UnitLabel) (r : Reference) :
    (r.resolve find).pops = r.pops := by
  have same : r.pops = SendAddress.pops r.offset := by cases r <;> rfl
  rw [same]
  exact SendAddress.pops_congr (r.resolve_mod find)

end Reference

/-- What is found by an id is in an instrument of the patch. -/
theorem Patch.findUnit_instrument {patch : Patch} {id : Int} {ti tk : Nat}
    (h : patch.findUnit id = some (ti, tk)) :
    ∃ instrument, patch.instruments[ti]? = some instrument := by
  obtain ⟨u, there, -⟩ := findUnit_some h
  obtain ⟨instrument, hti, -⟩ := Option.bind_eq_some_iff.mp there
  exact ⟨instrument, hti⟩

namespace Assembly

/-- An offset that ends in the port of a send and a pop bit pops by that bit. -/
theorem pops_offset (u : PatchUnit) (offset : UInt16) {pop : Nat} (hpop : pop ≤ 1)
    (h : offset.toNat % 16 = (u.param "port" % 8).toNat + 8 * pop) :
    SendAddress.pops offset = (pop == 1) := by
  rw [Bool.eq_iff_iff, SendAddress.pops_iff, beq_iff_eq]
  omega

/-- Of the references of a send to several voices, only the last may pop. -/
theorem voiceReferences_pops (u : PatchUnit) {voices : List Nat} (some_voice : voices ≠ []) :
    ∃ n, (voiceReferences u voices).map (·.pops) =
      List.replicate n false ++ [popsSignal u == 1] := by
  induction voices with
  | nil => exact absurd rfl some_voice
  | cons voice rest ih =>
    have stride : (voice.toUInt16 * SendAddress.voiceStride).toNat % 16 = 0 := by
      rw [UInt16.toNat_mul, show SendAddress.voiceStride.toNat = 1024 from rfl]
      omega
    have plain : (sendPort u + SendAddress.globalBit +
        voice.toUInt16 * SendAddress.voiceStride).toNat % 16 = (u.param "port" % 8).toNat := by
      rw [UInt16.toNat_add, UInt16.toNat_add, sendPort_toNat,
        show SendAddress.globalBit.toNat = 32768 from rfl]
      omega
    cases rest with
    | nil =>
      refine ⟨0, congrArg (fun pops => [pops]) (pops_offset u _ (popsSignal_le u) ?_)⟩
      rw [if_pos List.isEmpty_nil, UInt16.toNat_add, sendPop_toNat]
      have := popsSignal_le u
      omega
    | cons next rest =>
      obtain ⟨n, same⟩ := ih (List.cons_ne_nil _ _)
      refine ⟨n + 1, ?_⟩
      rw [voiceReferences, List.map_cons, same, List.replicate_succ, List.cons_append]
      exact congrArg (· :: _) (pops_offset u _ (Nat.zero_le 1) plain)

/-- Of the references of a send, only the last may pop. -/
theorem sendReferences_pops {patch : Patch} (i : Nat) (u : PatchUnit)
    (some_voice : ∀ instrument ∈ patch.instruments, 1 ≤ instrument.numVoices) :
    ∃ n, (sendReferences patch i u).map (·.pops) =
      List.replicate n false ++ [popsSignal u == 1] := by
  unfold sendReferences
  simp only
  cases found : patch.findUnit (u.param "target") with
  | none =>
    refine ⟨0, congrArg (fun pops => [pops]) ?_⟩
    unfold popsSignal sendPop
    by_cases h : u.param "sendpop" = 1
    · rw [if_pos h, if_pos h]
      rfl
    · rw [if_neg h, if_neg h]
      rfl
  | some place =>
    obtain ⟨ti, tk⟩ := place
    simp only
    split
    · refine ⟨0, congrArg (fun pops => [pops]) (pops_offset u _ (popsSignal_le u) ?_)⟩
      rw [UInt16.toNat_add, sendPort_toNat, sendPop_toNat]
      have := popsSignal_le u
      omega
    · refine voiceReferences_pops u (sendVoices_ne_nil u ?_)
      obtain ⟨instrument, hti⟩ := Patch.findUnit_instrument found
      rw [hti]
      exact some_voice instrument (List.mem_of_getElem? hti)

end Assembly

/-! ## The code of a unit -/

/-- The stack effect of code depends on its opcode alone, unless it is a send. -/
theorem CompiledUnit.effect_of_kind {c : CompiledUnit} {kind : UnitKind}
    (h : c.kind? = some kind) (other : kind ≠ .send) :
    c.effect = kind.playedEffect c.stereo := by
  rw [effect, h]
  cases kind <;> first | rfl | exact absurd rfl other

theorem CodeBlock.effects_append (a b : CodeBlock) : effects (a ++ b) = effects a ++ effects b :=
  List.map_append

/-- The stack effects of the opcodes of a send. -/
theorem effects_sendCode {opcode : UInt8} (hk : CompiledUnit.kindOf? opcode = some .send)
    (amount : UInt8) (addresses : List SendAddress) :
    CodeBlock.effects (sendCode opcode amount addresses) =
      addresses.map fun a => ⟨(CompiledUnit.mk opcode []).channels,
        if a.pops then 0 else (CompiledUnit.mk opcode []).channels⟩ := by
  rw [CodeBlock.effects, sendCode, List.map_map]
  refine List.map_congr_left fun a _ => ?_
  have hk' : (CompiledUnit.mk opcode (amount :: addressBytes a)).kind? = some .send := hk
  rw [Function.comp_apply, CompiledUnit.effect, hk']
  have address : (CompiledUnit.running ⟨opcode, amount :: addressBytes a⟩ .send default 0 0).address
      = a := SendAddress.of_bytes a
  simp only [RunningUnit.effect, address]
  rfl

namespace StackEffect

/-- Effects that give back what they take change nothing. -/
theorem depthAfter_replicate (n k depth : Nat) (enough : k ≤ depth) (rest : List StackEffect) :
    depthAfter (List.replicate n ⟨k, k⟩ ++ rest) depth = depthAfter rest depth := by
  induction n with
  | zero => rfl
  | succ n ih =>
    rw [List.replicate_succ, List.cons_append, depthAfter, if_pos enough,
      Nat.sub_add_cancel enough, ih]

end StackEffect

namespace PatchUnit

theorem stackEffect_send {u : PatchUnit} (h : u.activeKind? = some .send) :
    u.stackEffect = ⟨if u.isStereo then 2 else 1,
      if popsSignal u = 1 then 0 else if u.isStereo then 2 else 1⟩ := by
  unfold stackEffect popsSignal
  rw [h]
  by_cases pops : u.param "sendpop" = 1 <;> cases u.isStereo <;> simp [pops] <;> decide

theorem stackEffect_other {u : PatchUnit} {kind : UnitKind} (h : u.activeKind? = some kind)
    (other : kind ≠ .send) : u.stackEffect = kind.stackEffect u.isStereo := by
  unfold stackEffect
  rw [h]
  simp only [other, false_and, if_false]

/-- The kinds that steer time have no stereo form. -/
theorem InCatalogue.mono {u : PatchUnit} (h : u.InCatalogue) {kind : UnitKind}
    (hk : u.kind? = some kind) (steers : kind = .speed ∨ kind = .sync) : u.isStereo = false := by
  have := h.param_bounds hk "stereo" 0 0 (by rcases steers with rfl | rfl <;> decide) (by decide)
  rw [isStereo, beq_eq_false_iff_ne]
  omega

end PatchUnit

/-- An effect that finds its signals finds the same depth as a unit with the same change. -/
theorem UnitKind.depthAfter_played {u : PatchUnit} {kind : UnitKind} (inside : u.InCatalogue)
    (hk : u.kind? = some kind) {depth : Nat}
    (enough : (kind.stackEffect u.isStereo).inputs ≤ depth) :
    StackEffect.depthAfter [kind.playedEffect u.isStereo] depth =
      some (depth - (kind.stackEffect u.isStereo).inputs +
        (kind.stackEffect u.isStereo).outputs) := by
  cases kind
  case speed =>
    rw [inside.mono hk (.inl rfl)] at enough ⊢
    exact if_pos enough
  case sync =>
    rw [inside.mono hk (.inr rfl)] at enough ⊢
    exact congrArg some (Nat.sub_add_cancel enough).symm
  all_goals exact if_pos enough

theorem Assembly.Emits.effects {patch : Patch} {i firstVoice slot delayStart : Nat} {u : PatchUnit}
    {samples known : List SampleOffset} {a : AssembledUnit}
    (h : Emits patch i firstVoice slot u delayStart samples a known) (inside : u.InCatalogue)
    (some_voice : ∀ instrument ∈ patch.instruments, 1 ≤ instrument.numVoices)
    (find : (UnitLabel → Bool) → Option UnitLabel) {depth : Nat}
    (enough : u.stackEffect.inputs ≤ depth) :
    StackEffect.depthAfter (CodeBlock.effects (a.linked find)) depth =
      some (depth - u.stackEffect.inputs + u.stackEffect.outputs) := by
  obtain ⟨kind, hk, code⟩ := h.code
  have active : u.activeKind? = some kind := by rw [PatchUnit.activeKind?_of_active h.active, hk]
  have flag := inside.stereo_flag
  by_cases send : kind = .send
  · subst send
    obtain ⟨n, pops⟩ := sendReferences_pops i u some_voice
    have channels : (CompiledUnit.mk (opcodeByte .send u) []).channels =
        if u.isStereo then 2 else 1 := by
      rw [CompiledUnit.channels, CompiledUnit.stereo, opcodeByte_stereo .send flag]
    rw [PatchUnit.stackEffect_send active] at enough ⊢
    have effects : CodeBlock.effects (a.linked find) =
        List.replicate n ⟨if u.isStereo then 2 else 1, if u.isStereo then 2 else 1⟩ ++
          [⟨if u.isStereo then 2 else 1,
            if popsSignal u = 1 then 0 else if u.isStereo then 2 else 1⟩] := by
      rw [h.send_linked hk find, effects_sendCode (kindOf?_opcodeByte .send flag), channels,
        List.map_map]
      have each := congrArg (List.map fun pops => (⟨if u.isStereo then 2 else 1,
        if pops then 0 else if u.isStereo then 2 else 1⟩ : StackEffect)) pops
      rw [List.map_map] at each
      simp only [Function.comp_def, Reference.resolve_pops] at each ⊢
      rw [each]
      simp
    rw [effects, StackEffect.depthAfter_replicate _ _ _ enough]
    exact if_pos enough
  · rw [PatchUnit.stackEffect_other active send] at enough ⊢
    obtain ⟨count, -, shape⟩ := instructions_shape h.active hk code
    have effect : ∀ i ∈ a.instructions,
        CompiledUnit.effect ⟨i.opcode, instructionBytes find i⟩ = kind.playedEffect u.isStereo := by
      intro i hi
      have opcode := (shape i hi).1
      rw [CompiledUnit.effect_of_kind
        (show CompiledUnit.kind? ⟨i.opcode, instructionBytes find i⟩ = some kind by
          rw [CompiledUnit.kind?, opcode]
          exact kindOf?_opcodeByte kind flag) send, CompiledUnit.stereo, opcode,
        opcodeByte_stereo kind flag]
    have few : a.instructions.length = 1 ∨ kind = .delay ∧ a.instructions.length = 0 := by
      rw [count]
      unfold Patch.emittedCount
      rw [active]
      cases kind
      case send => exact absurd rfl send
      case delay =>
        simp only
        split
        · exact .inr ⟨trivial, rfl⟩
        · exact .inl rfl
      all_goals exact .inl rfl
    unfold CodeBlock.effects AssembledUnit.linked
    rw [List.map_map]
    rcases few with one | ⟨rfl, none⟩
    · obtain ⟨instruction, only⟩ := List.length_eq_one_iff.mp one
      rw [only] at effect ⊢
      have here := effect instruction (List.mem_singleton_self instruction)
      simp only [List.map_cons, List.map_nil, Function.comp_apply, here]
      exact UnitKind.depthAfter_played inside hk enough
    · -- A delay without lines has no code, and an effect that gives back what it takes.
      rw [List.length_eq_zero_iff.mp none]
      revert enough
      cases u.isStereo <;> exact fun enough => congrArg some (Nat.sub_add_cancel enough).symm

/-! ## The code of an instrument -/

/-- The code of an instrument finds the depth that its units have in turn. -/
theorem Assembly.Assembles.effects {patch : Patch} {i firstVoice slot : Nat}
    {samples known : List SampleOffset} {units : List (PatchUnit × Nat)}
    {assembled : List AssembledUnit}
    (h : Assembles patch i firstVoice slot samples units assembled known)
    (inside : ∀ u ∈ units.map (·.1), u.isActive = true → u.InCatalogue)
    (some_voice : ∀ instrument ∈ patch.instruments, 1 ≤ instrument.numVoices)
    (before later : List UnitLabel) {depth left : Nat}
    (units_run : StackEffect.depthAfter (units.map (·.1.stackEffect)) depth = some left) :
    StackEffect.depthAfter (CodeBlock.effects (linkUnits before later assembled)) depth =
      some left := by
  induction h generalizing before depth with
  | nil => exact units_run
  | @skip _ _ _ u _ _ _ inactive _ ih =>
    have none : u.stackEffect = .none := by
      simp [PatchUnit.stackEffect, PatchUnit.activeKind?, inactive]
    rw [List.map_cons, none] at units_run
    exact ih (fun u hu => inside u (List.mem_cons_of_mem _ hu)) before units_run
  | @emit _ _ _ _ u _ a _ _ head rest ih =>
    rw [List.map_cons, StackEffect.depthAfter] at units_run
    split at units_run
    · rename_i enough
      rw [linkUnits, CodeBlock.effects_append, StackEffect.depthAfter_append,
        head.effects (inside u List.mem_cons_self head.active) some_voice _ enough]
      exact ih (fun u hu => inside u (List.mem_cons_of_mem _ hu)) _ units_run
    · cases units_run

namespace Compiled

variable {patch : Patch} {bpm : Nat} {b : Bytecode} {assembled : List (List AssembledUnit)}

/-- The code of an instrument leaves what the walk over the instrument says. -/
theorem block_effects (h : Compiled patch bpm b assembled) (inside : patch.InCatalogue)
    (safe : patch.NoUnderflow) {i : Nat} {instrument : Instrument} {block : CodeBlock}
    (hi : patch.instruments[i]? = some instrument) (hb : b.blocks[i]? = some block) :
    StackEffect.depthAfter block.effects 0 = some instrument.leftover := by
  obtain ⟨delayStarts, units, found, known, -, hu, -, same, assembles, -⟩ := h.of_instrument hi
  rw [h.blocks_eq inside.stereoFlags, linkBlocks_getElem?, hu] at hb
  cases hb
  have mem : instrument ∈ patch.instruments := List.mem_of_getElem? hi
  refine assembles.effects ?_ ?_ _ _ ?_
  · rw [same]
    exact fun u hu active => inside instrument mem u hu active
  · exact fun i hi => h.voices_pos _ (List.mem_map_of_mem hi)
  · have walk := Instrument.walkStack_depthAfter (safe instrument mem)
    rw [← same, List.map_map] at walk
    rw [same] at walk
    exact walk

end Compiled

/-! ## Voices -/

namespace Moment.Above

theorem top (s : Moment) : s.Above s.stack 0 := ⟨[], rfl, rfl⟩

/-- What stands above something that stands above a stack. -/
theorem trans {s s' : Moment} {base : Stack} {depth more : Nat} (h : s.Above base depth)
    (h' : s'.Above s.stack more) : s'.Above base (depth + more) := by
  obtain ⟨low, rfl, stack⟩ := h
  obtain ⟨high, rfl, stack'⟩ := h'
  refine ⟨high ++ low, by rw [List.length_append, Nat.add_comm], ?_⟩
  rw [stack', stack, List.append_assoc]

end Moment.Above

namespace Patch

/-- The signals that a voice leaves on the stack. -/
def voiceLeftover (patch : Patch) (voice : Nat) : Nat :=
  ((patch.instrumentForVoice voice >>= (patch.instruments[·]?)).map (·.leftover)).getD 0

theorem total_voiceLeftover (patch : Patch) :
    total ((List.range patch.numVoices).map patch.voiceLeftover) = patch.leftover :=
  total_owners (·.leftover) patch.instruments

end Patch

/-! ## Frames -/

/-- A fault of the stack can only be that so many signals are left at the end of a frame. -/
def RenderFault.Leaves (e : RenderFault) (count : Nat) : Prop :=
  e.OfStack → e = .stackNotEmpty count ∧ 0 < count

namespace Program

/-- A frame stops at the first fault of its voices. -/
theorem runFrame_failed (p : Program) {s s' : Moment} {e : RenderFault}
    (voices : (p.runVoices p.bytecode.voices 0 p.bytecode.opcodes).run s = .error e s') :
    p.runFrame.run s = .error e s' := by
  unfold runFrame
  rw [EStateM.run_bind, voices]

section Frames

variable (p : Program) {patch : Patch} {bpm : Nat} {assembled : List (List AssembledUnit)}
  (h : Compiled patch bpm p.bytecode assembled) (inside : patch.InCatalogue)
  (safe : patch.NoUnderflow)
include h inside safe

/-- A voice leaves on the stack what the walk over its instrument says. -/
theorem playVoice_above (voice : Nat) {s : Moment} {base : Stack} {depth : Nat}
    (above : s.Above base depth) :
    Ends (p.playVoice patch voice) s
      (fun _ s' => s'.Above base (depth + patch.voiceLeftover voice)) (fun e _ => ¬ e.OfStack) := by
  unfold playVoice Patch.voiceLeftover
  cases hi : patch.instrumentForVoice voice with
  | none => exact above
  | some i =>
    obtain ⟨block, blocks, framed, short⟩ := p.blocks_of_voice h inside.stereoFlags hi
    have hb : p.bytecode.blocks[i]? = some block := by
      rw [← Nat.add_zero i, ← List.getElem?_drop, blocks]
      rfl
    have hlt : i < patch.instruments.length := by simpa using Patch.ownerOf_lt hi
    have hinst := List.getElem?_eq_getElem hlt
    have effects := h.block_effects inside safe hinst hb
    simp only [blocks, playBlock, Ends.bind_iff, Ends.modify_iff]
    refine (p.runOpcodes_above framed voice 0 (by omega) (CodeBlock.operandStream_cons _ _)
      (Moment.Above.top _) effects).mono (fun _ s' h' => ?_) (fun _ _ h' => h')
    rw [Option.bind_eq_bind, Option.bind_some, hinst]
    exact above.trans h'

theorem playVoices_above (voices : List Nat) {s : Moment} {base : Stack} {depth : Nat}
    (above : s.Above base depth) :
    Ends (forM voices (p.playVoice patch)) s
      (fun _ s' => s'.Above base (depth + total (voices.map patch.voiceLeftover)))
      (fun e _ => ¬ e.OfStack) := by
  induction voices generalizing s depth with
  | nil => exact above
  | cons voice voices ih =>
    rw [List.forM_cons, Ends.bind_iff, List.map_cons, total_cons, ← Nat.add_assoc]
    exact (p.playVoice_above h inside safe voice above).mono (fun _ s' h' => ih h')
      (fun _ _ h' => h')

/-- All voices together leave on the stack what the walks over their instruments say. -/
theorem runVoices_above {s : Moment} (ho : s.operands = p.bytecode.operands) :
    Ends (p.runVoices p.bytecode.voices 0 p.bytecode.opcodes) s
      (fun _ s' => s'.Above s.stack patch.leftover) (fun e _ => ¬ e.OfStack) := by
  unfold Ends
  rw [p.runVoices_all h inside.stereoFlags ho]
  have voices := p.playVoices_above h inside safe (List.range patch.numVoices)
    (Moment.Above.top s)
  rwa [Patch.total_voiceLeftover, Nat.zero_add] at voices

/-- A frame whose voices all get to their ends fails just if they leave signals behind. -/
theorem runFrame_leftover {s s' : Moment} (ho : s.operands = p.bytecode.operands)
    (hs : s.stack = Stack.start)
    (voices : (p.runVoices p.bytecode.voices 0 p.bytecode.opcodes).run s = .ok () s') :
    p.runFrame.run s = if patch.leftover = 0 then .ok () s'
      else .error (.stackNotEmpty patch.leftover) s' := by
  obtain ⟨top, length, stack⟩ := (p.runVoices_above h inside safe ho).of_ok voices
  have depth : s'.stack.length = patch.leftover + Stack.floor := by
    rw [stack, List.length_append, length, hs]
    rfl
  unfold runFrame
  rw [EStateM.run_bind, voices]
  simp only [EStateM.run_bind, EStateM.run_get, depth]
  rw [if_neg (by omega)]
  by_cases none : patch.leftover = 0
  · rw [if_neg (by omega), if_pos none]
    rfl
  · rw [if_pos (by omega), if_neg none, Nat.add_sub_cancel]
    rfl

/-- A frame that starts with an empty stack ends with one, unless the voices leave signals. -/
theorem runFrame_above {s : Moment} (ho : s.operands = p.bytecode.operands)
    (hs : s.stack = Stack.start) :
    Ends p.runFrame s (fun _ s' => s'.stack = Stack.start ∧ patch.leftover = 0)
      (fun e _ => e.Leaves patch.leftover) := by
  have above := p.runVoices_above h inside safe ho
  unfold Ends
  cases voices : (p.runVoices p.bytecode.voices 0 p.bytecode.opcodes).run s with
  | error e s' =>
    rw [p.runFrame_failed voices]
    exact fun stack => absurd stack (above.of_error voices)
  | ok _ s' =>
    rw [p.runFrame_leftover h inside safe ho hs voices]
    obtain ⟨top, length, stack⟩ := above.of_ok voices
    by_cases none : patch.leftover = 0
    · rw [if_pos none]
      rw [none] at length
      rw [List.length_eq_zero_iff.mp length, hs] at stack
      exact ⟨stack, none⟩
    · rw [if_neg none]
      exact fun _ => ⟨rfl, Nat.pos_of_ne_zero none⟩

theorem renderFrom_leaves (maxTime : Int) (frames : Nat) (m : Machine) (scratch : List Signal)
    (progress : Progress) (done : List Frame) :
    ∀ e ∈ (p.renderFrom maxTime frames m Stack.start scratch progress done).fault,
      e.Leaves patch.leftover := by
  apply p.renderFrom_ends (I := fun _ _ stack _ _ _ => stack = Stack.start)
    (Q := fun r => ∀ e ∈ r.fault, e.Leaves patch.leftover)
  · rintro _ _ _ _ _ _ _ - e ⟨⟩
  · rintro _ _ _ _ _ _ rfl -
    refine (p.runFrame_above h inside safe rfl rfl).mono (fun _ _ ends => ends.1) ?_
    rintro fault _ leaves e ⟨⟩
    exact leaves
  · rfl

/-- If the voices leave signals on the stack, the first frame of a rendering fails. -/
theorem render_stops (some_left : 0 < patch.leftover) {maxTime : Int} (some_time : 0 < maxTime)
    (frames : Nat) (m : Machine) :
    (p.render m (frames + 1) maxTime).fault ≠ none ∧
      (p.render m (frames + 1) maxTime).frames = [] := by
  have frame := p.runFrame_above h inside safe
    (s := ⟨m, Stack.start, p.bytecode.operands, 0, 0, Moment.scratchStart⟩) rfl rfl
  unfold render renderFrom
  rw [if_pos some_time]
  cases hr : p.runFrame.run ⟨m, Stack.start, p.bytecode.operands, 0, 0, Moment.scratchStart⟩ with
  | ok _ s =>
    have := (frame.of_ok hr).2
    omega
  | error fault s => exact ⟨Option.some_ne_none fault, rfl⟩

end Frames

end Program

/-- Where the walks over the instruments of a patch find no unit that lacks signals, they say just
what becomes of the stack. No unit of a compiled patch ever lacks signals. A frame whose voices
all get to their ends fails with as many signals left as the walks say, or succeeds if that is
none; so a patch that leaves signals never gets beyond its first frame, and one for which the
walks find nothing at all never has a fault of the stack. -/
theorem compile_stack_as_checked {patch : Patch} {bpm : Nat} {b : Bytecode}
    (compiled : Bytecode.compile patch .all bpm = .ok b) (inside : patch.InCatalogue)
    (safe : patch.NoUnderflow) (p : Program) (hp : p.bytecode = b) :
    (∀ s : Moment, s.operands = b.operands → s.stack = Stack.start →
      match (p.runVoices b.voices 0 b.opcodes).run s with
      | .ok _ s' =>
        p.runFrame.run s = if patch.leftover = 0 then .ok () s'
          else .error (.stackNotEmpty patch.leftover) s'
      | .error e s' => p.runFrame.run s = .error e s' ∧ ¬ e.OfStack) ∧
    (∀ (machine : Machine) (frames : Nat) (maxTime : Int) (e : RenderFault),
      (p.render machine frames maxTime).fault = some e → e.OfStack →
        e = .stackNotEmpty patch.leftover ∧ 0 < patch.leftover) ∧
    (0 < patch.leftover → ∀ (machine : Machine) (frames : Nat) (maxTime : Int), 0 < frames →
      0 < maxTime → (p.render machine frames maxTime).fault ≠ none ∧
        (p.render machine frames maxTime).frames = []) ∧
    ((∀ i ∈ patch.instruments, i.stackCheck = []) →
      ∀ (machine : Machine) (frames : Nat) (maxTime : Int) (e : RenderFault),
        (p.render machine frames maxTime).fault = some e → ¬ e.OfStack) := by
  obtain ⟨assembled, h⟩ := Bytecode.compile_ok compiled
  subst hp
  have faults : ∀ (machine : Machine) (frames : Nat) (maxTime : Int) (e : RenderFault),
      (p.render machine frames maxTime).fault = some e → e.OfStack →
        e = .stackNotEmpty patch.leftover ∧ 0 < patch.leftover := fun machine frames maxTime e he =>
    p.renderFrom_leaves h inside safe maxTime frames machine _ _ _ e he
  refine ⟨fun s ho hs => ?_, faults, fun some_left machine frames maxTime hf ht => ?_,
    fun clean machine frames maxTime e he stack => ?_⟩
  · cases voices : (p.runVoices p.bytecode.voices 0 p.bytecode.opcodes).run s with
    | ok _ s' => exact p.runFrame_leftover h inside safe ho hs voices
    | error e s' =>
      exact ⟨p.runFrame_failed voices,
        (p.runVoices_above h inside safe ho).of_error voices⟩
  · obtain ⟨frames, rfl⟩ := Nat.exists_eq_succ_of_ne_zero (Nat.pos_iff_ne_zero.mp hf)
    exact p.render_stops h inside safe some_left ht frames machine
  · have none : patch.leftover = 0 := by
      unfold Patch.leftover
      have each : ∀ i ∈ patch.instruments, i.numVoices * i.leftover = 0 := by
        intro i hi
        simp [Instrument.leftover, clean i hi]
      rw [List.map_congr_left each]
      simp
    have := (faults machine frames maxTime e he stack).2
    omega

theorem compile_stack_as_checked_echo :
    ∃ b, Bytecode.compile echoPatch .all 100 = .ok b ∧
      (∀ i ∈ echoPatch.instruments, i.stackCheck = []) ∧
      ∀ (p : Program) (machine : Machine) (frames : Nat) (maxTime : Int) (e : RenderFault),
        p.bytecode = b → (p.render machine frames maxTime).fault = some e → ¬ e.OfStack := by
  obtain ⟨b, compiled⟩ : ∃ b, Bytecode.compile echoPatch .all 100 = .ok b := ⟨_, rfl⟩
  have clean : ∀ i ∈ echoPatch.instruments, i.stackCheck = [] := by decide +kernel
  exact ⟨b, compiled, clean, fun p machine frames maxTime e hp =>
    (compile_stack_as_checked compiled (by decide +kernel) (by decide +kernel) p hp).2.2.2 clean
      machine frames maxTime e⟩

end ModularSynth
