-- The operands that stand for the targets of sends. Whatever the features and wherever a target
-- stands, a send ends up with the address of the target's first instruction in each voice that it
-- means; an address waits for no longer than it must, and nothing else is written twice.
import ModularSynth.Proofs.Placement
import ModularSynth.Proofs.WrittenPatch

namespace ModularSynth

open Assembly

/-! ## The layout of addresses -/

namespace Patch

/-- The addresses of a send of an instrument to a unit at a slot of another instrument or the
same one, as numbers. -/
def sendLayout (patch : Patch) (i : Nat) (u : PatchUnit) (ti : Nat) (target : Instrument)
    (slot : Nat) : List Nat :=
  let port := (u.param "port" % 8).toNat
  let pop := if u.param "sendpop" = 1 then 8 else 0
  if ti = i ∧ u.param "voice" = 0 then [16 * (slot + 1) + port + pop]
  else
    let voices := if u.param "voice" ≤ 0 then List.range target.numVoices
      else [(u.param "voice" - 1).toNat]
    voices.zipIdx.map fun (w, n) =>
      (0x8010 + 0x400 * (patch.firstVoice ti + w) + 16 * (slot + 1) + port) % 65536 +
        if n + 1 = voices.length then pop else 0

end Patch

namespace Assembly

/-- The numbers of references to a unit in each of some voices, the last of which may take the
signal off the stack. -/
theorem voiceReferences_layout (u : PatchUnit) {l : UnitLabel} (fits : l.slot ≤ 63)
    {find : (UnitLabel → Bool) → Option UnitLabel}
    (found : find (fun l => l.id == u.param "target") = some l) (voices : List Nat) (before : Nat) :
    ((voiceReferences u voices).map (·.resolve find)).map (·.toNat) =
      (voices.zipIdx before).map fun (w, n) =>
        (0x8010 + 0x400 * (l.firstVoice + w) + 16 * (l.slot + 1) +
            (u.param "port" % 8).toNat) % 65536 +
          if n + 1 = before + voices.length then 8 * popsSignal u else 0 := by
  have resolved : ∀ offset, Reference.resolve find (.anywhere (u.param "target") offset) =
      offset + l.globalAddress := fun offset => by simp only [Reference.resolve, found]
  have port : (u.param "port" % 8).toNat < 8 := by omega
  have pops := popsSignal_le u
  induction voices generalizing before with
  | nil => rfl
  | cons w rest ih =>
    rw [voiceReferences, List.map_cons, List.map_cons, ih (before + 1), List.zipIdx_cons,
      List.map_cons, resolved]
    congr 1
    · cases rest with
      | nil =>
        have address := globalTarget_toNat u fits w (sendPop_toNat u)
        simp only [List.isEmpty_nil, if_true, List.length_cons, List.length_nil]
        rw [address]
        omega
      | cons w' rest =>
        have address := globalTarget_toNat u fits w (show (0 : UInt16).toNat = 8 * 0 from rfl)
        rw [UInt16.add_zero] at address
        simp only [List.isEmpty_cons, Bool.false_eq_true, if_false, List.length_cons]
        rw [address, if_neg (by omega)]
        omega
    · refine List.map_congr_left fun x _ => ?_
      rw [List.length_cons, Nat.add_assoc before, Nat.add_comm 1]

end Assembly

namespace CompiledFor

variable {patch : Patch} {features : Features} {bpm : Nat} {b : Bytecode}
  {assembled : List (List AssembledUnit)}

/-- The code of a unit starts at its slot and ends within the voice. -/
theorem code_at (h : CompiledFor patch features bpm b assembled) {i k : Nat} {u : PatchUnit}
    (hu : patch.unit? i k = some u) (active : u.isActive = true) :
    ∃ pre a post before after, assembled[i]? = some (pre ++ a :: post) ∧
      (linkBlocks [] assembled)[i]? =
        some (before ++ (a.linked (finder assembled i pre a post) ++ after)) ∧
      before.length = patch.codeSlot i k ∧
      (a.linked (finder assembled i pre a post)).length = patch.codeCount i u ∧
      patch.codeSlot i k + patch.codeCount i u ≤ 63 ∧
      Placed patch features i (patch.firstVoice i) (patch.codeSlot i k) u a := by
  obtain ⟨pre, a, post, hi, slot, placed⟩ := h.of_unit hu active
  have block : (linkBlocks [] assembled)[i]? =
      some (linkUnits ((labels (assembled.take i).flatten).reverse ++ [])
        (labels (assembled.drop (i + 1)).flatten) (pre ++ a :: post)) := by
    rw [linkBlocks_getElem?, hi]
    rfl
  rw [linkUnits_append] at block
  have count := placed.shape.1
  refine ⟨pre, a, post, _, _, hi, block, by rw [linkUnits_length, slot], ?_, ?_, placed⟩
  · rw [AssembledUnit.linked, List.length_map, count]
  · rw [← count]
    exact placed.fits

/-- A send gets the addresses of the slot of its target, where the first instruction of the target
stands if it has any. -/
theorem send_at (h : CompiledFor patch features bpm b assembled) (unique : patch.IdsUnique)
    {i k ti tk : Nat} {u t : PatchUnit} {target : Instrument} (hu : patch.unit? i k = some u)
    (send : u.activeKind? = some .send) (ht : patch.unit? ti tk = some t)
    (active : t.isActive = true) (means : u.param "target" = t.id) (nonzero : t.id ≠ 0)
    (hti : patch.instruments[ti]? = some target) :
    ∃ before addresses after,
      (linkBlocks [] assembled)[i]? = some (before ++
        (sendCode (features.unitByte u) (operand (u.param "amount")) addresses ++ after)) ∧
      before.length = patch.codeSlot i k ∧
      addresses.map (·.toNat) = patch.sendLayout i u ti target (patch.codeSlot ti tk) := by
  obtain ⟨uactive, ukind⟩ := PatchUnit.activeKind?_eq_some send
  obtain ⟨_, _, _, _, _, -, -, -, -, room, -⟩ := h.code_at ht active
  obtain ⟨pre, a, post, before, after, hi, block, slot, -, -, placed⟩ := h.code_at hu uactive
  have fits : (patch.codeLabel ti tk t).slot ≤ 63 := by
    change patch.codeSlot ti tk ≤ 63
    omega
  have pop : 8 * popsSignal u = if u.param "sendpop" = 1 then 8 else 0 := by
    unfold popsSignal
    split <;> rfl
  have finds : patch.findUnit (u.param "target") = some (ti, tk) :=
    means ▸ Patch.findUnit_eq unique ht active nonzero
  rw [placed.send_linked ukind] at block
  refine ⟨before, _, after, block, slot, ?_⟩
  rw [sendReferences, Patch.sendLayout]
  simp only [finds]
  by_cases here : ti = i ∧ u.param "voice" = 0
  · have near : finder assembled i pre a post
        (fun l => l.id == u.param "target" && l.instrument == i) =
          some (patch.codeLabel ti tk t) := by
      refine h.finds_label unique hi ht active nonzero (by simp [Patch.codeLabel, means, here]) ?_
      intro l hl
      simp only [Bool.and_eq_true, beq_iff_eq] at hl
      exact hl.1.trans means
    have address := localTarget_toNat u fits
    rw [pop] at address
    rw [if_pos here, if_pos here]
    simp only [List.map_cons, List.map_nil, Reference.resolve, near]
    rw [address, Nat.mul_comm]
    rfl
  · have found : finder assembled i pre a post (fun l => l.id == u.param "target") =
        some (patch.codeLabel ti tk t) := by
      refine h.finds_label unique hi ht active nonzero (by simp [Patch.codeLabel, means]) ?_
      intro l hl
      exact (eq_of_beq hl).trans means
    have voices : sendVoices u target.numVoices =
        if u.param "voice" ≤ 0 then List.range target.numVoices
        else [(u.param "voice" - 1).toNat] := by
      rw [sendVoices]
      by_cases all : u.param "voice" ≤ 0
      · rw [if_neg (by omega), if_pos all]
      · rw [if_pos (by omega), if_neg all]
    rw [if_neg here, if_neg here, voiceReferences_layout u fits found _ 0, hti, ← pop, ← voices]
    simp only [Nat.zero_add]
    rfl

/-! ## Writing in one pass -/

theorem emissions (h : CompiledFor patch features bpm b assembled) :
    Bytecode.emissions patch features bpm = .ok (assembled.flatMap Emission.ofInstrument) := by
  obtain ⟨samples, made⟩ := h.made
  rw [Bytecode.emissions, made]
  rfl

/-- What a send refers to has a label. -/
theorem reference_label (h : CompiledFor patch features bpm b assembled) {i : Nat} {u : PatchUnit}
    {r : Reference} (hr : r ∈ sendReferences patch i u) :
    r.HasLabel i (labels assembled.flatten) := by
  rw [sendReferences] at hr
  cases finds : patch.findUnit (u.param "target") with
  | none =>
    simp only [finds] at hr
    rw [List.mem_singleton.mp hr]
    trivial
  | some found =>
    obtain ⟨ti, tk⟩ := found
    obtain ⟨t, ht, active, same, nonzero⟩ := Patch.findUnit_some finds
    have mem := h.label_mem ht active (same ▸ nonzero)
    simp only [finds] at hr
    split at hr
    · rename_i here
      rw [List.mem_singleton.mp hr]
      exact ⟨rfl, _, mem, same, here.1⟩
    · have anywhere : ∀ voices, r ∈ voiceReferences u voices →
          r.HasLabel i (labels assembled.flatten) := by
        intro voices hr
        induction voices with
        | nil => cases hr
        | cons w rest ih =>
          rcases List.mem_cons.mp hr with rfl | later
          · exact ⟨_, mem, same⟩
          · exact ih later
      exact anywhere _ hr

theorem belongs (h : CompiledFor patch features bpm b assembled) (i : Nat)
    (units : List AssembledUnit) (hi : assembled[i]? = some units) :
    Emission.Belongs (0 + i) (labels assembled.flatten) units := by
  obtain ⟨instrument, -, placed⟩ := h.instrument_of hi
  rw [Nat.zero_add]
  constructor
  · intro a ha l hl
    obtain ⟨u, slot, stands⟩ := placed.unit_of ha
    have label := stands.label
    rw [hl] at label
    split at label <;> cases label
    rfl
  · intro a ha instruction hinstr r hr
    obtain ⟨u, slot, stands⟩ := placed.unit_of ha
    exact h.reference_label (stands.reference hinstr hr)

/-- It is settled from the start what the bytes will be. -/
theorem outcome (h : CompiledFor patch features bpm b assembled) :
    Writer.outcome? {} (assembled.flatMap Emission.ofInstrument) = some b.operands := by
  have linked : Emission.linked? [] (assembled.flatMap Emission.ofInstrument) = some b.operands := by
    rw [h.operands]
    exact Emission.linked?_instruments h.belongs (fun l hl => .inr hl)
      (fun l hl => (List.not_mem_nil hl).elim) .nil
  rw [Writer.outcome?, linked]
  rfl

end CompiledFor

/-- Every send to a unit with instructions is compiled to one opcode for each voice that it means,
with the address of the first of these instructions there, wherever the two units stand. In the
pass that writes the operands, no address within an instrument waits at its end and none waits at
the end of the patch, and no byte changes after it has been written but those of addresses. -/
theorem compile_send_layout {patch : Patch} {features : Features} {bpm : Nat} {b : Bytecode}
    (compiled : Bytecode.compile patch features bpm = .ok b) (unique : patch.IdsUnique) :
    ∃ (blocks : List CodeBlock) (es : List Emission),
      b.opcodes = CodeBlock.opcodeStream blocks ∧ b.operands = CodeBlock.operandStream blocks ∧
      blocks.map (·.map fun c => (c.opcode, c.operands.length)) =
        (patch.instruments.zipIdx.map fun (instrument, i) =>
          instrument.units.flatMap (patch.codeShape features i)) ∧
      (∀ (i k ti tk : Nat) (u t : PatchUnit) (target : Instrument),
        patch.unit? i k = some u → u.activeKind? = some .send →
        patch.unit? ti tk = some t → t.isActive = true → u.param "target" = t.id → t.id ≠ 0 →
        patch.instruments[ti]? = some target → 0 < patch.codeCount ti t →
        ∃ before addresses after,
          blocks[i]? = some (before ++
            (sendCode (features.unitByte u) (operand (u.param "amount")) addresses ++ after)) ∧
          before.length = patch.codeSlot i k ∧
          addresses.map (·.toNat) = patch.sendLayout i u ti target (patch.codeSlot ti tk)) ∧
      Bytecode.emissions patch features bpm = .ok es ∧
      (Writer.run {} es).bytes = b.operands ∧ (Writer.run {} es).waiting = [] ∧
      (∀ done todo, es = done ++ .finish :: todo →
        ∀ x ∈ (Writer.run {} done).waiting, x.1.isInner = false) ∧
      ∀ done todo, es = done ++ todo → ∀ place < (Writer.run {} done).bytes.length,
        place ∉ Emission.addressPlaces 0 done →
          b.operands[place]? = (Writer.run {} done).bytes[place]? := by
  obtain ⟨assembled, h⟩ := Bytecode.compile_for compiled
  have nothing : Writer.Owed {} (assembled.flatMap Emission.ofInstrument) :=
    fun x hx => (List.not_mem_nil hx).elim
  have settled := h.outcome
  refine ⟨_, _, h.opcodes, h.operands, h.shape, ?_, h.emissions, ?_, ?_, ?_, ?_⟩
  · intro i k ti tk u t target hu send ht active means nonzero hti _
    exact h.send_at unique hu send ht active means nonzero hti
  · rw [← List.append_nil (assembled.flatMap _)] at settled
    have last := Writer.Sound.of_nothing.outcome?_run settled
    rw [Writer.outcome?_nil] at last
    exact Option.some.inj last
  · rw [← List.append_nil (assembled.flatMap _)] at settled nothing
    exact (nothing.run .of_nothing settled).none_left
  · intro done todo split
    rw [split] at settled nothing
    exact (nothing.run .of_nothing settled).none_inner
  · intro done todo split place written other
    rw [split] at settled
    exact Writer.outcome_getElem? settled written other

/-- A patch whose instruments send to each other and within the first one. -/
def relayPatch : Patch where
  instruments := [
    { numVoices := 2
      units := [
        { kindName := "loadval", settings := .ofEntries [("value", 128)] },
        { kindName := "send", settings := .ofEntries [("amount", 128), ("target", 1)] },
        { kindName := "receive", id := 1, settings := .ofEntries [("stereo", 0)] },
        { kindName := "send"
          settings := .ofEntries [("amount", 64), ("target", 2), ("sendpop", 1)] }] },
    { units := [
        { kindName := "receive", id := 2, settings := .ofEntries [("stereo", 0)] },
        { kindName := "send"
          settings := .ofEntries [("amount", 96), ("target", 1), ("port", 1), ("sendpop", 1)] }] }]

theorem compile_send_layout_relay :
    ∃ b blocks es, Bytecode.compile relayPatch (.only (.ofPatch relayPatch)) 100 = .ok b ∧
      b.operands = CodeBlock.operandStream blocks ∧
      (∃ before addresses after,
        blocks[0]? = some (before ++ (sendCode 4 128 addresses ++ after)) ∧ before.length = 1 ∧
        addresses.map (·.toNat) = [48]) ∧
      (∃ before addresses after,
        blocks[0]? = some (before ++ (sendCode 4 64 addresses ++ after)) ∧ before.length = 3 ∧
        addresses.map (·.toNat) = [0x8828]) ∧
      (∃ before addresses after,
        blocks[1]? = some (before ++ (sendCode 4 96 addresses ++ after)) ∧ before.length = 1 ∧
        addresses.map (·.toNat) = [0x8041, 0x8449]) ∧
      Bytecode.emissions relayPatch (.only (.ofPatch relayPatch)) 100 = .ok es ∧
      (Writer.run {} es).waiting = [] := by
  obtain ⟨b, compiled⟩ : ∃ b, Bytecode.compile relayPatch (.only (.ofPatch relayPatch)) 100 = .ok b :=
    ⟨_, rfl⟩
  obtain ⟨blocks, es, -, operands, -, sends, written, -, waiting, -, -⟩ :=
    compile_send_layout compiled (by decide +kernel)
  refine ⟨b, blocks, es, compiled, operands, ?_, ?_, ?_, written, waiting⟩
  · exact sends 0 1 0 2 _ _ _ rfl (by decide +kernel) rfl (by decide) (by decide +kernel) (by decide)
      rfl (by decide +kernel)
  · exact sends 0 3 1 0 _ _ _ rfl (by decide +kernel) rfl (by decide) (by decide +kernel) (by decide)
      rfl (by decide +kernel)
  · exact sends 1 1 0 2 _ _ _ rfl (by decide +kernel) rfl (by decide) (by decide +kernel) (by decide)
      rfl (by decide +kernel)

end ModularSynth
