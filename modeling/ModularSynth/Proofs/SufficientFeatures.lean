-- What a patch is said to need is enough for its code. A machine made for the patch knows every
-- opcode of the bytecode, has polyphony if two voices share an instrument, and lets sends reach
-- the ports that they reach. Only a send to a port that its target does not have goes unnoticed,
-- so that its address may name a voice on a machine without global sends.
import ModularSynth.Proofs.Renumbering
import ModularSynth.Proofs.StackDepth

namespace ModularSynth

open Assembly

/-! ## What sends reach -/

/-- A send reaches a port of a unit, in the instrument that it finds. -/
structure Patch.Reaches (patch : Patch) (u : PatchUnit) (ti : Nat) (t : PatchUnit)
    (p : Parameter) : Prop where
  send : u.kind? = some .send
  found : ∃ tk, patch.findUnit (u.param "target") = some (ti, tk) ∧ patch.unit? ti tk = some t
  port : ∃ kind, t.kind? = some kind ∧ 0 ≤ u.param "port" ∧
    kind.ports[(u.param "port").toNat]? = some p

namespace NecessaryFeatures

variable {patch : Patch}

theorem modulationOf?_eq_some {i : Nat} {u : PatchUnit} {m : (String × String) × Bool} :
    modulationOf? patch i u = some m ↔ ∃ ti t p, patch.Reaches u ti t p ∧
      m = ((t.kindName, p.name), decide (ti ≠ i ∨ u.param "voice" > 0)) := by
  constructor
  · intro h
    by_cases send : u.kind? = some .send
    · simp only [modulationOf?, send, Option.bind_eq_bind, Option.bind_eq_some_iff, ne_eq,
        not_true_eq_false, if_false] at h
      obtain ⟨⟨ti, tk⟩, found, t, there, kind, named, h⟩ := h
      split at h
      · cases h
      · rename_i low
        obtain ⟨p, port, h⟩ := Option.bind_eq_some_iff.mp h
        cases h
        exact ⟨ti, t, p, ⟨send, ⟨tk, found, there⟩, ⟨kind, named, by omega, port⟩⟩, rfl⟩
    · simp [modulationOf?, send] at h
  · rintro ⟨ti, t, p, ⟨send, ⟨tk, found, there⟩, kind, named, low, port⟩, rfl⟩
    simp only [modulationOf?, send, found, there, named, port, Option.bind_eq_bind,
      Option.bind_some, ne_eq, not_true_eq_false, if_false, Int.not_lt.mpr low]
    rfl

/-- What is gathered for a patch is what its active sends reach. -/
theorem mem_modulations {m : (String × String) × Bool} :
    (m ∈ patch.activeUnits.filterMap fun x => modulationOf? patch x.1 x.2) ↔
      ∃ i k u, patch.unit? i k = some u ∧ u.isActive = true ∧ modulationOf? patch i u = some m := by
  rw [List.mem_filterMap]
  constructor
  · rintro ⟨⟨i, u⟩, hu, made⟩
    obtain ⟨active, k, there⟩ := Patch.mem_activeUnits.mp hu
    exact ⟨i, k, u, there, active, made⟩
  · rintro ⟨i, k, u, there, active, made⟩
    exact ⟨(i, u), Patch.mem_activeUnits.mpr ⟨active, k, there⟩, made⟩

/-- A machine made for a patch lets sends reach the ports that they reach in the patch. -/
theorem supportsModulation_of_reaches {i k ti : Nat} {u t : PatchUnit} {p : Parameter}
    (hu : patch.unit? i k = some u) (active : u.isActive = true)
    (reaches : patch.Reaches u ti t p) :
    (Features.only (ofPatch patch)).supportsModulation t.kindName p.name = true := by
  refine List.contains_iff_mem.mpr (List.mem_map.mpr ⟨_, mem_modulations.mpr ⟨i, k, u, hu, active,
    modulationOf?_eq_some.mpr ⟨ti, t, p, reaches, rfl⟩⟩, rfl⟩)

/-- A machine made for a patch has global sends just if a send of the patch reaches a port in
another instrument, or names the voice. -/
theorem supportsGlobalSend_iff :
    (Features.only (ofPatch patch)).supportsGlobalSend = true ↔
      ∃ i k u ti t p, patch.unit? i k = some u ∧ u.isActive = true ∧ patch.Reaches u ti t p ∧
        (ti ≠ i ∨ 0 < u.param "voice") := by
  refine List.any_eq_true.trans ⟨?_, ?_⟩
  · rintro ⟨m, hm, leaves⟩
    obtain ⟨i, k, u, hu, active, made⟩ := mem_modulations.mp hm
    obtain ⟨ti, t, p, reaches, rfl⟩ := modulationOf?_eq_some.mp made
    exact ⟨i, k, u, ti, t, p, hu, active, reaches, of_decide_eq_true leaves⟩
  · rintro ⟨i, k, u, ti, t, p, hu, active, reaches, leaves⟩
    exact ⟨_, mem_modulations.mpr ⟨i, k, u, hu, active, modulationOf?_eq_some.mpr
      ⟨ti, t, p, reaches, rfl⟩⟩, decide_eq_true leaves⟩

end NecessaryFeatures

/-! ## Polyphony -/

namespace Assembly

theorem wordOfBits_replicate (n : Nat) : wordOfBits (List.replicate n false) = 0 := by
  unfold wordOfBits
  induction n with
  | zero => rfl
  | succ n ih => exact ih

/-- If no instrument has a second voice, no voice is followed by one of the same instrument. -/
theorem repeats_eq_replicate {patch : Patch} (single : ∀ i ∈ patch.instruments, i.numVoices ≤ 1) :
    repeats patch = List.replicate patch.instruments.length false := by
  obtain ⟨instruments⟩ := patch
  simp only [repeats] at single ⊢
  induction instruments with
  | nil => rfl
  | cons i rest ih =>
    rw [List.forall_mem_cons] at single
    have none : i.numVoices - 1 = 0 := by omega
    rw [List.flatMap_cons, ih single.2, none]
    rfl

end Assembly

/-! ## Reading the code of a patch -/

namespace Features

/-- The kind that an opcode byte stands for on a machine with these features. -/
def kindOf? (f : Features) (op : UInt8) : Option UnitKind :=
  match (op >>> 1).toNat with
  | 0 => none
  | n + 1 => f.kinds[n]? >>= UnitKind.ofName?

/-- A machine with these features has the kind of the opcode, and the opcode has as many operands
as this kind takes. -/
def Reads (f : Features) (c : CompiledUnit) : Prop :=
  ∃ kind, f.kindOf? c.opcode = some kind ∧ c.operands.length = kind.width

end Features

/-- The compiled unit with another opcode byte. -/
def CompiledUnit.recode (code : UInt8 → UInt8) (c : CompiledUnit) : CompiledUnit :=
  { c with opcode := code c.opcode }

namespace CodeBlock

variable {code : UInt8 → UInt8} (blocks : List CodeBlock)

theorem opcodeStream_recode (end_stays : code 0 = 0) :
    opcodeStream (blocks.map (·.map (·.recode code))) = (opcodeStream blocks).map code := by
  induction blocks with
  | nil => rfl
  | cons block rest ih =>
    rw [List.map_cons, opcodeStream_cons, opcodeStream_cons, ih, List.map_append, List.map_cons,
      end_stays, opcodes, opcodes, List.map_map, List.map_map]
    rfl

theorem operandStream_recode :
    operandStream (blocks.map (·.map (·.recode code))) = operandStream blocks := by
  induction blocks with
  | nil => rfl
  | cons block rest ih =>
    rw [List.map_cons, operandStream_cons, operandStream_cons, ih, operands, operands,
      List.flatMap_map]
    rfl

end CodeBlock

/-- A machine made for a patch knows the opcodes of its units. -/
theorem Features.kindOf?_ownByte {patch : Patch}
    (known : patch.EachActive (·.kind?.isSome = true)) (flags : patch.StereoFlags) {i k : Nat}
    {u : PatchUnit} {kind : UnitKind} (hu : patch.unit? i k = some u) (active : u.isActive = true)
    (hk : u.kind? = some kind) :
    (Features.only (.ofPatch patch)).kindOf? (patch.ownByte (opcodeByte kind u)) = some kind := by
  obtain ⟨index, place⟩ := Patch.place_of_kind hu active hk
  have byte := Patch.ownByte_toNat known place (flags.of_unit hu active)
  have half : (patch.ownByte (opcodeByte kind u) >>> 1).toNat = index + 1 := by
    rw [UInt8.toNat_shiftRight, byte, show (1 : UInt8).toNat % 8 = 1 from rfl,
      Nat.shiftRight_eq_div_pow]
    have := flags.of_unit hu active
    omega
  obtain ⟨lt, found, -⟩ := List.findIdx?_eq_some_iff_getElem.mp place
  have name : (NecessaryFeatures.ofPatch patch).kinds[index]? = some kind.name := by
    rw [Patch.kinds_ofPatch, List.getElem?_eq_getElem lt, eq_of_beq found]
  rw [kindOf?, half]
  simp only [kinds, name]
  exact UnitKind.ofName?_name kind

/-- The code of a patch for the features that it needs: the blocks are those for all features,
with other opcodes. -/
theorem Bytecode.compile_necessary {patch : Patch} {bpm : Nat} {c : Bytecode}
    (known : patch.EachActive (·.kind?.isSome = true)) (flags : patch.StereoFlags)
    (compiled : compile patch (.only (.ofPatch patch)) bpm = .ok c) :
    ∃ b, compile patch .all bpm = .ok b ∧ c.polyphony = b.polyphony ∧
      c.opcodes = b.opcodes.map patch.ownByte ∧ c.operands = b.operands := by
  rw [compile_recode (Patch.recodes_necessary known flags) rfl bpm] at compiled
  cases whole : compile patch .all bpm with
  | error e =>
    rw [whole] at compiled
    cases compiled
  | ok b =>
    rw [whole] at compiled
    cases compiled
    exact ⟨b, rfl, rfl, rfl, rfl⟩

/-! ## The addresses of sends -/

namespace Assembly

/-- A reference of a send to a unit of its own voice or of another one, that keeps the port of the
send. -/
def AsksFor (i ti : Nat) (u : PatchUnit) : Reference → Prop
  | .fixed _ => False
  | .inVoice _ _ offset => offset.toNat < 16 ∧ offset.toNat % 8 = (u.param "port" % 8).toNat
  | .anywhere _ offset =>
    (ti ≠ i ∨ u.param "voice" ≠ 0) ∧ offset.toNat % 8 = (u.param "port" % 8).toNat

theorem voiceReferences_asksFor {i ti : Nat} {u : PatchUnit}
    (leaves : ti ≠ i ∨ u.param "voice" ≠ 0) (voices : List Nat) :
    ∀ r ∈ voiceReferences u voices, AsksFor i ti u r := by
  induction voices with
  | nil => simp [voiceReferences]
  | cons voice rest ih =>
    have pop := sendPop_toNat u
    have stride : (voice.toUInt16 * SendAddress.voiceStride).toNat % 16 = 0 := by
      rw [UInt16.toNat_mul, show SendAddress.voiceStride.toNat = 1024 from rfl]
      omega
    have plain : (sendPort u + SendAddress.globalBit +
        voice.toUInt16 * SendAddress.voiceStride).toNat % 8 = (u.param "port" % 8).toNat := by
      rw [UInt16.toNat_add, UInt16.toNat_add, sendPort_toNat,
        show SendAddress.globalBit.toNat = 32768 from rfl]
      omega
    rw [voiceReferences, List.forall_mem_cons]
    refine ⟨⟨leaves, ?_⟩, ih⟩
    split
    · rw [UInt16.toNat_add, pop]
      omega
    · exact plain

/-- The references of a send that finds a unit. -/
theorem sendReferences_asksFor {patch : Patch} {u : PatchUnit} {ti tk : Nat} (i : Nat)
    (finds : patch.findUnit (u.param "target") = some (ti, tk)) :
    ∀ r ∈ sendReferences patch i u, AsksFor i ti u r := by
  simp only [sendReferences, finds]
  split
  · intro r hr
    rw [List.mem_singleton.mp hr]
    have pop := sendPop_toNat u
    have few := popsSignal_le u
    have offset : (sendPort u + sendPop u).toNat =
        (u.param "port" % 8).toNat + 8 * popsSignal u := by
      rw [UInt16.toNat_add, sendPort_toNat, pop]
      omega
    refine ⟨?_, ?_⟩ <;>
    · rw [offset]
      omega
  · rename_i leaves
    exact voiceReferences_asksFor (by tauto) _

/-- The place of a unit has no part in the port of an address. -/
theorem AsksFor.port {i ti : Nat} {u : PatchUnit} {r : Reference} (h : AsksFor i ti u r)
    (find : (UnitLabel → Bool) → Option UnitLabel) :
    (r.resolve find).port = (u.param "port" % 8).toNat := by
  have place := r.resolve_mod find
  have offset : r.offset.toNat % 8 = (u.param "port" % 8).toNat := by
    cases r with
    | fixed address => cases h
    | inVoice instrument id offset => exact h.2
    | anywhere id offset => exact h.2
  rw [SendAddress.port_eq_mod]
  omega

/-- A send whose address names a voice finds a unit of another instrument or names the voice
itself. -/
theorem AsksFor.leaves {i ti : Nat} {u : PatchUnit} {r : Reference} (h : AsksFor i ti u r)
    {find : (UnitLabel → Bool) → Option UnitLabel}
    (short : ∀ test l, find test = some l → l.slot ≤ maxUnits)
    (global : (r.resolve find).isGlobal = true) : ti ≠ i ∨ u.param "voice" ≠ 0 := by
  rw [SendAddress.isGlobal_iff] at global
  cases r with
  | fixed address => cases h
  | inVoice instrument id offset =>
    have few := h.1
    simp only [Reference.resolve] at global
    cases found : find fun l => l.id == id && l.instrument == instrument with
    | none =>
      rw [found] at global
      simp only at global
      omega
    | some l =>
      rw [found] at global
      have low := short _ l found
      unfold maxUnits at low
      simp only [UInt16.toNat_add, UnitLabel.localAddress, Nat.toUInt16,
        UInt16.toNat_ofNat'] at global
      omega
  | anywhere id offset => exact h.1

end Assembly

namespace Compiled

variable {patch : Patch} {bpm : Nat} {b : Bytecode} {assembled : List (List AssembledUnit)}

/-- No label stands beyond the last slot of its voice. -/
theorem finder_slot (h : Compiled patch bpm b assembled) {i : Nat} {pre post : List AssembledUnit}
    {a : AssembledUnit} (hi : assembled[i]? = some (pre ++ a :: post)) (test : UnitLabel → Bool)
    (l : UnitLabel) (found : finder assembled i pre a post test = some l) :
    l.slot ≤ maxUnits := by
  have around : l ∈ a.label.toList ++ ((labels pre).reverse ++
        ((labels (assembled.take i).flatten).reverse ++ [])) ∨
      l ∈ labels post ++ labels (assembled.drop (i + 1)).flatten := by
    rw [finder, nearest, Option.orElse_eq_orElse, Option.orElse_eq_or] at found
    rcases Option.or_eq_some_iff.mp found with near | ⟨-, far⟩
    · exact .inl (List.mem_of_find?_eq_some near)
    · exact .inr (List.mem_of_find?_eq_some far)
  obtain ⟨units, hu, x, hx, hl⟩ := (mem_around hi l).mp around
  obtain ⟨j, k, u, there, active, -, rfl⟩ := h.label_of hu hx hl
  obtain ⟨_, _, _, _, _, _, -, -, -, emits, -⟩ := h.of_unit there active
  have fits := emits.fits
  simp only [labelAt]
  omega

/-- The code of a send that finds a unit. All its addresses have the port of the send, and none
names a voice unless the unit is in another instrument or the send names the voice. -/
theorem send_addresses (h : Compiled patch bpm b assembled) (inside : patch.InCatalogue)
    {i k ti tk : Nat} {u : PatchUnit} (hu : patch.unit? i k = some u)
    (send : u.activeKind? = some .send)
    (finds : patch.findUnit (u.param "target") = some (ti, tk)) :
    ∃ before addresses after,
      b.blocks[i]? = some (before ++
        (sendCode (opcodeByte .send u) (operand (u.param "amount")) addresses ++ after)) ∧
      before.length = patch.slotOf i k ∧ addresses.length = patch.emittedCount i u ∧
      ∀ a ∈ addresses, a.port = (u.param "port").toNat ∧
        (a.isGlobal = true → ti ≠ i ∨ 0 < u.param "voice") := by
  obtain ⟨active, hk⟩ := PatchUnit.activeKind?_eq_some send
  have unit := inside.of_unit hu active
  have port := unit.param_bounds hk "port" 0 7 (by decide) (by decide)
  have voice := unit.param_bounds hk "voice" 0 32 (by decide) (by decide)
  obtain ⟨pre, a, post, before, after, _, _, _, hi, block, slot, -, emits, -⟩ :=
    h.code_at inside.stereoFlags hu active
  rw [emits.send_linked hk] at block
  refine ⟨before, _, after, block, slot, ?_, fun address ha => ?_⟩
  · rw [List.length_map, sendReferences_length patch i send]
  · obtain ⟨r, hr, rfl⟩ := List.mem_map.mp ha
    have asks := sendReferences_asksFor i finds r hr
    refine ⟨?_, fun global => ?_⟩
    · rw [asks.port]
      omega
    · rcases asks.leaves (h.finder_slot hi) global with other | named
      · exact .inl other
      · exact .inr (by omega)

end Compiled

/-! ## Enough for the code -/

theorem sendCode_recode (code : UInt8 → UInt8) (opcode amount : UInt8)
    (addresses : List SendAddress) :
    (sendCode opcode amount addresses).map (·.recode code) =
      sendCode (code opcode) amount addresses := by
  rw [sendCode, List.map_map]
  rfl

/-- Without polyphony no voice is followed by another one of its instrument. -/
theorem Compiled.polyphony_of_single {patch : Patch} {bpm : Nat} {b : Bytecode}
    {assembled : List (List AssembledUnit)} (h : Compiled patch bpm b assembled)
    (single : (Features.only (.ofPatch patch)).supportsPolyphony = false) : b.polyphony = 0 := by
  have voices : ∀ i ∈ patch.instruments, i.numVoices ≤ 1 := by
    intro i hi
    have := List.any_eq_false.mp single i hi
    simpa using this
  rw [h.polyphony, repeats_eq_replicate voices, wordOfBits_replicate]

/-- What a patch needs is enough for its code. The bytecode comes apart into blocks in which a
machine made for the patch knows every opcode and the number of its operands. Without polyphony no
voice repeats an instrument. A send that finds a unit keeps its port in all its addresses: if the
unit has this port, the machine lets sends reach it, and without global sends no address of the
send names a voice. A port that the unit does not have promises nothing. -/
theorem necessary_features_suffice {patch : Patch} {bpm : Nat} {c : Bytecode}
    (known : patch.EachActive (·.kind?.isSome = true)) (inside : patch.InCatalogue)
    (compiled : Bytecode.compile patch (.only (.ofPatch patch)) bpm = .ok c) :
    let f := Features.only (.ofPatch patch)
    (f.supportsPolyphony = false → c.polyphony = 0) ∧
      ∃ blocks : List CodeBlock, c.opcodes = CodeBlock.opcodeStream blocks ∧
        c.operands = CodeBlock.operandStream blocks ∧
        (∀ block ∈ blocks, ∀ code ∈ block, f.Reads code) ∧
        ∀ i k u ti tk t, patch.unit? i k = some u → u.activeKind? = some .send →
          patch.findUnit (u.param "target") = some (ti, tk) → patch.unit? ti tk = some t →
          ∃ opcode before addresses after,
            blocks[i]? = some (before ++
              (sendCode opcode (operand (u.param "amount")) addresses ++ after)) ∧
            f.kindOf? opcode = some .send ∧ before.length = patch.slotOf i k ∧
            addresses.length = patch.emittedCount i u ∧
            ∀ a ∈ addresses, a.port = (u.param "port").toNat ∧
              ∀ kind p, t.kind? = some kind → kind.ports[a.port]? = some p →
                f.supportsModulation t.kindName p.name = true ∧
                  (f.supportsGlobalSend = false → a.isGlobal = false) := by
  intro f
  have flags := inside.stereoFlags
  obtain ⟨b, whole, polyphony, opcodes, operands⟩ :=
    Bytecode.compile_necessary known flags compiled
  obtain ⟨assembled, h⟩ := Bytecode.compile_ok whole
  obtain ⟨opcodes_eq, operands_eq⟩ := h.streams flags
  refine ⟨fun single => polyphony.trans (h.polyphony_of_single single),
    b.blocks.map (·.map (·.recode patch.ownByte)), ?_, ?_, ?_, ?_⟩
  · rw [CodeBlock.opcodeStream_recode _ rfl, ← opcodes_eq, opcodes]
  · rw [CodeBlock.operandStream_recode, ← operands_eq, operands]
  · intro _ hb _ hc
    obtain ⟨block, of_block, rfl⟩ := List.mem_map.mp hb
    obtain ⟨unit, of_unit, rfl⟩ := List.mem_map.mp hc
    obtain ⟨i, hi⟩ := List.mem_iff_getElem?.mp of_block
    rw [h.blocks_eq flags] at hi
    obtain ⟨k, u, kind, made⟩ := h.code_of hi of_unit
    refine ⟨kind, ?_, made.length⟩
    rw [CompiledUnit.recode, made.opcode]
    exact Features.kindOf?_ownByte known flags made.unit made.active made.named
  · intro i k u ti tk t hu send finds ht
    obtain ⟨active, hk⟩ := PatchUnit.activeKind?_eq_some send
    obtain ⟨before, addresses, after, block, slot, count, each⟩ :=
      h.send_addresses inside hu send finds
    refine ⟨patch.ownByte (opcodeByte .send u), before.map (·.recode patch.ownByte), addresses,
      after.map (·.recode patch.ownByte), ?_, Features.kindOf?_ownByte known flags hu active hk,
      (List.length_map _).trans slot, count, fun a ha => ?_⟩
    · rw [List.getElem?_map, block, Option.map_some, List.map_append, List.map_append,
        sendCode_recode]
    · obtain ⟨port, leaves⟩ := each a ha
      refine ⟨port, fun kind p named has => ?_⟩
      have low := (inside.of_unit hu active).param_bounds hk "port" 0 7 (by decide) (by decide)
      rw [port] at has
      have reaches : patch.Reaches u ti t p := ⟨hk, ⟨tk, finds, ht⟩, kind, named, low.1, has⟩
      refine ⟨NecessaryFeatures.supportsModulation_of_reaches hu active reaches, fun own => ?_⟩
      by_contra global
      have sends : f.supportsGlobalSend = true := NecessaryFeatures.supportsGlobalSend_iff.mpr
        ⟨i, k, u, ti, t, p, hu, active, reaches, leaves (Bool.eq_true_of_not_eq_false global)⟩
      rw [sends] at own
      cases own

/-- A patch with one send within its voice, and one to a port that no unit has, in another
instrument. -/
def strayPatch : Patch where
  instruments := [
    { units := [
        { kindName := "loadval", settings := .ofEntries [("value", 128)] },
        { kindName := "send", settings := .ofEntries [("amount", 96), ("target", 1), ("port", 1)] },
        { kindName := "send"
          settings := .ofEntries [("amount", 128), ("target", 2), ("port", 7), ("sendpop", 1)] },
        { kindName := "receive", id := 1, settings := .ofEntries [("stereo", 1)] },
        { kindName := "out", settings := .ofEntries [("stereo", 1), ("gain", 64)] }] },
    { units := [
        { kindName := "receive", id := 2, settings := .ofEntries [] },
        { kindName := "out", settings := .ofEntries [("gain", 64)] }] }]

/-- The send within the voice is understood by a machine without global sends; the stray one has
the address 0x842F, which names a voice. -/
theorem necessary_features_suffice_stray :
    let f := Features.only (.ofPatch strayPatch)
    ∃ c, Bytecode.compile strayPatch f 100 = .ok c ∧ f.supportsGlobalSend = false ∧
      c.operands = [128, 96, 0x41, 0x00, 128, 0x2F, 0x84, 64, 64] ∧ c.polyphony = 0 ∧
      f.supportsModulation "receive" "right" = true ∧
      ∃ (blocks : List CodeBlock) (opcode : UInt8) (before after : CodeBlock) (a : SendAddress),
        c.operands = CodeBlock.operandStream blocks ∧
        blocks[0]? = some (before ++ (sendCode opcode 96 [a] ++ after)) ∧ before.length = 1 ∧
        a.port = 1 ∧ a.isGlobal = false := by
  intro f
  obtain ⟨c, compiled, operands⟩ : ∃ c, Bytecode.compile strayPatch f 100 = .ok c ∧
      c.operands = [128, 96, 0x41, 0x00, 128, 0x2F, 0x84, 64, 64] := ⟨_, rfl, by decide +kernel⟩
  obtain ⟨polyphony, blocks, -, stream, -, sends⟩ :=
    necessary_features_suffice (by decide +kernel) (by decide +kernel) compiled
  obtain ⟨opcode, before, addresses, after, block, -, slot, count, each⟩ :=
    sends 0 1 _ 0 3 _ rfl (by decide +kernel) (by decide +kernel) rfl
  obtain ⟨a, rfl⟩ := List.length_eq_one_iff.mp (count.trans (by decide +kernel))
  obtain ⟨port, understood⟩ := each a (List.mem_singleton_self a)
  have one : a.port = 1 := port.trans (by decide +kernel)
  obtain ⟨reached, own⟩ := understood .receive (.port "right") (by decide) (by rw [one]; rfl)
  have local_only : f.supportsGlobalSend = false := by decide +kernel
  exact ⟨c, compiled, local_only, operands, polyphony (by decide +kernel), reached, blocks, opcode,
    before, after, a, stream, block, slot.trans (by decide +kernel), one, own local_only⟩

end ModularSynth
