-- Compiling for the features that a patch needs instead of all features gives other numbers to
-- the kinds of units and changes nothing else. Which numbers a machine has for them matters only
-- where opcode bytes are written: no slot, address, delay time or error depends on them.
import Mathlib.Data.List.Perm.Subperm
import ModularSynth.Proofs.ActiveUnits

namespace ModularSynth

/-! ## Other opcodes -/

/-- The instruction with another opcode byte. -/
def Instruction.recode (code : UInt8 → UInt8) (i : Instruction) : Instruction :=
  { i with opcode := code i.opcode }

/-- The unit with other opcode bytes. -/
def AssembledUnit.recode (code : UInt8 → UInt8) (a : AssembledUnit) : AssembledUnit :=
  { a with instructions := a.instructions.map (·.recode code) }

/-- Two kinds of machine both have the kind of the unit, and the opcode byte of the unit for the
one goes over to that for the other. -/
def PatchUnit.Recodes (code : UInt8 → UInt8) (f g : Features) (u : PatchUnit) : Prop :=
  ∃ a b, f.opcode? u.kindName = some a ∧ g.opcode? u.kindName = some b ∧
    code (a + UInt8.ofInt (u.param "stereo")) = b + UInt8.ofInt (u.param "stereo")

namespace Assembly

variable (patch : Patch) (code : UInt8 → UInt8) {f g : Features}

theorem instructions_recode (place : Place) (opcode : UInt8) (u : PatchUnit)
    (samples : List SampleOffset) :
    instructions patch place (code opcode) u samples =
      (instructions patch place opcode u samples).map fun (made, known) =>
        (made.map (·.recode code), known) := by
  cases hk : u.kind? with
  | none => simp [instructions, hk, Except.map, Instruction.recode]
  | some kind =>
    cases kind
    case oscillator =>
      simp only [instructions, hk]
      split
      · split <;> rfl
      · rfl
    case delay =>
      simp only [instructions, hk]
      split <;> rfl
    all_goals simp [instructions, hk, Except.map, Instruction.recode]

theorem assembleUnits_recode (instrument firstVoice slot : Nat) (samples : List SampleOffset)
    {units : List (PatchUnit × Nat)}
    (h : ∀ p ∈ units, p.1.isActive = true → p.1.Recodes code f g) :
    assembleUnits patch g instrument firstVoice slot samples units =
      (assembleUnits patch f instrument firstVoice slot samples units).map fun (made, known) =>
        (made.map (·.recode code), known) := by
  induction units generalizing slot samples with
  | nil => rfl
  | cons head rest ih =>
    obtain ⟨u, delayStart⟩ := head
    have later := fun slot samples => ih slot samples fun p hp => h p (List.mem_cons_of_mem _ hp)
    rw [assembleUnits, assembleUnits]
    by_cases active : u.isActive = true
    · obtain ⟨a, b, ha, hb, same⟩ := h (u, delayStart) List.mem_cons_self active
      simp only [active, if_true, ha, hb, ← same, instructions_recode patch code]
      cases instructions patch ⟨instrument, firstVoice, delayStart⟩
          (a + UInt8.ofInt (u.param "stereo")) u samples with
      | error e => rfl
      | ok made =>
        simp only [Except.map, bind, Except.bind, List.length_map]
        split
        · rfl
        · rw [later]
          cases assembleUnits patch f instrument firstVoice (slot + made.1.length) made.2 rest <;>
            rfl
    · rw [if_neg active, if_neg active, later]

theorem assembleInstruments_recode (instrument firstVoice : Nat) (samples : List SampleOffset)
    {instruments : List (Instrument × List Nat)}
    (h : ∀ p ∈ instruments, ∀ u ∈ p.1.units, u.isActive = true → u.Recodes code f g) :
    assembleInstruments patch g instrument firstVoice samples instruments =
      (assembleInstruments patch f instrument firstVoice samples instruments).map
        fun (made, known) => (made.map (·.map (·.recode code)), known) := by
  induction instruments generalizing instrument firstVoice samples with
  | nil => rfl
  | cons head rest ih =>
    obtain ⟨i, delayStarts⟩ := head
    have units : ∀ p ∈ i.units.zip delayStarts, p.1.isActive = true → p.1.Recodes code f g :=
      fun p hp => h (i, delayStarts) List.mem_cons_self p.1 (List.of_mem_zip hp).1
    have here := assembleUnits_recode patch code instrument firstVoice 0 samples units
    rw [assembleInstruments, assembleInstruments, here]
    split
    · rfl
    · cases assembleUnits patch f instrument firstVoice 0 samples (i.units.zip delayStarts) with
      | error e => rfl
      | ok made =>
        have later := ih (instrument + 1) (firstVoice + i.numVoices) made.2
          fun p hp => h p (List.mem_cons_of_mem _ hp)
        simp only [Except.map, bind, Except.bind] at later ⊢
        rw [later]
        cases assembleInstruments patch f (instrument + 1) (firstVoice + i.numVoices) made.2
          rest <;> rfl

/-- The operands do not depend on the opcodes. -/
theorem operandBytes_recode (before : List UnitLabel) (units : List AssembledUnit) :
    operandBytes before (units.map (·.recode code)) = operandBytes before units := by
  induction units generalizing before with
  | nil => rfl
  | cons a rest ih =>
    have labels : (rest.map (·.recode code)).filterMap (·.label) = rest.filterMap (·.label) := by
      rw [List.filterMap_map]
      rfl
    rw [List.map_cons, operandBytes, operandBytes]
    simp only [labels]
    rw [show (a.recode code).label = a.label from rfl, ih, AssembledUnit.recode, List.flatMap_map]
    rfl

theorem opcodeBytes_recode (end_stays : code 0 = 0) (units : List AssembledUnit) :
    opcodeBytes (units.map (·.recode code)) = (opcodeBytes units).map code := by
  simp [opcodeBytes, List.flatMap_map, List.map_flatMap, AssembledUnit.recode, Instruction.recode,
    end_stays, Function.comp_def]

end Assembly

/-- Two compilations for machines that number the kinds differently come to the same error, or to
bytecodes that differ only in the numbers. -/
theorem Bytecode.compile_recode {patch : Patch} {code : UInt8 → UInt8} {f g : Features}
    (h : patch.EachActive (·.Recodes code f g)) (end_stays : code 0 = 0) (bpm : Nat) :
    compile patch g bpm =
      (compile patch f bpm).map fun b => { b with opcodes := b.opcodes.map code } := by
  unfold compile
  split
  · rfl
  · have units : ∀ p ∈ patch.instruments.zip (DelayTable.ofPatch patch bpm).2, ∀ u ∈ p.1.units,
        u.isActive = true → u.Recodes code f g :=
      fun p hp => h p.1 (List.of_mem_zip hp).1
    have made := Assembly.assembleInstruments_recode patch code 0 0 [] units
    simp only
    rw [made]
    cases Assembly.assembleInstruments patch f 0 0 []
        (patch.instruments.zip (DelayTable.ofPatch patch bpm).2) with
    | error e => rfl
    | ok made =>
      have operands := Assembly.operandBytes_recode code [] made.1.flatten
      simp only [Except.map, bind, Except.bind, pure, Except.pure, Except.ok.injEq]
      simp [List.flatMap_map, Assembly.opcodeBytes_recode code end_stays, List.map_flatMap,
        ← operands, List.map_flatten]

/-! ## The order of first use -/

section FirstUse

variable {β : Type} [BEq β] [LawfulBEq β]

theorem nodup_eraseDups (xs : List β) : xs.eraseDups.Nodup := by
  match xs with
  | [] => simp
  | x :: xs =>
    rw [List.eraseDups_cons, List.nodup_cons]
    exact ⟨by simp, nodup_eraseDups _⟩
termination_by xs.length
decreasing_by
  exact Nat.lt_succ_of_le (List.length_filter_le _ _)

/-- An element stands after as many others as there are different ones before its first use. -/
theorem findIdx?_eraseDups {xs : List β} {x : β} (h : x ∈ xs) :
    xs.eraseDups.findIdx? (· == x) = some (xs.take (xs.idxOf x)).eraseDups.length := by
  obtain ⟨before, after, rfl, first⟩ := List.eq_append_cons_of_mem h
  have absent : before.eraseDups.findIdx? (· == x) = none := by
    rw [List.findIdx?_eq_none_iff]
    intro y hy
    rw [List.mem_eraseDups] at hy
    exact beq_false_of_ne fun same => first (same ▸ hy)
  have fresh : before.contains x = false := by simpa using first
  rw [List.idxOf_append_of_notMem first, List.idxOf_cons_self, Nat.add_zero, List.take_left,
    List.eraseDups_append, List.cons_removeAll, if_pos fresh, List.eraseDups_cons,
    List.findIdx?_append, absent, List.findIdx?_cons, beq_self_eq_true]
  simp

end FirstUse

namespace Patch

/-- The kinds of the active units, in order. -/
def usedKinds (patch : Patch) : List String :=
  patch.activeUnits.map (·.2.kindName)

variable {patch : Patch}

/-- A machine made for a patch has the kinds that the patch uses, in the order of first use. -/
theorem kinds_ofPatch : (NecessaryFeatures.ofPatch patch).kinds = patch.usedKinds.eraseDups := by
  rw [NecessaryFeatures.ofPatch_eq, usedKinds]

/-- There are no more kinds in use than in the catalogue. -/
theorem kinds_length_le (known : patch.EachActive (·.kind?.isSome = true)) :
    patch.usedKinds.eraseDups.length ≤ 31 := by
  have inside : patch.usedKinds.eraseDups ⊆ UnitKind.all.map (·.name) := by
    intro name h
    obtain ⟨⟨i, u⟩, hu, rfl⟩ := List.mem_map.mp (List.mem_eraseDups.mp h)
    obtain ⟨active, k, there⟩ := mem_activeUnits.mp hu
    obtain ⟨kind, hk⟩ := Option.isSome_iff_exists.mp (known.of_unit there active)
    exact List.mem_map.mpr ⟨kind, UnitKind.mem_all kind, UnitKind.name_of_ofName? hk⟩
  exact (List.subperm_of_subset (nodup_eraseDups _) inside).length_le

end Patch

/-! ## The numbers of kinds -/

/-- The number of an opcode on a machine that has only some kinds. The opcodes of other kinds get
numbers of their own after these. -/
def renumber (kinds : List String) (opcode : Nat) : Nat :=
  if opcode = 0 then 0
  else
    match kinds.findIdx? fun name => (UnitKind.ofName? name).any (·.opcode == opcode) with
    | some index => index + 1
    | none => kinds.length + opcode

/-- The opcode that has a number. -/
def opcodeNumbered (kinds : List String) (number : Nat) : Nat :=
  if number = 0 then 0
  else
    match kinds[number - 1]? with
    | some name => ((UnitKind.ofName? name).map (·.opcode)).getD 0
    | none => number - kinds.length

theorem opcodeNumbered_renumber (kinds : List String) :
    Function.LeftInverse (opcodeNumbered kinds) (renumber kinds) := by
  intro opcode
  unfold renumber
  by_cases zero : opcode = 0
  · rw [if_pos zero, zero]
    rfl
  · rw [if_neg zero]
    split
    · rename_i index there
      obtain ⟨lt, found, -⟩ := List.findIdx?_eq_some_iff_getElem.mp there
      obtain ⟨kind, named, same⟩ := (Option.any_eq_true _ _).mp found
      have here : kinds[index + 1 - 1]? = some kinds[index] := List.getElem?_eq_getElem lt
      rw [opcodeNumbered, if_neg (Nat.succ_ne_zero index), here, ← eq_of_beq same]
      simp only [named, Option.map_some, Option.getD_some]
    · have beyond : kinds[kinds.length + opcode - 1]? = none := List.getElem?_eq_none (by omega)
      rw [opcodeNumbered, if_neg (by omega), beyond]
      exact Nat.add_sub_cancel_left _ _

theorem renumber_injective (kinds : List String) : Function.Injective (renumber kinds) :=
  (opcodeNumbered_renumber kinds).injective

/-- A kind gets the number of its place among the kinds. -/
theorem renumber_opcode {kinds : List String} {kind : UnitKind} {index : Nat}
    (h : kinds.findIdx? (· == kind.name) = some index) :
    renumber kinds kind.opcode = index + 1 := by
  have same : (fun name => (UnitKind.ofName? name).any (·.opcode == kind.opcode)) =
      (· == kind.name) := by
    funext name
    rw [Bool.eq_iff_iff, Option.any_eq_true, beq_iff_eq]
    constructor
    · rintro ⟨kind', named, opcode⟩
      have back := UnitKind.ofOpcode?_opcode kind'
      rw [eq_of_beq opcode, UnitKind.ofOpcode?_opcode] at back
      cases back
      exact (UnitKind.name_of_ofName? named).symm
    · rintro rfl
      exact ⟨kind, UnitKind.ofName?_name kind, beq_self_eq_true _⟩
  have nonzero : kind.opcode ≠ 0 := Nat.succ_ne_zero _
  rw [renumber, if_neg nonzero, same, h]

namespace Assembly

theorem opcodeByte_toNat (kind : UnitKind) {u : PatchUnit}
    (flag : u.param "stereo" = 0 ∨ u.param "stereo" = 1) :
    (opcodeByte kind u).toNat = 2 * kind.opcode + (u.param "stereo").toNat := by
  have byte := opcodeByte_mod kind u
  have lt := kind.index_lt
  unfold UnitKind.opcode at *
  omega

end Assembly

/-! ## The necessary features -/

namespace Patch

/-- The opcode byte of a unit on a machine made for the patch, from its byte on a machine that has
all kinds. -/
def ownByte (patch : Patch) (op : UInt8) : UInt8 :=
  (2 * renumber patch.usedKinds.eraseDups (op.toNat / 2) + op.toNat % 2).toUInt8

variable {patch : Patch}

theorem ownByte_toNat (known : patch.EachActive (·.kind?.isSome = true)) {kind : UnitKind}
    {index : Nat} (place : patch.usedKinds.eraseDups.findIdx? (· == kind.name) = some index)
    {u : PatchUnit} (flag : u.param "stereo" = 0 ∨ u.param "stereo" = 1) :
    (patch.ownByte (Assembly.opcodeByte kind u)).toNat =
      2 * (index + 1) + (u.param "stereo").toNat := by
  have few := kinds_length_le known
  have lt := (List.findIdx?_eq_some_iff_getElem.mp place).1
  have byte := Assembly.opcodeByte_toNat kind flag
  have half : (Assembly.opcodeByte kind u).toNat / 2 = kind.opcode := by omega
  have bit : (Assembly.opcodeByte kind u).toNat % 2 = (u.param "stereo").toNat := by omega
  rw [ownByte, half, bit, renumber_opcode place, Nat.toUInt8, UInt8.toNat_ofNat']
  omega

/-- The kind of an active unit has a place among the kinds in use. -/
theorem place_of_kind {i k : Nat} {u : PatchUnit} {kind : UnitKind}
    (hu : patch.unit? i k = some u) (active : u.isActive = true) (hk : u.kind? = some kind) :
    ∃ index, patch.usedKinds.eraseDups.findIdx? (· == kind.name) = some index := by
  have used : kind.name ∈ patch.usedKinds := by
    rw [UnitKind.name_of_ofName? hk]
    exact List.mem_map.mpr ⟨(i, u), mem_activeUnits.mpr ⟨active, k, hu⟩, rfl⟩
  exact ⟨_, findIdx?_eraseDups used⟩

/-- A machine made for the patch has all kinds that it uses, and the bytes of the units are those
of a machine that has all kinds, with other numbers. -/
theorem recodes_necessary (known : patch.EachActive (·.kind?.isSome = true))
    (flags : patch.StereoFlags) :
    patch.EachActive (·.Recodes patch.ownByte .all (.only (.ofPatch patch))) := by
  intro i hi u hu active
  obtain ⟨kind, hk⟩ := Option.isSome_iff_exists.mp (known i hi u hu active)
  have flag := flags i hi u hu active
  obtain ⟨j, hj⟩ := List.mem_iff_getElem?.mp hi
  obtain ⟨k, hu⟩ := List.mem_iff_getElem?.mp hu
  obtain ⟨index, place⟩ := place_of_kind (Option.bind_eq_some_iff.mpr ⟨i, hj, hu⟩) active hk
  refine ⟨(kind.opcode * 2).toUInt8, ((index + 1) * 2).toUInt8, ?_, ?_, ?_⟩
  · rw [Features.opcode?, show UnitKind.ofName? u.kindName = some kind from hk]
    rfl
  · rw [Features.opcode?, kinds_ofPatch, ← UnitKind.name_of_ofName? hk, place]
    rfl
  · have few := kinds_length_le known
    have lt := (List.findIdx?_eq_some_iff_getElem.mp place).1
    rw [← UInt8.toNat_inj]
    refine (ownByte_toNat known place flag).trans ?_
    rcases flag with h | h <;> rw [h, UInt8.toNat_add, Nat.toUInt8, UInt8.toNat_ofNat']
    · show 2 * (index + 1) + 0 = ((index + 1) * 2 % 256 + 0) % 256
      omega
    · show 2 * (index + 1) + 1 = ((index + 1) * 2 % 256 + 1) % 256
      omega

end Patch

namespace Compiled

/-- Every opcode byte is that of an active unit, or ends an instrument. -/
theorem opcode_of {patch : Patch} {bpm : Nat} {b : Bytecode} {assembled : List (List AssembledUnit)}
    (h : Compiled patch bpm b assembled) {op : UInt8} (ho : op ∈ b.opcodes) :
    op = 0 ∨ ∃ i k u kind, patch.unit? i k = some u ∧ u.isActive = true ∧ u.kind? = some kind ∧
      op = Assembly.opcodeByte kind u := by
  rw [h.opcodes_eq, CodeBlock.opcodeStream] at ho
  obtain ⟨block, hb, ho⟩ := List.mem_flatMap.mp ho
  obtain ⟨i, hi⟩ := List.mem_iff_getElem?.mp hb
  rcases List.mem_append.mp ho with ho | ho
  · obtain ⟨c, hc, rfl⟩ := List.mem_map.mp ho
    obtain ⟨k, u, kind, made⟩ := h.code_of hi hc
    exact .inr ⟨i, k, u, kind, made.unit, made.active, made.named, made.opcode⟩
  · exact .inl (List.mem_singleton.mp ho)

end Compiled

/-- Compiling for the features that a patch needs only gives other numbers to the kinds of units:
each kind gets one more than the number of different kinds that active units use before it. For
these features a patch compiles just if it does for all, or else fails with the same error. The
bytecodes have the same operands, tables and voices, and the opcodes of the one are those of the
other by their new numbers, in mono or stereo as before and with zero at the same places. -/
theorem necessary_features_renumber {patch : Patch}
    (known : patch.EachActive (·.kind?.isSome = true)) (flags : patch.StereoFlags) :
    ∃ number : Nat → Nat, Function.Injective number ∧ number 0 = 0 ∧
      (∀ kind : UnitKind, kind.name ∈ patch.usedKinds →
        number kind.opcode =
          (patch.usedKinds.take (patch.usedKinds.idxOf kind.name)).eraseDups.length + 1) ∧
      ∀ bpm,
        match Bytecode.compile patch .all bpm,
          Bytecode.compile patch (.only (.ofPatch patch)) bpm with
        | .ok b, .ok c =>
          c.operands = b.operands ∧ c.delayTimes = b.delayTimes ∧
            c.sampleOffsets = b.sampleOffsets ∧ c.polyphony = b.polyphony ∧ c.voices = b.voices ∧
            c.opcodes.length = b.opcodes.length ∧
            c.opcodes.map (·.toNat) =
              b.opcodes.map fun op => 2 * number (op.toNat / 2) + op.toNat % 2
        | .error e, .error e' => e' = e
        | _, _ => False := by
  refine ⟨renumber patch.usedKinds.eraseDups, renumber_injective _, rfl,
    fun kind used => renumber_opcode (findIdx?_eraseDups used), fun bpm => ?_⟩
  have same := Bytecode.compile_recode (Patch.recodes_necessary known flags) rfl bpm
  rw [same]
  cases compiled : Bytecode.compile patch .all bpm with
  | error e => rfl
  | ok b =>
    refine ⟨rfl, rfl, rfl, rfl, rfl, List.length_map _, ?_⟩
    rw [List.map_map]
    refine List.map_congr_left fun op ho => ?_
    obtain ⟨assembled, h⟩ := Bytecode.compile_ok compiled
    rcases h.opcode_of ho with rfl | ⟨i, k, u, kind, hu, active, hk, rfl⟩
    · rfl
    · have flag := flags.of_unit hu active
      obtain ⟨index, place⟩ := Patch.place_of_kind hu active hk
      have byte := Assembly.opcodeByte_toNat kind flag
      have half : (Assembly.opcodeByte kind u).toNat / 2 = kind.opcode := by omega
      rw [Function.comp_apply, Patch.ownByte_toNat known place flag, half, renumber_opcode place]
      omega

/-- A patch with a send to two voices, a delay without lines and a kind that comes twice. -/
def repeatedKinds : Patch where
  instruments := [
    { units := [
        { kindName := "loadnote", settings := .ofEntries [] },
        { kindName := "delay", settings := .ofEntries [("dry", 128)] },
        { kindName := "send"
          settings := .ofEntries [("amount", 96), ("target", 1), ("port", 1), ("sendpop", 1)] }] },
    { numVoices := 2
      units := [
        { kindName := "receive", id := 1, settings := .ofEntries [("stereo", 1)] },
        { kindName := "pop", disabled := true, settings := .ofEntries [] },
        { kindName := "loadnote", settings := .ofEntries [] },
        { kindName := "pop", settings := .ofEntries [] },
        { kindName := "out", settings := .ofEntries [("stereo", 1), ("gain", 64)] }] }]

theorem necessary_features_renumber_repeated :
    ∃ (number : Nat → Nat) (b c : Bytecode), Bytecode.compile repeatedKinds .all 100 = .ok b ∧
      Bytecode.compile repeatedKinds (.only (.ofPatch repeatedKinds)) 100 = .ok c ∧
      Function.Injective number ∧
      (number UnitKind.loadnote.opcode = 1 ∧ number UnitKind.send.opcode = 3 ∧
        number UnitKind.receive.opcode = 4 ∧ number UnitKind.pop.opcode = 5 ∧
        number UnitKind.out.opcode = 6) ∧
      c.operands = b.operands ∧
      c.opcodes.map (·.toNat) =
        b.opcodes.map fun op => 2 * number (op.toNat / 2) + op.toNat % 2 := by
  obtain ⟨number, injective, -, first_use, compiles⟩ :=
    @necessary_features_renumber repeatedKinds (by decide +kernel) (by decide +kernel)
  obtain ⟨b, hb⟩ : ∃ b, Bytecode.compile repeatedKinds .all 100 = .ok b := ⟨_, rfl⟩
  obtain ⟨c, hc⟩ :
      ∃ c, Bytecode.compile repeatedKinds (.only (.ofPatch repeatedKinds)) 100 = .ok c := ⟨_, rfl⟩
  have same := compiles 100
  rw [hb, hc] at same
  obtain ⟨operands, -, -, -, -, -, opcodes⟩ := same
  refine ⟨number, b, c, hb, hc, injective, ⟨?_, ?_, ?_, ?_, ?_⟩, operands, opcodes⟩
  · exact first_use .loadnote (by decide +kernel)
  · exact first_use .send (by decide +kernel)
  · exact first_use .receive (by decide +kernel)
  · exact first_use .pop (by decide +kernel)
  · exact first_use .out (by decide +kernel)

end ModularSynth
