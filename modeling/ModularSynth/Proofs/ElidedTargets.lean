-- Sends to delays without lines. Such a delay has no instructions, but it has a label all the same,
-- which is where the next instruction of its instrument comes to stand. So its sends are compiled
-- to addresses of the next unit, and what is sent to a delay that is not there arrives at that one.
import ModularSynth.Proofs.SendDelivery
import ModularSynth.Proofs.SendLayout

namespace ModularSynth

open Assembly

/-! ## Occupied slots -/

namespace Patch

/-- Is an instruction of a unit executed at a slot of a voice? -/
def Occupied (patch : Patch) (voice slot : Nat) : Prop :=
  ∃ j k u, patch.instrumentForVoice voice = some j ∧ patch.unit? j k = some u ∧
    patch.codeSlot j k ≤ slot ∧ slot < patch.codeSlot j k + patch.codeCount j u

/-- Does a unit after a place of an instrument have instructions? -/
def EmitsAfter (patch : Patch) (instrument place : Nat) : Prop :=
  ∃ k u, place < k ∧ patch.unit? instrument k = some u ∧ 0 < patch.codeCount instrument u

variable {patch : Patch} {j k : Nat} {u : PatchUnit}

theorem codeSlot_succ (hu : patch.unit? j k = some u) :
    patch.codeSlot j (k + 1) = patch.codeSlot j k + patch.codeCount j u := by
  obtain ⟨instrument, hj, hk⟩ := Option.bind_eq_some_iff.mp hu
  simp only [codeSlot, hj, Option.map_some, Option.getD_some]
  rw [List.take_add_one, hk, Option.toList_some, List.map_append, total_append]
  rfl

theorem codeSlot_mono (patch : Patch) (j : Nat) {k l : Nat} (h : k ≤ l) :
    patch.codeSlot j k ≤ patch.codeSlot j l :=
  total_le_of_sublist ((List.take_sublist_take_left h).map _)

/-- Every slot before that of a unit belongs to one of the units before it. -/
theorem exists_unit_at {n q : Nat} (h : q < patch.codeSlot j n) :
    ∃ k u, patch.unit? j k = some u ∧ patch.codeSlot j k ≤ q ∧
      q < patch.codeSlot j k + patch.codeCount j u := by
  unfold codeSlot at h ⊢
  obtain ⟨k, u, hu, lower, upper⟩ := exists_owner (patch.codeCount j) h
  have before : k < n := by
    have := (List.getElem?_eq_some_iff.mp hu).1
    rw [List.length_take] at this
    omega
  rw [List.getElem?_take_of_lt before] at hu
  rw [List.take_take, Nat.min_eq_left (Nat.le_of_lt before)] at lower upper
  refine ⟨k, u, ?_, lower, upper⟩
  unfold unit?
  cases hj : patch.instruments[j]? with
  | none => simp [hj] at hu
  | some instrument => simpa [hj] using hu

theorem occupied_before {voice n q : Nat} (hv : patch.instrumentForVoice voice = some j)
    (h : q < patch.codeSlot j n) : patch.Occupied voice q := by
  obtain ⟨k, u, hu, lower, upper⟩ := exists_unit_at h
  exact ⟨j, k, u, hv, hu, lower, upper⟩

/-- What stands at the slot of a unit without instructions is the first instruction of a later
unit. -/
theorem next_of_elided (hu : patch.unit? j k = some u) (elided : patch.codeCount j u = 0) {l : Nat}
    {w : PatchUnit} (hw : patch.unit? j l = some w)
    (lower : patch.codeSlot j l ≤ patch.codeSlot j k)
    (upper : patch.codeSlot j k < patch.codeSlot j l + patch.codeCount j w) :
    k < l ∧ patch.codeSlot j l = patch.codeSlot j k := by
  have same := codeSlot_succ hu
  have after : k < l := by
    refine Nat.lt_of_not_le fun before => ?_
    have later := patch.codeSlot_mono j (show l + 1 ≤ k + 1 from Nat.succ_le_succ before)
    rw [codeSlot_succ hw] at later
    omega
  have := patch.codeSlot_mono j (show k + 1 ≤ l from after)
  exact ⟨after, by omega⟩

theorem EmitsAfter.next (later : patch.EmitsAfter j k) (hu : patch.unit? j k = some u)
    (elided : patch.codeCount j u = 0) :
    ∃ l next, k < l ∧ patch.unit? j l = some next ∧ 0 < patch.codeCount j next ∧
      patch.codeSlot j l = patch.codeSlot j k := by
  obtain ⟨m, w, after, hw, some_code⟩ := later
  have start := patch.codeSlot_mono j (Nat.le_of_lt after)
  have inside : patch.codeSlot j k < patch.codeSlot j (m + 1) := by
    rw [codeSlot_succ hw]
    omega
  obtain ⟨l, next, hl, lower, upper⟩ := exists_unit_at inside
  obtain ⟨behind, here⟩ := next_of_elided hu elided hl lower upper
  exact ⟨l, next, behind, hl, by omega, here⟩

/-- The slot of a unit without instructions is taken if a later unit has some. -/
theorem occupied_iff_emitsAfter {voice : Nat} (hv : patch.instrumentForVoice voice = some j)
    (hu : patch.unit? j k = some u) (elided : patch.codeCount j u = 0) :
    patch.Occupied voice (patch.codeSlot j k) ↔ patch.EmitsAfter j k := by
  constructor
  · rintro ⟨j', l, w, hv', hw, lower, upper⟩
    obtain rfl : j = j' := Option.some.inj (hv.symm.trans hv')
    exact ⟨l, w, (next_of_elided hu elided hw lower upper).1, hw, by omega⟩
  · intro later
    obtain ⟨l, next, -, hl, some_code, here⟩ := later.next hu elided
    exact ⟨j, l, next, hv, hl, by omega, by omega⟩

end Patch

/-! ## The units that addresses mean -/

namespace SendAddress

/-- The unit that an address means when a voice sends to it: its voice and its slot there. -/
def unit? (a : SendAddress) (voice : Nat) : Option (Nat × Nat) :=
  if a.place = 0 ∨ maxVoices ≤ a.voice?.getD voice then none
  else some (a.voice?.getD voice, a.place - 1)

variable {a : SendAddress} {voice v w q slot port pop : Nat}

theorem unit?_eq_some_iff :
    a.unit? voice = some (v, q) ↔
      a.place = q + 1 ∧ a.voice?.getD voice = v ∧ v < maxVoices := by
  unfold unit?
  split
  · simp only [reduceCtorEq, false_iff]
    omega
  · simp only [Option.some.injEq, Prod.mk.injEq]
    omega

/-- An address made for a slot of the sending voice means that slot, if its place fits into five
bits, and else a slot before it or none. -/
theorem unit?_of_local (hs : slot ≤ 63) (hp : port < 8) (hpop : pop ≤ 1) (hv : voice < maxVoices)
    (ha : a.toNat = (slot + 1) * 16 + port + 8 * pop) :
    (slot < 31 → a.unit? voice = some (voice, slot)) ∧
      (31 ≤ slot → ∀ v q, a.unit? voice = some (v, q) → v = voice ∧ q + 32 = slot) := by
  simp only [unit?_eq_some_iff, place_eq, voice?_eq, inner_toNat]
  rw [if_neg (by omega), if_neg (by omega), Option.getD_none]
  exact ⟨fun near => ⟨by omega, rfl, hv⟩, fun far v q h => ⟨h.2.1.symm, by omega⟩⟩

/-- The same of an address that names its voice. The one of the highest slot of the last voice is
too great for sixteen bits, and means the first slot of the sending voice. -/
theorem unit?_of_global (voice : Nat) (hw : w < maxVoices) (hs : slot ≤ 63) (hp : port < 8)
    (hpop : pop ≤ 1)
    (ha : a.toNat = (32768 + w * 1024 + (slot + 2) * 16 + port + 8 * pop) % 65536) :
    (slot < 31 → a.unit? voice = some (w, slot)) ∧
      (31 ≤ slot → ∀ v q, a.unit? voice = some (v, q) →
        (v = w ∧ q + 32 = slot) ∨ (v = voice ∧ q = 0)) := by
  unfold maxVoices at hw
  simp only [unit?_eq_some_iff, place_eq, voice?_eq, inner_toNat]
  constructor
  · intro near
    rw [if_pos (by omega), if_pos (by omega), Option.getD_some]
    exact ⟨by omega, by omega, by unfold maxVoices; omega⟩
  · rintro far v q ⟨place, rfl, few⟩
    by_cases wraps : 32768 ≤ a.toNat
    · rw [if_pos wraps] at place ⊢
      rw [if_pos wraps, Option.getD_some]
      omega
    · rw [if_neg wraps] at place ⊢
      rw [Option.getD_none]
      omega

end SendAddress

/-! ## The addresses of a send -/

namespace Patch

variable {patch : Patch} {i ti slot voice : Nat} {u : PatchUnit} {target : Instrument}

/-- A send that leaves its voice has an address for each voice in which it has its target. -/
theorem sendLayout_elsewhere (slot voice : Nat) (hti : patch.instruments[ti]? = some target)
    (leaves : ¬ (ti = i ∧ u.param "voice" = 0)) :
    patch.sendLayout i u ti target slot = (patch.sendTargets i u ti voice).zipIdx.map fun (w, n) =>
      (0x8010 + 0x400 * w + 16 * (slot + 1) + (u.param "port" % 8).toNat) % 65536 +
        if n + 1 = (patch.sendTargets i u ti voice).length then
          if u.param "sendpop" = 1 then 8 else 0
        else 0 := by
  have voices : patch.sendTargets i u ti voice =
      (if u.param "voice" ≤ 0 then List.range target.numVoices
        else [(u.param "voice" - 1).toNat]).map (patch.firstVoice ti + ·) := by
    rw [sendTargets, if_neg leaves, hti]
    by_cases one : 0 < u.param "voice"
    · rw [if_pos one, if_neg (Int.not_le.mpr one)]
      rfl
    · rw [if_neg one, if_pos (Int.not_lt.mp one)]
      rfl
  rw [voices, List.zipIdx_map, List.map_map, List.length_map, sendLayout, if_neg leaves]
  rfl

/-- A send has an instruction for each voice in which it has its target. -/
theorem sendTargets_length (voice : Nat) (send : u.activeKind? = some .send) {tk : Nat}
    (finds : patch.findUnit (u.param "target") = some (ti, tk)) :
    (patch.sendTargets i u ti voice).length = patch.codeCount i u := by
  rw [codeCount_known patch i (PatchUnit.activeKind?_eq_some send).2]
  simp only [emittedCount, send, finds, sendTargets]
  by_cases here : ti = i ∧ u.param "voice" = 0
  · simp [here]
  · by_cases one : 0 < u.param "voice"
    · simp [here, one]
    · simp [here, one]

/-- The address of a send for one of the voices in which it has its target. -/
theorem sendLayout_getElem? (slot : Nat) (hti : patch.instruments[ti]? = some target) {n w : Nat}
    (hw : (patch.sendTargets i u ti voice)[n]? = some w) :
    ∃ x pop, (patch.sendLayout i u ti target slot)[n]? = some x ∧ pop ≤ 1 ∧
      if ti = i ∧ u.param "voice" = 0 then
        w = voice ∧ x = (slot + 1) * 16 + (u.param "port" % 8).toNat + 8 * pop
      else
        x = (32768 + w * 1024 + (slot + 2) * 16 + (u.param "port" % 8).toNat + 8 * pop) %
          65536 := by
  have port : (u.param "port" % 8).toNat < 8 := by omega
  by_cases here : ti = i ∧ u.param "voice" = 0
  · simp only [sendTargets, sendLayout, if_pos here] at hw ⊢
    obtain ⟨rfl, rfl⟩ : n = 0 ∧ voice = w := by
      cases n with
      | zero => exact ⟨rfl, Option.some.inj hw⟩
      | succ n => cases hw
    refine ⟨_, popsSignal u, rfl, popsSignal_le u, rfl, ?_⟩
    unfold popsSignal
    split <;> omega
  · rw [sendLayout_elsewhere slot voice hti here, List.getElem?_map, List.getElem?_zipIdx, hw]
    simp only [if_neg here]
    refine ⟨_, if n + 1 = (patch.sendTargets i u ti voice).length then popsSignal u else 0, rfl,
      ?_, ?_⟩
    · have := popsSignal_le u
      split <;> omega
    · simp only [Nat.zero_add]
      unfold popsSignal
      split
      · split <;> omega
      · omega

theorem sendLayout_length (slot voice : Nat) (hti : patch.instruments[ti]? = some target) :
    (patch.sendLayout i u ti target slot).length = (patch.sendTargets i u ti voice).length := by
  by_cases here : ti = i ∧ u.param "voice" = 0
  · simp [sendLayout, sendTargets, here]
  · rw [sendLayout_elsewhere slot voice hti here, List.length_map, List.length_zipIdx]

/-- The addresses of a send mean the slot of its target, if the place of that fits into five bits,
and else a slot before it or none. -/
theorem sendLayout_unit? (hti : patch.instruments[ti]? = some target) (fits : slot ≤ 63)
    (hv : voice < maxVoices) {addresses : List SendAddress}
    (layout : addresses.map (·.toNat) = patch.sendLayout i u ti target slot) {n w : Nat}
    (hw : (patch.sendTargets i u ti voice)[n]? = some w) (inside : w < maxVoices) :
    ∃ a, addresses[n]? = some a ∧ a.port = (u.param "port" % 8).toNat ∧
      (slot < 31 → a.unit? voice = some (w, slot)) ∧
      (31 ≤ slot → ∀ v q, a.unit? voice = some (v, q) →
        (v = w ∧ q + 32 = slot) ∨ (v = voice ∧ q = 0)) := by
  have port : (u.param "port" % 8).toNat < 8 := by omega
  obtain ⟨x, pop, hx, pops, number⟩ := sendLayout_getElem? slot hti hw
  rw [← layout, List.getElem?_map] at hx
  obtain ⟨a, ha, rfl⟩ := Option.map_eq_some_iff.mp hx
  refine ⟨a, ha, ?_⟩
  rw [a.port_eq_mod]
  split at number
  · obtain ⟨rfl, number⟩ := number
    obtain ⟨near, far⟩ := SendAddress.unit?_of_local fits port pops hv number
    exact ⟨by omega, near, fun h v q means => .inl (far h v q means)⟩
  · obtain ⟨near, far⟩ := SendAddress.unit?_of_global voice inside fits port pops number
    exact ⟨by omega, near, far⟩

end Patch

/-! ## What a send does -/

/-- A send adds its signal to the unit that its address means, or fails if it means none. -/
theorem Program.sendOpcode_finds (p : Program) {opcode amount : UInt8} {a : SendAddress}
    (hk : CompiledUnit.kindOf? opcode = some .send) {voice slot : Nat} (hv : voice < maxVoices)
    (hs : slot < maxUnits) {s : Moment} {more : List UInt8}
    (ho : s.operands = amount :: addressBytes a ++ more) :
    Ends (p.runUnit voice slot opcode) s
      (fun _ s' => s'.operands = more ∧ ∃ w q, a.unit? voice = some (w, q) ∧
        Delivery.Done ⟨voice, slot, [w], q, a.port, (CompiledUnit.mk opcode []).channels, amount⟩
          s s')
      (fun e _ => SendFault p (CompiledUnit.mk opcode []).channels s e ∨
        (e = .invalidSendTarget a ∧ a.unit? voice = none)) := by
  have run := p.send_ends (c := ⟨opcode, amount :: addressBytes a⟩) hk rfl hv hs ho
  refine run.mono ?_ ?_
  · rintro _ s' ⟨-, place, few, operands, -, done⟩
    exact ⟨operands, _, _, if_neg (by omega), done⟩
  · rintro e s' (h | h | ⟨rfl, lost⟩)
    · exact .inl (.inl h)
    · exact .inl (.inr h)
    · exact .inr ⟨rfl, if_pos lost⟩

/-- The instructions of a send empty their own ports and change only those of the units that
their addresses mean. -/
theorem Program.sendCode_leaves (p : Program) {opcode amount : UInt8}
    (hk : CompiledUnit.kindOf? opcode = some .send) {voice slot : Nat} (hv : voice < maxVoices)
    {addresses : List SendAddress} (hs : slot + addresses.length ≤ maxUnits) {s : Moment}
    {more : List UInt8} (ho : s.operands = (sendCode opcode amount addresses).operands ++ more) :
    Ends (p.runOpcodes voice slot (sendCode opcode amount addresses).opcodes) s
      (fun _ s' => ∀ w q r, (∀ a ∈ addresses, a.unit? voice ≠ some (w, q)) →
        s'.port w q r =
          if w = voice ∧ slot ≤ q ∧ q < slot + addresses.length ∧ r = 0 then 0.0
          else s.port w q r)
      (fun e _ => e = .stackUnderflow ∨ (e = .nonFinite .send ∧ p.trap = true) ∨
        ∃ a ∈ addresses, e = .invalidSendTarget a ∧ a.unit? voice = none) := by
  induction addresses generalizing slot s with
  | nil =>
    intro w q r _
    rw [if_neg (by simp; omega)]
  | cons a addresses ih =>
    have ho' : s.operands = amount :: addressBytes a ++
        ((sendCode opcode amount addresses).operands ++ more) := by
      simpa [sendCode] using ho
    rw [List.length_cons] at hs
    rw [sendCode, List.map_cons, ← sendCode, CodeBlock.opcodes_cons, Program.runOpcodes,
      Ends.bind_iff]
    refine (p.sendOpcode_finds hk hv (by omega) ho').mono ?_ ?_
    · rintro _ s₁ ⟨operands, v, place, means, done⟩
      refine (ih (show slot + 1 + addresses.length ≤ maxUnits by omega) operands).mono ?_ ?_
      · intro _ s' later w q r away
        have here := done.others w q r fun h => away a List.mem_cons_self (by
          rw [means, List.mem_singleton.mp h.1, h.2.1])
        rw [later w q r fun a' ha' => away a' (List.mem_cons_of_mem _ ha'), here, Delivery.base]
        simp only [List.length_cons, List.length_nil]
        split
        · rw [if_pos (by omega)]
        · split
          · rw [if_pos (by omega)]
          · rw [if_neg (by omega)]
      · rintro e s' (h | h | ⟨a', ha', lost⟩)
        · exact .inl h
        · exact .inr (.inl h)
        · exact .inr (.inr ⟨a', List.mem_cons_of_mem _ ha', lost⟩)
    · rintro e s' ((⟨rfl, -⟩ | h) | lost)
      · exact .inl rfl
      · exact .inr (.inl h)
      · exact .inr (.inr ⟨a, List.mem_cons_self, lost⟩)

/-- What the instructions of a send do in a voice, if its target is at a slot of an instrument:
which units its addresses mean, and what becomes of their ports. -/
structure SendsTo (patch : Patch) (i k : Nat) (u : PatchUnit) (ti slot voice : Nat)
    (addresses : List SendAddress) : Prop where
  /-- One address for each voice, and it means the slot there. -/
  near : slot < 31 → ∀ (n w : Nat), (patch.sendTargets i u ti voice)[n]? = some w → w < maxVoices →
    ∃ a : SendAddress, addresses[n]? = some a ∧ a.port = (u.param "port" % 8).toNat ∧
      a.unit? voice = some (w, slot)
  /-- From slot 31 on, an address means the slot of a unit before the target, or none. -/
  far : 31 ≤ slot → ∀ (n w : Nat), (patch.sendTargets i u ti voice)[n]? = some w →
    patch.instrumentForVoice w = some ti →
      ∃ a : SendAddress, addresses[n]? = some a ∧
        ∀ v q, a.unit? voice = some (v, q) → patch.Occupied v q
  /-- An instruction adds the signal to the unit that its address means. -/
  each : ∀ (p : Program) (s : Moment) (more : List UInt8) (n : Nat) (a : SendAddress),
    CompiledUnit.kindOf? (Features.all.unitByte u) = some .send → addresses[n]? = some a →
    s.operands = operand (u.param "amount") :: addressBytes a ++ more →
    Ends (p.runUnit voice (patch.codeSlot i k + n) (Features.all.unitByte u)) s
      (fun _ s' => s'.operands = more ∧ ∃ w q, a.unit? voice = some (w, q) ∧
        Delivery.Done ⟨voice, patch.codeSlot i k + n, [w], q, a.port,
          (CompiledUnit.mk (Features.all.unitByte u) []).channels, operand (u.param "amount")⟩ s s')
      (fun e _ => SendFault p (CompiledUnit.mk (Features.all.unitByte u) []).channels s e ∨
        (e = .invalidSendTarget a ∧ a.unit? voice = none))
  /-- All of them together change no ports but those of the units that the addresses mean, and
  their own. -/
  whole : ∀ (p : Program) (s : Moment) (more : List UInt8),
    CompiledUnit.kindOf? (Features.all.unitByte u) = some .send →
    s.operands = (sendCode (Features.all.unitByte u) (operand (u.param "amount"))
      addresses).operands ++ more →
    Ends (p.runOpcodes voice (patch.codeSlot i k)
        (sendCode (Features.all.unitByte u) (operand (u.param "amount")) addresses).opcodes) s
      (fun _ s' => ∀ w q r, (∀ a ∈ addresses, a.unit? voice ≠ some (w, q)) →
        s'.port w q r =
          if w = voice ∧ patch.codeSlot i k ≤ q ∧ q < patch.codeSlot i k + addresses.length ∧ r = 0
          then 0.0
          else s.port w q r)
      (fun e _ => e = .stackUnderflow ∨ (e = .nonFinite .send ∧ p.trap = true) ∨
        ∃ a ∈ addresses, e = .invalidSendTarget a ∧ a.unit? voice = none)

/-- Every send to an active unit does so with the slot that is counted for that unit, whether or
not the unit has an instruction there. -/
theorem CompiledFor.sendsTo {patch : Patch} {bpm : Nat} {b : Bytecode}
    {assembled : List (List AssembledUnit)} (h : CompiledFor patch .all bpm b assembled)
    (unique : patch.IdsUnique) (few : patch.numVoices ≤ maxVoices) {i k ti tk : Nat}
    {u t : PatchUnit} {target : Instrument} (hu : patch.unit? i k = some u)
    (send : u.activeKind? = some .send) (ht : patch.unit? ti tk = some t)
    (active : t.isActive = true) (means : u.param "target" = t.id) (nonzero : t.id ≠ 0)
    (hti : patch.instruments[ti]? = some target) {addresses : List SendAddress}
    (layout : addresses.map (·.toNat) = patch.sendLayout i u ti target (patch.codeSlot ti tk))
    {voice : Nat} (hv : patch.instrumentForVoice voice = some i) :
    addresses.length = (patch.sendTargets i u ti voice).length ∧
      SendsTo patch i k u ti (patch.codeSlot ti tk) voice addresses := by
  obtain ⟨uactive, -⟩ := PatchUnit.activeKind?_eq_some send
  obtain ⟨_, _, _, _, _, -, -, -, -, room, -⟩ := h.code_at ht active
  obtain ⟨_, _, _, _, _, -, -, -, -, own_room, -⟩ := h.code_at hu uactive
  have slot : patch.codeSlot ti tk ≤ 63 := by omega
  have count : addresses.length = (patch.sendTargets i u ti voice).length := by
    rw [← Patch.sendLayout_length (patch.codeSlot ti tk) voice hti, ← layout, List.length_map]
  have code : (patch.sendTargets i u ti voice).length = patch.codeCount i u :=
    Patch.sendTargets_length voice send (means ▸ Patch.findUnit_eq unique ht active nonzero)
  have inside : voice < maxVoices := Nat.lt_of_lt_of_le (Patch.voice_lt hv) few
  refine ⟨count, ?_, ?_, ?_, ?_⟩
  · intro near n w hw few
    obtain ⟨a, ha, port, found, -⟩ := Patch.sendLayout_unit? hti slot inside layout hw few
    exact ⟨a, ha, port, found near⟩
  · intro far n w hw plays
    have fits : w < maxVoices := Nat.lt_of_lt_of_le (Patch.voice_lt plays) few
    obtain ⟨a, ha, -, -, found⟩ := Patch.sendLayout_unit? hti slot inside layout hw fits
    refine ⟨a, ha, fun v q hq => ?_⟩
    rcases found far v q hq with ⟨rfl, before⟩ | ⟨rfl, rfl⟩
    · exact Patch.occupied_before plays (n := tk) (by omega)
    · refine Patch.occupied_before hv (n := k + 1) ?_
      have some_target := (List.getElem?_eq_some_iff.mp hw).1
      rw [Patch.codeSlot_succ hu]
      omega
  · intro p s more n a hk ha ho
    have place := (List.getElem?_eq_some_iff.mp ha).1
    exact p.sendOpcode_finds hk inside (by unfold maxUnits; omega) ho
  · intro p s more hk ho
    exact p.sendCode_leaves hk inside (by unfold maxUnits; omega) ho

/-! ## Sends to delays without lines -/

/-- Every send to a delay without lines is compiled as if the delay were there: to addresses of the
slot after the instructions before it. If a later unit of its instrument has instructions, the
first of these stands there, and gets what is sent to the delay; only if there is none, nothing
does. -/
theorem elided_delays_hand_on {patch : Patch} {bpm : Nat} {b : Bytecode}
    (compiled : Bytecode.compile patch .all bpm = .ok b) (unique : patch.IdsUnique)
    {i k ti tk : Nat} {u t : PatchUnit} {target : Instrument}
    (hu : patch.unit? i k = some u) (send : u.activeKind? = some .send)
    (ht : patch.unit? ti tk = some t) (delay : t.activeKind? = some .delay)
    (elided : linesPerChannel t = 0) (means : u.param "target" = t.id) (nonzero : t.id ≠ 0)
    (hti : patch.instruments[ti]? = some target) :
    ∃ (blocks : List CodeBlock) (before : CodeBlock) (addresses : List SendAddress)
      (after : CodeBlock),
      b.opcodes = CodeBlock.opcodeStream blocks ∧ b.operands = CodeBlock.operandStream blocks ∧
      blocks[i]? = some (before ++
        (sendCode (Features.all.unitByte u) (operand (u.param "amount")) addresses ++ after)) ∧
      before.length = patch.codeSlot i k ∧
      addresses.map (·.toNat) = patch.sendLayout i u ti target (patch.codeSlot ti tk) ∧
      (patch.EmitsAfter ti tk → ∃ l next, tk < l ∧ patch.unit? ti l = some next ∧
        0 < patch.codeCount ti next ∧ patch.codeSlot ti l = patch.codeSlot ti tk) ∧
      ∀ voice, patch.instrumentForVoice voice = some i →
        SendsTo patch i k u ti (patch.codeSlot ti tk) voice addresses ∧
        (patch.codeSlot ti tk < 31 → u.param "voice" ≤ target.numVoices →
          ∀ a ∈ addresses, ∃ w, patch.instrumentForVoice w = some ti ∧
            a.unit? voice = some (w, patch.codeSlot ti tk) ∧
            (patch.Occupied w (patch.codeSlot ti tk) ↔ patch.EmitsAfter ti tk)) := by
  obtain ⟨assembled, h⟩ := Bytecode.compile_for compiled
  obtain ⟨_, all⟩ := Bytecode.compile_ok compiled
  obtain ⟨active, kind⟩ := PatchUnit.activeKind?_eq_some delay
  have nothing : patch.codeCount ti t = 0 := by
    rw [Patch.codeCount_known patch ti kind, Patch.emittedCount, delay]
    exact if_pos elided
  obtain ⟨before, addresses, after, block, slot, layout⟩ :=
    h.send_at unique hu send ht active means nonzero hti
  refine ⟨_, before, addresses, after, h.opcodes, h.operands, block, slot, layout, ?_, ?_⟩
  · exact fun later => later.next ht nothing
  · intro voice hv
    obtain ⟨count, sends⟩ := h.sendsTo unique all.few hu send ht active means nonzero hti layout hv
    refine ⟨sends, fun near range a ha => ?_⟩
    obtain ⟨n, hn⟩ := List.getElem?_of_mem ha
    have place := (List.getElem?_eq_some_iff.mp hn).1
    have hw := List.getElem?_eq_getElem (count ▸ place)
    have plays := Patch.sendTargets_mem hti hv range (List.mem_of_getElem? hw)
    obtain ⟨a', ha', -, found⟩ :=
      sends.near near n _ hw (Nat.lt_of_lt_of_le (Patch.voice_lt plays) all.few)
    obtain rfl : a = a' := Option.some.inj (hn.symm.trans ha')
    exact ⟨_, plays, found, Patch.occupied_iff_emitsAfter plays ht nothing⟩

/-- A patch that sends to a delay without lines, behind which a unit receives. -/
def elidedPatch : Patch where
  instruments := [
    { units := [
        { kindName := "loadval", settings := .ofEntries [("value", 128)] },
        { kindName := "send"
          settings := .ofEntries [("amount", 128), ("target", 1), ("sendpop", 1)] },
        { kindName := "delay", id := 1, settings := .ofEntries [] },
        { kindName := "receive", settings := .ofEntries [] },
        { kindName := "out", settings := .ofEntries [("gain", 128)] }] }]

theorem elided_delays_hand_on_receive :
    ∃ (b : Bytecode) (addresses : List SendAddress),
      Bytecode.compile elidedPatch .all 100 = .ok b ∧ addresses.map (·.toNat) = [56] ∧
      elidedPatch.EmitsAfter 0 2 ∧
      ∀ a ∈ addresses, ∃ w, a.unit? 0 = some (w, 2) ∧ elidedPatch.Occupied w 2 := by
  obtain ⟨b, compiled⟩ : ∃ b, Bytecode.compile elidedPatch .all 100 = .ok b := ⟨_, rfl⟩
  obtain ⟨blocks, before, addresses, after, -, -, -, -, layout, -, runs⟩ :=
    elided_delays_hand_on compiled (by decide +kernel)
      (show elidedPatch.unit? 0 1 = some _ from rfl) (by decide +kernel)
      (show elidedPatch.unit? 0 2 = some _ from rfl) (by decide +kernel) (by decide +kernel)
      (by decide +kernel) (by decide) rfl
  have later : elidedPatch.EmitsAfter 0 2 := ⟨3, _, by decide, rfl, by decide +kernel⟩
  have slot : elidedPatch.codeSlot 0 2 = 2 := by decide +kernel
  refine ⟨b, addresses, compiled, layout.trans (by decide +kernel), later, fun a ha => ?_⟩
  obtain ⟨-, found⟩ := runs 0 rfl
  rw [slot] at found
  obtain ⟨w, -, here, occupied⟩ := found (by decide) (by decide +kernel) a ha
  exact ⟨w, here, occupied.mpr later⟩

end ModularSynth
